import Mathlib.Data.Nat.Notation
import Mathlib.Logic.Function.Basic
import ScriptOps.Text.Utf16

/-!
# The order of the code units

Strings are compared by their code units. A character beyond U+FFFF starts with a surrogate, and the
surrogates come before U+E000. So the comparison is the lexicographic one of the characters, with
the characters from U+E000 to U+FFFF after all others. From this follows that it is a total order
that tells the strings apart, that a common start does not matter, and where it parts from the order
of the code points.
-/

namespace ScriptOps.Utf16

/-! ### One character -/

/-- The character lies beyond U+FFFF, so that it is a pair of surrogates. -/
def IsSupplementary (c : Char) : Prop :=
  0xFFFF < c.toNat

/-- The character is one code unit that comes after the surrogates. -/
def IsAboveSurrogates (c : Char) : Prop :=
  0xE000 ≤ c.toNat ∧ c.toNat ≤ 0xFFFF

instance (c : Char) : Decidable (IsAboveSurrogates c) :=
  inferInstanceAs (Decidable (_ ∧ _))

/-- The place of a character in the order of the code units. -/
def place (c : Char) : ℕ :=
  if IsAboveSurrogates c then 0x110000 + c.toNat else c.toNat

/-- The code points of characters leave out the surrogates. -/
theorem place_cases (c : Char) :
    c.toNat < 0xD800 ∧ place c = c.toNat ∨
      0xE000 ≤ c.toNat ∧ c.toNat < 0x10000 ∧ place c = 0x110000 + c.toNat ∨
      0x10000 ≤ c.toNat ∧ c.toNat < 0x110000 ∧ place c = c.toNat := by
  have hbounds : c.toNat < 0xD800 ∨ 0xDFFF < c.toNat ∧ c.toNat < 0x110000 := c.valid
  by_cases h : IsAboveSurrogates c
  · rw [place, if_pos h]
    unfold IsAboveSurrogates at h
    omega
  · rw [place, if_neg h]
    unfold IsAboveSurrogates at h
    omega

/-- Different characters have different places. -/
theorem place_injective : Function.Injective place := by
  intro x y heq
  apply Char.toNat_inj.1
  have hx := place_cases x
  have hy := place_cases y
  omega

/-- A character is one code unit or a pair of surrogates. -/
theorem ofChar_cases (c : Char) :
    c.toNat < 0x10000 ∧ ofChar c = [c.toNat] ∨
      0x10000 ≤ c.toNat ∧ ofChar c =
        [0xD800 + (c.toNat - 0x10000) / 0x400, 0xDC00 + (c.toNat - 0x10000) % 0x400] := by
  by_cases h : c.toNat < 0x10000
  · exact .inl ⟨h, if_pos h⟩
  · exact .inr ⟨Nat.not_lt.1 h, if_neg h⟩

/-- Every character has a code unit. -/
theorem ofChar_ne_nil (c : Char) : ofChar c ≠ [] := by
  rcases ofChar_cases c with ⟨-, h⟩ | ⟨-, h⟩ <;> rw [h] <;> exact List.cons_ne_nil _ _

/-! ### Comparing units -/

/-- Comparing two numbers depends on which one is less alone. -/
theorem compare_congr {m n m' n' : ℕ} (hlt : m < n ↔ m' < n') (hgt : n < m ↔ n' < m') :
    Ord.compare m n = Ord.compare m' n' := by
  simp only [Nat.compare_eq_ite_lt, hlt, hgt]

/-- Different units settle a comparison. -/
theorem compare_then_of_ne {m n : ℕ} (hne : m ≠ n) (o : Ordering) :
    (Ord.compare m n).then o = Ord.compare m n := by
  rcases Nat.lt_or_gt_of_ne hne with h | h
  · rw [Nat.compare_eq_lt.2 h]
    rfl
  · rw [Nat.compare_eq_gt.2 h]
    rfl

/-- Pairs of surrogates compare as what they stand for. -/
theorem compare_surrogates (m n : ℕ) :
    (Ord.compare (0xD800 + m / 0x400) (0xD800 + n / 0x400)).then
      (Ord.compare (0xDC00 + m % 0x400) (0xDC00 + n % 0x400)) = Ord.compare m n := by
  by_cases h : m / 0x400 = n / 0x400
  · rw [h, Nat.compare_eq_eq.2 rfl]
    exact compare_congr (by omega) (by omega)
  · rw [compare_then_of_ne (by omega)]
    exact compare_congr (by omega) (by omega)

/-- The units of two characters settle the comparison as their places do. The units of different
characters differ before either ends, so what follows them is not compared. -/
theorem compare_ofChar_append (x y : Char) (units units' : List ℕ) :
    Ord.compare (ofChar x ++ units) (ofChar y ++ units') =
      (Ord.compare (place x) (place y)).then (Ord.compare units units') := by
  have hx := place_cases x
  have hy := place_cases y
  rcases ofChar_cases x with ⟨hunit, hofx⟩ | ⟨hpair, hofx⟩ <;>
    rcases ofChar_cases y with ⟨hunit', hofy⟩ | ⟨hpair', hofy⟩ <;>
    simp only [hofx, hofy, List.cons_append, List.nil_append, List.compare_cons_cons]
  -- two single units, a single unit and a surrogate in either order, and two pairs
  · have hplace : Ord.compare x.toNat y.toNat = Ord.compare (place x) (place y) :=
      compare_congr (by omega) (by omega)
    rw [hplace]
  · rw [compare_then_of_ne (by omega), compare_then_of_ne (by omega)]
    exact compare_congr (by omega) (by omega)
  · rw [compare_then_of_ne (by omega), compare_then_of_ne (by omega)]
    exact compare_congr (by omega) (by omega)
  · have hplace : Ord.compare (x.toNat - 0x10000) (y.toNat - 0x10000) =
        Ord.compare (place x) (place y) := compare_congr (by omega) (by omega)
    rw [← Ordering.then_assoc, compare_surrogates, hplace]

/-! ### Strings -/

/-- Comparing the code units of texts is comparing the places of their characters. -/
theorem compare_flatMap_ofChar (xs ys : List Char) :
    Ord.compare (xs.flatMap ofChar) (ys.flatMap ofChar) =
      Ord.compare (xs.map place) (ys.map place) := by
  induction xs generalizing ys with
  | nil =>
    cases ys with
    | nil => rfl
    | cons y ys =>
      obtain ⟨unit, units, hunits⟩ := List.exists_cons_of_ne_nil (ofChar_ne_nil y)
      rw [List.flatMap_cons, hunits]
      rfl
  | cons x xs ih =>
    cases ys with
    | nil =>
      obtain ⟨unit, units, hunits⟩ := List.exists_cons_of_ne_nil (ofChar_ne_nil x)
      rw [List.flatMap_cons, hunits]
      rfl
    | cons y ys =>
      rw [List.flatMap_cons, List.flatMap_cons, compare_ofChar_append, ih, List.map_cons,
        List.map_cons, List.compare_cons_cons]

/-- Strings compare as the places of their characters. -/
theorem compare_eq_compare_place (a b : String) :
    compare a b = Ord.compare (a.toList.map place) (b.toList.map place) :=
  compare_flatMap_ofChar _ _

instance : Std.TransCmp compare :=
  inferInstanceAs (Std.TransCmp (compareOn encode))

instance : Std.LawfulEqCmp compare where
  compare_self := Std.ReflOrd.compare_self
  eq_of_compare {a b} h := by
    rw [compare_eq_compare_place] at h
    have hplaces := Std.LawfulEqOrd.eq_of_compare h
    exact String.toList_inj.1 ((List.map_inj_right place_injective).1 hplaces)

/-- A common start does not matter to a comparison by images. -/
theorem compare_map_append {f : Char → ℕ} (start xs ys : List Char) :
    Ord.compare ((start ++ xs).map f) ((start ++ ys).map f) =
      Ord.compare (xs.map f) (ys.map f) := by
  induction start with
  | nil => rfl
  | cons c start ih =>
    rw [List.cons_append, List.cons_append, List.map_cons, List.map_cons, List.compare_cons_cons,
      ih, Nat.compare_eq_eq.2 rfl]
    rfl

/-- A common start does not matter. -/
theorem compare_append_left (start a b : String) :
    compare (start ++ a) (start ++ b) = compare a b := by
  simp only [compare_eq_compare_place, String.toList_append, compare_map_append]

/-! ### The order of the code points -/

/-- The lexicographic order of the code points. -/
def compareCodePoints (a b : String) : Ordering :=
  Ord.compare (a.toList.map Char.toNat) (b.toList.map Char.toNat)

/-- Two lexicographic orders disagree exactly when they do at the first difference. -/
theorem compare_map_ne_iff {f g : Char → ℕ} (hf : Function.Injective f)
    (hg : Function.Injective g) {xs ys : List Char} :
    Ord.compare (xs.map f) (ys.map f) ≠ Ord.compare (xs.map g) (ys.map g) ↔
      ∃ start x xs' y ys', xs = start ++ x :: xs' ∧ ys = start ++ y :: ys' ∧
        Ord.compare (f x) (f y) ≠ Ord.compare (g x) (g y) := by
  constructor
  · intro hne
    induction xs generalizing ys with
    | nil => cases ys <;> exact absurd rfl hne
    | cons x xs ih =>
      cases ys with
      | nil => exact absurd rfl hne
      | cons y ys =>
        simp only [List.map_cons, List.compare_cons_cons] at hne
        by_cases heq : x = y
        · -- the orders agree on the first character, so they disagree on the rest
          subst heq
          rw [Nat.compare_eq_eq.2 rfl, Nat.compare_eq_eq.2 rfl] at hne
          obtain ⟨start, x', xs', y', ys', rfl, rfl, hdiffer⟩ := ih hne
          exact ⟨x :: start, x', xs', y', ys', rfl, rfl, hdiffer⟩
        · rw [compare_then_of_ne (hf.ne heq), compare_then_of_ne (hg.ne heq)] at hne
          exact ⟨[], x, xs, y, ys, rfl, rfl, hne⟩
  · rintro ⟨start, x, xs', y, ys', rfl, rfl, hdiffer⟩
    have hxy : x ≠ y := by
      rintro rfl
      rw [Nat.compare_eq_eq.2 rfl, Nat.compare_eq_eq.2 rfl] at hdiffer
      exact hdiffer rfl
    simp only [compare_map_append, List.map_cons, List.compare_cons_cons]
    rwa [compare_then_of_ne (hf.ne hxy), compare_then_of_ne (hg.ne hxy)]

/-- Two characters are in the other order when one of them is a pair of surrogates and the other one
a unit above the surrogates. -/
theorem compare_place_ne_iff (x y : Char) :
    Ord.compare (place x) (place y) ≠ Ord.compare x.toNat y.toNat ↔
      IsSupplementary x ∧ IsAboveSurrogates y ∨ IsAboveSurrogates x ∧ IsSupplementary y := by
  have hx := place_cases x
  have hy := place_cases y
  unfold IsSupplementary IsAboveSurrogates
  constructor
  · intro hne
    by_contra hnone
    exact hne (compare_congr (by omega) (by omega))
  · rintro (h | h)
    · rw [Nat.compare_eq_lt.2 (by omega : place x < place y),
        Nat.compare_eq_gt.2 (by omega : y.toNat < x.toNat)]
      exact Ordering.noConfusion
    · rw [Nat.compare_eq_gt.2 (by omega : place y < place x),
        Nat.compare_eq_lt.2 (by omega : x.toNat < y.toNat)]
      exact Ordering.noConfusion

/-! ### The order of strings -/

/-- The comparison by code units is a total order of the strings. Only equal strings compare as
equal, an extension comes after what it extends, and a common start does not matter. The code points
give another order exactly when, at the first difference, one string has a character beyond U+FFFF
and the other one a character from U+E000 to U+FFFF. -/
theorem compare_total_order :
    (∀ a b : String, compare a b = .eq ↔ a = b) ∧
    (∀ a b : String, compare b a = (compare a b).swap) ∧
    (∀ a b c : String, compare a b = .lt → compare b c = .lt → compare a c = .lt) ∧
    (∀ a b c : String, (compare a b).isLE → (compare b c).isLE → (compare a c).isLE) ∧
    (∀ a b : String, b ≠ "" → compare a (a ++ b) = .lt) ∧
    (∀ start a b : String, compare (start ++ a) (start ++ b) = compare a b) ∧
    (∀ a b : String, compare a b ≠ compareCodePoints a b ↔
      ∃ (start : List Char) (x : Char) (a' : List Char) (y : Char) (b' : List Char),
        a.toList = start ++ x :: a' ∧ b.toList = start ++ y :: b' ∧
          (IsSupplementary x ∧ IsAboveSurrogates y ∨ IsAboveSurrogates x ∧ IsSupplementary y)) := by
  refine ⟨?_, ?_, ?_, ?_, ?_, compare_append_left, ?_⟩
  · intro a b
    exact Std.LawfulEqCmp.compare_eq_iff_eq
  · intro a b
    exact Std.OrientedCmp.eq_swap
  · intro a b c
    exact Std.TransCmp.lt_trans
  · intro a b c
    exact Std.TransCmp.isLE_trans
  · intro a b hb
    have hstart := compare_append_left a "" b
    rw [String.append_empty] at hstart
    rw [hstart, compare_eq_compare_place]
    obtain ⟨c, chars, hchars⟩ := List.exists_cons_of_ne_nil (mt String.toList_eq_nil_iff.1 hb)
    rw [hchars]
    rfl
  · intro a b
    have hcodePoints : Function.Injective Char.toNat := fun _ _ => Char.toNat_inj.1
    rw [compare_eq_compare_place, compareCodePoints,
      compare_map_ne_iff place_injective hcodePoints]
    simp only [compare_place_ne_iff]

/-- The surrogates of U+1F600 come before U+FF61, although its code point does not. -/
theorem compare_total_order_surrogates :
    let a := "a😀"
    let b := "a｡"
    "😀" ≠ "" ∧ compare "a" a = .lt ∧ compare a b = .lt ∧ compareCodePoints a b = .gt := by
  intro a b
  obtain ⟨-, -, -, -, hextension, hstart, -⟩ := compare_total_order
  have hne : "😀" ≠ "" := by decide
  have hunits : compare "😀" "｡" = .lt := by decide +kernel
  refine ⟨hne, hextension "a" "😀" hne, (hstart "a" "😀" "｡").trans hunits, by decide +kernel⟩

end ScriptOps.Utf16
