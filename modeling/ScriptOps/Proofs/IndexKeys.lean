import ScriptOps.Proofs.NumberRoundTrip
import ScriptOps.PropertyAccess

/-!
# Keys of elements and of code units

A key is an index exactly when it is the decimal text of a number, and a number is written this way
exactly when it equals an index. So the element of an array has one key, whatever number or text it
is asked for by. The same texts are the keys of the code units of a string, up to its length. Code
units stay where they are when strings are joined. A unit reads as its character, and half of a pair
of surrogates as the replacement character.
-/

namespace ScriptOps

/-! ### Numbers as keys -/

/-- The key of a number is an index when the number equals it. -/
theorem arrayIndexOfKey?_numberText_eq_some_iff {x : Float} {i : ℕ} :
    arrayIndexOfKey? (numberText x) = some i ↔ i ≤ maxArrayIndex ∧ x == floatOfInt i := by
  rw [arrayIndexOfKey?_eq_some_iff, and_comm, and_congr_right_iff]
  intro hi
  have hbound : (i : ℤ).natAbs < 2 ^ 52 := by
    unfold maxArrayIndex at hi
    omega
  have htext : toString i = numberText (floatOfInt i) := (numberText_floatOfInt hbound).symm
  rw [htext, numberText_eq_iff, isNaN_floatOfInt (hbound.trans (by decide))]
  simp

/-! ### Code units -/

namespace Utf16

/-- The code units of joined strings are those of the first one and then those of the second one. -/
theorem encode_append (a b : String) : encode (a ++ b) = encode a ++ encode b := by
  rw [encode, String.toList_append, List.flatMap_append]
  rfl

/-- The length of joined strings is the sum of the lengths. -/
theorem length_append (a b : String) : length (a ++ b) = length a + length b := by
  rw [length, encode_append, List.length_append]
  rfl

/-- The code units of the first of two strings come before those of the second one. -/
theorem unitAt?_append_left {a : String} {i : ℕ} (hi : i < length a) (b : String) :
    unitAt? (a ++ b) i = unitAt? a i := by
  rw [unitAt?, encode_append, List.getElem?_append_left hi]
  rfl

/-- The code units of the second of two strings come after those of the first one. -/
theorem unitAt?_append_right {a : String} {i : ℕ} (hi : length a ≤ i) (b : String) :
    unitAt? (a ++ b) i = unitAt? b (i - length a) := by
  rw [unitAt?, encode_append, List.getElem?_append_right hi]
  rfl

/-- There is a code unit at every index below the length. -/
theorem unitAt?_of_lt {s : String} {i : ℕ} (hi : i < length s) :
    ∃ unit, unitAt? s i = some unit := by
  rw [unitAt?, List.getElem?_eq_getElem hi]
  exact ⟨_, rfl⟩

/-- There is none at the length or past it. -/
theorem unitAt?_of_le {s : String} {i : ℕ} (hi : length s ≤ i) : unitAt? s i = none := by
  rw [unitAt?, List.getElem?_eq_none hi]
  rfl

/-- A unit that is the code point of a character reads as the character. -/
theorem toChar_toNat (c : Char) : toChar c.toNat = c := by
  have hvalid : c.toNat.isValidChar := c.valid
  rw [toChar, if_pos hvalid, Char.ofNat_toNat]

/-- A surrogate reads as the replacement character. -/
theorem toChar_of_surrogate {unit : ℕ} (hlow : 0xD800 ≤ unit) (hhigh : unit ≤ 0xDFFF) :
    toChar unit = '\uFFFD' := by
  have hinvalid : ¬unit.isValidChar := by
    unfold Nat.isValidChar
    omega
  rw [toChar, if_neg hinvalid]

/-- What the code units of a character read as: the character, or twice the replacement character
for a pair of surrogates. -/
def readings (c : Char) : List Char :=
  if c.toNat < 0x10000 then [c] else ['\uFFFD', '\uFFFD']

/-- The code units of a character read as told. -/
theorem map_toChar_ofChar (c : Char) : (ofChar c).map toChar = readings c := by
  have hbound : c.toNat < 0x110000 := by
    have hvalid : c.toNat < 0xD800 ∨ 0xDFFF < c.toNat ∧ c.toNat < 0x110000 := c.valid
    omega
  by_cases h : c.toNat < 0x10000
  · rw [ofChar, readings, if_pos h, if_pos h, List.map_singleton, toChar_toNat]
  · have hlead : toChar (0xD800 + (c.toNat - 0x10000) / 0x400) = '\uFFFD' :=
      toChar_of_surrogate (by omega) (by omega)
    have htrail : toChar (0xDC00 + (c.toNat - 0x10000) % 0x400) = '\uFFFD' :=
      toChar_of_surrogate (by omega) (by omega)
    rw [ofChar, readings, if_neg h, if_neg h, List.map_cons, hlead, List.map_singleton, htrail]

/-- The code units of a string read as its characters, one after the other. -/
theorem unitAt?_eq_readings (s : String) (i : ℕ) :
    unitAt? s i = (s.toList.flatMap readings)[i]?.map Char.toString := by
  have hreadings : s.toList.flatMap readings = (encode s).map toChar := by
    rw [encode, List.map_flatMap]
    exact List.flatMap_congr fun c _ => (map_toChar_ofChar c).symm
  rw [hreadings, List.getElem?_map, Option.map_map]
  rfl

end Utf16

/-! ### Properties of strings -/

/-- No index is written as the key of the length. -/
theorem toString_ne_length (i : ℕ) : toString i ≠ "length" := by
  intro h
  have hnone : indexOfKey? "length" = none := by cbv
  exact Option.some_ne_none i ((indexOfKey?_eq_some_iff.2 h.symm).symm.trans hnone)

/-- The length of a string is a number. -/
theorem textProperty_length (s : String) :
    textProperty s "length" = .ofInt (Utf16.length s) ∧ textProperty s "length" ≠ .undefined := by
  have hlength : textProperty s "length" = .ofInt (Utf16.length s) := if_pos rfl
  refine ⟨hlength, ?_⟩
  rw [hlength, Primitive.ofInt]
  split <;> exact Primitive.noConfusion

/-- The decimal text of an index reads the code unit there. -/
theorem textProperty_toString (s : String) (i : ℕ) :
    textProperty s (toString i) = ((Utf16.unitAt? s i).map Primitive.str).getD .undefined := by
  rw [textProperty, if_neg (toString_ne_length i), indexOfKey?_eq_some_iff.2 rfl, Option.bind_some]
  cases Utf16.unitAt? s i <;> rfl

/-- No other key reads anything. -/
theorem textProperty_of_ne {s key : String} (hlength : key ≠ "length")
    (hindex : ∀ i : ℕ, key ≠ toString i) : textProperty s key = .undefined := by
  have hnone : indexOfKey? key = none :=
    Option.eq_none_iff_forall_ne_some.2 fun i h => hindex i (indexOfKey?_eq_some_iff.1 h)
  rw [textProperty, if_neg hlength, hnone]
  rfl

/-- Below the length, the text of an index reads the code unit there. -/
theorem textProperty_of_lt {s : String} {i : ℕ} (hi : i < Utf16.length s) :
    ∃ unit, Utf16.unitAt? s i = some unit ∧ textProperty s (toString i) = .str unit := by
  obtain ⟨unit, hunit⟩ := Utf16.unitAt?_of_lt hi
  refine ⟨unit, hunit, ?_⟩
  rw [textProperty_toString, hunit]
  rfl

/-- The keys that read something are the length and the texts of the indices below it. -/
theorem textProperty_ne_undefined_iff {s key : String} :
    textProperty s key ≠ .undefined ↔
      key = "length" ∨ ∃ i < Utf16.length s, key = toString i := by
  constructor
  · intro hne
    by_contra hnone
    obtain ⟨hlength, hindex⟩ := not_or.1 hnone
    by_cases hkey : ∃ i : ℕ, key = toString i
    · obtain ⟨i, rfl⟩ := hkey
      have hi : Utf16.length s ≤ i := Nat.le_of_not_lt fun hi => hindex ⟨i, hi, rfl⟩
      rw [textProperty_toString, Utf16.unitAt?_of_le hi] at hne
      exact hne rfl
    · exact hne (textProperty_of_ne hlength (not_exists.1 hkey))
  · rintro (rfl | ⟨i, hi, rfl⟩)
    · exact (textProperty_length s).2
    · obtain ⟨unit, -, hread⟩ := textProperty_of_lt hi
      rw [hread]
      exact Primitive.noConfusion

/-! ### Index keys -/

/-- The keys of elements are the decimal texts of the indices. As a key, a number is an index when
it equals it, so zero of either sign is the first one. Of a string exactly the length and the code
units can be read, a unit by the decimal text of its index. It reads as its character, or as the
replacement character if it is half of a pair. Joined strings have the code units of the first one
and then those of the second one. -/
theorem index_keys_canonical :
    (∀ (key : String) (i : ℕ),
      arrayIndexOfKey? key = some i ↔ key = toString i ∧ i ≤ 2 ^ 32 - 2) ∧
    (∀ (host : Host) (p : Primitive) (x : Float), p.float? = some x →
      ∃ key, host.toPropertyKey (.primitive p) = pure key ∧
        ∀ i : ℕ, arrayIndexOfKey? key = some i ↔ i ≤ 2 ^ 32 - 2 ∧ x == floatOfInt i) ∧
    (∀ s key : String, ∃ p : Primitive,
      getProperty (.primitive (.str s)) key = pure (.primitive p) ∧
        (p ≠ .undefined ↔ key = "length" ∨ ∃ i < Utf16.length s, key = toString i) ∧
        (key = "length" → p = .ofInt (Utf16.length s)) ∧
        ∀ i < Utf16.length s, key = toString i →
          ∃ unit, Utf16.unitAt? s i = some unit ∧ p = .str unit) ∧
    (∀ (s : String) (i : ℕ),
      Utf16.unitAt? s i = (s.toList.flatMap Utf16.readings)[i]?.map Char.toString) ∧
    (∀ a b : String, Utf16.length (a ++ b) = Utf16.length a + Utf16.length b) ∧
    (∀ (a b : String) (i : ℕ),
      (i < Utf16.length a → Utf16.unitAt? (a ++ b) i = Utf16.unitAt? a i) ∧
      (Utf16.length a ≤ i →
        Utf16.unitAt? (a ++ b) i = Utf16.unitAt? b (i - Utf16.length a))) := by
  refine ⟨?_, ?_, ?_, Utf16.unitAt?_eq_readings, Utf16.length_append, ?_⟩
  · intro key i
    exact arrayIndexOfKey?_eq_some_iff
  · intro host p x hp
    refine ⟨_, host.toPropertyKey_of_float? hp, ?_⟩
    intro i
    exact arrayIndexOfKey?_numberText_eq_some_iff
  · intro s key
    refine ⟨textProperty s key, rfl, textProperty_ne_undefined_iff, ?_, ?_⟩
    · rintro rfl
      exact (textProperty_length s).1
    · rintro i hi rfl
      exact textProperty_of_lt hi
  · intro a b i
    exact ⟨fun hi => Utf16.unitAt?_append_left hi b, fun hi => Utf16.unitAt?_append_right hi b⟩

/-- Negative zero is the first index. A character beyond U+FFFF has two code units, of which the
first reads as the replacement character, and the next character has the index 2. -/
theorem index_keys_canonical_negative_zero :
    let host : Host := ⟨fun _ _ => .answer .undefined, fun _ => false, fun _ => none, 0⟩
    let p : Primitive := .number (-0)
    let s := "😀" ++ "b"
    p.float? = some (-0) ∧
      (∃ key, host.toPropertyKey (.primitive p) = pure key ∧ arrayIndexOfKey? key = some 0) ∧
      Utf16.length "😀" ≤ 2 ∧ 2 < Utf16.length s ∧
      Utf16.unitAt? s 0 = some "\uFFFD" ∧
      getProperty (.primitive (.str s)) "2" = pure (.primitive (.str "b")) := by
  intro host p s
  obtain ⟨-, hnumber, hstring, hreads, -, hjoined⟩ := index_keys_canonical
  have hp : p.float? = some (-0) := rfl
  have hleft : Utf16.length "😀" ≤ 2 := by decide +kernel
  have hindex : 2 < Utf16.length s := by decide +kernel
  have hunit : Utf16.unitAt? s 2 = some "b" :=
    ((hjoined "😀" "b" 2).2 hleft).trans (by decide +kernel)
  refine ⟨hp, ?_, hleft, hindex, (hreads s 0).trans (by decide +kernel), ?_⟩
  · obtain ⟨key, hkey, hiff⟩ := hnumber host p (-0) hp
    exact ⟨key, hkey, (hiff 0).2 ⟨by decide, by decide +kernel⟩⟩
  · obtain ⟨q, hread, -, -, hq⟩ := hstring s "2"
    obtain ⟨unit, hunit', rfl⟩ := hq 2 hindex rfl
    cases hunit.symm.trans hunit'
    exact hread

end ScriptOps
