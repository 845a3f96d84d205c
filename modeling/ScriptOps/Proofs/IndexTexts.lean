import Mathlib.Data.List.Basic
import Std.Data.String.ToNat
import ScriptOps.Text.Index

/-!
# Index keys are decimal texts

Digits without a leading zero are the decimal text of the number that they stand for. So a key that
names an index is the text of that index, and each index has one key.
-/

namespace ScriptOps

/-- A number that is not zero has no leading zero. -/
theorem head?_toDigits {n : ℕ} (hn : 0 < n) : (Nat.toDigits 10 n).head? ≠ some '0' := by
  induction n using Nat.strongRecOn with
  | _ n ih =>
    by_cases hsmall : n < 10
    · rw [Nat.toDigits_of_lt_base hsmall, List.head?_cons, ne_eq, Option.some_inj,
        Nat.digitChar_eq_zero]
      exact Nat.pos_iff_ne_zero.1 hn
    · have hpos : 0 < n / 10 := Nat.div_pos (Nat.not_lt.1 hsmall) (by decide)
      rw [Nat.toDigits_of_base_le (by decide) (Nat.not_lt.1 hsmall),
        List.head?_append_of_ne_nil _ Nat.toDigits_ne_nil]
      exact ih _ (Nat.div_lt_self (by omega) (by decide)) hpos

/-- A digit is the text of its value. -/
theorem toDigits_digit {c : Char} (hc : c.isDigit) :
    c.toNat - '0'.toNat < 10 ∧ Nat.toDigits 10 (c.toNat - '0'.toNat) = [c] := by
  have hbounds : 48 ≤ c.toNat ∧ c.toNat ≤ 57 := Char.isDigit_iff_toNat.1 hc
  have hlt : c.toNat - '0'.toNat < 10 := by
    change c.toNat - 48 < 10
    omega
  refine ⟨hlt, ?_⟩
  rw [Nat.toDigits_of_lt_base hlt]
  congr 1
  apply Char.toNat_inj.1
  rw [Nat.toNat_digitChar_of_lt_ten hlt]
  change 48 + (c.toNat - 48) = c.toNat
  omega

/-- Digits after those of a number that is not zero are the last digits of what is read. -/
theorem toDigits_ofDigitChars {start : ℕ} (hstart : 0 < start) {digits : List Char}
    (hdigits : ∀ c ∈ digits, c.isDigit) :
    Nat.toDigits 10 (Nat.ofDigitChars 10 digits start) = Nat.toDigits 10 start ++ digits := by
  induction digits generalizing start with
  | nil => rw [Nat.ofDigitChars_nil, List.append_nil]
  | cons c digits ih =>
    obtain ⟨hlt, hdigit⟩ := toDigits_digit (hdigits c List.mem_cons_self)
    have hnext : 0 < 10 * start + (c.toNat - '0'.toNat) := by omega
    rw [Nat.ofDigitChars_cons, ih hnext fun d hd => hdigits d (List.mem_cons_of_mem c hd),
      ← Nat.toDigits_append_toDigits (by decide) hstart hlt, hdigit, List.append_assoc,
      List.singleton_append]

/-- Digits without a leading zero are the text of what is read. -/
theorem toDigits_ofDigitChars_zero {c : Char} {digits : List Char} (hzero : c = '0' → digits = [])
    (hdigits : ∀ d ∈ c :: digits, d.isDigit) :
    Nat.toDigits 10 (Nat.ofDigitChars 10 (c :: digits) 0) = c :: digits := by
  by_cases hc : c = '0'
  · rw [hzero hc, hc]
    rfl
  · have hbounds : 48 ≤ c.toNat ∧ c.toNat ≤ 57 :=
      Char.isDigit_iff_toNat.1 (hdigits c List.mem_cons_self)
    have hne : c.toNat ≠ 48 := fun h => hc (Char.toNat_inj.1 h)
    have hpos : 0 < 10 * 0 + (c.toNat - '0'.toNat) := by
      change 0 < 10 * 0 + (c.toNat - 48)
      omega
    rw [Nat.ofDigitChars_cons,
      toDigits_ofDigitChars hpos fun d hd => hdigits d (List.mem_cons_of_mem c hd), Nat.mul_zero,
      Nat.zero_add, (toDigits_digit (hdigits c List.mem_cons_self)).2, List.singleton_append]

/-- The text of a number is a plain decimal. -/
theorem isPlainDecimal_toDigits (n : ℕ) : isPlainDecimal (Nat.toDigits 10 n) := by
  have hdigits : (Nat.toDigits 10 n).all Char.isDigit :=
    List.all_eq_true.2 fun c => Nat.isDigit_of_mem_toDigits (by decide) (by decide)
  rw [isPlainDecimal, hdigits, Bool.true_and]
  rcases Nat.eq_zero_or_pos n with rfl | hn
  · rfl
  · rw [bne_iff_ne.2 (head?_toDigits hn), Bool.or_true]

/-- A plain decimal is the text of what is read. -/
theorem toDigits_of_isPlainDecimal {text : List Char} (hne : text ≠ [])
    (hplain : isPlainDecimal text) : Nat.toDigits 10 (Nat.ofDigitChars 10 text 0) = text := by
  obtain ⟨c, digits, rfl⟩ := List.exists_cons_of_ne_nil hne
  obtain ⟨hdigits, hzero⟩ := Bool.and_eq_true_iff.1 hplain
  refine toDigits_ofDigitChars_zero ?_ (List.all_eq_true.1 hdigits)
  rintro rfl
  cases digits with
  | nil => rfl
  | cons d digits => nomatch hzero

/-- Digits are read as the number that they stand for. -/
theorem toNat?_of_isDigit {key : String} (hne : key ≠ "")
    (hdigits : ∀ c ∈ key.toList, c.isDigit) :
    key.toNat? = some (Nat.ofDigitChars 10 key.toList 0) := by
  have hunderscore : '_' ∉ key.toList := fun h => nomatch hdigits _ h
  rw [String.toNat?_eq_some_ofDigitChars (String.isNat_of_isDigit hne hdigits),
    List.filter_bne_eq_self_of_not_mem hunderscore]

/-- The key of an index is its decimal text. -/
theorem indexOfKey?_eq_some_iff {key : String} {n : ℕ} :
    indexOfKey? key = some n ↔ key = toString n := by
  rw [indexOfKey?, Option.filter_eq_some_iff]
  constructor
  · rintro ⟨hread, hplain⟩
    have hne : key ≠ "" := (String.isNat_iff.1 (String.isNat_of_toNat?_eq_some hread)).1
    have hdigits := List.all_eq_true.1 (Bool.and_eq_true_iff.1 hplain).1
    rw [toNat?_of_isDigit hne hdigits] at hread
    cases hread
    rw [← String.toList_inj, Nat.toString_eq_repr, Nat.toList_repr,
      toDigits_of_isPlainDecimal (mt String.toList_eq_nil_iff.1 hne) hplain]
  · rintro rfl
    rw [Nat.toString_eq_repr, Nat.toList_repr]
    exact ⟨Nat.toNat?_repr n, isPlainDecimal_toDigits n⟩

/-- A key is the index of an element exactly if it is the decimal text of an index within the
limit. -/
theorem arrayIndexOfKey?_eq_some_iff {key : String} {n : ℕ} :
    arrayIndexOfKey? key = some n ↔ key = toString n ∧ n ≤ maxArrayIndex := by
  rw [arrayIndexOfKey?, Option.filter_eq_some_iff, indexOfKey?_eq_some_iff, decide_eq_true_iff]

end ScriptOps
