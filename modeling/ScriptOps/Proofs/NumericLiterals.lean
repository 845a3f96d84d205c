import ScriptOps.Proofs.RadixLiterals

/-!
# The grammar of numbers in strings

A string denotes a number exactly if, without the white space and the line terminators around it, it
is empty, a signed infinity, a run of digits after a radix mark, or a signed decimal. Every other
string is read as NaN. What the readers find is never NaN, since it is rounded from a rational.
-/

namespace ScriptOps

open NumberLiteral

/-! ### Spaces -/

/-- The white space of the language. -/
def whiteSpace : List Char :=
  ['\u0009', '\u000B', '\u000C', '\uFEFF', '\u0020', '\u00A0', '\u1680', '\u2000', '\u2001',
    '\u2002', '\u2003', '\u2004', '\u2005', '\u2006', '\u2007', '\u2008', '\u2009', '\u200A',
    '\u202F', '\u205F', '\u3000']

/-- The line terminators of the language. -/
def lineTerminators : List Char :=
  ['\u000A', '\u000D', '\u2028', '\u2029']

/-- A character that may surround a number. -/
def IsSpace (c : Char) : Prop :=
  c ∈ whiteSpace ∨ c ∈ lineTerminators

instance (c : Char) : Decidable (IsSpace c) :=
  inferInstanceAs (Decidable (_ ∨ _))

/-- These are the blanks of the reader. -/
theorem isBlank_iff {c : Char} : isBlank c ↔ IsSpace c := by
  constructor
  · intro h
    simp only [isBlank, Bool.or_eq_true, Bool.and_eq_true, decide_eq_true_eq, beq_iff_eq,
      or_assoc] at h
    rw [← Char.ofNat_toNat c]
    generalize c.toNat = n at h
    rcases h with ⟨hlower, hupper⟩ | rfl | rfl | rfl | ⟨hlower, hupper⟩ | rfl | rfl | rfl | rfl |
      rfl | rfl
    any_goals decide
    · interval_cases n <;> decide
    · interval_cases n <;> decide
  · have hwhite : whiteSpace.all isBlank := by decide
    have hline : lineTerminators.all isBlank := by decide
    rintro (h | h)
    · exact List.all_eq_true.1 hwhite c h
    · exact List.all_eq_true.1 hline c h

/-! ### The grammar -/

/-- The radix marks and their digits. -/
def radixAlphabets : List (Char × String) :=
  [('x', "0123456789abcdefABCDEF"), ('X', "0123456789abcdefABCDEF"), ('o', "01234567"),
    ('O', "01234567"), ('b', "01"), ('B', "01")]

/-- A number without spaces around it. -/
inductive IsLiteral : List Char → Prop
  | empty : IsLiteral []
  | infinity {sign : List Char} {negative : Bool} (hsign : IsSign sign negative) :
    IsLiteral (sign ++ "Infinity".toList)
  | radix {mark : Char} {alphabet : String} {digits : List Char}
      (hmark : (mark, alphabet) ∈ radixAlphabets) (hne : digits ≠ [])
      (hdigits : ∀ c ∈ digits, c ∈ alphabet.toList) : IsLiteral ('0' :: mark :: digits)
  | decimal {sign body : List Char} {negative : Bool} {d : Decimal} (hsign : IsSign sign negative)
      (hbody : IsDecimal body d) : IsLiteral (sign ++ body)

/-! ### Digits of a radix -/

/-- Digits are ASCII characters. -/
theorem toNat_lt_of_digitValue? {radix d : ℕ} {c : Char} (h : digitValue? radix c = some d) :
    c.toNat < 128 := by
  have hsome := (Option.filter_eq_some_iff.1 h).1
  split_ifs at hsome with hdigit hsmall hlarge
  · exact (Char.isDigit_iff_toNat.1 hdigit).2.trans_lt (by decide)
  · exact Nat.lt_of_le_of_lt (m := 'f'.toNat) hsmall.2 (by decide)
  · exact Nat.lt_of_le_of_lt (m := 'F'.toNat) hlarge.2 (by decide)

/-- A table of the ASCII characters tells all digits of a radix. -/
theorem mem_iff_of_table (radix : ℕ) (alphabet : List Char)
    (htable : ∀ n < 128, Char.ofNat n ∈ alphabet ↔ (digitValue? radix (Char.ofNat n)).isSome)
    (hascii : alphabet.all fun c => c.toNat < 128) (c : Char) :
    c ∈ alphabet ↔ (digitValue? radix c).isSome := by
  have hchar := htable c.toNat
  rw [Char.ofNat_toNat] at hchar
  constructor
  · intro h
    exact (hchar (of_decide_eq_true (List.all_eq_true.1 hascii c h))).1 h
  · intro h
    obtain ⟨d, hd⟩ := Option.isSome_iff_exists.1 h
    exact (hchar (toNat_lt_of_digitValue? hd)).2 h

/-- The alphabets are the digits that the reader knows. -/
theorem exists_radix_of_mem {mark : Char} {alphabet : String}
    (h : (mark, alphabet) ∈ radixAlphabets) :
    ∃ radix, radixOf? mark = some radix ∧
      ∀ c, c ∈ alphabet.toList ↔ (digitValue? radix c).isSome := by
  have hhexadecimal := mem_iff_of_table 16 "0123456789abcdefABCDEF".toList
    (by decide +kernel) (by decide +kernel)
  have hoctal := mem_iff_of_table 8 "01234567".toList (by decide +kernel) (by decide +kernel)
  have hbinary := mem_iff_of_table 2 "01".toList (by decide +kernel) (by decide +kernel)
  simp only [radixAlphabets, List.mem_cons, Prod.mk.injEq, List.not_mem_nil, or_false] at h
  rcases h with ⟨rfl, rfl⟩ | ⟨rfl, rfl⟩ | ⟨rfl, rfl⟩ | ⟨rfl, rfl⟩ | ⟨rfl, rfl⟩ | ⟨rfl, rfl⟩
  · exact ⟨16, rfl, hhexadecimal⟩
  · exact ⟨16, rfl, hhexadecimal⟩
  · exact ⟨8, rfl, hoctal⟩
  · exact ⟨8, rfl, hoctal⟩
  · exact ⟨2, rfl, hbinary⟩
  · exact ⟨2, rfl, hbinary⟩

/-- The mark of a radix has an alphabet, which consists of the digits of the radix. -/
theorem exists_mem_of_radixOf? {mark : Char} {radix : ℕ} (h : radixOf? mark = some radix) :
    ∃ alphabet, (mark, alphabet) ∈ radixAlphabets ∧
      ∀ c, c ∈ alphabet.toList ↔ (digitValue? radix c).isSome := by
  have hmem : ∃ alphabet, (mark, alphabet) ∈ radixAlphabets := by
    unfold radixOf? at h
    split_ifs at h with hx ho hb
    · rcases hx with rfl | rfl <;> exact ⟨"0123456789abcdefABCDEF", by simp [radixAlphabets]⟩
    · rcases ho with rfl | rfl <;> exact ⟨"01234567", by simp [radixAlphabets]⟩
    · rcases hb with rfl | rfl <;> exact ⟨"01", by simp [radixAlphabets]⟩
  obtain ⟨alphabet, hmem⟩ := hmem
  obtain ⟨radix', hradix, hiff⟩ := exists_radix_of_mem hmem
  obtain rfl : radix' = radix := Option.some_inj.1 (hradix.symm.trans h)
  exact ⟨alphabet, hmem, hiff⟩

/-- Characters are read if each of them is a digit. -/
theorem exists_mapM_iff {radix : ℕ} {text : List Char} :
    (∃ digits, text.mapM (digitValue? radix) = some digits) ↔
      ∀ c ∈ text, (digitValue? radix c).isSome := by
  constructor
  · rintro ⟨digits, h⟩ c hc
    exact Option.isSome_iff_exists.2 (exists_of_mem_mapM h hc)
  · intro h
    simp only [mapM_eq_some_iff]
    induction text with
    | nil => exact ⟨[], rfl⟩
    | cons c text ih =>
      obtain ⟨hc, htext⟩ := List.forall_mem_cons.1 h
      obtain ⟨d, hd⟩ := Option.isSome_iff_exists.1 hc
      obtain ⟨ds, hds⟩ := ih htext
      exact ⟨d :: ds, by rw [List.map_cons, hd, hds, List.map_cons]⟩

/-- What is read in a radix is not empty and consists of its digits. -/
theorem exists_of_readRadix? {radix : ℕ} {text : List Char} {x : Float}
    (h : readRadix? radix text = some x) :
    text ≠ [] ∧ ∃ digits, text.mapM (digitValue? radix) = some digits := by
  unfold readRadix? at h
  obtain ⟨digits, hdigits, h⟩ := Option.bind_eq_some_iff.1 h
  refine ⟨?_, digits, hdigits⟩
  rintro rfl
  cases hdigits
  nomatch h

/-! ### Numbers and the grammar -/

/-- What is read is a number. -/
theorem isNaN_of_read? {text : List Char} {x : Float} (h : read? text = some x) :
    x.isNaN = false := by
  rcases read?_eq_some.1 h with ⟨-, rfl⟩ | ⟨mark, radix, digits, -, hradix, h⟩ | h
  · rfl
  · obtain ⟨b, -, hb, rfl⟩ := exists_radixOf? hradix
    obtain ⟨hne, values, hvalues⟩ := exists_of_readRadix? h
    rw [readRadix?_eq rfl hb hvalues hne] at h
    cases h
    exact isNaN_doubleOf (Nat.cast_nonneg _)
  · obtain ⟨sign, body, negative, -, -, ⟨-, rfl⟩ | ⟨d, -, rfl⟩⟩ := readSigned?_eq_some.1 h
    · cases negative <;> rfl
    · have hdecimal : d.toFloat.isNaN = false := by
        rw [d.toFloat_eq_doubleOf]
        exact isNaN_doubleOf d.value_nonneg
      split
      · rw [isNaN_neg, hdecimal]
      · exact hdecimal

/-- The reader finds exactly the texts of the grammar. -/
theorem exists_read?_iff {text : List Char} : (∃ x, read? text = some x) ↔ IsLiteral text := by
  constructor
  · rintro ⟨x, h⟩
    rcases read?_eq_some.1 h with ⟨rfl, -⟩ | ⟨mark, radix, digits, rfl, hradix, h⟩ | h
    · exact .empty
    · obtain ⟨alphabet, hmark, hiff⟩ := exists_mem_of_radixOf? hradix
      obtain ⟨hne, hvalues⟩ := exists_of_readRadix? h
      exact .radix hmark hne fun c hc => (hiff c).2 (exists_mapM_iff.1 hvalues c hc)
    · obtain ⟨sign, body, negative, hsign, rfl, ⟨rfl, -⟩ | ⟨d, hbody, -⟩⟩ := readSigned?_eq_some.1 h
      · exact .infinity hsign
      · exact .decimal hsign hbody
  · rintro (_ | hsign | ⟨hmark, hne, hdigits⟩ | ⟨hsign, hbody⟩)
    · exact ⟨0, rfl⟩
    · exact ⟨_, read?_eq_some.2 (.inr (.inr (readSigned?_eq_some.2
        ⟨_, _, _, hsign, rfl, .inl ⟨rfl, rfl⟩⟩)))⟩
    · obtain ⟨radix, hradix, hiff⟩ := exists_radix_of_mem hmark
      obtain ⟨b, -, hb, hpow⟩ := exists_radixOf? hradix
      obtain ⟨values, hvalues⟩ := exists_mapM_iff.2 fun c hc => (hiff c).1 (hdigits c hc)
      exact ⟨_, read?_eq_some.2 (.inr (.inl
        ⟨_, radix, _, rfl, hradix, readRadix?_eq hpow hb hvalues hne⟩))⟩
    · exact ⟨_, read?_eq_some.2 (.inr (.inr (readSigned?_eq_some.2
        ⟨_, _, _, hsign, rfl, .inr ⟨_, hbody, rfl⟩⟩)))⟩

/-- A string denotes a number exactly if it is a number of the grammar with spaces around it. -/
theorem number_grammar (s : String) : (numberOfText s).isNaN = false ↔
    ∃ before body after, s.toList = before ++ body ++ after ∧
      (∀ c ∈ before, IsSpace c) ∧ (∀ c ∈ after, IsSpace c) ∧
      (∀ c ∈ body.head?, ¬IsSpace c) ∧ (∀ c ∈ body.getLast?, ¬IsSpace c) ∧ IsLiteral body := by
  have hread : (numberOfText s).isNaN = false ↔ ∃ x, read? (trimBlanks s.toList) = some x := by
    rw [numberOfText]
    cases hvalue : read? (trimBlanks s.toList) with
    | none =>
      constructor
      · intro h
        cases h
      · rintro ⟨x, h⟩
        cases h
    | some x => exact iff_of_true (isNaN_of_read? hvalue) ⟨x, rfl⟩
  rw [hread, exists_read?_iff]
  simp only [← isBlank_iff, Bool.not_eq_true]
  constructor
  · intro h
    obtain ⟨before, after, htext, hbefore, hafter, hhead, hlast⟩ := trimBlanks_eq_iff.1 rfl
    exact ⟨before, _, after, htext, hbefore, hafter, hhead, hlast, h⟩
  · rintro ⟨before, body, after, htext, hbefore, hafter, hhead, hlast, h⟩
    rwa [trimBlanks_eq_iff.2 ⟨before, after, htext, hbefore, hafter, hhead, hlast⟩]

end ScriptOps
