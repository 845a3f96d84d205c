import ScriptOps.Number.Literal
import Mathlib

/-!
# Reading numbers

The parts that a number in a string has, and what each of them denotes: a sign, a mantissa and an
exponent. Each reader splits off the part it is named for and finds what the part denotes. A run of
digits is read to its end, so a part is found only if what follows it cannot belong to it.
-/

namespace ScriptOps.NumberLiteral

/-! ### The parts of a decimal -/

/-- One or more decimal digits. -/
def IsDigits (text : List Char) : Prop :=
  text ≠ [] ∧ ∀ c ∈ text, c.isDigit

/-- An optional sign; `true` stands for minus. -/
inductive IsSign : List Char → Bool → Prop
  | absent : IsSign [] false
  | plus : IsSign ['+'] false
  | minus : IsSign ['-'] true

/-- Digits with an optional point after, among or before them. -/
inductive IsMantissa : List Char → Decimal → Prop
  | whole {digits : List Char} (h : IsDigits digits) :
    IsMantissa digits ⟨Nat.ofDigitChars 10 digits 0, 0⟩
  | point {digits fraction : List Char} (h : IsDigits digits) (h' : ∀ c ∈ fraction, c.isDigit) :
    IsMantissa (digits ++ '.' :: fraction)
      ⟨Nat.ofDigitChars 10 (digits ++ fraction) 0, -fraction.length⟩
  | fraction {fraction : List Char} (h : IsDigits fraction) :
    IsMantissa ('.' :: fraction) ⟨Nat.ofDigitChars 10 fraction 0, -fraction.length⟩

/-- An optional exponent: a mark, an optional sign and digits. -/
inductive IsExponent : List Char → Int → Prop
  | absent : IsExponent [] 0
  | present {mark : Char} {sign digits : List Char} {negative : Bool}
      (hmark : mark = 'e' ∨ mark = 'E') (hsign : IsSign sign negative) (hdigits : IsDigits digits) :
    IsExponent (mark :: (sign ++ digits))
      (if negative then -(Nat.ofDigitChars 10 digits 0 : Int) else Nat.ofDigitChars 10 digits 0)

/-- A decimal without a sign. -/
def IsDecimal (text : List Char) (d : Decimal) : Prop :=
  ∃ (mantissa exponent : List Char) (m : Decimal) (e : Int), text = mantissa ++ exponent ∧
    IsMantissa mantissa m ∧ IsExponent exponent e ∧ d = ⟨m.digits, m.exponent + e⟩

/-! ### Signs -/

/-- A sign is read before what does not begin with one. -/
theorem readSign_append {sign body : List Char} {negative : Bool} (hsign : IsSign sign negative)
    (hbody : ∀ c ∈ body.head?, c ≠ '-' ∧ c ≠ '+') : readSign (sign ++ body) = (negative, body) := by
  cases hsign with
  | absent =>
    rw [List.nil_append]
    unfold readSign
    split
    · exact absurd rfl (hbody '-' rfl).1
    · exact absurd rfl (hbody '+' rfl).2
    · rfl
  | plus => rfl
  | minus => rfl

/-- What is read as a sign is one. -/
theorem exists_isSign_of_readSign {text body : List Char} {negative : Bool}
    (h : readSign text = (negative, body)) :
    ∃ sign, IsSign sign negative ∧ text = sign ++ body := by
  unfold readSign at h
  split at h <;> cases h
  · exact ⟨_, .minus, rfl⟩
  · exact ⟨_, .plus, rfl⟩
  · exact ⟨_, .absent, rfl⟩

/-! ### Digits -/

/-- A character that is no digit differs from every digit. -/
theorem ne_of_isDigit {c d : Char} (hc : c.isDigit) (hd : d.isDigit = false) : c ≠ d := by
  rintro rfl
  rw [hc] at hd
  nomatch hd

/-- A text that begins with digits begins with a digit. -/
theorem IsDigits.head {digits rest : List Char} (h : IsDigits digits) {c : Char}
    (hc : c ∈ (digits ++ rest).head?) : c.isDigit := by
  obtain ⟨d, ds, rfl⟩ := List.exists_cons_of_ne_nil h.1
  obtain rfl : d = c := by simpa using hc
  exact h.2 _ List.mem_cons_self

/-- The digits of a number are digits. -/
theorem isDigits_toDigits (n : Nat) : IsDigits (Nat.toDigits 10 n) :=
  ⟨Nat.toDigits_ne_nil, fun _ hc => Nat.isDigit_of_mem_toDigits (by decide) (by decide) hc⟩

theorem isDigit_of_mem_zeros {k : Nat} : ∀ c ∈ List.replicate k '0', c.isDigit := by
  intro c hc
  rw [List.eq_of_mem_replicate hc]
  rfl

/-- Zeros may follow digits. -/
theorem IsDigits.append_zeros {digits : List Char} (h : IsDigits digits) (k : Nat) :
    IsDigits (digits ++ List.replicate k '0') :=
  ⟨by simp [h.1], List.forall_mem_append.2 ⟨h.2, isDigit_of_mem_zeros⟩⟩

/-- They may stand before them. -/
theorem IsDigits.zeros_append {digits : List Char} (h : IsDigits digits) (k : Nat) :
    IsDigits (List.replicate k '0' ++ digits) :=
  ⟨by simp [h.1], List.forall_mem_append.2 ⟨isDigit_of_mem_zeros, h.2⟩⟩

/-- The first of some digits are digits. -/
theorem IsDigits.take {digits : List Char} (h : IsDigits digits) {k : Nat} (hk : 0 < k) :
    IsDigits (digits.take k) :=
  ⟨by simp [h.1, hk.ne'], fun c hc => h.2 c (List.mem_of_mem_take hc)⟩

/-- So are the last of them. -/
theorem IsDigits.drop {digits : List Char} (h : IsDigits digits) {k : Nat}
    (hk : k < digits.length) : IsDigits (digits.drop k) :=
  ⟨by simp [hk], fun c hc => h.2 c (List.mem_of_mem_drop hc)⟩

/-- A run of digits is split off from what does not begin with a digit. -/
theorem span_isDigit {digits rest : List Char} (hdigits : ∀ c ∈ digits, c.isDigit)
    (hrest : ∀ c ∈ rest.head?, c.isDigit = false) :
    (digits ++ rest).span Char.isDigit = (digits, rest) := by
  have hdrop : rest.dropWhile Char.isDigit = rest := by
    cases rest with
    | nil => rfl
    | cons c rest => exact List.dropWhile_cons_of_neg (by simp [hrest c rfl])
  have htake : rest.takeWhile Char.isDigit = [] := by
    cases rest with
    | nil => rfl
    | cons c rest => exact List.takeWhile_cons_of_neg (by simp [hrest c rfl])
  rw [List.span_eq_takeWhile_dropWhile, List.takeWhile_append_of_pos hdigits,
    List.dropWhile_append_of_pos hdigits, hdrop, htake, List.append_nil]

/-- A span of digits is the text taken apart. -/
theorem eq_append_of_span {text digits rest : List Char}
    (h : text.span Char.isDigit = (digits, rest)) :
    text = digits ++ rest ∧ ∀ c ∈ digits, c.isDigit := by
  rw [List.span_eq_takeWhile_dropWhile] at h
  cases h
  exact ⟨List.takeWhile_append_dropWhile.symm, fun c hc => List.mem_takeWhile_imp hc⟩

/-! ### Mantissas -/

/-- A mantissa begins with a digit or a point. -/
theorem IsMantissa.head {mantissa rest : List Char} {m : Decimal} (h : IsMantissa mantissa m)
    {c : Char} (hc : c ∈ (mantissa ++ rest).head?) : c.isDigit ∨ c = '.' := by
  cases h with
  | whole h => exact .inl (h.head hc)
  | point h h' =>
    rw [List.append_assoc] at hc
    exact .inl (h.head hc)
  | fraction h => exact .inr (by simpa using hc.symm)

/-- A mantissa is read up to where it ends. -/
theorem readMantissa?_append {mantissa rest : List Char} {m : Decimal} (h : IsMantissa mantissa m)
    (hrest : ∀ c ∈ rest.head?, c.isDigit = false ∧ c ≠ '.') :
    readMantissa? (mantissa ++ rest) = some (m, rest) := by
  have hend : ∀ c ∈ rest.head?, c.isDigit = false := fun c hc => (hrest c hc).1
  cases h with
  | whole h =>
    unfold readMantissa?
    rw [span_isDigit h.2 hend]
    dsimp only
    split
    · exact absurd rfl (hrest '.' rfl).2
    · simp [h.1]
  | @point digits fraction h h' =>
    have hpoint : ∀ c ∈ ('.' :: (fraction ++ rest)).head?, c.isDigit = false := by
      rintro c ⟨⟩
      rfl
    rw [List.append_assoc, List.cons_append]
    simp only [readMantissa?, span_isDigit h.2 hpoint, span_isDigit h' hend]
    simp [h.1]
  | @fraction fraction h =>
    have hpoint : ('.' :: (fraction ++ rest)).span Char.isDigit = ([], '.' :: (fraction ++ rest)) :=
      rfl
    rw [List.cons_append]
    simp only [readMantissa?, hpoint, span_isDigit h.2 hend]
    simp [h.1]

/-- What is read as a mantissa is one. -/
theorem exists_isMantissa_of_readMantissa? {text rest : List Char} {m : Decimal}
    (h : readMantissa? text = some (m, rest)) :
    ∃ mantissa, IsMantissa mantissa m ∧ text = mantissa ++ rest := by
  unfold readMantissa? at h
  generalize hwhole : text.span Char.isDigit = split at h
  obtain ⟨digits, tail⟩ := split
  obtain ⟨rfl, hdigits⟩ := eq_append_of_span hwhole
  dsimp only at h
  split at h
  · next afterPoint =>
    generalize hafter : afterPoint.span Char.isDigit = split at h
    obtain ⟨fraction, tail⟩ := split
    obtain ⟨rfl, hfraction⟩ := eq_append_of_span hafter
    dsimp only at h
    split at h
    · nomatch h
    · next hne =>
      cases h
      rcases eq_or_ne digits [] with rfl | hdigits'
      · have hfraction' : fraction ≠ [] := by simpa using hne
        exact ⟨'.' :: fraction, .fraction ⟨hfraction', hfraction⟩, rfl⟩
      · exact ⟨_, .point ⟨hdigits', hdigits⟩ hfraction, by simp⟩
  · dsimp only at h
    split at h
    · nomatch h
    · next hne =>
      cases h
      rw [List.append_nil]
      exact ⟨digits, .whole ⟨by simpa using hne, hdigits⟩, rfl⟩

/-! ### Exponents -/

/-- An integer is read exactly if the text is a sign and digits. -/
theorem readInteger?_eq_some {text : List Char} {i : Int} : readInteger? text = some i ↔
    ∃ sign digits negative, IsSign sign negative ∧ IsDigits digits ∧ text = sign ++ digits ∧
      i = if negative then -(Nat.ofDigitChars 10 digits 0 : Int)
        else Nat.ofDigitChars 10 digits 0 := by
  unfold readInteger?
  constructor
  · intro h
    generalize hread : readSign text = split at h
    obtain ⟨negative, digits⟩ := split
    obtain ⟨sign, hsign, rfl⟩ := exists_isSign_of_readSign hread
    dsimp only at h
    split at h
    · nomatch h
    · next hdigits =>
      simp only [Bool.or_eq_true, Bool.not_eq_true', not_or, Bool.not_eq_false, List.all_eq_true,
        List.isEmpty_iff] at hdigits
      cases h
      exact ⟨sign, digits, negative, hsign, hdigits, rfl, rfl⟩
  · rintro ⟨sign, digits, negative, hsign, hdigits, rfl, rfl⟩
    have hbody : ∀ c ∈ digits.head?, c ≠ '-' ∧ c ≠ '+' := by
      intro c hc
      rw [← List.append_nil digits] at hc
      exact ⟨ne_of_isDigit (hdigits.head hc) rfl, ne_of_isDigit (hdigits.head hc) rfl⟩
    have hall : (digits.isEmpty || !digits.all Char.isDigit) = false := by
      rw [Bool.or_eq_false_iff, Bool.not_eq_false', List.all_eq_true]
      exact ⟨by simpa using hdigits.1, hdigits.2⟩
    simp only [readSign_append hsign hbody, hall]
    rfl

/-- An exponent is read exactly if the text is one. -/
theorem readExponent?_eq_some {text : List Char} {e : Int} :
    readExponent? text = some e ↔ IsExponent text e := by
  constructor
  · intro h
    cases text with
    | nil =>
      cases h
      exact .absent
    | cons mark rest =>
      rw [readExponent?] at h
      split at h
      · next hmark =>
        obtain ⟨sign, digits, negative, hsign, hdigits, rfl, rfl⟩ := readInteger?_eq_some.1 h
        exact .present hmark hsign hdigits
      · nomatch h
  · rintro (_ | ⟨hmark, hsign, hdigits⟩)
    · rfl
    · rw [readExponent?, if_pos hmark]
      exact readInteger?_eq_some.2 ⟨_, _, _, hsign, hdigits, rfl, rfl⟩

/-! ### Decimals -/

/-- The reader of decimals finds exactly the decimals. -/
theorem readDecimal?_eq_some {text : List Char} {d : Decimal} :
    readDecimal? text = some d ↔ IsDecimal text d := by
  unfold readDecimal?
  simp only [Option.bind_eq_bind, Option.bind_eq_some_iff, Option.pure_def, Option.some.injEq,
    Prod.exists]
  constructor
  · rintro ⟨m, rest, hmantissa, e, hexponent, rfl⟩
    obtain ⟨mantissa, hm, rfl⟩ := exists_isMantissa_of_readMantissa? hmantissa
    exact ⟨mantissa, rest, m, e, rfl, hm, readExponent?_eq_some.1 hexponent, rfl⟩
  · rintro ⟨mantissa, exponent, m, e, rfl, hm, he, rfl⟩
    refine ⟨m, exponent, readMantissa?_append hm ?_, e, readExponent?_eq_some.2 he, rfl⟩
    -- an exponent begins with its mark, which is neither a digit nor a point
    intro c hc
    cases he with
    | absent => nomatch hc
    | present hmark =>
      cases hc
      rcases hmark with rfl | rfl <;> decide

/-- A decimal begins with a digit or a point. -/
theorem IsDecimal.head {text : List Char} {d : Decimal} (h : IsDecimal text d) {c : Char}
    (hc : c ∈ text.head?) : c.isDigit ∨ c = '.' := by
  obtain ⟨mantissa, exponent, m, e, rfl, hm, -, -⟩ := h
  exact hm.head hc

/-! ### Signed decimals -/

/-- The reader of signed numbers finds exactly the infinities and the decimals, with their signs. -/
theorem readSigned?_eq_some {text : List Char} {x : Float} : readSigned? text = some x ↔
    ∃ sign body negative, IsSign sign negative ∧ text = sign ++ body ∧
      ((body = "Infinity".toList ∧ x = if negative then -infinity else infinity) ∨
        ∃ d, IsDecimal body d ∧ x = if negative then -d.toFloat else d.toFloat) := by
  unfold readSigned?
  constructor
  · intro h
    generalize hread : readSign text = split at h
    obtain ⟨negative, body⟩ := split
    obtain ⟨sign, hsign, rfl⟩ := exists_isSign_of_readSign hread
    refine ⟨sign, body, negative, hsign, rfl, ?_⟩
    obtain ⟨magnitude, hmagnitude, rfl⟩ := Option.map_eq_some_iff.1 h
    by_cases hbody : body = "Infinity".toList
    · rw [if_pos hbody] at hmagnitude
      cases hmagnitude
      exact .inl ⟨hbody, rfl⟩
    · rw [if_neg hbody] at hmagnitude
      obtain ⟨d, hd, rfl⟩ := Option.map_eq_some_iff.1 hmagnitude
      exact .inr ⟨d, readDecimal?_eq_some.1 hd, rfl⟩
  · rintro ⟨sign, body, negative, hsign, rfl, ⟨rfl, rfl⟩ | ⟨d, hd, rfl⟩⟩
    · have hbody : ∀ c ∈ "Infinity".toList.head?, c ≠ '-' ∧ c ≠ '+' := by
        intro c hc
        obtain rfl : 'I' = c := by simpa using hc
        decide
      simp only [readSign_append hsign hbody]
      rfl
    · have hbody : ∀ c ∈ body.head?, c ≠ '-' ∧ c ≠ '+' := by
        intro c hc
        rcases hd.head hc with hc | rfl
        · exact ⟨ne_of_isDigit hc rfl, ne_of_isDigit hc rfl⟩
        · decide
      have hne : body ≠ "Infinity".toList := by
        rintro rfl
        rcases hd.head (c := 'I') rfl with h | h <;> revert h <;> decide
      simp only [readSign_append hsign hbody, if_neg hne, readDecimal?_eq_some.2 hd]
      rfl

/-! ### The characters of a signed number -/

/-- The characters of which signed decimals consist. -/
def IsDecimalChar (c : Char) : Prop :=
  c.isDigit ∨ c ∈ ['.', 'e', 'E', '+', '-']

/-- The characters of a sign may occur in decimals. -/
theorem IsSign.isDecimalChar {sign : List Char} {negative : Bool} (h : IsSign sign negative) :
    ∀ c ∈ sign, IsDecimalChar c := by
  intro c hc
  cases h with
  | absent => nomatch hc
  | plus => exact .inr (by simp_all)
  | minus => exact .inr (by simp_all)

/-- So may those of a mantissa. -/
theorem IsMantissa.isDecimalChar {mantissa : List Char} {m : Decimal} (h : IsMantissa mantissa m) :
    ∀ c ∈ mantissa, IsDecimalChar c := by
  intro c hc
  cases h with
  | whole h => exact .inl (h.2 c hc)
  | point h h' =>
    rcases List.mem_append.1 hc with hc | hc
    · exact .inl (h.2 c hc)
    · rcases List.mem_cons.1 hc with rfl | hc
      · exact .inr (by simp)
      · exact .inl (h' c hc)
  | fraction h =>
    rcases List.mem_cons.1 hc with rfl | hc
    · exact .inr (by simp)
    · exact .inl (h.2 c hc)

/-- So may those of an exponent. -/
theorem IsExponent.isDecimalChar {exponent : List Char} {e : Int} (h : IsExponent exponent e) :
    ∀ c ∈ exponent, IsDecimalChar c := by
  intro c hc
  cases h with
  | absent => nomatch hc
  | present hmark hsign hdigits =>
    rcases List.mem_cons.1 hc with rfl | hc
    · exact .inr (by rcases hmark with rfl | rfl <;> simp)
    · rcases List.mem_append.1 hc with hc | hc
      · exact hsign.isDecimalChar c hc
      · exact .inl (hdigits.2 c hc)

/-- So a decimal consists of such characters. -/
theorem IsDecimal.isDecimalChar {text : List Char} {d : Decimal} (h : IsDecimal text d) :
    ∀ c ∈ text, IsDecimalChar c := by
  obtain ⟨mantissa, exponent, m, e, rfl, hm, he, -⟩ := h
  intro c hc
  rcases List.mem_append.1 hc with hc | hc
  · exact hm.isDecimalChar c hc
  · exact he.isDecimalChar c hc

/-- A decimal has at least one character. -/
theorem IsDecimal.ne_nil {text : List Char} {d : Decimal} (h : IsDecimal text d) : text ≠ [] := by
  obtain ⟨mantissa, exponent, m, e, rfl, hm, -, -⟩ := h
  intro hnil
  obtain ⟨hmantissa, -⟩ := List.append_eq_nil_iff.1 hnil
  cases hm with
  | whole h => exact h.1 hmantissa
  | point => simp at hmantissa
  | fraction => nomatch hmantissa

/-- No such character announces a radix. -/
theorem IsDecimalChar.radixOf?_eq_none {c : Char} (h : IsDecimalChar c) : radixOf? c = none := by
  rcases h with h | h
  · have hne (d : Char) (hd : d.isDigit = false) : c ≠ d := ne_of_isDigit h hd
    simp [radixOf?, hne]
  · simp only [List.mem_cons, List.not_mem_nil, or_false] at h
    rcases h with rfl | rfl | rfl | rfl | rfl <;> decide

/-- No such character is a blank. -/
theorem IsDecimalChar.isBlank_eq_false {c : Char} (h : IsDecimalChar c) : isBlank c = false := by
  rcases h with h | h
  · obtain ⟨hlower, hupper⟩ := Char.isDigit_iff_toNat.1 h
    have hzero : '0'.toNat = 48 := rfl
    have hnine : '9'.toNat = 57 := rfl
    simp [isBlank]
    omega
  · simp only [List.mem_cons, List.not_mem_nil, or_false] at h
    rcases h with rfl | rfl | rfl | rfl | rfl <;> decide

/-! ### The whole text -/

/-- The reader of whole texts finds the empty text, numbers with a radix mark and signed numbers. No
text is two of these. -/
theorem read?_eq_some {text : List Char} {x : Float} : read? text = some x ↔
    (text = [] ∧ x = 0) ∨
      (∃ mark radix digits, text = '0' :: mark :: digits ∧ radixOf? mark = some radix ∧
        readRadix? radix digits = some x) ∨ readSigned? text = some x := by
  have hnot {sign body : List Char} {negative : Bool} (hsign : IsSign sign negative)
      (hbody : body = "Infinity".toList ∨ ∃ d, IsDecimal body d) :
      sign ++ body ≠ [] ∧
        ∀ mark rest, sign ++ body = '0' :: mark :: rest → radixOf? mark = none := by
    rcases hbody with rfl | ⟨d, hd⟩
    · cases hsign <;> exact ⟨by simp, by simp⟩
    · refine ⟨fun h => hd.ne_nil (List.append_eq_nil_iff.1 h).2, fun mark rest h => ?_⟩
      have hmem : mark ∈ sign ++ body := by simp [h]
      rcases List.mem_append.1 hmem with hmem | hmem
      · exact (hsign.isDecimalChar _ hmem).radixOf?_eq_none
      · exact (hd.isDecimalChar _ hmem).radixOf?_eq_none
  constructor
  · intro h
    unfold read? at h
    split at h
    · cases h
      exact .inl ⟨rfl, rfl⟩
    · split at h
      · next hradix => exact .inr (.inl ⟨_, _, _, rfl, hradix, h⟩)
      · exact .inr (.inr h)
    · exact .inr (.inr h)
  · rintro (⟨rfl, rfl⟩ | ⟨mark, radix, digits, rfl, hradix, h⟩ | h)
    · rfl
    · simp only [read?, hradix, h]
    · obtain ⟨sign, body, negative, hsign, rfl, hbody⟩ := readSigned?_eq_some.1 h
      obtain ⟨hnil, hradix⟩ := hnot hsign (hbody.imp And.left fun ⟨d, hd, _⟩ => ⟨d, hd⟩)
      unfold read?
      split
      · next heq => exact absurd heq hnil
      · next heq => rw [hradix _ _ heq, ← heq, h]
      · exact h

/-! ### Blanks around the text -/

/-- A text without blanks around it. -/
def IsTrimmed (text : List Char) : Prop :=
  (∀ c ∈ text.head?, isBlank c = false) ∧ ∀ c ∈ text.getLast?, isBlank c = false

end ScriptOps.NumberLiteral

namespace ScriptOps

open NumberLiteral

/-- Blank characters at the start are dropped, and no others. -/
theorem dropWhile_isBlank {blanks rest : List Char} (hblanks : ∀ c ∈ blanks, isBlank c)
    (hrest : ∀ c ∈ rest.head?, isBlank c = false) :
    (blanks ++ rest).dropWhile isBlank = rest := by
  rw [List.dropWhile_append_of_pos hblanks]
  cases rest with
  | nil => rfl
  | cons c rest => exact List.dropWhile_cons_of_neg (by simp [hrest c rfl])

/-- A text is some blank characters and what begins with another one. -/
theorem exists_dropWhile_isBlank (text : List Char) :
    ∃ blanks, (∀ c ∈ blanks, isBlank c) ∧ text = blanks ++ text.dropWhile isBlank ∧
      ∀ c ∈ (text.dropWhile isBlank).head?, isBlank c = false := by
  refine ⟨text.takeWhile isBlank, fun c hc => List.mem_takeWhile_imp hc,
    List.takeWhile_append_dropWhile.symm, fun c hc => ?_⟩
  have hhead := List.head?_dropWhile_not isBlank text
  rw [Option.mem_def.1 hc] at hhead
  simpa using hhead

/-- Trimming removes the blanks around a text. -/
theorem trimBlanks_eq_iff {text body : List Char} : trimBlanks text = body ↔
    ∃ before after, text = before ++ body ++ after ∧ (∀ c ∈ before, isBlank c) ∧
      (∀ c ∈ after, isBlank c) ∧ IsTrimmed body := by
  unfold trimBlanks
  constructor
  · rintro rfl
    obtain ⟨before, hbefore, htext, hhead⟩ := exists_dropWhile_isBlank text
    generalize text.dropWhile isBlank = tail at htext hhead ⊢
    obtain ⟨after, hafter, htail, hlast⟩ := exists_dropWhile_isBlank tail.reverse
    generalize tail.reverse.dropWhile isBlank = body at htail hlast ⊢
    rw [List.reverse_eq_iff, List.reverse_append] at htail
    subst htail
    refine ⟨before, after.reverse, by rw [htext, List.append_assoc], hbefore,
      fun c hc => hafter c (List.mem_reverse.1 hc), fun c hc => hhead c ?_, fun c hc => hlast c ?_⟩
    · rw [List.head?_append, Option.mem_def.1 hc]
      rfl
    · rwa [List.getLast?_reverse] at hc
  · rintro ⟨before, after, rfl, hbefore, hafter, hhead, hlast⟩
    -- text of blanks only is trimmed from the front at once
    rcases eq_or_ne body [] with rfl | hne
    · have hblanks : ∀ c ∈ before ++ [] ++ after, isBlank c := by
        simpa [or_imp, forall_and] using ⟨hbefore, hafter⟩
      rw [List.dropWhile_eq_nil_iff.2 hblanks]
      rfl
    · have hhead' : ∀ c ∈ (body ++ after).head?, isBlank c = false := by
        rwa [List.head?_append_of_ne_nil _ hne]
      have hafter' : ∀ c ∈ after.reverse, isBlank c := fun c hc => hafter c (List.mem_reverse.1 hc)
      have hlast' : ∀ c ∈ body.reverse.head?, isBlank c = false := by rwa [List.head?_reverse]
      rw [List.append_assoc, dropWhile_isBlank hbefore hhead', List.reverse_append,
        dropWhile_isBlank hafter' hlast', List.reverse_reverse]

/-! ### Numbers of strings -/

/-- A trimmed text is read as it is, and what cannot be read is NaN. -/
theorem numberOfText_of_isTrimmed {text : List Char} (h : IsTrimmed text) :
    numberOfText (String.ofList text) = (read? text).getD nan := by
  have htrim : trimBlanks text = text :=
    trimBlanks_eq_iff.2 ⟨[], [], by simp, nofun, nofun, h⟩
  rw [numberOfText, String.toList_ofList, htrim]

/-- A signed decimal is read as the double of the decimal, with the sign. -/
theorem numberOfText_of_isDecimal {sign body : List Char} {negative : Bool} {d : Decimal}
    (hsign : IsSign sign negative) (hbody : IsDecimal body d) :
    numberOfText (String.ofList (sign ++ body)) = if negative then -d.toFloat else d.toFloat := by
  have hchar : ∀ c ∈ sign ++ body, isBlank c = false := by
    intro c hc
    rcases List.mem_append.1 hc with hc | hc
    · exact (hsign.isDecimalChar c hc).isBlank_eq_false
    · exact (hbody.isDecimalChar c hc).isBlank_eq_false
  have hread := read?_eq_some.2 (.inr (.inr (readSigned?_eq_some.2
    ⟨sign, body, negative, hsign, rfl, .inr ⟨d, hbody, rfl⟩⟩)))
  rw [numberOfText_of_isTrimmed ⟨fun c hc => hchar c (List.mem_of_mem_head? hc),
    fun c hc => hchar c (List.mem_of_mem_getLast? hc)⟩, hread]
  rfl

end ScriptOps
