import ScriptOps.Coercion
import ScriptOps.Text.Index
import ScriptOps.Proofs.FastPaths
import ScriptOps.Proofs.IndexTexts
import ScriptOps.Proofs.IntegerText
import ScriptOps.Proofs.NumericLiterals

/-!
# Numbers through strings

The text of a number reads back as the number. The digits are found by reading candidates back, and
every layout of them denotes the same decimal, so what is read is the double that the digits were
found for. Hence the text tells the number, up to the sign of zero. The layout is positional exactly
for magnitudes from `1e-6` on and below `1e21`: the two bounds are the shortest decimals of their
doubles, and rounding keeps the order.
-/

namespace ScriptOps

open Float.Model Float.Model.UnpackedFloat Rounding NumberLiteral

/-! ### Reading laid out digits -/

namespace Decimal

variable {digits : List Char}

/-- A mark, a sign and digits are an exponent. -/
theorem isExponent_power (power : ℤ) :
    IsExponent ('e' :: (if power < 0 then '-' else '+') :: Nat.toDigits 10 power.natAbs) power := by
  have hdigits := isDigits_toDigits power.natAbs
  have hvalue : Nat.ofDigitChars 10 (Nat.toDigits 10 power.natAbs) 0 = power.natAbs :=
    Nat.ofDigitChars_ten_toDigits
  by_cases hnegative : power < 0
  · have hpower : -(power.natAbs : ℤ) = power := by omega
    have hexponent := IsExponent.present (.inl rfl) .minus hdigits
    rw [hvalue, if_pos rfl, hpower] at hexponent
    rw [if_pos hnegative]
    exact hexponent
  · have hpower : (power.natAbs : ℤ) = power := by omega
    have hexponent := IsExponent.present (.inl rfl) .plus hdigits
    rw [hvalue, if_neg Bool.false_ne_true, hpower] at hexponent
    rw [if_neg hnegative]
    exact hexponent

/-- Every layout denotes the same number. -/
theorem isDecimal_layout (hdigits : IsDigits digits) (point : ℤ) :
    ∃ d, IsDecimal (layout digits point) d ∧
      d.value = Nat.ofDigitChars 10 digits 0 * 10 ^ (point - digits.length) := by
  have hexponent {m : Decimal} {mantissa : List Char} (h : IsMantissa mantissa m) :
      IsDecimal mantissa m :=
    ⟨mantissa, [], m, 0, (List.append_nil _).symm, h, .absent, by rw [Int.add_zero]⟩
  unfold layout
  dsimp only
  -- zeros behind the digits, a point between them, zeros in front of them, or a power of ten
  split_ifs with hwhole hpoint hsmall
  · obtain ⟨k, hk⟩ : ∃ k : ℕ, point - digits.length = k := ⟨(point - digits.length).toNat, by omega⟩
    rw [hk, Int.toNat_natCast]
    refine ⟨_, hexponent (.whole (hdigits.append_zeros k)), ?_⟩
    rw [value, Nat.ofDigitChars_append, Nat.ofDigitChars_replicate_zero, zpow_zero, zpow_natCast]
    push_cast
    ring
  · obtain ⟨k, rfl⟩ := Int.eq_ofNat_of_zero_le hpoint.1.le
    have hshort : k < digits.length := by omega
    have hbefore := hdigits.take (Int.natCast_pos.1 hpoint.1)
    rw [Int.toNat_natCast]
    refine ⟨_, hexponent (.point hbefore (hdigits.drop hshort).2), ?_⟩
    rw [value, List.take_append_drop, List.length_drop, Nat.cast_sub hshort.le, neg_sub]
  · obtain ⟨k, hk⟩ : ∃ k : ℕ, -point = k := ⟨(-point).toNat, by omega⟩
    have hzero : IsDigits ['0'] := ⟨by simp, by simp⟩
    have hdecimal := hexponent (.point hzero (hdigits.zeros_append k).2)
    rw [hk, Int.toNat_natCast]
    refine ⟨_, hdecimal, ?_⟩
    have hvalue : Nat.ofDigitChars 10 (['0'] ++ (List.replicate k '0' ++ digits)) 0 =
        Nat.ofDigitChars 10 digits 0 := by
      rw [Nat.ofDigitChars_append, Nat.ofDigitChars_append, Nat.ofDigitChars_replicate_zero]
      rfl
    have hunit : -((k + digits.length : ℕ) : ℤ) = point - digits.length := by omega
    rw [value, hvalue, List.length_append, List.length_replicate]
    exact congrArg (_ * 10 ^ ·) hunit
  · obtain ⟨first, rest, rfl⟩ := List.exists_cons_of_ne_nil hdigits.1
    have hfirst : IsDigits [first] := ⟨by simp, by simpa using hdigits.2 first List.mem_cons_self⟩
    have hrest : ∀ c ∈ rest, c.isDigit := fun c hc => hdigits.2 c (List.mem_cons_of_mem _ hc)
    obtain ⟨m, hmantissa, hvalue⟩ : ∃ m,
        IsMantissa (first :: if rest.isEmpty then [] else '.' :: rest) m ∧
          m = ⟨Nat.ofDigitChars 10 (first :: rest) 0, -rest.length⟩ := by
      cases rest with
      | nil => exact ⟨_, .whole hfirst, rfl⟩
      | cons c rest => exact ⟨_, .point hfirst hrest, rfl⟩
    refine ⟨_, ⟨_, _, m, point - 1, ?_, hmantissa, isExponent_power (point - 1), rfl⟩, ?_⟩
    · cases rest <;> rfl
    · have hunit : -(rest.length : ℤ) + (point - 1) = point - (rest.length + 1 : ℕ) := by omega
      rw [value, hvalue, List.length_cons]
      exact congrArg (_ * 10 ^ ·) hunit

/-- So does the text of a decimal. -/
theorem isDecimal_text (d : Decimal) : ∃ d', IsDecimal d.text d' ∧ d'.value = d.value := by
  have hlayout := isDecimal_layout (isDigits_toDigits d.digits)
    ((Nat.toDigits 10 d.digits).length + d.exponent)
  rwa [Nat.ofDigitChars_ten_toDigits, add_sub_cancel_left] at hlayout

end Decimal

/-- What is read from the text of a decimal, with or without a minus sign. -/
theorem numberOfText_text {sign : List Char} {negative : Bool} (hsign : IsSign sign negative)
    (d : Decimal) : numberOfText (String.ofList (sign ++ d.text)) =
      if negative then -doubleOf d.value else doubleOf d.value := by
  obtain ⟨d', hdecimal, hvalue⟩ := d.isDecimal_text
  rw [numberOfText_of_isDecimal hsign hdecimal, d'.toFloat_eq_doubleOf, hvalue]

/-! ### The digits that were found -/

namespace Binary

/-- The exact magnitude. -/
def magnitude (b : Binary) : ℚ :=
  b.mantissa * 2 ^ b.exponent

/-- A magnitude is not negative. -/
theorem magnitude_nonneg (b : Binary) : 0 ≤ b.magnitude := by
  unfold magnitude
  positivity

/-- A binary number without its sign is the double of its magnitude. -/
theorem toFloat_eq_doubleOf (b : Binary) :
    { b with negative := false }.toFloat = doubleOf b.magnitude := by
  rw [toFloat, doubleOf, magnitude]
  split
  · next hzero =>
    have hvalue : (b.mantissa * 2 ^ b.exponent : ℚ) = 0 := by
      simp only at hzero
      simp [hzero]
    rw [hvalue, nearest_zero]
    rfl
  · next hne =>
    rw [← round_eq_nearest .positive (Nat.pos_of_ne_zero hne)]
    rfl

/-- A binary number written out in full is the same number. -/
theorem expansion_value (b : Binary) : b.expansion.value = b.magnitude := by
  rw [expansion, magnitude]
  split
  · next he =>
    obtain ⟨k, hk⟩ := Int.eq_ofNat_of_zero_le he
    rw [Decimal.value, hk, Int.toNat_natCast, zpow_zero, zpow_natCast, mul_one]
    push_cast
    rfl
  · next he =>
    obtain ⟨k, hk⟩ : ∃ k : ℕ, b.exponent = -k := ⟨(-b.exponent).toNat, by omega⟩
    have hten : (10 : ℚ) ^ k = 5 ^ k * 2 ^ k := by rw [← mul_pow]; norm_num
    rw [Decimal.value, hk, neg_neg, Int.toNat_natCast, zpow_neg, zpow_neg, zpow_natCast,
      zpow_natCast, hten]
    push_cast
    field_simp

/-- The shortest decimal reads back, however it was found. -/
theorem doubleOf_shortest (b : Binary) : doubleOf b.shortest.value = doubleOf b.magnitude := by
  have hreads (d : Decimal) (h : b.readsBack d) : doubleOf d.value = doubleOf b.magnitude := by
    rw [readsBack, d.toFloat_eq_doubleOf, b.toFloat_eq_doubleOf] at h
    have hd := isMagnitude_doubleOf d.value_nonneg
    have hb := isMagnitude_doubleOf b.magnitude_nonneg
    exact (eq_iff_rank hd hb).2 ((beq_iff_rank hd hb).1 h)
  rw [shortest, Decimal.canonical_value]
  cases hfound : (List.range maxDigits).findSome? fun n => b.nearestOfLength? (n + 1) with
  | none => rw [Option.getD_none, expansion_value]
  | some d =>
    obtain ⟨n, -, hlength⟩ := List.exists_of_findSome?_eq_some hfound
    exact hreads d (List.find?_some hlength)

end Binary

/-! ### The text of a double -/

/-- The text of a finite double that is not zero. -/
theorem numberText_of_finite {x : Float} {s : Sign} {m : ℕ} {e : ℤ} {hm : 0 < m}
    (hx : x.toModel.unpack = .finite s m e hm) :
    numberText x = String.ofList (match s with
      | .positive => (Binary.mk false m e).shortest.text
      | .negative => '-' :: (Binary.mk false m e).shortest.text) := by
  have hbinary : Binary.ofFloat? x = some ⟨s == .negative, m, e⟩ := by
    rw [Binary.ofFloat?, hx]
  have hshortest : (Binary.mk (s == .negative) m e).shortest = (Binary.mk false m e).shortest := rfl
  rw [numberText, hbinary]
  simp only [hshortest]
  generalize (Binary.mk false m e).shortest.text = body
  cases s with
  | positive => simp
  | negative => simp [hm.ne']

/-- The double of the digits that were found is the magnitude. -/
theorem doubleOf_shortest_of_finite {x : Float} {m : ℕ} {e : ℤ} {hm : 0 < m}
    (hx : x.toModel.unpack = .finite .positive m e hm) :
    doubleOf (Binary.mk false m e).shortest.value = x :=
  (Binary.doubleOf_shortest _).trans (doubleOf_of_finite hx)

/-- A double is one of its unpacked forms. -/
theorem eq_of_unpack_eq {x : Float} {f : UnpackedFloat} (hx : x.toModel.unpack = f) :
    x = .ofModel (pack f) := by
  rw [← hx, pack_unpack]

/-- The text of a finite double other than zero is read back. -/
theorem numberOfText_numberText_of_finite {x : Float} {s : Sign} {m : ℕ} {e : ℤ} {hm : 0 < m}
    (hx : x.toModel.unpack = .finite s m e hm) : numberOfText (numberText x) = x := by
  rw [numberText_of_finite hx]
  cases s with
  | positive =>
    have hread := numberOfText_text .absent (Binary.mk false m e).shortest
    rwa [doubleOf_shortest_of_finite hx, if_neg Bool.false_ne_true, List.nil_append] at hread
  | negative =>
    have hneg : (-x).toModel.unpack = .finite .positive m e hm := by
      rw [unpack_neg, hx]
      rfl
    have hread := numberOfText_text .minus (Binary.mk false m e).shortest
    rwa [doubleOf_shortest_of_finite hneg, if_pos rfl, neg_neg_float,
      List.singleton_append] at hread

/-- Zero has no digits. -/
theorem unpack_zero : (0 : Float).toModel.unpack = .zero .positive := by
  have hzero : (0 : Float) = floatOfInt 0 := rfl
  rw [hzero, unpack_floatOfInt_of_lt (by decide), ofInt_zero]

/-- A finite double with digits is not zero. -/
theorem beq_zero_of_finite {x : Float} {s : Sign} {m : ℕ} {e : ℤ} {hm : 0 < m}
    (hx : x.toModel.unpack = .finite s m e hm) : (x == 0) = false := by
  change (UnpackedFloat.compare x.toModel.unpack (0 : Float).toModel.unpack == some .eq) = false
  rw [hx, unpack_zero]
  cases s <;> rfl

/-- It lies below zero exactly if its sign is negative. -/
theorem lt_zero_iff_of_finite {x : Float} {s : Sign} {m : ℕ} {e : ℤ} {hm : 0 < m}
    (hx : x.toModel.unpack = .finite s m e hm) : x < 0 ↔ s = .negative := by
  change decide ((UnpackedFloat.compare x.toModel.unpack (0 : Float).toModel.unpack == some .lt) =
    true) = true ↔ _
  rw [hx, unpack_zero]
  cases s <;> simp [UnpackedFloat.compare]

/-- The text of a number reads back as the number, a zero without its sign. -/
theorem numberOfText_numberText {x : Float} (hx : x.isNaN = false) :
    numberOfText (numberText x) = if x == 0 then 0 else x := by
  cases hunpack : x.toModel.unpack with
  | notANumber =>
    change x.toModel.unpack.isNaN = false at hx
    rw [hunpack] at hx
    nomatch hx
  | zero s =>
    have hread : numberOfText "0" = 0 := by decide +kernel
    obtain ⟨htext, hzero⟩ : numberText x = "0" ∧ (x == 0) = true := by
      rw [eq_of_unpack_eq hunpack]
      cases s <;> decide +kernel
    rw [htext, hread, hzero]
    rfl
  | infinity s =>
    have hread : numberOfText "Infinity" = infinity := by decide +kernel
    have hread' : numberOfText "-Infinity" = -infinity := by decide +kernel
    cases s with
    | positive =>
      obtain rfl : x = infinity := eq_of_unpack_eq hunpack
      have htext : numberText infinity = "Infinity" := by decide +kernel
      have hne : (infinity == 0) = false := by decide +kernel
      rw [htext, hread, hne]
      rfl
    | negative =>
      obtain rfl : x = -infinity := eq_of_unpack_eq hunpack
      have htext : numberText (-infinity) = "-Infinity" := by decide +kernel
      have hne : (-infinity == 0) = false := by decide +kernel
      rw [htext, hread', hne]
      rfl
  | finite s m e hm =>
    rw [numberOfText_numberText_of_finite hunpack, beq_zero_of_finite hunpack]
    rfl

/-! ### The text tells the number -/

/-- All NaNs have one text, which is no number. -/
theorem numberText_of_isNaN {x : Float} (hx : x.isNaN) : numberText x = "NaN" := by
  obtain rfl : x = Float.nan := by simpa [Float.isNaN_eq_decide_eq_nan] using hx
  decide +kernel

/-- The text of NaN is read back as NaN. -/
theorem isNaN_numberOfText_nan : (numberOfText "NaN").isNaN := by
  decide +kernel

/-- Only a zero changes on the way through its text, and only its sign. -/
theorem beq_numberOfText_numberText {x : Float} (hx : x.isNaN = false) :
    numberOfText (numberText x) == x := by
  rw [numberOfText_numberText hx]
  split
  · next hzero => exact BEq.symm hzero
  · rw [Float.beq_self_iff]
    rintro rfl
    nomatch hx

/-- The text tells the number, up to the sign of zero. -/
theorem numberText_eq_iff (x y : Float) :
    numberText x = numberText y ↔ x == y ∨ (x.isNaN ∧ y.isNaN) := by
  constructor
  · intro h
    have hnan {z : Float} (hz : z.isNaN = false) : (numberOfText (numberText z)).isNaN = false := by
      rw [numberOfText_numberText hz]
      split
      · rfl
      · exact hz
    cases hx : x.isNaN <;> cases hy : y.isNaN
    · have hx' := beq_numberOfText_numberText hx
      rw [h] at hx'
      exact .inl (BEq.trans (BEq.symm hx') (beq_numberOfText_numberText hy))
    · have hx' := hnan hx
      rw [h, numberText_of_isNaN hy, isNaN_numberOfText_nan] at hx'
      nomatch hx'
    · have hy' := hnan hy
      rw [← h, numberText_of_isNaN hx, isNaN_numberOfText_nan] at hy'
      nomatch hy'
    · exact .inr ⟨rfl, rfl⟩
  · rintro (h | ⟨hx, hy⟩)
    · have hzero : numberText 0 = "0" := numberText_zero
      have hnegative : numberText (-0) = "0" := by decide +kernel
      obtain ⟨-, -, rfl | ⟨rfl, rfl⟩ | ⟨rfl, rfl⟩⟩ := Float.beq_iff_ne_nan_and_eq.1 h
      · rfl
      · rw [hzero, hnegative]
      · rw [hzero, hnegative]
    · rw [numberText_of_isNaN hx, numberText_of_isNaN hy]

/-- The key of a number is the text of its double, whatever represents it. -/
theorem Primitive.toText_of_float? {p : Primitive} {x : Float} (h : p.float? = some x) :
    p.toText = numberText x := by
  cases p with
  | int i =>
    cases h
    have hbound : i.toInt.natAbs < 2 ^ 52 := Nat.lt_of_le_of_lt (natAbs_toInt_le i) (by decide)
    exact (numberText_floatOfInt hbound).symm
  | number y =>
    cases h
    rfl
  | _ => nomatch h

/-- The key of a primitive with a number is the text of the number. -/
theorem Host.toPropertyKey_of_float? (host : Host) {p : Primitive} {x : Float}
    (h : p.float? = some x) : host.toPropertyKey (.primitive p) = pure (numberText x) := by
  rw [← Primitive.toText_of_float? h]
  rfl

/-- Two keys name one slot of an object: one property, or one element of an array. -/
def SameSlot (key key' : String) : Prop :=
  key = key' ∨ ∃ n, arrayIndexOfKey? key = some n ∧ arrayIndexOfKey? key' = some n

/-- Only equal keys do. -/
theorem sameSlot_iff {key key' : String} : SameSlot key key' ↔ key = key' := by
  constructor
  · rintro (h | ⟨n, h, h'⟩)
    · exact h
    · rw [(arrayIndexOfKey?_eq_some_iff.1 h).1, (arrayIndexOfKey?_eq_some_iff.1 h').1]
  · exact .inl

/-! ### The two notations -/

/-- Digits, and perhaps more digits after a point. -/
inductive IsPlainText : List Char → Prop
  | whole {digits : List Char} (h : IsDigits digits) : IsPlainText digits
  | fraction {digits fraction : List Char} (h : IsDigits digits) (h' : IsDigits fraction) :
    IsPlainText (digits ++ '.' :: fraction)

/-- A digit that is not zero, perhaps more digits after a point, and an exponent with a sign. -/
inductive IsScientificText : List Char → Prop
  | whole {first sign : Char} {power : List Char} (hfirst : first.isDigit ∧ first ≠ '0')
      (hsign : sign = '+' ∨ sign = '-') (hpower : IsDigits power) :
    IsScientificText (first :: 'e' :: sign :: power)
  | fraction {first sign : Char} {fraction power : List Char}
      (hfirst : first.isDigit ∧ first ≠ '0') (hfraction : IsDigits fraction)
      (hsign : sign = '+' ∨ sign = '-') (hpower : IsDigits power) :
    IsScientificText (first :: '.' :: (fraction ++ 'e' :: sign :: power))

/-- No text is in both notations. -/
theorem IsScientificText.not_isPlainText {text : List Char} (h : IsScientificText text) :
    ¬IsPlainText text := by
  have hmem : 'e' ∈ text := by cases h <;> simp
  have hdigit {c : Char} (hc : c.isDigit) : c ≠ 'e' := ne_of_isDigit hc rfl
  rintro (hdigits | ⟨hdigits, hfraction⟩)
  · exact hdigit (hdigits.2 _ hmem) rfl
  · rcases List.mem_append.1 hmem with hmem | hmem
    · exact hdigit (hdigits.2 _ hmem) rfl
    · rcases List.mem_cons.1 hmem with hmem | hmem
      · revert hmem
        decide
      · exact hdigit (hfraction.2 _ hmem) rfl

namespace Decimal

variable {digits : List Char} {point : ℤ}

/-- Within the limits of the point the layout is plain. -/
theorem isPlainText_layout (hdigits : IsDigits digits)
    (hpoint : -leadingPlaces < point ∧ point ≤ maxWholeDigits) :
    IsPlainText (layout digits point) := by
  unfold layout
  dsimp only
  split_ifs with hwhole hsplit hsmall
  · exact .whole (hdigits.append_zeros _)
  · obtain ⟨k, rfl⟩ := Int.eq_ofNat_of_zero_le hsplit.1.le
    have hshort : k < digits.length := by omega
    rw [Int.toNat_natCast]
    exact .fraction (hdigits.take (Int.natCast_pos.1 hsplit.1)) (hdigits.drop hshort)
  · have hzero : IsDigits ['0'] := ⟨by simp, by simp⟩
    exact .fraction hzero (hdigits.zeros_append _)
  · omega

/-- Beyond them it is scientific. -/
theorem isScientificText_layout (hdigits : IsDigits digits) (hhead : digits.head? ≠ some '0')
    (hpoint : ¬(-leadingPlaces < point ∧ point ≤ maxWholeDigits)) :
    IsScientificText (layout digits point) := by
  obtain ⟨first, rest, rfl⟩ := List.exists_cons_of_ne_nil hdigits.1
  have hfirst : first.isDigit ∧ first ≠ '0' :=
    ⟨hdigits.2 first List.mem_cons_self, fun h => hhead (congrArg some h)⟩
  have hsign : (if point - 1 < 0 then '-' else '+') = '+' ∨
      (if point - 1 < 0 then '-' else '+') = '-' := by
    split
    · exact .inr rfl
    · exact .inl rfl
  have hplaces : leadingPlaces = 6 := rfl
  have hwhole : maxWholeDigits = 21 := rfl
  have hcount : ((first :: rest).length : ℤ) = rest.length + 1 := Nat.cast_succ _
  unfold layout
  dsimp only
  rw [if_neg (by omega), if_neg (by omega), if_neg (by omega)]
  cases rest with
  | nil => exact .whole hfirst hsign (isDigits_toDigits _)
  | cons c rest =>
    have hrest : IsDigits (c :: rest) :=
      ⟨by simp, fun c hc => hdigits.2 c (List.mem_cons_of_mem _ hc)⟩
    exact .fraction hfirst hrest hsign (isDigits_toDigits _)

/-- The place of the point tells the magnitude. -/
theorem value_bounds {d : Decimal} (hd : 0 < d.digits) :
    let point : ℤ := (Nat.toDigits 10 d.digits).length + d.exponent
    (10 : ℚ) ^ (point - 1) ≤ d.value ∧ d.value < 10 ^ point := by
  intro point
  have hlength : 0 < (Nat.toDigits 10 d.digits).length := Nat.length_toDigits_pos
  obtain ⟨k, hk⟩ : ∃ k, (Nat.toDigits 10 d.digits).length = k + 1 :=
    ⟨_, (Nat.sub_add_cancel hlength).symm⟩
  have hlower : 10 ^ k ≤ d.digits := pow_le_of_lt_length hd (by omega)
  have hupper : d.digits < 10 ^ (k + 1) :=
    (Nat.length_toDigits_le_iff (by decide) (Nat.succ_pos k)).1 hk.le
  have hpoint : point - 1 = k + d.exponent := by omega
  have hpoint' : point = (k + 1 : ℕ) + d.exponent := by omega
  rw [hpoint, hpoint', value, zpow_add₀ (by norm_num), zpow_add₀ (by norm_num), zpow_natCast,
    zpow_natCast]
  constructor
  · refine mul_le_mul_of_nonneg_right ?_ (by positivity)
    exact_mod_cast hlower
  · refine mul_lt_mul_of_pos_right ?_ (by positivity)
    exact_mod_cast hupper

/-- The notation of a positive decimal depends on its value. -/
theorem text_notation {d : Decimal} (hd : 0 < d.digits) :
    (10 ^ (-6 : ℤ) ≤ d.value ∧ d.value < 10 ^ (21 : ℤ) → IsPlainText d.text) ∧
      (¬(10 ^ (-6 : ℤ) ≤ d.value ∧ d.value < 10 ^ (21 : ℤ)) → IsScientificText d.text) := by
  obtain ⟨hlower, hupper⟩ := value_bounds hd
  have hdigits := isDigits_toDigits d.digits
  rw [text]
  generalize ((Nat.toDigits 10 d.digits).length : ℤ) + d.exponent = point at hlower hupper ⊢
  have hten : (1 : ℚ) < 10 := by norm_num
  constructor
  · rintro ⟨hsmall, hlarge⟩
    have hpoint : -6 < point := (zpow_lt_zpow_iff_right₀ hten).1 (hsmall.trans_lt hupper)
    have hpoint' : point - 1 < 21 := (zpow_lt_zpow_iff_right₀ hten).1 (hlower.trans_lt hlarge)
    exact isPlainText_layout hdigits ⟨hpoint, Int.sub_one_lt_iff.1 hpoint'⟩
  · intro hnot
    refine isScientificText_layout hdigits (head?_toDigits hd) ?_
    rintro ⟨hpoint, hpoint'⟩
    refine hnot ⟨?_, ?_⟩
    · exact (zpow_le_zpow_right₀ hten.le (Int.le_sub_one_iff.2 hpoint)).trans hlower
    · exact hupper.trans_le (zpow_le_zpow_right₀ hten.le hpoint')

end Decimal

/-! ### The bounds of the plain notation -/

/-- The absolute value keeps all but the sign. -/
theorem unpack_abs {x : Float} (hx : x.toModel.unpack ≠ .notANumber) :
    x.abs.toModel.unpack = x.toModel.unpack.abs :=
  (isMagnitude_abs hx).unpack_pack

/-- A decimal that is the shortest of its double separates doubles as it separates their
decimals. -/
theorem lt_toFloat_iff {c : Decimal} (hc : (Binary.ofFloat? c.toFloat).map Binary.shortest = some c)
    {x : Float} {m : ℕ} {e : ℤ} {hm : 0 < m} (hx : x.toModel.unpack = .finite .positive m e hm) :
    (x < c.toFloat ↔ (Binary.mk false m e).shortest.value < c.value) ∧
      (c.toFloat ≤ x ↔ c.value ≤ (Binary.mk false m e).shortest.value) := by
  have hvalue := doubleOf_shortest_of_finite hx
  have hshortest :
      (Binary.ofFloat? x).map Binary.shortest = some (Binary.mk false m e).shortest := by
    rw [Binary.ofFloat?, hx]
    rfl
  generalize (Binary.mk false m e).shortest = d at hvalue hshortest ⊢
  have hxmagnitude : IsMagnitude x.toModel.unpack := by
    rw [← hvalue]
    exact isMagnitude_doubleOf d.value_nonneg
  have hcmagnitude : IsMagnitude c.toFloat.toModel.unpack := by
    rw [c.toFloat_eq_doubleOf]
    exact isMagnitude_doubleOf c.value_nonneg
  have hrank : rank x.toModel.unpack < rank c.toFloat.toModel.unpack ↔ d.value < c.value := by
    constructor
    · intro hlt
      by_contra hle
      have hmono := rank_doubleOf_mono c.value_nonneg (not_lt.1 hle)
      rw [← c.toFloat_eq_doubleOf, hvalue] at hmono
      exact hmono.not_gt hlt
    · intro hlt
      have hmono := rank_doubleOf_mono d.value_nonneg hlt.le
      rw [← c.toFloat_eq_doubleOf, hvalue] at hmono
      refine lt_of_le_of_ne hmono fun heq => ?_
      -- the same double would have the same shortest decimal
      rw [(eq_iff_rank hxmagnitude hcmagnitude).2 heq, hc] at hshortest
      cases hshortest
      exact lt_irrefl _ hlt
  rw [lt_iff_rank hxmagnitude hcmagnitude, le_iff_rank hcmagnitude hxmagnitude, ← not_lt, hrank,
    not_lt]
  exact ⟨Iff.rfl, Iff.rfl⟩

/-- The magnitudes of finite numbers in plain notation. -/
theorem plain_range_iff {x : Float} {m : ℕ} {e : ℤ} {hm : 0 < m}
    (hx : x.toModel.unpack = .finite .positive m e hm) : 1e-6 ≤ x ∧ x < 1e21 ↔
      10 ^ (-6 : ℤ) ≤ (Binary.mk false m e).shortest.value ∧
        (Binary.mk false m e).shortest.value < 10 ^ (21 : ℤ) := by
  have hlower : (1e-6 : Float) = Decimal.toFloat ⟨1, -6⟩ := by decide +kernel
  have hupper : (1e21 : Float) = Decimal.toFloat ⟨1, 21⟩ := by decide +kernel
  have hlower' := (lt_toFloat_iff (c := ⟨1, -6⟩) (by decide +kernel) hx).2
  have hupper' := (lt_toFloat_iff (c := ⟨1, 21⟩) (by decide +kernel) hx).1
  rw [hlower, hupper, hlower', hupper']
  simp only [Decimal.value, Nat.cast_one, one_mul]

/-- The text of a finite number is plain for a zero, and from `1e-6` on and below `1e21`. -/
theorem numberText_notation {x : Float} (hx : x.isFinite) :
    ∃ body, numberText x = String.ofList (if x < 0 then '-' :: body else body) ∧
      (IsPlainText body ↔ x == 0 ∨ 1e-6 ≤ x.abs ∧ x.abs < 1e21) ∧
      (¬IsPlainText body → IsScientificText body) := by
  cases hunpack : x.toModel.unpack with
  | notANumber =>
    change x.toModel.unpack.isFinite = true at hx
    rw [hunpack] at hx
    cases hx
  | infinity s =>
    change x.toModel.unpack.isFinite = true at hx
    rw [hunpack] at hx
    cases hx
  | zero s =>
    have hplain : IsPlainText ['0'] := .whole ⟨by simp, by simp⟩
    obtain ⟨htext, hnonnegative, hzero⟩ : numberText x = "0" ∧ ¬x < 0 ∧ (x == 0) = true := by
      rw [eq_of_unpack_eq hunpack]
      cases s <;> decide +kernel
    refine ⟨['0'], ?_, iff_of_true hplain (.inl hzero), fun h => absurd hplain h⟩
    rw [htext, if_neg hnonnegative]
  | finite s m e hm =>
    have habs : x.abs.toModel.unpack = .finite .positive m e hm := by
      have hne : x.toModel.unpack ≠ .notANumber := by
        rw [hunpack]
        exact UnpackedFloat.noConfusion
      rw [unpack_abs hne, hunpack]
      rfl
    -- without digits the text would read back as zero
    have hdigits : 0 < (Binary.mk false m e).shortest.digits := by
      by_contra hzero
      have hvalue : (Binary.mk false m e).shortest.value = 0 := by
        rw [Decimal.value, Nat.eq_zero_of_not_pos hzero, Nat.cast_zero, zero_mul]
      have hdouble := doubleOf_shortest_of_finite habs
      rw [hvalue, doubleOf, nearest_zero] at hdouble
      rw [← hdouble] at habs
      cases habs.symm.trans (unpack_pack_zero .positive)
    obtain ⟨hplain, hscientific⟩ := Decimal.text_notation hdigits
    have hiff : IsPlainText (Binary.mk false m e).shortest.text ↔ 1e-6 ≤ x.abs ∧ x.abs < 1e21 := by
      rw [plain_range_iff habs]
      exact ⟨fun h => by_contra fun hnot => (hscientific hnot).not_isPlainText h, hplain⟩
    refine ⟨(Binary.mk false m e).shortest.text, ?_, ?_, fun h => hscientific (mt hplain h)⟩
    · rw [numberText_of_finite hunpack]
      generalize (Binary.mk false m e).shortest.text = body
      have hsign := lt_zero_iff_of_finite hunpack
      cases s with
      | positive => rw [if_neg (mt hsign.1 Sign.noConfusion)]
      | negative => rw [if_pos (hsign.2 rfl)]
    · rw [hiff, beq_zero_of_finite hunpack]
      simp

/-! ### The round trip -/

/-- A number comes back from its text, NaN as NaN and a zero without its sign. So the texts of two
numbers are the same, and as property keys they name one slot, exactly if the numbers are equal or
both NaN. The text of a finite number is plain for a zero, and from `1e-6` on and below `1e21`, and
scientific otherwise. -/
theorem number_text_round_trip :
    (∀ x : Float, x.isNaN = false → numberOfText (numberText x) = if x == 0 then 0 else x) ∧
    (∀ x : Float, x.isNaN → (numberOfText (numberText x)).isNaN) ∧
    (∀ x y : Float, numberText x = numberText y ↔ x == y ∨ (x.isNaN ∧ y.isNaN)) ∧
    (∀ (host : Host) (p q : Primitive) (x y : Float), p.float? = some x → q.float? = some y →
      ∃ key key', host.toPropertyKey (.primitive p) = pure key ∧
        host.toPropertyKey (.primitive q) = pure key' ∧
        (SameSlot key key' ↔ x == y ∨ (x.isNaN ∧ y.isNaN))) ∧
    (∀ x : Float, x.isFinite →
      ∃ body, numberText x = String.ofList (if x < 0 then '-' :: body else body) ∧
        (IsPlainText body ↔ x == 0 ∨ 1e-6 ≤ x.abs ∧ x.abs < 1e21) ∧
        (¬IsPlainText body → IsScientificText body)) := by
  refine ⟨fun x hx => numberOfText_numberText hx, fun x hx => ?_, numberText_eq_iff,
    fun host p q x y hp hq => ?_, fun x hx => numberText_notation hx⟩
  · rw [numberText_of_isNaN hx]
    exact isNaN_numberOfText_nan
  · refine ⟨_, _, host.toPropertyKey_of_float? hp, host.toPropertyKey_of_float? hq, ?_⟩
    rw [sameSlot_iff, numberText_eq_iff]

/-- The least magnitude above the plain notation. -/
theorem number_text_round_trip_exponent :
    let x : Float := 1e21
    x.isNaN = false ∧ x.isFinite ∧ numberText x = "1e+21" ∧ numberOfText "1e+21" = x ∧
      IsScientificText "1e+21".toList := by
  intro x
  have hnumber : x.isNaN = false := by decide +kernel
  have hfinite : x.isFinite := by decide +kernel
  have hne : (x == 0) = false := by decide +kernel
  have htext : numberText x = "1e+21" := by decide +kernel
  obtain ⟨hread, -, -, -, hnotation⟩ := number_text_round_trip
  have hround := hread x hnumber
  rw [htext, hne] at hround
  refine ⟨hnumber, hfinite, htext, hround, ?_⟩
  obtain ⟨body, hbody, hplain, hscientific⟩ := hnotation x hfinite
  have hnonnegative : ¬x < 0 := by decide +kernel
  have hlarge : ¬(x == 0 ∨ 1e-6 ≤ x.abs ∧ x.abs < 1e21) := by decide +kernel
  rw [htext, if_neg hnonnegative] at hbody
  rw [hbody, String.toList_ofList]
  exact hscientific (mt hplain.1 hlarge)

end ScriptOps
