import ScriptOps.Number.Text
import ScriptOps.Proofs.IntegerBinaries

/-!
# The text of an integer

The text of the double of an integer is the text of the integer. The search for the shortest decimal
tries the lengths up to that of the integer first, so all its candidates are whole numbers: a
candidate that reads back is the integer, with zeros at its end in place of the digits that were
left out. At the full length the integer itself is a candidate. Laying out the digits that were
found puts the zeros back.
-/

namespace ScriptOps

open Float.Model Float.Model.UnpackedFloat Rounding

/-! ### Digits -/

/-- Powers of ten append zeros. -/
theorem toDigits_mul_pow {n : Nat} (hn : 0 < n) (k : Nat) :
    Nat.toDigits 10 (n * 10 ^ k) = Nat.toDigits 10 n ++ List.replicate k '0' := by
  induction k with
  | zero => simp
  | succ k ih =>
    have hpos : 0 < n * 10 ^ k := Nat.mul_pos hn (Nat.pow_pos (by decide))
    have happend := Nat.toDigits_append_toDigits (b := 10) (d := 0) (by decide) hpos (by decide)
    have hsplit : n * 10 ^ (k + 1) = 10 * (n * 10 ^ k) + 0 := by ring
    rw [hsplit, ← happend, ih, Nat.toDigits_zero, List.append_assoc, List.replicate_succ']

/-- A number with more than some digits is at least that power of ten. -/
theorem pow_le_of_lt_length {n u : Nat} (hn : 0 < n) (hu : u < (Nat.toDigits 10 n).length) :
    10 ^ u ≤ n := by
  rcases Nat.eq_zero_or_pos u with rfl | hpos
  · exact hn
  · by_contra hlt
    have hle := (Nat.length_toDigits_le_iff (b := 10) (by decide) hpos).2 (Nat.not_le.1 hlt)
    omega

namespace Decimal

/-! ### Decimals that denote natural numbers -/

/-- A decimal is a natural number, perhaps with some of the zeros at its end left to the exponent.
-/
def Denotes (d : Decimal) (n : Nat) : Prop :=
  0 ≤ d.exponent ∧ d.digits * 10 ^ d.exponent.toNat = n

/-- Digits and a power of ten denote their product. -/
theorem denotes_mk (q u : Nat) : Denotes ⟨q, u⟩ (q * 10 ^ u) :=
  ⟨Int.natCast_nonneg u, rfl⟩

/-- Taking zeros off the end changes nothing about the number. -/
theorem stripZeros_denotes {n : Nat} (fuel : Nat) {d : Decimal} (hd : d.Denotes n) :
    (d.stripZeros fuel).Denotes n := by
  induction fuel generalizing d with
  | zero => exact hd
  | succ fuel ih =>
    rw [stripZeros]
    split
    · next hzero =>
      obtain ⟨hexponent, hvalue⟩ := hd
      have hnat : (d.exponent + 1).toNat = d.exponent.toNat + 1 := by omega
      have hdigits : d.digits / 10 * 10 = d.digits :=
        Nat.div_mul_cancel (Nat.dvd_of_mod_eq_zero hzero)
      refine ih ⟨by simp only; omega, ?_⟩
      calc d.digits / 10 * 10 ^ (d.exponent + 1).toNat
          = d.digits / 10 * 10 * 10 ^ d.exponent.toNat := by rw [hnat]; ring
        _ = n := by rw [hdigits, hvalue]
    · exact hd

/-- So the canonical form denotes the same number. -/
theorem canonical_denotes {d : Decimal} {n : Nat} (hd : d.Denotes n) : d.canonical.Denotes n := by
  rw [canonical]
  split
  · next hzero =>
    refine ⟨Int.le_refl 0, ?_⟩
    rw [← hd.2, hzero]
    simp
  · exact stripZeros_denotes _ hd

/-- The zeros that were left to the exponent are written. -/
theorem Denotes.text_eq_toDigits {d : Decimal} {n : Nat} (hd : d.Denotes n) (hn : 0 < n)
    (hn' : (Nat.toDigits 10 n).length ≤ 21) : d.text = Nat.toDigits 10 n := by
  obtain ⟨hexponent, hvalue⟩ := hd
  have hdigits : 0 < d.digits := by
    by_contra hzero
    rw [Nat.eq_zero_of_not_pos hzero] at hvalue
    omega
  have htext := toDigits_mul_pow hdigits d.exponent.toNat
  rw [hvalue] at htext
  have hlength := congrArg List.length htext
  rw [List.length_append, List.length_replicate] at hlength
  have hzeros : ((Nat.toDigits 10 d.digits).length + d.exponent -
      (Nat.toDigits 10 d.digits).length).toNat = d.exponent.toNat := by omega
  rw [text, layout, if_pos ⟨by omega, by rw [maxWholeDigits]; omega⟩, hzeros, htext]

/-- Reading such a decimal rounds the natural number, which is not needed up to 53 bits. -/
theorem Denotes.toFloat_eq_floatOfInt {d : Decimal} {n : Nat} (hd : d.Denotes n) (hn : 0 < n)
    (hn' : n < 2 ^ 53) : d.toFloat = floatOfInt n := by
  obtain ⟨hexponent, hvalue⟩ := canonical_denotes hd
  rw [toFloat]
  generalize d.canonical = c at hexponent hvalue ⊢
  obtain ⟨q, e⟩ := c
  obtain ⟨u, rfl⟩ := Int.eq_ofNat_of_zero_le hexponent
  replace hvalue : q * 10 ^ u = n := hvalue
  have hq : q ≠ 0 := by
    rintro rfl
    omega
  have hu : u < 53 := by
    have hpow : 10 ^ u ≤ n := hvalue ▸ Nat.le_mul_of_pos_left _ (Nat.pos_of_ne_zero hq)
    have htwo : 2 ^ u ≤ 10 ^ u := Nat.pow_le_pow_left (by decide) u
    exact (Nat.pow_lt_pow_iff_right (by decide)).1 (Nat.lt_of_le_of_lt (htwo.trans hpow) hn')
  -- both sides round the same integer, the decimal one after shifting it by 53 bits
  have hround := round_eq_roundWithAccuracy (signOf n) hn (e := 0) (k := 53)
    (by rw [target_eq]; omega)
  have hmantissa : n * 2 ^ 53 = q <<< 53 * 10 ^ u := by
    rw [← hvalue, Nat.shiftLeft_eq]
    ring
  have hofInt : UnpackedFloat.ofInt .binary64 n = round .binary64 (signOf n) n 0 :=
    ofInt_eq_round (by omega)
  change Float.ofModel (pack (UnpackedFloat.ofScientific .binary64 q u)) =
    Float.ofModel (pack (UnpackedFloat.ofInt .binary64 n))
  rw [hofInt, hround, hmantissa, signOf_eq_positive.2 (Int.natCast_nonneg n)]
  unfold UnpackedFloat.ofScientific
  rw [dif_neg hq, if_neg (by norm_num; omega), if_neg (by norm_num; omega),
    if_pos (Int.natCast_nonneg u)]
  rfl

end Decimal

/-! ### The search -/

namespace Binary

variable {i : Int} {k : Nat}

/-- The quotient of an integer is its magnitude over one, scaled. -/
theorem quotient_ofInt (i : Int) (k : Nat) :
    (ofInt i k).quotient = (i.natAbs * 2 ^ k, 2 ^ k) := by
  simp only [quotient, ofInt, Int.neg_neg, Int.toNat_natCast]
  split
  · obtain rfl : k = 0 := by omega
    simp
  · rfl

/-- The scale is the number of digits. -/
theorem scale_ofInt (hi : i ≠ 0) : (ofInt i k).scale = (Nat.toDigits 10 i.natAbs).length := by
  have hshift : i.natAbs * 2 ^ k * 10 ^ scaleFloor / 2 ^ k = i.natAbs * 10 ^ scaleFloor := by
    rw [Nat.mul_right_comm]
    exact Nat.mul_div_cancel _ (Nat.two_pow_pos k)
  rw [scale, quotient_ofInt]
  simp only [hshift, toDigits_mul_pow (Int.natAbs_pos.2 hi), List.length_append,
    List.length_replicate]
  push_cast
  omega

/-- The whole neighbours, in one order or the other. -/
theorem neighbours_ofInt (i : Int) (k u : Nat) :
    (ofInt i k).neighbours u =
      [⟨i.natAbs / 10 ^ u, u⟩, ⟨i.natAbs / 10 ^ u + 1, u⟩] ∨
    (ofInt i k).neighbours u =
      [⟨i.natAbs / 10 ^ u + 1, u⟩, ⟨i.natAbs / 10 ^ u, u⟩] := by
  have hunit : (-(u : Int)).toNat = 0 := by omega
  have hlower : i.natAbs * 2 ^ k / (2 ^ k * 10 ^ u) = i.natAbs / 10 ^ u := by
    rw [Nat.mul_comm, Nat.mul_div_mul_left _ _ (Nat.two_pow_pos k)]
  rw [neighbours, quotient_ofInt]
  simp only [hunit, Nat.pow_zero, Nat.mul_one, Int.toNat_natCast, hlower]
  split
  · exact .inl rfl
  · exact .inr rfl

/-- Digits read back as a small integer exactly if they denote its magnitude. -/
theorem readsBack_ofInt {d : Decimal} {n : Nat} (hd : d.Denotes n) (hn : 0 < n) (hn' : n < 2 ^ 53)
    (hi : i.natAbs < 2 ^ 53) : (ofInt i k).readsBack d = (n == i.natAbs) := by
  have hmagnitude : { ofInt i k with negative := false } = ofInt i.natAbs k := by
    have hsign : ¬ (i.natAbs : Int) < 0 := by omega
    simp only [ofInt, Int.natAbs_natCast, decide_eq_false hsign]
  rw [readsBack, hmagnitude, toFloat_ofInt, hd.toFloat_eq_floatOfInt hn hn',
    floatOfInt_beq (by rwa [Int.natAbs_natCast]) (by rwa [Int.natAbs_natCast]), Bool.eq_iff_iff,
    beq_iff_eq, beq_iff_eq, Int.natCast_inj]

/-- A decimal found at a length up to that of the integer is the integer. -/
theorem denotes_of_nearestOfLength? {length : Nat} {d : Decimal} (hi : i ≠ 0)
    (hi' : i.natAbs < 2 ^ 52) (hpos : 0 < length)
    (hlength : length ≤ (Nat.toDigits 10 i.natAbs).length)
    (hfound : (ofInt i k).nearestOfLength? length = some d) : d.Denotes i.natAbs := by
  have hnat := Int.natAbs_pos.2 hi
  obtain ⟨u, hu⟩ : ∃ u, (Nat.toDigits 10 i.natAbs).length = length + u :=
    ⟨_, (Nat.add_sub_cancel' hlength).symm⟩
  have hpow := pow_le_of_lt_length hnat (u := u) (by omega)
  have hunit : (ofInt i k).scale - length = u := by
    rw [scale_ofInt hi]
    omega
  rw [nearestOfLength?, hunit] at hfound
  have hreads := List.find?_some hfound
  have hmem := List.mem_of_find?_eq_some hfound
  -- both candidates are at most twice the integer, so they are not rounded
  have hcandidate : ∃ q, 0 < q ∧ q * 10 ^ u < 2 ^ 53 ∧ d = ⟨q, u⟩ := by
    have hquotient := Nat.div_mul_le_self i.natAbs (10 ^ u)
    have hone : 0 < i.natAbs / 10 ^ u := Nat.div_pos hpow (Nat.pow_pos (by decide))
    have hlower : d = ⟨i.natAbs / 10 ^ u, u⟩ ∨ d = ⟨i.natAbs / 10 ^ u + 1, u⟩ := by
      rcases neighbours_ofInt i k u with h | h <;> rw [h] at hmem
      · simpa using hmem
      · simpa [or_comm] using hmem
    rcases hlower with rfl | rfl
    · exact ⟨_, hone, by omega, rfl⟩
    · refine ⟨_, Nat.succ_pos _, ?_, rfl⟩
      rw [Nat.succ_mul]
      omega
  obtain ⟨q, hq, hq', rfl⟩ := hcandidate
  have hdenotes := Decimal.denotes_mk q u
  have hqpos : 0 < q * 10 ^ u := Nat.mul_pos hq (Nat.pow_pos (by decide))
  rw [readsBack_ofInt hdenotes hqpos hq' (by omega), beq_iff_eq] at hreads
  rwa [hreads] at hdenotes

/-- At its own length the integer is found. -/
theorem isSome_nearestOfLength? (hi : i ≠ 0) (hi' : i.natAbs < 2 ^ 52) :
    ((ofInt i k).nearestOfLength? (Nat.toDigits 10 i.natAbs).length).isSome := by
  have hunit : (ofInt i k).scale - (Nat.toDigits 10 i.natAbs).length = (0 : Nat) := by
    rw [scale_ofInt hi]
    omega
  have hdenotes : Decimal.Denotes ⟨i.natAbs, (0 : Nat)⟩ i.natAbs := ⟨Int.le_refl 0, by simp⟩
  rw [nearestOfLength?, hunit, List.find?_isSome]
  refine ⟨⟨i.natAbs, (0 : Nat)⟩, ?_, ?_⟩
  · rcases neighbours_ofInt i k 0 with h | h <;> rw [h] <;> simp
  · rw [readsBack_ofInt hdenotes (Int.natAbs_pos.2 hi) (by omega) (by omega), beq_self_eq_true]

/-- The first hit of a search over an initial segment comes before any known hit. -/
theorem findSome?_range {f : Nat → Option Decimal} {bound hit : Nat} (hbound : hit < bound)
    (hhit : (f hit).isSome) :
    ∃ n d, n ≤ hit ∧ f n = some d ∧ (List.range bound).findSome? f = some d := by
  have hsome : ((List.range (hit + 1)).findSome? f).isSome :=
    List.findSome?_isSome_iff.2 ⟨hit, List.mem_range.2 (Nat.lt_succ_self hit), hhit⟩
  obtain ⟨d, hd⟩ := Option.isSome_iff_exists.1 hsome
  obtain ⟨n, hn, hfound⟩ := List.exists_of_findSome?_eq_some hd
  refine ⟨n, d, Nat.lt_succ_iff.1 (List.mem_range.1 hn), hfound, ?_⟩
  obtain ⟨rest, rfl⟩ : ∃ rest, bound = hit + 1 + rest := ⟨bound - (hit + 1), by omega⟩
  rw [List.range_add, List.findSome?_append, hd]
  rfl

/-- The shortest decimal that reads back to an integer is the integer. -/
theorem shortest_ofInt (hi : i ≠ 0) (hi' : i.natAbs < 2 ^ 52) :
    (ofInt i k).shortest.Denotes i.natAbs := by
  have hlength : (Nat.toDigits 10 i.natAbs).length ≤ 16 :=
    (Nat.length_toDigits_le_iff (by decide) (by decide)).2 (hi'.trans (by decide))
  have hpos : 0 < (Nat.toDigits 10 i.natAbs).length := Nat.length_toDigits_pos
  obtain ⟨last, hlast⟩ : ∃ last, (Nat.toDigits 10 i.natAbs).length = last + 1 :=
    ⟨_, (Nat.sub_add_cancel hpos).symm⟩
  have hhit := isSome_nearestOfLength? (k := k) hi hi'
  rw [hlast] at hhit
  have hbound : last < maxDigits := by
    rw [maxDigits]
    omega
  obtain ⟨n, d, hn, hfound, hsearch⟩ :=
    findSome?_range (f := fun n => (ofInt i k).nearestOfLength? (n + 1)) hbound hhit
  rw [shortest]
  simp only [hsearch, Option.getD_some]
  exact Decimal.canonical_denotes
    (denotes_of_nearestOfLength? hi hi' (Nat.succ_pos n) (by omega) hfound)

end Binary

/-! ### The text -/

/-- Zero is written as a single digit. -/
theorem numberText_zero : numberText (floatOfInt 0) = "0" := by
  decide +kernel

/-- The text of the double of an integer is the text of the integer. -/
theorem numberText_floatOfInt {i : Int} (hi : i.natAbs < 2 ^ 52) :
    numberText (floatOfInt i) = toString i := by
  by_cases hzero : i = 0
  · subst hzero
    exact numberText_zero
  have hlength : (Nat.toDigits 10 i.natAbs).length ≤ 21 :=
    (Nat.length_toDigits_le_iff (by decide) (by decide)).2 (hi.trans (by decide))
  have hpos := Int.natAbs_pos.2 hzero
  obtain ⟨k, hk⟩ := Binary.ofFloat?_floatOfInt (i := i) (hi.trans (by decide))
  have hmantissa : (Binary.ofInt i k).mantissa ≠ 0 := (Nat.mul_pos hpos (Nat.two_pow_pos k)).ne'
  have hbody := (Binary.shortest_ofInt (k := k) hzero hi).text_eq_toDigits hpos hlength
  have hnegative : (Binary.ofInt i k).negative = decide (i < 0) := rfl
  rw [numberText, hk]
  simp only [hbody, hnegative, decide_eq_true_eq]
  rw [Int.toString_eq_repr, Int.repr_eq_if]
  by_cases hneg : i < 0
  · have hnat : (-i).toNat = i.natAbs := by omega
    rw [if_pos ⟨hneg, hmantissa⟩, if_neg (by omega), hnat, Nat.repr_eq_ofList_toDigits,
      String.ofList_cons]
    rfl
  · have hnat : i.toNat = i.natAbs := by omega
    rw [if_neg (fun h => hneg h.1), if_pos (by omega), hnat, Nat.repr_eq_ofList_toDigits]

end ScriptOps
