import ScriptOps.Proofs.DecimalDoubles
import ScriptOps.Proofs.NumberReading

/-!
# Numbers with a radix mark

The digits of a number with a radix mark are added up in doubles, and every step rounds. Up to the
first `2 ^ 53` nothing is lost. The digits that follow only scale the sum: it has an exponent of at
least one by then, and the next digit is less than half a unit of the scaled sum, so rounding drops
it. What is read is the nearest double of `kept`, the number with zeros in place of these digits.
It is not the double nearest to the number itself exactly if the kept digits end half way between
two doubles, the even one below, and a digit that was dropped is not zero.
-/

namespace ScriptOps

open Float.Model Float.Model.UnpackedFloat Rounding

/-! ### Doubles of large numbers -/

/-- Nearest doubles are numbers. -/
theorem isNaN_doubleOf {x : ℚ} (hx : 0 ≤ x) : (doubleOf x).isNaN = false := by
  have hmagnitude := isMagnitude_doubleOf hx
  change (doubleOf x).toModel.unpack.isNaN = false
  generalize (doubleOf x).toModel.unpack = f at hmagnitude
  cases f with
  | notANumber => exact hmagnitude.elim
  | zero s => rfl
  | infinity s => rfl
  | finite s m e hm => rfl

/-- A rational that rounds to a magnitude within the range has the double of that value. -/
theorem hasValue_doubleOf_of_nearest {x : ℚ} {m : ℕ} {e : ℤ} {hm : 0 < m}
    (hx : nearest .positive x = .finite .positive m e hm)
    (hmagnitude : IsMagnitude (.finite .positive m e hm)) :
    HasValue (doubleOf x).toModel.unpack (m * 2 ^ e) := by
  have hunpack : (doubleOf x).toModel.unpack = .finite .positive m e hm := by
    change (pack (nearest .positive x)).unpack = _
    rw [hx, hmagnitude.unpack_pack]
  rw [hunpack]
  exact .finite m e hm

/-- A natural number of at most 53 bits, with zeros at its end, is a double. -/
theorem hasValue_doubleOf {n k : ℕ} (hn : n < 2 ^ 53) (hk : k ≤ 971) :
    HasValue (doubleOf (n * 2 ^ k)).toModel.unpack (n * 2 ^ k) := by
  rcases Nat.eq_zero_or_pos n with rfl | hpos
  · have hzero : ((0 : ℕ) * 2 ^ k : ℚ) = 0 := by simp
    have hunpack : (doubleOf 0).toModel.unpack = .zero .positive := by
      change (pack (nearest .positive 0)).unpack = _
      rw [nearest_zero, unpack_pack_zero]
    rw [hzero, hunpack]
    exact .zero
  · obtain ⟨hlower, hupper⟩ := mul_spare_bounds hpos hn
    have hspare : spare n ≤ 52 := Nat.sub_le _ _
    have hm : 0 < n * 2 ^ spare n := Nat.mul_pos hpos (Nat.two_pow_pos _)
    have hvalue : (n * 2 ^ k : ℚ) = (n * 2 ^ spare n : ℕ) * 2 ^ ((k : ℤ) - spare n) := by
      rw [zpow_sub₀ two_ne_zero, zpow_natCast, zpow_natCast]
      push_cast
      field_simp
    rw [hvalue]
    exact hasValue_doubleOf_of_nearest
      (nearest_of_finite .positive hm (by omega) hupper (.inl hlower))
      ⟨rfl, by omega, by omega, hupper, .inl hlower⟩

/-- Scaling a large number by a power of two scales its nearest double. -/
theorem nearest_mul_two_pow {n : ℕ} (hn : 2 ^ 53 ≤ n) :
    ∃ (m : ℕ) (e : ℤ) (hm : 0 < m), 2 ^ 52 ≤ m ∧ m < 2 ^ 53 ∧ 1 ≤ e ∧
      ∀ k : ℕ, nearest .positive (n * 2 ^ k) = .finite .positive m (e + k) hm := by
  have hpos : 0 < n := Nat.lt_of_lt_of_le (by decide) hn
  have hlog : 53 ≤ n.log2 := (Nat.le_log2 hpos.ne').2 hn
  have hscaled (k : ℕ) : (n * 2 ^ k : ℚ) / 2 ^ (k : ℤ) = n := by
    rw [zpow_natCast]
    exact mul_div_cancel_right₀ _ (by positivity)
  -- scaling by a power of two moves the grid and nothing else
  have hexact (k : ℕ) : grid (n * 2 ^ k) = n.log2 - 52 + k := by
    rw [← target_eq_grid hpos (hscaled k).ge (by rw [hscaled]; linarith), target_eq]
    omega
  have hone : grid n = n.log2 - 52 := by
    have hzero := hexact 0
    rwa [pow_zero, mul_one, Int.natCast_zero, Int.add_zero] at hzero
  have hgrid (k : ℕ) : grid (n * 2 ^ k) = grid n + k := by rw [hexact, hone]
  have hlarge : 1 ≤ grid n := by omega
  have hnearest (k : ℕ) : nearest .positive (n * 2 ^ k) =
      carry .positive (nearestEven (n / 2 ^ grid n)) (grid n + k) := by
    have hunit : (n * 2 ^ k : ℚ) / 2 ^ (grid n + k) = n / 2 ^ grid n := by
      rw [zpow_add₀ two_ne_zero, zpow_natCast, mul_div_mul_right _ _ (by positivity)]
    rw [nearest, hgrid, hunit]
  obtain ⟨hupper, hlower⟩ := nearestEven_grid_bounds (x := n) (Nat.cast_nonneg n)
  replace hlower := hlower.resolve_right (by omega)
  generalize nearestEven ((n : ℚ) / 2 ^ grid n) = q at hnearest hupper hlower
  rcases hupper.lt_or_eq with hlt | rfl
  · have hq : 0 < q := by omega
    have hqlog : q.log2 = 52 := (Nat.log2_eq_iff hq.ne').2 ⟨hlower, hlt⟩
    refine ⟨q, grid n, hq, hlower, hlt, hlarge, fun k => ?_⟩
    rw [hnearest, carry_of_target_eq .positive hq]
    rw [target_eq, hqlog]
    omega
  · refine ⟨2 ^ 52, grid n + 1, by decide, le_rfl, by decide, by omega, fun k => ?_⟩
    rw [hnearest, carry_two_pow .positive (by omega)]
    congr 1
    ring

/-- Less than half a unit is dropped. -/
theorem nearest_add_small {m : ℕ} {e : ℤ} (hm : 0 < m) (hlower : 2 ^ 52 ≤ m) (hupper : m < 2 ^ 53)
    (he : -1074 ≤ e) {δ : ℚ} (hδ : 0 ≤ δ) (hδ' : δ / 2 ^ e < 1 / 2) :
    nearest .positive (m * 2 ^ e + δ) = .finite .positive m e hm := by
  have hscaled : (m * 2 ^ e + δ : ℚ) / 2 ^ e = m + δ / 2 ^ e := by
    rw [add_div, mul_div_cancel_right₀ _ (by positivity)]
  have hnonneg : 0 ≤ δ / 2 ^ e := by positivity
  have hlog : m.log2 = 52 := (Nat.log2_eq_iff hm.ne').2 ⟨hlower, hupper⟩
  have htarget : target m e = e := by
    rw [target_eq, hlog]
    omega
  have hgrid : grid (m * 2 ^ e + δ) = e := by
    rw [← target_eq_grid hm (by rw [hscaled]; linarith) (by rw [hscaled]; linarith), htarget]
  rw [nearest, hgrid, hscaled, nearestEven_add m hnonneg (hδ'.trans (by norm_num)), if_pos hδ']
  exact carry_of_target_eq .positive hm htarget

/-! ### Infinity -/

/-- A rational that rounds beyond the range has infinity as its double. -/
theorem doubleOf_of_large {x : ℚ} {m : ℕ} {e : ℤ} {hm : 0 < m}
    (hx : nearest .positive x = .finite .positive m e hm) (he : 971 < e) :
    doubleOf x = infinity := by
  rw [doubleOf, hx, pack_of_large .positive hm he]
  rfl

/-- Infinity stays infinite under a positive factor. -/
theorem infinity_mul {a : Float} {x : ℚ} (ha : HasValue a.toModel.unpack x) (hx : 0 < x) :
    infinity * a = infinity := by
  change Float.ofModel
    (pack (UnpackedFloat.mul .binary64 (.infinity .positive) a.toModel.unpack)) = _
  generalize a.toModel.unpack = f at ha
  cases ha with
  | zero => exact absurd hx (lt_irrefl _)
  | finite m e hm => rfl

/-- Infinity stays infinite under any finite summand. -/
theorem infinity_add {a : Float} {x : ℚ} (ha : HasValue a.toModel.unpack x) :
    infinity + a = infinity := by
  change Float.ofModel
    (pack (UnpackedFloat.add .binary64 (.infinity .positive) a.toModel.unpack)) = _
  generalize a.toModel.unpack = f at ha
  cases ha with
  | zero => rfl
  | finite m e hm => rfl

/-! ### A digit more -/

variable {b n d : ℕ}

/-- Every natural number below `2 ^ 53` is a double. -/
theorem hasValue_doubleOf_natCast (hn : n < 2 ^ 53) : HasValue (doubleOf n).toModel.unpack n := by
  have hexact := hasValue_doubleOf hn (Nat.zero_le 971)
  rwa [pow_zero, mul_one] at hexact

/-- Scaling the nearest double of a large number rounds nothing away. -/
theorem doubleOf_mul_two_pow (hn : 2 ^ 53 ≤ n) (hb : b < 53) :
    doubleOf n * doubleOf (2 ^ b : ℕ) = doubleOf (n * 2 ^ b) := by
  obtain ⟨m, e, hm, hlower, hupper, he, hnearest⟩ := nearest_mul_two_pow hn
  have hone := hnearest 0
  rw [pow_zero, mul_one, Int.natCast_zero, Int.add_zero] at hone
  have hpower := hasValue_doubleOf_natCast (Nat.pow_lt_pow_right Nat.one_lt_two hb)
  by_cases hrange : e ≤ 971
  · have hvalue := hasValue_doubleOf_of_nearest hone ⟨rfl, by omega, hrange, hupper, .inl hlower⟩
    have hproduct : (m * 2 ^ e * (2 ^ b : ℕ) : ℚ) = m * 2 ^ (e + b) := by
      rw [zpow_add₀ two_ne_zero, zpow_natCast]
      push_cast
      ring
    rw [mul_eq_doubleOf hvalue hpower, hproduct, doubleOf, doubleOf, hnearest,
      nearest_of_finite .positive hm (by omega) hupper (.inl hlower)]
  · rw [doubleOf_of_large hone (by omega), doubleOf_of_large (hnearest b) (by omega)]
    exact infinity_mul hpower (by positivity)

/-- The scaled double absorbs the next digit. -/
theorem doubleOf_add_digit (hn : 2 ^ 53 ≤ n) (hb : b < 53) (hd : d < 2 ^ b) :
    doubleOf (n * 2 ^ b) + doubleOf d = doubleOf (n * 2 ^ b) := by
  obtain ⟨m, e, hm, hlower, hupper, he, hnearest⟩ := nearest_mul_two_pow hn
  have hdigit := hasValue_doubleOf_natCast (hd.trans (Nat.pow_lt_pow_right Nat.one_lt_two hb))
  by_cases hrange : e + b ≤ 971
  · have hvalue := hasValue_doubleOf_of_nearest (hnearest b)
      ⟨rfl, by omega, hrange, hupper, .inl hlower⟩
    have hdropped : (d / 2 ^ (e + b) : ℚ) < 1 / 2 := by
      have hlt : (d : ℚ) < 2 ^ b := by exact_mod_cast hd
      have htwo : (2 : ℚ) ^ (1 : ℤ) ≤ 2 ^ e := zpow_le_zpow_right₀ one_le_two he
      rw [zpow_one] at htwo
      rw [div_lt_div_iff₀ (by positivity) two_pos, one_mul, zpow_add₀ two_ne_zero, zpow_natCast,
        mul_comm]
      exact mul_lt_mul' htwo hlt (by positivity) (by positivity)
    rw [add_eq_doubleOf hvalue hdigit, doubleOf, doubleOf, hnearest,
      nearest_add_small hm hlower hupper (by omega) (Nat.cast_nonneg d) hdropped]
  · rw [doubleOf_of_large (hnearest b) (by omega)]
    exact infinity_add hdigit

/-! ### Adding up digits -/

/-- The number that digits denote, the first one with the greatest weight. -/
def valueOf (radix : ℕ) (digits : List ℕ) : ℕ :=
  Nat.ofDigits radix digits.reverse

/-- The next digit counts as long as the digits before it are below `2 ^ 53`. -/
def keepDigit (radix n d : ℕ) : ℕ :=
  if n < 2 ^ 53 then n * radix + d else n * radix

/-- The number with zeros in place of the digits that do not count. -/
def kept (radix : ℕ) (digits : List ℕ) : ℕ :=
  digits.foldl (keepDigit radix) 0

/-- A step of the sum in doubles. -/
theorem doubleOf_keepDigit (hb : b < 53) (hd : d < 2 ^ b) :
    doubleOf n * floatOfInt (2 ^ b : ℕ) + floatOfInt d = doubleOf (keepDigit (2 ^ b) n d) := by
  rw [floatOfInt_natCast, floatOfInt_natCast, keepDigit]
  split
  · next hn =>
    have hpower := Nat.pow_lt_pow_right Nat.one_lt_two hb
    have hdigit := hasValue_doubleOf_natCast (hd.trans hpower)
    rw [mul_eq_doubleOf (hasValue_doubleOf_natCast hn) (hasValue_doubleOf_natCast hpower)]
    push_cast
    exact add_eq_doubleOf (hasValue_doubleOf hn (by omega)) hdigit
  · next hn =>
    rw [doubleOf_mul_two_pow (Nat.not_lt.1 hn) hb, doubleOf_add_digit (Nat.not_lt.1 hn) hb hd]
    push_cast
    rfl

/-- The sum in doubles. -/
theorem foldl_eq_doubleOf (hb : b < 53) {digits : List ℕ} (hdigits : ∀ d ∈ digits, d < 2 ^ b)
    (n : ℕ) :
    digits.foldl (fun (sum : Float) (d : ℕ) => sum * floatOfInt (2 ^ b : ℕ) + floatOfInt d)
      (doubleOf n) = doubleOf (digits.foldl (keepDigit (2 ^ b)) n : ℕ) := by
  induction digits generalizing n with
  | nil => rfl
  | cons d digits ih =>
    obtain ⟨hd, hdigits⟩ := List.forall_mem_cons.1 hdigits
    rw [List.foldl_cons, doubleOf_keepDigit hb hd, ih hdigits, List.foldl_cons]

/-! ### The digits that count -/

/-- The value of two runs of digits, the first shifted past the second. -/
theorem valueOf_append (radix : ℕ) (before after : List ℕ) :
    valueOf radix (before ++ after) =
      valueOf radix before * radix ^ after.length + valueOf radix after := by
  rw [valueOf, List.reverse_append, Nat.ofDigits_append, List.length_reverse, Nat.add_comm,
    Nat.mul_comm]
  rfl

/-- One digit more multiplies by the radix and adds the digit. -/
theorem valueOf_concat (radix : ℕ) (digits : List ℕ) (d : ℕ) :
    valueOf radix (digits ++ [d]) = valueOf radix digits * radix + d := by
  rw [valueOf_append]
  simp [valueOf]

/-- Keeping one digit more is the rounding step of the loop. -/
theorem kept_concat (radix : ℕ) (digits : List ℕ) (d : ℕ) :
    kept radix (digits ++ [d]) = keepDigit radix (kept radix digits) d := by
  rw [kept, List.foldl_append]
  rfl

/-- Dropping the last digit does not raise the value. -/
theorem valueOf_dropLast_le {radix : ℕ} (hradix : 0 < radix) (digits : List ℕ) :
    valueOf radix digits.dropLast ≤ valueOf radix digits := by
  rcases digits.eq_nil_or_concat with rfl | ⟨digits, d, rfl⟩
  · rfl
  · rw [List.concat_eq_append, List.dropLast_concat, valueOf_concat]
    exact (Nat.le_mul_of_pos_right _ hradix).trans (Nat.le_add_right _ _)

/-- The digits up to the first `2 ^ 53` count. -/
theorem kept_eq_valueOf {radix : ℕ} (hradix : 0 < radix) {digits : List ℕ}
    (h : valueOf radix digits.dropLast < 2 ^ 53) : kept radix digits = valueOf radix digits := by
  induction digits using List.reverseRecOn with
  | nil => rfl
  | append_singleton digits d ih =>
    rw [List.dropLast_concat] at h
    rw [kept_concat, ih ((valueOf_dropLast_le hradix digits).trans_lt h), keepDigit, if_pos h,
      valueOf_concat]

/-- The digits after that only scale the number. -/
theorem kept_append {radix : ℕ} (hradix : 0 < radix) {before : List ℕ} (after : List ℕ)
    (h : valueOf radix before.dropLast < 2 ^ 53) (h' : 2 ^ 53 ≤ valueOf radix before) :
    kept radix (before ++ after) = valueOf radix before * radix ^ after.length := by
  induction after using List.reverseRecOn with
  | nil => rw [List.append_nil, kept_eq_valueOf hradix h, List.length_nil, pow_zero, mul_one]
  | append_singleton after d ih =>
    have hlarge : ¬valueOf radix before * radix ^ after.length < 2 ^ 53 :=
      Nat.not_lt.2 (h'.trans (Nat.le_mul_of_pos_right _ (Nat.pow_pos hradix)))
    rw [← List.append_assoc, kept_concat, ih, keepDigit, if_neg hlarge, List.length_append,
      List.length_singleton, pow_succ, mul_assoc]

/-- Either all digits count, or they can be split after the first `2 ^ 53`. -/
theorem exists_split (radix : ℕ) (digits : List ℕ) : valueOf radix digits.dropLast < 2 ^ 53 ∨
    ∃ before after, digits = before ++ after ∧ valueOf radix before.dropLast < 2 ^ 53 ∧
      2 ^ 53 ≤ valueOf radix before := by
  induction digits using List.reverseRecOn with
  | nil => exact .inl (by simp [valueOf])
  | append_singleton digits d ih =>
    rw [List.dropLast_concat]
    by_cases hsmall : valueOf radix digits < 2 ^ 53
    · exact .inl hsmall
    · rcases ih with h | ⟨before, after, rfl, h, h'⟩
      · exact .inr ⟨digits, [d], rfl, h, Nat.not_lt.1 hsmall⟩
      · exact .inr ⟨before, after ++ [d], List.append_assoc .., h, h'⟩

/-! ### The difference between the kept digits and all of them -/

/-- Half way between two neighbouring doubles, the even one below. -/
def IsEvenTie (n : ℕ) : Prop :=
  ∃ q k, q % 2 = 0 ∧ 2 ^ 52 ≤ q ∧ q < 2 ^ 53 ∧ n = (2 * q + 1) * 2 ^ k

/-- The place of the nearest double of a number with 53 bits `q` above `w + 1` others. -/
theorem rank_doubleOf_bits {q w r : ℕ} (hlower : 2 ^ 52 ≤ q) (hupper : q < 2 ^ 53)
    (hr : r < 2 ^ (w + 1)) : rank (doubleOf (q * 2 ^ (w + 1) + r : ℕ)).toModel.unpack =
      min ((w + 1 + 1074 : ℤ) * 2 ^ 52 +
        (if r < 2 ^ w then q else if 2 ^ w < r then q + 1 else q + q % 2 : ℕ)) (2047 * 2 ^ 52) := by
  have hq : 0 < q := by omega
  have hlog : q.log2 = 52 := (Nat.log2_eq_iff hq.ne').2 ⟨hlower, hupper⟩
  have hone : (r / 2 ^ (w + 1) : ℚ) < 1 := by
    rw [div_lt_one (by positivity)]
    exact_mod_cast hr
  have hscaled : ((q * 2 ^ (w + 1) + r : ℕ) : ℚ) / 2 ^ ((w + 1 : ℕ) : ℤ) = q + r / 2 ^ (w + 1) := by
    rw [zpow_natCast]
    push_cast
    rw [add_div, mul_div_cancel_right₀ _ (by positivity)]
  have hnonneg : (0 : ℚ) ≤ r / 2 ^ (w + 1) := by positivity
  have hgrid : grid (q * 2 ^ (w + 1) + r : ℕ) = (w + 1 : ℕ) := by
    rw [← target_eq_grid hq (by rw [hscaled]; linarith) (by rw [hscaled]; linarith), target_eq,
      hlog]
    omega
  have hlt : (r / 2 ^ (w + 1) : ℚ) < 1 / 2 ↔ r < 2 ^ w := by
    rw [pow_succ, div_lt_div_iff₀ (by positivity) two_pos, one_mul, mul_lt_mul_iff_left₀ two_pos]
    exact_mod_cast Iff.rfl
  have hgt : 1 / 2 < (r / 2 ^ (w + 1) : ℚ) ↔ 2 ^ w < r := by
    rw [pow_succ, div_lt_div_iff₀ two_pos (by positivity), one_mul, mul_lt_mul_iff_left₀ two_pos]
    exact_mod_cast Iff.rfl
  rw [rank_doubleOf (Nat.cast_nonneg _), hgrid, hscaled, nearestEven_add q hnonneg hone]
  simp only [hlt, hgt]
  push_cast
  rfl

/-- Every number of more than 53 bits is such a number. -/
theorem exists_bits {n : ℕ} (hn : 2 ^ 53 ≤ n) :
    ∃ q k r, 2 ^ 52 ≤ q ∧ q < 2 ^ 53 ∧ r < 2 ^ (k + 1) ∧ n = q * 2 ^ (k + 1) + r := by
  have hne : n ≠ 0 := by omega
  obtain ⟨k, hk⟩ : ∃ k, n.log2 = 53 + k := Nat.exists_eq_add_of_le ((Nat.le_log2 hne).2 hn)
  obtain ⟨hlower, hupper⟩ := (Nat.log2_eq_iff hne).1 hk
  refine ⟨n / 2 ^ (k + 1), k, n % 2 ^ (k + 1), ?_, ?_, Nat.mod_lt _ (Nat.two_pow_pos _),
    (Nat.div_add_mod' ..).symm⟩
  · rw [Nat.le_div_iff_mul_le (Nat.two_pow_pos _), ← Nat.pow_add]
    exact (Nat.pow_le_pow_right (by decide) (by omega)).trans hlower
  · rw [Nat.div_lt_iff_lt_mul (Nat.two_pow_pos _), ← Nat.pow_add]
    exact hupper.trans_le (Nat.pow_le_pow_right (by decide) (by omega))

/-- More bits at the end count as one bit that tells whether any of them is set. -/
theorem rank_doubleOf_append {q k r j t : ℕ} (hlower : 2 ^ 52 ≤ q) (hupper : q < 2 ^ 53)
    (hr : r < 2 ^ (k + 1)) (ht : t < 2 ^ j) :
    rank (doubleOf ((q * 2 ^ (k + 1) + r) * 2 ^ j + t : ℕ)).toModel.unpack =
      min ((k + j + 1 + 1074 : ℤ) * 2 ^ 52 +
        (if r < 2 ^ k then q else if 2 ^ k < r ∨ 0 < t then q + 1 else q + q % 2 : ℕ))
        (2047 * 2 ^ 52) := by
  have hbound {u : ℕ} (hu : r < u) : r * 2 ^ j + t < u * 2 ^ j := by
    have hle := Nat.mul_le_mul_right (2 ^ j) (Nat.succ_le_of_lt hu)
    rw [Nat.succ_mul] at hle
    omega
  have hrest := hbound hr
  rw [← Nat.pow_add, Nat.add_right_comm] at hrest
  -- digits behind the half-way place only decide on which side of the tie the rest lies
  have hlt : r * 2 ^ j + t < 2 ^ (k + j) ↔ r < 2 ^ k := by
    rw [Nat.pow_add]
    refine ⟨fun h => ?_, hbound⟩
    exact Nat.lt_of_mul_lt_mul_right ((Nat.le_add_right _ t).trans_lt h)
  have hgt (hge : ¬r < 2 ^ k) : 2 ^ (k + j) < r * 2 ^ j + t ↔ 2 ^ k < r ∨ 0 < t := by
    rw [Nat.pow_add]
    rcases (Nat.not_lt.1 hge).lt_or_eq with h | h
    · refine iff_of_true (Nat.lt_add_right t ?_) (.inl h)
      exact Nat.mul_lt_mul_of_pos_right h (Nat.two_pow_pos j)
    · rw [h]
      omega
  have hsplit : (q * 2 ^ (k + 1) + r) * 2 ^ j + t = q * 2 ^ (k + j + 1) + (r * 2 ^ j + t) := by ring
  rw [hsplit, rank_doubleOf_bits hlower hupper hrest]
  by_cases h : r < 2 ^ k
  · rw [if_pos (hlt.2 h), if_pos h]
    push_cast
    rfl
  · simp only [if_neg (mt hlt.1 h), if_neg h, hgt h]
    push_cast
    rfl

/-- Such a number is bounded by the number of its bits. -/
theorem le_bits_iff {q w r : ℕ} (hlower : 2 ^ 52 ≤ q) (hupper : q < 2 ^ 53) (hr : r < 2 ^ w)
    (u : ℕ) :
    2 ^ (53 + u) ≤ q * 2 ^ w + r ↔ u < w := by
  constructor
  · intro h
    have hlt : 2 ^ (53 + u) < 2 ^ (53 + w) := by
      calc 2 ^ (53 + u) ≤ q * 2 ^ w + r := h
        _ < (q + 1) * 2 ^ w := by
            rw [Nat.succ_mul]
            exact Nat.add_lt_add_left hr _
        _ ≤ 2 ^ 53 * 2 ^ w := Nat.mul_le_mul_right _ hupper
        _ = 2 ^ (53 + w) := (Nat.pow_add ..).symm
    exact Nat.lt_of_add_lt_add_left ((Nat.pow_lt_pow_iff_right Nat.one_lt_two).1 hlt)
  · intro h
    calc 2 ^ (53 + u) ≤ 2 ^ (52 + w) := Nat.pow_le_pow_right two_pos (by omega)
      _ = 2 ^ 52 * 2 ^ w := Nat.pow_add ..
      _ ≤ q * 2 ^ w := Nat.mul_le_mul_right _ hlower
      _ ≤ q * 2 ^ w + r := Nat.le_add_right ..

/-- At a tie any further bit counts, as long as the number is in range. -/
theorem rank_doubleOf_tie_eq_iff {q k j t : ℕ} (hlower : 2 ^ 52 ≤ q) (hupper : q < 2 ^ 53)
    (heven : q % 2 = 0) (hpos : 0 < t) (ht : t < 2 ^ j) :
    rank (doubleOf ((q * 2 ^ (k + 1) + 2 ^ k) * 2 ^ j : ℕ)).toModel.unpack =
      rank (doubleOf ((q * 2 ^ (k + 1) + 2 ^ k) * 2 ^ j + t : ℕ)).toModel.unpack ↔
      2 ^ 1024 ≤ (q * 2 ^ (k + 1) + 2 ^ k) * 2 ^ j + t := by
  have hone : 2 ^ k < 2 ^ (k + 1) := Nat.pow_lt_pow_right Nat.one_lt_two (Nat.lt_succ_self k)
  have hkept := rank_doubleOf_append (t := 0) hlower hupper hone (Nat.two_pow_pos j)
  have hall := rank_doubleOf_append hlower hupper hone ht
  have hsplit : (q * 2 ^ (k + 1) + 2 ^ k) * 2 ^ j + t =
      q * 2 ^ (k + j + 1) + (2 ^ k * 2 ^ j + t) := by ring
  have hrest : 2 ^ k * 2 ^ j + t < 2 ^ (k + j + 1) := by
    rw [Nat.pow_succ, Nat.mul_two, Nat.pow_add]
    have hle := Nat.mul_le_mul_right (2 ^ j) (Nat.one_le_two_pow (n := k))
    omega
  rw [Nat.add_zero, if_neg (Nat.lt_irrefl _), if_neg (by omega), heven] at hkept
  rw [if_neg (Nat.lt_irrefl _), if_pos (.inr hpos)] at hall
  have hrange : 1024 = 53 + 971 := rfl
  rw [hkept, hall, hsplit, hrange, le_bits_iff hlower hupper hrest]
  omega

/-- Further bits move a number off a tie, and change nothing else. -/
theorem doubleOf_append_eq_iff {n j t : ℕ} (hn : 2 ^ 53 ≤ n) (ht : t < 2 ^ j) :
    doubleOf (n * 2 ^ j : ℕ) = doubleOf (n * 2 ^ j + t : ℕ) ↔
      ¬(IsEvenTie n ∧ 0 < t ∧ n * 2 ^ j + t < 2 ^ 1024) := by
  rw [eq_iff_rank (isMagnitude_doubleOf (Nat.cast_nonneg _))
    (isMagnitude_doubleOf (Nat.cast_nonneg _))]
  constructor
  · rintro heq ⟨⟨q, k, heven, hlower, hupper, rfl⟩, hpos, hrange⟩
    have hsplit : (2 * q + 1) * 2 ^ k = q * 2 ^ (k + 1) + 2 ^ k := by ring
    rw [hsplit] at heq hrange
    exact hrange.not_ge ((rank_doubleOf_tie_eq_iff hlower hupper heven hpos ht).1 heq)
  · intro hnot
    obtain ⟨q, k, r, hlower, hupper, hr, rfl⟩ := exists_bits hn
    have hkept := rank_doubleOf_append (t := 0) hlower hupper hr (Nat.two_pow_pos j)
    have hall := rank_doubleOf_append hlower hupper hr ht
    rw [Nat.add_zero] at hkept
    rcases Nat.lt_trichotomy r (2 ^ k) with h | rfl | h
    · rw [hkept, hall, if_pos h, if_pos h]
    · rcases Nat.eq_zero_or_pos t with rfl | hpos
      · exact hkept.trans hall.symm
      rcases Nat.mod_two_eq_zero_or_one q with heven | hodd
      · have hsplit : q * 2 ^ (k + 1) + 2 ^ k = (2 * q + 1) * 2 ^ k := by ring
        refine (rank_doubleOf_tie_eq_iff hlower hupper heven hpos ht).2
          (Nat.not_lt.1 fun hrange => hnot ⟨?_, hpos, hrange⟩)
        exact ⟨q, k, heven, hlower, hupper, hsplit⟩
      · rw [hkept, hall, if_neg (Nat.lt_irrefl _), if_neg (by omega), if_neg (Nat.lt_irrefl _),
          if_pos (.inr hpos), hodd]
    · rw [hkept, hall, if_neg h.not_gt, if_neg h.not_gt, if_pos (.inl h), if_pos (.inl h)]

/-- The kept digits end half way between two doubles, the even one below, and a digit that was
dropped is not zero. -/
def LosesTie (radix : ℕ) (digits : List ℕ) : Prop :=
  ∃ before after, digits = before ++ after ∧ valueOf radix before.dropLast < 2 ^ 53 ∧
    IsEvenTie (valueOf radix before) ∧ 0 < valueOf radix after

/-- Ties occur only where the integers are no longer all doubles. -/
theorem IsEvenTie.le {n : ℕ} (h : IsEvenTie n) : 2 ^ 53 ≤ n := by
  obtain ⟨q, k, -, hlower, -, rfl⟩ := h
  exact (by omega : 2 ^ 53 ≤ 2 * q + 1).trans (Nat.le_mul_of_pos_right _ (Nat.two_pow_pos k))

/-- Dropping digits changes the nearest double exactly if a tie is lost in range. -/
theorem doubleOf_kept_eq_iff {b : ℕ} (hb : 0 < b) {digits : List ℕ}
    (hdigits : ∀ d ∈ digits, d < 2 ^ b) :
    doubleOf (kept (2 ^ b) digits) = doubleOf (valueOf (2 ^ b) digits) ↔
      ¬(LosesTie (2 ^ b) digits ∧ valueOf (2 ^ b) digits < 2 ^ 1024) := by
  have hradix : 0 < 2 ^ b := Nat.two_pow_pos b
  have hsplit {before after : List ℕ} (heq : digits = before ++ after)
      (h : valueOf (2 ^ b) before.dropLast < 2 ^ 53) (h' : 2 ^ 53 ≤ valueOf (2 ^ b) before) :
      doubleOf (kept (2 ^ b) digits) = doubleOf (valueOf (2 ^ b) digits) ↔
        ¬(IsEvenTie (valueOf (2 ^ b) before) ∧ 0 < valueOf (2 ^ b) after ∧
          valueOf (2 ^ b) digits < 2 ^ 1024) := by
    have hafter : valueOf (2 ^ b) after < 2 ^ (b * after.length) := by
      rw [pow_mul, ← List.length_reverse]
      refine Nat.ofDigits_lt_base_pow_length (Nat.one_lt_two_pow hb.ne') fun d hd => hdigits d ?_
      rw [heq]
      exact List.mem_append_right _ (List.mem_reverse.1 hd)
    rw [heq, kept_append hradix after h h', valueOf_append, ← pow_mul]
    exact doubleOf_append_eq_iff h' hafter
  constructor
  · rintro heq ⟨⟨before, after, hdigits, h, htie, hpos⟩, hrange⟩
    exact (hsplit hdigits h htie.le).1 heq ⟨htie, hpos, hrange⟩
  · intro hnot
    rcases exists_split (2 ^ b) digits with h | ⟨before, after, heq, h, h'⟩
    · rw [kept_eq_valueOf hradix h]
    · exact (hsplit heq h h').2 fun ⟨htie, hpos, hrange⟩ =>
        hnot ⟨⟨before, after, heq, h, htie, hpos⟩, hrange⟩

/-! ### Texts -/

namespace NumberLiteral

/-- The radix of a marked literal is a power of two with few bits. -/
theorem exists_radixOf? {mark : Char} {radix : ℕ} (h : radixOf? mark = some radix) :
    ∃ b, 0 < b ∧ b < 53 ∧ radix = 2 ^ b := by
  unfold radixOf? at h
  split_ifs at h <;> cases h
  · exact ⟨4, by decide⟩
  · exact ⟨3, by decide⟩
  · exact ⟨1, by decide⟩

/-- A digit is less than its radix. -/
theorem lt_of_digitValue? {radix d : ℕ} {c : Char} (h : digitValue? radix c = some d) : d < radix :=
  of_decide_eq_true (Option.filter_eq_some_iff.1 h).2

/-- Digits are not blanks. -/
theorem isBlank_of_digitValue? {radix d : ℕ} {c : Char} (h : digitValue? radix c = some d) :
    isBlank c = false := by
  have hsome := (Option.filter_eq_some_iff.1 h).1
  have hrange {lower upper : ℕ} (hc : lower ≤ c.toNat ∧ c.toNat ≤ upper) (hlower : 0x20 < lower)
      (hupper : upper < 0xA0) : isBlank c = false := by
    rw [Bool.eq_false_iff]
    intro hblank
    simp only [isBlank, Bool.or_eq_true, Bool.and_eq_true, decide_eq_true_eq, beq_iff_eq] at hblank
    omega
  split_ifs at hsome with hdigit hsmall hlarge
  · exact IsDecimalChar.isBlank_eq_false (.inl hdigit)
  · exact hrange hsmall (by decide) (by decide)
  · exact hrange hlarge (by decide) (by decide)

/-- The values of digits, one by one. -/
theorem mapM_eq_some_iff {radix : ℕ} {text : List Char} {digits : List ℕ} :
    text.mapM (digitValue? radix) = some digits ↔
      text.map (digitValue? radix) = digits.map some := by
  induction text generalizing digits with
  | nil =>
    rw [List.mapM_nil, List.map_nil, Option.pure_def, Option.some_inj, eq_comm, eq_comm (a := []),
      List.map_eq_nil_iff]
  | cons c text ih =>
    simp only [List.mapM_cons, Option.bind_eq_bind, Option.bind_eq_some_iff, ih, Option.pure_def,
      Option.some.injEq, List.map_cons]
    constructor
    · rintro ⟨d, hd, ds, hds, rfl⟩
      rw [hd, hds]
      rfl
    · intro h
      cases digits with
      | nil => nomatch h
      | cons d ds =>
        obtain ⟨hd, hds⟩ := List.cons.inj h
        exact ⟨d, hd, ds, hds, rfl⟩

/-- All digits of a literal are less than its radix. -/
theorem lt_of_mapM {radix : ℕ} {text : List Char} {digits : List ℕ}
    (h : text.mapM (digitValue? radix) = some digits) : ∀ d ∈ digits, d < radix := by
  intro d hd
  have hmem : some d ∈ text.map (digitValue? radix) := by
    rw [mapM_eq_some_iff.1 h]
    exact List.mem_map_of_mem hd
  obtain ⟨c, -, hvalue⟩ := List.mem_map.1 hmem
  exact lt_of_digitValue? hvalue

/-- Every character of a literal that is read has a digit value. -/
theorem exists_of_mem_mapM {radix : ℕ} {text : List Char} {digits : List ℕ}
    (h : text.mapM (digitValue? radix) = some digits) {c : Char} (hc : c ∈ text) :
    ∃ d, digitValue? radix c = some d := by
  have hvalue := List.mem_map_of_mem (f := digitValue? radix) hc
  rw [mapM_eq_some_iff.1 h] at hvalue
  obtain ⟨d, -, hd⟩ := List.mem_map.1 hvalue
  exact ⟨d, hd.symm⟩

/-- The reader of digits adds them up in doubles. -/
theorem readRadix?_eq {radix b : ℕ} (hradix : radix = 2 ^ b) (hb : b < 53) {text : List Char}
    {digits : List ℕ} (hdigits : text.mapM (digitValue? radix) = some digits) (hne : text ≠ []) :
    readRadix? radix text = some (doubleOf (kept radix digits)) := by
  have hsum := foldl_eq_doubleOf hb (hradix ▸ lt_of_mapM hdigits) 0
  have hempty : digits.isEmpty = false := by
    rw [List.isEmpty_eq_false_iff]
    rintro rfl
    exact hne (List.map_eq_nil_iff.1 (mapM_eq_some_iff.1 hdigits))
  have hzero : doubleOf (0 : ℕ) = 0 := by
    rw [← floatOfInt_natCast]
    rfl
  rw [hzero, ← hradix] at hsum
  unfold readRadix?
  rw [hdigits, Option.bind_eq_bind, Option.bind_some, hempty, hsum]
  rfl

end NumberLiteral

open NumberLiteral

/-- A number with a radix mark is read as the double nearest to the kept digits. -/
theorem numberOfText_of_radixOf? {mark : Char} {radix : ℕ} {text : List Char} {digits : List ℕ}
    (hradix : radixOf? mark = some radix) (hdigits : text.mapM (digitValue? radix) = some digits)
    (hne : text ≠ []) :
    numberOfText (String.ofList ('0' :: mark :: text)) = doubleOf (kept radix digits) := by
  obtain ⟨b, -, hb, hpow⟩ := exists_radixOf? hradix
  have hread := read?_eq_some.2 (.inr (.inl ⟨mark, radix, text, rfl, hradix,
    readRadix?_eq hpow hb hdigits hne⟩))
  have hlast : ∀ c ∈ ('0' :: mark :: text).getLast?, isBlank c = false := by
    intro c hc
    have hmem : c ∈ text := by
      rw [List.getLast?_cons_cons, List.getLast?_cons_of_ne_nil hne] at hc
      exact List.mem_of_mem_getLast? hc
    obtain ⟨d, hd⟩ := exists_of_mem_mapM hdigits hmem
    exact isBlank_of_digitValue? hd
  have hhead : ∀ c ∈ ('0' :: mark :: text).head?, isBlank c = false := by
    rintro c ⟨⟩
    rfl
  rw [numberOfText_of_isTrimmed ⟨hhead, hlast⟩, hread]
  rfl

/-- A natural number in decimal is read as the nearest double. -/
theorem numberOfText_toString (n : ℕ) : numberOfText (toString n) = floatOfInt n := by
  have hdecimal : IsDecimal (Nat.toDigits 10 n) ⟨n, 0⟩ := by
    refine ⟨_, [], _, 0, (List.append_nil _).symm, .whole (isDigits_toDigits n), .absent, ?_⟩
    rw [Nat.ofDigitChars_ten_toDigits]
    rfl
  have hread := numberOfText_of_isDecimal .absent hdecimal
  have htext : toString n = String.ofList (Nat.toDigits 10 n) := Nat.repr_eq_ofList_toDigits
  have hvalue : Decimal.value ⟨n, 0⟩ = n := by simp [Decimal.value]
  rw [htext, floatOfInt_natCast, ← hvalue, ← Decimal.toFloat_eq_doubleOf]
  exact hread

/-- A whole number in decimal is read as the nearest double. With a radix mark it is read as the
double nearest to the kept digits, which is the same unless a tie is lost in range. -/
theorem radix_literal_rounding {mark : Char} {radix : ℕ} {text : List Char} {digits : List ℕ}
    (hradix : radixOf? mark = some radix) (hdigits : text.mapM (digitValue? radix) = some digits)
    (hne : text ≠ []) :
    numberOfText (toString (valueOf radix digits)) = floatOfInt (valueOf radix digits) ∧
      numberOfText (String.ofList ('0' :: mark :: text)) = floatOfInt (kept radix digits) ∧
      (numberOfText (String.ofList ('0' :: mark :: text)) = floatOfInt (valueOf radix digits) ↔
        ¬(LosesTie radix digits ∧ valueOf radix digits < 2 ^ 1024)) := by
  obtain ⟨b, hb, -, rfl⟩ := exists_radixOf? hradix
  rw [numberOfText_of_radixOf? hradix hdigits hne, floatOfInt_natCast, floatOfInt_natCast]
  exact ⟨(numberOfText_toString _).trans (floatOfInt_natCast _), rfl,
    doubleOf_kept_eq_iff hb (lt_of_mapM hdigits)⟩

/-- The number `2 ^ 57 + 17` is past the middle between two doubles, but its first digits, whose
value is `2 ^ 53 + 1`, are a tie. -/
theorem radix_literal_rounding_tie :
    radixOf? 'x' = some 16 ∧
      "200000000000011".toList.mapM (digitValue? 16) =
        some [2, 0, 0, 0, 0, 0, 0, 0, 0, 0, 0, 0, 0, 1, 1] ∧
      "200000000000011".toList ≠ [] ∧
      numberOfText (toString 144115188075855889) = floatOfInt 144115188075855889 ∧
      numberOfText "0x200000000000011" = floatOfInt (2 ^ 57) := by
  have hdigits : "200000000000011".toList.mapM (digitValue? 16) =
      some [2, 0, 0, 0, 0, 0, 0, 0, 0, 0, 0, 0, 0, 1, 1] := by decide
  have hne : "200000000000011".toList ≠ [] := by decide
  have hrounding := radix_literal_rounding (show radixOf? 'x' = some 16 from rfl) hdigits hne
  exact ⟨rfl, hdigits, hne, hrounding.1, hrounding.2.1⟩

/-- The same number is read differently with a radix mark and in decimal. -/
theorem radix_literal_rounded_twice :
    numberOfText "0x200000000000011" ≠ floatOfInt 0x200000000000011 ∧
      numberOfText "144115188075855889" = floatOfInt 0x200000000000011 := by
  decide +kernel

end ScriptOps
