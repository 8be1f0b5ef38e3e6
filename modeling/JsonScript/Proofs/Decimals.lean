import JsonScript.Number
import JsonScript.Proofs.Numbers

/-!
The shortest decimal of a double is read back as the double.

The reals that round to a double form an interval around it. Its width is more than the distance of
decimals with seventeen digits, so one of them lies in it, and whatever lies in it is rounded to the
double, in the binade of the double or in the one below.
-/

set_option autoImplicit false
set_option relaxedAutoImplicit false

namespace JsonScript.Number

namespace Ratio

def value (r : Ratio) : ℚ :=
  r.numerator / r.denominator

private def ofPower (base count : Nat) : Int → Ratio
  | .ofNat shift => ⟨count * base ^ shift, 1⟩
  | .negSucc below => ⟨count, base ^ (below + 1)⟩

private theorem value_ofPower (base count : Nat) (exponent : Int) :
    (ofPower base count exponent).value = count * (base : ℚ) ^ exponent := by
  cases exponent with
  | ofNat shift => simp [ofPower, value]
  | negSucc below => simp [ofPower, value, zpow_negSucc, div_eq_mul_inv]

private theorem denominator_ofPower {base : Nat} (positive : 0 < base) (count : Nat)
    (exponent : Int) : 0 < (ofPower base count exponent).denominator := by
  cases exponent with
  | ofNat shift => exact Nat.one_pos
  | negSucc below => exact Nat.pow_pos positive

private theorem ofBinary_eq (count : Nat) (exponent : Int) :
    ofBinary count exponent = ofPower 2 count exponent := by
  cases exponent <;> rfl

private theorem ofDecimal_eq (count : Nat) (exponent : Int) :
    ofDecimal count exponent = ofPower 10 count exponent := by
  cases exponent <;> rfl

theorem value_ofBinary (count : Nat) (exponent : Int) :
    (ofBinary count exponent).value = count * 2 ^ exponent := by
  rw [ofBinary_eq, value_ofPower, Nat.cast_ofNat]

theorem value_ofDecimal (count : Nat) (exponent : Int) :
    (ofDecimal count exponent).value = count * 10 ^ exponent := by
  rw [ofDecimal_eq, value_ofPower, Nat.cast_ofNat]

theorem denominator_ofBinary (count : Nat) (exponent : Int) :
    0 < (ofBinary count exponent).denominator := by
  rw [ofBinary_eq]
  exact denominator_ofPower Nat.two_pos count exponent

theorem denominator_ofDecimal (count : Nat) (exponent : Int) :
    0 < (ofDecimal count exponent).denominator := by
  rw [ofDecimal_eq]
  exact denominator_ofPower (by decide) count exponent

theorem value_scaleDown (base : Nat) (r : Ratio) (exponent : Int) :
    (r.scaleDown base exponent).value = r.value / (base : ℚ) ^ exponent := by
  cases exponent with
  | ofNat shift => simp [scaleDown, value, div_div]
  | negSucc below => simp [scaleDown, value, zpow_negSucc, mul_div_right_comm]

theorem denominator_scaleDown {base : Nat} (positive : 0 < base) {r : Ratio}
    (proper : 0 < r.denominator) (exponent : Int) :
    0 < (r.scaleDown base exponent).denominator := by
  cases exponent with
  | ofNat shift => exact Nat.mul_pos proper (Nat.pow_pos positive)
  | negSucc below => exact proper

theorem lt_iff {r s : Ratio} (proper : 0 < r.denominator) (proper' : 0 < s.denominator) :
    r.lt s = true ↔ r.value < s.value := by
  have first : (0 : ℚ) < r.denominator := by exact_mod_cast proper
  have second : (0 : ℚ) < s.denominator := by exact_mod_cast proper'
  rw [lt, decide_eq_true_iff, value, value, div_lt_div_iff₀ first second]
  exact_mod_cast Iff.rfl

theorem floor_bounds {r : Ratio} (proper : 0 < r.denominator) :
    ((r.numerator / r.denominator : Nat) : ℚ) ≤ r.value ∧
      r.value < (r.numerator / r.denominator : Nat) + 1 := by
  have scale : (0 : ℚ) < r.denominator := by exact_mod_cast proper
  unfold value
  rw [le_div_iff₀ scale, div_lt_iff₀ scale]
  have least := Nat.div_mul_le_self r.numerator r.denominator
  have greatest := Nat.lt_mul_div_succ r.numerator proper
  rw [Nat.mul_comm] at greatest
  exact ⟨by exact_mod_cast least, by exact_mod_cast greatest⟩

private def magnitudeBy (size : Nat → Nat) (r : Ratio) : Int :=
  if r.denominator ≤ r.numerator then size (r.numerator / r.denominator)
  else -(size ((r.denominator + r.numerator - 1) / r.numerator - 1) + 1 : Int)

private theorem reciprocal_bounds {numerator denominator : Nat} (positive : 0 < numerator)
    (small : numerator < denominator) :
    let m := (denominator + numerator - 1) / numerator - 1
    0 < m ∧ m * numerator < denominator ∧ denominator ≤ (m + 1) * numerator := by
  intro m
  have twice : 2 ≤ (denominator + numerator - 1) / numerator := by
    rw [Nat.le_div_iff_mul_le positive]
    omega
  have next : m + 1 = (denominator + numerator - 1) / numerator := by omega
  have least : (m + 1) * numerator ≤ denominator + numerator - 1 := by
    rw [next]
    exact Nat.div_mul_le_self _ _
  have greatest : denominator + numerator - 1 < (m + 1 + 1) * numerator := by
    rw [next, Nat.mul_comm]
    exact Nat.lt_mul_div_succ _ positive
  rw [Nat.succ_mul] at least greatest
  exact ⟨by omega, by omega, by omega⟩

private theorem magnitudeBy_bounds {base : Nat} (proper : 1 < base) {size : Nat → Nat}
    (sized : ∀ n, 0 < n → base ^ size n ≤ n ∧ n < base ^ (size n + 1)) {r : Ratio}
    (positive : 0 < r.numerator) (proper' : 0 < r.denominator) :
    (base : ℚ) ^ magnitudeBy size r ≤ r.value ∧
      r.value < (base : ℚ) ^ (magnitudeBy size r + 1) := by
  have scale : (0 : ℚ) < base := by exact_mod_cast Nat.lt_trans Nat.one_pos proper
  have below : (0 : ℚ) < r.denominator := by exact_mod_cast proper'
  have above : (0 : ℚ) < r.numerator := by exact_mod_cast positive
  unfold magnitudeBy value
  split
  · rename_i large
    obtain ⟨least, greatest⟩ := sized _ (Nat.div_pos large proper')
    generalize size (r.numerator / r.denominator) = e at least greatest ⊢
    rw [Nat.le_div_iff_mul_le proper'] at least
    rw [Nat.div_lt_iff_lt_mul proper'] at greatest
    constructor
    · rw [le_div_iff₀ below, zpow_natCast]
      exact_mod_cast least
    · rw [div_lt_iff₀ below]
      exact_mod_cast greatest
  · rename_i small
    -- The reciprocal is above a natural number and at most the next one.
    obtain ⟨some, least, greatest⟩ := reciprocal_bounds positive (Nat.lt_of_not_le small)
    generalize (r.denominator + r.numerator - 1) / r.numerator - 1 = m at some least greatest ⊢
    obtain ⟨below', above'⟩ := sized m some
    generalize size m = e at below' above' ⊢
    have lower : r.denominator ≤ r.numerator * base ^ (e + 1) :=
      greatest.trans ((Nat.mul_comm _ _).le.trans (Nat.mul_le_mul_left _ above'))
    have upper : r.numerator * base ^ e < r.denominator :=
      (Nat.mul_le_mul_left _ below').trans_lt ((Nat.mul_comm _ _).trans_lt least)
    have next : -((e : Int) + 1) + 1 = -(e : Int) := by omega
    have power : ((e : Int) + 1) = ((e + 1 : Nat) : Int) := by omega
    rw [next, zpow_neg, zpow_neg, power, zpow_natCast, zpow_natCast]
    constructor
    · rw [le_div_iff₀ below, inv_mul_le_iff₀ (by positivity), mul_comm]
      exact_mod_cast lower
    · rw [div_lt_iff₀ below, lt_inv_mul_iff₀ (by positivity), mul_comm]
      exact_mod_cast upper

private theorem length_toDigits (n : Nat) (positive : 0 < n) :
    10 ^ ((Nat.toDigits 10 n).length - 1) ≤ n ∧
      n < 10 ^ ((Nat.toDigits 10 n).length - 1 + 1) := by
  have some : 0 < (Nat.toDigits 10 n).length := Nat.length_toDigits_pos
  rw [Nat.sub_add_cancel some]
  refine ⟨?_, (Nat.length_toDigits_le_iff (by decide) some).mp (Nat.le_refl _)⟩
  by_contra short
  rcases Nat.eq_or_lt_of_le some with one | more
  · rw [← one, Nat.sub_self, Nat.pow_zero] at short
    omega
  · have fewer : (Nat.toDigits 10 n).length ≤ (Nat.toDigits 10 n).length - 1 :=
      (Nat.length_toDigits_le_iff (by decide) (by omega)).mpr (Nat.lt_of_not_le short)
    omega

theorem decimalMagnitude_bounds {r : Ratio} (positive : 0 < r.numerator)
    (proper : 0 < r.denominator) :
    (10 : ℚ) ^ r.decimalMagnitude ≤ r.value ∧ r.value < (10 : ℚ) ^ (r.decimalMagnitude + 1) := by
  have same : r.decimalMagnitude = magnitudeBy (fun n => (Nat.toDigits 10 n).length - 1) r := by
    have some (n : Nat) : 0 < (Nat.toDigits 10 n).length := Nat.length_toDigits_pos
    change (if r.denominator ≤ r.numerator then
      ((Nat.toDigits 10 (r.numerator / r.denominator)).length : Int) - 1
      else
        -((Nat.toDigits 10 ((r.denominator + r.numerator - 1) / r.numerator - 1)).length : Int)) = _
    unfold magnitudeBy
    dsimp only
    split
    · have := some (r.numerator / r.denominator)
      omega
    · have := some ((r.denominator + r.numerator - 1) / r.numerator - 1)
      omega
  rw [same]
  have bounds := magnitudeBy_bounds (by decide) length_toDigits positive proper
  rwa [Nat.cast_ofNat] at bounds

theorem binaryMagnitude_bounds {r : Ratio} (positive : 0 < r.numerator)
    (proper : 0 < r.denominator) :
    (2 : ℚ) ^ r.binaryMagnitude ≤ r.value ∧ r.value < (2 : ℚ) ^ (r.binaryMagnitude + 1) := by
  have sized (n : Nat) (positive : 0 < n) : 2 ^ n.log2 ≤ n ∧ n < 2 ^ (n.log2 + 1) :=
    ⟨Nat.log2_self_le positive.ne', Nat.lt_log2_self⟩
  have bounds := magnitudeBy_bounds (by decide) sized positive proper
  rwa [Nat.cast_ofNat] at bounds

private theorem round_eq_of_nat {r : Ratio} (proper : 0 < r.denominator) {n : Nat}
    (lower : 2 * n * r.denominator ≤ 2 * r.numerator + r.denominator)
    (upper : 2 * r.numerator ≤ (2 * n + 1) * r.denominator)
    (tie : n % 2 = 0 ∨ (2 * n * r.denominator < 2 * r.numerator + r.denominator ∧
      2 * r.numerator < (2 * n + 1) * r.denominator)) : r.round = n := by
  have parts := Nat.div_add_mod r.numerator r.denominator
  have rest := Nat.mod_lt r.numerator proper
  unfold round
  dsimp only
  generalize r.numerator / r.denominator = below at parts ⊢
  generalize r.numerator % r.denominator = remainder at parts rest ⊢
  rw [← parts] at lower upper tie
  clear parts
  generalize r.denominator = d at *
  -- Only the natural numbers next to the ratio are near enough.
  have near : n = below ∨ n = below + 1 := by
    by_contra far
    rcases (by omega : n + 1 ≤ below ∨ below + 2 ≤ n) with less | more
    · have product := Nat.mul_le_mul_left d less
      linarith
    · have product := Nat.mul_le_mul_left d more
      linarith
  rcases near with rfl | rfl
  · have even : 2 * remainder < d ∨ (2 * remainder = d ∧ n % 2 = 0) := by
      have most : 2 * remainder ≤ d := by linarith
      rcases Nat.lt_or_eq_of_le most with less | half
      · exact .inl less
      · exact .inr ⟨half, tie.resolve_right fun strict => by linarith [strict.2]⟩
    rcases even with less | ⟨half, even⟩
    · rw [if_pos less]
    · rw [if_neg (by omega), if_neg (by omega)]
      omega
  · have odd : d < 2 * remainder ∨ (d = 2 * remainder ∧ (below + 1) % 2 = 0) := by
      have least : d ≤ 2 * remainder := by linarith
      rcases Nat.lt_or_eq_of_le least with more | half
      · exact .inl more
      · exact .inr ⟨half, tie.resolve_right fun strict => by linarith [strict.1]⟩
    rcases odd with more | ⟨half, even⟩
    · rw [if_neg (by omega), if_pos more]
    · rw [if_neg (by omega), if_neg (by omega)]
      omega

theorem round_eq {r : Ratio} (proper : 0 < r.denominator) {n : Nat}
    (lower : (n : ℚ) - 1 / 2 ≤ r.value) (upper : r.value ≤ n + 1 / 2)
    (tie : n % 2 = 0 ∨ ((n : ℚ) - 1 / 2 < r.value ∧ r.value < n + 1 / 2)) : r.round = n := by
  have scale : (0 : ℚ) < r.denominator := by exact_mod_cast proper
  unfold value at lower upper tie
  rw [le_div_iff₀ scale] at lower
  rw [div_le_iff₀ scale] at upper
  rw [lt_div_iff₀ scale, div_lt_iff₀ scale] at tie
  refine round_eq_of_nat proper ?_ ?_ (tie.imp id fun ⟨above, below⟩ => ⟨?_, ?_⟩)
  · have cast : (2 * n * r.denominator : ℚ) ≤ 2 * r.numerator + r.denominator := by linarith
    exact_mod_cast cast
  · have cast : (2 * r.numerator : ℚ) ≤ (2 * n + 1) * r.denominator := by linarith
    exact_mod_cast cast
  · have cast : (2 * n * r.denominator : ℚ) < 2 * r.numerator + r.denominator := by linarith
    exact_mod_cast cast
  · have cast : (2 * r.numerator : ℚ) < (2 * n + 1) * r.denominator := by linarith
    exact_mod_cast cast

end Ratio

theorem RoundingInterval.holds_iff {i : RoundingInterval} (lower : 0 < i.lower.denominator)
    (upper : 0 < i.upper.denominator) {candidate : Ratio} (proper : 0 < candidate.denominator) :
    i.holds candidate = true ↔
      (i.lower.value ≤ candidate.value ∧ candidate.value ≤ i.upper.value) ∧
        (i.closed = true ∨ i.lower.value < candidate.value ∧ candidate.value < i.upper.value) := by
  have under := Ratio.lt_iff proper lower
  have above := Ratio.lt_iff upper proper
  unfold holds
  cases i.closed with
  | true =>
    rw [if_pos rfl, Bool.and_eq_true, Bool.not_eq_true', Bool.not_eq_true', ← Bool.not_eq_true,
      ← Bool.not_eq_true, under, above, not_lt, not_lt]
    simp
  | false =>
    rw [if_neg (by decide), Bool.and_eq_true, Ratio.lt_iff lower proper, Ratio.lt_iff proper upper]
    constructor
    · exact fun strict => ⟨⟨strict.1.le, strict.2.le⟩, .inr strict⟩
    · exact fun ⟨_, strict⟩ => strict.resolve_left nofun

/-- How far the interval of a double goes down, in quarters of its unit: half as far as up if the
next double has a smaller unit. -/
def quartersBelow (significand : Nat) (exponent : Int) : Nat :=
  if significand = exponentUnit ∧ -1074 < exponent then 1 else 2

/-- The least number in the interval of a double, or the end of the interval. -/
def lowerEnd (significand : Nat) (exponent : Int) : ℚ :=
  (significand - quartersBelow significand exponent / 4) * 2 ^ exponent

def upperEnd (significand : Nat) (exponent : Int) : ℚ :=
  (significand + 1 / 2) * 2 ^ exponent

/-- The number is in the interval of a double, to which the ends belong if the double is even. -/
structure RoundsTo (significand : Nat) (exponent : Int) (v : ℚ) : Prop where
  inside : lowerEnd significand exponent ≤ v ∧ v ≤ upperEnd significand exponent
  tie : significand % 2 = 0 ∨
    lowerEnd significand exponent < v ∧ v < upperEnd significand exponent

private theorem quartersBelow_le (significand : Nat) (exponent : Int) :
    1 ≤ quartersBelow significand exponent ∧ quartersBelow significand exponent ≤ 2 := by
  unfold quartersBelow
  split <;> omega

private theorem quartersBelow_bounds (significand : Nat) (exponent : Int) :
    (1 : ℚ) ≤ quartersBelow significand exponent ∧
      (quartersBelow significand exponent : ℚ) ≤ 2 := by
  obtain ⟨least, greatest⟩ := quartersBelow_le significand exponent
  exact ⟨by exact_mod_cast least, by exact_mod_cast greatest⟩

private theorem cast_exponentUnit : (exponentUnit : ℚ) = 2 ^ 52 := by
  norm_num [exponentUnit]

private theorem quarter_unit (exponent : Int) : (2 : ℚ) ^ (exponent - 2) = 2 ^ exponent / 4 := by
  rw [zpow_sub₀ (by norm_num)]
  norm_num

private theorem roundingInterval_value (significand : Nat) (exponent : Int) :
    (roundingInterval significand exponent).value.value = significand * 2 ^ exponent := by
  change (Ratio.ofBinary (4 * significand) (exponent - 2)).value = _
  rw [Ratio.value_ofBinary, quarter_unit]
  push_cast
  ring

private theorem roundingInterval_ends {significand : Nat} (positive : 0 < significand)
    (exponent : Int) :
    (roundingInterval significand exponent).lower.value = lowerEnd significand exponent ∧
      (roundingInterval significand exponent).upper.value = upperEnd significand exponent := by
  have enough : quartersBelow significand exponent ≤ 4 * significand :=
    (quartersBelow_le significand exponent).2.trans (by omega)
  constructor
  · change (Ratio.ofBinary (4 * significand - quartersBelow significand exponent) _).value = _
    rw [Ratio.value_ofBinary, quarter_unit, Nat.cast_sub enough, lowerEnd]
    push_cast
    ring
  · change (Ratio.ofBinary (4 * significand + 2) _).value = _
    rw [Ratio.value_ofBinary, quarter_unit, upperEnd]
    push_cast
    ring

theorem roundingInterval_holds_iff {significand : Nat} (positive : 0 < significand)
    (exponent : Int) {candidate : Ratio} (proper : 0 < candidate.denominator) :
    (roundingInterval significand exponent).holds candidate = true ↔
      RoundsTo significand exponent candidate.value := by
  obtain ⟨lower, upper⟩ := roundingInterval_ends positive exponent
  rw [RoundingInterval.holds_iff (Ratio.denominator_ofBinary _ _) (Ratio.denominator_ofBinary _ _)
    proper, lower, upper]
  have closed : (roundingInterval significand exponent).closed = true ↔ significand % 2 = 0 :=
    decide_eq_true_iff
  rw [closed]
  exact ⟨fun ⟨inside, tie⟩ => ⟨inside, tie⟩, fun ⟨inside, tie⟩ => ⟨inside, tie⟩⟩

section Nearest

variable {significand : Nat} {exponent : Int}

private theorem Canonical.significand_le (canonical : Canonical significand exponent) :
    (significand : ℚ) + 1 ≤ 2 ^ 53 := by
  have next : significand + 1 ≤ 2 * exponentUnit := canonical.bounded
  have cast : ((significand + 1 : Nat) : ℚ) ≤ ((2 * exponentUnit : Nat) : ℚ) := by
    exact_mod_cast next
  push_cast [cast_exponentUnit] at cast
  linarith

theorem RoundsTo.pos {v : ℚ} (rounds : RoundsTo significand exponent v)
    (positive : 0 < significand) : 0 < v := by
  have scale : (0 : ℚ) < 2 ^ exponent := by positivity
  have quarters := (quartersBelow_bounds significand exponent).2
  have one : (1 : ℚ) ≤ significand := by exact_mod_cast positive
  refine lt_of_lt_of_le ?_ rounds.inside.1
  exact mul_pos (by linarith) scale

private theorem RoundsTo.numerator_pos {r : Ratio} (rounds : RoundsTo significand exponent r.value)
    (positive : 0 < significand) : 0 < r.numerator := by
  by_contra zero
  have nothing : r.value = 0 := by
    rw [Ratio.value, Nat.eq_zero_of_not_pos zero, Nat.cast_zero, zero_div]
  exact absurd (rounds.pos positive) (by rw [nothing]; exact lt_irrefl 0)

private theorem round_in_unit {r : Ratio} (proper : 0 < r.denominator)
    (rounds : RoundsTo significand exponent r.value) :
    (r.scaleDown 2 exponent).round = significand := by
  have scale : (0 : ℚ) < 2 ^ exponent := by positivity
  have quarters := (quartersBelow_bounds significand exponent).2
  obtain ⟨⟨lower, upper⟩, tie⟩ := rounds
  have scaled : (r.scaleDown 2 exponent).value = r.value / 2 ^ exponent := by
    rw [Ratio.value_scaleDown, Nat.cast_ofNat]
  unfold lowerEnd upperEnd at *
  rw [← le_div_iff₀ scale, ← scaled] at lower
  rw [← div_le_iff₀ scale, ← scaled] at upper
  rw [← lt_div_iff₀ scale, ← div_lt_iff₀ scale, ← scaled] at tie
  refine Ratio.round_eq (Ratio.denominator_scaleDown Nat.two_pos proper exponent) ?_ upper ?_
  · linarith
  · exact tie.imp id fun ⟨above, below⟩ => ⟨by linarith, below⟩

private theorem unitExponent_cases (canonical : Canonical significand exponent)
    (positive : 0 < significand) {r : Ratio} (proper : 0 < r.denominator)
    (rounds : RoundsTo significand exponent r.value) :
    r.unitExponent = exponent ∨
      (significand = exponentUnit ∧ -1074 < exponent ∧ r.unitExponent = exponent - 1 ∧
        r.value < 2 ^ 52 * 2 ^ exponent) := by
  have scale : (0 : ℚ) < 2 ^ exponent := by positivity
  have power (k : Nat) : (2 : ℚ) ^ ((k : Int) + exponent) = 2 ^ k * 2 ^ exponent := by
    rw [zpow_add₀ (by norm_num), zpow_natCast]
  have bounded := canonical.significand_le
  obtain ⟨_, least, normal⟩ := canonical
  obtain ⟨atLeast, below⟩ :=
    Ratio.binaryMagnitude_bounds (rounds.numerator_pos positive) proper
  -- Exponents of two are compared through the powers between which the number lies.
  have under {k : Nat} (small : r.value < 2 ^ k * 2 ^ exponent) :
      r.binaryMagnitude < k + exponent := by
    rw [← power] at small
    exact (zpow_lt_zpow_iff_right₀ (by norm_num)).mp (atLeast.trans_lt small)
  have reaches {k : Nat} (large : 2 ^ k * 2 ^ exponent ≤ r.value) :
      (k : Int) + exponent < r.binaryMagnitude + 1 := by
    rw [← power] at large
    exact (zpow_lt_zpow_iff_right₀ (by norm_num)).mp (large.trans_lt below)
  have most : r.value < 2 ^ 53 * 2 ^ exponent := by
    refine rounds.inside.2.trans_lt ?_
    exact mul_lt_mul_of_pos_right (by linarith) scale
  unfold Ratio.unitExponent
  by_cases large : 2 ^ 52 * 2 ^ exponent ≤ r.value
  · have upper := under most
    have lower := reaches large
    left
    omega
  · have upper := under (lt_of_not_ge large)
    rcases eq_or_ne exponent (-1074) with lowest | higher
    · left
      omega
    · have full : exponentUnit ≤ significand := normal.resolve_right higher
      have small := lt_of_not_ge large
      have quarters := (quartersBelow_bounds significand exponent).2
      have lower := rounds.inside.1
      unfold lowerEnd at lower
      have first : significand = exponentUnit := by
        by_contra other
        have next : exponentUnit + 1 ≤ significand := by omega
        have cast : ((exponentUnit + 1 : Nat) : ℚ) ≤ significand := by exact_mod_cast next
        push_cast [cast_exponentUnit] at cast
        have past : 2 ^ 52 * 2 ^ exponent ≤
            (significand - quartersBelow significand exponent / 4 : ℚ) * 2 ^ exponent :=
          mul_le_mul_of_nonneg_right (by linarith) scale.le
        exact absurd (past.trans lower) (not_le_of_gt small)
      have half : (2 : ℚ) ^ 51 * 2 ^ exponent ≤ r.value := by
        refine le_trans (mul_le_mul_of_nonneg_right ?_ scale.le) lower
        rw [first] at quarters ⊢
        rw [cast_exponentUnit]
        linarith
      have lower := reaches half
      exact .inr ⟨first, by omega, by omega, small⟩

/-- What is in the interval of a double is rounded to the double. -/
theorem nearestBits_of_roundsTo (canonical : Canonical significand exponent)
    (positive : 0 < significand) {r : Ratio} (proper : 0 < r.denominator)
    (rounds : RoundsTo significand exponent r.value) :
    r.nearestBits = packed significand exponent := by
  unfold Ratio.nearestBits
  rw [if_neg (rounds.numerator_pos positive).ne']
  rcases unitExponent_cases canonical positive proper rounds with
    same | ⟨first, higher, finer, small⟩
  · rw [same, round_in_unit proper rounds]
  · -- Twice the significand in half the unit has the same bits.
    have scale : (0 : ℚ) < 2 ^ exponent := by positivity
    have scaled : (r.scaleDown 2 (exponent - 1)).value = r.value / 2 ^ exponent * 2 := by
      rw [Ratio.value_scaleDown, Nat.cast_ofNat, zpow_sub₀ (by norm_num), zpow_one,
        div_div_eq_mul_div, mul_div_right_comm]
    have doubled : (r.scaleDown 2 (exponent - 1)).round = 2 * exponentUnit := by
      have quarter : quartersBelow significand exponent = 1 := if_pos ⟨first, higher⟩
      have lower := rounds.inside.1
      unfold lowerEnd at lower
      rw [quarter, first, cast_exponentUnit, ← le_div_iff₀ scale] at lower
      rw [← div_lt_iff₀ scale] at small
      have proper' := Ratio.denominator_scaleDown Nat.two_pos proper (exponent - 1)
      refine Ratio.round_eq proper' ?_ ?_ (.inl (by decide))
      · rw [scaled]
        push_cast [cast_exponentUnit] at lower ⊢
        linarith
      · rw [scaled]
        push_cast [cast_exponentUnit]
        linarith
    rw [finer, doubled, first]
    unfold packed
    have carried : (exponent - 1 + 1074).toNat * exponentUnit + 2 * exponentUnit =
        (exponent + 1074).toNat * exponentUnit + exponentUnit := by
      have next : (exponent + 1074).toNat = (exponent - 1 + 1074).toNat + 1 := by omega
      rw [next]
      ring
    rw [carried]

end Nearest

def Decimal.value (d : Decimal) : ℚ :=
  d.digits * 10 ^ d.exponent

theorem Decimal.value_trim (limit : Nat) (d : Decimal) : (d.trim limit).value = d.value := by
  induction limit generalizing d with
  | zero => rfl
  | succ limit ih =>
    unfold Decimal.trim
    split
    · rename_i divisible
      rw [ih]
      have parts : (d.digits : ℚ) = (d.digits / 10 : Nat) * 10 := by
        exact_mod_cast (Nat.div_mul_cancel (Nat.dvd_of_mod_eq_zero divisible)).symm
      simp only [value]
      rw [parts, zpow_add_one₀ (by norm_num)]
      ring
    · rfl

section Shortest

variable {significand : Nat} {exponent : Int}

private theorem onGrid?_roundsTo (positive : 0 < significand) {tie : Tie} {grid : Int} {d : Decimal}
    (found : onGrid? tie (roundingInterval significand exponent) grid = some d) :
    RoundsTo significand exponent d.value := by
  have inside {count : Nat}
      (holds : (roundingInterval significand exponent).holds (.ofDecimal count grid) = true) :
      RoundsTo significand exponent (Decimal.mk count grid).value := by
    have rounds :=
      (roundingInterval_holds_iff positive exponent (Ratio.denominator_ofDecimal _ _)).mp holds
    rwa [Ratio.value_ofDecimal] at rounds
  unfold onGrid? at found
  dsimp only at found
  split at found
  · rename_i first second
    cases found
    have either (value : Ratio) (below : Nat) : nearer tie value below grid = below ∨
        nearer tie value below grid = below + 1 := by
      unfold nearer
      dsimp only
      split
      · exact .inl rfl
      · split
        · exact .inr rfl
        · cases tie with
          | toEven =>
            dsimp only
            split
            · exact .inl rfl
            · exact .inr rfl
          | awayFromZero => exact .inr rfl
    rcases either _ _ with same | same
    · rw [same]
      exact inside first
    · rw [same]
      exact inside second
  · cases found
    exact inside ‹_›
  · cases found
    exact inside ‹_›
  · cases found

private theorem onGrid?_eq_some (tie : Tie) (i : RoundingInterval) (grid : Int) :
    let below := (i.value.scaleDown 10 grid).numerator / (i.value.scaleDown 10 grid).denominator
    i.holds (.ofDecimal below grid) = true ∨ i.holds (.ofDecimal (below + 1) grid) = true →
      ∃ d, onGrid? tie i grid = some d := by
  intro below either
  unfold onGrid?
  dsimp only
  split
  · exact ⟨_, rfl⟩
  · exact ⟨_, rfl⟩
  · exact ⟨_, rfl⟩
  · rename_i first second
    rcases either with held | held
    · exact absurd (first.symm.trans held) nofun
    · exact absurd (second.symm.trans held) nofun

private theorem onGrid?_isSome (positive : 0 < significand) (tie : Tie) {grid : Int}
    (fine : (10 : ℚ) ^ grid < upperEnd significand exponent - lowerEnd significand exponent) :
    ∃ d, onGrid? tie (roundingInterval significand exponent) grid = some d := by
  have step : (0 : ℚ) < 10 ^ grid := by positivity
  have scale : (0 : ℚ) < 2 ^ exponent := by positivity
  let scaled := (roundingInterval significand exponent).value.scaleDown 10 grid
  let below := scaled.numerator / scaled.denominator
  have proper : 0 < scaled.denominator :=
    Ratio.denominator_scaleDown (by decide) (Ratio.denominator_ofBinary _ _) grid
  obtain ⟨least, greatest⟩ := Ratio.floor_bounds proper
  have quotient : scaled.value = significand * 2 ^ exponent / 10 ^ grid := by
    rw [Ratio.value_scaleDown, roundingInterval_value, Nat.cast_ofNat]
  rw [quotient, le_div_iff₀ step] at least
  rw [quotient, div_lt_iff₀ step] at greatest
  have holds {count : Nat} (lower : lowerEnd significand exponent < count * 10 ^ grid)
      (upper : (count * 10 ^ grid : ℚ) < upperEnd significand exponent) :
      (roundingInterval significand exponent).holds (.ofDecimal count grid) = true := by
    rw [roundingInterval_holds_iff positive exponent (Ratio.denominator_ofDecimal _ _),
      Ratio.value_ofDecimal]
    exact ⟨⟨lower.le, upper.le⟩, .inr ⟨lower, upper⟩⟩
  have one := (quartersBelow_bounds significand exponent).1
  have under : lowerEnd significand exponent < significand * 2 ^ exponent :=
    mul_lt_mul_of_pos_right (by linarith) scale
  have above : significand * 2 ^ exponent < upperEnd significand exponent :=
    mul_lt_mul_of_pos_right (by linarith) scale
  refine onGrid?_eq_some tie _ grid ?_
  by_cases inside : lowerEnd significand exponent < below * 10 ^ grid
  · exact .inl (holds inside (least.trans_lt above))
  · refine .inr (holds ?_ ?_)
    · push_cast
      exact under.trans greatest
    · push_cast
      linarith

private theorem seventeen_digits (canonical : Canonical significand exponent)
    (positive : 0 < significand) :
    (10 : ℚ) ^ ((roundingInterval significand exponent).value.decimalMagnitude - 16) <
      upperEnd significand exponent - lowerEnd significand exponent := by
  have scale : (0 : ℚ) < 2 ^ exponent := by positivity
  have numerator : 0 < (roundingInterval significand exponent).value.numerator := by
    change 0 < (Ratio.ofBinary (4 * significand) (exponent - 2)).numerator
    cases exponent - 2 with
    | ofNat shift => exact Nat.mul_pos (by omega) (Nat.two_pow_pos shift)
    | negSucc below => exact Nat.mul_pos (by decide) positive
  have leading := (Ratio.decimalMagnitude_bounds numerator (Ratio.denominator_ofBinary _ _)).1
  rw [roundingInterval_value] at leading
  have grid (e : Int) : (10 : ℚ) ^ (e - 16) = 10 ^ e / 10 ^ 16 := by
    rw [zpow_sub₀ (by norm_num)]
    norm_num
  rw [grid, div_lt_iff₀ (by norm_num)]
  refine leading.trans_lt ?_
  unfold upperEnd lowerEnd
  rw [← sub_mul, mul_right_comm]
  refine mul_lt_mul_of_pos_right ?_ scale
  unfold quartersBelow
  split
  · rename_i first
    rw [first.1, cast_exponentUnit]
    norm_num
  · have bounded : (significand : ℚ) < 2 ^ 53 := by linarith [canonical.significand_le]
    norm_num at bounded ⊢
    linarith

/-- The shortest decimal of a double is in its interval. -/
theorem shortest_roundsTo (canonical : Canonical significand exponent)
    (positive : 0 < significand) (tie : Tie) :
    RoundsTo significand exponent (shortest tie significand exponent).value := by
  unfold shortest
  dsimp only
  split
  · rename_i d found
    obtain ⟨count, _, here⟩ := List.exists_of_findSome?_eq_some found
    rw [Decimal.value_trim]
    exact onGrid?_roundsTo positive here
  · rename_i none
    obtain ⟨d, found⟩ := onGrid?_isSome positive tie (seventeen_digits canonical positive)
    have absent := List.findSome?_eq_none_iff.mp none 16 (by decide)
    rw [Nat.cast_ofNat, found] at absent
    cases absent

end Shortest

def Written.value (w : Written) : ℚ :=
  w.digits * 10 ^ w.exponent

private theorem written_bounds (w : Written) (some : w.digits ≠ 0) :
    let size := ((Nat.toDigits 10 w.digits).length : Int) + w.exponent
    (10 : ℚ) ^ (size - 1) ≤ w.value ∧ w.value < (10 : ℚ) ^ size := by
  intro size
  have scale : (0 : ℚ) < 10 ^ w.exponent := by positivity
  have power (k : Nat) : (10 : ℚ) ^ ((k : Int) + w.exponent) = 10 ^ k * 10 ^ w.exponent := by
    rw [zpow_add₀ (by norm_num), zpow_natCast]
  obtain ⟨least, greatest⟩ := Ratio.length_toDigits w.digits (Nat.pos_of_ne_zero some)
  have count : 0 < (Nat.toDigits 10 w.digits).length := Nat.length_toDigits_pos
  have first : size - 1 = (((Nat.toDigits 10 w.digits).length - 1 : Nat) : Int) + w.exponent := by
    omega
  rw [Nat.sub_add_cancel count] at greatest
  rw [first, power, power, Written.value]
  constructor
  · exact mul_le_mul_of_nonneg_right (by exact_mod_cast least) scale.le
  · exact mul_lt_mul_of_pos_right (by exact_mod_cast greatest) scale

private theorem roundsTo_bounds {significand : Nat} {exponent : Int}
    (canonical : Canonical significand exponent) (positive : 0 < significand)
    (finite : exponent ≤ 971) {v : ℚ} (rounds : RoundsTo significand exponent v) :
    (10 : ℚ) ^ (-331 : Int) < v ∧ v < (10 : ℚ) ^ (310 : Int) := by
  have scale : (0 : ℚ) < 2 ^ exponent := by positivity
  have quarters := (quartersBelow_bounds significand exponent).2
  have one : (1 : ℚ) ≤ significand := by exact_mod_cast positive
  have bounded := canonical.significand_le
  constructor
  · have tiny : 2 * 2 ^ 1074 < 10 ^ 331 := by decide +kernel
    have tiny' : (10 : ℚ) ^ (-331 : Int) < 1 / 2 * 2 ^ (-1074 : Int) := by
      have cast : (2 * 2 ^ 1074 : ℚ) < 10 ^ 331 := by exact_mod_cast tiny
      rw [zpow_neg, zpow_neg, ← one_div, ← one_div, div_mul_div_comm, one_mul]
      exact one_div_lt_one_div_of_lt (by positivity) cast
    refine tiny'.trans_le (le_trans ?_ rounds.inside.1)
    have least : (2 : ℚ) ^ (-1074 : Int) ≤ 2 ^ exponent :=
      zpow_le_zpow_right₀ (by norm_num) canonical.least
    exact mul_le_mul (by linarith) least (by positivity) (by linarith)
  · have huge : 2 ^ 53 * 2 ^ 971 < 10 ^ 310 := by decide +kernel
    have cast : (2 ^ 53 * 2 ^ 971 : ℚ) < 10 ^ 310 := by exact_mod_cast huge
    have most : (2 : ℚ) ^ exponent ≤ 2 ^ (971 : Int) := zpow_le_zpow_right₀ (by norm_num) finite
    refine lt_of_le_of_lt (rounds.inside.2.trans ?_) cast
    exact mul_le_mul (by linarith) most scale.le (by positivity)

theorem Written.size_of_roundsTo {significand : Nat} {exponent : Int}
    (canonical : Canonical significand exponent) (positive : 0 < significand)
    (finite : exponent ≤ 971) {w : Written} (rounds : RoundsTo significand exponent w.value) :
    w.digits ≠ 0 ∧ -330 ≤ ((Nat.toDigits 10 w.digits).length : Int) + w.exponent ∧
      ((Nat.toDigits 10 w.digits).length : Int) + w.exponent ≤ 310 := by
  have some : w.digits ≠ 0 := by
    intro zero
    have nothing : w.value = 0 := by rw [Written.value, zero, Nat.cast_zero, zero_mul]
    exact absurd (rounds.pos positive) (by rw [nothing]; exact lt_irrefl 0)
  obtain ⟨atLeast, below⟩ := written_bounds w some
  obtain ⟨tiny, huge⟩ := roundsTo_bounds canonical positive finite rounds
  have lower := (zpow_lt_zpow_iff_right₀ (by norm_num)).mp (tiny.trans below)
  have upper := (zpow_lt_zpow_iff_right₀ (by norm_num)).mp (atLeast.trans_lt huge)
  exact ⟨some, by omega, by omega⟩

private theorem magnitudeBits_of_roundsTo {significand : Nat} {exponent : Int}
    (canonical : Canonical significand exponent) (positive : 0 < significand)
    (finite : exponent ≤ 971) {w : Written} (rounds : RoundsTo significand exponent w.value) :
    w.magnitudeBits = packed significand exponent := by
  obtain ⟨some, lower, upper⟩ := Written.size_of_roundsTo canonical positive finite rounds
  have computed : w.magnitudeBits = (Ratio.ofDecimal w.digits w.exponent).nearestBits := by
    change (if w.digits = 0 ∨ ((Nat.toDigits 10 w.digits).length : Int) + w.exponent < -330 then 0
      else if 310 < ((Nat.toDigits 10 w.digits).length : Int) + w.exponent then infinityBits
      else (Ratio.ofDecimal w.digits w.exponent).nearestBits) = _
    rw [if_neg (by omega), if_neg (by omega)]
  rw [computed]
  refine nearestBits_of_roundsTo canonical positive (Ratio.denominator_ofDecimal _ _) ?_
  rwa [Ratio.value_ofDecimal]

private theorem form_packed {significand : Nat} {exponent : Int}
    (canonical : Canonical significand exponent) (finite : exponent ≤ 971) (negative : Bool) :
    form (ofSignedBits negative (packed significand exponent)) =
      .finite negative significand exponent := by
  obtain ⟨bounded, least, normal⟩ := canonical
  obtain ⟨biased, rfl⟩ : ∃ biased : Nat, exponent = (biased : Int) - 1074 :=
    ⟨(exponent + 1074).toNat, by omega⟩
  have kept : ((biased : Int) - 1074 + 1074).toNat = biased := by omega
  have below : biased * exponentUnit + significand < infinityBits := by
    have most : biased ≤ 2045 := by omega
    have product := Nat.mul_le_mul_right exponentUnit most
    unfold infinityBits
    omega
  have bits : packed significand ((biased : Int) - 1074) = biased * exponentUnit + significand := by
    unfold packed
    rw [kept]
    exact Nat.min_eq_left below.le
  rw [bits, form_ofSignedBits negative below]
  by_cases small : biased * exponentUnit + significand < exponentUnit
  · rw [if_pos small]
    have lowest : biased = 0 := by
      by_contra positive
      have product := Nat.mul_le_mul_right exponentUnit (Nat.pos_of_ne_zero positive)
      omega
    subst lowest
    simp
  · rw [if_neg small]
    have full : exponentUnit ≤ significand := by
      refine normal.elim id fun lowest => ?_
      have zero : biased = 0 := by omega
      subst zero
      omega
    have quotient : (biased * exponentUnit + significand) / exponentUnit = biased + 1 := by
      unfold exponentUnit at *
      omega
    have remainder : (biased * exponentUnit + significand) % exponentUnit =
        significand - exponentUnit := by
      unfold exponentUnit at *
      omega
    rw [quotient, remainder, Nat.sub_add_cancel full]
    congr 1
    omega

theorem toFloat_of_roundsTo {x : Float} {significand : Nat} {exponent : Int} {w : Written}
    (shown : form x = .finite w.negative significand exponent) (positive : 0 < significand)
    (rounds : RoundsTo significand exponent w.value) : w.toFloat = x := by
  have canonical := (bits_of_form shown).1
  have finite := exponent_le_of_form shown
  refine eq_of_form_eq ?_ shown
  rw [Written.toFloat, magnitudeBits_of_roundsTo canonical positive finite rounds]
  exact form_packed canonical finite w.negative

end JsonScript.Number
