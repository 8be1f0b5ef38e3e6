import Mathlib
import JsonScript.Number

/-!
Doubles and integers.

The form of a finite double determines its bits, so that a double is known by its form. An integer
of magnitude up to 2^53 has the form of its own significand, shifted until it has 53 binary digits,
and is therefore read back exactly; only the sign of a zero is lost.
-/

set_option autoImplicit false
set_option relaxedAutoImplicit false

namespace JsonScript.Number

open Float.Model (Format UnpackedFloat)

private theorem exponent_bits (bits : UInt64) :
    (@UnpackedFloat.unpackExponent Format.binary64 bits.toBitVec).toNat =
      bits.toNat / exponentUnit % 2048 := by
  rw [UnpackedFloat.unpackExponent_def, BitVec.extractLsb'_toNat, Nat.shiftRight_eq_div_pow]
  rfl

theorem toBits_ofBits {bits : UInt64} (finite : bits.toNat / exponentUnit % 2048 ≠ 2047) :
    (Float.ofBits bits).toBits = bits := by
  have number : @UnpackedFloat.isNaNBits Format.binary64 bits.toBitVec = false := by
    have exponent := exponent_bits bits
    unfold UnpackedFloat.isNaNBits
    refine decide_eq_false fun ⟨allOnes, _⟩ => finite ?_
    rw [← exponent, allOnes]
    rfl
  have unchanged := @UnpackedFloat.pack_unpack Format.binary64 bits.toBitVec
  rw [number] at unchanged
  exact congrArg UInt64.ofBitVec (unchanged (by decide))

theorem form_ofSignedBits (negative : Bool) {bits : Nat} (finite : bits < infinityBits) :
    form (ofSignedBits negative bits) =
      if bits < exponentUnit then .finite negative bits (-1074)
      else .finite negative (bits % exponentUnit + exponentUnit)
        ((bits / exponentUnit : Nat) - 1075) := by
  have sized : (if negative then signUnit else 0) + bits < 2 ^ 64 := by
    unfold infinityBits exponentUnit at finite
    unfold signUnit
    split <;> omega
  have word : (UInt64.ofNat ((if negative then signUnit else 0) + bits)).toNat =
      (if negative then signUnit else 0) + bits := by
    rw [UInt64.toNat_ofNat', Nat.mod_eq_of_lt sized]
  have exponent : ((if negative then signUnit else 0) + bits) / exponentUnit % 2048 =
      bits / exponentUnit := by
    unfold infinityBits exponentUnit at finite
    unfold signUnit exponentUnit
    split <;> omega
  have fraction : ((if negative then signUnit else 0) + bits) % exponentUnit =
      bits % exponentUnit := by
    unfold signUnit exponentUnit
    split <;> omega
  have sign : decide (signUnit ≤ (if negative then signUnit else 0) + bits) = negative := by
    unfold infinityBits exponentUnit at finite
    unfold signUnit
    cases negative with
    | true => exact decide_eq_true (Nat.le_add_right _ _)
    | false =>
      refine decide_eq_false ?_
      rw [if_neg (by decide)]
      omega
  have below : bits / exponentUnit < 2047 := by
    unfold infinityBits at finite
    exact Nat.div_lt_of_lt_mul (by rwa [Nat.mul_comm])
  have kept : (ofSignedBits negative bits).toBits.toNat =
      (if negative then signUnit else 0) + bits := by
    rw [ofSignedBits, toBits_ofBits, word]
    rw [word, exponent]
    omega
  unfold form
  simp only [kept, exponent, fraction, sign]
  rw [if_neg (by omega)]
  by_cases least : bits < exponentUnit
  · rw [if_pos (Nat.div_eq_of_lt least), if_pos least, Nat.mod_eq_of_lt least]
  · have positive : bits / exponentUnit ≠ 0 := by
      unfold exponentUnit at least ⊢
      omega
    rw [if_neg positive, if_neg least]

/-- What a finite form is: a significand of 53 binary digits, or a smaller one of the least
exponent. -/
structure Canonical (significand : Nat) (exponent : Int) : Prop where
  bounded : significand < 2 * exponentUnit
  least : -1074 ≤ exponent
  normal : exponentUnit ≤ significand ∨ exponent = -1074

private theorem split_bits {bits : Nat} (sized : bits < 2 ^ 64) :
    bits = (if decide (signUnit ≤ bits) then signUnit else 0) +
      (bits / exponentUnit % 2048 * exponentUnit + bits % exponentUnit) := by
  unfold signUnit exponentUnit
  by_cases signed : 9223372036854775808 ≤ bits
  · rw [decide_eq_true signed, if_pos rfl]
    omega
  · rw [decide_eq_false signed, if_neg (by decide)]
    omega

theorem bits_of_form {x : Float} {negative : Bool} {significand : Nat} {exponent : Int}
    (shown : form x = .finite negative significand exponent) :
    Canonical significand exponent ∧
      x.toBits.toNat = (if negative then signUnit else 0) +
        ((exponent + 1074).toNat * exponentUnit + significand) := by
  have sized : x.toBits.toNat < 2 ^ 64 := x.toBits.toNat_lt
  have parts := split_bits sized
  have fraction : x.toBits.toNat % exponentUnit < exponentUnit := Nat.mod_lt _ (by decide)
  unfold form at shown
  dsimp only at shown
  split at shown
  · split at shown <;> cases shown
  · split at shown
    · rename_i least
      rw [least, Nat.zero_mul] at parts
      cases shown
      refine ⟨⟨by omega, by omega, .inr rfl⟩, ?_⟩
      rw [Int.add_left_neg, Int.toNat_zero, Nat.zero_mul]
      exact parts
    · rename_i normal
      cases shown
      refine ⟨⟨by omega, by omega, .inl (by omega)⟩, ?_⟩
      generalize x.toBits.toNat / exponentUnit % 2048 = biased at normal parts ⊢
      obtain ⟨rest, rfl⟩ := Nat.exists_eq_succ_of_ne_zero normal
      have shifted : ((rest.succ : Int) - 1075 + 1074).toNat = rest := by omega
      rw [shifted]
      rw [Nat.succ_mul] at parts
      omega

theorem exponent_le_of_form {x : Float} {negative : Bool} {significand : Nat} {exponent : Int}
    (shown : form x = .finite negative significand exponent) : exponent ≤ 971 := by
  unfold form at shown
  dsimp only at shown
  split at shown
  · split at shown <;> cases shown
  · split at shown
    · cases shown
      omega
    · cases shown
      omega

theorem eq_of_form_eq {x y : Float} {negative : Bool} {significand : Nat} {exponent : Int}
    (first : form x = .finite negative significand exponent)
    (second : form y = .finite negative significand exponent) : x = y := by
  have bits : x.toBits.toNat = y.toBits.toNat := by
    rw [(bits_of_form first).2, (bits_of_form second).2]
  exact Float.toBits_inj.mp (UInt64.toNat_inj.mp bits)

theorem beq_self_of_isFinite {x : Float} (finite : isFinite x = true) : (x == x) = true := by
  refine Float.beq_self_iff.mpr ?_
  rintro rfl
  revert finite
  decide

private theorem round_scaleDown (magnitude shift : Nat) :
    (Ratio.scaleDown 2 ⟨magnitude, 1⟩ (-(shift : Int))).round = magnitude * 2 ^ shift := by
  cases shift with
  | zero => simp [Ratio.scaleDown, Ratio.round, Nat.mod_one]
  | succ below =>
    have scaled : Ratio.scaleDown 2 ⟨magnitude, 1⟩ (-((below + 1 : Nat) : Int)) =
        ⟨magnitude * 2 ^ (below + 1), 1⟩ := rfl
    rw [scaled]
    simp [Ratio.round, Nat.mod_one]

private theorem wholeMagnitude?_shift (magnitude shift : Nat) :
    wholeMagnitude? (magnitude * 2 ^ shift) (-(shift : Int)) = some magnitude := by
  cases shift with
  | zero => simp [wholeMagnitude?]
  | succ below =>
    have positive : 0 < 2 ^ (below + 1) := Nat.two_pow_pos _
    change (if magnitude * 2 ^ (below + 1) % 2 ^ (below + 1) = 0 then
      some (magnitude * 2 ^ (below + 1) / 2 ^ (below + 1)) else none) = some magnitude
    rw [Nat.mul_mod_left, if_pos rfl, Nat.mul_div_cancel _ positive]

private theorem form_nearest {magnitude shift : Nat} (normal : exponentUnit ≤ magnitude * 2 ^ shift)
    (bounded : magnitude * 2 ^ shift < 2 * exponentUnit) (negative : Bool) :
    form (nearest negative ⟨magnitude, 1⟩) =
      .finite negative (magnitude * 2 ^ shift) (-(shift : Int)) := by
  have positive : magnitude ≠ 0 := by
    rintro rfl
    rw [Nat.zero_mul] at normal
    exact absurd normal (by decide)
  have limit : shift ≤ 52 := by
    by_contra large
    have enough : 2 ^ 53 ≤ 2 ^ shift := Nat.pow_le_pow_right (by decide) (by omega)
    have least : 2 ^ shift ≤ magnitude * 2 ^ shift :=
      Nat.le_mul_of_pos_left _ (Nat.pos_of_ne_zero positive)
    unfold exponentUnit at bounded
    omega
  have digits : magnitude.log2 = 52 - shift := by
    rw [Nat.log2_eq_iff positive]
    have parts : 2 ^ 52 = 2 ^ (52 - shift) * 2 ^ shift := by
      rw [← Nat.pow_add, Nat.sub_add_cancel limit]
    constructor
    · refine Nat.le_of_mul_le_mul_right ?_ (Nat.two_pow_pos shift)
      rw [← parts]
      exact normal
    · refine Nat.lt_of_mul_lt_mul_right (a := 2 ^ shift) ?_
      rw [Nat.pow_succ, Nat.mul_right_comm, ← parts, Nat.mul_comm _ 2]
      exact bounded
  have unit : (Ratio.mk magnitude 1).unitExponent = -(shift : Int) := by
    have whole : (Ratio.mk magnitude 1).binaryMagnitude = (magnitude.log2 : Int) := by
      unfold Ratio.binaryMagnitude
      rw [if_pos (Nat.one_le_iff_ne_zero.mpr positive), Nat.div_one]
    unfold Ratio.unitExponent
    omega
  have bits : (Ratio.mk magnitude 1).nearestBits =
      (1074 - shift) * exponentUnit + magnitude * 2 ^ shift := by
    unfold Ratio.nearestBits packed
    rw [if_neg positive, unit, round_scaleDown]
    have counted : (-(shift : Int) + 1074).toNat = 1074 - shift := by omega
    rw [counted]
    unfold infinityBits exponentUnit at *
    omega
  rw [nearest, bits, form_ofSignedBits]
  · unfold exponentUnit at *
    rw [if_neg (by omega)]
    congr 1 <;> omega
  · unfold infinityBits exponentUnit at *
    omega

private theorem integer?_of_form {x : Float} {negative : Bool} {significand magnitude : Nat}
    {exponent : Int} (shown : form x = .finite negative significand exponent)
    (whole : wholeMagnitude? significand exponent = some magnitude)
    (safe : magnitude ≤ safeLimit) :
    integer? x = some (if negative then -(magnitude : Int) else magnitude) := by
  unfold integer?
  simp only [shown, whole]
  rw [if_pos safe]

private theorem form_of_integer? {x : Float} {n : Int} (found : integer? x = some n) :
    ∃ negative significand exponent magnitude,
      form x = .finite negative significand exponent ∧
        wholeMagnitude? significand exponent = some magnitude ∧ magnitude ≤ safeLimit ∧
        n = if negative then -(magnitude : Int) else magnitude := by
  unfold integer? at found
  split at found
  · rename_i negative significand exponent shown
    split at found
    · rename_i magnitude whole
      split at found
      · rename_i safe
        exact ⟨negative, significand, exponent, magnitude, shown, whole, safe,
          (Option.some.inj found).symm⟩
      · cases found
    · cases found
  · cases found

theorem isFinite_of_integer? {x : Float} {n : Int} (found : integer? x = some n) :
    isFinite x = true := by
  obtain ⟨_, _, _, _, shown, _⟩ := form_of_integer? found
  unfold isFinite
  rw [shown]

theorem natAbs_le_of_integer? {x : Float} {n : Int} (found : integer? x = some n) :
    n.natAbs ≤ safeLimit := by
  obtain ⟨negative, _, _, magnitude, _, _, safe, rfl⟩ := form_of_integer? found
  cases negative <;> simpa using safe

private theorem exists_shift {magnitude : Nat} (positive : magnitude ≠ 0)
    (bounded : magnitude < 2 * exponentUnit) :
    ∃ shift, exponentUnit ≤ magnitude * 2 ^ shift ∧ magnitude * 2 ^ shift < 2 * exponentUnit := by
  have digits : magnitude.log2 ≤ 52 := by
    have small : magnitude.log2 < 53 := (Nat.log2_lt positive).mpr bounded
    omega
  have parts : exponentUnit = 2 ^ magnitude.log2 * 2 ^ (52 - magnitude.log2) := by
    rw [← Nat.pow_add, Nat.add_sub_cancel' digits]
    rfl
  have lower := Nat.log2_self_le positive
  have upper : magnitude < 2 ^ (magnitude.log2 + 1) := Nat.lt_log2_self
  refine ⟨52 - magnitude.log2, ?_, ?_⟩
  · rw [parts]
    exact Nat.mul_le_mul_right _ lower
  · rw [parts, ← Nat.mul_assoc, Nat.mul_comm 2, ← Nat.pow_succ]
    exact Nat.mul_lt_mul_of_pos_right upper (Nat.two_pow_pos _)

theorem integer?_ofInteger {n : Int} (safe : n.natAbs ≤ safeLimit) :
    integer? (ofInteger n) = some n := by
  have signed : (if decide (n < 0) then -(n.natAbs : Int) else n.natAbs) = n := by
    by_cases negative : n < 0
    · rw [decide_eq_true negative, if_pos rfl]
      omega
    · rw [decide_eq_false negative, if_neg (by decide)]
      omega
  by_cases zero : n.natAbs = 0
  · obtain rfl : n = 0 := Int.natAbs_eq_zero.mp zero
    decide +kernel
  · rcases Nat.lt_or_eq_of_le safe with below | greatest
    · obtain ⟨shift, normal, bounded⟩ := exists_shift zero below
      have shown := form_nearest normal bounded (decide (n < 0))
      have found := integer?_of_form shown (wholeMagnitude?_shift n.natAbs shift) safe
      rwa [signed] at found
    · -- The greatest integer has no place below 2^53, so its double is computed.
      rcases Int.natAbs_eq n with positive | negative
      · rw [positive, greatest]
        decide +kernel
      · rw [negative, greatest]
        decide +kernel

private theorem wholeMagnitude?_cases {significand magnitude : Nat} {exponent : Int}
    (whole : wholeMagnitude? significand exponent = some magnitude) :
    (∃ shift : Nat, exponent = -(shift : Int) ∧ significand = magnitude * 2 ^ shift) ∨
      ∃ shift : Nat, exponent = (shift : Int) + 1 ∧ magnitude = significand * 2 ^ (shift + 1) := by
  cases exponent with
  | ofNat shift =>
    have shifted : significand * 2 ^ shift = magnitude := Option.some.inj whole
    cases shift with
    | zero => exact .inl ⟨0, rfl, by simpa using shifted⟩
    | succ shift => exact .inr ⟨shift, rfl, shifted.symm⟩
  | negSucc below =>
    have divided : (if significand % 2 ^ (below + 1) = 0 then
        some (significand / 2 ^ (below + 1)) else none) = some magnitude := whole
    split at divided
    · rename_i divides
      obtain rfl := Option.some.inj divided
      exact .inl ⟨below + 1, rfl, (Nat.div_mul_cancel (Nat.dvd_of_mod_eq_zero divides)).symm⟩
    · cases divided

private theorem form_nearest_of_form {x : Float} {negative : Bool} {significand magnitude : Nat}
    {exponent : Int} (shown : form x = .finite negative significand exponent)
    (whole : wholeMagnitude? significand exponent = some magnitude)
    (safe : magnitude ≤ safeLimit) (positive : magnitude ≠ 0) :
    form (nearest negative ⟨magnitude, 1⟩) = .finite negative significand exponent := by
  obtain ⟨⟨bounded, least, normal⟩, _⟩ := bits_of_form shown
  rcases wholeMagnitude?_cases whole with ⟨shift, rfl, rfl⟩ | ⟨shift, rfl, rfl⟩
  · refine form_nearest ?_ bounded negative
    refine normal.resolve_right fun lowest => ?_
    -- The least double is far below one.
    obtain rfl : shift = 1074 := by omega
    have large : 2 ^ 1074 ≤ magnitude * 2 ^ 1074 :=
      Nat.le_mul_of_pos_left _ (Nat.pos_of_ne_zero positive)
    have beyond : 2 * exponentUnit ≤ 2 ^ 1074 := by decide +kernel
    exact absurd (Nat.lt_of_le_of_lt (Nat.le_trans beyond large) bounded) (Nat.lt_irrefl _)
  · have full : exponentUnit ≤ significand := normal.resolve_right (by omega)
    have once : shift = 0 := by
      by_contra more
      have four : 2 ^ 2 ≤ 2 ^ (shift + 1) := Nat.pow_le_pow_right (by decide) (by omega)
      have product : exponentUnit * 2 ^ 2 ≤ significand * 2 ^ (shift + 1) :=
        Nat.mul_le_mul full four
      exact absurd (Nat.le_trans product safe) (by decide)
    subst once
    obtain rfl : significand = exponentUnit := by
      unfold safeLimit exponentUnit at *
      omega
    cases negative <;> decide +kernel

theorem ofInteger_beq_of_integer? {x : Float} {n : Int} (found : integer? x = some n) :
    (ofInteger n == x) = true := by
  have finite := isFinite_of_integer? found
  obtain ⟨negative, significand, exponent, magnitude, shown, whole, safe, rfl⟩ :=
    form_of_integer? found
  by_cases zero : magnitude = 0
  · subst zero
    have nothing : significand = 0 := by
      rcases wholeMagnitude?_cases whole with ⟨shift, _, zero⟩ | ⟨shift, _, zero⟩
      · rw [zero, Nat.zero_mul]
      · exact (Nat.mul_eq_zero.mp zero.symm).resolve_right (Nat.two_pow_pos _).ne'
    have lowest : exponent = -1074 := by
      obtain ⟨⟨_, _, normal⟩, _⟩ := bits_of_form shown
      refine normal.resolve_left fun full => ?_
      rw [nothing] at full
      exact absurd full (by decide)
    subst nothing lowest
    cases negative with
    | true =>
      obtain rfl : x = -0.0 := eq_of_form_eq shown (by decide +kernel)
      decide +kernel
    | false =>
      obtain rfl : x = 0.0 := eq_of_form_eq shown (by decide +kernel)
      decide +kernel
  · have same : ofInteger (if negative then -(magnitude : Int) else magnitude) =
        nearest negative ⟨magnitude, 1⟩ := by
      unfold ofInteger
      cases negative with
      | true =>
        have below : decide (-(magnitude : Int) < 0) = true := decide_eq_true (by omega)
        simp only [if_true, below, Int.natAbs_neg, Int.natAbs_natCast]
      | false =>
        have above : decide ((magnitude : Int) < 0) = false := decide_eq_false (by omega)
        simp only [Bool.false_eq_true, if_false, above, Int.natAbs_natCast]
    have equal := eq_of_form_eq (form_nearest_of_form shown whole safe zero) shown
    rw [same, equal]
    exact beq_self_of_isFinite finite

def value? (x : Float) : Option ℚ :=
  match form x with
  | .finite negative significand exponent =>
    some ((if negative then -1 else 1) * (significand * 2 ^ exponent))
  | _ => none

private theorem value_of_wholeMagnitude? {significand magnitude : Nat} {exponent : Int}
    (whole : wholeMagnitude? significand exponent = some magnitude) :
    (significand * 2 ^ exponent : ℚ) = magnitude := by
  rcases wholeMagnitude?_cases whole with ⟨shift, rfl, rfl⟩ | ⟨shift, rfl, rfl⟩
  · rw [zpow_neg, zpow_natCast, Nat.cast_mul, Nat.cast_pow, Nat.cast_ofNat]
    exact mul_inv_cancel_right₀ (pow_ne_zero shift two_ne_zero) _
  · rw [← Nat.cast_succ, zpow_natCast]
    push_cast
    rfl

private theorem wholeMagnitude?_of_value {significand magnitude : Nat} {exponent : Int}
    (equal : (significand * 2 ^ exponent : ℚ) = magnitude) :
    wholeMagnitude? significand exponent = some magnitude := by
  cases exponent with
  | ofNat shift =>
    have shifted : significand * 2 ^ shift = magnitude := by
      rw [Int.ofNat_eq_natCast, zpow_natCast] at equal
      exact_mod_cast equal
    exact congrArg some shifted
  | negSucc below =>
    have unit : (2 : ℚ) ^ (below + 1) ≠ 0 := pow_ne_zero _ two_ne_zero
    have shifted : significand = magnitude * 2 ^ (below + 1) := by
      rw [zpow_negSucc, mul_inv_eq_iff_eq_mul₀ unit] at equal
      exact_mod_cast equal
    rw [shifted]
    exact wholeMagnitude?_shift magnitude (below + 1)

theorem integer?_eq_some_iff {x : Float} {n : Int} :
    integer? x = some n ↔ value? x = some (n : ℚ) ∧ n.natAbs ≤ safeLimit := by
  constructor
  · intro found
    obtain ⟨negative, significand, exponent, magnitude, shown, whole, safe, rfl⟩ :=
      form_of_integer? found
    refine ⟨?_, natAbs_le_of_integer? found⟩
    unfold value?
    rw [shown]
    dsimp only
    rw [value_of_wholeMagnitude? whole]
    cases negative <;> simp
  · intro ⟨stands, safe⟩
    unfold value? at stands
    split at stands
    · rename_i negative significand exponent shown
      have equal := Option.some.inj stands
      have least : (0 : ℚ) ≤ significand * 2 ^ exponent := by positivity
      cases negative with
      | false =>
        rw [if_neg Bool.false_ne_true, one_mul] at equal
        rw [equal] at least
        obtain ⟨magnitude, rfl⟩ := Int.eq_ofNat_of_zero_le (Int.cast_nonneg_iff.mp least)
        exact integer?_of_form shown (wholeMagnitude?_of_value (by simpa using equal)) safe
      | true =>
        rw [if_pos rfl, neg_mul, one_mul] at equal
        have opposite : (significand * 2 ^ exponent : ℚ) = ((-n : Int) : ℚ) := by
          rw [Int.cast_neg, ← equal, neg_neg]
        rw [opposite] at least
        obtain ⟨magnitude, negated⟩ := Int.eq_ofNat_of_zero_le (Int.cast_nonneg_iff.mp least)
        obtain rfl : n = -(magnitude : Int) := by omega
        rw [Int.natAbs_neg] at safe
        exact integer?_of_form shown (wholeMagnitude?_of_value (by simpa using opposite)) safe
    · cases stands

end JsonScript.Number
