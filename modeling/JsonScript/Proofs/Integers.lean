import JsonScript.Proofs.Numbers
import JsonScript.Shape

/-!
Integers as values.

An integer becomes the nearest double, and a whole double of magnitude up to 2^53 is an integer
again. Up to this limit nothing is lost. The integer next to the limit is as far from 2^53 as from
2^53 + 2, goes to the even neighbour, and comes back as the limit. Every other integer has a double
beyond the limit, so that it is refused rather than changed.
-/

set_option autoImplicit false
set_option relaxedAutoImplicit false

namespace JsonScript

namespace Number

private def limitBits : Nat := 1076 * exponentUnit

private theorem wholeMagnitude?_beyond {bits : Nat} (beyond : limitBits < bits) :
    ∃ magnitude, wholeMagnitude? (bits % exponentUnit + exponentUnit)
      ((bits / exponentUnit : Nat) - 1075) = some magnitude ∧ safeLimit < magnitude := by
  have exponent : 1076 ≤ bits / exponentUnit := by
    unfold limitBits exponentUnit at *
    omega
  obtain ⟨shift, shifted⟩ : ∃ shift, bits / exponentUnit = 1076 + shift :=
    Nat.exists_eq_add_of_le exponent
  have whole : (((1076 + shift : Nat) : Int) - 1075) = ((shift + 1 : Nat) : Int) := by omega
  rw [shifted, whole]
  refine ⟨_, rfl, ?_⟩
  change safeLimit < (bits % exponentUnit + exponentUnit) * 2 ^ (shift + 1)
  cases shift with
  | zero =>
    -- In the first binade beyond the limit only the limit itself has no fraction.
    unfold safeLimit limitBits exponentUnit at *
    omega
  | succ shift =>
    have four : 2 ^ 2 ≤ 2 ^ (shift + 1 + 1) := Nat.pow_le_pow_right (by decide) (by omega)
    have product : exponentUnit * 2 ^ 2 ≤
        (bits % exponentUnit + exponentUnit) * 2 ^ (shift + 1 + 1) :=
      Nat.mul_le_mul (Nat.le_add_left _ _) four
    apply Nat.lt_of_lt_of_le _ product
    decide

private theorem integer?_beyond (negative : Bool) {bits : Nat} (beyond : limitBits < bits)
    (most : bits ≤ infinityBits) : integer? (ofSignedBits negative bits) = none := by
  rcases Nat.lt_or_eq_of_le most with finite | rfl
  · have normal : ¬bits < exponentUnit := by
      unfold limitBits exponentUnit at *
      omega
    obtain ⟨magnitude, whole, large⟩ := wholeMagnitude?_beyond beyond
    unfold integer?
    rw [form_ofSignedBits negative finite, if_neg normal]
    simp only [whole]
    rw [if_neg (Nat.not_le_of_lt large)]
  · cases negative <;> decide +kernel

private theorem le_round (r : Ratio) : r.numerator / r.denominator ≤ r.round := by
  unfold Ratio.round
  dsimp only
  split
  · exact Nat.le_refl _
  · split
    · exact Nat.le_succ _
    · exact Nat.le_add_right _ _

private theorem limitBits_lt_nearestBits {magnitude : Nat} (beyond : safeLimit + 1 < magnitude) :
    limitBits < (Ratio.mk magnitude 1).nearestBits := by
  have positive : magnitude ≠ 0 := by omega
  have digits : 53 ≤ magnitude.log2 := by
    apply (Nat.le_log2 positive).mpr
    unfold safeLimit at beyond
    omega
  obtain ⟨shift, size⟩ : ∃ shift, magnitude.log2 = 53 + shift := Nat.exists_eq_add_of_le digits
  have unit : (Ratio.mk magnitude 1).unitExponent = ((shift + 1 : Nat) : Int) := by
    unfold Ratio.unitExponent Ratio.binaryMagnitude
    rw [if_pos (Nat.one_le_iff_ne_zero.mpr positive), Nat.div_one, size]
    omega
  have scaled : Ratio.scaleDown 2 ⟨magnitude, 1⟩ ((shift + 1 : Nat) : Int) =
      ⟨magnitude, 2 ^ (shift + 1)⟩ := by
    change Ratio.mk magnitude (1 * 2 ^ (shift + 1)) = _
    rw [Nat.one_mul]
  have rounded := le_round ⟨magnitude, 2 ^ (shift + 1)⟩
  have counted : (((shift + 1 : Nat) : Int) + 1074).toNat = shift + 1075 := by omega
  unfold Ratio.nearestBits packed
  rw [if_neg positive, unit, scaled, counted]
  apply Nat.lt_min.mpr
  refine ⟨?_, by decide⟩
  cases shift with
  | zero =>
    -- The unit is two, and half the magnitude is past half the limit.
    unfold limitBits safeLimit exponentUnit at *
    dsimp only at rounded
    omega
  | succ shift =>
    have full : exponentUnit ≤ magnitude / 2 ^ (shift + 1 + 1) := by
      apply (Nat.le_div_iff_mul_le (Nat.two_pow_pos _)).mpr
      have least := Nat.log2_self_le positive
      have places : 53 + (shift + 1) = 52 + (shift + 1 + 1) := by omega
      rwa [size, places, Nat.pow_add] at least
    unfold limitBits exponentUnit at *
    dsimp only at rounded
    omega

theorem integer?_ofInteger_cases (n : Int) :
    integer? (ofInteger n) =
      if n.natAbs ≤ safeLimit then some n
      else if n.natAbs = safeLimit + 1 then some (n.sign * safeLimit)
      else none := by
  split_ifs with safe next
  · exact integer?_ofInteger safe
  · rcases Int.natAbs_eq n with positive | negative
    · rw [positive, next]
      decide +kernel
    · rw [negative, next]
      decide +kernel
  · apply integer?_beyond
    · apply limitBits_lt_nearestBits
      omega
    · unfold Ratio.nearestBits packed
      split
      · exact Nat.zero_le _
      · exact Nat.min_le_right _ _

end Number

variable {φ : Type}

/-- The value of an integer is converted back to the integer, and has it as its document, up to the
limit. The integer next to the limit, of either sign, is changed to the limit. Beyond, conversion
fails, and the document is no integer. -/
theorem integer_changed_only_next_to_limit (n : Int) :
    let v : Value φ := .ofInt n
    (.ofJson (.number (.integer n)) : Value φ) = v ∧
    (n.natAbs ≤ Number.safeLimit →
      Shape.integer.fromValue v = .ok n ∧ v.toJson? = some (.number (.integer n))) ∧
    (n.natAbs = Number.safeLimit + 1 →
      Shape.integer.fromValue v = .ok (n.sign * Number.safeLimit : Int) ∧
        v.toJson? = some (.number (.integer (n.sign * Number.safeLimit)))) ∧
    (Number.safeLimit + 1 < n.natAbs →
      Shape.integer.fromValue v = .error ⟨"integer", "number"⟩ ∧
        ∀ m, v.toJson? ≠ some (.number (.integer m))) := by
  intro v
  have read := Number.integer?_ofInteger_cases n
  have written : v.toJson? = some (.ofFloat (Number.ofInteger n)) := rfl
  unfold Json.ofFloat at written
  refine ⟨rfl, ?_, ?_, ?_⟩
  · intro safe
    rw [if_pos safe] at read
    rw [written, read]
    exact ⟨Shape.fromValue_whole read, rfl⟩
  · intro next
    rw [if_neg (by omega), if_pos next] at read
    rw [written, read]
    exact ⟨Shape.fromValue_whole read, rfl⟩
  · intro beyond
    rw [if_neg (by omega), if_neg (by omega)] at read
    rw [written, read]
    refine ⟨Shape.fromValue_notWhole read, fun m => ?_⟩
    dsimp only
    split <;> simp

/-- The integer next to the limit is returned as another one. -/
theorem integer_next_to_limit_changed :
    Shape.integer.fromValue (.ofJson (.number (.integer 9007199254740993)) : Value Empty) =
      .ok (9007199254740992 : Int) := by
  rfl

end JsonScript
