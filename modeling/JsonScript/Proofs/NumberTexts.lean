import JsonScript.Json.Basic
import JsonScript.Proofs.Decimals
import JsonScript.Proofs.Reading

/-!
Numbers are read as they were written.

An integer is written with its digits. A double is written with the digits of its shortest decimal,
set around a point or in front of an exponent. However they are set, the number that is read is the
decimal, and the decimal is in the interval of the double.
-/

set_option autoImplicit false
set_option relaxedAutoImplicit false

namespace JsonScript

namespace Number

theorem digitsValue_toDigits (n : Nat) : digitsValue (Nat.toDigits 10 n) = n :=
  Nat.ofDigitChars_ten_toDigits

theorem digitsValue_append (first second : List Char) :
    digitsValue (first ++ second) =
      10 ^ second.length * digitsValue first + digitsValue second := by
  change Nat.ofDigitChars 10 (first ++ second) 0 = _
  rw [Nat.ofDigitChars_append, Nat.ofDigitChars_eq_ofDigitChars_zero]
  rfl

theorem digitsValue_zeros (count : Nat) : digitsValue (List.replicate count '0') = 0 :=
  Nat.ofDigitChars_replicate_zero

private theorem isDigit_toDigits {n : Nat} : ∀ c ∈ Nat.toDigits 10 n, c.isDigit = true :=
  fun _ member => Nat.isDigit_of_mem_toDigits (by decide) (by decide) member

private theorem isDigit_zeros {count : Nat} : ∀ c ∈ List.replicate count '0', c.isDigit = true := by
  intro c member
  rw [List.eq_of_mem_replicate member]
  rfl

private theorem toDigits_head {n : Nat} (positive : 0 < n) :
    ∃ c rest, Nat.toDigits 10 n = c :: rest ∧ c ≠ '0' := by
  induction n using Nat.strongRecOn with
  | ind n ih =>
    rw [Nat.toDigits_eq_if (by decide)]
    split
    · rename_i small
      refine ⟨_, [], rfl, ?_⟩
      interval_cases n <;> decide
    · obtain ⟨c, rest, split, solid⟩ := ih (n / 10) (by omega) (by omega)
      exact ⟨c, _, by rw [split]; rfl, solid⟩

private theorem toList_toString (n : Nat) : (toString n).toList = Nat.toDigits 10 n := by
  rw [Nat.toString_eq_ofList_toDigits, String.toList_ofList]

private theorem length_toString (n : Nat) :
    (toString n).length = (Nat.toDigits 10 n).length := by
  rw [← String.length_toList, toList_toString]

end Number

namespace Numeral

open Number

private def signText (negative : Bool) : List Char :=
  if negative then ['-'] else []

private theorem toList_toString_int (n : Int) :
    (toString n).toList = signText (decide (n < 0)) ++ Nat.toDigits 10 n.natAbs := by
  rw [Int.toString_eq_repr, Int.repr_eq_if]
  split
  · rename_i nonnegative
    have same : n.toNat = n.natAbs := by omega
    simp [signText, not_lt.mpr nonnegative, Nat.repr_eq_ofList_toDigits, same]
  · rename_i negative
    have same : (-n).toNat = n.natAbs := by omega
    simp [signText, not_le.mp negative, Nat.repr_eq_ofList_toDigits, same]

namespace Partial

private theorem reads?_run (state : List Char → Partial) {digits : List Char}
    (goes : ∀ read c rest, digits = read ++ c :: rest →
      (state read).advance c = .more (state (read ++ [c])))
    {read rest : List Char} (parts : digits = read ++ rest) :
    (state read).reads? rest = some (state digits) := by
  induction rest generalizing read with
  | nil => rw [parts, List.append_nil, reads?]
  | cons c rest ih =>
    rw [reads?_cons (goes read c rest parts)]
    exact ih (by simp [parts])

/-- The digits before a point: a zero stands only alone. -/
private inductive IsWhole : List Char → Prop where
  | zero : IsWhole ['0']
  | number {c : Char} {rest : List Char} (solid : c ≠ '0')
      (digits : ∀ d ∈ c :: rest, d.isDigit = true) : IsWhole (c :: rest)

private theorem isWhole_toDigits (n : Nat) : IsWhole (Nat.toDigits 10 n) := by
  by_cases zero : n = 0
  · rw [zero, Nat.toDigits_zero]
    exact .zero
  · obtain ⟨c, rest, digits, solid⟩ := toDigits_head (Nat.pos_of_ne_zero zero)
    have each := @isDigit_toDigits n
    rw [digits] at each ⊢
    exact .number solid each

private theorem of?_whole {whole : List Char} (number : IsWhole whole) (negative : Bool) :
    ∃ stage, (stage = .zero ∨ stage = .whole) ∧ of? (signText negative ++ whole) =
      some { negative := negative, whole := whole.reverse, stage := stage } := by
  cases number with
  | zero => exact ⟨.zero, .inl rfl, by cases negative <;> rfl⟩
  | @number c rest solid digits =>
    refine ⟨.whole, .inr rfl, ?_⟩
    have digit : c.isDigit = true := digits c List.mem_cons_self
    have unsigned : c ≠ '-' := by
      rintro rfl
      cases digit
    let state (read : List Char) : Partial :=
      { negative := negative, whole := read.reverse, stage := .whole }
    have collected : (state [c]).reads? rest = some (state (c :: rest)) := by
      have run : c :: rest = [c] ++ rest := rfl
      refine reads?_run state (fun read d later parts => ?_) run
      have next : d.isDigit = true := digits d (by simp [parts])
      simp [state, advance, next]
    cases negative with
    | false =>
      change (start? c).bind (·.reads? rest) = _
      rw [start?, if_neg unsigned, if_neg solid, if_pos digit]
      exact collected
    | true =>
      change reads? { negative := true, stage := .sign } (c :: rest) = _
      have first : advance { negative := true, stage := .sign } c = .more (state [c]) := by
        simp [state, advance, solid, digit]
      rw [reads?_cons first, collected]

private theorem reads?_fraction {p : Partial} (stage : p.stage = .zero ∨ p.stage = .whole)
    {digits : List Char} (some : digits ≠ []) (each : ∀ c ∈ digits, c.isDigit = true) :
    p.reads? ('.' :: digits) =
      Option.some { p with fraction := digits.reverse, stage := .fraction } := by
  obtain ⟨c, rest, rfl⟩ := List.exists_cons_of_ne_nil some
  have point : p.advance '.' = .more { p with stage := .point } := by
    rcases stage with stage | stage <;> simp [advance, stage, Char.isDigit]
  have first : advance { p with stage := .point } c =
      .more { p with fraction := [c], stage := .fraction } := by
    simp [advance, each c List.mem_cons_self]
  rw [reads?_cons point, reads?_cons first]
  let state (read : List Char) : Partial :=
    { p with fraction := read.reverse, stage := .fraction }
  have run : c :: rest = [c] ++ rest := rfl
  refine reads?_run state (fun read d later parts => ?_) run
  have next : d.isDigit = true := each d (by simp [parts])
  simp [state, advance, next]

private theorem reads?_exponent {p : Partial}
    (stage : p.stage = .zero ∨ p.stage = .whole ∨ p.stage = .fraction)
    (unsigned : p.exponentNegative = false) {e : Int} (small : e.natAbs < 0x80000000) :
    p.reads? ('e' :: (if e < 0 then '-' else '+') :: Nat.toDigits 10 e.natAbs) =
      some { p with
        exponentNegative := decide (e < 0)
        exponent := (Nat.toDigits 10 e.natAbs).reverse
        stage := .exponent } := by
  have each := @isDigit_toDigits e.natAbs
  have value := digitsValue_toDigits e.natAbs
  obtain ⟨c, rest, digits⟩ := List.exists_cons_of_ne_nil (@Nat.toDigits_ne_nil e.natAbs 10)
  rw [digits] at each value ⊢
  let state (read : List Char) : Partial :=
    { p with exponentNegative := decide (e < 0), exponent := read.reverse, stage := .exponent }
  have mark : p.advance 'e' = .more { p with stage := .mark } := by
    rcases stage with stage | stage | stage <;> simp [advance, stage, Char.isDigit]
  have sign : advance { p with stage := .mark } (if e < 0 then '-' else '+') =
      .more { p with exponentNegative := decide (e < 0), stage := .exponentSign } := by
    by_cases negative : e < 0
    · simp [advance, negative, Char.isDigit]
    · simp [advance, negative, unsigned, Char.isDigit]
  have first : advance { p with exponentNegative := decide (e < 0), stage := .exponentSign } c =
      .more (state [c]) := by
    simp [state, advance, each c List.mem_cons_self]
  rw [reads?_cons mark, reads?_cons sign, reads?_cons first]
  have run : c :: rest = [c] ++ rest := rfl
  refine reads?_run state (fun read d later parts => ?_) run
  -- No part of a small exponent is out of range.
  have next : d.isDigit = true := each d (by simp [parts])
  have bounded : digitsValue (read ++ [d]) < 0x80000000 := by
    have joined : c :: rest = (read ++ [d]) ++ later := by simp [parts]
    rw [joined, digitsValue_append] at value
    have power : 0 < 10 ^ later.length := Nat.pow_pos (by decide)
    have least := Nat.le_mul_of_pos_left (digitsValue (read ++ [d])) power
    omega
  have collected : (state read).advance d = withExponent (state (read ++ [d])) := by
    simp [advance, state, next]
  have hopeful : isHopeless (state (read ++ [d])) = false := by
    simp [isHopeless, writtenExponent, state, bounded]
  rw [collected, withExponent, hopeful]
  rfl

private theorem finish?_integer {p : Partial} (stage : p.stage = .zero ∨ p.stage = .whole) {n : Int}
    (sign : p.negative = decide (n < 0)) (value : digitsValue p.whole.reverse = n.natAbs)
    (least : -0x8000000000000000 ≤ n) (greatest : n < 0x10000000000000000) :
    p.finish? = some (.integer n) := by
  by_cases negative : n < 0
  · have magnitude : -(n.natAbs : Int) = n := by omega
    have fitting : 0 < n.natAbs ∧ n.natAbs ≤ 0x8000000000000000 := by omega
    simp only [finish?, stage, sign, value, fits, negative, fitting, magnitude, decide_true,
      and_self, if_true]
  · have magnitude : (n.natAbs : Int) = n := by omega
    have fitting : n.natAbs < 0x10000000000000000 := by omega
    simp only [finish?, stage, sign, value, fits, negative, fitting, magnitude, decide_true,
      decide_false, Bool.false_eq_true, and_self, if_true, if_false]

private theorem finish?_float {p : Partial} (stage : p.stage = .fraction ∨ p.stage = .exponent)
    {x : Float} (value : p.written.toFloat = x) (finite : isFinite x = true) :
    p.finish? = some (.float x) := by
  have fractional : ¬(p.stage = .zero ∨ p.stage = .whole) := by
    rcases stage with stage | stage <;> simp [stage]
  simp only [finish?, fractional, false_and, if_false, value, finite, if_true]

end Partial

open Partial

theorem SpelledBy.integer {n : Int} (least : -0x8000000000000000 ≤ n)
    (greatest : n < 0x10000000000000000) :
    (Numeral.integer n).SpelledBy (toString n).toList := by
  obtain ⟨stage, stages, read⟩ := of?_whole (isWhole_toDigits n.natAbs) (decide (n < 0))
  rw [toList_toString_int]
  refine ⟨_, read, ?_, finish?_integer stages rfl ?_ least greatest⟩
  · rcases stages with rfl | rfl <;> rfl
  · rw [List.reverse_reverse, digitsValue_toDigits]

/-- With any sign in front, the characters are read as a number with a fraction or an exponent, of
the given magnitude. -/
private def ReadAs (value : ℚ) (cs : List Char) : Prop :=
  ∀ negative, ∃ p, Partial.of? (signText negative ++ cs) = some p ∧
    (p.stage = .fraction ∨ p.stage = .exponent) ∧ p.negative = negative ∧ p.written.value = value

private theorem readAs_fraction {whole fraction : List Char} (number : IsWhole whole)
    (some : fraction ≠ []) (each : ∀ c ∈ fraction, c.isDigit = true) :
    ReadAs (digitsValue (whole ++ fraction) * 10 ^ (-(fraction.length : Int)))
      (whole ++ '.' :: fraction) := by
  intro negative
  obtain ⟨stage, stages, begun⟩ := of?_whole number negative
  have read := (of?_append begun ('.' :: fraction)).trans (reads?_fraction stages some each)
  rw [List.append_assoc] at read
  refine ⟨_, read, .inl rfl, rfl, ?_⟩
  simp [Written.value, written, significand, writtenExponent, digitsValue]

private theorem readAs_leadingZeros (n count : Nat) :
    ReadAs (n * 10 ^ (-(count : Int) - (Nat.toDigits 10 n).length))
      ('0' :: '.' :: (List.replicate count '0' ++ Nat.toDigits 10 n)) := by
  have some : List.replicate count '0' ++ Nat.toDigits 10 n ≠ [] := by simp [Nat.toDigits_ne_nil]
  have each : ∀ c ∈ List.replicate count '0' ++ Nat.toDigits 10 n, c.isDigit = true :=
    List.forall_mem_append.mpr ⟨isDigit_zeros, isDigit_toDigits⟩
  have read := readAs_fraction .zero some each
  have value : digitsValue (['0'] ++ (List.replicate count '0' ++ Nat.toDigits 10 n)) = n := by
    rw [digitsValue_append, digitsValue_append, digitsValue_zeros, digitsValue_toDigits]
    simp [digitsValue]
  have length : -((List.replicate count '0' ++ Nat.toDigits 10 n).length : Int) =
      -(count : Int) - (Nat.toDigits 10 n).length := by
    rw [List.length_append, List.length_replicate]
    omega
  rwa [value, length] at read

private theorem readAs_inside {n : Nat} (positive : 0 < n) {whole : Nat} (some : whole ≠ 0)
    (inside : whole < (Nat.toDigits 10 n).length) :
    ReadAs (n * 10 ^ ((whole : Int) - (Nat.toDigits 10 n).length))
      ((Nat.toDigits 10 n).take whole ++ '.' :: (Nat.toDigits 10 n).drop whole) := by
  have each := @isDigit_toDigits n
  have number : IsWhole ((Nat.toDigits 10 n).take whole) := by
    obtain ⟨c, rest, digits, solid⟩ := toDigits_head positive
    obtain ⟨less, rfl⟩ := Nat.exists_eq_succ_of_ne_zero some
    rw [digits] at each ⊢
    rw [List.take_succ_cons]
    refine .number solid fun d member => each d ?_
    exact List.cons_subset_cons c (List.take_subset less rest) member
  have later : (Nat.toDigits 10 n).drop whole ≠ [] := by simpa using inside
  have read := readAs_fraction number later fun c member => each c (List.mem_of_mem_drop member)
  have length : -(((Nat.toDigits 10 n).drop whole).length : Int) =
      (whole : Int) - (Nat.toDigits 10 n).length := by
    rw [List.length_drop]
    omega
  rwa [List.take_append_drop, digitsValue_toDigits, length] at read

private theorem readAs_trailingZeros {n : Nat} (positive : 0 < n) (count : Nat) :
    ReadAs (n * 10 ^ (count : Int))
      (Nat.toDigits 10 n ++ List.replicate count '0' ++ ['.', '0']) := by
  have number : IsWhole (Nat.toDigits 10 n ++ List.replicate count '0') := by
    have each : ∀ c ∈ Nat.toDigits 10 n ++ List.replicate count '0', c.isDigit = true :=
      List.forall_mem_append.mpr ⟨isDigit_toDigits, isDigit_zeros⟩
    obtain ⟨c, rest, digits, solid⟩ := toDigits_head positive
    rw [digits] at each ⊢
    exact .number solid each
  have read := readAs_fraction number (List.cons_ne_nil '0' []) (by simp)
  have value : (digitsValue (Nat.toDigits 10 n ++ List.replicate count '0' ++ ['0']) : ℚ) *
      10 ^ (-(['0'].length : Int)) = n * 10 ^ (count : Int) := by
    have last : digitsValue ['0'] = 0 := rfl
    rw [digitsValue_append, digitsValue_append, digitsValue_zeros, digitsValue_toDigits, last,
      List.length_replicate, List.length_singleton, Nat.cast_one, zpow_neg_one, zpow_natCast]
    push_cast
    ring
  rwa [value] at read

private theorem readAs_positional {n : Nat} (positive : 0 < n) (point : Int) :
    ReadAs (n * 10 ^ (point - (Nat.toDigits 10 n).length))
      (positional (toString n) point).toList := by
  unfold positional
  split
  · rename_i whole
    split
    · rename_i none
      simpa [none, toList_toString] using readAs_leadingZeros n 0
    · rename_i some
      rw [length_toString]
      split
      · rename_i inside
        simpa [toList_toString] using readAs_inside positive some inside
      · rename_i beyond
        have read := readAs_trailingZeros positive (whole - (Nat.toDigits 10 n).length)
        have count : ((whole - (Nat.toDigits 10 n).length : Nat) : Int) =
            whole - (Nat.toDigits 10 n).length := by omega
        rw [count] at read
        simpa [toList_toString, zeros] using read
  · rename_i below
    have point : Int.negSucc below = -((below + 1 : Nat) : Int) := rfl
    have read := readAs_leadingZeros n (below + 1)
    rw [← point] at read
    simpa [toList_toString, zeros] using read

private def pointed : List Char → List Char
  | [] => []
  | next :: rest => '.' :: next :: rest

private theorem of?_mantissa {c : Char} {rest : List Char} (solid : c ≠ '0')
    (each : ∀ d ∈ c :: rest, d.isDigit = true) (negative : Bool) :
    ∃ stage, (stage = .zero ∨ stage = .whole ∨ stage = .fraction) ∧
      of? (signText negative ++ c :: pointed rest) =
        some { negative := negative, whole := [c], fraction := rest.reverse, stage := stage } := by
  obtain ⟨first, later⟩ := List.forall_mem_cons.mp each
  have number : IsWhole [c] := .number solid (by simpa using first)
  obtain ⟨stage, stages, begun⟩ := of?_whole number negative
  cases rest with
  | nil => exact ⟨stage, stages.imp_right .inl, begun⟩
  | cons next rest =>
    refine ⟨.fraction, .inr (.inr rfl), ?_⟩
    have read := (of?_append begun ('.' :: next :: rest)).trans
      (reads?_fraction stages (List.cons_ne_nil next rest) later)
    rwa [List.append_assoc] at read

private theorem readAs_scientific {n : Nat} (positive : 0 < n) {exponent : Int}
    (small : exponent.natAbs < 0x80000000) :
    ReadAs (n * 10 ^ (exponent + 1 - (Nat.toDigits 10 n).length))
      (scientific "+" (toString n) exponent).toList := by
  intro negative
  have each := @isDigit_toDigits n
  have value := digitsValue_toDigits n
  obtain ⟨c, rest, digits, solid⟩ := toDigits_head positive
  rw [digits] at each value
  obtain ⟨stage, stages, begun⟩ := of?_mantissa solid each negative
  have text : (scientific "+" (toString n) exponent).toList = (c :: pointed rest) ++
      'e' :: (if exponent < 0 then '-' else '+') :: Nat.toDigits 10 exponent.natAbs := by
    have signed : ((if exponent < 0 then "" else "+") ++ toString exponent).toList =
        (if exponent < 0 then '-' else '+') :: Nat.toDigits 10 exponent.natAbs := by
      rw [String.toList_append, toList_toString_int]
      by_cases below : exponent < 0 <;> simp [below, signText]
    unfold scientific
    rw [← signed, toList_toString, digits]
    cases rest <;> simp [pointed, digits]
  have read := (of?_append begun _).trans (reads?_exponent stages rfl small)
  rw [List.append_assoc, ← text] at read
  refine ⟨_, read, .inr rfl, rfl, ?_⟩
  have shift : (if decide (exponent < 0) then -(exponent.natAbs : Int) else exponent.natAbs) -
      rest.length = exponent + 1 - (c :: rest).length := by
    rw [List.length_cons]
    by_cases below : exponent < 0
    · simp only [below, decide_true, if_true]
      omega
    · simp only [below, decide_false, Bool.false_eq_true, if_false]
      omega
  rw [digits, ← shift, ← value]
  simp only [Written.value, written, significand, writtenExponent, List.reverse_reverse,
    digitsValue_toDigits, List.length_reverse]
  rfl

private theorem readAs_decimal {d : Decimal} (positive : 0 < d.digits)
    (least : -330 ≤ ((Nat.toDigits 10 d.digits).length : Int) + d.exponent)
    (greatest : ((Nat.toDigits 10 d.digits).length : Int) + d.exponent ≤ 310) :
    ReadAs d.value (layout.decimal d).toList := by
  unfold Layout.decimal
  dsimp only
  rw [length_toString]
  split
  · have read := readAs_positional positive
      (((Nat.toDigits 10 d.digits).length : Int) + d.exponent)
    rwa [add_sub_cancel_left] at read
  · have read := @readAs_scientific _ positive
      (((Nat.toDigits 10 d.digits).length : Int) + d.exponent - 1) (by omega)
    rwa [sub_add_cancel, add_sub_cancel_left] at read

theorem SpelledBy.float {x : Float} {negative : Bool} {significand : Nat} {exponent : Int}
    (shown : form x = .finite negative significand exponent) (positive : 0 < significand) :
    (Numeral.float x).SpelledBy (Numeral.float x).render.toList := by
  have canonical := (bits_of_form shown).1
  have finite : isFinite x = true := by
    rw [isFinite, shown]
  have text : (Numeral.float x).render.toList =
      signText negative ++ (layout.decimal (shortest .toEven significand exponent)).toList := by
    rw [render, if_pos finite, Layout.text, shown]
    simp only [Nat.pos_iff_ne_zero.mp positive, if_false]
    cases negative <;> simp [signText, layout]
  have rounds := shortest_roundsTo canonical positive .toEven
  let written : Written := ⟨negative, (shortest .toEven significand exponent).digits,
    (shortest .toEven significand exponent).exponent⟩
  obtain ⟨some, least, greatest⟩ :=
    @Written.size_of_roundsTo _ _ canonical positive (exponent_le_of_form shown) written rounds
  obtain ⟨p, read, stage, sign, value⟩ :=
    readAs_decimal (Nat.pos_of_ne_zero some) least greatest negative
  rw [← value] at rounds
  rw [← sign] at shown
  rw [text]
  refine ⟨p, read, ?_, finish?_float stage (toFloat_of_roundsTo shown positive rounds) finite⟩
  rcases stage with stage | stage <;> simp [isComplete, stage]

end Numeral

end JsonScript
