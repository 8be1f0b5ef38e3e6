import JsonScript.Proofs.Connectives
import JsonScript.Proofs.PanicFree
import JsonScript.Proofs.Pulls

/-!
Arithmetic on operands.

The operators evaluate, check and combine their operands one after the other. The first operand that
is wrong, in whatever way, decides how the call fails, and the operands after it are not evaluated.
If none is wrong, the call gives what the operator makes of their numbers.
-/

set_option autoImplicit false
set_option relaxedAutoImplicit false

namespace JsonScript

open Evaluator

variable {φ ε : Type}

namespace Boxes

/-- The operators of the arithmetic box. -/
inductive Operator where
  | sum
  | product
  | difference
  | quotient
  deriving DecidableEq

namespace Operator

def name : Operator → String
  | .sum => "+"
  | .product => "*"
  | .difference => "-"
  | .quotient => "/"

def native : Operator → Native φ ε
  | .sum => add
  | .product => multiply
  | .difference => subtract
  | .quotient => divide

def apply : Operator → Float → Float → Float
  | .sum, x, y => x + y
  | .product, x, y => x * y
  | .difference, x, y => x - y
  | .quotient, x, y => x / y

/-- What the operator makes of numbers, from left to right. A sum starts from zero and a product
from one, the others from the first number, and a difference of a single number negates it. -/
def total? : Operator → List Float → Option Float
  | .sum, xs => some (xs.foldl sum.apply 0.0)
  | .product, xs => some (xs.foldl product.apply 1.0)
  | .difference, [] => none
  | .difference, [x] => some (-x)
  | .difference, x :: xs => some (xs.foldl difference.apply x)
  | .quotient, [] => none
  | .quotient, x :: xs => some (xs.foldl quotient.apply x)

/-- Whether the number cannot be the operand at the position: nothing is divided by a zero. -/
def refuses : Operator → Nat → Float → Bool
  | .quotient, index, x => decide (2 ≤ index) && x == 0.0
  | _, _, _ => false

/-- How the operator combines what it has so far with the next number. -/
def combine : Operator → Float → Float → Except String Float
  | .sum => plus
  | .product => times
  | .difference => minus
  | .quotient => dividedBy

theorem combine_eq {op : Operator} {index : Nat} (later : op = .quotient → 2 ≤ index)
    (total x : Float) :
    op.combine total x =
      if op.refuses index x then .error "division by zero" else .ok (op.apply total x) := by
  cases op with
  | sum | product | difference => rfl
  | quotient => simp [combine, dividedBy, refuses, later rfl, apply]

theorem refuses_first (op : Operator) (x : Float) : op.refuses 1 x = false := by
  cases op <;> rfl

theorem standard_find? [BEq φ] (op : Operator) :
    (standard : Sandbox φ ε).find? op.name = some (.callable op.native) := by
  apply standard_arithmetic
  cases op <;> simp [name, native]

end Operator

end Boxes

open Boxes (Operator)

private theorem exists_argument {nodes : List Json} {index : Nat} (positive : 0 < index)
    (within : index ≤ nodes.length) : ∃ node, argumentAt? nodes index = some node := by
  cases found : argumentAt? nodes index with
  | some node => exact ⟨node, rfl⟩
  | none =>
    have := argumentAt?_absent found
    omega

section Operands

variable [Callable φ ε] (setup : Setup φ ε) (inner : InnerRun φ) (nodes : List Json)
  (address : Address) (op : Operator)

/-- `Counts index w xs u`: the operands from the position on are evaluated in order, each from the
state that the one before has left, and they are the numbers `xs`. None of them is refused. -/
inductive Counts : Nat → World ε → List Float → World ε → Prop where
  | nil {index : Nat} {w : World ε} : Counts index w [] w
  | cons {index : Nat} {node : Json} {x : Float} {xs : List Float} {w between u : World ε}
      (taken : argumentAt? nodes index = some node)
      (evaluated : evaluate setup inner node (index :: address) w =
        (.returned (.ok (.number x)), between))
      (accepted : op.refuses index x = false) (rest : Counts (index + 1) between xs u) :
      Counts index w (x :: xs) u

/-- `Offends stack index w halt u`: the operand at the position stops the call that has the stack.
It is stopped itself, or it is no number, or it is a number that is refused. -/
inductive Offends (stack : Stack) (index : Nat) (w : World ε) : Halt → World ε → Prop where
  | halted {node : Json} {halt : Halt} {u : World ε}
      (taken : argumentAt? nodes index = some node)
      (evaluated : evaluate setup inner node (index :: address) w = (halt.ending, u)) :
      Offends stack index w halt u
  | noNumber {node : Json} {v : Value φ} {u : World ε}
      (taken : argumentAt? nodes index = some node)
      (evaluated : evaluate setup inner node (index :: address) w = (.returned (.ok v), u))
      (other : ∀ x, v ≠ .number x) :
      Offends stack index w
        (.failed ⟨.argumentType op.name index ⟨"number", v.typeName⟩, stack⟩) u
  | refused {node : Json} {x : Float} {u : World ε}
      (taken : argumentAt? nodes index = some node)
      (evaluated : evaluate setup inner node (index :: address) w =
        (.returned (.ok (.number x)), u))
      (refuses : op.refuses index x = true) :
      Offends stack index w (.failed ⟨.native "division by zero", stack⟩) u

/-- `Reckons stack w ending u count`: in a call that has the stack, the operator evaluates so many
operands from the state `w` on, and the call ends in the state `u`. All operands count, or the one
that the operator needs is missing, or the first that does not count stops the call. -/
inductive Reckons (stack : Stack) (w : World ε) : Ending (Outcome φ) → World ε → Nat → Prop where
  | total {xs : List Float} {x : Float} {u : World ε}
      (counts : Counts setup inner nodes address op 1 w xs u) (all : xs.length = nodes.length)
      (total : op.total? xs = some x) :
      Reckons stack w (.returned (.ok (.number x))) u nodes.length
  | missing (nothing : nodes = []) (needed : op.total? [] = none) :
      Reckons stack w (.returned (.error ⟨.missingArgument op.name 1, stack⟩)) w 0
  | stopped {xs : List Float} {halt : Halt} {between u : World ε}
      (counts : Counts setup inner nodes address op 1 w xs between)
      (offends : Offends setup inner nodes address op stack (xs.length + 1) between halt u) :
      Reckons stack w halt.ending u (xs.length + 1)

/-- `Folds stack index count total w e`: so many operands from the position on are combined with the
total so far, or the first of them that does not count stops the call. -/
private inductive Folds (stack : Stack) (index count : Nat) (total : Float) (w : World ε) :
    Ending (Except Failure Float) × World ε → Prop where
  | through {xs : List Float} {u : World ε}
      (counts : Counts setup inner nodes address op index w xs u) (all : xs.length = count) :
      Folds stack index count total w (.returned (.ok (xs.foldl op.apply total)), u)
  | stopped {xs : List Float} {halt : Halt} {between u : World ε}
      (counts : Counts setup inner nodes address op index w xs between)
      (offends : Offends setup inner nodes address op stack (index + xs.length) between halt u) :
      Folds stack index count total w (halt.ending, u)

variable {setup inner nodes address op}

private theorem Counts.reads {index : Nat} {w u : World ε} {xs : List Float}
    (counts : Counts setup inner nodes address op index w xs u) :
    Reads address w u (List.range' index xs.length) := by
  induction counts with
  | nil => exact .of_passages_eq rfl
  | @cons index node x xs w between u taken evaluated accepted rest ih =>
    have read := evaluate_reads setup inner node index address w
    rw [evaluated] at read
    rw [List.length_cons, List.range'_succ]
    exact read.trans ih

private theorem Offends.reads {stack : Stack} {index : Nat} {w u : World ε} {halt : Halt}
    (offends : Offends setup inner nodes address op stack index w halt u) :
    Reads address w u [index] := by
  cases offends with
  | @halted node _ _ taken evaluated | @noNumber node _ _ taken evaluated
  | @refused node _ _ taken evaluated =>
    have read := evaluate_reads setup inner node index address w
    rwa [evaluated] at read

private theorem Reckons.reads {stack : Stack} {w u : World ε} {ending : Ending (Outcome φ)}
    {count : Nat} (reckons : Reckons setup inner nodes address op stack w ending u count) :
    Reads address w u (List.range' 1 count) := by
  cases reckons with
  | total counts all =>
    rw [← all]
    exact counts.reads
  | missing => exact .of_passages_eq rfl
  | stopped counts offends =>
    rw [List.range'_concat, Nat.one_mul, Nat.add_comm 1]
    exact counts.reads.trans offends.reads

private theorem Reckons.stamped {stack : Stack} (inside : stack.isEmpty = false) {w u : World ε}
    {outcome : Outcome φ} {count : Nat}
    (reckons : Reckons setup inner nodes address op stack w (.returned outcome) u count)
    (current : Stack) : outcome.mapError (Failure.stamp current) = outcome := by
  have own (cause : Cause) : Failure.stamp current ⟨cause, stack⟩ = ⟨cause, stack⟩ :=
    Failure.stamp_of_nonempty inside current
  generalize same : Ending.returned outcome = ending at reckons
  cases reckons with
  | total counts all total =>
    cases same
    rfl
  | missing nothing needed =>
    cases same
    exact congrArg Except.error (own _)
  | @stopped xs halt between _ counts offends =>
    cases offends with
    | halted taken evaluated =>
      cases halt with
      | failed f =>
        cases same
        exact congrArg Except.error
          (Failure.stamp_of_nonempty (evaluate_fails_located evaluated) current)
      | unwound payload => cases same
      | exhausted => cases same
    | noNumber taken evaluated other =>
      cases same
      exact congrArg Except.error (own _)
    | refused taken evaluated refuses =>
      cases same
      exact congrArg Except.error (own _)

private theorem Folds.cons {stack : Stack} {index count : Nat} {node : Json} {x total : Float}
    {w between : World ε} {e : Ending (Except Failure Float) × World ε}
    (taken : argumentAt? nodes index = some node)
    (evaluated : evaluate setup inner node (index :: address) w =
      (.returned (.ok (.number x)), between))
    (accepted : op.refuses index x = false)
    (rest : Folds setup inner nodes address op stack (index + 1) count (op.apply total x) between
      e) :
    Folds setup inner nodes address op stack index (count + 1) total w e := by
  cases rest with
  | through counts all => exact .through (.cons taken evaluated accepted counts) (by simp [all])
  | @stopped xs halt between u counts offends =>
    refine .stopped (.cons taken evaluated accepted counts) ?_
    rwa [List.length_cons, Nat.add_comm xs.length, ← Nat.add_assoc]

private theorem Counts.append {index : Nat} {w between u : World ε} {xs ys : List Float}
    (first : Counts setup inner nodes address op index w xs between)
    (second : Counts setup inner nodes address op (index + xs.length) between ys u) :
    Counts setup inner nodes address op index w (xs ++ ys) u := by
  induction first with
  | nil => exact second
  | @cons index node x xs w _ between taken evaluated accepted rest ih =>
    rw [List.length_cons, Nat.add_comm xs.length, ← Nat.add_assoc] at second
    exact .cons taken evaluated accepted (ih second)

private theorem Folds.reckons {stack : Stack} {w between : World ε} {done : List Float}
    {count : Nat} {total : Float} {routine : Routine φ ε Float}
    (counts : Counts setup inner nodes address op 1 w done between)
    (folds : Folds setup inner nodes address op stack (1 + done.length) count total between
      (perform (callAnswers setup inner nodes address) routine.run between))
    (all : done.length + count = nodes.length)
    (totals : ∀ xs, xs.length = count →
      op.total? (done ++ xs) = some (xs.foldl op.apply total)) :
    ∃ ending u evaluated, Reckons setup inner nodes address op stack w ending u evaluated ∧
      perform (callAnswers setup inner nodes address)
        (do return .number (← routine) : Routine φ ε (Value φ)).run between = (ending, u) := by
  generalize performed : perform (callAnswers setup inner nodes address) routine.run between = e
    at folds
  cases folds with
  | @through xs u later length =>
    have whole : (done ++ xs).length = nodes.length := by rw [List.length_append, length, all]
    refine ⟨_, u, _, .total (counts.append later) whole (totals xs length), ?_⟩
    exact perform_bind_ok performed
  | @stopped xs halt _ u later offends =>
    have position : 1 + done.length + xs.length = (done ++ xs).length + 1 := by
      rw [List.length_append]
      omega
    rw [position] at offends
    exact ⟨_, u, _, .stopped (counts.append later) offends, perform_bind_halt performed⟩

section Performing

variable {calls : List Frame} (named : calls.head?.map Frame.label = some op.name)
  (settles : ∀ node address, (evaluate setup inner node address).Settles inner.CutsOff)

omit [Callable φ ε] in
include named in
private theorem label_in_call {w : World ε} (inCall : w.frames = calls) : w.label = op.name := by
  rw [World.label, inCall, named]
  rfl

include named settles

private theorem number_cases {index : Nat} {node : Json}
    (taken : argumentAt? nodes index = some node) {w : World ε} (inCall : w.frames = calls) :
    (∃ x u, evaluate setup inner node (index :: address) w = (.returned (.ok (.number x)), u) ∧
      u.frames = calls ∧
      perform (callAnswers setup inner nodes address) (Call.number index).run w =
        (.returned (.ok x), u)) ∨
    ∃ halt u, Offends setup inner nodes address op ⟨calls⟩ index w halt u ∧
      perform (callAnswers setup inner nodes address) (Call.number index).run w =
        (halt.ending, u) := by
  have settled := settles node (index :: address) w
  rcases step : evaluate setup inner node (index :: address) w with ⟨(f | v) | payload | _, u⟩
  · have stops : Stops setup inner nodes address index .number w (.failed f) u :=
      .argument taken step
    exact .inr ⟨.failed f, u, .halted taken step, stops.performed⟩
  · rw [step] at settled
    -- The call is the innermost one again, so a failure of the conversion names it.
    have restored : u.frames = calls := settled.frames_eq.trans inCall
    by_cases number : ∃ x, v = .number x
    · obtain ⟨x, rfl⟩ := number
      have gives : Gives setup inner nodes address index .number w x u :=
        .converted taken step nofun rfl
      exact .inl ⟨x, u, rfl, restored, gives.performed⟩
    · have other (x : Float) : v ≠ .number x := fun same => number ⟨x, same⟩
      have wrong : Shape.number.fromValue v = .error ⟨"number", v.typeName⟩ := by
        cases v with
        | number x => exact absurd rfl (other x)
        | null | bool | text | list | object | function => rfl
      have stops : Stops setup inner nodes address index .number w _ u :=
        .mismatch taken step wrong
      rw [label_in_call named restored, World.failure, World.stack, restored] at stops
      exact .inr ⟨_, u, .noNumber taken step other, stops.performed⟩
  · exact absurd (congrArg Prod.fst step) (settled.not_unwound payload)
  · have stops : Stops setup inner nodes address index .number w .exhausted u :=
      .argument taken step
    exact .inr ⟨.exhausted, u, .halted taken step, stops.performed⟩

variable (address) in
private theorem foldNumbers_folds {index count : Nat} (later : op = .quotient → 2 ≤ index)
    (positive : 0 < index) (within : index + count = nodes.length + 1) (total : Float)
    {w : World ε} (inCall : w.frames = calls) :
    Folds setup inner nodes address op ⟨calls⟩ index count total w
      (perform (callAnswers setup inner nodes address)
        (Boxes.foldNumbers op.combine total (List.range' index count)).run w) := by
  -- The operands that are left decrease; position, total so far and state change with each.
  induction count generalizing index total w with
  | zero => exact .through .nil rfl
  | succ count ih =>
    obtain ⟨node, taken⟩ : ∃ node, argumentAt? nodes index = some node :=
      exists_argument positive (by omega)
    rw [List.range'_succ, Boxes.foldNumbers]
    rcases number_cases named settles taken inCall with
      ⟨x, u, evaluated, restored, performed⟩ | ⟨halt, u, offends, performed⟩
    · rw [perform_bind_ok performed, Operator.combine_eq later]
      cases refuses : op.refuses index x with
      | true =>
        have failed : perform (callAnswers setup inner nodes address)
            (Call.error "division by zero" : Routine φ ε Float).run u =
              ((Halt.failed ⟨.native "division by zero", ⟨calls⟩⟩).ending, u) := by
          rw [← restored]
          rfl
        rw [if_pos rfl, failed]
        exact .stopped .nil (.refused taken evaluated refuses)
      | false =>
        rw [if_neg Bool.false_ne_true]
        refine .cons taken evaluated refuses (ih ?_ (Nat.succ_pos index) ?_ _ restored)
        · exact fun quotient => Nat.le_succ_of_le (later quotient)
        · omega
    · rw [perform_bind_halt performed]
      exact .stopped .nil offends

private theorem first_reckons {next : Float → Native φ ε} (needed : op.total? [] = none)
    {w : World ε} (inCall : w.frames = calls)
    (goesOn : ∀ x u, nodes ≠ [] → Counts setup inner nodes address op 1 w [x] u →
      u.frames = calls →
      ∃ ending last count, Reckons setup inner nodes address op ⟨calls⟩ w ending last count ∧
        perform (callAnswers setup inner nodes address) (next x).run u = (ending, last)) :
    ∃ ending last count, Reckons setup inner nodes address op ⟨calls⟩ w ending last count ∧
      perform (callAnswers setup inner nodes address) (Call.number 1 >>= next).run w =
        (ending, last) := by
  by_cases nothing : nodes = []
  · have absent : nodes.length < 1 := by simp [nothing]
    have stops : Stops setup inner nodes address 1 .number w _ w := .missing rfl absent
    rw [label_in_call named inCall, World.failure, World.stack, inCall] at stops
    exact ⟨_, w, 0, .missing nothing needed, perform_bind_halt stops.performed⟩
  · have within : 1 ≤ nodes.length := List.length_pos_iff.mpr nothing
    obtain ⟨node, taken⟩ := exists_argument Nat.one_pos within
    rcases number_cases named settles taken inCall with
      ⟨x, u, evaluated, restored, performed⟩ | ⟨halt, u, offends, performed⟩
    · rw [perform_bind_ok performed]
      exact goesOn x u nothing (.cons taken evaluated (op.refuses_first x) .nil) restored
    · exact ⟨_, u, _, .stopped .nil offends, perform_bind_halt performed⟩

private theorem rest_reckons {w u : World ε} {x : Float} (some : nodes ≠ [])
    (counts : Counts setup inner nodes address op 1 w [x] u) (restored : u.frames = calls)
    (totals : ∀ xs, xs.length + 1 = nodes.length →
      op.total? (x :: xs) = .some (xs.foldl op.apply x)) :
    ∃ ending last count, Reckons setup inner nodes address op ⟨calls⟩ w ending last count ∧
      perform (callAnswers setup inner nodes address) (Boxes.foldRest op.combine x).run u =
        (ending, last) := by
  have positive : 0 < nodes.length := List.length_pos_iff.mpr some
  have folds := foldNumbers_folds address named settles (fun _ => Nat.le_refl 2) Nat.two_pos
    (Nat.add_sub_of_le (Nat.succ_le_succ positive)) x restored
  refine Folds.reckons counts folds ?_ fun xs length => totals xs (by omega)
  rw [List.length_singleton]
  omega

private theorem native_reckons {w : World ε} (inCall : w.frames = calls) :
    ∃ ending last count, Reckons setup inner nodes address op ⟨calls⟩ w ending last count ∧
      perform (callAnswers setup inner nodes address) op.native.run w = (ending, last) := by
  have all : 1 + nodes.length = nodes.length + 1 := Nat.add_comm 1 _
  cases op with
  | sum =>
    have folds := foldNumbers_folds address named settles nofun Nat.one_pos all 0.0 inCall
    exact folds.reckons .nil (Nat.zero_add _) fun xs _ => rfl
  | product =>
    have folds := foldNumbers_folds address named settles nofun Nat.one_pos all 1.0 inCall
    exact folds.reckons .nil (Nat.zero_add _) fun xs _ => rfl
  | difference =>
    refine first_reckons named settles rfl inCall fun x u some counts restored => ?_
    -- The number of operands matters only once the first is there.
    change ∃ ending last count, _ ∧ perform _ (if nodes.length = 1
      then pure (.number (-x)) else Boxes.foldRest Boxes.minus x : Routine φ ε (Value φ)).run u = _
    split
    · rename_i single
      exact ⟨_, u, _, .total counts single.symm rfl, rfl⟩
    · rename_i several
      refine rest_reckons named settles some counts restored fun xs length => ?_
      cases xs with
      | nil => exact absurd length.symm several
      | cons y ys => rfl
  | quotient =>
    refine first_reckons named settles rfl inCall fun x u some counts restored => ?_
    exact rest_reckons named settles some counts restored fun xs _ => rfl

end Performing

private theorem evaluateCall_reckons
    (bound : setup.sandbox.find? op.name = some (.callable op.native))
    (settles : ∀ node address, (evaluate setup inner node address).Settles inner.CutsOff)
    (w : World ε) :
    let call : Frame := ⟨op.name, address.index, w.frames.length + 1⟩
    ∃ ending last count frames,
      Reckons setup inner nodes address op ⟨call :: w.frames⟩
        ({ w with frames := call :: w.frames }.record (.dispatch call w.frames nodes.length))
        ending last count ∧
      evaluateCall setup inner (.string op.name :: nodes) address w =
        (ending, { last with frames }) := by
  intro call
  let start := { w with frames := call :: w.frames }.record (.dispatch call w.frames nodes.length)
  have inCall : start.frames = call :: w.frames := rfl
  obtain ⟨ending, last, count, reckons, performed⟩ := native_reckons rfl settles inCall
  have resolves : resolve setup inner (.string op.name) address w =
      (.returned (.ok (some (.callable op.native))), w) :=
    congrArg (fun binding => (Ending.returned (Except.ok binding), w)) bound
  obtain ⟨frames, called⟩ := evaluateCall_invoked resolves <| invoke_performed performed <| by
    rintro outcome rfl
    exact reckons.stamped rfl last.stack
  exact ⟨ending, last, count, frames, reckons, called⟩

private theorem evaluate_entered (before : Calm setup.before) (after : Calm setup.after)
    {items : List Json} {w last : World ε} {ending : Ending (Outcome φ)} {positions : List Nat}
    (called : evaluateCall setup inner items address (enter setup address (.array items) w).2 =
      (ending, last))
    (reads : Reads address (enter setup address (.array items) w).2 last positions) :
    ∃ final, evaluate setup inner (.array items) address w = (ending, final) ∧
      Reads address w final positions := by
  obtain ⟨env, passed, returned⟩ := enter_passes setup address (.array items) w
  have entered : enter setup address (.array items) w = (.returned (), _) :=
    Prod.ext (returned before) rfl
  have opened : Reads address w (enter setup address (.array items) w).2 [] := by
    rw [passed]
    exact .of_pass (p := .entered address (.array items) w.stack) rfl rfl
  have whole : Reads address w last positions := opened.trans reads
  have unfolded : evaluate setup inner (.array items) address w =
      (evaluateCall setup inner items address >>= leaveWith setup address (.array items))
        (enter setup address (.array items) w).2 := by
    rw [evaluate_eq, Run.bind_apply, entered]
    rfl
  rw [unfolded, Run.bind_apply, called]
  cases ending with
  | unwound payload => exact ⟨last, rfl, whole⟩
  | exhausted => exact ⟨last, rfl, whole⟩
  | returned outcome =>
    cases outcome with
    | error failure => exact ⟨last, rfl, whole⟩
    | ok v =>
      obtain ⟨env', closes, leaves⟩ := leave_passes setup address (.array items) last
      have left : leave setup address (.array items) last = (.returned (), _) :=
        Prod.ext (leaves after) closes
      have closed : Reads address last { last.pass (.left address (.array items) last.stack) with
          env := env' } [] :=
        .of_pass (p := .left address (.array items) last.stack) rfl rfl
      refine ⟨_, ?_, List.append_nil positions ▸ whole.trans closed⟩
      change (leave setup address (.array items) >>= fun _ => pure (Except.ok v)) last = _
      rw [Run.bind_apply, left]
      rfl

end Operands

/-- A call of an operator ends as the operator reckons with its operands, at any place of a script
and under any calls. The operands are entered in order and each once, up to the first that is wrong,
and none after it. The call does not unwind, it is cut off only if natives start runs inside runs
without end, and a run of it ends as its evaluation does. -/
theorem arithmetic_stops_at_first_offender [BEq φ] [Callable φ ε] [Inhabited ε] {c : Context φ ε}
    (sandbox : c.sandbox.StandardWith Routine.PanicFree) (before : Calm c.before)
    (after : Calm c.after) (op : Operator) (nodes : List Json) :
    let script := Json.array (.string op.name :: nodes)
    (∀ (limit : Nat) (address : Address) (w : World ε),
      let inner := Context.innerRun c.sandbox limit
      let call : Frame := ⟨op.name, address.index, w.frames.length + 1⟩
      let start := { (enter c.toSetup address script w).2 with frames := call :: w.frames }.record
        (.dispatch call w.frames nodes.length)
      let e := evaluate c.toSetup inner script address w
      (∀ payload, e.1 ≠ .unwound payload) ∧ (e.1 = .exhausted → inner.CutsOff) ∧
        ∃ last count,
          Reckons c.toSetup inner nodes address op ⟨call :: w.frames⟩ start e.1 last count ∧
          Reads address w e.2 (List.range' 1 count)) ∧
    ∀ ledger, (c.run script ledger).1 =
      (evaluate c.toSetup (Context.innerRun c.sandbox Context.runLimit) script []
        { env := c.env, ledger }).1 := by
  intro script
  have every : c.toSetup.sandbox.EveryNative Routine.PanicFree :=
    sandbox.everyNative_of_each Boxes.eachNative_panicFree
  have settles (limit : Nat) := evaluate_settles (innerRun_calm every limit) before after every
  refine ⟨fun limit address w => ?_, fun ledger => ?_⟩
  · intro inner call start e
    have settled := settles limit script address w
    refine ⟨settled.not_unwound, settled.cut_of_exhausted, ?_⟩
    obtain ⟨env, passed, _⟩ := enter_passes c.toSetup address script w
    have same : (enter c.toSetup address script w).2.frames = w.frames := by
      rw [passed]
      rfl
    obtain ⟨ending, last, count, frames, reckons, called⟩ := evaluateCall_reckons
      (sandbox.standard op.name _ op.standard_find?) (settles limit)
      (enter c.toSetup address script w).2
    obtain ⟨final, evaluated, reads⟩ := evaluate_entered before after called reckons.reads
    have ends : e = (ending, final) := evaluated
    rw [same] at reckons
    rw [ends]
    exact ⟨last, count, reckons, reads⟩
  · have settled := settles Context.runLimit script [] { env := c.env, ledger }
    rw [Context.run, Context.runWith, Context.trace_eq rfl settled.not_unwound]
    generalize evaluate c.toSetup _ script [] { env := c.env, ledger } = e at settled ⊢
    cases settled <;> rfl

private theorem Selector.context_panicFree :
    Selector.context.sandbox.StandardWith Routine.PanicFree := by
  refine .insertNative (.standard_only fun f => .argumentAs .any f.index) Selector.count_free ?_
  exact .bind (.request _) fun _ => .bind (.request _) fun _ => .argumentAs .any 1

/-- The second operand is a zero, and the third, which is not defined, is not entered. -/
theorem zero_divisor_stops_before_undefined_name :
    let c := Selector.context
    let counted (n : Int) : Json := .array [.string "count", .ofInt n]
    let nodes := [counted 6, counted 0, .array [.string "lost"]]
    let script := Json.array (.string "/" :: nodes)
    let call : Frame := ⟨"/", 0, 1⟩
    let failure : Failure := ⟨.native "division by zero", ⟨[call]⟩⟩
    let start : World Nat := {
      frames := [call]
      env := 0
      ledger := { events := [.dispatch call [] 3] }
      passages := [.entered [] script .empty] }
    (c.run script {}).1 = .returned (.error failure) ∧ (c.run script {}).2.1.env = 2 ∧
      ∃ last, Reckons c.toSetup (Context.innerRun c.sandbox Context.runLimit) nodes [] .quotient
        ⟨[call]⟩ start (.returned (.error failure)) last 2 := by
  intro c counted nodes script call failure start
  let w : World Nat := { env := 0, ledger := {} }
  obtain ⟨evaluates, runs⟩ := arithmetic_stops_at_first_offender Selector.context_panicFree
    calm_none calm_none .quotient nodes
  obtain ⟨_, _, last, count, reckons, reads⟩ := evaluates Context.runLimit [] w
  let e := evaluate c.toSetup (Context.innerRun c.sandbox Context.runLimit) script [] w
  have fails : e.1 = .returned (.error failure) := rfl
  have entered : e.2.passages.reverse.filterMap (Passage.argumentOf? []) = [1, 2] := by
    decide +kernel
  have two : count = 2 := by
    obtain ⟨steps, grown, positions⟩ : Reads [] w e.2 (List.range' 1 count) := reads
    rw [grown, List.append_nil, List.reverse_reverse, positions] at entered
    simpa using congrArg List.length entered
  subst two
  exact ⟨(runs {}).trans fails, by decide +kernel, last, fails ▸ reckons⟩

end JsonScript
