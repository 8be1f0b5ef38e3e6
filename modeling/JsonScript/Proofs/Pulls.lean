import JsonScript.Declaration.Basic
import JsonScript.Proofs.Arguments
import JsonScript.Proofs.Conversion

/-!
Pulls of arguments.

A typed native pulls its arguments in the order of its parameters. A pull gives what the function
receives, or it stops the call. The laws say which of the two happens, what the call has evaluated
by then, and where a number of pulls in turn stops.
-/

set_option autoImplicit false
set_option relaxedAutoImplicit false

namespace JsonScript

open Evaluator

variable {φ ε α β : Type}

theorem World.stamp_failure (w : World ε) (cause : Cause) :
    (w.failure cause).stamp w.stack = w.failure cause := by
  unfold Failure.stamp
  split <;> rfl

/-- How a computation ends that gives no value. -/
inductive Halt where
  | failed (f : Failure)
  | unwound (payload : Panic)
  | exhausted

def Halt.ending : Halt → Ending (Except Failure α)
  | .failed f => .returned (.error f)
  | .unwound payload => .unwound payload
  | .exhausted => .exhausted

theorem Halt.eq_failed {halt : Halt} {f : Failure}
    (same : (halt.ending : Ending (Except Failure α)) = .returned (.error f)) :
    halt = .failed f := by
  cases halt with
  | failed g =>
    cases same
    rfl
  | unwound payload => cases same
  | exhausted => cases same

section Routines

variable {answers : (r : Request φ ε) → Run ε r.Reply} {routine : Routine φ ε α}
  {next : α → Routine φ ε β} {w u : World ε}

theorem perform_bind_ok {x : α}
    (first : perform answers routine.run w = (.returned (.ok x), u)) :
    perform answers (routine >>= next).run w = perform answers (next x).run u := by
  change perform answers (routine.run >>= ExceptT.bindCont next) w = _
  rw [perform_bind, first]
  rfl

theorem perform_bind_halt {halt : Halt}
    (first : perform answers routine.run w = (halt.ending, u)) :
    perform answers (routine >>= next).run w = (halt.ending, u) := by
  change perform answers (routine.run >>= ExceptT.bindCont next) w = _
  rw [perform_bind, first]
  cases halt <;> rfl

private theorem perform_map_halt {view : α → β} {halt : Halt} :
    perform answers (do return view (← routine) : Routine φ ε β).run w = (halt.ending, u) ↔
      perform answers routine.run w = (halt.ending, u) := by
  refine ⟨fun halted => ?_, perform_bind_halt⟩
  have mapped := halted
  change perform answers (routine.run >>= ExceptT.bindCont fun x => pure (view x)) w = _ at mapped
  rw [perform_bind] at mapped
  rcases step : perform answers routine.run w with ⟨result | payload | _, v⟩
  · rw [step] at mapped
    cases result with
    | ok x => cases halt <;> cases mapped
    | error f =>
      cases halt <;> cases mapped
      rfl
  · rw [step] at mapped
    cases halt <;> cases mapped
    rfl
  · rw [step] at mapped
    cases halt <;> cases mapped
    rfl

end Routines

section Pulls

variable [Callable φ ε] (setup : Setup φ ε) (inner : InnerRun φ) (arguments : List Json)
  (address : Address)

/-- `Gives index shape w x u`: the pull of the argument at the position gives `x`, and takes the
state from `w` to `u`. An option that is left out of the call, or that is null, is missing. -/
inductive Gives (index : Nat) : (shape : Shape) → World ε → shape.Host φ → World ε → Prop where
  | leftOut {part : Shape} {w : World ε} (absent : arguments.length < index) :
      Gives index (.optional part) w (none : Option (part.Host φ)) w
  | null {part : Shape} {argument : Json} {w u : World ε}
      (taken : argumentAt? arguments index = some argument)
      (evaluated :
        evaluate setup inner argument (index :: address) w = (.returned (.ok .null), u)) :
      Gives index (.optional part) w (none : Option (part.Host φ)) u
  | converted {shape : Shape} {argument : Json} {v : Value φ} {x : shape.Host φ} {w u : World ε}
      (taken : argumentAt? arguments index = some argument)
      (evaluated : evaluate setup inner argument (index :: address) w = (.returned (.ok v), u))
      (present : shape.isOptional = true → v ≠ .null) (fits : shape.fromValue v = .ok x) :
      Gives index shape w x u

/-- `Stops index shape w halt u`: the pull of the argument at the position stops the call in the
state `u`. The argument is missing, or it stops the call itself, or it has another shape. -/
inductive Stops (index : Nat) (shape : Shape) (w : World ε) : Halt → World ε → Prop where
  | missing (required : shape.isOptional = false) (absent : arguments.length < index) :
      Stops index shape w (.failed (w.failure (.missingArgument w.label index))) w
  | argument {argument : Json} {halt : Halt} {u : World ε}
      (taken : argumentAt? arguments index = some argument)
      (halted : evaluate setup inner argument (index :: address) w = (halt.ending, u)) :
      Stops index shape w halt u
  | mismatch {argument : Json} {v : Value φ} {m : Mismatch} {u : World ε}
      (taken : argumentAt? arguments index = some argument)
      (evaluated : evaluate setup inner argument (index :: address) w = (.returned (.ok v), u))
      (wrong : shape.fromValue v = .error m) :
      Stops index shape w (.failed (u.failure (.argumentType u.label index m))) u

/-- Pulls of arguments in turn, each from the state that the one before has left. -/
inductive Passes : (shapes : List Shape) → Nat → World ε → Received φ shapes → World ε → Prop where
  | nil {index : Nat} {w : World ε} : Passes [] index w () w
  | cons {shape : Shape} {shapes : List Shape} {index : Nat} {x : shape.Host φ}
      {received : Received φ shapes} {w between u : World ε}
      (first : Gives setup inner arguments address index shape w x between)
      (rest : Passes shapes (index + 1) between received u) :
      Passes (shape :: shapes) index w (x, received) u

variable {setup inner arguments address}

/-- The answers that a native gets in the call. -/
abbrev callAnswers (setup : Setup φ ε) (inner : InnerRun φ) (arguments : List Json)
    (address : Address) : (r : Request φ ε) → Run ε r.Reply :=
  answer setup inner arguments (evaluations setup inner arguments address 1)

omit [Callable φ ε] in
private theorem perform_pull_required {shape : Shape} (required : shape.isOptional = false)
    (answers : (r : Request φ ε) → Run ε r.Reply) (index : Nat) (w : World ε) :
    perform answers (Call.pull shape index).run w = answers (.argument shape index) w := by
  have pull : (Call.pull shape index : Routine φ ε _).run =
      .ask (.argument shape index) fun reply => .done reply := by
    cases shape with
    | optional part => cases required
    | any | json | number | integer | bool | text | list => rfl
  rw [pull, perform, Run.bind_apply]
  rcases answers (.argument shape index) w with ⟨reply | payload | _, u⟩ <;> rfl

private def flat (part : Shape) :
    Except Failure (Option ((Shape.optional part).Host φ)) →
      Except Failure ((Shape.optional part).Host φ)
  | .ok (some x) => .ok x
  | .ok none => .ok (none : Option (part.Host φ))
  | .error f => .error f

omit [Callable φ ε] in
private theorem perform_pull_optional (part : Shape) (answers : (r : Request φ ε) → Run ε r.Reply)
    (index : Nat) (w : World ε) :
    perform answers (Call.pull (.optional part) index).run w =
      match answers (.argumentIfAny (.optional part) index) w with
      | (.returned reply, u) => (.returned (flat part reply), u)
      | (.unwound payload, u) => (.unwound payload, u)
      | (.exhausted, u) => (.exhausted, u) := by
  change (answers (.argumentIfAny (.optional part) index) >>= fun reply => _) w = _
  rw [Run.bind_apply]
  rcases answers (.argumentIfAny (.optional part) index) w with ⟨reply | payload | _, u⟩
  · rcases reply with f | _ | x <;> rfl
  · rfl
  · rfl

private theorem pull_taken {index : Nat} {argument : Json}
    (taken : argumentAt? arguments index = some argument) (shape : Shape) (w : World ε) :
    perform (callAnswers setup inner arguments address) (Call.pull shape index).run w =
      fetch shape index (evaluate setup inner argument (index :: address)) w := by
  cases optional : shape.isOptional with
  | false =>
    rw [perform_pull_required optional]
    simp only [callAnswers, answer, evaluation_of_argument setup inner taken]
  | true =>
    obtain ⟨part, rfl⟩ := Shape.exists_part optional
    have reply : callAnswers setup inner arguments address (.argumentIfAny (.optional part) index) =
        (do return (← fetch (.optional part) index
          (evaluate setup inner argument (index :: address))).map some) := by
      simp only [callAnswers, answer, evaluation_of_argument setup inner taken]
    rw [perform_pull_optional, reply, Run.bind_apply]
    rcases fetch (.optional part) index (evaluate setup inner argument (index :: address)) w with
      ⟨found | payload | _, u⟩
    · cases found <;> rfl
    · rfl
    · rfl

omit [Callable φ ε] in
private theorem argumentAt?_beyond {index : Nat} (absent : arguments.length < index) :
    argumentAt? arguments index = none := by
  cases index with
  | zero => rfl
  | succ index => exact List.getElem?_eq_none_iff.mpr (Nat.le_of_lt_succ absent)

private theorem pull_leftOut {index : Nat} (absent : arguments.length < index) (part : Shape)
    (w : World ε) :
    perform (callAnswers setup inner arguments address) (Call.pull (.optional part) index).run w =
      (.returned (.ok (none : Option (part.Host φ))), w) := by
  have reply : callAnswers setup inner arguments address (.argumentIfAny (.optional part) index) =
      pure (.ok none) := by
    simp only [callAnswers, answer, argumentAt?_evaluations, argumentAt?_beyond absent,
      Option.map_none]
  rw [perform_pull_optional, reply]
  rfl

private theorem pull_missing {index : Nat} (absent : arguments.length < index) {shape : Shape}
    (required : shape.isOptional = false) (w : World ε) :
    perform (callAnswers setup inner arguments address) (Call.pull shape index).run w =
      (.returned (.error (w.failure (.missingArgument w.label index))), w) := by
  rw [perform_pull_required required]
  simp only [callAnswers, answer, argumentAt?_evaluations, argumentAt?_beyond absent,
    Option.map_none]
  rfl

section Single

variable {index : Nat} {shape : Shape} {w u : World ε}

omit [Callable φ ε] in
private theorem fetch_evaluated {evaluation : Run ε (Outcome φ)} {v : Value φ}
    (evaluated : evaluation w = (.returned (.ok v), u)) :
    fetch shape index evaluation w = convert shape index v u := by
  unfold fetch
  rw [Run.bind_apply, evaluated]

theorem Gives.performed {x : shape.Host φ}
    (gives : Gives setup inner arguments address index shape w x u) :
    perform (callAnswers setup inner arguments address) (Call.pull shape index).run w =
      (.returned (.ok x), u) := by
  cases gives with
  | leftOut absent => exact pull_leftOut absent _ w
  | null taken evaluated =>
    rw [pull_taken taken, fetch_evaluated evaluated]
    rfl
  | converted taken evaluated present fits =>
    rw [pull_taken taken, fetch_evaluated evaluated, convert, fits]
    rfl

theorem Stops.performed {halt : Halt}
    (stops : Stops setup inner arguments address index shape w halt u) :
    perform (callAnswers setup inner arguments address) (Call.pull shape index).run w =
      (halt.ending, u) := by
  cases stops with
  | missing required absent => exact pull_missing absent required w
  | argument taken halted =>
    rw [pull_taken taken, fetch, Run.bind_apply, halted]
    cases halt <;> rfl
  | mismatch taken evaluated wrong =>
    rw [pull_taken taken, fetch_evaluated evaluated, convert, wrong]
    rfl

variable (setup inner arguments address) in
private theorem gives_or_stops (positive : 0 < index) (shape : Shape) (w : World ε) :
    (∃ x u, Gives setup inner arguments address index shape w x u) ∨
      ∃ halt u, Stops setup inner arguments address index shape w halt u := by
  cases found : argumentAt? arguments index with
  | none =>
    have absent : arguments.length < index := by
      have := argumentAt?_absent found
      omega
    cases optional : shape.isOptional with
    | false => exact .inr ⟨_, w, .missing optional absent⟩
    | true =>
      obtain ⟨part, rfl⟩ := Shape.exists_part optional
      exact .inl ⟨_, w, .leftOut absent⟩
  | some argument =>
    rcases step : evaluate setup inner argument (index :: address) w with
      ⟨outcome | payload | _, u⟩
    · cases outcome with
      | error f => exact .inr ⟨.failed f, u, .argument found step⟩
      | ok v =>
        cases converted : shape.fromValue v with
        | error m => exact .inr ⟨_, u, .mismatch found step converted⟩
        | ok x =>
          left
          by_cases null : shape.isOptional = true ∧ v = .null
          · obtain ⟨optional, rfl⟩ := null
            obtain ⟨part, rfl⟩ := Shape.exists_part optional
            exact ⟨_, u, .null found step⟩
          · have present : shape.isOptional = true → v ≠ .null :=
              fun optional same => null ⟨optional, same⟩
            exact ⟨x, u, .converted found step present converted⟩
    · exact .inr ⟨.unwound payload, u, .argument found step⟩
    · exact .inr ⟨.exhausted, u, .argument found step⟩

/-- The positions, among those of the call's arguments, that a number of pulls come to. -/
def pulledPositions (arguments : List Json) (first count : Nat) : List Nat :=
  List.range' first (min count (arguments.length + 1 - first))

omit [Callable φ ε] in
private theorem pulledPositions_taken {argument : Json}
    (taken : argumentAt? arguments index = some argument) :
    pulledPositions arguments index 1 = [index] := by
  have bounds := argumentAt?_bounds taken
  have one : min 1 (arguments.length + 1 - index) = 1 := by omega
  rw [pulledPositions, one]
  rfl

omit [Callable φ ε] in
private theorem pulledPositions_absent (absent : arguments.length < index) (count : Nat) :
    pulledPositions arguments index count = [] := by
  have none : min count (arguments.length + 1 - index) = 0 := by omega
  rw [pulledPositions, none]
  rfl

omit [Callable φ ε] in
theorem pulledPositions_append (first count more : Nat) :
    pulledPositions arguments first count ++ pulledPositions arguments (first + count) more =
      pulledPositions arguments first (count + more) := by
  unfold pulledPositions
  by_cases within : first + count ≤ arguments.length + 1
  · have here : min count (arguments.length + 1 - first) = count := by omega
    have both : min (count + more) (arguments.length + 1 - first) =
        count + min more (arguments.length + 1 - (first + count)) := by omega
    rw [here, both, List.range'_append_1]
  · have beyond : min more (arguments.length + 1 - (first + count)) = 0 := by omega
    have both : min (count + more) (arguments.length + 1 - first) =
        min count (arguments.length + 1 - first) := by omega
    rw [beyond, both, List.range'_zero, List.append_nil]

private theorem Gives.reads {x : shape.Host φ}
    (gives : Gives setup inner arguments address index shape w x u) :
    Reads address w u (pulledPositions arguments index 1) := by
  cases gives with
  | leftOut absent =>
    rw [pulledPositions_absent absent]
    exact .of_passages_eq rfl
  | @null _ argument _ _ taken evaluated | @converted _ argument _ _ _ _ taken evaluated =>
    rw [pulledPositions_taken taken]
    have read := evaluate_reads setup inner argument index address w
    rwa [evaluated] at read

theorem Stops.reads {halt : Halt}
    (stops : Stops setup inner arguments address index shape w halt u) :
    Reads address w u (pulledPositions arguments index 1) := by
  cases stops with
  | missing required absent =>
    rw [pulledPositions_absent absent]
    exact .of_passages_eq rfl
  | @argument argument _ _ taken evaluated | @mismatch argument _ _ _ taken evaluated =>
    rw [pulledPositions_taken taken]
    have read := evaluate_reads setup inner argument index address w
    rwa [evaluated] at read

theorem Stops.of_absent {halt : Halt}
    (stops : Stops setup inner arguments address index shape w halt u)
    (absent : arguments.length < index) :
    shape.isOptional = false ∧ halt = .failed (w.failure (.missingArgument w.label index)) := by
  have lacks {argument : Json} (taken : argumentAt? arguments index = some argument) : False := by
    have bounds := argumentAt?_bounds taken
    omega
  cases stops with
  | missing required _ => exact ⟨required, rfl⟩
  | argument taken _ => exact (lacks taken).elim
  | mismatch taken _ _ => exact (lacks taken).elim

theorem Stops.stamped {f : Failure}
    (stops : Stops setup inner arguments address index shape w (.failed f) u) :
    f.stamp u.stack = f := by
  cases stops with
  | missing required absent => exact w.stamp_failure _
  | argument taken halted => exact Failure.stamp_of_nonempty (evaluate_fails_located halted) _
  | mismatch taken evaluated wrong => exact u.stamp_failure _

end Single

section Several

variable {first : Nat} {shapes : List Shape} {w u : World ε}

theorem Passes.performed {received : Received φ shapes}
    (passes : Passes setup inner arguments address shapes first w received u) :
    perform (callAnswers setup inner arguments address) (Call.pullAll shapes first).run w =
      (.returned (.ok received), u) := by
  induction passes with
  | nil => rfl
  | cons gives rest ih =>
    exact (perform_bind_ok gives.performed).trans (perform_bind_ok ih)

theorem Passes.reads {received : Received φ shapes}
    (passes : Passes setup inner arguments address shapes first w received u) :
    Reads address w u (pulledPositions arguments first shapes.length) := by
  induction passes with
  | nil => exact .of_passages_eq rfl
  | @cons shape shapes index x received w between u gives rest ih =>
    have read := gives.reads.trans ih
    rw [pulledPositions_append] at read
    rwa [List.length_cons, Nat.add_comm]

theorem Passes.performed_append {received : Received φ shapes}
    (passes : Passes setup inner arguments address shapes first w received u)
    {all others : List Shape} (parts : all = shapes ++ others) {halt : Halt} {u' : World ε} :
    perform (callAnswers setup inner arguments address) (Call.pullAll all first).run w =
        (halt.ending, u') ↔
      perform (callAnswers setup inner arguments address)
        (Call.pullAll others (first + shapes.length)).run u = (halt.ending, u') := by
  subst parts
  induction passes with
  | nil => rfl
  | @cons shape shapes index x received w between u gives rest ih =>
    have shifted : index + (shape :: shapes).length = index + 1 + shapes.length := by
      rw [List.length_cons]
      omega
    have pulled : perform (callAnswers setup inner arguments address)
        (Call.pullAll (shape :: (shapes ++ others)) index).run w = _ :=
      perform_bind_ok gives.performed
    rw [List.cons_append, pulled, shifted, ← ih]
    exact perform_map_halt

theorem Passes.performed_stopped {received : Received φ shapes}
    (passes : Passes setup inner arguments address shapes first w received u) {shape : Shape}
    {halt : Halt} {u' : World ε}
    (stops : Stops setup inner arguments address (first + shapes.length) shape u halt u')
    {all after : List Shape} (parts : all = shapes ++ shape :: after) :
    perform (callAnswers setup inner arguments address) (Call.pullAll all first).run w =
      (halt.ending, u') :=
  (passes.performed_append parts).mpr (perform_bind_halt stops.performed)

variable (setup inner arguments address) in
theorem pullAll_cases (positive : 0 < first) (shapes : List Shape) (w : World ε) :
    (∃ received u, Passes setup inner arguments address shapes first w received u) ∨
      ∃ before shape after received u halt u', shapes = before ++ shape :: after ∧
        Passes setup inner arguments address before first w received u ∧
        Stops setup inner arguments address (first + before.length) shape u halt u' := by
  induction shapes generalizing first w with
  | nil => exact .inl ⟨(), w, .nil⟩
  | cons shape shapes ih =>
    rcases gives_or_stops setup inner arguments address positive shape w with
      ⟨x, between, gives⟩ | ⟨halt, u, stops⟩
    · rcases ih (Nat.succ_pos first) between with
        ⟨received, u, passes⟩ | ⟨before, other, after, received, u, halt, u', rfl, passes, stops⟩
      · exact .inl ⟨_, u, .cons gives passes⟩
      · refine .inr ⟨shape :: before, other, after, _, u, halt, u', rfl, .cons gives passes, ?_⟩
        have shifted : first + (shape :: before).length = first + 1 + before.length := by
          rw [List.length_cons]
          omega
        rwa [shifted]
    · exact .inr ⟨[], shape, shapes, (), w, halt, u, rfl, .nil, stops⟩

end Several

section Calls

variable {native : Native φ ε} {w called resolved last : World ε} {ending : Ending (Outcome φ)}

theorem invoke_performed
    (performed : perform (callAnswers setup inner arguments address) native.run
      (reportDispatch arguments.length called).2 = (ending, last))
    (stamped : ∀ outcome, ending = .returned outcome →
      outcome.mapError (Failure.stamp last.stack) = outcome) :
    invoke setup inner arguments (evaluations setup inner arguments address 1) native called =
      (ending, last) := by
  unfold invoke
  rw [Run.bind_apply]
  change (perform (callAnswers setup inner arguments address) native.run >>= stamp)
    (reportDispatch arguments.length called).2 = _
  rw [Run.bind_apply, performed]
  cases ending with
  | returned outcome =>
    change (Ending.returned (outcome.mapError (Failure.stamp last.stack)), last) = _
    rw [stamped outcome rfl]
  | unwound payload => rfl
  | exhausted => rfl

theorem evaluateCall_invoked {head : Json}
    (resolves : resolve setup inner head address w =
      (.returned (.ok (some (.callable native))), resolved))
    (invoked : invoke setup inner arguments (evaluations setup inner arguments address 1) native
      { resolved with
        frames := ⟨head.headLabel, address.index, w.frames.length + 1⟩ :: resolved.frames } =
      (ending, last)) :
    ∃ frames, evaluateCall setup inner (head :: arguments) address w =
      (ending, { last with frames }) := by
  rw [evaluateCall_resolved resolves]
  apply Run.within_cases (motive := fun e => ∃ frames, e = (ending, { last with frames }))
  · intro outcome inside step
    cases invoked.symm.trans step
    exact ⟨_, rfl⟩
  · intro payload inside step
    cases invoked.symm.trans step
    exact ⟨_, rfl⟩
  · intro inside step
    cases invoked.symm.trans step
    exact ⟨_, rfl⟩

end Calls

end Pulls

end JsonScript
