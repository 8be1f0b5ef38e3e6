import JsonScript.Proofs.Settings

/-!
Lifting panics.

Whether panics are lifted is decided around the evaluation of a script, not inside it: natives that
do not ask whether panics are lifted are evaluated in the same way in both cases. So lifting
changes nothing about a run but what becomes of a panic that leaves the evaluation.
-/

set_option autoImplicit false
set_option relaxedAutoImplicit false

namespace JsonScript

open Evaluator

variable {φ ε : Type} [Callable φ ε]

def Request.readsLift : Request φ ε → Bool
  | .lifting => true
  | _ => false

private theorem evaluate_lift (setup : Setup φ ε) (inner : InnerRun φ)
    (blind : setup.sandbox.EveryNative (Routine.Only (·.readsLift = false))) (lift : Bool)
    (node : Json) (address : Address) :
    evaluate { setup with lift } inner node address = evaluate setup inner node address := by
  have answers : ∀ r : Request φ ε, r.readsLift = false → ∀ arguments evaluations,
      answer { setup with lift } inner arguments evaluations r =
        answer setup inner arguments evaluations r := by
    intro r unread arguments evaluations
    cases r with
    | lifting => cases unread
    | arity | raw | argument | argumentIfAny | attempt | failure | stack | environment
    | setEnvironment | bound | fresh | run => rfl
  exact evaluate_congr { setup with lift } setup rfl rfl answers blind.2 node address
    fun name _ => ⟨rfl, blind.1 name⟩

/-- If natives do not ask whether panics are lifted, a run that returns is the same with lifting
and without: the same outcome, environment and events. A panic that leaves the run without lifting
is, with lifting, a failure with the panic's message and the calls that the panic interrupted, in
the same environment and with no call left in progress. -/
theorem lifting_changes_only_panics [Inhabited ε] (c : Context φ ε)
    (blind : c.sandbox.EveryNative (Routine.Only (·.readsLift = false)))
    (script : Json) (ledger : Ledger) :
    let unlifted := { c with lift := false }.run script ledger
    let lifted := { c with lift := true }.run script ledger
    (∀ outcome c' ledger', unlifted = (.returned outcome, c', ledger') →
      lifted = (.returned outcome, { c' with lift := true }, ledger')) ∧
    (∀ payload c' ledger', unlifted = (.unwound payload, c', ledger') →
      let f : Failure := ⟨.panic payload.message, c'.stack⟩
      lifted = (.returned (.error f), { c' with lift := true, frames := [] },
        (ledger'.record (.lifted payload.message c'.stack)).record (.failed f.message f.stack))) ∧
    ∀ c' ledger', unlifted = (.exhausted, c', ledger') →
      lifted = (.exhausted, { c' with lift := true }, ledger') := by
  intro unlifted lifted
  let inner := Context.innerRun c.sandbox Context.runLimit
  let start : World ε := { env := c.env, ledger }
  let body := evaluate { c.toSetup with lift := false } inner script []
  have plain : unlifted = { c with lift := false }.close (body start) := rfl
  have caught : lifted = { c with lift := true }.close (Context.liftPanic body start) := by
    have same : evaluate { c.toSetup with lift := true } inner script [] = body :=
      evaluate_lift { c.toSetup with lift := false } inner blind true script []
    rw [← same]
    rfl
  rw [plain, caught, Context.liftPanic_apply]
  rcases body start with ⟨outcome | payload | _, w⟩
  · refine ⟨?_, by rintro _ _ _ ⟨⟩, by rintro _ _ ⟨⟩⟩
    rintro _ _ _ ⟨⟩
    rfl
  · refine ⟨by rintro _ _ _ ⟨⟩, ?_, by rintro _ _ ⟨⟩⟩
    rintro _ _ _ ⟨⟩
    rfl
  · refine ⟨by rintro _ _ _ ⟨⟩, by rintro _ _ _ ⟨⟩, ?_⟩
    rintro _ _ ⟨⟩
    rfl

/-- After a swallowed failure, a native panics inside a computed head. -/
theorem panic_inside_head_lifted :
    let sandbox : Sandbox Probe.Closure Probe.Journal :=
      (Sandbox.empty.insertNative "try" Probe.orElse).insertNative "panic"
        (Call.panic (.text "static text"))
    let c := Context.ofSandbox sandbox {}
    let script : Json := .array [.string "try", .array [.string "unbound"],
      .array [.array [.string "panic"]]]
    let stack : Stack := ⟨[⟨"panic", 0, 2⟩, ⟨"try", 0, 1⟩]⟩
    (∃ c' ledger', { c with lift := false }.run script {} =
      (.unwound (.text "static text"), c', ledger') ∧ c'.stack = stack) ∧
    ∃ c' ledger', { c with lift := true }.run script {} =
      (.returned (.error ⟨.panic "static text", stack⟩), c', ledger') ∧ c'.depth = 0 := by
  intro sandbox c script stack
  have functions : ∀ f : Probe.Closure, Routine.Only (·.readsLift = false)
      (Callable.code f : Native Probe.Closure Probe.Journal) :=
    Probe.Closure.code_only (fun _ _ => rfl) rfl rfl rfl
  have blind : c.sandbox.EveryNative (Routine.Only (·.readsLift = false)) := by
    refine .insertNative (.insertNative (.empty functions) ?_ "try") (.panic _) "panic"
    exact Probe.orElse_only fun _ _ => rfl
  have unwinds : ∃ c' ledger', { c with lift := false }.run script {} =
      (.unwound (.text "static text"), c', ledger') ∧ c'.stack = stack := ⟨_, _, rfl, rfl⟩
  obtain ⟨c', ledger', unwound, left⟩ := unwinds
  have lifted := (lifting_changes_only_panics c blind script {}).2.1 _ c' ledger' unwound
  rw [left] at lifted
  exact ⟨⟨c', ledger', unwound, left⟩, _, _, lifted, rfl⟩

end JsonScript
