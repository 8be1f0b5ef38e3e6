import JsonScript.Proofs.Sandboxes
import JsonScript.Proofs.Settings

/-!
Scripts are confined to the names that they call.

A script reaches a sandbox through the names at the heads of its calls, and in no other way unless
natives help it: by a look at the sandbox, or by a run on it in a context of their own. Functions
are not looked up, and a name that is not bound fails in the same way on every sandbox.
-/

set_option autoImplicit false
set_option relaxedAutoImplicit false

namespace JsonScript

open Evaluator

variable {φ ε : Type}

/-- Whether the reply depends on the sandbox: it is a look at the sandbox, or a run on it. -/
def Request.consultsSandbox : Request φ ε → Bool
  | .bound _ => true
  | .run _ => true
  | _ => false

private theorem close_elsewhere (c : Context φ ε) (other : Sandbox φ ε)
    (e : Ending (Outcome φ) × World ε) :
    { c with sandbox := other }.close e =
      ((c.close e).1, { (c.close e).2.1 with sandbox := other }, (c.close e).2.2) := by
  obtain ⟨ending, w⟩ := e
  cases ending with
  | returned outcome => rfl
  | unwound payload => rfl
  | exhausted => rfl

variable [Callable φ ε]

/-- Every native that a script can reach, by a name that it calls or as a function, is as said. -/
def Sandbox.EveryReached (script : Json) (P : Native φ ε → Prop) (s : Sandbox φ ε) : Prop :=
  (∀ name ∈ script.calledNames, ∀ native, s.find? name = some (.callable native) → P native) ∧
    ∀ f : φ, P (Callable.code f)

private theorem evaluate_elsewhere (setup : Setup φ ε) (inner inner' : InnerRun φ)
    (other : Sandbox φ ε) (script : Json)
    (confined : setup.sandbox.EveryReached script (Routine.Only (·.consultsSandbox = false)))
    (agree : ∀ name ∈ script.calledNames, other.find? name = setup.sandbox.find? name) :
    evaluate { setup with sandbox := other } inner' script [] = evaluate setup inner script [] := by
  have answers : ∀ r : Request φ ε, r.consultsSandbox = false → ∀ arguments evaluations,
      answer setup inner arguments evaluations r =
        answer { setup with sandbox := other } inner' arguments evaluations r := by
    intro r unasked arguments evaluations
    cases r with
    | bound name => cases unasked
    | run script => cases unasked
    | arity | raw | argument | argumentIfAny | attempt | failure | stack | environment
    | setEnvironment | lifting | fresh => rfl
  have same := evaluate_congr setup { setup with sandbox := other } rfl rfl answers confined.2
    script [] fun name called => ⟨(agree name called).symm, confined.1 name called⟩
  exact same.symm

variable [Inhabited ε]

/-- The context runs a script on another sandbox as it does on its own: it ends in the same way,
with the same value or failure, in the same environment and with the same events. -/
def Context.RunsAlikeOn (c : Context φ ε) (script : Json) (other : Sandbox φ ε) : Prop :=
  ∀ ledger ending c' ledger', c.run script ledger = (ending, c', ledger') →
    { c with sandbox := other }.run script ledger = (ending, { c' with sandbox := other }, ledger')

private theorem runsAlikeOn_of_agree (c : Context φ ε) (script : Json)
    (confined : c.sandbox.EveryReached script (Routine.Only (·.consultsSandbox = false)))
    (other : Sandbox φ ε)
    (agree : ∀ name ∈ script.calledNames, other.find? name = c.sandbox.find? name) :
    c.RunsAlikeOn script other := by
  intro ledger ending c' ledger' ran
  let inner := Context.innerRun c.sandbox Context.runLimit
  let inner' := Context.innerRun other Context.runLimit
  let start : World ε := { env := c.env, ledger }
  have body : evaluate { c.toSetup with sandbox := other } inner' script [] =
      evaluate c.toSetup inner script [] :=
    evaluate_elsewhere c.toSetup inner inner' other script confined agree
  have whole : { c with sandbox := other }.evaluation inner' script =
      c.evaluation inner script := by
    unfold Context.evaluation
    rw [body]
  calc { c with sandbox := other }.run script ledger
    _ = { c with sandbox := other }.close (c.evaluation inner script start) := by rw [← whole]; rfl
    _ = ((c.run script ledger).1, { (c.run script ledger).2.1 with sandbox := other },
          (c.run script ledger).2.2) := close_elsewhere c other _
    _ = (ending, { c' with sandbox := other }, ledger') := by rw [ran]

/-- If the natives that a script can reach neither look at the sandbox nor start runs on it, then
the script runs alike on every sandbox that binds the names that it calls to the same. In
particular bindings of other names may be inserted, merged in or merged under the sandbox. -/
theorem script_confined_to_called_names (c : Context φ ε) (script : Json)
    (confined : c.sandbox.EveryReached script (Routine.Only (·.consultsSandbox = false))) :
    (∀ other : Sandbox φ ε,
      (∀ name ∈ script.calledNames, other.find? name = c.sandbox.find? name) →
        c.RunsAlikeOn script other) ∧
    (∀ name, name ∉ script.calledNames → ∀ binding,
      c.RunsAlikeOn script (c.sandbox.insert name binding)) ∧
    ∀ others : Sandbox φ ε, (∀ name ∈ script.calledNames, others.find? name = none) →
      c.RunsAlikeOn script (c.sandbox.merge others) ∧
        (Dictionary.Sorted c.sandbox.bindings → c.RunsAlikeOn script (others.merge c.sandbox)) := by
  have alike := runsAlikeOn_of_agree c script confined
  refine ⟨alike, ?_, ?_⟩
  · intro name uncalled binding
    refine alike _ fun other called => Sandbox.find?_insert_of_ne ?_ binding _
    rintro rfl
    exact uncalled called
  · intro others unbound
    refine ⟨alike _ fun name called => ?_, fun sorted => alike _ fun name called => ?_⟩
    · exact c.sandbox.find?_merge_of_unbound (unbound name called)
    · rw [others.find?_merge sorted, unbound name called, Option.or_none]

/-- A name that neither sandbox binds fails and is given up, a function is called without look-up,
and the second sandbox binds more. -/
theorem script_confined_past_unbound_name :
    let natives : Sandbox Probe.Closure Probe.Journal :=
      (Sandbox.empty.insertNative "try" Probe.orElse).insertNative "namer"
        (Probe.Closure.make .namer)
    let other : Sandbox Probe.Closure Probe.Journal :=
      ((Sandbox.empty.insertNative "namer" (Probe.Closure.make .namer)).insertNative "secret"
        Probe.isBound).insertNative "try" Probe.orElse
    let c := Context.ofSandbox natives {}
    let script : Json := .array [.string "try", .array [.string "unbound", .string "secret"],
      .array [.array [.string "namer"], .string "secret"]]
    ∃ v c' ledger', c.run script {} = (.returned (.ok v), c', ledger') ∧
      ledger'.events.length = 3 ∧
      { c with sandbox := other }.run script {} =
        (.returned (.ok v), { c' with sandbox := other }, ledger') := by
  intro natives other c script
  have functions : ∀ f : Probe.Closure, Routine.Only (·.consultsSandbox = false)
      (Callable.code f : Native Probe.Closure Probe.Journal) :=
    Probe.Closure.code_only (fun _ _ => rfl) rfl rfl rfl
  have every : c.sandbox.EveryNative (Routine.Only (·.consultsSandbox = false)) := by
    refine .insertNative (.insertNative (.empty functions) ?_ "try") ?_ "namer"
    · exact Probe.orElse_only fun _ _ => rfl
    · exact .bind (.request rfl) fun _ => .pure _
  have agree : ∀ name ∈ script.calledNames, other.find? name = c.sandbox.find? name := by
    have called : script.calledNames = ["try", "unbound", "namer"] := rfl
    rw [called]
    simp only [List.forall_mem_cons]
    exact ⟨rfl, rfl, rfl, fun _ none => nomatch none⟩
  have ran : ∃ v c' ledger', c.run script {} = (.returned (.ok v), c', ledger') ∧
      ledger'.events.length = 3 := ⟨_, _, _, rfl, rfl⟩
  obtain ⟨v, c', ledger', ran, events⟩ := ran
  have confined := script_confined_to_called_names c script ⟨fun name _ => every.1 name, every.2⟩
  exact ⟨v, c', ledger', ran, events, confined.1 other agree {} _ c' ledger' ran⟩

end JsonScript
