import JsonScript.Proofs.Course
import JsonScript.Proofs.Documents
import JsonScript.Proofs.PanicTracing
import JsonScript.Proofs.ReadingOrder

/-!
Scripts over data.

Where the sandbox binds the standard natives and values without functions, no function can be
reached: literals are data, natives make data from data, and so a head that is computed is never a
function. A call with such a head fails, and the standard natives let no failure pass, so that a
value of the whole shows that no head was computed.
-/

set_option autoImplicit false
set_option relaxedAutoImplicit false

namespace JsonScript

open Evaluator

variable {φ ε : Type}

section Data

variable [BEq φ] [Callable φ ε] {setup : Setup φ ε} (standard : setup.sandbox.Standard)
  (before : Calm setup.before) (after : Calm setup.after)

include standard before after

theorem evaluate_functionFree (inner : InnerRun φ) (node : Json) (address : Address)
    (w : World ε) :
    ∃ outcome w', evaluate setup inner node address w = (.returned outcome, w') ∧
      ∀ v, outcome = .ok v → v.FunctionFree := by
  have law : RouteLaw fun (_ : List Address) (_ _ : World ε) => True :=
    ⟨fun _ _ => trivial, fun _ _ => trivial, fun _ _ => trivial, fun _ _ => trivial⟩
  obtain ⟨outcome, w', step, sound, _⟩ := law.evaluate_proceeds standard
    (fun _ _ => tell_proceeds before fun _ => trivial)
    (fun _ _ => tell_proceeds after fun _ => trivial) inner node address w
  refine ⟨outcome, w', step, ?_⟩
  rintro v rfl
  exact sound

theorem computed_call_fails (inner : InnerRun φ) {head : Json}
    (computes : ∀ name, head ≠ .string name) (arguments : List Json) (address : Address)
    (w : World ε) :
    ∃ entered outcome headed f w',
      enter setup address (.array (head :: arguments)) w = (.returned (), entered) ∧
      evaluate setup inner head (0 :: address) entered = (.returned outcome, headed) ∧
      evaluate setup inner (.array (head :: arguments)) address w = (.returned (.error f), w') ∧
      (∀ g, outcome = .error g → f = g) ∧
      ∀ v, outcome = .ok v → f.cause = .undefinedHead head.render := by
  obtain ⟨_, entered, enters, _⟩ :
      ∃ u entered,
        enter setup address (.array (head :: arguments)) w = (.returned u, entered) ∧ _ :=
    tell_proceeds (R := fun _ _ => True) before (fun _ => trivial) w
  obtain ⟨outcome, headed, step, free⟩ :=
    evaluate_functionFree standard before after inner head (0 :: address) entered
  have resolves := congrFun (resolve_computed setup inner computes address) entered
  rw [Run.bind_apply, step] at resolves
  refine ⟨entered, outcome, headed, ?_⟩
  cases outcome with
  | error g =>
    have fails := call_fails_iff.mpr (.inl ⟨entered, enters, resolves⟩)
    refine ⟨g, headed, enters, step, fails, ?_, nofun⟩
    rintro _ ⟨⟩
    rfl
  | ok callee =>
    have none : (Binding.ofCallee? callee : Option (Binding φ ε)) = none := by
      cases callee with
      | function f => exact absurd .self (free _ rfl f)
      | null | bool | number | text | list | object => rfl
    have undefined : resolve setup inner head address entered =
        (.returned (.ok Option.none), headed) := by
      rw [← none]
      exact resolves
    refine ⟨_, _, enters, step,
      call_fails_iff.mpr (.inr ⟨_, _, _, .intro enters undefined, rfl, rfl⟩), nofun, ?_⟩
    rintro _ ⟨⟩
    exact undefined_computed computes

end Data

def Headless (w w' : World ε) : Prop :=
  Grown (fun p : Passage => p.address.head? ≠ some 0) w.passages w'.passages

theorem headless_law : WayLaw (Headless : World ε → World ε → Prop) where
  still same := by
    rw [Headless, same]
    exact .refl _
  trans first second := Grown.trans first second

private theorem tell_headless {hook : Option (Hook ε)} {node : Json} {w w' : World ε}
    (p : Passage) (argument : p.address.head? ≠ some 0)
    (told : tell hook node (w.pass p) = (.returned (), w')) : Headless w w' := by
  obtain ⟨env, state, _⟩ := tell_ends hook node (w.pass p)
  rw [told] at state
  have passed : w'.passages = p :: w.passages := congrArg World.passages state
  rw [Headless, passed]
  exact Grown.cons (P := fun p : Passage => p.address.head? ≠ some 0) argument _

section Headless

variable [Callable φ ε] {setup : Setup φ ε} {inner : InnerRun φ}

private theorem evaluate_headless_of_entered {node : Json} {address : Address}
    (argument : address.head? ≠ some 0)
    (headless : (evaluateEntered setup inner node address).OnValue Headless) :
    (evaluate setup inner node address).OnValue Headless := by
  intro w v w' done
  rw [evaluate_eq] at done
  obtain ⟨_, entered, enters, done⟩ := Run.bind_returned done
  obtain ⟨outcome, called, step, done⟩ := Run.bind_returned done
  cases outcome with
  | error failure => cases done
  | ok found =>
    obtain ⟨_, left, leaves, done⟩ := Run.bind_returned done
    cases done
    have first : Headless w entered :=
      tell_headless (.entered address node w.stack) argument enters
    have last : Headless called w' :=
      tell_headless (.left address node called.stack) argument leaves
    exact headless_law.trans (headless_law.trans first (headless entered v called step)) last

theorem evaluate_headless [BEq φ] (standard : setup.sandbox.Standard)
    (before : Calm setup.before) (after : Calm setup.after) (node : Json) (address : Address)
    (argument : address.head? ≠ some 0) :
    (evaluate setup inner node address).OnValue Headless := by
  induction node, address using script_induction with
  | literal node address literal =>
    refine evaluate_headless_of_entered argument fun w v w' done => ?_
    rw [evaluateEntered_literal setup inner literal] at done
    cases done
    exact headless_law.still rfl
  | empty address =>
    refine evaluate_headless_of_entered argument fun w v w' done => ?_
    cases done
    exact headless_law.still rfl
  | named name arguments address inside =>
    refine evaluate_headless_of_entered argument fun w v w' done => ?_
    rw [evaluateEntered, evaluateCall] at done
    obtain ⟨_, _, looked, done⟩ := Run.bind_returned done
    cases looked
    refine headless_law.within (fun start u last body => ?_) w v w' done
    cases found : setup.sandbox.find? name with
    | none =>
      rw [found] at body
      cases body
    | some binding =>
      rw [found] at body
      cases binding with
      | value bound =>
        cases body
        exact headless_law.still rfl
      | callable native =>
        have relays : Routine.Relays native := standard.native Boxes.eachNative_relays found
        have passes := Program.Only.mono (fun _ allowed => allowed.1) (Program.Relays.only relays)
        have candid := Program.Relays.candid (fun _ allowed => allowed.1) relays
        refine headless_law.invoke_onValue ?_ passes candid start u last body
        intro index evaluation asked
        obtain ⟨node, there, rfl⟩ := argument_of_evaluation setup inner asked
        apply inside index node there
        rintro ⟨⟩
        cases there
  | computed head arguments address computes atHead inside =>
    -- The head is entered here, but the call has no value.
    intro w v w' done
    obtain ⟨_, _, _, f, _, _, _, fails, _⟩ :=
      computed_call_fails standard before after inner computes arguments address w
    cases done.symm.trans fails

end Headless

/-- With the standard natives and values without functions, and with hooks that do not panic, every
evaluation of a node returns, and a value that it returns has a document. A call whose head is no
name fails, with the failure of the head if that fails, and otherwise because the head, given by its
text, is undefined. So a run with a value has not entered a head. -/
theorem standard_script_computes_data [BEq φ] [Callable φ ε] [Inhabited ε] (c : Context φ ε)
    (standard : c.sandbox.Standard) (before : Calm c.before) (after : Calm c.after) :
    (∀ inner node address w, ∃ outcome w',
      evaluate c.toSetup inner node address w = (.returned outcome, w') ∧
        ∀ v, outcome = .ok v → v.toJson?.isSome) ∧
    (∀ inner head arguments address w, (∀ name, head ≠ .string name) →
      ∃ entered outcome headed f w',
        enter c.toSetup address (.array (head :: arguments)) w = (.returned (), entered) ∧
        evaluate c.toSetup inner head (0 :: address) entered = (.returned outcome, headed) ∧
        evaluate c.toSetup inner (.array (head :: arguments)) address w =
          (.returned (.error f), w') ∧
        (∀ g, outcome = .error g → f = g) ∧
        ∀ v, outcome = .ok v → f.cause = .undefinedHead head.render) ∧
    ∀ script ledger v c' ledger', c.run script ledger = (.returned (.ok v), c', ledger') →
      ∀ p ∈ c.way script ledger, p.address.head? ≠ some 0 := by
  refine ⟨?_, ?_, ?_⟩
  · intro inner node address w
    obtain ⟨outcome, w', step, free⟩ :=
      evaluate_functionFree standard before after inner node address w
    refine ⟨outcome, w', step, fun v valued => ?_⟩
    rw [Option.isSome_iff_ne_none, ne_eq, Value.toJson?_eq_none_iff]
    rintro ⟨f, reached⟩
    exact free v valued f reached
  · intro inner head arguments address w computes
    exact computed_call_fails standard before after inner computes arguments address w
  · intro script ledger v c' ledger' done p passed
    obtain ⟨w, traced, _, _⟩ := Context.close_returned done
    obtain ⟨steps, grown, headless⟩ := evaluate_headless standard before after script [] nofun _ v w
      (Context.evaluation_returned traced nofun)
    rw [List.append_nil] at grown
    apply headless p
    rw [← grown]
    have way : c.way script ledger = w.passages.reverse :=
      congrArg (fun e => e.2.passages.reverse) traced
    rwa [way, List.mem_reverse] at passed

/-- A computed head in a branch that is not taken is not entered; where it is, it is undefined. -/
theorem computed_head_of_untaken_branch_not_entered :
    let c : Context Probe.Closure Nat :=
      { sandbox := Boxes.standard.insertValue "x" (.list [.null]), env := 0
        before := some fun view _ => { env := view.env + 1 } }
    let inner := Context.innerRun c.sandbox Context.runLimit
    let start : World Nat := { env := 0, ledger := {} }
    let head : Json := .array [.string "x"]
    let script : Json := .array [.string "if", head, head, .array [head, .null]]
    (∃ v w', evaluate c.toSetup inner script [] start = (.returned (.ok v), w') ∧
      v.toJson?.isSome) ∧
    (∃ f w', evaluate c.toSetup inner (.array [head, .null]) [] start =
      (.returned (.error f), w') ∧ f.cause = .undefinedHead "[\"x\"]") ∧
    (c.way script {}).length = 6 ∧ ∀ p ∈ c.way script {}, p.address.head? ≠ some 0 := by
  intro c inner start head script
  have standard : c.sandbox.Standard := by
    refine Sandbox.Standard.standard.insertValue "x" (Value.functionFree_list.mpr ?_)
    intro v member
    rw [List.mem_singleton.mp member]
    exact Value.functionFree_null
  have before : Calm c.before := by
    rintro h ⟨⟩ view node
    rfl
  obtain ⟨data, calls, headless⟩ := standard_script_computes_data c standard before nofun
  have evaluated : ∃ v w', evaluate c.toSetup inner script [] start = (.returned (.ok v), w') :=
    ⟨_, _, rfl⟩
  have ran : ∃ v c' ledger', c.run script {} = (.returned (.ok v), c', ledger') := ⟨_, _, _, rfl⟩
  refine ⟨?_, ?_, by decide +kernel, ?_⟩
  · obtain ⟨v, w', step⟩ := evaluated
    obtain ⟨outcome, _, same, document⟩ := data inner script [] start
    cases step.symm.trans same
    exact ⟨v, w', step, document v rfl⟩
  · obtain ⟨_, _, _, f, w', enters, evaluates, fails, _, undefined⟩ :=
      calls inner head [.null] [] start nofun
    cases enters
    cases evaluates
    exact ⟨f, w', fails, undefined _ rfl⟩
  · obtain ⟨v, c', ledger', ran⟩ := ran
    exact headless script {} v c' ledger' ran

end JsonScript
