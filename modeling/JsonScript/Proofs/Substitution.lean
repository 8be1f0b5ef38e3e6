import JsonScript.Proofs.Laziness
import JsonScript.Proofs.NestedEvaluation
import JsonScript.Proofs.ReadingOrder

/-!
Nodes with the same value can be exchanged for each other.

With the standard natives and values without functions, what a node does under any calls is settled
by its run. So two nodes that have the same value in runs of their own have it wherever they stand,
and calls around them do the same, whether they evaluate the argument or not.
-/

set_option autoImplicit false
set_option relaxedAutoImplicit false

namespace JsonScript

open Evaluator

variable {φ ε : Type} [Callable φ ε]

namespace Context

variable {c : Context φ ε}

/-- At every position and under any calls, the two nodes have the same outcome: a value without
functions, or a failure below the calls around the nodes. -/
def Interchange (c : Context φ ε) (nodes : Bool → Json) : Prop :=
  ∀ index, ∃ outcome : Outcome φ, (∀ v, outcome = .ok v → v.FunctionFree) ∧
    ∀ which inner address calls, Address.index address = index →
      (evaluate c.toSetup inner (nodes which) address).Gives calls
        (outcome.mapError (·.under calls))

theorem Interchange.of_run [BEq φ] [Inhabited ε] (standard : c.sandbox.Standard)
    (before : c.before = none) (after : c.after = none) {nodes : Bool → Json} {v : Value φ}
    (ran : ∀ which, ∃ ledger, (c.run (nodes which) ledger).1 = .returned (.ok v)) :
    c.Interchange nodes := by
  have evaluates (which : Bool) : c.EvaluatesTo (nodes which) (.ok v) := by
    obtain ⟨outcome, evaluates⟩ := exists_evaluatesTo standard before after (nodes which)
    obtain ⟨ledger, valued⟩ := ran which
    have same := (evaluates.run ledger).symm.trans valued
    rw [← mapError_eq_ok.mp (Ending.returned.inj same)]
    exact evaluates
  refine fun index => ⟨.ok v, (evaluates true).free, ?_⟩
  intro which inner address calls _
  exact (evaluates which).gives inner address calls

theorem Interchange.same [BEq φ] [Inhabited ε] (standard : c.sandbox.Standard)
    (before : c.before = none) (after : c.after = none) (node : Json) :
    c.Interchange fun _ => node := by
  obtain ⟨outcome, evaluates⟩ := exists_evaluatesTo standard before after node
  intro index
  refine ⟨outcome.mapError (·.movedTo (c.outermostIndex node index)), ?_, ?_⟩
  · exact fun v ok => evaluates.free v (mapError_eq_ok.mp ok)
  · rintro _ inner address calls rfl
    have given := evaluates.gives inner address calls
    cases outcome with
    | ok v => exact given
    | error f => exact given

/-- Both calls lack the argument at the position, or their arguments there can be exchanged. -/
def InterchangeAt (c : Context φ ε) (arguments : Bool → List Json) (index : Nat) : Prop :=
  (∀ which, argumentAt? (arguments which) index = none) ∨
    ∃ nodes, (∀ which, argumentAt? (arguments which) index = some (nodes which)) ∧
      c.Interchange nodes

private theorem InterchangeAt.settled {arguments : Bool → List Json} {index : Nat}
    (inside : c.InterchangeAt arguments index) (label : String) :
    ArgumentSettled label (fun i : Bool × InnerRun φ × Address =>
      evaluations c.toSetup i.2.1 (arguments i.1) i.2.2 1) index := by
  simp only [ArgumentSettled, argumentAt?_evaluations]
  rcases inside with absent | ⟨nodes, found, interchange⟩
  · exact .inl fun i => by rw [absent, Option.map_none]
  · obtain ⟨outcome, free, gives⟩ := interchange index
    refine .inr ⟨fun i => evaluate c.toSetup i.2.1 (nodes i.1) (index :: i.2.2), outcome,
      fun i => by rw [found, Option.map_some], ?_, free⟩
    exact fun i call around _ => gives i.1 i.2.1 (index :: i.2.2) (call :: around) rfl

private theorem Interchange.named [BEq φ] (standard : c.sandbox.Standard)
    (before : c.before = none) (after : c.after = none) (name : String)
    {arguments : Bool → List Json} (arity : Nat)
    (counted : ∀ which, (arguments which).length = arity)
    (inside : ∀ index, c.InterchangeAt arguments index) :
    c.Interchange fun which => .array (.string name :: arguments which) := by
  obtain ⟨result, settles, free⟩ := serveName_settles standard
    (fun i : Bool × InnerRun φ × Address => counted i.1) fun index => (inside index).settled name
  intro index
  refine ⟨result.mapError fun f => (f.under [⟨name, 0, 1⟩]).movedTo index,
    fun v ok => free v (mapError_eq_ok.mp ok), ?_⟩
  rintro which inner address calls rfl
  refine evaluate_gives before after ?_
  have served := settles (which, inner, address) ⟨name, address.index, calls.length + 1⟩ calls rfl
  rw [evaluateEntered, evaluateCall]
  refine Run.Gives.depth.bind (.within ?_)
  cases result with
  | ok v => exact served
  | error f =>
    rw [Except.mapError, Failure.under_call] at served
    exact served

private theorem Interchange.computed [BEq φ] [Inhabited ε] (standard : c.sandbox.Standard)
    (before : c.before = none) (after : c.after = none) {head : Json}
    (computes : ∀ name, head ≠ .string name) (arguments : Bool → List Json) :
    c.Interchange fun which => .array (head :: arguments which) := by
  intro index
  obtain ⟨outcome, free, gives⟩ := Interchange.same standard before after head 0
  cases outcome with
  | error f =>
    refine ⟨.error f, by rintro _ ⟨⟩, ?_⟩
    rintro which inner address calls rfl
    refine evaluate_gives before after ?_
    rw [evaluateEntered,
      evaluateCall.eq_3 c.toSetup inner address head (arguments which) computes]
    exact Run.Gives.depth.bind ((gives which inner (0 :: address) calls rfl).bind (.pure _))
  | ok callee =>
    let failure : Failure := ⟨.undefinedHead head.render, .empty⟩
    refine ⟨.error ((failure.under [⟨head.render, 0, 1⟩]).movedTo index), by rintro _ ⟨⟩, ?_⟩
    rintro which inner address calls rfl
    refine evaluate_gives before after ?_
    rw [evaluateEntered,
      evaluateCall.eq_3 c.toSetup inner address head (arguments which) computes]
    refine Run.Gives.depth.bind ((gives which inner (0 :: address) calls rfl).bind ?_)
    rw [Except.mapError, ← Failure.under_call]
    cases callee with
    | function f => exact absurd .self (free _ rfl f)
    | null | bool | number | text | list | object =>
      exact .within (.fail fun _ _ => rfl)

private theorem Interchange.fill [BEq φ] [Inhabited ε] (standard : c.sandbox.Standard)
    (before : c.before = none) (after : c.after = none) (hole : Hole) {nodes : Bool → Json}
    (interchange : c.Interchange nodes) : c.Interchange fun which => hole.fill (nodes which) := by
  induction hole with
  | here => exact interchange
  | inside head first hole last ih =>
    let arguments (which : Bool) : List Json := first ++ hole.fill (nodes which) :: last
    have common {index : Nat} {found : Option Json}
        (there : ∀ which, argumentAt? (arguments which) index = found) :
        c.InterchangeAt arguments index := by
      cases found with
      | none => exact .inl there
      | some node => exact .inr ⟨_, there, .same standard before after node⟩
    have inside (index : Nat) : c.InterchangeAt arguments index := by
      cases index with
      | zero => exact .inl fun _ => rfl
      | succ index =>
        by_cases earlier : index < first.length
        · exact common fun which => List.getElem?_append_left earlier
        · have shifted (which : Bool) : argumentAt? (arguments which) (index + 1) =
              (hole.fill (nodes which) :: last)[index - first.length]? :=
            List.getElem?_append_right (Nat.le_of_not_lt earlier)
          cases position : index - first.length with
          | zero => exact .inr ⟨_, fun which => by rw [shifted, position]; rfl, ih⟩
          | succ later => exact common fun which => by rw [shifted, position]; rfl
    by_cases byName : ∃ name, head = .string name
    · obtain ⟨name, rfl⟩ := byName
      refine .named standard before after name (first.length + (last.length + 1)) ?_ inside
      intro which
      rw [List.length_append, List.length_cons]
    · exact .computed standard before after (fun name same => byName ⟨name, same⟩) arguments

private theorem Interchange.run [Inhabited ε] {nodes : Bool → Json}
    (interchange : c.Interchange nodes) :
    ∃ outcome, ∀ which env ledger,
      ({ c with env }.run (nodes which) ledger).1 = .returned outcome := by
  obtain ⟨outcome, _, gives⟩ := interchange 0
  refine ⟨outcome, fun which => run_of_gives ?_⟩
  have given := gives which (innerRun c.sandbox runLimit) [] [] rfl
  cases outcome with
  | ok v => exact given
  | error f =>
    rw [Except.mapError, Failure.under_nil] at given
    exact given

private theorem run_env [BEq φ] [Inhabited ε] (standard : c.sandbox.Standard)
    (before : c.before = none) (after : c.after = none) (script : Json) (ledger : Ledger) :
    (c.run script ledger).2.1.env = c.env := by
  have law : StepLaw fun w w' : World ε => w'.env = w.env :=
    ⟨fun first second => second.trans first, fun _ _ => rfl, fun _ _ => rfl⟩
  have silent {hook : Option (Hook ε)} (none : hook = none) (node : Json) (w : World ε)
      (p : Passage) : (tell hook node (w.pass p)).2.env = w.env := by
    rw [none]
    rfl
  have calm {hook : Option (Hook ε)} (none : hook = none) : Calm hook := by
    rw [none]
    exact fun _ member => nomatch member
  obtain ⟨outcome, w, traced, _, same⟩ := law.route.trace_proceeds standard
    (fun address node => tell_proceeds (calm before) fun w => silent before node w _)
    (fun address node => tell_proceeds (calm after) fun w => silent after node w _)
    (innerRun c.sandbox runLimit) script ledger
  rw [Context.run, runWith, traced]
  exact same

end Context

/-- With the standard natives and values without functions, and without hooks, two nodes with the
same value in runs of their own can be exchanged as an argument anywhere in a script: the outcome is
the same value, or the same failure. No run changes the environment or depends on it. -/
theorem standard_nodes_interchangeable [BEq φ] [Inhabited ε] (c : Context φ ε)
    (standard : c.sandbox.Standard) (before : c.before = none) (after : c.after = none) :
    (∀ (hole : Hole) (a b : Json) (v : Value φ) (ledger ledger' : Ledger),
      (c.run a ledger).1 = .returned (.ok v) → (c.run b ledger').1 = .returned (.ok v) →
      ∃ outcome, (c.run (hole.fill a) ledger).1 = .returned outcome ∧
        (c.run (hole.fill b) ledger').1 = .returned outcome) ∧
    ∀ (script : Json) (ledger : Ledger), (c.run script ledger).2.1.env = c.env ∧
      ∀ env, ({ c with env }.run script ledger).1 = (c.run script ledger).1 := by
  constructor
  · intro hole a b v ledger ledger' ranFirst ranSecond
    have interchange : c.Interchange (Bool.rec b a) := by
      refine .of_run standard before after (v := v) ?_
      rintro (_ | _)
      · exact ⟨ledger', ranSecond⟩
      · exact ⟨ledger, ranFirst⟩
    obtain ⟨outcome, runs⟩ := (interchange.fill standard before after hole).run
    exact ⟨outcome, runs true c.env ledger, runs false c.env ledger'⟩
  · intro script ledger
    obtain ⟨outcome, runs⟩ := (Context.Interchange.same standard before after script).run
    refine ⟨Context.run_env standard before after script ledger, fun env => ?_⟩
    exact (runs true env ledger).trans (runs true c.env ledger).symm

/-- The call of a value, and a call that has this value, in front of a call that fails. -/
theorem standard_nodes_interchanged_before_failure :
    let c : Context Probe.Closure Nat :=
      .ofSandbox (Boxes.standard.insertValue "x" (.text "t")) 7
    let a : Json := .array [.string "x"]
    let b : Json := .array [.string "or", .null, .string "t", .array [.string "nope"]]
    let hole : Hole :=
      .inside (.string "do") [] (.inside (.string "not") [] .here []) [.array [.string "nope"]]
    let failure : Failure := ⟨.undefinedName "nope", ⟨[⟨"nope", 2, 2⟩, ⟨"do", 0, 1⟩]⟩⟩
    (c.run (hole.fill a) {}).1 = .returned (.error failure) ∧
    (c.run (hole.fill b) {}).1 = .returned (.error failure) ∧
    (c.run (hole.fill b) {}).2.1.env = 7 ∧
    ({ c with env := 8 }.run (hole.fill b) {}).1 = .returned (.error failure) := by
  intro c a b hole failure
  have standard : c.sandbox.Standard :=
    Sandbox.Standard.standard.insertValue "x" (Value.functionFree_text _)
  obtain ⟨interchange, kept⟩ := standard_nodes_interchangeable c standard rfl rfl
  obtain ⟨outcome, first, second⟩ := interchange hole a b (.text "t") {} {} rfl rfl
  have fails : (c.run (hole.fill a) {}).1 = .returned (.error failure) := rfl
  have fails' : (c.run (hole.fill b) {}).1 = .returned (.error failure) :=
    second.trans (first.symm.trans fails)
  obtain ⟨unchanged, elsewhere⟩ := kept (hole.fill b) {}
  exact ⟨fails, fails', unchanged, (elsewhere 8).trans fails'⟩

end JsonScript
