import JsonScript.Proofs.Visits

/-!
What hooks see of a run.

Hooks see a visit of the root. Where natives do not succeed after an argument of theirs has failed,
a value of the whole is a value of every node on the way, so every node that is entered is left.
-/

set_option autoImplicit false
set_option relaxedAutoImplicit false

namespace JsonScript

open Evaluator

variable {φ ε α : Type}

/-- A relation between earlier and later states that concerns only the way, and that goes on from
state to state. -/
structure WayLaw (R : World ε → World ε → Prop) : Prop where
  still : ∀ {w w' : World ε}, w'.passages = w.passages → R w w'
  trans : ∀ {w between w' : World ε}, R w between → R between w' → R w w'

/-- Whenever the evaluation gives a value, the states before and after are related. -/
def Run.OnValue (R : World ε → World ε → Prop) (evaluation : Run ε (Outcome φ)) : Prop :=
  ∀ w v w', evaluation w = (.returned (.ok v), w') → R w w'

private theorem perform_unsuccessful {answers : (r : Request φ ε) → Run ε r.Reply}
    {program : Program φ ε (Except Failure α)} (fails : program.Fails) {w w' : World ε} {x : α}
    (done : perform answers program w = (.returned (.ok x), w')) : False := by
  induction program generalizing w with
  | done result =>
    cases done
    exact fails
  | panic payload => cases done
  | ask request next ih =>
    rw [perform] at done
    obtain ⟨reply, between, _, done⟩ := Run.bind_returned done
    exact ih reply (fails reply) done

namespace WayLaw

variable {R : World ε → World ε → Prop} (law : WayLaw R)

include law

private theorem perform_onValue {answers : (r : Request φ ε) → Run ε r.Reply}
    {allowed : Request φ ε → Prop}
    (related : ∀ r, allowed r → ∀ w reply w', answers r w = (.returned reply, w') →
      r.argumentFailed reply = false → R w w')
    {program : Program φ ε (Except Failure α)} (only : program.Only allowed)
    (candid : program.Candid) {w w' : World ε} {x : α}
    (done : perform answers program w = (.returned (.ok x), w')) : R w w' := by
  induction program generalizing w with
  | done result =>
    cases done
    exact law.still rfl
  | panic payload => cases done
  | ask request next ih =>
    rw [perform] at done
    obtain ⟨reply, between, step, done⟩ := Run.bind_returned done
    obtain ⟨goesOn, stops⟩ := candid reply
    cases failed : request.argumentFailed reply with
    | true => exact (perform_unsuccessful (stops failed) done).elim
    | false =>
      have first := related request only.1 w reply between step failed
      exact law.trans first (ih reply (only.2 reply) goesOn done)

omit law in
private theorem fetch_onValue {shape : Shape} {index : Nat} {evaluation : Run ε (Outcome φ)}
    (valued : evaluation.OnValue R) {w w' : World ε} {x : shape.Host φ}
    (done : fetch shape index evaluation w = (.returned (.ok x), w')) : R w w' := by
  obtain ⟨outcome, between, step, done⟩ := Run.bind_returned done
  cases outcome with
  | error failure => cases done
  | ok v =>
    have first := valued w v between step
    simp only [convert] at done
    cases converted : shape.fromValue v with
    | ok y =>
      rw [converted] at done
      cases done
      exact first
    | error mismatch =>
      rw [converted] at done
      cases done

private theorem answer_onValue (setup : Setup φ ε) (inner : InnerRun φ) (arguments : List Json)
    {evaluations : List (Run ε (Outcome φ))}
    (valued : ∀ index evaluation, argumentAt? evaluations index = some evaluation →
      evaluation.OnValue R)
    (r : Request φ ε) (passes : r.catchesPanic = false) (w : World ε) (reply : r.Reply)
    (w' : World ε) (step : answer setup inner arguments evaluations r w = (.returned reply, w'))
    (fine : r.argumentFailed reply = false) : R w w' := by
  cases r with
  | attempt index => cases passes
  | argument shape index =>
    simp only [answer] at step
    cases reply with
    | error failure => cases fine
    | ok x =>
      cases found : argumentAt? evaluations index with
      | some evaluation =>
        rw [found] at step
        exact fetch_onValue (valued index evaluation found) step
      | none =>
        rw [found] at step
        cases step
  | argumentIfAny shape index =>
    simp only [answer] at step
    cases reply with
    | error failure => cases fine
    | ok x =>
      cases found : argumentAt? evaluations index with
      | some evaluation =>
        rw [found] at step
        obtain ⟨result, between, step, mapped⟩ := Run.bind_returned step
        cases result with
        | error failure => cases mapped
        | ok y =>
          cases mapped
          exact fetch_onValue (valued index evaluation found) step
      | none =>
        rw [found] at step
        cases step
        exact law.still rfl
  | arity | raw | failure | stack | environment | setEnvironment | bound | lifting | fresh | run =>
    exact law.still (congrArg (fun e => e.2.passages) step).symm

theorem invoke_onValue {setup : Setup φ ε} {inner : InnerRun φ} {arguments : List Json}
    {evaluations : List (Run ε (Outcome φ))}
    (valued : ∀ index evaluation, argumentAt? evaluations index = some evaluation →
      evaluation.OnValue R)
    {native : Native φ ε} (passes : Routine.Only (·.catchesPanic = false) native)
    (candid : Routine.Candid native) :
    (invoke setup inner arguments evaluations native).OnValue R := by
  intro w v w' done
  obtain ⟨_, reported, report, done⟩ := Run.bind_returned done
  obtain ⟨outcome, served, serve, done⟩ := Run.bind_returned done
  have start : R w reported := by
    have same : (reportDispatch arguments.length w).2.passages = w.passages := by
      simp only [reportDispatch, Run.change]
      cases w.frames with
      | nil => rfl
      | cons call around => rfl
    rw [report] at same
    exact law.still same
  cases outcome with
  | error failure => cases done
  | ok found =>
    cases done
    have answered := law.answer_onValue setup inner arguments valued
    exact law.trans start (law.perform_onValue answered passes candid serve)

theorem within {frame : Frame} {body : Run ε (Outcome φ)} (valued : body.OnValue R) :
    (Run.within frame body).OnValue R := by
  intro w v w' done
  obtain ⟨last, inside, rfl⟩ := Run.within_returned done
  have entered : R w { w with frames := frame :: w.frames } := law.still rfl
  exact law.trans (law.trans entered (valued _ v last inside)) (law.still rfl)

end WayLaw

def Even (w w' : World ε) : Prop :=
  ∃ steps, w'.passages = steps ++ w.passages ∧
    steps.countP Passage.isEntry = steps.countP (!·.isEntry)

theorem even_law : WayLaw (Even : World ε → World ε → Prop) where
  still same := ⟨[], same, rfl⟩
  trans := by
    rintro w between w' ⟨steps, grown, counts⟩ ⟨later, grown', counts'⟩
    refine ⟨later ++ steps, by simp [grown, grown'], ?_⟩
    rw [List.countP_append, List.countP_append, counts, counts']

section Values

variable [Callable φ ε] {setup : Setup φ ε} {inner : InnerRun φ}

private theorem evaluate_even_of_entered {node : Json} {address : Address}
    (even : (evaluateEntered setup inner node address).OnValue Even) :
    (evaluate setup inner node address).OnValue Even := by
  intro w v w' done
  rw [evaluate_eq] at done
  obtain ⟨_, entered, enters, done⟩ := Run.bind_returned done
  obtain ⟨outcome, called, step, done⟩ := Run.bind_returned done
  cases outcome with
  | error failure => cases done
  | ok found =>
    obtain ⟨_, left, leaves, done⟩ := Run.bind_returned done
    cases done
    obtain ⟨env, opened, _⟩ := enter_passes setup address node w
    rw [enters] at opened
    obtain ⟨env', told, _⟩ :=
      tell_ends setup.after node (called.pass (.left address node called.stack))
    have closed : w' = { called.pass (.left address node called.stack) with env := env' } :=
      (congrArg Prod.snd leaves).symm.trans told
    obtain ⟨steps, grown, counts⟩ := even entered v called step
    have first : entered.passages = .entered address node w.stack :: w.passages :=
      congrArg World.passages opened
    have last : w'.passages = .left address node called.stack :: called.passages :=
      congrArg World.passages closed
    refine ⟨.left address node called.stack :: (steps ++ [.entered address node w.stack]), ?_, ?_⟩
    · simp [last, grown, first]
    · simp [Passage.isEntry] at counts ⊢
      omega

private theorem evaluate_even
    (passes : setup.sandbox.EveryNative (Routine.Only (·.catchesPanic = false)))
    (candid : setup.sandbox.EveryNative Routine.Candid) (node : Json) (address : Address) :
    (evaluate setup inner node address).OnValue Even := by
  have served {arguments : List Json} {address : Address}
      (inside : ∀ index argument, argumentAt? arguments index = some argument →
        (evaluate setup inner argument (index :: address)).OnValue Even)
      {native : Native φ ε} (passes : Routine.Only (·.catchesPanic = false) native)
      (candid : Routine.Candid native) :
      (invoke setup inner arguments (evaluations setup inner arguments address 1) native).OnValue
        Even := by
    refine even_law.invoke_onValue ?_ passes candid
    intro index evaluation found
    obtain ⟨argument, there, rfl⟩ := argument_of_evaluation setup inner found
    exact inside index argument there
  induction node, address using script_induction with
  | literal node address literal =>
    refine evaluate_even_of_entered fun w v w' done => ?_
    rw [evaluateEntered_literal setup inner literal] at done
    cases done
    exact even_law.still rfl
  | empty address =>
    refine evaluate_even_of_entered fun w v w' done => ?_
    cases done
    exact even_law.still rfl
  | named name arguments address inside =>
    refine evaluate_even_of_entered fun w v w' done => ?_
    rw [evaluateEntered, evaluateCall] at done
    obtain ⟨_, _, looked, done⟩ := Run.bind_returned done
    cases looked
    refine even_law.within (fun start u last body => ?_) w v w' done
    cases found : setup.sandbox.find? name with
    | none =>
      rw [found] at body
      cases body
    | some binding =>
      rw [found] at body
      cases binding with
      | value bound =>
        cases body
        exact even_law.still rfl
      | callable native =>
        have own := served inside (passes.1 name native found) (candid.1 name native found)
        exact own start u last body
  | computed head arguments address computes atHead inside =>
    refine evaluate_even_of_entered fun w v w' done => ?_
    rw [evaluateEntered, evaluateCall.eq_3 setup inner address head arguments computes] at done
    obtain ⟨_, _, looked, done⟩ := Run.bind_returned done
    cases looked
    obtain ⟨outcome, headed, step, done⟩ := Run.bind_returned done
    cases outcome with
    | error failure => cases done
    | ok callee =>
      refine even_law.trans (atHead w callee headed step) (even_law.within ?_ headed v w' done)
      intro start u last body
      cases callee with
      | function f => exact served inside (passes.2 f) (candid.2 f) start u last body
      | null | bool | number | text | list | object => cases body

end Values

/-- What a hook is told: whether the node is entered, the node, and the calls in progress. -/
def Passage.told : Passage → Bool × Json × Stack
  | .entered _ node stack => (true, node, stack)
  | .left _ node stack => (false, node, stack)

/-- What hooks were told, latest first. -/
abbrev HookRecord := List (Bool × Json × Stack)

/-- There is a hook, and it adds what it is told to a record that the environment holds. -/
def Writes (record : ε → HookRecord) (entry : Bool) (hook : Option (Hook ε)) : Prop :=
  ∃ h, hook = some h ∧ ∀ view node,
    record (h view node).env = (entry, node, view.stack) :: record view.env

def Request.setsEnvironment : Request φ ε → Bool
  | .setEnvironment _ => true
  | _ => false

/-- Between the states the record grew by what hooks are told on the way. -/
def Recorded (record : ε → HookRecord) (w w' : World ε) : Prop :=
  ∃ steps, w'.passages = steps ++ w.passages ∧
    record w'.env = steps.map Passage.told ++ record w.env

theorem recorded_law (record : ε → HookRecord) :
    StepLaw (Recorded record) where
  trans := by
    rintro w between w' ⟨steps, grown, written⟩ ⟨later, grown', written'⟩
    exact ⟨later ++ steps, by simp [grown, grown'], by simp [written, written']⟩
  frames w frames := ⟨[], rfl, rfl⟩
  ledger w ledger := ⟨[], rfl, rfl⟩

theorem tell_recorded {record : ε → HookRecord} {entry : Bool}
    {hook : Option (Hook ε)} (writes : Writes record entry hook) (node : Json) (w : World ε)
    {p : Passage} (told : p.told = (entry, node, w.stack)) :
    Recorded record w (Evaluator.tell hook node (w.pass p)).2 := by
  obtain ⟨h, rfl, written⟩ := writes
  rw [tell_state]
  refine ⟨[p], rfl, ?_⟩
  rw [List.map_singleton, told]
  exact written ⟨w.env, w.stack⟩ node

private theorem evaluate_recorded [Callable φ ε] {setup : Setup φ ε} (inner : InnerRun φ)
    {record : ε → HookRecord} (before : Writes record true setup.before)
    (after : Writes record false setup.after)
    (leaves : setup.sandbox.EveryNative (Routine.Only (·.setsEnvironment = false)))
    (node : Json) (address : Address) :
    (evaluate setup inner node address).Keeps (Recorded record) := by
  have law := recorded_law record
  refine law.keeps.evaluate_lawful (law.serveInner_keeps inner) ?_ leaves ?_ ?_ node address
  · exact fun _ sets => nomatch sets
  · exact fun address node w => tell_recorded before node w rfl
  · exact fun address node w => tell_recorded after node w rfl

private theorem close_ending (c : Context φ ε) (e : Ending (Outcome φ) × World ε) :
    (c.close e).1 = e.1 ∧ (c.close e).2.1.env = e.2.env := by
  obtain ⟨ending, w⟩ := e
  cases ending with
  | returned outcome => exact ⟨rfl, rfl⟩
  | unwound payload => exact ⟨rfl, rfl⟩
  | exhausted => exact ⟨rfl, rfl⟩

variable [Callable φ ε]

private theorem evaluation_visited (c : Context φ ε) {inner : InnerRun φ} {script : Json}
    {w : World ε}
    (visited : Visited c.toSetup inner script [] w (evaluate c.toSetup inner script [] w)) :
    Visited c.toSetup inner script [] w (c.evaluation inner script w) := by
  unfold Context.evaluation
  split
  · rw [Context.liftPanic_apply]
    obtain ⟨inside, valued, visits, took⟩ := visited
    refine ⟨inside, valued, visits, ?_⟩
    generalize evaluate c.toSetup inner script [] w = e at took ⊢
    obtain ⟨ending, w'⟩ := e
    cases ending with
    | returned outcome => exact took
    | unwound payload => exact ⟨took.passages, took.value⟩
    | exhausted => exact took
  · exact visited

/-- The way of a run through its script, from the first step to the last. -/
def Context.way [Inhabited ε] (c : Context φ ε) (script : Json) (ledger : Ledger) : List Passage :=
  (c.trace (innerRun c.sandbox runLimit) script ledger).2.passages.reverse

/-- On natives that let panics through, and with a hook after nodes that does not panic, the way of
a run through its script is a visit of the root, with visits of parts of nodes inside visits of the
nodes. The run has a value just when the last step leaves the root. If no native succeeds after an
argument of it has failed, a run with a value leaves as many nodes as it enters. Hooks that keep a
record in the environment, where natives do not touch it, have recorded the way. -/
theorem hooks_bracket_evaluation [Inhabited ε] (c : Context φ ε)
    (passes : c.sandbox.EveryNative (Routine.Only (·.catchesPanic = false)))
    (calm : Calm c.after) (script : Json) (ledger : Ledger) :
    let inner := Context.innerRun c.sandbox Context.runLimit
    let way := c.way script ledger
    let run := c.run script ledger
    (∃ inside, Visits c.toSetup inner script [] inside ∧
      way = visit [] script .empty inside run.1.hasValue) ∧
    (run.1.hasValue = true ↔ way.getLast? = some (.left [] script .empty)) ∧
    (c.sandbox.EveryNative Routine.Candid → run.1.hasValue = true →
      way.countP Passage.isEntry = way.countP (!·.isEntry)) ∧
    ∀ record : ε → HookRecord,
      c.sandbox.EveryNative (Routine.Only (·.setsEnvironment = false)) →
      Writes record true c.before → Writes record false c.after →
        record run.2.1.env = way.reverse.map Passage.told ++ record c.env := by
  intro inner way run
  let start : World ε := { env := c.env, ledger }
  obtain ⟨ends, keepsEnv⟩ := close_ending c (c.evaluation inner script start)
  have innerLeveled : inner.SeesLeveled :=
    innerRun_seesLeveled c.sandbox passes Context.runLimit
  obtain ⟨inside, valued, visits, took⟩ := evaluation_visited c
    (evaluate_visited innerLeveled passes calm script [] start)
  have value : run.1.hasValue = valued := (congrArg Ending.hasValue ends).trans took.value
  have whole : way = visit [] script .empty inside valued := by
    have passages := took.passages
    rw [List.append_nil] at passages
    exact (congrArg List.reverse passages).trans (List.reverse_reverse _)
  refine ⟨⟨inside, visits, value ▸ whole⟩, ?_, ?_, ?_⟩
  · rw [value, whole]
    exact (visit_getLast? script .empty valued visits.deeper).symm
  · intro candid succeeded
    obtain ⟨v, returned⟩ : ∃ v, (c.evaluation inner script start).1 = .returned (.ok v) :=
      Ending.hasValue_iff.mp (took.value.trans (value.symm.trans succeeded))
    obtain ⟨steps, grown, counts⟩ := evaluate_even passes candid script [] start v _
      (Context.evaluation_returned (Prod.ext returned rfl) nofun)
    rw [List.append_nil] at grown
    have steps_eq : way = steps.reverse := congrArg List.reverse grown
    rw [steps_eq, List.countP_reverse, List.countP_reverse, counts]
  · intro record leaves before after
    obtain ⟨steps, grown, written⟩ := (recorded_law record).keeps.evaluation_lawful c
      (evaluate_recorded inner before after leaves script []) start
    rw [List.append_nil] at grown
    have steps_eq : way.reverse = steps := (List.reverse_reverse _).trans grown
    rw [steps_eq, ← written]
    exact congrArg record keepsEnv

/-- One failure is swallowed on the way, and hooks record the way; on natives that swallow none the
way of a value has as many entries as leavings. -/
theorem hooks_bracket_swallowed_failure :
    let hook (entry : Bool) : Hook HookRecord := fun view node =>
      { env := (entry, node, view.stack) :: view.env }
    let plain : Sandbox Probe.Closure HookRecord :=
      Sandbox.empty.insertNative "first" (Call.argument 1)
    let orElse : Routine Probe.Closure HookRecord (Value Probe.Closure) :=
      tryCatch (Call.argument 1) fun _ => Call.argument 2
    let candid : Context Probe.Closure HookRecord :=
      { sandbox := plain, before := some (hook true), after := some (hook false), env := [] }
    let c := { candid with sandbox := plain.insertNative "try" orElse }
    let calls : Json := .array [.string "first", .array [.string "first", .null]]
    let fails : Json := .array [.string "first", .array [.string "unbound"]]
    let script : Json := .array [.string "try", fails, calls]
    ((∃ inside, Visits c.toSetup (Context.innerRun c.sandbox Context.runLimit) script [] inside ∧
        c.way script {} = visit [] script .empty inside true) ∧
      (c.way script {}).length = 10 ∧
      (c.way script {}).getLast? = some (.left [] script .empty) ∧
      (c.run script {}).2.1.env = (c.way script {}).reverse.map Passage.told) ∧
    (candid.way calls {}).length = 6 ∧
      (candid.way calls {}).countP Passage.isEntry =
        (candid.way calls {}).countP (!·.isEntry) := by
  intro hook plain orElse candid c calls fails script
  have asks (allowed : Request Probe.Closure HookRecord → Prop)
      (arguments : ∀ shape index, allowed (.argument shape index)) (arity : allowed .arity)
      (stack : allowed .stack) (fresh : allowed .fresh) :
      plain.EveryNative (Routine.Only allowed) ∧
        c.sandbox.EveryNative (Routine.Only allowed) := by
    have functions : ∀ f : Probe.Closure,
        Routine.Only allowed (Callable.code f : Native Probe.Closure HookRecord) :=
      Probe.Closure.code_only arguments arity stack fresh
    have base : plain.EveryNative (Routine.Only allowed) :=
      .insertNative (.empty functions) (.argumentAs (arguments _ _)) "first"
    have tries : Routine.Only allowed orElse :=
      .tryCatch (.argumentAs (arguments _ _)) fun _ => .argumentAs (arguments _ _)
    exact ⟨base, base.insertNative tries "try"⟩
  have passes := asks (·.catchesPanic = false) (fun _ _ => rfl) rfl rfl rfl
  have keeps := asks (·.setsEnvironment = false) (fun _ _ => rfl) rfl rfl rfl
  have honest : candid.sandbox.EveryNative Routine.Candid :=
    .insertNative (.empty Probe.Closure.code_candid) (.argumentAs _ _) "first"
  have calm : Calm candid.after := by
    rintro h ⟨⟩ view node
    rfl
  have valued : (c.run script {}).1.hasValue = true := by decide +kernel
  obtain ⟨grammar, last, _, recorded⟩ := hooks_bracket_evaluation c passes.2 calm script {}
  have even := (hooks_bracket_evaluation candid passes.1 calm calls {}).2.2.1 honest rfl
  have written := recorded id keeps.2 ⟨_, rfl, fun _ _ => rfl⟩ ⟨_, rfl, fun _ _ => rfl⟩
  rw [valued] at grammar
  have steps : (c.way script {}).length = 10 := by decide +kernel
  have steps' : (candid.way calls {}).length = 6 := by decide +kernel
  have recorded : (c.run script {}).2.1.env = (c.way script {}).reverse.map Passage.told :=
    written.trans (List.append_nil _)
  exact ⟨⟨grammar, steps, last.mp valued, recorded⟩, steps', even⟩

end JsonScript
