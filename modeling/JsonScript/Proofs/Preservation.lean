import JsonScript.Proofs.Evaluation
import JsonScript.Proofs.Natives

/-!
Laws that evaluation obeys because its steps do.

A law of computations may hold of the single steps and pass from parts to what is composed of them.
Then evaluation obeys it, if it is obeyed where nodes are entered and left, where natives set the
environment, and by the runs that natives start. Some laws concern the calls in progress and hold of
a call as a whole only; others hold of every step. One of these is that a relation between earlier
and later states is kept, however the steps end.
-/

set_option autoImplicit false
set_option relaxedAutoImplicit false

namespace JsonScript

open Evaluator

variable {φ ε α β : Type}

/-- A law of computations that is obeyed by looks at calls and environment, by steps that concern
only the ledger, by calls around what obeys it, and by what is composed of computations that obey
it. -/
structure CallLaw (Law : {α : Type} → Run ε α → Prop) : Prop where
  look : ∀ {α : Type} {view : World ε → α},
    (∀ w ledger passages, view { w with ledger, passages } = view w) → Law (Run.look view)
  dispatch : ∀ arity, Law (reportDispatch arity)
  fresh : Law fun w => (.returned w.ledger.nextFresh,
    { w with ledger := { w.ledger with nextFresh := w.ledger.nextFresh + 1 } })
  bind : ∀ {α β : Type} {m : Run ε α} {next : α → Run ε β},
    Law m → (∀ x, Law (next x)) → Law (m >>= next)
  within : ∀ {α : Type} {m : Run ε α} (frame : Frame), Law m → Law (Run.within frame m)
  catchPanic : ∀ {α : Type} {m : Run ε α}, Law m → Law m.catchPanic

/-- The routine obeys the law as soon as the answers to all that it may ask do. -/
def Routine.Obeys (Law : {α : Type} → Run ε α → Prop) (allowed : Request φ ε → Prop)
    (routine : Routine φ ε α) : Prop :=
  ∀ answers : (r : Request φ ε) → Run ε r.Reply, (∀ r, allowed r → Law (answers r)) →
    Law (perform answers routine.run)

namespace CallLaw

variable {Law : {α : Type} → Run ε α → Prop} (law : CallLaw Law)

include law

theorem pure (x : α) : Law (Pure.pure x : Run ε α) :=
  law.look fun _ _ _ => rfl

private theorem fetch_lawful (shape : Shape) (index : Nat) {evaluation : Run ε (Outcome φ)}
    (body : Law evaluation) : Law (fetch shape index evaluation) := by
  refine law.bind body fun outcome => ?_
  cases outcome with
  | error failure => exact law.pure _
  | ok v =>
    simp only [convert]
    cases shape.fromValue v with
    | ok x => exact law.pure _
    | error mismatch => exact law.look fun _ _ _ => rfl

private theorem answer_lawful (setup : Setup φ ε) {inner : InnerRun φ}
    (runs : ∀ script, Law (serveInner inner script)) (arguments : List Json)
    {evaluations : List (Run ε (Outcome φ))}
    (inside : ∀ index evaluation, argumentAt? evaluations index = some evaluation →
      Law evaluation)
    (r : Request φ ε)
    (environment : ∀ env, r = .setEnvironment env → Law (Run.change fun w => { w with env })) :
    Law (answer setup inner arguments evaluations r) := by
  have missed {γ : Type} (index : Nat) : Law (missing index : Run ε (Except Failure γ)) :=
    law.look fun _ _ _ => rfl
  cases r with
  | setEnvironment env => exact environment env rfl
  | argument shape index =>
    simp only [answer]
    cases found : argumentAt? evaluations index with
    | some evaluation => exact law.fetch_lawful shape index (inside index evaluation found)
    | none => exact missed index
  | argumentIfAny shape index =>
    simp only [answer]
    cases found : argumentAt? evaluations index with
    | some evaluation =>
      have fetched := law.fetch_lawful shape index (inside index evaluation found)
      exact law.bind fetched fun _ => law.pure _
    | none => exact law.pure _
  | attempt index =>
    simp only [answer]
    cases found : argumentAt? evaluations index with
    | some evaluation => exact law.catchPanic (inside index evaluation found)
    | none => exact law.bind (missed index) fun _ => law.pure _
  | fresh => exact law.fresh
  | run script => exact runs script
  | arity | raw | failure | stack | environment | bound | lifting =>
    exact law.look fun _ _ _ => rfl

variable [Callable φ ε] {setup : Setup φ ε} {inner : InnerRun φ}
  {allowed : Request φ ε → Prop} (runs : ∀ script, Law (serveInner inner script))
  (environment : ∀ env, allowed (.setEnvironment env) → Law (Run.change fun w => { w with env }))

include runs environment

theorem perform_lawful {arguments : List Json} {address : Address}
    (inside : ∀ index argument, argumentAt? arguments index = some argument →
      Law (evaluate setup inner argument (index :: address)))
    {native : Native φ ε} (obeys : Routine.Obeys Law allowed native) :
    Law (perform (answer setup inner arguments (evaluations setup inner arguments address 1))
      native.run) := by
  refine obeys _ fun r permitted => law.answer_lawful setup runs arguments ?_ r ?_
  · intro index evaluation found
    obtain ⟨argument, there, rfl⟩ := argument_of_evaluation setup inner found
    exact inside index argument there
  · rintro env rfl
    exact environment env permitted

variable (every : setup.sandbox.EveryNative (Routine.Obeys Law allowed))

include every

theorem evaluateCall_lawful {head : Json} {arguments : List Json} {address : Address}
    (atHead : (∀ name, head ≠ .string name) → Law (evaluate setup inner head (0 :: address)))
    (inside : ∀ index argument, argumentAt? arguments index = some argument →
      Law (evaluate setup inner argument (index :: address))) :
    Law (evaluateCall setup inner (head :: arguments) address) := by
  have served {native : Native φ ε} (obeys : Routine.Obeys Law allowed native) :
      Law (invoke setup inner arguments (evaluations setup inner arguments address 1) native) :=
    law.bind (law.dispatch _) fun _ =>
      law.bind (law.perform_lawful runs environment inside obeys) fun _ =>
        law.look fun _ _ _ => rfl
  have fails (cause : Cause) : Law (Run.fail cause : Run ε (Outcome φ)) :=
    law.look fun _ _ _ => rfl
  by_cases byName : ∃ name, head = .string name
  · obtain ⟨name, rfl⟩ := byName
    rw [evaluateCall]
    refine law.bind (law.look fun _ _ _ => rfl) fun depth => law.within _ ?_
    cases found : setup.sandbox.find? name with
    | none => exact fails _
    | some binding =>
      cases binding with
      | value v => exact law.pure _
      | callable native => exact served (every.1 name native found)
  · have computes (name : String) : head ≠ .string name := fun same => byName ⟨name, same⟩
    rw [evaluateCall.eq_3 setup inner address head arguments computes]
    refine law.bind (law.look fun _ _ _ => rfl) fun depth =>
      law.bind (atHead computes) fun outcome => ?_
    cases outcome with
    | error failure => exact law.pure _
    | ok callee =>
      refine law.within _ ?_
      cases callee with
      | function f => exact served (every.2 f)
      | null | bool | number | text | list | object => exact fails _

theorem evaluate_lawful (entering : ∀ address node, Law (enter setup address node))
    (leaving : ∀ address node, Law (leave setup address node))
    (node : Json) (address : Address) : Law (evaluate setup inner node address) := by
  have around {node : Json} {address : Address}
      (entered : Law (evaluateEntered setup inner node address)) :
      Law (evaluate setup inner node address) := by
    rw [evaluate_eq]
    refine law.bind (entering address node) fun _ => law.bind entered fun outcome => ?_
    cases outcome with
    | ok v => exact law.bind (leaving address node) fun _ => law.pure _
    | error failure => exact law.pure _
  induction node, address using script_induction with
  | literal node address literal =>
    refine around ?_
    rw [evaluateEntered_literal setup inner literal]
    exact law.pure _
  | empty address =>
    refine around ?_
    rw [evaluateEntered, evaluateCall]
    exact law.pure _
  | named name arguments address inside =>
    have named : (∀ other, Json.string name ≠ .string other) →
        Law (evaluate setup inner (.string name) (0 :: address)) :=
      fun computes => absurd rfl (computes name)
    exact around (law.evaluateCall_lawful runs environment every named inside)
  | computed head arguments address computes atHead inside =>
    exact around (law.evaluateCall_lawful runs environment every (fun _ => atHead) inside)

end CallLaw

/-- A law of computations that is obeyed by looks at calls and environment, by steps that concern
only calls or ledger, and by what is composed of computations that obey it. -/
structure RunLaw (Law : {α : Type} → Run ε α → Prop) : Prop where
  look : ∀ {α : Type} {view : World ε → α},
    (∀ w ledger passages, view { w with ledger, passages } = view w) → Law (Run.look view)
  unwind : ∀ {α : Type} (payload : Panic), Law (Run.unwind payload : Run ε α)
  frames : ∀ update : List Frame → List Frame,
    Law (Run.change fun w => { w with frames := update w.frames })
  record : ∀ e, Law (Run.record e)
  dispatch : ∀ arity, Law (reportDispatch arity)
  fresh : Law fun w => (.returned w.ledger.nextFresh,
    { w with ledger := { w.ledger with nextFresh := w.ledger.nextFresh + 1 } })
  bind : ∀ {α β : Type} {m : Run ε α} {next : α → Run ε β},
    Law m → (∀ x, Law (next x)) → Law (m >>= next)
  catchPanic : ∀ {α : Type} {m : Run ε α}, Law m → Law m.catchPanic

namespace RunLaw

variable {Law : {α : Type} → Run ε α → Prop} (law : RunLaw Law)

include law

theorem pure (x : α) : Law (Pure.pure x : Run ε α) :=
  law.look fun _ _ _ => rfl

private theorem callLaw : CallLaw Law where
  look := law.look
  dispatch := law.dispatch
  fresh := law.fresh
  bind := law.bind
  within frame body := law.bind (law.frames (frame :: ·)) fun _ =>
    law.bind body fun x => law.bind (law.frames List.tail) fun _ => law.pure x
  catchPanic := law.catchPanic

private theorem obeys {allowed : Request φ ε → Prop} {routine : Routine φ ε α}
    (only : Routine.Only allowed routine) : Routine.Obeys Law allowed routine := by
  intro answers obeyed
  suffices performed : ∀ program : Program φ ε (Except Failure α), program.Only allowed →
      Law (perform answers program) from performed routine.run only
  intro program only
  induction program with
  | done result => exact law.pure result
  | panic payload => exact law.unwind payload
  | ask request next ih =>
    exact law.bind (obeyed request only.1) fun reply => ih reply (only.2 reply)

variable [Callable φ ε] {setup : Setup φ ε} {inner : InnerRun φ}
  {allowed : Request φ ε → Prop} (runs : ∀ script, Law (serveInner inner script))
  (environment : ∀ env, allowed (.setEnvironment env) → Law (Run.change fun w => { w with env }))
  (only : setup.sandbox.EveryNative (Routine.Only allowed))

include runs environment only

theorem evaluateCall_lawful {head : Json} {arguments : List Json} {address : Address}
    (atHead : (∀ name, head ≠ .string name) → Law (evaluate setup inner head (0 :: address)))
    (inside : ∀ index argument, argumentAt? arguments index = some argument →
      Law (evaluate setup inner argument (index :: address))) :
    Law (evaluateCall setup inner (head :: arguments) address) :=
  law.callLaw.evaluateCall_lawful runs environment (only.mono fun _ => law.obeys) atHead inside

theorem evaluate_lawful (entering : ∀ address node, Law (enter setup address node))
    (leaving : ∀ address node, Law (leave setup address node))
    (node : Json) (address : Address) : Law (evaluate setup inner node address) :=
  law.callLaw.evaluate_lawful runs environment (only.mono fun _ => law.obeys) entering leaving node
    address

omit runs environment only in
theorem evaluation_lawful (c : Context φ ε) {script : Json}
    (body : Law (evaluate c.toSetup inner script [])) : Law (c.evaluation inner script) := by
  unfold Context.evaluation
  split
  · refine law.bind (law.catchPanic body) fun caught => ?_
    cases caught with
    | ok outcome => exact law.pure _
    | error payload =>
      refine law.bind (law.look fun _ _ _ => rfl) fun stack => ?_
      exact law.bind (law.record _) fun _ => law.pure _
  · exact body

end RunLaw

/-- A relation between earlier and later states that concerns neither the calls in progress nor
the ledger. -/
structure StepLaw (R : World ε → World ε → Prop) : Prop where
  trans : ∀ {w between w'}, R w between → R between w' → R w w'
  frames : ∀ w frames, R w { w with frames }
  ledger : ∀ w ledger, R w { w with ledger }

def Run.Keeps (R : World ε → World ε → Prop) (m : Run ε α) : Prop :=
  ∀ w, R w (m w).2

namespace StepLaw

variable {R : World ε → World ε → Prop} (law : StepLaw R)

include law

private theorem bind_keeps {m : Run ε α} {next : α → Run ε β} (first : m.Keeps R)
    (second : ∀ x, (next x).Keeps R) : (m >>= next).Keeps R := by
  intro w
  have kept := first w
  refine Run.bind_cases (motive := fun e => R w e.2) ?_ ?_ ?_
  · intro x between step
    rw [step] at kept
    exact law.trans kept (second x between)
  · intro payload w' step
    rw [step] at kept
    exact kept
  · intro w' step
    rw [step] at kept
    exact kept

theorem keeps : RunLaw (Run.Keeps R) where
  look _ w := law.frames w w.frames
  unwind _ w := law.frames w w.frames
  frames update w := law.frames w (update w.frames)
  record e w := law.ledger w (w.ledger.record e)
  fresh w := law.ledger w _
  bind := law.bind_keeps
  dispatch arity := by
    intro w
    simp only [reportDispatch, Run.change]
    cases w.frames with
    | nil => exact law.frames w w.frames
    | cons call around => exact law.ledger w _
  catchPanic := by
    intro α m body w
    have kept := body w
    unfold Run.catchPanic
    generalize m w = e at kept ⊢
    obtain ⟨x | payload | _, w'⟩ := e <;> exact kept

theorem serveInner_keeps (inner : InnerRun φ) (script : Json) :
    (serveInner inner script).Keeps R :=
  fun w => law.ledger w _

end StepLaw

end JsonScript
