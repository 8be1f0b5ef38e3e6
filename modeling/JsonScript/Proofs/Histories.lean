import JsonScript.Probe.Natives
import JsonScript.Proofs.Preservation

/-!
What a context carries from one run to the next.

A context that was used in any way runs the next script as a new one does that is made with the
same settings and the same environment. Calls that a panic has left behind are gone when a run
starts, and what was reported before is not looked at again.
-/

set_option autoImplicit false
set_option relaxedAutoImplicit false

namespace JsonScript

open Evaluator

variable {φ ε α β : Type}

def Ledger.after (past : List Event) (l : Ledger) : Ledger :=
  { l with events := l.events ++ past }

def World.after (past : List Event) (w : World ε) : World ε :=
  { w with ledger := w.ledger.after past }

def Oblivious (past : List Event) (m : Run ε α) : Prop :=
  ∀ w, m (w.after past) = ((m w).1, (m w).2.after past)

def InnerRun.Oblivious (past : List Event) (inner : InnerRun φ) : Prop :=
  ∀ script ledger, inner script (ledger.after past) =
    ((inner script ledger).1, (inner script ledger).2.after past)

section Evaluation

variable {past : List Event}

private theorem bind_oblivious {m : Run ε α} {next : α → Run ε β} (first : Oblivious past m)
    (second : ∀ x, Oblivious past (next x)) : Oblivious past (m >>= next) := by
  intro w
  rw [Run.bind_apply, Run.bind_apply, first w]
  obtain ⟨ending, between⟩ := m w
  cases ending with
  | returned x => exact second x between
  | unwound payload => rfl
  | exhausted => rfl

private theorem catchPanic_oblivious {m : Run ε α} (body : Oblivious past m) :
    Oblivious past m.catchPanic := by
  intro w
  unfold Run.catchPanic
  rw [body w]
  obtain ⟨ending, w'⟩ := m w
  cases ending with
  | returned x => rfl
  | unwound payload => rfl
  | exhausted => rfl

private theorem reportDispatch_oblivious (arity : Nat) :
    Oblivious past (reportDispatch arity : Run ε Unit) := by
  intro w
  obtain ⟨frames, env, ledger, passages⟩ := w
  cases frames with
  | nil => rfl
  | cons call around => rfl

private theorem oblivious_law (past : List Event) :
    RunLaw fun {α} (m : Run ε α) => Oblivious past m where
  look same := fun w => by
    have unseen := same w (w.ledger.after past) w.passages
    simp only [Run.look, World.after, unseen]
  unwind _ := fun _ => rfl
  frames _ := fun _ => rfl
  record _ := fun _ => rfl
  dispatch := reportDispatch_oblivious
  fresh := fun _ => rfl
  bind := bind_oblivious
  catchPanic := catchPanic_oblivious

private theorem tell_oblivious (hook : Option (Hook ε)) (node : Json) :
    Oblivious past (Evaluator.tell hook node) := by
  intro w
  cases hook with
  | none => rfl
  | some h =>
    dsimp only [Evaluator.tell, World.after, World.stack]
    generalize h ⟨w.env, ⟨w.frames⟩⟩ node = reaction
    cases reaction.panic with
    | none => rfl
    | some payload => rfl

theorem evaluate_oblivious [Callable φ ε] (setup : Setup φ ε) {inner : InnerRun φ}
    (innerOblivious : inner.Oblivious past) (node : Json) (address : Address) :
    Oblivious past (evaluate setup inner node address) := by
  have runs (script : Json) : Oblivious past (serveInner inner script : Run ε (Outcome φ)) := by
    intro w
    have same := innerOblivious script w.ledger
    simp only [serveInner, World.after, same]
  have every : setup.sandbox.EveryNative (Routine.Only fun _ => True) :=
    ⟨fun _ _ _ => .of_forall (fun _ => trivial) _, fun _ => .of_forall (fun _ => trivial) _⟩
  have told (hook : Option (Hook ε)) (node : Json) (step : World ε → Passage)
      (same : ∀ w, step (w.after past) = step w) :
      Oblivious past (do Run.change fun w => w.pass (step w); Evaluator.tell hook node) := by
    refine bind_oblivious (fun w => ?_) fun _ => tell_oblivious hook node
    simp only [Run.change, same]
    rfl
  refine (oblivious_law past).evaluate_lawful runs ?_ every ?_ ?_ node address
  · exact fun env _ w => rfl
  · exact fun address node => told _ node _ fun _ => rfl
  · exact fun address node => told _ node _ fun _ => rfl

end Evaluation

namespace Context

private theorem close_after (c : Context φ ε) (past : List Event) (ending : Ending (Outcome φ))
    (w : World ε) :
    c.close (ending, w.after past) =
      ((c.close (ending, w)).1, (c.close (ending, w)).2.1,
        (c.close (ending, w)).2.2.after past) := by
  cases ending with
  | returned outcome =>
    cases outcome with
    | ok v => rfl
    | error failure => rfl
  | unwound payload => rfl
  | exhausted => rfl

private theorem close_settings {c d : Context φ ε} (same : c.toSetup = d.toSetup)
    (e : Ending (Outcome φ) × World ε) :
    c.close e = d.close e ∧ (c.close e).2.1.toSetup = c.toSetup := by
  obtain ⟨ending, w⟩ := e
  cases ending with
  | returned outcome =>
    simp only [close, same]
    exact ⟨trivial, trivial⟩
  | unwound payload =>
    simp only [close, same]
    exact ⟨trivial, trivial⟩
  | exhausted =>
    simp only [close, same]
    exact ⟨trivial, trivial⟩

variable [Callable φ ε]

private theorem runWith_after (c : Context φ ε) {inner : InnerRun φ} {past : List Event}
    (innerOblivious : inner.Oblivious past) (script : Json) (ledger : Ledger) :
    c.runWith inner script (ledger.after past) =
      ((c.runWith inner script ledger).1, (c.runWith inner script ledger).2.1,
        (c.runWith inner script ledger).2.2.after past) := by
  have whole : Oblivious past (c.evaluation inner script) :=
    (oblivious_law past).evaluation_lawful c
      (evaluate_oblivious c.toSetup innerOblivious script [])
  have traced : c.trace inner script (ledger.after past) =
      ((c.trace inner script ledger).1, (c.trace inner script ledger).2.after past) :=
    whole { env := c.env, ledger }
  rw [runWith, traced, close_after]
  rfl

variable [Inhabited ε]

private theorem innerRun_oblivious (sandbox : Sandbox φ ε) (past : List Event) (limit : Nat) :
    (innerRun sandbox limit).Oblivious past := by
  induction limit with
  | zero => exact fun _ _ => rfl
  | succ limit inside =>
    intro script ledger
    have ran := runWith_after (ofSandbox sandbox default) inside script ledger
    simp only [innerRun, ran]

/-- A run depends on settings and environment, on the supply of fresh numbers, and on nothing else
that a context or a ledger holds. -/
theorem run_eq_fresh (c : Context φ ε) (script : Json) (ledger : Ledger) :
    let fresh : Context φ ε := { toSetup := c.toSetup, env := c.env }
    let alone := fresh.run script { nextFresh := ledger.nextFresh }
    c.run script ledger = (alone.1, alone.2.1, alone.2.2.after ledger.events) := by
  intro fresh alone
  have oblivious := innerRun_oblivious c.sandbox ledger.events runLimit
  have closed : c.run script ledger = fresh.run script ledger :=
    (close_settings rfl _).1
  have earlier : ledger = Ledger.after ledger.events { nextFresh := ledger.nextFresh } := rfl
  rw [closed, earlier]
  exact runWith_after fresh oblivious script { nextFresh := ledger.nextFresh }

end Context

/-- What a host can do with a context. -/
inductive HostStep (φ ε : Type) where
  | run (script : Json)
  | runText (text : String)
  | setLift (lift : Bool)
  | setSandbox (sandbox : Sandbox φ ε)
  | changeEnv (update : ε → ε)

def HostStep.choose (setup : Setup φ ε) : HostStep φ ε → Setup φ ε
  | .setLift lift => { setup with lift }
  | .setSandbox sandbox => { setup with sandbox }
  | _ => setup

namespace Context

variable [Callable φ ε] [Inhabited ε]

def step (c : Context φ ε) (ledger : Ledger) : HostStep φ ε → Context φ ε × Ledger
  | .run script => (c.run script ledger).2
  | .runText text => (c.runText text ledger).2
  | .setLift lift => ({ c with lift }, ledger)
  | .setSandbox sandbox => ({ c with sandbox }, ledger)
  | .changeEnv update => ({ c with env := update c.env }, ledger)

def through (c : Context φ ε) (ledger : Ledger) : List (HostStep φ ε) → Context φ ε × Ledger
  | [] => (c, ledger)
  | step :: rest => (c.step ledger step).1.through (c.step ledger step).2 rest

theorem run_settings (c : Context φ ε) (script : Json) (ledger : Ledger) :
    (c.run script ledger).2.1.toSetup = c.toSetup :=
  (close_settings rfl _).2

private theorem step_settings (c : Context φ ε) (ledger : Ledger) (step : HostStep φ ε) :
    (c.step ledger step).1.toSetup = step.choose c.toSetup := by
  cases step with
  | run script => exact c.run_settings script ledger
  | runText text =>
    simp only [Context.step, runText]
    cases Json.read text with
    | ok script => exact c.run_settings script ledger
    | error fault => rfl
  | setLift lift => rfl
  | setSandbox sandbox => rfl
  | changeEnv update => rfl

theorem through_settings (c : Context φ ε) (ledger : Ledger) (history : List (HostStep φ ε)) :
    (c.through ledger history).1.toSetup = history.foldl HostStep.choose c.toSetup := by
  induction history generalizing c ledger with
  | nil => rfl
  | cons step rest ih =>
    rw [through, ih, step_settings]
    rfl

end Context

/-- Whatever was done with a context before, its settings are those that the host has chosen, and
the next run is that of a new context with these settings and the present environment, with the
same ending, environment and events; only fresh numbers go on from where they are. No run changes
the settings, one that returns leaves no call in progress, and a text that is no document leaves
everything as it is, also the calls that an earlier panic left behind. -/
theorem context_carries_only_environment [Callable φ ε] [Inhabited ε] (c : Context φ ε)
    (ledger : Ledger) (history : List (HostStep φ ε)) :
    let used := (c.through ledger history).1
    let ledger' := (c.through ledger history).2
    let setup := history.foldl HostStep.choose c.toSetup
    let fresh : Context φ ε := { toSetup := setup, env := used.env }
    (∀ script ending after reported,
      fresh.run script { nextFresh := ledger'.nextFresh } = (ending, after, reported) →
        used.run script ledger' =
          (ending, after, { reported with events := reported.events ++ ledger'.events })) ∧
    used.toSetup = setup ∧
    (∀ script, (used.run script ledger').2.1.toSetup = setup) ∧
    (∀ script outcome after reported,
      used.run script ledger' = (.returned outcome, after, reported) → after.frames = []) ∧
    (∀ text script, Json.read text = .ok script →
      used.runText text ledger' = used.run script ledger') ∧
    ∀ text fault, Json.read text = .error fault →
      used.runText text ledger' =
        (.returned (.error ⟨.undecodable fault, .empty⟩), used, ledger') := by
  intro used ledger' setup fresh
  have settings : used.toSetup = setup := c.through_settings ledger history
  refine ⟨?_, settings, ?_, ?_, ?_, ?_⟩
  · intro script ending after reported ran
    have same := used.run_eq_fresh script ledger'
    rw [settings] at same
    rw [same]
    exact congrArg (fun e => (e.1, e.2.1, e.2.2.after ledger'.events)) ran
  · intro script
    rw [used.run_settings, settings]
  · intro script outcome after reported ran
    obtain ⟨w, _, closed, _⟩ := Context.close_returned ran
    rw [closed]
  · intro text script decoded
    rw [Context.runText, decoded]
  · intro text fault undecoded
    rw [Context.runText, undecoded]

/-- A panic leaves two calls behind, which a text that is no document does not touch; the next run,
on another sandbox, finds none of them. -/
theorem next_run_free_of_interrupted_calls :
    let panics : Sandbox Probe.Closure Probe.Journal :=
      (Sandbox.empty.insertNative "first" (Call.argument 1)).insertNative "panic"
        (Call.panic (.text "static text"))
    let shows : Routine Probe.Closure Probe.Journal (Value Probe.Closure) := do
      return .text (← Call.stack).text
    let c := Context.ofSandbox panics {}
    let history : List (HostStep Probe.Closure Probe.Journal) :=
      [.run (.array [.string "first", .array [.string "panic"]]),
        .setSandbox (Sandbox.empty.insertNative "shows" shows), .setLift true,
        .changeEnv Probe.Journal.tick]
    let used := (c.through {} history).1
    let ledger := (c.through {} history).2
    let fresh : Context Probe.Closure Probe.Journal :=
      { toSetup := history.foldl HostStep.choose c.toSetup, env := used.env }
    let script : Json := .array [.string "shows"]
    let alone := fresh.run script { nextFresh := ledger.nextFresh }
    used.frames = [⟨"panic", 1, 2⟩, ⟨"first", 0, 1⟩] ∧ ledger.events.length = 2 ∧
      (∃ fault, Json.read "[1," = .error fault ∧ used.runText "[1," ledger =
        (.returned (.error ⟨.undecodable fault, .empty⟩), used, ledger)) ∧
      Json.read "[\"shows\"]" = .ok script ∧
      used.runText "[\"shows\"]" ledger = used.run script ledger ∧
      alone.1.hasValue = true ∧ alone.2.2.events.length = 1 ∧
      used.run script ledger = (alone.1, alone.2.1,
        { alone.2.2 with events := alone.2.2.events ++ ledger.events }) ∧
      alone.2.1.frames = [] := by
  intro panics shows c history used ledger fresh script alone
  have left : used.frames = [⟨"panic", 1, 2⟩, ⟨"first", 0, 1⟩] := by decide +kernel
  have reported : ledger.events.length = 2 := by decide +kernel
  have valued : alone.1.hasValue = true := by decide +kernel
  have told : alone.2.2.events.length = 1 := by decide +kernel
  have decoded : Json.read "[\"shows\"]" = .ok script := by rfl
  obtain ⟨fault, undecoded⟩ : ∃ fault, Json.read "[1," = .error fault := ⟨_, rfl⟩
  obtain ⟨v, returned⟩ := Ending.hasValue_iff.mp valued
  obtain ⟨next, _, _, empties, reads, unread⟩ := context_carries_only_environment c {} history
  have ran := next script alone.1 alone.2.1 alone.2.2 rfl
  have emptied := empties script (.ok v) alone.2.1 _ (ran.trans (by rw [returned]))
  exact ⟨left, reported, ⟨fault, undecoded, unread _ fault undecoded⟩, decoded,
    reads _ script decoded, valued, told, ran, emptied⟩

end JsonScript
