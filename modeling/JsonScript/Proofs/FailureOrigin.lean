import JsonScript.Proofs.Course

/-!
Where failures come from.

Natives may keep failures, drop them and hand them on, and every call that a failure leaves may give
it a stack. It is given one only where it is raised, though: by a call whose head stands for
nothing, by a native that asks for an argument in vain or fails in its own words, or by a call in
another run, whose failure a native hands on. So what a failure says of a call is said of the
innermost call of its stack.
-/

set_option autoImplicit false
set_option relaxedAutoImplicit false

namespace JsonScript

open Evaluator

variable {φ ε α β : Type}

def Cause.call? : Cause → Option String
  | .undefinedName name => some name
  | .undefinedHead text => some text
  | .missingArgument call _ => some call
  | .argumentType call _ _ => some call
  | .native _ | .panic _ | .undecodable _ => none

/-- The argument that a cause blames is there, or it is missed because it is not. -/
def Cause.FitsArity (arity : Nat) : Cause → Prop
  | .missingArgument _ index => index = 0 ∨ arity < index
  | .argumentType _ index _ => 1 ≤ index ∧ index ≤ arity
  | _ => True

def Failure.Apt (f : Failure) : Prop :=
  ∀ name, f.cause.call? = some name → f.stack.innermost?.map Frame.label = some name

def Failure.Located (f : Failure) : Prop :=
  ∃ frame, f.stack.innermost? = some frame ∧ ∀ name, f.cause.call? = some name → frame.label = name

/-- The failure is one that a native with so many arguments raises under the given calls. -/
structure Failure.OwnOf (calls : List Frame) (arity : Nat) (f : Failure) : Prop where
  stack : f.stack.frames = calls
  named : ∀ name, f.cause.call? = some name → calls.head?.map Frame.label = some name
  fits : f.cause.FitsArity arity
  defined : f.cause.isUndefined = false

theorem Failure.Located.apt {f : Failure} (located : f.Located) : f.Apt := by
  intro name found
  obtain ⟨frame, innermost, named⟩ := located
  rw [innermost, Option.map_some, named name found]

theorem Failure.Located.stack_nonempty {f : Failure} (located : f.Located) :
    f.stack.isEmpty = false := by
  obtain ⟨frame, innermost, _⟩ := located
  rw [Stack.isEmpty]
  cases frames : f.stack.frames with
  | nil => simp [Stack.innermost?, frames] at innermost
  | cons call around => rfl

theorem Failure.stamp_of_nonempty {f : Failure} (nonempty : f.stack.isEmpty = false)
    (current : Stack) : f.stamp current = f := by
  simp [Failure.stamp, nonempty]

theorem Failure.Apt.stamp {f : Failure} (apt : f.Apt) {calls : List Frame} (inside : calls ≠ []) :
    (f.stamp ⟨calls⟩).Located := by
  cases frames : f.stack.frames with
  | nil =>
    have stamped : f.stamp ⟨calls⟩ = ⟨f.cause, ⟨calls⟩⟩ := by
      simp [Failure.stamp, Stack.isEmpty, frames]
    obtain ⟨call, around, rfl⟩ := List.exists_cons_of_ne_nil inside
    rw [stamped]
    refine ⟨call, rfl, fun name found => ?_⟩
    have named := apt name found
    rw [Stack.innermost?, frames] at named
    cases named
  | cons call around =>
    have nonempty : f.stack.isEmpty = false := by simp [Stack.isEmpty, frames]
    rw [Failure.stamp_of_nonempty nonempty]
    have innermost : f.stack.innermost? = some call := congrArg List.head? frames
    refine ⟨call, innermost, fun name found => ?_⟩
    have named := apt name found
    rw [innermost] at named
    exact Option.some.inj named

/-- If the failures that replies bring are as said, so are those of the program. -/
def Program.FailsWithin (P : Failure → Prop) : Program φ ε (Except Failure α) → Prop
  | .done (.ok _) => True
  | .done (.error f) => P f
  | .panic _ => True
  | .ask request next =>
    ∀ reply, (∀ f ∈ request.failures reply, P f) → (next reply).FailsWithin P

/-- A routine fails only with failures that replies bring, with inherited ones, in its own words, or
because a text is no document. -/
def Routine.ForwardsOr (inherited : Failure → Prop) (routine : Routine φ ε α) : Prop :=
  ∀ P : Failure → Prop, (∀ message, P (.native message)) →
    (∀ fault, P ⟨.undecodable fault, .empty⟩) → (∀ f, inherited f → P f) →
      Program.FailsWithin P routine.run

/-- A run fails so in any context whose natives let panics through and fail with what they are
given, in their own words, because a text is no document, or with failures of such runs again. -/
inductive Failure.OfRun : Failure → Prop where
  | intro {φ ε : Type} [Callable φ ε] [Inhabited ε] (c : Context φ ε) {inherited : Failure → Prop}
      (earlier : ∀ f, inherited f → OfRun f)
      (passes : c.sandbox.EveryNative (Routine.Only (·.catchesPanic = false)))
      (forwards : c.sandbox.EveryNative (Routine.ForwardsOr inherited)) {script : Json}
      {ledger : Ledger} {f : Failure} {c' : Context φ ε} {ledger' : Ledger}
      (fails : c.run script ledger = (.returned (.error f), c', ledger')) : OfRun f

/-- A routine fails only with failures that replies bring, in its own words, because a text is no
document, or with the failure of a run over any sandbox whose natives do the same. -/
def Routine.Forwards (routine : Routine φ ε α) : Prop :=
  routine.ForwardsOr Failure.OfRun

theorem Program.Honest.failsWithin {P : Failure → Prop} (ownWords : ∀ message, P (.native message))
    {program : Program φ ε (Except Failure α)} {known : List Failure}
    (honest : program.Honest known) (fits : ∀ f ∈ known, P f) : program.FailsWithin P := by
  induction program generalizing known with
  | done result =>
    cases result with
    | ok x => trivial
    | error f =>
      rcases honest with before | ⟨message, rfl⟩
      · exact fits f before
      · exact ownWords message
  | panic payload => trivial
  | ask request next ih =>
    intro reply brings
    apply ih reply (honest reply)
    intro f member
    exact (List.mem_append.mp member).elim (brings f) (fits f)

theorem Routine.Honest.forwards {inherited : Failure → Prop} {routine : Routine φ ε α}
    (honest : Routine.Honest [] routine) : routine.ForwardsOr inherited :=
  fun _ ownWords _ _ => Program.Honest.failsWithin ownWords honest (by simp)

/-- Carried out from `w`, the program receives a reply that brings the failure. -/
def Program.Receives (answers : (r : Request φ ε) → Run ε r.Reply) (program : Program φ ε α)
    (w : World ε) (f : Failure) : Prop :=
  ∃ r u reply u', program.Reaches answers w r u ∧ answers r u = (.returned reply, u') ∧
    f ∈ r.failures reply

theorem perform_failsWithin {answers : (r : Request φ ε) → Run ε r.Reply} {P : Failure → Prop}
    {program : Program φ ε (Except Failure α)} (within : program.FailsWithin P) {w w' : World ε}
    (brings : ∀ f, program.Receives answers w f → P f)
    {f : Failure} (fails : perform answers program w = (.returned (.error f), w')) : P f := by
  induction program generalizing w with
  | done result =>
    cases fails
    exact within
  | panic payload => cases fails
  | ask request next ih =>
    rw [perform] at fails
    obtain ⟨reply, between, step, fails⟩ := Run.bind_returned fails
    refine ih reply (within reply fun f member => ?_) ?_ fails
    · exact brings f ⟨request, w, reply, between, .now request next w, step, member⟩
    · rintro f ⟨r, u, later, u', reached, replied, member⟩
      exact brings f ⟨r, u, later, u', .later step reached, replied, member⟩

/-- Where a failure comes from that the reply to a request brings. -/
inductive Brought (inner : InnerRun φ) (evaluations : List (Run ε (Outcome φ)))
    (r : Request φ ε) (u : World ε) (f : Failure) : Prop where
  | argument {index : Nat} {evaluation : Run ε (Outcome φ)} {u' : World ε}
      (evaluates : r.evaluates? = some index)
      (found : argumentAt? evaluations index = some evaluation)
      (fails : evaluation u = (.returned (.error f), u'))
  | own (raised : f.OwnOf u.frames evaluations.length)
  | run {script : Json} {ledger : Ledger} (starts : r = .run script)
      (fails : inner script u.ledger = (.returned (.error f), ledger))

theorem argumentAt?_bounds {items : List α} {index : Nat} {item : α}
    (found : argumentAt? items index = some item) : 1 ≤ index ∧ index ≤ items.length := by
  cases index with
  | zero => cases found
  | succ index =>
    obtain ⟨bound, _⟩ := List.getElem?_eq_some_iff.mp found
    omega

theorem argumentAt?_absent {items : List α} {index : Nat}
    (absent : argumentAt? items index = none) : index = 0 ∨ items.length < index := by
  cases index with
  | zero => exact .inl rfl
  | succ index =>
    have beyond := List.getElem?_eq_none_iff.mp absent
    omega

private theorem label_of_frames {w : World ε} (inside : w.frames ≠ []) :
    w.frames.head?.map Frame.label = some w.label := by
  unfold World.label
  cases frames : w.frames with
  | nil => exact absurd frames inside
  | cons call around => rfl

section Replies

variable {setup : Setup φ ε} {inner : InnerRun φ} {arguments : List Json}
  {evaluations : List (Run ε (Outcome φ))} {u u' : World ε} {f : Failure}

private theorem missing_own (inside : u.frames ≠ []) {index : Nat}
    (absent : argumentAt? evaluations index = none) :
    (u.failure (.missingArgument u.label index)).OwnOf u.frames evaluations.length := by
  refine ⟨rfl, ?_, argumentAt?_absent absent, rfl⟩
  rintro _ ⟨⟩
  exact label_of_frames inside

private theorem fetch_brought (inside : u.frames ≠ []) {shape : Shape} {index : Nat}
    {evaluation : Run ε (Outcome φ)} (found : argumentAt? evaluations index = some evaluation)
    (restores : ∀ outcome between, evaluation u = (.returned outcome, between) →
      between.frames = u.frames)
    {r : Request φ ε} (evaluates : r.evaluates? = some index)
    (fails : fetch shape index evaluation u = (.returned (.error f), u')) :
    Brought inner evaluations r u f := by
  obtain ⟨outcome, between, step, fails⟩ := Run.bind_returned fails
  cases outcome with
  | error g =>
    cases fails
    exact .argument evaluates found step
  | ok v =>
    simp only [convert] at fails
    cases converted : shape.fromValue v with
    | ok x =>
      rw [converted] at fails
      cases fails
    | error mismatch =>
      rw [converted] at fails
      cases fails
      have restored : u'.frames = u.frames := restores _ _ step
      refine .own ⟨restored, ?_, argumentAt?_bounds found, rfl⟩
      rintro _ ⟨⟩
      rw [← restored]
      exact label_of_frames (restored ▸ inside)

theorem answer_brought (inside : u.frames ≠ []) {r : Request φ ε}
    (restores : ∀ index evaluation, r.evaluates? = some index →
      argumentAt? evaluations index = some evaluation → ∀ outcome between,
      evaluation u = (.returned outcome, between) → between.frames = u.frames)
    {reply : r.Reply}
    (step : answer setup inner arguments evaluations r u = (.returned reply, u'))
    (member : f ∈ r.failures reply) : Brought inner evaluations r u f := by
  cases r with
  | attempt index =>
    rcases reply with _ | (g | v)
    · cases member
    · obtain rfl : f = g := List.mem_singleton.mp member
      simp only [answer] at step
      cases found : argumentAt? evaluations index with
      | some evaluation =>
        simp only [found, Run.catchPanic] at step
        split at step
        · cases step
          exact .argument rfl found ‹_›
        · cases step
        · cases step
      | none =>
        rw [found] at step
        cases step
        exact .own (missing_own inside found)
    · cases member
  | argument shape index =>
    simp only [answer] at step
    cases reply with
    | ok x => cases member
    | error g =>
      obtain rfl : f = g := List.mem_singleton.mp member
      cases found : argumentAt? evaluations index with
      | some evaluation =>
        rw [found] at step
        exact fetch_brought inside found (restores index evaluation rfl found) rfl step
      | none =>
        rw [found] at step
        cases step
        exact .own (missing_own inside found)
  | argumentIfAny shape index =>
    simp only [answer] at step
    cases reply with
    | ok x => cases member
    | error g =>
      obtain rfl : f = g := List.mem_singleton.mp member
      cases found : argumentAt? evaluations index with
      | some evaluation =>
        rw [found] at step
        obtain ⟨result, between, step, mapped⟩ := Run.bind_returned step
        cases result with
        | ok x => cases mapped
        | error h =>
          cases mapped
          exact fetch_brought inside found (restores index evaluation rfl found) rfl step
      | none =>
        rw [found] at step
        cases step
  | failure message =>
    obtain rfl : f = reply := List.mem_singleton.mp member
    cases step
    refine .own ⟨rfl, ?_, trivial, rfl⟩
    rintro _ ⟨⟩
  | run script =>
    cases reply with
    | ok v => cases member
    | error g =>
      obtain rfl : f = g := List.mem_singleton.mp member
      have ended : (inner script u.ledger).1 = .returned (.error f) := congrArg Prod.fst step
      exact .run rfl (Prod.ext ended rfl)
  | arity | raw | stack | environment | setEnvironment | bound | lifting | fresh => cases member

end Replies

variable [Callable φ ε]

theorem Json.undefined_call? (head : Json) : head.undefined.call? = some head.headLabel := by
  cases head <;> rfl

theorem Json.isUndefined_undefined (head : Json) : head.undefined.isUndefined = true := by
  cases head <;> rfl

section Origin

variable (setup : Setup φ ε) (inner : InnerRun φ)

/-- The call, evaluated from `u`, raises the failure itself: its frame is put on the calls in
progress in the state `called`, it is served until the state `inside`, and the failure leaves it
with these calls. It is undefined just when the head stands for nothing. -/
structure Raises (head : Json) (arguments : List Json) (place : Address) (u : World ε)
    (callee : Option (Binding φ ε)) (called inside : World ε) (f : Failure) : Prop where
  opens : Opens setup inner head arguments place u callee called
  serves : serve setup inner head arguments place callee called = (.returned (.error f), inside)
  stack : f.stack.frames = called.frames
  named : ∀ name, f.cause.call? = some name → name = head.headLabel
  fits : f.cause.FitsArity arguments.length
  undefined : f.cause.isUndefined = true ↔ callee = none

/-- The call, evaluated from `u`, is served by a native that starts a run, which fails so. -/
def RunsInto (head : Json) (arguments : List Json) (place : Address) (u : World ε) (f : Failure) :
    Prop :=
  ∃ script between ledger, CallAsks setup inner head arguments place u (.run script) between ∧
    inner script between.ledger = (.returned (.error f), ledger)

variable (inherited : Failure → Prop)

/-- The call, evaluated from `u`, is served from the state `called` until the state `inside` by a
native that fails with the inherited failure `g`. No reply has brought it this failure, which leaves
the call as `f`. -/
structure HandsOn (head : Json) (arguments : List Json) (place : Address) (u : World ε)
    (native : Native φ ε) (called inside : World ε) (g f : Failure) : Prop where
  opens : Opens setup inner head arguments place u (some (.callable native)) called
  fails : perform (answer setup inner arguments (evaluations setup inner arguments place 1))
    native.run (reportDispatch arguments.length called).2 = (.returned (.error g), inside)
  stamped : g.stamp inside.stack = f
  inherits : inherited g
  unasked : ¬ native.run.Receives
    (answer setup inner arguments (evaluations setup inner arguments place 1))
    (reportDispatch arguments.length called).2 g

/-- The evaluation of the node from `w` comes to a call that raises the failure, or that is served
by a native that starts a run with this failure or hands on an inherited one. -/
def Originates (node : Json) (address : Address) (w : World ε) (f : Failure) : Prop :=
  ∃ head arguments place u,
    Evaluates setup inner node address w (.array (head :: arguments)) place u ∧
      (RunsInto setup inner head arguments place u f ∨
        (∃ native called inside g,
          HandsOn setup inner inherited head arguments place u native called inside g f) ∨
        ∃ callee called inside, Raises setup inner head arguments place u callee called inside f)

end Origin

/-- Failures of runs that natives start have an innermost call, and name no other. -/
def InnerRun.FailsLocated (inner : InnerRun φ) : Prop :=
  ∀ script ledger f ledger', inner script ledger = (.returned (.error f), ledger') → f.Located

section Origin

variable {setup : Setup φ ε} {inner : InnerRun φ} {head : Json} {arguments : List Json}
  {address : Address} {w : World ε} {f : Failure} {inherited : Failure → Prop}

theorem Raises.located {callee : Option (Binding φ ε)} {called inside : World ε}
    (raises : Raises setup inner head arguments address w callee called inside f) : f.Located := by
  obtain ⟨⟨enters, resolves⟩, _, stack, named, _, _⟩ := raises
  have innermost : f.stack.innermost? = some ⟨head.headLabel, address.index, _⟩ :=
    congrArg List.head? stack
  exact ⟨_, innermost, fun name found => (named name found).symm⟩

theorem Raises.innermost
    (restores : RestoresCalls setup inner (.array (head :: arguments)) address w)
    {callee : Option (Binding φ ε)} {called inside : World ε}
    (raises : Raises setup inner head arguments address w callee called inside f) :
    f.stack.innermost? = some ⟨head.headLabel, address.index, f.stack.size⟩ := by
  have frames := raises.stack.trans (restores.opened raises.opens)
  simp [Stack.innermost?, Stack.size, frames]

theorem HandsOn.located (apt : ∀ f, inherited f → f.Apt)
    (restores : RestoresCalls setup inner (.array (head :: arguments)) address w)
    {native : Native φ ε} {called inside : World ε} {g : Failure}
    (hands : HandsOn setup inner inherited head arguments address w native called inside g f) :
    f.Located := by
  have serves : serve setup inner head arguments address (some (.callable native)) called =
      (.returned (.error f), inside) := serve_native_fails_iff.mpr ⟨g, hands.fails, hands.stamped⟩
  have frames : inside.frames ≠ [] := by
    simp [restores.served hands.opens serves, restores.opened hands.opens]
  have stamped : g.stamp ⟨inside.frames⟩ = f := hands.stamped
  exact stamped ▸ (apt g hands.inherits).stamp frames

theorem Originates.located
    (runs : ∀ head arguments place u f, RunsInto setup inner head arguments place u f → f.Located)
    (apt : ∀ f, inherited f → f.Apt) {node : Json}
    (restores : RestoresCalls setup inner node address w)
    (origin : Originates setup inner inherited node address w f) : f.Located := by
  obtain ⟨head, arguments, place, u, reached, starts | ⟨native, called, inside, g, hands⟩ |
    ⟨callee, called, inside, raises⟩⟩ := origin
  · exact runs head arguments place u f starts
  · exact hands.located apt (restores.within reached)
  · exact raises.located

private theorem OwnOf.stamp {calls : List Frame} {arity : Nat} (own : f.OwnOf calls arity)
    (inside : calls ≠ []) : (f.stamp ⟨calls⟩).OwnOf calls arity := by
  have nonempty : f.stack.isEmpty = false := by
    simpa [Stack.isEmpty, own.stack] using inside
  rwa [Failure.stamp_of_nonempty nonempty]

theorem evaluations_length (arguments : List Json) (address : Address) (first : Nat) :
    (evaluations setup inner arguments address first).length = arguments.length := by
  induction arguments generalizing first with
  | nil => rfl
  | cons argument rest ih => simp [evaluations, ih]

section Serving

variable
  (runs : ∀ head arguments place u f, RunsInto setup inner head arguments place u f → f.Located)
  (apt : ∀ f, inherited f → f.Apt)
  (inside : ∀ index argument, argumentAt? arguments index = some argument → ∀ w w' f,
    RestoresCalls setup inner argument (index :: address) w →
      evaluate setup inner argument (index :: address) w = (.returned (.error f), w') →
        Originates setup inner inherited argument (index :: address) w f)
  (restores : RestoresCalls setup inner (.array (head :: arguments)) address w)

include runs apt inside restores

private theorem received_known {native : Native φ ε} {called : World ε}
    (opens : Opens setup inner head arguments address w (some (.callable native)) called)
    (received : native.run.Receives
      (answer setup inner arguments (evaluations setup inner arguments address 1))
      (reportDispatch arguments.length called).2 f) :
    f.OwnOf called.frames arguments.length ∨
      f.stack.isEmpty = false ∧
        Originates setup inner inherited (.array (head :: arguments)) address w f := by
  obtain ⟨r, u, reply, u', reached, step, member⟩ := received
  have asks : CallAsks setup inner head arguments address w r u := ⟨native, called, opens, reached⟩
  have same : u.frames = called.frames := restores.reached opens reached
  have around : u.frames ≠ [] := by simp [same, restores.opened opens]
  have further {index : Nat} {argument : Json} (evaluates : r.evaluates? = some index)
      (taken : argumentAt? arguments index = some argument) :
      RestoresCalls setup inner argument (index :: address) u :=
    restores.within (.argument asks evaluates taken (.self _ _ _))
  have brought : Brought inner (evaluations setup inner arguments address 1) r u f := by
    apply answer_brought around ?_ step member
    intro index evaluation evaluates found outcome between evaluated
    obtain ⟨argument, taken, rfl⟩ := argument_of_evaluation setup inner found
    exact (further evaluates taken).frames_eq evaluated
  cases brought with
  | argument evaluates found fails =>
    obtain ⟨argument, taken, rfl⟩ := argument_of_evaluation setup inner found
    have origin := inside _ argument taken u _ f (further evaluates taken) fails
    have located := origin.located runs apt (further evaluates taken)
    obtain ⟨other, others, place, v, deeper, how⟩ := origin
    exact .inr ⟨located.stack_nonempty, other, others, place, v,
      .argument asks evaluates taken deeper, how⟩
  | own raised =>
    rw [evaluations_length, same] at raised
    exact .inl raised
  | run starts fails =>
    subst starts
    have into : RunsInto setup inner head arguments address w f := ⟨_, _, _, asks, fails⟩
    exact .inr ⟨(runs _ _ _ _ _ into).stack_nonempty, head, arguments, address, w, .self _ _ _,
      .inl into⟩

private theorem serve_origin (forwards : setup.sandbox.EveryNative (Routine.ForwardsOr inherited))
    {native : Native φ ε} {called served : World ε}
    (opens : Opens setup inner head arguments address w (some (.callable native)) called)
    (serves : serve setup inner head arguments address (some (.callable native)) called =
      (.returned (.error f), served)) :
    Originates setup inner inherited (.array (head :: arguments)) address w f := by
  have frames := restores.opened opens
  have around : called.frames ≠ [] := by simp [frames]
  have current : served.stack = ⟨called.frames⟩ :=
    congrArg Stack.mk (restores.served opens serves)
  obtain ⟨g, performed, rfl⟩ := serve_native_fails_iff.mp serves
  -- The stamp is read off for a failure of the native's own only: in its own words it has no stack,
  -- from its handle it has the calls in progress. Any other that a reply has brought has the stack
  -- of its origin, which a stamp does not replace.
  have raised (own : (g.stamp ⟨called.frames⟩).OwnOf called.frames arguments.length) :
      Originates setup inner inherited (.array (head :: arguments)) address w
        (g.stamp served.stack) := by
    rw [current] at serves ⊢
    refine ⟨head, arguments, address, w, .self _ _ _, .inr (.inr ⟨_, called, served, opens, serves,
      own.stack, fun name found => ?_, own.fits, by simp [own.defined]⟩)⟩
    have label := own.named name found
    rw [frames] at label
    simpa using label.symm
  let Received := native.run.Receives
    (answer setup inner arguments (evaluations setup inner arguments address 1))
    (reportDispatch arguments.length called).2
  have fresh : Received g ∨ (g.stamp ⟨called.frames⟩).OwnOf called.frames arguments.length ∨
      inherited g := by
    apply perform_failsWithin (opens.native forwards _ ?_ ?_ ?_) (fun _ => .inl) performed
    · exact fun message => .inr (.inl ⟨rfl, nofun, trivial, rfl⟩)
    · exact fun fault => .inr (.inl ⟨rfl, nofun, trivial, rfl⟩)
    · exact fun g inherits => .inr (.inr inherits)
  by_cases received : Received g
  · rcases received_known runs apt inside restores opens received with
      own | ⟨nonempty, origin⟩
    · exact raised (OwnOf.stamp own around)
    · rwa [Failure.stamp_of_nonempty nonempty]
  · rcases fresh.resolve_left received with own | inherits
    · exact raised own
    · exact ⟨head, arguments, address, w, .self _ _ _, .inr (.inl ⟨native, called, served, g, opens,
        performed, rfl, inherits, received⟩)⟩

end Serving

/-- A failure of an evaluation has its origin in a call of the evaluation. -/
theorem evaluate_origin
    (runs : ∀ head arguments place u f, RunsInto setup inner head arguments place u f → f.Located)
    (apt : ∀ f, inherited f → f.Apt)
    (forwards : setup.sandbox.EveryNative (Routine.ForwardsOr inherited))
    (node : Json) (address : Address) (w w' : World ε) (f : Failure)
    (restores : RestoresCalls setup inner node address w)
    (fails : evaluate setup inner node address w = (.returned (.error f), w')) :
    Originates setup inner inherited node address w f := by
  -- An argument may be evaluated more than once and from any state, so the state varies.
  induction node, address using call_induction generalizing w w' f with
  | literal node address literal =>
    obtain ⟨head, arguments, rfl⟩ := call_of_fails fails
    exact absurd rfl (literal _)
  | empty address =>
    obtain ⟨head, arguments, same⟩ := call_of_fails fails
    cases same
  | call head arguments address atHead inside =>
    rcases call_fails_iff.mp fails with
      ⟨entered, enters, resolves⟩ | ⟨callee, called, served, opens, serves, _⟩
    · obtain ⟨computes, headFails⟩ := resolve_fails resolves
      have further := restores.within (.head computes enters (.self _ _ _))
      obtain ⟨other, others, place, u, reached, how⟩ :=
        atHead computes entered w' f further headFails
      exact ⟨other, others, place, u, .head computes enters reached, how⟩
    · cases callee with
      | none =>
        cases serves
        refine ⟨head, arguments, address, w, .self _ _ _, .inr (.inr ⟨none, called, called, opens,
          rfl, rfl, fun name found => ?_, ?_, ?_⟩)⟩
        · exact Option.some.inj (found.symm.trans head.undefined_call?)
        · cases head <;> trivial
        · simp [World.failure, head.isUndefined_undefined]
      | some binding =>
        cases binding with
        | value v => cases serves
        | callable native =>
          exact serve_origin runs apt inside restores forwards opens serves

theorem InnerRun.FailsLocated.runsInto (located : inner.FailsLocated) (head : Json)
    (arguments : List Json) (place : Address) (u : World ε) (f : Failure)
    (starts : RunsInto setup inner head arguments place u f) : f.Located := by
  obtain ⟨script, between, ledger, _, fails⟩ := starts
  exact located script between.ledger f ledger fails

end Origin

section Runs

variable [Inhabited ε] {inherited : Failure → Prop} (apt : ∀ f, inherited f → f.Apt)

include apt

theorem innerRun_failsLocated (sandbox : Sandbox φ ε)
    (passes : sandbox.EveryNative (Routine.Only (·.catchesPanic = false)))
    (forwards : sandbox.EveryNative (Routine.ForwardsOr inherited)) (limit : Nat) :
    (Context.innerRun sandbox limit).FailsLocated := by
  induction limit with
  | zero =>
    intro script ledger f ledger' fails
    cases fails
  | succ limit inside =>
    intro script ledger f ledger' fails
    let c := Context.ofSandbox sandbox default
    have leveled := innerRun_seesLeveled sandbox passes limit
    have ended : (c.runWith (Context.innerRun sandbox limit) script ledger).1 =
        .returned (.error f) := congrArg Prod.fst fails
    obtain ⟨w, traced, _, _⟩ := Context.close_returned (Prod.ext ended rfl)
    have restores : RestoresCalls c.toSetup _ script [] _ :=
      restoresCalls_of_passes leveled passes script [] { env := c.env, ledger }
    exact (evaluate_origin inside.runsInto apt forwards script [] _ w f restores traced).located
      inside.runsInto apt restores

theorem run_origin {c : Context φ ε}
    (passes : c.sandbox.EveryNative (Routine.Only (·.catchesPanic = false)))
    (forwards : c.sandbox.EveryNative (Routine.ForwardsOr inherited)) {script : Json}
    {ledger : Ledger} {f : Failure} {c' : Context φ ε} {ledger' : Ledger}
    (fails : c.run script ledger = (.returned (.error f), c', ledger'))
    (ordinary : f.cause.isPanic = false) :
    Originates c.toSetup (Context.innerRun c.sandbox Context.runLimit) inherited script []
      { env := c.env, ledger } f := by
  have leveled := innerRun_seesLeveled c.sandbox passes Context.runLimit
  obtain ⟨w, traced, _, _⟩ := Context.close_returned fails
  have located := innerRun_failsLocated apt c.sandbox passes forwards Context.runLimit
  exact evaluate_origin located.runsInto apt forwards script [] _ w f
    (restoresCalls_of_passes leveled passes script [] _)
    (Context.evaluation_returned traced (by rintro _ ⟨⟩; exact ordinary))

theorem run_apt {c : Context φ ε}
    (passes : c.sandbox.EveryNative (Routine.Only (·.catchesPanic = false)))
    (forwards : c.sandbox.EveryNative (Routine.ForwardsOr inherited)) {script : Json}
    {ledger : Ledger} {f : Failure} {c' : Context φ ε} {ledger' : Ledger}
    (fails : c.run script ledger = (.returned (.error f), c', ledger')) : f.Apt := by
  intro name found
  have ordinary : f.cause.isPanic = false := by
    cases cause : f.cause with
    | panic message =>
      rw [cause] at found
      cases found
    | undefinedName | undefinedHead | missingArgument | argumentType | native | undecodable => rfl
  have leveled := innerRun_seesLeveled c.sandbox passes Context.runLimit
  have located := (run_origin apt passes forwards fails ordinary).located
    (innerRun_failsLocated apt c.sandbox passes forwards Context.runLimit).runsInto apt
    (restoresCalls_of_passes leveled passes script [] _)
  exact located.apt name found

end Runs

theorem Failure.OfRun.apt {f : Failure} (ofRun : f.OfRun) : f.Apt := by
  induction ofRun with
  | intro c earlier passes forwards fails ih => exact run_apt ih passes forwards fails

/-- If natives let panics through and fail only with failures that they are given, in their own
words, because a text is no document, or with failures of runs over such natives, then what a
failure of a run says of a call is said of the innermost call of its stack. A failure that is no
lifted panic comes from a call of the run. That call was served by a native that started a run with
this failure; or by one that handed on the failure of another run, which no reply had brought it; or
the call raised the failure itself, and then it is the innermost call of the stack, a missing
argument is none of its arguments, and an argument of another type than wanted is one of them. -/
theorem failure_names_call_of_origin [Inhabited ε] (c : Context φ ε)
    (passes : c.sandbox.EveryNative (Routine.Only (·.catchesPanic = false)))
    (forwards : c.sandbox.EveryNative Routine.Forwards) (script : Json) (ledger : Ledger)
    (f : Failure) (c' : Context φ ε) (ledger' : Ledger)
    (fails : c.run script ledger = (.returned (.error f), c', ledger')) :
    let inner := Context.innerRun c.sandbox Context.runLimit
    (∀ name, f.cause.call? = some name → f.stack.innermost?.map Frame.label = some name) ∧
    (f.cause.isPanic = false → ∃ head arguments place u,
      Evaluates c.toSetup inner script [] { env := c.env, ledger } (.array (head :: arguments))
        place u ∧
      (RunsInto c.toSetup inner head arguments place u f ∨
        (∃ native called inside g, HandsOn c.toSetup inner Failure.OfRun head arguments place u
          native called inside g f) ∨
        ∃ callee called inside,
          Raises c.toSetup inner head arguments place u callee called inside f ∧
          f.stack.innermost? = some ⟨head.headLabel, place.index, f.stack.size⟩ ∧
          (∀ call index, f.cause = .missingArgument call index →
            index = 0 ∨ arguments.length < index) ∧
          ∀ call index mismatch, f.cause = .argumentType call index mismatch →
            1 ≤ index ∧ index ≤ arguments.length)) := by
  intro inner
  have apt (f : Failure) (ofRun : f.OfRun) : f.Apt := ofRun.apt
  have leveled : inner.SeesLeveled := innerRun_seesLeveled c.sandbox passes Context.runLimit
  constructor
  · exact run_apt apt passes forwards fails
  · intro ordinary
    obtain ⟨head, arguments, place, u, reached, how⟩ :=
      run_origin apt passes forwards fails ordinary
    refine ⟨head, arguments, place, u, reached, how.imp_right (.imp_right ?_)⟩
    rintro ⟨callee, called, inside, raises⟩
    have restores := (restoresCalls_of_passes leveled passes script [] _).within reached
    have fits := raises.fits
    refine ⟨callee, called, inside, raises, raises.innermost restores, ?_, ?_⟩
    · intro call index cause
      rw [cause] at fits
      exact fits
    · intro call index mismatch cause
      rw [cause] at fits
      exact fits

theorem Probe.runText_forwards : Routine.Forwards Probe.runText := by
  intro P ownWords unread _ reply brings
  cases reply with
  | error f => exact brings f (List.mem_singleton_self f)
  | ok text =>
    dsimp only [Program.bind, Call.settle, ExceptT.mk, ExceptT.bindCont]
    cases Json.read text with
    | error fault => exact unread fault
    | ok script =>
      intro reply brings
      cases reply with
      | ok v => trivial
      | error f => exact brings f (List.mem_singleton_self f)

theorem Probe.runRaw_forwards : Routine.Forwards Probe.runRaw := by
  intro P ownWords unread _ node _ reply brings
  cases reply with
  | ok v => trivial
  | error f => exact brings f (List.mem_singleton_self f)

def Context.runNative [Inhabited ε] {δ : Type} (c : Context φ ε) (script : Json) : Native φ δ :=
  match (c.run script {}).1 with
  | .returned outcome => Call.settle outcome
  | .unwound payload => Call.panic payload
  | .exhausted => Call.panic .other

theorem Context.runNative_forwards [Inhabited ε] {δ : Type} (c : Context φ ε)
    (passes : c.sandbox.EveryNative (Routine.Only (·.catchesPanic = false)))
    (forwards : c.sandbox.EveryNative Routine.Forwards) (script : Json) :
    Routine.Forwards (c.runNative script : Native φ δ) := by
  intro P _ _ elsewhere
  unfold Context.runNative
  rcases ran : c.run script {} with ⟨(f | v) | payload | _, c', ledger'⟩
  · exact elsewhere f (.intro c (fun _ ofRun => ofRun) passes forwards ran)
  · trivial
  · trivial
  · trivial

/-- An argument of the wrong type after a swallowed failure, a missing argument in a run that a
native starts, and an unbound name in a run over another sandbox. -/
theorem failures_named_after_swallowed_failure :
    let other : Context Probe.Closure Probe.Journal := .ofSandbox .empty {}
    let sandbox : Sandbox Probe.Closure Probe.Journal :=
      ((((Sandbox.empty.insertNative "try" Probe.orElse).insertNative "fail"
        Probe.failPlainly).insertNative "load" Probe.runText).insertNative "run"
        Probe.runRaw).insertNative "elsewhere" (other.runNative (.array [.string "nope"]))
    let c := Context.ofSandbox sandbox {}
    let inner := Context.innerRun sandbox Context.runLimit
    let start : World Probe.Journal := { env := {}, ledger := {} }
    let retried : Json := .array [.string "try", .array [.string "unbound"],
      .array [.string "fail", .null, .array [.string "unbound"]]]
    let nested : Json := .array [.string "run", .array [.string "fail"]]
    let distant : Json := .array [.string "try", .array [.string "unbound"],
      .array [.string "elsewhere"]]
    let wrong : Failure :=
      ⟨.argumentType "fail" 1 ⟨"string", "null"⟩, ⟨[⟨"fail", 2, 2⟩, ⟨"try", 0, 1⟩]⟩⟩
    let missing : Failure := ⟨.missingArgument "fail" 1, ⟨[⟨"fail", 0, 1⟩]⟩⟩
    let unbound : Failure := ⟨.undefinedName "nope", ⟨[⟨"nope", 0, 1⟩]⟩⟩
    let named (script : Json) (f : Failure) (name : String) : Prop :=
      (∃ c' ledger', c.run script {} = (.returned (.error f), c', ledger')) ∧
        f.stack.innermost?.map Frame.label = some name ∧
        Originates c.toSetup inner Failure.OfRun script [] start f
    named retried wrong "fail" ∧ named nested missing "fail" ∧ named distant unbound "nope" := by
  intro other sandbox c inner start retried nested distant wrong missing unbound named
  have functions : ∀ g : Probe.Closure, Routine.Only (·.catchesPanic = false)
      (Callable.code g : Native Probe.Closure Probe.Journal) :=
    Probe.Closure.code_only (fun _ _ => rfl) rfl rfl rfl
  have honest (g : Probe.Closure) :
      Routine.Forwards (Callable.code g : Native Probe.Closure Probe.Journal) :=
    (Probe.Closure.code_honest g).forwards
  have passes : c.sandbox.EveryNative (Routine.Only (·.catchesPanic = false)) := by
    refine .insertNative (.insertNative (.insertNative (.insertNative (.insertNative
      (.empty functions) ?_ "try") ?_ "fail") ?_ "load") ?_ "run") ?_ "elsewhere"
    · exact Probe.orElse_only fun _ _ => rfl
    · exact Probe.failPlainly_only fun _ _ => rfl
    · refine .bind (.argumentAs rfl) fun text => ?_
      split
      · exact .bind (.request rfl) fun _ => .settle _
      · exact .settle _
    · exact .bind (.request rfl) fun _ => .bind (.request rfl) fun _ => .settle _
    · exact .settle _
  have forwards : c.sandbox.EveryNative Routine.Forwards :=
    .insertNative (.insertNative (.insertNative (.insertNative (.insertNative (.empty honest)
      Probe.orElse_honest.forwards "try") Probe.failPlainly_honest.forwards "fail")
      Probe.runText_forwards "load") Probe.runRaw_forwards "run")
      (other.runNative_forwards (.empty functions) (.empty honest) _) "elsewhere"
  have law {script : Json} {f : Failure} {name : String} (ordinary : f.cause.isPanic = false)
      (names : f.cause.call? = some name)
      (ran : ∃ c' ledger', c.run script {} = (.returned (.error f), c', ledger')) :
      named script f name := by
    obtain ⟨c', ledger', fails⟩ := ran
    obtain ⟨apt, origin⟩ :=
      failure_names_call_of_origin c passes forwards script {} f c' ledger' fails
    obtain ⟨head, arguments, place, u, reached, how⟩ := origin ordinary
    refine ⟨⟨c', ledger', fails⟩, apt name names, head, arguments, place, u, reached,
      how.imp_right (.imp_right ?_)⟩
    rintro ⟨callee, called, inside, raises, _⟩
    exact ⟨callee, called, inside, raises⟩
  exact ⟨law rfl rfl ⟨_, _, rfl⟩, law rfl rfl ⟨_, _, rfl⟩, law rfl rfl ⟨_, _, rfl⟩⟩

end JsonScript
