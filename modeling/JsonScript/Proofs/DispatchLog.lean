import JsonScript.Proofs.FailureOrigin
import JsonScript.Proofs.PanicFree
import JsonScript.Proofs.PanicTracing

/-!
The log of a run retraces the calls of its failure.

Every call that a native serves is reported before the native starts. A call and the calls inside it
are reported in the order in which they start, so the calls in progress are found in the log: at
each depth the latest report is that of the call in progress. A computed head is evaluated, and
reported, at the depth of the call to which it belongs, but before it.
-/

set_option autoImplicit false
set_option relaxedAutoImplicit false

namespace JsonScript

open Evaluator

variable {φ ε α β : Type}

def Event.call? : Event → Option Frame
  | .dispatch call _ _ => some call
  | .lifted .. | .failed .. => none

/-- Between the states just these calls were served, latest first, and nothing else was reported. -/
def Served (calls : List Frame) (w w' : World ε) : Prop :=
  ∃ events, w'.ledger.events = events ++ w.ledger.events ∧
    events.map Event.call? = calls.map some

namespace Served

theorem of_events_eq {w w' : World ε} (same : w'.ledger.events = w.ledger.events) :
    Served [] w w' :=
  ⟨[], same, rfl⟩

theorem trans {calls later : List Frame} {w between w' : World ε} (first : Served calls w between)
    (second : Served later between w') : Served (later ++ calls) w w' := by
  obtain ⟨events, grown, reported⟩ := first
  obtain ⟨others, grown', reported'⟩ := second
  exact ⟨others ++ events, by simp [grown, grown'], by simp [reported, reported']⟩

theorem unique {calls others : List Frame} {w w' : World ε} (served : Served calls w w')
    (served' : Served others w w') : calls = others := by
  obtain ⟨events, grown, reported⟩ := served
  obtain ⟨events', grown', reported'⟩ := served'
  obtain rfl : events = events' := List.append_cancel_right (grown.symm.trans grown')
  exact (List.map_inj_right fun _ _ => Option.some.inj).mp (reported.symm.trans reported')

end Served

/-- The calls, latest first, are deeper than `level`, and each is at most one deeper than the one
before it; the first is one deeper than `level`. -/
def Paced (level : Nat) : List Frame → Prop
  | [] => True
  | call :: before =>
    level < call.depth ∧ call.depth ≤ (before.head?.map Frame.depth).getD level + 1 ∧
      Paced level before

namespace Paced

variable {level : Nat} {calls : List Frame}

theorem deeper (paced : Paced level calls) : ∀ call ∈ calls, level < call.depth := by
  induction calls with
  | nil => simp
  | cons call before ih =>
    obtain ⟨here, _, earlier⟩ := paced
    exact List.forall_mem_cons.mpr ⟨here, ih earlier⟩

theorem first (paced : Paced level calls) : ∀ call ∈ calls.getLast?, call.depth = level + 1 := by
  induction calls with
  | nil => simp
  | cons call before ih =>
    obtain ⟨here, step, earlier⟩ := paced
    cases before with
    | nil =>
      have start : call.depth ≤ level + 1 := step
      simp only [List.getLast?_singleton, Option.mem_some_iff, forall_eq']
      omega
    | cons next rest =>
      rw [List.getLast?_cons_cons]
      exact ih earlier

theorem isChain (paced : Paced level calls) :
    calls.IsChain fun call before => call.depth ≤ before.depth + 1 := by
  induction calls with
  | nil => exact .nil
  | cons call before ih =>
    obtain ⟨_, step, earlier⟩ := paced
    cases before with
    | nil => exact .singleton call
    | cons next rest => exact .cons_cons step (ih earlier)

theorem append {later : List Frame} (paced : Paced level later) (before : Paced level calls) :
    Paced level (later ++ calls) := by
  induction later with
  | nil => exact before
  | cons call between ih =>
    obtain ⟨here, step, earlier⟩ := paced
    refine ⟨here, ?_, ih earlier⟩
    cases between with
    | cons next rest => exact step
    | nil =>
      cases calls with
      | nil => exact step
      | cons next rest =>
        have start : call.depth ≤ level + 1 := step
        have further : level < next.depth := before.1
        show call.depth ≤ next.depth + 1
        omega

theorem inside {call : Frame} (depth : call.depth = level + 1) (paced : Paced (level + 1) calls) :
    Paced level (calls ++ [call]) := by
  induction calls with
  | nil => simp [Paced, depth]
  | cons later between ih =>
    obtain ⟨here, step, earlier⟩ := paced
    refine ⟨by omega, ?_, ih earlier⟩
    cases between with
    | cons next rest => exact step
    | nil => simpa [depth] using step

end Paced

/-- The same calls are in progress in both states, and the calls that were served meanwhile are
paced below them. -/
def InStep (w w' : World ε) : Prop :=
  w'.frames = w.frames ∧ ∃ calls, Served calls w w' ∧ Paced w.frames.length calls

namespace InStep

theorem of_eq {w w' : World ε} (frames : w'.frames = w.frames)
    (events : w'.ledger.events = w.ledger.events) : InStep w w' :=
  ⟨frames, [], .of_events_eq events, trivial⟩

theorem trans {w between w' : World ε} (first : InStep w between) (second : InStep between w') :
    InStep w w' := by
  obtain ⟨restored, calls, served, paced⟩ := first
  obtain ⟨restored', later, served', paced'⟩ := second
  rw [restored] at restored' paced'
  exact ⟨restored', later ++ calls, served.trans served', paced'.append paced⟩

end InStep

def Run.Paces (m : Run ε α) (w : World ε) : Prop :=
  ∀ x w', m w = (.returned x, w') → InStep w w'

namespace Run.Paces

variable {w : World ε}

theorem quiet {m : Run ε α} (frames : (m w).2.frames = w.frames)
    (events : (m w).2.ledger.events = w.ledger.events) : m.Paces w := by
  intro x w' done
  rw [done] at frames events
  exact .of_eq frames events

theorem look (view : World ε → α) : (Run.look view).Paces w :=
  quiet rfl rfl

theorem pure (x : α) : (Pure.pure x : Run ε α).Paces w :=
  look fun _ => x

theorem bind {m : Run ε α} {next : α → Run ε β} (first : m.Paces w)
    (second : ∀ x between, m w = (.returned x, between) → (next x).Paces between) :
    (m >>= next).Paces w := by
  intro y w' done
  obtain ⟨x, between, step, done⟩ := Run.bind_returned done
  exact (first x between step).trans (second x between step y w' done)

end Run.Paces

private theorem tell_paces (hook : Option (Hook ε)) (node : Json) (w : World ε) :
    (Evaluator.tell hook node).Paces w := by
  obtain ⟨env, told, _⟩ := tell_ends hook node w
  refine .quiet ?_ ?_
  all_goals rw [told]

theorem enter_paces (setup : Setup φ ε) (address : Address) (node : Json) (w : World ε) :
    (enter setup address node).Paces w :=
  .bind (.quiet rfl rfl) fun _ _ _ => tell_paces _ _ _

theorem leave_paces (setup : Setup φ ε) (address : Address) (node : Json) (w : World ε) :
    (leave setup address node).Paces w :=
  .bind (.quiet rfl rfl) fun _ _ _ => tell_paces _ _ _

private theorem fetch_paces (shape : Shape) (index : Nat) {evaluation : Run ε (Outcome φ)}
    {w : World ε} (body : evaluation.Paces w) : (fetch shape index evaluation).Paces w := by
  apply body.bind
  intro outcome between _
  cases outcome with
  | error failure => exact .pure _
  | ok v =>
    simp only [convert]
    cases shape.fromValue v with
    | ok x => exact .pure _
    | error mismatch => exact .look _

private theorem catchPanic_paces {m : Run ε α} {w : World ε} (body : m.Paces w)
    (calm : ∀ payload, (m w).1 ≠ .unwound payload) : m.catchPanic.Paces w := by
  intro x w' done
  rcases ends : m w with ⟨y | payload | _, between⟩
  · rw [Run.catchPanic, ends] at done
    cases done
    exact body y _ ends
  · exact absurd (congrArg Prod.fst ends) (calm payload)
  · rw [Run.catchPanic, ends] at done
    cases done

theorem answer_paces (setup : Setup φ ε) (inner : InnerRun φ) (arguments : List Json)
    {evaluations : List (Run ε (Outcome φ))} {r : Request φ ε} (alone : r.startsRun = false)
    {w : World ε} (paces : ∀ index evaluation, r.evaluates? = some index →
      argumentAt? evaluations index = some evaluation →
        evaluation.Paces w ∧ ∀ payload, (evaluation w).1 ≠ .unwound payload) :
    (answer setup inner arguments evaluations r).Paces w := by
  cases r with
  | run script => cases alone
  | attempt index =>
    simp only [answer]
    cases found : argumentAt? evaluations index with
    | some evaluation =>
      obtain ⟨body, calm⟩ := paces index evaluation rfl found
      exact catchPanic_paces body calm
    | none => exact .bind (.look _) fun _ _ _ => .pure _
  | argument shape index =>
    simp only [answer]
    cases found : argumentAt? evaluations index with
    | some evaluation => exact fetch_paces shape index (paces index evaluation rfl found).1
    | none => exact .look _
  | argumentIfAny shape index =>
    simp only [answer]
    cases found : argumentAt? evaluations index with
    | some evaluation =>
      exact (fetch_paces shape index (paces index evaluation rfl found).1).bind
        fun _ _ _ => .pure _
    | none => exact .pure _
  | arity | raw | failure | stack | environment | setEnvironment | bound | lifting | fresh =>
    exact .quiet rfl rfl

section Programs

variable {answers : (r : Request φ ε) → Run ε r.Reply} {program : Program φ ε α} {w : World ε}
  (paces : ∀ r u, program.Reaches answers w r u → (answers r).Paces u)

include paces

theorem perform_paces : (perform answers program).Paces w := by
  induction program generalizing w with
  | done result => exact .pure result
  | panic payload =>
    intro x w' done
    cases done
  | ask request next ih =>
    refine (paces request w (.now _ _ _)).bind fun reply between step => ?_
    exact ih reply fun r u reached => paces r u (.later step reached)

theorem Program.Reaches.inStep {r : Request φ ε} {u : World ε}
    (reached : program.Reaches answers w r u) : InStep w u := by
  induction reached with
  | now r next w => exact .of_eq rfl rfl
  | later replied rest ih =>
    have later := ih fun r u reached => paces r u (.later replied reached)
    exact (paces _ _ (.now _ _ _) _ _ replied).trans later

end Programs

theorem reportDispatch_served (arity : Nat) {w : World ε} {call : Frame} {around : List Frame}
    (calls : w.frames = call :: around) :
    (reportDispatch arity w).2.frames = w.frames ∧ Served [call] w (reportDispatch arity w).2 := by
  simp only [reportDispatch, Run.change, calls]
  exact ⟨calls, [_], rfl, rfl⟩

theorem Program.Reaches.relays {answers : (r : Request φ ε) → Run ε r.Reply}
    {program : Program φ ε (Except Failure α)} {allowed : Request φ ε → Prop} {r : Request φ ε}
    {w u u' : World ε} (reached : program.Reaches answers w r u)
    (relays : program.Relays allowed) {reply : r.Reply}
    (step : answers r u = (.returned reply, u')) {f : Failure}
    (failed : r.argumentFailure? reply = some f) :
    perform answers program w = (.returned (.error f), u') := by
  induction reached with
  | now r next w =>
    have stops := relays.2 reply
    rw [failed] at stops
    rw [perform, Run.bind_apply, step]
    simp only [stops]
    rfl
  | @later first r next earlier w between u replied rest ih =>
    have goesOn := relays.2 earlier
    split at goesOn
    · rw [perform, Run.bind_apply, replied]
      exact ih goesOn step failed
    · rw [goesOn] at rest
      cases rest

private theorem answer_argument_fails {setup : Setup φ ε} {inner : InnerRun φ}
    {arguments : List Json} {evaluations : List (Run ε (Outcome φ))} {r : Request φ ε}
    {index : Nat} (evaluates : r.evaluates? = some index)
    {evaluation : Run ε (Outcome φ)} (found : argumentAt? evaluations index = some evaluation)
    {u u' : World ε} {f : Failure} (fails : evaluation u = (.returned (.error f), u')) :
    ∃ reply, answer setup inner arguments evaluations r u = (.returned reply, u') ∧
      r.argumentFailure? reply = some f := by
  cases r with
  | attempt other =>
    cases evaluates
    refine ⟨.ok (.error f), ?_, rfl⟩
    simp only [answer, found, Run.catchPanic, fails]
  | argument shape other =>
    cases evaluates
    refine ⟨.error f, ?_, rfl⟩
    simp only [answer, found, fetch, Run.bind_apply, fails]
    rfl
  | argumentIfAny shape other =>
    cases evaluates
    refine ⟨.error f, ?_, rfl⟩
    simp only [answer, found, fetch, Run.bind_apply, fails]
    rfl
  | arity | raw | failure | stack | environment | setEnvironment | bound | lifting | fresh | run =>
    cases evaluates

private theorem leaveWith_paces (setup : Setup φ ε) (address : Address) (node : Json)
    (outcome : Outcome φ) (w : World ε) : (leaveWith setup address node outcome).Paces w := by
  cases outcome with
  | error failure => exact .pure _
  | ok v => exact (leave_paces setup address node w).bind fun _ _ _ => .pure _

variable [Callable φ ε] {setup : Setup φ ε} {inner : InnerRun φ}

section Calls

variable {head : Json} {arguments : List Json} {address : Address} {w called inside : World ε}

private theorem resolve_paces
    (atHead : (∀ name, head ≠ .string name) →
      (evaluate setup inner head (0 :: address)).Paces w) :
    (resolve setup inner head address).Paces w := by
  by_cases byName : ∃ name, head = .string name
  · obtain ⟨name, rfl⟩ := byName
    exact .pure _
  · have computes (name : String) : head ≠ .string name := fun same => byName ⟨name, same⟩
    rw [resolve_computed setup inner computes]
    apply (atHead computes).bind
    intro outcome _ _
    cases outcome with
    | error failure => exact .pure _
    | ok callee => exact .pure _

private theorem Opens.paced {callee : Option (Binding φ ε)}
    (atHead : ∀ entered, enter setup address (.array (head :: arguments)) w =
      (.returned (), entered) → (∀ name, head ≠ .string name) →
        (evaluate setup inner head (0 :: address)).Paces entered)
    (opens : Opens setup inner head arguments address w callee called) :
    called.frames = ⟨head.headLabel, address.index, w.frames.length + 1⟩ :: w.frames ∧
      ∃ calls, Served calls w called ∧ Paced w.frames.length calls := by
  obtain ⟨enters, resolves⟩ := opens
  obtain ⟨restored, calls, served, paced⟩ :=
    (enter_paces setup address _ w _ _ enters).trans
      (resolve_paces (atHead _ enters) _ _ resolves)
  have entered := (enter_keepsCalls setup address _ w).frames_eq enters
  exact ⟨by simp [restored, entered], calls, served, paced⟩

section Serving

variable (calm : NoneUnwinds setup inner (.array (head :: arguments)) address w)
  (paces : ∀ index argument, argumentAt? arguments index = some argument → ∀ u,
    NoneUnwinds setup inner argument (index :: address) u →
      (evaluate setup inner argument (index :: address)).Paces u)
  {native : Native φ ε} (alone : Routine.Only (·.startsRun = false) native)
  (opens : Opens setup inner head arguments address w (some (.callable native)) called)

include calm paces alone opens

private theorem asked_paces (r : Request φ ε) (u : World ε)
    (reached : native.run.Reaches
      (answer setup inner arguments (evaluations setup inner arguments address 1))
      (reportDispatch arguments.length called).2 r u) :
    (answer setup inner arguments (evaluations setup inner arguments address 1) r).Paces u := by
  apply answer_paces setup inner arguments (reached.allowed alone)
  intro index evaluation evaluates found
  obtain ⟨argument, taken, rfl⟩ := argument_of_evaluation setup inner found
  have further : NoneUnwinds setup inner argument (index :: address) u :=
    calm.within (.argument ⟨native, called, opens, reached⟩ evaluates taken (.self _ _ _))
  exact ⟨paces index argument taken u further, further _ _ _ (.self _ _ _)⟩

private theorem serve_native_served {call : Frame} {around : List Frame}
    (pushed : called.frames = call :: around) {outcome : Outcome φ}
    (serves : serve setup inner head arguments address (some (.callable native)) called =
      (.returned outcome, inside)) :
    inside.frames = called.frames ∧
      ∃ later, Served (later ++ [call]) called inside ∧ Paced called.frames.length later := by
  obtain ⟨_, reported, report, serving⟩ := Run.bind_returned serves
  obtain rfl : (reportDispatch arguments.length called).2 = reported := congrArg Prod.snd report
  have rest : (perform (answer setup inner arguments (evaluations setup inner arguments address 1))
      native.run >>= stamp).Paces (reportDispatch arguments.length called).2 :=
    (perform_paces (asked_paces calm paces alone opens)).bind fun _ _ _ => .look _
  obtain ⟨same, reports⟩ := reportDispatch_served arguments.length pushed
  obtain ⟨restored, later, served, paced⟩ := rest _ _ serving
  rw [same] at restored paced
  exact ⟨restored, later, reports.trans served, paced⟩

end Serving

end Calls

section Evaluation

variable (alone : setup.sandbox.EveryNative (Routine.Only (·.startsRun = false)))

include alone

/-- Every evaluation without panics reports the calls that are served in step with their depths. -/
theorem evaluate_paces (node : Json) (address : Address) (w : World ε)
    (calm : NoneUnwinds setup inner node address w) :
    (evaluate setup inner node address).Paces w := by
  -- An argument may be evaluated more than once and from any state, so the state varies.
  induction node, address using call_induction generalizing w with
  | literal node address literal =>
    rw [evaluate_eq, evaluateEntered_literal setup inner literal]
    exact (enter_paces setup address node w).bind fun _ _ _ =>
      (Run.Paces.pure _).bind fun _ _ _ => leaveWith_paces setup address node _ _
  | empty address =>
    rw [evaluate_eq, evaluateEntered, evaluateCall]
    exact (enter_paces setup address _ w).bind fun _ _ _ =>
      (Run.Paces.pure _).bind fun _ _ _ => leaveWith_paces setup address _ _ _
  | call head arguments address atHead paces =>
    have headed (entered : World ε)
        (enters : enter setup address (.array (head :: arguments)) w = (.returned (), entered))
        (computes : ∀ name, head ≠ .string name) :
        (evaluate setup inner head (0 :: address)).Paces entered :=
      atHead computes entered (calm.within (.head computes enters (.self _ _ _)))
    intro outcome w' done
    rcases call_returned done with
      ⟨f, entered, rfl, enters, resolves⟩ | ⟨callee, called, inside, opens, serves, leaves⟩
    · exact (enter_paces setup address _ w _ _ enters).trans
        (resolve_paces (headed entered enters) _ _ resolves)
    · obtain ⟨pushed, before, opened, paced⟩ := opens.paced headed
      obtain ⟨restored, calls, served, pacedInside⟩ : inside.frames = called.frames ∧
          ∃ calls, Served calls called inside ∧ Paced w.frames.length calls := by
        cases callee with
        | none =>
          cases serves
          exact ⟨rfl, [], .of_events_eq rfl, trivial⟩
        | some binding =>
          cases binding with
          | value v =>
            cases serves
            exact ⟨rfl, [], .of_events_eq rfl, trivial⟩
          | callable native =>
            obtain ⟨restored, later, served, paced⟩ :=
              serve_native_served calm paces (opens.native alone) opens pushed serves
            rw [pushed, List.length_cons] at paced
            exact ⟨restored, _, served, paced.inside rfl⟩
      obtain ⟨left, last, leaving, pacedLast⟩ :=
        leaveWith_paces setup address _ outcome _ _ _ leaves
      rw [restored, pushed, List.tail_cons] at left pacedLast
      exact ⟨left, last ++ (calls ++ before), (opened.trans served).trans leaving,
        pacedLast.append (pacedInside.append paced)⟩

variable {node : Json} {address : Address} {w : World ε}

theorem NoneUnwinds.restoresCalls (calm : NoneUnwinds setup inner node address w) :
    RestoresCalls setup inner node address w := by
  rintro head arguments place u reached r v reply v' ⟨native, called, opens, asked⟩ replied
  have paces := asked_paces (calm.within reached)
    (fun _ _ _ => evaluate_paces alone _ _) (opens.native alone) opens r v asked
  exact (paces reply v' replied).1

private theorem Opens.paced_of_calm {head : Json} {arguments : List Json}
    (calm : NoneUnwinds setup inner (.array (head :: arguments)) address w)
    {callee : Option (Binding φ ε)} {called : World ε}
    (opens : Opens setup inner head arguments address w callee called) :
    called.frames = ⟨head.headLabel, address.index, w.frames.length + 1⟩ :: w.frames ∧
      ∃ calls, Served calls w called ∧ Paced w.frames.length calls :=
  opens.paced fun _ enters computes => evaluate_paces alone head (0 :: address) _
    (calm.within (.head computes enters (.self _ _ _)))

end Evaluation

/-- From `w` to `u` these calls were served, latest first, all of them deeper than what was in
progress in `w`. Some calls were added to those in progress, and each of them is the latest that was
served at its depth. -/
structure Retraces (w u : World ε) (calls added : List Frame) : Prop where
  served : Served calls w u
  deeper : ∀ call ∈ calls, w.frames.length < call.depth
  frames : u.frames = added ++ w.frames
  leveled : Leveled w.frames → Leveled u.frames
  bounded : ∀ call ∈ added, call.depth ≤ u.frames.length
  latest : ∀ call ∈ added, calls.find? (·.depth = call.depth) = some call

private theorem find?_deeper {calls : List Frame} {level depth : Nat}
    (deeper : ∀ call ∈ calls, level < call.depth) (bounded : depth ≤ level) :
    calls.find? (·.depth = depth) = none := by
  rw [List.find?_eq_none]
  intro call member
  have := deeper call member
  simp only [decide_eq_true_eq]
  omega

namespace Retraces

theorem of_paced {w u : World ε} {calls : List Frame} (restored : u.frames = w.frames)
    (served : Served calls w u) (paced : Paced w.frames.length calls) : Retraces w u calls [] :=
  ⟨served, paced.deeper, restored, fun level => restored ▸ level, by simp, by simp⟩

theorem trans {w between u : World ε} {calls later added further : List Frame}
    (first : Retraces w between calls added) (second : Retraces between u later further) :
    Retraces w u (later ++ calls) (further ++ added) := by
  have longer : w.frames.length ≤ between.frames.length := by simp [first.frames]
  have longer' : between.frames.length ≤ u.frames.length := by simp [second.frames]
  refine ⟨first.served.trans second.served, ?_, by simp [second.frames, first.frames],
    fun level => second.leveled (first.leveled level), ?_, ?_⟩
  · intro call member
    rcases List.mem_append.mp member with after | before
    · have := second.deeper call after
      omega
    · exact first.deeper call before
  · intro call member
    rcases List.mem_append.mp member with after | before
    · exact second.bounded call after
    · exact Nat.le_trans (first.bounded call before) longer'
  · intro call member
    rw [List.find?_append]
    rcases List.mem_append.mp member with after | before
    · rw [second.latest call after, Option.some_or]
    · rw [find?_deeper second.deeper (first.bounded call before), Option.none_or,
        first.latest call before]

end Retraces

section Reached

variable (alone : setup.sandbox.EveryNative (Routine.Only (·.startsRun = false)))
  {head : Json} {arguments : List Json} {address : Address} {w called u : World ε}

include alone

private theorem Opens.retraces
    (calm : NoneUnwinds setup inner (.array (head :: arguments)) address w)
    {callee : Option (Binding φ ε)}
    (opens : Opens setup inner head arguments address w callee called) {call : Frame}
    (opened : called.frames = call :: w.frames) {later : List Frame}
    (restored : u.frames = called.frames) (served : Served (later ++ [call]) called u)
    (paced : Paced called.frames.length later) :
    ∃ before, Retraces w u (later ++ call :: before) [call] := by
  obtain ⟨pushed, before, heads, pacedHead⟩ := opens.paced_of_calm alone calm
  obtain ⟨rfl, _⟩ := List.cons.inj (opened.symm.trans pushed)
  rw [pushed, List.length_cons] at paced
  refine ⟨before, ?_, ?_, ?_, ?_, ?_, ?_⟩
  · have whole := heads.trans served
    rwa [List.append_assoc] at whole
  · intro other member
    simp only [List.mem_append, List.mem_cons] at member
    rcases member with after | rfl | before
    · have := paced.deeper other after
      omega
    · simp
    · exact pacedHead.deeper other before
  · rw [restored, pushed]
    rfl
  · intro level
    rw [restored, pushed]
    exact leveled_cons.mpr ⟨rfl, level⟩
  · simp [restored, pushed]
  · -- What is served inside is deeper than the call, and what the head served is before it.
    simp only [List.mem_singleton, forall_eq]
    rw [List.find?_append, find?_deeper paced.deeper (Nat.le_refl _), Option.none_or,
      List.find?_cons_of_pos (by simp)]

private theorem Evaluates.retraces {node part : Json} {place : Address}
    (calm : NoneUnwinds setup inner node address w)
    (reached : Evaluates setup inner node address w part place u) :
    ∃ calls added, Retraces w u calls added := by
  induction reached with
  | self node address w => exact ⟨[], [], .of_paced rfl (.of_events_eq rfl) trivial⟩
  | head computes enters rest ih =>
    obtain ⟨restored, before, served, paced⟩ := enter_paces setup _ _ _ _ _ enters
    obtain ⟨calls, added, further⟩ := ih (calm.within (.head computes enters (.self _ _ _)))
    exact ⟨_, _, (Retraces.of_paced restored served paced).trans further⟩
  | @argument head argument part arguments address place index r w between u asks evaluates taken
      rest ih =>
    obtain ⟨calls, added, further⟩ :=
      ih (calm.within (.argument asks evaluates taken (.self _ _ _)))
    obtain ⟨native, called, opens, reached⟩ := asks
    obtain ⟨pushed, _⟩ := opens.paced_of_calm alone calm
    obtain ⟨same, reports⟩ := reportDispatch_served arguments.length pushed
    obtain ⟨restored, later, served, paced⟩ := reached.inStep
      (asked_paces calm (fun _ _ _ => evaluate_paces alone _ _) (opens.native alone) opens)
    rw [same] at restored paced
    obtain ⟨before, first⟩ := opens.retraces alone calm pushed restored (reports.trans served) paced
    exact ⟨_, _, first.trans further⟩

end Reached

theorem Evaluates.fails {allowed : Request φ ε → Prop}
    (relays : setup.sandbox.EveryNative (Routine.RelaysOver allowed)) {node part : Json}
    {address place : Address} {w u u' : World ε}
    (reached : Evaluates setup inner node address w part place u) {f : Failure}
    (fails : evaluate setup inner part place u = (.returned (.error f), u'))
    (nonempty : f.stack.isEmpty = false) :
    ∃ w', evaluate setup inner node address w = (.returned (.error f), w') ∧
      w'.ledger = u'.ledger := by
  induction reached with
  | self node address w => exact ⟨u', fails, rfl⟩
  | head computes enters rest ih =>
    obtain ⟨headed, headFails, same⟩ := ih fails
    refine ⟨headed, call_fails_iff.mpr (.inl ⟨_, enters, ?_⟩), same⟩
    rw [resolve_computed setup inner computes, Run.bind_apply, headFails]
    rfl
  | @argument head argument part arguments address place index r w between u asks evaluates taken
      rest ih =>
    obtain ⟨native, called, opens, reached⟩ := asks
    obtain ⟨last, argumentFails, same⟩ := ih fails
    have relaying := opens.native relays
    obtain ⟨reply, step, failed⟩ :=
      answer_argument_fails evaluates (evaluation_of_argument setup inner taken) argumentFails
    have performed := reached.relays relaying step failed
    refine ⟨_, call_fails_iff.mpr (.inr ⟨_, called, last, opens, ?_, rfl⟩), same⟩
    exact serve_native_fails_iff.mpr ⟨f, performed, Failure.stamp_of_nonempty nonempty _⟩

private theorem Raises.retraced
    (alone : setup.sandbox.EveryNative (Routine.Only (·.startsRun = false)))
    {node head : Json} {arguments : List Json} {address place : Address}
    {w u called inside : World ε} {callee : Option (Binding φ ε)} {f : Failure}
    (calm : NoneUnwinds setup inner node address w)
    (reached : Evaluates setup inner node address w (.array (head :: arguments)) place u)
    (raises : Raises setup inner head arguments place u callee called inside f) :
    ∃ calls added, Served calls w inside ∧ f.stack.frames = added ++ w.frames ∧
      (Leveled w.frames → Leveled f.stack.frames) ∧
      ∀ call ∈ added, call.depth < f.stack.size ∨ f.cause.isUndefined = false →
        calls.find? (·.depth = call.depth) = some call := by
  obtain ⟨calls, added, retraces⟩ := reached.retraces alone calm
  have calmCall := calm.within reached
  obtain ⟨opens, serves, stack, _, _, undefined⟩ := raises
  obtain ⟨pushed, before, heads, paced⟩ := opens.paced_of_calm alone calmCall
  cases callee with
  | none =>
    cases serves
    let call : Frame := ⟨head.headLabel, place.index, u.frames.length + 1⟩
    refine ⟨before ++ calls, call :: added, retraces.served.trans heads, ?_, ?_, ?_⟩
    · rw [stack, pushed, List.cons_append, ← retraces.frames]
    · intro level
      rw [stack, pushed]
      exact leveled_cons.mpr ⟨rfl, retraces.leveled level⟩
    · intro call member defined
      have size : (World.failure called head.undefined).stack.size = u.frames.length + 1 := by
        rw [Stack.size, stack, pushed, List.length_cons]
      rcases List.mem_cons.mp member with rfl | inner
      · rw [size, undefined.mpr rfl] at defined
        simp [call] at defined
      · rw [List.find?_append, find?_deeper paced.deeper (retraces.bounded call inner),
          Option.none_or, retraces.latest call inner]
  | some binding =>
    cases binding with
    | value v => cases serves
    | callable native =>
      -- The native is still serving the innermost call, so this one has been reported as well.
      obtain ⟨restored, later, served, pacedLater⟩ := serve_native_served calmCall
        (fun _ _ _ => evaluate_paces alone _ _) (opens.native alone) opens pushed serves
      obtain ⟨_, last⟩ := opens.retraces alone calmCall pushed restored served pacedLater
      have whole := retraces.trans last
      have frames : f.stack.frames = inside.frames := stack.trans restored.symm
      refine ⟨_, _, whole.served, frames.trans whole.frames, ?_, fun call member _ =>
        whole.latest call member⟩
      rw [frames]
      exact whole.leveled

/-- If natives hold back no failure of an argument, fail themselves only with failures at this point
of the run or in their own words, and start no run, then a run without panics reports the calls that
natives serve and nothing else before its end: the first has depth one, and each is at most one
deeper than the one before. If the run fails, each call of the failure is the latest that is
reported at its depth, except for an innermost call that is undefined. The failure comes from a call
of the run, and when it leaves this call all that the run reports has been reported; if the call is
undefined, it has been when the call is opened. -/
theorem dispatch_log_retraces_failure [Inhabited ε] (c : Context φ ε)
    (relays : c.sandbox.EveryNative (Routine.RelaysOver (·.startsRun = false)))
    (honest : c.sandbox.EveryNative (Routine.Honest [])) (script : Json) (ledger : Ledger)
    (outcome : Outcome φ) (c' : Context φ ε) (ledger' : Ledger)
    (done : c.run script ledger = (.returned outcome, c', ledger'))
    (calm : NoneUnwinds c.toSetup (Context.innerRun c.sandbox Context.runLimit) script []
      { env := c.env, ledger }) :
    let inner := Context.innerRun c.sandbox Context.runLimit
    ∃ (log : List Event) (calls : List Frame), log.map Event.call? = calls.map some ∧
      (∀ call ∈ calls.getLast?, call.depth = 1) ∧
      calls.IsChain (fun call before => call.depth ≤ before.depth + 1) ∧
      (∀ v, outcome = .ok v → ledger'.events = log ++ ledger.events) ∧
      ∀ f, outcome = .error f →
        ledger'.events = .failed f.message f.stack :: (log ++ ledger.events) ∧
        Leveled f.stack.frames ∧
        (∀ call ∈ f.stack.frames, call.depth < f.stack.size ∨ f.cause.isUndefined = false →
          calls.find? (·.depth = call.depth) = some call) ∧
        ∃ head arguments place u callee called inside,
          Evaluates c.toSetup inner script [] { env := c.env, ledger } (.array (head :: arguments))
            place u ∧
          Raises c.toSetup inner head arguments place u callee called inside f ∧
          inside.ledger.events = log ++ ledger.events ∧
          (f.cause.isUndefined = true → called.ledger.events = log ++ ledger.events) := by
  intro inner
  have alone : c.sandbox.EveryNative (Routine.Only (·.startsRun = false)) :=
    relays.mono fun _ relaying => Program.Relays.only relaying
  obtain ⟨w, traced, _, rfl⟩ := Context.close_returned done
  have evaluated : evaluate c.toSetup inner script [] { env := c.env, ledger } =
      (.returned outcome, w) :=
    (Context.evaluation_of_calm (calm _ _ _ (.self _ _ _))).symm.trans traced
  obtain ⟨_, calls, whole, paced⟩ := evaluate_paces alone script [] _ calm _ _ evaluated
  obtain ⟨log, grown, reported⟩ := id whole
  refine ⟨log, calls, reported, paced.first, paced.isChain, ?_, ?_⟩
  · rintro v rfl
    exact grown
  · rintro f rfl
    have forwards : c.sandbox.EveryNative (Routine.ForwardsOr fun _ => False) :=
      honest.mono fun _ honest => honest.forwards
    have runs (head : Json) (arguments : List Json) (place : Address) (u : World ε) (f : Failure) :
        RunsInto c.toSetup inner head arguments place u f → f.Located := by
      rintro ⟨run, between, _, ⟨native, _, opens, asks⟩, _⟩
      cases asks.allowed (opens.native alone)
    obtain ⟨head, arguments, place, u, reached, ⟨run, between, _, ⟨native, _, opens, asks⟩, _⟩ |
      ⟨native, called, inside, g, hands⟩ | ⟨callee, called, inside, raises⟩⟩ :=
      evaluate_origin runs (fun _ none => none.elim) forwards script [] _ w f
        (calm.restoresCalls alone) evaluated
    · cases asks.allowed (opens.native alone)
    · exact False.elim hands.inherits
    · have call := call_fails_iff.mpr
        (.inr ⟨callee, called, inside, raises.opens, raises.serves, rfl⟩)
      obtain ⟨last, evaluated', same⟩ := reached.fails relays call raises.located.stack_nonempty
      obtain rfl : w = last := by
        have same := evaluated.symm.trans evaluated'
        exact congrArg Prod.snd same
      have ended : inside.ledger.events = log ++ ledger.events := by
        rw [← grown, same]
      obtain ⟨others, added, served, frames, leveled, latest⟩ :=
        raises.retraced alone calm reached
      obtain rfl : others = calls := served.unique ⟨log, ended, reported⟩
      obtain rfl : f.stack.frames = added := frames.trans (List.append_nil _)
      refine ⟨congrArg (List.cons _) grown, leveled leveled_nil, latest, head, arguments, place, u,
        callee, called, inside, reached, raises, ended, fun undefined => ?_⟩
      have serves := raises.serves
      rw [raises.undefined.mp undefined] at serves
      cases serves
      exact ended

theorem Probe.guard_relays :
    Routine.RelaysOver (·.startsRun = false)
      (Probe.guard : Native Probe.Closure Probe.Journal) := by
  refine ⟨rfl, fun reply => ?_⟩
  rcases reply with payload | (f | v)
  · refine Routine.RelaysOver.bind (.request rfl fun _ => rfl) fun _ => ?_
    exact .bind (.bind (.request rfl fun _ => rfl) fun _ => .pure _) fun _ => .pure _
  · rfl
  · trivial

theorem Probe.guard_honest :
    Routine.Honest [] (Probe.guard : Native Probe.Closure Probe.Journal) := by
  intro reply
  rcases reply with payload | (f | v)
  · refine Routine.Honest.bind (.request _) fun _ => ?_
    exact .bind (.bind (.request _) fun _ => .pure _) fun _ => .pure _
  · exact .inl List.mem_cons_self
  · trivial

theorem Probe.guard_panicFree :
    Routine.PanicFree (Probe.guard : Native Probe.Closure Probe.Journal) := by
  refine .bind (.request _) fun reply => ?_
  cases reply with
  | error payload =>
    exact .bind (.request _) fun _ => .bind (.bind (.request _) fun _ => .pure _) fun _ => .pure _
  | ok outcome => exact .settle outcome

/-- Calls below a computed head, inside a native that catches panics: the head is reported at the
depth of the call to which it belongs, and before it. One script fails at an argument, the other at
an unbound name. -/
theorem calls_below_computed_head_retraced :
    let pick : Native Probe.Closure Probe.Journal := Probe.Closure.make (.argument · 1)
    let c := Context.ofSandbox
      ((Boxes.standard.insertNative "pick" pick).insertNative "guard" Probe.guard) {}
    let script (name : String) : Json := .array [.string "guard", .array [.string "do", .null,
      .array [.array [.string "pick"], .array [.string name]]]]
    let around : List Frame := [⟨"[\"pick\"]", 2, 3⟩, ⟨"do", 1, 2⟩, ⟨"guard", 0, 1⟩]
    let missing : Failure := ⟨.missingArgument "not" 1, ⟨⟨"not", 1, 4⟩ :: around⟩⟩
    let unbound : Failure := ⟨.undefinedName "nope", ⟨⟨"nope", 1, 4⟩ :: around⟩⟩
    let retraced (f : Failure) (found : List Frame) (ledger : Ledger) : Prop :=
      ∃ (log : List Event) (calls : List Frame),
        ledger.events = .failed f.message f.stack :: log ∧ log.map Event.call? = calls.map some ∧
        ∀ call ∈ found, calls.find? (·.depth = call.depth) = some call
    (∃ c' ledger', c.run (script "not") {} = (.returned (.error missing), c', ledger') ∧
      retraced missing missing.stack.frames ledger') ∧
    ∃ c' ledger', c.run (script "nope") {} = (.returned (.error unbound), c', ledger') ∧
      retraced unbound around ledger' := by
  intro pick c script around missing unbound retraced
  have relays : c.sandbox.EveryNative (Routine.RelaysOver (·.startsRun = false)) := by
    have standard := Boxes.standard_relays (ε := Probe.Journal) Probe.Closure.code_relays
    refine .insertNative (.insertNative (standard.mono fun _ relays => relays.mono ?_) ?_ "pick")
      Probe.guard_relays "guard"
    · exact fun _ stays => stays.2
    · exact .bind (.request rfl fun _ => rfl) fun _ => .pure _
  have honest : c.sandbox.EveryNative (Routine.Honest []) :=
    .insertNative (.insertNative ⟨fun _ _ found => Boxes.eachNative_honest.standard_binds.of_find?
      found, Probe.Closure.code_honest⟩ (.bind (.request _) fun _ => .pure _) "pick")
      Probe.guard_honest "guard"
  have panicFree : c.sandbox.EveryNative Routine.PanicFree :=
    .insertNative (.insertNative ⟨fun _ _ found =>
      Boxes.eachNative_panicFree.standard_binds.of_find? found, Probe.Closure.code_panicFree⟩
      (.bind (.request _) fun _ => .pure _) "pick") Probe.guard_panicFree "guard"
  have calm (script : Json) : NoneUnwinds c.toSetup
      (Context.innerRun c.sandbox Context.runLimit) script [] { env := c.env, ledger := {} } :=
    fun part place u _ => (evaluate_settles (innerRun_calm panicFree _) calm_none calm_none
      panicFree part place u).not_unwound
  have latest {name : String} {f : Failure} {found : List Frame}
      (known : ∀ call ∈ found, call ∈ f.stack.frames ∧
        (call.depth < f.stack.size ∨ f.cause.isUndefined = false))
      (ran : ∃ c' ledger', c.run (script name) {} = (.returned (.error f), c', ledger')) :
      ∃ c' ledger', c.run (script name) {} = (.returned (.error f), c', ledger') ∧
        retraced f found ledger' := by
    obtain ⟨c', ledger', fails⟩ := ran
    obtain ⟨log, calls, reported, _, _, _, failed⟩ := dispatch_log_retraces_failure c relays honest
      (script name) {} (.error f) c' ledger' fails (calm (script name))
    obtain ⟨events, _, latest, _⟩ := failed f rfl
    refine ⟨c', ledger', fails, log, calls, by simpa using events, reported, ?_⟩
    exact fun call member => latest call (known call member).1 (known call member).2
  exact ⟨latest (by decide) ⟨_, _, rfl⟩, latest (by decide) ⟨_, _, rfl⟩⟩

end JsonScript
