import JsonScript.Proofs.StackDiscipline

/-!
The stack of a failure is an address in the script.

From the outside in, the frames of a failure belong to calls of the script each of which stands in
an argument of the one before, or is reached from such an argument through heads. The failure may
have been kept by natives on its way, as long as they pass on only what they were given.
-/

set_option autoImplicit false
set_option relaxedAutoImplicit false

namespace JsonScript

open Evaluator

variable {φ ε α : Type}

/-- What the frame of a call is called: the name that is its head, or the text of the head. -/
def Json.headLabel : Json → String
  | .string name => name
  | head => head.render

theorem computes_label {head : Json} (computes : ∀ name, head ≠ .string name) :
    head.headLabel = head.render := by
  cases head with
  | string name => exact absurd rfl (computes name)
  | null | bool | number | array | object => rfl

def Json.descend : Nat → Json → Option Json
  | 0, node => some node
  | steps + 1, .array (head :: _) => head.descend steps
  | _ + 1, _ => none

/-- `Trail node position depth frames`: the frames, outermost first, are those of calls one inside
the other. The first is the node, which stands at the position, or a call reached from it through
heads; each other one is related in the same way to an argument of the call before it. -/
inductive Trail : Json → Nat → Nat → List Frame → Prop where
  | last {node head : Json} {arguments : List Json} {steps position depth : Nat}
      (reached : node.descend steps = some (.array (head :: arguments))) :
      Trail node position depth [⟨head.headLabel, if steps = 0 then position else 0, depth⟩]
  | inside {node head argument : Json} {arguments : List Json}
      {steps position depth index : Nat} {frames : List Frame}
      (reached : node.descend steps = some (.array (head :: arguments)))
      (taken : argumentAt? arguments index = some argument)
      (rest : Trail argument index (depth + 1) frames) :
      Trail node position depth
        (⟨head.headLabel, if steps = 0 then position else 0, depth⟩ :: frames)

namespace Trail

theorem ne_nil {node : Json} {position depth : Nat} {frames : List Frame}
    (trail : Trail node position depth frames) : frames ≠ [] := by
  cases trail <;> simp

theorem head {head : Json} {depth : Nat} {frames : List Frame}
    (trail : Trail head 0 depth frames) (arguments : List Json) (position : Nat) :
    Trail (.array (head :: arguments)) position depth frames := by
  have index (steps : Nat) :
      (if steps = 0 then 0 else 0) = if steps + 1 = 0 then position else 0 := by
    simp
  cases trail with
  | last reached =>
    rw [index]
    exact .last reached
  | inside reached taken rest =>
    rw [index]
    exact .inside reached taken rest

end Trail

/-- The failure was raised on a trail from the node, below the given calls. -/
def Traced (node : Json) (position : Nat) (calls : List Frame) (f : Failure) : Prop :=
  ∃ inner, Trail node position (calls.length + 1) inner ∧ f.stack.frames = inner.reverse ++ calls

/-- The failure was raised by the innermost of the given calls itself, or on a trail from one of
its arguments. -/
def RaisedBy (arguments : List Json) (calls : List Frame) (f : Failure) : Prop :=
  f.stack.frames = calls ∨
    ∃ index argument, argumentAt? arguments index = some argument ∧ Traced argument index calls f

theorem RaisedBy.traced {head : Json} {arguments : List Json} {position : Nat}
    {calls : List Frame} {f : Failure}
    (raised : RaisedBy arguments (⟨head.headLabel, position, calls.length + 1⟩ :: calls) f) :
    Traced (.array (head :: arguments)) position calls f := by
  have reached :
      (Json.array (head :: arguments)).descend 0 = some (.array (head :: arguments)) := rfl
  rcases raised with here | ⟨index, argument, taken, inner, rest, frames⟩
  · exact ⟨_, .last reached, here⟩
  · refine ⟨_, .inside reached taken rest, ?_⟩
    rw [frames]
    simp

theorem RaisedBy.stack_ne_nil {arguments : List Json} {calls : List Frame} {f : Failure}
    (raised : RaisedBy arguments calls f) (nonempty : calls ≠ []) : f.stack.frames ≠ [] := by
  rcases raised with here | ⟨_, _, _, inner, _, frames⟩
  · rw [here]
    exact nonempty
  · rw [frames]
    simp [nonempty]

def Request.startsRun : Request φ ε → Bool
  | .run _ => true
  | _ => false

private theorem perform_fails {answers : (r : Request φ ε) → Run ε r.Reply}
    {allowed : Request φ ε → Prop} {calls : List Frame} {P : Failure → Prop}
    (restores : ∀ r, allowed r → ∀ w, KeepsCalls w (answers r w))
    (brings : ∀ r, allowed r → ∀ w reply w', w.frames = calls →
      answers r w = (.returned reply, w') → ∀ f ∈ r.failures reply, P f)
    {program : Program φ ε (Except Failure α)} (only : program.Only allowed)
    {known : List Failure} (honest : program.Honest known) (fits : ∀ f ∈ known, P f)
    {w w' : World ε} {f : Failure} (around : w.frames = calls)
    (fails : perform answers program w = (.returned (.error f), w')) :
    P f ∨ ∃ message, f = .native message := by
  -- Induction on the program; what is known grows by what each reply brings.
  induction program generalizing known w with
  | done result =>
    cases fails
    exact honest.imp (fits f) id
  | panic payload => cases fails
  | ask request next ih =>
    rw [perform] at fails
    obtain ⟨reply, between, step, fails⟩ := Run.bind_returned fails
    have restored := (restores request only.1 w).frames_eq step
    refine ih reply (only.2 reply) (honest reply) ?_ (restored.trans around) fails
    intro g member
    rcases List.mem_append.mp member with brought | before
    · exact brings request only.1 w reply between around step g brought
    · exact fits g before

private theorem fetch_fails {shape : Shape} {index : Nat} {evaluation : Run ε (Outcome φ)}
    {w w' : World ε} {f : Failure} (keeps : KeepsCalls w (evaluation w))
    (fails : fetch shape index evaluation w = (.returned (.error f), w')) :
    (∃ between, evaluation w = (.returned (.error f), between)) ∨ f.stack.frames = w.frames := by
  obtain ⟨outcome, between, step, fails⟩ := Run.bind_returned fails
  cases outcome with
  | error own =>
    cases fails
    exact .inl ⟨_, step⟩
  | ok v =>
    simp only [convert] at fails
    cases converted : shape.fromValue v with
    | ok x =>
      rw [converted] at fails
      cases fails
    | error mismatch =>
      rw [converted] at fails
      cases fails
      exact .inr (keeps.frames_eq step)

section Arguments

variable {setup : Setup φ ε} {inner : InnerRun φ} {arguments : List Json}
  {evaluations : List (Run ε (Outcome φ))}

private theorem answer_brings {P : Failure → Prop} {w w' : World ε}
    (keeps : ∀ index evaluation, argumentAt? evaluations index = some evaluation →
      KeepsCalls w (evaluation w))
    (own : ∀ f : Failure, f.stack.frames = w.frames → P f)
    (fails : ∀ index evaluation f between, argumentAt? evaluations index = some evaluation →
      evaluation w = (.returned (.error f), between) → P f)
    {r : Request φ ε} (allowed : r.catchesPanic = false ∧ r.startsRun = false) {reply : r.Reply}
    (step : answer setup inner arguments evaluations r w = (.returned reply, w')) :
    ∀ f ∈ r.failures reply, P f := by
  have fetched : ∀ (shape : Shape) (index : Nat) (evaluation : Run ε (Outcome φ)) (f : Failure)
      (between : World ε), argumentAt? evaluations index = some evaluation →
      fetch shape index evaluation w = (.returned (.error f), between) → P f := by
    intro shape index evaluation f between found step
    rcases fetch_fails (keeps index evaluation found) step with ⟨between, step⟩ | here
    · exact fails index evaluation f between found step
    · exact own f here
  intro f member
  cases r with
  | attempt index => cases allowed.1
  | run script => cases allowed.2
  | argument shape index =>
    simp only [answer] at step
    cases reply with
    | ok x => cases member
    | error g =>
      obtain rfl : f = g := List.mem_singleton.mp member
      cases found : argumentAt? evaluations index with
      | some evaluation =>
        rw [found] at step
        exact fetched shape index evaluation f _ found step
      | none =>
        rw [found] at step
        cases step
        exact own _ rfl
  | argumentIfAny shape index =>
    simp only [answer] at step
    cases reply with
    | ok x => cases member
    | error g =>
      obtain rfl : f = g := List.mem_singleton.mp member
      cases found : argumentAt? evaluations index with
      | some evaluation =>
        rw [found] at step
        obtain ⟨result, between, step, mapped⟩ := Run.bind_returned step
        cases result with
        | ok x => cases mapped
        | error h =>
          cases mapped
          exact fetched shape index evaluation f _ found step
      | none =>
        rw [found] at step
        cases step
  | failure message =>
    obtain rfl : f = reply := List.mem_singleton.mp member
    cases step
    exact own _ rfl
  | arity | raw | stack | environment | setEnvironment | bound | lifting | fresh => cases member

/-- What natives may do whose failures can be traced: they stay in the run, let panics through,
and pass on failures as they were given them. -/
def Traceable (native : Native φ ε) : Prop :=
  Routine.Only (fun r => r.catchesPanic = false ∧ r.startsRun = false) native ∧
    Routine.Honest [] native

private theorem invoke_fails (innerLeveled : inner.SeesLeveled)
    (keeps : ∀ index evaluation, argumentAt? evaluations index = some evaluation →
      ∀ w, KeepsCalls w (evaluation w))
    {w w' : World ε} {f : Failure} (nonempty : w.frames ≠ [])
    (fails : ∀ index evaluation start f between, argumentAt? evaluations index = some evaluation →
      start.frames = w.frames → evaluation start = (.returned (.error f), between) →
      RaisedBy arguments w.frames f)
    {native : Native φ ε} (traceable : Traceable native)
    (step : invoke setup inner arguments evaluations native w = (.returned (.error f), w')) :
    RaisedBy arguments w.frames f := by
  obtain ⟨only, honest⟩ := traceable
  have restores : ∀ r : Request φ ε, r.catchesPanic = false ∧ r.startsRun = false → ∀ w,
      KeepsCalls w (answer setup inner arguments evaluations r w) := fun r allowed =>
    answer_keepsCalls setup innerLeveled arguments keeps r allowed.1
  have brings : ∀ r : Request φ ε, r.catchesPanic = false ∧ r.startsRun = false →
      ∀ start reply between, start.frames = w.frames →
      answer setup inner arguments evaluations r start = (.returned reply, between) →
      ∀ f ∈ r.failures reply, RaisedBy arguments w.frames f := by
    intro r allowed start reply between same step
    refine answer_brings (fun index evaluation found => keeps index evaluation found start)
      (fun f here => .inl (here.trans same)) ?_ allowed step
    intro index evaluation f between found step
    exact fails index evaluation start f between found same step
  obtain ⟨_, reported, report, step⟩ := Run.bind_returned step
  obtain ⟨outcome, served, serve, step⟩ := Run.bind_returned step
  have before : reported.frames = w.frames := (reportDispatch_keepsCalls _ w).frames_eq report
  have after : served.frames = w.frames :=
    ((perform_keepsCalls restores only reported).frames_eq serve).trans before
  cases outcome with
  | ok v => cases step
  | error g =>
    cases step
    rcases perform_fails restores brings only honest (by simp) before serve with
      raised | ⟨message, rfl⟩
    · have stack : g.stack.isEmpty = false := by
        simpa [Stack.isEmpty] using raised.stack_ne_nil nonempty
      rw [Failure.stamp, stack]
      exact raised
    · exact .inl after

end Arguments

variable [Callable φ ε]

theorem evaluate_fails {setup : Setup φ ε} {inner : InnerRun φ} {node : Json}
    {address : Address} {w w' : World ε} {f : Failure}
    (fails : evaluate setup inner node address w = (.returned (.error f), w')) :
    ∃ start, enter setup address node w = (.returned (), start) ∧
      evaluateEntered setup inner node address start = (.returned (.error f), w') := by
  rw [evaluate_eq] at fails
  obtain ⟨_, start, entered, fails⟩ := Run.bind_returned fails
  obtain ⟨outcome, between, called, fails⟩ := Run.bind_returned fails
  cases outcome with
  | error g =>
    cases fails
    exact ⟨start, entered, called⟩
  | ok v =>
    obtain ⟨_, _, _, fails⟩ := Run.bind_returned fails
    cases fails

private theorem invoke_traced {setup : Setup φ ε} {inner : InnerRun φ}
    (innerLeveled : inner.SeesLeveled)
    (passes : setup.sandbox.EveryNative (Routine.Only (·.catchesPanic = false)))
    {head : Json} {arguments : List Json} {address : Address}
    (inside : ∀ index argument, argumentAt? arguments index = some argument → ∀ w w' f,
      evaluate setup inner argument (index :: address) w = (.returned (.error f), w') →
        Traced argument index w.frames f)
    {native : Native φ ε} (traceable : Traceable native) {w w' : World ε} {f : Failure}
    {calls : List Frame}
    (pushed : w.frames = ⟨head.headLabel, address.index, calls.length + 1⟩ :: calls)
    (fails : invoke setup inner arguments (evaluations setup inner arguments address 1) native w =
      (.returned (.error f), w')) :
    Traced (.array (head :: arguments)) address.index calls f := by
  apply RaisedBy.traced
  rw [← pushed]
  refine invoke_fails innerLeveled ?_ (by simp [pushed]) ?_ traceable fails
  · intro index evaluation found
    obtain ⟨argument, _, rfl⟩ := argument_of_evaluation setup inner found
    exact evaluate_keepsCalls setup innerLeveled passes argument (index :: address)
  · intro index evaluation start g between found same step
    obtain ⟨argument, taken, rfl⟩ := argument_of_evaluation setup inner found
    exact .inr ⟨index, argument, taken, same ▸ inside index argument taken start between g step⟩

/-- A node that fails under some calls fails on a trail from it below them. -/
theorem evaluate_traced (setup : Setup φ ε) {inner : InnerRun φ}
    (innerLeveled : inner.SeesLeveled) (traceable : setup.sandbox.EveryNative Traceable)
    (node : Json) (address : Address) (w w' : World ε) (f : Failure)
    (fails : evaluate setup inner node address w = (.returned (.error f), w')) :
    Traced node address.index w.frames f := by
  have passes := traceable.mono fun _ fits => fits.1.mono fun _ allowed => allowed.1
  induction node, address using script_induction generalizing w w' f with
  | literal node address literal =>
    obtain ⟨_, _, fails⟩ := evaluate_fails fails
    rw [evaluateEntered_literal setup inner literal] at fails
    cases fails
  | empty address =>
    obtain ⟨_, _, fails⟩ := evaluate_fails fails
    cases fails
  | named name arguments address inside =>
    obtain ⟨start, entered, fails⟩ := evaluate_fails fails
    have frames := (enter_keepsCalls setup address _ w).frames_eq entered
    rw [evaluateEntered, evaluateCall] at fails
    obtain ⟨_, _, looked, fails⟩ := Run.bind_returned fails
    cases looked
    obtain ⟨last, fails, _⟩ := Run.within_returned fails
    rw [← frames]
    cases found : setup.sandbox.find? name with
    | none =>
      rw [found] at fails
      cases fails
      let call : Frame := ⟨name, address.index, start.frames.length + 1⟩
      have here : RaisedBy arguments (call :: start.frames)
          ⟨.undefinedName name, ⟨call :: start.frames⟩⟩ := .inl rfl
      exact here.traced
    | some binding =>
      rw [found] at fails
      cases binding with
      | value v => cases fails
      | callable native =>
        have own := traceable.1 name native found
        exact invoke_traced innerLeveled passes inside own rfl fails
  | computed head arguments address computes atHead inside =>
    obtain ⟨start, entered, fails⟩ := evaluate_fails fails
    have frames := (enter_keepsCalls setup address _ w).frames_eq entered
    rw [evaluateEntered, evaluateCall.eq_3 setup inner address head arguments computes] at fails
    obtain ⟨_, _, looked, fails⟩ := Run.bind_returned fails
    cases looked
    obtain ⟨outcome, headed, step, fails⟩ := Run.bind_returned fails
    rw [← frames]
    cases outcome with
    | error g =>
      cases fails
      obtain ⟨inner, trail, stack⟩ := atHead start _ _ step
      exact ⟨inner, trail.head arguments address.index, stack⟩
    | ok callee =>
      obtain ⟨last, fails, _⟩ := Run.within_returned fails
      have restored : headed.frames = start.frames :=
        (evaluate_keepsCalls setup innerLeveled passes head _ start).frames_eq step
      rw [← computes_label computes, restored] at fails
      cases callee with
      | function g => exact invoke_traced innerLeveled passes inside (traceable.2 g) rfl fails
      | null | bool | number | text | list | object =>
        cases fails
        exact RaisedBy.traced (.inl rfl)

/-- If natives stay in the run and pass failures on as they were given them, then the stack of
every failure of a run, unless it is a lifted panic, is that of calls of the script one inside the
other, down from the root. -/
theorem failure_stack_addresses_script [Inhabited ε] (c : Context φ ε)
    (traceable : c.sandbox.EveryNative Traceable) (script : Json) (ledger : Ledger)
    (f : Failure) (c' : Context φ ε) (ledger' : Ledger)
    (fails : c.run script ledger = (.returned (.error f), c', ledger'))
    (ordinary : f.cause.isPanic = false) :
    f.stack.isEmpty = false ∧ Trail script 0 1 f.stack.frames.reverse := by
  have passes := traceable.mono fun _ fits => fits.1.mono fun _ allowed => allowed.1
  have innerLeveled := innerRun_seesLeveled c.sandbox passes Context.runLimit
  obtain ⟨w, traced, _, _⟩ := Context.close_returned fails
  obtain ⟨inner, trail, stack⟩ := evaluate_traced c.toSetup innerLeveled traceable script [] _ w f
    (Context.evaluation_returned traced (by rintro _ ⟨⟩; exact ordinary))
  have frames : f.stack.frames.reverse = inner := by
    rw [stack]
    simp
  refine ⟨?_, frames ▸ trail⟩
  have nonempty : f.stack.frames ≠ [] := by
    intro empty
    exact trail.ne_nil (by rw [← frames, empty]; rfl)
  simpa [Stack.isEmpty] using nonempty

/-- After two failures were swallowed, a third is raised in an argument of a computed head. -/
theorem failure_inside_head_addressed :
    let sandbox : Sandbox Probe.Closure Probe.Journal :=
      (Sandbox.empty.insertNative "try" Probe.orElse).insertNative "fail" Probe.failPlainly
    let c := Context.ofSandbox sandbox {}
    let head : Json := .array [.string "try", .array [.string "unbound"],
      .array [.string "fail", .string "third"]]
    let script : Json := .array [.string "try", .array [.string "unbound"], .array [head]]
    let frames : List Frame := [⟨"fail", 2, 3⟩, ⟨"try", 0, 2⟩, ⟨"try", 0, 1⟩]
    (∃ c' ledger', c.run script {} =
      (.returned (.error ⟨.native "third", ⟨frames⟩⟩), c', ledger')) ∧
      Trail script 0 1 frames.reverse := by
  intro sandbox c head script frames
  have traceable : c.sandbox.EveryNative Traceable := by
    have functions (g : Probe.Closure) :
        Traceable (Callable.code g : Native Probe.Closure Probe.Journal) :=
      ⟨Probe.Closure.code_only (fun _ _ => ⟨rfl, rfl⟩) ⟨rfl, rfl⟩ ⟨rfl, rfl⟩ ⟨rfl, rfl⟩ g,
        Probe.Closure.code_honest g⟩
    refine .insertNative (.insertNative (.empty functions) ?_ "try") ?_ "fail"
    · exact ⟨Probe.orElse_only fun _ _ => ⟨rfl, rfl⟩, Probe.orElse_honest⟩
    · exact ⟨Probe.failPlainly_only fun _ _ => ⟨rfl, rfl⟩, Probe.failPlainly_honest⟩
  have ran : ∃ c' ledger', c.run script {} =
      (.returned (.error ⟨.native "third", ⟨frames⟩⟩), c', ledger') := ⟨_, _, rfl⟩
  obtain ⟨c', ledger', fails⟩ := ran
  exact ⟨⟨c', ledger', fails⟩,
    (failure_stack_addresses_script c traceable script {} _ c' ledger' fails rfl).2⟩

end JsonScript
