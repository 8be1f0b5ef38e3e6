import JsonScript.Proofs.FailureTrail
import JsonScript.Proofs.StandardBox

/-!
The course of an evaluation.

A call by name and a call with a computed head proceed alike once it is known what the head stands
for: the node is entered, the head is resolved, the frame of the call is put on the calls in
progress, and the call is served. A native that serves it makes its requests one after the other,
each in a state of its own; those for arguments start evaluations inside this one.
-/

set_option autoImplicit false
set_option relaxedAutoImplicit false

namespace JsonScript

open Evaluator

variable {φ ε α : Type}

/-- `Reaches answers program w r u`: carried out from `w`, the program comes to make the request `r`
in the state `u`. -/
inductive Program.Reaches (answers : (r : Request φ ε) → Run ε r.Reply) :
    Program φ ε α → World ε → Request φ ε → World ε → Prop where
  | now (r : Request φ ε) (next : r.Reply → Program φ ε α) (w : World ε) :
      Reaches answers (.ask r next) w r w
  | later {first r : Request φ ε} {next : first.Reply → Program φ ε α} {reply : first.Reply}
      {w between u : World ε} (replied : answers first w = (.returned reply, between))
      (rest : Reaches answers (next reply) between r u) :
      Reaches answers (.ask first next) w r u

namespace Program.Reaches

variable {answers : (r : Request φ ε) → Run ε r.Reply} {program : Program φ ε α}
  {r : Request φ ε} {w u : World ε}

theorem allowed (reached : program.Reaches answers w r u) {allowed : Request φ ε → Prop}
    (only : program.Only allowed) : allowed r := by
  induction reached with
  | now r next w => exact only.1
  | later replied rest ih => exact ih (only.2 _)

theorem frames_eq (reached : program.Reaches answers w r u)
    (restores : ∀ r v reply v', program.Reaches answers w r v →
      answers r v = (.returned reply, v') → v'.frames = v.frames) : u.frames = w.frames := by
  induction reached with
  | now r next w => rfl
  | later replied rest ih =>
    rw [ih fun r v reply v' reached => restores r v reply v' (.later replied reached)]
    exact restores _ _ _ _ (.now _ _ _) replied

end Program.Reaches

theorem Program.Reaches.unwinds {answers : (r : Request φ ε) → Run ε r.Reply}
    {program : Program φ ε α} {r : Request φ ε} {w u u' : World ε}
    (reached : program.Reaches answers w r u) {payload : Panic}
    (unwinds : answers r u = (.unwound payload, u')) :
    perform answers program w = (.unwound payload, u') := by
  induction reached with
  | now r next w => rw [perform, Run.bind_apply, unwinds]
  | later replied rest ih =>
    rw [perform, Run.bind_apply, replied]
    exact ih unwinds

theorem perform_frames_eq {answers : (r : Request φ ε) → Run ε r.Reply} {program : Program φ ε α}
    {w w' : World ε} {x : α} (done : perform answers program w = (.returned x, w'))
    (restores : ∀ r v reply v', program.Reaches answers w r v →
      answers r v = (.returned reply, v') → v'.frames = v.frames) : w'.frames = w.frames := by
  induction program generalizing w with
  | done result =>
    cases done
    rfl
  | panic payload => cases done
  | ask request next ih =>
    rw [perform] at done
    obtain ⟨reply, between, step, done⟩ := Run.bind_returned done
    have later := ih reply done fun r v reply v' reached =>
      restores r v reply v' (.later step reached)
    exact later.trans (restores _ _ _ _ (.now _ _ _) step)

variable [Callable φ ε]

def Json.undefined : Json → Cause
  | .string name => .undefinedName name
  | head => .undefinedHead head.render

def Binding.ofCallee? : Value φ → Option (Binding φ ε)
  | .function f => some (.callable (Callable.code f))
  | _ => none

variable (setup : Setup φ ε) (inner : InnerRun φ)

def resolve : Json → Address → Run ε (Except Failure (Option (Binding φ ε)))
  | .string name, _ => return .ok (setup.sandbox.find? name)
  | head, address => do
    match ← evaluate setup inner head (0 :: address) with
    | .error failure => return .error failure
    | .ok callee => return .ok (Binding.ofCallee? callee)

def serve (head : Json) (arguments : List Json) (address : Address) :
    Option (Binding φ ε) → Run ε (Outcome φ)
  | some (.callable native) =>
    invoke setup inner arguments (evaluations setup inner arguments address 1) native
  | some (.value v) => return .ok v
  | none => Run.fail head.undefined

theorem resolve_computed {head : Json} (computes : ∀ name, head ≠ .string name)
    (address : Address) :
    resolve setup inner head address = (do
      match ← evaluate setup inner head (0 :: address) with
      | .error failure => return .error failure
      | .ok callee => return .ok (Binding.ofCallee? callee)) := by
  cases head with
  | string name => exact absurd rfl (computes name)
  | null | bool | number | array | object => rfl

theorem undefined_computed {head : Json} (computes : ∀ name, head ≠ .string name) :
    head.undefined = .undefinedHead head.render := by
  cases head with
  | string name => exact absurd rfl (computes name)
  | null | bool | number | array | object => rfl

theorem evaluateCall_cons (head : Json) (arguments : List Json) (address : Address) :
    evaluateCall setup inner (head :: arguments) address = (do
      let depth ← Run.look fun w => w.frames.length + 1
      match ← resolve setup inner head address with
      | .error failure => return .error failure
      | .ok callee =>
        Run.within ⟨head.headLabel, address.index, depth⟩
          (serve setup inner head arguments address callee)) := by
  funext w
  by_cases byName : ∃ name, head = .string name
  · obtain ⟨name, rfl⟩ := byName
    rw [evaluateCall]
    change Run.within _ _ w = Run.within _ (serve setup inner _ arguments address _) w
    cases setup.sandbox.find? name with
    | none => rfl
    | some binding => cases binding <;> rfl
  · have computes (name : String) : head ≠ .string name := fun same => byName ⟨name, same⟩
    -- What the head has computed decides how the call is served, in its own frame either way.
    rw [evaluateCall.eq_3 setup inner address head arguments computes,
      resolve_computed setup inner computes, computes_label computes]
    refine Run.bind_congr rfl ?_
    rintro _ _ ⟨⟩
    rw [Run.bind_apply, Run.bind_apply, Run.bind_apply]
    generalize evaluate setup inner head (0 :: address) w = e
    obtain ⟨ending, headed⟩ := e
    cases ending with
    | unwound payload => rfl
    | exhausted => rfl
    | returned outcome =>
      cases outcome with
      | error failure => rfl
      | ok callee =>
        cases callee with
        | function f => rfl
        | null | bool | number | text | list | object =>
          change Run.within _ _ headed = Run.within _ (Run.fail head.undefined) headed
          rw [undefined_computed computes]

/-- A law of nodes at addresses holds of a whole script when it holds of every literal and of every
call whose head, unless it is a name, and whose arguments obey it. -/
theorem call_induction {motive : Json → Address → Prop}
    (literal : ∀ (node : Json) (address : Address), (∀ items, node ≠ .array items) →
      motive node address)
    (empty : ∀ address : Address, motive (.array []) address)
    (call : ∀ (head : Json) (arguments : List Json) (address : Address),
      ((∀ name, head ≠ .string name) → motive head (0 :: address)) →
      (∀ index argument, argumentAt? arguments index = some argument →
        motive argument (index :: address)) →
      motive (.array (head :: arguments)) address)
    (node : Json) (address : Address) : motive node address := by
  induction node, address using script_induction with
  | literal node address other => exact literal node address other
  | empty address => exact empty address
  | named name arguments address inside =>
    exact call (.string name) arguments address (fun computes => absurd rfl (computes name)) inside
  | computed head arguments address computes atHead inside =>
    exact call head arguments address (fun _ => atHead) inside

/-- `Opens setup inner head arguments address w callee called`: evaluated from `w`, the call comes
to the state `called`, in which its frame has just been put on the calls in progress, and its head
stands for `callee`. -/
inductive Opens (head : Json) (arguments : List Json) (address : Address) (w : World ε)
    (callee : Option (Binding φ ε)) : World ε → Prop where
  | intro {entered resolved : World ε}
      (enters : enter setup address (.array (head :: arguments)) w = (.returned (), entered))
      (resolves : resolve setup inner head address entered = (.returned (.ok callee), resolved)) :
      Opens head arguments address w callee
        { resolved with
          frames := ⟨head.headLabel, address.index, entered.frames.length + 1⟩ :: resolved.frames }

variable {setup inner}

section Calls

variable {head : Json} {arguments : List Json} {address : Address} {w w' : World ε} {f : Failure}

theorem call_of_fails {node : Json}
    (fails : evaluate setup inner node address w = (.returned (.error f), w')) :
    ∃ head arguments, node = .array (head :: arguments) := by
  obtain ⟨_, _, fails⟩ := evaluate_fails fails
  by_cases literal : ∀ items, node ≠ .array items
  · rw [evaluateEntered_literal setup inner literal] at fails
    cases fails
  · obtain ⟨items, rfl⟩ := not_forall_not.mp literal
    cases items with
    | nil => cases fails
    | cons head arguments => exact ⟨head, arguments, rfl⟩

theorem resolve_fails (fails : resolve setup inner head address w = (.returned (.error f), w')) :
    (∀ name, head ≠ .string name) ∧
      evaluate setup inner head (0 :: address) w = (.returned (.error f), w') := by
  have computes (name : String) : head ≠ .string name := by
    rintro rfl
    cases fails
  refine ⟨computes, ?_⟩
  rw [resolve_computed setup inner computes] at fails
  obtain ⟨outcome, headed, step, fails⟩ := Run.bind_returned fails
  cases outcome with
  | error g =>
    cases fails
    exact step
  | ok callee => cases fails

/-- A call that returned was entered, its head failed or was resolved, and then it was served and
left. -/
theorem call_returned {outcome : Outcome φ}
    (done : evaluate setup inner (.array (head :: arguments)) address w =
      (.returned outcome, w')) :
    (∃ g entered, outcome = .error g ∧
      enter setup address (.array (head :: arguments)) w = (.returned (), entered) ∧
        resolve setup inner head address entered = (.returned (.error g), w')) ∨
    ∃ callee called inside, Opens setup inner head arguments address w callee called ∧
      serve setup inner head arguments address callee called = (.returned outcome, inside) ∧
      leaveWith setup address (.array (head :: arguments)) outcome
        { inside with frames := inside.frames.tail } = (.returned outcome, w') := by
  rw [evaluate_eq, evaluateEntered, evaluateCall_cons] at done
  obtain ⟨_, entered, enters, done⟩ := Run.bind_returned done
  obtain ⟨result, between, called, leaves⟩ := Run.bind_returned done
  obtain rfl : result = outcome := by
    cases result with
    | error g =>
      cases leaves
      rfl
    | ok v =>
      obtain ⟨_, _, _, left⟩ := Run.bind_returned leaves
      cases left
      rfl
  obtain ⟨_, _, looked, called⟩ := Run.bind_returned called
  cases looked
  obtain ⟨resolution, resolved, resolves, called⟩ := Run.bind_returned called
  cases resolution with
  | error g =>
    cases called
    cases leaves
    exact .inl ⟨g, entered, rfl, enters, resolves⟩
  | ok callee =>
    obtain ⟨inside, served, rfl⟩ := Run.within_returned called
    exact .inr ⟨callee, _, inside, .intro enters resolves, served, leaves⟩

theorem call_fails_iff :
    evaluate setup inner (.array (head :: arguments)) address w = (.returned (.error f), w') ↔
      (∃ entered, enter setup address (.array (head :: arguments)) w = (.returned (), entered) ∧
        resolve setup inner head address entered = (.returned (.error f), w')) ∨
      ∃ callee called inside, Opens setup inner head arguments address w callee called ∧
        serve setup inner head arguments address callee called = (.returned (.error f), inside) ∧
        w' = { inside with frames := inside.frames.tail } := by
  constructor
  · intro fails
    rcases call_returned fails with
      ⟨g, entered, same, enters, resolves⟩ | ⟨callee, called, inside, opens, served, leaves⟩
    · cases same
      exact .inl ⟨entered, enters, resolves⟩
    · cases leaves
      exact .inr ⟨callee, called, inside, opens, served, rfl⟩
  · intro parts
    rw [evaluate_eq, evaluateEntered, evaluateCall_cons]
    rcases parts with ⟨entered, enters, resolves⟩ | ⟨callee, _, inside, opens, served, rfl⟩
    · simp only [Run.bind_apply, enters, Run.look, resolves]
      rfl
    · obtain ⟨enters, resolves⟩ := opens
      simp only [Run.bind_apply, enters, Run.look, resolves, Run.within, Run.change, served]
      rfl

theorem serve_native_fails_iff {native : Native φ ε} {called served : World ε} :
    serve setup inner head arguments address (some (.callable native)) called =
        (.returned (.error f), served) ↔
      ∃ g, perform (answer setup inner arguments (evaluations setup inner arguments address 1))
        native.run (reportDispatch arguments.length called).2 = (.returned (.error g), served) ∧
          g.stamp served.stack = f := by
  constructor
  · intro fails
    obtain ⟨_, reported, report, fails⟩ := Run.bind_returned fails
    obtain ⟨outcome, last, performed, stamped⟩ := Run.bind_returned fails
    obtain rfl : (reportDispatch arguments.length called).2 = reported := congrArg Prod.snd report
    cases outcome with
    | ok v => cases stamped
    | error g =>
      cases stamped
      exact ⟨g, performed, rfl⟩
  · rintro ⟨g, performed, rfl⟩
    have reports : reportDispatch arguments.length called =
        (.returned (), (reportDispatch arguments.length called).2) := rfl
    simp only [serve, invoke]
    rw [Run.bind_apply, reports]
    simp only [Run.bind_apply, performed]
    rfl

theorem resolve_native {P : Native φ ε → Prop} (every : setup.sandbox.EveryNative P)
    {native : Native φ ε}
    (resolves : resolve setup inner head address w =
      (.returned (.ok (some (.callable native))), w')) : P native := by
  by_cases byName : ∃ name, head = .string name
  · obtain ⟨name, rfl⟩ := byName
    apply every.1 name
    have found : Ending.returned (Except.ok (setup.sandbox.find? name)) = _ :=
      congrArg Prod.fst resolves
    simpa using found
  · rw [resolve_computed setup inner fun name same => byName ⟨name, same⟩] at resolves
    obtain ⟨outcome, _, _, resolves⟩ := Run.bind_returned resolves
    cases outcome with
    | error g => cases resolves
    | ok callee =>
      cases callee with
      | function g =>
        cases resolves
        exact every.2 g
      | null | bool | number | text | list | object => cases resolves

theorem evaluateCall_resolved {callee : Option (Binding φ ε)} {resolved : World ε}
    (resolves : resolve setup inner head address w = (.returned (.ok callee), resolved)) :
    evaluateCall setup inner (head :: arguments) address w =
      Run.within ⟨head.headLabel, address.index, w.frames.length + 1⟩
        (serve setup inner head arguments address callee) resolved := by
  rw [evaluateCall_cons]
  simp only [Run.bind_apply, Run.look, resolves]

end Calls

namespace Opens

variable {head : Json} {arguments : List Json} {address : Address} {w called : World ε}

theorem native {P : Native φ ε → Prop} (every : setup.sandbox.EveryNative P)
    {native : Native φ ε}
    (opens : Opens setup inner head arguments address w (some (.callable native)) called) :
    P native := by
  obtain ⟨_, resolves⟩ := opens
  exact resolve_native every resolves

end Opens

section Inside

variable (setup inner)

/-- `CallAsks setup inner head arguments address w r u`: the call is evaluated from `w`, and the
native that serves it makes the request `r` in the state `u`. -/
def CallAsks (head : Json) (arguments : List Json) (address : Address) (w : World ε)
    (r : Request φ ε) (u : World ε) : Prop :=
  ∃ native called, Opens setup inner head arguments address w (some (.callable native)) called ∧
    native.run.Reaches
      (answer setup inner arguments (evaluations setup inner arguments address 1))
      (reportDispatch arguments.length called).2 r u

/-- `Evaluates setup inner node address w part place u`: the evaluation of the node from `w` comes
to evaluate the part of it at `place`, from the state `u`. -/
inductive Evaluates : Json → Address → World ε → Json → Address → World ε → Prop where
  | self (node : Json) (address : Address) (w : World ε) : Evaluates node address w node address w
  | head {head part : Json} {arguments : List Json} {address place : Address}
      {w entered u : World ε} (computes : ∀ name, head ≠ .string name)
      (enters : enter setup address (.array (head :: arguments)) w = (.returned (), entered))
      (rest : Evaluates head (0 :: address) entered part place u) :
      Evaluates (.array (head :: arguments)) address w part place u
  | argument {head argument part : Json} {arguments : List Json} {address place : Address}
      {index : Nat} {r : Request φ ε} {w between u : World ε}
      (asks : CallAsks setup inner head arguments address w r between)
      (evaluates : r.evaluates? = some index)
      (taken : argumentAt? arguments index = some argument)
      (rest : Evaluates argument (index :: address) between part place u) :
      Evaluates (.array (head :: arguments)) address w part place u

end Inside

section Inside

variable {node part inmost : Json} {address place depths : Address} {w u v : World ε}

theorem Evaluates.trans (reached : Evaluates setup inner node address w part place u)
    (further : Evaluates setup inner part place u inmost depths v) :
    Evaluates setup inner node address w inmost depths v := by
  induction reached with
  | self => exact further
  | head computes enters rest ih => exact .head computes enters (ih further)
  | argument asks evaluates taken rest ih => exact .argument asks evaluates taken (ih further)

end Inside

variable (setup inner) in
/-- Whenever a native makes a request in the course of the evaluation and it is answered, the calls
in progress are restored. -/
def RestoresCalls (node : Json) (address : Address) (w : World ε) : Prop :=
  ∀ head arguments place u, Evaluates setup inner node address w (.array (head :: arguments))
    place u → ∀ r v reply v', CallAsks setup inner head arguments place u r v →
      answer setup inner arguments (evaluations setup inner arguments place 1) r v =
        (.returned reply, v') → v'.frames = v.frames

omit [Callable φ ε] in
private theorem leaveWith_frames_eq {node : Json} {address : Address} {outcome result : Outcome φ}
    {w w' : World ε} (leaves : leaveWith setup address node outcome w = (.returned result, w')) :
    w'.frames = w.frames := by
  cases outcome with
  | error f =>
    cases leaves
    rfl
  | ok v =>
    obtain ⟨_, left, leaving, returned⟩ := Run.bind_returned leaves
    cases returned
    exact (leave_keepsCalls setup address node w).frames_eq leaving

private theorem resolve_frames_eq {head : Json} {address : Address} {w w' : World ε}
    (atHead : (∀ name, head ≠ .string name) → ∀ outcome headed,
      evaluate setup inner head (0 :: address) w = (.returned outcome, headed) →
        headed.frames = w.frames)
    {resolution : Except Failure (Option (Binding φ ε))}
    (resolves : resolve setup inner head address w = (.returned resolution, w')) :
    w'.frames = w.frames := by
  by_cases byName : ∃ name, head = .string name
  · obtain ⟨name, rfl⟩ := byName
    cases resolves
    rfl
  · have computes (name : String) : head ≠ .string name := fun same => byName ⟨name, same⟩
    rw [resolve_computed setup inner computes] at resolves
    obtain ⟨outcome, headed, step, resolves⟩ := Run.bind_returned resolves
    rw [← atHead computes outcome headed step]
    cases outcome with
    | error g =>
      cases resolves
      rfl
    | ok callee =>
      cases resolves
      rfl

namespace RestoresCalls

variable {node part head : Json} {arguments : List Json} {address place : Address}
  {w w' u called inside : World ε} {outcome : Outcome φ}

theorem within (restores : RestoresCalls setup inner node address w)
    (reached : Evaluates setup inner node address w part place u) :
    RestoresCalls setup inner part place u :=
  fun head arguments place u further => restores head arguments place u (reached.trans further)

theorem served (restores : RestoresCalls setup inner (.array (head :: arguments)) address w)
    {callee : Option (Binding φ ε)}
    (opens : Opens setup inner head arguments address w callee called)
    (serves : serve setup inner head arguments address callee called =
      (.returned outcome, inside)) : inside.frames = called.frames := by
  rcases callee with _ | (v | native)
  · cases serves
    rfl
  · cases serves
    rfl
  · obtain ⟨_, reported, report, serves⟩ := Run.bind_returned serves
    obtain ⟨result, last, performed, stamped⟩ := Run.bind_returned serves
    obtain rfl : (reportDispatch arguments.length called).2 = reported := congrArg Prod.snd report
    cases stamped
    have kept := perform_frames_eq performed fun r v reply v' reached =>
      restores head arguments address w (.self _ _ _) r v reply v' ⟨native, called, opens, reached⟩
    exact kept.trans ((reportDispatch_keepsCalls arguments.length called).frames_eq report)

private theorem opened_of
    (atHead : ∀ entered, enter setup address (.array (head :: arguments)) w =
      (.returned (), entered) → (∀ name, head ≠ .string name) → ∀ outcome headed,
      evaluate setup inner head (0 :: address) entered = (.returned outcome, headed) →
        headed.frames = entered.frames)
    {callee : Option (Binding φ ε)}
    (opens : Opens setup inner head arguments address w callee called) :
    called.frames = ⟨head.headLabel, address.index, w.frames.length + 1⟩ :: w.frames := by
  obtain ⟨enters, resolves⟩ := opens
  have entered := (enter_keepsCalls setup address _ w).frames_eq enters
  have restored := resolve_frames_eq (atHead _ enters) resolves
  simp [restored, entered]

theorem frames_eq (restores : RestoresCalls setup inner node address w)
    (done : evaluate setup inner node address w = (.returned outcome, w')) :
    w'.frames = w.frames := by
  have left {node : Json} {address : Address} {result outcome : Outcome φ} {w w' : World ε}
      (same : evaluateEntered setup inner node address = pure result)
      (done : evaluate setup inner node address w = (.returned outcome, w')) :
      w'.frames = w.frames := by
    rw [evaluate_eq, same] at done
    obtain ⟨_, entered, enters, done⟩ := Run.bind_returned done
    exact (leaveWith_frames_eq done).trans
      ((enter_keepsCalls setup address node w).frames_eq enters)
  -- A head is evaluated from another state than the call, so the state varies.
  induction node, address using call_induction generalizing w w' outcome with
  | literal node address literal => exact left (evaluateEntered_literal setup inner literal) done
  | empty address => exact left rfl done
  | call head arguments address atHead _ =>
    have headed (entered : World ε)
        (enters : enter setup address (.array (head :: arguments)) w = (.returned (), entered))
        (computes : ∀ name, head ≠ .string name) (outcome : Outcome φ) (headed : World ε)
        (done : evaluate setup inner head (0 :: address) entered = (.returned outcome, headed)) :
        headed.frames = entered.frames :=
      atHead computes (restores.within (.head computes enters (.self _ _ _))) done
    rcases call_returned done with
      ⟨g, entered, rfl, enters, resolves⟩ | ⟨callee, called, inside, opens, serves, leaves⟩
    · exact (resolve_frames_eq (headed entered enters) resolves).trans
        ((enter_keepsCalls setup address _ w).frames_eq enters)
    · rw [leaveWith_frames_eq leaves, restores.served opens serves, opened_of headed opens]
      rfl

theorem opened (restores : RestoresCalls setup inner (.array (head :: arguments)) address w)
    {callee : Option (Binding φ ε)}
    (opens : Opens setup inner head arguments address w callee called) :
    called.frames = ⟨head.headLabel, address.index, w.frames.length + 1⟩ :: w.frames :=
  opened_of (fun _ enters computes _ _ done =>
    (restores.within (.head computes enters (.self _ _ _))).frames_eq done) opens

theorem reached (restores : RestoresCalls setup inner (.array (head :: arguments)) address w)
    {native : Native φ ε}
    (opens : Opens setup inner head arguments address w (some (.callable native)) called)
    {r : Request φ ε}
    (reached : native.run.Reaches
      (answer setup inner arguments (evaluations setup inner arguments address 1))
      (reportDispatch arguments.length called).2 r u) :
    u.frames = called.frames := by
  have kept := reached.frames_eq fun r v reply v' reached =>
    restores head arguments address w (.self _ _ _) r v reply v' ⟨native, called, opens, reached⟩
  exact kept.trans ((reportDispatch_keepsCalls arguments.length called).restored () rfl)

end RestoresCalls

section Passing

variable (innerLeveled : inner.SeesLeveled)
  (passes : setup.sandbox.EveryNative (Routine.Only (·.catchesPanic = false)))

include innerLeveled passes

theorem resolve_keepsCalls (head : Json) (address : Address) (w : World ε) :
    KeepsCalls w (resolve setup inner head address w) := by
  by_cases byName : ∃ name, head = .string name
  · obtain ⟨name, rfl⟩ := byName
    exact .refl w _
  · rw [resolve_computed setup inner fun name same => byName ⟨name, same⟩]
    apply KeepsCalls.bind (evaluate_keepsCalls setup innerLeveled passes head _ w)
    intro outcome headed _
    cases outcome with
    | error g => exact .refl headed _
    | ok callee => exact .refl headed _

theorem answer_evaluations_keepsCalls (arguments : List Json) (address : Address)
    (r : Request φ ε) (panics : r.catchesPanic = false) (w : World ε) :
    KeepsCalls w
      (answer setup inner arguments (evaluations setup inner arguments address 1) r w) := by
  apply answer_keepsCalls setup innerLeveled arguments ?_ r panics w
  intro index evaluation found
  obtain ⟨argument, _, rfl⟩ := argument_of_evaluation setup inner found
  exact evaluate_keepsCalls setup innerLeveled passes argument (index :: address)

/-- Natives that let panics through restore the calls in progress with all that they ask for. -/
theorem restoresCalls_of_passes (node : Json) (address : Address) (w : World ε) :
    RestoresCalls setup inner node address w := by
  rintro head arguments place u _ r v reply v' ⟨native, called, opens, reached⟩ replied
  have panics := reached.allowed (opens.native passes)
  exact (answer_evaluations_keepsCalls innerLeveled passes arguments place r panics v).frames_eq
    replied

end Passing

variable (setup inner) in
/-- Neither the evaluation of the node from `w` nor any to which it comes unwinds. -/
def NoneUnwinds (node : Json) (address : Address) (w : World ε) : Prop :=
  ∀ part place u, Evaluates setup inner node address w part place u →
    ∀ payload, (evaluate setup inner part place u).1 ≠ .unwound payload

theorem NoneUnwinds.within {node part : Json} {address place : Address} {w u : World ε}
    (calm : NoneUnwinds setup inner node address w)
    (reached : Evaluates setup inner node address w part place u) :
    NoneUnwinds setup inner part place u :=
  fun inmost depths v further => calm inmost depths v (reached.trans further)

omit [Callable φ ε] in
private theorem answer_argument_unwinds {arguments : List Json}
    {evaluations : List (Run ε (Outcome φ))} {r : Request φ ε} (passes : r.catchesPanic = false)
    {index : Nat} (evaluates : r.evaluates? = some index) {evaluation : Run ε (Outcome φ)}
    (found : argumentAt? evaluations index = some evaluation) {u u' : World ε} {payload : Panic}
    (unwinds : evaluation u = (.unwound payload, u')) :
    answer setup inner arguments evaluations r u = (.unwound payload, u') := by
  cases r with
  | attempt other => cases passes
  | argument shape other =>
    cases evaluates
    simp only [answer, found, fetch, Run.bind_apply, unwinds]
  | argumentIfAny shape other =>
    cases evaluates
    simp only [answer, found, fetch, Run.bind_apply, unwinds]
  | arity | raw | failure | stack | environment | setEnvironment | bound | lifting | fresh | run =>
    cases evaluates

theorem Evaluates.unwinds
    (passes : setup.sandbox.EveryNative (Routine.Only (·.catchesPanic = false)))
    {node part : Json} {address place : Address} {w u u' : World ε}
    (reached : Evaluates setup inner node address w part place u) {payload : Panic}
    (unwinds : evaluate setup inner part place u = (.unwound payload, u')) :
    ∃ w', evaluate setup inner node address w = (.unwound payload, w') := by
  have call {head : Json} {arguments : List Json} {address : Address} {w entered w' : World ε}
      (enters : enter setup address (.array (head :: arguments)) w = (.returned (), entered))
      (called : evaluateCall setup inner (head :: arguments) address entered =
        (.unwound payload, w')) :
      evaluate setup inner (.array (head :: arguments)) address w = (.unwound payload, w') := by
    simp only [evaluate_eq, evaluateEntered, Run.bind_apply, enters, called]
  induction reached with
  | self => exact ⟨u', unwinds⟩
  | head computes enters rest ih =>
    obtain ⟨headed, headUnwinds⟩ := ih unwinds
    refine ⟨headed, call enters ?_⟩
    rw [evaluateCall_cons, resolve_computed setup inner computes]
    simp only [Run.bind_apply, Run.look, headUnwinds]
  | @argument head argument part arguments address place index r w between u asks evaluates taken
      rest ih =>
    obtain ⟨native, called, opens, reached⟩ := asks
    obtain ⟨last, argumentUnwinds⟩ := ih unwinds
    have step : answer setup inner arguments (evaluations setup inner arguments address 1) r
        between = (.unwound payload, last) :=
      answer_argument_unwinds (reached.allowed (opens.native passes)) evaluates
        (evaluation_of_argument setup inner taken) argumentUnwinds
    have performed := reached.unwinds step
    obtain ⟨enters, resolves⟩ := opens
    refine ⟨last, call enters ?_⟩
    have reports (w : World ε) : reportDispatch arguments.length w =
        (.returned (), (reportDispatch arguments.length w).2) := rfl
    rw [evaluateCall_resolved resolves]
    simp only [Run.within, Run.bind_apply, Run.change, serve, invoke]
    rw [reports]
    simp only [performed]

/-- Where natives let panics through, an evaluation that returned was free of them. -/
theorem NoneUnwinds.of_returned
    (passes : setup.sandbox.EveryNative (Routine.Only (·.catchesPanic = false)))
    {node : Json} {address : Address} {w w' : World ε} {outcome : Outcome φ}
    (done : evaluate setup inner node address w = (.returned outcome, w')) :
    NoneUnwinds setup inner node address w := by
  intro part place u reached payload unwound
  obtain ⟨last, whole⟩ := reached.unwinds passes (Prod.ext unwound rfl)
  cases done.symm.trans whole

end JsonScript
