import JsonScript.Proofs.FailureTrail
import JsonScript.Proofs.StandardBox
import Mathlib.Data.List.ModifyLast

/-!
Evaluation inside calls.

With the standard natives and values without functions, a node that is evaluated inside some calls
does what it does in a run of its own. If it fails, the calls around the node lie below those of the
run, and the outermost call of the run stands where the node stands, unless it was reached through
the head of the node.
-/

set_option autoImplicit false
set_option relaxedAutoImplicit false

namespace JsonScript

open Evaluator

variable {φ ε α β ι : Type}

def Frame.movedTo (index : Nat) (f : Frame) : Frame :=
  { f with index }

def Frame.raised (levels : Nat) (f : Frame) : Frame :=
  { f with depth := f.depth + levels }

namespace Failure

def movedTo (index : Nat) (f : Failure) : Failure :=
  { f with stack := ⟨f.stack.frames.modifyLast (Frame.movedTo index)⟩ }

def under (around : List Frame) (f : Failure) : Failure :=
  { f with stack := ⟨f.stack.frames.map (Frame.raised around.length) ++ around⟩ }

@[simp] theorem under_nil (f : Failure) : f.under [] = f := by
  have unchanged : Frame.raised 0 = id := rfl
  simp [under, unchanged]

theorem movedTo_movedTo (f : Failure) (index other : Nat) :
    (f.movedTo other).movedTo index = f.movedTo index := by
  have frames : (f.stack.frames.modifyLast (Frame.movedTo other)).modifyLast (Frame.movedTo index) =
      f.stack.frames.modifyLast (Frame.movedTo index) := by
    rcases List.eq_nil_or_concat f.stack.frames with none | ⟨inside, outermost, frames⟩
    · rw [none]
      rfl
    · rw [frames, List.concat_eq_append, List.modifyLast_concat, List.modifyLast_concat,
        List.modifyLast_concat]
      rfl
  simp only [movedTo, frames]

theorem under_call (f : Failure) (label : String) (index : Nat) (around : List Frame) :
    f.under (⟨label, index, around.length + 1⟩ :: around) =
      ((f.under [⟨label, 0, 1⟩]).movedTo index).under around := by
  have twice : Frame.raised around.length ∘ Frame.raised 1 = Frame.raised (around.length + 1) := by
    funext frame
    simp only [Function.comp, Frame.raised, Frame.mk.injEq, true_and]
    omega
  simp [under, movedTo, List.modifyLast_concat, twice, Frame.movedTo, Frame.raised, Nat.add_comm]

theorem stack_under_ne_nil (f : Failure) (call : Frame) (around : List Frame) :
    (f.under (call :: around)).stack.isEmpty = false := by
  simp [under, Stack.isEmpty]

end Failure

/-- Under the given calls, the computation returns the result and restores the calls. -/
def Run.Gives (m : Run ε α) (calls : List Frame) (result : α) : Prop :=
  ∀ w, w.frames = calls → ∃ w', m w = (.returned result, w') ∧ w'.frames = calls

namespace Run.Gives

variable {calls : List Frame}

theorem pure (result : α) : Run.Gives (Pure.pure result : Run ε α) calls result :=
  fun w here => ⟨w, rfl, here⟩

theorem look {view : World ε → α} {result : α} (seen : ∀ w, w.frames = calls → view w = result) :
    Run.Gives (Run.look view) calls result := by
  intro w here
  refine ⟨w, ?_, here⟩
  rw [Run.look, seen w here]

theorem change {update : World ε → World ε} (keeps : ∀ w, (update w).frames = w.frames) :
    Run.Gives (Run.change update) calls () :=
  fun w here => ⟨update w, rfl, (keeps w).trans here⟩

theorem bind {m : Run ε α} {next : α → Run ε β} {result : α} {final : β}
    (first : m.Gives calls result) (rest : (next result).Gives calls final) :
    Run.Gives (m >>= next) calls final := by
  intro w here
  obtain ⟨between, step, restored⟩ := first w here
  rw [Run.bind_apply, step]
  exact rest between restored

theorem within {frame : Frame} {body : Run ε α} {result : α}
    (inside : body.Gives (frame :: calls) result) :
    Run.Gives (Run.within frame body) calls result := by
  intro w here
  obtain ⟨w', step, restored⟩ := inside { w with frames := frame :: w.frames } (by rw [here])
  refine ⟨{ w' with frames := w'.frames.tail }, ?_, by rw [restored]; rfl⟩
  unfold Run.within
  rw [Run.bind_apply]
  change (body >>= _) { w with frames := frame :: w.frames } = _
  rw [Run.bind_apply, step]
  rfl

theorem depth :
    Run.Gives (Run.look fun w : World ε => w.frames.length + 1) calls (calls.length + 1) :=
  look fun w here => by rw [here]

theorem fail {view : World ε → Cause} {cause : Cause}
    (seen : ∀ w, w.frames = calls → view w = cause) :
    Run.Gives (Run.look fun w => (.error (w.failure (view w)) : Except Failure α)) calls
      (.error (Failure.under calls ⟨cause, .empty⟩)) := by
  refine look fun w here => ?_
  rw [World.failure, seen w here, World.stack, here]
  rfl

end Run.Gives

-- The same call is served at different addresses, inside different calls and with different ways to
-- serve the runs that natives start. So what is said here is said of families of computations,
-- which have a result in common.

/-- The computations, which serve calls under a label, have one result; if it is a failure, the
call and the calls around it are below those of the failure. -/
def Settles (label : String) (m : ι → Run ε (Except Failure α)) (result : Except Failure α) :
    Prop :=
  ∀ i call around, call.label = label →
    (m i).Gives (call :: around) (result.mapError (·.under (call :: around)))

/-- The computations, which answer a request of calls under a label, have one reply that brings
data, or bring one failure. -/
def Request.Settled (label : String) (r : Request φ ε) (m : ι → Run ε r.Reply) : Prop :=
  (∃ reply, r.failures reply = [] ∧ r.BringsData reply ∧
    ∀ i call around, call.label = label → (m i).Gives (call :: around) reply) ∨
  ∃ f : Failure, ∀ i call around, call.label = label → ∃ reply,
    r.failures reply = [f.under (call :: around)] ∧ (m i).Gives (call :: around) reply

/-- What an argument with an outcome is converted to, in a call under a label. -/
def fetched (label : String) (shape : Shape) (index : Nat) :
    Outcome φ → Except Failure (shape.Host φ)
  | .ok v =>
    (shape.fromValue v).mapError fun mismatch => ⟨.argumentType label index mismatch, .empty⟩
  | .error failure => .error failure

private theorem fetch_settles {label : String} {m : ι → Run ε (Outcome φ)} {outcome : Outcome φ}
    (settles : Settles label m outcome) (shape : Shape) (index : Nat) :
    Settles label (fun i => fetch shape index (m i)) (fetched label shape index outcome) := by
  intro i call around labeled
  refine (settles i call around labeled).bind ?_
  cases outcome with
  | error failure => exact .pure _
  | ok v =>
    simp only [Except.mapError, convert, fetched]
    cases shape.fromValue v with
    | ok x => exact .pure _
    | error mismatch =>
      refine .fail fun w here => ?_
      rw [World.label, here, ← labeled]
      rfl

private theorem fetched_data {label : String} {shape : Shape} {index : Nat} {outcome : Outcome φ}
    (free : ∀ v, outcome = .ok v → v.FunctionFree) {x : shape.Host φ}
    (converted : fetched label shape index outcome = .ok x) : shape.Data x := by
  cases shape with
  | any =>
    cases outcome with
    | ok v =>
      cases converted
      exact free x rfl
    | error failure => cases converted
  | json | number | integer | bool | text | optional | list => trivial

theorem mapError_eq_ok {relocate : Failure → Failure} {result : Except Failure α} {x : α} :
    result.mapError relocate = .ok x ↔ result = .ok x := by
  cases result <;> simp [Except.mapError]

private theorem missing_settles (label : String) (index : Nat) :
    Settles label (fun _ : ι => (missing index : Run ε (Except Failure α)))
      (.error ⟨.missingArgument label index, .empty⟩) := by
  intro i call around labeled
  refine .fail fun w here => ?_
  rw [World.label, here, ← labeled]
  rfl

/-- None of the calls has the argument, or it has one outcome in all of them, without functions. -/
def ArgumentSettled (label : String) (evaluations : ι → List (Run ε (Outcome φ))) (index : Nat) :
    Prop :=
  (∀ i, argumentAt? (evaluations i) index = none) ∨
    ∃ (m : ι → Run ε (Outcome φ)) (outcome : Outcome φ),
      (∀ i, argumentAt? (evaluations i) index = some (m i)) ∧ Settles label m outcome ∧
        ∀ v, outcome = .ok v → v.FunctionFree

section Serving

variable {setup : Setup φ ε} {inner : ι → InnerRun φ} {arguments : ι → List Json} {arity : Nat}
  {label : String} {evaluations : ι → List (Run ε (Outcome φ))}

private theorem answer_settled (counted : ∀ i, (arguments i).length = arity)
    (settled : ∀ index, ArgumentSettled label evaluations index)
    (r : Request φ ε) (direct : r.isDirect = true) :
    r.Settled label fun i => answer setup (inner i) (arguments i) (evaluations i) r := by
  cases r with
  | arity =>
    refine .inl ⟨arity, rfl, trivial, fun i _ _ _ => ?_⟩
    simp only [answer, counted i]
    exact .pure _
  | failure message =>
    refine .inr ⟨⟨.native message, .empty⟩, fun _ call around _ => ⟨_, rfl, .look ?_⟩⟩
    intro w here
    rw [World.failure, World.stack, here]
    rfl
  | argument shape index =>
    rcases settled index with absent | ⟨m, outcome, found, settles, free⟩
    · simp only [Request.Settled, answer, absent]
      refine .inr ⟨⟨.missingArgument label index, .empty⟩, fun i call around labeled => ?_⟩
      exact ⟨_, rfl, missing_settles label index i call around labeled⟩
    · have fetches := fetch_settles settles shape index
      simp only [Request.Settled, answer, found]
      cases converted : fetched label shape index outcome with
      | ok x =>
        rw [converted] at fetches
        exact .inl ⟨.ok x, rfl, fetched_data free converted, fetches⟩
      | error f =>
        rw [converted] at fetches
        exact .inr ⟨f, fun i call around labeled => ⟨_, rfl, fetches i call around labeled⟩⟩
  | argumentIfAny shape index =>
    rcases settled index with absent | ⟨m, outcome, found, settles, free⟩
    · simp only [Request.Settled, answer, absent]
      exact .inl ⟨.ok none, rfl, trivial, fun _ _ _ _ => .pure _⟩
    · have fetches := fetch_settles settles shape index
      simp only [Request.Settled, answer, found]
      cases converted : fetched label shape index outcome with
      | ok x =>
        rw [converted] at fetches
        refine .inl ⟨.ok (some x), rfl, fetched_data free converted, ?_⟩
        exact fun i call around labeled => (fetches i call around labeled).bind (.pure _)
      | error f =>
        rw [converted] at fetches
        refine .inr ⟨f, fun i call around labeled => ⟨.error (f.under (call :: around)), rfl, ?_⟩⟩
        exact (fetches i call around labeled).bind (.pure _)
  | raw | attempt | stack | environment | setEnvironment | bound | lifting | fresh | run =>
    cases direct

private theorem perform_settles {answers : ι → (r : Request φ ε) → Run ε r.Reply}
    (settled : ∀ r : Request φ ε, r.isDirect = true → r.Settled label fun i => answers i r)
    {post : α → Prop} {program : Program φ ε (Except Failure α)} (direct : program.Direct post) :
    ∃ result, Settles label (fun i => perform (answers i) program) result ∧
      ∀ x, result = .ok x → post x := by
  induction program with
  | done result =>
    cases result with
    | ok x =>
      refine ⟨.ok x, fun _ _ _ _ => .pure _, ?_⟩
      rintro _ ⟨⟩
      exact direct
    | error failure => exact direct.elim
  | panic payload => exact direct.elim
  | ask request next ih =>
    obtain ⟨asks, goesOn⟩ := direct
    rcases settled request asks with ⟨reply, none, data, replies⟩ | ⟨f, brings⟩
    · have continues := goesOn reply
      rw [none] at continues
      obtain ⟨result, settles, fits⟩ := ih reply (continues data)
      refine ⟨result, fun i call around labeled => ?_, fits⟩
      exact (replies i call around labeled).bind (settles i call around labeled)
    · refine ⟨.error f, fun i call around labeled => ?_, by rintro _ ⟨⟩⟩
      obtain ⟨reply, some, replies⟩ := brings i call around labeled
      have stops := goesOn reply
      rw [some] at stops
      refine replies.bind ?_
      rw [stops]
      exact .pure _

private theorem invoke_settles (counted : ∀ i, (arguments i).length = arity)
    (settled : ∀ index, ArgumentSettled label evaluations index)
    {native : Native φ ε} (direct : Routine.Direct Value.FunctionFree native) :
    ∃ outcome, Settles label
        (fun i => invoke setup (inner i) (arguments i) (evaluations i) native) outcome ∧
      ∀ v, outcome = .ok v → v.FunctionFree := by
  obtain ⟨outcome, settles, free⟩ := perform_settles (answer_settled counted settled) direct
  refine ⟨outcome, fun i call around labeled => ?_, free⟩
  refine (Run.Gives.change fun w => ?_).bind ((settles i call around labeled).bind ?_)
  · split <;> rfl
  · -- The failure has a stack already, so it is not stamped.
    refine .look fun w _ => ?_
    cases outcome with
    | ok v => rfl
    | error f => simp [Except.mapError, Failure.stamp, f.stack_under_ne_nil]

end Serving

variable [Callable φ ε]

section Quiet

variable {setup : Setup φ ε} {inner : InnerRun φ} {node : Json} {address : Address}
  {calls : List Frame} {outcome : Outcome φ}

theorem evaluate_gives (before : setup.before = none) (after : setup.after = none)
    (entered : (evaluateEntered setup inner node address).Gives calls outcome) :
    (evaluate setup inner node address).Gives calls outcome := by
  have enters : (enter setup address node).Gives calls () := by
    unfold enter
    rw [before]
    exact .bind (.change fun _ => rfl) (.pure ())
  have leaves : (leave setup address node).Gives calls () := by
    unfold leave
    rw [after]
    exact .bind (.change fun _ => rfl) (.pure ())
  rw [evaluate_eq]
  refine enters.bind (entered.bind ?_)
  cases outcome with
  | ok v => exact leaves.bind (.pure _)
  | error failure => exact .pure _

end Quiet

variable [Inhabited ε]

namespace Context

/-- Whether the node is a call whose head has to be computed, and fails in a run of its own. -/
def headFails (c : Context φ ε) : Json → Bool
  | .array (.string _ :: _) => false
  | .array (head :: _) => !(c.run head {}).1.hasValue
  | _ => false

/-- Where the outermost call of a failure of the node stands, if the node stands at the index. -/
def outermostIndex (c : Context φ ε) (node : Json) (index : Nat) : Nat :=
  if c.headFails node then 0 else index

@[simp] theorem outermostIndex_zero (c : Context φ ε) (node : Json) :
    c.outermostIndex node 0 = 0 :=
  ite_self 0

theorem headFails_of_computes (c : Context φ ε) {head : Json} (arguments : List Json)
    (computes : ∀ name, head ≠ .string name) :
    c.headFails (.array (head :: arguments)) = !(c.run head {}).1.hasValue := by
  cases head with
  | string name => exact absurd rfl (computes name)
  | null | bool | number | array | object => rfl

/-- The node has one outcome wherever it stands and whatever calls are around it: a value without
functions, or a failure below the calls around the node. The outermost call of the failure is the
node, or comes with the failure of the node's head. -/
structure EvaluatesTo (c : Context φ ε) (node : Json) (outcome : Outcome φ) : Prop where
  gives : ∀ inner (address : Address) calls, (evaluate c.toSetup inner node address).Gives calls
    (outcome.mapError fun f => (f.movedTo (c.outermostIndex node address.index)).under calls)
  free : ∀ v, outcome = .ok v → v.FunctionFree
  origin : ∀ f, outcome = .error f → ∃ head arguments, node = .array (head :: arguments) ∧
    if c.headFails node = true then
      ∀ ledger, (c.run head ledger).1 = .returned (.error (f.movedTo 0))
    else ∃ own : Failure, f = own.under [⟨head.headLabel, 0, 1⟩]

variable {c : Context φ ε} {node : Json} {outcome : Outcome φ}

theorem run_of_gives
    (gives : (evaluate c.toSetup (innerRun c.sandbox runLimit) node []).Gives [] outcome)
    (env : ε) (ledger : Ledger) : ({ c with env }.run node ledger).1 = .returned outcome := by
  obtain ⟨w, step, _⟩ := gives { env, ledger } rfl
  have traced : { c with env }.trace (innerRun c.sandbox runLimit) node ledger =
      (.returned outcome, w) := by
    rw [trace, evaluation]
    split
    · rw [liftPanic_apply, step]
    · rw [step]
  rw [Context.run, runWith, traced]
  rfl

theorem EvaluatesTo.run (evaluates : c.EvaluatesTo node outcome) (ledger : Ledger) :
    (c.run node ledger).1 = .returned (outcome.mapError (·.movedTo 0)) := by
  refine run_of_gives ?_ c.env ledger
  have given := evaluates.gives (innerRun c.sandbox runLimit) [] []
  simpa [Address.index] using given

private theorem evaluatesTo_of_settles (before : c.before = none) (after : c.after = none)
    {head : Json} {arguments : List Json}
    (own : c.headFails (.array (head :: arguments)) = false) {result : Outcome φ}
    {serve : InnerRun φ × Address → Run ε (Outcome φ)}
    (settles : Settles head.headLabel serve result)
    (free : ∀ v, result = .ok v → v.FunctionFree)
    (called : ∀ inner (address : Address) calls final,
      (Run.within ⟨head.headLabel, address.index, calls.length + 1⟩ (serve (inner, address))).Gives
        calls final →
      (evaluateEntered c.toSetup inner (.array (head :: arguments)) address).Gives calls final) :
    c.EvaluatesTo (.array (head :: arguments))
      (result.mapError (·.under [⟨head.headLabel, 0, 1⟩])) where
  gives := by
    intro inner address calls
    refine evaluate_gives before after (called inner address calls _ (.within ?_))
    have served :=
      settles (inner, address) ⟨head.headLabel, address.index, calls.length + 1⟩ calls rfl
    cases result with
    | ok v => exact served
    | error f =>
      rw [Except.mapError, Failure.under_call] at served
      rw [outermostIndex, own]
      exact served
  free v ok := free v (mapError_eq_ok.mp ok)
  origin := by
    intro f failed
    refine ⟨head, arguments, rfl, ?_⟩
    rw [own]
    cases result with
    | ok v => cases failed
    | error g =>
      cases failed
      exact ⟨g, rfl⟩

private theorem arguments_settled {arguments : List Json}
    (inside : ∀ index argument, argumentAt? arguments index = some argument →
      ∃ outcome, c.EvaluatesTo argument outcome) (label : String) (index : Nat) :
    ArgumentSettled label (fun i : InnerRun φ × Address =>
      evaluations c.toSetup i.1 arguments i.2 1) index := by
  simp only [ArgumentSettled, argumentAt?_evaluations]
  cases found : argumentAt? arguments index with
  | none => exact .inl fun _ => rfl
  | some argument =>
    obtain ⟨outcome, evaluates⟩ := inside index argument found
    refine .inr ⟨_, outcome.mapError (·.movedTo (c.outermostIndex argument index)),
      fun _ => rfl, ?_, fun v ok => evaluates.free v (mapError_eq_ok.mp ok)⟩
    intro i call around _
    have given := evaluates.gives i.1 (index :: i.2) (call :: around)
    cases outcome with
    | ok v => exact given
    | error f => exact given

def serveName (c : Context φ ε) (name : String) (arguments : List Json) (inner : InnerRun φ)
    (address : Address) : Run ε (Outcome φ) :=
  match c.sandbox.find? name with
  | some (.callable native) =>
    invoke c.toSetup inner arguments (evaluations c.toSetup inner arguments address 1) native
  | some (.value v) => return .ok v
  | none => Run.fail (.undefinedName name)

omit [Inhabited ε] in
theorem serveName_settles [BEq φ] (standard : c.sandbox.Standard) {name : String}
    {arguments : ι → List Json} {inner : ι → InnerRun φ} {address : ι → Address} {arity : Nat}
    (counted : ∀ i, (arguments i).length = arity)
    (settled : ∀ index, ArgumentSettled name
      (fun i => evaluations c.toSetup (inner i) (arguments i) (address i) 1) index) :
    ∃ result,
      Settles name (fun i => c.serveName name (arguments i) (inner i) (address i)) result ∧
        ∀ v, result = .ok v → v.FunctionFree := by
  unfold serveName
  cases found : c.sandbox.find? name with
  | none =>
    refine ⟨.error ⟨.undefinedName name, .empty⟩, fun _ _ _ _ => ?_, by rintro _ ⟨⟩⟩
    exact .fail fun _ _ => rfl
  | some binding =>
    have plain := standard.plain found
    cases binding with
    | value v =>
      refine ⟨.ok v, fun _ _ _ _ => .pure _, ?_⟩
      rintro _ ⟨⟩
      exact plain
    | callable native => exact invoke_settles counted settled plain

private theorem named_evaluatesTo [BEq φ] (standard : c.sandbox.Standard)
    (before : c.before = none) (after : c.after = none) {name : String} {arguments : List Json}
    (inside : ∀ index argument, argumentAt? arguments index = some argument →
      ∃ outcome, c.EvaluatesTo argument outcome) :
    ∃ outcome, c.EvaluatesTo (.array (.string name :: arguments)) outcome := by
  obtain ⟨result, settles, free⟩ :=
    serveName_settles standard (fun _ => rfl) (arguments_settled inside name)
  refine ⟨_, evaluatesTo_of_settles before after rfl settles free ?_⟩
  intro inner address calls final given
  rw [evaluateEntered, evaluateCall]
  exact Run.Gives.depth.bind given

private theorem computed_evaluatesTo (before : c.before = none) (after : c.after = none)
    {head : Json} {arguments : List Json} (computes : ∀ name, head ≠ .string name)
    (atHead : ∃ outcome, c.EvaluatesTo head outcome) :
    ∃ outcome, c.EvaluatesTo (.array (head :: arguments)) outcome := by
  obtain ⟨outcome, evaluates⟩ := atHead
  have fails : c.headFails (.array (head :: arguments)) =
      !(Ending.returned (outcome.mapError (·.movedTo 0))).hasValue := by
    rw [c.headFails_of_computes arguments computes, evaluates.run]
  cases outcome with
  | error f =>
    replace fails : c.headFails (.array (head :: arguments)) = true := fails
    refine ⟨.error f, ?_, by rintro _ ⟨⟩, ?_⟩
    · intro inner address calls
      refine evaluate_gives before after ?_
      have given := evaluates.gives inner (0 :: address) calls
      rw [Except.mapError, Address.index, List.headD_cons, outermostIndex_zero] at given
      rw [evaluateEntered, evaluateCall.eq_3 c.toSetup inner address head arguments computes,
        Except.mapError, outermostIndex, fails]
      exact Run.Gives.depth.bind (given.bind (.pure _))
    · rintro _ ⟨⟩
      refine ⟨head, arguments, rfl, ?_⟩
      rw [if_pos fails]
      exact evaluates.run
  | ok callee =>
    have own : c.headFails (.array (head :: arguments)) = false := fails
    let serve (_ : InnerRun φ × Address) : Run ε (Outcome φ) :=
      Run.fail (.undefinedHead head.render)
    have settles : Settles head.headLabel serve (.error ⟨.undefinedHead head.render, .empty⟩) :=
      fun _ _ _ _ => .fail fun _ _ => rfl
    refine ⟨_, evaluatesTo_of_settles before after own settles (by rintro _ ⟨⟩) ?_⟩
    intro inner address calls final given
    have headed := evaluates.gives inner (0 :: address) calls
    rw [computes_label computes] at given
    rw [evaluateEntered, evaluateCall.eq_3 c.toSetup inner address head arguments computes]
    refine Run.Gives.depth.bind (headed.bind ?_)
    cases callee with
    | function f => exact absurd .self (evaluates.free _ rfl f)
    | null | bool | number | text | list | object => exact given

theorem exists_evaluatesTo [BEq φ] (standard : c.sandbox.Standard) (before : c.before = none)
    (after : c.after = none) (node : Json) : ∃ outcome, c.EvaluatesTo node outcome := by
  induction node, ([] : Address) using script_induction with
  | literal node address literal =>
    refine ⟨.ok (.ofJson node), ?_, ?_, by rintro _ ⟨⟩⟩
    · intro inner address calls
      refine evaluate_gives before after ?_
      rw [evaluateEntered_literal c.toSetup inner literal]
      exact .pure _
    · rintro _ ⟨⟩
      exact Value.functionFree_ofJson node
  | empty address =>
    refine ⟨.ok .null, ?_, ?_, by rintro _ ⟨⟩⟩
    · intro inner address calls
      refine evaluate_gives before after ?_
      rw [evaluateEntered, evaluateCall]
      exact .pure _
    · rintro _ ⟨⟩
      exact Value.functionFree_null
  | named name arguments address inside => exact named_evaluatesTo standard before after inside
  | computed head arguments address computes atHead inside =>
    exact computed_evaluatesTo before after computes atHead

end Context

/-- With the standard natives and values without functions, and without hooks, a node evaluated
inside some calls does what it does in a run of its own. It has the same value, or fails with the
same cause and the stack of the run inside those calls: all depths are raised by their number, and
the outermost call of the run stands where the node stands if it is the node itself, and at zero if
the failure is that of the node's head. -/
theorem nested_evaluation_extends_run [BEq φ] (c : Context φ ε) (standard : c.sandbox.Standard)
    (before : c.before = none) (after : c.after = none) (node : Json) (ledger : Ledger)
    (inner : InnerRun φ) (address : Address) (w : World ε) :
    ∃ outcome : Outcome φ,
      (c.run node ledger).1 = .returned outcome ∧
      (evaluate c.toSetup inner node address w).1 = .returned (outcome.mapError fun f =>
        (f.movedTo (c.outermostIndex node address.index)).under w.frames) ∧
      ∀ f, outcome = .error f → ∃ head arguments, node = .array (head :: arguments) ∧
        if c.headFails node = true then (c.run head ledger).1 = .returned (.error f)
        else f.stack.frames.getLast? = some ⟨head.headLabel, 0, 1⟩ := by
  obtain ⟨outcome, evaluates⟩ := Context.exists_evaluatesTo standard before after node
  obtain ⟨_, step, _⟩ := evaluates.gives inner address w.frames w rfl
  refine ⟨outcome.mapError (·.movedTo 0), evaluates.run ledger, ?_, ?_⟩
  · rw [step]
    cases outcome with
    | ok v => rfl
    | error f => simp [Except.mapError, Failure.movedTo_movedTo]
  · intro f failed
    cases outcome with
    | ok v => cases failed
    | error g =>
      cases failed
      obtain ⟨head, arguments, shape, origin⟩ := evaluates.origin g rfl
      refine ⟨head, arguments, shape, ?_⟩
      by_cases fails : c.headFails node = true
      · rw [if_pos fails] at origin ⊢
        exact origin ledger
      · rw [if_neg fails] at origin ⊢
        obtain ⟨own, rfl⟩ := origin
        simp [Failure.movedTo, Failure.under, List.modifyLast_concat, Frame.movedTo]

/-- The same call fails as a node at the third position, and as the head of such a node. -/
theorem nested_evaluation_of_failing_head :
    let c : Context Probe.Closure Unit :=
      .ofSandbox (Boxes.standard.insertValue "x" (.list [.null])) ()
    let call : Json := .array [.string "do", .array [.string "x"], .array [.string "not"]]
    let w : World Unit := { frames := [⟨"around", 0, 1⟩], env := (), ledger := {} }
    let failure (index : Nat) : Failure :=
      ⟨.missingArgument "not" 1, ⟨[⟨"not", 2, 3⟩, ⟨"do", index, 2⟩, ⟨"around", 0, 1⟩]⟩⟩
    ∀ inner : InnerRun Probe.Closure,
      (evaluate c.toSetup inner call [3] w).1 = .returned (.error (failure 3)) ∧
      (evaluate c.toSetup inner (.array [call]) [3] w).1 = .returned (.error (failure 0)) := by
  intro c call w failure inner
  have standard : c.sandbox.Standard := by
    refine Sandbox.Standard.standard.insertValue "x" (Value.functionFree_list.mpr ?_)
    intro v member
    rw [List.mem_singleton.mp member]
    exact Value.functionFree_null
  have nested (node : Json) := nested_evaluation_extends_run c standard rfl rfl node {} inner [3] w
  constructor
  · obtain ⟨outcome, ran, given, _⟩ := nested call
    cases ran
    exact given
  · obtain ⟨outcome, ran, given, _⟩ := nested (.array [call])
    cases ran
    exact given

end JsonScript
