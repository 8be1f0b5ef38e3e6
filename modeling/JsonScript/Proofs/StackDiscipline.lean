import JsonScript.Proofs.Evaluation
import JsonScript.Proofs.Natives

/-!
The discipline of calls in progress.

An evaluation that returns leaves the calls in progress as it found them, one that unwinds leaves
the calls that it interrupted on top of them, and whoever looks in between, be it a hook or a
native, finds every call at the depth of its place. The depth of a call with a computed head is
settled before the head is evaluated, so it is right only because heads restore the calls too.
-/

set_option autoImplicit false
set_option relaxedAutoImplicit false

namespace JsonScript

open Evaluator

variable {φ ε α β : Type}

/-- Counted from the outside, the first call has depth one, the second depth two, and so on. -/
def Leveled (frames : List Frame) : Prop :=
  frames.reverse.map Frame.depth = List.range' 1 frames.length

instance (frames : List Frame) : Decidable (Leveled frames) :=
  inferInstanceAs (Decidable (_ = _))

theorem leveled_nil : Leveled [] := rfl

theorem leveled_cons {frame : Frame} {around : List Frame} :
    Leveled (frame :: around) ↔ frame.depth = around.length + 1 ∧ Leveled around := by
  unfold Leveled
  rw [List.length_cons, List.range'_1_concat, List.reverse_cons, List.map_append]
  constructor
  · intro same
    obtain ⟨outer, inner⟩ := List.append_inj' same rfl
    refine ⟨?_, outer⟩
    have depth : frame.depth = 1 + around.length := by simpa using inner
    omega
  · rintro ⟨depth, outer⟩
    rw [outer, List.map_singleton, depth, Nat.add_comm]

def Grown (P : α → Prop) (old new : List α) : Prop :=
  ∃ added, new = added ++ old ∧ ∀ x ∈ added, P x

namespace Grown

variable {P : α → Prop}

theorem refl (old : List α) : Grown P old old :=
  ⟨[], rfl, by simp⟩

theorem cons {x : α} (fits : P x) (old : List α) : Grown P old (x :: old) :=
  ⟨[x], rfl, by simpa using fits⟩

theorem trans {old between new : List α} (first : Grown P old between)
    (second : Grown P between new) : Grown P old new := by
  obtain ⟨added, rfl, fits⟩ := first
  obtain ⟨later, rfl, fits'⟩ := second
  refine ⟨later ++ added, by simp, ?_⟩
  intro x member
  rcases List.mem_append.mp member with member | member
  · exact fits' x member
  · exact fits x member

end Grown

def Passage.stack : Passage → Stack
  | .entered _ _ stack => stack
  | .left _ _ stack => stack

/-- If the event is the entry of a native, every call then in progress is at the depth of its
place. -/
def Event.Leveled : Event → Prop
  | .dispatch call around _ => JsonScript.Leveled (call :: around)
  | _ => True

/-- From one state of a run to a later one, every hook and every native found the calls in progress
leveled. -/
structure SeenLeveled (w w' : World ε) : Prop where
  hooks : Grown (fun p => Leveled p.stack.frames) w.passages w'.passages
  natives : Grown Event.Leveled w.ledger.events w'.ledger.events

theorem SeenLeveled.refl (w : World ε) : SeenLeveled w w :=
  ⟨.refl _, .refl _⟩

theorem SeenLeveled.trans {w between w' : World ε} (first : SeenLeveled w between)
    (second : SeenLeveled between w') : SeenLeveled w w' :=
  ⟨first.hooks.trans second.hooks, first.natives.trans second.natives⟩

/-- A computation from the given state that returned restored the calls in progress, one that did
not return kept them, and they were leveled for all who saw them if they were at the start. -/
structure KeepsCalls (w : World ε) (e : Ending α × World ε) : Prop where
  kept : w.frames <:+ e.2.frames
  restored : ∀ x, e.1 = .returned x → e.2.frames = w.frames
  seen : Leveled w.frames → SeenLeveled w e.2

namespace KeepsCalls

theorem of_frames_eq {w : World ε} {e : Ending α × World ε} (frames : e.2.frames = w.frames)
    (seen : Leveled w.frames → SeenLeveled w e.2) : KeepsCalls w e :=
  ⟨frames ▸ List.suffix_refl _, fun _ _ => frames, seen⟩

theorem frames_eq {w w' : World ε} {e : Ending α × World ε} {x : α} (keeps : KeepsCalls w e)
    (step : e = (.returned x, w')) : w'.frames = w.frames := by
  subst step
  exact keeps.restored x rfl

theorem refl (w : World ε) (e : Ending α) : KeepsCalls w (e, w) :=
  of_frames_eq rfl fun _ => .refl w

theorem bind {m : Run ε α} {next : α → Run ε β} {w : World ε} (first : KeepsCalls w (m w))
    (second : ∀ x w', m w = (.returned x, w') → KeepsCalls w' (next x w')) :
    KeepsCalls w ((m >>= next) w) := by
  obtain ⟨kept, restored, seen⟩ := first
  apply Run.bind_cases
  · intro x w' step
    obtain ⟨kept', restored', seen'⟩ := second x w' step
    rw [step] at restored seen
    rw [restored x rfl] at kept' restored' seen'
    exact ⟨kept', restored', fun level => (seen level).trans (seen' level)⟩
  · intro payload w' step
    rw [step] at kept seen
    exact ⟨kept, by simp, seen⟩
  · intro w' step
    rw [step] at kept seen
    exact ⟨kept, by simp, seen⟩

theorem within {frame : Frame} {body : Run ε α} {w : World ε}
    (depth : frame.depth = w.frames.length + 1) (inside : ∀ w', KeepsCalls w' (body w')) :
    KeepsCalls w (Run.within frame body w) := by
  obtain ⟨kept, restored, seen⟩ := inside { w with frames := frame :: w.frames }
  have around : w.frames <:+ (body { w with frames := frame :: w.frames }).2.frames :=
    (List.suffix_cons frame w.frames).trans kept
  have observed : Leveled w.frames →
      SeenLeveled w (body { w with frames := frame :: w.frames }).2 := fun level =>
    let ⟨hooks, natives⟩ := seen (leveled_cons.mpr ⟨depth, level⟩)
    ⟨hooks, natives⟩
  apply Run.within_cases
  · intro x w' step
    rw [step] at restored observed
    have frames : w'.frames.tail = w.frames := by
      rw [restored x rfl, List.tail_cons]
    refine of_frames_eq frames ?_
    intro level
    obtain ⟨hooks, natives⟩ := observed level
    exact ⟨hooks, natives⟩
  · intro payload w' step
    rw [step] at around observed
    exact ⟨around, by simp, observed⟩
  · intro w' step
    rw [step] at around observed
    exact ⟨around, by simp, observed⟩

end KeepsCalls

private theorem tell_keepsCalls (hook : Option (Hook ε)) (node : Json) (w : World ε) :
    KeepsCalls w (Evaluator.tell hook node w) := by
  cases hook with
  | none => exact .refl w _
  | some hook =>
    unfold Evaluator.tell
    dsimp only
    split
    · exact .of_frames_eq rfl fun _ => ⟨.refl _, .refl _⟩
    · exact .of_frames_eq rfl fun _ => ⟨.refl _, .refl _⟩

private theorem pass_keepsCalls (p : Passage) (w : World ε) (now : p.stack = w.stack) :
    KeepsCalls w (Ending.returned (), w.pass p) := by
  refine .of_frames_eq rfl ?_
  intro level
  refine ⟨.cons ?_ _, .refl _⟩
  rw [now]
  exact level

theorem enter_keepsCalls (setup : Setup φ ε) (address : Address) (node : Json)
    (w : World ε) : KeepsCalls w (enter setup address node w) :=
  .bind (pass_keepsCalls _ w rfl) fun _ _ _ => tell_keepsCalls _ _ _

theorem leave_keepsCalls (setup : Setup φ ε) (address : Address) (node : Json)
    (w : World ε) : KeepsCalls w (leave setup address node w) :=
  .bind (pass_keepsCalls _ w rfl) fun _ _ _ => tell_keepsCalls _ _ _

/-- Whether the request is to evaluate an argument and to go on if it panics. -/
def Request.catchesPanic : Request φ ε → Bool
  | .attempt _ => true
  | _ => false

def InnerRun.SeesLeveled (inner : InnerRun φ) : Prop :=
  ∀ script ledger, Grown Event.Leveled ledger.events (inner script ledger).2.events

private theorem fetch_keepsCalls (shape : Shape) (index : Nat) {evaluation : Run ε (Outcome φ)}
    (keeps : ∀ w, KeepsCalls w (evaluation w)) (w : World ε) :
    KeepsCalls w (fetch shape index evaluation w) := by
  refine .bind (keeps w) ?_
  intro outcome w' _
  cases outcome with
  | error failure => exact .refl w' _
  | ok v =>
    simp only [convert]
    cases shape.fromValue v with
    | ok x => exact .refl w' _
    | error mismatch => exact .refl w' _

theorem answer_keepsCalls (setup : Setup φ ε) {inner : InnerRun φ}
    (innerLeveled : inner.SeesLeveled) (arguments : List Json)
    {evaluations : List (Run ε (Outcome φ))}
    (keeps : ∀ index evaluation, argumentAt? evaluations index = some evaluation →
      ∀ w, KeepsCalls w (evaluation w))
    (r : Request φ ε) (passes : r.catchesPanic = false) (w : World ε) :
    KeepsCalls w (answer setup inner arguments evaluations r w) := by
  cases r with
  | attempt index => cases passes
  | argument shape index =>
    simp only [answer]
    cases found : argumentAt? evaluations index with
    | some evaluation => exact fetch_keepsCalls shape index (keeps index evaluation found) w
    | none => exact .refl w _
  | argumentIfAny shape index =>
    simp only [answer]
    cases found : argumentAt? evaluations index with
    | some evaluation =>
      have fetched := fetch_keepsCalls shape index (keeps index evaluation found) w
      exact .bind fetched fun _ w' _ => .refl w' _
    | none => exact .refl w _
  | run script => exact .of_frames_eq rfl fun _ => ⟨.refl _, innerLeveled script w.ledger⟩
  | setEnvironment env => exact .of_frames_eq rfl fun _ => ⟨.refl _, .refl _⟩
  | fresh => exact .of_frames_eq rfl fun _ => ⟨.refl _, .refl _⟩
  | arity | raw | failure | stack | environment | bound | lifting => exact .refl w _

theorem perform_keepsCalls {answers : (r : Request φ ε) → Run ε r.Reply}
    {allowed : Request φ ε → Prop}
    (keeps : ∀ r, allowed r → ∀ w, KeepsCalls w (answers r w))
    {program : Program φ ε α} (only : program.Only allowed) (w : World ε) :
    KeepsCalls w (perform answers program w) := by
  induction program generalizing w with
  | done result => exact .refl w _
  | panic payload => exact .refl w _
  | ask request next ih =>
    rw [perform]
    exact .bind (keeps request only.1 w) fun reply w' _ => ih reply (only.2 reply) w'

theorem reportDispatch_keepsCalls (arity : Nat) (w : World ε) :
    KeepsCalls w (reportDispatch arity w) := by
  unfold reportDispatch Run.change
  cases calls : w.frames with
  | nil =>
    simp only [calls]
    exact .refl w _
  | cons call around =>
    simp only [calls]
    refine .of_frames_eq rfl ?_
    intro level
    rw [calls] at level
    have entry : Event.Leveled (.dispatch call around arity) := level
    exact ⟨.refl _, .cons entry _⟩

private theorem invoke_keepsCalls (setup : Setup φ ε) {inner : InnerRun φ}
    (innerLeveled : inner.SeesLeveled) (arguments : List Json)
    {evaluations : List (Run ε (Outcome φ))}
    (keeps : ∀ index evaluation, argumentAt? evaluations index = some evaluation →
      ∀ w, KeepsCalls w (evaluation w))
    {native : Native φ ε} (passes : Routine.Only (·.catchesPanic = false) native) (w : World ε) :
    KeepsCalls w (invoke setup inner arguments evaluations native w) := by
  refine .bind (reportDispatch_keepsCalls _ w) fun _ w' _ => ?_
  refine .bind (perform_keepsCalls ?_ passes w') fun _ w'' _ => .refl w'' _
  exact answer_keepsCalls setup innerLeveled arguments keeps

private theorem close_leveled (c : Context φ ε) (e : Ending (Outcome φ) × World ε) :
    Grown Event.Leveled e.2.ledger.events (c.close e).2.2.events := by
  obtain ⟨ending, w⟩ := e
  cases ending with
  | unwound payload => exact .refl _
  | exhausted => exact .refl _
  | returned outcome =>
    cases outcome with
    | ok v => exact .refl _
    | error failure => exact .cons trivial _

/-- The hooks do the same whenever the calls in progress are leveled. -/
def AgreeLeveled (hook other : Option (Hook ε)) : Prop :=
  Option.Rel (fun h g => ∀ visit node, Leveled visit.stack.frames → h visit node = g visit node)
    hook other

private theorem tell_agree {hook other : Option (Hook ε)} (agree : AgreeLeveled hook other)
    (node : Json) {w : World ε} (level : Leveled w.frames) :
    Evaluator.tell hook node w = Evaluator.tell other node w := by
  cases agree with
  | none => rfl
  | some same =>
    have reaction := same ⟨w.env, w.stack⟩ node level
    simp only [Evaluator.tell, reaction]

private theorem enter_agree {setup other : Setup φ ε}
    (agree : AgreeLeveled setup.before other.before) (address : Address) (node : Json)
    {w : World ε} (level : Leveled w.frames) :
    enter setup address node w = enter other address node w := by
  refine Run.bind_congr rfl ?_
  rintro _ _ ⟨⟩
  exact tell_agree agree node level

private theorem leave_agree {setup other : Setup φ ε}
    (agree : AgreeLeveled setup.after other.after) (address : Address) (node : Json)
    {w : World ε} (level : Leveled w.frames) :
    leave setup address node w = leave other address node w := by
  refine Run.bind_congr rfl ?_
  rintro _ _ ⟨⟩
  exact tell_agree agree node level

private theorem within_agree {frame : Frame} {body body' : Run ε α} {w : World ε}
    (same : body { w with frames := frame :: w.frames } =
      body' { w with frames := frame :: w.frames }) :
    Run.within frame body w = Run.within frame body' w := by
  refine Run.bind_congr rfl ?_
  rintro _ _ ⟨⟩
  exact Run.bind_congr same fun _ _ _ => rfl

private theorem perform_agree {answers answers' : (r : Request φ ε) → Run ε r.Reply}
    {allowed : Request φ ε → Prop}
    (keeps : ∀ r, allowed r → ∀ w, KeepsCalls w (answers r w))
    (same : ∀ r, allowed r → ∀ w, Leveled w.frames → answers r w = answers' r w)
    {program : Program φ ε α} (only : program.Only allowed) {w : World ε}
    (level : Leveled w.frames) : perform answers program w = perform answers' program w := by
  induction program generalizing w with
  | done result => rfl
  | panic payload => rfl
  | ask request next ih =>
    rw [perform, perform]
    refine Run.bind_congr (same request only.1 w level) fun reply w' step => ?_
    have frames := (keeps request only.1 w).frames_eq step
    exact ih reply (only.2 reply) (frames ▸ level)

variable [Callable φ ε]

private theorem evaluate_keepsCalls_of_entered {setup : Setup φ ε} {inner : InnerRun φ}
    {node : Json} {address : Address}
    (keeps : ∀ w, KeepsCalls w (evaluateEntered setup inner node address w)) (w : World ε) :
    KeepsCalls w (evaluate setup inner node address w) := by
  rw [evaluate_eq]
  refine .bind (enter_keepsCalls setup address node w) fun _ entered _ => ?_
  refine .bind (keeps entered) fun outcome called _ => ?_
  cases outcome with
  | error failure => exact .refl called _
  | ok v => exact .bind (leave_keepsCalls setup address node called) fun _ left _ => .refl left _

/-- What a node is evaluated to keeps the calls in progress, whatever these are. -/
theorem evaluateEntered_keepsCalls (setup : Setup φ ε) {inner : InnerRun φ}
    (innerLeveled : inner.SeesLeveled)
    (passes : setup.sandbox.EveryNative (Routine.Only (·.catchesPanic = false)))
    (node : Json) (address : Address) (w : World ε) :
    KeepsCalls w (evaluateEntered setup inner node address w) := by
  have served {arguments : List Json} {address : Address}
      (inside : ∀ index argument, argumentAt? arguments index = some argument →
        ∀ w, KeepsCalls w (evaluateEntered setup inner argument (index :: address) w))
      {native : Native φ ε} (passes : Routine.Only (·.catchesPanic = false) native)
      (w : World ε) : KeepsCalls w
        (invoke setup inner arguments (evaluations setup inner arguments address 1) native w) := by
    refine invoke_keepsCalls setup innerLeveled arguments ?_ passes w
    intro index evaluation found
    obtain ⟨argument, there, rfl⟩ := argument_of_evaluation setup inner found
    exact evaluate_keepsCalls_of_entered (inside index argument there)
  induction node, address using script_induction generalizing w with
  | literal node address literal =>
    rw [evaluateEntered_literal setup inner literal]
    exact .refl w _
  | empty address =>
    rw [evaluateEntered, evaluateCall]
    exact .refl w _
  | named name arguments address inside =>
    rw [evaluateEntered, evaluateCall]
    refine .bind (.refl w _) ?_
    rintro _ _ ⟨⟩
    refine .within rfl fun called => ?_
    cases found : setup.sandbox.find? name with
    | none => exact .refl called _
    | some binding =>
      cases binding with
      | value v => exact .refl called _
      | callable native => exact served inside (passes.1 name native found) called
  | computed head arguments address computes atHead inside =>
    rw [evaluateEntered, evaluateCall.eq_3 setup inner address head arguments computes]
    refine .bind (.refl w _) ?_
    rintro _ _ ⟨⟩
    -- The head restores the calls, so the depth settled before it is still right.
    have keeps := evaluate_keepsCalls_of_entered atHead w
    refine .bind keeps fun outcome headed step => ?_
    cases outcome with
    | error failure => exact .refl headed _
    | ok callee =>
      refine .within (by rw [keeps.frames_eq step]) fun called => ?_
      cases callee with
      | function f => exact served inside (passes.2 f) called
      | null | bool | number | text | list | object => exact .refl called _

/-- Evaluation keeps the calls in progress, whatever the node and the calls around it are. -/
theorem evaluate_keepsCalls (setup : Setup φ ε) {inner : InnerRun φ}
    (innerLeveled : inner.SeesLeveled)
    (passes : setup.sandbox.EveryNative (Routine.Only (·.catchesPanic = false)))
    (node : Json) (address : Address) (w : World ε) :
    KeepsCalls w (evaluate setup inner node address w) :=
  evaluate_keepsCalls_of_entered
    (evaluateEntered_keepsCalls setup innerLeveled passes node address) w

section Hooks

variable {setup : Setup φ ε} {inner : InnerRun φ} {before after : Option (Hook ε)}

private theorem answer_agree {arguments : List Json} {address : Address}
    (inside : ∀ index argument, argumentAt? arguments index = some argument →
      ∀ w, Leveled w.frames → evaluate setup inner argument (index :: address) w =
        evaluate { setup with before, after } inner argument (index :: address) w)
    (r : Request φ ε) (passes : r.catchesPanic = false) (w : World ε) (level : Leveled w.frames) :
    answer setup inner arguments (evaluations setup inner arguments address 1) r w =
      answer { setup with before, after } inner arguments
        (evaluations { setup with before, after } inner arguments address 1) r w := by
  cases r with
  | attempt index => cases passes
  | argument shape index =>
    simp only [answer, argumentAt?_evaluations]
    cases found : argumentAt? arguments index with
    | none => rfl
    | some argument => exact Run.bind_congr (inside index argument found w level) fun _ _ _ => rfl
  | argumentIfAny shape index =>
    simp only [answer, argumentAt?_evaluations]
    cases found : argumentAt? arguments index with
    | none => rfl
    | some argument =>
      refine Run.bind_congr (Run.bind_congr ?_ fun _ _ _ => rfl) fun _ _ _ => rfl
      exact inside index argument found w level
  | arity | raw | failure | stack | environment | setEnvironment | bound | lifting | fresh
  | run => rfl

private theorem evaluate_agree_of_entered
    (agreeBefore : AgreeLeveled setup.before before) (agreeAfter : AgreeLeveled setup.after after)
    {node : Json} {address : Address}
    (keeps : ∀ w, KeepsCalls w (evaluateEntered setup inner node address w))
    (same : ∀ w, Leveled w.frames → evaluateEntered setup inner node address w =
      evaluateEntered { setup with before, after } inner node address w)
    (w : World ε) (level : Leveled w.frames) :
    evaluate setup inner node address w =
      evaluate { setup with before, after } inner node address w := by
  rw [evaluate_eq, evaluate_eq]
  refine Run.bind_congr (enter_agree agreeBefore address node level) fun _ entered step => ?_
  have inside : Leveled entered.frames :=
    (enter_keepsCalls setup address node w).frames_eq step ▸ level
  refine Run.bind_congr (same entered inside) fun outcome called step => ?_
  cases outcome with
  | error failure => rfl
  | ok v =>
    have settled : Leveled called.frames := (keeps entered).frames_eq step ▸ inside
    exact Run.bind_congr (leave_agree agreeAfter address node settled) fun _ _ _ => rfl

private theorem evaluateEntered_agree (innerLeveled : inner.SeesLeveled)
    (passes : setup.sandbox.EveryNative (Routine.Only (·.catchesPanic = false)))
    (agreeBefore : AgreeLeveled setup.before before) (agreeAfter : AgreeLeveled setup.after after)
    (node : Json) (address : Address) (w : World ε) (level : Leveled w.frames) :
    evaluateEntered setup inner node address w =
      evaluateEntered { setup with before, after } inner node address w := by
  have keeps := evaluateEntered_keepsCalls setup innerLeveled passes
  have served {arguments : List Json} {address : Address}
      (inside : ∀ index argument, argumentAt? arguments index = some argument →
        ∀ w, Leveled w.frames → evaluateEntered setup inner argument (index :: address) w =
          evaluateEntered { setup with before, after } inner argument (index :: address) w)
      {native : Native φ ε} (passes : Routine.Only (·.catchesPanic = false) native)
      {w : World ε} (level : Leveled w.frames) :
      invoke setup inner arguments (evaluations setup inner arguments address 1) native w =
        invoke { setup with before, after } inner arguments
          (evaluations { setup with before, after } inner arguments address 1) native w := by
    refine Run.bind_congr rfl fun _ reported step => ?_
    have settled : Leveled reported.frames :=
      (reportDispatch_keepsCalls _ w).frames_eq step ▸ level
    refine Run.bind_congr (perform_agree ?_ ?_ passes settled) fun _ _ _ => rfl
    · refine answer_keepsCalls setup innerLeveled arguments fun index evaluation found => ?_
      obtain ⟨argument, _, rfl⟩ := argument_of_evaluation setup inner found
      exact evaluate_keepsCalls_of_entered (keeps argument _)
    · refine answer_agree fun index argument found => ?_
      exact evaluate_agree_of_entered agreeBefore agreeAfter (keeps argument _)
        (inside index argument found)
  induction node, address using script_induction generalizing w with
  | literal node address literal =>
    rw [evaluateEntered_literal setup inner literal, evaluateEntered_literal _ inner literal]
  | empty address => rw [evaluateEntered, evaluateEntered, evaluateCall, evaluateCall]
  | named name arguments address inside =>
    rw [evaluateEntered, evaluateEntered, evaluateCall, evaluateCall]
    refine Run.bind_congr rfl ?_
    rintro _ _ ⟨⟩
    refine within_agree ?_
    cases found : setup.sandbox.find? name with
    | none => rfl
    | some binding =>
      cases binding with
      | value v => rfl
      | callable native =>
        exact served inside (passes.1 name native found) (leveled_cons.mpr ⟨rfl, level⟩)
  | computed head arguments address computes atHead inside =>
    rw [evaluateEntered, evaluateEntered,
      evaluateCall.eq_3 setup inner address head arguments computes,
      evaluateCall.eq_3 { setup with before, after } inner address head arguments computes]
    refine Run.bind_congr rfl ?_
    rintro _ _ ⟨⟩
    have headed := evaluate_agree_of_entered agreeBefore agreeAfter (keeps head _) atHead w level
    refine Run.bind_congr headed fun outcome w' step => ?_
    have frames := (evaluate_keepsCalls_of_entered (keeps head _) w).frames_eq step
    cases outcome with
    | error failure => rfl
    | ok callee =>
      refine within_agree ?_
      cases callee with
      | function f =>
        exact served inside (passes.2 f) (leveled_cons.mpr ⟨by rw [frames], frames ▸ level⟩)
      | null | bool | number | text | list | object => rfl

private theorem evaluate_agree (innerLeveled : inner.SeesLeveled)
    (passes : setup.sandbox.EveryNative (Routine.Only (·.catchesPanic = false)))
    (agreeBefore : AgreeLeveled setup.before before) (agreeAfter : AgreeLeveled setup.after after)
    (node : Json) (address : Address) (w : World ε) (level : Leveled w.frames) :
    evaluate setup inner node address w =
      evaluate { setup with before, after } inner node address w :=
  evaluate_agree_of_entered agreeBefore agreeAfter
    (evaluateEntered_keepsCalls setup innerLeveled passes node address)
    (evaluateEntered_agree innerLeveled passes agreeBefore agreeAfter node address) w level

end Hooks

theorem innerRun_seesLeveled [Inhabited ε] (sandbox : Sandbox φ ε)
    (passes : sandbox.EveryNative (Routine.Only (·.catchesPanic = false))) (limit : Nat) :
    (Context.innerRun sandbox limit).SeesLeveled := by
  induction limit with
  | zero =>
    intro script ledger
    exact .refl _
  | succ limit inside =>
    intro script ledger
    let c := Context.ofSandbox sandbox default
    have keeps := evaluate_keepsCalls c.toSetup inside passes script [] { env := c.env, ledger }
    exact (keeps.seen leveled_nil).natives.trans (close_leveled c _)

/-- On natives that let panics through, every evaluation under leveled calls restores the calls in
progress when it returns, with a value or a failure, and keeps them below those that it leaves when
it unwinds. Every hook and every native on the way finds the calls in progress leveled, so that what
hooks do under other calls does not matter. No run that returns leaves a call behind. -/
theorem calls_in_progress_disciplined [Inhabited ε] (c : Context φ ε)
    (passes : c.sandbox.EveryNative (Routine.Only (·.catchesPanic = false))) :
    (∀ (limit : Nat) (node : Json) (address : Address) (w : World ε), Leveled w.frames →
      let inner := Context.innerRun c.sandbox limit
      let e := evaluate c.toSetup inner node address w
      (∀ outcome, e.1 = .returned outcome → e.2.frames = w.frames) ∧
        (∀ payload, e.1 = .unwound payload → w.frames <:+ e.2.frames) ∧
        SeenLeveled w e.2 ∧
        ∀ before after, AgreeLeveled c.before before → AgreeLeveled c.after after →
          evaluate { c.toSetup with before, after } inner node address w = e) ∧
    ∀ script ledger outcome c' ledger',
      c.run script ledger = (.returned outcome, c', ledger') → c'.depth = 0 := by
  constructor
  · intro limit node address w level inner e
    have innerLeveled : inner.SeesLeveled := innerRun_seesLeveled c.sandbox passes limit
    have keeps : KeepsCalls w e := evaluate_keepsCalls c.toSetup innerLeveled passes node address w
    refine ⟨keeps.restored, fun _ _ => keeps.kept, keeps.seen level, ?_⟩
    intro before after agreeBefore agreeAfter
    exact (evaluate_agree innerLeveled passes agreeBefore agreeAfter node address w level).symm
  · intro script ledger outcome c' ledger' done
    obtain ⟨w, _, closed, _⟩ := Context.close_returned done
    rw [closed]
    rfl

/-- A failure inside a computed head is swallowed, and then a call with a computed head is served,
all below a call that was in progress before. -/
theorem swallowed_failure_restores_calls :
    let sandbox : Sandbox Probe.Closure Probe.Journal :=
      (Sandbox.empty.insertNative "try" Probe.orElse).insertNative "namer"
        (Probe.Closure.make .namer)
    let c := Context.ofSandbox sandbox {}
    let w : World Probe.Journal := { frames := [⟨"around", 0, 1⟩], env := {}, ledger := {} }
    let script : Json := .array [.string "try", .array [.array [.string "unbound"]],
      .array [.array [.string "namer"]]]
    let e := evaluate c.toSetup (Context.innerRun sandbox 3) script [2] w
    (∃ v, e.1 = .returned (.ok v)) ∧ e.2.ledger.events.length = 3 ∧ e.2.frames = w.frames ∧
      SeenLeveled w e.2 := by
  intro sandbox c w script e
  have functions : ∀ f : Probe.Closure, Routine.Only (·.catchesPanic = false)
      (Callable.code f : Native Probe.Closure Probe.Journal) :=
    Probe.Closure.code_only (fun _ _ => rfl) rfl rfl rfl
  have passes : c.sandbox.EveryNative (Routine.Only (·.catchesPanic = false)) := by
    refine .insertNative (.insertNative (.empty functions) ?_ "try") ?_ "namer"
    · exact Probe.orElse_only fun _ _ => rfl
    · exact .bind (.request rfl) fun _ => .pure _
  have disciplined := (calls_in_progress_disciplined c passes).1 3 script [2] w (by decide)
  have value : ∃ v, e.1 = .returned (.ok v) := ⟨_, rfl⟩
  obtain ⟨v, returned⟩ := value
  exact ⟨⟨v, returned⟩, rfl, disciplined.1 _ returned, disciplined.2.2.1⟩

end JsonScript
