import JsonScript.Proofs.Evaluation
import JsonScript.Proofs.Natives

/-!
Arguments that are not evaluated do not matter.

Two scripts that differ in one argument are evaluated in step until that argument is entered. Their
ways through the script show different nodes, but nothing else of the state does: the number of
arguments is the same, labels are made from heads, and what a native learns of an argument it
learns by evaluation.
-/

set_option autoImplicit false
set_option relaxedAutoImplicit false

namespace JsonScript

open Evaluator

variable {φ ε α β : Type}

/-- A script with a hole at an argument position, reached through arguments only. -/
inductive Hole where
  | here
  | inside (head : Json) (before : List Json) (hole : Hole) (after : List Json)

namespace Hole

def fill : Hole → Json → Json
  | .here, node => node
  | .inside head before hole after, node => .array (head :: (before ++ hole.fill node :: after))

/-- The address of the hole in a script that itself stands at an address. -/
def address : Hole → Address → Address
  | .here, root => root
  | .inside _ before hole _, root => hole.address ((before.length + 1) :: root)

end Hole

/-- The states differ at most in the way through the script. -/
structure World.Alike (w v : World ε) : Prop where
  frames : w.frames = v.frames
  env : w.env = v.env
  ledger : w.ledger = v.ledger

namespace World.Alike

variable {w v : World ε}

theorem stack_eq (alike : w.Alike v) : w.stack = v.stack :=
  congrArg Stack.mk alike.frames

theorem failure_eq (alike : w.Alike v) (cause : String → Cause) :
    w.failure (cause w.label) = v.failure (cause v.label) := by
  rw [World.failure, World.failure, World.label, World.label, alike.frames, alike.stack_eq]

end World.Alike

def Passage.enters (place : Address) : Passage → Bool
  | .entered address _ _ => address == place
  | .left .. => false

def World.Unentered (place : Address) (w : World ε) : Prop :=
  ∀ p ∈ w.passages, p.enters place = false

theorem World.Unentered.of_suffix {place : Address} {w w' : World ε} (later : w'.Unentered place)
    (grown : w.passages <:+ w'.passages) : w.Unentered place :=
  fun p passed => later p (grown.subset passed)

/-- As long as the first computation does not enter the node at the place, the second ends as it
does from every state that differs only in the way. -/
structure Shadows (place : Address) (m m' : Run ε α) : Prop where
  grown : ∀ w, w.passages <:+ (m w).2.passages
  alike : ∀ w v : World ε, w.Alike v → (m w).2.Unentered place →
    (m w).1 = (m' v).1 ∧ (m w).2.Alike (m' v).2

namespace Shadows

variable {place : Address}

theorem look {view view' : World ε → α} (same : ∀ w v, w.Alike v → view w = view' v) :
    Shadows place (Run.look view) (Run.look view') :=
  ⟨fun _ => List.suffix_refl _,
    fun w v alike _ => ⟨congrArg Ending.returned (same w v alike), alike⟩⟩

theorem pure (x : α) : Shadows place (Pure.pure x : Run ε α) (Pure.pure x) :=
  look fun _ _ _ => rfl

theorem unwind (payload : Panic) :
    Shadows place (Run.unwind payload : Run ε α) (Run.unwind payload) :=
  ⟨fun _ => List.suffix_refl _, fun _ _ alike _ => ⟨rfl, alike⟩⟩

theorem change {update update' : World ε → World ε}
    (grown : ∀ w, w.passages <:+ (update w).passages)
    (same : ∀ w v, w.Alike v → (update w).Alike (update' v)) :
    Shadows place (Run.change update) (Run.change update') :=
  ⟨grown, fun w v alike _ => ⟨rfl, same w v alike⟩⟩

theorem keep (step : Ledger → Ending α × Ledger) :
    Shadows place (fun w : World ε => ((step w.ledger).1, { w with ledger := (step w.ledger).2 }))
      fun w => ((step w.ledger).1, { w with ledger := (step w.ledger).2 }) :=
  ⟨fun _ => List.suffix_refl _, fun _ _ alike _ =>
    ⟨congrArg (fun l => (step l).1) alike.ledger, alike.frames, alike.env,
      congrArg (fun l => (step l).2) alike.ledger⟩⟩

theorem bind {m m' : Run ε α} {next next' : α → Run ε β} (first : Shadows place m m')
    (second : ∀ x, Shadows place (next x) (next' x)) :
    Shadows place (m >>= next) (m' >>= next') := by
  constructor
  · intro w
    have grown := first.grown w
    rw [Run.bind_apply]
    generalize m w = e at grown ⊢
    obtain ⟨x | payload | _, between⟩ := e
    · exact grown.trans ((second x).grown between)
    · exact grown
    · exact grown
  · intro w v alike quiet
    have step := first.alike w v alike
    rw [Run.bind_apply] at quiet ⊢
    rw [Run.bind_apply]
    generalize m w = e at step quiet ⊢
    generalize m' v = e' at step ⊢
    obtain ⟨ending, between⟩ := e
    obtain ⟨ending', between'⟩ := e'
    cases ending with
    | returned x =>
      -- The way only grows, so what is not entered in the end was not entered on the way.
      obtain ⟨rfl, alike⟩ := step (quiet.of_suffix ((second x).grown between))
      exact (second x).alike between between' alike quiet
    | unwound payload =>
      obtain ⟨rfl, alike⟩ := step quiet
      exact ⟨rfl, alike⟩
    | exhausted =>
      obtain ⟨rfl, alike⟩ := step quiet
      exact ⟨rfl, alike⟩

theorem catchPanic {m m' : Run ε α} (body : Shadows place m m') :
    Shadows place m.catchPanic m'.catchPanic := by
  constructor
  · intro w
    have grown := body.grown w
    unfold Run.catchPanic
    generalize m w = e at grown ⊢
    obtain ⟨x | payload | _, between⟩ := e <;> exact grown
  · intro w v alike quiet
    have step := body.alike w v alike
    unfold Run.catchPanic at quiet ⊢
    generalize m w = e at step quiet ⊢
    generalize m' v = e' at step ⊢
    obtain ⟨ending, between⟩ := e
    obtain ⟨ending', between'⟩ := e'
    cases ending with
    | returned x | unwound payload | exhausted =>
      obtain ⟨rfl, alike⟩ := step quiet
      exact ⟨rfl, alike⟩

theorem within {m m' : Run ε α} (frame : Frame) (body : Shadows place m m') :
    Shadows place (Run.within frame m) (Run.within frame m') := by
  refine .bind (change (fun _ => List.suffix_refl _) ?_) fun _ => .bind body fun x =>
    .bind (change (fun _ => List.suffix_refl _) ?_) fun _ => .pure x
  · intro w v alike
    exact ⟨congrArg (frame :: ·) alike.frames, alike.env, alike.ledger⟩
  · intro w v alike
    exact ⟨congrArg List.tail alike.frames, alike.env, alike.ledger⟩

end Shadows

/-- Whether the request is to see an argument expression as it stands. -/
def Request.readsRaw : Request φ ε → Bool
  | .raw _ => true
  | _ => false

variable {place : Address}

private theorem missing_shadows (index : Nat) :
    Shadows place (missing index : Run ε (Except Failure α)) (missing index) :=
  .look fun _ _ alike => congrArg Except.error (alike.failure_eq (.missingArgument · index))

private theorem fetch_shadows (shape : Shape) (index : Nat) {m m' : Run ε (Outcome φ)}
    (body : Shadows place m m') : Shadows place (fetch shape index m) (fetch shape index m') := by
  refine .bind body ?_
  intro outcome
  cases outcome with
  | error failure => exact .pure _
  | ok v =>
    simp only [convert]
    cases shape.fromValue v with
    | ok x => exact .pure _
    | error mismatch =>
      exact .look fun _ _ alike =>
        congrArg Except.error (alike.failure_eq (.argumentType · index mismatch))

private theorem served_shadows {serve : Run ε (Outcome φ) → Run ε α} {otherwise : Run ε α}
    (present : ∀ {m m'}, Shadows place m m' → Shadows place (serve m) (serve m'))
    (absent : Shadows place otherwise otherwise) {found found' : Option (Run ε (Outcome φ))} :
    Option.Rel (Shadows place) found found' →
    Shadows place (match found with | some evaluation => serve evaluation | none => otherwise)
      (match found' with | some evaluation => serve evaluation | none => otherwise) := by
  intro related
  cases related with
  | some body => exact present body
  | none => exact absent

section Arguments

variable {setup : Setup φ ε} {inner : InnerRun φ} {arguments arguments' : List Json}
  {evaluations evaluations' : List (Run ε (Outcome φ))}

private theorem answer_shadows (lengths : arguments.length = arguments'.length)
    (inside : ∀ index, Option.Rel (Shadows place) (argumentAt? evaluations index)
      (argumentAt? evaluations' index))
    (r : Request φ ε) (unread : r.readsRaw = false) :
    Shadows place (answer setup inner arguments evaluations r)
      (answer setup inner arguments' evaluations' r) := by
  cases r with
  | raw index => cases unread
  | arity =>
    simp only [answer, lengths]
    exact .pure _
  | argument shape index =>
    exact served_shadows (fetch_shadows shape index) (missing_shadows index) (inside index)
  | argumentIfAny shape index =>
    refine served_shadows (fun body => ?_) (.pure _) (inside index)
    exact .bind (fetch_shadows shape index body) fun _ => .pure _
  | attempt index =>
    refine served_shadows (fun body => body.catchPanic) ?_ (inside index)
    exact .bind (missing_shadows index) fun _ => .pure _
  | failure message => exact .look fun _ _ alike => alike.failure_eq fun _ => .native message
  | stack => exact .look fun _ _ alike => alike.stack_eq
  | environment => exact .look fun _ _ alike => alike.env
  | setEnvironment env =>
    exact .change (fun _ => List.suffix_refl _) fun _ _ alike => ⟨alike.frames, rfl, alike.ledger⟩
  | bound name => exact .pure _
  | lifting => exact .pure _
  | fresh => exact .keep fun l => (.returned l.nextFresh, { l with nextFresh := l.nextFresh + 1 })
  | run script => exact .keep (inner script)

private theorem perform_shadows {answers answers' : (r : Request φ ε) → Run ε r.Reply}
    (same : ∀ r, r.readsRaw = false → Shadows place (answers r) (answers' r))
    {program : Program φ ε α} (only : program.Only (·.readsRaw = false)) :
    Shadows place (perform answers program) (perform answers' program) := by
  induction program with
  | done result => exact .pure result
  | panic payload => exact .unwind payload
  | ask request next ih => exact .bind (same request only.1) fun reply => ih reply (only.2 reply)

private theorem reportDispatch_shadows (arity : Nat) :
    Shadows place (reportDispatch arity : Run ε Unit) (reportDispatch arity) := by
  refine .change (fun w => ?_) fun w v alike => ?_
  · cases w.frames with
    | nil => exact List.suffix_refl _
    | cons call around => exact List.suffix_refl _
  · rw [alike.frames]
    cases v.frames with
    | nil => exact alike
    | cons call around =>
      exact ⟨alike.frames, alike.env, congrArg (Ledger.record _) alike.ledger⟩

private theorem invoke_shadows (lengths : arguments.length = arguments'.length)
    (inside : ∀ index, Option.Rel (Shadows place) (argumentAt? evaluations index)
      (argumentAt? evaluations' index))
    {native : Native φ ε} (unread : Routine.Only (·.readsRaw = false) native) :
    Shadows place (invoke setup inner arguments evaluations native)
      (invoke setup inner arguments' evaluations' native) := by
  unfold invoke
  rw [lengths]
  refine .bind (reportDispatch_shadows _) fun _ =>
    .bind (perform_shadows (answer_shadows lengths inside) unread) fun outcome => .look ?_
  intro w v alike
  rw [alike.stack_eq]

end Arguments

private theorem pass_shadows (step step' : World ε → Passage) :
    Shadows place (Run.change fun w => w.pass (step w)) (Run.change fun w => w.pass (step' w)) :=
  .change (fun _ => List.suffix_cons _ _) fun _ _ alike => ⟨alike.frames, alike.env, alike.ledger⟩

private theorem enter_shadows {setup : Setup φ ε} (silent : setup.before = none)
    (address : Address) (node node' : Json) :
    Shadows place (enter setup address node) (enter setup address node') := by
  unfold enter
  rw [silent]
  exact .bind (pass_shadows _ _) fun _ => .pure _

private theorem leave_shadows {setup : Setup φ ε} (silent : setup.after = none)
    (address : Address) (node node' : Json) :
    Shadows place (leave setup address node) (leave setup address node') := by
  unfold leave
  rw [silent]
  exact .bind (pass_shadows _ _) fun _ => .pure _

section Evaluation

variable [Callable φ ε] {setup : Setup φ ε} {inner : InnerRun φ}

private theorem evaluations_shadow {arguments arguments' : List Json} {address : Address}
    (lengths : arguments.length = arguments'.length)
    (inside : ∀ index argument argument', argumentAt? arguments index = some argument →
      argumentAt? arguments' index = some argument' →
        Shadows place (evaluate setup inner argument (index :: address))
          (evaluate setup inner argument' (index :: address))) (index : Nat) :
    Option.Rel (Shadows place) (argumentAt? (evaluations setup inner arguments address 1) index)
      (argumentAt? (evaluations setup inner arguments' address 1) index) := by
  rw [argumentAt?_evaluations, argumentAt?_evaluations]
  cases here : argumentAt? arguments index with
  | none =>
    have there : argumentAt? arguments' index = none := by
      cases index with
      | zero => rfl
      | succ index =>
        rw [argumentAt?, List.getElem?_eq_none_iff] at here ⊢
        omega
    rw [there]
    exact .none
  | some argument =>
    obtain ⟨argument', there⟩ : ∃ argument', argumentAt? arguments' index = some argument' := by
      cases index with
      | zero => cases here
      | succ index =>
        obtain ⟨bound, _⟩ := List.getElem?_eq_some_iff.mp here
        exact ⟨_, List.getElem?_eq_getElem (lengths ▸ bound)⟩
    rw [there]
    exact .some (inside index argument argument' here there)

private theorem evaluateCall_shadows
    (unread : setup.sandbox.EveryNative (Routine.Only (·.readsRaw = false)))
    {head : Json} {arguments arguments' : List Json} {address : Address}
    (atHead : Shadows place (evaluate setup inner head (0 :: address))
      (evaluate setup inner head (0 :: address)))
    (lengths : arguments.length = arguments'.length)
    (inside : ∀ index argument argument', argumentAt? arguments index = some argument →
      argumentAt? arguments' index = some argument' →
        Shadows place (evaluate setup inner argument (index :: address))
          (evaluate setup inner argument' (index :: address))) :
    Shadows place (evaluateCall setup inner (head :: arguments) address)
      (evaluateCall setup inner (head :: arguments') address) := by
  have depths : ∀ w v : World ε, w.Alike v → w.frames.length + 1 = v.frames.length + 1 :=
    fun _ _ alike => by rw [alike.frames]
  have fails (cause : Cause) :
      Shadows place (Run.fail cause : Run ε (Outcome φ)) (Run.fail cause) :=
    .look fun _ _ alike => congrArg Except.error (alike.failure_eq fun _ => cause)
  have served (native : Native φ ε) (asks : Routine.Only (·.readsRaw = false) native) :
      Shadows place
        (invoke setup inner arguments (evaluations setup inner arguments address 1) native)
        (invoke setup inner arguments' (evaluations setup inner arguments' address 1) native) :=
    invoke_shadows lengths (evaluations_shadow lengths inside) asks
  by_cases byName : ∃ name, head = .string name
  · obtain ⟨name, rfl⟩ := byName
    rw [evaluateCall, evaluateCall]
    refine .bind (.look depths) fun depth => .within _ ?_
    cases found : setup.sandbox.find? name with
    | none => exact fails _
    | some binding =>
      cases binding with
      | value v => exact .pure _
      | callable native => exact served native (unread.1 name native found)
  · have computes (name : String) : head ≠ .string name := fun same => byName ⟨name, same⟩
    rw [evaluateCall.eq_3 setup inner address head arguments computes,
      evaluateCall.eq_3 setup inner address head arguments' computes]
    refine .bind (.look depths) fun depth => .bind atHead fun outcome => ?_
    cases outcome with
    | error failure => exact .pure _
    | ok callee =>
      refine .within _ ?_
      cases callee with
      | function f => exact served _ (unread.2 f)
      | null | bool | number | text | list | object => exact fails _

section Nodes

variable {node node' : Json} {address : Address}

private theorem leaving_shadows (silent : setup.after = none)
    (entered : Shadows place (evaluateEntered setup inner node address)
      (evaluateEntered setup inner node' address)) :
    Shadows place (evaluateEntered setup inner node address >>= leaveWith setup address node)
      (evaluateEntered setup inner node' address >>= leaveWith setup address node') := by
  refine .bind entered fun outcome => ?_
  cases outcome with
  | ok v => exact .bind (leave_shadows silent address node node') fun _ => .pure _
  | error failure => exact .pure _

private theorem evaluate_shadows (before : setup.before = none) (after : setup.after = none)
    (entered : Shadows place (evaluateEntered setup inner node address)
      (evaluateEntered setup inner node' address)) :
    Shadows place (evaluate setup inner node address) (evaluate setup inner node' address) := by
  rw [evaluate_eq, evaluate_eq]
  exact .bind (enter_shadows before address node node') fun _ => leaving_shadows after entered

end Nodes

private theorem evaluateEntered_self (before : setup.before = none) (after : setup.after = none)
    (unread : setup.sandbox.EveryNative (Routine.Only (·.readsRaw = false)))
    (node : Json) (address : Address) :
    Shadows place (evaluateEntered setup inner node address)
      (evaluateEntered setup inner node address) := by
  have called {head : Json} {arguments : List Json} {address : Address}
      (atHead : Shadows place (evaluateEntered setup inner head (0 :: address))
        (evaluateEntered setup inner head (0 :: address)))
      (inside : ∀ index argument, argumentAt? arguments index = some argument →
        Shadows place (evaluateEntered setup inner argument (index :: address))
          (evaluateEntered setup inner argument (index :: address))) :
      Shadows place (evaluateEntered setup inner (.array (head :: arguments)) address)
        (evaluateEntered setup inner (.array (head :: arguments)) address) := by
    refine evaluateCall_shadows unread (evaluate_shadows before after atHead) rfl ?_
    intro index argument argument' here there
    obtain rfl := Option.some.inj (here.symm.trans there)
    exact evaluate_shadows before after (inside index argument here)
  induction node, address using script_induction with
  | literal node address literal =>
    rw [evaluateEntered_literal setup inner literal]
    exact .pure _
  | empty address =>
    rw [evaluateEntered, evaluateCall]
    exact .pure _
  | named name arguments address inside => exact called (.pure _) inside
  | computed head arguments address computes atHead inside => exact called atHead inside

private theorem evaluate_enters (before : setup.before = none) (after : setup.after = none)
    (unread : setup.sandbox.EveryNative (Routine.Only (·.readsRaw = false)))
    (node : Json) (address : Address) (w : World ε) :
    ¬ (evaluate setup inner node address w).2.Unentered address := by
  have entering : enter setup address node w =
      (.returned (), w.pass (.entered address node w.stack)) := by
    rw [enter, before]
    rfl
  have rest : Shadows address
      (evaluateEntered setup inner node address >>= leaveWith setup address node) _ :=
    leaving_shadows after (evaluateEntered_self before after unread node address)
  intro quiet
  rw [evaluate_eq, Run.bind_apply, entering] at quiet
  have here := quiet _ ((rest.grown _).subset List.mem_cons_self)
  simp [Passage.enters] at here

private theorem argument_replaced {first last : List Json} {old new argument argument' : Json}
    {index : Nat} (here : argumentAt? (first ++ old :: last) index = some argument)
    (there : argumentAt? (first ++ new :: last) index = some argument') :
    (index = first.length + 1 ∧ argument = old ∧ argument' = new) ∨ argument = argument' := by
  cases index with
  | zero => cases here
  | succ index =>
    rw [argumentAt?, List.getElem?_append] at here there
    split at here
    · rw [if_pos ‹_›] at there
      exact .inr (Option.some.inj (here.symm.trans there))
    · rw [if_neg ‹_›] at there
      cases position : index - first.length with
      | zero =>
        rw [position] at here there
        exact .inl ⟨by omega, (Option.some.inj here).symm, (Option.some.inj there).symm⟩
      | succ further =>
        rw [position] at here there
        exact .inr (Option.some.inj (here.symm.trans there))

private theorem fill_shadows (before : setup.before = none) (after : setup.after = none)
    (unread : setup.sandbox.EveryNative (Routine.Only (·.readsRaw = false)))
    (hole : Hole) (old new : Json) (root : Address) :
    Shadows (hole.address root) (evaluate setup inner (hole.fill old) root)
      (evaluate setup inner (hole.fill new) root) := by
  have self {place : Address} (node : Json) (address : Address) :
      Shadows place (evaluate setup inner node address) (evaluate setup inner node address) :=
    evaluate_shadows before after (evaluateEntered_self before after unread node address)
  induction hole generalizing root with
  | here =>
    -- Nothing is to be shown of the node in the hole: to evaluate it is to enter it.
    have alone : Shadows root (evaluate setup inner old root) _ := self old root
    refine ⟨alone.grown, fun w v alike quiet => ?_⟩
    exact absurd quiet (evaluate_enters before after unread old root w)
  | inside head first hole last ih =>
    refine evaluate_shadows before after (evaluateCall_shadows unread (self _ _) (by simp) ?_)
    intro index argument argument' here there
    rcases argument_replaced here there with ⟨rfl, rfl, rfl⟩ | rfl
    · exact ih _
    · exact self _ _

end Evaluation

private theorem liftPanic_shadows {m m' : Run ε (Outcome φ)} (body : Shadows place m m') :
    Shadows place (Context.liftPanic m) (Context.liftPanic m') := by
  refine .bind body.catchPanic fun caught => ?_
  cases caught with
  | ok outcome => exact .pure outcome
  | error payload =>
    refine .bind (.look fun _ _ alike => alike.stack_eq) fun stack => .bind ?_ fun _ => .pure _
    exact .change (fun _ => List.suffix_refl _) fun _ _ alike =>
      ⟨alike.frames, alike.env, congrArg (Ledger.record _) alike.ledger⟩

private theorem close_alike (c : Context φ ε) (ending : Ending (Outcome φ)) {w v : World ε}
    (alike : w.Alike v) : c.close (ending, w) = c.close (ending, v) := by
  cases ending with
  | returned outcome => simp only [Context.close, alike.env, alike.ledger]
  | unwound payload => simp only [Context.close, alike.env, alike.ledger, alike.frames]
  | exhausted => simp only [Context.close, alike.env, alike.ledger, alike.frames]

/-- Without hooks, and with natives that do not look at argument expressions, an argument that was
not evaluated may be replaced by any other: the run ends in the same way, with the same value or
failure, in the same environment and with the same events. -/
theorem unevaluated_argument_irrelevant [Callable φ ε] [Inhabited ε] (c : Context φ ε)
    (before : c.before = none) (after : c.after = none)
    (unread : c.sandbox.EveryNative (Routine.Only (·.readsRaw = false)))
    (hole : Hole) (old new : Json) (ledger : Ledger)
    (unevaluated : (c.trace (Context.innerRun c.sandbox Context.runLimit) (hole.fill old)
      ledger).2.Unentered (hole.address [])) :
    c.run (hole.fill new) ledger = c.run (hole.fill old) ledger := by
  let inner := Context.innerRun c.sandbox Context.runLimit
  let start : World ε := { env := c.env, ledger }
  let first := c.trace inner (hole.fill old) ledger
  let second := c.trace inner (hole.fill new) ledger
  have body : Shadows (hole.address []) (evaluate c.toSetup inner (hole.fill old) [])
      (evaluate c.toSetup inner (hole.fill new) []) :=
    fill_shadows before after unread hole old new []
  have whole : Shadows (hole.address []) (c.evaluation inner (hole.fill old))
      (c.evaluation inner (hole.fill new)) := by
    unfold Context.evaluation
    split
    · exact liftPanic_shadows body
    · exact body
  obtain ⟨ending, alike⟩ : first.1 = second.1 ∧ first.2.Alike second.2 :=
    whole.alike start start ⟨rfl, rfl, rfl⟩ unevaluated
  calc c.run (hole.fill new) ledger
    _ = c.close (second.1, second.2) := rfl
    _ = c.close (first.1, second.2) := by rw [ending]
    _ = c.close (first.1, first.2) := (close_alike c first.1 alike).symm
    _ = c.run (hole.fill old) ledger := rfl

/-- The argument that a native does not fall back on, below an argument that a function picks. -/
theorem untried_argument_irrelevant :
    let sandbox : Sandbox Probe.Closure Probe.Journal :=
      (Sandbox.empty.insertNative "try" Probe.orElse).insertNative "pick"
        (Probe.Closure.make (.argument · 1))
    let c := Context.ofSandbox sandbox {}
    let hole : Hole := .inside (.array [.string "pick"]) []
      (.inside (.string "try") [.string "kept"] .here []) [.array [.string "unbound"]]
    let old : Json := .null
    let new : Json := .array [.array [.string "unbound"]]
    (∃ c' ledger', c.run (hole.fill old) {} = (.returned (.ok (.text "kept")), c', ledger') ∧
      ledger'.events.length = 3) ∧
    c.run (hole.fill new) {} = c.run (hole.fill old) {} := by
  intro sandbox c hole old new
  have functions : ∀ f : Probe.Closure, Routine.Only (·.readsRaw = false)
      (Callable.code f : Native Probe.Closure Probe.Journal) :=
    Probe.Closure.code_only (fun _ _ => rfl) rfl rfl rfl
  have unread : c.sandbox.EveryNative (Routine.Only (·.readsRaw = false)) := by
    refine .insertNative (.insertNative (.empty functions) ?_ "try") ?_ "pick"
    · exact Probe.orElse_only fun _ _ => rfl
    · exact .bind (.request rfl) fun _ => .pure _
  have unevaluated : (c.trace (Context.innerRun c.sandbox Context.runLimit) (hole.fill old)
      {}).2.Unentered (hole.address []) := by
    unfold World.Unentered
    decide
  exact ⟨⟨_, _, rfl, rfl⟩, unevaluated_argument_irrelevant c rfl rfl unread hole old new {}
    unevaluated⟩

end JsonScript
