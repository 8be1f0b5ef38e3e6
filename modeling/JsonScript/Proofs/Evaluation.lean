import JsonScript.Run

/-!
How evaluation proceeds.

The evaluations of the arguments of a call are the evaluations of the nodes at their addresses, so
a law about evaluation is proved node by node: of literals, of the empty call, of calls by name and
of calls with a computed head, given the law for every node inside.
-/

set_option autoImplicit false
set_option relaxedAutoImplicit false

namespace JsonScript

open Evaluator

variable {φ ε α β : Type}

def Ending.hasValue : Ending (Outcome φ) → Bool
  | .returned (.ok _) => true
  | _ => false

theorem Ending.hasValue_iff {ending : Ending (Outcome φ)} :
    ending.hasValue = true ↔ ∃ v, ending = .returned (.ok v) := by
  constructor
  · intro valued
    cases ending with
    | returned outcome =>
      cases outcome with
      | ok v => exact ⟨v, rfl⟩
      | error failure => cases valued
    | unwound payload => cases valued
    | exhausted => cases valued
  · rintro ⟨v, rfl⟩
    rfl

namespace Run

theorem bind_apply (m : Run ε α) (next : α → Run ε β) (w : World ε) :
    (m >>= next) w =
      match m w with
      | (.returned x, w') => next x w'
      | (.unwound payload, w') => (.unwound payload, w')
      | (.exhausted, w') => (.exhausted, w') := by
  change Run.bind m next w = _
  unfold Run.bind
  rcases m w with ⟨_ | _ | _, w'⟩ <;> rfl

theorem bind_cases {m : Run ε α} {next : α → Run ε β} {w : World ε}
    {motive : Ending β × World ε → Prop}
    (returned : ∀ x w', m w = (.returned x, w') → motive (next x w'))
    (unwound : ∀ payload w', m w = (.unwound payload, w') → motive (.unwound payload, w'))
    (exhausted : ∀ w', m w = (.exhausted, w') → motive (.exhausted, w')) :
    motive ((m >>= next) w) := by
  rw [bind_apply]
  split
  · exact returned _ _ ‹_›
  · exact unwound _ _ ‹_›
  · exact exhausted _ ‹_›

theorem bind_congr {m m' : Run ε α} {next next' : α → Run ε β} {w : World ε} (first : m w = m' w)
    (second : ∀ x w', m w = (.returned x, w') → next x w' = next' x w') :
    (m >>= next) w = (m' >>= next') w := by
  rw [bind_apply, bind_apply, ← first]
  split
  · exact second _ _ ‹_›
  · rfl
  · rfl

theorem within_cases {frame : Frame} {body : Run ε α} {w : World ε}
    {motive : Ending α × World ε → Prop}
    (returned : ∀ x w', body { w with frames := frame :: w.frames } = (.returned x, w') →
      motive (.returned x, { w' with frames := w'.frames.tail }))
    (unwound : ∀ payload w', body { w with frames := frame :: w.frames } = (.unwound payload, w') →
      motive (.unwound payload, w'))
    (exhausted : ∀ w', body { w with frames := frame :: w.frames } = (.exhausted, w') →
      motive (.exhausted, w')) :
    motive (Run.within frame body w) := by
  refine Run.bind_cases (m := Run.change _) ?_ (by rintro _ _ ⟨⟩) (by rintro _ ⟨⟩)
  rintro _ _ ⟨⟩
  exact Run.bind_cases returned unwound exhausted

theorem bind_returned {m : Run ε α} {next : α → Run ε β} {w w' : World ε} {y : β}
    (done : (m >>= next) w = (.returned y, w')) :
    ∃ x between, m w = (.returned x, between) ∧ next x between = (.returned y, w') := by
  rw [bind_apply] at done
  split at done
  · exact ⟨_, _, ‹_›, done⟩
  · cases done
  · cases done

theorem within_returned {frame : Frame} {body : Run ε α} {w w' : World ε} {x : α}
    (done : Run.within frame body w = (.returned x, w')) :
    ∃ inside, body { w with frames := frame :: w.frames } = (.returned x, inside) ∧
      w' = { inside with frames := inside.frames.tail } := by
  unfold Run.within at done
  obtain ⟨_, _, pushed, done⟩ := bind_returned done
  cases pushed
  obtain ⟨y, inside, step, done⟩ := bind_returned done
  obtain ⟨_, _, popped, done⟩ := bind_returned done
  cases popped
  cases done
  exact ⟨inside, step, rfl⟩

end Run

theorem perform_bind (answers : (r : Request φ ε) → Run ε r.Reply)
    (program : Program φ ε α) (next : α → Program φ ε β) (w : World ε) :
    perform answers (program >>= next) w =
      match perform answers program w with
      | (.returned x, u) => perform answers (next x) u
      | (.unwound payload, u) => (.unwound payload, u)
      | (.exhausted, u) => (.exhausted, u) := by
  induction program generalizing w with
  | done result => rfl
  | panic payload => rfl
  | ask request reply ih =>
    change (answers request >>= fun answer => perform answers (reply answer >>= next)) w = _
    rw [perform, Run.bind_apply, Run.bind_apply]
    rcases answers request w with ⟨x | payload | _, between⟩
    · exact ih x between
    · rfl
    · rfl

theorem Context.liftPanic_apply (body : Run ε (Outcome φ)) (w : World ε) :
    Context.liftPanic body w =
      match body w with
      | (.unwound payload, w') =>
        (.returned (.error ⟨.panic payload.message, w'.stack⟩),
          w'.record (.lifted payload.message w'.stack))
      | e => e := by
  unfold Context.liftPanic
  rw [Run.bind_apply, Run.catchPanic]
  rcases body w with ⟨_ | _ | _, w'⟩ <;> rfl

theorem Context.close_returned {c c' : Context φ ε} {e : Ending (Outcome φ) × World ε}
    {outcome : Outcome φ} {ledger : Ledger} (done : c.close e = (.returned outcome, c', ledger)) :
    ∃ w, e = (.returned outcome, w) ∧ c' = { c with env := w.env, frames := [] } ∧
      ledger = reportFailure outcome w.ledger := by
  obtain ⟨ending, w⟩ := e
  cases ending with
  | returned found =>
    cases done
    exact ⟨w, rfl, rfl, rfl⟩
  | unwound payload => cases done
  | exhausted => cases done

theorem Context.evaluation_returned [Callable φ ε] {c : Context φ ε} {inner : InnerRun φ}
    {script : Json} {w w' : World ε} {outcome : Outcome φ}
    (done : c.evaluation inner script w = (.returned outcome, w'))
    (ordinary : ∀ f, outcome = .error f → f.cause.isPanic = false) :
    evaluate c.toSetup inner script [] w = (.returned outcome, w') := by
  unfold Context.evaluation at done
  split at done
  · rw [Context.liftPanic_apply] at done
    split at done
    · cases done
      cases ordinary _ rfl
    · exact done
  · exact done

theorem Context.evaluation_of_calm [Callable φ ε] {c : Context φ ε} {inner : InnerRun φ}
    {script : Json} {w : World ε}
    (calm : ∀ payload, (evaluate c.toSetup inner script [] w).1 ≠ .unwound payload) :
    c.evaluation inner script w = evaluate c.toSetup inner script [] w := by
  unfold Context.evaluation
  split
  · rw [Context.liftPanic_apply]
    split
    · exact absurd (congrArg Prod.fst ‹_›) (calm _)
    · rfl
  · rfl

variable [Callable φ ε] (setup : Setup φ ε) (inner : InnerRun φ)

def evaluateEntered : Json → Address → Run ε (Outcome φ)
  | .array items, address => evaluateCall setup inner items address
  | literal, _ => return .ok (.ofJson literal)

def leaveWith (setup : Setup φ ε) (address : Address) (node : Json) :
    Outcome φ → Run ε (Outcome φ)
  | .ok v => do
    leave setup address node
    return .ok v
  | .error failure => return .error failure

theorem evaluate_eq (node : Json) (address : Address) :
    evaluate setup inner node address = (do
      enter setup address node
      evaluateEntered setup inner node address >>= leaveWith setup address node) := by
  cases node with
  | array items => exact evaluate.eq_1 ..
  | null | bool | number | string | object => exact evaluate.eq_2 _ _ _ _ (by rintro _ ⟨⟩)

theorem evaluateEntered_literal {node : Json} {address : Address}
    (literal : ∀ items, node ≠ .array items) :
    evaluateEntered setup inner node address = return .ok (.ofJson node) := by
  cases node with
  | array items => exact absurd rfl (literal items)
  | null | bool | number | string | object => rfl

private theorem evaluations_getElem? (arguments : List Json) (address : Address)
    (first index : Nat) :
    (evaluations setup inner arguments address first)[index]? =
      arguments[index]?.map fun argument =>
        evaluate setup inner argument ((first + index) :: address) := by
  induction arguments generalizing first index with
  | nil => simp [evaluations]
  | cons argument rest ih =>
    rw [evaluations]
    cases index with
    | zero => simp
    | succ index =>
      have shifted : first + 1 + index = first + (index + 1) := by omega
      rw [List.getElem?_cons_succ, List.getElem?_cons_succ, ih, shifted]

theorem argumentAt?_evaluations (arguments : List Json) (address : Address) (index : Nat) :
    argumentAt? (evaluations setup inner arguments address 1) index =
      (argumentAt? arguments index).map fun argument =>
        evaluate setup inner argument (index :: address) := by
  cases index with
  | zero => rfl
  | succ index => rw [argumentAt?, argumentAt?, evaluations_getElem?, Nat.add_comm]

theorem argument_of_evaluation {arguments : List Json} {address : Address} {index : Nat}
    {evaluation : Run ε (Outcome φ)}
    (found : argumentAt? (evaluations setup inner arguments address 1) index = some evaluation) :
    ∃ argument, argumentAt? arguments index = some argument ∧
      evaluate setup inner argument (index :: address) = evaluation := by
  rw [argumentAt?_evaluations] at found
  exact Option.map_eq_some_iff.mp found

theorem evaluation_of_argument {arguments : List Json} {address : Address} {index : Nat}
    {argument : Json} (taken : argumentAt? arguments index = some argument) :
    argumentAt? (evaluations setup inner arguments address 1) index =
      some (evaluate setup inner argument (index :: address)) := by
  rw [argumentAt?_evaluations, taken, Option.map_some]

theorem evaluations_congr {setup other : Setup φ ε} {inner inner' : InnerRun φ}
    {arguments : List Json} {address : Address}
    (same : ∀ index argument, argumentAt? arguments index = some argument →
      evaluate setup inner argument (index :: address) =
        evaluate other inner' argument (index :: address)) :
    evaluations setup inner arguments address 1 = evaluations other inner' arguments address 1 := by
  apply List.ext_getElem?
  intro index
  rw [evaluations_getElem?, evaluations_getElem?]
  cases found : arguments[index]? with
  | none => rfl
  | some argument =>
    have alike := same (index + 1) argument found
    rw [Option.map_some, Option.map_some, Nat.add_comm 1 index, alike]

/-- A law of nodes at addresses holds of a whole script when it holds of every node whose head, if
it is evaluated, and whose arguments obey it. -/
theorem script_induction {motive : Json → Address → Prop}
    (literal : ∀ (node : Json) (address : Address), (∀ items, node ≠ .array items) →
      motive node address)
    (empty : ∀ address : Address, motive (.array []) address)
    (named : ∀ (name : String) (arguments : List Json) (address : Address),
      (∀ index argument, argumentAt? arguments index = some argument →
        motive argument (index :: address)) →
      motive (.array (.string name :: arguments)) address)
    (computed : ∀ (head : Json) (arguments : List Json) (address : Address),
      (∀ name, head ≠ .string name) → motive head (0 :: address) →
      (∀ index argument, argumentAt? arguments index = some argument →
        motive argument (index :: address)) →
      motive (.array (head :: arguments)) address)
    (node : Json) (address : Address) : motive node address := by
  have numbered : ∀ (arguments : List Json) (address : Address),
      (∀ index argument, arguments[index]? = some argument →
        motive argument ((1 + index) :: address)) →
      ∀ index argument, argumentAt? arguments index = some argument →
        motive argument (index :: address) := by
    intro arguments address inside index argument found
    cases index with
    | zero => cases found
    | succ index =>
      have law := inside index argument found
      rwa [Nat.add_comm] at law
  refine evaluate.induct motive (fun items address => motive (.array items) address)
    (fun arguments address first => ∀ index argument, arguments[index]? = some argument →
      motive argument ((first + index) :: address))
    (fun items address call => call) literal empty ?_ ?_ ?_ ?_ node address
  · intro name arguments address inside
    exact named name arguments address (numbered arguments address inside)
  · intro head arguments address computes atHead inside
    exact computed head arguments address computes atHead (numbered arguments address inside)
  · intro address first index argument found
    cases found
  · intro argument rest address first here inside index other found
    cases index with
    | zero =>
      cases found
      exact here
    | succ index =>
      have law := inside index other found
      have shifted : first + 1 + index = first + (index + 1) := by omega
      rwa [shifted] at law

end JsonScript
