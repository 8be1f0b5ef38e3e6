import JsonScript.Proofs.Preservation
import JsonScript.Proofs.StackDiscipline

/-!
Evaluation visits a script.

Between the entry of a node and its leaving stand visits of its parts and nothing else, and it is
left just when it has a value. Leaving shows the calls that entering showed, because what happens
in between restores them.
-/

set_option autoImplicit false
set_option relaxedAutoImplicit false

namespace JsonScript

open Evaluator

variable {φ ε α : Type}

/-- The part of a node at a position that is evaluated for itself: the head of a call, unless it is
a name, or an argument. -/
def Json.part? : Nat → Json → Option Json
  | 0, .array (.string _ :: _) => none
  | 0, .array (head :: _) => some head
  | index + 1, .array (_ :: arguments) => argumentAt? arguments (index + 1)
  | _, _ => none

/-- The steps of one visit: a node is entered, something happens inside, and the node is left if it
has a value. -/
def visit (address : Address) (node : Json) (stack : Stack) (inside : List Passage)
    (valued : Bool) : List Passage :=
  .entered address node stack :: (inside ++ if valued then [.left address node stack] else [])

/-- An evaluation from a state took these steps, and gave a value or not. -/
structure Took (w : World ε) (e : Ending (Outcome φ) × World ε) (steps : List Passage)
    (valued : Bool) : Prop where
  passages : e.2.passages = steps.reverse ++ w.passages
  value : e.1.hasValue = valued

/-- The steps are visits, one after the other, of parts of the node; each is what an evaluation of
the part took, with visits of parts of the part inside. -/
inductive Visits [Callable φ ε] (setup : Setup φ ε) (inner : InnerRun φ) :
    Json → Address → List Passage → Prop where
  | none {node : Json} {address : Address} : Visits setup inner node address []
  | more {node part : Json} {address : Address} {position : Nat} {w : World ε}
      {inside later : List Passage} {valued : Bool}
      (started : node.part? position = some part)
      (nested : Visits setup inner part (position :: address) inside)
      (took : Took w (evaluate setup inner part (position :: address) w)
        (visit (position :: address) part w.stack inside valued) valued)
      (rest : Visits setup inner node address later) :
      Visits setup inner node address
        (visit (position :: address) part w.stack inside valued ++ later)

def Passage.address : Passage → Address
  | .entered address _ _ => address
  | .left address _ _ => address

def Passage.isEntry : Passage → Bool
  | .entered .. => true
  | .left .. => false

namespace Visits

variable [Callable φ ε] {setup : Setup φ ε} {inner : InnerRun φ} {node : Json} {address : Address}

theorem append {steps others : List Passage} (first : Visits setup inner node address steps)
    (second : Visits setup inner node address others) :
    Visits setup inner node address (steps ++ others) := by
  induction first with
  | none => exact second
  | more started nested took rest _ ih =>
    rw [List.append_assoc]
    exact .more started nested took (ih second)

theorem deeper {steps : List Passage} (visits : Visits setup inner node address steps) :
    ∀ p ∈ steps, address.length < p.address.length := by
  induction visits with
  | none => simp
  | @more node part address position w inside later valued started nested took rest ih ihRest =>
    intro p member
    have inner : ∀ p ∈ visit (position :: address) part w.stack inside valued,
        address.length < p.address.length := by
      intro p member
      rcases List.mem_cons.mp member with rfl | member
      · exact Nat.lt_succ_self _
      · rcases List.mem_append.mp member with below | last
        · exact Nat.lt_of_succ_lt (ih p below)
        · cases valued with
          | true =>
            obtain rfl := List.mem_singleton.mp last
            exact Nat.lt_succ_self _
          | false => cases last
    rcases List.mem_append.mp member with here | after
    · exact inner p here
    · exact ihRest p after

end Visits

theorem visit_getLast? {steps : List Passage} (script : Json) (stack : Stack) (valued : Bool)
    (deeper : ∀ p ∈ steps, 0 < p.address.length) :
    (visit [] script stack steps valued).getLast? = some (.left [] script stack) ↔
      valued = true := by
  cases valued with
  | true => simp [visit, List.getLast?_cons]
  | false =>
    refine ⟨fun last => ?_, fun valued => nomatch valued⟩
    have member := List.mem_of_getLast? last
    simp only [visit, Bool.false_eq_true, if_false, List.append_nil] at member
    rcases List.mem_cons.mp member with same | below
    · cases same
    · exact absurd (deeper _ below) (Nat.lt_irrefl 0)

def Calm (hook : Option (Hook ε)) : Prop :=
  ∀ h ∈ hook, ∀ view node, (h view node).panic = none

theorem calm_none : Calm (none : Option (Hook ε)) :=
  fun _ hook => nomatch hook

theorem tell_state (h : Hook ε) (node : Json) (w : World ε) :
    (Evaluator.tell (some h) node w).2 = { w with env := (h ⟨w.env, w.stack⟩ node).env } := by
  unfold Evaluator.tell
  dsimp only
  split
  · rfl
  · rfl

theorem tell_ends (hook : Option (Hook ε)) (node : Json) (w : World ε) :
    ∃ env, (Evaluator.tell hook node w).2 = { w with env } ∧
      (Calm hook → (Evaluator.tell hook node w).1 = .returned ()) := by
  cases hook with
  | none => exact ⟨w.env, rfl, fun _ => rfl⟩
  | some h =>
    refine ⟨_, tell_state h node w, fun calm => ?_⟩
    simp only [Evaluator.tell, calm h rfl]

theorem enter_passes (setup : Setup φ ε) (address : Address) (node : Json) (w : World ε) :
    ∃ env, (enter setup address node w).2 =
        { w.pass (.entered address node w.stack) with env } ∧
      (Calm setup.before → (enter setup address node w).1 = .returned ()) :=
  tell_ends setup.before node (w.pass (.entered address node w.stack))

theorem leave_passes (setup : Setup φ ε) (address : Address) (node : Json) (w : World ε) :
    ∃ env, (leave setup address node w).2 = { w.pass (.left address node w.stack) with env } ∧
      (Calm setup.after → (leave setup address node w).1 = .returned ()) :=
  tell_ends setup.after node (w.pass (.left address node w.stack))

section Evaluation

variable [Callable φ ε] {setup : Setup φ ε} {inner : InnerRun φ}

private def Roams (setup : Setup φ ε) (inner : InnerRun φ) (node : Json) (address : Address)
    (w w' : World ε) : Prop :=
  ∃ steps, w'.passages = steps.reverse ++ w.passages ∧ Visits setup inner node address steps

private theorem roams_law (setup : Setup φ ε) (inner : InnerRun φ) (node : Json)
    (address : Address) : StepLaw (Roams setup inner node address) where
  trans := by
    rintro w between w' ⟨steps, grown, visits⟩ ⟨others, grown', visits'⟩
    exact ⟨steps ++ others, by simp [grown, grown'], visits.append visits'⟩
  frames w frames := ⟨[], rfl, .none⟩
  ledger w ledger := ⟨[], rfl, .none⟩

def Visited (setup : Setup φ ε) (inner : InnerRun φ) (node : Json) (address : Address)
    (w : World ε) (e : Ending (Outcome φ) × World ε) : Prop :=
  ∃ inside valued, Visits setup inner node address inside ∧
    Took w e (visit address node w.stack inside valued) valued

private theorem roams_of_part {node part : Json} {address : Address} {position : Nat}
    (started : node.part? position = some part)
    (visited : ∀ w, Visited setup inner part (position :: address) w
      (evaluate setup inner part (position :: address) w)) :
    (evaluate setup inner part (position :: address)).Keeps (Roams setup inner node address) := by
  intro w
  obtain ⟨inside, valued, nested, took⟩ := visited w
  refine ⟨_, took.passages, ?_⟩
  have alone := Visits.more started nested took .none
  rwa [List.append_nil] at alone

private theorem visited_of_entered (calm : Calm setup.after) {node : Json} {address : Address}
    (keeps : ∀ w, KeepsCalls w (evaluateEntered setup inner node address w))
    (roams : (evaluateEntered setup inner node address).Keeps (Roams setup inner node address))
    (w : World ε) :
    Visited setup inner node address w (evaluate setup inner node address w) := by
  obtain ⟨env, passed, _⟩ := enter_passes setup address node w
  let start : World ε := { w.pass (.entered address node w.stack) with env }
  -- Without a value the way ends where the parts left it.
  have stopped {inside : List Passage} (visits : Visits setup inner node address inside)
      {ending : Ending (Outcome φ)} (without : ending.hasValue = false) {w' : World ε}
      (grown : w'.passages = inside.reverse ++ start.passages) :
      Visited setup inner node address w (ending, w') := by
    refine ⟨inside, false, visits, ?_, without⟩
    simp [grown, start, World.pass, visit]
  rw [evaluate_eq]
  refine Run.bind_cases (motive := Visited setup inner node address w) ?_ ?_ ?_
  · intro _ entered step
    rw [step] at passed
    obtain rfl : entered = start := passed
    obtain ⟨inside, grown, visits⟩ := roams start
    have restores := keeps start
    refine Run.bind_cases (motive := Visited setup inner node address w) ?_ ?_ ?_
    · intro outcome called step
      rw [step] at grown restores
      cases outcome with
      | error failure => exact stopped visits rfl grown
      | ok v =>
        have same : called.stack = w.stack := congrArg Stack.mk (restores.restored _ rfl)
        obtain ⟨env', passed, returned⟩ := leave_passes setup address node called
        have left : leave setup address node called = (.returned (), _) :=
          Prod.ext (returned calm) passed
        have passages : called.passages = inside.reverse ++ start.passages := grown
        rw [leaveWith, Run.bind_apply, left, same]
        refine ⟨inside, true, visits, ?_, rfl⟩
        simp [pure, Run.pure, World.pass, passages, start, visit]
    · intro payload called step
      rw [step] at grown
      exact stopped visits rfl grown
    · intro called step
      rw [step] at grown
      exact stopped visits rfl grown
  · intro payload w' step
    rw [step] at passed
    obtain rfl : w' = start := passed
    exact stopped .none rfl rfl
  · intro w' step
    rw [step] at passed
    obtain rfl : w' = start := passed
    exact stopped .none rfl rfl

theorem evaluate_visited (innerLeveled : inner.SeesLeveled)
    (passes : setup.sandbox.EveryNative (Routine.Only (·.catchesPanic = false)))
    (calm : Calm setup.after) (node : Json) (address : Address) (w : World ε) :
    Visited setup inner node address w (evaluate setup inner node address w) := by
  have keeps := evaluateEntered_keepsCalls setup innerLeveled passes
  have called {head : Json} {arguments : List Json} {address : Address}
      (atHead : (∀ name, head ≠ .string name) → (evaluate setup inner head (0 :: address)).Keeps
        (Roams setup inner (.array (head :: arguments)) address))
      (inside : ∀ index argument, argumentAt? arguments index = some argument → ∀ w,
        Visited setup inner argument (index :: address) w
          (evaluate setup inner argument (index :: address) w)) :
      (evaluateEntered setup inner (.array (head :: arguments)) address).Keeps
        (Roams setup inner (.array (head :: arguments)) address) := by
    have law := roams_law setup inner (.array (head :: arguments)) address
    refine law.keeps.evaluateCall_lawful (law.serveInner_keeps inner) ?_ passes atHead ?_
    · exact fun env _ w => ⟨[], rfl, .none⟩
    · intro index argument found
      refine roams_of_part ?_ (inside index argument found)
      cases index with
      | zero => cases found
      | succ index => exact found
  induction node, address using script_induction generalizing w with
  | literal node address literal =>
    refine visited_of_entered calm (keeps node address) ?_ w
    rw [evaluateEntered_literal setup inner literal]
    exact (roams_law setup inner node address).keeps.pure _
  | empty address =>
    refine visited_of_entered calm (keeps (.array []) address) ?_ w
    rw [evaluateEntered, evaluateCall]
    exact (roams_law setup inner _ address).keeps.pure _
  | named name arguments address inside =>
    refine visited_of_entered calm (keeps _ _) (called ?_ inside) w
    exact fun computes => absurd rfl (computes name)
  | computed head arguments address computes atHead inside =>
    refine visited_of_entered calm (keeps _ _) (called ?_ inside) w
    refine fun _ => roams_of_part ?_ atHead
    cases head with
    | string name => exact absurd rfl (computes name)
    | null | bool | number | array | object => rfl

end Evaluation

end JsonScript
