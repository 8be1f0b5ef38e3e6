import JsonScript.Proofs.Evaluation
import JsonScript.Proofs.Natives

/-!
Settings that no native can tell apart.

A setting acts on a script through its hooks, through what it binds the called names to, and
through its answers to natives. Two settings that agree in these evaluate the script alike, and
nothing else that they bind matters.
-/

set_option autoImplicit false
set_option relaxedAutoImplicit false

namespace JsonScript

open Evaluator

variable {φ ε α : Type}

mutual

/-- The names that stand first in an array. What stands in objects is no script. -/
def Json.calledNames : Json → List String
  | .array (.string name :: arguments) => name :: Json.calledNamesAmong arguments
  | .array items => Json.calledNamesAmong items
  | _ => []

def Json.calledNamesAmong : List Json → List String
  | [] => []
  | node :: rest => node.calledNames ++ Json.calledNamesAmong rest

end

private theorem calledNames_mem {nodes : List Json} {node : Json} (member : node ∈ nodes) :
    node.calledNames ⊆ Json.calledNamesAmong nodes := by
  induction nodes with
  | nil => cases member
  | cons first rest ih =>
    rw [Json.calledNamesAmong]
    rcases List.mem_cons.mp member with rfl | later
    · exact List.subset_append_left _ _
    · exact List.Subset.trans (ih later) (List.subset_append_right _ _)

private theorem calledNames_argument {arguments : List Json} {index : Nat} {argument : Json}
    (found : argumentAt? arguments index = some argument) (head : Json) :
    argument.calledNames ⊆ (Json.array (head :: arguments)).calledNames := by
  have member : argument ∈ arguments := by
    cases index with
    | zero => cases found
    | succ index => exact List.mem_of_getElem? found
  have among := calledNames_mem member
  cases head with
  | string name => exact List.Subset.trans among (List.subset_cons_self _ _)
  | null | bool | number | array | object =>
    exact List.Subset.trans among (List.subset_append_right _ _)

private theorem calledNames_head (head : Json) (arguments : List Json) :
    head.calledNames ⊆ (Json.array (head :: arguments)).calledNames := by
  cases head with
  | string name => exact List.nil_subset _
  | null | bool | number | array | object => exact List.subset_append_left _ _

private theorem perform_congr {answers others : (r : Request φ ε) → Run ε r.Reply}
    {allowed : Request φ ε → Prop} (same : ∀ r, allowed r → answers r = others r)
    {program : Program φ ε α} (only : program.Only allowed) :
    perform answers program = perform others program := by
  induction program with
  | done result => rfl
  | panic payload => rfl
  | ask request next ih =>
    have continued : (fun reply => perform answers (next reply)) =
        fun reply => perform others (next reply) := funext fun reply => ih reply (only.2 reply)
    rw [perform, perform, same request only.1, continued]

variable [Callable φ ε]

/-- Two settings with the same hooks evaluate a script alike, if they bind the names that it calls
alike and answer alike every request of the natives that it can reach. -/
theorem evaluate_congr (setup other : Setup φ ε) {inner inner' : InnerRun φ}
    {allowed : Request φ ε → Prop} (before : setup.before = other.before)
    (after : setup.after = other.after)
    (answers : ∀ r, allowed r → ∀ arguments evaluations,
      answer setup inner arguments evaluations r = answer other inner' arguments evaluations r)
    (functions : ∀ f : φ, Routine.Only allowed (Callable.code f : Native φ ε))
    (node : Json) (address : Address)
    (names : ∀ name ∈ node.calledNames,
      setup.sandbox.find? name = other.sandbox.find? name ∧
        ∀ native, setup.sandbox.find? name = some (.callable native) →
          Routine.Only allowed native) :
    evaluate setup inner node address = evaluate other inner' node address := by
  have entered (address : Address) (node : Json) :
      enter setup address node = enter other address node := by
    rw [enter, enter, before]
  have left (address : Address) (node : Json) :
      leave setup address node = leave other address node := by
    rw [leave, leave, after]
  have served {arguments : List Json} {address : Address}
      (inside : ∀ index argument, argumentAt? arguments index = some argument →
        evaluate setup inner argument (index :: address) =
          evaluate other inner' argument (index :: address))
      {native : Native φ ε} (asks : Routine.Only allowed native) :
      invoke setup inner arguments (evaluations setup inner arguments address 1) native =
        invoke other inner' arguments (evaluations other inner' arguments address 1) native := by
    have performed := perform_congr (fun r permitted =>
      answers r permitted arguments (evaluations other inner' arguments address 1)) asks
    rw [invoke, invoke, evaluations_congr inside, performed]
  induction node, address using script_induction with
  | literal node address literal =>
    rw [evaluate.eq_2 setup inner node address literal,
      evaluate.eq_2 other inner' node address literal, entered, left]
  | empty address => rw [evaluate, evaluate, entered, left, evaluateCall, evaluateCall]
  | named name arguments address inside =>
    obtain ⟨bound, asks⟩ := names name List.mem_cons_self
    have called : evaluateCall setup inner (.string name :: arguments) address =
        evaluateCall other inner' (.string name :: arguments) address := by
      rw [evaluateCall, evaluateCall, bound]
      cases found : other.sandbox.find? name with
      | none => rfl
      | some binding =>
        cases binding with
        | value v => rfl
        | callable native =>
          have alike := served (fun index argument found => inside index argument found
            fun name called => names name (calledNames_argument found _ called))
            (asks native (bound.trans found))
          simp only [alike]
    rw [evaluate, evaluate, entered, left, called]
  | computed head arguments address computes atHead inside =>
    have headed := atHead fun name called => names name (calledNames_head head arguments called)
    have called : evaluateCall setup inner (head :: arguments) address =
        evaluateCall other inner' (head :: arguments) address := by
      rw [evaluateCall.eq_3 setup inner address head arguments computes,
        evaluateCall.eq_3 other inner' address head arguments computes, headed]
      have alike (f : φ) := served (fun index argument found => inside index argument found
        fun name called => names name (calledNames_argument found _ called)) (functions f)
      simp only [alike]
    rw [evaluate, evaluate, entered, left, called]

end JsonScript
