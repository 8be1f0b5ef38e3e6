import JsonScript.Proofs.Composition
import JsonScript.Proofs.FailureOrigin
import JsonScript.Proofs.Relocation

/-!
Operands, one after the other.

The natives `and`, `or`, `do` and `concat` evaluate their arguments from left to right and keep
something of the values so far, until a value decides the result or none is left. Two such natives
go together as long as what they keep is related and their operands go together.
-/

set_option autoImplicit false
set_option relaxedAutoImplicit false

namespace JsonScript

open Evaluator

variable {φ ε α β σ τ : Type}

/-- How the values of operands are put together: a value may decide the result at once, and what was
kept of all of them is finished in the end. -/
structure Fold (φ σ : Type) where
  start : σ
  step : σ → Value φ → Except (Value φ) σ
  finish : σ → Value φ

namespace Fold

/-- Evaluate operands one after the other. What is kept of all of them, or the outcome with which
one of them has ended it. -/
def pass (f : Fold φ σ) : σ → List (Run ε (Outcome φ)) → Run ε (Except (Outcome φ) σ)
  | s, [] => return .ok s
  | s, evaluation :: rest => do
    match ← evaluation with
    | .error failure => return .error (.error failure)
    | .ok v =>
      match f.step s v with
      | .error decided => return .error (.ok decided)
      | .ok t => f.pass t rest

def result (f : Fold φ σ) : Except (Outcome φ) σ → Outcome φ
  | .ok s => .ok (f.finish s)
  | .error outcome => outcome

theorem pass_append (f : Fold φ σ) (s : σ) (evaluations others : List (Run ε (Outcome φ))) :
    f.pass s (evaluations ++ others) = (do
      match ← f.pass s evaluations with
      | .error outcome => return .error outcome
      | .ok t => f.pass t others) := by
  induction evaluations generalizing s with
  | nil => rfl
  | cons evaluation rest ih =>
    funext w
    rw [List.cons_append, pass, pass, Run.bind_apply, Run.bind_apply, Run.bind_apply]
    generalize evaluation w = e
    obtain ⟨(failure | v) | payload | _, between⟩ := e
    · rfl
    · dsimp only
      cases f.step s v with
      | error decided => rfl
      | ok t =>
        dsimp only
        rw [ih, Run.bind_apply]
    · rfl
    · rfl

/-- Evaluate until a value has the deciding truth, and keep the last one. -/
def upTo (deciding : Bool) : Fold φ (Value φ) where
  start := .bool !deciding
  step _ v := if v.isTruthy = deciding then .error v else .ok v
  finish v := v

theorem upTo_decided {deciding : Bool} {v : Value φ} (decides : v.isTruthy = deciding)
    (s : Value φ) : (upTo deciding).step s v = .error v :=
  if_pos decides

theorem upTo_undecided {deciding : Bool} {v : Value φ} (undecided : v.isTruthy ≠ deciding)
    (s : Value φ) : (upTo deciding).step s v = .ok v :=
  if_neg undecided

def last : Fold φ (Value φ) where
  start := .null
  step _ v := .ok v
  finish v := v

def joined : Fold φ String where
  start := ""
  step s v := .ok (s ++ Boxes.plainText v)
  finish := .text

/-- The native evaluates its arguments one after the other and puts their values together. -/
def ServedBy (f : Fold φ σ) (native : Native φ ε) : Prop :=
  ∀ (setup : Setup φ ε) (inner : InnerRun φ) (arguments : List Json)
    (evaluations : List (Run ε (Outcome φ))), arguments.length = evaluations.length →
    perform (answer setup inner arguments evaluations) native.run =
      (do return f.result (← f.pass f.start evaluations))

end Fold

theorem Run.bind_pure (m : Run ε α) : (m >>= fun x => pure x) = m := by
  funext w
  rw [Run.bind_apply]
  rcases m w with ⟨x | payload | _, w'⟩ <;> rfl

section Performing

variable {answers : (r : Request φ ε) → Run ε r.Reply}

theorem perform_sequence (routine : Routine φ ε α) (next : α → Routine φ ε β) :
    perform answers (routine >>= next).run = (do
      match ← perform answers routine.run with
      | .ok x => perform answers (next x).run
      | .error failure => return .error failure) := by
  funext w
  change perform answers (routine.run >>= ExceptT.bindCont next) w = _
  rw [perform_bind, Run.bind_apply]
  rcases perform answers routine.run w with ⟨(failure | x) | payload | _, w'⟩ <;> rfl

theorem perform_map (view : α → β) (routine : Routine φ ε α) :
    perform answers (do return view (← routine) : Routine φ ε β).run =
      (do return (← perform answers routine.run).map view) := by
  rw [perform_sequence]
  funext w
  rw [Run.bind_apply, Run.bind_apply]
  rcases perform answers routine.run w with ⟨(failure | x) | payload | _, w'⟩ <;> rfl

variable {setup : Setup φ ε} {inner : InnerRun φ} {arguments : List Json}
  {evaluations : List (Run ε (Outcome φ))}

theorem perform_argument {index : Nat} {evaluation : Run ε (Outcome φ)}
    (found : argumentAt? evaluations index = some evaluation) :
    perform (answer setup inner arguments evaluations) (Call.argument index).run = evaluation := by
  have answered : answer setup inner arguments evaluations (.argument .any index) = evaluation := by
    simp only [answer, found]
    funext w
    rw [fetch, Run.bind_apply]
    rcases evaluation w with ⟨(failure | v) | payload | _, w'⟩ <;> rfl
  exact (Run.bind_pure _).trans answered

theorem perform_positions (next : List Nat → Routine φ ε α) :
    perform (answer setup inner arguments evaluations) (Call.positions 1 >>= next).run =
      perform (answer setup inner arguments evaluations)
        (next (List.range' 1 arguments.length)).run :=
  rfl

private theorem argumentAt?_append (done : List α) (x : α) (rest : List α) :
    argumentAt? (done ++ x :: rest) (done.length + 1) = some x := by
  simp [argumentAt?]

private theorem perform_evaluateUntil (deciding : Bool) (last : Value φ)
    (done rest : List (Run ε (Outcome φ))) :
    perform (answer setup inner arguments (done ++ rest))
        (Boxes.evaluateUntil deciding last (List.range' (done.length + 1) rest.length)).run =
      (do return (Fold.upTo deciding).result (← (Fold.upTo deciding).pass last rest)) := by
  induction rest generalizing done last with
  | nil => rfl
  | cons evaluation rest ih =>
    have shifted (v : Value φ) := ih v (done ++ [evaluation])
    simp only [List.append_assoc, List.singleton_append, List.length_append, List.length_cons,
      List.length_nil, Nat.zero_add] at shifted
    rw [List.length_cons, List.range'_succ, Boxes.evaluateUntil, perform_sequence,
      perform_argument (argumentAt?_append done evaluation rest)]
    funext w
    rw [Fold.pass, Run.bind_apply, Run.bind_apply, Run.bind_apply]
    rcases evaluation w with ⟨(failure | v) | payload | _, between⟩
    · rfl
    · dsimp only
      by_cases decides : v.isTruthy = deciding
      · rw [Fold.upTo_decided decides, if_pos decides]
        rfl
      · rw [Fold.upTo_undecided decides, if_neg decides]
        exact congrFun (shifted v) between
    · rfl
    · rfl

variable (setup inner arguments) in
private theorem perform_argumentsAt (f : Fold φ σ) {keep : σ → Value φ → σ}
    (undecided : ∀ s v, f.step s v = .ok (keep s v)) (s : σ)
    (done rest : List (Run ε (Outcome φ))) :
    (do
      return (← perform (answer setup inner arguments (done ++ rest))
        (Call.argumentsAt (List.range' (done.length + 1) rest.length)).run).map
          fun values => f.finish (values.foldl keep s)) =
      (do return f.result (← f.pass s rest)) := by
  induction rest generalizing done s with
  | nil => rfl
  | cons evaluation rest ih =>
    have shifted (s : σ) := ih s (done ++ [evaluation])
    simp only [List.append_assoc, List.singleton_append, List.length_append, List.length_cons,
      List.length_nil, Nat.zero_add] at shifted
    rw [List.length_cons, List.range'_succ, Call.argumentsAt, perform_sequence,
      perform_argument (argumentAt?_append done evaluation rest)]
    funext w
    rw [Fold.pass, Run.bind_apply, Run.bind_apply, Run.bind_apply, Run.bind_apply]
    rcases evaluation w with ⟨(failure | v) | payload | _, between⟩
    · rfl
    · have later := congrFun (shifted (keep s v)) between
      dsimp only
      rw [undecided]
      dsimp only
      refine Eq.trans ?_ later
      rw [perform_map, Run.bind_apply, Run.bind_apply]
      rcases perform _ (Call.argumentsAt _).run between with ⟨(failure | values) | payload | _, w'⟩
        <;> rfl
    · rfl
    · rfl

end Performing

namespace Fold

theorem upTo_servedBy_conjunction :
    (upTo false : Fold φ (Value φ)).ServedBy (Boxes.conjunction : Native φ ε) := by
  intro setup inner arguments evaluations lengths
  rw [Boxes.conjunction, perform_positions, lengths]
  exact perform_evaluateUntil false (.bool true) [] evaluations

theorem upTo_servedBy_disjunction :
    (upTo true : Fold φ (Value φ)).ServedBy (Boxes.disjunction : Native φ ε) := by
  intro setup inner arguments evaluations lengths
  rw [Boxes.disjunction, perform_positions, lengths]
  exact perform_evaluateUntil true (.bool false) [] evaluations

private theorem servedBy_of_arguments (f : Fold φ σ) (keep : σ → Value φ → σ)
    (undecided : ∀ s v, f.step s v = .ok (keep s v)) {view : List (Value φ) → Value φ}
    (finishes : ∀ values, view values = f.finish (values.foldl keep f.start)) :
    f.ServedBy (do return view (← Call.arguments) : Routine φ ε (Value φ)) := by
  intro setup inner arguments evaluations lengths
  obtain rfl : view = fun values => f.finish (values.foldl keep f.start) := funext finishes
  rw [perform_map, Call.arguments, perform_positions, lengths]
  exact perform_argumentsAt setup inner arguments f undecided f.start [] evaluations

private theorem foldl_last (values : List (Value φ)) (v : Value φ) :
    values.foldl (fun _ next => next) v = values.getLast?.getD v := by
  induction values generalizing v with
  | nil => rfl
  | cons first rest ih => rw [List.foldl_cons, ih, List.getLast?_cons, Option.getD_some]

theorem last_servedBy_sequence :
    (last : Fold φ (Value φ)).ServedBy (Boxes.sequence : Native φ ε) :=
  servedBy_of_arguments last (fun _ v => v) (fun _ _ => rfl) fun values =>
    (foldl_last values .null).symm

theorem joined_servedBy_concatenate :
    (joined : Fold φ String).ServedBy (Boxes.concatenate : Native φ ε) := by
  refine servedBy_of_arguments joined (fun s v => s ++ Boxes.plainText v) (fun _ _ => rfl) ?_
  intro values
  simp [joined, String.join, List.foldl_map]

end Fold

namespace Boxes

private theorem logic_documented : (logic : Sandbox φ ε).Documented :=
  ((((Sandbox.Documented.empty.publish _ _).insertNative _ _).insertNative _ _).insertNative
    _ _).insertNative _ _

private theorem strings_documented : (strings : Sandbox φ ε).Documented :=
  (Sandbox.Documented.empty.publish _ _).publish _ _

private theorem find?_strings (name : String) :
    (strings : Sandbox φ ε).find? name =
      if name = "len" then some (.callable measure)
      else if name = "concat" then some (.callable concatenate)
      else none := by
  have bound : (strings : Sandbox φ ε).find? name =
      ((Sandbox.empty.insertNative "concat" concatenate).insertNative "len" measure).find? name :=
    rfl
  rw [bound]
  split
  · rename_i len
    rw [len]
    exact Sandbox.find?_insert_self ..
  · rename_i len
    rw [Sandbox.insertNative, Sandbox.find?_insert_of_ne len]
    split
    · rename_i concat
      rw [concat]
      exact Sandbox.find?_insert_self ..
    · rename_i concat
      rw [Sandbox.insertNative, Sandbox.find?_insert_of_ne concat, Sandbox.find?_empty]

variable [BEq φ]

private theorem comparison_documented : (comparison : Sandbox φ ε).Documented :=
  ((((((Sandbox.Documented.empty.insertNative _ _).insertNative _ _).insertNative _ _).insertNative
    _ _).insertNative _ _).insertNative _ _)

private theorem find?_standard (name : String) :
    (standard : Sandbox φ ε).find? name =
      (strings.find? name).or
        ((logic.find? name).or ((comparison.find? name).or (arithmetic.find? name))) := by
  have merged : (standard : Sandbox φ ε) =
      ((arithmetic.merge comparison).merge logic).merge strings := rfl
  rw [merged, Sandbox.find?_merge _ strings_documented.sorted,
    Sandbox.find?_merge _ logic_documented.sorted,
    Sandbox.find?_merge _ comparison_documented.sorted]

theorem standard_concat :
    (standard : Sandbox φ ε).find? "concat" = some (.callable concatenate) := by
  rw [find?_standard, find?_strings]
  rfl

theorem standard_logic {name : String} {native : Native φ ε}
    (named : (name, native) ∈
      [("and", conjunction), ("or", disjunction), ("not", negation), ("do", sequence)]) :
    (standard : Sandbox φ ε).find? name = some (.callable native) := by
  rw [find?_standard, find?_strings]
  simp only [List.mem_cons, Prod.mk.injEq, List.not_mem_nil, or_false] at named
  rcases named with ⟨rfl, rfl⟩ | ⟨rfl, rfl⟩ | ⟨rfl, rfl⟩ | ⟨rfl, rfl⟩
  all_goals
    simp [logic, Sandbox.insertNative, Sandbox.find?_insert_of_ne]

theorem standard_arithmetic {name : String} {native : Native φ ε}
    (named : (name, native) ∈ [("+", add), ("*", multiply), ("-", subtract), ("/", divide)]) :
    (standard : Sandbox φ ε).find? name = some (.callable native) := by
  have published (g : Signature) (native : Native φ ε) (s : Sandbox φ ε) (name : String) :
      (s.publish g native).find? name = (s.insertNative g.name native).find? name := rfl
  rw [find?_standard, find?_strings]
  simp only [List.mem_cons, Prod.mk.injEq, List.not_mem_nil, or_false] at named
  rcases named with ⟨rfl, rfl⟩ | ⟨rfl, rfl⟩ | ⟨rfl, rfl⟩ | ⟨rfl, rfl⟩
  all_goals
    simp [logic, comparison, arithmetic, published, Sandbox.insertNative,
      Sandbox.find?_insert_of_ne]

end Boxes

theorem pure_idles {s : Station} {post : α → Prop} {x : α} (held : post x) :
    (pure x : Run ε α).Idles s post :=
  fun w _ => ⟨x, w, rfl, held, rfl, rfl, rfl, .nothing rfl⟩

theorem depth_idles (s : Station) :
    (Run.look fun w : World ε => w.frames.length + 1).Idles s (· = s.calls.length + 1) :=
  fun w here => ⟨_, w, rfl, congrArg (·.length + 1) here, rfl, rfl, rfl, .nothing rfl⟩

section Calls

variable [Callable φ ε] {setup : Setup φ ε} {inner : InnerRun φ} {cut : Prop} {l r : Station}
  (before : setup.before = none) (after : setup.after = none) {name : String} {native : Native φ ε}
  (bound : setup.sandbox.find? name = some (.callable native)) {arguments : List Json}
  {address : Address}

include before after bound

theorem call_left {Q : Outcome φ → β → List (Address × Address) → Prop} {m : Run ε β}
    (unwatched : address ∉ l.watched)
    (stamped : ∀ f current y visits, Q (.error f) y visits → Q (.error (f.stamp current)) y visits)
    (served : Together cut (l.under ⟨name, address.index, l.calls.length + 1⟩) r Q
      (perform (answer setup inner arguments (evaluations setup inner arguments address 1))
        native.run) m) :
    Together cut l r Q (evaluate setup inner (.array (.string name :: arguments)) address) m := by
  refine evaluate_left before after unwatched ?_
  rw [evaluateEntered, evaluateCall]
  refine .before_left (depth_idles l) ?_
  rintro _ rfl
  refine .within_left ?_
  rw [bound]
  refine .before_left (reportDispatch_idles _ _) fun _ _ => ?_
  refine served.after_left fun x y visits held w here => ?_
  obtain ⟨_, w', step, ⟨current, rfl⟩, idle⟩ := stamp_idles _ x w here
  refine ⟨_, w', step, ?_, idle⟩
  cases x with
  | ok v => exact held
  | error f => exact stamped f current y visits held

theorem call_right {Q : α → Outcome φ → List (Address × Address) → Prop} {m : Run ε α}
    (unwatched : address ∉ r.watched)
    (stamped : ∀ f current x visits, Q x (.error f) visits → Q x (.error (f.stamp current)) visits)
    (served : Together cut l (r.under ⟨name, address.index, r.calls.length + 1⟩) Q m
      (perform (answer setup inner arguments (evaluations setup inner arguments address 1))
        native.run)) :
    Together cut l r Q m (evaluate setup inner (.array (.string name :: arguments)) address) := by
  have swapped := call_left before after bound unwatched
    (fun f current x visits => stamped f current x (visits.map Prod.swap)) served.swap
  simpa using swapped.swap

section Folds

variable {f : Fold φ σ} (served : f.ServedBy native)

include served

theorem Fold.call_left {Q : Outcome φ → β → List (Address × Address) → Prop} {m : Run ε β}
    (unwatched : address ∉ l.watched)
    (stamped : ∀ f current y visits, Q (.error f) y visits → Q (.error (f.stamp current)) y visits)
    (inside : Together cut (l.under ⟨name, address.index, l.calls.length + 1⟩) r Q
      (do return f.result (← f.pass f.start (evaluations setup inner arguments address 1))) m) :
    Together cut l r Q (evaluate setup inner (.array (.string name :: arguments)) address) m := by
  refine JsonScript.call_left before after bound unwatched stamped ?_
  rw [served _ _ _ _ (evaluations_length arguments address 1).symm]
  exact inside

theorem Fold.call_right {Q : α → Outcome φ → List (Address × Address) → Prop} {m : Run ε α}
    (unwatched : address ∉ r.watched)
    (stamped : ∀ f current x visits, Q x (.error f) visits → Q x (.error (f.stamp current)) visits)
    (inside : Together cut l (r.under ⟨name, address.index, r.calls.length + 1⟩) Q m
      (do return f.result (← f.pass f.start (evaluations setup inner arguments address 1)))) :
    Together cut l r Q m (evaluate setup inner (.array (.string name :: arguments)) address) := by
  refine JsonScript.call_right before after bound unwatched stamped ?_
  rw [served _ _ _ _ (evaluations_length arguments address 1).symm]
  exact inside

end Folds

end Calls

/-- `Operands cut l r R evaluations others marks`: the evaluations are paired, and each pair goes
together with related values and one visit, of the pair of addresses in `marks`. -/
inductive Operands (cut : Prop) (l r : Station) (R : Value φ → Value φ → Prop) :
    List (Run ε (Outcome φ)) → List (Run ε (Outcome φ)) → List (Address × Address) → Prop where
  | nil : Operands cut l r R [] [] []
  | cons {evaluation other : Run ε (Outcome φ)} {mark : Address × Address}
      {evaluations others : List (Run ε (Outcome φ))} {marks : List (Address × Address)}
      (first : Together cut l r (fun x y visits => Akin R x y ∧ visits = [mark]) evaluation other)
      (rest : Operands cut l r R evaluations others marks) :
      Operands cut l r R (evaluation :: evaluations) (other :: others) (mark :: marks)

/-- Both go on with what is related, or both are decided with values that are. -/
inductive Concurs (T : α → α → Prop) (S : σ → τ → Prop) : Except α σ → Except α τ → Prop where
  | ok {s : σ} {t : τ} (held : S s t) : Concurs T S (.ok s) (.ok t)
  | error {x y : α} (decided : T x y) : Concurs T S (.error x) (.error y)

/-- Both have come to the end with what is related and have visited all marks, or both were ended
by an operand and have visited the marks up to it. -/
inductive Strides (S : σ → τ → Prop) (T : Value φ → Value φ → Prop)
    (marks : List (Address × Address)) :
    Except (Outcome φ) σ → Except (Outcome φ) τ → List (Address × Address) → Prop where
  | through {s : σ} {t : τ} (held : S s t) : Strides S T marks (.ok s) (.ok t) marks
  | stopped {x y : Outcome φ} {visits : List (Address × Address)} (akin : Akin T x y)
      (visited : visits <+: marks) : Strides S T marks (.error x) (.error y) visits

theorem Strides.after {S : σ → τ → Prop} {T : Value φ → Value φ → Prop}
    {marks visits : List (Address × Address)} {x : Except (Outcome φ) σ} {y : Except (Outcome φ) τ}
    (strides : Strides S T marks x y visits) (done : List (Address × Address)) :
    Strides S T (done ++ marks) x y (done ++ visits) := by
  cases strides with
  | through held => exact .through held
  | stopped akin visited => exact .stopped akin ((List.prefix_append_right_inj done).mpr visited)

/-- Two folds go together along operands that do. The relation of what they keep may depend on the
number of operands so far. -/
theorem Fold.pass_together {cut : Prop} {l r : Station} (f : Fold φ σ) (g : Fold φ τ)
    {R T : Value φ → Value φ → Prop} (S : Nat → σ → τ → Prop)
    (step : ∀ n s t u v, S n s t → R u v → Concurs T (S (n + 1)) (f.step s u) (g.step t v))
    {evaluations others : List (Run ε (Outcome φ))} {marks : List (Address × Address)}
    (operands : Operands cut l r R evaluations others marks) {n : Nat} {s : σ} {t : τ}
    (start : S n s t) :
    Together cut l r (Strides (S (n + marks.length)) T marks) (f.pass s evaluations)
      (g.pass t others) := by
  induction operands generalizing n s t with
  | nil => exact .pure (.through start)
  | @cons evaluation other mark evaluations others marks first rest ih =>
    refine first.bind ?_
    rintro x y _ ⟨akin, rfl⟩
    cases akin with
    | error same => exact .pure (.stopped (.error same) (by simp))
    | @ok u v related =>
      have onward := step n s t u v start related
      dsimp only
      generalize f.step s u = kept at onward ⊢
      generalize g.step t v = kept' at onward ⊢
      cases onward with
      | error decided => exact .pure (.stopped (.ok decided) (by simp))
      | ok held =>
        refine (ih held).mono fun _ _ later strides => ?_
        cases strides with
        | through held =>
          rw [Nat.add_right_comm] at held
          exact .through held
        | stopped akin visited => exact .stopped akin (List.cons_prefix_cons.mpr ⟨rfl, visited⟩)

theorem Fold.pass_append_together {cut : Prop} {l r : Station} {f : Fold φ σ} {g : Fold φ τ}
    {T : Value φ → Value φ → Prop} {S S' : σ → τ → Prop} {s : σ} {t : τ}
    {evaluations others later later' : List (Run ε (Outcome φ))}
    {marks rest : List (Address × Address)}
    (first : Together cut l r (Strides S T marks) (f.pass s evaluations) (g.pass t others))
    (second : ∀ s t, S s t →
      Together cut l r (Strides S' T rest) (f.pass s later) (g.pass t later')) :
    Together cut l r (Strides S' T (marks ++ rest)) (f.pass s (evaluations ++ later))
      (g.pass t (others ++ later')) := by
  rw [Fold.pass_append, Fold.pass_append]
  refine first.bind fun x y visits strides => ?_
  cases strides with
  | through held => exact (second _ _ held).mono fun _ _ _ strides => strides.after marks
  | stopped akin visited =>
    rw [← List.append_nil visits] at visited
    exact .pure (.stopped akin (visited.trans (List.prefix_append marks rest)))

/-- `Within R marks`: the outcomes are akin, and the visits are the first of the marks. -/
def Within (R : Value φ → Value φ → Prop) (marks : List (Address × Address)) (x y : Outcome φ)
    (visits : List (Address × Address)) : Prop :=
  Akin R x y ∧ visits <+: marks

namespace Within

variable {R : Value φ → Value φ → Prop} {marks visits : List (Address × Address)}
  {x y : Outcome φ} {f : Failure}

theorem stamp_left (within : Within R marks (.error f) y visits) (current : Stack) :
    Within R marks (.error (f.stamp current)) y visits :=
  ⟨within.1.stamp_left current, within.2⟩

theorem stamp_right (within : Within R marks x (.error f) visits) (current : Stack) :
    Within R marks x (.error (f.stamp current)) visits :=
  ⟨within.1.stamp_right current, within.2⟩

end Within

theorem Fold.result_together {cut : Prop} {l r : Station} (f : Fold φ σ) (g : Fold φ τ)
    {T R : Value φ → Value φ → Prop} {S : σ → τ → Prop} {marks : List (Address × Address)}
    {m : Run ε (Except (Outcome φ) σ)} {m' : Run ε (Except (Outcome φ) τ)}
    (finishes : ∀ s t, S s t → R (f.finish s) (g.finish t)) (decides : ∀ u v, T u v → R u v)
    (both : Together cut l r (Strides S T marks) m m') :
    Together cut l r (Within R marks) (do return f.result (← m)) (do return g.result (← m')) := by
  refine both.bind fun _ _ visits strides => .pure ?_
  rw [List.append_nil]
  cases strides with
  | through held => exact ⟨.ok (finishes _ _ held), List.prefix_refl _⟩
  | stopped akin visited => exact ⟨akin.mono decides, visited⟩

/-- The addresses of arguments of the call at an address, a number of them from a position on. -/
def argumentPlaces (address : Address) (first count : Nat) : List Address :=
  (List.range' first count).map (· :: address)

@[simp] theorem length_argumentPlaces (address : Address) (first count : Nat) :
    (argumentPlaces address first count).length = count := by
  simp [argumentPlaces]

theorem argumentPlaces_succ (address : Address) (first count : Nat) :
    argumentPlaces address first (count + 1) =
      (first :: address) :: argumentPlaces address (first + 1) count := by
  rw [argumentPlaces, List.range'_succ, List.map_cons]
  rfl

theorem argumentPlaces_add (address : Address) (first count more : Nat) :
    argumentPlaces address first (count + more) =
      argumentPlaces address first count ++ argumentPlaces address (first + count) more := by
  simp only [argumentPlaces, ← List.map_append]
  rw [List.range'_append_1]

theorem map_append_argumentPlaces (address below : Address) (first count : Nat) :
    (argumentPlaces below first count).map (· ++ address) =
      argumentPlaces (below ++ address) first count := by
  simp [argumentPlaces]

theorem mem_argumentPlaces {address place : Address} {first count : Nat} :
    place ∈ argumentPlaces address first count ↔
      ∃ index, (first ≤ index ∧ index < first + count) ∧ index :: address = place := by
  simp [argumentPlaces, List.mem_range'_1]

def Json.item? (index : Nat) : Json → Option Json
  | .array items => items[index]?
  | _ => none

def Json.node? (script : Json) : Address → Option Json
  | [] => some script
  | index :: address => (script.node? address).bind (Json.item? index)

def Json.Hosts (script : Json) (places : List Address) (nodes : List Json) : Prop :=
  places.map script.node? = nodes.map some

theorem Json.Hosts.append {script : Json} {places others : List Address} {nodes more : List Json}
    (first : script.Hosts places nodes) (second : script.Hosts others more) :
    script.Hosts (places ++ others) (nodes ++ more) := by
  rw [Hosts, List.map_append, List.map_append, first, second]

theorem Json.hosts_argumentPlaces {script : Json} {address : Address} {items : List Json}
    (call : script.node? address = some (.array items)) {nodes : List Json} {first : Nat}
    (there : nodes <+: items.drop first) :
    script.Hosts (argumentPlaces address first nodes.length) nodes := by
  induction nodes generalizing first with
  | nil => rfl
  | cons node nodes ih =>
    obtain ⟨rest, there⟩ := there
    have here : script.node? (first :: address) = some node := by
      rw [Json.node?, call, Option.bind_some, Json.item?, ← List.head?_drop, ← there]
      rfl
    have later : nodes <+: items.drop (first + 1) := by
      rw [← List.tail_drop, ← there]
      exact List.prefix_append nodes rest
    rw [Json.Hosts, List.length_cons, argumentPlaces_succ, List.map_cons, List.map_cons, here]
    exact congrArg (some node :: ·) (ih later)

def Station.Level (s : Station) (depth : Nat) : Prop :=
  ∀ place ∈ s.watched, place.length = depth

namespace Station.Level

variable {s : Station} {depth : Nat} (level : s.Level depth)

include level

theorem watches : ∀ place ∈ s.watched, s.Watches place := by
  refine fun place here => ⟨here, fun index other member below => ?_⟩
  have longer := below.length_le
  have same := level place here
  have same' := level other member
  rw [List.length_cons] at longer
  omega

theorem not_mem {place : Address} (elsewhere : place.length ≠ depth) : place ∉ s.watched :=
  fun member => elsewhere (level place member)

end Station.Level

theorem Station.Level.of_argumentPlaces {s : Station} {address : Address} {first count : Nat}
    (watched : s.watched = argumentPlaces address first count) : s.Level (address.length + 1) := by
  intro place member
  rw [watched] at member
  obtain ⟨index, _, rfl⟩ := mem_argumentPlaces.mp member
  rfl

theorem evaluations_append [Callable φ ε] (setup : Setup φ ε) (inner : InnerRun φ)
    (nodes others : List Json) (address : Address) (first : Nat) :
    evaluations setup inner (nodes ++ others) address first =
      evaluations setup inner nodes address first ++
        evaluations setup inner others address (first + nodes.length) := by
  induction nodes generalizing first with
  | nil => rfl
  | cons node rest ih =>
    rw [List.cons_append, evaluations, evaluations, ih, List.cons_append, List.length_cons,
      Nat.add_assoc, Nat.add_comm 1]

theorem operands_of_nodes [Callable φ ε] {setup : Setup φ ε} {inner : InnerRun φ}
    (before : setup.before = none) (after : setup.after = none) (steady : inner.Steady)
    (every : setup.sandbox.EveryNative Routine.Placeless) {l r : Station} (nodes : List Json)
    (a b : Address) (i j : Nat) (left : ∀ place ∈ argumentPlaces a i nodes.length, l.Watches place)
    (right : ∀ place ∈ argumentPlaces b j nodes.length, r.Watches place) :
    Operands inner.CutsOff l r Eq (evaluations setup inner nodes a i)
      (evaluations setup inner nodes b j)
      ((argumentPlaces a i nodes.length).zip (argumentPlaces b j nodes.length)) := by
  induction nodes generalizing i j with
  | nil => exact .nil
  | cons node rest ih =>
    rw [List.length_cons, argumentPlaces_succ] at left right
    obtain ⟨here, later⟩ := List.forall_mem_cons.mp left
    obtain ⟨there, later'⟩ := List.forall_mem_cons.mp right
    rw [List.length_cons, argumentPlaces_succ, argumentPlaces_succ, evaluations, evaluations]
    refine .cons ?_ (ih (i + 1) (j + 1) later later')
    exact evaluate_together before after steady every node here there

end JsonScript
