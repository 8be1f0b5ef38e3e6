import JsonScript.Proofs.Connectives

/-!
Nested calls of one operator.

A call of `and`, `or`, `do` or `concat` whose operand is a call of the same operator does what the
call does that has the inner operands in place of the inner call. The operators are folds, and what
is kept of the inner operands can be put onto what was kept of the outer ones before.
-/

set_option autoImplicit false
set_option relaxedAutoImplicit false

namespace JsonScript

open Evaluator

variable {φ ε σ : Type}

namespace Fold

/-- What is kept of some operands after others can be computed from what is kept of each part, and
the result of a part stands for the part. -/
structure Associative (f : Fold φ σ) (combine : σ → σ → σ) : Prop where
  first : ∀ s v, f.step s v = (f.step f.start v).map (combine s)
  later : ∀ s t v, f.step (combine s t) v = (f.step t v).map (combine s)
  absorbed : ∀ s t u v, f.step u v = .ok t → f.step s (f.finish t) = .ok (combine s t)
  decided : ∀ s u v x, f.step u v = .error x → f.step s x = .error x

def Neutral (f : Fold φ σ) : Prop :=
  ∀ s, f.step s (f.finish f.start) = .ok s

theorem upTo_associative (deciding : Bool) :
    (upTo deciding : Fold φ (Value φ)).Associative fun _ t => t where
  first s v := by
    by_cases decides : v.isTruthy = deciding
    · rw [upTo_decided decides, upTo_decided decides]
      rfl
    · rw [upTo_undecided decides, upTo_undecided decides]
      rfl
  later s t v := by
    by_cases decides : v.isTruthy = deciding
    · rw [upTo_decided decides]
      rfl
    · rw [upTo_undecided decides]
      rfl
  absorbed s t u v kept := by
    by_cases decides : v.isTruthy = deciding
    · rw [upTo_decided decides] at kept
      cases kept
    · rw [upTo_undecided decides] at kept
      cases kept
      exact upTo_undecided decides s
  decided s u v x ended := by
    by_cases decides : v.isTruthy = deciding
    · rw [upTo_decided decides] at ended
      cases ended
      exact upTo_decided decides s
    · rw [upTo_undecided decides] at ended
      cases ended

theorem last_associative : (last : Fold φ (Value φ)).Associative fun _ t => t where
  first _ _ := rfl
  later _ _ _ := rfl
  absorbed _ _ _ _ _ := rfl
  decided _ _ _ _ ended := nomatch ended

theorem joined_associative : (joined : Fold φ String).Associative (· ++ ·) where
  first s v := by simp [joined, Except.map]
  later s t v := by simp [joined, Except.map, String.append_assoc]
  absorbed _ _ _ _ _ := rfl
  decided _ _ _ _ ended := nomatch ended

theorem joined_neutral : (joined : Fold φ String).Neutral :=
  fun _ => congrArg Except.ok String.append_empty

end Fold

theorem Boxes.standard_associative [BEq φ] {name : String}
    (named : name ∈ ["and", "or", "do", "concat"]) :
    ∃ (σ : Type) (f : Fold φ σ) (combine : σ → σ → σ) (native : Native φ ε),
      (Boxes.standard : Sandbox φ ε).find? name = some (.callable native) ∧ f.ServedBy native ∧
        f.Associative combine ∧ (name = "concat" → f.Neutral) := by
  simp only [List.mem_cons, List.not_mem_nil, or_false] at named
  rcases named with rfl | rfl | rfl | rfl
  · exact ⟨_, _, _, _, Boxes.standard_logic (by simp), Fold.upTo_servedBy_conjunction,
      Fold.upTo_associative false, by simp⟩
  · exact ⟨_, _, _, _, Boxes.standard_logic (by simp), Fold.upTo_servedBy_disjunction,
      Fold.upTo_associative true, by simp⟩
  · exact ⟨_, _, _, _, Boxes.standard_logic (by simp), Fold.last_servedBy_sequence,
      Fold.last_associative, by simp⟩
  · exact ⟨_, _, _, _, Boxes.standard_concat, Fold.joined_servedBy_concatenate,
      Fold.joined_associative, fun _ => Fold.joined_neutral⟩

/-- `Absorbed f s marks`: to have gone on from `s` with the value of the nested call is to have gone
on from `s` along its operands. -/
inductive Absorbed (f : Fold φ σ) (s : σ) (marks : List (Address × Address)) :
    Outcome φ → Except (Outcome φ) σ → List (Address × Address) → Prop where
  | kept {v : Value φ} {t : σ} (step : f.step s v = .ok t) :
      Absorbed f s marks (.ok v) (.ok t) marks
  | decided {v : Value φ} {visits : List (Address × Address)} (step : f.step s v = .error v)
      (visited : visits <+: marks) : Absorbed f s marks (.ok v) (.error (.ok v)) visits
  | failed {x y : Failure} {visits : List (Address × Address)} (same : x.cause = y.cause)
      (visited : visits <+: marks) : Absorbed f s marks (.error x) (.error (.error y)) visits

private def Onto (f : Fold φ σ) (combine : σ → σ → σ) (s : σ) : Nat → σ → σ → Prop
  -- Apart from the others: what `and`, `or` and `do` start with is not neutral.
  | 0, t, u => t = f.start ∧ u = s
  | _ + 1, t, u => (∃ x v, f.step x v = .ok t) ∧ u = combine s t

section Nested

variable {f : Fold φ σ} {combine : σ → σ → σ} (law : f.Associative combine)

include law

private theorem Onto.step {s : σ} {n : Nat} {t u : σ} (onto : Onto f combine s n t u)
    (v : Value φ) :
    Concurs (fun x y => x = y ∧ f.step s x = .error x) (Onto f combine s (n + 1)) (f.step t v)
      (f.step u v) := by
  have goesOn : f.step u v = (f.step t v).map (combine s) := by
    cases n with
    | zero =>
      obtain ⟨rfl, rfl⟩ := onto
      exact law.first u v
    | succ n =>
      obtain ⟨_, rfl⟩ := onto
      exact law.later s t v
  rw [goesOn]
  cases kept : f.step t v with
  | error x => exact .error ⟨rfl, law.decided s t v x kept⟩
  | ok t' => exact .ok ⟨⟨t, v, kept⟩, rfl⟩

private theorem Onto.finish {s : σ} {n : Nat} {t u : σ} (onto : Onto f combine s n t u)
    (empty : n = 0 → f.Neutral) : f.step s (f.finish t) = .ok u := by
  cases n with
  | zero =>
    obtain ⟨rfl, rfl⟩ := onto
    exact empty rfl u
  | succ n =>
    obtain ⟨⟨x, v, kept⟩, rfl⟩ := onto
    exact law.absorbed s t x v kept

variable [Callable φ ε] {setup : Setup φ ε} {inner : InnerRun φ} {cut : Prop} {l r : Station}
  (before : setup.before = none) (after : setup.after = none) {name : String} {native : Native φ ε}
  (bound : setup.sandbox.find? name = some (.callable native)) (served : f.ServedBy native)

include before after bound served

theorem Fold.nested_together {nodes : List Json} {address : Address}
    (unwatched : address ∉ l.watched) {others : List (Run ε (Outcome φ))}
    {marks : List (Address × Address)}
    (operands : Operands cut (l.under ⟨name, address.index, l.calls.length + 1⟩) r Eq
      (evaluations setup inner nodes address 1) others marks)
    (empty : marks.length = 0 → f.Neutral) (s : σ) :
    Together cut l r (Absorbed f s marks)
      (evaluate setup inner (.array (.string name :: nodes)) address) (f.pass s others) := by
  refine Fold.call_left before after bound served unwatched ?_ ?_
  · intro failure current y visits absorbed
    cases absorbed with
    | failed same visited => exact .failed ((failure.stamp_cause current).trans same) visited
  have step (n : Nat) (t u : σ) (v v' : Value φ) (onto : Onto f combine s n t u) (same : v = v') :
      Concurs (fun x y => x = y ∧ f.step s x = .error x) (Onto f combine s (n + 1)) (f.step t v)
        (f.step u v') := by
    subst same
    exact onto.step law v
  have passes := Fold.pass_together f f (Onto f combine s) step operands (n := 0) ⟨rfl, rfl⟩
  rw [Nat.zero_add] at passes
  refine passes.after_left fun x y visits strides => pure_idles ?_
  cases strides with
  | through onto => exact .kept (onto.finish law empty)
  | stopped akin visited =>
    cases akin with
    | error same => exact .failed same visited
    | ok ends =>
      obtain ⟨rfl, ends⟩ := ends
      exact .decided ends visited

end Nested

theorem Fold.pass_flattened {cut : Prop} {l r : Station} (f : Fold φ σ)
    {xs xs' ys' zs zs' : List (Run ε (Outcome φ))} {nested : Run ε (Outcome φ)}
    {marks inside rest : List (Address × Address)} (first : Operands cut l r Eq xs xs' marks)
    (absorbed : ∀ s, Together cut l r (Absorbed f s inside) nested (f.pass s ys'))
    (last : Operands cut l r Eq zs zs' rest) (start : σ) :
    Together cut l r (Strides Eq Eq (marks ++ (inside ++ rest)))
      (f.pass start (xs ++ nested :: zs)) (f.pass start (xs' ++ (ys' ++ zs'))) := by
  have step (_ : Nat) (s s' : σ) (v v' : Value φ) (kept : s = s') (same : v = v') :
      Concurs Eq Eq (f.step s v) (f.step s' v') := by
    subst kept same
    cases f.step s v with
    | error x => exact .error rfl
    | ok t => exact .ok rfl
  refine Fold.pass_append_together (Fold.pass_together f f (fun _ => Eq) step first (n := 0) rfl) ?_
  rintro s _ rfl
  rw [Fold.pass_append, Fold.pass]
  refine (absorbed s).bind fun x y visits held => ?_
  have early (visited : visits <+: inside) : visits ++ [] <+: inside ++ rest := by
    rw [List.append_nil]
    exact visited.trans (List.prefix_append inside rest)
  cases held with
  | failed same visited => exact .pure (.stopped (.error same) (early visited))
  | decided ends visited =>
    dsimp only
    rw [ends]
    exact .pure (.stopped (.ok rfl) (early visited))
  | kept goesOn =>
    dsimp only
    rw [goesOn]
    refine (Fold.pass_together f f (fun _ => Eq) step last (n := 0) rfl).mono ?_
    exact fun _ _ _ strides => strides.after inside

/-- The addresses of operands before, inside and after a nested call, which is an argument of the
call at the address. -/
def nestedPlaces (address : Address) (before inside after : Nat) : List Address :=
  argumentPlaces address 1 before ++
    (argumentPlaces ((1 + before) :: address) 1 inside ++
      argumentPlaces address (1 + before + 1) after)

private theorem mem_nestedPlaces {address place : Address} {before inside after : Nat}
    (member : place ∈ nestedPlaces address before inside after) :
    (∃ index, index ≠ 1 + before ∧ place = index :: address) ∨
      ∃ index, place = index :: (1 + before) :: address := by
  simp only [nestedPlaces, List.mem_append, mem_argumentPlaces] at member
  rcases member with ⟨index, range, rfl⟩ | ⟨index, range, rfl⟩ | ⟨index, range, rfl⟩
  · exact .inl ⟨index, by omega, rfl⟩
  · exact .inr ⟨index, rfl⟩
  · exact .inl ⟨index, by omega, rfl⟩

private theorem watches_nestedPlaces {s : Station} {address place : Address}
    {before inside after : Nat} (watched : s.watched = nestedPlaces address before inside after)
    (member : place ∈ nestedPlaces address before inside after) : s.Watches place := by
  refine ⟨watched ▸ member, fun index other member' below => ?_⟩
  rw [watched] at member'
  have longer := below.length_le
  rcases mem_nestedPlaces member with ⟨i, apart, rfl⟩ | ⟨i, rfl⟩ <;>
    rcases mem_nestedPlaces member' with ⟨j, _, rfl⟩ | ⟨j, rfl⟩ <;>
    simp only [List.length_cons] at longer
  · omega
  · have same := below.eq_of_length rfl
    simp only [List.cons.injEq] at same
    exact apart same.2.1
  · omega
  · omega

private theorem not_mem_nestedPlaces (address : Address) (before inside after : Nat) :
    address ∉ nestedPlaces address before inside after ∧
      (1 + before) :: address ∉ nestedPlaces address before inside after := by
  constructor
  · intro member
    rcases mem_nestedPlaces member with ⟨_, _, same⟩ | ⟨_, same⟩ <;>
      have lengths := congrArg List.length same <;>
      simp only [List.length_cons] at lengths <;>
      omega
  · intro member
    rcases mem_nestedPlaces member with ⟨index, apart, same⟩ | ⟨_, same⟩
    · rw [List.cons.injEq] at same
      exact apart same.1.symm
    · have lengths := congrArg List.length same
      simp only [List.length_cons] at lengths
      omega

@[simp] theorem length_nestedPlaces (address : Address) (before inside after : Nat) :
    (nestedPlaces address before inside after).length = before + (inside + after) := by
  simp [nestedPlaces]

private theorem map_append_nestedPlaces (address : Address) (before inside after : Nat) :
    (nestedPlaces [] before inside after).map (· ++ address) =
      nestedPlaces address before inside after := by
  simp only [nestedPlaces, List.map_append, map_append_argumentPlaces]
  rfl

private theorem zip_nestedPlaces (address : Address) (before inside after : Nat) :
    (nestedPlaces address before inside after).zip
        (argumentPlaces address 1 (before + (inside + after))) =
      (argumentPlaces address 1 before).zip (argumentPlaces address 1 before) ++
        ((argumentPlaces ((1 + before) :: address) 1 inside).zip
            (argumentPlaces address (1 + before) inside) ++
          (argumentPlaces address (1 + before + 1) after).zip
            (argumentPlaces address (1 + before + inside) after)) := by
  rw [nestedPlaces, argumentPlaces_add, argumentPlaces_add, List.zip_append (by simp),
    List.zip_append (by simp)]

section Calls

variable [Callable φ ε] {setup : Setup φ ε} {inner : InnerRun φ} (before : setup.before = none)
  (after : setup.after = none) (steady : inner.Steady)
  (every : setup.sandbox.EveryNative Routine.Placeless) {name : String} {native : Native φ ε}
  (bound : setup.sandbox.find? name = some (.callable native))

include before after steady every bound

/-- The call with a nested call in the first run, and in the second the call with all operands in
one row. -/
theorem Fold.flattened_together {f : Fold φ σ} {combine : σ → σ → σ} (law : f.Associative combine)
    (served : f.ServedBy native) (xs ys zs : List Json) (empty : ys = [] → f.Neutral)
    (address : Address) {l r : Station}
    (watched : l.watched = nestedPlaces address xs.length ys.length zs.length)
    (watched' : r.watched = argumentPlaces address 1 (xs.length + (ys.length + zs.length))) :
    Together inner.CutsOff l r (Within Eq (l.watched.zip r.watched))
      (evaluate setup inner
        (.array (.string name :: (xs ++ .array (.string name :: ys) :: zs))) address)
      (evaluate setup inner (.array (.string name :: (xs ++ (ys ++ zs)))) address) := by
  have level : r.Level (address.length + 1) := .of_argumentPlaces watched'
  have left (place : Address) (frame : Frame)
      (member : place ∈ nestedPlaces address xs.length ys.length zs.length) :
      (l.under frame).Watches place :=
    (watches_nestedPlaces watched member).under frame
  have right (frame : Frame) (first count : Nat) (low : 1 ≤ first)
      (high : first + count ≤ 1 + (xs.length + (ys.length + zs.length))) (place : Address)
      (member : place ∈ argumentPlaces address first count) : (r.under frame).Watches place := by
    refine (level.watches place ?_).under frame
    obtain ⟨index, range, rfl⟩ := mem_argumentPlaces.mp member
    rw [watched']
    exact mem_argumentPlaces.mpr ⟨index, by omega, rfl⟩
  obtain ⟨apart, apart'⟩ := not_mem_nestedPlaces address xs.length ys.length zs.length
  rw [← watched] at apart apart'
  refine Fold.call_right before after bound served (level.not_mem (by omega)) ?_ ?_
  · exact fun _ current _ _ held => held.stamp_right current
  refine Fold.call_left before after bound served apart ?_ ?_
  · exact fun _ current _ _ held => held.stamp_left current
  rw [evaluations_append, evaluations, evaluations_append, evaluations_append, watched, watched',
    zip_nestedPlaces]
  refine Fold.result_together (S := Eq) (T := Eq) f f ?_ (fun _ _ same => same) ?_
  · exact fun _ _ same => congrArg f.finish same
  refine Fold.pass_flattened f ?_ (fun s => ?_) ?_ f.start
  · refine operands_of_nodes before after steady every xs address address 1 1 ?_ ?_
    · exact fun place member => left place _ (by simp [nestedPlaces, member])
    · exact right _ 1 _ (by omega) (by omega)
  · refine Fold.nested_together law before after bound served ?_ ?_ ?_ s
    · exact apart'
    · refine operands_of_nodes before after steady every ys _ address 1 (1 + xs.length) ?_ ?_
      · exact fun place member => (left place _ (by simp [nestedPlaces, member])).under _
      · exact right _ _ _ (by omega) (by omega)
    · intro none
      exact empty (by simpa using none)
  · refine operands_of_nodes before after steady every zs address address _ _ ?_ ?_
    · exact fun place member => left place _ (by simp [nestedPlaces, member])
    · exact right _ _ _ (by omega) (by omega)

end Calls

private theorem hosts_nested (name : String) (xs ys zs : List Json) :
    (Json.array (.string name :: (xs ++ .array (.string name :: ys) :: zs))).Hosts
      (nestedPlaces [] xs.length ys.length zs.length) (xs ++ (ys ++ zs)) := by
  let script := Json.array (.string name :: (xs ++ .array (.string name :: ys) :: zs))
  have nested : script.node? [1 + xs.length] = some (.array (.string name :: ys)) := by
    simp [script, Json.node?, Json.item?, Nat.add_comm 1]
  refine .append (Json.hosts_argumentPlaces rfl (List.prefix_append _ _)) (.append ?_ ?_)
  · exact Json.hosts_argumentPlaces nested (List.prefix_refl _)
  · refine Json.hosts_argumentPlaces rfl ?_
    simp [Nat.add_comm 1]

/-- A call of `and`, `or`, `do` or `concat` with a nested call of the same among its operands, and
the call with the operands of the nested call in its place, have the same value or fail with the
same cause. They leave the same environment, and they have entered the same first operands. -/
theorem nested_call_flattens [BEq φ] [Callable φ ε] [Inhabited ε] {c : Context φ ε}
    (sandbox : c.sandbox.StandardWith Routine.Placeless) (before : c.before = none)
    (after : c.after = none) {name : String} (named : name ∈ ["and", "or", "do", "concat"])
    (xs ys zs : List Json) (some : name ≠ "concat" → ys ≠ []) :
    c.SameOperands Eq (.array (.string name :: (xs ++ .array (.string name :: ys) :: zs)))
      (.array (.string name :: (xs ++ (ys ++ zs)))) (xs ++ (ys ++ zs))
      (nestedPlaces [] xs.length ys.length zs.length)
      (argumentPlaces [] 1 (xs ++ (ys ++ zs)).length) := by
  obtain ⟨σ, f, combine, native, bound, served, law, neutral⟩ :=
    Boxes.standard_associative (φ := φ) (ε := ε) named
  have every : c.toSetup.sandbox.EveryNative Routine.Placeless := sandbox.everyNative
  have empty (none : ys = []) : f.Neutral := by
    refine neutral ?_
    by_contra other
    exact some other none
  refine .of_evaluates (hosts_nested name xs ys zs) ?_ fun limit address w => ?_
  · exact Json.hosts_argumentPlaces rfl (List.prefix_refl _)
  · rw [map_append_argumentPlaces, map_append_nestedPlaces]
    refine Together.sameCourse ?_ (by simp)
    rw [List.length_append, List.length_append]
    exact Fold.flattened_together before after (innerRun_steady every limit) every
      (sandbox.standard _ _ bound) law served xs ys zs empty address rfl rfl

/-- The nested call is decided by its second operand, and the operand after it is not entered. -/
theorem nested_disjunction_decides_flat :
    let c := Selector.context
    let operand (v : Json) : Json := .array [.string "count", v]
    let inside := [operand .null, operand (.string "x")]
    let flat := Json.array
      (.string "or" :: ([operand (.bool false)] ++ (inside ++ [operand (.bool true)])))
    (c.run flat {}).1 = .returned (.ok (.text "x")) ∧ (c.run flat {}).2.1.env = 3 ∧
      (entries (c.way flat {})).filter (· ∈ [[1], [2], [3], [4]]) = [[1], [2], [3]] := by
  intro c operand inside flat
  let script := Json.array (.string "or" ::
    ([operand (.bool false)] ++ .array (.string "or" :: inside) :: [operand (.bool true)]))
  have ran : (c.run script {}).1 = .returned (.ok (.text "x")) := rfl
  have counted : (c.run script {}).2.1.env = 3 := by decide +kernel
  have entered : ((entries (c.way script {})).filter (· ∈ nestedPlaces [] 1 2 1)).length = 3 := by
    decide +kernel
  have named : "or" ∈ ["and", "or", "do", "concat"] := by decide
  have same := nested_call_flattens Selector.context_standardWith rfl rfl named
    [operand (.bool false)] inside [operand (.bool true)] (by simp [inside])
  obtain ⟨y, count, returned, akin, env, left, right⟩ := (same.runs {}).of_returned ran
  have three : count = 3 := by
    have taken := (congrArg List.length left).symm.trans entered
    rw [List.length_take, length_nestedPlaces] at taken
    change min count 4 = 3 at taken
    omega
  subst three
  cases akin with
  | ok same =>
    subst same
    exact ⟨returned, env.symm.trans counted, right⟩

end JsonScript
