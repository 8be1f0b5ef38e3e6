import JsonScript.Proofs.Operands

/-!
Negation of the connectives.

Negation turns `and` into `or` of negations and back. This is a law of truth values, and here it
holds with effects too: the same operands are evaluated in the same order, and they leave the same
environment behind, also if one of them decides the result or fails. What it means that two calls
evaluate the same operands is said first, for any two calls.
-/

set_option autoImplicit false
set_option relaxedAutoImplicit false

namespace JsonScript

open Evaluator

variable {φ ε σ : Type}

/-- Both evaluations return, with related values or with failures of the same cause. They leave the
same environment, and they have entered the operands, which stand at `places` in one script and at
`others` in the other, in order up to the same one. Otherwise both are cut off, because natives
start runs inside runs without end. -/
inductive SameCourse (inner : InnerRun φ) (R : Value φ → Value φ → Prop)
    (places others : List Address) (w : World ε) :
    Ending (Outcome φ) × World ε → Ending (Outcome φ) × World ε → Prop where
  | returned {x y : Outcome φ} {w' v' : World ε} (count : Nat) (akin : Akin R x y)
      (env : w'.env = v'.env) (left : Touches places w w' (places.take count))
      (right : Touches others w v' (others.take count)) :
      SameCourse inner R places others w (.returned x, w') (.returned y, v')
  | exhausted {w' v' : World ε} (off : inner.CutsOff) :
      SameCourse inner R places others w (.exhausted, w') (.exhausted, v')

theorem Together.sameCourse {inner : InnerRun φ} {R : Value φ → Value φ → Prop}
    {places others : List Address} {w : World ε} {m m' : Run ε (Outcome φ)}
    (both : Together inner.CutsOff ⟨w.frames, places⟩ ⟨w.frames, others⟩
      (Within R (places.zip others)) m m')
    (lengths : places.length = others.length) :
    SameCourse inner R places others w (m w) (m' w) := by
  have ends := both w w ⟨rfl, rfl, rfl, rfl⟩
  generalize m w = e at ends ⊢
  generalize m' w = e' at ends ⊢
  cases ends with
  | exhausted off => exact .exhausted off
  | returned visits held abreast touched touched' =>
    obtain ⟨akin, visited⟩ := held
    rw [List.prefix_iff_eq_take.mp visited, List.map_take] at touched touched'
    rw [List.map_fst_zip (Nat.le_of_eq lengths)] at touched
    rw [List.map_snd_zip (Nat.le_of_eq lengths.symm)] at touched'
    exact .returned visits.length akin abreast.env touched touched'

/-- The runs of two scripts in a context return, with related values or with failures of the same
cause. They leave the same environment, and they have entered the operands in order up to the same
one. Otherwise both are cut off. -/
inductive Context.SameRuns [Callable φ ε] [Inhabited ε] (c : Context φ ε)
    (R : Value φ → Value φ → Prop) (script other : Json) (places others : List Address)
    (ledger : Ledger) : Prop where
  | returned {x y : Outcome φ} (count : Nat) (ran : (c.run script ledger).1 = .returned x)
      (ran' : (c.run other ledger).1 = .returned y) (akin : Akin R x y)
      (env : (c.run script ledger).2.1.env = (c.run other ledger).2.1.env)
      (left : (entries (c.way script ledger)).filter (· ∈ places) = places.take count)
      (right : (entries (c.way other ledger)).filter (· ∈ others) = others.take count) :
      SameRuns c R script other places others ledger
  | exhausted (off : (Context.innerRun c.sandbox Context.runLimit).CutsOff)
      (ran : (c.run script ledger).1 = .exhausted) (ran' : (c.run other ledger).1 = .exhausted) :
      SameRuns c R script other places others ledger

/-- Where the run of one script returns, so does that of the other. -/
theorem Context.SameRuns.of_returned [Callable φ ε] [Inhabited ε] {c : Context φ ε}
    {R : Value φ → Value φ → Prop} {script other : Json} {places others : List Address}
    {ledger : Ledger} {x : Outcome φ} (same : c.SameRuns R script other places others ledger)
    (ran : (c.run script ledger).1 = .returned x) :
    ∃ y count, (c.run other ledger).1 = .returned y ∧ Akin R x y ∧
      (c.run script ledger).2.1.env = (c.run other ledger).2.1.env ∧
      (entries (c.way script ledger)).filter (· ∈ places) = places.take count ∧
      (entries (c.way other ledger)).filter (· ∈ others) = others.take count := by
  cases same with
  | exhausted _ cut => cases ran.symm.trans cut
  | @returned _ y count first second akin env left right =>
    cases first.symm.trans ran
    exact ⟨y, count, second, akin, env, left, right⟩

theorem Context.trace_eq [Callable φ ε] {c : Context φ ε} {inner : InnerRun φ}
    {script : Json} {ledger : Ledger} {e : Ending (Outcome φ) × World ε}
    (evaluated : evaluate c.toSetup inner script [] { env := c.env, ledger } = e)
    (calm : ∀ payload, e.1 ≠ .unwound payload) : c.trace inner script ledger = e := by
  rw [Context.trace, Context.evaluation]
  split
  · rw [Context.liftPanic_apply, evaluated]
    obtain ⟨x | payload | _, w⟩ := e
    · rfl
    · exact absurd rfl (calm payload)
    · rfl
  · exact evaluated

theorem SameCourse.sameRuns [Callable φ ε] [Inhabited ε] {c : Context φ ε}
    {R : Value φ → Value φ → Prop} {script other : Json} {places others : List Address}
    {ledger : Ledger}
    (same : SameCourse (Context.innerRun c.sandbox Context.runLimit) R places others
      { env := c.env, ledger }
      (evaluate c.toSetup (Context.innerRun c.sandbox Context.runLimit) script []
        { env := c.env, ledger })
      (evaluate c.toSetup (Context.innerRun c.sandbox Context.runLimit) other []
        { env := c.env, ledger })) :
    c.SameRuns R script other places others ledger := by
  generalize first : evaluate c.toSetup _ script [] { env := c.env, ledger } = e at same
  generalize second : evaluate c.toSetup _ other [] { env := c.env, ledger } = e' at same
  cases same with
  | exhausted off =>
    have traced := Context.trace_eq first nofun
    have traced' := Context.trace_eq second nofun
    refine .exhausted off ?_ ?_
    · rw [Context.run, Context.runWith, traced]
      rfl
    · rw [Context.run, Context.runWith, traced']
      rfl
  | @returned x y w v count akin env left right =>
    have traced := Context.trace_eq first nofun
    have traced' := Context.trace_eq second nofun
    have entered {watched touched : List Address} {w : World ε}
        (touches : Touches watched { env := c.env, ledger } w touched) :
        (entries w.passages.reverse).filter (· ∈ watched) = touched := by
      obtain ⟨steps, grown, filtered⟩ := touches
      rw [grown, List.append_nil, List.reverse_reverse]
      exact filtered
    refine .returned (x := x) (y := y) count ?_ ?_ akin ?_ ?_ ?_
    · rw [Context.run, Context.runWith, traced]
      rfl
    · rw [Context.run, Context.runWith, traced']
      rfl
    · rw [Context.run, Context.runWith, traced, Context.run, Context.runWith, traced']
      exact env
    · rw [Context.way, traced]
      exact entered left
    · rw [Context.way, traced']
      exact entered right

/-- In the context the scripts evaluate the same operands, with results that are related. The
operands are the given nodes, which stand in each script at the places that are listed for it; where
the scripts are parts of others, at these places inside of them. -/
structure Context.SameOperands [Callable φ ε] [Inhabited ε] (c : Context φ ε)
    (R : Value φ → Value φ → Prop) (script other : Json) (nodes : List Json)
    (places others : List Address) : Prop where
  hosts : script.Hosts places nodes
  hosts' : other.Hosts others nodes
  evaluates : ∀ (limit : Nat) (address : Address) (w : World ε),
    SameCourse (Context.innerRun c.sandbox limit) R (places.map (· ++ address))
      (others.map (· ++ address)) w
      (evaluate c.toSetup (Context.innerRun c.sandbox limit) script address w)
      (evaluate c.toSetup (Context.innerRun c.sandbox limit) other address w)
  runs : ∀ ledger : Ledger, c.SameRuns R script other places others ledger

theorem Context.SameOperands.of_evaluates [Callable φ ε] [Inhabited ε] {c : Context φ ε}
    {R : Value φ → Value φ → Prop} {script other : Json} {nodes : List Json}
    {places others : List Address} (hosts : script.Hosts places nodes)
    (hosts' : other.Hosts others nodes)
    (evaluates : ∀ (limit : Nat) (address : Address) (w : World ε),
      SameCourse (Context.innerRun c.sandbox limit) R (places.map (· ++ address))
        (others.map (· ++ address)) w
        (evaluate c.toSetup (Context.innerRun c.sandbox limit) script address w)
        (evaluate c.toSetup (Context.innerRun c.sandbox limit) other address w)) :
    c.SameOperands R script other nodes places others := by
  refine ⟨hosts, hosts', evaluates, fun ledger => ?_⟩
  have atRoot := evaluates Context.runLimit [] { env := c.env, ledger }
  simp only [List.append_nil, List.map_id'] at atRoot
  exact atRoot.sameRuns

/-- The standard box, with values and with natives under other names. These natives have the
property, and so has what functions do when they are called. -/
structure Sandbox.StandardWith [BEq φ] [Callable φ ε] (P : Native φ ε → Prop) (s : Sandbox φ ε) :
    Prop where
  standard : ∀ name binding, Boxes.standard.find? name = some binding →
    s.find? name = some binding
  natives : ∀ name native, (Boxes.standard : Sandbox φ ε).find? name = none →
    s.find? name = some (.callable native) → P native
  functions : ∀ f : φ, P (Callable.code f)

theorem Sandbox.StandardWith.everyNative_of_each [BEq φ] [Callable φ ε] {P : Native φ ε → Prop}
    {s : Sandbox φ ε} (sandbox : s.StandardWith P) (each : Boxes.EachNative P) :
    s.EveryNative P := by
  refine ⟨fun name native found => ?_, sandbox.functions⟩
  cases bound : (Boxes.standard : Sandbox φ ε).find? name with
  | none => exact sandbox.natives name native bound found
  | some binding =>
    cases (sandbox.standard name binding bound).symm.trans found
    exact each.standard_binds.of_find? bound

theorem Sandbox.StandardWith.everyNative [BEq φ] [Callable φ ε] {s : Sandbox φ ε}
    (sandbox : s.StandardWith Routine.Placeless) : s.EveryNative Routine.Placeless :=
  sandbox.everyNative_of_each <|
    (Boxes.eachNative_asks supplies_anything).mono fun _ asks => .of_asks asks

section Around

variable [BEq φ] [Callable φ ε] {P : Native φ ε → Prop}

theorem Sandbox.StandardWith.standard_only (functions : ∀ f : φ, P (Callable.code f)) :
    (Boxes.standard : Sandbox φ ε).StandardWith P where
  standard _ _ found := found
  natives _ _ free found := nomatch free.symm.trans found
  functions := functions

theorem Sandbox.StandardWith.insertNative {s : Sandbox φ ε} (sandbox : s.StandardWith P)
    {name : String} {native : Native φ ε}
    (free : (Boxes.standard : Sandbox φ ε).find? name = none) (fits : P native) :
    (s.insertNative name native).StandardWith P where
  standard other binding found := by
    have apart : other ≠ name := by
      rintro rfl
      cases free.symm.trans found
    rw [Sandbox.insertNative, Sandbox.find?_insert_of_ne apart]
    exact sandbox.standard other binding found
  natives other bound unbound found := by
    by_cases same : other = name
    · subst same
      rw [Sandbox.insertNative, Sandbox.find?_insert_self] at found
      cases found
      exact fits
    · rw [Sandbox.insertNative, Sandbox.find?_insert_of_ne same] at found
      exact sandbox.natives other bound unbound found
  functions := sandbox.functions

end Around

/-- The name of the native that evaluates operands until one has the deciding truth. -/
def Boxes.connective (deciding : Bool) : String :=
  if deciding then "or" else "and"

theorem Boxes.standard_connective [BEq φ] (deciding : Bool) :
    ∃ native : Native φ ε,
      (Boxes.standard : Sandbox φ ε).find? (Boxes.connective deciding) = some (.callable native) ∧
        (Fold.upTo deciding).ServedBy native := by
  cases deciding with
  | false => exact ⟨_, Boxes.standard_logic (by simp [connective]), Fold.upTo_servedBy_conjunction⟩
  | true => exact ⟨_, Boxes.standard_logic (by simp [connective]), Fold.upTo_servedBy_disjunction⟩

def Json.negated (node : Json) : Json :=
  .array [.string "not", node]

def Negates (u v : Value φ) : Prop :=
  v = .bool !u.isTruthy

private theorem upTo_concurs (deciding : Bool) {s t u v : Value φ} (negates : Negates u v) :
    Concurs Negates Negates ((Fold.upTo deciding).step s u) ((Fold.upTo !deciding).step t v) := by
  have truth : v.isTruthy = !u.isTruthy := by
    rw [negates]
    rfl
  by_cases decides : u.isTruthy = deciding
  · have decides' : v.isTruthy = !deciding := by rw [truth, decides]
    rw [Fold.upTo_decided decides, Fold.upTo_decided decides']
    exact .error negates
  · have undecided : v.isTruthy ≠ !deciding := by
      rw [truth]
      simpa using decides
    rw [Fold.upTo_undecided decides, Fold.upTo_undecided undecided]
    exact .ok negates

section Negation

variable [Callable φ ε] {setup : Setup φ ε} {inner : InnerRun φ}

omit [Callable φ ε] in
private theorem perform_negation (evaluation : Run ε (Outcome φ)) (arguments : List Json) :
    perform (answer setup inner arguments [evaluation]) Boxes.negation.run =
      (do return (← evaluation).map fun v => .bool !v.isTruthy) := by
  rw [Boxes.negation, perform_map, perform_argument rfl]

variable (before : setup.before = none) (after : setup.after = none)
  (bound : setup.sandbox.find? "not" = some (.callable Boxes.negation)) (steady : inner.Steady)
  (every : setup.sandbox.EveryNative Routine.Placeless)

include before after bound steady every

private theorem negated_together {l r : Station} (node : Json) {a b : Address} (left : l.Watches a)
    (right : r.Watches (1 :: b)) (unwatched : b ∉ r.watched) :
    Together inner.CutsOff l r (fun x y visits => Akin Negates x y ∧ visits = [(a, 1 :: b)])
      (evaluate setup inner node a) (evaluate setup inner node.negated b) := by
  refine call_right before after bound unwatched ?_ ?_
  · exact fun f current x visits held => ⟨held.1.stamp_right current, held.2⟩
  · show Together _ _ _ _ _ (perform (answer setup inner [node]
      [evaluate setup inner node (1 :: b)]) _)
    rw [perform_negation]
    refine (evaluate_together before after steady every node left (right.under _)).after_right ?_
    rintro x y visits ⟨akin, visited⟩
    refine pure_idles ⟨?_, visited⟩
    cases akin with
    | error same => exact .error same
    | ok same =>
      cases same
      exact .ok rfl

private theorem operands_negated {l r : Station} (nodes : List Json) (a b : Address) (i j : Nat)
    (left : ∀ place ∈ argumentPlaces a i nodes.length, l.Watches place)
    (right : ∀ place ∈ (argumentPlaces b j nodes.length).map (1 :: ·), r.Watches place)
    (unwatched : ∀ index, index :: b ∉ r.watched) :
    Operands inner.CutsOff l r Negates (evaluations setup inner nodes a i)
      (evaluations setup inner (nodes.map Json.negated) b j)
      ((argumentPlaces a i nodes.length).zip
        ((argumentPlaces b j nodes.length).map (1 :: ·))) := by
  induction nodes generalizing i j with
  | nil => exact .nil
  | cons node rest ih =>
    rw [List.length_cons, argumentPlaces_succ] at left right
    obtain ⟨here, later⟩ := List.forall_mem_cons.mp left
    obtain ⟨there, later'⟩ := List.forall_mem_cons.mp right
    rw [List.length_cons, argumentPlaces_succ, argumentPlaces_succ, List.map_cons, evaluations,
      evaluations]
    refine .cons ?_ (ih (i + 1) (j + 1) later later')
    exact negated_together before after bound steady every node here there (unwatched j)

def SameBool (u v : Value φ) : Prop :=
  ∃ b, u = .bool b ∧ v = .bool b

/-- The negation of a connective in the first run, and in the second the other connective of the
negations: what the first makes of the operands is negated by the native around. -/
theorem negation_together {deciding : Bool} {native dual : Native φ ε}
    (named : setup.sandbox.find? (Boxes.connective deciding) = some (.callable native))
    (served : (Fold.upTo deciding).ServedBy native)
    (named' : setup.sandbox.find? (Boxes.connective !deciding) = some (.callable dual))
    (served' : (Fold.upTo !deciding).ServedBy dual) (nodes : List Json) (address : Address)
    {l r : Station} (watched : l.watched = argumentPlaces (1 :: address) 1 nodes.length)
    (watched' : r.watched = (argumentPlaces address 1 nodes.length).map (1 :: ·)) :
    Together inner.CutsOff l r (Within SameBool (l.watched.zip r.watched))
      (evaluate setup inner (Json.array (.string (Boxes.connective deciding) :: nodes)).negated
        address)
      (evaluate setup inner
        (.array (.string (Boxes.connective !deciding) :: nodes.map Json.negated)) address) := by
  have level : l.Level (address.length + 2) := .of_argumentPlaces watched
  have level' : r.Level (address.length + 2) := by
    intro place member
    rw [watched'] at member
    obtain ⟨outer, kept, rfl⟩ := List.mem_map.mp member
    obtain ⟨index, _, rfl⟩ := mem_argumentPlaces.mp kept
    rfl
  refine Fold.call_right before after named' served' (level'.not_mem (by omega)) ?_ ?_
  · exact fun _ current _ _ held => held.stamp_right current
  refine call_left before after bound (level.not_mem (by omega)) ?_ ?_
  · exact fun _ current _ _ held => held.stamp_left current
  show Together _ _ _ _ (perform (answer setup inner _
    [evaluate setup inner (.array (.string (Boxes.connective deciding) :: nodes))
      (1 :: address)]) _) _
  rw [perform_negation]
  refine Together.after_left (P := Within Negates (l.watched.zip r.watched)) ?_ ?_
  · refine Fold.call_left before after named served (level.not_mem (by simp)) ?_ ?_
    · exact fun _ current _ _ held => held.stamp_left current
    refine Fold.result_together (S := Negates) (T := Negates) _ _ (fun _ _ held => held)
      (fun _ _ held => held) ?_
    refine Fold.pass_together (R := Negates) (n := 0) _ _ (fun _ => Negates) ?_ ?_ rfl
    · exact fun _ _ _ _ _ _ negates => upTo_concurs deciding negates
    · rw [watched, watched']
      refine operands_negated before after bound steady every nodes (1 :: address) address 1 1
        ?_ ?_ fun index => level'.not_mem (by simp)
      · rw [← watched]
        exact fun place member => ((level.watches place member).under _).under _
      · rw [← watched']
        exact fun place member => (level'.watches place member).under _
  · intro x y visits held
    refine pure_idles ⟨?_, held.2⟩
    cases held.1 with
    | error same => exact .error same
    | ok negates => exact .ok ⟨_, rfl, negates⟩

end Negation

private theorem hosts_negated (name : String) (nodes : List Json) :
    (Json.array (.string name :: nodes.map Json.negated)).Hosts
      ((argumentPlaces [] 1 nodes.length).map (1 :: ·)) nodes := by
  have outer : (Json.array (.string name :: nodes.map Json.negated)).Hosts
      (argumentPlaces [] 1 (nodes.map Json.negated).length) (nodes.map Json.negated) :=
    Json.hosts_argumentPlaces rfl (List.prefix_refl _)
  have inside := congrArg (List.map (Option.bind · (Json.item? 1))) outer
  rw [List.length_map] at inside
  rw [Json.Hosts]
  simpa [Function.comp_def, Json.node?, Json.item?, Json.negated] using inside

/-- The negation of a conjunction and the disjunction of the negations are the same boolean or fail
with the same cause, and so with the connectives exchanged. They leave the same environment, and
they have entered the same first operands. -/
theorem negation_exchanges_connectives [BEq φ] [Callable φ ε] [Inhabited ε] {c : Context φ ε}
    (sandbox : c.sandbox.StandardWith Routine.Placeless) (before : c.before = none)
    (after : c.after = none) (deciding : Bool) (nodes : List Json) :
    c.SameOperands SameBool
      (Json.array (.string (Boxes.connective deciding) :: nodes)).negated
      (Json.array (.string (Boxes.connective !deciding) :: nodes.map Json.negated)) nodes
      (argumentPlaces [1] 1 nodes.length) ((argumentPlaces [] 1 nodes.length).map (1 :: ·)) := by
  obtain ⟨native, named, served⟩ := Boxes.standard_connective (φ := φ) (ε := ε) deciding
  obtain ⟨dual, named', served'⟩ := Boxes.standard_connective (φ := φ) (ε := ε) !deciding
  have bound := sandbox.standard "not" (.callable Boxes.negation) (Boxes.standard_logic (by simp))
  have every : c.toSetup.sandbox.EveryNative Routine.Placeless := sandbox.everyNative
  refine .of_evaluates ?_ (hosts_negated _ nodes) fun limit address w => ?_
  · exact Json.hosts_argumentPlaces rfl (List.prefix_refl _)
  · rw [map_append_argumentPlaces, List.map_map]
    have moved : (argumentPlaces [] 1 nodes.length).map ((· ++ address) ∘ (1 :: ·)) =
        (argumentPlaces address 1 nodes.length).map (1 :: ·) := by
      simp [argumentPlaces]
    rw [moved]
    refine Together.sameCourse ?_ (by simp)
    exact negation_together before after bound (innerRun_steady every limit) every
      (sandbox.standard _ _ named) served (sandbox.standard _ _ named') served' nodes address rfl
      rfl

/-- Functions that return one of their arguments. -/
structure Selector where
  index : Nat
  deriving DecidableEq

instance : Callable Selector ε := ⟨fun f => Call.argument f.index⟩

def Selector.counted : Routine Selector Nat (Value Selector) := do
  Call.setEnvironment ((← Call.environment) + 1)
  Call.argument 1

def Selector.context : Context Selector Nat :=
  .ofSandbox (Boxes.standard.insertNative "count" counted) 0

theorem Selector.count_free : (Boxes.standard : Sandbox Selector Nat).find? "count" = none := by
  have free : ((Boxes.standard : Sandbox Selector Nat).find? "count").isNone = true := by
    decide +kernel
  exact Option.isNone_iff_eq_none.mp free

theorem Selector.context_standardWith :
    Selector.context.sandbox.StandardWith Routine.Placeless := by
  refine .insertNative (.standard_only fun f => .argumentAs .any f.index) Selector.count_free ?_
  refine .bind (.request fun _ _ same => same) fun env => ?_
  exact .bind (.request fun _ _ same => same) fun _ => .argumentAs .any 1

/-- The second operand decides, and the third is not entered. -/
theorem negated_conjunction_enters_two_operands :
    let c := Selector.context
    let operand (v : Json) : Json := .array [.string "count", v]
    let nodes := [operand (.bool true), operand .null, operand (.bool true)]
    let dual := Json.array (.string "or" :: nodes.map Json.negated)
    (c.run dual {}).1 = .returned (.ok (.bool true)) ∧ (c.run dual {}).2.1.env = 2 ∧
      (entries (c.way dual {})).filter (· ∈ [[1, 1], [1, 2], [1, 3]]) = [[1, 1], [1, 2]] := by
  intro c operand nodes dual
  let script := (Json.array (.string "and" :: nodes)).negated
  have ran : (c.run script {}).1 = .returned (.ok (.bool true)) := rfl
  have counted : (c.run script {}).2.1.env = 2 := by decide +kernel
  have entered : ((entries (c.way script {})).filter (· ∈ argumentPlaces [1] 1 3)).length = 2 := by
    decide +kernel
  have same := negation_exchanges_connectives Selector.context_standardWith rfl rfl false nodes
  obtain ⟨y, count, returned, akin, env, left, right⟩ := (same.runs {}).of_returned ran
  have two : count = 2 := by
    have taken := (congrArg List.length left).symm.trans entered
    rw [List.length_take, length_argumentPlaces] at taken
    change min count 3 = 2 at taken
    omega
  subst two
  cases akin with
  | ok same =>
    obtain ⟨_, ⟨⟩, rfl⟩ := same
    exact ⟨returned, env.symm.trans counted, right⟩

end JsonScript
