import JsonScript.Proofs.HookBrackets
import JsonScript.Proofs.StandardBox

/-!
Standard scripts are read once, from left to right.

Arguments are evaluated as often as a native asks for them. The natives of the standard box ask for
each argument once at most, and never for one to the left of another that they have asked for. So
an evaluation enters nodes in the order in which they stand in the script, and it ends.
-/

set_option autoImplicit false
set_option relaxedAutoImplicit false

namespace JsonScript

open Evaluator

variable {φ ε α β : Type}

mutual

/-- The addresses of all nodes that can be evaluated in a node at an address: the node, then its
head unless that is a name, then its arguments from left to right. What stands in objects is no
script. -/
def Json.places : Json → Address → List Address
  | .array items, address => address :: Json.placesInside items address
  | _, address => [address]

def Json.placesInside : List Json → Address → List Address
  | [], _ => []
  | .string _ :: arguments, address => Json.placesFrom 1 arguments address
  | head :: arguments, address =>
    head.places (0 :: address) ++ Json.placesFrom 1 arguments address

/-- The addresses in nodes that stand next to each other, from a position on. -/
def Json.placesFrom : Nat → List Json → Address → List Address
  | _, [], _ => []
  | position, node :: rest, address =>
    node.places (position :: address) ++ Json.placesFrom (position + 1) rest address

end

theorem Json.places_literal {node : Json} (literal : ∀ items, node ≠ .array items)
    (address : Address) : node.places address = [address] := by
  cases node with
  | array items => exact absurd rfl (literal items)
  | null | bool | number | string | object => rfl

theorem Json.placesInside_computed {head : Json} (computes : ∀ name, head ≠ .string name)
    (arguments : List Json) (address : Address) :
    Json.placesInside (head :: arguments) address =
      head.places (0 :: address) ++ Json.placesFrom 1 arguments address := by
  cases head with
  | string name => exact absurd rfl (computes name)
  | null | bool | number | array | object => rfl

/-- The addresses in the arguments of a call after the first `taken` of them. -/
def Json.placesAfter (taken : Nat) (arguments : List Json) (address : Address) : List Address :=
  Json.placesFrom (taken + 1) (arguments.drop taken) address

theorem Json.placesAfter_sublist {taken later : Nat} (further : taken ≤ later)
    (arguments : List Json) (address : Address) :
    (Json.placesAfter later arguments address).Sublist
      (Json.placesAfter taken arguments address) := by
  induction further with
  | refl => exact List.Sublist.refl _
  | @step later _ ih =>
    refine List.Sublist.trans ?_ ih
    unfold Json.placesAfter
    cases here : arguments.drop later with
    | nil =>
      have nothing : arguments.drop (later + 1) = [] := by
        rw [List.drop_eq_nil_iff] at here ⊢
        omega
      rw [nothing]
      exact List.nil_sublist _
    | cons argument rest =>
      have tail : arguments.drop (later + 1) = rest := by
        rw [← List.tail_drop, here, List.tail_cons]
      rw [tail, Json.placesFrom]
      exact List.sublist_append_right _ _

def Json.placesAt (index : Nat) (arguments : List Json) (address : Address) : List Address :=
  match argumentAt? arguments index with
  | some argument => argument.places (index :: address)
  | none => []

theorem Json.placesAt_append_placesAfter_sublist {taken index : Nat} (further : taken < index)
    (arguments : List Json) (address : Address) :
    (Json.placesAt index arguments address ++ Json.placesAfter index arguments address).Sublist
      (Json.placesAfter taken arguments address) := by
  cases index with
  | zero => cases further
  | succ index =>
    refine List.Sublist.trans ?_ (Json.placesAfter_sublist (Nat.le_of_lt_succ further) _ _)
    unfold Json.placesAt
    split
    · rename_i argument found
      obtain ⟨bound, here⟩ := List.getElem?_eq_some_iff.mp found
      rw [Json.placesAfter, Json.placesAfter, List.drop_eq_getElem_cons bound, here,
        Json.placesFrom]
    · exact Json.placesAfter_sublist (Nat.le_succ index) arguments address

private theorem suffix_of_mem_places :
    (∀ (node : Json) (address : Address), ∀ place ∈ node.places address, address <:+ place) ∧
    (∀ (items : List Json) (address : Address), ∀ place ∈ Json.placesInside items address,
      ∃ index, (index :: address) <:+ place) ∧
    ∀ (first : Nat) (nodes : List Json) (address : Address),
      ∀ place ∈ Json.placesFrom first nodes address,
        ∃ index, first ≤ index ∧ (index :: address) <:+ place := by
  refine Json.places.mutual_induct _ _ _ ?_ ?_ ?_ ?_ ?_ ?_ ?_
  · intro items address inside place member
    rcases List.mem_cons.mp member with rfl | member
    · exact List.suffix_refl _
    · obtain ⟨index, below⟩ := inside place member
      exact (List.suffix_cons index address).trans below
  · intro node address literal place member
    rw [Json.places_literal literal, List.mem_singleton] at member
    exact member ▸ List.suffix_refl _
  · exact fun _ _ none => nomatch none
  · intro name arguments address inside place member
    obtain ⟨index, _, below⟩ := inside place member
    exact ⟨index, below⟩
  · intro head arguments address computes atHead inside place member
    rw [Json.placesInside_computed computes, List.mem_append] at member
    rcases member with member | member
    · exact ⟨0, atHead place member⟩
    · obtain ⟨index, _, below⟩ := inside place member
      exact ⟨index, below⟩
  · exact fun _ _ _ none => nomatch none
  · intro first node rest address here inside place member
    rcases List.mem_append.mp member with member | member
    · exact ⟨first, Nat.le_refl _, here place member⟩
    · obtain ⟨index, further, below⟩ := inside place member
      exact ⟨index, Nat.le_of_succ_le further, below⟩

private theorem position_eq {index other : Nat} {address place : Address}
    (first : (index :: address) <:+ place) (second : (other :: address) <:+ place) :
    index = other := by
  have same := List.suffix_of_suffix_length_le first second (Nat.le_refl _)
  exact (List.cons.inj (same.eq_of_length rfl)).1

private theorem nodup_places :
    (∀ (node : Json) (address : Address), (node.places address).Nodup) ∧
    (∀ (items : List Json) (address : Address), (Json.placesInside items address).Nodup) ∧
    ∀ (first : Nat) (nodes : List Json) (address : Address),
      (Json.placesFrom first nodes address).Nodup := by
  obtain ⟨inNode, inCall, among⟩ := suffix_of_mem_places
  refine Json.places.mutual_induct _ _ _ ?_ ?_ ?_ ?_ ?_ ?_ ?_
  · intro items address inside
    refine List.nodup_cons.mpr ⟨fun member => ?_, inside⟩
    obtain ⟨index, below⟩ := inCall items address address member
    exact absurd below.length_le (by simp)
  · intro node address literal
    rw [Json.places_literal literal]
    exact List.pairwise_singleton _ _
  · exact fun _ => List.nodup_nil
  · exact fun name arguments address inside => inside
  · intro head arguments address computes atHead inside
    rw [Json.placesInside_computed computes, List.nodup_append]
    refine ⟨atHead, inside, ?_⟩
    rintro place atFirst _ later rfl
    obtain ⟨index, further, below⟩ := among 1 arguments address place later
    exact absurd (position_eq (inNode head _ place atFirst) below) (by omega)
  · exact fun _ _ => List.nodup_nil
  · intro first node rest address here inside
    rw [Json.placesFrom, List.nodup_append]
    refine ⟨here, inside, ?_⟩
    rintro place atFirst _ later rfl
    obtain ⟨index, further, below⟩ := among (first + 1) rest address place later
    exact absurd (position_eq (inNode node _ place atFirst) below) (by omega)

/-- A relation between earlier and later states, for the places that were passed between them. It
concerns neither the calls in progress nor the ledger, and it allows places to be skipped. -/
structure RouteLaw (R : List Address → World ε → World ε → Prop) : Prop where
  frames : ∀ w frames, R [] w { w with frames }
  ledger : ∀ w ledger, R [] w { w with ledger }
  append : ∀ {places others w between w'}, R places w between → R others between w' →
    R (places ++ others) w w'
  skip : ∀ {places others w w'}, places.Sublist others → R places w w' → R others w w'

/-- From every state, the computation returns a result as said in a state related to the first. -/
def Run.Proceeds (R : World ε → World ε → Prop) (post : α → Prop) (m : Run ε α) : Prop :=
  ∀ w, ∃ x w', m w = (.returned x, w') ∧ post x ∧ R w w'

theorem Run.Proceeds.mono {R : World ε → World ε → Prop} {post wider : α → Prop} {m : Run ε α}
    (proceeds : m.Proceeds R post) (wide : ∀ x, post x → wider x) : m.Proceeds R wider := by
  intro w
  obtain ⟨x, w', step, fits, passed⟩ := proceeds w
  exact ⟨x, w', step, wide x fits, passed⟩

theorem Run.Proceeds.after_look {R : World ε → World ε → Prop} {post : β → Prop}
    {view : World ε → α} {next : α → Run ε β} (rest : ∀ x, (next x).Proceeds R post) :
    (Run.look view >>= next).Proceeds R post :=
  fun w => rest (view w) w

/-- The failure was raised by a run: it is neither a lifted panic nor about a text that is no
document. -/
def Failure.Raised (f : Failure) : Prop :=
  match f.cause with
  | .panic _ => False
  | .undecodable _ => False
  | _ => True

theorem Failure.Raised.kind_ne {f : Failure} (raised : f.Raised) :
    f.cause.kind ≠ "Panic" ∧ f.cause.kind ≠ "Json" := by
  obtain ⟨cause, stack⟩ := f
  cases cause with
  | panic message => exact raised.elim
  | undecodable fault => exact raised.elim
  | undefinedName | undefinedHead | missingArgument | argumentType | native =>
    simp [Cause.kind]

theorem Failure.Raised.stamp {f : Failure} (raised : f.Raised) (current : Stack) :
    (f.stamp current).Raised := by
  unfold Failure.stamp
  split
  · exact raised
  · exact raised

def Sound (post : α → Prop) : Except Failure α → Prop
  | .ok x => post x
  | .error f => f.Raised

theorem StepLaw.route {R : World ε → World ε → Prop} (law : StepLaw R) : RouteLaw fun _ => R where
  frames := law.frames
  ledger := law.ledger
  append := law.trans
  skip _ kept := kept

namespace RouteLaw

variable {R : List Address → World ε → World ε → Prop} (law : RouteLaw R) {places : List Address}
  {post : α → Prop}

include law

private theorem skips {m : Run ε α} {others : List Address} (within : places.Sublist others)
    (proceeds : m.Proceeds (R places) post) : m.Proceeds (R others) post := by
  intro w
  obtain ⟨x, w', step, fits, passed⟩ := proceeds w
  exact ⟨x, w', step, fits, law.skip within passed⟩

private theorem look {view : World ε → α} (fits : ∀ w, post (view w)) :
    (Run.look view).Proceeds (R places) post :=
  law.skips (List.nil_sublist places) fun w => ⟨_, _, rfl, fits w, law.frames w w.frames⟩

private theorem pure {x : α} (fits : post x) : (Pure.pure x : Run ε α).Proceeds (R places) post :=
  law.look fun _ => fits

private theorem bind {m : Run ε α} {next : α → Run ε β} {others : List Address} {after : β → Prop}
    (first : m.Proceeds (R places) post)
    (second : ∀ x, post x → (next x).Proceeds (R others) after) :
    (m >>= next).Proceeds (R (places ++ others)) after := by
  intro w
  obtain ⟨x, between, step, fits, passed⟩ := first w
  obtain ⟨y, w', step', fits', passed'⟩ := second x fits between
  refine ⟨y, w', ?_, fits', law.append passed passed'⟩
  rw [Run.bind_apply, step]
  exact step'

private theorem follow {m : Run ε α} {next : α → Run ε β} {after : β → Prop}
    (first : m.Proceeds (R places) post) (second : ∀ x, post x → (next x).Proceeds (R []) after) :
    (m >>= next).Proceeds (R places) after := by
  have both := law.bind first second
  rwa [List.append_nil] at both

private theorem within {m : Run ε α} (frame : Frame) (body : m.Proceeds (R places) post) :
    (Run.within frame m).Proceeds (R places) post := by
  have moves (update : World ε → List Frame) :
      (Run.change fun w => { w with frames := update w }).Proceeds (R []) fun _ => True :=
    fun w => ⟨_, _, rfl, trivial, law.frames w _⟩
  exact law.bind (moves _) fun _ _ => law.follow body fun x fits =>
    law.follow (moves _) fun _ _ => law.pure fits

private theorem fetch_proceeds (shape : Shape) (index : Nat) {evaluation : Run ε (Outcome φ)}
    (body : evaluation.Proceeds (R places) (Sound Value.FunctionFree)) :
    (fetch shape index evaluation).Proceeds (R places) (Sound shape.Data) := by
  refine law.follow body fun outcome sound => ?_
  cases outcome with
  | error failure => exact law.pure sound
  | ok v =>
    simp only [convert]
    cases converted : shape.fromValue v with
    | error mismatch => exact law.look fun _ => trivial
    | ok x =>
      refine law.pure ?_
      cases shape with
      | any =>
        cases converted
        exact sound
      | json | number | integer | bool | text | optional | list => trivial

private def asked (arguments : List Json) (address : Address) (r : Request φ ε) : List Address :=
  match r.evaluates? with
  | some index => Json.placesAt index arguments address
  | none => []

omit law in
private theorem asked_sublist {arguments : List Json} {address : Address} {r : Request φ ε}
    {taken : Nat} (further : ∀ index ∈ r.evaluates?, taken < index) :
    (asked arguments address r ++
        Json.placesAfter (r.evaluates?.getD taken) arguments address).Sublist
      (Json.placesAfter taken arguments address) := by
  unfold asked
  cases asks : r.evaluates? with
  | none => exact List.Sublist.refl _
  | some index => exact Json.placesAt_append_placesAfter_sublist (further index asks) _ _

private def Answered (r : Request φ ε) (reply : r.Reply) : Prop :=
  r.BringsData reply ∧ ∀ f ∈ r.failures reply, f.Raised

private theorem answer_proceeds (setup : Setup φ ε) (inner : InnerRun φ) {arguments : List Json}
    {address : Address} {evaluations : List (Run ε (Outcome φ))}
    (inside : ∀ index, Option.Rel
      (fun evaluation argument => evaluation.Proceeds (R (argument.places (index :: address)))
        (Sound Value.FunctionFree))
      (argumentAt? evaluations index) (argumentAt? arguments index))
    (r : Request φ ε) (direct : r.isDirect = true) :
    (answer setup inner arguments evaluations r).Proceeds (R (asked arguments address r))
      (Answered r) := by
  cases r with
  | arity => exact law.pure ⟨trivial, List.forall_mem_nil _⟩
  | failure message =>
    exact law.look fun w => ⟨trivial, List.forall_mem_singleton.mpr trivial⟩
  | argument shape index =>
    have related := inside index
    simp only [answer, asked, Request.evaluates?, Json.placesAt]
    generalize argumentAt? evaluations index = evaluation at related ⊢
    generalize argumentAt? arguments index = argument at related ⊢
    cases related with
    | none => exact law.look fun w => ⟨trivial, List.forall_mem_singleton.mpr trivial⟩
    | some body =>
      refine Run.Proceeds.mono (law.fetch_proceeds shape index body) fun reply sound => ?_
      cases reply with
      | ok x => exact ⟨sound, List.forall_mem_nil _⟩
      | error f => exact ⟨trivial, List.forall_mem_singleton.mpr sound⟩
  | argumentIfAny shape index =>
    have related := inside index
    simp only [answer, asked, Request.evaluates?, Json.placesAt]
    generalize argumentAt? evaluations index = evaluation at related ⊢
    generalize argumentAt? arguments index = argument at related ⊢
    cases related with
    | none => exact law.pure ⟨trivial, List.forall_mem_nil _⟩
    | some body =>
      refine law.follow (law.fetch_proceeds shape index body) fun result sound => law.pure ?_
      cases result with
      | ok x => exact ⟨sound, List.forall_mem_nil _⟩
      | error f => exact ⟨trivial, List.forall_mem_singleton.mpr sound⟩
  | raw | attempt | stack | environment | setEnvironment | bound | lifting | fresh | run =>
    cases direct

private theorem perform_proceeds {arguments : List Json} {address : Address}
    {answers : (r : Request φ ε) → Run ε r.Reply}
    (answered : ∀ r : Request φ ε, r.isDirect = true →
      (answers r).Proceeds (R (asked arguments address r)) (Answered r))
    {program : Program φ ε (Except Failure α)} {taken : Nat}
    (asks : program.Asks Request.BringsData (fun x _ => post x) taken) :
    (perform answers program).Proceeds (R (Json.placesAfter taken arguments address))
      (Sound post) := by
  induction program generalizing taken with
  | done result =>
    cases result with
    | ok x => exact law.pure asks
    | error failure => exact asks.elim
  | panic payload => exact asks.elim
  | ask request next ih =>
    obtain ⟨⟨direct, further⟩, goesOn⟩ := asks
    refine law.skips (asked_sublist further) ?_
    refine law.bind (answered request direct) fun reply ⟨data, raised⟩ => ?_
    have rest := goesOn reply
    split at rest
    · exact ih reply (rest data)
    · rename_i failure others failed
      rw [rest]
      exact law.pure (raised failure (by simp [failed]))

private theorem invoke_proceeds (setup : Setup φ ε) (inner : InnerRun φ) {arguments : List Json}
    {address : Address} {evaluations : List (Run ε (Outcome φ))}
    (inside : ∀ index, Option.Rel
      (fun evaluation argument => evaluation.Proceeds (R (argument.places (index :: address)))
        (Sound Value.FunctionFree))
      (argumentAt? evaluations index) (argumentAt? arguments index))
    {native : Native φ ε}
    (asks : Routine.Asks Request.BringsData (fun v _ => v.FunctionFree) 0 native) :
    (invoke setup inner arguments evaluations native).Proceeds
      (R (Json.placesFrom 1 arguments address)) (Sound Value.FunctionFree) := by
  have reports : (reportDispatch arguments.length : Run ε Unit).Proceeds (R []) fun _ => True := by
    intro w
    refine ⟨_, _, rfl, trivial, ?_⟩
    dsimp only
    split
    · exact law.frames w w.frames
    · exact law.ledger w _
  have serves := law.perform_proceeds (law.answer_proceeds setup inner inside) asks
  refine law.bind reports fun _ _ => law.follow serves fun outcome sound => law.look fun w => ?_
  cases outcome with
  | ok v => exact sound
  | error f => exact sound.stamp w.stack

variable [BEq φ] [Callable φ ε] {setup : Setup φ ε} (standard : setup.sandbox.Standard)
  (entering : ∀ address node, (enter setup address node).Proceeds (R [address]) fun _ => True)
  (leaving : ∀ address node, (leave setup address node).Proceeds (R []) fun _ => True)

include standard entering leaving

/-- With the standard natives and values without functions, an evaluation returns after some of the
places in the node, if that holds where nodes are entered and left. -/
theorem evaluate_proceeds (inner : InnerRun φ) (node : Json) (address : Address) :
    (evaluate setup inner node address).Proceeds (R (node.places address))
      (Sound Value.FunctionFree) := by
  have around {node : Json} {address : Address} {places : List Address}
      (entered : (evaluateEntered setup inner node address).Proceeds (R places)
        (Sound Value.FunctionFree)) :
      (evaluate setup inner node address).Proceeds (R (address :: places))
        (Sound Value.FunctionFree) := by
    rw [evaluate_eq]
    refine law.bind (entering address node) fun _ _ => law.follow entered fun outcome sound => ?_
    cases outcome with
    | ok v => exact law.follow (leaving address node) fun _ _ => law.pure sound
    | error failure => exact law.pure sound
  induction node, address using script_induction with
  | literal node address literal =>
    rw [Json.places_literal literal]
    refine around ?_
    rw [evaluateEntered_literal setup inner literal]
    exact law.pure (Value.functionFree_ofJson node)
  | empty address =>
    refine around ?_
    rw [evaluateEntered, evaluateCall]
    exact law.pure Value.functionFree_null
  | named name arguments address inside =>
    refine around ?_
    rw [evaluateEntered, evaluateCall]
    refine .after_look fun depth => law.within _ ?_
    cases found : setup.sandbox.find? name with
    | none => exact law.look fun _ => trivial
    | some binding =>
      have plain := standard.plain found
      cases binding with
      | value v => exact law.pure plain
      | callable native =>
        refine law.invoke_proceeds setup inner (fun index => ?_)
          (standard.native (Boxes.eachNative_asks supplies_data) found)
        rw [argumentAt?_evaluations]
        cases there : argumentAt? arguments index with
        | none => exact .none
        | some argument => exact .some (inside index argument there)
  | computed head arguments address computes atHead inside =>
    rw [Json.places, Json.placesInside_computed computes]
    refine around ?_
    rw [evaluateEntered, evaluateCall.eq_3 setup inner address head arguments computes]
    refine .after_look fun depth => law.bind atHead fun outcome sound => ?_
    cases outcome with
    | error failure => exact law.pure sound
    | ok callee =>
      refine law.within _ ?_
      cases callee with
      | function f => exact absurd .self (sound f)
      | null | bool | number | text | list | object => exact law.look fun _ => trivial

omit standard entering leaving in
theorem trace_proceeds {c : Context φ ε} (standard : c.sandbox.Standard)
    (entering : ∀ address node,
      (enter c.toSetup address node).Proceeds (R [address]) fun _ => True)
    (leaving : ∀ address node, (leave c.toSetup address node).Proceeds (R []) fun _ => True)
    (inner : InnerRun φ) (script : Json) (ledger : Ledger) :
    ∃ outcome w, c.trace inner script ledger = (.returned outcome, w) ∧
      Sound Value.FunctionFree outcome ∧ R (script.places []) { env := c.env, ledger } w := by
  obtain ⟨outcome, w, step, sound, passed⟩ :=
    law.evaluate_proceeds standard entering leaving inner script [] { env := c.env, ledger }
  refine ⟨outcome, w, ?_, sound, passed⟩
  rw [Context.trace, Context.evaluation]
  split
  · rw [Context.liftPanic_apply, step]
  · exact step

end RouteLaw

def entries (way : List Passage) : List Address :=
  (way.filter Passage.isEntry).map Passage.address

private def Enters (places : List Address) (w w' : World ε) : Prop :=
  ∃ steps : List Passage, w'.passages = steps.reverse ++ w.passages ∧
    (entries steps).Sublist places

private theorem enters_law : RouteLaw (Enters : List Address → World ε → World ε → Prop) where
  frames w frames := ⟨[], rfl, List.nil_sublist _⟩
  ledger w ledger := ⟨[], rfl, List.nil_sublist _⟩
  append := by
    rintro places others w between w' ⟨steps, grown, among⟩ ⟨later, grown', among'⟩
    refine ⟨steps ++ later, by simp [grown, grown'], ?_⟩
    rw [entries, List.filter_append, List.map_append]
    exact among.append among'
  skip := fun within ⟨steps, grown, among⟩ => ⟨steps, grown, among.trans within⟩

theorem tell_proceeds {hook : Option (Hook ε)} (calm : Calm hook) {node : Json}
    {step : World ε → Passage} {R : World ε → World ε → Prop}
    (kept : ∀ w, R w (tell hook node (w.pass (step w))).2) :
    (do Run.change fun w => w.pass (step w); tell hook node).Proceeds R fun _ => True := by
  intro w
  obtain ⟨_, _, returned⟩ := tell_ends hook node (w.pass (step w))
  exact ⟨(), _, Prod.ext (returned calm) rfl, trivial, kept w⟩

private theorem tell_enters (hook : Option (Hook ε)) (node : Json) (w : World ε) (p : Passage) :
    Enters (entries [p]) w (tell hook node (w.pass p)).2 := by
  obtain ⟨env, told, _⟩ := tell_ends hook node (w.pass p)
  rw [told]
  exact ⟨[p], rfl, List.Sublist.refl _⟩

/-- With the standard natives and values without functions, and with hooks that do not panic, a run
returns a value or a failure, which is neither a lifted panic nor about a text that is no document.
It enters nodes in the order in which they stand in the script, each once at most. Hooks that keep a
record in the environment have recorded the way. -/
theorem standard_script_read_once [BEq φ] [Callable φ ε] [Inhabited ε] (c : Context φ ε)
    (standard : c.sandbox.Standard) (before : Calm c.before) (after : Calm c.after)
    (script : Json) (ledger : Ledger) :
    let run := c.run script ledger
    let way := c.way script ledger
    (∃ outcome, run.1 = .returned outcome ∧
      ∀ f, outcome = .error f → f.cause.kind ≠ "Panic" ∧ f.cause.kind ≠ "Json") ∧
    (entries way).Sublist (script.places []) ∧
    (entries way).Nodup ∧
    ∀ record : ε → HookRecord, Writes record true c.before → Writes record false c.after →
      record run.2.1.env = way.reverse.map Passage.told ++ record c.env := by
  intro run way
  let inner := Context.innerRun c.sandbox Context.runLimit
  obtain ⟨outcome, w, traced, sound, steps, grown, among⟩ :=
    enters_law.trace_proceeds standard
      (fun address node => tell_proceeds before fun w =>
        tell_enters c.before node w (.entered address node w.stack))
      (fun address node => tell_proceeds after fun w =>
        tell_enters c.after node w (.left address node w.stack)) inner script ledger
  have ran : run = c.close (.returned outcome, w) := congrArg c.close traced
  have passed : way.reverse = w.passages :=
    (List.reverse_reverse _).trans (congrArg (fun e => e.2.passages) traced)
  have ordered : (entries way).Sublist (script.places []) := by
    rwa [← List.reverse_reverse way, passed, grown, List.append_nil, List.reverse_reverse]
  refine ⟨⟨outcome, congrArg Prod.fst ran, ?_⟩, ordered,
    ordered.nodup (nodup_places.1 script []), ?_⟩
  · rintro f rfl
    exact sound.kind_ne
  · intro record writes writes'
    obtain ⟨_, _, again, _, told, written, recorded⟩ :=
      (recorded_law record).route.trace_proceeds standard
        (fun address node => tell_proceeds before fun w => tell_recorded writes node w rfl)
        (fun address node => tell_proceeds after fun w => tell_recorded writes' node w rfl)
        inner script ledger
    cases traced.symm.trans again
    rw [List.append_nil] at written
    rw [ran, passed, written]
    exact recorded

/-- A branch that is not taken, a call of a value that is no function, and its arguments are not
read; the rest is read from left to right. -/
theorem standard_script_read_up_to_failure :
    let hook (entry : Bool) : Hook HookRecord := fun view node =>
      { env := (entry, node, view.stack) :: view.env }
    let c : Context Probe.Closure HookRecord :=
      { sandbox := Boxes.standard.insertValue "x" (.list [.null]), env := []
        before := some (hook true), after := some (hook false) }
    let choice : Json :=
      .array [.string "if", .array [.string "x"], .array [.string "not", .null], .string "no"]
    let script : Json := .array [.string "do", choice, .array [.array [.string "x"], .null]]
    script.places [] =
      [[], [1], [1, 1], [2, 1], [1, 2, 1], [3, 1], [2], [0, 2], [1, 2]] ∧
    entries (c.way script {}) = [[], [1], [1, 1], [2, 1], [1, 2, 1], [2], [0, 2]] ∧
    (entries (c.way script {})).Sublist (script.places []) ∧
    (entries (c.way script {})).Nodup ∧
    (c.run script {}).2.1.env = (c.way script {}).reverse.map Passage.told ∧
    ∃ f : Failure, (c.run script {}).1 = .returned (.error f) ∧
      f.cause.kind ≠ "Panic" ∧ f.cause.kind ≠ "Json" := by
  intro hook c choice script
  have standard : c.sandbox.Standard := by
    refine Sandbox.Standard.standard.insertValue "x" (Value.functionFree_list.mpr ?_)
    intro v member
    rw [List.mem_singleton.mp member]
    exact Value.functionFree_null
  have calm (entry : Bool) : Calm (some (hook entry)) := by
    rintro h ⟨⟩ view node
    rfl
  obtain ⟨⟨outcome, ran, kinds⟩, ordered, once, recorded⟩ :=
    standard_script_read_once c standard (calm true) (calm false) script {}
  have entered : entries (c.way script {}) = [[], [1], [1, 1], [2, 1], [1, 2, 1], [2], [0, 2]] := by
    decide +kernel
  have written := recorded id ⟨_, rfl, fun _ _ => rfl⟩ ⟨_, rfl, fun _ _ => rfl⟩
  refine ⟨by decide, entered, ordered, once, written.trans (List.append_nil _), ?_⟩
  cases outcome with
  | error f => exact ⟨f, ran, kinds f rfl⟩
  | ok v =>
    have none : (c.run script {}).1.hasValue = false := by decide +kernel
    rw [ran] at none
    cases none

end JsonScript
