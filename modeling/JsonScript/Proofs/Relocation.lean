import JsonScript.Proofs.Course
import JsonScript.Proofs.ReadingOrder

/-!
Two runs side by side.

A script can be moved to another place of another script, under other calls. What natives learn of
the place are the calls in progress, and failures show them too. Natives that make nothing of this
do the same in both places, and so does the script: it has the same value, or a failure with the
same cause, and leaves the same environment.
-/

set_option autoImplicit false
set_option relaxedAutoImplicit false

namespace JsonScript

open Evaluator

variable {φ ε α β γ δ : Type}

/-- Both have values that are related, or both have failures with the same cause. -/
inductive Akin (R : α → β → Prop) : Except Failure α → Except Failure β → Prop where
  | ok {x : α} {y : β} (related : R x y) : Akin R (.ok x) (.ok y)
  | error {f g : Failure} (same : f.cause = g.cause) : Akin R (.error f) (.error g)

@[simp] theorem Failure.stamp_cause (current : Stack) (f : Failure) :
    (f.stamp current).cause = f.cause := by
  unfold Failure.stamp
  split <;> rfl

namespace Akin

variable {R : α → β → Prop} {x : Except Failure α} {y : Except Failure β}

theorem mono {S : α → β → Prop} (akin : Akin R x y) (wider : ∀ x y, R x y → S x y) :
    Akin S x y := by
  cases akin with
  | ok related => exact .ok (wider _ _ related)
  | error same => exact .error same

theorem refl (x : Except Failure α) : Akin Eq x x := by
  cases x with
  | ok x => exact .ok rfl
  | error f => exact .error rfl

theorem stamp_left {f : Failure} (akin : Akin R (.error f) y) (current : Stack) :
    Akin R (.error (f.stamp current)) y := by
  cases akin with
  | error same => exact .error ((f.stamp_cause current).trans same)

theorem stamp_right {f : Failure} (akin : Akin R x (.error f)) (current : Stack) :
    Akin R x (.error (f.stamp current)) := by
  cases akin with
  | error same => exact .error (same.trans (f.stamp_cause current).symm)

end Akin

/-- Where a run is: the calls in progress, and the addresses whose entry is watched. -/
structure Station where
  calls : List Frame
  watched : List Address

def Station.under (frame : Frame) (s : Station) : Station :=
  { s with calls := frame :: s.calls }

/-- The runs are at their stations, and the states agree in all that does not show the place. -/
structure Abreast (l r : Station) (w v : World ε) : Prop where
  left : w.frames = l.calls
  right : v.frames = r.calls
  env : w.env = v.env
  fresh : w.ledger.nextFresh = v.ledger.nextFresh

theorem Abreast.swap {l r : Station} {w v : World ε} (abreast : Abreast l r w v) :
    Abreast r l v w :=
  ⟨abreast.right, abreast.left, abreast.env.symm, abreast.fresh.symm⟩

/-- `Touches watched w w' touched`: between the states, of the watched addresses those in `touched`
were entered, in this order. -/
def Touches (watched : List Address) (w w' : World ε) (touched : List Address) : Prop :=
  ∃ steps : List Passage, w'.passages = steps.reverse ++ w.passages ∧
    (entries steps).filter (· ∈ watched) = touched

namespace Touches

variable {watched : List Address} {w between w' : World ε} {touched others : List Address}

theorem nothing (same : w'.passages = w.passages) : Touches watched w w' [] :=
  ⟨[], same, rfl⟩

theorem trans (first : Touches watched w between touched)
    (second : Touches watched between w' others) : Touches watched w w' (touched ++ others) := by
  obtain ⟨steps, grown, rfl⟩ := first
  obtain ⟨later, grown', rfl⟩ := second
  exact ⟨steps ++ later, by simp [grown, grown'], by simp [entries]⟩

end Touches

/-- How two computations end that started at the stations: both return, with results and visits of
watched addresses as said, or both are cut off. -/
inductive Couple (cut : Prop) (l r : Station) (Q : α → β → List (Address × Address) → Prop)
    (w v : World ε) : Ending α × World ε → Ending β × World ε → Prop where
  | returned {x : α} {y : β} {w' v' : World ε} (visits : List (Address × Address))
      (held : Q x y visits) (abreast : Abreast l r w' v')
      (left : Touches l.watched w w' (visits.map Prod.fst))
      (right : Touches r.watched v v' (visits.map Prod.snd)) :
      Couple cut l r Q w v (.returned x, w') (.returned y, v')
  | exhausted {w' v' : World ε} (off : cut) :
      Couple cut l r Q w v (.exhausted, w') (.exhausted, v')

namespace Couple

variable {cut : Prop} {l r : Station} {P : α → β → List (Address × Address) → Prop}
  {w v : World ε} {e : Ending α × World ε} {e' : Ending β × World ε}

theorem mono {wider : α → β → List (Address × Address) → Prop} (ends : Couple cut l r P w v e e')
    (wide : ∀ x y visits, P x y visits → wider x y visits) : Couple cut l r wider w v e e' := by
  cases ends with
  | returned visits held abreast left right =>
    exact .returned visits (wide _ _ _ held) abreast left right
  | exhausted off => exact .exhausted off

theorem swap (ends : Couple cut l r P w v e e') :
    Couple cut r l (fun y x visits => P x y (visits.map Prod.swap)) v w e' e := by
  cases ends with
  | returned visits held abreast left right =>
    refine .returned (visits.map Prod.swap) ?_ abreast.swap ?_ ?_
    · simpa using held
    · rw [List.map_map]
      exact right
    · rw [List.map_map]
      exact left
  | exhausted off => exact .exhausted off

end Couple

def Together (cut : Prop) (l r : Station) (Q : α → β → List (Address × Address) → Prop)
    (m : Run ε α) (m' : Run ε β) : Prop :=
  ∀ w v : World ε, Abreast l r w v → Couple cut l r Q w v (m w) (m' v)

/-- Between the states nothing has happened that matters to the other run. -/
structure Idle (watched : List Address) (w w' : World ε) : Prop where
  frames : w'.frames = w.frames
  env : w'.env = w.env
  fresh : w'.ledger.nextFresh = w.ledger.nextFresh
  untouched : Touches watched w w' []

/-- At the station the computation returns as said, and nothing happens that matters to the other
run. -/
def Run.Idles (s : Station) (post : α → Prop) (m : Run ε α) : Prop :=
  ∀ w : World ε, w.frames = s.calls →
    ∃ x w', m w = (.returned x, w') ∧ post x ∧ Idle s.watched w w'

theorem Idle.abreast {l r : Station} {w w' v : World ε} (idle : Idle l.watched w w')
    (abreast : Abreast l r w v) : Abreast l r w' v :=
  ⟨idle.frames.trans abreast.left, abreast.right, idle.env.trans abreast.env,
    idle.fresh.trans abreast.fresh⟩

theorem Couple.after {cut : Prop} {l r : Station} {P : α → β → List (Address × Address) → Prop}
    {w between v : World ε} {e : Ending α × World ε} {e' : Ending β × World ε}
    (ends : Couple cut l r P between v e e') (idle : Idle l.watched w between) :
    Couple cut l r P w v e e' := by
  cases ends with
  | exhausted off => exact .exhausted off
  | returned visits held abreast left right =>
    exact .returned visits held abreast (idle.untouched.trans left) right

def Unseen (R : α → β → Prop) (x : α) (y : β) (visits : List (Address × Address)) : Prop :=
  R x y ∧ visits = []

namespace Together

variable {cut : Prop} {l r : Station} {P : α → β → List (Address × Address) → Prop}
  {Q : γ → δ → List (Address × Address) → Prop} {m : Run ε α} {m' : Run ε β}

theorem mono {wider : α → β → List (Address × Address) → Prop} (both : Together cut l r P m m')
    (wide : ∀ x y visits, P x y visits → wider x y visits) : Together cut l r wider m m' :=
  fun w v abreast => (both w v abreast).mono wide

theorem swap (both : Together cut l r P m m') :
    Together cut r l (fun y x visits => P x y (visits.map Prod.swap)) m' m :=
  fun v w abreast => (both w v abreast.swap).swap

theorem look {view : World ε → α} {view' : World ε → β}
    (held : ∀ w v, Abreast l r w v → P (view w) (view' v) []) :
    Together cut l r P (Run.look view) (Run.look view') :=
  fun w v abreast =>
    .returned [] (held w v abreast) abreast (.nothing rfl) (.nothing rfl)

theorem pure {x : α} {y : β} (held : P x y []) :
    Together cut l r P (Pure.pure x : Run ε α) (Pure.pure y) :=
  look fun _ _ _ => held

theorem change {P : Unit → Unit → List (Address × Address) → Prop}
    {update update' : World ε → World ε} (visits : List (Address × Address)) (held : P () () visits)
    (abreast : ∀ w v, Abreast l r w v → Abreast l r (update w) (update' v))
    (left : ∀ w, Touches l.watched w (update w) (visits.map Prod.fst))
    (right : ∀ v, Touches r.watched v (update' v) (visits.map Prod.snd)) :
    Together cut l r P (Run.change update) (Run.change update') :=
  fun w v here => .returned visits held (abreast w v here) (left w) (right v)

theorem bind {next : α → Run ε γ} {next' : β → Run ε δ} (first : Together cut l r P m m')
    (second : ∀ x y visits, P x y visits →
      Together cut l r (fun x y later => Q x y (visits ++ later)) (next x) (next' y)) :
    Together cut l r Q (m >>= next) (m' >>= next') := by
  intro w v abreast
  have ends := first w v abreast
  rw [Run.bind_apply, Run.bind_apply]
  generalize m w = e at ends ⊢
  generalize m' v = e' at ends ⊢
  cases ends with
  | exhausted off => exact .exhausted off
  | @returned x y between between' visits held abreast left right =>
    have rest := second x y visits held between between' abreast
    dsimp only
    generalize next x between = e at rest ⊢
    generalize next' y between' = e' at rest ⊢
    cases rest with
    | exhausted off => exact .exhausted off
    | returned later held abreast left' right' =>
      refine .returned (visits ++ later) held abreast ?_ ?_
      · rw [List.map_append]
        exact left.trans left'
      · rw [List.map_append]
        exact right.trans right'

theorem follow {R : α → β → Prop} {next : α → Run ε γ} {next' : β → Run ε δ}
    (first : Together cut l r (Unseen R) m m')
    (second : ∀ x y, R x y → Together cut l r Q (next x) (next' y)) :
    Together cut l r Q (m >>= next) (m' >>= next') := by
  refine first.bind ?_
  rintro x y _ ⟨related, rfl⟩
  exact second x y related

theorem before_left {post : γ → Prop} {first : Run ε γ} {next : γ → Run ε α}
    (idles : first.Idles l post) (rest : ∀ x, post x → Together cut l r P (next x) m') :
    Together cut l r P (first >>= next) m' := by
  intro w v abreast
  obtain ⟨x, between, step, held, idle⟩ := idles w abreast.left
  rw [Run.bind_apply, step]
  exact (rest x held between v (idle.abreast abreast)).after idle

theorem after_left {Q : γ → β → List (Address × Address) → Prop} {next : α → Run ε γ}
    (both : Together cut l r P m m')
    (idles : ∀ x y visits, P x y visits → (next x).Idles l (Q · y visits)) :
    Together cut l r Q (m >>= next) m' := by
  intro w v abreast
  have ends := both w v abreast
  rw [Run.bind_apply]
  generalize m w = e at ends ⊢
  generalize m' v = e' at ends ⊢
  cases ends with
  | exhausted off => exact .exhausted off
  | returned visits here abreast left right =>
    obtain ⟨z, w', step, held, idle⟩ := idles _ _ visits here _ abreast.left
    dsimp only
    rw [step]
    refine .returned visits held (idle.abreast abreast) ?_ right
    simpa using left.trans idle.untouched

theorem before_right {post : γ → Prop} {first : Run ε γ} {next : γ → Run ε β}
    (idles : first.Idles r post) (rest : ∀ x, post x → Together cut l r P m (next x)) :
    Together cut l r P m (first >>= next) := by
  have swapped := before_left idles fun x held => (rest x held).swap
  simpa using swapped.swap

theorem after_right {Q : α → γ → List (Address × Address) → Prop} {next : β → Run ε γ}
    (both : Together cut l r P m m')
    (idles : ∀ x y visits, P x y visits → (next y).Idles r (Q x · visits)) :
    Together cut l r Q m (m' >>= next) := by
  have swapped := after_left (Q := fun z x visits => Q x z (visits.map Prod.swap)) both.swap
    fun y x visits held => idles x y (visits.map Prod.swap) held
  simpa using swapped.swap

theorem within_left {frame : Frame} (body : Together cut (l.under frame) r P m m') :
    Together cut l r P (Run.within frame m) m' := by
  intro w v abreast
  have ends := body { w with frames := frame :: w.frames } v
    ⟨congrArg (frame :: ·) abreast.left, abreast.right, abreast.env, abreast.fresh⟩
  generalize m' v = e' at ends ⊢
  refine Run.within_cases (motive := fun e => Couple cut l r P w v e e') ?_ ?_ ?_
  · intro x w' step
    rw [step] at ends
    cases ends with
    | returned visits held abreast left right =>
      refine .returned visits held ⟨?_, abreast.right, abreast.env, abreast.fresh⟩ left right
      exact congrArg List.tail abreast.left
  · intro payload w' step
    rw [step] at ends
    cases ends
  · intro w' step
    rw [step] at ends
    cases ends with
    | exhausted off => exact .exhausted off

theorem within {frame frame' : Frame}
    (body : Together cut (l.under frame) (r.under frame') P m m') :
    Together cut l r P (Run.within frame m) (Run.within frame' m') := by
  have left := body.within_left
  simpa using left.swap.within_left.swap

theorem catchPanic {R : α → β → Prop} (body : Together cut l r (Unseen R) m m') :
    Together cut l r (Unseen fun x y => ∃ a b, x = .ok a ∧ y = .ok b ∧ R a b) m.catchPanic
      m'.catchPanic := by
  intro w v abreast
  have ends := body w v abreast
  unfold Run.catchPanic
  generalize m w = e at ends ⊢
  generalize m' v = e' at ends ⊢
  cases ends with
  | exhausted off => exact .exhausted off
  | returned visits held abreast left right =>
    exact .returned visits ⟨⟨_, _, rfl, rfl, held.1⟩, held.2⟩ abreast left right

end Together

/-- The replies differ at most in what shows the place: failures may show other calls. Of the calls
in progress the label of the innermost is the same. -/
def Request.Akin : (r : Request φ ε) → r.Reply → r.Reply → Prop
  | .argument _ _ => JsonScript.Akin Eq
  | .argumentIfAny _ _ => JsonScript.Akin Eq
  | .attempt _ => fun x y => ∃ a b, x = .ok a ∧ y = .ok b ∧ JsonScript.Akin Eq a b
  | .failure _ => fun f g => f.cause = g.cause
  | .stack => fun s t => s.innermost?.map Frame.label = t.innermost?.map Frame.label
  | .run _ => JsonScript.Akin Eq
  | _ => Eq

/-- Given replies that differ at most in what shows the place, the programs make the same requests
and end with related results. They do not panic. -/
inductive Program.Agree (R : α → β → Prop) : Program φ ε α → Program φ ε β → Prop where
  | done {x : α} {y : β} (related : R x y) : Agree R (.done x) (.done y)
  | ask (request : Request φ ε) {next : request.Reply → Program φ ε α}
      {next' : request.Reply → Program φ ε β}
      (rest : ∀ x y, request.Akin x y → Agree R (next x) (next' y)) :
      Agree R (.ask request next) (.ask request next')

/-- A routine that does not panic and makes nothing of the place where it is called. -/
def Routine.Placeless (routine : Routine φ ε α) : Prop :=
  Program.Agree (Akin Eq) routine.run routine.run

namespace Routine.Placeless

theorem bind {routine : Routine φ ε α} {next : α → Routine φ ε β}
    (first : Routine.Placeless routine) (rest : ∀ x, Routine.Placeless (next x)) :
    Routine.Placeless (routine >>= next) := by
  -- The index is the other program, which is carried out in the other place.
  refine bind_law (P := fun other program => program.Agree (Akin Eq) other)
    (Q := fun other program => program.Agree (Akin Eq) (other >>= ExceptT.bindCont next))
    ?_ ?_ (fun _ _ agree => nomatch agree) ?_ first
  · intro other x agree
    cases agree with
    | done akin =>
      cases akin with
      | ok same =>
        cases same
        exact rest x
  · intro other f agree
    cases agree with
    | done akin =>
      cases akin with
      | error same => exact .done (.error same)
  · intro other request reply agree ih
    cases agree with
    | ask _ related => exact .ask request fun x y akin => ih _ x (related x y akin)

theorem request {r : Request φ ε} (same : ∀ x y, r.Akin x y → x = y) :
    Routine.Placeless (Call.request r) :=
  .ask r fun x y akin => .done (.ok (same x y akin))

theorem argumentAs (shape : Shape) (index : Nat) :
    Routine.Placeless (Call.argumentAs shape index : Routine φ ε (shape.Host φ)) :=
  .ask _ fun _ _ akin => .done akin

theorem of_asks {post : α → Nat → Prop} {taken : Nat} {routine : Routine φ ε α}
    (asks : Routine.Asks (fun _ _ => True) post taken routine) : Routine.Placeless routine := by
  refine Program.Asks.induction (motive := fun _ program => program.Agree (Akin Eq) program)
    (fun _ _ _ => .done (.ok rfl)) ?_ asks
  intro taken request next direct _ goesOn ends
  refine .ask request fun x y akin => ?_
  -- Either both replies bring failures, and the routine ends with them, or they are the same.
  have alike (same : x = y) : (next x).Agree (Akin Eq) (next y) := by
    subst same
    cases brought : request.failures x with
    | nil => exact goesOn x brought trivial
    | cons failure others =>
      rw [ends x failure others brought]
      exact .done (.error rfl)
  have fails {f g : Failure} (left : request.failures x = [f]) (right : request.failures y = [g])
      (same : f.cause = g.cause) : (next x).Agree (Akin Eq) (next y) := by
    rw [ends x f [] left, ends y g [] right]
    exact .done (.error same)
  cases request with
  | argument shape index | argumentIfAny shape index =>
    cases akin with
    | ok same => exact alike (congrArg Except.ok same)
    | error same => exact fails rfl rfl same
  | failure message => exact fails rfl rfl akin
  | arity => exact alike akin
  | raw | attempt | stack | environment | setEnvironment | bound | lifting | fresh | run =>
    cases direct

end Routine.Placeless

def InnerRun.CutsOff (inner : InnerRun φ) : Prop :=
  ∃ script ledger, (inner script ledger).1 = .exhausted

/-- Runs that natives start do not depend on the events that were reported before. -/
def InnerRun.Steady (inner : InnerRun φ) : Prop :=
  ∀ (script : Json) (ledger other : Ledger), ledger.nextFresh = other.nextFresh →
    (∃ x y after after', inner script ledger = (.returned x, after) ∧
      inner script other = (.returned y, after') ∧ Akin Eq x y ∧
        after.nextFresh = after'.nextFresh) ∨
    (inner script ledger).1 = .exhausted ∧ (inner script other).1 = .exhausted

section Requests

variable {cut : Prop} {l r : Station}

theorem perform_together {answers answers' : (r : Request φ ε) → Run ε r.Reply}
    (each : ∀ request : Request φ ε,
      Together cut l r (Unseen request.Akin) (answers request) (answers' request))
    {R : α → β → Prop} {program : Program φ ε α} {program' : Program φ ε β}
    (agree : program.Agree R program') :
    Together cut l r (Unseen R) (perform answers program) (perform answers' program') := by
  induction agree with
  | done related => exact .pure ⟨related, rfl⟩
  | ask request _ ih => exact (each request).follow ih

private theorem served_together {R : Outcome φ → Outcome φ → List (Address × Address) → Prop}
    {Q : α → α → List (Address × Address) → Prop} {serve : Run ε (Outcome φ) → Run ε α}
    {otherwise : Run ε α}
    (present : ∀ {m m'}, Together cut l r R m m' → Together cut l r Q (serve m) (serve m'))
    (absent : Together cut l r Q otherwise otherwise) {found found' : Option (Run ε (Outcome φ))} :
    Option.Rel (Together cut l r R) found found' →
    Together cut l r Q
      (match found with | some evaluation => serve evaluation | none => otherwise)
      (match found' with | some evaluation => serve evaluation | none => otherwise) := by
  intro related
  cases related with
  | some body => exact present body
  | none => exact absent

section Labels

variable (labels : l.calls.head?.map Frame.label = r.calls.head?.map Frame.label)

include labels

private theorem label_eq {w v : World ε} (abreast : Abreast l r w v) : w.label = v.label := by
  rw [World.label, World.label, abreast.left, abreast.right, labels]

private theorem missing_together {R : α → β → Prop} (index : Nat) :
    Together cut l r (Unseen (Akin R)) (missing index : Run ε (Except Failure α))
      (missing index : Run ε (Except Failure β)) := by
  refine .look fun w v abreast => ⟨.error ?_, rfl⟩
  exact congrArg (Cause.missingArgument · index) (label_eq labels abreast)

private theorem fetch_together (shape : Shape) (index : Nat) {m m' : Run ε (Outcome φ)}
    (body : Together cut l r (Unseen (Akin Eq)) m m') :
    Together cut l r (Unseen (Akin Eq)) (fetch shape index m) (fetch shape index m') := by
  refine body.follow fun x y akin => ?_
  cases akin with
  | error same => exact .pure ⟨.error same, rfl⟩
  | @ok v _ same =>
    cases same
    simp only [convert]
    cases shape.fromValue v with
    | ok x => exact .pure ⟨.ok rfl, rfl⟩
    | error mismatch =>
      refine .look fun w v abreast => ⟨.error ?_, rfl⟩
      exact congrArg (Cause.argumentType · index mismatch) (label_eq labels abreast)

omit labels in
private theorem serveInner_together {inner : InnerRun φ} (steady : inner.Steady) (script : Json) :
    Together inner.CutsOff l r (Unseen (Akin Eq)) (serveInner inner script : Run ε (Outcome φ))
      (serveInner inner script) := by
  intro w v abreast
  unfold serveInner
  rcases steady script w.ledger v.ledger abreast.fresh with
    ⟨x, y, after, after', left, right, akin, fresh⟩ | ⟨left, right⟩
  · rw [left, right]
    exact .returned [] ⟨akin, rfl⟩ ⟨abreast.left, abreast.right, abreast.env, fresh⟩
      (.nothing rfl) (.nothing rfl)
  · have off : inner.CutsOff := ⟨script, w.ledger, left⟩
    generalize inner script w.ledger = e at left ⊢
    generalize inner script v.ledger = e' at right ⊢
    obtain ⟨_, after⟩ := e
    obtain ⟨_, after'⟩ := e'
    cases left
    cases right
    exact .exhausted off

theorem answer_together {setup : Setup φ ε} {inner : InnerRun φ} (steady : inner.Steady)
    (arguments : List Json) {evaluations evaluations' : List (Run ε (Outcome φ))}
    (inside : ∀ index, Option.Rel (Together inner.CutsOff l r (Unseen (Akin Eq)))
      (argumentAt? evaluations index) (argumentAt? evaluations' index)) (request : Request φ ε) :
    Together inner.CutsOff l r (Unseen request.Akin)
      (answer setup inner arguments evaluations request)
      (answer setup inner arguments evaluations' request) := by
  cases request with
  | arity | raw | bound | lifting => exact .pure ⟨rfl, rfl⟩
  | argument shape index =>
    exact served_together (fetch_together labels shape index) (missing_together labels index)
      (inside index)
  | argumentIfAny shape index =>
    refine served_together (fun body => ?_) (.pure ⟨.ok rfl, rfl⟩) (inside index)
    refine (fetch_together labels shape index body).follow fun x y akin => .pure ⟨?_, rfl⟩
    cases akin with
    | ok same => exact .ok (congrArg some same)
    | error same => exact .error same
  | attempt index =>
    refine served_together (fun body => body.catchPanic) ?_ (inside index)
    exact (missing_together labels index).follow fun x y akin =>
      .pure ⟨⟨x, y, rfl, rfl, akin⟩, rfl⟩
  | failure message => exact .look fun _ _ _ => ⟨rfl, rfl⟩
  | stack =>
    refine .look fun w v abreast => ⟨?_, rfl⟩
    show w.frames.head?.map Frame.label = v.frames.head?.map Frame.label
    rw [abreast.left, abreast.right, labels]
  | environment => exact .look fun _ _ abreast => ⟨abreast.env, rfl⟩
  | setEnvironment env =>
    refine .change [] ⟨rfl, rfl⟩ ?_ (fun _ => .nothing rfl) fun _ => .nothing rfl
    exact fun _ _ abreast => ⟨abreast.left, abreast.right, rfl, abreast.fresh⟩
  | fresh =>
    exact fun w v abreast => .returned [] ⟨abreast.fresh, rfl⟩
      ⟨abreast.left, abreast.right, abreast.env, congrArg (· + 1) abreast.fresh⟩
      (.nothing rfl) (.nothing rfl)
  | run script => exact serveInner_together steady script

end Labels

end Requests

section Idling

variable (s : Station)

theorem Idle.pass {watched : List Address} {p : Passage}
    (unwatched : (entries [p]).filter (· ∈ watched) = []) (w : World ε) :
    Idle watched w (w.pass p) :=
  ⟨rfl, rfl, rfl, [p], rfl, unwatched⟩

theorem reportDispatch_idles (arity : Nat) :
    (reportDispatch arity : Run ε Unit).Idles s fun _ => True := by
  intro w _
  refine ⟨(), _, rfl, trivial, ?_⟩
  dsimp only
  split
  · exact ⟨rfl, rfl, rfl, .nothing rfl⟩
  · exact ⟨rfl, rfl, rfl, .nothing rfl⟩

theorem stamp_idles (outcome : Outcome φ) :
    (stamp outcome : Run ε (Outcome φ)).Idles s fun x =>
      ∃ current, x = outcome.mapError (Failure.stamp current) :=
  fun w _ => ⟨_, w, rfl, ⟨w.stack, rfl⟩, rfl, rfl, rfl, .nothing rfl⟩

variable {setup : Setup φ ε}

theorem enter_silent (before : setup.before = none) (address : Address) (node : Json) :
    enter setup address node =
      Run.change fun w => w.pass (.entered address node w.stack) := by
  unfold enter
  rw [before]
  rfl

theorem enter_idles (before : setup.before = none) {address : Address}
    (unwatched : address ∉ s.watched) (node : Json) :
    (enter setup address node).Idles s fun _ => True := by
  rw [enter_silent before]
  refine fun w _ => ⟨(), _, rfl, trivial, .pass ?_ w⟩
  show [address].filter (· ∈ s.watched) = []
  simp [unwatched]

theorem leaveWith_idles (after : setup.after = none) (address : Address) (node : Json)
    {outcome : Outcome φ} {post : Outcome φ → Prop} (held : post outcome) :
    (leaveWith setup address node outcome).Idles s post := by
  intro w _
  cases outcome with
  | error failure => exact ⟨_, w, rfl, held, rfl, rfl, rfl, .nothing rfl⟩
  | ok v =>
    refine ⟨.ok v, w.pass (.left address node w.stack), ?_, held, .pass rfl w⟩
    unfold leaveWith leave
    rw [after]
    rfl

end Idling

def Station.Unwatched (s : Station) (address : Address) : Prop :=
  ∀ place ∈ s.watched, ¬address <:+ place

namespace Station.Unwatched

variable {s : Station} {address : Address}

theorem inside (unwatched : s.Unwatched address) (index : Nat) : s.Unwatched (index :: address) :=
  fun place member below => unwatched place member ((List.suffix_cons _ _).trans below)

theorem not_mem (unwatched : s.Unwatched address) : address ∉ s.watched :=
  fun member => unwatched address member (List.suffix_refl _)

end Station.Unwatched

/-- The place is watched, and nothing inside of it is. -/
structure Station.Watches (s : Station) (place : Address) : Prop where
  here : place ∈ s.watched
  inside : ∀ index, s.Unwatched (index :: place)

theorem Station.Watches.under {s : Station} {place : Address} (watches : s.Watches place)
    (frame : Frame) : (s.under frame).Watches place :=
  ⟨watches.here, watches.inside⟩

section Evaluation

variable [Callable φ ε] {setup : Setup φ ε} {inner : InnerRun φ} {cut : Prop} {l r : Station}
  (before : setup.before = none) (after : setup.after = none)

include before after

theorem evaluate_left {Q : Outcome φ → β → List (Address × Address) → Prop} {m : Run ε β}
    {node : Json} {address : Address} (unwatched : address ∉ l.watched)
    (inside : Together cut l r Q (evaluateEntered setup inner node address) m) :
    Together cut l r Q (evaluate setup inner node address) m := by
  rw [evaluate_eq]
  refine .before_left (enter_idles l before unwatched node) fun _ _ => ?_
  exact inside.after_left fun _ _ _ held => leaveWith_idles l after address node held

theorem evaluate_watched {Q : Outcome φ → Outcome φ → List (Address × Address) → Prop}
    {node node' : Json} {a b : Address} (left : a ∈ l.watched) (right : b ∈ r.watched)
    (inside : Together cut l r (fun x y later => Q x y ((a, b) :: later))
      (evaluateEntered setup inner node a) (evaluateEntered setup inner node' b)) :
    Together cut l r Q (evaluate setup inner node a) (evaluate setup inner node' b) := by
  rw [evaluate_eq, evaluate_eq, enter_silent before, enter_silent before]
  refine Together.bind (P := fun _ _ visits => visits = [(a, b)]) ?_ ?_
  · refine .change [(a, b)] rfl ?_ (fun w => ?_) fun v => ?_
    · exact fun _ _ abreast => ⟨abreast.left, abreast.right, abreast.env, abreast.fresh⟩
    · refine ⟨[.entered a node w.stack], rfl, ?_⟩
      show [a].filter (· ∈ l.watched) = [a]
      simp [left]
    · refine ⟨[.entered b node' v.stack], rfl, ?_⟩
      show [b].filter (· ∈ r.watched) = [b]
      simp [right]
  · rintro _ _ _ rfl
    refine Together.after_right (P := fun x y later => Q x y ((a, b) :: later)) ?_ ?_
    · exact inside.after_left fun _ _ _ held => leaveWith_idles l after a node held
    · exact fun _ _ _ held => leaveWith_idles r after b node' held

theorem evaluate_unwatched {R : Outcome φ → Outcome φ → Prop} {node node' : Json} {a b : Address}
    (left : a ∉ l.watched) (right : b ∉ r.watched)
    (inside : Together cut l r (Unseen R) (evaluateEntered setup inner node a)
      (evaluateEntered setup inner node' b)) :
    Together cut l r (Unseen R) (evaluate setup inner node a) (evaluate setup inner node' b) := by
  have first := evaluate_left before after left inside
  simpa using (evaluate_left before after right first.swap).swap

variable (steady : inner.Steady) (every : setup.sandbox.EveryNative Routine.Placeless)

include steady

omit [Callable φ ε] before after in
private theorem invoke_together
    (labels : l.calls.head?.map Frame.label = r.calls.head?.map Frame.label)
    (arguments : List Json) {evaluations evaluations' : List (Run ε (Outcome φ))}
    (inside : ∀ index, Option.Rel (Together inner.CutsOff l r (Unseen (Akin Eq)))
      (argumentAt? evaluations index) (argumentAt? evaluations' index))
    {native : Native φ ε} (placeless : Routine.Placeless native) :
    Together inner.CutsOff l r (Unseen (Akin Eq))
      (invoke setup inner arguments evaluations native)
      (invoke setup inner arguments evaluations' native) := by
  refine .before_left (reportDispatch_idles l _) fun _ _ => ?_
  refine .before_right (reportDispatch_idles r _) fun _ _ => ?_
  refine (perform_together (answer_together labels steady arguments inside) placeless).follow ?_
  refine fun x y akin => .look fun w v _ => ⟨?_, rfl⟩
  cases akin with
  | ok same => exact .ok same
  | error same => exact .error (by simpa using same)

include every

omit before after steady in
private theorem resolve_together (head : Json) {a b : Address}
    (computed : (∀ name, head ≠ .string name) →
      Together inner.CutsOff l r (Unseen (Akin Eq)) (evaluate setup inner head (0 :: a))
        (evaluate setup inner head (0 :: b))) :
    Together inner.CutsOff l r
      (Unseen (Akin fun callee other => callee = other ∧
        ∀ native, callee = some (.callable native) → Routine.Placeless native))
      (resolve setup inner head a) (resolve setup inner head b) := by
  by_cases byName : ∃ name, head = .string name
  · obtain ⟨name, rfl⟩ := byName
    exact .pure ⟨.ok ⟨rfl, every.1 name⟩, rfl⟩
  · have computes (name : String) : head ≠ .string name := fun same => byName ⟨name, same⟩
    rw [resolve_computed setup inner computes, resolve_computed setup inner computes]
    refine (computed computes).follow fun x y akin => ?_
    cases akin with
    | error same => exact .pure ⟨.error same, rfl⟩
    | @ok callee _ same =>
      cases same
      refine .pure ⟨.ok ⟨rfl, ?_⟩, rfl⟩
      intro native found
      cases callee with
      | function f =>
        cases found
        exact every.2 f
      | null | bool | number | text | list | object => cases found

/-- What a node is evaluated to does not depend on the place: by induction on the node, for any two
addresses and any two stations that watch nothing inside. -/
theorem evaluateEntered_together (node : Json) (a b : Address) (l r : Station)
    (left : ∀ index, l.Unwatched (index :: a)) (right : ∀ index, r.Unwatched (index :: b)) :
    Together inner.CutsOff l r (Unseen (Akin Eq)) (evaluateEntered setup inner node a)
      (evaluateEntered setup inner node b) := by
  induction node, a using call_induction generalizing b l r with
  | literal node a literal =>
    rw [evaluateEntered_literal setup inner literal, evaluateEntered_literal setup inner literal]
    exact .pure ⟨.ok rfl, rfl⟩
  | empty a =>
    rw [evaluateEntered, evaluateEntered, evaluateCall, evaluateCall]
    exact .pure ⟨.ok rfl, rfl⟩
  | call head arguments a atHead inside =>
    rw [evaluateEntered, evaluateEntered, evaluateCall_cons, evaluateCall_cons]
    refine Together.follow (R := fun depth depth' =>
      depth = l.calls.length + 1 ∧ depth' = r.calls.length + 1) ?_ ?_
    · refine .look fun w v abreast => ⟨⟨?_, ?_⟩, rfl⟩
      · rw [abreast.left]
      · rw [abreast.right]
    rintro _ _ ⟨rfl, rfl⟩
    refine (resolve_together every head fun computes => ?_).follow fun x y akin => ?_
    · exact evaluate_unwatched before after (left 0).not_mem (right 0).not_mem
        (atHead computes (0 :: b) l r (left 0).inside (right 0).inside)
    cases akin with
    | error same => exact .pure ⟨.error same, rfl⟩
    | @ok callee _ known =>
      obtain ⟨rfl, placeless⟩ := known
      refine .within ?_
      cases callee with
      | none => exact .look fun _ _ _ => ⟨.error rfl, rfl⟩
      | some binding =>
        cases binding with
        | value v => exact .pure ⟨.ok rfl, rfl⟩
        | callable native =>
          refine invoke_together steady ?_ arguments (fun index => ?_) (placeless native rfl)
          · rfl
          rw [argumentAt?_evaluations, argumentAt?_evaluations]
          cases found : argumentAt? arguments index with
          | none => exact .none
          | some argument =>
            refine .some (evaluate_unwatched before after (left index).not_mem
              (right index).not_mem ?_)
            exact inside index argument found (index :: b) _ _ (left index).inside
              (right index).inside

theorem evaluate_together (node : Json) {a b : Address} (left : l.Watches a) (right : r.Watches b) :
    Together inner.CutsOff l r (fun x y visits => Akin Eq x y ∧ visits = [(a, b)])
      (evaluate setup inner node a) (evaluate setup inner node b) := by
  refine evaluate_watched before after left.here right.here ?_
  refine (evaluateEntered_together before after steady every node a b l r left.inside
    right.inside).mono ?_
  rintro x y _ ⟨akin, rfl⟩
  exact ⟨akin, rfl⟩

end Evaluation

theorem innerRun_steady [Callable φ ε] [Inhabited ε] {sandbox : Sandbox φ ε}
    (every : sandbox.EveryNative Routine.Placeless) (limit : Nat) :
    (Context.innerRun sandbox limit).Steady := by
  induction limit with
  | zero => exact fun _ _ _ _ => .inr ⟨rfl, rfl⟩
  | succ limit ih =>
    intro script ledger other fresh
    let c : Context φ ε := .ofSandbox sandbox default
    let root : Station := ⟨[], []⟩
    have unwatched (address : Address) : root.Unwatched address := fun _ none => nomatch none
    have before : c.toSetup.before = none := rfl
    have after : c.toSetup.after = none := rfl
    have both := evaluate_unwatched before after (unwatched []).not_mem (unwatched []).not_mem
      (evaluateEntered_together before after ih every script [] [] root root
        (fun _ => unwatched _) fun _ => unwatched _)
    have ends := both { env := default, ledger } { env := default, ledger := other }
      ⟨rfl, rfl, rfl, fresh⟩
    have unfolded (ledger : Ledger) : Context.innerRun sandbox (limit + 1) script ledger =
        let closed := c.close (evaluate c.toSetup (Context.innerRun sandbox limit) script []
          { env := default, ledger })
        (closed.1, closed.2.2) := rfl
    rw [unfolded, unfolded]
    generalize evaluate c.toSetup _ script [] { env := default, ledger } = e at ends ⊢
    generalize evaluate c.toSetup _ script [] { env := default, ledger := other } = e' at ends ⊢
    cases ends with
    | exhausted off => exact .inr ⟨rfl, rfl⟩
    | @returned x y w v visits held abreast left right =>
      have kept (outcome : Outcome φ) (ledger : Ledger) :
          (Context.reportFailure outcome ledger).nextFresh = ledger.nextFresh := by
        cases outcome <;> rfl
      refine .inl ⟨x, y, _, _, rfl, rfl, held.1, ?_⟩
      simp only [Context.close, kept]
      exact abreast.fresh

end JsonScript
