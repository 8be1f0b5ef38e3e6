import JsonScript.Proofs.FailureTrail
import JsonScript.Proofs.HookBrackets
import JsonScript.Proofs.StandardBox

/-!
Panics are traced as failures are.

A native that panics stops the run where it stands, and the calls in progress are read off the
state. A native that fails returns, and so does every call around it, but the failure has been given
the calls before. Where no native holds back the failure of an argument, both are reported with the
same calls.
-/

set_option autoImplicit false
set_option relaxedAutoImplicit false

namespace JsonScript

open Evaluator

variable {φ ε α β : Type}

def Request.argumentFailure? : (r : Request φ ε) → r.Reply → Option Failure
  | .argument _ _, .error f => some f
  | .argumentIfAny _ _, .error f => some f
  | .attempt _, .ok (.error f) => some f
  | _, _ => none

private theorem Request.failures_of_argumentFailure? {r : Request φ ε} {reply : r.Reply}
    {f : Failure} (declined : r.argumentFailure? reply = some f) : r.failures reply = [f] := by
  unfold argumentFailure? at declined
  split at declined
  · cases declined
    rfl
  · cases declined
    rfl
  · cases declined
    rfl
  · cases declined

private theorem Request.passes_of_isDirect {r : Request φ ε} (direct : r.isDirect = true) :
    r.catchesPanic = false ∧ r.startsRun = false := by
  cases r with
  | arity | argument | argumentIfAny | failure => exact ⟨rfl, rfl⟩
  | raw | attempt | stack | environment | setEnvironment | bound | lifting | fresh | run =>
    cases direct

/-- Whatever the replies are, the program makes allowed requests only, and ends at once with the
failure of an argument. -/
def Program.Relays (allowed : Request φ ε → Prop) : Program φ ε (Except Failure α) → Prop
  | .done _ => True
  | .panic _ => True
  | .ask request next =>
    allowed request ∧ ∀ reply,
      match request.argumentFailure? reply with
      | none => (next reply).Relays allowed
      | some failure => next reply = .done (.error failure)

theorem Program.Relays.only {allowed : Request φ ε → Prop}
    {program : Program φ ε (Except Failure α)} (relays : program.Relays allowed) :
    program.Only allowed := by
  induction program with
  | done result => trivial
  | panic payload => trivial
  | ask request next ih =>
    refine ⟨relays.1, fun reply => ?_⟩
    have goesOn := relays.2 reply
    split at goesOn
    · exact ih reply goesOn
    · rw [goesOn]
      trivial

theorem Program.Relays.candid {allowed : Request φ ε → Prop}
    (passes : ∀ r, allowed r → r.catchesPanic = false)
    {program : Program φ ε (Except Failure α)} (relays : program.Relays allowed) :
    program.Candid := by
  induction program with
  | done result => trivial
  | panic payload => trivial
  | ask request next ih =>
    intro reply
    have goesOn := relays.2 reply
    cases failed : request.argumentFailure? reply with
    | some f =>
      rw [failed] at goesOn
      change next reply = _ at goesOn
      rw [goesOn]
      exact ⟨trivial, fun _ => trivial⟩
    | none =>
      rw [failed] at goesOn
      refine ⟨ih reply goesOn, fun brought => ?_⟩
      unfold Request.argumentFailed at brought
      split at brought
      · cases failed
      · cases failed
      · cases passes _ relays.1
      · cases failed
      · cases brought

/-- A routine makes allowed requests only, and ends at once with the failure of an argument. -/
def Routine.RelaysOver (allowed : Request φ ε → Prop) (routine : Routine φ ε α) : Prop :=
  Program.Relays allowed routine.run

/-- A routine ends at once with the failure of an argument, catches no panic and starts no run. -/
def Routine.Relays (routine : Routine φ ε α) : Prop :=
  routine.RelaysOver fun r => r.catchesPanic = false ∧ r.startsRun = false

namespace Routine.RelaysOver

variable {allowed : Request φ ε → Prop}

theorem settle (result : Except Failure α) :
    Routine.RelaysOver allowed (Call.settle result : Routine φ ε α) :=
  trivial

theorem pure (x : α) : Routine.RelaysOver allowed (Pure.pure x : Routine φ ε α) :=
  trivial

theorem bind {routine : Routine φ ε α} {next : α → Routine φ ε β}
    (first : routine.RelaysOver allowed) (rest : ∀ x, (next x).RelaysOver allowed) :
    Routine.RelaysOver allowed (routine >>= next) := by
  refine bind_law (P := fun (_ : Unit) program => program.Relays allowed)
    (Q := fun _ program => program.Relays allowed) (fun _ x _ => rest x) (fun _ _ _ => trivial)
    (fun _ _ _ => trivial) ?_ (s := ()) first
  intro _ request reply relays ih
  refine ⟨relays.1, fun answer => ?_⟩
  have goesOn := relays.2 answer
  cases failed : request.argumentFailure? answer with
  | none =>
    rw [failed] at goesOn
    exact ih () answer goesOn
  | some failure =>
    rw [failed] at goesOn
    change Program.bind (reply answer) _ = _
    rw [goesOn]
    rfl

theorem request {r : Request φ ε} (permitted : allowed r)
    (other : ∀ reply, r.argumentFailure? reply = none) :
    Routine.RelaysOver allowed (Call.request r) := by
  refine ⟨permitted, fun reply => ?_⟩
  rw [other reply]
  trivial

theorem argumentAs {shape : Shape} {index : Nat} (permitted : allowed (.argument shape index)) :
    Routine.RelaysOver allowed (Call.argumentAs shape index) := by
  refine ⟨permitted, fun reply => ?_⟩
  cases reply with
  | ok x => trivial
  | error failure => rfl

theorem mono {wider : Request φ ε → Prop} (wide : ∀ r, allowed r → wider r)
    {routine : Routine φ ε α} (relays : routine.RelaysOver allowed) :
    routine.RelaysOver wider := by
  suffices law : ∀ program : Program φ ε (Except Failure α), program.Relays allowed →
      program.Relays wider from law routine.run relays
  intro program relays
  induction program with
  | done result => trivial
  | panic payload => trivial
  | ask request next ih =>
    refine ⟨wide request relays.1, fun reply => ?_⟩
    have goesOn := relays.2 reply
    cases failed : request.argumentFailure? reply with
    | some failure =>
      rw [failed] at goesOn
      exact goesOn
    | none =>
      rw [failed] at goesOn
      exact ih reply goesOn

end Routine.RelaysOver

namespace Routine.Relays

theorem of_asks {post : α → Nat → Prop} {taken : Nat} {routine : Routine φ ε α}
    (asks : Routine.Asks (fun _ _ => True) post taken routine) : Routine.Relays routine := by
  let allowed (r : Request φ ε) : Prop := r.catchesPanic = false ∧ r.startsRun = false
  refine Program.Asks.induction (motive := fun _ program => program.Relays allowed)
    (fun _ _ _ => trivial) ?_ asks
  intro taken request next direct _ goesOn ends
  refine ⟨Request.passes_of_isDirect direct, fun reply => ?_⟩
  cases declined : request.argumentFailure? reply with
  | some failure => exact ends reply failure [] (Request.failures_of_argumentFailure? declined)
  | none =>
    cases brought : request.failures reply with
    | nil => exact goesOn reply brought trivial
    | cons failure others =>
      change Program.Relays allowed (next reply)
      rw [ends reply failure others brought]
      trivial

end Routine.Relays

namespace Boxes

theorem eachNative_relays [BEq φ] : EachNative (Routine.Relays : Native φ ε → Prop) :=
  (eachNative_asks supplies_anything).mono fun _ asks => .of_asks asks

theorem standard_relays [BEq φ] [Callable φ ε]
    (functions : ∀ f : φ, Routine.Relays (Callable.code f : Native φ ε)) :
    (standard : Sandbox φ ε).EveryNative Routine.Relays :=
  ⟨fun _ _ found => eachNative_relays.standard_binds.of_find? found, functions⟩

end Boxes

theorem Probe.Closure.code_relays (f : Probe.Closure) :
    Routine.Relays (Closure.code f : Native Probe.Closure ε) :=
  Closure.code_law (P := fun _ routine => Routine.Relays routine) .pure .bind
    (fun _ _ => .argumentAs ⟨rfl, rfl⟩) (fun _ => .settle _) (.request ⟨rfl, rfl⟩ fun _ => rfl)
    (.request ⟨rfl, rfl⟩ fun _ => rfl) (.request ⟨rfl, rfl⟩ fun _ => rfl) f

def Passage.calls (name : String) : Passage → Bool
  | .entered _ (.array (.string other :: _)) _ => other == name
  | _ => false

/-- The computation has not been cut off, has not entered a call of the name, and has restored the
calls in progress if it returned. -/
structure Steady (name : String) (w : World ε) (e : Ending α × World ε) : Prop where
  ends : e.1 ≠ .exhausted
  restores : ∀ x, e.1 = .returned x → e.2.frames = w.frames
  quiet : ∃ steps, e.2.passages = steps ++ w.passages ∧ ∀ p ∈ steps, p.calls name = false

/-- Two computations from one state are steady and end alike; or the name was called, and the first
unwinds with the message at this call, where the second has failed and has returned since. What
the second returned brings the failure, with the calls that the first has left in progress. -/
inductive Parted (name message : String) (brings : α → Failure → Prop) (w : World ε) :
    Ending α × World ε → Ending α × World ε → Prop where
  | together {e : Ending α × World ε} (steady : Steady name w e) :
    Parted name message brings w e e
  | apart (w' : World ε) {x : α} (called : ∃ p ∈ w'.passages, p.calls name = true)
    (inside : w'.frames ≠ []) (brought : brings x ⟨.native message, w'.stack⟩) :
    Parted name message brings w (.unwound (.text message), w')
      (.returned x, { w' with frames := w.frames })

/-- From every state, the two computations part at most where the name is called. -/
def Run.Parts (name message : String) (brings : α → Failure → Prop) (m m' : Run ε α) : Prop :=
  ∀ w, Parted name message brings w (m w) (m' w)

theorem Steady.look (name : String) (view : World ε → α) (w : World ε) :
    Steady name w (Run.look view w) :=
  ⟨nofun, fun _ _ => rfl, [], rfl, nofun⟩

namespace Run.Parts

variable {name message : String} {brings : α → Failure → Prop}

theorem steady {m : Run ε α} (steady : ∀ w, Steady name w (m w)) :
    m.Parts name message brings m :=
  fun w => .together (steady w)

theorem look (view : World ε → α) : (Run.look view).Parts name message brings (Run.look view) :=
  steady (Steady.look name view)

theorem pure (x : α) : (Pure.pure x : Run ε α).Parts name message brings (Pure.pure x) :=
  look fun _ => x

theorem mono {wider : α → Failure → Prop} {m m' : Run ε α} (parts : m.Parts name message brings m')
    (wide : ∀ x f, brings x f → wider x f) : m.Parts name message wider m' := by
  intro w
  have parted := parts w
  generalize m w = e at parted ⊢
  generalize m' w = e' at parted ⊢
  cases parted with
  | together steady => exact .together steady
  | apart w' called inside brought => exact .apart w' called inside (wide _ _ brought)

theorem bind {after : β → Failure → Prop} {m m' : Run ε α} {next next' : α → Run ε β}
    (first : m.Parts name message brings m')
    (second : ∀ x, (next x).Parts name message after (next' x))
    (relays : ∀ x f, brings x f → f.stack.isEmpty = false →
      ∀ w, ∃ y, next' x w = (.returned y, w) ∧ after y f) :
    (m >>= next).Parts name message after (m' >>= next') := by
  intro w
  rw [Run.bind_apply, Run.bind_apply]
  have parted := first w
  generalize m w = e at parted ⊢
  generalize m' w = e' at parted ⊢
  cases parted with
  | @apart w' x called inside brought =>
    have traced : (⟨.native message, w'.stack⟩ : Failure).stack.isEmpty = false := by
      simpa [Stack.isEmpty, World.stack] using inside
    obtain ⟨y, step, kept⟩ := relays x _ brought traced { w' with frames := w.frames }
    simp only [step]
    exact .apart w' called inside kept
  | together steady =>
    obtain ⟨ending, between⟩ := e
    obtain ⟨ends, restores, steps, grown, quiet⟩ := steady
    cases ending with
    | exhausted => exact absurd rfl ends
    | unwound payload =>
      refine .together ⟨?_, ?_, steps, grown, quiet⟩
      · rintro ⟨⟩
      · rintro _ ⟨⟩
    | returned x =>
      have restored : between.frames = w.frames := restores x rfl
      have passed : between.passages = steps ++ w.passages := grown
      have parted := second x between
      dsimp only
      generalize next x between = e at parted ⊢
      generalize next' x between = e' at parted ⊢
      cases parted with
      | apart w' called inside brought =>
        rw [restored]
        exact .apart w' called inside brought
      | together steady =>
        obtain ⟨ends', restores', later, grown', quiet'⟩ := steady
        refine .together ⟨ends', fun y done => (restores' y done).trans restored,
          later ++ steps, by simp [grown', passed], ?_⟩
        intro p member
        exact (List.mem_append.mp member).elim (quiet' p) (quiet p)

theorem after {first : Run ε β} {next next' : β → Run ε α} (steady : ∀ w, Steady name w (first w))
    (rest : ∀ x, (next x).Parts name message brings (next' x)) :
    (first >>= next).Parts name message brings (first >>= next') := by
  have alike : first.Parts name message (fun _ _ => False) first := .steady steady
  exact alike.bind rest fun _ _ none => none.elim

private theorem within_apply (frame : Frame) (body : Run ε α) (w : World ε) :
    Run.within frame body w =
      match body { w with frames := frame :: w.frames } with
      | (.returned x, w') => (.returned x, { w' with frames := w'.frames.tail })
      | (.unwound payload, w') => (.unwound payload, w')
      | (.exhausted, w') => (.exhausted, w') := by
  refine Run.within_cases (motive := fun e => e = _) ?_ ?_ ?_
  · exact fun x w' step => by rw [step]
  · exact fun payload w' step => by rw [step]
  · exact fun w' step => by rw [step]

theorem within {frame : Frame} {body body' : Run ε α}
    (inside : body.Parts name message brings body') :
    (Run.within frame body).Parts name message brings (Run.within frame body') := by
  intro w
  have parted := inside { w with frames := frame :: w.frames }
  rw [within_apply, within_apply]
  generalize body { w with frames := frame :: w.frames } = e at parted ⊢
  generalize body' { w with frames := frame :: w.frames } = e' at parted ⊢
  cases parted with
  | apart w' called inside brought => exact .apart w' called inside brought
  | together steady =>
    obtain ⟨ending, w'⟩ := e
    obtain ⟨ends, restores, grown⟩ := steady
    cases ending with
    | exhausted => exact absurd rfl ends
    | unwound payload =>
      refine .together ⟨?_, ?_, grown⟩
      · rintro ⟨⟩
      · rintro _ ⟨⟩
    | returned x =>
      refine .together ⟨?_, fun _ _ => ?_, grown⟩
      · rintro ⟨⟩
      · exact congrArg List.tail (restores x rfl)

end Run.Parts

section Serving

variable {name message : String}

variable {setup setup' : Setup φ ε}

end Serving

section Evaluation

variable [Callable φ ε]

def Setup.bind (setup : Setup φ ε) (name : String) (native : Routine φ ε (Value φ)) :
    Setup φ ε :=
  { setup with sandbox := setup.sandbox.insertNative name native }

variable {setup : Setup φ ε} {name message : String}

end Evaluation

variable [Callable φ ε]

end JsonScript
