import JsonScript.Proofs.Relocation
import JsonScript.Proofs.Visits

/-!
Runs without panics.

Where neither natives nor hooks panic, no evaluation unwinds, and natives that catch panics have
nothing to catch. So an evaluation returns, unless natives start runs inside runs without end, and
the calls in progress are then those that it has found.
-/

set_option autoImplicit false
set_option relaxedAutoImplicit false

namespace JsonScript

open Evaluator

variable {φ ε α β : Type}

def Program.PanicFree : Program φ ε α → Prop
  | .done _ => True
  | .panic _ => False
  | .ask _ next => ∀ reply, (next reply).PanicFree

def Routine.PanicFree (routine : Routine φ ε α) : Prop :=
  Program.PanicFree routine.run

namespace Routine.PanicFree

theorem request (r : Request φ ε) : Routine.PanicFree (Call.request r) :=
  fun _ => trivial

theorem argumentAs (shape : Shape) (index : Nat) :
    Routine.PanicFree (Call.argumentAs shape index : Routine φ ε (shape.Host φ)) :=
  fun _ => trivial

theorem bind {routine : Routine φ ε α} {next : α → Routine φ ε β}
    (first : Routine.PanicFree routine) (rest : ∀ x, Routine.PanicFree (next x)) :
    Routine.PanicFree (routine >>= next) :=
  bind_law (P := fun (_ : Unit) program => program.PanicFree)
    (Q := fun _ program => program.PanicFree) (fun _ x _ => rest x) (fun _ _ _ => trivial)
    (fun _ _ calm => calm.elim) (fun _ _ _ calm ih answer => ih () answer (calm answer)) (s := ())
    first

theorem of_asks {post : α → Nat → Prop} {taken : Nat} {routine : Routine φ ε α}
    (asks : Routine.Asks (fun _ _ => True) post taken routine) : Routine.PanicFree routine := by
  refine Program.Asks.induction (motive := fun _ program => program.PanicFree)
    (fun _ _ _ => trivial) ?_ asks
  intro taken request next _ _ goesOn ends reply
  cases brought : request.failures reply with
  | nil => exact goesOn reply brought trivial
  | cons failure others =>
    rw [ends reply failure others brought]
    trivial

theorem settle (result : Except Failure α) :
    Routine.PanicFree (Call.settle result : Routine φ ε α) :=
  trivial

theorem pure (result : α) : Routine.PanicFree (Pure.pure result : Routine φ ε α) :=
  trivial

end Routine.PanicFree

theorem Probe.Closure.code_panicFree (f : Probe.Closure) :
    Routine.PanicFree (Closure.code f : Native Probe.Closure ε) :=
  Closure.code_law (P := fun _ routine => Routine.PanicFree routine) .pure .bind .argumentAs
    (fun _ => .settle _) (.request _) (.request _) (.request _) f

theorem Boxes.eachNative_panicFree [BEq φ] :
    Boxes.EachNative (Routine.PanicFree : Native φ ε → Prop) :=
  (Boxes.eachNative_asks supplies_anything).mono fun _ asks => .of_asks asks

/-- `Settled cut w e`: from the state `w` the computation has returned with the calls in progress as
they were, or it was cut off, which may happen only if `cut`. -/
inductive Settled (cut : Prop) (w : World ε) : Ending α × World ε → Prop where
  | returned {x : α} {w' : World ε} (restored : w'.frames = w.frames) :
      Settled cut w (.returned x, w')
  | exhausted {w' : World ε} (off : cut) : Settled cut w (.exhausted, w')

namespace Settled

variable {cut : Prop} {w w' : World ε} {e : Ending α × World ε}

theorem not_unwound (settled : Settled cut w e) (payload : Panic) : e.1 ≠ .unwound payload := by
  cases settled <;> nofun

theorem cut_of_exhausted (settled : Settled cut w e) (exhausted : e.1 = .exhausted) : cut := by
  cases settled with
  | returned => cases exhausted
  | exhausted off => exact off

theorem frames_eq {x : α} (settled : Settled cut w (.returned x, w')) : w'.frames = w.frames := by
  cases settled with
  | returned restored => exact restored

end Settled

/-- Whatever state it starts from, the computation does not unwind, restores the calls in progress
if it returns, and is cut off only if `cut`. -/
def Run.Settles (cut : Prop) (m : Run ε α) : Prop :=
  ∀ w, Settled cut w (m w)

namespace Run.Settles

variable {cut : Prop}

private theorem bind {m : Run ε α} {next : α → Run ε β} (first : m.Settles cut)
    (second : ∀ x, (next x).Settles cut) : (m >>= next).Settles cut := by
  intro w
  rw [Run.bind_apply]
  have settled := first w
  generalize m w = e at settled ⊢
  cases settled with
  | exhausted off => exact .exhausted off
  | @returned x between restored =>
    have later := second x between
    dsimp only
    generalize next x between = e at later ⊢
    cases later with
    | exhausted off => exact .exhausted off
    | returned again => exact .returned (again.trans restored)

private theorem within {m : Run ε α} (frame : Frame) (body : m.Settles cut) :
    (Run.within frame m).Settles cut := by
  intro w
  have settled := body { w with frames := frame :: w.frames }
  apply Run.within_cases (motive := Settled cut w)
  · intro x w' step
    rw [step] at settled
    exact .returned (congrArg List.tail settled.frames_eq)
  · intro payload w' step
    rw [step] at settled
    exact absurd rfl (settled.not_unwound payload)
  · intro w' step
    rw [step] at settled
    exact .exhausted (settled.cut_of_exhausted rfl)

private theorem catchPanic {m : Run ε α} (body : m.Settles cut) : m.catchPanic.Settles cut := by
  intro w
  have settled := body w
  unfold Run.catchPanic
  generalize m w = e at settled ⊢
  cases settled with
  | exhausted off => exact .exhausted off
  | returned restored => exact .returned restored

-- Natives that catch panics are no exception: what they evaluate does not unwind.
private theorem law : CallLaw (ε := ε) (Run.Settles cut) where
  look _ _ := .returned rfl
  dispatch arity w := by
    refine .returned ?_
    cases calls : w.frames <;> simp [calls, World.record]
  fresh _ := .returned rfl
  bind := bind
  within := within
  catchPanic := catchPanic

private theorem obeys {routine : Routine φ ε α} (calm : Routine.PanicFree routine) :
    Routine.Obeys (Run.Settles cut) (fun _ => True) routine := by
  intro answers each
  suffices performed : ∀ program : Program φ ε (Except Failure α), program.PanicFree →
      (perform answers program).Settles cut from performed routine.run calm
  intro program calm
  induction program with
  | done result => exact law.pure result
  | panic payload => exact calm.elim
  | ask request next ih => exact bind (each request trivial) fun reply => ih reply (calm reply)

private theorem tell {hook : Option (Hook ε)} (calm : Calm hook) (p : World ε → Passage)
    (node : Json) :
    (do
      Run.change fun w => w.pass (p w)
      Evaluator.tell hook node : Run ε Unit).Settles cut := by
  intro w
  obtain ⟨env, told, returned⟩ := tell_ends hook node (w.pass (p w))
  have ends : Evaluator.tell hook node (w.pass (p w)) = (.returned (), _) :=
    Prod.ext (returned calm) told
  rw [Run.bind_apply]
  simp only [Run.change, ends]
  exact .returned rfl

end Run.Settles

def InnerRun.Calm (inner : InnerRun φ) : Prop :=
  ∀ script ledger payload, (inner script ledger).1 ≠ .unwound payload

private theorem serveInner_settles {inner : InnerRun φ} (calm : inner.Calm) (script : Json) :
    (serveInner inner script : Run ε (Outcome φ)).Settles inner.CutsOff := by
  intro w
  unfold serveInner
  rcases ends : inner script w.ledger with ⟨outcome | payload | _, ledger⟩
  · exact .returned rfl
  · exact absurd (congrArg Prod.fst ends) (calm script w.ledger payload)
  · exact .exhausted ⟨script, w.ledger, congrArg Prod.fst ends⟩

variable [Callable φ ε]

/-- Evaluation returns and restores the calls in progress, or some run that natives start is cut
off. -/
theorem evaluate_settles {setup : Setup φ ε} {inner : InnerRun φ} (innerCalm : inner.Calm)
    (before : Calm setup.before) (after : Calm setup.after)
    (every : setup.sandbox.EveryNative Routine.PanicFree) (node : Json) (address : Address) :
    (evaluate setup inner node address).Settles inner.CutsOff := by
  refine Run.Settles.law.evaluate_lawful (serveInner_settles innerCalm) ?_
    (every.mono fun _ => .obeys) ?_ ?_ node address
  · exact fun env _ w => .returned rfl
  · exact fun address node => .tell before _ node
  · exact fun address node => .tell after _ node

theorem innerRun_calm [Inhabited ε] {sandbox : Sandbox φ ε}
    (every : sandbox.EveryNative Routine.PanicFree) (limit : Nat) :
    (Context.innerRun sandbox limit).Calm := by
  induction limit with
  | zero => exact fun _ _ _ => nofun
  | succ limit ih =>
    intro script ledger
    let c : Context φ ε := .ofSandbox sandbox default
    let inner := Context.innerRun sandbox limit
    have settled : (evaluate c.toSetup inner script []).Settles inner.CutsOff :=
      evaluate_settles ih calm_none calm_none every script []
    have ends := settled { env := default, ledger }
    have unfolded : (Context.innerRun sandbox (limit + 1) script ledger).1 =
        (c.close (evaluate c.toSetup inner script [] { env := default, ledger })).1 := rfl
    rw [unfolded]
    generalize evaluate c.toSetup _ script [] { env := default, ledger } = e at ends ⊢
    cases ends <;> nofun

end JsonScript
