import JsonScript.Proofs.FailureOrigin
import JsonScript.Proofs.Visits

/-!
Single arguments of a call.

The evaluation of an argument enters the argument first and then only what stands inside it, so the
arguments that a call evaluates can be read off the way through the script. Whatever natives do, it
leaves the calls around it in progress, and so no failure leaves it without a stack.
-/

set_option autoImplicit false
set_option relaxedAutoImplicit false

namespace JsonScript

open Evaluator

variable {φ ε α β : Type}

/-- The position of the argument that a step enters, among those of the call at an address. -/
def Passage.argumentOf? (address : Address) : Passage → Option Nat
  | .entered (index :: around) _ _ => if around = address then some index else none
  | _ => none

/-- `Reads address w w' positions`: between the states the arguments at the positions were entered,
in this order, and no other arguments of the call at the address. -/
def Reads (address : Address) (w w' : World ε) (positions : List Nat) : Prop :=
  ∃ steps : List Passage, w'.passages = steps.reverse ++ w.passages ∧
    steps.filterMap (Passage.argumentOf? address) = positions

theorem Reads.of_passages_eq {address : Address} {w w' : World ε}
    (same : w'.passages = w.passages) : Reads address w w' [] :=
  ⟨[], same, rfl⟩

theorem Reads.trans {address : Address} {w between w' : World ε} {positions others : List Nat}
    (first : Reads address w between positions) (second : Reads address between w' others) :
    Reads address w w' (positions ++ others) := by
  obtain ⟨steps, grown, rfl⟩ := first
  obtain ⟨later, grown', rfl⟩ := second
  exact ⟨steps ++ later, by simp [grown, grown'], List.filterMap_append⟩

theorem Reads.of_pass {address : Address} {w w' : World ε} {p : Passage}
    (here : p.address = address) (passed : w'.passages = p :: w.passages) :
    Reads address w w' [] := by
  refine ⟨[p], passed, ?_⟩
  subst here
  have none : p.argumentOf? p.address = none := by
    cases p with
    | left place node stack => cases place <;> rfl
    | entered place node stack =>
      cases place with
      | nil => rfl
      | cons index around => exact if_neg (by simp [Passage.address])
  rw [List.filterMap_cons_none none, List.filterMap_nil]

private def Below (depth : Nat) (w w' : World ε) : Prop :=
  ∃ steps : List Passage, w'.passages = steps.reverse ++ w.passages ∧
    ∀ p ∈ steps, p.isEntry = true → depth < p.address.length

private theorem below_law (depth : Nat) : StepLaw (Below depth : World ε → World ε → Prop) where
  trans := by
    rintro w between w' ⟨steps, grown, below⟩ ⟨later, grown', below'⟩
    refine ⟨steps ++ later, by simp [grown, grown'], ?_⟩
    intro p member
    rcases List.mem_append.mp member with member | member
    · exact below p member
    · exact below' p member
  frames w frames := ⟨[], rfl, by simp⟩
  ledger w ledger := ⟨[], rfl, by simp⟩

private theorem below_keeps (depth : Nat) :
    RunLaw (Run.Keeps (Below depth : World ε → World ε → Prop)) :=
  (below_law depth).keeps

private theorem Below.mono {depth less : Nat} (within : less ≤ depth) {w w' : World ε}
    (below : Below depth w w') : Below less w w' := by
  obtain ⟨steps, grown, deep⟩ := below
  exact ⟨steps, grown, fun p member entry => Nat.lt_of_le_of_lt within (deep p member entry)⟩

private theorem enter_below (setup : Setup φ ε) {depth : Nat} {address : Address}
    (deep : depth < address.length) (node : Json) :
    (enter setup address node).Keeps (Below depth) := by
  intro w
  obtain ⟨env, passed, _⟩ := enter_passes setup address node w
  rw [passed]
  refine ⟨[.entered address node w.stack], rfl, ?_⟩
  intro p member _
  obtain rfl := List.mem_singleton.mp member
  exact deep

private theorem leave_below (setup : Setup φ ε) (depth : Nat) (address : Address) (node : Json) :
    (leave setup address node).Keeps (Below depth) := by
  intro w
  obtain ⟨env, passed, _⟩ := leave_passes setup address node w
  rw [passed]
  refine ⟨[.left address node w.stack], rfl, ?_⟩
  intro p member entry
  obtain rfl := List.mem_singleton.mp member
  cases entry

private theorem leaveWith_below (setup : Setup φ ε) (depth : Nat) (address : Address) (node : Json)
    (outcome : Outcome φ) : (leaveWith setup address node outcome).Keeps (Below depth) := by
  have law := below_keeps depth (ε := ε)
  cases outcome with
  | ok v => exact law.bind (leave_below setup depth address node) fun _ => law.pure _
  | error failure => exact law.pure _

section Evaluation

variable [Callable φ ε] (setup : Setup φ ε) (inner : InnerRun φ)

private theorem evaluateEntered_below (node : Json) (address : Address) :
    (evaluateEntered setup inner node address).Keeps (Below address.length) := by
  have every : setup.sandbox.EveryNative (Routine.Only fun _ => True) :=
    ⟨fun _ native _ => .of_forall (fun _ => trivial) native.run,
      fun f => .of_forall (fun _ => trivial) (Callable.code f : Native φ ε).run⟩
  have around {node : Json} {index : Nat} {address : Address}
      (inside : (evaluateEntered setup inner node (index :: address)).Keeps
        (Below (index :: address).length)) :
      (evaluate setup inner node (index :: address)).Keeps (Below address.length) := by
    have law := below_keeps address.length (ε := ε)
    rw [evaluate_eq]
    refine law.bind (enter_below setup (Nat.lt_succ_self _) node) fun _ => ?_
    refine law.bind (fun w => (inside w).mono (Nat.le_succ _)) fun outcome => ?_
    exact leaveWith_below setup _ _ node outcome
  induction node, address using call_induction with
  | literal node address literal =>
    rw [evaluateEntered_literal setup inner literal]
    exact (below_keeps _).pure _
  | empty address =>
    rw [evaluateEntered, evaluateCall]
    exact (below_keeps _).pure _
  | call head arguments address atHead inside =>
    have runs := (below_law address.length).serveInner_keeps inner (ε := ε)
    refine (below_keeps _).evaluateCall_lawful runs ?_ every ?_ ?_
    · exact fun env _ w => ⟨[], rfl, by simp⟩
    · exact fun computes => around (atHead computes)
    · exact fun index argument found => around (inside index argument found)

private theorem argumentOf?_below {address : Address} {index : Nat} {p : Passage}
    (deep : p.isEntry = true → (index :: address).length < p.address.length) :
    p.argumentOf? address = none := by
  cases p with
  | left place node stack => cases place <;> rfl
  | entered place node stack =>
    cases place with
    | nil => rfl
    | cons position around =>
      have longer : (index :: address).length < (position :: around).length := deep rfl
      have other : around ≠ address := by
        rintro rfl
        exact Nat.lt_irrefl _ longer
      exact if_neg other

theorem evaluate_reads (argument : Json) (index : Nat) (address : Address) (w : World ε) :
    Reads address w (evaluate setup inner argument (index :: address) w).2 [index] := by
  obtain ⟨env, passed, _⟩ := enter_passes setup (index :: address) argument w
  have entered : Reads address w (enter setup (index :: address) argument w).2 [index] := by
    rw [passed]
    refine ⟨[.entered (index :: address) argument w.stack], rfl, ?_⟩
    simp [Passage.argumentOf?]
  have law := below_keeps (index :: address).length (ε := ε)
  have inside := law.bind (evaluateEntered_below setup inner argument (index :: address))
    (leaveWith_below setup _ (index :: address) argument)
  rw [evaluate_eq]
  apply Run.bind_cases (motive := fun e => Reads address w e.2 [index])
  · intro _ between step
    rw [step] at entered
    obtain ⟨steps, grown, below⟩ := inside between
    have nothing : steps.filterMap (Passage.argumentOf? address) = [] := by
      rw [List.filterMap_eq_nil_iff]
      intro p member
      exact argumentOf?_below (below p member)
    exact entered.trans ⟨steps, grown, nothing⟩
  · intro payload w' step
    rwa [step] at entered
  · intro w' step
    rwa [step] at entered

end Evaluation

private def Shelters (m : Run ε α) : Prop :=
  m.Keeps fun w w' => w.frames <:+ w'.frames

namespace Shelters

private theorem bind {m : Run ε α} {next : α → Run ε β} (first : Shelters m)
    (second : ∀ x, Shelters (next x)) : Shelters (m >>= next) := by
  intro w
  have kept := first w
  apply Run.bind_cases (motive := fun e => w.frames <:+ e.2.frames)
  · intro x between step
    rw [step] at kept
    exact kept.trans (second x between)
  · intro payload w' step
    rwa [step] at kept
  · intro w' step
    rwa [step] at kept

private theorem catchPanic {m : Run ε α} (body : Shelters m) : Shelters m.catchPanic := by
  intro w
  have kept := body w
  unfold Run.catchPanic
  generalize m w = e at kept ⊢
  obtain ⟨x | payload | _, w'⟩ := e <;> exact kept

private theorem within {m : Run ε α} (frame : Frame) (body : Shelters m) :
    Shelters (Run.within frame m) := by
  intro w
  have kept := body { w with frames := frame :: w.frames }
  apply Run.within_cases (motive := fun e => w.frames <:+ e.2.frames)
  · intro x w' step
    rw [step] at kept
    obtain ⟨above, same⟩ := kept
    change w.frames <:+ w'.frames.tail
    rw [← same]
    cases above with
    | nil => exact List.suffix_refl w.frames
    | cons top above => exact ⟨above ++ [frame], by simp⟩
  · intro payload w' step
    rw [step] at kept
    exact (List.suffix_cons frame w.frames).trans kept
  · intro w' step
    rw [step] at kept
    exact (List.suffix_cons frame w.frames).trans kept

private theorem law : CallLaw (ε := ε) Shelters where
  look _ w := List.suffix_refl w.frames
  dispatch arity w := (reportDispatch_keepsCalls arity w).kept
  fresh w := List.suffix_refl w.frames
  bind := bind
  within := within
  catchPanic := catchPanic

private theorem obeys (routine : Routine φ ε α) :
    Routine.Obeys Shelters (fun _ => True) routine := by
  intro answers each
  suffices performed : ∀ program : Program φ ε (Except Failure α),
      Shelters (perform answers program) from performed routine.run
  intro program
  induction program with
  | done result => exact law.pure result
  | panic payload => exact fun w => List.suffix_refl w.frames
  | ask request next ih => exact bind (each request trivial) ih

private theorem serveInner (inner : InnerRun φ) (script : Json) :
    Shelters (serveInner inner script : Run ε (Outcome φ)) :=
  fun w => List.suffix_refl w.frames

private theorem setEnvironment (env : ε) : Shelters (Run.change fun w => { w with env }) :=
  fun w => List.suffix_refl w.frames

end Shelters

section Evaluation

variable [Callable φ ε] (setup : Setup φ ε) (inner : InnerRun φ)

private theorem evaluate_shelters (node : Json) (address : Address) :
    Shelters (evaluate setup inner node address) := by
  refine Shelters.law.evaluate_lawful (Shelters.serveInner inner)
    (fun env _ => .setEnvironment env) ⟨fun _ native _ => .obeys native, fun f => .obeys _⟩ ?_ ?_
    node address
  · exact fun address node w => (enter_keepsCalls setup address node w).kept
  · exact fun address node w => (leave_keepsCalls setup address node w).kept

private theorem native_shelters (arguments : List Json) (address : Address)
    (native : Native φ ε) :
    Shelters (perform (answer setup inner arguments (evaluations setup inner arguments address 1))
      native.run) :=
  Shelters.law.perform_lawful (Shelters.serveInner inner) (fun env _ => .setEnvironment env)
    (fun index argument _ => evaluate_shelters setup inner argument (index :: address))
    (.obeys native)

omit [Callable φ ε] in
private theorem stamp_located {current : Stack} (located : current.isEmpty = false) (g : Failure) :
    (g.stamp current).stack.isEmpty = false := by
  unfold Failure.stamp
  split
  · exact located
  · simp_all

variable {setup inner}

theorem evaluate_fails_located {node : Json} {address : Address} {w w' : World ε} {f : Failure}
    (fails : evaluate setup inner node address w = (.returned (.error f), w')) :
    f.stack.isEmpty = false := by
  induction node, address using call_induction generalizing w w' with
  | literal node address literal =>
    obtain ⟨_, _, rfl⟩ := call_of_fails fails
    exact absurd rfl (literal _)
  | empty address =>
    obtain ⟨_, _, same⟩ := call_of_fails fails
    cases same
  | call head arguments address atHead inside =>
    rcases call_fails_iff.mp fails with
      ⟨entered, _, resolves⟩ | ⟨callee, called, last, opens, served, _⟩
    · obtain ⟨computes, headFails⟩ := resolve_fails resolves
      exact atHead computes headFails
    · have under : called.frames.isEmpty = false := by
        cases opens
        rfl
      cases callee with
      | none =>
        cases served
        exact under
      | some binding =>
        cases binding with
        | value v => cases served
        | callable native =>
          obtain ⟨g, performed, rfl⟩ := serve_native_fails_iff.mp served
          have sheltered := native_shelters setup inner arguments address native
            (reportDispatch arguments.length called).2
          rw [performed] at sheltered
          have kept : called.frames <:+ last.frames :=
            (reportDispatch_keepsCalls arguments.length called).kept.trans sheltered
          apply stamp_located
          rw [List.isEmpty_eq_false_iff] at under
          exact List.isEmpty_eq_false_iff.mpr (kept.ne_nil under)

end Evaluation

end JsonScript
