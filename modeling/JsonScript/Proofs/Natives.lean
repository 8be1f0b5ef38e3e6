import JsonScript.Probe.Natives

/-!
Promises about natives.

A native is a tree of requests, so what it promises can be read off its tree: which requests it
makes at all, and where the failures come from with which it ends. The laws here follow the
combinators that natives are written with.
-/

set_option autoImplicit false
set_option relaxedAutoImplicit false

namespace JsonScript

variable {φ ε α β : Type}

namespace Program

/-- A property of programs passes on to sequences if it does so where the first program ends and
after each of its requests. It may depend on an index, such as what is known from the replies. -/
theorem bind_law {σ : Type} {P : σ → Program φ ε α → Prop} {Q : σ → Program φ ε β → Prop}
    {next : α → Program φ ε β} (done : ∀ s x, P s (.done x) → Q s (next x))
    (panic : ∀ s payload, P s (.panic payload) → Q s (.panic payload))
    (ask : ∀ s request reply, P s (.ask request reply) →
      (∀ t answer, P t (reply answer) → Q t (reply answer >>= next)) →
        Q s (.ask request fun answer => reply answer >>= next))
    {s : σ} {program : Program φ ε α} (holds : P s program) : Q s (program >>= next) := by
  induction program generalizing s with
  | done x => exact done s x holds
  | panic payload => exact panic s payload holds
  | ask request reply ih => exact ask s request reply holds fun t answer => ih answer

/-- Whatever the replies are, the program makes allowed requests only. -/
def Only (allowed : Request φ ε → Prop) : Program φ ε α → Prop
  | .done _ => True
  | .panic _ => True
  | .ask request next => allowed request ∧ ∀ reply, (next reply).Only allowed

theorem Only.mono {allowed wider : Request φ ε → Prop} (wide : ∀ r, allowed r → wider r)
    {program : Program φ ε α} (only : program.Only allowed) : program.Only wider := by
  induction program with
  | done result => trivial
  | panic payload => trivial
  | ask request next ih =>
    obtain ⟨first, rest⟩ := only
    exact ⟨wide request first, fun reply => ih reply (rest reply)⟩

theorem Only.of_forall {allowed : Request φ ε → Prop} (all : ∀ r, allowed r)
    (program : Program φ ε α) : program.Only allowed := by
  induction program with
  | done result => trivial
  | panic payload => trivial
  | ask request next ih => exact ⟨all request, ih⟩

theorem Only.bind {allowed : Request φ ε → Prop} {program : Program φ ε α}
    {next : α → Program φ ε β} (first : program.Only allowed)
    (rest : ∀ result, (next result).Only allowed) : (program >>= next).Only allowed :=
  bind_law (P := fun (_ : Unit) program => program.Only allowed)
    (Q := fun _ program => program.Only allowed) (fun _ result _ => rest result)
    (fun _ _ _ => trivial)
    (fun _ _ _ only ih => ⟨only.1, fun answer => ih () answer (only.2 answer)⟩) (s := ()) first

end Program

/-- A routine that fails goes no further. -/
theorem Routine.bind_law {σ : Type} {P : σ → Program φ ε (Except Failure α) → Prop}
    {Q : σ → Program φ ε (Except Failure β) → Prop} {next : α → Routine φ ε β}
    (ok : ∀ s x, P s (.done (.ok x)) → Q s (next x).run)
    (error : ∀ s f, P s (.done (.error f)) → Q s (.done (.error f)))
    (panic : ∀ s payload, P s (.panic payload) → Q s (.panic payload))
    (ask : ∀ s request reply, P s (.ask request reply) →
      (∀ t answer, P t (reply answer) → Q t (reply answer >>= ExceptT.bindCont next)) →
        Q s (.ask request fun answer => reply answer >>= ExceptT.bindCont next))
    {s : σ} {program : Program φ ε (Except Failure α)} (holds : P s program) :
    Q s (program >>= ExceptT.bindCont next) := by
  refine Program.bind_law (fun s result holds => ?_) panic ask holds
  cases result with
  | ok x => exact ok s x holds
  | error f => exact error s f holds

def Routine.Only (allowed : Request φ ε → Prop) (routine : Routine φ ε α) : Prop :=
  Program.Only allowed routine.run

namespace Routine.Only

variable {allowed : Request φ ε → Prop}

theorem request {r : Request φ ε} (permitted : allowed r) : Routine.Only allowed (Call.request r) :=
  ⟨permitted, fun _ => trivial⟩

theorem settle (result : Except Failure α) :
    Routine.Only allowed (Call.settle result : Routine φ ε α) :=
  trivial

theorem pure (result : α) : Routine.Only allowed (Pure.pure result : Routine φ ε α) :=
  trivial

theorem panic (payload : Panic) : Routine.Only allowed (Call.panic payload : Routine φ ε α) :=
  trivial

theorem bind {routine : Routine φ ε α} {next : α → Routine φ ε β}
    (first : Routine.Only allowed routine) (rest : ∀ result, Routine.Only allowed (next result)) :
    Routine.Only allowed (routine >>= next) := by
  refine Program.Only.bind first ?_
  intro result
  cases result with
  | ok x => exact rest x
  | error failure => trivial

theorem tryCatch {routine : Routine φ ε α} {handler : Failure → Routine φ ε α}
    (first : Routine.Only allowed routine) (rest : ∀ f, Routine.Only allowed (handler f)) :
    Routine.Only allowed (MonadExcept.tryCatch routine handler) := by
  refine Program.Only.bind first ?_
  intro result
  cases result with
  | ok x => trivial
  | error failure => exact rest failure

theorem argumentAs {shape : Shape} {index : Nat} (permitted : allowed (.argument shape index)) :
    Routine.Only allowed (Call.argumentAs shape index) :=
  bind (request permitted) fun _ => settle _

end Routine.Only

def Request.failures : (r : Request φ ε) → r.Reply → List Failure
  | .argument _ _, .error f => [f]
  | .argumentIfAny _ _, .error f => [f]
  | .attempt _, .ok (.error f) => [f]
  | .failure _, f => [f]
  | .run _, .error f => [f]
  | _, _ => []

/-- Whatever the replies are, the program fails only with failures that are known at the start,
with failures that replies brought it, or in its own words. -/
def Program.Honest (known : List Failure) : Program φ ε (Except Failure α) → Prop
  | .done (.ok _) => True
  | .done (.error f) => f ∈ known ∨ ∃ message, f = .native message
  | .panic _ => True
  | .ask request next => ∀ reply, (next reply).Honest (request.failures reply ++ known)

/-- A routine fails only with failures that it was given, or in its own words. -/
def Routine.Honest (known : List Failure) (routine : Routine φ ε α) : Prop :=
  Program.Honest known routine.run

theorem Program.Honest.mono {program : Program φ ε (Except Failure α)}
    {known more : List Failure} (honest : program.Honest known)
    (wide : ∀ f ∈ known, f ∈ more ∨ ∃ message, f = .native message) : program.Honest more := by
  induction program generalizing known more with
  | done result =>
    cases result with
    | ok x => trivial
    | error f => exact honest.elim (wide f) .inr
  | panic payload => trivial
  | ask request next ih =>
    intro reply
    refine ih reply (honest reply) ?_
    intro f member
    rcases List.mem_append.mp member with brought | before
    · exact .inl (List.mem_append_left _ brought)
    · exact (wide f before).imp_left (List.mem_append_right _)

theorem Program.Honest.bind {program : Program φ ε (Except Failure α)}
    {next : Except Failure α → Program φ ε (Except Failure β)} {known : List Failure}
    (honest : program.Honest known) (succeeded : ∀ x, (next (.ok x)).Honest known)
    (failed : ∀ f, (next (.error f)).Honest (f :: known)) : (program >>= next).Honest known := by
  -- What is known grows from reply to reply, and always holds what was known at the start.
  refine bind_law (P := fun more program => program.Honest more ∧ known ⊆ more)
    (Q := fun more program => program.Honest more) ?_ (fun _ _ _ => trivial) ?_ (s := known)
    ⟨honest, List.Subset.refl known⟩
  · rintro more (f | x) ⟨here, wide⟩
    · refine (failed f).mono ?_
      intro g member
      rcases List.mem_cons.mp member with rfl | before
      · exact here
      · exact .inl (wide before)
    · exact (succeeded x).mono fun g member => .inl (wide member)
  · rintro more request reply ⟨here, wide⟩ ih answer
    exact ih _ answer ⟨here answer, fun g member => List.mem_append_right _ (wide member)⟩

namespace Routine.Honest

variable {known : List Failure}

theorem pure (result : α) : Routine.Honest known (Pure.pure result : Routine φ ε α) :=
  trivial

theorem ownWords (message : String) :
    Routine.Honest known (throw (.native message) : Routine φ ε α) :=
  .inr ⟨message, rfl⟩

theorem request (r : Request φ ε) : Routine.Honest known (Call.request r) :=
  fun _ => trivial

theorem argumentAs (shape : Shape) (index : Nat) :
    Routine.Honest known (Call.argumentAs shape index : Routine φ ε (shape.Host φ)) := by
  intro reply
  cases reply with
  | ok x => trivial
  | error f => exact .inl (by simp [Request.failures])

theorem bind {routine : Routine φ ε α} {next : α → Routine φ ε β}
    (first : Routine.Honest known routine) (rest : ∀ x, Routine.Honest known (next x)) :
    Routine.Honest known (routine >>= next) :=
  Program.Honest.bind first rest fun _ => .inl List.mem_cons_self

theorem tryCatch {routine : Routine φ ε α} {handler : Failure → Routine φ ε α}
    (first : Routine.Honest known routine)
    (rest : ∀ f, Routine.Honest (f :: known) (handler f)) :
    Routine.Honest known (MonadExcept.tryCatch routine handler) :=
  Program.Honest.bind first (fun _ => trivial) rest

end Routine.Honest

def Program.Fails : Program φ ε (Except Failure α) → Prop
  | .done (.ok _) => False
  | .done (.error _) => True
  | .panic _ => True
  | .ask _ next => ∀ reply, (next reply).Fails

def Request.argumentFailed : (r : Request φ ε) → r.Reply → Bool
  | .argument _ _, .error _ => true
  | .argumentIfAny _ _, .error _ => true
  | .attempt _, .error _ => true
  | .attempt _, .ok (.error _) => true
  | _, _ => false

/-- Whatever the replies are, the program does not succeed once an argument has failed. -/
def Program.Candid : Program φ ε (Except Failure α) → Prop
  | .done _ => True
  | .panic _ => True
  | .ask request next =>
    ∀ reply, (next reply).Candid ∧ (request.argumentFailed reply = true → (next reply).Fails)

def Routine.Candid (routine : Routine φ ε α) : Prop :=
  Program.Candid routine.run

private theorem fails_bind {program : Program φ ε (Except Failure α)}
    {next : α → Routine φ ε β} (fails : program.Fails) :
    Program.Fails (program >>= ExceptT.bindCont next) :=
  Routine.bind_law (P := fun (_ : Unit) program => program.Fails)
    (Q := fun _ program => program.Fails) (fun _ _ fails => fails.elim) (fun _ _ _ => trivial)
    (fun _ _ _ => trivial) (fun _ _ _ fails ih answer => ih () answer (fails answer)) (s := ())
    fails

namespace Routine.Candid

theorem pure (result : α) : Routine.Candid (Pure.pure result : Routine φ ε α) :=
  trivial

theorem settle (result : Except Failure α) : Routine.Candid (Call.settle result : Routine φ ε α) :=
  trivial

theorem request {r : Request φ ε} (other : ∀ reply, r.argumentFailed reply = false) :
    Routine.Candid (Call.request r) := by
  intro reply
  refine ⟨trivial, fun failed => ?_⟩
  rw [other reply] at failed
  cases failed

theorem argumentAs (shape : Shape) (index : Nat) :
    Routine.Candid (Call.argumentAs shape index : Routine φ ε (shape.Host φ)) := by
  intro reply
  cases reply with
  | ok x => exact ⟨trivial, fun failed => nomatch failed⟩
  | error f => exact ⟨trivial, fun _ => trivial⟩

theorem bind {routine : Routine φ ε α} {next : α → Routine φ ε β} (first : Routine.Candid routine)
    (rest : ∀ x, Routine.Candid (next x)) : Routine.Candid (routine >>= next) :=
  bind_law (P := fun (_ : Unit) program => program.Candid) (Q := fun _ program => program.Candid)
    (fun _ x _ => rest x) (fun _ _ _ => trivial) (fun _ _ _ => trivial)
    (fun _ _ _ candid ih answer => ⟨ih () answer (candid answer).1,
      fun failed => fails_bind ((candid answer).2 failed)⟩) (s := ()) first

end Routine.Candid

/-- Every native that a run can reach, by its name in the sandbox or as a function, is as said. -/
def Sandbox.EveryNative [Callable φ ε] (P : Native φ ε → Prop) (s : Sandbox φ ε) : Prop :=
  (∀ name native, s.find? name = some (.callable native) → P native) ∧
    ∀ f : φ, P (Callable.code f)

namespace Sandbox.EveryNative

variable [Callable φ ε] {P : Native φ ε → Prop}

theorem mono {Q : Native φ ε → Prop} {s : Sandbox φ ε} (every : s.EveryNative P)
    (wide : ∀ native, P native → Q native) : s.EveryNative Q :=
  ⟨fun name native found => wide native (every.1 name native found),
    fun f => wide _ (every.2 f)⟩

theorem empty (functions : ∀ f : φ, P (Callable.code f)) :
    (Sandbox.empty : Sandbox φ ε).EveryNative P :=
  ⟨fun _ _ found => (by cases found), functions⟩

theorem insertNative {s : Sandbox φ ε} (every : s.EveryNative P) {native : Native φ ε}
    (fits : P native) (name : String) : (s.insertNative name native).EveryNative P := by
  refine ⟨?_, every.2⟩
  intro other found bound
  by_cases same : other = name
  · subst same
    have here : found = native := by
      simpa [Sandbox.insertNative, Sandbox.insert, Sandbox.find?] using bound.symm
    exact here ▸ fits
  · refine every.1 other found ?_
    rw [← bound]
    exact (Dictionary.find?_insert_of_ne same _ _).symm

end Sandbox.EveryNative

namespace Probe

/-- A property of routines that passes on to sequences holds of every function if it holds of what
the functions ask for. -/
theorem Closure.code_law {P : ∀ α : Type, Routine Closure ε α → Prop}
    (pure : ∀ {α : Type} (x : α), P α (Pure.pure x))
    (bind : ∀ {α β : Type} {routine : Routine Closure ε α} {next : α → Routine Closure ε β},
      P α routine → (∀ x, P β (next x)) → P β (routine >>= next))
    (argument : ∀ shape index, P _ (Call.argumentAs shape index))
    (ownWords : ∀ message, P (Value Closure) (throw (.native message)))
    (arity : P _ (Call.request .arity)) (stack : P _ (Call.request .stack))
    (fresh : P _ (Call.request .fresh)) (f : Closure) :
    P _ (Closure.code f : Native Closure ε) := by
  cases f with
  | adder stamp =>
    exact bind (argument .number 1) fun _ => bind (argument .number 2) fun _ => pure _
  | constant stamp v => exact pure v
  | argument stamp index => exact argument .any index
  | namer stamp => exact bind (bind stack fun _ => pure _) fun _ => bind stack fun _ => pure _
  | failer stamp => exact ownWords _
  | countdown stamp n =>
    change P _ (countingDown (n - 1))
    unfold countingDown
    split
    · exact pure _
    · exact bind fresh fun _ => pure _
  | shared => exact bind arity fun _ => pure _
  | named name => exact pure _

theorem Closure.code_only {allowed : Request Closure ε → Prop}
    (arguments : ∀ shape index, allowed (.argument shape index)) (arity : allowed .arity)
    (stack : allowed .stack) (fresh : allowed .fresh) (f : Closure) :
    Routine.Only allowed (Closure.code f : Native Closure ε) :=
  code_law (P := fun _ routine => Routine.Only allowed routine) .pure .bind
    (fun _ _ => .argumentAs (arguments _ _)) (fun _ => .settle _) (.request arity) (.request stack)
    (.request fresh) f

theorem Closure.code_honest (f : Closure) :
    Routine.Honest [] (Closure.code f : Native Closure ε) :=
  code_law (P := fun _ routine => Routine.Honest [] routine) .pure .bind .argumentAs .ownWords
    (.request _) (.request _) (.request _) f

theorem Closure.code_candid (f : Closure) :
    Routine.Candid (Closure.code f : Native Closure ε) :=
  code_law (P := fun _ routine => Routine.Candid routine) .pure .bind .argumentAs
    (fun _ => .settle _) (.request fun _ => rfl) (.request fun _ => rfl) (.request fun _ => rfl) f

theorem orElse_only {allowed : Request Closure Journal → Prop}
    (arguments : ∀ shape index, allowed (.argument shape index)) : Routine.Only allowed orElse :=
  .tryCatch (.argumentAs (arguments _ _)) fun _ => .argumentAs (arguments _ _)

theorem orElse_honest : Routine.Honest [] orElse :=
  .tryCatch (.argumentAs _ _) fun _ => .argumentAs _ _

theorem failPlainly_only {allowed : Request Closure Journal → Prop}
    (arguments : ∀ shape index, allowed (.argument shape index)) :
    Routine.Only allowed failPlainly :=
  .bind (.argumentAs (arguments _ _)) fun _ => .settle _

theorem failPlainly_honest : Routine.Honest [] failPlainly :=
  .bind (.argumentAs _ _) fun _ => .ownWords _

end Probe

end JsonScript
