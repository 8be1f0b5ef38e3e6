import JsonScript.Boxes
import JsonScript.Proofs.Natives
import JsonScript.Proofs.Sandboxes
import JsonScript.Proofs.Values

/-!
The natives of the standard box.

They ask for their arguments, from left to right and each once at most, and for the number of them,
end at once with the first failure that they are given, and compute data from data. Nothing else in
the run matters to them, and no function comes out of them unless one goes in.
-/

set_option autoImplicit false
set_option relaxedAutoImplicit false

namespace JsonScript

variable {φ ε α β : Type}

/-- Whether the request is for arguments or their number, or for a failure in the native's own
words. -/
def Request.isDirect : Request φ ε → Bool
  | .arity => true
  | .argument _ _ => true
  | .argumentIfAny _ _ => true
  | .failure _ => true
  | _ => false

/-- No function can be reached in a value that is host data as it is. -/
def Shape.Data : (s : Shape) → s.Host φ → Prop
  | .any, v => Value.FunctionFree v
  | _, _ => True

/-- No function can be reached in the argument that the reply brings. -/
def Request.BringsData : (r : Request φ ε) → r.Reply → Prop
  | .argument shape _, .ok x => shape.Data x
  | .argumentIfAny shape _, .ok (some x) => shape.Data x
  | _, _ => True

/-- Whatever the replies are, the program makes direct requests only and ends at once with the
first failure that a reply brings. If the replies bring data, its result is as said. -/
def Program.Direct (post : α → Prop) : Program φ ε (Except Failure α) → Prop
  | .done (.ok x) => post x
  | .done (.error _) => False
  | .panic _ => False
  | .ask request next =>
    request.isDirect = true ∧ ∀ reply,
      match request.failures reply with
      | [] => request.BringsData reply → (next reply).Direct post
      | failure :: _ => next reply = .done (.error failure)

/-- A routine makes direct requests only, ends at once with the first failure that it is given, and
makes what is said from data. -/
def Routine.Direct (post : α → Prop) (routine : Routine φ ε α) : Prop :=
  Program.Direct post routine.run

def Request.evaluates? : Request φ ε → Option Nat
  | .argument _ index => some index
  | .argumentIfAny _ index => some index
  | .attempt index => some index
  | _ => none

/-- Whatever the replies are, the program makes direct requests only, and ends at once with the
first failure that a reply brings. It asks for arguments after the first `taken`, each after the
ones before. If the replies are as is known, its result and the position of the last argument are
as said. -/
def Program.Asks (known : (r : Request φ ε) → r.Reply → Prop) (post : α → Nat → Prop) :
    Nat → Program φ ε (Except Failure α) → Prop
  | taken, .done (.ok x) => post x taken
  | _, .done (.error _) => False
  | _, .panic _ => False
  | taken, .ask request next =>
    (request.isDirect = true ∧ ∀ index ∈ request.evaluates?, taken < index) ∧ ∀ reply,
      match request.failures reply with
      | [] => known request reply → (next reply).Asks known post (request.evaluates?.getD taken)
      | failure :: _ => next reply = .done (.error failure)

/-- A routine makes direct requests only, for arguments from left to right and each once at most,
and ends at once with the first failure that it is given. -/
def Routine.Asks (known : (r : Request φ ε) → r.Reply → Prop) (post : α → Nat → Prop) (taken : Nat)
    (routine : Routine φ ε α) : Prop :=
  Program.Asks known post taken routine.run

/-- The course of a program that asks so: it goes on with replies that bring no failure, and a reply
with a failure is its end. -/
theorem Program.Asks.induction {known : (r : Request φ ε) → r.Reply → Prop}
    {post : α → Nat → Prop} {motive : Nat → Program φ ε (Except Failure α) → Prop}
    (done : ∀ x taken, post x taken → motive taken (.done (.ok x)))
    (ask : ∀ taken request next, request.isDirect = true →
      (∀ index ∈ request.evaluates?, taken < index) →
      (∀ reply, request.failures reply = [] → known request reply →
        motive (request.evaluates?.getD taken) (next reply)) →
      (∀ reply failure others, request.failures reply = failure :: others →
        next reply = .done (.error failure)) → motive taken (.ask request next))
    {taken : Nat} {program : Program φ ε (Except Failure α)}
    (asks : program.Asks known post taken) : motive taken program := by
  induction program generalizing taken with
  | done result =>
    cases result with
    | ok x => exact done x taken asks
    | error failure => exact asks.elim
  | panic payload => exact asks.elim
  | ask request next ih =>
    obtain ⟨⟨direct, further⟩, goesOn⟩ := asks
    refine ask taken request next direct further (fun reply none held => ?_) ?_
    · have rest := goesOn reply
      rw [none] at rest
      exact ih reply (rest held)
    · intro reply failure others brought
      have rest := goesOn reply
      rw [brought] at rest
      exact rest

/-- What is known of replies tells of every argument what is said of values, and it can be said of
the values that natives make. -/
structure Supplies (known : (r : Request φ ε) → r.Reply → Prop) (D : Value φ → Prop) : Prop where
  argument : ∀ index v, known (.argument .any index) (.ok v) → D v
  argumentIfAny : ∀ index v, known (.argumentIfAny .any index) (.ok (some v)) → D v
  null : D .null
  bool : ∀ b, D (.bool b)
  number : ∀ x, D (.number x)
  text : ∀ s, D (.text s)

theorem supplies_anything : @Supplies φ ε (fun _ _ => True) fun _ => True :=
  ⟨fun _ _ _ => trivial, fun _ _ _ => trivial, trivial, fun _ => trivial, fun _ => trivial,
    fun _ => trivial⟩

theorem supplies_data : @Supplies φ ε Request.BringsData Value.FunctionFree :=
  ⟨fun _ _ data => data, fun _ _ data => data, Value.functionFree_null, Value.functionFree_bool,
    Value.functionFree_number, Value.functionFree_text⟩

namespace Routine.Asks

variable {known : (r : Request φ ε) → r.Reply → Prop} {post : α → Nat → Prop} {taken : Nat}

theorem pure {x : α} (fits : post x taken) :
    Routine.Asks known post taken (Pure.pure x : Routine φ ε α) :=
  fits

theorem bind {after : β → Nat → Prop} {routine : Routine φ ε α} {next : α → Routine φ ε β}
    (first : Routine.Asks known post taken routine)
    (rest : ∀ x last, post x last → Routine.Asks known after last (next x)) :
    Routine.Asks known after taken (routine >>= next) := by
  refine bind_law (P := Program.Asks known post) (Q := Program.Asks known after)
    (fun taken x fits => rest x taken fits) (fun _ _ => id) (fun _ _ => id) ?_ first
  intro taken request reply asks ih
  refine ⟨asks.1, fun answer => ?_⟩
  have goesOn := asks.2 answer
  split
  · rename_i none
    rw [none] at goesOn
    exact fun held => ih _ answer (goesOn held)
  · rename_i failure others some
    rw [some] at goesOn
    change Program.bind (reply answer) _ = _
    rw [goesOn]
    rfl

theorem mono {wider : α → Nat → Prop} {routine : Routine φ ε α}
    (asks : Routine.Asks known post taken routine) (wide : ∀ x last, post x last → wider x last) :
    Routine.Asks known wider taken routine := by
  refine Program.Asks.induction (motive := fun taken program => program.Asks known wider taken) wide
    ?_ asks
  intro taken request next direct further goesOn ends
  refine ⟨⟨direct, further⟩, fun reply => ?_⟩
  split
  · rename_i none
    exact goesOn reply none
  · rename_i failure others some
    exact ends reply failure others some

theorem direct {final : α → Prop} {routine : Routine φ ε α}
    (asks : Routine.Asks Request.BringsData post taken routine)
    (fits : ∀ x last, post x last → final x) : Routine.Direct final routine := by
  refine Program.Asks.induction (motive := fun _ program => program.Direct final) fits ?_ asks
  intro taken request next direct _ goesOn ends
  refine ⟨direct, fun reply => ?_⟩
  split
  · rename_i none
    exact goesOn reply none
  · rename_i failure others some
    exact ends reply failure others some

theorem error (message : String) :
    Routine.Asks known post taken (Call.error message : Routine φ ε α) :=
  ⟨⟨rfl, fun _ none => nomatch none⟩, fun _ => rfl⟩

theorem arity :
    Routine.Asks known (fun _ last => last = taken) taken (Call.arity : Routine φ ε Nat) :=
  ⟨⟨rfl, fun _ none => nomatch none⟩, fun _ _ => rfl⟩

theorem positions (first : Nat) :
    Routine.Asks known
      (fun indices last => last = taken ∧ ∃ count, indices = List.range' first count) taken
      (Call.positions first : Routine φ ε (List Nat)) :=
  arity.bind fun _ _ unchanged => .pure ⟨unchanged, _, rfl⟩

theorem argumentAs (shape : Shape) {index : Nat} (further : taken < index) :
    Routine.Asks known (fun _ last => last = index) taken
      (Call.argumentAs shape index : Routine φ ε (shape.Host φ)) := by
  refine ⟨⟨rfl, ?_⟩, fun reply => ?_⟩
  · rintro _ ⟨⟩
    exact further
  · cases reply with
    | ok x => exact fun _ => rfl
    | error failure => rfl

theorem honest {routine : Routine φ ε α}
    (asks : Routine.Asks (fun _ _ => True) post taken routine) : Routine.Honest [] routine := by
  have law := Program.Asks.induction
    (motive := fun _ program => ∀ given, program.Honest given) (fun _ _ _ _ => trivial) ?_ asks
  · exact law []
  · intro taken request next _ _ goesOn ends given reply
    cases brought : request.failures reply with
    | nil => exact goesOn reply brought trivial _
    | cons failure others =>
      rw [ends reply failure others brought]
      exact .inl (by simp)

variable {D : Value φ → Prop} (supplies : Supplies known D)

include supplies

theorem argument {index : Nat} (further : taken < index) :
    Routine.Asks known (fun v last => D v ∧ last = index) taken
      (Call.argument index : Routine φ ε (Value φ)) := by
  refine ⟨⟨rfl, ?_⟩, fun reply => ?_⟩
  · rintro _ ⟨⟩
    exact further
  · cases reply with
    | ok v => exact fun held => ⟨supplies.argument index v held, rfl⟩
    | error failure => rfl

theorem argument? {index : Nat} (further : taken < index) :
    Routine.Asks known (fun found _ => ∀ v ∈ found, D v) taken
      (Call.argument? index : Routine φ ε (Option (Value φ))) := by
  refine ⟨⟨rfl, ?_⟩, fun reply => ?_⟩
  · rintro _ ⟨⟩
    exact further
  · cases reply with
    | error failure => rfl
    | ok found =>
      rintro held v ⟨⟩
      exact supplies.argumentIfAny index v held

theorem argumentsAt (taken count : Nat) :
    Routine.Asks known (fun values _ => ∀ v ∈ values, D v) taken
      (Call.argumentsAt (List.range' (taken + 1) count) : Routine φ ε (List (Value φ))) := by
  induction count generalizing taken with
  | zero => exact .pure fun _ none => nomatch none
  | succ count ih =>
    refine (argument supplies (Nat.lt_succ_self taken)).bind ?_
    rintro v _ ⟨here, rfl⟩
    exact (ih (taken + 1)).bind fun values _ later =>
      .pure (List.forall_mem_cons.mpr ⟨here, later⟩)

theorem arguments :
    Routine.Asks known (fun values _ => ∀ v ∈ values, D v) 0
      (Call.arguments : Routine φ ε (List (Value φ))) := by
  refine (positions 1).bind ?_
  rintro _ _ ⟨rfl, count, rfl⟩
  exact argumentsAt supplies 0 count

end Routine.Asks

def Sandbox.Binds (P : Binding φ ε → Prop) (s : Sandbox φ ε) : Prop :=
  ∀ pair ∈ s.bindings, P pair.2

namespace Sandbox.Binds

variable {P : Binding φ ε → Prop} {s t : Sandbox φ ε}

theorem of_find? (every : s.Binds P) {name : String} {binding : Binding φ ε}
    (found : s.find? name = some binding) : P binding :=
  every _ (Dictionary.mem_of_find? found)

theorem empty : (Sandbox.empty : Sandbox φ ε).Binds P :=
  fun _ none => nomatch none

theorem insertNative (every : s.Binds P) {native : Native φ ε} (fits : P (.callable native))
    (name : String) : (s.insertNative name native).Binds P := by
  intro pair member
  rcases Dictionary.mem_insert member with rfl | before
  · exact fits
  · exact every pair before

theorem publish (every : s.Binds P) {native : Native φ ε} (fits : P (.callable native))
    (signature : Signature) : (s.publish signature native).Binds P :=
  every.insertNative fits signature.name

theorem merge (first : s.Binds P) (second : t.Binds P) : (s.merge t).Binds P := by
  unfold Sandbox.merge
  split
  · exact second
  · exact fun pair member => (Dictionary.mem_override member).elim (first pair) (second pair)

theorem compose {boxes : List (Sandbox φ ε)} (each : ∀ box ∈ boxes, box.Binds P) :
    (Sandbox.compose boxes).Binds P := by
  suffices law : ∀ start : Sandbox φ ε, start.Binds P →
      (boxes.foldl Sandbox.merge start).Binds P from law .empty .empty
  induction boxes with
  | nil => exact fun _ every => every
  | cons box rest ih =>
    obtain ⟨here, later⟩ := List.forall_mem_cons.mp each
    exact fun _ every => ih later _ (every.merge here)

end Sandbox.Binds

def Binding.Runs (P : Native φ ε → Prop) : Binding φ ε → Prop
  | .value _ => False
  | .callable native => P native

namespace Boxes

/-- Every native that the standard box is made of is as said. -/
structure EachNative [BEq φ] (P : Native φ ε → Prop) : Prop where
  foldAll : ∀ combine neutral, P (Boxes.foldAll combine neutral)
  subtract : P Boxes.subtract
  divide : P Boxes.divide
  compareValues : ∀ wanted, P (Boxes.compareValues wanted)
  compareNumbers : ∀ holds, P (Boxes.compareNumbers holds)
  branch : P Boxes.branch
  conjunction : P Boxes.conjunction
  disjunction : P Boxes.disjunction
  negation : P Boxes.negation
  sequence : P Boxes.sequence
  concatenate : P Boxes.concatenate
  measure : P Boxes.measure

namespace EachNative

variable [BEq φ] {P : Native φ ε → Prop} (each : EachNative P)

include each

private theorem arithmetic_binds :
    (arithmetic : Sandbox φ ε).Binds (Binding.Runs P) :=
  (((Sandbox.Binds.empty.publish (each.foldAll plus 0.0) _).publish
    (each.foldAll times 1.0) _).publish each.subtract _).publish
    each.divide _

private theorem comparison_binds :
    (comparison : Sandbox φ ε).Binds (Binding.Runs P) :=
  (((((Sandbox.Binds.empty.insertNative (each.compareValues true) _).insertNative
    (each.compareValues false) _).insertNative (each.compareNumbers _) _).insertNative
    (each.compareNumbers _) _).insertNative (each.compareNumbers _) _).insertNative
    (each.compareNumbers _) _

private theorem logic_binds :
    (logic : Sandbox φ ε).Binds (Binding.Runs P) :=
  ((((Sandbox.Binds.empty.publish each.branch _).insertNative
    each.conjunction _).insertNative each.disjunction _).insertNative
    each.negation _).insertNative each.sequence _

private theorem strings_binds :
    (strings : Sandbox φ ε).Binds (Binding.Runs P) :=
  (Sandbox.Binds.empty.publish each.concatenate _).publish each.measure _

theorem standard_binds :
    (standard : Sandbox φ ε).Binds (Binding.Runs P) := by
  refine .compose fun box member => ?_
  simp only [List.mem_cons, List.not_mem_nil, or_false] at member
  rcases member with rfl | rfl | rfl | rfl
  · exact each.arithmetic_binds
  · exact each.comparison_binds
  · exact each.logic_binds
  · exact each.strings_binds

end EachNative

section Asking

open Routine (Asks)

variable {known : (r : Request φ ε) → r.Reply → Prop} {D : Value φ → Prop}

private theorem foldNumbers_asks (combine : Float → Float → Except String Float) (total : Float)
    (taken count : Nat) :
    Asks known (fun _ _ => True) taken
      (foldNumbers combine total (List.range' (taken + 1) count) : Routine φ ε Float) := by
  induction count generalizing taken total with
  | zero => exact .pure trivial
  | succ count ih =>
    refine (Asks.argumentAs .number (Nat.lt_succ_self taken)).bind ?_
    rintro x _ rfl
    cases combine total x with
    | ok next => exact ih next (taken + 1)
    | error message => exact .error message

variable (supplies : Supplies known D)

include supplies

private theorem foldRest_asks (combine : Float → Float → Except String Float) (first : Float) :
    Asks known (fun v _ => D v) 1 (foldRest combine first : Native φ ε) := by
  refine (Asks.positions 2).bind ?_
  rintro _ _ ⟨rfl, count, rfl⟩
  exact (foldNumbers_asks combine first 1 count).bind fun x _ _ => .pure (supplies.number x)

private theorem evaluateUntil_asks (deciding : Bool) {last : Value φ} (held : D last)
    (taken count : Nat) :
    Asks known (fun v _ => D v) taken
      (evaluateUntil deciding last (List.range' (taken + 1) count) : Native φ ε) := by
  induction count generalizing taken last with
  | zero => exact .pure held
  | succ count ih =>
    refine (Asks.argument supplies (Nat.lt_succ_self taken)).bind ?_
    rintro v _ ⟨here, rfl⟩
    split
    · exact .pure here
    · exact ih here (taken + 1)

private theorem operands_asks (deciding : Bool) {start : Value φ} (held : D start) :
    Asks known (fun v _ => D v) 0
      (Call.positions 1 >>= evaluateUntil deciding start : Routine φ ε (Value φ)) := by
  refine (Asks.positions 1).bind ?_
  rintro _ _ ⟨rfl, count, rfl⟩
  exact evaluateUntil_asks supplies deciding held 0 count

/-- The standard natives ask for their arguments from left to right, and make of them nothing but
themselves and plain data. -/
theorem eachNative_asks [BEq φ] :
    EachNative (Asks known (fun v _ => D v) 0 : Native φ ε → Prop) where
  foldAll combine neutral := by
    refine (Asks.positions 1).bind ?_
    rintro _ _ ⟨rfl, count, rfl⟩
    exact (foldNumbers_asks combine neutral 0 count).bind fun x _ _ => .pure (supplies.number x)
  subtract := by
    refine (Asks.argumentAs .number Nat.one_pos).bind ?_
    rintro first _ rfl
    refine Asks.arity.bind ?_
    rintro arity _ rfl
    split
    · exact .pure (supplies.number _)
    · exact foldRest_asks supplies minus first
  divide := by
    refine (Asks.argumentAs .number Nat.one_pos).bind ?_
    rintro first _ rfl
    exact foldRest_asks supplies dividedBy first
  compareValues wanted := by
    refine (Asks.argument supplies Nat.one_pos).bind ?_
    rintro v _ ⟨_, rfl⟩
    exact (Asks.argument supplies Nat.one_lt_two).bind fun _ _ _ => .pure (supplies.bool _)
  compareNumbers holds := by
    refine (Asks.argumentAs .number Nat.one_pos).bind ?_
    rintro x _ rfl
    exact (Asks.argumentAs .number Nat.one_lt_two).bind fun _ _ _ => .pure (supplies.bool _)
  branch := by
    refine (Asks.argument supplies Nat.one_pos).bind ?_
    rintro condition _ ⟨_, rfl⟩
    split
    · exact (Asks.argument supplies Nat.one_lt_two).mono fun _ _ held => held.1
    · refine (Asks.argument? supplies (by decide)).bind fun found _ held => .pure ?_
      cases found with
      | none => exact supplies.null
      | some v => exact held v rfl
  conjunction := operands_asks supplies false (supplies.bool true)
  disjunction := operands_asks supplies true (supplies.bool false)
  negation := (Asks.argument supplies Nat.one_pos).bind fun _ _ _ => .pure (supplies.bool _)
  sequence := by
    refine (Asks.arguments supplies).bind fun values _ held => .pure ?_
    cases last : values.getLast? with
    | none => exact supplies.null
    | some v => exact held v (List.mem_of_getLast? last)
  concatenate := (Asks.arguments supplies).bind fun _ _ _ => .pure (supplies.text _)
  measure := by
    refine (Asks.argument supplies Nat.one_pos).bind fun v _ _ => ?_
    cases v with
    | text | list | object => exact .pure (supplies.number _)
    | null | bool | number | function => exact .error _

end Asking

namespace EachNative

theorem mono [BEq φ] {P Q : Native φ ε → Prop} (each : EachNative P)
    (wider : ∀ native, P native → Q native) : EachNative Q where
  foldAll combine neutral := wider _ (each.foldAll combine neutral)
  subtract := wider _ each.subtract
  divide := wider _ each.divide
  compareValues wanted := wider _ (each.compareValues wanted)
  compareNumbers holds := wider _ (each.compareNumbers holds)
  branch := wider _ each.branch
  conjunction := wider _ each.conjunction
  disjunction := wider _ each.disjunction
  negation := wider _ each.negation
  sequence := wider _ each.sequence
  concatenate := wider _ each.concatenate
  measure := wider _ each.measure

end EachNative

theorem eachNative_honest [BEq φ] : EachNative (Routine.Honest [] : Native φ ε → Prop) :=
  (eachNative_asks supplies_anything).mono fun _ asks => asks.honest

theorem eachNative_direct [BEq φ] :
    EachNative (Routine.Direct Value.FunctionFree : Native φ ε → Prop) :=
  (eachNative_asks supplies_data).mono fun _ asks => asks.direct fun _ _ free => free

end Boxes

/-- A name stands for a value without functions, or for a native that is direct and makes no
function from data. -/
def Binding.Plain : Binding φ ε → Prop
  | .value v => v.FunctionFree
  | .callable native => Routine.Direct Value.FunctionFree native

/-- The sandbox is made of the standard box and of values without functions: whatever it binds is
bound in the standard box, or is such a value. -/
def Sandbox.Standard [BEq φ] (s : Sandbox φ ε) : Prop :=
  ∀ name binding, s.find? name = some binding →
    (∃ origin, Boxes.standard.find? origin = some binding) ∨
      ∃ v, v.FunctionFree ∧ binding = .value v

namespace Sandbox.Standard

variable [BEq φ] {s : Sandbox φ ε}

theorem native (standard : s.Standard) {P : Native φ ε → Prop} (each : Boxes.EachNative P)
    {name : String} {native : Native φ ε} (found : s.find? name = some (.callable native)) :
    P native := by
  rcases standard name _ found with ⟨origin, bound⟩ | ⟨v, _, same⟩
  · exact each.standard_binds.of_find? bound
  · cases same

theorem plain (standard : s.Standard) {name : String} {binding : Binding φ ε}
    (found : s.find? name = some binding) : binding.Plain := by
  cases binding with
  | callable native => exact standard.native Boxes.eachNative_direct found
  | value v =>
    rcases standard name _ found with ⟨origin, bound⟩ | ⟨w, free, same⟩
    · exact (Boxes.eachNative_direct.standard_binds.of_find? bound).elim
    · cases same
      exact free

theorem standard : (Boxes.standard : Sandbox φ ε).Standard :=
  fun name _ found => .inl ⟨name, found⟩

theorem insertValue [Callable φ ε] (standard : s.Standard) (name : String) {v : Value φ}
    (free : v.FunctionFree) : (s.insertValue name v).Standard := by
  have bound : (Binding.ofValue v : Binding φ ε) = .value v := by
    cases v with
    | function f => exact absurd .self (free f)
    | null | bool | number | text | list | object => rfl
  intro other binding found
  by_cases same : other = name
  · rw [same, Sandbox.insertValue, find?_insert_self, bound] at found
    exact .inr ⟨v, free, (Option.some.inj found).symm⟩
  · rw [Sandbox.insertValue, find?_insert_of_ne same] at found
    exact standard other binding found

end Sandbox.Standard

end JsonScript
