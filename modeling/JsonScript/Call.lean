import JsonScript.Failure

/-!
Natives as programs, and the handle of a call.

A native cannot touch the run it is part of; it can only ask. A program is a tree of requests and
of continuations that wait for the replies, so that what a native may do can be read off its
tree. Evaluation of an argument is a request like any other, which makes arguments lazy: what is
not asked for is not evaluated, and what is asked for twice is evaluated twice.
-/

set_option autoImplicit false
set_option relaxedAutoImplicit false

namespace JsonScript

/-- What a panic carries: a text, or something that is no text. -/
inductive Panic where
  | text (message : String)
  | other
  deriving DecidableEq, Repr

/-- What evaluation gives: a value or a failure. -/
abbrev Outcome (φ : Type) := Except Failure (Value φ)

/-- What a native may ask during a call, for functions `φ` and an environment of type `ε`.
Arguments are numbered from one. -/
inductive Request (φ ε : Type) where
  | arity
  | raw (index : Nat)
  | argument (shape : Shape) (index : Nat)
  | argumentIfAny (shape : Shape) (index : Nat)
  /-- Evaluate an argument that the call must have, and catch a panic. -/
  | attempt (index : Nat)
  /-- A failure in the native's own words, at this point of the run. -/
  | failure (message : String)
  | stack
  | environment
  | setEnvironment (env : ε)
  | bound (name : String)
  | lifting
  /-- A number that no one was given before. -/
  | fresh
  /-- Run a script in a new context on the same sandbox. -/
  | run (script : Json)

@[reducible] def Request.Reply {φ ε : Type} : Request φ ε → Type
  | .arity => Nat
  | .raw _ => Option Json
  | .argument shape _ => Except Failure (shape.Host φ)
  | .argumentIfAny shape _ => Except Failure (Option (shape.Host φ))
  | .attempt _ => Except Panic (Outcome φ)
  | .failure _ => Failure
  | .stack => Stack
  | .environment => ε
  | .setEnvironment _ => Unit
  | .bound _ => Bool
  | .lifting => Bool
  | .fresh => Nat
  | .run _ => Outcome φ

/-- A computation that asks, waits for the reply and goes on. -/
inductive Program (φ ε α : Type) where
  | done (result : α)
  | panic (payload : Panic)
  | ask (request : Request φ ε) (next : request.Reply → Program φ ε α)

namespace Program

variable {φ ε α β : Type}

def bind : Program φ ε α → (α → Program φ ε β) → Program φ ε β
  | .done result, next => next result
  | .panic payload, _ => .panic payload
  | .ask request reply, next => .ask request fun answer => (reply answer).bind next

instance : Monad (Program φ ε) where
  pure := done
  bind := bind

end Program

abbrev Routine (φ ε α : Type) := ExceptT Failure (Program φ ε) α

/-- A native: the program that serves one call. -/
abbrev Native (φ ε : Type) := Routine φ ε (Value φ)

/-- What calling a function token does. -/
class Callable (φ ε : Type) where
  code : φ → Native φ ε

namespace Call

variable {φ ε α : Type}

def request (r : Request φ ε) : Routine φ ε r.Reply :=
  ExceptT.mk (.ask r fun answer => .done (.ok answer))

def panic (payload : Panic) : Routine φ ε α :=
  ExceptT.mk (.panic payload)

def settle (result : Except Failure α) : Routine φ ε α :=
  ExceptT.mk (.done result)

def arity : Routine φ ε Nat :=
  request .arity

def raw? (index : Nat) : Routine φ ε (Option Json) :=
  request (.raw index)

def stack : Routine φ ε Stack :=
  request .stack

def depth : Routine φ ε Nat := do
  return (← stack).size

def name : Routine φ ε String := do
  return match (← stack).innermost? with
    | some frame => frame.label
    | none => ""

def environment : Routine φ ε ε :=
  request .environment

def setEnvironment (env : ε) : Routine φ ε Unit :=
  request (.setEnvironment env)

def error (message : String) : Routine φ ε α := do
  throw (← request (.failure message))

def argumentAs (shape : Shape) (index : Nat) : Routine φ ε (shape.Host φ) := do
  settle (← request (.argument shape index))

def argumentAs? (shape : Shape) (index : Nat) : Routine φ ε (Option (shape.Host φ)) := do
  settle (← request (.argumentIfAny shape index))

def argument (index : Nat) : Routine φ ε (Value φ) :=
  argumentAs .any index

def argument? (index : Nat) : Routine φ ε (Option (Value φ)) :=
  argumentAs? .any index

def number (index : Nat) : Routine φ ε Float :=
  argumentAs .number index

def text (index : Nat) : Routine φ ε String :=
  argumentAs .text index

def bool (index : Nat) : Routine φ ε Bool :=
  argumentAs .bool index

def argumentsAt : List Nat → Routine φ ε (List (Value φ))
  | [] => return []
  | index :: rest => do
    let v ← argument index
    let vs ← argumentsAt rest
    return v :: vs

def positions (first : Nat) : Routine φ ε (List Nat) := do
  return List.range' first (((← arity) + 1) - first)

def arguments : Routine φ ε (List (Value φ)) := do
  argumentsAt (← positions 1)

end Call

end JsonScript
