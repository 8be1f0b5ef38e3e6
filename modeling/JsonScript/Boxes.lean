import JsonScript.Call
import JsonScript.Sandbox
import JsonScript.Value

/-!
The reference boxes: arithmetic, comparison, logic and strings.

Operands are evaluated and checked one after the other, so the leftmost one that is wrong decides
how the call fails, and those after it are not evaluated. Branches that are not taken are not
evaluated either, nor is what follows the operand that decides a conjunction or a disjunction.
-/

set_option autoImplicit false
set_option relaxedAutoImplicit false

namespace JsonScript.Boxes

variable {φ ε : Type}

def foldNumbers (combine : Float → Float → Except String Float) :
    Float → List Nat → Routine φ ε Float
  | total, [] => return total
  | total, index :: rest => do
    let x ← Call.number index
    match combine total x with
    | .ok next => foldNumbers combine next rest
    | .error message => Call.error message

def foldAll (combine : Float → Float → Except String Float) (neutral : Float) :
    Routine φ ε (Value φ) := do
  return .number (← foldNumbers combine neutral (← Call.positions 1))

def foldRest (combine : Float → Float → Except String Float) (first : Float) :
    Routine φ ε (Value φ) := do
  return .number (← foldNumbers combine first (← Call.positions 2))

def plus (x y : Float) : Except String Float :=
  .ok (x + y)

def times (x y : Float) : Except String Float :=
  .ok (x * y)

def minus (x y : Float) : Except String Float :=
  .ok (x - y)

/-- The quotient of two numbers, unless the second is a zero. -/
def dividedBy (x y : Float) : Except String Float :=
  if y == 0.0 then .error "division by zero" else .ok (x / y)

def add : Routine φ ε (Value φ) :=
  foldAll plus 0.0

def multiply : Routine φ ε (Value φ) :=
  foldAll times 1.0

def subtract : Routine φ ε (Value φ) := do
  let first ← Call.number 1
  if (← Call.arity) = 1 then return .number (-first)
  else foldRest minus first

def divide : Routine φ ε (Value φ) := do
  let first ← Call.number 1
  foldRest dividedBy first

def arithmetic : Sandbox φ ε :=
  Sandbox.empty
    |>.publish { name := "+", description := "Sum of the operands.", returns := "number" } add
    |>.publish { name := "*", description := "Product of the operands.", returns := "number" }
        multiply
    |>.publish
        { name := "-"
          description := "Negate one operand or subtract the rest from the first."
          parameters := [{ name := "x", type := "number" }]
          returns := "number" }
        subtract
    |>.publish
        { name := "/"
          description := "Divide the first operand by the rest."
          parameters := [{ name := "x", type := "number" }]
          returns := "number" }
        divide

def compareValues [BEq φ] (wanted : Bool) : Routine φ ε (Value φ) := do
  let v ← Call.argument 1
  let w ← Call.argument 2
  return .bool ((v == w) == wanted)

def compareNumbers (holds : Float → Float → Bool) : Routine φ ε (Value φ) := do
  let x ← Call.number 1
  let y ← Call.number 2
  return .bool (holds x y)

def comparison [BEq φ] : Sandbox φ ε :=
  Sandbox.empty
    |>.insertNative "==" (compareValues true)
    |>.insertNative "!=" (compareValues false)
    |>.insertNative "<" (compareNumbers fun x y => x < y)
    |>.insertNative "<=" (compareNumbers fun x y => x ≤ y)
    |>.insertNative ">" (compareNumbers fun x y => y < x)
    |>.insertNative ">=" (compareNumbers fun x y => y ≤ x)

def evaluateUntil (deciding : Bool) : Value φ → List Nat → Routine φ ε (Value φ)
  | last, [] => return last
  | _, index :: rest => do
    let v ← Call.argument index
    if v.isTruthy = deciding then return v
    else evaluateUntil deciding v rest

/-- Evaluate the second argument when the first is truthy, and the third otherwise. -/
def branch : Routine φ ε (Value φ) := do
  let condition ← Call.argument 1
  if condition.isTruthy then Call.argument 2
  else return (← Call.argument? 3).getD .null

def conjunction : Routine φ ε (Value φ) := do
  evaluateUntil false (.bool true) (← Call.positions 1)

def disjunction : Routine φ ε (Value φ) := do
  evaluateUntil true (.bool false) (← Call.positions 1)

def negation : Routine φ ε (Value φ) := do
  return .bool (!(← Call.argument 1).isTruthy)

def sequence : Routine φ ε (Value φ) := do
  return (← Call.arguments).getLast?.getD .null

def logic : Sandbox φ ε :=
  Sandbox.empty
    |>.publish
        { name := "if"
          description := "Evaluate `then` when `cond` is truthy, else `else`."
          parameters := [
            { name := "cond", type := "any" },
            { name := "then", type := "any" },
            { name := "else", type := "any", required := false }]
          returns := "any" }
        branch
    |>.insertNative "and" conjunction
    |>.insertNative "or" disjunction
    |>.insertNative "not" negation
    |>.insertNative "do" sequence

/-- A value within a text: texts as they are, and everything else as it is displayed. -/
def plainText : Value φ → String
  | .text s => s
  | v => v.display

def concatenate : Routine φ ε (Value φ) := do
  return .text (String.join ((← Call.arguments).map plainText))

def measure : Routine φ ε (Value φ) := do
  match ← Call.argument 1 with
  | .text s => return .ofNat s.length
  | .list items => return .ofNat items.length
  | .object pairs => return .ofNat pairs.length
  | v => Call.error ("len of " ++ v.typeName)

def strings : Sandbox φ ε :=
  Sandbox.empty
    |>.publish
        { name := "concat", description := "Join the operands as text.", returns := "string" }
        concatenate
    |>.publish
        { name := "len"
          description := "Length of a string, list or object."
          parameters := [{ name := "x", type := "any" }]
          returns := "number" }
        measure

def standard {φ ε : Type} [BEq φ] : Sandbox φ ε :=
  Sandbox.compose [arithmetic, comparison, logic, strings]

end JsonScript.Boxes
