import JsonScript.Json.Basic
import JsonScript.Number

/-!
Values: what a script computes.

A value is everything that a document can say, with doubles for all numbers, and functions besides.
Functions are tokens of a type `φ` that the host chooses; what a token does when it is called is
not part of the value. Every document is a value. A value is a document again unless a function can
be reached in it; whole numbers of safe size become integers, and what is no number becomes null.
-/

set_option autoImplicit false
set_option relaxedAutoImplicit false

namespace JsonScript

/-- The result of evaluating a node. Objects keep their pairs in order, repeated names included. -/
inductive Value (φ : Type) where
  | null
  | bool (b : Bool)
  | number (x : Float)
  | text (s : String)
  | list (items : List (Value φ))
  | object (pairs : List (String × Value φ))
  | function (f : φ)

namespace Value

variable {φ : Type}

instance : Inhabited (Value φ) := ⟨.null⟩

def typeName : Value φ → String
  | .null => "null"
  | .bool _ => "bool"
  | .number _ => "number"
  | .text _ => "string"
  | .list _ => "list"
  | .object _ => "object"
  | .function _ => "function"

/-- What counts as true: neither null, false, zero, NaN nor anything empty. -/
def isTruthy : Value φ → Bool
  | .null => false
  | .bool b => b
  | .number x => x != 0.0 && !x.isNaN
  | .text s => !s.isEmpty
  | .list items => !items.isEmpty
  | .object pairs => !pairs.isEmpty
  | .function _ => true

def bool? : Value φ → Option Bool
  | .bool b => some b
  | _ => none

def number? : Value φ → Option Float
  | .number x => some x
  | _ => none

def text? : Value φ → Option String
  | .text s => some s
  | _ => none

def list? : Value φ → Option (List (Value φ))
  | .list items => some items
  | _ => none

def function? : Value φ → Option φ
  | .function f => some f
  | _ => none

def isNull : Value φ → Bool
  | .null => true
  | _ => false

def get? (name : String) : Value φ → Option (Value φ)
  | .object pairs => (pairs.find? (·.1 = name)).map (·.2)
  | _ => none

def ofInt (n : Int) : Value φ :=
  .number (Number.ofInteger n)

def ofNat (n : Nat) : Value φ :=
  .ofInt n

end Value

namespace Value

variable {φ : Type} [BEq φ]

mutual

def equal : Value φ → Value φ → Bool
  | .null, .null => true
  | .bool a, .bool b => a == b
  | .number x, .number y => x == y
  | .text s, .text t => s == t
  | .list items, .list others => equalItems items others
  | .object pairs, .object others => equalPairs pairs others
  | .function f, .function g => f == g
  | _, _ => false

def equalItems : List (Value φ) → List (Value φ) → Bool
  | [], [] => true
  | v :: rest, w :: others => equal v w && equalItems rest others
  | _, _ => false

def equalPairs : List (String × Value φ) → List (String × Value φ) → Bool
  | [], [] => true
  | (name, v) :: rest, (other, w) :: others => name == other && equal v w && equalPairs rest others
  | _, _ => false

end

instance : BEq (Value φ) := ⟨equal⟩

end Value

def Numeral.toFloat : Numeral → Float
  | .integer n => Number.ofInteger n
  | .float x => x

def Json.ofFloat (x : Float) : Json :=
  match Number.integer? x with
  | some n => .number (.integer n)
  | none => if Number.isFinite x then .number (.float x) else .null

namespace Value

variable {φ : Type}

mutual

def ofJson : Json → Value φ
  | .null => .null
  | .bool b => .bool b
  | .number n => .number n.toFloat
  | .string s => .text s
  | .array items => .list (ofItems items)
  | .object members => .object (ofMembers members)

def ofItems : List Json → List (Value φ)
  | [] => []
  | item :: rest => ofJson item :: ofItems rest

def ofMembers : List (String × Json) → List (String × Value φ)
  | [] => []
  | (name, item) :: rest => (name, ofJson item) :: ofMembers rest

end

mutual

def toJson? : Value φ → Option Json
  | .null => some .null
  | .bool b => some (.bool b)
  | .number x => some (.ofFloat x)
  | .text s => some (.string s)
  | .list items => (toItems? items).map .array
  | .object pairs => (toPairs? pairs).map .ofPairs
  | .function _ => none

def toItems? : List (Value φ) → Option (List Json)
  | [] => some []
  | v :: rest => (toJson? v).bind fun item => (toItems? rest).map (item :: ·)

def toPairs? : List (String × Value φ) → Option (List (String × Json))
  | [] => some []
  | (name, v) :: rest => (toJson? v).bind fun item => (toPairs? rest).map ((name, item) :: ·)

end

end Value

namespace Value

variable {φ : Type}

mutual

/-- The value as a document in compact form, pairs in order; a function has no such form. -/
def display : Value φ → String
  | .null => "null"
  | .bool true => "true"
  | .bool false => "false"
  | .number x => (Json.ofFloat x).render
  | .text s => Text.json s
  | .list items => "[" ++ displayItems items ++ "]"
  | .object pairs => "\x7b" ++ displayPairs pairs ++ "\x7d"
  | .function _ => "<function>"

def displayItems : List (Value φ) → String
  | [] => ""
  | [v] => v.display
  | v :: next :: rest => v.display ++ "," ++ displayItems (next :: rest)

def displayPairs : List (String × Value φ) → String
  | [] => ""
  | [(name, v)] => Text.json name ++ ":" ++ v.display
  | (name, v) :: next :: rest =>
    Text.json name ++ ":" ++ v.display ++ "," ++ displayPairs (next :: rest)

end

def numberLayout : Number.Layout where
  leastPositional := -4
  greatestPositional := 15
  exponentSign := ""
  tie := .awayFromZero
  nan := "NaN"
  infinity := "inf"

mutual

def inspect : Value φ → String
  | .null => "Null"
  | .bool b => "Bool(" ++ (if b then "true" else "false") ++ ")"
  | .number x => "Number(" ++ numberLayout.text x ++ ")"
  | .text s => "Str(" ++ Text.shown s ++ ")"
  | .list items => "List([" ++ inspectItems items ++ "])"
  | .object pairs => "Object([" ++ inspectPairs pairs ++ "])"
  | .function _ => "Function(..)"

def inspectItems : List (Value φ) → String
  | [] => ""
  | [v] => v.inspect
  | v :: next :: rest => v.inspect ++ ", " ++ inspectItems (next :: rest)

def inspectPairs : List (String × Value φ) → String
  | [] => ""
  | [(name, v)] => "(" ++ Text.shown name ++ ", " ++ v.inspect ++ ")"
  | (name, v) :: next :: rest =>
    "(" ++ Text.shown name ++ ", " ++ v.inspect ++ "), " ++ inspectPairs (next :: rest)

end

end Value

end JsonScript
