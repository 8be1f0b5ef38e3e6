import JsonScript.Value

/-!
Shapes: the types of host data that values are converted to and from.

Conversion accepts exactly the values of a shape and blames the first part that is not of it.
-/

set_option autoImplicit false
set_option relaxedAutoImplicit false

namespace JsonScript

/-- A type of host data. -/
inductive Shape where
  | any
  | json
  | number
  | integer
  | bool
  | text
  | optional (inner : Shape)
  | list (item : Shape)
  deriving DecidableEq, Repr

/-- A value was not of the shape that was asked for. -/
structure Mismatch where
  expected : String
  got : String
  deriving DecidableEq, Repr

def Mismatch.message (m : Mismatch) : String :=
  "expected " ++ m.expected ++ ", got " ++ m.got

namespace Shape

variable {φ : Type}

def Host (φ : Type) : Shape → Type
  | .any => Value φ
  | .json => Json
  | .number => Float
  | .integer => Int
  | .bool => Bool
  | .text => String
  | .optional inner => Option (Host φ inner)
  | .list item => List (Host φ item)

/-- The name under which a shape is reported; an optional shape is reported as its inner one. -/
def expected : Shape → String
  | .any => "any"
  | .json => "json"
  | .number => "number"
  | .integer => "integer"
  | .bool => "bool"
  | .text => "string"
  | .optional inner => inner.expected
  | .list _ => "list"

def mismatch (s : Shape) (v : Value φ) : Mismatch :=
  ⟨s.expected, v.typeName⟩

/-- Convert a value to host data. Null is the missing optional; items are converted in order. -/
def fromValue : (s : Shape) → Value φ → Except Mismatch (s.Host φ)
  | .any, v => .ok v
  | .json, v =>
    match v.toJson? with
    | some j => .ok j
    | none => .error ⟨expected .json, "function"⟩
  | .number, v =>
    match v with
    | .number x => .ok x
    | v => .error (mismatch .number v)
  | .integer, v =>
    match v with
    | .number x =>
      match Number.integer? x with
      | some n => .ok n
      | none => .error (mismatch .integer v)
    | v => .error (mismatch .integer v)
  | .bool, v =>
    match v with
    | .bool b => .ok b
    | v => .error (mismatch .bool v)
  | .text, v =>
    match v with
    | .text s => .ok s
    | v => .error (mismatch .text v)
  | .optional inner, v =>
    match v with
    | .null => .ok none
    | v => (inner.fromValue v).map some
  | .list item, v =>
    match v with
    | .list items => items.mapM item.fromValue
    | v => .error (mismatch (.list item) v)

theorem fromValue_whole {x : Float} {n : Int} (whole : Number.integer? x = some n) :
    Shape.integer.fromValue (.number x : Value φ) = .ok n := by
  unfold fromValue
  dsimp only
  rw [whole]

theorem fromValue_notWhole {x : Float} (refused : Number.integer? x = none) :
    Shape.integer.fromValue (.number x : Value φ) =
      .error (Shape.integer.mismatch (.number x : Value φ)) := by
  unfold fromValue
  dsimp only
  rw [refused]

def toValue : (s : Shape) → s.Host φ → Value φ
  | .any, v => v
  | .json, j => .ofJson j
  | .number, x => .number x
  | .integer, n => .ofInt n
  | .bool, b => .bool b
  | .text, s => .text s
  | .optional inner, found =>
    match found with
    | some x => inner.toValue x
    | none => .null
  | .list item, items => .list (items.map item.toValue)

def name : Shape → String
  | .any => "any"
  | .json => "json"
  | .number => "f64"
  | .integer => "i64"
  | .bool => "bool"
  | .text => "String"
  | .optional inner => "Option<" ++ inner.name ++ ">"
  | .list item => "Vec<" ++ item.name ++ ">"

def known : List Shape := [
  .any, .json, .number, .integer, .bool, .text,
  .optional .number, .optional .integer, .optional .bool, .optional .text,
  .optional (.list .number), .optional (.optional .integer),
  .list .any, .list .json, .list .number, .list .integer, .list .bool, .list .text,
  .list (.optional .integer), .list (.list .number)
]

def named? (text : String) : Option Shape :=
  known.find? (·.name = text)

end Shape

end JsonScript
