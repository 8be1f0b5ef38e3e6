import JsonScript.Dictionary
import JsonScript.Number
import JsonScript.Text

/-!
JSON documents, and their compact text.

A document is also a script: arrays are calls and everything else is a literal. Numbers keep the
kind in which they were written, and the members of an object form a dictionary.
-/

set_option autoImplicit false
set_option relaxedAutoImplicit false

namespace JsonScript

/-- A number of a document: written without fraction and exponent, or with one of them. -/
inductive Numeral where
  | integer (n : Int)
  | float (x : Float)

/-- A JSON document. -/
inductive Json where
  | null
  | bool (b : Bool)
  | number (n : Numeral)
  | string (s : String)
  | array (items : List Json)
  | object (members : List (String × Json))

namespace Json

def ofInt (n : Int) : Json :=
  .number (.integer n)

def member? (name : String) : Json → Option Json
  | .object members => Dictionary.find? name members
  | _ => none

def ofPairs (pairs : List (String × Json)) : Json :=
  .object (Dictionary.ofPairs pairs)

end Json

/-- Numbers with a fraction are written positionally from 1e-5 up to 1e16, and with a signed
exponent elsewhere; what is no number has no text but `null`. -/
def Numeral.layout : Number.Layout where
  leastPositional := -5
  greatestPositional := 15
  exponentSign := "+"
  tie := .toEven
  nan := "null"
  infinity := "null"

/-- The text of a number; its kind can be told from it. -/
def Numeral.render : Numeral → String
  | .integer n => toString n
  | .float x => if Number.isFinite x then Numeral.layout.text x else Numeral.layout.nan

namespace Json

mutual

def render : Json → String
  | .null => "null"
  | .bool true => "true"
  | .bool false => "false"
  | .number n => n.render
  | .string s => Text.json s
  | .array items => "[" ++ renderItems items ++ "]"
  | .object members => "\x7b" ++ renderMembers members ++ "\x7d"

def renderItems : List Json → String
  | [] => ""
  | [item] => item.render
  | item :: next :: rest => item.render ++ "," ++ renderItems (next :: rest)

def renderMembers : List (String × Json) → String
  | [] => ""
  | [(name, item)] => Text.json name ++ ":" ++ item.render
  | (name, item) :: next :: rest =>
    Text.json name ++ ":" ++ item.render ++ "," ++ renderMembers (next :: rest)

end

end Json

end JsonScript
