import JsonScript.Call
import JsonScript.Declaration.Token
import JsonScript.Dictionary
import JsonScript.Sandbox
import JsonScript.Shape

/-!
Declarations of typed natives.

A declaration is a host function with its attribute and its doc comments. It determines the
signature that is published and how the arguments are pulled from a call: in the order of the
parameters, each once. An optional parameter may be left out of the call, and null stands for its
absence too. A type is known by its tokens, so blanks and comments in it do not matter.
-/

set_option autoImplicit false
set_option relaxedAutoImplicit false

namespace JsonScript

namespace Declaration

structure Attribute where
  name : Option String := none
  description : Option String := none
  deriving DecidableEq, Repr

/-- Where the reading of an attribute fails. -/
inductive Attribute.Fault where
  | noIdentifier
  | keyword (spelling : String)
  | noEquals
  | noText
  | endsBeforeText
  | unknownKey
  | noComma
  deriving DecidableEq, Repr

def Attribute.Fault.message : Attribute.Fault → String
  | .noIdentifier => "expected identifier"
  | .keyword spelling => "expected identifier, found keyword `" ++ spelling ++ "`"
  | .noEquals => "expected `=`"
  | .noText => "expected string literal"
  | .endsBeforeText => "unexpected end of input, expected string literal"
  | .unknownKey => "expected `name` or `description`"
  | .noComma => "expected `,`"

namespace Attribute

def set? (a : Attribute) (key value : String) : Option Attribute :=
  if key = "name" then some { a with name := some value }
  else if key = "description" then some { a with description := some value }
  else none

def read (a : Attribute) : List Token → Except Fault Attribute
  | [] => .ok a
  | .word key :: rest =>
    if Token.isKeyword key then .error (.keyword key)
    else match rest with
      | .mark '=' :: .text value :: rest =>
        match a.set? key value with
        | none => .error .unknownKey
        | some a =>
          match rest with
          | [] => .ok a
          | .mark ',' :: rest => read a rest
          | _ => .error .noComma
      | [.mark '='] => .error .endsBeforeText
      | .mark '=' :: _ => .error .noText
      | _ => .error .noEquals
  | _ => .error .noIdentifier

def itemTokens (key : List Token) (value : String) : List Token :=
  key ++ [.mark '=', .text value]

def tokens (items : List (List Token × String)) : List Token :=
  [.mark ','].intercalate (items.map fun (key, value) => itemTokens key value)

end Attribute

/-- What the doc comments of a declaration say. -/
structure Docs where
  description : String
  /-- The texts of the arguments under their names, the last entry of a name winning. -/
  arguments : List (String × String)
  deriving DecidableEq, Repr

namespace Docs

/-- What has been read: the description's lines, the finished entries, and the open entry. -/
structure Reading where
  description : List String := []
  inArguments : Bool := false
  finished : List (String × String) := []
  current : Option (String × String) := none

def isMarker (line : String) : Bool :=
  line = "Args:" || line = "Arguments:"

def splitAtColon : List Char → Option (List Char × List Char)
  | [] => none
  | c :: rest =>
    if c = ':' then some ([], rest)
    else (splitAtColon rest).map fun (before, after) => (c :: before, after)

/-- The entry that a line opens: a name without spaces, a colon and a text. -/
def entry? (line : String) : Option (String × String) :=
  match splitAtColon line.toList with
  | some (before, after) =>
    let name := Text.trimChars before
    if name ≠ [] ∧ ' ' ∉ name then
      some (String.ofList name, String.ofList (Text.trimChars after))
    else none
  | none => none

def Reading.close (r : Reading) : Reading :=
  match r.current with
  | some (name, text) =>
    { r with finished := Dictionary.insert name text r.finished, current := none }
  | none => r

def Reading.advance (r : Reading) (line : String) : Reading :=
  let line := Text.trim line
  if isMarker line then { r with inArguments := true }
  else if !r.inArguments then
    if line.isEmpty then r else { r with description := r.description ++ [line] }
  else match entry? line with
    | some entry => { r.close with current := some entry }
    | none =>
      if line.isEmpty then r
      else { r with current := r.current.map fun (name, text) => (name, text ++ " " ++ line) }

def ofLines (lines : List String) : Docs :=
  let r := (lines.foldl Reading.advance {}).close
  { description := " ".intercalate r.description, arguments := r.finished }

def argument (docs : Docs) (name : String) : String :=
  (Dictionary.find? name docs.arguments).getD ""

/-- The doc lines among attributes: the texts of the attributes `doc` that give one as a string.
What stands inside another attribute does not count. -/
def linesOf (n : Nesting) : List Token → List String
  | [] => []
  | .mark '#' :: .mark '[' :: .word "doc" :: .mark '=' :: .text line :: .mark ']' :: rest =>
    if n.isOutside then line :: linesOf n rest else linesOf n rest
  | t :: rest => linesOf (n.after t) rest

end Docs

def insideOption? : List Token → Option (List Token)
  | .word "Option" :: .mark '<' :: rest =>
    if rest.getLast? = some (.mark '>') then some rest.dropLast else none
  | _ => none

def plainTypeName : List Token → String
  | [.word "f64"] => "number"
  | [.word "i64"] => "integer"
  | [.word "bool"] => "bool"
  | [.word "String"] => "string"
  | [.mark '(', .mark ')'] => "null"
  | .word "Vec" :: .mark '<' :: _ => "list"
  | _ => "any"

def isLifetime : List Token → Bool
  | [.mark '\'', .word _] => true
  | _ => false

def hasLifetime (inside : List Token) : Bool :=
  (Token.split (.mark ',') {} (Token.closing { angles := 1 } inside).1).any isLifetime

/-- The name that is published for a type. Wherever a lifetime stands among the arguments of an
`Option`, it counts as the first one, so that no known type starts there. -/
def typeName (type : List Token) : String :=
  match insideOption? type with
  | some inside => if hasLifetime inside then "any" else plainTypeName inside
  | none => plainTypeName type

def isOptional : List Token → Bool
  | .word "Option" :: .mark '<' :: _ => true
  | _ => false

def pathKeywords : List String :=
  ["crate", "self", "super", "Self", "try"]

def isSegment (spelling : String) : Bool :=
  !Token.isKeyword spelling || pathKeywords.contains spelling

/-- The last segment of a path, after a segment that has been read. The arguments of the segments
have been taken out, also those that two colons set off. Arguments in parentheses may have a return
type; a sum of bounds is no path. -/
def lastSegmentFrom? (segment : Option String) : List Token → Option String
  | [] => segment
  | .scope :: .word spelling :: rest =>
    if isSegment spelling then lastSegmentFrom? (some spelling) rest else none
  | .scope :: rest => lastSegmentFrom? segment rest
  | .arrow :: rest => if rest.contains (.mark '+') then none else segment
  | _ => none

def lastSegment? (type : List Token) : Option String :=
  match Token.outermost {} type with
  | .word spelling :: rest =>
    if isSegment spelling then lastSegmentFrom? (some spelling) rest else none
  | tokens => lastSegmentFrom? none tokens

/-- Whether a function with this return type may fail: its type is a path that ends in `Result`. -/
def mayFail (type : List Token) : Bool :=
  lastSegment? type = some "Result"

def applied (head : String) (argument : List Token) : List Token :=
  .word head :: .mark '<' :: argument ++ [.mark '>']

def written : Shape → List Token
  | .any => [.word "Value"]
  | .json => [.word "serde_json", .scope, .word "Value"]
  | .number => [.word "f64"]
  | .integer => [.word "i64"]
  | .bool => [.word "bool"]
  | .text => [.word "String"]
  | .optional inner => applied "Option" (written inner)
  | .list item => applied "Vec" (written item)

def writtenUnit : List Token :=
  [.mark '(', .mark ')']

def writtenResult (value failure : List Token) : List Token :=
  applied "Result" (value ++ .mark ',' :: failure)

end Declaration

/-- A host function as it is declared. -/
structure Declaration where
  name : String
  settings : Declaration.Attribute := {}
  docs : List String := []
  parameters : List (List Declaration.Token × List Declaration.Token) := []
  returns : Option (List Declaration.Token) := none
  visibility : List Declaration.Token := []

namespace Declaration

def namedWord? : List Token → Option String
  | [.word spelling] => some spelling
  | .word spelling :: .mark '@' :: _ => some spelling
  | _ => none

def isParameterName (spelling : String) : Bool :=
  !Token.isKeyword spelling

/-- Whether a word can be the name of a parameter that is bound by reference. Such a parameter is no
receiver, so the word for a receiver is a name like others. -/
def isReferenceName (spelling : String) : Bool :=
  isParameterName spelling || spelling = "self"

/-- The identifier that a pattern binds as a whole. A receiver binds none. -/
def boundName? : List Token → Option String
  | .word "ref" :: .word "mut" :: rest => (namedWord? rest).filter isReferenceName
  | .word "ref" :: rest => (namedWord? rest).filter isReferenceName
  | .word "mut" :: rest => (namedWord? rest).filter isParameterName
  | tokens => (namedWord? tokens).filter isParameterName

structure Pull where
  name : String
  optional : Bool
  index : Nat
  deriving DecidableEq, Repr

/-- A parameter that a declaration publishes, with its position in the call. -/
structure Published where
  name : String
  type : List Token
  index : Nat

/-- The parameters that bind an identifier; the others keep their positions. -/
def published (first : Nat) : List (List Token × List Token) → List Published
  | [] => []
  | (pattern, type) :: rest =>
    match boundName? pattern with
    | some name => ⟨name, type, first⟩ :: published (first + 1) rest
    | none => published (first + 1) rest

def scriptName (d : Declaration) : String :=
  d.settings.name.getD d.name

def Published.parameter (docs : Docs) (p : Published) : Parameter where
  name := p.name
  type := typeName p.type
  description := docs.argument p.name
  required := !isOptional p.type

def Published.pull (p : Published) : Pull where
  name := p.name
  optional := isOptional p.type
  index := p.index

def signature (d : Declaration) : Signature :=
  let docs := Docs.ofLines d.docs
  { name := d.scriptName
    description := d.settings.description.getD docs.description
    parameters := (published 1 d.parameters).map (·.parameter docs)
    returns := (d.returns.map typeName).getD "null" }

def pulls (d : Declaration) : List Pull :=
  (published 1 d.parameters).map (·.pull)

def isFallible (d : Declaration) : Bool :=
  (d.returns.map mayFail).getD false

def moduleName (d : Declaration) : String :=
  match d.name.toList with
  | 'r' :: '#' :: rest => String.ofList rest
  | _ => d.name

def moduleVisibility (d : Declaration) : String :=
  String.join (d.visibility.map (·.symbol))

end Declaration

def Received (φ : Type) : List Shape → Type
  | [] => Unit
  | shape :: rest => shape.Host φ × Received φ rest

namespace Call

variable {φ ε : Type}

def pull : (shape : Shape) → Nat → Routine φ ε (shape.Host φ)
  | .optional inner, index => do
    let found : Option (Option (inner.Host φ)) ← argumentAs? (.optional inner) index
    return (found.join : Option (inner.Host φ))
  | shape, index => argumentAs shape index

def pullAll : (shapes : List Shape) → Nat → Routine φ ε (Received φ shapes)
  | [], _ => return ()
  | shape :: rest, index => do
    let x ← pull shape index
    let others ← pullAll rest (index + 1)
    return (x, others)

end Call

/-- A host function with its declaration. -/
structure TypedNative (φ : Type) where
  name : String
  settings : Declaration.Attribute := {}
  docs : List String := []
  parameters : List (String × Shape) := []
  returns : Option (List Declaration.Token) := none
  body : Received φ (parameters.map (·.2)) → Except String (Value φ)

namespace TypedNative

variable {φ ε : Type}

def declaration (t : TypedNative φ) : Declaration where
  name := t.name
  settings := t.settings
  docs := t.docs
  parameters := t.parameters.map fun (name, shape) => ([.word name], Declaration.written shape)
  returns := t.returns

def native (t : TypedNative φ) : Routine φ ε (Value φ) := do
  let received ← Call.pullAll (t.parameters.map (·.2)) 1
  match t.body received with
  | .ok v => return v
  | .error message => Call.error message

def register (t : TypedNative φ) (s : Sandbox φ ε) : Sandbox φ ε :=
  s.publish t.declaration.signature t.native

end TypedNative

end JsonScript
