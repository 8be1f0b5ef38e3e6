import JsonScript.Json.Basic
import JsonScript.Number
import JsonScript.Text

/-!
Reading a document.

The reader is a machine that takes one character at a time. A text is malformed when the machine
refuses one of its characters, and unfinished when the machine takes all of them but stands
inside a document at the end. A number that no double can hold is the one thing that shows only
when it is over. The place of a fault is the line, counted from one, and the number of octets in
that line up to the character that is refused, that character's first octet included.
-/

set_option autoImplicit false
set_option relaxedAutoImplicit false

namespace JsonScript

namespace Json

inductive Complaint where
  | unfinishedArray
  | unfinishedObject
  | unfinishedString
  | unfinishedValue
  | expectedColon
  | expectedItemEnd
  | expectedMemberEnd
  | expectedWord
  | expectedValue
  | invalidEscape
  | invalidNumber
  | numberOutOfRange
  | controlCharacter
  | nameNotString
  | loneSurrogate
  | missingPartner
  | trailingComma
  | trailingCharacters
  | tooDeep
  deriving DecidableEq, Repr

namespace Complaint

def isUnfinished : Complaint → Bool
  | .unfinishedArray | .unfinishedObject | .unfinishedString | .unfinishedValue => true
  | _ => false

def text : Complaint → String
  | .unfinishedArray => "EOF while parsing a list"
  | .unfinishedObject => "EOF while parsing an object"
  | .unfinishedString => "EOF while parsing a string"
  | .unfinishedValue => "EOF while parsing a value"
  | .expectedColon => "expected `:`"
  | .expectedItemEnd => "expected `,` or `]`"
  | .expectedMemberEnd => "expected `,` or `\x7d`"
  | .expectedWord => "expected ident"
  | .expectedValue => "expected value"
  | .invalidEscape => "invalid escape"
  | .invalidNumber => "invalid number"
  | .numberOutOfRange => "number out of range"
  | .controlCharacter => "control character (\\u0000-\\u001F) found while parsing a string"
  | .nameNotString => "key must be a string"
  | .loneSurrogate => "lone leading surrogate in hex escape"
  | .missingPartner => "unexpected end of hex escape"
  | .trailingComma => "trailing comma"
  | .trailingCharacters => "trailing characters"
  | .tooDeep => "recursion limit exceeded"

end Complaint

structure Position where
  line : Nat := 1
  column : Nat := 0
  deriving DecidableEq, Repr

def Position.advance (p : Position) (c : Char) (octets : Nat) : Position :=
  if c = '\n' ∧ 0 < octets then ⟨p.line + 1, 0⟩ else ⟨p.line, p.column + octets⟩

/-- A complaint about a text, with its place. -/
structure Fault where
  complaint : Complaint
  position : Position
  deriving DecidableEq, Repr

namespace Fault

def message (f : Fault) : String :=
  f.complaint.text ++ " at line " ++ toString f.position.line ++
    " column " ++ toString f.position.column

/-- The kind of a fault: the text ended too early, or it is malformed. -/
def kind (f : Fault) : String :=
  if f.complaint.isUnfinished then "Eof" else "Syntax"

end Fault

structure Refusal where
  complaint : Complaint
  octets : Nat := 1
  deriving DecidableEq, Repr

end Json

inductive Spelling.Stage where
  | plain
  | escape
  /-- In the four hexadecimal digits of a unit; after a leading unit, in those of its partner. -/
  | unit (leading : Option Nat) (seen : List Char)
  /-- After a leading unit, where its partner must start. -/
  | partner (leading : Nat)
  | partnerMark (leading : Nat)

/-- The part of a string that has been read; characters stand last first. -/
structure Spelling where
  before : List Char := []
  stage : Spelling.Stage := .plain

namespace Spelling

/-- What one more character does to a string: it goes on, it ends, or the character is wrong. -/
inductive Advance where
  | more (s : Spelling)
  | ended (text : String)
  | wrong (refusal : Json.Refusal)

def escaped? (c : Char) : Option Char :=
  match c with
  | '"' => some '"'
  | '\\' => some '\\'
  | '/' => some '/'
  | 'b' => some '\x08'
  | 'f' => some '\x0c'
  | 'n' => some '\n'
  | 'r' => some '\r'
  | 't' => some '\t'
  | _ => none

/-- What a unit means: a character, the first half of one, or nothing that may stand alone. -/
def ofUnit (before : List Char) (leading : Option Nat) (code : Nat) : Advance :=
  match leading with
  | none =>
    if 0xD800 ≤ code ∧ code ≤ 0xDBFF then .more ⟨before, .partner code⟩
    else if 0xDC00 ≤ code ∧ code ≤ 0xDFFF then .wrong ⟨.loneSurrogate, 1⟩
    else .more ⟨Char.ofNat code :: before, .plain⟩
  | some first =>
    if 0xDC00 ≤ code ∧ code ≤ 0xDFFF then
      .more ⟨Char.ofNat (0x10000 + (first - 0xD800) * 0x400 + (code - 0xDC00)) :: before, .plain⟩
    else .wrong ⟨.loneSurrogate, 1⟩

def octets (cs : List Char) : Nat :=
  cs.foldl (fun n c => n + c.utf8Size) 0

/-- Read one more character. The digits of a unit are judged when four octets have been seen. -/
def advance (s : Spelling) (c : Char) : Advance :=
  match s.stage with
  | .plain =>
    if c = '"' then .ended (String.ofList s.before.reverse)
    else if c = '\\' then .more { s with stage := .escape }
    else if c < ' ' then .wrong ⟨.controlCharacter, 1⟩
    else .more { s with before := c :: s.before }
  | .escape =>
    if c = 'u' then .more { s with stage := .unit none [] }
    else match escaped? c with
      | some e => .more ⟨e :: s.before, .plain⟩
      | none => .wrong ⟨.invalidEscape, 1⟩
  | .unit leading seen =>
    if octets (c :: seen) < 4 then .more { s with stage := .unit leading (c :: seen) }
    else match Text.hexNumber? (c :: seen).reverse with
      | some code => ofUnit s.before leading code
      | none => .wrong ⟨.invalidEscape, 4 - octets seen⟩
  | .partner leading =>
    if c = '\\' then .more { s with stage := .partnerMark leading }
    else .wrong ⟨.missingPartner, 1⟩
  | .partnerMark leading =>
    if c = 'u' then .more { s with stage := .unit (some leading) [] }
    else .wrong ⟨.missingPartner, 1⟩

end Spelling

/-- Where the reading of a number stands: after the sign, after a leading zero, and so on. -/
inductive Numeral.Stage where
  | sign
  | zero
  | whole
  | point
  | fraction
  | mark
  | exponentSign
  | exponent
  deriving DecidableEq, Repr

/-- The part of a number that has been read; digits stand last first. -/
structure Numeral.Partial where
  negative : Bool := false
  whole : List Char := []
  fraction : List Char := []
  exponentNegative : Bool := false
  exponent : List Char := []
  stage : Numeral.Stage

namespace Numeral.Partial

def start? (c : Char) : Option Partial :=
  if c = '-' then some { negative := true, stage := .sign }
  else if c = '0' then some { whole := [c], stage := .zero }
  else if c.isDigit then some { whole := [c], stage := .whole }
  else none

/-- What one more character does to a number: it goes on, it is over before the character, or the
character cannot stand here. -/
inductive Advance where
  | more (p : Partial)
  | over
  | wrong (complaint : Json.Complaint)

/-- Integers that fit 64 bits: below 2^64 without a sign, and down to -2^63 with one. -/
def fits (negative : Bool) (magnitude : Nat) : Bool :=
  if negative then decide (0 < magnitude ∧ magnitude ≤ 0x8000000000000000)
  else decide (magnitude < 0x10000000000000000)

def significand (p : Partial) : Nat :=
  Number.digitsValue (p.whole.reverse ++ p.fraction.reverse)

def writtenExponent (p : Partial) : Nat :=
  Number.digitsValue p.exponent.reverse

/-- An exponent that does not fit a signed word of 32 bits puts every number but zero out of
range, whatever follows. -/
def isHopeless (p : Partial) : Bool :=
  decide (0x80000000 ≤ p.writtenExponent ∧ p.exponentNegative = false ∧ p.significand ≠ 0)

def withExponent (p : Partial) : Advance :=
  if p.isHopeless then .wrong .numberOutOfRange else .more p

def advance (p : Partial) (c : Char) : Advance :=
  match p.stage with
  | .sign =>
    if c = '0' then .more { p with whole := [c], stage := .zero }
    else if c.isDigit then .more { p with whole := [c], stage := .whole }
    else .wrong .invalidNumber
  | .zero =>
    if c.isDigit then .wrong .invalidNumber
    else if c = '.' then .more { p with stage := .point }
    else if c = 'e' ∨ c = 'E' then .more { p with stage := .mark }
    else .over
  | .whole =>
    if c.isDigit then .more { p with whole := c :: p.whole }
    else if c = '.' then .more { p with stage := .point }
    else if c = 'e' ∨ c = 'E' then .more { p with stage := .mark }
    else .over
  | .point =>
    if c.isDigit then .more { p with fraction := [c], stage := .fraction }
    else .wrong .invalidNumber
  | .fraction =>
    if c.isDigit then .more { p with fraction := c :: p.fraction }
    else if c = 'e' ∨ c = 'E' then .more { p with stage := .mark }
    else .over
  | .mark =>
    if c.isDigit then .more { p with exponent := [c], stage := .exponent }
    else if c = '+' then .more { p with stage := .exponentSign }
    else if c = '-' then .more { p with exponentNegative := true, stage := .exponentSign }
    else .wrong .invalidNumber
  | .exponentSign =>
    if c.isDigit then .more { p with exponent := [c], stage := .exponent }
    else .wrong .invalidNumber
  | .exponent =>
    if c.isDigit then withExponent { p with exponent := c :: p.exponent } else .over

def isComplete (p : Partial) : Bool :=
  match p.stage with
  | .zero | .whole | .fraction | .exponent => true
  | .sign | .point | .mark | .exponentSign => false

def written (p : Partial) : Number.Written :=
  let shift : Int := p.writtenExponent
  { negative := p.negative
    digits := p.significand
    exponent := (if p.exponentNegative then -shift else shift) - p.fraction.length }

/-- The number that has been read, unless it is beyond all doubles. -/
def finish? (p : Partial) : Option Numeral :=
  let magnitude := Number.digitsValue p.whole.reverse
  if (p.stage = .zero ∨ p.stage = .whole) ∧ fits p.negative magnitude then
    some (.integer (if p.negative then -(magnitude : Int) else magnitude))
  else
    let x := p.written.toFloat
    if Number.isFinite x then some (.float x) else none

end Numeral.Partial

namespace Json

/-- An open container around the value that is being read, with what came before that value. -/
inductive Container where
  | array (before : List Json)
  | object (before : List (String × Json)) (name : String)

/-- What a string is read for: as a value, or as the name of the next member. -/
inductive Purpose where
  | value
  | name (before : List (String × Json))

inductive Phase where
  | value
  /-- Right after an opening bracket, where the array may also end. -/
  | firstItem
  /-- Right after an opening brace, where the object may also end. -/
  | firstName
  | name (before : List (String × Json))
  | colon (before : List (String × Json)) (name : String)
  | word (rest : List Char) (meaning : Json)
  | numeral (p : Numeral.Partial)
  | text (purpose : Purpose) (s : Spelling)
  /-- A value is complete; what follows belongs to the container around it. -/
  | complete (value : Json)

/-- The machine: its phase, and the containers around it from the inside out. -/
structure Reader where
  phase : Phase
  around : List Container

def nestingLimit : Nat := 127

def isSpace (c : Char) : Bool :=
  c = ' ' || c = '\t' || c = '\n' || c = '\r'

namespace Reader

def start : Reader := ⟨.value, []⟩

def refuse (complaint : Complaint) : Except Refusal Reader :=
  .error { complaint }

/-- Open a container, unless too many are open. -/
def nest (around : List Container) (inside : Reader) : Except Refusal Reader :=
  if around.length < nestingLimit then .ok inside else refuse .tooDeep

def beginValue (around : List Container) (c : Char) : Except Refusal Reader :=
  match c with
  | '"' => .ok ⟨.text .value {}, around⟩
  | '[' => nest around ⟨.firstItem, .array [] :: around⟩
  | '{' => nest around ⟨.firstName, around⟩
  | 'n' => .ok ⟨.word ['u', 'l', 'l'] .null, around⟩
  | 't' => .ok ⟨.word ['r', 'u', 'e'] (.bool true), around⟩
  | 'f' => .ok ⟨.word ['a', 'l', 's', 'e'] (.bool false), around⟩
  | c =>
    match Numeral.Partial.start? c with
    | some p => .ok ⟨.numeral p, around⟩
    | none => refuse .expectedValue

def isAfterComma : List Container → Bool
  | .array _ :: _ => true
  | _ => false

def afterValue (value : Json) (around : List Container) (c : Char) : Except Refusal Reader :=
  if isSpace c then .ok ⟨.complete value, around⟩
  else match around with
    | [] => refuse .trailingCharacters
    | .array before :: outer =>
      if c = ',' then .ok ⟨.value, .array (value :: before) :: outer⟩
      else if c = ']' then .ok ⟨.complete (.array (value :: before).reverse), outer⟩
      else refuse .expectedItemEnd
    | .object before name :: outer =>
      let members := Dictionary.insert name value before
      if c = ',' then .ok ⟨.name members, outer⟩
      else if c = '}' then .ok ⟨.complete (.object members), outer⟩
      else refuse .expectedMemberEnd

def step (r : Reader) (c : Char) : Except Refusal Reader :=
  match r.phase with
  | .value =>
    if isSpace c then .ok r
    else if c = ']' ∧ isAfterComma r.around then refuse .trailingComma
    else beginValue r.around c
  | .firstItem =>
    if isSpace c then .ok r
    else if c = ']' then .ok ⟨.complete (.array []), r.around.tail⟩
    else beginValue r.around c
  | .firstName =>
    if isSpace c then .ok r
    else if c = '}' then .ok ⟨.complete (.object []), r.around⟩
    else if c = '"' then .ok ⟨.text (.name []) {}, r.around⟩
    else refuse .nameNotString
  | .name before =>
    if isSpace c then .ok r
    else if c = '"' then .ok ⟨.text (.name before) {}, r.around⟩
    else if c = '}' then refuse .trailingComma
    else refuse .nameNotString
  | .colon before name =>
    if isSpace c then .ok r
    else if c = ':' then .ok ⟨.value, .object before name :: r.around⟩
    else refuse .expectedColon
  | .word [] meaning => afterValue meaning r.around c
  | .word (next :: rest) meaning =>
    if c ≠ next then refuse .expectedWord
    else if rest = [] then .ok ⟨.complete meaning, r.around⟩
    else .ok ⟨.word rest meaning, r.around⟩
  | .numeral p =>
    match p.advance c with
    | .more p => .ok ⟨.numeral p, r.around⟩
    | .over =>
      match p.finish? with
      | some n => afterValue (.number n) r.around c
      | none => .error ⟨.numberOutOfRange, 0⟩
    | .wrong complaint => refuse complaint
  | .text purpose s =>
    match s.advance c, purpose with
    | .more s, purpose => .ok ⟨.text purpose s, r.around⟩
    | .ended text, .value => .ok ⟨.complete (.string text), r.around⟩
    | .ended text, .name before => .ok ⟨.colon before text, r.around⟩
    | .wrong refusal, _ => .error refusal
  | .complete value => afterValue value r.around c

def endAfter (value : Json) : List Container → Except Complaint Json
  | [] => .ok value
  | .array _ :: _ => .error .unfinishedArray
  | .object _ _ :: _ => .error .unfinishedObject

def finish (r : Reader) : Except Complaint Json :=
  match r.phase with
  | .complete value => endAfter value r.around
  | .numeral p =>
    if p.isComplete then
      match p.finish? with
      | some n => endAfter (.number n) r.around
      | none => .error .numberOutOfRange
    else .error .unfinishedValue
  | .text _ _ => .error .unfinishedString
  | .firstItem => .error .unfinishedArray
  | .firstName | .colon _ _ => .error .unfinishedObject
  | .value | .name _ | .word _ _ => .error .unfinishedValue

def readFrom (r : Reader) (place : Position) : List Char → Except Fault Json
  | [] => r.finish.mapError (⟨·, place⟩)
  | c :: rest =>
    match r.step c with
    | .ok r => r.readFrom (place.advance c c.utf8Size) rest
    | .error refusal => .error ⟨refusal.complaint, place.advance c refusal.octets⟩

end Reader

def read (text : String) : Except Fault Json :=
  Reader.start.readFrom {} text.toList

end Json

end JsonScript
