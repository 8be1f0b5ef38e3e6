import JsonScript.Call
import JsonScript.Json.Basic
import JsonScript.Run
import JsonScript.Value

/-!
The probing box: natives that use every part of the handle of a call and show what they find, the
functions that they hand out, and the environment in which hooks record what happens.

Each function that is made anew carries a stamp of its own, so that two of them differ even when
they do the same.
-/

set_option autoImplicit false
set_option relaxedAutoImplicit false

namespace JsonScript.Probe

inductive Closure where
  | adder (stamp : Nat)
  | constant (stamp : Nat) (v : Value Closure)
  | argument (stamp : Nat) (index : Nat)
  | namer (stamp : Nat)
  | failer (stamp : Nat)
  | countdown (stamp : Nat) (n : Int)
  | shared
  | named (name : String)

inductive Identity where
  | stamped (stamp : Nat)
  | shared
  | named (name : String)
  deriving DecidableEq, Repr

namespace Closure

def identity : Closure → Identity
  | .adder stamp => .stamped stamp
  | .constant stamp _ => .stamped stamp
  | .argument stamp _ => .stamped stamp
  | .namer stamp => .stamped stamp
  | .failer stamp => .stamped stamp
  | .countdown stamp _ => .stamped stamp
  | .shared => .shared
  | .named name => .named name

instance : BEq Closure := ⟨fun f g => f.identity == g.identity⟩

variable {ε : Type}

def make (build : Nat → Closure) : Routine Closure ε (Value Closure) := do
  return .function (build (← Call.request .fresh))

def countingDown (n : Int) : Routine Closure ε (Value Closure) :=
  if n ≤ 0 then return .text "done" else make fun stamp => .countdown stamp n

def code : Closure → Routine Closure ε (Value Closure)
  | .adder _ => do
    let x ← Call.number 1
    let y ← Call.number 2
    return .number (x + y)
  | .constant _ v => return v
  | .argument _ index => Call.argument index
  | .namer _ => do
    let name ← Call.name
    let stack ← Call.stack
    return .list [.text name, .text stack.text]
  | .failer _ => throw (.native "failer")
  | .countdown _ n => countingDown (n - 1)
  | .shared => do return .ofNat (← Call.arity)
  | .named name => return .text name

instance : Callable Closure ε := ⟨code⟩

end Closure

/-- An environment with a log and a counter. -/
structure Journal where
  log : List String := []
  count : Int := 0
  deriving DecidableEq, Repr, Inhabited

namespace Journal

def write (line : String) (j : Journal) : Journal :=
  { j with log := j.log ++ [line] }

def tick (j : Journal) : Journal :=
  { j with count := j.count + 1 }

end Journal

inductive Instrument where
  | log
  | stack
  | count
  | panic
  deriving DecidableEq, Repr

/-- The instrument of a name; no hook at all is `none`. -/
def Instrument.named? : String → Option (Option Instrument)
  | "none" => some none
  | "log" => some (some .log)
  | "stack" => some (some .stack)
  | "count" => some (some .count)
  | "panic" => some (some .panic)
  | _ => none

/-- The hook of an instrument; its lines start with the tag. -/
def Instrument.hook (tag : String) : Instrument → Hook Journal
  | .log, visit, node => { env := visit.env.write (tag ++ " " ++ node.render) }
  | .stack, visit, node =>
    { env := visit.env.write
        (tag ++ " " ++ node.render ++ " depth=" ++ toString visit.stack.size ++
          " stack=" ++ visit.stack.text) }
  | .count, visit, _ => { env := visit.env.tick }
  | .panic, visit, node =>
    match node with
    | .string "boom" =>
      { env := visit.env
        panic := some (.text (tag ++ " hook, count " ++ toString visit.env.count)) }
    | _ => { env := visit.env }

abbrev Datum := Value Closure

abbrev Task (α : Type) := Routine Closure Journal α

def payloadText : Panic → String
  | .text message => message
  | .other => "<other>"

def position : Task Nat := do
  let n : Int ← Call.argumentAs .integer 1
  if n < 0 then throw (.native "negative index") else return n.toNat

def collect : Task Datum := do
  return .list (← Call.arguments)

def pairsAt : List Nat → Task (List (String × Datum))
  | index :: next :: rest => do
    let name ← Call.text index
    let v ← Call.argument next
    return (name, v) :: (← pairsAt rest)
  | [index] => do
    let name ← Call.text index
    let v ← Call.argument (index + 1)
    return [(name, v)]
  | [] => return []

def collectPairs : Task Datum := do
  return .object (← pairsAt (← Call.positions 1))

def quote : Task Datum := do
  return match ← Call.raw? 1 with
    | some node => .ofJson node
    | none => .null

def rawText : Task Datum := do
  return match ← Call.raw? (← position) with
    | some node => .text node.render
    | none => .null

def argumentAt : Task Datum := do
  Call.argument (← position)

def argumentAt? : Task Datum := do
  return match ← Call.argument? (← position) with
    | some v => .list [v]
    | none => .text "absent"

def shapeArgument : Task Shape := do
  match Shape.named? (← Call.text 1) with
  | some shape => return shape
  | none => Call.error "unknown type"

def convertAs : Task Datum := do
  let shape ← shapeArgument
  return shape.toValue (← Call.argumentAs shape 2)

def convertAs? : Task Datum := do
  let shape ← shapeArgument
  return match ← Call.argumentAs? shape 2 with
    | some x => shape.toValue x
    | none => .text "absent"

def twice : Task Datum := do
  let _ ← Call.argument 1
  Call.argument 1

def last : Task Datum := do
  Call.argument (← Call.arity)

def collectReversed : Task Datum := do
  return .list (← Call.argumentsAt (← Call.positions 1).reverse)

def repeatArgument : Nat → Datum → Task Datum
  | 0, kept => return kept
  | times + 1, _ => do
    let v ← Call.argument 2
    repeatArgument times v

def repeatTimes : Task Datum := do
  let n : Int ← Call.argumentAs .integer 1
  repeatArgument n.toNat .null

def tick : Task Datum := do
  let journal := (← Call.environment).tick
  Call.setEnvironment journal
  return .ofInt journal.count

def logValue : Task Datum := do
  let v ← Call.argument 1
  let journal ← Call.environment
  Call.setEnvironment (journal.write v.display)
  return v

def runRaw : Task Datum := do
  let node := (← Call.raw? 1).getD .null
  Call.settle (← Call.request (.run node))

def runText : Task Datum := do
  match Json.read (← Call.text 1) with
  | .ok script => Call.settle (← Call.request (.run script))
  | .error fault => throw ⟨.undecodable fault, .empty⟩

def isBound : Task Datum := do
  return .bool (← Call.request (.bound (← Call.text 1)))

def orElse : Task Datum :=
  tryCatch (Call.argument 1) fun _ => Call.argument 2

def catchFailure : Task Datum :=
  tryCatch (Call.argument 1) fun failure =>
    return .list [
      .text failure.cause.kind, .text failure.cause.summary, .text failure.stack.text]

/-- The first argument; a failure loses its stack. -/
def rethrow : Task Datum :=
  tryCatch (Call.argument 1) fun failure => throw { failure with stack := .empty }

def failPlainly : Task Datum := do
  throw (.native (← Call.text 1))

def failWith : Task Datum := do
  Call.error (← Call.argument 1).display

def causeOf (text : String) : String → Cause
  | "UndefinedName" => .undefinedName text
  | "UndefinedComputedHead" => .undefinedHead text
  | "MissingArgument" => .missingArgument text 7
  | "ArgumentType" => .argumentType text 7 ⟨"thing", "null"⟩
  | "Panic" => .panic text
  | _ => .native text

def raise : Task Datum := do
  let kind ← Call.text 1
  let text : Option String ← Call.argumentAs? .text 2
  throw ⟨causeOf (text.getD "") kind, .empty⟩

def panicWith : Task Datum := do
  let v ← Call.argument 1
  Call.panic (.text ("text: " ++ v.display))

/-- The first argument; a panic is caught and shown with the calls as it left them. -/
def guard : Task Datum := do
  match ← Call.request (.attempt 1) with
  | .ok outcome => Call.settle outcome
  | .error payload =>
    let stack ← Call.stack
    let name ← Call.name
    return .list [.text (payloadText payload), .ofNat stack.size, .text stack.text, .text name]

def constant : Task Datum := do
  let v ← Call.argument 1
  Closure.make fun stamp => .constant stamp v

def argumentGetter : Task Datum := do
  let index ← position
  Closure.make fun stamp => .argument stamp index

def delegate : Task Datum := do
  match ← Call.argument 1 with
  | .function f => Closure.code f
  | v => Call.error (v.typeName ++ " is not callable")

def selfCurry : Task Datum := do
  let n : Int ← Call.argumentAs .integer 1
  Closure.countingDown n

def showing (view : Datum → Datum) : Task Datum := do
  return view (← Call.argument 1)

def entry : Task Datum := do
  let name ← Call.text 2
  let v ← Call.argument 1
  return (v.get? name).getD .null

def documentText (v : Datum) : Datum :=
  match v.toJson? with
  | some document => .text document.render
  | none => .null

def natives : List (String × Task Datum) := [
  ("list", collect), ("obj", collectPairs), ("quote", quote), ("raw", rawText),
  ("arg", argumentAt), ("arg-opt", argumentAt?),
  ("num", do return .number (← Call.number 1)),
  ("str", do return .text (← Call.text 1)),
  ("bool", do return .bool (← Call.bool 1)),
  ("as", convertAs), ("as-opt", convertAs?),
  ("count", do return .ofNat (← Call.arity)),
  ("name", do return .text (← Call.name)),
  ("depth", do return .ofNat (← Call.depth)),
  ("stack", do return .text (← Call.stack).text),
  ("tick", tick), ("log", logValue), ("first", Call.argument 1), ("twice", twice),
  ("last", last), ("rev", collectReversed), ("repeat", repeatTimes),
  ("try", orElse), ("catch", catchFailure), ("rethrow", rethrow),
  ("fail", failPlainly), ("error", failWith), ("raise", raise),
  ("adder", Closure.make .adder), ("const", constant), ("argn", argumentGetter),
  ("namer", Closure.make .namer), ("failer", Closure.make .failer), ("delegate", delegate),
  ("shared", return .function .shared), ("self-curry", selfCurry),
  ("panic-str", Call.panic (.text "static text")), ("panic-string", panicWith),
  ("panic-any", Call.panic .other), ("guard", guard),
  ("subrun", runRaw), ("parse-run", runText), ("get", entry),
  ("type", showing fun v => .text v.typeName),
  ("truthy", showing fun v => .bool v.isTruthy),
  ("show", showing fun v => .text v.display),
  ("debug", showing fun v => .text v.inspect),
  ("json", showing documentText), ("bound", isBound)
]

def probes : Sandbox Closure Journal :=
  natives.foldl (fun box entry => box.insertNative entry.1 entry.2) .empty

def constants : Sandbox Closure Journal :=
  let nan : Float := 0.0 / 0.0
  let infinity : Float := 1.0 / 0.0
  let numbers (xs : List Float) : Datum := .list (xs.map .number)
  let texts (ss : List String) : Datum := .list (ss.map .text)
  Sandbox.empty
    |>.insertValue "nan" (.number nan)
    |>.insertValue "inf" (.number infinity)
    |>.insertValue "-inf" (.number (-infinity))
    |>.insertValue "-zero" (.number (-0.0))
    |>.insertValue "empty" (.list [])
    |>.insertValue "nums" (numbers [1.0, 2.0, 3.0])
    |>.insertValue "words" (texts ["a", "bcd", "é"])
    |>.insertValue "mixed" (.list [.number 1.0, .text "x", .null])

end JsonScript.Probe
