import JsonScript.Boxes
import JsonScript.Declaration.Basic
import JsonScript.Probe.Natives
import JsonScript.Run

/-!
The workbench: sandboxes in named slots, and one context that scripts are run in, with the typed box
and the boxes by name.
-/

set_option autoImplicit false
set_option relaxedAutoImplicit false

namespace JsonScript.Probe

open Declaration (written writtenUnit writtenResult)

abbrev HostFunction := TypedNative Closure

def greater (x y : Float) : Float :=
  if x.isNaN then y else if x < y then y else x

def smaller (x y : Float) : Float :=
  if x.isNaN then y else if y < x then y else x

def word64 (n : Int) : Int :=
  n.bmod 0x10000000000000000

def greeting (name : String) (salutation : Option String) : String :=
  salutation.getD "Hello" ++ ", " ++ name ++ "!"

def quotient (a b : Int) : Except String Int :=
  if b = 0 then .error "division by zero" else .ok (a.tdiv b)

def lengths (items : List String) : List Int :=
  items.map fun s => s.utf8ByteSize

def clamp (x : Float) (low high : Option Float) : Float :=
  let infinity : Float := 1.0 / 0.0
  smaller (greater x (low.getD (-infinity))) (high.getD infinity)

def successor (x : Option Int) : Option Int :=
  x.map fun n => word64 (n + 1)

def total (items : Option (List (Option Int))) (scale : Int) : Int :=
  word64 (((items.getD []).filterMap id).foldl (fun sum n => word64 (sum + n)) 0 * scale)

def give (shape : Shape) (x : shape.Host Closure) : Except String Datum :=
  .ok (shape.toValue x)

def hostFunctions : List HostFunction := [
  { name := "add"
    docs := [
      " Add two numbers together.", "", " Args:", "     a: First number", "     b: Second number"]
    parameters := [("a", .number), ("b", .number)]
    returns := some (written .number)
    body := fun (a, b, _) => give .number (Float.add a b) },
  { name := "greet"
    docs := [
      " Greet a person.", "", " Args:", "     name: The person's name",
      "     prefix: Optional greeting, defaults to Hello"]
    parameters := [("name", .text), ("prefix", .optional .text)]
    returns := some (written .text)
    body := fun (name, salutation, _) => give .text (greeting name salutation) },
  { name := "div"
    settings := { name := some "int/div", description := some "Integer division." }
    parameters := [("a", .integer), ("b", .integer)]
    returns := some (writtenResult (written .integer) (written .text))
    body := fun (a, b, _) => (quotient a b).bind (give .integer) },
  { name := "lengths"
    parameters := [("items", .list .text)]
    returns := some (written (.list .integer))
    body := fun (items, _) => give (.list .integer) (lengths items) },
  { name := "clamp"
    docs := [
      " Clamp a number into a range.", "", " Arguments:", "     x: The value to clamp",
      "     lo: Lower bound"]
    parameters := [("x", .number), ("lo", .optional .number), ("hi", .optional .number)]
    returns := some (written .number)
    body := fun (x, low, high, _) => give .number (clamp x low high) },
  { name := "flip_bool"
    settings := { name := some "flip" }
    parameters := [("b", .bool)]
    returns := some (written .bool)
    body := fun (b, _) => give .bool (Bool.not b) },
  { name := "nothing"
    docs := [" Does nothing."]
    returns := some writtenUnit
    body := fun _ => .ok .null },
  { name := "maybe"
    parameters := [("x", .optional .integer)]
    returns := some (written (.optional .integer))
    body := fun (x, _) => give (.optional .integer) (successor x) },
  { name := "echo"
    parameters := [("v", .json)]
    returns := some (written .json)
    body := fun (v, _) => give .json v },
  { name := "total"
    parameters := [("items", .optional (.list (.optional .integer))), ("scale", .integer)]
    returns := some (written .integer)
    body := fun (items, scale, _) => give .integer (total items scale) }
]

def typed : Sandbox Closure Journal :=
  hostFunctions.foldl (fun box function => function.register box) .empty

def hostFunction? (name : String) : Option HostFunction :=
  hostFunctions.find? (·.declaration.scriptName = name)

abbrev Box := Sandbox Closure Journal

abbrev Bench := Context Closure Journal

def box? : String → Option Box
  | "empty" => some .empty
  | "arithmetic" => some Boxes.arithmetic
  | "comparison" => some Boxes.comparison
  | "logic" => some Boxes.logic
  | "strings" => some Boxes.strings
  | "std" => some Boxes.standard
  | "host" => some probes
  | "consts" => some constants
  | "typed" => some typed
  | _ => none

structure Options where
  lift : Bool := false
  before : Option Instrument := none
  after : Option Instrument := none
  count : Int := 0

def Options.context (o : Options) (sandbox : Box) : Bench where
  sandbox := sandbox
  before := o.before.map (·.hook "pre")
  after := o.after.map (·.hook "post")
  lift := o.lift
  env := { count := o.count }

inductive Script where
  | document (node : Json)
  | text (source : String)

structure Snapshot where
  stack : Stack
  lift : Bool
  count : Int
  log : List String

/-- Look at a context; looking empties its log. -/
def snapshot (bench : Bench) : Snapshot × Bench :=
  ({ stack := bench.stack, lift := bench.lift, count := bench.env.count, log := bench.env.log },
    { bench with env := { bench.env with log := [] } })

/-- What a run shows: how it ended, the events in order, and the context after it. -/
structure Report where
  ending : Ending (Outcome Closure)
  events : List Event
  snapshot : Snapshot

def report (bench : Bench) (script : Script) (nextFresh : Nat) : Report × Bench × Nat :=
  let start : Ledger := { nextFresh }
  let (ending, bench, ledger) :=
    match script with
    | .document node => bench.run node start
    | .text source => bench.runText source start
  let (seen, bench) := snapshot bench
  ({ ending, events := ledger.events.reverse, snapshot := seen }, bench, ledger.nextFresh)

inductive BoxStep where
  | clear
  | load (box : Box)
  | clone (source : String)
  | merge (left right : String)
  | compose (sources : List String)
  | insert (name : String) (v : Datum)
  | copy (name : String) (slot : String) (source : String)
  | insertValue (name : String) (v : Datum)
  | insertConstant (name : String) (v : Datum)
  | publishConstant (signature : Signature) (v : Datum)
  | register (function : HostFunction)
  | inspect (names : List String)
  | open (options : Options)

inductive BenchStep where
  | run (script : Script)
  | setLift (lift : Bool)
  | swap (slot : String)
  | setCount (count : Int)
  | look
  | finish

inductive Step where
  | box (slot : String) (step : BoxStep)
  | bench (step : BenchStep)

inductive BoxRemark where
  | none
  | replaced (before : Option (Binding Closure Journal))
  | unbound
  | inspected (bindings : List (Option (Binding Closure Journal)))
  | opened (snapshot : Snapshot)

inductive Answer where
  | box (after : Box) (remark : BoxRemark)
  | ran (report : Report)
  | seen (names : List String) (snapshot : Snapshot)
  | finished (journal : Journal)
  | noContext

structure Workbench where
  slots : List (String × Box) := []
  bench : Option Bench := none
  nextFresh : Nat := 0

namespace Workbench

/-- The sandbox in a slot; a slot that was never set is empty. -/
def slot (w : Workbench) (name : String) : Box :=
  (Dictionary.find? name w.slots).getD .empty

private def bind (sandbox : Box) (name : String) (binding : Binding Closure Journal) :
    Box × BoxRemark :=
  (sandbox.insert name binding, .replaced (sandbox.find? name))

def stepBox (w : Workbench) (name : String) : BoxStep → Box × BoxRemark
  | .clear => (.empty, .none)
  | .load sandbox => (sandbox, .none)
  | .clone source => (w.slot source, .none)
  | .merge left right => ((w.slot left).merge (w.slot right), .none)
  | .compose sources => (.compose (sources.map w.slot), .none)
  | .insert key v => bind (w.slot name) key (.ofValue v)
  | .copy key other source =>
    match (if other = name then Sandbox.empty else w.slot other).find? source with
    | some binding => bind (w.slot name) key binding
    | none => (w.slot name, .unbound)
  | .insertValue key v => ((w.slot name).insertValue key v, .none)
  | .insertConstant key v => ((w.slot name).insertNative key (Call.settle (.ok v)), .none)
  | .publishConstant signature v => ((w.slot name).publish signature (Call.settle (.ok v)), .none)
  | .register function => (function.register (w.slot name), .none)
  | .inspect names => (w.slot name, .inspected (names.map (w.slot name).find?))
  | .open options => (w.slot name, .opened (snapshot (options.context (w.slot name))).1)

def opened? (sandbox : Box) : BoxStep → Option Bench
  | .open options => some (options.context sandbox)
  | _ => none

private def lookAt (w : Workbench) (bench : Bench) : Workbench × Answer :=
  let (seen, bench) := snapshot bench
  ({ w with bench := some bench }, .seen bench.sandbox.names seen)

def stepBench (w : Workbench) (bench : Bench) : BenchStep → Workbench × Answer
  | .run script =>
    let (found, bench, nextFresh) := report bench script w.nextFresh
    ({ w with bench := some bench, nextFresh }, .ran found)
  | .setLift lift => w.lookAt { bench with lift }
  | .swap slot => w.lookAt { bench with sandbox := w.slot slot }
  | .setCount count => w.lookAt { bench with env := { bench.env with count } }
  | .look => w.lookAt bench
  | .finish => ({ w with bench := none }, .finished bench.env)

def step (w : Workbench) : Step → Workbench × Answer
  | .box name step =>
    let (sandbox, remark) := w.stepBox name step
    let slots := Dictionary.insert name sandbox w.slots
    ({ w with slots, bench := (opened? sandbox step).or w.bench }, .box sandbox remark)
  | .bench step =>
    match w.bench with
    | some bench => w.stepBench bench step
    | none => (w, .noContext)

def steps (w : Workbench) : List Step → List Answer
  | [] => []
  | step :: rest =>
    let (w, answer) := w.step step
    answer :: w.steps rest

end Workbench

end JsonScript.Probe
