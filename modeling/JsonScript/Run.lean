import JsonScript.Call
import JsonScript.Failure
import JsonScript.Json.Basic
import JsonScript.Sandbox

/-!
Runs of scripts.

A document is its own syntax tree. An array is a call: its first item names or computes what is
called, and the others are the arguments. Everything else is a literal. Evaluation follows the
tree; natives decide which arguments are evaluated, in which order and how often. It returns, or
unwinds with a panic, or is cut off because natives have started runs inside runs without end.

Scripts are run in a context. A run starts without calls in progress and leaves none behind when it
returns. A panic that reaches the host leaves the calls that it interrupted, until the next run
starts.
-/

set_option autoImplicit false
set_option relaxedAutoImplicit false

namespace JsonScript

/-- Where a node stands in a script: its position in the array around it, then the position of
that array, and so on up to the root. Heads stand at position zero. -/
abbrev Address := List Nat

def Address.index (a : Address) : Nat :=
  a.headD 0

/-- One step of the way, with the calls that were in progress. -/
inductive Passage where
  | entered (address : Address) (node : Json) (stack : Stack)
  | left (address : Address) (node : Json) (stack : Stack)

/-- What a run reports while it goes on. -/
inductive Event where
  | dispatch (call : Frame) (around : List Frame) (arity : Nat)
  | lifted (message : String) (stack : Stack)
  | failed (message : String) (stack : Stack)
  deriving DecidableEq, Repr

/-- What outlives single runs: the supply of fresh numbers, and the events, latest first. -/
structure Ledger where
  nextFresh : Nat := 0
  events : List Event := []

def Ledger.record (e : Event) (l : Ledger) : Ledger :=
  { l with events := e :: l.events }

/-- The state of a run. -/
structure World (ε : Type) where
  /-- The calls in progress, innermost first. -/
  frames : List Frame := []
  env : ε
  ledger : Ledger
  /-- The way through the script so far, latest step first. -/
  passages : List Passage := []

namespace World

variable {ε : Type}

def stack (w : World ε) : Stack :=
  ⟨w.frames⟩

def label (w : World ε) : String :=
  (w.frames.head?.map Frame.label).getD ""

def failure (w : World ε) (cause : Cause) : Failure :=
  ⟨cause, w.stack⟩

def record (e : Event) (w : World ε) : World ε :=
  { w with ledger := w.ledger.record e }

def pass (p : Passage) (w : World ε) : World ε :=
  { w with passages := p :: w.passages }

end World

/-- How a computation ends. -/
inductive Ending (α : Type) where
  | returned (result : α)
  | unwound (payload : Panic)
  /-- Runs inside runs went too deep. -/
  | exhausted

/-- A computation on the state of a run. -/
def Run (ε α : Type) : Type :=
  World ε → Ending α × World ε

namespace Run

variable {ε α β : Type}

def pure (result : α) : Run ε α :=
  fun w => (.returned result, w)

/-- One computation after another; the second starts only if the first returns. -/
def bind (first : Run ε α) (next : α → Run ε β) : Run ε β :=
  fun w =>
    match first w with
    | (.returned result, w) => next result w
    | (.unwound payload, w) => (.unwound payload, w)
    | (.exhausted, w) => (.exhausted, w)

instance : Monad (Run ε) where
  pure := pure
  bind := bind

def look (view : World ε → α) : Run ε α :=
  fun w => (.returned (view w), w)

def change (update : World ε → World ε) : Run ε Unit :=
  fun w => (.returned (), update w)

def unwind (payload : Panic) : Run ε α :=
  fun w => (.unwound payload, w)

/-- Catch a panic; the state stays as the panic left it. -/
def catchPanic (body : Run ε α) : Run ε (Except Panic α) :=
  fun w =>
    match body w with
    | (.returned result, w) => (.returned (.ok result), w)
    | (.unwound payload, w) => (.returned (.error payload), w)
    | (.exhausted, w) => (.exhausted, w)

/-- Run inside a call: its frame is there while the body runs, and stays if the body unwinds. -/
def within (frame : Frame) (body : Run ε α) : Run ε α := do
  change fun w => { w with frames := frame :: w.frames }
  let result ← body
  change fun w => { w with frames := w.frames.tail }
  return result

def fail {φ : Type} (cause : Cause) : Run ε (Outcome φ) :=
  look fun w => .error (w.failure cause)

def record (e : Event) : Run ε Unit :=
  change (World.record e)

end Run

/-- What a hook sees of a run: the environment and the calls in progress. -/
structure Visit (ε : Type) where
  env : ε
  stack : Stack

/-- What a hook does: it may change the environment, and it may panic. -/
structure Reaction (ε : Type) where
  env : ε
  panic : Option Panic := none

/-- A hook is told of every node. -/
abbrev Hook (ε : Type) := Visit ε → Json → Reaction ε

/-- What is fixed during a run. -/
structure Setup (φ ε : Type) where
  sandbox : Sandbox φ ε
  before : Option (Hook ε) := none
  after : Option (Hook ε) := none
  lift : Bool := false

/-- How runs that natives start are served. -/
abbrev InnerRun (φ : Type) := Json → Ledger → Ending (Outcome φ) × Ledger

namespace Evaluator

variable {φ ε α : Type}

def tell (hook : Option (Hook ε)) (node : Json) : Run ε Unit :=
  match hook with
  | none => pure ()
  | some hook => fun w =>
    let reaction := hook ⟨w.env, w.stack⟩ node
    let w := { w with env := reaction.env }
    match reaction.panic with
    | none => (.returned (), w)
    | some payload => (.unwound payload, w)

def enter (setup : Setup φ ε) (address : Address) (node : Json) : Run ε Unit := do
  Run.change fun w => w.pass (.entered address node w.stack)
  tell setup.before node

def leave (setup : Setup φ ε) (address : Address) (node : Json) : Run ε Unit := do
  Run.change fun w => w.pass (.left address node w.stack)
  tell setup.after node

def argumentAt? (items : List α) : Nat → Option α
  | 0 => none
  | index + 1 => items[index]?

/-- Serve a run that a native starts; only the ledger is shared with it. -/
def serveInner (inner : InnerRun φ) (script : Json) : Run ε (Outcome φ) :=
  fun w =>
    let (ending, ledger) := inner script w.ledger
    (ending, { w with ledger })

/-- Convert the value of an argument; a value of another shape is a failure of the call. -/
def convert (shape : Shape) (index : Nat) (v : Value φ) : Run ε (Except Failure (shape.Host φ)) :=
  match shape.fromValue v with
  | .ok x => pure (.ok x)
  | .error mismatch => Run.look fun w => .error (w.failure (.argumentType w.label index mismatch))

def fetch (shape : Shape) (index : Nat) (evaluation : Run ε (Outcome φ)) :
    Run ε (Except Failure (shape.Host φ)) := do
  match ← evaluation with
  | .ok v => convert shape index v
  | .error failure => return .error failure

def missing (index : Nat) : Run ε (Except Failure α) :=
  Run.look fun w => .error (w.failure (.missingArgument w.label index))

/-- Answer a request of a native that serves a call with the given arguments, where `evaluations`
are the evaluations of the arguments. -/
def answer (setup : Setup φ ε) (inner : InnerRun φ) (arguments : List Json)
    (evaluations : List (Run ε (Outcome φ))) : (r : Request φ ε) → Run ε r.Reply
  | .arity => pure arguments.length
  | .raw index => pure (argumentAt? arguments index)
  | .argument shape index =>
    match argumentAt? evaluations index with
    | some evaluation => fetch shape index evaluation
    | none => missing index
  | .argumentIfAny shape index =>
    match argumentAt? evaluations index with
    | some evaluation => do return (← fetch shape index evaluation).map some
    | none => pure (.ok none)
  | .attempt index =>
    match argumentAt? evaluations index with
    | some evaluation => evaluation.catchPanic
    | none => do return .ok (← missing index)
  | .failure message => Run.look fun w => w.failure (.native message)
  | .stack => Run.look World.stack
  | .environment => Run.look World.env
  | .setEnvironment env => Run.change fun w => { w with env }
  | .bound name => pure (setup.sandbox.contains name)
  | .lifting => pure setup.lift
  | .fresh => fun w =>
    (.returned w.ledger.nextFresh,
      { w with ledger := { w.ledger with nextFresh := w.ledger.nextFresh + 1 } })
  | .run script => serveInner inner script

def perform (answers : (r : Request φ ε) → Run ε r.Reply) : Program φ ε α → Run ε α
  | .done result => pure result
  | .panic payload => Run.unwind payload
  | .ask request next => do
    let reply ← answers request
    perform answers (next reply)

def reportDispatch (arity : Nat) : Run ε Unit :=
  Run.change fun w =>
    match w.frames with
    | [] => w
    | call :: around => w.record (.dispatch call around arity)

def stamp (outcome : Outcome φ) : Run ε (Outcome φ) :=
  Run.look fun w => outcome.mapError (Failure.stamp w.stack)

def invoke (setup : Setup φ ε) (inner : InnerRun φ) (arguments : List Json)
    (evaluations : List (Run ε (Outcome φ))) (native : Native φ ε) : Run ε (Outcome φ) := do
  reportDispatch arguments.length
  let outcome ← perform (answer setup inner arguments evaluations) native.run
  stamp outcome

variable [Callable φ ε]

mutual

/-- Evaluate the node at an address. -/
def evaluate (setup : Setup φ ε) (inner : InnerRun φ) : Json → Address → Run ε (Outcome φ)
  | .array items, address => do
    enter setup address (.array items)
    match ← evaluateCall setup inner items address with
    | .ok v =>
      leave setup address (.array items)
      return .ok v
    | .error failure => return .error failure
  | literal, address => do
    enter setup address literal
    leave setup address literal
    return .ok (.ofJson literal)

/-- Evaluate a call. The empty call is null. A head that is no name is evaluated outside the
frame of the call, but the depth of the frame is settled before. -/
def evaluateCall (setup : Setup φ ε) (inner : InnerRun φ) :
    List Json → Address → Run ε (Outcome φ)
  | [], _ => return .ok .null
  | .string name :: arguments, address => do
    let depth ← Run.look fun w => w.frames.length + 1
    Run.within ⟨name, address.index, depth⟩ <|
      match setup.sandbox.find? name with
      | some (.callable native) =>
        invoke setup inner arguments (evaluations setup inner arguments address 1) native
      | some (.value v) => return .ok v
      | none => Run.fail (.undefinedName name)
  | head :: arguments, address => do
    let depth ← Run.look fun w => w.frames.length + 1
    match ← evaluate setup inner head (0 :: address) with
    | .error failure => return .error failure
    | .ok callee =>
      Run.within ⟨head.render, address.index, depth⟩ <|
        match callee with
        | .function f =>
          invoke setup inner arguments (evaluations setup inner arguments address 1)
            (Callable.code f)
        | _ => Run.fail (.undefinedHead head.render)

def evaluations (setup : Setup φ ε) (inner : InnerRun φ) :
    List Json → Address → Nat → List (Run ε (Outcome φ))
  | [], _, _ => []
  | argument :: rest, address, position =>
    evaluate setup inner argument (position :: address) ::
      evaluations setup inner rest address (position + 1)

end

end Evaluator

/-- The state in which scripts are run. -/
structure Context (φ ε : Type) extends Setup φ ε where
  env : ε
  frames : List Frame := []

def Panic.message : Panic → String
  | .text message => message
  | .other => "unknown panic"

namespace Context

variable {φ ε : Type}

def ofSandbox (sandbox : Sandbox φ ε) (env : ε) : Context φ ε :=
  { sandbox, env }

def stack (c : Context φ ε) : Stack :=
  ⟨c.frames⟩

def depth (c : Context φ ε) : Nat :=
  c.frames.length

def liftPanic (body : Run ε (Outcome φ)) : Run ε (Outcome φ) := do
  match ← body.catchPanic with
  | .ok outcome => return outcome
  | .error payload =>
    let stack ← Run.look World.stack
    Run.record (.lifted payload.message stack)
    return .error ⟨.panic payload.message, stack⟩

def reportFailure : Outcome φ → Ledger → Ledger
  | .ok _, ledger => ledger
  | .error failure, ledger => ledger.record (.failed failure.message failure.stack)

variable [Callable φ ε]

def evaluation (c : Context φ ε) (inner : InnerRun φ) (script : Json) : Run ε (Outcome φ) :=
  let body := Evaluator.evaluate c.toSetup inner script []
  if c.lift then liftPanic body else body

def trace (c : Context φ ε) (inner : InnerRun φ) (script : Json) (ledger : Ledger) :
    Ending (Outcome φ) × World ε :=
  c.evaluation inner script { env := c.env, ledger }

/-- The context after an evaluation, and the ledger. A run that returns leaves no calls behind. -/
def close (c : Context φ ε) :
    Ending (Outcome φ) × World ε → Ending (Outcome φ) × Context φ ε × Ledger
  | (.returned outcome, w) =>
    (.returned outcome, { c with env := w.env, frames := [] }, reportFailure outcome w.ledger)
  | (ending, w) => (ending, { c with env := w.env, frames := w.frames }, w.ledger)

def runWith (c : Context φ ε) (inner : InnerRun φ) (script : Json) (ledger : Ledger) :
    Ending (Outcome φ) × Context φ ε × Ledger :=
  c.close (c.trace inner script ledger)

variable [Inhabited ε]

/-- Serve the runs that natives start, at most `limit` of them inside each other: each has a new
context on the same sandbox. -/
def innerRun (sandbox : Sandbox φ ε) : Nat → InnerRun φ
  | 0, _, ledger => (.exhausted, ledger)
  | limit + 1, script, ledger =>
    let (ending, _, ledger) :=
      (ofSandbox sandbox default).runWith (innerRun sandbox limit) script ledger
    (ending, ledger)

def runLimit : Nat := 1000000

def run (c : Context φ ε) (script : Json) (ledger : Ledger) :
    Ending (Outcome φ) × Context φ ε × Ledger :=
  c.runWith (innerRun c.sandbox runLimit) script ledger

/-- Read a script and run it; a text that is no document leaves the context as it is. -/
def runText (c : Context φ ε) (text : String) (ledger : Ledger) :
    Ending (Outcome φ) × Context φ ε × Ledger :=
  match Json.read text with
  | .ok script => c.run script ledger
  | .error fault => (.returned (.error ⟨.undecodable fault, .empty⟩), c, ledger)

end Context

end JsonScript
