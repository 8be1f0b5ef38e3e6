import JsonScript.Json.Reader
import JsonScript.Shape
import JsonScript.Text

/-!
Failures of a run: what went wrong, and the calls that were in progress when it did.

A frame is one call; a stack lists the calls around a point of a run from the inside out. Its text
gives each call's label and its position among the arguments of the call around it.
-/

set_option autoImplicit false
set_option relaxedAutoImplicit false

namespace JsonScript

/-- One call in progress. -/
structure Frame where
  /-- The name called, or the text of the head that computed the function. -/
  label : String
  /-- The position in the call around it, and zero at the root. -/
  index : Nat
  depth : Nat
  deriving DecidableEq, Repr

def Frame.text (f : Frame) : String :=
  f.label ++ " " ++ toString f.index

/-- The calls around a point of a run, innermost first. -/
structure Stack where
  frames : List Frame := []
  deriving DecidableEq, Repr

namespace Stack

def empty : Stack := {}

instance : Inhabited Stack := ⟨empty⟩

def isEmpty (s : Stack) : Bool :=
  s.frames.isEmpty

def size (s : Stack) : Nat :=
  s.frames.length

def innermost? (s : Stack) : Option Frame :=
  s.frames.head?

def entries (s : Stack) : List String :=
  s.frames.flatMap fun f => [f.label, toString f.index]

def text (s : Stack) : String :=
  " ".intercalate (s.frames.map Frame.text)

end Stack

/-- What went wrong. -/
inductive Cause where
  | undefinedName (name : String)
  /-- A head that is no name and computed no function; it is given by its text. -/
  | undefinedHead (text : String)
  | missingArgument (call : String) (index : Nat)
  | argumentType (call : String) (index : Nat) (mismatch : Mismatch)
  | native (message : String)
  | panic (message : String)
  | undecodable (fault : Json.Fault)
  deriving DecidableEq, Repr

namespace Cause

def message : Cause → String
  | .undefinedName name => Text.shown name ++ " is undefined"
  | .undefinedHead text => text ++ " is undefined"
  | .missingArgument call index => call ++ ": missing argument " ++ toString index
  | .argumentType call index mismatch =>
    call ++ ": argument " ++ toString index ++ ": " ++ mismatch.message
  | .native message => message
  | .panic message => "panic: " ++ message
  | .undecodable fault => "invalid JSON: " ++ fault.message

/-- The sentence that reports a cause; of a fault of a text it only gives the kind. -/
def summary : Cause → String
  | .undecodable fault => "invalid JSON: " ++ fault.kind
  | cause => cause.message

def kind : Cause → String
  | .undefinedName _ => "UndefinedName"
  | .undefinedHead _ => "UndefinedComputedHead"
  | .missingArgument _ _ => "MissingArgument"
  | .argumentType _ _ _ => "ArgumentType"
  | .native _ => "Native"
  | .panic _ => "Panic"
  | .undecodable _ => "Json"

def isUndefined : Cause → Bool
  | .undefinedName _ | .undefinedHead _ => true
  | _ => false

def isPanic : Cause → Bool
  | .panic _ => true
  | _ => false

def hasSource : Cause → Bool
  | .undecodable _ => true
  | _ => false

end Cause

/-- A cause with the calls around it. -/
structure Failure where
  cause : Cause
  stack : Stack := .empty
  deriving DecidableEq, Repr

namespace Failure

/-- A failure in a native's own words; the stack is filled in when it leaves the native. -/
def native (message : String) : Failure :=
  ⟨.native message, .empty⟩

def message (f : Failure) : String :=
  f.cause.message

/-- Give the failure the current stack, unless it has one already. -/
def stamp (current : Stack) (f : Failure) : Failure :=
  if f.stack.isEmpty then { f with stack := current } else f

end Failure

end JsonScript
