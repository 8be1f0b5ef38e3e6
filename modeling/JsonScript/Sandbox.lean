import JsonScript.Call

/-!
Sandboxes: everything that a script can reach.

A sandbox binds names to values and natives and publishes the signatures of some of the natives.
Several sandboxes are composed from left to right, and later ones override earlier ones.
-/

set_option autoImplicit false
set_option relaxedAutoImplicit false

namespace JsonScript

structure Parameter where
  name : String
  type : String
  description : String := ""
  required : Bool := true
  deriving DecidableEq, Repr

/-- What is published about one native. -/
structure Signature where
  name : String
  description : String := ""
  parameters : List Parameter := []
  returns : String := "null"
  deriving DecidableEq, Repr

/-- A parameter within a signature; a question mark shows that it may be left out. -/
def Parameter.text (p : Parameter) : String :=
  p.name ++ (if p.required then ": " else "?: ") ++ p.type

namespace Signature

def line (s : Signature) : String :=
  s.name ++ "(" ++ ", ".intercalate (s.parameters.map Parameter.text) ++ ") -> " ++ s.returns

/-- The lines under a signature: its description and the parameters that have one. -/
def remarks (s : Signature) : List String :=
  (if s.description.isEmpty then [] else [s.description]) ++
    (s.parameters.filter (!·.description.isEmpty)).map fun p => p.name ++ ": " ++ p.description

def manual (s : Signature) : String :=
  s.line ++ String.join (s.remarks.map ("\n    " ++ ·))

def describe (signatures : List Signature) : String :=
  "\n\n".intercalate (signatures.map manual)

end Signature

/-- What a name stands for. -/
inductive Binding (φ ε : Type) where
  /-- A value, given as it is; the arguments of the call are not looked at. -/
  | value (v : Value φ)
  | callable (native : Native φ ε)

namespace Binding

variable {φ ε : Type}

def isCallable : Binding φ ε → Bool
  | .callable _ => true
  | .value _ => false

/-- Bind a value; a function is bound as the native that it is. -/
def ofValue [Callable φ ε] : Value φ → Binding φ ε
  | .function f => .callable (Callable.code f)
  | v => .value v

end Binding

/-- The bindings of names and the signatures published about them. -/
structure Sandbox (φ ε : Type) where
  bindings : List (String × Binding φ ε) := []
  signatures : List Signature := []

namespace Sandbox

variable {φ ε : Type}

def empty : Sandbox φ ε := {}

instance : Inhabited (Sandbox φ ε) := ⟨empty⟩

def find? (name : String) (s : Sandbox φ ε) : Option (Binding φ ε) :=
  Dictionary.find? name s.bindings

def contains (name : String) (s : Sandbox φ ε) : Bool :=
  (s.find? name).isSome

def names (s : Sandbox φ ε) : List String :=
  Dictionary.names s.bindings

def size (s : Sandbox φ ε) : Nat :=
  s.bindings.length

def isEmpty (s : Sandbox φ ε) : Bool :=
  s.bindings.isEmpty

/-- Bind a name; a signature published for it is withdrawn. -/
def insert (name : String) (binding : Binding φ ε) (s : Sandbox φ ε) : Sandbox φ ε where
  bindings := Dictionary.insert name binding s.bindings
  signatures := s.signatures.filter (·.name ≠ name)

def insertValue [Callable φ ε] (name : String) (v : Value φ) (s : Sandbox φ ε) : Sandbox φ ε :=
  s.insert name (.ofValue v)

def insertNative (name : String) (native : Native φ ε) (s : Sandbox φ ε) : Sandbox φ ε :=
  s.insert name (.callable native)

def publish (signature : Signature) (native : Native φ ε) (s : Sandbox φ ε) : Sandbox φ ε :=
  let bound := s.insertNative signature.name native
  { bound with signatures := bound.signatures ++ [signature] }

/-- Both sandboxes together; names bound in both mean what they mean in the second. -/
def merge (s t : Sandbox φ ε) : Sandbox φ ε :=
  if s.isEmpty then t
  else
    { bindings := Dictionary.override s.bindings t.bindings
      signatures := s.signatures.filter (fun g => !t.contains g.name) ++ t.signatures }

def compose (boxes : List (Sandbox φ ε)) : Sandbox φ ε :=
  boxes.foldl merge empty

def describe (s : Sandbox φ ε) : String :=
  Signature.describe s.signatures

def inspect (s : Sandbox φ ε) : String :=
  "Sandbox \x7b names: [" ++ ", ".intercalate (s.names.map Text.shown) ++ "] \x7d"

end Sandbox

end JsonScript
