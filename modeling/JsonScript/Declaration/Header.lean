import JsonScript.Declaration.Basic

/-!
Headers of functions: what stands before the body.

A header has attributes, a visibility, words such as `async`, a name with generics, parameters, a
return type and a clause of bounds. A declaration needs the doc lines among the attributes, the
visibility, the name, the parameters and the return type.
-/

set_option autoImplicit false
set_option relaxedAutoImplicit false

namespace JsonScript.Declaration

structure Header where
  attributes : List Token := []
  visibility : List Token := []
  name : List Token
  parameters : List (List Token) := []
  returns : Option (List Token) := none

def parameterTokens (pattern type : List Token) : List Token :=
  if type = [] then pattern else pattern ++ .mark ':' :: type

def Header.tokens (h : Header) : List Token :=
  h.attributes ++ h.visibility ++ .word "fn" :: h.name ++
    .mark '(' :: [.mark ','].intercalate h.parameters ++
    .mark ')' :: (h.returns.map (Token.arrow :: ·)).getD []

/-- The words that end a visibility: those that may stand before a function, and its own. -/
def functionWords : List Token :=
  [.word "const", .word "async", .word "unsafe", .word "extern", .word "fn"]

def withoutGenerics : List Token → List Token
  | .mark '<' :: rest => (Token.closing { angles := 1 } rest).2
  | tokens => tokens

def dots : List Token :=
  [.mark '.', .mark '.', .mark '.']

/-- The parameters between the parentheses of a header. Attributes of a parameter do not matter, and
what takes the rest of the arguments is no parameter. -/
def parametersOf (inside : List Token) : List (List Token × List Token) :=
  ((Token.split (.mark ',') {} inside).filter (· ≠ [])).map
      (fun piece => Token.cut (.mark ':') {} (Token.withoutAttributes {} piece))
    |>.filter fun (pattern, type) => pattern ≠ dots && type ≠ dots

def returnType? : List Token → Option (List Token)
  | .arrow :: rest => some (Token.cut (.word "where") {} rest).1
  | _ => none

def ofHeader? (settings : Attribute) (header : List Token) : Option Declaration :=
  let function := Token.withoutAttributes {} header
  match function.dropWhile (· ≠ .word "fn") with
  | _ :: .word name :: rest =>
    match withoutGenerics rest with
    | .mark '(' :: rest =>
      let (inside, after) := Token.closing { groups := 1 } rest
      some {
        name
        settings
        docs := Docs.linesOf {} header
        parameters := parametersOf inside
        returns := returnType? after
        visibility := function.takeWhile (!functionWords.contains ·) }
    | _ => none
  | _ => none

end JsonScript.Declaration
