import JsonScript.Declaration.Token
import JsonScript.Text

/-!
The tokens of a source text.

Blanks and plain comments separate tokens and are dropped. A doc comment stands for the attribute
that gives the same text, so it becomes the tokens of that attribute. String literals are read one
character at a time, and the state says what the next character means.
-/

set_option autoImplicit false
set_option relaxedAutoImplicit false

namespace JsonScript.Declaration

namespace Literal

/-- Where the reading of a string literal stands inside an escape. -/
inductive Stage where
  | plain
  | escape
  | byte (seen : List Char)
  | brace
  | code (seen : List Char)
  /-- After a backslash at the end of a line, where the indentation of the next line is skipped. -/
  | gap
  /-- After a carriage return, which is read together with its line feed. -/
  | lineEnd

/-- The part of a string literal that has been read; characters stand last first. -/
structure Reading where
  before : List Char := []
  stage : Stage := .plain

/-- What one more character does to a literal: it goes on, it ends, or the character is wrong. -/
inductive Advance where
  | more (r : Reading)
  | ended (content : List Char)
  | wrong

def escaped? (c : Char) : Option Char :=
  match c with
  | 'n' => some '\n'
  | 'r' => some '\r'
  | 't' => some '\t'
  | '0' => some '\x00'
  | '\\' => some '\\'
  | '"' => some '"'
  | '\'' => some '\''
  | _ => none

def advancePlain (before : List Char) (c : Char) : Advance :=
  if c = '"' then .ended before.reverse
  else if c = '\\' then .more ⟨before, .escape⟩
  else if c = '\r' then .more ⟨before, .lineEnd⟩
  else .more ⟨c :: before, .plain⟩

def ofCode (before seen : List Char) : Advance :=
  match Text.hexNumber? seen.reverse with
  | some code => .more ⟨Char.ofNat code :: before, .plain⟩
  | none => .wrong

def inGap (c : Char) : Bool :=
  c = ' ' || c = '\t' || c = '\n' || c = '\r'

def Reading.advance (r : Reading) (c : Char) : Advance :=
  match r.stage with
  | .plain => advancePlain r.before c
  | .gap => if inGap c then .more r else advancePlain r.before c
  | .lineEnd => if c = '\n' then .more ⟨'\n' :: r.before, .plain⟩ else .wrong
  | .escape =>
    if c = 'x' then .more { r with stage := .byte [] }
    else if c = 'u' then .more { r with stage := .brace }
    else if c = '\n' || c = '\r' then .more { r with stage := .gap }
    else match escaped? c with
      | some e => .more ⟨e :: r.before, .plain⟩
      | none => .wrong
  | .byte [] => .more { r with stage := .byte [c] }
  | .byte seen => ofCode r.before (c :: seen)
  | .brace => if c = '{' then .more { r with stage := .code [] } else .wrong
  | .code seen =>
    if c = '}' then ofCode r.before seen
    else if c = '_' then .more r
    else .more { r with stage := .code (c :: seen) }

def body? (r : Reading) : List Char → Option (List Char × List Char)
  | [] => none
  | c :: rest =>
    match r.advance c with
    | .more r => body? r rest
    | .ended content => some (content, rest)
    | .wrong => none

def rawBody? (signs : Nat) : List Char → Option (List Char × List Char)
  | [] => none
  | c :: rest =>
    if c = '"' ∧ rest.take signs = List.replicate signs '#' then some ([], rest.drop signs)
    else (rawBody? signs rest).map fun (content, after) => (c :: content, after)

end Literal

namespace Token

/-- The text of a block comment after its opening, and what follows it; comments nest. -/
def blockBody? : Nat → List Char → Option (List Char × List Char)
  | 0, '*' :: '/' :: rest => some ([], rest)
  | depth + 1, '*' :: '/' :: rest =>
    (blockBody? depth rest).map fun (content, after) => ('*' :: '/' :: content, after)
  | depth, '/' :: '*' :: rest =>
    (blockBody? (depth + 1) rest).map fun (content, after) => ('/' :: '*' :: content, after)
  | depth, c :: rest => (blockBody? depth rest).map fun (content, after) => (c :: content, after)
  | _, [] => none

def docAttribute (opening : List Token) (line : List Char) : List Token :=
  opening ++ [.mark '[', .word "doc", .mark '=', .text (String.ofList line), .mark ']']

def outerDoc (line : List Char) : List Token :=
  docAttribute [.mark '#'] line

def innerDoc (line : List Char) : List Token :=
  docAttribute [.mark '#', .mark '!'] line

/-- The text before the next line end; a carriage return may belong to the line end. -/
def lineText (cs : List Char) : List Char :=
  let line := cs.takeWhile (· ≠ '\n')
  if line.getLast? = some '\r' then line.dropLast else line

/-- What a comment to the end of the line stands for, by its text after the two slashes. A third
slash makes it a doc comment, and a fourth one makes it a plain comment again. -/
def lineComment : List Char → List Token
  | '/' :: '/' :: _ => []
  | '/' :: line => outerDoc line
  | '!' :: line => innerDoc line
  | _ => []

/-- What a block comment stands for, by its text after the opening. A second star makes it a doc
comment, and a third one, also that of the closing, makes it a plain comment again. -/
def blockComment : List Char → List Token
  | ['*'] => []
  | '*' :: '*' :: _ => []
  | '*' :: line => outerDoc line
  | '!' :: line => innerDoc line
  | _ => []

abbrev Piece := List Token × List Char

private def withoutSuffix (rest : List Char) : List Char :=
  match rest with
  | [] => []
  | c :: _ => if startsWord c then rest.dropWhile inWord else rest

private def rawString? (make : List Char → Token) (rest : List Char) : Option Piece :=
  let signs := (rest.takeWhile (· = '#')).length
  match rest.drop signs with
  | '"' :: body =>
    (Literal.rawBody? signs body).map fun (content, after) => ([make content], withoutSuffix after)
  | _ => none

private def afterCharacter? : List Char → Option (List Char)
  | '\\' :: _ :: rest => some (withoutSuffix ((rest.dropWhile (· ≠ '\'')).drop 1))
  | _ :: '\'' :: rest => some (withoutSuffix rest)
  | _ => none

private def wordPiece (cs : List Char) : Option Piece :=
  let spelling := String.ofList (cs.takeWhile inWord)
  let rest := cs.dropWhile inWord
  let plain : Option Piece := some ([.word spelling], rest)
  match rest with
  | '"' :: body =>
    if spelling = "r" then rawString? (fun content => .text (String.ofList content)) rest
    else if spelling = "br" ∨ spelling = "cr" then rawString? (fun _ => .literal) rest
    else if spelling = "b" ∨ spelling = "c" then
      (Literal.body? {} body).map fun (_, after) => ([.literal], withoutSuffix after)
    else plain
  | '\'' :: body =>
    if spelling = "b" then (afterCharacter? body).map fun after => ([.literal], after) else plain
  | '#' :: after =>
    if spelling = "r" then
      match after with
      | [] => plain
      | c :: _ =>
        if startsWord c then
          some ([.word ("r#" ++ String.ofList (after.takeWhile inWord))], after.dropWhile inWord)
        else rawString? (fun content => .text (String.ofList content)) rest
    else if spelling = "br" ∨ spelling = "cr" then rawString? (fun _ => .literal) rest
    else plain
  | _ => plain

private def numberPiece (cs : List Char) : Piece :=
  let rest := cs.dropWhile inWord
  match rest with
  | '.' :: c :: after =>
    if c.isDigit then ([.literal], after.dropWhile inWord) else ([.literal], rest)
  | _ => ([.literal], rest)

private def quotePiece (rest : List Char) : Piece :=
  match afterCharacter? rest with
  | some after => ([.literal], after)
  | none => ([.mark '\''], rest)

def marks : List Char :=
  "~!@#$%^&*-=+|;:,<.>/?()[]\x7b\x7d".toList

def piece? : List Char → Option Piece
  | [] => none
  | '/' :: '/' :: rest =>
    some (lineComment (lineText rest), rest.dropWhile (· ≠ '\n'))
  | '/' :: '*' :: rest =>
    (blockBody? 0 rest).map fun (content, after) => (blockComment content, after)
  | '-' :: '>' :: rest => some ([.arrow], rest)
  | ':' :: ':' :: rest => some ([.scope], rest)
  | '"' :: rest =>
    (Literal.body? {} rest).map fun (content, after) =>
      ([.text (String.ofList content)], withoutSuffix after)
  | '\'' :: rest => some (quotePiece rest)
  | c :: rest =>
    if separates c then some ([], rest)
    else if startsWord c then wordPiece (c :: rest)
    else if c.isDigit then some (numberPiece (c :: rest))
    else if marks.contains c then some ([.mark c], rest)
    else none

/-- A character that ends a word: it is not part of one, and does not make a literal of it. -/
def endsWord (c : Char) : Bool :=
  !inWord c && c != '"' && c != '\'' && c != '#'

theorem endsWord_of_separates {c : Char} (blank : separates c = true) : endsWord c = true := by
  have outside : inWord c = false := by
    rw [← Bool.not_eq_true]
    intro inside
    rw [separates_of_inWord inside] at blank
    cases blank
  have other : c ∉ ['"', '\'', '#'] := by
    have visible : ['"', '\'', '#'].all (!separates ·) = true := by decide
    intro member
    have apart := List.all_eq_true.mp visible c member
    rw [blank] at apart
    cases apart
  simp_all [endsWord]

private def openers : List Char := ['/', '-', ':', '"', '\'']

private theorem piece?_other {c : Char} (other : c ∉ openers) (rest : List Char) :
    piece? (c :: rest) =
      if separates c then some ([], rest)
      else if startsWord c then wordPiece (c :: rest)
      else if c.isDigit then some (numberPiece (c :: rest))
      else if marks.contains c then some ([.mark c], rest)
      else none := by
  unfold openers at other
  unfold piece?
  split <;> simp_all

theorem piece?_separator {c : Char} (blank : separates c = true) (rest : List Char) :
    piece? (c :: rest) = some ([], rest) := by
  have other : c ∉ openers := by
    have visible : openers.all (!separates ·) = true := by decide
    intro member
    have apart := List.all_eq_true.mp visible c member
    rw [blank] at apart
    cases apart
  rw [piece?_other other, if_pos blank]

theorem piece?_angle {c : Char} (angle : c = '<' ∨ c = '>') (rest : List Char) :
    piece? (c :: rest) = some ([.mark c], rest) := by
  rcases angle with rfl | rfl
  · exact piece?_other (by decide) rest
  · exact piece?_other (by decide) rest

private theorem takeWhile_word {word rest : List Char} (inside : ∀ c ∈ word, inWord c = true)
    (ends : ∀ c ∈ rest.head?, endsWord c = true) :
    (word ++ rest).takeWhile inWord = word ∧ (word ++ rest).dropWhile inWord = rest := by
  rw [List.takeWhile_append_of_pos inside, List.dropWhile_append_of_pos inside]
  cases rest with
  | nil => simp
  | cons c rest =>
    have ended := ends c rfl
    simp only [endsWord, Bool.and_eq_true, Bool.not_eq_true'] at ended
    simp [ended]

theorem piece?_word {c : Char} {letters rest : List Char} (starts : startsWord c = true)
    (inside : ∀ d ∈ letters, inWord d = true) (ends : ∀ d ∈ rest.head?, endsWord d = true) :
    piece? (c :: (letters ++ rest)) = some ([.word (String.ofList (c :: letters))], rest) := by
  have other : c ∉ openers := by
    have none : openers.all (!startsWord ·) = true := by decide
    intro member
    have apart := List.all_eq_true.mp none c member
    rw [starts] at apart
    cases apart
  have all : ∀ d ∈ c :: letters, inWord d = true := by
    intro d member
    rcases List.mem_cons.mp member with rfl | member
    · unfold inWord
      rw [starts, Bool.true_or]
    · exact inside d member
  obtain ⟨word, after⟩ := takeWhile_word all ends
  have apart : ¬separates c = true := by
    rw [separates_of_startsWord starts]
    decide
  rw [piece?_other other, if_neg apart, if_pos starts]
  unfold wordPiece
  rw [← List.cons_append, word, after]
  dsimp only
  -- What follows the word is neither a quote nor a number sign, so the word is no literal.
  split
  · cases ends '"' rfl
  · cases ends '\'' rfl
  · cases ends '#' rfl
  · rfl

def listWithin : Nat → List Char → Option (List Token)
  | _, [] => some []
  | 0, _ :: _ => none
  | limit + 1, cs => do
    let (tokens, rest) ← piece? cs
    let others ← listWithin limit rest
    return tokens ++ others

private theorem listWithin_eq_some_iff {limit : Nat} {c : Char} {cs : List Char}
    {tokens : List Token} :
    listWithin (limit + 1) (c :: cs) = some tokens ↔ ∃ first rest,
      piece? (c :: cs) = some (first, rest) ∧
        ∃ others, listWithin limit rest = some others ∧ first ++ others = tokens := by
  simp only [listWithin, Option.bind_eq_bind, Option.bind_eq_some_iff, Option.pure_def,
    Option.some.injEq, Prod.exists]

private theorem listWithin_mono {limit more : Nat} (within : limit ≤ more) {cs : List Char}
    {tokens : List Token} (found : listWithin limit cs = some tokens) :
    listWithin more cs = some tokens := by
  induction limit generalizing more cs tokens with
  | zero =>
    cases cs with
    | nil => rwa [listWithin] at found ⊢
    | cons c cs => cases found
  | succ limit ih =>
    obtain ⟨further, rfl⟩ : ∃ further, more = further + 1 := ⟨more - 1, by omega⟩
    cases cs with
    | nil => rwa [listWithin] at found ⊢
    | cons c cs =>
      obtain ⟨first, rest, piece, others, later, joined⟩ := listWithin_eq_some_iff.mp found
      exact listWithin_eq_some_iff.mpr ⟨first, rest, piece, others, ih (by omega) later, joined⟩

theorem listWithin_piece {cs rest : List Char} {tokens others : List Token}
    (first : piece? cs = some (tokens, rest)) (shorter : rest.length < cs.length)
    (later : listWithin rest.length rest = some others) :
    listWithin cs.length cs = some (tokens ++ others) := by
  cases cs with
  | nil => cases shorter
  | cons c cs =>
    rw [List.length_cons] at shorter ⊢
    apply listWithin_eq_some_iff.mpr
    exact ⟨tokens, rest, first, others, listWithin_mono (by omega) later, rfl⟩

def withoutOrderMark : List Char → List Char
  | '\uFEFF' :: rest => rest
  | cs => cs

/-- The tokens of a text; each piece takes at least one character. -/
def list? (source : String) : Option (List Token) :=
  listWithin source.length (withoutOrderMark source.toList)

end Token

end JsonScript.Declaration
