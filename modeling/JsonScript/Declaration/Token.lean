import JsonScript.Text

/-!
Tokens of the source text around a declaration: words, string literals, other literals and marks.

Parentheses, square brackets and braces always come in pairs. Angle brackets are brackets only
outside of these, since within them the same marks may compare or shift.
-/

set_option autoImplicit false
set_option relaxedAutoImplicit false

namespace JsonScript.Declaration

/-- A token of source text. -/
inductive Token where
  | word (spelling : String)
  | text (value : String)
  | literal
  | mark (c : Char)
  /-- The arrow before a return type, whose second mark closes no bracket. -/
  | arrow
  | scope
  deriving DecidableEq, Repr

namespace Token

/-- A character that separates tokens: white space, or a mark of the direction of writing. -/
def separates (c : Char) : Bool :=
  Text.isBlank c || c = '\u200E' || c = '\u200F'

/-- A character that can start a word. Outside literals and comments, source text has no characters
beyond ASCII but those of words and those that separate tokens. -/
def startsWord (c : Char) : Bool :=
  c.isAlpha || c = '_' || (decide (127 < c.toNat) && !separates c)

def inWord (c : Char) : Bool :=
  startsWord c || c.isDigit

theorem separates_of_visible {c : Char} (visible : 0x20 < c.toNat) (ascii : c.toNat < 0x80) :
    separates c = false := by
  have blank : Text.isBlank c = false := by
    apply Text.inRanges_eq_false
    intro range member
    have around : ∀ range ∈ Text.blanks, range.2 ≤ 0x20 ∨ 0x80 ≤ range.1 := by decide
    have apart := around range member
    omega
  have leftToRight : c ≠ '\u200E' := by
    rintro rfl
    exact absurd ascii (by decide)
  have rightToLeft : c ≠ '\u200F' := by
    rintro rfl
    exact absurd ascii (by decide)
  unfold separates
  rw [blank, decide_eq_false leftToRight, decide_eq_false rightToLeft]
  rfl

theorem separates_of_startsWord {c : Char} (starts : startsWord c = true) :
    separates c = false := by
  unfold startsWord at starts
  rw [Bool.or_eq_true, Bool.or_eq_true, Bool.and_eq_true, Bool.not_eq_true'] at starts
  rcases starts with (letter | line) | ⟨_, apart⟩
  · have bounds : 'A'.toNat ≤ c.toNat ∧ c.toNat ≤ 'z'.toNat := by
      rcases Bool.or_eq_true_iff.mp letter with upper | lower
      · obtain ⟨least, most⟩ := of_decide_eq_true upper
        exact ⟨least, Nat.le_trans most (by decide)⟩
      · obtain ⟨least, most⟩ := Bool.and_eq_true_iff.mp lower
        exact ⟨Nat.le_trans (by decide) (of_decide_eq_true least), of_decide_eq_true most⟩
    have first : 'A'.toNat = 0x41 := rfl
    have last : 'z'.toNat = 0x7A := rfl
    apply separates_of_visible
    · omega
    · omega
  · obtain rfl := of_decide_eq_true line
    decide
  · exact apart

theorem separates_of_inWord {c : Char} (inside : inWord c = true) : separates c = false := by
  unfold inWord at inside
  rcases Bool.or_eq_true_iff.mp inside with starts | digit
  · exact separates_of_startsWord starts
  · have bounds : '0'.toNat ≤ c.toNat ∧ c.toNat ≤ '9'.toNat := by
      obtain ⟨least, most⟩ := Bool.and_eq_true_iff.mp digit
      exact ⟨of_decide_eq_true least, of_decide_eq_true most⟩
    have first : '0'.toNat = 0x30 := rfl
    have last : '9'.toNat = 0x39 := rfl
    apply separates_of_visible
    · omega
    · omega

def symbol : Token → String
  | .word spelling => spelling
  | .mark c => String.singleton c
  | .arrow => "->"
  | .scope => "::"
  | .text _ => ""
  | .literal => ""

def keywords : List String := [
  "_", "abstract", "as", "async", "await", "become", "box", "break", "const", "continue", "crate",
  "do", "dyn", "else", "enum", "extern", "false", "final", "fn", "for", "if", "impl", "in", "let",
  "loop", "macro", "match", "mod", "move", "mut", "override", "priv", "pub", "ref", "return",
  "Self", "self", "static", "struct", "super", "trait", "true", "try", "type", "typeof", "unsafe",
  "unsized", "use", "virtual", "where", "while", "yield"
]

def isKeyword (spelling : String) : Bool :=
  keywords.contains spelling

end Token

structure Nesting where
  groups : Nat := 0
  angles : Nat := 0
  deriving DecidableEq, Repr

namespace Nesting

def isOutside (n : Nesting) : Bool :=
  n.groups = 0 && n.angles = 0

def afterMark (n : Nesting) (c : Char) : Nesting :=
  if c = '(' || c = '[' || c = '{' then { n with groups := n.groups + 1 }
  else if c = ')' || c = ']' || c = '}' then { n with groups := n.groups - 1 }
  else if n.groups ≠ 0 then n
  else if c = '<' then { n with angles := n.angles + 1 }
  else if c = '>' then { n with angles := n.angles - 1 }
  else n

def after (n : Nesting) : Token → Nesting
  | .mark c => n.afterMark c
  | _ => n

end Nesting

namespace Token

def outermost (n : Nesting) : List Token → List Token
  | [] => []
  | t :: rest =>
    let next := n.after t
    if n.isOutside && next.isOutside then t :: outermost next rest else outermost next rest

def cut (stop : Token) (n : Nesting) : List Token → List Token × List Token
  | [] => ([], [])
  | t :: rest =>
    if n.isOutside && t = stop then ([], rest)
    else
      let (before, after) := cut stop (n.after t) rest
      (t :: before, after)

def split (separator : Token) (n : Nesting) : List Token → List (List Token)
  | [] => [[]]
  | t :: rest =>
    if n.isOutside && t = separator then [] :: split separator n rest
    else
      match split separator (n.after t) rest with
      | piece :: pieces => (t :: piece) :: pieces
      | [] => [[t]]

theorem mem_of_mem_split {separator t : Token} {n : Nesting} {tokens piece : List Token}
    (member : piece ∈ split separator n tokens) (within : t ∈ piece) : t ∈ tokens := by
  induction tokens generalizing n piece with
  | nil =>
    obtain rfl := List.mem_singleton.mp member
    cases within
  | cons first rest ih =>
    unfold split at member
    split at member
    · rcases List.mem_cons.mp member with rfl | member
      · cases within
      · exact List.mem_cons_of_mem first (ih member within)
    · split at member
      · rename_i head pieces same
        rcases List.mem_cons.mp member with rfl | member
        · rcases List.mem_cons.mp within with rfl | within
          · exact List.mem_cons_self
          · exact List.mem_cons_of_mem first (ih (same ▸ List.mem_cons_self) within)
        · exact List.mem_cons_of_mem first (ih (same ▸ List.mem_cons_of_mem head member) within)
      · obtain rfl := List.mem_singleton.mp member
        obtain rfl := List.mem_singleton.mp within
        exact List.mem_cons_self

def closing (n : Nesting) : List Token → List Token × List Token
  | [] => ([], [])
  | t :: rest =>
    if (n.after t).isOutside then ([], rest)
    else
      let (inside, after) := closing (n.after t) rest
      (t :: inside, after)

theorem mem_of_mem_closing {t : Token} {n : Nesting} {tokens : List Token}
    (within : t ∈ (closing n tokens).1) : t ∈ tokens := by
  induction tokens generalizing n with
  | nil => exact within
  | cons first rest ih =>
    unfold closing at within
    split at within
    · cases within
    · rcases List.mem_cons.mp within with rfl | within
      · exact List.mem_cons_self
      · exact List.mem_cons_of_mem first (ih within)

def withoutAttributes (n : Nesting) : List Token → List Token
  | [] => []
  | .mark '#' :: .mark '[' :: rest => withoutAttributes (n.afterMark '[') rest
  | t :: rest => if n.isOutside then t :: rest else withoutAttributes (n.after t) rest

end Token

end JsonScript.Declaration
