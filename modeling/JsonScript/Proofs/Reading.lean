import JsonScript.Json.Reader
import JsonScript.Text
import Mathlib.Tactic.IntervalCases

/-!
What the reader makes of a text, part by part.

A value is over when the next character belongs to the container around it, or when the text ends.
Only of numbers this shows late, so reading a value leads to a state that holds the value: it takes
the characters that may follow as a state does that is done with the value.
-/

set_option autoImplicit false
set_option relaxedAutoImplicit false

namespace JsonScript

namespace Spelling

def reads? (s : Spelling) : List Char → Option Spelling
  | [] => some s
  | c :: rest =>
    match s.advance c with
    | .more s => s.reads? rest
    | _ => none

theorem reads?_cons_eq_some {s t : Spelling} {c : Char} {rest : List Char} :
    s.reads? (c :: rest) = some t ↔
      ∃ next, s.advance c = .more next ∧ next.reads? rest = some t := by
  rw [reads?]
  cases s.advance c <;> simp

theorem reads?_append {s t : Spelling} {first : List Char} (begun : s.reads? first = some t)
    (second : List Char) : s.reads? (first ++ second) = t.reads? second := by
  induction first generalizing s with
  | nil =>
    cases begun
    rfl
  | cons c rest ih =>
    obtain ⟨next, step, later⟩ := reads?_cons_eq_some.mp begun
    rw [List.cons_append, reads?, step]
    exact ih later

private theorem reads?_control {n : Nat} (control : n < 32) (before : List Char) :
    reads? ⟨before, .plain⟩ (Text.jsonChar (Char.ofNat n)) =
      some ⟨Char.ofNat n :: before, .plain⟩ := by
  interval_cases n <;> rfl

theorem reads?_jsonChar (c : Char) (before : List Char) :
    reads? ⟨before, .plain⟩ (Text.jsonChar c) = some ⟨c :: before, .plain⟩ := by
  by_cases control : c < ' '
  · have small : c.toNat < 32 := control
    have same : Char.ofNat c.toNat = c := Char.ofNat_toNat c
    have read := reads?_control small before
    rwa [same] at read
  · by_cases quote : c = '"'
    · subst quote
      rfl
    · by_cases backslash : c = '\\'
      · subst backslash
        rfl
      · have itself : Text.jsonChar c = [c] := by
          unfold Text.jsonChar
          split
          · exact absurd rfl quote
          · exact absurd rfl backslash
          · exact absurd (by decide) control
          · exact absurd (by decide) control
          · exact absurd (by decide) control
          · exact absurd (by decide) control
          · exact absurd (by decide) control
          · rw [if_neg control]
        rw [itself]
        simp [reads?, advance, quote, backslash, control]

theorem reads?_flatMap_jsonChar (cs before : List Char) :
    reads? ⟨before, .plain⟩ (cs.flatMap Text.jsonChar) = some ⟨cs.reverse ++ before, .plain⟩ := by
  induction cs generalizing before with
  | nil => rfl
  | cons c rest ih =>
    rw [List.flatMap_cons, reads?_append (reads?_jsonChar c before), ih]
    simp

end Spelling

namespace Numeral.Partial

def reads? (p : Partial) : List Char → Option Partial
  | [] => some p
  | c :: rest =>
    match p.advance c with
    | .more p => p.reads? rest
    | _ => none

theorem reads?_cons {p next : Partial} {c : Char} (first : p.advance c = .more next)
    (rest : List Char) : p.reads? (c :: rest) = next.reads? rest := by
  rw [reads?, first]

theorem reads?_cons_eq_some {p q : Partial} {c : Char} {rest : List Char} :
    p.reads? (c :: rest) = some q ↔
      ∃ next, p.advance c = .more next ∧ next.reads? rest = some q := by
  rw [reads?]
  cases p.advance c <;> simp

theorem reads?_append {p q : Partial} {first : List Char} (begun : p.reads? first = some q)
    (second : List Char) : p.reads? (first ++ second) = q.reads? second := by
  induction first generalizing p with
  | nil =>
    cases begun
    rfl
  | cons c rest ih =>
    obtain ⟨next, step, later⟩ := reads?_cons_eq_some.mp begun
    rw [List.cons_append, reads?_cons step]
    exact ih later

def of? : List Char → Option Partial
  | [] => none
  | c :: rest => (start? c).bind (·.reads? rest)

theorem of?_append {p : Partial} {first : List Char} (begun : of? first = some p)
    (second : List Char) : of? (first ++ second) = p.reads? second := by
  cases first with
  | nil => cases begun
  | cons c rest =>
    obtain ⟨q, started, read⟩ := Option.bind_eq_some_iff.mp begun
    rw [List.cons_append, of?, started, Option.bind_some, reads?_append read]

end Numeral.Partial

def Numeral.SpelledBy (n : Numeral) (cs : List Char) : Prop :=
  ∃ p, Numeral.Partial.of? cs = some p ∧ p.isComplete = true ∧ p.finish? = some n

private theorem advance_over {p : Numeral.Partial} (complete : p.isComplete = true) {c : Char}
    (follows : c ∈ [',', ']', '}']) : p.advance c = .over := by
  have digit : c.isDigit = false ∧ c ≠ '.' ∧ c ≠ 'e' ∧ c ≠ 'E' := by
    simp only [List.mem_cons, List.not_mem_nil, or_false] at follows
    rcases follows with rfl | rfl | rfl <;> decide
  obtain ⟨digit, point, small, capital⟩ := digit
  unfold Numeral.Partial.isComplete at complete
  unfold Numeral.Partial.advance
  cases stage : p.stage with
  | sign | point | mark | exponentSign =>
    rw [stage] at complete
    cases complete
  | zero | whole | fraction | exponent => simp [digit, point, small, capital]

namespace Json

namespace Reader

def takes (r : Reader) (cs : List Char) : Except Refusal Reader :=
  cs.foldlM step r

theorem takes_cons {r next : Reader} {c : Char} (first : r.step c = .ok next) (rest : List Char) :
    r.takes (c :: rest) = next.takes rest := by
  rw [takes, List.foldlM_cons, first]
  rfl

theorem takes_append {r next : Reader} {cs : List Char} (first : r.takes cs = .ok next)
    (rest : List Char) : r.takes (cs ++ rest) = next.takes rest := by
  rw [takes, List.foldlM_append, ← takes, first]
  rfl

theorem readFrom_eq {r last : Reader} {cs : List Char} (taken : r.takes cs = .ok last)
    {value : Json} (ends : last.finish = .ok value) (place : Position) :
    r.readFrom place cs = .ok value := by
  induction cs generalizing r place with
  | nil =>
    cases taken
    rw [readFrom, ends]
    rfl
  | cons c rest ih =>
    rw [takes, List.foldlM_cons] at taken
    rw [readFrom]
    cases step : r.step c with
    | error refusal =>
      rw [step] at taken
      cases taken
    | ok next =>
      rw [step] at taken
      exact ih taken _

/-- The machine has come to the end of a value: what follows is taken as after the value. -/
structure Holds (r : Reader) (value : Json) (around : List Container) : Prop where
  next : ∀ c ∈ [',', ']', '}'], r.step c = afterValue value around c
  finish : r.finish = endAfter value around

theorem holds_complete (value : Json) (around : List Container) :
    Holds ⟨.complete value, around⟩ value around :=
  ⟨fun _ _ => rfl, rfl⟩

theorem holds_numeral {p : Numeral.Partial} (complete : p.isComplete = true) {n : Numeral}
    (ends : p.finish? = some n) (around : List Container) :
    Holds ⟨.numeral p, around⟩ (.number n) around := by
  constructor
  · intro c follows
    simp only [step, advance_over complete follows, ends]
  · simp only [finish, complete, ends, if_true]

theorem takes_text {s t : Spelling} {cs : List Char} (read : s.reads? cs = some t)
    (purpose : Purpose) (around : List Container) :
    takes ⟨.text purpose s, around⟩ cs = .ok ⟨.text purpose t, around⟩ := by
  induction cs generalizing s with
  | nil =>
    cases read
    rfl
  | cons c rest ih =>
    obtain ⟨next, advanced, later⟩ := Spelling.reads?_cons_eq_some.mp read
    have taken : step ⟨.text purpose s, around⟩ c = .ok ⟨.text purpose next, around⟩ := by
      simp only [step, advanced]
    rw [takes_cons taken, ih later]

theorem takes_numeral {p q : Numeral.Partial} {cs : List Char} (read : p.reads? cs = some q)
    (around : List Container) :
    takes ⟨.numeral p, around⟩ cs = .ok ⟨.numeral q, around⟩ := by
  induction cs generalizing p with
  | nil =>
    cases read
    rfl
  | cons c rest ih =>
    obtain ⟨next, advanced, later⟩ := Numeral.Partial.reads?_cons_eq_some.mp read
    have taken : step ⟨.numeral p, around⟩ c = .ok ⟨.numeral next, around⟩ := by
      simp only [step, advanced]
    rw [takes_cons taken, ih later]

end Reader

open Reader

/-- Where a value may stand, with room for `depth` more open containers, the characters are read as
the value. -/
def SpelledBy (value : Json) (depth : Nat) (cs : List Char) : Prop :=
  ∀ around : List Container, around.length + depth ≤ nestingLimit →
    ∃ c rest first last, cs = c :: rest ∧ isSpace c = false ∧ c ≠ ']' ∧
      beginValue around c = .ok first ∧ first.takes rest = .ok last ∧ last.Holds value around

def Reader.Awaits (r : Reader) (around : List Container) : Prop :=
  ∀ c, isSpace c = false → c ≠ ']' → r.step c = beginValue around c

theorem Reader.awaits_value (around : List Container) : Awaits ⟨.value, around⟩ around := by
  intro c solid inside
  simp [step, solid, inside]

theorem Reader.awaits_firstItem (around : List Container) : Awaits ⟨.firstItem, around⟩ around := by
  intro c solid inside
  simp [step, solid, inside]

namespace SpelledBy

variable {value : Json} {depth : Nat} {cs : List Char}

theorem mono {more : Nat} (spelled : value.SpelledBy depth cs) (enough : depth ≤ more) :
    value.SpelledBy more cs :=
  fun around room => spelled around (by omega)

theorem taken (spelled : value.SpelledBy depth cs) {around : List Container}
    (room : around.length + depth ≤ nestingLimit) {r : Reader} (awaits : r.Awaits around) :
    ∃ last, r.takes cs = .ok last ∧ last.Holds value around := by
  obtain ⟨c, rest, first, last, rfl, solid, inside, begun, taken, holds⟩ := spelled around room
  exact ⟨last, (takes_cons ((awaits c solid inside).trans begun) rest).trans taken, holds⟩

theorem read {text : String} (spelled : value.SpelledBy depth text.toList)
    (room : depth ≤ nestingLimit) : Json.read text = .ok value := by
  obtain ⟨last, taken, holds⟩ := spelled.taken (by simpa using room) (awaits_value [])
  exact readFrom_eq taken holds.finish {}

theorem null : Json.SpelledBy .null depth "null".toList :=
  fun around _ => ⟨_, _, _, _, rfl, rfl, by decide, rfl, rfl, holds_complete .null around⟩

theorem bool (b : Bool) :
    Json.SpelledBy (.bool b) depth (if b then "true" else "false").toList := by
  intro around _
  cases b with
  | true => exact ⟨_, _, _, _, rfl, rfl, by decide, rfl, rfl, holds_complete _ around⟩
  | false => exact ⟨_, _, _, _, rfl, rfl, by decide, rfl, rfl, holds_complete _ around⟩

theorem number {n : Numeral} (spelled : n.SpelledBy cs) : (Json.number n).SpelledBy depth cs := by
  intro around _
  obtain ⟨q, begun, complete, ends⟩ := spelled
  obtain ⟨c, rest, rfl⟩ : ∃ c rest, cs = c :: rest := by
    cases cs with
    | nil => cases begun
    | cons c rest => exact ⟨c, rest, rfl⟩
  obtain ⟨p, started, read⟩ := Option.bind_eq_some_iff.mp begun
  have solid : isSpace c = false := by
    by_contra space
    simp only [isSpace, Bool.not_eq_false, Bool.or_eq_true, decide_eq_true_eq] at space
    rcases space with ((rfl | rfl) | rfl) | rfl <;> cases started
  have inside : c ≠ ']' := by
    rintro rfl
    cases started
  have begun : beginValue around c = .ok ⟨.numeral p, around⟩ := by
    unfold beginValue
    split
    · cases started
    · cases started
    · cases started
    · cases started
    · cases started
    · cases started
    · rw [started]
  exact ⟨c, rest, _, _, rfl, solid, inside, begun, takes_numeral read around,
    holds_numeral complete ends around⟩

private theorem takes_quoted (s : String) (purpose : Purpose) (around : List Container)
    {last : Reader}
    (ends : step ⟨.text purpose ⟨s.toList.reverse, .plain⟩, around⟩ '"' = .ok last) :
    takes ⟨.text purpose {}, around⟩ (s.toList.flatMap Text.jsonChar ++ ['"']) = .ok last := by
  have read := Spelling.reads?_flatMap_jsonChar s.toList []
  rw [List.append_nil] at read
  rw [takes_append (takes_text read purpose around), takes_cons ends]
  rfl

theorem string (s : String) : (Json.string s).SpelledBy depth (Text.json s).toList := by
  intro around _
  refine ⟨'"', _, ⟨.text .value {}, around⟩, ⟨.complete (.string s), around⟩, ?_, rfl, by decide,
    rfl, takes_quoted s .value around ?_, holds_complete _ around⟩
  · simp [Text.json]
  · simp [step, Spelling.advance]

def itemsText : List (List Char) → List Char
  | [] => []
  | [item] => item
  | item :: next :: rest => item ++ ',' :: itemsText (next :: rest)

private theorem takes_items {values : List Json} {texts : List (List Char)}
    (spelled : List.Forall₂ (fun value text => value.SpelledBy depth text) values texts)
    (some : values ≠ []) {before : List Json} {outer : List Container}
    (room : outer.length + 1 + depth ≤ nestingLimit) {r : Reader}
    (awaits : r.Awaits (.array before :: outer)) :
    r.takes (itemsText texts ++ [']']) =
      .ok ⟨.complete (.array (before.reverse ++ values)), outer⟩ := by
  induction spelled generalizing before r with
  | nil => exact absurd rfl some
  | @cons value text values texts here later ih =>
    have inside : (Container.array before :: outer).length + depth ≤ nestingLimit := room
    obtain ⟨last, taken, holds⟩ := here.taken inside awaits
    cases later with
    | nil =>
      have ends : last.step ']' = .ok ⟨.complete (.array (before.reverse ++ [value])), outer⟩ := by
        rw [holds.next ']' (by decide)]
        simp [afterValue, isSpace]
      rw [itemsText, takes_append taken, takes_cons ends]
      rfl
    | @cons next nextText values texts second rest =>
      have goesOn : last.step ',' = .ok ⟨.value, .array (value :: before) :: outer⟩ := by
        rw [holds.next ',' (by decide)]
        simp [afterValue, isSpace]
      rw [itemsText, List.append_assoc, takes_append taken, List.cons_append, takes_cons goesOn,
        ih (List.cons_ne_nil _ _) (awaits_value _)]
      simp

theorem array {values : List Json} {texts : List (List Char)}
    (spelled : List.Forall₂ (fun value text => value.SpelledBy depth text) values texts) :
    (Json.array values).SpelledBy (depth + 1) ('[' :: itemsText texts ++ [']']) := by
  intro around room
  have opened : beginValue around '[' = .ok ⟨.firstItem, .array [] :: around⟩ := by
    simp only [beginValue, nest]
    rw [if_pos (by omega)]
  refine ⟨'[', itemsText texts ++ [']'], _, ⟨.complete (.array values), around⟩, rfl, rfl,
    by decide, opened, ?_, holds_complete _ around⟩
  cases values with
  | nil =>
    cases spelled
    rfl
  | cons value values =>
    exact takes_items spelled (List.cons_ne_nil _ _) (by omega) (awaits_firstItem _)

/-- The members of an object with colons after their names and commas between them. -/
def membersText : List (String × List Char) → List Char
  | [] => []
  | [(name, item)] => (Text.json name).toList ++ ':' :: item
  | (name, item) :: next :: rest =>
    (Text.json name).toList ++ ':' :: item ++ ',' :: membersText (next :: rest)

private theorem takes_name (name : String) {before : List (String × Json)} {outer : List Container}
    {r : Reader} (awaits : r.step '"' = .ok ⟨.text (.name before) {}, outer⟩) (rest : List Char) :
    r.takes ((Text.json name).toList ++ ':' :: rest) =
      takes ⟨.value, .object before name :: outer⟩ rest := by
  have quoted : (Text.json name).toList =
      '"' :: (name.toList.flatMap Text.jsonChar ++ ['"']) := by simp [Text.json]
  have ended : step ⟨.text (.name before) ⟨name.toList.reverse, .plain⟩, outer⟩ '"' =
      .ok ⟨.colon before name, outer⟩ := by simp [step, Spelling.advance]
  have colon : step ⟨.colon before name, outer⟩ ':' =
      .ok ⟨.value, .object before name :: outer⟩ := rfl
  rw [quoted, List.cons_append, takes_cons awaits,
    takes_append (takes_quoted name (.name before) outer ended), takes_cons colon]

private theorem takes_members {members : List (String × Json)} {texts : List (String × List Char)}
    (spelled : List.Forall₂ (fun member text => member.1 = text.1 ∧
      member.2.SpelledBy depth text.2) members texts)
    (some : members ≠ []) {before : List (String × Json)} {outer : List Container}
    (room : outer.length + 1 + depth ≤ nestingLimit) {r : Reader}
    (awaits : r.step '"' = .ok ⟨.text (.name before) {}, outer⟩) :
    r.takes (membersText texts ++ ['}']) =
      .ok ⟨.complete (.object (Dictionary.override before members)), outer⟩ := by
  induction spelled generalizing before r with
  | nil => exact absurd rfl some
  | @cons member text members texts here later ih =>
    obtain ⟨name, value⟩ := member
    obtain ⟨_, item⟩ := text
    obtain ⟨rfl, here⟩ := here
    have inside : (Container.object before name :: outer).length + depth ≤ nestingLimit := room
    obtain ⟨last, taken, holds⟩ := here.taken inside (awaits_value _)
    cases later with
    | nil =>
      have ends : last.step '}' =
          .ok ⟨.complete (.object (Dictionary.insert name value before)), outer⟩ := by
        rw [holds.next '}' (by decide)]
        simp [afterValue, isSpace]
      rw [membersText, List.append_assoc, List.cons_append, takes_name name awaits,
        takes_append taken, takes_cons ends]
      rfl
    | cons second rest =>
      have goesOn : last.step ',' = .ok ⟨.name (Dictionary.insert name value before), outer⟩ := by
        rw [holds.next ',' (by decide)]
        simp [afterValue, isSpace]
      rw [membersText, List.append_assoc, List.append_assoc, List.cons_append, List.cons_append,
        takes_name name awaits, takes_append taken, takes_cons goesOn,
        ih (List.cons_ne_nil _ _) rfl]
      rfl

theorem object {members : List (String × Json)} {texts : List (String × List Char)}
    (spelled : List.Forall₂ (fun member text => member.1 = text.1 ∧
      member.2.SpelledBy depth text.2) members texts) :
    (Json.ofPairs members).SpelledBy (depth + 1) ('{' :: membersText texts ++ ['}']) := by
  intro around room
  have opened : beginValue around '{' = .ok ⟨.firstName, around⟩ := by
    simp only [beginValue, nest]
    rw [if_pos (by omega)]
  refine ⟨'{', membersText texts ++ ['}'], _, ⟨.complete (.ofPairs members), around⟩, rfl, rfl,
    by decide, opened, ?_, holds_complete _ around⟩
  cases members with
  | nil =>
    cases spelled
    rfl
  | cons member members =>
    exact takes_members spelled (List.cons_ne_nil _ _) (by omega) rfl

end SpelledBy

end Json

end JsonScript
