import Mathlib.Data.List.Chain
import JsonScript.Declaration.Source
import JsonScript.Declaration.Basic

/-!
Names of types.

The name that is published for the type of a parameter should be the name under which errors about
the argument report it. A type is read from its text with any blanks between its tokens, and its
published name is read off the tokens. The two names are found independently, the one by looking
through a single option, the other by looking through all of them.
-/

set_option autoImplicit false
set_option relaxedAutoImplicit false

namespace JsonScript.Declaration

namespace Token

/-- `Spaced tokens text`: the text has the tokens in order, with any blanks before each of them and
at the end. -/
inductive Spaced : List Token → List Char → Prop where
  | nil {gap : List Char} (blank : gap.all separates = true) : Spaced [] gap
  | cons {t : Token} {tokens : List Token} {gap text : List Char}
      (blank : gap.all separates = true) (rest : Spaced tokens text) :
      Spaced (t :: tokens) (gap ++ (t.symbol.toList ++ text))

def isWord : Token → Bool
  | .word _ => true
  | _ => false

/-- The tokens of which types are made: words that start with a letter, angle brackets and double
colons. -/
def isPlain : Token → Bool
  | .word spelling =>
    match spelling.toList with
    | c :: letters => c.isAlpha && letters.all inWord
    | [] => false
  | .mark c => c = '<' || c = '>'
  | .scope => true
  | _ => false

/-- Two tokens that may follow each other without blanks between them. -/
def Apart (t next : Token) : Prop :=
  t.isWord = true → next.isWord = false

private theorem exists_letters_of_isPlain {spelling : String}
    (plain : (Token.word spelling).isPlain = true) :
    ∃ c letters, spelling.toList = c :: letters ∧ c.isAlpha = true ∧
      ∀ d ∈ letters, inWord d = true := by
  unfold isPlain at plain
  dsimp only at plain
  split at plain
  · rename_i c letters spelled
    rw [Bool.and_eq_true, List.all_eq_true] at plain
    exact ⟨c, letters, spelled, plain.1, plain.2⟩
  · cases plain

private theorem isPlain_mark_iff {c : Char} :
    (Token.mark c).isPlain = true ↔ c = '<' ∨ c = '>' := by
  change (decide (c = '<') || decide (c = '>')) = true ↔ _
  rw [Bool.or_eq_true, decide_eq_true_eq, decide_eq_true_eq]

private theorem symbol_of_isPlain {t : Token} (plain : t.isPlain = true) :
    ∃ c letters, t.symbol.toList = c :: letters ∧
      (c.isAlpha = true ∧ t.isWord = true ∨ c ∈ ['<', '>', ':']) := by
  cases t with
  | word spelling =>
    obtain ⟨c, letters, spelled, letter, _⟩ := exists_letters_of_isPlain plain
    exact ⟨c, letters, spelled, .inl ⟨letter, rfl⟩⟩
  | mark c =>
    refine ⟨c, [], String.toList_singleton c, .inr ?_⟩
    rcases isPlain_mark_iff.mp plain with rfl | rfl
    · decide
    · decide
  | scope => exact ⟨':', [':'], rfl, .inr (by decide)⟩
  | text | literal | arrow => cases plain

private theorem Spaced.starts {tokens : List Token} {text : List Char}
    (spaced : Spaced tokens text) (plain : ∀ t ∈ tokens, t.isPlain = true) {c : Char}
    (first : c ∈ text.head?) :
    separates c = true ∨ (∃ t ∈ tokens.head?, c.isAlpha = true ∧ t.isWord = true) ∨
      c ∈ ['<', '>', ':'] := by
  cases spaced with
  | nil blank => exact .inl (List.all_eq_true.mp blank c (List.mem_of_mem_head? first))
  | @cons t tokens gap text blank rest =>
    cases gap with
    | cons d gap =>
      obtain rfl : d = c := by simpa using first
      exact .inl (List.all_eq_true.mp blank d List.mem_cons_self)
    | nil =>
      obtain ⟨d, letters, spelled, known⟩ := symbol_of_isPlain (plain t List.mem_cons_self)
      rw [spelled] at first
      obtain rfl : d = c := by simpa using first
      rcases known with word | mark
      · exact .inr (.inl ⟨t, rfl, word⟩)
      · exact .inr (.inr mark)

private theorem listWithin_gap {gap text : List Char} {tokens : List Token}
    (blank : gap.all separates = true)
    (read : listWithin text.length text = some tokens) :
    listWithin (gap ++ text).length (gap ++ text) = some tokens := by
  induction gap with
  | nil => exact read
  | cons c gap ih =>
    rw [List.all_cons, Bool.and_eq_true] at blank
    obtain ⟨here, later⟩ := blank
    exact listWithin_piece (piece?_separator here _) (Nat.lt_succ_self _) (ih later)

theorem Spaced.read {tokens : List Token} {text : List Char} (spaced : Spaced tokens text)
    (plain : ∀ t ∈ tokens, t.isPlain = true) (apart : tokens.IsChain Apart) :
    listWithin text.length text = some tokens := by
  induction spaced with
  | @nil gap blank =>
    have nothing : listWithin ([] : List Char).length [] = some [] := rfl
    have read := listWithin_gap blank nothing
    rwa [List.append_nil] at read
  | @cons t tokens gap text blank rest ih =>
    obtain ⟨simple, others⟩ := List.forall_mem_cons.mp plain
    obtain ⟨next, chained⟩ := List.isChain_cons.mp apart
    have later := ih others chained
    refine listWithin_gap blank ?_
    cases t with
    | word spelling =>
      have ends : ∀ c ∈ text.head?, endsWord c = true := by
        intro c first
        rcases rest.starts others first with blank | ⟨t, member, _, word⟩ | mark
        · exact endsWord_of_separates blank
        · cases word.symm.trans (next t member rfl)
        · have marks : ['<', '>', ':'].all endsWord = true := by decide
          exact List.all_eq_true.mp marks c mark
      obtain ⟨c, letters, spelled, letter, inside⟩ := exists_letters_of_isPlain simple
      have starts : startsWord c = true := by
        unfold startsWord
        rw [letter, Bool.true_or, Bool.true_or]
      have first := piece?_word starts inside ends
      rw [← spelled, String.ofList_toList] at first
      rw [symbol, spelled]
      refine listWithin_piece first ?_ later
      rw [List.length_cons, List.length_append]
      omega
    | mark c =>
      rw [symbol, String.toList_singleton]
      have first := piece?_angle (isPlain_mark_iff.mp simple) text
      exact listWithin_piece first (Nat.lt_succ_self _) later
    | scope =>
      have first : piece? (':' :: ':' :: text) = some ([.scope], text) := rfl
      refine listWithin_piece first ?_ later
      rw [List.length_cons, List.length_cons]
      omega
    | text | literal | arrow => cases simple

theorem Spaced.list? {tokens : List Token} {text : String} (spaced : Spaced tokens text.toList)
    (plain : ∀ t ∈ tokens, t.isPlain = true) (apart : tokens.IsChain Apart) :
    Token.list? text = some tokens := by
  have unmarked : withoutOrderMark text.toList = text.toList := by
    unfold withoutOrderMark
    split
    · rename_i rest start
      exfalso
      rcases spaced.starts plain (by rw [start]; rfl) with blank | ⟨_, _, letter, _⟩ | mark
      · exact absurd blank (by decide)
      · exact absurd letter (by decide)
      · exact absurd mark (by decide)
    · rfl
  unfold Token.list?
  rw [unmarked, ← String.length_toList]
  exact spaced.read plain apart

end Token

private theorem isChain_applied {head : String} {argument : List Token}
    (inside : argument.IsChain Token.Apart) : (applied head argument).IsChain Token.Apart := by
  have closed : (argument ++ [Token.mark '>']).IsChain Token.Apart := by
    refine List.isChain_append.mpr ⟨inside, List.isChain_singleton _, ?_⟩
    intro t _ next member _
    obtain rfl : Token.mark '>' = next := by simpa using member
    rfl
  have opened : (Token.mark '<' :: (argument ++ [Token.mark '>'])).IsChain Token.Apart :=
    List.isChain_cons.mpr ⟨fun _ _ word => Bool.noConfusion word, closed⟩
  exact List.isChain_cons_cons.mpr ⟨fun _ => rfl, opened⟩

private theorem isChain_written (s : Shape) : (written s).IsChain Token.Apart := by
  induction s with
  | any | number | integer | bool | text => exact List.isChain_singleton _
  | json => simp [written, Token.Apart, Token.isWord]
  | optional inner ih => exact isChain_applied ih
  | list item ih => exact isChain_applied ih

private theorem isPlain_applied {head : String} (plain : (Token.word head).isPlain = true)
    {argument : List Token} (inside : ∀ t ∈ argument, t.isPlain = true) :
    ∀ t ∈ applied head argument, t.isPlain = true := by
  intro t member
  simp only [applied, List.cons_append, List.mem_cons, List.mem_append, List.not_mem_nil,
    or_false] at member
  rcases member with rfl | rfl | member | rfl
  · exact plain
  · rfl
  · exact inside t member
  · rfl

private theorem isPlain_written (s : Shape) : ∀ t ∈ written s, t.isPlain = true := by
  induction s with
  | any | json | number | integer | bool | text => decide
  | optional inner ih => exact isPlain_applied (by decide) ih
  | list item ih => exact isPlain_applied (by decide) ih

private theorem insideOption?_applied (argument : List Token) :
    insideOption? (applied "Option" argument) = some argument := by
  change (if (argument ++ [Token.mark '>']).getLast? = some (.mark '>') then
    some (argument ++ [Token.mark '>']).dropLast else none) = some argument
  rw [List.getLast?_concat, if_pos rfl, List.dropLast_concat]

private theorem isLifetime_of_plain {type : List Token} (plain : ∀ t ∈ type, t.isPlain = true) :
    isLifetime type = false := by
  unfold isLifetime
  split
  · cases plain (.mark '\'') List.mem_cons_self
  · rfl

private theorem hasLifetime_of_plain {inside : List Token}
    (plain : ∀ t ∈ inside, t.isPlain = true) : hasLifetime inside = false := by
  unfold hasLifetime
  rw [List.any_eq_false]
  intro piece member
  rw [Bool.not_eq_true]
  apply isLifetime_of_plain
  intro t within
  apply plain
  exact Token.mem_of_mem_closing (Token.mem_of_mem_split member within)

private theorem typeName_optional (inner : Shape) :
    typeName (written (.optional inner)) = plainTypeName (written inner) := by
  unfold typeName
  rw [written, insideOption?_applied]
  dsimp only
  rw [hasLifetime_of_plain (isPlain_written inner)]
  rfl

/-- The shapes whose types are published as not known: documents, and options of options. -/
def isHidden : Shape → Bool
  | .json | .optional .json | .optional (.optional _) => true
  | _ => false

private theorem typeName_written (s : Shape) :
    typeName (written s) = if isHidden s then "any" else s.expected := by
  cases s with
  | any | json | number | integer | bool | text | list => rfl
  | optional inner =>
    rw [typeName_optional]
    cases inner <;> rfl

/-- A type is read from its text, however it is spaced, and is published under the name that errors
report, unless it is hidden. So the two names differ where a hidden type has a name to report. -/
theorem published_name_is_reported_unless_hidden (s : Shape) (text : String)
    (spaced : Token.Spaced (written s) text.toList) :
    ∃ type, Token.list? text = some type ∧
      (isHidden s = false → typeName type = s.expected) ∧
      (isHidden s = true → typeName type = "any") ∧
      (typeName type ≠ s.expected ↔ isHidden s = true ∧ s.expected ≠ "any") := by
  refine ⟨written s, spaced.list? (isPlain_written s) (isChain_written s), ?_⟩
  rw [typeName_written]
  cases isHidden s with
  | false => simp
  | true => simp [eq_comm]

/-- An option of a boolean is published as a boolean, also when it is spaced oddly. -/
theorem spaced_option_published :
    Token.Spaced (written (.optional .bool)) " Option< bool\t>\n".toList ∧
      ∃ type, Token.list? " Option< bool\t>\n" = some type ∧ typeName type = "bool" := by
  have gaps : " Option< bool\t>\n".toList =
      [' '] ++ ("Option".toList ++ ([] ++ ("<".toList ++ ([' '] ++ ("bool".toList ++
        (['\t'] ++ (">".toList ++ ['\n']))))))) := by
    decide
  have spaced : Token.Spaced (written (.optional .bool)) " Option< bool\t>\n".toList := by
    rw [gaps]
    exact .cons rfl (.cons rfl (.cons rfl (.cons rfl (.nil rfl))))
  obtain ⟨type, read, known, _⟩ := published_name_is_reported_unless_hidden _ _ spaced
  exact ⟨spaced, type, read, known rfl⟩

/-- A document, and an option of an option of an integer, are published as types that are not known,
while errors about them ask for a document and for an integer. -/
theorem document_and_nested_option_hidden :
    let nested : Shape := .optional (.optional .integer)
    (Token.list? "serde_json::Value" = some (written .json) ∧
      typeName (written .json) = "any" ∧ Shape.json.expected = "json") ∧
    (Token.list? "Option<Option<i64>>" = some (written nested) ∧
      typeName (written nested) = "any" ∧ nested.expected = "integer") := by
  decide

end JsonScript.Declaration
