import JsonScript.Declaration.Basic
import JsonScript.Dictionary

/-!
The grammar of attributes.

An attribute is a list of items with commas between them, and the last of them may be followed by a
comma too. The reader asks after each item whether anything is left, and again before the next one,
so it accepts just these lists. What it sets is what the last item of each key says.
-/

set_option autoImplicit false
set_option relaxedAutoImplicit false

namespace JsonScript.Declaration.Attribute

def IsKey (key : String) : Prop :=
  key = "name" ∨ key = "description"

/-- The tokens of items with commas between them, where each key is a word. -/
def itemsTokens (items : List (String × String)) : List Token :=
  tokens (items.map fun (key, value) => ([.word key], value))

/-- `Written items tokens`: the tokens are those of the items, with or without a comma after the
last one. -/
inductive Written (items : List (String × String)) : List Token → Prop where
  | closed : Written items (itemsTokens items)
  | trailing (some : items ≠ []) : Written items (itemsTokens items ++ [.mark ','])

def overriddenBy (a : Attribute) (items : List (String × String)) : Attribute where
  name := (Dictionary.find? "name" items.reverse).or a.name
  description := (Dictionary.find? "description" items.reverse).or a.description

private theorem itemsTokens_cons (item next : String × String) (rest : List (String × String)) :
    itemsTokens (item :: next :: rest) =
      .word item.1 :: .mark '=' :: .text item.2 :: .mark ',' :: itemsTokens (next :: rest) := by
  simp [itemsTokens, tokens, itemTokens]

private theorem written_nil_iff {tokens : List Token} : Written [] tokens ↔ tokens = [] := by
  constructor
  · intro written
    cases written with
    | closed => rfl
    | trailing some => exact absurd rfl some
  · rintro rfl
    exact .closed

private theorem written_cons_iff {key value : String} {items : List (String × String)}
    {tokens : List Token} :
    Written ((key, value) :: items) tokens ↔
      (items = [] ∧ tokens = [.word key, .mark '=', .text value]) ∨
        ∃ rest, tokens = .word key :: .mark '=' :: .text value :: .mark ',' :: rest ∧
          Written items rest := by
  cases items with
  | nil =>
    simp only [written_nil_iff, true_and]
    constructor
    · intro written
      cases written with
      | closed => exact .inl rfl
      | trailing _ => exact .inr ⟨[], rfl, rfl⟩
    · rintro (rfl | ⟨_, rfl, rfl⟩)
      · exact .closed
      · exact .trailing (List.cons_ne_nil _ _)
  | cons next rest =>
    constructor
    · intro written
      cases written with
      | closed => exact .inr ⟨_, itemsTokens_cons _ next rest, .closed⟩
      | trailing _ =>
        refine .inr ⟨itemsTokens (next :: rest) ++ [.mark ','], ?_, .trailing ?_⟩
        · rw [itemsTokens_cons]
          rfl
        · exact List.cons_ne_nil _ _
    · rintro (⟨none, _⟩ | ⟨_, rfl, written⟩)
      · cases none
      · cases written with
        | closed =>
          rw [← itemsTokens_cons (key, value)]
          exact .closed
        | trailing _ =>
          have whole := itemsTokens_cons (key, value) next rest
          have trailed : Written ((key, value) :: next :: rest) _ :=
            .trailing (List.cons_ne_nil _ _)
          rwa [whole] at trailed

private theorem overriddenBy_cons (a : Attribute) (item : String × String)
    (items : List (String × String)) :
    a.overriddenBy (item :: items) = (a.overriddenBy [item]).overriddenBy items := by
  simp [overriddenBy, Dictionary.find?_append, Option.or_assoc]

private theorem set?_eq_some_iff {a b : Attribute} {key value : String} :
    a.set? key value = some b ↔ IsKey key ∧ b = a.overriddenBy [(key, value)] := by
  unfold set? IsKey
  by_cases named : key = "name"
  · subst named
    simp [overriddenBy, Dictionary.find?, eq_comm]
  · by_cases described : key = "description"
    · subst described
      simp [overriddenBy, Dictionary.find?, eq_comm]
    · simp [named, described]

private theorem isKeyword_of_isKey {key : String} (known : IsKey key) :
    Token.isKeyword key = false := by
  rcases known with rfl | rfl <;> decide

private theorem read_item (a : Attribute) {key : String} (known : IsKey key) (value : String)
    (rest : List Token) :
    read a (.word key :: .mark '=' :: .text value :: .mark ',' :: rest) =
      read (a.overriddenBy [(key, value)]) rest := by
  rw [read, isKeyword_of_isKey known]
  simp only [set?_eq_some_iff.mpr ⟨known, rfl⟩, Bool.false_eq_true, if_false]

private theorem read_last (a : Attribute) {key : String} (known : IsKey key) (value : String) :
    read a [.word key, .mark '=', .text value] = .ok (a.overriddenBy [(key, value)]) := by
  rw [read, isKeyword_of_isKey known]
  simp only [set?_eq_some_iff.mpr ⟨known, rfl⟩, Bool.false_eq_true, if_false]

private theorem read_of_written {items : List (String × String)} {tokens : List Token}
    (known : ∀ item ∈ items, IsKey item.1) (written : Written items tokens) (a : Attribute) :
    read a tokens = .ok (a.overriddenBy items) := by
  induction items generalizing a tokens with
  | nil =>
    obtain rfl := written_nil_iff.mp written
    rfl
  | cons item items ih =>
    obtain ⟨here, others⟩ := List.forall_mem_cons.mp known
    rcases written_cons_iff.mp written with ⟨rfl, rfl⟩ | ⟨rest, rfl, later⟩
    · exact read_last a here item.2
    · rw [read_item a here, ih others later, ← overriddenBy_cons]

private theorem written_of_read {a b : Attribute} {tokens : List Token}
    (accepted : read a tokens = .ok b) :
    ∃ items : List (String × String), (∀ item ∈ items, IsKey item.1) ∧ Written items tokens ∧
      b = a.overriddenBy items := by
  -- Along the recursion of the reader. What it refuses is no success, so three cases are left.
  fun_induction read a tokens with
  | case1 a =>
    cases accepted
    exact ⟨[], by simp, .closed, rfl⟩
  | case4 a key plain value next set =>
    cases accepted
    obtain ⟨known, rfl⟩ := set?_eq_some_iff.mp set
    refine ⟨[(key, value)], by simpa using known, .closed, rfl⟩
  | case5 a key plain value next set rest ih =>
    obtain ⟨known, rfl⟩ := set?_eq_some_iff.mp set
    obtain ⟨items, others, written, rfl⟩ := ih accepted
    refine ⟨(key, value) :: items, ?_, written_cons_iff.mpr (.inr ⟨rest, rfl, written⟩), ?_⟩
    · exact List.forall_mem_cons.mpr ⟨known, others⟩
    · exact (overriddenBy_cons a (key, value) items).symm
  | case2 | case3 | case6 | case7 | case8 | case9 | case10 => cases accepted

/-- An attribute is read just when it is a list of items whose keys are known, with commas between
them and with or without one after the last. It sets the name and the description to the texts of
the last items of these keys, and leaves out what no item gives. -/
theorem attribute_read_just_when_written (tokens : List Token) (a : Attribute) :
    read {} tokens = .ok a ↔
      ∃ items : List (String × String), (∀ item ∈ items, IsKey item.1) ∧ Written items tokens ∧
        a.name = Dictionary.find? "name" items.reverse ∧
        a.description = Dictionary.find? "description" items.reverse := by
  constructor
  · intro accepted
    obtain ⟨items, known, written, rfl⟩ := written_of_read accepted
    exact ⟨items, known, written, Option.or_none, Option.or_none⟩
  · rintro ⟨items, known, written, named, described⟩
    rw [read_of_written known written]
    obtain ⟨name, description⟩ := a
    obtain rfl : name = _ := named
    obtain rfl : description = _ := described
    rw [overriddenBy, Option.or_none, Option.or_none]

end JsonScript.Declaration.Attribute
