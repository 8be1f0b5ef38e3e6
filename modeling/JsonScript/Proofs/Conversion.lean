import JsonScript.Proofs.Documents
import JsonScript.Shape

/-!
Conversion between values and host data.

A shape admits some values, said without conversion, and conversion succeeds on just these. When it
fails it blames one part of the value: an optional shape passes the blame on, and a list passes it
to the first of its items that is not admitted. Host data comes back unchanged from a value, as
long as nothing but a missing option becomes null.
-/

set_option autoImplicit false
set_option relaxedAutoImplicit false

namespace JsonScript

section Items

variable {ε α β : Type} {convert : α → Except ε β}

private theorem mapM_ok_iff {items : List α} :
    (∃ converted, items.mapM convert = .ok converted) ↔
      ∀ x ∈ items, ∃ y, convert x = .ok y := by
  induction items with
  | nil => simp [pure, Except.pure]
  | cons x rest ih =>
    rw [List.mapM_cons, List.forall_mem_cons, ← ih]
    cases first : convert x with
    | error e => simp [bind, Except.bind]
    | ok y =>
      cases others : rest.mapM convert with
      | error e => simp [bind, Except.bind]
      | ok ys => simp [bind, Except.bind, pure, Except.pure]

private theorem mapM_error {before after : List α} {x : α} {e : ε}
    (earlier : ∀ y ∈ before, ∃ z, convert y = .ok z) (fails : convert x = .error e) :
    (before ++ x :: after).mapM convert = .error e := by
  induction before with
  | nil => rw [List.nil_append, List.mapM_cons, fails]; rfl
  | cons y before ih =>
    obtain ⟨⟨z, first⟩, rest⟩ := List.forall_mem_cons.mp earlier
    rw [List.cons_append, List.mapM_cons, first, ih rest]
    rfl

private theorem mapM_map_ok {make : β → α} {items : List β}
    (each : ∀ y ∈ items, convert (make y) = .ok y) :
    (items.map make).mapM convert = .ok items := by
  induction items with
  | nil => rfl
  | cons y rest ih =>
    obtain ⟨first, others⟩ := List.forall_mem_cons.mp each
    rw [List.map_cons, List.mapM_cons, first, ih others]
    rfl

end Items

namespace Shape

variable {φ : Type}

def Admits : Shape → Value φ → Prop
  | .any, _ => True
  | .json, v => v.FunctionFree
  | .number, v => ∃ x, v = .number x
  | .integer, v =>
    ∃ x, v = .number x ∧ ∃ n : Int, Number.value? x = some (n : ℚ) ∧ n.natAbs ≤ 2 ^ 53
  | .bool, v => ∃ b, v = .bool b
  | .text, v => ∃ s, v = .text s
  | .optional inner, v => v = .null ∨ inner.Admits v
  | .list item, v => ∃ items, v = .list items ∧ ∀ u ∈ items, item.Admits u

private theorem safeLimit_eq : Number.safeLimit = 2 ^ 53 := by
  norm_num [Number.safeLimit]

def isLeaf : Shape → Bool
  | .optional _ | .list _ => false
  | _ => true

/-- What conversion to a shape says of a value that it does not admit. -/
def complaint (s : Shape) (v : Value φ) : Mismatch :=
  ⟨s.expected, if s = .json then "function" else v.typeName⟩

theorem fromValue_leaf {s : Shape} (leaf : s.isLeaf = true) (v : Value φ) :
    (s.Admits v ∧ ∃ x, s.fromValue v = .ok x) ∨
      (¬s.Admits v ∧ s.fromValue v = .error (s.complaint v)) := by
  cases s with
  | optional | list => cases leaf
  | any => exact .inl ⟨trivial, v, rfl⟩
  | json =>
    change v.FunctionFree ∧ _ ∨ ¬v.FunctionFree ∧ _
    unfold fromValue
    cases document : v.toJson? with
    | some j =>
      refine .inl ⟨fun f reached => ?_, j, rfl⟩
      have none := Value.toJson?_eq_none_iff.mpr ⟨f, reached⟩
      cases document.symm.trans none
    | none =>
      obtain ⟨f, reached⟩ := Value.toJson?_eq_none_iff.mp document
      exact .inr ⟨fun free => free f reached, rfl⟩
  | number =>
    cases v with
    | number x => exact .inl ⟨⟨x, rfl⟩, x, rfl⟩
    | null | bool | text | list | object | function =>
      refine .inr ⟨?_, rfl⟩
      rintro ⟨_, ⟨⟩⟩
  | bool =>
    cases v with
    | bool b => exact .inl ⟨⟨b, rfl⟩, b, rfl⟩
    | null | number | text | list | object | function =>
      refine .inr ⟨?_, rfl⟩
      rintro ⟨_, ⟨⟩⟩
  | text =>
    cases v with
    | text t => exact .inl ⟨⟨t, rfl⟩, t, rfl⟩
    | null | bool | number | list | object | function =>
      refine .inr ⟨?_, rfl⟩
      rintro ⟨_, ⟨⟩⟩
  | integer =>
    cases v with
    | null | bool | text | list | object | function =>
      refine .inr ⟨?_, rfl⟩
      rintro ⟨_, ⟨⟩, _⟩
    | number x =>
      cases found : Number.integer? x with
      | some n =>
        obtain ⟨whole, safe⟩ := Number.integer?_eq_some_iff.mp found
        rw [safeLimit_eq] at safe
        exact .inl ⟨⟨x, rfl, n, whole, safe⟩, n, fromValue_whole found⟩
      | none =>
        refine .inr ⟨?_, fromValue_notWhole found⟩
        rintro ⟨y, same, n, whole, safe⟩
        obtain rfl : x = y := Value.number.inj same
        rw [← safeLimit_eq] at safe
        cases found.symm.trans (Number.integer?_eq_some_iff.mpr ⟨whole, safe⟩)

private theorem fromValue_leaf_ok_iff {s : Shape} (leaf : s.isLeaf = true) {v : Value φ} :
    (∃ x, s.fromValue v = .ok x) ↔ s.Admits v := by
  rcases fromValue_leaf leaf v with ⟨admitted, converted⟩ | ⟨wrong, refused⟩
  · exact iff_of_true converted admitted
  · refine iff_of_false ?_ wrong
    rintro ⟨x, converted⟩
    cases refused.symm.trans converted

private theorem fromValue_optional {inner : Shape} {v : Value φ} (present : v ≠ .null) :
    (Shape.optional inner).fromValue v = (inner.fromValue v).map some := by
  cases v with
  | null => exact absurd rfl present
  | bool | number | text | list | object | function => rfl

private theorem fromValue_other {item : Shape} {v : Value φ} (other : ∀ items, v ≠ .list items) :
    (Shape.list item).fromValue v = .error ((Shape.list item).complaint v) := by
  cases v with
  | list items => exact absurd rfl (other items)
  | null | bool | number | text | object | function => rfl

theorem fromValue_ok_iff {s : Shape} {v : Value φ} :
    (∃ x, s.fromValue v = .ok x) ↔ s.Admits v := by
  induction s generalizing v with
  | any | json | number | integer | bool | text => exact fromValue_leaf_ok_iff rfl
  | optional inner ih =>
    by_cases absent : v = .null
    · subst absent
      exact iff_of_true ⟨none, rfl⟩ (.inl rfl)
    · rw [fromValue_optional absent]
      constructor
      · rintro ⟨x, converted⟩
        cases found : inner.fromValue v with
        | ok y => exact .inr (ih.mp ⟨y, found⟩)
        | error m =>
          rw [found] at converted
          cases converted
      · intro admitted
        obtain ⟨y, found⟩ := ih.mpr (admitted.resolve_left absent)
        exact ⟨some y, by rw [found]; rfl⟩
  | list item ih =>
    by_cases lists : ∃ items, v = .list items
    · obtain ⟨items, rfl⟩ := lists
      have each : (∃ xs, items.mapM item.fromValue = .ok xs) ↔
          ∀ u ∈ items, ∃ x, item.fromValue u = .ok x := mapM_ok_iff
      simp only [ih] at each
      refine each.trans ?_
      constructor
      · exact fun admitted => ⟨items, rfl, admitted⟩
      · rintro ⟨_, ⟨⟩, admitted⟩
        exact admitted
    · apply iff_of_false
      · rintro ⟨x, converted⟩
        rw [fromValue_other fun items same => lists ⟨items, same⟩] at converted
        cases converted
      · rintro ⟨items, same, _⟩
        exact lists ⟨items, same⟩

/-- `Blames s v part w`: looked for in `v`, the shape `s` is not found because the shape `part` is
not found in `w`. Optional shapes are looked through, and in a list the first item counts that is
not admitted. -/
inductive Blames : Shape → Value φ → Shape → Value φ → Prop where
  | leaf {s : Shape} {v : Value φ} (leaf : s.isLeaf = true) (wrong : ¬s.Admits v) : Blames s v s v
  | noList {item : Shape} {v : Value φ} (other : ∀ items, v ≠ .list items) :
      Blames (.list item) v (.list item) v
  | present {inner part : Shape} {v w : Value φ} (present : v ≠ .null)
      (inside : Blames inner v part w) : Blames (.optional inner) v part w
  | item {item part : Shape} {before after : List (Value φ)} {v w : Value φ}
      (earlier : ∀ u ∈ before, item.Admits u) (inside : Blames item v part w) :
      Blames (.list item) (.list (before ++ v :: after)) part w

theorem Blames.fromValue_eq {s part : Shape} {v w : Value φ} (blames : Blames s v part w) :
    s.fromValue v = .error (part.complaint w) := by
  induction blames with
  | leaf leaf wrong =>
    rcases fromValue_leaf leaf _ with ⟨admitted, _⟩ | ⟨_, refused⟩
    · exact absurd admitted wrong
    · exact refused
  | noList other => exact fromValue_other other
  | present present _ ih =>
    rw [fromValue_optional present, ih]
    rfl
  | item earlier _ ih =>
    exact mapM_error (fun u member => fromValue_ok_iff.mpr (earlier u member)) ih

theorem exists_blames {s : Shape} {v : Value φ} (wrong : ¬s.Admits v) :
    ∃ part w, Blames s v part w := by
  induction s generalizing v with
  | any | json | number | integer | bool | text => exact ⟨_, v, .leaf rfl wrong⟩
  | optional inner ih =>
    obtain ⟨part, w, inside⟩ := ih fun admitted => wrong (.inr admitted)
    exact ⟨part, w, .present (fun absent => wrong (.inl absent)) inside⟩
  | list item ih =>
    by_cases lists : ∃ items, v = .list items
    · obtain ⟨items, rfl⟩ := lists
      classical
      have some : (items.find? fun u => ¬item.Admits u).isSome := by
        by_contra none
        simp only [List.find?_isSome, decide_eq_true_eq, not_exists, not_and, not_not] at none
        exact wrong ⟨items, rfl, none⟩
      obtain ⟨u, first⟩ := Option.isSome_iff_exists.mp some
      obtain ⟨refused, before, after, rfl, earlier⟩ := List.find?_eq_some_iff_append.mp first
      simp only [decide_eq_true_eq, Bool.not_eq_true', decide_eq_false_iff_not, not_not]
        at refused earlier
      obtain ⟨part, w, inside⟩ := ih refused
      exact ⟨part, w, .item earlier inside⟩
    · exact ⟨.list item, v, .noList fun items same => lists ⟨items, same⟩⟩

def isOptional : Shape → Bool
  | .optional _ => true
  | _ => false

theorem exists_part {s : Shape} (optional : s.isOptional = true) : ∃ part, s = .optional part := by
  cases s with
  | optional part => exact ⟨part, rfl⟩
  | any | json | number | integer | bool | text | list => cases optional

/-- The shapes of numbers, booleans and texts, of lists, and of options of what is no option
itself. -/
def isPortable : Shape → Bool
  | .number | .integer | .bool | .text => true
  | .list item => item.isPortable
  | .optional inner => inner.isPortable && !inner.isOptional
  | .any | .json => false

def SafeIntegers : (s : Shape) → s.Host φ → Prop
  | .integer, (n : Int) => n.natAbs ≤ 2 ^ 53
  | .optional inner, (found : Option (inner.Host φ)) => ∀ x ∈ found, inner.SafeIntegers x
  | .list item, (items : List (item.Host φ)) => ∀ x ∈ items, item.SafeIntegers x
  | _, _ => True

private theorem toValue_ne_null {s : Shape} (portable : s.isPortable = true)
    (certain : s.isOptional = false) (x : s.Host φ) : s.toValue x ≠ .null := by
  cases s with
  | any | json => cases portable
  | optional inner => cases certain
  | number | integer | bool | text | list => rintro ⟨⟩

end Shape

variable {φ : Type}

/-- Conversion succeeds on the values of the shape and on no others. It fails with a report on the
part to blame: the shape that was looked for there, and the kind of value that was found, or a
function where a document was wanted. -/
theorem conversion_blames_first_offender (s : Shape) (v : Value φ) :
    ((∃ x, s.fromValue v = .ok x) ↔ s.Admits v) ∧
    ∀ m, s.fromValue v = .error m ↔ ∃ part w, Shape.Blames s v part w ∧
      m = ⟨part.expected, if part = .json then "function" else w.typeName⟩ := by
  refine ⟨Shape.fromValue_ok_iff, fun m => ?_⟩
  constructor
  · intro refused
    have wrong : ¬s.Admits v := by
      intro admitted
      obtain ⟨x, converted⟩ := Shape.fromValue_ok_iff.mpr admitted
      cases refused.symm.trans converted
    obtain ⟨part, w, blames⟩ := Shape.exists_blames wrong
    have same := refused.symm.trans blames.fromValue_eq
    exact ⟨part, w, blames, Except.error.inj same⟩
  · rintro ⟨part, w, blames, rfl⟩
    exact blames.fromValue_eq

example :
    (Shape.list (.optional .integer)).fromValue
        (.list [.number 1.0, .null, .number 2.5, .text "x"] : Value Empty) =
      .error ⟨"integer", "number"⟩ := by
  rfl

/-- Numbers, booleans, texts, lists of them and options that are not nested come back from the value
that they become, if their integers are within the limit. -/
theorem host_data_survives_value (s : Shape) (portable : s.isPortable = true) (x : s.Host φ)
    (safe : s.SafeIntegers x) : s.fromValue (s.toValue x) = .ok x := by
  induction s with
  | any | json => cases portable
  | number | bool | text => rfl
  | integer =>
    have read : Number.integer? (Number.ofInteger x) = some x := by
      apply Number.integer?_ofInteger
      rw [Shape.safeLimit_eq]
      exact safe
    exact Shape.fromValue_whole read
  | optional inner ih =>
    obtain ⟨inside, certain⟩ := Bool.and_eq_true_iff.mp portable
    rw [Bool.not_eq_true'] at certain
    cases x with
    | none => rfl
    | some y =>
      change (Shape.optional inner).fromValue (inner.toValue y) = .ok (some y)
      rw [Shape.fromValue_optional (Shape.toValue_ne_null inside certain y),
        ih inside y (safe y rfl)]
      rfl
  | list item ih => exact mapM_map_ok fun y member => ih portable y (safe y member)

/-- The greatest integers survive, and so do the missing option and the empty list beside them. -/
theorem extreme_integers_survive_value :
    let s : Shape := .list (.optional (.list .integer))
    let extremes : List (Option (List Int)) := [some [2 ^ 53, -2 ^ 53], none, some []]
    let data : s.Host Empty := extremes
    s.isPortable = true ∧ s.SafeIntegers data ∧ s.fromValue (s.toValue data) = .ok data := by
  intro s extremes data
  have safe : ∀ found ∈ extremes, ∀ items ∈ found, ∀ n ∈ items, n.natAbs ≤ 2 ^ 53 := by
    simp [extremes]
  exact ⟨rfl, safe, host_data_survives_value s rfl data safe⟩

end JsonScript
