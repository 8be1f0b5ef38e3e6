import Mathlib
import JsonScript.Proofs.ByteOrder
import JsonScript.Proofs.Numbers
import JsonScript.Proofs.Values

/-!
Documents of values.

A value has a document unless a function can be reached in it, and the value of that document has
the same document again. It is the value itself only if nothing was lost: numbers that are not
finite have become null, and the members of objects have been sorted and joined by their names.
-/

set_option autoImplicit false
set_option relaxedAutoImplicit false

namespace JsonScript

variable {φ : Type}

section Lists

variable {α β : Type} {R : α → β → Prop} {xs : List α} {ys : List β}

private theorem exists_of_mem_right (related : List.Forall₂ R xs ys) {y : β} (member : y ∈ ys) :
    ∃ x ∈ xs, R x y := by
  induction related with
  | nil => cases member
  | cons here _ ih =>
    rcases List.mem_cons.mp member with rfl | later
    · exact ⟨_, List.mem_cons_self, here⟩
    · obtain ⟨x, inside, held⟩ := ih later
      exact ⟨x, List.mem_cons_of_mem _ inside, held⟩

private theorem forall₂_iff_forall_mem {S : β → α → Prop} {P : α → Prop}
    (related : List.Forall₂ R xs ys) (each : ∀ x ∈ xs, ∀ y, R x y → (S y x ↔ P x)) :
    List.Forall₂ S ys xs ↔ ∀ x ∈ xs, P x := by
  induction related with
  | nil => simp
  | cons here _ ih =>
    have first := each _ List.mem_cons_self _ here
    have rest := ih fun x member => each x (List.mem_cons_of_mem _ member)
    rw [List.forall₂_cons, first, rest, List.forall_mem_cons]

end Lists

namespace Value

theorem toJson?_eq_none_iff {v : Value φ} :
    v.toJson? = none ↔ ∃ f, (Value.function f).PartOf v := by
  have leaf {v : Value φ} (free : v.FunctionFree) : ¬∃ f, (Value.function f).PartOf v :=
    fun ⟨f, reached⟩ => free f reached
  induction v using parts_induction with
  | null | bool | number | text =>
    refine iff_of_false (by simp [toJson?]) (leaf (functionFree_leaf ?_ ?_ ?_)) <;> simp
  | function f => exact iff_of_true rfl ⟨f, .self⟩
  | list items inside =>
    rw [toJson?, Option.map_eq_none_iff, toItems?_eq_none_iff]
    constructor
    · rintro ⟨v, member, none⟩
      obtain ⟨f, reached⟩ := (inside v member).mp none
      exact ⟨f, .item member reached⟩
    · rintro ⟨f, reached⟩
      cases reached with
      | item member reached => exact ⟨_, member, (inside _ member).mpr ⟨f, reached⟩⟩
  | object pairs inside =>
    rw [toJson?, Option.map_eq_none_iff, toPairs?_eq_none_iff]
    constructor
    · rintro ⟨pair, member, none⟩
      obtain ⟨f, reached⟩ := (inside pair member).mp none
      exact ⟨f, .entry member reached⟩
    · rintro ⟨f, reached⟩
      cases reached with
      | entry member reached => exact ⟨_, member, (inside _ member).mpr ⟨f, reached⟩⟩

private theorem toJson?_ofJson_ofFloat (x : Float) :
    (ofJson (.ofFloat x) : Value φ).toJson? = some (.ofFloat x) := by
  cases found : Number.integer? x with
  | some n =>
    have whole : Json.ofFloat x = .number (.integer n) := by simp [Json.ofFloat, found]
    have back := Number.integer?_ofInteger (Number.natAbs_le_of_integer? found)
    rw [whole, ofJson, Numeral.toFloat, toJson?]
    simp [Json.ofFloat, back]
  | none =>
    by_cases finite : Number.isFinite x = true
    · have kept : Json.ofFloat x = .number (.float x) := by simp [Json.ofFloat, found, finite]
      rw [kept, ofJson, Numeral.toFloat, toJson?, kept]
    · have lost : Json.ofFloat x = .null := by simp [Json.ofFloat, found, finite]
      rw [lost, ofJson, toJson?]

theorem toJson?_ofJson {v : Value φ} {j : Json} (converted : v.toJson? = some j) :
    (ofJson j : Value φ).toJson? = some j := by
  induction v using parts_induction generalizing j with
  | null | bool | text =>
    cases converted
    rfl
  | number x =>
    cases converted
    exact toJson?_ofJson_ofFloat x
  | function f => cases converted
  | list items inside =>
    obtain ⟨documents, each, rfl⟩ := Option.map_eq_some_iff.mp converted
    have again : toItems? (ofItems documents : List (Value φ)) = some documents := by
      rw [ofItems_eq_map, toItems?_eq_some_iff, List.forall₂_map_left_iff, List.forall₂_same]
      intro document member
      obtain ⟨v, there, here⟩ := exists_of_mem_right (toItems?_eq_some_iff.mp each) member
      exact inside v there here
    rw [ofJson, toJson?, again]
    rfl
  | object pairs inside =>
    obtain ⟨members, each, rfl⟩ := Option.map_eq_some_iff.mp converted
    have sorted : Dictionary.Sorted (Dictionary.ofPairs members) := .ofPairs members
    have again : toPairs? (ofMembers (Dictionary.ofPairs members) : List (String × Value φ)) =
        some (Dictionary.ofPairs members) := by
      rw [ofMembers_eq_map, toPairs?_eq_some_iff, List.forall₂_map_left_iff, List.forall₂_same]
      intro member kept
      obtain ⟨pair, there, _, here⟩ :=
        exists_of_mem_right (toPairs?_eq_some_iff.mp each) (Dictionary.mem_ofPairs kept)
      exact ⟨rfl, inside pair there here⟩
    rw [Json.ofPairs, ofJson, toJson?, again, Option.map_some, Json.ofPairs, sorted.ofPairs_eq]

private def Lossless : Value φ → Prop
  | .number x => Number.isFinite x = true
  | .object pairs => Dictionary.Sorted pairs
  | _ => True

private theorem equal_ofJson_ofFloat_iff [BEq φ] (x : Float) :
    equal (ofJson (.ofFloat x)) (.number x : Value φ) = true ↔ Number.isFinite x = true := by
  cases found : Number.integer? x with
  | some n =>
    have whole : Json.ofFloat x = .number (.integer n) := by simp [Json.ofFloat, found]
    rw [whole, ofJson, Numeral.toFloat, equal]
    exact iff_of_true (Number.ofInteger_beq_of_integer? found) (Number.isFinite_of_integer? found)
  | none =>
    by_cases finite : Number.isFinite x = true
    · have kept : Json.ofFloat x = .number (.float x) := by simp [Json.ofFloat, found, finite]
      rw [kept, ofJson, Numeral.toFloat, equal]
      exact iff_of_true (Number.beq_self_of_isFinite finite) finite
    · have lost : Json.ofFloat x = .null := by simp [Json.ofFloat, found, finite]
      rw [lost, ofJson]
      exact iff_of_false (by simp [equal]) finite

private theorem names_eq_of_forall₂ {α β : Type} {R : String × α → String × β → Prop}
    {pairs : List (String × α)} {members : List (String × β)}
    (same : ∀ pair member, R pair member → pair.1 = member.1)
    (related : List.Forall₂ R pairs members) :
    Dictionary.names pairs = Dictionary.names members := by
  induction related with
  | nil => rfl
  | cons here _ ih =>
    rw [Dictionary.names, List.map_cons, same _ _ here]
    exact congrArg _ ih

private theorem equalPairs_ofPairs_iff [BEq φ] {pairs : List (String × Value φ)}
    {members : List (String × Json)}
    (related : List.Forall₂ (fun pair member => pair.1 = member.1 ∧
      pair.2.toJson? = some member.2) pairs members)
    (inside : ∀ pair ∈ pairs, ∀ j, pair.2.toJson? = some j →
      (equal (ofJson j) pair.2 = true ↔ pair.2.Everywhere Lossless)) :
    equalPairs ((Dictionary.ofPairs members).map fun member => (member.1, ofJson member.2)) pairs =
        true ↔
      Dictionary.Sorted pairs ∧ ∀ pair ∈ pairs, pair.2.Everywhere Lossless := by
  have names := names_eq_of_forall₂ (fun _ _ both => both.1) related
  rw [equalPairs_iff, List.forall₂_map_left_iff]
  by_cases sorted : Dictionary.Sorted pairs
  · have unchanged : Dictionary.ofPairs members = members := by
      refine Dictionary.Sorted.ofPairs_eq ?_
      rw [Dictionary.Sorted, ← names]
      exact sorted
    rw [unchanged, and_iff_right sorted]
    refine forall₂_iff_forall_mem related ?_
    rintro pair there member ⟨same, converted⟩
    rw [and_iff_right same.symm]
    exact inside pair there member.2 converted
  · refine iff_of_false (fun step => sorted ?_) fun both => sorted both.1
    have sortedNames := names_eq_of_forall₂ (fun _ _ both => both.1) step
    rw [Dictionary.Sorted, ← sortedNames]
    exact Dictionary.Sorted.ofPairs members

private theorem equal_ofJson_iff [BEq φ] {v : Value φ} {j : Json} (converted : v.toJson? = some j) :
    equal (ofJson j) v = true ↔ v.Everywhere Lossless := by
  induction v using parts_induction generalizing j with
  | null | bool | text =>
    cases converted
    refine iff_of_true (by simp [ofJson, equal]) ((everywhere_leaf ?_ ?_).mpr trivial) <;> simp
  | number x =>
    cases converted
    rw [everywhere_leaf (by simp) (by simp)]
    exact equal_ofJson_ofFloat_iff x
  | function f => cases converted
  | list items inside =>
    obtain ⟨documents, each, rfl⟩ := Option.map_eq_some_iff.mp converted
    have here : (Value.list items).Lossless := trivial
    rw [ofJson, equal, ofItems_eq_map, equalItems_iff, List.forall₂_map_left_iff, everywhere_list,
      and_iff_right here]
    exact forall₂_iff_forall_mem (toItems?_eq_some_iff.mp each) fun v member document here =>
      inside v member here
  | object pairs inside =>
    obtain ⟨members, each, rfl⟩ := Option.map_eq_some_iff.mp converted
    rw [Json.ofPairs, ofJson, equal, ofMembers_eq_map, everywhere_object]
    exact equalPairs_ofPairs_iff (toPairs?_eq_some_iff.mp each) fun pair member j =>
      inside pair member

private theorem sorted_iff_bytes {α : Type} {pairs : List (String × α)} :
    Dictionary.Sorted pairs ↔ (pairs.map fun pair => Text.bytes pair.1).Pairwise (· < ·) := by
  simp only [Dictionary.Sorted, Dictionary.names, List.pairwise_map, Text.lt_iff_bytes_lt]

private theorem everywhere_lossless_iff {v : Value φ} :
    v.Everywhere Lossless ↔
      (∀ x, (Value.number x).PartOf v → Number.isFinite x = true) ∧
        ∀ pairs, (Value.object pairs).PartOf v →
          (pairs.map fun pair => Text.bytes pair.1).Pairwise (· < ·) := by
  constructor
  · intro every
    exact ⟨fun x reached => every _ reached,
      fun pairs reached => sorted_iff_bytes.mp (every _ reached)⟩
  · rintro ⟨finite, sorted⟩ part reached
    cases part with
    | number x => exact finite x reached
    | object pairs => exact sorted_iff_bytes.mpr (sorted pairs reached)
    | null | bool | text | list | function => trivial

end Value

/-- A value has no document exactly if a function can be reached in it. Otherwise the value of its
document has the same document, and equals it exactly if every number that can be reached in it is
finite and the names of every object in it increase by their bytes. -/
theorem value_document_round_trip [BEq φ] (v : Value φ) :
    (v.toJson? = none ↔ ∃ f, (Value.function f).PartOf v) ∧
      ∀ j, v.toJson? = some j →
        (Value.ofJson j : Value φ).toJson? = some j ∧
          ((Value.ofJson j == v) = true ↔
            (∀ x, (Value.number x).PartOf v → Number.isFinite x = true) ∧
              ∀ pairs, (Value.object pairs).PartOf v →
                (pairs.map fun pair => Text.bytes pair.1).Pairwise (· < ·)) := by
  refine ⟨Value.toJson?_eq_none_iff, fun j converted => ⟨Value.toJson?_ofJson converted, ?_⟩⟩
  rw [← Value.everywhere_lossless_iff]
  exact Value.equal_ofJson_iff converted

/-- The sign of a zero is lost, but the value of the document is equal; the names of the object
increase by their bytes. -/
theorem negative_zero_round_trip :
    let v : Value Nat := .object [("z", .list [.number (-0.0), .null]), ("é", .object [])]
    let j : Json := .object [("z", .array [.ofInt 0, .null]), ("é", .object [])]
    v.toJson? = some j ∧ (Value.ofJson j : Value Nat).toJson? = some j ∧
      (Value.ofJson j == v) = true := by
  intro v j
  have zero : Json.ofFloat (-0.0) = .ofInt 0 := by
    have found : Number.integer? (-0.0) = some 0 := by decide +kernel
    simp [Json.ofFloat, found, Json.ofInt]
  have sorted {α : Type} (first second : α) :
      Dictionary.Sorted [("z", first), ("é", second)] := by
    simp only [Dictionary.Sorted, Dictionary.names, List.map_cons, List.map_nil]
    decide
  have converted : v.toJson? = some j := by
    change some (Json.ofPairs [("z", .array [.ofFloat (-0.0), .null]), ("é", .object [])]) = some j
    rw [zero, Json.ofPairs, (sorted _ _).ofPairs_eq]
  obtain ⟨_, trip⟩ := value_document_round_trip v
  obtain ⟨again, equal⟩ := trip j converted
  refine ⟨converted, again, equal.mpr (Value.everywhere_lossless_iff.mp ?_)⟩
  have finite : Number.isFinite (-0.0) = true := by decide +kernel
  simp [v, Value.everywhere_object, Value.everywhere_list, Value.everywhere_leaf, Value.Lossless,
    sorted, finite, Dictionary.Sorted.nil]

namespace Dictionary

variable {α : Type}

def entriesUnder (name : String) (pairs : List (String × α)) : List α :=
  (pairs.filter (·.1 = name)).map (·.2)

private theorem find?_eq_head? (name : String) (pairs : List (String × α)) :
    find? name pairs = (entriesUnder name pairs).head? := by
  induction pairs with
  | nil => rfl
  | cons pair rest ih =>
    by_cases same : pair.1 = name
    · simp [find?, entriesUnder, same]
    · simp only [find?, if_neg same, ih]
      simp [entriesUnder, same]

private theorem find?_reverse_eq_getLast? (name : String) (pairs : List (String × α)) :
    find? name pairs.reverse = (entriesUnder name pairs).getLast? := by
  rw [find?_eq_head?, entriesUnder, List.filter_reverse, List.map_reverse, List.head?_reverse]
  rfl

end Dictionary

namespace Value

private theorem get?_eq_head? (name : String) (pairs : List (String × Value φ)) :
    (Value.object pairs).get? name = (Dictionary.entriesUnder name pairs).head? := by
  rw [get?, Dictionary.entriesUnder, List.head?_map, List.head?_filter]

private theorem find?_of_toPairs? {pairs : List (String × Value φ)} {members : List (String × Json)}
    (related : List.Forall₂ (fun pair member => pair.1 = member.1 ∧
      pair.2.toJson? = some member.2) pairs members) (name : String) :
    Dictionary.find? name members = (Dictionary.find? name pairs).bind toJson? := by
  induction related with
  | nil => rfl
  | @cons pair member pairs members here _ ih =>
    obtain ⟨same, converted⟩ := here
    by_cases found : pair.1 = name
    · simp [Dictionary.find?, ← same, found, converted]
    · simp [Dictionary.find?, ← same, found, ih]

private theorem member?_eq_getLast? {pairs : List (String × Value φ)} {j : Json}
    (converted : (Value.object pairs).toJson? = some j) (name : String) :
    j.member? name = (Dictionary.entriesUnder name pairs).getLast?.bind toJson? := by
  obtain ⟨members, each, rfl⟩ := Option.map_eq_some_iff.mp converted
  have related := toPairs?_eq_some_iff.mp each
  have backwards := find?_of_toPairs? (List.forall₂_reverse_iff.mpr related) name
  rw [Json.ofPairs, Json.member?, Dictionary.ofPairs, Dictionary.find?_override, backwards,
    Dictionary.find?_reverse_eq_getLast?]
  exact Option.or_none

private theorem toJson?_isSome_of_entriesUnder {pairs : List (String × Value φ)} {j : Json}
    (converted : (Value.object pairs).toJson? = some j) {name : String} {v : Value φ}
    (entry : v ∈ Dictionary.entriesUnder name pairs) : v.toJson?.isSome = true := by
  obtain ⟨pair, kept, rfl⟩ := List.mem_map.mp entry
  have member : pair ∈ pairs := (List.mem_filter.mp kept).1
  obtain ⟨members, each, _⟩ := Option.map_eq_some_iff.mp converted
  rw [Option.isSome_iff_ne_none]
  intro none
  have lost := toPairs?_eq_none_iff.mpr ⟨pair, member, none⟩
  rw [lost] at each
  cases each

end Value

/-- Lookup in an object and in its document find entries of the same names: lookup the first that
has the name, the document the last. So they agree on names that are not repeated. -/
theorem lookup_first_document_last {pairs : List (String × Value φ)} {j : Json}
    (converted : (Value.object pairs).toJson? = some j) (name : String) :
    let entries := Dictionary.entriesUnder name pairs
    (Value.object pairs).get? name = entries.head? ∧
      j.member? name = entries.getLast?.bind Value.toJson? ∧
      ((Value.object pairs).get? name).isSome = (j.member? name).isSome ∧
      (entries.length ≤ 1 →
        ((Value.object pairs).get? name).bind Value.toJson? = j.member? name) := by
  intro entries
  have first := Value.get?_eq_head? name pairs
  have last := Value.member?_eq_getLast? converted name
  refine ⟨first, last, ?_, ?_⟩
  · rw [first, last]
    cases found : (Dictionary.entriesUnder name pairs).getLast? with
    | none => simp [List.getLast?_eq_none_iff.mp found]
    | some v =>
      have member : v ∈ Dictionary.entriesUnder name pairs := List.mem_of_getLast? found
      have document := Value.toJson?_isSome_of_entriesUnder converted member
      have found : (Dictionary.entriesUnder name pairs).head?.isSome = true :=
        List.isSome_head?.mpr (List.ne_nil_of_mem member)
      simp [found, document]
  · intro single
    have same : entries.head? = entries.getLast? := by
      match entries, single with
      | [], _ => rfl
      | [v], _ => rfl
    rw [first, last, ← same]

/-- A name that is not repeated is looked up beside one that is. -/
theorem lookup_beside_repeated_name :
    let v : Value Nat := .object [("b", .text "x"), ("a", .bool true), ("a", .bool false)]
    let j : Json := .object [("a", .bool false), ("b", .string "x")]
    v.toJson? = some j ∧ j.member? "a" = some (.bool false) ∧
      (v.get? "b").bind Value.toJson? = j.member? "b" := by
  intro v j
  have converted : v.toJson? = some j := by
    show some (Json.ofPairs [("b", .string "x"), ("a", .bool true), ("a", .bool false)]) = some j
    have before : "a" < "b" := by decide
    simp only [Json.ofPairs, Dictionary.ofPairs, Dictionary.override, Dictionary.insert,
      List.foldl_cons, List.foldl_nil, if_pos before, String.reduceEq, if_true, if_false, j]
  have repeated := lookup_first_document_last converted "a"
  have single := lookup_first_document_last converted "b"
  refine ⟨converted, ?_, single.2.2.2 ?_⟩
  · simpa [Dictionary.entriesUnder, Value.toJson?] using repeated.2.1
  · simp [Dictionary.entriesUnder]

/-- Lookup of a repeated name finds an entry that the document does not have. -/
theorem repeated_name_looked_up_first :
    let v : Value Nat := .object [("a", .bool true), ("a", .bool false)]
    let j : Json := .object [("a", .bool false)]
    v.toJson? = some j ∧ v.get? "a" = some (.bool true) ∧
      (Value.bool true : Value Nat).toJson? ≠ j.member? "a" := by
  refine ⟨?_, ?_, ?_⟩
  · rfl
  · rfl
  · simp [Value.toJson?, Json.member?, Dictionary.find?]

end JsonScript
