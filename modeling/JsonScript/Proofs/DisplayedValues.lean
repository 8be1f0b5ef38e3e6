import JsonScript.Proofs.Documents
import JsonScript.Proofs.NumberTexts
import JsonScript.Value

/-!
The displayed text of a value is read as the document of the value.

The text keeps the pairs of an object as they come, and the document has sorted and joined them. The
reader puts each member into a dictionary when it has read it, so that both come to the same.
-/

set_option autoImplicit false
set_option relaxedAutoImplicit false

namespace JsonScript

variable {φ : Type}

namespace Value

mutual

def nesting : Value φ → Nat
  | .null | .bool _ | .number _ | .text _ | .function _ => 0
  | .list items => nestingOfItems items + 1
  | .object pairs => nestingOfPairs pairs + 1

def nestingOfItems : List (Value φ) → Nat
  | [] => 0
  | v :: rest => max v.nesting (nestingOfItems rest)

def nestingOfPairs : List (String × Value φ) → Nat
  | [] => 0
  | (_, v) :: rest => max v.nesting (nestingOfPairs rest)

end

theorem nesting_le_of_mem_items {items : List (Value φ)} {v : Value φ} (member : v ∈ items) :
    v.nesting ≤ nestingOfItems items := by
  induction items with
  | nil => cases member
  | cons first rest ih =>
    rw [nestingOfItems]
    rcases List.mem_cons.mp member with rfl | later
    · exact Nat.le_max_left _ _
    · exact (ih later).trans (Nat.le_max_right _ _)

private theorem nestingOfPairs_eq (pairs : List (String × Value φ)) :
    nestingOfPairs pairs = nestingOfItems (pairs.map (·.2)) := by
  induction pairs with
  | nil => rfl
  | cons pair rest ih => rw [nestingOfPairs, List.map_cons, nestingOfItems, ih]

theorem nesting_le_of_mem_pairs {pairs : List (String × Value φ)} {pair : String × Value φ}
    (member : pair ∈ pairs) : pair.2.nesting ≤ nestingOfPairs pairs := by
  rw [nestingOfPairs_eq]
  exact nesting_le_of_mem_items (List.mem_map_of_mem member)

end Value

open Json (SpelledBy)

private theorem toList_displayItems (items : List (Value φ)) :
    (Value.displayItems items).toList = SpelledBy.itemsText (items.map (·.display.toList)) := by
  induction items with
  | nil => rfl
  | cons v rest ih =>
    cases rest with
    | nil => rfl
    | cons next rest =>
      rw [List.map_cons] at ih
      rw [Value.displayItems, List.map_cons, List.map_cons, SpelledBy.itemsText, ← ih]
      simp

private theorem toList_displayPairs (pairs : List (String × Value φ)) :
    (Value.displayPairs pairs).toList =
      SpelledBy.membersText (pairs.map fun pair => (pair.1, pair.2.display.toList)) := by
  induction pairs with
  | nil => rfl
  | cons pair rest ih =>
    cases rest with
    | nil => simp [Value.displayPairs, SpelledBy.membersText]
    | cons next rest =>
      rw [List.map_cons] at ih
      rw [Value.displayPairs, List.map_cons, List.map_cons, SpelledBy.membersText, ← ih]
      simp

private theorem significand_pos {x : Float} {negative : Bool} {significand : Nat} {exponent : Int}
    (shown : Number.form x = .finite negative significand exponent)
    (fractional : Number.integer? x = none) : 0 < significand := by
  rw [Nat.pos_iff_ne_zero]
  rintro rfl
  have whole : Number.wholeMagnitude? 0 exponent = some 0 := by
    cases exponent <;> simp [Number.wholeMagnitude?]
  simp [Number.integer?, shown, whole] at fractional

private theorem Json.SpelledBy.ofFloat (x : Float) (depth : Nat) :
    (Json.ofFloat x).SpelledBy depth (Json.ofFloat x).render.toList := by
  unfold Json.ofFloat
  cases whole : Number.integer? x with
  | some n =>
    have safe := Number.natAbs_le_of_integer? whole
    unfold Number.safeLimit at safe
    exact .number (.integer (by omega) (by omega))
  | none =>
    cases shown : Number.form x with
    | finite negative significand exponent =>
      have finite : Number.isFinite x = true := by rw [Number.isFinite, shown]
      simp only [finite, if_true]
      exact .number (.float shown (significand_pos shown whole))
    | nan | infinite =>
      have none : Number.isFinite x = false := by rw [Number.isFinite, shown]
      simp only [none, Bool.false_eq_true, if_false]
      exact .null

theorem Value.display_spells {v : Value φ} {document : Json}
    (converted : v.toJson? = some document) :
    document.SpelledBy v.nesting v.display.toList := by
  induction v using Value.parts_induction generalizing document with
  | null =>
    cases converted
    exact .null
  | bool b =>
    cases converted
    have spelled := @SpelledBy.bool 0 b
    cases b <;> exact spelled
  | number x =>
    cases converted
    exact .ofFloat x 0
  | text s =>
    cases converted
    exact .string s
  | function f => cases converted
  | list items inside =>
    obtain ⟨documents, each, rfl⟩ := Option.map_eq_some_iff.mp converted
    have members := (List.forall₂_and_left _ _).mpr ⟨fun _ => id, toItems?_eq_some_iff.mp each⟩
    have spelled : List.Forall₂
        (fun document text => document.SpelledBy (nestingOfItems items) text)
        documents (items.map (·.display.toList)) := by
      rw [List.forall₂_map_right_iff]
      refine (members.imp ?_).flip
      rintro v document ⟨member, here⟩
      exact (inside v member here).mono (nesting_le_of_mem_items member)
    have text : (Value.list items).display.toList =
        '[' :: SpelledBy.itemsText (items.map (·.display.toList)) ++ [']'] := by
      rw [← toList_displayItems]
      simp [display]
    rw [text]
    exact .array spelled
  | object pairs inside =>
    obtain ⟨entries, each, rfl⟩ := Option.map_eq_some_iff.mp converted
    have members := (List.forall₂_and_left _ _).mpr ⟨fun _ => id, toPairs?_eq_some_iff.mp each⟩
    have spelled : List.Forall₂ (fun entry text => entry.1 = text.1 ∧
        entry.2.SpelledBy (nestingOfPairs pairs) text.2)
        entries (pairs.map fun pair => (pair.1, pair.2.display.toList)) := by
      rw [List.forall₂_map_right_iff]
      refine (members.imp ?_).flip
      rintro pair entry ⟨member, name, here⟩
      exact ⟨name.symm, (inside pair member here).mono (nesting_le_of_mem_pairs member)⟩
    have text : (Value.object pairs).display.toList =
        '{' :: SpelledBy.membersText (pairs.map fun pair => (pair.1, pair.2.display.toList)) ++
          ['}'] := by
      rw [← toList_displayPairs]
      simp [display]
    rw [text]
    exact .object spelled

/-- A value in which no function can be reached has a document. If at most 127 of its lists and
objects stand inside each other, its displayed text is read as this document. -/
theorem displayed_value_read_as_document (v : Value φ) (free : v.FunctionFree)
    (shallow : v.nesting ≤ 127) :
    ∃ document, v.toJson? = some document ∧ Json.read v.display = .ok document := by
  cases converted : v.toJson? with
  | none =>
    obtain ⟨f, reached⟩ := Value.toJson?_eq_none_iff.mp converted
    exact absurd reached (free f)
  | some document => exact ⟨document, rfl, (Value.display_spells converted).read shallow⟩

/-- The pairs are displayed as they come, and the last of two pairs of one name is read. -/
theorem displayed_pairs_read_by_name :
    let v : Value Nat := .object [("b", .list [.number (0.0 / 0.0), .number (-0.1)]),
      ("\n\"", .text "\\"), ("b", .list [.number 5.0, .number 1e300, .object []])]
    v.FunctionFree ∧ v.nesting ≤ 127 ∧
      v.display = "\x7b\"b\":[null,-0.1],\"\\n\\\"\":\"\\\\\",\"b\":[5,1e+300,\x7b\x7d]\x7d" ∧
      Json.read v.display = .ok (.object [("\n\"", .string "\\"),
        ("b", .array [.ofInt 5, .number (.float 1e300), .object []])]) := by
  intro v
  have free : v.FunctionFree := by
    simp [v, Value.functionFree_object, Value.functionFree_list, Value.functionFree_number,
      Value.functionFree_text]
  have shallow : v.nesting ≤ 127 := by decide
  refine ⟨free, shallow, by decide +kernel, ?_⟩
  have joined (first second third : Json) :
      Json.ofPairs [("b", first), ("\n\"", second), ("b", third)] =
        .object [("\n\"", second), ("b", third)] := by
    have before : "\n\"" < "b" ∧ ¬"b" < "\n\"" := by decide
    simp [Json.ofPairs, Dictionary.ofPairs, Dictionary.override, Dictionary.insert, before]
  have five : Json.ofFloat 5.0 = .ofInt 5 := by
    have found : Number.integer? 5.0 = some 5 := by decide +kernel
    simp [Json.ofFloat, found, Json.ofInt]
  have huge : Json.ofFloat 1e300 = .number (.float 1e300) := by
    have beyond : Number.integer? 1e300 = none := by decide +kernel
    have finite : Number.isFinite 1e300 = true := by decide +kernel
    simp [Json.ofFloat, beyond, finite]
  obtain ⟨document, converted, read⟩ := displayed_value_read_as_document v free shallow
  change some (Json.ofPairs [("b", .array [.ofFloat (0.0 / 0.0), .ofFloat (-0.1)]),
    ("\n\"", .string "\\"), ("b", .array [.ofFloat 5.0, .ofFloat 1e300, .object []])]) =
      some document at converted
  rw [joined, five, huge, Option.some_inj] at converted
  rw [read, converted]

end JsonScript
