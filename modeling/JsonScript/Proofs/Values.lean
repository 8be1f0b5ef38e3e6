import JsonScript.Value
import Mathlib.Data.List.Forall2

/-!
Values and their parts.

A value is made of the items of lists and of the entries of objects, at any depth. Laws about
values are proved part by part, and conversion and comparison relate lists item by item.
-/

set_option autoImplicit false
set_option relaxedAutoImplicit false

namespace JsonScript.Value

variable {φ : Type}

/-- A law of values holds of every value when it holds of each list whose items obey it and of each
object whose entries do. -/
theorem parts_induction {motive : Value φ → Prop} (null : motive .null)
    (bool : ∀ b, motive (.bool b)) (number : ∀ x, motive (.number x))
    (text : ∀ s, motive (.text s))
    (list : ∀ items, (∀ v ∈ items, motive v) → motive (.list items))
    (object : ∀ pairs, (∀ pair ∈ pairs, motive pair.2) → motive (.object pairs))
    (function : ∀ f, motive (.function f)) (v : Value φ) : motive v := by
  refine @Value.rec φ motive (fun items => ∀ v ∈ items, motive v)
    (fun pairs => ∀ pair ∈ pairs, motive pair.2) (fun pair => motive pair.2)
    null bool number text list object function ?_ ?_ ?_ ?_ ?_ v
  · exact fun _ none => nomatch none
  · exact fun _ _ first rest => List.forall_mem_cons.mpr ⟨first, rest⟩
  · exact fun _ none => nomatch none
  · exact fun _ _ first rest => List.forall_mem_cons.mpr ⟨first, rest⟩
  · exact fun _ _ entry => entry

/-- What can be reached in a value: the value itself, and what can be reached in its items or
entries. -/
inductive PartOf (part : Value φ) : Value φ → Prop where
  | self : PartOf part part
  | item {items : List (Value φ)} {v : Value φ} (member : v ∈ items) (inside : PartOf part v) :
      PartOf part (.list items)
  | entry {pairs : List (String × Value φ)} {pair : String × Value φ} (member : pair ∈ pairs)
      (inside : PartOf part pair.2) : PartOf part (.object pairs)

def Everywhere (P : Value φ → Prop) (v : Value φ) : Prop :=
  ∀ part : Value φ, part.PartOf v → P part

variable {P : Value φ → Prop}

theorem everywhere_list {items : List (Value φ)} :
    (Value.list items).Everywhere P ↔ P (.list items) ∧ ∀ v ∈ items, v.Everywhere P := by
  constructor
  · intro every
    exact ⟨every _ .self, fun v member part inside => every part (.item member inside)⟩
  · rintro ⟨here, inside⟩ part reached
    cases reached with
    | self => exact here
    | item member reached => exact inside _ member part reached

theorem everywhere_object {pairs : List (String × Value φ)} :
    (Value.object pairs).Everywhere P ↔
      P (.object pairs) ∧ ∀ pair ∈ pairs, pair.2.Everywhere P := by
  constructor
  · intro every
    exact ⟨every _ .self, fun pair member part inside => every part (.entry member inside)⟩
  · rintro ⟨here, inside⟩ part reached
    cases reached with
    | self => exact here
    | entry member reached => exact inside _ member part reached

theorem everywhere_leaf {v : Value φ} (lists : ∀ items, v ≠ .list items)
    (objects : ∀ pairs, v ≠ .object pairs) : v.Everywhere P ↔ P v := by
  refine ⟨fun every => every v .self, fun here part reached => ?_⟩
  cases reached with
  | self => exact here
  | item member _ => exact absurd rfl (lists _)
  | entry member _ => exact absurd rfl (objects _)

def FunctionFree (v : Value φ) : Prop :=
  ∀ f, ¬(Value.function f).PartOf v

theorem functionFree_iff {v : Value φ} :
    v.FunctionFree ↔ v.Everywhere fun part => ∀ f, part ≠ .function f := by
  constructor
  · rintro free _ reached f rfl
    exact free f reached
  · exact fun every f reached => every _ reached f rfl

theorem functionFree_list {items : List (Value φ)} :
    (Value.list items).FunctionFree ↔ ∀ v ∈ items, v.FunctionFree := by
  simp only [functionFree_iff, everywhere_list]
  simp

theorem functionFree_object {pairs : List (String × Value φ)} :
    (Value.object pairs).FunctionFree ↔ ∀ pair ∈ pairs, pair.2.FunctionFree := by
  simp only [functionFree_iff, everywhere_object]
  simp

theorem functionFree_leaf {v : Value φ} (lists : ∀ items, v ≠ .list items)
    (objects : ∀ pairs, v ≠ .object pairs) (functions : ∀ f, v ≠ .function f) :
    v.FunctionFree :=
  functionFree_iff.mpr ((everywhere_leaf lists objects).mpr functions)

theorem functionFree_null : (Value.null : Value φ).FunctionFree :=
  functionFree_leaf nofun nofun nofun

theorem functionFree_bool (b : Bool) : (Value.bool b : Value φ).FunctionFree :=
  functionFree_leaf nofun nofun nofun

theorem functionFree_number (x : Float) : (Value.number x : Value φ).FunctionFree :=
  functionFree_leaf nofun nofun nofun

theorem functionFree_text (s : String) : (Value.text s : Value φ).FunctionFree :=
  functionFree_leaf nofun nofun nofun

@[simp] theorem ofItems_eq_map (documents : List Json) :
    (ofItems documents : List (Value φ)) = documents.map ofJson := by
  induction documents with
  | nil => rfl
  | cons document rest ih => rw [ofItems, ih, List.map_cons]

@[simp] theorem ofMembers_eq_map (members : List (String × Json)) :
    (ofMembers members : List (String × Value φ)) =
      members.map fun member => (member.1, ofJson member.2) := by
  induction members with
  | nil => rfl
  | cons member rest ih => rw [ofMembers, ih, List.map_cons]

theorem functionFree_ofJson (document : Json) : (ofJson document : Value φ).FunctionFree := by
  refine @Json.rec (fun document => (ofJson document : Value φ).FunctionFree)
    (fun documents => ∀ document ∈ documents, (ofJson document : Value φ).FunctionFree)
    (fun members => ∀ member ∈ members, (ofJson member.2 : Value φ).FunctionFree)
    (fun member => (ofJson member.2 : Value φ).FunctionFree)
    ?_ ?_ ?_ ?_ ?_ ?_ ?_ ?_ ?_ ?_ ?_ document
  · exact functionFree_null
  · exact functionFree_bool
  · exact fun n => functionFree_number n.toFloat
  · exact functionFree_text
  · intro documents each
    rw [ofJson, functionFree_list, ofItems_eq_map]
    exact List.forall_mem_map.mpr each
  · intro members each
    rw [ofJson, functionFree_object, ofMembers_eq_map]
    exact List.forall_mem_map.mpr each
  · exact fun _ none => nomatch none
  · exact fun _ _ first rest => List.forall_mem_cons.mpr ⟨first, rest⟩
  · exact fun _ none => nomatch none
  · exact fun _ _ first rest => List.forall_mem_cons.mpr ⟨first, rest⟩
  · exact fun _ _ entry => entry

theorem toItems?_eq_some_iff {items : List (Value φ)} {documents : List Json} :
    toItems? items = some documents ↔
      List.Forall₂ (fun v document => v.toJson? = some document) items documents := by
  induction items generalizing documents with
  | nil => simp [toItems?, eq_comm]
  | cons v rest ih =>
    rw [toItems?, List.forall₂_cons_left_iff]
    simp only [Option.bind_eq_some_iff, Option.map_eq_some_iff, ih]
    constructor
    · rintro ⟨document, here, later, converted, rfl⟩
      exact ⟨document, later, here, converted, rfl⟩
    · rintro ⟨document, later, here, converted, rfl⟩
      exact ⟨document, here, later, converted, rfl⟩

theorem toPairs?_eq_some_iff {pairs : List (String × Value φ)} {members : List (String × Json)} :
    toPairs? pairs = some members ↔
      List.Forall₂ (fun pair member => pair.1 = member.1 ∧ pair.2.toJson? = some member.2)
        pairs members := by
  induction pairs generalizing members with
  | nil => simp [toPairs?, eq_comm]
  | cons pair rest ih =>
    obtain ⟨name, v⟩ := pair
    rw [toPairs?, List.forall₂_cons_left_iff]
    simp only [Option.bind_eq_some_iff, Option.map_eq_some_iff, ih]
    constructor
    · rintro ⟨document, here, later, converted, rfl⟩
      exact ⟨(name, document), later, ⟨rfl, here⟩, converted, rfl⟩
    · rintro ⟨⟨other, document⟩, later, ⟨same, here⟩, converted, rfl⟩
      obtain rfl : name = other := same
      exact ⟨document, here, later, converted, rfl⟩

theorem toItems?_eq_none_iff {items : List (Value φ)} :
    toItems? items = none ↔ ∃ v ∈ items, v.toJson? = none := by
  induction items with
  | nil => simp [toItems?]
  | cons v rest ih =>
    rw [toItems?]
    cases here : v.toJson? with
    | none => simp [here]
    | some document => simpa [here] using ih

theorem toPairs?_eq_none_iff {pairs : List (String × Value φ)} :
    toPairs? pairs = none ↔ ∃ pair ∈ pairs, pair.2.toJson? = none := by
  induction pairs with
  | nil => simp [toPairs?]
  | cons pair rest ih =>
    obtain ⟨name, v⟩ := pair
    rw [toPairs?]
    cases here : v.toJson? with
    | none => simp [here]
    | some document => simpa [here] using ih

theorem equalItems_iff [BEq φ] {items others : List (Value φ)} :
    equalItems items others = true ↔ List.Forall₂ (fun v w => equal v w = true) items others := by
  induction items generalizing others with
  | nil => cases others <;> simp [equalItems]
  | cons v rest ih => cases others <;> simp [equalItems, ih]

theorem equalPairs_iff [BEq φ] {pairs others : List (String × Value φ)} :
    equalPairs pairs others = true ↔
      List.Forall₂ (fun pair other => pair.1 = other.1 ∧ equal pair.2 other.2 = true)
        pairs others := by
  induction pairs generalizing others with
  | nil => cases others <;> simp [equalPairs]
  | cons pair rest ih => cases others <;> simp [equalPairs, ih]

end JsonScript.Value
