import Mathlib
import JsonScript.Probe.Natives
import JsonScript.Proofs.Values
import JsonScript.Value

/-!
Laws of equality of values.

Equality is symmetric and transitive as soon as equality of functions is, and a value is equal to
itself unless NaN can be reached in it. Equal values need not be the same, since there are two
zeros, but neither their kind, their truth, their text nor their document tells them apart.
-/

set_option autoImplicit false
set_option relaxedAutoImplicit false

namespace JsonScript

namespace Number

private theorem beq_comm_of {x y : Float} (equal : (x == y) = true) : (y == x) = true := by
  obtain ⟨left, right, same | ⟨h, h'⟩ | ⟨h, h'⟩⟩ := Float.beq_iff_ne_nan_and_eq.mp equal
  · exact Float.beq_iff_ne_nan_and_eq.mpr ⟨right, left, .inl same.symm⟩
  · exact Float.beq_iff_ne_nan_and_eq.mpr ⟨right, left, .inr (.inr ⟨h', h⟩)⟩
  · exact Float.beq_iff_ne_nan_and_eq.mpr ⟨right, left, .inr (.inl ⟨h', h⟩)⟩

private theorem congr_of_beq {α : Type} {f : Float → α} (zero : f 0 = f (-0)) {x y : Float}
    (equal : (x == y) = true) : f x = f y := by
  obtain ⟨_, _, rfl | ⟨rfl, rfl⟩ | ⟨rfl, rfl⟩⟩ := Float.beq_iff_ne_nan_and_eq.mp equal
  · rfl
  · exact zero
  · exact zero.symm

private theorem beq_trans_of {x y z : Float} (first : (x == y) = true) (second : (y == z) = true) :
    (x == z) = true := by
  -- If the second step changes the sign of a zero, comparison with its end does not depend on it.
  have unsigned (zero : z = 0 ∨ z = -0) : (x == z) = true := by
    have signs : ((0 : Float) == z) = (-0 == z) := by
      rcases zero with rfl | rfl <;> decide +kernel
    have moved : (x == z) = (y == z) := congr_of_beq (f := (· == z)) signs first
    rw [moved, second]
  obtain ⟨_, _, rfl | ⟨_, zero⟩ | ⟨_, zero⟩⟩ := Float.beq_iff_ne_nan_and_eq.mp second
  · exact first
  · exact unsigned (.inr zero)
  · exact unsigned (.inl zero)

end Number

theorem Json.ofFloat_congr {x y : Float} (equal : (x == y) = true) :
    Json.ofFloat x = Json.ofFloat y := by
  have positive : Number.integer? 0 = some 0 := by decide +kernel
  have negative : Number.integer? (-0) = some 0 := by decide +kernel
  apply Number.congr_of_beq _ equal
  simp only [Json.ofFloat, positive, negative]

namespace Value

variable {φ : Type}

section Equality

variable [BEq φ]

/-- A relation holds between equal values when it holds between equal values without parts, between
lists whose items are equal and related, and between objects whose entries are. -/
theorem equal_induction {motive : ∀ u v : Value φ, equal u v = true → Prop}
    (null : ∀ same, motive .null .null same)
    (bool : ∀ b same, motive (.bool b) (.bool b) same)
    (number : ∀ x y same, motive (.number x) (.number y) same)
    (text : ∀ s same, motive (.text s) (.text s) same)
    (list : ∀ items others same, List.Forall₂ (fun v w => ∃ here, motive v w here) items others →
      motive (.list items) (.list others) same)
    (object : ∀ pairs others same,
      List.Forall₂ (fun pair other => pair.1 = other.1 ∧ ∃ here, motive pair.2 other.2 here)
        pairs others →
      motive (.object pairs) (.object others) same)
    (function : ∀ f g same, motive (.function f) (.function g) same)
    (u v : Value φ) (same : equal u v = true) : motive u v same := by
  induction u using parts_induction generalizing v with
  | null =>
    cases v with
    | null => exact null same
    | _ => simp [equal] at same
  | bool b =>
    cases v with
    | bool c =>
      obtain rfl : b = c := by simpa [equal] using same
      exact bool b same
    | _ => simp [equal] at same
  | number x =>
    cases v with
    | number y => exact number x y same
    | _ => simp [equal] at same
  | text s =>
    cases v with
    | text t =>
      obtain rfl : s = t := by simpa [equal] using same
      exact text s same
    | _ => simp [equal] at same
  | function f =>
    cases v with
    | function g => exact function f g same
    | _ => simp [equal] at same
  | list items inside =>
    cases v with
    | list others =>
      have each := equalItems_iff.mp same
      apply list
      refine ((List.forall₂_and_left items others).mpr ⟨inside, each⟩).imp ?_
      intro v w both
      exact ⟨both.2, both.1 w both.2⟩
    | _ => simp [equal] at same
  | object pairs inside =>
    cases v with
    | object others =>
      have each := equalPairs_iff.mp same
      apply object
      refine ((List.forall₂_and_left pairs others).mpr ⟨inside, each⟩).imp ?_
      intro pair other both
      exact ⟨both.2.1, both.2.2, both.1 other.2 both.2.2⟩
    | _ => simp [equal] at same

theorem equal_comm_of [PartialEquivBEq φ] {u v : Value φ} (same : equal u v = true) :
    equal v u = true := by
  induction u, v, same using equal_induction with
  | null => rfl
  | bool b => simp [equal]
  | number x y same => exact Number.beq_comm_of same
  | text s => simp [equal]
  | list items others _ each =>
    rw [equal, equalItems_iff]
    apply List.Forall₂.flip
    exact each.imp fun _ _ ⟨_, back⟩ => back
  | object pairs others _ each =>
    rw [equal, equalPairs_iff]
    apply List.Forall₂.flip
    exact each.imp fun _ _ ⟨name, _, back⟩ => ⟨name.symm, back⟩
  | function f g same => exact PartialEquivBEq.symm same

private theorem forall₂_trans {α : Type} {R S : α → α → Prop} {xs ys zs : List α}
    (first : List.Forall₂ (fun x y => ∀ z, R y z → S x z) xs ys) (second : List.Forall₂ R ys zs) :
    List.Forall₂ S xs zs := by
  induction first generalizing zs with
  | nil =>
    cases second
    exact .nil
  | cons here _ ih =>
    cases second with
    | cons next rest => exact .cons (here _ next) (ih rest)

theorem equal_trans_of [PartialEquivBEq φ] {u v w : Value φ} (first : equal u v = true)
    (second : equal v w = true) : equal u w = true := by
  induction u, v, first using equal_induction generalizing w with
  | null | bool | text => exact second
  | number x y first =>
    cases w with
    | number z => exact Number.beq_trans_of first second
    | _ => simp [equal] at second
  | list items others _ each =>
    cases w with
    | list further =>
      rw [equal, equalItems_iff] at second ⊢
      exact forall₂_trans (each.imp fun _ _ ⟨_, onward⟩ _ => onward) second
    | _ => simp [equal] at second
  | object pairs others _ each =>
    cases w with
    | object further =>
      rw [equal, equalPairs_iff] at second ⊢
      refine forall₂_trans (each.imp ?_) second
      intro pair other ⟨name, _, onward⟩ third ⟨next, same⟩
      exact ⟨name.trans next, onward same⟩
    | _ => simp [equal] at second
  | function f g first =>
    cases w with
    | function h => exact PartialEquivBEq.trans first second
    | _ => simp [equal] at second

theorem equal_self_iff [ReflBEq φ] (v : Value φ) :
    equal v v = true ↔ v.Everywhere fun part => ∀ x, part = .number x → ¬x.isNaN = true := by
  induction v using parts_induction with
  | null | bool | number | text | function => simp [equal, everywhere_leaf]
  | list items inside =>
    rw [equal, equalItems_iff, List.forall₂_same, everywhere_list]
    simp only [reduceCtorEq, false_implies, implies_true, true_and]
    exact forall₂_congr inside
  | object pairs inside =>
    rw [equal, equalPairs_iff, List.forall₂_same, everywhere_object]
    simp only [reduceCtorEq, false_implies, implies_true, true_and]
    exact forall₂_congr inside

theorem typeName_eq_of_equal {u v : Value φ} (same : equal u v = true) :
    u.typeName = v.typeName := by
  induction u, v, same using equal_induction <;> rfl

theorem isTruthy_eq_of_equal {u v : Value φ} (same : equal u v = true) :
    u.isTruthy = v.isTruthy := by
  induction u, v, same using equal_induction with
  | null | bool | text | function => rfl
  | number x y same =>
    have zero : (Value.number 0 : Value φ).isTruthy = (Value.number (-0) : Value φ).isTruthy := by
      simp only [isTruthy]
      decide +kernel
    exact Number.congr_of_beq (f := fun x => (Value.number x : Value φ).isTruthy) zero same
  | list items others _ each => cases each <;> rfl
  | object pairs others _ each => cases each <;> rfl

omit [BEq φ] in
private theorem displayItems_congr {items others : List (Value φ)}
    (each : List.Forall₂ (fun v w => v.display = w.display) items others) :
    displayItems items = displayItems others := by
  induction each with
  | nil => rfl
  | cons here rest ih =>
    cases rest with
    | nil => simpa [displayItems] using here
    | cons next rest => rw [displayItems, displayItems, here, ih]

omit [BEq φ] in
private theorem displayPairs_congr {pairs others : List (String × Value φ)}
    (each : List.Forall₂ (fun pair other => pair.1 = other.1 ∧ pair.2.display = other.2.display)
      pairs others) :
    displayPairs pairs = displayPairs others := by
  induction each with
  | nil => rfl
  | cons here rest ih =>
    cases rest with
    | nil => rw [displayPairs, displayPairs, here.1, here.2]
    | cons next rest => rw [displayPairs, displayPairs, here.1, here.2, ih]

theorem display_eq_of_equal {u v : Value φ} (same : equal u v = true) :
    u.display = v.display := by
  induction u, v, same using equal_induction with
  | null | bool | text => rfl
  | function => rw [display, display]
  | number x y same => rw [display, display, Json.ofFloat_congr same]
  | list items others _ each =>
    have texts := displayItems_congr (each.imp fun _ _ ⟨_, shown⟩ => shown)
    rw [display, display, texts]
  | object pairs others _ each =>
    have texts := displayPairs_congr (each.imp fun _ _ ⟨name, _, shown⟩ => ⟨name, shown⟩)
    rw [display, display, texts]

omit [BEq φ] in
private theorem toItems?_congr {items others : List (Value φ)}
    (each : List.Forall₂ (fun v w => v.toJson? = w.toJson?) items others) :
    toItems? items = toItems? others := by
  induction each with
  | nil => rfl
  | cons here _ ih => rw [toItems?, toItems?, here, ih]

omit [BEq φ] in
private theorem toPairs?_congr {pairs others : List (String × Value φ)}
    (each : List.Forall₂ (fun pair other => pair.1 = other.1 ∧ pair.2.toJson? = other.2.toJson?)
      pairs others) :
    toPairs? pairs = toPairs? others := by
  induction each with
  | nil => rfl
  | cons here _ ih => rw [toPairs?, toPairs?, here.1, here.2, ih]

theorem toJson?_eq_of_equal {u v : Value φ} (same : equal u v = true) :
    u.toJson? = v.toJson? := by
  induction u, v, same using equal_induction with
  | null | bool | text | function => rfl
  | number x y same => rw [toJson?, toJson?, Json.ofFloat_congr same]
  | list items others _ each =>
    have documents := toItems?_congr (each.imp fun _ _ ⟨_, document⟩ => document)
    rw [toJson?, toJson?, documents]
  | object pairs others _ each =>
    have documents := toPairs?_congr (each.imp fun _ _ ⟨name, _, document⟩ => ⟨name, document⟩)
    rw [toJson?, toJson?, documents]

end Equality

end Value

/-- Equality of values is symmetric and transitive. A value is equal to itself exactly if NaN cannot
be reached in it. Equal values, such as the two zeros, have the same kind, truth, text and
document. -/
theorem value_equality_laws {φ : Type} [BEq φ] [EquivBEq φ] :
    (∀ u v : Value φ, (u == v) = true → (v == u) = true) ∧
      (∀ u v w : Value φ, (u == v) = true → (v == w) = true → (u == w) = true) ∧
      (∀ v : Value φ,
        (v == v) = true ↔ ¬∃ x : Float, x.isNaN = true ∧ (Value.number x).PartOf v) ∧
      (∀ u v : Value φ, (u == v) = true →
        u.typeName = v.typeName ∧ u.isTruthy = v.isTruthy ∧ u.display = v.display ∧
          u.toJson? = v.toJson?) ∧
      ((Value.number 0.0 : Value φ) == .number (-0.0)) = true := by
  refine ⟨?_, ?_, ?_, ?_, ?_⟩
  · intro u v same
    exact Value.equal_comm_of same
  · intro u v w first second
    exact Value.equal_trans_of first second
  · intro v
    refine (Value.equal_self_iff v).trans ⟨?_, ?_⟩
    · rintro every ⟨x, nan, reached⟩
      exact every _ reached x rfl nan
    · rintro none part reached x rfl nan
      exact none ⟨x, nan, reached⟩
  · intro u v same
    exact ⟨Value.typeName_eq_of_equal same, Value.isTruthy_eq_of_equal same,
      Value.display_eq_of_equal same, Value.toJson?_eq_of_equal same⟩
  · show ((0.0 : Float) == -0.0) = true
    decide +kernel

namespace Probe.Closure

private theorem beq_iff {f g : Closure} : (f == g) = true ↔ f.identity = g.identity :=
  beq_iff_eq (α := Identity)

instance : EquivBEq Closure where
  symm same := beq_iff.mpr (beq_iff.mp same).symm
  trans first second := beq_iff.mpr ((beq_iff.mp first).trans (beq_iff.mp second))
  rfl := beq_iff.mpr rfl

end Probe.Closure

/-- The sign of a zero in a list in an object is not seen, and neither is NaN in a function. -/
theorem signed_zeros_indistinguishable :
    let holding (x : Float) : Value Probe.Closure :=
      .object [("f", .function (.constant 7 (.number Float.nan))), ("xs", .list [.number x])]
    (holding 0.0 == holding (-0.0)) = true ∧ (holding (-0.0) == holding 0.0) = true ∧
      (holding 0.0 == holding 0.0) = true ∧
      (holding 0.0).display = (holding (-0.0)).display ∧
      (holding 0.0).toJson? = (holding (-0.0)).toJson? ∧
      ¬(holding Float.nan == holding Float.nan) = true := by
  intro holding
  obtain ⟨symm, trans, self, alike, zeros⟩ := value_equality_laws (φ := Probe.Closure)
  have same : (holding 0.0 == holding (-0.0)) = true := by
    have number : ((0.0 : Float) == -0.0) = true := zeros
    show Value.equal (holding 0.0) (holding (-0.0)) = true
    simpa [holding, Value.equal, Value.equalPairs, Value.equalItems] using number
  have back := symm _ _ same
  obtain ⟨_, _, shown, document⟩ := alike _ _ same
  refine ⟨same, back, trans _ _ _ same back, shown, document, ?_⟩
  intro equal
  have nan : Float.nan.isNaN = true := by decide +kernel
  have item : (Value.number Float.nan).PartOf (.list [.number Float.nan] : Value Probe.Closure) :=
    .item List.mem_cons_self .self
  have entry : (Value.number Float.nan).PartOf (holding Float.nan) :=
    .entry (List.mem_cons_of_mem _ List.mem_cons_self) item
  exact (self _).mp equal ⟨Float.nan, nan, entry⟩

end JsonScript
