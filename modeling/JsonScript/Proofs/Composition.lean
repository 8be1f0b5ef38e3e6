import JsonScript.Proofs.Sandboxes

/-!
Composition of sandboxes.

Sandboxes that a host can build form an idempotent monoid under merging, with the order of their
signatures. A merge into nothing takes a shortcut, which is right because a sandbox that binds
nothing publishes nothing. It follows what a composition of boxes means: each name has the meaning
that the last box gives it, and the signatures are those that no later box has overridden.
-/

set_option autoImplicit false
set_option relaxedAutoImplicit false

namespace JsonScript

variable {φ ε : Type}

namespace Sandbox

/-- The bindings and signatures of the second sandbox over those of the first, without a shortcut
for a first sandbox that binds nothing. -/
def overlay (s t : Sandbox φ ε) : Sandbox φ ε where
  bindings := Dictionary.override s.bindings t.bindings
  signatures := s.signatures.filter (fun g => !t.contains g.name) ++ t.signatures

@[simp] theorem find?_empty (name : String) : (empty : Sandbox φ ε).find? name = none :=
  rfl

@[simp] theorem contains_empty (name : String) : (empty : Sandbox φ ε).contains name = false :=
  rfl

@[simp] theorem signatures_empty : (empty : Sandbox φ ε).signatures = [] :=
  rfl

namespace Documented

variable {s t u : Sandbox φ ε}

theorem ext (first : s.Documented) (second : t.Documented)
    (bindings : ∀ name, s.find? name = t.find? name) (signatures : s.signatures = t.signatures) :
    s = t := by
  have entries : s.bindings = t.bindings := first.sorted.ext second.sorted bindings
  obtain ⟨bound, published⟩ := s
  obtain ⟨bound', published'⟩ := t
  cases entries
  cases signatures
  rfl

theorem contains_of_published (documented : s.Documented) {g : Signature}
    (published : g ∈ s.signatures) : s.contains g.name = true := by
  obtain ⟨native, bound⟩ := documented.callable g published
  rw [contains, bound]
  rfl

theorem signatures_eq_nil (documented : s.Documented) (nothing : s.isEmpty = true) :
    s.signatures = [] := by
  refine List.eq_nil_iff_forall_not_mem.mpr fun g published => ?_
  have unbound : s.find? g.name = none := by
    rw [find?, List.isEmpty_iff.mp nothing]
    rfl
  have bound := documented.contains_of_published published
  rw [contains, unbound] at bound
  cases bound

theorem merge_eq_overlay (first : s.Documented) (second : t.Documented) :
    s.merge t = s.overlay t := by
  unfold Sandbox.merge
  split
  · rename_i nothing
    have bindings : Dictionary.override s.bindings t.bindings = t.bindings := by
      rw [List.isEmpty_iff.mp nothing]
      exact second.sorted.ofPairs_eq
    rw [overlay, bindings, first.signatures_eq_nil nothing]
    rfl
  · rfl

theorem contains_merge (second : t.Documented) (s : Sandbox φ ε) (name : String) :
    (s.merge t).contains name = (t.contains name || s.contains name) := by
  rw [contains, s.find?_merge second.sorted, Option.isSome_or]
  rfl

theorem signatures_merge (first : s.Documented) (second : t.Documented) :
    (s.merge t).signatures =
      s.signatures.filter (fun g => !t.contains g.name) ++ t.signatures := by
  rw [first.merge_eq_overlay second]
  rfl

theorem merge_empty (documented : s.Documented) : s.merge Sandbox.empty = s := by
  refine (documented.merge .empty).ext documented ?_ ?_
  · intro name
    rw [s.find?_merge .nil, find?_empty, Option.none_or]
  · rw [documented.signatures_merge .empty]
    simp

theorem merge_self (documented : s.Documented) : s.merge s = s := by
  refine (documented.merge documented).ext documented ?_ ?_
  · intro name
    rw [s.find?_merge documented.sorted, Option.or_self]
  · have replaced : s.signatures.filter (fun g => !s.contains g.name) = [] := by
      refine List.filter_eq_nil_iff.mpr fun g published => ?_
      simp [documented.contains_of_published published]
    rw [documented.signatures_merge documented, replaced, List.nil_append]

theorem merge_assoc (first : s.Documented) (second : t.Documented) (third : u.Documented) :
    (s.merge t).merge u = s.merge (t.merge u) := by
  have left := first.merge second
  have right := second.merge third
  refine (left.merge third).ext (first.merge right) ?_ ?_
  · intro name
    rw [(s.merge t).find?_merge third.sorted, s.find?_merge second.sorted,
      s.find?_merge right.sorted, t.find?_merge third.sorted, Option.or_assoc]
  · -- What the second and the third bind together is what either of them binds.
    have kept : (s.signatures.filter (fun g => !t.contains g.name)).filter
          (fun g => !u.contains g.name) =
        s.signatures.filter (fun g => !(t.merge u).contains g.name) := by
      rw [List.filter_filter]
      refine List.filter_congr fun g _ => ?_
      rw [third.contains_merge, Bool.not_or]
    rw [left.signatures_merge third, first.signatures_merge second, first.signatures_merge right,
      second.signatures_merge third, List.filter_append, kept, List.append_assoc]

theorem foldl_merge {boxes : List (Sandbox φ ε)} (each : ∀ box ∈ boxes, box.Documented)
    (start : s.Documented) :
    boxes.foldl Sandbox.merge s = s.merge (Sandbox.compose boxes) := by
  induction boxes generalizing s with
  | nil => exact start.merge_empty.symm
  | cons box rest ih =>
    obtain ⟨here, later⟩ := List.forall_mem_cons.mp each
    have composed : Sandbox.compose (box :: rest) = box.merge (Sandbox.compose rest) :=
      ih later here
    calc (box :: rest).foldl Sandbox.merge s
      _ = (s.merge box).merge (Sandbox.compose rest) := ih later (start.merge here)
      _ = s.merge (box.merge (Sandbox.compose rest)) := start.merge_assoc here (.compose later)
      _ = s.merge (Sandbox.compose (box :: rest)) := by rw [composed]

theorem compose_cons {boxes : List (Sandbox φ ε)} (here : s.Documented)
    (later : ∀ box ∈ boxes, box.Documented) :
    Sandbox.compose (s :: boxes) = s.merge (Sandbox.compose boxes) :=
  foldl_merge later here

theorem compose_append {boxes others : List (Sandbox φ ε)} (each : ∀ box ∈ boxes, box.Documented)
    (rest : ∀ box ∈ others, box.Documented) :
    Sandbox.compose (boxes ++ others) =
      (Sandbox.compose boxes).merge (Sandbox.compose others) := by
  rw [Sandbox.compose, List.foldl_append]
  exact foldl_merge rest (.compose each)

end Documented

/-- The signatures of all boxes in their order, without those of names that a later box binds. -/
def unshadowed : List (Sandbox φ ε) → List Signature
  | [] => []
  | box :: later =>
    box.signatures.filter (fun g => !later.any (·.contains g.name)) ++ unshadowed later

variable {boxes : List (Sandbox φ ε)}

theorem find?_compose (each : ∀ box ∈ boxes, box.Documented) (name : String) :
    (compose boxes).find? name = boxes.reverse.findSome? (·.find? name) := by
  induction boxes with
  | nil => rfl
  | cons box rest ih =>
    obtain ⟨here, later⟩ := List.forall_mem_cons.mp each
    have composed := Documented.compose later
    rw [Documented.compose_cons here later, box.find?_merge composed.sorted, ih later,
      List.reverse_cons, List.findSome?_append, List.findSome?_singleton]

theorem contains_compose (each : ∀ box ∈ boxes, box.Documented) (name : String) :
    (compose boxes).contains name = boxes.any (·.contains name) := by
  induction boxes with
  | nil => rfl
  | cons box rest ih =>
    obtain ⟨here, later⟩ := List.forall_mem_cons.mp each
    have composed := Documented.compose later
    rw [Documented.compose_cons here later, composed.contains_merge box, ih later,
      List.any_cons, Bool.or_comm]

theorem signatures_compose (each : ∀ box ∈ boxes, box.Documented) :
    (compose boxes).signatures = unshadowed boxes := by
  induction boxes with
  | nil => rfl
  | cons box rest ih =>
    obtain ⟨here, later⟩ := List.forall_mem_cons.mp each
    rw [Documented.compose_cons here later, here.signatures_merge (.compose later), ih later,
      unshadowed]
    congr 1
    refine List.filter_congr fun g _ => ?_
    rw [contains_compose later]

theorem mem_names_iff {s : Sandbox φ ε} {name : String} :
    name ∈ s.names ↔ s.contains name = true := by
  rw [contains, Option.isSome_iff_ne_none, ne_eq, find?, Dictionary.find?_eq_none_iff,
    Classical.not_not]
  rfl

end Sandbox

/-- Merging the sandboxes that a host can build gives the same with and without the shortcut for a
sandbox that binds nothing, has the empty sandbox as identity on both sides, is associative and
idempotent; and boxes may be composed in groups. Sandboxes are compared by all bindings and by
their signatures in order. -/
theorem merge_idempotent_monoid [Callable φ ε] (a b c : Sandbox φ ε) (first : a.Reachable)
    (second : b.Reachable) (third : c.Reachable) (xs ys : List (Sandbox φ ε))
    (left : ∀ box ∈ xs, box.Reachable) (right : ∀ box ∈ ys, box.Reachable) :
    a.merge b = a.overlay b ∧
      Sandbox.empty.merge a = a ∧ a.merge Sandbox.empty = a ∧
      (a.merge b).merge c = a.merge (b.merge c) ∧
      a.merge a = a ∧
      Sandbox.compose (xs ++ ys) = (Sandbox.compose xs).merge (Sandbox.compose ys) := by
  have documented := first.documented
  refine ⟨documented.merge_eq_overlay second.documented, rfl, documented.merge_empty,
    documented.merge_assoc second.documented third.documented, documented.merge_self, ?_⟩
  exact Sandbox.Documented.compose_append (fun box member => (left box member).documented)
    fun box member => (right box member).documented

/-- Of two published natives one is overridden by a plain value and one by a native that is
published again, which moves its signature to the end. -/
theorem merge_monoid_of_overrides :
    let native : Native Probe.Closure Unit := Call.argument 1
    let a : Sandbox Probe.Closure Unit :=
      (Sandbox.empty.publish { name := "dec" } native).publish { name := "inc" } native
    let b : Sandbox Probe.Closure Unit :=
      (Sandbox.empty.insertValue "inc" .null).publish { name := "neg" } native
    let c : Sandbox Probe.Closure Unit :=
      Sandbox.empty.publish { name := "dec", description := "again" } native
    a.merge b = a.overlay b ∧ (a.merge b).merge c = a.merge (b.merge c) ∧ a.merge a = a ∧
      Sandbox.compose ([.empty, a] ++ [b, .empty, c]) =
        (Sandbox.compose [.empty, a]).merge (Sandbox.compose [b, .empty, c]) ∧
      (a.merge (b.merge c)).signatures =
        [{ name := "neg" }, { name := "dec", description := "again" }] := by
  intro native a b c
  have start : (Sandbox.empty : Sandbox Probe.Closure Unit).Reachable := .empty
  have first : a.Reachable := (start.publish _ native).publish _ native
  have second : b.Reachable := (start.insertValue "inc" .null).publish _ native
  have third : c.Reachable := start.publish _ native
  have left : ∀ box ∈ [.empty, a], box.Reachable := by simp [start, first]
  have right : ∀ box ∈ [b, .empty, c], box.Reachable := by simp [start, second, third]
  obtain ⟨general, _, _, grouped, again, composed⟩ :=
    merge_idempotent_monoid a b c first second third [.empty, a] [b, .empty, c] left right
  exact ⟨general, grouped, again, composed, by decide⟩

/-- In a composition of boxes that a host can build, a name means what it means in the last box
that binds it. The signatures are those of each box in turn whose names no later box binds, and the
names are those bound in some box, once each and in increasing order. -/
theorem composition_resolves_by_last_box [Callable φ ε] (boxes : List (Sandbox φ ε))
    (reachable : ∀ box ∈ boxes, box.Reachable) :
    (∀ name, (Sandbox.compose boxes).find? name = boxes.reverse.findSome? (·.find? name)) ∧
      (Sandbox.compose boxes).signatures = Sandbox.unshadowed boxes ∧
      (Sandbox.compose boxes).names.Pairwise (· < ·) ∧
      (∀ name, name ∈ (Sandbox.compose boxes).names ↔ ∃ box ∈ boxes, box.contains name = true) ∧
      (Sandbox.compose boxes).size = (Sandbox.compose boxes).names.length := by
  have each : ∀ box ∈ boxes, box.Documented := fun box member => (reachable box member).documented
  refine ⟨Sandbox.find?_compose each, Sandbox.signatures_compose each,
    (Sandbox.Documented.compose each).sorted, ?_, ?_⟩
  · intro name
    rw [Sandbox.mem_names_iff, Sandbox.contains_compose each, List.any_eq_true]
  · simp [Sandbox.size, Sandbox.names, Dictionary.names]

/-- After two empty boxes, a published native is overridden by a plain value, and another by a
native that is published again. -/
theorem composition_of_overriding_boxes :
    let native : Native Probe.Closure Unit := Call.argument 1
    let base : Sandbox Probe.Closure Unit :=
      (Sandbox.empty.publish { name := "inc" } native).publish { name := "dec" } native
    let patch : Sandbox Probe.Closure Unit :=
      (Sandbox.empty.publish { name := "neg" } native).insertValue "inc" .null
    let last : Sandbox Probe.Closure Unit :=
      Sandbox.empty.publish { name := "dec", description := "again" } native
    let boxes := [.empty, .empty, base, patch, last]
    (Sandbox.compose boxes).find? "inc" = patch.find? "inc" ∧
      (Sandbox.compose boxes).find? "add" = none ∧
      (Sandbox.compose boxes).signatures =
        [{ name := "neg" }, { name := "dec", description := "again" }] ∧
      "inc" ∈ (Sandbox.compose boxes).names ∧ (Sandbox.compose boxes).size = 3 := by
  intro native base patch last boxes
  have start : (Sandbox.empty : Sandbox Probe.Closure Unit).Reachable := .empty
  have reachable : ∀ box ∈ boxes, box.Reachable := by
    have first : base.Reachable := (start.publish _ native).publish _ native
    have second : patch.Reachable := (start.publish _ native).insertValue "inc" .null
    have third : last.Reachable := start.publish _ native
    simp [boxes, start, first, second, third]
  obtain ⟨find, signatures, _, names, size⟩ := composition_resolves_by_last_box boxes reachable
  refine ⟨(find "inc").trans rfl, (find "add").trans rfl, signatures.trans rfl, ?_,
    size.trans (by decide)⟩
  exact (names "inc").mpr ⟨base, by simp [boxes], rfl⟩

end JsonScript
