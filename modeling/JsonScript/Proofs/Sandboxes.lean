import JsonScript.Declaration.Basic
import JsonScript.Probe.Natives

/-!
Sandboxes and their signatures.

Bindings and signatures are kept apart, so every operation that binds a name has to withdraw the
signature of what it replaces. Every sandbox that the operations build keeps to that: signatures
are of natives that are bound, one for each name at most.
-/

set_option autoImplicit false
set_option relaxedAutoImplicit false

namespace JsonScript

variable {φ ε : Type}

theorem Binding.ofValue_ne_function [Callable φ ε] (v : Value φ) (f : φ) :
    (Binding.ofValue v : Binding φ ε) ≠ .value (.function f) := by
  cases v <;> simp [Binding.ofValue]

namespace Sandbox

@[simp] theorem find?_insert_self (name : String) (binding : Binding φ ε) (s : Sandbox φ ε) :
    (s.insert name binding).find? name = some binding :=
  Dictionary.find?_insert_self name binding s.bindings

theorem find?_insert_of_ne {name other : String} (different : other ≠ name)
    (binding : Binding φ ε) (s : Sandbox φ ε) :
    (s.insert name binding).find? other = s.find? other :=
  Dictionary.find?_insert_of_ne different binding s.bindings

theorem find?_merge_of_unbound (s : Sandbox φ ε) {added : Sandbox φ ε} {name : String}
    (unbound : added.find? name = none) : (s.merge added).find? name = s.find? name := by
  have absent : Dictionary.find? name added.bindings.reverse = none := by
    have missing := Dictionary.find?_eq_none_iff.mp unbound
    refine Dictionary.find?_eq_none_iff.mpr ?_
    simpa [Dictionary.names] using missing
  unfold merge
  split
  · rename_i empty
    have nothing : s.bindings = [] := List.isEmpty_iff.mp empty
    rw [unbound, find?, nothing]
    rfl
  · rw [find?, Dictionary.find?_override, absent]
    rfl

theorem find?_merge (s : Sandbox φ ε) {t : Sandbox φ ε} (sorted : Dictionary.Sorted t.bindings)
    (name : String) : (s.merge t).find? name = (t.find? name).or (s.find? name) := by
  unfold merge
  split
  · rename_i empty
    have nothing : s.bindings = [] := List.isEmpty_iff.mp empty
    have absent : s.find? name = none := by
      rw [find?, nothing]
      rfl
    rw [absent, Option.or_none]
  · rw [find?, Dictionary.find?_override, sorted.find?_reverse]
    rfl

/-- Names are bound once, signatures are of bound natives and differ in their names, and no
function is bound as a plain value. -/
structure Documented (s : Sandbox φ ε) : Prop where
  sorted : Dictionary.Sorted s.bindings
  distinct : (s.signatures.map Signature.name).Nodup
  callable : ∀ g ∈ s.signatures, ∃ native, s.find? g.name = some (.callable native)
  plain : ∀ name f, s.find? name ≠ some (.value (.function f))

namespace Documented

variable {s t : Sandbox φ ε}

theorem empty : (Sandbox.empty : Sandbox φ ε).Documented where
  sorted := List.Pairwise.nil
  distinct := List.nodup_nil
  callable _ member := nomatch member
  plain _ _ bound := nomatch bound

theorem insert (documented : s.Documented) (name : String) {binding : Binding φ ε}
    (plain : ∀ f, binding ≠ .value (.function f)) : (s.insert name binding).Documented where
  sorted := documented.sorted.insert name binding
  distinct := documented.distinct.sublist (List.filter_sublist.map _)
  callable := by
    intro g member
    obtain ⟨kept, other⟩ := List.mem_filter.mp member
    have different : g.name ≠ name := by simpa using other
    rw [find?_insert_of_ne different]
    exact documented.callable g kept
  plain := by
    intro other f bound
    by_cases same : other = name
    · rw [same, find?_insert_self] at bound
      exact plain f (Option.some.inj bound)
    · rw [find?_insert_of_ne same] at bound
      exact documented.plain other f bound

theorem insertNative (documented : s.Documented) (name : String) (native : Native φ ε) :
    (s.insertNative name native).Documented :=
  documented.insert name fun _ same => nomatch same

theorem publish (documented : s.Documented) (signature : Signature) (native : Native φ ε) :
    (s.publish signature native).Documented := by
  have bound := documented.insertNative signature.name native
  refine ⟨bound.sorted, ?_, ?_, bound.plain⟩
  · have withdrawn : signature.name ∉
        (s.insertNative signature.name native).signatures.map Signature.name := by
      intro member
      obtain ⟨g, kept, same⟩ := List.mem_map.mp member
      have different : g.name ≠ signature.name := by simpa using (List.mem_filter.mp kept).2
      exact different same
    have appended : (s.publish signature native).signatures.map Signature.name =
        (s.insertNative signature.name native).signatures.map Signature.name ++
          [signature.name] := by
      simp [Sandbox.publish]
    rw [appended, List.nodup_append]
    refine ⟨bound.distinct, by simp, ?_⟩
    intro name member other last same
    rw [List.mem_singleton.mp last] at same
    exact withdrawn (same ▸ member)
  · intro g member
    rcases List.mem_append.mp member with kept | last
    · exact bound.callable g kept
    · obtain rfl := List.mem_singleton.mp last
      exact ⟨native, find?_insert_self _ _ s⟩

theorem merge (first : s.Documented) (second : t.Documented) : (s.merge t).Documented := by
  have look := s.find?_merge second.sorted
  unfold Sandbox.merge at look ⊢
  split at look
  · rename_i empty
    rw [if_pos empty]
    exact second
  · rename_i inhabited
    rw [if_neg inhabited]
    refine ⟨first.sorted.override t.bindings, ?_, ?_, ?_⟩
    · rw [List.map_append, List.nodup_append]
      refine ⟨first.distinct.sublist (List.filter_sublist.map _), second.distinct, ?_⟩
      intro name member other later same
      obtain ⟨g, kept, rfl⟩ := List.mem_map.mp member
      obtain ⟨h, published, rfl⟩ := List.mem_map.mp later
      obtain ⟨native, bound⟩ := second.callable h published
      have unbound := (List.mem_filter.mp kept).2
      simp [contains, same, bound] at unbound
    · intro g member
      rcases List.mem_append.mp member with kept | published
      · obtain ⟨documented, unbound⟩ := List.mem_filter.mp kept
        have absent : t.find? g.name = none := by simpa [contains] using unbound
        rw [look, absent, Option.none_or]
        exact first.callable g documented
      · obtain ⟨native, bound⟩ := second.callable g published
        exact ⟨native, by rw [look, bound, Option.some_or]⟩
    · intro name f bound
      rw [look] at bound
      cases found : t.find? name with
      | some binding =>
        rw [found, Option.some_or] at bound
        exact second.plain name f (found.trans bound)
      | none =>
        rw [found, Option.none_or] at bound
        exact first.plain name f bound

theorem compose {boxes : List (Sandbox φ ε)} (each : ∀ box ∈ boxes, box.Documented) :
    (Sandbox.compose boxes).Documented := by
  suffices law : ∀ start : Sandbox φ ε, start.Documented →
      (boxes.foldl Sandbox.merge start).Documented from law .empty .empty
  induction boxes with
  | nil => exact fun start documented => documented
  | cons box rest ih =>
    intro start documented
    have later : ∀ box ∈ rest, box.Documented := fun box member =>
      each box (List.mem_cons_of_mem _ member)
    exact ih later _ (documented.merge (each box List.mem_cons_self))

end Documented

variable [Callable φ ε]

/-- The sandboxes that a host can build. A copy of a sandbox is the sandbox itself. -/
inductive Reachable : Sandbox φ ε → Prop where
  | empty : Reachable .empty
  | insert {s : Sandbox φ ε} (before : Reachable s) (name : String) (v : Value φ) :
      Reachable (s.insert name (.ofValue v))
  | insertFrom {s source : Sandbox φ ε} {binding : Binding φ ε} {bound : String}
      (before : Reachable s) (other : Reachable source) (name : String)
      (found : source.find? bound = some binding) : Reachable (s.insert name binding)
  | insertValue {s : Sandbox φ ε} (before : Reachable s) (name : String) (v : Value φ) :
      Reachable (s.insertValue name v)
  | insertNative {s : Sandbox φ ε} (before : Reachable s) (name : String) (native : Native φ ε) :
      Reachable (s.insertNative name native)
  | publish {s : Sandbox φ ε} (before : Reachable s) (signature : Signature)
      (native : Native φ ε) : Reachable (s.publish signature native)
  | register {s : Sandbox φ ε} (before : Reachable s) (function : TypedNative φ) :
      Reachable (function.register s)
  | merge {s t : Sandbox φ ε} (first : Reachable s) (second : Reachable t) :
      Reachable (s.merge t)
  | compose {boxes : List (Sandbox φ ε)} (each : ∀ box ∈ boxes, Reachable box) :
      Reachable (Sandbox.compose boxes)

theorem Reachable.documented {s : Sandbox φ ε} (reachable : s.Reachable) : s.Documented := by
  induction reachable with
  | empty => exact .empty
  | insert before name v ih => exact ih.insert name (Binding.ofValue_ne_function v)
  | insertFrom before other name found ih ihOther =>
    refine ih.insert name fun f same => ?_
    exact ihOther.plain _ f (same ▸ found)
  | insertValue before name v ih => exact ih.insert name (Binding.ofValue_ne_function v)
  | insertNative before name native ih => exact ih.insertNative name native
  | publish before signature native ih => exact ih.publish signature native
  | register before function ih => exact ih.publish _ _
  | merge first second ihFirst ihSecond => exact ihFirst.merge ihSecond
  | compose each ih => exact .compose ih

end Sandbox

/-- Of every sandbox that a host can build, the signatures have different names, each is of a name
that is bound to a native, and no name is bound to a function as a plain value. -/
theorem signatures_follow_bindings [Callable φ ε] (s : Sandbox φ ε) (reachable : s.Reachable) :
    (s.signatures.map Signature.name).Nodup ∧
      (∀ g ∈ s.signatures, ∃ native, s.find? g.name = some (.callable native)) ∧
      ∀ name f, s.find? name ≠ some (.value (.function f)) := by
  have documented := reachable.documented
  exact ⟨documented.distinct, documented.callable, documented.plain⟩

/-- Three natives are published, one of them twice; one is then overridden by a number and one, out
of another sandbox, by an undocumented native. -/
theorem signatures_follow_overrides :
    let native : Native Probe.Closure Unit := Call.argument 1
    let published : Sandbox Probe.Closure Unit :=
      (((Sandbox.empty.publish { name := "inc" } native).publish { name := "dec" } native).publish
        { name := "neg" } native).publish { name := "dec", description := "again" } native
    let other : Sandbox Probe.Closure Unit :=
      (Sandbox.empty.insertValue "inc" .null).insertValue "f" (.function .shared)
    let s := (published.merge other).insert "neg" (.callable (Callable.code Probe.Closure.shared))
    s.signatures = [{ name := "dec", description := "again" }] ∧
      s.names = ["dec", "f", "inc", "neg"] ∧
      (s.signatures.map Signature.name).Nodup ∧
      (∃ bound, s.find? "dec" = some (.callable bound)) ∧
      ∀ name f, s.find? name ≠ some (.value (.function f)) := by
  intro native published other s
  have start : (Sandbox.empty : Sandbox Probe.Closure Unit).Reachable := .empty
  have apart : other.Reachable := (start.insertValue "inc" .null).insertValue "f" _
  have built : published.Reachable :=
    (((start.publish _ native).publish _ native).publish _ native).publish _ native
  have found : other.find? "f" = some (.callable (Callable.code Probe.Closure.shared)) := rfl
  have reachable : s.Reachable := (built.merge apart).insertFrom apart "neg" found
  have signatures : s.signatures = [{ name := "dec", description := "again" }] := rfl
  obtain ⟨distinct, callable, plain⟩ := signatures_follow_bindings s reachable
  refine ⟨signatures, by decide, distinct, ?_, plain⟩
  exact callable { name := "dec", description := "again" } (by simp [signatures])

end JsonScript
