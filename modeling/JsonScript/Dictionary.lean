/-!
Dictionaries: entries under names, kept in the order of their names.

A dictionary is a list of pairs whose names increase, so that two dictionaries with the same
entries are the same list. `insert` keeps the order and lets the last entry of a name win, which
is the rule for members of JSON objects and for bindings of a sandbox.
-/

set_option autoImplicit false
set_option relaxedAutoImplicit false

namespace JsonScript.Dictionary

variable {α : Type}

def insert (name : String) (entry : α) : List (String × α) → List (String × α)
  | [] => [(name, entry)]
  | (other, kept) :: rest =>
    if name = other then (name, entry) :: rest
    else if name < other then (name, entry) :: (other, kept) :: rest
    else (other, kept) :: insert name entry rest

def find? (name : String) : List (String × α) → Option α
  | [] => none
  | (other, entry) :: rest => if other = name then some entry else find? name rest

def names (entries : List (String × α)) : List String :=
  entries.map (·.1)

def override (base pairs : List (String × α)) : List (String × α) :=
  pairs.foldl (fun entries pair => insert pair.1 pair.2 entries) base

def ofPairs (pairs : List (String × α)) : List (String × α) :=
  override [] pairs

def Sorted (entries : List (String × α)) : Prop :=
  (names entries).Pairwise (· < ·)

@[simp] theorem find?_insert_self (name : String) (entry : α) (entries : List (String × α)) :
    find? name (insert name entry entries) = some entry := by
  induction entries with
  | nil => simp [insert, find?]
  | cons pair rest ih =>
    obtain ⟨other, kept⟩ := pair
    by_cases hsame : name = other
    · simp [insert, find?, hsame]
    · by_cases hbefore : name < other
      · simp [insert, find?, hsame, hbefore]
      · simp [insert, find?, hsame, hbefore, ih, Ne.symm hsame]

theorem find?_insert_of_ne {name other : String} (hne : other ≠ name) (entry : α)
    (entries : List (String × α)) :
    find? other (insert name entry entries) = find? other entries := by
  induction entries with
  | nil => simp [insert, find?, Ne.symm hne]
  | cons pair rest ih =>
    obtain ⟨third, kept⟩ := pair
    by_cases hsame : name = third
    · subst hsame
      simp [insert, find?, Ne.symm hne]
    · by_cases hbefore : name < third
      · simp [insert, find?, hsame, hbefore, Ne.symm hne]
      · simp [insert, find?, hsame, hbefore, ih]

theorem find?_eq_none_iff {name : String} {entries : List (String × α)} :
    find? name entries = none ↔ name ∉ names entries := by
  induction entries with
  | nil => simp [find?, names]
  | cons pair rest ih =>
    obtain ⟨other, kept⟩ := pair
    by_cases hsame : other = name
    · simp [find?, names, hsame]
    · simpa [find?, names, hsame, Ne.symm hsame] using ih

theorem find?_append (name : String) (entries others : List (String × α)) :
    find? name (entries ++ others) = (find? name entries).or (find? name others) := by
  induction entries with
  | nil => rfl
  | cons pair rest ih =>
    obtain ⟨other, kept⟩ := pair
    by_cases hsame : other = name
    · simp [find?, hsame]
    · simp [find?, hsame, ih]

theorem find?_override (name : String) (base pairs : List (String × α)) :
    find? name (override base pairs) = (find? name pairs.reverse).or (find? name base) := by
  induction pairs generalizing base with
  | nil => rfl
  | cons pair rest ih =>
    obtain ⟨other, entry⟩ := pair
    have hfirst : find? name (insert other entry base) =
        (find? name [(other, entry)]).or (find? name base) := by
      by_cases hsame : other = name
      · simp [find?, hsame]
      · simp [find?, hsame, find?_insert_of_ne (Ne.symm hsame)]
    calc find? name (override base ((other, entry) :: rest))
      _ = (find? name rest.reverse).or (find? name (insert other entry base)) := ih _
      _ = (find? name ((other, entry) :: rest).reverse).or (find? name base) := by
        rw [hfirst, List.reverse_cons, find?_append, Option.or_assoc]

theorem mem_names_insert {name other : String} {entry : α} {entries : List (String × α)} :
    other ∈ names (insert name entry entries) ↔ other = name ∨ other ∈ names entries := by
  by_cases hsame : other = name
  · have hfound : find? other (insert name entry entries) ≠ none := by simp [hsame]
    simpa [hsame] using mt find?_eq_none_iff.mpr hfound
  · have hkept := find?_insert_of_ne hsame entry entries
    have hiff : other ∉ names (insert name entry entries) ↔ other ∉ names entries := by
      rw [← find?_eq_none_iff, ← find?_eq_none_iff, hkept]
    simpa [hsame] using not_congr hiff

theorem mem_of_find? {name : String} {entry : α} {entries : List (String × α)}
    (hfound : find? name entries = some entry) : (name, entry) ∈ entries := by
  induction entries with
  | nil => cases hfound
  | cons pair rest ih =>
    obtain ⟨other, kept⟩ := pair
    unfold find? at hfound
    split at hfound
    · rename_i hsame
      obtain rfl := Option.some.inj hfound
      exact hsame ▸ List.mem_cons_self
    · exact List.mem_cons_of_mem _ (ih hfound)

theorem mem_insert {pair : String × α} {name : String} {entry : α} {entries : List (String × α)}
    (hmember : pair ∈ insert name entry entries) : pair = (name, entry) ∨ pair ∈ entries := by
  induction entries with
  | nil => exact .inl (List.mem_singleton.mp hmember)
  | cons first rest ih =>
    obtain ⟨other, kept⟩ := first
    unfold insert at hmember
    split at hmember
    · exact (List.mem_cons.mp hmember).imp_right (List.mem_cons_of_mem _)
    · split at hmember
      · exact List.mem_cons.mp hmember
      · rcases List.mem_cons.mp hmember with rfl | hlater
        · exact .inr List.mem_cons_self
        · exact (ih hlater).imp_right (List.mem_cons_of_mem _)

theorem mem_override {pair : String × α} {base pairs : List (String × α)}
    (hmember : pair ∈ override base pairs) : pair ∈ base ∨ pair ∈ pairs := by
  induction pairs generalizing base with
  | nil => exact .inl hmember
  | cons first rest ih =>
    rcases ih hmember with hbefore | hlater
    · rcases mem_insert hbefore with rfl | hbase
      · exact .inr List.mem_cons_self
      · exact .inl hbase
    · exact .inr (List.mem_cons_of_mem _ hlater)

theorem mem_ofPairs {pair : String × α} {pairs : List (String × α)}
    (hmember : pair ∈ ofPairs pairs) : pair ∈ pairs :=
  (mem_override hmember).resolve_left List.not_mem_nil

theorem sorted_cons {name : String} {entry : α} {rest : List (String × α)} :
    Sorted ((name, entry) :: rest) ↔ (∀ other ∈ names rest, name < other) ∧ Sorted rest :=
  List.pairwise_cons

namespace Sorted

variable {entries : List (String × α)}

theorem insert (hsorted : Sorted entries) (name : String) (entry : α) :
    Sorted (Dictionary.insert name entry entries) := by
  induction entries with
  | nil => exact List.pairwise_singleton _ _
  | cons pair rest ih =>
    obtain ⟨other, kept⟩ := pair
    obtain ⟨habove, hrest⟩ := sorted_cons.mp hsorted
    unfold Dictionary.insert
    split
    · rename_i hsame
      exact sorted_cons.mpr ⟨hsame ▸ habove, hrest⟩
    · split
      · rename_i hbefore
        refine sorted_cons.mpr ⟨?_, hsorted⟩
        intro third hmember
        rcases List.mem_cons.mp hmember with rfl | hlater
        · exact hbefore
        · exact String.lt_trans hbefore (habove third hlater)
      · rename_i hne hnot
        have hafter : other < name := Std.lt_of_le_of_ne (String.not_lt.mp hnot) (Ne.symm hne)
        refine sorted_cons.mpr ⟨?_, ih hrest⟩
        intro third hmember
        rcases mem_names_insert.mp hmember with rfl | hlater
        · exact hafter
        · exact habove third hlater

theorem override (hsorted : Sorted entries) (pairs : List (String × α)) :
    Sorted (Dictionary.override entries pairs) := by
  induction pairs generalizing entries with
  | nil => exact hsorted
  | cons pair rest ih => exact ih (hsorted.insert pair.1 pair.2)

theorem find?_reverse (hsorted : Sorted entries) (name : String) :
    find? name entries.reverse = find? name entries := by
  induction entries with
  | nil => rfl
  | cons pair rest ih =>
    obtain ⟨other, kept⟩ := pair
    obtain ⟨habove, hrest⟩ := sorted_cons.mp hsorted
    rw [List.reverse_cons, find?_append, ih hrest]
    by_cases hsame : other = name
    · have habsent : find? name rest = none :=
        find?_eq_none_iff.mpr fun hmember => String.lt_irrefl name (hsame ▸ habove name hmember)
      simp [find?, hsame, habsent]
    · simp [find?, hsame]

theorem find?_eq_none_of_lt {name other : String} {kept : α}
    (hsorted : Sorted ((other, kept) :: entries)) (hbelow : name < other) :
    find? name ((other, kept) :: entries) = none := by
  refine find?_eq_none_iff.mpr fun hmember => ?_
  rcases List.mem_cons.mp hmember with rfl | hlater
  · exact String.lt_irrefl _ hbelow
  · have habove := (sorted_cons.mp hsorted).1 name hlater
    exact String.lt_irrefl _ (String.lt_trans hbelow habove)

theorem find?_tail {name : String} {kept : α} (hsorted : Sorted ((name, kept) :: entries))
    (other : String) :
    find? other entries = if other = name then none else find? other ((name, kept) :: entries) := by
  split
  · rename_i hsame
    subst hsame
    exact find?_eq_none_iff.mpr fun hmember =>
      String.lt_irrefl _ ((sorted_cons.mp hsorted).1 _ hmember)
  · rename_i hne
    rw [find?, if_neg (Ne.symm hne)]

theorem ext {others : List (String × α)} (hsorted : Sorted entries) (hothers : Sorted others)
    (hsame : ∀ name, find? name entries = find? name others) : entries = others := by
  induction entries generalizing others with
  | nil =>
    cases others with
    | nil => rfl
    | cons pair rest =>
      have hfound := hsame pair.1
      simp [find?] at hfound
  | cons pair rest ih =>
    cases others with
    | nil =>
      have hfound := hsame pair.1
      simp [find?] at hfound
    | cons second later =>
      obtain ⟨name, entry⟩ := pair
      obtain ⟨other, kept⟩ := second
      have hhere := hsame name
      have hthere := hsame other
      -- The least name of each dictionary is in the other one, so neither is below the other.
      have hnotBelow : ¬name < other := by
        intro hbelow
        rw [hothers.find?_eq_none_of_lt hbelow] at hhere
        simp [find?] at hhere
      have hnotAbove : ¬other < name := by
        intro habove
        rw [hsorted.find?_eq_none_of_lt habove] at hthere
        simp [find?] at hthere
      obtain rfl : name = other :=
        String.le_antisymm (String.not_lt.mp hnotAbove) (String.not_lt.mp hnotBelow)
      have hentry : entry = kept := by simpa [find?] using hhere
      have hrest : rest = later := by
        refine ih (sorted_cons.mp hsorted).2 (sorted_cons.mp hothers).2 fun third => ?_
        rw [hsorted.find?_tail, hothers.find?_tail, hsame]
      rw [hentry, hrest]

theorem nil : Sorted ([] : List (String × α)) :=
  List.Pairwise.nil

theorem ofPairs (pairs : List (String × α)) : Sorted (Dictionary.ofPairs pairs) :=
  nil.override pairs

theorem ofPairs_eq (hsorted : Sorted entries) : Dictionary.ofPairs entries = entries := by
  refine (Sorted.ofPairs entries).ext hsorted fun name => ?_
  rw [Dictionary.ofPairs, find?_override, hsorted.find?_reverse]
  exact Option.or_none

end Sorted

end JsonScript.Dictionary
