import Mathlib.Data.List.DropRight
import JsonScript.Declaration.Basic

/-!
Doc comments that are written in the documented form are read back.

The reader goes line by line and keeps an open entry until the next one starts or the lines end. So
it has to tell lines that open an entry from lines that go on with one, and nothing may get lost or
come under another name in between. Blanks at the ends of lines and blank lines do not matter.
-/

set_option autoImplicit false
set_option relaxedAutoImplicit false

namespace JsonScript

namespace Text

def Normal (cs : List Char) : Prop :=
  (∀ c ∈ cs.head?, isBlank c = false) ∧ ∀ c ∈ cs.getLast?, isBlank c = false

def AllBlank (cs : List Char) : Prop :=
  ∀ c ∈ cs, isBlank c = true

instance (cs : List Char) : Decidable (Normal cs) :=
  decidable_of_iff (cs.head?.all (isBlank · == false) ∧ cs.getLast?.all (isBlank · == false))
    (by simp [Normal, Option.all_eq_true])

instance (cs : List Char) : Decidable (AllBlank cs) :=
  List.decidableBAll _ cs

theorem normal_trimChars (cs : List Char) : Normal (trimChars cs) := by
  change Normal ((cs.dropWhile isBlank).rdropWhile isBlank)
  constructor
  · intro c first
    -- What is left after the end was cut off begins as it did before.
    obtain ⟨cut, whole⟩ := List.rdropWhile_prefix isBlank (cs.dropWhile isBlank)
    have begins : (cs.dropWhile isBlank).head? = some c := by
      rw [← whole, List.head?_append, Option.mem_def.mp first]
      rfl
    have notBlank := List.head?_dropWhile_not isBlank cs
    rwa [begins] at notBlank
  · intro c last
    obtain ⟨some, rfl⟩ := List.mem_getLast?_eq_getLast last
    simpa using List.rdropWhile_last_not isBlank (cs.dropWhile isBlank) some

theorem trimChars_of_normal {cs : List Char} (normal : Normal cs) : trimChars cs = cs := by
  obtain ⟨first, last⟩ := normal
  have start : cs.dropWhile isBlank = cs := by
    cases cs with
    | nil => rfl
    | cons c rest => exact List.dropWhile_cons_of_neg (by simp [first c rfl])
  have finish : cs.rdropWhile isBlank = cs := by
    refine List.rdropWhile_eq_self_iff.mpr fun some => ?_
    simp [last _ (List.getLast?_eq_some_getLast some)]
  change (cs.dropWhile isBlank).rdropWhile isBlank = cs
  rw [start, finish]

theorem trimChars_padded {before after : List Char} (start : AllBlank before)
    (finish : AllBlank after) (cs : List Char) :
    trimChars (before ++ cs ++ after) = trimChars cs := by
  change ((before ++ cs ++ after).dropWhile isBlank).rdropWhile isBlank =
    (cs.dropWhile isBlank).rdropWhile isBlank
  rw [List.append_assoc, List.dropWhile_append_of_pos start, List.dropWhile_append]
  split
  · rename_i nothing
    rw [List.isEmpty_iff.mp nothing, List.dropWhile_eq_nil_iff.mpr finish]
  · rw [List.rdropWhile, List.reverse_append, List.dropWhile_append_of_pos]
    · rfl
    · exact fun c member => finish c (List.mem_reverse.mp member)

theorem trimChars_allBlank {cs : List Char} (blank : AllBlank cs) : trimChars cs = [] := by
  have nothing : AllBlank [] := by decide
  have padded := trimChars_padded blank nothing []
  rwa [List.append_nil, List.append_nil] at padded

theorem trim_of_normal {s : String} (normal : Normal s.toList) : trim s = s := by
  rw [trim, trimChars_of_normal normal, String.ofList_toList]

theorem trim_padded {before after : String} (start : AllBlank before.toList)
    (finish : AllBlank after.toList) (s : String) : trim (before ++ s ++ after) = trim s := by
  rw [trim, trim, String.toList_append, String.toList_append, trimChars_padded start finish]

theorem trim_allBlank {s : String} (blank : AllBlank s.toList) : trim s = "" := by
  rw [trim, trimChars_allBlank blank]

theorem trim_ne_empty {s : String} (some : ¬AllBlank s.toList) : trim s ≠ "" := by
  intro empty
  have nothing : trimChars s.toList = [] := by simpa [trim] using empty
  change (s.toList.dropWhile isBlank).rdropWhile isBlank = [] at nothing
  have blank := List.dropWhile_eq_nil_iff.mpr (List.rdropWhile_eq_nil_iff.mp nothing)
  rw [List.dropWhile_idempotent] at blank
  exact some (List.dropWhile_eq_nil_iff.mp blank)

theorem normal_trim (s : String) : Normal (trim s).toList := by
  rw [trim, String.toList_ofList]
  exact normal_trimChars s.toList

theorem normal_of_no_blank {cs : List Char} (none : ∀ c ∈ cs, isBlank c = false) : Normal cs :=
  ⟨fun c begins => none c (List.mem_of_mem_head? begins),
    fun c ends => none c (List.mem_of_mem_getLast? ends)⟩

/-- A text that is there, without blanks at its ends. -/
structure Proper (s : String) : Prop where
  some : s ≠ ""
  normal : Normal s.toList

namespace Proper

variable {s t : String}

theorem toList_ne_nil (proper : Proper s) : s.toList ≠ [] := by
  simpa using proper.some

theorem around (first : Proper s) (last : Proper t) (between : String) :
    Proper (s ++ between ++ t) := by
  refine ⟨by simp [first.some], ?_, ?_⟩
  · intro c begins
    refine first.normal.1 c ?_
    rwa [String.toList_append, String.toList_append, List.append_assoc,
      List.head?_append_of_ne_nil _ first.toList_ne_nil] at begins
  · intro c ends
    refine last.normal.2 c ?_
    rwa [String.toList_append, List.getLast?_append_of_ne_nil _ last.toList_ne_nil] at ends

theorem joined {pieces : List String} (first : Proper s) (rest : ∀ piece ∈ pieces, Proper piece) :
    Proper (" ".intercalate (s :: pieces)) := by
  induction pieces generalizing s with
  | nil => rwa [String.intercalate_singleton]
  | cons piece pieces ih =>
    obtain ⟨here, others⟩ := List.forall_mem_cons.mp rest
    rw [String.intercalate_cons_cons]
    exact first.around (ih here others) " "

end Proper

theorem intercalate_eq_foldl (text : String) (pieces : List String) :
    " ".intercalate (text :: pieces) =
      pieces.foldl (fun joined piece => joined ++ " " ++ piece) text := by
  induction pieces generalizing text with
  | nil => rfl
  | cons piece pieces ih => exact ih _

end Text

namespace Declaration.Docs

/-- A line that goes on with an entry. It opens none: before its first colon, if it has one, stands
nothing or a text with a space. -/
structure Continues (piece : String) : Prop where
  proper : Text.Proper piece
  unmarked : isMarker piece = false
  opensNone : ∀ before after, piece.toList = before ++ ':' :: after → ':' ∉ before →
    Text.trimChars before = [] ∨ ' ' ∈ Text.trimChars before

def Plain (cs : List Char) : Prop :=
  ∀ c ∈ cs, Text.isBlank c = false ∧ c ≠ ':'

instance (cs : List Char) : Decidable (Plain cs) :=
  List.decidableBAll _ cs

/-- An entry: the name of an argument, the text after it, and the lines that go on with it. -/
structure Entry where
  name : String
  opening : String
  more : List String := []
  named : name ≠ ""
  plain : Plain name.toList
  opens : Text.Proper opening
  continues : ∀ piece ∈ more, Continues piece

def Entry.text (e : Entry) : String :=
  " ".intercalate (e.opening :: e.more)

def Entry.rows (e : Entry) : List String :=
  (e.name ++ ": " ++ e.opening) :: e.more

/-- Documentation in the documented form: lines of a description, a marker, and entries. -/
structure Draft where
  description : List String
  marker : String
  entries : List Entry
  described : ∀ line ∈ description, ¬Text.AllBlank line.toList
  unmarked : ∀ line ∈ description, isMarker (Text.trim line) = false
  marked : isMarker marker = true

def Draft.rows (d : Draft) : List String :=
  d.description ++ d.marker :: d.entries.flatMap Entry.rows

/-- `LaidOut rows lines`: the lines are the rows with blanks around them, and blank lines. -/
inductive LaidOut : List String → List String → Prop where
  | nil : LaidOut [] []
  | blank {rows lines : List String} {line : String} (blank : Text.AllBlank line.toList)
      (rest : LaidOut rows lines) : LaidOut rows (line :: lines)
  | row {rows lines : List String} {line row : String} (before after : String)
      (parts : line = before ++ row ++ after) (start : Text.AllBlank before.toList)
      (finish : Text.AllBlank after.toList) (rest : LaidOut rows lines) :
      LaidOut (row :: rows) (line :: lines)

private theorem isMarker_iff {line : String} :
    isMarker line = true ↔ line = "Args:" ∨ line = "Arguments:" := by
  rw [isMarker, Bool.or_eq_true, decide_eq_true_iff, decide_eq_true_iff]

private theorem splitAtColon_append {before : List Char} (first : ':' ∉ before)
    (after : List Char) : splitAtColon (before ++ ':' :: after) = some (before, after) := by
  induction before with
  | nil => rfl
  | cons c before ih =>
    have other : c ≠ ':' := (List.ne_of_not_mem_cons first).symm
    rw [List.cons_append, splitAtColon, if_neg other, ih (List.not_mem_of_not_mem_cons first)]
    rfl

private theorem of_splitAtColon {cs before after : List Char}
    (split : splitAtColon cs = some (before, after)) :
    cs = before ++ ':' :: after ∧ ':' ∉ before := by
  induction cs generalizing before with
  | nil => cases split
  | cons c rest ih =>
    rw [splitAtColon] at split
    by_cases colon : c = ':'
    · rw [if_pos colon] at split
      cases split
      exact ⟨congrArg (· :: _) colon, List.not_mem_nil⟩
    · rw [if_neg colon] at split
      obtain ⟨⟨inside, _⟩, there, same⟩ := Option.map_eq_some_iff.mp split
      cases same
      obtain ⟨rfl, first⟩ := ih there
      exact ⟨rfl, List.not_mem_cons_of_ne_of_not_mem (Ne.symm colon) first⟩

theorem entry?_eq_none_iff {line : String} :
    entry? line = none ↔
      ∀ before after, line.toList = before ++ ':' :: after → ':' ∉ before →
        Text.trimChars before = [] ∨ ' ' ∈ Text.trimChars before := by
  constructor
  · intro opensNone before after parts first
    have split := splitAtColon_append first after
    rw [← parts] at split
    unfold entry? at opensNone
    simp only [split] at opensNone
    simpa [or_iff_not_imp_left] using opensNone
  · intro opensNone
    unfold entry?
    split
    · rename_i before after split
      obtain ⟨parts, first⟩ := of_splitAtColon split
      have nameless := opensNone before after parts first
      rw [if_neg]
      rintro ⟨some, unspaced⟩
      exact nameless.elim some unspaced
    · rfl

namespace Entry

variable (e : Entry)

private theorem opened_split :
    splitAtColon (e.name ++ ": " ++ e.opening).toList =
      some (e.name.toList, ' ' :: e.opening.toList) := by
  have parts : (e.name ++ ": " ++ e.opening).toList =
      e.name.toList ++ ':' :: ' ' :: e.opening.toList := by simp
  rw [parts]
  exact splitAtColon_append (fun colon => (e.plain ':' colon).2 rfl) _

private theorem proper_name : Text.Proper e.name :=
  ⟨e.named, Text.normal_of_no_blank fun c member => (e.plain c member).1⟩

private theorem proper_opened : Text.Proper (e.name ++ ": " ++ e.opening) :=
  e.proper_name.around e.opens ": "

private theorem opened_entry :
    entry? (e.name ++ ": " ++ e.opening) = some (e.name, e.opening) := by
  have unspaced : ' ' ∉ e.name.toList := fun space => nomatch (e.plain ' ' space).1
  have spaced : Text.trimChars (' ' :: e.opening.toList) = e.opening.toList := by
    have space : Text.AllBlank [' '] := by decide
    have nothing : Text.AllBlank [] := by decide
    have padded := Text.trimChars_padded space nothing e.opening.toList
    rw [List.append_nil] at padded
    exact padded.trans (Text.trimChars_of_normal e.opens.normal)
  unfold entry?
  simp only [e.opened_split, Text.trimChars_of_normal e.proper_name.normal, spaced,
    String.ofList_toList]
  exact if_pos ⟨e.proper_name.toList_ne_nil, unspaced⟩

private theorem unmarked_opened : isMarker (e.name ++ ": " ++ e.opening) = false := by
  rw [Bool.eq_false_iff]
  intro marked
  have split := e.opened_split
  rcases isMarker_iff.mp marked with marker | marker
  · have alone : splitAtColon "Args:".toList = some ("Args".toList, []) := by decide
    rw [marker, alone] at split
    cases congrArg (Option.map Prod.snd) split
  · have alone : splitAtColon "Arguments:".toList = some ("Arguments".toList, []) := by decide
    rw [marker, alone] at split
    cases congrArg (Option.map Prod.snd) split

end Entry

namespace Reading

def holding (entry : String × String) (r : Reading) : Reading :=
  { r with current := some entry }

section Lines

variable {line : String} (r : Reading)

theorem advance_marker (marker : isMarker (Text.trim line) = true) :
    r.advance line = { r with inArguments := true } := by
  simp only [advance, marker, if_true]

theorem advance_blank (blank : Text.trim line = "") : r.advance line = r := by
  have unmarked : isMarker "" = false := by decide
  have opensNone : entry? "" = none := by decide
  simp [advance, blank, unmarked, opensNone]

variable {r} (unmarked : isMarker (Text.trim line) = false)

include unmarked

theorem advance_description (outside : r.inArguments = false) (some : Text.trim line ≠ "") :
    r.advance line = { r with description := r.description ++ [Text.trim line] } := by
  simp [advance, unmarked, outside, some]

theorem advance_opening (inside : r.inArguments = true) {entry : String × String}
    (opens : entry? (Text.trim line) = some entry) : r.advance line = r.close.holding entry := by
  simp [advance, unmarked, inside, opens, holding]

theorem advance_continuing (inside : r.inArguments = true)
    (opensNone : entry? (Text.trim line) = none) (some : Text.trim line ≠ "") :
    r.advance line = { r with
      current := r.current.map fun (name, text) => (name, text ++ " " ++ Text.trim line) } := by
  simp [advance, unmarked, inside, opensNone, some]

end Lines

theorem foldl_laidOut {rows lines : List String} (laid : LaidOut rows lines) (r : Reading) :
    lines.foldl advance r = rows.foldl advance r := by
  induction laid generalizing r with
  | nil => rfl
  | blank blank _ ih =>
    rw [List.foldl_cons, advance_blank r (Text.trim_allBlank blank), ih]
  | @row _ _ line row before after parts start finish _ ih =>
    have same : r.advance line = r.advance row := by
      simp only [advance, parts, Text.trim_padded start finish]
    rw [List.foldl_cons, List.foldl_cons, same, ih]

private theorem foldl_description {description : List String}
    (described : ∀ line ∈ description, ¬Text.AllBlank line.toList)
    (unmarked : ∀ line ∈ description, isMarker (Text.trim line) = false) {r : Reading}
    (outside : r.inArguments = false) :
    description.foldl advance r =
      { r with description := r.description ++ description.map Text.trim } := by
  induction description generalizing r with
  | nil => simp
  | cons line rest ih =>
    obtain ⟨here, others⟩ := List.forall_mem_cons.mp described
    obtain ⟨here', others'⟩ := List.forall_mem_cons.mp unmarked
    rw [List.foldl_cons, advance_description here' outside (Text.trim_ne_empty here),
      ih others others' (by exact outside), List.map_cons, List.append_assoc,
      List.singleton_append]

section Entries

variable {r : Reading} (inside : r.inArguments = true)

include inside

private theorem advance_continues {piece : String} (continues : Continues piece)
    (name text : String) :
    (r.holding (name, text)).advance piece = r.holding (name, text ++ " " ++ piece) := by
  have trimmed : Text.trim piece = piece := Text.trim_of_normal continues.proper.normal
  have unmarked := continues.unmarked
  have opensNone := entry?_eq_none_iff.mpr continues.opensNone
  have some := continues.proper.some
  rw [← trimmed] at unmarked opensNone some
  rw [advance_continuing unmarked (by exact inside) opensNone some, trimmed]
  rfl

private theorem foldl_continues {more : List String} (continues : ∀ piece ∈ more, Continues piece)
    (name text : String) :
    more.foldl advance (r.holding (name, text)) =
      r.holding (name, " ".intercalate (text :: more)) := by
  induction more generalizing text with
  | nil => rfl
  | cons piece more ih =>
    obtain ⟨here, others⟩ := List.forall_mem_cons.mp continues
    rw [List.foldl_cons, advance_continues inside here, ih others, Text.intercalate_eq_foldl,
      Text.intercalate_eq_foldl, List.foldl_cons]

private theorem close_inArguments : r.close.inArguments = true := by
  unfold close
  split <;> exact inside

private theorem foldl_entry (e : Entry) :
    e.rows.foldl advance r = r.close.holding (e.name, e.text) := by
  have trimmed : Text.trim (e.name ++ ": " ++ e.opening) = e.name ++ ": " ++ e.opening :=
    Text.trim_of_normal e.proper_opened.normal
  have unmarked := e.unmarked_opened
  have opens := e.opened_entry
  rw [← trimmed] at unmarked opens
  rw [Entry.rows, List.foldl_cons, advance_opening unmarked inside opens]
  exact foldl_continues (close_inArguments inside) e.continues e.name e.opening

private theorem close_foldl_entries (entries : List Entry) :
    let last := ((entries.flatMap Entry.rows).foldl advance r).close
    last.description = r.close.description ∧
      last.finished =
        Dictionary.override r.close.finished (entries.map fun e => (e.name, e.text)) := by
  induction entries generalizing r with
  | nil => exact ⟨rfl, rfl⟩
  | cons e rest ih =>
    rw [List.flatMap_cons, List.foldl_append, foldl_entry inside e]
    exact ih (close_inArguments inside)

end Entries

end Reading

private theorem find?_entries (name : String) (entries : List Entry) :
    Dictionary.find? name (entries.map fun e => (e.name, e.text)) =
      (entries.find? (·.name = name)).map Entry.text := by
  induction entries with
  | nil => rfl
  | cons e rest ih =>
    rw [List.map_cons, Dictionary.find?, List.find?_cons, ih]
    by_cases same : e.name = name
    · simp [same]
    · simp [same]

/-- Documentation in the documented form is read back from its lines, whatever blanks are around
them and whatever blank lines are between them. The description is one text, and each argument has
the text of the last entry of its name, with a space for each new line. -/
theorem drafted_docs_read_back (d : Draft) (lines : List String) (laid : LaidOut d.rows lines) :
    (ofLines lines).description = " ".intercalate (d.description.map Text.trim) ∧
      ∀ name, Dictionary.find? name (ofLines lines).arguments =
        (d.entries.reverse.find? (·.name = name)).map Entry.text := by
  have trimmed : Text.trim d.marker = d.marker := by
    rcases isMarker_iff.mp d.marked with marker | marker <;> rw [marker] <;> decide
  have marked : isMarker (Text.trim d.marker) = true := by rw [trimmed, d.marked]
  obtain ⟨description, finished⟩ := Reading.close_foldl_entries
    (r := { description := d.description.map Text.trim, inArguments := true }) rfl d.entries
  have read : lines.foldl Reading.advance {} = (d.entries.flatMap Entry.rows).foldl Reading.advance
      { description := d.description.map Text.trim, inArguments := true } := by
    rw [Reading.foldl_laidOut laid, Draft.rows, List.foldl_append, List.foldl_cons,
      Reading.foldl_description d.described d.unmarked rfl, Reading.advance_marker _ marked]
    rfl
  unfold ofLines
  rw [read]
  refine ⟨congrArg " ".intercalate description, fun name => ?_⟩
  change Dictionary.find? name (Reading.close _).finished = _
  rw [finished, Dictionary.find?_override, ← List.map_reverse, find?_entries]
  exact Option.or_none

/-- Documentation with two entries of one name, and with lines that have colons and go on with the
entry before. -/
def Draft.repeating : Draft where
  description := ["Scale a vector.", "It keeps its direction."]
  marker := "Arguments:"
  entries := [
    { name := "by", opening := "old"
      named := by decide, plain := by decide, opens := ⟨by decide, by decide⟩
      continues := by simp },
    { name := "x", opening := "The vector,", more := ["also called: v", ": or none"]
      named := by decide, plain := by decide, opens := ⟨by decide, by decide⟩
      continues := by
        have also : Continues "also called: v" :=
          ⟨⟨by decide, by decide⟩, by decide, entry?_eq_none_iff.mp (by decide)⟩
        have none : Continues ": or none" :=
          ⟨⟨by decide, by decide⟩, by decide, entry?_eq_none_iff.mp (by decide)⟩
        simp [also, none] },
    { name := "by", opening := "The factor"
      named := by decide, plain := by decide, opens := ⟨by decide, by decide⟩
      continues := by simp }]
  described := by decide
  unmarked := by decide
  marked := by decide

theorem repeated_name_read_back :
    let lines := [" Scale a vector.", "", "It keeps its direction. ", "\tArguments:", "by: old",
      " ", "    x: The vector,", "      also called: v", "   : or none", "by: The factor  "]
    LaidOut Draft.repeating.rows lines ∧
      (ofLines lines).description = "Scale a vector. It keeps its direction." ∧
      Dictionary.find? "by" (ofLines lines).arguments = some "The factor" ∧
      Dictionary.find? "x" (ofLines lines).arguments =
        some "The vector, also called: v : or none" ∧
      Dictionary.find? "also called" (ofLines lines).arguments = none := by
  intro lines
  have laid : LaidOut Draft.repeating.rows lines := by
    refine .row " " "" (by decide) (by decide) (by decide) ?_
    refine .blank (by decide) ?_
    refine .row "" " " (by decide) (by decide) (by decide) ?_
    refine .row "\t" "" (by decide) (by decide) (by decide) ?_
    refine .row "" "" (by decide) (by decide) (by decide) ?_
    refine .blank (by decide) ?_
    refine .row "    " "" (by decide) (by decide) (by decide) ?_
    refine .row "      " "" (by decide) (by decide) (by decide) ?_
    refine .row "   " "" (by decide) (by decide) (by decide) ?_
    exact .row "" "  " (by decide) (by decide) (by decide) .nil
  obtain ⟨description, arguments⟩ := drafted_docs_read_back Draft.repeating lines laid
  have joined : " ".intercalate (Draft.repeating.description.map Text.trim) =
      "Scale a vector. It keeps its direction." := by decide
  exact ⟨laid, description.trans joined, arguments "by", arguments "x", arguments "also called"⟩

/-- The text was put together from the opening of an entry of the name and from further pieces. -/
def Gathered (lines : List String) (name text : String) : Prop :=
  ∃ opening more, (∃ line ∈ lines, entry? (Text.trim line) = some (name, opening)) ∧
    (∀ piece ∈ more, Text.Proper piece) ∧ text = " ".intercalate (opening :: more)

theorem Gathered.extended {lines : List String} {name text piece : String}
    (gathered : Gathered lines name text) (proper : Text.Proper piece) :
    Gathered lines name (text ++ " " ++ piece) := by
  obtain ⟨opening, more, opened, every, rfl⟩ := gathered
  refine ⟨opening, more ++ [piece], opened, ?_, ?_⟩
  · simpa [or_imp, forall_and] using ⟨every, proper⟩
  · rw [Text.intercalate_eq_foldl, Text.intercalate_eq_foldl, List.foldl_append]
    rfl

private theorem normal_of_opening {line name opening : String}
    (opens : entry? line = some (name, opening)) : Text.Normal opening.toList := by
  unfold entry? at opens
  split at opens
  · dsimp only at opens
    split at opens
    · cases opens
      rw [String.toList_ofList]
      exact Text.normal_trimChars _
    · cases opens
  · cases opens

/-- The texts so far come from the lines. -/
structure Reading.Sound (lines : List String) (r : Reading) : Prop where
  description : ∀ piece ∈ r.description, Text.Proper piece
  finished : ∀ entry ∈ r.finished, Gathered lines entry.1 entry.2
  current : ∀ entry ∈ r.current, Gathered lines entry.1 entry.2

namespace Reading.Sound

variable {lines : List String} {r : Reading}

theorem close (sound : r.Sound lines) : r.close.Sound lines := by
  unfold Reading.close
  split
  · rename_i name text open_
    refine ⟨sound.description, ?_, by simp⟩
    intro entry member
    rcases Dictionary.mem_insert member with rfl | before
    · exact sound.current _ open_
    · exact sound.finished entry before
  · exact sound

theorem advance (sound : r.Sound lines) {line : String} (member : line ∈ lines) :
    (r.advance line).Sound lines := by
  by_cases blank : Text.trim line = ""
  · rwa [advance_blank r blank]
  have proper : Text.Proper (Text.trim line) := ⟨blank, Text.normal_trim line⟩
  cases marker : isMarker (Text.trim line) with
  | true =>
    rw [advance_marker r marker]
    exact ⟨sound.description, sound.finished, sound.current⟩
  | false =>
    cases place : r.inArguments with
    | false =>
      rw [advance_description marker place blank]
      refine ⟨?_, sound.finished, sound.current⟩
      simpa [or_imp, forall_and] using ⟨sound.description, proper⟩
    | true =>
      cases opens : entry? (Text.trim line) with
      | some entry =>
        rw [advance_opening marker place opens]
        refine ⟨sound.close.description, sound.close.finished, ?_⟩
        rintro _ ⟨⟩
        exact ⟨entry.2, [], ⟨line, member, opens⟩, by simp, String.intercalate_singleton.symm⟩
      | none =>
        rw [advance_continuing marker place opens blank]
        refine ⟨sound.description, sound.finished, ?_⟩
        intro entry continued
        obtain ⟨⟨name, text⟩, before, rfl⟩ := Option.map_eq_some_iff.mp continued
        exact (sound.current _ before).extended proper

theorem foldl {rest : List String} (subset : rest ⊆ lines) (sound : r.Sound lines) :
    (rest.foldl Reading.advance r).Sound lines := by
  induction rest generalizing r with
  | nil => exact sound
  | cons line rest ih =>
    obtain ⟨here, later⟩ := List.cons_subset.mp subset
    exact ih later (sound.advance here)

end Reading.Sound

/-- The description has no blanks at its ends, and neither has the text of an argument, with one
exception: a text that goes on after an entry without a text of its own begins with the space that
separates the two. -/
theorem texts_normal_unless_opened_empty (lines : List String) :
    Text.Normal (ofLines lines).description.toList ∧
      ∀ name text, (name, text) ∈ (ofLines lines).arguments →
        Text.Normal text.toList ∨
          ∃ rest, text = " " ++ rest ∧ Text.Proper rest ∧
            ∃ line ∈ lines, entry? (Text.trim line) = some (name, "") := by
  have start : ({} : Reading).Sound lines := ⟨by simp, by simp, by simp⟩
  have sound := (start.foldl (List.Subset.refl lines)).close
  constructor
  · have every := sound.description
    change Text.Normal (" ".intercalate (Reading.close _).description).toList
    cases pieces : (Reading.close _).description with
    | nil => decide
    | cons first more =>
      rw [pieces] at every
      obtain ⟨here, others⟩ := List.forall_mem_cons.mp every
      exact (here.joined others).normal
  · intro name text member
    obtain ⟨opening, more, ⟨line, there, opens⟩, every, rfl⟩ := sound.finished _ member
    by_cases empty : opening = ""
    · subst empty
      cases more with
      | nil => exact .inl (by decide)
      | cons piece more =>
        obtain ⟨here, others⟩ := List.forall_mem_cons.mp every
        refine .inr ⟨" ".intercalate (piece :: more), ?_, here.joined others, line, there, opens⟩
        rw [String.intercalate_cons_cons, String.empty_append]
    · exact .inl (Text.Proper.joined ⟨empty, normal_of_opening opens⟩ every).normal

/-- The text of the argument begins with a space. -/
theorem text_after_empty_opening_not_normal :
    ("x", " The vector") ∈ (ofLines ["Args:", "x:", "The vector"]).arguments ∧
      ¬Text.Normal " The vector".toList := by
  decide

end Declaration.Docs

end JsonScript
