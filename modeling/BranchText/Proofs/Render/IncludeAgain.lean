import BranchText.Proofs.Render.Isolation
import Mathlib.Data.List.Induction

/-!
# Including a document again

A document that is included is rendered on its own, from a copy of the generator that the include
leaves as it was. So it gives the same again at once. What it hands over is then already there:
putting the same entries in a table again, or the same layer over settings, changes nothing.
-/

namespace BranchText

namespace Table

variable {κ α β : Type} [DecidableEq κ]

/-- A later value takes the place of an earlier one. -/
theorem insert_insert (table : Table κ α) (key : κ) (earlier later : α) :
    (table.insert key earlier).insert key later = table.insert key later := by
  obtain ⟨entries⟩ := table
  simp only [insert]
  congr 1
  induction entries with
  | nil => simp [insertInto]
  | cons entry rest ih =>
    obtain ⟨other, old⟩ := entry
    by_cases same : key = other
    · simp [insertInto, same]
    · simp [insertInto, same, ih]

/-- A value for a key that is there can be set before or behind that of another key. -/
theorem insert_comm {table : Table κ α} {key other : κ} (present : ∃ old, (key, old) ∈ table.entries)
    (apart : key ≠ other) (value added : α) :
    (table.insert other added).insert key value = (table.insert key value).insert other added := by
  obtain ⟨entries⟩ := table
  simp only [insert]
  congr 1
  induction entries with
  | nil => obtain ⟨_, listed⟩ := present; cases listed
  | cons entry rest ih =>
    obtain ⟨first, old⟩ := entry
    by_cases here : key = first
    · subst here
      simp [insertInto, Ne.symm apart]
    · have later : ∃ old, (key, old) ∈ rest := by
        obtain ⟨value, listed⟩ := present
        refine ⟨value, (List.mem_cons.1 listed).resolve_left fun same => ?_⟩
        exact here (Prod.mk.inj same).1
      by_cases there : other = first
      · simp [insertInto, here, there]
      · simp [insertInto, here, there, ih later]

theorem mem_insert (table : Table κ α) (key : κ) (value : α) :
    (key, value) ∈ (table.insert key value).entries := by
  refine mem_of_get? ?_
  rw [get?_insert, if_pos rfl]

/-- A key that is there stays. -/
theorem exists_mem_insert {table : Table κ α} {key : κ} (present : ∃ old, (key, old) ∈ table.entries)
    (other : κ) (added : α) : ∃ old, (key, old) ∈ (table.insert other added).entries := by
  obtain ⟨entries⟩ := table
  simp only [insert]
  induction entries with
  | nil => obtain ⟨_, listed⟩ := present; cases listed
  | cons entry rest ih =>
    obtain ⟨value, listed⟩ := present
    rw [insertInto]
    split
    · rename_i same
      rcases List.mem_cons.1 listed with rfl | later
      · exact ⟨added, same ▸ List.mem_cons_self ..⟩
      · exact ⟨value, List.mem_cons_of_mem _ later⟩
    · rcases List.mem_cons.1 listed with rfl | later
      · exact ⟨value, List.mem_cons_self ..⟩
      · obtain ⟨old, further⟩ := ih ⟨value, later⟩
        exact ⟨old, List.mem_cons_of_mem _ further⟩

/-- A value that is set behind entries whose keys are there need not be set before them. -/
theorem insert_extend_insert {table : Table κ α} {entries : List (κ × α)}
    (present : ∀ entry ∈ entries, ∃ old, (entry.1, old) ∈ table.entries) (key : κ)
    (earlier later : α) :
    ((table.insert key earlier).extend entries).insert key later =
      (table.extend entries).insert key later := by
  induction entries generalizing table earlier with
  | nil => exact insert_insert table key earlier later
  | cons entry rest ih =>
    have further : ∀ other ∈ rest, ∃ old, (other.1, old) ∈ (table.insert entry.1 entry.2).entries :=
      fun other listed => exists_mem_insert (present other (List.mem_cons_of_mem _ listed)) _ _
    change (((table.insert key earlier).insert entry.1 entry.2).extend rest).insert key later =
      ((table.insert entry.1 entry.2).extend rest).insert key later
    by_cases same : entry.1 = key
    · rw [same, insert_insert]
    · rw [insert_comm (present entry (List.mem_cons_self ..)) same]
      exact ih further earlier

theorem extend_concat (table : Table κ α) (entries : List (κ × α)) (entry : κ × α) :
    table.extend (entries ++ [entry]) = (table.extend entries).insert entry.1 entry.2 := by
  rw [extend, List.foldl_append]
  rfl

theorem exists_mem_extend (table : Table κ α) {entries : List (κ × α)} {entry : κ × α}
    (listed : entry ∈ entries) : ∃ old, (entry.1, old) ∈ (table.extend entries).entries := by
  induction entries using List.reverseRecOn with
  | nil => cases listed
  | append_singleton front last ih =>
    rw [extend_concat]
    rcases List.mem_append.1 listed with earlier | isLast
    · exact exists_mem_insert (ih earlier) _ _
    · obtain rfl := List.mem_singleton.1 isLast
      exact ⟨_, mem_insert ..⟩

/-- Setting the same values again changes nothing. -/
theorem extend_extend (table : Table κ α) (entries : List (κ × α)) :
    (table.extend entries).extend entries = table.extend entries := by
  induction entries using List.reverseRecOn with
  | nil => rfl
  | append_singleton front last ih =>
    rw [extend_concat, extend_concat, insert_extend_insert (fun _ => exists_mem_extend table), ih]

theorem map_insert (change : α → β) (table : Table κ α) (key : κ) (value : α) :
    (table.insert key value).map change = (table.map change).insert key (change value) := by
  obtain ⟨entries⟩ := table
  simp only [insert, map]
  congr 1
  induction entries with
  | nil => rfl
  | cons entry rest ih =>
    by_cases same : key = entry.1
    · simp [insertInto, same]
    · simp [insertInto, same, ih]

theorem map_extend (change : α → β) (table : Table κ α) (entries : List (κ × α)) :
    (table.extend entries).map change =
      (table.map change).extend (entries.map fun entry => (entry.1, change entry.2)) := by
  induction entries generalizing table with
  | nil => rfl
  | cons entry rest ih =>
    refine (ih (table.insert entry.1 entry.2)).trans ?_
    rw [map_insert]
    rfl

end Table

/-- A layer over itself is that layer. -/
theorem SettingsLayer.withOver_self (lower upper : SettingsLayer) :
    (lower.withOver upper).withOver upper = lower.withOver upper := by
  rw [withOver_assoc]
  simp [withOver]

namespace Provided

/-- What was provided, whichever session it belongs to. -/
def withoutSession : Provided → Provided
  | function callable _ => function callable 0
  | value text => value text

theorem withoutSession_shift (provided : Provided) (count : Nat) :
    (provided.shift count).withoutSession = provided.withoutSession := by
  cases provided <;> rfl

/-- The functions of a document are the same wherever their sessions stand. -/
theorem map_extend_shift (functions added : Table String Provided) (count : Nat) :
    (functions.extend (added.map (·.shift count)).entries).map withoutSession =
      (functions.map withoutSession).extend (added.map withoutSession).entries := by
  rw [Table.map_extend]
  congr 1
  simp [Table.map, withoutSession_shift]

end Provided

namespace Rendering

/-- What a document hands over depends on the generator alone. -/
theorem outcome_renderIncluded (child : Setting → List Node → Rendering String) (setting : Setting)
    (path : String) {state other : RenderState} (same : state.generator = other.generator) :
    ((renderIncluded child setting path).run state).1 =
      ((renderIncluded child setting path).run other).1 := by
  have noted : ∀ (event : Event) (next : Unit → Rendering Included) (state : RenderState),
      (note event >>= next).run state = (next ()).run (state.noted event) := fun _ _ _ => rfl
  have got : ∀ (next : RenderState → Rendering Included) (state : RenderState),
      (get >>= next).run state = (next state).run state := fun _ _ => rfl
  unfold renderIncluded
  rw [noted, noted]
  cases setting.loader (Path.join setting.directory path) with
  | error error => rfl
  | ok source =>
    simp only
    cases Document.read source.toList with
    | error error => rfl
    | ok document =>
      have kept : (state.noted (.loaded (Path.join setting.directory path))).generator =
          (other.noted (.loaded (Path.join setting.directory path))).generator := same
      simp only [got, noted, kept]
      split <;> rfl

/-- A document that is included has been rendered on its own and taken over. -/
theorem exists_of_includeDocument {setting : Setting} {path text : String}
    {state after : RenderState}
    (ended : (includeDocument setting path).run state = (.ok text, after)) :
    ∃ included events, (renderIncluded nodes setting path).run state =
        (.ok included, { state with events := events }) ∧
      included.text = text ∧ after = mergedState included { state with events := events } := by
  rw [includeDocument, run_bind] at ended
  obtain ⟨events, kept⟩ := (fetches_renderIncluded nodes setting path state).1
  rcases run : (renderIncluded nodes setting path).run state with ⟨error | included, later⟩
  · rw [run] at ended
    cases ended
  · rw [run] at ended kept
    obtain rfl := kept
    obtain ⟨same, rfl⟩ := Prod.mk.inj ended
    exact ⟨included, events, rfl, Except.ok.inj same, rfl⟩

/-- A document that draws, provides a function and switches a mode. -/
def appendix : String :=
  "\x7bM: (x), (y)\x7d\x7b# [provide(#\x7b f: || \"theirs\" \x7d)]\x7d\x7buse m\x7d"

/-- A setting in which the appendix can be included. -/
def appended : Setting := ⟨true, ".", .ofDocuments [("./appendix.txt", appendix)]⟩

/-- How including the appendix ends. -/
def endOfAppendix : Except RenderError String × RenderState :=
  (includeDocument appended "appendix.txt").run atStart

end Rendering

end BranchText
