/-!
# Tables

A table keeps one value for each key. Entries stay in the order in which their keys first came in,
and a later value for a key takes the place of the earlier one.
-/

namespace BranchText

/-- Values by keys. -/
structure Table (κ α : Type) where
  entries : List (κ × α)
  deriving Repr

namespace Table

variable {κ α : Type}

/-- The table without entries. -/
def empty : Table κ α := ⟨[]⟩

instance : Inhabited (Table κ α) := ⟨empty⟩

variable [DecidableEq κ]

/-- The value of a key. -/
def get? (table : Table κ α) (key : κ) : Option α :=
  (table.entries.find? (·.1 = key)).map (·.2)

/-- Puts a value among entries: in the place of the one with its key, or at the end. -/
def insertInto (key : κ) (value : α) : List (κ × α) → List (κ × α)
  | [] => [(key, value)]
  | (other, old) :: rest =>
    if key = other then (key, value) :: rest else (other, old) :: insertInto key value rest

/-- Sets the value of a key. -/
def insert (table : Table κ α) (key : κ) (value : α) : Table κ α :=
  ⟨insertInto key value table.entries⟩

/-- Sets the values of all keys of another list of entries, one after another. -/
def extend (table : Table κ α) (entries : List (κ × α)) : Table κ α :=
  entries.foldl (fun table entry => table.insert entry.1 entry.2) table

/-- Changes every value. -/
def map {β : Type} (change : α → β) (table : Table κ α) : Table κ β :=
  ⟨table.entries.map fun entry => (entry.1, change entry.2)⟩

@[simp]
theorem get?_empty (key : κ) : (empty : Table κ α).get? key = none := rfl

theorem get?_insert (table : Table κ α) (key other : κ) (value : α) :
    (table.insert key value).get? other = if other = key then some value else table.get? other := by
  obtain ⟨entries⟩ := table
  simp only [get?, insert]
  induction entries with
  | nil => grind [insertInto]
  | cons entry rest ih => grind [insertInto]

/-- What is found after extending was there before or is among the entries. -/
theorem mem_or_get?_of_get?_extend {table : Table κ α} {entries : List (κ × α)} {key : κ}
    {value : α} (found : (table.extend entries).get? key = some value) :
    (key, value) ∈ entries ∨ table.get? key = some value := by
  induction entries generalizing table with
  | nil => exact .inr found
  | cons entry rest ih =>
    rcases ih found with later | before
    · exact .inl (List.mem_cons_of_mem _ later)
    · rw [get?_insert] at before
      split at before
      · rename_i same
        cases before
        exact .inl (same ▸ List.mem_cons_self ..)
      · exact .inr before

theorem mem_of_get? {table : Table κ α} {key : κ} {value : α}
    (found : table.get? key = some value) : (key, value) ∈ table.entries := by
  obtain ⟨entry, listed, rfl⟩ := Option.map_eq_some_iff.1 found
  obtain ⟨same, -⟩ := List.find?_eq_some_iff_append.1 listed
  rw [← of_decide_eq_true same]
  exact List.mem_of_find?_eq_some listed

/-- Every entry after inserting is the new one or was there before. -/
theorem mem_or_mem_of_mem_insert {table : Table κ α} {key : κ} {value : α} {entry : κ × α}
    (member : entry ∈ (table.insert key value).entries) :
    entry = (key, value) ∨ entry ∈ table.entries := by
  obtain ⟨entries⟩ := table
  simp only [insert] at member
  induction entries with
  | nil => exact .inl (List.mem_singleton.1 member)
  | cons other rest ih =>
    rw [insertInto] at member
    split at member
    · exact (List.mem_cons.1 member).imp_right (List.mem_cons_of_mem _)
    · rcases List.mem_cons.1 member with rfl | later
      · exact .inr (List.mem_cons_self ..)
      · exact (ih later).imp_right (List.mem_cons_of_mem _)

/-- Every entry after extending was there before or is among the added ones. -/
theorem mem_or_mem_of_mem_extend {table : Table κ α} {added : List (κ × α)} {entry : κ × α}
    (member : entry ∈ (table.extend added).entries) : entry ∈ added ∨ entry ∈ table.entries := by
  induction added generalizing table with
  | nil => exact .inr member
  | cons first rest ih =>
    rcases ih member with later | before
    · exact .inl (List.mem_cons_of_mem _ later)
    · rcases mem_or_mem_of_mem_insert before with rfl | earlier
      · exact .inl (List.mem_cons_self ..)
      · exact .inr earlier

end Table

end BranchText
