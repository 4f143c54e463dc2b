import BranchText.Proofs.Indexed.Grammar

/-!
# What readers give

`Yields` says that the values of a reader are good ones, and has a rule for each way in which
readers are put together. A reader that one by byte index mirrors ends at a place of the source,
and where less is left to read, more has been read.
-/

namespace BranchText

/-- If the reader gives a value, it is a good one. -/
def Yields {ε α : Type} (read : Except ε α) (good : α → Prop) : Prop :=
  ∀ value, read = .ok value → good value

namespace Yields

variable {ε α β : Type} {good : α → Prop}

theorem pure {value : α} (here : good value) : Yields (pure value : Except ε α) good := by
  intro found same
  cases same
  exact here

theorem throw (error : ε) : Yields (throw error : Except ε α) good := by
  intro found same
  cases same

theorem bind {read : Except ε β} {next : β → Except ε α} {close : β → Prop}
    (first : Yields read close) (second : ∀ value, close value → Yields (next value) good) :
    Yields (read >>= next) good := by
  intro value given
  cases read with
  | error error => cases given
  | ok found => exact second found (first found rfl) value given

/-- A part whose value is only changed behind it. -/
theorem lastly {read : Except ε β} {change : β → α} {close : β → Prop} (first : Yields read close)
    (kept : ∀ value, close value → good (change value)) :
    Yields (read >>= fun value => Pure.pure (change value)) good :=
  first.bind fun value here => .pure (kept value here)

/-- Parts of which nothing needs to be known. -/
theorem skip {read : Except ε β} {next : β → Except ε α}
    (second : ∀ value, Yields (next value) good) : Yields (read >>= next) good :=
  bind (fun _ _ => trivial) fun value (_ : True) => second value

/-- Either of two such parts, with the same behind it. -/
theorem skipEither {condition : Prop} [Decidable condition] {first second : Except ε β}
    {next : β → Except ε α} (goOn : ∀ value, Yields (next value) good) :
    Yields (if condition then first >>= next else second >>= next) good := by
  split
  · exact skip goOn
  · exact skip goOn

end Yields

namespace Cursor

variable {source : List Char} {cursor later : Cursor}

/-- Where as much or less is left to read, as much or more has been read. -/
theorem In.forward (isIn : cursor.In source) (laterIn : later.In source)
    (less : later.size ≤ cursor.size) : cursor.offset ≤ later.offset := by
  have total := isIn.stop_eq
  have totalLater := laterIn.stop_eq
  obtain ⟨front, split, -⟩ := isIn
  obtain ⟨front', split', -⟩ := laterIn
  have suffix : later.rest <:+ cursor.rest :=
    List.suffix_of_suffix_length_le ⟨front', split'.symm⟩ ⟨front, split.symm⟩ less
  obtain ⟨between, same⟩ := suffix
  rw [← same, byteLength_append] at total
  omega

/-- Where less is left to read, more has been read. -/
theorem In.onward (isIn : cursor.In source) (laterIn : later.In source)
    (less : later.size < cursor.size) : cursor.offset < later.offset := by
  have total := isIn.stop_eq
  have totalLater := laterIn.stop_eq
  obtain ⟨front, split, -⟩ := isIn
  obtain ⟨front', split', -⟩ := laterIn
  have suffix : later.rest <:+ cursor.rest :=
    List.suffix_of_suffix_length_le ⟨front', split'.symm⟩ ⟨front, split.symm⟩ (Nat.le_of_lt less)
  obtain ⟨between, same⟩ := suffix
  cases between with
  | nil =>
    have sizes : later.size = cursor.size := congrArg List.length same
    omega
  | cons c rest =>
    rw [← same, byteLength_append, byteLength_cons] at total
    have positive := c.utf8Size_pos
    omega

end Cursor

namespace Reader

variable {source : List Char} {cursor : Cursor}

/-- A reader of cursors that one by byte index mirrors ends at a place of the source. -/
theorem yields_in {α : Type} {limit : Nat} {part : Indexed α}
    {outcome : Except ReadError (Reading α limit)}
    (mirrors : Indexed.Mirrors source part cursor outcome Reading.view) (isIn : cursor.In source) :
    Yields outcome fun reading => reading.rest.In source := by
  rintro reading rfl
  exact mirrors.rest_in isIn

end Reader

end BranchText
