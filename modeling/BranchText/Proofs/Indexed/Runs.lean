import BranchText.Indexed.Stream
import BranchText.Proofs.Indexed.Places

/-!
# Runs of readers by byte index

`Indexed.Runs` states that a computation has a value, and what it ends with. There is one rule for
each checked access, which asks for the access to be allowed.
-/

namespace BranchText

namespace Indexed

variable {α β : Type}

/-- The computation has a value: it ends well with a good value and stream, or fails with an error
that is expected. -/
def Runs (part : Indexed α) (lexer : Lexer) (good : α → Lexer → Prop)
    (failing : ReadError → Prop) : Prop :=
  match (part.run lexer).run with
  | some (.ok (value, later)) => good value later
  | some (.error error) => failing error
  | none => False

section Rules

variable {lexer : Lexer} {good : α → Lexer → Prop} {failing : ReadError → Prop}

theorem Runs.imp {part : Indexed α} {better : α → Lexer → Prop} {worse : ReadError → Prop}
    (runs : Runs part lexer better worse)
    (weaker : ∀ value later, better value later → good value later)
    (weakerFailing : ∀ error, worse error → failing error) : Runs part lexer good failing := by
  unfold Runs at runs ⊢
  generalize (part.run lexer).run = outcome at runs
  rcases outcome with _ | _ | ⟨value, later⟩
  · exact runs
  · exact weakerFailing _ runs
  · exact weaker _ _ runs

@[simp]
theorem runs_pure (value : α) :
    Runs (pure value) lexer good failing ↔ good value lexer := Iff.rfl

@[simp]
theorem runs_throw (error : ReadError) :
    Runs (throw error : Indexed α) lexer good failing ↔ failing error := Iff.rfl

@[simp]
theorem runs_bind (part : Indexed β) (next : β → Indexed α) :
    Runs (part >>= next) lexer good failing ↔
      Runs part lexer (fun value later => Runs (next value) later good failing) failing := by
  have run : ((part >>= next).run lexer).run = (part.run lexer).run >>= fun outcome =>
      match outcome with
      | .ok (value, later) => ((next value).run later).run
      | .error error => some (.error error) := by
    change (do
      let outcome ← (part.run lexer).run
      ExceptT.bindCont _ outcome) = _
    congr 1
    funext outcome
    cases outcome <;> rfl
  unfold Runs
  rw [run]
  rcases (part.run lexer).run with _ | _ | ⟨value, later⟩ <;> rfl

@[simp]
theorem runs_map (change : β → α) (part : Indexed β) :
    Runs (change <$> part) lexer good failing ↔
      Runs part lexer (fun value later => good (change value) later) failing := by
  rw [map_eq_pure_bind, runs_bind]
  rfl

@[simp]
theorem runs_discard (part : Indexed β) {good : Unit → Lexer → Prop} :
    Runs (discard part) lexer good failing ↔
      Runs part lexer (fun _ later => good () later) failing := by
  unfold discard
  rw [show Functor.mapConst PUnit.unit part = (fun _ => PUnit.unit) <$> part from rfl, runs_map]

@[simp]
theorem runs_get {good : Lexer → Lexer → Prop} :
    Runs get lexer good failing ↔ good lexer lexer := Iff.rfl

@[simp]
theorem runs_modify (change : Lexer → Lexer) {good : PUnit → Lexer → Prop} :
    Runs (modify change) lexer good failing ↔ good ⟨⟩ (change lexer) := Iff.rfl

@[simp]
theorem runs_source {good : List Char → Lexer → Prop} :
    Runs source lexer good failing ↔ good lexer.source lexer := Iff.rfl

@[simp]
theorem runs_here {good : Nat → Lexer → Prop} :
    Runs here lexer good failing ↔ good lexer.index lexer := Iff.rfl

/-- A place can be asked for. -/
theorem runs_place {cursor : Cursor} {good : Cursor → Lexer → Prop}
    (isIn : cursor.In lexer.source) :
    Runs (place cursor.offset) lexer good failing ↔ good cursor lexer := by
  unfold place
  rw [runs_bind, runs_source, isIn.at?]
  rfl

/-- The byte at an index within the source can be asked for. -/
theorem runs_byteAt {index : Nat} {byte : Char} {good : Char → Lexer → Prop}
    (found : (bytesOf lexer.source)[index]? = some byte) :
    Runs (byteAt index) lexer good failing ↔ good byte lexer := by
  unfold byteAt
  rw [runs_bind, runs_source, found]
  rfl

/-- The text between two places can be asked for. -/
theorem runs_slice {front back : Cursor} {good : List Char → Lexer → Prop}
    (frontIn : front.In lexer.source) (backIn : back.In lexer.source)
    (ordered : front.offset ≤ back.offset) :
    Runs (slice front.offset back.offset) lexer good failing ↔ good (front.textUntil back) lexer := by
  unfold slice
  rw [runs_bind, runs_place frontIn, runs_bind, runs_place backIn, if_pos ordered]
  rfl

/-- A place can be jumped to. -/
theorem runs_jump {cursor : Cursor} {good : Unit → Lexer → Prop} (isIn : cursor.In lexer.source) :
    Runs (jump cursor.offset) lexer good failing ↔
      good () { lexer with index := cursor.offset, ahead := none } := by
  unfold jump
  rw [runs_bind, runs_discard, runs_place isIn, runs_modify, Lexer.override,
    Nat.min_eq_left isIn.offset_le]

end Rules

end Indexed

end BranchText
