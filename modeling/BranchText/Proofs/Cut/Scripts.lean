import BranchText.Proofs.Compared.Fronts
import Mathlib.Logic.Relation

/-!
# Scripts that are cut

The search for the end of a script fails in a text that is cut in front of that end. What it reports
then is the script, or the string, template, comment or regex literal that the cut is inside of:
`Inside` says where the search of the whole script entered it.
-/

namespace BranchText

namespace Extent

/-- A step of the search from one place to the next. -/
inductive Passes : State × Cursor → State × Cursor → Prop
  | one {state later : State} {offset : Nat} {c : Char} {rest : List Char}
    (stepped : step state offset c rest.head? = .one later) :
    Passes (state, ⟨offset, c :: rest⟩) (later, ⟨offset + c.utf8Size, rest⟩)
  | two {state later : State} {offset : Nat} {c next : Char} {rest : List Char}
    (stepped : step state offset c (some next) = .two later) :
    Passes (state, ⟨offset, c :: next :: rest⟩)
      (later, ⟨offset + c.utf8Size + next.utf8Size, rest⟩)

/-- The search has entered a string, a template, a comment or a regex literal at the place, and has
not left it. -/
inductive Inside (start : State × Cursor) (place : Nat) : State × Cursor → Prop
  | enter {state : State} {rest : List Char} {now : State × Cursor}
    (leads : Relation.ReflTransGen Passes start (state, ⟨place, rest⟩)) (code : state.mode = .code)
    (passes : Passes (state, ⟨place, rest⟩) now) (within : now.1.mode ≠ .code) :
    Inside start place now
  | stay {before now : State × Cursor} (inside : Inside start place before)
    (passes : Passes before now) (within : now.1.mode ≠ .code) : Inside start place now

/-- What the search has entered at the place it is still inside of where it comes to the last
characters. -/
def HoldsUpTo (start : State × Cursor) (place count : Nat) : Prop :=
  ∃ now next, Inside start place now ∧ Passes now next ∧ next.2.size < count

variable {state later : State} {offset opening : Nat} {c : Char} {next : Option Char}

/-! ## Steps -/

theorem mode_of_step_close (stepped : step state offset c next = .close) : state.mode = .code := by
  unfold step stepCode at stepped
  grind

/-- A search that fails at a character does so whatever follows. -/
theorem step_fail {error : ReadError} (stepped : step state offset c next = .fail error)
    (other : Option Char) : step state offset c other = .fail error := by
  obtain ⟨mode, depth, significant, opened⟩ := state
  cases mode <;> simp only [step, stepCode] at stepped ⊢ <;> grind

/-- A character that takes one along that is missing is a backslash in a literal. -/
theorem step_two_none (stepped : step state offset c none = .two later) (other : Option Char) :
    later = state ∧ state.mode ≠ .code ∧ step state offset c other = .two state := by
  obtain ⟨mode, depth, significant, opened⟩ := state
  cases mode <;> simp only [step, stepCode] at stepped ⊢ <;> grind

/-- The character behind makes a difference where a comment starts or ends. -/
theorem of_step_ne {d : Char} (differ : step state offset c none ≠ step state offset c (some d)) :
    (state.mode = .code ∧
        ∃ comment, step state offset c (some d) = .two comment ∧ comment.mode ≠ .code) ∨
      state.mode = .blockComment ∧ step state offset c none = .one state ∧
        ∃ code, step state offset c (some d) = .two code := by
  obtain ⟨mode, depth, significant, opened⟩ := state
  cases mode <;> simp only [step, stepCode, State.enter] at differ ⊢ <;> grind

/-- What a step leads into has been entered here, or in front of here. -/
theorem opened_of_step (stepped : step state offset c next = .one later ∨
    step state offset c next = .two later) :
    later.mode = .code ∨ later.mode = .lineComment ∨ state.mode = .code ∧ later.opened = offset ∨
      state.mode ≠ .code ∧ state.mode ≠ .lineComment ∧ later.opened = state.opened := by
  obtain ⟨mode, depth, significant, opened⟩ := state
  cases mode <;> simp only [step, stepCode, State.enter, State.leave, State.pass] at stepped <;>
    grind

/-! ## Where the search has entered what it is inside of -/

section Origin

variable {start now : State × Cursor}

/-- The state knows where the search has entered what it is inside of. -/
def Knows (start now : State × Cursor) : Prop :=
  now.1.mode = .code ∨ now.1.mode = .lineComment ∨
    now.1.opened < now.2.offset ∧ Inside start now.1.opened now

/-- The search goes on knowing. -/
theorem Knows.step {place : Nat} {text rest : List Char}
    (knows : Knows start (state, ⟨offset, text⟩))
    (leads : Relation.ReflTransGen Passes start (state, ⟨offset, text⟩))
    (passes : Passes (state, ⟨offset, text⟩) (later, ⟨place, rest⟩))
    (stepped : step state offset c next = .one later ∨ step state offset c next = .two later)
    (further : offset < place) : Knows start (later, ⟨place, rest⟩) := by
  by_cases code : later.mode = .code
  · exact .inl code
  rcases opened_of_step stepped with left | line | ⟨code', same⟩ | ⟨notCode, notLine, same⟩
  · exact absurd left code
  · exact .inr (.inl line)
  · refine .inr (.inr ⟨same ▸ further, ?_⟩)
    rw [same]
    exact .enter leads code' passes code
  · rcases knows with isCode | isLine | ⟨less, inside⟩
    · exact absurd isCode notCode
    · exact absurd isLine notLine
    · refine .inr (.inr ⟨same ▸ Nat.lt_trans less further, ?_⟩)
      rw [same]
      exact inside.stay passes code

end Origin

theorem errorAtEnd_cases (opening : Nat) (state : State) :
    errorAtEnd opening state = .unclosedScript opening .script ∨
      state.mode ≠ .code ∧ state.mode ≠ .lineComment ∧
        ∃ kind, errorAtEnd opening state = .unclosedScript state.opened kind := by
  unfold errorAtEnd
  cases state.mode with
  | code => exact .inl rfl
  | lineComment => exact .inl rfl
  | quoted | template | blockComment | regex => exact .inr ⟨nofun, nofun, _, rfl⟩

/-- A search that ends goes on from inside of anything. -/
theorem passes_of_found {text : List Char} {close : Cursor} (within : state.mode ≠ .code)
    (found : find opening state offset text = .ok close) :
    ∃ next, Passes (state, ⟨offset, text⟩) next ∧ next.2.size < text.length := by
  cases text with
  | nil => cases found
  | cons c rest =>
    rw [find] at found
    split at found
    · rename_i stepped
      exact ⟨_, .one stepped, Nat.lt_succ_self _⟩
    · rename_i stepped
      split at found
      · cases found
      · exact ⟨_, .two stepped, Nat.lt_trans (Nat.lt_succ_self _) (Nat.lt_succ_self _)⟩
    · rename_i stepped
      exact absurd (mode_of_step_close stepped) within
    · cases found

/-! ## The end of the text -/

section Cut

variable {start : State × Cursor} {text back : List Char} {close : Cursor} {error : ReadError}

/-- What is reported if the text ends in front of the last characters: what it was started for, or
what it is inside of there. -/
theorem unclosed_atEnd {count stop : Nat} (knows : Knows start (state, ⟨offset, text⟩))
    (onward : state.mode ≠ .code → ∃ next, Passes (state, ⟨offset, text⟩) next ∧
      next.2.size < count) (before : offset ≤ stop) :
    errorAtEnd opening state = .unclosedScript opening .script ∨ ∃ place kind,
      errorAtEnd opening state = .unclosedScript place kind ∧ place < stop ∧
        HoldsUpTo start place count := by
  refine (errorAtEnd_cases opening state).imp_right fun ⟨notCode, notLine, kind, reports⟩ => ?_
  rcases knows with isCode | isLine | ⟨less, inside⟩
  · exact absurd isCode notCode
  · exact absurd isLine notLine
  · obtain ⟨next, passes, shorter⟩ := onward notCode
    exact ⟨_, kind, reports, Nat.lt_of_lt_of_le less before, _, next, inside, passes, shorter⟩

/-- At its last character the search of the text may go on otherwise than that of the whole: in
front of the second character of a mark that starts or ends a comment. -/
theorem unclosed_atMark (differ : step state offset c none ≠ step state offset c back.head?)
    (stepped : step state offset c none = .one later)
    (leads : Relation.ReflTransGen Passes start (state, ⟨offset, c :: back⟩))
    (knows : Knows start (state, ⟨offset, c :: back⟩))
    (found : find opening state offset (c :: back) = .ok close) :
    errorAtEnd opening later = .unclosedScript opening .script ∨ ∃ place kind,
      errorAtEnd opening later = .unclosedScript place kind ∧ place < offset + c.utf8Size ∧
        HoldsUpTo start place back.length := by
  have wide := c.utf8Size_pos
  obtain ⟨d, more, rfl⟩ : ∃ d more, back = d :: more := by
    refine List.exists_cons_of_ne_nil ?_
    rintro rfl
    exact differ rfl
  have shorter : more.length < (d :: more).length := Nat.lt_succ_self _
  rcases of_step_ne differ with ⟨code, comment, marked, within⟩ | ⟨-, alone, code, marked⟩
  · refine (errorAtEnd_cases opening later).imp_right fun ⟨notCode, notLine, kind, reports⟩ => ?_
    have opened : later.opened = offset := by
      rcases opened_of_step (.inl stepped) with isCode | isLine | ⟨-, same⟩ | ⟨notCode', -⟩
      · exact absurd isCode notCode
      · exact absurd isLine notLine
      · exact same
      · exact absurd code notCode'
    rw [find, List.head?_cons, marked] at found
    dsimp only at found
    have enters : Inside start offset (comment, ⟨offset + c.utf8Size + d.utf8Size, more⟩) :=
      .enter leads code (.two marked) within
    obtain ⟨next, passes, less⟩ := passes_of_found within found
    refine ⟨offset, kind, opened ▸ reports, Nat.lt_add_of_pos_right wide, _, next, enters,
      passes, ?_⟩
    exact Nat.lt_trans less shorter
  · obtain rfl : later = state := Step.one.inj (stepped.symm.trans alone)
    exact unclosed_atEnd knows (fun _ => ⟨_, .two marked, shorter⟩) (Nat.le_add_right ..)

/-- A search that ends in the whole text, and fails in the front of it, reports what it was started
for, or something that it is inside of up to the last characters of the front. -/
theorem unclosed_of_cut (leads : Relation.ReflTransGen Passes start (state, ⟨offset, text ++ back⟩))
    (knows : Knows start (state, ⟨offset, text ++ back⟩)) (left : back ≠ [])
    (found : find opening state offset (text ++ back) = .ok close)
    (failed : find opening state offset text = .error error) :
    error = .unclosedScript opening .script ∨ ∃ place kind,
      error = .unclosedScript place kind ∧ place < offset + byteLength text ∧
        HoldsUpTo start place back.length := by
  fun_induction find opening state offset text with
  | case1 state offset =>
    cases failed
    exact unclosed_atEnd knows (fun within => passes_of_found within found) (Nat.le_refl _)
  | case2 state offset c rest later stepped ih =>
    by_cases same : step state offset c rest.head? = step state offset c (rest ++ back).head?
    · have passes : Passes (state, ⟨offset, c :: (rest ++ back)⟩)
          (later, ⟨offset + c.utf8Size, rest ++ back⟩) := .one (same ▸ stepped)
      rw [List.cons_append, find, ← same, stepped] at found
      have further := Nat.lt_add_of_pos_right (n := offset) c.utf8Size_pos
      rw [byteLength_cons, ← Nat.add_assoc]
      exact ih (leads.tail passes) (knows.step leads passes (.inl stepped) further) found failed
    · obtain rfl : rest = [] := by
        cases rest with
        | nil => rfl
        | cons => exact absurd rfl same
      rw [find] at failed
      cases failed
      exact unclosed_atMark same stepped leads knows found
  | case3 state offset c later stepped =>
    cases failed
    obtain ⟨d, more, rfl⟩ := List.exists_cons_of_ne_nil left
    obtain ⟨rfl, within, escape⟩ := step_two_none stepped (some d)
    exact unclosed_atEnd knows (fun _ => ⟨_, .two escape, Nat.lt_succ_self _⟩)
      (Nat.le_add_right ..)
  | case4 state offset c later next rest stepped ih =>
    have passes : Passes (state, ⟨offset, c :: next :: (rest ++ back)⟩)
        (later, ⟨offset + c.utf8Size + next.utf8Size, rest ++ back⟩) := .two stepped
    rw [List.cons_append, List.cons_append, find, List.head?_cons] at found
    rw [List.head?_cons] at stepped
    rw [stepped] at found
    have wide := c.utf8Size_pos
    rw [byteLength_cons, byteLength_cons, ← Nat.add_assoc, ← Nat.add_assoc]
    exact ih (leads.tail passes) (knows.step leads passes (.inr stepped) (by omega)) found failed
  | case5 => cases failed
  | case6 state offset c rest error' stepped =>
    rw [List.cons_append, find, step_fail stepped] at found
    cases found

end Cut

end Extent

end BranchText
