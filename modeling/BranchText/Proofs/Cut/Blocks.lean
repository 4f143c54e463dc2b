import BranchText.Proofs.Cut.Parts

/-!
# A source and its front, block by block

The laws of the comparison. A block of the source that ends in front of the cut is read alike in the
front, as it is if the source is followed to its end; one that ends behind the cut is open there.
-/

namespace BranchText

namespace Cut

open Comparison Reader

variable (cut : Cut) {side : Side} {α κ : Type}

/-- What ends in front of the cut is read alike in both sides. -/
def ReadsAlike (view : α → κ) (part : ∀ cursor : Cursor, Except ReadError
    (Reading α (cursor.size + 1))) : Prop :=
  ∀ before later, before ++ later = cut.front → ∀ reading,
    part (cut.place before later .whole) = .ok reading → cut.back.length ≤ reading.rest.size →
      ∃ seen first last, first ++ last = cut.front ∧ ∀ side, ∃ found,
        part (cut.place before later side) = .ok found ∧ view found.value = seen ∧
          found.rest = cut.place first last side

variable {cut} {view : α → κ} {part : ∀ cursor : Cursor, Except ReadError
  (Reading α (cursor.size + 1))}

/-- If the source is followed to its end, what ends in front of the cut has been read alike. -/
theorem readsAlike_of_agree (agree : ∀ cursors : Followed .whole .together → Cursor,
      cut.Twins .whole .together cursors →
        (cut.comparison .whole).Agree ((cut.comparison .whole).Ends view)
          fun run => part (cursors run)) : cut.ReadsAlike view part := by
  intro before later split reading read inside
  have together : cut.Twins .whole .together fun run => cut.place before later run.1 :=
    .together before later split fun _ => rfl
  have ends : ∀ run : Followed .whole .together, run.1 = .whole →
      ∀ found, part (cut.place before later run.1) = .ok found →
        cut.back.length ≤ found.rest.size := by
    rintro ⟨other, _⟩ (rfl : other = .whole) found given
    cases read.symm.trans given
    exact inside
  cases agree _ together with
  | settled done =>
    cases done with
    | whole run isWhole error fails =>
      obtain ⟨other, _⟩ := run
      obtain rfl : other = .whole := isWhole
      rw [read] at fails
      cases fails
    | front _ _ followed => cases followed
  | values stage kept moves readings given same =>
    obtain ⟨⟨⟨seen, values⟩, rest⟩, closed⟩ := same
    cases stage with
    | together =>
      obtain rfl : kept = id := funext fun run => Subtype.ext (moves run)
      cases rest with
      | together first last whole stands =>
        exact ⟨seen, first, last, whole, fun side =>
          ⟨readings ⟨side, rfl⟩, given ⟨side, rfl⟩, values ⟨side, rfl⟩, stands ⟨side, rfl⟩⟩⟩
    | apart =>
      obtain closed | behind := closed
      · cases closed
      · obtain ⟨isWhole, less⟩ := behind (own .whole)
        exact absurd less (Nat.not_lt.2 (ends _ (moves (own .whole)) _ (given (own .whole))))

/-- What is read from the same place of both sides agrees, if it does where it ends behind the
cut. -/
theorem agree_of_readsAlike (alike : cut.ReadsAlike view part)
    {places : Followed side .together → Cursor} {before later : List Char}
    (split : before ++ later = cut.front)
    (stands : ∀ run, places run = cut.place before later run.1)
    (beyond : ∀ reading, part (cut.place before later .whole) = .ok reading →
      reading.rest.size < cut.back.length → (cut.comparison side).Agree
        ((cut.comparison side).Ends view) fun run => part (places run)) :
    (cut.comparison side).Agree ((cut.comparison side).Ends view) fun run => part (places run) := by
  obtain rfl : places = fun run => cut.place before later run.1 := funext stands
  cases read : part (cut.place before later .whole) with
  | error error => exact .settled (.whole ⟨.whole, rfl⟩ rfl error (by rw [read]; rfl))
  | ok reading =>
    by_cases inside : cut.back.length ≤ reading.rest.size
    · obtain ⟨seen, first, last, whole, all⟩ := alike before later split reading read inside
      choose readings reads values rests using all
      exact .here (fun run => readings run.1) (fun run => reads run.1)
        ⟨⟨⟨seen, fun run => values run.1⟩, .together first last whole fun run => rests run.1⟩,
          .inl rfl⟩
    · exact beyond reading read (Nat.not_le.1 inside)

/-- What is enclosed by a mark and another agrees. In the front it is read as in the source, or it
is open at the cut. -/
theorem agree_enclosed {stage : Stage} {cursors : Followed side stage → Cursor}
    {lexed : ∀ run, Lexed (cursors run)} {kind : TokenKind} {mark : List Char} {fault : Fault}
    {part : Nat → ∀ cursor : Cursor, Except ReadError (Reading α (cursor.size + 1))}
    (twins : cut.Twins side stage cursors) (read : ∀ run, (cursors run).next = .ok (lexed run))
    (tokens : (cut.comparison side).Tokens stage kind lexed)
    (encloses : (mark, kind) = (['\x7b'], .leftBrace) ∨ (mark, kind) = (['('], .leftParen))
    (alike : side = .front → ∀ opening, cut.ReadsAlike view (part opening))
    (isOpen : ∀ opening, cut.Opens opening mark (fun body last =>
      ∃ reading, part opening body = .ok reading ∧ reading.rest = last) →
        cut.IsOpen (.malformed opening fault))
    (agree : (side = .front → ∀ run, cut.IsOpen (.malformed (lexed run).token.start fault)) →
      (cut.comparison side).Agree ((cut.comparison side).Ends view) fun run =>
        part (lexed run).token.start (lexed run).after) :
    (cut.comparison side).Agree ((cut.comparison side).Ends view) fun run =>
      part (lexed run).token.start (lexed run).after := by
  have loud : kind.isInert = false := by rcases encloses with same | same <;> cases same <;> rfl
  cases side with
  | whole => exact agree nofun
  | front =>
    cases stage with
    | apart =>
      have behind := opens_alone twins read (own .front) ((tokens.kinds _).symm ▸ loud)
      rw [tokens.kinds] at behind
      rcases encloses with same | same <;> cases same <;> cases behind.1
    | together =>
      obtain ⟨before, later, split, stands⟩ := exists_mark twins read tokens mark
        (by rcases encloses with same | same <;> cases same <;> rfl)
        (by rcases encloses with same | same <;> cases same <;> decide)
      simp only [fun run => (stands run).1] at agree ⊢
      refine agree_of_readsAlike (alike rfl _) split.symm (fun run => (stands run).2)
        fun reading given beyond => agree fun _ _ => isOpen _ ?_
      exact opens_of_body split rfl ⟨reading, given, rfl⟩ beyond

/-- The laws hold if they do of what is enclosed. -/
theorem lawful (block : side = .front → ∀ opening, cut.ReadsAlike blockView (Reader.block opening))
    (nested : side = .front → ∀ opening, cut.ReadsAlike nodesView
      (sequence (some opening) 0 .empty .empty)) : (cut.comparison side).Lawful where
  next := agree_next
  gap := agree_gap
  blank twins read tokens word := .inr (agree_blank twins read tokens word)
  literal := agree_literal
  verbatim := agree_verbatim
  script := agree_script
  refused twins read _ := settled_of_refused twins read
  brace isOpen := settled_of_reported fun _ isFront run => .inl (isOpen isFront run)
  paren isOpen := settled_of_reported fun _ isFront run => .inl (isOpen isFront run)
  failed {stage _} closed _ all := by
    obtain ⟨run, isWhole⟩ : ∃ run : Followed side stage, run.1 = .whole := by
      rcases closed with rfl | behind
      · exact ⟨⟨.whole, rfl⟩, rfl⟩
      · obtain ⟨run⟩ := (cut.comparison side).followed stage
        exact ⟨run, (behind run).1⟩
    obtain ⟨error, fails⟩ := all run
    exact .whole run isWhole error fails
  block twins read tokens := agree_enclosed twins read tokens (.inl rfl) block fun _ => .brace
  nested twins read tokens := agree_enclosed twins read tokens (.inr rfl) nested fun _ => .paren

/-- The laws, if the source is followed to its end. -/
theorem lawful_whole : (cut.comparison .whole).Lawful := lawful nofun nofun

theorem readsAlike_block (opening : Nat) : cut.ReadsAlike blockView (block opening) :=
  readsAlike_of_agree fun _ twins => lawful_whole.agree_block twins nofun

theorem readsAlike_nested (opening : Nat) :
    cut.ReadsAlike nodesView (sequence (some opening) 0 .empty .empty) :=
  readsAlike_of_agree fun _ twins => lawful_whole.agree_nested twins nofun

/-- The laws, if the front is followed to its end. -/
theorem lawful_front : (cut.comparison .front).Lawful :=
  lawful (fun _ => readsAlike_block) fun _ => readsAlike_nested

end Cut

end BranchText
