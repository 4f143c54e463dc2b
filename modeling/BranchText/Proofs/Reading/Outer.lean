import BranchText.Proofs.Reading.Nested

/-!
# A text, part by part

What no parenthesis encloses is read part by part: text, verbatim text and blocks in turn. `outer`
reads one part, and each part makes one node at most, with the span of its block.
-/

namespace BranchText

/-- The spans of the nodes of a passage. -/
def Passage.spans (passage : Passage) : List Span := passage.nodes.filterMap Node.span?

namespace Passage

variable {passage : Passage}

theorem filterMap_flush (passage : Passage) :
    passage.flush.filterMap Node.span? = passage.spans := by
  unfold flush
  split
  · rfl
  · split
    · rename_i before rest same
      rw [spans, same]
      rfl
    · rfl

theorem mem_close {span : Span} :
    span ∈ passage.close.filterMap Node.span? ↔ span ∈ passage.spans := by
  rw [close, List.filterMap_reverse, List.mem_reverse, filterMap_flush]

theorem spans_addBlock (node : Option Node) :
    (passage.addBlock node).spans = (node.bind Node.span?).toList ++ passage.spans := by
  cases node with
  | none => exact filterMap_flush passage
  | some node =>
    rw [addBlock, spans, List.filterMap_cons, ← filterMap_flush passage]
    cases span : node.span? <;> simp [span]

end Passage

namespace Reader

variable {cursor : Cursor}

/-- Reads a part that no parenthesis encloses; there is none at the end of the text. -/
def outer (passage : Passage) (legacy : Legacy) (lexed : Lexed cursor) :
    Except ReadError (Option (Reading (Passage × Legacy) cursor.size)) :=
  if atEnd : lexed.token.kind = .endOfText then .ok none
  else
    have afterLt := lexed.size_lt atEnd
    match lexed.token.kind with
    | .leftBrace => do
      let inner ← block lexed.token.start lexed.after
      return some ⟨(passage.addBlock inner.value.1, legacy ++ inner.value.2), inner.rest,
        Nat.lt_of_lt_of_le inner.size_lt afterLt⟩
    | .doubleLeftBracket => do
      let inner ← verbatim lexed.token.start lexed.after
      return some ⟨(passage.append inner.value, legacy), inner.rest,
        Nat.lt_of_lt_of_le inner.size_lt afterLt⟩
    | .rightBrace => throw (.malformed lexed.token.start .strayBrace)
    | _ => return some ⟨(passage.append lexed.token.text, legacy), lexed.after, afterLt⟩

section Parts

variable (passage : Passage) (legacy : Legacy) {lexed : Lexed cursor}

theorem exists_of_map_eq_ok {ε α β : Type} {part : Except ε α} {change : α → β} {result : β}
    (given : part.map change = .ok result) : ∃ value, part = .ok value ∧ change value = result := by
  cases part with
  | error error => cases given
  | ok value => exact ⟨value, rfl, Except.ok.inj given⟩

/-- A part that is a block ends where the block does. -/
theorem outer_block (kind : lexed.token.kind = .leftBrace) :
    ∃ part : Reading (Option Node × Legacy) (lexed.after.size + 1) →
        Reading (Passage × Legacy) cursor.size, (∀ inner, (part inner).rest = inner.rest) ∧
      outer passage legacy lexed =
        (block lexed.token.start lexed.after).map fun inner => some (part inner) := by
  have progress := lexed.size_lt (by rw [kind]; decide)
  refine ⟨fun inner => ⟨(passage.addBlock inner.value.1, legacy ++ inner.value.2), inner.rest,
    Nat.lt_of_lt_of_le inner.size_lt progress⟩, fun inner => rfl, ?_⟩
  unfold outer
  rw [dif_neg (by rw [kind]; decide)]
  simp only [kind]
  cases block lexed.token.start lexed.after <;> rfl

theorem outer_verbatim (kind : lexed.token.kind = .doubleLeftBracket) :
    ∃ part : Reading String (lexed.after.size + 1) → Reading (Passage × Legacy) cursor.size,
      (∀ inner, (part inner).rest = inner.rest) ∧
        outer passage legacy lexed =
          (verbatim lexed.token.start lexed.after).map fun inner => some (part inner) := by
  have progress := lexed.size_lt (by rw [kind]; decide)
  refine ⟨fun inner => ⟨(passage.append inner.value, legacy), inner.rest,
    Nat.lt_of_lt_of_le inner.size_lt progress⟩, fun inner => rfl, ?_⟩
  unfold outer
  rw [dif_neg (by rw [kind]; decide)]
  simp only [kind]
  cases verbatim lexed.token.start lexed.after <;> rfl

/-- Other parts are the end of the text, a brace that fails, or a token of text. -/
theorem outer_token (noBlock : lexed.token.kind ≠ .leftBrace)
    (noVerbatim : lexed.token.kind ≠ .doubleLeftBracket) :
    lexed.token.kind = .endOfText ∧ outer passage legacy lexed = .ok none ∨
    (∃ error, outer passage legacy lexed = .error error) ∧ lexed.token.kind = .rightBrace ∨
    (lexed.token.kind ≠ .endOfText ∧ lexed.token.kind ≠ .rightBrace) ∧
      ∃ part, outer passage legacy lexed = .ok (some part) ∧ part.rest = lexed.after := by
  unfold outer
  split
  · exact .inl ⟨‹_›, rfl⟩
  · right
    dsimp only
    split
    · exact absurd ‹_› noBlock
    · exact absurd ‹_› noVerbatim
    · exact .inl ⟨⟨_, rfl⟩, ‹_›⟩
    · exact .inr ⟨⟨‹_›, ‹_›⟩, _, rfl, rfl⟩

end Parts

/-- What is read of a text that no parenthesis encloses, behind a passage. -/
def outerNodes (passage : Passage) (legacy : Legacy) (cursor : Cursor) :
    Except ReadError (List Node × Legacy) :=
  (sequence none 0 passage legacy cursor).map Reading.value

/-- It is read part by part. -/
theorem outerNodes_eq (passage : Passage) (legacy : Legacy) (cursor : Cursor) :
    outerNodes passage legacy cursor = (do
      let lexed ← cursor.next
      match ← outer passage legacy lexed with
      | none => return (passage.close, legacy)
      | some reading => outerNodes reading.value.1 reading.value.2 reading.rest) := by
  rw [outerNodes, sequence]
  cases cursor.next with
  | error error => rfl
  | ok lexed =>
    dsimp only [bind, Except.bind]
    unfold outer
    by_cases atEnd : lexed.token.kind = .endOfText
    · rw [dif_pos atEnd, dif_pos atEnd]
      rfl
    · rw [dif_neg atEnd, dif_neg atEnd]
      dsimp only [Option.isSome_none]
      cases lexed.token.kind
      case leftBrace =>
        cases block lexed.token.start lexed.after with
        | error error => rfl
        | ok inner =>
          simp only [outerNodes, bind, Except.bind, pure, Except.pure]
          cases sequence none 0 (passage.addBlock inner.value.1) (legacy ++ inner.value.2)
            inner.rest <;> rfl
      case doubleLeftBracket =>
        cases verbatim lexed.token.start lexed.after with
        | error error => rfl
        | ok inner =>
          simp only [outerNodes, bind, Except.bind, pure, Except.pure]
          cases sequence none 0 (passage.append inner.value) legacy inner.rest <;> rfl
      case rightBrace => rfl
      all_goals
        simp only [outerNodes, pure, Except.pure]
        cases sequence none 0 (passage.append lexed.token.text) legacy lexed.after <;> rfl

variable {source : List Char} {passage : Passage} {legacy : Legacy}

/-- The node that a part makes, if it makes one, stands from its brace to the end of the part. -/
theorem yields_outer (isIn : cursor.In source) {lexed : Lexed cursor}
    (read : cursor.next = .ok lexed) : Yields (outer passage legacy lexed) fun found =>
      ∀ reading ∈ found, reading.rest.In source ∧ reading.rest.size ≤ lexed.after.size ∧
        ∀ span ∈ reading.value.1.spans, span ∈ passage.spans ∨
          lexed.token.kind = .leftBrace ∧ span = ⟨lexed.token.start, reading.rest.offset⟩ := by
  have taken := Indexed.taken_of_next isIn read
  have afterIn := taken.after_in
  unfold outer
  split
  · exact .pure nofun
  dsimp only
  split
  · rename_i brace
    obtain ⟨opens, opened⟩ := opens_of_taken taken brace
    refine ((writes source (lexed.after.size + 1)).block (Nat.lt_succ_self _) afterIn opens
      (by omega)).bind ?_
    rintro inner ⟨innerIn, -, nodes⟩
    refine .pure ?_
    rintro reading ⟨⟩
    refine ⟨innerIn, Nat.le_of_lt_succ inner.size_lt, fun span member => ?_⟩
    rw [Passage.spans_addBlock, List.mem_append, Option.mem_toList] at member
    refine member.symm.imp_right fun made => ⟨brace, ?_⟩
    obtain ⟨node, isNode, stands⟩ := Option.bind_eq_some_iff.1 made
    exact (Option.some.inj ((nodes node isNode).span?_eq.symm.trans stands)).symm
  · refine (yields_in (Indexed.mirrors_verbatim taken.start_isPlace) afterIn).bind
      fun inner innerIn => .pure ?_
    rintro reading ⟨⟩
    exact ⟨innerIn, Nat.le_of_lt_succ inner.size_lt, fun span member => .inl member⟩
  · exact .throw _
  · refine .pure ?_
    rintro reading ⟨⟩
    exact ⟨afterIn, Nat.le_refl _, fun span member => .inl member⟩

/-- Nodes that are read from a place on stand there or behind it. -/
theorem yields_outerNodes (isIn : cursor.In source) :
    Yields (outerNodes passage legacy cursor) fun value =>
      ∀ span ∈ value.1.filterMap Node.span?, span ∈ passage.spans ∨ cursor.offset ≤ span.start := by
  induction cursor using Indexed.cursor_induction generalizing passage legacy with
  | step cursor ih =>
    rw [outerNodes_eq]
    have next : Yields cursor.next fun lexed => cursor.next = .ok lexed := fun _ => id
    refine next.bind fun lexed read => ?_
    have onset := onset_of_next isIn read
    refine (yields_outer isIn read).bind fun found parts => ?_
    cases found with
    | none => exact .pure fun span member => .inl (Passage.mem_close.1 member)
    | some reading =>
      obtain ⟨readingIn, -, spans⟩ := parts reading rfl
      have forward := isIn.forward readingIn (Nat.le_of_lt reading.size_lt)
      intro value given span member
      rcases ih reading.rest reading.size_lt readingIn value given span member with old | behind
      · refine (spans span old).imp_right fun ⟨_, new⟩ => ?_
        rw [new]
        exact onset
      · exact .inr (Nat.le_trans forward behind)

end Reader

end BranchText
