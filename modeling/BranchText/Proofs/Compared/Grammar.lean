import BranchText.Proofs.Compared.Pieces

/-!
# Documents, compared

The grammar follows its pieces: under the laws of a comparison all readers agree, by induction on
what is left to read. What a block and its parts are read as is the same up to spans.
-/

namespace BranchText

namespace Reader

variable {cursor : Cursor}

/-- A sequence starts with the text of a gap. -/
theorem sequence_eq_gap (enclosing : Option Nat) (depth : Nat) (passage : Passage)
    (legacy : Legacy) : sequence enclosing depth passage legacy cursor = (do
      let blank ← gap cursor
      let reading ← sequence enclosing depth (passage.append blank.value) legacy blank.rest
      return ⟨reading.value, reading.rest,
        Nat.lt_of_lt_of_le reading.size_lt blank.size_lt⟩) := by
  induction cursor using Indexed.cursor_induction generalizing passage with
  | step cursor ih =>
    cases next : cursor.next with
    | error error =>
      rw [gap, sequence]
      simp only [next]
      rfl
    | ok lexed =>
      by_cases blank : lexed.token.kind = .whitespace
      · have solid : lexed.token.kind ≠ .endOfText := by rw [blank]; decide
        have progress := lexed.size_lt solid
        have gathered : ∀ text, (passage.append lexed.token.text).append text
            = passage.append (lexed.token.text ++ text) := fun text => by
          simp [Passage.append, String.append_assoc]
        rw [gap, sequence]
        simp only [next, dif_pos blank]
        dsimp only [bind, Except.bind]
        rw [dif_neg solid]
        simp only [blank]
        rw [ih _ progress]
        cases gap lexed.after with
        | error error => rfl
        | ok reading =>
          dsimp only [bind, Except.bind]
          rw [gathered]
          cases sequence enclosing depth (passage.append (lexed.token.text ++ reading.value))
            legacy reading.rest <;> rfl
      · have none : gap cursor = .ok ⟨"", cursor, Nat.lt_succ_self _⟩ := by
          rw [gap]
          simp only [next, dif_neg blank]
        have same : passage.append "" = passage := by simp [Passage.append]
        rw [none]
        dsimp only [bind, Except.bind]
        rw [same]
        cases sequence enclosing depth passage legacy cursor <;> rfl

/-- A token that is no trivia is not skipped. -/
theorem skipWhile_of_solid {lexed : Lexed cursor} (read : cursor.next = .ok lexed)
    {skipped : TokenKind → Bool} (atEnd : skipped .endOfText = false)
    (solid : skipped lexed.token.kind = false) :
    skipWhile skipped atEnd cursor = .ok ⟨(), cursor, Nat.lt_succ_self _⟩ := by
  rw [skipWhile]
  simp only [read]
  rw [dif_neg (by rw [solid]; decide)]

/-- Reads the entries of a fork. -/
def fork (opening : Nat) (name : Option String) (flags : Flags) (cursor : Cursor) {limit : Nat}
    (shorter : cursor.size < limit) : Except ReadError (Reading (Option Node × Legacy) limit) := do
  let reading ← entries opening [] .empty cursor
  let node ← forkNode opening name flags reading.value.1 reading.rest.offset
  return ⟨(some node, reading.value.2), reading.rest,
    Nat.lt_of_lt_of_le reading.size_lt shorter⟩

/-- Reads a reference behind its sign. -/
def referral (opening : Nat) (name : Option String) (flags : Flags) (reruns : Bool)
    {cursor : Cursor} (sign : Lexed cursor) {limit : Nat} (shorter : sign.after.size < limit) :
    Except ReadError (Reading (Option Node × Legacy) limit) := do
  if flags.isSet then throw (.malformed sign.token.start .setReference)
  let reading ← reference opening name flags.silent reruns sign.after
  return ⟨(some (.reference reading.value.1), reading.value.2), reading.rest,
    Nat.lt_of_lt_of_le reading.size_lt shorter⟩

/-- Reads a fork or a reference behind its flags. -/
def unmarked (opening : Nat) (flags : Flags) (cursor : Cursor) {limit : Nat}
    (shorter : cursor.size < limit) : Except ReadError (Reading (Option Node × Legacy) limit) := do
  let named ← label opening cursor
  have namedLt := named.size_lt
  let body ← skipTrivia named.rest
  have bodyLt := body.size_lt
  let first ← body.rest.next
  have firstLe := first.size_le
  let reruns ← if first.token.kind = .eval then referenceFollows first.after else pure false
  if reruns then
    let trimmed ← skipTrivia first.after
    have trimmedLt := trimmed.size_lt
    let sign ← trimmed.rest.next
    have signLe := sign.size_le
    if isAt : sign.token.kind = .at then
      referral opening named.value flags true sign (by omega)
    else throw (.malformed sign.token.start .expectedReference)
  else if isAt : first.token.kind = .at then
    referral opening named.value flags false first (by omega)
  else fork opening named.value flags body.rest (by omega)

/-- A block is a fork or a reference unless it starts with a word for modes and a blank. -/
theorem block_eq (opening : Nat) : block opening cursor = (do
    let start ← skipTrivia cursor
    let flagged ← flags ⟨false, false⟩ start.rest
    have flaggedLt := Nat.lt_of_lt_of_le flagged.size_lt start.size_lt
    let lexed ← flagged.rest.next
    have lexedLt := Nat.lt_of_le_of_lt lexed.size_le flaggedLt
    let plain := !flagged.value.silent && !flagged.value.isSet && followedByBlank lexed.after
    if plain && lexed.token.kind = .mode then
      let reading ← mode opening lexed.after
      return ⟨(none, reading.value), reading.rest, Nat.lt_of_lt_of_le reading.size_lt lexedLt⟩
    else if plain && lexed.token.kind = .use then
      let trimmed ← skipTrivia lexed.after
      let name ← identifier trimmed.rest
      let close ← closingBrace opening name.rest
      return ⟨(none, ⟨[], [name.value]⟩), close.rest, Nat.lt_of_lt_of_le close.size_lt
        (Nat.le_trans name.size_lt (Nat.le_trans trimmed.size_lt lexedLt))⟩
    else unmarked opening flagged.value flagged.rest flaggedLt) := by
  rw [block.eq_def]
  rfl

section Wants

variable {lexed : Lexed cursor} {error : ReadError} (read : cursor.next = .ok lexed)
  (wants : Wants lexed error)
include wants

theorem Wants.mode (opening : Nat) : Reader.mode opening lexed.after = .error error := by
  obtain ⟨trimmed, skips, refused⟩ := wants.identifier TokenKind.isTrivia rfl rfl fun _ trivia => trivia
  rw [Reader.mode, skipTrivia, skips]
  dsimp only [bind, Except.bind]
  rw [refused]

include read

theorem Wants.choice (call : lexed.token.kind = .call) : Reader.choice cursor = .error error := by
  obtain ⟨trimmed, skips, refused⟩ := wants.identifier (· == .whitespace) rfl rfl
        fun _ blank => by rw [eq_of_beq blank]; rfl
  rw [Reader.choice, read]
  dsimp only [bind, Except.bind]
  rw [dif_neg (by rw [call]; decide)]
  simp only [call]
  rw [if_pos wants.blank, skipBlanks, skips]
  dsimp only
  rw [refused]

theorem Wants.entries (call : lexed.token.kind = .call) (opening : Nat) :
    Reader.entries opening [] .empty cursor = .error error := by
  have chosen := wants.choice read call
  rw [Reader.entries, skipTrivia, skipWhile_of_solid read rfl (by rw [call]; rfl)]
  dsimp only [bind, Except.bind]
  rw [read]
  dsimp only
  rw [if_neg (by simp), if_neg (by rw [call]; decide), chosen]

theorem Wants.unmarked (call : lexed.token.kind = .call) (opening : Nat) (flags : Flags)
    {limit : Nat} (shorter : cursor.size < limit) :
    Reader.unmarked opening flags cursor shorter = .error error := by
  have entries := wants.entries read call opening
  have unnamed : label opening cursor = .ok ⟨none, cursor, Nat.lt_succ_self _⟩ := by
    rw [label_eq, read]
    dsimp only [bind, Except.bind]
    rw [if_neg (by simp [isIdentifierToken, call, TokenKind.isKeyword]),
      if_pos (by simp [call, wants.blank])]
    rfl
  rw [Reader.unmarked, unnamed]
  dsimp only [bind, Except.bind]
  rw [skipTrivia, skipWhile_of_solid read rfl (by rw [call]; rfl)]
  dsimp only
  rw [read]
  dsimp only
  rw [if_neg (by rw [call]; decide)]
  dsimp only [pure, Except.pure]
  rw [if_neg Bool.false_ne_true, dif_neg (by rw [call]; decide), fork, entries]
  rfl

end Wants

end Reader

namespace Comparison

open Reader

variable {C : Comparison} {stage : C.Stage} {limit : Nat}

/-! ## Views of what is read -/

/-- A choice and its declarations without spans. -/
def choiceView (value : Choice × Legacy) : Choice × Legacy :=
  (value.1.withoutSpans, value.2.withoutSpans)

/-- Entries and their declarations without spans. -/
def entriesView (value : List Branch × Legacy) : List Branch × Legacy :=
  (branchesWithoutSpans value.1, value.2.withoutSpans)

/-- A reference and its declarations without spans. -/
def referenceView (value : Reference × Legacy) : Node × Legacy :=
  ((Node.reference value.1).withoutSpans, value.2.withoutSpans)

/-- Mappings, a fallback and their declarations without spans. -/
def mappingsView (value : List Mapping × Option Choice × Legacy) :
    List Mapping × Option Choice × Legacy :=
  (mappingsWithoutSpans value.1, fallbackWithoutSpans value.2.1, value.2.2.withoutSpans)

/-- Rules and their declarations without spans. -/
def rulesView (value : List ModeRule × Legacy) : List ModeRule × Legacy :=
  (value.1.map ModeRule.withoutSpans, value.2.withoutSpans)

theorem rulesView_reverse {found rules : List ModeRule} {legacy declared : Legacy}
    (same : found.map ModeRule.withoutSpans = rules) (alike : legacy.withoutSpans = declared) :
    rulesView (found.reverse, legacy) = (rules.reverse, declared) := by
  rw [rulesView, List.map_reverse, same, alike]

/-- What is read is alike, and has been closed if it is inside of parentheses. -/
def Until {α κ : Type} (inside : Bool) (view : α → κ) {limit : C.Run stage → Nat} :
    C.Likeness fun run => Reading α (limit run) :=
  fun later _ readings => C.Alike view later readings ∧
    (inside = true → C.Closed later fun run => (readings run).rest)

/-- On texts shorter than a limit all readers agree. -/
structure ReadsBelow (C : Comparison) (limit : Nat) : Prop where
  sequence {stage : C.Stage} {cursors : C.Run stage → Cursor}
    (shorter : ∀ run, (cursors run).size < limit) (twins : C.Twins stage cursors)
    {enclosing : C.Run stage → Option Nat} {inside : Bool}
    (sides : ∀ run, (enclosing run).isSome = inside)
    (isOpen : inside = true → C.OpenParen stage fun run => (enclosing run).getD 0) (depth : Nat)
    {passage : C.Run stage → Passage} {gathered : Passage}
    (passages : ∀ run, (passage run).withoutSpans = gathered)
    {legacy : C.Run stage → Legacy} {declared : Legacy}
    (legacies : ∀ run, (legacy run).withoutSpans = declared) :
    C.Agree (Until inside nodesView) fun run =>
      sequence (enclosing run) depth (passage run) (legacy run) (cursors run)
  block {stage : C.Stage} {cursors : C.Run stage → Cursor}
    (shorter : ∀ run, (cursors run).size < limit) (twins : C.Twins stage cursors)
    {opening : C.Run stage → Nat} (isOpen : C.OpenBrace stage opening) :
    C.Agree (C.Ends blockView) fun run => block (opening run) (cursors run)
  entries {stage : C.Stage} {cursors : C.Run stage → Cursor}
    (shorter : ∀ run, (cursors run).size < limit) (twins : C.Twins stage cursors)
    {opening : C.Run stage → Nat} (isOpen : C.OpenBrace stage opening)
    {branches : C.Run stage → List Branch} {found : List Branch}
    (same : ∀ run, branchesWithoutSpans (branches run) = found)
    {legacy : C.Run stage → Legacy} {declared : Legacy}
    (legacies : ∀ run, (legacy run).withoutSpans = declared) :
    C.Agree (C.Ends entriesView) fun run =>
      entries (opening run) (branches run) (legacy run) (cursors run)
  reference {stage : C.Stage} {cursors : C.Run stage → Cursor}
    (shorter : ∀ run, (cursors run).size < limit) (twins : C.Twins stage cursors)
    {opening : C.Run stage → Nat} (isOpen : C.OpenBrace stage opening) (name : Option String)
    (silent reruns : Bool) :
    C.Agree (C.Ends referenceView) fun run =>
      reference (opening run) name silent reruns (cursors run)
  mappings {stage : C.Stage} {cursors : C.Run stage → Cursor}
    (shorter : ∀ run, (cursors run).size < limit) (twins : C.Twins stage cursors)
    {opening : C.Run stage → Nat} (isOpen : C.OpenBrace stage opening) (first : Bool)
    {mapped : C.Run stage → List Mapping} {found : List Mapping}
    (same : ∀ run, mappingsWithoutSpans (mapped run) = found)
    {fallback : C.Run stage → Option Choice} {fallen : Option Choice}
    (falls : ∀ run, fallbackWithoutSpans (fallback run) = fallen)
    {legacy : C.Run stage → Legacy} {declared : Legacy}
    (legacies : ∀ run, (legacy run).withoutSpans = declared) :
    C.Agree (C.Reads mappingsView) fun run =>
      mappings (opening run) first (mapped run) (fallback run) (legacy run) (cursors run)
  mode {stage : C.Stage} {cursors : C.Run stage → Cursor}
    (shorter : ∀ run, (cursors run).size < limit) (twins : C.Twins stage cursors)
    {opening : C.Run stage → Nat} (isOpen : C.OpenBrace stage opening) :
    C.Agree (C.Ends Legacy.withoutSpans) fun run => mode (opening run) (cursors run)
  rules {stage : C.Stage} {cursors : C.Run stage → Cursor}
    (shorter : ∀ run, (cursors run).size < limit) (twins : C.Twins stage cursors)
    {opening : C.Run stage → Nat} (isOpen : C.OpenBrace stage opening)
    {found : C.Run stage → List ModeRule} {ruled : List ModeRule}
    (same : ∀ run, (found run).map ModeRule.withoutSpans = ruled)
    {legacy : C.Run stage → Legacy} {declared : Legacy}
    (legacies : ∀ run, (legacy run).withoutSpans = declared) :
    C.Agree (C.Reads rulesView) fun run =>
      rules (opening run) (found run) (legacy run) (cursors run)

section Steps

variable {cursors : C.Run stage → Cursor} (laws : C.Lawful) (below : ReadsBelow C limit)
  (within : ∀ run, (cursors run).size ≤ limit) (twins : C.Twins stage cursors)
include laws below within twins

theorem agree_sequence {enclosing : C.Run stage → Option Nat} {inside : Bool}
    (sides : ∀ run, (enclosing run).isSome = inside)
    (isOpen : inside = true → C.OpenParen stage fun run => (enclosing run).getD 0) (depth : Nat)
    {passage : C.Run stage → Passage} {gathered : Passage}
    (passages : ∀ run, (passage run).withoutSpans = gathered)
    {legacy : C.Run stage → Legacy} {declared : Legacy}
    (legacies : ∀ run, (legacy run).withoutSpans = declared) :
    C.Agree (Until inside nodesView) fun run =>
      sequence (enclosing run) depth (passage run) (legacy run) (cursors run) := by
  refine .of_eq (fun run => sequence_eq_gap _ _ _ _) ?_
  refine (laws.gap twins).bind fun stage kept blank moves read gap => ?_
  have isOpen := fun isInside => C.openParen_of_later moves (isOpen isInside)
  obtain ⟨⟨⟨text, texts⟩, rest⟩, -⟩ := gap
  have passages : ∀ run, ((passage (kept run)).append (blank run).value).withoutSpans
      = gathered.append text := fun run => by
    rw [← passages (kept run), ← texts run]
    rfl
  refine @Agree.bind _ _ _ _ (Until inside nodesView) _ _ _ ?_ fun last further reading _ _ same =>
    .pure ⟨⟨same.1.value, same.1.rest⟩, same.2⟩
  refine .of_eq (fun run => Reader.sequence.eq_def ..) ?_
  refine nextThen laws rest fun stage further lexed kind moves next tokens twins => ?_
  have isOpen := fun isInside => C.openParen_of_later moves (isOpen isInside)
  have sides : ∀ run, (enclosing (kept (further run))).isSome = inside := fun run => sides _
  have closes : ∀ run, nodesView (((passage (kept (further run))).append
      (blank (further run)).value).close, legacy (kept (further run)))
        = ((gathered.append text).close, declared) := fun run => by
    rw [nodesView, ← passages (further run), Passage.close_withoutSpans, ← legacies]
  have appended : ∀ more run, (((passage (kept (further run))).append
      (blank (further run)).value).append more).withoutSpans
        = (gathered.append text).append more :=
    fun more run => congrArg (·.append more) (passages (further run))
  refine .dite (q := kind = .endOfText) (fun run => by rw [tokens.kinds]) (fun atEnd isEnd => ?_)
    fun atEnd isEnd => ?_
  · cases inside with
    | false =>
      have none : ∀ run, allClosed (enclosing (kept (further run))) = .ok () := fun run => by
        rw [Option.isNone_iff_eq_none.1 (Option.isSome_eq_false_iff.1 (sides run))]
        rfl
      simp only [none]
      exact .okThen (.pure ⟨⟨⟨_, closes⟩, tokens.after (by rw [isEnd]; decide)⟩,
        fun closed => absurd closed Bool.false_ne_true⟩)
    | true =>
      have some : ∀ run, allClosed (enclosing (kept (further run))) =
          .error (.malformed ((enclosing (kept (further run))).getD 0) .unclosedParen) :=
        fun run => by
          obtain ⟨opening, here⟩ := Option.isSome_iff_exists.1 (sides run)
          rw [here]
          rfl
      simp only [some]
      exact .settled (laws.paren (isOpen rfl))
  · have solid : kind ≠ .whitespace := by
      obtain ⟨run⟩ := C.followed stage
      obtain ⟨-, found, given, solid⟩ := stops_of_gap (read (further run))
      rw [← tokens.kinds run]
      cases given.symm.trans (next run)
      exact solid
    have after := tokens.after solid
    obtain ⟨meant, texts⟩ := tokens.text solid
    have shorter : ∀ run, (lexed run).after.size < limit := fun run => by
      have := (lexed run).size_lt (atEnd run)
      have := (blank (further run)).size_lt
      have := within (kept (further run))
      omega
    have goOn : ∀ depth {more : C.Run stage → Passage} {added : Passage},
        (∀ run, (more run).withoutSpans = added) →
        C.Agree (Until inside nodesView) fun run => (do
          let reading ← sequence (enclosing (kept (further run))) depth (more run)
            (legacy (kept (further run))) (lexed run).after
          return ⟨reading.value, reading.rest, by
            have := reading.size_lt
            have := (lexed run).size_le
            omega⟩ :
          Except ReadError (Reading (List Node × Legacy) ((blank (further run)).rest.size + 1))) :=
      fun depth more added same =>
        (below.sequence shorter after sides isOpen depth same fun run => legacies _).bind
          fun last beyond reading _ _ same => .pure ⟨⟨same.1.value, same.1.rest⟩, same.2⟩
    simp only [tokens.kinds, sides, texts]
    cases kind with
    | endOfText => exact absurd rfl isEnd
    | rightParen =>
      cases inside with
      | false => exact goOn depth (appended _)
      | true =>
        cases depth with
        | zero =>
          exact .pure ⟨⟨⟨_, closes⟩, after⟩, fun _ => tokens.closed rfl⟩
        | succ depth => exact goOn depth (appended _)
    | leftParen =>
      cases inside with
      | false => exact goOn depth (appended _)
      | true => exact goOn (depth + 1) (appended _)
    | leftBrace =>
      refine (laws.block twins next tokens fun isOpen => below.block shorter after isOpen).bind
        fun stage beyond inner moves _ same => ?_
      have isOpen := fun isInside => C.openParen_of_later moves (isOpen isInside)
      obtain ⟨⟨⟨⟨node, others⟩, same⟩, rest⟩, -⟩ := same
      have innerShorter : ∀ run, (inner run).rest.size < limit := fun run => by
        have := (inner run).size_lt
        have := shorter (beyond run)
        omega
      have passages : ∀ run, (((passage (kept (further (beyond run)))).append
          (blank (further (beyond run))).value).addBlock (inner run).value.1).withoutSpans
            = (gathered.append text).addBlock node := fun run => by
        rw [← Passage.addBlock_withoutSpans, passages, (Prod.mk.inj (same run)).1]
      have legacies : ∀ run, (legacy (kept (further (beyond run))) ++
          (inner run).value.2).withoutSpans = declared ++ others := fun run => by
        rw [Legacy.withoutSpans_append, legacies, (Prod.mk.inj (same run)).2]
      exact (below.sequence innerShorter rest (fun run => sides _) isOpen depth passages
        legacies).bind
          fun last onward reading _ _ same => .pure ⟨⟨same.1.value, same.1.rest⟩, same.2⟩
    | doubleLeftBracket =>
      refine (laws.verbatim twins next tokens).bind fun stage beyond inner moves _ same => ?_
      have isOpen := fun isInside => C.openParen_of_later moves (isOpen isInside)
      obtain ⟨⟨content, same⟩, rest⟩ := same
      have innerShorter : ∀ run, (inner run).rest.size < limit := fun run => by
        have := (inner run).size_lt
        have := shorter (beyond run)
        omega
      have passages : ∀ run, (((passage (kept (further (beyond run)))).append
          (blank (further (beyond run))).value).append (inner run).value).withoutSpans
            = (gathered.append text).append content := fun run => same run ▸ appended _ _
      exact (below.sequence innerShorter rest (fun run => sides _) isOpen depth passages
        fun run => legacies _).bind
          fun last onward reading _ _ same => .pure ⟨⟨same.1.value, same.1.rest⟩, same.2⟩
    | rightBrace => exact .settled (laws.refused twins next fun _ same => by cases same)
    | _ => exact goOn depth (appended _)

theorem agree_choice : C.Agree (C.Reads choiceView) fun run => choice (cursors run) := by
  refine .of_eq (fun run => choice.eq_def _) ?_
  refine nextThen laws twins fun stage kept lexed kind moves read tokens twins => ?_
  refine .dite (q := kind = .endOfText) (fun run => by rw [tokens.kinds])
    (fun _ _ => .settled (laws.refused twins read fun _ same => by cases same))
    fun atEnd isEnd => ?_
  have shorter : ∀ run, (lexed run).after.size < limit := fun run => by
    have := (lexed run).size_lt (atEnd run)
    have := within (kept run)
    omega
  simp only [tokens.kinds]
  cases kind with
  | endOfText => exact absurd rfl isEnd
  | leftParen =>
    have sides : ∀ run, (some (lexed run).token.start).isSome = true := fun _ => rfl
    have nested : C.Agree (C.Ends nodesView) fun run =>
        sequence (some (lexed run).token.start) 0 .empty .empty (lexed run).after :=
      laws.nested twins read tokens fun isOpen =>
        (below.sequence shorter (tokens.after (by decide)) sides (fun _ => isOpen) 0 (fun _ => rfl)
          fun _ => rfl).imp fun _ _ _ _ _ same => ⟨same.1, same.2 rfl⟩
    refine nested.bind fun stage further reading _ _ same => ?_
    obtain ⟨⟨⟨⟨nodes, declared⟩, same⟩, rest⟩, -⟩ := same
    refine .pure ⟨⟨(.nodes nodes, declared), fun run => ?_⟩, rest⟩
    rw [choiceView, Choice.withoutSpans, (Prod.mk.inj (same run)).1, (Prod.mk.inj (same run)).2]
  | leftBracket =>
    have body : ∀ run, (lexed run).after = scriptBody (lexed run) := fun run => by
      rw [scriptBody, if_neg (by rw [tokens.kinds]; decide)]
    refine (laws.script twins read tokens (.inl rfl) body).bind
      fun stage further reading _ _ same => ?_
    obtain ⟨⟨source, same⟩, rest⟩ := same
    refine .pure ⟨⟨(.script ⟨source, default⟩, Legacy.empty.withoutSpans), fun run => ?_⟩, rest⟩
    rw [choiceView, Choice.withoutSpans, ← same run, scriptView]
  | doubleLeftBracket =>
    have body : ∀ run, ⟨(lexed run).token.start + 1, '[' :: (lexed run).after.rest⟩ =
        scriptBody (lexed run) := fun run => by
      rw [scriptBody, if_pos (tokens.kinds run)]
    refine (laws.script twins read tokens (.inr rfl) body).bind
      fun stage further reading _ _ same => ?_
    obtain ⟨⟨source, same⟩, rest⟩ := same
    refine .pure ⟨⟨(.script ⟨source, default⟩, Legacy.empty.withoutSpans), fun run => ?_⟩, rest⟩
    rw [choiceView, Choice.withoutSpans, ← same run, scriptView]
  | leftBrace =>
    refine (laws.block twins read tokens fun isOpen =>
      below.block shorter (tokens.after (by decide)) isOpen).bind
      fun stage further reading _ _ same => ?_
    obtain ⟨⟨⟨⟨node, declared⟩, same⟩, rest⟩, closed⟩ := same
    cases node with
    | none =>
      refine .settled (laws.failed closed fun run => ?_)
      have missing := Option.map_eq_none_iff.1 (Prod.mk.inj (same run)).1
      rcases value : (reading run).value with ⟨found, others⟩
      rw [value] at missing
      cases missing
      exact ⟨_, rfl⟩
    | some node =>
      refine .here (fun run => ⟨(.nodes (reading run).value.1.toList, (reading run).value.2),
        (reading run).rest, ?_⟩) (fun run => ?_) ⟨⟨(.nodes [node], declared), fun run => ?_⟩, rest⟩
      · have := (reading run).size_lt
        have := (lexed (further run)).size_lt (atEnd _)
        omega
      all_goals
        obtain ⟨found, isFound, isNode⟩ := Option.map_eq_some_iff.1 (Prod.mk.inj (same run)).1
        have legacies := (Prod.mk.inj (same run)).2
        rcases value : (reading run).value with ⟨found, others⟩
        rw [value] at isFound legacies
        cases isFound
      · rfl
      · rw [choiceView, Option.toList_some, Choice.withoutSpans, nodesWithoutSpans, isNode, legacies]
        rfl
  | call =>
    rcases laws.blank twins read tokens (.inl rfl) with
      ⟨run, error, wants, settles⟩ | ⟨later, further, moves, twins, after, blank, blanks⟩
    · refine .settled (settles _ ?_)
      obtain ⟨trimmed, skips, refused⟩ := wants.identifier (· == .whitespace) rfl rfl
        fun _ blank => by rw [eq_of_beq blank]; rfl
      dsimp only
      rw [if_pos wants.blank, skipBlanks, skips]
      dsimp only [bind, Except.bind]
      rw [refused]
      rfl
    refine .of_later moves (.ite (q := blank = true) (fun run => by rw [blanks]) (fun _ => ?_) fun _ =>
      .settled (laws.refused twins (fun run => read (further run)) fun _ same => by cases same))
    refine (agree_skipBlanks laws after).bind fun stage nearer trimmed _ _ clear => ?_
    refine (agree_identifier laws clear.1.rest).bind fun stage beyond name _ _ same => ?_
    obtain ⟨⟨called, names⟩, rest⟩ := same
    refine .pure ⟨⟨(.call ⟨called, default⟩, Legacy.empty.withoutSpans), fun run => ?_⟩, rest⟩
    rw [choiceView, Choice.withoutSpans, ← names run, id]
  | _ => exact .settled (laws.refused twins read fun _ same => by cases same)

theorem agree_entries {opening : C.Run stage → Nat} (isOpen : C.OpenBrace stage opening)
    {branches : C.Run stage → List Branch} {found : List Branch}
    (same : ∀ run, branchesWithoutSpans (branches run) = found)
    {legacy : C.Run stage → Legacy} {declared : Legacy}
    (legacies : ∀ run, (legacy run).withoutSpans = declared) :
    C.Agree (C.Ends entriesView) fun run =>
      entries (opening run) (branches run) (legacy run) (cursors run) := by
  refine .of_eq (fun run => entries.eq_def ..) ?_
  refine (agree_skipTrivia laws twins).bind fun stage kept start moves _ clear => ?_
  have isOpen := C.openBrace_of_later moves isOpen
  refine nextThen laws clear.1.rest fun stage further first kind moves read tokens twins => ?_
  have isOpen := C.openBrace_of_later moves isOpen
  have ended : ∀ run, entriesView ((branches (kept (further run))).reverse,
      legacy (kept (further run))) = (found.reverse, declared) := fun run => by
    rw [entriesView, branchesWithoutSpans_reverse, same, legacies]
  refine .ite (q := kind = .rightBrace ∧ found.isEmpty = false) (fun run => ?_) (fun brace => ?_)
    fun _ => ?_
  · have empty : (branches (kept (further run))).isEmpty = found.isEmpty := by
      rw [← same (kept (further run)), isEmpty_branchesWithoutSpans]
    simp [tokens.kinds, empty]
  · exact .pure ⟨⟨⟨_, ended⟩, tokens.after (by rw [brace.1]; decide)⟩,
      tokens.closed (by rw [brace.1]; rfl)⟩
  refine .ite (q := kind = .endOfText) (fun run => by rw [tokens.kinds])
    (fun _ => .settled (laws.brace isOpen)) fun _ => ?_
  have left : ∀ run, (start (further run)).rest.size ≤ limit := fun run => by
    have := (start (further run)).size_lt
    have := within (kept (further run))
    omega
  refine (agree_choice laws below left twins).bind fun stage nearer chosen moves _ chose => ?_
  have isOpen := C.openBrace_of_later moves isOpen
  have left : ∀ run, (chosen run).rest.size < limit :=
    fun run => Nat.lt_of_lt_of_le (chosen run).size_lt (left _)
  obtain ⟨⟨⟨choice, others⟩, chose⟩, rest⟩ := chose
  refine (agree_weight laws rest).bind fun stage beyond weighted moves _ weighs => ?_
  have isOpen := C.openBrace_of_later moves isOpen
  have left : ∀ run, (weighted run).rest.size < limit := fun run => by
    have := (weighted run).size_lt
    have := left (beyond run)
    omega
  obtain ⟨⟨weight, weighs⟩, rest⟩ := weighs
  have extended : ∀ run, branchesWithoutSpans (⟨(chosen (beyond run)).value.1,
      (weighted run).value⟩ :: branches (kept (further (nearer (beyond run)))))
        = ⟨choice, weight⟩ :: found := fun run => by
    rw [branchesWithoutSpans, same, (Prod.mk.inj (chose _)).1, ← weighs run, id]
  have legacies : ∀ run, (legacy (kept (further (nearer (beyond run)))) ++
      (chosen (beyond run)).value.2).withoutSpans = declared ++ others := fun run => by
    rw [Legacy.withoutSpans_append, legacies, (Prod.mk.inj (chose _)).2]
  refine (agree_skipTrivia laws rest).bind fun stage onward trimmed moves _ clear => ?_
  have isOpen := C.openBrace_of_later moves isOpen
  refine nextThen laws clear.1.rest fun stage away separator kind moves read tokens twins => ?_
  have isOpen := C.openBrace_of_later moves isOpen
  simp only [tokens.kinds]
  cases kind with
  | comma =>
    have shorter : ∀ run, (separator run).after.size < limit := fun run => by
      have := (separator run).size_le
      have := (trimmed (away run)).size_lt
      have := left (onward (away run))
      omega
    exact (below.entries shorter (tokens.after (by decide)) isOpen
      (fun run => extended (onward (away run))) fun run => legacies (onward (away run))).bind
        fun last _ reading _ _ same => .pure ⟨⟨same.1.value, same.1.rest⟩, same.2⟩
  | rightBrace =>
    refine .pure ⟨⟨⟨((⟨choice, weight⟩ :: found).reverse, declared ++ others), fun run => ?_⟩,
      tokens.after (by decide)⟩, tokens.closed rfl⟩
    rw [entriesView, branchesWithoutSpans_reverse, extended (onward (away run)),
      legacies (onward (away run))]
  | endOfText => exact .settled (laws.brace isOpen)
  | _ => exact .settled (laws.refused twins read fun _ same => by cases same)

theorem agree_reference {opening : C.Run stage → Nat} (isOpen : C.OpenBrace stage opening)
    (name : Option String) (silent reruns : Bool) :
    C.Agree (C.Ends referenceView) fun run =>
      reference (opening run) name silent reruns (cursors run) := by
  refine .of_eq (fun run => reference.eq_def ..) ?_
  refine (agree_skipBlanks laws twins).bind fun stage kept start moves _ clear => ?_
  have isOpen := C.openBrace_of_later moves isOpen
  have left : ∀ run, (start run).rest.size ≤ limit := fun run => by
    have := (start run).size_lt
    have := within (kept run)
    omega
  refine (agree_identifier laws clear.1.rest).bind fun stage further target moves _ same => ?_
  have isOpen := C.openBrace_of_later moves isOpen
  have left : ∀ run, (target run).rest.size ≤ limit := fun run => by
    have := (target run).size_lt
    have := left (further run)
    omega
  obtain ⟨⟨called, names⟩, rest⟩ := same
  refine (agree_skipTrivia laws rest).bind fun stage nearer trimmed moves _ clear => ?_
  have isOpen := C.openBrace_of_later moves isOpen
  refine nextThen laws clear.1.rest fun stage beyond colon kind moves read tokens twins => ?_
  have isOpen := C.openBrace_of_later moves isOpen
  refine .ite (q := kind = .colon) (fun run => by rw [tokens.kinds]) (fun isColon => ?_) fun _ => ?_
  · subst isColon
    have shorter : ∀ run, (colon run).after.size < limit := fun run => by
      have := (colon run).size_lt (by rw [tokens.kinds]; decide)
      have := (trimmed (beyond run)).size_lt
      have := left (nearer (beyond run))
      omega
    refine (below.mappings shorter (tokens.after (by decide)) isOpen true (fun _ => rfl)
      (fun _ => rfl) fun _ => rfl).bind fun stage onward mapped moves _ same => ?_
    have isOpen := C.openBrace_of_later moves isOpen
    obtain ⟨⟨⟨found, fallback, declared⟩, same⟩, rest⟩ := same
    refine (agree_closingBrace laws rest isOpen).bind fun stage away close _ _ closes => ?_
    refine .pure ⟨⟨⟨(.reference ⟨called, name, silent, found, fallback, reruns, default⟩, declared),
      fun run => ?_⟩, closes.1.rest⟩, closes.2⟩
    obtain ⟨mappings, others⟩ := Prod.mk.inj (same (away run))
    obtain ⟨falls, legacies⟩ := Prod.mk.inj others
    rw [referenceView, Node.withoutSpans, mappings, falls, legacies, ← names, id]
  · refine (agree_closingBrace laws twins isOpen).bind fun stage away close _ _ closes => ?_
    refine .pure ⟨⟨⟨(.reference ⟨called, name, silent, [], none, reruns, default⟩,
      Legacy.empty.withoutSpans), fun run => ?_⟩, closes.1.rest⟩, closes.2⟩
    rw [referenceView, Node.withoutSpans, ← names, id]
    rfl

theorem agree_mappings {opening : C.Run stage → Nat} (isOpen : C.OpenBrace stage opening)
    (first : Bool) {mapped : C.Run stage → List Mapping} {found : List Mapping}
    (same : ∀ run, mappingsWithoutSpans (mapped run) = found)
    {fallback : C.Run stage → Option Choice} {fallen : Option Choice}
    (falls : ∀ run, fallbackWithoutSpans (fallback run) = fallen)
    {legacy : C.Run stage → Legacy} {declared : Legacy}
    (legacies : ∀ run, (legacy run).withoutSpans = declared) :
    C.Agree (C.Reads mappingsView) fun run =>
      mappings (opening run) first (mapped run) (fallback run) (legacy run) (cursors run) := by
  refine .of_eq (fun run => mappings.eq_def ..) ?_
  refine (agree_skipTrivia laws twins).bind fun stage kept start moves _ clear => ?_
  have isOpen := C.openBrace_of_later moves isOpen
  refine nextThen laws clear.1.rest fun stage further lexed kind moves read tokens twins => ?_
  have isOpen := C.openBrace_of_later moves isOpen
  have left : ∀ run, (start (further run)).rest.size ≤ limit := fun run => by
    have := (start (further run)).size_lt
    have := within (kept (further run))
    omega
  have ended : ∀ run, mappingsView (mapped (kept (further run)), fallback (kept (further run)),
      legacy (kept (further run))) = (found, fallen, declared) := fun run => by
    rw [mappingsView, same, falls, legacies]
  refine .ite (q := kind = .rightBrace) (fun run => by rw [tokens.kinds]) (fun _ => ?_) fun _ => ?_
  · refine .ite (q := first = true) (fun run => Iff.rfl)
      (fun _ => .settled (laws.refused twins read fun _ same => by cases same)) fun _ => ?_
    exact .pure ⟨⟨_, ended⟩, twins⟩
  refine .ite (q := kind = .endOfText) (fun run => by rw [tokens.kinds])
    (fun _ => .settled (laws.brace isOpen)) fun _ => ?_
  refine .ite (q := fallen.isSome = true) (fun run => ?_)
    (fun _ => .settled (laws.refused twins read fun _ same => by cases same)) fun _ => ?_
  · rw [← falls (kept (further run))]
    cases fallback (kept (further run)) <;> rfl
  -- Mapped and unmapped choices are followed by the same.
  apply Agree.dite (q := kind = .number) (fun run => by rw [tokens.kinds])
  case' yes =>
    intro numeric _
    refine (agree_indexList laws twins).bind fun stage nearer indices moves _ indexed => ?_
    have isOpen := C.openBrace_of_later moves isOpen
    obtain ⟨⟨⟨numbers, indexed⟩, rest⟩, closed⟩ := indexed
    -- Whether the indices clash is seen before the choice is read.
    by_cases clash : clashes numbers (fun branch => found.any (·.branch = branch)) = true
    · refine .settled (laws.failed closed fun run => ?_)
      dsimp only
      cases skipTrivia (indices run).rest with
      | error error => exact ⟨error, rfl⟩
      | ok trimmed =>
        dsimp only [bind, Except.bind]
        cases choice trimmed.rest with
        | error error => exact ⟨error, rfl⟩
        | ok chosen =>
          obtain ⟨error, fails⟩ := addMappings_of_clashes (indexed run) (same _) clash
          dsimp only
          rw [fails]
          exact ⟨error, rfl⟩
    rw [Bool.not_eq_true] at clash
    refine (agree_skipTrivia laws rest).bind fun stage beyond trimmed moves _ clear => ?_
    have isOpen := C.openBrace_of_later moves isOpen
    have left : ∀ run, (trimmed run).rest.size ≤ limit := fun run => by
      have := (trimmed run).size_lt
      have := (indices (beyond run)).size_lt
      have := left (nearer (beyond run))
      omega
    refine (agree_choice laws below left clear.1.rest).bind fun stage away chosen moves _ chose => ?_
    have isOpen := C.openBrace_of_later moves isOpen
    obtain ⟨⟨⟨choice, others⟩, chose⟩, rest⟩ := chose
    choose added given entries using fun run =>
      addMappings_of_fresh (indexed (beyond (away run)))
        (same (kept (further (nearer (beyond (away run)))))) clash (Prod.mk.inj (chose run)).1
    have left : ∀ run, (chosen run).rest.size < limit :=
      fun run => Nat.lt_of_lt_of_le (chosen run).size_lt (left _)
    have falls : ∀ run : C.Run stage, fallbackWithoutSpans none = none := fun _ => rfl
    have legacies : ∀ run, (legacy (kept (further (nearer (beyond (away run))))) ++
        (chosen run).value.2).withoutSpans = declared ++ others := fun run => by
      rw [Legacy.withoutSpans_append, legacies, (Prod.mk.inj (chose _)).2]
    simp only [given]
    refine .okThen ?_
  case' no =>
    intro _ _
    refine (agree_choice laws below left twins).bind fun stage nearer chosen moves _ chose => ?_
    have isOpen := C.openBrace_of_later moves isOpen
    obtain ⟨⟨⟨choice, others⟩, chose⟩, rest⟩ := chose
    have left : ∀ run, (chosen run).rest.size < limit :=
      fun run => Nat.lt_of_lt_of_le (chosen run).size_lt (left _)
    have entries : ∀ run, mappingsWithoutSpans (mapped (kept (further (nearer run)))) = found :=
      fun run => same _
    have falls : ∀ run, fallbackWithoutSpans (some (chosen run).value.1) = some choice := fun run => by
      rw [fallbackWithoutSpans, (Prod.mk.inj (chose _)).1]
    have legacies : ∀ run, (legacy (kept (further (nearer run))) ++
        (chosen run).value.2).withoutSpans = declared ++ others := fun run => by
      rw [Legacy.withoutSpans_append, legacies, (Prod.mk.inj (chose _)).2]
  all_goals
    simp only [pure_bind]
    refine (agree_skipTrivia laws rest).bind fun stage onward last moves _ clear => ?_
    have isOpen := C.openBrace_of_later moves isOpen
    refine nextThen laws clear.1.rest fun stage toward separator kind moves read tokens twins => ?_
    have isOpen := C.openBrace_of_later moves isOpen
    simp only [tokens.kinds]
    cases kind with
    | comma =>
      have shorter : ∀ run, (separator run).after.size < limit := fun run => by
        have := (separator run).size_le
        have := (last (toward run)).size_lt
        have := left (onward (toward run))
        omega
      exact (below.mappings shorter (tokens.after (by decide)) isOpen false
        (fun run => entries (onward (toward run))) (fun run => falls (onward (toward run)))
        fun run => legacies (onward (toward run))).bind
          fun _ _ reading _ _ same => .pure ⟨same.value, same.rest⟩
    | rightBrace =>
      exact .pure ⟨⟨_, fun run => congrArg₂ Prod.mk (entries (onward (toward run)))
        (congrArg₂ Prod.mk (falls (onward (toward run))) (legacies (onward (toward run))))⟩, twins⟩
    | endOfText => exact .settled (laws.brace isOpen)
    | _ => exact .settled (laws.refused twins read fun _ same => by cases same)

theorem agree_mode {opening : C.Run stage → Nat} (isOpen : C.OpenBrace stage opening) :
    C.Agree (C.Ends Legacy.withoutSpans) fun run => mode (opening run) (cursors run) := by
  refine .of_eq (fun run => mode.eq_def ..) ?_
  refine (agree_skipTrivia laws twins).bind fun stage kept start moves _ clear => ?_
  have isOpen := C.openBrace_of_later moves isOpen
  refine (agree_identifier laws clear.1.rest).bind fun stage further name moves _ same => ?_
  have isOpen := C.openBrace_of_later moves isOpen
  have left : ∀ run, (name run).rest.size ≤ limit := fun run => by
    have := (name run).size_lt
    have := (start (further run)).size_lt
    have := within (kept (further run))
    omega
  obtain ⟨⟨called, names⟩, rest⟩ := same
  refine (agree_skipTrivia laws rest).bind fun stage nearer trimmed moves _ clear => ?_
  have isOpen := C.openBrace_of_later moves isOpen
  refine nextThen laws clear.1.rest fun stage beyond colon kind moves read tokens twins => ?_
  have isOpen := C.openBrace_of_later moves isOpen
  refine .ite (q := kind = .colon) (fun run => by rw [tokens.kinds]) (fun isColon => ?_)
    fun _ => .settled (laws.refused twins read fun _ same => by cases same)
  subst isColon
  have shorter : ∀ run, (colon run).after.size < limit := fun run => by
    have := (colon run).size_lt (by rw [tokens.kinds]; decide)
    have := (trimmed (beyond run)).size_lt
    have := left (nearer (beyond run))
    omega
  refine (below.rules shorter (tokens.after (by decide)) isOpen (fun _ => rfl) fun _ => rfl).bind
    fun stage onward ruled moves _ same => ?_
  have isOpen := C.openBrace_of_later moves isOpen
  obtain ⟨⟨⟨found, declared⟩, same⟩, rest⟩ := same
  refine (agree_closingBrace laws rest isOpen).bind fun stage away close _ _ closes => ?_
  refine .pure ⟨⟨⟨declared ++ ⟨[⟨called, found, default⟩], []⟩, fun run => ?_⟩, closes.1.rest⟩,
    closes.2⟩
  obtain ⟨rules, legacies⟩ := Prod.mk.inj (same (away run))
  rw [Legacy.withoutSpans_append, legacies, ← rules, ← names]
  rfl

theorem agree_rules {opening : C.Run stage → Nat} (isOpen : C.OpenBrace stage opening)
    {found : C.Run stage → List ModeRule} {ruled : List ModeRule}
    (same : ∀ run, (found run).map ModeRule.withoutSpans = ruled)
    {legacy : C.Run stage → Legacy} {declared : Legacy}
    (legacies : ∀ run, (legacy run).withoutSpans = declared) :
    C.Agree (C.Reads rulesView) fun run =>
      rules (opening run) (found run) (legacy run) (cursors run) := by
  refine .of_eq (fun run => rules.eq_def ..) ?_
  refine (agree_skipTrivia laws twins).bind fun stage kept start moves _ clear => ?_
  have isOpen := C.openBrace_of_later moves isOpen
  refine nextThen laws clear.1.rest fun stage further lexed kind moves read tokens twins => ?_
  have isOpen := C.openBrace_of_later moves isOpen
  have left : ∀ run, (start (further run)).rest.size ≤ limit := fun run => by
    have := (start (further run)).size_lt
    have := within (kept (further run))
    omega
  have ended : ∀ run, rulesView ((found (kept (further run))).reverse, legacy (kept (further run)))
      = (ruled.reverse, declared) := fun run => rulesView_reverse (same _) (legacies _)
  refine .ite (q := kind = .rightBrace) (fun run => by rw [tokens.kinds])
    (fun _ => .pure ⟨⟨_, ended⟩, twins⟩) fun _ => ?_
  have same : ∀ run, (found (kept (further run))).map ModeRule.withoutSpans = ruled :=
    fun run => same _
  have legacies : ∀ run, (legacy (kept (further run))).withoutSpans = declared :=
    fun run => legacies _
  -- A rule may start with a word that means nothing.
  apply Agree.ite (q := kind = .match) (fun run => by rw [tokens.kinds])
  case' yes =>
    intro isMatch
    refine (agree_skipTrivia laws (tokens.after (by rw [isMatch]; decide))).bind
      fun stage nearer bare moves _ clear => ?_
    have isOpen := C.openBrace_of_later moves isOpen
    have twins := clear.1.rest
    have left : ∀ run, (bare run).rest.size ≤ limit := fun run => by
      have := (bare run).size_lt
      have := (lexed (nearer run)).size_le
      have := left (nearer run)
      omega
    have same : ∀ run, (found (kept (further (nearer run)))).map ModeRule.withoutSpans = ruled :=
      fun run => same _
    have legacies : ∀ run, (legacy (kept (further (nearer run)))).withoutSpans = declared :=
      fun run => legacies _
  case' no => intro _
  all_goals
    simp only [pure_bind]
    refine (agree_quoted laws twins).bind fun stage beyond matcher moves _ matched => ?_
    have isOpen := C.openBrace_of_later moves isOpen
    have left : ∀ run, (matcher run).rest.size < limit := fun run => by
      have := (matcher run).size_lt
      have := left (beyond run)
      omega
    obtain ⟨⟨pattern, matched⟩, rest⟩ := matched
    refine (agree_skipTrivia laws rest).bind fun stage onward trimmed moves _ clear => ?_
    have isOpen := C.openBrace_of_later moves isOpen
    refine nextThen laws clear.1.rest fun stage toward arrow kind moves read tokens twins => ?_
    have isOpen := C.openBrace_of_later moves isOpen
    refine .ite (q := kind ≠ .arrow) (fun run => by rw [tokens.kinds])
      (fun _ => .settled (laws.refused twins read fun _ same => by cases same)) fun isArrow => ?_
    obtain rfl := Decidable.not_not.1 isArrow
    refine (agree_skipTrivia laws (tokens.after (by decide))).bind
      fun stage away again moves _ clear => ?_
    have isOpen := C.openBrace_of_later moves isOpen
    refine nextThen laws clear.1.rest fun stage aside quote kind moves read tokens twins => ?_
    have isOpen := C.openBrace_of_later moves isOpen
    have left : ∀ run, (again (aside run)).rest.size ≤ limit := fun run => by
      have := (again (aside run)).size_lt
      have := (arrow (away (aside run))).size_le
      have := (trimmed (toward (away (aside run)))).size_lt
      have := left (onward (toward (away (aside run))))
      omega
    apply Agree.ite (q := kind.quote?.isSome = true) (fun run => by rw [tokens.kinds])
    case' yes =>
      intro _
      refine (agree_quoted laws twins).bind fun stage beside literal moves _ quotes => ?_
      have isOpen := C.openBrace_of_later moves isOpen
      obtain ⟨⟨content, quotes⟩, rest⟩ := quotes
      have left : ∀ run, (literal run).rest.size < limit :=
        fun run => Nat.lt_of_lt_of_le (literal run).size_lt (left _)
      have rules := fun run => ModeRule.cons_alike
        (matched (onward (toward (away (aside (beside run))))))
        (congrArg (fun text => Choice.withoutSpans (.nodes [.text text])) (quotes run))
        (same (beyond (onward (toward (away (aside (beside run)))))))
      have legacies := fun run => Legacy.append_alike
        (legacies (beyond (onward (toward (away (aside (beside run)))))))
        (rfl : Legacy.empty.withoutSpans = _)
    case' no =>
      intro _
      refine (agree_choice laws below left twins).bind fun stage beside chosen moves _ chose => ?_
      have isOpen := C.openBrace_of_later moves isOpen
      obtain ⟨⟨⟨choice, others⟩, chose⟩, rest⟩ := chose
      have left : ∀ run, (chosen run).rest.size < limit :=
        fun run => Nat.lt_of_lt_of_le (chosen run).size_lt (left _)
      have rules := fun run => ModeRule.cons_alike
        (matched (onward (toward (away (aside (beside run))))))
        (Prod.mk.inj (chose run)).1
        (same (beyond (onward (toward (away (aside (beside run)))))))
      have legacies := fun run => Legacy.append_alike
        (legacies (beyond (onward (toward (away (aside (beside run)))))))
        (Prod.mk.inj (chose run)).2
    all_goals
      refine (agree_skipTrivia laws rest).bind fun stage near last moves _ clear => ?_
      have isOpen := C.openBrace_of_later moves isOpen
      refine nextThen laws clear.1.rest fun stage past separator kind moves read tokens twins => ?_
      have isOpen := C.openBrace_of_later moves isOpen
      simp only [tokens.kinds]
      cases kind with
      | comma =>
        have shorter : ∀ run, (separator run).after.size < limit := fun run => by
          have := (separator run).size_le
          have := (last (past run)).size_lt
          have := left (near (past run))
          omega
        exact (below.rules shorter (tokens.after (by decide)) isOpen
          (fun run => rules (near (past run))) fun run => legacies (near (past run))).bind
            fun _ _ reading _ _ same => .pure ⟨same.value, same.rest⟩
      | rightBrace =>
        exact .pure ⟨⟨_, fun run => rulesView_reverse (rules (near (past run)))
          (legacies (near (past run)))⟩, twins⟩
      | endOfText => exact .settled (laws.brace isOpen)
      | _ => exact .settled (laws.refused twins read fun _ same => by cases same)

theorem agree_fork {opening : C.Run stage → Nat} (isOpen : C.OpenBrace stage opening)
    {name : C.Run stage → Option String} {called : Option String} (names : ∀ run, name run = called)
    {marked : C.Run stage → Flags} {flags : Flags} (marks : ∀ run, marked run = flags)
    (bound : C.Run stage → Nat) (shorter : ∀ run, (cursors run).size < bound run) :
    C.Agree (C.Ends blockView) fun run =>
      fork (opening run) (name run) (marked run) (cursors run) (shorter run) := by
  simp only [names, marks, fork]
  have noBranches : ∀ _ : C.Run stage, branchesWithoutSpans [] = [] := fun _ => rfl
  have noRules : ∀ _ : C.Run stage, Legacy.empty.withoutSpans = .empty := fun _ => rfl
  refine (agree_entries laws below within twins isOpen noBranches noRules).bind
    fun stage kept reading moves _ same => ?_
  obtain ⟨⟨⟨⟨branches, declared⟩, same⟩, rest⟩, closed⟩ := same
  have alike := fun run => (Prod.mk.inj (same run)).1
  rcases forkNode_cases called flags (fun run => opening (kept run))
    (fun run => (reading run).rest.offset) alike with heavy | light
  · refine .settled (laws.failed closed fun run => ?_)
    obtain ⟨error, fails⟩ := heavy run
    rw [fails]
    exact ⟨error, rfl⟩
  · simp only [light]
    refine .okThen (.pure ⟨⟨⟨(some (.fork ⟨called, flags.silent, flags.isSet, branches, default⟩),
      declared), fun run => ?_⟩, rest⟩, closed⟩)
    rw [blockView, Option.map_some, Node.withoutSpans, alike run, (Prod.mk.inj (same run)).2]

omit within in
theorem agree_referral {opening : C.Run stage → Nat} (isOpen : C.OpenBrace stage opening)
    {name : C.Run stage → Option String} {called : Option String} (names : ∀ run, name run = called)
    {marked : C.Run stage → Flags} {flags : Flags} (marks : ∀ run, marked run = flags)
    (reruns : Bool) {sign : ∀ run, Lexed (cursors run)}
    (read : ∀ run, (cursors run).next = .ok (sign run)) (tokens : C.Tokens stage .at sign)
    (less : ∀ run, (sign run).after.size < limit) (bound : C.Run stage → Nat)
    (shorter : ∀ run, (sign run).after.size < bound run) :
    C.Agree (C.Ends blockView) fun run =>
      referral (opening run) (name run) (marked run) reruns (sign run) (shorter run) := by
  simp only [names, marks, referral]
  refine .ite (q := flags.isSet = true) (fun _ => Iff.rfl)
    (fun _ => .settled (laws.refused twins read fun _ same => by cases same)) fun _ => ?_
  refine (below.reference less (tokens.after (by decide)) isOpen called flags.silent reruns).bind
    fun stage kept reading _ _ same => ?_
  obtain ⟨⟨⟨⟨node, declared⟩, same⟩, rest⟩, closed⟩ := same
  refine .pure ⟨⟨⟨(some node, declared), fun run => ?_⟩, rest⟩, closed⟩
  rw [blockView, Option.map_some, (Prod.mk.inj (same run)).1, (Prod.mk.inj (same run)).2]

theorem agree_unmarked {opening : C.Run stage → Nat} (isOpen : C.OpenBrace stage opening)
    {marked : C.Run stage → Flags} {flags : Flags} (marks : ∀ run, marked run = flags)
    (calls : ∃ blank, ∀ run lexed, (cursors run).next = .ok lexed → lexed.token.kind = .call →
      followedByBlank lexed.after = blank)
    (bound : C.Run stage → Nat) (shorter : ∀ run, (cursors run).size < bound run) :
    C.Agree (C.Ends blockView) fun run =>
      unmarked (opening run) (marked run) (cursors run) (shorter run) := by
  refine (agree_label laws twins isOpen calls).bind fun stage kept named moves _ same => ?_
  have isOpen := C.openBrace_of_later moves isOpen
  obtain ⟨⟨called, names⟩, rest⟩ := same
  refine (agree_skipTrivia laws rest).bind fun stage further body moves _ clear => ?_
  have isOpen := C.openBrace_of_later moves isOpen
  have twins := clear.1.rest
  have left : ∀ run, (body run).rest.size ≤ limit := fun run => by
    have := (body run).size_lt
    have := (named (further run)).size_lt
    have := within (kept (further run))
    omega
  refine (laws.next twins).bind fun stage nearer first moves read token => ?_
  have isOpen := C.openBrace_of_later moves isOpen
  obtain ⟨⟨kind, tokens⟩, keeps⟩ := token
  have twins := keeps.self twins
  by_cases eval : kind = .eval
  · have word : ∀ run, (body (nearer run)).rest.Leads [.eval] (first run).after := fun run =>
      .inr ⟨_, read run, by simp [tokens.kinds, eval], .here⟩
    simp only [tokens.kinds, eval, if_true]
    refine (agree_referenceFollows laws (tokens.after (by rw [eval]; decide))).bind
      fun stage beyond follows moves _ seen => ?_
    have isOpen := C.openBrace_of_later moves isOpen
    obtain ⟨⟨follows, seen⟩, keeps⟩ := seen
    have after := keeps.self (tokens.after (by rw [eval]; decide))
    have twins := keeps _ twins word
    simp only [seen]
    refine .ite (q := follows = true) (fun _ => Iff.rfl) (fun _ => ?_) fun _ => ?_
    · refine (agree_skipTrivia laws after).bind fun stage onward trimmed moves _ clear => ?_
      have isOpen := C.openBrace_of_later moves isOpen
      refine nextThen laws clear.1.rest fun stage away sign kind moves read tokens twins => ?_
      have isOpen := C.openBrace_of_later moves isOpen
      refine .dite (q := kind = .at) (fun run => by rw [tokens.kinds]) (fun isAt signed => ?_)
        fun _ _ => .settled (laws.refused twins read fun _ same => by cases same)
      have less : ∀ run, (sign run).after.size < limit := fun run => by
        have := (sign run).size_lt (by rw [isAt]; decide)
        have := (trimmed (away run)).size_lt
        have := (first (beyond (onward (away run)))).size_le
        have := left (nearer (beyond (onward (away run))))
        omega
      subst signed
      have names : ∀ run, (named (further (nearer (beyond (onward (away run)))))).value = called :=
        fun run => names _
      have marks : ∀ run, marked (kept (further (nearer (beyond (onward (away run)))))) = flags :=
        fun run => marks _
      exact agree_referral laws below twins isOpen names marks true read tokens less
        (fun run => bound (kept (further (nearer (beyond (onward (away run))))))) _
    · simp only [reduceCtorEq, dif_neg, not_false_eq_true]
      have names : ∀ run, (named (further (nearer (beyond run)))).value = called :=
        fun run => names _
      have marks : ∀ run, marked (kept (further (nearer (beyond run)))) = flags :=
        fun run => marks _
      exact agree_fork laws below (fun run => left _) twins isOpen names marks
        (fun run => bound (kept (further (nearer (beyond run))))) _
  · simp only [tokens.kinds, eval, if_false]
    refine .okThen ?_
    simp only [Bool.false_eq_true, if_false]
    have names : ∀ run, (named (further (nearer run))).value = called := fun run => names _
    have marks : ∀ run, marked (kept (further (nearer run))) = flags := fun run => marks _
    refine .dite (q := kind = .at) (fun _ => Iff.rfl) (fun isAt signed => ?_) fun _ _ => ?_
    · have less : ∀ run, (first run).after.size < limit := fun run => by
        have := (first run).size_lt (by rw [tokens.kinds, signed]; decide)
        have := left (nearer run)
        omega
      subst signed
      exact agree_referral laws below twins isOpen names marks false read tokens less
        (fun run => bound (kept (further (nearer run)))) _
    · exact agree_fork laws below (fun run => left _) twins isOpen names marks
        (fun run => bound (kept (further (nearer run)))) _

theorem agree_block {opening : C.Run stage → Nat} (isOpen : C.OpenBrace stage opening) :
    C.Agree (C.Ends blockView) fun run => block (opening run) (cursors run) := by
  refine .of_eq (fun run => block_eq _) ?_
  refine (agree_skipTrivia laws twins).bind fun stage kept start moves _ clear => ?_
  have isOpen := C.openBrace_of_later moves isOpen
  refine (agree_flags laws clear.1.rest).bind fun stage further flagged moves _ same => ?_
  have isOpen := C.openBrace_of_later moves isOpen
  obtain ⟨⟨flags, marks⟩, rest⟩ := same
  have left : ∀ run, (flagged run).rest.size ≤ limit := fun run => by
    have := (flagged run).size_lt
    have := (start (further run)).size_lt
    have := within (kept (further run))
    omega
  refine nextThen laws rest fun stage nearer lexed kind moves read tokens twins => ?_
  have isOpen := C.openBrace_of_later moves isOpen
  have marks : ∀ run, (flagged (nearer run)).value = flags := fun run => marks _
  simp only [marks]
  -- Only behind these words a blank makes a difference.
  by_cases word : kind = .call ∨ (flags.silent = false ∧ flags.isSet = false) ∧
    (kind = .mode ∨ kind = .use)
  · rcases laws.blank twins read tokens (word.imp_right And.right) with
      ⟨run, error, wants, settles⟩ | ⟨later, onward, moves, twins, after, blank, blanks⟩
    · refine .settled (settles _ ?_)
      rw [wants.blank]
      rcases word with call | ⟨⟨spoken, single⟩, mode | use⟩
      · rw [if_neg (by simp [tokens.kinds, call]), if_neg (by simp [tokens.kinds, call]),
          wants.unmarked (read run) ((tokens.kinds run).trans call)]
        rfl
      · rw [if_pos (by simp [tokens.kinds, spoken, single, mode]), wants.mode]
        rfl
      · rw [if_neg (by simp [tokens.kinds, use]),
          if_pos (by simp [tokens.kinds, spoken, single, use])]
        obtain ⟨trimmed, skips, refused⟩ := wants.identifier TokenKind.isTrivia rfl rfl fun _ trivia => trivia
        rw [skipTrivia, skips]
        dsimp only [bind, Except.bind]
        rw [refused]
        rfl
    have isOpen := C.openBrace_of_later moves isOpen
    have left : ∀ run, (flagged (nearer (onward run))).rest.size ≤ limit := fun run => left _
    have behind : ∀ run, (lexed (onward run)).after.size ≤ limit :=
      fun run => Nat.le_trans (lexed (onward run)).size_le (left run)
    refine .of_later moves ?_
    simp only [blanks, tokens.kinds]
    refine .ite (q := (!flags.silent && !flags.isSet && blank && decide (kind = .mode)) = true)
      (fun _ => Iff.rfl) (fun _ => ?_) fun _ => ?_
    · refine (agree_mode laws below behind after isOpen).bind fun stage away reading _ _ same => ?_
      obtain ⟨⟨⟨declared, same⟩, rest⟩, closed⟩ := same
      exact .pure ⟨⟨⟨(none, declared), fun run => congrArg (Prod.mk none) (same run)⟩, rest⟩, closed⟩
    refine .ite (q := (!flags.silent && !flags.isSet && blank && decide (kind = .use)) = true)
      (fun _ => Iff.rfl) (fun _ => ?_) fun _ => ?_
    · refine (agree_skipTrivia laws after).bind fun stage away trimmed moves _ clear => ?_
      have isOpen := C.openBrace_of_later moves isOpen
      refine (agree_identifier laws clear.1.rest).bind fun stage aside name moves _ same => ?_
      have isOpen := C.openBrace_of_later moves isOpen
      obtain ⟨⟨called, names⟩, rest⟩ := same
      refine (agree_closingBrace laws rest isOpen).bind fun stage beside close _ _ closes => ?_
      refine .pure ⟨⟨⟨(none, ⟨[], [called]⟩), fun run => ?_⟩, closes.1.rest⟩, closes.2⟩
      rw [blockView, ← names (beside run)]
      rfl
    · have calls : ∃ blank, ∀ run found, (flagged (nearer (onward run))).rest.next = .ok found →
          found.token.kind = .call → followedByBlank found.after = blank :=
        ⟨blank, fun run found given _ => by
          cases given.symm.trans (read (onward run))
          exact blanks run⟩
      exact agree_unmarked laws below left twins isOpen (fun _ => rfl) calls
        (fun run => (cursors (kept (further (nearer (onward run))))).size + 1) _
  · have noMode : ∀ run, ¬ (!flags.silent && !flags.isSet && followedByBlank (lexed run).after &&
        decide ((lexed run).token.kind = .mode)) = true := fun run holds => by
      rw [tokens.kinds] at holds
      simp only [Bool.and_eq_true, Bool.not_eq_true', decide_eq_true_eq] at holds
      exact word (.inr ⟨holds.1.1, .inl holds.2⟩)
    have noUse : ∀ run, ¬ (!flags.silent && !flags.isSet && followedByBlank (lexed run).after &&
        decide ((lexed run).token.kind = .use)) = true := fun run holds => by
      rw [tokens.kinds] at holds
      simp only [Bool.and_eq_true, Bool.not_eq_true', decide_eq_true_eq] at holds
      exact word (.inr ⟨holds.1.1, .inr holds.2⟩)
    have calls : ∃ blank, ∀ run found, (flagged (nearer run)).rest.next = .ok found →
        found.token.kind = .call → followedByBlank found.after = blank :=
      ⟨true, fun run found given call => by
        cases given.symm.trans (read run)
        exact absurd (.inl ((tokens.kinds run).symm.trans call)) word⟩
    refine .of_eq (fun run => by rw [if_neg (noMode run), if_neg (noUse run)]) ?_
    exact agree_unmarked laws below (fun run => left _) twins isOpen (fun _ => rfl) calls
      (fun run => (cursors (kept (further (nearer run)))).size + 1) _

end Steps

/-! ## Texts of any length -/

theorem readsBelow (laws : C.Lawful) (limit : Nat) : ReadsBelow C limit := by
  induction limit with
  | zero =>
    have none : ∀ {stage : C.Stage} {cursors : C.Run stage → Cursor} {result : Prop},
        (∀ run, (cursors run).size < 0) → result := fun shorter =>
      (C.followed _).elim fun run => absurd (shorter run) (Nat.not_lt_zero _)
    exact ⟨fun shorter => none shorter, fun shorter => none shorter, fun shorter => none shorter,
      fun shorter => none shorter, fun shorter => none shorter, fun shorter => none shorter,
      fun shorter => none shorter⟩
  | succ limit ih =>
    exact {
      sequence := fun shorter => agree_sequence laws ih fun run => Nat.le_of_lt_succ (shorter run)
      block := fun shorter => agree_block laws ih fun run => Nat.le_of_lt_succ (shorter run)
      entries := fun shorter => agree_entries laws ih fun run => Nat.le_of_lt_succ (shorter run)
      reference := fun shorter =>
        agree_reference laws ih fun run => Nat.le_of_lt_succ (shorter run)
      mappings := fun shorter => agree_mappings laws ih fun run => Nat.le_of_lt_succ (shorter run)
      mode := fun shorter => agree_mode laws ih fun run => Nat.le_of_lt_succ (shorter run)
      rules := fun shorter => agree_rules laws ih fun run => Nat.le_of_lt_succ (shorter run) }

section Whole

variable {cursors : C.Run stage → Cursor} (laws : C.Lawful) (twins : C.Twins stage cursors)
include laws twins

/-- Blocks agree. -/
theorem Lawful.agree_block {opening : C.Run stage → Nat} (isOpen : C.OpenBrace stage opening) :
    C.Agree (C.Ends blockView) fun run => Reader.block (opening run) (cursors run) := by
  obtain ⟨limit, within⟩ := C.exists_limit fun run => (cursors run).size
  exact (readsBelow laws limit).block within twins isOpen

/-- What stands in parentheses agrees. -/
theorem Lawful.agree_nested {opening : C.Run stage → Nat} (isOpen : C.OpenParen stage opening) :
    C.Agree (C.Ends nodesView) fun run =>
      sequence (some (opening run)) 0 .empty .empty (cursors run) := by
  obtain ⟨limit, within⟩ := C.exists_limit fun run => (cursors run).size
  have sides : ∀ run, (some (opening run)).isSome = true := fun _ => rfl
  exact ((readsBelow laws limit).sequence within twins sides (fun _ => isOpen) 0 (fun _ => rfl)
    fun _ => rfl).imp fun _ _ _ _ _ same => ⟨same.1, same.2 rfl⟩

/-- Texts agree. -/
theorem Lawful.agree_sequence {passage : C.Run stage → Passage} {gathered : Passage}
    (passages : ∀ run, (passage run).withoutSpans = gathered)
    {legacy : C.Run stage → Legacy} {declared : Legacy}
    (legacies : ∀ run, (legacy run).withoutSpans = declared) (depth : Nat) :
    C.Agree (C.Reads nodesView) fun run =>
      sequence none depth (passage run) (legacy run) (cursors run) := by
  obtain ⟨limit, within⟩ := C.exists_limit fun run => (cursors run).size
  have sides : ∀ run : C.Run stage, (none : Option Nat).isSome = false := fun _ => rfl
  exact ((readsBelow laws limit).sequence within twins sides
    (fun isInside => absurd isInside Bool.false_ne_true) depth passages legacies).imp
    fun _ _ _ _ _ same => same.1

end Whole

end Comparison

end BranchText
