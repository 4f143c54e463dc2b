import BranchText.Proofs.LineBreaks.Lexemes

/-!
# Pieces with either line break

What the readers of the parts that do not nest make of a place and of its twin: the same value, with
twins behind it. Only quoted literals and scripts in which a line break is escaped may be cut short.
-/

namespace BranchText

/-- Readings of values that are alike, with twins behind them. -/
structure Reading.Twin {α β : Type} (source : List Char) (alike : α → β → Prop) {limit bound : Nat}
    (reading : Reading α limit) (found : Reading β bound) : Prop where
  value : alike reading.value found.value
  rest : Twins source reading.rest found.rest

namespace Reader

section Mappings

variable {source : List Char}

theorem respelled_insertMapping {mapping further : Mapping} {mappings found : List Mapping}
    (same : mapping.Respelled further) (mapped : List.Forall₂ Mapping.Respelled mappings found) :
    List.Forall₂ Mapping.Respelled (insertMapping mapping mappings)
      (insertMapping further found) := by
  induction mapped with
  | nil => exact .cons same .nil
  | cons first rest ih =>
    cases same with
    | of chosen =>
      cases first with
      | of other =>
        simp only [insertMapping]
        split
        · exact .cons (.of chosen) (.cons (.of other) rest)
        · exact .cons (.of other) ih

/-- The same indices are mapped. -/
theorem any_branch_of_respelled {mappings found : List Mapping}
    (mapped : List.Forall₂ Mapping.Respelled mappings found) (branch : Nat) :
    found.any (·.branch = branch) = mappings.any (·.branch = branch) := by
  induction mapped with
  | nil => rfl
  | cons first rest ih =>
    cases first with
    | of => rw [List.any_cons, List.any_cons, ih]

theorem agree_addMappings {choice further : Choice} (chosen : choice.Respelled further)
    {indices others : List (Nat × Nat)} (same : others.map Prod.fst = indices.map Prod.fst)
    {mappings found : List Mapping} (mapped : List.Forall₂ Mapping.Respelled mappings found) :
    Agree (CutShort source) (List.Forall₂ Mapping.Respelled)
      (addMappings choice indices mappings) (addMappings further others found) := by
  induction indices generalizing others mappings found with
  | nil =>
    obtain rfl := List.map_eq_nil_iff.1 same
    exact .values mapped
  | cons index indices ih =>
    obtain ⟨branch, offset⟩ := index
    obtain ⟨⟨_, place⟩, others, rfl, rfl, later⟩ := List.map_eq_cons_iff.1 same
    rw [addMappings, addMappings]
    refine .ite (by rw [any_branch_of_respelled mapped]) (fun _ => .errors) fun _ => ?_
    exact ih later (respelled_insertMapping (.of chosen) mapped)

/-- Forks with the same weights. -/
theorem agree_forkNode (opening place stop last : Nat) (identifier : Option String) (flags : Flags)
    {branches others : List Branch} (entries : List.Forall₂ Branch.Respelled branches others) :
    Agree (CutShort source) Node.Respelled (forkNode opening identifier flags branches stop)
      (forkNode place identifier flags others last) := by
  have written : Fork.written (W := Float)
      ⟨identifier, flags.silent, flags.isSet, others, ⟨place, last⟩⟩ =
      Fork.written ⟨identifier, flags.silent, flags.isSet, branches, ⟨opening, stop⟩⟩ := by
    simp only [Fork.written]
    induction entries with
    | nil => rfl
    | cons first rest ih =>
      cases first with
      | of => rw [List.map_cons, List.map_cons, ih]
  unfold forkNode
  dsimp only
  rw [written]
  split
  · exact .errors
  · exact .values (.fork entries)

end Mappings

section Pieces

variable {source : List Char} {cursor other : Cursor} (plain : '\r' ∉ source)
  (twins : Twins source cursor other)
include plain twins

theorem agree_skipWhile {skipped : TokenKind → Bool} (atEnd : skipped .endOfText = false) :
    Agree (CutShort source) (Reading.Twin source Eq) (skipWhile skipped atEnd cursor)
      (skipWhile skipped atEnd other) := by
  induction cursor using Indexed.cursor_induction generalizing other with
  | step cursor ih =>
    rw [skipWhile, skipWhile]
    refine (agree_next plain twins).elim (fun lexed found twin => ?_) (fun _ _ => .errors)
      fun _ _ reason => .of_reason reason
    refine .dite (by rw [twin.kind]) (fun more _ => ?_) fun _ _ => .values ⟨rfl, twins⟩
    have progress := lexed.size_lt (fun kind => by rw [kind, atEnd] at more; cases more)
    refine (ih _ progress twin.after).elim (fun reading tail alike => ?_) (fun _ _ => .errors)
      fun _ _ reason => .of_reason reason
    exact .values ⟨rfl, alike.rest⟩

theorem agree_skipTrivia : Agree (CutShort source) (Reading.Twin source Eq) (skipTrivia cursor)
    (skipTrivia other) := agree_skipWhile plain twins rfl

theorem agree_skipBlanks : Agree (CutShort source) (Reading.Twin source Eq) (skipBlanks cursor)
    (skipBlanks other) := agree_skipWhile plain twins rfl

theorem agree_closingBrace (opening place : Nat) : Agree (CutShort source) (Reading.Twin source Eq)
    (closingBrace opening cursor) (closingBrace place other) := by
  rw [closingBrace, closingBrace]
  refine (agree_skipTrivia plain twins).bind fun trimmed clear atTrimmed => ?_
  refine (agree_next plain atTrimmed.rest).bind fun lexed found twin => ?_
  dsimp only
  rw [twin.kind]
  cases kind : lexed.token.kind with
  | rightBrace => exact .values ⟨rfl, twin.after⟩
  | _ => exact .errors

theorem agree_identifierTail {start : String} : Agree (CutShort source) (Reading.Twin source Eq)
    (identifierTail start cursor) (identifierTail start other) := by
  induction cursor using Indexed.cursor_induction generalizing start other with
  | step cursor ih =>
    rw [identifierTail, identifierTail]
    refine (agree_next plain twins).elim (fun lexed found twin => ?_) (fun _ _ => .errors)
      fun _ _ reason => .of_reason reason
    refine .dite (by rw [twin.isIdentifierToken]) (fun part _ => ?_) fun _ _ => .values ⟨rfl, twins⟩
    rw [twin.text_of_isIdentifierToken part]
    refine (ih _ (lexed.size_lt (kind_ne_endOfText part)) twin.after).elim
      (fun reading tail alike => ?_) (fun _ _ => .errors) fun _ _ reason => .of_reason reason
    exact .values ⟨alike.value, alike.rest⟩

theorem agree_identifier : Agree (CutShort source) (Reading.Twin source Eq) (identifier cursor)
    (identifier other) := by
  rw [identifier, identifier]
  refine (agree_identifierTail plain twins).bind fun reading tail alike => ?_
  refine .ite (by rw [alike.value]) (fun _ => ?_) fun _ => .values alike
  exact (agree_next plain twins).bind fun _ _ _ => .errors

theorem followedByBlank_of_twins : followedByBlank other = followedByBlank cursor :=
  congrArg TokenKind.isTrivia (twins.returned plain).kind

theorem agree_referenceFollows : Agree (CutShort source) Eq (referenceFollows cursor)
    (referenceFollows other) := by
  rw [referenceFollows, referenceFollows]
  refine (agree_skipTrivia plain twins).bind fun trimmed clear alike => ?_
  refine (agree_next plain alike.rest).bind fun lexed found twin => ?_
  rw [twin.kind]
  exact .values rfl

theorem agree_flags {noted : Flags} : Agree (CutShort source) (Reading.Twin source Eq)
    (flags noted cursor) (flags noted other) := by
  induction cursor using Indexed.cursor_induction generalizing noted other with
  | step cursor ih =>
    -- The two outcomes are opened one after the other, since each depends on its own flag.
    generalize hidden : flags noted other = outcome
    rw [flags] at hidden ⊢
    revert hidden
    refine (agree_next plain twins).elim (fun lexed found twin hidden => ?_)
      (fun _ _ hidden => hidden ▸ .errors) fun _ _ reason hidden => hidden ▸ .of_reason reason
    dsimp only at hidden ⊢
    split
    · rename_i unflagged
      rw [← twin.kind] at unflagged
      split at hidden
      · exact hidden ▸ .values ⟨rfl, twins⟩
      · rename_i flagged
        cases unflagged.symm.trans flagged
    · rename_i noted flagged
      have progress := lexed.size_lt fun kind => by simp [kind] at flagged
      rw [← twin.kind] at flagged
      split at hidden
      · rename_i unflagged
        cases flagged.symm.trans unflagged
      rename_i same
      cases flagged.symm.trans same
      subst hidden
      refine (agree_skipTrivia plain twin.after).elim (fun trimmed clear alike => ?_)
        (fun _ _ => .errors) fun _ _ reason => .of_reason reason
      have trimmedLt := trimmed.size_lt
      dsimp only
      refine (ih trimmed.rest (by omega) alike.rest).elim (fun reading more same => ?_)
        (fun _ _ => .errors) fun _ _ reason => .of_reason reason
      exact .values ⟨same.value, same.rest⟩

theorem agree_label (opening place : Nat) : Agree (CutShort source) (Reading.Twin source Eq)
    (label opening cursor) (label place other) := by
  rw [label, label]
  refine (agree_next plain twins).bind fun lexed found twin => ?_
  have blank := followedByBlank_of_twins plain twin.after
  dsimp only
  rw [twin.isIdentifierToken, twin.kind, blank]
  refine .ite Iff.rfl (fun _ => .values ⟨rfl, twins⟩) fun _ => ?_
  refine .ite Iff.rfl (fun _ => .values ⟨rfl, twins⟩) fun _ => ?_
  refine .decided Iff.rfl (fun _ => agree_referenceFollows plain twin.after)
    (.values ⟨rfl, twins⟩) ?_
  refine (agree_identifier plain twins).bind fun name called same => ?_
  refine (agree_skipBlanks plain same.rest).bind fun trimmed clear alike => ?_
  refine (agree_next plain alike.rest).bind fun colon sign twin => ?_
  rw [twin.kind]
  cases kind : colon.token.kind with
  | colon => exact .values ⟨by rw [same.value], twin.after⟩
  | _ => exact .errors

theorem agree_weight : Agree (CutShort source) (Reading.Twin source Eq) (weight cursor)
    (weight other) := by
  rw [weight, weight]
  refine (agree_skipTrivia plain twins).bind fun trimmed clear alike => ?_
  refine (agree_next plain alike.rest).bind fun number found twin => ?_
  refine .ite (by rw [twin.kind]) (fun numeric => ?_) fun _ => .values ⟨rfl, alike.rest⟩
  exact .values ⟨by rw [twin.same (by rw [numeric]; decide)], twin.after⟩

/-- Index lists have the same indices. -/
theorem agree_indexList : Agree (CutShort source)
    (Reading.Twin source fun indices others => others.map Prod.fst = indices.map Prod.fst)
    (indexList cursor) (indexList other) := by
  induction cursor using Indexed.cursor_induction generalizing other with
  | step cursor ih =>
    rw [indexList, indexList]
    refine (agree_next plain twins).bind fun number found twin => ?_
    refine .dite (by rw [twin.kind]) (fun numeric _ => ?_) fun _ _ => .errors
    have progress := number.size_lt (by rw [numeric]; decide)
    have index : Agree (CutShort source) Eq (branchIndex number.token)
        (branchIndex found.token) := by
      unfold branchIndex
      rw [twin.same (by rw [numeric]; decide)]
      split
      · exact .values rfl
      · exact .errors
    refine index.bind ?_
    rintro index _ rfl
    refine (agree_skipTrivia plain twin.after).bind fun trimmed clear alike => ?_
    refine (agree_next plain alike.rest).bind fun lexed sign twin => ?_
    dsimp only
    rw [twin.kind]
    cases kind : lexed.token.kind with
    | arrow => exact .values ⟨rfl, twin.after⟩
    | comma =>
      refine (agree_skipTrivia plain twin.after).bind fun later last alike => ?_
      have trimmedLt := trimmed.size_lt
      have lexedLe := lexed.size_le
      have laterLt := later.size_lt
      refine (ih later.rest (by omega) alike.rest).bind fun reading tail same => ?_
      exact .values ⟨by simp [same.value], same.rest⟩
    | _ => exact .errors

/-- Quoted literals stand for the same but for line breaks. -/
theorem agree_quoted : Agree (CutShort source)
    (Reading.Twin source fun text found => Respelled text.toList found.toList)
    (quoted cursor) (quoted other) := by
  have failed : ∀ (cursor : Cursor) error, cursor.next = .error error →
      quoted cursor = .error error := by
    intro cursor error failed
    rw [quoted]
    simp only [failed]
  refine (agree_next plain twins).follow (failed cursor) (failed other)
    fun lexed found read readToo twin => ?_
  cases opens : lexed.token.kind.quote? with
  | none =>
    rw [Indexed.quoted_of_none read opens, Indexed.quoted_of_none readToo (twin.kind ▸ opens)]
    exact .errors
  | some quote =>
    have here := Indexed.quoted_eq read opens
    have there := Indexed.quoted_eq readToo (twin.kind ▸ opens)
    refine (twin.agree_find opens).follow (fun error failed => by rwa [failed] at here)
      (fun error failed => by rwa [failed] at there) fun close last closed closedToo behind => ?_
    rw [closed] at here
    rw [closedToo] at there
    obtain ⟨reading, given, same⟩ := here
    obtain ⟨tail, givenToo, sameToo⟩ := there
    obtain ⟨front, back, split, rfl⟩ := Quoted.find_eq_ok closed
    obtain ⟨text, returned⟩ := twin.after.textUntil behind split
    rw [text] at same
    rw [returned] at sameToo
    obtain ⟨value, rest⟩ := Prod.mk.inj same
    obtain ⟨valueToo, restToo⟩ := Prod.mk.inj sameToo
    rw [given, givenToo]
    refine .values ⟨?_, ?_⟩
    · rw [value, valueToo, String.toList_ofList, String.toList_ofList]
      exact Quoted.respelled_decode front
    · rw [rest, restToo]
      exact behind.skip_one rfl (Quoted.quote_ne_lineFeed opens)

omit plain in
theorem agree_verbatim (opening place : Nat) : Agree (CutShort source)
    (Reading.Twin source fun text found => Respelled text.toList found.toList)
    (verbatim opening cursor) (verbatim place other) := by
  have ends := verbatim?_withReturns cursor.rest
  rw [← twins.rest] at ends
  rw [verbatim, verbatim, ends]
  cases verbatim? cursor.rest with
  | none => exact .errors
  | some found =>
    refine .values ⟨?_, twins.skip rfl⟩
    simpa using Respelled.withReturns found.1

omit plain in
/-- Script blocks have the same source but for line breaks. -/
theorem agree_script (opening place : Nat) : Agree (CutShort source)
    (Reading.Twin source fun block found => Choice.Respelled (.script block) (.script found))
    (script opening cursor) (script place other) := by
  have agree : Agree (CutShort source) (Twins source)
      (Extent.find opening (.initial cursor.offset none) cursor.offset cursor.rest)
      (Extent.find place (.initial other.offset none) other.offset other.rest) := by
    obtain ⟨front, split, rfl⟩ := twins
    exact Extent.agree_find split (Extent.inStep_outside rfl)
  have here := Indexed.script_eq opening cursor
  have there := Indexed.script_eq place other
  refine agree.follow (fun error failed => by rwa [failed] at here)
    (fun error failed => by rwa [failed] at there) fun close last closed closedToo behind => ?_
  rw [closed] at here
  rw [closedToo] at there
  obtain ⟨reading, given, same⟩ := here
  obtain ⟨tail, givenToo, sameToo⟩ := there
  obtain ⟨front, back, split, rfl⟩ := Extent.find_eq_ok closed
  obtain ⟨text, returned⟩ := twins.textUntil behind split
  rw [text] at same
  rw [returned] at sameToo
  obtain ⟨value, rest⟩ := Prod.mk.inj same
  obtain ⟨valueToo, restToo⟩ := Prod.mk.inj sameToo
  rw [given, givenToo]
  refine .values ⟨?_, ?_⟩
  · rw [value, valueToo]
    exact .script (by rw [String.toList_ofList, String.toList_ofList])
  · rw [rest, restToo]
    exact behind.skip_one rfl (by decide)

end Pieces

end Reader

end BranchText
