import BranchText.Proofs.Indexed.Pieces

/-!
# The grammar by byte index

The readers of nested parts, by byte index, mirror those of cursors. `Mirrored` says so for all
shorter texts; from it follows the same for a text, reader by reader, in the order in which they
call one another without a token in between.
-/

namespace BranchText

namespace Indexed

open Reader

variable {source : List Char} {cursor : Cursor} {limit : Nat}

/-- The readers mirror each other on texts shorter than a limit, with openings at places. -/
structure Mirrored (source : List Char) (limit : Nat) : Prop where
  sequence {cursor : Cursor} (shorter : cursor.size < limit) {enclosing : Option Nat}
    (place : ∀ opening, enclosing = some opening → Cursor.IsPlace source opening) (depth : Nat)
    (passage : Passage) (legacy : Legacy) :
    Mirrors source (Part.sequence enclosing depth passage legacy).read cursor
      (Reader.sequence enclosing depth passage legacy cursor) Reading.view
  block {cursor : Cursor} (shorter : cursor.size < limit) {opening : Nat}
    (place : Cursor.IsPlace source opening) :
    Mirrors source (Part.block opening).read cursor (Reader.block opening cursor) Reading.view
  entries {cursor : Cursor} (shorter : cursor.size < limit) {opening : Nat}
    (place : Cursor.IsPlace source opening) (branches : List Branch) (legacy : Legacy) :
    Mirrors source (Part.entries opening branches legacy).read cursor
      (Reader.entries opening branches legacy cursor) Reading.view
  reference {cursor : Cursor} (shorter : cursor.size < limit) {opening : Nat}
    (place : Cursor.IsPlace source opening) (name : Option String) (silent reruns : Bool) :
    Mirrors source (Part.reference opening name silent reruns).read cursor
      (Reader.reference opening name silent reruns cursor) Reading.view
  mappings {cursor : Cursor} (shorter : cursor.size < limit) {opening : Nat}
    (place : Cursor.IsPlace source opening) (first : Bool) (found : List Mapping)
    (fallback : Option Choice) (legacy : Legacy) :
    Mirrors source (Part.mappings opening first found fallback legacy).read cursor
      (Reader.mappings opening first found fallback legacy cursor) Reading.view
  mode {cursor : Cursor} (shorter : cursor.size < limit) {opening : Nat}
    (place : Cursor.IsPlace source opening) :
    Mirrors source (Part.mode opening).read cursor (Reader.mode opening cursor) Reading.view
  rules {cursor : Cursor} (shorter : cursor.size < limit) {opening : Nat}
    (place : Cursor.IsPlace source opening) (found : List ModeRule) (legacy : Legacy) :
    Mirrors source (Part.rules opening found legacy).read cursor
      (Reader.rules opening found legacy cursor) Reading.view

/-- A branch that is mapped twice is reported where it is written. -/
theorem isPlace_of_addMappings {chosen : Choice} {indices : List (Nat × Nat)}
    {found : List Mapping} {error : ReadError}
    (places : ∀ entry ∈ indices, Cursor.IsPlace source entry.2)
    (failed : addMappings chosen indices found = .error error) :
    Cursor.IsPlace source error.offset := by
  fun_induction addMappings chosen indices found with
  | case1 => cases failed
  | case2 =>
    cases failed
    exact places _ (List.mem_cons_self ..)
  | case3 _ _ _ _ _ ih =>
    exact ih (fun entry member => places entry (List.mem_cons_of_mem _ member)) failed

section Steps

variable (below : Mirrored source limit) (within : cursor.size ≤ limit)
include below within

theorem mirrors_sequence {enclosing : Option Nat}
    (place : ∀ opening, enclosing = some opening → Cursor.IsPlace source opening) (depth : Nat)
    (passage : Passage) (legacy : Legacy) :
    Mirrors source (Part.sequence enclosing depth passage legacy).read cursor
      (Reader.sequence enclosing depth passage legacy cursor) Reading.view := by
  rw [Part.read, Reader.sequence]
  refine .peekThen fun lexed read taken => ?_
  dsimp only
  by_cases atEnd : lexed.token.kind = .endOfText
  · rw [dif_pos atEnd, atEnd]
    refine .checkThen (fun error failed => ?_) fun _ _ => .take read (.pure rfl)
    unfold allClosed at failed
    split at failed
    · cases failed
      exact place _ rfl
    · cases failed
  · have progress := lexed.size_lt atEnd
    have shorter : lexed.after.size < limit := by omega
    rw [dif_neg atEnd]
    -- Every token but these is text, and so are parentheses that nothing encloses.
    cases kind : lexed.token.kind with
    | endOfText => exact absurd kind atEnd
    | rightParen =>
      cases enclosing.isSome with
      | true =>
        cases depth with
        | zero => exact .take read (.pure rfl)
        | succ depth =>
          exact .take read ((below.sequence shorter place _ _ _).lastly fun _ => rfl)
      | false => exact .take read ((below.sequence shorter place _ _ _).lastly fun _ => rfl)
    | leftParen =>
      cases enclosing.isSome with
      | true => exact .take read ((below.sequence shorter place _ _ _).lastly fun _ => rfl)
      | false => exact .take read ((below.sequence shorter place _ _ _).lastly fun _ => rfl)
    | leftBrace =>
      refine .take read ((below.block shorter taken.start_isPlace).andRead fun inner _ => ?_)
      have innerLt := inner.size_lt
      have innerShorter : inner.rest.size < limit := by omega
      exact (below.sequence innerShorter place _ _ _).lastly fun _ => rfl
    | doubleLeftBracket =>
      refine .take read ((mirrors_verbatim taken.start_isPlace).andRead fun inner _ => ?_)
      have innerLt := inner.size_lt
      have innerShorter : inner.rest.size < limit := by omega
      exact (below.sequence innerShorter place _ _ _).lastly fun _ => rfl
    | rightBrace => exact .throw taken.start_isPlace
    | _ => exact .take read ((below.sequence shorter place _ _ _).lastly fun _ => rfl)

theorem mirrors_choice :
    Mirrors source Part.choice.read cursor (Reader.choice cursor) Reading.view := by
  rw [Part.read, Reader.choice]
  refine .peekThen fun lexed read taken => ?_
  dsimp only
  by_cases atEnd : lexed.token.kind = .endOfText
  · rw [dif_pos atEnd, atEnd]
    exact .throw taken.start_isPlace
  · have progress := lexed.size_lt atEnd
    have shorter : lexed.after.size < limit := by omega
    have opens : ∀ opening, some lexed.token.start = some opening →
        Cursor.IsPlace source opening := by
      rintro _ ⟨⟩
      exact taken.start_isPlace
    rw [dif_neg atEnd]
    cases kind : lexed.token.kind with
    | leftParen =>
      exact .take read ((below.sequence shorter opens _ _ _).andRead fun reading _ => .pure rfl)
    | leftBracket =>
      refine .take read ?_
      rw [taken.stop_eq]
      exact (mirrors_script taken.start_isPlace taken.after_in).andRead fun reading _ => .pure rfl
    | doubleLeftBracket =>
      have bodyIn := body_in taken kind
      exact .take read ((mirrors_script taken.start_isPlace bodyIn).andRead fun reading _ =>
        .pure rfl)
    | leftBrace =>
      refine .take read ((below.block shorter taken.start_isPlace).andRead fun reading _ => ?_)
      obtain ⟨⟨node, declared⟩, rest, restLt⟩ := reading
      cases node with
      | none => exact .throw taken.start_isPlace
      | some node => exact .pure rfl
    | call =>
      refine .followedByBlank read ?_
      dsimp only
      split
      · exact .take read (mirrors_skipBlanks.andRead fun trimmed _ =>
          mirrors_identifier.andRead fun name _ => .here (.pure rfl))
      · exact .throw taken.start_isPlace
    | _ => exact .throw taken.start_isPlace

end Steps

section Lists

variable (below : Mirrored source limit) (within : cursor.size ≤ limit)
  (choices : ∀ {cursor : Cursor}, cursor.size ≤ limit →
    Mirrors source Part.choice.read cursor (Reader.choice cursor) Reading.view)
  {opening : Nat} (place : Cursor.IsPlace source opening)
include below within choices place

theorem mirrors_entries (branches : List Branch) (legacy : Legacy) :
    Mirrors source (Part.entries opening branches legacy).read cursor
      (Reader.entries opening branches legacy cursor) Reading.view := by
  rw [Part.read, Reader.entries]
  refine mirrors_skipTrivia.andRead fun start _ => .peekThen fun first read taken => ?_
  dsimp only
  split
  · exact .take read (.pure rfl)
  split
  · exact .throw place
  have startLt := start.size_lt
  have startWithin : start.rest.size ≤ limit := by omega
  refine (choices startWithin).andRead fun chosen _ => mirrors_weight.andRead fun weighted _ =>
    mirrors_skipTrivia.andRead fun trimmed _ => .peekThen fun separator next takenNext => ?_
  have chosenLt := chosen.size_lt
  have weightedLt := weighted.size_lt
  have trimmedLt := trimmed.size_lt
  have separatorLe := separator.size_le
  cases kind : separator.token.kind with
  | comma =>
    have shorter : separator.after.size < limit := by omega
    exact .take next ((below.entries shorter place _ _).lastly fun _ => rfl)
  | rightBrace => exact .take next (.pure rfl)
  | endOfText => exact .throw place
  | _ => exact .throw takenNext.start_isPlace

theorem mirrors_mappings (first : Bool) (found : List Mapping) (fallback : Option Choice)
    (legacy : Legacy) :
    Mirrors source (Part.mappings opening first found fallback legacy).read cursor
      (Reader.mappings opening first found fallback legacy cursor) Reading.view := by
  rw [Part.read, Reader.mappings]
  refine mirrors_skipTrivia.andRead fun start _ => .peekThen fun lexed read taken => ?_
  dsimp only
  split
  · split
    · exact .throw taken.start_isPlace
    · exact .pure rfl
  split
  · exact .throw place
  split
  · exact .throw taken.start_isPlace
  have startLt := start.size_lt
  have startWithin : start.rest.size ≤ limit := by omega
  by_cases numeric : lexed.token.kind = .number
  case' pos =>
    rw [if_pos numeric, dif_pos numeric]
    refine .of_in fun startIn => mirrors_indexList.andRead fun indices given =>
      mirrors_skipTrivia.andRead fun trimmed _ => ?_
    have indicesLt := indices.size_lt
    have trimmedLt := trimmed.size_lt
    have trimmedWithin : trimmed.rest.size ≤ limit := by omega
    refine (choices trimmedWithin).andRead fun chosen _ => .checkThen
      (fun _ => isPlace_of_addMappings (isPlace_of_indexList startIn given)) fun found _ => ?_
    have chosenLt := chosen.size_lt
    have entryLt : chosen.rest.size < limit := by omega
  case' neg =>
    rw [if_neg numeric, dif_neg numeric]
    refine (choices startWithin).andRead fun chosen _ => ?_
    have chosenLt := chosen.size_lt
    have entryLt : chosen.rest.size < limit := by omega
  -- Either way an entry is read, and a separator follows.
  all_goals
    simp only [pure_bind]
    refine mirrors_skipTrivia.andRead fun trimmed _ => .peekThen fun separator next takenNext => ?_
    have trimmedLt := trimmed.size_lt
    have separatorLe := separator.size_le
    cases kind : separator.token.kind with
    | comma =>
      have shorter : separator.after.size < limit := by omega
      exact .take next ((below.mappings shorter place _ _ _ _).lastly fun _ => rfl)
    | rightBrace => exact .pure rfl
    | endOfText => exact .throw place
    | _ => exact .throw takenNext.start_isPlace

theorem mirrors_rules (found : List ModeRule) (legacy : Legacy) :
    Mirrors source (Part.rules opening found legacy).read cursor
      (Reader.rules opening found legacy cursor) Reading.view := by
  rw [Part.read, Reader.rules]
  refine mirrors_skipTrivia.andRead fun start _ => .peekThen fun lexed read taken => ?_
  dsimp only
  split
  · exact .pure rfl
  have startLt := start.size_lt
  have startWithin : start.rest.size ≤ limit := by omega
  have lexedLe := lexed.size_le
  split
  case' isTrue =>
    refine .take read (mirrors_skipTrivia.andRead fun bare _ => ?_)
    have bareLt := bare.size_lt
    have bareWithin : bare.rest.size ≤ limit := by omega
  case' isFalse =>
    have bareWithin := startWithin
  -- With or without its keyword, a rule is a literal, an arrow and a replacement.
  all_goals
    simp only [pure_bind]
    refine mirrors_quoted.andRead fun matcher _ => mirrors_skipTrivia.andRead fun trimmed _ =>
      .nextThen fun arrow _ takenArrow => ?_
    have matcherLt := matcher.size_lt
    have trimmedLt := trimmed.size_lt
    have arrowLe := arrow.size_le
    split
    · exact .throw takenArrow.start_isPlace
    refine mirrors_skipTrivia.andRead fun trimmed _ => .peekThen fun quote _ _ => ?_
    have againLt := trimmed.size_lt
    have replacementWithin : trimmed.rest.size ≤ limit := by omega
    split
    case' isTrue =>
      refine mirrors_quoted.andRead fun replacement _ => ?_
      have replacementLt := replacement.size_lt
    case' isFalse =>
      refine (choices replacementWithin).andRead fun replacement _ => ?_
      have replacementLt := replacement.size_lt
    all_goals
      refine mirrors_skipTrivia.andRead fun last _ =>
        .peekThen fun separator next takenNext => ?_
      have lastLt := last.size_lt
      have separatorLe := separator.size_le
      cases kind : separator.token.kind with
      | comma =>
        have shorter : separator.after.size < limit := by omega
        exact .take next ((below.rules shorter place _ _).lastly fun _ => rfl)
      | rightBrace => exact .pure rfl
      | endOfText => exact .throw place
      | _ => exact .throw takenNext.start_isPlace

end Lists

/-- Weights that are too large are reported at the brace of the fork. -/
theorem isPlace_of_forkNode {opening : Nat} (place : Cursor.IsPlace source opening)
    {name : Option String} {flags : Flags} {branches : List Branch} {stop : Nat}
    {error : ReadError} (failed : forkNode opening name flags branches stop = .error error) :
    Cursor.IsPlace source error.offset := by
  unfold forkNode at failed
  dsimp only at failed
  split at failed
  · cases failed
    exact place
  · cases failed

section Blocks

variable (below : Mirrored source limit) (within : cursor.size ≤ limit) {opening : Nat}
  (place : Cursor.IsPlace source opening)
include below within place

theorem mirrors_reference (name : Option String) (silent reruns : Bool) :
    Mirrors source (Part.reference opening name silent reruns).read cursor
      (Reader.reference opening name silent reruns cursor) Reading.view := by
  rw [Part.read, Reader.reference]
  refine mirrors_skipBlanks.andRead fun start _ => mirrors_identifier.andRead fun target _ =>
    mirrors_skipTrivia.andRead fun trimmed _ => .peekThen fun colon read _ => ?_
  have startLt := start.size_lt
  have targetLt := target.size_lt
  have trimmedLt := trimmed.size_lt
  split
  · rename_i isColon
    have colonLt := colon.size_lt (by rw [isColon]; decide)
    have shorter : colon.after.size < limit := by omega
    dsimp only
    refine .take read ((below.mappings shorter place _ _ _ _).andRead fun mapped _ => ?_)
    exact (mirrors_closingBrace place).andRead fun close _ => .here (.pure rfl)
  · dsimp only
    rw [pure_bind]
    exact (mirrors_closingBrace place).andRead fun close _ => .here (.pure rfl)

theorem mirrors_mode :
    Mirrors source (Part.mode opening).read cursor (Reader.mode opening cursor) Reading.view := by
  rw [Part.read, Reader.mode]
  refine mirrors_skipTrivia.andRead fun start _ => mirrors_identifier.andRead fun name _ =>
    mirrors_skipTrivia.andRead fun trimmed _ => .nextThen fun colon _ taken => ?_
  have startLt := start.size_lt
  have nameLt := name.size_lt
  have trimmedLt := trimmed.size_lt
  split
  · rename_i isColon
    have colonLt := colon.size_lt (by rw [isColon]; decide)
    have shorter : colon.after.size < limit := by omega
    exact (below.rules shorter place _ _).andRead fun ruled _ =>
      (mirrors_closingBrace place).andRead fun close _ => .here (.pure rfl)
  · exact .throw taken.start_isPlace

theorem mirrors_block
    (entries : ∀ {cursor : Cursor}, cursor.size ≤ limit →
      Mirrors source (Part.entries opening [] .empty).read cursor
        (Reader.entries opening [] .empty cursor) Reading.view) :
    Mirrors source (Part.block opening).read cursor (Reader.block opening cursor) Reading.view := by
  have joined : ∀ {α β : Type} {c : Prop} [Decidable c] (first second : Except ReadError α)
      (goOn : α → Except ReadError β),
      (if c then first >>= goOn else second >>= goOn) = (if c then first else second) >>= goOn := by
    intro α β c _ first second goOn
    split <;> rfl
  rw [Part.read, Reader.block]
  refine mirrors_skipTrivia.andRead fun start _ => mirrors_flags.andRead fun flagged _ =>
    .peekThen fun lexed read _ => ?_
  have startLt := start.size_lt
  have flaggedLt := flagged.size_lt
  refine (mirrors_declares read flagged.value).bind (fun _ failed => by cases failed) ?_
  rintro declared ⟨⟩
  dsimp only
  generalize (!flagged.value.silent && !flagged.value.isSet &&
    Reader.followedByBlank lexed.after) = plain
  by_cases declares : plain = true ∧ (lexed.token.kind = .mode ∨ lexed.token.kind = .use)
  · obtain ⟨rfl, mode | use⟩ := declares
    · have lexedLt := lexed.size_lt (by rw [mode]; decide)
      have shorter : lexed.after.size < limit := by omega
      simp only [mode, decide_true, Bool.true_and, Bool.true_or, if_true]
      exact .take read ((below.mode shorter place).andRead fun declared _ => .pure rfl)
    · simp only [use, reduceCtorEq, decide_false, decide_true, Bool.true_and, Bool.false_or,
        if_true, Bool.false_eq_true, if_false]
      exact .take read (mirrors_skipTrivia.andRead fun trimmed _ =>
        mirrors_identifier.andRead fun name _ =>
          (mirrors_closingBrace place).andRead fun close _ => .pure rfl)
  have undeclared : ¬ (plain && (decide (lexed.token.kind = .mode) ||
      decide (lexed.token.kind = .use))) = true := by simpa using declares
  have notMode : ¬ (plain && decide (lexed.token.kind = .mode)) = true := by
    simp only [Bool.and_eq_true, decide_eq_true_eq]
    rintro ⟨isPlain, mode⟩
    exact declares ⟨isPlain, .inl mode⟩
  have notUse : ¬ (plain && decide (lexed.token.kind = .use)) = true := by
    simp only [Bool.and_eq_true, decide_eq_true_eq]
    rintro ⟨isPlain, use⟩
    exact declares ⟨isPlain, .inr use⟩
  rw [if_neg undeclared, if_neg notMode, if_neg notUse]
  refine (mirrors_label place).andRead fun named _ => mirrors_skipTrivia.andRead fun body _ =>
    .peekThen fun first readFirst takenFirst => ?_
  have namedLt := named.size_lt
  have bodyLt := body.size_lt
  rw [joined]
  refine (mirrors_rerunFollows readFirst).andThen fun reruns _ => ?_
  have firstLe := first.size_le
  cases reruns with
  | true =>
    simp only [if_true]
    refine .take readFirst (mirrors_skipTrivia.andRead fun trimmed _ =>
      .peekThen fun sign readSign takenSign => ?_)
    have trimmedLt := trimmed.size_lt
    by_cases isAt : sign.token.kind = .at
    · have signLt := sign.size_lt (by rw [isAt]; decide)
      have shorter : sign.after.size < limit := by omega
      rw [if_pos isAt, dif_pos isAt]
      split
      · exact .throw takenSign.start_isPlace
      · exact .take readSign ((below.reference shorter place _ _ _).andRead fun reading _ =>
          .pure rfl)
    · rw [if_neg isAt, dif_neg isAt]
      exact .throw takenSign.start_isPlace
  | false =>
    simp only [Bool.false_eq_true, if_false]
    refine .peekAgain readFirst ?_
    by_cases isAt : first.token.kind = .at
    · have firstLt := first.size_lt (by rw [isAt]; decide)
      have shorter : first.after.size < limit := by omega
      rw [if_pos isAt, dif_pos isAt]
      split
      · exact .throw takenFirst.start_isPlace
      · exact .take readFirst ((below.reference shorter place _ _ _).andRead fun reading _ =>
          .pure rfl)
    · have bodyWithin : body.rest.size ≤ limit := by omega
      rw [if_neg isAt, dif_neg isAt]
      exact (entries bodyWithin).andRead fun reading _ => .here (.checkThen
        (fun _ failed => isPlace_of_forkNode place failed) fun node _ => .pure rfl)

end Blocks

/-- Readers of shorter and longer texts mirror each other. -/
theorem mirrored (source : List Char) (limit : Nat) : Mirrored source limit := by
  induction limit with
  | zero =>
    constructor <;> exact fun shorter => absurd shorter (Nat.not_lt_zero _)
  | succ limit below =>
    have choices : ∀ {cursor : Cursor}, cursor.size ≤ limit →
        Mirrors source Part.choice.read cursor (Reader.choice cursor) Reading.view :=
      fun within => mirrors_choice below within
    constructor
    case sequence =>
      exact fun shorter _ place => mirrors_sequence below (Nat.le_of_lt_succ shorter) place
    case block =>
      exact fun shorter _ place => mirrors_block below (Nat.le_of_lt_succ shorter) place
        fun within => mirrors_entries below within choices place [] .empty
    case entries =>
      exact fun shorter _ place => mirrors_entries below (Nat.le_of_lt_succ shorter) choices place
    case reference =>
      exact fun shorter _ place => mirrors_reference below (Nat.le_of_lt_succ shorter) place
    case mappings =>
      exact fun shorter _ place => mirrors_mappings below (Nat.le_of_lt_succ shorter) choices place
    case mode =>
      exact fun shorter _ place => mirrors_mode below (Nat.le_of_lt_succ shorter) place
    case rules =>
      exact fun shorter _ place => mirrors_rules below (Nat.le_of_lt_succ shorter) choices place

/-- From the start of a source a document is read as by the reader of cursors. -/
theorem runs_document (source : List Char) :
    Runs document (.start source) (fun found _ => Document.read source = .ok found)
      (fun error => Document.read source = .error error ∧ Cursor.IsPlace source error.offset) := by
  have outermost : ∀ opening, none = some opening → Cursor.IsPlace source opening := by
    rintro _ ⟨⟩
  have runs := (mirrored source (source.length + 1)).sequence (Nat.lt_succ_self _) outermost 0
    .empty .empty (.start source) (Lexer.at_start source)
  rw [document, runs_bind]
  refine runs.imp ?_ ?_
  · rintro value later ⟨reading, read, rfl, -⟩
    rw [runs_pure, Document.read, read]
    rfl
  · rintro error ⟨failed, place⟩
    rw [Document.read, failed]
    exact ⟨rfl, place⟩

end Indexed

/-- Reading by byte index ends for every source, with all its accesses in bounds: no byte is asked
for past the end, and every slice, jump and way back is between or to character boundaries. It reads
the document that is read by cursors, and an error is reported within the source, at a character
boundary. -/
theorem Document.readIndexed?_in_bounds (source : List Char) :
    Document.readIndexed? source = some (Document.read source) ∧
      ∀ error, Document.read source = .error error →
        error.offset ≤ byteLength source ∧ (Cursor.at? source error.offset).isSome = true := by
  have runs := Indexed.runs_document source
  unfold Indexed.Runs at runs
  unfold Document.readIndexed?
  split at runs
  · rename_i found later ended
    rw [ended, runs]
    refine ⟨rfl, ?_⟩
    rintro error ⟨⟩
  · rename_i error ended
    obtain ⟨failed, place, isIn, same⟩ := runs
    rw [ended, failed]
    refine ⟨rfl, ?_⟩
    rintro _ ⟨⟩
    rw [← same, isIn.at?]
    exact ⟨isIn.offset_le, rfl⟩
  · exact runs.elim

/-- A backslash takes the first byte of a character along, and the string that it stands in is
reported where it opens. -/
theorem Document.readIndexed?_in_bounds_string :
    Document.readIndexed? ['é', '{', '[', '\x27', '\\', 'é', ']'] =
        some (.error (.unclosedScript 4 .string)) ∧
      4 ≤ byteLength ['é', '{', '[', '\x27', '\\', 'é', ']'] ∧
      (Cursor.at? ['é', '{', '[', '\x27', '\\', 'é', ']'] 4).isSome = true := by
  have failed : Document.read ['é', '{', '[', '\x27', '\\', 'é', ']'] =
      .error (.unclosedScript 4 .string) := by
    with_unfolding_all exact rfl
  have bounds := Document.readIndexed?_in_bounds ['é', '{', '[', '\x27', '\\', 'é', ']']
  rw [failed] at bounds
  exact ⟨bounds.1, bounds.2 _ rfl⟩

end BranchText
