import BranchText.Proofs.LineBreaks.Pieces

/-!
# Documents with either line break

The grammar follows its pieces: what is read at a place is read at its twin, up to line breaks. So
a source can be read exactly if the source with carriage returns can be, as the same document, but
for sources in which a string, a regex literal or a quoted literal has an escaped line break. With
carriage returns such a literal does not end, and that is all that can go wrong.
-/

namespace BranchText

/-- What was read is alike, and the declarations that were met on the way are. -/
def WithLegacy {α β : Type} (alike : α → β → Prop) (found : α × Legacy) (other : β × Legacy) :
    Prop :=
  alike found.1 other.1 ∧ found.2.Respelled other.2

namespace Reader

variable {source : List Char} {cursor other : Cursor} {limit : Nat}

/-- On texts shorter than a limit, what is read does not depend on how line breaks are spelled. -/
structure ReadsAlike (source : List Char) (limit : Nat) : Prop where
  sequence {cursor other : Cursor} (shorter : cursor.size < limit)
    (twins : Twins source cursor other) {enclosing place : Option Nat}
    (same : place.isSome = enclosing.isSome) (depth : Nat) {passage further : Passage}
    (respelled : passage.Respelled further) {legacy more : Legacy}
    (declared : legacy.Respelled more) :
    Agree (CutShort source) (Reading.Twin source (WithLegacy (List.Forall₂ Node.Respelled)))
      (sequence enclosing depth passage legacy cursor) (sequence place depth further more other)
  block {cursor other : Cursor} (shorter : cursor.size < limit)
    (twins : Twins source cursor other) (opening place : Nat) :
    Agree (CutShort source) (Reading.Twin source (WithLegacy (Option.Rel Node.Respelled)))
      (block opening cursor) (block place other)
  entries {cursor other : Cursor} (shorter : cursor.size < limit)
    (twins : Twins source cursor other) (opening place : Nat) {branches others : List Branch}
    (respelled : List.Forall₂ Branch.Respelled branches others) {legacy more : Legacy}
    (declared : legacy.Respelled more) :
    Agree (CutShort source) (Reading.Twin source (WithLegacy (List.Forall₂ Branch.Respelled)))
      (entries opening branches legacy cursor) (entries place others more other)
  reference {cursor other : Cursor} (shorter : cursor.size < limit)
    (twins : Twins source cursor other) (opening place : Nat) (name : Option String)
    (silent reruns : Bool) :
    Agree (CutShort source)
      (Reading.Twin source (WithLegacy fun reference found =>
        Node.Respelled (.reference reference) (.reference found)))
      (reference opening name silent reruns cursor) (reference place name silent reruns other)
  mappings {cursor other : Cursor} (shorter : cursor.size < limit)
    (twins : Twins source cursor other) (opening place : Nat) (first : Bool)
    {mappings others : List Mapping} (respelled : List.Forall₂ Mapping.Respelled mappings others)
    {fallback further : Option Choice} (fallen : Option.Rel Choice.Respelled fallback further)
    {legacy more : Legacy} (declared : legacy.Respelled more) :
    Agree (CutShort source)
      (Reading.Twin source fun found other => List.Forall₂ Mapping.Respelled found.1 other.1 ∧
        WithLegacy (Option.Rel Choice.Respelled) found.2 other.2)
      (Reader.mappings opening first mappings fallback legacy cursor)
      (Reader.mappings place first others further more other)
  mode {cursor other : Cursor} (shorter : cursor.size < limit)
    (twins : Twins source cursor other) (opening place : Nat) :
    Agree (CutShort source) (Reading.Twin source Legacy.Respelled) (mode opening cursor)
      (mode place other)
  rules {cursor other : Cursor} (shorter : cursor.size < limit)
    (twins : Twins source cursor other) (opening place : Nat) {found others : List ModeRule}
    (respelled : List.Forall₂ ModeRule.Respelled found others) {legacy more : Legacy}
    (declared : legacy.Respelled more) :
    Agree (CutShort source) (Reading.Twin source (WithLegacy (List.Forall₂ ModeRule.Respelled)))
      (rules opening found legacy cursor) (rules place others more other)

section Steps

variable (below : ReadsAlike source limit) (within : cursor.size ≤ limit) (plain : '\r' ∉ source)
  (twins : Twins source cursor other)
include below within plain twins

theorem agree_sequence {enclosing place : Option Nat} (same : place.isSome = enclosing.isSome)
    (depth : Nat) {passage further : Passage} (respelled : passage.Respelled further)
    {legacy more : Legacy} (declared : legacy.Respelled more) :
    Agree (CutShort source) (Reading.Twin source (WithLegacy (List.Forall₂ Node.Respelled)))
      (sequence enclosing depth passage legacy cursor)
      (sequence place depth further more other) := by
  rw [sequence, sequence]
  refine (agree_next plain twins).bind fun lexed found twin => ?_
  dsimp only
  refine .dite (by rw [twin.kind]) (fun atEnd _ => ?_) fun atEnd _ => ?_
  · have closed : Agree (CutShort source) Eq (allClosed enclosing) (allClosed place) := by
      cases enclosing <;> cases place <;> first | exact .errors | exact .values rfl | cases same
    exact closed.bind fun _ _ _ => .values ⟨⟨respelled.close, declared⟩, twin.after⟩
  · have shorter : lexed.after.size < limit := Nat.lt_of_lt_of_le (lexed.size_lt atEnd) within
    have text := respelled.append twin.content
    rw [twin.kind, same]
    cases kind : lexed.token.kind with
    | endOfText => exact absurd kind atEnd
    | rightParen =>
      cases isSome : enclosing.isSome with
      | false =>
        exact (below.sequence shorter twin.after same depth text declared).bind
          fun _ _ alike => .values ⟨alike.value, alike.rest⟩
      | true =>
        cases depth with
        | zero => exact .values ⟨⟨respelled.close, declared⟩, twin.after⟩
        | succ depth =>
          exact (below.sequence shorter twin.after same depth (respelled.append (.refl _))
            declared).bind fun _ _ alike => .values ⟨alike.value, alike.rest⟩
    | leftParen =>
      cases isSome : enclosing.isSome with
      | false =>
        exact (below.sequence shorter twin.after same depth text declared).bind
          fun _ _ alike => .values ⟨alike.value, alike.rest⟩
      | true =>
        exact (below.sequence shorter twin.after same (depth + 1) (respelled.append (.refl _))
          declared).bind fun _ _ alike => .values ⟨alike.value, alike.rest⟩
    | leftBrace =>
      refine (below.block shorter twin.after _ _).bind fun inner found alike => ?_
      have innerLt := inner.size_lt
      have innerShorter : inner.rest.size < limit := by omega
      exact (below.sequence innerShorter alike.rest same depth (respelled.addBlock alike.value.1)
        (declared.append alike.value.2)).bind fun _ _ alike => .values ⟨alike.value, alike.rest⟩
    | doubleLeftBracket =>
      refine (agree_verbatim twin.after _ _).bind fun inner found alike => ?_
      have innerLt := inner.size_lt
      have innerShorter : inner.rest.size < limit := by omega
      exact (below.sequence innerShorter alike.rest same depth (respelled.append alike.value)
        declared).bind fun _ _ alike => .values ⟨alike.value, alike.rest⟩
    | rightBrace => exact .errors
    | _ =>
      exact (below.sequence shorter twin.after same depth text declared).bind
        fun _ _ alike => .values ⟨alike.value, alike.rest⟩

theorem agree_choice :
    Agree (CutShort source) (Reading.Twin source (WithLegacy Choice.Respelled)) (choice cursor)
      (choice other) := by
  rw [choice, choice]
  refine (agree_next plain twins).bind fun lexed found twin => ?_
  refine .dite (by rw [twin.kind]) (fun _ _ => .errors) fun atEnd _ => ?_
  have shorter : lexed.after.size < limit := Nat.lt_of_lt_of_le (lexed.size_lt atEnd) within
  have blank := followedByBlank_of_twins plain twin.after
  dsimp only
  rw [twin.kind, blank]
  cases kind : lexed.token.kind with
  | endOfText => exact absurd kind atEnd
  | leftParen =>
    have same : (some found.token.start).isSome = (some lexed.token.start).isSome := rfl
    exact (below.sequence shorter twin.after same 0 .empty .empty).bind
      fun _ _ alike => .values ⟨⟨.nodes alike.value.1, alike.value.2⟩, alike.rest⟩
  | leftBracket =>
    exact (agree_script twin.after _ _).bind
      fun _ _ alike => .values ⟨⟨alike.value, .empty⟩, alike.rest⟩
  | doubleLeftBracket =>
    exact (agree_script (twin.bracket kind) _ _).bind
      fun _ _ alike => .values ⟨⟨alike.value, .empty⟩, alike.rest⟩
  | leftBrace =>
    refine (below.block shorter twin.after _ _).bind fun reading tail alike => ?_
    obtain ⟨⟨node, legacy⟩, rest, le⟩ := reading
    obtain ⟨⟨further, more⟩, behind, less⟩ := tail
    obtain ⟨⟨same, declared⟩, twins⟩ := alike
    cases same with
    | none => exact .errors
    | some same => exact .values ⟨⟨.nodes (.cons same .nil), declared⟩, twins⟩
  | call =>
    refine .ite Iff.rfl (fun _ => ?_) fun _ => .errors
    refine (agree_skipBlanks plain twin.after).bind fun trimmed clear alike => ?_
    refine (agree_identifier plain alike.rest).bind fun name called same => ?_
    refine .values ⟨⟨?_, .empty⟩, same.rest⟩
    rw [same.value]
    exact .call
  | _ => exact .errors

theorem agree_entries (opening place : Nat) {branches others : List Branch}
    (respelled : List.Forall₂ Branch.Respelled branches others) {legacy more : Legacy}
    (declared : legacy.Respelled more) :
    Agree (CutShort source) (Reading.Twin source (WithLegacy (List.Forall₂ Branch.Respelled)))
      (entries opening branches legacy cursor) (entries place others more other) := by
  have empty : others.isEmpty = branches.isEmpty := by cases respelled <;> rfl
  rw [entries, entries]
  refine (agree_skipTrivia plain twins).bind fun start clear alike => ?_
  refine (agree_next plain alike.rest).bind fun first found twin => ?_
  dsimp only
  rw [twin.kind, empty]
  refine .ite Iff.rfl (fun _ => .values ⟨⟨List.rel_reverse respelled, declared⟩, twin.after⟩)
    fun _ => .ite Iff.rfl (fun _ => .errors) fun _ => ?_
  have startLt := start.size_lt
  have startWithin : start.rest.size ≤ limit := by omega
  refine (agree_choice below startWithin plain alike.rest).bind fun chosen taken same => ?_
  refine (agree_weight plain same.rest).bind fun weighted found weights => ?_
  refine (agree_skipTrivia plain weights.rest).bind fun trimmed clear alike => ?_
  refine (agree_next plain alike.rest).bind fun separator found twin => ?_
  have entry : List.Forall₂ Branch.Respelled
      (⟨chosen.value.1, weighted.value⟩ :: branches) (⟨taken.value.1, weighted.value⟩ :: others) :=
    .cons (.of same.value.1) respelled
  have legacies := declared.append same.value.2
  rw [← weights.value, twin.kind]
  cases kind : separator.token.kind with
  | comma =>
    have chosenLt := chosen.size_lt
    have weightedLt := weighted.size_lt
    have trimmedLt := trimmed.size_lt
    have separatorLe := separator.size_le
    have shorter : separator.after.size < limit := by omega
    exact (below.entries shorter twin.after _ _ entry legacies).bind
      fun _ _ alike => .values ⟨alike.value, alike.rest⟩
  | rightBrace => exact .values ⟨⟨List.rel_reverse entry, legacies⟩, twin.after⟩
  | _ => exact .errors

theorem agree_reference (opening place : Nat) (name : Option String) (silent reruns : Bool) :
    Agree (CutShort source)
      (Reading.Twin source (WithLegacy fun reference found =>
        Node.Respelled (.reference reference) (.reference found)))
      (reference opening name silent reruns cursor) (reference place name silent reruns other) := by
  rw [reference, reference]
  refine (agree_skipBlanks plain twins).bind fun start clear alike => ?_
  refine (agree_identifier plain alike.rest).bind fun target called same => ?_
  refine (agree_skipTrivia plain same.rest).bind fun trimmed clear alike => ?_
  refine (agree_next plain alike.rest).bind fun colon found twin => ?_
  have startLt := start.size_lt
  have targetLt := target.size_lt
  have trimmedLt := trimmed.size_lt
  rw [← same.value]
  refine .ite (by rw [twin.kind]) (fun isColon => ?_) fun _ => ?_
  · have colonLt := colon.size_lt (by rw [isColon]; decide)
    have shorter : colon.after.size < limit := by omega
    refine (below.mappings shorter twin.after _ _ true .nil .none .empty).bind
      fun mapped given entries => ?_
    refine (agree_closingBrace plain entries.rest _ _).bind fun close closed alike => ?_
    exact .values ⟨⟨.reference entries.value.1 entries.value.2.1, entries.value.2.2⟩, alike.rest⟩
  · refine (agree_closingBrace plain alike.rest _ _).bind fun close closed alike => ?_
    exact .values ⟨⟨.reference .nil .none, .empty⟩, alike.rest⟩

theorem agree_mappings (opening place : Nat) (first : Bool) {mappings others : List Mapping}
    (respelled : List.Forall₂ Mapping.Respelled mappings others)
    {fallback further : Option Choice} (fallen : Option.Rel Choice.Respelled fallback further)
    {legacy more : Legacy} (declared : legacy.Respelled more) :
    Agree (CutShort source)
      (Reading.Twin source fun found other => List.Forall₂ Mapping.Respelled found.1 other.1 ∧
        WithLegacy (Option.Rel Choice.Respelled) found.2 other.2)
      (Reader.mappings opening first mappings fallback legacy cursor)
      (Reader.mappings place first others further more other) := by
  have isSome : further.isSome = fallback.isSome := by cases fallen <;> rfl
  rw [Reader.mappings, Reader.mappings]
  refine (agree_skipTrivia plain twins).bind fun start clear alike => ?_
  refine (agree_next plain alike.rest).bind fun lexed found twin => ?_
  have startLt := start.size_lt
  have startWithin : start.rest.size ≤ limit := by omega
  dsimp only
  rw [isSome]
  refine .ite (by rw [twin.kind]) (fun _ => ?_) fun _ => ?_
  · refine .ite Iff.rfl (fun _ => .errors) fun _ => ?_
    exact .values ⟨⟨respelled, fallen, declared⟩, alike.rest⟩
  refine .ite (by rw [twin.kind]) (fun _ => .errors) fun _ => ?_
  refine .ite Iff.rfl (fun _ => .errors) fun _ => ?_
  -- Mapped and unmapped choices are followed by the same.
  apply Agree.dite (by rw [twin.kind])
  case' yes =>
    intro numeric _
    refine (agree_indexList plain alike.rest).bind fun indices numbers indexed => ?_
    refine (agree_skipTrivia plain indexed.rest).bind fun trimmed clear alike => ?_
    have indicesLt := indices.size_lt
    have trimmedLt := trimmed.size_lt
    have choiceWithin : trimmed.rest.size ≤ limit := by omega
    refine (agree_choice below choiceWithin plain alike.rest).bind fun chosen taken same => ?_
    have chosenLt := chosen.size_lt
    refine (agree_addMappings same.value.1 indexed.value respelled).bind fun _ _ entries => ?_
    have fallen : Option.Rel Choice.Respelled none none := .none
  case' no =>
    intro _ _
    refine (agree_choice below startWithin plain alike.rest).bind fun chosen taken same => ?_
    have chosenLt := chosen.size_lt
    have entries := respelled
    have fallen := Option.Rel.some same.value.1
  all_goals
    simp only [pure_bind]
    have legacies := declared.append same.value.2
    refine (agree_skipTrivia plain same.rest).bind fun last clear alike => ?_
    refine (agree_next plain alike.rest).bind fun separator found twin => ?_
    rw [twin.kind]
    cases kind : separator.token.kind with
    | comma =>
      have lastLt := last.size_lt
      have separatorLe := separator.size_le
      have shorter : separator.after.size < limit := by omega
      exact (below.mappings shorter twin.after _ _ false entries fallen legacies).bind
        fun _ _ alike => .values ⟨alike.value, alike.rest⟩
    | rightBrace => exact .values ⟨⟨entries, fallen, legacies⟩, alike.rest⟩
    | _ => exact .errors

theorem agree_mode (opening place : Nat) :
    Agree (CutShort source) (Reading.Twin source Legacy.Respelled) (mode opening cursor)
      (mode place other) := by
  rw [mode, mode]
  refine (agree_skipTrivia plain twins).bind fun start clear alike => ?_
  refine (agree_identifier plain alike.rest).bind fun name called same => ?_
  refine (agree_skipTrivia plain same.rest).bind fun trimmed clear alike => ?_
  refine (agree_next plain alike.rest).bind fun colon found twin => ?_
  have startLt := start.size_lt
  have nameLt := name.size_lt
  have trimmedLt := trimmed.size_lt
  refine .ite (by rw [twin.kind]) (fun isColon => ?_) fun _ => .errors
  have colonLt := colon.size_lt (by rw [isColon]; decide)
  have shorter : colon.after.size < limit := by omega
  refine (below.rules shorter twin.after _ _ .nil .empty).bind fun ruled given rules => ?_
  refine (agree_closingBrace plain rules.rest _ _).bind fun close closed alike => ?_
  have mode : Legacy.Respelled ⟨[⟨name.value, ruled.value.1, ⟨opening, close.rest.offset⟩⟩], []⟩
      ⟨[⟨called.value, given.value.1, ⟨place, closed.rest.offset⟩⟩], []⟩ :=
    ⟨.cons ⟨same.value.symm, rules.value.1⟩ .nil, rfl⟩
  exact .values ⟨rules.value.2.append mode, alike.rest⟩

theorem agree_rules (opening place : Nat) {found others : List ModeRule}
    (respelled : List.Forall₂ ModeRule.Respelled found others) {legacy more : Legacy}
    (declared : legacy.Respelled more) :
    Agree (CutShort source) (Reading.Twin source (WithLegacy (List.Forall₂ ModeRule.Respelled)))
      (rules opening found legacy cursor) (rules place others more other) := by
  rw [rules, rules]
  refine (agree_skipTrivia plain twins).bind fun start clear alike => ?_
  refine (agree_next plain alike.rest).bind fun lexed found twin => ?_
  have startLt := start.size_lt
  dsimp only
  refine .ite (by rw [twin.kind]) (fun _ => ?_) fun _ => ?_
  · exact .values ⟨⟨List.rel_reverse respelled, declared⟩, alike.rest⟩
  -- A rule may start with a word that means nothing.
  apply Agree.ite (by rw [twin.kind])
  case' yes =>
    intro _
    refine (agree_skipTrivia plain twin.after).bind fun bare clear alike => ?_
    have bareLe := lexed.size_le
    have bareLt := bare.size_lt
    have bareWithin : bare.rest.size ≤ limit := by omega
  case' no =>
    intro _
    have bareWithin : start.rest.size ≤ limit := by omega
  all_goals
    simp only [pure_bind]
    refine (agree_quoted plain alike.rest).bind fun matcher text matched => ?_
    refine (agree_skipTrivia plain matched.rest).bind fun front clear alike => ?_
    refine (agree_next plain alike.rest).bind fun arrow sign twin => ?_
    refine .ite (by rw [twin.kind]) (fun _ => .errors) fun _ => ?_
    refine (agree_skipTrivia plain twin.after).bind fun again clear alike => ?_
    refine (agree_next plain alike.rest).bind fun quote found twin => ?_
    have matcherLt := matcher.size_lt
    have frontLt := front.size_lt
    have arrowLe := arrow.size_le
    have againLt := again.size_lt
    apply Agree.ite (by rw [twin.kind])
    case' yes =>
      intro _
      refine (agree_quoted plain alike.rest).bind fun chosen taken same => ?_
      have chosenLt := chosen.size_lt
      have rule : ModeRule.Respelled ⟨matcher.value, .nodes [.text chosen.value]⟩
        ⟨text.value, .nodes [.text taken.value]⟩ :=
        ⟨matched.value, .nodes (.cons (.text same.value) .nil)⟩
      have legacies := declared.append .empty
    case' no =>
      intro _
      have againWithin : again.rest.size ≤ limit := by omega
      refine (agree_choice below againWithin plain alike.rest).bind fun chosen taken same => ?_
      have chosenLt := chosen.size_lt
      have rule : ModeRule.Respelled ⟨matcher.value, chosen.value.1⟩
        ⟨text.value, taken.value.1⟩ := ⟨matched.value, same.value.1⟩
      have legacies := declared.append same.value.2
    all_goals
      have extended := List.Forall₂.cons rule respelled
      refine (agree_skipTrivia plain same.rest).bind fun last clear alike => ?_
      refine (agree_next plain alike.rest).bind fun separator found twin => ?_
      rw [twin.kind]
      cases kind : separator.token.kind with
      | comma =>
        have lastLt := last.size_lt
        have separatorLe := separator.size_le
        have shorter : separator.after.size < limit := by omega
        exact (below.rules shorter twin.after _ _ extended legacies).bind
          fun _ _ alike => .values ⟨alike.value, alike.rest⟩
      | rightBrace => exact .values ⟨⟨List.rel_reverse extended, legacies⟩, alike.rest⟩
      | _ => exact .errors

theorem agree_block (opening place : Nat) :
    Agree (CutShort source) (Reading.Twin source (WithLegacy (Option.Rel Node.Respelled)))
      (block opening cursor) (block place other) := by
  rw [block, block]
  refine (agree_skipTrivia plain twins).bind fun start clear alike => ?_
  refine (agree_flags plain alike.rest).bind fun flagged marked flags => ?_
  refine (agree_next plain flags.rest).bind fun lexed found twin => ?_
  have blank := followedByBlank_of_twins plain twin.after
  have startLt := start.size_lt
  have flaggedLt := flagged.size_lt
  have lexedLe := lexed.size_le
  dsimp only
  rw [← flags.value, twin.kind, blank]
  refine .ite Iff.rfl (fun declares => ?_) fun _ => ?_
  · simp only [Bool.and_eq_true, decide_eq_true_eq] at declares
    have lexedLt := lexed.size_lt (by rw [declares.2]; decide)
    have shorter : lexed.after.size < limit := by omega
    exact (below.mode shorter twin.after _ _).bind
      fun _ _ alike => .values ⟨⟨.none, alike.value⟩, alike.rest⟩
  refine .ite Iff.rfl (fun _ => ?_) fun _ => ?_
  · refine (agree_skipTrivia plain twin.after).bind fun trimmed clear alike => ?_
    refine (agree_identifier plain alike.rest).bind fun name called same => ?_
    refine (agree_closingBrace plain same.rest _ _).bind fun close closed alike => ?_
    exact .values ⟨⟨.none, .nil, by rw [same.value]⟩, alike.rest⟩
  refine (agree_label plain flags.rest _ _).bind fun named called names => ?_
  refine (agree_skipTrivia plain names.rest).bind fun body clear alike => ?_
  refine (agree_next plain alike.rest).bind fun first found twin => ?_
  have namedLt := named.size_lt
  have bodyLt := body.size_lt
  have firstLe := first.size_le
  rw [← names.value]
  -- A word in front of the sign has the target of the reference executed again.
  refine .either (by rw [twin.kind]) (fun _ => agree_referenceFollows plain twin.after)
    (fun _ => .values rfl) ?_
  rintro reruns _ rfl
  refine .ite Iff.rfl (fun _ => ?_) fun _ => ?_
  · refine (agree_skipTrivia plain twin.after).bind fun trimmed clear alike => ?_
    refine (agree_next plain alike.rest).bind fun sign found twin => ?_
    have trimmedLt := trimmed.size_lt
    refine .dite (by rw [twin.kind]) (fun isAt _ => ?_) fun _ _ => .errors
    have signLt := sign.size_lt (by rw [isAt]; decide)
    have shorter : sign.after.size < limit := by omega
    refine .ite Iff.rfl (fun _ => .errors) fun _ => ?_
    exact (below.reference shorter twin.after _ _ _ _ _).bind
      fun _ _ alike => .values ⟨⟨.some alike.value.1, alike.value.2⟩, alike.rest⟩
  refine .dite (by rw [twin.kind]) (fun isAt _ => ?_) fun _ _ => ?_
  · have firstLt := first.size_lt (by rw [isAt]; decide)
    have shorter : first.after.size < limit := by omega
    refine .ite Iff.rfl (fun _ => .errors) fun _ => ?_
    exact (below.reference shorter twin.after _ _ _ _ _).bind
      fun _ _ alike => .values ⟨⟨.some alike.value.1, alike.value.2⟩, alike.rest⟩
  · have bodyWithin : body.rest.size ≤ limit := by omega
    refine (agree_entries below bodyWithin plain alike.rest _ _ .nil .empty).bind
      fun reading tail entries => ?_
    refine (agree_forkNode _ _ _ _ _ _ entries.value.1).bind fun _ _ node => ?_
    exact .values ⟨⟨.some node, entries.value.2⟩, entries.rest⟩

end Steps

/-- Texts of every length are read alike. -/
theorem readsAlike (plain : '\r' ∉ source) (limit : Nat) : ReadsAlike source limit := by
  induction limit with
  | zero => constructor <;> exact fun shorter => absurd shorter (Nat.not_lt_zero _)
  | succ limit below =>
    constructor
    case sequence =>
      exact fun shorter twins => agree_sequence below (Nat.le_of_lt_succ shorter) plain twins
    case block =>
      exact fun shorter twins => agree_block below (Nat.le_of_lt_succ shorter) plain twins
    case entries =>
      exact fun shorter twins => agree_entries below (Nat.le_of_lt_succ shorter) plain twins
    case reference =>
      exact fun shorter twins => agree_reference below (Nat.le_of_lt_succ shorter) plain twins
    case mappings =>
      exact fun shorter twins => agree_mappings below (Nat.le_of_lt_succ shorter) plain twins
    case mode =>
      exact fun shorter twins => agree_mode below (Nat.le_of_lt_succ shorter) plain twins
    case rules =>
      exact fun shorter twins => agree_rules below (Nat.le_of_lt_succ shorter) plain twins

end Reader

namespace Document

variable {source : List Char}

theorem agree_read (plain : '\r' ∉ source) :
    Agree (CutShort source) Document.Respelled (read source) (read (withReturns source)) := by
  have shorter : (Cursor.start source).size < source.length + 1 := Nat.lt_succ_self _
  have same : (none : Option Nat).isSome = (none : Option Nat).isSome := rfl
  have whole := (Reader.readsAlike plain (source.length + 1)).sequence shorter
    (twins_start source) same 0 .empty .empty
  unfold read
  refine whole.elim (fun reading found alike => ?_) (fun _ _ => .errors)
    fun _ _ reason => .cut reason
  exact .values ⟨alike.value.1, alike.value.2.modes, alike.value.2.switches⟩

/-- Whether lines end in line feeds or in carriage returns and line feeds, the same document is
read. A source that can be read may fail to be with carriage returns, but only because of an escaped
line break in a string, a regex literal or a quoted literal, which is reported not to end. -/
theorem read_withReturns (plain : '\r' ∉ source) :
    (∀ other, read (withReturns source) = .ok other →
      ∃ document, read source = .ok document ∧ document.Respelled other) ∧
    ∀ document, read source = .ok document →
      (∃ other, read (withReturns source) = .ok other ∧ document.Respelled other) ∨
        ∃ error, read (withReturns source) = .error error ∧ CutShort source error := by
  have agree := agree_read plain
  constructor
  · intro other there
    rw [there] at agree
    generalize read source = outcome at agree ⊢
    cases agree with
    | values same => exact ⟨_, rfl, same⟩
  · intro document here
    rw [here] at agree
    generalize read (withReturns source) = outcome at agree ⊢
    cases agree with
    | values same => exact .inl ⟨_, rfl, same⟩
    | cut reason => exact .inr ⟨_, rfl, reason⟩

/-- A line break in a text, one in a script and one between the entries of a fork. -/
def manyLines : List Char := "a\n\x7b[p\nq],\n(r)\x7d".toList

theorem read_withReturns_manyLines : '\r' ∉ manyLines ∧ ∃ document,
    read manyLines = .ok document ∧ ∃ other, read (withReturns manyLines) = .ok other ∧
      document.Respelled other := by
  have plain : '\r' ∉ manyLines := by decide
  have there : read (withReturns manyLines) = .ok ⟨[.text "a\r\n",
      .fork ⟨none, false, false, [⟨.script ⟨"p\r\nq", ⟨4, 10⟩⟩, none⟩,
        ⟨.nodes [.text "r"], none⟩], ⟨3, 17⟩⟩], [], []⟩ := by
    with_unfolding_all exact rfl
  obtain ⟨document, here, same⟩ := (read_withReturns plain).1 _ there
  exact ⟨plain, document, here, _, there, same⟩

/-- A string with an escaped line break. -/
def escapedLineBreak : List Char := "\x7b[\x22a\\\nb\x22]\x7d".toList

/-- Such a string ends if the line ends in a line feed only. -/
theorem not_read_withReturns_escapedLineBreak : '\r' ∉ escapedLineBreak ∧
    read escapedLineBreak = .ok ⟨[.fork ⟨none, false, false,
      [⟨.script ⟨"\x22a\\\nb\x22", ⟨1, 9⟩⟩, none⟩], ⟨0, 10⟩⟩], [], []⟩ ∧
    read (withReturns escapedLineBreak) = .error (.unclosedScript 2 .string) := by
  refine ⟨by decide, ?_, ?_⟩
  · with_unfolding_all exact rfl
  · with_unfolding_all exact rfl

end Document

end BranchText
