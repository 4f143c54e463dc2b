import BranchText.Proofs.Reading.Yields

/-!
# Where documents are written

Relations between the parts of a document and the places of a source that they are written between.
There is one relation for each part of the grammar that nests, with a constructor for each way to
go on: a passage and the entries of a fork grow at their end, the mappings of a reference list by
list, and a block is written from its opening brace to its closing one.

Whatever is read is so written (`Document.isWritten_of_read`), which is all that later modules need
to know of the readers.
-/

namespace BranchText

/-- The text stands in the source at the offset. -/
def StandsAt (source : List Char) (offset : Nat) (text : List Char) : Prop :=
  ∃ rest, Cursor.In ⟨offset, text ++ rest⟩ source

/-- A brace closes just before `stop` what ends at `last`. -/
def IsClosed (source : List Char) (last stop : Nat) : Prop :=
  ∃ close, last ≤ close ∧ StandsAt source close ['}'] ∧ stop = close + 1

/-- The weight that is written between two places: none, if no number starts at the second, or
what a number stands for. -/
inductive IsWeight (source : List Char) : Option Decimal → Nat → Nat → Prop where
  | none {first last : Nat} (order : first ≤ last)
      (missing : ∀ c, StandsAt source last [c] → Decimal.isDigit c = false) :
      IsWeight source none first last
  | written {digits : List Char} {first place last : Nat} (number : IsRun .number digits)
      (stands : StandsAt source place digits) (behind : first ≤ place)
      (before : place + byteLength digits ≤ last) :
      IsWeight source (some (Decimal.ofChars digits)) first last

mutual

/-- A passage of nodes and text is written between two places. -/
inductive IsPassage (source : List Char) : Passage → Nat → Nat → Prop where
  | empty {first last : Nat} (order : first ≤ last) : IsPassage source .empty first last
  | text {passage : Passage} {first middle last : Nat}
      (before : IsPassage source passage first middle) (content : String)
      (order : middle ≤ last) : IsPassage source (passage.append content) first last
  /-- A block that makes no node. -/
  | nothing {passage : Passage} {first middle last : Nat}
      (before : IsPassage source passage first middle) (order : middle ≤ last) :
      IsPassage source (passage.addBlock none) first last
  | node {passage : Passage} {node : Node} {first middle start stop last : Nat}
      (before : IsPassage source passage first middle) (behind : middle ≤ start)
      (here : IsNode source node start stop) (order : stop ≤ last) :
      IsPassage source (passage.addBlock (some node)) first last

/-- The entries of a fork, last first, are written between two places. -/
inductive AreEntries (source : List Char) : List Branch → Nat → Nat → Prop where
  | none {first last : Nat} (order : first ≤ last) : AreEntries source [] first last
  | entry {branches : List Branch} {choice : Choice} {weight : Option Decimal}
      {first middle start stop place last : Nat}
      (before : AreEntries source branches first middle) (behind : middle ≤ start)
      (chosen : IsChoice source choice start stop) (weighed : IsWeight source weight stop place)
      (order : place ≤ last) : AreEntries source (⟨choice, weight⟩ :: branches) first last

/-- The mappings and the fallback of a reference are written between two places. All indices of a
list are mapped to the one choice that is written behind it. -/
inductive AreMapped (source : List Char) : List Mapping → Option Choice → Nat → Nat → Prop where
  | none {first last : Nat} (order : first ≤ last) : AreMapped source [] none first last
  | mapped {found mapped : List Mapping} {choice : Choice} {indices : List (Nat × Nat)}
      {first middle start stop last : Nat} (before : AreMapped source found none first middle)
      (behind : middle ≤ start) (chosen : IsChoice source choice start stop)
      (added : Reader.addMappings choice indices found = .ok mapped) (order : stop ≤ last) :
      AreMapped source mapped none first last
  | fallback {found : List Mapping} {choice : Choice} {first middle start stop last : Nat}
      (before : AreMapped source found none first middle) (behind : middle ≤ start)
      (chosen : IsChoice source choice start stop) (order : stop ≤ last) :
      AreMapped source found (some choice) first last

/-- A fork or a reference is written from its opening brace to its closing one. -/
inductive IsNode (source : List Char) : Node → Nat → Nat → Prop where
  | fork {identifier : Option String} {silent isSet : Bool} {branches : List Branch}
      {start first last stop : Nat} (opens : StandsAt source start ['{']) (inside : start < first)
      (entries : AreEntries source branches first last) (filled : branches ≠ [])
      (closes : IsClosed source last stop) :
      IsNode source (.fork ⟨identifier, silent, isSet, branches.reverse, ⟨start, stop⟩⟩) start stop
  | reference {target : String} {identifier : Option String} {silent reruns : Bool}
      {mappings : List Mapping} {fallback : Option Choice} {start first last stop : Nat}
      (opens : StandsAt source start ['{']) (inside : start < first)
      (mapped : AreMapped source mappings fallback first last)
      (closes : IsClosed source last stop) :
      IsNode source
        (.reference ⟨target, identifier, silent, mappings, fallback, reruns, ⟨start, stop⟩⟩)
        start stop

/-- A choice is written between two places. A script block is written out there with its
brackets. -/
inductive IsChoice (source : List Char) : Choice → Nat → Nat → Prop where
  | nodes {passage : Passage} {start first stop : Nat} (inside : start ≤ first)
      (read : IsPassage source passage first stop) :
      IsChoice source (.nodes passage.close) start stop
  | script {text : List Char} {first start stop : Nat} (behind : first ≤ start)
      (stands : StandsAt source start ('[' :: text ++ [']']))
      (measured : stop = start + byteLength ('[' :: text ++ [']'])) :
      IsChoice source (.script ⟨String.ofList text, ⟨start, stop⟩⟩) first stop
  | call {name : String} {first start stop : Nat} (behind : first ≤ start) (filled : start < stop) :
      IsChoice source (.call ⟨name, ⟨start, stop⟩⟩) first stop

end

/-- The replacement of a rule is a literal, or a choice that is written between two places. -/
def IsRule (source : List Char) (first last : Nat) (rule : ModeRule) : Prop :=
  (∃ content, rule.replacement = .nodes [.text content]) ∨
    ∃ start stop, first ≤ start ∧ IsChoice source rule.replacement start stop ∧ stop ≤ last

/-- A mode declaration is written from its opening brace to its closing one. -/
def IsMode (source : List Char) (mode : ModeDeclaration) : Prop :=
  StandsAt source mode.span.start ['{'] ∧ ∃ first last, mode.span.start < first ∧
    IsClosed source last mode.span.stop ∧ ∀ rule ∈ mode.rules, IsRule source first last rule

/-- All mode declarations are written in the source. -/
def AreModes (source : List Char) (legacy : Legacy) : Prop :=
  ∀ mode ∈ legacy.modes, IsMode source mode

section Relations

variable {source : List Char} {first middle last later : Nat}

theorem StandsAt.isPlace {text : List Char} (stands : StandsAt source first text) :
    Cursor.IsPlace source first := by
  obtain ⟨rest, isIn⟩ := stands
  exact isIn.isPlace

/-! ### Induction along one part

The parts are related mutually, but what is said of one kind of them often follows by looking at
that kind alone. -/

section Induction

/-- Induction along the nodes and the text of a passage. -/
@[elab_as_elim]
theorem IsPassage.along {motive : ∀ passage first last, IsPassage source passage first last → Prop}
    (empty : ∀ {first last : Nat} (order : first ≤ last), motive _ _ _ (.empty order))
    (text : ∀ {passage : Passage} {first middle last : Nat}
      (before : IsPassage source passage first middle) (content : String) (order : middle ≤ last),
      motive _ _ _ before → motive _ _ _ (before.text content order))
    (nothing : ∀ {passage : Passage} {first middle last : Nat}
      (before : IsPassage source passage first middle) (order : middle ≤ last),
      motive _ _ _ before → motive _ _ _ (before.nothing order))
    (node : ∀ {passage : Passage} {node : Node} {first middle start stop last : Nat}
      (before : IsPassage source passage first middle) (behind : middle ≤ start)
      (here : IsNode source node start stop) (order : stop ≤ last),
      motive _ _ _ before → motive _ _ _ (before.node behind here order))
    {passage : Passage} {first last : Nat} :
    ∀ read : IsPassage source passage first last, motive passage first last read
  | .empty order => empty order
  | .text before content order =>
    text before content order (before.along empty text nothing node)
  | .nothing before order => nothing before order (before.along empty text nothing node)
  | .node before behind here order =>
    node before behind here order (before.along empty text nothing node)

/-- Induction along the entries of a fork. -/
@[elab_as_elim]
theorem AreEntries.along
    {motive : ∀ branches first last, AreEntries source branches first last → Prop}
    (none : ∀ {first last : Nat} (order : first ≤ last), motive _ _ _ (.none order))
    (entry : ∀ {branches : List Branch} {choice : Choice} {weight : Option Decimal}
      {first middle start stop place last : Nat} (before : AreEntries source branches first middle)
      (behind : middle ≤ start) (chosen : IsChoice source choice start stop)
      (weighed : IsWeight source weight stop place) (order : place ≤ last),
      motive _ _ _ before → motive _ _ _ (before.entry behind chosen weighed order))
    {branches : List Branch} {first last : Nat} :
    ∀ read : AreEntries source branches first last, motive branches first last read
  | .none order => none order
  | .entry before behind chosen weighed order =>
    entry before behind chosen weighed order (before.along none entry)

/-- Induction along the mappings of a reference, with its fallback last. -/
@[elab_as_elim]
theorem AreMapped.along
    {motive : ∀ mappings fallback first last, AreMapped source mappings fallback first last → Prop}
    (none : ∀ {first last : Nat} (order : first ≤ last), motive _ _ _ _ (.none order))
    (mapped : ∀ {found mapped : List Mapping} {choice : Choice} {indices : List (Nat × Nat)}
      {first middle start stop last : Nat} (before : AreMapped source found .none first middle)
      (behind : middle ≤ start) (chosen : IsChoice source choice start stop)
      (added : Reader.addMappings choice indices found = .ok mapped) (order : stop ≤ last),
      motive _ _ _ _ before → motive _ _ _ _ (before.mapped behind chosen added order))
    (fallback : ∀ {found : List Mapping} {choice : Choice} {first middle start stop last : Nat}
      (before : AreMapped source found .none first middle) (behind : middle ≤ start)
      (chosen : IsChoice source choice start stop) (order : stop ≤ last),
      motive _ _ _ _ before → motive _ _ _ _ (before.fallback behind chosen order))
    {mappings : List Mapping} {fallen : Option Choice} {first last : Nat} :
    ∀ read : AreMapped source mappings fallen first last, motive mappings fallen first last read
  | .none order => none order
  | .mapped before behind chosen added order =>
    mapped before behind chosen added order (before.along none mapped fallback)
  | .fallback before behind chosen order =>
    fallback before behind chosen order (before.along none mapped fallback)

end Induction

theorem IsPassage.mono {passage : Passage} (read : IsPassage source passage first middle)
    (order : middle ≤ last) : IsPassage source passage first last := by
  cases read with
  | empty start => exact .empty (Nat.le_trans start order)
  | text before content stop => exact before.text content (Nat.le_trans stop order)
  | nothing before stop => exact before.nothing (Nat.le_trans stop order)
  | node before behind here stop => exact before.node behind here (Nat.le_trans stop order)

theorem AreEntries.mono {branches : List Branch} (read : AreEntries source branches first middle)
    (order : middle ≤ last) : AreEntries source branches first last := by
  cases read with
  | none start => exact .none (Nat.le_trans start order)
  | entry before behind chosen weighed stop =>
    exact before.entry behind chosen weighed (Nat.le_trans stop order)

theorem AreMapped.mono {mappings : List Mapping} {fallback : Option Choice}
    (read : AreMapped source mappings fallback first middle) (order : middle ≤ last) :
    AreMapped source mappings fallback first last := by
  cases read with
  | none start => exact .none (Nat.le_trans start order)
  | mapped before behind chosen added stop =>
    exact before.mapped behind chosen added (Nat.le_trans stop order)
  | fallback before behind chosen stop =>
    exact before.fallback behind chosen (Nat.le_trans stop order)

theorem IsClosed.mono (closed : IsClosed source middle later) (order : first ≤ middle) :
    IsClosed source first later := by
  obtain ⟨close, behind, stands, same⟩ := closed
  exact ⟨close, Nat.le_trans order behind, stands, same⟩

/-- A block in place of a choice is a passage of one node. -/
theorem IsNode.choice {node : Node} (here : IsNode source node middle last)
    (order : first ≤ middle) : IsChoice source (.nodes [node]) first last :=
  .nodes order (.node (.empty (Nat.le_refl middle)) (Nat.le_refl middle) here (Nat.le_refl last))

theorem IsRule.mono {rule : ModeRule} (read : IsRule source first middle rule)
    (order : middle ≤ last) : IsRule source first last rule := by
  rcases read with literal | ⟨start, stop, behind, chosen, before⟩
  · exact .inl literal
  · exact .inr ⟨start, stop, behind, chosen, Nat.le_trans before order⟩

theorem areModes_empty : AreModes source .empty := List.forall_mem_nil _

theorem AreModes.append {before behind : Legacy} (first : AreModes source before)
    (second : AreModes source behind) : AreModes source (before ++ behind) :=
  List.forall_mem_append.2 ⟨first, second⟩

end Relations

namespace Reader

open Indexed (Taken)

variable {source : List Char} {cursor : Cursor} {token : Token} {after : Cursor}

/-! ## Tokens -/

/-- A token starts at or behind the cursor that it was read from. -/
theorem onset_of_next (isIn : cursor.In source) {lexed : Lexed cursor}
    (read : cursor.next = .ok lexed) : cursor.offset ≤ lexed.token.start := by
  fun_induction Cursor.next cursor with
  | case1 =>
    cases read
    exact Nat.le_refl _
  | case2 => cases read
  | case3 cursor more progress line resumed shorter lexed' found ih =>
    cases read
    have resumedIn : resumed.In source := isIn.afterLexeme.skip _
    exact Nat.le_trans (isIn.forward resumedIn (Nat.le_of_lt shorter)) (ih resumedIn found)
  | case4 => cases read
  | case5 cursor more progress comment length found after shorter =>
    cases read
    exact isIn.forward (isIn.afterLexeme.skip _) (Nat.le_of_lt shorter)
  | case6 =>
    cases read
    exact Nat.le_refl _

theorem yields_token (isIn : cursor.In source) : Yields cursor.next fun lexed =>
    Taken source lexed.token lexed.after ∧ cursor.offset ≤ lexed.token.start :=
  fun _ read => ⟨Indexed.taken_of_next isIn read, onset_of_next isIn read⟩

/-- A token of a kind with one spelling stands there spelled so. -/
theorem stands_of_taken (taken : Taken source token after) (spelling : List Char)
    (fixed : Indexed.isVaried token.kind = false)
    (only : ∀ entry ∈ Lexeme.spellings, entry.2 = token.kind → entry.1 = spelling) :
    Cursor.In ⟨token.start, spelling ++ after.rest⟩ source ∧
      after.offset = token.start + byteLength spelling := by
  obtain ⟨spelled, listed, isIn, behind⟩ := Indexed.spelled_of_taken taken fixed
  obtain rfl : spelled = spelling := only _ listed rfl
  exact ⟨isIn, behind⟩

theorem opens_of_taken (taken : Taken source token after) (kind : token.kind = .leftBrace) :
    StandsAt source token.start ['{'] ∧ after.offset = token.start + 1 := by
  obtain ⟨isIn, behind⟩ := stands_of_taken taken ['{'] (by rw [kind]; rfl) (by rw [kind]; decide)
  exact ⟨⟨after.rest, isIn⟩, behind⟩

theorem closes_of_taken (taken : Taken source token after) (kind : token.kind = .rightBrace)
    {last : Nat} (order : last ≤ token.start) : IsClosed source last after.offset := by
  obtain ⟨isIn, behind⟩ := stands_of_taken taken ['}'] (by rw [kind]; rfl) (by rw [kind]; decide)
  exact ⟨token.start, order, ⟨after.rest, isIn⟩, behind⟩

/-- A number stands there as its token has it. -/
theorem number_of_taken (taken : Taken source token after) (kind : token.kind = .number) :
    IsRun .number token.text.toList ∧ StandsAt source token.start token.text.toList ∧
      after.offset = token.start + byteLength token.text.toList := by
  cases taken with
  | comment => cases kind
  | @lexeme place isIn =>
    obtain ⟨offset, text⟩ := place
    obtain - | ⟨first, rest⟩ := text
    · cases kind
    have read : (lexeme (first :: rest)).kind = .number := kind
    by_cases escape : first = '\\'
    · rw [lexeme, if_pos escape] at read
      unfold Lexeme.ofEscape at read
      split at read
      · cases read
      · cases read
      · split at read <;> cases read
      · cases read
    · obtain ⟨kind, run, same, runs, later, split⟩ := Lexeme.lexeme_eq_run escape rest
      rw [same] at read
      cases read
      simp only [Cursor.token, Cursor.afterLexeme, same, String.toList_ofList]
      exact ⟨runs, ⟨later, split ▸ isIn⟩, by rw [Cursor.skip, ← split, List.take_left]⟩

/-- A digit is read as a number. -/
theorem number_of_digit {c : Char} {rest : List Char} (text : cursor.rest = c :: rest)
    (digit : Decimal.isDigit c = true) :
    Yields cursor.next fun lexed => lexed.token.kind = .number := by
  have kind : cursor.token.kind = .number := by
    rw [Cursor.token, text, Lexeme.lexeme_of_digit digit]
  rintro lexed read
  rw [Cursor.next, dif_neg (by rw [text]; exact List.cons_ne_nil c rest)] at read
  simp only [kind] at read
  cases read
  exact kind

/-! ## Parts that do not nest -/

theorem yields_isWeight (isIn : cursor.In source) : Yields (weight cursor) fun reading =>
    reading.rest.In source ∧ IsWeight source reading.value cursor.offset reading.rest.offset := by
  rw [weight]
  refine (yields_in Indexed.mirrors_skipTrivia isIn).bind fun trimmed trimmedIn => ?_
  have forward := isIn.forward trimmedIn (Nat.le_of_lt_succ trimmed.size_lt)
  refine Yields.bind (fun number read => read) fun number read => ?_
  have taken := Indexed.taken_of_next trimmedIn read
  dsimp only
  split
  · rename_i numeric
    obtain ⟨runs, stands, behind⟩ := number_of_taken taken numeric
    exact .pure ⟨taken.after_in, .written runs stands
      (Nat.le_trans forward (onset_of_next trimmedIn read)) (Nat.le_of_eq behind.symm)⟩
  · rename_i other
    refine .pure ⟨trimmedIn, .none forward ?_⟩
    rintro c ⟨rest, standsIn⟩
    rw [← Bool.not_eq_true]
    intro digit
    have same : trimmed.rest = ⟨trimmed.rest.offset, c :: rest⟩ :=
      Option.some.inj (trimmedIn.at?.symm.trans standsIn.at?)
    have text : trimmed.rest.rest = c :: rest := congrArg Cursor.rest same
    exact other (number_of_digit text digit number read)

theorem yields_isClosed (isIn : cursor.In source) (opening : Nat) :
    Yields (closingBrace opening cursor) fun reading =>
      reading.rest.In source ∧ IsClosed source cursor.offset reading.rest.offset := by
  rw [closingBrace]
  refine (yields_in Indexed.mirrors_skipTrivia isIn).bind fun trimmed trimmedIn => ?_
  refine (yields_token trimmedIn).bind ?_
  rintro lexed ⟨taken, onset⟩
  have forward := isIn.forward trimmedIn (Nat.le_of_lt_succ trimmed.size_lt)
  dsimp only
  split
  · rename_i closes
    exact .pure ⟨taken.after_in, closes_of_taken taken closes (Nat.le_trans forward onset)⟩
  · exact .throw _
  · exact .throw _

/-- A script block is written from the bracket in front of its body to the one that closes it. -/
theorem yields_isScript {opening : Nat} {body : Cursor}
    (isIn : Cursor.In ⟨opening, '[' :: body.rest⟩ source) (start : body.offset = opening + 1)
    {first : Nat} (behind : first ≤ opening) :
    Yields (script opening body) fun reading => reading.rest.In source ∧
      IsChoice source (.script reading.value) first reading.rest.offset := by
  obtain ⟨offset, text⟩ := body
  subst start
  have bodyIn : Cursor.In ⟨opening + 1, text⟩ source := isIn.tail
  rw [script]
  intro reading given
  split at given
  · cases given
  · rename_i close found
    cases given
    obtain ⟨front, rest, split, rfl⟩ := Extent.find_eq_ok found
    dsimp only at split
    subst split
    have closeIn : Cursor.In ⟨opening + 1 + byteLength front, ']' :: rest⟩ source :=
      bodyIn.of_append rfl
    have cut : Cursor.textUntil ⟨opening + 1, front ++ ']' :: rest⟩
        ⟨opening + 1 + byteLength front, ']' :: rest⟩ = front := by
      simp [Cursor.textUntil, Cursor.size]
    refine ⟨closeIn.skip 1, ?_⟩
    rw [cut]
    refine .script behind ⟨rest, ?_⟩ ?_
    · rw [List.append_assoc, List.cons_append]
      exact isIn
    · have opens : '['.utf8Size = 1 := rfl
      have closes : ']'.utf8Size = 1 := rfl
      simp only [Cursor.skip, List.take_succ_cons, List.take_zero, List.cons_append,
        byteLength_cons, byteLength_append, byteLength_nil, opens, closes]
      omega

/-! ## The grammar -/

/-- On texts shorter than a limit, what is read is written where it was read from. -/
structure Writes (source : List Char) (limit : Nat) : Prop where
  sequence {cursor : Cursor} (shorter : cursor.size < limit) (isIn : cursor.In source)
    (enclosing : Option Nat) (depth : Nat) {passage : Passage} {first : Nat}
    (read : IsPassage source passage first cursor.offset) {legacy : Legacy}
    (modes : AreModes source legacy) :
    Yields (sequence enclosing depth passage legacy cursor) fun reading =>
      reading.rest.In source ∧ AreModes source reading.value.2 ∧ ∃ whole,
        IsPassage source whole first reading.rest.offset ∧ reading.value.1 = whole.close
  block {cursor : Cursor} (shorter : cursor.size < limit) (isIn : cursor.In source) {opening : Nat}
    (opens : StandsAt source opening ['{']) (inside : opening < cursor.offset) :
    Yields (block opening cursor) fun reading =>
      reading.rest.In source ∧ AreModes source reading.value.2 ∧
        ∀ node ∈ reading.value.1, IsNode source node opening reading.rest.offset
  entries {cursor : Cursor} (shorter : cursor.size < limit) (isIn : cursor.In source)
    (opening : Nat) {branches : List Branch} {first : Nat}
    (read : AreEntries source branches first cursor.offset) {legacy : Legacy}
    (modes : AreModes source legacy) :
    Yields (entries opening branches legacy cursor) fun reading =>
      reading.rest.In source ∧ AreModes source reading.value.2 ∧ ∃ found last,
        AreEntries source found first last ∧ found ≠ [] ∧
          IsClosed source last reading.rest.offset ∧ reading.value.1 = found.reverse
  reference {cursor : Cursor} (shorter : cursor.size < limit) (isIn : cursor.In source)
    {opening : Nat} (opens : StandsAt source opening ['{']) (inside : opening < cursor.offset)
    (name : Option String) (silent reruns : Bool) :
    Yields (reference opening name silent reruns cursor) fun reading =>
      reading.rest.In source ∧ AreModes source reading.value.2 ∧
        IsNode source (.reference reading.value.1) opening reading.rest.offset
  mappings {cursor : Cursor} (shorter : cursor.size < limit) (isIn : cursor.In source)
    (opening : Nat) (isFirst : Bool) {found : List Mapping} {fallback : Option Choice}
    {first : Nat} (read : AreMapped source found fallback first cursor.offset) {legacy : Legacy}
    (modes : AreModes source legacy) :
    Yields (mappings opening isFirst found fallback legacy cursor) fun reading =>
      reading.rest.In source ∧ AreModes source reading.value.2.2 ∧
        AreMapped source reading.value.1 reading.value.2.1 first reading.rest.offset
  mode {cursor : Cursor} (shorter : cursor.size < limit) (isIn : cursor.In source) {opening : Nat}
    (opens : StandsAt source opening ['{']) (inside : opening < cursor.offset) :
    Yields (mode opening cursor) fun reading =>
      reading.rest.In source ∧ AreModes source reading.value
  rules {cursor : Cursor} (shorter : cursor.size < limit) (isIn : cursor.In source)
    (opening : Nat) {found : List ModeRule} {first : Nat} (start : first ≤ cursor.offset)
    (read : ∀ rule ∈ found, IsRule source first cursor.offset rule) {legacy : Legacy}
    (modes : AreModes source legacy) :
    Yields (rules opening found legacy cursor) fun reading =>
      reading.rest.In source ∧ AreModes source reading.value.2 ∧
        ∀ rule ∈ reading.value.1, IsRule source first reading.rest.offset rule

variable {limit : Nat}

section Steps

variable (below : Writes source limit) (within : cursor.size ≤ limit) (isIn : cursor.In source)
include below within isIn

theorem writes_sequence (enclosing : Option Nat) (depth : Nat) {passage : Passage} {first : Nat}
    (read : IsPassage source passage first cursor.offset) {legacy : Legacy}
    (modes : AreModes source legacy) :
    Yields (sequence enclosing depth passage legacy cursor) fun reading =>
      reading.rest.In source ∧ AreModes source reading.value.2 ∧ ∃ whole,
        IsPassage source whole first reading.rest.offset ∧ reading.value.1 = whole.close := by
  rw [sequence]
  refine (yields_token isIn).bind ?_
  rintro lexed ⟨taken, onset⟩
  have afterIn := taken.after_in
  have forward := isIn.forward afterIn lexed.size_le
  dsimp only
  by_cases atEnd : lexed.token.kind = .endOfText
  · rw [dif_pos atEnd]
    exact .skip fun _ => .pure ⟨afterIn, modes, _, read.mono forward, rfl⟩
  · have progress := lexed.size_lt atEnd
    have shorter : lexed.after.size < limit := by omega
    rw [dif_neg atEnd]
    split
    · exact .pure ⟨afterIn, modes, _, read.mono forward, rfl⟩
    · exact (below.sequence shorter afterIn _ _ (read.text _ forward) modes).lastly fun _ => id
    · exact (below.sequence shorter afterIn _ _ (read.text _ forward) modes).lastly fun _ => id
    · rename_i brace
      obtain ⟨opens, opened⟩ := opens_of_taken taken brace
      refine (below.block shorter afterIn opens (by omega)).bind ?_
      rintro inner ⟨innerIn, declared, nodes⟩
      have innerLt := inner.size_lt
      have innerShorter : inner.rest.size < limit := by omega
      have forwardInner := afterIn.forward innerIn (Nat.le_of_lt_succ innerLt)
      have more : IsPassage source (passage.addBlock inner.value.1) first inner.rest.offset := by
        cases made : inner.value.1 with
        | none => exact read.nothing (by omega)
        | some node => exact read.node onset (nodes node made) (Nat.le_refl _)
      exact (below.sequence innerShorter innerIn _ _ more (modes.append declared)).lastly
        fun _ => id
    · refine (yields_in (Indexed.mirrors_verbatim taken.start_isPlace) afterIn).bind
        fun inner innerIn => ?_
      have innerLt := inner.size_lt
      have innerShorter : inner.rest.size < limit := by omega
      have forwardInner := afterIn.forward innerIn (Nat.le_of_lt_succ innerLt)
      exact (below.sequence innerShorter innerIn _ _
        (read.text _ (Nat.le_trans forward forwardInner)) modes).lastly fun _ => id
    · exact .throw _
    · exact (below.sequence shorter afterIn _ _ (read.text _ forward) modes).lastly fun _ => id

theorem writes_choice : Yields (choice cursor) fun reading =>
    reading.rest.In source ∧ AreModes source reading.value.2 ∧
      IsChoice source reading.value.1 cursor.offset reading.rest.offset := by
  rw [choice]
  refine (yields_token isIn).bind ?_
  rintro lexed ⟨taken, onset⟩
  have afterIn := taken.after_in
  have forward := isIn.forward afterIn lexed.size_le
  by_cases atEnd : lexed.token.kind = .endOfText
  · rw [dif_pos atEnd]
    exact .throw _
  · have progress := lexed.size_lt atEnd
    have shorter : lexed.after.size < limit := by omega
    rw [dif_neg atEnd]
    dsimp only
    split
    · refine (below.sequence shorter afterIn _ _ (.empty (Nat.le_refl _)) areModes_empty).lastly ?_
      rintro reading ⟨readingIn, modes, whole, read, same⟩
      refine ⟨readingIn, modes, ?_⟩
      rw [same]
      exact .nodes forward read
    · rename_i bracket
      obtain ⟨bracketIn, behind⟩ := stands_of_taken taken ['['] (by rw [bracket]; rfl)
        (by rw [bracket]; decide)
      exact (yields_isScript bracketIn behind onset).lastly
        fun _ here => ⟨here.1, areModes_empty, here.2⟩
    · rename_i brackets
      obtain ⟨bracketIn, -⟩ := stands_of_taken taken ['[', '['] (by rw [brackets]; rfl)
        (by rw [brackets]; decide)
      let body : Cursor := ⟨lexed.token.start + 1, '[' :: lexed.after.rest⟩
      have read : Yields (script lexed.token.start body) _ := yields_isScript bracketIn rfl onset
      exact read.lastly fun _ here => ⟨here.1, areModes_empty, here.2⟩
    · rename_i brace
      obtain ⟨opens, opened⟩ := opens_of_taken taken brace
      refine (below.block shorter afterIn opens (by omega)).bind ?_
      rintro reading ⟨readingIn, modes, nodes⟩
      split
      · exact .throw _
      · rename_i node legacy same
        rw [same] at modes nodes
        exact .pure ⟨readingIn, modes, (nodes node rfl).choice onset⟩
    · split
      · refine (yields_in Indexed.mirrors_skipBlanks afterIn).bind fun trimmed trimmedIn => ?_
        refine (yields_in Indexed.mirrors_identifier trimmedIn).bind fun name nameIn => ?_
        rename_i kind _
        obtain ⟨-, behind⟩ := stands_of_taken taken ['c', 'a', 'l', 'l'] (by rw [kind]; rfl)
          (by rw [kind]; decide)
        have word : byteLength ['c', 'a', 'l', 'l'] = 4 := rfl
        have trimmedForward := afterIn.forward trimmedIn (Nat.le_of_lt_succ trimmed.size_lt)
        have nameForward := trimmedIn.forward nameIn (Nat.le_of_lt_succ name.size_lt)
        exact .pure ⟨nameIn, areModes_empty, .call onset (by omega)⟩
      · exact .throw _
    · exact .throw _

end Steps

section Lists

variable (below : Writes source limit) (within : cursor.size ≤ limit) (isIn : cursor.In source)
  (choices : ∀ {cursor : Cursor}, cursor.size ≤ limit → cursor.In source →
    Yields (choice cursor) fun reading =>
      reading.rest.In source ∧ AreModes source reading.value.2 ∧
        IsChoice source reading.value.1 cursor.offset reading.rest.offset)
include below within isIn choices

theorem writes_entries (opening : Nat) {branches : List Branch} {first : Nat}
    (read : AreEntries source branches first cursor.offset) {legacy : Legacy}
    (modes : AreModes source legacy) :
    Yields (entries opening branches legacy cursor) fun reading =>
      reading.rest.In source ∧ AreModes source reading.value.2 ∧ ∃ found last,
        AreEntries source found first last ∧ found ≠ [] ∧
          IsClosed source last reading.rest.offset ∧ reading.value.1 = found.reverse := by
  rw [entries]
  refine (yields_in Indexed.mirrors_skipTrivia isIn).bind fun trimmed trimmedIn => ?_
  have trimmedLt := trimmed.size_lt
  have trimmedForward := isIn.forward trimmedIn (Nat.le_of_lt_succ trimmedLt)
  refine (yields_token trimmedIn).bind ?_
  rintro ahead ⟨taken, onset⟩
  dsimp only
  split
  · rename_i closes
    simp only [Bool.and_eq_true, decide_eq_true_eq, Bool.not_eq_true', List.isEmpty_eq_false_iff]
      at closes
    obtain ⟨brace, some⟩ := closes
    exact .pure ⟨taken.after_in, modes, branches, cursor.offset, read, some,
      closes_of_taken taken brace (Nat.le_trans trimmedForward onset), rfl⟩
  split
  · exact .throw _
  have trimmedWithin : trimmed.rest.size ≤ limit := by omega
  refine (choices trimmedWithin trimmedIn).bind ?_
  rintro chosen ⟨chosenIn, declared, here⟩
  have chosenLt := chosen.size_lt
  refine (yields_isWeight chosenIn).bind ?_
  rintro weighted ⟨weightedIn, weighed⟩
  have weightedLt := weighted.size_lt
  refine (yields_in Indexed.mirrors_skipTrivia weightedIn).bind fun last lastIn => ?_
  have lastLt := last.size_lt
  have lastForward := weightedIn.forward lastIn (Nat.le_of_lt_succ lastLt)
  refine (yields_token lastIn).bind ?_
  rintro separator ⟨takenNext, onsetNext⟩
  have separatorLe := separator.size_le
  have separatorIn := takenNext.after_in
  have separatorForward := lastIn.forward separatorIn separatorLe
  have more := modes.append declared
  split
  · have shorter : separator.after.size < limit := by omega
    have entry := read.entry trimmedForward here weighed (Nat.le_trans lastForward separatorForward)
    exact (below.entries shorter separatorIn opening entry more).lastly fun _ => id
  · rename_i brace
    exact .pure ⟨separatorIn, more, _, last.rest.offset,
      read.entry trimmedForward here weighed lastForward, List.cons_ne_nil _ _,
      closes_of_taken takenNext brace onsetNext, rfl⟩
  · exact .throw _
  · exact .throw _

theorem writes_mappings (opening : Nat) (isFirst : Bool) {found : List Mapping}
    {fallback : Option Choice} {first : Nat}
    (read : AreMapped source found fallback first cursor.offset) {legacy : Legacy}
    (modes : AreModes source legacy) :
    Yields (mappings opening isFirst found fallback legacy cursor) fun reading =>
      reading.rest.In source ∧ AreModes source reading.value.2.2 ∧
        AreMapped source reading.value.1 reading.value.2.1 first reading.rest.offset := by
  rw [mappings]
  refine (yields_in Indexed.mirrors_skipTrivia isIn).bind fun trimmed trimmedIn => ?_
  have trimmedLt := trimmed.size_lt
  have trimmedForward := isIn.forward trimmedIn (Nat.le_of_lt_succ trimmedLt)
  have trimmedWithin : trimmed.rest.size ≤ limit := by omega
  refine .skip fun ahead => ?_
  dsimp only
  split
  · split
    · exact .throw _
    · exact .pure ⟨trimmedIn, modes, read.mono trimmedForward⟩
  split
  · exact .throw _
  split
  · exact .throw _
  rename_i noFallback
  obtain rfl : fallback = none := Option.not_isSome_iff_eq_none.1 noFallback
  by_cases numeric : ahead.token.kind = .number
  case' pos =>
    rw [dif_pos numeric]
    refine (yields_in Indexed.mirrors_indexList trimmedIn).bind fun indices indicesIn => ?_
    have indicesLt := indices.size_lt
    have indicesForward := trimmedIn.forward indicesIn (Nat.le_of_lt_succ indicesLt)
    refine (yields_in Indexed.mirrors_skipTrivia indicesIn).bind fun again againIn => ?_
    have againLt := again.size_lt
    have againForward := indicesIn.forward againIn (Nat.le_of_lt_succ againLt)
    refine (choices (by omega) againIn).bind ?_
    rintro chosen ⟨chosenIn, declared, here⟩
    have chosenLt := chosen.size_lt
    have entryLt : chosen.rest.size < limit := by omega
    refine Yields.bind (fun mapped added => added) fun mapped added => ?_
    have entry := read.mapped (by omega) here added (Nat.le_refl _)
  case' neg =>
    rw [dif_neg numeric]
    refine (choices trimmedWithin trimmedIn).bind ?_
    rintro chosen ⟨chosenIn, declared, here⟩
    have chosenLt := chosen.size_lt
    have entryLt : chosen.rest.size < limit := by omega
    have entry := read.fallback trimmedForward here (Nat.le_refl _)
  -- Either way an entry is read, and a separator follows.
  all_goals
    simp only [pure_bind]
    refine (yields_in Indexed.mirrors_skipTrivia chosenIn).bind fun last lastIn => ?_
    have lastLt := last.size_lt
    have lastForward := chosenIn.forward lastIn (Nat.le_of_lt_succ lastLt)
    refine (yields_token lastIn).bind ?_
    rintro separator ⟨takenNext, -⟩
    have separatorLe := separator.size_le
    have separatorIn := takenNext.after_in
    have separatorForward := lastIn.forward separatorIn separatorLe
    have more := modes.append declared
    split
    · have shorter : separator.after.size < limit := by omega
      exact (below.mappings shorter separatorIn opening false
        (entry.mono (Nat.le_trans lastForward separatorForward)) more).lastly fun _ => id
    · exact .pure ⟨lastIn, more, entry.mono lastForward⟩
    · exact .throw _
    · exact .throw _

theorem writes_rules (opening : Nat) {found : List ModeRule} {first : Nat}
    (start : first ≤ cursor.offset) (read : ∀ rule ∈ found, IsRule source first cursor.offset rule)
    {legacy : Legacy} (modes : AreModes source legacy) :
    Yields (rules opening found legacy cursor) fun reading =>
      reading.rest.In source ∧ AreModes source reading.value.2 ∧
        ∀ rule ∈ reading.value.1, IsRule source first reading.rest.offset rule := by
  have later : ∀ {found : List ModeRule} {middle last : Nat}, middle ≤ last →
      (∀ rule ∈ found, IsRule source first middle rule) →
        ∀ rule ∈ found.reverse, IsRule source first last rule :=
    fun order read rule member => (read rule (List.mem_reverse.1 member)).mono order
  rw [rules]
  refine (yields_in Indexed.mirrors_skipTrivia isIn).bind fun trimmed trimmedIn => ?_
  have trimmedLt := trimmed.size_lt
  have trimmedForward := isIn.forward trimmedIn (Nat.le_of_lt_succ trimmedLt)
  refine (yields_token trimmedIn).bind ?_
  rintro ahead ⟨taken, -⟩
  have aheadLe := ahead.size_le
  dsimp only
  split
  · exact .pure ⟨trimmedIn, modes, later trimmedForward read⟩
  -- A rule may start with a word that means nothing.
  split
  case' isTrue =>
    refine (yields_in Indexed.mirrors_skipTrivia taken.after_in).bind fun bare bareIn => ?_
    have bareLt := bare.size_lt
    have bareForward := trimmedIn.forward bareIn (by omega)
    have bareWithin : bare.rest.size ≤ limit := by omega
  case' isFalse =>
    have bareIn := trimmedIn
    have bareForward := Nat.le_refl trimmed.rest.offset
    have bareWithin : trimmed.rest.size ≤ limit := by omega
  all_goals
    simp only [pure_bind]
    refine (yields_in Indexed.mirrors_quoted bareIn).bind fun matcher matcherIn => ?_
    have matcherLt := matcher.size_lt
    have matcherForward := bareIn.forward matcherIn (Nat.le_of_lt matcherLt)
    refine (yields_in Indexed.mirrors_skipTrivia matcherIn).bind fun front frontIn => ?_
    have frontLt := front.size_lt
    have frontForward := matcherIn.forward frontIn (Nat.le_of_lt_succ frontLt)
    refine (yields_token frontIn).bind ?_
    rintro arrow ⟨takenArrow, -⟩
    have arrowLe := arrow.size_le
    have arrowForward := frontIn.forward takenArrow.after_in arrowLe
    split
    · exact .throw _
    refine (yields_in Indexed.mirrors_skipTrivia takenArrow.after_in).bind fun again againIn => ?_
    have againLt := again.size_lt
    have againForward := takenArrow.after_in.forward againIn (Nat.le_of_lt_succ againLt)
    have replacementWithin : again.rest.size ≤ limit := by omega
    refine .skip fun quote => ?_
    split
    case' isTrue =>
      refine (yields_in Indexed.mirrors_quoted againIn).bind fun literal literalIn => ?_
      have chosenLt := literal.size_lt
      have chosenIn := literalIn
      have chosenForward := againIn.forward literalIn (Nat.le_of_lt chosenLt)
      have rule : ∀ matcher : String, IsRule source first literal.rest.offset
          ⟨matcher, .nodes [.text literal.value]⟩ := fun _ => .inl ⟨_, rfl⟩
      have more := modes.append areModes_empty
    case' isFalse =>
      refine (choices replacementWithin againIn).bind ?_
      rintro chosen ⟨chosenIn, declared, here⟩
      have chosenLt := chosen.size_lt
      have chosenForward := againIn.forward chosenIn (Nat.le_of_lt chosenLt)
      have rule : ∀ matcher : String, IsRule source first chosen.rest.offset
          ⟨matcher, chosen.value.1⟩ :=
        fun _ => .inr ⟨_, _, by omega, here, Nat.le_refl _⟩
      have more := modes.append declared
    all_goals
      refine (yields_in Indexed.mirrors_skipTrivia chosenIn).bind fun last lastIn => ?_
      have lastLt := last.size_lt
      have lastForward := chosenIn.forward lastIn (Nat.le_of_lt_succ lastLt)
      refine (yields_token lastIn).bind ?_
      rintro separator ⟨takenNext, -⟩
      have separatorLe := separator.size_le
      have separatorIn := takenNext.after_in
      have separatorForward := lastIn.forward separatorIn separatorLe
      have onward : cursor.offset ≤ last.rest.offset := by omega
      have extended := List.forall_mem_cons.2 ⟨(rule matcher.value).mono lastForward,
        fun other member => (read other member).mono onward⟩
      split
      · have shorter : separator.after.size < limit := by omega
        exact (below.rules shorter separatorIn opening (by omega)
          (fun other member => (extended other member).mono separatorForward) more).lastly
          fun _ => id
      · exact .pure ⟨lastIn, more, later (Nat.le_refl _) extended⟩
      · exact .throw _
      · exact .throw _

end Lists

section Blocks

variable (below : Writes source limit) (within : cursor.size ≤ limit) (isIn : cursor.In source)
  {opening : Nat} (opens : StandsAt source opening ['{']) (inside : opening < cursor.offset)
include below within isIn opens inside

theorem writes_reference (name : Option String) (silent reruns : Bool) :
    Yields (reference opening name silent reruns cursor) fun reading =>
      reading.rest.In source ∧ AreModes source reading.value.2 ∧
        IsNode source (.reference reading.value.1) opening reading.rest.offset := by
  rw [reference]
  refine (yields_in Indexed.mirrors_skipBlanks isIn).bind fun front frontIn => ?_
  refine (yields_in Indexed.mirrors_identifier frontIn).bind fun target targetIn => ?_
  refine (yields_in Indexed.mirrors_skipTrivia targetIn).bind fun trimmed trimmedIn => ?_
  refine (yields_token trimmedIn).bind ?_
  rintro colon ⟨taken, -⟩
  have frontLt := front.size_lt
  have targetLt := target.size_lt
  have trimmedLt := trimmed.size_lt
  have colonIn := taken.after_in
  dsimp only
  split
  · rename_i isColon
    have colonLt := colon.size_lt (by rw [isColon]; decide)
    have shorter : colon.after.size < limit := by omega
    have colonForward := isIn.forward colonIn (by omega)
    have nothing : AreMapped source [] none colon.after.offset colon.after.offset :=
      .none (Nat.le_refl _)
    refine (below.mappings shorter colonIn opening true nothing areModes_empty).bind ?_
    rintro mapped ⟨mappedIn, modes, read⟩
    refine (yields_isClosed mappedIn opening).bind ?_
    rintro close ⟨closeIn, closes⟩
    exact .pure ⟨closeIn, modes, .reference opens (by omega) read closes⟩
  · have trimmedForward := isIn.forward trimmedIn (by omega)
    refine (yields_isClosed trimmedIn opening).bind ?_
    rintro close ⟨closeIn, closes⟩
    exact .pure ⟨closeIn, areModes_empty, .reference opens inside (.none trimmedForward) closes⟩

theorem writes_mode : Yields (mode opening cursor) fun reading =>
    reading.rest.In source ∧ AreModes source reading.value := by
  rw [mode]
  refine (yields_in Indexed.mirrors_skipTrivia isIn).bind fun front frontIn => ?_
  refine (yields_in Indexed.mirrors_identifier frontIn).bind fun name nameIn => ?_
  refine (yields_in Indexed.mirrors_skipTrivia nameIn).bind fun trimmed trimmedIn => ?_
  refine (yields_token trimmedIn).bind ?_
  rintro colon ⟨taken, -⟩
  have frontLt := front.size_lt
  have nameLt := name.size_lt
  have trimmedLt := trimmed.size_lt
  have colonIn := taken.after_in
  dsimp only
  split
  · rename_i isColon
    have colonLt := colon.size_lt (by rw [isColon]; decide)
    have shorter : colon.after.size < limit := by omega
    have colonForward := isIn.forward colonIn (by omega)
    have noRule : ∀ rule ∈ ([] : List ModeRule),
        IsRule source colon.after.offset colon.after.offset rule := List.forall_mem_nil _
    refine (below.rules shorter colonIn opening (Nat.le_refl _) noRule areModes_empty).bind ?_
    rintro ruled ⟨ruledIn, modes, read⟩
    refine (yields_isClosed ruledIn opening).bind ?_
    rintro close ⟨closeIn, closes⟩
    refine .pure ⟨closeIn, modes.append ?_⟩
    exact List.forall_mem_singleton.2 ⟨opens, colon.after.offset, ruled.rest.offset,
      Nat.lt_of_lt_of_le inside colonForward, closes, read⟩
  · exact .throw _

theorem writes_block
    (forks : ∀ {cursor : Cursor}, cursor.size ≤ limit → cursor.In source →
      Yields (entries opening [] .empty cursor) fun reading =>
        reading.rest.In source ∧ AreModes source reading.value.2 ∧ ∃ found last,
          AreEntries source found cursor.offset last ∧ found ≠ [] ∧
            IsClosed source last reading.rest.offset ∧ reading.value.1 = found.reverse) :
    Yields (block opening cursor) fun reading =>
      reading.rest.In source ∧ AreModes source reading.value.2 ∧
        ∀ node ∈ reading.value.1, IsNode source node opening reading.rest.offset := by
  have alone : ∀ {node : Node} {stop : Nat}, IsNode source node opening stop →
      ∀ other ∈ some node, IsNode source other opening stop := by
    rintro node stop here other ⟨⟩
    exact here
  have noNode : ∀ {stop : Nat}, ∀ node ∈ (none : Option Node), IsNode source node opening stop := by
    rintro stop node ⟨⟩
  rw [block]
  refine (yields_in Indexed.mirrors_skipTrivia isIn).bind fun front frontIn => ?_
  refine (yields_in Indexed.mirrors_flags frontIn).bind fun flagged flaggedIn => ?_
  refine (yields_token flaggedIn).bind ?_
  rintro lexed ⟨taken, -⟩
  have frontLt := front.size_lt
  have flaggedLt := flagged.size_lt
  have lexedLe := lexed.size_le
  have lexedIn := taken.after_in
  dsimp only
  split
  · rename_i declares
    simp only [Bool.and_eq_true, decide_eq_true_eq] at declares
    have lexedLt := lexed.size_lt (by rw [declares.2]; decide)
    have shorter : lexed.after.size < limit := by omega
    have lexedForward := isIn.forward lexedIn (by omega)
    exact (below.mode shorter lexedIn opens (by omega)).lastly
      fun _ here => ⟨here.1, here.2, noNode⟩
  split
  · refine (yields_in Indexed.mirrors_skipTrivia lexedIn).bind fun trimmed trimmedIn => ?_
    refine (yields_in Indexed.mirrors_identifier trimmedIn).bind fun name nameIn => ?_
    refine (yields_in (Indexed.mirrors_closingBrace opens.isPlace) nameIn).bind
      fun close closeIn => ?_
    exact .pure ⟨closeIn, List.forall_mem_nil _, noNode⟩
  refine (yields_in (Indexed.mirrors_label opens.isPlace) flaggedIn).bind fun named namedIn => ?_
  refine (yields_in Indexed.mirrors_skipTrivia namedIn).bind fun body bodyIn => ?_
  refine (yields_token bodyIn).bind ?_
  rintro ahead ⟨takenNext, -⟩
  have namedLt := named.size_lt
  have bodyLt := body.size_lt
  have aheadLe := ahead.size_le
  have aheadIn := takenNext.after_in
  -- A word in front of the sign has the target of the reference executed again.
  refine .skipEither fun reruns => ?_
  split
  · refine (yields_in Indexed.mirrors_skipTrivia aheadIn).bind fun trimmed trimmedIn => ?_
    refine (yields_token trimmedIn).bind ?_
    rintro sign ⟨takenSign, -⟩
    have trimmedLt := trimmed.size_lt
    have signLe := sign.size_le
    have signIn := takenSign.after_in
    split
    · rename_i isAt
      have signLt := sign.size_lt (by rw [isAt]; decide)
      have shorter : sign.after.size < limit := by omega
      have signForward := isIn.forward signIn (by omega)
      split
      · exact .throw _
      · exact (below.reference shorter signIn opens (by omega) _ _ _).lastly
          fun _ found => ⟨found.1, found.2.1, alone found.2.2⟩
    · exact .throw _
  split
  · rename_i isAt
    have aheadLt := ahead.size_lt (by rw [isAt]; decide)
    have shorter : ahead.after.size < limit := by omega
    have aheadForward := isIn.forward aheadIn (by omega)
    split
    · exact .throw _
    · exact (below.reference shorter aheadIn opens (by omega) _ _ _).lastly
        fun _ found => ⟨found.1, found.2.1, alone found.2.2⟩
  · have bodyForward := isIn.forward bodyIn (by omega)
    refine (forks (by omega) bodyIn).bind ?_
    rintro reading ⟨readIn, modes, found, last, read, filled, closes, same⟩
    unfold forkNode
    dsimp only
    split
    · exact .throw _
    · rw [same]
      exact .pure ⟨readIn, modes, alone (.fork opens (by omega) read filled closes)⟩

end Blocks

/-- Texts of every length are written where they are read from. -/
theorem writes (source : List Char) (limit : Nat) : Writes source limit := by
  induction limit with
  | zero =>
    constructor <;> exact fun shorter => absurd shorter (Nat.not_lt_zero _)
  | succ limit below =>
    have choices : ∀ {cursor : Cursor}, cursor.size ≤ limit → cursor.In source →
        Yields (choice cursor) fun reading =>
          reading.rest.In source ∧ AreModes source reading.value.2 ∧
            IsChoice source reading.value.1 cursor.offset reading.rest.offset :=
      fun within isIn => writes_choice below within isIn
    constructor
    case sequence =>
      exact fun shorter isIn => writes_sequence below (Nat.le_of_lt_succ shorter) isIn
    case block =>
      intro cursor shorter isIn opening opens inside
      refine writes_block below (Nat.le_of_lt_succ shorter) isIn opens inside fun within isIn => ?_
      exact writes_entries below within isIn choices opening (.none (Nat.le_refl _)) areModes_empty
    case entries =>
      exact fun shorter isIn => writes_entries below (Nat.le_of_lt_succ shorter) isIn choices
    case reference =>
      exact fun shorter isIn => writes_reference below (Nat.le_of_lt_succ shorter) isIn
    case mappings =>
      exact fun shorter isIn => writes_mappings below (Nat.le_of_lt_succ shorter) isIn choices
    case mode =>
      exact fun shorter isIn => writes_mode below (Nat.le_of_lt_succ shorter) isIn
    case rules =>
      exact fun shorter isIn => writes_rules below (Nat.le_of_lt_succ shorter) isIn choices

end Reader

/-- A document that was read is written in its source from the start on. -/
theorem Document.isWritten_of_read {source : List Char} {document : Document}
    (read : Document.read source = .ok document) :
    (∃ passage, IsPassage source passage 0 (byteLength source) ∧ document.nodes = passage.close) ∧
      ∀ mode ∈ document.modes, IsMode source mode := by
  have shorter : (Cursor.start source).size < source.length + 1 := Nat.lt_succ_self _
  have whole := (Reader.writes source (source.length + 1)).sequence shorter
    (Cursor.start_in source) none 0 (.empty (Nat.le_refl 0)) areModes_empty
  unfold Document.read at read
  split at read
  · cases read
  · rename_i reading ended
    cases read
    obtain ⟨readingIn, modes, passage, written, same⟩ := whole reading ended
    exact ⟨⟨passage, written.mono readingIn.offset_le, same⟩, modes⟩

end BranchText
