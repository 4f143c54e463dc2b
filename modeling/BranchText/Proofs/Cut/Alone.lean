import BranchText.Proofs.Cut.Parts
import BranchText.Proofs.Reading.Outer

/-!
# A text by itself and in front of another

What is closed in a text is read alike in front of more text (`nested_of_alone`). The comparison is
of a text that ends there with the text in front of another one, at any two places. Where a token
goes over the end, the text by itself is followed: nothing opens or closes in it from there on.
-/

namespace BranchText

namespace Cut

namespace Alone

open Comparison Reader

variable (cut : Cut)

/-- The readings have the same text in front of them, or the text by itself is spent. -/
inductive Twins : (stage : Stage) → (Followed .front stage → Cursor) → Prop
  | together {cursors : Followed .front .together → Cursor} (text : List Char)
    (rests : ∀ run, (cursors run).rest = text ++ cut.tail run.1) : Twins .together cursors
  | apart {cursors : Followed .front .apart → Cursor} (ended : ∀ run, (cursors run).Ended) :
    Twins .apart cursors

/-- The text cannot be read by itself. -/
def Settled {stage : Stage} (errors : Followed .front stage → Option ReadError) : Prop :=
  ∃ run, run.1 = .front ∧ ∃ error, errors run = some error

/-- A text by itself and in front of another, read side by side. -/
abbrev comparison : Comparison where
  Stage := Stage
  Run := Followed .front
  followed stage := by
    cases stage with
    | together => exact ⟨.whole, rfl⟩
    | apart => exact ⟨own .front⟩
  finite _ := inferInstance
  Twins := Twins cut
  Later _ _ kept := ∀ run, (kept run).1 = run.1
  Settled _ := Settled
  Closed stage _ := stage = .together
  OpenBrace _ _ := True
  OpenParen _ _ := True
  later_refl _ _ := rfl
  later_trans first second run := (first _).trans (second run)
  settled_of_later := by
    rintro _ _ _ _ moves ⟨run, isFront, fails⟩
    exact ⟨_, (moves run).trans isFront, fails⟩
  settled_of_more := by
    rintro _ _ _ ⟨run, isFront, error, fails⟩ more
    exact ⟨run, isFront, error, more run error fails⟩
  openBrace_of_later _ _ := trivial
  openParen_of_later _ _ := trivial

variable {cut} {stage : Stage} {cursors : Followed .front stage → Cursor}

theorem exists_front (stage : Stage) : ∃ run : Followed .front stage, run.1 = .front := by
  cases stage with
  | together => exact ⟨⟨.front, rfl⟩, rfl⟩
  | apart => exact ⟨own .front, rfl⟩

/-- What fails in all readings fails in the text by itself. -/
theorem settled_of_all {errors : Followed .front stage → Option ReadError}
    (all : ∀ run, ∃ error, errors run = some error) : Settled errors := by
  obtain ⟨run, isFront⟩ := exists_front stage
  exact ⟨run, isFront, all run⟩

/-- What fails in the text by itself. -/
theorem settled_of_front {Value : Followed .front stage → Type}
    {outcome : ∀ run, Except ReadError (Value run)} {run : Followed .front stage}
    (isFront : run.1 = .front) {error : ReadError} (fails : outcome run = .error error) :
    Settled fun run => failure? (outcome run) :=
  ⟨run, isFront, error, congrArg failure? fails⟩

/-! ## Tokens -/

/-- Tokens of one kind and meaning are met. -/
theorem agree_lexed {later : Stage} (kept : Followed .front later → Followed .front stage)
    (moves : ∀ run, (kept run).1 = run.1) {lexed : ∀ run, Lexed (cursors (kept run))}
    (read : ∀ run, (cursors (kept run)).next = .ok (lexed run)) {kind : TokenKind} {text : String}
    (kinds : ∀ run, (lexed run).token.kind = kind) (texts : ∀ run, (lexed run).token.text = text)
    (after : Twins cut later fun run => (lexed run).after)
    (closed : kind.closes = true → later = .together)
    (keeps : (comparison cut).Keeps kept cursors) :
    (comparison cut).Agree (Meeting cursors) fun run => (cursors run).next :=
  .values later kept moves lexed read
    ⟨⟨⟨kind, kinds, fun _ => ⟨text, texts⟩, fun _ => after, closed⟩, ⟨text, texts⟩, after⟩, keeps⟩

/-- The text by itself meets tokens up to its end. -/
theorem agree_ended (kept : Followed .front .apart → Followed .front stage)
    (moves : ∀ run, (kept run).1 = run.1) (ended : (cursors (kept (own .front))).Ended)
    (keeps : (comparison cut).Keeps kept cursors) :
    (comparison cut).Agree (Meeting cursors) fun run => (cursors run).next := by
  obtain ⟨token, after, takes, ended, kinds⟩ := ended.step
  have takes : ∀ run, (cursors (kept run)).Takes token after := fun run => by
    rw [eq_own run]
    exact takes
  choose lexed read tokens afters using takes
  refine agree_lexed kept moves read (fun run => congrArg Token.kind (tokens run))
    (fun run => congrArg Token.text (tokens run)) (.apart fun run => ?_) (fun closes => ?_) keeps
  · rw [afters]
    exact ended
  · rcases kinds with inert | ⟨bracket, -⟩
    · rw [isInert_of_closes closes] at inert
      cases inert
    · rw [bracket] at closes
      cases closes

/-- The text by itself among both readings. -/
def aside (run : Followed .front .apart) : Followed .front .together := ⟨run.1, rfl⟩

/-- Where the text by itself is spent, the places in front of it are kept. -/
theorem keeps_aside {cursors : Followed .front .together → Cursor}
    (ended : (cursors ⟨.front, rfl⟩).Ended) : (comparison cut).Keeps aside cursors := by
  intro olds _ leads
  refine .apart fun run => ?_
  obtain rfl := eq_own run
  exact .of_leads (leads ⟨.front, rfl⟩) ended

/-- The readings meet the same token, or the text by itself is spent. -/
theorem agree_token (twins : Twins cut stage cursors) :
    (comparison cut).Agree (Meeting cursors) fun run => (cursors run).next := by
  cases twins with
  | apart ended => exact agree_ended id (fun _ => rfl) (ended _) fun _ twins _ => twins
  | together text rests =>
    rename_i cursors
    obtain ⟨_, before, -, offset⟩ := Cursor.exists_in (cursors ⟨.front, rfl⟩)
    have here : cut.place before text .front = cursors ⟨.front, rfl⟩ := by
      rw [place, offset, ← rests ⟨.front, rfl⟩]
    cases reaches cut before text with
    | token token passed later split takes =>
      have found : ∀ run, ∃ lexed : Lexed (cursors run), (cursors run).next = .ok lexed ∧
          lexed.token.kind = token.kind ∧ lexed.token.text = token.text ∧
          lexed.after.rest = later ++ cut.tail run.1 := fun run => by
        obtain ⟨lexed, read, isToken, isAfter⟩ := takes run.1
        obtain ⟨other, given, kind, meant, rest⟩ :=
          Cursor.next_shift ((rests run).trans rfl) read
        exact ⟨other, given, by rw [kind, isToken], by rw [meant, isToken],
          by rw [rest, isAfter]; rfl⟩
      choose lexed read kinds texts afters using found
      exact agree_lexed id (fun _ => rfl) read kinds texts (.together later afters) (fun _ => rfl)
        fun _ twins _ => twins
    | across _ ended =>
      rw [here] at ended
      exact agree_ended aside (fun _ => rfl) ended (keeps_aside ended)
    | comment later same beyond =>
      subst same
      have fails : (cut.place before ('/' :: '*' :: later) .front).next = .error _ :=
        next_front_comment beyond
      rw [here] at fails
      exact .settled (settled_of_front rfl fails)

/-! ## Parts -/

section Parts

variable {α κ : Type} {view : α → κ}

/-- What is read of the text by itself is read of all that has the text in front. -/
theorem agree_part {limit : Followed .front .together → Nat}
    {outcome : ∀ run, Except ReadError (Reading α (limit run))}
    (extended : ∀ reading, outcome ⟨.front, rfl⟩ = .ok reading → ∃ rest value, ∀ run,
      ∃ reading, outcome run = .ok reading ∧ view reading.value = value ∧
        reading.rest.rest = rest ++ cut.tail run.1) :
    (comparison cut).Agree ((comparison cut).Reads view) outcome := by
  cases read : outcome ⟨.front, rfl⟩ with
  | error error => exact .settled (settled_of_front rfl read)
  | ok reading =>
    obtain ⟨rest, value, all⟩ := extended reading read
    choose readings reads values rests using all
    exact .here readings reads ⟨⟨value, values⟩, .together rest rests⟩

/-- Nothing that takes more than a bracket starts where the text by itself is spent. -/
theorem bracket_of_apart {cursors : Followed .front .apart → Cursor}
    {lexed : ∀ run, Lexed (cursors run)} (twins : Twins cut .apart cursors)
    (read : ∀ run, (cursors run).next = .ok (lexed run)) (run : Followed .front .apart)
    (loud : (lexed run).token.kind.isInert = false) :
    (lexed run).token.kind = .leftBracket ∧ (lexed run).after.rest = [] := by
  cases twins with
  | apart ended =>
    obtain ⟨token, after, takes, -, kinds⟩ := (ended run).step
    obtain ⟨rfl, rfl⟩ := takes.lexed (read run)
    rcases kinds with inert | bracket
    · rw [loud] at inert
      cases inert
    · exact bracket

variable {lexed : ∀ run, Lexed (cursors run)} {kind : TokenKind} (twins : Twins cut stage cursors)
  (read : ∀ run, (cursors run).next = .ok (lexed run))
include twins read

omit twins read in
/-- Behind a token that is met by both readings, the same text is in front of them. -/
theorem exists_rests {cursors : Followed .front .together → Cursor}
    {lexed : ∀ run, Lexed (cursors run)}
    (tokens : (comparison cut).Tokens .together kind lexed) (solid : kind ≠ .whitespace) :
    ∃ text, ∀ run, (lexed run).after.rest = text ++ cut.tail run.1 := by
  have after : Twins cut .together fun run => (lexed run).after := tokens.after solid
  generalize behind : (fun run => (lexed run).after) = places at after
  cases after with
  | together text rests => exact ⟨text, fun run => (congrFun behind run ▸ rests run :)⟩

theorem agree_literal (tokens : (comparison cut).Tokens stage kind lexed)
    (opens : kind.quote?.isSome = true) :
    (comparison cut).Agree ((comparison cut).Reads id) fun run => quoted (cursors run) := by
  obtain ⟨quote, isQuote⟩ := Option.isSome_iff_exists.1 opens
  have quotes : ∀ run, (lexed run).token.kind.quote? = some quote := fun run => by
    rw [tokens.kinds, isQuote]
  have loud : kind.isInert = false ∧ kind ≠ .whitespace ∧ kind ≠ .leftBracket := by
    cases kind <;> first | decide | cases opens
  cases stage with
  | apart =>
    have bracket := bracket_of_apart twins read (own .front) (by rw [tokens.kinds, loud.1])
    exact absurd ((tokens.kinds _).symm.trans bracket.1) loud.2.2
  | together =>
    obtain ⟨text, rests⟩ := exists_rests tokens loud.2.1
    refine agree_part fun reading given => ?_
    obtain ⟨close, found, -, size⟩ := find_of_quoted (read _) (quotes _) given
    rw [rests] at found
    obtain ⟨body, rest, rfl, finds⟩ := Quoted.find_of_short found
      (by rw [tail, List.length_nil]; omega)
    refine ⟨rest, .ofList (Quoted.decode body), fun run => ?_⟩
    obtain ⟨reading, given, value, behind⟩ :=
      quoted_of_finds finds (read run) (quotes run) (rests run)
    exact ⟨reading, given, value, by rw [behind]⟩

theorem agree_verbatim (tokens : (comparison cut).Tokens stage .doubleLeftBracket lexed) :
    (comparison cut).Agree ((comparison cut).Reads id) fun run =>
      verbatim (lexed run).token.start (lexed run).after := by
  cases stage with
  | apart =>
    have bracket := bracket_of_apart twins read (own .front) (by rw [tokens.kinds]; rfl)
    cases (tokens.kinds _).symm.trans bracket.1
  | together =>
    obtain ⟨text, rests⟩ := exists_rests tokens nofun
    refine agree_part fun reading given => ?_
    obtain ⟨passed, rest, value, -, all⟩ :=
      verbatim_of_short (rests ⟨.front, rfl⟩) given (Nat.zero_le _)
    refine ⟨rest, value, fun run => ?_⟩
    obtain ⟨found, given, same, behind⟩ := all (rests run)
    exact ⟨found, given, same, by rw [behind]⟩

theorem agree_script (tokens : (comparison cut).Tokens stage kind lexed)
    (opens : kind = .leftBracket ∨ kind = .doubleLeftBracket)
    {body : Followed .front stage → Cursor} (bodies : ∀ run, body run = scriptBody (lexed run)) :
    (comparison cut).Agree ((comparison cut).Reads scriptView) fun run =>
      script (lexed run).token.start (body run) := by
  have loud : kind.isInert = false ∧ kind ≠ .whitespace := by
    rcases opens with rfl | rfl <;> decide
  cases stage with
  | apart =>
    -- the bracket is the last character of the text by itself, so its script has no end
    have bracket := bracket_of_apart twins read (own .front) (by rw [tokens.kinds, loud.1])
    have empty : (body (own .front)).rest = [] := by
      rw [bodies, scriptBody, if_neg (by rw [bracket.1]; decide), bracket.2]
    have outcome := Indexed.script_eq (lexed (own .front)).token.start (body (own .front))
    rw [empty] at outcome
    exact .settled (settled_of_front rfl outcome)
  | together =>
    obtain ⟨text, rests⟩ := exists_rests tokens loud.2
    obtain ⟨inside, insides⟩ : ∃ inside, ∀ run, (body run).rest = inside ++ cut.tail run.1 := by
      rcases opens with rfl | rfl
      · refine ⟨text, fun run => ?_⟩
        rw [bodies, scriptBody, if_neg (by rw [tokens.kinds]; decide), rests]
      · refine ⟨'[' :: text, fun run => ?_⟩
        rw [bodies, scriptBody, if_pos (tokens.kinds run), rests]
        rfl
    refine agree_part fun reading given => ?_
    obtain ⟨close, found, size⟩ := find_of_script given
    rw [insides] at found
    obtain ⟨content, rest, rfl, finds⟩ := Extent.find_of_short found
      (by rw [tail, List.length_nil]; omega)
    refine ⟨rest, .ofList content, fun run => ?_⟩
    obtain ⟨reading, given, value, behind⟩ :=
      script_of_finds finds (lexed run).token.start (insides run)
    exact ⟨reading, given, value, by rw [behind]⟩

/-- Whether a blank follows a word shows in both readings, or the text by itself is spent. -/
theorem agree_blank (tokens : (comparison cut).Tokens stage kind lexed)
    (word : kind = .call ∨ kind = .mode ∨ kind = .use) :
    ∃ (later : Stage) (kept : Followed .front later → Followed .front stage),
      (∀ run, (kept run).1 = run.1) ∧ Twins cut later (fun run => cursors (kept run)) ∧
      Twins cut later (fun run => (lexed (kept run)).after) ∧
      ∃ blank, ∀ run, followedByBlank (lexed (kept run)).after = blank := by
  have solid : kind ≠ .whitespace ∧ kind.isInert = true := by
    rcases word with rfl | rfl | rfl <;> decide
  cases stage with
  | apart =>
    exact ⟨.apart, id, fun _ => rfl, twins, tokens.after solid.1,
      followedByBlank (lexed (own .front)).after, fun run => by rw [eq_own run]; rfl⟩
  | together =>
    obtain ⟨text, rests⟩ := exists_rests tokens solid.1
    have kinds : ∀ run, followedByBlank (lexed run).after =
        (lexeme (text ++ cut.tail run.1)).kind.isTrivia := fun run => by
      rw [followedByBlank, Cursor.token, rests]
    by_cases same : (lexeme (text ++ cut.back)).kind.isTrivia = (lexeme text).kind.isTrivia
    · refine ⟨.together, id, fun _ => rfl, twins, .together text rests,
        (lexeme text).kind.isTrivia, fun run => ?_⟩
      rw [id, kinds]
      cases run.1 with
      | whole => exact same
      | front => rw [tail, List.append_nil]
    · obtain ⟨_, before, -, offset⟩ := Cursor.exists_in (lexed ⟨.front, rfl⟩).after
      have ended := (across_of_blank before same).2
      rw [place, offset, ← rests ⟨.front, rfl⟩] at ended
      refine ⟨.apart, aside, fun _ => rfl, .apart fun run => ?_, .apart fun run => ?_, _,
        fun run => by rw [eq_own run]⟩
      · obtain rfl := eq_own run
        exact .further ⟨_, read ⟨.front, rfl⟩, rfl, rfl⟩
          (by rw [tokens.kinds, solid.2]) ended
      · obtain rfl := eq_own run
        exact ended

end Parts

theorem lawful : (comparison cut).Lawful where
  next twins := (agree_token twins).imp fun _ _ _ _ _ met => ⟨met.1.tokens, met.2⟩
  gap twins := agree_gap_of_step (fun twins => .inr (agree_token twins)) twins
  blank twins read tokens word := .inr (agree_blank twins read tokens word)
  literal := agree_literal
  verbatim := agree_verbatim
  script := agree_script
  refused _ _ _ := settled_of_all fun _ => ⟨_, rfl⟩
  brace _ := settled_of_all fun _ => ⟨_, rfl⟩
  paren _ := settled_of_all fun _ => ⟨_, rfl⟩
  failed _ _ all := settled_of_all all
  block _ _ _ agree := agree trivial
  nested _ _ _ agree := agree trivial

end Alone

end Cut

namespace Reader

open Comparison

variable {text back : List Char}

/-- What is read of a text up to the parenthesis that closes it is read alike in front of more
text, wherever that stands. -/
theorem nested_of_alone {opening offset : Nat}
    {alone : Reading (List Node × Legacy) ((⟨offset, text⟩ : Cursor).size + 1)}
    (read : sequence (some opening) 0 .empty .empty ⟨offset, text⟩ = .ok alone)
    (more : back ≠ []) (enclosing place : Nat) :
    ∃ found, sequence (some enclosing) 0 .empty .empty ⟨place, text ++ back⟩ = .ok found ∧
      nodesView found.value = nodesView alone.value ∧
      found.rest.rest = alone.rest.rest ++ back := by
  let cut : Cut := ⟨text, back, more⟩
  let openings : Cut.Followed .front .together → Nat := fun run =>
    run.1.casesOn enclosing opening
  let cursors : Cut.Followed .front .together → Cursor := fun run =>
    run.1.casesOn ⟨place, text ++ back⟩ ⟨offset, text⟩
  have twins : Cut.Alone.Twins cut .together cursors := by
    refine .together text fun run => ?_
    obtain ⟨side, _⟩ := run
    cases side with
    | whole => rfl
    | front => exact (List.append_nil text).symm
  have agree : (Cut.Alone.comparison cut).Agree ((Cut.Alone.comparison cut).Ends nodesView)
      fun run => sequence (some (openings run)) 0 .empty .empty (cursors run) :=
    Cut.Alone.lawful.agree_nested twins trivial
  cases agree with
  | settled done =>
    obtain ⟨⟨side, _⟩, isFront, error, fails⟩ := done
    obtain rfl : side = .front := isFront
    cases (congrArg failure? read).symm.trans fails
  | values stage kept moves readings given same =>
    obtain ⟨⟨⟨seen, values⟩, rest⟩, closed⟩ := same
    obtain rfl : stage = .together := closed
    obtain rfl : kept = id := funext fun run => Subtype.ext (moves run)
    have inFront : readings ⟨.front, rfl⟩ = alone :=
      Except.ok.inj ((given ⟨.front, rfl⟩).symm.trans read)
    cases rest with
    | together left rests =>
      refine ⟨readings ⟨.whole, rfl⟩, given ⟨.whole, rfl⟩, ?_, ?_⟩
      · rw [← inFront]
        exact (values ⟨.whole, rfl⟩).trans (values ⟨.front, rfl⟩).symm
      · have behind : alone.rest.rest = left ++ [] := inFront ▸ rests ⟨.front, rfl⟩
        rw [behind, List.append_nil]
        exact rests ⟨.whole, rfl⟩

/-- A choice in parentheses is what stands in them. -/
theorem choice_paren (offset : Nat) (text : List Char) :
    ∃ found : Reading (List Node × Legacy) ((⟨offset + 1, text⟩ : Cursor).size + 1) →
        Reading (Choice × Legacy) (⟨offset, '(' :: text⟩ : Cursor).size,
      (∀ inner, (found inner).value = (.nodes inner.value.1, inner.value.2) ∧
        (found inner).rest = inner.rest) ∧
      choice ⟨offset, '(' :: text⟩ =
        (sequence (some offset) 0 .empty .empty ⟨offset + 1, text⟩).map found := by
  obtain ⟨⟨token, after, sizeLe, sizeLt⟩, next, isToken, isAfter⟩ :
      Cursor.Takes ⟨offset, '(' :: text⟩ ⟨.leftParen, offset, offset + 1, "("⟩ ⟨offset + 1, text⟩ :=
    Cursor.takes_lexeme (List.cons_ne_nil _ _) nofun nofun
  cases isToken
  cases isAfter
  refine ⟨fun inner => ⟨(.nodes inner.value.1, inner.value.2), inner.rest,
    Nat.lt_of_lt_of_le inner.size_lt (Nat.le_of_eq rfl)⟩, fun _ => ⟨rfl, rfl⟩, ?_⟩
  rw [choice, next]
  cases inner : sequence (some offset) 0 .empty .empty ⟨offset + 1, text⟩ with
  | error error => simp [inner, bind, Except.bind, Except.map]
  | ok reading => simp [inner, bind, Except.bind, Except.map, pure, Except.pure]

/-- A choice in parentheses that can be read by itself is read alike in front of more text. -/
theorem choice_of_alone
    {alone : Reading (Choice × Legacy) (Cursor.start ('(' :: text)).size}
    (read : choice (Cursor.start ('(' :: text)) = .ok alone) (more : back ≠ []) (place : Nat) :
    ∃ found, choice ⟨place, '(' :: text ++ back⟩ = .ok found ∧
      choiceView found.value = choiceView alone.value ∧
      found.rest.rest = alone.rest.rest ++ back := by
  obtain ⟨atStart, views, first⟩ := choice_paren 0 text
  obtain ⟨here, same, second⟩ := choice_paren place (text ++ back)
  obtain ⟨inner, given, rfl⟩ := Reader.exists_of_map_eq_ok (first.symm.trans read)
  obtain ⟨found, reads, alike, rest⟩ := nested_of_alone given more place (place + 1)
  obtain ⟨nodes, declared⟩ := Prod.mk.inj alike
  refine ⟨here found, second.trans (by rw [reads]; rfl), ?_, ?_⟩
  · simp [choiceView, Choice.withoutSpans, (same found).1, (views inner).1, nodes, declared]
  · rw [(same found).2, (views inner).2, rest]

end Reader

end BranchText
