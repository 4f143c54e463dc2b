import BranchText.Proofs.Cut.Blocks
import BranchText.Proofs.Reading.Outer

/-!
# Documents that are cut off

A source that is cut inside of a fork or a reference cannot be read: what is reported is open at the
cut, or stands at the last token in front of it.
-/

namespace BranchText

namespace Cut

open Comparison Reader

variable (cut : Cut)

/-- The cut is strictly inside of a span. -/
def Inside (span : Span) : Prop :=
  span.start < byteLength cut.front ∧ byteLength cut.front < span.stop

variable {cut} {before later : List Char} {cursor : Cursor} {passage : Passage} {legacy : Legacy}

/-- The cut is a place of the source. -/
theorem cut_in (cut : Cut) :
    Cursor.In ⟨byteLength cut.front, cut.back⟩ (cut.front ++ cut.back) := ⟨cut.front, rfl, rfl⟩

section Source

variable (isIn : cursor.In (cut.front ++ cut.back))
include isIn

/-- Where less is left to read than behind the cut, the cut has been passed. -/
theorem lt_offset_of_size (less : cursor.size < cut.back.length) :
    byteLength cut.front < cursor.offset :=
  cut.cut_in.onward isIn less

variable (clear : ∀ span ∈ passage.spans, ¬ cut.Inside span)
include clear

/-- Nothing that is read behind the cut has the cut inside. -/
theorem not_inside_behind (less : cursor.size < cut.back.length) :
    Yields (outerNodes passage legacy cursor) fun value =>
      ∀ span ∈ value.1.filterMap Node.span?, ¬ cut.Inside span := by
  intro value given span member inside
  have passed := lt_offset_of_size isIn less
  rcases yields_outerNodes isIn value given span member with old | behind
  · exact clear span old inside
  · exact absurd inside.1 (by omega)

/-- Nor does what is read from a token on that ends behind the cut. -/
theorem not_inside_across {lexed : Lexed cursor} (read : cursor.next = .ok lexed)
    (less : lexed.after.size < cut.back.length) :
    Yields (outerNodes passage legacy cursor) fun value =>
      ∀ span ∈ value.1.filterMap Node.span?, ¬ cut.Inside span := by
  rw [outerNodes_eq, read]
  refine (yields_outer isIn read).bind fun found parts => ?_
  cases found with
  | none => exact .pure fun span member => clear span (Passage.mem_close.1 member)
  | some reading =>
    obtain ⟨readingIn, shorter, spans⟩ := parts reading rfl
    refine not_inside_behind readingIn (fun span member inside => ?_)
      (Nat.lt_of_le_of_lt shorter less)
    rcases spans span member with old | ⟨brace, rfl⟩
    · exact clear span old inside
    · have taken := Indexed.taken_of_next isIn read
      have passed := lt_offset_of_size taken.after_in less
      have opened := (opens_of_taken taken brace).2
      exact absurd inside.1 (by dsimp only; omega)

end Source

/-! ## Parts in front of the cut -/

section Fronts

/-- What ends behind the cut is reported of the front, if it agrees with the front followed. -/
theorem reported_of_agree {α κ : Type} {view : α → κ} {part : ∀ cursor : Cursor, Except ReadError
      (Reading α (cursor.size + 1))}
    (agree : (cut.comparison .front).Agree ((cut.comparison .front).Ends view)
      fun run : Followed .front .together => part (cut.place before later run.1))
    {reading : Reading α ((cut.place before later .whole).size + 1)}
    (given : part (cut.place before later .whole) = .ok reading)
    (beyond : reading.rest.size < cut.back.length) :
    ∃ error, part (cut.place before later .front) = .error error ∧ cut.IsReported error := by
  cases agree with
  | settled done =>
    cases done with
    | whole run isWhole error fails =>
      obtain ⟨side, _⟩ := run
      obtain rfl : side = .whole := isWhole
      rw [given] at fails
      cases fails
    | front run isFront _ error fails reported =>
      obtain ⟨side, _⟩ := run
      obtain rfl : side = .front := isFront
      refine ⟨error, ?_, reported⟩
      cases read : part (cut.place before later .front) with
      | ok found =>
        rw [read] at fails
        cases fails
      | error other =>
        rw [read] at fails
        cases fails
        rfl
  | values stage kept moves readings reads same =>
    obtain ⟨alike, closed⟩ := same
    cases stage with
    | together =>
      obtain rfl : kept = id := funext fun run => Subtype.ext (moves run)
      obtain same : readings ⟨.whole, rfl⟩ = reading := Except.ok.inj ((reads _).symm.trans given)
      cases alike.rest with
      | together first last _ stands =>
        have ends : reading.rest = cut.place first last .whole := same ▸ stands ⟨.whole, rfl⟩
        have size : (cut.place first last .whole).size = last.length + cut.back.length :=
          List.length_append
        rw [ends] at beyond
        omega
    | apart =>
      obtain closed | behind := closed
      · cases closed
      · cases (behind (own .front)).1

section Places

variable (opening : Side → Nat) {places : Side → Cursor}

/-- A block of the source that ends in front of the cut is read alike in the front, and another is
reported of it. -/
theorem block_front (split : cut.front = before ++ ['\x7b'] ++ later)
    (starts : ∀ side, opening side = byteLength before)
    (stands : ∀ side, places side = cut.place (before ++ ['\x7b']) later side)
    {reading : Reading (Option Node × Legacy) ((places .whole).size + 1)}
    (given : block (opening .whole) (places .whole) = .ok reading) :
    (∃ error, block (opening .front) (places .front) = .error error ∧ cut.IsReported error) ∨
    ∃ found, block (opening .front) (places .front) = .ok found ∧
      ∃ first last, first ++ last = cut.front ∧ reading.rest = cut.place first last .whole ∧
        found.rest = cut.place first last .front := by
  obtain rfl := funext starts
  obtain rfl := funext stands
  by_cases inside : cut.back.length ≤ reading.rest.size
  · obtain ⟨seen, first, last, whole, all⟩ :=
      readsAlike_block (byteLength before) _ later split.symm reading given inside
    obtain ⟨same, read, -, ends⟩ := all .whole
    cases given.symm.trans read
    obtain ⟨found, inFront, -, behind⟩ := all .front
    exact .inr ⟨found, inFront, first, last, whole, ends, behind⟩
  · rw [Nat.not_le] at inside
    have isOpen : cut.IsOpen (.malformed (byteLength before) .unclosedBrace) :=
      .brace (opens_of_body split rfl ⟨reading, given, rfl⟩ inside)
    have twins : cut.Twins .front .together fun run =>
        cut.place (before ++ ['\x7b']) later run.1 :=
      .together _ later split.symm fun _ => rfl
    exact .inl (reported_of_agree (lawful_front.agree_block twins fun _ _ => isOpen) given inside)

/-- Verbatim text of the source that ends in front of the cut ends there in the front. -/
theorem verbatim_front (split : before ++ later = cut.front)
    (stands : ∀ side, places side = cut.place before later side)
    {reading : Reading String ((places .whole).size + 1)}
    (given : verbatim (opening .whole) (places .whole) = .ok reading)
    (inside : cut.back.length ≤ reading.rest.size) :
    ∃ found, verbatim (opening .front) (places .front) = .ok found ∧
      ∃ first last, first ++ last = cut.front ∧ reading.rest = cut.place first last .whole ∧
        found.rest = cut.place first last .front := by
  obtain rfl := funext stands
  obtain ⟨passed, rest, value, rfl, all⟩ := verbatim_of_short rfl given inside
  have ends : ∀ side, ∃ found, verbatim (opening side) (cut.place before (passed ++ rest) side) =
      .ok found ∧ found.rest = cut.place (before ++ passed) rest side := fun side => by
    obtain ⟨found, read, -, ends⟩ :=
      @all (opening side) (cut.place before (passed ++ rest) side) _ rfl
    refine ⟨found, read, ?_⟩
    rw [ends, place, place, byteLength_append]
  obtain ⟨same, read, ends'⟩ := ends .whole
  cases given.symm.trans read
  obtain ⟨found, inFront, behind⟩ := ends .front
  exact ⟨found, inFront, before ++ passed, rest, by rw [← split, List.append_assoc], ends', behind⟩

end Places

/-- A brace of both sides stands in front of the cut. -/
theorem exists_brace {after first last : List Char} {token : Token}
    {lexed : ∀ side, Lexed (cut.place before after side)} (split : before ++ after = cut.front)
    (read : ∀ side, (cut.place before after side).next = .ok (lexed side))
    (tokens : ∀ side, (lexed side).token = token) (whole : first ++ last = cut.front)
    (stands : ∀ side, (lexed side).after = cut.place first last side)
    (brace : token.kind = .leftBrace) : ∃ front later, cut.front = front ++ ['\x7b'] ++ later ∧
      (∀ side, (lexed side).token.start = byteLength front) ∧
      ∀ side, (lexed side).after = cut.place (front ++ ['\x7b']) later side := by
  have twins : cut.Twins .front .together fun run => cut.place before after run.1 :=
    .together before after split fun _ => rfl
  have tokens : (cut.comparison .front).Tokens .together .leftBrace
      fun run : Followed .front .together => lexed run.1 :=
    ⟨fun run => by rw [tokens, brace], fun _ => ⟨token.text, fun run => by rw [tokens]⟩,
      fun _ => .together first last whole fun run => stands run.1, fun _ => .inl rfl⟩
  obtain ⟨front, later, split, marked⟩ :=
    exists_mark twins (fun run => read run.1) tokens ['\x7b'] rfl (by decide)
  exact ⟨front, later, split, fun side => (marked ⟨side, rfl⟩).1, fun side => (marked ⟨side, rfl⟩).2⟩

/-- A part of the source that starts with a token of both sides: it is read alike in the front, or
reported of it, or it is text that ends behind the cut. -/
theorem outer_front (other : Passage) (declared : Legacy) {after first last : List Char}
    {token : Token}
    {lexed : ∀ side, Lexed (cut.place before after side)} (split : before ++ after = cut.front)
    (read : ∀ side, (cut.place before after side).next = .ok (lexed side))
    (tokens : ∀ side, (lexed side).token = token) (whole : first ++ last = cut.front)
    (stands : ∀ side, (lexed side).after = cut.place first last side)
    {reading : Reading (Passage × Legacy) (cut.place before after .whole).size}
    (given : outer passage legacy (lexed .whole) = .ok (some reading)) :
    (∃ error, outer other declared (lexed .front) = .error error ∧ cut.IsReported error) ∨
    (token.kind ≠ .leftBrace ∧ reading.rest.size < cut.back.length) ∨
    ∃ shown, outer other declared (lexed .front) = .ok (some shown) ∧
      ∃ first last, first ++ last = cut.front ∧ reading.rest = cut.place first last .whole ∧
        shown.rest = cut.place first last .front := by
  have kinds : ∀ side, (lexed side).token.kind = token.kind := fun side => by rw [tokens]
  by_cases brace : token.kind = .leftBrace
  · obtain ⟨part, ends, parts⟩ := outer_block passage legacy ((kinds .whole).trans brace)
    obtain ⟨inFront, behind, shows⟩ := outer_block other declared ((kinds .front).trans brace)
    obtain ⟨inner, inside, same⟩ := exists_of_map_eq_ok (parts.symm.trans given)
    cases same
    obtain ⟨front, later, split, starts, stands⟩ :=
      exists_brace split read tokens whole stands brace
    rcases block_front _ split starts stands inside with
      ⟨error, fails, reported⟩ | ⟨found, shown, ended⟩
    · exact .inl ⟨error, by rw [shows, fails]; rfl, reported⟩
    · refine .inr (.inr ⟨inFront found, by rw [shows, shown]; rfl, ?_⟩)
      rw [ends, behind]
      exact ended
  by_cases brackets : token.kind = .doubleLeftBracket
  · obtain ⟨part, ends, parts⟩ := outer_verbatim passage legacy ((kinds .whole).trans brackets)
    obtain ⟨inFront, behind, shows⟩ := outer_verbatim other declared ((kinds .front).trans brackets)
    obtain ⟨inner, content, same⟩ := exists_of_map_eq_ok (parts.symm.trans given)
    cases same
    rw [ends]
    by_cases inside : cut.back.length ≤ inner.rest.size
    · obtain ⟨found, shown, ended⟩ :=
        verbatim_front (fun side => (lexed side).token.start) whole stands content inside
      refine .inr (.inr ⟨inFront found, by rw [shows, shown]; rfl, ?_⟩)
      rw [behind]
      exact ended
    · exact .inr (.inl ⟨brace, Nat.not_le.1 inside⟩)
  · have noBlock : ∀ side, (lexed side).token.kind ≠ .leftBrace := fun side => by rwa [kinds]
    have noVerbatim : ∀ side, (lexed side).token.kind ≠ .doubleLeftBracket := fun side => by
      rwa [kinds]
    have other := outer_token other declared (noBlock .front) (noVerbatim .front)
    rcases outer_token passage legacy (noBlock .whole) (noVerbatim .whole) with
      ⟨-, atEnd⟩ | ⟨⟨_, fails⟩, -⟩ | ⟨⟨more, noBrace⟩, part, read, ends⟩
    · cases given.symm.trans atEnd
    · cases given.symm.trans fails
    · cases given.symm.trans read
      rw [kinds] at more noBrace
      rcases other with ⟨atEnd, -⟩ | ⟨-, closes⟩ | ⟨-, shown, shows, behind⟩
      · exact absurd ((kinds _).symm.trans atEnd) more
      · exact absurd ((kinds _).symm.trans closes) noBrace
      · exact .inr (.inr ⟨shown, shows, first, last, whole, ends.trans (stands _),
          behind.trans (stands _)⟩)

/-- If something has the cut inside, the front cannot be read from any place in front of it on. -/
theorem reported_of_inside {other : Passage} {declared : Legacy}
    (split : before ++ later = cut.front) {value : List Node × Legacy}
    (read : outerNodes passage legacy (cut.place before later .whole) = .ok value)
    (clear : ∀ span ∈ passage.spans, ¬ cut.Inside span)
    (inside : ∃ span ∈ value.1.filterMap Node.span?, cut.Inside span) :
    ∃ error, outerNodes other declared (cut.place before later .front) = .error error ∧
      cut.IsReported error := by
  generalize length : later.length = limit
  induction limit using Nat.strongRecOn generalizing before later passage legacy other declared with
  | ind limit ih =>
    subst length
    have isIn : (cut.place before later .whole).In (cut.front ++ cut.back) :=
      ⟨before, by simp [place, tail, ← split], rfl⟩
    obtain ⟨span, member, crosses⟩ := inside
    obtain ⟨first, next⟩ : ∃ lexed, (cut.place before later .whole).next = .ok lexed := by
      rw [outerNodes_eq] at read
      cases next : (cut.place before later .whole).next with
      | error error =>
        rw [next] at read
        cases read
      | ok lexed => exact ⟨lexed, rfl⟩
    have within : ¬ first.after.size < cut.back.length := fun less =>
      not_inside_across isIn clear next less value read span member crosses
    cases reaches cut before later with
    | across beyond => exact absurd (beyond first next) within
    | comment rest same beyond =>
      subst same
      obtain ⟨_, -, -, less⟩ := next_whole_comment beyond next
      exact absurd less within
    | token token passed rest whole takes =>
      choose lexed next isToken isAfter using takes
      have ahead : before ++ passed ++ rest = cut.front := by
        rw [List.append_assoc, ← whole, split]
      rw [outerNodes_eq, next .whole] at read
      rw [outerNodes_eq, next .front]
      dsimp only [bind, Except.bind] at read ⊢
      cases parts : outer passage legacy (lexed .whole) with
      | error error =>
        rw [parts] at read
        cases read
      | ok found =>
        rw [parts] at read
        have made := yields_outer isIn (next .whole) found parts
        cases found with
        | none =>
          cases read
          exact absurd crosses (clear span (Passage.mem_close.1 member))
        | some reading =>
          obtain ⟨readingIn, -, spans⟩ := made reading rfl
          rcases outer_front other declared split next isToken ahead isAfter parts with
            ⟨error, fails, reported⟩ | ⟨noBlock, behind⟩ |
              ⟨shown, shows, first, last, joined, ends, stops⟩
          · rw [fails]
            exact ⟨error, rfl, reported⟩
          · refine absurd crosses (not_inside_behind readingIn (fun span member => ?_) behind value
              read span member)
            rcases spans span member with old | ⟨brace, -⟩
            · exact clear span old
            · exact absurd brace (isToken .whole ▸ noBlock)
          · rw [shows]
            dsimp only at read ⊢
            have shorter : reading.rest.size < (cut.place before later .whole).size :=
              reading.size_lt
            have sizes : ∀ before later : List Char,
                (cut.place before later .whole).size = later.length + cut.back.length :=
              fun _ _ => List.length_append
            rw [stops]
            rw [ends] at read shorter
            rw [sizes, sizes] at shorter
            refine ih last.length (by omega) joined read (fun span member inside => ?_) rfl
            rcases spans span member with old | ⟨-, rfl⟩
            · exact clear span old inside
            · have stop : reading.rest.offset ≤ byteLength cut.front := by
                rw [ends, ← joined, byteLength_append]
                exact Nat.le_add_right ..
              exact absurd inside.2 (Nat.not_lt.2 stop)

end Fronts

/-! ## Documents -/

/-- A document is what is read of the source from its start on. -/
theorem read_eq_outerNodes (source : List Char) :
    Document.read source = (outerNodes .empty .empty (.start source)).map fun value =>
      ⟨value.1, value.2.modes, value.2.switches⟩ := by
  rw [Document.read, outerNodes]
  cases sequence none 0 .empty .empty (.start source) <;> rfl

/-- A source that is cut inside of a fork or a reference cannot be read. What is reported is open at
the cut, so that it starts in front of it, or it is reported at the last token in front of the
cut. -/
theorem read_front_of_inside (cut : Cut) {document : Document}
    (read : Document.read (cut.front ++ cut.back) = .ok document) {node : Node}
    (member : node ∈ document.nodes) {span : Span} (spans : node.span? = some span)
    (inside : cut.Inside span) : ∃ error, Document.read cut.front = .error error ∧
      (cut.IsOpen error ∧ error.offset < byteLength cut.front ∨ cut.IsLate error.offset) := by
  rw [read_eq_outerNodes] at read
  obtain ⟨value, given, rfl⟩ := exists_of_map_eq_ok read
  have whole : outerNodes .empty .empty (cut.place [] cut.front .whole) = .ok value := given
  have listed : span ∈ value.1.filterMap Node.span? :=
    List.mem_filterMap.2 ⟨node, member, spans⟩
  have nothing : ∀ span ∈ Passage.empty.spans, ¬ cut.Inside span := List.forall_mem_nil _
  obtain ⟨error, fails, reported⟩ :=
    @reported_of_inside cut [] cut.front .empty .empty .empty .empty rfl value whole nothing
      ⟨span, listed, inside⟩
  refine ⟨error, ?_, reported.imp_left fun isOpen => ⟨isOpen, isOpen.lt⟩⟩
  rw [place, tail, List.append_nil] at fails
  have start : Cursor.start cut.front = ⟨byteLength [], cut.front⟩ := rfl
  rw [read_eq_outerNodes, start, fails]
  rfl

/-- Cut inside of a choice, which is open there. -/
def inChoice : Cut := ⟨"\x7b@N: 0 -> (x".toList, ")\x7d".toList, nofun⟩

theorem read_front_of_inside_choice : ∃ document node span,
    Document.read (inChoice.front ++ inChoice.back) = .ok document ∧ node ∈ document.nodes ∧
    node.span? = some span ∧ inChoice.Inside span ∧
    ∃ error, Document.read inChoice.front = .error error ∧
      (inChoice.IsOpen error ∧ error.offset < byteLength inChoice.front ∨
        inChoice.IsLate error.offset) := by
  have read : Document.read (inChoice.front ++ inChoice.back) = .ok ⟨[.reference ⟨"N", none, false,
      [⟨0, .nodes [.text "x"]⟩], none, false, ⟨0, 14⟩⟩], [], []⟩ := by
    with_unfolding_all exact rfl
  have inside : inChoice.Inside ⟨0, 14⟩ := ⟨by decide, by decide⟩
  exact ⟨_, _, _, read, List.mem_cons_self .., rfl, inside,
    read_front_of_inside inChoice read (List.mem_cons_self ..) rfl inside⟩

/-- Cut behind the index of a mapping. -/
def behindIndex : Cut := ⟨"\x7b@N: 0".toList, " -> (x)\x7d".toList, nofun⟩

/-- Behind the index the arrow is missed at the cut, and the block is not reported to be open. -/
theorem not_isOpen_behindIndex : ∃ document node span,
    Document.read (behindIndex.front ++ behindIndex.back) = .ok document ∧
    node ∈ document.nodes ∧ node.span? = some span ∧ behindIndex.Inside span ∧
    ∃ error, Document.read behindIndex.front = .error error ∧
      error.offset = byteLength behindIndex.front ∧ ¬ behindIndex.IsOpen error := by
  have read : Document.read (behindIndex.front ++ behindIndex.back) = .ok ⟨[.reference ⟨"N", none,
      false, [⟨0, .nodes [.text "x"]⟩], none, false, ⟨0, 14⟩⟩], [], []⟩ := by
    with_unfolding_all exact rfl
  have fails : Document.read behindIndex.front =
      .error (.malformed 6 (.expectedArrow "end of input")) := by
    with_unfolding_all exact rfl
  exact ⟨_, _, _, read, List.mem_cons_self .., rfl, ⟨by decide, by decide⟩, _, fails, rfl, nofun⟩

end Cut

end BranchText
