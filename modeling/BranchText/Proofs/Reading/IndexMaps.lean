import BranchText.Proofs.Reading.Indices
import BranchText.Proofs.Reading.Spans

/-!
# Index maps

A reference maps branches to choices in groups: a list of indices, an arrow, and one choice for all
of them. The indices are added in the order in which they are written, over the borders of groups,
so the first one that repeats another is reported; without one the map has each of them.
-/

namespace BranchText

namespace Reader

/-! ## Adding indices -/

/-- Adds a mapping whose index is written at an offset. -/
def addMapping (found : List Mapping) (listed : Mapping × Nat) : Except ReadError (List Mapping) :=
  if found.any (·.branch = listed.1.branch) then
    .error (.duplicateBranch listed.1.branch listed.2)
  else .ok (insertMapping listed.1 found)

/-- The indices of a group are added one by one. -/
theorem addMappings_eq (choice : Choice) (indices : List (Nat × Nat)) (found : List Mapping) :
    addMappings choice indices found =
      (indices.map fun index => (⟨index.1, choice⟩, index.2)).foldlM addMapping found := by
  induction indices generalizing found with
  | nil => rfl
  | cons index rest ih =>
    obtain ⟨branch, offset⟩ := index
    rw [addMappings, List.map_cons, List.foldlM_cons, addMapping]
    split
    · rfl
    · exact ih _

/-- The mappings are in order, each for another branch. -/
def Ascending (mappings : List Mapping) : Prop := mappings.Pairwise (·.branch < ·.branch)

theorem Ascending.insertMapping {mapping : Mapping} {found : List Mapping}
    (ascending : Ascending found) (fresh : mapping.branch ∉ found.map (·.branch)) :
    Ascending (insertMapping mapping found) := by
  induction found with
  | nil => exact List.pairwise_singleton _ _
  | cons other rest ih =>
    obtain ⟨above, ascending⟩ := List.pairwise_cons.1 ascending
    rw [List.map_cons, List.mem_cons, not_or] at fresh
    rw [Reader.insertMapping]
    split
    · rename_i below
      refine List.pairwise_cons.2 ⟨?_, List.pairwise_cons.2 ⟨above, ascending⟩⟩
      rintro later (_ | ⟨_, member⟩)
      · exact below
      · exact Nat.lt_trans below (above later member)
    · refine List.pairwise_cons.2 ⟨fun later member => ?_, ih ascending fresh.2⟩
      rcases mem_insertMapping member with rfl | member
      · omega
      · exact above later member

variable {listed : List (Mapping × Nat)} {found : List Mapping}

/-- Mappings of different branches are all added. -/
theorem exists_foldlM_addMapping (ascending : Ascending found)
    (fresh : ((found ++ listed.map Prod.fst).map (·.branch)).Nodup) :
    ∃ mapped, listed.foldlM addMapping found = .ok mapped ∧ Ascending mapped ∧
      mapped.Perm (found ++ listed.map Prod.fst) := by
  induction listed generalizing found with
  | nil => exact ⟨found, rfl, ascending, by simp⟩
  | cons entry rest ih =>
    obtain ⟨mapping, offset⟩ := entry
    have unmapped : mapping.branch ∉ found.map (·.branch) := by
      rw [List.map_append, List.nodup_append] at fresh
      exact fun member => fresh.2.2 _ member _ (List.mem_cons_self ..) rfl
    have moved : (insertMapping mapping found ++ rest.map Prod.fst).Perm
        (found ++ mapping :: rest.map Prod.fst) :=
      ((perm_insertMapping mapping found).append_right _).trans List.perm_middle.symm
    obtain ⟨mapped, read, inOrder, same⟩ := ih (ascending.insertMapping unmapped)
      ((moved.map _).nodup_iff.2 fresh)
    refine ⟨mapped, ?_, inOrder, same.trans moved⟩
    have once : addMapping found (mapping, offset) = .ok (insertMapping mapping found) :=
      if_neg (by simpa using unmapped)
    rw [List.foldlM_cons, once]
    exact read

/-- The first mapping of a branch that another one in front of it has is reported. -/
theorem foldlM_addMapping_repeated {mapping : Mapping} {offset : Nat} {later : List (Mapping × Nat)}
    (fresh : (listed.map (·.1.branch)).Nodup) (again : mapping.branch ∈ listed.map (·.1.branch)) :
    (listed ++ (mapping, offset) :: later).foldlM addMapping [] =
      .error (.duplicateBranch mapping.branch offset) := by
  obtain ⟨mapped, read, -, same⟩ := @exists_foldlM_addMapping listed [] .nil
    (by simpa [Function.comp_def] using fresh)
  have repeated : mapped.any (·.branch = mapping.branch) = true := by
    have member := ((same.map (·.branch)).mem_iff).2 (by simpa using again)
    simpa using member
  rw [List.foldlM_append, read]
  dsimp only [bind, Except.bind]
  rw [List.foldlM_cons, addMapping, if_pos repeated]
  rfl

end Reader

/-- Where a key is repeated there is a first entry with the key of another one in front of it. -/
theorem exists_first_repetition {α κ : Type} {key : α → κ} {listed : List α}
    (repeats : ¬ (listed.map key).Nodup) :
    ∃ earlier again later, listed = earlier ++ again :: later ∧ (earlier.map key).Nodup ∧
      key again ∈ earlier.map key := by
  induction listed using List.reverseRecOn with
  | nil => exact absurd List.nodup_nil repeats
  | append_singleton front last ih =>
    by_cases fresh : (front.map key).Nodup
    · refine ⟨front, last, [], rfl, fresh, ?_⟩
      by_contra new
      rw [List.map_append] at repeats
      refine repeats (List.nodup_append.2 ⟨fresh, List.nodup_singleton _, ?_⟩)
      intro other member twin isLast same
      exact new (List.mem_singleton.1 isLast ▸ same ▸ member)
    · obtain ⟨earlier, again, later, rfl, rest⟩ := ih fresh
      exact ⟨earlier, again, later ++ [last], by simp, rest⟩

/-! ## Mappings -/

namespace Reader

open Cursor

/-- From one place to another a group is read, before it is added. -/
def GetsGroup (cursor : Cursor) (indices : List (Nat × Nat)) (chosen : Choice × Legacy)
    (closed : Cursor) : Prop :=
  ∃ start number after arrowed place, Gets skipTrivia cursor () start ∧
    start.Takes number after ∧ number.kind = .number ∧ Gets indexList start indices arrowed ∧
    Gets skipTrivia arrowed () place ∧ Gets choice place chosen closed

section Mappings

variable {opening : Nat} {first : Bool} {found : List Mapping} {legacy : Legacy}
  {cursor closed last : Cursor} {indices : List (Nat × Nat)} {chosen : Choice × Legacy}
  (group : GetsGroup cursor indices chosen closed)
include group

variable {mark : Token} {behindMark : Cursor} (trail : Gets skipTrivia closed () last)
  (separator : last.Takes mark behindMark)
include trail separator

/-- The last group is added, and the reference is closed. -/
theorem answers_mappings_last (isBrace : mark.kind = .rightBrace) :
    Answers (mappings opening first found none legacy) cursor (addMappings chosen.1 indices found)
      (fun mapped => (mapped, none, legacy ++ chosen.2)) last := by
  obtain ⟨start, _, _, arrowed, place, ⟨shorterStart, skipped⟩, ⟨lexed, next, rfl, rfl⟩, numeric,
    ⟨shorterList, listed⟩, ⟨shorterLead, skippedLead⟩, ⟨shorterChoice, read⟩⟩ := group
  obtain ⟨shorterLast, skippedTrail⟩ := trail
  obtain ⟨separator, nextMark, rfl, rfl⟩ := separator
  dsimp only at shorterStart shorterList shorterLead shorterChoice shorterLast
  cases added : addMappings chosen.1 indices found with
  | error error =>
    rw [Answers, mappings]
    simp [skipped, next, numeric, listed, skippedLead, read, added, bind, Except.bind]
  | ok mapped =>
    refine ⟨by dsimp only; omega, ?_⟩
    rw [mappings]
    simp [skipped, next, numeric, listed, skippedLead, read, added, skippedTrail, nextMark, isBrace,
      bind, Except.bind, pure, Except.pure]

/-- A group in front of a comma is added, and then those behind it are. -/
theorem answers_mappings_comma (isComma : mark.kind = .comma) {β : Type}
    {others : List Mapping → Except ReadError β}
    {value : β → List Mapping × Option Choice × Legacy} {stop : Cursor}
    (goesOn : ∀ mapped, Answers (mappings opening false mapped none (legacy ++ chosen.2))
      behindMark (others mapped) value stop) :
    Answers (mappings opening first found none legacy) cursor
      (addMappings chosen.1 indices found >>= others) value stop := by
  obtain ⟨start, _, _, arrowed, place, ⟨shorterStart, skipped⟩, ⟨lexed, next, rfl, rfl⟩, numeric,
    ⟨shorterList, listed⟩, ⟨shorterLead, skippedLead⟩, ⟨shorterChoice, read⟩⟩ := group
  obtain ⟨shorterLast, skippedTrail⟩ := trail
  obtain ⟨separator, nextMark, rfl, rfl⟩ := separator
  have separatorLe := separator.size_le
  dsimp only at shorterStart shorterList shorterLead shorterChoice shorterLast
  cases added : addMappings chosen.1 indices found with
  | error error =>
    simp only [bind, Except.bind, Answers]
    rw [mappings]
    simp [skipped, next, numeric, listed, skippedLead, read, added, bind, Except.bind]
  | ok mapped =>
    specialize goesOn mapped
    simp only [bind, Except.bind]
    cases result : others mapped with
    | error error =>
      have fails : mappings opening false mapped none (legacy ++ chosen.2) separator.after =
          .error error := by rwa [result] at goesOn
      rw [Answers, mappings]
      simp [skipped, next, numeric, listed, skippedLead, read, added, skippedTrail, nextMark,
        isComma, fails, bind, Except.bind, pure, Except.pure]
    | ok answer =>
      rw [result] at goesOn
      obtain ⟨shorterStop, readOthers⟩ := goesOn
      dsimp only at shorterStop
      refine ⟨by dsimp only; omega, ?_⟩
      rw [mappings]
      simp [skipped, next, numeric, listed, skippedLead, read, added, skippedTrail, nextMark,
        isComma, readOthers, bind, Except.bind, pure, Except.pure]

end Mappings

end Reader

namespace WrittenGroup

open Reader Cursor

variable (group : WrittenGroup)

/-- What is read where the choice of a group stands in a source: the same as of the choice alone. -/
def IsRead (source : List Char) (group : List Char × WrittenGroup) (chosen : Choice × Legacy) :
    Prop :=
  (∃ rest, source = group.1 ++ group.2.front ++ group.2.choice ++ rest ∧
    Gets Reader.choice (behind (group.1 ++ group.2.front) (group.2.choice ++ rest)) chosen
      (behind (group.1 ++ group.2.front ++ group.2.choice) rest)) ∧
  ∃ alone, Reader.choice (.start group.2.choice) = .ok alone ∧ alone.rest.rest = [] ∧
    chosen.1.withoutSpans = alone.value.1.withoutSpans

/-- The mappings of groups with their choices, each with the offset of its index. -/
def listed (groups : List (List Char × WrittenGroup)) (chosen : List (Choice × Legacy)) :
    List (Mapping × Nat) :=
  (groups.zip chosen).flatMap fun group =>
    (WrittenIndex.places group.1.1 group.1.2.indices).map fun place =>
      (⟨place.1, group.2.1⟩, place.2)

/-- The mappings of a group are added in front of those of the groups behind it. -/
theorem foldlM_listed_cons (front : List Char) (groups : List (List Char × WrittenGroup))
    (chosen : Choice × Legacy) (others : List (Choice × Legacy)) (found : List Mapping) :
    (listed ((front, group) :: groups) (chosen :: others)).foldlM addMapping found =
      addMappings chosen.1 (WrittenIndex.places front group.indices) found >>=
        (listed groups others).foldlM addMapping := by
  rw [addMappings_eq, ← List.foldlM_append]
  rfl

theorem exists_isRead (front : List Char) {rest : List Char} (more : rest ≠ []) :
    ∃ chosen, IsRead (front ++ group.front ++ group.choice ++ rest) (front, group) chosen := by
  obtain ⟨alone, read, spent⟩ := group.byItself
  obtain ⟨chosen, gets, same⟩ := exists_gets_choice read spent more (front ++ group.front)
  exact ⟨chosen, ⟨rest, rfl, gets⟩, alone, read, spent, same⟩

theorem further_cons (others : List WrittenGroup) (rest : List Char) :
    further (group :: others) ++ rest = ',' :: (group.text ++ (further others ++ rest)) := by
  simp [further]

theorem text_append (rest : List Char) :
    group.text ++ rest = group.first.before ++ (group.first.digits ++ (group.first.after ++
      (WrittenIndex.further group.others ++ (['-', '>'] ++
        (group.lead ++ (group.choice ++ (group.trail ++ rest))))))) := by
  simp [text, WrittenGroup.front, WrittenIndex.text]

/-- A written group is read up to behind its choice. -/
theorem getsGroup {front rest : List Char} {chosen : Choice × Legacy}
    (chooses : Gets Reader.choice
      (behind (front ++ group.front) (group.choice ++ (group.trail ++ rest))) chosen
      (behind (front ++ group.front ++ group.choice) (group.trail ++ rest))) :
    GetsGroup (behind front (group.text ++ rest)) (WrittenIndex.places front group.indices) chosen
      (behind (front ++ group.front ++ group.choice) (group.trail ++ rest)) := by
  have digits := group.first.takes_index group.others (front ++ group.first.before)
    (group.lead ++ (group.choice ++ (group.trail ++ rest)))
  have list := group.first.gets_indexList group.others front
    (group.lead ++ (group.choice ++ (group.trail ++ rest)))
  have opens := takes_mark (show ('(', TokenKind.leftParen) ∈ marks by decide)
    (front ++ group.first.text ++ WrittenIndex.further group.others ++ ['-', '>'] ++ group.lead)
    (group.body ++ (group.trail ++ rest))
  have lead := gets_skipTrivia group.lead_isGap opens rfl
  rw [text_append]
  refine ⟨_, _, _, _, _, gets_skipTrivia group.first.before_isGap digits rfl, digits, rfl, list,
    lead, ?_⟩
  simpa [WrittenGroup.front, WrittenGroup.choice] using chooses

/-- Groups up to the brace behind them are read for the choices that stand in them, and their
indices are added in order. -/
theorem exists_answers_mappings (opening : Nat) (others : List WrittenGroup)
    (front rest : List Char) :
    ∃ chosen, List.Forall₂ (IsRead (front ++ group.text ++ further others ++ '}' :: rest))
        (placed front (group :: others)) chosen ∧
      ∀ first found legacy, Answers (mappings opening first found none legacy)
        (behind front (group.text ++ (further others ++ '}' :: rest)))
        ((listed (placed front (group :: others)) chosen).foldlM addMapping found)
        (fun mapped => (mapped, none, chosen.foldl (fun legacy read => legacy ++ read.2) legacy))
        (behind (front ++ group.text ++ further others) ('}' :: rest)) := by
  induction others generalizing group front with
  | nil =>
    obtain ⟨chosen, ⟨_, split, gets⟩, alone⟩ :=
      group.exists_isRead front (show group.trail ++ '}' :: rest ≠ [] by simp)
    obtain rfl := List.append_cancel_left split
    have read := group.getsGroup gets
    have closes := takes_mark (show ('}', TokenKind.rightBrace) ∈ marks by decide)
      (front ++ group.front ++ group.choice ++ group.trail) rest
    refine ⟨[chosen], .cons ⟨⟨_, by simp [text, further], gets⟩, alone⟩ .nil, ?_⟩
    intro first found legacy
    have last : Answers (mappings opening first found none legacy) _ _ _ _ :=
      answers_mappings_last read (gets_skipTrivia group.trail_isGap closes rfl) closes rfl
    rw [placed, placed, foldlM_listed_cons]
    simpa [text, further, listed] using last
  | cons second others ih =>
    obtain ⟨chosen, ⟨_, split, gets⟩, alone⟩ := group.exists_isRead front
      (show group.trail ++ ',' :: (second.text ++ (further others ++ '}' :: rest)) ≠ [] by simp)
    obtain rfl := List.append_cancel_left split
    have read := group.getsGroup gets
    have comma := takes_mark (show (',', TokenKind.comma) ∈ marks by decide)
      (front ++ group.front ++ group.choice ++ group.trail)
      (second.text ++ (further others ++ '}' :: rest))
    have trail := gets_skipTrivia group.trail_isGap comma rfl
    obtain ⟨later, areRead, answers⟩ := ih second (front ++ group.text ++ [','])
    refine ⟨chosen :: later, .cons ⟨⟨_, by simp [text, further], gets⟩, alone⟩ ?_, ?_⟩
    · simpa [further] using areRead
    intro first found legacy
    have stands : front ++ group.front ++ group.choice ++ group.trail = front ++ group.text := by
      simp [text]
    rw [stands] at comma trail
    have all : Answers (mappings opening first found none legacy) _ _ _ _ :=
      answers_mappings_comma read trail comma rfl
        fun mapped => answers false mapped (legacy ++ chosen.2)
    rw [placed, foldlM_listed_cons, further_cons]
    simpa [further] using all

end WrittenGroup

/-! ## The reference -/

namespace Reader

open Cursor

section Enclosing

variable {β : Type} {computed : Except ReadError β} {opening : Nat} {name : String}
  {mapping : β → List Mapping × Option Choice × Legacy} {cursor stop : Cursor}

/-- A reference with mappings is read for them, up to its brace. -/
theorem answers_reference {start word trimmed after last : Cursor} {mark : Token}
    (skip : Gets skipBlanks cursor () start) (target : Gets identifier start name word)
    (trim : Gets skipTrivia word () trimmed) (colon : trimmed.Takes mark after)
    (isColon : mark.kind = .colon)
    (mapped : Answers (mappings opening true [] none .empty) after computed mapping last)
    (close : Gets (closingBrace opening) last () stop) :
    Answers (reference opening none false false) cursor computed
      (fun found => (⟨name, none, false, (mapping found).1, (mapping found).2.1, false,
        ⟨opening, stop.offset⟩⟩, (mapping found).2.2)) stop := by
  obtain ⟨shorterStart, skipped⟩ := skip
  obtain ⟨shorterWord, read⟩ := target
  obtain ⟨shorterTrimmed, trimmedWord⟩ := trim
  obtain ⟨lexed, next, rfl, rfl⟩ := colon
  obtain ⟨shorterStop, closed⟩ := close
  have lexedLe := lexed.size_le
  dsimp only at shorterStart shorterWord shorterTrimmed shorterStop
  cases computed with
  | error error =>
    have fails : mappings opening true [] none .empty lexed.after = .error error := mapped
    rw [Answers, reference]
    simp [skipped, read, trimmedWord, next, isColon, fails, bind, Except.bind]
  | ok found =>
    obtain ⟨shorterLast, readMapped⟩ := mapped
    dsimp only at shorterLast
    refine ⟨by dsimp only; omega, ?_⟩
    rw [reference]
    simp [skipped, read, trimmedWord, next, isColon, readMapped, closed, bind, Except.bind, pure,
      Except.pure]

/-- A block that starts with an at sign is a reference. -/
theorem answers_block {after : Cursor} {sign : Token} (takes : cursor.Takes sign after)
    (isAt : sign.kind = .at) {value : β → Reference × Legacy}
    (refers : Answers (reference opening none false false) after computed value stop) :
    Answers (block opening) cursor computed
      (fun found => (some (.reference (value found).1), (value found).2)) stop := by
  obtain ⟨shorterStart, skipped⟩ := gets_skipTrivia_nil takes (by rw [isAt]; rfl)
  obtain ⟨lexed, next, rfl, rfl⟩ := takes
  have noFlag : flags ⟨false, false⟩ cursor = .ok ⟨⟨false, false⟩, cursor, Nat.lt_succ_self _⟩ := by
    unfold flags
    rw [next]
    simp only
    split
    · rfl
    · rename_i marked
      simp [isAt] at marked
  have noName : label opening cursor = .ok ⟨none, cursor, Nat.lt_succ_self _⟩ := by
    have other : isIdentifierToken lexed.token = false := by
      simp [isIdentifierToken, isAt, TokenKind.isKeyword]
    simp [label, next, other, bind, Except.bind, pure, Except.pure]
  have lexedLt := lexed.size_lt (by rw [isAt]; decide)
  cases computed with
  | error error =>
    have fails : reference opening none false false lexed.after = .error error := refers
    rw [Answers, block]
    simp [skipped, noFlag, noName, next, isAt, fails, bind, Except.bind, pure, Except.pure]
  | ok found =>
    obtain ⟨shorterStop, read⟩ := refers
    dsimp only at shorterStop
    refine ⟨by dsimp only; omega, ?_⟩
    rw [block]
    simp [skipped, noFlag, noName, next, isAt, read, bind, Except.bind, pure, Except.pure]

end Enclosing

end Reader

/-- At the end of the text what was read is closed. -/
theorem Reader.gets_sequence_end (passage : Passage) (legacy : Legacy) (front : List Char) :
    Gets (sequence none 0 passage legacy) (.behind front []) (passage.close, legacy)
      (.behind front []) := by
  obtain ⟨lexed, next, isToken, isAfter⟩ :=
    Cursor.takes_end (show (Cursor.behind front []).rest = [] from rfl)
  have kind : lexed.token.kind = .endOfText := by rw [isToken]; rfl
  unfold Gets
  rw [sequence]
  simp [next, kind, isAfter, allClosed, bind, Except.bind, pure, Except.pure]

/-- A source that is one block is read as the node of the block. -/
theorem Document.read_of_answers {β : Type} {computed : Except ReadError β} {inside : List Char}
    {node : β → Node} {legacy : β → Legacy}
    (blocks : Answers (Reader.block 0) (.behind ['{'] inside) computed
      (fun found => (some (node found), legacy found)) (.behind ('{' :: inside) [])) :
    Document.read ('{' :: inside) = computed.map fun found =>
      ⟨[node found], (legacy found).modes, (legacy found).switches⟩ := by
  obtain ⟨⟨token, after, sizeLe, sizeLt⟩, next, isToken, isAfter⟩ :=
    Cursor.takes_mark (show ('{', TokenKind.leftBrace) ∈ Cursor.marks by decide) [] inside
  subst isToken isAfter
  have next : (Cursor.start ('{' :: inside)).next = .ok _ := next
  cases computed with
  | error error =>
    have fails : Reader.block 0 (.behind ['{'] inside) = .error error := blocks
    rw [Document.read, Reader.sequence]
    simp [next, fails, bind, Except.bind, Except.map]
  | ok found =>
    obtain ⟨shorter, read⟩ := blocks
    obtain ⟨shorterEnd, ends⟩ : Gets (Reader.sequence none 0 (Passage.empty.addBlock (node found))
        (.empty ++ legacy found)) _ ([node found], legacy found) _ :=
      Reader.gets_sequence_end _ _ ('{' :: inside)
    rw [Document.read, Reader.sequence]
    simp [next, read, ends, bind, Except.bind, Except.map, pure, Except.pure]

namespace WrittenGroup

variable {groups : List (List Char × WrittenGroup)} {chosen : List (Choice × Legacy)}

/-- Every index of every group with the choice of the group. -/
def mappings (groups : List (List Char × WrittenGroup)) (chosen : List (Choice × Legacy)) :
    List Mapping :=
  (groups.zip chosen).flatMap fun group =>
    group.1.2.indices.map fun index => ⟨index.value, group.2.1⟩

theorem map_listed (groups : List (List Char × WrittenGroup)) (chosen : List (Choice × Legacy)) :
    (listed groups chosen).map Prod.fst = mappings groups chosen := by
  rw [listed, mappings, List.map_flatMap]
  congr 1
  funext group
  rw [List.map_map]
  exact WrittenIndex.map_places (fun index => Mapping.mk index group.2.1) _ _

/-- What is added is what is written, in order. -/
theorem places_of_listed {source : List Char}
    (areRead : List.Forall₂ (IsRead source) groups chosen) :
    (listed groups chosen).map (fun entry => (entry.1.branch, entry.2)) =
      groups.flatMap fun group => WrittenIndex.places group.1 group.2.indices := by
  induction areRead with
  | nil => rfl
  | cons _ _ ih =>
    rw [List.flatMap_cons, ← ih]
    simp [listed, Function.comp_def]

end WrittenGroup

namespace WrittenReference

open Reader Cursor

/-- A written reference is read for the choices that stand in it, and fails only where adding its
indices does. -/
theorem exists_read (written : WrittenReference) : ∃ chosen,
    List.Forall₂ (WrittenGroup.IsRead written.source) written.placed chosen ∧
    Document.read written.source =
      ((WrittenGroup.listed written.placed chosen).foldlM Reader.addMapping []).map fun mapped =>
        ⟨[.reference ⟨written.name, none, false, mapped, none, false,
          ⟨0, byteLength written.source⟩⟩],
          (chosen.foldl (fun legacy read => legacy ++ read.2) Legacy.empty).modes,
          (chosen.foldl (fun legacy read => legacy ++ read.2) Legacy.empty).switches⟩ := by
  obtain ⟨chosen, areRead, answers⟩ :=
    written.first.exists_answers_mappings 0 written.others written.front []
  refine ⟨chosen, areRead, ?_⟩
  let groups := written.first.text ++ (WrittenGroup.further written.others ++ ['}'])
  have source : written.source = '{' :: '@' :: (written.name.toList ++ ':' :: groups) := by
    simp [source, front, groups]
  have sign := takes_mark (show ('@', TokenKind.at) ∈ marks by decide) ['{']
    (written.name.toList ++ ':' :: groups)
  have colon := takes_mark (show (':', TokenKind.colon) ∈ marks by decide)
    (['{', '@'] ++ written.name.toList) groups
  have refers := answers_reference (gets_skipBlanks written.isIdentifier ['{', '@'] groups)
    (gets_identifier written.isIdentifier ['{', '@'] groups) (gets_skipTrivia_nil colon rfl) colon
    rfl (answers true [] .empty) (gets_closingBrace 0 _ [])
  have blocks := answers_block sign rfl refers
  have whole : written.front ++ written.first.text ++ WrittenGroup.further written.others ++ ['}'] =
      written.source := rfl
  rw [whole, source] at blocks
  rw [source]
  exact Document.read_of_answers blocks

/-- The place is the first one with an index that another place in front of it has. -/
def IsFirstRepetition (places : List (Nat × Nat)) (place : Nat × Nat) : Prop :=
  ∃ earlier later, places = earlier ++ place :: later ∧ (earlier.map Prod.fst).Nodup ∧
    place.1 ∈ earlier.map Prod.fst

/-- Where an index is repeated in a written reference, the first one that repeats another is
reported where it stands. Otherwise the reference maps exactly the written indices, in order, each
to what is read where the choice of its group stands. -/
theorem read_source (written : WrittenReference) :
    (¬ (written.places.map Prod.fst).Nodup → ∃ place, IsFirstRepetition written.places place ∧
      Document.read written.source = .error (.duplicateBranch place.1 place.2)) ∧
    ((written.places.map Prod.fst).Nodup → ∃ document mapped chosen,
      Document.read written.source = .ok document ∧
        document.nodes = [.reference ⟨written.name, none, false, mapped, none, false,
          ⟨0, byteLength written.source⟩⟩] ∧
        List.Forall₂ (WrittenGroup.IsRead written.source) written.placed chosen ∧
        Ascending mapped ∧ mapped.Perm (WrittenGroup.mappings written.placed chosen)) := by
  obtain ⟨chosen, areRead, read⟩ := written.exists_read
  have places : _ = written.places := WrittenGroup.places_of_listed areRead
  have branches : written.places.map Prod.fst =
      (WrittenGroup.listed written.placed chosen).map (·.1.branch) := by
    rw [← places, List.map_map]
    rfl
  rw [branches]
  constructor
  · intro repeats
    obtain ⟨earlier, ⟨mapping, offset⟩, later, split, fresh, again⟩ :=
      exists_first_repetition repeats
    refine ⟨(mapping.branch, offset), ⟨earlier.map fun entry => (entry.1.branch, entry.2),
      later.map fun entry => (entry.1.branch, entry.2), ?_, ?_, ?_⟩, ?_⟩
    · rw [← places, split, List.map_append, List.map_cons]
    · simpa [Function.comp_def] using fresh
    · simpa using again
    · rw [read, split, foldlM_addMapping_repeated fresh again]
      rfl
  · intro fresh
    obtain ⟨mapped, added, ascending, same⟩ :=
      @exists_foldlM_addMapping (WrittenGroup.listed written.placed chosen) [] .nil
        (by simpa [Function.comp_def] using fresh)
    rw [List.nil_append, WrittenGroup.map_listed] at same
    exact ⟨_, mapped, chosen, by rw [read, added]; rfl, rfl, areRead, ascending, same⟩

/-- The last index of `{@N: 1, 2 -> (x), 01 -> (y)}` is the first one again. -/
def repeating : WrittenReference where
  name := "N"
  first :=
    { first := ⟨[' '], ['1'], [], rfl, rfl, by decide, List.all_eq_true.1 rfl, by decide⟩
      others := [⟨[' '], ['2'], [' '], rfl, rfl, by decide, List.all_eq_true.1 rfl, by decide⟩]
      lead := [' ']
      body := ['x', ')']
      trail := []
      lead_isGap := rfl
      trail_isGap := rfl
      byItself := ⟨_, by with_unfolding_all exact rfl, rfl⟩ }
  others :=
    [{ first := ⟨[' '], ['0', '1'], [' '], rfl, rfl, by decide, List.all_eq_true.1 rfl, by decide⟩
       others := []
       lead := [' ']
       body := ['y', ')']
       trail := []
       lead_isGap := rfl
       trail_isGap := rfl
       byItself := ⟨_, by with_unfolding_all exact rfl, rfl⟩ }]
  isIdentifier := ⟨by decide, List.all_eq_true.1 (by decide +kernel)⟩

/-- The groups of `{@N: 7 -> (x), 0, 3 -> (y)}` have no index in common. -/
def distinct : WrittenReference where
  name := "N"
  first :=
    { first := ⟨[' '], ['7'], [' '], rfl, rfl, by decide, List.all_eq_true.1 rfl, by decide⟩
      others := []
      lead := [' ']
      body := ['x', ')']
      trail := []
      lead_isGap := rfl
      trail_isGap := rfl
      byItself := ⟨_, by with_unfolding_all exact rfl, rfl⟩ }
  others :=
    [{ first := ⟨[' '], ['0'], [], rfl, rfl, by decide, List.all_eq_true.1 rfl, by decide⟩
       others := [⟨[' '], ['3'], [' '], rfl, rfl, by decide, List.all_eq_true.1 rfl, by decide⟩]
       lead := [' ']
       body := ['y', ')']
       trail := []
       lead_isGap := rfl
       trail_isGap := rfl
       byItself := ⟨_, by with_unfolding_all exact rfl, rfl⟩ }]
  isIdentifier := ⟨by decide, List.all_eq_true.1 (by decide +kernel)⟩

/-- The first reference is refused where the index is repeated, and the second one is read. -/
theorem read_source_repeating :
    (¬ (repeating.places.map Prod.fst).Nodup ∧ Document.read
      "\x7b@N: 1, 2 -> (x), 01 -> (y)\x7d".toList = .error (.duplicateBranch 1 18)) ∧
    ((distinct.places.map Prod.fst).Nodup ∧ ∃ document mapped, Document.read
      "\x7b@N: 7 -> (x), 0, 3 -> (y)\x7d".toList = .ok document ∧
        document.nodes = [.reference ⟨"N", none, false, mapped, none, false, ⟨0, 27⟩⟩] ∧
        Ascending mapped ∧ (mapped.map (·.branch)).Perm [7, 0, 3]) := by
  have places : repeating.places = [(1, 5), (2, 8), (1, 18)] := by decide
  have repeats : ¬ (repeating.places.map Prod.fst).Nodup := by
    rw [places]
    decide
  have fresh : (distinct.places.map Prod.fst).Nodup := by decide
  refine ⟨⟨repeats, ?_⟩, fresh, ?_⟩
  · obtain ⟨place, ⟨earlier, later, split, -, again⟩, read⟩ := (read_source repeating).1 repeats
    have source : repeating.source = "\x7b@N: 1, 2 -> (x), 01 -> (y)\x7d".toList := by decide
    rw [places] at split
    rw [source] at read
    match earlier, split with
    | [], _ => cases again
    | [_], split =>
      obtain ⟨⟩ := split
      exact absurd again (by decide)
    | [_, _], split =>
      obtain ⟨⟩ := split
      exact read
    | _ :: _ :: _ :: _, split => simp at split
  · obtain ⟨document, mapped, chosen, read, nodes, areRead, ascending, same⟩ :=
      (read_source distinct).2 fresh
    have source : distinct.source = "\x7b@N: 7 -> (x), 0, 3 -> (y)\x7d".toList := by decide
    rw [source] at read nodes
    refine ⟨document, mapped, read, nodes, ascending, (same.map _).trans ?_⟩
    match chosen, areRead.length_eq with
    | [first, second], _ => exact .refl _

end WrittenReference

end BranchText
