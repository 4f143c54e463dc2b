import BranchText.Proofs.Cleanup.Revisions

/-!
# Articles

The pass for articles puts words in place of words, so it revises the text
(`revised_correctArticles`), and the pieces of its result are the pieces of the text with some
articles spelled otherwise (`agreed`). An article starts with a vowel sound however it is spelled,
so that no article decides otherwise about the one before it. So a second pass changes nothing
(`correctArticles_correctArticles`), and in the result every article with only white space between
it and the next word agrees with that word (`correctArticles_agree`).
-/

namespace BranchText

namespace Cleanup

variable {alphabet : Alphabet}

/-! ## Pieces -/

namespace Piece

def isWord : Piece → Bool
  | word _ => true
  | gap _ => false

/-- A word or a gap of some characters. -/
def ofKind : Bool → List Char → Piece
  | true => word
  | false => gap

theorem ofKind_isWord (piece : Piece) : ofKind piece.isWord piece.chars = piece := by
  cases piece <;> rfl

end Piece

/-- The pieces are the words of a text and the gaps between them. -/
structure AreSplit (alphabet : Alphabet) (found : List Piece) : Prop where
  filled : ∀ piece ∈ found, piece.chars ≠ []
  sorted : ∀ piece ∈ found, ∀ c ∈ piece.chars, isWordChar alphabet c = piece.isWord
  alternate : found.IsChain fun piece next => piece.isWord ≠ next.isWord

section Pieces

variable {found : List Piece}

theorem chars_attachTo (isWord : Bool) (c : Char) (found : List Piece) :
    (Piece.attachTo isWord c found).flatMap Piece.chars = c :: found.flatMap Piece.chars := by
  fun_cases Piece.attachTo isWord c found <;> rfl

theorem chars_pieces (text : List Char) : (pieces alphabet text).flatMap Piece.chars = text := by
  induction text with
  | nil => rfl
  | cons c rest ih => rw [pieces, chars_attachTo, ih]

theorem areSplit_cons {piece : Piece} : AreSplit alphabet (piece :: found) ↔
    piece.chars ≠ [] ∧ (∀ c ∈ piece.chars, isWordChar alphabet c = piece.isWord) ∧
      (∀ next ∈ found.head?, piece.isWord ≠ next.isWord) ∧ AreSplit alphabet found := by
  constructor
  · rintro ⟨filled, sorted, alternate⟩
    obtain ⟨next, later⟩ := List.isChain_cons.1 alternate
    exact ⟨filled _ List.mem_cons_self, sorted _ List.mem_cons_self, next,
      fun _ listed => filled _ (List.mem_cons_of_mem _ listed),
      fun _ listed => sorted _ (List.mem_cons_of_mem _ listed), later⟩
  · rintro ⟨filled, sorted, next, rest⟩
    exact ⟨List.forall_mem_cons.2 ⟨filled, rest.filled⟩,
      List.forall_mem_cons.2 ⟨sorted, rest.sorted⟩, rest.alternate.cons next⟩

theorem areSplit_attachTo (split : AreSplit alphabet found) (c : Char) :
    AreSplit alphabet (Piece.attachTo (isWordChar alphabet c) c found) := by
  generalize kind : isWordChar alphabet c = isWord
  fun_cases Piece.attachTo isWord c found with
  | case1 chars rest =>
    obtain ⟨-, sorted, next, later⟩ := areSplit_cons.1 split
    exact areSplit_cons.2
      ⟨List.cons_ne_nil _ _, List.forall_mem_cons.2 ⟨kind, sorted⟩, next, later⟩
  | case2 rest other =>
    have sorted : ∀ d ∈ [c], isWordChar alphabet d = true := by simpa using kind
    refine areSplit_cons.2 ⟨List.cons_ne_nil _ _, sorted, ?_, split⟩
    rintro (chars | chars) first same
    · exact other chars _ (List.eq_cons_of_mem_head? first)
    · cases same
  | case3 chars rest =>
    obtain ⟨-, sorted, next, later⟩ := areSplit_cons.1 split
    exact areSplit_cons.2
      ⟨List.cons_ne_nil _ _, List.forall_mem_cons.2 ⟨kind, sorted⟩, next, later⟩
  | case4 rest other =>
    have sorted : ∀ d ∈ [c], isWordChar alphabet d = false := by simpa using kind
    refine areSplit_cons.2 ⟨List.cons_ne_nil _ _, sorted, ?_, split⟩
    rintro (chars | chars) first same
    · cases same
    · exact other chars _ (List.eq_cons_of_mem_head? first)

theorem areSplit_pieces (text : List Char) : AreSplit alphabet (pieces alphabet text) := by
  induction text with
  | nil => exact ⟨by simp [pieces], by simp [pieces], .nil⟩
  | cons c rest ih => exact areSplit_attachTo ih c

theorem attachTo_ofKind (isWord : Bool) (c : Char) (chars : List Char) (found : List Piece) :
    Piece.attachTo isWord c (.ofKind isWord chars :: found) =
      .ofKind isWord (c :: chars) :: found := by
  cases isWord <;> rfl

theorem attachTo_of_head {isWord : Bool} (c : Char)
    (other : ∀ next ∈ found.head?, isWord ≠ next.isWord) :
    Piece.attachTo isWord c found = .ofKind isWord [c] :: found := by
  fun_cases Piece.attachTo isWord c found with
  | case1 chars rest => exact absurd rfl (other _ rfl)
  | case2 => rfl
  | case3 chars rest => exact absurd rfl (other _ rfl)
  | case4 => rfl

/-- Characters of one kind in front of a text are one piece, unless its first piece goes on with
them. -/
theorem pieces_append {isWord : Bool} {chars text : List Char} (filled : chars ≠ [])
    (sorted : ∀ c ∈ chars, isWordChar alphabet c = isWord)
    (next : ∀ other ∈ (pieces alphabet text).head?, isWord ≠ other.isWord) :
    pieces alphabet (chars ++ text) = .ofKind isWord chars :: pieces alphabet text := by
  induction chars with
  | nil => exact absurd rfl filled
  | cons c rest ih =>
    obtain ⟨kind, later⟩ := List.forall_mem_cons.1 sorted
    rw [List.cons_append, pieces, kind]
    by_cases last : rest = []
    · rw [last, List.nil_append]
      exact attachTo_of_head c next
    · rw [ih last later, attachTo_ofKind]

theorem pieces_chars (split : AreSplit alphabet found) :
    pieces alphabet (found.flatMap Piece.chars) = found := by
  induction found with
  | nil => rfl
  | cons piece rest ih =>
    obtain ⟨filled, sorted, next, later⟩ := areSplit_cons.1 split
    have same := ih later
    rw [List.flatMap_cons, pieces_append filled sorted (by rwa [same]), same, Piece.ofKind_isWord]

end Pieces

/-! ## Spellings -/

/-- An article, with its first letter in upper or lower case. -/
def spelled (isUpper isAn : Bool) : List Char :=
  (if isUpper then 'A' else 'a') :: if isAn then ['n'] else []

section Spellings

variable {word next other : List Char} {isAn : Bool}

theorem lowerWord_of_article (article : article? alphabet word = some isAn) :
    lowerWord alphabet word = spelled false isAn := by
  simp only [article?] at article
  split at article
  · cases article
    assumption
  split at article
  · cases article
    assumption
  · cases article

/-- An article that does not agree with the word after it is spelled otherwise. -/
theorem agreeWith_of_ne (article : article? alphabet word = some isAn)
    (differs : startsWithVowelSound alphabet next ≠ isAn) :
    agreeWith alphabet word next = spelled (startsUpper alphabet word) !isAn := by
  rw [agreeWith, article]
  dsimp only
  rw [if_neg differs, Bool.eq_not_of_ne differs, spelled]
  cases isAn <;> rfl

theorem agreeWith_cases (word next : List Char) : agreeWith alphabet word next = word ∨
    ∃ isAn, article? alphabet word = some isAn ∧
      agreeWith alphabet word next = spelled (startsUpper alphabet word) !isAn ∧
      startsWithVowelSound alphabet next = !isAn := by
  cases article : article? alphabet word with
  | none => exact .inl (by rw [agreeWith, article])
  | some isAn =>
    by_cases agrees : startsWithVowelSound alphabet next = isAn
    · refine .inl ?_
      rw [agreeWith, article]
      exact if_pos agrees
    · exact .inr ⟨isAn, rfl, agreeWith_of_ne article agrees, Bool.eq_not_of_ne agrees⟩

theorem startsWithVowelSound_of_article (article : article? alphabet word = some isAn) :
    startsWithVowelSound alphabet word = true := by
  rw [startsWithVowelSound, lowerWord_of_article article]
  cases isAn <;> decide

section Usual

variable (usual : alphabet.IsUsual)

include usual

theorem article_spelled (isUpper isAn : Bool) :
    article? alphabet (spelled isUpper isAn) = some isAn := by
  have lower : lowerWord alphabet (spelled isUpper isAn) = spelled false isAn := by
    have first : alphabet.lower (if isUpper then 'A' else 'a') = ['a'] := by
      cases isUpper <;> exact usual.lower (by decide)
    have second : alphabet.lower 'n' = ['n'] := usual.lower (by decide)
    cases isAn <;> simp [lowerWord, spelled, first, second]
  rw [article?, lower]
  cases isAn <;> rfl

theorem isAlphabetic_of_isAlpha {c : Char} (letter : c.isAlpha = true) :
    alphabet.isAlphabetic c = true ∧ IsPlain alphabet c := by
  obtain ⟨above, below⟩ : 0x41 ≤ c.toNat ∧ c.toNat < 128 := by
    change (decide (c.val ≥ 'A'.val ∧ c.val ≤ 'Z'.val) ||
      decide (c.val ≥ 'a'.val) && decide (c.val ≤ 'z'.val)) = true at letter
    simp only [Bool.or_eq_true, Bool.and_eq_true, decide_eq_true_eq, ge_iff_le,
      UInt32.le_iff_toNat_le] at letter
    have toNat : c.val.toNat = c.toNat := rfl
    have bounds : 'A'.val.toNat = 65 ∧ 'Z'.val.toNat = 90 ∧ 'a'.val.toNat = 97 ∧
        'z'.val.toNat = 122 := by decide
    omega
  have letter := (usual.alphabetic below).trans letter
  exact ⟨letter, usual.visible letter, Alphabet.isPunctuation_of_le above⟩

omit usual in
theorem isAlpha_of_mem_spelled {isUpper isAn : Bool} {c : Char} (here : c ∈ spelled isUpper isAn) :
    c.isAlpha = true := by
  have each : ∀ c ∈ spelled isUpper isAn, c.isAlpha = true := by
    refine List.all_eq_true.1 ?_
    cases isUpper <;> cases isAn <;> decide
  exact each c here

theorem isWordChar_lineFeed : isWordChar alphabet '\n' = false := by
  rw [isWordChar, Alphabet.isAlphanumeric, usual.alphabetic (by decide), usual.numeric (by decide)]
  rfl

/-- An article that is spelled otherwise keeps its capital: if it has none where a sentence starts,
it had none before. -/
theorem rewords_spelled (article : article? alphabet word = some isAn)
    (within : ∀ c ∈ word, isWordChar alphabet c = true) (other : Bool) :
    Rewords alphabet word (spelled (startsUpper alphabet word) other) := by
  have lower := lowerWord_of_article article
  have each : ∀ c ∈ spelled (startsUpper alphabet word) other,
      alphabet.isAlphabetic c = true ∧ IsPlain alphabet c :=
    fun c here => isAlphabetic_of_isAlpha usual (isAlpha_of_mem_spelled here)
  have plain := fun c here => (each c here).2
  have letter := (each _ List.mem_cons_self).1
  refine ⟨?_, ?_, ⟨_, _, rfl, letter⟩, plain, fun {place} capitalized => ⟨fun start _ => ?_, ?_⟩⟩
  · rintro rfl
    cases lower
  · intro listed
    have := within _ listed
    rw [isWordChar_lineFeed usual] at this
    cases this
  · cases upper : startsUpper alphabet word with
    | true => exact usual.upper (by decide)
    | false =>
      obtain - | ⟨first, rest⟩ := word
      · cases lower
      · have same : alphabet.lower first = [first] := by simpa [startsUpper] using upper
        rw [lowerWord, List.flatMap_cons, same, List.singleton_append, spelled] at lower
        obtain ⟨rfl, -⟩ := List.cons.inj lower
        exact capitalized.1 start (usual.alphabetic (by decide))
  · rw [spelled] at plain
    obtain ⟨here, later⟩ := List.forall_mem_cons.1 plain
    rw [SentencePlace.after_letter letter here]
    exact isCapitalized_of_plain later

/-- No article has another sound when it is corrected. -/
theorem startsWithVowelSound_agreeWith (word next : List Char) :
    startsWithVowelSound alphabet (agreeWith alphabet word next) =
      startsWithVowelSound alphabet word := by
  rcases agreeWith_cases word next with same | ⟨isAn, article, same, -⟩
  · rw [same]
  · rw [same, startsWithVowelSound_of_article (article_spelled usual _ _),
      startsWithVowelSound_of_article article]

/-- A corrected article agrees with whatever has the sound of the word after it. -/
theorem agreeWith_agreeWith
    (sound : startsWithVowelSound alphabet other = startsWithVowelSound alphabet next) :
    agreeWith alphabet (agreeWith alphabet word next) other = agreeWith alphabet word next := by
  have again (word : List Char) : agreeWith alphabet word other = agreeWith alphabet word next := by
    rw [agreeWith, agreeWith, sound]
  rw [again]
  rcases agreeWith_cases word next with same | ⟨isAn, article, same, wants⟩
  · rw [same, same]
  · rw [same, agreeWith, article_spelled usual, wants]
    exact if_pos rfl

theorem revised_agreeWith (within : ∀ c ∈ word, isWordChar alphabet c = true)
    (next : List Char) : Revised alphabet false word (agreeWith alphabet word next) := by
  rcases agreeWith_cases word next with same | ⟨isAn, article, same, -⟩
  · rw [same]
    exact .refl false word
  · rw [same]
    have revised := Revised.reword (rewords_spelled usual article within !isAn)
      (Revised.refl false [])
    rwa [List.append_nil, List.append_nil] at revised

theorem isWordChar_agreeWith (within : ∀ c ∈ word, isWordChar alphabet c = true) :
    ∀ c ∈ agreeWith alphabet word next, isWordChar alphabet c = true := by
  rcases agreeWith_cases word next with same | ⟨isAn, -, same, -⟩
  · rwa [same]
  · rw [same]
    intro c here
    have letter := (isAlphabetic_of_isAlpha usual (isAlpha_of_mem_spelled here)).1
    rw [isWordChar, Alphabet.isAlphanumeric, letter]
    rfl

end Usual

end Spellings

/-! ## Agreement -/

/-- The pieces of a text with its articles corrected. -/
def agreed (alphabet : Alphabet) : List Piece → List Piece
  | .word word :: .gap gap :: .word next :: rest =>
    .word (if gap.all alphabet.isWhitespace then agreeWith alphabet word next else word) ::
      .gap gap :: agreed alphabet (.word next :: rest)
  | piece :: rest => piece :: agreed alphabet rest
  | [] => []

section Agreement

variable {found : List Piece}

theorem correctPieces_eq (found : List Piece) :
    correctPieces alphabet found = (agreed alphabet found).flatMap Piece.chars := by
  fun_induction agreed alphabet found with
  | case1 word gap next rest ih =>
    rw [correctPieces, ih, List.flatMap_cons, List.flatMap_cons, List.append_assoc]
    rfl
  | case2 piece rest other ih => rw [correctPieces, ih, List.flatMap_cons]; exact other
  | case3 => rfl

theorem map_isWord_agreed (found : List Piece) :
    (agreed alphabet found).map Piece.isWord = found.map Piece.isWord := by
  fun_induction agreed alphabet found with
  | case1 word gap next rest ih => simp [ih, Piece.isWord]
  | case2 piece rest other ih => rw [List.map_cons, ih, List.map_cons]
  | case3 => rfl

/-- The pieces are those of the text or its words corrected. -/
theorem mem_agreed {piece : Piece} (listed : piece ∈ agreed alphabet found) :
    piece ∈ found ∨ ∃ word next, .word word ∈ found ∧
      piece = .word (agreeWith alphabet word next) := by
  fun_induction agreed alphabet found with
  | case1 word gap next rest ih =>
    rcases List.mem_cons.1 listed with rfl | later
    · split
      · exact .inr ⟨word, next, List.mem_cons_self, rfl⟩
      · exact .inl List.mem_cons_self
    rcases List.mem_cons.1 later with rfl | later
    · simp
    · rcases ih later with here | ⟨word, follow, here, same⟩
      · exact .inl (List.mem_cons_of_mem _ (List.mem_cons_of_mem _ here))
      · exact .inr ⟨word, follow, List.mem_cons_of_mem _ (List.mem_cons_of_mem _ here), same⟩
  | case2 first rest other ih =>
    rcases List.mem_cons.1 listed with rfl | later
    · exact .inl List.mem_cons_self
    · rcases ih later with here | ⟨word, follow, here, same⟩
      · exact .inl (List.mem_cons_of_mem _ here)
      · exact .inr ⟨word, follow, List.mem_cons_of_mem _ here, same⟩
  | case3 => cases listed

/-- White space and a word are where they were. -/
theorem exists_of_agreed {gap next : List Char} {behind : List Piece}
    (corrected : agreed alphabet found = .gap gap :: .word next :: behind) :
    ∃ gap next behind, found = .gap gap :: .word next :: behind := by
  have kinds : (agreed alphabet found).map Piece.isWord = _ := map_isWord_agreed found
  rw [corrected] at kinds
  rcases found with - | ⟨word | gap', - | ⟨next' | gap'', behind'⟩⟩
  case cons.gap.cons.word => exact ⟨_, _, _, rfl⟩
  all_goals simp [Piece.isWord] at kinds

section Usual

variable (usual : alphabet.IsUsual)

include usual

/-- Correcting the words of a text does not change the sound that it starts with. -/
theorem agreed_word (next : List Char) (rest : List Piece) : ∃ other behind,
    agreed alphabet (.word next :: rest) = .word other :: behind ∧
      startsWithVowelSound alphabet other = startsWithVowelSound alphabet next := by
  unfold agreed
  split
  · rename_i word gap follow rest same
    cases same
    refine ⟨_, _, rfl, ?_⟩
    split
    · exact startsWithVowelSound_agreeWith usual next follow
    · rfl
  · rename_i same
    cases same
    exact ⟨next, _, rfl, rfl⟩
  · contradiction

theorem agreed_agreed (found : List Piece) :
    agreed alphabet (agreed alphabet found) = agreed alphabet found := by
  fun_induction agreed alphabet found with
  | case1 word gap next rest ih =>
    obtain ⟨other, behind, corrected, sound⟩ := agreed_word usual next rest
    rw [corrected] at ih ⊢
    rw [agreed, ih]
    split
    · rw [agreeWith_agreeWith usual sound]
    · rfl
  | case2 piece rest unmatched ih =>
    rw [agreed, ih]
    rintro word gap next behind rfl corrected
    obtain ⟨gap, next, behind, rfl⟩ := exists_of_agreed corrected
    exact unmatched _ _ _ _ rfl rfl
  | case3 => rfl

theorem revised_agreed (split : AreSplit alphabet found) : Revised alphabet false
    (found.flatMap Piece.chars) ((agreed alphabet found).flatMap Piece.chars) := by
  fun_induction agreed alphabet found with
  | case1 word gap next rest ih =>
    obtain ⟨-, within, -, behind⟩ := areSplit_cons.1 split
    obtain ⟨-, -, -, later⟩ := areSplit_cons.1 behind
    simp only [List.flatMap_cons, Piece.chars]
    refine Revised.append ?_ (.append (.refl false gap) (ih later))
    split
    · exact revised_agreeWith usual within next
    · exact .refl false word
  | case2 piece rest other ih =>
    obtain ⟨-, -, -, later⟩ := areSplit_cons.1 split
    exact .append (.refl false piece.chars) (ih later)
  | case3 => exact .nil

theorem areSplit_agreed (split : AreSplit alphabet found) :
    AreSplit alphabet (agreed alphabet found) := by
  refine ⟨fun piece listed => ?_, fun piece listed => ?_, ?_⟩
  · rcases mem_agreed listed with here | ⟨word, next, here, rfl⟩
    · exact split.filled piece here
    · have revised := revised_agreeWith usual (split.sorted _ here) next
      exact mt revised.eq_nil_iff.2 (split.filled _ here)
  · rcases mem_agreed listed with here | ⟨word, next, here, rfl⟩
    · exact split.sorted piece here
    · exact isWordChar_agreeWith usual (split.sorted _ here)
  · have alternate := (List.isChain_map Piece.isWord).2 split.alternate
    rw [← map_isWord_agreed] at alternate
    exact (List.isChain_map Piece.isWord).1 alternate

end Usual

end Agreement

/-! ## The whole pass -/

theorem correctArticles_eq (text : List Char) : correctArticles alphabet text =
    (agreed alphabet (pieces alphabet text)).flatMap Piece.chars := correctPieces_eq _

theorem revised_correctArticles (usual : alphabet.IsUsual) (text : List Char) :
    Revised alphabet false text (correctArticles alphabet text) := by
  have revised := revised_agreed usual (areSplit_pieces text)
  rwa [chars_pieces, ← correctArticles_eq] at revised

theorem correctArticles_correctArticles (usual : alphabet.IsUsual) (text : List Char) :
    correctArticles alphabet (correctArticles alphabet text) = correctArticles alphabet text := by
  rw [correctArticles_eq, correctArticles_eq,
    pieces_chars (areSplit_agreed usual (areSplit_pieces text)), agreed_agreed usual]

/-! ## What is corrected -/

/-- The word is `an`, or else `a`, in any case. -/
def IsArticle (isAn : Bool) (word : List Char) : Prop :=
  word.map Char.toLower = if isAn then ['a', 'n'] else ['a']

/-- The pieces are the words of the text and the gaps between them. -/
structure Splits (alphabet : Alphabet) (found : List Piece) (text : List Char) : Prop where
  split : AreSplit alphabet found
  chars : found.flatMap Piece.chars = text

/-- The pieces are the same, up to articles in front of white space and a word: such an article may
have become the other one, with the same first letter. -/
inductive Respelled (alphabet : Alphabet) : List Piece → List Piece → Prop where
  | nil : Respelled alphabet [] []
  | kept (piece : Piece) {found corrected : List Piece}
      (rest : Respelled alphabet found corrected) :
      Respelled alphabet (piece :: found) (piece :: corrected)
  | article {isAn : Bool} {word other gap next : List Char} {rest corrected : List Piece}
      (before : IsArticle isAn word) (after : IsArticle (!isAn) other)
      (first : other.head? = word.head?) (white : ∀ c ∈ gap, alphabet.isWhitespace c = true)
      (behind : Respelled alphabet (.gap gap :: .word next :: rest) corrected) :
      Respelled alphabet (.word word :: .gap gap :: .word next :: rest) (.word other :: corrected)

section Respelling

variable {word next gap : List Char} {isAn : Bool} {found : List Piece}

section Case

variable {c : Char}

theorem ascii_of_toLower (lower : c.toLower.toNat < 128) : c.toNat < 128 := by
  unfold Char.toLower at lower
  split at lower
  · rename_i capital
    have below : c.val.toNat ≤ 'Z'.val.toNat := capital.2
    exact Nat.lt_of_le_of_lt below (by decide)
  · exact lower

/-- No character outside ASCII has an `a` or an `n` for its lower case. -/
theorem ascii_of_latinLower (lower : ∀ d ∈ Alphabet.latinLower c, d = 'a' ∨ d = 'n') :
    c.toNat < 128 := by
  unfold Alphabet.latinLower at lower
  split at lower
  · rename_i capital
    have below : c.val.toNat ≤ 'Z'.val.toNat := capital.2
    exact Nat.lt_of_le_of_lt below (by decide)
  split at lower
  · simp at lower
  split at lower
  · simp at lower
  · rcases lower c (List.mem_singleton_self c) with rfl | rfl <;> decide

theorem eq_of_toLower_eq (lower : c.toLower = 'a') : c = 'a' ∨ c = 'A' := by
  have ascii : c.toNat < 128 := ascii_of_toLower (by rw [lower]; decide)
  have each : ∀ point < 128, (Char.ofNat point).toLower = 'a' →
      Char.ofNat point = 'a' ∨ Char.ofNat point = 'A' := by
    decide +kernel
  have here := each c.toNat ascii
  rw [Char.ofNat_toNat] at here
  exact here lower

theorem lowerWord_of_ascii (ascii : ∀ c ∈ word, c.toNat < 128) :
    lowerWord .unicode word = word.map Char.toLower := by
  rw [lowerWord, List.map_eq_flatMap]
  exact List.flatMap_congr fun c here => Alphabet.isUsual_unicode.lower (ascii c here)

end Case

theorem isArticle_iff : IsArticle isAn word ↔ article? .unicode word = some isAn := by
  have letters : ∀ c ∈ (if isAn then ['a', 'n'] else ['a']), c = 'a' ∨ c = 'n' := by
    cases isAn <;> simp
  constructor
  · intro article
    have ascii : ∀ c ∈ word, c.toNat < 128 := by
      intro c here
      have lower : c.toLower ∈ word.map Char.toLower := List.mem_map_of_mem here
      rw [article] at lower
      refine ascii_of_toLower ?_
      rcases letters _ lower with same | same <;> rw [same] <;> decide
    rw [article?, lowerWord_of_ascii ascii, article]
    cases isAn <;> rfl
  · intro article
    have lower : lowerWord .unicode word = if isAn then ['a', 'n'] else ['a'] := by
      rw [lowerWord_of_article article]
      cases isAn <;> rfl
    rw [IsArticle, ← lower, lowerWord_of_ascii]
    intro c here
    refine ascii_of_latinLower fun d part => letters d ?_
    rw [← lower]
    exact List.mem_flatMap.2 ⟨c, here, part⟩

theorem isArticle_spelled (isUpper isAn : Bool) : IsArticle isAn (spelled isUpper isAn) := by
  cases isUpper <;> cases isAn <;> rfl

/-- An article keeps its first letter when it is respelled. -/
theorem head?_spelled (article : IsArticle isAn word) (other : Bool) :
    (spelled (startsUpper .unicode word) other).head? = word.head? := by
  obtain - | ⟨c, rest⟩ := word
  · cases isAn <;> cases article
  · have lower : c.toLower = 'a' := by
      cases isAn <;> exact (List.cons.inj article).1
    rcases eq_of_toLower_eq lower with rfl | rfl <;> rfl

/-- An article that does not agree with the word behind it becomes the other one. -/
theorem agreeWith_respelled (word next : List Char) : agreeWith .unicode word next = word ∨
    ∃ isAn, IsArticle isAn word ∧ IsArticle (!isAn) (agreeWith .unicode word next) ∧
      (agreeWith .unicode word next).head? = word.head? := by
  rcases @agreeWith_cases .unicode word next with same | ⟨isAn, found, same, -⟩
  · exact .inl same
  · have article := isArticle_iff.2 found
    rw [same]
    exact .inr ⟨isAn, article, isArticle_spelled _ _, head?_spelled article _⟩

theorem respelled_agreed (found : List Piece) :
    Respelled .unicode found (agreed .unicode found) := by
  fun_induction agreed .unicode found with
  | case1 word gap next rest ih =>
    have behind := Respelled.kept (.gap gap) ih
    split
    · rename_i white
      rcases agreeWith_respelled word next with same | ⟨isAn, before, after, first⟩
      · rw [same]
        exact .kept _ behind
      · exact .article before after first (List.all_eq_true.1 white) behind
    · exact .kept _ behind
  | case2 piece rest other ih => exact .kept piece ih
  | case3 => exact .nil

section Usual

variable (usual : alphabet.IsUsual)

include usual

/-- A word that was made to agree does agree, if it is an article. -/
theorem startsWithVowelSound_of_agreeWith
    (article : article? alphabet (agreeWith alphabet word next) = some isAn) :
    startsWithVowelSound alphabet next = isAn := by
  have again : agreeWith alphabet (agreeWith alphabet word next) next =
      agreeWith alphabet word next := agreeWith_agreeWith usual rfl
  by_contra differs
  rw [agreeWith_of_ne article differs] at again
  rw [← again, article_spelled usual] at article
  cases isAn <;> cases article

/-- In the result each article in front of white space and a word agrees with the word. -/
theorem startsWithVowelSound_of_agreed
    (among : [.word word, .gap gap, .word next] <:+: agreed alphabet found)
    (white : ∀ c ∈ gap, alphabet.isWhitespace c = true)
    (article : article? alphabet word = some isAn) :
    startsWithVowelSound alphabet next = isAn := by
  fun_induction agreed alphabet found with
  | case1 first space follower rest ih =>
    obtain ⟨other, behind, corrected, sound⟩ := agreed_word usual follower rest
    rcases List.infix_cons_iff.1 among with here | later
    · rw [corrected] at here
      simp only [List.cons_prefix_cons, Piece.word.injEq, Piece.gap.injEq] at here
      obtain ⟨rfl, rfl, rfl, -⟩ := here
      rw [if_pos (List.all_eq_true.2 white)] at article
      rw [sound]
      exact startsWithVowelSound_of_agreeWith usual article
    · rcases List.infix_cons_iff.1 later with here | later
      · simp at here
      · exact ih later
  | case2 piece rest unmatched ih =>
    rcases List.infix_cons_iff.1 among with here | later
    · obtain ⟨rfl, behind, corrected⟩ := List.cons_prefix_cons.1 here
      obtain ⟨space, follower, more, rfl⟩ := exists_of_agreed corrected.symm
      exact absurd rfl (unmatched _ _ _ _ rfl)
    · exact ih later
  | case3 => simp at among

end Usual

end Respelling

/-- The pass for articles puts them right and changes nothing else. The words and gaps of its result
are those of the text, up to articles that have only white space between them and the next word,
which may become the other one with the same first letter; and every article of the result with only
white space between it and the next word is `an` exactly if that word starts with a vowel sound. -/
theorem correctArticles_agree (text : List Char) : ∃ found corrected,
    Splits .unicode found text ∧ Splits .unicode corrected (correctArticles .unicode text) ∧
      Respelled .unicode found corrected ∧
      ∀ word gap next isAn, [.word word, .gap gap, .word next] <:+: corrected →
        (∀ c ∈ gap, Alphabet.unicode.isWhitespace c = true) → IsArticle isAn word →
          startsWithVowelSound .unicode next = isAn := by
  have usual := Alphabet.isUsual_unicode
  have split : AreSplit .unicode _ := areSplit_pieces text
  refine ⟨pieces .unicode text, agreed .unicode (pieces .unicode text),
    ⟨split, chars_pieces text⟩, ⟨areSplit_agreed usual split, (correctArticles_eq text).symm⟩,
    respelled_agreed _, fun word gap next isAn among white article => ?_⟩
  exact startsWithVowelSound_of_agreed usual among white (isArticle_iff.1 article)

/-- The first of two articles has become `An` because the second has become `an`. -/
theorem correctArticles_agree_chain :
    correctArticles .unicode "A a owl".toList = "An an owl".toList ∧
      [.word ['A', 'n'], .gap [' '], .word ['a', 'n']] <:+: pieces .unicode "An an owl".toList ∧
      IsArticle true ['A', 'n'] ∧ startsWithVowelSound .unicode ['a', 'n'] = true := by
  have result : correctArticles .unicode "A a owl".toList = "An an owl".toList := by decide +kernel
  have listed : [.word ['A', 'n'], .gap [' '], .word ['a', 'n']] <:+:
      pieces .unicode "An an owl".toList :=
    ⟨[], [.gap [' '], .word ['o', 'w', 'l']], by decide +kernel⟩
  obtain ⟨found, corrected, -, splits, -, agree⟩ := correctArticles_agree "A a owl".toList
  have pieced : pieces .unicode "An an owl".toList = corrected := by
    rw [← result, ← splits.chars, pieces_chars splits.split]
  have article : IsArticle true ['A', 'n'] := rfl
  exact ⟨result, listed, article, agree _ _ _ true (pieced ▸ listed)
    (List.forall_mem_singleton.2 (by decide +kernel)) article⟩

end Cleanup

end BranchText
