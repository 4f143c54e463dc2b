import BranchText.Cleanup.Pass
import BranchText.Proofs.Cleanup.Lines
import BranchText.Proofs.Text.UsualAlphabet

/-!
# Revisions

The shape that the passes give a text, and why no pass spoils what another one has done. Whatever a
pass changes within a line is a revision: it drops or replaces spaces and tabs, or puts a word with
as many capitals in place of another (`Revised`). Revisions keep the lines of a text and which of
them are blank (`Revised.lines`, `Revised.blank`), spaces out of the places in front of punctuation
(`Revised.isSnapped`), and the capitals of its sentences (`Revised.isCapitalized`); a revision of
words alone keeps a trimmed line trimmed (`Revised.isTrimmed`).
-/

namespace BranchText

namespace Cleanup

variable {alphabet : Alphabet}

/-! ## Shapes -/

/-- No space or tab stands in front of punctuation. -/
def IsSnapped (text : List Char) : Prop :=
  text.IsChain fun c next => isBlank c = true → isPunctuation next = false

/-- A letter at the start of a sentence is its own capital. -/
def IsCapitalized (alphabet : Alphabet) : SentencePlace → List Char → Prop
  | _, [] => True
  | place, c :: rest =>
    (place.atStart = true → alphabet.isAlphabetic c = true → alphabet.upper c = [c]) ∧
      IsCapitalized alphabet (place.after alphabet c) rest

/-- The words of the line have single spaces between them and none around them. -/
structure IsTrimmed (line : List Char) : Prop where
  plain : ∀ c ∈ line, c ≠ '\t' ∧ c ≠ '\r' ∧ c ≠ '\n'
  start : line.head? ≠ some ' '
  stop : line.getLast? ≠ some ' '
  single : line.IsChain fun c next => ¬ (c = ' ' ∧ next = ' ')

/-- The first line is not empty, nor is the last. -/
structure HaveEnds (lines : List (List Char)) : Prop where
  first : ∃ line, lines.head? = some line ∧ line ≠ []
  last : ∃ line, lines.getLast? = some line ∧ line ≠ []

/-- The lines are trimmed and no two empty ones follow one another. Unless there is only one empty
line, the first and the last are not empty. -/
structure AreTidy (lines : List (List Char)) : Prop where
  trimmed : ∀ line ∈ lines, IsTrimmed line
  apart : lines.IsChain fun line next => ¬ (line = [] ∧ next = [])
  ends : lines = [[]] ∨ HaveEnds lines

/-- Empty lines are blank, so lines whose blank ones are apart have no two empty ones in a row. -/
theorem AreApart.empty {lines : List (List Char)} (apart : AreApart alphabet lines) :
    lines.IsChain fun line next => ¬ (line = [] ∧ next = []) := by
  refine apart.imp ?_
  rintro line next blank ⟨rfl, rfl⟩
  cases blank rfl

/-! ## Plain characters -/

/-- Neither white space nor punctuation. -/
def IsPlain (alphabet : Alphabet) (c : Char) : Prop :=
  alphabet.isWhitespace c = false ∧ isPunctuation c = false

section Plain

variable (usual : alphabet.IsUsual) {c : Char}

include usual

theorem isWhitespace_of_isBlank (blank : isBlank c = true) : alphabet.isWhitespace c = true := by
  have cases : c = ' ' ∨ c = '\t' := by simpa [isBlank] using blank
  rcases cases with rfl | rfl
  · rw [usual.whitespace (by decide)]
    rfl
  · rw [usual.whitespace (by decide)]
    rfl

theorem isWhitespace_lineFeed : alphabet.isWhitespace '\n' = true := by
  rw [usual.whitespace (by decide)]
  rfl

theorem isWhitespace_carriageReturn : alphabet.isWhitespace '\r' = true := by
  rw [usual.whitespace (by decide)]
  rfl

theorem isAlphabetic_eq_false_of_isWhitespace (blank : alphabet.isWhitespace c = true) :
    alphabet.isAlphabetic c = false := by
  rw [Bool.eq_false_iff]
  intro letter
  rw [usual.visible letter] at blank
  cases blank

theorem IsPlain.isBlank (plain : IsPlain alphabet c) : isBlank c = false := by
  rw [Bool.eq_false_iff]
  intro blank
  exact Bool.eq_false_iff.1 plain.1 (isWhitespace_of_isBlank usual blank)

end Plain

theorem isPunctuation_of_isBlank {c : Char} (blank : isBlank c = true) :
    isPunctuation c = false := by
  have cases : c = ' ' ∨ c = '\t' := by simpa [isBlank] using blank
  rcases cases with rfl | rfl <;> rfl

theorem endsSentence_of_isPunctuation {c : Char} (other : isPunctuation c = false) :
    endsSentence c = false := by
  rw [Bool.eq_false_iff] at other ⊢
  intro stop
  apply other
  simp only [endsSentence, isPunctuation, List.contains_iff_mem] at stop ⊢
  exact (by decide : ['.', '!', '?'] ⊆ [',', '.', ';', ':', '!', '?']) stop

/-! ## Places in sentences -/

namespace SentencePlace

/-- The place after several characters that are not made capitals. -/
def afterAll (alphabet : Alphabet) (place : SentencePlace) (text : List Char) : SentencePlace :=
  text.foldl (after alphabet) place

/-- A place is below another if it makes no more letters capitals than the other. -/
instance : LE SentencePlace where
  le place other :=
    (place.atStart = true → other.atStart = true) ∧ (place.afterEnd = true → other.afterEnd = true)

variable {place other : SentencePlace} {c : Char}

theorem least : (⟨false, false⟩ : SentencePlace) ≤ place :=
  ⟨nofun, nofun⟩

theorem after_mono (below : place ≤ other) : place.after alphabet c ≤ other.after alphabet c := by
  obtain ⟨starts, ends⟩ := below
  unfold after
  split
  · exact ⟨starts, id⟩
  split
  · refine ⟨?_, ends⟩
    simp only [Bool.or_eq_true]
    exact Or.imp starts ends
  by_cases alphanumeric : alphabet.isAlphanumeric c = true
  · simp only [alphanumeric, Bool.or_true, if_true]
    exact least
  · cases start : place.atStart with
    | false =>
      simp only [Bool.not_false, Bool.true_or, if_true]
      exact least
    | true =>
      simp only [starts start, alphanumeric, Bool.not_true, Bool.false_or]
      exact ⟨starts, ends⟩

/-- White space does not end the start of a sentence. -/
theorem le_after (blank : alphabet.isWhitespace c = true) (mark : isPunctuation c = false) :
    place ≤ place.after alphabet c := by
  rw [after, if_neg (by simp [endsSentence_of_isPunctuation mark]), if_pos blank]
  exact ⟨fun start => by simp [start], id⟩

theorem le_afterAll {text : List Char}
    (blank : ∀ c ∈ text, alphabet.isWhitespace c = true ∧ isPunctuation c = false) :
    place ≤ place.afterAll alphabet text := by
  induction text generalizing place with
  | nil => exact ⟨id, id⟩
  | cons c rest ih =>
    obtain ⟨⟨white, mark⟩, later⟩ := List.forall_mem_cons.1 blank
    have below : place ≤ place.after alphabet c := le_after white mark
    have further : place.after alphabet c ≤ (place.after alphabet c).afterAll alphabet rest :=
      ih later
    exact ⟨further.1 ∘ below.1, further.2 ∘ below.2⟩

theorem after_letter (letter : alphabet.isAlphabetic c = true) (plain : IsPlain alphabet c) :
    place.after alphabet c = ⟨false, false⟩ := by
  rw [after, if_neg (by simp [endsSentence_of_isPunctuation plain.2]), if_neg (by simp [plain.1]),
    if_pos (by simp [Alphabet.isAlphanumeric, letter])]

theorem after_plain (plain : IsPlain alphabet c) :
    (⟨false, false⟩ : SentencePlace).after alphabet c = ⟨false, false⟩ := by
  rw [after, if_neg (by simp [endsSentence_of_isPunctuation plain.2]), if_neg (by simp [plain.1]),
    ite_self]

theorem afterAll_plain {text : List Char} (plain : ∀ c ∈ text, IsPlain alphabet c) :
    (⟨false, false⟩ : SentencePlace).afterAll alphabet text = ⟨false, false⟩ := by
  induction text with
  | nil => rfl
  | cons c rest ih =>
    obtain ⟨here, later⟩ := List.forall_mem_cons.1 plain
    rw [afterAll, List.foldl_cons, after_plain here]
    exact ih later

end SentencePlace

section Capitalized

variable {place other : SentencePlace} {text : List Char}

theorem IsCapitalized.mono (capitalized : IsCapitalized alphabet other text)
    (below : place ≤ other) : IsCapitalized alphabet place text := by
  induction text generalizing place other with
  | nil => trivial
  | cons c rest ih =>
    exact ⟨fun start => capitalized.1 (below.1 start),
      ih capitalized.2 (SentencePlace.after_mono below)⟩

theorem isCapitalized_append {front back : List Char} :
    IsCapitalized alphabet place (front ++ back) ↔ IsCapitalized alphabet place front ∧
      IsCapitalized alphabet (place.afterAll alphabet front) back := by
  induction front generalizing place with
  | nil => exact (true_and _).symm.to_iff
  | cons c rest ih => exact (and_congr_right fun _ => ih).trans and_assoc.symm

/-- Within a sentence words need no capitals. -/
theorem isCapitalized_of_plain (plain : ∀ c ∈ text, IsPlain alphabet c) :
    IsCapitalized alphabet ⟨false, false⟩ text := by
  induction text with
  | nil => trivial
  | cons c rest ih =>
    obtain ⟨here, later⟩ := List.forall_mem_cons.1 plain
    refine ⟨nofun, ?_⟩
    rw [SentencePlace.after_plain here]
    exact ih later

end Capitalized

/-! ## Revisions -/

/-- A word may stand in place of another: it starts with a letter, is plain, and has its capital
wherever the other one has. -/
structure Rewords (alphabet : Alphabet) (word other : List Char) : Prop where
  filled : word ≠ []
  within : '\n' ∉ word
  starts : ∃ first rest, other = first :: rest ∧ alphabet.isAlphabetic first = true
  plain : ∀ c ∈ other, IsPlain alphabet c
  capital {place : SentencePlace} (capitalized : IsCapitalized alphabet place word) :
    IsCapitalized alphabet place other

/-- A text and what is made of it by changing words, and if `spacing` is set, also by dropping and
replacing spaces and tabs. -/
inductive Revised (alphabet : Alphabet) : (spacing : Bool) → (text other : List Char) → Prop
  | nil {spacing : Bool} : Revised alphabet spacing [] []
  | keep {spacing : Bool} {text other : List Char} (c : Char)
      (rest : Revised alphabet spacing text other) :
      Revised alphabet spacing (c :: text) (c :: other)
  | drop {text other : List Char} {c : Char} (blank : isBlank c = true)
      (rest : Revised alphabet true text other) : Revised alphabet true (c :: text) other
  | swap {text other : List Char} {c d : Char} (blank : isBlank c = true)
      (another : isBlank d = true) (rest : Revised alphabet true text other) :
      Revised alphabet true (c :: text) (d :: other)
  | reword {spacing : Bool} {text other word new : List Char} (change : Rewords alphabet word new)
      (rest : Revised alphabet spacing text other) :
      Revised alphabet spacing (word ++ text) (new ++ other)

theorem Rewords.afterAll {word other : List Char} (change : Rewords alphabet word other)
    {place : SentencePlace} : place.afterAll alphabet other = ⟨false, false⟩ := by
  obtain ⟨first, rest, rfl, letter⟩ := change.starts
  obtain ⟨here, later⟩ := List.forall_mem_cons.1 change.plain
  rw [SentencePlace.afterAll, List.foldl_cons, SentencePlace.after_letter letter here]
  exact SentencePlace.afterAll_plain later

/-- A relation between neighbours holds throughout a list whose members all bear it to anything. -/
theorem isChain_append_of_forall {P : Char → Char → Prop} {front back : List Char}
    (each : ∀ c ∈ front, ∀ d, P c d ∧ P d c) (chain : back.IsChain P) :
    (front ++ back).IsChain P := by
  induction front with
  | nil => exact chain
  | cons c rest ih =>
    obtain ⟨here, later⟩ := List.forall_mem_cons.1 each
    exact (ih later).cons fun d _ => (here d).1

theorem forall₂_modifyHead {α : Type} {R : α → α → Prop} {f g : α → α} {left right : List α}
    (related : List.Forall₂ R left right) (step : ∀ a b, R a b → R (f a) (g b)) :
    List.Forall₂ R (left.modifyHead f) (right.modifyHead g) := by
  cases related with
  | nil => exact .nil
  | cons head tail => exact .cons (step _ _ head) tail

theorem lines_append {word : List Char} (within : '\n' ∉ word) (rest : List Char) :
    lines (word ++ rest) = (lines rest).modifyHead (word ++ ·) := by
  induction word with
  | nil => exact (congrFun List.modifyHead_id _).symm
  | cons c word ih =>
    obtain ⟨other, later⟩ := List.ne_and_not_mem_of_not_mem_cons within
    rw [List.cons_append, lines_cons (Ne.symm other), ih later, List.modifyHead_modifyHead]
    rfl

namespace Revised

variable {spacing : Bool} {text other : List Char}

theorem refl (spacing : Bool) (text : List Char) : Revised alphabet spacing text text := by
  induction text with
  | nil => exact .nil
  | cons c rest ih => exact .keep c ih

theorem append {front back newFront newBack : List Char}
    (first : Revised alphabet spacing front newFront)
    (second : Revised alphabet spacing back newBack) :
    Revised alphabet spacing (front ++ back) (newFront ++ newBack) := by
  induction first with
  | nil => exact second
  | keep c _ ih => exact .keep c (ih second)
  | drop blank _ ih => exact .drop blank (ih second)
  | swap blank another _ ih => exact .swap blank another (ih second)
  | reword change _ ih =>
    rw [List.append_assoc, List.append_assoc]
    exact .reword change (ih second)

/-- The characters of a revision stood in the text, are spaces or tabs, or are visible. -/
theorem mem_cases (revised : Revised alphabet spacing text other) {c : Char} (here : c ∈ other) :
    c ∈ text ∨ (spacing = true ∧ isBlank c = true) ∨ alphabet.isWhitespace c = false := by
  induction revised with
  | nil => exact absurd here List.not_mem_nil
  | keep d _ ih =>
    rcases List.mem_cons.1 here with rfl | later
    · exact .inl List.mem_cons_self
    · exact (ih later).imp_left (List.mem_cons_of_mem _)
  | drop _ _ ih => exact (ih here).imp_left (List.mem_cons_of_mem _)
  | swap _ another _ ih =>
    rcases List.mem_cons.1 here with rfl | later
    · exact .inr (.inl ⟨rfl, another⟩)
    · exact (ih later).imp_left (List.mem_cons_of_mem _)
  | reword change _ ih =>
    rcases List.mem_append.1 here with first | later
    · exact .inr (.inr (change.plain _ first).1)
    · exact (ih later).imp_left (List.mem_append_right _)

/-- Neighbours stay related if plain characters are related to all, and spaces and tabs make no
difference to what may follow what stands before them. So does what stands in front of the text. -/
theorem isChain {P : Char → Char → Prop} (revised : Revised alphabet spacing text other)
    (plain : ∀ c, IsPlain alphabet c → ∀ d, P c d ∧ P d c)
    (gap : spacing = true → ∀ c, isBlank c = true → ∀ a, P a c ∧ ∀ d, P c d → P a d)
    (chain : text.IsChain P) :
    other.IsChain P ∧ ∀ a, (∀ d ∈ text.head?, P a d) → ∀ d ∈ other.head?, P a d := by
  induction revised with
  | nil => exact ⟨.nil, fun _ start => start⟩
  | keep c _ ih =>
    obtain ⟨next, later⟩ := List.isChain_cons.1 chain
    obtain ⟨chain, start⟩ := ih gap later
    exact ⟨chain.cons (start c next), fun _ first => first⟩
  | drop blank _ ih =>
    obtain ⟨next, later⟩ := List.isChain_cons.1 chain
    obtain ⟨chain, start⟩ := ih gap later
    exact ⟨chain, fun a _ d here => (gap rfl _ blank a).2 d (start _ next d here)⟩
  | @swap _ _ c d blank another _ ih =>
    obtain ⟨next, later⟩ := List.isChain_cons.1 chain
    obtain ⟨chain, start⟩ := ih gap later
    refine ⟨chain.cons fun e here => (gap rfl c blank d).2 e (start c next e here), ?_⟩
    rintro a - _ ⟨⟩
    exact (gap rfl d another a).1
  | reword change _ ih =>
    obtain ⟨chain, start⟩ := ih gap (List.isChain_append.1 chain).2.1
    refine ⟨isChain_append_of_forall (fun c here => plain c (change.plain c here)) chain, ?_⟩
    obtain ⟨first, rest, rfl, letter⟩ := change.starts
    rintro a - _ ⟨⟩
    exact (plain first (change.plain _ List.mem_cons_self) a).2

/-- A revision of words alone leaves a line empty if it was. -/
theorem eq_nil_iff (revised : Revised alphabet false text other) : text = [] ↔ other = [] := by
  cases revised with
  | nil => exact Iff.rfl
  | keep => simp
  | reword change _ =>
    obtain ⟨first, rest, rfl, -⟩ := change.starts
    simp [change.filled]

section Usual

variable (usual : alphabet.IsUsual)

include usual

/-- A revision works line by line. -/
theorem lines (revised : Revised alphabet spacing text other) :
    List.Forall₂ (Revised alphabet spacing) (Cleanup.lines text) (Cleanup.lines other) := by
  have inLine {c : Char} (blank : isBlank c = true) : c ≠ '\n' := by
    rintro rfl
    cases blank
  induction revised with
  | nil => exact .cons .nil .nil
  | keep c _ ih =>
    by_cases lineFeed : c = '\n'
    · subst lineFeed
      exact .cons .nil ih
    · rw [lines_cons lineFeed, lines_cons lineFeed]
      exact forall₂_modifyHead ih fun _ _ => .keep c
  | drop blank _ ih =>
    rw [lines_cons (inLine blank)]
    have dropped := forall₂_modifyHead (g := id) ih fun _ _ => .drop blank
    rwa [List.modifyHead_id, id] at dropped
  | swap blank another _ ih =>
    rw [lines_cons (inLine blank), lines_cons (inLine another)]
    exact forall₂_modifyHead ih fun _ _ => .swap blank another
  | reword change _ ih =>
    rw [lines_append change.within, lines_append]
    · exact forall₂_modifyHead ih fun _ _ => .reword change
    · intro listed
      have visible := (change.plain _ listed).1
      rw [isWhitespace_lineFeed usual] at visible
      cases visible

/-- A line that is blank after a revision was blank before. -/
theorem blank (revised : Revised alphabet spacing text other)
    (white : other.all alphabet.isWhitespace = true) : text.all alphabet.isWhitespace = true := by
  induction revised with
  | nil => rfl
  | keep c _ ih =>
    rw [List.all_cons, Bool.and_eq_true] at white ⊢
    exact ⟨white.1, ih white.2⟩
  | drop blank _ ih =>
    rw [List.all_cons, Bool.and_eq_true]
    exact ⟨isWhitespace_of_isBlank usual blank, ih white⟩
  | swap blank _ _ ih =>
    rw [List.all_cons, Bool.and_eq_true] at white ⊢
    exact ⟨isWhitespace_of_isBlank usual blank, ih white.2⟩
  | reword change _ ih =>
    obtain ⟨first, rest, rfl, letter⟩ := change.starts
    rw [List.cons_append, List.all_cons, usual.visible letter] at white
    cases white

/-- Lines whose blank ones are apart stay so. -/
theorem areApart {found revised : List (List Char)}
    (related : List.Forall₂ (Revised alphabet spacing) found revised)
    (apart : AreApart alphabet found) : AreApart alphabet revised := by
  induction related with
  | nil => exact .nil
  | cons first rest ih =>
    obtain ⟨next, later⟩ := List.isChain_cons.1 apart
    refine (ih later).cons fun other here white => ?_
    cases rest with
    | nil => cases here
    | cons second _ =>
      cases here
      rw [Bool.eq_false_iff]
      intro blank
      exact Bool.eq_false_iff.1 (next _ rfl (first.blank usual white)) (second.blank usual blank)

theorem isSnapped (revised : Revised alphabet spacing text other) (snapped : IsSnapped text) :
    IsSnapped other := by
  refine (revised.isChain ?_ ?_ snapped).1
  · intro c plain d
    refine ⟨fun blank => ?_, fun _ => plain.2⟩
    rw [plain.isBlank usual] at blank
    cases blank
  · exact fun _ c blank a => ⟨fun _ => isPunctuation_of_isBlank blank,
      fun d before _ => before blank⟩

theorem isCapitalized (revised : Revised alphabet spacing text other) {place : SentencePlace}
    (capitalized : IsCapitalized alphabet place text) : IsCapitalized alphabet place other := by
  induction revised generalizing place with
  | nil => trivial
  | keep c _ ih => exact ⟨capitalized.1, ih capitalized.2⟩
  | drop blank _ ih =>
    have white := isWhitespace_of_isBlank usual blank
    exact (ih capitalized.2).mono
      (SentencePlace.le_after white (isPunctuation_of_isBlank blank))
  | swap blank another _ ih =>
    refine ⟨fun _ letter => ?_, ?_⟩
    · rw [isAlphabetic_eq_false_of_isWhitespace usual (isWhitespace_of_isBlank usual another)]
        at letter
      cases letter
    · have after {c : Char} (blank : isBlank c = true) : place.after alphabet c =
          { place with atStart := place.atStart || place.afterEnd } := by
        rw [SentencePlace.after, if_pos (isWhitespace_of_isBlank usual blank), if_neg]
        simp [endsSentence_of_isPunctuation (isPunctuation_of_isBlank blank)]
      have next := ih capitalized.2
      rwa [after another, ← after blank]
  | reword change _ ih =>
    obtain ⟨first, later⟩ := isCapitalized_append.1 capitalized
    refine isCapitalized_append.2 ⟨change.capital first, ?_⟩
    rw [change.afterAll]
    exact (ih later).mono SentencePlace.least

theorem isTrimmed (revised : Revised alphabet false text other) (trimmed : IsTrimmed text) :
    IsTrimmed other := by
  have apart : ∀ c, IsPlain alphabet c → ∀ d, ¬ (c = ' ' ∧ d = ' ') ∧ ¬ (d = ' ' ∧ c = ' ') := by
    intro c plain d
    have visible : c ≠ ' ' := by
      rintro rfl
      cases plain.isBlank usual
    exact ⟨fun both => visible both.1, fun both => visible both.2⟩
  obtain ⟨single, start⟩ := revised.isChain apart nofun trimmed.single
  refine ⟨fun c here => ?_, fun first => ?_, fun last => ?_, single⟩
  · rcases revised.mem_cases here with listed | ⟨contradiction, -⟩ | visible
    · exact trimmed.plain c listed
    · cases contradiction
    · refine ⟨?_, ?_, ?_⟩ <;> rintro rfl <;> rw [usual.whitespace (by decide)] at visible <;>
        cases visible
  · refine start ' ' ?_ ' ' first ⟨rfl, rfl⟩
    rintro d here ⟨-, rfl⟩
    exact trimmed.start here
  · -- with a space behind both texts, a space at the end of one is the first of two in a row
    have further : (text ++ [' ']).IsChain fun c next => ¬ (c = ' ' ∧ next = ' ') := by
      refine List.isChain_append.2 ⟨trimmed.single, .singleton _, ?_⟩
      rintro c ends d ⟨⟩ both
      exact trimmed.stop (both.1 ▸ ends)
    have chain := ((revised.append (.refl false [' '])).isChain apart nofun further).1
    exact (List.isChain_append.1 chain).2.2 ' ' last ' ' rfl ⟨rfl, rfl⟩

end Usual

end Revised

end Cleanup

end BranchText
