import BranchText.Proofs.Reading.Runs
import BranchText.Proofs.Indexed.Pieces

/-!
# Texts with a common front

What is read of a text depends on its front alone if it ends there: the text could go on with
anything else. A lexeme, which takes as much as it can, is also that of the front by itself.
-/

namespace BranchText

variable {front back : List Char}

/-! ## Lexemes -/

namespace Lexeme

theorem takeWhile_of_short {p : Char → Bool}
    (short : ((front ++ back).takeWhile p).length ≤ front.length) :
    (front ++ back).takeWhile p = front.takeWhile p := by
  rw [List.takeWhile_append] at short ⊢
  split at short
  · rename_i all
    have none : back.takeWhile p = [] := by
      rw [List.length_append] at short
      exact List.eq_nil_of_length_eq_zero (by omega)
    rw [if_pos all, none, List.append_nil, ( List.takeWhile_prefix p).eq_of_length all]
  · rename_i some
    rw [if_neg some]

theorem fixed?_of_short {spelling : List Char} {kind : TokenKind}
    (found : fixed? (front ++ back) = some (spelling, kind))
    (short : spelling.length ≤ front.length) : fixed? front = some (spelling, kind) := by
  unfold fixed? at found ⊢
  rw [List.find?_eq_some_iff_append] at found ⊢
  obtain ⟨starts, before, after, listed, none⟩ := found
  refine ⟨?_, before, after, listed, fun entry member => ?_⟩
  · exact List.isPrefixOf_iff_prefix.2 (List.prefix_of_prefix_length_le
      (List.isPrefixOf_iff_prefix.1 starts) (List.prefix_append ..) short)
  · have := none entry member
    simp only [Bool.not_eq_true', Bool.eq_false_iff, ne_eq, List.isPrefixOf_iff_prefix] at this ⊢
    exact fun starts => this (starts.trans (List.prefix_append ..))

theorem fixed?_of_append (missing : fixed? (front ++ back) = none) : fixed? front = none := by
  unfold fixed? at missing ⊢
  rw [List.find?_eq_none] at missing ⊢
  intro entry listed starts
  refine missing entry listed ?_
  exact List.isPrefixOf_iff_prefix.2
    ((List.isPrefixOf_iff_prefix.1 starts).trans (List.prefix_append ..))

theorem numberChars_of_short (short : (numberChars (front ++ back)).length ≤ front.length) :
    numberChars (front ++ back) = numberChars front := by
  have whole : front.takeWhile Decimal.isDigit ++ front.dropWhile Decimal.isDigit = front :=
    List.takeWhile_append_dropWhile
  have sizes := congrArg List.length whole
  rw [List.length_append] at sizes
  unfold numberChars at short ⊢
  rw [List.takeWhile_append, List.dropWhile_append] at *
  cases left : front.dropWhile Decimal.isDigit with
  | nil =>
    -- All of the front is digits, so that none may follow, nor a fraction.
    rw [left, List.append_nil] at whole
    simp only [left, whole, if_true, List.isEmpty_nil] at short ⊢
    have none : back.takeWhile Decimal.isDigit = [] := by
      refine List.eq_nil_of_length_eq_zero ?_
      split at short
      · split at short <;> simp only [List.length_append, List.length_cons] at short <;> omega
      · rw [List.length_append] at short
        omega
    simp only [none, List.append_nil] at short ⊢
    split at short
    · split at short
      · rename_i places
        rw [if_pos places]
      · rw [List.length_append, List.length_cons] at short
        omega
    · rfl
  | cons c rest =>
    have partly : (front.takeWhile Decimal.isDigit).length ≠ front.length := by
      rw [left, List.length_cons] at sizes
      omega
    simp only [left, if_neg partly, List.isEmpty_cons, Bool.false_eq_true, if_false,
      List.cons_append] at short sizes ⊢
    by_cases point : c = '.'
    · subst point
      have places : (rest ++ back).takeWhile Decimal.isDigit = rest.takeWhile Decimal.isDigit := by
        refine takeWhile_of_short ?_
        simp only at short
        split at short
        · rename_i none
          rw [List.isEmpty_iff.1 none]
          exact Nat.zero_le _
        · simp only [List.length_append, List.length_cons] at short sizes
          omega
      simp only [places]
    · split
      · rename_i split
        exact absurd (List.cons.inj split).1 point
      · split
        · rename_i split
          exact absurd (List.cons.inj split).1 point
        · rfl

theorem ofEscape_cons (c : Char) (rest : List Char) :
    ofEscape (c :: rest) = if c = '\r' ∧ rest.head? = some '\n' then ⟨.whitespace, " ", 3⟩
      else if c = '\n' then ⟨.whitespace, " ", 2⟩
      else match escaped? c with
        | some meant => ⟨.text, String.singleton meant, 2⟩
        | none => ⟨.text, "\\", 1⟩ := by
  unfold ofEscape
  split
  · rename_i same
    cases same
    rfl
  · rename_i same
    cases same
    rfl
  · rename_i pair single same
    cases same
    have noPair : ¬ (c = '\r' ∧ rest.head? = some '\n') := fun ⟨carriage, head⟩ => by
      obtain ⟨later, rfl⟩ := List.head?_eq_some_iff.1 head
      exact pair later carriage rfl
    exact ((if_neg noPair).trans (if_neg single)).symm
  · rename_i same
    cases same

theorem ofEscape_of_short (short : (ofEscape (front ++ back)).length ≤ front.length + 1) :
    ofEscape (front ++ back) = ofEscape front := by
  cases front with
  | nil =>
    cases back with
    | nil => rfl
    | cons c rest =>
      rw [List.nil_append, ofEscape_cons] at short ⊢
      split at short
      · cases Nat.not_succ_le_zero _ (Nat.le_of_succ_le_succ short)
      · split at short
        · cases Nat.not_succ_le_zero _ (Nat.le_of_succ_le_succ short)
        · split at short
          · cases Nat.not_succ_le_zero _ (Nat.le_of_succ_le_succ short)
          · rename_i pair single _ plain
            rw [if_neg pair, if_neg single]
            rfl
  | cons c rest =>
    rw [List.cons_append, ofEscape_cons] at short
    rw [List.cons_append, ofEscape_cons, ofEscape_cons]
    cases rest with
    | nil =>
      split at short
      · exact absurd short (by simp)
      · rename_i pair
        have alone : ¬ (c = '\r' ∧ ([] : List Char).head? = some '\n') := nofun
        rw [if_neg pair, if_neg alone]
    | cons d later => rfl

/-- A lexeme that ends within the front of a text is the lexeme of the front. -/
theorem lexeme_of_short (short : (lexeme (front ++ back)).length ≤ front.length) :
    lexeme (front ++ back) = lexeme front := by
  cases front with
  | nil =>
    have empty := eq_nil_of_length_lexeme (Nat.le_zero.1 short)
    rw [List.nil_append] at empty
    rw [empty]
    rfl
  | cons first rest =>
    rw [List.cons_append] at short ⊢
    simp only [lexeme] at short ⊢
    by_cases escape : first = '\\'
    · simp only [if_pos escape] at short ⊢
      exact ofEscape_of_short short
    simp only [if_neg escape] at short ⊢
    cases found : fixed? (first :: (rest ++ back)) with
    | some entry =>
      obtain ⟨spelling, kind⟩ := entry
      simp only [found] at short
      rw [@fixed?_of_short (first :: rest) back _ _ found short]
    | none =>
      simp only [found] at short
      rw [@fixed?_of_append (first :: rest) back found]
      simp only [ofRun] at short ⊢
      by_cases blank : isBlank first = true
      · rw [if_pos blank] at short
        rw [if_pos blank, if_pos blank,
          takeWhile_of_short (Nat.le_of_succ_le_succ short)]
      rw [if_neg blank] at short
      rw [if_neg blank, if_neg blank]
      by_cases digit : Decimal.isDigit first = true
      · rw [if_pos digit] at short
        rw [if_pos digit, if_pos digit, ← List.cons_append,
          @numberChars_of_short (first :: rest) back short]
      · rw [if_neg digit, if_neg digit]

end Lexeme

/-! ## Searches -/

theorem lengthOfBlockComment?_le {text : List Char} {length : Nat}
    (found : lengthOfBlockComment? text = some length) : length ≤ text.length := by
  fun_induction lengthOfBlockComment? text generalizing length with
  | case1 => cases found
  | case2 =>
    cases found
    simp
  | case3 c rest _ ih =>
    obtain ⟨more, given, rfl⟩ := Option.map_eq_some_iff.1 found
    have := ih given
    rw [List.length_cons]
    omega

/-- A comment that ends within the front of a text ends there whatever follows. -/
theorem lengthOfBlockComment?_of_short {length : Nat}
    (found : lengthOfBlockComment? (front ++ back) = some length) (short : length ≤ front.length)
    (other : List Char) : lengthOfBlockComment? (front ++ other) = some length := by
  induction front generalizing length with
  | nil =>
    have := two_le_lengthOfBlockComment? found
    exact absurd (Nat.le_trans this short) (by simp)
  | cons c rest ih =>
    by_cases closing : c = '*' ∧ (rest ++ back).head? = some '/'
    · obtain ⟨rfl, slash⟩ := closing
      cases rest with
      | nil =>
        have := two_le_lengthOfBlockComment? found
        exact absurd (Nat.le_trans this short) (by simp)
      | cons d later =>
        obtain rfl := Option.some.inj slash
        exact found
    · rw [List.cons_append, Indexed.lengthOfBlockComment?_cons fun star slash => closing ⟨star, slash⟩]
        at found
      obtain ⟨more, given, rfl⟩ := Option.map_eq_some_iff.1 found
      have shorter : more ≤ rest.length := by
        rw [List.length_cons] at short
        omega
      have goesOn : c = '*' → (rest ++ other).head? ≠ some '/' := fun star slash => by
        cases rest with
        | nil =>
          have := two_le_lengthOfBlockComment? given
          exact absurd (Nat.le_trans this shorter) (by simp)
        | cons d later => exact closing ⟨star, slash⟩
      rw [List.cons_append, Indexed.lengthOfBlockComment?_cons goesOn, ih given shorter]
      rfl

/-- The line of a text ends at a line break, whatever follows it. -/
theorem lengthToLineBreak_of_mem (broken : '\n' ∈ front) (back : List Char) :
    lengthToLineBreak (front ++ back) = lengthToLineBreak front ∧
      lengthToLineBreak front < front.length := by
  fun_induction lengthToLineBreak front with
  | case1 => cases broken
  | case2 => exact ⟨rfl, Nat.zero_lt_succ _⟩
  | case3 => exact ⟨rfl, Nat.zero_lt_succ _⟩
  | case4 c rest single pair ih =>
    have later : '\n' ∈ rest := (List.mem_cons.1 broken).resolve_left fun same => single same.symm
    obtain ⟨same, less⟩ := ih later
    obtain ⟨d, more, rfl⟩ := List.exists_cons_of_ne_nil (List.ne_nil_of_mem later)
    refine ⟨?_, by rw [List.length_cons]; omega⟩
    rw [← same]
    refine lengthToLineBreak_cons single fun carriage follows => ?_
    obtain rfl := Option.some.inj follows
    exact pair _ carriage rfl

/-- A line ends in front of its line break. -/
theorem exists_lineBreak {text : List Char} (broken : '\n' ∈ text) :
    ∃ mark rest, (mark = ['\n'] ∨ mark = ['\r', '\n']) ∧
      text.drop (lengthToLineBreak text) = mark ++ rest := by
  fun_induction lengthToLineBreak text with
  | case1 => cases broken
  | case2 rest => exact ⟨_, rest, .inl rfl, rfl⟩
  | case3 rest => exact ⟨_, rest, .inr rfl, rfl⟩
  | case4 c rest single _ ih =>
    obtain ⟨mark, more, isMark, split⟩ :=
      ih ((List.mem_cons.1 broken).resolve_left fun same => single same.symm)
    exact ⟨mark, more, isMark, by rwa [Nat.add_comm, List.drop_succ_cons]⟩

/-- A front that is longer than nothing starts as the text does. -/
theorem exists_cons_of_append {c : Char} {rest : List Char} (whole : front ++ back = c :: rest)
    (short : back.length ≤ rest.length) : ∃ more, front = c :: more ∧ more ++ back = rest := by
  cases front with
  | nil =>
    rw [List.nil_append] at whole
    rw [whole, List.length_cons] at short
    exact absurd short (Nat.not_succ_le_self _)
  | cons first more =>
    obtain ⟨rfl, same⟩ := List.cons.inj whole
    exact ⟨more, rfl, same⟩

/-- A character that is not behind the front stands in it. -/
theorem length_lt_of_not_mem {c : Char} {body rest : List Char} (missing : c ∉ back)
    (split : front ++ back = body ++ c :: rest) : back.length < (c :: rest).length := by
  refine Nat.lt_of_not_le fun long => missing ?_
  have inside : c :: rest <:+ back := by
    have ends : c :: rest <:+ front ++ back := split ▸ List.suffix_append ..
    exact List.suffix_of_suffix_length_le ends (List.suffix_append ..) long
  exact inside.mem (List.mem_cons_self ..)

/-- Verbatim text ends with a closing bracket. -/
theorem verbatim?_eq_some {text content : List Char} {length : Nat}
    (found : Reader.verbatim? text = some (content, length)) :
    ∃ body rest, text = body ++ ']' :: rest ∧ length = body.length + 1 := by
  fun_induction Reader.verbatim? text generalizing content length with
  | case1 => cases found
  | case2 rest ih =>
    obtain ⟨⟨more, count⟩, given, same⟩ := Option.map_eq_some_iff.1 found
    cases same
    obtain ⟨body, rest, rfl, rfl⟩ := ih given
    exact ⟨'\\' :: ']' :: ']' :: body, rest, rfl, rfl⟩
  | case3 rest =>
    cases found
    exact ⟨[']'], rest, rfl, rfl⟩
  | case4 c _ _ _ ih =>
    obtain ⟨⟨more, count⟩, given, same⟩ := Option.map_eq_some_iff.1 found
    cases same
    obtain ⟨body, rest, rfl, rfl⟩ := ih given
    exact ⟨c :: body, rest, rfl, rfl⟩

theorem two_le_verbatim? {text content : List Char} {length : Nat}
    (found : Reader.verbatim? text = some (content, length)) :
    2 ≤ length ∧ length ≤ text.length := by
  fun_induction Reader.verbatim? text generalizing content length with
  | case1 => cases found
  | case2 rest ih =>
    obtain ⟨⟨more, count⟩, given, same⟩ := Option.map_eq_some_iff.1 found
    cases same
    have := ih given
    simp only [List.length_cons]
    omega
  | case3 =>
    cases found
    simp
  | case4 _ _ _ _ ih =>
    obtain ⟨⟨more, count⟩, given, same⟩ := Option.map_eq_some_iff.1 found
    cases same
    have := ih given
    rw [List.length_cons]
    omega

open Reader in
/-- Verbatim text that ends within the front of a text ends there whatever follows. -/
theorem verbatim?_of_short {content : List Char} {length : Nat}
    (found : verbatim? (front ++ back) = some (content, length)) (short : length ≤ front.length)
    (other : List Char) : verbatim? (front ++ other) = some (content, length) := by
  generalize whole : front ++ back = text at found
  have sizes := congrArg List.length whole
  rw [List.length_append] at sizes
  fun_induction verbatim? text generalizing front content length with
  | case1 => cases found
  | case2 rest ih =>
    obtain ⟨⟨more, count⟩, given, same⟩ := Option.map_eq_some_iff.1 found
    cases same
    simp only [List.length_cons] at sizes
    obtain ⟨_, rfl, inner⟩ := exists_cons_of_append whole (by simp only [List.length_cons]; omega)
    obtain ⟨_, rfl, deeper⟩ := exists_cons_of_append inner (by simp only [List.length_cons]; omega)
    obtain ⟨_, rfl, last⟩ := exists_cons_of_append deeper (by omega)
    simp only [List.length_cons] at sizes
    rw [List.cons_append, List.cons_append, List.cons_append, verbatim?,
      ih (Nat.le_of_add_le_add_right short) last given (by omega)]
    rfl
  | case3 rest =>
    cases found
    simp only [List.length_cons] at sizes
    obtain ⟨_, rfl, behind⟩ := exists_cons_of_append whole (by simp only [List.length_cons]; omega)
    obtain ⟨_, rfl, -⟩ := exists_cons_of_append behind (by omega)
    rfl
  | case4 c rest escaped closing ih =>
    obtain ⟨⟨more, count⟩, given, same⟩ := Option.map_eq_some_iff.1 found
    cases same
    have least := two_le_verbatim? given
    rw [List.length_cons] at sizes
    obtain ⟨inner, rfl, behind⟩ := exists_cons_of_append whole (by omega)
    rw [List.length_cons] at sizes short
    have later := ih (Nat.le_of_add_le_add_right short) behind given (by omega)
    obtain ⟨d, e, last, rfl⟩ : ∃ d e last, inner = d :: e :: last := by
      match inner with
      | [] => simp at short; omega
      | [_] => simp at short; omega
      | d :: e :: last => exact ⟨d, e, last, rfl⟩
    subst behind
    rw [List.cons_append, verbatim?]
    · rw [later]
      rfl
    · intro _ backslash split
      cases split
      exact escaped _ backslash rfl
    · intro _ bracket split
      cases split
      exact closing _ bracket rfl

/-- Verbatim text that no bracket behind the front can end ends there whatever follows. -/
theorem verbatim?_of_not_mem (missing : ']' ∉ back) {content : List Char} {length : Nat}
    (found : Reader.verbatim? (front ++ back) = some (content, length)) :
    length ≤ front.length ∧
      ∀ other, Reader.verbatim? (front ++ other) = some (content, length) := by
  obtain ⟨body, rest, split, ends⟩ := verbatim?_eq_some found
  have less := length_lt_of_not_mem missing split
  have sizes := congrArg List.length split
  simp only [List.length_append, List.length_cons] at sizes less
  have short : length ≤ front.length := by omega
  exact ⟨short, verbatim?_of_short found short⟩

/-- A literal that ends within the front of a text ends there whatever follows. -/
theorem Quoted.find_of_short {quote : Char} {opening offset : Nat} {close : Cursor}
    (found : find quote opening offset (front ++ back) = .ok close)
    (short : back.length < close.size) : ∃ body rest, front = body ++ quote :: rest ∧
      ∀ opening offset other, find quote opening offset (front ++ other) =
        .ok ⟨offset + byteLength body, quote :: rest ++ other⟩ := by
  generalize whole : front ++ back = text at found
  fun_induction find quote opening offset text generalizing front with
  | case1 => cases found
  | case2 => cases found
  | case3 offset next later ih =>
    have behind := size_find_le found
    obtain ⟨_, rfl, inner⟩ := exists_cons_of_append whole (by rw [List.length_cons]; omega)
    obtain ⟨_, rfl, last⟩ := exists_cons_of_append inner (by omega)
    obtain ⟨body, rest, rfl, finds⟩ := ih last found
    refine ⟨'\\' :: next :: body, rest, rfl, fun opening offset other => ?_⟩
    rw [List.cons_append, List.cons_append, find, if_pos rfl, finds]
    simp [Nat.add_assoc]
  | case4 => cases found
  | case5 offset rest noEscape noBreak =>
    cases found
    obtain ⟨rest, rfl, -⟩ := exists_cons_of_append whole (Nat.le_of_lt_succ short)
    refine ⟨[], rest, rfl, fun opening offset other => ?_⟩
    rw [List.cons_append, find.eq_def]
    dsimp only
    rw [if_neg noEscape, if_neg noBreak, if_pos rfl]
    rfl
  | case6 offset c rest noEscape noBreak noQuote ih =>
    have behind := size_find_le found
    obtain ⟨_, rfl, inner⟩ := exists_cons_of_append whole (by omega)
    obtain ⟨body, rest, rfl, finds⟩ := ih inner found
    refine ⟨c :: body, rest, rfl, fun opening offset other => ?_⟩
    rw [List.cons_append, find.eq_def]
    dsimp only
    rw [if_neg noEscape, if_neg noBreak, if_neg noQuote, finds]
    simp [Nat.add_assoc]

/-- A literal that no quote behind the front can end ends there whatever follows. -/
theorem Quoted.find_of_not_mem {quote : Char} {opening offset : Nat} {close : Cursor}
    (missing : quote ∉ back) (found : find quote opening offset (front ++ back) = .ok close) :
    ∃ body rest, front = body ++ quote :: rest ∧
      ∀ opening offset other, find quote opening offset (front ++ other) =
        .ok ⟨offset + byteLength body, quote :: rest ++ other⟩ := by
  obtain ⟨body, rest, split, rfl⟩ := find_eq_ok found
  exact find_of_short found (length_lt_of_not_mem missing split)

namespace Extent

/-- Two states that differ in where what the search is inside of was opened. -/
structure State.Parallel (first second : State) : Prop where
  mode : first.mode = second.mode
  depth : first.depth = second.depth
  regexMayStart : first.regexMayStart = second.regexMayStart

/-- Two steps that lead to states that differ so. -/
inductive Step.Parallel : Step → Step → Prop where
  | one {first second : State} (parallel : first.Parallel second) : Parallel (.one first) (.one second)
  | two {first second : State} (parallel : first.Parallel second) : Parallel (.two first) (.two second)
  | close : Parallel .close .close
  | fail (error other : ReadError) : Parallel (.fail error) (.fail other)

variable {state first second : State} {offset place : Nat} {c : Char} {next : Option Char}

namespace State.Parallel

variable (parallel : first.Parallel second)
include parallel

theorem withMode (mode : Mode) :
    Parallel { first with mode := mode } { second with mode := mode } :=
  ⟨rfl, parallel.depth, parallel.regexMayStart⟩

theorem withDepth (depth : Nat) :
    Parallel { first with depth := depth } { second with depth := depth } :=
  ⟨parallel.mode, rfl, parallel.regexMayStart⟩

theorem enter (mode : Mode) (offset place : Nat) :
    Parallel (first.enter mode offset) (second.enter mode place) :=
  ⟨rfl, parallel.depth, parallel.regexMayStart⟩

theorem leave (c : Char) : Parallel (first.leave c) (second.leave c) :=
  ⟨rfl, parallel.depth, rfl⟩

theorem pass (c : Char) : Parallel (first.pass c) (second.pass c) := by
  unfold State.pass
  split
  · exact parallel
  · exact ⟨parallel.mode, parallel.depth, rfl⟩

end State.Parallel

theorem step_parallel (parallel : first.Parallel second) (offset place : Nat) (c : Char)
    (next : Option Char) : (step first offset c next).Parallel (step second place c next) := by
  unfold step
  rw [parallel.mode]
  cases second.mode with
  | code =>
    simp only [stepCode, parallel.regexMayStart]
    split
    · exact .one (parallel.enter ..)
    split
    · exact .one (parallel.enter ..)
    split
    · split
      · exact .two (parallel.withMode _)
      split
      · exact .two (parallel.enter ..)
      split
      · exact .one (parallel.enter ..)
      · exact .one (parallel.pass _)
    split
    · rw [parallel.depth]
      exact .one ((parallel.pass _).withDepth _)
    split
    · rw [parallel.depth]
      split
      · exact .close
      · exact .one ((parallel.pass _).withDepth _)
    · exact .one (parallel.pass _)
  | quoted quote =>
    simp only
    split
    · exact .two parallel
    split
    · exact .fail ..
    split
    · exact .one (parallel.leave _)
    · exact .one parallel
  | template =>
    simp only
    split
    · exact .two parallel
    split
    · exact .one (parallel.leave _)
    · exact .one parallel
  | lineComment =>
    simp only
    split
    · exact .one (parallel.withMode _)
    · exact .one parallel
  | blockComment =>
    simp only
    split
    · exact .two (parallel.withMode _)
    · exact .one parallel
  | regex inClass =>
    simp only
    split
    · exact .two parallel
    split
    · exact .fail ..
    split
    · exact .one (parallel.withMode _)
    split
    · exact .one (parallel.withMode _)
    split
    · exact .one (parallel.leave _)
    · exact .one parallel

section Steps

variable {later : State} (parallel : first.Parallel second)
include parallel

theorem step_one_of_parallel (stepped : step first offset c next = .one later) (place : Nat) :
    ∃ other, step second place c next = .one other ∧ later.Parallel other := by
  have steps := step_parallel parallel offset place c next
  rw [stepped] at steps
  generalize step second place c next = taken at steps
  cases steps with
  | one parallel => exact ⟨_, rfl, parallel⟩

theorem step_two_of_parallel (stepped : step first offset c next = .two later) (place : Nat) :
    ∃ other, step second place c next = .two other ∧ later.Parallel other := by
  have steps := step_parallel parallel offset place c next
  rw [stepped] at steps
  generalize step second place c next = taken at steps
  cases steps with
  | two parallel => exact ⟨_, rfl, parallel⟩

/-- A bracket closes a script whatever follows it. -/
theorem step_close_of_parallel (stepped : step first offset c next = .close) (place : Nat)
    (other : Option Char) : step second place c other = .close := by
  obtain rfl := eq_of_step_close stepped
  have any : step second place ']' next = step second place ']' other := by
    simp [step, stepCode]
  have steps := step_parallel parallel offset place ']' next
  rw [stepped, any] at steps
  generalize step second place ']' other = taken at steps
  cases steps
  rfl

end Steps

/-- A script that ends within the front of a text ends there whatever follows. -/
theorem find_of_short {opening : Nat} {close : Cursor}
    (found : find opening state offset (front ++ back) = .ok close)
    (short : back.length < close.size) : ∃ body rest, front = body ++ ']' :: rest ∧
      ∀ opening alike place other, state.Parallel alike →
        find opening alike place (front ++ other) =
          .ok ⟨place + byteLength body, ']' :: rest ++ other⟩ := by
  generalize whole : front ++ back = text at found
  fun_induction find opening state offset text generalizing front with
  | case1 => cases found
  | case2 state offset c text later stepped ih =>
    have behind := size_find_le found
    obtain ⟨inner, rfl, shorter⟩ := exists_cons_of_append whole (by omega)
    obtain ⟨body, rest, rfl, finds⟩ := ih shorter found
    refine ⟨c :: body, rest, rfl, fun opening alike place other parallel => ?_⟩
    have next : text.head? = (body ++ ']' :: rest ++ other).head? := by
      rw [← shorter]
      cases body <;> rfl
    obtain ⟨further, stepped, parallel⟩ := step_one_of_parallel parallel stepped place
    rw [next] at stepped
    rw [List.cons_append, List.cons_append, find, stepped]
    dsimp only
    rw [finds _ _ _ _ parallel]
    simp [Nat.add_assoc]
  | case3 => cases found
  | case4 state offset c later next text stepped ih =>
    have behind := size_find_le found
    obtain ⟨inner, rfl, shorter⟩ := exists_cons_of_append whole (by rw [List.length_cons]; omega)
    obtain ⟨deeper, rfl, shortest⟩ := exists_cons_of_append shorter (by omega)
    obtain ⟨body, rest, rfl, finds⟩ := ih shortest found
    refine ⟨c :: next :: body, rest, rfl, fun opening alike place other parallel => ?_⟩
    obtain ⟨further, stepped, parallel⟩ := step_two_of_parallel parallel stepped place
    rw [List.cons_append, List.cons_append, find, List.cons_append, List.head?_cons]
    rw [List.head?_cons] at stepped
    rw [stepped]
    dsimp only
    rw [finds _ _ _ _ parallel]
    simp [Nat.add_assoc]
  | case5 state offset c text stepped =>
    cases found
    obtain ⟨rest, rfl, -⟩ := exists_cons_of_append whole (Nat.le_of_lt_succ short)
    obtain rfl := eq_of_step_close stepped
    refine ⟨[], rest, rfl, fun opening alike place other parallel => ?_⟩
    rw [List.cons_append, find, step_close_of_parallel parallel stepped place]
    rfl
  | case6 => cases found

/-- A search that fails names something that is not closed. -/
theorem find_eq_error {opening : Nat} {text : List Char} {error : ReadError}
    (failed : find opening state offset text = .error error) :
    ∃ place kind, error = .unclosedScript place kind := by
  have atEnd : ∀ state, ∃ place kind, errorAtEnd opening state = .unclosedScript place kind := by
    intro state
    unfold errorAtEnd
    split <;> exact ⟨_, _, rfl⟩
  fun_induction find opening state offset text with
  | case1 => cases failed; exact atEnd _
  | case2 _ _ _ _ _ _ ih => exact ih failed
  | case3 => cases failed; exact atEnd _
  | case4 _ _ _ _ _ _ _ ih => exact ih failed
  | case5 => cases failed
  | case6 state offset c rest error' stepped =>
    cases failed
    unfold step stepCode at stepped
    grind

/-- A script that no bracket behind the front can end ends there whatever follows. -/
theorem find_of_not_mem {opening : Nat} {close : Cursor} (missing : ']' ∉ back)
    (found : find opening state offset (front ++ back) = .ok close) :
    ∃ body rest, front = body ++ ']' :: rest ∧
      ∀ opening alike place other, state.Parallel alike →
        find opening alike place (front ++ other) =
          .ok ⟨place + byteLength body, ']' :: rest ++ other⟩ := by
  obtain ⟨body, rest, split, rfl⟩ := find_eq_ok found
  exact find_of_short found (length_lt_of_not_mem missing split)

end Extent

/-! ## Literals and scripts -/

namespace Reader

/-- A text up to a place in it. -/
theorem textUntil_of_split {cursor close : Cursor} {inside rest : List Char}
    (split : cursor.rest = inside ++ rest) (same : close.rest = rest) :
    cursor.textUntil close = inside := by
  simp [Cursor.textUntil, Cursor.size, split, same]

/-- A literal that ends within the front of a text is what stands in it, whatever follows. -/
theorem quoted_of_finds {quote : Char} {body rest back : List Char}
    (finds : ∀ opening offset other,
      Quoted.find quote opening offset (body ++ quote :: rest ++ other) =
        .ok ⟨offset + byteLength body, quote :: rest ++ other⟩)
    {cursor : Cursor} {lexed : Lexed cursor} (read : cursor.next = .ok lexed)
    (opens : lexed.token.kind.quote? = some quote)
    (split : lexed.after.rest = body ++ quote :: rest ++ back) :
    ∃ reading, quoted cursor = .ok reading ∧ reading.value = .ofList (Quoted.decode body) ∧
      reading.rest = ⟨lexed.after.offset + byteLength (body ++ [quote]), rest ++ back⟩ := by
  have outcome := Indexed.quoted_eq read opens
  simp only [split, finds] at outcome
  obtain ⟨reading, given, view⟩ := outcome
  rw [textUntil_of_split (split.trans (List.append_assoc ..)) rfl] at view
  obtain ⟨value, behind⟩ := Prod.mk.inj view
  refine ⟨reading, given, value, ?_⟩
  rw [behind, byteLength_append, ← Nat.add_assoc]
  rfl

/-- Verbatim text that ends within the front of a text is what stands in it, whatever follows. -/
theorem verbatim_of_finds {content : List Char} {length : Nat} (within : length ≤ front.length)
    (finds : ∀ other, verbatim? (front ++ other) = some (content, length)) (opening : Nat)
    {cursor : Cursor} (split : cursor.rest = front ++ back) :
    ∃ reading, verbatim opening cursor = .ok reading ∧ reading.value = .ofList content ∧
      reading.rest =
        ⟨cursor.offset + byteLength (front.take length), front.drop length ++ back⟩ := by
  have found := finds back
  rw [← split] at found
  have outcome : ∃ reading, verbatim opening cursor = .ok reading ∧
      reading.value = .ofList content ∧ reading.rest = cursor.skip length := by
    rw [verbatim]
    simp only [found]
    exact ⟨_, rfl, rfl, rfl⟩
  obtain ⟨reading, given, value, last⟩ := outcome
  refine ⟨reading, given, value, ?_⟩
  rw [last, Cursor.skip, split, List.take_append_of_le_length within,
    List.drop_append_of_le_length within]

/-- A script that ends within the front of a text is what stands in it, whatever follows. -/
theorem script_of_finds {place : Nat} {inside rest back : List Char}
    (finds : ∀ opening alike offset other, (Extent.State.initial place none).Parallel alike →
      Extent.find opening alike offset (inside ++ ']' :: rest ++ other) =
        .ok ⟨offset + byteLength inside, ']' :: rest ++ other⟩)
    (opening : Nat) {body : Cursor} (split : body.rest = inside ++ ']' :: rest ++ back) :
    ∃ reading, script opening body = .ok reading ∧ reading.value.source = .ofList inside ∧
      reading.rest = ⟨body.offset + byteLength (inside ++ [']']), rest ++ back⟩ := by
  have outcome := Indexed.script_eq opening body
  simp only [split, finds opening (.initial body.offset none) body.offset back ⟨rfl, rfl, rfl⟩]
    at outcome
  obtain ⟨reading, given, view⟩ := outcome
  rw [textUntil_of_split (split.trans (List.append_assoc ..)) rfl] at view
  obtain ⟨value, behind⟩ := Prod.mk.inj view
  refine ⟨reading, given, by rw [value], ?_⟩
  rw [behind, byteLength_append, ← Nat.add_assoc]
  rfl

end Reader

/-! ## Tokens -/

namespace Cursor

variable {cursor after : Cursor} {token : Token}

/-- The next token at the cursor, and the place behind it. -/
def Takes (cursor : Cursor) (token : Token) (after : Cursor) : Prop :=
  ∃ lexed : Lexed cursor, cursor.next = .ok lexed ∧ lexed.token = token ∧ lexed.after = after

theorem Takes.lexed (takes : cursor.Takes token after) {lexed : Lexed cursor}
    (read : cursor.next = .ok lexed) : lexed.token = token ∧ lexed.after = after := by
  obtain ⟨found, given, rfl, rfl⟩ := takes
  cases read.symm.trans given
  exact ⟨rfl, rfl⟩

/-- The end of the text is a token. -/
theorem takes_end (none : cursor.rest = []) : cursor.Takes cursor.token cursor := by
  rw [Takes, next, dif_pos none]
  exact ⟨_, rfl, rfl, rfl⟩

section Lexemes

variable (more : cursor.rest ≠ [])
include more

/-- A lexeme that is no comment is a token. -/
theorem takes_lexeme (line : cursor.token.kind ≠ .lineComment)
    (comment : cursor.token.kind ≠ .blockCommentStart) :
    cursor.Takes cursor.token cursor.afterLexeme := by
  rw [Takes, next, dif_neg more]
  split
  · rename_i isLine
    exact absurd isLine line
  · rename_i isComment
    exact absurd isComment comment
  · exact ⟨_, rfl, rfl, rfl⟩

/-- A line comment is passed. -/
theorem Takes.line (line : cursor.token.kind = .lineComment)
    (behind : (cursor.afterLexeme.skip (lengthToLineBreak cursor.afterLexeme.rest)).Takes token
      after) : cursor.Takes token after := by
  obtain ⟨lexed, read, rfl, rfl⟩ := behind
  rw [Takes, next, dif_neg more]
  simp only [line, read]
  exact ⟨_, rfl, rfl, rfl⟩

/-- A block comment is a blank without width. -/
theorem takes_comment {length : Nat} (comment : cursor.token.kind = .blockCommentStart)
    (closed : lengthOfBlockComment? cursor.afterLexeme.rest = some length) :
    cursor.Takes ⟨.whitespace, (cursor.afterLexeme.skip length).offset,
      (cursor.afterLexeme.skip length).offset, " "⟩ (cursor.afterLexeme.skip length) := by
  rw [Takes, next, dif_neg more]
  simp only [comment]
  split
  · rename_i unclosed
    cases closed.symm.trans unclosed
  · rename_i same
    cases closed.symm.trans same
    exact ⟨_, rfl, rfl, rfl⟩

/-- A comment that nothing closes is an error. -/
theorem next_unclosed (comment : cursor.token.kind = .blockCommentStart)
    (unclosed : lengthOfBlockComment? cursor.afterLexeme.rest = none) :
    cursor.next = .error (.malformed cursor.offset .unclosedComment) := by
  rw [next, dif_neg more]
  simp only [comment]
  split
  · rfl
  · rename_i same
    cases unclosed.symm.trans same

end Lexemes

theorem lexeme_shift {other : Cursor} (same : other.rest = cursor.rest) :
    other.token.kind = cursor.token.kind ∧ other.token.text = cursor.token.text ∧
      other.afterLexeme.rest = cursor.afterLexeme.rest := by
  simp only [Cursor.token, afterLexeme, skip, same, and_self]

/-- What is read next depends on the text behind a cursor, up to offsets. -/
theorem next_shift {other : Cursor} (same : other.rest = cursor.rest) {lexed : Lexed cursor}
    (read : cursor.next = .ok lexed) : ∃ found : Lexed other, other.next = .ok found ∧
      found.token.kind = lexed.token.kind ∧ found.token.text = lexed.token.text ∧
      found.after.rest = lexed.after.rest := by
  fun_induction Cursor.next cursor generalizing other with
  | case1 cursor none =>
    cases read
    obtain ⟨kind, meant, -⟩ := lexeme_shift same
    obtain ⟨found, given, isToken, isAfter⟩ := takes_end (same.trans none)
    exact ⟨found, given, by rw [isToken, kind], by rw [isToken, meant], by rw [isAfter, same]⟩
  | case2 => cases read
  | case3 cursor more progress line resumed _ tail given =>
    rename_i ih
    cases read
    obtain ⟨kind, -, behind⟩ := lexeme_shift same
    have rests : (other.afterLexeme.skip (lengthToLineBreak other.afterLexeme.rest)).rest
        = resumed.rest := by
      simp only [skip, behind, resumed]
    obtain ⟨found, given, kinds, texts, rests⟩ := ih rests given
    obtain ⟨whole, read, isToken, isAfter⟩ :=
      Takes.line (same ▸ more) (kind.trans line) ⟨found, given, rfl, rfl⟩
    exact ⟨whole, read, by rw [isToken, kinds], by rw [isToken, texts], by rw [isAfter, rests]⟩
  | case4 => cases read
  | case5 cursor more progress comment length closed after =>
    cases read
    obtain ⟨kind, -, behind⟩ := lexeme_shift same
    obtain ⟨found, given, isToken, isAfter⟩ :=
      takes_comment (same ▸ more) (kind.trans comment) (behind ▸ closed)
    refine ⟨found, given, by rw [isToken], by rw [isToken], ?_⟩
    simp only [isAfter, skip, behind, after]
  | case6 cursor more progress line comment =>
    cases read
    obtain ⟨kind, meant, behind⟩ := lexeme_shift same
    obtain ⟨found, given, isToken, isAfter⟩ := takes_lexeme (same ▸ more)
      (by rwa [kind]) (by rwa [kind])
    exact ⟨found, given, by rw [isToken, kind], by rw [isToken, meant], by rw [isAfter, behind]⟩

end Cursor

/-- What is met first in the front of a text. -/
inductive Meets (offset : Nat) (front back : List Char) : Prop
  /-- A token of the front, whatever follows. -/
  | token (token : Token) (passed later : List Char) (split : front = passed ++ later)
    (some : passed ≠ []) (takes : ∀ other, (lexeme (front ++ other)).length ≤ front.length →
      Cursor.Takes ⟨offset, front ++ other⟩ token ⟨offset + byteLength passed, later ++ other⟩)
  /-- A line comment that goes on behind the front. -/
  | line (later : List Char) (split : front = '/' :: '/' :: later) (unbroken : '\n' ∉ later)
  /-- A block comment that goes on behind the front. -/
  | comment (later : List Char) (split : front = '/' :: '*' :: later)
    (beyond : ∀ length, lengthOfBlockComment? (later ++ back) = some length → later.length < length)
  /-- A lexeme that goes on behind the front. -/
  | across (long : front.length < (lexeme (front ++ back)).length)

namespace Lexeme

/-- The mark of a comment is a lexeme of two characters. -/
theorem eq_of_mark {text mark : List Char} {kind : TokenKind}
    (marks : (mark, kind) = (['/', '/'], .lineComment) ∨
      (mark, kind) = (['/', '*'], .blockCommentStart))
    (found : (lexeme text).kind = kind) :
    lexeme text = ⟨kind, String.ofList mark, 2⟩ ∧ ∃ rest, text = mark ++ rest := by
  cases text with
  | nil => rcases marks with same | same <;> cases same <;> cases found
  | cons first rest =>
    by_cases escape : first = '\\'
    · subst escape
      have kinds : ∀ rest, (ofEscape rest).kind = .whitespace ∨ (ofEscape rest).kind = .text := by
        intro rest
        cases rest with
        | nil => exact .inr rfl
        | cons c rest =>
          rw [ofEscape_cons]
          split
          · exact .inl rfl
          · split
            · exact .inl rfl
            · split <;> exact .inr rfl
      have := kinds rest
      rw [show (lexeme ('\\' :: rest)).kind = (ofEscape rest).kind from rfl] at found
      rw [found] at this
      rcases marks with same | same <;> cases same <;> simp at this
    · obtain ⟨read, run, lexed, runs, taken⟩ := lexeme_eq_run escape rest
      rw [lexed] at found ⊢
      subst found
      have all : ∀ entry ∈ spellings, (entry.2 = .lineComment → entry.1 = ['/', '/']) ∧
          (entry.2 = .blockCommentStart → entry.1 = ['/', '*']) := by decide
      obtain ⟨later, split⟩ := taken
      rcases marks with same | same <;> cases same <;> cases runs with
      | fixed listed =>
        first
        | obtain rfl := (all _ listed).1 rfl
          exact ⟨rfl, later, split.symm⟩
        | obtain rfl := (all _ listed).2 rfl
          exact ⟨rfl, later, split.symm⟩

end Lexeme

section Meets

variable (offset : Nat)

/-- Skipping a part of the front leads into the front. -/
theorem Cursor.skip_front {count : Nat} (within : count ≤ front.length) (other : List Char) :
    Cursor.skip ⟨offset, front ++ other⟩ count
      = ⟨offset + byteLength (front.take count), front.drop count ++ other⟩ := by
  simp [Cursor.skip, List.take_append_of_le_length within, List.drop_append_of_le_length within]

theorem meets_lineBreak {later : List Char} (broken : '\n' ∈ later) :
    Meets offset ('/' :: '/' :: later) back := by
  obtain ⟨mark, rest, isMark, split⟩ := exists_lineBreak broken
  have within := (lengthToLineBreak_of_mem broken []).2
  generalize length : lengthToLineBreak later = count at split within
  have whole : later = later.take count ++ (mark ++ rest) := by
    rw [← split, List.take_append_drop]
  have marked : ∀ other, lexeme (mark ++ other) = ⟨.newline, String.ofList mark, mark.length⟩ := by
    rcases isMark with rfl | rfl <;> exact fun _ => rfl
  have some : mark ≠ [] := by rcases isMark with rfl | rfl <;> nofun
  let place : Nat := offset + 2 + byteLength (later.take count)
  refine .token ⟨.newline, place, place + byteLength mark, String.ofList mark⟩
    ('/' :: '/' :: (later.take count ++ mark)) rest (by simp [← whole]) nofun fun other _ => ?_
  refine Cursor.Takes.line nofun rfl ?_
  have behind : Cursor.afterLexeme ⟨offset, '/' :: '/' :: later ++ other⟩ =
      ⟨offset + 2, later ++ other⟩ :=
    Cursor.skip_front offset (show 2 ≤ ('/' :: '/' :: later).length by simp) other
  have ends := (lengthToLineBreak_of_mem broken other).1
  rw [length] at ends
  rw [behind, ends, Cursor.skip_front _ (Nat.le_of_lt within), split]
  have takes := @Cursor.takes_lexeme ⟨place, mark ++ rest ++ other⟩
    (by simp [some]) (by simp [Cursor.token, marked]) (by simp [Cursor.token, marked])
  have past : Cursor.skip ⟨place, mark ++ rest ++ other⟩ mark.length
      = ⟨place + byteLength mark, rest ++ other⟩ :=
    Cursor.skip_of_append (List.append_assoc ..)
  rw [List.append_assoc] at past
  simp only [Cursor.token, Cursor.afterLexeme, List.append_assoc, marked, past] at takes
  have same : offset + byteLength ('/' :: '/' :: (later.take count ++ mark))
      = place + byteLength mark := by
    have slash : '/'.utf8Size = 1 := rfl
    simp only [byteLength_cons, byteLength_append, slash, place]
    omega
  rw [same, List.append_assoc]
  exact takes

theorem meets_comment {later : List Char} {length : Nat}
    (closed : lengthOfBlockComment? (later ++ back) = some length)
    (within : length ≤ later.length) :
    Meets offset ('/' :: '*' :: later) back := by
  let place : Nat := offset + 2 + byteLength (later.take length)
  refine .token ⟨.whitespace, place, place, " "⟩ ('/' :: '*' :: later.take length)
    (later.drop length) (by simp) nofun fun other _ => ?_
  have behind : Cursor.afterLexeme ⟨offset, '/' :: '*' :: later ++ other⟩ =
      ⟨offset + 2, later ++ other⟩ :=
    Cursor.skip_front offset (show 2 ≤ ('/' :: '*' :: later).length by simp) other
  have takes := @Cursor.takes_comment ⟨offset, '/' :: '*' :: later ++ other⟩ nofun length rfl
    (by rw [behind]; exact lengthOfBlockComment?_of_short closed within other)
  rw [behind, Cursor.skip_front _ within] at takes
  have same : offset + byteLength ('/' :: '*' :: later.take length) = place := by
    have marks : '/'.utf8Size = 1 ∧ '*'.utf8Size = 1 := ⟨rfl, rfl⟩
    simp only [byteLength_cons, marks, place]
    omega
  rw [same]
  exact takes

theorem meets_lexeme (some : front ≠ []) (short : (lexeme front).length ≤ front.length)
    (line : (lexeme front).kind ≠ .lineComment)
    (comment : (lexeme front).kind ≠ .blockCommentStart) : Meets offset front back := by
  have positive := Lexeme.length_lexeme_pos some
  refine .token ⟨(lexeme front).kind, offset,
    offset + byteLength (front.take (lexeme front).length),
    (lexeme front).text⟩ (front.take (lexeme front).length) (front.drop (lexeme front).length)
    (List.take_append_drop ..).symm ?_ fun other fits => ?_
  · rw [Ne, List.take_eq_nil_iff, not_or]
    exact ⟨Nat.ne_of_gt positive, some⟩
  · have read := Lexeme.lexeme_of_short fits
    have more : front ++ other ≠ [] := fun empty => some (List.append_eq_nil_iff.1 empty).1
    have takes := @Cursor.takes_lexeme ⟨offset, front ++ other⟩ more
      (by rw [Cursor.token, read]; exact line) (by rw [Cursor.token, read]; exact comment)
    rw [Cursor.token, Cursor.afterLexeme, read, Cursor.skip_front offset short] at takes
    exact takes

/-- A text that is not empty starts with a token, or with something that goes on behind it. -/
theorem meets (some : front ≠ []) (back : List Char) : Meets offset front back := by
  by_cases long : front.length < (lexeme (front ++ back)).length
  · exact .across long
  have short := Nat.le_of_not_lt long
  rw [Lexeme.lexeme_of_short short] at short
  by_cases line : (lexeme front).kind = .lineComment
  · obtain ⟨-, later, rfl⟩ := Lexeme.eq_of_mark (.inl rfl) line
    by_cases broken : '\n' ∈ later
    · exact meets_lineBreak offset broken
    · exact .line later rfl broken
  by_cases comment : (lexeme front).kind = .blockCommentStart
  · obtain ⟨-, later, rfl⟩ := Lexeme.eq_of_mark (.inr rfl) comment
    by_cases closed : ∃ length, lengthOfBlockComment? (later ++ back) = Option.some length ∧
        length ≤ later.length
    · obtain ⟨length, closed, within⟩ := closed
      exact meets_comment offset closed within
    · exact .comment later rfl fun length closes => Nat.lt_of_not_le fun within =>
        closed ⟨length, closes, within⟩
  exact meets_lexeme offset some short line comment

end Meets

end BranchText
