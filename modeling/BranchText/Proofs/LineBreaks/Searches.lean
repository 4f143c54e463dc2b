import BranchText.Proofs.Indexed.Pieces
import BranchText.Proofs.LineBreaks.Respelling

/-!
# Lexemes and literals with either line break

A place of a source has a twin in the source with carriage returns. Lexemes, comments and verbatim
text end at twins, and so do scripts and quoted literals, but for one thing: a backslash takes a
line feed along, and of a carriage return and a line feed only the first. In a string, a regex
literal or a quoted literal the line feed that is left is one too many.
-/

namespace BranchText

/-- The places of two sources, the second of which is the first with carriage returns. -/
def Twins (source : List Char) (cursor other : Cursor) : Prop :=
  ∃ front, source = front ++ cursor.rest ∧
    other = ⟨byteLength (withReturns front), withReturns cursor.rest⟩

/-- The inside of a literal: a backslash takes what is behind it along, and no line break stands
without one. -/
inductive Unbroken : List Char → Prop
  | nil : Unbroken []
  | char {body : List Char} {c : Char} (before : Unbroken body) (plain : c ≠ '\\')
    (line : c ≠ '\n') : Unbroken (body ++ [c])
  | escape {body : List Char} (before : Unbroken body) (c : Char) : Unbroken (body ++ ['\\', c])

/-- What is reported of a literal that the character opens and that does not end on its line. -/
inductive Opens : Char → OpenText → Prop
  | double {text : OpenText} (within : text = .string ∨ text = .quoted) : Opens '\x22' text
  | single {text : OpenText} (within : text = .string ∨ text = .quoted) : Opens '\x27' text
  | regex : Opens '/' .regex

/-- A literal in which a line break is escaped is reported, where it opens, not to end. -/
inductive CutShort (source : List Char) : ReadError → Prop
  | of {front body back : List Char} {opening : Char} {text : OpenText}
    (split : source = front ++ opening :: body ++ '\\' :: '\n' :: back) (unbroken : Unbroken body)
    (opens : Opens opening text) :
    CutShort source (.unclosedScript (byteLength (withReturns front)) text)

section Offsets

variable {c : Char}

/-- Behind one more character. -/
theorem offset_push (line : c ≠ '\n') (front : List Char) :
    byteLength (withReturns front) + c.utf8Size = byteLength (withReturns (front ++ [c])) := by
  rw [withReturns_append, withReturns_cons line, byteLength_append]
  rfl

/-- Behind one more line break. -/
theorem offset_lineFeed (front : List Char) :
    byteLength (withReturns front) + '\r'.utf8Size + '\n'.utf8Size =
      byteLength (withReturns (front ++ ['\n'])) := by
  rw [withReturns_append, byteLength_append, Nat.add_assoc]
  rfl

end Offsets

section Twins

variable {source front : List Char} {cursor other close last : Cursor}

theorem twins_start (source : List Char) :
    Twins source (.start source) (.start (withReturns source)) := ⟨[], rfl, rfl⟩

theorem Twins.rest (twins : Twins source cursor other) : other.rest = withReturns cursor.rest := by
  obtain ⟨front, -, rfl⟩ := twins
  rfl

/-- The characters in front of twins are the same but for carriage returns. -/
theorem Twins.skip (twins : Twins source cursor other) {count length : Nat}
    (same : length = (withReturns (cursor.rest.take count)).length) :
    Twins source (cursor.skip count) (other.skip length) := by
  obtain ⟨front, split, rfl⟩ := twins
  have parts : withReturns cursor.rest =
      withReturns (cursor.rest.take count) ++ withReturns (cursor.rest.drop count) := by
    rw [← withReturns_append, List.take_append_drop]
  refine ⟨front ++ cursor.rest.take count, ?_, ?_⟩
  · rw [Cursor.skip, List.append_assoc, List.take_append_drop]
    exact split
  · rw [Cursor.skip, parts, same, List.take_left, List.drop_left, withReturns_append,
      byteLength_append]
    rfl

/-- The text between twins. -/
theorem Twins.textUntil (twins : Twins source cursor other) (behind : Twins source close last)
    (split : cursor.rest = front ++ close.rest) :
    cursor.textUntil close = front ∧ other.textUntil last = withReturns front := by
  have same := twins.rest
  rw [split, withReturns_append] at same
  constructor
  · simp [Cursor.textUntil, Cursor.size, split]
  · simp [Cursor.textUntil, Cursor.size, same, behind.rest]

/-- There is one twin of a place. -/
theorem Twins.eq_of_split (twins : Twins source cursor other)
    (split : source = front ++ cursor.rest) :
    other = ⟨byteLength (withReturns front), withReturns cursor.rest⟩ := by
  obtain ⟨before, also, rfl⟩ := twins
  rw [List.append_cancel_right (also.symm.trans split)]

/-- Behind a character that is no line break. -/
theorem Twins.skip_one {c : Char} {rest : List Char} (twins : Twins source cursor other)
    (text : cursor.rest = c :: rest) (line : c ≠ '\n') :
    Twins source (cursor.skip 1) (other.skip 1) := by
  refine twins.skip ?_
  rw [text, List.take_succ_cons, List.take_zero, withReturns_cons line]
  rfl

end Twins

/-! ## Script blocks -/

namespace Extent

/-- The literal that a search in this mode is inside of: what opens it, and what is reported of
it. -/
def Mode.literal? : Mode → Option (Char × OpenText)
  | .quoted quote => some (quote, .string)
  | .regex _ => some ('/', .regex)
  | _ => none

/-- Two searches are at the same point of a script, behind the same text but for carriage
returns. -/
structure InStep (front : List Char) (state other : State) : Prop where
  mode : other.mode = state.mode
  depth : other.depth = state.depth
  significant : other.significant = state.significant
  literal : ∀ opening text, state.mode.literal? = some (opening, text) → Opens opening text ∧
    ∃ before body, front = before ++ opening :: body ∧ Unbroken body ∧
      other.opened = byteLength (withReturns before)

/-- Steps that lead to the same point, or end both searches. -/
inductive StepsTogether (front : List Char) (c : Char) : Step → Step → Prop
  | one {state other : State} (together : InStep (front ++ [c]) state other) :
    StepsTogether front c (.one state) (.one other)
  | two {state other : State} (together : ∀ d, InStep (front ++ [c, d]) state other) :
    StepsTogether front c (.two state) (.two other)
  | close : StepsTogether front c .close .close
  | fail {error other : ReadError} : StepsTogether front c (.fail error) (.fail other)

variable {front more : List Char} {state other : State} {offset : Nat} {c : Char}
  {next : Option Char}

/-- Behind a character that opens no literal, in a mode that is inside of none. -/
theorem inStep_outside {mode : Mode} {depth : Nat} {significant : Option Char} {opened place : Nat}
    (outside : mode.literal? = none) :
    InStep front ⟨mode, depth, significant, opened⟩ ⟨mode, depth, significant, place⟩ where
  mode := rfl
  depth := rfl
  significant := rfl
  literal opening text here := by
    rw [outside] at here
    cases here

/-- Behind the character that opens a literal. -/
theorem inStep_opened {mode : Mode} {depth : Nat} {significant : Option Char} {opened : Nat}
    {text : OpenText} (inside : mode.literal? = some (c, text)) (opens : Opens c text) :
    InStep (front ++ [c]) ⟨mode, depth, significant, opened⟩
      ⟨mode, depth, significant, byteLength (withReturns front)⟩ where
  mode := rfl
  depth := rfl
  significant := rfl
  literal opening found here := by
    rw [inside] at here
    cases here
    exact ⟨opens, front, [], rfl, .nil, rfl⟩

/-- Further inside of a literal. -/
theorem InStep.further {mode : Mode} {depth : Nat} {significant : Option Char}
    {opened place : Nat}
    (together : InStep front ⟨mode, depth, significant, opened⟩ ⟨mode, depth, significant, place⟩)
    {inside : Mode} (same : inside.literal? = mode.literal?)
    (unbroken : ∀ body, Unbroken body → Unbroken (body ++ more)) :
    InStep (front ++ more) ⟨inside, depth, significant, opened⟩
      ⟨inside, depth, significant, place⟩ where
  mode := rfl
  depth := rfl
  significant := rfl
  literal opening text here := by
    obtain ⟨opens, before, body, split, within, stands⟩ :=
      together.literal opening text (same.symm.trans here)
    exact ⟨opens, before, body ++ more, by simp [split], unbroken body within, stands⟩

/-- Any character of code is taken alike. -/
theorem codeTogether (depth opened place : Nat) (significant : Option Char) :
    StepsTogether front c (stepCode ⟨.code, depth, significant, opened⟩ offset c next)
      (stepCode ⟨.code, depth, significant, place⟩ (byteLength (withReturns front)) c next) := by
  obtain ⟨later, passed⟩ : ∃ later, ∀ opened,
      State.pass ⟨.code, depth, significant, opened⟩ c = ⟨.code, depth, later, opened⟩ := by
    unfold State.pass
    split
    · exact ⟨_, fun _ => rfl⟩
    · exact ⟨_, fun _ => rfl⟩
  have regex : State.regexMayStart ⟨.code, depth, significant, place⟩ =
      State.regexMayStart ⟨.code, depth, significant, opened⟩ := rfl
  simp only [stepCode, regex, passed]
  split
  · rename_i quote
    rw [Bool.or_eq_true, decide_eq_true_eq, decide_eq_true_eq] at quote
    rcases quote with rfl | rfl
    · exact .one (inStep_opened rfl (.double (.inl rfl)))
    · exact .one (inStep_opened rfl (.single (.inl rfl)))
  split
  · exact .one (inStep_outside rfl)
  split
  · split
    · exact .two fun d => inStep_outside rfl
    split
    · exact .two fun d => inStep_outside rfl
    split
    · rename_i slash _ _ _
      subst slash
      exact .one (inStep_opened rfl .regex)
    · exact .one (inStep_outside rfl)
  split
  · exact .one (inStep_outside rfl)
  split
  · split
    · exact .close
    · exact .one (inStep_outside rfl)
  · exact .one (inStep_outside rfl)

/-- Any character but a line feed is taken alike. -/
theorem stepsTogether (together : InStep front state other) (notBreak : c ≠ '\n') :
    StepsTogether front c (step state offset c next)
      (step other (byteLength (withReturns front)) c next) := by
  obtain ⟨mode, depth, significant, opened⟩ := state
  obtain ⟨sameMode, sameDepth, sameSignificant, place⟩ := other
  obtain rfl : sameMode = mode := together.mode
  obtain rfl : sameDepth = depth := together.depth
  obtain rfl : sameSignificant = significant := together.significant
  cases sameMode with
  | code => exact codeTogether ..
  | quoted quote =>
    simp only [step]
    split
    · rename_i escape
      subst escape
      exact .two fun d => together.further rfl fun body before => .escape before d
    · rename_i plain
      split
      · exact .one (inStep_outside rfl)
      · exact .one (together.further rfl fun body before => .char before plain notBreak)
  | template =>
    simp only [step]
    split
    · exact .two fun d => inStep_outside rfl
    split
    · exact .one (inStep_outside rfl)
    · exact .one (inStep_outside rfl)
  | lineComment =>
    simp only [step, if_neg notBreak]
    exact .one (inStep_outside rfl)
  | blockComment =>
    simp only [step]
    split
    · exact .two fun d => inStep_outside rfl
    · exact .one (inStep_outside rfl)
  | regex inClass =>
    simp only [step]
    split
    · rename_i escape
      subst escape
      exact .two fun d => together.further rfl fun body before => .escape before d
    · rename_i plain
      have unbroken : ∀ body, Unbroken body → Unbroken (body ++ [c]) :=
        fun body before => .char before plain notBreak
      split
      · exact .one (together.further rfl unbroken)
      split
      · exact .one (together.further rfl unbroken)
      split
      · exact .one (inStep_outside rfl)
      · exact .one (together.further rfl unbroken)

/-- A carriage return does nothing. -/
theorem step_return (together : InStep front state other) :
    step other offset '\r' next = .one other := by
  obtain ⟨mode, depth, significant, opened⟩ := other
  obtain rfl : mode = state.mode := together.mode
  cases inside : state.mode with
  | quoted quote =>
    have opens := (together.literal quote .string (by rw [inside]; rfl)).1
    have notReturn : '\r' ≠ quote := by
      rintro rfl
      cases opens
    simp [step, notReturn]
  | code => rfl
  | template => rfl
  | lineComment => rfl
  | blockComment => rfl
  | regex inClass => cases inClass <;> rfl

/-- A line feed ends the search in a literal. -/
theorem step_lineFeed_inside {opening : Char} {text : OpenText}
    (inside : state.mode.literal? = some (opening, text)) :
    step state offset '\n' next = .fail (.unclosedScript state.opened text) := by
  obtain ⟨mode, depth, significant, opened⟩ := state
  cases mode with
  | quoted quote =>
    cases inside
    rfl
  | regex inClass =>
    cases inside
    rfl
  | _ => cases inside

/-- Elsewhere it ends at most a comment. -/
theorem step_lineFeed_outside (outside : state.mode.literal? = none) :
    ∃ mode : Mode, mode.literal? = none ∧ ∀ opened offset next,
      step { state with opened := opened } offset '\n' next =
        .one { state with mode := mode, opened := opened } := by
  obtain ⟨mode, depth, significant, opened⟩ := state
  cases mode with
  | code => exact ⟨.code, rfl, fun _ _ _ => rfl⟩
  | template => exact ⟨.template, rfl, fun _ _ _ => rfl⟩
  | lineComment => exact ⟨.code, rfl, fun _ _ _ => rfl⟩
  | blockComment => exact ⟨.blockComment, rfl, fun _ _ _ => rfl⟩
  | _ => cases outside

/-- Only a backslash takes a line feed along, in a template or a literal. -/
theorem step_two_lineFeed {later : State} (stepped : step state offset c (some '\n') = .two later) :
    c = '\\' ∧ later = state ∧
      (state.mode = .template ∨ ∃ literal, state.mode.literal? = some literal) := by
  obtain ⟨mode, depth, significant, opened⟩ := state
  cases mode with
  | code =>
    simp only [step, stepCode] at stepped
    grind
  | lineComment => cases stepped
  | blockComment => simp [step] at stepped
  | template =>
    simp only [step] at stepped
    have escapes : c = '\\' ∧ later = ⟨.template, depth, significant, opened⟩ := by grind
    exact ⟨escapes.1, escapes.2, .inl rfl⟩
  | quoted quote =>
    simp only [step] at stepped
    have escapes : c = '\\' ∧ later = ⟨.quoted quote, depth, significant, opened⟩ := by grind
    exact ⟨escapes.1, escapes.2, .inr ⟨_, rfl⟩⟩
  | regex inClass =>
    simp only [step] at stepped
    have escapes : c = '\\' ∧ later = ⟨.regex inClass, depth, significant, opened⟩ := by grind
    exact ⟨escapes.1, escapes.2, .inr ⟨_, rfl⟩⟩

section Find

variable {source text : List Char} {opening place : Nat}

/-- Behind a line break both searches go on, or both have failed. -/
theorem agree_find_lineFeed {rest : List Char} (together : InStep front state other)
    (goOn : ∀ {later last : State} {offset : Nat},
      InStep (front ++ ['\n']) later last → Agree (CutShort source) (Twins source)
        (find opening later offset rest)
        (find place last (byteLength (withReturns (front ++ ['\n']))) (withReturns rest))) :
    Agree (CutShort source) (Twins source) (find opening state offset ('\n' :: rest))
      (find place other (byteLength (withReturns front)) (withReturns ('\n' :: rest))) := by
  have same := together.mode
  rw [withReturns_lineFeed, find, find, step_return together]
  simp only
  rw [find]
  cases inside : state.mode.literal? with
  | some literal =>
    obtain ⟨opening, text⟩ := literal
    rw [step_lineFeed_inside inside, step_lineFeed_inside (same ▸ inside)]
    exact .errors
  | none =>
    obtain ⟨mode, outside, steps⟩ := step_lineFeed_outside inside
    obtain ⟨last, depth, significant, opened⟩ := other
    obtain rfl : last = state.mode := same
    obtain rfl : depth = state.depth := together.depth
    obtain rfl : significant = state.significant := together.significant
    have first := steps state.opened offset rest.head?
    have second := steps opened (byteLength (withReturns front) + '\r'.utf8Size)
      (withReturns rest).head?
    rw [first, second]
    simp only
    rw [offset_lineFeed]
    exact goOn (inStep_outside outside)

/-- An escaped line break is passed in a template. In a literal only its carriage return is, and the
line feed ends the search. -/
theorem agree_find_escaped {rest : List Char} (split : source = front ++ '\\' :: '\n' :: rest)
    (together : InStep front state other)
    (inside : state.mode = .template ∨ ∃ literal, state.mode.literal? = some literal)
    (passed : Agree (CutShort source) (Twins source) (find opening state offset rest)
      (find place other (byteLength (withReturns (front ++ ['\\', '\n']))) (withReturns rest))) :
    Agree (CutShort source) (Twins source) (find opening state offset rest)
      (find place other (byteLength (withReturns front) + '\\'.utf8Size + '\r'.utf8Size)
        ('\n' :: withReturns rest)) := by
  rw [find.eq_def place]
  simp only
  rcases inside with template | ⟨⟨opening, text⟩, literal⟩
  · have passes : ∀ offset next, step other offset '\n' next = .one other := by
      intro offset next
      rw [step, together.mode, template]
      rfl
    rw [passes]
    simp only
    rw [offset_push (by decide), offset_lineFeed, List.append_assoc]
    exact passed
  · obtain ⟨opens, before, body, rfl, unbroken, stands⟩ := together.literal _ _ literal
    rw [step_lineFeed_inside (together.mode ▸ literal), stands]
    exact .of_reason (.of split unbroken opens)

/-- Searches that are in step find twins, but for literals in which a line break is escaped. -/
theorem agree_find (split : source = front ++ text) (together : InStep front state other) :
    Agree (CutShort source) (Twins source) (find opening state offset text)
      (find place other (byteLength (withReturns front)) (withReturns text)) := by
  induction size : text.length using Nat.strongRecOn
    generalizing front text state other offset with
  | ind length ih =>
    subst size
    match text with
    | [] => exact .errors
    | c :: rest =>
      have below : rest.length < (c :: rest).length := Nat.lt_succ_self _
      by_cases lineFeed : c = '\n'
      · subst lineFeed
        exact agree_find_lineFeed together fun {later last offset} inStep =>
          ih _ below (by simp [split]) inStep rfl
      have sameNext : step other (byteLength (withReturns front)) c (withReturns rest).head? =
          step other (byteLength (withReturns front)) c rest.head? := by
        refine step_next ?_ ?_
        · rw [head?_withReturns]
          split <;> simp_all
        · rw [head?_withReturns]
          split <;> simp_all
      rw [withReturns_cons lineFeed, find, find, sameNext]
      have steps : StepsTogether front c (step state offset c rest.head?)
          (step other (byteLength (withReturns front)) c rest.head?) :=
        stepsTogether together lineFeed
      generalize stepped : step state offset c rest.head? = first at steps
      generalize steppedOther :
        step other (byteLength (withReturns front)) c rest.head? = second at steps
      cases steps with
      | one inStep =>
        simp only
        rw [offset_push lineFeed]
        exact ih _ below (by simp [split]) inStep rfl
      | @two first second inStep =>
        match rest with
        | [] => exact .errors
        | d :: later =>
          have shorter : later.length < (c :: d :: later).length :=
            Nat.lt_trans (Nat.lt_succ_self _) below
          by_cases escapes : d = '\n'
          · subst escapes
            obtain ⟨rfl, same, inside⟩ := step_two_lineFeed stepped
            obtain ⟨-, sameOther, -⟩ := step_two_lineFeed steppedOther
            rw [same, sameOther] at inStep ⊢
            exact agree_find_escaped split together inside
              (ih _ shorter (by simp [split]) (inStep '\n') rfl)
          · rw [withReturns_cons escapes]
            simp only
            rw [offset_push lineFeed, offset_push escapes, List.append_assoc]
            exact ih _ shorter (by simp [split]) (inStep d) rfl
      | close => exact .values ⟨front, split, by rw [withReturns_cons lineFeed]⟩
      | fail => exact .errors

end Find

end Extent

/-! ## Quoted literals and verbatim text -/

namespace Quoted

variable {source before body text : List Char} {quote : Char} {opening offset : Nat}

/-- What is known of a quoted literal so far: only between backticks may it span lines. -/
def Within (quote : Char) (body : List Char) : Prop :=
  quote = '\x60' ∨ Opens quote .quoted ∧ Unbroken body

theorem Within.char {c : Char} (within : Within quote body) (plain : c ≠ '\\')
    (line : c ≠ '\n') : Within quote (body ++ [c]) :=
  within.imp_right fun ⟨opens, unbroken⟩ => ⟨opens, .char unbroken plain line⟩

theorem Within.escape (within : Within quote body) (c : Char) :
    Within quote (body ++ ['\\', c]) :=
  within.imp_right fun ⟨opens, unbroken⟩ => ⟨opens, .escape unbroken c⟩

/-- Nothing of a literal is known behind the character that opens it. -/
theorem Within.of_quote {kind : TokenKind} {quote : Char} (opens : kind.quote? = some quote) :
    Within quote [] := by
  cases kind <;> cases opens
  · exact .inr ⟨.double (.inr rfl), .nil⟩
  · exact .inr ⟨.single (.inr rfl), .nil⟩
  · exact .inl rfl

theorem quote_ne_lineFeed {kind : TokenKind} {quote : Char}
    (opens : kind.quote? = some quote) : quote ≠ '\n' := by
  cases kind <;> cases opens <;> decide

/-- The search passes a carriage return and a line feed between backticks, and ends there
elsewhere. -/
theorem find_lineBreak (within : Within quote body) (opening offset : Nat) (rest : List Char) :
    find quote opening offset ('\r' :: '\n' :: rest) =
      find quote opening (offset + '\r'.utf8Size) ('\n' :: rest) ∧
    find quote opening offset ('\n' :: rest) =
      if quote = '\x60' then find quote opening (offset + '\n'.utf8Size) rest
      else .error (.unclosedScript opening .quoted) := by
  have notQuote : '\r' ≠ quote ∧ '\n' ≠ quote := by
    rcases within with rfl | ⟨opens, -⟩
    · exact ⟨by decide, by decide⟩
    · cases opens <;> exact ⟨by decide, by decide⟩
  constructor
  · rw [find.eq_def]
    simp [notQuote.1]
  · rw [find.eq_def]
    by_cases backtick : quote = '\x60'
    · simp [backtick]
    · simp [backtick]

section Find

variable {front rest : List Char} (within : Within quote body)
include within

/-- Between backticks a line break is passed, elsewhere it ends the search. -/
theorem agree_find_lineBreak
    (goOn : quote = '\x60' → Agree (CutShort source) (Twins source)
      (find quote opening (offset + '\n'.utf8Size) rest)
      (find quote (byteLength (withReturns before))
        (byteLength (withReturns (front ++ ['\n']))) (withReturns rest))) :
    Agree (CutShort source) (Twins source) (find quote opening offset ('\n' :: rest))
      (find quote (byteLength (withReturns before)) (byteLength (withReturns front))
        (withReturns ('\n' :: rest))) := by
  rw [withReturns_lineFeed, (find_lineBreak within _ _ _).1, (find_lineBreak within _ _ _).2,
    (find_lineBreak within _ _ _).2, offset_lineFeed]
  exact .ite Iff.rfl goOn fun _ => .errors

variable (stands : front = before ++ quote :: body)
include stands

/-- Between backticks an escaped line break is passed too. Elsewhere only its carriage return is, and
the line feed ends the search. -/
theorem agree_find_escaped (split : source = front ++ '\\' :: '\n' :: rest)
    (goOn : quote = '\x60' → Agree (CutShort source) (Twins source)
      (find quote opening offset rest)
      (find quote (byteLength (withReturns before))
        (byteLength (withReturns (front ++ ['\\', '\n']))) (withReturns rest))) :
    Agree (CutShort source) (Twins source) (find quote opening offset rest)
      (find quote (byteLength (withReturns before))
        (byteLength (withReturns front) + '\\'.utf8Size + '\r'.utf8Size)
        ('\n' :: withReturns rest)) := by
  subst stands
  rw [(find_lineBreak within _ _ _).2]
  by_cases backtick : quote = '\x60'
  · rw [if_pos backtick, offset_push (by decide), offset_lineFeed, List.append_assoc]
    exact goOn backtick
  · obtain ⟨opens, unbroken⟩ := within.resolve_left backtick
    rw [if_neg backtick]
    exact .of_reason (.of split unbroken opens)

/-- Quoted literals end at twins, unless a line break is escaped in one that does not span
lines. -/
theorem agree_find (split : source = front ++ text) :
    Agree (CutShort source) (Twins source) (find quote opening offset text)
      (find quote (byteLength (withReturns before)) (byteLength (withReturns front))
        (withReturns text)) := by
  induction size : text.length using Nat.strongRecOn generalizing front body text offset with
  | ind length ih =>
    subst size
    match text with
    | [] => exact .errors
    | c :: rest =>
      have below : rest.length < (c :: rest).length := Nat.lt_succ_self _
      have further : ∀ more, front ++ more = before ++ quote :: (body ++ more) := by
        simp [stands]
      by_cases lineFeed : c = '\n'
      · subst lineFeed
        exact agree_find_lineBreak within fun backtick =>
          ih _ below (.inl backtick) (further ['\n']) (by simp [split]) rfl
      rw [withReturns_cons lineFeed, find.eq_def quote opening, find.eq_def]
      simp only [lineFeed, decide_false, Bool.false_and, Bool.false_eq_true, if_false]
      by_cases escape : c = '\\'
      · subst escape
        rw [if_pos rfl, if_pos rfl]
        match rest with
        | [] => exact .errors
        | d :: later =>
          have shorter : later.length < ('\\' :: d :: later).length :=
            Nat.lt_trans (Nat.lt_succ_self _) below
          have escaped := further ['\\', d]
          by_cases escapes : d = '\n'
          · subst escapes
            rw [withReturns_lineFeed]
            exact agree_find_escaped within stands split fun backtick =>
              ih _ shorter (.inl backtick) escaped (by simp [split]) rfl
          · rw [withReturns_cons escapes]
            simp only
            rw [offset_push lineFeed, offset_push escapes, List.append_assoc]
            exact ih _ shorter (within.escape d) escaped (by simp [split]) rfl
      · rw [if_neg escape, if_neg escape]
        refine .ite Iff.rfl (fun _ => ?_) fun _ => ?_
        · exact .values ⟨front, split, by rw [withReturns_cons lineFeed]⟩
        · rw [offset_push lineFeed]
          exact ih _ below (within.char escape lineFeed) (further [c]) (by simp [split]) rfl

end Find

/-- A character that escapes nothing stands for itself. -/
theorem decode_cons {c : Char} {rest : List Char} (plain : c = '\\' → rest = []) :
    decode (c :: rest) = c :: decode rest := by
  by_cases escape : c = '\\'
  · rw [plain escape, escape]
    rfl
  · rw [decode.eq_def]
    split <;> simp_all

/-- What a literal stands for does not depend on how its line breaks are spelled. -/
theorem respelled_decode (text : List Char) :
    Respelled (decode text) (decode (withReturns text)) := by
  fun_induction decode text with
  | case1 => exact .nil
  | case2 rest ih => exact .char _ ih
  | case3 rest ih => exact .char _ ih
  | case4 rest ih => exact .char _ ih
  | case5 c rest n t r ih =>
    by_cases lineFeed : c = '\n'
    · subst lineFeed
      exact .lineBreak ih
    · rw [withReturns_cons (by decide), withReturns_cons lineFeed, decode]
      · exact .char c ih
      all_goals assumption
  | case6 c rest n t r escape ih =>
    by_cases lineFeed : c = '\n'
    · subst lineFeed
      exact .lineBreak ih
    · rw [withReturns_cons lineFeed, decode_cons]
      · exact .char c ih
      · intro isEscape
        cases rest with
        | nil => rfl
        | cons d later => exact (escape d later isEscape rfl).elim

end Quoted

namespace Reader

/-- Verbatim text ends at twins. -/
theorem verbatim?_withReturns (text : List Char) :
    verbatim? (withReturns text) = (verbatim? text).map fun found =>
      (withReturns found.1, (withReturns (text.take found.2)).length) := by
  fun_induction verbatim? text with
  | case1 => rfl
  | case2 rest ih =>
    rw [withReturns_cons (by decide), withReturns_cons (by decide), withReturns_cons (by decide),
      verbatim?, ih, Option.map_map, Option.map_map]
    congr 1
  | case3 => rfl
  | case4 c rest escape closes ih =>
    have step : verbatim? (withReturns (c :: rest)) =
        (verbatim? (withReturns rest)).map fun found =>
          (withReturns [c] ++ found.1, found.2 + (withReturns [c]).length) := by
      by_cases lineFeed : c = '\n'
      · subst lineFeed
        rw [withReturns_lineFeed, verbatim?, verbatim?, Option.map_map]
        · congr 1
        · simp
        · simp
        · simp
        · simp
      · rw [withReturns_cons lineFeed, verbatim?, withReturns_cons lineFeed]
        · rfl
        · intro later isEscape starts
          obtain ⟨more, rfl, behind⟩ := eq_cons_of_withReturns (by decide) starts
          obtain ⟨last, rfl, -⟩ := eq_cons_of_withReturns (by decide) behind
          exact escape last isEscape rfl
        · intro later isBracket starts
          obtain ⟨more, rfl, -⟩ := eq_cons_of_withReturns (by decide) starts
          exact closes more isBracket rfl
    rw [step, ih, Option.map_map, Option.map_map]
    congr 1
    funext found
    simp only [Function.comp, List.take_succ_cons]
    rw [withReturns_cons_eq c found.1, withReturns_cons_eq c (rest.take found.2),
      List.length_append, Nat.add_comm]

end Reader

end BranchText
