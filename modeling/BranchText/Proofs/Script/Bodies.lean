import BranchText.Script.Extent

/-!
# Script bodies

What may stand in a script block, as a grammar (`Extent.IsBody`): code, literals, templates,
comments, divisions, regex literals, and bodies in square brackets. The search for the end of a
block passes each of them from code to code (`Crosses`), and so it passes every body and stops at
the bracket behind it, whatever stands around the block (`scriptEnd_of_isBody`).
-/

namespace BranchText

namespace Extent

/-! ## The grammar -/

/-- Characters of code that do not stand for themselves. -/
def delimiters : List Char := ['\x22', '\x27', '\x60', '/', '[', ']']

/-- Characters that satisfy `plain`, and any characters with a backslash before each. -/
inductive IsEscaped (plain : Char → Prop) : List Char → Prop
  | nil : IsEscaped plain []
  | char {rest : List Char} (c : Char) (isPlain : plain c) (other : c ≠ '\\')
      (tail : IsEscaped plain rest) : IsEscaped plain (c :: rest)
  | escape {rest : List Char} (c : Char) (tail : IsEscaped plain rest) :
      IsEscaped plain ('\\' :: c :: rest)

/-- What stands between the slashes of a regex literal. In a class, slashes and opening brackets
have no meaning. -/
inductive IsRegex : List Char → Prop
  | nil : IsRegex []
  | char {rest : List Char} (c : Char) (isPlain : c ∉ ['\\', '\n', '[', '/'])
      (tail : IsRegex rest) : IsRegex (c :: rest)
  | escape {rest : List Char} (c : Char) (tail : IsRegex rest) : IsRegex ('\\' :: c :: rest)
  | cls {chars rest : List Char} (content : IsEscaped (· ∉ ['\n', ']']) chars)
      (tail : IsRegex rest) : IsRegex ('[' :: chars ++ [']'] ++ rest)

/-- A slash in front of the text opens a comment. -/
def OpensComment (text : List Char) : Prop := text.head? = some '/' ∨ text.head? = some '*'

instance (text : List Char) : Decidable (OpensComment text) :=
  inferInstanceAs (Decidable (_ ∨ _))

/-- A slash behind the last significant character starts a regex literal. -/
def RegexMayFollow (before : Option Char) : Prop := ∀ c ∈ before, c ∈ regexPreceders

/-- The last significant character behind a character of code. -/
def significantAfter (before : Option Char) (c : Char) : Option Char :=
  if isInsignificant c then before else some c

/-- The body of a script block, or the rest of one behind the last significant character
`before`. -/
inductive IsBody : (before : Option Char) → List Char → Prop
  | nil {before : Option Char} : IsBody before []
  | code {before : Option Char} {rest : List Char} (c : Char) (isPlain : c ∉ delimiters)
      (tail : IsBody (significantAfter before c) rest) : IsBody before ([c] ++ rest)
  | quoted {before : Option Char} {text rest : List Char} (quote : Char)
      (isQuote : quote = '\x22' ∨ quote = '\x27') (content : IsEscaped (· ∉ [quote, '\n']) text)
      (tail : IsBody (some quote) rest) : IsBody before (quote :: text ++ [quote] ++ rest)
  | template {before : Option Char} {text rest : List Char} (content : IsEscaped (· ≠ '\x60') text)
      (tail : IsBody (some '\x60') rest) : IsBody before ('\x60' :: text ++ ['\x60'] ++ rest)
  | lineComment {before : Option Char} {text rest : List Char} (content : '\n' ∉ text)
      (tail : IsBody before rest) : IsBody before ('/' :: '/' :: text ++ ['\n'] ++ rest)
  | blockComment {before : Option Char} {text rest : List Char} (content : ¬ ['*', '/'] <:+: text)
      (tail : IsBody before rest) : IsBody before ('/' :: '*' :: text ++ ['*', '/'] ++ rest)
  | division {before : Option Char} {rest : List Char} (divides : ¬ RegexMayFollow before)
      (alone : ¬ OpensComment rest) (tail : IsBody (some '/') rest) : IsBody before (['/'] ++ rest)
  | regex {before : Option Char} {text rest : List Char} (starts : RegexMayFollow before)
      (alone : ¬ OpensComment (text ++ ['/'])) (content : IsRegex text)
      (tail : IsBody (some '/') rest) : IsBody before ('/' :: text ++ ['/'] ++ rest)
  | brackets {before : Option Char} {inner rest : List Char} (content : IsBody (some '[') inner)
      (tail : IsBody (some ']') rest) : IsBody before ('[' :: inner ++ [']'] ++ rest)

/-! ## Steps of the search -/

section Find

variable {opening offset : Nat} {state later : State} {c next : Char} {text rest : List Char}

theorem find_one (steps : step state offset c rest.head? = .one later) :
    find opening state offset (c :: rest) = find opening later (offset + c.utf8Size) rest := by
  rw [find, steps]

theorem find_two (steps : step state offset c (some next) = .two later) :
    find opening state offset (c :: next :: rest) =
      find opening later (offset + byteLength [c, next]) rest := by
  rw [find, List.head?_cons, steps]
  simp [Nat.add_assoc]

/-- A state that plain characters and escaped ones leave alone outlasts a text of them. -/
theorem find_escaped {plain : Char → Prop}
    (chars : ∀ c, plain c → c ≠ '\\' → ∀ offset next, step state offset c next = .one state)
    (escapes : ∀ offset next, step state offset '\\' next = .two state)
    (escaped : IsEscaped plain text) (offset : Nat) (rest : List Char) :
    find opening state offset (text ++ rest) =
      find opening state (offset + byteLength text) rest := by
  induction escaped generalizing offset with
  | nil => rfl
  | char c isPlain other _ ih =>
    rw [List.cons_append, find_one (chars c isPlain other _ _), ih, byteLength_cons, Nat.add_assoc]
  | escape c _ ih =>
    rw [List.cons_append, List.cons_append, find_two (escapes _ _), ih]
    simp [Nat.add_assoc]

theorem find_regexContent (inRegex : state.mode = .regex false) (content : IsRegex text)
    (offset : Nat) (rest : List Char) :
    find opening state offset (text ++ rest) =
      find opening state (offset + byteLength text) rest := by
  induction content generalizing offset with
  | nil => rfl
  | char c isPlain _ ih =>
    simp only [List.mem_cons, List.not_mem_nil, or_false, not_or] at isPlain
    obtain ⟨backslash, lineFeed, bracket, slash⟩ := isPlain
    have stays (next : Option Char) : step state offset c next = .one state := by
      simp [step, inRegex, backslash, lineFeed, bracket, slash]
    rw [List.cons_append, find_one (stays _), ih, byteLength_cons, Nat.add_assoc]
  | escape c _ ih =>
    have escapes (next : Option Char) : step state offset '\\' next = .two state := by
      simp [step, inRegex]
    rw [List.cons_append, List.cons_append, find_two (escapes _), ih]
    simp [Nat.add_assoc]
  | @cls chars rest content _ ih =>
    obtain ⟨inClass, entered⟩ : ∃ inClass, inClass = { state with mode := .regex true } := ⟨_, rfl⟩
    have enters (next : Option Char) : step state offset '[' next = .one inClass := by
      simp [step, inRegex, entered]
    have leaves (place : Nat) (next : Option Char) :
        step inClass place ']' next = .one state := by
      simp [step, entered, ← inRegex]
    have stays : ∀ c, c ∉ ['\n', ']'] → c ≠ '\\' → ∀ place next,
        step inClass place c next = .one inClass := by
      intro c isPlain backslash place next
      simp only [List.mem_cons, List.not_mem_nil, or_false, not_or] at isPlain
      by_cases bracket : c = '[' <;> simp [step, entered, backslash, isPlain, bracket]
    have escapes (place : Nat) (next : Option Char) :
        step inClass place '\\' next = .two inClass := by
      simp [step, entered]
    rw [List.append_assoc, List.append_assoc, List.cons_append, find_one (enters _),
      find_escaped stays escapes content, List.singleton_append, List.cons_append,
      find_one (leaves _ _), ih]
    simp [Nat.add_assoc]

end Find

/-! ## From code to code -/

/-- In front of `back`, the search passes a text of code. It is as deep in brackets behind the text
as before it. -/
def Crosses (before : Option Char) (text back : List Char) (after : Option Char) : Prop :=
  ∀ opening depth opened offset, ∃ place,
    find opening ⟨.code, depth, before, opened⟩ offset (text ++ back) =
      find opening ⟨.code, depth, after, place⟩ (offset + byteLength text) back

section Crosses

variable {before middle after : Option Char} {text back : List Char}

theorem Crosses.nil : Crosses before [] back before := fun _ _ opened _ => ⟨opened, rfl⟩

theorem Crosses.append {rest : List Char} (first : Crosses before text (rest ++ back) middle)
    (second : Crosses middle rest back after) : Crosses before (text ++ rest) back after := by
  intro opening depth opened offset
  obtain ⟨between, passed⟩ := first opening depth opened offset
  obtain ⟨place, later⟩ := second opening depth between (offset + byteLength text)
  exact ⟨place, by rw [List.append_assoc, passed, later, byteLength_append, Nat.add_assoc]⟩

theorem Crosses.of_step {c : Char} (steps : ∀ depth opened offset,
    step ⟨.code, depth, before, opened⟩ offset c back.head? = .one ⟨.code, depth, after, opened⟩) :
    Crosses before [c] back after :=
  fun _ depth opened offset => ⟨opened, find_one (steps depth opened offset)⟩

/-- A literal is passed if its inside is, between the characters that open and close it. -/
theorem Crosses.literal (mode : Mode) {first last : Char}
    (opens : ∀ depth opened offset, step ⟨.code, depth, before, opened⟩ offset first
      (text ++ [last]).head? = .one ⟨mode, depth, before, offset⟩)
    (inside : ∀ opening depth opened offset rest,
      find opening ⟨mode, depth, before, opened⟩ offset (text ++ rest) =
        find opening ⟨mode, depth, before, opened⟩ (offset + byteLength text) rest)
    (closes : ∀ depth opened offset next, step ⟨mode, depth, before, opened⟩ offset last next =
      .one ⟨.code, depth, some last, opened⟩) :
    Crosses before (first :: text ++ [last]) back (some last) := by
  intro opening depth opened offset
  refine ⟨offset, ?_⟩
  have next : (text ++ [last] ++ back).head? = (text ++ [last]).head? := by cases text <;> rfl
  rw [List.cons_append, List.cons_append, find_one (next ▸ opens depth opened offset),
    List.append_assoc, inside, List.singleton_append, find_one (closes _ _ _ _)]
  simp [Nat.add_assoc]

theorem passes_code {c : Char} (isPlain : c ∉ delimiters) :
    Crosses before [c] back (significantAfter before c) := by
  simp only [delimiters, List.mem_cons, List.not_mem_nil, or_false, not_or] at isPlain
  refine .of_step fun depth opened offset => ?_
  simp only [step, stepCode, isPlain, State.pass, significantAfter]
  cases isInsignificant c <;> rfl

theorem passes_quoted {quote : Char} (isQuote : quote = '\x22' ∨ quote = '\x27')
    (content : IsEscaped (· ∉ [quote, '\n']) text) :
    Crosses before (quote :: text ++ [quote]) back (some quote) := by
  have known : quote ≠ '\\' ∧ quote ≠ '\n' := by rcases isQuote with rfl | rfl <;> decide
  refine .literal (.quoted quote) (fun _ _ _ => ?_)
    (fun _ _ _ => find_escaped ?_ (fun _ _ => rfl) content) (fun _ _ _ _ => ?_)
  · simp [step, stepCode, isQuote, State.enter]
  · intro c isPlain backslash place next
    simp only [List.mem_cons, List.not_mem_nil, or_false, not_or] at isPlain
    simp [step, backslash, isPlain]
  · simp [step, known, State.leave]

theorem passes_template (content : IsEscaped (· ≠ '\x60') text) :
    Crosses before ('\x60' :: text ++ ['\x60']) back (some '\x60') := by
  refine .literal .template (fun _ _ _ => rfl)
    (fun _ _ _ => find_escaped ?_ (fun _ _ => rfl) content) (fun _ _ _ _ => rfl)
  intro c isPlain backslash place next
  simp [step, backslash, isPlain]

/-- A slash that opens no comment starts a regex literal or divides. -/
theorem stepCode_slash {next : Option Char} (alone : ¬ (next = some '/' ∨ next = some '*'))
    (offset : Nat) (state : State) : stepCode state offset '/' next =
      if state.regexMayStart then .one (state.enter (.regex false) offset)
      else .one { state with significant := some '/' } := by
  obtain ⟨noLine, noBlock⟩ := not_or.1 alone
  simp [stepCode, noLine, noBlock, State.pass, isInsignificant]

theorem regexMayStart_iff {state : State} :
    state.regexMayStart = true ↔ RegexMayFollow state.significant := by
  cases before : state.significant <;> simp [State.regexMayStart, RegexMayFollow, before]

instance (before : Option Char) : Decidable (RegexMayFollow before) :=
  decidable_of_iff _ (@regexMayStart_iff (.initial 0 before))

theorem passes_division (divides : ¬ RegexMayFollow before) (alone : ¬ OpensComment back) :
    Crosses before ['/'] back (some '/') :=
  .of_step fun _ _ _ =>
    (stepCode_slash alone ..).trans (if_neg (divides ∘ regexMayStart_iff.1))

theorem passes_regex (starts : RegexMayFollow before) (alone : ¬ OpensComment (text ++ ['/']))
    (content : IsRegex text) : Crosses before ('/' :: text ++ ['/']) back (some '/') :=
  .literal (.regex false)
    (fun _ _ _ => (stepCode_slash alone ..).trans (if_pos (regexMayStart_iff.2 starts)))
    (fun _ _ _ => find_regexContent rfl content) (fun _ _ _ _ => rfl)

theorem passes_lineComment (content : '\n' ∉ text) :
    Crosses before ('/' :: '/' :: text ++ ['\n']) back before := by
  intro opening depth opened offset
  have inside (place : Nat) :
      find opening ⟨.lineComment, depth, before, opened⟩ place (text ++ ['\n'] ++ back) =
        find opening ⟨.code, depth, before, opened⟩ (place + byteLength (text ++ ['\n'])) back := by
    induction text generalizing place with
    | nil => exact find_one rfl
    | cons c text ih =>
      obtain ⟨other, later⟩ := List.ne_and_not_mem_of_not_mem_cons content
      have stays (next : Option Char) : step ⟨.lineComment, depth, before, opened⟩ place c next =
          .one ⟨.lineComment, depth, before, opened⟩ := by
        simp [step, other.symm]
      rw [List.cons_append, List.cons_append, find_one (stays _), ih later, byteLength_cons,
        Nat.add_assoc]
  refine ⟨opened, (find_two rfl).trans ((inside _).trans ?_)⟩
  simp [Nat.add_assoc]

theorem passes_blockComment (content : ¬ ['*', '/'] <:+: text) :
    Crosses before ('/' :: '*' :: text ++ ['*', '/']) back before := by
  intro opening depth opened offset
  have inside (place : Nat) :
      find opening ⟨.blockComment, depth, before, offset⟩ place (text ++ ['*', '/'] ++ back) =
        find opening ⟨.code, depth, before, offset⟩ (place + byteLength (text ++ ['*', '/']))
          back := by
    induction text generalizing place with
    | nil => exact find_two rfl
    | cons c text ih =>
      have later : ¬ ['*', '/'] <:+: text := fun within => content (List.infix_cons within)
      have unclosed : ¬ (c = '*' ∧ (text ++ ['*', '/'] ++ back).head? = some '/') := by
        rintro ⟨rfl, slash⟩
        cases text with
        | nil => cases slash
        | cons d text =>
          cases slash
          exact content ⟨[], text, rfl⟩
      have stays : step ⟨.blockComment, depth, before, offset⟩ place c
          (text ++ ['*', '/'] ++ back).head? = .one ⟨.blockComment, depth, before, offset⟩ := by
        simpa [step] using unclosed
      rw [List.cons_append, List.cons_append, find_one stays, ih later, byteLength_cons,
        Nat.add_assoc]
  refine ⟨offset, (find_two rfl).trans ((inside _).trans ?_)⟩
  simp [Nat.add_assoc]

theorem crosses_brackets (content : Crosses (some '[') text (']' :: back) middle) :
    Crosses before ('[' :: text ++ [']']) back (some ']') := by
  intro opening depth opened offset
  have enters (next : Option Char) : step ⟨.code, depth, before, opened⟩ offset '[' next =
      .one ⟨.code, depth + 1, some '[', opened⟩ := rfl
  obtain ⟨place, passed⟩ := content opening (depth + 1) opened (offset + '['.utf8Size)
  have leaves (here : Nat) (next : Option Char) :
      step ⟨.code, depth + 1, middle, place⟩ here ']' next =
        .one ⟨.code, depth, some ']', place⟩ := rfl
  refine ⟨place, ?_⟩
  rw [List.append_assoc, List.cons_append, find_one (enters _), List.singleton_append, passed,
    find_one (leaves _ _)]
  simp [Nat.add_assoc]

end Crosses

/-- A body is passed if a closing bracket follows. -/
theorem passes_of_isBody {before : Option Char} {body : List Char} (isBody : IsBody before body)
    (tail : List Char) : ∃ after, Crosses before body (']' :: tail) after := by
  induction isBody generalizing tail with
  | nil => exact ⟨_, .nil⟩
  | code c isPlain _ ih => exact (ih tail).imp fun _ rest => (passes_code isPlain).append rest
  | quoted quote isQuote content _ ih =>
    exact (ih tail).imp fun _ rest => (passes_quoted isQuote content).append rest
  | template content _ ih => exact (ih tail).imp fun _ rest => (passes_template content).append rest
  | lineComment content _ ih =>
    exact (ih tail).imp fun _ rest => (passes_lineComment content).append rest
  | blockComment content _ ih =>
    exact (ih tail).imp fun _ rest => (passes_blockComment content).append rest
  | @division _ rest divides alone _ ih =>
    -- behind the last slash of a body stands the bracket that closes it
    have alone : ¬ OpensComment (rest ++ ']' :: tail) := by
      cases rest with
      | nil => simp [OpensComment]
      | cons c rest => exact alone
    exact (ih tail).imp fun _ rest => (passes_division divides alone).append rest
  | regex starts alone content _ ih =>
    exact (ih tail).imp fun _ rest => (passes_regex starts alone content).append rest
  | @brackets _ inner rest _ _ inside ih =>
    obtain ⟨_, content⟩ := inside (rest ++ ']' :: tail)
    exact (ih tail).imp fun _ rest => (crosses_brackets content).append rest

end Extent

/-- Reading on behind whole characters splits none. -/
theorem Cursor.resume_append (front rest : List Char) :
    Cursor.resume (front ++ rest) (byteLength front) = (⟨byteLength front, rest⟩, none) := by
  suffices ∀ here before, resume.go (here + byteLength front) here before (front ++ rest) =
      (⟨here + byteLength front, rest⟩, none) by
    simpa [resume] using this 0 none
  induction front with
  | nil =>
    intro here before
    rw [List.nil_append, resume.go.eq_def, byteLength_nil, Nat.add_zero, if_pos (Nat.le_refl _),
      if_pos rfl]
  | cons c front ih =>
    intro here before
    have more := c.utf8Size_pos
    rw [List.cons_append, resume.go.eq_def, if_neg (by rw [byteLength_cons]; omega),
      byteLength_cons, ← Nat.add_assoc]
    exact ih _ _

/-- A script block ends at the bracket behind its body, whatever stands in front of the block and
behind it. -/
theorem scriptEnd_of_isBody {body : List Char} (isBody : Extent.IsBody none body)
    (front tail : List Char) (opening : Nat) :
    scriptEnd (front ++ '[' :: (body ++ ']' :: tail)) (byteLength front + 1) opening =
      .ok (byteLength front + 1 + byteLength body) := by
  have start : Cursor.resume (front ++ '[' :: (body ++ ']' :: tail)) (byteLength front + 1) =
      (⟨byteLength front + 1, body ++ ']' :: tail⟩, none) := by
    simpa [show '['.utf8Size = 1 from rfl] using
      Cursor.resume_append (front ++ ['[']) (body ++ ']' :: tail)
  obtain ⟨after, passes⟩ := Extent.passes_of_isBody isBody tail
  obtain ⟨place, passed⟩ :=
    passes opening 0 (byteLength front + 1) (byteLength front + 1)
  rw [scriptEnd, start]
  exact congrArg (Except.map _) passed

/-- Brackets that do not count stand in a comment of each kind, in a regex literal and its class, in
a string and in a template. The first slash divides, since a name stands before it. -/
theorem scriptEnd_of_isBody_brackets :
    Extent.IsBody none "x/é //]\n=/[/\\]]]/+\"\\\"]\"/*]*/[\x60]\x60]".toList ∧
      scriptEnd "é[x/é //]\n=/[/\\]]]/+\"\\\"]\"/*]*/[\x60]\x60]]['".toList 3 2 = .ok 37 := by
  have isBody :
      Extent.IsBody none "x/é //]\n=/[/\\]]]/+\"\\\"]\"/*]*/[\x60]\x60]".toList :=
    .code 'x' (by decide) <| .division (by decide) (by decide) <| .code 'é' (by decide) <|
      .code ' ' (by decide) <| @Extent.IsBody.lineComment _ [']'] _ (by decide) <|
      .code '=' (by decide) <| @Extent.IsBody.regex _ ['[', '/', '\\', ']', ']', ']'] _ (by decide)
        (by decide) (@Extent.IsRegex.cls ['/', '\\', ']'] _
          (.char '/' (by decide) (by decide) <| .escape ']' .nil) <| .char ']' (by decide) .nil) <|
      .code '+' (by decide) <| @Extent.IsBody.quoted _ ['\\', '\x22', ']'] _ '\x22' (by decide)
        (.escape '\x22' <| .char ']' (by decide) (by decide) .nil) <|
      @Extent.IsBody.blockComment _ [']'] _ (by decide) <|
      @Extent.IsBody.brackets _ ['\x60', ']', '\x60'] _
        (@Extent.IsBody.template _ [']'] _ (.char ']' (by decide) (by decide) .nil) .nil) .nil
  exact ⟨isBody, scriptEnd_of_isBody isBody ['é'] ['[', '\x27'] 2⟩

end BranchText
