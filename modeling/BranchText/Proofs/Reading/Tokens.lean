import BranchText.Document.Print
import BranchText.Proofs.Reading.Runs

/-!
# Tokens of printed text

`Cursor.Gives` is the next token of a text with what is left behind it. The marks of the syntax,
blanks, whole numbers and the escaped and plain characters of literal text give the tokens they
were printed for.
-/

namespace BranchText

namespace Cursor

/-- The next token at the cursor, by kind and text, and the text behind it. -/
def Gives (cursor : Cursor) (kind : TokenKind) (meant : String) (rest : List Char) : Prop :=
  ∃ lexed : Lexed cursor, cursor.next = .ok lexed ∧ lexed.token.kind = kind ∧
    lexed.token.text = meant ∧ lexed.after.rest = rest

/-- A lexeme that is no comment is the next token. -/
theorem gives_of_lexeme {cursor : Cursor} {kind : TokenKind} {meant : String} {count : Nat}
    (read : lexeme cursor.rest = ⟨kind, meant, count⟩) (line : kind ≠ .lineComment)
    (comment : kind ≠ .blockCommentStart) : cursor.Gives kind meant (cursor.rest.drop count) := by
  have kindEq : cursor.token.kind = kind := by simp [token, read]
  have textEq : cursor.token.text = meant := by simp [token, read]
  by_cases more : cursor.rest = []
  · refine ⟨_, by rw [next, dif_pos more], kindEq, textEq, ?_⟩
    simp [more]
  · have afterEq : cursor.afterLexeme.rest = cursor.rest.drop count := by
      simp [afterLexeme, skip, read]
    rw [Gives, next, dif_neg more]
    split
    · rename_i isLine
      exact absurd (kindEq.symm.trans isLine) line
    · rename_i isComment
      exact absurd (kindEq.symm.trans isComment) comment
    · exact ⟨_, rfl, kindEq, textEq, afterEq⟩

/-- The end of the text is a token. -/
theorem gives_end {cursor : Cursor} (text : cursor.rest = []) :
    cursor.Gives .endOfText "" [] := by
  have read : lexeme cursor.rest = ⟨.endOfText, "", 0⟩ := by rw [text]; rfl
  simpa [text] using gives_of_lexeme read (by decide) (by decide)

/-- The marks of the syntax that are always tokens of their own. -/
def marks : List (Char × TokenKind) :=
  [('(', .leftParen), (')', .rightParen), ('{', .leftBrace), ('}', .rightBrace), (',', .comma),
    (':', .colon), ('@', .at), ('#', .hash), ('|', .pipe)]

theorem lexeme_mark {c : Char} {kind : TokenKind} (mark : (c, kind) ∈ marks) (rest : List Char) :
    lexeme (c :: rest) = ⟨kind, String.singleton c, 1⟩ := by
  simp only [marks, List.mem_cons, Prod.mk.injEq, List.not_mem_nil, or_false] at mark
  rcases mark with ⟨rfl, rfl⟩ | ⟨rfl, rfl⟩ | ⟨rfl, rfl⟩ | ⟨rfl, rfl⟩ | ⟨rfl, rfl⟩ | ⟨rfl, rfl⟩ |
    ⟨rfl, rfl⟩ | ⟨rfl, rfl⟩ | ⟨rfl, rfl⟩ <;> rfl

/-- A mark of the syntax is a token. -/
theorem gives_mark {cursor : Cursor} {c : Char} {kind : TokenKind} {rest : List Char}
    (mark : (c, kind) ∈ marks) (text : cursor.rest = c :: rest) :
    cursor.Gives kind (String.singleton c) rest := by
  have solid : ∀ entry ∈ marks, entry.2 ≠ .lineComment ∧ entry.2 ≠ .blockCommentStart := by decide
  have read : lexeme cursor.rest = ⟨kind, String.singleton c, 1⟩ := by
    rw [text]
    exact lexeme_mark mark rest
  simpa [text] using gives_of_lexeme read (solid _ mark).1 (solid _ mark).2

/-- One blank before something else is a token. -/
theorem gives_blank {cursor : Cursor} {rest : List Char} (text : cursor.rest = ' ' :: rest)
    (solid : ∀ c, rest.head? = some c → Lexeme.isBlank c = false) :
    cursor.Gives .whitespace " " rest := by
  have single : rest.takeWhile Lexeme.isBlank = [] := by
    cases rest with
    | nil => rfl
    | cons c later => simp [solid c rfl]
  have read : lexeme cursor.rest = ⟨.whitespace, " ", 1⟩ := by
    have run : lexeme (' ' :: rest) = Lexeme.ofRun ' ' rest := rfl
    rw [text, run, Lexeme.ofRun, if_pos (by decide), single]
    rfl
  simpa [text] using gives_of_lexeme read (by decide) (by decide)

/-- An arrow is a token. -/
theorem gives_arrow {cursor : Cursor} {rest : List Char} (text : cursor.rest = '-' :: '>' :: rest) :
    cursor.Gives .arrow "->" rest := by
  have read : lexeme cursor.rest = ⟨.arrow, "->", 2⟩ := by rw [text]; rfl
  simpa [text] using gives_of_lexeme read (by decide) (by decide)

/-- The word that calls start with is a token. -/
theorem gives_call {cursor : Cursor} {rest : List Char}
    (text : cursor.rest = ['c', 'a', 'l', 'l'] ++ rest) : cursor.Gives .call "call" rest := by
  have read : lexeme cursor.rest = ⟨.call, "call", 4⟩ := by rw [text]; rfl
  simpa [text] using gives_of_lexeme read (by decide) (by decide)

/-- The word that executes a target again is a token. -/
theorem gives_eval {cursor : Cursor} {rest : List Char}
    (text : cursor.rest = ['e', 'v', 'a', 'l'] ++ rest) : cursor.Gives .eval "eval" rest := by
  have read : lexeme cursor.rest = ⟨.eval, "eval", 4⟩ := by rw [text]; rfl
  simpa [text] using gives_of_lexeme read (by decide) (by decide)

/-- A character of literal text behind a backslash stands for itself. -/
theorem gives_escaped {cursor : Cursor} {c : Char} {rest : List Char}
    (escaped : Print.needsEscape c = true) (text : cursor.rest = '\\' :: c :: rest) :
    cursor.Gives .text (String.singleton c) rest := by
  have meant : Lexeme.escaped? c = some c := by
    have same : ['\\', '/', '[', '{', '\x22', '\x27', '\x60', '(', ')', '}', ','].contains c
        = true := by
      simp only [Print.needsEscape, List.contains_eq_mem, List.mem_cons, decide_eq_true_eq] at escaped ⊢
      grind
    rw [Lexeme.escaped?, if_pos same]
  have noBreak : c ≠ '\n' ∧ c ≠ '\r' := by
    refine ⟨?_, ?_⟩ <;> rintro rfl <;> exact absurd escaped (by decide)
  have read : lexeme cursor.rest = ⟨.text, String.singleton c, 2⟩ := by
    rw [text]
    simp only [lexeme, if_true, Lexeme.ofEscape]
    split <;> simp_all
  simpa [text] using gives_of_lexeme read (by decide) (by decide)

/-- Where a run of characters without a backslash ends: one of them is the next token. -/
theorem gives_run {cursor : Cursor} {front back : List Char} (some : front ≠ [])
    (text : cursor.rest = front ++ back) (plain : ∀ c ∈ front, c ≠ '\\')
    (stops : ∀ kind run c, IsRun kind run → run.head? = front.head? → back.head? = Option.some c →
      c ∉ run.tail)
    (solid : ∀ kind run, IsRun kind run → run <+: front →
      kind ≠ .lineComment ∧ kind ≠ .blockCommentStart) :
    ∃ kind run left, IsRun kind run ∧ front = run ++ left ∧ run ≠ [] ∧
      cursor.Gives kind (String.ofList run) (left ++ back) := by
  obtain ⟨first, rest, rfl⟩ := List.exists_cons_of_ne_nil some
  obtain ⟨kind, run, read, runs, taken⟩ :=
    Lexeme.lexeme_eq_run (plain first (List.mem_cons_self ..)) (rest ++ back)
  have more : run ≠ [] := by
    rintro rfl
    have positive := Lexeme.length_lexeme_pos (List.cons_ne_nil first (rest ++ back))
    rw [read] at positive
    exact absurd positive (Nat.lt_irrefl 0)
  have sameHead : run.head? = (first :: rest).head? := by
    obtain ⟨head, tail, rfl⟩ := List.exists_cons_of_ne_nil more
    obtain ⟨later, split⟩ := taken
    simp only [List.cons_append, List.cons.injEq] at split
    simp [split.1]
  obtain ⟨left, split⟩ := runs.prefix_of_append some taken
    fun c follows => stops kind run c runs sameHead follows
  have read : lexeme cursor.rest = ⟨kind, String.ofList run, run.length⟩ := by
    rw [text]
    exact read
  have given := gives_of_lexeme read (solid kind run runs ⟨left, split⟩).1
    (solid kind run runs ⟨left, split⟩).2
  refine ⟨kind, run, left, runs, split.symm, more, ?_⟩
  simpa [text, ← split] using given

/-! ## Literal text -/

/-- Whether tokens of the kind stand for their text wherever literal text can stand. -/
def isLiteral (kind : TokenKind) : Bool :=
  [TokenKind.endOfText, .leftParen, .rightParen, .leftBrace, .rightBrace, .doubleLeftBracket,
    .lineComment, .blockCommentStart].all (· != kind)

theorem isLiteral_of_unescaped {kind : TokenKind} {run : List Char} (runs : IsRun kind run)
    (unescaped : ∀ c ∈ run, Print.needsEscape c = false) : isLiteral kind = true := by
  cases runs with
  | fixed listed =>
    have all : (Lexeme.spellings.all fun entry =>
        entry.1.any Print.needsEscape || isLiteral entry.2) = true := by decide
    have none : run.any Print.needsEscape = false := by simpa using unescaped
    simpa [none] using List.all_eq_true.1 all _ listed
  | blanks => decide
  | number => decide
  | single => decide

/-- The characters that can follow literal text. -/
def endsText (c : Char) : Bool := ['\\', '{', ')'].contains c

theorem not_mem_tail_of_endsText {kind : TokenKind} {run : List Char} {c : Char}
    (runs : IsRun kind run) (ends : endsText c = true) : c ∉ run.tail := by
  intro member
  have goes := runs.continues_of_mem_tail c member
  simp only [endsText, List.contains_eq_mem, List.mem_cons, List.not_mem_nil, or_false,
    decide_eq_true_eq] at ends
  rcases ends with rfl | rfl | rfl <;> exact absurd goes (by decide)

theorem text_of_unescaped {content : List Char}
    (unescaped : ∀ c ∈ content, Print.needsEscape c = false) : Print.text content = content := by
  induction content with
  | nil => rfl
  | cons c rest ih =>
    rw [List.forall_mem_cons] at unescaped
    simpa [Print.text, unescaped.1] using ih unescaped.2

theorem text_append (front back : List Char) :
    Print.text (front ++ back) = Print.text front ++ Print.text back :=
  List.flatMap_append

/-- Printed text that starts with an escaped character, or is empty, ends the text before it. -/
theorem endsText_of_head? {content back : List Char}
    (escaped : ∀ c, content.head? = some c → Print.needsEscape c = true)
    (ends : ∀ c, back.head? = some c → endsText c = true) :
    ∀ c, (Print.text content ++ back).head? = some c → endsText c = true := by
  cases content with
  | nil => simpa [Print.text] using ends
  | cons first rest =>
    intro c head
    have backslash : c = '\\' := by simpa [Print.text, escaped first rfl] using head.symm
    rw [backslash]
    decide

/-- Printed text gives tokens that stand for its characters, in order. -/
theorem gives_text {cursor : Cursor} {content back : List Char} (some : content ≠ [])
    (text : cursor.rest = Print.text content ++ back)
    (ends : ∀ c, back.head? = Option.some c → endsText c = true) :
    ∃ kind taken left, content = taken ++ left ∧ taken ≠ [] ∧ isLiteral kind = true ∧
      cursor.Gives kind (String.ofList taken) (Print.text left ++ back) := by
  obtain ⟨first, rest, rfl⟩ := List.exists_cons_of_ne_nil some
  by_cases escaped : Print.needsEscape first = true
  · refine ⟨.text, [first], rest, rfl, by simp, by decide, gives_escaped escaped ?_⟩
    rw [text]
    simp [Print.text, escaped]
  · -- The characters up to the next escaped one are printed as they are.
    let plain := (first :: rest).takeWhile fun c => !Print.needsEscape c
    let others := (first :: rest).dropWhile fun c => !Print.needsEscape c
    have parts : first :: rest = plain ++ others := List.takeWhile_append_dropWhile.symm
    have more : plain ≠ [] := by simp [plain, escaped]
    have unescaped : ∀ c ∈ plain, Print.needsEscape c = false := by
      intro c member
      simpa using List.all_eq_true.1 List.all_takeWhile c member
    have noBackslash : ∀ c ∈ plain, c ≠ '\\' := by
      rintro c member rfl
      exact absurd (unescaped _ member) (by decide)
    have textEq : cursor.rest = plain ++ (Print.text others ++ back) := by
      rw [text, parts, text_append, text_of_unescaped unescaped, List.append_assoc]
    have follows : ∀ c, (Print.text others ++ back).head? = Option.some c → endsText c = true := by
      refine endsText_of_head? (fun c head => ?_) ends
      have stopped := List.head?_dropWhile_not (fun c => !Print.needsEscape c) (first :: rest)
      rw [show ((first :: rest).dropWhile fun c => !Print.needsEscape c).head? = Option.some c
        from head] at stopped
      simpa using stopped
    have literal : ∀ kind run, IsRun kind run → run <+: plain → isLiteral kind = true :=
      fun kind run runs front => isLiteral_of_unescaped runs
        fun c member => unescaped c (front.subset member)
    obtain ⟨kind, run, left, runs, split, taken, given⟩ := gives_run more textEq noBackslash
      (fun kind run c runs _ head => not_mem_tail_of_endsText runs (follows c head))
      (fun kind run runs front => by
        constructor <;> rintro rfl <;> exact absurd (literal _ run runs front) (by decide))
    have leftEq : Print.text left = left := text_of_unescaped
      fun c member => unescaped c (split ▸ List.mem_append_right run member)
    refine ⟨kind, run, left ++ others, by rw [parts, split, List.append_assoc], taken,
      literal kind run runs ⟨left, split.symm⟩, ?_⟩
    rw [text_append, leftEq, List.append_assoc]
    exact given

end Cursor

end BranchText
