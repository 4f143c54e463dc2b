import BranchText.Proofs.Comments.Places
import BranchText.Proofs.Compared.Comparison

/-!
# The versions of a text with a comment in it

The comparison of a text with a comment in it, of the text with a blank for the comment, and of two
probes. In front of the comment all are read alike. Behind it the first two are, and one of the
probes if what stands in front took the start of the comment along.
-/

namespace BranchText

instance : Finite Version :=
  .of_injective (fun version => (match version with
    | .commented => 0
    | .blank => 1
    | .opened => 2
    | .probed => 3 : Fin 4)) fun first second => by cases first <;> cases second <;> simp

namespace Commented

/-- How far the versions have been read. -/
inductive Stage where
  | before
  | behind
  /-- The start of the comment belongs to something else. -/
  | swallowed

/-- The versions that are followed at a stage. -/
def Stage.follows : Stage → Version → Bool
  | .before, _ => true
  | .behind, .commented | .behind, .blank => true
  | .swallowed, .opened => true
  | _, _ => false

/-- The versions that are followed at a stage, as a type. -/
abbrev Followed (stage : Stage) : Type := { version : Version // stage.follows version = true }

/-- Nothing opens or closes up to the end of the text. -/
inductive Swallowed : Cursor → Prop
  | spent {cursor : Cursor} (spent : IsSpent cursor) : Swallowed cursor
  | further {cursor after : Cursor} {token : Token} (takes : cursor.Takes token after)
    (inert : isInert token.kind = true) (behind : Swallowed after) : Swallowed cursor

/-- Tokens that are looked at more than once. -/
def isQuiet (kind : TokenKind) : Bool := kind = .eval || kind.isTrivia

variable (text : Commented)

/-- Little leads to the comment that is opened. -/
inductive Waits : Cursor → Prop
  | here : Waits ⟨byteLength text.front, ['/', '*']⟩
  | further {cursor after : Cursor} {token : Token} (takes : cursor.Takes token after)
    (quiet : isQuiet token.kind = true) (behind : Waits after) : Waits cursor

/-- The versions have been read up to the same place. -/
inductive Twins : (stage : Stage) → (Followed stage → Cursor) → Prop
  | before {cursors : Followed .before → Cursor} (before after : List Char)
    (split : before ++ after = text.front)
    (stands : ∀ run, cursors run = text.place before after run.1) : Twins .before cursors
  | waiting {cursors : Followed .behind → Cursor} (before after : List Char)
    (split : before ++ after = text.front)
    (stands : ∀ run, cursors run = text.place before after run.1)
    (waits : text.Waits (text.place before after .opened)) : Twins .behind cursors
  | behind {cursors : Followed .behind → Cursor} (rest : List Char)
    (stands : ∀ run, (cursors run).rest = rest) : Twins .behind cursors
  | swallowed {cursors : Followed .swallowed → Cursor}
    (swallowed : ∀ run, Swallowed (cursors run)) : Twins .swallowed cursors

/-- The front ends with a word that wants a blank behind it. -/
def EndsInWord : Prop :=
  ∃ word ∈ [['c', 'a', 'l', 'l'], ['m', 'o', 'd', 'e'], ['u', 's', 'e']], word <:+ text.front

/-- The comment is not read as a blank here, or no version with it or with a blank can be read. -/
inductive Settled {stage : Stage} (errors : Followed stage → Option ReadError) : Prop
  | other (run : Followed stage) (isOpened : run.1 = .opened) (error : ReadError)
    (fails : errors run = some error) (differs : error ≠ text.stuck)
  | wanting (run : Followed stage) (isProbed : run.1 = .probed)
    (fails : errors run = some text.wanting) (word : text.EndsInWord)
  | failed (run other : Followed stage) (isCommented : run.1 = .commented)
    (isBlank : other.1 = .blank) (fails : (errors run).isSome = true)
    (failsToo : (errors other).isSome = true)

/-- The versions of a text, read side by side. -/
abbrev comparison : Comparison where
  Stage := Stage
  Run := Followed
  followed stage := by
    cases stage with
    | before => exact ⟨.commented, rfl⟩
    | behind => exact ⟨.commented, rfl⟩
    | swallowed => exact ⟨.opened, rfl⟩
  finite _ := inferInstance
  Twins _ := text.Twins _
  Later stage later kept := ∀ run, (kept run).1 = run.1
  Settled _ := text.Settled
  Closed stage _ := stage ≠ .swallowed
  OpenBrace _ _ := True
  OpenParen _ _ := True
  later_refl _ _ := rfl
  later_trans first second run := (first _).trans (second run)
  settled_of_later moves settled := by
    cases settled with
    | other run isOpened error fails differs =>
      exact .other _ ((moves run).trans isOpened) error fails differs
    | wanting run isProbed fails word => exact .wanting _ ((moves run).trans isProbed) fails word
    | failed run other isCommented isBlank fails failsToo =>
      exact .failed _ _ ((moves run).trans isCommented) ((moves other).trans isBlank) fails failsToo
  settled_of_more settled more := by
    have isSome : ∀ run, _ → _ := fun run fails =>
      Option.isSome_iff_exists.2 ⟨_, more run _ (Option.isSome_iff_exists.1 fails).choose_spec⟩
    cases settled with
    | other run isOpened error fails differs =>
      exact .other run isOpened error (more run error fails) differs
    | wanting run isProbed fails word => exact .wanting run isProbed (more run _ fails) word
    | failed run other isCommented isBlank fails failsToo =>
      exact .failed run other isCommented isBlank (isSome run fails) (isSome other failsToo)
  openBrace_of_later _ _ := trivial
  openParen_of_later _ _ := trivial

/-! ## Places that are led to -/

section Led

variable {text} {cursor last after : Cursor} {token : Token}

/-- At the end of the text nothing is read that could be looked at more than once. -/
theorem takes_of_isSpent (spent : IsSpent cursor) :
    ∃ token after, cursor.Takes token after ∧ IsSpent after ∧ isInert token.kind = true ∧
      isQuiet token.kind = false := by
  obtain ⟨offset, rest⟩ := cursor
  rcases spent with same | same
  · obtain rfl : rest = [] := same
    exact ⟨_, _, Cursor.takes_end rfl, .inl rfl, rfl, rfl⟩
  · obtain rfl : rest = ['*'] := same
    have kind : (Cursor.token ⟨offset, ['*']⟩).kind = .text := rfl
    exact ⟨_, _, Cursor.takes_lexeme (List.cons_ne_nil _ _) (by rw [kind]; decide)
      (by rw [kind]; decide), .inl rfl, rfl, rfl⟩

theorem isInert_of_isTrivia {kind : TokenKind} (trivia : kind.isTrivia = true) :
    isInert kind = true := by
  cases kind <;> first | rfl | cases trivia

theorem Swallowed.of_trails (trails : cursor.Trails last) (swallowed : Swallowed last) :
    Swallowed cursor := by
  induction trails with
  | here => exact swallowed
  | further read trivia _ ih =>
    exact .further ⟨_, read, rfl, rfl⟩ (isInert_of_isTrivia trivia) (ih swallowed)

theorem Swallowed.of_leads (leads : cursor.Leads [.eval] last) (swallowed : Swallowed last) :
    Swallowed cursor := by
  rcases leads with trails | ⟨lexed, read, word, trails⟩
  · exact .of_trails trails swallowed
  · refine .further ⟨lexed, read, rfl, rfl⟩ ?_ (.of_trails trails swallowed)
    rw [List.mem_singleton.1 word]
    rfl

theorem Waits.of_trails (trails : cursor.Trails last) (waits : text.Waits last) :
    text.Waits cursor := by
  induction trails with
  | here => exact waits
  | further read trivia _ ih =>
    exact .further ⟨_, read, rfl, rfl⟩ (by simp [isQuiet, trivia]) (ih waits)

theorem Waits.of_leads (leads : cursor.Leads [.eval] last) (waits : text.Waits last) :
    text.Waits cursor := by
  rcases leads with trails | ⟨lexed, read, word, trails⟩
  · exact .of_trails trails waits
  · refine .further ⟨lexed, read, rfl, rfl⟩ ?_ (.of_trails trails waits)
    rw [List.mem_singleton.1 word]
    rfl

theorem Waits.not_isSpent (waits : text.Waits cursor) : ¬ IsSpent cursor := by
  intro spent
  cases waits with
  | here => rcases spent with same | same <;> cases same
  | further takes quiet _ =>
    obtain ⟨token, after, found, -, -, noisy⟩ := takes_of_isSpent spent
    obtain ⟨lexed, read, rfl, rfl⟩ := takes
    rw [(found.lexed read).1, noisy] at quiet
    cases quiet

/-- What leads to the comment is read the same in all versions. -/
theorem Waits.reaches {before after : List Char} (split : before ++ after = text.front)
    (waits : text.Waits (text.place before after .opened)) :
    (∀ c ∈ after, Lexeme.isBlank c = true) ∨ ∃ token passed later, after = passed ++ later ∧
      (∀ version, (text.place before after version).Takes token
        (text.place (before ++ passed) later version)) ∧ isQuiet token.kind = true ∧
      text.Waits (text.place (before ++ passed) later .opened) := by
  generalize same : text.place before after .opened = cursor at waits
  cases waits with
  | here =>
    obtain rfl : after = [] := by simpa [place, tail] using congrArg Cursor.rest same
    exact .inl (List.forall_mem_nil _)
  | further takes quiet waits =>
    obtain ⟨lexed, read, rfl, rfl⟩ := takes
    subst same
    cases Commented.reaches split with
    | token token passed later split takes =>
      obtain ⟨isToken, isAfter⟩ := (takes .opened).lexed read
      exact .inr ⟨token, passed, later, split, takes, isToken ▸ quiet, isAfter ▸ waits⟩
    | blanks blank => exact .inl blank
    | swallowed token last takes inert spent =>
      exact absurd spent (Waits.not_isSpent ((takes.lexed read).2 ▸ waits))
    | failed error fails other => cases fails.symm.trans read

/-- Blanks lead to the comment. -/
theorem waits_of_blanks {before after : List Char} (split : before ++ after = text.front)
    (blank : ∀ c ∈ after, Lexeme.isBlank c = true) :
    text.Waits (text.place before after .opened) := by
  cases after with
  | nil =>
    rw [List.append_nil] at split
    subst split
    exact .here
  | cons c more =>
    obtain ⟨token, takes, kind, -⟩ := Cursor.takes_blank (blank c (List.mem_cons_self ..))
      (byteLength before) (more ++ ['/', '*'])
    have blanks : ∀ d ∈ more, Lexeme.isBlank d = true := fun d member =>
      blank d (List.mem_cons_of_mem _ member)
    rw [List.takeWhile_append_of_pos blanks, List.dropWhile_append_of_pos blanks] at takes
    have none : ['/', '*'].takeWhile Lexeme.isBlank = [] := rfl
    rw [none, List.append_nil, ← byteLength_append, split] at takes
    exact .further takes (by rw [kind]; rfl) .here

/-- Blanks and the comment behind them are read as a blank. -/
theorem takes_of_blanks {before after : List Char} (blank : ∀ c ∈ after, Lexeme.isBlank c = true)
    {version : Version} (followed : Stage.follows .behind version = true) :
    ∃ token behind, (text.place before after version).Takes token behind ∧
      token.kind = .whitespace := by
  cases after with
  | nil =>
    cases version with
    | commented =>
      exact ⟨_, _, Cursor.takes_comment (List.cons_ne_nil _ _) rfl
        text.lengthOfBlockComment?_closed, rfl⟩
    | blank =>
      obtain ⟨token, takes, kind, -⟩ := Cursor.takes_blank (show Lexeme.isBlank ' ' = true from rfl)
        (byteLength before) text.back
      exact ⟨_, _, takes, kind⟩
    | opened => cases followed
    | probed => cases followed
  | cons c more =>
    obtain ⟨token, takes, kind, -⟩ := Cursor.takes_blank (blank c (List.mem_cons_self ..))
      (byteLength before) (more ++ text.tail version)
    exact ⟨_, _, takes, kind⟩

end Led

end Commented

end BranchText
