import BranchText.Indexed.Reader
import BranchText.Proofs.Indexed.Stream

/-!
# Searches by byte index

The searches for the end of a script block and of a quoted literal, by byte, find the places that
the searches by character find. A byte of a character outside ASCII changes nothing but that a slash
behind it divides, and so does the character; so it makes no difference that a backslash takes only
the first byte of the character behind it along.
-/

namespace BranchText

namespace Extent

/-! ## What the search is about to do -/

namespace State

/-- The state behind a character outside ASCII, or a byte of it. -/
def pastWide (state : State) (c : Char) : State :=
  if state.mode = .code then { state with significant := some c } else state

/-- Strings are in quotes that are ASCII characters, and what is open was opened at a place. -/
structure Sound (source : List Char) (state : State) : Prop where
  quotesAscii : ∀ quote, state.mode = .quoted quote → isAscii quote = true
  opened : Cursor.IsPlace source state.opened

@[simp]
theorem mode_pastWide (state : State) (c : Char) : (state.pastWide c).mode = state.mode := by
  unfold pastWide
  split <;> rfl

/-- Two states that a search goes on from in the same way. -/
structure Alike (first second : State) : Prop where
  mode : first.mode = second.mode
  depth : first.depth = second.depth
  opened : first.opened = second.opened
  regexMayStart : first.regexMayStart = second.regexMayStart

variable {state first second : State} {c byte : Char}

theorem regexMayStart_of_wide (state : State) (wide : isAscii c = false) :
    regexMayStart { state with significant := some c } = false := by
  have narrow : regexPreceders.all isAscii = true := by decide
  simp only [regexMayStart, List.contains_eq_mem, decide_eq_false_iff_not]
  intro member
  rw [List.all_eq_true.1 narrow c member] at wide
  cases wide

namespace Alike

theorem refl (state : State) : Alike state state := ⟨rfl, rfl, rfl, rfl⟩

section Moves

variable (alike : Alike first second)
include alike

theorem withMode (mode : Mode) : Alike { first with mode := mode } { second with mode := mode } :=
  ⟨rfl, alike.depth, alike.opened, alike.regexMayStart⟩

theorem withDepth (depth : Nat) :
    Alike { first with depth := depth } { second with depth := depth } :=
  ⟨alike.mode, rfl, alike.opened, alike.regexMayStart⟩

theorem enter (mode : Mode) (offset : Nat) :
    Alike (first.enter mode offset) (second.enter mode offset) :=
  ⟨rfl, alike.depth, rfl, alike.regexMayStart⟩

theorem leave (c : Char) : Alike (first.leave c) (second.leave c) :=
  ⟨rfl, alike.depth, alike.opened, rfl⟩

theorem pass (c : Char) : Alike (first.pass c) (second.pass c) := by
  unfold State.pass
  split
  · exact alike
  · exact ⟨alike.mode, alike.depth, alike.opened, rfl⟩

/-- A character and its first byte lead to states that are alike. -/
theorem pastWide (wideByte : isAscii byte = false) (wide : isAscii c = false) :
    Alike (first.pastWide byte) (second.pastWide c) := by
  have regex : State.regexMayStart { first with significant := some byte } =
      State.regexMayStart { second with significant := some c } :=
    (regexMayStart_of_wide first wideByte).trans (regexMayStart_of_wide second wide).symm
  by_cases code : second.mode = .code
  · rw [State.pastWide, State.pastWide, if_pos code, if_pos (alike.mode.trans code)]
    exact ⟨alike.mode, alike.depth, alike.opened, regex⟩
  · rw [State.pastWide, State.pastWide, if_neg code, if_neg (alike.mode ▸ code)]
    exact alike

/-- Later bytes of the character lead to no other state. -/
theorem foldl_pastWide (settled : second.mode = .code → second.regexMayStart = false)
    {bytes : List Char} (wide : ∀ byte ∈ bytes, isAscii byte = false) :
    Alike (bytes.foldl State.pastWide first) second := by
  induction bytes generalizing first with
  | nil => exact alike
  | cons byte rest ih =>
    refine ih ?_ fun other member => wide other (List.mem_cons_of_mem _ member)
    have regex := regexMayStart_of_wide first (wide byte (List.mem_cons_self ..))
    unfold State.pastWide
    split
    · rename_i code
      exact ⟨alike.mode, alike.depth, alike.opened,
        regex.trans (settled (alike.mode ▸ code)).symm⟩
    · exact alike

end Moves

end Alike

end State

/-- Two steps that lead to states that are alike. -/
inductive Step.Alike : Step → Step → Prop where
  | one {first second : State} (alike : first.Alike second) : Alike (.one first) (.one second)
  | two {first second : State} (alike : first.Alike second) : Alike (.two first) (.two second)
  | close : Alike .close .close
  | fail (error : ReadError) : Alike (.fail error) (.fail error)

variable {state first second : State} {offset : Nat} {c : Char} {next : Option Char}

/-- A character outside ASCII is passed. -/
theorem step_of_wide (wide : isAscii c = false) 
    (quotes : ∀ quote, state.mode = .quoted quote → isAscii quote = true) :
    step state offset c next = .one (state.pastWide c) := by
  have other : ∀ d, isAscii d = true → c ≠ d := by
    rintro d ascii rfl
    rw [ascii] at wide
    cases wide
  have significant : isInsignificant c = false := by
    simp [isInsignificant, other ' ' rfl, other '\t' rfl, other '\n' rfl, other '\r' rfl,
      other '\x0c' rfl]
  obtain ⟨mode, depth, before, opened⟩ := state
  cases mode with
  | code =>
    simp [step, stepCode, State.pass, State.pastWide, significant, other '\x22' rfl,
      other '\x27' rfl, other '\x60' rfl, other '/' rfl, other '[' rfl, other ']' rfl]
  | quoted quote =>
    simp [step, State.pastWide, other '\\' rfl, other '\n' rfl, other quote (quotes quote rfl)]
  | template => simp [step, State.pastWide, other '\\' rfl, other '\x60' rfl]
  | lineComment => simp [step, State.pastWide, other '\n' rfl]
  | blockComment => simp [step, State.pastWide, other '*' rfl]
  | regex inClass =>
    simp [step, State.pastWide, other '\\' rfl, other '\n' rfl, other '[' rfl, other ']' rfl,
      other '/' rfl]

/-- Steps from states that are alike are alike. -/
theorem step_alike (alike : first.Alike second) (offset : Nat) (c : Char) (next : Option Char) :
    (step first offset c next).Alike (step second offset c next) := by
  unfold step
  rw [alike.mode]
  cases second.mode with
  | code =>
    simp only [stepCode, alike.regexMayStart]
    split
    · exact .one (alike.enter _ _)
    split
    · exact .one (alike.enter _ _)
    split
    · split
      · exact .two (alike.withMode _)
      split
      · exact .two (alike.enter _ _)
      split
      · exact .one (alike.enter _ _)
      · exact .one (alike.pass _)
    split
    · rw [alike.depth]
      exact .one ((alike.pass _).withDepth _)
    split
    · rw [alike.depth]
      split
      · exact .close
      · exact .one ((alike.pass _).withDepth _)
    · exact .one (alike.pass _)
  | quoted quote =>
    simp only
    split
    · exact .two alike
    split
    · rw [alike.opened]
      exact .fail _
    split
    · exact .one (alike.leave _)
    · exact .one alike
  | template =>
    simp only
    split
    · exact .two alike
    split
    · exact .one (alike.leave _)
    · exact .one alike
  | lineComment =>
    simp only
    split
    · exact .one (alike.withMode _)
    · exact .one alike
  | blockComment =>
    simp only
    split
    · exact .two (alike.withMode _)
    · exact .one alike
  | regex inClass =>
    simp only
    split
    · exact .two alike
    split
    · rw [alike.opened]
      exact .fail _
    split
    · exact .one (alike.withMode _)
    split
    · exact .one (alike.withMode _)
    split
    · exact .one (alike.leave _)
    · exact .one alike

/-- Of the next character only two are looked for. -/
theorem step_next {other : Option Char} (slash : next = some '/' ↔ other = some '/')
    (star : next = some '*' ↔ other = some '*') :
    step state offset c next = step state offset c other := by
  simp only [step, stepCode, slash, star]

/-! ## Where the search fails -/

/-- The state that a step leads to is good, and so is the error that it fails with. -/
def Step.Leads (good : State → Prop) (failing : ReadError → Prop) : Step → Prop
  | .one later | .two later => good later
  | .close => True
  | .fail error => failing error

section Sound

variable {source : List Char}

namespace State.Sound

theorem initial {body : Nat} (place : Cursor.IsPlace source body) (before : Option Char) :
    Sound source (.initial body before) :=
  ⟨fun _ quoted => (by cases quoted), place⟩

variable (sound : state.Sound source)
include sound

theorem withMode {mode : Mode} (plain : ∀ quote, mode ≠ .quoted quote) :
    Sound source { state with mode := mode } :=
  ⟨fun quote quoted => absurd quoted (plain quote), sound.opened⟩

theorem withDepth (depth : Nat) : Sound source { state with depth := depth } :=
  ⟨sound.quotesAscii, sound.opened⟩

theorem leave (c : Char) : (state.leave c).Sound source :=
  ⟨fun _ quoted => (by cases quoted), sound.opened⟩

theorem pass (c : Char) : (state.pass c).Sound source := by
  unfold State.pass
  split
  · exact sound
  · exact ⟨sound.quotesAscii, sound.opened⟩

end State.Sound

theorem State.Sound.enter (place : Cursor.IsPlace source offset) {mode : Mode}
    (ascii : ∀ quote, mode = .quoted quote → isAscii quote = true) :
    (state.enter mode offset).Sound source := ⟨ascii, place⟩

/-- A step leads from sound states to sound states, and fails at places. -/
theorem sound_of_step (sound : state.Sound source) (place : Cursor.IsPlace source offset)
    {result : Step} (stepped : step state offset c next = result) :
    result.Leads (State.Sound source) fun error => Cursor.IsPlace source error.offset := by
  rw [← stepped]
  unfold step
  cases mode : state.mode with
  | code =>
    simp only [stepCode]
    split
    · rename_i quote
      refine .enter place fun quote quoted => ?_
      cases quoted
      simp only [Bool.or_eq_true, decide_eq_true_eq] at quote
      rcases quote with rfl | rfl <;> rfl
    split
    · exact .enter place fun _ quoted => by cases quoted
    split
    · split
      · exact sound.withMode fun _ quoted => by cases quoted
      split
      · exact .enter place fun _ quoted => by cases quoted
      split
      · exact .enter place fun _ quoted => by cases quoted
      · exact sound.pass c
    split
    · exact (sound.pass c).withDepth _
    split
    · split
      · trivial
      · exact (sound.pass c).withDepth _
    · exact sound.pass c
  | quoted quote =>
    simp only
    split
    · exact sound
    split
    · exact sound.opened
    split
    · exact sound.leave c
    · exact sound
  | template =>
    simp only
    split
    · exact sound
    split
    · exact sound.leave c
    · exact sound
  | lineComment =>
    simp only
    split
    · exact sound.withMode fun _ quoted => by cases quoted
    · exact sound
  | blockComment =>
    simp only
    split
    · exact sound.withMode fun _ quoted => by cases quoted
    · exact sound
  | regex inClass =>
    simp only
    split
    · exact sound
    split
    · exact sound.opened
    split
    · exact sound.withMode fun _ quoted => by cases quoted
    split
    · exact sound.withMode fun _ quoted => by cases quoted
    split
    · exact sound.leave c
    · exact sound

theorem isPlace_errorAtEnd (sound : state.Sound source) {opening : Nat}
    (place : Cursor.IsPlace source opening) :
    Cursor.IsPlace source (errorAtEnd opening state).offset := by
  unfold errorAtEnd
  split
  · exact sound.opened
  · exact sound.opened
  · exact sound.opened
  · exact sound.opened
  · exact place
  · exact place

/-- A search that fails does so at a place. -/
theorem isPlace_of_find {opening : Nat} {text : List Char} (isIn : Cursor.In ⟨offset, text⟩ source)
    (place : Cursor.IsPlace source opening) (sound : state.Sound source) {error : ReadError}
    (failed : find opening state offset text = .error error) :
    Cursor.IsPlace source error.offset := by
  fun_induction find opening state offset text with
  | case1 state offset =>
    cases failed
    exact isPlace_errorAtEnd sound place
  | case2 state offset c rest later stepped ih =>
    exact ih isIn.tail (sound_of_step sound isIn.isPlace stepped) failed
  | case3 state offset c later stepped =>
    cases failed
    exact isPlace_errorAtEnd (sound_of_step sound isIn.isPlace stepped) place
  | case4 state offset c later next rest stepped ih =>
    exact ih isIn.tail.tail (sound_of_step sound isIn.isPlace stepped) failed
  | case5 => cases failed
  | case6 state offset c rest error' stepped =>
    cases failed
    exact sound_of_step sound isIn.isPlace stepped

end Sound

/-- Only a closing bracket ends the search. -/
theorem eq_of_step_close (stepped : step state offset c next = .close) : c = ']' := by
  unfold step stepCode at stepped
  grind

/-- A character that takes one behind it along other than a slash or an asterisk is a backslash in a
string, a template or a regex literal. -/
theorem mode_of_step_two (slash : next ≠ some '/') (star : next ≠ some '*') {later : State}
    (stepped : step state offset c next = .two later) : later.mode ≠ .code := by
  unfold step stepCode at stepped
  grind

theorem errorAtEnd_alike (alike : first.Alike second) (opening : Nat) :
    errorAtEnd opening first = errorAtEnd opening second := by
  rw [errorAtEnd, errorAtEnd, alike.mode, alike.opened]

/-- What a search finds is a closing bracket of the text. -/
theorem find_eq_ok {opening : Nat} {text : List Char} {close : Cursor}
    (found : find opening state offset text = .ok close) :
    ∃ front rest, text = front ++ ']' :: rest ∧
      close = ⟨offset + byteLength front, ']' :: rest⟩ := by
  fun_induction find opening state offset text with
  | case1 => cases found
  | case2 state offset c rest later stepped ih =>
    obtain ⟨front, back, rfl, rfl⟩ := ih found
    exact ⟨c :: front, back, rfl, by rw [byteLength_cons, Nat.add_assoc]⟩
  | case3 => cases found
  | case4 state offset c later next rest stepped ih =>
    obtain ⟨front, back, rfl, rfl⟩ := ih found
    exact ⟨c :: next :: front, back, rfl, by simp [Nat.add_assoc]⟩
  | case5 state offset c rest stepped =>
    cases found
    rw [eq_of_step_close stepped]
    exact ⟨[], rest, rfl, rfl⟩
  | case6 => cases found

end Extent

namespace Indexed

open Extent

variable {lexer : Lexer} {opening offset : Nat} {state : State}

section ScriptEnd

variable {good : Nat → Lexer → Prop} {failing : ReadError → Prop}

/-- At the end of the source nothing is left to search. -/
theorem runs_scriptEnd_end (atEnd : byteLength lexer.source ≤ offset) :
    Runs (Search.scriptEnd opening state offset).find lexer good failing ↔
      failing (errorAtEnd opening state) := by
  have beyond : ¬ offset < (bytesOf lexer.source).length := by
    rw [length_bytesOf]
    exact Nat.not_lt.2 atEnd
  rw [Search.find, runs_bind, runs_source, if_neg beyond, runs_throw]

/-- What one byte does. -/
theorem runs_scriptEnd_byte {byte : Char} (found : (bytesOf lexer.source)[offset]? = some byte) :
    Runs (Search.scriptEnd opening state offset).find lexer good failing ↔
      match step state offset byte (bytesOf lexer.source)[offset + 1]? with
      | .one later => Runs (Search.scriptEnd opening later (offset + 1)).find lexer good failing
      | .two later => Runs (Search.scriptEnd opening later (offset + 2)).find lexer good failing
      | .close => good offset lexer
      | .fail error => failing error := by
  have within : offset < (bytesOf lexer.source).length := (List.getElem?_eq_some_iff.1 found).1
  rw [Search.find, runs_bind, runs_source, if_pos within, runs_bind, runs_byteAt found]
  cases step state offset byte (bytesOf lexer.source)[offset + 1]? <;> rfl

/-- Bytes of characters outside ASCII are passed. -/
theorem runs_scriptEnd_wide {bytes rest : List Char}
    (text : (bytesOf lexer.source).drop offset = bytes ++ rest)
    (wide : ∀ byte ∈ bytes, isAscii byte = false)
    (quotes : ∀ quote, state.mode = .quoted quote → isAscii quote = true) :
    Runs (Search.scriptEnd opening state offset).find lexer good failing ↔
      Runs (Search.scriptEnd opening (bytes.foldl State.pastWide state)
        (offset + bytes.length)).find lexer good failing := by
  induction bytes generalizing state offset with
  | nil => rfl
  | cons byte more ih =>
    obtain ⟨found, behind⟩ := getElem?_of_drop text
    rw [runs_scriptEnd_byte found, step_of_wide (wide byte (List.mem_cons_self ..)) quotes]
    simp only
    rw [ih behind (fun other member => wide other (List.mem_cons_of_mem _ member))
      (fun quote quoted => quotes quote (state.mode_pastWide byte ▸ quoted)), List.foldl_cons,
      List.length_cons, Nat.add_assoc, Nat.add_comm 1]

/-- What an ASCII character does is like what it does to the search by character. -/
theorem runs_scriptEnd_char {c : Char} {rest : List Char} {chars : State} {result : Step}
    (isIn : Cursor.In ⟨offset, c :: rest⟩ lexer.source) (ascii : isAscii c = true)
    (alike : state.Alike chars) (stepped : step chars offset c rest.head? = result) :
    ∃ mine : Step, mine.Alike result ∧
      (Runs (Search.scriptEnd opening state offset).find lexer good failing ↔
        match mine with
        | .one later => Runs (Search.scriptEnd opening later (offset + 1)).find lexer good failing
        | .two later => Runs (Search.scriptEnd opening later (offset + 2)).find lexer good failing
        | .close => good offset lexer
        | .fail error => failing error) := by
  have text : ∀ distance, (bytesOf lexer.source)[offset + distance]? =
      (c :: bytesOf rest)[distance]? := by
    intro distance
    rw [← bytesOf_of_isAscii ascii]
    exact getElem?_bytesOf isIn distance
  have found : (bytesOf lexer.source)[offset]? = some c := text 0
  have next : ∀ other, isAscii other = true →
      ((bytesOf lexer.source)[offset + 1]? = some other ↔ rest.head? = some other) := by
    intro other narrow
    rw [text 1, List.getElem?_cons_succ, ← List.head?_eq_getElem?, head?_bytesOf narrow]
  refine ⟨step state offset c rest.head?, stepped ▸ step_alike alike offset c rest.head?, ?_⟩
  rw [runs_scriptEnd_byte found, step_next (next '/' rfl) (next '*' rfl)]

/-- The bytes of a character outside ASCII lead to the state that the character leads to. -/
theorem alike_foldl_bytesOf {chars : State} {c : Char} (alike : state.Alike chars)
    (wide : isAscii c = false) :
    ((bytesOf [c]).foldl State.pastWide state).Alike (chars.pastWide c) := by
  obtain ⟨byte, more, split, wideByte⟩ := bytesOf_cons_of_not_isAscii wide []
  rw [split, List.foldl_cons]
  refine (alike.pastWide wideByte wide).foldl_pastWide (fun code => ?_) fun other member =>
    not_isAscii_of_mem wide (split ▸ List.mem_cons_of_mem _ member)
  rw [State.mode_pastWide] at code
  rw [State.pastWide, if_pos code]
  exact State.regexMayStart_of_wide chars wide

/-- Search by byte finds what search by character finds. -/
theorem runs_scriptEnd {text : List Char} {chars : State}
    (isIn : Cursor.In ⟨offset, text⟩ lexer.source) (sound : chars.Sound lexer.source)
    (alike : state.Alike chars) :
    Runs (Search.scriptEnd opening state offset).find lexer good failing ↔
      match find opening chars offset text with
      | .ok close => good close.offset lexer
      | .error error => failing error := by
  fun_induction find opening chars offset text generalizing state with
  | case1 chars offset =>
    have stop : byteLength lexer.source ≤ offset := Nat.le_of_eq isIn.stop_eq.symm
    rw [runs_scriptEnd_end stop, errorAtEnd_alike alike]
  | case2 chars offset c rest later stepped ih =>
    have soundLater := sound_of_step sound isIn.isPlace stepped
    cases ascii : isAscii c with
    | true =>
      obtain ⟨mine, both, runs⟩ := runs_scriptEnd_char isIn ascii alike stepped
      cases both with
      | one alikeLater =>
        rw [runs, ← ih isIn.tail soundLater alikeLater, utf8Size_of_isAscii ascii]
    | false =>
      rw [step_of_wide ascii sound.quotesAscii] at stepped
      cases stepped
      have size : (bytesOf [c]).length = c.utf8Size := length_bytesOf [c]
      rw [runs_scriptEnd_wide (isIn.drop_bytesOf.trans (bytesOf_cons c rest))
        (fun byte member => not_isAscii_of_mem ascii member)
        (fun quote quoted => sound.quotesAscii quote (alike.mode ▸ quoted)), size]
      exact ih isIn.tail soundLater (alike_foldl_bytesOf alike ascii)
  | case3 chars offset c later stepped =>
    cases ascii : isAscii c with
    | true =>
      obtain ⟨mine, both, runs⟩ := runs_scriptEnd_char isIn ascii alike stepped
      cases both with
      | two alikeLater =>
        have stop : offset + c.utf8Size = byteLength lexer.source := isIn.tail.stop_eq
        rw [utf8Size_of_isAscii ascii] at stop
        have beyond : byteLength lexer.source ≤ offset + 2 := by omega
        refine runs.trans ((runs_scriptEnd_end beyond).trans ?_)
        rw [errorAtEnd_alike alikeLater]
    | false =>
      rw [step_of_wide ascii sound.quotesAscii] at stepped
      cases stepped
  | case4 chars offset c later next rest stepped ih =>
    have soundLater := sound_of_step sound isIn.isPlace stepped
    cases ascii : isAscii c with
    | true =>
      obtain ⟨mine, both, runs⟩ := runs_scriptEnd_char isIn ascii alike stepped
      cases both with
      | two alikeLater =>
        rename_i mine
        -- Inside a character the search by byte passes the rest of the character's bytes.
        obtain ⟨more, wide, behind, size, only⟩ := behind_first_byte isIn.tail
        rw [utf8Size_of_isAscii ascii] at behind size
        have alikeBehind : (more.foldl State.pastWide mine).Alike later := by
          cases asciiNext : isAscii next with
          | true =>
            rw [only asciiNext]
            exact alikeLater
          | false =>
            have notCode : later.mode ≠ .code := by
              refine mode_of_step_two ?_ ?_ stepped <;>
                · rintro ⟨⟩
                  cases asciiNext
            exact alikeLater.foldl_pastWide (fun code => absurd code notCode) wide
        refine runs.trans ((runs_scriptEnd_wide behind wide fun quote quoted =>
          soundLater.quotesAscii quote (alikeLater.mode ▸ quoted)).trans ?_)
        rw [size, ← utf8Size_of_isAscii ascii]
        exact ih isIn.tail.tail soundLater alikeBehind
    | false =>
      rw [step_of_wide ascii sound.quotesAscii] at stepped
      cases stepped
  | case5 chars offset c rest stepped =>
    have ascii : isAscii c = true := by
      rw [eq_of_step_close stepped]
      rfl
    obtain ⟨mine, both, runs⟩ := runs_scriptEnd_char isIn ascii alike stepped
    cases both
    exact runs
  | case6 chars offset c rest error stepped =>
    cases ascii : isAscii c with
    | true =>
      obtain ⟨mine, both, runs⟩ := runs_scriptEnd_char isIn ascii alike stepped
      cases both
      exact runs
    | false =>
      rw [step_of_wide ascii sound.quotesAscii] at stepped
      cases stepped

end ScriptEnd

end Indexed

end BranchText
