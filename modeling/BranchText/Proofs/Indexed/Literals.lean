import BranchText.Indexed.Reader
import BranchText.Proofs.Indexed.Stream

/-!
# Literals by byte index

The search for the end of a quoted literal, by byte, finds the place that the search by character
finds, and verbatim text is copied character by character.
-/

namespace BranchText

namespace Quoted

variable {quote : Char} {opening offset : Nat} {text : List Char}

/-- What a search finds is a quote of the text. -/
theorem find_eq_ok {close : Cursor} (found : find quote opening offset text = .ok close) :
    ∃ front rest, text = front ++ quote :: rest ∧
      close = ⟨offset + byteLength front, quote :: rest⟩ := by
  fun_induction find quote opening offset text with
  | case1 => cases found
  | case2 => cases found
  | case3 offset next rest ih =>
    obtain ⟨front, back, rfl, rfl⟩ := ih found
    exact ⟨'\\' :: next :: front, back, rfl, by simp [Nat.add_assoc]⟩
  | case4 => cases found
  | case5 offset rest =>
    cases found
    exact ⟨[], rest, rfl, rfl⟩
  | case6 offset c more _ _ _ ih =>
    obtain ⟨front, back, rfl, rfl⟩ := ih found
    exact ⟨c :: front, back, rfl, by rw [byteLength_cons, Nat.add_assoc]⟩

/-- A search that fails does so at the quote that opens the literal. -/
theorem find_eq_error {error : ReadError} (failed : find quote opening offset text = .error error) :
    error = .unclosedScript opening .quoted := by
  fun_induction find quote opening offset text with
  | case1 => cases failed; rfl
  | case2 => cases failed; rfl
  | case3 _ _ _ ih => exact ih failed
  | case4 => cases failed; rfl
  | case5 => cases failed
  | case6 _ _ _ _ _ _ ih => exact ih failed

end Quoted

namespace Indexed

variable {lexer : Lexer} {opening offset : Nat}

section QuoteEnd

variable {quote : Char} {good : Nat → Lexer → Prop} {failing : ReadError → Prop}

theorem runs_quoteEnd_end (atEnd : byteLength lexer.source ≤ offset) :
    Runs (Search.quoteEnd quote opening offset).find lexer good failing ↔
      failing (.unclosedScript opening .quoted) := by
  have beyond : ¬ offset < (bytesOf lexer.source).length := by
    rw [length_bytesOf]
    exact Nat.not_lt.2 atEnd
  rw [Search.find, runs_bind, runs_source, if_neg beyond, runs_throw]

theorem runs_quoteEnd_byte {byte : Char} (found : (bytesOf lexer.source)[offset]? = some byte) :
    Runs (Search.quoteEnd quote opening offset).find lexer good failing ↔
      if byte = '\\' then Runs (Search.quoteEnd quote opening (offset + 2)).find lexer good failing
      else if byte = '\n' && quote != '\x60' then failing (.unclosedScript opening .quoted)
      else if byte = quote then good offset lexer
      else Runs (Search.quoteEnd quote opening (offset + 1)).find lexer good failing := by
  have within : offset < (bytesOf lexer.source).length := (List.getElem?_eq_some_iff.1 found).1
  rw [Search.find, runs_bind, runs_source, if_pos within, runs_bind, runs_byteAt found]
  split
  · rfl
  split
  · rfl
  split
  · rfl
  · rfl

/-- Bytes of characters outside ASCII are passed. -/
theorem runs_quoteEnd_wide (ascii : isAscii quote = true) {bytes rest : List Char}
    (text : (bytesOf lexer.source).drop offset = bytes ++ rest)
    (wide : ∀ byte ∈ bytes, isAscii byte = false) :
    Runs (Search.quoteEnd quote opening offset).find lexer good failing ↔
      Runs (Search.quoteEnd quote opening (offset + bytes.length)).find lexer good failing := by
  induction bytes generalizing offset with
  | nil => rfl
  | cons byte more ih =>
    obtain ⟨found, behind⟩ := getElem?_of_drop text
    have other : ∀ c, isAscii c = true → byte ≠ c := by
      rintro c narrow rfl
      rw [wide byte (List.mem_cons_self ..)] at narrow
      cases narrow
    rw [runs_quoteEnd_byte found, if_neg (other '\\' rfl), if_neg (by simp [other '\n' rfl]),
      if_neg (other quote ascii), ih behind fun other member => wide other (List.mem_cons_of_mem _ member),
      List.length_cons, Nat.add_assoc, Nat.add_comm 1]

/-- Search by byte finds what search by character finds. -/
theorem runs_quoteEnd {text : List Char} (isIn : Cursor.In ⟨offset, text⟩ lexer.source)
    (ascii : isAscii quote = true) :
    Runs (Search.quoteEnd quote opening offset).find lexer good failing ↔
      match Quoted.find quote opening offset text with
      | .ok close => good close.offset lexer
      | .error error => failing error := by
  have first : ∀ {offset : Nat} {c : Char} {rest : List Char},
      Cursor.In ⟨offset, c :: rest⟩ lexer.source → isAscii c = true →
        (bytesOf lexer.source)[offset]? = some c := by
    intro offset c rest isIn ascii
    have byte := getElem?_bytesOf isIn 0
    rw [bytesOf_of_isAscii ascii] at byte
    exact byte
  fun_induction Quoted.find quote opening offset text with
  | case1 offset =>
    have stop : byteLength lexer.source ≤ offset := Nat.le_of_eq isIn.stop_eq.symm
    exact runs_quoteEnd_end stop
  | case2 offset =>
    have stop : offset + 1 = byteLength lexer.source := isIn.tail.stop_eq
    have beyond : byteLength lexer.source ≤ offset + 2 := by omega
    rw [runs_quoteEnd_byte (first isIn rfl), if_pos rfl, runs_quoteEnd_end beyond]
  | case3 offset next rest ih =>
    rw [runs_quoteEnd_byte (first isIn rfl), if_pos rfl]
    obtain ⟨more, wide, behind, size, -⟩ := behind_first_byte isIn.tail
    refine (runs_quoteEnd_wide ascii behind wide).trans ?_
    rw [size]
    exact ih isIn.tail.tail
  | case4 offset c rest plain broken =>
    have narrow : isAscii c = true := by
      simp only [Bool.and_eq_true, decide_eq_true_eq] at broken
      rw [broken.1]
      rfl
    rw [runs_quoteEnd_byte (first isIn narrow), if_neg plain, if_pos broken]
  | case5 offset rest plain whole =>
    rw [runs_quoteEnd_byte (first isIn ascii), if_neg plain, if_neg whole, if_pos rfl]
  | case6 offset c rest plain whole other ih =>
    cases narrow : isAscii c with
    | true =>
      rw [runs_quoteEnd_byte (first isIn narrow), if_neg plain, if_neg whole, if_neg other,
        ← utf8Size_of_isAscii narrow]
      exact ih isIn.tail
    | false =>
      have size : (bytesOf [c]).length = c.utf8Size := length_bytesOf [c]
      rw [runs_quoteEnd_wide ascii (isIn.drop_bytesOf.trans (bytesOf_cons c rest))
        (fun byte member => not_isAscii_of_mem narrow member), size]
      exact ih isIn.tail

end QuoteEnd

section Verbatim

variable {good : List Char → Lexer → Prop} {failing : ReadError → Prop}

/-- Verbatim text is copied up to the brackets that close it, and the stream jumps behind them. -/
theorem runs_verbatim {text : List Char} (isIn : Cursor.In ⟨offset, text⟩ lexer.source)
    (before : List Char) :
    Runs (Search.verbatim opening offset before).find lexer good failing ↔
      match Reader.verbatim? text with
      | none => failing (.malformed opening .unclosedVerbatim)
      | some (more, length) =>
        good (before ++ more)
          { lexer with index := (Cursor.mk offset text |>.skip length).offset, ahead := none } := by
  have within : ∀ {offset : Nat} {c : Char} {rest : List Char},
      Cursor.In ⟨offset, c :: rest⟩ lexer.source → offset < (bytesOf lexer.source).length := by
    intro offset c rest isIn
    have stop : offset + byteLength (c :: rest) = byteLength lexer.source := isIn.stop_eq
    have positive := c.utf8Size_pos
    rw [byteLength_cons] at stop
    rw [length_bytesOf]
    omega
  fun_induction Reader.verbatim? text generalizing offset before with
  | case1 =>
    have beyond : ¬ offset < (bytesOf lexer.source).length := by
      rw [length_bytesOf]
      exact Nat.not_lt.2 (Nat.le_of_eq isIn.stop_eq.symm)
    rw [Search.find, runs_bind, runs_source, if_neg beyond, runs_throw]
  | case2 rest ih =>
    rw [Search.find, runs_bind, runs_source, if_pos (within isIn), runs_bind, runs_place isIn]
    refine (ih isIn.tail.tail.tail _).trans ?_
    cases Reader.verbatim? rest with
    | none => rfl
    | some found =>
      simp only [Option.map_some, Cursor.skip_succ, List.append_assoc]
      rfl
  | case3 rest =>
    have behind : Cursor.In ⟨offset + 2, rest⟩ lexer.source := isIn.tail.tail
    rw [Search.find, runs_bind, runs_source, if_pos (within isIn), runs_bind, runs_place isIn]
    simp only [runs_bind]
    rw [runs_jump behind, runs_pure, List.append_nil]
    rfl
  | case4 c rest escaped closing ih =>
    rw [Search.find, runs_bind, runs_source, if_pos (within isIn), runs_bind, runs_place isIn]
    have copied : Runs (Search.verbatim opening (offset + c.utf8Size) (before ++ [c])).find
        lexer good failing ↔ _ := ih isIn.tail (before ++ [c])
    split
    · rename_i split
      obtain ⟨rfl, rfl⟩ := List.cons.inj split
      exact absurd rfl (escaped _ rfl)
    · rename_i split
      obtain ⟨rfl, rfl⟩ := List.cons.inj split
      exact absurd rfl (closing _ rfl)
    · rename_i split
      obtain ⟨rfl, rfl⟩ := List.cons.inj split
      refine copied.trans ?_
      cases Reader.verbatim? rest with
      | none => rfl
      | some found =>
        simp only [Option.map_some, Cursor.skip_succ, List.append_assoc]
        rfl
    · rename_i split
      cases split

end Verbatim

end Indexed

end BranchText
