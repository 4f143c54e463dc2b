import BranchText.Script.Evaluation

/-!
# The script that includes a document

A script that is nothing but a call of `include` with a quoted path: how it is read, and what it
does when it runs. It asks for the document once, puts the text of the document out, and stops if
the document cannot be had.
-/

namespace BranchText

namespace Script

/-- The program that includes the document at a path and does nothing else. -/
def Program.including (path : String) : Program := ⟨[], [.expression (.call "include" [.text path])]⟩

/-! ## Its text -/

/-- A text whose first character starts neither a blank nor a comment starts with its token. -/
theorem tokenize_cons {c : Char} {rest : List Char} (noComment : c ≠ '/')
    (noBlank : isBlank c = false) (next : NextToken (c :: rest))
    (found : nextToken? (c :: rest) = some next) :
    tokenize (c :: rest) = (tokenize next.rest).map (next.token :: ·) := by
  rw [tokenize]
  · simp [noBlank, found]
  · rintro r rfl; simp at noComment
  · rintro r rfl; simp at noComment

/-- Characters that stand for themselves between double quotes. -/
def standsForItself (c : Char) : Bool := c ≠ '\x22' && c ≠ '\\' && c ≠ '\n'

theorem quoted?_plain {text rest : List Char} (plain : text.all standsForItself)
    (ends : rest.head? ≠ some '\x22') : quoted? (text ++ '\x22' :: rest) = some (text, rest) := by
  induction text with
  | nil =>
    rw [List.nil_append, quoted?]
    rintro r rfl
    exact ends rfl
  | cons c text ih =>
    simp only [List.all_cons, Bool.and_eq_true] at plain
    simp only [standsForItself, Bool.and_eq_true, decide_eq_true_eq, ne_eq] at plain
    rw [List.cons_append, quoted?]
    · rw [ih (by simpa [standsForItself] using plain.2)]; rfl
    all_goals grind

/-- A word is a token with everything that continues it. -/
theorem tokenize_word {c : Char} {rest : List Char} (starts : startsWord c = true) :
    tokenize (c :: rest) = (tokenize (rest.dropWhile continuesWord)).map
      (.word (String.ofList (c :: rest.takeWhile continuesWord)) :: ·) := by
  have noQuote : c ≠ '\x22' := by rintro rfl; exact absurd starts (by decide)
  have shorter : (rest.dropWhile continuesWord).length < (c :: rest).length :=
    Nat.lt_succ_of_le (List.dropWhile_sublist _).length_le
  refine tokenize_cons (by rintro rfl; exact absurd starts (by decide)) ?_ ⟨_, _, shorter⟩ ?_
  · unfold isBlank
    simp only [Bool.or_eq_false_iff, decide_eq_false_iff_not]
    refine ⟨⟨⟨?_, ?_⟩, ?_⟩, ?_⟩ <;> (rintro rfl; exact absurd starts (by decide))
  · simp only [nextToken?, noQuote, starts, if_true, if_false, dif_pos shorter]

/-- A quoted text is a token. -/
theorem tokenize_quoted {rest after text : List Char} (found : quoted? rest = some (text, after))
    (shorter : after.length < rest.length + 1) :
    tokenize ('\x22' :: rest) = (tokenize after).map (.text (String.ofList text) :: ·) := by
  refine tokenize_cons (by decide) (by decide) ⟨_, _, shorter⟩ ?_
  simp only [nextToken?, found, if_true, Option.map_some, List.length_cons, dif_pos shorter]

/-- A parenthesis is a token. -/
theorem tokenize_parenthesis {c : Char} {symbol : Symbol} (rest : List Char)
    (spelled : (c, symbol) = ('(', .leftParen) ∨ (c, symbol) = (')', .rightParen)) :
    tokenize (c :: rest) = (tokenize rest).map (.symbol symbol :: ·) := by
  have shorter : rest.length < (c :: rest).length := Nat.lt_succ_self _
  rcases spelled with same | same <;> cases same <;>
  · refine tokenize_cons (by decide) (by decide) ⟨_, _, shorter⟩ ?_
    exact dif_pos shorter

/-- A call of `include` with a plain path is read as such. -/
theorem tokenize_include {path : List Char} (plain : path.all standsForItself) :
    tokenize ("include(\"".toList ++ (path ++ "\")".toList)) =
      some [.word "include", .symbol .leftParen, .text (String.ofList path), .symbol .rightParen] := by
  change tokenize ('i' :: ("nclude(\"".toList ++ (path ++ ['\x22', ')']))) = _
  rw [tokenize_word (by decide)]
  change (tokenize ('(' :: '\x22' :: (path ++ '\x22' :: [')']))).map (.word "include" :: ·) = _
  rw [tokenize_parenthesis _ (.inl rfl), tokenize_quoted (quoted?_plain plain (by decide)) (by simp),
   tokenize_parenthesis _ (.inr rfl)]
  rw [tokenize]
  rfl

theorem operations_nil (level : Nat) (left : Expression) :
    operations level left [] = some ⟨left, [], Nat.lt_succ_self _⟩ := by
  rw [operations]
  intro found rest same
  cases same

theorem operations_rightParen (level : Nat) (left : Expression) (rest : List Token) :
    operations level left (.symbol .rightParen :: rest) =
      some ⟨left, .symbol .rightParen :: rest, Nat.lt_succ_self _⟩ := by
  rw [operations]
  rfl

theorem expression_text (level : Nat) (text : String) (rest : List Token) :
    expression level (.text text :: .symbol .rightParen :: rest) =
      some ⟨.text text, .symbol .rightParen :: rest, Nat.lt_succ_self _⟩ := by
  rw [expression, unary, operand]
  · simp [accesses, operations_rightParen]
  · intro later same
    cases same

theorem items_text (text : String) (rest : List Token)
    (fewer : rest.length < (.text text :: .symbol .rightParen :: rest : List Token).length) :
    items .rightParen (.text text :: .symbol .rightParen :: rest) =
      some ⟨[.text text], rest, fewer⟩ := by
  rw [items]
  simp [expect, expression_text]

theorem toplevel_include (path : String) :
    toplevel [.word "include", .symbol .leftParen, .text path, .symbol .rightParen] =
      some (.including path) := by
  have called : expression 0
      [.word "include", .symbol .leftParen, .text path, .symbol .rightParen] =
        some ⟨.call "include" [.text path], [], by simp⟩ := by
    rw [expression, unary, operand]
    · rw [items_text path [] (by simp)]
      simp [accesses, operations_nil, isName, keywords]
    all_goals simp
  have stated : statement
      [.word "include", .symbol .leftParen, .text path, .symbol .rightParen] =
        some ⟨⟨.expression (.call "include" [.text path]), false⟩, [], by simp⟩ := by
    rw [statement, called]
    · rfl
    all_goals simp
  rw [toplevel]
  simp [skipSemicolons, stated, Program.including]

/-- A call of `include` with a path of plain characters between double quotes reads as the program
that includes the document at that path. -/
theorem read?_include {path : String} (plain : path.toList.all standsForItself) :
    Program.read? ("include(\"" ++ path ++ "\")") = some (.including path) := by
  rw [Program.read?, String.toList_append, String.toList_append, List.append_assoc,
    tokenize_include plain]
  exact (toplevel_include _).trans (by rw [String.ofList_toList])

/-! ## Its run -/

/-- The program asks for the document, and for nothing else. -/
theorem run_including (path : String) :
    (Program.including path).run =
      .ask (.document path) fun answer => .done
        (match answer with
          | .ok text => (.ok ("" ++ text), ⟨[], #[]⟩)
          | .error reason => (.error ⟨some reason⟩, ⟨[], #[]⟩)) := by
  change Exchange.ask _ _ = _
  congr 1
  funext answer
  cases answer with
  | error reason => rfl
  | ok text => rfl

end Script

end BranchText
