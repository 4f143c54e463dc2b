import BranchText.Proofs.Compared.Fronts
import BranchText.Proofs.Reading.Words

/-!
# Quoted texts

How a text is written between two quotes, whatever the text: a backslash stands before each
backslash and each quote of the same kind, and a line feed is written as a letter behind one.
`read_encode` says that the literal ends at its second quote, whatever is behind it, and stands for
the text.
-/

namespace BranchText

namespace Quoted

/-- The characters that literals are quoted with. -/
def quotes : List Char := ['\x22', '\x27', '\x60']

/-- How a character is written inside a literal. -/
def escape (quote c : Char) : List Char :=
  if c = '\\' then ['\\', '\\']
  else if c = quote then ['\\', quote]
  else if c = '\n' then ['\\', 'n']
  else [c]

/-- How a text is written inside a literal. -/
def encode (quote : Char) (text : List Char) : List Char := text.flatMap (escape quote)

@[simp]
theorem encode_nil (quote : Char) : encode quote [] = [] := rfl

@[simp]
theorem encode_cons (quote c : Char) (text : List Char) :
    encode quote (c :: text) = escape quote c ++ encode quote text := rfl

section Quotes

variable {quote : Char} (isQuote : quote ∈ quotes)
include isQuote

/-- No quote has a meaning of its own behind a backslash, or is one. -/
theorem plain_of_mem_quotes :
    quote ≠ '\\' ∧ quote ≠ '\n' ∧ quote ≠ 'n' ∧ quote ≠ 't' ∧ quote ≠ 'r' := by
  simp only [quotes, List.mem_cons, List.not_mem_nil, or_false] at isQuote
  rcases isQuote with rfl | rfl | rfl <;> decide

/-- A character that is written down is passed. -/
theorem find_escape (c : Char) (opening offset : Nat) (rest : List Char) :
    find quote opening offset (escape quote c ++ rest) =
      find quote opening (offset + byteLength (escape quote c)) rest := by
  obtain ⟨noBackslash, noLine, -⟩ := plain_of_mem_quotes isQuote
  unfold escape
  split
  · simp [find, Nat.add_assoc]
  split
  · simp [find, Nat.add_assoc]
  split
  · simp [find, Nat.add_assoc]
  · rename_i other single line
    rw [List.singleton_append, find.eq_def]
    simp [other, single, line]

/-- The search for the end of a literal passes all that is written in it. -/
theorem find_encode (text : List Char) (opening offset : Nat) (tail : List Char) :
    find quote opening offset (encode quote text ++ quote :: tail) =
      .ok ⟨offset + byteLength (encode quote text), quote :: tail⟩ := by
  induction text generalizing offset with
  | nil =>
    obtain ⟨noBackslash, noLine, -⟩ := plain_of_mem_quotes isQuote
    rw [encode_nil, List.nil_append, find.eq_def]
    simp [noBackslash, noLine]
  | cons c text ih =>
    rw [encode_cons, List.append_assoc, find_escape isQuote, ih, byteLength_append, Nat.add_assoc]

/-- A character that is written down stands for itself. -/
theorem decode_escape (c : Char) (rest : List Char) :
    decode (escape quote c ++ rest) = c :: decode rest := by
  obtain ⟨-, -, noLine, noTab, noReturn⟩ := plain_of_mem_quotes isQuote
  unfold escape
  split
  · rename_i same
    simp [same, decode]
  split
  · rename_i same
    subst same
    rw [List.cons_append, List.singleton_append, decode]
    all_goals assumption
  split
  · rename_i line
    simp [line, decode]
  · rename_i other single line
    simp [decode, other]

/-- What is written in a literal stands for the text. -/
theorem decode_encode (text : List Char) : decode (encode quote text) = text := by
  induction text with
  | nil => rfl
  | cons c text ih => rw [encode_cons, decode_escape isQuote, ih]

/-- A quote is a token that opens a literal. -/
theorem gives_quote (offset : Nat) (rest : List Char) :
    ∃ kind : TokenKind, kind.quote? = some quote ∧
      Cursor.Gives ⟨offset, quote :: rest⟩ kind (String.singleton quote) rest := by
  have solid : ∀ kind : TokenKind, kind.quote?.isSome = true →
      kind ≠ .lineComment ∧ kind ≠ .blockCommentStart := by
    intro kind
    cases kind <;> simp [TokenKind.quote?]
  obtain ⟨kind, opens, read⟩ : ∃ kind : TokenKind, kind.quote? = some quote ∧
      lexeme (quote :: rest) = ⟨kind, String.singleton quote, 1⟩ := by
    simp only [quotes, List.mem_cons, List.not_mem_nil, or_false] at isQuote
    rcases isQuote with rfl | rfl | rfl
    · exact ⟨.doubleQuote, rfl, rfl⟩
    · exact ⟨.singleQuote, rfl, rfl⟩
    · exact ⟨.backtick, rfl, rfl⟩
  obtain ⟨line, comment⟩ := solid kind (by rw [opens]; rfl)
  refine ⟨kind, opens, ?_⟩
  have gives : Cursor.Gives ⟨offset, quote :: rest⟩ _ _ _ :=
    Cursor.gives_of_lexeme read line comment
  simpa using gives

/-- A text between quotes is found up to its second quote, whatever stands around it, and what
stands between the quotes is read as the text. -/
theorem read_encode (front text tail : List Char) :
    quoteEnd (front ++ quote :: (encode quote text ++ quote :: tail)) (byteLength front) =
        .ok (byteLength (front ++ quote :: encode quote text)) ∧
      decode (encode quote text) = text ∧
      Reads (Reader.quoted ⟨byteLength front, quote :: (encode quote text ++ quote :: tail)⟩)
        (· = String.ofList text) tail := by
  refine ⟨?_, decode_encode isQuote text, ?_⟩
  · have isIn : Cursor.In ⟨byteLength front, quote :: (encode quote text ++ quote :: tail)⟩
        (front ++ quote :: (encode quote text ++ quote :: tail)) := ⟨front, rfl, rfl⟩
    rw [quoteEnd, isIn.at?]
    dsimp only
    rw [find_encode isQuote, byteLength_append, byteLength_cons, Except.map, Nat.add_assoc]
  · obtain ⟨kind, opens, lexed, read, rfl, -, after⟩ :=
      gives_quote isQuote (byteLength front) (encode quote text ++ quote :: tail)
    have finds : ∀ opening offset other,
        find quote opening offset (encode quote text ++ quote :: [] ++ other) =
          .ok ⟨offset + byteLength (encode quote text), quote :: [] ++ other⟩ := by
      intro opening offset other
      simpa using find_encode isQuote text opening offset other
    have written : lexed.after.rest = encode quote text ++ quote :: [] ++ tail := by
      simpa using after
    obtain ⟨reading, given, value, rest⟩ := Reader.quoted_of_finds finds read opens written
    refine ⟨reading, given, ?_, by rw [rest]; rfl⟩
    rw [value, decode_encode isQuote]

end Quotes

/-- A backslash in front of a quote, a character of several bytes, a quote of another kind and a
line feed between single quotes. -/
theorem read_encode_apostrophe : '\x27' ∈ quotes ∧
    encode '\x27' "é\\'\"\n".toList = "é\\\\\\'\"\\n".toList ∧
    quoteEnd "say 'é\\\\\\'\"\\n', 'x'".toList 4 = .ok 14 ∧
    decode "é\\\\\\'\"\\n".toList = "é\\'\"\n".toList ∧
    Reads (Reader.quoted ⟨4, "'é\\\\\\'\"\\n', 'x'".toList⟩) (· = "é\\'\"\n") ", 'x'".toList := by
  have isQuote : '\x27' ∈ quotes := by decide
  have written : encode '\x27' "é\\'\"\n".toList = "é\\\\\\'\"\\n".toList := by decide
  obtain ⟨ends, stands, reads⟩ :=
    read_encode isQuote "say ".toList "é\\'\"\n".toList ", 'x'".toList
  rw [written] at ends stands reads
  exact ⟨isQuote, written, ends, stands, reads⟩

end Quoted

end BranchText
