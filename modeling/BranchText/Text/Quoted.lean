import BranchText.Document.ReadError
import BranchText.Source.Cursor

/-!
# Quoted literals

A quoted literal runs from a quote character to the next one that no backslash stands before.
Inside it a backslash gives the next character another meaning or takes its meaning away. Double
and single quotes do not span lines, backticks do.
-/

namespace BranchText

namespace Quoted

/-- The cursor at the closing quote, for a literal opened at the byte offset `opening`. -/
def find (quote : Char) (opening : Nat) (offset : Nat) : List Char → Except ReadError Cursor
  | [] => .error (.unclosedScript opening .quoted)
  | c :: rest =>
    if c = '\\' then
      match rest with
      | [] => .error (.unclosedScript opening .quoted)
      | next :: later => find quote opening (offset + c.utf8Size + next.utf8Size) later
    else if c = '\n' && quote != '\x60' then .error (.unclosedScript opening .quoted)
    else if c = quote then .ok ⟨offset, c :: rest⟩
    else find quote opening (offset + c.utf8Size) rest

/-- The closing quote is one of the characters searched. -/
theorem size_find_le {quote : Char} {opening offset : Nat} {text : List Char} {cursor : Cursor}
    (found : find quote opening offset text = .ok cursor) : cursor.size ≤ text.length := by
  fun_induction find quote opening offset text with
  | case1 => cases found
  | case2 => cases found
  | case3 _ _ _ ih =>
    have := ih found
    simp only [List.length_cons]
    omega
  | case4 => cases found
  | case5 => cases found; exact Nat.le_refl _
  | case6 _ _ _ _ _ _ ih =>
    have := ih found
    simp only [List.length_cons]
    omega

/-- The characters that the inside of a literal stands for. A backslash at its very end stands
for itself. -/
def decode : List Char → List Char
  | [] => []
  | '\\' :: 'n' :: rest => '\n' :: decode rest
  | '\\' :: 't' :: rest => '\t' :: decode rest
  | '\\' :: 'r' :: rest => '\r' :: decode rest
  | '\\' :: c :: rest => c :: decode rest
  | c :: rest => c :: decode rest

end Quoted

/-- The byte offset of the quote that closes the literal opened at a byte offset. -/
def quoteEnd (source : List Char) (opening : Nat) : Except ReadError Nat :=
  match Cursor.at? source opening with
  | some ⟨offset, quote :: rest⟩ =>
    (Quoted.find quote opening (offset + quote.utf8Size) rest).map (·.offset)
  | _ => .error (.unclosedScript opening .quoted)

end BranchText
