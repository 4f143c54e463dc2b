import BranchText.Document.Reader
import BranchText.Proofs.Cut.Places
import BranchText.Proofs.Cut.Scripts

/-!
# What is reported of a source that is cut off

`IsOpen` is the report of a construct that starts in front of the cut and that the source closes
behind it. `IsLate` are the places at the last token in front of the cut, which is all else that
something is reported at.
-/

namespace BranchText

namespace Cut

variable (cut : Cut)

/-- A construct starts with a mark in front of the cut and ends behind the cut; `ends` says where
one that starts there ends. -/
def Opens (offset : Nat) (mark : List Char) (ends : Cursor → Cursor → Prop) : Prop :=
  ∃ before inside last, cut.front = before ++ mark ++ inside ∧ byteLength before = offset ∧
    ends ⟨offset + byteLength mark, inside ++ cut.back⟩ last ∧ last.size < cut.back.length

/-- Reports of something that is open at the cut. -/
inductive IsOpen : ReadError → Prop
  | brace {offset : Nat} (opens : cut.Opens offset ['\x7b'] fun body last =>
      ∃ reading, Reader.block offset body = .ok reading ∧ reading.rest = last) :
    IsOpen (.malformed offset .unclosedBrace)
  | paren {offset : Nat} (opens : cut.Opens offset ['('] fun body last =>
      ∃ reading, Reader.sequence (some offset) 0 .empty .empty body = .ok reading ∧
        reading.rest = last) :
    IsOpen (.malformed offset .unclosedParen)
  | verbatim {offset : Nat} (opens : cut.Opens offset ['[', '['] fun body last =>
      ∃ reading, Reader.verbatim offset body = .ok reading ∧ reading.rest = last) :
    IsOpen (.malformed offset .unclosedVerbatim)
  | comment {offset : Nat} (opens : cut.Opens offset ['/', '*'] fun body last =>
      ∃ length, lengthOfBlockComment? body.rest = some length ∧ body.skip length = last) :
    IsOpen (.malformed offset .unclosedComment)
  | quoted {offset : Nat} {kind : TokenKind} {quote : Char}
      (isQuote : kind.quote? = some quote) (opens : cut.Opens offset [quote] fun body last =>
        ∃ close, Quoted.find quote offset body.offset body.rest = .ok close ∧
          close.skip 1 = last) :
    IsOpen (.unclosedScript offset .quoted)
  | script {offset : Nat} (opens : cut.Opens offset ['['] fun body last =>
      ∃ reading, Reader.script offset body = .ok reading ∧ reading.rest = last) :
    IsOpen (.unclosedScript offset .script)
  /-- A string, a template, a regex literal or a comment in a script. -/
  | inside {opening offset : Nat} {kind : OpenText}
      (opens : cut.Opens opening ['['] fun body last =>
      (∃ reading, Reader.script opening body = .ok reading ∧ reading.rest = last) ∧
        Extent.HoldsUpTo (.initial body.offset none, body) offset cut.back.length)
      (before : offset < byteLength cut.front) : IsOpen (.unclosedScript offset kind)

/-- At most a word, and behind it blanks, line breaks and comments, lead to a token of the source
that ends behind the cut. -/
def Nears (cursor : Cursor) : Prop :=
  ∃ last lexed, cursor.Leads [.call, .eval, .mode, .use] last ∧ last.next = .ok lexed ∧
    lexed.after.size < cut.back.length

/-- The offset of the last token in front of the cut, or of the cut. -/
def IsLate (offset : Nat) : Prop :=
  offset ≤ byteLength cut.front ∧ ∃ before after, before ++ after = cut.front ∧
    byteLength before ≤ offset ∧ cut.Nears (cut.place before after .whole)

/-- What is reported of the text in front of a cut. -/
def IsReported (error : ReadError) : Prop := cut.IsOpen error ∨ cut.IsLate error.offset

variable {cut}

theorem Opens.lt {offset : Nat} {c : Char} {mark : List Char} {ends : Cursor → Cursor → Prop}
    (opens : cut.Opens offset (c :: mark) ends) : offset < byteLength cut.front := by
  obtain ⟨before, inside, -, split, rfl, -⟩ := opens
  have wide := c.utf8Size_pos
  rw [split, byteLength_append, byteLength_append, byteLength_cons]
  omega

/-- What is open at the cut starts in front of it. -/
theorem IsOpen.lt {error : ReadError} (isOpen : cut.IsOpen error) :
    error.offset < byteLength cut.front := by
  cases isOpen with
  | brace opens | paren opens | verbatim opens | comment opens | quoted _ opens | script opens =>
    exact opens.lt
  | inside _ before => exact before

theorem IsLate.mono {first last : Nat} (late : cut.IsLate first) (order : first ≤ last)
    (within : last ≤ byteLength cut.front) : cut.IsLate last := by
  obtain ⟨-, before, after, split, behind, nears⟩ := late
  exact ⟨within, before, after, split, Nat.le_trans behind order, nears⟩

/-- A place from which little leads to the cut is late. -/
theorem isLate_of_nears {before after : List Char} (split : before ++ after = cut.front)
    (nears : cut.Nears (cut.place before after .whole)) : cut.IsLate (byteLength before) := by
  refine ⟨?_, before, after, split, Nat.le_refl _, nears⟩
  rw [← split, byteLength_append]
  exact Nat.le_add_right ..

end Cut

end BranchText
