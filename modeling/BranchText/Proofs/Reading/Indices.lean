import BranchText.Proofs.Reading.Gaps

/-!
# Written indices

A reference with mappings as it is written: groups of a list of indices, an arrow and a choice, with
commas between the groups and between the indices. What separates indices starts with no digit, so a
list is read from its first index up to the arrow.
-/

namespace BranchText

/-! ## Written references -/

/-- A branch index as it is written, in gaps of blanks and line breaks. -/
structure WrittenIndex where
  before : List Char
  digits : List Char
  after : List Char
  before_isGap : Reader.isGap before = true
  after_isGap : Reader.isGap after = true
  digits_ne_nil : digits ≠ []
  isDigit_of_mem : ∀ c ∈ digits, Decimal.isDigit c = true
  small : Nat.ofDigitChars 10 digits 0 < UInt64.size

namespace WrittenIndex

/-- The index itself. Leading zeros do not count. -/
def value (index : WrittenIndex) : Nat := Nat.ofDigitChars 10 index.digits 0

def text (index : WrittenIndex) : List Char := index.before ++ index.digits ++ index.after

/-- Indices behind others, each behind a comma. -/
def further (indices : List WrittenIndex) : List Char :=
  indices.flatMap fun index => ',' :: index.text

/-- The indices of a list behind a text, each with the offset of its digits. -/
def places (front : List Char) : List WrittenIndex → List (Nat × Nat)
  | [] => []
  | index :: rest => (index.value, byteLength (front ++ index.before)) ::
      places (front ++ index.text ++ [',']) rest

end WrittenIndex

/-- A group as it is written: a list of indices, an arrow, and a choice in parentheses that can be
read by itself. -/
structure WrittenGroup where
  first : WrittenIndex
  others : List WrittenIndex
  lead : List Char
  /-- The choice behind its opening parenthesis. -/
  body : List Char
  trail : List Char
  lead_isGap : Reader.isGap lead = true
  trail_isGap : Reader.isGap trail = true
  byItself : ∃ alone, Reader.choice (.start ('(' :: body)) = .ok alone ∧ alone.rest.rest = []

namespace WrittenGroup

def indices (group : WrittenGroup) : List WrittenIndex := group.first :: group.others

/-- What stands in front of the choice. -/
def front (group : WrittenGroup) : List Char :=
  group.first.text ++ WrittenIndex.further group.others ++ ['-', '>'] ++ group.lead

def choice (group : WrittenGroup) : List Char := '(' :: group.body

def text (group : WrittenGroup) : List Char := group.front ++ group.choice ++ group.trail

/-- Groups behind others, each behind a comma. -/
def further (groups : List WrittenGroup) : List Char :=
  groups.flatMap fun group => ',' :: group.text

/-- Groups behind a text, each with all that stands in front of it. -/
def placed (front : List Char) : List WrittenGroup → List (List Char × WrittenGroup)
  | [] => []
  | group :: rest => (front, group) :: placed (front ++ group.text ++ [',']) rest

end WrittenGroup

/-- A source that is one reference, written with groups of indices. -/
structure WrittenReference where
  name : String
  first : WrittenGroup
  others : List WrittenGroup
  isIdentifier : IsIdentifier name

namespace WrittenReference

def groups (written : WrittenReference) : List WrittenGroup := written.first :: written.others

/-- What stands in front of the groups. -/
def front (written : WrittenReference) : List Char :=
  ['{', '@'] ++ written.name.toList ++ [':']

def source (written : WrittenReference) : List Char :=
  written.front ++ written.first.text ++ WrittenGroup.further written.others ++ ['}']

/-- The groups, each with all of the source that stands in front of it. -/
def placed (written : WrittenReference) : List (List Char × WrittenGroup) :=
  WrittenGroup.placed written.front written.groups

/-- The indices in the order in which they are written, each with the offset of its digits. -/
def places (written : WrittenReference) : List (Nat × Nat) :=
  written.placed.flatMap fun group => WrittenIndex.places group.1 group.2.indices

end WrittenReference

/-! ## Index lists -/

namespace Reader

open Cursor

section IndexLists

variable {cursor after trimmed : Cursor} {number : Token} {index : Nat}
  (digits : cursor.Takes number after) (numeric : number.kind = .number)
  (stands : branchIndex number = .ok index) (skip : Gets skipTrivia after () trimmed)
include digits numeric stands skip

/-- An index in front of the arrow is the last one. -/
theorem gets_indexList_last {arrow : Token} {last : Cursor} (takes : trimmed.Takes arrow last)
    (isArrow : arrow.kind = .arrow) :
    Gets indexList cursor [(index, number.start)] last := by
  obtain ⟨lexed, next, rfl, rfl⟩ := digits
  obtain ⟨shorter, skipped⟩ := skip
  obtain ⟨mark, nextMark, rfl, rfl⟩ := takes
  have trimmedLt : trimmed.size < lexed.after.size + 1 := shorter
  have markLe := mark.size_le
  have lexedLe := lexed.size_le
  refine ⟨by dsimp only; omega, ?_⟩
  unfold indexList
  simp [next, numeric, stands, skipped, nextMark, isArrow, bind, Except.bind, pure, Except.pure]

/-- An index in front of a comma is read with those behind it. -/
theorem gets_indexList_comma {comma : Token} {behindComma start last : Cursor}
    (takes : trimmed.Takes comma behindComma) (isComma : comma.kind = .comma)
    (skipMore : Gets skipTrivia behindComma () start) {listed : List (Nat × Nat)}
    (others : Gets indexList start listed last) :
    Gets indexList cursor ((index, number.start) :: listed) last := by
  obtain ⟨lexed, next, rfl, rfl⟩ := digits
  obtain ⟨shorter, skipped⟩ := skip
  obtain ⟨mark, nextMark, rfl, rfl⟩ := takes
  obtain ⟨shorterStart, skippedMore⟩ := skipMore
  obtain ⟨shorterLast, read⟩ := others
  have trimmedLt : trimmed.size < lexed.after.size + 1 := shorter
  have startLt : start.size < mark.after.size + 1 := shorterStart
  have lastLt : last.size < start.size + 1 := shorterLast
  have markLe := mark.size_le
  have lexedLe := lexed.size_le
  refine ⟨by dsimp only; omega, ?_⟩
  rw [indexList]
  simp [next, numeric, stands, skipped, nextMark, isComma, skippedMore, read, bind, Except.bind,
    pure, Except.pure]

end IndexLists

end Reader

namespace WrittenIndex

open Reader Cursor

variable {front rest : List Char} (index : WrittenIndex)

/-- A gap starts with no digit and no point, and neither does what separates indices. -/
theorem stops_of_isGap {gap : List Char} (isGap : isGap gap = true)
    (stops : ∀ c, rest.head? = some c → Decimal.isDigit c = false ∧ c ≠ '.') :
    ∀ c, (gap ++ rest).head? = some c → Decimal.isDigit c = false ∧ c ≠ '.' := by
  fun_induction Reader.isGap gap with
  | case1 => exact stops
  | case2 => rintro c ⟨⟩; decide
  | case3 => rintro c ⟨⟩; decide
  | case4 c gap =>
    rintro _ ⟨⟩
    have blank := (Bool.and_eq_true_iff.1 isGap).1
    simp only [Lexeme.isBlank, Bool.or_eq_true, decide_eq_true_eq] at blank
    rcases blank with rfl | rfl <;> decide

theorem further_cons (others : List WrittenIndex) (rest : List Char) :
    further (index :: others) ++ rest =
      ',' :: (index.before ++ (index.digits ++ (index.after ++ (further others ++ rest)))) := by
  simp [further, text]

/-- Behind the indices of a list no number goes on. -/
theorem stops_further (others : List WrittenIndex) :
    ∀ c, (further others ++ (['-', '>'] ++ rest)).head? = some c →
      Decimal.isDigit c = false ∧ c ≠ '.' := by
  cases others with
  | nil => rintro c ⟨⟩; decide
  | cons index others => rintro c ⟨⟩; decide

/-- The digits of an index are a token. -/
theorem takes_index (others : List WrittenIndex) (front rest : List Char) :
    (behind front (index.digits ++ (index.after ++ (further others ++ (['-', '>'] ++ rest))))).Takes
      ⟨.number, byteLength front, byteLength (front ++ index.digits), String.ofList index.digits⟩
      (behind (front ++ index.digits)
        (index.after ++ (further others ++ (['-', '>'] ++ rest)))) :=
  takes_digits index.digits_ne_nil index.isDigit_of_mem
    (stops_of_isGap index.after_isGap (stops_further others)) front

/-- They stand for the index. -/
theorem branchIndex_digits (start stop : Nat) :
    branchIndex ⟨.number, start, stop, String.ofList index.digits⟩ = .ok index.value := by
  have all : index.digits.all Decimal.isDigit = true := List.all_eq_true.2 index.isDigit_of_mem
  have small : index.value ≤ largestBranch := Nat.le_pred_of_lt index.small
  have meant : branchIndex? (String.ofList index.digits) = some index.value := by
    simp only [branchIndex?, String.toList_ofList, all, if_true,
      Print.appendDigits_eq index.isDigit_of_mem]
    exact if_pos small
  simp only [branchIndex, meant]

theorem map_places {α : Type} (make : Nat → α) (front : List Char) (indices : List WrittenIndex) :
    (places front indices).map (fun place => make place.1) =
      indices.map fun index => make index.value := by
  induction indices generalizing front with
  | nil => rfl
  | cons index rest ih => rw [places, List.map_cons, List.map_cons, ih]

/-- A list of indices is read from its first digit on, up to behind the arrow. -/
theorem gets_indexList (others : List WrittenIndex) (front rest : List Char) :
    Gets indexList (behind (front ++ index.before)
        (index.digits ++ (index.after ++ (further others ++ (['-', '>'] ++ rest)))))
      (places front (index :: others))
      (behind (front ++ index.text ++ further others ++ ['-', '>']) rest) := by
  induction others generalizing index front with
  | nil =>
    have digits := index.takes_index [] (front ++ index.before) rest
    have arrow := takes_arrow (front ++ index.before ++ index.digits ++ index.after) rest
    have read := gets_indexList_last digits rfl (index.branchIndex_digits _ _)
      (gets_skipTrivia index.after_isGap arrow rfl) arrow rfl
    simpa [further, places, text] using read
  | cons second others ih =>
    have digits := index.takes_index (second :: others) (front ++ index.before) rest
    rw [further_cons] at digits ⊢
    have comma := takes_mark (show (',', TokenKind.comma) ∈ marks by decide)
      (front ++ index.before ++ index.digits ++ index.after)
      (second.before ++ (second.digits ++
        (second.after ++ (further others ++ (['-', '>'] ++ rest)))))
    have start := second.takes_index others
      (front ++ index.before ++ index.digits ++ index.after ++ [','] ++ second.before) rest
    have later := ih second (front ++ index.before ++ index.digits ++ index.after ++ [','])
    have read := gets_indexList_comma digits rfl (index.branchIndex_digits _ _)
      (gets_skipTrivia index.after_isGap comma rfl) comma rfl
      (gets_skipTrivia second.before_isGap start rfl) later
    simpa [further, places, text] using read

end WrittenIndex

end BranchText
