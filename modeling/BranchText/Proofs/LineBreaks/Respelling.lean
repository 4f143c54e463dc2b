import BranchText.Document.Reader
import Mathlib.Data.List.Forall2

/-!
# Line breaks, spelled in two ways

A line break is a line feed, or a carriage return and a line feed. `withReturns` spells all line
breaks of a text the second way, and `Respelled` relates texts and documents in which some line
breaks are spelled so, wherever they stand.

`Agree` compares two outcomes of reading: values that are alike, or errors. It leaves room for one
kind of error on the right where there is a value on the left.
-/

namespace BranchText

/-! ## Texts -/

/-- The text with a carriage return in front of every line feed. -/
def withReturns (text : List Char) : List Char :=
  text.flatMap fun c => if c = '\n' then ['\r', '\n'] else [c]

/-- The other text has a carriage return in front of some of the line feeds. -/
inductive Respelled : List Char → List Char → Prop
  | nil : Respelled [] []
  | char (c : Char) {rest other : List Char} (later : Respelled rest other) :
    Respelled (c :: rest) (c :: other)
  | lineBreak {rest other : List Char} (later : Respelled rest other) :
    Respelled ('\n' :: rest) ('\r' :: '\n' :: other)

section Texts

@[simp]
theorem withReturns_nil : withReturns [] = [] := rfl

@[simp]
theorem withReturns_lineFeed (rest : List Char) :
    withReturns ('\n' :: rest) = '\r' :: '\n' :: withReturns rest := rfl

theorem withReturns_cons {c : Char} (other : c ≠ '\n') (rest : List Char) :
    withReturns (c :: rest) = c :: withReturns rest := by
  simp [withReturns, other]

@[simp]
theorem withReturns_append (front back : List Char) :
    withReturns (front ++ back) = withReturns front ++ withReturns back :=
  List.flatMap_append ..

/-- A text of one line has nothing to respell. -/
theorem withReturns_of_not_mem {text : List Char} (line : '\n' ∉ text) :
    withReturns text = text := by
  induction text with
  | nil => rfl
  | cons c rest ih =>
    obtain ⟨here, later⟩ := List.ne_and_not_mem_of_not_mem_cons line
    rw [withReturns_cons here.symm, ih later]

theorem withReturns_eq_nil {text : List Char} : withReturns text = [] ↔ text = [] := by
  cases text with
  | nil => simp
  | cons c rest => by_cases lineFeed : c = '\n' <;> simp [withReturns, lineFeed]

/-- What a text with carriage returns starts with. -/
theorem head?_withReturns (text : List Char) :
    (withReturns text).head? = if text.head? = some '\n' then some '\r' else text.head? := by
  cases text with
  | nil => rfl
  | cons c rest =>
    by_cases lineFeed : c = '\n'
    · subst lineFeed
      rfl
    · simp [withReturns_cons lineFeed, lineFeed]

/-- One character with carriage returns, and the others. -/
theorem withReturns_cons_eq (c : Char) (rest : List Char) :
    withReturns (c :: rest) = withReturns [c] ++ withReturns rest := withReturns_append [c] rest

/-- Where a text with carriage returns starts with another character, the text does. -/
theorem eq_cons_of_withReturns {text later : List Char} {c : Char} (other : c ≠ '\r')
    (starts : withReturns text = c :: later) :
    ∃ rest, text = c :: rest ∧ withReturns rest = later := by
  cases text with
  | nil => cases starts
  | cons d rest =>
    by_cases lineFeed : d = '\n'
    · subst lineFeed
      exact absurd (List.cons.inj starts).1.symm other
    · rw [withReturns_cons lineFeed] at starts
      obtain ⟨rfl, same⟩ := List.cons.inj starts
      exact ⟨rest, rfl, same⟩

namespace Respelled

variable {text other : List Char}

theorem refl (text : List Char) : Respelled text text := by
  induction text with
  | nil => exact .nil
  | cons c rest ih => exact .char c ih

theorem append {back behind : List Char} (first : Respelled text other)
    (second : Respelled back behind) : Respelled (text ++ back) (other ++ behind) := by
  induction first with
  | nil => exact second
  | char c later ih => exact .char c ih
  | lineBreak later ih => exact .lineBreak ih

theorem withReturns (text : List Char) : Respelled text (BranchText.withReturns text) := by
  induction text with
  | nil => exact .nil
  | cons c rest ih =>
    by_cases lineFeed : c = '\n'
    · subst lineFeed
      exact .lineBreak ih
    · rw [withReturns_cons lineFeed]
      exact .char c ih

/-- Only the empty text is respelled as the empty one. -/
theorem isEmpty (respelled : Respelled text other) : text.isEmpty = other.isEmpty := by
  cases respelled <;> rfl

end Respelled

end Texts

/-! ## Documents -/

mutual

/-- The same node but for line breaks and spans. -/
inductive Node.Respelled : Node → Node → Prop
  | text {content other : String} (respelled : BranchText.Respelled content.toList other.toList) :
    Node.Respelled (.text content) (.text other)
  | fork {identifier : Option String} {silent isSet : Bool} {branches others : List Branch}
    {span place : Span} (entries : List.Forall₂ Branch.Respelled branches others) :
    Node.Respelled (.fork ⟨identifier, silent, isSet, branches, span⟩)
      (.fork ⟨identifier, silent, isSet, others, place⟩)
  | reference {target : String} {identifier : Option String} {silent reruns : Bool}
    {mappings others : List Mapping} {fallback other : Option Choice} {span place : Span}
    (mapped : List.Forall₂ Mapping.Respelled mappings others)
    (fallen : Option.Rel Choice.Respelled fallback other) :
    Node.Respelled (.reference ⟨target, identifier, silent, mappings, fallback, reruns, span⟩)
      (.reference ⟨target, identifier, silent, others, other, reruns, place⟩)

/-- The same choice but for line breaks and spans. All line breaks of scripts are respelled. -/
inductive Choice.Respelled : Choice → Choice → Prop
  | nodes {nodes others : List Node} (each : List.Forall₂ Node.Respelled nodes others) :
    Choice.Respelled (.nodes nodes) (.nodes others)
  | script {source other : String} {span place : Span}
    (respelled : other.toList = withReturns source.toList) :
    Choice.Respelled (.script ⟨source, span⟩) (.script ⟨other, place⟩)
  | call {name : String} {span place : Span} :
    Choice.Respelled (.call ⟨name, span⟩) (.call ⟨name, place⟩)

inductive Branch.Respelled : Branch → Branch → Prop
  | of {choice other : Choice} {weight : Option Decimal} (chosen : Choice.Respelled choice other) :
    Branch.Respelled ⟨choice, weight⟩ ⟨other, weight⟩

inductive Mapping.Respelled : Mapping → Mapping → Prop
  | of {branch : Nat} {choice other : Choice} (chosen : Choice.Respelled choice other) :
    Mapping.Respelled ⟨branch, choice⟩ ⟨branch, other⟩

end

structure ModeRule.Respelled (rule other : ModeRule) : Prop where
  matcher : BranchText.Respelled rule.matcher.toList other.matcher.toList
  replacement : rule.replacement.Respelled other.replacement

structure ModeDeclaration.Respelled (mode other : ModeDeclaration) : Prop where
  name : other.name = mode.name
  rules : List.Forall₂ ModeRule.Respelled mode.rules other.rules

/-- The same document but for line breaks and spans. -/
structure Document.Respelled (document other : Document) : Prop where
  nodes : List.Forall₂ Node.Respelled document.nodes other.nodes
  modes : List.Forall₂ ModeDeclaration.Respelled document.modes other.modes
  modeSwitches : other.modeSwitches = document.modeSwitches

/-- The same declarations and switches. -/
structure Legacy.Respelled (legacy other : Legacy) : Prop where
  modes : List.Forall₂ ModeDeclaration.Respelled legacy.modes other.modes
  switches : other.switches = legacy.switches

/-- The same passage but for line breaks and spans. -/
structure Passage.Respelled (passage other : Passage) : Prop where
  nodes : List.Forall₂ Node.Respelled passage.nodes other.nodes
  text : BranchText.Respelled passage.text.toList other.text.toList

namespace Legacy.Respelled

variable {legacy other more further : Legacy}

theorem empty : Respelled .empty .empty := ⟨.nil, rfl⟩

theorem append (first : legacy.Respelled other) (second : more.Respelled further) :
    (legacy ++ more).Respelled (other ++ further) where
  modes := List.rel_append first.modes second.modes
  switches := by
    change other.switches ++ further.switches = legacy.switches ++ more.switches
    rw [first.switches, second.switches]

end Legacy.Respelled

namespace Passage.Respelled

variable {passage other : Passage} (respelled : passage.Respelled other)

theorem empty : Respelled .empty .empty := ⟨.nil, .nil⟩

include respelled

theorem append {text further : String} (behind : BranchText.Respelled text.toList further.toList) :
    (passage.append text).Respelled (other.append further) where
  nodes := respelled.nodes
  text := by
    simp only [Passage.append, String.toList_append]
    exact respelled.text.append behind

/-- Text that waits to become a node does so in both. -/
theorem flush : List.Forall₂ Node.Respelled passage.flush other.flush := by
  obtain ⟨nodes, text⟩ := passage
  obtain ⟨others, further⟩ := other
  obtain ⟨each, behind⟩ := respelled
  have isEmpty : text.isEmpty = further.isEmpty := by
    have same := behind.isEmpty
    rw [Bool.eq_iff_iff] at same ⊢
    simpa using same
  simp only [Passage.flush, isEmpty]
  split
  · exact each
  · cases each with
    | nil => exact .cons (.text behind) .nil
    | cons first rest =>
      cases first with
      | text before => exact .cons (.text (by simpa using before.append behind)) rest
      | fork entries => exact .cons (.text behind) (.cons (.fork entries) rest)
      | reference mapped fallen =>
        exact .cons (.text behind) (.cons (.reference mapped fallen) rest)

theorem addBlock {node further : Option Node} (block : Option.Rel Node.Respelled node further) :
    (passage.addBlock node).Respelled (other.addBlock further) := by
  cases block with
  | none => exact ⟨respelled.flush, .nil⟩
  | some node => exact ⟨.cons node respelled.flush, .nil⟩

theorem close : List.Forall₂ Node.Respelled passage.close other.close :=
  List.rel_reverse respelled.flush

end Passage.Respelled

/-! ## Outcomes of reading -/

/-- Both outcomes are values that are alike, or both are errors; or the right one alone is an error,
for which there is a reason. -/
inductive Agree {α β : Type} (cut : ReadError → Prop) (alike : α → β → Prop) :
    Except ReadError α → Except ReadError β → Prop
  | values {value : α} {other : β} (same : alike value other) :
    Agree cut alike (.ok value) (.ok other)
  | errors {error other : ReadError} : Agree cut alike (.error error) (.error other)
  | cut {value : α} {error : ReadError} (reason : cut error) :
    Agree cut alike (.ok value) (.error error)

namespace Agree

variable {α β γ δ : Type} {cut : ReadError → Prop} {alike : α → β → Prop}
  {first : Except ReadError α} {second : Except ReadError β}

/-- A reason for an error on the right is one whatever is on the left. -/
theorem of_reason {error : ReadError} (reason : cut error) :
    Agree cut alike first (.error error) := by
  cases first with
  | error other => exact .errors
  | ok value => exact .cut reason

/-- Parts that follow one another. -/
theorem bind {same : γ → δ → Prop} {next : α → Except ReadError γ} {other : β → Except ReadError δ}
    (agree : Agree cut alike first second)
    (goOn : ∀ value found, alike value found → Agree cut same (next value) (other found)) :
    Agree cut same (first >>= next) (second >>= other) := by
  cases agree with
  | values same => exact goOn _ _ same
  | errors => exact .errors
  | cut reason => exact of_reason reason

/-- What is said of values can be weakened. -/
theorem imp {weaker : α → β → Prop} (agree : Agree cut alike first second)
    (weak : ∀ value other, alike value other → weaker value other) :
    Agree cut weaker first second := by
  cases agree with
  | values same => exact .values (weak _ _ same)
  | errors => exact .errors
  | cut reason => exact .cut reason

/-- Outcomes that are looked at and passed on. -/
@[elab_as_elim]
theorem elim {motive : Except ReadError α → Except ReadError β → Prop}
    (agree : Agree cut alike first second)
    (values : ∀ value other, alike value other → motive (.ok value) (.ok other))
    (errors : ∀ error other, motive (.error error) (.error other))
    (reasons : ∀ value error, cut error → motive (.ok value) (.error error)) :
    motive first second := by
  cases agree with
  | values same => exact values _ _ same
  | errors => exact errors _ _
  | cut reason => exact reasons _ _ reason

/-- Outcomes that go on from others: what fails in front fails altogether. -/
theorem follow {same : γ → δ → Prop} {outcome : Except ReadError γ} {also : Except ReadError δ}
    (agree : Agree cut alike first second)
    (failed : ∀ error, first = .error error → outcome = .error error)
    (failedToo : ∀ error, second = .error error → also = .error error)
    (goOn : ∀ value found, first = .ok value → second = .ok found → alike value found →
      Agree cut same outcome also) : Agree cut same outcome also := by
  cases agree with
  | values here => exact goOn _ _ rfl rfl here
  | errors =>
    rw [failed _ rfl, failedToo _ rfl]
    exact .errors
  | cut reason =>
    rw [failedToo _ rfl]
    exact .of_reason reason

/-- Outcomes of the same decision. -/
theorem ite {p q : Prop} [Decidable p] [Decidable q] {first second : Except ReadError α}
    {other further : Except ReadError β} (same : q ↔ p) (yes : p → Agree cut alike first other)
    (no : ¬ p → Agree cut alike second further) :
    Agree cut alike (if p then first else second) (if q then other else further) := by
  by_cases holds : p
  · rw [if_pos holds, if_pos (same.2 holds)]
    exact yes holds
  · rw [if_neg holds, if_neg (mt same.1 holds)]
    exact no holds

theorem dite {p q : Prop} [Decidable p] [Decidable q] {first : p → Except ReadError α}
    {second : ¬ p → Except ReadError α} {other : q → Except ReadError β}
    {further : ¬ q → Except ReadError β} (same : q ↔ p)
    (yes : ∀ here there, Agree cut alike (first here) (other there))
    (no : ∀ here there, Agree cut alike (second here) (further there)) :
    Agree cut alike (if holds : p then first holds else second holds)
      (if holds : q then other holds else further holds) := by
  by_cases holds : p
  · rw [dif_pos holds, dif_pos (same.2 holds)]
    exact yes ..
  · rw [dif_neg holds, dif_neg (mt same.1 holds)]
    exact no ..

/-- Either of two parts, with the same behind it. -/
theorem either {p q : Prop} [Decidable p] [Decidable q] {first second : Except ReadError α}
    {other further : Except ReadError β} {same : γ → δ → Prop} {next : α → Except ReadError γ}
    {after : β → Except ReadError δ} (decides : q ↔ p) (yes : p → Agree cut alike first other)
    (no : ¬ p → Agree cut alike second further)
    (goOn : ∀ value found, alike value found → Agree cut same (next value) (after found)) :
    Agree cut same (if p then first >>= next else second >>= next)
      (if q then other >>= after else further >>= after) :=
  .ite decides (fun holds => (yes holds).bind goOn) fun holds => (no holds).bind goOn

/-- Outcomes that depend on another one. -/
theorem decided {p q : Prop} [Decidable p] [Decidable q] {follows further : Except ReadError Bool}
    {first second : Except ReadError α} {other beyond : Except ReadError β} (same : q ↔ p)
    (agree : p → Agree cut Eq follows further) (yes : Agree cut alike first other)
    (no : Agree cut alike second beyond) :
    Agree cut alike
      (if p then do if ← follows then first else second else second)
      (if q then do if ← further then other else beyond else beyond) := by
  refine .ite same (fun holds => (agree holds).bind ?_) fun _ => no
  rintro follows _ rfl
  exact .ite Iff.rfl (fun _ => yes) fun _ => no

end Agree

end BranchText
