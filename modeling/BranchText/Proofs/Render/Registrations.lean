import BranchText.Proofs.Render.Tracks

/-!
# What registrations leave in the tables

While a script runs, what it registers and includes is gathered; the tables of the render change
only at its end. Taking over the gathered effects comes to the same as performing them one at a
time, unless an include comes behind a registration that it would replace: documents are taken over
before anything else. What a called function registers is dropped.
-/

namespace BranchText

namespace Table

variable {κ α : Type} [DecidableEq κ]

/-- Entries with other keys do not change what is found under a key. -/
theorem get?_extend_of_absent {table : Table κ α} {entries : List (κ × α)} {key : κ}
    (absent : ∀ entry ∈ entries, entry.1 ≠ key) :
    (table.extend entries).get? key = table.get? key := by
  induction entries generalizing table with
  | nil => rfl
  | cons entry rest ih =>
    have later := @ih (table.insert entry.1 entry.2) fun other member =>
      absent other (List.mem_cons_of_mem _ member)
    have here : key ≠ entry.1 := fun same => absent entry (List.mem_cons_self ..) same.symm
    exact later.trans (by rw [get?_insert, if_neg here])

/-- What is found under a key after extending depends on what was found there before. -/
theorem get?_extend_congr {first second : Table κ α} (entries : List (κ × α)) {key : κ}
    (same : first.get? key = second.get? key) :
    (first.extend entries).get? key = (second.extend entries).get? key := by
  induction entries generalizing first second with
  | nil => exact same
  | cons entry rest ih =>
    refine ih ?_
    rw [get?_insert, get?_insert, same]

/-- Under a key that the entries do not have, it does not matter whether a value comes before them
or behind. -/
theorem get?_insert_extend {table : Table κ α} {entries : List (κ × α)} {key : κ} (value : α)
    (absent : ∀ entry ∈ entries, entry.1 ≠ key) (other : κ) :
    ((table.insert key value).extend entries).get? other =
      ((table.extend entries).insert key value).get? other := by
  rw [get?_insert]
  by_cases same : other = key
  · rw [if_pos same, same, get?_extend_of_absent absent, get?_insert, if_pos rfl]
  · rw [if_neg same]
    exact get?_extend_congr entries (by rw [get?_insert, if_neg same])

theorem get?_eq_none_iff {table : Table κ α} {key : κ} :
    table.get? key = none ↔ ∀ entry ∈ table.entries, entry.1 ≠ key := by
  simp [get?]

end Table

namespace SettingsLayer

theorem withOver_assoc (lower middle upper : SettingsLayer) :
    (lower.withOver middle).withOver upper = lower.withOver (middle.withOver upper) := by
  simp only [withOver, Option.or_assoc]

@[simp]
theorem empty_withOver (upper : SettingsLayer) : empty.withOver upper = upper := by
  simp only [withOver, empty, Option.or_none]

@[simp]
theorem withOver_empty (lower : SettingsLayer) : lower.withOver empty = lower := by
  simp only [withOver, empty, Option.none_or]

/-- Layers on top of one another can be put on as one. -/
theorem foldl_withOver (lower : SettingsLayer) (layers : List SettingsLayer) :
    layers.foldl withOver lower = lower.withOver (layers.foldl withOver empty) := by
  induction layers generalizing lower with
  | nil => exact (withOver_empty lower).symm
  | cons layer rest ih =>
    rw [List.foldl_cons, List.foldl_cons, ih, ih (empty.withOver layer), empty_withOver,
      withOver_assoc]

end SettingsLayer

/-- What scripts can register in: the ledger, the functions with their sessions, and the settings
of a render. -/
structure Tables where
  ledger : Table String Record
  functions : Table String Provided
  sessions : Array Script.Session
  settings : SettingsLayer

/-- The tables of a render. -/
def RenderState.tables (state : RenderState) : Tables :=
  ⟨state.ledger, state.functions, state.sessions, state.settings⟩

namespace Tables

/-- The tables after a document has been taken over. -/
def merge (tables : Tables) (document : Included) : Tables where
  ledger := tables.ledger.extend
    (document.ledger.map fun entry => { entry with origin := .imported }).entries
  functions := tables.functions.extend
    (document.functions.map (·.shift tables.sessions.size)).entries
  sessions := tables.sessions ++ document.sessions
  settings := tables.settings.withOver document.settings

/-- The tables hold the same records, functions and settings. -/
structure Same (first second : Tables) : Prop where
  ledger : first.ledger = second.ledger
  functions : ∀ name, first.functions.get? name = second.functions.get? name
  settings : first.settings = second.settings

theorem Same.refl (tables : Tables) : tables.Same tables := ⟨rfl, fun _ => rfl, rfl⟩

theorem Same.symm {first second : Tables} (same : first.Same second) : second.Same first where
  ledger := same.ledger.symm
  functions name := (same.functions name).symm
  settings := same.settings.symm

theorem Same.trans {first second third : Tables} (left : first.Same second)
    (right : second.Same third) : first.Same third where
  ledger := left.ledger.trans right.ledger
  functions name := (left.functions name).trans (right.functions name)
  settings := left.settings.trans right.settings

end Tables

namespace Effect

/-- Performs an effect at once. -/
def apply (tables : Tables) : Effect → Tables
  | provided name entry => { tables with functions := tables.functions.insert name entry }
  | settings layer => { tables with settings := tables.settings.withOver layer }
  | included document => tables.merge document

/-- Performs effects one at a time. -/
def applyAll (effects : List Effect) (tables : Tables) : Tables := effects.foldl apply tables

/-- The layers among effects, in order. -/
def layers (effects : List Effect) : List SettingsLayer :=
  effects.filterMap fun
    | settings layer => some layer
    | _ => none

/-- The tables after effects have been taken over: all documents first, then the functions and
values, then the settings. -/
def absorbed (effects : List Effect) (tables : Tables) : Tables :=
  let merged := (documents effects).foldl Tables.merge tables
  { merged with
    functions := merged.functions.extend (entries effects)
    settings := (layers effects).foldl SettingsLayer.withOver merged.settings }

/-- If the later effect is an include, it brings nothing that the earlier one registered: no
function of the name, and no other value of a key. -/
def Respects : Effect → Effect → Prop
  | provided name _, included document => document.functions.get? name = none
  | settings layer, included document =>
    layer.withOver document.settings = document.settings.withOver layer
  | _, _ => True

instance : DecidableRel Respects
  | provided _ _, included _ => inferInstanceAs (Decidable (_ = none))
  | settings _, included _ => inferInstanceAs (Decidable (_ = (_ : SettingsLayer)))
  | included _, _ => isTrue trivial
  | provided _ _, provided _ _ => isTrue trivial
  | provided _ _, settings _ => isTrue trivial
  | settings _, provided _ _ => isTrue trivial
  | settings _, settings _ => isTrue trivial

/-- The layer that is taken over has all the layers on top of one another. -/
theorem layer?_getD (effects : List Effect) :
    (layer? effects).getD .empty = (layers effects).foldl .withOver .empty := by
  suffices general : ∀ gathered : Option SettingsLayer,
      (effects.foldl (fun gathered effect =>
        match effect with
        | settings layer => some ((gathered.getD .empty).withOver layer)
        | _ => gathered) gathered).getD .empty =
      (layers effects).foldl .withOver (gathered.getD .empty) from general none
  induction effects with
  | nil => exact fun _ => rfl
  | cons effect rest ih =>
    intro gathered
    cases effect with
    | provided name entry => exact ih gathered
    | included document => exact ih gathered
    | settings layer => exact ih (some ((gathered.getD .empty).withOver layer))

end Effect

/-! ## Taking over in order -/

namespace Tables

/-- The first tables are the second with one more registration. -/
structure Registers (name : String) (entry : Provided) (first second : Tables) : Prop where
  ledger : first.ledger = second.ledger
  functions : ∀ other,
    first.functions.get? other = (second.functions.insert name entry).get? other
  sessions : first.sessions = second.sessions
  settings : first.settings = second.settings

/-- A document that brings nothing under a name leaves what is registered there as it is. -/
theorem Registers.merge {name : String} {entry : Provided} {first second : Tables}
    (registers : Registers name entry first second) {document : Included}
    (absent : document.functions.get? name = none) :
    Registers name entry (first.merge document) (second.merge document) where
  ledger := by simp only [Tables.merge, registers.ledger]
  functions other := by
    have keys : ∀ taken ∈ (document.functions.map (·.shift second.sessions.size)).entries,
        taken.1 ≠ name := by
      intro taken member
      obtain ⟨given, listed, rfl⟩ := List.mem_map.1 member
      exact Table.get?_eq_none_iff.1 absent given listed
    simp only [Tables.merge, registers.sessions]
    rw [← Table.get?_insert_extend entry keys]
    exact Table.get?_extend_congr _ (registers.functions other)
  sessions := by simp only [Tables.merge, registers.sessions]
  settings := by simp only [Tables.merge, registers.settings]

/-- Documents that bring nothing under a name can be taken over before or behind what is registered
there. -/
theorem registers_foldl {name : String} {entry : Provided} {documents : List Included}
    (absent : ∀ document ∈ documents, document.functions.get? name = none)
    {first second : Tables} (registers : Registers name entry first second) :
    Registers name entry (documents.foldl merge first) (documents.foldl merge second) := by
  induction documents generalizing first second with
  | nil => exact registers
  | cons document rest ih =>
    exact ih (fun other member => absent other (List.mem_cons_of_mem _ member))
      (registers.merge (absent document (List.mem_cons_self ..)))

/-- A layer can be put on before or behind documents whose settings it does not cover. -/
theorem foldl_merge_settings {layer : SettingsLayer} {documents : List Included}
    (apart : ∀ document ∈ documents,
      layer.withOver document.settings = document.settings.withOver layer) (tables : Tables) :
    documents.foldl merge { tables with settings := tables.settings.withOver layer } =
      { documents.foldl merge tables with
        settings := (documents.foldl merge tables).settings.withOver layer } := by
  induction documents generalizing tables with
  | nil => rfl
  | cons document rest ih =>
    have moved : merge { tables with settings := tables.settings.withOver layer } document =
        { tables.merge document with
          settings := (tables.merge document).settings.withOver layer } := by
      simp only [merge, SettingsLayer.withOver_assoc, apart document (List.mem_cons_self ..)]
    rw [List.foldl_cons, List.foldl_cons, moved]
    exact ih (fun other member => apart other (List.mem_cons_of_mem _ member)) _

end Tables

namespace Effect

theorem mem_documents {effects : List Effect} {document : Included} :
    document ∈ documents effects ↔ included document ∈ effects := by
  simp only [documents, List.mem_filterMap]
  constructor
  · rintro ⟨effect, member, same⟩
    cases effect with
    | included other =>
      cases same
      exact member
    | provided name entry => cases same
    | settings layer => cases same
  · exact fun member => ⟨_, member, rfl⟩

/-- Effects that respect those before them can be taken over as if they were performed one at a
time. -/
theorem absorbed_same_applyAll {effects : List Effect} (ordered : effects.Pairwise Respects)
    (tables : Tables) : (absorbed effects tables).Same (applyAll effects tables) := by
  induction effects generalizing tables with
  | nil => exact .refl tables
  | cons effect rest ih =>
    obtain ⟨first, later⟩ := List.pairwise_cons.1 ordered
    refine Tables.Same.trans ?_ (ih later (effect.apply tables))
    cases effect with
    | included document => exact .refl _
    | provided name entry =>
      have absent : ∀ document ∈ documents rest, document.functions.get? name = none :=
        fun document member => first _ (mem_documents.1 member)
      have registers := Tables.registers_foldl absent
        (⟨rfl, fun _ => rfl, rfl, rfl⟩ : Tables.Registers name entry
          { tables with functions := tables.functions.insert name entry } tables)
      exact ⟨registers.ledger.symm,
        fun other => (Table.get?_extend_congr (entries rest) (registers.functions other)).symm,
        congrArg (fun lower => (layers rest).foldl SettingsLayer.withOver lower)
          registers.settings.symm⟩
    | settings layer =>
      have apart : ∀ document ∈ documents rest,
          layer.withOver document.settings = document.settings.withOver layer :=
        fun document member => first _ (mem_documents.1 member)
      have moved := Tables.foldl_merge_settings apart tables
      exact ⟨(congrArg Tables.ledger moved).symm,
        fun other => congrArg (fun functions => (Table.extend functions (entries rest)).get? other)
          (congrArg Tables.functions moved).symm,
        congrArg (fun lower => (layers rest).foldl SettingsLayer.withOver lower)
          (congrArg Tables.settings moved).symm⟩

end Effect

/-! ## Scripts and calls -/

namespace RenderState

/-- The state in which the script of a block starts. -/
def starting (state : RenderState) (block : ScriptBlock) : RenderState :=
  { state.noted (.ran block) with
    warnings :=
      state.warnings ++ ScriptBlock.ambientWarnings block.source block.span.start }

end RenderState

namespace Hosting

variable {α : Type}

/-- Runs a script against a render: its value, what it gathered, and the state of the render. -/
def perform (fetch : String → Rendering Included) (session : Nat) (script : Script.Exchange α)
    (state : RenderState) : (α × Gathered) × RenderState :=
  ((script.run (answer fetch session)).run ⟨[], none⟩).run state

end Hosting

namespace Rendering

/-- What the script of a block does if the block is run: its result and its session, what it
gathers, and the state of the render. -/
def blockPerformed? (fetch : String → Rendering Included) (state : RenderState)
    (block : ScriptBlock) :
    Option (((Except Script.Raised String × Script.Session) × Gathered) × RenderState) :=
  (Script.Program.read? block.source).map fun program =>
    Hosting.perform fetch state.sessions.size program.run (state.starting block)

/-- What the function of a call does if it is called. -/
def callPerformed? (fetch : String → Rendering Included) (state : RenderState)
    (call : FunctionCall) :
    Option (((Except Script.Raised String × Script.Session) × Gathered) × RenderState) :=
  match state.functions.get? call.name with
  | some (.function callable place) =>
    some (Hosting.perform fetch place ((state.sessions.getD place ⟨[], #[]⟩).call callable)
      (state.noted (.called call)))
  | _ => none

variable {α : Type} {state : RenderState}

theorem ensures_forM_warn {good : PUnit → RenderState → Prop} {failing : RenderState → Prop}
    (warnings : List Warning) :
    Ensures (warnings.forM warn) state good failing ↔
      good () { state with warnings := state.warnings ++ warnings } := by
  induction warnings generalizing state with
  | nil => rw [List.append_nil]; exact ensures_pure _
  | cons warning rest ih =>
    change Ensures (warn warning >>= fun _ => rest.forM warn) state good failing ↔ _
    rw [ensures_bind, ensures_warn, ih, List.append_assoc]
    rfl

theorem ensures_forM_merge (documents : List Included) :
    Ensures (documents.forM merge) state
      (fun _ after => after.tables = documents.foldl Tables.merge state.tables)
      (fun _ => False) := by
  induction documents generalizing state with
  | nil => exact (ensures_pure _).2 rfl
  | cons document rest ih =>
    change Ensures (merge document >>= fun _ => rest.forM merge) state _ _
    rw [ensures_bind]
    exact @ih (mergedState document state)

/-- Taking over effects never fails. -/
theorem ensures_absorb (effects : List Effect) (offset : Nat) :
    Ensures (absorb effects offset) state
      (fun _ after => after.tables = Effect.absorbed effects state.tables) (fun _ => False) := by
  unfold absorb
  rw [ensures_bind]
  refine (ensures_forM_merge (Effect.documents effects)).imp (fun _ merged same => ?_)
    fun _ never => never
  rw [ensures_bind, ensures_modify]
  have settled : merged.settings.withOver ((Effect.layer? effects).getD .empty) =
      (Effect.layers effects).foldl .withOver merged.settings := by
    rw [Effect.layer?_getD, ← SettingsLayer.foldl_withOver]
  rw [Effect.absorbed, ← same]
  cases layered : Effect.layer? effects with
  | none =>
    rw [layered, Option.getD_none, SettingsLayer.withOver_empty] at settled
    simp only [ensures_pure, RenderState.tables, ← settled]
  | some layer =>
    rw [layered, Option.getD_some] at settled
    simp only
    split
    · split
      · simp only [ensures_bind, ensures_warn, ensures_modify, RenderState.tables, settled]
      · simp only [ensures_modify, RenderState.tables, settled]
    · simp only [ensures_modify, RenderState.tables, settled]

/-- Rendering a document on its own leaves the tables of the render that asks for it alone. -/
theorem tables_renderIncluded (child : Setting → List Node → Rendering String) (setting : Setting)
    (path : String) (state : RenderState) :
    ((renderIncluded child setting path).run state).2.tables = state.tables := by
  rw [← @ensures_always _ state (renderIncluded child setting path)
    fun later => later.tables = state.tables]
  unfold renderIncluded
  simp only [ensures_bind, ensures_note]
  cases setting.loader (Path.join setting.directory path) with
  | error error => rfl
  | ok text =>
    simp only
    split
    · rfl
    · simp only [ensures_bind, ensures_get, ensures_note]
      split <;> rfl

variable {fetch : String → Rendering Included}

/-- Answering a request leaves the tables alone if fetching documents does. -/
theorem tables_answer (keeps : ∀ path state, ((fetch path).run state).2.tables = state.tables)
    (session : Nat) (request : Script.Request) (gathered : Gathered) (state : RenderState) :
    (((Hosting.answer fetch session request).run gathered).run state).2.tables = state.tables := by
  cases request with
  | fraction => rfl
  | below high => rfl
  | integer low high => rfl
  | keep registration => cases registration <;> rfl
  | document path =>
    have same : (fetch path).run.run state = (fetch path).run state := rfl
    simp only [Hosting.answer, StateT.run_bind, StateT.run_lift, same]
    refine Eq.trans ?_ (keeps path state)
    rcases (fetch path).run state with ⟨outcome, later⟩
    cases outcome <;> rfl

/-- While a script runs the tables stay as they are. -/
theorem tables_perform (keeps : ∀ path state, ((fetch path).run state).2.tables = state.tables)
    (session : Nat) (script : Script.Exchange α) (gathered : Gathered) (state : RenderState) :
    (((script.run (Hosting.answer fetch session)).run gathered).run state).2.tables =
      state.tables := by
  induction script generalizing gathered state with
  | done value => rfl
  | ask request resume ih =>
    exact (ih _ _ _).trans (tables_answer keeps session request gathered state)

/-- What hosting a script ensures: it never fails by itself. -/
theorem ensures_host {session : Nat} {script : Script.Exchange α}
    {good : α × Except RenderError (List Effect) → RenderState → Prop}
    {failing : RenderState → Prop}
    (ended : ∀ value gathered later,
      Hosting.perform fetch session script state = ((value, gathered), later) →
        good (value, match gathered.failure with
          | some error => .error error
          | none => .ok gathered.effects) later) :
    Ensures (host fetch session script) state good failing := by
  rcases performed : Hosting.perform fetch session script state with ⟨⟨value, gathered⟩, later⟩
  have lifted : (ExceptT.lift ((script.run (Hosting.answer fetch session)).run ⟨[], none⟩) :
      Rendering (α × Gathered)).run state = (.ok (value, gathered), later) :=
    congrArg (fun outcome : (α × Gathered) × RenderState => (Except.ok outcome.1, outcome.2))
      performed
  have here := ended value gathered later performed
  unfold host
  rw [ensures_bind, ensures_of_run_ok lifted]
  cases failure : gathered.failure with
  | some error =>
    simp only [failure] at here ⊢
    exact here
  | none =>
    simp only [failure] at here ⊢
    exact here

/-- A block that ends well leaves the tables with everything its script gathered taken over. -/
theorem ensures_runScript (keeps : ∀ path state, ((fetch path).run state).2.tables = state.tables)
    (setting : Setting) (block : ScriptBlock) :
    Ensures (runScript fetch setting block) state
      (fun _ after => ∃ performed, blockPerformed? fetch state block = some performed ∧
        after.tables = Effect.absorbed performed.1.2.effects
          { state.tables with sessions := state.sessions.push performed.1.1.2 })
      (fun _ => True) := by
  unfold runScript blockPerformed?
  simp only [ensures_bind, ensures_note]
  split
  · trivial
  simp only [ensures_bind, ensures_forM_warn]
  cases Script.Program.read? block.source with
  | none => trivial
  | some program =>
    simp only [ensures_bind, ensures_get]
    refine ensures_host ?_
    rintro ⟨result, session⟩ gathered later performed
    change Hosting.perform fetch state.sessions.size program.run (state.starting block) = _
      at performed
    have kept := tables_perform keeps state.sessions.size program.run ⟨[], none⟩
      (state.starting block)
    rw [← Hosting.perform, performed] at kept
    cases failure : gathered.failure with
    | some error => trivial
    | none =>
      cases result with
      | error raised => trivial
      | ok output =>
        simp only [ensures_bind, ensures_modify, ensures_forM_warn]
        refine (ensures_absorb gathered.effects block.span.start).imp (fun _ after absorbed => ?_)
          fun _ never => never.elim
        refine ⟨_, congrArg some performed, absorbed.trans ?_⟩
        exact congrArg (fun tables : Tables => Effect.absorbed gathered.effects
          { tables with sessions := tables.sessions.push session }) kept

/-- A call that ends well leaves the tables as they were, whatever the function registered, but for
the variables of its session. -/
theorem ensures_runCall (keeps : ∀ path state, ((fetch path).run state).2.tables = state.tables)
    (call : FunctionCall) :
    Ensures (runCall fetch call) state
      (fun _ after => (∃ performed, callPerformed? fetch state call = some performed) ∧
        after.tables.Same state.tables)
      (fun _ => True) := by
  unfold runCall
  simp only [ensures_bind, ensures_note, ensures_get]
  split
  · trivial
  · trivial
  · rename_i callable place found
    simp only [ensures_bind, ensures_modify]
    refine ensures_host ?_
    rintro ⟨result, session⟩ gathered later performed
    have kept := tables_perform keeps place
      (Script.Session.call (state.sessions.getD place ⟨[], #[]⟩) callable) ⟨[], none⟩
      (state.noted (.called call))
    change (Hosting.perform fetch place _ (state.noted (.called call))).2.tables = state.tables
      at kept
    change Hosting.perform fetch place _ (state.noted (.called call)) = _ at performed
    rw [performed] at kept
    cases failure : gathered.failure with
    | some error => trivial
    | none =>
      cases result with
      | error raised => trivial
      | ok output =>
        have ledger : later.ledger = state.ledger := congrArg Tables.ledger kept
        have functions : later.functions = state.functions := congrArg Tables.functions kept
        have settings : later.settings = state.settings := congrArg Tables.settings kept
        have runs : callPerformed? fetch state call = some (Hosting.perform fetch place
            ((state.sessions.getD place ⟨[], #[]⟩).call callable)
            (state.noted (.called call))) := by
          rw [callPerformed?, found]
        exact ⟨⟨_, runs⟩, ledger, fun name => congrArg (Table.get? · name) functions, settings⟩

/-- A setting in which a document that provides `f` can be included. -/
def providing : Setting :=
  ⟨true, ".", .ofDocuments
    [("./lib.txt", "\x7b# [provide(#\x7b f: || \"theirs\" \x7d)]\x7d")]⟩

/-- A block that includes the document and then provides a function of its own under the name. -/
def replacing : ScriptBlock :=
  ⟨"include(\"lib.txt\"); provide(#\x7b f: || \"mine\" \x7d);", ⟨3, 57⟩⟩

/-- A block that does the same the other way around. -/
def replaced : ScriptBlock :=
  ⟨"provide(#\x7b f: || \"mine\" \x7d); include(\"lib.txt\");", ⟨3, 57⟩⟩

/-- The state that a document with nothing before the block starts in. -/
def atStart : RenderState := .initial (.ofSeed 1)

/-- How a block ends that is run first. -/
def endOf (block : ScriptBlock) : Except RenderError String × RenderState :=
  (runScript (renderIncluded nodes providing) providing block).run atStart

/-- The place of the session of the function under a name. -/
def sessionOf? (functions : Table String Provided) (name : String) : Option Nat :=
  match functions.get? name with
  | some (.function _ session) => some session
  | _ => none

/-- A call of the function `f`. -/
def callOf : FunctionCall := ⟨"f", ⟨60, 66⟩⟩

/-- How the call ends behind a block. -/
def endOfCall (block : ScriptBlock) : Except RenderError String × RenderState :=
  (runCall (renderIncluded nodes providing) callOf).run (endOf block).2

end Rendering

end BranchText
