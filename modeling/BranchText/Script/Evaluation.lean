import BranchText.Chance.Weight
import BranchText.Script.Arithmetic
import BranchText.Script.Exchange
import BranchText.Script.Reader

/-!
# Running scripts

Variables live in cells; a scope says which cell a name stands for, and a closure keeps the cells
it took along, so that it shares them with the code around it. Expressions and statements are run
by recursion on their syntax. Calls of functions are bounded by a depth, which nothing else uses.
-/

namespace BranchText

namespace Script

/-- Why a script stops before its end. Only texts that were raised have words. -/
structure Raised where
  message : Option String
  deriving Repr, DecidableEq

/-- The variables of a running script and what it printed. -/
structure Machine where
  cells : Array Value
  /-- Names and their cells, the innermost first. -/
  scope : List (String × Nat)
  printed : String

/-- A computation of a script that may stop; what it did to the machine stays done. -/
abbrev Evaluation (α : Type) := ExceptT Raised (StateT Machine Exchange) α

/-- How functions are called. -/
abbrev Invoke := Callable → List Value → Evaluation Value

variable {α : Type}

/-- Stops without words. -/
def stop : Evaluation α := throw ⟨none⟩

/-- Stops with words. -/
def stopWith (message : String) : Evaluation α := throw ⟨some message⟩

/-- Goes on with a result, or stops if there is none. -/
def result? (result : Option α) : Evaluation α :=
  match result with
  | some value => pure value
  | none => stop

/-- Asks the surroundings. -/
def ask (request : Request) : Evaluation request.Answer :=
  ExceptT.lift (StateT.lift (Exchange.request request))

/-- The names that can be used and their cells. -/
def visible : Evaluation (List (String × Nat)) :=
  modifyGet fun machine => (machine.scope, machine)

/-- The cell that a name stands for. -/
def cellOf (name : String) : Evaluation Nat := do result? ((← visible).lookup name)

/-- The value in a cell. -/
def load (cell : Nat) : Evaluation Value :=
  modifyGet fun machine => (machine.cells.getD cell .unit, machine)

/-- Puts a value into a cell. -/
def store (cell : Nat) (value : Value) : Evaluation Unit :=
  modify fun machine => { machine with cells := machine.cells.setIfInBounds cell value }

/-- Makes a name stand for a new cell with this value. -/
def define (name : String) (value : Value) : Evaluation Unit :=
  modify fun ⟨cells, scope, printed⟩ =>
    let scope := (name, cells.size) :: scope
    ⟨cells.push value, scope, printed⟩

/-- Runs with another scope, and goes back to the present one afterwards. -/
def withScope (scope : List (String × Nat)) (action : Evaluation α) : Evaluation α := do
  let outer ← visible
  modify fun machine => { machine with scope := scope }
  let value ← action
  modify fun machine => { machine with scope := outer }
  return value

/-- Runs a block: what it defines ends with it. -/
def inBlock (action : Evaluation α) : Evaluation α := do withScope (← visible) action

/-- The written weight of an item to choose from. Items other than objects have none. -/
def writtenWeight (item : Value) : Evaluation (Option Float) :=
  match item with
  | .object entries =>
    match valueAt? "weight" entries with
    | none => return none
    | some .unit => return none
    | some weight =>
      match weight.number? with
      | some number => return some number
      | none => stopWith "choice weight must be a number"
  | _ => return none

/-- What an item to choose from stands for. -/
def chosenValue : Value → Value
  | .object entries => (valueAt? "value" entries).getD .unit
  | item => item

/-- Chooses among items in proportion to their weights. -/
def chooseItem (items : List Value) : Evaluation Value := do
  let weights := Weight.normalize (← items.mapM writtenWeight)
  let sum := Weight.total weights
  if sum ≤ 0 then noChoice
  else
    let draw : Float ← ask (.below sum)
    match Weight.pickAt draw weights with
    | some index => return chosenValue (items.getD index .unit)
    | none => noChoice
where
  noChoice : Evaluation Value := stopWith "no possible choice: every weight is zero"

/-- Reads a switch of the settings. -/
def switchOf (entry : Entry) : Evaluation (Option Bool) :=
  match entry.value with
  | .boolean value => return some value
  | _ => stopWith ("settings." ++ entry.key ++ " must be a bool")

/-- Adds one key to a settings layer; unknown keys add nothing. -/
def addSetting (layer : SettingsLayer) (entry : Entry) : Evaluation SettingsLayer := do
  match entry.key with
  | "whitespace" => return { layer with whitespace := ← switchOf entry }
  | "punctuation" => return { layer with punctuation := ← switchOf entry }
  | "capitalization" => return { layer with capitalization := ← switchOf entry }
  | "articles" => return { layer with articles := ← switchOf entry }
  | "version" => return { layer with version := some entry.value.display }
  | _ => return layer

/-- Registers one entry; the entry with the settings has a key of its own. -/
def provideEntry (entry : Entry) : Evaluation Unit := do
  if entry.key = "settings" then
    match entry.value with
    | .object entries => ask (.keep (.settings (← entries.foldlM addSetting .empty)))
    | _ => stopWith "provide: `settings` must be an object map"
  else
    match entry.value with
    | .function callable => ask (.keep (.function entry.key callable))
    | value => ask (.keep (.value entry.key value.display))

/-- Puts text out. -/
def print (text : String) : Evaluation Value := do
  modify fun machine => { machine with printed := machine.printed ++ text }
  return .unit

/-- An object that gives an item its weight. -/
def weighted (value weight : Value) : Value := .object [⟨"value", value⟩, ⟨"weight", weight⟩]

/-- The functions that every script can call. -/
def builtin (invoke : Invoke) (name : String) (arguments : List Value) : Evaluation Value :=
  match name, arguments with
  | "print", [] => print ""
  | "print", [value] => print value.display
  | "to_string", [value] => return .text value.display
  | "Fn", [.text name] => return .function (.named name)
  | "call", .function callable :: arguments => invoke callable arguments
  | "choice", [value] => return weighted value .unit
  | "choice", [value, .double weight] => return weighted value (.double weight)
  | "choice", [value, .integer weight] => return weighted value (.double (doubleOf weight))
  | "weighted_choose", [.array items] => chooseItem items
  | "random_int", [.integer low, .integer high] => do
    if high ≤ low then
      stopWith ("random_int: empty range " ++ toString low ++ ".." ++ toString high)
    else return .integer (← ask (.integer low high))
  | "random_float", [] => return .double (← ask .fraction)
  | "provide", [.object entries] => do
    entries.forM provideEntry
    return .unit
  | "include", [.text path] => do
    match ← ask (.document path) with
    | .ok text => return .text text
    | .error reason => stopWith reason
  | _, _ => stop

/-- Runs an action for every integer of a range. -/
def forEach (action : Int → Evaluation Unit) : Nat → Int → Evaluation Unit
  | 0, _ => return
  | count + 1, start => do
    action start
    forEach action count (start + 1)

mutual

/-- The value of an expression. -/
def Expression.evaluate (invoke : Invoke) : Expression → Evaluation Value
  | .unit => return .unit
  | .boolean value => return .boolean value
  | .integer value => return .integer value
  | .double value => return .double value
  | .text value => return .text value
  | .variable name => do load (← cellOf name)
  | .array items => return .array (← evaluateItems invoke items)
  | .object fields => return .ofEntries (← evaluateFields invoke fields)
  | .call name arguments => do invoke (.named name) (← evaluateItems invoke arguments)
  | .property receiver name => do
    match ← receiver.evaluate invoke with
    | .object entries => return (valueAt? name entries).getD .unit
    | _ => stop
  | .method receiver name arguments => do
    let receiver ← receiver.evaluate invoke
    let arguments ← evaluateItems invoke arguments
    builtin invoke name (receiver :: arguments)
  | .negate operand => do result? (negated? (← operand.evaluate invoke))
  | .binary operator left right => do
    let left ← left.evaluate invoke
    let right ← right.evaluate invoke
    result? (operate? operator left right)
  | .conditional condition positive negative => do
    match ← condition.evaluate invoke with
    | .boolean true => inBlock (evaluateStatements invoke positive)
    | .boolean false => inBlock (evaluateStatements invoke negative)
    | _ => stop
  | .block body => inBlock (evaluateStatements invoke body)
  | .closure parameters body => do
    let names := (freeOfStatements parameters body).eraseDups
    let captured ← names.mapM fun name => return (name, ← cellOf name)
    return .function (.closure parameters body captured)

/-- The values of expressions, from left to right. -/
def evaluateItems (invoke : Invoke) : List Expression → Evaluation (List Value)
  | [] => return []
  | item :: rest => do
    let value ← item.evaluate invoke
    return value :: (← evaluateItems invoke rest)

/-- The entries of an object, in the order they are written. -/
def evaluateFields (invoke : Invoke) : List Field → Evaluation (List Entry)
  | [] => return []
  | ⟨name, expression⟩ :: rest => do
    let value ← expression.evaluate invoke
    return ⟨name, value⟩ :: (← evaluateFields invoke rest)

/-- Runs one statement. -/
def Statement.evaluate (invoke : Invoke) : Statement → Evaluation Value
  | .expression expression => expression.evaluate invoke
  | .define name none => do
    define name .unit
    return .unit
  | .define name (some expression) => do
    define name (← expression.evaluate invoke)
    return .unit
  | .assign name expression => do
    let value ← expression.evaluate invoke
    store (← cellOf name) value
    return .unit
  | .increase name expression => do
    let value ← expression.evaluate invoke
    let cell ← cellOf name
    store cell (← result? (operate? .add (← load cell) value))
    return .unit
  | .count name low high body => do
    match ← low.evaluate invoke, ← high.evaluate invoke with
    | .integer low, .integer high =>
      let step (value : Int) : Evaluation Unit := do
        inBlock do
          define name (.integer value)
          discard (evaluateStatements invoke body)
      forEach step (high - low).toNat low
      return .unit
    | _, _ => stop
  | .throw none => stop
  | .throw (some expression) => do
    match (← expression.evaluate invoke).display with
    | "" => stop
    | text => stopWith text
  | .attempt body handler => do
    let scope ← visible
    tryCatch (discard (inBlock (evaluateStatements invoke body))) fun _ =>
      withScope scope (discard (evaluateStatements invoke handler))
    modify fun machine => { machine with scope := scope }
    return .unit

/-- Runs statements; their value is that of the last one. -/
def evaluateStatements (invoke : Invoke) : List Statement → Evaluation Value
  | [] => return .unit
  | [last] => last.evaluate invoke
  | first :: rest => do
    discard (first.evaluate invoke)
    evaluateStatements invoke rest

end

/-- What a call runs: names with the cells they stand for, parameters and a body. -/
structure Body where
  captured : List (String × Nat)
  parameters : List String
  statements : List Statement

/-- The body that a call with this number of arguments runs, if a script defines it. -/
def Callable.body? (functions : List FunctionDefinition) (count : Nat) : Callable → Option Body
  | .named name =>
    (functions.find? fun function =>
      function.name = name && function.parameters.length = count).map fun function =>
        ⟨[], function.parameters, function.body⟩
  | .closure parameters body captured =>
    if parameters.length = count then some ⟨captured, parameters, body⟩ else none

/-- Calls a function, with calls inside calls at most `depth` levels deep. Functions that a script
defines come before those that every script can call. -/
def invoke (functions : List FunctionDefinition) : Nat → Invoke
  | 0, _, _ => stop
  | depth + 1, callable, arguments =>
    match callable.body? functions arguments.length with
    | some body =>
      withScope body.captured do
        (body.parameters.zip arguments).forM fun (name, value) => define name value
        evaluateStatements (invoke functions depth) body.statements
    | none =>
      match callable with
      | .named name => builtin (invoke functions depth) name arguments
      | .closure _ _ _ => stop

/-- How deep calls can be nested. -/
def callDepth : Nat := 65

/-- What the functions of one script share: their definitions and their variables. -/
structure Session where
  functions : List FunctionDefinition
  cells : Array Value

namespace Session

/-- Runs an action in a session. The text put out is what was printed and the text of the value;
the variables keep what the action left in them, even if it stopped. -/
def perform (session : Session) (action : Evaluation Value) :
    Exchange (Except Raised String × Session) := do
  let (result, machine) ← (action.run.run ⟨session.cells, [], ""⟩)
  return (result.map fun value => machine.printed ++ value.display,
    { session with cells := machine.cells })

/-- Calls a function without arguments. -/
def call (session : Session) (callable : Callable) :
    Exchange (Except Raised String × Session) :=
  session.perform (invoke session.functions callDepth callable [])

end Session

/-- Runs a program from its start. -/
def Program.run (program : Program) : Exchange (Except Raised String × Session) :=
  Session.perform ⟨program.functions, #[]⟩
    (evaluateStatements (invoke program.functions callDepth) program.body)

end Script

end BranchText
