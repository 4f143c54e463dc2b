import BranchText.Disk.Files
import BranchText.Document.ReadError
import BranchText.Script.Error

/-!
# Render errors

Why a render stops. Errors name their cause and, for causes within the rendered document, the byte
offset of the node they arose at; `RenderError.message` words them. What goes wrong inside an
included document is wrapped in the path of that document, whose offsets are its own.
-/

namespace BranchText

/-- Why the text of an included document cannot be had. -/
inductive IncludeError where
  | notFound (path : String)
  /-- Nothing can be included at all. -/
  | unavailable
  | unreadable (path : String) (failure : ReadFailure)
  deriving Repr, DecidableEq

/-- Why a render stops. -/
inductive RenderError where
  /-- The document cannot be read. -/
  | unread (error : ReadError)
  /-- A fork has no branch with a positive weight. -/
  | noChoice (offset : Nat)
  | script (error : ScriptError) (offset : Nat)
  | notIncluded (error : IncludeError)
  /-- An error inside an included document. -/
  | within (path : String) (error : RenderError)
  /-- A name without a record is executed again. -/
  | unknownIdentifier (name : String) (offset : Nat)
  | duplicateIdentifier (name : String) (offset : Nat)
  /-- A call of a function that no script provided. -/
  | functionNotFound (name : String) (offset : Nat)
  /-- A call of a provided value. -/
  | notCallable (name : String) (offset : Nat)
  | scriptsDisabled (offset : Nat)
  /-- Branches, re-executions and includes are nested too deeply. -/
  | tooDeep
  deriving Repr

namespace IncludeError

/-- The wording of an include error. -/
def message : IncludeError → String
  | notFound path => "included document not found: " ++ path
  | unavailable => "includes are unavailable without filesystem access"
  | unreadable path failure => "failed to read " ++ path ++ ": " ++ failure.message

end IncludeError

namespace RenderError

/-- The byte offset in the rendered document, for errors that have one there. -/
def offset? : RenderError → Option Nat
  | unread error => some error.offset
  | noChoice offset => some offset
  | script _ offset => some offset
  | notIncluded _ => none
  | within _ _ => none
  | unknownIdentifier _ offset => some offset
  | duplicateIdentifier _ offset => some offset
  | functionNotFound _ offset => some offset
  | notCallable _ offset => some offset
  | scriptsDisabled offset => some offset
  | tooDeep => none

/-- A wording followed by an offset. -/
def placed (offset : Nat) (wording : String) : String :=
  wording ++ " (at offset " ++ toString offset ++ ")"

/-- The wording of a render error. -/
def message : RenderError → String
  | unread error => "parse error: " ++ error.message
  | noChoice offset => placed offset "no possible choice: every weight is zero"
  | script error offset => placed offset error.message
  | notIncluded error => "include error: " ++ error.message
  | within path error => "in included document " ++ path ++ ": " ++ error.message
  | unknownIdentifier name offset =>
    placed offset ("cannot re-execute unknown identifier '" ++ name ++ "'")
  | duplicateIdentifier name offset =>
    placed offset ("identifier '" ++ name ++ "' is declared more than once")
  | functionNotFound name offset =>
    placed offset ("no function named '" ++ name ++ "' has been provided")
  | notCallable name offset =>
    placed offset ("'" ++ name ++ "' was provided but is not callable")
  | scriptsDisabled offset =>
    "script execution is disabled (script block at offset " ++ toString offset ++ ")"
  | tooDeep => "the render is nested too deeply"

end RenderError

end BranchText
