import BranchText.Chance.Generator
import BranchText.Script.Error
import BranchText.Script.Evaluation

/-!
# Scripts without a document

A console runs scripts one after another. They share a generator, nothing can be included, and
functions that one script provided can be called later on.
-/

namespace BranchText

namespace Script

/-- The scripts run so far, as far as later ones can tell. -/
structure Console where
  generator : Generator
  sessions : Array Session
  /-- Provided functions with the places of their sessions, the latest first. -/
  functions : List (String × Callable × Nat)

/-- What a script put out and registered. -/
structure Outcome where
  output : String
  registrations : List Registration

/-- The registered settings as one layer, if there are any. -/
def Outcome.layer? (outcome : Outcome) : Option SettingsLayer :=
  outcome.registrations.foldl (fun gathered registration =>
    match registration with
    | .settings layer => some ((gathered.getD .empty).withOver layer)
    | _ => gathered) none

/-- Answers a script that has no document. -/
def answerAlone : (request : Request) → StateM (Generator × List Registration) request.Answer
  | .fraction => modifyGet fun (generator, kept) =>
    let (value, generator) := generator.unit
    (value, generator, kept)
  | .below high => modifyGet fun (generator, kept) =>
    let (value, generator) := Generator.below high generator
    (value, generator, kept)
  | .integer low high => modifyGet fun (generator, kept) =>
    let (value, generator) := Generator.intFrom low high generator
    (value, generator, kept)
  | .keep registration => modify fun (generator, kept) => (generator, kept ++ [registration])
  | .document _ => return .error "include is not available in this context"

namespace Console

/-- A console where nothing was run yet. -/
def ofSeed (seed : UInt64) : Console := ⟨.ofSeed seed, #[], []⟩

/-- The functions among registrations, for the session at this place. -/
def functionsOf (place : Nat) (registrations : List Registration) :
    List (String × Callable × Nat) :=
  registrations.filterMap fun
    | .function name callable => some (name, callable, place)
    | _ => none

/-- Runs a script. A script that stops leaves nothing but the state of the generator. -/
def evaluate (console : Console) (source : String) : Except ScriptError Outcome × Console :=
  match Program.read? source with
  | none => (.error .malformed, console)
  | some program =>
    let ((result, session), generator, kept) :=
      (program.run.run answerAlone).run (console.generator, [])
    match result with
    | .error raised => (.error (.stopped raised.message), { console with generator := generator })
    | .ok output =>
      (.ok ⟨output, kept⟩,
        { generator := generator
          sessions := console.sessions.push session
          functions := (functionsOf console.sessions.size kept).reverse ++ console.functions })

/-- Calls the function that was provided last under a name. -/
def call (console : Console) (name : String) : Except ScriptError String × Console :=
  match console.functions.lookup name with
  | none => (.error (.functionStopped (some "not a Rhai function")), console)
  | some (callable, place) =>
    let session := console.sessions.getD place ⟨[], #[]⟩
    let ((result, session), generator, _) :=
      ((session.call callable).run answerAlone).run (console.generator, [])
    let console :=
      { console with
        generator := generator
        sessions := console.sessions.setIfInBounds place session }
    (result.mapError fun raised => .functionStopped raised.message, console)

end Console

end Script

end BranchText
