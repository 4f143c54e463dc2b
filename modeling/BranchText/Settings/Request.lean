import BranchText.Disk.Files
import BranchText.Settings.Decoding

/-!
# Settings from a file and a caller

A caller can start from a settings file and decide single settings on top of it.
-/

namespace BranchText

/-- Why settings cannot be had. -/
inductive SettingsError where
  | unreadable (failure : ReadFailure)
  /-- The file does not hold settings. -/
  | malformed
  deriving Repr, DecidableEq

/-- The wording of a settings error. -/
def SettingsError.message : SettingsError → String
  | unreadable failure => "IO error: " ++ failure.message
  | malformed => "RON deserialization error"

/-- What a caller decides; what it leaves open is as in the settings file, if there is one. -/
structure SettingsRequest where
  file : Option String
  seed : Option UInt64
  allowScripts : Option Bool
  workingDirectory : Option String
  overrides : SettingsLayer

namespace RenderSettings

/-- Reads a settings file. -/
def ofFile (files : Files) (path : String) : Except SettingsError RenderSettings :=
  match files path with
  | .error failure => .error (.unreadable failure)
  | .ok text =>
    match ofRon? text with
    | some settings => .ok settings
    | none => .error .malformed

end RenderSettings

namespace SettingsRequest

/-- The settings with what the request decides. -/
def applyTo (request : SettingsRequest) (settings : RenderSettings) : RenderSettings where
  seed := request.seed.or settings.seed
  allowScripts := request.allowScripts.getD settings.allowScripts
  workingDirectory := request.workingDirectory.or settings.workingDirectory
  overrides := settings.overrides.withOver request.overrides

/-- The settings that a request asks for. -/
def resolve (request : SettingsRequest) (files : Files) : Except SettingsError RenderSettings := do
  match request.file with
  | none => return request.applyTo .default
  | some path => return request.applyTo (← RenderSettings.ofFile files path)

end SettingsRequest

end BranchText
