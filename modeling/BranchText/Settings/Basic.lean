/-!
# Settings

Cleanup is switched by layers: the document has one, and the caller has one on top of it. A layer
sets some keys and leaves the others as they are underneath; keys that no layer sets have their
defaults. `RenderSettings` is what a caller decides before a render.
-/

namespace BranchText

/-- The keys that one layer sets. -/
structure SettingsLayer where
  whitespace : Option Bool
  punctuation : Option Bool
  capitalization : Option Bool
  articles : Option Bool
  /-- The language version that a document declares. -/
  version : Option String
  deriving Repr, DecidableEq

/-- The cleanup passes that are on. -/
structure CleanupSettings where
  whitespace : Bool
  punctuation : Bool
  capitalization : Bool
  articles : Bool
  deriving Repr, DecidableEq

namespace SettingsLayer

/-- A layer that sets nothing. -/
def empty : SettingsLayer := ⟨none, none, none, none, none⟩

/-- Both layers as one, `upper` on top. -/
def withOver (lower upper : SettingsLayer) : SettingsLayer where
  whitespace := upper.whitespace.or lower.whitespace
  punctuation := upper.punctuation.or lower.punctuation
  capitalization := upper.capitalization.or lower.capitalization
  articles := upper.articles.or lower.articles
  version := upper.version.or lower.version

/-- The passes that are on: all that no layer switches off. -/
def resolve (layer : SettingsLayer) : CleanupSettings where
  whitespace := layer.whitespace.getD true
  punctuation := layer.punctuation.getD true
  capitalization := layer.capitalization.getD true
  articles := layer.articles.getD true

/-- Whether the layer sets nothing. -/
def isEmpty (layer : SettingsLayer) : Bool := layer = empty

end SettingsLayer

/-- What a caller decides before a render. -/
structure RenderSettings where
  seed : Option UInt64
  allowScripts : Bool
  /-- The directory that includes are looked up in. -/
  workingDirectory : Option String
  /-- The caller's layer, over the one of the document. -/
  overrides : SettingsLayer
  deriving Repr, DecidableEq

namespace RenderSettings

/-- Scripts allowed, and nothing else decided. -/
def default : RenderSettings := ⟨none, true, none, .empty⟩

/-- The directory that includes are looked up in. -/
def baseDirectory (settings : RenderSettings) : String := settings.workingDirectory.getD "."

end RenderSettings

/-- The version of the document language that renders follow. -/
def languageVersion : String := "1.0"

end BranchText
