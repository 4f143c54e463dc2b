/-!
# Warnings

Conditions that are worth a word and stop nothing. A warning has a kind, a message, and the byte
offset it is about.
-/

namespace BranchText

/-- What a warning is about. -/
inductive WarningKind where
  /-- A reference to a name that nothing was recorded under. -/
  | unresolvedReference
  /-- A reference without a mapping for the branch that was taken. -/
  | missingMapping
  /-- A document that declares another language version. -/
  | versionMismatch
  /-- A script block that registers nothing and puts nothing out. -/
  | scriptNeverProvides
  /-- A script block with random numbers that no seed decides. -/
  | ambientRandomness
  /-- A set fork that ran out and was refilled. -/
  | setExhausted
  /-- Mode declarations, which are not applied. -/
  | legacyMode
  deriving Repr, DecidableEq

/-- A warning. -/
structure Warning where
  kind : WarningKind
  message : String
  offset : Nat
  deriving Repr, DecidableEq

namespace WarningKind

/-- The name of a kind. -/
def name : WarningKind → String
  | unresolvedReference => "unresolved-reference"
  | missingMapping => "missing-mapping"
  | versionMismatch => "version-mismatch"
  | scriptNeverProvides => "script-never-provides"
  | ambientRandomness => "ambient-randomness"
  | setExhausted => "set-exhausted"
  | legacyMode => "legacy-mode"

end WarningKind

namespace Warning

/-- A warning with its kind. -/
def display (warning : Warning) : String :=
  "warning[" ++ warning.kind.name ++ "]: " ++ warning.message

/-- A render met a reference to a name without a record. -/
def unresolved (name : String) (offset : Nat) : Warning :=
  ⟨.unresolvedReference, "reference to '" ++ name ++ "', which has not been declared", offset⟩

/-- A document refers to a name that it does not declare. -/
def undeclared (name : String) : Warning :=
  ⟨.unresolvedReference, "'" ++ name ++ "' is referenced but not declared in this document", 0⟩

/-- A reference has no mapping for the branch that was taken. -/
def missingMapping (branch : Nat) (name : String) (offset : Nat) : Warning :=
  ⟨.missingMapping, "no mapping for branch " ++ toString branch ++ " of '" ++ name ++ "'", offset⟩

/-- A document declares a version other than the one that renders follow. -/
def versionMismatch (declared followed : String) (offset : Nat) : Warning :=
  ⟨.versionMismatch, "document declares version " ++ declared ++ ", this renderer implements "
    ++ followed, offset⟩

/-- A script block has no effect. -/
def neverProvides (offset : Nat) : Warning :=
  ⟨.scriptNeverProvides, "script block never calls provide() and emits nothing", offset⟩

/-- A script block contains a marker of randomness that no seed decides. -/
def ambientRandomness (marker : String) (offset : Nat) : Warning :=
  ⟨.ambientRandomness, "script uses `" ++ marker
    ++ "`; use random_int/random_float for reproducible output", offset⟩

/-- A set fork was refilled. -/
def setExhausted (name : Option String) (offset : Nat) : Warning :=
  ⟨.setExhausted, "set '" ++ name.getD "anonymous set" ++ "' was exhausted and has been refilled",
    offset⟩

/-- A document that is rendered declares or switches modes. -/
def modesNotApplied (offset : Nat) : Warning :=
  ⟨.legacyMode,
    "mode declarations are parsed but not applied; use forks and references instead", offset⟩

/-- A document declares modes. -/
def modesIgnored (count : Nat) (offset : Nat) : Warning :=
  ⟨.legacyMode, toString count ++ " legacy mode declaration(s) will be ignored", offset⟩

/-- A document switches to modes. -/
def switchesIgnored : Warning := ⟨.legacyMode, "legacy `use` switches will be ignored", 0⟩

end Warning

end BranchText
