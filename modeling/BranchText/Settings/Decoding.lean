import BranchText.Json.Reader
import BranchText.Ron.Reader
import BranchText.Settings.Basic

/-!
# Reading settings

Settings are written as a record whose keys may be left out; keys that are not known do not count,
and known ones come at most once. Two notations hold them, and a `SettingsNotation` says how the
values of one of them are looked at.
-/

namespace BranchText

/-- How settings stand in the values of a notation. -/
structure SettingsNotation (V : Type) where
  /-- The fields of a record with this name and these keys. -/
  fields? : String → List String → V → Option (List (String × V))
  /-- A value that may be absent. -/
  optional? : V → Option (Option V)
  bool? : V → Option Bool
  natural? : V → Option Nat
  text? : V → Option String

namespace SettingsNotation

variable {V : Type} {α : Type}

/-- The value of a key, `absent` if it is left out. Nothing if the key comes twice or its value
does not fit. -/
def key? (fields : List (String × V)) (name : String) (absent : α) (decode : V → Option α) :
    Option α :=
  match fields.filter (·.1 = name) with
  | [] => some absent
  | [(_, value)] => decode value
  | _ => none

/-- The value of a key that may be set to nothing. -/
def optionalKey? (form : SettingsNotation V) (fields : List (String × V)) (name : String)
    (decode : V → Option α) : Option (Option α) :=
  key? fields name none fun value =>
    match form.optional? value with
    | none => none
    | some none => some none
    | some (some value) => (decode value).map some

/-- A settings layer. -/
def layer? (form : SettingsNotation V) (value : V) : Option SettingsLayer := do
  let fields ← form.fields? "DocumentSettings"
    ["whitespace", "punctuation", "capitalization", "articles", "version"] value
  return {
    whitespace := ← form.optionalKey? fields "whitespace" form.bool?
    punctuation := ← form.optionalKey? fields "punctuation" form.bool?
    capitalization := ← form.optionalKey? fields "capitalization" form.bool?
    articles := ← form.optionalKey? fields "articles" form.bool?
    version := ← form.optionalKey? fields "version" form.text? }

/-- The settings of a render. -/
def settings? (form : SettingsNotation V) (value : V) : Option RenderSettings := do
  let fields ← form.fields? "RenderSettings"
    ["random_seed", "allow_script_execution", "working_directory", "overrides"] value
  let seed ← form.optionalKey? fields "random_seed" form.natural?
  return {
    seed := seed.map UInt64.ofNat
    allowScripts := ← key? fields "allow_script_execution" true form.bool?
    workingDirectory := ← form.optionalKey? fields "working_directory" form.text?
    overrides := ← key? fields "overrides" .empty form.layer? }

/-- Settings in object notation: a record, whose name may be written in front; values that may be
absent are marked, unless `impliesSome`. -/
def ron (impliesSome : Bool) : SettingsNotation Ron where
  fields? name _ value :=
    match value with
    | .record written fields => if written.getD name = name then some fields else none
    | .tuple written [] => if written.getD name = name then some [] else none
    | _ => none
  optional? value :=
    match value with
    | .absent => some none
    | .present value => some (some value)
    | value => if impliesSome then some (some value) else none
  bool? value :=
    match value with
    | .bool value => some value
    | _ => none
  natural? value :=
    match value with
    | .natural value => some value
    | _ => none
  text? value :=
    match value with
    | .text value => some value
    | _ => none

/-- Settings in JSON: an object, or a list of the values in the order of the keys. -/
def json : SettingsNotation Json where
  fields? _ keys value :=
    match value with
    | .object members => some members
    | .list items => if items.length ≤ keys.length then some (keys.zip items) else none
    | _ => none
  optional? value :=
    match value with
    | .null => some none
    | value => some (some value)
  bool? value :=
    match value with
    | .bool value => some value
    | _ => none
  natural? value :=
    match value with
    | .integer (.ofNat value) => some value
    | _ => none
  text? value :=
    match value with
    | .text value => some value
    | _ => none

end SettingsNotation

namespace RenderSettings

/-- Reads settings in object notation. -/
def ofRon? (text : String) : Option RenderSettings := do
  let source ← Ron.read? text.toList
  (SettingsNotation.ron source.impliesSome).settings? source.value

/-- Reads settings in JSON. -/
def ofJson? (text : String) : Option RenderSettings := do
  SettingsNotation.json.settings? (← Json.read? text.toList)

end RenderSettings

end BranchText
