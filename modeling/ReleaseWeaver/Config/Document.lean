import ReleaseWeaver.Config.Basic
import ReleaseWeaver.Toml.Document
import ReleaseWeaver.Toml.Writer

/-
  Configurations as TOML documents. A key that is missing at the top or among the markers stands
  for its default, a key that is not known is passed over, and an array may stand for a table: it
  gives the values in order. A date counts as a table without any known key.
-/

namespace ReleaseWeaver

inductive ConfigError where
  /-- The file cannot be read or written. -/
  | file
  /-- The text is no document, or a value has the wrong type, or a key is missing. -/
  | document
deriving DecidableEq, Repr

namespace Config

open Toml (Value Entries)

def string? : Value → Option String
  | .string s => some s
  | _ => none

/-- The values of some keys, each of them there or not. -/
def valuesOf (keys : List String) : Value → Option (List (Option Value))
  | .table _ entries => some (keys.map fun key => entries.lookup key)
  | .array items => some ((List.range keys.length).map fun place => items[place]?)
  | .tables items =>
    some ((List.range keys.length).map fun place => items[place]?.map (Value.table .header))
  | .dateTime => some (keys.map fun _ => none)
  | _ => none

/-- The strings under some keys; a missing one is the default that stands beside its key, if there
is one. -/
def stringsOf (fields : List (String × Option String)) (v : Value) : Option (List String) := do
  let values ← valuesOf (fields.map Prod.fst) v
  (fields.zip values).mapM fun ((_, fallback), v) => match v with
    | some v => string? v
    | none => fallback

def typeSymbol? (v : Value) : Option TypeSymbol := do
  match ← stringsOf [("name", none), ("assembly", none)] v with
  | [name, assembly] => return ⟨name, assembly⟩
  | _ => none

def memberSymbol? (v : Value) : Option MemberSymbol := do
  match ← stringsOf [("type", none), ("member", none), ("assembly", none)] v with
  | [type, member, assembly] => return ⟨type, member, assembly⟩
  | _ => none

def markerNames? (v : Value) : Option MarkerNames := do
  let known : MarkerNames := {}
  match ← stringsOf [("track_handles", some known.trackHandles),
      ("release_commands", some known.releaseCommands)] v with
  | [trackHandles, releaseCommands] => return { trackHandles, releaseCommands }
  | _ => none

/-- What stands under a key, or the default. -/
def keyOr {α : Type} (entries : Entries) (key : String) (read : Value → Option α) (fallback : α) :
    Option α :=
  match entries.lookup key with
  | some v => read v
  | none => some fallback

def ofEntries? (entries : Entries) : Option Config := do
  let known : Config := {}
  return {
    fieldPrefix := ← keyOr entries "field_prefix" string? known.fieldPrefix
    handleCallFragment := ← keyOr entries "handle_call_fragment" string? known.handleCallFragment
    releaseMethod := ← keyOr entries "release_method" string? known.releaseMethod
    disposalContract := ← keyOr entries "disposal_contract" typeSymbol? known.disposalContract
    trackingContainer := ← keyOr entries "tracking_container" typeSymbol? known.trackingContainer
    registrationHelper :=
      ← keyOr entries "registration_helper" memberSymbol? known.registrationHelper
    commandCapability := ← keyOr entries "command_capability" typeSymbol? known.commandCapability
    markers := ← keyOr entries "markers" markerNames? known.markers }

/-- Read a configuration. -/
def ofToml (source : String) : Except ConfigError Config :=
  match (Toml.parse? source).bind ofEntries? with
  | some c => .ok c
  | none => .error .document

/-- The strings at the top of the document. -/
def topEntries (c : Config) : List (String × String) :=
  [("field_prefix", c.fieldPrefix), ("handle_call_fragment", c.handleCallFragment),
    ("release_method", c.releaseMethod)]

/-- The tables of the document. -/
def tables (c : Config) : List (String × List (String × String)) :=
  let symbol (s : TypeSymbol) := [("name", s.name), ("assembly", s.assembly)]
  [("disposal_contract", symbol c.disposalContract),
    ("tracking_container", symbol c.trackingContainer),
    ("registration_helper", [("type", c.registrationHelper.type),
      ("member", c.registrationHelper.member), ("assembly", c.registrationHelper.assembly)]),
    ("command_capability", symbol c.commandCapability),
    ("markers", [("track_handles", c.markers.trackHandles),
      ("release_commands", c.markers.releaseCommands)])]

/-- Write a configuration with all its keys. -/
def toToml (c : Config) : String :=
  Toml.writeEntries c.topEntries
    ++ String.join (c.tables.map fun (name, entries) => Toml.writeTable name entries)

/-- Read a configuration from the bytes of a file, if there is one. -/
def load (content : Option ByteArray) : Except ConfigError Config :=
  match content with
  | none => .error .file
  | some bytes => match String.fromUTF8? bytes with
    | some source => ofToml source
    | none => .error .file

/-- The content of the file that keeps a configuration; no file can lie below another one. -/
def save (c : Config) (belowFile : Bool) : Except ConfigError String :=
  if belowFile then .error .file else .ok c.toToml

/-- As `load`, but a file that is not there stands for the defaults. -/
def loadOrDefault (content : Option ByteArray) : Except ConfigError Config :=
  if content.isNone then .ok default else load content

end Config

end ReleaseWeaver
