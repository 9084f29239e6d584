import Startup.Config.Logging
import Startup.Toml.Document

/-!
The start-up configuration. A document may leave out whatever it likes: what it does not say has
its default, and what it says beyond that is passed over. But a setting of the wrong type is
refused, and so is a level of logging that does not exist.

A section is written as a table, or as an array of its settings in their order. A date counts as a
section that says nothing.
-/

namespace Startup

structure StartSettings where
  /-- Create the singletons that are not lazy. -/
  preinstantiate : Bool := true
  /-- Tell the listeners when start-up is complete. -/
  announce : Bool := true
  deriving DecidableEq, Repr, Inhabited

structure StartConfig where
  /-- Without a section no log writer is set up. -/
  logging? : Option LogSection := none
  settings : StartSettings := {}
  deriving DecidableEq, Repr, Inhabited

namespace StartConfig

/-- What a document says to a setting: nothing, or a value. -/
abbrev Setting := Option Toml.Value

/-- The settings of a section, by key and position. -/
def settingsOf? : Toml.Value → Option (String → Nat → Setting)
  | .table _ es => some fun key _ => Assoc.find? key es
  | .array items => some fun _ i => items[i]?
  | .tables items => some fun _ i => items[i]?.map (.table .headed)
  | .dateTime _ => some fun _ _ => none
  | .text _ | .boolean _ | .integer _ | .float _ => none

def text? (fallback : String) : Setting → Option String
  | none => some fallback
  | some (.text s) => some s
  | some _ => none

def flag? (fallback : Bool) : Setting → Option Bool
  | none => some fallback
  | some (.boolean b) => some b
  | some _ => none

def loggingOf? (v : Toml.Value) : Option LogSection := do
  let get ← settingsOf? v
  let s : LogSection := {}
  return {
    level := ← text? s.level (get "level" 0)
    layout := {
      showTarget := ← flag? s.layout.showTarget (get "show_target" 1)
      showThreadIds := ← flag? s.layout.showThreadIds (get "show_thread_ids" 2)
      showFile := ← flag? s.layout.showFile (get "show_file" 3)
      showLineNumber := ← flag? s.layout.showLineNumber (get "show_line_number" 4)
      json := ← flag? s.layout.json (get "json_format" 5) } }

def settingsFrom? (v : Toml.Value) : Option StartSettings := do
  let get ← settingsOf? v
  let s : StartSettings := {}
  return {
    preinstantiate := ← flag? s.preinstantiate (get "preinstantiate_singletons" 0)
    announce := ← flag? s.announce (get "publish_refreshed_event" 1) }

/-- The configuration that a document describes. -/
def ofEntries? (es : Toml.Entries) : Option StartConfig := do
  let logging? ← match Assoc.find? "logging" es with
    | none => pure none
    | some v => (loggingOf? v).map some
  let settings ← match Assoc.find? "bootstrap" es with
    | none => pure {}
    | some v => settingsFrom? v
  return { logging?, settings }

def ofText (text : String) : Except ConfigError StartConfig :=
  match (Toml.Entries.ofText? text).bind ofEntries? with
  | none => .error (.malformed (.plain "not a start-up configuration"))
  | some c =>
    match c.logging? with
    | none => .ok c
    | some s => s.toConfig.map fun _ => c

end StartConfig

/-! ## Files -/

inductive FileContent where
  | missing
  | directory
  | bytes (b : ByteArray)

structure ConfigFile where
  path : String
  content : FileContent

namespace ConfigFile

def isMissing (f : ConfigFile) : Bool := f.content matches .missing

def text (f : ConfigFile) : Except ConfigError String :=
  match f.content with
  | .missing => .error (.fileNotFound f.path)
  | .directory => .error (.fileUnreadable "it is a directory")
  | .bytes b =>
    match String.fromUTF8? b with
    | some s => .ok s
    | none => .error (.fileUnreadable "it is not UTF-8")

def read (f : ConfigFile) : Except ConfigError StartConfig := f.text.bind StartConfig.ofText

end ConfigFile

end Startup
