import AgentReply.Settings.Basic
import AgentReply.Toml.Reader
import AgentReply.Toml.Writer

/-!
# Settings in a file

Settings as a TOML document. What a document does not mention keeps its default, and what it says beyond
the settings is passed over.
-/

namespace AgentReply.Settings

open Toml (Value Table)

/-! ### Decoding -/

def decodeString? : Value → Option String
  | .string value => some value
  | _ => none

/-- A natural number below `2^bits`. -/
def decodeNat? (bits : Nat) : Value → Option Nat
  | .integer value => if 0 ≤ value && value < Nat.pow 2 bits then some value.toNat else none
  | _ => none

def decodeStrings? : Value → Option (List String)
  | .array items => items.mapM decodeString?
  | _ => none

def decodePairs? : Value → Option (List (String × String))
  | .table fields =>
    let pairs? := fields.mapM fun (field : String × Value) ↦
      (decodeString? field.2).map (field.1, ·)
    pairs?.map fun pairs ↦ pairs.mergeSort fun a b ↦ decide (a.1 ≤ b.1)
  | _ => none

/-- A named variant: its name, or a table with nothing under its name. -/
def decodeVariant? {α : Type} (ofName? : String → Option α) : Value → Option α
  | .string name => ofName? name
  | .table [(name, .table [])] => ofName? name
  | .table [(name, .array [])] => ofName? name
  | _ => none

/-- The fields of a section. In an array they stand in the order of their names. -/
def sectionFields? (names : List String) : Value → Option Table
  | .table fields => some fields
  | .array items => some (names.zip items)
  | _ => none

def decodeChannels? (value : Value) : Option Channels := do
  let names := ["backend_url", "events_url", "socket_url", "mode", "connect_timeout_secs"]
  (← sectionFields? names value).foldlM (fun c (key, value) ↦
    match key with
    | "backend_url" => (decodeString? value).map fun url ↦ { c with backendUrl := some url }
    | "events_url" => (decodeString? value).map fun url ↦ { c with eventsUrl := some url }
    | "socket_url" => (decodeString? value).map fun url ↦ { c with socketUrl := some url }
    | "mode" => (decodeVariant? Mode.ofName? value).map fun mode ↦ { c with mode := mode }
    | "connect_timeout_secs" =>
      (decodeNat? 64 value).map fun seconds ↦ { c with connectTimeout := seconds }
    | _ => some c) {}

def decodeReconnect? (value : Value) : Option Reconnect := do
  let names := ["strategy", "initial_delay_ms", "max_delay_ms", "max_attempts"]
  (← sectionFields? names value).foldlM (fun r (key, value) ↦
    match key with
    | "strategy" => (decodeVariant? Strategy.ofName? value).map fun s ↦ { r with strategy := s }
    | "initial_delay_ms" => (decodeNat? 64 value).map fun n ↦ { r with initialDelay := n }
    | "max_delay_ms" => (decodeNat? 64 value).map fun n ↦ { r with maxDelay := n }
    | "max_attempts" => (decodeNat? 32 value).map fun n ↦ { r with maxAttempts := n }
    | _ => some r) {}

def decodeTags? (value : Value) : Option Tags := do
  let names := ["envelopes", "known", "opaque", "collections"]
  (← sectionFields? names value).foldlM (fun t (key, value) ↦
    match key with
    | "envelopes" => (decodeStrings? value).map fun names ↦ { t with envelopes := names }
    | "known" => (decodeStrings? value).map fun names ↦ { t with known := names }
    | "opaque" => (decodeStrings? value).map fun names ↦ { t with verbatim := names }
    | "collections" => (decodePairs? value).map fun pairs ↦ { t with collections := pairs }
    | _ => some t) {}

def decodeEnvelopes? (value : Value) : Option Envelopes := do
  (← sectionFields? ["delta_types"] value).foldlM (fun e (key, value) ↦
    match key with
    | "delta_types" => (decodeStrings? value).map fun names ↦ { e with deltaTypes := names }
    | _ => some e) {}

def decodeLog? (value : Value) : Option Log := do
  (← sectionFields? ["level", "file"] value).foldlM (fun l (key, value) ↦
    match key with
    | "level" => (decodeString? value).map fun level ↦ { l with level := level }
    | "file" => (decodeString? value).map fun file ↦ { l with file := some file }
    | _ => some l) {}

def ofTable? (table : Table) : Option Settings :=
  table.foldlM (fun s (key, value) ↦
    match key with
    | "channels" => (decodeChannels? value).map fun c ↦ { s with channels := c }
    | "reconnect" => (decodeReconnect? value).map fun r ↦ { s with reconnect := r }
    | "tags" => (decodeTags? value).map fun t ↦ { s with tags := t }
    | "envelope" => (decodeEnvelopes? value).map fun e ↦ { s with envelope := e }
    | "log" => (decodeLog? value).map fun l ↦ { s with log := l }
    | _ => some s) {}

/-- The settings in a document; `none` if it is no TOML or a value is of the wrong type. -/
def ofToml? (text : String) : Option Settings :=
  (Toml.read text).bind ofTable?

/-! ### Encoding -/

def encodeStrings (values : List String) : Value := .array (values.map .string)

def encodeOptional (key : String) (value : Option String) : Table :=
  (value.map fun text ↦ (key, Value.string text)).toList

def toTable (s : Settings) : Table :=
  [("channels", .table (
      encodeOptional "backend_url" s.channels.backendUrl ++
      encodeOptional "events_url" s.channels.eventsUrl ++
      encodeOptional "socket_url" s.channels.socketUrl ++
      [("mode", .string s.channels.mode.name),
        ("connect_timeout_secs", .integer s.channels.connectTimeout)])),
    ("reconnect", .table
      [("strategy", .string s.reconnect.strategy.name),
        ("initial_delay_ms", .integer s.reconnect.initialDelay),
        ("max_delay_ms", .integer s.reconnect.maxDelay),
        ("max_attempts", .integer s.reconnect.maxAttempts)]),
    ("tags", .table
      [("envelopes", encodeStrings s.tags.envelopes), ("known", encodeStrings s.tags.known),
        ("opaque", encodeStrings s.tags.verbatim),
        ("collections",
          .table (s.tags.collections.map fun (name, item) ↦ (name, .string item)))]),
    ("envelope", .table [("delta_types", encodeStrings s.envelope.deltaTypes)]),
    ("log", .table (("level", .string s.log.level) :: encodeOptional "file" s.log.file))]

/-- The document of some settings; options that are not set are left out. -/
def toToml (s : Settings) : String := Toml.write s.toTable

/-- Whether every number is an integer of TOML, which has 64 bits and a sign. -/
def isWritable (s : Settings) : Bool :=
  [s.channels.connectTimeout, s.reconnect.initialDelay, s.reconnect.maxDelay,
    s.reconnect.maxAttempts].all (· < 0x8000000000000000)

/-- The document of some settings, if there is one. -/
def toToml? (s : Settings) : Option String := if s.isWritable then some s.toToml else none

end AgentReply.Settings
