import AgentReply.Json.Decode
import AgentReply.Settings.Basic

/-!
# The reconnect section as JSON

Fields that are absent have their default values, and unknown fields are passed over.
-/

namespace AgentReply.Settings.Reconnect

def add (r : Reconnect) : String × Json → Except Json.DataError Reconnect
  | ("strategy", value) => do
    let strategy ←
      Json.expectVariant Strategy.ofName? ["never", "fixed", "exponential"] value
    return { r with strategy := strategy }
  | ("initial_delay_ms", value) => do
    let delay ← Json.expectNat 64 value
    return { r with initialDelay := delay }
  | ("max_delay_ms", value) => do
    let delay ← Json.expectNat 64 value
    return { r with maxDelay := delay }
  | ("max_attempts", value) => do
    let attempts ← Json.expectNat 32 value
    return { r with maxAttempts := attempts }
  | _ => .ok r

def fieldNames : List String := ["strategy", "initial_delay_ms", "max_delay_ms", "max_attempts"]

def ofJson : Json → Except Json.DataError Reconnect
  | .object fields => fields.foldlM add {}
  | .array items => do
    let r ← (fieldNames.zip items).foldlM add {}
    if fieldNames.length < items.length then
      .error (.wrongLength items.length "fewer elements in array")
    else return r
  | other => .error (.wrongType other.found "struct ReconnectConfig")

end AgentReply.Settings.Reconnect
