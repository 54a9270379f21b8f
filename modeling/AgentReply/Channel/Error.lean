import AgentReply.Channel.Kind
import AgentReply.Json.Decode

/-!
# Channel errors

What goes wrong on a channel, in the form in which it is shown and sent on.
-/

namespace AgentReply

inductive ChannelErrorKind where
  /-- A frame could not be decoded; the channel stays open. -/
  | malformedFrame
  | transport
  | sendWhileDisconnected
  | alreadyConnected
  /-- A message was sent on the event channel. -/
  | receiveOnly
deriving DecidableEq, Repr

namespace ChannelErrorKind

def name : ChannelErrorKind → String
  | .malformedFrame => "malformed_frame"
  | .transport => "transport"
  | .sendWhileDisconnected => "send_while_disconnected"
  | .alreadyConnected => "already_connected"
  | .receiveOnly => "receive_only"

def all : List ChannelErrorKind :=
  [.malformedFrame, .transport, .sendWhileDisconnected, .alreadyConnected, .receiveOnly]

def ofName? (name : String) : Option ChannelErrorKind :=
  all.find? fun kind ↦ kind.name == name

@[simp] theorem ofName?_name (k : ChannelErrorKind) : ofName? k.name = some k := by
  cases k <;> rfl

end ChannelErrorKind

structure ChannelError where
  kind : ChannelErrorKind
  channel : ChannelKind
  message : String
  details : Option String := none
deriving DecidableEq, Repr

namespace ChannelError

def malformedFrame (channel : ChannelKind) (reason frame : String) : ChannelError where
  kind := .malformedFrame
  channel := channel
  message := s!"malformed frame: {reason}"
  details := some frame

def transport (channel : ChannelKind) (message : String) : ChannelError where
  kind := .transport
  channel := channel
  message := message

def sendWhileDisconnected (channel : ChannelKind) (details : Option String) : ChannelError where
  kind := .sendWhileDisconnected
  channel := channel
  message := s!"{channel.name} channel is not open; message dropped"
  details := details

def alreadyConnected (channel : ChannelKind) : ChannelError where
  kind := .alreadyConnected
  channel := channel
  message := s!"{channel.name} channel is already connecting or open"

def receiveOnly (channel : ChannelKind) : ChannelError where
  kind := .receiveOnly
  channel := channel
  message := s!"{channel.name} channel cannot send"

def text (e : ChannelError) : String :=
  s!"{e.channel.name} channel: {e.message}"

def toJson (e : ChannelError) : Json :=
  .object [("kind", .string e.kind.name), ("channel", .string e.channel.name),
    ("message", .string e.message), ("details", .ofOption e.details)]

structure Draft where
  kind : Option ChannelErrorKind := none
  channel : Option ChannelKind := none
  message : Option String := none
  details : Option String := none

def Draft.add (d : Draft) : String × Json → Except Json.DataError Draft
  | ("kind", value) => do
    let names := ChannelErrorKind.all.map ChannelErrorKind.name
    let kind ← Json.expectVariant ChannelErrorKind.ofName? names value
    return { d with kind := some kind }
  | ("channel", value) => do
    let channel ← Json.expectVariant ChannelKind.ofName? ["events", "socket"] value
    return { d with channel := some channel }
  | ("message", value) => do
    let message ← Json.expectString value
    return { d with message := some message }
  | ("details", value) => do
    let details ← Json.expectOptional Json.expectString value
    return { d with details := details }
  | _ => .ok d

def fieldNames : List String := ["kind", "channel", "message", "details"]

/-- Reads an error from its JSON. Only `details` may be absent, and only from an object. -/
def ofJson (value : Json) : Except Json.DataError ChannelError := do
  match value with
  | .object fields =>
    let d ← fields.foldlM Draft.add {}
    match d.kind, d.channel, d.message with
    | some kind, some channel, some message => return ⟨kind, channel, message, d.details⟩
    | none, _, _ => .error (.missingField "kind")
    | _, none, _ => .error (.missingField "channel")
    | _, _, none => .error (.missingField "message")
  | .array items =>
    let d ← (fieldNames.zip items).foldlM Draft.add {}
    match d.kind, d.channel, d.message with
    | some kind, some channel, some message =>
      if items.length < fieldNames.length then
        .error (.wrongLength items.length "struct ChannelError with 4 elements")
      else if fieldNames.length < items.length then
        .error (.wrongLength items.length "fewer elements in array")
      else return ⟨kind, channel, message, d.details⟩
    | _, _, _ => .error (.wrongLength items.length "struct ChannelError with 4 elements")
  | other => .error (.wrongType other.found "struct ChannelError")

end ChannelError
end AgentReply
