import AgentReply.Socket.Frame
import AgentReply.Text.Utf8

/-!
# Messages on a socket

A message is one frame or several of them. Frames about the connection may stand between the frames of a
message. A frame that breaks the rules is an error, after which nothing more is read.
-/

namespace AgentReply.Socket

inductive Received where
  | text (text : String)
  | binary (octets : List UInt8)
  | ping (octets : List UInt8)
  | pong
  | close
deriving DecidableEq, Repr

inductive ReadError where
  | unknownOpcode (code : Nat)
  | reserved
  | masked
  | fragmentedControl
  | longControl
  | unexpectedContinuation
  | expectedContinuation (opcode : Opcode)
  | invalidClose
  | invalidText
  | tooLong (length limit : Nat)
  /-- The connection has ended without a close frame. -/
  | reset
deriving DecidableEq, Repr

def ReadError.message : ReadError → String
  | .unknownOpcode code => s!"WebSocket protocol error: Encountered invalid opcode: {code}"
  | .reserved => "WebSocket protocol error: Reserved bits are non-zero"
  | .masked => "WebSocket protocol error: Received a masked frame from server"
  | .fragmentedControl => "WebSocket protocol error: Fragmented control frame"
  | .longControl =>
    "WebSocket protocol error: Control frame too big (payload must be 125 bytes or less)"
  | .unexpectedContinuation =>
    "WebSocket protocol error: Continue frame but nothing to continue"
  | .expectedContinuation opcode =>
    let kind := if opcode = .text then "TEXT" else "BINARY"
    s!"WebSocket protocol error: While waiting for more fragments received: {kind}"
  | .invalidClose => "WebSocket protocol error: Invalid close sequence"
  | .invalidText => "UTF-8 encoding error"
  | .tooLong length limit => s!"Space limit exceeded: Message too long: {length} > {limit}"
  | .reset => "WebSocket protocol error: Connection reset without closing handshake"

def FrameError.toReadError : FrameError → ReadError
  | .unknownOpcode code => .unknownOpcode code
  | .tooLong length limit => .tooLong length limit

def maxMessageLength : Nat := 67108864

/-- The message of which some frames have come. -/
structure Fragments where
  isText : Bool
  payload : List UInt8
deriving DecidableEq, Repr

/-- Adds a frame's payload to a message. A text may be cut within a character, but must not go wrong
before that. -/
def Fragments.add (m : Fragments) (payload : List UInt8) : Except ReadError Fragments :=
  let whole := m.payload ++ payload
  if maxMessageLength < whole.length then .error (.tooLong whole.length maxMessageLength)
  else if m.isText then
    match (Utf8.decode whole).stop with
    | .invalid _ => .error .invalidText
    | _ => .ok ⟨true, whole⟩
  else .ok ⟨false, whole⟩

def Fragments.finish (m : Fragments) : Except ReadError Received :=
  if m.isText then
    match Utf8.decode? m.payload with
    | some text => .ok (.text text)
    | none => .error .invalidText
  else .ok (.binary m.payload)

/-- Takes the payload of a close frame: nothing, or two octets and a text. -/
def readClose (payload : List UInt8) : Except ReadError Received :=
  match payload with
  | [] => .ok .close
  | [_] => .error .invalidClose
  | _ :: _ :: reason => if (Utf8.decode? reason).isSome then .ok .close else .error .invalidText

def readControl (f : Frame) : Except ReadError Received :=
  if !f.isFinal then .error .fragmentedControl
  else if 125 < f.payload.length then .error .longControl
  else
    match f.opcode with
    | .ping => .ok (.ping f.payload)
    | .pong => .ok .pong
    | _ => readClose f.payload

/-- Takes a frame and gives what it completes, with the message that is still incomplete. -/
def readFrame (incomplete : Option Fragments) (f : Frame) :
    Except ReadError (Option Received × Option Fragments) := do
  if f.reserved then throw .reserved
  if f.masked then throw .masked
  if f.opcode.isControl then return (some (← readControl f), incomplete)
  let soFar ←
    match f.opcode, incomplete with
    | .continuation, some m => pure m
    | .continuation, none => throw .unexpectedContinuation
    | opcode, some _ => throw (.expectedContinuation opcode)
    | opcode, none => pure ⟨opcode = .text, []⟩
  let m ← soFar.add f.payload
  if f.isFinal then return (some (← m.finish), none)
  else return (none, some m)

end AgentReply.Socket
