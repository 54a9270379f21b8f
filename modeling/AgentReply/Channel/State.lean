import AgentReply.Channel.Error
import AgentReply.Channel.Signal
import AgentReply.Channel.Transport
import AgentReply.Channel.Watched
import AgentReply.Envelope.Message

/-!
# Channels

A channel holds at most one transport at a time. Connecting opens one and starts a new generation; events
that carry another generation, or that do not fit the phase, are dropped. So nothing that belongs to an
earlier connection gets through.
-/

namespace AgentReply

inductive Phase where
  | closed
  | connecting
  | opened
  | failed
deriving DecidableEq, Repr

namespace Phase

def name : Phase → String
  | .closed => "closed"
  | .connecting => "connecting"
  | .opened => "open"
  | .failed => "error"

/-- Whether a channel has a connection in a phase, or is about to have one. -/
def isLive : Phase → Bool
  | .connecting | .opened => true
  | .closed | .failed => false

/-- Whether a signal of the current connection counts in a phase. -/
def admits : Phase → Signal → Bool
  | .connecting, .opened => true
  | .opened, .frame _ => true
  | phase, .failed _ | phase, .closed => phase.isLive
  | .failed, .retryDue => true
  | _, _ => false

end Phase

def ChannelKind.sends : ChannelKind → Bool
  | .events => false
  | .socket => true

structure Status where
  kind : ChannelKind
  phase : Phase := .closed
  lastError : Option ChannelError := none
  canSend : Bool := false
deriving DecidableEq, Repr

/-- What an event means to a session. -/
inductive Output where
  | opened
  | message (message : Message)
  | malformed (error : ChannelError)
  | failed (error : ChannelError)
  | closed
  | retryDue
deriving DecidableEq, Repr

structure Channel where
  kind : ChannelKind
  /-- The types of envelopes that carry text. -/
  deltaTypes : List String := Message.standardDeltaTypes
  /-- The writer that each transport has at first. -/
  writer : Writer := .running
  generation : Nat := 0
  phase : Phase := .closed
  lastError : Option ChannelError := none
  /-- The transport of the current connection. -/
  held : Option Transport := none
  /-- The transports of earlier connections, in the order in which they were opened. -/
  released : List Transport := []
  watched : Watched Status := ⟨{ kind := kind }, 0⟩
deriving DecidableEq, Repr

namespace Channel

def status (c : Channel) : Status where
  kind := c.kind
  phase := c.phase
  lastError := c.lastError
  canSend := c.kind.sends && c.phase = .opened

/-- All transports, in the order in which they were opened. -/
def transports (c : Channel) : List Transport :=
  c.released ++ c.held.toList

def publish (c : Channel) : Channel :=
  { c with watched := c.watched.publish c.status }

def enter (c : Channel) (phase : Phase) : Channel :=
  { c with phase := phase }.publish

def release (c : Channel) : Channel :=
  { c with held := none, released := c.released ++ (c.held.map Transport.cancel).toList }

/-- Opens a transport, unless there is a connection already. -/
def connect (c : Channel) : Except ChannelError Unit × Channel :=
  if c.phase.isLive then (.error (.alreadyConnected c.kind), c)
  else
    let c := c.release
    let generation := c.generation + 1
    (.ok (), { c with
      generation := generation
      lastError := none
      held := some { generation := generation, writer := c.writer } }.enter .connecting)

/-- Ends the connection. The last error stays. -/
def disconnect (c : Channel) : Channel :=
  let c := c.release
  if c.phase = .closed then c
  else { c with generation := c.generation + 1 }.enter .closed

/-- Sends a message now or never: it is not kept for a later connection. -/
def send (c : Channel) (message : String) : Except ChannelError Unit × Channel :=
  if !c.kind.sends then (.error (.receiveOnly c.kind), c)
  else
    match c.phase, c.held with
    | .opened, some transport =>
      match transport.send message with
      | .ok transport => (.ok (), { c with held := some transport })
      | .error reason => (.error (.sendWhileDisconnected c.kind (some reason)), c)
    | _, _ => (.error (.sendWhileDisconnected c.kind none), c)

def event (c : Channel) (signal : Signal) : Event := ⟨c.kind, c.generation, signal⟩

def isCurrent (c : Channel) (e : Event) : Bool :=
  e.channel = c.kind && e.generation = c.generation

def receive (c : Channel) (frame : String) : Output × Channel :=
  match Message.decode c.deltaTypes frame with
  | .ok message => (.message message, c)
  | .error e =>
    let error := ChannelError.malformedFrame c.kind e.message frame
    (.malformed error, { c with lastError := some error }.publish)

def fail (c : Channel) (reason : String) : Output × Channel :=
  let error := ChannelError.transport c.kind reason
  (.failed error, { c.release with lastError := some error }.enter .failed)

def apply (c : Channel) : Signal → Output × Channel
  | .opened => (.opened, c.enter .opened)
  | .frame text => c.receive text
  | .failed reason => c.fail reason
  | .closed => (.closed, c.release.enter .closed)
  | .retryDue => (.retryDue, c)

/-- Takes an event. One that is stale or out of place has no output and changes nothing. -/
def accept (c : Channel) (e : Event) : Option Output × Channel :=
  if c.isCurrent e && c.phase.admits e.signal then
    let (output, c) := c.apply e.signal
    (some output, c)
  else (none, c)

end Channel
end AgentReply
