import AgentReply.Channel.Backoff
import AgentReply.Channel.State
import AgentReply.Reply.Turn
import AgentReply.Session.Notice

/-!
# Sessions

A session keeps the channels that its mode needs, connects failed ones again and gathers the reply from
the messages of all of them. All that happens, happens while it handles an event or a call.

Time is the number of milliseconds since the session was made. It moves only when the session is told so.
-/

namespace AgentReply

/-- An event that is posted later. -/
structure Timer where
  due : Nat
  event : Event
deriving DecidableEq, Repr

/-- Adds a timer behind those that are due no later. -/
def Timer.insert (t : Timer) : List Timer → List Timer
  | [] => [t]
  | u :: timers => if t.due < u.due then t :: u :: timers else u :: insert t timers

structure Link where
  channel : Channel
  /-- The failures since the channel was last connected, disconnected or open. -/
  attempts : Nat := 0
deriving DecidableEq, Repr

namespace Session

structure Options where
  vocabulary : Vocabulary := .standard
  deltaTypes : List String := Message.standardDeltaTypes
  policy : RetryPolicy := Backoff.standard

/-- A channel that a mode needs and for which no connector is given. -/
structure MissingConnector where
  mode : Mode
  kind : ChannelKind
deriving DecidableEq, Repr

def MissingConnector.message (e : MissingConnector) : String :=
  s!"A {e.mode.name} session needs a {e.kind.name} connector"

end Session

structure Session where
  mode : Mode
  vocabulary : Vocabulary
  policy : RetryPolicy
  events : Option Link
  socket : Option Link
  assembly : Assembly := {}
  /-- Whether the current turn has received anything. -/
  turnStarted : Bool := false
  snapshot : Watched Turn := ⟨({} : Assembly).turn, 0⟩
  connected : Watched Bool := ⟨false, 0⟩
  /-- The notices that nobody has taken yet. -/
  notices : List Notice := []
  now : Nat := 0
  /-- The timers that are running, the next one first. -/
  timers : List Timer := []

namespace Session

/-- A session with the channels that its mode needs. -/
def ofMode (mode : Mode) (o : Options) : Session :=
  let link (kind : ChannelKind) : Option Link :=
    if mode.requires kind then some ⟨{ kind := kind, deltaTypes := o.deltaTypes }, 0⟩ else none
  { mode := mode
    vocabulary := o.vocabulary
    policy := o.policy
    events := link .events
    socket := link .socket }

/-- Makes a session; connectors are given for some kinds of channels. -/
def create (mode : Mode) (connectors : List ChannelKind) (o : Options) :
    Except MissingConnector Session :=
  match mode.channels.find? fun kind ↦ !connectors.contains kind with
  | some kind => .error ⟨mode, kind⟩
  | none => .ok (ofMode mode o)

def link? (s : Session) : ChannelKind → Option Link
  | .events => s.events
  | .socket => s.socket

def channel? (s : Session) (kind : ChannelKind) : Option Channel :=
  (s.link? kind).map Link.channel

def put (s : Session) (kind : ChannelKind) (link : Link) : Session :=
  match kind with
  | .events => { s with events := some link }
  | .socket => { s with socket := some link }

def modify (s : Session) (kind : ChannelKind) (change : Link → Link) : Session :=
  match s.link? kind with
  | some link => s.put kind (change link)
  | none => s

def isOpen (s : Session) (kind : ChannelKind) : Bool :=
  (s.channel? kind).any fun c ↦ c.phase = .opened

/-- Whether every channel that the mode needs is open. -/
def isConnected (s : Session) : Bool :=
  s.mode.channels.all s.isOpen

def refreshConnected (s : Session) : Session :=
  { s with connected := s.connected.update s.isConnected }

def notify (s : Session) (n : Notice) : Session :=
  { s with notices := s.notices ++ [n] }

def publish (s : Session) : Session :=
  { s with snapshot := s.snapshot.update s.assembly.turn }

/-! ### Calls -/

/-- Connects one channel, if the session has it; counting its failures starts anew. -/
def connectChannel (s : Session) (kind : ChannelKind) :
    Option (Except ChannelError Unit) × Session :=
  match s.link? kind with
  | none => (none, s)
  | some link =>
    match link.channel.connect with
    | (.ok (), channel) => (some (.ok ()), s.put kind ⟨channel, 0⟩)
    | (.error e, channel) => (some (.error e), s.put kind { link with channel := channel })

def connectChannels (s : Session) :
    (kinds : List ChannelKind) → List (Except ChannelError Unit) × Session
  | [] => ([], s)
  | kind :: kinds =>
    let (result, s) := s.connectChannel kind
    let (results, s) := s.connectChannels kinds
    (result.toList ++ results, s)

/-- Connects every channel that is closed or failed; an error if there is none. -/
def connect (s : Session) : Except ChannelError Unit × Session :=
  let (results, s) := s.connectChannels s.mode.channels
  let result := if results.any Except.isOk then .ok () else results.getLastD (.ok ())
  (result, s.refreshConnected)

/-- Disconnects every channel. Timers go on running, but their events are stale now. -/
def disconnect (s : Session) : Session :=
  let off (link : Link) : Link := ⟨link.channel.disconnect, 0⟩
  { s with events := s.events.map off, socket := s.socket.map off }.refreshConnected

def send (s : Session) (message : String) : Except ChannelError Unit × Session :=
  match s.socket with
  | none =>
    let details := s!"{s.mode.name} session has no socket channel"
    (.error (.sendWhileDisconnected .socket (some details)), s)
  | some link =>
    let (result, channel) := link.channel.send message
    (result, s.put .socket { link with channel := channel })

/-! ### Messages -/

/-- Whether a text with the id of a turn, if it has one, starts a turn. -/
def startsTurn (s : Session) (turn : Option String) : Bool :=
  !s.turnStarted || s.assembly.turn.complete || turn.any fun id ↦ s.assembly.turn.id ≠ .sent id

def ensureTurn (s : Session) (turn : Option String) : Session :=
  if s.startsTurn turn then { s with assembly := s.assembly.begin turn, turnStarted := true }
  else s

def appendText (s : Session) (turn : Option String) (text : String) : Session :=
  let s := s.ensureTurn turn
  { s with assembly := s.assembly.append s.vocabulary text }

def completeTurn (s : Session) : Session :=
  { s with assembly := s.assembly.markComplete }

/-- Takes a message. The end of a turn without text ends the current turn, whatever turn it names. -/
def dispatch (s : Session) : Message → Session
  | .delta turn text => (s.appendText turn text).publish
  | .complete turn (some text) => (s.appendText turn text).completeTurn.publish
  | .complete _ none => if s.assembly.turn.complete then s else s.completeTurn.publish
  | .remoteError envelope => s.notify (.remoteError envelope)
  | .control envelope => s.notify (.control envelope)

/-! ### Events -/

/-- Starts the timer of the next attempt to connect a failed channel, or gives up. -/
def scheduleRetry (s : Session) (kind : ChannelKind) : Session :=
  match s.link? kind with
  | none => s
  | some link =>
    let attempt := link.attempts + 1
    let s := s.put kind { link with attempts := attempt }
    match s.policy.delay? attempt with
    | none => s.notify (.reconnectExhausted kind (attempt - 1))
    | some delay =>
      let timer : Timer := ⟨s.now + delay, link.channel.event .retryDue⟩
      { s with timers := timer.insert s.timers }.notify (.reconnectScheduled kind attempt delay)

/-- Does what the output of a channel asks for. -/
def react (s : Session) (kind : ChannelKind) : Output → Session
  | .opened => (s.modify kind fun link ↦ { link with attempts := 0 }).refreshConnected
  | .message message => s.dispatch message
  | .malformed error => s.notify (.channelError error)
  | .failed error => (s.notify (.channelError error)).refreshConnected.scheduleRetry kind
  | .closed => (s.notify (.channelClosed kind)).refreshConnected
  | .retryDue =>
    (s.modify kind fun link ↦ { link with channel := link.channel.connect.2 }).refreshConnected

def handle (s : Session) (e : Event) : Session :=
  match s.link? e.channel with
  | none => s
  | some link =>
    match link.channel.accept e with
    | (none, _) => s
    | (some output, channel) =>
      (s.put e.channel { link with channel := channel }).react e.channel output

def handleAll (s : Session) (events : List Event) : Session :=
  events.foldl handle s

/-! ### Time -/

/-- Lets time pass and gives the events that are due by then. -/
def advance (s : Session) (span : Nat) : List Event × Session :=
  let now := s.now + span
  ((s.timers.takeWhile (·.due ≤ now)).map Timer.event,
    { s with now := now, timers := s.timers.dropWhile (·.due ≤ now) })

/-- The time until the next timer is due. -/
def nextDue? (s : Session) : Option Nat :=
  s.timers.head?.map (·.due - s.now)

/-! ### Notices -/

/-- The number of notices that are kept for those who do not take them. -/
def noticeCapacity : Nat := 64

/-- Takes the notices: how many of them are lost, and the others. -/
def takeNotices (s : Session) : (Nat × List Notice) × Session :=
  let lost := s.notices.length - noticeCapacity
  ((lost, s.notices.drop lost), { s with notices := [] })

end Session
end AgentReply
