import AgentReply.Client.Wire
import AgentReply.Watch.Basic
import AgentReply.Watch.Typed

/-!
# Wired watches

A watch with the wires of its transports. It is told what happens on the network, what the user types and
how time passes; it says what is to be written and what is to be done on the network.
-/

namespace AgentReply

/-- What is to be done for a watch. -/
inductive Effect where
  | write (written : Watch.Written)
  | perform (wire : WireId) (action : Action)
deriving DecidableEq, Repr

structure Endpoints where
  events : Option Url := none
  socket : Option Url := none
deriving DecidableEq, Repr

def Endpoints.url? (e : Endpoints) : ChannelKind → Option Url
  | .events => e.events
  | .socket => e.socket

structure WiredWatch where
  watch : Watch
  endpoints : Endpoints
  /-- The key with which the socket of a generation opens. -/
  keyOf : Nat → String
  wires : List Wire := []
  typed : Typed := .closed

namespace WiredWatch

def isOver (w : WiredWatch) : Bool := w.watch.outcome.isSome

def wire? (w : WiredWatch) (id : WireId) : Option Wire := w.wires.find? (·.id = id)

def putWire (w : WiredWatch) (wire : Wire) : WiredWatch :=
  { w with wires := w.wires.map fun other ↦ if other.id = wire.id then wire else other }

/-- Takes what a client wants: its signals go to the inbox. -/
def take (w : WiredWatch) (id : WireId) (actions : List Action) : List Effect × WiredWatch :=
  ((Wire.outward actions).map (.perform id),
    { w with watch := (Wire.eventsOf id actions).foldl Watch.post w.watch })

variable [Idna]

/-! ### Transports -/

/-- Sees to a transport: a new one gets a wire, and another one's wire learns what is new. -/
def attendTransport (w : WiredWatch) (kind : ChannelKind) (t : Transport) :
    List Effect × WiredWatch :=
  let id : WireId := ⟨kind, t.generation⟩
  match w.wire? id with
  | some wire =>
    let (actions, wire) := wire.attend t
    (w.putWire wire).take id actions
  | none =>
    match w.endpoints.url? kind, t.cancelled with
    | some url, false =>
      let wire : Wire := { id := id, client := Client.create kind url (w.keyOf t.generation) }
      { w with wires := w.wires ++ [wire] }.take id wire.client.start
    | _, _ => ([], w)

def attendChannel (w : WiredWatch) (kind : ChannelKind) : List Effect × WiredWatch :=
  stepAll (attendTransport · kind) w (((w.watch.session.channel? kind).map Channel.transports).getD [])

/-- Sees to all transports. -/
def attend (w : WiredWatch) : List Effect × WiredWatch :=
  stepAll attendChannel w w.watch.session.mode.channels

/-- Takes a step of the watch and sees to the transports. -/
def follow (w : WiredWatch) (step : List Watch.Written × Watch) : List Effect × WiredWatch :=
  let (effects, w) := { w with watch := step.2 }.attend
  (step.1.map .write ++ effects, w)

/-! ### Steps -/

/-- Handles at most so many events. -/
def handleEvents (w : WiredWatch) : Nat → List Effect × WiredWatch
  | 0 => ([], w)
  | limit + 1 =>
    let (effects, w) := w.follow w.watch.next
    let (more, w) := w.handleEvents limit
    (effects ++ more, w)

/-- Handles all events. An event that is handled leads at once to one more event at most, and that one,
which is a due retry, to none. -/
def settle (w : WiredWatch) : List Effect × WiredWatch :=
  w.handleEvents (2 * w.watch.live.inbox.pending.length)

/-- Begins: the first transports are opened. Typed lines are read if there is a socket for them. -/
def start (w : WiredWatch) : List Effect × WiredWatch :=
  let typed : Typed := if w.watch.session.mode.requires .socket then .reading [] else .closed
  { w with typed := typed }.attend

def stimulate (w : WiredWatch) (id : WireId) (s : Stimulus) : List Effect × WiredWatch :=
  match w.wire? id with
  | none => ([], w)
  | some wire =>
    let (actions, wire) := wire.step s
    let (effects, w) := (w.putWire wire).take id actions
    let (more, w) := w.settle
    (effects ++ more, w)

def typeLines (w : WiredWatch) (lines : List String) : List Effect × WiredWatch :=
  stepAll (fun w line ↦ w.follow (w.watch.type line)) w lines

def type (w : WiredWatch) (octets : List UInt8) : List Effect × WiredWatch :=
  let (lines, typed) := w.typed.feed octets
  { w with typed := typed }.typeLines lines

def endInput (w : WiredWatch) : List Effect × WiredWatch :=
  let (lines, typed) := w.typed.finish
  { w with typed := typed }.typeLines lines

def advance (w : WiredWatch) (span : Nat) : List Effect × WiredWatch :=
  let (effects, w) := w.follow (w.watch.advance span)
  let (more, w) := w.settle
  (effects ++ more, w)

end WiredWatch
end AgentReply
