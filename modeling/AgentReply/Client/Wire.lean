import AgentReply.Channel.State
import AgentReply.Client.Any

/-!
# Wires

A wire is a client at work for a transport of a channel. It learns from the transport which messages are
to be sent and when to end, and its signals become events of the channel.
-/

namespace AgentReply

structure WireId where
  channel : ChannelKind
  generation : Nat
deriving DecidableEq, Repr

structure Wire where
  id : WireId
  client : Client
  /-- How many messages of the transport the client has been given. -/
  given : Nat := 0

namespace Wire

def eventsOf (id : WireId) (actions : List Action) : List Event :=
  actions.filterMap fun a ↦ a.signal?.map fun signal ↦ ⟨id.channel, id.generation, signal⟩

def outward (actions : List Action) : List Action :=
  actions.filter (·.signal?.isNone)

def step [Idna] (w : Wire) (s : Stimulus) : List Action × Wire :=
  let (actions, client) := w.client.step true s
  (actions, { w with client := client })

/-- What the client has not learned yet from its transport. -/
def news (w : Wire) (t : Transport) : List Stimulus :=
  (t.sent.drop w.given).map .message ++ if t.cancelled then [.cancelled] else []

def attend [Idna] (w : Wire) (t : Transport) : List Action × Wire :=
  stepAll step { w with given := t.sent.length } (w.news t)

end Wire
end AgentReply
