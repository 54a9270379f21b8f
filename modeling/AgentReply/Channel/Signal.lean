import AgentReply.Channel.Kind

/-!
# Signals

What a transport reports about its connection. A signal reaches the session as an event, which says for
which connection of which channel it was posted.
-/

namespace AgentReply

inductive Signal where
  | opened
  | frame (text : String)
  /-- The connection has failed and the transport has ended. -/
  | failed (reason : String)
  /-- The other side has closed the connection and the transport has ended. -/
  | closed
  /-- A scheduled attempt to connect again is due. -/
  | retryDue
deriving DecidableEq, Repr

/-- Whether a transport reports nothing after a signal. -/
def Signal.isLast : Signal → Bool
  | .failed _ | .closed => true
  | _ => false

structure Event where
  channel : ChannelKind
  /-- The number of the connection within its channel. -/
  generation : Nat
  signal : Signal
deriving DecidableEq, Repr

end AgentReply
