/-!
# Kinds of channels and session modes

A session talks to the backend over an event stream, which only receives, over a socket, or over both.
-/

namespace AgentReply

inductive ChannelKind where
  | events
  | socket
deriving DecidableEq, Repr

namespace ChannelKind

def name : ChannelKind → String
  | .events => "events"
  | .socket => "socket"

def ofName? : String → Option ChannelKind
  | "events" => some .events
  | "socket" => some .socket
  | _ => none

@[simp] theorem ofName?_name (k : ChannelKind) : ofName? k.name = some k := by
  cases k <;> rfl

end ChannelKind

/-- The channels that a session needs. -/
inductive Mode where
  | events
  | socket
  | dual
deriving DecidableEq, Repr

namespace Mode

def name : Mode → String
  | .events => "events"
  | .socket => "socket"
  | .dual => "dual"

def ofName? : String → Option Mode
  | "events" => some .events
  | "socket" => some .socket
  | "dual" => some .dual
  | _ => none

/-- The channels of a mode, in the order in which they are connected. -/
def channels : Mode → List ChannelKind
  | .events => [.events]
  | .socket => [.socket]
  | .dual => [.events, .socket]

def requires (m : Mode) (k : ChannelKind) : Bool := m.channels.contains k

@[simp] theorem ofName?_name (m : Mode) : ofName? m.name = some m := by
  cases m <;> rfl

end Mode
end AgentReply
