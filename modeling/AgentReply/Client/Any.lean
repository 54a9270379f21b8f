import AgentReply.Client.Events
import AgentReply.Client.Socket

/-!
# Clients of either kind

A client of an event stream or of a socket, as whoever runs it sees it.
-/

namespace AgentReply

inductive Client where
  | events (client : EventsClient)
  | socket (client : SocketClient)

namespace Client

def create (kind : ChannelKind) (url : Url) (key : String) : Client :=
  match kind with
  | .events => .events { fetch := { url := url } }
  | .socket => .socket { line := { url := url, key := key } }

def url : Client → Url
  | .events c => c.fetch.url
  | .socket c => c.line.url

def start (c : Client) : List Action := [.dial c.url]

/-- Lets something happen. The signals are taken, or else nobody takes them any more. -/
def step [Idna] (takes : Bool) (c : Client) (s : Stimulus) : List Action × Client :=
  match c with
  | .events c => let (actions, c) := c.step takes s; (actions, .events c)
  | .socket c => let (actions, c) := c.step takes s; (actions, .socket c)

def isDone : Client → Bool
  | .events c => c.isDone
  | .socket c => c.isDone

end Client
end AgentReply
