import AgentReply.Channel.Kind
import AgentReply.Text.Blank

/-!
# Session modes as users write them

Case and blanks around a mode do not matter, and each mode has other names.
-/

namespace AgentReply.Mode

/-- A text that names no mode, as it was compared. -/
structure Unknown where
  name : String
deriving DecidableEq, Repr

def Unknown.message (e : Unknown) : String :=
  s!"Unknown session mode '{e.name}' (expected events, socket or dual)"

def parse (text : String) : Except Unknown Mode :=
  match Text.lowered (Text.trimmed text) with
  | "events" | "sse" => .ok .events
  | "socket" | "ws" | "websocket" => .ok .socket
  | "dual" | "both" => .ok .dual
  | name => .error ⟨name⟩

end AgentReply.Mode
