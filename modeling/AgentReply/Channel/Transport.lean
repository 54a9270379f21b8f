/-!
# Transports

A transport is one connection of a channel, as its owner knows it: the owner may hand messages to its
writer and may cancel it.
-/

namespace AgentReply

/-- The side of a transport that sends. -/
inductive Writer where
  /-- The transport only receives. -/
  | absent
  | running
  /-- The transport has ended by itself. -/
  | stopped
deriving DecidableEq, Repr

structure Transport where
  /-- The number of the connection within its channel. -/
  generation : Nat
  writer : Writer := .running
  cancelled : Bool := false
  /-- The messages handed to the writer, in order. -/
  sent : List String := []
deriving DecidableEq, Repr

namespace Transport

/-- Hands a message to the writer, or says why that is not possible. -/
def send (t : Transport) (message : String) : Except String Transport :=
  match t.writer with
  | .absent => .error "transport is receive-only"
  | .stopped => .error "transport task has stopped: channel closed"
  | .running => .ok { t with sent := t.sent ++ [message] }

def cancel (t : Transport) : Transport := { t with cancelled := true }

def stop (t : Transport) : Transport :=
  { t with writer := if t.writer = .running then .stopped else t.writer }

@[simp] theorem generation_cancel (t : Transport) : t.cancel.generation = t.generation := rfl

@[simp] theorem cancelled_cancel (t : Transport) : t.cancel.cancelled = true := rfl

@[simp] theorem sent_cancel (t : Transport) : t.cancel.sent = t.sent := rfl

end Transport
end AgentReply
