import AgentReply.Client.Basic
import AgentReply.Text.Utf8

/-!
# Servers

The other side of the connections of some clients, as a value: what a conversation leads to can be
computed and reasoned about. A server accepts one connection after the other, in the order in which they
were asked for, and sees what is sent on the one that it accepted last.
-/

namespace AgentReply

/-- A piece of what a client sends. -/
inductive Sent where
  | octets (octets : List UInt8)
  | frame (frame : Socket.Frame)
deriving DecidableEq, Repr

structure Server (ι : Type) where
  /-- The clients that wait for a connection. -/
  waiting : List ι := []
  /-- The client of the connection that was accepted last. -/
  client : Option ι := none
  /-- Whether that client has not ended the connection. -/
  isLive : Bool := false
  /-- What has been sent on the connection and is not taken yet. -/
  sent : List Sent := []
deriving DecidableEq, Repr

namespace Server

variable {ι : Type} [DecidableEq ι]

/-- Whether the present connection is one of a client, which has not ended it. -/
def serves (s : Server ι) (client : ι) : Bool := s.client = some client && s.isLive

def add (s : Server ι) (client : ι) (piece : Sent) : Server ι :=
  if s.serves client then { s with sent := s.sent ++ [piece] } else s

def observe (s : Server ι) (client : ι) : Action → Server ι
  | .dial _ => { s with waiting := s.waiting ++ [client] }
  | .transmit octets => s.add client (.octets octets)
  | .sendFrame frame => s.add client (.frame frame)
  | .hangUp => if s.serves client then { s with isLive := false } else s
  | .post _ => s

def accept? (s : Server ι) : Option (ι × Server ι) :=
  match s.waiting with
  | [] => none
  | client :: waiting =>
    some (client, { waiting := waiting, client := some client, isLive := true, sent := [] })

def takeOctets (s : Server ι) : List UInt8 × Server ι :=
  let octetsOf : Sent → List UInt8
    | .octets octets => octets
    | .frame _ => []
  (s.sent.flatMap octetsOf, { s with sent := [] })

/-- Takes the first frame that has been sent and what stands before it. -/
def takeFrame? (s : Server ι) : Option (Socket.Frame × Server ι) :=
  let rec first : List Sent → Option (Socket.Frame × List Sent)
    | [] => none
    | .octets _ :: sent => first sent
    | .frame frame :: sent => some (frame, sent)
  (first s.sent).map fun (frame, sent) ↦ (frame, { s with sent := sent })

end Server
end AgentReply
