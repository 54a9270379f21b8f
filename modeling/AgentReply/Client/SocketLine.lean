import AgentReply.Client.SocketTask
import AgentReply.Socket.Handshake

/-!
# Lines of sockets

The work on the network for the task of a socket. The socket is opened by a handshake, and what arrives is
taken apart. How it goes is reported to the task.
-/

namespace AgentReply

namespace SocketLine

inductive Phase where
  | dialing
  /-- Some of the response has arrived. -/
  | handshake (held : List UInt8)
  /-- Some of the next frame has arrived. -/
  | opened (held : List UInt8) (incomplete : Option Socket.Fragments)
  | over

end SocketLine

structure SocketLine where
  url : Url
  key : String
  phase : SocketLine.Phase := .dialing

namespace SocketLine

open SocketTask (Report)

/-- What a line asks for, what it reports, and how it goes on. -/
structure Turn where
  actions : List Action := []
  reports : List Report := []
  line : SocketLine

/-- Reports something and goes on with a phase. -/
def tell (l : SocketLine) (reports : List Report) (phase : Phase) : Turn :=
  { reports := reports, line := { l with phase := phase } }

/-- Takes frames, and in the end what is left of what has arrived. -/
def readFrames (l : SocketLine) (incomplete : Option Socket.Fragments)
    (arrived : Socket.Frame.Arrived) : List Socket.Frame → Turn
  | [] =>
    match arrived.error with
    | some e => l.tell [.failed e.toReadError.message] .over
    | none => l.tell [] (.opened arrived.rest incomplete)
  | frame :: frames =>
    match Socket.readFrame incomplete frame with
    | .error e => l.tell [.failed e.message] .over
    | .ok (some .close, _) => l.tell [.message .close] .over
    | .ok (received, incomplete) =>
      let turn := l.readFrames incomplete arrived frames
      { turn with reports := received.toList.map .message ++ turn.reports }

def read (l : SocketLine) (incomplete : Option Socket.Fragments) (s : List UInt8) : Turn :=
  let arrived := Socket.Frame.readAll s
  l.readFrames incomplete arrived arrived.frames

def failOpening (l : SocketLine) (e : Socket.HandshakeError) : Turn :=
  l.tell [.unreachable e.message] .over

def shakeHands (l : SocketLine) (s : List UInt8) : Turn :=
  match Http.Head.read Socket.maxFields s with
  | .error e => l.failOpening (.malformed e)
  | .ok none => l.tell [] (.handshake s)
  | .ok (some (h, rest)) =>
    match Socket.checkHead l.key h with
    | .error e => l.failOpening e
    | .ok () =>
      let turn := l.read none rest
      { turn with reports := .connected :: turn.reports }

def finish (l : SocketLine) : Turn :=
  match l.phase with
  | .dialing | .handshake _ => l.failOpening .unfinished
  | .opened _ _ => l.tell [.failed Socket.ReadError.reset.message] .over
  | .over => { line := l }

def lose (l : SocketLine) (reason : String) : Turn :=
  match l.phase with
  | .dialing | .handshake _ => l.tell [.unreachable s!"IO error: {reason}"] .over
  | .opened _ _ => l.tell [.failed s!"IO error: {reason}"] .over
  | .over => { line := l }

def step (l : SocketLine) : Stimulus → Turn
  | .connected =>
    match l.phase with
    | .dialing =>
      { actions := [.transmit (Http.octetsOf (Socket.request l.url l.key))]
        line := { l with phase := .handshake [] } }
    | _ => { line := l }
  | .unreachable reason =>
    match l.phase with
    | .dialing => l.lose reason
    | _ => { line := l }
  | .arrived octets =>
    match l.phase with
    | .dialing | .over => { line := l }
    | .handshake held => l.shakeHands (held ++ octets)
    | .opened held incomplete => l.read incomplete (held ++ octets)
  | .ended => l.finish
  | .lost reason | .unsent reason => l.lose reason
  | .message _ => { line := l }
  | .cancelled => l.tell [] .over

end SocketLine
end AgentReply
