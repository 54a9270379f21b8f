import AgentReply.Client.Basic
import AgentReply.Socket.Message

/-!
# Tasks of sockets

What is posted of a socket is up to a task, which also writes the texts that it is handed. It does one thing
at a time: it waits for the next report of the library that does the work on the network, for a text or for
its end, whichever is first, or for the inbox to take a signal, or for a text to be written. That it is
cancelled it notices only while it waits for a report.
-/

namespace AgentReply

namespace SocketTask

/-- What is reported of the opening of a socket, and then of the open socket. -/
inductive Report where
  | connected
  | unreachable (error : String)
  | message (message : Socket.Received)
  | failed (error : String)
  | ended
deriving DecidableEq, Repr

inductive Phase where
  | connecting
  | listening
  | posting (signal : Signal)
  | writing
  | closing
  | done
deriving DecidableEq, Repr

/-- What happens to a task. -/
inductive Move where
  /-- There is one more report, which waits until the task asks for it. -/
  | report (r : Report)
  /-- There is one more text to be sent. -/
  | hand (text : String)
  /-- The task is cancelled, but need not notice it yet. -/
  | cancel
  /-- The task goes on with the next report, if it waits for one. -/
  | poll
  /-- The task goes on with the next text, if it waits on an open socket. -/
  | write
  /-- The task notices that it is cancelled, if it waits for a report. -/
  | notice
  /-- The inbox takes the signal that is being posted. -/
  | taken
  /-- The inbox is gone, so the signal that is being posted is lost. -/
  | gone
  | written
  | unwritten (error : String)
  /-- The frame that closes the socket is out, or has taken too long. -/
  | closed
deriving DecidableEq, Repr

end SocketTask

structure SocketTask where
  phase : SocketTask.Phase := .connecting
  /-- The reports that the task has not asked for yet. -/
  ahead : List SocketTask.Report := []
  /-- The texts that are not being written yet. -/
  outbox : List String := []
  cancelled : Bool := false
deriving DecidableEq, Repr

namespace SocketTask

def textFrame (text : String) : Socket.Frame :=
  { opcode := .text, payload := Utf8.encode text.toList }

/-- What a task does next that waits for a report and gets it. A binary message counts as a text if it is
one, and else as nothing. -/
def hear : Phase → Report → Phase
  | .connecting, .connected => .posting .opened
  | .connecting, .unreachable error => .posting (.failed s!"Connect failed: {error}")
  | .listening, .message (.text text) => .posting (.frame text)
  | .listening, .message (.binary octets) =>
    match Utf8.decode? octets with
    | some text => .posting (.frame text)
    | none => .listening
  | .listening, .message .close => .posting .closed
  | .listening, .failed error => .posting (.failed s!"Socket error: {error}")
  | .listening, .ended => .posting .closed
  | phase, _ => phase

/-- What the library does by itself when a report is asked for: it answers pings. -/
def reply : Report → List Action
  | .message (.ping octets) => [.sendFrame { opcode := .pong, payload := octets }]
  | _ => []

/-- Whether a task waits for a report. -/
def Phase.isWaiting : Phase → Bool
  | .connecting | .listening => true
  | _ => false

def isDone (t : SocketTask) : Bool := t.phase == .done

def step (t : SocketTask) : Move → List Action × SocketTask
  | .report r => ([], { t with ahead := t.ahead ++ [r] })
  | .hand text => ([], { t with outbox := t.outbox ++ [text] })
  | .cancel => ([], { t with cancelled := true })
  | .poll =>
    match t.phase.isWaiting, t.ahead with
    | true, r :: ahead => (reply r, { t with phase := hear t.phase r, ahead := ahead })
    | _, _ => ([], t)
  | .write =>
    match t.phase, t.outbox with
    | .listening, text :: outbox =>
      ([.sendFrame (textFrame text)], { t with phase := .writing, outbox := outbox })
    | _, _ => ([], t)
  | .notice =>
    match t.cancelled, t.phase with
    | true, .connecting => ([], { t with phase := .done })
    | true, .listening => ([.sendFrame { opcode := .close }], { t with phase := .closing })
    | _, _ => ([], t)
  | .taken =>
    match t.phase with
    | .posting signal =>
      ([.post signal], { t with phase := if signal.isLast then .done else .listening })
    | _ => ([], t)
  | .gone =>
    match t.phase with
    | .posting _ => ([], { t with phase := .done })
    | _ => ([], t)
  | .written => ([], { t with phase := if t.phase = .writing then .listening else t.phase })
  | .unwritten error =>
    ([], { t with
      phase := if t.phase = .writing then .posting (.failed s!"Send failed: {error}") else t.phase })
  | .closed => ([], { t with phase := if t.phase = .closing then .done else t.phase })

def run (t : SocketTask) (moves : List Move) : List Action × SocketTask := stepAll step t moves

/-- Writes so many texts. The last of them may turn out not to have been written. -/
def flushing (count : Nat) : List Move := (List.replicate count [.written, .write]).flatten

def taking (takes : Bool) : Move := if takes then .taken else .gone

/-- What leads a task over a report: a text that was being written has been, the task takes the report,
posts what there is to be posted, and writes so many texts. -/
def hearing (takes : Bool) (count : Nat) (r : Report) : List Move :=
  [.written, .report r, .poll, taking takes] ++ flushing count

end SocketTask
end AgentReply
