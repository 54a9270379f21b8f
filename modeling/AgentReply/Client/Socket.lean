import AgentReply.Client.SocketLine

/-!
# Clients of sockets

A task of a socket with the work on the network that is done for it. Texts that come before the socket is
open wait until it is. The connection is given up when the task is done.
-/

namespace AgentReply

structure SocketClient where
  line : SocketLine
  task : SocketTask := {}

namespace SocketClient

def isDone (c : SocketClient) : Bool := c.task.isDone

/-- What something leads to that does not come from the other side. -/
def movesOf (takes : Bool) : Stimulus → List SocketTask.Move
  | .message text => [.hand text, .written, .write]
  | .unsent reason => [.unwritten s!"IO error: {reason}", SocketTask.taking takes]
  | .cancelled => [.written, .cancel, .notice, .closed]
  | _ => []

/-- Lets something happen. The signals are taken, or else nobody takes them any more. -/
def step (takes : Bool) (c : SocketClient) (s : Stimulus) : List Action × SocketClient :=
  if c.isDone then ([], c)
  else
    let turn := c.line.step s
    let heard := turn.reports.flatMap (SocketTask.hearing takes c.task.outbox.length)
    let (actions, task) := c.task.run (movesOf takes s ++ heard)
    (turn.actions ++ actions ++ if task.isDone then [.hangUp] else [], ⟨turn.line, task⟩)

end SocketClient
end AgentReply
