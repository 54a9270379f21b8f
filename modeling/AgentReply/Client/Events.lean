import AgentReply.Client.Fetch

/-!
# Clients of event streams

A task of an event stream with the work on the network that is done for it. The connection is given up when
the task is done.
-/

namespace AgentReply

structure EventsClient where
  fetch : Fetch
  task : EventsTask := {}

namespace EventsClient

def isDone (c : EventsClient) : Bool := c.task.isDone

/-- Lets something happen. The signals are taken, or else nobody takes them any more. -/
def step [Idna] (takes : Bool) (c : EventsClient) (s : Stimulus) : List Action × EventsClient :=
  if c.isDone then ([], c)
  else
    let turn := c.fetch.step s
    let moves := turn.reports.flatMap (EventsTask.hearing takes)
    let (posts, task) := c.task.run (if s = .cancelled then [.cancel] else moves)
    (turn.actions ++ posts ++ if task.isDone then [.hangUp] else [], ⟨turn.fetch, task⟩)

end EventsClient
end AgentReply
