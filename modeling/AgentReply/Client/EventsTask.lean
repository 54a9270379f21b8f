import AgentReply.Channel.EventStream
import AgentReply.Client.Basic
import AgentReply.Http.Status
import AgentReply.Text.Blank

/-!
# Tasks of event streams

What is posted of an event stream is up to a task. It waits for one thing at a time: for the next report of
the libraries that do the work on the network, or for the inbox to take a signal. It may be cancelled at
any time, also between two signals.
-/

namespace AgentReply

namespace EventsTask

/-- What is reported of a request for an event stream, and then of the stream. -/
inductive Report where
  | unanswered (error : String)
  | answered (status : Nat)
  /-- The text of a response without success, if it could be read. -/
  | body (text : Option String)
  | item (item : EventStream.Item)
  | broken (error : String)
  | ended
  /-- The reader of the stream has crashed, and the task with it. -/
  | crashed
deriving DecidableEq, Repr

inductive Phase where
  | requesting
  /-- There is a response, but without success; its body is read. -/
  | refused (status : Nat)
  | listening
  | posting (signal : Signal)
  | done
deriving DecidableEq, Repr

/-- What happens to a task. -/
inductive Move where
  /-- There is one more report, which waits until the task asks for it. -/
  | report (r : Report)
  /-- The task goes on with the next report, if it waits for one. -/
  | poll
  /-- The inbox takes the signal that is being posted. -/
  | taken
  /-- The inbox is gone, so the signal that is being posted is lost. -/
  | gone
  | cancel
deriving DecidableEq, Repr

end EventsTask

structure EventsTask where
  phase : EventsTask.Phase := .requesting
  /-- The reports that the task has not asked for yet. -/
  ahead : List EventsTask.Report := []
deriving DecidableEq, Repr

namespace EventsTask

def refusalText (status : Nat) (body : String) : String :=
  let first := s!"HTTP {Http.statusText status}"
  if body.isEmpty then first else s!"{first}: {Text.trimmed body}"

/-- What a task does next that waits for a report and gets it. Pings and items without a text are passed
over. -/
def hear : Phase → Report → Phase
  | .requesting, .unanswered error => .posting (.failed s!"Request failed: {error}")
  | .requesting, .answered status =>
    if Http.isSuccess status then .posting .opened else .refused status
  | .refused status, .body text => .posting (.failed (refusalText status (text.getD "")))
  | .listening, .item item =>
    if item.kind != "message" || Text.isBlankText item.data then .listening
    else .posting (.frame item.data)
  | .listening, .broken error => .posting (.failed s!"SSE stream error: {error}")
  | .listening, .ended => .posting .closed
  | .listening, .crashed => .done
  | phase, _ => phase

/-- Whether a task waits for a report. -/
def Phase.isWaiting : Phase → Bool
  | .requesting | .refused _ | .listening => true
  | _ => false

def isDone (t : EventsTask) : Bool := t.phase == .done

def step (t : EventsTask) : Move → List Action × EventsTask
  | .report r => ([], { t with ahead := t.ahead ++ [r] })
  | .poll =>
    match t.phase.isWaiting, t.ahead with
    | true, r :: ahead => ([], ⟨hear t.phase r, ahead⟩)
    | _, _ => ([], t)
  | .taken =>
    match t.phase with
    | .posting signal =>
      ([.post signal], { t with phase := if signal.isLast then .done else .listening })
    | _ => ([], t)
  | .gone =>
    match t.phase with
    | .posting _ => ([], { t with phase := .done })
    | _ => ([], t)
  | .cancel => ([], { t with phase := .done })

def run (t : EventsTask) (moves : List Move) : List Action × EventsTask := stepAll step t moves

/-- What leads a task over a report that comes while it waits: it takes the report and posts what there is
to be posted. -/
def hearing (takes : Bool) (r : Report) : List Move :=
  [.report r, .poll, if takes then .taken else .gone]

end EventsTask
end AgentReply
