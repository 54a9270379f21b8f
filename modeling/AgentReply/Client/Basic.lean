import AgentReply.Channel.Signal
import AgentReply.Socket.Frame
import AgentReply.Url.Basic

/-!
# Clients

A client looks after one transport. It does nothing by itself: it is told what happens to its connection
and says what is to be done, in order.
-/

namespace AgentReply

inductive Stimulus where
  | connected
  | unreachable (reason : String)
  | arrived (octets : List UInt8)
  /-- The other side has ended the connection. -/
  | ended
  | lost (reason : String)
  | unsent (reason : String)
  /-- The owner of the transport wants a text to be sent. -/
  | message (text : String)
  /-- The owner of the transport has released it. -/
  | cancelled
deriving DecidableEq, Repr

inductive Action where
  | dial (url : Url)
  | transmit (octets : List UInt8)
  | sendFrame (frame : Socket.Frame)
  | post (signal : Signal)
  | hangUp
deriving DecidableEq, Repr

namespace Action

def signal? : Action → Option Signal
  | .post signal => some signal
  | _ => none

/-- The signals that are posted, in order. -/
def signals (actions : List Action) : List Signal := actions.filterMap signal?

@[simp] theorem signals_nil : signals [] = [] := rfl

@[simp] theorem signals_post (signal : Signal) (actions : List Action) :
    signals (.post signal :: actions) = signal :: signals actions := rfl

@[simp] theorem signals_sendFrame (frame : Socket.Frame) (actions : List Action) :
    signals (.sendFrame frame :: actions) = signals actions := rfl

@[simp] theorem signals_append (actions more : List Action) :
    signals (actions ++ more) = signals actions ++ signals more := List.filterMap_append

end Action

/-- Takes steps one after the other and gathers what they ask for. -/
def stepAll {α β γ : Type} (step : α → β → List γ × α) (a : α) : List β → List γ × α
  | [] => ([], a)
  | b :: rest =>
    let (actions, a) := step a b
    let (more, a) := stepAll step a rest
    (actions ++ more, a)

section

variable {α β γ : Type} (step : α → β → List γ × α) (a : α)

@[simp] theorem stepAll_nil : stepAll step a [] = ([], a) := rfl

theorem stepAll_cons (b : β) (rest : List β) : stepAll step a (b :: rest) =
    ((step a b).1 ++ (stepAll step (step a b).2 rest).1, (stepAll step (step a b).2 rest).2) := rfl

theorem stepAll_append (before after : List β) : stepAll step a (before ++ after) =
    ((stepAll step a before).1 ++ (stepAll step (stepAll step a before).2 after).1,
      (stepAll step (stepAll step a before).2 after).2) := by
  induction before generalizing a with
  | nil => rfl
  | cons b before ih => rw [List.cons_append, stepAll_cons, stepAll_cons, ih, List.append_assoc]

end

end AgentReply
