import AgentReply.Channel.Signal

/-!
# Inboxes

Events wait in an inbox until they are handled. An inbox holds a limited number of events; those posted
beyond that wait in front of it and move in, in order, when there is room.
-/

namespace AgentReply

structure Inbox where
  capacity : Nat
  queue : List Event := []
  /-- The events for which there was no room. -/
  waiting : List Event := []
deriving DecidableEq, Repr

namespace Inbox

def standardCapacity : Nat := 128

def isFull (i : Inbox) : Bool := i.capacity ≤ i.queue.length + i.waiting.length

/-- Lets waiting events in as far as there is room. -/
def refill (i : Inbox) : Inbox :=
  let room := i.capacity - i.queue.length
  { i with queue := i.queue ++ i.waiting.take room, waiting := i.waiting.drop room }

def post (i : Inbox) (e : Event) : Inbox :=
  { i with waiting := i.waiting ++ [e] }.refill

def postAll (i : Inbox) (events : List Event) : Inbox :=
  events.foldl post i

def take? (i : Inbox) : Option (Event × Inbox) :=
  match i.queue with
  | [] => none
  | e :: queue => some (e, { i with queue := queue }.refill)

/-- Takes all events that are inside; those that wait move in afterwards. -/
def drain (i : Inbox) : List Event × Inbox :=
  (i.queue, { i with queue := [] }.refill)

def pending (i : Inbox) : List Event := i.queue ++ i.waiting

@[simp] theorem pending_refill (i : Inbox) : i.refill.pending = i.pending := by
  simp [refill, pending]

@[simp] theorem pending_post (i : Inbox) (e : Event) : (i.post e).pending = i.pending ++ [e] := by
  rw [post, pending_refill, pending, pending, List.append_assoc]

end Inbox
end AgentReply
