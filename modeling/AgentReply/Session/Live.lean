import AgentReply.Channel.Inbox
import AgentReply.Session.Basic

/-!
# Live sessions

A session together with the inbox that its transports and timers post to. A timer that is due at once
posts its event as soon as the event or call that started it is done.
-/

namespace AgentReply

structure LiveSession where
  session : Session
  inbox : Inbox := { capacity := Inbox.standardCapacity }

namespace LiveSession

/-- Lets time pass; what is due by then goes to the inbox. -/
def advance (l : LiveSession) (span : Nat) : LiveSession :=
  let (events, session) := l.session.advance span
  ⟨session, l.inbox.postAll events⟩

/-- Changes the session without time passing. -/
def update (l : LiveSession) (session : Session) : LiveSession :=
  { l with session := session }.advance 0

def post (l : LiveSession) (e : Event) : LiveSession :=
  { l with inbox := l.inbox.post e }

/-- Handles an event that has not been in the inbox. -/
def handle (l : LiveSession) (e : Event) : LiveSession :=
  l.update (l.session.handle e)

/-- Handles every event in the inbox. -/
def pump (l : LiveSession) : List Event × LiveSession :=
  let (events, inbox) := l.inbox.drain
  (events, { l with inbox := inbox }.update (l.session.handleAll events))

/-- Handles the first event in the inbox. -/
def step? (l : LiveSession) : Option (Event × LiveSession) :=
  l.inbox.take?.map fun (e, inbox) ↦ (e, { l with inbox := inbox }.handle e)

/-- Waits for an event no longer than `limit` and handles it; also gives the time that has passed. -/
def next (l : LiveSession) (limit : Nat) : Option Event × Nat × LiveSession :=
  let span :=
    if l.inbox.queue.isEmpty then min limit (l.session.nextDue?.getD limit) else 0
  let l := l.advance span
  match l.step? with
  | some (e, l) => (some e, span, l)
  | none => (none, span, l)

end LiveSession
end AgentReply
