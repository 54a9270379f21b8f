import AgentReply.Proofs.Session.Links
import AgentReply.Session.Live
import Mathlib.Data.List.Perm.Basic

/-!
# Runs of a live session

A live session is given what its transports post, and its timers post too; between this and that the user
makes calls. A timer may be late by any time, so the orders in which events reach the session are all
orders. What a step does to the session is one action of the session at most, and no event is lost: it
runs with a timer or waits in the inbox until it is handled.
-/

namespace AgentReply
namespace LiveSession

/-- Something that happens to a live session. Only its timers post events that say that a retry is due. -/
inductive Action where
  | post (e : Event) (h : e.signal ≠ .retryDue)
  /-- An event is handled that was not in the inbox. -/
  | handle (e : Event) (h : e.signal ≠ .retryDue)
  | next
  | advance (span : Nat)
  /-- A timer is late. -/
  | defer (index span : Nat)
  | connect
  | disconnect
  | send (message : String)
  | takeNotices

def deferred (timers : List Timer) (index span : Nat) : List Timer :=
  match timers[index]? with
  | some t => Timer.insert { t with due := t.due + span } (timers.eraseIdx index)
  | none => timers

def perform (l : LiveSession) : Action → LiveSession
  | .post e _ => l.post e
  | .handle e _ => l.handle e
  | .next => (l.step?.map Prod.snd).getD l
  | .advance span => l.advance span
  | .defer index span =>
    { l with session := { l.session with timers := deferred l.session.timers index span } }
  | .connect => l.update l.session.connect.2
  | .disconnect => l.update l.session.disconnect
  | .send message => l.update (l.session.send message).2
  | .takeNotices => l.update l.session.takeNotices.2

def run (l : LiveSession) (actions : List Action) : LiveSession := actions.foldl perform l

/-- What a step asks of the session. -/
def call? (l : LiveSession) : Action → Option Session.Action
  | .handle e _ => some (.handle e)
  | .next => l.inbox.queue.head?.map .handle
  | .connect => some .connect
  | .disconnect => some .disconnect
  | .send message => some (.send message)
  | .takeNotices => some .takeNotices
  | .post _ _ | .advance _ | .defer _ _ => none

def linkAfter (l : LiveSession) (a : Action) (link : Link) : Link :=
  match l.call? a with
  | some b => link.after b
  | none => link

/-- The event that a step hands to the session. -/
def taken? (l : LiveSession) (a : Action) : Option Event :=
  match l.call? a with
  | some (.handle e) => some e
  | _ => none

/-- The events that are yet to be handled: those of the timers that run, and those in the inbox. -/
def undelivered (l : LiveSession) : List Event :=
  l.session.timers.map Timer.event ++ l.inbox.pending

variable {l : LiveSession} {a : Action} {actions : List Action} {k : ChannelKind}
  {deltaTypes : List String}

theorem failed_ne_retryDue (reason : String) : Signal.failed reason ≠ .retryDue := by
  rintro ⟨⟩

@[simp] theorem run_nil (l : LiveSession) : l.run [] = l := rfl

@[simp] theorem run_cons (l : LiveSession) (a : Action) (actions : List Action) :
    l.run (a :: actions) = (l.perform a).run actions := rfl

@[simp] theorem run_append (l : LiveSession) (xs ys : List Action) :
    l.run (xs ++ ys) = (l.run xs).run ys :=
  List.foldl_append

theorem taken?_eq_some_iff {e : Event} : l.taken? a = some e ↔ l.call? a = some (.handle e) := by
  unfold taken?
  split <;> simp_all

/-! ### The session -/

/-- A step that asks something of the session changes it as this action does, up to the timers that are
due; any other changes no more than timers and time. -/
theorem session_perform (l : LiveSession) (a : Action) :
    (∃ b, l.call? a = some b ∧ (l.perform a).session = (l.session.perform b).perform (.wait 0)) ∨
      l.call? a = none ∧
        ∃ timers now, (l.perform a).session = { l.session with timers := timers, now := now } := by
  cases a with
  | post e h => exact .inr ⟨rfl, _, _, rfl⟩
  | handle e h => exact .inl ⟨_, rfl, rfl⟩
  | next =>
    cases hqueue : l.inbox.queue with
    | nil =>
      have hsame : l.perform .next = l := by simp [perform, step?, Inbox.take?, hqueue]
      exact .inr ⟨by simp [call?, hqueue], l.session.timers, l.session.now, by rw [hsame]⟩
    | cons e queue =>
      refine .inl ⟨.handle e, by simp [call?, hqueue], ?_⟩
      simp only [perform, step?, Inbox.take?, hqueue]
      rfl
  | advance span => exact .inr ⟨rfl, _, _, rfl⟩
  | defer index span => exact .inr ⟨rfl, _, _, rfl⟩
  | connect => exact .inl ⟨_, rfl, rfl⟩
  | disconnect => exact .inl ⟨_, rfl, rfl⟩
  | send message => exact .inl ⟨_, rfl, rfl⟩
  | takeNotices => exact .inl ⟨_, rfl, rfl⟩

theorem link?_of_timers (s : Session) (timers : List Timer) (now : Nat) :
    ({ s with timers := timers, now := now } : Session).link? k = s.link? k := by
  cases k <;> rfl

theorem link?_perform (h : l.session.IsWired deltaTypes) (a : Action) :
    (l.perform a).session.link? k = (l.session.link? k).map (l.linkAfter a) := by
  rcases session_perform l a with ⟨b, hcall, hsession⟩ | ⟨hcall, timers, now, hsession⟩
  · have hafter : l.linkAfter a = fun link ↦ link.after b := by
      funext link
      rw [linkAfter, hcall]
    rw [hsession, hafter, Session.link?_perform (h.perform b), Session.link?_perform h, Option.map_map]
    rfl
  · have hafter : l.linkAfter a = id := by
      funext link
      rw [linkAfter, hcall]
      rfl
    rw [hsession, hafter, link?_of_timers, Option.map_id_fun, id]

theorem link?_perform_of_call?_eq_none (h : l.session.IsWired deltaTypes) (hcall : l.call? a = none) :
    (l.perform a).session.link? k = l.session.link? k := by
  have hafter : l.linkAfter a = id := by
    funext link
    rw [linkAfter, hcall]
    rfl
  rw [link?_perform h, hafter, Option.map_id_fun, id]

theorem isWired_perform (h : l.session.IsWired deltaTypes) (a : Action) :
    (l.perform a).session.IsWired deltaTypes := by
  rcases session_perform l a with ⟨b, -, hsession⟩ | ⟨-, timers, now, hsession⟩
  · rw [hsession]
    exact (h.perform b).perform _
  · have hchannel : ∀ k, (l.perform a).session.channel? k = l.session.channel? k := by
      intro k
      rw [hsession, Session.channel?, link?_of_timers]
      rfl
    refine ⟨?_, ?_, ?_⟩
    · intro k
      rw [hchannel, h.isSome_eq, hsession]
    · intro k c hc
      exact h.origin_eq k c (hchannel k ▸ hc)
    · intro k c hc
      exact h.isSound k c (hchannel k ▸ hc)

theorem isWired_run (h : l.session.IsWired deltaTypes) (actions : List Action) :
    (l.run actions).session.IsWired deltaTypes := by
  induction actions generalizing l with
  | nil => exact h
  | cons a actions ih => exact ih (isWired_perform h a)

theorem policy_perform (l : LiveSession) (a : Action) :
    (l.perform a).session.policy = l.session.policy := by
  rcases session_perform l a with ⟨b, -, hsession⟩ | ⟨-, timers, now, hsession⟩
  · rw [hsession, Session.policy_perform, Session.policy_perform]
  · rw [hsession]

theorem mode_perform (l : LiveSession) (a : Action) :
    (l.perform a).session.mode = l.session.mode := by
  rcases session_perform l a with ⟨b, -, hsession⟩ | ⟨-, timers, now, hsession⟩
  · rw [hsession, Session.mode_perform, Session.mode_perform]
  · rw [hsession]

theorem policy_run (l : LiveSession) (actions : List Action) :
    (l.run actions).session.policy = l.session.policy := by
  induction actions generalizing l with
  | nil => rfl
  | cons a actions ih => exact (ih (l.perform a)).trans (policy_perform l a)

/-! ### Undelivered events -/

theorem pending_postAll (i : Inbox) (events : List Event) :
    (i.postAll events).pending = i.pending ++ events := by
  induction events generalizing i with
  | nil => exact (List.append_nil _).symm
  | cons e events ih =>
    refine (ih (i.post e)).trans ?_
    rw [Inbox.pending_post, List.append_assoc]
    rfl

theorem pending_of_take? {i i' : Inbox} {e : Event} (h : i.take? = some (e, i')) :
    i.pending = e :: i'.pending := by
  unfold Inbox.take? at h
  split at h
  · cases h
  · next queue hqueue =>
    cases h
    rw [Inbox.pending_refill, Inbox.pending, Inbox.pending, hqueue]
    rfl

theorem undelivered_advance (l : LiveSession) (span : Nat) :
    (l.advance span).undelivered.Perm l.undelivered := by
  have htimers := List.takeWhile_append_dropWhile
    (p := fun t : Timer ↦ decide (t.due ≤ l.session.now + span)) (l := l.session.timers)
  simp only [advance, Session.advance, undelivered, pending_postAll]
  generalize l.session.timers.takeWhile _ = due at *
  generalize l.session.timers.dropWhile _ = left at *
  rw [← htimers, List.map_append, List.append_assoc, ← List.append_assoc]
  exact List.perm_append_comm

theorem undelivered_post (l : LiveSession) (e : Event) :
    (l.post e).undelivered = l.undelivered ++ [e] := by
  rw [undelivered, post, Inbox.pending_post, ← List.append_assoc]
  rfl

theorem perm_deferred (timers : List Timer) (index span : Nat) :
    ((deferred timers index span).map Timer.event).Perm (timers.map Timer.event) := by
  unfold deferred
  split
  · next t ht =>
    obtain ⟨hindex, rfl⟩ := List.getElem?_eq_some_iff.1 ht
    have hinsert := (Session.perm_insert { timers[index] with due := timers[index].due + span }
      (timers.eraseIdx index)).map Timer.event
    have herase := (List.getElem_cons_eraseIdx_perm hindex).map Timer.event
    exact hinsert.trans herase
  · exact List.Perm.refl _

end LiveSession
end AgentReply
