import AgentReply.Proofs.Channel.Lifecycle
import AgentReply.Session.Basic

/-!
# Runs of a session

A run is a list of actions: events that are handled and calls that are made, in any order. Here stands
what an action does to the links of a session, and what it leaves alone, so that a statement about runs
needs to look at one channel or at the reply only.
-/

namespace AgentReply
namespace Session

/-- Something that happens to a session. -/
inductive Action where
  | handle (e : Event)
  | connect
  | disconnect
  | send (message : String)
  /-- Time passes; the timers that are due are taken. -/
  | wait (span : Nat)
  | takeNotices
deriving DecidableEq, Repr

def perform (s : Session) : Action → Session
  | .handle e => s.handle e
  | .connect => s.connect.2
  | .disconnect => s.disconnect
  | .send message => (s.send message).2
  | .wait span => (s.advance span).2
  | .takeNotices => s.takeNotices.2

def run (s : Session) (actions : List Action) : Session :=
  actions.foldl perform s

variable {s : Session} {k l : ChannelKind} {actions : List Action}

@[simp] theorem run_nil (s : Session) : s.run [] = s := rfl

@[simp] theorem run_cons (s : Session) (a : Action) (actions : List Action) :
    s.run (a :: actions) = (s.perform a).run actions := rfl

@[simp] theorem run_append (s : Session) (xs ys : List Action) :
    s.run (xs ++ ys) = (s.run xs).run ys :=
  List.foldl_append

/-- What a session makes of an event; `none` if it drops it. -/
def output? (s : Session) (e : Event) : Option Output :=
  (s.channel? e.channel).bind fun c ↦ (c.accept e).1

theorem handle_of_output?_eq_none {e : Event} (h : s.output? e = none) : s.handle e = s := by
  unfold output? channel? at h
  unfold handle
  cases hl : s.link? e.channel with
  | none => rfl
  | some link =>
    simp only [hl, Option.map_some, Option.bind_some] at h
    simp only
    split
    · rfl
    · next output channel heq => simp [heq] at h

theorem handle_of_output?_eq_some {e : Event} {output : Output} (h : s.output? e = some output) :
    ∃ link, s.link? e.channel = some link ∧ s.handle e =
      (s.put e.channel { link with channel := (link.channel.accept e).2 }).react e.channel output := by
  unfold output? channel? at h
  unfold handle
  cases hl : s.link? e.channel with
  | none => simp [hl] at h
  | some link =>
    simp only [hl, Option.map_some, Option.bind_some] at h
    refine ⟨link, rfl, ?_⟩
    simp only
    split
    · next heq => simp [heq] at h
    · next output' channel heq =>
      rw [heq] at h ⊢
      cases h
      rfl

/-! ### Links -/

theorem link?_put (s : Session) (link : Link) :
    (s.put l link).link? k = if k = l then some link else s.link? k := by
  cases k <;> cases l <;> rfl

theorem channel?_put (s : Session) (link : Link) :
    (s.put l link).channel? k = if k = l then some link.channel else s.channel? k := by
  unfold channel?
  rw [link?_put]
  split <;> rfl

theorem channel?_modify (s : Session) (change : Link → Link) :
    (s.modify l change).channel? k =
      if k = l then (s.link? l).map fun link ↦ (change link).channel else s.channel? k := by
  unfold modify
  split
  · next link hl => rw [channel?_put, hl, Option.map_some]
  · next hl =>
    split
    · next hkl => rw [channel?, hkl, hl]; rfl
    · rfl

@[simp] theorem channel?_refreshConnected (s : Session) :
    s.refreshConnected.channel? k = s.channel? k := by
  cases k <;> rfl

@[simp] theorem channel?_notify (s : Session) (n : Notice) :
    (s.notify n).channel? k = s.channel? k := by
  cases k <;> rfl

theorem exists_appendText (s : Session) (turn : Option String) (text : String) :
    ∃ assembly turnStarted,
      s.appendText turn text = { s with assembly := assembly, turnStarted := turnStarted } := by
  unfold appendText ensureTurn
  dsimp only
  split
  · exact ⟨_, _, rfl⟩
  · exact ⟨_, s.turnStarted, rfl⟩

/-- A message is the business of the turn and of the notices alone. -/
theorem exists_dispatch (s : Session) (m : Message) : ∃ assembly turnStarted snapshot notices,
    s.dispatch m = { s with
      assembly := assembly, turnStarted := turnStarted, snapshot := snapshot, notices := notices } := by
  cases m with
  | delta turn text =>
    obtain ⟨assembly, turnStarted, h⟩ := s.exists_appendText turn text
    rw [dispatch, h]
    exact ⟨assembly, turnStarted, _, s.notices, rfl⟩
  | complete turn text? =>
    cases text? with
    | some text =>
      obtain ⟨assembly, turnStarted, h⟩ := s.exists_appendText turn text
      rw [dispatch, h]
      exact ⟨_, turnStarted, _, s.notices, rfl⟩
    | none =>
      rw [dispatch]
      split
      · exact ⟨s.assembly, s.turnStarted, s.snapshot, s.notices, rfl⟩
      · exact ⟨_, s.turnStarted, _, s.notices, rfl⟩
  | remoteError envelope => exact ⟨s.assembly, s.turnStarted, s.snapshot, _, rfl⟩
  | control envelope => exact ⟨s.assembly, s.turnStarted, s.snapshot, _, rfl⟩

@[simp] theorem channel?_dispatch (s : Session) (m : Message) :
    (s.dispatch m).channel? k = s.channel? k := by
  obtain ⟨_, _, _, _, h⟩ := exists_dispatch s m
  rw [h]
  cases k <;> rfl

@[simp] theorem channel?_scheduleRetry (s : Session) :
    (s.scheduleRetry l).channel? k = s.channel? k := by
  unfold scheduleRetry
  split
  · rfl
  · next link hl =>
    have hput : (s.put l { link with attempts := link.attempts + 1 }).channel? k = s.channel? k := by
      rw [channel?_put]
      split
      · next hkl => rw [channel?, hkl, hl]; rfl
      · rfl
    dsimp only
    split
    · rw [channel?_notify, hput]
    · rw [channel?_notify, ← hput]
      cases k <;> rfl

/-- Only a retry that is due changes a channel once more after the channel has taken the event. -/
theorem channel?_react (s : Session) (output : Output) :
    (s.react l output).channel? k =
      if output = .retryDue ∧ k = l then (s.channel? k).map fun c ↦ c.connect.2
      else s.channel? k := by
  cases output with
  | opened =>
    rw [react, channel?_refreshConnected, channel?_modify]
    simp only [reduceCtorEq, false_and, if_false]
    split
    · next hkl => subst hkl; rfl
    · rfl
  | retryDue =>
    rw [react, channel?_refreshConnected, channel?_modify]
    simp only [true_and]
    split
    · next hkl => subst hkl; rw [channel?, Option.map_map]; rfl
    · rfl
  | message m => simp [react]
  | malformed error => simp [react]
  | failed error => simp [react]
  | closed => simp [react]

/-! ### What channels leave alone

What a session keeps when one of its links is replaced, it keeps in all that is done to its channels.
-/

section Keeps

variable {β : Type} {f : Session → β} (hput : ∀ (s : Session) k link, f (s.put k link) = f s)
include hput

theorem keeps_modify (s : Session) (k : ChannelKind) (change : Link → Link) :
    f (s.modify k change) = f s := by
  unfold modify
  split
  · exact hput s k _
  · rfl

theorem keeps_connectChannels (s : Session) (kinds : List ChannelKind) :
    f (s.connectChannels kinds).2 = f s := by
  have hone : ∀ (s : Session) k, f (s.connectChannel k).2 = f s := by
    intro s k
    unfold connectChannel
    split
    · rfl
    · split
      · exact hput s k _
      · exact hput s k _
  induction kinds generalizing s with
  | nil => rfl
  | cons kind kinds ih => exact (ih _).trans (hone s kind)

theorem keeps_send (s : Session) (message : String) : f (s.send message).2 = f s := by
  unfold send
  split
  · rfl
  · exact hput s .socket _

theorem keeps_scheduleRetry (hnotify : ∀ (s : Session) n, f (s.notify n) = f s)
    (htimers : ∀ (s : Session) timers, f { s with timers := timers } = f s) (s : Session)
    (k : ChannelKind) : f (s.scheduleRetry k) = f s := by
  unfold scheduleRetry
  split
  · rfl
  · dsimp only
    split
    · rw [hnotify, hput]
    · rw [hnotify, htimers, hput]

end Keeps

/-- The part of a session that channels have nothing to do with; only messages change it. -/
structure Core where
  mode : Mode
  vocabulary : Vocabulary
  policy : RetryPolicy
  assembly : Assembly
  turnStarted : Bool
  snapshot : Watched Turn

def core (s : Session) : Core :=
  ⟨s.mode, s.vocabulary, s.policy, s.assembly, s.turnStarted, s.snapshot⟩

@[simp] theorem core_put (s : Session) (link : Link) : (s.put k link).core = s.core := by
  cases k <;> rfl

@[simp] theorem core_modify (s : Session) (change : Link → Link) :
    (s.modify k change).core = s.core :=
  keeps_modify (fun _ _ _ ↦ core_put _ _) s k change

@[simp] theorem core_refreshConnected (s : Session) : s.refreshConnected.core = s.core := rfl

@[simp] theorem core_notify (s : Session) (n : Notice) : (s.notify n).core = s.core := rfl

@[simp] theorem core_scheduleRetry (s : Session) : (s.scheduleRetry k).core = s.core :=
  keeps_scheduleRetry (fun _ _ _ ↦ core_put _ _) (fun _ _ ↦ rfl) (fun _ _ ↦ rfl) s k

@[simp] theorem core_connectChannels (s : Session) (kinds : List ChannelKind) :
    (s.connectChannels kinds).2.core = s.core :=
  keeps_connectChannels (fun _ _ _ ↦ core_put _ _) s kinds

@[simp] theorem core_send (s : Session) (message : String) : (s.send message).2.core = s.core :=
  keeps_send (fun _ _ _ ↦ core_put _ _) s message

theorem core_react_of_message?_eq_none (s : Session) {output : Output}
    (h : ∀ m, output ≠ .message m) : (s.react k output).core = s.core := by
  cases output with
  | message m => exact absurd rfl (h m)
  | opened => rw [react, core_refreshConnected, core_modify]
  | malformed error => rfl
  | failed error => rw [react, core_scheduleRetry, core_refreshConnected, core_notify]
  | closed => rfl
  | retryDue => rw [react, core_refreshConnected, core_modify]

@[simp] theorem mode_dispatch (s : Session) (m : Message) : (s.dispatch m).mode = s.mode := by
  obtain ⟨_, _, _, _, h⟩ := exists_dispatch s m
  rw [h]

@[simp] theorem vocabulary_dispatch (s : Session) (m : Message) :
    (s.dispatch m).vocabulary = s.vocabulary := by
  obtain ⟨_, _, _, _, h⟩ := exists_dispatch s m
  rw [h]

/-! ### Messages of a run -/

/-- The message that a session takes from an action, if there is one. -/
def received (s : Session) : Action → Option Message
  | .handle e =>
    match s.output? e with
    | some (.message m) => some m
    | _ => none
  | _ => none

/-- The messages that a session takes in a run, in the order in which they are handled. -/
def messages (s : Session) : List Action → List Message
  | [] => []
  | a :: actions => (s.received a).toList ++ (s.perform a).messages actions

theorem messages_append (s : Session) (xs ys : List Action) :
    s.messages (xs ++ ys) = s.messages xs ++ (s.run xs).messages ys := by
  induction xs generalizing s with
  | nil => rfl
  | cons a xs ih => simp [messages, ih]

theorem put_of_link?_eq_some {link : Link} (h : s.link? k = some link) : s.put k link = s := by
  cases k with
  | events => cases s; cases h; rfl
  | socket => cases s; cases h; rfl

/-- A session takes a message from the open connection; its channel stays as it is. -/
theorem perform_of_received_eq_some {a : Action} {m : Message} (h : s.received a = some m) :
    s.perform a = s.dispatch m := by
  cases a with
  | handle e =>
    simp only [received] at h
    split at h
    · next m' hout =>
      cases h
      obtain ⟨link, hlink, hhandle⟩ := handle_of_output?_eq_some hout
      have haccept : (link.channel.accept e).1 = some (.message m) := by
        rw [output?, channel?, hlink] at hout
        exact hout
      rw [perform, hhandle, Channel.accept_of_message haccept, put_of_link?_eq_some hlink]
      rfl
    · cases h
  | connect => cases h
  | disconnect => cases h
  | send message => cases h
  | wait span => cases h
  | takeNotices => cases h

theorem core_perform_of_received_eq_none {a : Action} (h : s.received a = none) :
    (s.perform a).core = s.core := by
  cases a with
  | handle e =>
    cases hout : s.output? e with
    | none => rw [perform, handle_of_output?_eq_none hout]
    | some output =>
      obtain ⟨link, _, hhandle⟩ := handle_of_output?_eq_some hout
      rw [perform, hhandle, core_react_of_message?_eq_none, core_put]
      rintro m rfl
      simp [received, hout] at h
  | connect => exact core_connectChannels s s.mode.channels
  | disconnect => rfl
  | send message => exact core_send s message
  | wait span => rfl
  | takeNotices => rfl

theorem mode_perform (s : Session) (a : Action) : (s.perform a).mode = s.mode := by
  cases h : s.received a with
  | none => exact congrArg Core.mode (core_perform_of_received_eq_none h)
  | some m => rw [perform_of_received_eq_some h, mode_dispatch]

theorem vocabulary_perform (s : Session) (a : Action) : (s.perform a).vocabulary = s.vocabulary := by
  cases h : s.received a with
  | none => exact congrArg Core.vocabulary (core_perform_of_received_eq_none h)
  | some m => rw [perform_of_received_eq_some h, vocabulary_dispatch]

theorem vocabulary_run (s : Session) (actions : List Action) :
    (s.run actions).vocabulary = s.vocabulary := by
  induction actions generalizing s with
  | nil => rfl
  | cons a actions ih => exact (ih (s.perform a)).trans (vocabulary_perform s a)

/-! ### Reachable sessions -/

/-- What holds of the links of a session throughout: there is one for each channel that the mode needs,
of that kind and with the same types of envelopes, and each is sound. -/
structure IsWired (deltaTypes : List String) (s : Session) : Prop where
  isSome_eq : ∀ k, (s.channel? k).isSome = s.mode.requires k
  origin_eq : ∀ k c, s.channel? k = some c → c.origin = (k, deltaTypes)
  isSound : ∀ k c, s.channel? k = some c → c.IsSound

variable {deltaTypes : List String}

theorem isWired_ofMode (mode : Mode) (o : Options) : (ofMode mode o).IsWired o.deltaTypes := by
  constructor
  · intro k
    cases mode <;> cases k <;> rfl
  · intro k c h
    cases mode <;> cases k <;> cases h <;> rfl
  · intro k c h
    cases mode <;> cases k <;> cases h <;> exact Channel.isSound_of_new _ _

theorem IsWired.kind_eq (h : s.IsWired deltaTypes) {c : Channel} (hc : s.channel? k = some c) :
    c.kind = k :=
  congrArg Prod.fst (h.origin_eq k c hc)

theorem mem_channels (h : s.IsWired deltaTypes) {c : Channel} (hc : s.channel? k = some c) :
    k ∈ s.mode.channels := by
  have hrequires := h.isSome_eq k
  rw [hc] at hrequires
  simpa [Mode.requires] using hrequires.symm

theorem channel?_connectChannel (s : Session) :
    (s.connectChannel l).2.channel? k =
      if k = l then (s.channel? k).map fun c ↦ c.connect.2 else s.channel? k := by
  unfold connectChannel
  split
  · next hl =>
    split
    · next hkl => subst hkl; simp [channel?, hl]
    · rfl
  · next link hl =>
    split
    · next channel hconnect =>
      rw [channel?_put]
      split
      · next hkl => subst hkl; simp [channel?, hl, hconnect]
      · rfl
    · next error channel hconnect =>
      rw [channel?_put]
      split
      · next hkl => subst hkl; simp [channel?, hl, hconnect]
      · rfl

theorem channel?_connectChannels (s : Session) {kinds : List ChannelKind} (hkinds : kinds.Nodup) :
    (s.connectChannels kinds).2.channel? k =
      if k ∈ kinds then (s.channel? k).map fun c ↦ c.connect.2 else s.channel? k := by
  induction kinds generalizing s with
  | nil => simp [connectChannels]
  | cons l kinds ih =>
    obtain ⟨hl, hkinds⟩ := List.nodup_cons.1 hkinds
    have hrest := ih (s.connectChannel l).2 hkinds
    rw [channel?_connectChannel] at hrest
    refine Eq.trans hrest ?_
    by_cases hkl : k = l
    · subst hkl
      simp [hl]
    · simp [hkl]

theorem channel?_disconnect (s : Session) :
    s.disconnect.channel? k = (s.channel? k).map Channel.disconnect := by
  cases k with
  | events => cases h : s.events <;> simp [disconnect, refreshConnected, channel?, link?, h]
  | socket => cases h : s.socket <;> simp [disconnect, refreshConnected, channel?, link?, h]

theorem nodup_channels (m : Mode) : m.channels.Nodup := by
  cases m <;> decide

/-- What an action of the session does to one of its channels. -/
def channelAfter (c : Channel) : Action → Channel
  | .handle e =>
    if (c.accept e).1 = some .retryDue then (c.accept e).2.connect.2 else (c.accept e).2
  | .connect => c.connect.2
  | .disconnect => c.disconnect
  | .send message => (c.send message).2
  | .wait _ | .takeNotices => c

theorem channel?_handle (h : s.IsWired deltaTypes) (e : Event) :
    (s.handle e).channel? k = (s.channel? k).map fun c ↦ channelAfter c (.handle e) := by
  by_cases hk : k = e.channel
  · subst hk
    cases hout : s.output? e with
    | none =>
      rw [handle_of_output?_eq_none hout]
      cases hc : s.channel? e.channel with
      | none => rfl
      | some c =>
        have haccept : (c.accept e).1 = none := by rw [← hout, output?, hc]; rfl
        simp [channelAfter, haccept, Channel.accept_of_none haccept]
    | some output =>
      obtain ⟨link, hlink, hhandle⟩ := handle_of_output?_eq_some hout
      have hc : s.channel? e.channel = some link.channel := by rw [channel?, hlink]; rfl
      have haccept : (link.channel.accept e).1 = some output := by rw [← hout, output?, hc]; rfl
      rw [hhandle, channel?_react, channel?_put, hc]
      by_cases hretry : output = .retryDue
      · simp [channelAfter, haccept, hretry]
      · simp [channelAfter, haccept, hretry]
  · have hother : (s.handle e).channel? k = s.channel? k := by
      cases hout : s.output? e with
      | none => rw [handle_of_output?_eq_none hout]
      | some output =>
        obtain ⟨link, hlink, hhandle⟩ := handle_of_output?_eq_some hout
        rw [hhandle, channel?_react, if_neg (by simp [hk]), channel?_put, if_neg hk]
    rw [hother]
    cases hc : s.channel? k with
    | none => rfl
    | some c =>
      have hne : e.channel ≠ c.kind := by rw [h.kind_eq hc]; exact fun heq ↦ hk heq.symm
      simp [channelAfter, Channel.accept_of_channel_ne hne]

theorem channel?_send (h : s.IsWired deltaTypes) (message : String) :
    (s.send message).2.channel? k = (s.channel? k).map fun c ↦ (c.send message).2 := by
  cases k with
  | events =>
    have hother : (s.send message).2.channel? .events = s.channel? .events := by
      unfold send
      split <;> rfl
    rw [hother]
    cases hc : s.channel? .events with
    | none => rfl
    | some c =>
      have hkind := h.kind_eq hc
      simp [Channel.send, hkind, ChannelKind.sends]
  | socket => cases hl : s.socket <;> simp [send, channel?, link?, put, hl]

/-- The channels of a session act for themselves. -/
theorem channel?_perform (h : s.IsWired deltaTypes) (a : Action) :
    (s.perform a).channel? k = (s.channel? k).map fun c ↦ channelAfter c a := by
  cases a with
  | handle e => exact channel?_handle h e
  | connect =>
    have hconnect := channel?_connectChannels (k := k) s (nodup_channels s.mode)
    rw [perform, connect, channel?_refreshConnected, hconnect]
    cases hc : s.channel? k with
    | none => simp
    | some c => rw [if_pos (mem_channels h hc)]; rfl
  | disconnect => exact channel?_disconnect s
  | send message => exact channel?_send h message
  | wait span =>
    have hsame : (s.perform (.wait span)).channel? k = s.channel? k := by cases k <;> rfl
    rw [hsame]
    exact Option.map_id'.symm
  | takeNotices =>
    have hsame : (s.perform .takeNotices).channel? k = s.channel? k := by cases k <;> rfl
    rw [hsame]
    exact Option.map_id'.symm

theorem origin_channelAfter (c : Channel) (a : Action) : (channelAfter c a).origin = c.origin := by
  cases a with
  | handle e =>
    simp only [channelAfter]
    split
    · rw [Channel.origin_connect, Channel.origin_accept]
    · rw [Channel.origin_accept]
  | connect => exact c.origin_connect
  | disconnect => exact c.origin_disconnect
  | send message => exact c.origin_send message
  | wait span => rfl
  | takeNotices => rfl

theorem isSound_channelAfter {c : Channel} (h : c.IsSound) (a : Action) :
    (channelAfter c a).IsSound := by
  cases a with
  | handle e =>
    simp only [channelAfter]
    split
    · exact (h.accept e).connect
    · exact h.accept e
  | connect => exact h.connect
  | disconnect => exact h.disconnect
  | send message => exact h.send message
  | wait span => exact h
  | takeNotices => exact h

theorem IsWired.perform (h : s.IsWired deltaTypes) (a : Action) :
    (s.perform a).IsWired deltaTypes := by
  constructor
  · intro k
    rw [channel?_perform h, Option.isSome_map, mode_perform, h.isSome_eq k]
  · intro k c hc
    rw [channel?_perform h, Option.map_eq_some_iff] at hc
    obtain ⟨c', hc', rfl⟩ := hc
    rw [origin_channelAfter, h.origin_eq k c' hc']
  · intro k c hc
    rw [channel?_perform h, Option.map_eq_some_iff] at hc
    obtain ⟨c', hc', rfl⟩ := hc
    exact isSound_channelAfter (h.isSound k c' hc') a

theorem IsWired.run (h : s.IsWired deltaTypes) (actions : List Action) :
    (s.run actions).IsWired deltaTypes := by
  induction actions generalizing s with
  | nil => exact h
  | cons a actions ih => exact ih (h.perform a)

end Session
end AgentReply
