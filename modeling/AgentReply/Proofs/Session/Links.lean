import AgentReply.Proofs.Session.Run

/-!
# Links, timers and notices along a run

What an action does to a link is decided by the link alone: by its channel and by the number of its
failures. Timers are started by failures and by nothing else.
-/

namespace AgentReply

namespace Channel

theorem receive_ne_failed (c : Channel) (text : String) (error : ChannelError) :
    (c.receive text).1 ≠ .failed error := by
  unfold receive
  split <;> rintro ⟨⟩

theorem phase_receive (c : Channel) (text : String) : (c.receive text).2.phase = c.phase := by
  unfold receive
  split <;> rfl

end Channel

namespace Link

/-- A link after its channel has given an output. -/
def react (link : Link) : Output → Link
  | .opened => { link with attempts := 0 }
  | .failed _ => { link with attempts := link.attempts + 1 }
  | .retryDue => { link with channel := link.channel.connect.2 }
  | .message _ | .malformed _ | .closed => link

def handle (link : Link) (e : Event) : Link :=
  match (link.channel.accept e).1 with
  | some output => { link with channel := (link.channel.accept e).2 }.react output
  | none => link

/-- A call to connect leaves a live channel alone and keeps the count of its failures. -/
def connect (link : Link) : Link :=
  if link.channel.phase.isLive then link else ⟨link.channel.connect.2, 0⟩

def disconnect (link : Link) : Link := ⟨link.channel.disconnect, 0⟩

/-- What an action of the session does to one of its links. -/
def after (link : Link) : Session.Action → Link
  | .handle e => link.handle e
  | .connect => link.connect
  | .disconnect => link.disconnect
  | .send message => { link with channel := (link.channel.send message).2 }
  | .wait _ | .takeNotices => link

variable {link : Link} {e : Event} {a : Session.Action}

theorem handle_of_none (h : (link.channel.accept e).1 = none) : link.handle e = link := by
  rw [handle, h]

theorem handle_of_some {output : Output} (h : (link.channel.accept e).1 = some output) :
    link.handle e = { link with channel := (link.channel.accept e).2 }.react output := by
  rw [handle, h]

theorem channel_after (link : Link) (a : Session.Action) :
    (link.after a).channel = Session.channelAfter link.channel a := by
  cases a with
  | handle e =>
    rw [after, Session.channelAfter]
    cases haccept : (link.channel.accept e).1 with
    | none => rw [handle_of_none haccept, if_neg (by simp), Channel.accept_of_none haccept]
    | some output =>
      rw [handle_of_some haccept]
      cases output <;> simp [react]
  | connect =>
    rw [after, Link.connect, Session.channelAfter]
    cases hlive : link.channel.phase.isLive with
    | true => rw [if_pos rfl, Channel.connect_of_isLive hlive]
    | false => rw [if_neg (by simp)]
  | _ => rfl

theorem react_receive (link : Link) (c : Channel) (text : String) :
    link.react (c.receive text).1 = link := by
  unfold Channel.receive
  split <;> rfl

/-- What an event does to a link: it is dropped, or it is news of a live channel, which does not fail by
it, or the channel fails, or it is the retry that a failed channel waits for. -/
inductive Handled (link : Link) (e : Event) : Prop
  | dropped (hnone : (link.channel.accept e).1 = none) (hhandle : link.handle e = link)
  | news (output : Output) (hout : (link.channel.accept e).1 = some output)
      (hfailed : ∀ error, output ≠ .failed error) (hsignal : e.signal ≠ .retryDue)
      (hlive : link.channel.phase.isLive = true) (hphase : (link.handle e).channel.phase ≠ .failed)
      (hgeneration : (link.handle e).channel.generation = link.channel.generation)
  | failure (reason : String) (he : e = link.channel.event (.failed reason))
      (hlive : link.channel.phase.isLive = true)
      (hout : (link.channel.accept e).1 = some (.failed (.transport link.channel.kind reason)))
      (hhandle : link.handle e = ⟨(link.channel.fail reason).2, link.attempts + 1⟩)
  | retry (he : e = link.channel.event .retryDue) (hphase : link.channel.phase = .failed)
      (hout : (link.channel.accept e).1 = some .retryDue)
      (hhandle : link.handle e = { link with channel := link.channel.connect.2 })

theorem handled (link : Link) (e : Event) : link.Handled e := by
  cases haccept : (link.channel.accept e).1 with
  | none => exact .dropped haccept (handle_of_none haccept)
  | some output =>
    obtain ⟨hcurrent, hadmits, rfl, hchannel⟩ := Channel.of_accept_eq_some haccept
    have hhandle := handle_of_some haccept
    rw [hchannel] at hhandle
    -- Only an event of the link's own channel and connection is taken, so the signal decides.
    obtain ⟨kind, generation, signal⟩ := e
    obtain ⟨rfl, rfl⟩ := Channel.eq_of_isCurrent hcurrent
    cases signal with
    | opened =>
      have hlive := Channel.isLive_of_admits hadmits (by simp)
      refine .news _ haccept ?_ (by simp) hlive ?_ ?_
      · rintro error ⟨⟩
      · rw [hhandle]
        rintro ⟨⟩
      · rw [hhandle]
        rfl
    | frame text =>
      have hlive := Channel.isLive_of_admits hadmits (by simp)
      simp only [Channel.apply, react_receive] at hhandle
      refine .news _ haccept (link.channel.receive_ne_failed text) (by simp) hlive ?_ ?_
      · rw [hhandle, Channel.phase_receive, Channel.eq_opened_of_admits hadmits]
        rintro ⟨⟩
      · rw [hhandle]
        exact Channel.generation_apply link.channel (.frame text)
    | failed reason =>
      have hlive := Channel.isLive_of_admits hadmits (by simp)
      exact .failure reason rfl hlive haccept hhandle
    | closed =>
      have hlive := Channel.isLive_of_admits hadmits (by simp)
      refine .news _ haccept ?_ (by simp) hlive ?_ ?_
      · rintro error ⟨⟩
      · rw [hhandle]
        rintro ⟨⟩
      · rw [hhandle]
        rfl
    | retryDue => exact .retry rfl (Channel.eq_failed_of_admits hadmits) haccept hhandle

/-- A link with a failed channel had it before, or it has failed just now. -/
theorem after_of_failed (h : (link.after a).channel.phase = .failed) : link.after a = link ∨
    ∃ reason, a = .handle (link.channel.event (.failed reason)) ∧ link.channel.phase.isLive = true ∧
      link.after a = ⟨(link.channel.fail reason).2, link.attempts + 1⟩ := by
  cases a with
  | handle e =>
    cases link.handled e with
    | dropped _ hhandle => exact .inl hhandle
    | news _ _ _ _ _ hphase _ => exact absurd h hphase
    | failure reason he hlive _ hhandle => exact .inr ⟨reason, by rw [he], hlive, hhandle⟩
    | retry _ hphase _ hhandle =>
      rw [after, hhandle, Channel.connect_of_not_isLive (Channel.isLive_eq_false_of_failed hphase)] at h
      cases h
  | connect =>
    rw [after, Link.connect] at h ⊢
    cases hlive : link.channel.phase.isLive with
    | true => exact .inl (if_pos rfl)
    | false =>
      rw [hlive, if_neg (by simp), Channel.connect_of_not_isLive hlive] at h
      cases h
  | disconnect =>
    rw [after, Link.disconnect, Channel.phase_disconnect] at h
    cases h
  | send message =>
    rw [after] at h ⊢
    rcases link.channel.send_eq message with hsame | ⟨_, _, hopened, _, _, hsent⟩
    · exact .inl (by rw [hsame])
    · rw [hsent] at h
      cases hopened.symm.trans h
  | wait span => exact .inl rfl
  | takeNotices => exact .inl rfl

/-- Only a failure of its connection fails a live channel. -/
theorem handle_of_failed {error : ChannelError} (h : (link.channel.accept e).1 = some (.failed error)) :
    ∃ reason, e = link.channel.event (.failed reason) ∧ error = .transport link.channel.kind reason ∧
      link.handle e = ⟨(link.channel.fail reason).2, link.attempts + 1⟩ := by
  cases link.handled e with
  | dropped hnone _ => cases h.symm.trans hnone
  | news output hout hfailed =>
    cases h.symm.trans hout
    exact absurd rfl (hfailed error)
  | failure reason he _ hout hhandle =>
    cases h.symm.trans hout
    exact ⟨reason, he, rfl, hhandle⟩
  | retry _ _ hout _ => cases h.symm.trans hout

end Link

namespace Session

variable {s : Session} {k l : ChannelKind} {e : Event} {deltaTypes : List String}

/-! ### Links -/

theorem output?_eq {link : Link} (h : s.link? e.channel = some link) :
    s.output? e = (link.channel.accept e).1 := by
  rw [output?, channel?, h]
  rfl

theorem channel?_of_link? {link : Link} (h : s.link? k = some link) : s.channel? k = some link.channel := by
  rw [channel?, h]
  rfl

theorem IsWired.kind_of_link? (h : s.IsWired deltaTypes) {link : Link} (hlink : s.link? k = some link) :
    link.channel.kind = k :=
  h.kind_eq (channel?_of_link? hlink)

theorem link?_modify (s : Session) (change : Link → Link) :
    (s.modify l change).link? k = if k = l then (s.link? l).map change else s.link? k := by
  unfold modify
  split
  · next link hl => rw [link?_put, hl, Option.map_some]
  · next hl =>
    split
    · next hkl => rw [hkl, hl, Option.map_none]
    · rfl

@[simp] theorem link?_refreshConnected (s : Session) : s.refreshConnected.link? k = s.link? k := by
  cases k <;> rfl

@[simp] theorem link?_notify (s : Session) (n : Notice) : (s.notify n).link? k = s.link? k := by
  cases k <;> rfl

@[simp] theorem link?_dispatch (s : Session) (m : Message) : (s.dispatch m).link? k = s.link? k := by
  obtain ⟨_, _, _, _, h⟩ := exists_dispatch s m
  rw [h]
  cases k <;> rfl

theorem link?_scheduleRetry (s : Session) :
    (s.scheduleRetry l).link? k =
      if k = l then (s.link? l).map fun link ↦ { link with attempts := link.attempts + 1 }
      else s.link? k := by
  have htimers : ∀ (s : Session) (timers : List Timer),
      ({ s with timers := timers } : Session).link? k = s.link? k := by
    intro s timers
    cases k <;> rfl
  unfold scheduleRetry
  split
  · next hl =>
    split
    · next hkl => rw [hkl, hl, Option.map_none]
    · rfl
  · next link hl =>
    rw [hl, Option.map_some, ← link?_put]
    dsimp only
    split
    · rw [link?_notify]
    · rw [link?_notify, htimers]

theorem link?_react (s : Session) (output : Output) :
    (s.react l output).link? k =
      if k = l then (s.link? l).map fun link ↦ link.react output else s.link? k := by
  have hsame : s.link? k = if k = l then (s.link? l).map fun link ↦ link else s.link? k := by
    split
    · next hkl => rw [hkl, Option.map_id']
    · rfl
  cases output with
  | opened => rw [react, link?_refreshConnected, link?_modify]; rfl
  | retryDue => rw [react, link?_refreshConnected, link?_modify]; rfl
  | failed error =>
    rw [react, link?_scheduleRetry, link?_refreshConnected, link?_notify, link?_refreshConnected,
      link?_notify]
    rfl
  | message m => rw [react, link?_dispatch]; exact hsame
  | malformed error => rw [react, link?_notify]; exact hsame
  | closed => rw [react, link?_refreshConnected, link?_notify]; exact hsame

theorem link?_handle (s : Session) (e : Event) :
    (s.handle e).link? k =
      if k = e.channel then (s.link? k).map fun link ↦ link.handle e else s.link? k := by
  cases hout : s.output? e with
  | none =>
    rw [handle_of_output?_eq_none hout]
    split
    · next hk =>
      subst hk
      cases hlink : s.link? e.channel with
      | none => rfl
      | some link =>
        have haccept : (link.channel.accept e).1 = none := (output?_eq hlink).symm.trans hout
        rw [Option.map_some, Link.handle_of_none haccept]
    · rfl
  | some output =>
    obtain ⟨link, hlink, hhandle⟩ := handle_of_output?_eq_some hout
    have haccept : (link.channel.accept e).1 = some output := (output?_eq hlink).symm.trans hout
    rw [hhandle, link?_react, link?_put, link?_put, if_pos rfl, Option.map_some]
    split
    · next hk =>
      subst hk
      rw [hlink, Option.map_some, Link.handle_of_some haccept]
    · rfl

theorem link?_connectChannel (s : Session) :
    (s.connectChannel l).2.link? k =
      if k = l then (s.link? l).map Link.connect else s.link? k := by
  unfold connectChannel
  split
  · next hl =>
    split
    · next hkl => rw [hkl, hl, Option.map_none]
    · rfl
  · next link hl =>
    rw [hl, Option.map_some, ← link?_put]
    cases hlive : link.channel.phase.isLive with
    | true => simp [Channel.connect, Link.connect, hlive]
    | false =>
      simp only [Channel.connect, Link.connect, hlive, Bool.false_eq_true, if_false]

theorem link?_connectChannels (s : Session) {kinds : List ChannelKind} (hkinds : kinds.Nodup) :
    (s.connectChannels kinds).2.link? k =
      if k ∈ kinds then (s.link? k).map Link.connect else s.link? k := by
  induction kinds generalizing s with
  | nil => simp [connectChannels]
  | cons l kinds ih =>
    obtain ⟨hl, hkinds⟩ := List.nodup_cons.1 hkinds
    refine (ih (s.connectChannel l).2 hkinds).trans ?_
    rw [link?_connectChannel]
    by_cases hkl : k = l
    · subst hkl
      simp [hl]
    · simp [hkl]

theorem link?_disconnect (s : Session) :
    s.disconnect.link? k = (s.link? k).map Link.disconnect := by
  cases k <;> rfl

theorem IsWired.mem_channels_of_link? (h : s.IsWired deltaTypes) {link : Link}
    (hlink : s.link? k = some link) : k ∈ s.mode.channels :=
  mem_channels h (channel?_of_link? hlink)

theorem link?_connect (h : s.IsWired deltaTypes) :
    s.connect.2.link? k = (s.link? k).map Link.connect := by
  have hconnect := link?_connectChannels (k := k) s (nodup_channels s.mode)
  rw [connect, link?_refreshConnected, hconnect]
  cases hlink : s.link? k with
  | none => simp
  | some link => rw [if_pos (h.mem_channels_of_link? hlink)]

theorem link?_send (h : s.IsWired deltaTypes) (message : String) :
    (s.send message).2.link? k =
      (s.link? k).map fun link ↦ { link with channel := (link.channel.send message).2 } := by
  cases k with
  | events =>
    -- a message leaves through the socket only
    have hother : (s.send message).2.link? .events = s.link? .events := by
      unfold send
      split <;> rfl
    rw [hother]
    cases hlink : s.link? .events with
    | none => rfl
    | some link =>
      have hkind := h.kind_of_link? hlink
      simp [Channel.send, hkind, ChannelKind.sends]
  | socket => cases hl : s.socket <;> simp [send, link?, put, hl]

/-- The links of a session act for themselves; an event is none of the business of other channels. -/
theorem link?_perform (h : s.IsWired deltaTypes) (a : Action) :
    (s.perform a).link? k = (s.link? k).map fun link ↦ link.after a := by
  cases a with
  | handle e =>
    refine (link?_handle s e).trans ?_
    split
    · rfl
    · next hk =>
      cases hlink : s.link? k with
      | none => rfl
      | some link =>
        have hkind := h.kind_of_link? hlink
        have hne : e.channel ≠ link.channel.kind := fun heq ↦ hk (hkind ▸ heq.symm)
        have haccept : (link.channel.accept e).1 = none := by
          rw [Channel.accept_of_channel_ne hne]
        rw [Option.map_some, Link.after, Link.handle_of_none haccept]
  | connect => exact link?_connect h
  | disconnect => exact link?_disconnect s
  | send message => exact link?_send h message
  | wait span =>
    have hsame : (s.perform (.wait span)).link? k = s.link? k := by cases k <;> rfl
    rw [hsame]
    exact Option.map_id'.symm
  | takeNotices =>
    have hsame : (s.perform .takeNotices).link? k = s.link? k := by cases k <;> rfl
    rw [hsame]
    exact Option.map_id'.symm

/-! ### The policy and the time -/

@[simp] theorem policy_put (s : Session) (link : Link) : (s.put k link).policy = s.policy := by
  cases k <;> rfl

@[simp] theorem policy_refreshConnected (s : Session) : s.refreshConnected.policy = s.policy := rfl

@[simp] theorem policy_notify (s : Session) (n : Notice) : (s.notify n).policy = s.policy := rfl

@[simp] theorem now_put (s : Session) (link : Link) : (s.put k link).now = s.now := by
  cases k <;> rfl

@[simp] theorem now_refreshConnected (s : Session) : s.refreshConnected.now = s.now := rfl

@[simp] theorem now_notify (s : Session) (n : Notice) : (s.notify n).now = s.now := rfl

theorem policy_dispatch (s : Session) (m : Message) : (s.dispatch m).policy = s.policy := by
  obtain ⟨_, _, _, _, h⟩ := exists_dispatch s m
  rw [h]

theorem policy_perform (s : Session) (a : Action) : (s.perform a).policy = s.policy := by
  cases h : s.received a with
  | none => exact congrArg Core.policy (core_perform_of_received_eq_none h)
  | some m => rw [perform_of_received_eq_some h, policy_dispatch]

/-! ### Timers -/

@[simp] theorem timers_put (s : Session) (link : Link) : (s.put k link).timers = s.timers := by
  cases k <;> rfl

@[simp] theorem notices_put (s : Session) (link : Link) : (s.put k link).notices = s.notices := by
  cases k <;> rfl

@[simp] theorem timers_modify (s : Session) (change : Link → Link) :
    (s.modify k change).timers = s.timers :=
  keeps_modify (fun _ _ _ ↦ timers_put _ _) s k change

@[simp] theorem timers_refreshConnected (s : Session) : s.refreshConnected.timers = s.timers := rfl

@[simp] theorem timers_notify (s : Session) (n : Notice) : (s.notify n).timers = s.timers := rfl

@[simp] theorem timers_dispatch (s : Session) (m : Message) : (s.dispatch m).timers = s.timers := by
  obtain ⟨_, _, _, _, h⟩ := exists_dispatch s m
  rw [h]

theorem timers_connect (s : Session) : s.connect.2.timers = s.timers :=
  keeps_connectChannels (fun _ _ _ ↦ timers_put _ _) s s.mode.channels

theorem timers_disconnect (s : Session) : s.disconnect.timers = s.timers := rfl

theorem timers_send (s : Session) (message : String) : (s.send message).2.timers = s.timers :=
  keeps_send (fun _ _ _ ↦ timers_put _ _) s message

theorem timers_react_of_not_failed (s : Session) {output : Output}
    (h : ∀ error, output ≠ .failed error) : (s.react k output).timers = s.timers := by
  cases output with
  | failed error => exact absurd rfl (h error)
  | opened => rw [react, timers_refreshConnected, timers_modify]
  | message m => rw [react, timers_dispatch]
  | malformed error => rfl
  | closed => rfl
  | retryDue => rw [react, timers_refreshConnected, timers_modify]

theorem timers_scheduleRetry {link : Link} (h : s.link? k = some link) :
    (s.scheduleRetry k).timers =
      match s.policy.delay? (link.attempts + 1) with
      | none => s.timers
      | some delay => Timer.insert ⟨s.now + delay, link.channel.event .retryDue⟩ s.timers := by
  simp only [scheduleRetry, h, policy_put, now_put]
  cases s.policy.delay? (link.attempts + 1) with
  | none => exact timers_put s _
  | some delay => exact congrArg _ (timers_put s _)

theorem notices_scheduleRetry {link : Link} (h : s.link? k = some link) :
    (s.scheduleRetry k).notices = s.notices ++
      [match s.policy.delay? (link.attempts + 1) with
        | none => .reconnectExhausted k link.attempts
        | some delay => .reconnectScheduled k (link.attempts + 1) delay] := by
  simp only [scheduleRetry, h, policy_put]
  cases s.policy.delay? (link.attempts + 1) with
  | none => exact congrArg (· ++ _) (notices_put s _)
  | some delay => exact congrArg (· ++ _) (notices_put s _)

/-- A session reports a failure, and starts the timer of a retry of the same generation unless the policy
gives up. -/
theorem handle_of_failed {error : ChannelError} {link : Link} (hlink : s.link? e.channel = some link)
    (hfailed : (link.channel.accept e).1 = some (.failed error)) :
    ((s.handle e).timers =
      match s.policy.delay? (link.attempts + 1) with
      | none => s.timers
      | some delay => Timer.insert ⟨s.now + delay, ⟨e.channel, e.generation, .retryDue⟩⟩ s.timers) ∧
    (s.handle e).notices = s.notices ++ [.channelError error,
      match s.policy.delay? (link.attempts + 1) with
      | none => .reconnectExhausted e.channel link.attempts
      | some delay => .reconnectScheduled e.channel (link.attempts + 1) delay] := by
  obtain ⟨link', hlink', hhandle⟩ := handle_of_output?_eq_some ((output?_eq hlink).trans hfailed)
  cases hlink.symm.trans hlink'
  obtain ⟨-, -, -, hchannel⟩ := Channel.of_accept_eq_some hfailed
  obtain ⟨reason, he, -⟩ := Link.handle_of_failed hfailed
  have hevent : (link.channel.accept e).2.event .retryDue = ⟨e.channel, e.generation, .retryDue⟩ := by
    rw [hchannel, he]
    rfl
  have hput : ((s.put e.channel { link with channel := (link.channel.accept e).2 }).notify
      (.channelError error)).refreshConnected.link? e.channel =
        some { link with channel := (link.channel.accept e).2 } := by
    rw [link?_refreshConnected, link?_notify, link?_put, if_pos rfl]
  rw [hhandle, react, timers_scheduleRetry hput, notices_scheduleRetry hput, hevent]
  simp only [timers_refreshConnected, timers_notify, timers_put, policy_refreshConnected,
    policy_notify, policy_put, now_refreshConnected, now_notify, now_put, true_and]
  simp [refreshConnected, notify]

theorem perm_insert (t : Timer) (timers : List Timer) : (t.insert timers).Perm (t :: timers) := by
  induction timers with
  | nil => exact List.Perm.refl _
  | cons u timers ih =>
    rw [Timer.insert]
    split
    · exact List.Perm.refl _
    · exact (ih.cons u).trans (List.Perm.swap t u timers)

end Session
end AgentReply
