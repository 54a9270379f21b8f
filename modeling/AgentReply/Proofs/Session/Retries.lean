import AgentReply.Proofs.Session.Live
import AgentReply.Proofs.Session.Silence

/-!
# Retries of failed channels

A timer is detached from the channel that it is to connect again: it knows a generation, runs for its
time and posts into the inbox like a transport. So the invariant counts events, wherever they are. Of the
retries that are yet to be handled, one is of the current generation of a channel if the channel has
failed and the policy does not give up, and none otherwise; and none is of a later generation. While an
event is handled it is the head of the events that are counted.
-/

namespace AgentReply

/-- The event that says that the retry of a connection is due. -/
def Event.retry (k : ChannelKind) (g : Nat) : Event := ⟨k, g, .retryDue⟩

theorem count_cons_retry_of_ne {e : Event} {k : ChannelKind} {g : Nat} (h : e.signal ≠ .retryDue)
    (events : List Event) : (e :: events).count (.retry k g) = events.count (.retry k g) := by
  refine List.count_cons_of_ne ?_
  rintro rfl
  exact h rfl

namespace Link

variable {policy : RetryPolicy} {k : ChannelKind} {link link' : Link} {e : Event} {events : List Event}

/-- How many retries a link waits for. -/
def awaited (policy : RetryPolicy) (link : Link) : Nat :=
  if link.channel.phase = .failed ∧ (policy.delay? link.attempts).isSome then 1 else 0

structure IsPaced (policy : RetryPolicy) (k : ChannelKind) (link : Link) (events : List Event) :
    Prop where
  future : ∀ g, link.channel.generation < g → events.count (.retry k g) = 0
  present : events.count (.retry k link.channel.generation) = link.awaited policy

theorem awaited_of_phase_ne (h : link.channel.phase ≠ .failed) : link.awaited policy = 0 :=
  if_neg fun hfailed ↦ h hfailed.1

theorem ne_failed_of_isLive {phase : Phase} (h : phase.isLive = true) : phase ≠ .failed := by
  rintro rfl
  cases h

theorem IsPaced.of_count {events' : List Event} (h : link.IsPaced policy k events)
    (hcount : ∀ g, events'.count (.retry k g) = events.count (.retry k g)) :
    link.IsPaced policy k events' :=
  ⟨fun g hg ↦ (hcount g).trans (h.future g hg), (hcount _).trans h.present⟩

theorem isPaced_of_future (hfuture : ∀ g, link.channel.generation < g → events.count (.retry k g) = 0)
    (hlt : link.channel.generation < link'.channel.generation)
    (hphase : link'.channel.phase ≠ .failed) : link'.IsPaced policy k events := by
  constructor
  · intro g hg
    exact hfuture g (Nat.lt_trans hlt hg)
  · rw [hfuture _ hlt, awaited_of_phase_ne hphase]

theorem IsPaced.calm (h : link.IsPaced policy k events)
    (hgeneration : link'.channel.generation = link.channel.generation)
    (hphase : link.channel.phase ≠ .failed) (hphase' : link'.channel.phase ≠ .failed) :
    link'.IsPaced policy k events := by
  constructor
  · intro g hg
    exact h.future g (hgeneration ▸ hg)
  · rw [hgeneration, h.present, awaited_of_phase_ne hphase, awaited_of_phase_ne hphase']

theorem isPaced_connect (hfuture : ∀ g, link.channel.generation < g → events.count (.retry k g) = 0)
    (hlive : link.channel.phase.isLive = false) (attempts : Nat) :
    (⟨link.channel.connect.2, attempts⟩ : Link).IsPaced policy k events := by
  refine isPaced_of_future hfuture ?_ ?_
  · change _ < link.channel.connect.2.generation
    rw [Channel.generation_connect, if_neg (by simp [hlive])]
    exact Nat.lt_succ_self _
  · rw [Channel.connect_of_not_isLive hlive]
    rintro ⟨⟩

theorem IsPaced.connect (h : link.IsPaced policy k events) : link.connect.IsPaced policy k events := by
  unfold Link.connect
  cases hlive : link.channel.phase.isLive with
  | true => exact h
  | false => exact isPaced_connect h.future hlive 0

theorem IsPaced.disconnect (h : link.IsPaced policy k events) :
    link.disconnect.IsPaced policy k events := by
  have hphase : link.disconnect.channel.phase ≠ .failed := by
    rw [Link.disconnect, Channel.phase_disconnect]
    rintro ⟨⟩
  have hgeneration := link.channel.generation_disconnect
  by_cases hclosed : link.channel.phase = .closed
  · rw [if_pos hclosed] at hgeneration
    refine h.calm hgeneration ?_ hphase
    rw [hclosed]
    rintro ⟨⟩
  · rw [if_neg hclosed] at hgeneration
    refine isPaced_of_future h.future ?_ hphase
    exact hgeneration ▸ Nat.lt_succ_self _

theorem IsPaced.send (h : link.IsPaced policy k events) (message : String) :
    { link with channel := (link.channel.send message).2 }.IsPaced policy k events := by
  rcases link.channel.send_eq message with hsame | ⟨_, _, _, _, _, hsent⟩
  · rwa [hsame]
  · rw [hsent]
    exact ⟨h.future, h.present⟩

/-- The retries that are asked for while an event is handled. -/
def started (policy : RetryPolicy) (link : Link) (e : Event) : List Event :=
  match (link.channel.accept e).1 with
  | some (.failed _) =>
    if (policy.delay? (link.attempts + 1)).isSome then [.retry e.channel e.generation] else []
  | _ => []

theorem started_of_none (h : (link.channel.accept e).1 = none) : link.started policy e = [] := by
  rw [started, h]

theorem started_of_not_failed {output : Output} (h : (link.channel.accept e).1 = some output)
    (hfailed : ∀ error, output ≠ .failed error) : link.started policy e = [] := by
  rw [started, h]
  cases output with
  | failed error => exact absurd rfl (hfailed error)
  | _ => rfl

theorem started_of_failed {error : ChannelError} (h : (link.channel.accept e).1 = some (.failed error)) :
    link.started policy e =
      if (policy.delay? (link.attempts + 1)).isSome then [.retry e.channel e.generation] else [] := by
  rw [started, h]

/-- The retry that a failed channel waits for is never dropped. -/
theorem accept_retry_ne_none {c : Channel} (h : c.phase = .failed) :
    (c.accept (.retry c.kind c.generation)).1 ≠ none := by
  have hcurrent : c.isCurrent (.retry c.kind c.generation) = true := by
    simp [Channel.isCurrent, Event.retry]
  have hadmits : c.phase.admits (Event.retry c.kind c.generation).signal = true := by
    rw [h]
    rfl
  rw [Channel.accept_of_admits hcurrent hadmits]
  simp

theorem accept_failure {c : Channel} (hkind : c.kind = k) (hlive : c.phase.isLive = true)
    (reason : String) : (c.accept ⟨k, c.generation, .failed reason⟩).1 =
      some (.failed (.transport k reason)) := by
  have hcurrent : c.isCurrent ⟨k, c.generation, .failed reason⟩ = true := by
    simp [Channel.isCurrent, hkind]
  rw [Channel.accept_of_admits hcurrent (Channel.admits_of_isLast hlive rfl), ← hkind]
  rfl

theorem IsPaced.future_tail (h : link.IsPaced policy k (e :: events)) :
    ∀ g, link.channel.generation < g → events.count (.retry k g) = 0 := by
  intro g hg
  have hcount := h.future g hg
  rw [List.count_cons] at hcount
  omega

theorem IsPaced.of_dropped (hkind : link.channel.kind = k) (h : link.IsPaced policy k (e :: events))
    (hnone : (link.channel.accept e).1 = none) : link.IsPaced policy k events := by
  refine ⟨h.future_tail, ?_⟩
  have hpresent := h.present
  by_cases hretry : e = .retry k link.channel.generation
  · have hphase : link.channel.phase ≠ .failed := by
      intro hphase
      rw [hretry, ← hkind] at hnone
      exact accept_retry_ne_none hphase hnone
    rw [awaited_of_phase_ne hphase, hretry, List.count_cons_self] at hpresent
    omega
  · rwa [List.count_cons_of_ne hretry] at hpresent

/-- A failed link waits for the retry that has just been asked for, if the policy allows one. -/
theorem isPaced_fail (hfuture : ∀ g, link.channel.generation < g → events.count (.retry k g) = 0)
    (hpresent : events.count (.retry k link.channel.generation) = 0) (reason : String) :
    (⟨(link.channel.fail reason).2, link.attempts + 1⟩ : Link).IsPaced policy k
      ((if (policy.delay? (link.attempts + 1)).isSome then [.retry k link.channel.generation] else []) ++
        events) := by
  constructor
  · intro g hg
    have hne : Event.retry k link.channel.generation ≠ .retry k g := by
      intro heq
      exact Nat.ne_of_lt hg (congrArg Event.generation heq)
    have hrest := hfuture g hg
    split
    · rw [List.singleton_append, List.count_cons_of_ne hne, hrest]
    · exact hrest
  · change List.count (Event.retry k link.channel.generation) _ = _
    cases hdelay : (policy.delay? (link.attempts + 1)).isSome with
    | true =>
      rw [if_pos rfl, List.singleton_append, List.count_cons_self, hpresent, awaited, if_pos]
      exact ⟨rfl, hdelay⟩
    | false =>
      rw [if_neg (by simp), List.nil_append, hpresent, awaited, if_neg]
      simp [hdelay]

/-- The event that is handled leaves the count, and what it asks for enters it. -/
theorem IsPaced.handle (hkind : link.channel.kind = k) (h : link.IsPaced policy k (e :: events)) :
    (link.handle e).IsPaced policy k (link.started policy e ++ events) := by
  cases link.handled e with
  | dropped hnone hhandle =>
    rw [hhandle, started_of_none hnone]
    exact h.of_dropped hkind hnone
  | news output hout hfailed hsignal hlive hphase hgeneration =>
    rw [started_of_not_failed hout hfailed, List.nil_append]
    have hrest : link.IsPaced policy k events :=
      h.of_count fun g ↦ (count_cons_retry_of_ne hsignal events).symm
    exact hrest.calm hgeneration (ne_failed_of_isLive hlive) hphase
  | failure reason he hlive hout hhandle =>
    have hpresent := h.present
    subst he
    rw [count_cons_retry_of_ne (by rintro ⟨⟩), awaited_of_phase_ne (ne_failed_of_isLive hlive)] at hpresent
    rw [hhandle, started_of_failed hout]
    simp only [Channel.event, hkind]
    exact isPaced_fail h.future_tail hpresent reason
  | retry he hphase hout hhandle =>
    rw [started_of_not_failed hout (by simp), List.nil_append, hhandle]
    exact isPaced_connect h.future_tail (Channel.isLive_eq_false_of_failed hphase) link.attempts

end Link

namespace Session

variable {s : Session} {k : ChannelKind} {e : Event} {events : List Event} {deltaTypes : List String}

def IsPaced (s : Session) (events : List Event) : Prop :=
  ∀ k link, s.link? k = some link → link.IsPaced s.policy k events

def started (s : Session) (e : Event) : List Event :=
  match s.link? e.channel with
  | some link => link.started s.policy e
  | none => []

theorem channel_of_mem_started {e' : Event} (h : e' ∈ s.started e) : e'.channel = e.channel := by
  unfold started Link.started at h
  split at h
  · split at h
    · split at h
      · rw [List.mem_singleton.1 h]
        rfl
      · cases h
    · cases h
  · cases h

/-- A failure starts a timer at most, and nothing else does. -/
theorem perm_timers_handle (s : Session) (e : Event) :
    ((s.handle e).timers.map Timer.event).Perm (s.started e ++ s.timers.map Timer.event) := by
  unfold started
  split
  · next link hlink =>
    cases haccept : (link.channel.accept e).1 with
    | none =>
      rw [handle_of_output?_eq_none ((output?_eq hlink).trans haccept), Link.started_of_none haccept]
      exact List.Perm.refl _
    | some output =>
      by_cases hfailed : ∃ error, output = .failed error
      · obtain ⟨error, rfl⟩ := hfailed
        rw [(handle_of_failed hlink haccept).1, Link.started_of_failed haccept]
        cases s.policy.delay? (link.attempts + 1) with
        | none => exact List.Perm.refl _
        | some delay => exact (perm_insert _ _).map Timer.event
      · have hother : ∀ error, output ≠ .failed error := fun error heq ↦ hfailed ⟨error, heq⟩
        obtain ⟨link', -, hhandle⟩ := handle_of_output?_eq_some ((output?_eq hlink).trans haccept)
        rw [hhandle, timers_react_of_not_failed _ hother, timers_put,
          Link.started_of_not_failed haccept hother]
        exact List.Perm.refl _
  · next hlink =>
    have hnone : s.output? e = none := by
      rw [output?, channel?, hlink]
      rfl
    rw [handle_of_output?_eq_none hnone]
    exact List.Perm.refl _

theorem IsPaced.of_perm {events' : List Event} (h : s.IsPaced events) (hperm : events'.Perm events) :
    s.IsPaced events' :=
  fun k link hlink ↦ (h k link hlink).of_count fun _ ↦ hperm.count_eq _

theorem IsPaced.of_link? {s' : Session} (h : s.IsPaced events) (hlink : ∀ k, s'.link? k = s.link? k)
    (hpolicy : s'.policy = s.policy) : s'.IsPaced events := by
  intro k link hk
  rw [hpolicy]
  exact h k link (hlink k ▸ hk)

theorem IsPaced.handle (hwired : s.IsWired deltaTypes) (h : s.IsPaced (e :: events)) :
    (s.handle e).IsPaced (s.started e ++ events) := by
  intro k link' hlink'
  rw [link?_handle] at hlink'
  have hpolicy : (s.handle e).policy = s.policy := policy_perform s (.handle e)
  rw [hpolicy]
  split at hlink'
  · next hk =>
    subst hk
    obtain ⟨link, hlink, rfl⟩ := Option.map_eq_some_iff.1 hlink'
    rw [started, hlink]
    exact (h _ link hlink).handle (hwired.kind_of_link? hlink)
  · next hk =>
    refine (h k link' hlink').of_count fun g ↦ ?_
    have hstarted : (s.started e).count (.retry k g) = 0 := by
      refine List.count_eq_zero_of_not_mem fun hmem ↦ hk ?_
      exact channel_of_mem_started hmem
    have hne : e ≠ .retry k g := by
      rintro rfl
      exact hk rfl
    rw [List.count_append, hstarted, Nat.zero_add, List.count_cons_of_ne hne]

/-- What the user does meanwhile asks for no retries and makes all that are on their way stale. -/
theorem IsPaced.perform (hwired : s.IsWired deltaTypes) (h : s.IsPaced events) {b : Action}
    (hb : ∀ e, b ≠ .handle e) : (s.perform b).IsPaced events := by
  intro k link' hlink'
  rw [link?_perform hwired] at hlink'
  obtain ⟨link, hlink, rfl⟩ := Option.map_eq_some_iff.1 hlink'
  rw [policy_perform]
  have hpaced := h k link hlink
  cases b with
  | handle e => exact absurd rfl (hb e)
  | connect => exact hpaced.connect
  | disconnect => exact hpaced.disconnect
  | send message => exact hpaced.send message
  | wait span => exact hpaced
  | takeNotices => exact hpaced

end Session

namespace LiveSession

variable {l : LiveSession} {a : Action} {actions : List Action} {k : ChannelKind} {g : Nat}
  {link : Link} {deltaTypes : List String}

theorem isPaced_advance (h : l.session.IsPaced l.undelivered) (span : Nat) :
    (l.advance span).session.IsPaced (l.advance span).undelivered :=
  (h.of_perm (undelivered_advance l span)).of_link? (fun k ↦ by cases k <;> rfl) rfl

theorem isPaced_update {s : Session}
    (h : s.IsPaced (s.timers.map Timer.event ++ l.inbox.pending)) :
    (l.update s).session.IsPaced (l.update s).undelivered :=
  isPaced_advance (l := { l with session := s }) h 0

theorem isPaced_handle (hwired : l.session.IsWired deltaTypes) {e : Event}
    (h : l.session.IsPaced (e :: l.undelivered)) :
    (l.handle e).session.IsPaced (l.handle e).undelivered := by
  refine isPaced_update ((h.handle hwired).of_perm ?_)
  rw [undelivered, ← List.append_assoc]
  exact (Session.perm_timers_handle l.session e).append_right _

theorem isPaced_call (hwired : l.session.IsWired deltaTypes) (h : l.session.IsPaced l.undelivered)
    (b : Session.Action) (hb : ∀ e, b ≠ .handle e)
    (htimers : (l.session.perform b).timers = l.session.timers) :
    (l.update (l.session.perform b)).session.IsPaced (l.update (l.session.perform b)).undelivered := by
  refine isPaced_update ?_
  rw [htimers]
  exact h.perform hwired hb

theorem isPaced_perform (hwired : l.session.IsWired deltaTypes)
    (h : l.session.IsPaced l.undelivered) (a : Action) :
    (l.perform a).session.IsPaced (l.perform a).undelivered := by
  have hcons : ∀ e : Event, e.signal ≠ .retryDue → l.session.IsPaced (e :: l.undelivered) :=
    fun e he k link hlink ↦ (h k link hlink).of_count fun g ↦ count_cons_retry_of_ne he _
  cases a with
  | post e he =>
    rw [perform, undelivered_post]
    exact (hcons e he).of_perm (List.perm_append_singleton e _)
  | handle e he => exact isPaced_handle hwired (hcons e he)
  | next =>
    cases htake : l.inbox.take? with
    | none => simpa [perform, step?, htake] using h
    | some taken =>
      obtain ⟨e, inbox⟩ := taken
      have hnext : l.perform .next = ({ l with inbox := inbox } : LiveSession).handle e := by
        simp [perform, step?, htake]
      rw [hnext]
      refine isPaced_handle (l := { l with inbox := inbox }) hwired (h.of_perm ?_)
      rw [undelivered, undelivered, pending_of_take? htake]
      exact List.perm_middle.symm
  | advance span => exact isPaced_advance h span
  | defer index span =>
    refine (h.of_perm ?_).of_link? (fun k ↦ by cases k <;> rfl) rfl
    exact (perm_deferred l.session.timers index span).append_right _
  | connect => exact isPaced_call hwired h .connect (by simp) l.session.timers_connect
  | disconnect => exact isPaced_call hwired h .disconnect (by simp) l.session.timers_disconnect
  | send message =>
    exact isPaced_call hwired h (.send message) (by simp) (l.session.timers_send message)
  | takeNotices => exact isPaced_call hwired h .takeNotices (by simp) rfl

theorem isPaced_run (hwired : l.session.IsWired deltaTypes) (h : l.session.IsPaced l.undelivered)
    (actions : List Action) : (l.run actions).session.IsPaced (l.run actions).undelivered := by
  induction actions generalizing l with
  | nil => exact h
  | cons a actions ih => exact ih (isWired_perform hwired a) (isPaced_perform hwired h a)

/-! ### The latest failure -/

/-- A step makes a live channel fail, with the link that it then has. -/
def Fails (l : LiveSession) (a : Action) (k : ChannelKind) (link : Link) : Prop :=
  ∃ old reason, l.session.link? k = some old ∧ old.channel.phase.isLive = true ∧
    l.taken? a = some ⟨k, old.channel.generation, .failed reason⟩ ∧
    link = ⟨(old.channel.fail reason).2, old.attempts + 1⟩

theorem link?_of_failed (hwired : l.session.IsWired deltaTypes)
    (hlink : (l.perform a).session.link? k = some link) (hphase : link.channel.phase = .failed) :
    l.session.link? k = some link ∨ l.Fails a k link := by
  rw [link?_perform hwired, Option.map_eq_some_iff] at hlink
  obtain ⟨old, hold, rfl⟩ := hlink
  cases hcall : l.call? a with
  | none =>
    left
    rw [hold, linkAfter, hcall]
  | some b =>
    have hafter : l.linkAfter a old = old.after b := by rw [linkAfter, hcall]
    rw [hafter] at hphase ⊢
    rcases Link.after_of_failed hphase with hsame | ⟨reason, rfl, hlive, hfail⟩
    · left
      rw [hold, hsame]
    · right
      have hkind := hwired.kind_of_link? hold
      exact ⟨old, reason, hold, hlive, taken?_eq_some_iff.2 (hkind ▸ hcall), hfail⟩

/-- A channel that has failed at the end of a run has failed in it, and nothing has happened to it since;
or it was so from the start. -/
theorem exists_fails (hwired : l.session.IsWired deltaTypes)
    (hlink : (l.run actions).session.link? k = some link) (hphase : link.channel.phase = .failed) :
    (∀ more, more <+: actions → (l.run more).session.link? k = some link) ∨
      ∃ earlier a later, actions = earlier ++ a :: later ∧ (l.run earlier).Fails a k link ∧
        ∀ more, more <+: later → (l.run (earlier ++ a :: more)).session.link? k = some link := by
  -- by induction on the first step, so that what comes later is known to keep the link
  induction actions generalizing l with
  | nil =>
    left
    intro more hmore
    rwa [List.prefix_nil.1 hmore]
  | cons a actions ih =>
    rcases ih (isWired_perform hwired a) hlink with hstays | ⟨earlier, b, later, rfl, hfails, hstays⟩
    · rcases link?_of_failed hwired (hstays [] List.nil_prefix) hphase with hold | hfails
      · left
        intro more hmore
        rcases List.prefix_cons_iff.1 hmore with rfl | ⟨rest, rfl, hrest⟩
        · exact hold
        · exact hstays rest hrest
      · exact .inr ⟨[], a, actions, rfl, hfails, hstays⟩
    · exact .inr ⟨a :: earlier, b, later, rfl, hfails, hstays⟩

theorem notices_of_fails (hwired : l.session.IsWired deltaTypes) (h : l.Fails a k link) :
    ∃ reason, (l.perform a).session.notices = l.session.notices ++
      [.channelError (.transport k reason),
        match l.session.policy.delay? link.attempts with
        | none => .reconnectExhausted k (link.attempts - 1)
        | some delay => .reconnectScheduled k link.attempts delay] := by
  obtain ⟨old, reason, hold, hlive, htaken, rfl⟩ := h
  refine ⟨reason, ?_⟩
  have haccept := Link.accept_failure (hwired.kind_of_link? hold) hlive reason
  rcases session_perform l a with ⟨b, hcall, hsession⟩ | ⟨hcall, -⟩
  · cases hcall.symm.trans (taken?_eq_some_iff.1 htaken)
    have hhandle := (Session.handle_of_failed hold haccept).2
    rw [hsession]
    exact hhandle
  · cases hcall.symm.trans (taken?_eq_some_iff.1 htaken)

/-! ### The retry itself -/

/-- The retry that a failed channel waits for connects it, and does nothing to the other channel. -/
theorem link?_of_retry (hwired : l.session.IsWired deltaTypes)
    (htaken : l.taken? a = some (.retry k link.channel.generation))
    (hlink : l.session.link? k = some link) (hphase : link.channel.phase = .failed) :
    (l.perform a).session.link? k = some { link with channel := link.channel.connect.2 } ∧
      ∀ other, other ≠ k → (l.perform a).session.link? other = l.session.link? other := by
  have hcall := taken?_eq_some_iff.1 htaken
  have hafter : ∀ old, l.linkAfter a old = old.handle (.retry k link.channel.generation) := by
    intro old
    rw [linkAfter, hcall]
    rfl
  have hkind := hwired.kind_of_link? hlink
  constructor
  · rw [link?_perform hwired, hlink, Option.map_some, hafter]
    cases link.handled (.retry k link.channel.generation) with
    | dropped hnone _ =>
      rw [← hkind] at hnone
      exact absurd hnone (Link.accept_retry_ne_none hphase)
    | news _ _ _ hsignal => exact absurd rfl hsignal
    | failure reason he => cases he
    | retry _ _ _ hhandle => rw [hhandle]
  · intro other hother
    rw [link?_perform hwired]
    cases hold : l.session.link? other with
    | none => rfl
    | some old =>
      have hne : (Event.retry k link.channel.generation).channel ≠ old.channel.kind := by
        rw [hwired.kind_of_link? hold]
        exact fun heq ↦ hother heq.symm
      rw [Option.map_some, hafter, Link.handle_of_none (by rw [Channel.accept_of_channel_ne hne])]

/-! ### At most one retry for a failure -/

/-- What comes of the event that a step hands over, if it is one of a connection. -/
def output? (l : LiveSession) (k : ChannelKind) (g : Nat) (a : Action) : Option Output :=
  (l.taken? a).bind fun e ↦ if e.channel = k ∧ e.generation = g then l.session.output? e else none

def outputs (l : LiveSession) (k : ChannelKind) (g : Nat) : List Action → List Output
  | [] => []
  | a :: actions => (l.output? k g a).toList ++ (l.perform a).outputs k g actions

def failures (l : LiveSession) (k : ChannelKind) (g : Nat) (actions : List Action) : Nat :=
  (l.outputs k g actions).countP fun | .failed _ => true | _ => false

def retriesTaken (l : LiveSession) (k : ChannelKind) (g : Nat) (actions : List Action) : Nat :=
  (l.outputs k g actions).countP fun | .retryDue => true | _ => false

/-- An event of a connection counts only for the generation that its channel has. -/
theorem of_output?_eq_some (hwired : l.session.IsWired deltaTypes) {output : Output}
    (h : l.output? k g a = some output) :
    ∃ e, l.call? a = some (.handle e) ∧ ∃ old, l.session.link? k = some old ∧
      old.channel.generation = g ∧ (old.channel.accept e).1 = some output ∧
      ∀ link, (l.perform a).session.link? k = some link → link = old.handle e := by
  obtain ⟨e, htaken, he⟩ := Option.bind_eq_some_iff.1 h
  split at he
  · next hhere =>
    obtain ⟨rfl, rfl⟩ := hhere
    obtain ⟨old, hold, -⟩ := Session.handle_of_output?_eq_some he
    rw [Session.output?_eq hold] at he
    have hcall := taken?_eq_some_iff.1 htaken
    obtain ⟨hcurrent, -⟩ := Channel.of_accept_eq_some he
    refine ⟨e, hcall, old, hold, (Channel.eq_of_isCurrent hcurrent).2.symm, he, ?_⟩
    intro link hlink
    rw [link?_perform hwired, hold, Option.map_some, linkAfter, hcall] at hlink
    exact (Option.some.inj hlink).symm
  · cases he

theorem Fails.output? (hwired : l.session.IsWired deltaTypes) (h : l.Fails a k link) :
    ∃ error, l.output? k link.channel.generation a = some (.failed error) := by
  obtain ⟨old, reason, hold, hlive, htaken, rfl⟩ := h
  refine ⟨.transport k reason, ?_⟩
  rw [LiveSession.output?, htaken, Option.bind_some, if_pos ⟨rfl, rfl⟩, Session.output?_eq hold,
    Link.accept_failure (hwired.kind_of_link? hold) hlive]

theorem forall_perform (hwired : l.session.IsWired deltaTypes) {P Q : Link → Prop}
    (hstep : ∀ b old, l.call? a = some b → P old → Q (old.after b)) (hsame : ∀ old, P old → Q old)
    (h : ∀ old, l.session.link? k = some old → P old) :
    ∀ link, (l.perform a).session.link? k = some link → Q link := by
  intro link hlink
  rw [link?_perform hwired, Option.map_eq_some_iff] at hlink
  obtain ⟨old, hold, rfl⟩ := hlink
  cases hcall : l.call? a with
  | none =>
    rw [linkAfter, hcall]
    exact hsame old (h old hold)
  | some b =>
    rw [linkAfter, hcall]
    exact hstep b old hcall (h old hold)

theorem outputs_of_past (hwired : l.session.IsWired deltaTypes)
    (h : ∀ link, l.session.link? k = some link → g < link.channel.generation) (actions : List Action) :
    l.outputs k g actions = [] := by
  induction actions generalizing l with
  | nil => rfl
  | cons a actions ih =>
    have hnone : l.output? k g a = none := by
      cases hout : l.output? k g a with
      | none => rfl
      | some output =>
        obtain ⟨-, -, old, hold, hgeneration, -⟩ := of_output?_eq_some hwired hout
        exact absurd (h old hold) (by omega)
    have hnext := ih (isWired_perform hwired a) (forall_perform hwired
      (P := fun link ↦ g < link.channel.generation) (Q := fun link ↦ g < link.channel.generation)
      (fun b old _ hlt ↦ by
        have hle := Session.generation_le_channelAfter old.channel b
        rw [← Link.channel_after] at hle
        omega) (fun _ hlt ↦ hlt) h)
    rw [outputs, hnone, hnext]
    rfl

/-- After a failure its connection fails no more, and one retry of it is taken at most. -/
theorem taken_of_hasFailed (hwired : l.session.IsWired deltaTypes)
    (h : ∀ link, l.session.link? k = some link → Session.HasFailed g link.channel)
    (actions : List Action) : l.failures k g actions = 0 ∧ l.retriesTaken k g actions ≤ 1 := by
  induction actions generalizing l with
  | nil => exact ⟨rfl, Nat.zero_le 1⟩
  | cons a actions ih =>
    have hwired' := isWired_perform hwired a
    rw [failures, retriesTaken, outputs, List.countP_append, List.countP_append]
    cases hout : l.output? k g a with
    | none =>
      have hnext := ih hwired' (forall_perform hwired (P := fun link ↦ Session.HasFailed g link.channel)
        (fun b old _ hold ↦ by
          rw [Link.channel_after]
          exact hold.channelAfter b) (fun _ hold ↦ hold) h)
      simpa [failures, retriesTaken] using hnext
    | some output =>
      obtain ⟨e, -, old, hold, hgeneration, haccept, hafter⟩ := of_output?_eq_some hwired hout
      have hphase : old.channel.phase = .failed := by
        rcases h old hold with hlt | ⟨-, hphase⟩
        · omega
        · exact hphase
      have hlive := Channel.isLive_eq_false_of_failed hphase
      obtain ⟨rfl, hhandle⟩ : output = .retryDue ∧
          old.handle e = { old with channel := old.channel.connect.2 } := by
        cases old.handled e with
        | dropped hnone _ => cases hnone.symm.trans haccept
        | news _ _ _ _ hold => cases hlive.symm.trans hold
        | failure _ _ hold => cases hlive.symm.trans hold
        | retry _ _ hretry hhandle =>
          cases hretry.symm.trans haccept
          exact ⟨rfl, hhandle⟩
      -- The retry starts another connection, and nothing of an older one is heard after that.
      have hpast : ∀ link, (l.perform a).session.link? k = some link → g < link.channel.generation := by
        intro link hlink
        rw [hafter link hlink, hhandle]
        change g < old.channel.connect.2.generation
        rw [Channel.generation_connect, if_neg (by simp [hlive]), hgeneration]
        exact Nat.lt_succ_self g
      rw [outputs_of_past hwired' hpast actions]
      exact ⟨rfl, Nat.le_refl 1⟩

/-- A connection that has not failed fails once at most, and only then a retry of it is taken. -/
theorem taken_of_not_failed (hwired : l.session.IsWired deltaTypes)
    (h : ∀ link, l.session.link? k = some link →
      ¬(link.channel.generation = g ∧ link.channel.phase = .failed)) (actions : List Action) :
    l.retriesTaken k g actions ≤ l.failures k g actions ∧ l.failures k g actions ≤ 1 := by
  induction actions generalizing l with
  | nil => exact ⟨Nat.le_refl 0, Nat.zero_le 1⟩
  | cons a actions ih =>
    have hwired' := isWired_perform hwired a
    rw [failures, retriesTaken, outputs, List.countP_append, List.countP_append]
    cases hout : l.output? k g a with
    | none =>
      have hnext : ∀ link, (l.perform a).session.link? k = some link →
          ¬(link.channel.generation = g ∧ link.channel.phase = .failed) := by
        rintro link hlink ⟨rfl, hphase⟩
        rcases link?_of_failed hwired hlink hphase with hold | hfails
        · exact h link hold ⟨rfl, hphase⟩
        · obtain ⟨error, hfailed⟩ := hfails.output? hwired
          cases hfailed.symm.trans hout
      simpa [failures, retriesTaken] using ih hwired' hnext
    | some output =>
      obtain ⟨e, -, old, hold, hgeneration, haccept, hafter⟩ := of_output?_eq_some hwired hout
      cases old.handled e with
      | dropped hnone _ => cases hnone.symm.trans haccept
      | news _ hout' hfailed hsignal _ hphase _ =>
        cases hout'.symm.trans haccept
        have hretry : output ≠ .retryDue := by
          rintro rfl
          exact hsignal (Channel.signal_eq_of_accept_retryDue haccept).1
        have hnext := ih hwired' fun link hlink hfailed ↦ by
          rw [hafter link hlink] at hfailed
          exact hphase hfailed.2
        cases output with
        | failed error => exact absurd rfl (hfailed error)
        | retryDue => exact absurd rfl hretry
        | _ => simpa [failures, retriesTaken] using hnext
      | failure reason _ _ hout' hhandle =>
        -- the one failure of this connection; what comes after it is bounded already
        cases hout'.symm.trans haccept
        obtain ⟨hfailures, hretries⟩ := taken_of_hasFailed hwired' (fun link hlink ↦ by
          rw [hafter link hlink, hhandle]
          exact .inr ⟨hgeneration, rfl⟩) actions
        rw [failures] at hfailures
        rw [retriesTaken] at hretries
        rw [hfailures]
        simpa using hretries
      | retry _ hphase => exact absurd ⟨hgeneration, hphase⟩ (h old hold)

/-! ### Any run -/

/-- How many retries of a connection are yet to be handled. -/
def retries (l : LiveSession) (k : ChannelKind) (g : Nat) : Nat := l.undelivered.count (.retry k g)

def ofMode (mode : Mode) (o : Session.Options) (capacity : Nat) : LiveSession :=
  { session := .ofMode mode o, inbox := { capacity := capacity } }

variable {mode : Mode} {o : Session.Options} {capacity : Nat}

theorem phase_ofMode (h : (ofMode mode o capacity).session.link? k = some link) :
    link.channel.phase = .closed := by
  cases mode <;> cases k <;> cases h <;> rfl

theorem isPaced_ofMode (mode : Mode) (o : Session.Options) (capacity : Nat) :
    (ofMode mode o capacity).session.IsPaced (ofMode mode o capacity).undelivered := by
  intro k link hlink
  refine ⟨fun g _ ↦ rfl, ?_⟩
  rw [Link.awaited_of_phase_ne]
  · rfl
  · rw [phase_ofMode hlink]
    rintro ⟨⟩

/-- A failed channel is never stuck and never retried twice. It has been failed since its latest failure;
then the policy has given up and this has been reported, or one retry of the present generation is still to
be handled. When it is, it opens one transport, of a new generation. No connection fails twice, and a
retry is taken at most once and only of a connection that has failed. -/
theorem run_retries_failures (mode : Mode) (o : Session.Options) (capacity : Nat)
    (actions : List Action) :
    let start := ofMode mode o capacity
    let l := start.run actions
    (∀ k link, l.session.link? k = some link → link.channel.phase = .failed →
      ∃ earlier a later reason, actions = earlier ++ a :: later ∧
        (start.run earlier).Fails a k link ∧
        (∀ more, more <+: later → (start.run (earlier ++ a :: more)).session.link? k = some link) ∧
        ((o.policy.delay? link.attempts = none ∧ l.retries k link.channel.generation = 0 ∧
            (start.run (earlier ++ [a])).session.notices = (start.run earlier).session.notices ++
              [.channelError (.transport k reason), .reconnectExhausted k (link.attempts - 1)]) ∨
          ∃ delay, o.policy.delay? link.attempts = some delay ∧
            l.retries k link.channel.generation = 1 ∧
            (start.run (earlier ++ [a])).session.notices = (start.run earlier).session.notices ++
              [.channelError (.transport k reason), .reconnectScheduled k link.attempts delay])) ∧
    (∀ a k link, l.session.link? k = some link → link.channel.phase = .failed →
      l.taken? a = some (.retry k link.channel.generation) →
      (∃ link', (l.perform a).session.link? k = some link' ∧ link'.channel.phase = .connecting ∧
        link'.channel.generation = link.channel.generation + 1 ∧
        link'.channel.generations = link.channel.generations ++ [link.channel.generation + 1] ∧
        ∀ g ∈ link.channel.generations, g < link.channel.generation + 1) ∧
      ∀ other, other ≠ k → (l.perform a).session.link? other = l.session.link? other) ∧
    ∀ k g, start.retriesTaken k g actions ≤ start.failures k g actions ∧
      start.failures k g actions ≤ 1 := by
  intro start l
  have hstart : start.session.IsWired o.deltaTypes := Session.isWired_ofMode mode o
  have hwired : l.session.IsWired o.deltaTypes := isWired_run hstart actions
  refine ⟨?_, ?_, ?_⟩
  · intro k link hlink hphase
    have hpaced := isPaced_run hstart (isPaced_ofMode mode o capacity) actions k link hlink
    have hretries : l.retries k link.channel.generation = link.awaited o.policy := by
      rw [retries, hpaced.present, policy_run]
      rfl
    rcases exists_fails hstart hlink hphase with hstays | ⟨earlier, a, later, hsplit, hfails, hstays⟩
    · have hclosed := phase_ofMode (hstays [] List.nil_prefix)
      cases hclosed.symm.trans hphase
    · obtain ⟨reason, hnotices⟩ := notices_of_fails (isWired_run hstart earlier) hfails
      refine ⟨earlier, a, later, reason, hsplit, hfails, hstays, ?_⟩
      have hpolicy : (start.run earlier).session.policy = o.policy := policy_run start earlier
      rw [hpolicy] at hnotices
      rw [run_append, run_cons, run_nil, hnotices, hretries, Link.awaited]
      cases hdelay : o.policy.delay? link.attempts with
      | none => exact .inl ⟨rfl, if_neg (by simp), rfl⟩
      | some delay => exact .inr ⟨delay, rfl, if_pos ⟨hphase, rfl⟩, rfl⟩
  · intro a k link hlink hphase htaken
    obtain ⟨hconnects, hothers⟩ := link?_of_retry hwired htaken hlink hphase
    have hsound := hwired.isSound k link.channel (by rw [Session.channel?, hlink]; rfl)
    have hlive := Channel.isLive_eq_false_of_failed hphase
    refine ⟨⟨_, hconnects, ?_, ?_, Channel.generations_connect hlive, ?_⟩, hothers⟩
    · rw [Channel.connect_of_not_isLive hlive]
      rfl
    · rw [Channel.connect_of_not_isLive hlive]
      rfl
    · intro g hg
      exact Nat.lt_succ_of_le (hsound.le_generation g hg)
  · intro k g
    refine taken_of_not_failed hstart ?_ actions
    rintro link hlink ⟨-, hphase⟩
    cases (phase_ofMode hlink).symm.trans hphase

/-- A connection fails, and the timer of its retry has posted. -/
def interrupted : List Action :=
  [.connect, .post ⟨.socket, 1, .opened⟩ (by decide), .next,
    .post ⟨.socket, 1, .failed "reset"⟩ (by decide), .next, .advance 500]

theorem run_retries_failures_interrupted :
    let l := (ofMode .socket {} 8).run interrupted
    l.retries .socket 1 = 1 ∧
      ∃ link, (l.perform .next).session.link? .socket = some link ∧ link.channel.phase = .connecting ∧
        link.channel.generation = 2 := by
  intro l
  obtain ⟨hfailed, hretry, -⟩ := run_retries_failures .socket {} 8 interrupted
  have hsome : (l.session.link? .socket).isSome = true := by decide +kernel
  obtain ⟨link, hlink⟩ := Option.isSome_iff_exists.1 hsome
  have hview : (l.session.link? .socket).map
      (fun link ↦ (link.channel.phase, link.channel.generation, link.attempts)) =
        some (.failed, 1, 1) := by decide +kernel
  rw [hlink, Option.map_some, Option.some.injEq, Prod.mk.injEq, Prod.mk.injEq] at hview
  obtain ⟨hphase, hgeneration, hattempts⟩ := hview
  have htaken : l.taken? .next = some (.retry .socket link.channel.generation) := by
    rw [hgeneration]
    decide +kernel
  constructor
  · obtain ⟨_, _, _, _, -, -, -, hcases⟩ := hfailed .socket link hlink hphase
    rw [hattempts, hgeneration] at hcases
    rcases hcases with ⟨hnone, -⟩ | ⟨-, -, hone, -⟩
    · cases hnone
    · exact hone
  · obtain ⟨⟨link', hlink', hconnecting, hnew, -⟩, -⟩ :=
      hretry .next .socket link hlink hphase htaken
    rw [hgeneration] at hnew
    exact ⟨link', hlink', hconnecting, hnew⟩

end LiveSession
end AgentReply
