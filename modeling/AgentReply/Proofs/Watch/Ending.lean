import AgentReply.Proofs.Session.Connected
import AgentReply.Proofs.Session.Notices
import AgentReply.Proofs.Watch.Printing

/-!
# When a watch ends

A watch does not see whether a retry is on its way. It remembers the channels of which a notice has said
that they are given up, and forgets those that are not failed any more. What it goes by is nevertheless
the state of the session: a failed channel is remembered, or a notice that is yet to be taken names it,
just if the policy allows no further attempt, and then no retry of it is on its way. So a watch ends as
soon as nothing can happen any more, and not before.
-/

namespace AgentReply

namespace LiveSession

variable {l : LiveSession} {a : Action} {k : ChannelKind} {link : Link} {deltaTypes : List String}

/-- No channel that the mode needs has a connection or is about to have one, and no retry of the present
generation of one is on its way. -/
def IsIdle (l : LiveSession) : Prop :=
  ∀ k ∈ l.session.mode.channels, ∃ c, l.session.channel? k = some c ∧
    c.phase ≠ .connecting ∧ c.phase ≠ .opened ∧ l.retries k c.generation = 0

/-- Whether a session is idle can be told from its links. -/
theorem isIdle_iff (hwired : l.session.IsWired deltaTypes) (hpaced : l.session.IsPaced l.undelivered) :
    l.IsIdle ↔ ∀ k link, l.session.link? k = some link → link.channel.phase = .closed ∨
      link.channel.phase = .failed ∧ l.session.policy.delay? link.attempts = none := by
  have hlink : ∀ k link, l.session.link? k = some link →
      (link.channel.phase ≠ .connecting ∧ link.channel.phase ≠ .opened ∧
          l.retries k link.channel.generation = 0 ↔
        link.channel.phase = .closed ∨
          link.channel.phase = .failed ∧ l.session.policy.delay? link.attempts = none) := by
    intro k link hlink
    rw [retries, (hpaced k link hlink).present, Link.awaited]
    cases link.channel.phase <;> simp
  constructor
  · intro hidle k link hk
    obtain ⟨c, hc, hspent⟩ := hidle k (hwired.mem_channels_of_link? hk)
    cases (Session.channel?_of_link? hk).symm.trans hc
    exact (hlink k link hk).1 hspent
  · intro hspent k hmem
    obtain ⟨link, hk⟩ := hwired.exists_link hmem
    exact ⟨link.channel, Session.channel?_of_link? hk, (hlink k link hk).2 (hspent k link hk)⟩

theorem isIdle_perform_of_call?_eq_none (hwired : l.session.IsWired deltaTypes)
    (hpaced : l.session.IsPaced l.undelivered) (h : l.call? a = none) :
    (l.perform a).IsIdle ↔ l.IsIdle := by
  have hlink : ∀ k, (l.perform a).session.link? k = l.session.link? k :=
    fun k ↦ link?_perform_of_call?_eq_none hwired h
  rw [isIdle_iff (isWired_perform hwired a) (isPaced_perform hwired hpaced a), isIdle_iff hwired hpaced,
    policy_perform]
  simp only [hlink]

end LiveSession

namespace Watch

variable {w : Watch} {k : ChannelKind} {mode : Mode} {deltaTypes : List String}

/-! ### Moves -/

/-- Something that happens to a watch that the user does not end. Only its timers post retries. -/
inductive Move where
  | post (e : Event) (h : e.signal ≠ .retryDue)
  | next
  | type (line : String)
  | advance (span : ℕ)
  /-- A timer is late. -/
  | defer (index span : ℕ)

def move (w : Watch) : Move → Watch
  | .post e _ => w.post e
  | .next => w.next.2
  | .type line => (w.type line).2
  | .advance span => (w.advance span).2
  | .defer index span => { w with live := w.live.perform (.defer index span) }

def moveAll (w : Watch) (moves : List Move) : Watch := moves.foldl move w

/-- The session to which a move leads, before the watch looks at it. -/
def liveAfter (w : Watch) : Move → LiveSession
  | .post e h => w.live.perform (.post e h)
  | .next => w.live.perform .next
  | .type line => if Text.isBlankText line then w.live else w.live.perform (.send line)
  | .advance span => w.live.perform (.advance span)
  | .defer index span => w.live.perform (.defer index span)

/-! ### What a watch knows -/

/-- A watch that goes on knows of every failed channel whether it is given up, once it has taken its
notices. -/
structure IsInformed (w : Watch) (mode : Mode) (deltaTypes : List String) : Prop where
  running : w.outcome = none
  goesOn : w.options.once = false
  mode_eq : w.session.mode = mode
  isWired : w.session.IsWired deltaTypes
  isPaced : w.session.IsPaced w.live.undelivered
  heard : w.session.notices.length ≤ Session.noticeCapacity
  givenUp_iff : ∀ k link, w.session.link? k = some link → link.channel.phase = .failed →
    (k ∈ w.exhausted ∨ k ∈ w.session.notices.filterMap Notice.givesUp? ↔
      w.session.policy.delay? link.attempts = none)

/-- A watch between two moves. -/
structure IsWaiting (w : Watch) (mode : Mode) (deltaTypes : List String) : Prop extends
    IsInformed w mode deltaTypes where
  notices_eq : w.session.notices = []
  failed : ∀ k ∈ w.exhausted, w.phase? k = some .failed
  busy : ¬w.live.IsIdle

/-- A watch has looked at a session: it has ended if nothing can happen any more, with an error if a
channel has failed; otherwise it goes on with this session. -/
def Settles (w : Watch) (l : LiveSession) (mode : Mode) (deltaTypes : List String) : Prop :=
  (l.IsIdle ∧ ∃ outcome, w.outcome = some outcome ∧ (outcome.error?.isSome = true ↔
      ∃ k ∈ l.session.mode.channels, ∃ c, l.session.channel? k = some c ∧ c.phase = .failed)) ∨
    ¬l.IsIdle ∧ w.IsWaiting mode deltaTypes ∧ w.live = { l with session := l.session.takeNotices.2 }

theorem IsInformed.mem_exhausted_iff (h : w.IsInformed mode deltaTypes) (hnotices : w.session.notices = [])
    {link : Link} (hlink : w.session.link? k = some link) (hphase : link.channel.phase = .failed) :
    k ∈ w.exhausted ↔ w.session.policy.delay? link.attempts = none := by
  have hknown := h.givenUp_iff k link hlink hphase
  rwa [hnotices, List.filterMap_nil, or_iff_left List.not_mem_nil] at hknown

/-- A step of the session leaves a watch informed: a channel that fails in it for good is named. -/
theorem IsWaiting.perform (h : w.IsWaiting mode deltaTypes) {a : LiveSession.Action}
    (ha : w.live.call? a ≠ some .takeNotices) :
    ({ w with live := w.live.perform a } : Watch).IsInformed mode deltaTypes := by
  have hnotices : (w.live.perform a).session.notices = w.live.reports a := by
    rw [LiveSession.notices_perform w.live ha, show w.live.session.notices = [] from h.notices_eq,
      List.nil_append]
  refine ⟨h.running, h.goesOn, (w.live.mode_perform a).trans h.mode_eq,
    LiveSession.isWired_perform h.isWired a, LiveSession.isPaced_perform h.isWired h.isPaced a, ?_, ?_⟩
  · change (w.live.perform a).session.notices.length ≤ _
    rw [hnotices]
    -- nothing is pushed out: all notices were taken after the last step
    exact Nat.le_trans (w.live.length_reports_le a) (by decide)
  · intro k link hlink hphase
    change k ∈ w.exhausted ∨ k ∈ (w.live.perform a).session.notices.filterMap _ ↔
      (w.live.perform a).session.policy.delay? _ = none
    rw [hnotices, LiveSession.mem_givesUp_reports h.isWired, LiveSession.policy_perform]
    rcases LiveSession.link?_of_failed h.isWired hlink hphase with hold | hfails
    · -- the channel had failed before, so it does not fail now
      have hstill : ¬∃ link, w.live.Fails a k link ∧
          w.live.session.policy.delay? link.attempts = none := by
        rintro ⟨_, ⟨old, _, hold', hlive, _⟩, _⟩
        cases hold.symm.trans hold'
        exact Link.ne_failed_of_isLive hlive hphase
      rw [or_iff_left hstill]
      exact h.mem_exhausted_iff h.notices_eq hold hphase
    · -- the channel was live, and only failed channels are remembered
      have hnew : k ∉ w.exhausted := by
        intro hmem
        obtain ⟨old, _, hold, hlive, _⟩ := hfails
        have hfailed := h.failed k hmem
        rw [phase?, Session.channel?, show w.session.link? k = some old from hold] at hfailed
        exact Link.ne_failed_of_isLive hlive (Option.some.inj hfailed)
      constructor
      · rintro (hmem | ⟨link', hfails', hnone⟩)
        · exact absurd hmem hnew
        · rwa [hfails.eq hfails']
      · intro hnone
        exact .inr ⟨link, hfails, hnone⟩

/-! ### The look at a session -/

theorem mem_giveUp {exhausted : List ChannelKind} {n : Notice} :
    k ∈ giveUp exhausted n ↔ k ∈ exhausted ∨ n.givesUp? = some k := by
  cases n with
  | reconnectExhausted kind attempts =>
    rw [giveUp, Notice.givesUp?, Option.some.injEq]
    split
    · next hmem =>
      rw [List.contains_iff_mem] at hmem
      refine ⟨.inl, ?_⟩
      rintro (h | rfl)
      · exact h
      · exact hmem
    · simp [eq_comm]
  | _ => simp [giveUp, Notice.givesUp?]

theorem mem_foldl_giveUp {notices : List Notice} {exhausted : List ChannelKind} :
    k ∈ notices.foldl giveUp exhausted ↔ k ∈ exhausted ∨ k ∈ notices.filterMap Notice.givesUp? := by
  induction notices generalizing exhausted with
  | nil => simp
  | cons n notices ih =>
    rw [List.foldl_cons, ih, mem_giveUp, List.filterMap_cons]
    cases hn : n.givesUp? with
    | none => simp
    | some channel => simp [or_assoc, eq_comm]

theorem isSpent_iff {link : Link} (h : w.session.link? k = some link) :
    w.isSpent k = true ↔ link.channel.phase = .closed ∨
      link.channel.phase = .failed ∧ k ∈ w.exhausted := by
  rw [isSpent, phase?, Session.channel?, h, Option.map_some, Option.map_some]
  cases link.channel.phase <;> simp

/-- The channels that a watch remembers when it decides whether it ends. -/
def remembered (w : Watch) : List ChannelKind :=
  w.exhausted.filter fun kind ↦ w.phase? kind = some Phase.failed

theorem IsInformed.mem_remembered_iff (h : w.IsInformed mode deltaTypes)
    (hnotices : w.session.notices = []) : k ∈ w.remembered ↔ ∃ link, w.session.link? k = some link ∧ link.channel.phase = .failed ∧
      w.session.policy.delay? link.attempts = none := by
  rw [remembered, List.mem_filter, decide_eq_true_iff, phase?, Session.channel?]
  constructor
  · rintro ⟨hmem, hfailed⟩
    obtain ⟨c, hc, hphase⟩ := Option.map_eq_some_iff.1 hfailed
    obtain ⟨link, hlink, rfl⟩ := Option.map_eq_some_iff.1 hc
    exact ⟨link, hlink, hphase, (h.mem_exhausted_iff hnotices hlink hphase).1 hmem⟩
  · rintro ⟨link, hlink, hphase, hnone⟩
    refine ⟨(h.mem_exhausted_iff hnotices hlink hphase).2 hnone, ?_⟩
    rw [hlink, Option.map_some, Option.map_some, hphase]

theorem IsInformed.all_isSpent_iff (h : w.IsInformed mode deltaTypes)
    (hnotices : w.session.notices = []) :
    w.session.mode.channels.all ({ w with exhausted := w.remembered } : Watch).isSpent = true ↔
      w.live.IsIdle := by
  have hspent : ∀ k link, w.session.link? k = some link →
      (({ w with exhausted := w.remembered } : Watch).isSpent k = true ↔ link.channel.phase = .closed ∨
        link.channel.phase = .failed ∧ w.session.policy.delay? link.attempts = none) := by
    intro k link hlink
    rw [isSpent_iff (w := { w with exhausted := w.remembered }) hlink, h.mem_remembered_iff hnotices]
    simp [hlink]
  rw [LiveSession.isIdle_iff h.isWired h.isPaced, List.all_eq_true]
  constructor
  · intro hall k link hlink
    exact (hspent k link hlink).1 (hall k (h.isWired.mem_channels_of_link? hlink))
  · intro hidle k hmem
    obtain ⟨link, hlink⟩ := h.isWired.exists_link hmem
    exact (hspent k link hlink).2 (hidle k link hlink)

theorem IsInformed.remembered_ne_nil_iff (h : w.IsInformed mode deltaTypes)
    (hnotices : w.session.notices = []) (hidle : w.live.IsIdle) : w.remembered ≠ [] ↔
      ∃ k ∈ w.session.mode.channels, ∃ c, w.session.channel? k = some c ∧ c.phase = .failed := by
  constructor
  · intro hne
    obtain ⟨k, hk⟩ := List.exists_mem_of_ne_nil _ hne
    obtain ⟨link, hlink, hphase, -⟩ := (h.mem_remembered_iff hnotices).1 hk
    exact ⟨k, h.isWired.mem_channels_of_link? hlink, link.channel, Session.channel?_of_link? hlink,
      hphase⟩
  · rintro ⟨k, -, c, hc, hphase⟩
    obtain ⟨link, hlink, rfl⟩ := Option.map_eq_some_iff.1 hc
    rcases (LiveSession.isIdle_iff h.isWired h.isPaced).1 hidle k link hlink with hclosed | ⟨-, hnone⟩
    · cases hclosed.symm.trans hphase
    · exact List.ne_nil_of_mem ((h.mem_remembered_iff hnotices).2 ⟨link, hlink, hphase, hnone⟩)

theorem IsWaiting.settles (h : w.IsWaiting mode deltaTypes) : w.Settles w.live mode deltaTypes := by
  have hnone : w.live.session.takeNotices.2 = w.live.session := Session.takeNotices_of_eq_nil h.notices_eq
  exact .inr ⟨h.busy, h, by rw [hnone]⟩

theorem finishIfSpent_eq (w : Watch) :
    w.finishIfSpent = if w.session.mode.channels.all ({ w with exhausted := w.remembered } : Watch).isSpent
      then ({ w with exhausted := w.remembered } : Watch).finish
        (if w.remembered.isEmpty then .ended else .exhausted)
      else ([], { w with exhausted := w.remembered }) := rfl

theorem IsInformed.settles_finishIfSpent (h : w.IsInformed mode deltaTypes)
    (hnotices : w.session.notices = []) : w.finishIfSpent.2.Settles w.live mode deltaTypes := by
  have hspent := h.all_isSpent_iff hnotices
  rw [finishIfSpent_eq]
  split
  · next hall =>
    have hidle := hspent.1 hall
    refine .inl ⟨hidle, _, rfl, ?_⟩
    refine Iff.trans ?_ (h.remembered_ne_nil_iff hnotices hidle)
    cases w.remembered with
    | nil => simp [Outcome.error?]
    | cons k rest => simp [Outcome.error?]
  · next hgoing =>
    have hinformed : ({ w with exhausted := w.remembered } : Watch).IsInformed mode deltaTypes := by
      refine ⟨h.running, h.goesOn, h.mode_eq, h.isWired, h.isPaced, h.heard, ?_⟩
      intro k link hlink hphase
      change k ∈ w.remembered ∨ k ∈ w.session.notices.filterMap _ ↔ _
      rw [hnotices, List.filterMap_nil, or_iff_left List.not_mem_nil, h.mem_remembered_iff hnotices]
      constructor
      · rintro ⟨link', hlink', -, hnone⟩
        cases hlink.symm.trans hlink'
        exact hnone
      · intro hnone
        exact ⟨link, hlink, hphase, hnone⟩
    have hfailed : ∀ k ∈ w.remembered, w.phase? k = some .failed := by
      intro k hmem
      exact of_decide_eq_true (List.mem_filter.1 hmem).2
    have hbusy : ¬w.live.IsIdle := fun hidle ↦ hgoing (hspent.2 hidle)
    exact IsWaiting.settles ⟨hinformed, hnotices, hfailed, hbusy⟩

theorem Settles.of_takeNotices {l : LiveSession}
    (h : w.Settles { l with session := l.session.takeNotices.2 } mode deltaTypes) :
    w.Settles l mode deltaTypes := by
  have hchannel : ∀ k, l.session.takeNotices.2.channel? k = l.session.channel? k := by
    intro k
    cases k <;> rfl
  rw [Settles, LiveSession.IsIdle] at h ⊢
  simp only [hchannel] at h
  exact h

/-- However many notices a step has led to, a watch that is informed ends just if its session is idle. -/
theorem IsInformed.settles_review (h : w.IsInformed mode deltaTypes) :
    w.review.2.Settles w.live mode deltaTypes := by
  obtain ⟨printer, seen, hturn⟩ := w.noticed.exists_takeTurn_snd
  have hlink : ∀ k, w.session.takeNotices.2.link? k = w.session.link? k := by
    intro k
    cases k <;> rfl
  have hexhausted : w.noticed.exhausted = w.session.notices.foldl giveUp w.exhausted := by
    have htaken := congrArg (fun taken ↦ taken.1.2) (Session.takeNotices_of_le h.heard)
    exact congrArg (List.foldl giveUp w.exhausted) htaken
  have hinformed : w.noticed.takeTurn.2.IsInformed mode deltaTypes := by
    rw [hturn]
    refine ⟨h.running, h.goesOn, h.mode_eq, h.isWired.perform .takeNotices, h.isPaced.of_link? hlink rfl,
      Nat.zero_le _, ?_⟩
    intro k link hk hphase
    change k ∈ w.noticed.exhausted ∨ k ∈ ([] : List Notice).filterMap _ ↔ _
    rw [hexhausted, mem_foldl_giveUp, List.filterMap_nil, or_iff_left List.not_mem_nil]
    exact h.givenUp_iff k link (hlink k ▸ hk) hphase
  have hsettles := hinformed.settles_finishIfSpent (by rw [hturn]; rfl)
  rw [review_of_goesOn h.goesOn]
  apply Settles.of_takeNotices
  rw [hturn] at hsettles ⊢
  exact hsettles

/-! ### A move -/

theorem IsWaiting.settles_perform (h : w.IsWaiting mode deltaTypes) {a : LiveSession.Action}
    (ha : w.live.call? a = none) :
    ({ w with live := w.live.perform a } : Watch).Settles (w.live.perform a) mode deltaTypes := by
  have hinformed := h.perform (a := a) (by rw [ha]; simp)
  have hnotices : (w.live.perform a).session.notices = [] := by
    rw [LiveSession.notices_perform w.live (by rw [ha]; simp), LiveSession.reports, LiveSession.taken?, ha,
      List.append_nil]
    exact h.notices_eq
  have hphase : ∀ k, ((w.live.perform a).session.channel? k).map Channel.phase = w.phase? k := by
    intro k
    rw [phase?, Session.channel?, Session.channel?, LiveSession.link?_perform_of_call?_eq_none h.isWired ha]
    rfl
  have hbusy : ¬(w.live.perform a).IsIdle := by
    rw [LiveSession.isIdle_perform_of_call?_eq_none h.isWired h.isPaced ha]
    exact h.busy
  exact IsWaiting.settles ⟨hinformed, hnotices, fun k hmem ↦ (hphase k).trans (h.failed k hmem), hbusy⟩

theorem IsWaiting.not_isSome (h : w.IsWaiting mode deltaTypes) : ¬w.outcome.isSome = true := by
  rw [h.running]
  rintro ⟨⟩

theorem IsWaiting.settles_next (h : w.IsWaiting mode deltaTypes) :
    w.next.2.Settles (w.live.perform .next) mode deltaTypes := by
  rw [Watch.next, if_neg h.not_isSome]
  cases hstep : w.live.step? with
  | none =>
    have hsame : w.live.perform .next = w.live := by rw [LiveSession.perform, hstep]; rfl
    rw [hsame]
    exact h.settles
  | some taken =>
    obtain ⟨e, live⟩ := taken
    have hnext : w.live.perform .next = live := by rw [LiveSession.perform, hstep]; rfl
    have hcall : w.live.call? .next ≠ some .takeNotices := by
      rw [LiveSession.call?]
      cases w.live.inbox.queue.head? <;> simp
    have hinformed := h.perform hcall
    rw [hnext] at hinformed ⊢
    exact hinformed.settles_review

theorem IsWaiting.settles_type (h : w.IsWaiting mode deltaTypes) (line : String) :
    (w.type line).2.Settles (w.liveAfter (.type line)) mode deltaTypes := by
  rw [Watch.type, if_neg h.not_isSome, liveAfter]
  split
  · exact h.settles_review
  · have hreview : (w.update (w.session.send line).2).review.2.Settles
        (w.live.perform (.send line)) mode deltaTypes :=
      (h.perform (a := .send line) (by simp [LiveSession.call?])).settles_review
    split
    · next session hsend =>
      rw [hsend] at hreview
      exact hreview
    · next error session hsend =>
      rw [hsend] at hreview
      exact hreview

theorem IsWaiting.settles_advance (h : w.IsWaiting mode deltaTypes) {span : ℕ}
    (htimely : ∀ mode seconds, (w.advance span).2.outcome ≠ some (.timedOut mode seconds)) :
    (w.advance span).2.Settles (w.live.perform (.advance span)) mode deltaTypes := by
  rw [Watch.advance, if_neg h.not_isSome] at htimely ⊢
  dsimp only at htimely ⊢
  split
  · next hlate =>
    rw [if_pos hlate] at htimely
    exact absurd rfl (htimely _ _)
  · exact h.settles_perform rfl

/-- A watch that has not timed out in a move has ended, if nothing can happen any more, or waits again. -/
theorem IsWaiting.settles_move (h : w.IsWaiting mode deltaTypes) {m : Move}
    (htimely : ∀ mode seconds, (w.move m).outcome ≠ some (.timedOut mode seconds)) :
    (w.move m).Settles (w.liveAfter m) mode deltaTypes := by
  cases m with
  | post e he => exact h.settles_perform (a := .post e he) rfl
  | next => exact h.settles_next
  | type line => exact h.settles_type line
  | advance span => exact h.settles_advance htimely
  | defer index span => exact h.settles_perform (a := .defer index span) rfl

/-! ### A run -/

theorem outcome_move (h : w.outcome.isSome = true) (m : Move) : (w.move m).outcome.isSome = true := by
  cases m with
  | post e he => exact h
  | next => rwa [move, Watch.next, if_pos h]
  | type line => rwa [move, Watch.type, if_pos h]
  | advance span => rwa [move, Watch.advance, if_pos h]
  | defer index span => exact h

theorem IsWaiting.moveAll (h : w.IsWaiting mode deltaTypes) {moves : List Move}
    (hgoing : (w.moveAll moves).outcome = none) : (w.moveAll moves).IsWaiting mode deltaTypes := by
  induction moves using List.reverseRecOn with
  | nil => exact h
  | append_singleton moves m ih =>
    rw [Watch.moveAll, List.foldl_append, List.foldl_cons, List.foldl_nil, ← Watch.moveAll] at hgoing ⊢
    have hbefore : (w.moveAll moves).outcome = none := by
      by_contra hended
      have hafter := outcome_move (Option.isSome_iff_ne_none.2 hended) m
      rw [hgoing] at hafter
      cases hafter
    have hsettles := (ih hbefore).settles_move (m := m) (by rw [hgoing]; simp)
    rcases hsettles with ⟨-, _, hended, -⟩ | ⟨-, hwaits, -⟩
    · cases hgoing.symm.trans hended
    · exact hwaits

theorem phase_connect_ofMode {o : Session.Options} {link : Link}
    (h : (Session.ofMode mode o).connect.2.link? k = some link) : link.channel.phase = .connecting := by
  have hstart : (Session.ofMode mode o).IsWired o.deltaTypes := Session.isWired_ofMode mode o
  rw [Session.link?_connect hstart, Option.map_eq_some_iff] at h
  obtain ⟨old, hold, rfl⟩ := h
  have hold' : (LiveSession.ofMode mode o 0).session.link? k = some old := hold
  have hlive : old.channel.phase.isLive = false := by rw [LiveSession.phase_ofMode hold', Phase.isLive]
  have hsound := hstart.isSound k old.channel (Session.channel?_of_link? hold)
  exact (Link.starts_connect hsound hlive).phase_eq

theorem isWaiting_begin (mode : Mode) (o : Session.Options) (options : Options)
    (honce : options.once = false) : (begin (.ofMode mode o) options).IsWaiting mode o.deltaTypes := by
  have hstart : (Session.ofMode mode o).IsWired o.deltaTypes := Session.isWired_ofMode mode o
  have hwired : (Session.ofMode mode o).connect.2.IsWired o.deltaTypes := hstart.perform .connect
  have hpaced : (Session.ofMode mode o).connect.2.IsPaced
      (begin (.ofMode mode o) options).live.undelivered := by
    have hnone : (begin (.ofMode mode o) options).live.undelivered =
        (LiveSession.ofMode mode o Inbox.standardCapacity).undelivered := by
      rw [LiveSession.undelivered, begin]
      dsimp only
      rw [Session.timers_connect]
      rfl
    rw [hnone]
    exact (LiveSession.isPaced_ofMode mode o _).perform hstart (b := .connect) (by simp)
  have hmode : (Session.ofMode mode o).connect.2.mode = mode := Session.mode_perform _ .connect
  have hnotices : (Session.ofMode mode o).connect.2.notices = [] := Session.notices_connect _
  refine ⟨⟨rfl, honce, hmode, hwired, hpaced, ?_, ?_⟩, hnotices, ?_, ?_⟩
  · change (Session.ofMode mode o).connect.2.notices.length ≤ _
    rw [hnotices]
    exact Nat.zero_le _
  · intro k link hlink hfailed
    cases (phase_connect_ofMode hlink).symm.trans hfailed
  · rintro k ⟨⟩
  · intro hidle
    obtain ⟨k, hk⟩ := List.exists_mem_of_ne_nil _
      (Session.channels_ne_nil (Session.ofMode mode o).connect.2.mode)
    obtain ⟨c, hc, hconnecting, -⟩ := hidle k hk
    obtain ⟨link, hlink, rfl⟩ := Option.map_eq_some_iff.1 hc
    exact hconnecting (phase_connect_ofMode hlink)

theorem mode_liveAfter (w : Watch) (m : Move) : (w.liveAfter m).session.mode = w.session.mode := by
  cases m with
  | type line =>
    rw [liveAfter]
    split
    · rfl
    · exact w.live.mode_perform _
  | post e he => exact w.live.mode_perform _
  | next => exact w.live.mode_perform _
  | advance span => exact w.live.mode_perform _
  | defer index span => exact w.live.mode_perform _

/-- A watch that the user does not end, that is not to end with a turn and that does not time out goes on
just as long as something can happen: until no channel that the mode needs is connecting or open and no
retry of the present generation of one is on its way. It then ends with an error just if one of these
channels has failed. -/
theorem run_ends_when_idle (mode : Mode) (o : Session.Options) (asJson : Bool) (timeout : ℕ)
    (earlier : List Move) (m : Move) :
    let w := (begin (.ofMode mode o) ⟨asJson, false, timeout⟩).moveAll earlier
    let l := w.liveAfter m
    w.outcome = none → (∀ mode seconds, (w.move m).outcome ≠ some (.timedOut mode seconds)) →
      l.session.mode = mode ∧ ((w.move m).outcome.isSome = true ↔ l.IsIdle) ∧
      (∀ outcome, (w.move m).outcome = some outcome → (outcome.error?.isSome = true ↔
        ∃ k ∈ mode.channels, ∃ c, l.session.channel? k = some c ∧ c.phase = .failed)) ∧
      ((w.move m).outcome = none → (w.move m).live = { l with session := l.session.takeNotices.2 }) := by
  intro w l hgoing htimely
  have hwaits : w.IsWaiting mode o.deltaTypes := (isWaiting_begin mode o _ rfl).moveAll hgoing
  have hmode : l.session.mode = mode := (mode_liveAfter w m).trans hwaits.mode_eq
  refine ⟨hmode, ?_⟩
  rcases hwaits.settles_move htimely with ⟨hidle, outcome, hended, herror⟩ | ⟨hbusy, hwaits', hlive⟩
  · rw [hmode] at herror
    refine ⟨⟨fun _ ↦ hidle, fun _ ↦ by rw [hended]; rfl⟩, ?_, ?_⟩
    · intro outcome' hended'
      cases hended.symm.trans hended'
      exact herror
    · intro hnone
      cases hended.symm.trans hnone
  · refine ⟨⟨fun hended ↦ absurd hended hwaits'.not_isSome, fun hidle ↦ absurd hidle hbusy⟩, ?_, ?_⟩
    · intro outcome hended
      cases hwaits'.running.symm.trans hended
    · exact fun _ ↦ hlive

/-- One channel is closed; the other one fails, is retried and is about to fail again. -/
def failingTwice : List Move :=
  [.post ⟨.events, 1, .closed⟩ (by rintro ⟨⟩), .next,
    .post ⟨.socket, 1, .failed "reset"⟩ (LiveSession.failed_ne_retryDue _), .next, .advance 10, .next,
    .post ⟨.socket, 2, .failed "reset"⟩ (LiveSession.failed_ne_retryDue _)]

theorem run_ends_when_idle_failingTwice :
    let o : Session.Options := { policy := Backoff.fixed 10 (some 1) }
    let w := (begin (.ofMode .dual o) ⟨false, false, 0⟩).moveAll failingTwice
    let l := w.liveAfter .next
    (w.move .next).outcome = some .exhausted ∧ l.IsIdle ∧
      ∃ k ∈ Mode.dual.channels, ∃ c, l.session.channel? k = some c ∧ c.phase = .failed := by
  intro o w l
  have hended : (w.move .next).outcome = some .exhausted := by decide +kernel
  obtain ⟨-, hidle, herror, -⟩ := run_ends_when_idle .dual o false 0 failingTwice .next (by decide +kernel)
    (by rw [hended]; simp)
  refine ⟨hended, hidle.1 (by rw [hended]; rfl), ?_⟩
  exact (herror .exhausted hended).1 rfl

end Watch
end AgentReply
