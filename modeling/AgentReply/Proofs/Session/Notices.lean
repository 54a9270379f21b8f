import AgentReply.Proofs.Session.Retries

/-!
# Notices along a run

What a step adds to the notices is decided by the event that it takes and by the link of this event: one
notice at most, and two if the channel fails, of which the second says what is done about the failure. So
the notices of a step say of a channel that it is given up just if the channel fails in this step and the
policy allows no further attempt; and nothing is lost for those who take the notices after each step.
-/

namespace AgentReply

/-- The channel that is given up, if a notice says so. -/
def Notice.givesUp? : Notice → Option ChannelKind
  | .reconnectExhausted channel _ => some channel
  | _ => none

def Message.notices : Message → List Notice
  | .remoteError envelope => [.remoteError envelope]
  | .control envelope => [.control envelope]
  | .delta _ _ | .complete _ _ => []

namespace Link

variable {policy : RetryPolicy} {k : ChannelKind} {link : Link} {e : Event}

def reports (policy : RetryPolicy) (link : Link) (e : Event) : List Notice :=
  match (link.channel.accept e).1 with
  | some (.message m) => m.notices
  | some (.malformed error) => [.channelError error]
  | some (.failed error) => [.channelError error,
      match policy.delay? (link.attempts + 1) with
      | none => .reconnectExhausted e.channel link.attempts
      | some delay => .reconnectScheduled e.channel (link.attempts + 1) delay]
  | some .closed => [.channelClosed e.channel]
  | some .opened | some .retryDue | none => []

theorem length_reports_le (policy : RetryPolicy) (link : Link) (e : Event) :
    (link.reports policy e).length ≤ 2 := by
  unfold reports
  cases (link.channel.accept e).1 with
  | none => exact Nat.zero_le 2
  | some output =>
    cases output with
    | message m => cases m <;> simp [Message.notices]
    | _ => simp

/-- Only the failure after which no attempt is left is reported as the end of all attempts. -/
theorem mem_givesUp_reports : k ∈ (link.reports policy e).filterMap Notice.givesUp? ↔
    k = e.channel ∧ (∃ error, (link.channel.accept e).1 = some (.failed error)) ∧
      policy.delay? (link.attempts + 1) = none := by
  unfold reports
  cases haccept : (link.channel.accept e).1 with
  | none => simp
  | some output =>
    cases output with
    | failed error => cases policy.delay? (link.attempts + 1) <;> simp [Notice.givesUp?, eq_comm]
    | message m => cases m <;> simp [Message.notices, Notice.givesUp?]
    | _ => simp [Notice.givesUp?]

end Link

namespace Session

variable {s : Session} {k : ChannelKind} {e : Event} {deltaTypes : List String}

def reports (s : Session) (e : Event) : List Notice :=
  match s.link? e.channel with
  | some link => link.reports s.policy e
  | none => []

@[simp] theorem notices_refreshConnected (s : Session) :
    s.refreshConnected.notices = s.notices := rfl

@[simp] theorem notices_modify (s : Session) (change : Link → Link) :
    (s.modify k change).notices = s.notices :=
  keeps_modify (fun _ _ _ ↦ notices_put _ _) s k change

theorem notices_appendText (s : Session) (turn : Option String) (text : String) :
    (s.appendText turn text).notices = s.notices := by
  obtain ⟨_, _, h⟩ := s.exists_appendText turn text
  rw [h]

theorem notices_dispatch (s : Session) (m : Message) :
    (s.dispatch m).notices = s.notices ++ m.notices := by
  cases m with
  | delta turn text => exact (notices_appendText s turn text).trans (List.append_nil _).symm
  | complete turn text? =>
    refine Eq.trans ?_ (List.append_nil _).symm
    cases text? with
    | some text => exact notices_appendText s turn text
    | none =>
      rw [dispatch]
      split <;> rfl
  | remoteError envelope => rfl
  | control envelope => rfl

/-- A frame that cannot be decoded is reported by one notice, and the turn knows nothing of it. -/
theorem takeFrame_of_error {e : Message.DecodeError} {deltaTypes : List String} {text : String}
    (h : Message.decode deltaTypes text = .error e) (s : Session) (k : ChannelKind) :
    (s.takeFrame k deltaTypes text).notices =
        s.notices ++ [.channelError (.malformedFrame k e.message text)] ∧
      (s.takeFrame k deltaTypes text).core = s.core := by
  rw [takeFrame, h]
  dsimp only
  constructor
  · rw [notify, notices_modify]
  · rw [core_notify, core_modify]

theorem notices_handle (s : Session) (e : Event) : (s.handle e).notices = s.notices ++ s.reports e := by
  unfold reports
  split
  · next link hlink =>
    cases haccept : (link.channel.accept e).1 with
    | none =>
      rw [handle_of_output?_eq_none ((output?_eq hlink).trans haccept), Link.reports, haccept,
        List.append_nil]
    | some output =>
      rw [Link.reports, haccept]
      obtain ⟨_, -, hhandle⟩ := handle_of_output?_eq_some ((output?_eq hlink).trans haccept)
      cases output with
      | failed error => exact (handle_of_failed hlink haccept).2
      | message m => rw [hhandle, react, notices_dispatch, notices_put]
      | malformed error => rw [hhandle, react, notify, notices_put]
      | closed => rw [hhandle, react, notices_refreshConnected, notify, notices_put]
      | opened =>
        rw [hhandle, react, notices_refreshConnected, notices_modify, notices_put, List.append_nil]
      | retryDue =>
        rw [hhandle, react, notices_refreshConnected, notices_modify, notices_put, List.append_nil]
  · next hlink =>
    have hnone : s.output? e = none := by
      rw [output?, channel?, hlink]
      rfl
    rw [handle_of_output?_eq_none hnone, List.append_nil]

theorem notices_connect (s : Session) : s.connect.2.notices = s.notices :=
  keeps_connectChannels (fun _ _ _ ↦ notices_put _ _) s s.mode.channels

theorem notices_send (s : Session) (message : String) : (s.send message).2.notices = s.notices :=
  keeps_send (fun _ _ _ ↦ notices_put _ _) s message

theorem takeNotices_of_le (h : s.notices.length ≤ noticeCapacity) :
    s.takeNotices = ((0, s.notices), { s with notices := [] }) := by
  rw [takeNotices, Nat.sub_eq_zero_of_le h]
  rfl

theorem takeNotices_of_eq_nil (h : s.notices = []) : s.takeNotices.2 = s := by
  cases s
  cases h
  rfl

end Session

namespace LiveSession

variable {l : LiveSession} {a : Action} {k : ChannelKind} {deltaTypes : List String}

def reports (l : LiveSession) (a : Action) : List Notice :=
  match l.taken? a with
  | some e => l.session.reports e
  | none => []

theorem length_reports_le (l : LiveSession) (a : Action) : (l.reports a).length ≤ 2 := by
  unfold reports Session.reports
  split
  · split
    · exact Link.length_reports_le _ _ _
    · exact Nat.zero_le 2
  · exact Nat.zero_le 2

theorem notices_perform (l : LiveSession) (h : l.call? a ≠ some .takeNotices) :
    (l.perform a).session.notices = l.session.notices ++ l.reports a := by
  rcases session_perform l a with ⟨b, hcall, hsession⟩ | ⟨hcall, _, _, hsession⟩
  · have hnotices : (l.perform a).session.notices = (l.session.perform b).notices := by
      rw [hsession]
      rfl
    rw [hnotices, reports, taken?, hcall]
    cases b with
    | handle e => exact Session.notices_handle l.session e
    | connect => exact (Session.notices_connect _).trans (List.append_nil _).symm
    | disconnect => exact (List.append_nil _).symm
    | send message => exact (Session.notices_send _ message).trans (List.append_nil _).symm
    | wait span => exact (List.append_nil _).symm
    | takeNotices => exact absurd hcall h
  · rw [hsession, reports, taken?, hcall, List.append_nil]

theorem Fails.eq {link link' : Link} (h : l.Fails a k link) (h' : l.Fails a k link') : link = link' := by
  obtain ⟨old, reason, hold, -, htaken, rfl⟩ := h
  obtain ⟨old', reason', hold', -, htaken', rfl⟩ := h'
  cases hold.symm.trans hold'
  cases htaken.symm.trans htaken'
  rfl

/-- A step reports that a channel is given up just if the channel fails in it and no attempt is left. -/
theorem mem_givesUp_reports (hwired : l.session.IsWired deltaTypes) :
    k ∈ (l.reports a).filterMap Notice.givesUp? ↔
      ∃ link, l.Fails a k link ∧ l.session.policy.delay? link.attempts = none := by
  constructor
  · unfold reports Session.reports
    intro hmem
    split at hmem
    · next e htaken =>
      split at hmem
      · next old hold =>
        obtain ⟨rfl, ⟨error, hfailed⟩, hnone⟩ := Link.mem_givesUp_reports.1 hmem
        have hkind := hwired.kind_of_link? hold
        obtain ⟨-, hadmits, -⟩ := Channel.of_accept_eq_some hfailed
        obtain ⟨reason, he, -⟩ := Link.handle_of_failed hfailed
        have hlive : old.channel.phase.isLive = true := by
          apply Channel.isLive_of_admits hadmits
          rw [he]
          rintro ⟨⟩
        have hevent : e = ⟨e.channel, old.channel.generation, .failed reason⟩ := by
          rw [← hkind]
          exact he
        exact ⟨_, ⟨old, reason, hold, hlive, by rw [htaken, ← hevent], rfl⟩, hnone⟩
      · cases hmem
    · cases hmem
  · rintro ⟨_, ⟨old, reason, hold, hlive, htaken, rfl⟩, hnone⟩
    have hfailed := Link.accept_failure (hwired.kind_of_link? hold) hlive reason
    rw [reports, htaken]
    simp only [Session.reports, hold]
    exact Link.mem_givesUp_reports.2 ⟨rfl, ⟨_, hfailed⟩, hnone⟩

end LiveSession
end AgentReply
