import AgentReply.Proofs.Session.Retries
import Mathlib.Data.List.DropRight
import Mathlib.Data.List.Induction

/-!
# Counting the attempts of a channel

What counts for the retries of a channel leaves a mark: a failure that is accepted, or a reset. The count
that a session keeps is the number of failures behind the last reset, and it decides what is said of the
next failure. A retry is taken only of a failed channel for which the policy had a delay, and the next one
needs a failure more; so between two resets no more of them are taken than the policy grants.
-/

namespace AgentReply

/-- What counts for the retries of a channel. -/
inductive Mark where
  | failed
  | reset
deriving DecidableEq, Repr

namespace Mark

/-- The number of failures since the last reset. -/
def failuresSinceReset (marks : List Mark) : ℕ := (marks.rtakeWhile fun m ↦ m = .failed).length

def count (attempts : ℕ) : Option Mark → ℕ
  | some .failed => attempts + 1
  | some .reset => 0
  | none => attempts

theorem failuresSinceReset_append (marks : List Mark) (m : Option Mark) :
    failuresSinceReset (marks ++ m.toList) = count (failuresSinceReset marks) m := by
  match m with
  | none => simp [count]
  | some .failed =>
    have hstep : (marks ++ [failed]).rtakeWhile (fun m ↦ m = .failed) =
        marks.rtakeWhile (fun m ↦ m = .failed) ++ [failed] := by
      apply List.rtakeWhile_concat_pos
      rfl
    simp only [failuresSinceReset, Option.toList_some, hstep, List.length_append, List.length_singleton,
      count]
  | some .reset =>
    have hstep : (marks ++ [reset]).rtakeWhile (fun m ↦ m = .failed) = [] := by
      apply List.rtakeWhile_concat_neg
      simp
    simp only [failuresSinceReset, Option.toList_some, hstep, List.length_nil, count]

end Mark

def Output.mark? : Output → Option Mark
  | .failed _ => some .failed
  | .opened => some .reset
  | .message _ | .malformed _ | .closed | .retryDue => none

namespace Link

/-- The mark of an action. A link is reset when its channel opens, when a call starts to connect it, and
when it is disconnected. -/
def mark? (link : Link) : Session.Action → Option Mark
  | .handle e => (link.channel.accept e).1.bind Output.mark?
  | .connect => if link.channel.phase.isLive then none else some .reset
  | .disconnect => some .reset
  | .send _ | .wait _ | .takeNotices => none

variable {link : Link} {a : Session.Action} {e : Event}

theorem attempts_after (link : Link) (a : Session.Action) :
    (link.after a).attempts = Mark.count link.attempts (link.mark? a) := by
  cases a with
  | handle e =>
    rw [after, mark?]
    cases haccept : (link.channel.accept e).1 with
    | none =>
      rw [handle_of_none haccept]
      rfl
    | some output =>
      rw [handle_of_some haccept]
      cases output <;> rfl
  | connect =>
    rw [after, mark?, Link.connect]
    split <;> rfl
  | disconnect => rfl
  | send message => rfl
  | wait span => rfl
  | takeNotices => rfl

/-- The retries that the failures of a link have cost so far. The one that a failed channel still waits
for is not among them. -/
def spent (link : Link) : ℕ :=
  if link.channel.phase = .failed then link.attempts - 1 else link.attempts

theorem spent_of_failed (h : link.channel.phase = .failed) : link.spent = link.attempts - 1 :=
  if_pos h

theorem spent_of_phase_ne (h : link.channel.phase ≠ .failed) : link.spent = link.attempts :=
  if_neg h

/-- A retry is taken when a channel has failed, and from then on it is spent. -/
theorem spent_after_retry (h : (link.channel.accept e).1 = some .retryDue) :
    e = link.channel.event .retryDue ∧ link.channel.phase = .failed ∧
      (link.after (.handle e)).spent = link.attempts := by
  cases link.handled e with
  | dropped hnone _ => cases h.symm.trans hnone
  | news _ _ _ hsignal => exact absurd (Channel.signal_eq_of_accept_retryDue h).1 hsignal
  | failure _ _ _ hout _ => cases h.symm.trans hout
  | retry he hphase _ hhandle =>
    refine ⟨he, hphase, ?_⟩
    have hafter : (link.handle e).channel.phase ≠ .failed := by
      rw [hhandle, Channel.connect_of_not_isLive (Channel.isLive_eq_false_of_failed hphase)]
      rintro ⟨⟩
    rw [after, spent_of_phase_ne hafter, hhandle]

/-- Nothing else adds to what a link has spent, short of a reset. -/
theorem spent_after (hmark : link.mark? a ≠ some .reset)
    (hretry : ∀ e, a = .handle e → (link.channel.accept e).1 ≠ some .retryDue) :
    (link.after a).spent = link.spent := by
  cases a with
  | handle e =>
    have hattempts := attempts_after link (.handle e)
    rw [after] at hattempts ⊢
    cases link.handled e with
    | dropped _ hhandle => rw [hhandle]
    | news output hout hfailed _ hlive hphase _ =>
      have hnone : link.mark? (.handle e) = none := by
        rw [mark?, hout, Option.bind_some] at hmark ⊢
        cases output with
        | opened => exact absurd rfl hmark
        | failed error => exact absurd rfl (hfailed error)
        | _ => rfl
      rw [hnone, Mark.count] at hattempts
      rw [spent_of_phase_ne hphase, hattempts, spent_of_phase_ne (ne_failed_of_isLive hlive)]
    | failure reason _ hlive _ hhandle =>
      have hafter : (link.handle e).channel.phase = .failed := by
        rw [hhandle]
        rfl
      rw [spent_of_failed hafter, spent_of_phase_ne (ne_failed_of_isLive hlive), hhandle]
      rfl
    | retry _ _ hout _ => exact absurd hout (hretry e rfl)
  | connect =>
    cases hlive : link.channel.phase.isLive with
    | true => rw [after, Link.connect, if_pos hlive]
    | false => simp [mark?, hlive] at hmark
  | disconnect => exact absurd rfl hmark
  | send message =>
    rcases link.channel.send_eq message with hsame | ⟨_, _, _, _, _, hsent⟩
    · rw [after, hsame]
    · rw [after, hsent]
      rfl
  | wait span => rfl
  | takeNotices => rfl

end Link

namespace Session

variable {s : Session} {k : ChannelKind} {a : Action} {actions : List Action} {e : Event} {link : Link}
  {deltaTypes : List String}

/-- What an action leaves of a channel. An event counts if it is of this channel and accepted; a call to
connect counts if it finds the channel neither connecting nor open. -/
def mark? (s : Session) (k : ChannelKind) : Action → Option Mark
  | .handle e => if e.channel = k then (s.output? e).bind Output.mark? else none
  | .connect => if (s.channel? k).any fun c ↦ c.phase.isLive then none else some .reset
  | .disconnect => some .reset
  | .send _ | .wait _ | .takeNotices => none

theorem mark?_eq (h : s.IsWired deltaTypes) (hlink : s.link? k = some link) (a : Action) :
    s.mark? k a = link.mark? a := by
  cases a with
  | handle e =>
    rw [mark?, Link.mark?]
    split
    · next hk => rw [output?_eq (hk ▸ hlink)]
    · next hk =>
      have hne : e.channel ≠ link.channel.kind := by
        rw [h.kind_of_link? hlink]
        exact hk
      rw [Channel.accept_of_channel_ne hne]
      rfl
  | connect =>
    rw [mark?, Link.mark?, channel?, hlink]
    rfl
  | _ => rfl

/-- The marks of a channel in a run, in order. -/
def marks (s : Session) (k : ChannelKind) : List Action → List Mark
  | [] => []
  | a :: actions => (s.mark? k a).toList ++ (s.perform a).marks k actions

theorem marks_append (s : Session) (k : ChannelKind) (xs ys : List Action) :
    s.marks k (xs ++ ys) = s.marks k xs ++ (s.run xs).marks k ys := by
  induction xs generalizing s with
  | nil => rfl
  | cons a xs ih => simp [marks, ih]

theorem attempts_perform (h : s.IsWired deltaTypes) (hlink : s.link? k = some link) (a : Action) :
    ((s.perform a).link? k).map Link.attempts = some (Mark.count link.attempts (s.mark? k a)) := by
  rw [link?_perform h, hlink, Option.map_some, Option.map_some, Link.attempts_after, mark?_eq h hlink]

theorem attempts_ofMode {mode : Mode} {o : Options} (hlink : (ofMode mode o).link? k = some link) :
    link.attempts = 0 := by
  cases mode <;> cases k <;> cases hlink <;> rfl

theorem attempts_run (mode : Mode) (o : Options) (actions : List Action)
    (hlink : ((ofMode mode o).run actions).link? k = some link) :
    link.attempts = Mark.failuresSinceReset ((ofMode mode o).marks k actions) := by
  induction actions using List.reverseRecOn generalizing link with
  | nil => exact attempts_ofMode hlink
  | append_singleton actions a ih =>
    have hwired : ((ofMode mode o).run actions).IsWired o.deltaTypes :=
      (isWired_ofMode mode o).run actions
    rw [run_append, run_cons, run_nil] at hlink
    have hold := hlink
    rw [link?_perform hwired, Option.map_eq_some_iff] at hold
    obtain ⟨old, hold, -⟩ := hold
    have hstep := attempts_perform hwired hold a
    rw [hlink, Option.map_some, Option.some.injEq, ih hold] at hstep
    rw [hstep, marks_append, marks, marks, List.append_nil, Mark.failuresSinceReset_append]

theorem policy_run (s : Session) (actions : List Action) : (s.run actions).policy = s.policy := by
  induction actions generalizing s with
  | nil => rfl
  | cons a actions ih => exact (ih (s.perform a)).trans (policy_perform s a)

theorem notices_handle_of_failed (mode : Mode) (o : Options) (actions : List Action)
    {error : ChannelError} {attempt : ℕ}
    (hout : ((ofMode mode o).run actions).output? e = some (.failed error))
    (hattempt : attempt = Mark.failuresSinceReset ((ofMode mode o).marks e.channel actions) + 1) :
    (((ofMode mode o).run actions).handle e).notices = ((ofMode mode o).run actions).notices ++
      [.channelError error,
        match o.policy.delay? attempt with
        | some delay => .reconnectScheduled e.channel attempt delay
        | none => .reconnectExhausted e.channel (attempt - 1)] := by
  obtain ⟨link, hlink, -⟩ := handle_of_output?_eq_some hout
  have hpolicy : ((ofMode mode o).run actions).policy = o.policy := policy_run _ _
  rw [output?_eq hlink] at hout
  rw [(handle_of_failed hlink hout).2, hpolicy, attempts_run mode o actions hlink, ← hattempt]
  cases o.policy.delay? attempt with
  | some delay => rfl
  | none => rw [hattempt, Nat.add_sub_cancel]

theorem marks_append_of_none (h : (s.run actions).mark? k a = none) :
    s.marks k (actions ++ [a]) = s.marks k actions := by
  rw [marks_append, marks, marks, h]
  exact List.append_nil _

end Session

namespace LiveSession

variable {l : LiveSession} {a : Action} {k : ChannelKind} {link : Link} {deltaTypes : List String}
  {limit : ℕ}

def mark? (l : LiveSession) (k : ChannelKind) (a : Action) : Option Mark :=
  (l.call? a).bind (l.session.mark? k)

def marks (l : LiveSession) (k : ChannelKind) : List Action → List Mark
  | [] => []
  | a :: actions => (l.mark? k a).toList ++ (l.perform a).marks k actions

/-- Whether a step takes a retry that is due. -/
def takesRetry (l : LiveSession) (k : ChannelKind) (a : Action) : Bool :=
  (l.taken? a).any fun e ↦ e.channel = k ∧ l.session.output? e = some .retryDue

/-- How often a channel is connected again in a run by a retry that is due. -/
def reconnects (l : LiveSession) (k : ChannelKind) : List Action → ℕ
  | [] => 0
  | a :: actions => (if l.takesRetry k a then 1 else 0) + (l.perform a).reconnects k actions

theorem isSome_delay?_of_call?_retry (hpaced : l.session.IsPaced l.undelivered)
    (hlink : l.session.link? k = some link)
    (hcall : l.call? a = some (.handle (.retry k link.channel.generation))) :
    (l.session.policy.delay? link.attempts).isSome = true := by
  have hmem : Event.retry k link.channel.generation ∈ l.undelivered := by
    cases a with
    | handle e he =>
      cases hcall
      exact absurd rfl he
    | next =>
      obtain ⟨e, hhead, he⟩ := Option.map_eq_some_iff.1 hcall
      cases he
      apply List.mem_append_right
      apply List.mem_append_left
      exact List.mem_of_mem_head? hhead
    | _ => cases hcall
  have hpos := List.count_pos_iff.2 hmem
  rw [(hpaced k link hlink).present, Link.awaited] at hpos
  by_contra hnone
  rw [if_neg (fun h ↦ hnone h.2)] at hpos
  exact Nat.lt_irrefl 0 hpos

/-- What a step takes is the retry that a failed channel waits for. -/
theorem of_takesRetry (hlink : l.session.link? k = some link) (h : l.takesRetry k a = true) :
    l.call? a = some (.handle (link.channel.event .retryDue)) ∧ link.channel.phase = .failed ∧
      (l.linkAfter a link).spent = link.attempts := by
  obtain ⟨e, htaken, he⟩ := (Option.any_eq_true _ _).1 h
  obtain ⟨rfl, hout⟩ := of_decide_eq_true he
  rw [Session.output?_eq hlink] at hout
  obtain ⟨rfl, hphase, hspent⟩ := Link.spent_after_retry hout
  have hcall := taken?_eq_some_iff.1 htaken
  refine ⟨hcall, hphase, ?_⟩
  rw [linkAfter, hcall]
  exact hspent

theorem takesRetry_of_call? (hwired : l.session.IsWired deltaTypes)
    (hlink : l.session.link? k = some link) {e : Event} (hcall : l.call? a = some (.handle e))
    (haccept : (link.channel.accept e).1 = some .retryDue) : l.takesRetry k a = true := by
  have hkind := hwired.kind_of_link? hlink
  have hchannel : e.channel = k := by
    rw [(Link.spent_after_retry haccept).1]
    exact hkind
  have hout : l.session.output? e = some .retryDue := by
    rw [Session.output?_eq (hchannel ▸ hlink), haccept]
  rw [takesRetry, taken?_eq_some_iff.2 hcall]
  exact decide_eq_true ⟨hchannel, hout⟩

theorem spent_linkAfter (hwired : l.session.IsWired deltaTypes) (hlink : l.session.link? k = some link)
    (htakes : l.takesRetry k a = false) (hmark : l.mark? k a ≠ some .reset) :
    (l.linkAfter a link).spent = link.spent := by
  rw [linkAfter]
  cases hcall : l.call? a with
  | none => rfl
  | some b =>
    apply Link.spent_after
    · rwa [mark?, hcall, Option.bind_some, Session.mark?_eq hwired hlink] at hmark
    · rintro e rfl haccept
      rw [takesRetry_of_call? hwired hlink hcall haccept] at htakes
      cases htakes

/-- What holds of a failed link: it has failed once at least. -/
def CountsFailures (l : LiveSession) (k : ChannelKind) : Prop :=
  ∀ link, l.session.link? k = some link → link.channel.phase = .failed → 0 < link.attempts

theorem CountsFailures.perform (hwired : l.session.IsWired deltaTypes) (h : l.CountsFailures k)
    (a : Action) : (l.perform a).CountsFailures k := by
  intro link hlink hphase
  rcases link?_of_failed hwired hlink hphase with hold | ⟨_, _, _, _, _, rfl⟩
  · exact h link hold hphase
  · exact Nat.succ_pos _

theorem CountsFailures.run (hwired : l.session.IsWired deltaTypes) (h : l.CountsFailures k)
    (actions : List Action) : (l.run actions).CountsFailures k := by
  induction actions generalizing l with
  | nil => exact h
  | cons a actions ih => exact ih (isWired_perform hwired a) (h.perform hwired a)

/-- The retries that are taken of a channel short of a reset are those that the limit leaves it. -/
theorem reconnects_le (hwired : l.session.IsWired deltaTypes) (hpaced : l.session.IsPaced l.undelivered)
    (hcounts : l.CountsFailures k)
    (hlimit : ∀ attempt, limit < attempt → l.session.policy.delay? attempt = none)
    {actions : List Action} (hmarks : .reset ∉ l.marks k actions)
    (hlink : l.session.link? k = some link) : l.reconnects k actions ≤ limit - link.spent := by
  induction actions generalizing l link with
  | nil => exact Nat.zero_le _
  | cons a actions ih =>
    rw [marks, List.mem_append, not_or] at hmarks
    obtain ⟨hmark, hmarks⟩ := hmarks
    have hnext : (l.perform a).session.link? k = some (l.linkAfter a link) := by
      rw [link?_perform hwired, hlink, Option.map_some]
    have hrest := ih (isWired_perform hwired a) (isPaced_perform hwired hpaced a)
      (hcounts.perform hwired a) (policy_perform l a ▸ hlimit) hmarks hnext
    -- A retry that is taken uses one of the `limit - spent` that are left; nothing else but a reset,
    -- which is ruled out, changes how many are spent.
    rw [reconnects]
    cases htakes : l.takesRetry k a with
    | true =>
      obtain ⟨hcall, hphase, hspent⟩ := of_takesRetry hlink htakes
      have hkind := hwired.kind_of_link? hlink
      have hevent : link.channel.event .retryDue = .retry k link.channel.generation := by
        rw [← hkind]
        rfl
      have hdelay := isSome_delay?_of_call?_retry hpaced hlink (hevent ▸ hcall)
      have hle : link.attempts ≤ limit := by
        by_contra hlt
        rw [hlimit _ (Nat.lt_of_not_le hlt)] at hdelay
        cases hdelay
      -- The channel has failed once at least, so `spent` does take one off.
      have hone := hcounts link hlink hphase
      rw [hspent] at hrest
      rw [Link.spent_of_failed hphase, if_pos rfl]
      omega
    | false =>
      have hreset : l.mark? k a ≠ some .reset := by
        intro heq
        apply hmark
        rw [heq]
        exact List.mem_singleton_self _
      rw [spent_linkAfter hwired hlink htakes hreset] at hrest
      rw [if_neg (by simp), Nat.zero_add]
      exact hrest

theorem reconnects_of_link?_eq_none (hwired : l.session.IsWired deltaTypes)
    (hlink : l.session.link? k = none) (actions : List Action) : l.reconnects k actions = 0 := by
  induction actions generalizing l with
  | nil => rfl
  | cons a actions ih =>
    have hnext : (l.perform a).session.link? k = none := by
      rw [link?_perform hwired, hlink, Option.map_none]
    have htakes : l.takesRetry k a = false := by
      rw [takesRetry, Option.any_eq_false]
      intro e _
      apply decide_eq_false
      rintro ⟨rfl, hout⟩
      rw [Session.output?, Session.channel?, hlink] at hout
      cases hout
    rw [reconnects, htakes, ih (isWired_perform hwired a) hnext]
    rfl

theorem countsFailures_ofMode (mode : Mode) (o : Session.Options) (capacity : ℕ) (k : ChannelKind) :
    (ofMode mode o capacity).CountsFailures k := by
  intro link hlink hphase
  cases (phase_ofMode hlink).symm.trans hphase

/-- Retries are counted for each channel on its own. What a session says of a failure is decided by the
number of failures of its channel since the last reset, this one among them; and only failures of a
channel, its openings, calls that connect it and calls to disconnect change this number. So between two
resets a channel is connected again no more often than the policy allows. -/
theorem run_counts_attempts (mode : Mode) (o : Session.Options) (capacity : ℕ) :
    let start := Session.ofMode mode o
    (∀ actions e error, (start.run actions).output? e = some (.failed error) →
      let attempt := Mark.failuresSinceReset (start.marks e.channel actions) + 1
      ((start.run actions).handle e).notices = (start.run actions).notices ++
        [.channelError error,
          match o.policy.delay? attempt with
          | some delay => .reconnectScheduled e.channel attempt delay
          | none => .reconnectExhausted e.channel (attempt - 1)]) ∧
    (∀ actions k e, (e.channel = k → ∀ output, (start.run actions).output? e = some output →
        output ≠ .opened ∧ ∀ error, output ≠ .failed error) →
      start.marks k (actions ++ [.handle e]) = start.marks k actions) ∧
    (∀ actions k c, (start.run actions).channel? k = some c → c.phase.isLive = true →
      start.marks k (actions ++ [.connect]) = start.marks k actions) ∧
    ∀ k limit, (∀ attempt, limit < attempt → o.policy.delay? attempt = none) → ∀ earlier later,
      let l := (ofMode mode o capacity).run earlier
      .reset ∉ l.marks k later → l.reconnects k later ≤ limit := by
  intro start
  refine ⟨?_, ?_, ?_, ?_⟩
  · intro actions e error hout attempt
    exact Session.notices_handle_of_failed mode o actions hout rfl
  · intro actions k e hkeeps
    apply Session.marks_append_of_none
    rw [Session.mark?]
    split
    · next hk =>
      cases hout : (start.run actions).output? e with
      | none => rfl
      | some output =>
        obtain ⟨hopened, hfailed⟩ := hkeeps hk output hout
        cases output with
        | opened => exact absurd rfl hopened
        | failed error => exact absurd rfl (hfailed error)
        | _ => rfl
    · rfl
  · intro actions k c hc hlive
    apply Session.marks_append_of_none
    rw [Session.mark?, hc, Option.any_some, if_pos hlive]
  · intro k limit hlimit earlier later l hmarks
    have hstart : (ofMode mode o capacity).session.IsWired o.deltaTypes := Session.isWired_ofMode mode o
    have hwired : l.session.IsWired o.deltaTypes := isWired_run hstart earlier
    have hpolicy : l.session.policy = o.policy := policy_run (ofMode mode o capacity) earlier
    cases hlink : l.session.link? k with
    | none =>
      rw [reconnects_of_link?_eq_none hwired hlink later]
      exact Nat.zero_le limit
    | some link =>
      have hpaced := isPaced_run hstart (isPaced_ofMode mode o capacity) earlier
      have hcounts := (countsFailures_ofMode mode o capacity k).run hstart earlier
      have hle := reconnects_le hwired hpaced hcounts (hpolicy ▸ hlimit) hmarks hlink
      omega

/-- A connection that fails, is retried and fails again. -/
def flapping : List Session.Action :=
  [.connect, .handle ⟨.socket, 1, .failed "reset"⟩, .handle (.retry .socket 1)]

/-- The same, with the events in the inbox. -/
def flappingLive : List Action :=
  [.post ⟨.socket, 1, .failed "reset"⟩ (failed_ne_retryDue _), .next, .advance 10, .next,
    .post ⟨.socket, 2, .failed "reset"⟩ (failed_ne_retryDue _), .next, .advance 10, .next]

theorem run_counts_attempts_flapping :
    let o : Session.Options := { policy := Backoff.fixed 10 (some 1) }
    let s := (Session.ofMode .socket o).run flapping
    let l := (ofMode .socket o 8).run [.connect]
    (s.handle ⟨.socket, 2, .failed "reset"⟩).notices = s.notices ++
        [.channelError (.transport .socket "reset"), .reconnectExhausted .socket 1] ∧
      (Session.ofMode .socket o).marks .socket (flapping ++ [.handle ⟨.events, 2, .opened⟩]) =
        (Session.ofMode .socket o).marks .socket flapping ∧
      (Session.ofMode .socket o).marks .socket (flapping ++ [.connect]) =
        (Session.ofMode .socket o).marks .socket flapping ∧
      l.reconnects .socket flappingLive = 1 ∧ l.reconnects .socket flappingLive ≤ 1 := by
  intro o s l
  obtain ⟨hreports, hevent, hconnect, hlimited⟩ := run_counts_attempts .socket o 8
  have hlimit : ∀ attempt, 1 < attempt → o.policy.delay? attempt = none := by
    intro attempt hlt
    change Backoff.delay? (.fixed 10 (some 1)) attempt = none
    simp only [Backoff.delay?, Backoff.isWithin, Option.all_some, Bool.and_eq_true, decide_eq_true_eq]
    exact if_neg (by omega)
  refine ⟨?_, ?_, ?_, ?_, ?_⟩
  · exact hreports flapping ⟨.socket, 2, .failed "reset"⟩ (.transport .socket "reset") (by decide +kernel)
  · exact hevent flapping .socket ⟨.events, 2, .opened⟩ (fun heq ↦ by cases heq)
  · have hphase : (s.channel? .socket).map (fun c ↦ c.phase) = some .connecting := by decide +kernel
    obtain ⟨c, hc, hphase⟩ := Option.map_eq_some_iff.1 hphase
    exact hconnect flapping .socket c hc (by rw [hphase]; rfl)
  · decide +kernel
  · exact hlimited .socket 1 hlimit [.connect] flappingLive (by decide +kernel)

end LiveSession
end AgentReply
