import AgentReply.Proofs.Session.Connected
import AgentReply.Proofs.Session.Frames

/-!
# What a session sends

A message goes to the transport that the socket holds now, or to none at all. So what a transport has been
handed is decided by the calls to send that succeed while it is held, and a transport that is opened later
begins with nothing. Transports are followed by their generations, which no two of a channel share.
-/

namespace AgentReply
namespace Channel

variable {c : Channel} {g : ℕ} {t : Transport}

/-- What the transport of a generation has been handed. -/
def sentTo (c : Channel) (g : ℕ) : List String :=
  (c.transports.filter fun t ↦ t.generation = g).flatMap Transport.sent

/-- What a channel hands to the transport of a generation in an action. -/
def handed (c : Channel) (g : ℕ) : Session.Action → List String
  | .send message =>
    if (c.send message).1.isOk && c.held.any fun t ↦ t.generation = g then [message] else []
  | _ => []

theorem send_of_running (message : String) (hkind : c.kind = .socket) (hphase : c.phase = .opened)
    (hheld : c.held = some t) (hwriter : t.writer = .running) :
    c.send message = (.ok (), { c with held := some { t with sent := t.sent ++ [message] } }) := by
  simp [send, hkind, ChannelKind.sends, hphase, hheld, Transport.send, hwriter]

theorem send_of_not_running (message : String) (hkind : c.kind = .socket)
    (h : ∀ t, c.phase = .opened → c.held = some t → t.writer ≠ .running) :
    ∃ details, c.send message = (.error (.sendWhileDisconnected .socket details), c) := by
  unfold send
  rw [if_neg (by simp [hkind, ChannelKind.sends]), hkind]
  split
  · next t hphase hheld =>
    cases hwriter : t.writer with
    | running => exact absurd hwriter (h t hphase hheld)
    | absent => exact ⟨some "transport is receive-only", by simp [Transport.send, hwriter]⟩
    | stopped =>
      exact ⟨some "transport task has stopped: channel closed", by simp [Transport.send, hwriter]⟩
  · exact ⟨none, rfl⟩

theorem handed_of_error {message : String} {error : ChannelError}
    (h : (c.send message).1 = .error error) : c.handed g (.send message) = [] := by
  rw [handed, h]
  rfl

/-! ### What each step hands over -/

theorem sentTo_of_held (hheld : c.held = some t) : c.sentTo g =
    (c.released.filter fun t ↦ t.generation = g).flatMap Transport.sent ++
      if t.generation = g then t.sent else [] := by
  rw [sentTo, transports, hheld, List.filter_append, List.flatMap_append]
  by_cases hg : t.generation = g <;> simp [hg]

theorem sentTo_release (c : Channel) (g : ℕ) : c.release.sentTo g = c.sentTo g := by
  unfold sentTo transports release
  cases c.held with
  | none => simp
  | some t => by_cases hg : t.generation = g <;> simp [List.filter_append, hg]

theorem sentTo_connect (c : Channel) (g : ℕ) : c.connect.2.sentTo g = c.sentTo g := by
  cases hlive : c.phase.isLive with
  | true => rw [connect_of_isLive hlive]
  | false =>
    -- the new transport has been handed nothing yet
    rw [connect_of_not_isLive hlive, ← sentTo_release c]
    simp [sentTo, transports, enter, publish, release, List.filter_append]

theorem sentTo_disconnect (c : Channel) (g : ℕ) : c.disconnect.sentTo g = c.sentTo g := by
  refine Eq.trans ?_ (sentTo_release c g)
  unfold disconnect
  dsimp only
  split <;> rfl

theorem sentTo_accept (c : Channel) (e : Event) (g : ℕ) : (c.accept e).2.sentTo g = c.sentTo g := by
  unfold accept
  split
  · cases e.signal with
    | opened => rfl
    | frame text =>
      simp only [apply, receive]
      split <;> rfl
    | failed reason => exact sentTo_release c g
    | closed => exact sentTo_release c g
    | retryDue => rfl
  · rfl

theorem sentTo_writerStops (c : Channel) (g : ℕ) : (c.after .writerStops).sentTo g = c.sentTo g := by
  unfold sentTo transports after
  cases c.held with
  | none => rfl
  | some t => by_cases hg : t.generation = g <;> simp [List.filter_append, Transport.stop, hg]

theorem sentTo_send (c : Channel) (message : String) (g : ℕ) :
    (c.send message).2.sentTo g = c.sentTo g ++ c.handed g (.send message) := by
  have hrefused : ∀ error, c.send message = (.error error, c) →
      (c.send message).2.sentTo g = c.sentTo g ++ c.handed g (.send message) := by
    intro error h
    rw [handed_of_error (congrArg Prod.fst h), h, List.append_nil]
  cases hkind : c.kind with
  | events => exact hrefused _ (if_pos (by rw [hkind]; rfl))
  | socket =>
    by_cases hrunning : ∃ t, c.phase = .opened ∧ c.held = some t ∧ t.writer = .running
    · obtain ⟨t, hphase, hheld, hwriter⟩ := hrunning
      have hsend := send_of_running message hkind hphase hheld hwriter
      rw [handed, hsend, sentTo_of_held rfl, sentTo_of_held hheld]
      by_cases hg : t.generation = g <;> simp [hg, hheld, Except.isOk, Except.toBool]
    · obtain ⟨details, hsend⟩ := send_of_not_running message hkind
        fun t hphase hheld hwriter ↦ hrunning ⟨t, hphase, hheld, hwriter⟩
      exact hrefused _ hsend

theorem sentTo_channelAfter (c : Channel) (a : Session.Action) (g : ℕ) :
    (Session.channelAfter c a).sentTo g = c.sentTo g ++ c.handed g a := by
  cases a with
  | send message => exact c.sentTo_send message g
  | handle e =>
    have hnone : c.handed g (.handle e) = [] := rfl
    rw [hnone, List.append_nil, Session.channelAfter]
    split
    · rw [sentTo_connect, sentTo_accept]
    · exact c.sentTo_accept e g
  | connect => exact (c.sentTo_connect g).trans (List.append_nil _).symm
  | disconnect => exact (c.sentTo_disconnect g).trans (List.append_nil _).symm
  | wait span => exact (List.append_nil _).symm
  | takeNotices => exact (List.append_nil _).symm

theorem IsSound.sentTo_generation (h : c.IsSound) (ht : t ∈ c.transports) :
    c.sentTo t.generation = t.sent := by
  obtain ⟨earlier, later, hsplit⟩ := List.append_of_mem ht
  have hsorted := h.sorted
  rw [generations, hsplit, List.map_append, List.map_cons, List.pairwise_append,
    List.pairwise_cons] at hsorted
  obtain ⟨-, ⟨hlater, -⟩, hearlier⟩ := hsorted
  have hnone : ∀ ts : List Transport, (∀ u ∈ ts, u.generation ≠ t.generation) →
      ts.filter (fun u ↦ u.generation = t.generation) = [] := by
    intro ts hts
    rw [List.filter_eq_nil_iff]
    intro u hu
    simpa using hts u hu
  have hbefore : ∀ u ∈ earlier, u.generation ≠ t.generation := fun u hu ↦
    Nat.ne_of_lt (hearlier _ (List.mem_map_of_mem hu) _ List.mem_cons_self)
  have hbehind : ∀ u ∈ later, u.generation ≠ t.generation := fun u hu ↦
    Nat.ne_of_gt (hlater _ (List.mem_map_of_mem hu))
  rw [sentTo, hsplit, List.filter_append, hnone earlier hbefore,
    List.filter_cons_of_pos (by simp), hnone later hbehind]
  simp

end Channel

namespace Session

/-- What happens to a session whose transports may end by themselves. -/
inductive Step where
  | action (a : Action)
  /-- The writer of the transport that a channel holds ends. -/
  | writerStops (k : ChannelKind)

def after (s : Session) : Step → Session
  | .action a => s.perform a
  | .writerStops k => s.modify k fun link ↦ { link with channel := link.channel.after .writerStops }

def afterAll (s : Session) (steps : List Step) : Session := steps.foldl after s

/-- A session whose socket gets transports with a certain writer. -/
def withWriter (s : Session) (writer : Writer) : Session :=
  s.modify .socket fun link ↦ { link with channel := { link.channel with writer := writer } }

/-- The socket is open, and the writer of its transport runs. -/
def CanSend (s : Session) (link : Link) (t : Transport) : Prop :=
  s.socket = some link ∧ link.channel.phase = .opened ∧ link.channel.held = some t ∧ t.writer = .running

/-- The messages of a step that are sent while the socket holds the transport of a generation. -/
def sends (s : Session) (g : ℕ) : Step → List String
  | .action (.send message) =>
    if (s.send message).1.isOk && s.holds .socket g then [message] else []
  | _ => []

def sendsAll (s : Session) (g : ℕ) : List Step → List String
  | [] => []
  | step :: steps => s.sends g step ++ (s.after step).sendsAll g steps

variable {s : Session} {k l : ChannelKind} {g : ℕ} {deltaTypes : List String} {link : Link} {t : Transport}

/-! ### Soundness -/

theorem IsWired.modify (h : s.IsWired deltaTypes) {change : Link → Link}
    (horigin : ∀ link, (change link).channel.origin = link.channel.origin)
    (hsound : ∀ link, link.channel.IsSound → (change link).channel.IsSound) :
    (s.modify l change).IsWired deltaTypes := by
  have hchannel : ∀ k, (s.modify l change).channel? k =
      (s.link? k).map fun link ↦ if k = l then (change link).channel else link.channel := by
    intro k
    rw [channel?_modify]
    split
    · next hk => rw [hk]
    · rfl
  constructor
  · intro k
    have hsome := h.isSome_eq k
    rw [channel?, Option.isSome_map] at hsome
    rw [hchannel, Option.isSome_map, hsome]
    exact (congrArg (fun c : Core ↦ c.mode.requires k) (core_modify s change)).symm
  · intro k c hc
    rw [hchannel, Option.map_eq_some_iff] at hc
    obtain ⟨link, hk, rfl⟩ := hc
    have horigin' := h.origin_eq k _ (channel?_of_link? hk)
    split
    · rw [horigin, horigin']
    · exact horigin'
  · intro k c hc
    rw [hchannel, Option.map_eq_some_iff] at hc
    obtain ⟨link, hk, rfl⟩ := hc
    have hsound' := h.isSound k _ (channel?_of_link? hk)
    split
    · exact hsound link hsound'
    · exact hsound'

theorem mode_after (s : Session) (step : Step) : (s.after step).mode = s.mode := by
  cases step with
  | action a => exact mode_perform s a
  | writerStops k => exact congrArg Core.mode (core_modify s _)

theorem mode_afterAll (s : Session) (steps : List Step) : (s.afterAll steps).mode = s.mode := by
  induction steps generalizing s with
  | nil => rfl
  | cons step steps ih => exact (ih (s.after step)).trans (mode_after s step)

theorem IsWired.withWriter (h : s.IsWired deltaTypes) (writer : Writer) :
    (s.withWriter writer).IsWired deltaTypes :=
  h.modify (fun _ ↦ rfl) fun _ hsound ↦
    ⟨hsound.isSome_held, hsound.generation_held, hsound.sorted, hsound.le_generation⟩

theorem IsWired.after (h : s.IsWired deltaTypes) (step : Step) : (s.after step).IsWired deltaTypes := by
  cases step with
  | action a => exact h.perform a
  | writerStops k => exact h.modify (fun _ ↦ rfl) fun _ hsound ↦ hsound.writerStops

theorem IsWired.afterAll (h : s.IsWired deltaTypes) (steps : List Step) :
    (s.afterAll steps).IsWired deltaTypes := by
  induction steps generalizing s with
  | nil => exact h
  | cons step steps ih => exact ih (h.after step)

/-! ### One call to send -/

theorem send_of_canSend (message : String) (hkind : link.channel.kind = .socket) (h : s.CanSend link t) :
    s.send message = (.ok (), s.put .socket { link with channel :=
      { link.channel with held := some { t with sent := t.sent ++ [message] } } }) := by
  obtain ⟨hlink, hphase, hheld, hwriter⟩ := h
  rw [send, hlink]
  dsimp only
  rw [Channel.send_of_running message hkind hphase hheld hwriter]

theorem IsWired.send_of_not_canSend (hwired : s.IsWired deltaTypes) (message : String)
    (h : ∀ link t, ¬s.CanSend link t) :
    ∃ details, s.send message = (.error (.sendWhileDisconnected .socket details), s) := by
  rw [send]
  split
  · exact ⟨_, rfl⟩
  · next link hlink =>
    obtain ⟨details, hsend⟩ := Channel.send_of_not_running message (hwired.kind_of_link? hlink)
      fun t hphase hheld hwriter ↦ h link t ⟨hlink, hphase, hheld, hwriter⟩
    refine ⟨details, ?_⟩
    rw [hsend]
    exact congrArg _ (put_of_link?_eq_some (k := .socket) hlink)

/-! ### What a run hands over -/

def sentTo (s : Session) (k : ChannelKind) (g : ℕ) : List String :=
  (s.channel? k).elim [] (Channel.sentTo · g)

/-- A message goes over the socket, and what the socket does with it is what the caller is told. -/
theorem IsWired.handed_eq (h : s.IsWired deltaTypes) {c : Channel} (hc : s.channel? k = some c) (g : ℕ)
    (a : Action) : c.handed g a = if k = .socket then s.sends g (.action a) else [] := by
  cases a with
  | send message =>
    cases k with
    | events =>
      have hrefused : c.send message = (.error (.receiveOnly c.kind), c) :=
        if_pos (by rw [h.kind_eq hc]; rfl)
      rw [Channel.handed_of_error (congrArg Prod.fst hrefused), if_neg (by simp)]
    | socket =>
      obtain ⟨link, hlink, rfl⟩ := Option.map_eq_some_iff.1 hc
      have hresult : (s.send message).1 = (link.channel.send message).1 := by
        rw [send, show s.socket = some link from hlink]
      have hholds : s.holds .socket g = link.channel.held.any fun t ↦ t.generation = g := by
        rw [holds, hc]
        rfl
      rw [if_pos rfl, Channel.handed, sends, hresult, hholds]
  | _ => simp [Channel.handed, sends]

theorem sends_of_channel?_eq_none (hc : s.channel? .socket = none) (step : Step) : s.sends g step = [] := by
  have hholds : s.holds .socket g = false := by rw [holds, hc]; rfl
  unfold sends
  split
  · rw [hholds, Bool.and_false]
    rfl
  · rfl

theorem IsWired.sentTo_after (h : s.IsWired deltaTypes) (step : Step) (k : ChannelKind) (g : ℕ) :
    (s.after step).sentTo k g = s.sentTo k g ++ if k = .socket then s.sends g step else [] := by
  cases step with
  | action a =>
    rw [sentTo, sentTo, Session.after, channel?_perform h]
    cases hc : s.channel? k with
    | none =>
      split
      · next hk =>
        subst hk
        rw [sends_of_channel?_eq_none hc]
        rfl
      · rfl
    | some c =>
      rw [← h.handed_eq hc]
      exact c.sentTo_channelAfter a g
  | writerStops l =>
    have hsends : s.sends g (.writerStops l) = [] := rfl
    rw [hsends, ite_self, List.append_nil, sentTo, sentTo, Session.after, channel?_modify]
    split
    · next hk =>
      subst hk
      rw [channel?]
      cases s.link? k with
      | none => rfl
      | some link => exact link.channel.sentTo_writerStops g
    · rfl

theorem IsWired.sentTo_afterAll (h : s.IsWired deltaTypes) (steps : List Step) (k : ChannelKind) (g : ℕ) :
    (s.afterAll steps).sentTo k g =
      s.sentTo k g ++ if k = .socket then s.sendsAll g steps else [] := by
  induction steps generalizing s with
  | nil => simp [Session.afterAll, sendsAll]
  | cons step steps ih =>
    refine (ih (h.after step)).trans ?_
    rw [h.sentTo_after, List.append_assoc, sendsAll]
    split <;> rfl

theorem sentTo_withWriter_ofMode (mode : Mode) (o : Options) (writer : Writer) (k : ChannelKind) (g : ℕ) :
    ((ofMode mode o).withWriter writer).sentTo k g = [] := by
  cases mode <;> cases k <;> rfl

/-- Messages are sent at once or not at all. If the socket is open and its writer runs, a message is handed
to its present transport, which is of the current generation, and nothing else changes; otherwise the caller
is told so and nothing changes at all. So after any run the transports of the socket have been handed just
the messages whose sending succeeded while they were held, in order, and those of the event stream none. -/
theorem run_sends_at_once (mode : Mode) (o : Options) (writer : Writer) (steps : List Step) :
    let start := (ofMode mode o).withWriter writer
    let s := start.afterAll steps
    (∀ message, (∃ link t, s.CanSend link t ∧ mode.requires .socket = true ∧
        t.generation = link.channel.generation ∧
        s.send message = (.ok (), s.put .socket { link with channel :=
          { link.channel with held := some { t with sent := t.sent ++ [message] } } })) ∨
      (∀ link t, ¬s.CanSend link t) ∧
        ∃ details, s.send message = (.error (.sendWhileDisconnected .socket details), s)) ∧
    (∀ c, s.channel? .socket = some c → ∀ t ∈ c.transports, t.sent = start.sendsAll t.generation steps) ∧
    ∀ c, s.channel? .events = some c → ∀ t ∈ c.transports, t.sent = [] := by
  intro start s
  have hstart : start.IsWired o.deltaTypes := (isWired_ofMode mode o).withWriter writer
  have hwired : s.IsWired o.deltaTypes := hstart.afterAll steps
  have hsent : ∀ k c, s.channel? k = some c → ∀ t ∈ c.transports,
      t.sent = if k = .socket then start.sendsAll t.generation steps else [] := by
    intro k c hc t ht
    have hrun := hstart.sentTo_afterAll steps k t.generation
    rw [sentTo_withWriter_ofMode, List.nil_append] at hrun
    rw [← hrun, ← (hwired.isSound k c hc).sentTo_generation ht]
    change _ = (s.channel? k).elim [] _
    rw [hc]
    rfl
  refine ⟨?_, fun c hc t ht ↦ hsent .socket c hc t ht, fun c hc t ht ↦ hsent .events c hc t ht⟩
  intro message
  by_cases h : ∃ link t, s.CanSend link t
  · obtain ⟨link, t, hcan⟩ := h
    obtain ⟨hlink, -, hheld, -⟩ := id hcan
    have hc : s.channel? .socket = some link.channel := channel?_of_link? (k := .socket) hlink
    have hmode : s.mode = mode :=
      (mode_afterAll start steps).trans (congrArg Core.mode (core_modify (ofMode mode o) _))
    have hrequires := hwired.isSome_eq .socket
    rw [hc, hmode] at hrequires
    left
    refine ⟨link, t, hcan, hrequires.symm, (hwired.isSound _ _ hc).generation_held t hheld, ?_⟩
    exact send_of_canSend message (hwired.kind_of_link? (k := .socket) hlink) hcan
  · right
    have hnone : ∀ link t, ¬s.CanSend link t := fun link t hcan ↦ h ⟨link, t, hcan⟩
    exact ⟨hnone, hwired.send_of_not_canSend message hnone⟩

end Session
end AgentReply
