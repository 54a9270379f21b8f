import AgentReply.Proofs.Session.Frames
import AgentReply.Proofs.Session.Links

/-!
# The silence of released transports

What keeps a dead connection from coming back is its generation in some cases and the phase of its
channel in others. A transport that its channel has released stays released, so no signal of it counts
again. A disconnected channel is closed until the next call to connect, and a closed channel takes no
event at all. A channel that has failed keeps its generation until it is connected or disconnected; from
then on its generation is a later one, and the retry that the failure asked for is stale.
-/

namespace AgentReply

namespace Session

variable {s : Session} {k : ChannelKind} {g : Nat} {deltaTypes : List String} {a : Action} {c : Channel}

theorem generation_le_channelAfter (c : Channel) (a : Action) :
    c.generation ≤ (channelAfter c a).generation := by
  cases a with
  | handle e =>
    simp only [channelAfter]
    split
    · rw [Channel.generation_connect, c.generation_accept]
      split <;> omega
    · exact Nat.le_of_eq (c.generation_accept e).symm
  | connect =>
    rw [channelAfter, Channel.generation_connect]
    split <;> omega
  | disconnect =>
    rw [channelAfter, Channel.generation_disconnect]
    split <;> omega
  | send message => exact Nat.le_of_eq (c.generation_send message).symm
  | wait span => exact Nat.le_refl _
  | takeNotices => exact Nat.le_refl _

/-! ### One channel along a run -/

theorem IsWired.forall_perform (h : s.IsWired deltaTypes) {P Q : Channel → Prop}
    (hstep : ∀ c, P c → Q (channelAfter c a)) (hchannel : ∀ c, s.channel? k = some c → P c) :
    ∀ c, (s.perform a).channel? k = some c → Q c := by
  intro c hc
  rw [channel?_perform h, Option.map_eq_some_iff] at hc
  obtain ⟨c', hc', rfl⟩ := hc
  exact hstep c' (hchannel c' hc')

theorem IsWired.forall_run (h : s.IsWired deltaTypes) {P : Channel → Prop} (actions : List Action)
    (hstep : ∀ a ∈ actions, ∀ c, P c → P (channelAfter c a))
    (hchannel : ∀ c, s.channel? k = some c → P c) :
    ∀ c, (s.run actions).channel? k = some c → P c := by
  induction actions generalizing s with
  | nil => exact hchannel
  | cons a actions ih =>
    obtain ⟨ha, hactions⟩ := List.forall_mem_cons.1 hstep
    exact ih (h.perform a) hactions (h.forall_perform ha hchannel)

/-! ### Released transports -/

theorem IsWired.hasReleased_run (h : s.IsWired deltaTypes) (hreleased : s.hasReleased k g = true)
    (actions : List Action) : (s.run actions).hasReleased k g = true := by
  induction actions generalizing s with
  | nil => exact hreleased
  | cons a actions ih => exact ih (h.perform a) (h.hasReleased_perform a hreleased)

theorem IsWired.handle_of_hasReleased (h : s.IsWired deltaTypes)
    (hreleased : s.hasReleased k g = true) {signal : Signal} (hsignal : signal ≠ .retryDue) :
    s.handle ⟨k, g, signal⟩ = s := by
  have hholds := h.not_holds_of_hasReleased hreleased
  exact handle_of_output?_eq_none (h.output?_of_not_holds hsignal hholds)

theorem IsWired.perform_of_hasReleased (h : s.IsWired deltaTypes)
    (hreleased : s.hasReleased k g = true) (ha : (a.signal? k g).isSome = true) : s.perform a = s := by
  cases a with
  | handle e =>
    simp only [Action.signal?] at ha
    split at ha
    · next hhere =>
      obtain ⟨rfl, rfl, hsignal⟩ := hhere
      exact h.handle_of_hasReleased hreleased hsignal
    · cases ha
  | connect => cases ha
  | disconnect => cases ha
  | send message => cases ha
  | wait span => cases ha
  | takeNotices => cases ha

/-- What a released transport still posts can be left out of a run, wherever it comes. -/
theorem IsWired.run_filter (h : s.IsWired deltaTypes) (hreleased : s.hasReleased k g = true)
    (actions : List Action) :
    s.run (actions.filter fun a ↦ (a.signal? k g).isNone) = s.run actions := by
  induction actions generalizing s with
  | nil => rfl
  | cons a actions ih =>
    have hrest := ih (h.perform a) (h.hasReleased_perform a hreleased)
    cases hsignal : a.signal? k g with
    | none => rw [List.filter_cons_of_pos (by rw [hsignal]; rfl), run_cons, run_cons, hrest]
    | some signal =>
      have hsame := h.perform_of_hasReleased hreleased (a := a) (by rw [hsignal]; rfl)
      rw [hsame] at hrest
      rw [List.filter_cons_of_neg (by rw [hsignal]; simp), run_cons, hsame, hrest]

/-! ### Disconnected sessions -/

theorem phase_channelAfter_of_closed (hphase : c.phase = .closed) (ha : a ≠ .connect) :
    (channelAfter c a).phase = .closed := by
  cases a with
  | handle e =>
    have haccept := Channel.accept_of_closed hphase e
    simp [channelAfter, haccept, hphase]
  | connect => exact absurd rfl ha
  | disconnect => exact c.phase_disconnect
  | send message =>
    rcases c.send_eq message with hsame | ⟨_, _, hopened, _⟩
    · rw [channelAfter, hsame, hphase]
    · cases hphase.symm.trans hopened
  | wait span => exact hphase
  | takeNotices => exact hphase

/-- Nothing reaches a disconnected session before the next call to connect. -/
theorem IsWired.handle_after_disconnect (h : s.IsWired deltaTypes) {actions : List Action}
    (hactions : .connect ∉ actions) (e : Event) :
    (s.run (.disconnect :: actions)).handle e = s.run (.disconnect :: actions) := by
  have hclosed : ∀ c, (s.perform .disconnect).channel? e.channel = some c → c.phase = .closed :=
    h.forall_perform (P := fun _ ↦ True) (fun c _ ↦ c.phase_disconnect) fun _ _ ↦ trivial
  have hstays := (h.perform .disconnect).forall_run actions (fun a ha c hphase ↦
    phase_channelAfter_of_closed hphase fun heq ↦ hactions (heq ▸ ha)) hclosed
  refine handle_of_output?_eq_none ?_
  rw [run_cons, output?]
  cases hc : ((s.perform .disconnect).run actions).channel? e.channel with
  | none => rfl
  | some c => rw [Option.bind_some, Channel.accept_of_closed (hstays c hc)]

/-! ### Failed channels -/

/-- A failed channel stays as it is until a new generation begins. -/
theorem channelAfter_of_failed (hphase : c.phase = .failed) (a : Action) :
    channelAfter c a = c ∨ c.generation < (channelAfter c a).generation := by
  have hlive := Channel.isLive_eq_false_of_failed hphase
  cases a with
  | handle e =>
    by_cases hretry : (c.accept e).1 = some .retryDue
    · have hsame := c.accept_retryDue (Channel.signal_eq_of_accept_retryDue hretry).1
      refine .inr ?_
      rw [channelAfter, if_pos hretry, hsame, Channel.generation_connect, hlive]
      exact Nat.lt_succ_self _
    · rw [channelAfter, if_neg hretry]
      by_cases hsignal : e.signal = .retryDue
      · exact .inl (c.accept_retryDue hsignal)
      · rw [Channel.accept_of_not_admits (Channel.admits_of_not_isLive hlive hsignal)]
        exact .inl rfl
  | connect =>
    refine .inr ?_
    rw [channelAfter, Channel.generation_connect, hlive]
    exact Nat.lt_succ_self _
  | disconnect =>
    refine .inr ?_
    rw [channelAfter, Channel.generation_disconnect, if_neg (by simp [hphase])]
    exact Nat.lt_succ_self _
  | send message =>
    rcases c.send_eq message with hsame | ⟨_, _, hopened, _⟩
    · exact .inl hsame
    · cases hphase.symm.trans hopened
  | wait span => exact .inl rfl
  | takeNotices => exact .inl rfl

/-- The connection of a generation has failed: its channel waits for a retry, or is past it. -/
def HasFailed (g : Nat) (c : Channel) : Prop :=
  g < c.generation ∨ c.generation = g ∧ c.phase = .failed

theorem HasFailed.channelAfter (h : HasFailed g c) (a : Action) : HasFailed g (channelAfter c a) := by
  have hle := generation_le_channelAfter c a
  rcases h with hpast | ⟨hgeneration, hphase⟩
  · exact .inl (by omega)
  · rcases channelAfter_of_failed hphase a with hsame | hlt
    · rw [hsame]
      exact .inr ⟨hgeneration, hphase⟩
    · exact .inl (by omega)

theorem HasFailed.lt_of_call (h : HasFailed g c) (ha : a = .connect ∨ a = .disconnect) :
    g < (Session.channelAfter c a).generation := by
  have hle := generation_le_channelAfter c a
  rcases h with hpast | ⟨hgeneration, hphase⟩
  · omega
  · rcases ha with rfl | rfl
    · have hnext := c.generation_connect
      rw [hphase, Phase.isLive] at hnext
      rw [Session.channelAfter, hnext, hgeneration]
      exact Nat.lt_succ_self g
    · have hnext := c.generation_disconnect
      rw [if_neg (by simp [hphase])] at hnext
      rw [Session.channelAfter, hnext, hgeneration]
      exact Nat.lt_succ_self g

theorem handle_of_generation_lt (h : ∀ c, s.channel? k = some c → g < c.generation) (signal : Signal) :
    s.handle ⟨k, g, signal⟩ = s := by
  refine handle_of_output?_eq_none ?_
  rw [output?]
  cases hc : s.channel? k with
  | none => rfl
  | some c => rw [Option.bind_some, Channel.accept_of_generation_ne (Nat.ne_of_lt (h c hc))]

/-- What carries the generation of a failure is stale once the channel is connected or disconnected. -/
theorem IsWired.handle_after_call (h : s.IsWired deltaTypes)
    (hfailed : ∀ c, s.channel? k = some c → HasFailed g c) (between later : List Action)
    (ha : a = .connect ∨ a = .disconnect) (signal : Signal) :
    (s.run (between ++ a :: later)).handle ⟨k, g, signal⟩ = s.run (between ++ a :: later) := by
  have hbetween := h.forall_run between (fun a _ _ hc ↦ hc.channelAfter a) hfailed
  have hwired := h.run between
  have hpast : ∀ c, ((s.run between).perform a).channel? k = some c → g < c.generation :=
    hwired.forall_perform (fun _ hc ↦ hc.lt_of_call ha) hbetween
  have hstays := (hwired.perform a).forall_run later (P := fun c ↦ g < c.generation)
    (fun b _ c hlt ↦ Nat.lt_of_lt_of_le hlt (generation_le_channelAfter c b)) hpast
  rw [run_append, run_cons]
  exact handle_of_generation_lt hstays signal

theorem IsWired.hasFailed_handle (h : s.IsWired deltaTypes) {reason : String} {error : ChannelError}
    (hout : s.output? ⟨k, g, .failed reason⟩ = some (.failed error)) :
    ∀ c, (s.perform (.handle ⟨k, g, .failed reason⟩)).channel? k = some c → HasFailed g c := by
  intro c hc
  rw [channel?_perform h, Option.map_eq_some_iff] at hc
  obtain ⟨c', hc', rfl⟩ := hc
  have haccept : (c'.accept ⟨k, g, .failed reason⟩).1 = some (.failed error) := by
    rw [← hout, output?, hc']
    rfl
  obtain ⟨hcurrent, -, -, hfail⟩ := Channel.of_accept_eq_some haccept
  obtain ⟨-, rfl⟩ := Channel.eq_of_isCurrent hcurrent
  rw [channelAfter, if_neg (by simp [haccept]), hfail]
  exact .inr ⟨rfl, rfl⟩

/-- What a dead connection posts has no effect, at whatever time and in whatever order it is handled.
After a call to disconnect nothing that is still on its way has any, until the next call to connect. The
retry that a failure asks for has none once the channel has been connected or disconnected. -/
theorem run_ignores_released (mode : Mode) (o : Options) :
    let start := ofMode mode o
    (∀ earlier later k g, (start.run earlier).hasOpened k g = true →
      (start.run earlier).holds k g = false →
      (∀ signal, signal ≠ .retryDue →
        (start.run (earlier ++ later)).handle ⟨k, g, signal⟩ = start.run (earlier ++ later)) ∧
      start.run (earlier ++ later.filter fun a ↦ (a.signal? k g).isNone) =
        start.run (earlier ++ later)) ∧
    (∀ earlier later e, .connect ∉ later →
      (start.run (earlier ++ .disconnect :: later)).handle e =
        start.run (earlier ++ .disconnect :: later)) ∧
    (∀ earlier k g reason error,
      (start.run earlier).output? ⟨k, g, .failed reason⟩ = some (.failed error) →
      (∀ t ∈ ((start.run earlier).handle ⟨k, g, .failed reason⟩).timers,
        t ∈ (start.run earlier).timers ∨ t.event = ⟨k, g, .retryDue⟩) ∧
      ∀ between call later, call = .connect ∨ call = .disconnect →
        let s := start.run (earlier ++ .handle ⟨k, g, .failed reason⟩ :: between ++ call :: later)
        s.handle ⟨k, g, .retryDue⟩ = s) := by
  intro start
  have hstart : start.IsWired o.deltaTypes := isWired_ofMode mode o
  refine ⟨?_, ?_, ?_⟩
  · intro earlier later k g hopened hholds
    have hwired := hstart.run earlier
    have hreleased : (start.run earlier).hasReleased k g = true := by
      simpa [hasOpened_eq, hholds] using hopened
    simp only [run_append]
    refine ⟨?_, hwired.run_filter hreleased later⟩
    intro signal hsignal
    exact (hwired.run later).handle_of_hasReleased (hwired.hasReleased_run hreleased later) hsignal
  · intro earlier later e hlater
    rw [run_append]
    exact (hstart.run earlier).handle_after_disconnect hlater e
  · intro earlier k g reason error hout
    have hwired := hstart.run earlier
    constructor
    · intro t ht
      obtain ⟨link, hlink, -⟩ := handle_of_output?_eq_some hout
      rw [(handle_of_failed hlink ((output?_eq hlink).symm.trans hout)).1] at ht
      split at ht
      · exact .inl ht
      · rcases List.mem_cons.1 ((perm_insert _ _).mem_iff.1 ht) with rfl | hold
        · exact .inr rfl
        · exact .inl hold
    · intro between call later hcall
      have hfailed := hwired.hasFailed_handle hout
      simp only [List.append_assoc, List.cons_append, run_append, run_cons]
      have hsilent := (hwired.perform _).handle_after_call hfailed between later hcall .retryDue
      simpa only [run_append, run_cons] using hsilent

/-- A transport fails, and its channel is connected again before the retry is due. -/
def revived : List Action :=
  [.connect, .handle ⟨.socket, 1, .opened⟩, .handle ⟨.socket, 1, .failed "reset"⟩, .connect]

theorem run_ignores_released_revived :
    let s := (ofMode .socket {}).run revived
    s.handle ⟨.socket, 1, .frame "late"⟩ = s ∧ s.handle ⟨.socket, 1, .retryDue⟩ = s := by
  obtain ⟨hreleased, -, hretry⟩ := run_ignores_released .socket {}
  have hopened : ((ofMode .socket {}).run revived).hasOpened .socket 1 = true := by decide +kernel
  have hholds : ((ofMode .socket {}).run revived).holds .socket 1 = false := by decide +kernel
  have hfailed : ((ofMode .socket {}).run (revived.take 2)).output? ⟨.socket, 1, .failed "reset"⟩ =
      some (.failed (.transport .socket "reset")) := by decide +kernel
  constructor
  · exact (hreleased revived [] .socket 1 hopened hholds).1 (.frame "late") (by simp)
  · exact (hretry (revived.take 2) .socket 1 "reset" _ hfailed).2 [] .connect [] (.inl rfl)

end Session
end AgentReply
