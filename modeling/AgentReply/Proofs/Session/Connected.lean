import AgentReply.Proofs.Channel.Upkeep
import AgentReply.Proofs.Session.Links
import Mathlib.Data.List.Basic

/-!
# The connected value and calls to connect

Whether a session is connected is shown as a value of its own, which is looked up anew after some steps
and not after others. It is looked up wherever a phase may have changed: every other step keeps the phases
of all channels, and what is shown with them. A call to connect acts on each link by itself, and it is
refused when no link has anything to do.
-/

namespace AgentReply

namespace Channel

variable {c : Channel} {e : Event}

theorem phase_send (c : Channel) (message : String) : (c.send message).2.phase = c.phase := by
  rcases c.send_eq message with h | ⟨_, _, _, _, _, h⟩
  · rw [h]
  · rw [h]

theorem phase_accept_of_malformed {error : ChannelError} (h : (c.accept e).1 = some (.malformed error)) :
    (c.accept e).2.phase = c.phase := by
  obtain ⟨-, -, hout, hchannel⟩ := of_accept_eq_some h
  rw [hchannel]
  cases hs : e.signal with
  | frame text => exact phase_receive c text
  | opened => rw [hs] at hout; cases hout
  | failed reason => rw [hs] at hout; cases hout
  | closed => rw [hs] at hout; cases hout
  | retryDue => rw [hs] at hout; cases hout

end Channel

namespace Link

/-- A link before and after a call that starts a connection: one transport is opened, and what is left of
the connection before it is cleared. -/
structure Starts (before after : Link) : Prop where
  phase_eq : after.channel.phase = .connecting
  generation_lt : before.channel.generation < after.channel.generation
  opens : ∃ t, after.channel.held = some t ∧ t.generation = after.channel.generation ∧
    t.cancelled = false ∧ after.channel.transports = before.channel.transports ++ [t]
  lastError_eq : after.channel.lastError = none
  attempts_eq : after.attempts = 0

variable {link : Link}

theorem connect_of_isLive (h : link.channel.phase.isLive = true) : link.connect = link := if_pos h

theorem starts_connect (hsound : link.channel.IsSound) (h : link.channel.phase.isLive = false) :
    link.Starts link.connect := by
  have hheld : link.channel.held = none := by
    have hnone := hsound.isSome_held
    rwa [h, Option.isSome_eq_false_iff, Option.isNone_iff_eq_none] at hnone
  have hconnect : link.connect = ⟨link.channel.connect.2, 0⟩ := if_neg (by simp [h])
  rw [hconnect, Channel.connect_of_not_isLive h]
  refine ⟨rfl, Nat.lt_succ_self _, ⟨_, rfl, rfl, rfl, ?_⟩, rfl, rfl⟩
  simp [Channel.transports, Channel.enter, Channel.publish, Channel.release, hheld]

end Link

namespace Session

variable {s s' : Session} {k : ChannelKind} {kinds : List ChannelKind} {deltaTypes : List String}

/-! ### What is shown -/

def ShowsConnected (s : Session) : Prop := s.connected.value = s.isConnected

theorem isConnected_congr (hmode : s'.mode = s.mode)
    (hphase : ∀ k, (s'.channel? k).map Channel.phase = (s.channel? k).map Channel.phase) :
    s'.isConnected = s.isConnected := by
  have hopen : s'.isOpen = s.isOpen := by
    funext k
    have hview : ∀ s : Session, s.isOpen k = ((s.channel? k).map Channel.phase).any (· = .opened) := by
      intro s
      rw [isOpen, Option.any_map]
    rw [hview, hview, hphase]
  rw [isConnected, isConnected, hmode, hopen]

theorem isConnected_iff : s.isConnected = true ↔
    ∀ k ∈ s.mode.channels, ∃ c, s.channel? k = some c ∧ c.phase = .opened := by
  simp [isConnected, isOpen, Option.any_eq_true]

theorem ShowsConnected.of_phases (h : s.ShowsConnected) (hmode : s'.mode = s.mode)
    (hphase : ∀ k, (s'.channel? k).map Channel.phase = (s.channel? k).map Channel.phase)
    (hconnected : s'.connected = s.connected) : s'.ShowsConnected := by
  rw [ShowsConnected, hconnected, isConnected_congr hmode hphase]
  exact h

theorem showsConnected_refreshConnected (s : Session) : s.refreshConnected.ShowsConnected := by
  have hsame : s.refreshConnected.isConnected = s.isConnected :=
    isConnected_congr rfl fun k ↦ by rw [channel?_refreshConnected]
  rw [ShowsConnected, hsame]
  exact Watched.value_update _ _

theorem ShowsConnected.refreshConnected_eq (h : s.ShowsConnected) : s.refreshConnected = s := by
  rw [refreshConnected, Watched.update_of_eq h]

/-! ### What leaves it alone -/

@[simp] theorem connected_put (s : Session) (link : Link) : (s.put k link).connected = s.connected := by
  cases k <;> rfl

@[simp] theorem mode_put (s : Session) (link : Link) : (s.put k link).mode = s.mode := by
  cases k <;> rfl

theorem connected_dispatch (s : Session) (m : Message) :
    (s.dispatch m).connected = s.connected := by
  obtain ⟨_, _, _, _, h⟩ := exists_dispatch s m
  rw [h]

theorem connected_scheduleRetry (s : Session) :
    (s.scheduleRetry k).connected = s.connected :=
  keeps_scheduleRetry (fun _ _ _ ↦ connected_put _ _) (fun _ _ ↦ rfl) (fun _ _ ↦ rfl) s k

theorem ShowsConnected.handle (h : s.ShowsConnected) (e : Event) : (s.handle e).ShowsConnected := by
  cases hout : s.output? e with
  | none => rwa [handle_of_output?_eq_none hout]
  | some output =>
    obtain ⟨link, hlink, hhandle⟩ := handle_of_output?_eq_some hout
    cases output with
    | message m =>
      have hreceived : s.received (.handle e) = some m := by rw [received, hout]
      have hdispatch : s.handle e = s.dispatch m := perform_of_received_eq_some hreceived
      rw [hdispatch]
      exact h.of_phases (mode_dispatch s m) (fun k ↦ by rw [channel?_dispatch]) (connected_dispatch s m)
    | malformed error =>
      rw [output?_eq hlink] at hout
      rw [hhandle]
      refine h.of_phases (mode_put s _) ?_ (connected_put s _)
      intro k
      rw [react, channel?_notify, channel?_put]
      split
      · next hk =>
        rw [hk, channel?, hlink]
        exact congrArg some (Channel.phase_accept_of_malformed hout)
      · rfl
    | failed error =>
      rw [hhandle, react]
      refine (showsConnected_refreshConnected _).of_phases ?_ ?_ (connected_scheduleRetry _)
      · exact congrArg Core.mode (core_scheduleRetry _)
      · intro k
        rw [channel?_scheduleRetry]
    | opened =>
      rw [hhandle]
      exact showsConnected_refreshConnected _
    | closed =>
      rw [hhandle]
      exact showsConnected_refreshConnected _
    | retryDue =>
      rw [hhandle]
      exact showsConnected_refreshConnected _

theorem connected_send (s : Session) (message : String) :
    (s.send message).2.connected = s.connected :=
  keeps_send (fun _ _ _ ↦ connected_put _ _) s message

theorem ShowsConnected.send (hwired : s.IsWired deltaTypes) (h : s.ShowsConnected) (message : String) :
    (s.send message).2.ShowsConnected := by
  refine h.of_phases (congrArg Core.mode (core_send s message)) ?_ (connected_send s message)
  intro k
  rw [channel?_send hwired, Option.map_map]
  congr 1
  funext c
  exact c.phase_send message

theorem ShowsConnected.perform (hwired : s.IsWired deltaTypes) (h : s.ShowsConnected) (a : Action) :
    (s.perform a).ShowsConnected := by
  cases a with
  | handle e => exact h.handle e
  | connect => exact showsConnected_refreshConnected _
  | disconnect => exact showsConnected_refreshConnected _
  | send message => exact h.send hwired message
  | wait span => exact h.of_phases rfl (fun k ↦ by cases k <;> rfl) rfl
  | takeNotices => exact h.of_phases rfl (fun k ↦ by cases k <;> rfl) rfl

theorem ShowsConnected.run (hwired : s.IsWired deltaTypes) (h : s.ShowsConnected)
    (actions : List Action) : (s.run actions).ShowsConnected := by
  induction actions generalizing s with
  | nil => exact h
  | cons a actions ih => exact ih (hwired.perform a) (h.perform hwired a)

theorem mode_run (s : Session) (actions : List Action) : (s.run actions).mode = s.mode := by
  induction actions generalizing s with
  | nil => rfl
  | cons a actions ih => exact (ih (s.perform a)).trans (mode_perform s a)

theorem showsConnected_ofMode (mode : Mode) (o : Options) : (ofMode mode o).ShowsConnected := by
  cases mode <;> rfl

/-! ### Calls to connect -/

/-- Nothing is left to connect: each channel has a connection, or is about to have one. -/
def IsUp (s : Session) : Prop := ∀ k c, s.channel? k = some c → c.phase.isLive = true

theorem connectChannel_fst (s : Session) (k : ChannelKind) :
    (s.connectChannel k).1 = (s.channel? k).map fun c ↦ c.connect.1 := by
  unfold connectChannel channel?
  split
  · next hlink => rw [hlink]; rfl
  · next link hlink =>
    rw [hlink, Option.map_some, Option.map_some]
    split
    · next hconnect => rw [hconnect]
    · next hconnect => rw [hconnect]

theorem connectChannels_fst (s : Session) (hkinds : kinds.Nodup) :
    (s.connectChannels kinds).1 = kinds.filterMap fun k ↦ (s.channel? k).map fun c ↦ c.connect.1 := by
  induction kinds generalizing s with
  | nil => rfl
  | cons l kinds ih =>
    obtain ⟨hl, hkinds⟩ := List.nodup_cons.1 hkinds
    have hothers : ∀ k ∈ kinds, (s.connectChannel l).2.channel? k = s.channel? k := by
      intro k hk
      rw [channel?_connectChannel, if_neg]
      rintro rfl
      exact hl hk
    have hrest : ((s.connectChannel l).2.connectChannels kinds).1 =
        kinds.filterMap fun k ↦ (s.channel? k).map fun c ↦ c.connect.1 := by
      rw [ih _ hkinds]
      exact List.filterMap_congr fun k hk ↦ by rw [hothers k hk]
    rw [connectChannels]
    dsimp only
    rw [hrest, connectChannel_fst]
    cases hc : s.channel? l with
    | none => simp [hc]
    | some c => simp [hc]

theorem connectChannels_of_isUp (h : s.IsUp) (kinds : List ChannelKind) :
    (s.connectChannels kinds).2 = s := by
  have hsame : ∀ k, (s.connectChannel k).2 = s := by
    intro k
    unfold connectChannel
    split
    · rfl
    · next link hlink =>
      have hlive : link.channel.phase.isLive = true := h k link.channel (channel?_of_link? hlink)
      have hrefused : link.channel.connect = (.error (.alreadyConnected link.channel.kind), link.channel) :=
        if_pos hlive
      rw [hrefused]
      exact put_of_link?_eq_some hlink
  induction kinds with
  | nil => rfl
  | cons k kinds ih =>
    rw [connectChannels]
    dsimp only
    rw [hsame, ih]

theorem channels_ne_nil (m : Mode) : m.channels ≠ [] := by
  cases m <;> simp [Mode.channels]

theorem IsWired.exists_link (h : s.IsWired deltaTypes) (hk : k ∈ s.mode.channels) :
    ∃ link, s.link? k = some link := by
  have hsome := h.isSome_eq k
  rw [channel?, Option.isSome_map, Mode.requires, List.contains_iff_mem.2 hk] at hsome
  exact Option.isSome_iff_exists.1 hsome

theorem IsWired.mem_connectChannels_fst (h : s.IsWired deltaTypes) {result : Except ChannelError Unit} :
    result ∈ (s.connectChannels s.mode.channels).1 ↔
      ∃ k c, s.channel? k = some c ∧ c.connect.1 = result := by
  rw [connectChannels_fst s (nodup_channels s.mode), List.mem_filterMap]
  constructor
  · rintro ⟨k, -, hk⟩
    obtain ⟨c, hc, hresult⟩ := Option.map_eq_some_iff.1 hk
    exact ⟨k, c, hc, hresult⟩
  · rintro ⟨k, c, hc, hresult⟩
    exact ⟨k, mem_channels h hc, Option.map_eq_some_iff.2 ⟨c, hc, hresult⟩⟩

/-- A call to connect is refused if nothing is left to connect, and then nothing is changed. -/
theorem IsUp.connect (h : s.IsUp) (hwired : s.IsWired deltaTypes) (hshows : s.ShowsConnected) :
    ∃ k, s.connect = (.error (.alreadyConnected k), s) := by
  -- Each channel is live and refuses, so the last result is a refusal too.
  have hrefused : ∀ result ∈ (s.connectChannels s.mode.channels).1,
      ∃ k, result = .error (.alreadyConnected k) := by
    intro result hresult
    obtain ⟨k, c, hc, rfl⟩ := hwired.mem_connectChannels_fst.1 hresult
    exact ⟨c.kind, by rw [Channel.connect, if_pos (h k c hc)]⟩
  have hnone : (s.connectChannels s.mode.channels).1.any Except.isOk = false := by
    rw [List.any_eq_false]
    intro result hresult
    obtain ⟨k, rfl⟩ := hrefused result hresult
    simp [Except.isOk, Except.toBool]
  obtain ⟨k, hk⟩ := List.exists_mem_of_ne_nil _ (channels_ne_nil s.mode)
  obtain ⟨link, hlink⟩ := hwired.exists_link hk
  have hmem : link.channel.connect.1 ∈ (s.connectChannels s.mode.channels).1 :=
    hwired.mem_connectChannels_fst.2 ⟨k, link.channel, channel?_of_link? hlink, rfl⟩
  obtain ⟨results, last, hlast⟩ : ∃ results last,
      (s.connectChannels s.mode.channels).1 = results ++ [last] :=
    (List.eq_nil_or_concat' _).resolve_left (List.ne_nil_of_mem hmem)
  obtain ⟨k', rfl⟩ := hrefused last (by rw [hlast]; simp)
  refine ⟨k', ?_⟩
  rw [Session.connect]
  dsimp only
  rw [hnone, connectChannels_of_isUp h, hshows.refreshConnected_eq, hlast]
  simp [List.getLastD_eq_getLast?]

theorem connect_of_not_isUp (hwired : s.IsWired deltaTypes) (h : ¬s.IsUp) : s.connect.1 = .ok () := by
  simp only [IsUp, not_forall, Bool.not_eq_true] at h
  obtain ⟨k, c, hc, hlive⟩ := h
  have hsome : (s.connectChannels s.mode.channels).1.any Except.isOk = true := by
    rw [List.any_eq_true]
    refine ⟨c.connect.1, hwired.mem_connectChannels_fst.2 ⟨k, c, hc, rfl⟩, ?_⟩
    rw [Channel.isOk_connect, hlive]
    rfl
  rw [Session.connect]
  dsimp only
  rw [if_pos hsome]

theorem IsWired.link?_connect_cases (h : s.IsWired deltaTypes) {link : Link} (hlink : s.link? k = some link) :
    ∃ link', s.connect.2.link? k = some link' ∧ link'.channel.phase.isLive = true ∧
      (link.channel.phase.isLive = false → link.Starts link') ∧
      (link.channel.phase.isLive = true → link' = link) := by
  have hsound := h.isSound k link.channel (channel?_of_link? hlink)
  refine ⟨link.connect, by rw [link?_connect h, hlink, Option.map_some], ?_, ?_, ?_⟩
  · cases hlive : link.channel.phase.isLive with
    | true => rwa [Link.connect_of_isLive hlive]
    | false => rw [(Link.starts_connect hsound hlive).phase_eq, Phase.isLive]
  · exact Link.starts_connect hsound
  · exact Link.connect_of_isLive

/-- After every step of a run the connected value says whether each channel that the mode needs is open.
A call to connect then leaves each of them connecting or open: it starts those that are neither, one new
transport for each, and does not touch the others. It is refused just if nothing is left to connect, and
then nothing at all is changed. -/
theorem run_shows_connected (mode : Mode) (o : Options) (actions : List Action) :
    let s := (ofMode mode o).run actions
    (s.connected.value = true ↔ ∀ k ∈ mode.channels, ∃ c, s.channel? k = some c ∧ c.phase = .opened) ∧
      s.connected.value = s.isConnected ∧
      (∀ k ∈ mode.channels, ∃ link link', s.link? k = some link ∧ s.connect.2.link? k = some link' ∧
        (link'.channel.phase = .connecting ∨ link'.channel.phase = .opened) ∧
        (link.channel.phase = .closed ∨ link.channel.phase = .failed → link.Starts link') ∧
        (link.channel.phase = .connecting ∨ link.channel.phase = .opened → link' = link)) ∧
      ((∃ error, s.connect.1 = .error error ∧ error.kind = .alreadyConnected) ↔
        ∀ k c, s.channel? k = some c → c.phase = .connecting ∨ c.phase = .opened) ∧
      ∀ error, s.connect.1 = .error error → error.kind = .alreadyConnected ∧ s.connect.2 = s := by
  intro s
  have hstart : (ofMode mode o).IsWired o.deltaTypes := isWired_ofMode mode o
  have hwired : s.IsWired o.deltaTypes := hstart.run actions
  have hshows : s.ShowsConnected := (showsConnected_ofMode mode o).run hstart actions
  have hmode : s.mode = mode := mode_run (ofMode mode o) actions
  have hup : s.IsUp ↔ ∀ k c, s.channel? k = some c → c.phase = .connecting ∨ c.phase = .opened := by
    simp only [IsUp, Channel.isLive_iff]
  refine ⟨?_, hshows, ?_, ?_, ?_⟩
  · rw [hshows, isConnected_iff, hmode]
  · intro k hk
    obtain ⟨link, hlink⟩ := hwired.exists_link (hmode ▸ hk)
    obtain ⟨link', hlink', hlive', hstarts, hstays⟩ := hwired.link?_connect_cases hlink
    refine ⟨link, link', hlink, hlink', Channel.isLive_iff.1 hlive', ?_, ?_⟩
    · rintro (hphase | hphase)
      · exact hstarts (by rw [hphase, Phase.isLive])
      · exact hstarts (by rw [hphase, Phase.isLive])
    · intro hphase
      exact hstays (Channel.isLive_iff.2 hphase)
  · rw [← hup]
    constructor
    · rintro ⟨error, herror, -⟩
      by_contra hdown
      cases herror.symm.trans (connect_of_not_isUp hwired hdown)
    · intro h
      obtain ⟨k, hrefused⟩ := h.connect hwired hshows
      exact ⟨.alreadyConnected k, congrArg Prod.fst hrefused, rfl⟩
  · intro error herror
    by_cases h : s.IsUp
    · obtain ⟨k, hrefused⟩ := h.connect hwired hshows
      rw [hrefused] at herror ⊢
      cases herror
      exact ⟨rfl, rfl⟩
    · cases herror.symm.trans (connect_of_not_isUp hwired h)

end Session
end AgentReply
