import AgentReply.Channel.State

/-!
# The life of a channel

Through all calls and events a channel holds a transport exactly while it is live; the transport that it
holds is of the current generation, and those that it has released are of earlier ones.
-/

namespace AgentReply
namespace Channel

variable {c : Channel} {e : Event} {phase : Phase} {signal : Signal}

/-! ### The phases in which a signal counts -/

theorem admits_of_isLast (hlive : phase.isLive = true) (hlast : signal.isLast = true) :
    phase.admits signal = true := by
  cases signal with
  | failed reason => cases phase <;> first | rfl | cases hlive
  | closed => cases phase <;> first | rfl | cases hlive
  | opened => cases hlast
  | frame text => cases hlast
  | retryDue => cases hlast

theorem admits_of_not_isLive (h : phase.isLive = false) (hsignal : signal ≠ .retryDue) :
    phase.admits signal = false := by
  cases phase with
  | connecting => cases h
  | opened => cases h
  | closed => cases signal <;> rfl
  | failed => cases signal <;> first | rfl | exact absurd rfl hsignal

theorem isLive_of_admits (h : phase.admits signal = true) (hsignal : signal ≠ .retryDue) :
    phase.isLive = true := by
  cases hlive : phase.isLive with
  | true => rfl
  | false =>
    rw [admits_of_not_isLive hlive hsignal] at h
    cases h

theorem isLive_eq_false_of_failed (h : phase = .failed) : phase.isLive = false := by
  rw [h]
  rfl

theorem eq_connecting_of_admits (h : phase.admits .opened = true) : phase = .connecting := by
  cases phase <;> first | rfl | cases h

theorem eq_opened_of_admits {text : String} (h : phase.admits (.frame text) = true) :
    phase = .opened := by
  cases phase <;> first | rfl | cases h

theorem eq_failed_of_admits (h : phase.admits .retryDue = true) : phase = .failed := by
  cases phase <;> first | rfl | cases h

/-! ### What each step does -/

theorem connect_of_isLive (h : c.phase.isLive = true) : c.connect.2 = c := by
  rw [connect, if_pos h]

theorem connect_of_not_isLive (h : c.phase.isLive = false) :
    c.connect.2 = { c.release with
      generation := c.generation + 1
      lastError := none
      held := some { generation := c.generation + 1, writer := c.writer } }.enter .connecting := by
  rw [connect, if_neg (by simp [h])]
  rfl

/-- A message goes to the transport that is held by an open channel, or nowhere. -/
theorem send_eq (c : Channel) (message : String) :
    (c.send message).2 = c ∨ ∃ t t' : Transport, c.phase = .opened ∧ c.held = some t ∧
      t.send message = .ok t' ∧ (c.send message).2 = { c with held := some t' } := by
  unfold send
  split
  · exact .inl rfl
  · split
    · next t hphase hheld =>
      cases hsend : t.send message with
      | ok t' => exact .inr ⟨t, t', hphase, hheld, hsend, rfl⟩
      | error reason => exact .inl rfl
    · exact .inl rfl

theorem accept_of_admits (hcurrent : c.isCurrent e = true) (hadmits : c.phase.admits e.signal = true) :
    c.accept e = (some (c.apply e.signal).1, (c.apply e.signal).2) := by
  rw [accept, hcurrent, hadmits]
  rfl

theorem accept_of_none (h : (c.accept e).1 = none) : (c.accept e).2 = c := by
  unfold accept at h ⊢
  split at h
  · cases h
  · next hno => rw [if_neg hno]

theorem accept_of_channel_ne (h : e.channel ≠ c.kind) : c.accept e = (none, c) := by
  have hstale : c.isCurrent e = false := by simp [isCurrent, h]
  rw [accept, hstale]
  rfl

theorem accept_of_generation_ne (h : e.generation ≠ c.generation) : c.accept e = (none, c) := by
  have hstale : c.isCurrent e = false := by simp [isCurrent, h]
  rw [accept, hstale]
  rfl

theorem accept_of_not_admits (h : c.phase.admits e.signal = false) : c.accept e = (none, c) := by
  rw [accept, h, Bool.and_false]
  rfl

theorem accept_of_closed (h : c.phase = .closed) (e : Event) : c.accept e = (none, c) := by
  refine accept_of_not_admits ?_
  rw [h]
  cases e.signal <;> rfl

theorem eq_of_isCurrent (h : c.isCurrent e = true) :
    e.channel = c.kind ∧ e.generation = c.generation := by
  simpa [isCurrent] using h

theorem of_accept_eq_some {output : Output} (h : (c.accept e).1 = some output) :
    c.isCurrent e = true ∧ c.phase.admits e.signal = true ∧ output = (c.apply e.signal).1 ∧
      (c.accept e).2 = (c.apply e.signal).2 := by
  unfold accept at h ⊢
  split at h
  · next hok =>
    obtain ⟨hcurrent, hadmits⟩ := Bool.and_eq_true_iff.1 hok
    rw [if_pos hok]
    exact ⟨hcurrent, hadmits, (Option.some.inj h).symm, rfl⟩
  · cases h

theorem accept_of_message {m : Message} (h : (c.accept e).1 = some (.message m)) :
    (c.accept e).2 = c := by
  unfold accept at h ⊢
  split at h
  · next hok =>
    rw [if_pos hok]
    cases hs : e.signal with
    | frame text =>
      rw [hs] at h
      simp only [apply, receive] at h ⊢
      split
      · rfl
      · next err => simp [*] at h
    | opened => simp [hs, apply] at h
    | failed reason => simp [hs, apply, fail] at h
    | closed => simp [hs, apply] at h
    | retryDue => simp [hs, apply] at h
  · cases h

theorem phase_disconnect (c : Channel) : c.disconnect.phase = .closed := by
  by_cases hclosed : c.phase = .closed
  · simp [disconnect, release, hclosed]
  · simp [disconnect, release, hclosed, enter, publish]

/-! ### What no step changes -/

/-- What a channel is made with. -/
def origin (c : Channel) : ChannelKind × List String := (c.kind, c.deltaTypes)

@[simp] theorem origin_connect (c : Channel) : c.connect.2.origin = c.origin := by
  unfold connect
  split <;> rfl

@[simp] theorem origin_disconnect (c : Channel) : c.disconnect.origin = c.origin := by
  unfold disconnect
  dsimp only
  split <;> rfl

@[simp] theorem origin_send (c : Channel) (message : String) :
    (c.send message).2.origin = c.origin := by
  rcases c.send_eq message with h | ⟨_, _, _, _, _, h⟩
  · rw [h]
  · rw [h]
    rfl

@[simp] theorem origin_apply (c : Channel) (signal : Signal) :
    (c.apply signal).2.origin = c.origin := by
  cases signal with
  | frame text =>
    simp only [apply, receive]
    split <;> rfl
  | _ => rfl

@[simp] theorem origin_accept (c : Channel) (e : Event) : (c.accept e).2.origin = c.origin := by
  unfold accept
  split
  · exact origin_apply c e.signal
  · rfl

/-! ### Generations -/

/-- The generations of the transports in the order in which they were opened. -/
def generations (c : Channel) : List Nat := c.transports.map Transport.generation

theorem generations_release (c : Channel) : c.release.generations = c.generations := by
  unfold generations transports release
  cases c.held <;> simp

theorem generations_connect (h : c.phase.isLive = false) :
    c.connect.2.generations = c.generations ++ [c.generation + 1] := by
  have hrelease := generations_release c
  unfold generations transports release at hrelease
  simp only [Option.toList_none, List.append_nil] at hrelease
  rw [connect_of_not_isLive h, generations, generations, transports, transports, ← hrelease]
  simp [enter, publish, release]

theorem generations_disconnect (c : Channel) : c.disconnect.generations = c.generations := by
  refine Eq.trans ?_ (generations_release c)
  unfold disconnect
  dsimp only
  split <;> rfl

theorem generation_of_send_eq_ok {t t' : Transport} {message : String}
    (h : t.send message = .ok t') : t'.generation = t.generation := by
  unfold Transport.send at h
  split at h <;> cases h
  rfl

theorem generations_send (c : Channel) (message : String) :
    (c.send message).2.generations = c.generations := by
  rcases c.send_eq message with h | ⟨t, t', _, hheld, hsend, h⟩
  · rw [h]
  · rw [h]
    simp [generations, transports, hheld, generation_of_send_eq_ok hsend]

theorem generations_apply (c : Channel) (signal : Signal) :
    (c.apply signal).2.generations = c.generations := by
  cases signal with
  | frame text =>
    simp only [apply, receive]
    split <;> rfl
  | failed reason => exact generations_release c
  | closed => exact generations_release c
  | opened => rfl
  | retryDue => rfl

theorem generation_apply (c : Channel) (signal : Signal) :
    (c.apply signal).2.generation = c.generation := by
  cases signal with
  | frame text =>
    simp only [apply, receive]
    split <;> rfl
  | _ => rfl

theorem generation_accept (c : Channel) (e : Event) : (c.accept e).2.generation = c.generation := by
  unfold accept
  split
  · exact generation_apply c e.signal
  · rfl

theorem generation_send (c : Channel) (message : String) :
    (c.send message).2.generation = c.generation := by
  rcases c.send_eq message with h | ⟨_, _, _, _, _, h⟩
  · rw [h]
  · rw [h]

theorem generation_connect (c : Channel) :
    c.connect.2.generation = if c.phase.isLive then c.generation else c.generation + 1 := by
  cases hlive : c.phase.isLive with
  | true => rw [connect_of_isLive hlive, if_pos rfl]
  | false => rw [connect_of_not_isLive hlive]; rfl

theorem generation_disconnect (c : Channel) :
    c.disconnect.generation = if c.phase = .closed then c.generation else c.generation + 1 := by
  by_cases hclosed : c.phase = .closed
  · simp [disconnect, release, hclosed]
  · simp [disconnect, release, hclosed, enter, publish]

/-- What holds of a channel throughout. -/
structure IsSound (c : Channel) : Prop where
  isSome_held : c.held.isSome = c.phase.isLive
  generation_held : ∀ t, c.held = some t → t.generation = c.generation
  sorted : c.generations.Pairwise (· < ·)
  le_generation : ∀ g ∈ c.generations, g ≤ c.generation

theorem isSound_of_new (kind : ChannelKind) (deltaTypes : List String) :
    IsSound { kind := kind, deltaTypes := deltaTypes } := by
  refine ⟨rfl, ?_, List.Pairwise.nil, ?_⟩
  · rintro t ⟨⟩
  · intro g hg
    cases hg

theorem IsSound.connect (h : c.IsSound) : c.connect.2.IsSound := by
  cases hlive : c.phase.isLive with
  | true => rwa [connect_of_isLive hlive]
  | false =>
    have hgenerations := generations_connect hlive
    rw [connect_of_not_isLive hlive] at hgenerations ⊢
    constructor
    · rfl
    · rintro t ⟨⟩
      rfl
    · rw [hgenerations, List.pairwise_append]
      refine ⟨h.sorted, List.pairwise_singleton _ _, ?_⟩
      intro g hg g' hg'
      rw [List.mem_singleton] at hg'
      have hle := h.le_generation g hg
      omega
    · intro g hg
      rw [hgenerations, List.mem_append, List.mem_singleton] at hg
      change g ≤ c.generation + 1
      rcases hg with hg | hg
      · have hle := h.le_generation g hg
        omega
      · omega

theorem IsSound.of_release {c' : Channel} (h : c.IsSound) (hheld : c'.held = none)
    (hphase : c'.phase.isLive = false) (hgenerations : c'.generations = c.generations)
    (hle : c.generation ≤ c'.generation) : c'.IsSound := by
  refine ⟨by rw [hheld, hphase]; rfl, ?_, hgenerations ▸ h.sorted, ?_⟩
  · intro t ht
    rw [hheld] at ht
    cases ht
  · intro g hg
    rw [hgenerations] at hg
    exact Nat.le_trans (h.le_generation g hg) hle

theorem IsSound.disconnect (h : c.IsSound) : c.disconnect.IsSound := by
  have hgenerations := generations_disconnect c
  cases hclosed : decide (c.phase = .closed) with
  | true =>
    have hphase : c.phase = .closed := of_decide_eq_true hclosed
    refine h.of_release ?_ ?_ hgenerations ?_
    · simp [Channel.disconnect, release, hphase]
    · simp [Channel.disconnect, release, hphase, Phase.isLive]
    · simp [Channel.disconnect, release, hphase]
  | false =>
    have hphase : c.phase ≠ .closed := of_decide_eq_false hclosed
    refine h.of_release ?_ ?_ hgenerations ?_
    · simp [Channel.disconnect, release, hphase, enter, publish]
    · simp [Channel.disconnect, release, hphase, enter, publish, Phase.isLive]
    · simp [Channel.disconnect, release, hphase, enter, publish]

theorem IsSound.send (h : c.IsSound) (message : String) : (c.send message).2.IsSound := by
  have hgenerations := generations_send c message
  rcases c.send_eq message with hsame | ⟨t, t', _, hheld, hsend, hsent⟩
  · rwa [hsame]
  · rw [hsent] at hgenerations ⊢
    refine ⟨?_, ?_, hgenerations ▸ h.sorted, fun g hg ↦ h.le_generation g (hgenerations ▸ hg)⟩
    · rw [← h.isSome_held, hheld]
      rfl
    · rintro _ ⟨⟩
      rw [generation_of_send_eq_ok hsend, h.generation_held t hheld]

theorem IsSound.apply {signal : Signal} (h : c.IsSound) (hadmits : c.phase.admits signal = true) :
    (c.apply signal).2.IsSound := by
  have hgenerations := generations_apply c signal
  cases signal with
  | opened =>
    have hlive : c.phase.isLive = true := by
      rw [eq_connecting_of_admits hadmits]
      rfl
    exact ⟨h.isSome_held.trans hlive, h.generation_held, h.sorted, h.le_generation⟩
  | frame text =>
    simp only [Channel.apply, receive]
    split
    · exact h
    · exact ⟨h.isSome_held, h.generation_held, h.sorted, h.le_generation⟩
  | failed reason => exact h.of_release rfl rfl hgenerations (Nat.le_refl _)
  | closed => exact h.of_release rfl rfl hgenerations (Nat.le_refl _)
  | retryDue => exact h

theorem IsSound.accept (h : c.IsSound) (e : Event) : (c.accept e).2.IsSound := by
  unfold Channel.accept
  split
  · next hok => exact h.apply (Bool.and_eq_true_iff.1 hok).2
  · exact h

/-! ### Held and released transports -/

theorem released_release (c : Channel) : c.released <+: c.release.released :=
  List.prefix_append _ _

theorem mem_released_release {t : Transport} (h : c.held = some t) :
    t.generation ∈ c.release.released.map Transport.generation := by
  simp [release, h]

theorem released_connect (c : Channel) : c.released <+: c.connect.2.released := by
  cases hlive : c.phase.isLive with
  | true => simp [connect_of_isLive hlive]
  | false => rw [connect_of_not_isLive hlive]; exact released_release c

theorem released_disconnect (c : Channel) : c.disconnect.released = c.release.released := by
  unfold disconnect
  dsimp only
  split <;> rfl

theorem released_send (c : Channel) (message : String) :
    (c.send message).2.released = c.released := by
  rcases c.send_eq message with h | ⟨_, _, _, _, _, h⟩
  · rw [h]
  · rw [h]

theorem released_accept (c : Channel) (e : Event) : c.released <+: (c.accept e).2.released := by
  unfold accept
  split
  · cases e.signal with
    | failed reason => exact released_release c
    | closed => exact released_release c
    | frame text =>
      simp only [apply, receive]
      split <;> exact List.prefix_refl _
    | opened => exact List.prefix_refl _
    | retryDue => exact List.prefix_refl _
  · exact List.prefix_refl _

theorem released_accept_of_not_last (h : ¬(c.isCurrent e = true ∧ e.signal.isLast = true)) :
    (c.accept e).2.released = c.released := by
  unfold accept
  split
  · next hok =>
    have hcurrent := (Bool.and_eq_true_iff.1 hok).1
    cases hs : e.signal with
    | failed reason => exact absurd ⟨hcurrent, by rw [hs]; rfl⟩ h
    | closed => exact absurd ⟨hcurrent, by rw [hs]; rfl⟩ h
    | frame text =>
      simp only [apply, receive]
      split <;> rfl
    | opened => rfl
    | retryDue => rfl
  · rfl

theorem released_accept_of_last (hlive : c.phase.isLive = true) (hcurrent : c.isCurrent e = true)
    (hlast : e.signal.isLast = true) : (c.accept e).2.released = c.release.released := by
  rw [accept_of_admits hcurrent (admits_of_isLast hlive hlast)]
  cases hs : e.signal with
  | failed reason => rfl
  | closed => rfl
  | opened => rw [hs] at hlast; cases hlast
  | frame text => rw [hs] at hlast; cases hlast
  | retryDue => rw [hs] at hlast; cases hlast

theorem signal_eq_of_accept_retryDue (h : (c.accept e).1 = some .retryDue) :
    e.signal = .retryDue ∧ c.phase = .failed := by
  unfold accept at h
  split at h
  · next hok =>
    have hadmits := (Bool.and_eq_true_iff.1 hok).2
    cases hs : e.signal with
    | retryDue =>
      rw [hs] at hadmits
      exact ⟨rfl, eq_failed_of_admits hadmits⟩
    | frame text =>
      rw [hs] at h
      simp only [apply, receive] at h
      split at h <;> cases h
    | opened => rw [hs] at h; cases h
    | failed reason => rw [hs] at h; cases h
    | closed => rw [hs] at h; cases h
  · cases h

theorem mem_generations {g : Nat} : g ∈ c.generations ↔
    g ∈ c.released.map Transport.generation ∨ ∃ t, c.held = some t ∧ t.generation = g := by
  unfold generations transports
  cases c.held <;> simp [eq_comm]

theorem IsSound.isLive_of_held (h : c.IsSound) {t : Transport} (ht : c.held = some t) :
    c.phase.isLive = true := by
  rw [← h.isSome_held, ht]
  rfl

theorem IsSound.generation_notMem_released (h : c.IsSound) {t : Transport} (ht : c.held = some t) :
    t.generation ∉ c.released.map Transport.generation := by
  intro hg
  have hsorted := h.sorted
  rw [generations, transports, ht, List.map_append, List.pairwise_append] at hsorted
  exact Nat.lt_irrefl _ (hsorted.2.2 _ hg t.generation (by simp))

/-- No signal of a transport that is not held counts. -/
theorem IsSound.accept_of_not_held (h : c.IsSound) (hsignal : e.signal ≠ .retryDue)
    (hheld : ∀ t, c.held = some t → t.generation ≠ e.generation) : c.accept e = (none, c) := by
  unfold Channel.accept
  refine if_neg ?_
  intro hok
  obtain ⟨hcurrent, hadmits⟩ := Bool.and_eq_true_iff.1 hok
  cases hlive : c.phase.isLive with
  | false =>
    rw [admits_of_not_isLive hlive hsignal] at hadmits
    cases hadmits
  | true =>
    rw [← h.isSome_held, Option.isSome_iff_exists] at hlive
    obtain ⟨t, ht⟩ := hlive
    have hgeneration : e.generation = c.generation := by
      simp only [isCurrent, Bool.and_eq_true, decide_eq_true_eq] at hcurrent
      exact hcurrent.2
    exact hheld t ht (by rw [h.generation_held t ht, hgeneration])

end Channel
end AgentReply
