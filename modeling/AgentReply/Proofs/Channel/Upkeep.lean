import AgentReply.Proofs.Channel.Lifecycle

/-!
# The upkeep of a channel

Calls and events come to a channel in any order. Whatever they are, a transport that is let go is
cancelled, the last error fits the phase, and those who watch see the present status. Together with
what `IsSound` says of generations this is an invariant, and each move restores it.
-/

namespace AgentReply
namespace Channel

variable {c : Channel} {phase : Phase} {signal : Signal}

/-- Something that happens to a channel. -/
inductive Move where
  | connect
  | disconnect
  | send (message : String)
  | accept (e : Event)
  /-- The writer of the transport that is held ends by itself. -/
  | writerStops

def after (c : Channel) : Move → Channel
  | .connect => c.connect.2
  | .disconnect => c.disconnect
  | .send message => (c.send message).2
  | .accept e => (c.accept e).2
  | .writerStops => { c with held := c.held.map Transport.stop }

def afterAll (c : Channel) (moves : List Move) : Channel := moves.foldl after c

@[simp] theorem afterAll_nil (c : Channel) : c.afterAll [] = c := rfl

@[simp] theorem afterAll_cons (c : Channel) (m : Move) (moves : List Move) :
    c.afterAll (m :: moves) = (c.after m).afterAll moves := rfl

/-- The generation of the transport that a move opens: only a call to connect that succeeds opens one. -/
def opening? (c : Channel) : Move → Option Nat
  | .connect => if c.connect.1.isOk then some c.connect.2.generation else none
  | _ => none

def openings (c : Channel) : List Move → List Nat
  | [] => []
  | m :: moves => (c.opening? m).toList ++ (c.after m).openings moves

/-! ### Generations -/

theorem isOk_connect (c : Channel) : c.connect.1.isOk = !c.phase.isLive := by
  cases hlive : c.phase.isLive with
  | true =>
    rw [connect, if_pos hlive]
    rfl
  | false =>
    rw [connect, if_neg (by simp [hlive])]
    rfl

theorem generations_after (c : Channel) (m : Move) :
    (c.after m).generations = c.generations ++ (c.opening? m).toList := by
  cases m with
  | connect =>
    cases hlive : c.phase.isLive with
    | true =>
      have hnone : c.opening? .connect = none := by simp [opening?, isOk_connect, hlive]
      rw [after, connect_of_isLive hlive, hnone, Option.toList_none, List.append_nil]
    | false =>
      have hgeneration : c.connect.2.generation = c.generation + 1 := by
        rw [connect_of_not_isLive hlive]
        rfl
      have hsome : c.opening? .connect = some (c.generation + 1) := by
        simp [opening?, isOk_connect, hlive, hgeneration]
      rw [after, generations_connect hlive, hsome, Option.toList_some]
  | disconnect => simpa [opening?, after] using generations_disconnect c
  | send message => simpa [opening?, after] using generations_send c message
  | accept e =>
    simp only [opening?, after, accept, Option.toList_none, List.append_nil]
    split
    · exact generations_apply c e.signal
    · rfl
  | writerStops => cases h : c.held <;> simp [opening?, after, generations, transports, h, Transport.stop]

theorem generations_afterAll (c : Channel) (moves : List Move) :
    (c.afterAll moves).generations = c.generations ++ c.openings moves := by
  induction moves generalizing c with
  | nil => simp [openings]
  | cons m moves ih => rw [afterAll_cons, ih, generations_after, openings, List.append_assoc]

/-! ### The invariant -/

/-- What holds of a channel whatever happens to it. -/
structure IsOrderly (c : Channel) : Prop extends IsSound c where
  cancelled_released : ∀ t ∈ c.released, t.cancelled = true
  cancelled_held : ∀ t, c.held = some t → t.cancelled = false
  lastError_connecting : c.phase = .connecting → c.lastError = none
  lastError_failed : c.phase = .failed → ∃ reason, c.lastError = some (.transport c.kind reason)
  watched_eq : c.watched.value = c.status

theorem isOrderly_of_new (kind : ChannelKind) (deltaTypes : List String) (writer : Writer) :
    IsOrderly { kind := kind, deltaTypes := deltaTypes, writer := writer } := by
  refine ⟨⟨rfl, ?_, List.Pairwise.nil, ?_⟩, ?_, ?_, ?_, ?_, ?_⟩
  · rintro t ⟨⟩
  · rintro g ⟨⟩
  · rintro t ⟨⟩
  · rintro t ⟨⟩
  · rintro ⟨⟩
  · rintro ⟨⟩
  · simp [status]

theorem cancelled_release (h : ∀ t ∈ c.released, t.cancelled = true) :
    ∀ t ∈ c.release.released, t.cancelled = true := by
  intro t ht
  rw [release, List.mem_append, Option.mem_toList, Option.map_eq_some_iff] at ht
  rcases ht with ht | ⟨u, -, rfl⟩
  · exact h t ht
  · rfl

theorem IsOrderly.of_release {c' : Channel} (h : c.IsOrderly) (hsound : c'.IsSound)
    (hreleased : c'.released = c.release.released) (hheld : c'.held = none)
    (hphase : c'.phase ≠ .connecting)
    (hfailed : c'.phase = .failed → ∃ reason, c'.lastError = some (.transport c'.kind reason))
    (hwatched : c'.watched.value = c'.status) : c'.IsOrderly := by
  refine ⟨hsound, ?_, ?_, fun hconnecting ↦ absurd hconnecting hphase, hfailed, hwatched⟩
  · rw [hreleased]
    exact cancelled_release h.cancelled_released
  · intro t ht
    rw [hheld] at ht
    cases ht

theorem IsOrderly.connect (h : c.IsOrderly) : c.connect.2.IsOrderly := by
  have hsound : c.connect.2.IsSound := h.toIsSound.connect
  cases hlive : c.phase.isLive with
  | true => rwa [connect_of_isLive hlive]
  | false =>
    rw [connect_of_not_isLive hlive] at hsound ⊢
    refine ⟨hsound, cancelled_release h.cancelled_released, ?_, fun _ ↦ rfl, ?_, rfl⟩
    · rintro t ⟨⟩
      rfl
    · rintro ⟨⟩

theorem IsOrderly.disconnect (h : c.IsOrderly) : c.disconnect.IsOrderly := by
  have hsound := h.toIsSound.disconnect
  have hreleased := released_disconnect c
  by_cases hclosed : c.phase = .closed
  · have hsame : c.disconnect = c.release := by simp [Channel.disconnect, release, hclosed]
    rw [hsame] at hsound ⊢
    refine h.of_release hsound rfl rfl ?_ ?_ h.watched_eq
    · rw [show c.release.phase = .closed from hclosed]
      rintro ⟨⟩
    · rw [show c.release.phase = .closed from hclosed]
      rintro ⟨⟩
  · have hends : c.disconnect = { c.release with generation := c.generation + 1 }.enter .closed := by
      simp [Channel.disconnect, release, hclosed]
    rw [hends] at hsound ⊢
    refine h.of_release hsound rfl rfl ?_ ?_ rfl
    · rintro ⟨⟩
    · rintro ⟨⟩

theorem cancelled_of_send_eq_ok {t t' : Transport} {message : String}
    (h : t.send message = .ok t') : t'.cancelled = t.cancelled := by
  unfold Transport.send at h
  split at h <;> cases h
  rfl

theorem IsOrderly.send (h : c.IsOrderly) (message : String) : (c.send message).2.IsOrderly := by
  have hsound := h.toIsSound.send message
  rcases c.send_eq message with hsame | ⟨t, t', _, hheld, hsend, hsent⟩
  · rwa [hsame]
  · rw [hsent] at hsound ⊢
    refine ⟨hsound, h.cancelled_released, ?_, h.lastError_connecting, h.lastError_failed, h.watched_eq⟩
    rintro _ ⟨⟩
    rw [cancelled_of_send_eq_ok hsend, h.cancelled_held t hheld]

theorem IsOrderly.apply (h : c.IsOrderly) (hadmits : c.phase.admits signal = true) :
    (c.apply signal).2.IsOrderly := by
  have hsound := h.toIsSound.apply hadmits
  cases signal with
  | opened =>
    refine ⟨hsound, h.cancelled_released, h.cancelled_held, ?_, ?_, rfl⟩
    · rintro ⟨⟩
    · rintro ⟨⟩
  | frame text =>
    have hopened := eq_opened_of_admits hadmits
    simp only [Channel.apply, receive] at hsound ⊢
    split
    · exact h
    · -- A malformed frame is published without a change of phase.
      next e hdecode =>
      rw [hdecode] at hsound
      refine ⟨hsound, h.cancelled_released, h.cancelled_held, ?_, ?_, rfl⟩
      · intro hphase
        cases hopened.symm.trans hphase
      · intro hphase
        cases hopened.symm.trans hphase
  | failed reason =>
    refine h.of_release hsound rfl rfl ?_ (fun _ ↦ ⟨reason, rfl⟩) rfl
    rintro ⟨⟩
  | closed =>
    refine h.of_release hsound rfl rfl ?_ ?_ rfl
    · rintro ⟨⟩
    · rintro ⟨⟩
  | retryDue => exact h

theorem IsOrderly.accept (h : c.IsOrderly) (e : Event) : (c.accept e).2.IsOrderly := by
  unfold Channel.accept
  split
  · next hok => exact h.apply (Bool.and_eq_true_iff.1 hok).2
  · exact h

theorem IsSound.writerStops (h : c.IsSound) : (c.after .writerStops).IsSound := by
  have hgenerations : (c.after .writerStops).generations = c.generations := by
    simpa [opening?] using generations_after c .writerStops
  refine ⟨?_, ?_, hgenerations ▸ h.sorted, fun g hg ↦ h.le_generation g (hgenerations ▸ hg)⟩
  · rw [Channel.after, Option.isSome_map]
    exact h.isSome_held
  · intro t ht
    obtain ⟨u, hu, rfl⟩ := Option.map_eq_some_iff.1 ht
    exact h.generation_held u hu

theorem IsOrderly.writerStops (h : c.IsOrderly) : (c.after .writerStops).IsOrderly := by
  refine ⟨h.toIsSound.writerStops, h.cancelled_released, ?_, h.lastError_connecting, h.lastError_failed,
    h.watched_eq⟩
  intro t ht
  obtain ⟨u, hu, rfl⟩ := Option.map_eq_some_iff.1 ht
  exact h.cancelled_held u hu

theorem IsOrderly.after (h : c.IsOrderly) (m : Move) : (c.after m).IsOrderly := by
  cases m with
  | connect => exact h.connect
  | disconnect => exact h.disconnect
  | send message => exact h.send message
  | accept e => exact h.accept e
  | writerStops => exact h.writerStops

theorem IsOrderly.afterAll (h : c.IsOrderly) (moves : List Move) : (c.afterAll moves).IsOrderly := by
  induction moves generalizing c with
  | nil => exact h
  | cons m moves ih => exact ih (h.after m)

/-! ### After any moves -/

theorem kind_after (c : Channel) (m : Move) : (c.after m).kind = c.kind := by
  cases m with
  | connect => exact congrArg Prod.fst c.origin_connect
  | disconnect => exact congrArg Prod.fst c.origin_disconnect
  | send message => exact congrArg Prod.fst (c.origin_send message)
  | accept e => exact congrArg Prod.fst (c.origin_accept e)
  | writerStops => rfl

theorem kind_afterAll (c : Channel) (moves : List Move) : (c.afterAll moves).kind = c.kind := by
  induction moves generalizing c with
  | nil => rfl
  | cons m moves ih => rw [afterAll_cons, ih, kind_after]

theorem isLive_iff : phase.isLive = true ↔ phase = .connecting ∨ phase = .opened := by
  cases phase <;> simp [Phase.isLive]

/-- Of all transports the one that is held, if there is one, has not been cancelled. -/
theorem IsOrderly.filter_transports (h : c.IsOrderly) :
    c.transports.filter (fun t ↦ !t.cancelled) = c.held.toList := by
  have hreleased : c.released.filter (fun t ↦ !t.cancelled) = [] := by
    rw [List.filter_eq_nil_iff]
    intro t ht
    simp [h.cancelled_released t ht]
  rw [transports, List.filter_append, hreleased, List.nil_append]
  cases hheld : c.held with
  | none => rfl
  | some t => simp [h.cancelled_held t hheld]

theorem canSend_status_iff (c : Channel) :
    c.status.canSend = true ↔ c.kind = .socket ∧ c.phase = .opened := by
  cases hkind : c.kind <;> simp [status, hkind, ChannelKind.sends]

theorem IsOrderly.connect_eq_error (h : c.IsOrderly) {error : ChannelError}
    (herror : c.connect.1 = .error error) :
    error = .alreadyConnected c.kind ∧ c.connect.2 = c ∧
      ∃ t, c.held = some t ∧ t.cancelled = false := by
  have hlive : c.phase.isLive = true := by
    have hok := isOk_connect c
    rw [herror] at hok
    simpa [Except.isOk, Except.toBool] using hok.symm
  rw [Channel.connect, if_pos hlive] at herror
  cases herror
  refine ⟨rfl, connect_of_isLive hlive, ?_⟩
  rw [← h.isSome_held, Option.isSome_iff_exists] at hlive
  obtain ⟨t, ht⟩ := hlive
  exact ⟨t, ht, h.cancelled_held t ht⟩

/-- The life of a channel, whatever happens to it. It holds a transport just while it is connecting or
open, that of the current generation; all others that were ever opened are cancelled. Generations
increase. The last error fits the phase, only an open socket can send, and the status that is watched is
the present one. A connection that is there already is not touched by another call to connect. -/
theorem afterAll_keeps_order (kind : ChannelKind) (deltaTypes : List String) (writer : Writer)
    (moves : List Move) :
    let start : Channel := { kind := kind, deltaTypes := deltaTypes, writer := writer }
    let c := start.afterAll moves
    (c.held.isSome = true ↔ c.phase = .connecting ∨ c.phase = .opened) ∧
      c.transports.map Transport.generation = start.openings moves ∧
      c.transports.filter (fun t ↦ !t.cancelled) = c.held.toList ∧
      (start.openings moves).Pairwise (· < ·) ∧
      (∀ t, c.held = some t → t.generation = c.generation) ∧
      (c.phase = .connecting → c.lastError = none) ∧
      (c.phase = .failed → ∃ reason, c.lastError = some (.transport kind reason)) ∧
      (c.status.canSend = true ↔ kind = .socket ∧ c.phase = .opened) ∧
      c.watched.value = c.status ∧
      ∀ error, c.connect.1 = .error error → error = .alreadyConnected kind ∧ c.connect.2 = c ∧
        ∃ t, c.held = some t ∧ t.cancelled = false := by
  intro start c
  have h : c.IsOrderly := (isOrderly_of_new kind deltaTypes writer).afterAll moves
  have hkind : c.kind = kind := kind_afterAll start moves
  have hgenerations : c.generations = start.openings moves := generations_afterAll start moves
  have hsend := canSend_status_iff c
  have hfailed := h.lastError_failed
  have hconnect : ∀ error, c.connect.1 = .error error → error = .alreadyConnected kind ∧
      c.connect.2 = c ∧ ∃ t, c.held = some t ∧ t.cancelled = false := by
    intro error herror
    rw [← hkind]
    exact h.connect_eq_error herror
  rw [hkind] at hsend hfailed
  refine ⟨?_, hgenerations, h.filter_transports, hgenerations ▸ h.sorted, h.generation_held,
    h.lastError_connecting, hfailed, hsend, h.watched_eq, hconnect⟩
  rw [h.isSome_held, isLive_iff]

end Channel
end AgentReply
