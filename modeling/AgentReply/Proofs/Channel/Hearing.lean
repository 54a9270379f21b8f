import AgentReply.Proofs.Channel.Lifecycle

/-!
# What a channel hears of its transports

A transport reports that it has failed, or that it is open and then its frames and perhaps how it ended.
A channel that has heard the first of these signals, in order, is in the phase in which the next one
counts, as long as it holds the transport.
-/

namespace AgentReply

namespace Signal

/-- What a transport reports, in order. -/
inductive IsLife : List Signal → Prop
  | silent : IsLife []
  | failed (reason : String) : IsLife [.failed reason]
  | opened (frames : List String) : IsLife (.opened :: frames.map .frame)
  | ended (frames : List String) {last : Signal} (h : last.isLast = true) :
      IsLife (.opened :: (frames.map .frame ++ [last]))

variable {x : Signal} {heard rest : List Signal}

theorem IsLife.first (h : IsLife (x :: rest)) : x = .opened ∨ x.isLast = true := by
  cases h with
  | failed reason => exact .inr rfl
  | opened frames => exact .inl rfl
  | ended frames h => exact .inl rfl

theorem IsLife.next (h : IsLife (.opened :: (heard ++ x :: rest))) :
    (∃ text, x = .frame text) ∨ x.isLast = true := by
  generalize hlife : Signal.opened :: (heard ++ x :: rest) = life at h
  have hmem : x ∈ heard ++ x :: rest := by simp
  cases h with
  | silent => cases hlife
  | failed reason => cases hlife
  | opened frames =>
    rw [List.cons.injEq] at hlife
    rw [hlife.2, List.mem_map] at hmem
    obtain ⟨text, _, htext⟩ := hmem
    exact .inl ⟨text, htext.symm⟩
  | @ended frames last hlast =>
    rw [List.cons.injEq] at hlife
    rw [hlife.2, List.mem_append, List.mem_map, List.mem_singleton] at hmem
    rcases hmem with ⟨text, _, htext⟩ | rfl
    · exact .inl ⟨text, htext.symm⟩
    · exact .inr hlast

end Signal

namespace Channel

variable {c : Channel} {e : Event} {heard : Nat → List Signal} {life : List Signal} {x : Signal}

/-- Where a channel stands when it has been given these signals of each generation. -/
structure InStep (heard : Nat → List Signal) (c : Channel) : Prop where
  connecting : c.phase = .connecting → heard c.generation = []
  opened : c.phase = .opened → ∃ rest, heard c.generation = .opened :: rest
  unheard : ∀ g, c.generation < g → heard g = []

/-- The next signal of the transport that is held counts. -/
theorem InStep.admits (h : c.InStep heard) (hlive : c.phase.isLive = true) (hlife : Signal.IsLife life)
    (hnext : heard c.generation ++ [x] <+: life) : c.phase.admits x = true := by
  obtain ⟨rest, rfl⟩ := hnext
  cases hphase : c.phase with
  | connecting =>
    rw [h.connecting hphase] at hlife
    rcases hlife.first with rfl | hlast
    · rfl
    · exact admits_of_isLast rfl hlast
  | opened =>
    obtain ⟨before, hbefore⟩ := h.opened hphase
    rw [hbefore, List.append_assoc] at hlife
    rcases Signal.IsLife.next hlife with ⟨text, rfl⟩ | hlast
    · rfl
    · exact admits_of_isLast rfl hlast
  | closed => rw [hphase] at hlive; cases hlive
  | failed => rw [hphase] at hlive; cases hlive

theorem InStep.connect (h : c.InStep heard) : c.connect.2.InStep heard := by
  cases hlive : c.phase.isLive with
  | true => rwa [connect_of_isLive hlive]
  | false =>
    rw [connect_of_not_isLive hlive]
    refine ⟨fun _ ↦ h.unheard _ (Nat.lt_succ_self _), ?_, ?_⟩
    · rintro ⟨⟩
    · intro g hg
      exact h.unheard g (Nat.lt_of_succ_lt hg)

theorem InStep.of_not_isLive {c' : Channel} (h : c.InStep heard) (hphase : c'.phase.isLive = false)
    (hle : c.generation ≤ c'.generation) : c'.InStep heard := by
  refine ⟨?_, ?_, fun g hg ↦ h.unheard g (Nat.lt_of_le_of_lt hle hg)⟩
  · intro hconnecting
    rw [hconnecting] at hphase
    cases hphase
  · intro hopened
    rw [hopened] at hphase
    cases hphase

theorem InStep.disconnect (h : c.InStep heard) : c.disconnect.InStep heard := by
  by_cases hclosed : c.phase = .closed
  · refine h.of_not_isLive ?_ ?_
    · simp [Channel.disconnect, release, hclosed, Phase.isLive]
    · simp [Channel.disconnect, release, hclosed]
  · refine h.of_not_isLive ?_ ?_
    · simp [Channel.disconnect, release, hclosed, enter, publish, Phase.isLive]
    · simp [Channel.disconnect, release, hclosed, enter, publish]

theorem InStep.send (h : c.InStep heard) (message : String) :
    (c.send message).2.InStep heard := by
  rcases c.send_eq message with hsame | ⟨t, t', _, _, _, hsent⟩
  · rwa [hsame]
  · rw [hsent]
    exact ⟨h.connecting, h.opened, h.unheard⟩

theorem accept_retryDue (c : Channel) (h : e.signal = .retryDue) : (c.accept e).2 = c := by
  unfold accept
  rw [h]
  split <;> rfl

/-- The signals of each generation when those of an event are added. -/
def hear (heard : Nat → List Signal) (e : Event) (g : Nat) : List Signal :=
  if g = e.generation then heard g ++ [e.signal] else heard g

theorem hear_of_eq (h : c.generation = e.generation) :
    hear heard e c.generation = heard c.generation ++ [e.signal] :=
  if_pos h

theorem hear_of_ne {g : Nat} (h : g ≠ e.generation) : hear heard e g = heard g := if_neg h

theorem InStep.apply (h : c.InStep heard) (hgeneration : c.generation = e.generation)
    (hsignal : e.signal ≠ .retryDue) (hadmits : c.phase.admits e.signal = true) :
    (c.apply e.signal).2.InStep (hear heard e) := by
  have hheard : hear heard e c.generation = heard c.generation ++ [e.signal] :=
    hear_of_eq hgeneration
  have hunheard : ∀ g, c.generation < g → hear heard e g = [] := by
    intro g hg
    rw [hear_of_ne (by omega), h.unheard g hg]
  cases hs : e.signal with
  | opened =>
    rw [hs] at hadmits hheard
    rw [h.connecting (eq_connecting_of_admits hadmits)] at hheard
    exact ⟨by rintro ⟨⟩, fun _ ↦ ⟨[], hheard⟩, hunheard⟩
  | frame text =>
    rw [hs] at hadmits
    have hphase := eq_opened_of_admits hadmits
    obtain ⟨rest, hrest⟩ := h.opened hphase
    have hreceive : (c.apply (.frame text)).2.phase = c.phase ∧
        (c.apply (.frame text)).2.generation = c.generation := by
      simp only [Channel.apply, receive]
      split <;> exact ⟨rfl, rfl⟩
    constructor
    · rw [hreceive.1, hphase]
      rintro ⟨⟩
    · intro _
      rw [hreceive.2, hheard, hrest]
      exact ⟨rest ++ [e.signal], rfl⟩
    · rw [hreceive.2]
      exact hunheard
  | failed reason => exact ⟨by rintro ⟨⟩, by rintro ⟨⟩, hunheard⟩
  | closed => exact ⟨by rintro ⟨⟩, by rintro ⟨⟩, hunheard⟩
  | retryDue => exact absurd hs hsignal

/-- A channel that drops the signal of a transport that it does not hold stands where it stood. -/
theorem InStep.hear (h : c.InStep heard) (hsound : c.IsSound)
    (hopened : e.generation ∈ c.generations)
    (hheld : ∀ t, c.held = some t → t.generation ≠ e.generation) :
    c.InStep (Channel.hear heard e) := by
  have hother : c.phase.isLive = true → Channel.hear heard e c.generation = heard c.generation := by
    intro hlive
    rw [← hsound.isSome_held, Option.isSome_iff_exists] at hlive
    obtain ⟨t, ht⟩ := hlive
    exact hear_of_ne fun hgeneration ↦
      hheld t ht ((hsound.generation_held t ht).trans hgeneration)
  constructor
  · intro hphase
    rw [hother (by rw [hphase]; rfl), h.connecting hphase]
  · intro hphase
    rw [hother (by rw [hphase]; rfl)]
    exact h.opened hphase
  · intro g hg
    have hle := hsound.le_generation _ hopened
    rw [hear_of_ne (by omega), h.unheard g hg]

/-- A channel stays in step when it takes the next signal of a transport that it has opened. -/
theorem InStep.accept (h : c.InStep heard) (hsound : c.IsSound) (hchannel : e.channel = c.kind)
    (hopened : e.generation ∈ c.generations) (hsignal : e.signal ≠ .retryDue)
    (hlife : Signal.IsLife life) (hnext : heard e.generation ++ [e.signal] <+: life) :
    (c.accept e).2.InStep (Channel.hear heard e) := by
  by_cases hheld : ∃ t, c.held = some t ∧ t.generation = e.generation
  · obtain ⟨t, ht, hgeneration⟩ := hheld
    rw [hsound.generation_held t ht] at hgeneration
    rw [← hgeneration] at hnext
    have hadmits := h.admits (hsound.isLive_of_held ht) hlife hnext
    have hcurrent : c.isCurrent e = true := by simp [isCurrent, hchannel, hgeneration]
    rw [accept_of_admits hcurrent hadmits]
    exact h.apply hgeneration hsignal hadmits
  · have hother : ∀ t, c.held = some t → t.generation ≠ e.generation :=
      fun t ht hgeneration ↦ hheld ⟨t, ht, hgeneration⟩
    rw [hsound.accept_of_not_held hsignal hother]
    exact h.hear hsound hopened hother

end Channel
end AgentReply
