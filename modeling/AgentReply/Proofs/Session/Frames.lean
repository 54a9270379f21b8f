import AgentReply.Proofs.Channel.Hearing
import AgentReply.Proofs.Session.Run

/-!
# The frames that a session decodes

Whatever the order in which a session hears of its transports, and whatever is called meanwhile, it
decodes the frames of each transport that it handles until it releases the transport, each once and in
their order, and no other frame. What comes of a frame is dispatched, or reported if it is no message.
-/

namespace AgentReply

def Signal.frame? : Signal → Option String
  | .frame text => some text
  | _ => none

namespace Session

variable {s : Session} {k : ChannelKind} {g : Nat} {deltaTypes : List String}

/-- The signal of a transport that an action hands over. -/
def Action.signal? (k : ChannelKind) (g : Nat) : Action → Option Signal
  | .handle e =>
    if e.channel = k ∧ e.generation = g ∧ e.signal ≠ .retryDue then some e.signal else none
  | _ => none

/-- The signals of a transport that a run hands over, in the order in which they are handled. -/
def signals (k : ChannelKind) (g : Nat) (actions : List Action) : List Signal :=
  actions.filterMap (Action.signal? k g)

def frames (k : ChannelKind) (g : Nat) (actions : List Action) : List String :=
  (signals k g actions).filterMap Signal.frame?

/-- Whether a channel has opened a transport of a generation. -/
def hasOpened (s : Session) (k : ChannelKind) (g : Nat) : Bool :=
  (s.channel? k).any fun c ↦ c.generations.contains g

def holds (s : Session) (k : ChannelKind) (g : Nat) : Bool :=
  (s.channel? k).any fun c ↦ c.held.any fun t ↦ t.generation = g

def hasReleased (s : Session) (k : ChannelKind) (g : Nat) : Bool :=
  (s.channel? k).any fun c ↦ (c.released.map Transport.generation).contains g

/-- The actions of a run before a transport is released. -/
def untilReleased (s : Session) (k : ChannelKind) (g : Nat) : List Action → List Action
  | [] => []
  | a :: actions =>
    if s.hasReleased k g then [] else a :: (s.perform a).untilReleased k g actions

/-- The frame of a transport that an action makes a session decode, with what comes of it. -/
def decodes? (s : Session) (k : ChannelKind) (g : Nat) : Action → Option (String × Output)
  | .handle e =>
    if e.channel = k ∧ e.generation = g then
      match e.signal.frame?, s.output? e with
      | some text, some output => some (text, output)
      | _, _ => none
    else none
  | _ => none

/-- The frames of a transport that a run decodes, in the order in which this happens. -/
def decodings (s : Session) (k : ChannelKind) (g : Nat) : List Action → List (String × Output)
  | [] => []
  | a :: actions => (s.decodes? k g a).toList ++ (s.perform a).decodings k g actions

/-- What should come of a frame: its message, or that it holds none. -/
def outcome (k : ChannelKind) (deltaTypes : List String) (text : String) : Output :=
  match Message.decode deltaTypes text with
  | .ok m => .message m
  | .error e => .malformed (.malformedFrame k e.message text)

/-- Only a transport that has been opened is heard of. -/
def admits (s : Session) : Action → Bool
  | .handle e => e.signal = .retryDue || s.hasOpened e.channel e.generation
  | _ => true

def admitsAll (s : Session) : List Action → Bool
  | [] => true
  | a :: actions => s.admits a && (s.perform a).admitsAll actions

/-- A run in which each transport posts what it has to report, and is heard in this order, but only after
it has been opened. How far it is heard, and what else happens between its signals, is left open. -/
structure Hears (posts : ChannelKind → Nat → List Signal) (s : Session) (actions : List Action) :
    Prop where
  isLife : ∀ k g, Signal.IsLife (posts k g)
  inOrder : ∀ k g, signals k g actions <+: posts k g
  admitsAll : s.admitsAll actions = true

/-! ### Held and released transports -/

theorem hasOpened_eq (s : Session) (k : ChannelKind) (g : Nat) :
    s.hasOpened k g = (s.hasReleased k g || s.holds k g) := by
  unfold hasOpened hasReleased holds
  cases s.channel? k with
  | none => rfl
  | some c =>
    rw [Bool.eq_iff_iff]
    simp [Channel.mem_generations, Option.any_eq_true]

theorem holds_iff : s.holds k g = true ↔
    ∃ c t, s.channel? k = some c ∧ c.held = some t ∧ t.generation = g := by
  simp [holds, Option.any_eq_true]

theorem hasReleased_iff : s.hasReleased k g = true ↔
    ∃ c, s.channel? k = some c ∧ g ∈ c.released.map Transport.generation := by
  simp [hasReleased, Option.any_eq_true]

theorem IsWired.not_holds_of_hasReleased (h : s.IsWired deltaTypes)
    (hreleased : s.hasReleased k g = true) : s.holds k g = false := by
  obtain ⟨c, hc, hg⟩ := hasReleased_iff.1 hreleased
  rw [Bool.eq_false_iff]
  intro hholds
  obtain ⟨c', t, hc', ht, rfl⟩ := holds_iff.1 hholds
  rw [hc] at hc'
  cases hc'
  exact (h.isSound k c hc).generation_notMem_released ht hg

theorem released_channelAfter (c : Channel) (a : Action) :
    c.released <+: (channelAfter c a).released := by
  cases a with
  | handle e =>
    simp only [channelAfter]
    split
    · exact (c.released_accept e).trans (Channel.released_connect _)
    · exact c.released_accept e
  | connect => exact c.released_connect
  | disconnect => exact c.released_disconnect ▸ c.released_release
  | send message => exact (c.released_send message).symm ▸ List.prefix_refl c.released
  | wait span => exact List.prefix_refl _
  | takeNotices => exact List.prefix_refl _

theorem IsWired.hasReleased_perform (h : s.IsWired deltaTypes) (a : Action)
    (hreleased : s.hasReleased k g = true) : (s.perform a).hasReleased k g = true := by
  obtain ⟨c, hc, hg⟩ := hasReleased_iff.1 hreleased
  refine hasReleased_iff.2 ⟨channelAfter c a, ?_, ?_⟩
  · rw [channel?_perform h, hc]
    rfl
  · exact ((released_channelAfter c a).map Transport.generation).subset hg

/-- An event releases the transport that is held if it is the last one of that transport. -/
theorem mem_released_channelAfter_iff {c : Channel} {t : Transport} {e : Event} (hsound : c.IsSound)
    (ht : c.held = some t) :
    t.generation ∈ (channelAfter c (.handle e)).released.map Transport.generation ↔
      c.isCurrent e = true ∧ e.signal.isLast = true := by
  have hlive := hsound.isLive_of_held ht
  have hretry : (c.accept e).1 ≠ some .retryDue := by
    intro hout
    rw [(Channel.signal_eq_of_accept_retryDue hout).2] at hlive
    cases hlive
  rw [channelAfter, if_neg hretry]
  by_cases hlast : c.isCurrent e = true ∧ e.signal.isLast = true
  · rw [Channel.released_accept_of_last hlive hlast.1 hlast.2]
    exact iff_of_true (Channel.mem_released_release ht) hlast
  · rw [Channel.released_accept_of_not_last hlast]
    exact iff_of_false (hsound.generation_notMem_released ht) hlast

/-- A transport that is held is released by a call to disconnect and by its own last signal, and by
nothing else. -/
theorem IsWired.hasReleased_perform_iff (h : s.IsWired deltaTypes) (hholds : s.holds k g = true)
    (a : Action) : (s.perform a).hasReleased k g = true ↔
      a = .disconnect ∨ ∃ signal : Signal, signal.isLast = true ∧ a = .handle ⟨k, g, signal⟩ := by
  obtain ⟨c, t, hc, ht, hgeneration⟩ := holds_iff.1 hholds
  have hsound := h.isSound k c hc
  have hlive := hsound.isLive_of_held ht
  have hcurrent : c.generation = g := by rw [← hsound.generation_held t ht, hgeneration]
  have hafter : (s.perform a).hasReleased k g = true ↔
      g ∈ (channelAfter c a).released.map Transport.generation := by
    rw [hasReleased_iff, channel?_perform h, hc]
    simp
  have hkept : g ∉ c.released.map Transport.generation :=
    hgeneration ▸ hsound.generation_notMem_released ht
  rw [hafter]
  cases a with
  | handle e =>
    have hhere : c.isCurrent e = true ↔ e.channel = k ∧ e.generation = g := by
      simp [Channel.isCurrent, h.kind_eq hc, hcurrent]
    rw [← hgeneration, mem_released_channelAfter_iff hsound ht, hhere]
    constructor
    · rintro ⟨⟨rfl, rfl⟩, hlast⟩
      exact .inr ⟨e.signal, hlast, by rw [hgeneration]⟩
    · rintro (hcall | ⟨signal, hlast, heq⟩)
      · cases hcall
      · cases heq
        exact ⟨⟨rfl, hgeneration⟩, hlast⟩
  | connect =>
    simp only [channelAfter, Channel.connect_of_isLive hlive]
    simp [hkept]
  | disconnect =>
    simp only [true_or, iff_true, channelAfter, Channel.released_disconnect]
    exact hgeneration ▸ Channel.mem_released_release ht
  | send message => simp [channelAfter, Channel.released_send, hkept]
  | wait span => simp [channelAfter, hkept]
  | takeNotices => simp [channelAfter, hkept]

/-! ### One event -/

theorem IsWired.output?_of_not_holds (h : s.IsWired deltaTypes) {e : Event}
    (hsignal : e.signal ≠ .retryDue) (hholds : s.holds e.channel e.generation = false) :
    s.output? e = none := by
  unfold output?
  cases hc : s.channel? e.channel with
  | none => rfl
  | some c =>
    have hheld : ∀ t, c.held = some t → t.generation ≠ e.generation := by
      intro t ht hgeneration
      rw [holds_iff.2 ⟨c, t, hc, ht, hgeneration⟩] at hholds
      cases hholds
    rw [Option.bind_some, (h.isSound _ c hc).accept_of_not_held hsignal hheld]

/-- Each channel stands where the signals that it has been given have led it. -/
def InStep (history : List Action) (s : Session) : Prop :=
  ∀ k c, s.channel? k = some c → c.InStep fun g ↦ signals k g history

variable {history actions : List Action} {posts : ChannelKind → Nat → List Signal} {a : Action}
  {e : Event}

theorem signals_cons (k : ChannelKind) (g : Nat) (a : Action) (actions : List Action) :
    signals k g (a :: actions) = (a.signal? k g).toList ++ signals k g actions := by
  rw [signals, List.filterMap_cons]
  cases a.signal? k g <;> rfl

theorem signals_snoc (k : ChannelKind) (g : Nat) (history : List Action) (a : Action) :
    signals k g (history ++ [a]) = signals k g history ++ (a.signal? k g).toList := by
  rw [signals, signals, List.filterMap_append, List.filterMap_cons]
  cases a.signal? k g <;> rfl

theorem signals_snoc_of_none (history : List Action) (h : ∀ g, a.signal? k g = none) :
    (fun g ↦ signals k g (history ++ [a])) = fun g ↦ signals k g history := by
  funext g
  rw [signals_snoc, h g, Option.toList_none, List.append_nil]

theorem signals_snoc_handle (history : List Action) (hsignal : e.signal ≠ .retryDue) :
    (fun g ↦ signals e.channel g (history ++ [.handle e])) =
      Channel.hear (fun g ↦ signals e.channel g history) e := by
  funext g
  rw [signals_snoc, Channel.hear]
  by_cases hg : g = e.generation
  · simp [Action.signal?, hg, hsignal]
  · have hne : e.generation ≠ g := fun heq ↦ hg heq.symm
    simp [Action.signal?, hg, hne]

theorem InStep.channelAfter_handle {c : Channel} (h : s.InStep history) (hwired : s.IsWired deltaTypes)
    (hlife : ∀ k g, Signal.IsLife (posts k g))
    (hnext : ∀ k g, signals k g (history ++ [.handle e]) <+: posts k g)
    (hadmits : s.admits (.handle e) = true) (hc : s.channel? k = some c) :
    (channelAfter c (.handle e)).InStep fun g ↦ signals k g (history ++ [.handle e]) := by
  have hstep := h k c hc
  -- A retry that is due is no signal of a connection; a signal of another channel is dropped.
  by_cases hretry : e.signal = .retryDue
  · rw [signals_snoc_of_none history fun g ↦ by simp [Action.signal?, hretry]]
    simp only [channelAfter, Channel.accept_retryDue c hretry]
    split
    · exact hstep.connect
    · exact hstep
  · by_cases hk : e.channel = k
    · subst hk
      have hopened : e.generation ∈ c.generations := by
        simpa [admits, hretry, hasOpened, hc] using hadmits
      have hkind : e.channel = c.kind := (hwired.kind_eq hc).symm
      have hheard := hnext e.channel e.generation
      rw [signals_snoc_handle history hretry]
      rw [signals_snoc] at hheard
      have hnoRetry : (c.accept e).1 ≠ some .retryDue := fun hout ↦
        hretry (Channel.signal_eq_of_accept_retryDue hout).1
      simp only [channelAfter, if_neg hnoRetry]
      refine hstep.accept (hwired.isSound _ c hc) hkind hopened hretry
        (hlife e.channel e.generation) ?_
      simpa [Action.signal?, hretry] using hheard
    · have hne : e.channel ≠ c.kind := by
        rw [hwired.kind_eq hc]
        exact hk
      rw [signals_snoc_of_none history fun g ↦ by simp [Action.signal?, hk]]
      simpa [channelAfter, Channel.accept_of_channel_ne hne] using hstep

theorem InStep.perform (h : s.InStep history) (hwired : s.IsWired deltaTypes)
    (hlife : ∀ k g, Signal.IsLife (posts k g))
    (hnext : ∀ k g, signals k g (history ++ [a]) <+: posts k g) (hadmits : s.admits a = true) :
    (s.perform a).InStep (history ++ [a]) := by
  intro k c' hc'
  rw [channel?_perform hwired, Option.map_eq_some_iff] at hc'
  obtain ⟨c, hc, rfl⟩ := hc'
  have hstep := h k c hc
  cases a with
  | handle e => exact h.channelAfter_handle hwired hlife hnext hadmits hc
  | connect =>
    rw [signals_snoc_of_none history fun g ↦ rfl]
    exact hstep.connect
  | disconnect =>
    rw [signals_snoc_of_none history fun g ↦ rfl]
    exact hstep.disconnect
  | send message =>
    rw [signals_snoc_of_none history fun g ↦ rfl]
    exact hstep.send message
  | wait span =>
    rw [signals_snoc_of_none history fun g ↦ rfl]
    exact hstep
  | takeNotices =>
    rw [signals_snoc_of_none history fun g ↦ rfl]
    exact hstep

/-! ### Frames -/

theorem receive_eq_outcome (c : Channel) (text : String) :
    (c.receive text).1 = outcome c.kind c.deltaTypes text := by
  unfold Channel.receive outcome
  cases Message.decode c.deltaTypes text <;> rfl

theorem InStep.accept_of_holds (h : s.InStep history) (hwired : s.IsWired deltaTypes)
    (hlife : ∀ k g, Signal.IsLife (posts k g))
    (hnext : ∀ k g, signals k g (history ++ [.handle e]) <+: posts k g)
    (hsignal : e.signal ≠ .retryDue) (hholds : s.holds e.channel e.generation = true) :
    ∃ c, s.channel? e.channel = some c ∧
      c.accept e = (some (c.apply e.signal).1, (c.apply e.signal).2) := by
  obtain ⟨c, t, hc, ht, hgeneration⟩ := holds_iff.1 hholds
  have hsound := hwired.isSound _ c hc
  rw [hsound.generation_held t ht] at hgeneration
  have hheard := hnext e.channel e.generation
  rw [signals_snoc] at hheard
  have hadmits : c.phase.admits e.signal = true := by
    refine (h _ c hc).admits (hsound.isLive_of_held ht) (hlife e.channel e.generation) ?_
    rw [hgeneration]
    simpa [Action.signal?, hsignal] using hheard
  have hcurrent : c.isCurrent e = true := by
    simp [Channel.isCurrent, hwired.kind_eq hc, hgeneration]
  exact ⟨c, hc, Channel.accept_of_admits hcurrent hadmits⟩

/-- What a session does with a frame that it decodes. -/
def takeFrame (s : Session) (k : ChannelKind) (deltaTypes : List String) (text : String) : Session :=
  match Message.decode deltaTypes text with
  | .ok m => s.dispatch m
  | .error e =>
    let error := ChannelError.malformedFrame k e.message text
    (s.modify k fun link ↦
      { link with channel := { link.channel with lastError := some error }.publish }).notify
        (.channelError error)

theorem InStep.output?_of_holds {text : String} (h : s.InStep history)
    (hwired : s.IsWired deltaTypes) (hlife : ∀ k g, Signal.IsLife (posts k g))
    (hnext : ∀ l n, signals l n (history ++ [.handle ⟨k, g, .frame text⟩]) <+: posts l n)
    (hholds : s.holds k g = true) :
    s.output? ⟨k, g, .frame text⟩ = some (outcome k deltaTypes text) := by
  obtain ⟨c, hc, haccept⟩ := h.accept_of_holds hwired hlife hnext (by simp) hholds
  have horigin := hwired.origin_eq k c hc
  rw [Channel.origin, Prod.mk.injEq] at horigin
  rw [output?, hc, Option.bind_some, haccept, ← horigin.1, ← horigin.2, ← receive_eq_outcome]
  rfl

theorem InStep.handle_of_holds {text : String} (h : s.InStep history)
    (hwired : s.IsWired deltaTypes) (hlife : ∀ k g, Signal.IsLife (posts k g))
    (hnext : ∀ l n, signals l n (history ++ [.handle ⟨k, g, .frame text⟩]) <+: posts l n)
    (hholds : s.holds k g = true) :
    s.handle ⟨k, g, .frame text⟩ = s.takeFrame k deltaTypes text := by
  have hout := h.output?_of_holds hwired hlife hnext hholds
  obtain ⟨c, hc, haccept⟩ := h.accept_of_holds hwired hlife hnext (by simp) hholds
  unfold outcome at hout
  unfold takeFrame
  cases hdecode : Message.decode deltaTypes text with
  | ok m =>
    rw [hdecode] at hout
    have hreceived : s.received (.handle ⟨k, g, .frame text⟩) = some m := by
      simp only [received, hout]
    exact perform_of_received_eq_some hreceived
  | error err =>
    rw [hdecode] at hout
    obtain ⟨link, hlink, hhandle⟩ := handle_of_output?_eq_some hout
    have hlinked : c = link.channel := by
      rw [channel?, hlink] at hc
      cases hc
      rfl
    subst hlinked
    have horigin := hwired.origin_eq k _ hc
    rw [Channel.origin, Prod.mk.injEq] at horigin
    rw [hhandle, haccept, react]
    simp only [Channel.apply, Channel.receive, Session.modify, hlink, horigin.1, horigin.2, hdecode]

theorem InStep.decodes?_eq (h : s.InStep history) (hwired : s.IsWired deltaTypes)
    (hlife : ∀ k g, Signal.IsLife (posts k g))
    (hnext : ∀ k g, signals k g (history ++ [a]) <+: posts k g) (hadmits : s.admits a = true)
    (hreleased : s.hasReleased k g = false) :
    s.decodes? k g a = ((a.signal? k g).bind Signal.frame?).map fun text ↦
      (text, outcome k deltaTypes text) := by
  cases a with
  | handle e =>
    obtain ⟨k', g', signal⟩ := e
    by_cases hkg : k' = k ∧ g' = g
    · obtain ⟨rfl, rfl⟩ := hkg
      cases signal with
      | frame text =>
        have hholds : s.holds k' g' = true := by
          simpa [admits, hasOpened_eq, hreleased] using hadmits
        simp [decodes?, Action.signal?, Signal.frame?, h.output?_of_holds hwired hlife hnext hholds]
      | opened => simp [decodes?, Action.signal?, Signal.frame?]
      | failed reason => simp [decodes?, Action.signal?, Signal.frame?]
      | closed => simp [decodes?, Action.signal?, Signal.frame?]
      | retryDue => simp [decodes?, Action.signal?, Signal.frame?]
    · have hnone : Action.signal? k g (.handle ⟨k', g', signal⟩) = none :=
        if_neg fun hall ↦ hkg ⟨hall.1, hall.2.1⟩
      rw [hnone, decodes?, if_neg hkg]
      rfl
  | connect => rfl
  | disconnect => rfl
  | send message => rfl
  | wait span => rfl
  | takeNotices => rfl

theorem IsWired.decodings_of_hasReleased (h : s.IsWired deltaTypes)
    (hreleased : s.hasReleased k g = true) (actions : List Action) :
    s.decodings k g actions = [] := by
  induction actions generalizing s with
  | nil => rfl
  | cons a actions ih =>
    have hnone : s.decodes? k g a = none := by
      cases a with
      | handle e =>
        by_cases hkg : e.channel = k ∧ e.generation = g
        · obtain ⟨rfl, rfl⟩ := hkg
          have hholds := h.not_holds_of_hasReleased hreleased
          cases hframe : e.signal.frame? with
          | none => simp [decodes?, hframe]
          | some text =>
            have hsignal : e.signal ≠ .retryDue := by
              intro hretry
              rw [hretry] at hframe
              cases hframe
            simp [decodes?, hframe, h.output?_of_not_holds hsignal hholds]
        · rw [decodes?, if_neg hkg]
      | _ => rfl
    rw [decodings, hnone, ih (h.perform a) (h.hasReleased_perform a hreleased)]
    rfl

/-! ### A run -/

theorem frames_cons (k : ChannelKind) (g : Nat) (a : Action) (actions : List Action) :
    frames k g (a :: actions) =
      ((a.signal? k g).bind Signal.frame?).toList ++ frames k g actions := by
  rw [frames, signals_cons]
  cases ha : a.signal? k g with
  | none => rfl
  | some signal => cases hs : signal.frame? <;> simp [frames, hs]

theorem signals_of_append_cons (h : ∀ k g, signals k g (history ++ a :: actions) <+: posts k g) :
    ∀ k g, signals k g (history ++ [a]) <+: posts k g := by
  intro k g
  have hpart : history ++ [a] <+: history ++ a :: actions := ⟨actions, by simp⟩
  exact (hpart.filterMap _).trans (h k g)

theorem InStep.decodings_eq (h : s.InStep history) (hwired : s.IsWired deltaTypes)
    (hlife : ∀ k g, Signal.IsLife (posts k g))
    (hnext : ∀ k g, signals k g (history ++ actions) <+: posts k g)
    (hadmits : s.admitsAll actions = true) (k : ChannelKind) (g : Nat) :
    s.decodings k g actions = (frames k g (s.untilReleased k g actions)).map fun text ↦
      (text, outcome k deltaTypes text) := by
  -- Along the run the history grows, and what is heard by then stays the beginning of what is posted.
  induction actions generalizing s history with
  | nil => rfl
  | cons a actions ih =>
    obtain ⟨ha, hactions⟩ := Bool.and_eq_true_iff.1 hadmits
    have hhead := signals_of_append_cons hnext
    have hrest : ∀ k g, signals k g ((history ++ [a]) ++ actions) <+: posts k g := by
      intro k g
      simpa using hnext k g
    cases hreleased : s.hasReleased k g with
    | true =>
      rw [hwired.decodings_of_hasReleased hreleased, untilReleased, if_pos hreleased]
      rfl
    | false =>
      have hdecodes := h.decodes?_eq hwired hlife hhead ha hreleased
      have hlater := ih (h.perform hwired hlife hhead ha) (hwired.perform a) hrest hactions
      rw [untilReleased, if_neg (by simp [hreleased]), frames_cons, decodings, hdecodes, hlater,
        List.map_append]
      cases (a.signal? k g).bind Signal.frame? <;> rfl

theorem admitsAll_append (s : Session) (xs ys : List Action) :
    s.admitsAll (xs ++ ys) = (s.admitsAll xs && (s.run xs).admitsAll ys) := by
  induction xs generalizing s with
  | nil => rfl
  | cons a xs ih => simp [admitsAll, ih, Bool.and_assoc]

theorem InStep.run (h : s.InStep history) (hwired : s.IsWired deltaTypes)
    (hlife : ∀ k g, Signal.IsLife (posts k g))
    (hnext : ∀ k g, signals k g (history ++ actions) <+: posts k g)
    (hadmits : s.admitsAll actions = true) : (s.run actions).InStep (history ++ actions) := by
  induction actions generalizing s history with
  | nil => rwa [List.append_nil]
  | cons a actions ih =>
    obtain ⟨ha, hactions⟩ := Bool.and_eq_true_iff.1 hadmits
    have hhead := signals_of_append_cons hnext
    have hrest : ∀ k g, signals k g ((history ++ [a]) ++ actions) <+: posts k g := by
      intro k g
      simpa using hnext k g
    have hlater := ih (h.perform hwired hlife hhead ha) (hwired.perform a) hrest hactions
    rwa [List.append_assoc] at hlater

theorem inStep_ofMode (mode : Mode) (o : Options) : (ofMode mode o).InStep [] := by
  intro k c hc
  have hphase : c.phase = .closed := by cases mode <;> cases k <;> cases hc <;> rfl
  exact ⟨by simp [hphase], by simp [hphase], fun _ _ ↦ rfl⟩

variable {mode : Mode} {o : Options} {earlier later : List Action}

/-- Before each action of a run each channel is in step, and the action is the next to be heard. -/
theorem Hears.split (h : Hears posts (ofMode mode o) (earlier ++ a :: later)) :
    ((ofMode mode o).run earlier).InStep earlier ∧
      (∀ k g, signals k g (earlier ++ [a]) <+: posts k g) ∧
      ((ofMode mode o).run earlier).admits a = true := by
  have hadmits := h.admitsAll
  rw [admitsAll_append, Bool.and_eq_true_iff] at hadmits
  have hearlier : ∀ k g, signals k g ([] ++ earlier) <+: posts k g := fun k g ↦
    ((List.prefix_append earlier _).filterMap _).trans (h.inOrder k g)
  refine ⟨?_, signals_of_append_cons h.inOrder, (Bool.and_eq_true_iff.1 hadmits.2).1⟩
  exact (inStep_ofMode mode o).run (isWired_ofMode mode o) h.isLife hearlier hadmits.1

theorem untilReleased_isPrefix (s : Session) (k : ChannelKind) (g : Nat) (actions : List Action) :
    s.untilReleased k g actions <+: actions := by
  induction actions generalizing s with
  | nil => exact List.prefix_refl _
  | cons a actions ih =>
    rw [untilReleased]
    split
    · exact List.nil_prefix
    · exact (List.prefix_cons_inj a).2 (ih (s.perform a))

/-- No frame is lost and none is taken twice. Of the frames of each transport a session decodes those that
it handles before it releases the transport, each once and in the order in which they were posted. What
is decoded is dispatched or reported; what is not has no effect. A transport is released by a call to
disconnect or by its own last signal alone. -/
theorem run_decodes_frames (h : Hears posts (ofMode mode o) actions) (k : ChannelKind) (g : Nat) :
    let start := ofMode mode o
    let heard := frames k g (start.untilReleased k g actions)
    start.decodings k g actions = heard.map (fun text ↦ (text, outcome k o.deltaTypes text)) ∧
      heard <+: (posts k g).filterMap Signal.frame? ∧
      (∀ earlier text later, actions = earlier ++ .handle ⟨k, g, .frame text⟩ :: later →
        (start.run earlier).handle ⟨k, g, .frame text⟩ =
          if (start.run earlier).hasReleased k g then start.run earlier
          else (start.run earlier).takeFrame k o.deltaTypes text) ∧
      ∀ earlier a later, actions = earlier ++ a :: later → (start.run earlier).holds k g = true →
        ((start.run (earlier ++ [a])).hasReleased k g = true ↔
          a = .disconnect ∨ ∃ signal : Signal, signal.isLast = true ∧ a = .handle ⟨k, g, signal⟩) := by
  intro start heard
  have hstart : start.IsWired o.deltaTypes := isWired_ofMode mode o
  refine ⟨?_, ?_, ?_, ?_⟩
  · exact (inStep_ofMode mode o).decodings_eq hstart h.isLife h.inOrder h.admitsAll k g
  · have hpart := untilReleased_isPrefix start k g actions
    exact ((hpart.filterMap _).trans (h.inOrder k g)).filterMap _
  · rintro earlier text later rfl
    obtain ⟨hstep, hnext, hadmits⟩ := h.split
    have hwired := hstart.run earlier
    split
    · next hreleased =>
      have hholds := hwired.not_holds_of_hasReleased hreleased
      exact handle_of_output?_eq_none (hwired.output?_of_not_holds (by simp) hholds)
    · next hreleased =>
      have hkept : ((ofMode mode o).run earlier).hasReleased k g = false :=
        Bool.eq_false_iff.2 hreleased
      have hholds : ((ofMode mode o).run earlier).holds k g = true := by
        simpa [admits, hasOpened_eq, hkept] using hadmits
      exact hstep.handle_of_holds hwired h.isLife hnext hholds
  · intro earlier a later hsplit hholds
    rw [run_append]
    exact (hstart.run earlier).hasReleased_perform_iff hholds a

/-- A run in which a frame is still on its way when its transport is released. -/
def lateFrame : List Action :=
  [.connect, .handle ⟨.socket, 1, .opened⟩, .handle ⟨.socket, 1, .frame "a"⟩, .disconnect, .connect,
    .handle ⟨.socket, 1, .frame "b"⟩, .handle ⟨.socket, 3, .opened⟩,
    .handle ⟨.socket, 3, .frame "c"⟩]

theorem hears_lateFrame :
    Hears (fun k g ↦ signals k g lateFrame) (ofMode .socket {}) lateFrame := by
  refine ⟨fun k g ↦ ?_, fun k g ↦ List.prefix_refl _, by decide +kernel⟩
  cases k with
  | events => exact .silent
  | socket =>
    by_cases hfirst : g = 1
    · subst hfirst
      exact .opened ["a", "b"]
    · by_cases hthird : g = 3
      · subst hthird
        exact .opened ["c"]
      · have hnone : signals .socket g lateFrame = [] := by
          have hne₁ : 1 ≠ g := Ne.symm hfirst
          have hne₃ : 3 ≠ g := Ne.symm hthird
          simp [signals, lateFrame, Action.signal?, hne₁, hne₃]
        rw [hnone]
        exact .silent

theorem run_decodes_frames_lateFrame :
    (ofMode .socket {}).decodings .socket 1 lateFrame =
        [("a", outcome .socket Message.standardDeltaTypes "a")] ∧
      (ofMode .socket {}).decodings .socket 3 lateFrame =
        [("c", outcome .socket Message.standardDeltaTypes "c")] := by
  have hfirst : frames .socket 1 ((ofMode .socket {}).untilReleased .socket 1 lateFrame) = ["a"] := by
    decide +kernel
  have hthird : frames .socket 3 ((ofMode .socket {}).untilReleased .socket 3 lateFrame) = ["c"] := by
    decide +kernel
  constructor
  · rw [(run_decodes_frames hears_lateFrame .socket 1).1, hfirst]
    rfl
  · rw [(run_decodes_frames hears_lateFrame .socket 3).1, hthird]
    rfl

end Session
end AgentReply
