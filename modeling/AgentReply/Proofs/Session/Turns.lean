import AgentReply.Proofs.Reply.Assembly
import AgentReply.Proofs.Session.Run

/-!
# The turn that a session shows

A session shows what the messages that it has taken say of the current turn, whatever else happens to
it. What they say is told by a transcript: it goes through the messages of both channels in the order in
which they are handled and keeps those since the last turn began. The run follows the transcript step by
step.
-/

namespace AgentReply

namespace Message

/-- The text that a message adds to the turn, perhaps an empty one. -/
def text? : Message → Option String
  | .delta _ text => some text
  | .complete _ text => text
  | .remoteError _ | .control _ => none

/-- The turn that a message names. -/
def turn? : Message → Option String
  | .delta turn _ | .complete turn _ => turn
  | .remoteError _ | .control _ => none

def isComplete : Message → Bool
  | .complete _ _ => true
  | .delta _ _ | .remoteError _ | .control _ => false

end Message

/-- What the messages so far say of the current turn. -/
structure Transcript where
  id : TurnId := .made 1
  /-- The messages since the turn began; before the first one, all messages. -/
  messages : List Message := []
  /-- Whether a turn has begun. -/
  begun : Bool := false
  /-- The number of ids made so far. -/
  made : Nat := 1

namespace Transcript

def raw (t : Transcript) : String := String.join (t.messages.filterMap Message.text?)

def isComplete (t : Transcript) : Bool := t.messages.any Message.isComplete

/-- A turn begins with a text that is the first one, that follows a completed turn or that names another
turn. -/
def begins (t : Transcript) (m : Message) : Bool :=
  m.text?.isSome && (!t.begun || t.isComplete || m.turn?.any fun id ↦ t.id ≠ .sent id)

/-- The id of a turn that a message begins: the one that it names, or else a new one. -/
def idFor (t : Transcript) (m : Message) : TurnId :=
  m.turn?.elim (.made (t.made + 1)) .sent

def add (t : Transcript) (m : Message) : Transcript :=
  if t.begins m then ⟨t.idFor m, [m], true, if m.turn?.isSome then t.made else t.made + 1⟩
  else { t with messages := t.messages ++ [m] }

def addAll (t : Transcript) (ms : List Message) : Transcript := ms.foldl add t

def turn (v : Vocabulary) (t : Transcript) : Turn :=
  ⟨t.id, t.raw, Reply.parse v t.raw, t.isComplete⟩

/-- Whether a message says nothing new of the turn: it has no text, and the end of the turn is known. -/
def ignores (t : Transcript) (m : Message) : Bool :=
  m.text?.isNone && (!m.isComplete || t.isComplete)

end Transcript

/-! ### One message -/

namespace Transcript

variable {t : Transcript} {m : Message} {text : String}

theorem begins_of_text?_eq_none (hm : m.text? = none) : t.begins m = false := by
  rw [begins, hm]
  rfl

theorem add_of_begins (h : t.begins m = true) :
    t.add m = ⟨t.idFor m, [m], true, if m.turn?.isSome then t.made else t.made + 1⟩ :=
  if_pos h

theorem add_of_not_begins (h : t.begins m = false) :
    t.add m = { t with messages := t.messages ++ [m] } :=
  if_neg (by simp [h])

theorem raw_add (t : Transcript) (hm : m.text? = some text) :
    (t.add m).raw = (if t.begins m then "" else t.raw) ++ text := by
  cases h : t.begins m with
  | true => simp [add_of_begins h, raw, hm]
  | false => simp [add_of_not_begins h, raw, hm]

theorem raw_add_of_text?_eq_none (hm : m.text? = none) : (t.add m).raw = t.raw := by
  simp [add_of_not_begins (begins_of_text?_eq_none hm), raw, hm]

theorem isComplete_add (t : Transcript) (m : Message) :
    (t.add m).isComplete = (!t.begins m && t.isComplete || m.isComplete) := by
  cases h : t.begins m with
  | true => simp [add_of_begins h, isComplete]
  | false => simp [add_of_not_begins h, isComplete]

theorem turn_add_of_ignores (v : Vocabulary) (h : t.ignores m = true) :
    (t.add m).turn v = t.turn v := by
  simp only [ignores, Bool.and_eq_true, Option.isNone_iff_eq_none] at h
  obtain ⟨hm, hc⟩ := h
  have hbegins : t.begins m = false := begins_of_text?_eq_none hm
  have hcomplete : (t.add m).isComplete = t.isComplete := by
    rw [isComplete_add, hbegins]
    cases hmc : m.isComplete <;> simp_all
  rw [turn, raw_add_of_text?_eq_none hm, hcomplete, add_of_not_begins hbegins]
  rfl

/-! Ids that are made here are numbered, so a new one has not been used. -/

theorem made_le_add (t : Transcript) (m : Message) : t.made ≤ (t.add m).made := by
  cases h : t.begins m with
  | true =>
    rw [add_of_begins h]
    dsimp only
    split <;> omega
  | false => exact Nat.le_of_eq (congrArg Transcript.made (add_of_not_begins h)).symm

theorem made_le_addAll (t : Transcript) (ms : List Message) : t.made ≤ (t.addAll ms).made := by
  induction ms generalizing t with
  | nil => exact Nat.le_refl t.made
  | cons m ms ih => exact Nat.le_trans (made_le_add t m) (ih (t.add m))

/-- The number of the id, if it was made here, is among those made so far. -/
def IsNumbered (t : Transcript) : Prop := ∀ n, t.id = .made n → n ≤ t.made

theorem IsNumbered.add (h : t.IsNumbered) (m : Message) : (t.add m).IsNumbered := by
  intro n hn
  cases hb : t.begins m with
  | true =>
    rw [add_of_begins hb, idFor] at hn
    rw [add_of_begins hb]
    cases hm : m.turn? with
    | none => simp_all
    | some id => simp [hm] at hn
  | false =>
    rw [add_of_not_begins hb] at hn ⊢
    exact h n hn

theorem IsNumbered.addAll (h : t.IsNumbered) (ms : List Message) : (t.addAll ms).IsNumbered := by
  induction ms generalizing t with
  | nil => exact h
  | cons m ms ih => exact ih (h.add m)

/-- The id of a turn that names none differs from those of all turns before. -/
theorem id_ne_of_begins (h : t.IsNumbered) (ms : List Message) (hb : (t.addAll ms).begins m = true)
    (hm : m.turn? = none) : t.id ≠ ((t.addAll ms).add m).id := by
  intro heq
  rw [add_of_begins hb, idFor, hm] at heq
  have hle : (t.addAll ms).made + 1 ≤ t.made := h _ heq
  have hmade := made_le_addAll t ms
  omega

end Transcript

namespace Session

/-- A session shows the turn of a transcript and would begin the next one where the transcript does. -/
structure Follows (s : Session) (t : Transcript) : Prop where
  turn_eq : s.assembly.turn = t.turn s.vocabulary
  made_eq : s.assembly.made = t.made
  started_eq : s.turnStarted = t.begun
  shown_eq : s.snapshot.value = s.assembly.turn

variable {s s' : Session} {t : Transcript} {m : Message} {text : String}

theorem Follows.of_core_eq (h : Follows s t) (hcore : s'.core = s.core) : Follows s' t := by
  have hvocabulary : s'.vocabulary = s.vocabulary := congrArg Core.vocabulary hcore
  have hassembly : s'.assembly = s.assembly := congrArg Core.assembly hcore
  have hstarted : s'.turnStarted = s.turnStarted := congrArg Core.turnStarted hcore
  have hsnapshot : s'.snapshot = s.snapshot := congrArg Core.snapshot hcore
  constructor
  · rw [hassembly, hvocabulary, h.turn_eq]
  · rw [hassembly, h.made_eq]
  · rw [hstarted, h.started_eq]
  · rw [hsnapshot, hassembly, h.shown_eq]

theorem Follows.startsTurn_eq (h : Follows s t) (hm : m.text?.isSome = true) :
    s.startsTurn m.turn? = t.begins m := by
  unfold startsTurn Transcript.begins
  rw [h.started_eq, h.turn_eq, hm, Bool.true_and]
  rfl

theorem Follows.assembly_appendText (h : Follows s t) (hm : m.text? = some text) :
    (s.appendText m.turn? text).assembly =
      ⟨⟨(t.add m).id, (t.add m).raw, Reply.parse s.vocabulary (t.add m).raw,
        !t.begins m && t.isComplete⟩, (t.add m).made⟩ := by
  have hstarts := h.startsTurn_eq (m := m) (by rw [hm]; rfl)
  rw [Transcript.raw_add t hm]
  unfold appendText ensureTurn
  rw [hstarts]
  cases hb : t.begins m with
  | true =>
    -- A turn begins with the empty text, of which the empty reply is the reading.
    rw [Transcript.add_of_begins hb]
    have hbegin : s.assembly.begin m.turn? = ⟨⟨t.idFor m, "", Reply.parse s.vocabulary "", false⟩,
        if m.turn?.isSome then t.made else t.made + 1⟩ := by
      rw [Reply.parse_empty, Transcript.idFor, ← h.made_eq]
      cases m.turn? <;> rfl
    simp only [if_true, hbegin, Assembly.append, Turn.append_parse]
    rfl
  | false =>
    rw [Transcript.add_of_not_begins hb]
    simp only [Bool.false_eq_true, if_false, Assembly.append, h.turn_eq, h.made_eq, Transcript.turn,
      Turn.append_parse]
    rfl

theorem Follows.turnStarted_appendText (h : Follows s t) (hm : m.text? = some text) :
    (s.appendText m.turn? text).turnStarted = (t.add m).begun := by
  have hstarts := h.startsTurn_eq (m := m) (by rw [hm]; rfl)
  unfold appendText ensureTurn
  rw [hstarts]
  cases hb : t.begins m with
  | true => rw [Transcript.add_of_begins hb]; rfl
  | false => rw [Transcript.add_of_not_begins hb]; exact h.started_eq

/-- A message that says nothing new leaves the shown turn alone; at most it is a notice. -/
theorem Follows.core_dispatch_of_ignores (h : Follows s t) (hm : t.ignores m = true) :
    (s.dispatch m).core = s.core := by
  cases m with
  | delta turn text => simp [Transcript.ignores, Message.text?] at hm
  | complete turn last =>
    cases last with
    | some text => simp [Transcript.ignores, Message.text?] at hm
    | none =>
      have hc : t.isComplete = true := by
        simpa [Transcript.ignores, Message.text?, Message.isComplete] using hm
      have hdone : s.assembly.turn.complete = true := by rw [h.turn_eq]; exact hc
      rw [Session.dispatch, if_pos hdone]
  | remoteError envelope => rfl
  | control envelope => rfl

theorem Follows.add_of_ignores (h : Follows s t) (hm : t.ignores m = true) :
    Follows s (t.add m) := by
  have hnone : m.text? = none := by
    simp only [Transcript.ignores, Bool.and_eq_true, Option.isNone_iff_eq_none] at hm
    exact hm.1
  have hadd := Transcript.add_of_not_begins (Transcript.begins_of_text?_eq_none (t := t) hnone)
  refine ⟨?_, ?_, ?_, h.shown_eq⟩
  · rw [h.turn_eq, Transcript.turn_add_of_ignores _ hm]
  · rw [h.made_eq, hadd]
  · rw [h.started_eq, hadd]

theorem Follows.dispatch_delta (h : Follows s t) (turn : Option String) (text : String) :
    Follows (s.dispatch (.delta turn text)) (t.add (.delta turn text)) := by
  have hassembly := h.assembly_appendText (m := .delta turn text) rfl
  have hcomplete := Transcript.isComplete_add t (.delta turn text)
  rw [Message.isComplete, Bool.or_false] at hcomplete
  rw [← hcomplete] at hassembly
  refine ⟨?_, congrArg Assembly.made hassembly,
    h.turnStarted_appendText (m := .delta turn text) rfl, Watched.value_update _ _⟩
  rw [vocabulary_dispatch]
  exact congrArg Assembly.turn hassembly

theorem Follows.dispatch_complete (h : Follows s t) (turn : Option String) (text : String) :
    Follows (s.dispatch (.complete turn (some text))) (t.add (.complete turn (some text))) := by
  have hassembly := h.assembly_appendText (m := .complete turn (some text)) rfl
  have hcomplete := Transcript.isComplete_add t (.complete turn (some text))
  rw [Message.isComplete, Bool.or_true] at hcomplete
  refine ⟨?_, congrArg Assembly.made hassembly,
    h.turnStarted_appendText (m := .complete turn (some text)) rfl, Watched.value_update _ _⟩
  rw [vocabulary_dispatch, Transcript.turn, hcomplete]
  exact congrArg (fun a ↦ (Assembly.markComplete a).turn) hassembly

theorem Follows.dispatch_end (h : Follows s t) (turn : Option String) (hc : t.isComplete = false) :
    Follows (s.dispatch (.complete turn none)) (t.add (.complete turn none)) := by
  have hadd := Transcript.add_of_not_begins
    (Transcript.begins_of_text?_eq_none (t := t) (m := .complete turn none) rfl)
  have hcomplete := Transcript.isComplete_add t (.complete turn none)
  rw [Message.isComplete, Bool.or_true] at hcomplete
  have hdone : s.assembly.turn.complete = false := by rw [h.turn_eq]; exact hc
  have hends : s.dispatch (.complete turn none) = s.completeTurn.publish := by
    rw [Session.dispatch, if_neg (by simp [hdone])]
  rw [hends]
  refine ⟨?_, h.made_eq.trans ?_, h.started_eq.trans ?_, Watched.value_update _ _⟩
  · rw [Transcript.turn, hcomplete, Transcript.raw_add_of_text?_eq_none rfl, hadd]
    exact congrArg Turn.markComplete h.turn_eq
  · rw [hadd]
  · rw [hadd]

theorem Follows.dispatch (h : Follows s t) (m : Message) : Follows (s.dispatch m) (t.add m) := by
  cases hm : t.ignores m with
  | true => exact (h.add_of_ignores hm).of_core_eq (h.core_dispatch_of_ignores hm)
  | false =>
    cases m with
    | delta turn text => exact h.dispatch_delta turn text
    | complete turn last =>
      cases last with
      | some text => exact h.dispatch_complete turn text
      | none => exact h.dispatch_end turn (by simpa [Transcript.ignores, Message.text?,
          Message.isComplete] using hm)
    | remoteError envelope => cases hm
    | control envelope => cases hm

/-- The turn is published if a message has changed it, and not otherwise. -/
theorem snapshot_dispatch (s : Session) (m : Message) :
    (s.dispatch m).snapshot = s.snapshot.update (s.dispatch m).snapshot.value := by
  have hpublish : ∀ s' : Session, s'.snapshot = s.snapshot →
      s'.publish.snapshot = s.snapshot.update s'.publish.snapshot.value := by
    intro s' hs'
    rw [publish, Watched.value_update, hs']
  have hsame : s.snapshot = s.snapshot.update s.snapshot.value := (Watched.update_of_eq rfl).symm
  have happend : ∀ turn text, (s.appendText turn text).snapshot = s.snapshot := by
    intro turn text
    rw [appendText, ensureTurn]
    split <;> rfl
  cases m with
  | delta turn text => exact hpublish _ (happend turn text)
  | complete turn last =>
    cases last with
    | some text => exact hpublish (s.appendText turn text).completeTurn (happend turn text)
    | none =>
      rw [Session.dispatch]
      split
      · exact hsame
      · exact hpublish s.completeTurn rfl
  | remoteError envelope => exact hsame
  | control envelope => exact hsame

theorem Follows.snapshot_dispatch (h : Follows s t) (m : Message) :
    (s.dispatch m).snapshot = s.snapshot.update ((t.add m).turn s.vocabulary) := by
  have hnext := h.dispatch m
  rw [Session.snapshot_dispatch, hnext.shown_eq, hnext.turn_eq, vocabulary_dispatch]

/-! ### A run -/

theorem Follows.perform (h : Follows s t) (a : Action) :
    Follows (s.perform a) (t.addAll (s.received a).toList) := by
  cases hr : s.received a with
  | none => exact h.of_core_eq (core_perform_of_received_eq_none hr)
  | some m =>
    rw [perform_of_received_eq_some hr]
    exact h.dispatch m

theorem Follows.run (h : Follows s t) (actions : List Action) :
    Follows (s.run actions) (t.addAll (s.messages actions)) := by
  induction actions generalizing s t with
  | nil => exact h
  | cons a actions ih =>
    have hrest := ih (h.perform a)
    rw [Transcript.addAll, Transcript.addAll, ← List.foldl_append] at hrest
    exact hrest

theorem follows_ofMode (mode : Mode) (o : Options) : Follows (ofMode mode o) {} := by
  refine ⟨?_, rfl, rfl, rfl⟩
  change (⟨.made 1, "", {}, false⟩ : Turn) = ⟨.made 1, "", Reply.parse o.vocabulary "", false⟩
  rw [Reply.parse_empty]

/-- After each step of a run a session shows the turn that the messages taken so far tell of: its id,
their texts in the order in which they are handled, the reply that the texts read as, and whether the
end of the turn has come. Nothing else changes what is shown, and an id that is made here has not been
shown before. -/
theorem run_shows_turn (mode : Mode) (o : Options) (actions : List Action) :
    let s := (ofMode mode o).run actions
    let t := Transcript.addAll {} ((ofMode mode o).messages actions)
    s.snapshot.value = s.assembly.turn ∧
      s.snapshot.value = ⟨t.id, t.raw, Reply.parse o.vocabulary t.raw, t.isComplete⟩ ∧
      (∀ a, (s.received a).all t.ignores = true →
        (s.perform a).snapshot = s.snapshot ∧ (s.perform a).assembly = s.assembly) ∧
      ∀ a m, s.received a = some m → t.begins m = true → m.turn? = none →
        ∀ earlier, earlier <+: actions →
          ((ofMode mode o).run earlier).snapshot.value.id ≠ (s.perform a).snapshot.value.id := by
  intro s t
  have hs : Follows s t := (follows_ofMode mode o).run actions
  have hvocabulary : s.vocabulary = o.vocabulary := vocabulary_run (ofMode mode o) actions
  refine ⟨hs.shown_eq, ?_, ?_, ?_⟩
  · rw [hs.shown_eq, hs.turn_eq, hvocabulary, Transcript.turn]
  · intro a ha
    have hcore : (s.perform a).core = s.core := by
      cases hr : s.received a with
      | none => exact core_perform_of_received_eq_none hr
      | some m =>
        rw [perform_of_received_eq_some hr]
        rw [hr] at ha
        exact hs.core_dispatch_of_ignores ha
    exact ⟨congrArg Core.snapshot hcore, congrArg Core.assembly hcore⟩
  · rintro a m hr hb hm earlier ⟨later, rfl⟩
    have hearlier := (follows_ofMode mode o).run earlier
    have hnext := hs.dispatch m
    rw [perform_of_received_eq_some hr, hearlier.shown_eq, hearlier.turn_eq, hnext.shown_eq,
      hnext.turn_eq]
    have ht : t = (Transcript.addAll {} ((ofMode mode o).messages earlier)).addAll
        (((ofMode mode o).run earlier).messages later) := by
      rw [Transcript.addAll, Transcript.addAll, ← List.foldl_append, ← messages_append]
      rfl
    rw [ht] at hb ⊢
    have hnumbered : Transcript.IsNumbered {} := by
      rintro n ⟨⟩
      exact Nat.le_refl 1
    exact Transcript.id_ne_of_begins (hnumbered.addAll _) _ hb hm

example :
    let event (k : ChannelKind) (signal : Signal) : Action := .handle ⟨k, 1, signal⟩
    let s := (ofMode .dual {}).run [.connect, event .events .opened, event .socket .opened,
      event .socket (.frame "\x7b\"type\": \"delta\", \"id\": \"a\", \"content\": \"<re\"\x7d"),
      event .events (.frame "\x7b\"type\": \"delta\", \"content\": \"sult>Hi\"\x7d"),
      event .socket .closed]
    s.snapshot.value.id = .sent "a" ∧ s.snapshot.value.raw = "<result>Hi" := by
  decide +kernel

end Session
end AgentReply
