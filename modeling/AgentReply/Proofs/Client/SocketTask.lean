import AgentReply.Client.SocketTask
import AgentReply.Proofs.Client.Posted
import AgentReply.Proofs.Text.Utf8
import Mathlib.Data.List.Basic

/-!
# What the task of a socket posts

In every phase it is known what may have been posted, and what is still to be posted of the reports that are
ahead if nothing interferes. What the task is handed and writes changes neither. A text that cannot be
written puts a failure in the place of what was still to be posted.
-/

namespace AgentReply.SocketTask

/-! ### What is reported -/

def Move.report? : Move → Option Report
  | .report r => some r
  | _ => none

/-- The reports, in the order in which they come. -/
def reportsOf (moves : List Move) : List Report := moves.filterMap Move.report?

/-! ### What should be posted -/

/-- The text of a message: that of a text message, or that of a binary one in UTF-8. -/
def Report.text? : Report → Option String
  | .message (.text text) => some text
  | .message (.binary octets) => String.fromUTF8? octets.toByteArray
  | _ => none

/-- What is posted of the end of a socket. -/
def Report.ending? : Report → Option (List Signal)
  | .message .close | .ended => some [.closed]
  | .failed error => some [.failed s!"Socket error: {error}"]
  | _ => none

def Report.isAnswer : Report → Bool
  | .connected | .unreachable _ => true
  | _ => false

/-- The texts of the socket that is reported, if it opens. -/
def texts (reports : List Report) : List String :=
  match reports.dropWhile (!·.isAnswer) with
  | .connected :: reports => textsOf Report.text? Report.ending? reports
  | _ => []

/-- What should be posted of all that is reported. -/
def life (reports : List Report) : List Signal :=
  match reports.dropWhile (!·.isAnswer) with
  | .connected :: reports => .opened :: tellingOf Report.text? Report.ending? reports
  | .unreachable error :: _ => [.failed s!"Connect failed: {error}"]
  | _ => []

variable {t : SocketTask} {m : Move} {r : Report} {phase : Phase} {posted : List Signal}
  {reports : List Report} {moves : List Move} {outbox : List String} {cancelled : Bool}

theorem text?_of_ending? {signals : List Signal} (h : r.ending? = some signals) :
    signals.filterMap Signal.text? = [] := by
  cases r with
  | message message =>
    cases message with
    | close => rw [← Option.some.inj h]; rfl
    | _ => cases h
  | failed error => rw [← Option.some.inj h]; rfl
  | ended => rw [← Option.some.inj h]; rfl
  | _ => cases h

theorem filterMap_text?_life (reports : List Report) :
    (life reports).filterMap Signal.text? = texts reports := by
  unfold life texts
  cases reports.dropWhile (!·.isAnswer) with
  | nil => rfl
  | cons r reports =>
    cases r with
    | connected => exact filterMap_text?_tellingOf fun r signals ↦ text?_of_ending?
    | _ => rfl

/-! ### Polls -/

@[simp] theorem step_poll_nil (phase : Phase) :
    step ⟨phase, [], outbox, cancelled⟩ .poll = ([], ⟨phase, [], outbox, cancelled⟩) := by
  cases phase <;> rfl

theorem step_poll (h : phase.isWaiting = true) (r : Report) (ahead : List Report) :
    step ⟨phase, r :: ahead, outbox, cancelled⟩ .poll =
      (reply r, ⟨hear phase r, ahead, outbox, cancelled⟩) := by
  simp only [step, h]

theorem step_poll_of_not_isWaiting (h : phase.isWaiting = false) (ahead : List Report) :
    step ⟨phase, ahead, outbox, cancelled⟩ .poll = ([], ⟨phase, ahead, outbox, cancelled⟩) := by
  simp only [step, h]

@[simp] theorem signals_reply (r : Report) : Action.signals (reply r) = [] := by
  cases r with
  | message message => cases message <;> rfl
  | _ => rfl

/-! ### What may have been posted -/

/-- What may have been posted when a task is in a phase. -/
def Phase.Fits (posted : List Signal) : Phase → Prop
  | .connecting => posted = []
  | .listening | .writing | .closing => Signal.IsOpen posted
  | .posting signal => signal.CanFollow posted
  | .done => Signal.IsLife posted

theorem fits_hear (h : phase.Fits posted) (r : Report) : (hear phase r).Fits posted := by
  cases phase with
  | connecting =>
    cases r with
    | connected => exact h
    | unreachable error => exact .inl h
    | _ => exact h
  | listening =>
    cases r with
    | message message =>
      cases message with
      | binary octets =>
        simp only [hear]
        split
        · exact h
        · exact h
      | _ => exact h
    | failed error => exact .inr h
    | _ => exact h
  | _ => exact h

theorem isLife_of_fits (h : phase.Fits posted) : Signal.IsLife posted := by
  cases phase with
  | connecting => exact (show posted = [] from h) ▸ .silent
  | posting signal => exact Signal.CanFollow.isLife_before h
  | done => exact h
  | _ => exact Signal.IsOpen.isLife h

theorem fits_step (h : t.phase.Fits posted) (m : Move) :
    (t.step m).2.phase.Fits (posted ++ Action.signals (t.step m).1) := by
  obtain ⟨phase, ahead, outbox, cancelled⟩ := t
  cases m with
  | poll =>
    cases ahead with
    | nil => simpa using h
    | cons r ahead =>
      cases hwaiting : phase.isWaiting with
      | true => simpa [step_poll hwaiting] using fits_hear h r
      | false => simpa [step_poll_of_not_isWaiting hwaiting] using h
  | write =>
    cases phase with
    | listening => cases outbox <;> simpa [step, Phase.Fits] using h
    | _ => simpa [step] using h
  | notice =>
    cases cancelled with
    | true =>
      cases phase with
      | connecting => simpa [step, Phase.Fits] using isLife_of_fits h
      | listening => simpa [step, Phase.Fits] using h
      | _ => simpa [step] using h
    | false => simpa [step] using h
  | taken =>
    cases phase with
    | posting signal =>
      have hfollows : signal.CanFollow posted := h
      cases hlast : signal.isLast with
      | true => simpa [step, hlast, Phase.Fits] using hfollows.isLife
      | false => simpa [step, hlast, Phase.Fits] using hfollows.isOpen hlast
    | _ => simpa [step] using h
  | gone =>
    cases phase with
    | posting signal => simpa [step, Phase.Fits] using isLife_of_fits h
    | _ => simpa [step] using h
  | written => cases phase <;> simpa [step, Phase.Fits] using h
  | unwritten error =>
    cases phase with
    | writing =>
      have hopen : Signal.IsOpen posted := h
      simpa [step, Phase.Fits] using (show (Signal.failed _).CanFollow posted from .inr hopen)
    | _ => simpa [step] using h
  | closed =>
    cases phase with
    | closing => simpa [step, Phase.Fits] using isLife_of_fits h
    | _ => simpa [step] using h
  | _ => simpa [step] using h

theorem fits_run (h : t.phase.Fits posted) (moves : List Move) :
    (t.run moves).2.phase.Fits (posted ++ Action.signals (t.run moves).1) :=
  @stepAll_preserves SocketTask Move Report step Move.report? (fun t posted _ ↦ t.phase.Fits posted) t moves
    posted [] h fun m _ _ _ _ h ↦ fits_step h m

/-! ### What is still to be posted -/

/-- What is still to be posted of the reports ahead, if nothing interferes. -/
def due : Phase → List Report → List Signal
  | .connecting, reports => life reports
  | .listening, reports | .writing, reports => tellingOf Report.text? Report.ending? reports
  | .posting signal, reports =>
    signal :: if signal.isLast then [] else tellingOf Report.text? Report.ending? reports
  | .closing, _ | .done, _ => []

theorem due_hear (h : phase.isWaiting = true) :
    due phase (r :: reports) = due (hear phase r) reports := by
  cases phase with
  | connecting => cases r <;> rfl
  | listening =>
    cases r with
    | message message =>
      cases message with
      | text text => exact tellingOf_cons_of_text rfl rfl
      | binary octets =>
        cases hdecode : Utf8.decode? octets with
        | some text =>
          have hhear : hear .listening (.message (.binary octets)) = .posting (.frame text) := by
            simp only [hear, hdecode]
          rw [Utf8.decode?_eq_fromUTF8?] at hdecode
          rw [hhear]
          exact tellingOf_cons_of_text rfl hdecode
        | none =>
          have hhear : hear .listening (.message (.binary octets)) = .listening := by
            simp only [hear, hdecode]
          rw [Utf8.decode?_eq_fromUTF8?] at hdecode
          rw [hhear]
          exact tellingOf_cons rfl hdecode
      | close => exact tellingOf_cons_of_ending rfl
      | _ => exact tellingOf_cons rfl rfl
    | failed error => exact tellingOf_cons_of_ending rfl
    | ended => exact tellingOf_cons_of_ending rfl
    | _ => exact tellingOf_cons rfl rfl
  | _ => cases h

/-- Whether a move keeps a task from posting everything. -/
def Move.interferes : Move → Bool
  | .gone | .notice | .unwritten _ => true
  | _ => false

/-- A task is on course if what has been posted and what is due make up what should be posted, whatever is
reported later. -/
structure IsOnCourse (t : SocketTask) (posted : List Signal) (reports : List Report) : Prop where
  telling : ∀ later, posted ++ due t.phase (t.ahead ++ later) = life (reports ++ later)
  ahead_le : t.ahead.length ≤ reports.length

theorem isOnCourse_start : IsOnCourse {} [] [] := ⟨fun _ ↦ rfl, Nat.le_refl _⟩

/-- What a task is handed and what it is writing makes no difference to what is due. -/
theorem IsOnCourse.of_due_eq {t' : SocketTask} (h : t.IsOnCourse posted reports) (hahead : t'.ahead = t.ahead)
    (hdue : due t'.phase = due t.phase) : t'.IsOnCourse posted reports := by
  refine ⟨fun later ↦ ?_, ?_⟩
  · rw [hahead, hdue]
    exact h.telling later
  · rw [hahead]
    exact h.ahead_le

theorem isOnCourse_step (h : t.IsOnCourse posted reports) (hm : m.interferes = false) :
    (t.step m).2.IsOnCourse (posted ++ Action.signals (t.step m).1) (reports ++ m.report?.toList) := by
  obtain ⟨phase, ahead, outbox, cancelled⟩ := t
  have hle : ahead.length ≤ reports.length := h.ahead_le
  cases m with
  | report r =>
    refine ⟨fun later ↦ ?_, ?_⟩
    · simpa [step, Move.report?] using h.telling (r :: later)
    · simpa [step, Move.report?] using hle
  | poll =>
    cases ahead with
    | nil => simpa [Move.report?] using h
    | cons r ahead =>
      cases hwaiting : phase.isWaiting with
      | true =>
        rw [step_poll hwaiting]
        refine ⟨fun later ↦ ?_, ?_⟩
        · simpa [Move.report?, due_hear hwaiting] using h.telling later
        · simpa [Move.report?] using Nat.le_trans (Nat.le_succ _) hle
      | false => simpa [step_poll_of_not_isWaiting hwaiting, Move.report?] using h
  | taken =>
    cases phase with
    | posting signal =>
      refine ⟨fun later ↦ ?_, by simpa [step, Move.report?] using hle⟩
      have hlater := h.telling later
      cases hlast : signal.isLast with
      | true => simpa [step, due, hlast, Move.report?] using hlater
      | false => simpa [step, due, hlast, Move.report?] using hlater
    | _ => simpa [step, Move.report?] using h
  | gone => cases hm
  | notice => cases hm
  | unwritten error => cases hm
  | hand text =>
    have hsame : IsOnCourse ⟨phase, ahead, outbox ++ [text], cancelled⟩ posted reports := h.of_due_eq rfl rfl
    simpa [step, Move.report?] using hsame
  | cancel =>
    have hsame : IsOnCourse ⟨phase, ahead, outbox, true⟩ posted reports := h.of_due_eq rfl rfl
    simpa [step, Move.report?] using hsame
  | write =>
    cases phase with
    | listening =>
      cases outbox with
      | nil => simpa [step, Move.report?] using h
      | cons text outbox =>
        have hsame : IsOnCourse ⟨.writing, ahead, outbox, cancelled⟩ posted reports := h.of_due_eq rfl rfl
        simpa [step, Move.report?] using hsame
    | _ => simpa [step, Move.report?] using h
  | written =>
    cases phase with
    | writing =>
      have hsame : IsOnCourse ⟨.listening, ahead, outbox, cancelled⟩ posted reports := h.of_due_eq rfl rfl
      simpa [step, Move.report?] using hsame
    | _ => simpa [step, Move.report?] using h
  | closed =>
    cases phase with
    | closing =>
      have hsame : IsOnCourse ⟨.done, ahead, outbox, cancelled⟩ posted reports := h.of_due_eq rfl rfl
      simpa [step, Move.report?] using hsame
    | _ => simpa [step, Move.report?] using h

/-- Whether a task posts no more texts. -/
def Phase.isOver : Phase → Bool
  | .posting signal => signal.isLast
  | .closing | .done => true
  | _ => false

/-- A task that is not on course any more posts no more texts, and those that it has posted are the ones that
it should have. -/
def Keeps (t : SocketTask) (posted : List Signal) (reports : List Report) : Prop :=
  t.IsOnCourse posted reports ∨
    t.phase.isOver = true ∧ ∀ later, posted.filterMap Signal.text? <+: texts (reports ++ later)

theorem IsOnCourse.isPrefix (h : t.IsOnCourse posted reports) (later : List Report) :
    posted.filterMap Signal.text? <+: texts (reports ++ later) := by
  rw [← filterMap_text?_life, ← h.telling later]
  exact (List.prefix_append _ _).filterMap _

theorem Keeps.isPrefix (h : t.Keeps posted reports) : posted.filterMap Signal.text? <+: texts reports := by
  rcases h with h | ⟨-, h⟩
  · simpa using h.isPrefix []
  · simpa using h []

theorem step_of_isOver (h : t.phase.isOver = true) (m : Move) :
    (t.step m).2.phase.isOver = true ∧ (Action.signals (t.step m).1).filterMap Signal.text? = [] := by
  obtain ⟨phase, ahead, outbox, cancelled⟩ := t
  cases phase with
  | posting signal =>
    have hlast : signal.isLast = true := h
    cases m with
    | taken =>
      cases signal with
      | failed reason => exact ⟨rfl, rfl⟩
      | closed => exact ⟨rfl, rfl⟩
      | _ => cases hlast
    | notice => cases cancelled <;> exact ⟨h, rfl⟩
    | gone => exact ⟨rfl, rfl⟩
    | _ => exact ⟨h, rfl⟩
  | closing =>
    cases m with
    | notice => cases cancelled <;> exact ⟨rfl, rfl⟩
    | _ => exact ⟨rfl, rfl⟩
  | done =>
    cases m with
    | notice => cases cancelled <;> exact ⟨rfl, rfl⟩
    | _ => exact ⟨rfl, rfl⟩
  | _ => cases h

theorem keeps_step (h : t.Keeps posted reports) (m : Move) :
    (t.step m).2.Keeps (posted ++ Action.signals (t.step m).1) (reports ++ m.report?.toList) := by
  rcases h with h | ⟨hover, h⟩
  · cases hm : m.interferes with
    | false => exact .inl (isOnCourse_step h hm)
    | true =>
      have hcut := h.isPrefix
      obtain ⟨phase, ahead, outbox, cancelled⟩ := t
      cases m with
      | gone =>
        cases phase with
        | posting signal => exact .inr ⟨rfl, by simpa [step, Move.report?] using hcut⟩
        | _ => exact .inl (by simpa [step, Move.report?] using h)
      | notice =>
        cases cancelled with
        | true =>
          cases phase with
          | connecting => exact .inr ⟨rfl, by simpa [step, Move.report?] using hcut⟩
          | listening => exact .inr ⟨rfl, by simpa [step, Move.report?] using hcut⟩
          | _ => exact .inl (by simpa [step, Move.report?] using h)
        | false => exact .inl (by simpa [step, Move.report?] using h)
      | unwritten error =>
        cases phase with
        | writing => exact .inr ⟨rfl, by simpa [step, Move.report?] using hcut⟩
        | _ => exact .inl (by simpa [step, Move.report?] using h)
      | _ => cases hm
  · obtain ⟨hover, hsilent⟩ := step_of_isOver hover m
    refine .inr ⟨hover, fun later ↦ ?_⟩
    rw [List.filterMap_append, hsilent, List.append_nil, List.append_assoc]
    exact h _

theorem keeps_run (moves : List Move) :
    (run {} moves).2.Keeps (Action.signals (run {} moves).1) (reportsOf moves) :=
  stepAll_preserves (P := Keeps) (.inl isOnCourse_start) fun m _ _ _ _ h ↦ keeps_step h m

/-! ### Getting it posted -/

/-- How many rounds it takes at most until nothing is due. In a round a text that is being written has been,
the task takes a report, and the inbox takes what is posted of it. -/
def pending (t : SocketTask) : ℕ :=
  match t.phase with
  | .posting _ => t.ahead.length + 1
  | .closing | .done => 0
  | _ => t.ahead.length

theorem due_of_pending (t : SocketTask) (h : t.pending = 0) : due t.phase t.ahead = [] := by
  obtain ⟨phase, ahead, outbox, cancelled⟩ := t
  cases phase with
  | posting signal => cases h
  | closing => rfl
  | done => rfl
  | _ =>
    obtain rfl := List.eq_nil_of_length_eq_zero h
    rfl

theorem pending_le (t : SocketTask) : t.pending ≤ t.ahead.length + 1 := by
  unfold pending
  split <;> omega

theorem pending_of_isWaiting (h : phase.isWaiting = true) (ahead : List Report) :
    pending ⟨phase, ahead, outbox, cancelled⟩ = ahead.length := by
  cases phase with
  | connecting => rfl
  | listening => rfl
  | _ => cases h

theorem pending_taken (t : SocketTask) : (t.step .taken).2.pending ≤ t.ahead.length := by
  obtain ⟨phase, ahead, outbox, cancelled⟩ := t
  cases phase with
  | posting signal => cases hlast : signal.isLast <;> simp [step, pending, hlast]
  | _ => simp [step, pending]

theorem pending_poll_taken (hphase : phase ≠ .writing) (ahead : List Report) :
    ((step ⟨phase, ahead, outbox, cancelled⟩ .poll).2.step .taken).2.pending ≤
      pending ⟨phase, ahead, outbox, cancelled⟩ - 1 := by
  cases hwaiting : phase.isWaiting with
  | false =>
    rw [step_poll_of_not_isWaiting hwaiting]
    cases phase with
    | posting signal => exact pending_taken ⟨.posting signal, ahead, outbox, cancelled⟩
    | closing => exact Nat.le_refl _
    | done => exact Nat.le_refl _
    | writing => exact absurd rfl hphase
    | _ => cases hwaiting
  | true =>
    cases ahead with
    | nil =>
      rw [step_poll_nil]
      exact Nat.le_trans (pending_taken _) (Nat.zero_le _)
    | cons r ahead =>
      rw [step_poll hwaiting, pending_of_isWaiting hwaiting]
      exact pending_taken _

theorem pending_round (t : SocketTask) : (t.run [.written, .poll, .taken]).2.pending ≤ t.pending - 1 := by
  obtain ⟨phase, ahead, outbox, cancelled⟩ := t
  have hround : (run ⟨phase, ahead, outbox, cancelled⟩ [.written, .poll, .taken]).2 =
      (((step ⟨phase, ahead, outbox, cancelled⟩ .written).2.step .poll).2.step .taken).2 := rfl
  rw [hround]
  by_cases hphase : phase = .writing
  · subst hphase
    exact pending_poll_taken (by simp : Phase.listening ≠ .writing) ahead
  · have hwritten : step ⟨phase, ahead, outbox, cancelled⟩ .written = ([], ⟨phase, ahead, outbox, cancelled⟩) := by
      simp [step, hphase]
    rw [hwritten]
    exact pending_poll_taken hphase ahead

/-! ### Runs -/

/-- Whatever happens, a task posts the life of a connection, and of the texts that are reported it posts the
first ones in order, each once. If nothing interferes it posts all that is reported. -/
theorem run_posts (moves : List Move) :
    Signal.IsLife (Action.signals (run {} moves).1) ∧
      (Action.signals (run {} moves).1).filterMap Signal.text? <+: texts (reportsOf moves) ∧
      ((∀ m ∈ moves, m.interferes = false) → ∀ n, (reportsOf moves).length < n →
        Action.signals (run {} (moves ++ rounds [.written, .poll, .taken] n)).1 = life (reportsOf moves)) := by
  refine ⟨?_, ?_, fun hmoves n hn ↦ ?_⟩
  · have hstart : ({} : SocketTask).phase.Fits [] := rfl
    exact isLife_of_fits (fits_run hstart moves)
  · exact (keeps_run moves).isPrefix
  · refine posts_all (P := IsOnCourse) isOnCourse_start
      (fun m hm t posted reports h ↦ isOnCourse_step h hm)
      (fun t posted reports h ↦ by simpa using h.telling []) (fun t posted reports h ↦ ?_) due_of_pending
      pending_round ?_ hmoves hn
    · exact Nat.le_trans (pending_le t) (Nat.succ_le_succ h.ahead_le)
    · simp [Move.interferes, Move.report?]

end AgentReply.SocketTask
