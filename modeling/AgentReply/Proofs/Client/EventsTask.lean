import AgentReply.Client.EventsTask
import AgentReply.Proofs.Client.Posted
import Mathlib.Data.List.Basic

/-!
# What the task of an event stream posts

In every phase it is known what may have been posted, and what is still to be posted of the reports that are
ahead if nothing interferes. No move that does not interfere changes the two taken together; one that does
ends the task.
-/

namespace AgentReply.EventsTask

/-! ### What is reported -/

def Move.report? : Move → Option Report
  | .report r => some r
  | _ => none

/-- The reports, in the order in which they come. -/
def reportsOf (moves : List Move) : List Report := moves.filterMap Move.report?

/-! ### What should be posted -/

/-- The text of a message that is not blank. -/
def Report.text? : Report → Option String
  | .item i => if i.kind = "message" ∧ Text.isBlankText i.data = false then some i.data else none
  | _ => none

/-- What is posted of the end of a stream. -/
def Report.ending? : Report → Option (List Signal)
  | .broken error => some [.failed s!"SSE stream error: {error}"]
  | .ended => some [.closed]
  | .crashed => some []
  | _ => none

def Report.isAnswer : Report → Bool
  | .unanswered _ | .answered _ => true
  | _ => false

def Report.body? : Report → Option (Option String)
  | .body text => some text
  | _ => none

/-- The texts of the stream that is reported, if there is one. -/
def texts (reports : List Report) : List String :=
  match reports.dropWhile (!·.isAnswer) with
  | .answered status :: reports =>
    if Http.isSuccess status then textsOf Report.text? Report.ending? reports else []
  | _ => []

/-- What a response without success is posted as, once its body has been read. -/
def refusal (status : ℕ) (reports : List Report) : List Signal :=
  ((reports.findSome? Report.body?).map fun text ↦ .failed (refusalText status (text.getD ""))).toList

/-- What should be posted of all that is reported. -/
def life (reports : List Report) : List Signal :=
  match reports.dropWhile (!·.isAnswer) with
  | .unanswered error :: _ => [.failed s!"Request failed: {error}"]
  | .answered status :: reports =>
    if Http.isSuccess status then .opened :: tellingOf Report.text? Report.ending? reports
    else refusal status reports
  | _ => []

variable {t : EventsTask} {m : Move} {r : Report} {phase : Phase} {posted : List Signal}
  {reports : List Report} {moves : List Move}

theorem text?_of_ending? {signals : List Signal} (h : r.ending? = some signals) :
    signals.filterMap Signal.text? = [] := by
  cases r with
  | broken error => rw [← Option.some.inj h]; rfl
  | ended => rw [← Option.some.inj h]; rfl
  | crashed => rw [← Option.some.inj h]; rfl
  | _ => cases h

theorem filterMap_text?_life (reports : List Report) :
    (life reports).filterMap Signal.text? = texts reports := by
  unfold life texts
  cases reports.dropWhile (!·.isAnswer) with
  | nil => rfl
  | cons r reports =>
    cases r with
    | answered status =>
      dsimp only
      split
      · exact filterMap_text?_tellingOf fun r signals ↦ text?_of_ending?
      · rw [refusal]
        cases reports.findSome? Report.body? <;> rfl
    | _ => rfl

/-! ### Polls -/

@[simp] theorem step_poll_nil (phase : Phase) : step ⟨phase, []⟩ .poll = ([], ⟨phase, []⟩) := by
  cases phase <;> rfl

theorem step_poll (h : phase.isWaiting = true) (r : Report) (ahead : List Report) :
    step ⟨phase, r :: ahead⟩ .poll = ([], ⟨hear phase r, ahead⟩) := by
  simp only [step, h]

theorem step_poll_of_not_isWaiting (h : phase.isWaiting = false) (ahead : List Report) :
    step ⟨phase, ahead⟩ .poll = ([], ⟨phase, ahead⟩) := by
  simp only [step, h]

/-! ### What may have been posted -/

/-- What may have been posted when a task is in a phase. -/
def Phase.Fits (posted : List Signal) : Phase → Prop
  | .requesting | .refused _ => posted = []
  | .listening => Signal.IsOpen posted
  | .posting signal => signal.CanFollow posted
  | .done => Signal.IsLife posted

theorem fits_hear (h : phase.Fits posted) (r : Report) : (hear phase r).Fits posted := by
  cases phase with
  | requesting =>
    cases r with
    | unanswered error => exact .inl h
    | answered status =>
      simp only [hear]
      split
      · exact h
      · exact h
    | _ => exact h
  | refused status =>
    cases r with
    | body text => exact .inl h
    | _ => exact h
  | listening =>
    cases r with
    | item item =>
      simp only [hear]
      split
      · exact h
      · exact h
    | broken error => exact .inr h
    | ended => exact h
    | crashed => exact Signal.IsOpen.isLife h
    | _ => exact h
  | posting signal => exact h
  | done => exact h

theorem isLife_of_fits (h : phase.Fits posted) : Signal.IsLife posted := by
  cases phase with
  | requesting => exact (show posted = [] from h) ▸ .silent
  | refused status => exact (show posted = [] from h) ▸ .silent
  | listening => exact Signal.IsOpen.isLife h
  | posting signal => exact Signal.CanFollow.isLife_before h
  | done => exact h

theorem fits_step (h : t.phase.Fits posted) (m : Move) :
    (t.step m).2.phase.Fits (posted ++ Action.signals (t.step m).1) := by
  obtain ⟨phase, ahead⟩ := t
  cases m with
  | report r => simpa [step] using h
  | poll =>
    simp only [step]
    split
    · simpa using fits_hear h _
    · simpa using h
  | taken =>
    cases phase with
    | posting signal =>
      have hfollows : signal.CanFollow posted := h
      cases hlast : signal.isLast with
      | true => simpa [step, hlast, Phase.Fits] using hfollows.isLife
      | false => simpa [step, hlast, Phase.Fits] using hfollows.isOpen hlast
    | _ => simpa [step] using h
  | gone =>
    cases phase with
    | posting signal => simpa [step, Phase.Fits] using isLife_of_fits h
    | _ => simpa [step] using h
  | cancel => simpa [step, Phase.Fits] using isLife_of_fits h

theorem fits_run (h : t.phase.Fits posted) (moves : List Move) :
    (t.run moves).2.phase.Fits (posted ++ Action.signals (t.run moves).1) :=
  @stepAll_preserves EventsTask Move Report step Move.report? (fun t posted _ ↦ t.phase.Fits posted) t moves
    posted [] h fun m _ _ _ _ h ↦ fits_step h m

/-! ### What is still to be posted -/

/-- What is still to be posted of the reports ahead, if nothing interferes. -/
def due : Phase → List Report → List Signal
  | .requesting, reports => life reports
  | .refused status, reports => refusal status reports
  | .listening, reports => tellingOf Report.text? Report.ending? reports
  | .posting signal, reports =>
    signal :: if signal.isLast then [] else tellingOf Report.text? Report.ending? reports
  | .done, _ => []

theorem due_hear (h : phase.isWaiting = true) :
    due phase (r :: reports) = due (hear phase r) reports := by
  cases phase with
  | requesting =>
    cases r with
    | unanswered error => rfl
    | answered status =>
      simp only [hear, due, life, List.dropWhile_cons, Report.isAnswer, Bool.not_true, Bool.false_eq_true,
        if_false]
      split <;> rfl
    | _ => rfl
  | refused status =>
    cases r with
    | body text => rfl
    | _ => rfl
  | listening =>
    cases r with
    | item i =>
      by_cases hmessage : i.kind = "message" ∧ Text.isBlankText i.data = false
      · have hhear : hear .listening (.item i) = .posting (.frame i.data) := by
          rw [hear, if_neg (by simpa using hmessage)]
        rw [hhear]
        exact tellingOf_cons_of_text rfl (if_pos hmessage)
      · have hhear : hear .listening (.item i) = .listening := by
          rw [hear, if_pos (by simpa [or_iff_not_imp_left] using hmessage)]
        rw [hhear]
        exact tellingOf_cons rfl (if_neg hmessage)
    | broken error => exact tellingOf_cons_of_ending rfl
    | ended => exact tellingOf_cons_of_ending rfl
    | crashed => exact tellingOf_cons_of_ending rfl
    | _ => exact tellingOf_cons rfl rfl
  | posting signal => cases h
  | done => cases h

/-- Whether a move ends a task before it has posted everything. -/
def Move.interferes : Move → Bool
  | .gone | .cancel => true
  | _ => false

/-- A task is on course if what has been posted and what is due make up what should be posted, whatever is
reported later. -/
structure IsOnCourse (t : EventsTask) (posted : List Signal) (reports : List Report) : Prop where
  telling : ∀ later, posted ++ due t.phase (t.ahead ++ later) = life (reports ++ later)
  ahead_le : t.ahead.length ≤ reports.length

theorem isOnCourse_start : IsOnCourse {} [] [] := ⟨fun _ ↦ rfl, Nat.le_refl _⟩

theorem isOnCourse_step (h : t.IsOnCourse posted reports) (hm : m.interferes = false) :
    (t.step m).2.IsOnCourse (posted ++ Action.signals (t.step m).1) (reports ++ m.report?.toList) := by
  obtain ⟨phase, ahead⟩ := t
  have hle : ahead.length ≤ reports.length := h.ahead_le
  cases m with
  | report r =>
    refine ⟨fun later ↦ ?_, ?_⟩
    · simpa [step, Move.report?] using h.telling (r :: later)
    · simpa [step, Move.report?] using hle
  | poll =>
    cases ahead with
    | nil => simpa [Move.report?] using h
    | cons r ahead =>
      cases hwaiting : phase.isWaiting with
      | true =>
        rw [step_poll hwaiting]
        refine ⟨fun later ↦ ?_, ?_⟩
        · simpa [Move.report?, due_hear hwaiting] using h.telling later
        · simpa [Move.report?] using Nat.le_trans (Nat.le_succ _) hle
      | false => simpa [step_poll_of_not_isWaiting hwaiting, Move.report?] using h
  | taken =>
    cases phase with
    | posting signal =>
      refine ⟨fun later ↦ ?_, by simpa [step, Move.report?] using hle⟩
      have hlater := h.telling later
      cases hlast : signal.isLast with
      | true => simpa [step, due, hlast, Move.report?] using hlater
      | false => simpa [step, due, hlast, Move.report?] using hlater
    | _ => simpa [step, Move.report?] using h
  | gone => cases hm
  | cancel => cases hm

/-- A task that is not on course any more is done, and has posted nothing but what it should have. -/
def Keeps (t : EventsTask) (posted : List Signal) (reports : List Report) : Prop :=
  t.IsOnCourse posted reports ∨ t.phase = .done ∧ ∀ later, posted <+: life (reports ++ later)

theorem Keeps.isPrefix (h : t.Keeps posted reports) : posted <+: life reports := by
  rcases h with h | ⟨-, h⟩
  · exact ⟨_, by simpa using h.telling []⟩
  · simpa using h []

theorem keeps_step (h : t.Keeps posted reports) (m : Move) :
    (t.step m).2.Keeps (posted ++ Action.signals (t.step m).1) (reports ++ m.report?.toList) := by
  rcases h with h | ⟨hdone, h⟩
  · cases hm : m.interferes with
    | false => exact .inl (isOnCourse_step h hm)
    | true =>
      have hcut : ∀ later, posted <+: life (reports ++ later) := fun later ↦ ⟨_, h.telling later⟩
      obtain ⟨phase, ahead⟩ := t
      cases m with
      | gone =>
        cases phase with
        | posting signal => exact .inr ⟨rfl, by simpa [step, Move.report?] using hcut⟩
        | _ => exact .inl (by simpa [step, Move.report?] using h)
      | cancel => exact .inr ⟨rfl, by simpa [step, Move.report?] using hcut⟩
      | _ => cases hm
  · obtain ⟨phase, ahead⟩ := t
    obtain rfl : phase = .done := hdone
    have hlate : ∀ later, posted <+: life (reports ++ m.report?.toList ++ later) := fun later ↦ by
      rw [List.append_assoc]
      exact h _
    cases m with
    | poll =>
      rw [step_poll_of_not_isWaiting rfl]
      exact .inr ⟨rfl, by simpa using hlate⟩
    | _ => exact .inr (by simpa [step] using hlate)

theorem keeps_run (moves : List Move) :
    (run {} moves).2.Keeps (Action.signals (run {} moves).1) (reportsOf moves) :=
  stepAll_preserves (P := Keeps) (.inl isOnCourse_start) fun m _ _ _ _ h ↦ keeps_step h m

/-! ### Getting it posted -/

/-- How many rounds it takes at most until nothing is due. In a round the task takes a report, and the inbox
takes what is posted of it. -/
def pending (t : EventsTask) : ℕ :=
  match t.phase with
  | .posting _ => t.ahead.length + 1
  | .done => 0
  | _ => t.ahead.length

theorem due_of_pending (t : EventsTask) (h : t.pending = 0) : due t.phase t.ahead = [] := by
  obtain ⟨phase, ahead⟩ := t
  cases phase with
  | posting signal => cases h
  | done => rfl
  | _ =>
    obtain rfl := List.eq_nil_of_length_eq_zero h
    rfl

theorem pending_le (t : EventsTask) : t.pending ≤ t.ahead.length + 1 := by
  unfold pending
  split <;> omega

theorem pending_of_isWaiting (h : phase.isWaiting = true) (ahead : List Report) :
    pending ⟨phase, ahead⟩ = ahead.length := by
  cases phase with
  | posting signal => cases h
  | done => cases h
  | _ => rfl

theorem pending_taken (t : EventsTask) : (t.step .taken).2.pending ≤ t.ahead.length := by
  obtain ⟨phase, ahead⟩ := t
  cases phase with
  | posting signal => cases hlast : signal.isLast <;> simp [step, pending, hlast]
  | _ => simp [step, pending]

theorem pending_round (t : EventsTask) : (t.run [.poll, .taken]).2.pending ≤ t.pending - 1 := by
  obtain ⟨phase, ahead⟩ := t
  have hround : (run ⟨phase, ahead⟩ [.poll, .taken]).2 = ((step ⟨phase, ahead⟩ .poll).2.step .taken).2 := rfl
  rw [hround]
  cases hwaiting : phase.isWaiting with
  | false =>
    rw [step_poll_of_not_isWaiting hwaiting]
    cases phase with
    | posting signal => exact pending_taken ⟨.posting signal, ahead⟩
    | done => exact Nat.le_refl _
    | _ => cases hwaiting
  | true =>
    cases ahead with
    | nil =>
      rw [step_poll_nil]
      exact Nat.le_trans (pending_taken _) (Nat.zero_le _)
    | cons r ahead =>
      rw [step_poll hwaiting, pending_of_isWaiting hwaiting]
      exact pending_taken _

/-! ### Runs -/

/-- Whatever happens, a task posts the life of a connection, and of the texts that are reported it posts the
first ones in order, each once. If nothing interferes it posts all that is reported. -/
theorem run_posts (moves : List Move) :
    Signal.IsLife (Action.signals (run {} moves).1) ∧
      (Action.signals (run {} moves).1).filterMap Signal.text? <+: texts (reportsOf moves) ∧
      ((∀ m ∈ moves, m.interferes = false) → ∀ n, (reportsOf moves).length < n →
        Action.signals (run {} (moves ++ rounds [.poll, .taken] n)).1 = life (reportsOf moves)) := by
  refine ⟨?_, ?_, fun hmoves n hn ↦ ?_⟩
  · have hstart : ({} : EventsTask).phase.Fits [] := rfl
    exact isLife_of_fits (fits_run hstart moves)
  · rw [← filterMap_text?_life]
    exact (keeps_run moves).isPrefix.filterMap _
  · refine posts_all (P := IsOnCourse) isOnCourse_start
      (fun m hm t posted reports h ↦ isOnCourse_step h hm)
      (fun t posted reports h ↦ by simpa using h.telling []) (fun t posted reports h ↦ ?_) due_of_pending
      pending_round ?_ hmoves hn
    · exact Nat.le_trans (pending_le t) (Nat.succ_le_succ h.ahead_le)
    · simp [Move.interferes, Move.report?]

end AgentReply.EventsTask
