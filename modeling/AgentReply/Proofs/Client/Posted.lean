import AgentReply.Client.Basic
import AgentReply.Proofs.Channel.Hearing
import Mathlib.Data.List.Basic

/-!
# What is to be posted

A task that has reported that it is open has reported texts since then and nothing else. Which signal may
come next depends on no more than that. What should be posted of an open connection are the texts that are
reported of it, in order, up to the report that ends it.
-/

namespace AgentReply

namespace Signal

def text? : Signal → Option String
  | .frame text => some text
  | _ => none

/-- What has been reported of a connection that is open. -/
def IsOpen (posted : List Signal) : Prop := ∃ texts : List String, posted = .opened :: texts.map .frame

/-- Whether a signal may come after those that have been posted. -/
def CanFollow (posted : List Signal) : Signal → Prop
  | .opened => posted = []
  | .frame _ | .closed => IsOpen posted
  | .failed _ => posted = [] ∨ IsOpen posted
  | .retryDue => False

variable {posted : List Signal} {x : Signal}

theorem isOpen_opened : IsOpen [.opened] := ⟨[], rfl⟩

theorem IsOpen.concat (h : IsOpen posted) (text : String) : IsOpen (posted ++ [.frame text]) := by
  obtain ⟨texts, rfl⟩ := h
  exact ⟨texts ++ [text], by simp⟩

theorem IsOpen.isLife (h : IsOpen posted) : IsLife posted := by
  obtain ⟨texts, rfl⟩ := h
  exact .opened texts

theorem IsOpen.isLife_concat (h : IsOpen posted) (hx : x.isLast = true) : IsLife (posted ++ [x]) := by
  obtain ⟨texts, rfl⟩ := h
  exact .ended texts hx

theorem CanFollow.isLife_before (h : x.CanFollow posted) : IsLife posted := by
  cases x with
  | opened => exact h ▸ .silent
  | frame text => exact IsOpen.isLife h
  | failed reason =>
    rcases h with rfl | h
    · exact .silent
    · exact h.isLife
  | closed => exact IsOpen.isLife h
  | retryDue => exact h.elim

theorem CanFollow.isOpen (h : x.CanFollow posted) (hx : x.isLast = false) : IsOpen (posted ++ [x]) := by
  cases x with
  | opened =>
    obtain rfl : posted = [] := h
    exact isOpen_opened
  | frame text => exact IsOpen.concat h text
  | failed reason => cases hx
  | closed => cases hx
  | retryDue => exact h.elim

theorem CanFollow.isLife (h : x.CanFollow posted) : IsLife (posted ++ [x]) := by
  cases hx : x.isLast with
  | false => exact (h.isOpen hx).isLife
  | true =>
    cases x with
    | failed reason =>
      rcases h with rfl | h
      · exact .failed reason
      · exact h.isLife_concat rfl
    | closed => exact IsOpen.isLife_concat h rfl
    | _ => cases hx

theorem filterMap_text?_frames (texts : List String) : (texts.map .frame).filterMap text? = texts := by
  rw [List.filterMap_map]
  exact List.filterMap_some

end Signal

/-! ### Reports of an open connection -/

section

variable {ρ : Type} {text? : ρ → Option String} {ending? : ρ → Option (List Signal)} {r : ρ}
  {reports : List ρ}

/-- The texts that are reported before the connection ends. -/
def textsOf (text? : ρ → Option String) (ending? : ρ → Option (List Signal)) (reports : List ρ) :
    List String :=
  (reports.takeWhile fun r ↦ (ending? r).isNone).filterMap text?

/-- The texts, and how the connection ends. -/
def tellingOf (text? : ρ → Option String) (ending? : ρ → Option (List Signal)) (reports : List ρ) :
    List Signal :=
  (textsOf text? ending? reports).map .frame ++ (reports.findSome? ending?).getD []

theorem tellingOf_cons_of_ending {signals : List Signal} (h : ending? r = some signals) :
    tellingOf text? ending? (r :: reports) = signals := by
  simp [tellingOf, textsOf, h]

theorem tellingOf_cons_of_text {text : String} (hend : ending? r = none) (h : text? r = some text) :
    tellingOf text? ending? (r :: reports) = .frame text :: tellingOf text? ending? reports := by
  simp [tellingOf, textsOf, hend, h]

theorem tellingOf_cons (hend : ending? r = none) (h : text? r = none) :
    tellingOf text? ending? (r :: reports) = tellingOf text? ending? reports := by
  simp [tellingOf, textsOf, hend, h]

/-- The frames of what should be posted are the texts, if the end of a connection is none. -/
theorem filterMap_text?_tellingOf
    (h : ∀ r signals, ending? r = some signals → signals.filterMap Signal.text? = []) :
    (tellingOf text? ending? reports).filterMap Signal.text? = textsOf text? ending? reports := by
  have hend : ((reports.findSome? ending?).getD []).filterMap Signal.text? = [] := by
    cases hfind : reports.findSome? ending? with
    | none => rfl
    | some signals =>
      obtain ⟨r, -, hr⟩ := List.exists_of_findSome?_eq_some hfind
      exact h r signals hr
  rw [tellingOf, List.filterMap_append, Signal.filterMap_text?_frames, hend, List.append_nil]

end

/-! ### Runs -/

section

variable {σ μ ρ : Type} {step : σ → μ → List Action × σ} {report? : μ → Option ρ}
  {P : σ → List Signal → List ρ → Prop} {s : σ} {moves round : List μ} {m : μ} {n : ℕ}

/-- What holds at first and is preserved by every step, given what has been posted and reported so far, holds
after a run. -/
theorem stepAll_preserves {posted : List Signal} {reports : List ρ} (h : P s posted reports)
    (hstep : ∀ m ∈ moves, ∀ s posted reports, P s posted reports →
      P (step s m).2 (posted ++ Action.signals (step s m).1) (reports ++ (report? m).toList)) :
    P (stepAll step s moves).2 (posted ++ Action.signals (stepAll step s moves).1)
      (reports ++ moves.filterMap report?) := by
  induction moves generalizing s posted reports with
  | nil => simpa using h
  | cons m moves ih =>
    rw [List.forall_mem_cons] at hstep
    have hreports : (m :: moves).filterMap report? = (report? m).toList ++ moves.filterMap report? := by
      rw [List.filterMap_cons]
      cases report? m <;> rfl
    rw [stepAll_cons, Action.signals_append, hreports, ← List.append_assoc, ← List.append_assoc]
    exact ih (hstep.1 s posted reports h) hstep.2

/-- The same moves so many times. -/
def rounds (round : List μ) (n : ℕ) : List μ := (List.replicate n round).flatten

theorem mem_rounds (h : m ∈ rounds round n) : m ∈ round := by
  obtain ⟨moves, hmoves, hm⟩ := List.mem_flatten.1 h
  rwa [List.eq_of_mem_replicate hmoves] at hm

/-- What gets less in every round is gone after enough of them. -/
theorem rounds_finish {pending : σ → ℕ} (hround : ∀ s, pending (stepAll step s round).2 ≤ pending s - 1)
    (h : pending s ≤ n) : pending (stepAll step s (rounds round n)).2 = 0 := by
  induction n generalizing s with
  | zero => exact Nat.le_zero.1 h
  | succ n ih =>
    have hnext := hround s
    rw [rounds, List.replicate_succ, List.flatten_cons, stepAll_append]
    exact ih (by omega)

/-- What has been posted and what is due make up what should be posted, as long as nothing interferes. After
so many rounds more that nothing is due, all of it has been posted. -/
theorem posts_all {interferes : μ → Bool} {due : σ → List Signal} {life : List ρ → List Signal}
    {pending : σ → ℕ} (hstart : P s [] [])
    (hstep : ∀ m, interferes m = false → ∀ s posted reports, P s posted reports →
      P (step s m).2 (posted ++ Action.signals (step s m).1) (reports ++ (report? m).toList))
    (htelling : ∀ s posted reports, P s posted reports → posted ++ due s = life reports)
    (hpending : ∀ s posted reports, P s posted reports → pending s ≤ reports.length + 1)
    (hdue : ∀ s, pending s = 0 → due s = [])
    (hround : ∀ s, pending (stepAll step s round).2 ≤ pending s - 1)
    (hquiet : ∀ m ∈ round, interferes m = false ∧ report? m = none)
    (hmoves : ∀ m ∈ moves, interferes m = false) (hn : (moves.filterMap report?).length < n) :
    Action.signals (stepAll step s (moves ++ rounds round n)).1 = life (moves.filterMap report?) := by
  have hall : ∀ m ∈ moves ++ rounds round n, interferes m = false := fun m hm ↦
    (List.mem_append.1 hm).elim (hmoves m) fun hm ↦ (hquiet m (mem_rounds hm)).1
  have hreports : (rounds round n).filterMap report? = [] :=
    List.filterMap_eq_nil_iff.2 fun m hm ↦ (hquiet m (mem_rounds hm)).2
  have hbefore := hpending _ _ _ (stepAll_preserves hstart fun m hm ↦ hstep m (hmoves m hm))
  rw [List.nil_append] at hbefore
  have hend := htelling _ _ _ (stepAll_preserves hstart fun m hm ↦ hstep m (hall m hm))
  have hnone : due (stepAll step s (moves ++ rounds round n)).2 = [] := by
    rw [stepAll_append]
    exact hdue _ (rounds_finish hround (by omega))
  rwa [hnone, List.append_nil, List.filterMap_append, hreports, List.append_nil] at hend

end

end AgentReply
