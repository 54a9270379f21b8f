import AgentReply.Proofs.Text.Blank
import Mathlib.Data.List.DropRight
import Mathlib.Data.List.Infix

/-!
# Trimming and extension

Trimming a text that grows at its end only ever adds characters, and a gap of blank characters around
a text is invisible after trimming.
-/

namespace AgentReply.Text

theorem trimStart_eq_nil {s : List Char} : trimStart s = [] ↔ IsGap s :=
  List.dropWhile_eq_nil_iff

theorem trimEnd_eq_nil {s : List Char} : trimEnd s = [] ↔ IsGap s :=
  List.rdropWhile_eq_nil_iff

theorem trimEnd_isPrefix (s : List Char) : trimEnd s <+: s :=
  List.rdropWhile_prefix isBlank s

theorem trimEnd_eq_self {s : List Char} (h : ∀ c ∈ s, isBlank c = false) : trimEnd s = s := by
  refine List.rdropWhile_eq_self_iff.2 ?_
  intro hne
  simp [h _ (List.getLast_mem hne)]

theorem exists_trimEnd_append (s : List Char) : ∃ b, IsGap b ∧ s = trimEnd s ++ b :=
  ⟨s.rtakeWhile isBlank, fun _ hc ↦ List.mem_rtakeWhile_imp hc,
    List.rdropWhile_append_rtakeWhile.symm⟩

theorem trimStart_gap_append {a : List Char} (ha : IsGap a) (s : List Char) :
    trimStart (a ++ s) = trimStart s :=
  List.dropWhile_append_of_pos ha

theorem trimEnd_append_gap (s : List Char) {b : List Char} (hb : IsGap b) :
    trimEnd (s ++ b) = trimEnd s := by
  rw [trimEnd, List.reverse_append, List.dropWhile_append_of_pos, trimEnd]
  intro c hc
  exact hb c (List.mem_reverse.1 hc)

theorem trimEnd_append_of_not_isGap (s : List Char) {b : List Char} (hb : ¬ IsGap b) :
    trimEnd (s ++ b) = s ++ trimEnd b := by
  have hne : b.reverse.dropWhile isBlank ≠ [] := by
    intro h
    exact hb (trimEnd_eq_nil.1 (by rw [trimEnd, h, List.reverse_nil]))
  simp only [trimEnd, List.reverse_append, List.dropWhile_append, List.isEmpty_iff, hne, if_false,
    List.reverse_reverse]

theorem trimEnd_prefix_append (s b : List Char) : trimEnd s <+: trimEnd (s ++ b) := by
  by_cases hb : IsGap b
  · rw [trimEnd_append_gap s hb]
  · rw [trimEnd_append_of_not_isGap s hb]
    exact (trimEnd_isPrefix s).trans (List.prefix_append s _)

theorem trimStart_append_of_not_isGap {s : List Char} (hs : ¬ IsGap s) (b : List Char) :
    trimStart (s ++ b) = trimStart s ++ b := by
  have hne : s.dropWhile isBlank ≠ [] := fun h ↦ hs (trimStart_eq_nil.1 h)
  simp only [trimStart, List.dropWhile_append, List.isEmpty_iff, hne, if_false]

theorem trim_eq_nil {s : List Char} : trim s = [] ↔ IsGap s := by
  rw [trim, trimEnd_eq_nil]
  constructor
  · intro h
    by_contra hs
    apply hs
    rw [← List.takeWhile_append_dropWhile (p := isBlank) (l := s), isGap_append]
    exact ⟨fun c hc ↦ List.all_eq_true.1 List.all_takeWhile c hc, h⟩
  · intro h c hc
    exact h c ((List.dropWhile_subset isBlank) hc)

theorem trim_prefix_append (s b : List Char) : trim s <+: trim (s ++ b) := by
  by_cases hs : IsGap s
  · rw [trim_eq_nil.2 hs]
    exact List.nil_prefix
  · rw [trim, trim, trimStart_append_of_not_isGap hs]
    exact trimEnd_prefix_append _ b

theorem trim_prefix_trim {s t : List Char} (h : s <+: t) : trim s <+: trim t := by
  obtain ⟨b, rfl⟩ := h
  exact trim_prefix_append s b

theorem trim_gap_append {a : List Char} (ha : IsGap a) (s : List Char) : trim (a ++ s) = trim s := by
  rw [trim, trimStart_gap_append ha, trim]

theorem trim_append_gap (s : List Char) {b : List Char} (hb : IsGap b) : trim (s ++ b) = trim s := by
  by_cases hs : IsGap s
  · rw [trim_eq_nil.2 hs, trim_eq_nil, isGap_append]
    exact ⟨hs, hb⟩
  · rw [trim, trimStart_append_of_not_isGap hs, trimEnd_append_gap _ hb, trim]

theorem exists_eq_append_trim (s : List Char) :
    ∃ a b, IsGap a ∧ IsGap b ∧ s = a ++ (trim s ++ b) := by
  obtain ⟨b, hb, hend⟩ := exists_trimEnd_append (trimStart s)
  refine ⟨s.takeWhile isBlank, b, fun c hc ↦ List.all_eq_true.1 List.all_takeWhile c hc, hb, ?_⟩
  rw [trim, ← hend]
  exact List.takeWhile_append_dropWhile.symm

theorem trim_isInfix (s : List Char) : trim s <:+: s := by
  obtain ⟨a, b, -, -, heq⟩ := exists_eq_append_trim s
  exact ⟨a, b, by rw [List.append_assoc, ← heq]⟩

theorem trim_trim (s : List Char) : trim (trim s) = trim s := by
  obtain ⟨a, b, ha, hb, heq⟩ := exists_eq_append_trim s
  calc trim (trim s) = trim (a ++ (trim s ++ b)) := by rw [trim_gap_append ha, trim_append_gap _ hb]
    _ = trim s := by rw [← heq]

end AgentReply.Text
