import Mathlib.Data.List.Infix
import Mathlib.Data.List.TakeWhile

/-!
# Marks and the text around them

A mark is known by the character at its head or at its end. Where a text lacks that character no mark
reaches into it, so what is put before or behind another text makes no mark that was not there.
-/

namespace AgentReply.Text

variable {c : Char} {mark s t : List Char}

/-- A mark does not begin in a text that lacks its first character. -/
theorem infix_of_infix_append_left (hs : c ∉ s) (h : c :: mark <:+: s ++ t) : c :: mark <:+: t := by
  obtain ⟨x, y, hxy⟩ := h
  rw [List.append_assoc] at hxy
  rcases List.append_eq_append_iff.1 hxy with ⟨r, rfl, hr⟩ | ⟨r, -, hr⟩
  · cases r with
    | nil => exact ⟨[], y, hr⟩
    | cons d r =>
      obtain rfl : d = c := (List.cons.inj hr).1.symm
      simp at hs
  · exact ⟨r, y, by rw [hr, List.append_assoc]⟩

/-- A mark does not end in a text that lacks its last character. -/
theorem infix_of_infix_append_right (ht : c ∉ t) (h : mark ++ [c] <:+: s ++ t) :
    mark ++ [c] <:+: s := by
  rw [← List.reverse_infix, List.reverse_concat] at h ⊢
  rw [List.reverse_append] at h
  exact infix_of_infix_append_left (by simpa using ht) h

/-- A mark that has its first character only once does not reach from a text into the next mark. -/
theorem prefix_of_prefix_append (hmark : c ∉ mark) (hs : s ≠ []) (h : c :: mark <+: s ++ c :: t) :
    c :: mark <+: s := by
  obtain ⟨more, hmore⟩ := h
  rcases List.append_eq_append_iff.1 hmore with ⟨r, hr, -⟩ | ⟨r, hr, ht⟩
  · exact ⟨r, hr.symm⟩
  · cases r with
    | nil => exact ⟨[], by rw [List.append_nil, hr, List.append_nil]⟩
    | cons d r =>
      obtain rfl : d = c := (List.cons.inj ht).1.symm
      obtain ⟨first, tail, rfl⟩ := List.exists_cons_of_ne_nil hs
      obtain rfl : mark = tail ++ d :: r := (List.cons.inj hr).2
      simp at hmark

theorem forall_bne_of_notMem (h : c ∉ s) : ∀ d ∈ s, (d != c) = true := by
  intro d hd
  rw [bne_iff_ne]
  rintro rfl
  exact h hd

theorem dropWhile_append_cons (h : c ∉ s) (t : List Char) :
    (s ++ c :: t).dropWhile (· != c) = c :: t := by
  rw [List.dropWhile_append_of_pos (forall_bne_of_notMem h), List.dropWhile_cons_of_neg (by simp)]

theorem takeWhile_append_cons (h : c ∉ s) (t : List Char) :
    (s ++ c :: t).takeWhile (· != c) = s := by
  rw [List.takeWhile_append_of_pos (forall_bne_of_notMem h), List.takeWhile_cons_of_neg (by simp),
    List.append_nil]

/-! ### Runs of characters -/

theorem takeWhile_append_of_head? {p : Char → Bool} (hs : ∀ d ∈ s, p d = true)
    (ht : t.head?.all (!p ·) = true) : (s ++ t).takeWhile p = s := by
  rw [List.takeWhile_append_of_pos hs]
  cases t with
  | nil => simp
  | cons d t => rw [List.takeWhile_cons_of_neg (by simpa using ht), List.append_nil]

theorem dropWhile_append_of_head? {p : Char → Bool} (hs : ∀ d ∈ s, p d = true)
    (ht : t.head?.all (!p ·) = true) : (s ++ t).dropWhile p = t := by
  have hsplit := List.takeWhile_append_dropWhile (p := p) (l := s ++ t)
  rw [takeWhile_append_of_head? hs ht] at hsplit
  exact List.append_cancel_left hsplit

/-! ### Parts between marks -/

theorem mem_splitOnP {p : Char → Bool} {part : List Char} (hpart : part ∈ s.splitOnP p) {d : Char}
    (hd : d ∈ part) : d ∈ s ∧ p d = false := by
  induction s generalizing part with
  | nil =>
    rw [List.splitOnP_nil, List.mem_singleton] at hpart
    simp [hpart] at hd
  | cons e s ih =>
    rw [List.splitOnP_cons_eq_if_modifyHead] at hpart
    obtain ⟨first, others, heq⟩ := List.exists_cons_of_ne_nil (List.splitOnP_ne_nil p s)
    have hsplit : ∀ t ∈ first :: others, d ∈ t → d ∈ e :: s ∧ p d = false :=
      fun t ht hdt ↦ (ih (heq ▸ ht) hdt).imp_left (List.mem_cons_of_mem e)
    rw [heq] at hpart
    split at hpart
    · rcases List.mem_cons.1 hpart with rfl | hpart
      · simp at hd
      · exact hsplit part hpart hd
    · next he =>
      rw [List.modifyHead_cons] at hpart
      rcases List.mem_cons.1 hpart with rfl | hpart
      · rcases List.mem_cons.1 hd with rfl | hd
        · exact ⟨List.mem_cons_self, by simpa using he⟩
        · exact hsplit first List.mem_cons_self hd
      · exact hsplit part (List.mem_cons_of_mem _ hpart) hd

theorem mem_intercalate {parts : List (List Char)} {d : Char} (h : d ∈ [c].intercalate parts) :
    d = c ∨ ∃ part ∈ parts, d ∈ part := by
  induction parts with
  | nil => simp at h
  | cons part parts ih =>
    cases parts with
    | nil => exact .inr ⟨part, List.mem_cons_self, by simpa using h⟩
    | cons next parts =>
      rw [List.intercalate_cons_cons, List.mem_append, List.mem_append, List.mem_singleton] at h
      rcases h with (h | h) | h
      · exact .inr ⟨part, List.mem_cons_self, h⟩
      · exact .inl h
      · refine (ih h).imp_right fun ⟨p, hp, hd⟩ ↦ ⟨p, List.mem_cons_of_mem _ hp, hd⟩

end AgentReply.Text
