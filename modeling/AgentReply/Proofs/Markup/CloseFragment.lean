import AgentReply.Proofs.Markup.HoldBack

/-!
# What is held back of a verbatim payload

Inside a verbatim payload only the closing tag of its name is structure, so a fragment of that tag alone
is held back. What may grow into a closing tag without blanks is found by `mayGrowToClose`. A fragment
with blanks behind the whole name is not: the payload is then shown with it, and all of that is taken
back when the `>` arrives.
-/

namespace AgentReply

open Text (IsGap)

namespace Tag

structure Closes (v : Vocabulary) (name : String) (t : Tag) : Prop where
  isOf : t.IsOf v
  closing : t.closing = true
  name_eq : t.name = name

/-- A text that is the beginning of a tag that closes a name, but not the whole of it. -/
def BeginsClose (v : Vocabulary) (name : String) (s : List Char) : Prop :=
  ∃ t : Tag, t.Closes v name ∧ ∃ g, g ≠ [] ∧ t.lexeme = s ++ g

variable {v : Vocabulary} {name : String} {t : Tag} {f g s : List Char}

theorem Closes.inner_eq (h : t.Closes v name) : t.inner = '/' :: (t.spelling ++ t.padding) := by
  rw [inner, h.closing]
  rfl

theorem Closes.map_spelling (h : t.Closes v name) : t.spelling.map Char.toLower = name.toList := by
  rw [← Vocabulary.toList_name, h.name_eq]

theorem Closes.withPadding (h : t.Closes v name) {padding : List Char} (hp : IsGap padding) :
    (⟨true, t.spelling, padding⟩ : Tag).Closes v name :=
  ⟨⟨h.isOf.spelling_ne_nil, h.isOf.isNameChar, hp, h.isOf.isKnown⟩, rfl, h.name_eq⟩

theorem closes_of_map_spelling (hv : v.IsPlain) (hn : name ∈ v.known) {spelling : List Char}
    (hs : spelling.map Char.toLower = name.toList) : (⟨true, spelling, []⟩ : Tag).Closes v name where
  isOf := Vocabulary.isOf_closing.2 (Vocabulary.isOf_of_map_toLower hv hn hs Text.isGap_nil)
  closing := rfl
  name_eq := by rw [Tag.name, hs, String.ofList_toList]

theorem beginsClose_nil (hv : v.IsPlain) (hn : name ∈ v.known) : BeginsClose v name [] := by
  have hlower : name.toList.map Char.toLower = name.toList := hv.map_toLower_append (s := []) hn rfl
  exact ⟨_, closes_of_map_spelling hv hn hlower, _, by simp, rfl⟩

end Tag

namespace Vocabulary

variable {v : Vocabulary} {name : String} {t : Tag} {f g s : List Char}

/-- A text that lacks nothing but the `>` of a closing tag, with blanks behind the name. -/
def EndsPadded (v : Vocabulary) (name : String) (s : List Char) : Prop :=
  ∃ before, ∃ t : Tag, t.Closes v name ∧ t.padding ≠ [] ∧ s = before ++ '<' :: t.inner

theorem EndsPadded.isBlank_getLast (h : v.EndsPadded name s) :
    ∃ c ∈ s.getLast?, Text.isBlank c = true := by
  obtain ⟨before, t, ht, hpad, rfl⟩ := h
  obtain hnil | ⟨p, c, heq⟩ := List.eq_nil_or_concat t.padding
  · exact absurd hnil hpad
  · have hend : before ++ '<' :: t.inner = (before ++ '<' :: '/' :: (t.spelling ++ p)) ++ [c] := by
      simp [ht.inner_eq, heq]
    refine ⟨c, ?_, ht.isOf.isGap c (by simp [heq])⟩
    rw [hend, List.getLast?_concat]
    rfl

theorem mayGrowToClose_of_append (name : String) (f r : List Char)
    (h : mayGrowToClose name (f ++ r) = true) : mayGrowToClose name f = true := by
  rw [mayGrowToClose, Bool.and_eq_true] at h ⊢
  cases f with
  | nil => simp [stem]
  | cons c f =>
    obtain ⟨hhead, hstem⟩ := h
    have hslash : c = '/' := by simpa using hhead
    subst hslash
    refine ⟨by simp, ?_⟩
    rw [List.isPrefixOf_iff_prefix] at hstem ⊢
    refine List.IsPrefix.trans ?_ hstem
    exact (List.prefix_append f r).map Char.toLower

theorem mayGrowToClose_of_isPrefix (h : t.Closes v name) (hf : f <+: '/' :: t.spelling) :
    mayGrowToClose name f = true := by
  have hwhole : mayGrowToClose name ('/' :: t.spelling) = true := by
    rw [mayGrowToClose, Bool.and_eq_true]
    refine ⟨by simp, ?_⟩
    rw [List.isPrefixOf_iff_prefix, ← h.map_spelling]
    exact List.prefix_refl _
  obtain ⟨r, hr⟩ := hf
  rw [← hr] at hwhole
  exact mayGrowToClose_of_append name f r hwhole

theorem beginsClose_of_mayGrowToClose (hv : v.IsPlain) (hn : name ∈ v.known)
    (h : mayGrowToClose name f = true) : Tag.BeginsClose v name ('<' :: f) := by
  rw [mayGrowToClose, Bool.and_eq_true] at h
  obtain ⟨hhead, hstem⟩ := h
  cases f with
  | nil =>
    obtain ⟨t, ht, -⟩ := Tag.beginsClose_nil hv hn
    exact ⟨t, ht, t.inner ++ ['>'], by simp, rfl⟩
  | cons c f =>
    have hslash : c = '/' := by simpa using hhead
    subst hslash
    obtain ⟨w, hw⟩ := List.isPrefixOf_iff_prefix.1 hstem
    change f.map Char.toLower ++ w = name.toList at hw
    have hspelling : (f ++ w).map Char.toLower = name.toList := hv.map_toLower_append hn hw
    refine ⟨_, Tag.closes_of_map_spelling hv hn hspelling, w ++ ['>'], by simp, ?_⟩
    simp [Tag.lexeme]

/-- The beginning of a closing tag is held back, or has blanks behind the whole name. -/
theorem mayGrowToClose_or_eq_inner (h : t.Closes v name) (hg : g ≠ [])
    (hlex : t.lexeme = '<' :: f ++ g) :
    mayGrowToClose name f = true ∨ ∃ u : Tag, u.Closes v name ∧ u.padding ≠ [] ∧ f = u.inner := by
  obtain ⟨-, r, hr⟩ := Tag.eq_and_prefix_of_lexeme_eq hlex hg
  rw [h.inner_eq, ← List.cons_append] at hr
  rcases List.append_eq_append_iff.1 hr with ⟨w, hw, -⟩ | ⟨p, rfl, hp⟩
  · exact .inl (mayGrowToClose_of_isPrefix h ⟨w, hw.symm⟩)
  · by_cases hnil : p = []
    · left
      rw [hnil, List.append_nil]
      exact mayGrowToClose_of_isPrefix h (List.prefix_refl _)
    · right
      have hgap : IsGap p := h.isOf.isGap.of_isPrefix ⟨r, hp.symm⟩
      exact ⟨_, h.withPadding hgap, hnil, (h.withPadding hgap).inner_eq.symm⟩

/-! ### What is shown -/

theorem beforeFragment_of_notMem (grows : List Char → Bool) (h : '<' ∉ s) :
    beforeFragment grows s = s := by
  induction s with
  | nil => rfl
  | cons c s ih =>
    rw [List.mem_cons, not_or] at h
    have hc : (c == '<') = false := by simpa using Ne.symm h.1
    rw [beforeFragment, hc, ih h.2]
    rfl

theorem beforeFragment_append_of_not_grows {grows : List Char → Bool} (hf : grows f = false)
    (ho : '<' ∉ f) (s : List Char) :
    beforeFragment grows (s ++ '<' :: f) = s ++ '<' :: f := by
  induction s with
  | nil => simp [beforeFragment, hf, beforeFragment_of_notMem grows ho]
  | cons c s ih =>
    rw [List.cons_append, beforeFragment, ih]
    simp

theorem exists_eq_withoutCloseFragment_append (hv : v.IsPlain) (hn : name ∈ v.known) (s : List Char) :
    ∃ r, s = withoutCloseFragment name s ++ r ∧ Tag.BeginsClose v name r := by
  obtain ⟨r, hr, rfl | ⟨f, rfl, hf⟩⟩ := exists_eq_beforeFragment_append (mayGrowToClose name) s
  · exact ⟨[], hr, Tag.beginsClose_nil hv hn⟩
  · exact ⟨_, hr, beginsClose_of_mayGrowToClose hv hn hf⟩

theorem withoutCloseFragment_prefix_append (name : String) (s r : List Char) :
    withoutCloseFragment name s <+: withoutCloseFragment name (s ++ r) :=
  beforeFragment_prefix_append (mayGrowToClose_of_append name) s r

/-- Nothing of the beginning of a closing tag is shown, unless it has blanks behind the name. -/
theorem withoutCloseFragment_append_isPrefix (hf : Tag.BeginsClose v name f)
    (hpadded : ¬v.EndsPadded name (s ++ f)) : withoutCloseFragment name (s ++ f) <+: s := by
  obtain ⟨t, ht, g, hg, hlex⟩ := hf
  cases f with
  | nil =>
    rw [List.append_nil]
    exact beforeFragment_isPrefix _ s
  | cons c f =>
    obtain ⟨rfl, hin⟩ := Tag.eq_and_prefix_of_lexeme_eq hlex hg
    rcases mayGrowToClose_or_eq_inner ht hg hlex with hgrows | ⟨u, hu, hpad, rfl⟩
    · rw [withoutCloseFragment, beforeFragment_append hgrows
        (fun h ↦ Tag.open_notMem_inner ht.isOf (hin.subset h))
        (fun h ↦ Tag.close_notMem_inner ht.isOf (hin.subset h))]
    · exact absurd ⟨s, u, hu, hpad, rfl⟩ hpadded

theorem withoutCloseFragment_of_endsPadded (h : v.EndsPadded name s) :
    withoutCloseFragment name s = s := by
  obtain ⟨before, t, ht, hpad, rfl⟩ := h
  refine beforeFragment_append_of_not_grows ?_ (Tag.open_notMem_inner ht.isOf) before
  rw [ht.inner_eq, mayGrowToClose, Bool.and_eq_false_iff]
  right
  have hlonger : name.toList.length < (stem ('/' :: (t.spelling ++ t.padding))).length := by
    have hlength := List.length_pos_iff.2 hpad
    rw [← ht.map_spelling]
    simp only [stem, List.length_map, List.length_append]
    omega
  rw [← Bool.not_eq_true, List.isPrefixOf_iff_prefix]
  intro hprefix
  have hle := hprefix.length_le
  omega

end Vocabulary
end AgentReply
