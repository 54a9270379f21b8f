import AgentReply.Markup.HoldBack
import AgentReply.Proofs.Markup.Tag

/-!
# What is held back

A fragment may grow into a tag exactly when it is the beginning of the lexeme of some tag, short of its
end. So what is held back of a text is the last `<` and what follows it, if that is such a beginning,
and a text that grows never shows less than before.
-/

namespace AgentReply

/-- A text that is the beginning of a tag of the vocabulary, but not the whole of it. -/
def Tag.Begins (v : Vocabulary) (s : List Char) : Prop :=
  ∃ t : Tag, t.IsOf v ∧ ∃ g, g ≠ [] ∧ t.lexeme = s ++ g

namespace Vocabulary

open Text (IsGap)

/-- A vocabulary whose names can be spelled in a tag: they are not empty and have lower-case letters,
digits, `_` and `-` alone. -/
def IsPlain (v : Vocabulary) : Prop :=
  ∀ name ∈ v.known, name ≠ "" ∧
    ∀ c ∈ name.toList, c.isLower = true ∨ c.isDigit = true ∨ c = '_' ∨ c = '-'

instance (v : Vocabulary) : Decidable v.IsPlain :=
  @List.decidableBAll _ _ (fun _ ↦ @instDecidableAnd _ _ _ (List.decidableBAll _ _)) v.known

variable {v : Vocabulary} {name f s : List Char}

theorem IsPlain.isNameChar (hv : v.IsPlain) {name : String} (hn : name ∈ v.known) {c : Char}
    (hc : c ∈ name.toList) : Tag.isNameChar c = true := by
  rcases (hv name hn).2 c hc with h | h | rfl | rfl
  · have halpha : c.isAlpha = true := Bool.or_eq_true_iff.2 (.inr h)
    simp [Tag.isNameChar, Char.isAlphanum, halpha]
  · simp [Tag.isNameChar, Char.isAlphanum, h]
  · decide
  · decide

theorem IsPlain.toLower_eq (hv : v.IsPlain) {name : String} (hn : name ∈ v.known) {c : Char}
    (hc : c ∈ name.toList) : c.toLower = c := by
  have hcases : c.toNat < 65 ∨ 90 < c.toNat := by
    rcases (hv name hn).2 c hc with h | h | rfl | rfl
    · delta Char.isLower at h
      simp only [Bool.and_eq_true, decide_eq_true_eq, UInt32.le_iff_toNat_le,
        ge_iff_le, Char.toNat_val, Char.reduceVal, UInt32.reduceToNat] at h
      omega
    · simp only [Char.isDigit, Bool.and_eq_true, decide_eq_true_eq, UInt32.le_iff_toNat_le,
        ge_iff_le, Char.toNat_val, Char.reduceVal, UInt32.reduceToNat] at h
      omega
    · decide
    · decide
  apply Char.toNat_inj.1
  rw [Text.toNat_toLower]
  exact if_neg (by omega)

/-- A name that is complete but for its end: the end that is missing is in lower case. -/
theorem IsPlain.map_toLower_append (hv : v.IsPlain) {name : String} (hn : name ∈ v.known)
    {w : List Char} (hw : s.map Char.toLower ++ w = name.toList) :
    (s ++ w).map Char.toLower = name.toList := by
  have hlow : w.map Char.toLower = w.map id :=
    List.map_congr_left fun c hc ↦ hv.toLower_eq hn (hw ▸ List.mem_append_right _ hc)
  rw [List.map_append, hlow, List.map_id, hw]

theorem IsPlain.toList_ne_nil (hv : v.IsPlain) {name : String} (hn : name ∈ v.known) :
    name.toList ≠ [] := by
  simpa using (hv name hn).1

/-! ### Fragments that may grow -/

/-- What may become the name of a tag and the blanks behind it. -/
def StemBegins (v : Vocabulary) (stem : List Char) : Prop :=
  ∃ spelling padding g, (⟨false, spelling, padding⟩ : Tag).IsOf v ∧ spelling ++ padding = stem ++ g

theorem isOf_closing {closing : Bool} {spelling padding : List Char} :
    (⟨closing, spelling, padding⟩ : Tag).IsOf v ↔ (⟨false, spelling, padding⟩ : Tag).IsOf v :=
  ⟨fun h ↦ ⟨h.1, h.2, h.3, h.4⟩, fun h ↦ ⟨h.1, h.2, h.3, h.4⟩⟩

theorem toList_name (t : Tag) : t.name.toList = t.spelling.map Char.toLower := by
  simp [Tag.name]

theorem isGap_map_toLower : IsGap (s.map Char.toLower) ↔ IsGap s := by
  simp [IsGap, Text.isBlank_toLower]

theorem isBlank_map_toLower (h : ∀ c ∈ s, Tag.isNameChar c = true) :
    ∀ c ∈ s.map Char.toLower, Text.isBlank c = false := by
  simp only [List.mem_map, forall_exists_index, and_imp, forall_apply_eq_imp_iff₂,
    Text.isBlank_toLower]
  exact fun c hc ↦ Tag.isBlank_of_isNameChar (h c hc)

theorem mayGrow_of_stemBegins (hf : stem f = s.map Char.toLower) (h : v.StemBegins s) :
    v.mayGrow f = true := by
  obtain ⟨spelling, padding, g, ht, heq⟩ := h
  have hknown : (⟨false, spelling, padding⟩ : Tag).name ∈ v.known := by
    simpa [isKnown] using ht.isKnown
  have hlower := isBlank_map_toLower ht.isNameChar
  simp only [mayGrow, hf]
  rcases List.append_eq_append_iff.1 heq with ⟨p, hs, hp⟩ | ⟨w, hw, -⟩
  · -- the name is whole, and perhaps blanks follow it
    have hgap : IsGap (p.map Char.toLower) :=
      isGap_map_toLower.2 (ht.isGap.of_isPrefix (hp ▸ List.prefix_append p g))
    have htrim : Text.trimEnd (s.map Char.toLower) = spelling.map Char.toLower := by
      rw [hs, List.map_append, Text.trimEnd_append_gap _ hgap, Text.trimEnd_eq_self hlower]
    rw [htrim]
    split <;> exact List.any_eq_true.2 ⟨_, hknown, by simp [toList_name]⟩
  · -- the stem is a part of the name
    have htrim : Text.trimEnd (s.map Char.toLower) = s.map Char.toLower := by
      apply Text.trimEnd_eq_self
      intro c hc
      apply hlower c
      rw [hw, List.map_append]
      exact List.mem_append_left _ hc
    rw [htrim, if_neg (Nat.lt_irrefl _)]
    refine List.any_eq_true.2 ⟨_, hknown, ?_⟩
    rw [List.isPrefixOf_iff_prefix, toList_name, hw, List.map_append]
    exact List.prefix_append _ _

theorem isOf_of_map_toLower (hv : v.IsPlain) {name : String} (hn : name ∈ v.known)
    {spelling padding : List Char} (hs : spelling.map Char.toLower = name.toList)
    (hp : IsGap padding) : (⟨false, spelling, padding⟩ : Tag).IsOf v where
  spelling_ne_nil := by
    rintro rfl
    exact hv.toList_ne_nil hn (by simpa using hs.symm)
  isNameChar c hc := by
    rw [← Tag.isNameChar_toLower]
    exact hv.isNameChar hn (hs ▸ List.mem_map_of_mem hc)
  isGap := hp
  isKnown := by simpa [isKnown, Tag.name, hs] using hn

theorem stemBegins_of_mayGrow (hv : v.IsPlain) (hf : stem f = s.map Char.toLower)
    (h : v.mayGrow f = true) : v.StemBegins s := by
  simp only [mayGrow, hf] at h
  obtain ⟨b, hb, hsplit⟩ := Text.exists_trimEnd_append (s.map Char.toLower)
  split at h
  · obtain ⟨name, hn, heq⟩ := List.any_eq_true.1 h
    rw [← beq_iff_eq.1 heq] at hsplit
    obtain ⟨spelling, padding, rfl, hs, hp⟩ := List.map_eq_append_iff.1 hsplit
    refine ⟨spelling, padding, [], isOf_of_map_toLower hv hn hs ?_, by simp⟩
    exact isGap_map_toLower.1 (hp ▸ hb)
  · next hlen =>
    have hnil : b = [] := by
      have := congrArg List.length hsplit
      rw [List.length_append] at this
      exact List.length_eq_zero_iff.1 (by omega)
    rw [hnil, List.append_nil] at hsplit
    obtain ⟨name, hn, hpre⟩ := List.any_eq_true.1 h
    obtain ⟨w, hw⟩ := List.isPrefixOf_iff_prefix.1 hpre
    rw [← hsplit] at hw
    have hspelling : (s ++ w).map Char.toLower = name.toList := hv.map_toLower_append hn hw
    exact ⟨s ++ w, [], w, isOf_of_map_toLower hv hn hspelling Text.isGap_nil, by simp⟩

theorem begins_of_stemBegins (closing : Bool) (h : v.StemBegins s) :
    Tag.Begins v ('<' :: ((if closing then ['/'] else []) ++ s)) := by
  obtain ⟨spelling, padding, g, ht, heq⟩ := h
  refine ⟨⟨closing, spelling, padding⟩, isOf_closing.2 ht, g ++ ['>'], by simp, ?_⟩
  simp only [Tag.lexeme, List.append_assoc, List.cons_append, List.cons.injEq, true_and]
  rw [← List.append_assoc spelling, heq, List.append_assoc]

theorem stemBegins_of_append_eq {t : Tag} (ht : t.IsOf v) {g : List Char} (hg : g ≠ [])
    (h : t.spelling ++ t.padding ++ ['>'] = s ++ g) : v.StemBegins s := by
  rw [← List.dropLast_concat_getLast hg, ← List.append_assoc] at h
  exact ⟨t.spelling, t.padding, g.dropLast, isOf_closing.1 ht, (List.append_inj' h rfl).1⟩

theorem stem_of_head?_ne (h : f.head? ≠ some '/') : stem f = f.map Char.toLower := by
  unfold stem
  split
  · simp at h
  · rfl

/-- A fragment may grow into a tag exactly when some tag begins with it. -/
theorem mayGrow_iff (hv : v.IsPlain) : v.mayGrow f = true ↔ Tag.Begins v ('<' :: f) := by
  by_cases hf : f.head? = some '/'
  · obtain ⟨s, rfl⟩ := List.head?_eq_some_iff.1 hf
    have hstem : stem ('/' :: s) = s.map Char.toLower := rfl
    constructor
    · exact fun h ↦ begins_of_stemBegins true (stemBegins_of_mayGrow hv hstem h)
    · rintro ⟨t, ht, g, hg, hlex⟩
      have hcl := Tag.closing_of_lexeme_eq ht hlex
      exact mayGrow_of_stemBegins hstem
        (stemBegins_of_append_eq ht hg (by simpa [Tag.lexeme, hcl] using hlex))
  · have hstem := stem_of_head?_ne hf
    constructor
    · exact fun h ↦ begins_of_stemBegins false (stemBegins_of_mayGrow hv hstem h)
    · rintro ⟨t, ht, g, hg, hlex⟩
      refine mayGrow_of_stemBegins hstem ?_
      cases hcl : t.closing with
      | false => exact stemBegins_of_append_eq ht hg (by simpa [Tag.lexeme, hcl] using hlex)
      | true =>
        -- a closing tag begins with `<` alone, without its slash
        cases f with
        | nil => exact ⟨t.spelling, t.padding, _, isOf_closing.1 ht, rfl⟩
        | cons c r =>
          simp only [Tag.lexeme, hcl, if_true, List.cons_append, List.nil_append] at hlex
          have hc := (List.cons.inj (List.cons.inj hlex).2).1
          simp [← hc] at hf

/-! ### The text before a fragment -/

theorem beforeFragment_append {grows : List Char → Bool} (hf : grows f = true) (ho : '<' ∉ f)
    (hc : '>' ∉ f) (s : List Char) : beforeFragment grows (s ++ '<' :: f) = s := by
  have hall : (f.all fun d ↦ d != '<' && d != '>') = true := by
    simp only [List.all_eq_true, Bool.and_eq_true, bne_iff_ne]
    exact fun d hd ↦ ⟨fun h ↦ ho (h ▸ hd), fun h ↦ hc (h ▸ hd)⟩
  induction s with
  | nil => simp [beforeFragment, hall, hf]
  | cons c s ih =>
    rw [List.cons_append, beforeFragment, ih]
    simp

/-- A text is what is shown of it and a fragment that may grow, if there is one. -/
theorem exists_eq_beforeFragment_append (grows : List Char → Bool) (s : List Char) :
    ∃ r, s = beforeFragment grows s ++ r ∧ (r = [] ∨ ∃ f, r = '<' :: f ∧ grows f = true) := by
  induction s with
  | nil => exact ⟨[], rfl, .inl rfl⟩
  | cons c s ih =>
    rw [beforeFragment]
    split
    · next hgrows =>
      simp only [Bool.and_eq_true, beq_iff_eq] at hgrows
      obtain ⟨⟨rfl, -⟩, hs⟩ := hgrows
      exact ⟨'<' :: s, rfl, .inr ⟨s, rfl, hs⟩⟩
    · obtain ⟨r, hr, hcases⟩ := ih
      exact ⟨r, by rw [List.cons_append, ← hr], hcases⟩

theorem beforeFragment_prefix_append {grows : List Char → Bool}
    (hg : ∀ f r, grows (f ++ r) = true → grows f = true) (s r : List Char) :
    beforeFragment grows s <+: beforeFragment grows (s ++ r) := by
  induction s with
  | nil => exact List.nil_prefix
  | cons c s ih =>
    rw [List.cons_append, beforeFragment, beforeFragment]
    split
    · exact List.nil_prefix
    · next hs =>
      split
      · next hsr =>
        simp only [Bool.and_eq_true, List.all_append] at hsr
        simp [hsr.1.1, hsr.1.2.1, hg s r hsr.2] at hs
      · exact List.cons_prefix_cons.2 ⟨rfl, ih⟩

theorem mayGrow_of_append (hv : v.IsPlain) (f r : List Char) (h : v.mayGrow (f ++ r) = true) :
    v.mayGrow f = true := by
  obtain ⟨t, ht, g, hg, hlex⟩ := (mayGrow_iff hv).1 h
  refine (mayGrow_iff hv).2 ⟨t, ht, r ++ g, by simp [hg], ?_⟩
  rw [hlex, List.cons_append, List.cons_append, List.append_assoc]

theorem withoutFragment_prefix_append (hv : v.IsPlain) (s r : List Char) :
    v.withoutFragment s <+: v.withoutFragment (s ++ r) :=
  beforeFragment_prefix_append (mayGrow_of_append hv) s r

theorem withoutFragment_append (hv : v.IsPlain) (hf : Tag.Begins v f) (hne : f ≠ [])
    (s : List Char) : v.withoutFragment (s ++ f) = s := by
  obtain ⟨t, ht, g, hg, hlex⟩ := hf
  obtain ⟨c, f, rfl⟩ := List.exists_cons_of_ne_nil hne
  obtain ⟨rfl, hin⟩ := Tag.eq_and_prefix_of_lexeme_eq hlex hg
  exact beforeFragment_append ((mayGrow_iff hv).2 ⟨t, ht, g, hg, hlex⟩)
    (fun h ↦ Tag.open_notMem_inner ht (hin.subset h))
    (fun h ↦ Tag.close_notMem_inner ht (hin.subset h)) s

/-- The beginning of a tag is not shown before it is known whether the tag comes. -/
theorem withoutFragment_append_isPrefix (hv : v.IsPlain) (hf : Tag.Begins v f) (s : List Char) :
    v.withoutFragment (s ++ f) <+: s := by
  by_cases hne : f = []
  · rw [hne, List.append_nil]
    exact beforeFragment_isPrefix v.mayGrow s
  · rw [withoutFragment_append hv hf hne]

end Vocabulary
end AgentReply
