import AgentReply.Markup.Tag
import AgentReply.Proofs.Text.Marks
import AgentReply.Proofs.Text.Trim

/-!
# Where a tag stands

A tag of a vocabulary is read at the head of a text exactly when the text begins with its lexeme. A
lexeme has one `<`, at its head, and one `>`, at its end. So what is read at a place is decided by the
text up to the next `>`, and no tag reaches into the next one.
-/

namespace AgentReply

namespace Tag

theorem isNameChar_iff {c : Char} : isNameChar c = true ↔
    65 ≤ c.toNat ∧ c.toNat ≤ 90 ∨ 97 ≤ c.toNat ∧ c.toNat ≤ 122 ∨ 48 ≤ c.toNat ∧ c.toNat ≤ 57 ∨
      c.toNat = 95 ∨ c.toNat = 45 := by
  have hu : c = '_' ↔ c.toNat = 95 := Char.toNat_inj.symm
  have hm : c = '-' ↔ c.toNat = 45 := Char.toNat_inj.symm
  delta isNameChar Char.isAlphanum Char.isAlpha Char.isUpper Char.isLower Char.isDigit
  simp only [Bool.or_eq_true, Bool.and_eq_true, decide_eq_true_eq, beq_iff_eq, or_assoc, hu, hm,
    UInt32.le_iff_toNat_le, ge_iff_le, Char.toNat_val, Char.reduceVal, UInt32.reduceToNat]

theorem isNameChar_toLower (c : Char) : isNameChar c.toLower = isNameChar c := by
  rw [Bool.eq_iff_iff, isNameChar_iff, isNameChar_iff, Text.toNat_toLower]
  split <;> omega

theorem isNameChar_of_isBlank {c : Char} (h : Text.isBlank c = true) : isNameChar c = false := by
  rw [← Bool.not_eq_true, isNameChar_iff]
  rw [Text.isBlank_iff] at h
  omega

theorem isBlank_of_isNameChar {c : Char} (h : isNameChar c = true) : Text.isBlank c = false := by
  rw [← Bool.not_eq_true]
  intro hb
  rw [isNameChar_of_isBlank hb] at h
  exact Bool.false_ne_true h

/-- A tag that the vocabulary takes for structure, however its name is written and padded. -/
structure IsOf (v : Vocabulary) (t : Tag) : Prop where
  spelling_ne_nil : t.spelling ≠ []
  isNameChar : ∀ c ∈ t.spelling, isNameChar c = true
  isGap : Text.IsGap t.padding
  isKnown : v.isKnown t.name = true

/-- What stands between the `<` and the `>` of a tag. -/
def inner (t : Tag) : List Char :=
  (if t.closing then ['/'] else []) ++ t.spelling ++ t.padding

theorem lexeme_eq (t : Tag) : t.lexeme = '<' :: (t.inner ++ ['>']) := rfl

/-! ### Reading at the head of a text -/

variable {v : Vocabulary} {t : Tag} {s e rest : List Char}

theorem notMem_inner (h : t.IsOf v) {c : Char} (hc : isNameChar c = false)
    (hb : Text.isBlank c = false) (hs : c ≠ '/') : c ∉ t.inner := by
  have hname : c ∉ t.spelling := fun hm ↦ by simp [h.isNameChar c hm] at hc
  have hpad : c ∉ t.padding := h.isGap.notMem hb
  cases hcl : t.closing <;> simp [inner, hcl, hname, hpad, hs]

theorem open_notMem_inner (h : t.IsOf v) : '<' ∉ t.inner :=
  notMem_inner h (by decide) (by decide) (by decide)

theorem close_notMem_inner (h : t.IsOf v) : '>' ∉ t.inner :=
  notMem_inner h (by decide) (by decide) (by decide)

theorem open_notMem_of_lexeme_eq (h : t.IsOf v) {c : Char} {r : List Char}
    (hlex : t.lexeme = c :: r) : '<' ∉ r := by
  rw [lexeme_eq] at hlex
  rw [← (List.cons.inj hlex).2]
  simpa using open_notMem_inner h

/-- The beginning of a lexeme, short of its end, is a `<` and a part of what stands inside. -/
theorem eq_and_prefix_of_lexeme_eq {c : Char} {f g : List Char} (h : t.lexeme = c :: f ++ g)
    (hg : g ≠ []) : c = '<' ∧ f <+: t.inner := by
  rw [lexeme_eq, ← List.dropLast_concat_getLast hg, List.cons_append, ← List.append_assoc] at h
  obtain ⟨hc, htail⟩ := List.cons.inj h
  exact ⟨hc.symm, _, (List.append_inj' htail rfl).1.symm⟩

/-- A name does not begin with `/`, so the second character of a tag tells closing tags apart. -/
theorem closing_of_lexeme_eq (h : t.IsOf v) (hs : t.lexeme = '<' :: '/' :: s) : t.closing = true := by
  cases hcl : t.closing with
  | true => rfl
  | false =>
    obtain ⟨c, r, hc⟩ := List.exists_cons_of_ne_nil h.spelling_ne_nil
    have hslash : c = '/' := by
      simp only [lexeme, hcl, hc, Bool.false_eq_true, if_false, List.nil_append,
        List.cons_append] at hs
      exact (List.cons.inj (List.cons.inj hs).2).1
    have hname := h.isNameChar c (by simp [hc])
    simp +decide [hslash] at hname

theorem infix_of_infix_gap_append {a : List Char} (ha : Text.IsGap a)
    (hin : t.lexeme <:+: a ++ s) : t.lexeme <:+: s := by
  rw [lexeme_eq] at hin ⊢
  exact Text.infix_of_infix_append_left (ha.notMem (by decide)) hin

theorem infix_of_infix_append_gap {a : List Char} (ha : Text.IsGap a)
    (hin : t.lexeme <:+: s ++ a) : t.lexeme <:+: s := by
  rw [lexeme_eq, ← List.cons_append] at hin ⊢
  exact Text.infix_of_infix_append_right (ha.notMem (by decide)) hin

theorem isOf_of_readName? {closing : Bool} (h : readName? v closing s = some (t, rest)) :
    t.IsOf v := by
  simp only [readName?] at h
  split at h
  · split at h
    · next hk =>
      simp only [Option.some.injEq, Prod.mk.injEq] at h
      obtain ⟨rfl, rfl⟩ := h
      refine ⟨hk.1, ?_, ?_, hk.2⟩
      · exact fun c hc ↦ List.all_eq_true.1 List.all_takeWhile c hc
      · exact fun c hc ↦ List.all_eq_true.1 List.all_takeWhile c hc
    · simp at h
  · simp at h

theorem takeWhile_isNameChar (h : t.IsOf v) (rest : List Char) :
    (t.spelling ++ t.padding ++ '>' :: rest).takeWhile isNameChar = t.spelling := by
  have hstop : (t.padding ++ '>' :: rest).head?.all fun c ↦ !isNameChar c := by
    cases hp : t.padding with
    | nil => simp +decide
    | cons c p =>
      simp [isNameChar_of_isBlank (h.isGap c (by simp [hp]))]
  rw [List.append_assoc, List.takeWhile_append_of_pos h.isNameChar]
  cases hr : t.padding ++ '>' :: rest with
  | nil => simp
  | cons c r =>
    rw [List.takeWhile_cons_of_neg (by simpa [hr] using hstop), List.append_nil]

theorem readName?_append (h : t.IsOf v) (rest : List Char) :
    readName? v t.closing (t.spelling ++ t.padding ++ '>' :: rest) = some (t, rest) := by
  have htake := takeWhile_isNameChar h rest
  have hdrop : (t.spelling ++ t.padding ++ '>' :: rest).dropWhile isNameChar =
      t.padding ++ '>' :: rest := by
    have hsplit := List.takeWhile_append_dropWhile (p := isNameChar)
      (l := t.spelling ++ t.padding ++ '>' :: rest)
    rw [htake] at hsplit
    exact List.append_cancel_left (hsplit.trans (List.append_assoc ..))
  have hpad : (t.padding ++ '>' :: rest).takeWhile Text.isBlank = t.padding := by
    rw [List.takeWhile_append_of_pos h.isGap, List.takeWhile_cons_of_neg (by decide),
      List.append_nil]
  have hend : (t.padding ++ '>' :: rest).dropWhile Text.isBlank = '>' :: rest := by
    rw [List.dropWhile_append_of_pos h.isGap, List.dropWhile_cons_of_neg (by decide)]
  simp only [readName?, htake, hdrop, hpad, hend]
  exact if_pos ⟨h.spelling_ne_nil, h.isKnown⟩

/-- A tag is read where its lexeme stands, and only there. -/
theorem read?_eq_some_iff : read? v s = some (t, rest) ↔ t.IsOf v ∧ s = t.lexeme ++ rest := by
  constructor
  · intro h
    refine ⟨?_, eq_lexeme_append_of_read? h⟩
    simp only [read?] at h
    split at h
    · exact isOf_of_readName? h
    · exact isOf_of_readName? h
    · simp at h
  · rintro ⟨h, rfl⟩
    have hname := readName?_append h rest
    cases hcl : t.closing with
    | true =>
      rw [hcl] at hname
      simpa [lexeme, hcl, read?] using hname
    | false =>
      obtain ⟨c, r, hc⟩ := List.exists_cons_of_ne_nil h.spelling_ne_nil
      have hne : c ≠ '/' := by
        rintro rfl
        have := closing_of_lexeme_eq (s := r ++ (t.padding ++ ['>'])) h (by simp [lexeme, hcl, hc])
        simp [hcl] at this
      rw [hcl] at hname
      simp only [hc, List.cons_append, List.append_assoc] at hname
      simp only [lexeme, hcl, hc, read?]
      simpa [hne] using hname

theorem read?_append (h : read? v s = some (t, rest)) (e : List Char) :
    read? v (s ++ e) = some (t, rest ++ e) := by
  obtain ⟨ht, rfl⟩ := read?_eq_some_iff.1 h
  exact read?_eq_some_iff.2 ⟨ht, List.append_assoc ..⟩

theorem read?_of_ne {c : Char} (hc : c ≠ '<') (s : List Char) : read? v (c :: s) = none := by
  cases h : read? v (c :: s) with
  | none => rfl
  | some r =>
    have := (read?_eq_some_iff.1 h).2
    simp [lexeme_eq, hc] at this

/-- A tag that appears only when the text grows reaches over the place where the text ended. -/
theorem exists_lexeme_eq_append (hs : read? v s = none) (he : read? v (s ++ e) = some (t, rest)) :
    ∃ g, g ≠ [] ∧ t.lexeme = s ++ g ∧ e = g ++ rest := by
  obtain ⟨ht, heq⟩ := read?_eq_some_iff.1 he
  rcases List.append_eq_append_iff.1 heq with ⟨g, hg, hrest⟩ | ⟨g, hg, hrest⟩
  · refine ⟨g, ?_, hg, hrest⟩
    rintro rfl
    have hread : read? v s = some (t, []) := read?_eq_some_iff.2 ⟨ht, by simpa using hg.symm⟩
    simp [hread] at hs
  · rw [read?_eq_some_iff.2 ⟨ht, hg⟩] at hs
    simp at hs

/-- The tags of a vocabulary that stand in a text, from left to right. -/
def occurrences (v : Vocabulary) (s : List Char) : List Tag :=
  s.tails.filterMap fun r ↦ (read? v r).map Prod.fst

theorem mem_occurrences_iff : t ∈ occurrences v s ↔ t.IsOf v ∧ t.lexeme <:+: s := by
  simp only [occurrences, List.mem_filterMap, List.mem_tails, Option.map_eq_some_iff, Prod.exists]
  constructor
  · rintro ⟨r, hr, t, rest, hread, rfl⟩
    obtain ⟨ht, rfl⟩ := read?_eq_some_iff.1 hread
    exact ⟨ht, (List.prefix_append _ _).isInfix.trans hr.isInfix⟩
  · rintro ⟨ht, x, y, rfl⟩
    refine ⟨t.lexeme ++ y, ?_, t, y, read?_eq_some_iff.2 ⟨ht, rfl⟩, rfl⟩
    rw [List.append_assoc]
    exact List.suffix_append _ _

/-- A statement on all tags that stand in a text, as one that can be checked. -/
theorem forall_of_occurrences {P : Tag → Prop} (h : ∀ t ∈ occurrences v s, P t) :
    ∀ t : Tag, t.IsOf v → t.lexeme <:+: s → P t :=
  fun t ht hin ↦ h t (mem_occurrences_iff.2 ⟨ht, hin⟩)

end Tag
end AgentReply
