import AgentReply.Proofs.Markup.Occurrence

/-!
# The fragment of a tag at the end of a text

A fragment is a suffix of a text that the scanner takes for one tag as soon as the right characters
follow it. It has a single `<`, at its head, so a text ends with one fragment at most. That fragment is
what is held back, no more and no less. It is there exactly when the text has a `<` at which no tag is
read yet, but one is when the text goes on.
-/

namespace AgentReply

namespace Token

variable {v : Vocabulary} {t : Tag} {s : List Char}

theorem scan_eq_tag_iff : scan v s = [.tag t] ↔ t.IsOf v ∧ s = t.lexeme := by
  constructor
  · intro h
    have hmem : .tag t ∈ scan v s := by simp [h]
    have hlex := flatMap_lexeme_scan v s
    rw [h, List.flatMap_singleton, lexeme_tag] at hlex
    exact ⟨isOf_of_mem_scan hmem, hlex.symm⟩
  · rintro ⟨ht, rfl⟩
    have hread : Tag.read? v t.lexeme = some (t, []) :=
      Tag.read?_eq_some_iff.2 ⟨ht, (List.append_nil _).symm⟩
    rw [scan_of_tag hread, scan_nil]

end Token

namespace Tag

variable {v : Vocabulary} {s : List Char}

theorem begins_iff_scan :
    Begins v s ↔ ∃ more t, more ≠ [] ∧ Token.scan v (s ++ more) = [.tag t] := by
  constructor
  · rintro ⟨t, ht, g, hg, hlex⟩
    exact ⟨g, t, hg, Token.scan_eq_tag_iff.2 ⟨ht, hlex.symm⟩⟩
  · rintro ⟨g, t, hg, hscan⟩
    obtain ⟨ht, hlex⟩ := Token.scan_eq_tag_iff.1 hscan
    exact ⟨t, ht, g, hg, hlex.symm⟩

/-- No tag is read yet at the beginning of a tag, but one is when the rest of it has come. -/
theorem begins_iff_read? : Begins v s ↔
    read? v s = none ∧ ∃ more t rest, read? v (s ++ more) = some (t, rest) := by
  constructor
  · rintro ⟨t, ht, g, hg, hlex⟩
    have hwhole : read? v (s ++ g) = some (t, []) :=
      read?_eq_some_iff.2 ⟨ht, by rw [List.append_nil, hlex]⟩
    refine ⟨?_, g, t, [], hwhole⟩
    cases hread : read? v s with
    | none => rfl
    | some r =>
      -- a tag that is read already would leave `g` behind it
      have hsame := (read?_append hread g).symm.trans hwhole
      have hleft : r.2 ++ g = [] := (Prod.mk.inj (Option.some.inj hsame)).2
      exact absurd (List.append_eq_nil_iff.1 hleft).2 hg
  · rintro ⟨hnone, more, t, rest, hread⟩
    obtain ⟨g, hg, hlex, -⟩ := exists_lexeme_eq_append hnone hread
    exact ⟨t, (read?_eq_some_iff.1 hread).1, g, hg, hlex⟩

theorem Begins.exists_eq_cons (h : Begins v s) (hne : s ≠ []) : ∃ f, s = '<' :: f := by
  obtain ⟨t, -, g, hg, hlex⟩ := h
  obtain ⟨c, f, rfl⟩ := List.exists_cons_of_ne_nil hne
  obtain ⟨rfl, -⟩ := eq_and_prefix_of_lexeme_eq hlex hg
  exact ⟨f, rfl⟩

end Tag

namespace Vocabulary

open Text (octetCount)

/-- The number of octets that are held back at the end of a text. -/
def heldBack (v : Vocabulary) (s : List Char) : ℕ :=
  octetCount s - octetCount (v.withoutFragment s)

/-- A suffix of a text that is a proper prefix of a tag: it is not empty, and with some more text behind
it the scanner takes it for one opening or closing tag. -/
structure IsFragment (v : Vocabulary) (s f : List Char) : Prop where
  ne_nil : f ≠ []
  isSuffix : f <:+ s
  grows : ∃ more t, more ≠ [] ∧ Token.scan v (f ++ more) = [.tag t]

variable {v : Vocabulary} {s f g : List Char}

theorem isFragment_iff : v.IsFragment s f ↔ f ≠ [] ∧ f <:+ s ∧ Tag.Begins v f := by
  rw [Tag.begins_iff_scan]
  exact ⟨fun h ↦ ⟨h.1, h.2, h.3⟩, fun h ↦ ⟨h.1, h.2.1, h.2.2⟩⟩

theorem IsFragment.shown_append (hv : v.IsPlain) (h : v.IsFragment s f) :
    v.withoutFragment s ++ f = s := by
  obtain ⟨hne, ⟨a, rfl⟩, hbegins⟩ := isFragment_iff.1 h
  rw [withoutFragment_append hv hbegins hne]

theorem IsFragment.eq (hv : v.IsPlain) (hf : v.IsFragment s f) (hg : v.IsFragment s g) : g = f :=
  List.append_cancel_left ((hg.shown_append hv).trans (hf.shown_append hv).symm)

theorem IsFragment.heldBack_eq (hv : v.IsPlain) (h : v.IsFragment s f) :
    v.heldBack s = octetCount f := by
  have hcount := congrArg octetCount (h.shown_append hv)
  rw [Text.octetCount_append] at hcount
  rw [heldBack]
  omega

theorem withoutFragment_eq_or_isFragment (hv : v.IsPlain) (s : List Char) :
    v.withoutFragment s = s ∨ ∃ f, v.IsFragment s f := by
  obtain ⟨r, hr, rfl | ⟨f, rfl, hf⟩⟩ := exists_eq_beforeFragment_append v.mayGrow s
  · left
    rw [List.append_nil] at hr
    exact hr.symm
  · right
    exact ⟨'<' :: f, isFragment_iff.2 ⟨by simp, ⟨_, hr.symm⟩, (mayGrow_iff hv).1 hf⟩⟩

theorem heldBack_of_all_shown (h : v.withoutFragment s = s) : v.heldBack s = 0 := by
  rw [heldBack, h, Nat.sub_self]

theorem heldBack_pos_iff (hv : v.IsPlain) : 0 < v.heldBack s ↔ ∃ f, v.IsFragment s f := by
  constructor
  · intro hpos
    refine (withoutFragment_eq_or_isFragment hv s).resolve_left fun hall ↦ ?_
    rw [heldBack_of_all_shown hall] at hpos
    exact Nat.lt_irrefl 0 hpos
  · rintro ⟨f, hf⟩
    rw [hf.heldBack_eq hv]
    exact Text.octetCount_pos hf.ne_nil

/-- A text ends with a fragment exactly when it has a `<` at which no tag is read yet, but one that
reaches beyond its end is read when the text goes on. -/
theorem exists_isFragment_iff : (∃ f, v.IsFragment s f) ↔
    ∃ a f more t rest, s = a ++ '<' :: f ∧ Tag.read? v ('<' :: f) = none ∧
      Tag.read? v ('<' :: f ++ more) = some (t, rest) ∧ s.length < (a ++ t.lexeme).length := by
  constructor
  · rintro ⟨f, hf⟩
    obtain ⟨hne, ⟨a, rfl⟩, hbegins⟩ := isFragment_iff.1 hf
    obtain ⟨f, rfl⟩ := hbegins.exists_eq_cons hne
    obtain ⟨hnone, more, t, rest, hread⟩ := Tag.begins_iff_read?.1 hbegins
    refine ⟨a, f, more, t, rest, rfl, hnone, hread, ?_⟩
    obtain ⟨g, hg, hlex, -⟩ := Tag.exists_lexeme_eq_append hnone hread
    have hlength := List.length_pos_iff.2 hg
    rw [hlex, List.length_append, List.length_append, List.length_append]
    omega
  · rintro ⟨a, f, more, t, rest, rfl, hnone, hread, -⟩
    refine ⟨'<' :: f, isFragment_iff.2 ⟨by simp, List.suffix_append _ _, ?_⟩⟩
    exact Tag.begins_iff_read?.2 ⟨hnone, more, t, rest, hread⟩

/-- The hold-back is exact. If a suffix of a text is a proper prefix of a tag, then it is the only one,
its length is what is held back, and what stands before it is shown. If there is none, nothing is held
back. Something is held back exactly when the text has a `<` at which no tag is read yet, but one that
reaches beyond its end is read when the text goes on. -/
theorem heldBack_measures_fragment (hv : v.IsPlain) (s : List Char) :
    (∀ f, v.IsFragment s f → v.heldBack s = octetCount f ∧ v.withoutFragment s ++ f = s ∧
      ∀ g, v.IsFragment s g → g = f) ∧
    ((¬∃ f, v.IsFragment s f) → v.heldBack s = 0 ∧ v.withoutFragment s = s) ∧
    (0 < v.heldBack s ↔ ∃ a f more t rest, s = a ++ '<' :: f ∧ Tag.read? v ('<' :: f) = none ∧
      Tag.read? v ('<' :: f ++ more) = some (t, rest) ∧ s.length < (a ++ t.lexeme).length) := by
  refine ⟨?_, ?_, ?_⟩
  · intro f hf
    exact ⟨hf.heldBack_eq hv, hf.shown_append hv, fun g hg ↦ hf.eq hv hg⟩
  · intro hnone
    have hall := (withoutFragment_eq_or_isFragment hv s).resolve_right hnone
    exact ⟨heldBack_of_all_shown hall, hall⟩
  · rw [heldBack_pos_iff hv, exists_isFragment_iff]

/-- A name that begins with another name, partly in capitals and with a wide blank behind it. -/
theorem heldBack_measures_fragment_padded :
    let s := "if a < b </TOOL_calls\u3000".toList
    Vocabulary.standard.IsPlain ∧
      (∀ f, IsFragment .standard s f ↔ f = "</TOOL_calls\u3000".toList) ∧
      heldBack .standard s = 15 ∧
      ∃ a f more t rest, s = a ++ '<' :: f ∧ Tag.read? .standard ('<' :: f) = none ∧
        Tag.read? .standard ('<' :: f ++ more) = some (t, rest) ∧
        s.length < (a ++ t.lexeme).length := by
  intro s
  have hv : Vocabulary.standard.IsPlain := by decide +kernel
  have hscan : Token.scan .standard ("</TOOL_calls\u3000".toList ++ ['>']) =
      [.tag ⟨true, "TOOL_calls".toList, ['\u3000']⟩] := by decide +kernel
  have hf : IsFragment .standard s "</TOOL_calls\u3000".toList :=
    ⟨by decide, ⟨"if a < b ".toList, by decide⟩, ['>'], _, by decide, hscan⟩
  obtain ⟨hone, -, hplace⟩ := heldBack_measures_fragment hv s
  obtain ⟨hcount, -, hunique⟩ := hone _ hf
  have hheld : heldBack .standard s = 15 := hcount.trans (by decide)
  refine ⟨hv, fun f ↦ ⟨hunique f, fun h ↦ h ▸ hf⟩, hheld, hplace.1 ?_⟩
  rw [hheld]
  decide

example : heldBack .standard "x <ty ".toList = 0 := by decide +kernel

end Vocabulary
end AgentReply
