import AgentReply.Proofs.Markup.Occurrence
import Mathlib.Data.List.Chain

/-!
# The places of tokens

The tokens of a text lie side by side in it, from its first octet to its last, and no run of text is cut
in two. A tag is among them just where its lexeme stands in the text.
-/

namespace AgentReply

theorem Text.octetCount_eq (s : List Char) : octetCount s = (String.ofList s).utf8ByteSize := by
  induction s with
  | nil => rfl
  | cons c s ih =>
    have hsplit : String.ofList (c :: s) = String.singleton c ++ String.ofList s := by
      rw [String.singleton_eq_ofList, ← String.ofList_append, List.singleton_append]
    rw [octetCount_cons, ih, hsplit, String.utf8ByteSize_append, String.utf8ByteSize_singleton]

namespace Token

variable {v : Vocabulary} {s : List Char} {tokens : List Token} {start : ℕ}

def isText : Token → Bool
  | .text _ => true
  | .tag _ => false

/-! ### Runs of text -/

theorem isChain_consChar (c : Char) (h : tokens.IsChain fun t u ↦ ¬ (t.isText ∧ u.isText)) :
    (consChar c tokens).IsChain fun t u ↦ ¬ (t.isText ∧ u.isText) := by
  rcases tokens with _ | ⟨⟨tag⟩ | ⟨run⟩, rest⟩
  · exact List.IsChain.singleton _
  · apply List.IsChain.cons_cons _ h
    simp [isText]
  · cases rest with
    | nil => exact List.IsChain.singleton _
    | cons u rest =>
      rw [List.isChain_cons_cons] at h
      exact List.IsChain.cons_cons h.1 h.2

/-- Of two tokens in a row one is a tag. -/
theorem isChain_scan (v : Vocabulary) (s : List Char) :
    (scan v s).IsChain fun t u ↦ ¬ (t.isText ∧ u.isText) := by
  induction s using Token.scan.induct v with
  | case1 => simp
  | case2 c s t rest h ih =>
    rw [scan_of_tag h]
    apply ih.cons
    simp [isText]
  | case3 c s h ih =>
    rw [scan_of_char h]
    exact isChain_consChar c ih

theorem lexeme_ne_nil_of_mem_consChar {c : Char} (h : ∀ t ∈ tokens, t.lexeme ≠ []) :
    ∀ t ∈ consChar c tokens, t.lexeme ≠ [] := by
  intro t ht
  unfold consChar at ht
  split at ht
  all_goals
    rcases List.mem_cons.1 ht with rfl | hmem
    · simp
    · exact h t (by simp [hmem])

theorem lexeme_ne_nil_of_mem_scan : ∀ t ∈ scan v s, t.lexeme ≠ [] := by
  induction s using Token.scan.induct v with
  | case1 => simp
  | case2 c s t rest h ih =>
    rw [scan_of_tag h, List.forall_mem_cons]
    exact ⟨by simp [Tag.lexeme_eq], ih⟩
  | case3 c s h ih =>
    rw [scan_of_char h]
    exact lexeme_ne_nil_of_mem_consChar ih

/-! ### Places -/

theorem map_token_locate (start : ℕ) (tokens : List Token) :
    (locate start tokens).map Located.token = tokens := by
  induction tokens generalizing start with
  | nil => rfl
  | cons t tokens ih => rw [locate, List.map_cons, ih]

theorem map_start_locate (start : ℕ) (tokens : List Token) :
    (locate start tokens).map Located.start ++ [start + Text.octetCount (tokens.flatMap lexeme)] =
      start :: (locate start tokens).map Located.stop := by
  induction tokens generalizing start with
  | nil => simp
  | cons t tokens ih =>
    have h := ih (start + Text.octetCount t.lexeme)
    rw [Nat.add_assoc, ← Text.octetCount_append, ← List.flatMap_cons] at h
    rw [locate, List.map_cons, List.map_cons, List.cons_append, h]

theorem mem_locate_iff {l : Located} : l ∈ locate start tokens ↔
    ∃ before after, tokens = before ++ l.token :: after ∧
      l.start = start + Text.octetCount (before.flatMap lexeme) ∧
      l.stop = l.start + Text.octetCount l.token.lexeme := by
  induction tokens generalizing start with
  | nil => simp
  | cons t tokens ih =>
    rw [locate, List.mem_cons, ih]
    constructor
    · rintro (rfl | ⟨before, after, rfl, hstart, hstop⟩)
      · exact ⟨[], tokens, rfl, by simp, rfl⟩
      · refine ⟨t :: before, after, rfl, ?_, hstop⟩
        rw [hstart, List.flatMap_cons, Text.octetCount_append, Nat.add_assoc]
    · rintro ⟨before, after, htokens, hstart, hstop⟩
      cases before with
      | nil =>
        left
        obtain ⟨rfl, rfl⟩ := List.cons.inj htokens
        cases l
        simp_all
      | cons u before =>
        right
        obtain ⟨rfl, rfl⟩ := List.cons.inj htokens
        refine ⟨before, after, rfl, ?_, hstop⟩
        rw [hstart, List.flatMap_cons, Text.octetCount_append, Nat.add_assoc]

/-- A token stands in a text where it is said to be. -/
def Located.StandsIn (l : Located) (text : String) : Prop :=
  ∃ before after, text = before ++ String.ofList l.token.lexeme ++ after ∧
    l.start = before.utf8ByteSize ∧
    l.stop = (before ++ String.ofList l.token.lexeme).utf8ByteSize

theorem standsIn_of_mem_locate {l : Located} {text : String}
    (h : l ∈ locate 0 (scan v text.toList)) : l.StandsIn text := by
  obtain ⟨before, after, hscan, hstart, hstop⟩ := mem_locate_iff.1 h
  refine ⟨String.ofList (before.flatMap lexeme), String.ofList (after.flatMap lexeme), ?_, ?_, ?_⟩
  · rw [← String.ofList_append, ← String.ofList_append, ← String.toList_inj, String.toList_ofList,
      ← flatMap_lexeme_scan v text.toList, hscan]
    simp
  · rw [hstart, Text.octetCount_eq, Nat.zero_add]
  · rw [hstop, hstart, String.utf8ByteSize_append, Text.octetCount_eq, Text.octetCount_eq,
      Nat.zero_add]

/-- A tag of the vocabulary that stands in a text is a token at its place. -/
theorem mem_locate_of_standsIn {u : Tag} (hu : u.IsOf v) {start stop : ℕ} {text : String}
    (h : Located.StandsIn ⟨.tag u, start, stop⟩ text) :
    ⟨.tag u, start, stop⟩ ∈ locate 0 (scan v text.toList) := by
  obtain ⟨x, y, rfl, hstart, hstop⟩ := h
  obtain ⟨before, after, hscan, hbefore⟩ := exists_scan_eq (x := x.toList) (y := y.toList) hu
    (s := (x ++ String.ofList u.lexeme ++ y).toList) (by simp)
  refine mem_locate_iff.2 ⟨before, after, hscan, ?_, ?_⟩
  · rw [hbefore, Text.octetCount_eq, String.ofList_toList, Nat.zero_add]
    exact hstart
  · simp only [lexeme_tag] at hstart hstop ⊢
    rw [hstop, String.utf8ByteSize_append, ← hstart, Text.octetCount_eq]

/-- The tokens of a text, with their places in octets. They begin at its start and end at its end, each
where the one before it ends; none is empty, each is the part of the text between its places, and no
run of text follows another. A tag of the vocabulary is a token wherever it stands in the text, and no
other tag is one; its name is as long as it can be. -/
theorem locate_scan_divides (v : Vocabulary) (text : String) :
    let tokens := locate 0 (scan v text.toList)
    tokens.map Located.start ++ [text.utf8ByteSize] = 0 :: tokens.map Located.stop ∧
      (∀ l ∈ tokens, l.start < l.stop ∧ l.StandsIn text) ∧
      (tokens.IsChain fun l m ↦ ¬ (l.token.isText ∧ m.token.isText)) ∧
      ∀ (u : Tag) (start stop : ℕ), ⟨.tag u, start, stop⟩ ∈ tokens ↔
        u.IsOf v ∧ (u.spelling ++ u.padding ++ ['>']).takeWhile Tag.isNameChar = u.spelling ∧
          Located.StandsIn ⟨.tag u, start, stop⟩ text := by
  intro tokens
  refine ⟨?_, ?_, ?_, ?_⟩
  · have h := map_start_locate 0 (scan v text.toList)
    rwa [flatMap_lexeme_scan, Nat.zero_add, Text.octetCount_eq, String.ofList_toList] at h
  · intro l hl
    refine ⟨?_, standsIn_of_mem_locate hl⟩
    obtain ⟨before, after, hscan, -, hstop⟩ := mem_locate_iff.1 hl
    have hne : l.token.lexeme ≠ [] :=
        lexeme_ne_nil_of_mem_scan (v := v) (s := text.toList) _ (by simp [hscan])
    obtain ⟨c, r, hc⟩ := List.exists_cons_of_ne_nil hne
    have hpos := c.utf8Size_pos
    rw [hstop, hc, Text.octetCount_cons]
    omega
  · have h := isChain_scan v text.toList
    rwa [← map_token_locate 0 (scan v text.toList), List.isChain_map] at h
  · intro u start stop
    constructor
    · intro hmem
      obtain ⟨before, after, hscan, -, -⟩ := mem_locate_iff.1 hmem
      have hu : u.IsOf v := isOf_of_mem_scan (s := text.toList) (by simp [hscan])
      exact ⟨hu, Tag.takeWhile_isNameChar hu [], standsIn_of_mem_locate hmem⟩
    · rintro ⟨hu, -, hstands⟩
      exact mem_locate_of_standsIn hu hstands

end Token
end AgentReply
