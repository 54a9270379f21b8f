import AgentReply.Markup.Document
import AgentReply.Proofs.Markup.Tag

/-!
# Reading a text into an outline

A text is read from left to right: where a tag stands the outline takes the tag, and elsewhere it is
extended by one character. A text that is read in two parts gives the same outline as the whole, unless
a tag reaches over the cut.
-/

namespace AgentReply

namespace Token

variable {v : Vocabulary} {s : List Char}

theorem scan_of_tag {t : Tag} {rest : List Char} (h : Tag.read? v s = some (t, rest)) :
    scan v s = .tag t :: scan v rest := by
  cases s with
  | nil => simp [Tag.read?] at h
  | cons c s =>
    rw [scan]
    split
    · next h' =>
      rw [h] at h'
      cases h'
      rfl
    · next h' => simp [h] at h'

theorem scan_of_char {c : Char} (h : Tag.read? v (c :: s) = none) :
    scan v (c :: s) = consChar c (scan v s) := by
  rw [scan]
  split
  · next h' => simp [h] at h'
  · rfl

end Token

namespace Outline

/-- The outline after a text, from one that is known already. -/
def read (v : Vocabulary) (o : Outline) (s : List Char) : Outline :=
  (Token.scan v s).foldl (take v) o

variable {v : Vocabulary} {t : Tag} {o : Outline} {s rest : List Char}

theorem parse_eq_finish (v : Vocabulary) (text : String) :
    Document.parse v text = (read v {} text.toList).finish v := rfl

@[simp] theorem extend_nil (o : Outline) : o.extend [] = o := by
  cases o with
  | mk stack nodes loose pending => cases stack <;> simp [extend, OpenTag.extend]

@[simp] theorem extend_extend (o : Outline) (a b : List Char) :
    (o.extend a).extend b = o.extend (a ++ b) := by
  cases o with
  | mk stack nodes loose pending =>
    cases stack <;> simp [extend, OpenTag.extend, List.append_assoc]

@[simp] theorem read_nil (v : Vocabulary) (o : Outline) : read v o [] = o := by
  simp [read]

/-- What every token keeps, a whole text keeps. -/
theorem read_keeps {P : Outline → Prop} (hstep : ∀ o token, P o → P (o.take v token)) (h : P o)
    (s : List Char) : P (read v o s) := by
  rw [read]
  induction Token.scan v s generalizing o with
  | nil => exact h
  | cons token tokens ih => exact ih (hstep o token h)

theorem read_of_tag (h : Tag.read? v s = some (t, rest)) :
    read v o s = read v (o.take v (.tag t)) rest := by
  rw [read, Token.scan_of_tag h]
  rfl

theorem read_lexeme (ht : t.IsOf v) (rest : List Char) :
    read v o (t.lexeme ++ rest) = read v (o.take v (.tag t)) rest :=
  read_of_tag (Tag.read?_eq_some_iff.2 ⟨ht, rfl⟩)

theorem foldl_take_consChar (v : Vocabulary) (o : Outline) (c : Char) (tokens : List Token) :
    (Token.consChar c tokens).foldl (take v) o = tokens.foldl (take v) (o.extend [c]) := by
  unfold Token.consChar
  split <;> simp [take]

theorem read_of_char {c : Char} (h : Tag.read? v (c :: s) = none) :
    read v o (c :: s) = read v (o.extend [c]) s := by
  rw [read, Token.scan_of_char h]
  exact foldl_take_consChar ..

/-- Text without a `<` is text whatever follows it. -/
theorem read_append_of_notMem (hs : '<' ∉ s) (rest : List Char) :
    read v o (s ++ rest) = read v (o.extend s) rest := by
  induction s generalizing o with
  | nil => simp
  | cons c s ih =>
    rw [List.mem_cons, not_or] at hs
    rw [List.cons_append, read_of_char (Tag.read?_of_ne (Ne.symm hs.1) _), ih hs.2,
      extend_extend, List.singleton_append]

/-- Reading a text on from a cut: no tag reaches over the cut, or the text before the cut ends with the
beginning `f` of a tag, which is text as long as the rest of the tag is not there. -/
inductive ReadsOn (v : Vocabulary) (o : Outline) (s e : List Char) : Prop
  | clean (h : read v o (s ++ e) = read v (read v o s) e)
  | inside (s' rest : List Char) {f g : List Char} {t : Tag} (ht : t.IsOf v) (hg : g ≠ [])
      (hlex : t.lexeme = f ++ g) (hs : s = s' ++ f) (hcut : read v o s = (read v o s').extend f)
      (hread : read v o (s ++ e) = read v ((read v o s').take v (.tag t)) rest)

theorem ReadsOn.of_tag {e : List Char} (h : Tag.read? v s = some (t, rest))
    (ih : ReadsOn v (o.take v (.tag t)) rest e) : ReadsOn v o s e := by
  have he := Tag.read?_append h e
  cases ih with
  | clean hr =>
    refine .clean ?_
    rw [read_of_tag he, hr, read_of_tag h]
  | @inside s' last f g u hu hg hlex hs hcut hread =>
    obtain ⟨ht, heq⟩ := Tag.read?_eq_some_iff.1 h
    refine .inside (t.lexeme ++ s') last hu hg hlex ?_ ?_ ?_
    · rw [heq, hs, List.append_assoc]
    · rw [read_of_tag h, hcut, read_lexeme ht]
    · rw [read_of_tag he, hread, read_lexeme ht]

/-- A tag that begins at the last `<` before the cut. -/
theorem ReadsOn.of_reaching {c : Char} {e : List Char} (h : Tag.read? v (c :: s) = none)
    (he : Tag.read? v (c :: (s ++ e)) = some (t, rest)) : ReadsOn v o (c :: s) e := by
  obtain ⟨g, hg, hlex, rfl⟩ := Tag.exists_lexeme_eq_append h he
  have ht := (Tag.read?_eq_some_iff.1 he).1
  have hs : '<' ∉ s := fun hm ↦ Tag.open_notMem_of_lexeme_eq ht hlex (List.mem_append_left g hm)
  refine .inside [] rest ht hg hlex rfl ?_ ?_
  · have hread := read_append_of_notMem (v := v) (o := o.extend [c]) hs []
    simpa [read_of_char h] using hread
  · rw [read_nil, List.cons_append, read_of_tag he]

theorem ReadsOn.of_char {c : Char} {e : List Char} (h : Tag.read? v (c :: s) = none)
    (he : Tag.read? v (c :: (s ++ e)) = none) (ih : ReadsOn v (o.extend [c]) s e) :
    ReadsOn v o (c :: s) e := by
  cases ih with
  | clean hr =>
    refine .clean ?_
    rw [read_of_char h, List.cons_append, read_of_char he, hr]
  | @inside s' rest f g t ht hg hlex hs hcut hread =>
    subst hs
    have hc : Tag.read? v (c :: s') = none := by
      cases hc : Tag.read? v (c :: s') with
      | none => rfl
      | some r =>
        have hcf : Tag.read? v (c :: (s' ++ f)) = some (r.1, r.2 ++ f) := Tag.read?_append hc f
        rw [hcf] at h
        cases h
    refine .inside (c :: s') rest ht hg hlex rfl ?_ ?_
    · rw [read_of_char h, hcut, read_of_char hc]
    · rw [List.cons_append, read_of_char he, hread, read_of_char hc]

theorem readsOn (v : Vocabulary) (o : Outline) (s e : List Char) : ReadsOn v o s e := by
  induction s using Token.scan.induct v generalizing o with
  | case1 => exact .clean (by rw [List.nil_append, read_nil])
  | case2 c s t rest h ih => exact .of_tag h (ih _)
  | case3 c s h ih =>
    cases he : Tag.read? v (c :: (s ++ e)) with
    | some r => exact .of_reaching h he
    | none => exact .of_char h he (ih _)

end Outline
end AgentReply
