import AgentReply.Proofs.Markup.HoldBack
import AgentReply.Proofs.Markup.Reading

/-!
# Tags that stand in a text are tokens

A tag of the vocabulary that stands in a text is one of its tokens, since no other tag can begin before
it and reach into it. So whatever is made of successive tokens holds no tag but those among them. The
names that a vocabulary knows count only as far as they can be spelled: the tags of a text are the same
without the other names.
-/

namespace AgentReply

namespace Token

variable {v : Vocabulary} {u : Tag} {s x y : List Char} {a b c : List Token}

theorem consChar_append_tag (c : Char) (before : List Token) (u : Tag) (after : List Token) :
    consChar c (before ++ .tag u :: after) = consChar c before ++ .tag u :: after := by
  cases before with
  | nil => rfl
  | cons token rest => cases token <;> rfl

/-- A tag that stands in a text is a token of it, at the same place. -/
theorem exists_scan_eq (hu : u.IsOf v) (hs : s = x ++ (u.lexeme ++ y)) :
    ∃ before after, scan v s = before ++ .tag u :: after ∧ before.flatMap lexeme = x := by
  induction s using Token.scan.induct v generalizing x with
  | case1 => simp [Tag.lexeme_eq] at hs
  | case2 c s t rest h ih =>
    obtain ⟨ht, heq⟩ := Tag.read?_eq_some_iff.1 h
    have hbehind : ∀ w, x = t.lexeme ++ w → rest = w ++ (u.lexeme ++ y) → ∃ before after,
        scan v (c :: s) = before ++ .tag u :: after ∧ before.flatMap lexeme = x := by
      intro w hw hrest
      obtain ⟨before, after, hscan, hbefore⟩ := ih hrest
      refine ⟨.tag t :: before, after, ?_, ?_⟩
      · rw [scan_of_tag h, hscan, List.cons_append]
      · rw [List.flatMap_cons, hbefore, hw, lexeme_tag]
    rcases List.append_eq_append_iff.1 (heq.symm.trans hs) with ⟨w, hw, hrest⟩ | ⟨w, hw, hrest⟩
    · exact hbehind w hw hrest
    · cases x with
      | nil =>
        have hu' : Tag.read? v (c :: s) = some (u, y) := Tag.read?_eq_some_iff.2 ⟨hu, hs⟩
        obtain ⟨rfl, rfl⟩ := Prod.mk.inj (Option.some.inj (h.symm.trans hu'))
        exact ⟨[], scan v rest, scan_of_tag h, rfl⟩
      | cons d x =>
        cases w with
        | nil => exact hbehind [] (by rw [hw, List.append_nil, List.append_nil]) hrest.symm
        | cons e w =>
          -- the second tag would begin inside the first one
          obtain rfl : '<' = e := (List.cons.inj hrest).1
          exact absurd (by simp) (Tag.open_notMem_of_lexeme_eq ht hw)
  | case3 c s h ih =>
    cases x with
    | nil =>
      rw [Tag.read?_eq_some_iff.2 ⟨hu, hs⟩] at h
      cases h
    | cons d x =>
      obtain ⟨rfl, hs'⟩ := List.cons.inj hs
      obtain ⟨before, after, hscan, hbefore⟩ := ih hs'
      refine ⟨consChar c before, after, ?_, ?_⟩
      · rw [scan_of_char h, hscan, consChar_append_tag]
      · rw [flatMap_lexeme_consChar, hbefore]

/-- A tag that stands in what some successive tokens make is one of them. -/
theorem mem_of_infix (hu : u.IsOf v) (hscan : scan v s = a ++ (b ++ c))
    (hin : u.lexeme <:+: b.flatMap lexeme) : .tag u ∈ b := by
  obtain ⟨x, y, hb⟩ := hin
  have hs : s = (a.flatMap lexeme ++ x) ++ (u.lexeme ++ (y ++ c.flatMap lexeme)) := by
    rw [← flatMap_lexeme_scan v s, hscan, List.flatMap_append, List.flatMap_append, ← hb]
    simp
  obtain ⟨before, after, hbefore, hplace⟩ := exists_scan_eq hu hs
  have hpos : 0 < u.lexeme.length := Nat.succ_pos _
  have hb' := congrArg List.length hb
  have hplace' := congrArg List.length hplace
  -- by its place the tag stands neither before these tokens nor behind them
  rcases List.append_eq_append_iff.1 (hscan.symm.trans hbefore) with
    ⟨w, rfl, hw⟩ | ⟨w, rfl, hw⟩
  · rcases List.append_eq_append_iff.1 hw with ⟨w', rfl, -⟩ | ⟨w', rfl, hw'⟩
    · simp only [List.flatMap_append, List.length_append] at hb' hplace'
      omega
    · cases w' with
      | nil =>
        simp only [List.append_nil, List.flatMap_append, List.length_append] at hb' hplace'
        omega
      | cons token w' =>
        obtain rfl : .tag u = token := (List.cons.inj hw').1
        simp
  · cases w with
    | nil =>
      cases b with
      | nil =>
        simp only [List.flatMap_nil, List.length_append, List.length_nil] at hb'
        omega
      | cons token b =>
        obtain rfl : .tag u = token := (List.cons.inj hw).1
        exact List.mem_cons_self
    | cons token w =>
      obtain rfl : .tag u = token := (List.cons.inj hw).1
      simp only [List.flatMap_append, List.flatMap_cons, lexeme_tag, List.length_append] at hplace'
      omega

theorem mem_of_mem_consChar {c : Char} {tokens : List Token} (h : .tag u ∈ consChar c tokens) :
    .tag u ∈ tokens := by
  unfold consChar at h
  split at h
  · exact List.mem_cons_of_mem _ ((List.mem_cons.1 h).resolve_left (by simp))
  · exact (List.mem_cons.1 h).resolve_left (by simp)

theorem isOf_of_mem_scan (h : .tag u ∈ scan v s) : u.IsOf v := by
  induction s using Token.scan.induct v with
  | case1 => simp at h
  | case2 c s t rest hread ih =>
    rw [scan_of_tag hread] at h
    rcases List.mem_cons.1 h with heq | hmem
    · cases heq
      exact (Tag.read?_eq_some_iff.1 hread).1
    · exact ih hmem
  | case3 c s hread ih =>
    rw [scan_of_char hread] at h
    exact ih (mem_of_mem_consChar h)

end Token

/-! ### Names that can be spelled -/

namespace Vocabulary

/-- Whether a name can be spelled in a tag. -/
def isPlainName (name : String) : Bool :=
  name ≠ "" && name.toList.all fun c ↦ c.isLower || c.isDigit || c == '_' || c == '-'

/-- A vocabulary without the names that no tag can spell. -/
def plain (v : Vocabulary) : Vocabulary := { v with known := v.known.filter isPlainName }

variable {v : Vocabulary} {t : Tag}

theorem isPlain_plain (v : Vocabulary) : v.plain.IsPlain := by
  intro name hname
  have hplain : isPlainName name = true := (List.mem_filter.1 hname).2
  simpa [isPlainName, or_assoc] using hplain

theorem isPlainChar_toLower {c : Char} (h : Tag.isNameChar c = true) :
    (c.toLower.isLower || c.toLower.isDigit || c.toLower == '_' || c.toLower == '-') = true := by
  have hu : c.toLower = '_' ↔ c.toLower.toNat = 95 := Char.toNat_inj.symm
  have hm : c.toLower = '-' ↔ c.toLower.toNat = 45 := Char.toNat_inj.symm
  rw [Tag.isNameChar_iff] at h
  delta Char.isLower Char.isDigit
  simp only [Bool.or_eq_true, Bool.and_eq_true, decide_eq_true_eq, beq_iff_eq, hu, hm,
    UInt32.le_iff_toNat_le, ge_iff_le, Char.toNat_val, Char.reduceVal, UInt32.reduceToNat,
    Text.toNat_toLower]
  split <;> omega

theorem isPlainName_name (h : t.IsOf v) : isPlainName t.name = true := by
  have hne : t.name ≠ "" := by
    intro hempty
    have hlist := toList_name t
    rw [hempty] at hlist
    exact h.spelling_ne_nil (List.map_eq_nil_iff.1 hlist.symm)
  have hchars : ∀ c ∈ t.name.toList,
      (c.isLower || c.isDigit || c == '_' || c == '-') = true := by
    intro c hc
    rw [toList_name] at hc
    obtain ⟨d, hd, rfl⟩ := List.mem_map.1 hc
    exact isPlainChar_toLower (h.isNameChar d hd)
  rw [isPlainName, Bool.and_eq_true]
  exact ⟨decide_eq_true hne, List.all_eq_true.2 hchars⟩

theorem isOf_plain_iff : t.IsOf v.plain ↔ t.IsOf v := by
  have hknown : v.plain.isKnown t.name = (v.isKnown t.name && isPlainName t.name) := by
    rw [Bool.eq_iff_iff]
    simp [isKnown, plain]
  constructor
  · intro h
    refine ⟨h.spelling_ne_nil, h.isNameChar, h.isGap, ?_⟩
    have := h.isKnown
    rw [hknown, Bool.and_eq_true] at this
    exact this.1
  · intro h
    refine ⟨h.spelling_ne_nil, h.isNameChar, h.isGap, ?_⟩
    rw [hknown, h.isKnown, isPlainName_name h]
    rfl

end Vocabulary

theorem Tag.read?_plain (v : Vocabulary) (s : List Char) : read? v.plain s = read? v s := by
  refine Option.ext fun r ↦ ?_
  obtain ⟨t, rest⟩ := r
  rw [read?_eq_some_iff, read?_eq_some_iff, Vocabulary.isOf_plain_iff]

theorem Token.scan_plain (v : Vocabulary) (s : List Char) : scan v.plain s = scan v s := by
  induction s using Token.scan.induct v with
  | case1 => simp
  | case2 c s t rest h ih => rw [scan_of_tag h, scan_of_tag ((Tag.read?_plain v _).trans h), ih]
  | case3 c s h ih => rw [scan_of_char h, scan_of_char ((Tag.read?_plain v _).trans h), ih]

theorem OpenTag.closeNamed?_plain (v : Vocabulary) (name : String) (inner : Option Node)
    (stack : List OpenTag) :
    closeNamed? v.plain name inner stack = closeNamed? v name inner stack := by
  induction stack generalizing inner with
  | nil => rfl
  | cons top outer ih =>
    rw [closeNamed?, closeNamed?, ih]
    rfl

theorem Outline.read_plain (v : Vocabulary) (o : Outline) (s : List Char) :
    read v.plain o s = read v o s := by
  have htake : take v.plain = take v := by
    funext o token
    cases token with
    | text run => rfl
    | tag t =>
      rw [take, take, OpenTag.closeNamed?_plain]
      rfl
  rw [read, read, Token.scan_plain, htake]

end AgentReply
