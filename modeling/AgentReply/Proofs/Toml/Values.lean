import AgentReply.Proofs.Text.Digits
import AgentReply.Proofs.Toml.Strings
import AgentReply.Toml.Reader

/-!
# TOML values that are written and read

Integers that fit 64 bits are read back from their digits, and so are lists of integers and strings, on
one line or over several.
-/

namespace AgentReply.Toml

open Text (Rest)

/-- What may stand behind a written value. -/
def EndsValue (rest : List Char) : Prop := ∃ c t, rest = c :: t ∧ c ∈ ['\n', ',', ']']

variable {s rest : List Char}

theorem endsValue_cons {c : Char} (hc : c ∈ ['\n', ',', ']']) (t : List Char) : EndsValue (c :: t) :=
  ⟨c, t, rfl, hc⟩

/-! ### Integers -/

theorem go_of_isDigit {afterDigit : Bool} (h : ∀ c ∈ s, c.isDigit = true)
    (hnil : s = [] → afterDigit = true) :
    digits?.go 10 afterDigit s = some (s.map fun c ↦ c.toNat - '0'.toNat) := by
  induction s generalizing afterDigit with
  | nil => simp [digits?.go, hnil rfl]
  | cons c s ih =>
    rw [List.forall_mem_cons] at h
    have hc := Text.isDigit_iff.1 h.1
    have hvalue : hexValue? c = some (c.toNat - '0'.toNat) := by
      rw [hexValue?, if_pos]
      simpa [Char.le_def, UInt32.le_iff_toNat_le] using hc
    rw [digits?.go, hvalue, List.map_cons]
    · simp only [Option.bind_eq_bind, Option.bind_some]
      rw [if_pos (by simp; omega), ih h.2 fun _ ↦ rfl, Option.map_some]
    · rintro rfl
      exact absurd h.1 (by decide)

theorem ofDigits_map (ds : List Char) (n : ℕ) :
    (ds.map fun c ↦ c.toNat - '0'.toNat).foldl (fun n d ↦ 10 * n + d) n = Nat.ofDigitChars 10 ds n := by
  induction ds generalizing n with
  | nil => simp
  | cons c ds ih => rw [List.map_cons, List.foldl_cons, ih, Nat.ofDigitChars_cons]

theorem wholeDigits?_toDigits (n : ℕ) :
    (wholeDigits? (Nat.toDigits 10 n)).map (ofDigits 10) = some n := by
  have hzero : ((Nat.toDigits 10 n).head? == some '0' && (Nat.toDigits 10 n).length > 1) = false := by
    by_cases h : n = 0
    · subst h
      decide
    · simp [Text.head?_toDigits h]
  rw [wholeDigits?, hzero, if_neg (by decide), digits?,
    go_of_isDigit (fun c ↦ Text.isDigit_of_mem_toDigits) fun h ↦ absurd h Nat.toDigits_ne_nil,
    Option.map_some, ofDigits, ofDigits_map, Nat.ofDigitChars_ten_toDigits]

theorem integer?_of_digits (h : ∀ c t, s = '0' :: c :: t → c.isDigit = true) :
    integer? s = (wholeDigits? (unsigned s).2).bind fun ds ↦
      inRange (if (unsigned s).1 then -(ofDigits 10 ds : ℤ) else ofDigits 10 ds) := by
  rw [integer?]
  all_goals
    intro t ht
    exact absurd (h _ t ht) (by decide)

theorem unsigned_of_isDigit (h : ∀ c ∈ s, c.isDigit = true) : unsigned s = (false, s) := by
  rw [unsigned]
  all_goals
    rintro t rfl
    exact absurd (h _ List.mem_cons_self) (by decide)

theorem inRange_eq {n : ℤ} (h : -0x8000000000000000 ≤ n ∧ n < 0x8000000000000000) :
    inRange n = some (.integer n) := by
  simp [inRange, h]

theorem integer?_toString {n : ℤ} (h : -0x8000000000000000 ≤ n ∧ n < 0x8000000000000000) :
    integer? (toString n).toList = some (.integer n) := by
  have htext : toString n = n.repr := rfl
  rw [htext, Int.repr_eq_if]
  split
  · next hsign =>
    have hdigits : ∀ c ∈ Nat.toDigits 10 n.toNat, c.isDigit = true := fun c ↦ Text.isDigit_of_mem_toDigits
    obtain ⟨ds, hds, hvalue⟩ := Option.map_eq_some_iff.1 (wholeDigits?_toDigits n.toNat)
    rw [Nat.toList_repr, integer?_of_digits, unsigned_of_isDigit hdigits, hds, Option.bind_some, hvalue]
    · simp only [Bool.false_eq_true, if_false]
      rw [Int.toNat_of_nonneg hsign, inRange_eq h]
    · intro c t heq
      exact hdigits c (by simp [heq])
  · obtain ⟨ds, hds, hvalue⟩ := Option.map_eq_some_iff.1 (wholeDigits?_toDigits (-n).toNat)
    have hnegative : -(((-n).toNat : ℕ) : ℤ) = n := by omega
    rw [String.toList_append, Nat.toList_repr, integer?_of_digits]
    · simp only [unsigned, String.reduceToList, List.cons_append, List.nil_append, hds, Option.bind_some,
        hvalue, if_true, hnegative]
      exact inRange_eq h
    · intro c t heq
      simp at heq

theorem isWordChar_of_isDigit {c : Char} (h : c.isDigit = true) : isWordChar c = true := by
  simp [isWordChar, Char.isAlphanum, h]

/-- A written integer is a sign and digits, so a word and none of the words that stand for something
else. -/
theorem exists_toString (n : ℤ) : ∃ c t, (toString n).toList = c :: t ∧
    (c = '-' ∨ c.isDigit = true) ∧ ∀ d ∈ c :: t, isWordChar d = true := by
  have htext : toString n = n.repr := rfl
  rw [htext, Int.repr_eq_if]
  split
  · obtain ⟨c, t, heq⟩ := List.exists_cons_of_ne_nil (Nat.toDigits_ne_nil (b := 10) (n := n.toNat))
    have hdigits : ∀ d ∈ c :: t, d.isDigit = true := fun d hd ↦ Text.isDigit_of_mem_toDigits (heq ▸ hd)
    refine ⟨c, t, by rw [Nat.toList_repr, heq], .inr (hdigits c List.mem_cons_self), fun d hd ↦ ?_⟩
    exact isWordChar_of_isDigit (hdigits d hd)
  · refine ⟨'-', Nat.toDigits 10 (-n).toNat, ?_, .inl rfl, ?_⟩
    · rw [String.toList_append, Nat.toList_repr]
      rfl
    · rw [List.forall_mem_cons]
      exact ⟨by decide, fun d hd ↦ isWordChar_of_isDigit (Text.isDigit_of_mem_toDigits hd)⟩

theorem exists_writeString (value : String) :
    ∃ c t, (writeString value).toList = c :: t ∧ (c = '"' ∨ c = '\'') := by
  fun_cases writeString value
  all_goals
    rw [String.toList_ofList]
    exact ⟨_, _, rfl, by decide⟩

theorem scalar?_eq_word? (hquote : s.head? ≠ some '"') (hapostrophe : s.head? ≠ some '\'') :
    scalar? s = word? s := by
  unfold scalar?
  split
  · simp at hquote
  · simp at hapostrophe
  · rfl

theorem result_scalar?_quoted {c : Char} (hc : c = '"' ∨ c = '\'') (s : List Char) :
    result (scalar? (c :: s)) =
      (result (string? (c :: s))).map fun z ↦ (.string z.1, z.2) := by
  rcases hc with rfl | rfl
  all_goals
    rw [scalar?]
    cases string? _ <;> rfl

section

variable (hrest : EndsValue rest)

include hrest

theorem EndsValue.head?_all_isWordChar : rest.head?.all (!isWordChar ·) = true := by
  obtain ⟨c, t, rfl, hc⟩ := hrest
  have hends : ∀ d ∈ ['\n', ',', ']'], (!isWordChar d) = true := by decide
  exact hends c hc

theorem EndsValue.head?_ne {c : Char} (hc : c ∉ ['\n', ',', ']']) : rest.head? ≠ some c := by
  obtain ⟨d, t, rfl, hd⟩ := hrest
  rw [List.head?_cons, ne_eq, Option.some.injEq]
  rintro rfl
  exact hc hd

theorem timeAfter?_of_endsValue (date : List Char) : timeAfter? date rest = none := by
  rw [timeAfter?]
  rintro t rfl
  exact hrest.head?_ne (c := ' ') (by decide) rfl

theorem result_word? {v : Value} (hne : s ≠ []) (hs : ∀ c ∈ s, isWordChar c = true)
    (hv : wordValue? s = some v) : result (word? (s ++ rest)) = some (v, rest) := by
  have htake := Text.takeWhile_append_of_head? hs hrest.head?_all_isWordChar
  have hdrop := Text.dropWhile_append_of_head? hs hrest.head?_all_isWordChar
  have htime : timeAfter? s ((s ++ rest).dropWhile isWordChar) = none := by
    rw [hdrop, timeAfter?_of_endsValue hrest]
  rw [word?]
  split
  · next hempty => simp [htake, hne] at hempty
  · simp only [htake, hdrop, htime, hv, Option.map_some, result_some]

theorem result_scalar?_integer {n : ℤ} (hn : -0x8000000000000000 ≤ n ∧ n < 0x8000000000000000) :
    result (scalar? ((toString n).toList ++ rest)) = some (.integer n, rest) := by
  have hinteger := integer?_toString hn
  obtain ⟨c, t, heq, hc, hword⟩ := exists_toString n
  rw [heq] at hinteger ⊢
  have hfirst : ∀ d, d ≠ '-' → d.isDigit = false → c ≠ d := by
    rintro d hminus hdigit rfl
    simp [hminus, hdigit] at hc
  have hvalue : wordValue? (c :: t) = some (.integer n) := by
    have htrue : ((c :: t) == "true".toList) = false := by simp [hfirst 't' (by decide) (by decide)]
    have hfalse : ((c :: t) == "false".toList) = false := by simp [hfirst 'f' (by decide) (by decide)]
    simp only [wordValue?, htrue, hfalse, Bool.false_eq_true, if_false]
    rw [hinteger, Option.some_or]
  rw [scalar?_eq_word?]
  · exact result_word? hrest (List.cons_ne_nil c t) hword hvalue
  · simpa using hfirst '"' (by decide) (by decide)
  · simpa using hfirst '\'' (by decide) (by decide)

theorem result_scalar?_string (value : String) :
    result (scalar? ((writeString value).toList ++ rest)) = some (.string value, rest) := by
  have hread := result_string?_writeString value (hrest.head?_ne (c := '"') (by decide))
    (hrest.head?_ne (c := '\'') (by decide))
  obtain ⟨c, t, heq, hc⟩ := exists_writeString value
  rw [heq, List.cons_append] at hread ⊢
  rw [result_scalar?_quoted hc, hread]
  rfl

end

/-! ### Blanks -/

/-- What is left behind blanks, told without the proof that it is no longer. -/
theorem map_skipLines (s : List Char) : (skipLines s).map Subtype.val =
    ((lineBreak? (skipComment (skipSpace s)).1).map Subtype.val).elim
      (if (skipSpace s).head? == some '#' then none else some (skipSpace s))
      (fun t ↦ (skipLines t).map Subtype.val) := by
  have hspaces : (Text.Tail.dropWhile isSpace s).1 = skipSpace s := rfl
  rw [skipLines]
  generalize hbreak : lineBreak? _ = next
  have hbreak' : lineBreak? (skipComment (skipSpace s)).1 = next := hbreak
  rw [hbreak']
  cases next with
  | none =>
    simp only [hspaces]
    split <;> rfl
  | some next =>
    simp only [Option.map_map]
    rfl

/-- The characters that may stand before a value. -/
def isBlank (c : Char) : Bool := c ∈ [' ', '\t', '#', '\n', '\r']

theorem skipLines_of_head? {c : Char} (hc : isBlank c = false) (s : List Char) :
    (skipLines (c :: s)).map Subtype.val = some (c :: s) := by
  simp only [isBlank, List.mem_cons, List.not_mem_nil, or_false, decide_eq_false_iff_not, not_or] at hc
  have hskip : skipSpace (c :: s) = c :: s := List.dropWhile_cons_of_neg (by simp [isSpace, hc])
  have hcomment : (skipComment (c :: s)).1 = c :: s := by
    rw [skipComment]
    · rfl
    · intro t heq
      exact hc.2.2.1 (List.cons.inj heq).1
  have hbreak : lineBreak? (c :: s) = none := lineBreak?_eq_none (by simp [hc]) (by simp [hc])
  rw [map_skipLines, hskip, hcomment, hbreak]
  simp [hc]

theorem skipLines_space (s : List Char) :
    (skipLines (' ' :: s)).map Subtype.val = (skipLines s).map Subtype.val := by
  have hskip : skipSpace (' ' :: s) = skipSpace s := rfl
  rw [map_skipLines, map_skipLines s, hskip]

theorem skipLines_break (s : List Char) :
    (skipLines ('\n' :: s)).map Subtype.val = (skipLines s).map Subtype.val := by
  rw [map_skipLines]
  rfl

/-! ### Arrays -/

section

variable {item : Scan Value} {v : Value} {t u : List Char}

theorem mark?_eq_none {c : Char} (h : s.head? ≠ some c) : mark? c s = none := by
  unfold mark?
  split
  · exact if_neg fun hc ↦ h (by simp [hc])
  · rfl

theorem result_items?_close (hs : (skipLines s).map Subtype.val = some (']' :: rest)) :
    result (items? item s) = some ([], rest) := by
  obtain ⟨⟨_, hblank⟩, heq, rfl⟩ := Option.map_eq_some_iff.1 hs
  rw [items?, heq]
  rfl

theorem result_items?_last (hs : (skipLines s).map Subtype.val = some t) (ht : t.head? ≠ some ']')
    (hitem : result (item t) = some (v, u))
    (hu : (skipLines u).map Subtype.val = some (']' :: rest)) :
    result (items? item s) = some ([v], rest) := by
  obtain ⟨⟨_, hblank⟩, heq, rfl⟩ := Option.map_eq_some_iff.1 hs
  obtain ⟨hnext, hread⟩ := exists_of_result hitem
  obtain ⟨⟨_, hblank'⟩, heq', rfl⟩ := Option.map_eq_some_iff.1 hu
  rw [items?, heq]
  simp only [Option.bind_eq_bind, Option.bind_some, mark?_eq_none ht, hread, heq']
  rfl

theorem result_items?_comma (hs : (skipLines s).map Subtype.val = some t) (ht : t.head? ≠ some ']')
    (hitem : result (item t) = some (v, u))
    (hu : (skipLines u).map Subtype.val = some (',' :: rest)) :
    result (items? item s) = (result (items? item rest)).map fun z ↦ (v :: z.1, z.2) := by
  obtain ⟨⟨_, hblank⟩, heq, rfl⟩ := Option.map_eq_some_iff.1 hs
  obtain ⟨hnext, hread⟩ := exists_of_result hitem
  obtain ⟨⟨_, hblank'⟩, heq', rfl⟩ := Option.map_eq_some_iff.1 hu
  rw [items?, heq]
  simp only [Option.bind_eq_bind, Option.bind_some, mark?_eq_none ht, hread, heq']
  have hclose : mark? ']' (',' :: rest) = none := rfl
  have hcomma : mark? ',' (',' :: rest) = some (.first ',' rest) := rfl
  simp only [Text.Tail.andRest, Rest.andTail, hclose, hcomma, Option.bind_some, Rest.first,
    Rest.andRest]
  cases items? item rest <;> rfl

end

/-- A value that is written and read: a string, an integer of 64 bits or an array of such values, with at
most `depth` arrays inside each other. -/
inductive IsPlain : (depth : ℕ) → Value → Prop where
  | string {depth : ℕ} (value : String) : IsPlain depth (.string value)
  | integer {depth : ℕ} {value : ℤ} (h : -0x8000000000000000 ≤ value ∧ value < 0x8000000000000000) :
    IsPlain depth (.integer value)
  | array {depth : ℕ} {items : List Value} (h : ∀ v ∈ items, IsPlain depth v) :
    IsPlain (depth + 1) (.array items)

theorem toList_writeValue_array (items : List Value) : ∃ t,
    (writeValue (.array items)).toList = '[' :: (t ++ [']']) ∧
      (items = [] ∧ t = [] ∨ (∃ v, items = [v] ∧ t = (writeValue v).toList) ∨
        t = (writeItems items).toList ++ ['\n']) := by
  match items with
  | [] => exact ⟨[], rfl, .inl ⟨rfl, rfl⟩⟩
  | [v] =>
    refine ⟨(writeValue v).toList, ?_, .inr (.inl ⟨v, rfl, rfl⟩)⟩
    simp [writeValue]
  | v :: w :: items =>
    refine ⟨(writeItems (v :: w :: items)).toList ++ ['\n'], ?_, .inr (.inr rfl)⟩
    rw [writeValue] <;> simp

theorem IsPlain.exists_writeValue {depth : ℕ} {v : Value} (h : IsPlain depth v) :
    ∃ c t, (writeValue v).toList = c :: t ∧ isBlank c = false ∧ c ≠ ']' := by
  cases h with
  | string value =>
    obtain ⟨c, t, heq, hc⟩ := exists_writeString value
    refine ⟨c, t, by rw [writeValue, heq], ?_⟩
    rcases hc with rfl | rfl <;> decide
  | @integer _ n hn =>
    obtain ⟨c, t, heq, hc, -⟩ := exists_toString n
    refine ⟨c, t, by rw [writeValue, heq], ?_⟩
    have hall : ∀ d ∈ [' ', '\t', '#', '\n', '\r', ']'], ¬(d = '-' ∨ d.isDigit = true) := by decide
    have hnot : ∀ d ∈ [' ', '\t', '#', '\n', '\r', ']'], c ≠ d := by
      rintro d hd rfl
      exact hall c hd hc
    simpa [isBlank, and_assoc] using hnot
  | @array _ items _ =>
    obtain ⟨t, heq, -⟩ := toList_writeValue_array items
    exact ⟨'[', t ++ [']'], heq, by decide⟩

section

variable {depth : ℕ} {item : Scan Value} {v : Value}

theorem result_items?_writeItems {items : List Value}
    (hitem : ∀ v ∈ items, ∀ t, EndsValue t → result (item ((writeValue v).toList ++ t)) = some (v, t))
    (hitems : ∀ v ∈ items, IsPlain depth v) (rest : List Char) :
    result (items? item ((writeItems items).toList ++ '\n' :: ']' :: rest)) = some (items, rest) := by
  induction items with
  | nil =>
    apply result_items?_close
    exact (skipLines_break _).trans (skipLines_of_head? (by decide) rest)
  | cons v items ih =>
    rw [List.forall_mem_cons] at hitem hitems
    obtain ⟨c, t, heq, hblank, hclose⟩ := hitems.1.exists_writeValue
    have hread := hitem.1 _ (endsValue_cons (c := ',') (by decide)
      ((writeItems items).toList ++ '\n' :: ']' :: rest))
    have htext : (writeItems (v :: items)).toList ++ '\n' :: ']' :: rest = '\n' :: ' ' :: ' ' :: ' ' :: ' ' ::
        ((writeValue v).toList ++ ',' :: ((writeItems items).toList ++ '\n' :: ']' :: rest)) := by
      simp [writeItems]
    rw [htext, result_items?_comma _ _ hread (skipLines_of_head? (by decide) _), ih hitem.2 hitems.2]
    · rfl
    · rw [skipLines_break, skipLines_space, skipLines_space, skipLines_space, skipLines_space, heq]
      exact skipLines_of_head? hblank _
    · simpa [heq] using hclose

theorem value?_eq_scalar? (hbracket : s.head? ≠ some '[') (hbrace : s.head? ≠ some '\x7b')
    (depth : ℕ) : value? depth s = scalar? s := by
  cases depth with
  | zero => rfl
  | succ depth =>
    unfold value? valueWith
    split
    · simp at hbracket
    · simp at hbrace
    · rfl

theorem result_value?_array (s : List Char) : result (value? (depth + 1) ('[' :: s)) =
    (result (items? (value? depth) s)).map fun z ↦ (.array z.1, z.2) := by
  rw [value?, valueWith]
  cases items? _ s <;> rfl

theorem IsPlain.result_value? (h : IsPlain depth v) {rest : List Char} (hrest : EndsValue rest) :
    result (value? depth ((writeValue v).toList ++ rest)) = some (v, rest) := by
  induction h generalizing rest with
  | string value =>
    obtain ⟨c, t, heq, hc⟩ := exists_writeString value
    have hread := result_scalar?_string hrest value
    rw [writeValue]
    rw [heq] at hread ⊢
    rwa [value?_eq_scalar?]
    all_goals rcases hc with rfl | rfl <;> simp
  | @integer _ n hn =>
    obtain ⟨c, t, heq, hc, -⟩ := exists_toString n
    have hread := result_scalar?_integer hrest hn
    rw [writeValue]
    rw [heq] at hread ⊢
    rwa [value?_eq_scalar?]
    all_goals
      intro hhead
      obtain rfl := Option.some.inj hhead
      revert hc
      decide
  | @array depth items hitems ih =>
    obtain ⟨text, htext, hcases⟩ := toList_writeValue_array items
    rw [htext, List.cons_append, List.append_assoc, List.singleton_append, result_value?_array]
    rcases hcases with ⟨rfl, rfl⟩ | ⟨v, rfl, rfl⟩ | rfl
    · rw [List.nil_append, result_items?_close (skipLines_of_head? (by decide) rest)]
      rfl
    · have hread := ih v List.mem_cons_self (endsValue_cons (c := ']') (by decide) rest)
      obtain ⟨c, t, heq, hblank, hclose⟩ := (hitems v List.mem_cons_self).exists_writeValue
      rw [result_items?_last _ _ hread (skipLines_of_head? (by decide) rest)]
      · rfl
      · rw [heq]
        exact skipLines_of_head? hblank _
      · simpa [heq] using hclose
    · rw [List.append_assoc, List.singleton_append,
        result_items?_writeItems (fun v hv t ↦ ih v hv) hitems]
      rfl

end

end AgentReply.Toml
