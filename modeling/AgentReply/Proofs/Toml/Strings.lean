import AgentReply.Proofs.Text.Items
import AgentReply.Proofs.Text.Marks
import AgentReply.Toml.Scan
import AgentReply.Toml.Writer
import Mathlib.Data.List.Basic
import Mathlib.Data.List.TakeWhile

/-!
# TOML strings that are written and read

A string is written in one of five ways, and each of them is read back, whatever stands behind it that is
no further quote. The same holds of keys.
-/

namespace AgentReply.Toml

open Text (Rest)

/-- What a reader gives and what it leaves. -/
def result {α : Type} {s : List Char} (x : Option (α × Rest s)) : Option (α × List Char) :=
  x.map fun y ↦ (y.1, y.2.1)

section

variable {α β : Type} {s rest : List Char}

@[simp] theorem result_none : result (none : Option (α × Rest s)) = none := rfl

@[simp] theorem result_some (a : α) (r : Rest s) : result (some (a, r)) = some (a, r.1) := rfl

theorem exists_of_result {x : Option (α × Rest s)} {a : α} (h : result x = some (a, rest)) :
    ∃ hrest, x = some (a, ⟨rest, hrest⟩) := by
  obtain ⟨⟨b, r⟩, rfl, heq⟩ := Option.map_eq_some_iff.1 h
  cases heq
  exact ⟨r.2, rfl⟩

end

/-! ### Characters -/

theorem eq_of_isControl {c : Char} (h : isControl c = true) : c.toNat < 0x20 ∨ c.toNat = 0x7F := by
  simp only [isControl, Bool.or_eq_true, Bool.and_eq_true, decide_eq_true_eq, beq_iff_eq] at h
  exact h.imp And.left id

theorem escaped?_hex {n : ℕ} (hn : n < 0x80) (s : List Char) :
    result (escaped? ('u' :: '0' :: '0' :: "0123456789ABCDEF".toList.getD (n / 16) '0' ::
      "0123456789ABCDEF".toList.getD (n % 16) '0' :: s)) = some (Char.ofNat n, s) := by
  have hpoint : ∀ n < 0x80, codePoint? ['0', '0', "0123456789ABCDEF".toList.getD (n / 16) '0',
      "0123456789ABCDEF".toList.getD (n % 16) '0'] = some (Char.ofNat n) := by decide +kernel
  rw [escaped?, if_neg (by simp)]
  simp only [List.take_succ_cons, List.take_zero, hpoint n hn, Option.map_some, result_some]
  rfl

/-- A character stands for itself, or an escape is read back as the character. -/
theorem escapeChar_eq (c : Char) :
    (escapeChar c = [c] ∧ c ≠ '"' ∧ c ≠ '\\' ∧ isControl c = false) ∨
      ∃ d e, escapeChar c = '\\' :: d :: e ∧ isFolded d = false ∧
        ∀ s, result (escaped? (d :: (e ++ s))) = some (c, s) := by
  fun_cases escapeChar c
  case case8 hcontrol =>
    right
    refine ⟨_, _, rfl, rfl, fun s ↦ ?_⟩
    have hn : c.toNat < 0x80 := by
      simp only [Bool.or_eq_true, decide_eq_true_eq, beq_iff_eq] at hcontrol
      omega
    have hread := escaped?_hex hn s
    rwa [Char.ofNat_toNat] at hread
  case case9 _ _ _ _ _ hquote hslash hcontrol =>
    left
    refine ⟨rfl, hquote, hslash, ?_⟩
    rw [← Bool.not_eq_true]
    intro h
    simp only [Bool.or_eq_true, decide_eq_true_eq, beq_iff_eq] at hcontrol
    exact hcontrol (eq_of_isControl h)
  all_goals exact .inr ⟨_, _, rfl, rfl, fun s ↦ rfl⟩

/-! ### Strings on one line -/

theorem result_basicString?_escape {s s' : List Char} {c : Char}
    (h : result (escaped? s) = some (c, s')) : result (basicString? ('\\' :: s)) =
      (result (basicString? s')).map fun z ↦ (c :: z.1, z.2) := by
  obtain ⟨hrest, he⟩ := exists_of_result h
  rw [basicString?]
  simp only [he, Option.bind_eq_bind, Option.bind_some]
  cases basicString? s' <;> rfl

theorem result_basicString?_plain {c : Char} (hquote : c ≠ '"') (hslash : c ≠ '\\')
    (hcontrol : isControl c = false) (s : List Char) : result (basicString? (c :: s)) =
      (result (basicString? s)).map fun z ↦ (c :: z.1, z.2) := by
  rw [basicString?]
  · simp only [hcontrol, Bool.false_eq_true, if_false]
    cases basicString? s <;> rfl
  · exact hquote
  · exact hslash

theorem result_basicString? (s rest : List Char) :
    result (basicString? (s.flatMap escapeChar ++ '"' :: rest)) = some (s, rest) := by
  induction s with
  | nil =>
    rw [List.flatMap_nil, List.nil_append, basicString?]
    rfl
  | cons c s ih =>
    rw [List.flatMap_cons, List.append_assoc]
    rcases escapeChar_eq c with ⟨heq, hquote, hslash, hcontrol⟩ | ⟨d, e, heq, -, hread⟩
    · rw [heq, List.singleton_append, result_basicString?_plain hquote hslash hcontrol, ih]
      rfl
    · rw [heq, List.cons_append, List.cons_append, result_basicString?_escape (hread _), ih]
      rfl

theorem result_literalString? {s : List Char} (h : ∀ c ∈ s, c ≠ '\'' ∧ isControl c = false)
    (rest : List Char) : result (literalString? (s ++ '\'' :: rest)) = some (s, rest) := by
  induction s with
  | nil => rfl
  | cons c s ih =>
    rw [List.forall_mem_cons] at h
    obtain ⟨hrest, hread⟩ := exists_of_result (ih h.2)
    rw [List.cons_append, literalString?]
    · simp [h.1.2, hread]
      rfl
    · exact h.1.1

/-! ### Strings over several lines -/

theorem takeWhile_replicate_append {mark : Char} {rest : List Char} (h : rest.head? ≠ some mark)
    (k : ℕ) : (List.replicate k mark ++ rest).takeWhile (· == mark) = List.replicate k mark := by
  apply Text.takeWhile_append_of_head? (by simp)
  cases rest with
  | nil => rfl
  | cons c rest => simpa using h

/-- The last quotes end a string; up to two before them belong to it. -/
theorem result_longString?_quotes {mark : Char} {rest : List Char} {k : ℕ} (hk : k ≤ 2)
    (h : rest.head? ≠ some mark) :
    result (longString? mark (List.replicate k mark ++ mark :: mark :: mark :: rest)) =
      some (List.replicate k mark, rest) := by
  have hsplit : List.replicate k mark ++ mark :: mark :: mark :: rest =
      mark :: (List.replicate (k + 2) mark ++ rest) := by
    rw [← List.cons_append, ← List.replicate_succ, List.replicate_add k 3, List.append_assoc]
    rfl
  have hcount : quoteCount mark (mark :: (List.replicate (k + 2) mark ++ rest)) = k + 3 := by
    rw [quoteCount, ← List.cons_append, ← List.replicate_succ, takeWhile_replicate_append h,
      List.length_replicate]
  rw [hsplit, longString?, if_pos (beq_self_eq_true mark)]
  simp only [hcount]
  rw [if_neg (by omega), if_pos (by omega), result_some]
  simp [Rest.first, Rest.andTail, Text.Tail.drop]

theorem lineBreak?_eq_none {s : List Char} (hbreak : s.head? ≠ some '\n')
    (hreturn : s.head? ≠ some '\r') : lineBreak? s = none := by
  unfold lineBreak?
  split
  · simp at hbreak
  · simp at hreturn
  · rfl

theorem result_longString?_plain {mark c : Char} (hmark : c ≠ mark) (hslash : c ≠ '\\' ∨ mark ≠ '"')
    (hcontrol : c = '\n' ∨ isControl c = false) (s : List Char) :
    result (longString? mark (c :: s)) = (result (longString? mark s)).map fun z ↦ (c :: z.1, z.2) := by
  have hslash' : ¬(c == '\\' && mark == '"') = true := by
    simp only [Bool.and_eq_true, beq_iff_eq, not_and_or]
    exact hslash
  rw [longString?, if_neg (by simpa using hmark), if_neg hslash']
  by_cases hbreak : c = '\n'
  · subst hbreak
    simp only [lineBreak?, Rest.first]
    cases longString? mark s <;> rfl
  · have hplain := hcontrol.resolve_left hbreak
    have hreturn : c ≠ '\r' := by
      rintro rfl
      exact absurd hplain (by decide)
    have hnone : lineBreak? (c :: s) = none :=
      lineBreak?_eq_none (by simpa using hbreak) (by simpa using hreturn)
    simp only [hnone, hplain, Bool.false_eq_true, if_false]
    cases longString? mark s <;> rfl

theorem result_longString?_escape {s s' : List Char} {c d : Char} (hd : isFolded d = false)
    (h : result (escaped? (d :: s)) = some (c, s')) : result (longString? '"' ('\\' :: d :: s)) =
      (result (longString? '"' s')).map fun z ↦ (c :: z.1, z.2) := by
  obtain ⟨hrest, he⟩ := exists_of_result h
  simp only [isFolded, Bool.or_eq_false_iff, beq_eq_false_iff_ne] at hd
  have hskip : skipSpace (d :: s) = d :: s := List.dropWhile_cons_of_neg (by simp [hd.1.1])
  rw [longString?, if_neg (by decide), if_pos (by decide), hskip]
  split
  · next heq => exact absurd (List.cons.inj heq).1 hd.1.2
  · next heq => exact absurd (List.cons.inj heq).1 hd.2
  · simp only [he, Option.bind_eq_bind, Option.bind_some]
    cases longString? '"' s' <;> rfl

theorem result_longString?_escaped (s : List Char) {rest : List Char} (hrest : rest.head? ≠ some '"') :
    result (longString? '"' ((s.flatMap fun c ↦ if c == '\n' then [c] else escapeChar c) ++
      '"' :: '"' :: '"' :: rest)) = some (s, rest) := by
  induction s with
  | nil => exact result_longString?_quotes (k := 0) (by omega) hrest
  | cons c s ih =>
    rw [List.flatMap_cons, List.append_assoc]
    by_cases hbreak : c = '\n'
    · rw [if_pos (by simpa using hbreak), List.singleton_append,
        result_longString?_plain (by simp [hbreak]) (.inl (by simp [hbreak])) (.inl hbreak), ih]
      rfl
    · rw [if_neg (by simpa using hbreak)]
      rcases escapeChar_eq c with ⟨heq, hquote, hslash, hcontrol⟩ | ⟨d, e, heq, hd, hread⟩
      · rw [heq, List.singleton_append,
          result_longString?_plain hquote (.inl hslash) (.inr hcontrol), ih]
        rfl
      · rw [heq, List.cons_append, List.cons_append, result_longString?_escape hd (hread _), ih]
        rfl

/-! ### Strings without escapes -/

theorem quoteCount_le_longestApostrophes (run : ℕ) (s : List Char) :
    run + quoteCount '\'' s ≤ longestApostrophes run s := by
  induction s generalizing run with
  | nil => exact Nat.le_refl _
  | cons c s ih =>
    rw [longestApostrophes, quoteCount]
    split
    · next hc =>
      rw [List.takeWhile_cons_of_pos (p := (· == '\'')) hc, List.length_cons]
      have := ih (run + 1)
      rw [quoteCount] at this
      omega
    · next hc =>
      rw [List.takeWhile_cons_of_neg (p := (· == '\'')) hc, List.length_nil]
      omega

theorem longestApostrophes_mono {run run' : ℕ} (h : run ≤ run') (s : List Char) :
    longestApostrophes run s ≤ longestApostrophes run' s := by
  induction s generalizing run run' with
  | nil => exact h
  | cons c s ih =>
    rw [longestApostrophes, longestApostrophes]
    split
    · exact ih (Nat.succ_le_succ h)
    · omega

theorem longestApostrophes_le_cons (c : Char) (s : List Char) :
    longestApostrophes 0 s ≤ longestApostrophes 0 (c :: s) := by
  rw [longestApostrophes]
  split
  · exact longestApostrophes_mono (Nat.zero_le _) s
  · exact Nat.le_max_right ..

theorem result_longString?_apostrophe {s : List Char} (h : quoteCount '\'' ('\'' :: s) < 3) :
    result (longString? '\'' ('\'' :: s)) =
      (result (longString? '\'' s)).map fun z ↦ ('\'' :: z.1, z.2) := by
  rw [longString?, if_pos (by decide)]
  simp only []
  rw [if_neg (by omega), if_neg (by omega)]
  cases longString? '\'' s <;> rfl

/-- A text whose runs of apostrophes are short stands between longer ones as it is. -/
theorem result_longString?_literal {s : List Char} (hrun : longestApostrophes 0 s < 3)
    (hcontrol : ∀ c ∈ s, c = '\n' ∨ isControl c = false) {rest : List Char}
    (hrest : rest.head? ≠ some '\'') :
    result (longString? '\'' (s ++ '\'' :: '\'' :: '\'' :: rest)) = some (s, rest) := by
  induction s with
  | nil => exact result_longString?_quotes (k := 0) (by omega) hrest
  | cons c s ih =>
    have hcount : quoteCount '\'' (c :: s) < 3 := by
      have := quoteCount_le_longestApostrophes 0 (c :: s)
      omega
    by_cases hall : ∀ d ∈ c :: s, d = '\''
    · -- the quotes at the end and those that close the string make one run
      rw [List.eq_replicate_of_mem hall] at hcount ⊢
      apply result_longString?_quotes _ hrest
      rw [quoteCount, List.takeWhile_replicate] at hcount
      simpa using Nat.le_of_lt_succ hcount
    · have hrun' := Nat.lt_of_le_of_lt (longestApostrophes_le_cons c s) hrun
      have hread := ih hrun' fun d hd ↦ hcontrol d (List.mem_cons_of_mem _ hd)
      rw [List.cons_append]
      by_cases hc : c = '\''
      · subst hc
        rw [result_longString?_apostrophe, hread]
        · rfl
        · rw [quoteCount, ← List.cons_append, List.takeWhile_append, if_neg]
          · exact hcount
          · intro hlength
            apply hall
            have := List.takeWhile_eq_self_iff.1 ((List.takeWhile_prefix _).eq_of_length hlength)
            simpa using this
      · rw [result_longString?_plain hc (.inr (by decide)) (hcontrol c List.mem_cons_self), hread]
        rfl

/-! ### Written strings -/

theorem result_string?_long {mark : Char} (hmark : mark = '"' ∨ mark = '\'') (s : List Char) :
    result (string? (mark :: mark :: mark :: s)) =
      (result (longString? mark (dropFirstBreak s).1)).map fun z ↦ (String.ofList z.1, z.2) := by
  rcases hmark with rfl | rfl
  all_goals
    simp only [string?]
    cases longString? _ (dropFirstBreak s).1 <;> rfl

theorem result_string?_basic {s : List Char} (h : ∀ rest, s ≠ '"' :: '"' :: rest) :
    result (string? ('"' :: s)) =
      (result (basicString? s)).map fun z ↦ (String.ofList z.1, z.2) := by
  rw [string?]
  · cases basicString? s <;> rfl
  · exact h

theorem result_string?_literal {s : List Char} (h : ∀ rest, s ≠ '\'' :: '\'' :: rest) :
    result (string? ('\'' :: s)) =
      (result (literalString? s)).map fun z ↦ (String.ofList z.1, z.2) := by
  rw [string?]
  · cases literalString? s <;> rfl
  · exact h

theorem dropFirstBreak_of_head? {s : List Char} (hbreak : s.head? ≠ some '\n')
    (hreturn : s.head? ≠ some '\r') : (dropFirstBreak s).1 = s := by
  rw [dropFirstBreak, lineBreak?_eq_none hbreak hreturn]
  rfl

theorem head?_escapeChar_ne (c : Char) : (escapeChar c).head? ≠ some '"' := by
  rcases escapeChar_eq c with ⟨heq, hquote, -⟩ | ⟨d, e, heq, -⟩
  · simpa [heq] using hquote
  · simp [heq]

/-- A text between double quotes does not begin like one between three of them. -/
theorem escaped_append_ne {s rest : List Char} (h : rest.head? ≠ some '"') (t : List Char) :
    s.flatMap escapeChar ++ '"' :: rest ≠ '"' :: '"' :: t := by
  intro heq
  cases s with
  | nil =>
    rw [List.flatMap_nil, List.nil_append, List.cons.injEq] at heq
    simp [heq.2] at h
  | cons c s =>
    have hhead := congrArg List.head? heq
    have hne : escapeChar c ≠ [] := by
      rcases escapeChar_eq c with ⟨heq, -⟩ | ⟨d, e, heq, -⟩ <;> simp [heq]
    rw [List.flatMap_cons, List.append_assoc, List.head?_append_of_ne_nil _ hne] at hhead
    exact head?_escapeChar_ne c hhead

section

variable {s rest : List Char}

theorem isLiteral_iff : isLiteral s = true ↔ (∃ c ∈ s, c = '"' ∨ c = '\\') ∧
    (∀ c ∈ s, c = '\n' ∨ isControl c = false) ∧ longestApostrophes 0 s < 3 := by
  simp [isLiteral, and_assoc]

theorem dropFirstBreak_append (hne : s ≠ []) (h : ∀ c ∈ s, isControl c = false) (t : List Char) :
    (dropFirstBreak (s ++ t)).1 = s ++ t := by
  have hhead : ∀ c, isControl c = true → (s ++ t).head? ≠ some c := by
    intro c hc heq
    rw [List.head?_append_of_ne_nil _ hne] at heq
    rw [h c (List.mem_of_head? heq)] at hc
    cases hc
  exact dropFirstBreak_of_head? (hhead _ (by decide)) (hhead _ (by decide))

theorem literal_append_ne (hne : s ≠ []) (h : ∀ c ∈ s, c ≠ '\'') (t u : List Char) :
    s ++ t ≠ '\'' :: u := by
  intro heq
  have hhead := congrArg List.head? heq
  rw [List.head?_append_of_ne_nil _ hne] at hhead
  exact h _ (List.mem_of_head? hhead) rfl

/-- A written string is read back, unless a further quote stands behind it. -/
theorem result_string?_writeString (value : String) (hquote : rest.head? ≠ some '"')
    (hapostrophe : rest.head? ≠ some '\'') :
    result (string? ((writeString value).toList ++ rest)) = some (value, rest) := by
  generalize htext : (writeString value).toList = text
  have hvalue : ∀ {x : Option (List Char × List Char)}, x = some (value.toList, rest) →
      x.map (fun z ↦ (String.ofList z.1, z.2)) = some (value, rest) := by
    rintro x rfl
    rw [Option.map_some, String.ofList_toList]
  unfold writeString at htext
  dsimp only at htext
  split at htext
  · next hliteral =>
    obtain ⟨⟨c, hc, -⟩, hcontrol, hrun⟩ := isLiteral_iff.1 hliteral
    have hne : value.toList ≠ [] := List.ne_nil_of_mem hc
    have hlong := result_longString?_literal hrun hcontrol hapostrophe
    split at htext
    · rw [← htext, String.toList_ofList, List.append_assoc, List.append_assoc]
      exact (result_string?_long (.inr rfl) _).trans (hvalue hlong)
    · next hbreak =>
      have hplain : ∀ c ∈ value.toList, isControl c = false := by
        intro c hc
        refine (hcontrol c hc).resolve_left ?_
        rintro rfl
        simp [hc] at hbreak
      split at htext
      · rw [← htext, String.toList_ofList, List.append_assoc, List.append_assoc]
        refine (result_string?_long (.inr rfl) _).trans (hvalue ?_)
        have hdrop := dropFirstBreak_append hne hplain ("'''".toList ++ rest)
        exact (congrArg (fun t ↦ result (longString? '\'' t)) hdrop).trans hlong
      · next hcontains =>
        have hfree : ∀ c ∈ value.toList, c ≠ '\'' := by
          rintro c hc rfl
          simp [hc] at hcontains
        rw [← htext, String.toList_ofList, List.cons_append, List.cons_append, List.append_assoc,
          result_string?_literal fun t ↦ literal_append_ne hne hfree _ _]
        exact hvalue (result_literalString? (fun c hc ↦ ⟨hfree c hc, hplain c hc⟩) rest)
  · split at htext
    · rw [← htext, String.toList_ofList, List.append_assoc, List.append_assoc]
      exact (result_string?_long (.inl rfl) _).trans
        (hvalue (result_longString?_escaped value.toList hquote))
    · rw [← htext, String.toList_ofList, List.cons_append, List.cons_append, List.append_assoc,
        List.singleton_append, result_string?_basic (escaped_append_ne hquote)]
      exact hvalue (result_basicString? value.toList rest)

/-! ### Written keys -/

theorem result_simpleKey?_basic (s : List Char) : result (simpleKey? ('"' :: s)) =
    (result (basicString? s)).map fun z ↦ (String.ofList z.1, z.2) := by
  rw [simpleKey?]
  cases basicString? s <;> rfl

theorem result_simpleKey?_literal (s : List Char) : result (simpleKey? ('\'' :: s)) =
    (result (literalString? s)).map fun z ↦ (String.ofList z.1, z.2) := by
  rw [simpleKey?]
  cases literalString? s <;> rfl

theorem result_simpleKey?_bare (hne : s ≠ []) (h : ∀ c ∈ s, isBareChar c = true)
    (hrest : rest.head?.all (!isBareChar ·) = true) :
    result (simpleKey? (s ++ rest)) = some (String.ofList s, rest) := by
  have htake := Text.takeWhile_append_of_head? h hrest
  have hdrop := Text.dropWhile_append_of_head? h hrest
  obtain ⟨c, t, rfl⟩ := List.exists_cons_of_ne_nil hne
  have hc := h c List.mem_cons_self
  rw [simpleKey?]
  · split
    · next hempty => simp [hc] at hempty
    · simp only [htake, hdrop, result_some]
  all_goals
    rintro u heq
    obtain rfl := (List.cons.inj heq).1
    revert hc
    decide

theorem result_simpleKey?_writeKey (key : String) (rest : List Char)
    (hrest : rest.head?.all (!isBareChar ·) = true) :
    result (simpleKey? ((writeKey key).toList ++ rest)) = some (key, rest) := by
  generalize htext : (writeKey key).toList = text
  have hkey : ∀ {x : Option (List Char × List Char)}, x = some (key.toList, rest) →
      x.map (fun z ↦ (String.ofList z.1, z.2)) = some (key, rest) := by
    rintro x rfl
    rw [Option.map_some, String.ofList_toList]
  unfold writeKey at htext
  dsimp only at htext
  split at htext
  · next hbare =>
    simp only [Bool.and_eq_true, Bool.not_eq_true', List.isEmpty_eq_false_iff, List.all_eq_true] at hbare
    rw [← htext, result_simpleKey?_bare hbare.1 hbare.2 hrest, String.ofList_toList]
  · split at htext
    · next hliteral =>
      simp only [Bool.and_eq_true, List.all_eq_true, bne_iff_ne, Bool.not_eq_true'] at hliteral
      rw [← htext, String.toList_ofList, List.cons_append, List.cons_append, List.append_assoc,
        result_simpleKey?_literal]
      exact hkey (result_literalString? hliteral.2 rest)
    · rw [← htext, String.toList_ofList, List.cons_append, List.cons_append, List.append_assoc,
        result_simpleKey?_basic]
      exact hkey (result_basicString? key.toList rest)

end

end AgentReply.Toml
