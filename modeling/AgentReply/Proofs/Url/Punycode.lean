import AgentReply.Url.Punycode
import Mathlib.Data.List.Basic
import Mathlib.Data.List.Sort
import Mathlib.Data.Nat.Init
import Mathlib.Tactic.Ring

/-!
# Punycode is read back

The encoder passes the label once for each code point, and the decoder puts in the characters in the same
order. While both are at a place in the label, the decoder has the characters of smaller code points, and
those of the code point at hand up to that place. The difference that the encoder has counted so far is
the way from the decoder's last character to this place.
-/

namespace AgentReply.Url.Punycode

/-! ### Digits -/

theorem digitValue?_digitChar {d : ℕ} (h : d < 36) : digitValue? (digitChar d) = some d := by
  have hall : ∀ d < 36, digitValue? (digitChar d) = some d := by decide
  exact hall d h

theorem div_mod_lt {n t : ℕ} (ht : 1 ≤ t ∧ t ≤ 26) (hge : ¬n < t) :
    (n - t) % (36 - t) < 36 - t ∧ (n - t) / (36 - t) < n := by
  refine ⟨Nat.mod_lt _ (by omega), ?_⟩
  calc (n - t) / (36 - t) ≤ n - t := Nat.div_le_self _ _
    _ < n := by omega

theorem difference_digits (bias weight factor value n : ℕ) (rest : List Char) :
    difference bias weight factor value (digits bias weight n ++ rest) =
      some (value + n * factor, rest) := by
  induction n using Nat.strong_induction_on generalizing weight factor value with
  | _ n ih =>
    have hmem := threshold_mem weight bias
    rw [digits]
    generalize hthreshold : threshold weight bias = t at hmem
    split
    · next hlt =>
      simp [difference, digitValue?_digitChar (show n < 36 by omega), hthreshold, hlt]
    · next hge =>
      obtain ⟨hmod, hdiv⟩ := div_mod_lt hmem hge
      have hsum : t + (n - t) % (36 - t) + (n - t) / (36 - t) * (36 - t) = n := by
        have := Nat.mod_add_div' (n - t) (36 - t)
        omega
      have hdigit : digitValue? (digitChar (t + (n - t) % (36 - t))) =
          some (t + (n - t) % (36 - t)) :=
        digitValue?_digitChar (by omega)
      have hlarge : ¬t + (n - t) % (36 - t) < t := by omega
      simp only [List.cons_append, difference, hdigit, hthreshold, hlarge, Option.bind_eq_bind,
        Option.bind_some, if_false]
      rw [ih _ hdiv]
      congr 2
      calc value + (t + (n - t) % (36 - t)) * factor + (n - t) / (36 - t) * (factor * (36 - t))
          = value + (t + (n - t) % (36 - t) + (n - t) / (36 - t) * (36 - t)) * factor := by ring
        _ = value + n * factor := by rw [hsum]

theorem mem_digits {bias weight n : ℕ} {c : Char} (h : c ∈ digits bias weight n) :
    ∃ d < 36, c = digitChar d := by
  induction n using Nat.strong_induction_on generalizing weight with
  | _ n ih =>
    have hmem := threshold_mem weight bias
    rw [digits] at h
    generalize threshold weight bias = t at hmem h
    split at h
    · next hlt => exact ⟨n, by omega, List.mem_singleton.1 h⟩
    · next hge =>
      obtain ⟨hmod, hdiv⟩ := div_mod_lt hmem hge
      rcases List.mem_cons.1 h with rfl | h
      · exact ⟨_, by omega, rfl⟩
      · exact ih _ hdiv h

theorem digitChar_ne {d : ℕ} (h : d < 36) : digitChar d ≠ '-' ∧ isBasic (digitChar d) = true := by
  have hall : ∀ d < 36, digitChar d ≠ '-' ∧ isBasic (digitChar d) = true := by decide
  exact hall d h

theorem digits_ne_nil (bias weight n : ℕ) : digits bias weight n ≠ [] := by
  rw [digits]
  split <;> simp

/-! ### Code points in order -/

theorem eraseReps_loop {a : ℕ} {as : List ℕ} (h : (a :: as).Pairwise (· ≤ ·)) (acc : List ℕ) :
    ∃ out, List.eraseRepsBy.loop (· == ·) a as acc = acc.reverse ++ out ∧ out.Pairwise (· < ·) ∧
      ∀ x, x ∈ out ↔ x ∈ a :: as := by
  induction as generalizing a acc with
  | nil => exact ⟨[a], by simp [List.eraseRepsBy.loop], by simp, by simp⟩
  | cons b as ih =>
    have htail := List.pairwise_cons.1 h
    by_cases hab : a = b
    · subst hab
      obtain ⟨out, hout, hsorted, hmem⟩ := ih htail.2 acc
      exact ⟨out, by simp [List.eraseRepsBy.loop, hout], hsorted, by simp [hmem]⟩
    · obtain ⟨out, hout, hsorted, hmem⟩ := ih htail.2 (a :: acc)
      have hbeq : (a == b) = false := by simpa using hab
      refine ⟨a :: out, by simp [List.eraseRepsBy.loop, hbeq, hout], ?_, by simp [hmem]⟩
      refine List.pairwise_cons.2 ⟨fun x hx ↦ ?_, hsorted⟩
      have hb := htail.1 b List.mem_cons_self
      rcases List.mem_cons.1 ((hmem x).1 hx) with rfl | hx
      · omega
      · have := (List.pairwise_cons.1 htail.2).1 x hx
        omega

theorem eraseReps_mergeSort (l : List ℕ) : (l.mergeSort.eraseReps).Pairwise (· < ·) ∧
    ∀ x, x ∈ l.mergeSort.eraseReps ↔ x ∈ l := by
  have hsorted : l.mergeSort.Pairwise (· ≤ ·) := by
    have hle : l.mergeSort.Pairwise fun a b ↦ decide (a ≤ b) = true :=
      List.pairwise_mergeSort (by simp; omega) (by simp; omega) l
    simpa using hle
  have hmem : ∀ x, x ∈ l.mergeSort ↔ x ∈ l := fun x ↦ List.mem_mergeSort
  cases hs : l.mergeSort with
  | nil =>
    rw [hs] at hmem
    exact ⟨List.Pairwise.nil, hmem⟩
  | cons a as =>
    rw [hs] at hsorted hmem
    obtain ⟨out, hout, hpairwise, hout'⟩ := eraseReps_loop hsorted []
    have heq : (a :: as).eraseReps = out := hout
    rw [heq]
    exact ⟨hpairwise, fun x ↦ (hout' x).trans (hmem x)⟩

/-! ### Encoder and decoder side by side -/

theorem insertIdx_length_append {α : Type} (xs ys : List α) (a : α) :
    (xs ++ ys).insertIdx xs.length a = xs ++ a :: ys := by
  induction xs with
  | nil => rfl
  | cons x xs ih => rw [List.cons_append, List.length_cons, List.insertIdx_succ_cons, ih, List.cons_append]

/-- The characters that are done when the encoder is between `u` and `v` and writes the code point
`code`. -/
def partialLabel (code : ℕ) (u v : List Char) : List Char :=
  u.filter (fun c ↦ decide (c.toNat ≤ code)) ++ v.filter fun c ↦ decide (c.toNat < code)

/-- Where the decoder stands: the last code point that it put in, and the place behind it. -/
structure Place where
  code : ℕ
  place : ℕ
  isFirst : Bool

/-- The encoder has counted the way from where the decoder stands to the place between `u` and `v`. -/
structure IsAt (basic code : ℕ) (u v : List Char) (st : State) (p : Place) : Prop where
  done : st.done = (partialLabel code u v).length
  delta : st.delta + p.place + p.code * (st.done + 1) =
    code * (st.done + 1) + (u.filter fun c ↦ decide (c.toNat ≤ code)).length
  first : p.isFirst = (st.done == basic)
  basic_le : basic ≤ st.done

/-- Every text that the decoder reads on from one state, it reads from the other behind `written`. -/
def Reads (label : List Char) (p : Place) (bias : ℕ) (written : List Char) (label' : List Char)
    (p' : Place) (bias' : ℕ) : Prop :=
  ∀ t, insertCodes label p.code p.place bias p.isFirst (written ++ t) =
    insertCodes label' p'.code p'.place bias' p'.isFirst t

theorem mod_and_div_of_add_mul {m n a q r : ℕ} (hr : r < m) (h : n + a * m = r + q * m) :
    n % m = r ∧ a + n / m = q := by
  have hpos : 0 < m := Nat.zero_lt_of_lt hr
  constructor
  · have hmod := congrArg (· % m) h
    simpa [Nat.mod_eq_of_lt hr] using hmod
  · have hdiv := congrArg (· / m) h
    simp only [Nat.add_mul_div_right _ _ hpos, Nat.div_eq_of_lt hr, Nat.zero_add] at hdiv
    rw [Nat.add_comm, hdiv]

theorem insertCodes_of_difference {label s rest : List Char} {code place bias n : ℕ} {isFirst : Bool}
    {c : Char} (hs : s ≠ []) (h : difference bias 36 1 0 s = some (n, rest))
    (hcode : code + (place + n) / (label.length + 1) = c.toNat) :
    insertCodes label code place bias isFirst s =
      insertCodes (label.insertIdx ((place + n) % (label.length + 1)) c) c.toNat
        ((place + n) % (label.length + 1) + 1) (adapt n (label.length + 1) isFirst) false rest := by
  have hvalid : (decide (c.toNat < 0xD800) || decide (0xDFFF < c.toNat) && decide (c.toNat < 0x110000)) =
      true := by
    have := c.valid
    simp only [UInt32.isValidChar, Nat.isValidChar] at this
    simpa using this
  rw [insertCodes, if_neg (by simpa using hs)]
  split
  · next hnone => simp [h] at hnone
  · next n' rest' hsome =>
    rw [h] at hsome
    obtain ⟨rfl, rfl⟩ := Prod.mk.inj (Option.some.inj hsome)
    simp only [hcode, hvalid, if_true, Char.ofNat_toNat]

section

variable {basic code : ℕ} {u v : List Char} {st : State} {p : Place} {c : Char}

theorem partialLabel_of_ne (h : c.toNat ≠ code) (u v : List Char) :
    partialLabel code (u ++ [c]) v = partialLabel code u (c :: v) := by
  rcases h.lt_or_gt with hlt | hgt
  · simp [partialLabel, hlt, hlt.le]
  · simp [partialLabel, hgt, hgt.le]

/-- Over a character of another code point the encoder writes nothing, and counts the place behind it
if the decoder has it already. -/
theorem IsAt.pass_of_ne (h : IsAt basic code u (c :: v) st p) (hc : c.toNat ≠ code) :
    (pass basic code st c).written = st.written ∧ (pass basic code st c).bias = st.bias ∧
      IsAt basic code (u ++ [c]) v (pass basic code st c) p := by
  have hlabel := partialLabel_of_ne hc u v
  obtain ⟨hdone, hdelta, hfirst, hbasic⟩ := h
  rcases hc.lt_or_gt with hlt | hgt
  · rw [pass, if_pos hlt]
    refine ⟨rfl, rfl, by rw [hlabel, ← hdone], ?_, hfirst, hbasic⟩
    simp [hlt.le]
    omega
  · rw [pass, if_neg (by omega), if_neg (by simp; omega)]
    refine ⟨rfl, rfl, by rw [hlabel, ← hdone], ?_, hfirst, hbasic⟩
    simp [hgt]
    omega

/-- Over a character of the code point at hand the encoder writes the way to it, and the decoder puts
it in at the end of that way. -/
theorem IsAt.pass_self (h : IsAt basic c.toNat u (c :: v) st p) :
    ∃ p', Reads (partialLabel c.toNat u (c :: v)) p st.bias (digits st.bias 36 st.delta)
        (partialLabel c.toNat (u ++ [c]) v) p' (pass basic c.toNat st c).bias ∧
      IsAt basic c.toNat (u ++ [c]) v (pass basic c.toNat st c) p' := by
  obtain ⟨hdone, hdelta, hfirst, hbasic⟩ := h
  generalize hu : (u.filter fun d ↦ decide (d.toNat ≤ c.toNat)) = head at hdelta
  have hlabel : partialLabel c.toNat u (c :: v) =
      head ++ v.filter fun d ↦ decide (d.toNat < c.toNat) := by
    simp [partialLabel, hu]
  have hlabel' : partialLabel c.toNat (u ++ [c]) v =
      head ++ c :: v.filter fun d ↦ decide (d.toNat < c.toNat) := by
    simp [partialLabel, hu]
  have hlt : head.length < st.done + 1 := by
    rw [hdone, hlabel, List.length_append]
    omega
  obtain ⟨hplace, hcode⟩ := mod_and_div_of_add_mul (n := p.place + st.delta) hlt
    (show p.place + st.delta + p.code * (st.done + 1) = head.length + c.toNat * (st.done + 1) by omega)
  rw [pass, if_neg (lt_irrefl _), if_pos (by simp)]
  refine ⟨⟨c.toNat, head.length + 1, false⟩, fun t ↦ ?_, ⟨?_, ?_, ?_, ?_⟩⟩
  · have hread := difference_digits st.bias 36 1 0 st.delta t
    rw [Nat.zero_add, Nat.mul_one] at hread
    rw [hdone] at hplace hcode
    rw [insertCodes_of_difference (by simp [digits_ne_nil]) hread hcode, hplace, hlabel, hlabel',
      insertIdx_length_append, ← hlabel, ← hdone, hfirst]
  · simp [hlabel', hdone, hlabel]
    omega
  · simp [hu]
    ring
  · simp
    omega
  · exact Nat.le_succ_of_le hbasic

theorem isAt_pass (h : IsAt basic code u (c :: v) st p) :
    ∃ written p', (pass basic code st c).written = st.written ++ written ∧
      Reads (partialLabel code u (c :: v)) p st.bias written (partialLabel code (u ++ [c]) v) p'
        (pass basic code st c).bias ∧
      IsAt basic code (u ++ [c]) v (pass basic code st c) p' := by
  by_cases hc : c.toNat = code
  · subst hc
    obtain ⟨p', hread, hat⟩ := h.pass_self
    refine ⟨_, p', ?_, hread, hat⟩
    rw [pass, if_neg (lt_irrefl _), if_pos (by simp)]
  · obtain ⟨hwritten, hbias, hat⟩ := h.pass_of_ne hc
    refine ⟨[], p, by rw [hwritten, List.append_nil], fun t ↦ ?_, hat⟩
    rw [hbias, partialLabel_of_ne hc]
    rfl

theorem isAt_foldl (h : IsAt basic code u v st p) :
    ∃ written p', (v.foldl (pass basic code) st).written = st.written ++ written ∧
      Reads (partialLabel code u v) p st.bias written (partialLabel code (u ++ v) []) p'
        (v.foldl (pass basic code) st).bias ∧
      IsAt basic code (u ++ v) [] (v.foldl (pass basic code) st) p' := by
  induction v generalizing u st p with
  | nil => exact ⟨[], p, by simp, fun t ↦ by simp, by simpa using h⟩
  | cons c v ih =>
    obtain ⟨first, p₁, hfirst, hread, hat⟩ := isAt_pass h
    obtain ⟨more, p₂, hmore, hread', hat'⟩ := ih hat
    rw [List.append_assoc, List.singleton_append] at hread' hat'
    refine ⟨first ++ more, p₂, ?_, fun t ↦ ?_, hat'⟩
    · rw [List.foldl_cons, hmore, hfirst, List.append_assoc]
    · rw [List.append_assoc, hread, hread']
      rfl

/-- Between two code points the encoder only counts. -/
theorem IsAt.skip (h : IsAt basic code [] v st p) {code' : ℕ} (hle : code ≤ code')
    (hnone : ∀ c ∈ v, c.toNat < code ∨ code' ≤ c.toNat) :
    partialLabel code' [] v = partialLabel code [] v ∧
      IsAt basic code' [] v { st with delta := st.delta + (code' - code) * (st.done + 1) } p := by
  have hlabel : partialLabel code' [] v = partialLabel code [] v := by
    simp only [partialLabel, List.filter_nil, List.nil_append]
    apply List.filter_congr
    intro c hc
    have := hnone c hc
    simp only [decide_eq_decide]
    omega
  obtain ⟨hdone, hdelta, hfirst, hbasic⟩ := h
  refine ⟨hlabel, by rw [hlabel, ← hdone], ?_, hfirst, hbasic⟩
  obtain ⟨k, rfl⟩ := Nat.exists_eq_add_of_le hle
  have hproduct : (code + k) * (st.done + 1) = code * (st.done + 1) + k * (st.done + 1) := by ring
  simp only [List.filter_nil, List.length_nil] at hdelta ⊢
  rw [Nat.add_sub_cancel_left, hproduct]
  omega

/-- The end of the label for one code point is its beginning for the next. -/
theorem IsAt.finish (h : IsAt basic code v [] st p) :
    partialLabel (code + 1) [] v = partialLabel code v [] ∧
      IsAt basic (code + 1) [] v { st with delta := st.delta + 1 } p := by
  have hlabel : partialLabel (code + 1) [] v = partialLabel code v [] := by
    simp only [partialLabel, Nat.lt_succ_iff, List.filter_nil, List.nil_append, List.append_nil]
  obtain ⟨hdone, hdelta, hfirst, hbasic⟩ := h
  have hall : (v.filter fun c ↦ decide (c.toNat ≤ code)).length = st.done := by
    rw [hdone]
    simp [partialLabel]
  refine ⟨hlabel, by rw [hlabel, ← hdone], ?_, hfirst, hbasic⟩
  have hproduct : (code + 1) * (st.done + 1) = code * (st.done + 1) + (st.done + 1) := by ring
  rw [hproduct]
  simp only [List.filter_nil, List.length_nil]
  omega

theorem isAt_writeCodes {codes : List ℕ} (hsorted : codes.Pairwise (· < ·)) (hcodes : ∀ d ∈ codes, code ≤ d)
    (hlabel : ∀ c ∈ v, c.toNat < code ∨ c.toNat ∈ codes) (h : IsAt basic code [] v st p) :
    ∃ written, (writeCodes v basic codes code st).written = st.written ++ written ∧
      insertCodes (partialLabel code [] v) p.code p.place st.bias p.isFirst written = some v := by
  induction codes generalizing code st p with
  | nil =>
    have hall : partialLabel code [] v = v := by
      simpa [partialLabel] using hlabel
    refine ⟨[], by simp [writeCodes], ?_⟩
    rw [insertCodes, hall]
    rfl
  | cons d codes ih =>
    have htail := List.pairwise_cons.1 hsorted
    have hskip : ∀ c ∈ v, c.toNat < code ∨ d ≤ c.toNat := by
      intro c hc
      refine (hlabel c hc).imp_right fun hmem ↦ ?_
      rcases List.mem_cons.1 hmem with heq | hmem
      · exact heq.ge
      · exact (htail.1 _ hmem).le
    -- Skip to the next code point, write each place of it, and go on behind it.
    obtain ⟨hsame, hat⟩ := h.skip (hcodes d List.mem_cons_self) hskip
    obtain ⟨first, p₁, hfirst, hread, hat₁⟩ := isAt_foldl hat
    rw [List.nil_append] at hread hat₁
    obtain ⟨hsame₁, hat₂⟩ := hat₁.finish
    have hlabel' : ∀ c ∈ v, c.toNat < d + 1 ∨ c.toNat ∈ codes := by
      intro c hc
      rcases hlabel c hc with hlt | hmem
      · have := hcodes d List.mem_cons_self
        omega
      · rcases List.mem_cons.1 hmem with heq | hmem
        · omega
        · exact .inr hmem
    obtain ⟨more, hmore, hdecode⟩ := ih htail.2 (fun e he ↦ htail.1 e he) hlabel' hat₂
    refine ⟨first ++ more, ?_, ?_⟩
    · rw [writeCodes]
      refine hmore.trans ?_
      rw [← List.append_assoc, ← hfirst]
    · rw [← hsame, hread more, ← hsame₁]
      exact hdecode

end

/-! ### Round trip -/

theorem written_pass {basic code : ℕ} {st : State} {P : Char → Prop}
    (hdigit : ∀ d < 36, P (digitChar d)) (h : ∀ c ∈ st.written, P c) (c : Char) :
    ∀ d ∈ (pass basic code st c).written, P d := by
  unfold pass
  split
  · exact h
  · split
    · intro d hd
      rcases List.mem_append.1 hd with hd | hd
      · exact h d hd
      · obtain ⟨e, he, rfl⟩ := mem_digits hd
        exact hdigit e he
    · exact h

theorem written_foldl {basic code : ℕ} {P : Char → Prop} (hdigit : ∀ d < 36, P (digitChar d))
    (label : List Char) {st : State} (h : ∀ c ∈ st.written, P c) :
    ∀ d ∈ (label.foldl (pass basic code) st).written, P d := by
  induction label generalizing st with
  | nil => exact h
  | cons c label ih => exact ih (written_pass hdigit h c)

theorem written_writeCodes {basic : ℕ} {P : Char → Prop} (hdigit : ∀ d < 36, P (digitChar d))
    (label : List Char) (codes : List ℕ) {next : ℕ} {st : State} (h : ∀ c ∈ st.written, P c) :
    ∀ d ∈ (writeCodes label basic codes next st).written, P d := by
  induction codes generalizing next st with
  | nil => exact h
  | cons code codes ih =>
    rw [writeCodes]
    exact ih (written_foldl hdigit label h)

theorem split_encoded (basic : List Char) {written : List Char} (h : ∀ c ∈ written, c ≠ '-') :
    let s := basic ++ (if basic.isEmpty then [] else ['-']) ++ written
    (s.reverse.takeWhile (· != '-')).reverse = written ∧
      (s.take (s.length - written.length)).dropLast = basic := by
  have hwritten : ∀ c ∈ written.reverse, (c != '-') = true := by simpa using h
  have htake : ∀ head : List Char, (head ++ written).take ((head ++ written).length - written.length) =
      head := by
    intro head
    rw [List.length_append, Nat.add_sub_cancel, List.take_left']
    rfl
  intro s
  refine ⟨?_, ?_⟩
  · rw [List.reverse_append, List.takeWhile_append_of_pos hwritten]
    cases basic with
    | nil => simp
    | cons c basic => simp
  · rw [htake]
    cases basic with
    | nil => rfl
    | cons c basic => exact List.dropLast_concat

theorem isBasic_written (basic : ℕ) (label : List Char) (codes : List ℕ) :
    ∀ c ∈ (writeCodes label basic codes 0x80 { done := basic }).written, c ≠ '-' ∧ isBasic c = true :=
  written_writeCodes (fun _ hd ↦ digitChar_ne hd) label codes (by simp)

theorem all_isBasic_encode (label : List Char) : ∀ c ∈ encode label, isBasic c = true := by
  intro c hc
  simp only [encode, List.mem_append] at hc
  rcases hc with (hc | hc) | hc
  · exact (List.mem_filter.1 hc).2
  · split at hc
    · simp at hc
    · rw [List.mem_singleton.1 hc]
      decide
  · exact (isBasic_written _ _ _ c hc).2

theorem decode?_encode (label : List Char) : decode? (encode label) = some label := by
  generalize hbasic : label.filter isBasic = basic
  generalize hcodes : ((label.filter (!isBasic ·)).map Char.toNat).mergeSort.eraseReps = codes
  obtain ⟨hsorted, hmem⟩ := eraseReps_mergeSort ((label.filter (!isBasic ·)).map Char.toNat)
  rw [hcodes] at hsorted hmem
  -- The code points are exactly those of the label that are not basic, each of them once.
  have hge : ∀ d ∈ codes, 0x80 ≤ d := by
    intro d hd
    obtain ⟨c, hc, rfl⟩ := List.mem_map.1 ((hmem d).1 hd)
    simpa [isBasic] using (List.mem_filter.1 hc).2
  have hlabel : ∀ c ∈ label, c.toNat < 0x80 ∨ c.toNat ∈ codes := by
    intro c hc
    by_cases hlt : c.toNat < 0x80
    · exact .inl hlt
    · refine .inr ((hmem _).2 (List.mem_map_of_mem ?_))
      rw [List.mem_filter]
      exact ⟨hc, by simpa [isBasic] using hlt⟩
  have hpartial : partialLabel 0x80 [] label = basic := by
    rw [partialLabel, List.filter_nil, List.nil_append, ← hbasic]
    rfl
  have hstart : IsAt basic.length 0x80 [] label { done := basic.length } ⟨0x80, 0, true⟩ :=
    ⟨by rw [hpartial], by simp, by simp, Nat.le_refl _⟩
  obtain ⟨written, hwritten, hread⟩ := isAt_writeCodes hsorted hge hlabel hstart
  have hplain := isBasic_written basic.length label codes
  rw [hwritten, List.nil_append] at hplain
  obtain ⟨hafter, hbefore⟩ := split_encoded basic fun c hc ↦ (hplain c hc).1
  have hencode : encode label = basic ++ (if basic.isEmpty then [] else ['-']) ++ written := by
    simp only [encode, hbasic, hcodes, hwritten, List.nil_append]
  have hall : (encode label).all isBasic = true := List.all_eq_true.2 (all_isBasic_encode label)
  rw [hpartial] at hread
  rw [decode?, hall, hencode]
  simp only [hafter, hbefore, if_true]
  exact hread

end AgentReply.Url.Punycode
