import AgentReply.Json.Scan
import AgentReply.Proofs.Text.Trim

/-!
# Scanning before a gap

A reader stops behind the last character that it needs, and a blank is never one that it needs. So a gap
at the end of a text is left over whole, whatever Unicode blanks it is made of. The proofs that come with
what is left over are of no interest here: a reading is told by what has been read and the characters that
are left. Below, that view of each scanner stands before what becomes of a gap.
-/

namespace AgentReply.Json

open Text (IsGap Rest Tail)

variable {α β : Type} {gap s : List Char}

/-- What has been read and what is left of the text, or nothing if there was a fault. -/
def result {p : List Char → Prop} (e : Except Fault (α × {rest // p rest})) : Option (α × List Char) :=
  e.toOption.map fun x ↦ (x.1, x.2.1)

/-- A reading with a gap behind what is left. -/
def withGap (gap : List Char) (x : α × List Char) : α × List Char := (x.1, x.2 ++ gap)

section

variable {p q : List Char → Prop}

@[simp] theorem result_ok (x : α) (rest : {rest // p rest}) :
    result (.ok (x, rest) : Except Fault _) = some (x, rest.1) := rfl

@[simp] theorem result_error (fault : Fault) :
    result (.error fault : Except Fault (α × {rest // p rest})) = none := rfl

theorem result_map {e : Except Fault (α × {rest // p rest})}
    {f : α × {rest // p rest} → β × {rest // q rest}} {g : α → β}
    (h : ∀ x rest, (f (x, rest)).1 = g x ∧ (f (x, rest)).2.1 = rest.1) :
    result (e.map f) = (result e).map fun y ↦ (g y.1, y.2) := by
  cases e with
  | error fault => rfl
  | ok y =>
    obtain ⟨x, rest⟩ := y
    obtain ⟨hvalue, hrest⟩ := h x rest
    exact congrArg some (Prod.ext hvalue hrest)

theorem result_bind_ok {e : Except Fault (α × {rest // p rest})}
    {f : α × {rest // p rest} → Except Fault (β × {rest // q rest})} {g : α → β}
    (h : ∀ x rest, result (f (x, rest)) = some (g x, rest.1)) :
    result (e >>= f) = (result e).map fun y ↦ (g y.1, y.2) := by
  cases e with
  | error fault => rfl
  | ok y => exact h y.1 y.2

theorem result_bind {e : Except Fault (α × {rest // p rest})}
    {f : α × {rest // p rest} → Except Fault (β × {rest // q rest})}
    {g : α × List Char → Option (β × List Char)}
    (h : ∀ x rest, result (f (x, rest)) = g (x, rest.1)) :
    result (e >>= f) = (result e).bind g := by
  cases e with
  | error fault => rfl
  | ok y => exact h y.1 y.2

end

theorem length_of_result {e : Except Fault (α × Rest s)} {x : α} {rest : List Char}
    (h : result e = some (x, rest)) : rest.length < s.length := by
  cases e with
  | error fault => cases h
  | ok y =>
    cases h
    exact y.2.2

theorem bind_withGap {a : Option (α × List Char)} {f f' : α × List Char → Option (β × List Char)}
    (h : ∀ x rest, a = some (x, rest) → f (x, rest ++ gap) = (f' (x, rest)).map (withGap gap)) :
    (a.map (withGap gap)).bind f = (a.bind f').map (withGap gap) := by
  cases a with
  | none => rfl
  | some y => exact h y.1 y.2 rfl

theorem map_withGap (a : Option (α × List Char)) (g : α → β) :
    (a.map (withGap gap)).map (fun y ↦ (g y.1, y.2)) =
      (a.map fun y ↦ (g y.1, y.2)).map (withGap gap) := by
  cases a <;> rfl

theorem leave_withGap (a : Option α) (rest : List Char) :
    (a.map fun x ↦ (x, rest)).map (withGap gap) = a.map fun x ↦ (x, rest ++ gap) := by
  cases a <;> rfl

/-! ### Gaps -/

theorem isBlank_of_isBlank {c : Char} (h : isBlank c = true) : Text.isBlank c = true := by
  simp only [isBlank, Bool.or_eq_true, beq_iff_eq] at h
  rcases h with ((rfl | rfl) | rfl) | rfl <;> rfl

theorem ne_of_isBlank {c d : Char} (hc : Text.isBlank c = true) (hd : Text.isBlank d = false) :
    c ≠ d := by
  rintro rfl
  rw [hc] at hd
  cases hd

/-- What is done with the first character of a text and the rest of it. -/
def onHead (f : Char → List Char → Option β) : List Char → Option β
  | [] => none
  | c :: rest => f c rest

theorem onHead_of_eq {c : Char} {rest : List Char} (h : s = c :: rest) (f : Char → List Char → Option β) :
    onHead f s = f c rest := by
  rw [h]
  rfl

theorem onHead_eq_some_iff {f : Char → List Char → Option β} {y : β} :
    onHead f s = some y ↔ ∃ c rest, s = c :: rest ∧ f c rest = some y := by
  cases s <;> simp [onHead]

theorem onHead_none (s : List Char) : onHead (fun _ _ ↦ (none : Option β)) s = none := by
  cases s <;> rfl

theorem onHead_ite {c : Char} {f g : Char → List Char → Option β} (h : ∀ rest, s ≠ c :: rest) :
    onHead (fun d rest ↦ if d = c then f d rest else g d rest) s = onHead g s := by
  cases s with
  | nil => rfl
  | cons d rest =>
    refine if_neg ?_
    rintro rfl
    exact h rest rfl

theorem onHead_gap {f : Char → List Char → Option β} (hgap : IsGap gap)
    (hf : ∀ c rest, Text.isBlank c = true → f c rest = none) : onHead f gap = none := by
  cases gap with
  | nil => rfl
  | cons c gap => exact hf c gap (hgap c List.mem_cons_self)

theorem isGap_of_skipBlank (h : skipBlank s = []) : IsGap s := by
  intro c hc
  exact isBlank_of_isBlank (List.dropWhile_eq_nil_iff.1 h c hc)

theorem isGap_skipBlank (hgap : IsGap gap) : IsGap (skipBlank gap) :=
  fun c hc ↦ hgap c (List.dropWhile_subset isBlank hc)

theorem skipBlank_append {c : Char} {rest : List Char} (h : skipBlank s = c :: rest) (gap : List Char) :
    skipBlank (s ++ gap) = c :: (rest ++ gap) := by
  rw [skipBlank] at h
  rw [skipBlank, List.dropWhile_append, h]
  rfl

/-- What begins with the first character that is not blank sees no more of a gap than its beginning. -/
theorem onHead_skipBlank_append {f f' : Char → List Char → Option (α × List Char)} (hgap : IsGap gap)
    (hblank : skipBlank s = [] → ∀ c rest, Text.isBlank c = true → f c rest = none)
    (hf : ∀ c rest, skipBlank s = c :: rest → f c (rest ++ gap) = (f' c rest).map (withGap gap)) :
    onHead f (skipBlank (s ++ gap)) = (onHead f' (skipBlank s)).map (withGap gap) := by
  cases hs : skipBlank s with
  | nil =>
    have hwhole : IsGap (s ++ gap) := Text.isGap_append.2 ⟨isGap_of_skipBlank hs, hgap⟩
    exact onHead_gap (isGap_skipBlank hwhole) (hblank hs)
  | cons c rest =>
    rw [skipBlank_append hs gap]
    exact hf c rest hs

/-- A reader that leaves over every gap at the end of its text. -/
def IgnoresGap (reader : Reader α) : Prop :=
  ∀ s gap, IsGap gap → result (reader (s ++ gap)) = (result (reader s)).map (withGap gap)

theorem IgnoresGap.of_isGap {reader : Reader α} (h : IgnoresGap reader) (hgap : IsGap gap) :
    result (reader gap) = none := by
  have hnil : result (reader []) = none := by
    cases hread : result (reader []) with
    | none => rfl
    | some y => exact absurd (length_of_result hread) (Nat.not_lt_zero _)
  have hread := h [] gap hgap
  rwa [List.nil_append, hnil] at hread

/-! ### Numbers -/

theorem isDigit_of_isBlank {c : Char} (h : Text.isBlank c = true) : c.isDigit = false := by
  cases hc : c.isDigit with
  | false => rfl
  | true =>
    have hdigit : 48 ≤ c.toNat ∧ c.toNat ≤ 57 := by
      simpa [Char.isDigit, UInt32.le_iff_toNat_le] using hc
    rw [Text.isBlank_iff] at h
    omega

/-- Every number ends before the text, for its first character stands in no number. -/
def EndsNumber (gap : List Char) : Prop :=
  ∀ c ∈ gap.head?, c.isDigit = false ∧ c ∉ ['.', 'e', 'E', '+', '-']

theorem endsNumber_of_isGap (hgap : IsGap gap) : EndsNumber gap := by
  intro c hc
  have hblank := hgap c (List.mem_of_mem_head? hc)
  refine ⟨isDigit_of_isBlank hblank, ?_⟩
  have hne : ∀ d ∈ ['.', 'e', 'E', '+', '-'], Text.isBlank d = false := by
    simp [Text.isBlank]
  exact fun hmem ↦ ne_of_isBlank hblank (hne c hmem) rfl

theorem takeWhile_of_endsNumber (hends : EndsNumber gap) : gap.takeWhile Char.isDigit = [] := by
  cases gap with
  | nil => rfl
  | cons c gap => exact List.takeWhile_cons_of_neg (by simp [(hends c rfl).1])

theorem dropWhile_of_endsNumber (hends : EndsNumber gap) : gap.dropWhile Char.isDigit = gap := by
  cases gap with
  | nil => rfl
  | cons c gap => exact List.dropWhile_cons_of_neg (by simp [(hends c rfl).1])

theorem digits_append (hends : EndsNumber gap) (s : List Char) :
    (s ++ gap).takeWhile Char.isDigit = s.takeWhile Char.isDigit ∧
      (s ++ gap).dropWhile Char.isDigit = s.dropWhile Char.isDigit ++ gap := by
  induction s with
  | nil => exact ⟨takeWhile_of_endsNumber hends, dropWhile_of_endsNumber hends⟩
  | cons c s ih =>
    obtain ⟨htake, hdrop⟩ := ih
    rw [List.cons_append, List.takeWhile_cons, List.takeWhile_cons, List.dropWhile_cons,
      List.dropWhile_cons, htake, hdrop]
    split
    · exact ⟨rfl, rfl⟩
    · exact ⟨rfl, rfl⟩

theorem head?_append_of_endsNumber (hends : EndsNumber gap) {c : Char}
    (hc : c ∈ ['.', 'e', 'E', '+', '-']) (s : List Char) :
    ((s ++ gap).head? == some c) = (s.head? == some c) := by
  cases s with
  | cons d s => rfl
  | nil =>
    cases gap with
    | nil => rfl
    | cons d gap =>
      have hne : d ≠ c := by
        rintro rfl
        exact (hends d rfl).2 hc
      simpa using hne

theorem toOption_scaled (negative : Bool) (significand : ℕ) (exponent : ℤ) (tail : List Char) :
    (scaled negative significand exponent tail).toOption =
      (Binary64.ofDecimal? significand exponent).map fun x ↦ .binary (signed negative x) := by
  rw [scaled]
  cases Binary64.ofDecimal? significand exponent <;> rfl

theorem toOption_integer (negative : Bool) (value : ℕ) (tail tail' : List Char) :
    (integer negative value tail).toOption = (integer negative value tail').toOption := by
  rw [integer, integer]
  split
  · rfl
  · split
    · rfl
    · rw [toOption_scaled, toOption_scaled]

theorem result_map_number {e : Except Fault Number} (tail : Tail s) :
    result (e.map fun n ↦ (n, tail)) = e.toOption.map fun n ↦ (n, tail.1) := by
  cases e <;> rfl

/-- The number whose power of ten has certain digits. -/
def powered? (negative below : Bool) (significand : ℕ) (exponent : ℤ) (digits : List Char) :
    Option Number :=
  match power 0 digits with
  | .ok value =>
    (Binary64.ofDecimal? significand (if below then exponent - value else exponent + value)).map
      fun x ↦ .binary (signed negative x)
  | .error _ => if significand ≠ 0 && !below then none else some (.binary (Binary64.zero negative))

def unsigned (s : List Char) : List Char :=
  if s.head? == some '-' || s.head? == some '+' then s.drop 1 else s

theorem unsigned_append (hends : EndsNumber gap) (s : List Char) :
    unsigned (s ++ gap) = unsigned s ++ gap := by
  rw [unsigned, unsigned, head?_append_of_endsNumber hends (by decide),
    head?_append_of_endsNumber hends (by decide)]
  cases s with
  | nil => rfl
  | cons c s => split <;> rfl

theorem result_powerPart (negative : Bool) (significand : ℕ) (exponent : ℤ) (s : List Char) :
    result (powerPart negative significand exponent s) =
      if ((unsigned s).takeWhile Char.isDigit).isEmpty then none
      else (powered? negative (s.head? == some '-') significand exponent
        ((unsigned s).takeWhile Char.isDigit)).map fun n ↦ (n, (unsigned s).dropWhile Char.isDigit) := by
  have hunsigned : (if (s.head? == some '-' || s.head? == some '+') = true then Tail.drop 1 s
      else Tail.whole s).1 = unsigned s := by
    rw [unsigned]
    split <;> rfl
  rw [powerPart]
  dsimp only
  generalize (if (s.head? == some '-' || s.head? == some '+') = true then Tail.drop 1 s
      else Tail.whole s) = u at hunsigned ⊢
  rw [← hunsigned]
  split
  · rfl
  · rw [powered?]
    cases power 0 (u.1.takeWhile Char.isDigit) with
    | ok value =>
      dsimp only
      rw [result_map_number, toOption_scaled]
      rfl
    | error unread =>
      dsimp only
      split
      · rfl
      · rfl

theorem powerPart_append (hends : EndsNumber gap) (negative : Bool) (significand : ℕ) (exponent : ℤ)
    (s : List Char) : result (powerPart negative significand exponent (s ++ gap)) =
      (result (powerPart negative significand exponent s)).map (withGap gap) := by
  obtain ⟨htake, hdrop⟩ := digits_append hends (unsigned s)
  rw [result_powerPart, result_powerPart, unsigned_append hends, htake, hdrop,
    head?_append_of_endsNumber hends (by decide)]
  split
  · rfl
  · rw [leave_withGap]

theorem drop_append_of_head? {c : Char} (h : (s.head? == some c) = true) (gap : List Char) :
    (s ++ gap).drop 1 = s.drop 1 ++ gap := by
  cases s with
  | nil => cases h
  | cons d s => rfl

theorem result_optionalPower (negative : Bool) (significand : ℕ) (exponent : ℤ) (s : List Char) :
    result (optionalPower negative significand exponent s) =
      if s.head? == some 'e' then result (powerPart negative significand exponent (s.drop 1))
      else if s.head? == some 'E' then result (powerPart negative significand exponent (s.drop 1))
      else (Binary64.ofDecimal? significand exponent).map fun x ↦ (.binary (signed negative x), s) := by
  unfold optionalPower
  split
  · exact (result_map fun x rest ↦ ⟨rfl, rfl⟩).trans Option.map_id_apply
  · exact (result_map fun x rest ↦ ⟨rfl, rfl⟩).trans Option.map_id_apply
  · next hlower hupper =>
    have hhead : (s.head? == some 'e') = false ∧ (s.head? == some 'E') = false := by
      cases s with
      | nil => exact ⟨rfl, rfl⟩
      | cons c s =>
        rw [List.head?_cons, Option.some_beq_some, Option.some_beq_some, beq_eq_false_iff_ne,
          beq_eq_false_iff_ne]
        exact ⟨fun hc ↦ hlower s (hc ▸ rfl), fun hc ↦ hupper s (hc ▸ rfl)⟩
    rw [hhead.1, hhead.2, result_map_number, toOption_scaled, Option.map_map]
    rfl

theorem optionalPower_append (hends : EndsNumber gap) (negative : Bool) (significand : ℕ) (exponent : ℤ)
    (s : List Char) : result (optionalPower negative significand exponent (s ++ gap)) =
      (result (optionalPower negative significand exponent s)).map (withGap gap) := by
  rw [result_optionalPower, result_optionalPower, head?_append_of_endsNumber hends (by decide),
    head?_append_of_endsNumber hends (by decide)]
  split
  · next h => rw [drop_append_of_head? h, powerPart_append hends]
  · split
    · next h => rw [drop_append_of_head? h, powerPart_append hends]
    · rw [Option.map_map]
      rfl

theorem result_placesPart (negative : Bool) (significand : ℕ) (exponent : ℤ) (s : List Char) :
    result (placesPart negative significand exponent s) =
      if (s.takeWhile Char.isDigit).isEmpty then none
      else
        let places := s.takeWhile Char.isDigit
        let absorbed := absorb significand places
        result (optionalPower negative absorbed.1 (exponent - (places.length - absorbed.2.length : ℕ))
          (s.dropWhile Char.isDigit)) := by
  rw [placesPart]
  dsimp only
  split
  · rfl
  · exact (result_map fun x rest ↦ ⟨rfl, rfl⟩).trans Option.map_id_apply

theorem placesPart_append (hends : EndsNumber gap) (negative : Bool) (significand : ℕ) (exponent : ℤ)
    (s : List Char) : result (placesPart negative significand exponent (s ++ gap)) =
      (result (placesPart negative significand exponent s)).map (withGap gap) := by
  obtain ⟨htake, hdrop⟩ := digits_append hends s
  rw [result_placesPart, result_placesPart, htake, hdrop]
  split
  · rfl
  · exact optionalPower_append hends _ _ _ _

theorem result_afterDigits (negative : Bool) (significand dropped : ℕ) (s : List Char) :
    result (afterDigits negative significand dropped s) =
      if s.head? == some '.' then result (placesPart negative significand dropped (s.drop 1))
      else if dropped = 0 && !(s.head? == some 'e') && !(s.head? == some 'E') then
        (integer negative significand []).toOption.map fun n ↦ (n, s)
      else result (optionalPower negative significand dropped s) := by
  unfold afterDigits
  split
  · exact (result_map fun x rest ↦ ⟨rfl, rfl⟩).trans Option.map_id_apply
  · next hpoint =>
    have hhead : (s.head? == some '.') = false := by
      cases s with
      | nil => rfl
      | cons c s =>
        rw [List.head?_cons, Option.some_beq_some, beq_eq_false_iff_ne]
        exact fun hc ↦ hpoint s (hc ▸ rfl)
    rw [hhead, if_neg Bool.false_ne_true]
    split
    · next h =>
      rw [if_pos (by simpa using h), result_map_number, toOption_integer _ _ _ []]
      rfl
    · next h => rw [if_neg (by simpa using h)]

theorem afterDigits_append (hends : EndsNumber gap) (negative : Bool) (significand dropped : ℕ)
    (s : List Char) : result (afterDigits negative significand dropped (s ++ gap)) =
      (result (afterDigits negative significand dropped s)).map (withGap gap) := by
  have hhead : ∀ c ∈ ['.', 'e', 'E', '+', '-'], ((s ++ gap).head? == some c) = (s.head? == some c) :=
    fun c hc ↦ head?_append_of_endsNumber hends hc s
  rw [result_afterDigits, result_afterDigits, hhead '.' (by decide), hhead 'e' (by decide),
    hhead 'E' (by decide)]
  split
  · next h => rw [drop_append_of_head? h, placesPart_append hends]
  · split
    · rw [leave_withGap]
    · exact optionalPower_append hends _ _ _ _

theorem result_unsignedNumber (negative : Bool) (s : List Char) :
    result (unsignedNumber negative s) =
      let digits := s.takeWhile Char.isDigit
      if digits.isEmpty then none
      else if digits.head? == some '0' && digits.length > 1 then none
      else result (afterDigits negative (absorb 0 digits).1 (absorb 0 digits).2.length
        (s.dropWhile Char.isDigit)) := by
  unfold unsignedNumber
  dsimp only
  split
  · next h => rw [if_pos h]; rfl
  · next h =>
    have hne : ¬(s.takeWhile Char.isDigit).isEmpty = true := by
      rw [h]
      rintro ⟨⟩
    rw [if_neg hne]
    split
    · rfl
    · exact (result_map fun x rest ↦ ⟨rfl, rfl⟩).trans Option.map_id_apply

theorem unsignedNumber_append (hends : EndsNumber gap) (negative : Bool) (s : List Char) :
    result (unsignedNumber negative (s ++ gap)) =
      (result (unsignedNumber negative s)).map (withGap gap) := by
  obtain ⟨htake, hdrop⟩ := digits_append hends s
  rw [result_unsignedNumber, result_unsignedNumber, htake, hdrop]
  dsimp only
  split
  · rfl
  · split
    · rfl
    · exact afterDigits_append hends _ _ _ _

theorem ignoresGap_unsignedNumber (negative : Bool) : IgnoresGap (unsignedNumber negative) :=
  fun s _ hgap ↦ unsignedNumber_append (endsNumber_of_isGap hgap) negative s

/-! ### Strings -/

theorem hexValue?_of_isBlank {c : Char} (h : Text.isBlank c = true) : hexValue? c = none := by
  have hrange : ∀ low high : Char, 33 ≤ low.toNat → high.toNat < 0x80 →
      (decide (low ≤ c) && decide (c ≤ high)) = false := by
    intro low high hlow hhigh
    rw [Bool.and_eq_false_iff, decide_eq_false_iff_not, decide_eq_false_iff_not]
    by_contra hboth
    rw [not_or, not_not, not_not, Char.le_def, Char.le_def, UInt32.le_iff_toNat_le,
      UInt32.le_iff_toNat_le] at hboth
    have hc : c.val.toNat = c.toNat := rfl
    have hl : low.val.toNat = low.toNat := rfl
    have hh : high.val.toNat = high.toNat := rfl
    rw [Text.isBlank_iff] at h
    omega
  rw [hexValue?, hrange '0' '9' (by decide) (by decide), hrange 'a' 'f' (by decide) (by decide),
    hrange 'A' 'F' (by decide) (by decide)]
  rfl

/-- The number that four hexadecimal digits stand for. -/
def unit? : List Char → Option ℕ
  | [a, b, c, d] =>
    (hexValue? a).bind fun a ↦ (hexValue? b).bind fun b ↦ (hexValue? c).bind fun c ↦
      (hexValue? d).map fun d ↦ ((a * 16 + b) * 16 + c) * 16 + d
  | _ => none

theorem result_hexUnit (s : List Char) :
    result (hexUnit s) = (unit? (s.take 4)).map fun n ↦ (n, s.drop 4) := by
  unfold hexUnit
  match s with
  | [] | [_] | [_, _] | [_, _, _] => rfl
  | a :: b :: c :: d :: s =>
    dsimp only [unit?, List.take]
    cases hexValue? a <;> cases hexValue? b <;> cases hexValue? c <;> cases hexValue? d <;> rfl

/-- The first characters of a text that is too short for them are blank in part, if a gap makes up for
what is missing. -/
theorem exists_isBlank_take (hgap : IsGap gap) {n : ℕ} (hn : s.length < n)
    (hlength : ((s ++ gap).take n).length = n) : ∃ c ∈ (s ++ gap).take n, Text.isBlank c = true := by
  cases gap with
  | nil =>
    rw [List.append_nil, List.length_take] at hlength
    omega
  | cons c gap =>
    refine ⟨c, ?_, hgap c List.mem_cons_self⟩
    rw [List.take_append, List.mem_append]
    right
    obtain ⟨k, hk⟩ := Nat.exists_eq_add_of_lt hn
    have hpos : n - s.length = k + 1 := by omega
    rw [hpos, List.take_succ_cons]
    exact List.mem_cons_self

theorem unit?_eq_none {word : List Char} (h : word.length = 4 → ∃ c ∈ word, Text.isBlank c = true) :
    unit? word = none := by
  unfold unit?
  split
  · obtain ⟨e, he, hblank⟩ := h rfl
    have hnone := hexValue?_of_isBlank hblank
    simp only [List.mem_cons, List.not_mem_nil, or_false] at he
    rcases he with rfl | rfl | rfl | rfl <;> simp [hnone]
  · rfl

theorem hexUnit_append (hgap : IsGap gap) (s : List Char) :
    result (hexUnit (s ++ gap)) = (result (hexUnit s)).map (withGap gap) := by
  rw [result_hexUnit, result_hexUnit, leave_withGap]
  by_cases hlength : 4 ≤ s.length
  · rw [List.take_append_of_le_length hlength, List.drop_append_of_le_length hlength]
  · have hshort : s.length < 4 := Nat.lt_of_not_le hlength
    have htake : unit? (s.take 4) = none := by
      apply unit?_eq_none
      intro h
      rw [List.length_take] at h
      omega
    rw [htake, unit?_eq_none (exists_isBlank_take hgap hshort)]
    rfl

theorem result_hexEscape (s : List Char) :
    result (hexEscape s) = (result (hexUnit s)).bind fun y ↦
      if 0xDC00 ≤ y.1 && y.1 ≤ 0xDFFF then none
      else if y.1 < 0xD800 || 0xDBFF < y.1 then some (Char.ofNat y.1, y.2)
      else if y.2.take 2 = ['\\', 'u'] then
        (result (hexUnit (y.2.drop 2))).bind fun z ↦
          if z.1 < 0xDC00 || 0xDFFF < z.1 then none
          else some (Char.ofNat (0x10000 + (y.1 - 0xD800) * 0x400 + (z.1 - 0xDC00)), z.2)
      else none := by
  unfold hexEscape
  apply result_bind
  intro unit next
  dsimp only
  split
  · rfl
  · split
    · rfl
    · split
      · next h =>
        rw [if_pos h]
        apply result_bind
        intro low last
        dsimp only
        split
        · rfl
        · exact result_ok _ _
      · next hother h =>
        have hne : next.1.take 2 ≠ ['\\', 'u'] := by
          rw [h]
          rintro heq
          exact hother (List.cons.inj heq).2
        rw [if_neg hne]
        rfl
      · next h =>
        rw [if_neg (h ['u'])]
        rfl

theorem hexEscape_append (hgap : IsGap gap) (s : List Char) :
    result (hexEscape (s ++ gap)) = (result (hexEscape s)).map (withGap gap) := by
  rw [result_hexEscape, result_hexEscape, hexUnit_append hgap]
  apply bind_withGap
  intro unit next _
  dsimp only
  split
  · rfl
  · split
    · rfl
    · by_cases hlength : 2 ≤ next.length
      · rw [List.take_append_of_le_length hlength, List.drop_append_of_le_length hlength]
        split
        · rw [hexUnit_append hgap]
          apply bind_withGap
          intro low last _
          dsimp only
          split
          · rfl
          · generalize Char.ofNat _ = c
            rfl
        · rfl
      · -- A gap cannot complete the `\u` of a second half.
        have hshort : next.length < 2 := Nat.lt_of_not_le hlength
        have htake : next.take 2 ≠ ['\\', 'u'] := by
          intro h
          have hlen := congrArg List.length h
          rw [List.length_take, List.length_cons, List.length_singleton] at hlen
          omega
        have htake' : (next ++ gap).take 2 ≠ ['\\', 'u'] := by
          intro h
          obtain ⟨c, hc, hblank⟩ := exists_isBlank_take hgap hshort (by rw [h]; rfl)
          rw [h] at hc
          simp only [List.mem_cons, List.not_mem_nil, or_false] at hc
          rcases hc with rfl | rfl
          · cases hblank
          · cases hblank
        rw [if_neg htake, if_neg htake']
        rfl

/-- The character that a letter behind a backslash stands for. -/
def plainEscape? (c : Char) : Option Char :=
  if c = '"' then some '"'
  else if c = '\\' then some '\\'
  else if c = '/' then some '/'
  else if c = 'b' then some '\x08'
  else if c = 'f' then some '\x0c'
  else if c = 'n' then some '\n'
  else if c = 'r' then some '\r'
  else if c = 't' then some '\t'
  else none

theorem result_escaped (s : List Char) :
    result (escaped s) = onHead (fun c rest ↦
      if c = 'u' then result (hexEscape rest) else (plainEscape? c).map fun d ↦ (d, rest)) s := by
  unfold escaped
  split
  · rfl
  · rfl
  · rfl
  · rfl
  · rfl
  · rfl
  · rfl
  · rfl
  · exact (result_map fun x rest ↦ ⟨rfl, rfl⟩).trans Option.map_id_apply
  · cases s with
    | nil => rfl
    | cons c s => simp_all [onHead, plainEscape?]

theorem escaped_append (hgap : IsGap gap) (s : List Char) :
    result (escaped (s ++ gap)) = (result (escaped s)).map (withGap gap) := by
  rw [result_escaped, result_escaped]
  cases s with
  | nil =>
    apply onHead_gap hgap
    intro c rest hblank
    have hnone : plainEscape? c = none := by
      unfold plainEscape?
      repeat rw [if_neg (ne_of_isBlank hblank (by decide))]
    rw [if_neg (ne_of_isBlank hblank (by decide)), hnone]
    rfl
  | cons c s =>
    dsimp only [List.cons_append, onHead]
    split
    · exact hexEscape_append hgap s
    · rw [leave_withGap]

theorem result_stringBody (s : List Char) :
    result (stringBody s) = onHead (fun c rest ↦
      if c = '"' then some ([], rest)
      else if c = '\\' then (result (escaped rest)).bind fun y ↦
        (result (stringBody y.2)).map fun z ↦ (y.1 :: z.1, z.2)
      else if c.toNat < 0x20 then none
      else (result (stringBody rest)).map fun z ↦ (c :: z.1, z.2)) s := by
  rw [stringBody.eq_def]
  split
  · rfl
  · rfl
  · apply result_bind
    intro c next
    apply result_bind_ok
    intro cs last
    rfl
  · next c rest hquote hslash =>
    have hc : c ≠ '"' ∧ c ≠ '\\' := by
      constructor
      · rintro rfl
        exact hquote rfl
      · rintro rfl
        exact hslash rfl
    rw [onHead, if_neg hc.1, if_neg hc.2]
    split
    · rfl
    · apply result_bind_ok
      intro cs last
      rfl

theorem stringBody_gap (hgap : IsGap gap) : result (stringBody gap) = none := by
  induction gap with
  | nil => rw [result_stringBody]; rfl
  | cons c gap ih =>
    have hblank := hgap c List.mem_cons_self
    have hrest := ih fun d hd ↦ hgap d (List.mem_cons_of_mem c hd)
    rw [result_stringBody, onHead, if_neg (ne_of_isBlank hblank (by decide)),
      if_neg (ne_of_isBlank hblank (by decide)), hrest]
    split <;> rfl

theorem stringBody_append (hgap : IsGap gap) (s : List Char) :
    result (stringBody (s ++ gap)) = (result (stringBody s)).map (withGap gap) := by
  induction s using Text.rest_induction with
  | step s ih =>
    cases s with
    | nil =>
      rw [List.nil_append, stringBody_gap hgap, stringBody_gap Text.isGap_nil]
      rfl
    | cons c s =>
      rw [List.cons_append, result_stringBody, result_stringBody (c :: s), onHead, onHead]
      split
      · rfl
      · split
        · rw [escaped_append hgap]
          apply bind_withGap
          intro d rest hread
          have hlt : rest.length < s.length := length_of_result hread
          rw [ih rest (Nat.lt_succ_of_lt hlt)]
          exact map_withGap _ fun z ↦ d :: z
        · split
          · rfl
          · rw [ih s (Text.length_lt_cons c s)]
            exact map_withGap _ fun z ↦ c :: z

end AgentReply.Json
