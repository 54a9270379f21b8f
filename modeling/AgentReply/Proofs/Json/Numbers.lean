import AgentReply.Proofs.Json.Trim
import AgentReply.Proofs.Text.Digits

/-!
# Numbers that are written and read

What a reader of numbers leaves over is the end of its text, and the integers among what it reads are in
range. An integer in range is read back from its digits, whatever stands behind them that is no part of a
number. Of the other numbers it is known only that their texts have no blanks: whether such a text gives
the number back depends on how decimals are rounded.
-/

namespace AgentReply.Json

variable {gap s rest : List Char} {n : Number} {negative : Bool}

/-- The integers that fit 64 bits, signed or unsigned; every floating point number counts. -/
def Number.InRange : Number → Prop
  | .integer value => -0x8000000000000000 ≤ value ∧ value ≤ greatestSignificand
  | .binary _ => True

/-- What may be read as a number from the head of a text. -/
def IsScanned (s : List Char) (y : Number × List Char) : Prop := y.1.InRange ∧ y.2 <:+ s

theorem IsScanned.mono {s' : List Char} {y : Number × List Char} (h : IsScanned s y) (hs : s <:+ s') :
    IsScanned s' y :=
  ⟨h.1, h.2.trans hs⟩

/-! ### What is read -/

theorem absorb_le {significand : ℕ} (h : significand ≤ greatestSignificand) (digits : List Char) :
    (absorb significand digits).1 ≤ greatestSignificand := by
  induction digits generalizing significand with
  | nil => exact h
  | cons c digits ih =>
    rw [absorb]
    split
    · next hle => exact ih hle
    · exact h

theorem isScanned_powerPart {significand : ℕ} {exponent : ℤ} {y : Number × List Char}
    (h : result (powerPart negative significand exponent s) = some y) : IsScanned s y := by
  rw [result_powerPart] at h
  split at h
  · cases h
  · obtain ⟨n, hn, rfl⟩ := Option.map_eq_some_iff.1 h
    have hunsigned : unsigned s <:+ s := by
      unfold unsigned
      split
      · exact List.drop_suffix 1 s
      · exact List.suffix_rfl
    refine ⟨?_, (List.dropWhile_suffix _).trans hunsigned⟩
    unfold powered? at hn
    split at hn
    · obtain ⟨x, -, rfl⟩ := Option.map_eq_some_iff.1 hn
      trivial
    · split at hn <;> cases hn
      trivial

theorem isScanned_optionalPower {significand : ℕ} {exponent : ℤ} {y : Number × List Char}
    (h : result (optionalPower negative significand exponent s) = some y) : IsScanned s y := by
  rw [result_optionalPower] at h
  split at h
  · exact (isScanned_powerPart h).mono (List.drop_suffix 1 s)
  · split at h
    · exact (isScanned_powerPart h).mono (List.drop_suffix 1 s)
    · obtain ⟨x, -, rfl⟩ := Option.map_eq_some_iff.1 h
      exact ⟨trivial, List.suffix_rfl⟩

theorem isScanned_placesPart {significand : ℕ} {exponent : ℤ} {y : Number × List Char}
    (h : result (placesPart negative significand exponent s) = some y) : IsScanned s y := by
  rw [result_placesPart] at h
  split at h
  · cases h
  · exact (isScanned_optionalPower h).mono (List.dropWhile_suffix _)

theorem inRange_of_integer {value : ℕ} {tail : List Char} (hvalue : value ≤ greatestSignificand)
    (h : (integer negative value tail).toOption = some n) : n.InRange := by
  rw [integer] at h
  split at h
  · cases h
    exact ⟨by omega, by exact_mod_cast hvalue⟩
  · split at h
    · next hrange =>
      cases h
      simp only [Bool.and_eq_true, decide_eq_true_eq] at hrange
      refine ⟨by omega, ?_⟩
      have hpos : (0 : ℤ) ≤ greatestSignificand := Int.natCast_nonneg _
      omega
    · rw [toOption_scaled] at h
      obtain ⟨x, -, rfl⟩ := Option.map_eq_some_iff.1 h
      trivial

theorem isScanned_afterDigits {significand dropped : ℕ} {y : Number × List Char}
    (hsignificand : significand ≤ greatestSignificand)
    (h : result (afterDigits negative significand dropped s) = some y) : IsScanned s y := by
  rw [result_afterDigits] at h
  split at h
  · exact (isScanned_placesPart h).mono (List.drop_suffix 1 s)
  · split at h
    · obtain ⟨n, hn, rfl⟩ := Option.map_eq_some_iff.1 h
      exact ⟨inRange_of_integer hsignificand hn, List.suffix_rfl⟩
    · exact isScanned_optionalPower h

theorem isScanned_unsignedNumber {y : Number × List Char}
    (h : result (unsignedNumber negative s) = some y) : IsScanned s y := by
  rw [result_unsignedNumber] at h
  dsimp only at h
  split at h
  · cases h
  · split at h
    · cases h
    · have hle := absorb_le (Nat.zero_le _) (s.takeWhile Char.isDigit)
      exact (isScanned_afterDigits hle h).mono (List.dropWhile_suffix _)

theorem ne_of_isDigit {c d : Char} (hc : c.isDigit = true) (hd : d.isDigit = false) : c ≠ d := by
  rintro rfl
  rw [hc] at hd
  cases hd

theorem isBlank_of_isDigit {c : Char} (h : c.isDigit = true) : isBlank c = false := by
  cases hc : isBlank c with
  | false => rfl
  | true =>
    have hdigit := isDigit_of_isBlank (isBlank_of_isBlank hc)
    rw [h] at hdigit
    cases hdigit

theorem scalar_of_minus {tail : List Char} (hs : skipBlank s = '-' :: tail) :
    result (scalar s) = (result (unsignedNumber true tail)).map fun y ↦ (.number y.1, y.2) := by
  rw [result_scalar, onHead_of_eq hs, if_neg (by decide), if_neg (by decide), if_neg (by decide),
    if_pos rfl]

theorem scalar_of_digit {c : Char} {tail : List Char} (hs : skipBlank s = c :: tail)
    (hc : c.isDigit = true) : result (scalar s) =
      (result (unsignedNumber false (c :: tail))).map fun y ↦ (.number y.1, y.2) := by
  have hne : ∀ d, d.isDigit = false → c ≠ d := fun d ↦ ne_of_isDigit hc
  rw [result_scalar, onHead_of_eq hs, if_neg (hne 'n' (by decide)), if_neg (hne 't' (by decide)),
    if_neg (hne 'f' (by decide)), if_neg (hne '-' (by decide)), if_neg (hne '"' (by decide)), if_pos hc]

theorem scalar_eq_number_iff : result (scalar s) = some (.number n, rest) ↔
    ∃ c tail, skipBlank s = c :: tail ∧
      (c = '-' ∧ result (unsignedNumber true tail) = some (n, rest) ∨
        c.isDigit = true ∧ result (unsignedNumber false (c :: tail)) = some (n, rest)) := by
  have hmap : ∀ {a : Option (Number × List Char)},
      (a.map fun y ↦ (Json.number y.1, y.2)) = some (.number n, rest) ↔ a = some (n, rest) := by
    intro a
    cases a <;> simp [Prod.ext_iff]
  constructor
  · intro h
    obtain ⟨c, tail, hs, hbegins, -⟩ := exists_begins_of_scalar h
    refine ⟨c, tail, hs, ?_⟩
    obtain rfl | hc := hbegins
    · exact .inl ⟨rfl, hmap.1 (scalar_of_minus hs ▸ h)⟩
    · exact .inr ⟨hc, hmap.1 (scalar_of_digit hs hc ▸ h)⟩
  · rintro ⟨c, tail, hs, ⟨rfl, h⟩ | ⟨hc, h⟩⟩
    · rw [scalar_of_minus hs, hmap, h]
    · rw [scalar_of_digit hs hc, hmap, h]

theorem isScanned_scalar (h : result (scalar s) = some (.number n, rest)) : IsScanned s (n, rest) := by
  obtain ⟨c, tail, hs, ⟨-, h⟩ | ⟨-, h⟩⟩ := scalar_eq_number_iff.1 h
  all_goals have hsuffix : c :: tail <:+ s := hs ▸ List.dropWhile_suffix isBlank
  · exact (isScanned_unsignedNumber h).mono ((List.suffix_cons c tail).trans hsuffix)
  · exact (isScanned_unsignedNumber h).mono hsuffix

theorem scalar_append (hends : EndsNumber gap) (h : result (scalar s) = some (.number n, rest)) :
    result (scalar (s ++ gap)) = some (.number n, rest ++ gap) := by
  obtain ⟨c, tail, hs, ⟨rfl, h⟩ | ⟨hc, h⟩⟩ := scalar_eq_number_iff.1 h
  · refine scalar_eq_number_iff.2 ⟨'-', tail ++ gap, skipBlank_append hs gap, .inl ⟨rfl, ?_⟩⟩
    rw [unsignedNumber_append hends, h]
    rfl
  · refine scalar_eq_number_iff.2 ⟨c, tail ++ gap, skipBlank_append hs gap, .inr ⟨hc, ?_⟩⟩
    rw [← List.cons_append, unsignedNumber_append hends, h]
    rfl

/-! ### What is written -/

theorem le_ofDigitChars (digits : List Char) (significand : ℕ) :
    significand ≤ Nat.ofDigitChars 10 digits significand := by
  induction digits generalizing significand with
  | nil => simp
  | cons c digits ih =>
    rw [Nat.ofDigitChars_cons]
    exact le_trans (by omega) (ih _)

theorem absorb_of_le {digits : List Char} {significand : ℕ}
    (h : Nat.ofDigitChars 10 digits significand ≤ greatestSignificand) :
    absorb significand digits = (Nat.ofDigitChars 10 digits significand, []) := by
  induction digits generalizing significand with
  | nil => simp [absorb]
  | cons c digits ih =>
    rw [Nat.ofDigitChars_cons] at h ⊢
    have hnext : 10 * significand + digit c ≤ greatestSignificand := (le_ofDigitChars digits _).trans h
    rw [absorb]
    exact (if_pos hnext).trans (ih h)

theorem unsignedNumber_toDigits {m : ℕ} (hm : m ≤ greatestSignificand) :
    result (unsignedNumber negative (Nat.toDigits 10 m)) =
      (integer negative m []).toOption.map fun n ↦ (n, []) := by
  have hdigit : ∀ c ∈ Nat.toDigits 10 m, c.isDigit = true :=
    fun c ↦ Nat.isDigit_of_mem_toDigits (by decide) (by decide)
  have htake : (Nat.toDigits 10 m).takeWhile Char.isDigit = Nat.toDigits 10 m :=
    List.takeWhile_eq_self_iff.2 hdigit
  have hdrop : (Nat.toDigits 10 m).dropWhile Char.isDigit = [] := List.dropWhile_eq_nil_iff.2 hdigit
  have hzero : ((Nat.toDigits 10 m).head? == some '0' && (Nat.toDigits 10 m).length > 1) = false := by
    by_cases h : m = 0
    · subst h
      decide
    · have hhead := Text.head?_toDigits h
      simp [hhead]
  have habsorb : absorb 0 (Nat.toDigits 10 m) = (m, []) := by
    rw [absorb_of_le]
    · rw [Nat.ofDigitChars_ten_toDigits]
    · rwa [Nat.ofDigitChars_ten_toDigits]
  rw [result_unsignedNumber]
  dsimp only
  rw [htake, hdrop, hzero, habsorb, if_neg (by simp), if_neg (by simp), result_afterDigits]
  rfl

theorem skipBlank_of_ne {c : Char} {tail : List Char} (hc : isBlank c = false) :
    skipBlank (c :: tail) = c :: tail :=
  List.dropWhile_cons_of_neg (by simp [hc])

theorem scalar_integer {value : ℤ} (h : (Number.integer value).InRange) :
    result (scalar (Number.integer value).text.toList) = some (.number (.integer value), []) := by
  obtain ⟨hleast, hgreatest⟩ := h
  have htext : (Number.integer value).text = value.repr := rfl
  rw [htext, Int.repr_eq_if, scalar_eq_number_iff]
  split
  · next hsign =>
    have hfits : value.toNat ≤ greatestSignificand := by omega
    have hvalue : ((value.toNat : ℕ) : ℤ) = value := by omega
    rw [Nat.toList_repr]
    cases hdigits : Nat.toDigits 10 value.toNat with
    | nil => exact absurd hdigits Nat.toDigits_ne_nil
    | cons c tail =>
      have hc : c.isDigit = true := by
        apply Nat.isDigit_of_mem_toDigits (b := 10) (n := value.toNat) (by decide) (by decide)
        exact hdigits ▸ List.mem_cons_self
      refine ⟨c, tail, skipBlank_of_ne (isBlank_of_isDigit hc), .inr ⟨hc, ?_⟩⟩
      rw [← hdigits, unsignedNumber_toDigits hfits]
      simp [integer, Except.toOption, hvalue]
  · next hsign =>
    have hfits : (-value).toNat ≤ greatestSignificand := by
      rw [greatestSignificand]
      omega
    have hvalue : (((-value).toNat : ℕ) : ℤ) = -value := by omega
    refine ⟨'-', Nat.toDigits 10 (-value).toNat, ?_, .inl ⟨rfl, ?_⟩⟩
    · rw [String.toList_append, Nat.toList_repr]
      rfl
    · have hrange : 0 < (-value).toNat ∧ (-value).toNat ≤ 0x8000000000000000 := by omega
      rw [unsignedNumber_toDigits hfits]
      simp [integer, Except.toOption, hvalue, hrange]

theorem isBlank_of_mem_decimal {m : ℕ} {c : Char} (hc : c ∈ (toString m).toList) : isBlank c = false := by
  have htext : (toString m).toList = Nat.toDigits 10 m := Nat.toList_repr
  rw [htext] at hc
  exact isBlank_of_isDigit (Nat.isDigit_of_mem_toDigits (by decide) (by decide) hc)

theorem isBlank_of_mem_positional {digits : List Char} (h : ∀ c ∈ digits, isBlank c = false)
    (magnitude : ℤ) : ∀ c ∈ Binary64.positional digits magnitude, isBlank c = false := by
  intro c hc
  unfold Binary64.positional at hc
  split at hc
  · simp only [List.mem_cons, List.mem_append, List.mem_replicate] at hc
    rcases hc with rfl | rfl | ⟨-, rfl⟩ | hc
    · decide
    · decide
    · decide
    · exact h c hc
  · simp only [List.mem_cons, List.mem_append, List.mem_replicate] at hc
    rcases hc with (hc | ⟨-, rfl⟩) | rfl | hc
    · exact h c (List.mem_of_mem_take hc)
    · decide
    · decide
    · split at hc
      · obtain rfl := List.mem_singleton.1 hc
        decide
      · exact h c (List.mem_of_mem_drop hc)

theorem isBlank_of_mem_scientific {digits : List Char} (h : ∀ c ∈ digits, isBlank c = false)
    (magnitude : ℤ) : ∀ c ∈ Binary64.scientific digits magnitude, isBlank c = false := by
  intro c hc
  unfold Binary64.scientific at hc
  simp only [List.mem_cons, List.mem_append] at hc
  rcases hc with (hc | hc) | rfl | rfl | hc
  · exact h c (List.mem_of_mem_take hc)
  · split at hc
    · cases hc
    · rcases List.mem_cons.1 hc with rfl | hc
      · decide
      · exact h c (List.mem_of_mem_drop hc)
  · decide
  · split <;> decide
  · exact isBlank_of_mem_decimal hc

theorem isBlank_of_mem_toText {isPositional : ℤ → Bool} {x : Binary64} {c : Char}
    (hc : c ∈ (x.toText isPositional).toList) : isBlank c = false := by
  unfold Binary64.toText at hc
  have hdigits : ∀ c ∈ x.shortest.text.toList, isBlank c = false := fun _ ↦ isBlank_of_mem_decimal
  rcases List.mem_append.1 (String.toList_ofList ▸ hc) with hc | hc
  · split at hc
    · obtain rfl := List.mem_singleton.1 hc
      decide
    · cases hc
  · have hzero : ∀ d ∈ ['0', '.', '0'], isBlank d = false := by simp [isBlank]
    split at hc
    · exact hzero c hc
    · dsimp only at hc
      split at hc
      · exact isBlank_of_mem_positional hdigits _ c hc
      · exact isBlank_of_mem_scientific hdigits _ c hc

/-- A floating point number whose text is read as that number is read with nothing left over. -/
theorem scalar_binary {x : Binary64} (h : read (Number.binary x).text = .ok (.number (.binary x))) :
    result (scalar (Number.binary x).text.toList) = some (.number (.binary x), []) := by
  obtain ⟨rest, hresult, hrest⟩ := read_eq_ok_iff.1 h
  obtain ⟨c, tail, hs, hbegins⟩ := exists_begins_of_value hresult
  have hc : c ≠ '[' ∧ c ≠ '\x7b' := by
    obtain rfl | hdigit := hbegins
    · decide
    · exact ⟨ne_of_isDigit hdigit (by decide), ne_of_isDigit hdigit (by decide)⟩
  rw [result_value_of_ne hs hc.1 hc.2] at hresult
  have hsuffix : rest <:+ (Number.binary x).text.toList := (isScanned_scalar hresult).2
  obtain rfl : rest = [] := by
    cases rest with
    | nil => rfl
    | cons d rest =>
      have hblank := List.dropWhile_eq_nil_iff.1 hrest d List.mem_cons_self
      rw [isBlank_of_mem_toText (hsuffix.subset List.mem_cons_self)] at hblank
      cases hblank
  exact hresult

end AgentReply.Json
