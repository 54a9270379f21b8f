import AgentReply.Http.Head
import Mathlib.Data.List.TakeWhile

/-!
# Heads that arrive in pieces

What has been read of a head, and what is wrong with it, does not change when more arrives.
-/

namespace AgentReply.Http

variable {α β : Type} {s : List UInt8}

/-- A reading with more octets behind what it has left. -/
def Partial.followedBy (p : Partial α) (more : List UInt8) : Partial α :=
  p.map fun value? ↦ value?.map fun (value, rest) ↦ (value, rest ++ more)

@[simp] theorem Partial.followedBy_error (e : HeadError) (more : List UInt8) :
    (Partial.followedBy (.error e) more : Partial α) = .error e := rfl

@[simp] theorem Partial.followedBy_some (value : α) (rest more : List UInt8) :
    Partial.followedBy (.ok (some (value, rest))) more = .ok (some (value, rest ++ more)) := rfl

/-- A reader that does not take back what it has decided. -/
def IsSettling (read : List UInt8 → Partial α) : Prop :=
  ∀ s more, read s ≠ .ok none → read (s ++ more) = (read s).followedBy more

theorem IsSettling.andThen {read : List UInt8 → Partial α} {next : α → List UInt8 → Partial β}
    (h : IsSettling read) (hnext : ∀ a, IsSettling (next a)) :
    IsSettling fun s ↦ (read s).andThen next := by
  intro s more hs
  have hread := h s more
  cases hvalue : read s with
  | error e => simp [hread (by simp [hvalue]), hvalue, Partial.andThen]
  | ok value? =>
    cases value? with
    | none => simp [hvalue, Partial.andThen] at hs
    | some value =>
      simp only [hvalue, Partial.andThen] at hs
      simp only [hread (by simp [hvalue]), hvalue, Partial.andThen]
      exact hnext value.1 value.2 more hs

theorem IsSettling.map {read : List UInt8 → Partial α} (h : IsSettling read) (f : α → β) :
    IsSettling fun s ↦ (read s).map fun value? ↦ value?.map fun (value, rest) ↦ (f value, rest) := by
  intro s more hs
  have hread : read s ≠ .ok none := by
    intro hnone
    simp [hnone, Except.map] at hs
  simp only [h s more hread]
  cases read s with
  | error e => rfl
  | ok value? => cases value? <;> rfl

/-! ### Lines -/

theorem isSettling_skipEmptyLines : IsSettling skipEmptyLines := by
  intro s more hs
  fun_induction skipEmptyLines s with
  | case1 => exact absurd rfl hs
  | case2 s ih => exact ih hs
  | case3 => exact absurd rfl hs
  | case4 s ih => exact ih hs
  | case5 s hend hbreak =>
    obtain ⟨b, s, rfl⟩ := List.exists_cons_of_ne_nil hend
    have hb : b ≠ 10 := fun h ↦ hbreak s (h ▸ rfl)
    simp [skipEmptyLines, hb]
  | case6 s hnil hline _ _ hreturn =>
    obtain ⟨b, s, rfl⟩ := List.exists_cons_of_ne_nil hnil
    have hb : b ≠ 10 := fun h ↦ hline s (h ▸ rfl)
    have hb' : b ≠ 13 := fun h ↦ hreturn s (h ▸ rfl)
    simp [skipEmptyLines, hb, hb']

theorem isSettling_restOfLine (error : HeadError) : IsSettling (restOfLine error) := by
  intro s more hs
  fun_induction restOfLine error s with
  | case1 => exact absurd rfl hs
  | case2 s => rfl
  | case3 => exact absurd rfl hs
  | case4 s => rfl
  | case5 s hend hbreak =>
    obtain ⟨b, s, rfl⟩ := List.exists_cons_of_ne_nil hend
    have hb : b ≠ 10 := fun h ↦ hbreak s (h ▸ rfl)
    simp [restOfLine, hb]
  | case6 b s hline _ _ hreturn htext ih =>
    have hrest : restOfLine error s ≠ .ok none := by
      intro hnone
      simp [hnone, Except.map] at hs
    have hb : b ≠ 10 := hline
    have hb' : b ≠ 13 := hreturn
    rw [List.cons_append, restOfLine, if_pos htext, ih hrest]
    · cases restOfLine error s with
      | error e => rfl
      | ok line? => cases line? <;> rfl
    all_goals simp_all
  | case7 b s hline _ _ hreturn htext =>
    have hb' : b ≠ 13 := hreturn
    simp [restOfLine, hb', htext]

/-! ### The status line -/

theorem isSettling_version : IsSettling version := by
  intro s more hs
  -- What is neither a whole version nor the start of one is not made so by more octets.
  by_cases hprefix : versionOctets.isPrefixOf s = true
  · obtain ⟨r, rfl⟩ := List.isPrefixOf_iff_prefix.1 hprefix
    have hprefix' : versionOctets.isPrefixOf (versionOctets ++ r ++ more) = true := by
      rw [List.append_assoc]
      exact List.isPrefixOf_iff_prefix.2 ⟨_, rfl⟩
    unfold version at hs ⊢
    rw [if_pos hprefix, List.drop_left] at hs ⊢
    rw [if_pos hprefix', List.append_assoc, List.drop_left]
    cases r with
    | nil => exact absurd rfl hs
    | cons digit r =>
      dsimp only [List.cons_append] at hs ⊢
      split at hs
      · next hdigit => rw [if_pos hdigit, if_pos hdigit, Partial.followedBy_error]
      · next hdigit =>
        rw [if_neg hdigit, if_neg hdigit]
        cases r with
        | nil => exact absurd rfl hs
        | cons space r =>
          by_cases hspace : space = 32
          · subst hspace
            rfl
          · simp [hspace]
  · have hhalf : ¬s.isPrefixOf versionOctets = true := by
      intro hhalf
      simp [version, hprefix, hhalf] at hs
    rw [List.isPrefixOf_iff_prefix] at hprefix hhalf
    have hprefix' : ¬versionOctets.isPrefixOf (s ++ more) = true := by
      rw [List.isPrefixOf_iff_prefix]
      intro h
      exact (List.prefix_or_prefix_of_prefix h (List.prefix_append s more)).elim hprefix hhalf
    have hhalf' : ¬(s ++ more).isPrefixOf versionOctets = true := by
      rw [List.isPrefixOf_iff_prefix]
      exact fun h ↦ hhalf ((List.prefix_append s more).trans h)
    rw [← List.isPrefixOf_iff_prefix] at hprefix hhalf
    rw [version, version, if_neg hprefix, if_neg hhalf, if_neg hprefix', if_neg hhalf',
      Partial.followedBy_error]

theorem isSettling_statusCode : IsSettling statusCode := by
  intro s more hs
  cases hdigits : (s.take 3).all isDigit with
  | false =>
    have hdigits' : ((s ++ more).take 3).all isDigit = false := by
      rw [List.take_append, List.all_append, hdigits, Bool.false_and]
    simp [statusCode, hdigits, hdigits']
  | true =>
    match s with
    | [] | [_] | [_, _] =>
      unfold statusCode at hs
      rw [hdigits] at hs
      exact absurd rfl hs
    | a :: b :: c :: s =>
      have hdigits' : ((a :: b :: c :: (s ++ more)).take 3).all isDigit = true := hdigits
      rw [List.cons_append, List.cons_append, List.cons_append, statusCode, statusCode, hdigits, hdigits']
      rfl

theorem isSettling_reasonLine : IsSettling reasonLine := by
  intro s more hs
  match s with
  | [] => exact absurd rfl hs
  | b :: s =>
    by_cases hspace : b = 32
    · subst hspace
      exact isSettling_restOfLine .status s more hs
    · by_cases hbreak : b = 10
      · subst hbreak
        rfl
      · by_cases hreturn : b = 13
        · subst hreturn
          exact isSettling_restOfLine .status (13 :: s) more hs
        · simp [reasonLine, hspace, hbreak, hreturn]

/-! ### Fields -/

theorem dropWhile_append_of_ne_nil {p : UInt8 → Bool} (h : s.dropWhile p ≠ []) (more : List UInt8) :
    (s ++ more).dropWhile p = s.dropWhile p ++ more := by
  rw [List.dropWhile_append, if_neg (by simpa using h)]

theorem takeWhile_append_of_ne_nil {p : UInt8 → Bool} (h : s.dropWhile p ≠ []) (more : List UInt8) :
    (s ++ more).takeWhile p = s.takeWhile p := by
  have hsplit := List.takeWhile_append_dropWhile (p := p) (l := s ++ more)
  rw [dropWhile_append_of_ne_nil h, ← List.append_assoc] at hsplit
  have hwhole := List.append_cancel_right hsplit
  exact List.append_cancel_right (hwhole.trans List.takeWhile_append_dropWhile.symm)

theorem isSettling_field : IsSettling field := by
  intro s more hs
  unfold field at hs ⊢
  dsimp only at hs ⊢
  cases hname : s.dropWhile isNameOctet with
  | nil =>
    rw [hname] at hs
    exact absurd rfl hs
  | cons b rest =>
    have hne : s.dropWhile isNameOctet ≠ [] := by simp [hname]
    rw [hname] at hs
    rw [dropWhile_append_of_ne_nil hne, takeWhile_append_of_ne_nil hne, hname, List.cons_append]
    by_cases hcolon : b = 58
    · subst hcolon
      by_cases hempty : (s.takeWhile isNameOctet).isEmpty = true
      · simp [hempty]
      · simp only [hempty, Bool.false_eq_true, if_false] at hs ⊢
        have hvalue : rest.dropWhile isSpaceOctet ≠ [] := by
          intro hnil
          rw [hnil] at hs
          exact hs rfl
        rw [dropWhile_append_of_ne_nil hvalue]
        let trimmed (line : List UInt8) : Field :=
          ⟨Text.lowered (textOf (s.takeWhile isNameOctet)), (line.reverse.dropWhile isSpaceOctet).reverse⟩
        exact (isSettling_restOfLine .fieldValue).map trimmed _ more hs
    · simp [hcolon]

section

variable {b : UInt8}

theorem fieldLines_zero (hb : b ≠ 10) (hb' : b ≠ 13) (s : List UInt8) :
    fieldLines 0 (b :: s) = .error .tooManyFields := by
  rw [fieldLines.eq_def]
  simp [hb, hb']

theorem fieldLines_succ (hb : b ≠ 10) (hb' : b ≠ 13) (limit : ℕ) (s : List UInt8) :
    fieldLines (limit + 1) (b :: s) = (field (b :: s)).andThen fun first rest ↦
      (fieldLines limit rest).map fun more? ↦ more?.map fun (more, rest) ↦ (first :: more, rest) := by
  rw [fieldLines.eq_def]
  simp only [List.cons.injEq, hb, hb', false_and, imp_self, implies_true]
  cases field (b :: s) with
  | error e => rfl
  | ok value? => cases value? <;> rfl

end

/-- Only a line that is not the empty one has a field. -/
theorem isSettling_fieldLines_of {limit : ℕ} (h : ∀ b s more, b ≠ 10 → b ≠ 13 →
    fieldLines limit (b :: s) ≠ .ok none →
    fieldLines limit (b :: (s ++ more)) = (fieldLines limit (b :: s)).followedBy more) :
    IsSettling (fieldLines limit) := by
  intro s more hs
  match s with
  | [] => simp [fieldLines.eq_def limit] at hs
  | b :: s =>
    by_cases hb : b = 10
    · subst hb
      simp [fieldLines.eq_def limit]
    · by_cases hb' : b = 13
      · subst hb'
        match s with
        | [] => simp [fieldLines.eq_def limit] at hs
        | c :: s =>
          by_cases hc : c = 10
          · subst hc
            simp [fieldLines.eq_def limit]
          · simp [fieldLines.eq_def limit, hc]
      · exact h b s more hb hb' hs

theorem isSettling_fieldLines (limit : ℕ) : IsSettling (fieldLines limit) := by
  induction limit with
  | zero =>
    refine isSettling_fieldLines_of fun b s more hb hb' _ ↦ ?_
    rw [fieldLines_zero hb hb', fieldLines_zero hb hb', Partial.followedBy_error]
  | succ limit ih =>
    refine isSettling_fieldLines_of fun b s more hb hb' hs ↦ ?_
    rw [fieldLines_succ hb hb'] at hs ⊢
    rw [fieldLines_succ hb hb']
    exact isSettling_field.andThen (fun first ↦ ih.map (first :: ·)) (b :: s) more hs

/-- What has been read of a head stays, and an error in it stays as well. -/
theorem Head.isSettling_read (limit : ℕ) : IsSettling (Head.read limit) := by
  refine isSettling_skipEmptyLines.andThen fun _ ↦ ?_
  refine isSettling_version.andThen fun minorVersion ↦ ?_
  refine isSettling_statusCode.andThen fun status ↦ ?_
  refine isSettling_reasonLine.andThen fun _ ↦ ?_
  exact (isSettling_fieldLines limit).map fun fields ↦ (⟨minorVersion, status, fields⟩ : Head)

theorem Head.read_append {limit : ℕ} {h : Head} {rest : List UInt8}
    (hread : read limit s = .ok (some (h, rest))) (more : List UInt8) : read limit (s ++ more) = .ok (some (h, rest ++ more)) := by
  rw [isSettling_read limit s more (by simp [hread]), hread, Partial.followedBy_some]

theorem Head.read_append_of_error {limit : ℕ} {e : HeadError} (hread : read limit s = .error e)
    (more : List UInt8) : read limit (s ++ more) = .error e := by
  rw [isSettling_read limit s more (by simp [hread]), hread, Partial.followedBy_error]

end AgentReply.Http
