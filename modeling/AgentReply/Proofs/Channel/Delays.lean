import AgentReply.Settings.Basic
import Mathlib.Algebra.Group.Nat.Defs
import Mathlib.Tactic.ByContra

/-!
# The delays of a backoff

A delay is computed in bounded words: the factor has 32 bits, and a product that is too long for a span
becomes the longest span. Neither bound is ever felt. The factor is at most `2^16`, and the delay is cut
to the greatest one, which is a span itself; so each delay is what the same computation gives without
bounds. That computation grows with the attempt, and it stops growing after sixteen doublings, whether
or not the greatest delay has been reached by then.
-/

namespace AgentReply

namespace Span

variable {s t : Span}

theorem ext_nanoseconds (h : s.nanoseconds = t.nanoseconds) : s = t := by
  cases s
  cases t
  cases h
  rfl

theorem nanoseconds_ofMilliseconds {n : ℕ} (h : n < 2 ^ 64) :
    (ofMilliseconds n).nanoseconds = 1000000 * n := by
  rw [ofMilliseconds, nanoseconds_ofNanoseconds]
  simp only [bound]
  omega

theorem nanoseconds_min_times (s t : Span) (n : ℕ) :
    (min (s.times n) t).nanoseconds = min (s.nanoseconds * n) t.nanoseconds := by
  have ht := t.lt_bound
  rw [nanoseconds_min, nanoseconds_times]
  omega

end Span

namespace Backoff

variable {initial greatest s : Span} {limit : Option ℕ} {attempt : ℕ}

/-- No bit of the factor is lost. -/
theorem toNat_factor (attempt : ℕ) : (factor attempt).toNat = 2 ^ min (attempt - 1) 16 := by
  have hshift : ∀ n ≤ 16, ((1 : UInt32) <<< UInt32.ofNat n).toNat = 2 ^ n := by decide
  exact hshift _ (Nat.min_le_right _ _)

theorem isWithin_iff : isWithin limit attempt = true ↔ 1 ≤ attempt ∧ ∀ most ∈ limit, attempt ≤ most := by
  cases limit <;> simp [isWithin]

theorem doubling?_eq_some_iff : doubling? initial greatest limit attempt = some s ↔
    isWithin limit attempt = true ∧
      s.nanoseconds = min (initial.nanoseconds * 2 ^ min (attempt - 1) 16) greatest.nanoseconds := by
  have hdelay := Span.nanoseconds_min_times initial greatest (factor attempt).toNat
  rw [toNat_factor] at hdelay
  unfold doubling?
  split
  · next h =>
    rw [toNat_factor, Option.some.injEq, ← hdelay]
    constructor
    · rintro rfl
      exact ⟨h, rfl⟩
    · rintro ⟨-, heq⟩
      exact Span.ext_nanoseconds heq.symm
  · next h => simp [h]

theorem exists_doubling?_eq_some (initial greatest : Span) (h : isWithin limit attempt = true) :
    ∃ s, doubling? initial greatest limit attempt = some s :=
  ⟨_, if_pos h⟩

/-- Beyond sixteen doublings the delay is the exact one only if that is the greatest one anyway. -/
theorem min_pow_eq_iff (x y : ℕ) :
    min (x * 2 ^ min (attempt - 1) 16) y = min y (x * 2 ^ (attempt - 1)) ↔
      attempt ≤ 17 ∨ x = 0 ∨ y ≤ x * 2 ^ 16 := by
  by_cases hle : attempt ≤ 17
  · have hexponent : min (attempt - 1) 16 = attempt - 1 := by omega
    rw [hexponent, Nat.min_comm]
    simp [hle]
  · have hexponent : min (attempt - 1) 16 = 16 := by omega
    rw [hexponent]
    rcases Nat.eq_zero_or_pos x with rfl | hpos
    · simp
    · have hpow : 2 ^ 17 ≤ 2 ^ (attempt - 1) := Nat.pow_le_pow_right (by decide) (by omega)
      have hproduct : x * 2 ^ 17 ≤ x * 2 ^ (attempt - 1) := Nat.mul_le_mul_left x hpow
      omega

/-- A delay that doubles is the first one times a power of two, cut to the greatest one. It is twice the
delay before it up to the seventeenth attempt, and stays the same from there on. So it is the exact power
as long as no more than sixteen doublings are due, and later if the greatest delay has been reached by
then. -/
theorem doubling?_doubles (h : initial.nanoseconds ≤ greatest.nanoseconds) (hfirst : 1 ≤ attempt)
    (hlimit : ∀ most ∈ limit, attempt ≤ most) :
    ∃ s, doubling? initial greatest limit attempt = some s ∧
      s.nanoseconds = min greatest.nanoseconds (initial.nanoseconds * 2 ^ min (attempt - 1) 16) ∧
      (attempt = 1 → s = initial) ∧
      (s.nanoseconds = min greatest.nanoseconds (initial.nanoseconds * 2 ^ (attempt - 1)) ↔
        attempt ≤ 17 ∨ initial.nanoseconds = 0 ∨
          greatest.nanoseconds ≤ initial.nanoseconds * 2 ^ 16) ∧
      ∀ next, doubling? initial greatest limit (attempt + 1) = some next →
        (attempt ≤ 16 → next.nanoseconds = min (2 * s.nanoseconds) greatest.nanoseconds) ∧
        (17 ≤ attempt → next = s) := by
  have hwithin : isWithin limit attempt = true := isWithin_iff.2 ⟨hfirst, hlimit⟩
  obtain ⟨s, hs⟩ := exists_doubling?_eq_some initial greatest hwithin
  have hdelay := (doubling?_eq_some_iff.1 hs).2
  refine ⟨s, hs, hdelay.trans (Nat.min_comm ..), ?_, ?_, ?_⟩
  · rintro rfl
    apply Span.ext_nanoseconds
    simpa using hdelay.trans (Nat.min_eq_left (by simpa using h))
  · rw [hdelay]
    exact min_pow_eq_iff _ _
  · intro next hnext
    have hnext' := (doubling?_eq_some_iff.1 hnext).2
    rw [Nat.add_sub_cancel] at hnext'
    constructor
    · intro hle
      have hexponent : min attempt 16 = min (attempt - 1) 16 + 1 := by omega
      rw [hexponent, Nat.pow_succ, ← Nat.mul_assoc] at hnext'
      omega
    · intro hge
      apply Span.ext_nanoseconds
      have hexponent : min attempt 16 = min (attempt - 1) 16 := by omega
      rw [hnext', hdelay, hexponent]

theorem doubling?_doubles_capped :
    let initial := Span.ofMilliseconds 100
    let greatest := Span.ofMilliseconds 500
    initial.nanoseconds ≤ greatest.nanoseconds ∧ (∀ most ∈ (none : Option ℕ), 18 ≤ most) ∧
      ∃ s, doubling? initial greatest none 18 = some s ∧
        s.nanoseconds = min greatest.nanoseconds (initial.nanoseconds * 2 ^ 17) := by
  intro initial greatest
  have hle : initial.nanoseconds ≤ greatest.nanoseconds := by decide
  have hlimit : ∀ most ∈ (none : Option ℕ), 18 ≤ most := by simp
  obtain ⟨s, hs, -, -, hexact, -⟩ := doubling?_doubles hle (by decide) hlimit
  exact ⟨hle, hlimit, s, hs, hexact.2 (.inr (.inr (by decide)))⟩

/-- From one millisecond, a greatest delay of ten minutes is never reached: the eighteenth delay is not
twice the seventeenth. -/
theorem doubling?_stops_short :
    ¬ ∀ (initial greatest : Span) (limit : Option ℕ) (attempt : ℕ),
      initial.nanoseconds ≤ greatest.nanoseconds → 1 ≤ attempt → (∀ most ∈ limit, attempt ≤ most) →
      ∃ s, doubling? initial greatest limit attempt = some s ∧
        s.nanoseconds = min greatest.nanoseconds (initial.nanoseconds * 2 ^ (attempt - 1)) := by
  intro h
  obtain ⟨s, hs, hexact⟩ :=
    h (.ofMilliseconds 1) (.ofMilliseconds 600000) none 18 (by decide) (by decide) (by simp)
  have hdelay := (doubling?_eq_some_iff.1 hs).2
  rw [hexact] at hdelay
  revert hdelay
  decide

end Backoff

namespace Settings.Reconnect

open Backoff (doubling? doubling?_eq_some_iff exists_doubling?_eq_some isWithin isWithin_iff)

variable {r : Reconnect} {attempt later d : ℕ}

/-- The delay before an attempt in milliseconds, computed without bounds. -/
def exactDelay (r : Reconnect) (attempt : ℕ) : ℕ :=
  if r.strategy = .fixed then r.initialDelay
  else min (r.initialDelay * 2 ^ min (attempt - 1) 16) (max r.initialDelay r.maxDelay)

/-- Whether there is an attempt of a number at all. -/
def Allows (r : Reconnect) (attempt : ℕ) : Prop :=
  1 ≤ attempt ∧ r.strategy ≠ .never ∧ (r.maxAttempts = 0 ∨ attempt ≤ r.maxAttempts)

theorem exactDelay_one (r : Reconnect) : r.exactDelay 1 = r.initialDelay := by
  unfold exactDelay
  split
  · rfl
  · have hpow : 2 ^ min (1 - 1) 16 = 1 := by decide
    rw [hpow, Nat.mul_one]
    exact Nat.min_eq_left (Nat.le_max_left ..)

theorem exactDelay_le (r : Reconnect) (attempt : ℕ) :
    r.exactDelay attempt ≤ max r.initialDelay r.maxDelay := by
  unfold exactDelay
  split <;> omega

theorem exactDelay_mono (r : Reconnect) (h : attempt ≤ later) :
    r.exactDelay attempt ≤ r.exactDelay later := by
  unfold exactDelay
  split
  · exact Nat.le_refl _
  · have hpow : 2 ^ min (attempt - 1) 16 ≤ 2 ^ min (later - 1) 16 :=
      Nat.pow_le_pow_right (by decide) (by omega)
    have hproduct := Nat.mul_le_mul_left r.initialDelay hpow
    omega

theorem allows_iff (h : r.strategy ≠ .never) : r.Allows attempt ↔
    isWithin (if r.maxAttempts = 0 then none else some r.maxAttempts) attempt = true := by
  rw [isWithin_iff]
  by_cases hlimit : r.maxAttempts = 0 <;> simp [Allows, h, hlimit]

theorem doubling?_eq_some_exactDelay_iff (hinitial : r.initialDelay < 2 ^ 64)
    (hgreatest : r.maxDelay < 2 ^ 64) (hstrategy : r.strategy ≠ .fixed) (limit : Option ℕ)
    (attempt : ℕ) {s : Span} :
    doubling? (.ofMilliseconds r.initialDelay) (.ofMilliseconds (max r.maxDelay r.initialDelay)) limit
        attempt = some s ↔
      isWithin limit attempt = true ∧ s.nanoseconds = 1000000 * r.exactDelay attempt := by
  rw [doubling?_eq_some_iff, Span.nanoseconds_ofMilliseconds hinitial,
    Span.nanoseconds_ofMilliseconds (by omega), exactDelay, if_neg hstrategy, Nat.mul_assoc]
  have hmin (x y z : ℕ) : min (1000000 * x) (1000000 * max z y) = 1000000 * min x (max y z) := by omega
  rw [hmin]

theorem delay?_backoff_eq_some_iff (hinitial : r.initialDelay < 2 ^ 64) (hgreatest : r.maxDelay < 2 ^ 64) :
    r.backoff.delay? attempt = some d ↔ r.Allows attempt ∧ d = r.exactDelay attempt := by
  cases hstrategy : r.strategy with
  | never => simp [Allows, backoff, hstrategy]
  | fixed =>
    have hdelay : r.exactDelay attempt = r.initialDelay := if_pos hstrategy
    rw [allows_iff (by simp [hstrategy]), hdelay]
    simp only [backoff, hstrategy, Backoff.delay?, Option.ite_none_right_eq_some, Option.some.injEq]
    exact and_congr_right fun _ ↦ eq_comm
  | exponential =>
    have hne : r.strategy ≠ .fixed := by simp [hstrategy]
    have hspan {s : Span} := doubling?_eq_some_exactDelay_iff hinitial hgreatest hne
      (if r.maxAttempts = 0 then none else some r.maxAttempts) attempt (s := s)
    have hmilliseconds {s : Span} (hs : s.nanoseconds = 1000000 * r.exactDelay attempt) :
        s.milliseconds = r.exactDelay attempt := by
      rw [Span.milliseconds, hs]
      exact Nat.mul_div_cancel_left _ (by decide)
    rw [allows_iff (by simp [hstrategy])]
    simp only [backoff, hstrategy, Backoff.delay?, Option.map_eq_some_iff, hspan]
    constructor
    · rintro ⟨s, ⟨hwithin, hs⟩, rfl⟩
      exact ⟨hwithin, hmilliseconds hs⟩
    · rintro ⟨hwithin, rfl⟩
      obtain ⟨s, hs⟩ := exists_doubling?_eq_some _ _ hwithin
      exact ⟨s, hspan.1 hs, hmilliseconds (hspan.1 hs).2⟩

theorem backoff_eq_exponential_iff {initial greatest : ℕ} {limit : Option ℕ} :
    r.backoff = .exponential initial greatest limit ↔
      r.strategy = .exponential ∧ r.initialDelay = initial ∧ max r.maxDelay r.initialDelay = greatest ∧
        (if r.maxAttempts = 0 then none else some r.maxAttempts) = limit := by
  cases hstrategy : r.strategy <;> simp [backoff, hstrategy]

/-- However a backoff is configured, it gives a delay for exactly the attempts that the limit allows, so
once it gives up it has given up for good. The delays begin with the initial one, never get shorter and
stay within the greater of the two that are configured. They fit into a span, and what is computed in
bounded words is the same as without bounds, to the nanosecond. -/
theorem backoff_keeps_bounds (hinitial : r.initialDelay < 2 ^ 64) (hgreatest : r.maxDelay < 2 ^ 64) :
    let delay? := r.backoff.delay?
    (∀ attempt, (∃ d, delay? attempt = some d) ↔
      1 ≤ attempt ∧ r.strategy ≠ .never ∧ (r.maxAttempts = 0 ∨ attempt ≤ r.maxAttempts)) ∧
    (∀ attempt later, 1 ≤ attempt → attempt ≤ later → delay? attempt = none → delay? later = none) ∧
    (∀ attempt later d d', attempt ≤ later → delay? attempt = some d → delay? later = some d' →
      d ≤ d') ∧
    (∀ d, delay? 1 = some d → d = r.initialDelay) ∧
    ∀ attempt d, delay? attempt = some d →
      d ≤ max r.initialDelay r.maxDelay ∧ (r.strategy = .fixed → d = r.initialDelay) ∧
      1000000 * d < Span.bound ∧
      ∀ initial greatest limit, r.backoff = .exponential initial greatest limit →
        (Backoff.factor attempt).toNat = 2 ^ min (attempt - 1) 16 ∧
        d = min (initial * 2 ^ min (attempt - 1) 16) greatest ∧
        ∃ s, doubling? (.ofMilliseconds initial) (.ofMilliseconds greatest) limit attempt = some s ∧
          s.nanoseconds = 1000000 * d := by
  have hdelay {attempt d : ℕ} :
      r.backoff.delay? attempt = some d ↔ r.Allows attempt ∧ d = r.exactDelay attempt :=
    delay?_backoff_eq_some_iff hinitial hgreatest
  have hsome (attempt : ℕ) : (∃ d, r.backoff.delay? attempt = some d) ↔ r.Allows attempt := by
    simp [hdelay]
  refine ⟨hsome, ?_, ?_, ?_, ?_⟩
  · intro attempt later hfirst hle hnone
    by_contra hlater
    obtain ⟨-, hstrategy, hlimit⟩ := (hsome later).1 (Option.ne_none_iff_exists'.1 hlater)
    obtain ⟨d, hd⟩ := (hsome attempt).2 ⟨hfirst, hstrategy, by omega⟩
    exact absurd hd (by simp [hnone])
  · intro attempt later d d' hle hd hd'
    rw [(hdelay.1 hd).2, (hdelay.1 hd').2]
    exact r.exactDelay_mono hle
  · intro d hd
    rw [(hdelay.1 hd).2, exactDelay_one]
  · intro attempt d hd
    obtain ⟨hallows, rfl⟩ := hdelay.1 hd
    have hle := r.exactDelay_le attempt
    refine ⟨hle, fun hfixed ↦ if_pos hfixed, ?_, ?_⟩
    · simp only [Span.bound]
      omega
    · intro initial greatest limit hbackoff
      obtain ⟨hstrategy, rfl, rfl, rfl⟩ := backoff_eq_exponential_iff.1 hbackoff
      have hne : r.strategy ≠ .fixed := by simp [hstrategy]
      have hwithin := (allows_iff (by simp [hstrategy])).1 hallows
      obtain ⟨s, hs⟩ := exists_doubling?_eq_some _ _ hwithin
      refine ⟨Backoff.toNat_factor attempt, ?_, s, hs, ?_⟩
      · rw [exactDelay, if_neg hne, Nat.max_comm]
      · exact ((doubling?_eq_some_exactDelay_iff hinitial hgreatest hne _ _).1 hs).2

theorem backoff_keeps_bounds_farApart :
    let r : Reconnect := { initialDelay := 2 ^ 64 - 1, maxDelay := 1, maxAttempts := 0 }
    r.initialDelay < 2 ^ 64 ∧ r.maxDelay < 2 ^ 64 ∧
      ∃ d, r.backoff.delay? 4294967295 = some d ∧ d ≤ max r.initialDelay r.maxDelay ∧
        1000000 * d < Span.bound := by
  intro r
  have hinitial : r.initialDelay < 2 ^ 64 := by decide
  have hgreatest : r.maxDelay < 2 ^ 64 := by decide
  obtain ⟨hsome, -, -, -, hbounds⟩ := backoff_keeps_bounds hinitial hgreatest
  obtain ⟨d, hd⟩ := (hsome 4294967295).2 ⟨by decide, by decide, .inl rfl⟩
  obtain ⟨hle, -, hspan, -⟩ := hbounds _ d hd
  exact ⟨hinitial, hgreatest, d, hd, hle, hspan⟩

end Settings.Reconnect
end AgentReply
