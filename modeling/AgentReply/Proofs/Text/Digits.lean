import Mathlib.Data.List.Basic
import Mathlib.Data.Nat.Init

/-!
# Decimal digits

The digits of a number, the highest one first.
-/

namespace AgentReply.Text

theorem head?_toDigits {m : ℕ} (hm : m ≠ 0) : (Nat.toDigits 10 m).head? ≠ some '0' := by
  induction m using Nat.strong_induction_on with
  | _ m ih =>
    have hdigit : ∀ k < 10, k ≠ 0 → [k.digitChar].head? ≠ some '0' := by decide
    by_cases hlt : m < 10
    · rw [Nat.toDigits_of_lt_base hlt]
      exact hdigit m hlt hm
    · rw [Nat.toDigits_of_base_le (by decide) (by omega), List.head?_append_of_ne_nil _ Nat.toDigits_ne_nil]
      exact ih (m / 10) (by omega) (by omega)

theorem isDigit_of_mem_toDigits {m : ℕ} {c : Char} (h : c ∈ Nat.toDigits 10 m) : c.isDigit = true :=
  Nat.isDigit_of_mem_toDigits (by decide) (by decide) h

theorem isDigit_iff {c : Char} : c.isDigit = true ↔ 48 ≤ c.toNat ∧ c.toNat ≤ 57 := by
  simp [Char.isDigit, UInt32.le_iff_toNat_le]

theorem mem_digits_of_isDigit {c : Char} (h : c.isDigit = true) : c ∈ "0123456789".toList := by
  have hall : ∀ n < 10, Char.ofNat (48 + n) ∈ "0123456789".toList := by decide
  have hrange := isDigit_iff.1 h
  have hmem := hall (c.toNat - 48) (by omega)
  rwa [Nat.add_sub_cancel' hrange.1, Char.ofNat_toNat] at hmem

theorem foldl_toDigits (n : ℕ) :
    (Nat.toDigits 10 n).foldl (fun n c ↦ 10 * n + (c.toNat - '0'.toNat)) 0 = n := by
  have hfold : ∀ (ds : List Char) (start : ℕ),
      ds.foldl (fun n c ↦ 10 * n + (c.toNat - '0'.toNat)) start = Nat.ofDigitChars 10 ds start := by
    intro ds
    induction ds with
    | nil => simp
    | cons c ds ih => exact fun start ↦ by rw [List.foldl_cons, ih, Nat.ofDigitChars_cons]
  rw [hfold, Nat.ofDigitChars_ten_toDigits]

end AgentReply.Text
