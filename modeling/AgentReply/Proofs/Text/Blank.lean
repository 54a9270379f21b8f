import AgentReply.Text.Blank

/-!
# Blank characters and gaps

Whether a character is blank depends on its number alone, and not on its case. A gap is a run of blank
characters.
-/

namespace AgentReply.Text

theorem toNat_toLower (c : Char) :
    c.toLower.toNat = if 65 ≤ c.toNat ∧ c.toNat ≤ 90 then c.toNat + 32 else c.toNat := by
  have hc : c.val ≥ 'A'.val ∧ c.val ≤ 'Z'.val ↔ 65 ≤ c.toNat ∧ c.toNat ≤ 90 := by
    simp [UInt32.le_iff_toNat_le]
  delta Char.toLower
  simp only [hc]
  split
  · next h =>
    show (c.val + 32).toNat = c.toNat + 32
    rw [UInt32.toNat_add, Char.toNat_val]
    simp only [UInt32.reduceToNat]
    omega
  · rfl

theorem isBlank_iff {c : Char} : isBlank c = true ↔
    9 ≤ c.toNat ∧ c.toNat ≤ 13 ∨ c.toNat = 0x20 ∨ c.toNat = 0x85 ∨ c.toNat = 0xA0 ∨
      c.toNat = 0x1680 ∨ 0x2000 ≤ c.toNat ∧ c.toNat ≤ 0x200A ∨ c.toNat = 0x2028 ∨
      c.toNat = 0x2029 ∨ c.toNat = 0x202F ∨ c.toNat = 0x205F ∨ c.toNat = 0x3000 := by
  simp only [isBlank, Bool.or_eq_true, Bool.and_eq_true, decide_eq_true_eq, beq_iff_eq, or_assoc]

theorem isBlank_toLower (c : Char) : isBlank c.toLower = isBlank c := by
  rw [Bool.eq_iff_iff, isBlank_iff, isBlank_iff, toNat_toLower]
  split <;> omega

/-- A run of blank characters, perhaps empty. -/
def IsGap (s : List Char) : Prop := ∀ c ∈ s, isBlank c = true

instance (s : List Char) : Decidable (IsGap s) := List.decidableBAll _ s

@[simp] theorem isGap_nil : IsGap [] := by simp [IsGap]

@[simp] theorem isGap_append {s t : List Char} : IsGap (s ++ t) ↔ IsGap s ∧ IsGap t := by
  simp only [IsGap, List.mem_append, or_imp, forall_and]

theorem IsGap.of_isPrefix {s t : List Char} (h : s <+: t) (ht : IsGap t) : IsGap s :=
  fun c hc ↦ ht c (h.subset hc)

theorem IsGap.notMem {s : List Char} (h : IsGap s) {c : Char} (hc : isBlank c = false) : c ∉ s :=
  fun hm ↦ by simp [h c hm] at hc

end AgentReply.Text
