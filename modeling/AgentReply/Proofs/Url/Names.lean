import AgentReply.Proofs.Text.Digits
import AgentReply.Proofs.Text.Items
import AgentReply.Proofs.Text.Marks
import AgentReply.Proofs.Text.Utf8
import AgentReply.Proofs.Url.Domain
import AgentReply.Proofs.Url.Punycode
import AgentReply.Url.Names

/-!
# Names that are converted again

The conversion of names in common scripts keeps to the laws. Converting a name once more changes nothing: a
label that was encoded is decoded to the label that it came from, whose characters are settled already.
-/

namespace AgentReply.Idna

open Url

/-! ### Characters -/

theorem form?_of_isSettled {c : Char} (h : isSettled c = true) : form? c = some c := by
  rw [form?, if_pos h]

theorem isSettled_of_form? {c d : Char} (h : form? c = some d) : isSettled d = true := by
  unfold form? at h
  split at h
  · next hsettled => rwa [← Option.some.inj h]
  · obtain ⟨⟨first, last, distance⟩, hfind, rfl⟩ := Option.map_eq_some_iff.1 h
    -- The small letters of a range of capitals lie within one range of settled characters.
    have hsmall : ∀ r ∈ capitalRanges, ∃ r' ∈ settledRanges,
        r'.1 ≤ r.1 + r.2.2 ∧ r.2.1 + r.2.2 ≤ r'.2 ∧ r'.2 < 0xD800 := by decide
    obtain ⟨range, hrange, hlow, hhigh, hvalid⟩ := hsmall _ (List.mem_of_find?_eq_some hfind)
    have hcapital := List.find?_some hfind
    simp only [Bool.and_eq_true, decide_eq_true_eq] at hcapital hlow hhigh
    have hchar : (c.toNat + distance).isValidChar := .inl (by omega)
    have hnat : (Char.ofNat (c.toNat + distance)).toNat = c.toNat + distance := Utf8.toNat_val_ofNat hchar
    rw [isSettled, List.any_eq_true]
    refine ⟨range, hrange, ?_⟩
    simp only [hnat, Bool.and_eq_true, decide_eq_true_eq]
    omega

theorem mapM_form? {s : List Char} (h : ∀ c ∈ s, isSettled c = true) : s.mapM form? = some s := by
  have hs := Text.mapM_map_eq_some (f := id) (g := form?) fun c hc ↦ form?_of_isSettled (h c hc)
  rwa [List.map_id] at hs

/-! ### Labels -/

/-- A character of a label before it is put in ASCII. -/
structure IsLabelChar (c : Char) : Prop where
  settled : isSettled c = true
  allowed : isForbidden c = false
  noDot : c ≠ '.'

/-- A label in ASCII. -/
structure IsLabel (label : List Char) : Prop where
  chars : ∀ c ∈ label, IsLabelChar c ∧ Punycode.isBasic c = true
  ascii : asciiLabel? label = some label

variable {label out : List Char}

theorem IsLabel.isDomainChar (h : IsLabel label) : ∀ c ∈ label, isDomainChar c = true := by
  intro c hc
  obtain ⟨hchar, hbasic⟩ := h.chars c hc
  rw [Idna.isDomainChar, hchar.allowed]
  simpa [Punycode.isBasic] using hbasic

theorem isLabelChar_digitChar {d : ℕ} (h : d < 36) :
    IsLabelChar (Punycode.digitChar d) ∧ Punycode.isBasic (Punycode.digitChar d) = true := by
  have hall : ∀ d < 36, isSettled (Punycode.digitChar d) = true ∧
      isForbidden (Punycode.digitChar d) = false ∧ Punycode.digitChar d ≠ '.' ∧
        Punycode.isBasic (Punycode.digitChar d) = true := by decide +kernel
  obtain ⟨hsettled, hallowed, hdot, hbasic⟩ := hall d h
  exact ⟨⟨hsettled, hallowed, hdot⟩, hbasic⟩

theorem isLabelChar_encode (h : ∀ c ∈ label, IsLabelChar c) :
    ∀ c ∈ Punycode.encode label, IsLabelChar c ∧ Punycode.isBasic c = true := by
  intro c hc
  simp only [Punycode.encode, List.mem_append] at hc
  rcases hc with (hc | hc) | hc
  · obtain ⟨hc, hbasic⟩ := List.mem_filter.1 hc
    exact ⟨h c hc, hbasic⟩
  · split at hc
    · simp at hc
    · rw [List.mem_singleton.1 hc]
      exact ⟨⟨by decide, by decide, by decide⟩, by decide⟩
  · exact Punycode.written_writeCodes (P := fun c ↦ IsLabelChar c ∧ Punycode.isBasic c = true)
      (fun _ ↦ isLabelChar_digitChar) label _ (by simp) c hc

/-- The mark of an encoded label has such characters too. -/
theorem isLabelChar_mark_append (h : ∀ c ∈ label, IsLabelChar c ∧ Punycode.isBasic c = true) :
    ∀ c ∈ 'x' :: 'n' :: '-' :: '-' :: label, IsLabelChar c ∧ Punycode.isBasic c = true := by
  have hmark : ∀ c ∈ "xn--".toList, isSettled c = true ∧ isForbidden c = false ∧ c ≠ '.' ∧
      Punycode.isBasic c = true := by decide
  intro c hc
  rcases List.mem_append.1 (show c ∈ "xn--".toList ++ label from hc) with hc | hc
  · obtain ⟨hsettled, hallowed, hdot, hbasic⟩ := hmark c hc
    exact ⟨⟨hsettled, hallowed, hdot⟩, hbasic⟩
  · exact h c hc

theorem asciiLabel?_encode (h : ∀ c ∈ label, IsLabelChar c) (hbasic : label.all Punycode.isBasic = false) :
    asciiLabel? ('x' :: 'n' :: '-' :: '-' :: Punycode.encode label) =
      some ('x' :: 'n' :: '-' :: '-' :: Punycode.encode label) := by
  have hany : (label.any fun c ↦ !Punycode.isBasic c) = true := by
    rw [List.any_eq_not_all_not]
    simpa using hbasic
  have hsettled : label.all isSettled = true := List.all_eq_true.2 fun c hc ↦ (h c hc).settled
  simp only [asciiLabel?, Punycode.decode?_encode, Option.bind_eq_bind, Option.bind_some, hany, hsettled,
    beq_self_eq_true, Bool.and_self, if_true]

theorem isLabel_of_asciiLabel? (h : ∀ c ∈ label, IsLabelChar c) (hout : asciiLabel? label = some out) :
    IsLabel out := by
  have hascii := hout
  unfold asciiLabel? at hout
  split at hout
  · next encoded =>
    obtain ⟨decoded, hdecoded, hout⟩ := Option.bind_eq_some_iff.1 hout
    split at hout
    · next hvalid =>
      obtain rfl := Option.some.inj hout
      simp only [Bool.and_eq_true, beq_iff_eq] at hvalid
      have hbasic : ∀ c ∈ encoded, Punycode.isBasic c = true :=
        hvalid.2 ▸ Punycode.all_isBasic_encode decoded
      exact ⟨isLabelChar_mark_append fun c hc ↦ ⟨h c (by simp [hc]), hbasic c hc⟩, hascii⟩
    · cases hout
  · split at hout
    · next hall =>
      obtain rfl := Option.some.inj hout
      exact ⟨fun c hc ↦ ⟨h c hc, List.all_eq_true.1 hall c hc⟩, hascii⟩
    · next hall =>
      obtain rfl := Option.some.inj hout
      exact ⟨isLabelChar_mark_append (isLabelChar_encode h), asciiLabel?_encode h (by simpa using hall)⟩

/-! ### Names -/

variable {name s : List Char}

theorem ascii?_intercalate {labels : List (List Char)} (hne : labels ≠ [])
    (h : ∀ label ∈ labels, IsLabel label) :
    ascii? (['.'].intercalate labels) = some (['.'].intercalate labels) := by
  have hchars : ∀ c ∈ ['.'].intercalate labels, isSettled c = true ∧ isForbidden c = false := by
    intro c hc
    rcases Text.mem_intercalate hc with rfl | ⟨label, hlabel, hc⟩
    · decide
    · have hchar := ((h label hlabel).chars c hc).1
      exact ⟨hchar.settled, hchar.allowed⟩
  have hallowed : (['.'].intercalate labels).any isForbidden = false := by
    rw [List.any_eq_false]
    exact fun c hc ↦ by simp [(hchars c hc).2]
  have hsplit : (['.'].intercalate labels).splitOn '.' = labels.map id := by
    rw [List.map_id]
    refine List.splitOn_intercalate '.' (fun label hlabel hdot ↦ ?_) hne
    exact ((h label hlabel).chars _ hdot).1.noDot rfl
  have hascii := Text.mapM_map_eq_some (f := id) fun label hlabel ↦ (h label hlabel).ascii
  rw [ascii?, mapM_form? fun c hc ↦ (hchars c hc).1]
  simp only [Option.bind_eq_bind, Option.bind_some, hallowed, hsplit, hascii, Bool.false_eq_true, if_false]

theorem exists_labels (h : ascii? s = some name) :
    ∃ labels, labels ≠ [] ∧ name = ['.'].intercalate labels ∧ ∀ label ∈ labels, IsLabel label := by
  obtain ⟨t, ht, h⟩ := Option.bind_eq_some_iff.1 h
  have hsettled : ∀ c ∈ t, isSettled c = true :=
    Text.forall_of_mapM ht fun c _ d hd ↦ isSettled_of_form? hd
  split at h
  · cases h
  · next hallowed =>
    obtain ⟨labels, hlabels, hname⟩ := Option.bind_eq_some_iff.1 h
    simp only [List.any_eq_true, not_exists, not_and, Bool.not_eq_true] at hallowed
    refine ⟨labels, ?_, (Option.some.inj hname).symm, ?_⟩
    · rw [← List.length_pos_iff, Text.length_of_mapM hlabels, List.length_pos_iff]
      exact List.splitOn_ne_nil _ _
    · refine Text.forall_of_mapM hlabels fun part hpart label hlabel ↦ isLabel_of_asciiLabel? ?_ hlabel
      intro c hc
      rw [List.splitOn_eq_splitOnP] at hpart
      obtain ⟨hmem, hdot⟩ := Text.mem_splitOnP hpart hc
      exact ⟨hsettled c hmem, hallowed c hmem, by simpa using hdot⟩

theorem ascii?_decimal (h : ∀ c ∈ s, c.isDigit = true ∨ c = '.') : ascii? s = some s := by
  have hdigit : ∀ d ∈ "0123456789".toList, isSettled d = true ∧ isForbidden d = false ∧ d ≠ '.' ∧
      Punycode.isBasic d = true ∧ d ≠ 'x' := by decide
  have hlabels : ∀ label ∈ s.splitOn '.', IsLabel label := by
    intro label hlabel
    rw [List.splitOn_eq_splitOnP] at hlabel
    have hchars : ∀ c ∈ label, c ∈ "0123456789".toList := by
      intro c hc
      obtain ⟨hmem, hdot⟩ := Text.mem_splitOnP hlabel hc
      exact Text.mem_digits_of_isDigit ((h c hmem).resolve_right (by simpa using hdot))
    refine ⟨fun c hc ↦ ?_, ?_⟩
    · obtain ⟨hsettled, hallowed, hdot, hbasic, -⟩ := hdigit c (hchars c hc)
      exact ⟨⟨hsettled, hallowed, hdot⟩, hbasic⟩
    · unfold asciiLabel?
      split
      · exact absurd rfl (hdigit 'x' (hchars 'x' List.mem_cons_self)).2.2.2.2
      · rw [if_pos]
        exact List.all_eq_true.2 fun c hc ↦ (hdigit c (hchars c hc)).2.2.2.1
  have hs := ascii?_intercalate (List.splitOn_ne_nil _ s) hlabels
  rwa [List.intercalate_splitOn] at hs

theorem lawful_common : @LawfulIdna common :=
  letI := common
  { allowed := by
      intro s name h c hc
      obtain ⟨labels, -, rfl, hlabels⟩ := exists_labels h
      rcases Text.mem_intercalate hc with rfl | ⟨label, hlabel, hc⟩
      · decide
      · exact (hlabels label hlabel).isDomainChar c hc
    stable := by
      intro s name h
      obtain ⟨labels, hne, rfl, hlabels⟩ := exists_labels h
      exact ascii?_intercalate hne hlabels
    decimal := ascii?_decimal }

end AgentReply.Idna
