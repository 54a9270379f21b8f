import AgentReply.Text.Utf8
import Mathlib.Data.List.Basic

/-!
# UTF-8

A character is read from the octets that it is written as, whatever is behind them, and from no others.
So octets are decoded if they are valid UTF-8, and only then. They may be decoded piece by piece: what is left
of one piece is put before the next one.
-/

namespace AgentReply.Utf8

variable {a b d e : UInt8} {s rest : List UInt8} {c : Char} {chars : List Char}

/-! ### Encoded characters -/

theorem lead?_two {n : ℕ} (h : 0xC2 ≤ n) (h' : n ≤ 0xDF) : lead? n = some ⟨1, 0x80, 0xBF, n - 0xC0⟩ := by
  rw [lead?, if_neg (by omega), if_pos (by simp [h, h'])]

theorem lead?_three {n : ℕ} (h : 0xE0 ≤ n) (h' : n ≤ 0xEF) :
    lead? n = some ⟨2, if n = 0xE0 then 0xA0 else 0x80, if n = 0xED then 0x9F else 0xBF, n - 0xE0⟩ := by
  by_cases hfirst : n = 0xE0
  · subst hfirst
    rfl
  · by_cases hlast : n = 0xED
    · subst hlast
      rfl
    · rw [lead?, if_neg (by omega), if_neg (by simp; omega), if_neg (by simpa), if_neg (by simpa),
        if_pos (by simp; omega), if_neg hfirst, if_neg hlast]

theorem lead?_four {n : ℕ} (h : 0xF0 ≤ n) (h' : n ≤ 0xF4) :
    lead? n = some ⟨3, if n = 0xF0 then 0x90 else 0x80, if n = 0xF4 then 0x8F else 0xBF, n - 0xF0⟩ := by
  obtain rfl | rfl | rfl | rfl | rfl : n = 0xF0 ∨ n = 0xF1 ∨ n = 0xF2 ∨ n = 0xF3 ∨ n = 0xF4 := by omega
  all_goals rfl

theorem lead?_cases {n : ℕ} {lead : Lead} (h : lead? n = some lead) :
    n < 0x80 ∨ 0xC2 ≤ n ∧ n ≤ 0xDF ∨ 0xE0 ≤ n ∧ n ≤ 0xEF ∨ 0xF0 ≤ n ∧ n ≤ 0xF4 := by
  by_contra hn
  rw [lead?, if_neg (by omega), if_neg (by simp; omega), if_neg (by simp; omega), if_neg (by simp; omega),
    if_neg (by simp; omega), if_neg (by simp; omega), if_neg (by simp; omega), if_neg (by simp; omega)] at h
  cases h

theorem continuation_zero_eq_ok {least greatest code taken : ℕ} :
    continuation 0 least greatest code taken s = .ok (c, rest) ↔ Char.ofNat code = c ∧ s = rest := by
  simp [continuation]

theorem continuation_succ_eq_ok {owed least greatest code taken : ℕ} :
    continuation (owed + 1) least greatest code taken s = .ok (c, rest) ↔
      ∃ b more, s = b :: more ∧ least ≤ b.toNat ∧ b.toNat ≤ greatest ∧
        continuation owed 0x80 0xBF (code * 0x40 + (b.toNat - 0x80)) (taken + 1) more = .ok (c, rest) := by
  cases s with
  | nil => simp [continuation]
  | cons b more =>
    simp only [continuation, Bool.and_eq_true, decide_eq_true_eq]
    constructor
    · intro h
      split at h
      · next hrange => exact ⟨b, more, rfl, hrange.1, hrange.2, h⟩
      · cases h
    · rintro ⟨_, _, heq, hleast, hgreatest, h⟩
      obtain ⟨rfl, rfl⟩ := List.cons.inj heq
      rw [if_pos ⟨hleast, hgreatest⟩, h]

theorem ofNat_eq {n : ℕ} (h : n = a.toNat) : UInt8.ofNat n = a := h ▸ UInt8.ofNat_toNat

theorem toNat_val_ofNat {n : ℕ} (h : n.isValidChar) : (Char.ofNat n).val.toNat = n := by
  rw [Char.ofNat, dif_pos h]
  rfl

/-! A character is written as the octets that it is read from. -/

theorem char_one {n : ℕ} (hn : n = a.toNat) (ha : a.toNat < 0x80) :
    String.utf8EncodeChar (Char.ofNat n) = [a] ∧ ∀ rest, firstChar a rest = .ok (Char.ofNat n, rest) := by
  constructor
  · rw [String.utf8EncodeChar, toNat_val_ofNat (.inl (by omega)), if_pos (by omega), ofNat_eq hn]
  · intro rest
    rw [firstChar, lead?, if_pos ha, hn]
    rfl

theorem char_two {n : ℕ} (hn : n = (a.toNat - 0xC0) * 0x40 + (b.toNat - 0x80)) (ha : 0xC2 ≤ a.toNat)
    (ha' : a.toNat ≤ 0xDF) (hb : 0x80 ≤ b.toNat) (hb' : b.toNat ≤ 0xBF) :
    String.utf8EncodeChar (Char.ofNat n) = [a, b] ∧
      ∀ rest, firstChar a (b :: rest) = .ok (Char.ofNat n, rest) := by
  constructor
  · rw [String.utf8EncodeChar, toNat_val_ofNat (.inl (by omega)), if_neg (by omega), if_pos (by omega),
      ofNat_eq (a := a) (by omega), ofNat_eq (a := b) (by omega)]
  · intro rest
    rw [firstChar, lead?_two ha ha', hn]
    exact continuation_succ_eq_ok.2 ⟨b, rest, rfl, hb, hb', rfl⟩

theorem char_three {n : ℕ} (hn : n = ((a.toNat - 0xE0) * 0x40 + (b.toNat - 0x80)) * 0x40 + (d.toNat - 0x80))
    (ha : 0xE0 ≤ a.toNat) (ha' : a.toNat ≤ 0xEF) (hb : (if a.toNat = 0xE0 then 0xA0 else 0x80) ≤ b.toNat)
    (hb' : b.toNat ≤ if a.toNat = 0xED then 0x9F else 0xBF) (hd : 0x80 ≤ d.toNat) (hd' : d.toNat ≤ 0xBF) :
    String.utf8EncodeChar (Char.ofNat n) = [a, b, d] ∧
      ∀ rest, firstChar a (b :: d :: rest) = .ok (Char.ofNat n, rest) := by
  constructor
  · have hleast : 0x80 ≤ b.toNat := by split at hb <;> omega
    have hgreatest : b.toNat ≤ 0xBF := by split at hb' <;> omega
    have hlong : 0x7FF < n := by split at hb <;> omega
    have hvalid : n.isValidChar := by
      unfold Nat.isValidChar
      split at hb' <;> omega
    rw [String.utf8EncodeChar, toNat_val_ofNat hvalid, if_neg (by omega), if_neg (by omega),
      if_pos (by omega), ofNat_eq (a := a) (by omega), ofNat_eq (a := b) (by omega),
      ofNat_eq (a := d) (by omega)]
  · intro rest
    rw [firstChar, lead?_three ha ha', hn]
    refine continuation_succ_eq_ok.2 ⟨b, _, rfl, hb, hb', ?_⟩
    exact continuation_succ_eq_ok.2 ⟨d, rest, rfl, hd, hd', rfl⟩

theorem char_four {n : ℕ}
    (hn : n = (((a.toNat - 0xF0) * 0x40 + (b.toNat - 0x80)) * 0x40 + (d.toNat - 0x80)) * 0x40 +
      (e.toNat - 0x80))
    (ha : 0xF0 ≤ a.toNat) (ha' : a.toNat ≤ 0xF4) (hb : (if a.toNat = 0xF0 then 0x90 else 0x80) ≤ b.toNat)
    (hb' : b.toNat ≤ if a.toNat = 0xF4 then 0x8F else 0xBF) (hd : 0x80 ≤ d.toNat) (hd' : d.toNat ≤ 0xBF)
    (he : 0x80 ≤ e.toNat) (he' : e.toNat ≤ 0xBF) :
    String.utf8EncodeChar (Char.ofNat n) = [a, b, d, e] ∧
      ∀ rest, firstChar a (b :: d :: e :: rest) = .ok (Char.ofNat n, rest) := by
  constructor
  · have hleast : 0x80 ≤ b.toNat := by split at hb <;> omega
    have hgreatest : b.toNat ≤ 0xBF := by split at hb' <;> omega
    have hlong : 0xFFFF < n := by split at hb <;> omega
    have hvalid : n.isValidChar := .inr ⟨by omega, by split at hb' <;> omega⟩
    rw [String.utf8EncodeChar, toNat_val_ofNat hvalid, if_neg (by omega), if_neg (by omega),
      if_neg (by omega), ofNat_eq (a := a) (by omega), ofNat_eq (a := b) (by omega), ofNat_eq (a := d) (by omega),
      ofNat_eq (a := e) (by omega)]
  · intro rest
    rw [firstChar, lead?_four ha ha', hn]
    refine continuation_succ_eq_ok.2 ⟨b, _, rfl, hb, hb', ?_⟩
    refine continuation_succ_eq_ok.2 ⟨d, _, rfl, hd, hd', ?_⟩
    exact continuation_succ_eq_ok.2 ⟨e, rest, rfl, he, he', rfl⟩

/-- A character that is read is written as the octets that were taken. -/
theorem encode_of_firstChar (h : firstChar a s = .ok (c, rest)) :
    a :: s = String.utf8EncodeChar c ++ rest := by
  unfold firstChar at h
  split at h
  · next lead hlead =>
    rcases lead?_cases hlead with ha | ⟨ha, ha'⟩ | ⟨ha, ha'⟩ | ⟨ha, ha'⟩
    · rw [lead?, if_pos ha] at hlead
      obtain rfl := Option.some.inj hlead
      obtain ⟨rfl, rfl⟩ := continuation_zero_eq_ok.1 h
      rw [(char_one rfl ha).1]
      rfl
    · rw [lead?_two ha ha'] at hlead
      obtain rfl := Option.some.inj hlead
      obtain ⟨b, _, rfl, hb, hb', h⟩ := continuation_succ_eq_ok.1 h
      obtain ⟨rfl, rfl⟩ := continuation_zero_eq_ok.1 h
      rw [(char_two rfl ha ha' hb hb').1]
      rfl
    · rw [lead?_three ha ha'] at hlead
      obtain rfl := Option.some.inj hlead
      obtain ⟨b, _, rfl, hb, hb', h⟩ := continuation_succ_eq_ok.1 h
      obtain ⟨d, _, rfl, hd, hd', h⟩ := continuation_succ_eq_ok.1 h
      obtain ⟨rfl, rfl⟩ := continuation_zero_eq_ok.1 h
      rw [(char_three rfl ha ha' hb hb' hd hd').1]
      rfl
    · rw [lead?_four ha ha'] at hlead
      obtain rfl := Option.some.inj hlead
      obtain ⟨b, _, rfl, hb, hb', h⟩ := continuation_succ_eq_ok.1 h
      obtain ⟨d, _, rfl, hd, hd', h⟩ := continuation_succ_eq_ok.1 h
      obtain ⟨e, _, rfl, he, he', h⟩ := continuation_succ_eq_ok.1 h
      obtain ⟨rfl, rfl⟩ := continuation_zero_eq_ok.1 h
      rw [(char_four rfl ha ha' hb hb' hd hd' he he').1]
      rfl
  · cases h

/-- The octets of a character are read, whatever is behind them. -/
theorem firstChar_encodeChar (c : Char) (rest : List UInt8) :
    ∃ a s, String.utf8EncodeChar c = a :: s ∧ firstChar a (s ++ rest) = .ok (c, rest) := by
  have hvalid : c.val.toNat < 0xD800 ∨ 0xDFFF < c.val.toNat ∧ c.val.toNat < 0x110000 := c.valid
  have hc : Char.ofNat c.val.toNat = c := Char.ofNat_toNat c
  generalize hv : c.val.toNat = v at hvalid hc
  have hoctet : ∀ n < 0x100, (UInt8.ofNat n).toNat = n := fun n hn ↦ by
    rw [UInt8.toNat_ofNat', Nat.mod_eq_of_lt hn]
  rw [String.utf8EncodeChar, hv, ← hc]
  split
  · have ha := hoctet v (by omega)
    exact ⟨_, _, rfl, (char_one (by omega) (by omega)).2 _⟩
  · split
    · have ha := hoctet (v / 64 % 32 + 192) (by omega)
      have hb := hoctet (v % 64 + 128) (by omega)
      exact ⟨_, _, rfl, (char_two (by omega) (by omega) (by omega) (by omega) (by omega)).2 _⟩
    · split
      · have ha := hoctet (v / 4096 % 16 + 224) (by omega)
        have hb := hoctet (v / 64 % 64 + 128) (by omega)
        have hd := hoctet (v % 64 + 128) (by omega)
        refine ⟨_, _, rfl, (char_three ?_ ?_ ?_ ?_ ?_ ?_ ?_).2 _⟩
        · omega
        · omega
        · omega
        · split <;> omega
        · split <;> omega
        · omega
        · omega
      · have ha := hoctet (v / 262144 % 8 + 240) (by omega)
        have hb := hoctet (v / 4096 % 64 + 128) (by omega)
        have hd := hoctet (v / 64 % 64 + 128) (by omega)
        have he := hoctet (v % 64 + 128) (by omega)
        refine ⟨_, _, rfl, (char_four ?_ ?_ ?_ ?_ ?_ ?_ ?_ ?_ ?_).2 _⟩
        · omega
        · omega
        · omega
        · split <;> omega
        · split <;> omega
        · omega
        · omega
        · omega
        · omega

theorem firstChar_eq_ok_iff : firstChar a s = .ok (c, rest) ↔ a :: s = String.utf8EncodeChar c ++ rest := by
  refine ⟨encode_of_firstChar, fun h ↦ ?_⟩
  obtain ⟨a', s', hc, hfirst⟩ := firstChar_encodeChar c rest
  rw [hc] at h
  obtain ⟨rfl, rfl⟩ := List.cons.inj h
  exact hfirst

/-! ### Texts -/

theorem decode_of_ok (h : firstChar a s = .ok (c, rest)) :
    decode (a :: s) = { decode rest with chars := c :: (decode rest).chars } := by
  rw [decode]
  split
  · next d rest' heq =>
    rw [h] at heq
    obtain ⟨rfl, rfl⟩ := Prod.mk.inj (Except.ok.inj heq)
    rfl
  · next stop heq =>
    rw [h] at heq
    cases heq

theorem encode_cons (c : Char) (chars : List Char) :
    encode (c :: chars) = String.utf8EncodeChar c ++ encode chars := List.flatMap_cons

theorem decode_encode (chars : List Char) : decode (encode chars) = ⟨chars, [], .atEnd⟩ := by
  induction chars with
  | nil => simp [encode, decode]
  | cons c chars ih =>
    obtain ⟨a, s, hc, hfirst⟩ := firstChar_encodeChar c (encode chars)
    rw [encode_cons, hc, List.cons_append, decode_of_ok hfirst, ih]

theorem encode_chars_append_rest (s : List UInt8) : encode (decode s).chars ++ (decode s).rest = s := by
  fun_induction decode s with
  | case1 => rfl
  | case2 a s c rest hfirst _ ih =>
    rw [encode_of_firstChar hfirst, encode_cons, List.append_assoc, ih]
  | case3 a s stop hfirst => rfl

theorem decode?_encode (chars : List Char) : decode? (encode chars) = some (String.ofList chars) := by
  rw [decode?, decode_encode]
  rfl

/-- Octets are decoded if and only if they are valid UTF-8, and as the text that they are. -/
theorem decode?_eq_fromUTF8? (s : List UInt8) : decode? s = String.fromUTF8? s.toByteArray := by
  rw [String.fromUTF8?]
  split
  · next hvalid =>
    obtain ⟨chars, hchars⟩ := hvalid
    obtain rfl : s = encode chars := List.toByteArray_inj.1 hchars
    exact decode?_encode chars
  · next hinvalid =>
    rw [decode?]
    split
    · next hrest =>
      have hwhole := encode_chars_append_rest s
      rw [List.isEmpty_iff.1 hrest, List.append_nil] at hwhole
      exact absurd ⟨(decode s).chars, congrArg List.toByteArray hwhole.symm⟩ hinvalid
    · rfl

/-! ### ASCII -/

theorem encode_ascii (h : ∀ c ∈ chars, c.toNat < 0x80) :
    encode chars = chars.map fun c ↦ UInt8.ofNat c.toNat := by
  induction chars with
  | nil => rfl
  | cons c chars ih =>
    rw [List.forall_mem_cons] at h
    have hval : c.val.toNat ≤ 127 := Nat.le_of_lt_succ h.1
    rw [encode_cons, String.utf8EncodeChar, if_pos hval, ih h.2]
    rfl

/-! ### Pieces -/

theorem firstChar_append (h : firstChar a s = .ok (c, rest)) (more : List UInt8) :
    firstChar a (s ++ more) = .ok (c, rest ++ more) := by
  rw [firstChar_eq_ok_iff] at h ⊢
  rw [← List.append_assoc, ← h, List.cons_append]

/-- What is left of some octets is decoded with those that follow. -/
theorem decode_append (s more : List UInt8) :
    decode (s ++ more) =
      { decode ((decode s).rest ++ more) with
        chars := (decode s).chars ++ (decode ((decode s).rest ++ more)).chars } := by
  fun_induction decode s with
  | case1 => rfl
  | case2 a s c rest hfirst _ ih =>
    rw [List.cons_append, decode_of_ok (firstChar_append hfirst more), ih]
    rfl
  | case3 a s stop hfirst => rfl

end AgentReply.Utf8
