import AgentReply.Proofs.Text.Digits
import AgentReply.Proofs.Text.Items
import AgentReply.Proofs.Text.Marks
import AgentReply.Url.Host
import Mathlib.Algebra.Group.Nat.Defs
import Mathlib.Data.List.Basic

/-!
# Addresses that are written and read

An address of four octets is written as four decimal numbers, one of eight pieces as hexadecimal numbers
with the longest run of zeros left out. Both are read back.
-/

namespace AgentReply.Url.Host

variable {s : List Char} {n : ℕ}

/-! ### Numerals -/

theorem numeral?_concat (base : ℕ) (s : List Char) (c : Char) : numeral? base (s ++ [c]) =
    (numeral? base s).bind fun n ↦ match hexValue? (UInt8.ofNat (min c.toNat 0xFF)) with
      | some d => if d < base then some (base * n + d) else none
      | none => none := by
  rw [numeral?, List.foldlM_append, ← numeral?]
  simp only [List.foldlM_cons, List.foldlM_nil, Option.bind_eq_bind]
  cases numeral? base s with
  | none => rfl
  | some n =>
    simp only [Option.bind_some]
    generalize hexValue? _ = d
    cases d <;> simp

theorem hexValue?_digitChar {d : ℕ} (h : d < 16) :
    hexValue? (UInt8.ofNat (min d.digitChar.toNat 0xFF)) = some d := by
  have hall : ∀ d < 16, hexValue? (UInt8.ofNat (min d.digitChar.toNat 0xFF)) = some d := by decide
  exact hall d h

theorem numeral?_toDigits {base : ℕ} (hone : 1 < base) (hbase : base ≤ 16) (n : ℕ) :
    numeral? base (Nat.toDigits base n) = some n := by
  induction n using Nat.strong_induction_on with
  | _ n ih =>
    by_cases hlt : n < base
    · rw [Nat.toDigits_of_lt_base hlt, ← List.nil_append [n.digitChar], numeral?_concat,
        hexValue?_digitChar (by omega)]
      simp [numeral?, hlt]
    · have hdiv : n / base < n := Nat.div_lt_self (by omega) hone
      have hmod : n % base < base := Nat.mod_lt _ (by omega)
      rw [Nat.toDigits_of_base_le hone (by omega), numeral?_concat, ih _ hdiv,
        hexValue?_digitChar (by omega)]
      simp [hmod, Nat.div_add_mod]

theorem numeral?_lt {base : ℕ} (h : numeral? base s = some n) : n < base ^ s.length := by
  induction s using List.reverseRecOn generalizing n with
  | nil =>
    obtain rfl : n = 0 := by simpa [numeral?] using h.symm
    simp
  | append_singleton s c ih =>
    rw [numeral?_concat] at h
    obtain ⟨m, hm, hn⟩ := Option.bind_eq_some_iff.1 h
    have hlt := ih hm
    split at hn
    · next d _ =>
      split at hn
      · next hd =>
        obtain rfl := Option.some.inj hn
        rw [List.length_append, List.length_singleton, Nat.pow_succ]
        calc base * m + d < base * m + base := by omega
          _ = base * (m + 1) := by rw [Nat.mul_succ]
          _ ≤ base * base ^ s.length := Nat.mul_le_mul_left _ hlt
          _ = base ^ s.length * base := Nat.mul_comm _ _
      · cases hn
    · cases hn

/-! ### Addresses of four octets -/

theorem ipv4Part?_of_head? (hne : s ≠ []) (hhead : s.head? ≠ some '0') :
    ipv4Part? s = numeral? 10 s := by
  unfold ipv4Part?
  split
  · exact absurd rfl hne
  all_goals first | rfl | simp at hhead

theorem ipv4Part?_toDigits (n : ℕ) : ipv4Part? (Nat.toDigits 10 n) = some n := by
  by_cases hn : n = 0
  · subst hn
    decide
  · rw [ipv4Part?_of_head? Nat.toDigits_ne_nil (Text.head?_toDigits hn),
      numeral?_toDigits (by omega) (by omega)]

/-- The digits to a base of sixteen or less. -/
def isHexChar (c : Char) : Bool := "0123456789abcdef".toList.contains c

theorem isHexChar_of_mem_toDigits {base : ℕ} (hone : 1 < base) (hbase : base ≤ 16) {c : Char}
    (h : c ∈ Nat.toDigits base n) : isHexChar c = true := by
  have hdigit : ∀ d < 16, isHexChar d.digitChar = true := by decide
  induction n using Nat.strong_induction_on with
  | _ n ih =>
    by_cases hlt : n < base
    · rw [Nat.toDigits_of_lt_base hlt, List.mem_singleton] at h
      rw [h]
      exact hdigit n (by omega)
    · rw [Nat.toDigits_of_base_le hone (by omega), List.mem_append, List.mem_singleton] at h
      rcases h with h | rfl
      · exact ih (n / base) (Nat.div_lt_self (by omega) hone) h
      · have hmod : n % base < base := Nat.mod_lt _ (by omega)
        exact hdigit _ (by omega)

theorem notMem_toDigits {base : ℕ} (hone : 1 < base) (hbase : base ≤ 16) {c : Char}
    (hc : isHexChar c = false) (n : ℕ) : c ∉ Nat.toDigits base n := by
  intro h
  rw [isHexChar_of_mem_toDigits hone hbase h] at hc
  cases hc

/-- The octets of an address. -/
def octets (address : ℕ) : List ℕ :=
  [address / 256 ^ 3 % 256, address / 256 ^ 2 % 256, address / 256 ^ 1 % 256, address / 256 ^ 0 % 256]

theorem writeIpv4_eq (address : ℕ) :
    writeIpv4 address = ['.'].intercalate ((octets address).map (Nat.toDigits 10)) := by
  have htext : ∀ n : ℕ, (toString n).toList = Nat.toDigits 10 n := fun n ↦ Nat.toList_repr
  simp only [writeIpv4, htext, octets, List.map_cons, List.map_nil, List.intercalate_cons_cons,
    List.intercalate_singleton]
  simp

theorem dottedParts_writeIpv4 (address : ℕ) :
    dottedParts (writeIpv4 address) = (octets address).map (Nat.toDigits 10) := by
  have hsplit : (writeIpv4 address).splitOn '.' = (octets address).map (Nat.toDigits 10) := by
    rw [writeIpv4_eq]
    apply List.splitOn_intercalate
    · simp only [octets, List.mem_map]
      rintro _ ⟨n, -, rfl⟩
      exact notMem_toDigits (by omega) (by omega) (by decide) n
    · simp [octets]
  rw [dottedParts, hsplit, if_neg]
  simp [octets, Nat.toDigits_ne_nil]

theorem ipv4?_writeIpv4 {address : ℕ} (h : address < 256 ^ 4) :
    ipv4? (writeIpv4 address) = some (.ipv4 address) := by
  have hoctet : ∀ n, n % 256 < 256 := fun n ↦ Nat.mod_lt _ (by omega)
  rw [ipv4?, dottedParts_writeIpv4, Text.mapM_map_eq_some fun n _ ↦ ipv4Part?_toDigits n]
  simp [octets, hoctet]
  omega

theorem endsInNumber_writeIpv4 (address : ℕ) : endsInNumber (writeIpv4 address) = true := by
  rw [endsInNumber, dottedParts_writeIpv4]
  have hdigits : ∀ n : ℕ, (Nat.toDigits 10 n).all Char.isDigit = true := fun n ↦
    List.all_eq_true.2 fun c ↦ Text.isDigit_of_mem_toDigits
  simp [octets, hdigits, Nat.toDigits_ne_nil]

theorem foldl_octets_lt {numbers : List ℕ} (h : ∀ n ∈ numbers, n < 256) :
    numbers.foldl (fun high octet ↦ 256 * high + octet) 0 < 256 ^ numbers.length := by
  induction numbers using List.reverseRecOn with
  | nil => simp
  | append_singleton numbers octet ih =>
    rw [List.forall_mem_append] at h
    have hlt := ih h.1
    have hoctet := h.2 octet (List.mem_singleton_self octet)
    rw [List.foldl_concat, List.length_append, List.length_singleton, Nat.pow_succ]
    omega

theorem ipv4?_lt {host : Host} (h : ipv4? s = some host) :
    ∃ address < 256 ^ 4, host = .ipv4 address := by
  simp only [ipv4?, Option.bind_eq_bind, Option.bind_eq_some_iff] at h
  obtain ⟨numbers, -, last, -, h⟩ := h
  split at h
  · next hvalid =>
    simp only [Bool.and_eq_true, decide_eq_true_eq, List.all_eq_true] at hvalid
    obtain ⟨⟨hlength, hoctets⟩, hlast⟩ := hvalid
    refine ⟨_, ?_, (Option.some.inj h).symm⟩
    have hhigh := foldl_octets_lt hoctets
    generalize numbers.dropLast.foldl _ 0 = high at hhigh
    generalize numbers.dropLast.length = count at hlength hlast hhigh
    rw [Nat.pow_eq] at hlast ⊢
    calc high * 256 ^ (4 - count) + last < high * 256 ^ (4 - count) + 256 ^ (4 - count) := by omega
      _ = (high + 1) * 256 ^ (4 - count) := by rw [Nat.succ_mul]
      _ ≤ 256 ^ count * 256 ^ (4 - count) := Nat.mul_le_mul_right _ hhigh
      _ = 256 ^ 4 := by rw [← Nat.pow_add, Nat.add_sub_cancel' (by omega)]
  · cases h

/-! ### Addresses of eight pieces -/

theorem hexPiece?_toDigits (h : n < 0x10000) : pieces?.hexPiece? (Nat.toDigits 16 n) = some n := by
  have hlength : (Nat.toDigits 16 n).length ≤ 4 := (Nat.length_toDigits_le_iff (by omega) (by omega)).2 h
  rw [pieces?.hexPiece?, if_neg, numeral?_toDigits (by omega) (by omega)]
  simp [Nat.toDigits_ne_nil, hlength]

theorem splitOn_writePieces {pieces : List ℕ} (hne : pieces ≠ []) :
    (writePieces pieces).splitOn ':' = pieces.map (Nat.toDigits 16) := by
  rw [writePieces]
  apply List.splitOn_intercalate
  · simp only [List.mem_map]
    rintro _ ⟨n, -, rfl⟩
    exact notMem_toDigits (by omega) (by omega) (by decide) n
  · simpa using hne

theorem writePieces_cons (n : ℕ) (pieces : List ℕ) : writePieces (n :: pieces) =
    Nat.toDigits 16 n ++ (if pieces.isEmpty then [] else ':' :: writePieces pieces) := by
  cases pieces with
  | nil => simp [writePieces]
  | cons m pieces => simp [writePieces, List.intercalate_cons_cons]

theorem writePieces_ne_nil {pieces : List ℕ} (hne : pieces ≠ []) : writePieces pieces ≠ [] := by
  obtain ⟨n, pieces, rfl⟩ := List.exists_cons_of_ne_nil hne
  simp [writePieces_cons, Nat.toDigits_ne_nil]

theorem mem_writePieces {pieces : List ℕ} {c : Char} (h : c ∈ writePieces pieces) :
    isHexChar c = true ∨ c = ':' := by
  induction pieces with
  | nil => simp [writePieces] at h
  | cons n pieces ih =>
    rw [writePieces_cons, List.mem_append] at h
    rcases h with h | h
    · exact .inl (isHexChar_of_mem_toDigits (by omega) (by omega) h)
    · split at h
      · simp at h
      · exact (List.mem_cons.1 h).elim .inr ih

theorem pieces?_writePieces {pieces : List ℕ} (h : ∀ n ∈ pieces, n < 0x10000) :
    pieces? (writePieces pieces) = some pieces := by
  rcases List.eq_nil_or_concat' pieces with rfl | ⟨heads, last, rfl⟩
  · rfl
  · have hne := writePieces_ne_nil (List.append_ne_nil_of_right_ne_nil heads (List.cons_ne_nil last []))
    rw [List.forall_mem_append] at h
    have hlast := hexPiece?_toDigits (h.2 last (List.mem_singleton_self last))
    have hdot : '.' ∉ Nat.toDigits 16 last := notMem_toDigits (by omega) (by omega) (by decide) last
    rw [pieces?, if_neg (by simpa using hne), splitOn_writePieces (by simp)]
    have hheads := Text.mapM_map_eq_some fun n hn ↦ hexPiece?_toDigits (h.1 n hn)
    simp [hlast, hdot, hheads]

/-! #### The zeros that are left out -/

theorem splitCompressed?_cons {c : Char} (h : c ≠ ':' ∨ s.head? ≠ some ':') :
    splitCompressed? (c :: s) = (splitCompressed? s).map fun x ↦ (c :: x.1, x.2) := by
  rw [splitCompressed?]
  rintro t rfl rfl
  simp at h

theorem splitCompressed?_append {digits : List Char} (h : ':' ∉ digits) (s : List Char) :
    splitCompressed? (digits ++ s) = (splitCompressed? s).map fun x ↦ (digits ++ x.1, x.2) := by
  induction digits with
  | nil => simp
  | cons c digits ih =>
    rw [List.mem_cons, not_or] at h
    rw [List.cons_append, splitCompressed?_cons (.inl (Ne.symm h.1)), ih h.2, Option.map_map]
    rfl

theorem head?_writePieces (pieces : List ℕ) : (writePieces pieces).head? ≠ some ':' := by
  cases pieces with
  | nil => simp [writePieces]
  | cons n pieces =>
    rw [writePieces_cons, List.head?_append_of_ne_nil _ Nat.toDigits_ne_nil]
    intro hhead
    exact notMem_toDigits (by omega) (by omega) (by decide) n (List.mem_of_head? hhead)

/-- The colons of some pieces stand alone, so the first two in a row are those for the zeros. -/
theorem splitCompressed?_writePieces (pieces : List ℕ) (t : List Char) :
    splitCompressed? (writePieces pieces ++ ':' :: ':' :: t) = some (writePieces pieces, t) := by
  induction pieces with
  | nil => rfl
  | cons n pieces ih =>
    have hdigits : ':' ∉ Nat.toDigits 16 n := notMem_toDigits (by omega) (by omega) (by decide) n
    rw [writePieces_cons, List.append_assoc, splitCompressed?_append hdigits]
    cases pieces with
    | nil => simp [splitCompressed?]
    | cons m pieces =>
      have hhead : (writePieces (m :: pieces) ++ ':' :: ':' :: t).head? ≠ some ':' := by
        rw [List.head?_append_of_ne_nil _ (writePieces_ne_nil (List.cons_ne_nil m pieces))]
        exact head?_writePieces _
      rw [if_neg (by simp), List.cons_append, splitCompressed?_cons (.inr hhead), ih]
      rfl

theorem splitCompressed?_eq_none (pieces : List ℕ) : splitCompressed? (writePieces pieces) = none := by
  induction pieces with
  | nil => rfl
  | cons n pieces ih =>
    have hdigits : ':' ∉ Nat.toDigits 16 n := notMem_toDigits (by omega) (by omega) (by decide) n
    rw [writePieces_cons, splitCompressed?_append hdigits]
    split
    · rfl
    · rw [splitCompressed?_cons (.inr (head?_writePieces pieces)), ih]
      rfl

theorem mem_foldl_best (runs : List (ℕ × ℕ)) (init : ℕ × ℕ) :
    runs.foldl (fun best run ↦ if best.2 < run.2 then run else best) init ∈ init :: runs := by
  induction runs generalizing init with
  | nil => exact List.mem_singleton_self init
  | cons run runs ih =>
    rw [List.foldl_cons]
    have hbest := ih (if init.2 < run.2 then run else init)
    rcases List.mem_cons.1 hbest with heq | hmem
    · rw [heq]
      split
      · exact List.mem_cons_of_mem _ List.mem_cons_self
      · exact List.mem_cons_self
    · exact List.mem_cons_of_mem _ (List.mem_cons_of_mem _ hmem)

theorem eq_replicate_zeros (pieces : List ℕ) :
    pieces = List.replicate (zeros pieces) 0 ++ pieces.drop (zeros pieces) := by
  have hzeros : pieces.takeWhile (· == 0) = List.replicate (zeros pieces) 0 := by
    apply List.eq_replicate_of_mem
    intro n hn
    simpa using List.mem_takeWhile_imp hn
  have htake : pieces.takeWhile (· == 0) = pieces.take (zeros pieces) :=
    List.prefix_iff_eq_take.1 (List.takeWhile_prefix _)
  calc pieces = pieces.take (zeros pieces) ++ pieces.drop (zeros pieces) := (List.take_append_drop ..).symm
    _ = List.replicate (zeros pieces) 0 ++ pieces.drop (zeros pieces) := by rw [← htake, hzeros]

/-- What is left out is a run of zeros within the pieces. -/
theorem longestZeros_eq {pieces : List ℕ} {place length : ℕ}
    (h : longestZeros pieces = some (place, length)) :
    2 ≤ length ∧ pieces = pieces.take place ++ (List.replicate length 0 ++ pieces.drop (place + length)) := by
  unfold longestZeros at h
  dsimp only at h
  generalize hbest : List.foldl _ _ _ = best at h
  have hmem := mem_foldl_best ((List.range pieces.length).map fun i ↦ (i, zeros (pieces.drop i))) (0, 1)
  rw [hbest] at hmem
  split at h
  · cases h
  · next hlong =>
    obtain rfl := Option.some.inj h
    refine ⟨by omega, ?_⟩
    rcases List.mem_cons.1 hmem with heq | hmem
    · rw [Prod.mk.injEq] at heq
      omega
    · obtain ⟨i, -, heq⟩ := List.mem_map.1 hmem
      obtain ⟨rfl, rfl⟩ := Prod.mk.inj heq
      have hrun := eq_replicate_zeros (pieces.drop i)
      rw [List.drop_drop] at hrun
      rw [← hrun, List.take_append_drop]

theorem ipv6?_writeIpv6 {pieces : List ℕ} (hlength : pieces.length = 8) (h : ∀ n ∈ pieces, n < 0x10000) :
    ipv6? (writeIpv6 pieces) = some (.ipv6 pieces) := by
  unfold writeIpv6
  split
  · rw [ipv6?, splitCompressed?_eq_none, pieces?_writePieces h]
    simp [hlength]
  · next place length hzeros =>
    obtain ⟨hlong, heq⟩ := longestZeros_eq hzeros
    have hheads : ∀ n ∈ pieces.take place, n < 0x10000 := fun n hn ↦ h n (List.mem_of_mem_take hn)
    have htails : ∀ n ∈ pieces.drop (place + length), n < 0x10000 := fun n hn ↦ h n (List.mem_of_mem_drop hn)
    have hcount := congrArg List.length heq
    simp only [List.length_append, List.length_replicate] at hcount
    have hdot : '.' ∉ writePieces (pieces.take place) := fun hmem ↦ absurd (mem_writePieces hmem) (by decide)
    rw [ipv6?, splitCompressed?_writePieces]
    simp only [pieces?_writePieces hheads, pieces?_writePieces htails, List.contains_eq_mem, hdot,
      decide_false, Bool.false_eq_true, if_false, Option.bind_eq_bind, Option.bind_some]
    rw [if_pos (by omega)]
    have hzero : 8 - (pieces.take place).length - (pieces.drop (place + length)).length = length := by omega
    rw [hzero, List.append_assoc, ← heq]

theorem mem_writeIpv6 {pieces : List ℕ} {c : Char} (h : c ∈ writeIpv6 pieces) :
    isHexChar c = true ∨ c = ':' := by
  unfold writeIpv6 at h
  split at h
  · exact mem_writePieces h
  · simp only [List.mem_append, List.mem_cons] at h
    rcases h with h | h | h | h
    · exact mem_writePieces h
    · exact .inr h
    · exact .inr h
    · exact mem_writePieces h

theorem hexPiece?_lt {part : List Char} (h : pieces?.hexPiece? part = some n) : n < 0x10000 := by
  rw [pieces?.hexPiece?] at h
  split at h
  · cases h
  · next hshort =>
    simp only [Bool.or_eq_true, decide_eq_true_eq, not_or, not_lt] at hshort
    calc n < 16 ^ part.length := numeral?_lt h
      _ ≤ 16 ^ 4 := Nat.pow_le_pow_right (by omega) hshort.2

theorem ipv4Tail?_lt {numbers : List ℕ} (h : ipv4Tail? s = some numbers) : ∀ n ∈ numbers, n < 0x10000 := by
  simp only [ipv4Tail?, Option.bind_eq_bind, Option.bind_eq_some_iff] at h
  obtain ⟨octets, hoctets, h⟩ := h
  have hlt : ∀ n ∈ octets, n < 256 := by
    refine Text.forall_of_mapM (P := (· < 256)) hoctets fun part _ n hn ↦ ?_
    split at hn
    · cases hn
    · simpa using (Option.filter_eq_some_iff.1 hn).2
  split at h
  · next a b c d =>
    obtain rfl := Option.some.inj h
    simp at hlt ⊢
    omega
  · cases h

theorem pieces?_lt {numbers : List ℕ} (h : pieces? s = some numbers) : ∀ n ∈ numbers, n < 0x10000 := by
  unfold pieces? at h
  split at h
  · obtain rfl := Option.some.inj h
    simp
  · simp only [Option.bind_eq_bind, Option.bind_eq_some_iff] at h
    obtain ⟨heads, hheads, last, -, h⟩ := h
    have hlt : ∀ n ∈ heads, n < 0x10000 := Text.forall_of_mapM hheads fun _ _ _ ↦ hexPiece?_lt
    split at h
    · obtain ⟨tail, htail, rfl⟩ := Option.map_eq_some_iff.1 h
      exact List.forall_mem_append.2 ⟨hlt, ipv4Tail?_lt htail⟩
    · obtain ⟨piece, hpiece, rfl⟩ := Option.map_eq_some_iff.1 h
      exact List.forall_mem_append.2 ⟨hlt, by simpa using hexPiece?_lt hpiece⟩

theorem ipv6?_lt {host : Host} (h : ipv6? s = some host) :
    ∃ pieces, host = .ipv6 pieces ∧ pieces.length = 8 ∧ ∀ n ∈ pieces, n < 0x10000 := by
  unfold ipv6? at h
  split at h
  · simp only [Option.bind_eq_bind, Option.bind_eq_some_iff] at h
    obtain ⟨pieces, hpieces, h⟩ := h
    split at h
    · next hlength => exact ⟨pieces, (Option.some.inj h).symm, hlength, pieces?_lt hpieces⟩
    · cases h
  · split at h
    · cases h
    · simp only [Option.bind_eq_bind, Option.bind_eq_some_iff] at h
      obtain ⟨heads, hheads, tails, htails, h⟩ := h
      split at h
      · next hlength =>
        refine ⟨_, (Option.some.inj h).symm, ?_, ?_⟩
        · simp
          omega
        · rw [List.forall_mem_append, List.forall_mem_append]
          refine ⟨⟨pieces?_lt hheads, ?_⟩, pieces?_lt htails⟩
          intro n hn
          rw [List.eq_of_mem_replicate hn]
          omega
      · cases h

end AgentReply.Url.Host
