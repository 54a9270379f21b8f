import AgentReply.Proofs.Json.Fields
import AgentReply.Proofs.Json.Trim
import AgentReply.Proofs.Markup.Tag
import AgentReply.Proofs.Text.Marks
import AgentReply.Reply.Arguments

/-!
# Arguments that are written as pairs

Behind a `<` the reader of pairs finds one of four things. Without a `>` it is at its end. What is no key
it passes over. A key whose closing tag follows makes a pair, and the reading goes on behind that tag. A
key whose closing tag does not follow ends the reading, whatever stands behind it.

A closing tag has one `<`, at its head, and one `>`, at its end. So none is made where the value of a pair
meets its own closing tag, and none where a text is cut at a place without a `>`: the pairs that are
written are the pairs that are read, and those of a text are the first ones of every longer text.
-/

namespace AgentReply.Arguments

/-- A name that an argument can have. -/
structure IsKey (key : List Char) : Prop where
  ne_nil : key ≠ []
  isKeyChar : ∀ c ∈ key, isKeyChar c = true

theorem isKey_iff {key : List Char} :
    IsKey key ↔ (key.isEmpty || !key.all isKeyChar) = false := by
  rw [Bool.or_eq_false_iff, List.isEmpty_eq_false_iff, Bool.not_eq_false', List.all_eq_true]
  exact ⟨fun h ↦ ⟨h.ne_nil, h.isKeyChar⟩, fun h ↦ ⟨h.1, h.2⟩⟩

instance (key : List Char) : Decidable (IsKey key) := decidable_of_iff _ isKey_iff.symm

/-- The tag that ends the value of a key. -/
def closing (key : List Char) : List Char := '<' :: '/' :: key ++ ['>']

variable {key text rest gap name body s e mark before after : List Char}

theorem isBlank_of_isKeyChar {c : Char} (h : isKeyChar c = true) : Text.isBlank c = false := by
  rcases Bool.or_eq_true_iff.1 h with hname | hdot
  · exact Tag.isBlank_of_isNameChar hname
  · rw [beq_iff_eq.1 hdot]
    rfl

namespace IsKey

theorem open_notMem (h : IsKey key) : '<' ∉ key :=
  fun hmem ↦ absurd (h.isKeyChar _ hmem) (by decide)

theorem close_notMem (h : IsKey key) : '>' ∉ key :=
  fun hmem ↦ absurd (h.isKeyChar _ hmem) (by decide)

theorem trim_eq (h : IsKey key) : Text.trim key = key := by
  have hblank : ∀ c ∈ key, Text.isBlank c = false :=
    fun c hc ↦ isBlank_of_isKeyChar (h.isKeyChar c hc)
  have hstart : Text.trimStart key = key := by
    cases key with
    | nil => rfl
    | cons c rest => exact List.dropWhile_cons_of_neg (by simp [hblank])
  rw [Text.trim, hstart, Text.trimEnd_eq_self hblank]

end IsKey

/-! ### Where a closing tag stands -/

theorem closing_isPrefix_of_append (hkey : '<' ∉ key) (hs : s ≠ [])
    (h : closing key <+: s ++ '<' :: rest) : closing key <+: s := by
  have hbehind : '<' ∉ '/' :: key ++ ['>'] := by simp [hkey]
  exact Text.prefix_of_prefix_append hbehind hs h

theorem closing_infix_of_gap_append (hgap : '<' ∉ gap) (h : closing key <:+: gap ++ s) :
    closing key <:+: s :=
  Text.infix_of_infix_append_left hgap h

theorem closing_infix_of_append (he : '>' ∉ e) (h : closing key <:+: s ++ e) :
    closing key <:+: s :=
  Text.infix_of_infix_append_right he h

/-! ### The first closing tag -/

theorem splitAt?_eq_none_iff : splitAt? mark s = none ↔ ¬mark <:+: s := by
  induction s with
  | nil => simp [splitAt?]
  | cons c s ih =>
    rw [splitAt?, List.infix_cons_iff, not_or]
    by_cases hpre : mark <+: c :: s
    · simp [hpre]
    · simp [hpre, ih]

theorem eq_append_of_splitAt? (hmark : mark ≠ []) (h : splitAt? mark s = some (before, after)) :
    s = before ++ (mark ++ after) ∧ ¬mark <:+: before := by
  induction s generalizing before with
  | nil => simp [splitAt?, hmark] at h
  | cons c s ih =>
    rw [splitAt?] at h
    split at h
    · next hpre =>
      cases h
      obtain ⟨rest, hrest⟩ := List.isPrefixOf_iff_prefix.1 hpre
      refine ⟨?_, by simpa using hmark⟩
      rw [← hrest, List.drop_left, List.nil_append]
    · next hpre =>
      obtain ⟨⟨kept, rest⟩, hsplit, heq⟩ := Option.map_eq_some_iff.1 h
      cases heq
      obtain ⟨rfl, hfirst⟩ := ih hsplit
      refine ⟨rfl, ?_⟩
      rw [List.infix_cons_iff, not_or]
      refine ⟨fun hmark ↦ hpre ?_, hfirst⟩
      exact List.isPrefixOf_iff_prefix.2 (hmark.trans (List.prefix_append _ _))

theorem splitAt?_self_append (hmark : mark ≠ []) (rest : List Char) :
    splitAt? mark (mark ++ rest) = some ([], rest) := by
  obtain ⟨c, tail, rfl⟩ := List.exists_cons_of_ne_nil hmark
  have hpre : (c :: tail).isPrefixOf (c :: (tail ++ rest)) = true :=
    List.isPrefixOf_iff_prefix.2 (List.prefix_append (c :: tail) rest)
  have hdrop : (c :: tail ++ rest).drop (c :: tail).length = rest := List.drop_left
  rw [List.cons_append] at hdrop ⊢
  rw [splitAt?, if_pos hpre, hdrop]

/-- The value of a key goes up to the first of its closing tags. -/
theorem splitAt?_closing_iff (hkey : '<' ∉ key) :
    splitAt? (closing key) s = some (text, rest) ↔
      s = text ++ (closing key ++ rest) ∧ ¬closing key <:+: text := by
  refine ⟨eq_append_of_splitAt? (List.cons_ne_nil _ _), ?_⟩
  rintro ⟨rfl, htext⟩
  induction text with
  | nil => exact splitAt?_self_append (List.cons_ne_nil _ _) rest
  | cons c text ih =>
    rw [List.infix_cons_iff, not_or] at htext
    have hpre : ¬closing key <+: c :: (text ++ (closing key ++ rest)) :=
      fun hpre ↦ htext.1 (closing_isPrefix_of_append hkey (List.cons_ne_nil c text) hpre)
    rw [List.cons_append, splitAt?, if_neg (by simpa using hpre), ih htext.2]
    rfl

/-! ### One step of the reading -/

theorem pairs_eq (s : List Char) : pairs s =
    match s.dropWhile (· != '<') with
    | [] => []
    | _ :: afterOpen =>
      match afterOpen.dropWhile (· != '>') with
      | [] => []
      | _ :: body =>
        let key := Text.trim (afterOpen.takeWhile (· != '>'))
        if IsKey key then
          match splitAt? (closing key) body with
          | none => []
          | some (text, rest) => (String.ofList key, value text) :: pairs rest
        else pairs afterOpen := by
  rw [pairs]
  split
  · next h => rw [h]
  · next h =>
    simp only [h]
    split
    · next h => simp only [h]
    · next h =>
      simp only [h]
      split
      · next hnot => rw [if_neg (by rw [isKey_iff, hnot]; exact Bool.noConfusion)]
      · next hkey =>
        rw [if_pos (isKey_iff.2 (Bool.eq_false_iff.2 hkey))]
        split
        · next h => rw [closing, h]
        · next h => rw [closing, h]

theorem pairs_of_notMem (h : '<' ∉ s) : pairs s = [] := by
  rw [pairs_eq, List.dropWhile_eq_nil_iff.2 (Text.forall_bne_of_notMem h)]

theorem pairs_gap_append (h : '<' ∉ gap) (s : List Char) : pairs (gap ++ s) = pairs s := by
  have hdrop : (gap ++ s).dropWhile (· != '<') = s.dropWhile (· != '<') :=
    List.dropWhile_append_of_pos (Text.forall_bne_of_notMem h)
  rw [pairs_eq, pairs_eq, hdrop]

theorem pairs_of_unended (h : '>' ∉ s) : pairs ('<' :: s) = [] := by
  rw [pairs_eq, List.dropWhile_cons_of_neg (by simp)]
  simp only [List.dropWhile_eq_nil_iff.2 (Text.forall_bne_of_notMem h)]

section Open

variable (hname : '>' ∉ name)
include hname

theorem pairs_open (body : List Char) : pairs ('<' :: (name ++ '>' :: body)) =
    if IsKey (Text.trim name) then
      match splitAt? (closing (Text.trim name)) body with
      | none => []
      | some (text, rest) => (String.ofList (Text.trim name), value text) :: pairs rest
    else pairs (name ++ '>' :: body) := by
  rw [pairs_eq, List.dropWhile_cons_of_neg (by simp)]
  simp only [Text.dropWhile_append_cons hname, Text.takeWhile_append_cons hname]

theorem pairs_of_passed (h : ¬IsKey (Text.trim name)) (body : List Char) :
    pairs ('<' :: (name ++ '>' :: body)) = pairs (name ++ '>' :: body) := by
  rw [pairs_open hname, if_neg h]

theorem pairs_of_unclosed (h : IsKey (Text.trim name)) (hbody : ¬closing (Text.trim name) <:+: body) :
    pairs ('<' :: (name ++ '>' :: body)) = [] := by
  rw [pairs_open hname, if_pos h, splitAt?_eq_none_iff.2 hbody]

theorem pairs_of_closed (h : IsKey (Text.trim name)) (htext : ¬closing (Text.trim name) <:+: text)
    (rest : List Char) :
    pairs ('<' :: (name ++ '>' :: (text ++ (closing (Text.trim name) ++ rest)))) =
      (String.ofList (Text.trim name), value text) :: pairs rest := by
  rw [pairs_open hname, if_pos h, (splitAt?_closing_iff h.open_notMem).2 ⟨rfl, htext⟩]

end Open

/-- Induction along the reading of pairs. -/
@[elab_as_elim]
theorem pairs_induction {motive : List Char → Prop}
    (plain : ∀ s, '<' ∉ s → motive s)
    (unended : ∀ gap s, '<' ∉ gap → '>' ∉ s → motive (gap ++ '<' :: s))
    (passed : ∀ gap name body, '<' ∉ gap → '>' ∉ name → ¬IsKey (Text.trim name) →
      motive (name ++ '>' :: body) → motive (gap ++ '<' :: (name ++ '>' :: body)))
    (unclosed : ∀ gap name body, '<' ∉ gap → '>' ∉ name → IsKey (Text.trim name) →
      ¬closing (Text.trim name) <:+: body → motive (gap ++ '<' :: (name ++ '>' :: body)))
    (closed : ∀ gap name text rest, '<' ∉ gap → '>' ∉ name → IsKey (Text.trim name) →
      ¬closing (Text.trim name) <:+: text → motive rest →
        motive (gap ++ '<' :: (name ++ '>' :: (text ++ (closing (Text.trim name) ++ rest))))) :
    ∀ s, motive s := by
  intro s
  induction s using Text.rest_induction with
  | step s ih =>
    by_cases hopen : '<' ∈ s
    · obtain ⟨gap, after, rfl, hgap⟩ := List.eq_append_cons_of_mem hopen
      by_cases hend : '>' ∈ after
      · obtain ⟨name, body, rfl, hname⟩ := List.eq_append_cons_of_mem hend
        by_cases hkey : IsKey (Text.trim name)
        · cases hsplit : splitAt? (closing (Text.trim name)) body with
          | none => exact unclosed gap name body hgap hname hkey (splitAt?_eq_none_iff.1 hsplit)
          | some parts =>
            obtain ⟨rfl, htext⟩ := (splitAt?_closing_iff hkey.open_notMem).1 hsplit
            refine closed gap name parts.1 parts.2 hgap hname hkey htext (ih _ ?_)
            simp
            omega
        · refine passed gap name body hgap hname hkey (ih _ ?_)
          simp
          omega
      · exact unended gap after hgap hend
    · exact plain s hopen

/-! ### Texts that grow -/

theorem pairs_of_close_notMem (h : '>' ∉ s) : pairs s = [] := by
  by_cases hopen : '<' ∈ s
  · obtain ⟨gap, after, rfl, hgap⟩ := List.eq_append_cons_of_mem hopen
    rw [pairs_gap_append hgap, pairs_of_unended]
    exact fun hmem ↦ h (List.mem_append_right gap (List.mem_cons_of_mem _ hmem))
  · exact pairs_of_notMem hopen

/-- The pairs of a text stay when it grows, and no more come without another `>`. -/
theorem exists_pairs_append (s e : List Char) :
    ∃ more, pairs (s ++ e) = pairs s ++ more ∧ ('>' ∉ e → more = []) := by
  induction s using pairs_induction with
  | plain s hs =>
    refine ⟨pairs e, ?_, pairs_of_close_notMem⟩
    rw [pairs_gap_append hs, pairs_of_notMem hs, List.nil_append]
  -- An unfinished field may be completed by `e`, so all that is read behind it is new.
  | unended gap s hgap hs =>
    refine ⟨pairs ('<' :: (s ++ e)), ?_, fun he ↦ pairs_of_unended (by simp [hs, he])⟩
    simp only [List.append_assoc, List.cons_append]
    rw [pairs_gap_append hgap, pairs_gap_append hgap, pairs_of_unended hs, List.nil_append]
  | passed gap name body hgap hname hkey ih =>
    simp only [List.append_assoc, List.cons_append] at ih ⊢
    rw [pairs_gap_append hgap, pairs_gap_append hgap, pairs_of_passed hname hkey,
      pairs_of_passed hname hkey]
    exact ih
  | unclosed gap name body hgap hname hkey hbody =>
    refine ⟨pairs ('<' :: (name ++ '>' :: (body ++ e))), ?_, fun he ↦ ?_⟩
    · simp only [List.append_assoc, List.cons_append]
      rw [pairs_gap_append hgap, pairs_gap_append hgap, pairs_of_unclosed hname hkey hbody,
        List.nil_append]
    · exact pairs_of_unclosed hname hkey fun h ↦ hbody (closing_infix_of_append he h)
  | closed gap name text rest hgap hname hkey htext ih =>
    obtain ⟨more, hmore, hnone⟩ := ih
    refine ⟨more, ?_, hnone⟩
    simp only [List.append_assoc, List.cons_append]
    rw [pairs_gap_append hgap, pairs_gap_append hgap, pairs_of_closed hname hkey htext,
      pairs_of_closed hname hkey htext, hmore, List.cons_append]

theorem pairs_trim (s : List Char) : pairs (Text.trim s) = pairs s := by
  obtain ⟨a, b, ha, hb, hs⟩ := Text.exists_eq_append_trim s
  obtain ⟨more, hmore, hnone⟩ := exists_pairs_append (Text.trim s) b
  calc pairs (Text.trim s) = pairs (Text.trim s ++ b) := by
        rw [hmore, hnone (hb.notMem (by decide)), List.append_nil]
    _ = pairs (a ++ (Text.trim s ++ b)) := (pairs_gap_append (ha.notMem (by decide)) _).symm
    _ = pairs s := by rw [← hs]

/-! ### What the whole of a payload is read as -/

theorem parse_of_head?_ne {raw : String} (h : (Text.trim raw.toList).head? ≠ some '\x7b') :
    parse raw = Json.sortFields (pairs (Text.trim raw.toList)) := by
  rw [parse]
  split
  · next hhead _ => exact absurd hhead h
  · rfl

theorem parse_of_not_object {raw : String}
    (h : ∀ fields, Json.read (Text.trimmed raw) ≠ .ok (.object fields)) :
    parse raw = Json.sortFields (pairs raw.toList) := by
  rw [parse]
  split
  · next hread => exact absurd hread (h _)
  · rw [pairs_trim]

/-- While a payload arrives its arguments only become more, unless it is written as JSON. The pairs of
a payload are the first ones of every longer payload. So each key that is found stays, and its value
changes only if a later pair has the same key. -/
theorem parse_append_adds_pairs {p e : String} (hp : (Text.trim p.toList).head? ≠ some '\x7b')
    (hpe : (Text.trim (p ++ e).toList).head? ≠ some '\x7b') :
    parse p = Json.sortFields (pairs (Text.trim p.toList)) ∧
    parse (p ++ e) = Json.sortFields (pairs (Text.trim (p ++ e).toList)) ∧
    ∃ more, pairs (Text.trim (p ++ e).toList) = pairs (Text.trim p.toList) ++ more ∧
      ∀ key x, (key, x) ∈ parse p →
        ∃ y, (key, y) ∈ parse (p ++ e) ∧ (y = x ∨ (key, y) ∈ more) := by
  obtain ⟨more, hmore, -⟩ := exists_pairs_append p.toList e.toList
  have happend : pairs (Text.trim (p ++ e).toList) = pairs (Text.trim p.toList) ++ more := by
    rw [pairs_trim, pairs_trim, String.toList_append, hmore]
  refine ⟨parse_of_head?_ne hp, parse_of_head?_ne hpe, more, happend, ?_⟩
  intro key x hx
  rw [parse_of_head?_ne hp, (Json.isSorted_sortFields _).mem_iff_lookup] at hx
  rw [parse_of_head?_ne hpe, happend]
  simp only [(Json.isSorted_sortFields _).mem_iff_lookup, Json.lookup_sortFields_append, hx]
  cases hlater : (Json.sortFields more).lookup key with
  | none => exact ⟨x, rfl, .inl rfl⟩
  | some y =>
    refine ⟨y, rfl, .inr ?_⟩
    rw [← (Json.isSorted_sortFields more).mem_iff_lookup, Json.mem_sortFields_iff] at hlater
    obtain ⟨earlier, later, rfl, -⟩ := hlater
    simp

/-- A payload that is cut off within its third opening tag, which begins a pair with the first key. -/
theorem parse_append_adds_pairs_repeated :
    let p := " <a>1</a>\n<b>x</b> <a"
    let e := ">2</a><c>y</c>"
    (Text.trim p.toList).head? ≠ some '\x7b' ∧ (Text.trim (p ++ e).toList).head? ≠ some '\x7b' ∧
    ("a", Json.ofNat 1) ∈ parse p ∧ ∃ y, ("a", y) ∈ parse (p ++ e) ∧ y ≠ Json.ofNat 1 := by
  intro p e
  have hp : (Text.trim p.toList).head? ≠ some '\x7b' := by decide +kernel
  have hpe : (Text.trim (p ++ e).toList).head? ≠ some '\x7b' := by decide +kernel
  have hfound : ("a", Json.ofNat 1) ∈ parse p := by decide +kernel
  have hlost : ("a", Json.ofNat 1) ∉ parse (p ++ e) := by decide +kernel
  obtain ⟨-, -, more, -, hkept⟩ := parse_append_adds_pairs hp hpe
  obtain ⟨y, hy, -⟩ := hkept "a" _ hfound
  refine ⟨hp, hpe, hfound, y, hy, ?_⟩
  rintro rfl
  exact hlost hy

/-! ### Pairs that are written -/

/-- Keys with their texts as they are written, one pair behind the other, with any text without `<`
around them. The text of a key does not have its closing tag. -/
inductive Written : List (String × String) → List Char → Prop
  | nil {gap : List Char} (hgap : '<' ∉ gap) : Written [] gap
  | cons {gap tail : List Char} {key text : String} {rest : List (String × String)}
      (hgap : '<' ∉ gap) (hkey : IsKey key.toList) (htext : ¬closing key.toList <:+: text.toList)
      (htail : Written rest tail) :
      Written ((key, text) :: rest)
        (gap ++ '<' :: (key.toList ++ '>' :: (text.toList ++ (closing key.toList ++ tail))))

/-- The value of a text: what it is as JSON, once it is trimmed, or else the trimmed text itself. -/
def IsValue (text : String) (x : Json) : Prop :=
  Json.read (Text.trimmed text) = .ok x ∨
    (∀ y, Json.read (Text.trimmed text) ≠ .ok y) ∧ x = .string (Text.trimmed text)

/-- The arguments that some pairs stand for: each key of a pair once, with the value of its last text,
and nothing else. -/
structure ReadAs (written : List (String × String)) (arguments : List (String × Json)) : Prop where
  isSorted : Json.IsSorted arguments
  mem_iff : ∀ key x, (key, x) ∈ arguments ↔ ∃ before text after,
    written = before ++ (key, text) :: after ∧ key ∉ after.map Prod.fst ∧ IsValue text x

theorem isValue_iff {text : String} {x : Json} : IsValue text x ↔ value text.toList = x := by
  rw [IsValue, Text.trimmed, value]
  cases Json.read (String.ofList (Text.trim text.toList)) with
  | ok y => simp
  | error e => simp [eq_comm]

/-- What some pairs are read as, one after the other. -/
def fields (written : List (String × String)) : List (String × Json) :=
  written.map fun (key, text) ↦ (key, value text.toList)

theorem map_fst_fields (written : List (String × String)) :
    (fields written).map Prod.fst = written.map Prod.fst := by
  rw [fields, List.map_map]
  rfl

theorem readAs_sortFields (written : List (String × String)) :
    ReadAs written (Json.sortFields (fields written)) where
  isSorted := Json.isSorted_sortFields _
  mem_iff := by
    intro key x
    rw [Json.mem_sortFields_iff]
    constructor
    · rintro ⟨before, after, heq, hafter⟩
      obtain ⟨before, tail, rfl, rfl, htail⟩ := List.map_eq_append_iff.1 heq
      obtain ⟨⟨key', text⟩, after, rfl, hpair, rfl⟩ := List.map_eq_cons_iff.1 htail
      obtain ⟨rfl, rfl⟩ := Prod.mk.inj hpair
      refine ⟨before, text, after, rfl, ?_, isValue_iff.2 rfl⟩
      rwa [← map_fst_fields]
    · rintro ⟨before, text, after, rfl, hafter, hx⟩
      refine ⟨fields before, fields after, ?_, by rwa [map_fst_fields]⟩
      rw [← isValue_iff.1 hx]
      exact List.map_append

namespace Written

variable {written more : List (String × String)}

theorem pairs_append (h : Written written s) (rest : List Char) :
    pairs (s ++ rest) = fields written ++ pairs rest := by
  induction h with
  | nil hgap => rw [pairs_gap_append hgap]; rfl
  | @cons gap tail key text written hgap hkey htext htail ih =>
    simp only [List.append_assoc, List.cons_append]
    have hpair := pairs_of_closed hkey.close_notMem (by rwa [hkey.trim_eq])
      (by rwa [hkey.trim_eq]) (tail ++ rest)
    rw [hkey.trim_eq, String.ofList_toList] at hpair
    rw [pairs_gap_append hgap, hpair, ih]
    rfl

theorem pairs_eq (h : Written written s) : pairs s = fields written := by
  have hnil := h.pairs_append []
  rwa [List.append_nil, pairs_of_notMem List.not_mem_nil, List.append_nil] at hnil

theorem gap_append (h : Written written s) (hgap : '<' ∉ gap) : Written written (gap ++ s) := by
  cases h with
  | nil hfirst => exact .nil (by simp [hgap, hfirst])
  | cons hfirst hkey htext htail =>
    rw [← List.append_assoc]
    exact .cons (by simp [hgap, hfirst]) hkey htext htail

theorem append {t : List Char} (h : Written written s) (ht : Written more t) :
    Written (written ++ more) (s ++ t) := by
  induction h with
  | nil hgap => exact ht.gap_append hgap
  | cons hgap hkey htext htail ih =>
    simp only [List.append_assoc, List.cons_append]
    exact .cons hgap hkey htext ih

end Written

/-- Arguments that are written as pairs are read back. -/
theorem parse_reads_pairs {written : List (String × String)} {raw : String}
    (hraw : Written written raw.toList)
    (hobject : ∀ fields, Json.read (Text.trimmed raw) ≠ .ok (.object fields)) :
    ReadAs written (parse raw) := by
  rw [parse_of_not_object hobject, hraw.pairs_eq]
  exact readAs_sortFields written

/-- A key that is written twice. Its second text has other tags and half of its own closing tag. -/
theorem parse_reads_pairs_repeated :
    let written := [("path", "a"), ("limit.max", " 5 "), ("path", "\n<b>1</b></pat>")]
    let raw := "see <path>a</path> x > y\n<limit.max> 5 </limit.max><path>\n<b>1</b></pat></path>\n"
    Written written raw.toList ∧
    (∀ fields, Json.read (Text.trimmed raw) ≠ .ok (.object fields)) ∧
    ReadAs written (parse raw) ∧ ("path", .string "<b>1</b></pat>") ∈ parse raw := by
  intro written raw
  have hpath : IsKey "path".toList := by decide
  have hlimit : IsKey "limit.max".toList := by decide
  have hbefore : '<' ∉ "see ".toList := by decide
  have hbetween : '<' ∉ " x > y\n".toList := by decide +kernel
  have hafter : '<' ∉ "\n".toList := by decide
  have hall : Written written _ :=
    .cons hbefore hpath (by decide +kernel) (.cons hbetween hlimit (by decide +kernel)
      (.cons List.not_mem_nil hpath (by decide +kernel) (.nil hafter)))
  have hraw : Written written raw.toList := (congrArg (Written written) (by decide +kernel)).mp hall
  have hobject : ∀ fields, Json.read (Text.trimmed raw) ≠ .ok (.object fields) :=
    fun fields h ↦ absurd (Json.head?_trim_of_object h) (by decide +kernel)
  have hread := parse_reads_pairs hraw hobject
  refine ⟨hraw, hobject, hread, (hread.mem_iff _ _).2 ?_⟩
  refine ⟨[("path", "a"), ("limit.max", " 5 ")], _, [], rfl, List.not_mem_nil, ?_⟩
  exact isValue_iff.2 (by decide +kernel)

/-! ### Openings without a closing tag -/

/-- A key that is opened and not closed ends the reading. The pairs that are written before it are
read as if it were not there, and those behind it are not read at all. So the arguments are the same
as without it if it stands behind all pairs. -/
theorem parse_stops_at_unclosed {before after : List (String × String)}
    {first second key text payload extended : String}
    (hfirst : Written before first.toList) (hsecond : Written after second.toList)
    (hkey : IsKey key.toList) (htext : '<' ∉ text.toList)
    (hpayload : payload = first ++ second)
    (hextended : extended = first ++ ("<" ++ key ++ ">" ++ text) ++ second)
    (hunclosed : ¬closing key.toList <:+: payload.toList)
    (hobject : ∀ fields, Json.read (Text.trimmed payload) ≠ .ok (.object fields))
    (hobject' : ∀ fields, Json.read (Text.trimmed extended) ≠ .ok (.object fields)) :
    ReadAs (before ++ after) (parse payload) ∧ ReadAs before (parse extended) ∧
      (after = [] → parse extended = parse payload) := by
  have hpairs : pairs payload.toList = fields (before ++ after) := by
    rw [hpayload, String.toList_append, (hfirst.append hsecond).pairs_eq]
  have hlist : extended.toList =
      first.toList ++ '<' :: (key.toList ++ '>' :: (text.toList ++ second.toList)) := by
    simp [hextended]
  have hrest : ¬closing key.toList <:+: text.toList ++ second.toList := by
    intro h
    apply hunclosed
    rw [hpayload, String.toList_append]
    exact (closing_infix_of_gap_append htext h).trans (List.suffix_append _ _).isInfix
  have hpairs' : pairs extended.toList = fields before := by
    have hstop := pairs_of_unclosed hkey.close_notMem (by rwa [hkey.trim_eq]) (by rwa [hkey.trim_eq])
    rw [hlist, hfirst.pairs_append, hstop, List.append_nil]
  rw [parse_of_not_object hobject, parse_of_not_object hobject', hpairs, hpairs']
  refine ⟨readAs_sortFields _, readAs_sortFields _, ?_⟩
  rintro rfl
  rw [List.append_nil]

/-- An opening between two pairs. The pair before it is read. -/
theorem parse_stops_at_unclosed_between :
    let payload := "<k>v</k>\n<n>1</n>"
    let extended := "<k>v</k>\n<u>x<n>1</n>"
    ReadAs [("k", "v"), ("n", "1")] (parse payload) ∧ ReadAs [("k", "v")] (parse extended) := by
  intro payload extended
  have hgap : '<' ∉ "\n".toList := by decide
  have hfirst : Written [("k", "v")] "<k>v</k>\n".toList :=
    .cons List.not_mem_nil (by decide) (by decide +kernel) (.nil hgap)
  have hsecond : Written [("n", "1")] "<n>1</n>".toList :=
    .cons List.not_mem_nil (by decide) (by decide +kernel) (.nil List.not_mem_nil)
  have hkey : IsKey "u".toList := by decide
  have htext : '<' ∉ "x".toList := by decide
  have hobject : ∀ fields, Json.read (Text.trimmed payload) ≠ .ok (.object fields) :=
    fun fields h ↦ absurd (Json.head?_trim_of_object h) (by decide +kernel)
  have hobject' : ∀ fields, Json.read (Text.trimmed extended) ≠ .ok (.object fields) :=
    fun fields h ↦ absurd (Json.head?_trim_of_object h) (by decide +kernel)
  obtain ⟨hpayload, hextended, -⟩ := parse_stops_at_unclosed hfirst hsecond hkey htext
    (by decide +kernel) (by decide +kernel) (by decide +kernel) hobject hobject'
  exact ⟨hpayload, hextended⟩

/-- An opening before the only pair takes it away. -/
theorem parse_loses_pair_behind_unclosed :
    let payload := "<k>v</k>"
    let extended := "<u>x<k>v</k>"
    Written [("k", "v")] payload.toList ∧
    (∀ fields, Json.read (Text.trimmed payload) ≠ .ok (.object fields)) ∧
    IsKey "u".toList ∧ ¬closing "u".toList <:+: payload.toList ∧
    parse payload = [("k", .string "v")] ∧ parse extended = [] := by
  intro payload extended
  have hpayload : Written [("k", "v")] "<k>v</k>".toList :=
    .cons List.not_mem_nil (by decide) (by decide +kernel) (.nil List.not_mem_nil)
  refine ⟨hpayload, fun fields h ↦ ?_, by decide, by decide +kernel, by decide +kernel,
    by decide +kernel⟩
  exact absurd (Json.head?_trim_of_object h) (by decide +kernel)

end AgentReply.Arguments
