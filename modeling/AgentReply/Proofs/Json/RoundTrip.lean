import AgentReply.Proofs.Json.Fields
import AgentReply.Proofs.Json.Numbers

/-!
# JSON that is written and read

What has been read can be written and read again: its integers are in range, the fields of its objects
are in increasing order, and it is nested no deeper than a reader goes. That is all a written value needs,
but for the floating point numbers in it, which have to be read back one by one.
-/

namespace AgentReply.Json

variable {s rest : List Char} {depth : ℕ}

/-! ### Strings -/

theorem stringBody_plain {c : Char} (hquote : c ≠ '"') (hslash : c ≠ '\\') (hcontrol : ¬c.toNat < 0x20)
    (s : List Char) : result (stringBody (c :: s)) =
      (result (stringBody s)).map fun z ↦ (c :: z.1, z.2) := by
  rw [result_stringBody, onHead, if_neg hquote, if_neg hslash, if_neg hcontrol]

theorem stringBody_escaped {c : Char} {s s' : List Char} (h : result (escaped s) = some (c, s')) :
    result (stringBody ('\\' :: s)) = (result (stringBody s')).map fun z ↦ (c :: z.1, z.2) := by
  rw [result_stringBody, onHead, if_neg (by decide), if_pos rfl, h]
  rfl

theorem escaped_plain {c d : Char} (hc : c ≠ 'u') (hd : plainEscape? c = some d) (s : List Char) :
    result (escaped (c :: s)) = some (d, s) := by
  rw [result_escaped, onHead, if_neg hc, hd]
  rfl

theorem escaped_hex {n : ℕ} (hn : n < 0x20) (s : List Char) :
    result (escaped ('u' :: '0' :: '0' :: hexDigit (n / 16) :: hexDigit (n % 16) :: s)) =
      some (Char.ofNat n, s) := by
  have hunit : ∀ n < 0x20, unit? ['0', '0', hexDigit (n / 16), hexDigit (n % 16)] = some n := by decide
  have hread : result (hexUnit ('0' :: '0' :: hexDigit (n / 16) :: hexDigit (n % 16) :: s)) =
      some (n, s) := by
    rw [result_hexUnit]
    dsimp only [List.take, List.drop]
    rw [hunit n hn]
    rfl
  rw [result_escaped, onHead, if_pos rfl, result_hexEscape, hread, Option.bind_some]
  have hlow : ¬(0xDC00 ≤ n && n ≤ 0xDFFF) = true := by
    simp
    omega
  have hhigh : (n < 0xD800 || 0xDBFF < n) = true := by
    simp
    omega
  rw [if_neg hlow, if_pos hhigh]

theorem stringBody_escapeChar (c : Char) (s : List Char) :
    result (stringBody (escapeChar c ++ s)) = (result (stringBody s)).map fun z ↦ (c :: z.1, z.2) := by
  fun_cases escapeChar c
  case case8 hquote hslash _ _ _ _ _ hcontrol =>
    have hread := stringBody_escaped (escaped_hex hcontrol s)
    rwa [Char.ofNat_toNat] at hread
  case case9 hquote hslash _ _ _ _ _ hcontrol => exact stringBody_plain hquote hslash hcontrol s
  all_goals exact stringBody_escaped (escaped_plain (by decide) rfl s)

theorem stringBody_escape (cs rest : List Char) :
    result (stringBody (escape cs ++ '"' :: rest)) = some (cs, rest) := by
  induction cs with
  | nil => rw [escape_nil, List.nil_append, result_stringBody, onHead, if_pos rfl]
  | cons c cs ih =>
    rw [escape_cons, List.append_assoc, stringBody_escapeChar, ih]
    rfl

/-! ### What is read -/

/-- The values that can be read with at most some lists and objects inside each other. -/
inductive Fits : ℕ → Json → Prop
  | null {depth : ℕ} : Fits depth .null
  | bool {depth : ℕ} (value : Bool) : Fits depth (.bool value)
  | number {depth : ℕ} {n : Number} (h : n.InRange) : Fits depth (.number n)
  | string {depth : ℕ} (value : String) : Fits depth (.string value)
  | array {depth : ℕ} {items : List Json} (h : ∀ x ∈ items, Fits depth x) :
      Fits (depth + 1) (.array items)
  | object {depth : ℕ} {fields : List (String × Json)} (hsorted : IsSorted fields)
      (h : ∀ field ∈ fields, Fits depth field.2) : Fits (depth + 1) (.object fields)

theorem fits_of_scalar {x : Json} (h : result (scalar s) = some (x, rest)) : Fits depth x := by
  obtain ⟨c, tail, hs, hbegins, hlist, hobject⟩ := exists_begins_of_scalar h
  cases x with
  | null => exact .null
  | bool value => exact .bool value
  | number n => exact .number (isScanned_scalar h).1
  | string value => exact .string value
  | array items => exact absurd hbegins hlist
  | object fields => exact absurd hbegins hobject

/-! ### Lists and objects -/

section

variable {α : Type} {P : α → Prop}

theorem forall_of_moreItems {item : Reader α}
    (hitem : ∀ {s x rest}, result (item s) = some (x, rest) → P x) {xs : List α} (h : result (moreItems item s) = some (xs, rest)) : ∀ x ∈ xs, P x := by
  induction s using Text.rest_induction generalizing xs with
  | step s ih =>
    obtain ⟨c, tail, hs, h⟩ := onHead_eq_some_iff.1 (result_moreItems item s ▸ h)
    split at h
    · cases h
      simp
    · split at h
      · obtain ⟨c', tail', -, h⟩ := onHead_eq_some_iff.1 h
        split at h
        · -- no item may be missing behind the comma
          cases h
        · obtain ⟨y, hy, h⟩ := Option.bind_eq_some_iff.1 h
          obtain ⟨z, hz, heq⟩ := Option.map_eq_some_iff.1 h
          cases heq
          have htail := length_of_skipBlank hs
          have hlength := length_of_result hy
          have hrest := ih y.2 (by omega) hz
          exact List.forall_mem_cons.2 ⟨hitem hy, hrest⟩
      · cases h

theorem forall_of_items {item : Reader α}
    (hitem : ∀ {s x rest}, result (item s) = some (x, rest) → P x) {xs : List α} (h : result (items item s) = some (xs, rest)) : ∀ x ∈ xs, P x := by
  obtain ⟨c, tail, -, h⟩ := onHead_eq_some_iff.1 (result_items item s ▸ h)
  split at h
  · cases h
    simp
  · obtain ⟨y, hy, h⟩ := Option.bind_eq_some_iff.1 h
    obtain ⟨z, hz, heq⟩ := Option.map_eq_some_iff.1 h
    cases heq
    exact List.forall_mem_cons.2 ⟨hitem hy, forall_of_moreItems hitem hz⟩

end

section

variable {value : Reader Json} {P : Json → Prop}

theorem forall_of_field? (hvalue : ∀ {s x rest}, result (value s) = some (x, rest) → P x)
    {y : (String × Json) × List Char} (h : field? value s = some y) : P y.1.2 := by
  obtain ⟨key, -, h⟩ := Option.bind_eq_some_iff.1 h
  obtain ⟨rest, -, h⟩ := Option.bind_eq_some_iff.1 h
  obtain ⟨z, hz, rfl⟩ := Option.map_eq_some_iff.1 h
  exact hvalue hz

theorem forall_of_moreMembers (hvalue : ∀ {s x rest}, result (value s) = some (x, rest) → P x)
    {before fields : List (String × Json)} (hbefore : ∀ field ∈ before, P field.2)
    (h : result (moreMembers (collect value) before s) = some (fields, rest)) :
    ∀ field ∈ fields, P field.2 := by
  induction s using Text.rest_induction generalizing before with
  | step s ih =>
    rw [(steps_collect value).result_moreMembers, Option.or_eq_some_iff] at h
    rcases h with h | ⟨-, h⟩
    · obtain ⟨tail, -, heq⟩ := Option.map_eq_some_iff.1 h
      cases heq
      exact hbefore
    · obtain ⟨y, hy, hmore⟩ := Option.bind_eq_some_iff.1 h
      have hlength := length_of_nextField? hy
      obtain ⟨key, -, hfield⟩ := Option.bind_eq_some_iff.1 hy
      apply ih y.2 hlength _ hmore
      intro field hmem
      rcases List.mem_append.1 hmem with hmem | hmem
      · exact hbefore field hmem
      · obtain rfl := List.mem_singleton.1 hmem
        exact forall_of_field? hvalue hfield

theorem forall_of_members (hvalue : ∀ {s x rest}, result (value s) = some (x, rest) → P x)
    {fields : List (String × Json)}
    (h : result (members (collect value) [] s) = some (fields, rest)) :
    ∀ field ∈ fields, P field.2 := by
  rw [(steps_collect value).result_members, Option.or_eq_some_iff] at h
  rcases h with h | ⟨-, h⟩
  · obtain ⟨tail, -, heq⟩ := Option.map_eq_some_iff.1 h
    cases heq
    simp
  · obtain ⟨y, hy, hmore⟩ := Option.bind_eq_some_iff.1 h
    obtain ⟨key, -, hfield⟩ := Option.bind_eq_some_iff.1 hy
    apply forall_of_moreMembers hvalue _ hmore
    intro field hmem
    obtain rfl := List.mem_singleton.1 hmem
    exact forall_of_field? hvalue hfield

end

theorem fits_of_value {x : Json} (h : result (value depth s) = some (x, rest)) : Fits depth x := by
  induction depth generalizing s x rest with
  | zero =>
    obtain ⟨c, tail, -, h⟩ := onHead_eq_some_iff.1 (result_value_zero s ▸ h)
    split at h
    · cases h
    · split at h
      · cases h
      · exact fits_of_scalar h
  | succ depth ih =>
    obtain ⟨c, tail, -, h⟩ := onHead_eq_some_iff.1 (result_value_succ depth s ▸ h)
    split at h
    · obtain ⟨y, hy, heq⟩ := Option.map_eq_some_iff.1 h
      cases heq
      exact .array (forall_of_items ih hy)
    · split at h
      · obtain ⟨y, hy, heq⟩ := Option.map_eq_some_iff.1 h
        cases heq
        refine .object (isSorted_sortFields y.1) ?_
        rintro ⟨key, x⟩ hmem
        obtain ⟨before, after, hfields, -⟩ := mem_sortFields_iff.1 hmem
        exact forall_of_members ih hy (key, x) (hfields ▸ by simp)
      · exact fits_of_scalar h

theorem fits_of_fieldList {text : String} {fields : List (String × Json)}
    (h : readWith fieldList text = .ok fields) : ∀ field ∈ fields, Fits (maxDepth - 1) field.2 := by
  obtain ⟨rest, hresult, -⟩ := readWith_eq_ok_iff.1 h
  rw [result_fieldList] at hresult
  obtain ⟨tail, -, hmembers⟩ := Option.bind_eq_some_iff.1 hresult
  exact forall_of_members fits_of_value hmembers

/-! ### What is written -/

mutual

/-- The floating point numbers in a value, from left to right. -/
def floats : Json → List Binary64
  | .number (.binary x) => [x]
  | .array items => floatsOfItems items
  | .object fields => floatsOfFields fields
  | _ => []

def floatsOfItems : List Json → List Binary64
  | [] => []
  | item :: rest => floats item ++ floatsOfItems rest

def floatsOfFields : List (String × Json) → List Binary64
  | [] => []
  | (_, value) :: rest => floats value ++ floatsOfFields rest

end

theorem floats_array (items : List Json) : (Json.array items).floats = items.flatMap floats := by
  rw [floats]
  induction items with
  | nil => rfl
  | cons item rest ih => rw [floatsOfItems, ih, List.flatMap_cons]

theorem floats_object (fields : List (String × Json)) :
    (Json.object fields).floats = fields.flatMap fun field ↦ field.2.floats := by
  rw [floats]
  induction fields with
  | nil => rfl
  | cons field rest ih => rw [floatsOfFields, ih, List.flatMap_cons]

/-- Each floating point number in a value is read back from its own text. -/
def FloatsReadBack (x : Json) : Prop :=
  ∀ y ∈ x.floats, read (Number.binary y).text = .ok (.number (.binary y))

theorem FloatsReadBack.item {items : List Json} {x : Json} (h : (Json.array items).FloatsReadBack)
    (hx : x ∈ items) : x.FloatsReadBack := by
  intro y hy
  apply h y
  rw [floats_array]
  exact List.mem_flatMap.2 ⟨x, hx, hy⟩

theorem FloatsReadBack.field {fields : List (String × Json)} {field : String × Json}
    (h : (Json.object fields).FloatsReadBack) (hfield : field ∈ fields) : field.2.FloatsReadBack := by
  intro y hy
  apply h y
  rw [floats_object]
  exact List.mem_flatMap.2 ⟨field, hfield, hy⟩

/-- A value that is read back from its text, whatever stands behind it that is no part of a number. -/
def PrintsBack (depth : ℕ) (x : Json) : Prop :=
  ∀ rest, EndsNumber rest → result (value depth (x.compact.toList ++ rest)) = some (x, rest)

theorem endsNumber_cons {c : Char} (hc : c ∈ [',', ']', '\x7d']) (s : List Char) :
    EndsNumber (c :: s) := by
  have hends : ∀ c ∈ [',', ']', '\x7d'], c.isDigit = false ∧ c ∉ ['.', 'e', 'E', '+', '-'] := by
    simp [Char.isDigit]
  rintro d hd
  obtain rfl : c = d := by simpa using hd
  exact hends c hc

theorem compactItems_cons (item : Json) (items : List Json) :
    (compactItems (item :: items)).toList =
      item.compact.toList ++ items.flatMap fun x ↦ ',' :: x.compact.toList := by
  induction items generalizing item with
  | nil => simp [compactItems]
  | cons next items ih =>
    rw [compactItems, String.toList_append, String.toList_append, ih]
    · simp
    · simp

/-- The characters of a field. -/
def fieldText (field : String × Json) : List Char :=
  '"' :: (escape field.1.toList ++ '"' :: ':' :: field.2.compact.toList)

theorem compactFields_cons (field : String × Json) (fields : List (String × Json)) :
    (compactFields (field :: fields)).toList =
      fieldText field ++ fields.flatMap fun other ↦ ',' :: fieldText other := by
  induction fields generalizing field with
  | nil => simp [compactFields, fieldText, quote]
  | cons next fields ih =>
    obtain ⟨key, x⟩ := field
    rw [compactFields, String.toList_append, ih]
    · simp [fieldText, quote]
    · simp

theorem endsNumber_flatMap {α : Type} {c : Char} (hc : c ∈ [',', ']', '\x7d']) (xs : List α)
    (text : α → List Char) (rest : List Char) :
    EndsNumber ((xs.flatMap fun x ↦ ',' :: text x) ++ c :: rest) := by
  -- behind the last of them stands the bracket, behind any other a comma
  cases xs with
  | nil => exact endsNumber_cons hc rest
  | cons x xs => exact endsNumber_cons (by decide) _

theorem Begins.ne_bracket {c : Char} {x : Json} (h : x.Begins c) : c ≠ ']' := by
  rintro rfl
  cases x with
  | bool value => cases value <;> cases h
  | number n => cases h <;> contradiction
  | _ => cases h

theorem moreItems_compact {items : List Json} (h : ∀ x ∈ items, PrintsBack depth x) (rest : List Char) :
    result (moreItems (value depth) ((items.flatMap fun x ↦ ',' :: x.compact.toList) ++ ']' :: rest)) =
      some (items, rest) := by
  induction items with
  | nil =>
    rw [List.flatMap_nil, List.nil_append, result_moreItems]
    rfl
  | cons x items ih =>
    obtain ⟨hx, hitems⟩ := List.forall_mem_cons.1 h
    have hread := hx _ (endsNumber_flatMap (c := ']') (by decide) items (fun x ↦ x.compact.toList) rest)
    obtain ⟨c, tail, hs, hbegins⟩ := exists_begins_of_value hread
    rw [List.flatMap_cons, List.cons_append, List.cons_append, List.append_assoc, result_moreItems,
      onHead_of_eq (skipBlank_of_ne (by decide)), if_neg (by decide), if_pos rfl, onHead_of_eq hs,
      if_neg hbegins.ne_bracket, hread]
    simpa using ih hitems

theorem items_compact {items : List Json} (h : ∀ x ∈ items, PrintsBack depth x) (rest : List Char) :
    result (Json.items (value depth) ((compactItems items).toList ++ ']' :: rest)) =
      some (items, rest) := by
  cases items with
  | nil =>
    rw [compactItems, String.toList_empty, List.nil_append, result_items]
    rfl
  | cons x items =>
    obtain ⟨hx, hitems⟩ := List.forall_mem_cons.1 h
    have hread := hx _ (endsNumber_flatMap (c := ']') (by decide) items (fun x ↦ x.compact.toList) rest)
    obtain ⟨c, tail, hs, hbegins⟩ := exists_begins_of_value hread
    rw [compactItems_cons, List.append_assoc, result_items, onHead_of_eq hs, if_neg hbegins.ne_bracket,
      hread]
    simpa using moreItems_compact hitems rest

theorem past?_cons {c : Char} (hc : isBlank c = false) (s : List Char) : past? c (c :: s) = some s :=
  past?_of_skipBlank (skipBlank_of_ne hc)

theorem field?_fieldText {field : String × Json} (h : PrintsBack depth field.2) (hends : EndsNumber rest) :
    (past? '"' (fieldText field ++ rest)).bind (field? (value depth)) = some (field, rest) := by
  have htext : fieldText field ++ rest =
      '"' :: (escape field.1.toList ++ '"' :: ':' :: (field.2.compact.toList ++ rest)) := by
    simp [fieldText]
  rw [htext, past?_cons (by decide), Option.bind_some, field?, stringBody_escape, Option.bind_some,
    past?_cons (by decide), Option.bind_some, h rest hends, Option.map_some, String.ofList_toList]

theorem nextField?_fieldText {field : String × Json} (h : PrintsBack depth field.2)
    (hends : EndsNumber rest) :
    nextField? (value depth) (',' :: (fieldText field ++ rest)) = some (field, rest) := by
  rw [nextField?, past?_cons (by decide), Option.bind_some]
  exact field?_fieldText h hends

theorem moreMembers_compact {fields : List (String × Json)}
    (h : ∀ field ∈ fields, PrintsBack depth field.2) (before : List (String × Json)) (rest : List Char) :
    result (moreMembers (collect (value depth)) before
      ((fields.flatMap fun field ↦ ',' :: fieldText field) ++ '\x7d' :: rest)) =
        some (before ++ fields, rest) := by
  induction fields generalizing before with
  | nil =>
    rw [List.flatMap_nil, List.nil_append, (steps_collect _).result_moreMembers,
      past?_cons (by decide), List.append_nil]
    rfl
  | cons field fields ih =>
    obtain ⟨hfield, hfields⟩ := List.forall_mem_cons.1 h
    have hclose : ∀ s, past? '\x7d' (',' :: s) = none := fun s ↦ rfl
    have hends := endsNumber_flatMap (c := '\x7d') (by decide) fields fieldText rest
    have hnext := nextField?_fieldText hfield hends
    rw [List.flatMap_cons, List.cons_append, List.cons_append, List.append_assoc,
      (steps_collect _).result_moreMembers, hclose, hnext]
    simpa using ih hfields (before ++ [field])

theorem members_compact {fields : List (String × Json)}
    (h : ∀ field ∈ fields, PrintsBack depth field.2) (rest : List Char) :
    result (members (collect (value depth)) [] ((compactFields fields).toList ++ '\x7d' :: rest)) =
      some (fields, rest) := by
  cases fields with
  | nil =>
    rw [compactFields, String.toList_empty, List.nil_append, (steps_collect _).result_members,
      past?_cons (by decide)]
    rfl
  | cons field fields =>
    obtain ⟨hfield, hfields⟩ := List.forall_mem_cons.1 h
    have hclose : ∀ s, past? '\x7d' (fieldText field ++ s) = none := fun s ↦ rfl
    have hends := endsNumber_flatMap (c := '\x7d') (by decide) fields fieldText rest
    have hread := field?_fieldText hfield hends
    rw [compactFields_cons, List.append_assoc, (steps_collect _).result_members, hclose, hread]
    simpa using moreMembers_compact hfields [field] rest

/-! ### Values that are read back -/

theorem printsBack_of_scalar {x : Json}
    (h : ∀ rest, EndsNumber rest → result (scalar (x.compact.toList ++ rest)) = some (x, rest)) :
    PrintsBack depth x := by
  intro rest hends
  have hread := h rest hends
  obtain ⟨c, tail, hs, -, hlist, hobject⟩ := exists_begins_of_scalar hread
  rw [result_value_of_ne hs hlist hobject]
  exact hread

theorem printsBack_null : PrintsBack depth .null := by
  refine printsBack_of_scalar fun rest _ ↦ ?_
  have htext : Json.null.compact.toList ++ rest = 'n' :: 'u' :: 'l' :: 'l' :: rest := by
    simp [compact]
  rw [htext, result_scalar, onHead_of_eq (skipBlank_of_ne (by decide)), if_pos rfl]
  rfl

theorem printsBack_bool (value : Bool) : PrintsBack depth (.bool value) := by
  refine printsBack_of_scalar fun rest _ ↦ ?_
  cases value with
  | false =>
    have htext : (Json.bool false).compact.toList ++ rest = 'f' :: 'a' :: 'l' :: 's' :: 'e' :: rest := by
      simp [compact]
    rw [htext, result_scalar, onHead_of_eq (skipBlank_of_ne (by decide)), if_neg (by decide),
      if_neg (by decide), if_pos rfl]
    rfl
  | true =>
    have htext : (Json.bool true).compact.toList ++ rest = 't' :: 'r' :: 'u' :: 'e' :: rest := by
      simp [compact]
    rw [htext, result_scalar, onHead_of_eq (skipBlank_of_ne (by decide)), if_neg (by decide),
      if_pos rfl]
    rfl

theorem printsBack_number {n : Number} (h : n.InRange) (hfloats : (Json.number n).FloatsReadBack) :
    PrintsBack depth (.number n) := by
  refine printsBack_of_scalar fun rest hends ↦ ?_
  cases n with
  | integer value => exact scalar_append hends (scalar_integer h)
  | binary y => exact scalar_append hends (scalar_binary (hfloats y (List.mem_singleton.2 rfl)))

theorem printsBack_string (value : String) : PrintsBack depth (.string value) := by
  refine printsBack_of_scalar fun rest _ ↦ ?_
  have htext : (Json.string value).compact.toList ++ rest =
      '"' :: (escape value.toList ++ '"' :: rest) := by
    simp [compact, quote]
  rw [htext, result_scalar, onHead_of_eq (skipBlank_of_ne (by decide)), if_neg (by decide),
    if_neg (by decide), if_neg (by decide), if_neg (by decide), if_pos rfl, stringBody_escape,
    Option.map_some, String.ofList_toList]

theorem printsBack_array {items : List Json} (h : ∀ x ∈ items, PrintsBack depth x) :
    PrintsBack (depth + 1) (.array items) := by
  intro rest _
  have htext : (Json.array items).compact.toList ++ rest =
      '[' :: ((compactItems items).toList ++ ']' :: rest) := by
    simp [compact]
  rw [htext, result_value_succ, onHead_of_eq (skipBlank_of_ne (by decide)), if_pos rfl,
    items_compact h, Option.map_some]

theorem printsBack_object {fields : List (String × Json)} (hsorted : IsSorted fields)
    (h : ∀ field ∈ fields, PrintsBack depth field.2) : PrintsBack (depth + 1) (.object fields) := by
  intro rest _
  have htext : (Json.object fields).compact.toList ++ rest =
      '\x7b' :: ((compactFields fields).toList ++ '\x7d' :: rest) := by
    simp [compact]
  rw [htext, result_value_succ, onHead_of_eq (skipBlank_of_ne (by decide)), if_neg (by decide),
    if_pos rfl, members_compact h, Option.map_some, hsorted.sortFields_eq]

theorem Fits.printsBack {x : Json} (h : Fits depth x) (hfloats : x.FloatsReadBack) :
    PrintsBack depth x := by
  induction h with
  | null => exact printsBack_null
  | bool value => exact printsBack_bool value
  | number hn => exact printsBack_number hn hfloats
  | string value => exact printsBack_string value
  | array _ ih => exact printsBack_array fun x hx ↦ ih x hx (hfloats.item hx)
  | object hsorted _ ih =>
    exact printsBack_object hsorted fun field hfield ↦ ih field hfield (hfloats.field hfield)

theorem fieldList_compact {fields : List (String × Json)}
    (h : ∀ field ∈ fields, Fits (maxDepth - 1) field.2)
    (hfloats : (Json.object fields).FloatsReadBack) :
    readWith fieldList (Json.object fields).compact = .ok fields := by
  have hfields : ∀ field ∈ fields, PrintsBack (maxDepth - 1) field.2 :=
    fun field hfield ↦ (h field hfield).printsBack (hfloats.field hfield)
  have htext : (Json.object fields).compact.toList =
      '\x7b' :: ((compactFields fields).toList ++ ['\x7d']) := by
    simp [compact]
  refine readWith_eq_ok_iff.2 ⟨[], ?_, rfl⟩
  rw [htext, result_fieldList, past?_cons (by decide), Option.bind_some, members_compact hfields]

/-- What has been read is read again from its own text. -/
theorem read_compact {text : String} {x : Json} (h : read text = .ok x) (hfloats : x.FloatsReadBack) :
    read x.compact = .ok x := by
  obtain ⟨rest, hresult, -⟩ := read_eq_ok_iff.1 h
  have hread := (fits_of_value hresult).printsBack hfloats [] (by simp [EndsNumber])
  rw [List.append_nil] at hread
  exact read_eq_ok_iff.2 ⟨[], hread, rfl⟩

end AgentReply.Json
