import AgentReply.Json.Reader
import AgentReply.Proofs.Json.Scan

/-!
# Trimmed JSON

No value needs the gap behind it, however deep its lists and objects are nested. Blanks before a value are
passed over as well, and where Unicode knows more blanks than JSON no value begins. So a text may be trimmed
before it is read.
-/

namespace AgentReply.Json

open Text (IsGap Rest Tail)

variable {α β : Type} {gap s : List Char}

/-! ### Values -/

/-- What is left behind a word. -/
def behind? (w s : List Char) : Option (List Char) := (word w s).toOption.map Subtype.val

theorem behind?_append (hgap : IsGap gap) {w : List Char} (hw : ∀ c ∈ w, Text.isBlank c = false)
    (s : List Char) : behind? w (s ++ gap) = (behind? w s).map fun rest ↦ rest ++ gap := by
  have hcons : ∀ d w c s, behind? (d :: w) (c :: s) = if d = c then behind? w s else none := by
    intro d w c s
    rw [behind?, word]
    split
    · rw [behind?]
      cases word w s <;> rfl
    · rfl
  induction w generalizing s with
  | nil => rfl
  | cons d w ih =>
    cases s with
    | nil =>
      cases gap with
      | nil => rfl
      | cons c gap =>
        have hne : d ≠ c := (ne_of_isBlank (hgap c List.mem_cons_self) (hw d List.mem_cons_self)).symm
        rw [List.nil_append, hcons, if_neg hne]
        rfl
    | cons c s =>
      rw [List.cons_append, hcons, hcons]
      split
      · exact ih (fun e he ↦ hw e (List.mem_cons_of_mem d he)) s
      · rfl

theorem result_map_word (w : List Char) (x : α) {p : List Char → Prop} (f : Tail s → {rest // p rest})
    (hf : ∀ t, (f t).1 = t.1) :
    result ((word w s).map fun last ↦ (x, f last)) = (behind? w s).map fun rest ↦ (x, rest) := by
  rw [behind?]
  cases word w s with
  | error fault => rfl
  | ok last => exact congrArg (fun rest ↦ some (x, rest)) (hf last)

theorem result_scalar (s : List Char) :
    result (scalar s) = onHead (fun c rest ↦
      if c = 'n' then (behind? "ull".toList rest).map fun last ↦ (.null, last)
      else if c = 't' then (behind? "rue".toList rest).map fun last ↦ (.bool true, last)
      else if c = 'f' then (behind? "alse".toList rest).map fun last ↦ (.bool false, last)
      else if c = '-' then (result (unsignedNumber true rest)).map fun y ↦ (.number y.1, y.2)
      else if c = '"' then (result (stringBody rest)).map fun y ↦ (.string (String.ofList y.1), y.2)
      else if c.isDigit then
        (result (unsignedNumber false (c :: rest))).map fun y ↦ (.number y.1, y.2)
      else none) (skipBlank s) := by
  unfold scalar
  split
  · next h => rw [h]; rfl
  · next c rest h =>
    refine Eq.trans ?_ (onHead_of_eq h _).symm
    dsimp only
    split
    · exact result_map_word _ _ _ fun t ↦ rfl
    · exact result_map_word _ _ _ fun t ↦ rfl
    · exact result_map_word _ _ _ fun t ↦ rfl
    · exact result_map (g := fun n ↦ Json.number n) fun x last ↦ ⟨rfl, rfl⟩
    · exact result_map (g := fun cs ↦ Json.string (String.ofList cs)) fun x last ↦ ⟨rfl, rfl⟩
    · next hn ht hf hminus hquote =>
      have hblanks : (Tail.dropWhile isBlank s).1 = c :: rest := h
      have hc : c ≠ 'n' ∧ c ≠ 't' ∧ c ≠ 'f' ∧ c ≠ '-' ∧ c ≠ '"' := by
        refine ⟨?_, ?_, ?_, ?_, ?_⟩ <;> rintro rfl
        · exact hn h rfl HEq.rfl
        · exact ht h rfl HEq.rfl
        · exact hf h rfl HEq.rfl
        · exact hminus h rfl HEq.rfl
        · exact hquote h rfl HEq.rfl
      rw [if_neg hc.1, if_neg hc.2.1, if_neg hc.2.2.1, if_neg hc.2.2.2.1, if_neg hc.2.2.2.2]
      split
      · refine (result_map (g := fun n ↦ Json.number n) fun x last ↦ ⟨rfl, rfl⟩).trans ?_
        rw [hblanks]
      · rfl

theorem ignoresGap_scalar : IgnoresGap scalar := by
  intro s gap hgap
  have hword : ∀ {w : List Char} (rest : List Char) (x : Json), w.any Text.isBlank = false →
      ((behind? w (rest ++ gap)).map fun last ↦ (x, last)) =
        ((behind? w rest).map fun last ↦ (x, last)).map (withGap gap) := by
    intro w rest x hw
    have hblanks : ∀ c ∈ w, Text.isBlank c = false := by simpa using hw
    rw [behind?_append hgap hblanks]
    cases behind? w rest <;> rfl
  rw [result_scalar, result_scalar]
  apply onHead_skipBlank_append hgap
  · intro _ c rest hblank
    rw [if_neg (ne_of_isBlank hblank (by decide)), if_neg (ne_of_isBlank hblank (by decide)),
      if_neg (ne_of_isBlank hblank (by decide)), if_neg (ne_of_isBlank hblank (by decide)),
      if_neg (ne_of_isBlank hblank (by decide)), if_neg (by simp [isDigit_of_isBlank hblank])]
  · intro c rest _
    split
    · exact hword rest _ (by decide)
    · split
      · exact hword rest _ (by decide)
      · split
        · exact hword rest _ (by decide)
        · split
          · rw [ignoresGap_unsignedNumber true rest gap hgap, map_withGap]
          · split
            · rw [stringBody_append hgap]
              exact map_withGap _ fun cs ↦ Json.string (String.ofList cs)
            · split
              · rw [← List.cons_append, ignoresGap_unsignedNumber false (c :: rest) gap hgap, map_withGap]
              · rfl

/-! ### Lists and objects -/

theorem result_moreItems (item : Reader α) (s : List Char) :
    result (moreItems item s) = onHead (fun c rest ↦
      if c = ']' then some ([], rest)
      else if c = ',' then
        onHead (fun c' _ ↦ if c' = ']' then none
          else (result (item rest)).bind fun y ↦
            (result (moreItems item y.2)).map fun z ↦ (y.1 :: z.1, z.2)) (skipBlank rest)
      else none) (skipBlank s) := by
  rw [moreItems.eq_def]
  split
  · next rest h =>
    refine Eq.trans ?_ (onHead_of_eq h _).symm
    rfl
  · next rest h =>
    refine Eq.trans ?_ (onHead_of_eq h _).symm
    rw [if_neg (by decide), if_pos rfl]
    split
    · next hrest => rw [hrest]; rfl
    · next hrest => rw [hrest]; rfl
    · next hnil hclose =>
      obtain ⟨c, rest', hrest⟩ := List.exists_cons_of_ne_nil hnil
      have hc : c ≠ ']' := by
        rintro rfl
        exact hclose rest' hrest
      rw [hrest, onHead, if_neg hc]
      apply result_bind
      intro x next
      apply result_bind_ok
      intro xs last
      rfl
  · next hclose hcomma =>
    rw [onHead_ite hclose, onHead_ite hcomma, onHead_none]
    rfl

theorem moreItems_append {item : Reader α} (hitem : IgnoresGap item) (hgap : IsGap gap) (s : List Char) :
    result (moreItems item (s ++ gap)) = (result (moreItems item s)).map (withGap gap) := by
  induction s using Text.rest_induction with
  | step s ih =>
    rw [result_moreItems, result_moreItems item s]
    apply onHead_skipBlank_append hgap
    · intro _ c rest hblank
      rw [if_neg (ne_of_isBlank hblank (by decide)), if_neg (ne_of_isBlank hblank (by decide))]
    · intro c rest hs
      have hrest := length_of_skipBlank hs
      split
      · rfl
      · split
        · apply onHead_skipBlank_append hgap
          · intro hblanks c' _ hblank
            -- nothing but blanks behind the comma
            have hwhole : IsGap (rest ++ gap) := Text.isGap_append.2 ⟨isGap_of_skipBlank hblanks, hgap⟩
            rw [if_neg (ne_of_isBlank hblank (by decide)), hitem.of_isGap hwhole]
            rfl
          · intro c' _ _
            split
            · rfl
            · rw [hitem rest gap hgap]
              apply bind_withGap
              intro x next hread
              have hnext := length_of_result hread
              rw [ih next (by omega)]
              exact map_withGap _ fun xs ↦ x :: xs
        · rfl

theorem result_items (item : Reader α) (s : List Char) :
    result (items item s) = onHead (fun c rest ↦
      if c = ']' then some ([], rest)
      else (result (item s)).bind fun y ↦
        (result (moreItems item y.2)).map fun z ↦ (y.1 :: z.1, z.2)) (skipBlank s) := by
  unfold items
  split
  · next h => rw [h]; rfl
  · next rest h =>
    refine Eq.trans ?_ (onHead_of_eq h _).symm
    rfl
  · next hnil hclose =>
    obtain ⟨c, rest, h⟩ := List.exists_cons_of_ne_nil hnil
    have hc : c ≠ ']' := by
      rintro rfl
      exact hclose rest h
    refine Eq.trans ?_ (onHead_of_eq h _).symm
    rw [if_neg hc]
    apply result_bind
    intro x next
    apply result_bind_ok
    intro xs last
    rfl

theorem items_append {item : Reader α} (hitem : IgnoresGap item) (hgap : IsGap gap) (s : List Char) :
    result (items item (s ++ gap)) = (result (items item s)).map (withGap gap) := by
  rw [result_items, result_items]
  apply onHead_skipBlank_append hgap
  · intro hblanks c _ hblank
    have hwhole : IsGap (s ++ gap) := Text.isGap_append.2 ⟨isGap_of_skipBlank hblanks, hgap⟩
    rw [if_neg (ne_of_isBlank hblank (by decide)), hitem.of_isGap hwhole]
    rfl
  · intro c rest _
    split
    · rfl
    · rw [hitem s gap hgap]
      apply bind_withGap
      intro x next _
      rw [moreItems_append hitem hgap]
      exact map_withGap _ fun xs ↦ x :: xs

section

variable {σ : Type} {member : MemberReader σ}

theorem result_keyed (member : MemberReader σ) (state : σ) (s : List Char) :
    result (keyed member state s) = (result (stringBody s)).bind fun y ↦
      result (member state (String.ofList y.1) y.2) := by
  apply result_bind
  intro key next
  refine (result_bind_ok fun x last ↦ rfl).trans ?_
  exact Option.map_id_apply

theorem ignoresGap_keyed (hmember : ∀ state key, IgnoresGap (member state key)) (state : σ) :
    IgnoresGap (keyed member state) := by
  intro s gap hgap
  rw [result_keyed, result_keyed, stringBody_append hgap]
  apply bind_withGap
  intro key rest _
  exact hmember state (String.ofList key) rest gap hgap

theorem result_moreMembers (member : MemberReader σ) (state : σ) (s : List Char) :
    result (moreMembers member state s) = onHead (fun c rest ↦
      if c = '\x7d' then some (state, rest)
      else if c = ',' then
        onHead (fun c' key ↦ if c' = '"' then (result (keyed member state key)).bind fun y ↦
          result (moreMembers member y.1 y.2) else none) (skipBlank rest)
      else none) (skipBlank s) := by
  rw [moreMembers.eq_def]
  split
  · next rest h =>
    refine Eq.trans ?_ (onHead_of_eq h _).symm
    rfl
  · next rest h =>
    refine Eq.trans ?_ (onHead_of_eq h _).symm
    rw [if_neg (by decide), if_pos rfl]
    split
    · next key h' =>
      refine Eq.trans ?_ (onHead_of_eq h' _).symm
      rw [if_pos rfl]
      apply result_bind
      intro state' next
      refine (result_bind_ok fun x last ↦ rfl).trans ?_
      exact Option.map_id_apply
    · next h' => rw [h']; rfl
    · next hquote _ =>
      rw [onHead_ite hquote, onHead_none]
      rfl
  · next hclose hcomma =>
    rw [onHead_ite hclose, onHead_ite hcomma, onHead_none]
    rfl

theorem moreMembers_append (hmember : ∀ state key, IgnoresGap (member state key)) (hgap : IsGap gap)
    (state : σ) (s : List Char) : result (moreMembers member state (s ++ gap)) =
      (result (moreMembers member state s)).map (withGap gap) := by
  induction s using Text.rest_induction generalizing state with
  | step s ih =>
    rw [result_moreMembers, result_moreMembers member state s]
    apply onHead_skipBlank_append hgap
    · intro _ c rest hblank
      rw [if_neg (ne_of_isBlank hblank (by decide)), if_neg (ne_of_isBlank hblank (by decide))]
    · intro c rest hs
      have hrest := length_of_skipBlank hs
      split
      · rfl
      · split
        · apply onHead_skipBlank_append hgap
          · intro _ c' key hblank
            rw [if_neg (ne_of_isBlank hblank (by decide))]
          · intro c' key hkey
            have hlength := length_of_skipBlank hkey
            split
            · rw [ignoresGap_keyed hmember state key gap hgap]
              apply bind_withGap
              intro state' next hread
              have hnext := length_of_result hread
              exact ih next (by omega) state'
            · rfl
        · rfl

theorem result_members (member : MemberReader σ) (state : σ) (s : List Char) :
    result (members member state s) = onHead (fun c rest ↦
      if c = '\x7d' then some (state, rest)
      else if c = '"' then (result (keyed member state rest)).bind fun y ↦
        result (moreMembers member y.1 y.2)
      else none) (skipBlank s) := by
  unfold members
  split
  · next rest h =>
    refine Eq.trans ?_ (onHead_of_eq h _).symm
    rfl
  · next key h =>
    refine Eq.trans ?_ (onHead_of_eq h _).symm
    rw [if_neg (by decide), if_pos rfl]
    apply result_bind
    intro state' next
    refine (result_bind_ok fun x last ↦ rfl).trans ?_
    exact Option.map_id_apply
  · next hclose hquote =>
    rw [onHead_ite hclose, onHead_ite hquote, onHead_none]
    rfl

theorem members_append (hmember : ∀ state key, IgnoresGap (member state key)) (hgap : IsGap gap)
    (state : σ) (s : List Char) : result (members member state (s ++ gap)) =
      (result (members member state s)).map (withGap gap) := by
  rw [result_members, result_members]
  apply onHead_skipBlank_append hgap
  · intro _ c rest hblank
    rw [if_neg (ne_of_isBlank hblank (by decide)), if_neg (ne_of_isBlank hblank (by decide))]
  · intro c rest _
    split
    · rfl
    · split
      · rw [ignoresGap_keyed hmember state rest gap hgap]
        apply bind_withGap
        intro state' next _
        exact moreMembers_append hmember hgap state' next
      · rfl

end

theorem result_collect (value : Reader Json) (fields : List (String × Json)) (key : String)
    (s : List Char) : result (collect value fields key s) = onHead (fun c rest ↦
      if c = ':' then (result (value rest)).map fun y ↦ (fields ++ [(key, y.1)], y.2) else none)
        (skipBlank s) := by
  unfold collect colon
  split
  · next rest h =>
    refine Eq.trans ?_ (onHead_of_eq h _).symm
    rw [if_pos rfl]
    apply result_bind_ok (g := fun x ↦ fields ++ [(key, x)])
    intro x last
    rfl
  · next hcolon =>
    rw [onHead_ite hcolon, onHead_none]
    rfl

theorem ignoresGap_collect {value : Reader Json} (hvalue : IgnoresGap value)
    (fields : List (String × Json)) (key : String) : IgnoresGap (collect value fields key) := by
  intro s gap hgap
  rw [result_collect, result_collect]
  apply onHead_skipBlank_append hgap
  · intro _ c rest hblank
    rw [if_neg (ne_of_isBlank hblank (by decide))]
  · intro c rest _
    split
    · rw [hvalue rest gap hgap]
      exact map_withGap _ fun x ↦ fields ++ [(key, x)]
    · rfl

theorem onHead_scalar (s : List Char) :
    onHead (fun _ _ ↦ result (scalar s)) (skipBlank s) = result (scalar s) := by
  cases h : skipBlank s with
  | nil => rw [result_scalar, h]; rfl
  | cons c rest => rfl

theorem result_value_zero (s : List Char) :
    result (value 0 s) = onHead (fun c _ ↦
      if c = '[' then none else if c = '\x7b' then none else result (scalar s)) (skipBlank s) := by
  rw [value]
  beta_reduce
  split
  · next h => rw [h]; rfl
  · next h => rw [h]; rfl
  · next hlist hobject =>
    rw [onHead_ite hlist, onHead_ite hobject, onHead_scalar]

theorem result_value_succ (depth : ℕ) (s : List Char) :
    result (value (depth + 1) s) = onHead (fun c rest ↦
      if c = '[' then (result (items (value depth) rest)).map fun y ↦ (.array y.1, y.2)
      else if c = '\x7b' then
        (result (members (collect (value depth)) [] rest)).map fun y ↦ (.object (sortFields y.1), y.2)
      else result (scalar s)) (skipBlank s) := by
  rw [value]
  beta_reduce
  split
  · next rest h =>
    refine Eq.trans ?_ (onHead_of_eq h _).symm
    rw [if_pos rfl]
    apply result_map (g := fun xs ↦ Json.array xs)
    intro xs last
    exact ⟨rfl, rfl⟩
  · next rest h =>
    refine Eq.trans ?_ (onHead_of_eq h _).symm
    rw [if_neg (by decide), if_pos rfl]
    apply result_map (g := fun fields ↦ Json.object (sortFields fields))
    intro fields last
    exact ⟨rfl, rfl⟩
  · next hlist hobject =>
    rw [onHead_ite hlist, onHead_ite hobject, onHead_scalar]

theorem ignoresGap_value (depth : ℕ) : IgnoresGap (value depth) := by
  have hscalar : ∀ {s gap : List Char}, IsGap gap → skipBlank s = [] →
      result (scalar (s ++ gap)) = none := by
    intro s gap hgap hblanks
    exact ignoresGap_scalar.of_isGap (Text.isGap_append.2 ⟨isGap_of_skipBlank hblanks, hgap⟩)
  -- The limit of the depth only decides whether brackets are read, so both cases look alike.
  induction depth with
  | zero =>
    intro s gap hgap
    rw [result_value_zero, result_value_zero]
    apply onHead_skipBlank_append hgap
    · intro hblanks c _ _
      rw [hscalar hgap hblanks, ite_self, ite_self]
    · intro c rest _
      split
      · rfl
      · split
        · rfl
        · exact ignoresGap_scalar s gap hgap
  | succ depth ih =>
    intro s gap hgap
    rw [result_value_succ, result_value_succ]
    apply onHead_skipBlank_append hgap
    · intro hblanks c _ hblank
      rw [if_neg (ne_of_isBlank hblank (by decide)), if_neg (ne_of_isBlank hblank (by decide)),
        hscalar hgap hblanks]
    · intro c rest _
      split
      · rw [items_append ih hgap]
        exact map_withGap _ fun xs ↦ Json.array xs
      · split
        · rw [members_append (ignoresGap_collect ih) hgap]
          exact map_withGap _ fun fields ↦ Json.object (sortFields fields)
        · exact ignoresGap_scalar s gap hgap

/-! ### The first character of a value -/

/-- Whether a value is written with a given first character. -/
def Begins (c : Char) : Json → Prop
  | .null => c = 'n'
  | .bool value => c = if value then 't' else 'f'
  | .number _ => c = '-' ∨ c.isDigit = true
  | .string _ => c = '"'
  | .array _ => c = '['
  | .object _ => c = '\x7b'

theorem Begins.not_isBlank {c : Char} {x : Json} (h : x.Begins c) : Text.isBlank c = false := by
  cases x with
  | bool value =>
    rw [h]
    cases value <;> rfl
  | number n =>
    obtain rfl | hdigit := h
    · rfl
    · by_contra hblank
      rw [Bool.not_eq_false] at hblank
      simp [isDigit_of_isBlank hblank] at hdigit
  | _ =>
    rw [h]
    rfl

theorem begins_of_scalar {c : Char} {tail rest : List Char} {x : Json} (hs : skipBlank s = c :: tail)
    (h : result (scalar s) = some (x, rest)) : x.Begins c := by
  rw [result_scalar, onHead_of_eq hs] at h
  have hmap : ∀ {α : Type} {a : Option (α × List Char)} {g : α → Json},
      (a.map fun y ↦ (g y.1, y.2)) = some (x, rest) → ∃ y, x = g y := by
    intro α a g ha
    obtain ⟨y, -, hy⟩ := Option.map_eq_some_iff.1 ha
    exact ⟨y.1, (congrArg Prod.fst hy).symm⟩
  have hword : ∀ {a : Option (List Char)} {y : Json},
      (a.map fun last ↦ (y, last)) = some (x, rest) → x = y := by
    intro a y ha
    obtain ⟨last, -, hlast⟩ := Option.map_eq_some_iff.1 ha
    exact (congrArg Prod.fst hlast).symm
  split at h
  · next hc => rw [hword h]; exact hc
  · split at h
    · next hc => rw [hword h]; exact hc
    · split at h
      · next hc => rw [hword h]; exact hc
      · split at h
        · next hc =>
          obtain ⟨y, rfl⟩ := hmap h
          exact .inl hc
        · split at h
          · next hc =>
            obtain ⟨y, rfl⟩ := hmap (g := fun cs ↦ .string (String.ofList cs)) h
            exact hc
          · split at h
            · next hc =>
              obtain ⟨y, rfl⟩ := hmap h
              exact .inr hc
            · cases h

theorem head_ne_of_scalar {c : Char} {tail : List Char} {y : Json × List Char}
    (hs : skipBlank s = c :: tail) (h : result (scalar s) = some y) : c ≠ '[' ∧ c ≠ '\x7b' := by
  rw [result_scalar, onHead_of_eq hs] at h
  constructor
  · rintro rfl
    cases h
  · rintro rfl
    cases h

theorem exists_begins_of_scalar {x : Json} {rest : List Char} (h : result (scalar s) = some (x, rest)) :
    ∃ c tail, skipBlank s = c :: tail ∧ x.Begins c ∧ c ≠ '[' ∧ c ≠ '\x7b' := by
  obtain ⟨c, tail, hs, -⟩ := onHead_eq_some_iff.1 (result_scalar s ▸ h)
  exact ⟨c, tail, hs, begins_of_scalar hs h, head_ne_of_scalar hs h⟩

theorem result_value_of_ne {depth : ℕ} {c : Char} {tail : List Char} (hs : skipBlank s = c :: tail)
    (hlist : c ≠ '[') (hobject : c ≠ '\x7b') : result (value depth s) = result (scalar s) := by
  cases depth with
  | zero => rw [result_value_zero, onHead_of_eq hs, if_neg hlist, if_neg hobject]
  | succ depth => rw [result_value_succ, onHead_of_eq hs, if_neg hlist, if_neg hobject]

/-- The kind of a value is told by its first character. -/
theorem begins_of_value {depth : ℕ} {c : Char} {tail rest : List Char} {x : Json}
    (hs : skipBlank s = c :: tail) (h : result (value depth s) = some (x, rest)) : x.Begins c := by
  by_cases hlist : c = '['
  · subst hlist
    cases depth with
    | zero => rw [result_value_zero, onHead_of_eq hs] at h; cases h
    | succ depth =>
      rw [result_value_succ, onHead_of_eq hs, if_pos rfl] at h
      obtain ⟨y, -, hy⟩ := Option.map_eq_some_iff.1 h
      cases hy
      rfl
  · by_cases hobject : c = '\x7b'
    · subst hobject
      cases depth with
      | zero => rw [result_value_zero, onHead_of_eq hs] at h; cases h
      | succ depth =>
        rw [result_value_succ, onHead_of_eq hs, if_neg hlist, if_pos rfl] at h
        obtain ⟨y, -, hy⟩ := Option.map_eq_some_iff.1 h
        cases hy
        rfl
    · rw [result_value_of_ne hs hlist hobject] at h
      exact begins_of_scalar hs h

theorem exists_begins_of_value {depth : ℕ} {rest : List Char} {x : Json}
    (h : result (value depth s) = some (x, rest)) : ∃ c tail, skipBlank s = c :: tail ∧ x.Begins c := by
  obtain ⟨c, tail, hs⟩ : ∃ c tail, skipBlank s = c :: tail := by
    cases depth with
    | zero =>
      obtain ⟨c, tail, hs, -⟩ := onHead_eq_some_iff.1 (result_value_zero s ▸ h)
      exact ⟨c, tail, hs⟩
    | succ depth =>
      obtain ⟨c, tail, hs, -⟩ := onHead_eq_some_iff.1 (result_value_succ depth s ▸ h)
      exact ⟨c, tail, hs⟩
  exact ⟨c, tail, hs, begins_of_value hs h⟩

/-! ### Whole texts -/

theorem skipBlank_skipBlank (s : List Char) : skipBlank (skipBlank s) = skipBlank s :=
  List.dropWhile_idempotent isBlank s

theorem result_value_skipBlank (depth : ℕ) (s : List Char) :
    result (value depth (skipBlank s)) = result (value depth s) := by
  have hscalar : result (scalar (skipBlank s)) = result (scalar s) := by
    rw [result_scalar, result_scalar, skipBlank_skipBlank]
  cases depth with
  | zero => rw [result_value_zero, result_value_zero, skipBlank_skipBlank, hscalar]
  | succ depth => rw [result_value_succ, result_value_succ, skipBlank_skipBlank, hscalar]

/-- A value begins with the first character that is not blank, even where Unicode has more blanks than
JSON. -/
theorem exists_skipBlank_of_value {depth : ℕ} {y : Json × List Char}
    (h : result (value depth s) = some y) :
    ∃ c rest, skipBlank s = c :: rest ∧ Text.isBlank c = false := by
  obtain ⟨c, rest, hs, hbegins⟩ := exists_begins_of_value h
  exact ⟨c, rest, hs, hbegins.not_isBlank⟩

theorem head_of_object {depth : ℕ} {fields : List (String × Json)} {rest : List Char}
    (h : result (value depth s) = some (.object fields, rest)) : (skipBlank s).head? = some '\x7b' := by
  obtain ⟨c, tail, hs, hbegins⟩ := exists_begins_of_value h
  rw [hs, List.head?_cons]
  exact congrArg some hbegins

theorem toOption_readWith (reader : Reader α) (text : String) :
    (readWith reader text).toOption = (result (reader text.toList)).bind fun y ↦
      if skipBlank y.2 = [] then some y.1 else none := by
  rw [readWith]
  cases reader text.toList with
  | error fault => rfl
  | ok y =>
    obtain ⟨x, rest⟩ := y
    rw [result_ok, Option.bind_some]
    dsimp only
    split
    · next h => rw [if_pos h]; rfl
    · next h => rw [if_neg h]; rfl

theorem readWith_eq_ok_iff {reader : Reader α} {text : String} {x : α} :
    readWith reader text = .ok x ↔
      ∃ rest, result (reader text.toList) = some (x, rest) ∧ skipBlank rest = [] := by
  have hread : readWith reader text = .ok x ↔ (readWith reader text).toOption = some x := by
    cases readWith reader text with
    | error e => simp [Except.toOption]
    | ok y => simp [Except.toOption]
  rw [hread, toOption_readWith, Option.bind_eq_some_iff]
  constructor
  · rintro ⟨⟨y, rest⟩, hresult, hy⟩
    split at hy
    · next hrest =>
      cases hy
      exact ⟨rest, hresult, hrest⟩
    · cases hy
  · rintro ⟨rest, hresult, hrest⟩
    exact ⟨(x, rest), hresult, if_pos hrest⟩

theorem read_eq_ok_iff {text : String} {x : Json} : read text = .ok x ↔
    ∃ rest, result (value maxDepth text.toList) = some (x, rest) ∧ skipBlank rest = [] :=
  readWith_eq_ok_iff

theorem trimStart_eq_skipBlank {c : Char} {rest : List Char} (h : skipBlank s = c :: rest)
    (hc : Text.isBlank c = false) : Text.trimStart s = skipBlank s := by
  have hgap : IsGap (s.takeWhile isBlank) := by
    intro d hd
    exact isBlank_of_isBlank (List.mem_takeWhile_imp hd)
  have hsplit : s.takeWhile isBlank ++ skipBlank s = s := List.takeWhile_append_dropWhile
  rw [← hsplit, Text.trimStart_gap_append hgap, hsplit, h]
  exact List.dropWhile_cons_of_neg (by simp [hc])

/-- A text that is JSON can be trimmed, by the blanks of Unicode, and is the same JSON. -/
theorem read_trimmed {text : String} {x : Json} (h : read text = .ok x) :
    read (Text.trimmed text) = .ok x := by
  obtain ⟨rest, hresult, hrest⟩ := read_eq_ok_iff.1 h
  obtain ⟨c, tail, hskip, hc⟩ := exists_skipBlank_of_value hresult
  have htrim : Text.trim text.toList = Text.trimEnd (skipBlank text.toList) := by
    rw [Text.trim, trimStart_eq_skipBlank hskip hc]
  obtain ⟨gap, hgap, hsplit⟩ := Text.exists_trimEnd_append (skipBlank text.toList)
  have hboth := ignoresGap_value maxDepth (Text.trimEnd (skipBlank text.toList)) gap hgap
  rw [← hsplit, result_value_skipBlank, hresult] at hboth
  obtain ⟨⟨y, rest'⟩, hread, hy⟩ := Option.map_eq_some_iff.1 hboth.symm
  cases hy
  rw [read_eq_ok_iff, Text.trimmed, String.toList_ofList, htrim]
  refine ⟨rest', hread, ?_⟩
  apply List.dropWhile_eq_nil_iff.2
  intro d hd
  exact List.dropWhile_eq_nil_iff.1 hrest d (List.mem_append_left gap hd)

theorem head?_trim_of_object {text : String} {fields : List (String × Json)}
    (h : read text = .ok (.object fields)) : (Text.trim text.toList).head? = some '\x7b' := by
  obtain ⟨rest, hresult, -⟩ := read_eq_ok_iff.1 h
  obtain ⟨c, tail, hskip, hc⟩ := exists_skipBlank_of_value hresult
  have hhead := head_of_object hresult
  rw [hskip, List.head?_cons] at hhead
  rw [Text.trim, trimStart_eq_skipBlank hskip hc, hskip]
  cases htrim : Text.trimEnd (c :: tail) with
  | nil =>
    have hblank := Text.trimEnd_eq_nil.1 htrim c List.mem_cons_self
    rw [hc] at hblank
    cases hblank
  | cons d kept =>
    obtain ⟨cut, hcut⟩ := Text.trimEnd_isPrefix (c :: tail)
    rw [htrim] at hcut
    obtain ⟨rfl, -⟩ := List.cons.inj hcut
    rw [List.head?_cons]
    exact hhead

end AgentReply.Json
