import AgentReply.Proofs.Json.Trim
import Mathlib.Data.List.Induction
import Mathlib.Data.List.Nodup

/-!
# The fields of an object

An object can be read as the list of its fields, as they are written, or with a state that takes one
field after the other. The two ways agree: what is read with a state is what the steps make of the
fields, and nothing is read if a step refuses its field. Fields in increasing order of the keys are told
by what stands under each key.
-/

namespace AgentReply.Json

variable {α σ : Type} {s : List Char}

/-! ### The next field -/

/-- What is left of a text behind its first character, if that is `c`; blanks may stand before it. -/
def past? (c : Char) (s : List Char) : Option (List Char) :=
  onHead (fun d rest ↦ if d = c then some rest else none) (skipBlank s)

theorem past?_of_skipBlank {c : Char} {rest : List Char} (h : skipBlank s = c :: rest) :
    past? c s = some rest := by
  rw [past?, onHead_of_eq h, if_pos rfl]

theorem past?_eq_none {c : Char} (h : ∀ rest, skipBlank s ≠ c :: rest) : past? c s = none := by
  rw [past?, onHead_ite h, onHead_none]

theorem map_colon (s : List Char) : (colon s).toOption.map Subtype.val = past? ':' s := by
  unfold colon
  split
  · next rest h => exact (past?_of_skipBlank h).symm
  · next hcolon => exact (past?_eq_none hcolon).symm

theorem length_of_past? {c : Char} {rest : List Char} (h : past? c s = some rest) :
    rest.length < s.length := by
  obtain ⟨d, tail, hs, h⟩ := onHead_eq_some_iff.1 h
  obtain ⟨-, rfl⟩ : d = c ∧ tail = rest := by simpa using h
  exact length_of_skipBlank hs

/-- The field whose key begins behind an opening quote. -/
def field? (value : Reader Json) (s : List Char) : Option ((String × Json) × List Char) :=
  (result (stringBody s)).bind fun y ↦ (past? ':' y.2).bind fun rest ↦
    (result (value rest)).map fun z ↦ ((String.ofList y.1, z.1), z.2)

theorem length_of_field? {value : Reader Json} {y : (String × Json) × List Char}
    (h : field? value s = some y) : y.2.length < s.length := by
  obtain ⟨key, hkey, h⟩ := Option.bind_eq_some_iff.1 h
  obtain ⟨rest, hrest, h⟩ := Option.bind_eq_some_iff.1 h
  obtain ⟨z, hz, rfl⟩ := Option.map_eq_some_iff.1 h
  have hkey' : key.2.length < s.length := length_of_result hkey
  have hrest' : rest.length < key.2.length := length_of_past? hrest
  have hz' : z.2.length < rest.length := length_of_result hz
  exact hz'.trans (hrest'.trans hkey')

/-- The field behind a comma. -/
def nextField? (value : Reader Json) (s : List Char) : Option ((String × Json) × List Char) :=
  ((past? ',' s).bind (past? '"')).bind (field? value)

theorem length_of_nextField? {value : Reader Json} {y : (String × Json) × List Char}
    (h : nextField? value s = some y) : y.2.length < s.length := by
  obtain ⟨key, hkey, hy⟩ := Option.bind_eq_some_iff.1 h
  obtain ⟨rest, hrest, hquote⟩ := Option.bind_eq_some_iff.1 hkey
  exact (length_of_field? hy).trans ((length_of_past? hquote).trans (length_of_past? hrest))

/-! ### Reading with a state -/

/-- A reader of members that takes a step with each value. -/
def Steps (value : Reader Json) (step : σ → String → Json → Option σ) (member : MemberReader σ) :
    Prop :=
  ∀ state key s, result (member state key s) = (past? ':' s).bind fun rest ↦
    (result (value rest)).bind fun y ↦ (step state key y.1).map fun next ↦ (next, y.2)

theorem steps_collect (value : Reader Json) :
    Steps value (fun fields key x ↦ some (fields ++ [(key, x)])) (collect value) := by
  intro fields key s
  rw [result_collect, past?]
  cases skipBlank s with
  | nil => rfl
  | cons c rest =>
    rw [onHead, onHead]
    split
    · exact Option.map_eq_bind
    · rfl

/-- What some steps make of a list of fields, one after the other. -/
def foldFields (step : σ → String → Json → Option σ) : σ → List (String × Json) → Option σ
  | state, [] => some state
  | state, (key, x) :: rest => (step state key x).bind fun next ↦ foldFields step next rest

section

variable {value : Reader Json} {step : σ → String → Json → Option σ} {member : MemberReader σ}

theorem foldFields_concat (state : σ) (fields : List (String × Json)) (key : String) (x : Json) :
    foldFields step state (fields ++ [(key, x)]) =
      (foldFields step state fields).bind fun next ↦ step next key x := by
  induction fields generalizing state with
  | nil => exact Option.bind_fun_some _
  | cons field fields ih =>
    rw [List.cons_append, foldFields, foldFields, Option.bind_assoc]
    exact congrArg (Option.bind _) (funext ih)

theorem Steps.result_keyed (h : Steps value step member) (state : σ) (s : List Char) :
    result (keyed member state s) = (field? value s).bind fun y ↦
      (step state y.1.1 y.1.2).map fun next ↦ (next, y.2) := by
  rw [Json.result_keyed, field?, Option.bind_assoc]
  refine congrArg (Option.bind _) (funext fun y ↦ ?_)
  rw [h, Option.bind_assoc]
  refine congrArg (Option.bind _) (funext fun rest ↦ ?_)
  rw [Option.bind_map]
  rfl

theorem Steps.result_moreMembers (h : Steps value step member) (state : σ) (s : List Char) :
    result (moreMembers member state s) =
      ((past? '\x7d' s).map fun rest ↦ (state, rest)).or
        ((nextField? value s).bind fun y ↦
          (step state y.1.1 y.1.2).bind fun next ↦ result (moreMembers member next y.2)) := by
  rw [Json.result_moreMembers, nextField?, past?, past?]
  cases skipBlank s with
  | nil => rfl
  | cons c rest =>
    rw [onHead, onHead, onHead]
    split
    · rfl
    · split
      · rw [Option.map_none, Option.none_or, Option.bind_some, past?]
        cases skipBlank rest with
        | nil => rfl
        | cons d key =>
          rw [onHead, onHead]
          split
          · rw [h.result_keyed, Option.bind_some, Option.bind_assoc]
            refine congrArg (Option.bind _) (funext fun y ↦ ?_)
            rw [Option.bind_map]
            rfl
          · rfl
      · rfl

theorem Steps.result_members (h : Steps value step member) (state : σ) (s : List Char) :
    result (members member state s) =
      ((past? '\x7d' s).map fun rest ↦ (state, rest)).or
        (((past? '"' s).bind (field? value)).bind fun y ↦
          (step state y.1.1 y.1.2).bind fun next ↦ result (moreMembers member next y.2)) := by
  rw [Json.result_members, past?, past?]
  cases skipBlank s with
  | nil => rfl
  | cons c rest =>
    rw [onHead, onHead, onHead]
    split
    · rfl
    · split
      · rw [h.result_keyed, Option.map_none, Option.none_or, Option.bind_some, Option.bind_assoc]
        refine congrArg (Option.bind _) (funext fun y ↦ ?_)
        rw [Option.bind_map]
        rfl
      · rfl

theorem result_moreMembers_collect (value : Reader Json) (fields : List (String × Json))
    (s : List Char) : result (moreMembers (collect value) fields s) =
      (result (moreMembers (collect value) [] s)).map fun y ↦ (fields ++ y.1, y.2) := by
  induction s using Text.rest_induction generalizing fields with
  | step s ih =>
    rw [(steps_collect value).result_moreMembers, (steps_collect value).result_moreMembers []]
    cases past? '\x7d' s with
    | some rest => simp
    | none =>
      cases hnext : nextField? value s with
      | none => rfl
      | some y =>
        have hy : y.2.length < s.length := length_of_nextField? hnext
        simp only [Option.map_none, Option.none_or, Option.bind_some, List.nil_append]
        rw [ih y.2 hy, ih y.2 hy [_], Option.map_map]
        simp [Function.comp_def]

theorem foldFields_collected (field : String × Json) (state : σ) (s : List Char) :
    ((result (moreMembers (collect value) [field] s)).bind fun y ↦
        (foldFields step state y.1).map fun last ↦ (last, y.2)) =
      (step state field.1 field.2).bind fun next ↦
        (result (moreMembers (collect value) [] s)).bind fun y ↦
          (foldFields step next y.1).map fun last ↦ (last, y.2) := by
  rw [result_moreMembers_collect value [field]]
  cases result (moreMembers (collect value) [] s) with
  | none => cases step state field.1 field.2 <;> rfl
  | some y =>
    rw [Option.map_some, Option.bind_some, List.singleton_append, foldFields]
    cases step state field.1 field.2 <;> rfl

/-- Taking a step with each field is collecting the fields and then taking the steps. -/
theorem Steps.result_moreMembers_eq (h : Steps value step member) (state : σ) (s : List Char) :
    result (moreMembers member state s) = (result (moreMembers (collect value) [] s)).bind fun y ↦
      (foldFields step state y.1).map fun last ↦ (last, y.2) := by
  induction s using Text.rest_induction generalizing state with
  | step s ih =>
    rw [h.result_moreMembers, (steps_collect value).result_moreMembers []]
    cases past? '\x7d' s with
    | some rest => rfl
    | none =>
      cases hnext : nextField? value s with
      | none => rfl
      | some y =>
        have hy : y.2.length < s.length := length_of_nextField? hnext
        refine Eq.trans ?_ (foldFields_collected y.1 state y.2).symm
        exact congrArg (Option.bind _) (funext fun next ↦ ih y.2 hy next)

theorem Steps.result_members_eq (h : Steps value step member) (state : σ) (s : List Char) :
    result (members member state s) = (result (members (collect value) [] s)).bind fun y ↦
      (foldFields step state y.1).map fun last ↦ (last, y.2) := by
  rw [h.result_members, (steps_collect value).result_members []]
  cases past? '\x7d' s with
  | some rest => rfl
  | none =>
    cases (past? '"' s).bind (field? value) with
    | none => rfl
    | some y =>
      refine Eq.trans ?_ (foldFields_collected y.1 state y.2).symm
      exact congrArg (Option.bind _) (funext fun next ↦ h.result_moreMembers_eq next y.2)

end

/-! ### Whole objects -/

theorem result_fieldList (s : List Char) : result (fieldList s) =
    (past? '\x7b' s).bind fun rest ↦ result (members (collect (value (maxDepth - 1))) [] rest) := by
  unfold fieldList
  split
  · next rest h =>
    rw [past?_of_skipBlank h, Option.bind_some]
    exact (result_map fun x last ↦ ⟨rfl, rfl⟩).trans Option.map_id_apply
  · next hbrace =>
    rw [past?_eq_none hbrace]
    rfl

theorem result_value_object {depth : ℕ} {object : List (String × Json)} {rest : List Char} :
    result (value (depth + 1) s) = some (.object object, rest) ↔
      ∃ fields, ((past? '\x7b' s).bind fun next ↦
        result (members (collect (value depth)) [] next)) = some (fields, rest) ∧
          object = sortFields fields := by
  cases hs : skipBlank s with
  | nil => simp [result_value_succ, onHead, past?, hs]
  | cons c next =>
    by_cases hc : c = '\x7b'
    · subst hc
      rw [result_value_succ, past?, onHead_of_eq hs, onHead_of_eq hs, if_neg (by decide), if_pos rfl,
        if_pos rfl, Option.bind_some, Option.map_eq_some_iff]
      constructor
      · rintro ⟨y, hy, heq⟩
        cases heq
        exact ⟨y.1, hy, rfl⟩
      · rintro ⟨fields, hfields, rfl⟩
        exact ⟨_, hfields, rfl⟩
    · rw [past?, onHead_of_eq hs, if_neg hc, Option.bind_none]
      constructor
      · exact fun h ↦ absurd (begins_of_value hs h) hc
      · rintro ⟨fields, ⟨⟩, -⟩

/-- A text is an object when its fields can be read. The order of the fields and those that are
repeated are not seen in it. -/
theorem read_eq_object_iff {text : String} {object : List (String × Json)} :
    read text = .ok (.object object) ↔
      ∃ fields, readWith fieldList text = .ok fields ∧ object = sortFields fields := by
  have hvalue : ∀ {rest}, result (value maxDepth text.toList) = some (.object object, rest) ↔ _ :=
    result_value_object
  simp only [read_eq_ok_iff, readWith_eq_ok_iff, result_fieldList, hvalue]
  constructor
  · rintro ⟨rest, ⟨fields, hfields, hobject⟩, hrest⟩
    exact ⟨fields, ⟨rest, hfields, hrest⟩, hobject⟩
  · rintro ⟨fields, ⟨rest, hfields, hrest⟩, hobject⟩
    exact ⟨rest, ⟨fields, hfields, hobject⟩, hrest⟩

/-! ### Fields in increasing order -/

/-- Each key is less than those behind it. -/
def IsSorted (fields : List (String × Json)) : Prop := fields.Pairwise fun a b ↦ a.1 < b.1

theorem mem_of_mem_insertField {key : String} {x : Json} {fields : List (String × Json)}
    {field : String × Json} (h : field ∈ insertField key x fields) :
    field = (key, x) ∨ field ∈ fields := by
  induction fields with
  | nil => exact .inl (List.mem_singleton.1 h)
  | cons other rest ih =>
    rw [insertField] at h
    split at h
    · exact List.mem_cons.1 h
    · split at h
      · rcases List.mem_cons.1 h with rfl | hmem
        · exact .inl rfl
        · exact .inr (List.mem_cons_of_mem _ hmem)
      · rcases List.mem_cons.1 h with rfl | hmem
        · exact .inr List.mem_cons_self
        · exact (ih hmem).imp_right (List.mem_cons_of_mem _)

theorem IsSorted.insertField {fields : List (String × Json)} (h : IsSorted fields) (key : String)
    (x : Json) : IsSorted (insertField key x fields) := by
  induction fields with
  | nil => exact List.pairwise_singleton ..
  | cons other rest ih =>
    obtain ⟨hother, hrest⟩ := List.pairwise_cons.1 h
    rw [Json.insertField]
    split
    · next hlt =>
      refine List.pairwise_cons.2 ⟨?_, h⟩
      intro field hfield
      rcases List.mem_cons.1 hfield with rfl | hmem
      · exact hlt
      · exact String.lt_trans hlt (hother field hmem)
    · next hlt =>
      split
      · next heq =>
        refine List.pairwise_cons.2 ⟨?_, hrest⟩
        rw [heq]
        exact hother
      · next hne =>
        refine List.pairwise_cons.2 ⟨?_, ih hrest⟩
        intro field hfield
        rcases mem_of_mem_insertField hfield with rfl | hmem
        · exact Std.lt_of_le_of_ne (Std.not_lt.1 hlt) (Ne.symm hne)
        · exact hother field hmem

theorem sortFields_concat (fields : List (String × Json)) (key : String) (x : Json) :
    sortFields (fields ++ [(key, x)]) = insertField key x (sortFields fields) := by
  rw [sortFields, List.foldl_append]
  rfl

theorem isSorted_sortFields (fields : List (String × Json)) : IsSorted (sortFields fields) := by
  induction fields using List.reverseRecOn with
  | nil => exact List.Pairwise.nil
  | append_singleton fields field ih =>
    rw [sortFields_concat]
    exact ih.insertField _ _

theorem lookup_sortFields (key : String) (fields : List (String × Json)) :
    (sortFields fields).lookup key =
      ((fields.filter fun field ↦ field.1 == key).map Prod.snd).getLast? := by
  induction fields using List.reverseRecOn with
  | nil => rfl
  | append_singleton fields field ih =>
    rw [sortFields_concat, lookup_insertField, List.filter_append, ih]
    by_cases h : key = field.1
    · simp [h]
    · simp [h, Ne.symm h]

theorem IsSorted.mem_iff_lookup {fields : List (String × Json)} (h : IsSorted fields) {key : String}
    {x : Json} : (key, x) ∈ fields ↔ fields.lookup key = some x := by
  rw [List.lookup_eq_some_iff]
  constructor
  · intro hmem
    obtain ⟨before, after, rfl⟩ := List.append_of_mem hmem
    refine ⟨before, after, rfl, ?_⟩
    intro field hfield
    have hlt : field.1 < key := (List.pairwise_append.1 h).2.2 field hfield _ List.mem_cons_self
    rw [bne_iff_ne]
    exact fun heq ↦ String.lt_irrefl key (heq ▸ hlt)
  · rintro ⟨before, after, rfl, -⟩
    simp

theorem lookup_sortFields_append (key : String) (a b : List (String × Json)) :
    (sortFields (a ++ b)).lookup key =
      ((sortFields b).lookup key).or ((sortFields a).lookup key) := by
  rw [lookup_sortFields, lookup_sortFields, lookup_sortFields, List.filter_append, List.map_append,
    List.getLast?_append]

theorem lookup_sortFields_eq_reverse (key : String) (fields : List (String × Json)) :
    (sortFields fields).lookup key = fields.reverse.lookup key := by
  induction fields using List.reverseRecOn with
  | nil => rfl
  | append_singleton fields field ih =>
    rw [sortFields_concat, lookup_insertField, ih, List.reverse_concat, List.lookup_cons]
    by_cases h : key = field.1
    · simp [h]
    · rw [if_neg h, beq_eq_false_iff_ne.2 h]

/-- A field is kept if no later one has its key. -/
theorem mem_sortFields_iff {key : String} {x : Json} {fields : List (String × Json)} :
    (key, x) ∈ sortFields fields ↔
      ∃ before after, fields = before ++ (key, x) :: after ∧ key ∉ after.map Prod.fst := by
  rw [(isSorted_sortFields fields).mem_iff_lookup, lookup_sortFields_eq_reverse,
    List.lookup_eq_some_iff]
  constructor
  · rintro ⟨later, earlier, heq, hlater⟩
    refine ⟨earlier.reverse, later.reverse, ?_, ?_⟩
    · rw [← List.reverse_reverse fields, heq, List.reverse_append, List.reverse_cons,
        List.append_assoc, List.singleton_append]
    · intro hmem
      obtain ⟨field, hfield, rfl⟩ := List.mem_map.1 hmem
      simpa using hlater field (List.mem_reverse.1 hfield)
  · rintro ⟨before, after, rfl, hafter⟩
    refine ⟨after.reverse, before.reverse, by simp, ?_⟩
    intro field hfield
    rw [bne_iff_ne]
    rintro rfl
    exact hafter (List.mem_map_of_mem (List.mem_reverse.1 hfield))

theorem IsSorted.ext {a b : List (String × Json)} (ha : IsSorted a) (hb : IsSorted b)
    (h : ∀ key, a.lookup key = b.lookup key) : a = b := by
  have hnodup : ∀ {fields : List (String × Json)}, IsSorted fields → fields.Nodup := by
    intro fields hfields
    refine hfields.imp ?_
    rintro x y hlt rfl
    exact String.lt_irrefl _ hlt
  have hperm : a.Perm b := by
    rw [List.perm_ext_iff_of_nodup (hnodup ha) (hnodup hb)]
    rintro ⟨key, x⟩
    rw [ha.mem_iff_lookup, hb.mem_iff_lookup, h]
  refine hperm.eq_of_pairwise ?_ ha hb
  intro x y _ _ hxy hyx
  exact absurd (String.lt_trans hxy hyx) (String.lt_irrefl _)

theorem IsSorted.nodup_keys {fields : List (String × Json)} (h : IsSorted fields) :
    (fields.map Prod.fst).Nodup := by
  refine List.pairwise_map.2 (h.imp ?_)
  intro a b hlt heq
  exact String.lt_irrefl _ (heq ▸ hlt)

theorem IsSorted.sortFields_eq {fields : List (String × Json)} (h : IsSorted fields) :
    sortFields fields = fields := by
  have hmem : ∀ key x, (key, x) ∈ sortFields fields ↔ (key, x) ∈ fields := by
    intro key x
    rw [mem_sortFields_iff]
    constructor
    · rintro ⟨before, after, rfl, -⟩
      simp
    · intro hfield
      obtain ⟨before, after, rfl⟩ := List.append_of_mem hfield
      have hbehind : IsSorted ((key, x) :: after) := (List.pairwise_append.1 h).2.1
      have hkeys := hbehind.nodup_keys
      exact ⟨before, after, rfl, (List.nodup_cons.1 hkeys).1⟩
  refine (isSorted_sortFields fields).ext h fun key ↦ Option.ext fun x ↦ ?_
  rw [← (isSorted_sortFields fields).mem_iff_lookup, ← h.mem_iff_lookup, hmem]

end AgentReply.Json
