import AgentReply.Envelope.Message
import AgentReply.Proofs.Envelope.Reading
import Mathlib.Logic.Relation

/-!
# What the fields of a frame mean

Only the values that stand under each name matter to an envelope, and not where in the frame they
stand. A name that means something may stand there once, with a value of its kind; all other fields
are kept by their keys, the last one of a key. What the draft of an envelope holds is told by these
values, one field after the other, and from it the message.
-/

namespace AgentReply

namespace Envelope

/-- The name that a field goes by: `data` is another name for `content`. -/
def fieldName (key : String) : String := if key = "data" then "content" else key

/-- The values of all fields of a name, in the order in which they are written. -/
def valuesOf (name : String) (fields : List (String × Json)) : List Json :=
  (fields.filter fun field ↦ fieldName field.1 == name).map Prod.snd

/-- The names that mean something. -/
def namesWithMeaning : List String := ["type", "content", "action", "complete", "id"]

/-- The fields of an envelope: a type, and at most one value for each other name that means
something. -/
structure IsEnvelope (fields : List (String × Json)) : Prop where
  kind : ∃ kind, valuesOf "type" fields = [.string kind]
  content : (valuesOf "content" fields).length ≤ 1
  action : (valuesOf "action" fields).length ≤ 1 ∧
    ∀ x ∈ valuesOf "action" fields, x = .null ∨ ∃ action, x = .string action
  complete : (valuesOf "complete" fields).length ≤ 1 ∧
    ∀ x ∈ valuesOf "complete" fields, x = .null ∨ ∃ value, x = .bool value
  id : (valuesOf "id" fields).length ≤ 1

/-- An envelope that has what some fields say. A null stands for nothing, and so does the absence of
a name, but the content is then null. -/
structure Carries (e : Envelope) (fields : List (String × Json)) : Prop where
  kind : valuesOf "type" fields = [.string e.kind]
  content : e.content = (valuesOf "content" fields).head?.getD .null
  action : e.action = (valuesOf "action" fields).head?.bind Json.string?
  complete : e.complete = (valuesOf "complete" fields).head?.bind Json.bool?
  id : e.id = (valuesOf "id" fields).head?.filter fun x ↦ x ≠ .null
  isSorted : Json.IsSorted e.extra
  extra : ∀ key, e.extra.lookup key =
    if key ∈ namesWithMeaning then none else (valuesOf key fields).getLast?

/-- The same values stand under each name, in the same order. -/
def SameValues (fields fields' : List (String × Json)) : Prop :=
  ∀ name, valuesOf name fields = valuesOf name fields'

variable {α : Type} {fields fields' : List (String × Json)} {key name : String} {x : Json}
  {d d' : Draft} {e e' : Envelope}

theorem valuesOf_concat (name key : String) (x : Json) (fields : List (String × Json)) :
    valuesOf name (fields ++ [(key, x)]) =
      valuesOf name fields ++ if fieldName key = name then [x] else [] := by
  by_cases h : fieldName key = name <;> simp [valuesOf, h]

/-! ### One name -/

/-- What has been read of the values of a name that may stand there once. -/
inductive Slot (decode : Json → Option α) : List Json → Option α → Prop
  | absent : Slot decode [] none
  | present {x : Json} {a : α} (h : decode x = some a) : Slot decode [x] (some a)

theorem slot_concat_iff {decode : Json → Option α} {values : List Json} {slot : Option α} :
    Slot decode (values ++ [x]) slot ↔
      ∃ soFar, Slot decode values soFar ∧ (once soFar decode x).map some = some slot := by
  constructor
  · intro h
    generalize hvalues : values ++ [x] = all at h
    cases h with
    | absent => simp at hvalues
    | @present y a ha =>
      obtain ⟨rfl, rfl⟩ : values = [] ∧ x = y := by simpa using List.append_eq_singleton_iff.1 hvalues
      exact ⟨none, .absent, by simp [once, ha]⟩
  · rintro ⟨soFar, hsoFar, hx⟩
    obtain ⟨a, ha, rfl⟩ := Option.map_eq_some_iff.1 hx
    cases hsoFar with
    | absent => exact .present ha
    | present _ => cases ha

/-- What a field makes of what has been read for one name. -/
def put (name : String) (decode : Json → Option α) (soFar : Option α) (key : String) (x : Json) :
    Option (Option α) :=
  if fieldName key = name then (once soFar decode x).map some else some soFar

theorem slot_valuesOf_concat_iff {decode : Json → Option α} {slot : Option α} :
    Slot decode (valuesOf name (fields ++ [(key, x)])) slot ↔
      ∃ soFar, Slot decode (valuesOf name fields) soFar ∧ put name decode soFar key x = some slot := by
  rw [valuesOf_concat]
  unfold put
  split
  · exact slot_concat_iff
  · simp

/-! ### All names -/

/-- What a field makes of a draft, for each name on its own. -/
theorem Draft.add?_eq_some_iff : d.add? key x = some d' ↔
    put "type" Json.string? d.kind key x = some d'.kind ∧
    put "content" some d.content key x = some d'.content ∧
    put "action" (Json.nullable? Json.string?) d.action key x = some d'.action ∧
    put "complete" (Json.nullable? Json.bool?) d.complete key x = some d'.complete ∧
    put "id" (Json.nullable? some) d.id key x = some d'.id ∧
    (if fieldName key ∈ namesWithMeaning then d.extra else Json.insertField key x d.extra) =
      d'.extra := by
  obtain ⟨kind, content, action, complete, id, extra⟩ := d'
  unfold Draft.add?
  split
  · simp [put, fieldName, namesWithMeaning, ← and_assoc]
  · simp [put, fieldName, namesWithMeaning]
    grind
  · simp [put, fieldName, namesWithMeaning]
    grind
  · simp [put, fieldName, namesWithMeaning]
    grind
  · simp [put, fieldName, namesWithMeaning]
    tauto
  · simp [put, fieldName, namesWithMeaning]
    tauto
  · next htype hcontent hdata haction hcomplete hid =>
    have hname : fieldName key = key := if_neg hdata
    have hput : ∀ {α : Type} {name : String} {decode : Json → Option α} {soFar : Option α},
        (key = name → False) → put name decode soFar key x = some soFar := by
      intro α name decode soFar h
      rw [put, hname, if_neg h]
    rw [hput htype, hput hcontent, hput haction, hput hcomplete, hput hid, hname, if_neg]
    · simp
    · simpa [namesWithMeaning] using ⟨htype, hcontent, haction, hcomplete, hid⟩

/-- What a draft holds after some fields. -/
structure Draft.Holds (d : Draft) (fields : List (String × Json)) : Prop where
  kind : Slot Json.string? (valuesOf "type" fields) d.kind
  content : Slot some (valuesOf "content" fields) d.content
  action : Slot (Json.nullable? Json.string?) (valuesOf "action" fields) d.action
  complete : Slot (Json.nullable? Json.bool?) (valuesOf "complete" fields) d.complete
  id : Slot (Json.nullable? some) (valuesOf "id" fields) d.id
  extra : d.extra = Json.sortFields (fields.filter fun field ↦ fieldName field.1 ∉ namesWithMeaning)

theorem Draft.holds_concat_iff :
    d'.Holds (fields ++ [(key, x)]) ↔ ∃ d : Draft, d.Holds fields ∧ d.add? key x = some d' := by
  have hextra : Json.sortFields
      ((fields ++ [(key, x)]).filter fun field ↦ fieldName field.1 ∉ namesWithMeaning) =
        let before := Json.sortFields
          (fields.filter fun field ↦ fieldName field.1 ∉ namesWithMeaning)
        if fieldName key ∈ namesWithMeaning then before else Json.insertField key x before := by
    by_cases h : fieldName key ∈ namesWithMeaning
    · simp [h]
    · simp [h, Json.sortFields_concat]
  simp only [Draft.add?_eq_some_iff]
  constructor
  · rintro ⟨hkind, hcontent, haction, hcomplete, hid, hlast⟩
    obtain ⟨kind, hkind⟩ := slot_valuesOf_concat_iff.1 hkind
    obtain ⟨content, hcontent⟩ := slot_valuesOf_concat_iff.1 hcontent
    obtain ⟨action, haction⟩ := slot_valuesOf_concat_iff.1 haction
    obtain ⟨complete, hcomplete⟩ := slot_valuesOf_concat_iff.1 hcomplete
    obtain ⟨id, hid⟩ := slot_valuesOf_concat_iff.1 hid
    exact ⟨⟨kind, content, action, complete, id, _⟩,
      ⟨hkind.1, hcontent.1, haction.1, hcomplete.1, hid.1, rfl⟩,
      hkind.2, hcontent.2, haction.2, hcomplete.2, hid.2, (hlast.trans hextra).symm⟩
  · rintro ⟨d, h, hkind, hcontent, haction, hcomplete, hid, hlast⟩
    refine ⟨?_, ?_, ?_, ?_, ?_, ?_⟩
    · exact slot_valuesOf_concat_iff.2 ⟨_, h.kind, hkind⟩
    · exact slot_valuesOf_concat_iff.2 ⟨_, h.content, hcontent⟩
    · exact slot_valuesOf_concat_iff.2 ⟨_, h.action, haction⟩
    · exact slot_valuesOf_concat_iff.2 ⟨_, h.complete, hcomplete⟩
    · exact slot_valuesOf_concat_iff.2 ⟨_, h.id, hid⟩
    · rw [hextra, ← hlast, h.extra]

theorem foldFields_add?_eq_some_iff :
    Json.foldFields Draft.add? {} fields = some d ↔ d.Holds fields := by
  induction fields using List.reverseRecOn generalizing d with
  | nil =>
    constructor
    · rintro ⟨⟩
      exact ⟨.absent, .absent, .absent, .absent, .absent, rfl⟩
    · obtain ⟨kind, content, action, complete, id, extra⟩ := d
      rintro ⟨⟨⟩, ⟨⟩, ⟨⟩, ⟨⟩, ⟨⟩, ⟨⟩⟩
      rfl
  | append_singleton fields field ih =>
    rw [Json.foldFields_concat, Draft.holds_concat_iff, Option.bind_eq_some_iff]
    simp only [ih]

/-! ### The envelope -/

theorem Slot.exists_of {decode : Json → Option α} {values : List Json} (hlength : values.length ≤ 1)
    (hdecode : ∀ x ∈ values, ∃ a, decode x = some a) : ∃ slot, Slot decode values slot := by
  match values with
  | [] => exact ⟨none, .absent⟩
  | [x] =>
    obtain ⟨a, ha⟩ := hdecode x List.mem_cons_self
    exact ⟨some a, .present ha⟩

theorem Slot.length_le {decode : Json → Option α} {values : List Json} {slot : Option α}
    (h : Slot decode values slot) : values.length ≤ 1 := by
  cases h <;> simp

theorem Slot.exists_decode {decode : Json → Option α} {values : List Json} {slot : Option α}
    (h : Slot decode values slot) (hx : x ∈ values) : ∃ a, decode x = some a := by
  cases h with
  | absent => cases hx
  | present ha =>
    obtain rfl := List.mem_singleton.1 hx
    exact ⟨_, ha⟩

theorem Slot.join_eq {decode : Json → Option α} {values : List Json} {slot : Option (Option α)}
    (h : Slot (Json.nullable? decode) values slot) (hnull : decode .null = none) :
    slot.join = values.head?.bind decode := by
  cases h with
  | absent => rfl
  | @present x a ha =>
    rw [Json.nullable?] at ha
    split at ha
    · next heq =>
      cases ha
      rw [heq]
      exact hnull.symm
    · obtain ⟨b, hb, rfl⟩ := Option.map_eq_some_iff.1 ha
      exact hb.symm

theorem fieldName_eq_iff (h : name ∉ namesWithMeaning) :
    fieldName key = name ↔ key = name ∧ fieldName key ∉ namesWithMeaning := by
  unfold fieldName
  split
  · next hdata =>
    constructor
    · rintro rfl
      exact absurd (by decide) h
    · rintro ⟨-, hcontent⟩
      exact absurd (by decide) hcontent
  · constructor
    · rintro rfl
      exact ⟨rfl, h⟩
    · exact And.left

theorem lookup_extra (key : String) (fields : List (String × Json)) :
    (Json.sortFields (fields.filter fun field ↦ fieldName field.1 ∉ namesWithMeaning)).lookup key =
      if key ∈ namesWithMeaning then none else (valuesOf key fields).getLast? := by
  rw [Json.lookup_sortFields, List.filter_filter]
  split
  · next h =>
    rw [List.filter_eq_nil_iff.2]
    · rfl
    · rintro ⟨other, x⟩ -
      simp only [Bool.and_eq_true, beq_iff_eq, decide_eq_true_eq, not_and_not_right]
      rintro rfl
      have hdata : other ≠ "data" := by
        rintro rfl
        exact absurd h (by decide)
      rwa [fieldName, if_neg hdata]
  · next h =>
    rw [valuesOf]
    congr 2
    refine List.filter_congr fun field _ ↦ ?_
    rw [Bool.eq_iff_iff]
    simp [fieldName_eq_iff h]

theorem Draft.Holds.carries {kind : String} (h : d.Holds fields) (hkind : d.kind = some kind) :
    (d.toEnvelope kind).Carries fields where
  kind := by
    have hslot := h.kind
    rw [hkind] at hslot
    generalize valuesOf "type" fields = values at hslot
    cases hslot with
    | @present x a ha =>
      cases x with
      | string value =>
        cases ha
        rfl
      | _ => cases ha
  content := by
    have hslot := h.content
    unfold Draft.toEnvelope
    generalize d.content = content, valuesOf "content" fields = values at *
    cases hslot with
    | absent => rfl
    | present ha => cases ha; rfl
  action := h.action.join_eq rfl
  complete := h.complete.join_eq rfl
  id := by
    have hslot := h.id
    unfold Draft.toEnvelope
    generalize d.id = id, valuesOf "id" fields = values at *
    cases hslot with
    | absent => rfl
    | @present x a ha =>
      by_cases hx : x = .null
      · subst hx
        cases ha
        rfl
      · obtain rfl : some x = a := by simpa [Json.nullable?, hx] using ha
        simp [Option.filter, hx]
  isSorted := by
    show Json.IsSorted d.extra
    rw [h.extra]
    exact Json.isSorted_sortFields _
  extra := by
    intro key
    show d.extra.lookup key = _
    rw [h.extra]
    exact lookup_extra key fields

theorem Draft.Holds.isEnvelope (h : d.Holds fields) (hkind : d.kind.isSome) :
    IsEnvelope fields where
  kind := by
    obtain ⟨kind, hkind⟩ := Option.isSome_iff_exists.1 hkind
    exact ⟨kind, (h.carries hkind).kind⟩
  content := h.content.length_le
  action := by
    refine ⟨h.action.length_le, ?_⟩
    intro x hx
    obtain ⟨a, ha⟩ := h.action.exists_decode hx
    cases x with
    | null => exact .inl rfl
    | string action => exact .inr ⟨action, rfl⟩
    | _ => cases ha
  complete := by
    refine ⟨h.complete.length_le, ?_⟩
    intro x hx
    obtain ⟨a, ha⟩ := h.complete.exists_decode hx
    cases x with
    | null => exact .inl rfl
    | bool value => exact .inr ⟨value, rfl⟩
    | _ => cases ha
  id := h.id.length_le

theorem IsEnvelope.exists_holds (h : IsEnvelope fields) :
    ∃ d : Draft, d.Holds fields ∧ d.kind.isSome := by
  obtain ⟨kind, hkind⟩ := h.kind
  have hkind' : Slot Json.string? (valuesOf "type" fields) (some kind) := hkind ▸ .present rfl
  have hcontent : ∀ x ∈ valuesOf "content" fields, ∃ a, some x = some a := fun x _ ↦ ⟨x, rfl⟩
  obtain ⟨content, hcontent⟩ := Slot.exists_of h.content hcontent
  have haction : ∀ x ∈ valuesOf "action" fields, ∃ a, Json.nullable? Json.string? x = some a := by
    intro x hx
    obtain rfl | ⟨action, rfl⟩ := h.action.2 x hx
    · exact ⟨none, rfl⟩
    · exact ⟨some action, rfl⟩
  obtain ⟨action, haction⟩ := Slot.exists_of h.action.1 haction
  have hcomplete : ∀ x ∈ valuesOf "complete" fields,
      ∃ a, Json.nullable? Json.bool? x = some a := by
    intro x hx
    obtain rfl | ⟨value, rfl⟩ := h.complete.2 x hx
    · exact ⟨none, rfl⟩
    · exact ⟨some value, rfl⟩
  obtain ⟨complete, hcomplete⟩ := Slot.exists_of h.complete.1 hcomplete
  have hid : ∀ x, ∃ a, Json.nullable? some x = some a := by
    intro x
    unfold Json.nullable?
    split
    · exact ⟨none, rfl⟩
    · exact ⟨some x, rfl⟩
  obtain ⟨id, hid⟩ := Slot.exists_of h.id fun x _ ↦ hid x
  exact ⟨⟨some kind, content, action, complete, id, _⟩,
    ⟨hkind', hcontent, haction, hcomplete, hid, rfl⟩, rfl⟩

theorem Carries.unique (h : e.Carries fields) (h' : e'.Carries fields) : e = e' := by
  have hkind : e.kind = e'.kind := by simpa using h.kind.symm.trans h'.kind
  have hextra : e.extra = e'.extra :=
    h.isSorted.ext h'.isSorted fun key ↦ (h.extra key).trans (h'.extra key).symm
  cases e
  cases e'
  congr
  · exact h.content.trans h'.content.symm
  · exact h.action.trans h'.action.symm
  · exact h.complete.trans h'.complete.symm
  · exact h.id.trans h'.id.symm

theorem ofFields?_eq_some_iff : ofFields? fields = some e ↔ IsEnvelope fields ∧ e.Carries fields := by
  rw [ofFields?, Option.bind_eq_some_iff]
  simp only [foldFields_add?_eq_some_iff, Option.map_eq_some_iff]
  constructor
  · rintro ⟨d, h, kind, hkind, rfl⟩
    exact ⟨h.isEnvelope (hkind ▸ rfl), h.carries hkind⟩
  · rintro ⟨h, he⟩
    obtain ⟨d, hd, hkind⟩ := h.exists_holds
    obtain ⟨kind, hkind⟩ := Option.isSome_iff_exists.1 hkind
    exact ⟨d, hd, kind, hkind, (hd.carries hkind).unique he⟩

/-! ### The order of the fields -/

theorem SameValues.isEnvelope (h : SameValues fields fields') (he : IsEnvelope fields) :
    IsEnvelope fields' where
  kind := h "type" ▸ he.kind
  content := h "content" ▸ he.content
  action := h "action" ▸ he.action
  complete := h "complete" ▸ he.complete
  id := h "id" ▸ he.id

theorem SameValues.carries (h : SameValues fields fields') (he : e.Carries fields) :
    e.Carries fields' where
  kind := h "type" ▸ he.kind
  content := h "content" ▸ he.content
  action := h "action" ▸ he.action
  complete := h "complete" ▸ he.complete
  id := h "id" ▸ he.id
  isSorted := he.isSorted
  extra := by
    intro key
    rw [← h key]
    exact he.extra key

theorem SameValues.ofFields?_eq (h : SameValues fields fields') :
    ofFields? fields = ofFields? fields' := by
  have hsymm : SameValues fields' fields := fun name ↦ (h name).symm
  refine Option.ext fun e ↦ ?_
  simp only [ofFields?_eq_some_iff]
  exact ⟨fun he ↦ ⟨h.isEnvelope he.1, h.carries he.2⟩,
    fun he ↦ ⟨hsymm.isEnvelope he.1, hsymm.carries he.2⟩⟩

/-- Two ways to write the same fields, which differ in the place of two neighbours of distinct names,
or in the other name of the content. -/
inductive Rewrites : List (String × Json) → List (String × Json) → Prop
  | swap {a b : String × Json} (before after : List (String × Json))
      (h : fieldName a.1 ≠ fieldName b.1) :
      Rewrites (before ++ a :: b :: after) (before ++ b :: a :: after)
  | rename (before after : List (String × Json)) (x : Json) :
      Rewrites (before ++ ("data", x) :: after) (before ++ ("content", x) :: after)

theorem Rewrites.sameValues (h : Rewrites fields fields') : SameValues fields fields' := by
  intro name
  cases h with
  | @swap a b before after hne =>
    by_cases ha : fieldName a.1 = name
    · have hb : fieldName b.1 ≠ name := fun hb ↦ hne (ha.trans hb.symm)
      simp [valuesOf, ha, hb]
    · simp [valuesOf, List.filter_cons, ha]
  | rename before after x =>
    have hdata : fieldName "data" = fieldName "content" := by decide
    by_cases hname : fieldName "content" = name <;> simp [valuesOf, hdata, hname]

theorem sameValues_of_rewrites (h : Relation.EqvGen Rewrites fields fields') :
    SameValues fields fields' := by
  induction h with
  | rel _ _ h => exact h.sameValues
  | refl => exact fun _ ↦ rfl
  | symm _ _ _ ih => exact fun name ↦ (ih name).symm
  | trans _ _ _ _ _ ih ih' => exact fun name ↦ (ih name).trans (ih' name)

end Envelope

/-! ### The message -/

namespace Message

open Envelope

variable {deltaTypes : List String} {frame frame' : String} {fields fields' : List (String × Json)}
  {e : Envelope} {m : Message}

theorem decode_toOption (deltaTypes : List String) (frame : String) :
    (decode deltaTypes frame).toOption =
      (Envelope.read frame).toOption.map (ofEnvelope deltaTypes) := by
  unfold decode
  cases Envelope.read frame <;> rfl

theorem decode_eq_ok_iff : decode deltaTypes frame = .ok m ↔
    ∃ e, Envelope.read frame = .ok e ∧ ofEnvelope deltaTypes e = m := by
  unfold decode
  cases Envelope.read frame <;> simp

theorem read_toOption (h : Json.readWith Json.fieldList frame = .ok fields) :
    (Envelope.read frame).toOption = ofFields? fields := by
  refine Option.ext fun e ↦ ?_
  have hok : (Envelope.read frame).toOption = some e ↔ Envelope.read frame = .ok e := by
    cases Envelope.read frame <;> simp [Except.toOption]
  rw [hok, Envelope.read_eq_ok_iff]
  constructor
  · rintro ⟨other, hother, he⟩
    rw [h] at hother
    cases hother
    exact he
  · exact fun he ↦ ⟨fields, h, he⟩

theorem ofEnvelope_of_complete (herror : e.kind ≠ "error") (hcomplete : e.complete = some true) :
    ∃ text, ofEnvelope deltaTypes e = .complete e.turnId? text ∧
      ∀ t, text = some t ↔ e.content = .string t ∧ t ≠ "" := by
  refine ⟨_, by rw [ofEnvelope, if_neg herror, if_pos hcomplete], ?_⟩
  intro t
  rw [Option.filter_eq_some_iff, contentText?]
  cases e.content <;> simp [Json.string?]

theorem ofEnvelope_of_delta {text : String} (herror : e.kind ≠ "error")
    (hcomplete : e.complete ≠ some true) (hkind : e.kind ∈ deltaTypes)
    (htext : e.content = .string text) : ofEnvelope deltaTypes e = .delta e.turnId? text := by
  have hcontains : deltaTypes.contains e.kind = true := List.contains_iff_mem.2 hkind
  rw [ofEnvelope, if_neg herror, if_neg hcomplete, hcontains, contentText?, htext]
  rfl

theorem ofEnvelope_of_control (herror : e.kind ≠ "error") (hcomplete : e.complete ≠ some true)
    (h : e.kind ∉ deltaTypes ∨ ∀ text, e.content ≠ .string text) :
    ofEnvelope deltaTypes e = .control e := by
  rw [ofEnvelope, if_neg herror, if_neg hcomplete]
  split
  · next text hkind htext =>
    have hstring : e.content = .string text := by
      rw [contentText?] at htext
      cases hcontent : e.content with
      | string value =>
        rw [hcontent] at htext
        cases htext
        rfl
      | _ =>
        rw [hcontent] at htext
        cases htext
    rcases h with hnot | hnot
    · exact absurd (List.contains_iff_mem.1 hkind) hnot
    · exact absurd hstring (hnot text)
  · rfl

/-- A frame is decoded where it is an object whose fields are those of an envelope, and the message
is told by the values that stand under each name, whatever the order of the fields. An error comes
first, then the end of a turn, then text; everything else is handed on with all fields. -/
theorem decode_reads_fields (deltaTypes : List String) (frame : String) :
    (∀ object, Json.read frame = .ok (.object object) ↔
      ∃ fields, Json.readWith Json.fieldList frame = .ok fields ∧ object = Json.sortFields fields) ∧
    ((∃ m, decode deltaTypes frame = .ok m) ↔
      ∃ fields, Json.readWith Json.fieldList frame = .ok fields ∧ IsEnvelope fields) ∧
    (∀ fields, Json.readWith Json.fieldList frame = .ok fields → ∀ m,
      decode deltaTypes frame = .ok m → ∃ e : Envelope, e.Carries fields ∧
        (e.kind = "error" → m = .remoteError e) ∧
        (e.kind ≠ "error" → e.complete = some true → ∃ text, m = .complete e.turnId? text ∧
          ∀ t, text = some t ↔ e.content = .string t ∧ t ≠ "") ∧
        (e.kind ≠ "error" → e.complete ≠ some true →
          (∀ text, e.kind ∈ deltaTypes → e.content = .string text → m = .delta e.turnId? text) ∧
          ((e.kind ∉ deltaTypes ∨ ∀ text, e.content ≠ .string text) → m = .control e))) ∧
    (∀ fields, Json.readWith Json.fieldList frame = .ok fields → ∀ frame' fields',
      Json.readWith Json.fieldList frame' = .ok fields' →
        (Relation.EqvGen Rewrites fields fields' → SameValues fields fields') ∧
        (SameValues fields fields' →
          (decode deltaTypes frame).toOption = (decode deltaTypes frame').toOption)) := by
  refine ⟨fun object ↦ Json.read_eq_object_iff, ?_, ?_, ?_⟩
  · simp only [decode_eq_ok_iff, Envelope.read_eq_ok_iff, ofFields?_eq_some_iff]
    constructor
    · rintro ⟨m, e, ⟨fields, hfields, henvelope, -⟩, -⟩
      exact ⟨fields, hfields, henvelope⟩
    · rintro ⟨fields, hfields, henvelope⟩
      obtain ⟨d, hd, hkind⟩ := henvelope.exists_holds
      obtain ⟨kind, hkind⟩ := Option.isSome_iff_exists.1 hkind
      exact ⟨_, _, ⟨fields, hfields, henvelope, hd.carries hkind⟩, rfl⟩
  · intro fields hfields m hm
    obtain ⟨e, he, rfl⟩ := decode_eq_ok_iff.1 hm
    obtain ⟨other, hother, he⟩ := Envelope.read_eq_ok_iff.1 he
    obtain rfl : other = fields := by simpa using hother.symm.trans hfields
    refine ⟨e, (ofFields?_eq_some_iff.1 he).2, ?_, ofEnvelope_of_complete, ?_⟩
    · intro herror
      rw [ofEnvelope, if_pos herror]
    · intro herror hcomplete
      exact ⟨fun text ↦ ofEnvelope_of_delta herror hcomplete,
        ofEnvelope_of_control herror hcomplete⟩
  · intro fields hfields frame' fields' hfields'
    refine ⟨sameValues_of_rewrites, fun hsame ↦ ?_⟩
    rw [decode_toOption, decode_toOption, read_toOption hfields, read_toOption hfields',
      hsame.ofFields?_eq]

theorem decode_of_exchanged_fields : ∃ e : Envelope,
    e.Carries [("type", .string "delta"), ("content", .string "a")] ∧
    decode standardDeltaTypes "\x7b\"type\":\"delta\",\"content\":\"a\"\x7d" =
      .ok (.delta e.turnId? "a") ∧
    (decode standardDeltaTypes "\x7b\"type\":\"delta\",\"content\":\"a\"\x7d").toOption =
      (decode standardDeltaTypes "\x7b\"data\":\"a\",\"type\":\"delta\"\x7d").toOption := by
  obtain ⟨-, haccepts, hmeaning, horder⟩ := decode_reads_fields standardDeltaTypes
    "\x7b\"type\":\"delta\",\"content\":\"a\"\x7d"
  have hfields : Json.readWith Json.fieldList "\x7b\"type\":\"delta\",\"content\":\"a\"\x7d" =
      .ok [("type", .string "delta"), ("content", .string "a")] := by decide +kernel
  have hexchanged : Json.readWith Json.fieldList "\x7b\"data\":\"a\",\"type\":\"delta\"\x7d" =
      .ok [("data", .string "a"), ("type", .string "delta")] := by decide +kernel
  have hnone : ∀ name, name ≠ "type" → name ≠ "content" →
      valuesOf name [("type", .string "delta"), ("content", .string "a")] = [] := by
    intro name htype hcontent
    simp [valuesOf, fieldName, htype.symm, hcontent.symm]
  have henvelope : IsEnvelope [("type", .string "delta"), ("content", .string "a")] := by
    refine ⟨⟨"delta", by decide⟩, by decide, ?_, ?_, by decide⟩
    · rw [hnone _ (by decide) (by decide)]
      simp
    · rw [hnone _ (by decide) (by decide)]
      simp
  obtain ⟨m, hm⟩ := haccepts.2 ⟨_, hfields, henvelope⟩
  obtain ⟨e, he, -, -, htext⟩ := hmeaning _ hfields m hm
  obtain ⟨hsame, hequal⟩ := horder _ hfields _ _ hexchanged
  have hkind : "delta" = e.kind := by
    have := he.kind
    simpa [valuesOf, fieldName] using this
  have hcomplete : e.complete ≠ some true := by
    rw [he.complete, hnone _ (by decide) (by decide)]
    decide
  have hdelta := (htext (hkind ▸ by decide) hcomplete).1 "a" (hkind ▸ by decide) he.content
  refine ⟨e, he, hdelta ▸ hm, hequal (hsame ?_)⟩
  have hswap : Rewrites [("type", .string "delta"), ("content", .string "a")]
      [("content", .string "a"), ("type", .string "delta")] := .swap [] [] (by decide)
  have hrename : Rewrites [("data", .string "a"), ("type", .string "delta")]
      [("content", .string "a"), ("type", .string "delta")] := .rename [] _ _
  exact .trans _ _ _ (.rel _ _ hswap) (.symm _ _ (.rel _ _ hrename))

end Message
end AgentReply
