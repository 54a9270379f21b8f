import AgentReply.Proofs.Envelope.Messages
import AgentReply.Proofs.Json.RoundTrip

/-!
# Envelopes that are handed on

A session hands on what it does not understand, and whoever gets it may write it out and read it again.
The fields of a written envelope are not those of its frame: the content has its own name, what was null
is left out, and of the extra fields each key stands once. All the same they are the fields of that
envelope and of no other.
-/

namespace AgentReply

namespace Envelope

variable {frame name : String} {fields : List (String × Json)} {x : Json} {e : Envelope}

/-- What every envelope that has been read keeps to. -/
structure IsRead (e : Envelope) : Prop where
  isSorted : Json.IsSorted e.extra
  /-- No extra field has a name that means something, nor the other name of the content. -/
  extra : ∀ field ∈ e.extra, field.1 ∉ "data" :: namesWithMeaning
  id : e.id ≠ some .null

theorem valuesOf_data (fields : List (String × Json)) : valuesOf "data" fields = [] := by
  rw [valuesOf, List.map_eq_nil_iff, List.filter_eq_nil_iff]
  rintro ⟨key, x⟩ -
  unfold fieldName
  split <;> simp_all

theorem Carries.isRead (h : e.Carries fields) : e.IsRead where
  isSorted := h.isSorted
  extra := by
    rintro ⟨key, x⟩ hmem hname
    have hlookup : e.extra.lookup key = some x := h.isSorted.mem_iff_lookup.1 hmem
    rw [h.extra] at hlookup
    split at hlookup
    · cases hlookup
    · next hkey =>
      obtain rfl : key = "data" := (List.mem_cons.1 hname).resolve_right hkey
      rw [valuesOf_data] at hlookup
      cases hlookup
  id := by
    rw [h.id]
    intro hid
    simpa using (Option.filter_eq_some_iff.1 hid).2

theorem isRead_of_read (h : read frame = .ok e) : e.IsRead := by
  obtain ⟨fields, -, he⟩ := read_eq_ok_iff.1 h
  exact (ofFields?_eq_some_iff.1 he).2.isRead

/-- The fields with a name that means something, as an envelope is written. -/
def named (e : Envelope) : List (String × Json) :=
  [("type", .string e.kind), ("content", e.content)] ++
    (e.action.map fun action ↦ ("action", .string action)).toList ++
    (e.complete.map fun complete ↦ ("complete", .bool complete)).toList ++
    (e.id.map fun id ↦ ("id", id)).toList

theorem toJson_eq (e : Envelope) : e.toJson = .object (e.named ++ e.extra) := rfl

theorem named_keys (e : Envelope) : (e.named.map Prod.fst).Sublist namesWithMeaning := by
  unfold named
  cases e.action <;> cases e.complete <;> cases e.id <;> simp <;> decide

theorem IsRead.nodup_keys (h : e.IsRead) : ((e.named ++ e.extra).map Prod.fst).Nodup := by
  rw [List.map_append, List.nodup_append]
  refine ⟨e.named_keys.nodup (by decide), h.isSorted.nodup_keys, ?_⟩
  rintro key hkey other hother rfl
  obtain ⟨field, hfield, rfl⟩ := List.mem_map.1 hother
  exact h.extra field hfield (List.mem_cons_of_mem _ (e.named_keys.subset hkey))

/-! ### The fields of a written envelope -/

theorem valuesOf_append (name : String) (fields fields' : List (String × Json)) :
    valuesOf name (fields ++ fields') = valuesOf name fields ++ valuesOf name fields' := by
  simp [valuesOf]

theorem fieldName_of_mem (hname : name ∈ namesWithMeaning) : fieldName name = name := by
  have hall : ∀ name ∈ namesWithMeaning, fieldName name = name := by decide
  exact hall name hname

theorem IsRead.fieldName_extra (h : e.IsRead) {field : String × Json} (hfield : field ∈ e.extra) :
    fieldName field.1 ∉ namesWithMeaning := by
  have hextra := h.extra field hfield
  rw [List.mem_cons, not_or] at hextra
  rw [fieldName, if_neg hextra.1]
  exact hextra.2

theorem IsRead.valuesOf_extra (h : e.IsRead) (hname : name ∈ namesWithMeaning) :
    valuesOf name e.extra = [] := by
  rw [valuesOf, List.map_eq_nil_iff, List.filter_eq_nil_iff]
  intro field hfield heq
  exact h.fieldName_extra hfield (beq_iff_eq.1 heq ▸ hname)

theorem IsRead.lookup_extra (h : e.IsRead) (key : String) : e.extra.lookup key =
    if key ∈ namesWithMeaning then none else (valuesOf key e.extra).getLast? := by
  have hall : (e.extra.filter fun field ↦ fieldName field.1 ∉ namesWithMeaning) = e.extra :=
    List.filter_eq_self.2 fun field hfield ↦ decide_eq_true (h.fieldName_extra hfield)
  have hlookup := Envelope.lookup_extra key e.extra
  rwa [hall, h.isSorted.sortFields_eq] at hlookup

theorem valuesOf_named (e : Envelope) :
    valuesOf "type" e.named = [.string e.kind] ∧ valuesOf "content" e.named = [e.content] ∧
    valuesOf "action" e.named = (e.action.map Json.string).toList ∧
    valuesOf "complete" e.named = (e.complete.map Json.bool).toList ∧
    valuesOf "id" e.named = e.id.toList := by
  unfold named
  cases e.action <;> cases e.complete <;> cases e.id <;> simp [valuesOf, fieldName]

theorem valuesOf_named_of_not_mem (hname : name ∉ namesWithMeaning) : valuesOf name e.named = [] := by
  rw [valuesOf, List.map_eq_nil_iff, List.filter_eq_nil_iff]
  intro field hfield heq
  have hmem : field.1 ∈ namesWithMeaning := e.named_keys.subset (List.mem_map_of_mem hfield)
  rw [fieldName_of_mem hmem, beq_iff_eq] at heq
  exact hname (heq ▸ hmem)

theorem IsRead.valuesOf_written (h : e.IsRead) :
    valuesOf "type" (e.named ++ e.extra) = [.string e.kind] ∧
    valuesOf "content" (e.named ++ e.extra) = [e.content] ∧
    valuesOf "action" (e.named ++ e.extra) = (e.action.map Json.string).toList ∧
    valuesOf "complete" (e.named ++ e.extra) = (e.complete.map Json.bool).toList ∧
    valuesOf "id" (e.named ++ e.extra) = e.id.toList := by
  have hnamed : ∀ name ∈ namesWithMeaning,
      valuesOf name (e.named ++ e.extra) = valuesOf name e.named := by
    intro name hname
    rw [valuesOf_append, h.valuesOf_extra hname, List.append_nil]
  rw [hnamed _ (by decide), hnamed _ (by decide), hnamed _ (by decide), hnamed _ (by decide),
    hnamed _ (by decide)]
  exact e.valuesOf_named

theorem IsRead.isEnvelope (h : e.IsRead) : IsEnvelope (e.named ++ e.extra) := by
  obtain ⟨hkind, hcontent, haction, hcomplete, hid⟩ := h.valuesOf_written
  refine ⟨⟨e.kind, hkind⟩, ?_, ?_, ?_, ?_⟩
  · simp [hcontent]
  · rw [haction]
    cases e.action <;> simp
  · rw [hcomplete]
    cases e.complete <;> simp
  · rw [hid]
    cases e.id <;> simp

theorem IsRead.carries (h : e.IsRead) : e.Carries (e.named ++ e.extra) := by
  obtain ⟨hkind, hcontent, haction, hcomplete, hid⟩ := h.valuesOf_written
  refine ⟨hkind, ?_, ?_, ?_, ?_, h.isSorted, ?_⟩
  · simp [hcontent]
  · rw [haction]
    cases e.action <;> rfl
  · rw [hcomplete]
    cases e.complete <;> rfl
  · rw [hid]
    cases hsome : e.id with
    | none => rfl
    | some x =>
      have hx : x ≠ .null := fun heq ↦ h.id (heq ▸ hsome)
      simp [Option.filter, hx]
  · intro key
    rw [h.lookup_extra key]
    split
    · rfl
    · next hkey => rw [valuesOf_append, valuesOf_named_of_not_mem hkey, List.nil_append]

/-- An envelope is told by the fields that it is written with. -/
theorem IsRead.ofFields?_written (h : e.IsRead) : ofFields? (e.named ++ e.extra) = some e :=
  ofFields?_eq_some_iff.2 ⟨h.isEnvelope, h.carries⟩

/-! ### Reading again -/

theorem mem_of_mem_valuesOf (h : x ∈ valuesOf name fields) : ∃ field ∈ fields, field.2 = x := by
  obtain ⟨field, hfield, rfl⟩ := List.mem_map.1 h
  exact ⟨field, List.mem_of_mem_filter hfield, rfl⟩

/-- An envelope is written with values of its frame, and with texts, truth values and null. -/
theorem Carries.forall_written (h : e.Carries fields) {P : Json → Prop} (hnull : P .null)
    (hstring : ∀ value, P (.string value)) (hbool : ∀ value, P (.bool value))
    (hfields : ∀ field ∈ fields, P field.2) : ∀ field ∈ e.named ++ e.extra, P field.2 := by
  have hvalues : ∀ name, ∀ x ∈ valuesOf name fields, P x := by
    intro name x hx
    obtain ⟨field, hfield, rfl⟩ := mem_of_mem_valuesOf hx
    exact hfields field hfield
  have hcontent : P e.content := by
    rw [h.content]
    cases hhead : (valuesOf "content" fields).head? with
    | none => exact hnull
    | some x => exact hvalues "content" x (List.mem_of_mem_head? hhead)
  have hid : ∀ id, e.id = some id → P id := by
    intro id heq
    rw [h.id, Option.filter_eq_some_iff] at heq
    exact hvalues "id" id (List.mem_of_mem_head? heq.1)
  intro field hmem
  rcases List.mem_append.1 hmem with hnamed | hextra
  · simp only [named, List.mem_append, List.mem_cons, List.not_mem_nil, or_false, Option.mem_toList,
      Option.map_eq_some_iff] at hnamed
    obtain (((rfl | rfl) | ⟨action, -, rfl⟩) | ⟨complete, -, rfl⟩) | ⟨id, heq, rfl⟩ := hnamed
    · exact hstring e.kind
    · exact hcontent
    · exact hstring action
    · exact hbool complete
    · exact hid id heq
  · have hlookup : e.extra.lookup field.1 = some field.2 := h.isSorted.mem_iff_lookup.1 hextra
    rw [h.extra] at hlookup
    split at hlookup
    · cases hlookup
    · exact hvalues field.1 field.2 (List.mem_of_getLast? hlookup)

theorem read_compact (he : read frame = .ok e) (hfloats : e.toJson.FloatsReadBack) :
    read e.toJson.compact = .ok e := by
  obtain ⟨fields, hfields, hcarries⟩ := read_eq_ok_iff.1 he
  have hcarries : e.Carries fields := (ofFields?_eq_some_iff.1 hcarries).2
  have hfits := hcarries.forall_written .null .string .bool (Json.fits_of_fieldList hfields)
  exact read_eq_ok_iff.2 ⟨_, Json.fieldList_compact hfits hfloats, hcarries.isRead.ofFields?_written⟩

end Envelope

namespace Message

open Envelope

variable {deltaTypes : List String} {frame : String} {e : Envelope}

theorem eq_of_ofEnvelope {e' : Envelope}
    (h : ofEnvelope deltaTypes e = .remoteError e' ∨ ofEnvelope deltaTypes e = .control e') : e = e' := by
  unfold ofEnvelope at h
  grind

/-- An envelope that has been read is written as an object in which no key stands twice, and from that
text it is read again, whatever the frame: with the other name of the content, with nulls or with extra
fields that are repeated. So an error or a message of no known kind is decoded as it was. Floating point
numbers are assumed to be read back from their texts. -/
theorem decode_forwarded (he : Envelope.read frame = .ok e) (hfloats : e.toJson.FloatsReadBack) :
    (∃ fields, e.toJson = .object fields ∧ (fields.map Prod.fst).Nodup) ∧
    Envelope.read e.toJson.compact = .ok e ∧
    ∀ deltaTypes m e', decode deltaTypes frame = .ok m → m = .remoteError e' ∨ m = .control e' →
      decode deltaTypes e'.toJson.compact = .ok m := by
  have hread := Envelope.read_compact he hfloats
  refine ⟨⟨_, e.toJson_eq, (isRead_of_read he).nodup_keys⟩, hread, ?_⟩
  intro deltaTypes m e' hm hcarried
  obtain ⟨e'', he'', rfl⟩ := decode_eq_ok_iff.1 hm
  obtain rfl : e'' = e := by simpa using he''.symm.trans he
  obtain rfl := eq_of_ofEnvelope hcarried
  exact decode_eq_ok_iff.2 ⟨_, hread, rfl⟩

/-- In the frame the content has its other name, two fields are null and a key is repeated. -/
theorem decode_forwarded_error : ∃ e : Envelope,
    Envelope.read "\x7b\"data\":[0.0,-3],\"id\":null,\"x\":0,\"type\":\"error\",\"complete\":null,\"x\":\"\\n\"\x7d" =
      .ok e ∧
    e.toJson.FloatsReadBack ∧
    e.toJson.compact = "\x7b\"type\":\"error\",\"content\":[0.0,-3],\"x\":\"\\n\"\x7d" ∧
    decode standardDeltaTypes "\x7b\"type\":\"error\",\"content\":[0.0,-3],\"x\":\"\\n\"\x7d" =
      .ok (.remoteError e) := by
  let frame :=
    "\x7b\"data\":[0.0,-3],\"id\":null,\"x\":0,\"type\":\"error\",\"complete\":null,\"x\":\"\\n\"\x7d"
  let e : Envelope :=
    ⟨"error", .array [.number (.binary (.zero false)), .number (.integer (-3))], none, none, none,
      [("x", .string "\n")]⟩
  have he : Envelope.read frame = .ok e := by decide +kernel
  have hfloats : e.toJson.FloatsReadBack := by
    unfold Json.FloatsReadBack
    decide +kernel
  have htext : e.toJson.compact = "\x7b\"type\":\"error\",\"content\":[0.0,-3],\"x\":\"\\n\"\x7d" := by
    decide +kernel
  have hm : decode standardDeltaTypes frame = .ok (.remoteError e) := decode_eq_ok_iff.2 ⟨e, he, rfl⟩
  have hagain := (decode_forwarded he hfloats).2.2 _ _ e hm (.inl rfl)
  exact ⟨e, he, hfloats, htext, htext ▸ hagain⟩

end Message
end AgentReply
