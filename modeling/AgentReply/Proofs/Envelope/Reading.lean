import AgentReply.Envelope.Reader
import AgentReply.Proofs.Json.Fields

/-!
# Envelopes are read field by field

An envelope is read in one pass, each value by a reader of its own kind. All the same it is what comes
of the fields of the object when they are taken one after the other: the reader of a kind reads exactly
the values of that kind, for the first character of a value tells its kind. A field that means something
may be taken once.
-/

namespace AgentReply

namespace Json

def bool? : Json → Option Bool
  | .bool value => some value
  | _ => none

/-- Null is read as nothing. -/
def nullable? {α : Type} (decode : Json → Option α) (x : Json) : Option (Option α) :=
  if x = .null then some none else (decode x).map some

end Json

namespace Envelope

open Json (result past? onHead onHead_of_eq skipBlank)

variable {α : Type} {s : List Char}

/-- A reader of the values that can be decoded. -/
def Decodes (reader : Json.Reader α) (decode : Json → Option α) : Prop :=
  ∀ s, result (reader s) = (result (valueReader s)).bind fun y ↦
    (decode y.1).map fun a ↦ (a, y.2)

@[simp] theorem result_mismatch (expected : String) (s : List Char) :
    result (mismatch (α := α) expected s) = none := by
  unfold mismatch
  split
  · rfl
  · rfl
  · split <;> rfl

theorem result_valueReader (s : List Char) :
    result (valueReader s) = result (Json.value (125 + 1) s) := rfl

theorem decodes_valueReader : Decodes valueReader some := by
  intro s
  exact (Option.bind_fun_some _).symm

theorem decodes_stringReader : Decodes stringReader Json.string? := by
  intro s
  unfold stringReader
  split
  · next rest h =>
    rw [result_valueReader, Json.result_value_succ, onHead_of_eq h, if_neg (by decide),
      if_neg (by decide), Json.result_scalar, onHead_of_eq h, if_neg (by decide), if_neg (by decide),
      if_neg (by decide), if_neg (by decide), if_pos rfl, Option.bind_map]
    refine (Json.result_map (g := String.ofList) fun x last ↦ ⟨rfl, rfl⟩).trans ?_
    exact Option.map_eq_bind
  · next hquote =>
    rw [result_mismatch]
    symm
    rw [Option.bind_eq_none_iff]
    rintro ⟨x, rest⟩ hread
    obtain ⟨c, tail, hs, hbegins⟩ := Json.exists_begins_of_value (result_valueReader s ▸ hread)
    cases x with
    | string value => exact absurd (hbegins ▸ hs) (hquote tail)
    | _ => rfl

theorem result_boolReader (s : List Char) : result (boolReader s) =
    (result (Json.scalar s)).bind fun y ↦ (Json.bool? y.1).map fun value ↦ (value, y.2) := by
  unfold boolReader
  split
  · next value rest h => rw [h]; rfl
  · next h =>
    rw [result_mismatch]
    cases hscalar : Json.scalar s with
    | error fault => rfl
    | ok y =>
      obtain ⟨x, rest⟩ := y
      cases x with
      | bool value => exact absurd hscalar (h value rest)
      | _ => rfl

theorem decodes_boolReader : Decodes boolReader Json.bool? := by
  intro s
  rw [result_boolReader, result_valueReader, Json.result_value_succ]
  cases hs : skipBlank s with
  | nil => rw [Json.result_scalar, hs]; rfl
  | cons c tail =>
    rw [onHead]
    split
    · next hc =>
      subst hc
      rw [Json.result_scalar, onHead_of_eq hs, if_neg (by decide), if_neg (by decide),
        if_neg (by decide), if_neg (by decide), if_neg (by decide), if_neg (by decide), Option.bind_map]
      cases result (Json.items _ tail) <;> rfl
    · split
      · next hc =>
        subst hc
        rw [Json.result_scalar, onHead_of_eq hs, if_neg (by decide), if_neg (by decide),
          if_neg (by decide), if_neg (by decide), if_neg (by decide), if_neg (by decide),
          Option.bind_map]
        cases result (Json.members _ _ tail) <;> rfl
      · rfl

theorem Decodes.nullable {reader : Json.Reader α} {decode : Json → Option α}
    (h : Decodes reader decode) : Decodes (nullable reader) (Json.nullable? decode) := by
  intro s
  unfold Envelope.nullable
  split
  · next rest hn =>
    rw [result_valueReader, Json.result_value_succ, onHead_of_eq hn, if_neg (by decide),
      if_neg (by decide), Json.result_scalar, onHead_of_eq hn, if_pos rfl, Option.bind_map]
    refine (Json.result_map_word _ _ (Json.pastBlank hn).andTail fun t ↦ rfl).trans ?_
    exact Option.map_eq_bind
  · next hn =>
    refine (Json.result_map (g := some) fun x rest ↦ ⟨rfl, rfl⟩).trans ?_
    rw [h, Option.map_bind]
    cases hread : result (valueReader s) with
    | none => rfl
    | some y =>
      have hne : y.1 ≠ .null := by
        intro hnull
        obtain ⟨c, tail, hs, hbegins⟩ := Json.exists_begins_of_value (result_valueReader s ▸ hread)
        rw [hnull] at hbegins
        exact hn tail (hbegins ▸ hs)
      rw [Option.bind_some, Option.bind_some, Function.comp_apply, Json.nullable?, if_neg hne,
        Option.map_map, Option.map_map]
      rfl

/-! ### Fields that are taken -/

/-- The value of a field that has not been there before. -/
def once (soFar : Option α) (decode : Json → Option α) (x : Json) : Option α :=
  if soFar.isSome then none else decode x

def Draft.add? (d : Draft) (key : String) (x : Json) : Option Draft :=
  match key with
  | "type" => (once d.kind Json.string? x).map fun kind ↦ { d with kind := some kind }
  | "content" | "data" => (once d.content some x).map fun content ↦ { d with content := some content }
  | "action" =>
    (once d.action (Json.nullable? Json.string?) x).map fun action ↦ { d with action := some action }
  | "complete" =>
    (once d.complete (Json.nullable? Json.bool?) x).map fun complete ↦
      { d with complete := some complete }
  | "id" => (once d.id (Json.nullable? some) x).map fun id ↦ { d with id := some id }
  | _ => some { d with extra := Json.insertField key x d.extra }

theorem result_fresh {reader : Json.Reader α} {decode : Json → Option α} (h : Decodes reader decode)
    (name : String) (soFar : Option α) (store : α → Draft) (s : List Char) :
    result (fresh name soFar reader store s) = (past? ':' s).bind fun rest ↦
      (result (valueReader rest)).bind fun y ↦
        ((once soFar decode y.1).map store).map fun d ↦ (d, y.2) := by
  cases soFar with
  | some x =>
    have hnone : ∀ y, once (some x) decode y = none := fun y ↦ rfl
    have hduplicate : result (fresh name (some x) reader store s) = none := rfl
    simp [hnone, hduplicate]
  | none =>
    have hfresh : fresh name none reader store s = (do
        let next ← Json.colon s
        let y ← reader next.1
        .ok (store y.1, next.andRest y.2)) := rfl
    have honce : ∀ y, once none decode y = decode y := fun y ↦ rfl
    rw [hfresh, ← Json.map_colon]
    cases Json.colon s with
    | error fault => rfl
    | ok next =>
      have hvalue : ∀ rest : Text.Rest s, (Except.ok rest : Except Json.Fault _).toOption.map
          Subtype.val = some rest.1 := fun rest ↦ rfl
      refine (Json.result_bind_ok (g := store) fun x last ↦ rfl).trans ?_
      rw [h, hvalue, Option.bind_some, Option.map_bind]
      refine congrArg (Option.bind _) (funext fun y ↦ ?_)
      rw [Function.comp_apply, Option.map_map, Option.map_map, honce]
      rfl

theorem steps_member : Json.Steps valueReader Draft.add? member := by
  intro d key s
  unfold member
  split
  · exact result_fresh decodes_stringReader ..
  · exact result_fresh decodes_valueReader ..
  · exact result_fresh decodes_valueReader ..
  · exact result_fresh decodes_stringReader.nullable ..
  · exact result_fresh decodes_boolReader.nullable ..
  · exact result_fresh decodes_valueReader.nullable ..
  · next htype hcontent hdata haction hcomplete hid =>
    have hother : ∀ x, d.add? key x = some { d with extra := Json.insertField key x d.extra } := by
      intro x
      unfold Draft.add?
      split <;> first | rfl | contradiction
    simp only [hother]
    exact result_fresh decodes_valueReader ..

/-- The envelope that some fields make, taken from left to right. -/
def ofFields? (fields : List (String × Json)) : Option Envelope :=
  (Json.foldFields Draft.add? {} fields).bind fun d ↦ d.kind.map d.toEnvelope

theorem result_reader (s : List Char) : result (reader s) =
    (result (Json.fieldList s)).bind fun y ↦ (ofFields? y.1).map fun e ↦ (e, y.2) := by
  rw [Json.result_fieldList]
  unfold reader
  split
  · next rest h =>
    have hfields : ((result (Json.members (Json.collect valueReader) [] rest)).bind fun y ↦
          (ofFields? y.1).map fun e ↦ (e, y.2)) =
        (result (Json.members member {} rest)).bind fun y ↦
          (y.1.kind.map y.1.toEnvelope).map fun e ↦ (e, y.2) := by
      rw [steps_member.result_members_eq, Option.bind_assoc]
      refine congrArg (Option.bind _) (funext fun y ↦ ?_)
      rw [Option.bind_map, ofFields?, Option.map_bind]
      rfl
    rw [Json.past?_of_skipBlank h, Option.bind_some]
    refine Eq.trans ?_ hfields.symm
    cases Json.members member {} rest with
    | error fault => rfl
    | ok y =>
      obtain ⟨d, last⟩ := y
      cases hd : d.kind with
      | none => simp [hd]
      | some kind =>
        simp only [hd, Json.result_ok, Option.bind_some, Option.map_some]
        rfl
  · next hbrace =>
    rw [Json.past?_eq_none hbrace, result_mismatch]
    rfl

theorem read_eq_ok_iff {frame : String} {e : Envelope} :
    read frame = .ok e ↔
      ∃ fields, Json.readWith Json.fieldList frame = .ok fields ∧ ofFields? fields = some e := by
  simp only [read, Json.readWith_eq_ok_iff, result_reader, Option.bind_eq_some_iff,
    Option.map_eq_some_iff]
  constructor
  · rintro ⟨rest, ⟨y, hy, e', he, heq⟩, hrest⟩
    cases heq
    exact ⟨y.1, ⟨y.2, hy, hrest⟩, he⟩
  · rintro ⟨fields, ⟨rest, hfields, hrest⟩, he⟩
    exact ⟨rest, ⟨_, hfields, e, he, rfl⟩, hrest⟩

end Envelope
end AgentReply
