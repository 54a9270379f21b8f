import AgentReply.Json.Reader

/-!
# Arguments of tool calls

Arguments are written as one JSON object or as pairs `<key>value</key>`. A value that is JSON keeps its
type; any other value is a string.
-/

namespace AgentReply.Arguments

def isKeyChar (c : Char) : Bool :=
  c.isAlphanum || c == '_' || c == '-' || c == '.'

/-- Splits a text at the first place where `mark` stands. -/
def splitAt? (mark : List Char) : List Char → Option (List Char × List Char)
  | [] => if mark.isEmpty then some ([], []) else none
  | c :: s =>
    if mark.isPrefixOf (c :: s) then some ([], (c :: s).drop mark.length)
    else (splitAt? mark s).map fun (before, after) ↦ (c :: before, after)

theorem length_of_splitAt? {mark s before after : List Char}
    (h : splitAt? mark s = some (before, after)) : after.length ≤ s.length := by
  induction s generalizing before with
  | nil =>
    simp only [splitAt?] at h
    split at h <;> simp_all
  | cons c s ih =>
    simp only [splitAt?] at h
    split at h
    · simp only [Option.some.injEq, Prod.mk.injEq] at h
      simp [← h.2]
    · obtain ⟨⟨b, a⟩, hs, hb⟩ := Option.map_eq_some_iff.1 h
      simp only [Prod.mk.injEq] at hb
      have := ih (hb.2 ▸ hs)
      simp only [List.length_cons]
      omega

def value (text : List Char) : Json :=
  let trimmed := String.ofList (Text.trim text)
  match Json.read trimmed with
  | .ok value => value
  | .error _ => .string trimmed

/-- The pairs of a text in their order. An opening tag that is no key is passed over; one that is never
closed ends the list. -/
def pairs (s : List Char) : List (String × Json) :=
  match hs : s.dropWhile (· != '<') with
  | [] => []
  | _ :: afterOpen =>
    have h₁ : afterOpen.length < s.length := by
      have := (List.dropWhile_sublist (l := s) (· != '<')).length_le
      rw [hs] at this
      exact this
    match hb : afterOpen.dropWhile (· != '>') with
    | [] => []
    | _ :: body =>
      have h₂ : body.length < afterOpen.length := by
        have := (List.dropWhile_sublist (l := afterOpen) (· != '>')).length_le
        rw [hb] at this
        exact this
      let key := Text.trim (afterOpen.takeWhile (· != '>'))
      if key.isEmpty || !key.all isKeyChar then pairs afterOpen
      else
        match hc : splitAt? ('<' :: '/' :: key ++ ['>']) body with
        | none => []
        | some (text, rest) =>
          have h₃ := length_of_splitAt? hc
          (String.ofList key, value text) :: pairs rest
termination_by s.length

/-- The fields of a payload in increasing order of the keys; of pairs with one key the last counts. -/
def parse (raw : String) : List (String × Json) :=
  let payload := Text.trim raw.toList
  match payload.head?, Json.read (String.ofList payload) with
  | some '\x7b', .ok (.object fields) => fields
  | _, _ => Json.sortFields (pairs payload)

end AgentReply.Arguments
