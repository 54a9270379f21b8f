import AgentReply.Number.Binary64

/-!
# JSON values

An object is the list of its fields, in the order in which they are written. The generic objects that
come out of reading a text have their fields in increasing order of the keys, each key once; objects
made for output keep the order in which they are built.
-/

namespace AgentReply

inductive Json.Number where
  | integer (value : Int)
  | binary (value : Binary64)
deriving DecidableEq, Repr

inductive Json where
  | null
  | bool (value : Bool)
  | number (value : Json.Number)
  | string (value : String)
  | array (items : List Json)
  | object (fields : List (String × Json))
deriving Inhabited, Repr

namespace Json

mutual

def decEq : (a b : Json) → Decidable (a = b)
  | .null, .null => .isTrue rfl
  | .bool x, .bool y => decidable_of_iff (x = y) (by simp)
  | .number x, .number y => decidable_of_iff (x = y) (by simp)
  | .string x, .string y => decidable_of_iff (x = y) (by simp)
  | .array xs, .array ys =>
    match decEqItems xs ys with
    | .isTrue h => .isTrue (by simp [h])
    | .isFalse h => .isFalse (by simp [h])
  | .object xs, .object ys =>
    match decEqFields xs ys with
    | .isTrue h => .isTrue (by simp [h])
    | .isFalse h => .isFalse (by simp [h])
  | .null, .bool _ | .null, .number _ | .null, .string _ | .null, .array _ | .null, .object _
  | .bool _, .null | .bool _, .number _ | .bool _, .string _ | .bool _, .array _
  | .bool _, .object _ | .number _, .null | .number _, .bool _ | .number _, .string _
  | .number _, .array _ | .number _, .object _ | .string _, .null | .string _, .bool _
  | .string _, .number _ | .string _, .array _ | .string _, .object _ | .array _, .null
  | .array _, .bool _ | .array _, .number _ | .array _, .string _ | .array _, .object _
  | .object _, .null | .object _, .bool _ | .object _, .number _ | .object _, .string _
  | .object _, .array _ => .isFalse (by simp)

def decEqItems : (xs ys : List Json) → Decidable (xs = ys)
  | [], [] => .isTrue rfl
  | [], _ :: _ => .isFalse (by simp)
  | _ :: _, [] => .isFalse (by simp)
  | x :: xs, y :: ys =>
    match decEq x y, decEqItems xs ys with
    | .isTrue h, .isTrue h' => .isTrue (by simp [h, h'])
    | .isFalse h, _ => .isFalse (by simp [h])
    | _, .isFalse h => .isFalse (by simp [h])

def decEqFields : (xs ys : List (String × Json)) → Decidable (xs = ys)
  | [], [] => .isTrue rfl
  | [], _ :: _ => .isFalse (by simp)
  | _ :: _, [] => .isFalse (by simp)
  | (k, x) :: xs, (l, y) :: ys =>
    match decEq x y, decEqFields xs ys with
    | .isTrue h, .isTrue h' => decidable_of_iff (k = l) (by simp [h, h'])
    | .isFalse h, _ => .isFalse (by simp [h])
    | _, .isFalse h => .isFalse (by simp [h])

end

instance : DecidableEq Json := decEq

/-- Puts a field at its place among fields in increasing order; it replaces a field of the same key. -/
def insertField (key : String) (value : Json) : List (String × Json) → List (String × Json)
  | [] => [(key, value)]
  | (k, x) :: rest =>
    if key < k then (key, value) :: (k, x) :: rest
    else if key = k then (key, value) :: rest
    else (k, x) :: insertField key value rest

/-- The fields in increasing order of the keys; of several with one key the last. -/
def sortFields (fields : List (String × Json)) : List (String × Json) :=
  fields.foldl (fun sorted (key, value) ↦ insertField key value sorted) []

def ofNat (n : Nat) : Json := .number (.integer n)

def ofOption (value : Option String) : Json := value.elim .null .string

/-- The value of the first field of a key; `none` if this is no object or has no such field. -/
def get? : Json → String → Option Json
  | .object fields, key => fields.lookup key
  | _, _ => none

def string? : Json → Option String
  | .string value => some value
  | _ => none

@[simp] theorem sortFields_nil : sortFields [] = [] := rfl

theorem lookup_insertField (key other : String) (value : Json) (fields : List (String × Json)) :
    (insertField key value fields).lookup other =
      if other = key then some value else fields.lookup other := by
  have hcons (k : String) (x : Json) (rest : List (String × Json)) :
      List.lookup other ((k, x) :: rest) = if other = k then some x else rest.lookup other := by
    by_cases h : other = k
    · simp [h]
    · rw [List.lookup_cons, beq_eq_false_iff_ne.2 h, if_neg h]
  induction fields with
  | nil => simp [insertField, hcons]
  | cons field rest ih =>
    obtain ⟨k, x⟩ := field
    simp only [insertField]
    split
    · simp only [hcons]
    · split
      · next heq => subst heq; simp only [hcons]; split <;> rfl
      · next heq =>
        simp only [hcons, ih]
        split <;> split <;> simp_all

end Json
end AgentReply
