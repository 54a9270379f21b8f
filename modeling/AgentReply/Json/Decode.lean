import AgentReply.Json.Error

/-!
# Typed data out of JSON values

Decoders for the values of records. Those of an object are decoded in increasing order of the keys, so
the first error in that order is the one reported; those of a list go by position.
-/

namespace AgentReply.Json

def expectString : Json → Except DataError String
  | .string value => .ok value
  | other => .error (.wrongType other.found "a string")

def expectOptional {α : Type} (decode : Json → Except DataError α) :
    Json → Except DataError (Option α)
  | .null => .ok none
  | other => (decode other).map some

/-- A natural number below `2^bits`. -/
def expectNat (bits : Nat) : Json → Except DataError Nat
  | .number (.integer value) =>
    if 0 ≤ value && value < Nat.pow 2 bits then .ok value.toNat
    else .error (.wrongValue (.number (.integer value)) s!"u{bits}")
  | other => .error (.wrongType other.found s!"u{bits}")

def listVariants (names : List String) : String :=
  match names.map fun name ↦ s!"`{name}`" with
  | [one] => one
  | [one, two] => s!"{one} or {two}"
  | names => "one of " ++ ", ".intercalate names

/-- One of some named variants: its name, or an object with null under its name. -/
def expectVariant {α : Type} (ofName? : String → Option α) (names : List String)
    (value : Json) : Except DataError α :=
  let named (name : String) : Except DataError α :=
    match ofName? name with
    | some variant => .ok variant
    | none => .error (.unknownVariant name (listVariants names))
  match value with
  | .string name => named name
  | .object [(name, payload)] => do
    let variant ← named name
    match payload with
    | .null => .ok variant
    | other => .error (.wrongType other.found "unit")
  | .object _ => .error (.wrongValue .map "map with a single key")
  | other => .error (.wrongType other.found "string or map")

end AgentReply.Json
