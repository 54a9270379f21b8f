import AgentReply.Json.Basic
import AgentReply.Markup.Node

/-!
# Nodes as JSON

A leaf becomes its text, a branch an object with a field for each name among its children, in the order
in which the names first appear. Children that share a name become a list, in their own order.
-/

namespace AgentReply

/-- The fields of a list of named values. -/
def Json.groupFields (fields : List (String × Json)) : List (String × Json) :=
  (fields.map Prod.fst).eraseDups.map fun name ↦
    (name, match fields.filterMap fun (n, x) ↦ if n == name then some x else none with
      | [x] => x
      | xs => .array xs)

namespace Node

mutual

def toJson : Node → Json
  | .leaf _ text _ => .string text
  | .branch _ children _ => .object (Json.groupFields (namedJson children))

def namedJson : List Node → List (String × Json)
  | [] => []
  | n :: rest => (n.name, n.toJson) :: namedJson rest

end

theorem namedJson_eq_map (nodes : List Node) :
    namedJson nodes = nodes.map fun n ↦ (n.name, n.toJson) := by
  induction nodes with
  | nil => rfl
  | cons n rest ih => simp [namedJson, ih]

@[simp] theorem toJson_leaf (name text : String) (c : Bool) :
    (leaf name text c).toJson = .string text := by
  simp [toJson]

end Node
end AgentReply
