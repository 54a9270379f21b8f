/-!
# Nodes

One occurrence of a tag: a leaf with text or a branch with child nodes. A node is complete once its
closing tag has been seen.
-/

namespace AgentReply

inductive Node where
  | leaf (name text : String) (complete : Bool)
  | branch (name : String) (children : List Node) (complete : Bool)
deriving Inhabited, Repr

namespace Node

mutual

def decEq : (a b : Node) → Decidable (a = b)
  | .leaf n s c, .leaf n' s' c' =>
    decidable_of_iff (n = n' ∧ s = s' ∧ c = c') (by simp)
  | .branch n xs c, .branch n' ys c' =>
    match decEqList xs ys with
    | .isTrue h => decidable_of_iff (n = n' ∧ c = c') (by simp [h])
    | .isFalse h => .isFalse (by simp [h])
  | .leaf .., .branch .. => .isFalse (by simp)
  | .branch .., .leaf .. => .isFalse (by simp)

def decEqList : (xs ys : List Node) → Decidable (xs = ys)
  | [], [] => .isTrue rfl
  | [], _ :: _ => .isFalse (by simp)
  | _ :: _, [] => .isFalse (by simp)
  | x :: xs, y :: ys =>
    match decEq x y, decEqList xs ys with
    | .isTrue h, .isTrue h' => .isTrue (by simp [h, h'])
    | .isFalse h, _ => .isFalse (by simp [h])
    | _, .isFalse h => .isFalse (by simp [h])

end

instance : DecidableEq Node := decEq

def name : Node → String
  | .leaf name .. => name
  | .branch name .. => name

def complete : Node → Bool
  | .leaf _ _ complete => complete
  | .branch _ _ complete => complete

/-- The same node, still waiting for its closing tag. -/
def unfinished : Node → Node
  | .leaf name text _ => .leaf name text false
  | .branch name children _ => .branch name children false

def isLeaf : Node → Bool
  | .leaf .. => true
  | .branch .. => false

def text? : Node → Option String
  | .leaf _ text _ => some text
  | .branch .. => none

/-- The child nodes; a leaf has none. -/
def children : Node → List Node
  | .leaf .. => []
  | .branch _ children _ => children

def child? (n : Node) (name : String) : Option Node :=
  n.children.find? fun c ↦ c.name == name

/-- The text of the first child of a name, if that child is a leaf. -/
def childText? (n : Node) (name : String) : Option String :=
  (n.child? name).bind text?

@[simp] theorem name_leaf (name text : String) (c : Bool) : (leaf name text c).name = name := rfl

@[simp] theorem name_branch (name : String) (children : List Node) (c : Bool) :
    (branch name children c).name = name := rfl

@[simp] theorem complete_leaf (name text : String) (c : Bool) :
    (leaf name text c).complete = c := rfl

@[simp] theorem complete_branch (name : String) (children : List Node) (c : Bool) :
    (branch name children c).complete = c := rfl

@[simp] theorem children_leaf (name text : String) (c : Bool) :
    (leaf name text c).children = [] := rfl

@[simp] theorem children_branch (name : String) (children : List Node) (c : Bool) :
    (branch name children c).children = children := rfl

end Node
end AgentReply
