import AgentReply.Markup.Node

/-!
# Induction on nodes
-/

namespace AgentReply.Node

/-- Induction on a node, with the statement for all its children. -/
@[elab_as_elim]
theorem induction {motive : Node → Prop}
    (leaf : ∀ name text complete, motive (.leaf name text complete))
    (branch : ∀ name children complete, (∀ n ∈ children, motive n) →
      motive (.branch name children complete)) : ∀ n, motive n
  | .leaf name text complete => leaf name text complete
  | .branch name children complete =>
    branch name children complete fun n _ ↦ induction leaf branch n
termination_by n => sizeOf n
decreasing_by
  have hlt := List.sizeOf_lt_of_mem ‹n ∈ children›
  rw [Node.branch.sizeOf_spec]
  omega

end AgentReply.Node
