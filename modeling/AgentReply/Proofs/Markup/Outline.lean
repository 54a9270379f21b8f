import AgentReply.Proofs.Markup.Reading

/-!
# Outlines and the documents they end in

Text is pending only while no tag is open. So an outline without open tags ends in its nodes and
loose runs, the pending run among them, and one with open tags ends in its nodes, its loose runs and
one more node that holds all open tags.
-/

namespace AgentReply

namespace OpenTag

variable {v : Vocabulary}

@[simp] theorem name_toNode (v : Vocabulary) (t : OpenTag) (payload : List Char) (c : Bool) :
    (t.toNode v payload c).name = t.name := by
  unfold toNode
  split <;> rfl

@[simp] theorem complete_toNode (v : Vocabulary) (t : OpenTag) (payload : List Char) (c : Bool) :
    (t.toNode v payload c).complete = c := by
  unfold toNode
  split <;> rfl

@[simp] theorem toNode_addChild (v : Vocabulary) (t : OpenTag) (n : Node) (payload : List Char)
    (c : Bool) :
    (t.addChild n).toNode v payload c = .branch t.name (t.children ++ [n]) c := by
  cases h : t.children <;> simp [toNode, addChild, h]

@[simp] theorem closed_addChild (v : Vocabulary) (t : OpenTag) (n : Node) (c : Bool) :
    (t.addChild n).closed v c = .branch t.name (t.children ++ [n]) c :=
  toNode_addChild ..

@[simp] theorem unfinished_addChild (v : Vocabulary) (t : OpenTag) (n : Node) :
    (t.addChild n).unfinished v = .branch t.name (t.children ++ [n]) false :=
  toNode_addChild ..

@[simp] theorem complete_unfinished (v : Vocabulary) (t : OpenTag) :
    (t.unfinished v).complete = false :=
  complete_toNode ..

@[simp] theorem closeNamed?_nil (v : Vocabulary) (name : String) (inner : Option Node) :
    closeNamed? v name inner [] = none := rfl

theorem closeNamed?_none_cons (v : Vocabulary) (name : String) (top : OpenTag)
    (outer : List OpenTag) :
    closeNamed? v name none (top :: outer) =
      if top.name = name then some (top.closed v true, outer)
      else closeNamed? v name (some (top.closed v false)) outer := rfl

theorem closeNamed?_some_cons (v : Vocabulary) (name : String) (n : Node) (top : OpenTag)
    (outer : List OpenTag) :
    closeNamed? v name (some n) (top :: outer) =
      if top.name = name then some ((top.addChild n).closed v true, outer)
      else closeNamed? v name (some ((top.addChild n).closed v false)) outer := rfl

/-- A closing tag is a stray one exactly when no open tag has its name. -/
theorem closeNamed?_eq_none_iff {name : String} {inner : Option Node} {stack : List OpenTag} :
    closeNamed? v name inner stack = none ↔ ∀ t ∈ stack, t.name ≠ name := by
  induction stack generalizing inner with
  | nil => simp
  | cons top outer ih =>
    cases inner with
    | none =>
      rw [closeNamed?_none_cons]
      split
      · next h => simp [h]
      · next h => simp [ih, h]
    | some n =>
      rw [closeNamed?_some_cons]
      split
      · next h => simp [h]
      · next h => simp [ih, h]

theorem closeNamed?_eq_none_iff_notMem {name : String} {inner : Option Node}
    {stack : List OpenTag} :
    closeNamed? v name inner stack = none ↔ name ∉ stack.map OpenTag.name := by
  simp [closeNamed?_eq_none_iff]

theorem suffix_of_closeNamed? {name : String} {inner : Option Node} {node : Node}
    {stack outer : List OpenTag} (h : closeNamed? v name inner stack = some (node, outer)) :
    outer <:+ stack.tail := by
  induction stack generalizing inner with
  | nil => cases h
  | cons top rest ih =>
    rw [closeNamed?] at h
    split at h
    · cases h
      exact List.suffix_refl _
    · exact (ih h).trans (List.tail_suffix rest)

@[simp] theorem settle_nil (v : Vocabulary) (inner : Option Node) : settle v inner [] = inner := rfl

@[simp] theorem settle_none_cons (v : Vocabulary) (top : OpenTag) (outer : List OpenTag) :
    settle v none (top :: outer) = settle v (some (top.unfinished v)) outer := rfl

@[simp] theorem settle_some_cons (v : Vocabulary) (n : Node) (top : OpenTag) (outer : List OpenTag) :
    settle v (some n) (top :: outer) =
      settle v (some (.branch top.name (top.children ++ [n]) false)) outer := by
  rw [← unfinished_addChild]
  rfl

end OpenTag

/-- Loose runs with one more behind `count` nodes, unless it is blank. -/
def Loose.addRun (loose : List Loose) (count : ℕ) (run : List Char) : List Loose :=
  loose ++ if Text.trim run = [] then [] else [⟨String.ofList (Text.trim run), count⟩]

@[simp] theorem Loose.addRun_nil (loose : List Loose) (count : ℕ) :
    Loose.addRun loose count [] = loose := by
  simp [Loose.addRun]

theorem Loose.addRun_of_isGap {run : List Char} (h : Text.IsGap run) (loose : List Loose)
    (count : ℕ) : Loose.addRun loose count run = loose := by
  simp [Loose.addRun, Text.trim_eq_nil.2 h]

namespace Outline

variable {v : Vocabulary} {o : Outline} {t : Tag}

@[simp] theorem loose_addLoose (o : Outline) (run : List Char) :
    (o.addLoose run).loose = Loose.addRun o.loose o.nodes.length run := by
  unfold addLoose Loose.addRun
  split
  · next h => simp [h]
  · next h => rw [if_neg h]

@[simp] theorem stack_addLoose (o : Outline) (run : List Char) :
    (o.addLoose run).stack = o.stack := by
  unfold addLoose
  split <;> rfl

@[simp] theorem nodes_addLoose (o : Outline) (run : List Char) :
    (o.addLoose run).nodes = o.nodes := by
  unfold addLoose
  split <;> rfl

@[simp] theorem addLoose_nil (o : Outline) : o.addLoose [] = o := rfl

theorem flush_eq (o : Outline) :
    o.flush = ⟨o.stack, o.nodes, Loose.addRun o.loose o.nodes.length o.pending, []⟩ := by
  simp [flush]

/-! ### What a tag does -/

@[simp] theorem ignores_nil (v : Vocabulary) (nodes : List Node) (loose : List Loose)
    (pending : List Char) (t : Tag) : ignores v ⟨[], nodes, loose, pending⟩ t = false := rfl

@[simp] theorem ignores_cons (v : Vocabulary) (top : OpenTag) (outer : List OpenTag)
    (nodes : List Node) (loose : List Loose) (pending : List Char) (t : Tag) :
    ignores v ⟨top :: outer, nodes, loose, pending⟩ t =
      (v.isVerbatim top.name && !(t.closing && top.name == t.name)) := rfl

theorem take_of_ignores (h : o.ignores v t = true) : o.take v (.tag t) = o.extend t.lexeme := by
  rw [take, if_pos h]

theorem take_open (hi : o.ignores v t = false) (hc : t.closing = false) :
    o.take v (.tag t) =
      ⟨⟨t.name, [], []⟩ :: o.stack, o.nodes, Loose.addRun o.loose o.nodes.length o.pending, []⟩ := by
  simp [take, hi, hc, flush_eq]

theorem take_close (hi : o.ignores v t = false) (hc : t.closing = true) {node : Node}
    {outer : List OpenTag} (hn : OpenTag.closeNamed? v t.name none o.stack = some (node, outer)) :
    o.take v (.tag t) = addNode ⟨outer, o.nodes, o.loose, o.pending⟩ node := by
  simp [take, hi, hc, hn]

theorem take_stray (hi : o.ignores v t = false) (hc : t.closing = true)
    (hn : OpenTag.closeNamed? v t.name none o.stack = none) : o.take v (.tag t) = o.skip t := by
  simp [take, hi, hc, hn]

theorem skip_of_stack_nil (nodes : List Node) (loose : List Loose) (pending : List Char) (t : Tag) :
    skip ⟨[], nodes, loose, pending⟩ t =
      ⟨[], nodes, Loose.addRun loose nodes.length pending, []⟩ := by
  simp [skip, flush_eq]

theorem skip_of_stack_cons (h : o.stack ≠ []) (t : Tag) : o.skip t = o.extend t.lexeme := by
  simp [skip, h]

/-- All that a tag does: it is text inside a tag, or a stray one outside, or it opens, or it closes.
-/
inductive Takes (v : Vocabulary) (o : Outline) (t : Tag) : Prop
  | text (hs : o.stack ≠ []) (htake : o.take v (.tag t) = o.extend t.lexeme)
  | stray (hs : o.stack = []) (htake : o.take v (.tag t) = o.flush)
  | opens (hi : o.ignores v t = false) (hc : t.closing = false)
      (htake : o.take v (.tag t) = ⟨⟨t.name, [], []⟩ :: o.stack, o.nodes,
        Loose.addRun o.loose o.nodes.length o.pending, []⟩)
  | closes (node : Node) (outer : List OpenTag) (hi : o.ignores v t = false) (hc : t.closing = true)
      (hn : OpenTag.closeNamed? v t.name none o.stack = some (node, outer))
      (htake : o.take v (.tag t) = addNode ⟨outer, o.nodes, o.loose, o.pending⟩ node)

theorem takes (v : Vocabulary) (o : Outline) (t : Tag) : o.Takes v t := by
  cases hi : o.ignores v t with
  | true =>
    have hne : o.stack ≠ [] := by
      intro hs
      simp [ignores, hs] at hi
    exact .text hne (take_of_ignores hi)
  | false =>
    cases hc : t.closing with
    | false => exact .opens hi hc (take_open hi hc)
    | true =>
      cases hn : OpenTag.closeNamed? v t.name none o.stack with
      | some r => exact .closes r.1 r.2 hi hc hn (take_close hi hc hn)
      | none =>
        have htake := take_stray hi hc hn
        by_cases hs : o.stack = []
        · exact .stray hs (htake.trans (by simp [skip, hs]))
        · exact .text hs (htake.trans (skip_of_stack_cons hs t))

/-! ### What a token leaves pending -/

/-- Text is pending only outside every tag. -/
def IsTidy (o : Outline) : Prop := o.stack ≠ [] → o.pending = []

theorem isTidy_extend (h : o.IsTidy) (s : List Char) : (o.extend s).IsTidy := by
  cases o with
  | mk stack nodes loose pending =>
    cases stack with
    | nil => simp [IsTidy, extend]
    | cons top outer => simpa [IsTidy, extend] using h

theorem isTidy_take (h : o.IsTidy) (token : Token) : (o.take v token).IsTidy := by
  cases token with
  | text run => exact isTidy_extend h run
  | tag t =>
    cases takes v o t with
    | text _ htake =>
      rw [htake]
      exact isTidy_extend h _
    | stray _ htake =>
      rw [htake, flush_eq]
      exact fun _ ↦ rfl
    | opens _ _ htake =>
      rw [htake]
      exact fun _ ↦ rfl
    | closes node outer _ _ hn htake =>
      have hne : o.stack ≠ [] := by
        intro hs
        simp [hs] at hn
      rw [htake]
      intro _
      cases outer <;> exact h hne

theorem isTidy_empty : IsTidy {} := fun h ↦ absurd rfl h

theorem isTidy_read (h : o.IsTidy) (s : List Char) : (read v o s).IsTidy :=
  read_keeps (P := IsTidy) (fun _ token ho ↦ isTidy_take ho token) h s

/-! ### What holds of all nodes so far -/

/-- `P` holds of the nodes at the top level and of the children of the open tags. -/
structure Holds (P : Node → Prop) (o : Outline) : Prop where
  nodes : ∀ n ∈ o.nodes, P n
  stack : ∀ t ∈ o.stack, ∀ c ∈ t.children, P c

variable {P : Node → Prop}

theorem Holds.extend (h : o.Holds P) (s : List Char) : (o.extend s).Holds P := by
  obtain ⟨stack, nodes, loose, pending⟩ := o
  cases stack with
  | nil => exact ⟨h.nodes, h.stack⟩
  | cons top outer =>
    obtain ⟨htop, houter⟩ := List.forall_mem_cons.1 h.stack
    exact ⟨h.nodes, List.forall_mem_cons.2 ⟨htop, houter⟩⟩

theorem Holds.addNode {n : Node} (h : o.Holds P) (hn : P n) : (o.addNode n).Holds P := by
  have hconcat : ∀ nodes : List Node, (∀ m ∈ nodes, P m) → ∀ m ∈ nodes ++ [n], P m := by
    intro nodes hnodes
    exact List.forall_mem_append.2 ⟨hnodes, by simpa using hn⟩
  obtain ⟨stack, nodes, loose, pending⟩ := o
  cases stack with
  | nil => exact ⟨hconcat nodes h.nodes, h.stack⟩
  | cons top outer =>
    obtain ⟨htop, houter⟩ := List.forall_mem_cons.1 h.stack
    exact ⟨h.nodes, List.forall_mem_cons.2 ⟨hconcat top.children htop, houter⟩⟩

/-- What holds of the nodes that closing tags end holds of all nodes. -/
theorem Holds.take (h : o.Holds P) (hclose : ∀ t node outer, o.ignores v t = false →
      t.closing = true → OpenTag.closeNamed? v t.name none o.stack = some (node, outer) → P node)
    (token : Token) : (o.take v token).Holds P := by
  cases token with
  | text run => exact h.extend run
  | tag t =>
    cases takes v o t with
    | text _ htake =>
      rw [htake]
      exact h.extend _
    | stray _ htake =>
      rw [htake, flush_eq]
      exact ⟨h.nodes, h.stack⟩
    | opens _ _ htake =>
      rw [htake]
      exact ⟨h.nodes, List.forall_mem_cons.2 ⟨by rintro c ⟨⟩, h.stack⟩⟩
    | closes node outer hi hc hn htake =>
      have hsuffix : outer <:+ o.stack :=
        (OpenTag.suffix_of_closeNamed? hn).trans (List.tail_suffix _)
      have houter : Holds P ⟨outer, o.nodes, o.loose, o.pending⟩ :=
        ⟨h.nodes, fun t ht ↦ h.stack t (hsuffix.subset ht)⟩
      rw [htake]
      exact houter.addNode (hclose t node outer hi hc hn)

/-! ### Where an outline ends -/

theorem finish_of_stack_nil (nodes : List Node) (loose : List Loose) (pending : List Char) :
    finish v ⟨[], nodes, loose, pending⟩ =
      ⟨nodes, Loose.addRun loose nodes.length (v.withoutFragment pending)⟩ := by
  simp [finish]

theorem finish_of_pending_nil (stack : List OpenTag) (nodes : List Node) (loose : List Loose) :
    finish v ⟨stack, nodes, loose, []⟩ =
      ⟨nodes ++ (OpenTag.settle v none stack).toList, loose⟩ := by
  simp [finish, Vocabulary.withoutFragment]

theorem finish_addNode (stack : List OpenTag) (nodes : List Node) (loose : List Loose) (n : Node) :
    finish v (addNode ⟨stack, nodes, loose, []⟩ n) =
      ⟨nodes ++ (OpenTag.settle v (some n) stack).toList, loose⟩ := by
  cases stack with
  | nil => simp [addNode, finish_of_pending_nil]
  | cons top outer => simp [addNode, finish_of_pending_nil]

end Outline
end AgentReply
