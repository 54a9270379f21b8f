import AgentReply.Proofs.Markup.Verbatim

/-!
# Verbatim leaves that are still arriving

A verbatim payload ends with its own closing tag and with no other. So a verbatim leaf that has been
added to the nodes is complete, and the only one that may be unfinished is that of the innermost
open tag. The invariant of the reading is that all nodes that have been added are settled.
-/

namespace AgentReply

/-- All verbatim leaves in a node are complete. -/
def Node.IsSettled (v : Vocabulary) (n : Node) : Prop :=
  ∀ path name text, n.at? path = some (.leaf name text false) → v.isVerbatim name = false

theorem mem_or_eq_of_getElem?_concat {α : Type} {xs : List α} {x c : α} {i : ℕ}
    (h : (xs ++ [x])[i]? = some c) : c ∈ xs ∨ i = xs.length ∧ c = x := by
  rw [List.getElem?_append] at h
  split at h
  · exact .inl (List.mem_of_getElem? h)
  · right
    obtain ⟨hlt, rfl⟩ := List.getElem?_eq_some_iff.1 h
    rw [List.length_singleton] at hlt
    exact ⟨by omega, List.getElem_singleton _⟩

namespace Node

variable {v : Vocabulary} {name text : String} {children : List Node} {complete : Bool}

theorem isSettled_leaf (h : complete = true ∨ v.isVerbatim name = false) :
    (leaf name text complete).IsSettled v := by
  rintro (_ | ⟨i, path⟩) name' text' hat
  · cases hat
    exact h.resolve_left Bool.false_ne_true
  · cases hat

theorem isSettled_branch (h : ∀ c ∈ children, c.IsSettled v) :
    (branch name children complete).IsSettled v := by
  rintro (_ | ⟨i, path⟩) name' text' hat
  · cases hat
  · obtain ⟨c, hc, hbelow⟩ := Option.bind_eq_some_iff.1 hat
    exact h c (List.mem_of_getElem? hc) path name' text' hbelow

end Node

namespace OpenTag

variable {v : Vocabulary} {t : OpenTag} {n node : Node} {name text : String} {complete : Bool}
  {stack outer : List OpenTag} {path : List ℕ}

def IsSettled (v : Vocabulary) (t : OpenTag) : Prop := ∀ c ∈ t.children, c.IsSettled v

theorem IsSettled.addChild (ht : t.IsSettled v) (hn : n.IsSettled v) :
    (t.addChild n).IsSettled v := by
  intro c hc
  rw [children_addChild] at hc
  rcases List.mem_append.1 hc with hmem | hmem
  · exact ht c hmem
  · rwa [List.mem_singleton.1 hmem]

theorem IsSettled.closed (ht : t.IsSettled v)
    (h : complete = true ∨ v.isVerbatim t.name = false) : (t.closed v complete).IsSettled v := by
  cases hc : t.children with
  | nil =>
    simp only [OpenTag.closed, toNode, hc]
    exact Node.isSettled_leaf h
  | cons c cs =>
    simp only [OpenTag.closed, toNode, hc]
    rw [IsSettled, hc] at ht
    exact Node.isSettled_branch ht

theorem isSettled_of_closeNamed?_some (hstack : ∀ t ∈ stack, t.IsSettled v) (hn : n.IsSettled v)
    (h : closeNamed? v name (some n) stack = some (node, outer)) : node.IsSettled v := by
  induction stack generalizing n with
  | nil => cases h
  | cons top rest ih =>
    have hparent : ∀ complete, ((top.addChild n).closed v complete).IsSettled v := by
      intro complete
      rw [closed_addChild]
      exact Node.isSettled_branch ((hstack top List.mem_cons_self).addChild hn)
    rw [closeNamed?_some_cons] at h
    split at h
    · cases h
      exact hparent true
    · exact ih (fun t ht ↦ hstack t (List.mem_cons_of_mem top ht)) (hparent false) h

/-- The node of a closing tag that counts as structure. Only its own closing tag ends a verbatim
tag. -/
theorem isSettled_of_closeNamed? (hstack : ∀ t ∈ stack, t.IsSettled v)
    (hverb : ∀ top ∈ stack.head?, top.name ≠ name → v.isVerbatim top.name = false)
    (h : closeNamed? v name none stack = some (node, outer)) : node.IsSettled v := by
  cases stack with
  | nil => cases h
  | cons top rest =>
    have htop : top.IsSettled v := hstack top List.mem_cons_self
    rw [closeNamed?_none_cons] at h
    split at h
    · cases h
      exact htop.closed (.inl rfl)
    · next hne =>
      have hn : (top.closed v false).IsSettled v := htop.closed (.inr (hverb top rfl hne))
      exact isSettled_of_closeNamed?_some (fun t ht ↦ hstack t (List.mem_cons_of_mem top ht)) hn h

/-- An unfinished verbatim leaf in the node that holds all open tags is in the innermost of them. -/
theorem exists_path_of_settle {x root : Node} (houter : ∀ t ∈ outer, t.IsSettled v)
    (hroot : settle v (some x) outer = some root)
    (hat : root.at? path = some (.leaf name text false)) (hverb : v.isVerbatim name = true) :
    ∃ below, path = pathThrough outer ++ below ∧ x.at? below = some (.leaf name text false) := by
  induction outer generalizing x with
  | nil =>
    obtain rfl : x = root := Option.some.inj hroot
    exact ⟨path, rfl, hat⟩
  | cons top outer ih =>
    rw [settle_some_cons] at hroot
    obtain ⟨below, rfl, hbelow⟩ := ih (fun t ht ↦ houter t (List.mem_cons_of_mem top ht)) hroot
    have hpath : pathThrough (top :: outer) = pathThrough outer ++ [top.children.length] := by
      simp [pathThrough]
    cases below with
    | nil => cases hbelow
    | cons i below =>
      obtain ⟨c, hc, hleaf⟩ := Option.bind_eq_some_iff.1 hbelow
      rcases mem_or_eq_of_getElem?_concat hc with hmem | ⟨rfl, rfl⟩
      · rw [houter top List.mem_cons_self c hmem below name text hleaf] at hverb
        cases hverb
      · refine ⟨below, ?_, hleaf⟩
        rw [hpath, List.append_assoc, List.singleton_append]

theorem IsSettled.eq_of_at?_unfinished (ht : t.IsSettled v)
    (hat : (t.unfinished v).at? path = some (.leaf name text false))
    (hverb : v.isVerbatim name = true) : path = [] ∧ t.name = name := by
  cases hc : t.children with
  | nil =>
    simp only [unfinished, toNode, hc] at hat
    cases path with
    | nil =>
      cases hat
      exact ⟨rfl, rfl⟩
    | cons i path => cases hat
  | cons c cs =>
    simp only [unfinished, toNode, hc] at hat
    rw [IsSettled, hc] at ht
    rw [Node.isSettled_branch ht path name text hat] at hverb
    cases hverb

end OpenTag

namespace Outline

variable {v : Vocabulary} {o : Outline} {name text : String} {path : List ℕ}

structure IsSettled (v : Vocabulary) (o : Outline) : Prop where
  nodes : ∀ n ∈ o.nodes, n.IsSettled v
  stack : ∀ t ∈ o.stack, t.IsSettled v

theorem IsSettled.take (h : o.IsSettled v) (token : Token) : (o.take v token).IsSettled v := by
  have hclose : ∀ t node outer, o.ignores v t = false → t.closing = true →
      OpenTag.closeNamed? v t.name none o.stack = some (node, outer) → node.IsSettled v := by
    intro t node outer hi hc hn
    refine OpenTag.isSettled_of_closeNamed? h.stack ?_ hn
    intro top htop hne
    obtain ⟨stack, nodes, loose, pending⟩ := o
    cases stack with
    | nil => cases htop
    | cons top' outer' =>
      cases htop
      simpa [hc, hne] using hi
  have hholds : o.Holds (Node.IsSettled v) := ⟨h.nodes, h.stack⟩
  have htake := hholds.take hclose token
  exact ⟨htake.nodes, htake.stack⟩

theorem isSettled_read (v : Vocabulary) (s : List Char) : (read v {} s).IsSettled v := by
  have hempty : IsSettled v {} := ⟨by rintro n ⟨⟩, by rintro t ⟨⟩⟩
  exact read_keeps (P := IsSettled v) (fun _ token ho ↦ ho.take token) hempty s

theorem exists_top_of_at?_finish (h : o.IsSettled v) (ho : o.IsTidy)
    (hat : (finish v o).at? path = some (.leaf name text false))
    (hverb : v.isVerbatim name = true) :
    path = o.openPath ∧ ∃ top ∈ o.stack, top.name = name := by
  obtain ⟨stack, nodes, loose, pending⟩ := o
  cases path with
  | nil => cases hat
  | cons i path =>
    obtain ⟨root, hroot, hleaf⟩ := Option.bind_eq_some_iff.1 hat
    have hnot : root ∉ nodes := by
      intro hmem
      rw [h.nodes root hmem path name text hleaf] at hverb
      cases hverb
    cases stack with
    | nil =>
      rw [finish_of_stack_nil] at hroot
      exact absurd (List.mem_of_getElem? hroot) hnot
    | cons top outer =>
      obtain ⟨htop, houter⟩ := List.forall_mem_cons.1 h.stack
      obtain ⟨last, hlast, -⟩ := OpenTag.exists_settle_at? (v := v) (top.unfinished v) outer
      obtain rfl : pending = [] := ho (List.cons_ne_nil _ _)
      rw [finish_of_pending_nil, OpenTag.settle_none_cons, hlast] at hroot
      rcases mem_or_eq_of_getElem?_concat hroot with hmem | ⟨rfl, rfl⟩
      · exact absurd hmem hnot
      · obtain ⟨below, rfl, hbelow⟩ := OpenTag.exists_path_of_settle houter hlast hleaf hverb
        obtain ⟨rfl, hname⟩ := htop.eq_of_at?_unfinished hbelow hverb
        exact ⟨by simp [openPath], top, List.mem_cons_self, hname⟩

end Outline

/-- What is shown of a verbatim leaf that is still arriving stays, unless it ends with a closing tag
that lacks its `>` and has blanks behind its name. -/
theorem Document.verbatim_isPrefix_append {v : Vocabulary} (hv : v.IsPlain) {s e : String}
    {path : List ℕ} {name shown later : String} {complete : Bool} (hverb : v.isVerbatim name = true)
    (hpadded : ∀ t ∈ (Outline.read v {} s.toList).stack,
      t.name = name → ¬v.EndsPadded t.name t.payload)
    (hs : (parse v s).at? path = some (.leaf name shown false))
    (hse : (parse v (s ++ e)).at? path = some (.leaf name later complete)) :
    shown.toList <+: later.toList := by
  have htidy : (Outline.read v {} s.toList).IsTidy := Outline.isTidy_read Outline.isTidy_empty _
  rw [Outline.parse_eq_finish] at hs hse
  obtain ⟨rfl, t, ht, rfl⟩ :=
    Outline.exists_top_of_at?_finish (Outline.isSettled_read v s.toList) htidy hs hverb
  obtain ⟨before, opening, -, -, -, -, -, hwithin⟩ := Outline.exists_eq_within ht hverb
  obtain ⟨later', complete', hat, hpre⟩ :=
    Outline.exists_at?_read_append hv hverb hwithin (hpadded t ht rfl) e.toList
  have hshown : (Outline.finish v (Outline.read v {} s.toList)).at?
      (Outline.read v {} s.toList).openPath = some (.leaf t.name (String.ofList
        (Vocabulary.withoutCloseFragment t.name t.payload)) false) := by
    rw [hwithin]
    exact Outline.at?_finish_within hverb
  rw [hshown] at hs
  rw [String.toList_append] at hse
  cases hs
  cases hat.symm.trans hse
  rwa [String.toList_ofList]

end AgentReply
