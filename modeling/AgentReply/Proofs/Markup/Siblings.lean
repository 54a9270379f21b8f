import AgentReply.Proofs.Markup.Sections

/-!
# Siblings and unfinished nodes

A node stays unfinished when its tag ends with that of a tag around it or with the text. In the first
case its parent ends in the same moment, in the second nothing follows at all. So no node comes behind
an unfinished sibling, and an unfinished root goes to the end of the text. The invariant of the reading
is that the top-level nodes and the children of the open tags are complete; what a closing tag ends is
added to its parent as a complete node, whatever was open in it.
-/

namespace AgentReply

variable {v : Vocabulary}

namespace Node

variable {n : Node} {siblings : List Node} {name : String} {complete : Bool}

/-- Of some siblings only the last may be unfinished. -/
def TailOpen (siblings : List Node) : Prop := ∀ n ∈ siblings.dropLast, n.complete = true

/-- Of the children of a node and of every node in it only the last may be unfinished. -/
def TailOpenBelow (n : Node) : Prop := ∀ path m, n.at? path = some m → TailOpen m.children

/-- A complete node, of which what has been cut short stands at the end of its siblings. -/
structure IsWhole (n : Node) : Prop where
  complete : n.complete = true
  tailOpen : n.TailOpenBelow

theorem tailOpen_nil : TailOpen [] := by simp [TailOpen]

theorem tailOpen_concat (h : ∀ c ∈ siblings, c.complete = true) (n : Node) :
    TailOpen (siblings ++ [n]) := by
  rw [TailOpen, List.dropLast_concat]
  exact h

theorem tailOpen_append_toList (h : ∀ c ∈ siblings, c.complete = true) (last : Option Node) :
    TailOpen (siblings ++ last.toList) := by
  cases last with
  | none =>
    rw [Option.toList_none, List.append_nil]
    exact fun c hc ↦ h c (List.mem_of_mem_dropLast hc)
  | some n => exact tailOpen_concat h n

theorem tailOpenBelow_leaf (name text : String) (complete : Bool) :
    (leaf name text complete).TailOpenBelow := by
  rintro (_ | ⟨i, path⟩) m hat
  · cases hat
    exact tailOpen_nil
  · cases hat

theorem tailOpenBelow_branch (h : TailOpen siblings) (hbelow : ∀ c ∈ siblings, c.TailOpenBelow) :
    (branch name siblings complete).TailOpenBelow := by
  rintro (_ | ⟨i, path⟩) m hat
  · cases hat
    exact h
  · obtain ⟨c, hc, hm⟩ := Option.bind_eq_some_iff.1 hat
    exact hbelow c (List.mem_of_getElem? hc) path m hm

end Node

/-! ### What becomes of open tags -/

namespace OpenTag

variable {t : OpenTag} {inside : Option Node} {node : Node} {name : String}
  {stack outer : List OpenTag}

/-- An open tag whose children are complete. -/
def HoldsWhole (t : OpenTag) : Prop := ∀ c ∈ t.children, c.IsWhole

/-- The node of a tag whose children are complete, but for one that ends with the tag. -/
theorem HoldsWhole.toNode (h : t.HoldsWhole) (hin : ∀ n ∈ inside, n.TailOpenBelow)
    (payload : List Char) (complete : Bool) :
    ((inside.elim t t.addChild).toNode v payload complete).TailOpenBelow := by
  cases inside with
  | none =>
    rw [Option.elim_none]
    cases hc : t.children with
    | nil =>
      simp only [OpenTag.toNode, hc]
      exact Node.tailOpenBelow_leaf _ _ complete
    | cons c cs =>
      simp only [OpenTag.toNode, hc]
      rw [HoldsWhole, hc] at h
      refine Node.tailOpenBelow_branch ?_ fun c hc ↦ (h c hc).tailOpen
      exact fun c hc ↦ (h c (List.mem_of_mem_dropLast hc)).complete
  | some n =>
    rw [Option.elim_some, toNode_addChild]
    refine Node.tailOpenBelow_branch (Node.tailOpen_concat (fun c hc ↦ (h c hc).complete) n) ?_
    intro c hc
    rcases List.mem_append.1 hc with hmem | hmem
    · exact (h c hmem).tailOpen
    · rw [List.mem_singleton.1 hmem]
      exact hin n rfl

theorem tailOpenBelow_of_closeNamed? (hstack : ∀ t ∈ stack, t.HoldsWhole)
    (hin : ∀ n ∈ inside, n.TailOpenBelow)
    (h : closeNamed? v name inside stack = some (node, outer)) : node.TailOpenBelow := by
  induction stack generalizing inside with
  | nil => cases h
  | cons top rest ih =>
    have htop := (hstack top List.mem_cons_self).toNode (v := v) hin
    rw [closeNamed?] at h
    split at h
    · cases h
      exact htop _ true
    · refine ih (fun t ht ↦ hstack t (List.mem_cons_of_mem top ht)) ?_ h
      rintro n ⟨⟩
      exact htop _ false

theorem tailOpenBelow_of_settle (hstack : ∀ t ∈ stack, t.HoldsWhole)
    (hin : ∀ n ∈ inside, n.TailOpenBelow) : ∀ n ∈ settle v inside stack, n.TailOpenBelow := by
  induction stack generalizing inside with
  | nil => exact hin
  | cons top rest ih =>
    refine ih (fun t ht ↦ hstack t (List.mem_cons_of_mem top ht)) ?_
    rintro n ⟨⟩
    exact (hstack top List.mem_cons_self).toNode hin _ false

end OpenTag

/-! ### The reading -/

namespace Outline

variable {o : Outline} {n : Node}

/-- All nodes so far are complete, at the top level and in the open tags. -/
structure HoldsWhole (o : Outline) : Prop where
  nodes : ∀ n ∈ o.nodes, n.IsWhole
  stack : ∀ t ∈ o.stack, t.HoldsWhole

theorem HoldsWhole.take (h : o.HoldsWhole) (token : Token) : (o.take v token).HoldsWhole := by
  have hholds : o.Holds Node.IsWhole := ⟨h.nodes, h.stack⟩
  -- the tags inside the one that ends are cut short, but that one is complete
  have htake := hholds.take (v := v) (fun t node outer _ _ hn ↦
    ⟨(OpenTag.closeNamed?_eq_some hn).2.1,
      OpenTag.tailOpenBelow_of_closeNamed? h.stack (by rintro n ⟨⟩) hn⟩) token
  exact ⟨htake.nodes, htake.stack⟩

theorem holdsWhole_read (v : Vocabulary) (s : List Char) : (read v {} s).HoldsWhole := by
  have hempty : HoldsWhole {} := ⟨by rintro n ⟨⟩, by rintro t ⟨⟩⟩
  exact read_keeps (P := HoldsWhole) (fun _ token ho ↦ ho.take token) hempty s

theorem nodes_finish (v : Vocabulary) (o : Outline) :
    (o.finish v).nodes = o.nodes ++ (OpenTag.settle v none o.stack).toList := by
  simp [finish]

theorem HoldsWhole.tailOpen_finish (h : o.HoldsWhole) : Node.TailOpen (o.finish v).nodes := by
  rw [nodes_finish]
  exact Node.tailOpen_append_toList (fun n hn ↦ (h.nodes n hn).complete) _

theorem HoldsWhole.tailOpen_at?_finish (h : o.HoldsWhole) {path : List ℕ}
    (hat : (o.finish v).at? path = some n) : Node.TailOpen n.children := by
  cases path with
  | nil => cases hat
  | cons i path =>
    obtain ⟨root, hroot, hbelow⟩ := Option.bind_eq_some_iff.1 hat
    have hmem := List.mem_of_getElem? hroot
    rw [nodes_finish, List.mem_append, Option.mem_toList] at hmem
    rcases hmem with hmem | hmem
    · exact (h.nodes root hmem).tailOpen path n hbelow
    · exact OpenTag.tailOpenBelow_of_settle h.stack (by rintro n ⟨⟩) root hmem path n hbelow

end Outline

/-! ### Where an unfinished root ends -/

namespace Token

variable {name : String} {inner : List String} {tokens : List Token}

/-- A tag with no tag around it ends with its own closing tag, or else it takes all that follows. -/
theorem extent_eq_own_or_never (name : String) (inner : List String) (tokens : List Token) :
    (extent name [] inner tokens).2 = .own ∨ extent name [] inner tokens = (tokens, .never) := by
  induction tokens generalizing inner with
  | nil => exact .inr rfl
  | cons token tokens ih =>
    cases hends : token.ends? name [] inner with
    | some ending =>
      obtain ⟨-, -, -, -, -, rfl⟩ := of_ends? hends
      rw [extent_of_ends hends]
      exact .inl rfl
    | none =>
      rw [extent_of_not_ends hends]
      rcases ih (openNext inner token) with hown | hnever
      · exact .inl hown
      · exact .inr (by rw [hnever])

end Token

namespace Section

variable {s : Section} {sections before after : List Section} {name : String}

/-- A root that does not end before the end of the text. -/
def IsUnfinished (s : Section) : Prop := ∃ name, s.root? = some (name, false)

/-- An unfinished root takes all that follows it. -/
def TakesRest (s : Section) : Prop :=
  ∃ t span, s = .root t span .never ∧ Token.extent t.name [] [] span = (span, .never)

/-- An unfinished root stands at the end of some sections and takes all that follows it. -/
structure AreClosed (sections : List Section) : Prop where
  pairwise : sections.Pairwise fun s _ ↦ ¬s.IsUnfinished
  takesRest : ∀ s ∈ sections, s.IsUnfinished → s.TakesRest

theorem not_isUnfinished_of_root?_eq_none (h : s.root? = none) : ¬s.IsUnfinished := by
  rintro ⟨name, hname⟩
  cases h.symm.trans hname

theorem AreClosed.cons (h : AreClosed sections) (hs : ¬s.IsUnfinished) :
    AreClosed (s :: sections) where
  pairwise := List.pairwise_cons.2 ⟨fun _ _ ↦ hs, h.pairwise⟩
  takesRest := List.forall_mem_cons.2 ⟨fun hopen ↦ absurd hopen hs, h.takesRest⟩

theorem AreClosed.consText (h : AreClosed sections) (run : List Char) :
    AreClosed (consText run sections) := by
  unfold Section.consText
  split
  · obtain ⟨-, hpairwise⟩ := List.pairwise_cons.1 h.pairwise
    obtain ⟨-, htakes⟩ := List.forall_mem_cons.1 h.takesRest
    exact AreClosed.cons ⟨hpairwise, htakes⟩ (not_isUnfinished_of_root?_eq_none rfl)
  · exact h.cons (not_isUnfinished_of_root?_eq_none rfl)

theorem AreClosed.eq_nil (h : AreClosed (before ++ s :: after)) (hs : s.IsUnfinished) :
    after = [] := by
  obtain ⟨-, hpairwise, -⟩ := List.pairwise_append.1 h.pairwise
  refine List.eq_nil_iff_forall_not_mem.2 fun b hb ↦ ?_
  exact (List.pairwise_cons.1 hpairwise).1 b hb hs

theorem exists_of_getElem?_filterMap_root? {i : ℕ} {root : String × Bool}
    (h : (sections.filterMap root?)[i]? = some root) : ∃ before s after,
      sections = before ++ s :: after ∧ (before.filterMap root?).length = i ∧
        s.root? = some root := by
  induction sections generalizing i with
  | nil => cases h
  | cons s rest ih =>
    rw [List.filterMap_cons] at h
    cases hs : s.root? with
    | none =>
      rw [hs] at h
      obtain ⟨before, s', after, rfl, hcount, hroot⟩ := ih h
      exact ⟨s :: before, s', after, rfl, by rwa [List.filterMap_cons_none hs], hroot⟩
    | some first =>
      rw [hs] at h
      cases i with
      | zero => exact ⟨[], s, rest, rfl, rfl, hs.trans h⟩
      | succ i =>
        obtain ⟨before, s', after, rfl, hcount, hroot⟩ := ih h
        refine ⟨s :: before, s', after, rfl, ?_, hroot⟩
        rw [List.filterMap_cons_some hs, List.length_cons, hcount]

theorem AreClosed.exists_eq_concat (h : AreClosed sections) {i : ℕ}
    (hi : (sections.filterMap root?)[i]? = some (name, false)) : ∃ before t span,
      sections = before ++ [.root t span .never] ∧ (before.filterMap root?).length = i ∧
        t.name = name ∧ Token.extent t.name [] [] span = (span, .never) := by
  obtain ⟨before, s, after, rfl, hcount, hs⟩ := exists_of_getElem?_filterMap_root? hi
  have hopen : s.IsUnfinished := ⟨name, hs⟩
  obtain ⟨t, span, rfl, hextent⟩ := h.takesRest s (by simp) hopen
  obtain rfl := h.eq_nil hopen
  have hname : t.name = name := congrArg Prod.fst (Option.some.inj hs)
  exact ⟨before, t, span, rfl, hcount, hname, hextent⟩

theorem afterNodes_of_mem_loose? {roots : ℕ} {last : Bool} {run : Loose}
    (h : run ∈ s.loose? v roots last) : run.afterNodes = roots := by
  cases s with
  | stretch text =>
    rw [loose?] at h
    split at h
    · cases h
    · cases h
      rfl
  | _ => cases h

/-- No loose text stands behind more roots than there are, and none behind a root at the end. -/
theorem afterNodes_le_of_mem_looseAll (hs : s.isStretch = false) {roots : ℕ} {run : Loose}
    (h : run ∈ looseAll v roots (before ++ [s])) :
    run.afterNodes ≤ roots + (before.filterMap root?).length := by
  induction before generalizing roots with
  | nil =>
    cases s with
    | stretch more => cases hs
    | _ => simp [looseAll, loose?] at h
  | cons b before ih =>
    rw [List.cons_append, looseAll, List.mem_append, Option.mem_toList] at h
    rcases h with hhead | htail
    · rw [afterNodes_of_mem_loose? hhead]
      exact Nat.le_add_right _ _
    · have hle := ih htail
      cases hroot : b.root? with
      | none =>
        rw [hroot] at hle
        rwa [List.filterMap_cons_none hroot]
      | some root =>
        rw [hroot, Option.toList_some, List.length_singleton] at hle
        rw [List.filterMap_cons_some hroot, List.length_cons]
        omega

end Section

theorem Token.areClosed_sections (tokens : List Token) : Section.AreClosed (sections tokens) := by
  fun_induction sections tokens with
  | case1 => exact ⟨.nil, by rintro s ⟨⟩⟩
  | case2 run rest ih => exact ih.consText run
  | case3 t rest hc ih => exact ih.cons (Section.not_isUnfinished_of_root?_eq_none rfl)
  | case4 t rest hc extent ih =>
    rcases extent_eq_own_or_never t.name [] rest with hown | hnever
    · refine ih.cons ?_
      rintro ⟨name, hname⟩
      have hending : extent.2 = .own := hown
      rw [hending] at hname
      cases hname
    · have hextent : extent = (rest, .never) := hnever
      have htake : rest.take (extent.1.length + 1) = rest := by
        rw [hextent]
        exact List.take_of_length_le (Nat.le_succ _)
      have hdrop : rest.drop (extent.1.length + 1) = [] := by
        rw [hextent]
        exact List.drop_of_length_le (Nat.le_succ _)
      rw [htake, hdrop, sections, hextent]
      refine ⟨List.pairwise_singleton .., fun s hs _ ↦ ?_⟩
      obtain rfl := List.mem_singleton.1 hs
      exact ⟨t, rest, rfl, hnever⟩

/-- Only the tail of a list of siblings can be unfinished. Every root but the last is complete, and so
is, in any node, every child but the last. An unfinished root is the last one, there is no loose text
behind it, and its span goes from its opening tag to the end of the text. -/
theorem Document.parse_leaves_tail_open (v : Vocabulary) (text : String) :
    let d := Document.parse v text
    let sections := Token.sections (Token.structural v none (Token.scan v text.toList))
    Node.TailOpen d.nodes ∧
    (∀ path n, d.at? path = some n → Node.TailOpen n.children) ∧
    ∀ i n, d.nodes[i]? = some n → n.complete = false →
      i + 1 = d.nodes.length ∧
      (∀ run ∈ d.loose, run.afterNodes ≤ i) ∧
      ∃ before t span, sections = before ++ [.root t span .never] ∧
        (before.filterMap Section.root?).length = i ∧
        t.name = n.name ∧
        Token.extent t.name [] [] span = (span, .never) ∧
        text.toList =
          before.flatMap Section.source ++ (t.lexeme ++ span.flatMap Token.lexeme) := by
  intro d sections
  have hwhole := Outline.holdsWhole_read v text.toList
  refine ⟨hwhole.tailOpen_finish, fun path n hat ↦ hwhole.tailOpen_at?_finish hat, ?_⟩
  intro i n hn hopen
  obtain ⟨nodes, hparse, hroots⟩ := Document.exists_parse_eq v text
  have hd : d = ⟨nodes, Section.looseAll v 0 sections⟩ := hparse
  have hclosed : Section.AreClosed sections := Token.areClosed_sections _
  rw [hd] at hn
  -- the node is that of an unfinished root, behind which there is no section
  have hroot : (sections.filterMap Section.root?)[i]? = some (n.name, false) := by
    rw [← hroots, List.getElem?_map, hn, Option.map_some, hopen]
  obtain ⟨before, t, span, hsections, hcount, hname, hextent⟩ := hclosed.exists_eq_concat hroot
  refine ⟨?_, ?_, before, t, span, hsections, hcount, hname, hextent, ?_⟩
  · have hlength : nodes.length = (sections.filterMap Section.root?).length := by
      rw [← hroots, List.length_map]
    rw [hd, hlength, hsections, List.filterMap_append, List.length_append, hcount]
    rfl
  · intro run hrun
    rw [hd, hsections] at hrun
    have hle := Section.afterNodes_le_of_mem_looseAll rfl hrun
    rwa [hcount, Nat.zero_add] at hle
  · have hsource : sections.flatMap Section.source = text.toList := by
      rw [Token.flatMap_source_sections, Token.flatMap_lexeme_structural, Token.flatMap_lexeme_scan]
    rw [← hsource, hsections, List.flatMap_append, List.flatMap_singleton]
    rfl

/-- Two roots. The first ends with two tags still open in it, the second with the text. -/
theorem Document.parse_leaves_tail_open_misnested :
    let text := "a<response><title>b</title><thought>c<type>d</response>e<response><title>f"
    let d := Document.parse .standard text
    let children : List Node :=
      [.leaf "title" "b" true, .branch "thought" [.leaf "type" "d" false] false]
    d.at? [0] = some (.branch "response" children true) ∧ Node.TailOpen children ∧
    d.nodes[1]? = some (.branch "response" [.leaf "title" "f" false] false) ∧
    1 + 1 = d.nodes.length ∧ ∀ run ∈ d.loose, run.afterNodes ≤ 1 := by
  intro text d children
  have hfirst : d.at? [0] = some (.branch "response" children true) := by decide +kernel
  have hlast : d.nodes[1]? = some (.branch "response" [.leaf "title" "f" false] false) := by
    decide +kernel
  obtain ⟨-, hchildren, hroots⟩ := Document.parse_leaves_tail_open .standard text
  obtain ⟨hlength, hloose, -⟩ := hroots 1 _ hlast rfl
  exact ⟨hfirst, hchildren _ _ hfirst, hlast, hlength, hloose⟩

end AgentReply
