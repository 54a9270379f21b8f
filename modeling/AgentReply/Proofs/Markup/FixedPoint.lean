import AgentReply.Proofs.Markup.Node
import AgentReply.Proofs.Markup.Occurrence
import AgentReply.Proofs.Markup.Verbatim
import AgentReply.Proofs.Markup.Writing

/-!
# Documents that are written out again

However a text is malformed, the nodes that are read from it can be written as a text that is not,
and that text is read as the same nodes. A tag that was mere text where it stood, a stray closing tag
or any tag in a verbatim payload, is mere text in the written node too, for it is written inside tags
of the same names. The invariant of the reading is that the nodes so far can be written where they
stand, and that the payload of the innermost open tag is made of tokens that are no structure there.
-/

namespace AgentReply

namespace Node

mutual

/-- The same node with all nodes in it complete. -/
def finished : Node → Node
  | .leaf name text _ => .leaf name text true
  | .branch name children _ => .branch name (finishedAll children) true

def finishedAll : List Node → List Node
  | [] => []
  | n :: rest => n.finished :: finishedAll rest

end

mutual

/-- A node as it is written, with its tags. -/
def markup : Node → List Char
  | .leaf name text _ =>
    (⟨false, name.toList, []⟩ : Tag).lexeme ++
      (text.toList ++ (⟨true, name.toList, []⟩ : Tag).lexeme)
  | .branch name children _ =>
    (⟨false, name.toList, []⟩ : Tag).lexeme ++
      (markupAll children ++ (⟨true, name.toList, []⟩ : Tag).lexeme)

def markupAll : List Node → List Char
  | [] => []
  | n :: rest => n.markup ++ markupAll rest

end

variable {v : Vocabulary} {above : List String} {n : Node} {nodes : List Node}

theorem finishedAll_eq_map (nodes : List Node) : finishedAll nodes = nodes.map finished := by
  induction nodes with
  | nil => simp [finishedAll]
  | cons n rest ih => simp [finishedAll, ih]

@[simp] theorem finished_leaf (name text : String) (c : Bool) :
    (leaf name text c).finished = .leaf name text true := by
  simp [finished]

@[simp] theorem finished_branch (name : String) (children : List Node) (c : Bool) :
    (branch name children c).finished = .branch name (children.map finished) true := by
  simp [finished, finishedAll_eq_map]

/-! ### Nodes that can be written -/

theorem Writable.isKnown (h : n.Writable v above) : v.isKnown n.name = true := by
  cases h <;> assumption

theorem Writable.map_toLower_name (h : n.Writable v above) (hv : v.IsPlain) :
    n.name.toList.map Char.toLower = n.name.toList := by
  have hmem : n.name ∈ v.known := List.contains_iff_mem.1 h.isKnown
  have hlower : n.name.toList.map Char.toLower = n.name.toList.map id :=
    List.map_congr_left fun c hc ↦ hv.toLower_eq hmem hc
  rw [hlower, List.map_id]

theorem written_cons (hv : v.IsPlain) (h : n.Writable v above) {tail : List Char}
    (htail : Written v nodes tail) : Written v (n :: nodes) (n.markup ++ tail) := by
  induction n using Node.induction generalizing above nodes tail with
  | leaf name text complete =>
    have hleaf := Written.leaf_name name text complete (h.map_toLower_name hv) htail
    simpa [markup] using hleaf
  | branch name children complete ih =>
    have hinner : ∀ inner, (∀ c ∈ inner, c ∈ children) → Written v inner (markupAll inner) := by
      intro inner
      induction inner with
      | nil =>
        intro _
        rw [markupAll]
        exact .nil Text.isGap_nil
      | cons c rest ihrest =>
        intro hmem
        have hc := hmem c List.mem_cons_self
        rw [markupAll]
        cases h with
        | branch hknown hverb hne hchildren =>
          exact ih c hc (hchildren c hc) (ihrest fun d hd ↦ hmem d (List.mem_cons_of_mem c hd))
    have hbranch := Written.branch_name name complete (h.map_toLower_name hv)
      (hinner children fun _ hc ↦ hc) htail
    simpa [markup] using hbranch

theorem written_markupAll (hv : v.IsPlain) (h : ∀ n ∈ nodes, n.Writable v above) :
    Written v nodes (markupAll nodes) := by
  induction nodes with
  | nil =>
    rw [markupAll]
    exact .nil Text.isGap_nil
  | cons n rest ih =>
    rw [markupAll]
    exact written_cons hv (h n List.mem_cons_self) (ih fun m hm ↦ h m (List.mem_cons_of_mem n hm))

end Node

/-! ### Open tags -/

namespace OpenTag

variable {v : Vocabulary} {above : List String} {t top : OpenTag} {n node : Node} {u : Tag}
  {stack outer : List OpenTag} {done rest : List Token} {s shown : List Char} {name : String}
  {complete : Bool}

/-- A tag that is no structure directly inside an open tag; `above` are the names of the tags around
that one. -/
def IsInert (v : Vocabulary) (above : List String) (t : OpenTag) (u : Tag) : Prop :=
  if v.isVerbatim t.name then u.closing = true → u.name ≠ t.name
  else u.closing = true ∧ u.name ∉ t.name :: above

/-- An open tag whose children can be written inside it. -/
structure IsSound (v : Vocabulary) (above : List String) (t : OpenTag) : Prop where
  known : v.plain.isKnown t.name = true
  children : ∀ n ∈ t.children, n.finished.Writable v.plain (t.name :: above)
  flat : t.children ≠ [] → v.isVerbatim t.name = false

def AreSound (v : Vocabulary) : List OpenTag → Prop
  | [] => True
  | t :: outer => t.IsSound v (outer.map OpenTag.name) ∧ AreSound v outer

/-- The payload of an open tag is made of the last tokens that have been taken, none of which is
structure there. -/
def HoldsPayload (v : Vocabulary) (done : List Token) (above : List String) (t : OpenTag) : Prop :=
  ∃ block, block <:+ done ∧ t.payload = block.flatMap Token.lexeme ∧
    ∀ u, .tag u ∈ block → t.IsInert v above u

theorem AreSound.of_suffix (h : AreSound v stack) (hsuffix : outer <:+ stack) : AreSound v outer := by
  induction stack with
  | nil =>
    rw [List.suffix_nil.1 hsuffix]
    trivial
  | cons top rest ih =>
    rcases List.suffix_cons_iff.1 hsuffix with rfl | hrest
    · exact h
    · exact ih h.2 hrest

theorem IsSound.addChild (h : t.IsSound v above) (hverb : v.isVerbatim t.name = false)
    (hn : n.finished.Writable v.plain (t.name :: above)) : (t.addChild n).IsSound v above where
  known := h.known
  children := by
    intro c hc
    rw [children_addChild] at hc
    rcases List.mem_append.1 hc with hmem | hmem
    · exact h.children c hmem
    · rwa [List.mem_singleton.1 hmem]
  flat := fun _ ↦ hverb

/-- The node of an open tag can be written, whatever part of the payload it shows. -/
theorem IsSound.writable_toNode (h : t.IsSound v above) (hscan : Token.scan v s = done ++ rest)
    (hpayload : t.children = [] → t.HoldsPayload v done above) (hshown : shown <:+: t.payload) :
    (t.toNode v shown complete).finished.Writable v.plain above := by
  cases hc : t.children with
  | nil =>
    obtain ⟨block, ⟨before, hbefore⟩, heq, hinert⟩ := hpayload hc
    have htags : ∀ u : Tag, u.IsOf v.plain → u.lexeme <:+: shown → t.IsInert v above u := by
      intro u hu hin
      rw [← hbefore, List.append_assoc] at hscan
      have hblock : u.lexeme <:+: block.flatMap Token.lexeme := heq ▸ hin.trans hshown
      exact hinert u (Token.mem_of_infix (Vocabulary.isOf_plain_iff.1 hu) hscan hblock)
    simp only [toNode, hc, Node.finished_leaf]
    cases hverb : v.isVerbatim t.name with
    | true =>
      refine .verbatim h.known hverb ?_
      intro u hu hin
      simp only [IsInert, hverb, if_true, String.toList_ofList] at htags hin
      exact htags u hu hin
    | false =>
      simp only [IsInert, hverb, Bool.false_eq_true, if_false] at htags ⊢
      refine .leaf h.known hverb ?_ ?_
      · rw [String.toList_ofList, Text.trim_trim]
      · intro u hu hin
        rw [String.toList_ofList] at hin
        exact htags u hu (hin.trans (Text.trim_isInfix shown))
  | cons c cs =>
    simp only [toNode, hc, Node.finished_branch]
    refine .branch h.known (h.flat (by simp [hc])) (by simp) ?_
    intro n hn
    obtain ⟨m, hm, rfl⟩ := List.mem_map.1 hn
    exact h.children m (hc ▸ hm)

theorem IsSound.writable_branch (h : top.IsSound v above) (hverb : v.isVerbatim top.name = false)
    (hn : n.finished.Writable v.plain (top.name :: above)) :
    (Node.branch top.name (top.children ++ [n]) complete).finished.Writable v.plain above := by
  have hchild := h.addChild hverb hn
  rw [Node.finished_branch]
  refine .branch h.known hverb (by simp) ?_
  intro m hm
  obtain ⟨c, hc, rfl⟩ := List.mem_map.1 hm
  exact hchild.children c hc

theorem writable_of_closeNamed?_some (hstack : AreSound v stack)
    (hverb : ∀ t ∈ stack, v.isVerbatim t.name = false)
    (hn : n.finished.Writable v.plain (stack.map OpenTag.name))
    (h : closeNamed? v name (some n) stack = some (node, outer)) :
    node.finished.Writable v.plain (outer.map OpenTag.name) := by
  induction stack generalizing n with
  | nil => cases h
  | cons top rest ih =>
    have hparent : ∀ complete, ((top.addChild n).closed v complete).finished.Writable v.plain
        (rest.map OpenTag.name) := by
      intro complete
      rw [closed_addChild]
      exact hstack.1.writable_branch (hverb top List.mem_cons_self) hn
    rw [closeNamed?_some_cons] at h
    split at h
    · cases h
      exact hparent true
    · exact ih hstack.2 (fun t ht ↦ hverb t (List.mem_cons_of_mem top ht)) (hparent false) h

theorem writable_of_settle_some (hstack : AreSound v stack)
    (hverb : ∀ t ∈ stack, v.isVerbatim t.name = false)
    (hn : n.finished.Writable v.plain (stack.map OpenTag.name))
    (h : settle v (some n) stack = some node) : node.finished.Writable v.plain [] := by
  induction stack generalizing n with
  | nil =>
    cases h
    exact hn
  | cons top rest ih =>
    rw [settle_some_cons] at h
    have hparent : (Node.branch top.name (top.children ++ [n]) false).finished.Writable v.plain
        (rest.map OpenTag.name) := hstack.1.writable_branch (hverb top List.mem_cons_self) hn
    exact ih hstack.2 (fun t ht ↦ hverb t (List.mem_cons_of_mem top ht)) hparent h

end OpenTag

/-! ### The reading -/

namespace Outline

open OpenTag

variable {v : Vocabulary} {o : Outline} {done rest : List Token} {token : Token} {s : List Char}
  {t : Tag}

/-- All nodes so far can be written where they stand, once they are complete, and so can the innermost
open tag. -/
structure IsSound (v : Vocabulary) (done : List Token) (o : Outline) : Prop where
  nodes : ∀ n ∈ o.nodes, n.finished.Writable v.plain []
  stack : AreSound v o.stack
  payload : ∀ top outer, o.stack = top :: outer → top.children = [] →
    top.HoldsPayload v done (outer.map OpenTag.name)

theorem IsSound.extend (h : o.IsSound v done) (token : Token)
    (hinert : ∀ u, token = .tag u → ∀ top outer, o.stack = top :: outer →
      top.IsInert v (outer.map OpenTag.name) u) :
    (o.extend token.lexeme).IsSound v (done ++ [token]) := by
  obtain ⟨stack, nodes, loose, pending⟩ := o
  cases stack with
  | nil => exact ⟨h.nodes, h.stack, by rintro top outer ⟨⟩⟩
  | cons top outer =>
    refine ⟨h.nodes, ⟨⟨h.stack.1.known, h.stack.1.children, h.stack.1.flat⟩, h.stack.2⟩, ?_⟩
    rintro _ _ ⟨⟩ hchildren
    obtain ⟨block, hblock, hpayload, hblockInert⟩ := h.payload top outer rfl hchildren
    refine ⟨block ++ [token], ?_, ?_, ?_⟩
    · obtain ⟨before, rfl⟩ := hblock
      exact ⟨before, (List.append_assoc ..).symm⟩
    · rw [List.flatMap_append, ← hpayload, List.flatMap_singleton]
      rfl
    · intro u hu
      rcases List.mem_append.1 hu with hmem | hmem
      · exact hblockInert u hmem
      · exact hinert u (List.mem_singleton.1 hmem).symm top outer rfl

theorem IsSound.addNode {n : Node} {outer : List OpenTag} {nodes : List Node} {loose : List Loose}
    {pending : List Char} (hnodes : ∀ n ∈ nodes, n.finished.Writable v.plain [])
    (hstack : AreSound v outer) (hverb : ∀ t ∈ outer, v.isVerbatim t.name = false)
    (hn : n.finished.Writable v.plain (outer.map OpenTag.name)) :
    (Outline.addNode ⟨outer, nodes, loose, pending⟩ n).IsSound v done := by
  cases outer with
  | nil =>
    refine ⟨?_, hstack, by rintro top outer ⟨⟩⟩
    intro m hm
    rcases List.mem_append.1 hm with hmem | hmem
    · exact hnodes m hmem
    · rwa [List.mem_singleton.1 hmem]
  | cons top outer =>
    refine ⟨hnodes, ⟨hstack.1.addChild (hverb top List.mem_cons_self) hn, hstack.2⟩, ?_⟩
    rintro _ _ ⟨⟩ hchildren
    simp at hchildren

theorem IsSound.writable_of_closeNamed? {name : String} {node : Node} {outer : List OpenTag}
    (h : o.IsSound v done) (hflat : o.IsFlat v) (hscan : Token.scan v s = done ++ rest)
    (hn : closeNamed? v name none o.stack = some (node, outer)) :
    node.finished.Writable v.plain (outer.map OpenTag.name) := by
  obtain ⟨stack, nodes, loose, pending⟩ := o
  cases stack with
  | nil => cases hn
  | cons top rest =>
    have hclosed : ∀ complete,
        (top.closed v complete).finished.Writable v.plain (rest.map OpenTag.name) := fun complete ↦
      h.stack.1.writable_toNode hscan (h.payload top rest rfl) List.infix_rfl
    rw [closeNamed?_none_cons] at hn
    split at hn
    · cases hn
      exact hclosed true
    · exact writable_of_closeNamed?_some h.stack.2 hflat (hclosed false) hn

/-- Inside a verbatim payload a tag is ignored only if it is not the closing tag. -/
theorem isInert_of_ignores {top : OpenTag} {outer : List OpenTag} (hi : o.ignores v t = true)
    (hstack : o.stack = top :: outer) : top.IsInert v (outer.map OpenTag.name) t := by
  simp only [ignores, hstack, Bool.and_eq_true, Bool.not_eq_true', Bool.and_eq_false_iff] at hi
  rw [IsInert, if_pos hi.1]
  intro hc hname
  simp [hc, hname] at hi

theorem isInert_of_stray {top : OpenTag} {outer : List OpenTag} (hi : o.ignores v t = false)
    (hc : t.closing = true) (hn : closeNamed? v t.name none o.stack = none)
    (hstack : o.stack = top :: outer) : top.IsInert v (outer.map OpenTag.name) t := by
  rw [closeNamed?_eq_none_iff_notMem, hstack] at hn
  have hne : top.name ≠ t.name := fun heq ↦ hn (heq ▸ List.mem_cons_self)
  have hverb : v.isVerbatim top.name = false := by simpa [ignores, hstack, hc, hne] using hi
  rw [IsInert, hverb, if_neg (by simp)]
  exact ⟨hc, hn⟩

theorem IsSound.take (h : o.IsSound v done) (hflat : o.IsFlat v)
    (hscan : Token.scan v s = done ++ token :: rest) :
    (o.take v token).IsSound v (done ++ [token]) := by
  cases token with
  | text run => exact h.extend (.text run) (by rintro u ⟨⟩)
  | tag t =>
    cases hi : o.ignores v t with
    | true =>
      rw [take_of_ignores hi]
      refine h.extend (.tag t) ?_
      rintro u ⟨⟩ top outer hstack
      exact isInert_of_ignores hi hstack
    | false =>
      cases hc : t.closing with
      | false =>
        have ht : t.IsOf v.plain := by
          refine Vocabulary.isOf_plain_iff.2 (Token.isOf_of_mem_scan (s := s) ?_)
          rw [hscan]
          simp
        rw [take_open hi hc]
        refine ⟨h.nodes, ⟨⟨ht.isKnown, by simp, by simp⟩, h.stack⟩, ?_⟩
        rintro _ _ ⟨⟩ -
        exact ⟨[], List.nil_suffix, rfl, by simp⟩
      | true =>
        cases hn : closeNamed? v t.name none o.stack with
        | some ended =>
          obtain ⟨node, outer⟩ := ended
          have hsuffix := suffix_of_closeNamed? hn
          rw [take_close hi hc hn]
          exact IsSound.addNode h.nodes (h.stack.of_suffix (hsuffix.trans (List.tail_suffix _)))
            (fun t ht ↦ hflat t (hsuffix.subset ht)) (h.writable_of_closeNamed? hflat hscan hn)
        | none =>
          rw [take_stray hi hc hn]
          -- A stray closing tag is dropped outside of all tags, and is text within one.
          by_cases hs : o.stack = []
          · have hflush : o.skip t = o.flush := by simp [skip, hs]
            rw [hflush, flush_eq]
            exact ⟨h.nodes, h.stack, by simp [hs]⟩
          · rw [skip_of_stack_cons hs]
            refine h.extend (.tag t) ?_
            rintro u ⟨⟩ top outer hstack
            exact isInert_of_stray hi hc hn hstack

theorem isSound_foldl (done : List Token) (hscan : Token.scan v s = done ++ rest) :
    (done.foldl (Outline.take v) {}).IsSound v done ∧ (done.foldl (Outline.take v) {}).IsFlat v := by
  induction done using List.reverseRecOn generalizing rest with
  | nil => exact ⟨⟨by simp, trivial, by simp⟩, isFlat_empty v⟩
  | append_singleton done token ih =>
    rw [List.append_assoc] at hscan
    obtain ⟨hsound, hflat⟩ := ih hscan
    rw [List.foldl_append]
    exact ⟨hsound.take hflat hscan, isFlat_take_token hflat token⟩

theorem writable_of_mem_nodes_parse {text : String} {n : Node}
    (hn : n ∈ (Document.parse v text).nodes) : n.finished.Writable v.plain [] := by
  have hscan : Token.scan v text.toList = Token.scan v text.toList ++ [] := (List.append_nil _).symm
  obtain ⟨hsound, hflat⟩ := isSound_foldl (Token.scan v text.toList) hscan
  rw [Document.parse, Document.ofTokens] at hn
  generalize (Token.scan v text.toList).foldl (Outline.take v) {} = o at hn hsound hflat
  obtain ⟨stack, nodes, loose, pending⟩ := o
  rw [finish, nodes_addLoose, stack_addLoose, List.mem_append] at hn
  rcases hn with hmem | hmem
  · exact hsound.nodes n hmem
  · cases stack with
    | nil => cases hmem
    | cons top outer =>
      rw [settle_none_cons, Option.mem_toList] at hmem
      refine writable_of_settle_some hsound.stack.2 hflat ?_ hmem
      refine hsound.stack.1.writable_toNode hscan (hsound.payload top outer rfl) ?_
      split
      · exact (Vocabulary.beforeFragment_isPrefix _ _).isInfix
      · exact (Vocabulary.beforeFragment_isPrefix _ _).isInfix

end Outline

/-- Every document is a fixed point: its nodes with all of them complete, written out with their tags,
are read as just these nodes, and no text is left outside of them. -/
theorem Document.parse_markup_parse (v : Vocabulary) (text : String) :
    let nodes := Node.finishedAll (parse v text).nodes
    parse v (String.ofList (Node.markupAll nodes)) = ⟨nodes, []⟩ := by
  intro nodes
  have hwritable : ∀ n ∈ nodes, n.Writable v.plain [] := by
    intro n hn
    have hnodes : nodes = (parse v text).nodes.map Node.finished := Node.finishedAll_eq_map _
    obtain ⟨m, hm, rfl⟩ := List.mem_map.1 (hnodes ▸ hn)
    exact Outline.writable_of_mem_nodes_parse hm
  have hplain := v.isPlain_plain
  have hwritten : Written v.plain nodes (Node.markupAll nodes) := Node.written_markupAll hplain hwritable
  rw [Outline.parse_eq_finish, String.toList_ofList, ← Outline.read_plain]
  exact Outline.finish_read_written hplain hwritten hwritable v

end AgentReply
