import AgentReply.Proofs.Markup.Extent
import AgentReply.Proofs.Markup.Verbatim

/-!
# Documents in the order of their opening tags

A node is added to the document when its tag ends, so the nodes come in another order than their
tags. In the document they stand in the order of the opening tags all the same, with the nodes
around each of them. At any place of the reading the nodes that are there, the open tags and the
tokens still to come tell the headings of all nodes in that order, and no token changes what they
tell.
-/

namespace AgentReply

mutual

/-- A node and the nodes inside it, each before those inside it, and with the nodes around it, the
innermost first. -/
def Node.walk (above : List Node) : Node → List (List Node × Node)
  | .leaf name text complete => [(above, .leaf name text complete)]
  | .branch name children complete =>
    (above, .branch name children complete) ::
      Node.walkAll (.branch name children complete :: above) children

def Node.walkAll (above : List Node) : List Node → List (List Node × Node)
  | [] => []
  | n :: rest => n.walk above ++ Node.walkAll above rest

end

/-- All nodes of a document in the order in which they begin, each with the nodes around it. -/
def Document.walk (d : Document) : List (List Node × Node) := Node.walkAll [] d.nodes

/-- What is told of a node in a walk without the nodes inside it. -/
structure Heading where
  above : List String
  name : String
  complete : Bool
  text? : Option String

def Heading.ofStop (stop : List Node × Node) : Heading :=
  ⟨stop.1.map Node.name, stop.2.name, stop.2.complete, stop.2.text?⟩

namespace Node

mutual

def headings (above : List String) : Node → List Heading
  | .leaf name text complete => [⟨above, name, complete, some text⟩]
  | .branch name children complete =>
    ⟨above, name, complete, none⟩ :: headingsAll (name :: above) children

def headingsAll (above : List String) : List Node → List Heading
  | [] => []
  | n :: rest => n.headings above ++ headingsAll above rest

end

variable {above : List String}

@[simp] theorem headingsAll_nil : headingsAll above [] = [] := by simp [headingsAll]

theorem headingsAll_append (a b : List Node) :
    headingsAll above (a ++ b) = headingsAll above a ++ headingsAll above b := by
  induction a with
  | nil => simp
  | cons n a ih => rw [List.cons_append, headingsAll, headingsAll, ih, List.append_assoc]

@[simp] theorem headingsAll_singleton (n : Node) : headingsAll above [n] = n.headings above := by
  rw [headingsAll, headingsAll_nil, List.append_nil]

theorem map_ofStop_walkAll {nodes : List Node} {above : List Node}
    (h : ∀ n ∈ nodes, ∀ above : List Node,
      (n.walk above).map Heading.ofStop = n.headings (above.map name)) :
    (walkAll above nodes).map Heading.ofStop = headingsAll (above.map name) nodes := by
  induction nodes with
  | nil => simp [walkAll]
  | cons n rest ih =>
    rw [walkAll, headingsAll, List.map_append, h n List.mem_cons_self,
      ih fun m hm ↦ h m (List.mem_cons_of_mem n hm)]

theorem map_ofStop_walk (n : Node) (above : List Node) :
    (n.walk above).map Heading.ofStop = n.headings (above.map name) := by
  induction n using Node.induction generalizing above with
  | leaf name text complete =>
    simp [walk, headings, Heading.ofStop, text?, Node.name, Node.complete]
  | branch name children complete ih =>
    rw [walk, headings, List.map_cons, map_ofStop_walkAll ih]
    rfl

end Node

theorem Document.map_ofStop_walk (d : Document) :
    d.walk.map Heading.ofStop = Node.headingsAll [] d.nodes :=
  Node.map_ofStop_walkAll fun n _ ↦ n.map_ofStop_walk

namespace OpenTag

variable {v : Vocabulary} {t : OpenTag} {above outer inner : List String} {tokens : List Token}

/-- What a leaf shows of its payload. At the end of the text a fragment of a tag is held back. -/
def shown (v : Vocabulary) (name : String) (payload : List Char) (cut : Bool) : List Char :=
  if v.isVerbatim name then if cut then Vocabulary.withoutCloseFragment name payload else payload
  else Text.trim (if cut then v.withoutFragment payload else payload)

/-- The heading of the node that an open tag will become, from the tokens that follow. -/
def heading (v : Vocabulary) (t : OpenTag) (outer inner : List String) (tokens : List Token) :
    Heading :=
  let e := Token.extent t.name outer inner tokens
  ⟨outer, t.name, e.2 == .own,
    if t.children.isEmpty && inner.isEmpty && (Token.openings e.1).isEmpty then
      some (String.ofList (shown v t.name (t.payload ++ e.1.flatMap Token.lexeme) (e.2 == .never)))
    else none⟩

def ended (v : Vocabulary) (t : OpenTag) : Token.Ending → Node
  | .own => t.closed v true
  | .enclosing => t.closed v false
  | .never => t.unfinished v

theorem headings_ended (v : Vocabulary) (t : OpenTag) (ending : Token.Ending)
    (above : List String) :
    (t.ended v ending).headings above =
      ⟨above, t.name, ending == .own,
          if t.children.isEmpty then
            some (String.ofList (shown v t.name t.payload (ending == .never)))
          else none⟩ ::
        Node.headingsAll (t.name :: above) t.children := by
  cases hc : t.children with
  | nil =>
    cases ending <;>
      simp only [ended, closed, unfinished, toNode, hc, Node.headings, shown, Node.headingsAll_nil] <;>
      cases v.isVerbatim t.name <;> rfl
  | cons c cs =>
    cases ending <;> simp only [ended, closed, unfinished, toNode, hc, Node.headings] <;> rfl

/-- The headings of the nodes that the open tags will become and of the nodes in them, when `inner`
are the names of the open tags inside them. -/
def stackHeadings (v : Vocabulary) (tokens : List Token) : List String → List OpenTag → List Heading
  | _, [] => []
  | inner, t :: outer =>
    stackHeadings v tokens (inner ++ [t.name]) outer ++
      (t.heading v (outer.map name) inner tokens ::
        Node.headingsAll (t.name :: outer.map name) t.children)

/-! ### What a token changes of an open tag -/

variable {token : Token} {u : Tag} {rest : List Token} {n : Node} {name : String}
  {stack : List OpenTag}

theorem heading_text (hends : token.ends? t.name outer inner = none)
    (hopen : token.opening? = none) (hinner : token.openNext inner = inner) :
    t.heading v outer inner (token :: rest) =
      (t.extend token.lexeme).heading v outer inner rest := by
  have hopenings : ∀ tokens, Token.openings (token :: tokens) = Token.openings tokens :=
    fun tokens ↦ List.filterMap_cons_none hopen
  simp only [heading, Token.extent_of_not_ends hends, hinner, hopenings, extend, List.flatMap_cons,
    List.append_assoc]

theorem heading_of_inner (h : inner ≠ []) :
    t.heading v outer inner tokens =
      ⟨outer, t.name, (Token.extent t.name outer inner tokens).2 == .own, none⟩ := by
  simp [heading, h]

theorem heading_open (hc : u.closing = false) :
    t.heading v outer inner (.tag u :: rest) = t.heading v outer (u.name :: inner) rest := by
  have hends : (Token.tag u).ends? t.name outer inner = none := if_pos (.inl hc)
  have hopening : (Token.tag u).opening? = some u := by simp [Token.opening?, hc]
  have hnext : (Token.tag u).openNext inner = u.name :: inner := by simp [Token.openNext, hc]
  rw [heading_of_inner (List.cons_ne_nil _ _), heading]
  simp [Token.extent_of_not_ends hends, Token.openings, hopening, hnext]

theorem heading_close_inner (hc : u.closing = true) (hmem : u.name ∈ inner) :
    t.heading v outer inner (.tag u :: rest) =
      ⟨outer, t.name, (Token.extent t.name outer (Token.closeName u.name inner) rest).2 == .own,
        none⟩ := by
  have hends : (Token.tag u).ends? t.name outer inner = none := if_pos (.inr hmem)
  have hnext : (Token.tag u).openNext inner = Token.closeName u.name inner := by
    simp [Token.openNext, hc]
  rw [heading_of_inner (List.ne_nil_of_mem hmem), Token.extent_of_not_ends hends, hnext]

theorem stackHeadings_idle {names : List String} (hidle : token.IsIdle names)
    (hinner : inner ⊆ names) (hstack : stack.map OpenTag.name ⊆ names) (hne : inner ≠ []) :
    stackHeadings v (token :: rest) inner stack = stackHeadings v rest inner stack := by
  induction stack generalizing inner with
  | nil => rfl
  | cons t outer ih =>
    rw [List.map_cons, List.cons_subset] at hstack
    rw [stackHeadings, stackHeadings, heading_text (hidle.ends? hstack.1 hstack.2) hidle.opening?
      (hidle.openNext hinner), heading_of_inner hne, heading_of_inner hne, name_extend, ih]
    · exact List.append_subset.2 ⟨hinner, by simpa using hstack.1⟩
    · exact hstack.2
    · simp

theorem stackHeadings_open (hc : u.closing = false) (inner : List String) (stack : List OpenTag) :
    stackHeadings v (.tag u :: rest) inner stack =
      stackHeadings v rest (u.name :: inner) stack := by
  induction stack generalizing inner with
  | nil => rfl
  | cons t outer ih =>
    rw [stackHeadings, stackHeadings, ih, heading_open hc, List.cons_append]

theorem stackHeadings_close (hc : u.closing = true) {passed : List String}
    (hpassed : u.name ∉ passed) (hne : inner ≠ []) (stack : List OpenTag) :
    stackHeadings v (.tag u :: rest) (passed ++ u.name :: inner) stack =
      stackHeadings v rest inner stack := by
  induction stack generalizing inner with
  | nil => rfl
  | cons t outer ih =>
    rw [stackHeadings, stackHeadings, heading_close_inner hc (by simp),
      Token.closeName_append_cons hpassed, heading_of_inner hne, List.append_assoc,
      List.cons_append, ih (by simp)]

/-! ### Tags that end -/

/-- The heading of a tag that ends here becomes that of its node, with the node that was open inside
it. -/
theorem headings_of_extent {ending : Token.Ending} {inside : Option Node}
    (h : Token.extent t.name outer inner tokens = ([], ending))
    (hinside : inside = none ↔ inner = []) :
    (t.heading v outer inner tokens :: Node.headingsAll (t.name :: outer) t.children) ++
        Node.headingsAll (t.name :: outer) inside.toList =
      ((inside.elim t t.addChild).ended v ending).headings outer := by
  have hheading : t.heading v outer inner tokens =
      ⟨outer, t.name, ending == .own,
        if t.children.isEmpty && inner.isEmpty then
          some (String.ofList (shown v t.name t.payload (ending == .never)))
        else none⟩ := by
    simp [heading, h, Token.openings]
  rw [hheading, headings_ended]
  cases inside with
  | none =>
    obtain rfl : inner = [] := hinside.1 rfl
    simp
  | some n =>
    have hne : inner ≠ [] := by simpa using hinside
    simp [hne, Node.headingsAll_append]

/-- The headings of the tag that a closing tag ends, and of those inside it that it ends with it. -/
theorem stackHeadings_of_closeNamed? (hc : u.closing = true) {inside : Option Node}
    {outerTags : List OpenTag} (h : closeNamed? v u.name inside stack = some (n, outerTags))
    (hinner : u.name ∉ inner) (hinside : inside = none ↔ inner = []) (rest : List Token) :
    ∃ passed, u.name ∉ passed ∧
      stack.map OpenTag.name = passed ++ u.name :: outerTags.map OpenTag.name ∧
      stackHeadings v (.tag u :: rest) inner stack ++
          Node.headingsAll (stack.map OpenTag.name) inside.toList =
        stackHeadings v (.tag u :: rest) (inner ++ passed ++ [u.name]) outerTags ++
          n.headings (outerTags.map OpenTag.name) := by
  -- along the recursion `inside` is the node of the tags passed so far and `inner` are their names
  induction stack generalizing inner inside with
  | nil => cases h
  | cons top outer ih =>
    have hname : (inside.elim top top.addChild).name = top.name := by cases inside <;> rfl
    rw [closeNamed?, hname] at h
    split at h
    · next heq =>
      obtain ⟨rfl, rfl⟩ := Prod.mk.inj (Option.some.inj h)
      have hends : (Token.tag u).ends? top.name (outer.map OpenTag.name) inner = some .own := by
        simp [Token.ends?, hc, hinner, heq]
      refine ⟨[], List.not_mem_nil, by rw [List.map_cons, heq, List.nil_append], ?_⟩
      rw [stackHeadings, List.append_assoc, List.map_cons,
        headings_of_extent (Token.extent_of_ends hends) hinside, List.append_nil, heq]
      rfl
    · next hne =>
      have hnotMem : u.name ∉ inner ++ [top.name] := by simp [hinner, Ne.symm hne]
      obtain ⟨passed, hpassed, hnames, hrest⟩ := ih h hnotMem (by simp)
      have hends :
          (Token.tag u).ends? top.name (outer.map OpenTag.name) inner = some .enclosing := by
        simp [Token.ends?, hc, hinner, Ne.symm hne, hnames]
      refine ⟨top.name :: passed, by simp [hpassed, Ne.symm hne], by simp [hnames], ?_⟩
      rw [stackHeadings, List.append_assoc, List.map_cons,
        headings_of_extent (Token.extent_of_ends hends) hinside]
      simpa [ended] using hrest

theorem stackHeadings_nil {inside : Option Node} (hinside : inside = none ↔ inner = []) :
    stackHeadings v [] inner stack ++ Node.headingsAll (stack.map OpenTag.name) inside.toList =
      Node.headingsAll [] (settle v inside stack).toList := by
  induction stack generalizing inner inside with
  | nil => simp [stackHeadings]
  | cons top outer ih =>
    have hsome : ∀ n : Node, some n = none ↔ inner ++ [top.name] = [] := by simp
    rw [stackHeadings, List.append_assoc, List.map_cons,
      headings_of_extent (Token.extent_nil top.name _ inner) hinside, settle, ← ih (hsome _)]
    simp [ended]

end OpenTag

/-- The headings of the nodes that some tokens will open, when tags of the given names are open. -/
def Token.headings (v : Vocabulary) : List String → List Token → List Heading
  | _, [] => []
  | names, token :: rest =>
    (token.opening?.map fun t ↦ (⟨t.name, [], []⟩ : OpenTag).heading v names [] rest).toList ++
      headings v (token.openNext names) rest

namespace Outline

variable {v : Vocabulary} {o : Outline} {t : Tag} {token : Token} {rest : List Token}

def names (o : Outline) : List String := o.stack.map OpenTag.name

/-- The headings of the document that an outline and the tokens still to come will make. -/
def headings (v : Vocabulary) (o : Outline) (tokens : List Token) : List Heading :=
  Node.headingsAll [] o.nodes ++ OpenTag.stackHeadings v tokens [] o.stack ++
    Token.headings v o.names tokens

/-- The verbatim tag in whose payload the reading is. -/
def inside? (v : Vocabulary) (o : Outline) : Option String :=
  (o.stack.head?.map OpenTag.name).filter v.isVerbatim

theorem headings_idle (h : token.IsIdle o.names) :
    o.headings v (token :: rest) = (o.extend token.lexeme).headings v rest := by
  obtain ⟨stack, nodes, loose, pending⟩ := o
  rw [names] at h
  have hnone : Token.headings v (stack.map OpenTag.name) (token :: rest) =
      Token.headings v (stack.map OpenTag.name) rest := by
    rw [Token.headings, h.opening?, h.openNext (List.Subset.refl _)]
    rfl
  cases stack with
  | nil =>
    rw [headings, names, hnone]
    rfl
  | cons top outer =>
    have hsub : outer.map OpenTag.name ⊆ (top :: outer).map OpenTag.name := by simp
    have htop : top.name ∈ (top :: outer).map OpenTag.name := by simp
    rw [headings, names, hnone, OpenTag.stackHeadings,
      OpenTag.heading_text (h.ends? htop hsub) h.opening? (h.openNext (List.nil_subset _)),
      OpenTag.stackHeadings_idle h (by simp) hsub (by simp)]
    rfl

theorem headings_open (hi : o.ignores v t = false) (hc : t.closing = false) :
    o.headings v (.tag t :: rest) = (o.take v (.tag t)).headings v rest := by
  rw [take_open hi hc, headings, headings, OpenTag.stackHeadings_open hc, Token.headings]
  simp [Token.opening?, Token.openNext, hc, names, OpenTag.stackHeadings]

theorem headings_close (hi : o.ignores v t = false) (hc : t.closing = true) {n : Node}
    {outer : List OpenTag} (hn : OpenTag.closeNamed? v t.name none o.stack = some (n, outer)) :
    o.headings v (.tag t :: rest) = (o.take v (.tag t)).headings v rest := by
  obtain ⟨passed, hpassed, hnames, hstack⟩ :=
    OpenTag.stackHeadings_of_closeNamed? hc hn List.not_mem_nil (by simp) rest
  have hlater : Token.headings v o.names (.tag t :: rest) =
      Token.headings v (outer.map OpenTag.name) rest := by
    rw [Token.headings, names, hnames, Token.openNext, if_pos hc,
      Token.closeName_append_cons hpassed, Token.opening?, if_pos hc]
    rfl
  rw [take_close hi hc hn, headings, hlater]
  simp only [Option.toList_none, Node.headingsAll_nil, List.append_nil, List.nil_append] at hstack
  rw [hstack]
  cases outer with
  | nil => simp [headings, addNode, OpenTag.stackHeadings, names, Node.headingsAll_append]
  | cons p outer =>
    -- the tag around the one that ends has a child now, and so no text of its own as before
    have hp : p.heading v (outer.map OpenTag.name) (passed ++ [t.name]) (.tag t :: rest) =
        (p.addChild n).heading v (outer.map OpenTag.name) [] rest := by
      rw [OpenTag.heading_close_inner hc (by simp), Token.closeName_append_cons hpassed]
      simp [OpenTag.heading]
    rw [OpenTag.stackHeadings, hp, List.append_assoc passed, List.singleton_append,
      OpenTag.stackHeadings_close hc hpassed (List.cons_ne_nil _ _)]
    simp [headings, addNode, OpenTag.stackHeadings, names, Node.headingsAll_append]

theorem headings_stray (hi : o.ignores v t = false) (hc : t.closing = true)
    (hn : OpenTag.closeNamed? v t.name none o.stack = none) :
    o.headings v (.tag t :: rest) = (o.take v (.tag t)).headings v rest := by
  have hidle : (Token.tag t).IsIdle o.names := by
    refine ⟨hc, ?_⟩
    rw [names, List.mem_map]
    rintro ⟨u, hu, hname⟩
    exact OpenTag.closeNamed?_eq_none_iff.1 hn u hu hname
  rw [headings_idle hidle, take_stray hi hc hn]
  obtain ⟨stack, nodes, loose, pending⟩ := o
  cases stack with
  | nil =>
    rw [skip_of_stack_nil]
    rfl
  | cons top outer =>
    rw [skip_of_stack_cons (List.cons_ne_nil _ _)]
    rfl

/-! ### The tokens that are structure -/

theorem inside?_extend (v : Vocabulary) (o : Outline) (s : List Char) :
    (o.extend s).inside? v = o.inside? v := by
  unfold inside? extend
  split
  · next h => rw [h]
  · next h => rw [h]; rfl

theorem ignores_eq (v : Vocabulary) (o : Outline) (t : Tag) :
    o.ignores v t = (o.inside? v).any fun name ↦ !(t.closing && t.name == name) := by
  obtain ⟨stack, nodes, loose, pending⟩ := o
  cases stack with
  | nil => rfl
  | cons top outer =>
    rw [ignores_cons, BEq.comm (a := top.name)]
    cases h : v.isVerbatim top.name <;> simp [inside?, h]

theorem countsAs_of_ignores (h : o.ignores v t = true) :
    (Token.tag t).countsAs (o.inside? v) = .text t.lexeme := by
  rw [ignores_eq] at h
  cases hin : o.inside? v with
  | none => simp [hin] at h
  | some name =>
    rw [hin, Option.any_some, Bool.not_eq_true'] at h
    simp [Token.countsAs, h]

theorem countsAs_of_not_ignores (h : o.ignores v t = false) :
    (Token.tag t).countsAs (o.inside? v) = .tag t := by
  rw [ignores_eq] at h
  cases hin : o.inside? v with
  | none => rfl
  | some name =>
    rw [hin, Option.any_some, Bool.not_eq_false'] at h
    simp [Token.countsAs, h]

/-- No token changes what is told of the nodes of the document. -/
theorem headings_take (v : Vocabulary) (o : Outline) (token : Token) (rest : List Token) :
    o.headings v (token.countsAs (o.inside? v) :: rest) = (o.take v token).headings v rest := by
  cases token with
  | text run =>
    rw [Token.countsAs_text]
    exact headings_idle trivial
  | tag t =>
    cases hi : o.ignores v t with
    | true =>
      rw [countsAs_of_ignores hi, take_of_ignores hi]
      exact headings_idle trivial
    | false =>
      rw [countsAs_of_not_ignores hi]
      cases hc : t.closing with
      | false => exact headings_open hi hc
      | true =>
        cases hn : OpenTag.closeNamed? v t.name none o.stack with
        | some r => exact headings_close hi hc hn
        | none => exact headings_stray hi hc hn

theorem inside?_take_ignored (hi : o.ignores v t = true) :
    (o.take v (.tag t)).inside? v = Token.insideNext? v (o.inside? v) (.tag t) := by
  rw [take_of_ignores hi, inside?_extend]
  rw [ignores_eq] at hi
  cases hin : o.inside? v with
  | none => simp [hin] at hi
  | some name =>
    rw [hin, Option.any_some, Bool.not_eq_true'] at hi
    simp [Token.insideNext?, hi]

theorem inside?_take_open (hi : o.ignores v t = false) (hc : t.closing = false) :
    (o.take v (.tag t)).inside? v = Token.insideNext? v (o.inside? v) (.tag t) := by
  have hin : o.inside? v = none := by
    rw [ignores_eq, hc] at hi
    cases hin : o.inside? v <;> simp_all
  rw [take_open hi hc, hin]
  cases hverb : v.isVerbatim t.name <;> simp [inside?, Token.insideNext?, hc, hverb]

theorem insideNext?_of_closing (hi : o.ignores v t = false) (hc : t.closing = true) :
    Token.insideNext? v (o.inside? v) (.tag t) = none := by
  rw [ignores_eq] at hi
  cases hin : o.inside? v with
  | none => simp [Token.insideNext?, hc]
  | some name =>
    rw [hin, Option.any_some, Bool.not_eq_false'] at hi
    simp [Token.insideNext?, hi]

/-- What a closing tag leaves open was around another tag, and so is not verbatim. -/
theorem inside?_take_close (hflat : o.IsFlat v) (hi : o.ignores v t = false) (hc : t.closing = true)
    {n : Node} {outer : List OpenTag}
    (hn : OpenTag.closeNamed? v t.name none o.stack = some (n, outer)) :
    (o.take v (.tag t)).inside? v = none := by
  have houter : ∀ u ∈ outer, v.isVerbatim u.name = false :=
    fun u hu ↦ hflat u ((OpenTag.suffix_of_closeNamed? hn).subset hu)
  rw [take_close hi hc hn]
  cases outer with
  | nil => rfl
  | cons top outer => simp [inside?, addNode, houter top List.mem_cons_self]

theorem inside?_take_stray (hi : o.ignores v t = false) (hc : t.closing = true)
    (hn : OpenTag.closeNamed? v t.name none o.stack = none) :
    (o.take v (.tag t)).inside? v = none := by
  rw [take_stray hi hc hn]
  obtain ⟨stack, nodes, loose, pending⟩ := o
  cases stack with
  | nil =>
    rw [skip_of_stack_nil]
    rfl
  | cons top outer =>
    have hne : top.name ≠ t.name := OpenTag.closeNamed?_eq_none_iff.1 hn top List.mem_cons_self
    have hverb : v.isVerbatim top.name = false := by simpa [hc, hne] using hi
    rw [skip_of_stack_cons (List.cons_ne_nil _ _), inside?_extend]
    simp [inside?, hverb]

/-- The outline and the tokens agree on where a verbatim payload is. -/
theorem inside?_take (hflat : o.IsFlat v) (token : Token) :
    (o.take v token).inside? v = Token.insideNext? v (o.inside? v) token := by
  cases token with
  | text run =>
    rw [take, inside?_extend]
    cases o.inside? v <;> rfl
  | tag t =>
    cases hi : o.ignores v t with
    | true => exact inside?_take_ignored hi
    | false =>
      cases hc : t.closing with
      | false => exact inside?_take_open hi hc
      | true =>
        rw [insideNext?_of_closing hi hc]
        cases hn : OpenTag.closeNamed? v t.name none o.stack with
        | some r => exact inside?_take_close hflat hi hc hn
        | none => exact inside?_take_stray hi hc hn

theorem headings_finish_foldl (hflat : o.IsFlat v) (tokens : List Token) :
    Node.headingsAll [] (finish v (tokens.foldl (take v) o)).nodes =
      o.headings v (Token.structural v (o.inside? v) tokens) := by
  induction tokens generalizing o with
  | nil =>
    have hstack : OpenTag.stackHeadings v [] [] o.stack ++
          Node.headingsAll (o.stack.map OpenTag.name) (none : Option Node).toList =
        Node.headingsAll [] (OpenTag.settle v none o.stack).toList :=
      OpenTag.stackHeadings_nil (by simp)
    simp only [Option.toList_none, Node.headingsAll_nil, List.append_nil] at hstack
    rw [List.foldl_nil, Token.structural, headings, hstack]
    simp [finish, Token.headings, Node.headingsAll_append]
  | cons token tokens ih =>
    rw [List.foldl_cons, ih (isFlat_take_token hflat token), inside?_take hflat, Token.structural,
      headings_take]

end Outline

namespace Token

variable {v : Vocabulary} {names : List String} {t : Tag}

theorem map_name_headings (v : Vocabulary) (names : List String) (tokens : List Token) :
    (headings v names tokens).map Heading.name = (openings tokens).map Tag.name := by
  induction tokens generalizing names with
  | nil => rfl
  | cons token tokens ih =>
    rw [headings, openings, List.filterMap_cons]
    cases h : token.opening? with
    | none => simpa [openings] using ih _
    | some t => simpa [openings, OpenTag.heading] using ih _

theorem headings_getElem? (hc : t.closing = false) (before after : List Token) :
    (headings v names (before ++ .tag t :: after))[(openings before).length]? =
      some ((⟨t.name, [], []⟩ : OpenTag).heading v (openNames names before) [] after) := by
  induction before generalizing names with
  | nil =>
    have hopening : (Token.tag t).opening? = some t := by simp [opening?, hc]
    rw [List.nil_append, headings, hopening]
    rfl
  | cons token before ih =>
    have hnext : openNames names (token :: before) = openNames (openNext names token) before := rfl
    rw [List.cons_append, headings, openings, List.filterMap_cons, hnext]
    cases h : token.opening? with
    | none => simpa [openings] using ih
    | some u => simpa [openings] using ih

end Token

theorem Document.map_ofStop_walk_parse (v : Vocabulary) (text : String) :
    (parse v text).walk.map Heading.ofStop =
      Token.headings v [] (Token.structural v none (Token.scan v text.toList)) := by
  rw [map_ofStop_walk, parse, ofTokens, Outline.headings_finish_foldl (Outline.isFlat_empty v)]
  simp [Outline.headings, Outline.inside?, Outline.names, OpenTag.stackHeadings]

/-- The node of an opening tag stands in the document where the tag stands among the opening tags. -/
theorem Document.exists_walk_parse {v : Vocabulary} {text : String} {before after : List Token} {t : Tag}
    (htokens : Token.structural v none (Token.scan v text.toList) = before ++ .tag t :: after)
    (hc : t.closing = false) : ∃ above n,
      (parse v text).walk[(Token.openings before).length]? = some (above, n) ∧
      Heading.ofStop (above, n) =
        (⟨t.name, [], []⟩ : OpenTag).heading v (Token.openNames [] before) [] after := by
  have hheading : (Token.headings v [] (before ++ .tag t :: after))[(Token.openings before).length]? =
      some ((⟨t.name, [], []⟩ : OpenTag).heading v (Token.openNames [] before) [] after) :=
    Token.headings_getElem? hc before after
  rw [← htokens, ← map_ofStop_walk_parse, List.getElem?_map, Option.map_eq_some_iff] at hheading
  obtain ⟨⟨above, n⟩, hstop, hn⟩ := hheading
  exact ⟨above, n, hstop, hn⟩

/-- Every opening tag that is structure makes one node, and in the document the nodes begin in the
order of these tags, each inside the nodes of the tags that are open there. A node is complete
exactly when its tag ends with its own closing tag. If the tag is not verbatim, its node is a leaf
exactly when no tag opens before it ends, and the leaf shows the source up to there, trimmed, short
of the fragment of a tag at the end of the text. -/
theorem parse_keeps_order (v : Vocabulary) (text : String) :
    let tokens := Token.structural v none (Token.scan v text.toList)
    let walk := (Document.parse v text).walk
    walk.map (fun stop ↦ stop.2.name) = (Token.openings tokens).map Tag.name ∧
    ∀ before t after, tokens = before ++ .tag t :: after → t.closing = false →
      let outer := Token.openNames [] before
      let extent := Token.extent t.name outer [] after
      ∃ source rest above n,
        text.toList = before.flatMap Token.lexeme ++ (t.lexeme ++ (source ++ rest)) ∧
        source = extent.1.flatMap Token.lexeme ∧
        walk[(Token.openings before).length]? = some (above, n) ∧
        n.name = t.name ∧ above.map Node.name = outer ∧
        (n.complete = true ↔ extent.2 = .own) ∧
        (v.isVerbatim t.name = false →
          (n.isLeaf = true ↔ Token.openings extent.1 = []) ∧
          (n.isLeaf = true → n.text? = some (String.ofList (Text.trim
            (if extent.2 = .never then v.withoutFragment source else source))))) := by
  intro tokens walk
  refine ⟨?_, ?_⟩
  · have hnames : walk.map (fun stop ↦ stop.2.name) =
        (walk.map Heading.ofStop).map Heading.name := by
      rw [List.map_map]
      rfl
    rw [hnames, Document.map_ofStop_walk_parse, Token.map_name_headings]
  · intro before t after htokens hc outer extent
    obtain ⟨above, n, hstop, hn⟩ := Document.exists_walk_parse htokens hc
    obtain ⟨rest, hrest⟩ := Token.extent_isPrefix t.name outer [] after
    have htext : text.toList = tokens.flatMap Token.lexeme := by
      rw [Token.flatMap_lexeme_structural, Token.flatMap_lexeme_scan]
    have hname : n.name = t.name := congrArg Heading.name hn
    have habove : above.map Node.name = outer := congrArg Heading.above hn
    have hcomplete : n.complete = (extent.2 == .own) := congrArg Heading.complete hn
    have htext? : n.text? = if (Token.openings extent.1).isEmpty then
        some (String.ofList (OpenTag.shown v t.name (extent.1.flatMap Token.lexeme)
          (extent.2 == .never))) else none := congrArg Heading.text? hn
    have hleaf : n.isLeaf = (Token.openings extent.1).isEmpty := by
      have hisSome : n.isLeaf = n.text?.isSome := by cases n <;> rfl
      rw [hisSome, htext?]
      cases (Token.openings extent.1).isEmpty <;> rfl
    refine ⟨_, rest.flatMap Token.lexeme, above, n, ?_, rfl, hstop, hname, habove, ?_, ?_⟩
    · rw [htext, htokens, List.flatMap_append, List.flatMap_cons, ← hrest, List.flatMap_append]
      rfl
    · rw [hcomplete, beq_iff_eq]
    · intro hverb
      refine ⟨by rw [hleaf, List.isEmpty_iff], ?_⟩
      intro h
      rw [htext?, if_pos (hleaf ▸ h), OpenTag.shown, hverb]
      simp

theorem parse_keeps_order_misnested :
    let text := "<response><thought>a<type>b</response>c</thought>"
    ∃ before t after,
      Token.structural .standard none (Token.scan .standard text.toList) =
        before ++ .tag t :: after ∧ t.closing = false ∧
      ∃ above n, (Document.parse .standard text).walk[1]? = some (above, n) ∧
        n.name = "thought" ∧ above.map Node.name = ["response"] ∧ n.complete = false := by
  intro text
  let after : List Token := [.text ['a'], .tag ⟨false, "type".toList, []⟩, .text ['b'],
    .tag ⟨true, "response".toList, []⟩, .text ['c'], .tag ⟨true, "thought".toList, []⟩]
  have htokens : Token.structural .standard none (Token.scan .standard text.toList) =
      [.tag ⟨false, "response".toList, []⟩] ++ .tag ⟨false, "thought".toList, []⟩ :: after := by
    decide +kernel
  have hending : (Token.extent "thought" ["response"] [] after).2 = .enclosing := by decide +kernel
  obtain ⟨-, -, above, n, -, -, hstop, hname, habove, hcomplete, -⟩ :=
    (parse_keeps_order .standard text).2 _ _ _ htokens rfl
  have hopen : n.complete = false := by
    rw [← Bool.not_eq_true, hcomplete]
    exact fun h ↦ absurd (hending.symm.trans h) (by decide)
  exact ⟨_, _, _, htokens, rfl, above, n, hstop, hname, habove, hopen⟩

end AgentReply
