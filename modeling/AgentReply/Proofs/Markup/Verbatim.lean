import AgentReply.Proofs.Markup.CloseFragment
import AgentReply.Proofs.Markup.Streaming

/-!
# Verbatim payloads that are still arriving

Nothing opens inside a verbatim payload, so the open tag of one is the innermost one and its payload
is the source since its opening tag. Whatever comes next is payload too, up to the first closing tag
of its name. So its leaf stays at one path of the document, first unfinished and then complete, and
what has been shown of it is taken back in one case only: a closing tag has been cut off behind its
blanks.
-/

namespace AgentReply

/-- The node at a path of child indices. -/
def Node.at? : Node → List ℕ → Option Node
  | n, [] => some n
  | n, i :: path => (n.children[i]?).bind fun c ↦ c.at? path

def Document.at? (d : Document) : List ℕ → Option Node
  | [] => none
  | i :: path => (d.nodes[i]?).bind fun n ↦ n.at? path

variable {v : Vocabulary} {x y n : Node} {path : List ℕ}

theorem Node.at?_append (n : Node) (p q : List ℕ) :
    n.at? (p ++ q) = (n.at? p).bind fun c ↦ c.at? q := by
  induction p generalizing n with
  | nil => rfl
  | cons i p ih =>
    rw [List.cons_append, at?, at?, Option.bind_assoc]
    exact congrArg _ (funext fun c ↦ ih c)

theorem Node.Extends.at?_of_complete (h : x.Extends v y) (hat : x.at? path = some n)
    (hcomplete : n.complete = true) : y.at? path = some n := by
  induction path generalizing x y with
  | nil =>
    cases hat
    rw [h.complete_eq_false] at hcomplete
    cases hcomplete
  | cons i path ih =>
    obtain ⟨c, hc, hbelow⟩ := Option.bind_eq_some_iff.1 hat
    cases h with
    | leaf h => cases hc
    | opened h => cases hc
    | branch h =>
      obtain ⟨c', hc', rfl | ⟨-, hext⟩⟩ := h.getElem? hc
      · exact Option.bind_eq_some_iff.2 ⟨c', hc', hbelow⟩
      · exact Option.bind_eq_some_iff.2 ⟨c', hc', ih hext hbelow⟩

theorem Document.Extends.at?_of_complete {d d' : Document} (h : d.Extends v d')
    (hat : d.at? path = some n) (hcomplete : n.complete = true) : d'.at? path = some n := by
  cases path with
  | nil => cases hat
  | cons i path =>
    obtain ⟨c, hc, hat⟩ := Option.bind_eq_some_iff.1 hat
    obtain ⟨c', hc', rfl | ⟨-, hext⟩⟩ := h.nodes.getElem? hc
    · exact Option.bind_eq_some_iff.2 ⟨c', hc', hat⟩
    · exact Option.bind_eq_some_iff.2 ⟨c', hc', hext.at?_of_complete hat hcomplete⟩

namespace OpenTag

/-- The path through open tags, from the outermost one down to a node that is added to the
innermost. -/
def pathThrough (outer : List OpenTag) : List ℕ := (outer.map fun t ↦ t.children.length).reverse

theorem exists_settle_at? (x : Node) (outer : List OpenTag) :
    ∃ root, settle v (some x) outer = some root ∧ root.at? (pathThrough outer) = some x := by
  induction outer generalizing x with
  | nil => exact ⟨x, rfl, rfl⟩
  | cons top outer ih =>
    obtain ⟨root, hroot, hat⟩ := ih (.branch top.name (top.children ++ [x]) false)
    refine ⟨root, (settle_some_cons v x top outer).trans hroot, ?_⟩
    have hpath : pathThrough (top :: outer) = pathThrough outer ++ [top.children.length] := by
      simp [pathThrough]
    rw [hpath, Node.at?_append, hat, Option.bind_some, Node.at?]
    simp [Node.at?]

end OpenTag

namespace Outline

variable {o : Outline} {u : Tag} {s : List Char} {name : String} {payload : List Char}
  {outer : List OpenTag} {nodes : List Node} {loose : List Loose}

/-- The path of the innermost open tag in the document. -/
def openPath (o : Outline) : List ℕ := o.nodes.length :: OpenTag.pathThrough o.stack.tail

theorem at?_settle (x : Node) :
    (⟨nodes ++ (OpenTag.settle v (some x) outer).toList, loose⟩ : Document).at?
      (nodes.length :: OpenTag.pathThrough outer) = some x := by
  obtain ⟨root, hroot, hat⟩ := OpenTag.exists_settle_at? (v := v) x outer
  rw [hroot, Document.at?]
  simpa using hat

theorem at?_finish (top : OpenTag) :
    (finish v ⟨top :: outer, nodes, loose, []⟩).at? (nodes.length :: OpenTag.pathThrough outer) =
      some (top.unfinished v) := by
  rw [finish_of_pending_nil, OpenTag.settle_none_cons]
  exact at?_settle _

theorem at?_finish_addNode (n : Node) :
    (finish v (addNode ⟨outer, nodes, loose, []⟩ n)).at? (nodes.length :: OpenTag.pathThrough outer) =
      some n := by
  rw [finish_addNode]
  exact at?_settle n

theorem at?_finish_read (hv : v.IsPlain) (ho : o.IsTidy) (hat : (o.finish v).at? path = some n)
    (hcomplete : n.complete = true) (s : List Char) :
    ((read v o s).finish v).at? path = some n :=
  (finish_extends_read hv ho s).at?_of_complete hat hcomplete

/-! ### Where a payload begins -/

/-- Only the innermost open tag may be verbatim. -/
def IsFlat (v : Vocabulary) (o : Outline) : Prop := ∀ t ∈ o.stack.tail, v.isVerbatim t.name = false

theorem tail_extend (o : Outline) (s : List Char) : (o.extend s).stack.tail = o.stack.tail := by
  unfold extend
  split
  · next h => rw [h]
  · next h => rw [h]; rfl

theorem tail_addNode (o : Outline) (n : Node) : (o.addNode n).stack.tail = o.stack.tail := by
  unfold addNode
  split
  · next h => rw [h]
  · next h => rw [h]; rfl

theorem isFlat_empty (v : Vocabulary) : IsFlat v {} := by
  rintro t ⟨⟩

theorem isFlat_take (h : o.IsFlat v) (u : Tag) : (o.take v (.tag u)).IsFlat v := by
  cases takes v o u with
  | text _ htake =>
    rw [IsFlat, htake, tail_extend]
    exact h
  | stray hs htake =>
    rw [IsFlat, htake, flush_eq, hs]
    rintro t ⟨⟩
  | opens hi hc htake =>
    rw [htake]
    obtain ⟨stack, nodes, loose, pending⟩ := o
    cases stack with
    | nil => rintro t ⟨⟩
    | cons top outer =>
      have hverb : v.isVerbatim top.name = false := by simpa [hc] using hi
      exact List.forall_mem_cons.2 ⟨hverb, h⟩
  | closes node outer _ _ hn htake =>
    rw [IsFlat, htake, tail_addNode]
    intro t ht
    exact h t ((OpenTag.suffix_of_closeNamed? hn).subset (List.mem_of_mem_tail ht))

theorem isFlat_extend (h : o.IsFlat v) (s : List Char) : (o.extend s).IsFlat v := by
  rw [IsFlat, tail_extend]
  exact h

theorem isFlat_take_token (h : o.IsFlat v) (token : Token) : (o.take v token).IsFlat v := by
  cases token with
  | text run => exact isFlat_extend h run
  | tag u => exact isFlat_take h u

theorem exists_head?_of_extend {top : OpenTag} (h : top ∈ (o.extend s).stack.head?) :
    ∃ top' ∈ o.stack.head?, top'.name = top.name := by
  obtain ⟨stack, nodes, loose, pending⟩ := o
  cases stack with
  | nil => cases h
  | cons top' outer =>
    cases h
    exact ⟨top', rfl, rfl⟩

theorem exists_head?_of_addNode {top : OpenTag} (h : top ∈ (o.addNode n).stack.head?) :
    ∃ top' ∈ o.stack.head?, top'.name = top.name := by
  obtain ⟨stack, nodes, loose, pending⟩ := o
  cases stack with
  | nil => cases h
  | cons top' outer =>
    cases h
    exact ⟨top', rfl, rfl⟩

theorem isFlat_read (h : o.IsFlat v) (s : List Char) : (read v o s).IsFlat v :=
  read_keeps (P := IsFlat v) (fun _ token ho ↦ isFlat_take_token ho token) h s

/-- How the verbatim tag began that is open after a text: it was open before the text, and then all of
the text is payload, or it is opened in the text, and then all that follows is payload. -/
inductive Begins (v : Vocabulary) (o : Outline) (s : List Char) : Prop
  | before {top : OpenTag} (htop : top ∈ o.stack.head?) (hverb : v.isVerbatim top.name = true)
      (hread : read v o s = o.extend s)
  | inside {earlier payload : List Char} {opening : Tag}
      (hs : s = earlier ++ (opening.lexeme ++ payload)) (hopening : opening.IsOf v)
      (hc : opening.closing = false) (hi : (read v o earlier).ignores v opening = false)
      (hread : read v o s = ((read v o earlier).take v (.tag opening)).extend payload)

theorem Begins.of_tag {c : Char} {rest : List Char} (hread? : Tag.read? v (c :: s) = some (u, rest))
    (hflat : o.IsFlat v) (h : (o.take v (.tag u)).Begins v rest) : o.Begins v (c :: s) := by
  obtain ⟨hu, heq⟩ := Tag.read?_eq_some_iff.1 hread?
  cases h with
  | before htop hverb hread =>
    cases takes v o u with
    | text _ htake =>
      rw [htake] at htop hread
      obtain ⟨top', htop', hname⟩ := exists_head?_of_extend htop
      refine .before htop' (hname ▸ hverb) ?_
      rw [read_of_tag hread?, htake, hread, extend_extend, heq]
    | stray hs htake =>
      rw [htake, flush_eq, hs] at htop
      cases htop
    | opens hi hc htake =>
      have hnil : read v o [] = o := read_nil ..
      exact .inside heq hu hc (by rwa [hnil]) (by rw [hnil, read_of_tag hread?, hread])
    | closes node outer _ _ hn htake =>
      -- a tag that was around another one is not verbatim
      rw [htake] at htop
      obtain ⟨top', htop', hname⟩ := exists_head?_of_addNode htop
      have htail := (OpenTag.suffix_of_closeNamed? hn).subset (List.mem_of_mem_head? htop')
      rw [← hname, hflat top' htail] at hverb
      cases hverb
  | @inside earlier payload opening hs hopening hc hi hread =>
    have hearlier : read v o (u.lexeme ++ earlier) = read v (o.take v (.tag u)) earlier :=
      read_lexeme hu ..
    have hwhole : c :: s = (u.lexeme ++ earlier) ++ (opening.lexeme ++ payload) := by
      rw [heq, hs, List.append_assoc]
    exact .inside hwhole hopening hc (by rwa [hearlier]) (by rw [read_of_tag hread?, hread, hearlier])

theorem Begins.of_char {c : Char} (hread? : Tag.read? v (c :: s) = none)
    (h : (o.extend [c]).Begins v s) : o.Begins v (c :: s) := by
  cases h with
  | before htop hverb hread =>
    obtain ⟨top', htop', hname⟩ := exists_head?_of_extend htop
    refine .before htop' (hname ▸ hverb) ?_
    rw [read_of_char hread?, hread, extend_extend, List.singleton_append]
  | @inside earlier payload opening hs hopening hc hi hread =>
    -- a tag that is read where less of the text is there is read in all of it
    have hnone : Tag.read? v (c :: earlier) = none := by
      cases hr : Tag.read? v (c :: earlier) with
      | none => rfl
      | some r =>
        rw [hs] at hread?
        cases hread?.symm.trans (Tag.read?_append hr (opening.lexeme ++ payload))
    have hwhole : c :: s = (c :: earlier) ++ (opening.lexeme ++ payload) := congrArg (c :: ·) hs
    refine .inside hwhole hopening hc ?_ ?_
    · rwa [read_of_char hnone]
    · rw [read_of_char hread?, read_of_char hnone, hread]

theorem begins_of_mem_stack (hflat : o.IsFlat v) {t : OpenTag} (ht : t ∈ (read v o s).stack)
    (hverb : v.isVerbatim t.name = true) : o.Begins v s := by
  induction s using Token.scan.induct v generalizing o with
  | case1 =>
    rw [read_nil] at ht
    obtain ⟨stack, nodes, loose, pending⟩ := o
    cases stack with
    | nil => cases ht
    | cons top outer =>
      rcases List.mem_cons.1 ht with rfl | htail
      · exact .before rfl hverb ((read_nil ..).trans (extend_nil _).symm)
      · rw [hflat t htail] at hverb
        cases hverb
  | case2 c s u rest hread? ih =>
    rw [read_of_tag hread?] at ht
    exact .of_tag hread? hflat (ih (isFlat_take hflat u) ht)
  | case3 c s hread? ih =>
    rw [read_of_char hread?] at ht
    exact .of_char hread? (ih (isFlat_extend hflat [c]) ht)

/-! ### Where a payload ends -/

/-- An outline within the payload of a tag that has no children. -/
def within (name : String) (payload : List Char) (outer : List OpenTag) (nodes : List Node)
    (loose : List Loose) : Outline :=
  ⟨⟨name, payload, []⟩ :: outer, nodes, loose, []⟩

theorem extend_within (s : List Char) :
    (within name payload outer nodes loose).extend s =
      within name (payload ++ s) outer nodes loose := rfl

theorem isTidy_addNode_nil (n : Node) : (addNode ⟨outer, nodes, loose, []⟩ n).IsTidy := by
  cases outer <;> exact fun _ ↦ rfl

theorem take_within_close (hverb : v.isVerbatim name = true) (hc : u.closing = true)
    (hname : u.name = name) :
    (within name payload outer nodes loose).take v (.tag u) =
      addNode ⟨outer, nodes, loose, []⟩ (.leaf name (String.ofList payload) true) := by
  have hi : (within name payload outer nodes loose).ignores v u = false := by
    rw [within, ignores_cons, hc, hname]
    simp
  refine take_close hi hc ?_
  rw [within, OpenTag.closeNamed?_none_cons, if_pos hname.symm]
  simp [OpenTag.closed, OpenTag.toNode, hverb]

theorem take_within_of_closes (hverb : v.isVerbatim name = true) (hu : u.Closes v name) :
    (within name payload outer nodes loose).take v (.tag u) =
      addNode ⟨outer, nodes, loose, []⟩ (.leaf name (String.ofList payload) true) :=
  take_within_close hverb hu.closing hu.name_eq

theorem take_within_text (hverb : v.isVerbatim name = true)
    (hu : ¬(u.closing = true ∧ u.name = name)) :
    (within name payload outer nodes loose).take v (.tag u) =
      within name (payload ++ u.lexeme) outer nodes loose := by
  have hi : (within name payload outer nodes loose).ignores v u = true := by
    rw [within, ignores_cons, hverb, Bool.true_and, Bool.not_eq_true', ← Bool.not_eq_true,
      Bool.and_eq_true, beq_iff_eq]
    exact fun h ↦ hu ⟨h.1, h.2.symm⟩
  exact take_of_ignores hi

theorem take_within (hverb : v.isVerbatim name = true) (hu : u.IsOf v) :
    u.Closes v name ∨ (within name payload outer nodes loose).take v (.tag u) =
      within name (payload ++ u.lexeme) outer nodes loose := by
  by_cases h : u.closing = true ∧ u.name = name
  · exact .inl ⟨hu, h.1, h.2⟩
  · exact .inr (take_within_text hverb h)

/-- Inside a verbatim payload all is payload up to the first closing tag of its name. -/
theorem read_within (hverb : v.isVerbatim name = true) (payload s : List Char) :
    read v (within name payload outer nodes loose) s =
        within name (payload ++ s) outer nodes loose ∨
      ∃ a rest, read v (within name payload outer nodes loose) s =
        read v (addNode ⟨outer, nodes, loose, []⟩ (.leaf name (String.ofList (payload ++ a)) true))
          rest := by
  induction s using Token.scan.induct v generalizing payload with
  | case1 => exact .inl (by rw [read_nil, List.append_nil])
  | case2 c s u rest h ih =>
    obtain ⟨hu, heq⟩ := Tag.read?_eq_some_iff.1 h
    rw [read_of_tag h]
    have htake : u.Closes v name ∨ (within name payload outer nodes loose).take v (.tag u) =
        within name (payload ++ u.lexeme) outer nodes loose := take_within hverb hu
    rcases htake with hcloses | htext
    · exact .inr ⟨[], rest, by rw [take_within_of_closes hverb hcloses, List.append_nil]⟩
    · rw [htext]
      rcases ih (payload ++ u.lexeme) with hread | ⟨a, more, hread⟩
      · left
        rw [hread, heq, List.append_assoc]
      · right
        exact ⟨u.lexeme ++ a, more, by rw [hread, List.append_assoc]⟩
  | case3 c s h ih =>
    rw [read_of_char h, extend_within]
    rcases ih (payload ++ [c]) with hread | ⟨a, more, hread⟩
    · left
      rw [hread, List.append_assoc, List.singleton_append]
    · right
      exact ⟨c :: a, more, by rw [hread, List.append_assoc, List.singleton_append]⟩

/-! ### The leaf of a payload -/

theorem at?_finish_within (hverb : v.isVerbatim name = true) :
    (finish v (within name payload outer nodes loose)).at?
        (nodes.length :: OpenTag.pathThrough outer) =
      some (.leaf name (String.ofList (Vocabulary.withoutCloseFragment name payload)) false) := by
  rw [within, at?_finish]
  simp [OpenTag.unfinished, OpenTag.toNode, hverb]

theorem at?_finish_closed (hv : v.IsPlain) (text : String) (rest : List Char) :
    (finish v (read v (addNode ⟨outer, nodes, loose, []⟩ (.leaf name text true)) rest)).at?
      (nodes.length :: OpenTag.pathThrough outer) = some (.leaf name text true) :=
  at?_finish_read hv (isTidy_addNode_nil _) (at?_finish_addNode _) rfl rest

/-- The leaf of a verbatim payload stays at its path, and shows no less when more of the text is
known. -/
theorem exists_at?_read_within (hv : v.IsPlain) (hverb : v.isVerbatim name = true)
    (payload s : List Char) : ∃ later complete,
      (finish v (read v (within name payload outer nodes loose) s)).at?
          (nodes.length :: OpenTag.pathThrough outer) = some (.leaf name later complete) ∧
        Vocabulary.withoutCloseFragment name payload <+: later.toList := by
  rcases read_within hverb payload s with hread | ⟨a, rest, hread⟩
  · refine ⟨_, false, by rw [hread, at?_finish_within hverb], ?_⟩
    rw [String.toList_ofList]
    exact Vocabulary.withoutCloseFragment_prefix_append name payload s
  · refine ⟨_, true, by rw [hread, at?_finish_closed hv], ?_⟩
    rw [String.toList_ofList]
    exact (Vocabulary.beforeFragment_isPrefix _ payload).trans (List.prefix_append payload a)

theorem eq_within_of_extend {f : List Char}
    (h : o.extend f = within name payload outer nodes loose) :
    ∃ p, payload = p ++ f ∧ o = within name p outer nodes loose := by
  obtain ⟨stack, nodes', loose', pending⟩ := o
  cases stack with
  | nil => cases h
  | cons top rest =>
    obtain ⟨name', p, children⟩ := top
    cases h
    exact ⟨p, rfl, rfl⟩

theorem exists_eq_within {t : OpenTag} (ht : t ∈ (read v {} s).stack)
    (hverb : v.isVerbatim t.name = true) :
    ∃ (before : List Char) (opening : Tag), s = before ++ (opening.lexeme ++ t.payload) ∧
      opening.IsOf v ∧ opening.closing = false ∧ opening.name = t.name ∧
        (read v {} before).stack = (read v {} s).stack.tail ∧
          read v {} s = within t.name t.payload (read v {} s).stack.tail (read v {} s).nodes
            (read v {} s).loose := by
  have hflat := isFlat_read (isFlat_empty v) s
  cases begins_of_mem_stack (isFlat_empty v) ht hverb with
  | before htop => cases htop
  | @inside before payload opening hs hopening hc hi hread =>
    subst hs
    have hwithin : read v {} (before ++ (opening.lexeme ++ payload)) =
        within opening.name payload (read v {} before).stack (read v {} before).nodes
          (Loose.addRun (read v {} before).loose (read v {} before).nodes.length
            (read v {} before).pending) := by
      rw [hread, take_open hi hc]
      rfl
    rw [hwithin] at ht hflat ⊢
    rcases List.mem_cons.1 ht with rfl | hmem
    · exact ⟨before, opening, rfl, hopening, hc, rfl, rfl, rfl⟩
    · rw [hflat t hmem] at hverb
      cases hverb

/-- What is shown of a verbatim leaf that is still arriving is not taken back, unless it ends with a
closing tag that lacks its `>` and has blanks behind its name. -/
theorem exists_at?_read_append (hv : v.IsPlain) (hverb : v.isVerbatim name = true)
    (hs : read v {} s = within name payload outer nodes loose)
    (hpadded : ¬v.EndsPadded name payload) (e : List Char) : ∃ later complete,
      (finish v (read v {} (s ++ e))).at? (nodes.length :: OpenTag.pathThrough outer) =
          some (.leaf name later complete) ∧
        Vocabulary.withoutCloseFragment name payload <+: later.toList := by
  cases readsOn v {} s e with
  | clean hread =>
    rw [hread, hs]
    exact exists_at?_read_within hv hverb payload e
  | @inside s' rest f g t ht hg hlex _ hcut hread =>
    obtain ⟨p, rfl, hbefore⟩ := eq_within_of_extend (hcut.symm.trans hs)
    have htake : t.Closes v name ∨ (within name p outer nodes loose).take v (.tag t) =
        within name (p ++ t.lexeme) outer nodes loose := take_within hverb ht
    rw [hread, hbefore]
    rcases htake with hcloses | htext
    · -- the tag that reaches over the end of the text closes the payload
      rw [take_within_of_closes hverb hcloses]
      refine ⟨_, true, at?_finish_closed hv _ rest, ?_⟩
      rw [String.toList_ofList]
      exact Vocabulary.withoutCloseFragment_append_isPrefix ⟨t, hcloses, g, hg, hlex⟩ hpadded
    · rw [htext]
      obtain ⟨later, complete, hat, hshown⟩ := exists_at?_read_within hv hverb (p ++ t.lexeme) rest
      refine ⟨later, complete, hat, ?_⟩
      refine List.IsPrefix.trans ?_ hshown
      rw [hlex, ← List.append_assoc]
      exact Vocabulary.withoutCloseFragment_prefix_append name (p ++ f) g

end Outline

/-- While a verbatim tag is open its leaf shows the source since the opening tag, short of the
longest end that is the beginning of its closing tag, and nothing of it is taken back however the
text goes on. There is one exception: if the payload ends with a closing tag that lacks nothing but
its `>` and has blanks behind the name, the leaf shows all of it. -/
theorem parse_shows_verbatim {v : Vocabulary} (hv : v.IsPlain) (text : String) {t : OpenTag}
    (ht : t ∈ (Outline.read v {} text.toList).stack) (hverb : v.isVerbatim t.name = true) :
    let o := Outline.read v {} text.toList
    ∃ (before : List Char) (opening : Tag) (shown : List Char),
      text.toList = before ++ (opening.lexeme ++ t.payload) ∧
      (opening.IsOf v ∧ opening.closing = false ∧ opening.name = t.name) ∧
      (Outline.read v {} before).stack = o.stack.tail ∧
      (Document.parse v text).at? o.openPath = some (.leaf t.name (String.ofList shown) false) ∧
      (v.EndsPadded t.name t.payload → shown = t.payload) ∧
      (¬v.EndsPadded t.name t.payload →
        (∃ fragment, t.payload = shown ++ fragment ∧ Tag.BeginsClose v t.name fragment) ∧
        (∀ a fragment, t.payload = a ++ fragment → Tag.BeginsClose v t.name fragment →
          shown <+: a) ∧
        ∀ e : String, ∃ later complete,
          (Document.parse v (text ++ e)).at? o.openPath = some (.leaf t.name later complete) ∧
            shown <+: later.toList) := by
  intro o
  obtain ⟨before, opening, htext, hopening, hc, hname, hstack, hwithin⟩ :=
    Outline.exists_eq_within ht hverb
  have hn : t.name ∈ v.known := by simpa [Vocabulary.isKnown, hname] using hopening.isKnown
  refine ⟨before, opening, Vocabulary.withoutCloseFragment t.name t.payload, htext,
    ⟨hopening, hc, hname⟩, hstack, ?_, Vocabulary.withoutCloseFragment_of_endsPadded, ?_⟩
  · rw [Outline.parse_eq_finish, hwithin]
    exact Outline.at?_finish_within hverb
  · intro hpadded
    refine ⟨Vocabulary.exists_eq_withoutCloseFragment_append hv hn t.payload, ?_, ?_⟩
    · intro a fragment heq hfragment
      rw [heq] at hpadded ⊢
      exact Vocabulary.withoutCloseFragment_append_isPrefix hfragment hpadded
    · intro e
      rw [Outline.parse_eq_finish, String.toList_append]
      exact Outline.exists_at?_read_append hv hverb hwithin hpadded e.toList

theorem parse_shows_verbatim_cut :
    ∃ t ∈ (Outline.read .standard {} "<artifact><content>a < b</CON".toList).stack,
      Vocabulary.standard.IsPlain ∧ Vocabulary.standard.isVerbatim t.name = true ∧
        ¬Vocabulary.standard.EndsPadded t.name t.payload ∧
        ∀ e : String, ∃ later complete,
          (Document.parse .standard ("<artifact><content>a < b</CON" ++ e)).at? [0, 0] =
              some (.leaf "content" later complete) ∧
            "a < b".toList <+: later.toList := by
  have hv : Vocabulary.standard.IsPlain := by decide +kernel
  have hopen : ("content", "a < b</CON".toList) ∈
      (Outline.read .standard {} "<artifact><content>a < b</CON".toList).stack.map
        fun t ↦ (t.name, t.payload) := by decide +kernel
  have hpath : (Outline.read .standard {} "<artifact><content>a < b</CON".toList).openPath =
      [0, 0] := by decide +kernel
  have hleaf : (Document.parse .standard "<artifact><content>a < b</CON").at? [0, 0] =
      some (.leaf "content" "a < b" false) := by decide +kernel
  obtain ⟨t, ht, heq⟩ := List.mem_map.1 hopen
  obtain ⟨hname, hpayload⟩ := Prod.mk.inj heq
  have hverb : Vocabulary.standard.isVerbatim t.name = true := by
    rw [hname]
    decide +kernel
  have hpadded : ¬Vocabulary.standard.EndsPadded t.name t.payload := by
    rw [hpayload]
    intro h
    obtain ⟨c, hc, hblank⟩ := h.isBlank_getLast
    cases hc
    cases hblank
  obtain ⟨-, -, shown, -, -, -, hat, -, hmore⟩ := parse_shows_verbatim hv _ ht hverb
  rw [hpath, hleaf, hname] at hat
  have hshown : shown = "a < b".toList := by
    injection hat with h
    injection h with _ htext
    rw [htext, String.toList_ofList]
  refine ⟨t, ht, hv, hverb, hpadded, ?_⟩
  rw [← hshown, ← hpath, ← hname]
  exact (hmore hpadded).2.2

/-- Blanks behind the name of a closing tag are shown, and taken back with it when the `>` arrives.
-/
theorem parse_takes_back_padded_close :
    (Document.parse .standard "<content>x</content ").at? [0] =
        some (.leaf "content" "x</content " false) ∧
      Tag.BeginsClose .standard "content" "</content ".toList ∧
      (Document.parse .standard ("<content>x</content " ++ ">")).at? [0] =
        some (.leaf "content" "x" true) ∧
      ¬"x</content ".toList <+: "x".toList := by
  have hv : Vocabulary.standard.IsPlain := by decide +kernel
  have hn : "content" ∈ Vocabulary.standard.known := by decide +kernel
  have hspelling : "content".toList.map Char.toLower = "content".toList := by decide +kernel
  have hclose : Tag.Closes .standard "content" ⟨true, "content".toList, [' ']⟩ :=
    (Tag.closes_of_map_spelling hv hn hspelling).withPadding (by decide)
  refine ⟨by decide +kernel, ?_, by decide +kernel, by decide⟩
  exact ⟨_, hclose, ['>'], by simp, rfl⟩

end AgentReply
