import AgentReply.Proofs.Markup.HoldBack
import AgentReply.Proofs.Markup.Outline

/-!
# Reading what has been written

A forest is written with an opening and a closing tag for each node, in any case and with blanks where
they mean nothing. Reading such a text gives the forest back. The tags that stand in the text of a leaf
are mere text there, no tag is formed across the border between a text and a tag, and each closing tag
finds its own tag as the innermost one that is open.
-/

namespace AgentReply

open Text (IsGap)

/-- A tag that opens or closes a name, with any case of the letters and any blanks behind them. -/
structure Tag.Writes (t : Tag) (closing : Bool) (name : String) : Prop where
  closing_eq : t.closing = closing
  name_eq : t.name = name
  isGap : IsGap t.padding

/-- A complete node that can be written inside open tags of the names `above`. -/
inductive Node.Writable (v : Vocabulary) : List String → Node → Prop
  /-- A verbatim payload may hold anything but its own closing tag. -/
  | verbatim {above : List String} {name text : String} (hknown : v.isKnown name = true)
      (hverb : v.isVerbatim name = true)
      (htags : ∀ t : Tag, t.IsOf v → t.lexeme <:+: text.toList →
        t.closing = true → t.name ≠ name) :
      Writable v above (.leaf name text true)
  /-- The text of another leaf has no opening tag, and no closing tag of a tag around it. -/
  | leaf {above : List String} {name text : String} (hknown : v.isKnown name = true)
      (hverb : v.isVerbatim name = false) (htrim : Text.trim text.toList = text.toList)
      (htags : ∀ t : Tag, t.IsOf v → t.lexeme <:+: text.toList →
        t.closing = true ∧ t.name ∉ name :: above) :
      Writable v above (.leaf name text true)
  | branch {above : List String} {name : String} {children : List Node}
      (hknown : v.isKnown name = true) (hverb : v.isVerbatim name = false) (hne : children ≠ [])
      (hchildren : ∀ n ∈ children, Writable v (name :: above) n) :
      Writable v above (.branch name children true)

/-- A forest written as a text. Blanks may stand between tags and around texts, but not around a
verbatim payload. -/
inductive Written (v : Vocabulary) : List Node → List Char → Prop
  | nil {gap : List Char} (hgap : IsGap gap) : Written v [] gap
  | leaf {name text : String} {complete : Bool} {nodes : List Node} {first last : Tag}
      {gap before after tail : List Char} (hgap : IsGap gap) (hfirst : first.Writes false name)
      (hlast : last.Writes true name) (hbefore : IsGap before) (hafter : IsGap after)
      (hverb : v.isVerbatim name = true → before = [] ∧ after = []) (htail : Written v nodes tail) :
      Written v (.leaf name text complete :: nodes)
        (gap ++ (first.lexeme ++ (before ++ text.toList ++ after ++ (last.lexeme ++ tail))))
  | branch {name : String} {complete : Bool} {children nodes : List Node} {first last : Tag}
      {gap inner tail : List Char} (hgap : IsGap gap) (hfirst : first.Writes false name)
      (hlast : last.Writes true name) (hinner : Written v children inner)
      (htail : Written v nodes tail) :
      Written v (.branch name children complete :: nodes)
        (gap ++ (first.lexeme ++ (inner ++ (last.lexeme ++ tail))))

theorem Tag.Writes.isOf {v : Vocabulary} (hv : v.IsPlain) {t : Tag} {closing : Bool} {name : String}
    (h : t.Writes closing name) (hknown : v.isKnown name = true) : t.IsOf v := by
  have hmem : name ∈ v.known := by simpa [Vocabulary.isKnown] using hknown
  have hspell : t.spelling.map Char.toLower = name.toList := by
    rw [← h.name_eq, Vocabulary.toList_name]
  exact Vocabulary.isOf_closing.2 (Vocabulary.isOf_of_map_toLower hv hmem hspell h.isGap)

/-! ### Tags that are spelled as their names -/

theorem Tag.writes_name {name : String} (hlower : name.toList.map Char.toLower = name.toList)
    (closing : Bool) : (⟨closing, name.toList, []⟩ : Tag).Writes closing name :=
  ⟨rfl, by rw [Tag.name, hlower, String.ofList_toList], Text.isGap_nil⟩

namespace Written

variable {v : Vocabulary} {children nodes : List Node} {inner tail : List Char}

theorem leaf_name (name text : String) (complete : Bool)
    (hlower : name.toList.map Char.toLower = name.toList) (htail : Written v nodes tail) :
    Written v (.leaf name text complete :: nodes) ((⟨false, name.toList, []⟩ : Tag).lexeme ++
      (text.toList ++ ((⟨true, name.toList, []⟩ : Tag).lexeme ++ tail))) := by
  have hleaf : Written v (.leaf name text complete :: nodes) _ :=
    .leaf Text.isGap_nil (Tag.writes_name hlower false) (Tag.writes_name hlower true)
      Text.isGap_nil Text.isGap_nil (fun _ ↦ ⟨rfl, rfl⟩) htail
  simpa using hleaf

theorem branch_name (name : String) (complete : Bool)
    (hlower : name.toList.map Char.toLower = name.toList) (hinner : Written v children inner)
    (htail : Written v nodes tail) :
    Written v (.branch name children complete :: nodes) ((⟨false, name.toList, []⟩ : Tag).lexeme ++
      (inner ++ ((⟨true, name.toList, []⟩ : Tag).lexeme ++ tail))) :=
  .branch Text.isGap_nil (Tag.writes_name hlower false) (Tag.writes_name hlower true) hinner htail

end Written

namespace Outline

variable {v : Vocabulary} {o : Outline} {t : Tag} {s tail : List Char}

/-! ### Tags that are text -/

/-- A tag that is mere text after an outline and any text that follows it. -/
def IsText (v : Vocabulary) (o : Outline) (t : Tag) : Prop :=
  ∀ p, (o.extend p).take v (.tag t) = (o.extend p).extend t.lexeme

theorem IsText.extend (h : o.IsText v t) (p : List Char) : (o.extend p).IsText v t := by
  intro q
  rw [extend_extend]
  exact h (p ++ q)

theorem isText_of_isVerbatim {top : OpenTag} {outer : List OpenTag} {nodes : List Node}
    {loose : List Loose} {pending : List Char} (hverb : v.isVerbatim top.name = true)
    (h : t.closing = true → t.name ≠ top.name) :
    IsText v ⟨top :: outer, nodes, loose, pending⟩ t := by
  intro p
  apply take_of_ignores
  simp only [extend, ignores_cons, OpenTag.name_extend, hverb, Bool.true_and]
  cases hc : t.closing with
  | false => simp
  | true => simpa using Ne.symm (h hc)

theorem isText_of_stray {top : OpenTag} {outer : List OpenTag} {nodes : List Node}
    {loose : List Loose} {pending : List Char} (hc : t.closing = true)
    (h : t.name ∉ (top :: outer).map OpenTag.name) :
    IsText v ⟨top :: outer, nodes, loose, pending⟩ t := by
  intro p
  cases hi : ignores v (extend ⟨top :: outer, nodes, loose, pending⟩ p) t with
  | true => exact take_of_ignores hi
  | false =>
    have hn : OpenTag.closeNamed? v t.name none (top.extend p :: outer) = none := by
      rw [OpenTag.closeNamed?_eq_none_iff]
      intro u hu hname
      apply h
      rw [← hname]
      rcases List.mem_cons.1 hu with rfl | hu
      · exact List.mem_cons_self
      · exact List.mem_cons_of_mem _ (List.mem_map_of_mem hu)
    rw [take_stray hi hc hn, skip_of_stack_cons (List.cons_ne_nil _ _)]

/-- A text whose tags are all mere text, up to the end or the next `<`. -/
theorem read_text (hs : ∀ t : Tag, t.IsOf v → t.lexeme <:+: s → o.IsText v t)
    (htail : ∀ c ∈ tail.head?, c = '<') : read v o (s ++ tail) = read v (o.extend s) tail := by
  induction s using Token.scan.induct v generalizing o with
  | case1 => simp
  | case2 c s t rest h ih =>
    obtain ⟨ht, heq⟩ := Tag.read?_eq_some_iff.1 h
    have htake : o.take v (.tag t) = o.extend t.lexeme := by
      simpa using hs t ht ⟨[], rest, by simp [heq]⟩ []
    rw [heq, List.append_assoc, read_lexeme ht, htake, ih, extend_extend]
    intro u hu hin
    refine (hs u hu ?_).extend _
    rw [heq]
    exact hin.trans (List.suffix_append _ _).isInfix
  | case3 c s h ih =>
    have hnone : Tag.read? v (c :: (s ++ tail)) = none := by
      cases he : Tag.read? v (c :: (s ++ tail)) with
      | none => rfl
      | some r =>
        -- the rest of such a tag would begin with `<`
        obtain ⟨g, hg, hlex, rfl⟩ := Tag.exists_lexeme_eq_append h he
        obtain ⟨d, g, rfl⟩ := List.exists_cons_of_ne_nil hg
        obtain rfl : d = '<' := htail d rfl
        have hmem : '<' ∈ s ++ '<' :: g := by simp
        exact absurd hmem (Tag.open_notMem_of_lexeme_eq (Tag.read?_eq_some_iff.1 he).1 hlex)
    rw [List.cons_append, read_of_char hnone, ih, extend_extend, List.singleton_append]
    intro u hu hin
    exact (hs u hu (hin.trans (List.suffix_cons _ _).isInfix)).extend _

/-! ### Nodes that are added -/

/-- An outline to which nodes have been added where it stands. What it has pending is blank, and so is
no run of loose text. -/
inductive Adds (v : Vocabulary) : Outline → List Node → Outline → Prop
  | outside {done : List Node} {loose : List Loose} {p q : List Char} (nodes : List Node)
      (hp : IsGap p) (hq : IsGap q) :
      Adds v ⟨[], done, loose, p⟩ nodes ⟨[], done ++ nodes, loose, q⟩
  | inside {top : OpenTag} {outer : List OpenTag} {done : List Node} {loose : List Loose}
      {q : List Char} (nodes : List Node) (hverb : v.isVerbatim top.name = false) :
      Adds v ⟨top :: outer, done, loose, []⟩ nodes
        ⟨⟨top.name, q, top.children ++ nodes⟩ :: outer, done, loose, []⟩

namespace Adds

variable {o' o'' : Outline} {xs ys : List Node}

theorem trans (h : Adds v o xs o') (h' : Adds v o' ys o'') : Adds v o (xs ++ ys) o'' := by
  cases h with
  | outside _ hp hq =>
    cases h' with
    | outside _ hp' hq' =>
      rw [List.append_assoc]
      exact .outside _ hp hq'
  | inside _ hverb =>
    cases h' with
    | inside _ hverb' =>
      rw [List.append_assoc]
      exact .inside _ hverb

theorem ready (h : Adds v o xs o') : Adds v o' [] o' := by
  cases h with
  | outside _ hp hq => simpa using Adds.outside (v := v) [] hq hq
  | @inside top outer done loose q _ hverb =>
    have hready : Adds v ⟨⟨top.name, q, top.children ++ xs⟩ :: outer, done, loose, []⟩ []
        ⟨⟨top.name, q, (top.children ++ xs) ++ []⟩ :: outer, done, loose, []⟩ := .inside [] hverb
    simpa using hready

theorem names_eq (h : Adds v o xs o') :
    o'.stack.map OpenTag.name = o.stack.map OpenTag.name := by
  cases h <;> rfl

theorem gap (h : Adds v o xs o') {gap : List Char} (hgap : IsGap gap) :
    Adds v o xs (o'.extend gap) := by
  cases h with
  | outside _ hp hq => exact .outside _ hp (Text.isGap_append.2 ⟨hq, hgap⟩)
  | inside _ hverb => exact .inside _ hverb

theorem addNode (h : Adds v o xs o') (n : Node) :
    Adds v o (xs ++ [n]) (Outline.addNode ⟨o'.stack, o'.nodes, o'.loose, []⟩ n) := by
  cases h with
  | @outside done loose p q _ hp hq =>
    simp only [Outline.addNode]
    rw [List.append_assoc]
    exact .outside _ hp Text.isGap_nil
  | @inside top outer done loose q _ hverb =>
    simp only [Outline.addNode, OpenTag.addChild]
    rw [List.append_assoc]
    exact .inside _ hverb

theorem take_first (h : Adds v o xs o') (hc : t.closing = false) :
    o'.take v (.tag t) = ⟨⟨t.name, [], []⟩ :: o'.stack, o'.nodes, o'.loose, []⟩ := by
  cases h with
  | outside _ hp hq => rw [take_open rfl hc, Loose.addRun_of_isGap hq]
  | inside _ hverb =>
    rw [take_open (by simp [hverb]) hc, Loose.addRun_nil]

end Adds

theorem finish_of_adds {w : Vocabulary} {nodes : List Node} (h : Adds v {} nodes o) :
    o.finish w = ⟨nodes, []⟩ := by
  cases h with
  | @outside _ _ _ q _ hp hq =>
    have hgap : IsGap (w.withoutFragment q) :=
      hq.of_isPrefix (Vocabulary.beforeFragment_isPrefix w.mayGrow q)
    rw [finish_of_stack_nil, Loose.addRun_of_isGap hgap, List.nil_append]

theorem take_last {top : OpenTag} {outer : List OpenTag} {nodes : List Node} {loose : List Loose}
    (h : t.Writes true top.name) :
    take v ⟨top :: outer, nodes, loose, []⟩ (.tag t) =
      addNode ⟨outer, nodes, loose, []⟩ (top.closed v true) := by
  have hi : ignores v ⟨top :: outer, nodes, loose, []⟩ t = false := by
    simp [h.closing_eq, h.name_eq]
  have hn : OpenTag.closeNamed? v t.name none (top :: outer) = some (top.closed v true, outer) := by
    rw [OpenTag.closeNamed?_none_cons, if_pos h.name_eq.symm]
  exact take_close hi h.closing_eq hn

/-! ### Reading a written forest -/

theorem read_gap (hs : IsGap s) (tail : List Char) : read v o (s ++ tail) = read v (o.extend s) tail :=
  read_append_of_notMem (hs.notMem (by decide)) tail

theorem head?_lexeme_append (t : Tag) (tail : List Char) :
    ∀ c ∈ (t.lexeme ++ tail).head?, c = '<' := by
  simp [Tag.lexeme_eq]

theorem isText_of_writable {name text : String} {payload : List Char} {outer : List OpenTag}
    {nodes : List Node} {loose : List Loose}
    (hw : (Node.leaf name text true).Writable v (outer.map OpenTag.name)) (ht : t.IsOf v)
    (hin : t.lexeme <:+: text.toList) :
    IsText v ⟨⟨name, payload, []⟩ :: outer, nodes, loose, []⟩ t := by
  cases hw with
  | verbatim hknown hverb htags =>
    exact isText_of_isVerbatim hverb (htags t ht hin)
  | leaf hknown hverb htrim htags =>
    exact isText_of_stray (htags t ht hin).1 (htags t ht hin).2

theorem closed_of_writable {name text : String} {above : List String} {before after : List Char}
    (hw : (Node.leaf name text true).Writable v above) (hbefore : IsGap before)
    (hafter : IsGap after) (hverb : v.isVerbatim name = true → before = [] ∧ after = []) :
    OpenTag.closed v ⟨name, before ++ text.toList ++ after, []⟩ true = .leaf name text true := by
  cases hw with
  | verbatim hknown hv htags =>
    obtain ⟨rfl, rfl⟩ := hverb hv
    simp [OpenTag.closed, OpenTag.toNode, hv]
  | leaf hknown hv htrim htags =>
    simp [OpenTag.closed, OpenTag.toNode, hv, Text.trim_append_gap _ hafter,
      Text.trim_gap_append hbefore, htrim]

theorem read_leaf (tail : List Char) {name text : String} {first last : Tag}
    {before after : List Char} {xs : List Node} {o' : Outline} (hv : v.IsPlain) (h : Adds v o xs o')
    (hw : (Node.leaf name text true).Writable v (o'.stack.map OpenTag.name))
    (hfirst : first.Writes false name) (hlast : last.Writes true name) (hbefore : IsGap before)
    (hafter : IsGap after) (hverb : v.isVerbatim name = true → before = [] ∧ after = []) :
    read v o' (first.lexeme ++ (before ++ text.toList ++ after ++ (last.lexeme ++ tail))) =
      read v (addNode ⟨o'.stack, o'.nodes, o'.loose, []⟩ (.leaf name text true)) tail := by
  have hknown : v.isKnown name = true := by cases hw <;> assumption
  have hpayload : ∀ t : Tag, t.IsOf v → t.lexeme <:+: before ++ text.toList ++ after →
      IsText v ⟨⟨name, [], []⟩ :: o'.stack, o'.nodes, o'.loose, []⟩ t := by
    intro t ht hin
    have hin := Tag.infix_of_infix_append_gap hafter hin
    exact isText_of_writable hw ht (Tag.infix_of_infix_gap_append hbefore hin)
  rw [read_lexeme (hfirst.isOf hv hknown), h.take_first hfirst.closing_eq, hfirst.name_eq,
    read_text hpayload (head?_lexeme_append last tail), read_lexeme (hlast.isOf hv hknown)]
  simp only [extend, OpenTag.extend, List.nil_append]
  rw [take_last hlast, closed_of_writable hw hbefore hafter hverb]

theorem read_branch (inner tail : List Char) {name : String} {children : List Node}
    {first last : Tag} {xs : List Node} {o' : Outline} (hv : v.IsPlain) (h : Adds v o xs o')
    (hknown : v.isKnown name = true) (hverb : v.isVerbatim name = false) (hne : children ≠ [])
    (hfirst : first.Writes false name) (hlast : last.Writes true name)
    (hinner : ∀ o : Outline, Adds v o [] o →
      o.stack.map OpenTag.name = name :: o'.stack.map OpenTag.name →
        ∃ o'', Adds v o children o'' ∧
          read v o (inner ++ (last.lexeme ++ tail)) = read v o'' (last.lexeme ++ tail)) :
    read v o' (first.lexeme ++ (inner ++ (last.lexeme ++ tail))) =
      read v (addNode ⟨o'.stack, o'.nodes, o'.loose, []⟩ (.branch name children true)) tail := by
  rw [read_lexeme (hfirst.isOf hv hknown), h.take_first hfirst.closing_eq, hfirst.name_eq]
  have hopen : Adds v ⟨⟨name, [], []⟩ :: o'.stack, o'.nodes, o'.loose, []⟩ []
      ⟨⟨name, [], []⟩ :: o'.stack, o'.nodes, o'.loose, []⟩ := .inside [] hverb
  obtain ⟨o'', hadds, hread⟩ := hinner _ hopen rfl
  rw [hread, read_lexeme (hlast.isOf hv hknown)]
  cases hadds with
  | inside _ _ =>
    rw [take_last hlast]
    cases children with
    | nil => exact absurd rfl hne
    | cons c cs => rfl

/-- A written forest is read into the nodes that it was written from. -/
theorem exists_read_written (hv : v.IsPlain) {nodes : List Node} (tail : List Char)
    (hs : Written v nodes s) (ho : Adds v o [] o)
    (hw : ∀ n ∈ nodes, n.Writable v (o.stack.map OpenTag.name)) (htail : ∀ c ∈ tail.head?, c = '<') :
    ∃ o', Adds v o nodes o' ∧ read v o (s ++ tail) = read v o' tail := by
  induction hs generalizing o tail with
  | nil hgap => exact ⟨_, ho.gap hgap, read_gap hgap tail⟩
  | @leaf name text complete nodes first last gap before after rest hgap hfirst hlast hbefore
      hafter hverb htl ih =>
    have hgapped := ho.gap hgap
    rw [← hgapped.names_eq] at hw
    have hleaf := hw _ List.mem_cons_self
    obtain rfl : complete = true := by cases hleaf <;> rfl
    have hadded := hgapped.addNode (.leaf name text true)
    obtain ⟨o', ho', hread⟩ := ih tail hadded.ready (fun n hn ↦ by
      rw [hadded.names_eq, ← hgapped.names_eq]
      exact hw n (List.mem_cons_of_mem _ hn)) htail
    refine ⟨o', hadded.trans ho', ?_⟩
    have hnode := read_leaf (rest ++ tail) hv hgapped hleaf hfirst hlast hbefore hafter hverb
    simp only [List.append_assoc] at hnode ⊢
    rw [read_gap hgap, hnode, hread]
  | @branch name complete children nodes first last gap inner rest hgap hfirst hlast hin htl
      ihin ihtl =>
    have hgapped := ho.gap hgap
    rw [← hgapped.names_eq] at hw
    have hbranch := hw _ List.mem_cons_self
    cases hbranch with
    | branch hknown hverb hne hchildren =>
      have hadded := hgapped.addNode (.branch name children true)
      obtain ⟨o', ho', hread⟩ := ihtl tail hadded.ready (fun n hn ↦ by
        rw [hadded.names_eq, ← hgapped.names_eq]
        exact hw n (List.mem_cons_of_mem _ hn)) htail
      refine ⟨o', hadded.trans ho', ?_⟩
      -- The children are read within the tag, where the induction on the forest inside applies.
      have hnode := read_branch inner (rest ++ tail) hv hgapped hknown hverb hne
        hfirst hlast fun o₁ ho₁ hnames ↦ ihin _ ho₁ (hnames ▸ hchildren) (head?_lexeme_append _ _)
      simp only [List.append_assoc] at hnode ⊢
      rw [read_gap hgap, hnode, hread]

/-- Nothing but the nodes is left of a written forest, whatever is held back at its end. -/
theorem finish_read_written (hv : v.IsPlain) {nodes : List Node} (hs : Written v nodes s)
    (hw : ∀ n ∈ nodes, n.Writable v []) (w : Vocabulary) : (read v {} s).finish w = ⟨nodes, []⟩ := by
  have hempty : Adds v {} [] {} := .outside [] Text.isGap_nil Text.isGap_nil
  obtain ⟨o, hadds, hread⟩ := exists_read_written hv [] hs hempty hw (by simp)
  rw [List.append_nil, read_nil] at hread
  rw [hread, finish_of_adds hadds]

end Outline

/-- Reading undoes writing: a forest that can be written is read back from each text that it is
written as, and no text is left outside of it. -/
theorem parse_of_written {v : Vocabulary} (hv : v.IsPlain) {nodes : List Node} {text : String}
    (hw : ∀ n ∈ nodes, n.Writable v []) (hs : Written v nodes text.toList) :
    Document.parse v text = ⟨nodes, []⟩ := by
  rw [Outline.parse_eq_finish]
  exact Outline.finish_read_written hv hs hw v

theorem parse_of_written_nested :
    Vocabulary.standard.IsPlain ∧
      Document.parse .standard
        " <Response >\n<THOUGHT>a <b </type> </thought\t><content>x</thought></content></response>" =
          ⟨[.branch "response" [.leaf "thought" "a <b </type>" true,
            .leaf "content" "x</thought>" true] true], []⟩ := by
  have hv : Vocabulary.standard.IsPlain := by decide +kernel
  refine ⟨hv, parse_of_written hv ?_ ?_⟩
  · simp only [List.mem_singleton, forall_eq]
    refine .branch (by decide +kernel) (by decide +kernel) (by simp) ?_
    simp only [List.mem_cons, List.not_mem_nil, or_false, forall_eq_or_imp, forall_eq]
    constructor
    · exact .leaf (by decide +kernel) (by decide +kernel) (by decide +kernel)
        (Tag.forall_of_occurrences (by decide +kernel))
    · exact .verbatim (by decide +kernel) (by decide +kernel)
        (Tag.forall_of_occurrences (by decide +kernel))
  · have htext :
        " <Response >\n<THOUGHT>a <b </type> </thought\t><content>x</thought></content></response>".toList =
          [' '] ++ (Tag.lexeme ⟨false, "Response".toList, [' ']⟩ ++
            ((['\n'] ++ (Tag.lexeme ⟨false, "THOUGHT".toList, []⟩ ++
              ([] ++ "a <b </type>".toList ++ [' '] ++
                (Tag.lexeme ⟨true, "thought".toList, ['\t']⟩ ++
                  ([] ++ (Tag.lexeme ⟨false, "content".toList, []⟩ ++
                    ([] ++ "x</thought>".toList ++ [] ++
                      (Tag.lexeme ⟨true, "content".toList, []⟩ ++ [])))))))) ++
            (Tag.lexeme ⟨true, "response".toList, []⟩ ++ []))) := by
      decide +kernel
    rw [htext]
    refine .branch (by decide) ⟨rfl, by decide +kernel, by decide⟩
      ⟨rfl, by decide +kernel, by decide⟩ ?_ (.nil (by decide))
    refine .leaf (by decide) ⟨rfl, by decide +kernel, by decide⟩
      ⟨rfl, by decide +kernel, by decide⟩ (by decide) (by decide) (by decide +kernel) ?_
    exact .leaf (by decide) ⟨rfl, by decide +kernel, by decide⟩
      ⟨rfl, by decide +kernel, by decide⟩ (by decide) (by decide) (by decide +kernel)
      (.nil (by decide))

end AgentReply
