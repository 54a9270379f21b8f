import AgentReply.Proofs.Markup.Order

/-!
# Verbatim payloads between their tags

The payload of a verbatim tag goes up to the first closing tag of its name. Until then no token is
structure, whatever tags there are: the outline stays within the payload, which gets every
character. With the closing tag the outline is the one from before the opening tag with one more
node. Without one the payload goes to the end of the text, and all tags around it stay open with it.
-/

namespace AgentReply

namespace Token

variable {v : Vocabulary} {name : String} {outer : List String} {token : Token} {t u : Tag}
  {before payload rest : List Token}

/-- None of the tokens is a closing tag of a name. -/
def LacksClose (name : String) (tokens : List Token) : Prop :=
  ∀ u, .tag u ∈ tokens → u.closing = true → u.name ≠ name

theorem LacksClose.of_cons (h : LacksClose name (token :: rest)) : LacksClose name rest :=
  fun u hu ↦ h u (List.mem_cons_of_mem token hu)

/-- A token as the text that it is inside a verbatim payload. -/
def verbatim (token : Token) : Token := .text token.lexeme

theorem flatMap_lexeme_map_verbatim (tokens : List Token) :
    (tokens.map verbatim).flatMap lexeme = tokens.flatMap lexeme := by
  rw [List.flatMap_map]
  rfl

@[simp] theorem openings_map_verbatim (tokens : List Token) :
    openings (tokens.map verbatim) = [] := by
  rw [openings, List.filterMap_map]
  exact List.filterMap_eq_nil_iff.2 fun _ _ ↦ rfl

theorem openings_append (a b : List Token) : openings (a ++ b) = openings a ++ openings b :=
  List.filterMap_append

theorem structural_cons_of_lacksClose (h : LacksClose name (token :: payload)) (rest : List Token) :
    structural v (some name) (token :: rest) = token.verbatim :: structural v (some name) rest := by
  cases token with
  | text run => rfl
  | tag u =>
    have hnot : (u.closing && u.name == name) = false := by
      have hu := h u List.mem_cons_self
      cases hc : u.closing with
      | false => rfl
      | true => simpa [hc] using hu
    simp [structural, countsAs, insideNext?, hnot, verbatim]

theorem structural_payload (h : LacksClose name payload) (rest : List Token) :
    structural v (some name) (payload ++ rest) =
      payload.map verbatim ++ structural v (some name) rest := by
  induction payload with
  | nil => rfl
  | cons token payload ih =>
    rw [List.cons_append, structural_cons_of_lacksClose h, ih h.of_cons]
    rfl

theorem structural_open (hc : t.closing = false) (hverb : v.isVerbatim t.name = true)
    (rest : List Token) :
    structural v none (.tag t :: rest) = .tag t :: structural v (some t.name) rest := by
  simp [structural, countsAs, insideNext?, hc, hverb]

theorem structural_close (hc : u.closing = true) (hname : u.name = name) (rest : List Token) :
    structural v (some name) (.tag u :: rest) = .tag u :: structural v none rest := by
  simp [structural, countsAs, insideNext?, hc, hname]

theorem structural_outside (hout : inside? v none before = none) (hc : t.closing = false)
    (hverb : v.isVerbatim t.name = true) (rest : List Token) :
    structural v none (before ++ .tag t :: rest) =
      structural v none before ++ .tag t :: structural v (some t.name) rest := by
  rw [structural_append, hout, structural_open hc hverb]

theorem openings_outside (hout : inside? v none before = none) (hc : t.closing = false)
    (hverb : v.isVerbatim t.name = true) (h : LacksClose t.name payload) :
    openings (structural v none (before ++ .tag t :: payload)) =
      openings (structural v none before) ++ [t] := by
  have hpayload : structural v (some t.name) payload = payload.map verbatim := by
    simpa [structural] using structural_payload (v := v) h []
  have hopening : (Token.tag t).opening? = some t := by simp [opening?, hc]
  have hopenings : openings (.tag t :: payload.map verbatim) = [t] := by
    rw [openings, List.filterMap_cons_some hopening, ← openings, openings_map_verbatim]
  rw [structural_outside hout hc hverb, hpayload, openings_append, hopenings]

theorem extent_payload (name : String) (outer inner : List String) (payload rest : List Token) :
    extent name outer inner (payload.map verbatim ++ rest) =
      (payload.map verbatim ++ (extent name outer inner rest).1,
        (extent name outer inner rest).2) := by
  induction payload with
  | nil => rfl
  | cons token payload ih =>
    have hends : token.verbatim.ends? name outer inner = none := rfl
    have hnext : openNext inner token.verbatim = inner := rfl
    rw [List.map_cons, List.cons_append, extent_of_not_ends hends, hnext, ih]
    rfl

theorem heading_verbatim (hverb : v.isVerbatim t.name = true) (hc : u.closing = true)
    (hname : u.name = t.name) (outer : List String) (payload rest : List Token) :
    (⟨t.name, [], []⟩ : OpenTag).heading v outer [] (payload.map verbatim ++ .tag u :: rest) =
      ⟨outer, t.name, true, some (String.ofList (payload.flatMap lexeme))⟩ := by
  have hends : (Token.tag u).ends? t.name outer [] = some .own := by simp [ends?, hc, hname]
  have hextent : extent t.name outer [] (payload.map verbatim ++ .tag u :: rest) =
      (payload.map verbatim, .own) := by
    rw [extent_payload, extent_of_ends hends, List.append_nil]
  simp only [OpenTag.heading, hextent, openings_map_verbatim, flatMap_lexeme_map_verbatim,
    OpenTag.shown, hverb]
  rfl

end Token

namespace Outline

variable {v : Vocabulary} {o : Outline} {name : String} {payload : List Char}
  {outer : List OpenTag} {nodes : List Node} {loose : List Loose} {t u : Tag} {tokens : List Token}

theorem inside?_foldl (h : o.IsFlat v) (tokens : List Token) :
    (tokens.foldl (take v) o).inside? v = Token.inside? v (o.inside? v) tokens := by
  induction tokens generalizing o with
  | nil => rfl
  | cons token tokens ih =>
    rw [List.foldl_cons, ih (isFlat_take_token h token), inside?_take h]
    rfl

theorem exists_foldl_take_open (hout : Token.inside? v none tokens = none)
    (hc : t.closing = false) :
    ∃ loose, (tokens.foldl (take v) {}).take v (.tag t) = within t.name []
      (tokens.foldl (take v) {}).stack (tokens.foldl (take v) {}).nodes loose := by
  have hinside : (tokens.foldl (take v) {}).inside? v = none := by
    rw [inside?_foldl (isFlat_empty v)]
    exact hout
  have hi : (tokens.foldl (take v) {}).ignores v t = false := by
    rw [ignores_eq, hinside]
    rfl
  exact ⟨_, take_open hi hc⟩

/-- Inside a verbatim payload no token but a closing tag of its name is structure. -/
theorem foldl_take_within (hverb : v.isVerbatim name = true) (h : Token.LacksClose name tokens) :
    tokens.foldl (take v) (within name payload outer nodes loose) =
      within name (payload ++ tokens.flatMap Token.lexeme) outer nodes loose := by
  induction tokens generalizing payload with
  | nil => rw [List.flatMap_nil, List.append_nil]; rfl
  | cons token tokens ih =>
    have htake : (within name payload outer nodes loose).take v token =
        within name (payload ++ token.lexeme) outer nodes loose := by
      cases token with
      | text run => rfl
      | tag u =>
        have hclose : ¬(u.closing = true ∧ u.name = name) :=
          fun hu ↦ h u List.mem_cons_self hu.1 hu.2
        exact take_within_text hverb hclose
    rw [List.foldl_cons, htake, ih h.of_cons, List.flatMap_cons, List.append_assoc]

@[simp] theorem names_addNode (o : Outline) (n : Node) : (o.addNode n).names = o.names := by
  unfold names addNode
  split
  · next h => rw [h]
  · next h => rw [h]; rfl

/-- Behind the closing tag of a payload the same tags are open as before its opening tag. -/
theorem names_foldl_payload {before payload : List Token} (hout : Token.inside? v none before = none)
    (hc : t.closing = false) (hverb : v.isVerbatim t.name = true)
    (hlacks : Token.LacksClose t.name payload) (hu : u.closing = true) (hname : u.name = t.name) :
    ((before ++ Token.tag t :: (payload ++ [Token.tag u])).foldl (take v) {}).names =
      (before.foldl (take v) {}).names := by
  obtain ⟨loose, hopen⟩ := exists_foldl_take_open hout hc
  simp only [List.foldl_append, List.foldl_cons, List.foldl_nil]
  rw [hopen, foldl_take_within hverb hlacks, take_within_close hverb hu hname, names_addNode]
  rfl

end Outline

theorem Node.walkAll_append (above a b : List Node) :
    walkAll above (a ++ b) = walkAll above a ++ walkAll above b := by
  induction a with
  | nil => rfl
  | cons n a ih => rw [List.cons_append, walkAll, walkAll, ih, List.append_assoc]

/-- If a walk through a node ends in a leaf inside unfinished nodes, so does the walk through the
node that holds it and all open tags. -/
theorem OpenTag.exists_getLast?_walk_settle {v : Vocabulary} {x leaf : Node} {inner : List Node}
    (hwalk : ∀ above, (x.walk above).getLast? = some (inner ++ above, leaf))
    (hinner : ∀ n ∈ inner, n.complete = false) (outer : List OpenTag) :
    ∃ above, (Node.walkAll [] (settle v (some x) outer).toList).getLast? = some (above, leaf) ∧
      (∀ n ∈ above, n.complete = false) ∧
      above.map Node.name = inner.map Node.name ++ outer.map OpenTag.name := by
  induction outer generalizing x inner with
  | nil =>
    refine ⟨inner, ?_, hinner, by simp⟩
    rw [settle_nil, Option.toList_some, Node.walkAll, Node.walkAll, List.append_nil, hwalk,
      List.append_nil]
  | cons top outer ih =>
    let parent := Node.branch top.name (top.children ++ [x]) false
    have hparent : ∀ above,
        (parent.walk above).getLast? = some (inner ++ [parent] ++ above, leaf) := by
      intro above
      have hlast : (Node.walkAll (parent :: above) [x]).getLast? =
          some (inner ++ [parent] ++ above, leaf) := by
        rw [Node.walkAll, Node.walkAll, List.append_nil, hwalk, List.append_assoc,
          List.singleton_append]
      rw [Node.walk, Node.walkAll_append, List.getLast?_cons, List.getLast?_append, hlast]
      rfl
    have hopen : ∀ n ∈ inner ++ [parent], n.complete = false := by
      intro n hn
      rcases List.mem_append.1 hn with hmem | hmem
      · exact hinner n hmem
      · rw [List.mem_singleton.1 hmem]
        rfl
    obtain ⟨above, hlast, habove, hnames⟩ := ih hparent hopen
    refine ⟨above, ?_, habove, by simp [hnames, parent]⟩
    rwa [settle_some_cons]

/-- A document that ends within a verbatim payload ends with its leaf, inside unfinished nodes. -/
theorem Outline.exists_getLast?_walk_finish_within {v : Vocabulary} {name : String}
    (hverb : v.isVerbatim name = true) (payload : List Char) (outer : List OpenTag)
    (nodes : List Node) (loose : List Loose) : ∃ above,
      (finish v (within name payload outer nodes loose)).walk.getLast? = some (above,
        .leaf name (String.ofList (Vocabulary.withoutCloseFragment name payload)) false) ∧
      (∀ n ∈ above, n.complete = false) ∧ above.map Node.name = outer.map OpenTag.name := by
  let leaf := Node.leaf name (String.ofList (Vocabulary.withoutCloseFragment name payload)) false
  have hleaf : OpenTag.unfinished v ⟨name, payload, []⟩ = leaf := by
    simp [OpenTag.unfinished, OpenTag.toNode, hverb, leaf]
  have hwalk : ∀ above, (leaf.walk above).getLast? = some ([] ++ above, leaf) := by
    intro above
    rw [Node.walk]
    rfl
  obtain ⟨above, hlast, habove, hnames⟩ :=
    OpenTag.exists_getLast?_walk_settle (v := v) hwalk (by simp) outer
  refine ⟨above, ?_, habove, hnames⟩
  rw [within, finish_of_pending_nil, OpenTag.settle_none_cons, hleaf, Document.walk,
    Node.walkAll_append, List.getLast?_append, hlast]
  rfl

theorem Heading.eq_leaf_of_ofStop {above : List Node} {n : Node} {names : List String}
    {name text : String} {complete : Bool}
    (h : Heading.ofStop (above, n) = ⟨names, name, complete, some text⟩) :
    n = .leaf name text complete := by
  cases n with
  | leaf name' shown complete' =>
    injection h with _ hname hcomplete htext
    cases hname
    cases hcomplete
    cases htext
    rfl
  | branch name' children complete' =>
    injection h with _ _ _ htext
    cases htext

theorem Document.length_walk_parse (v : Vocabulary) (text : String) :
    (parse v text).walk.length =
      (Token.openings (Token.structural v none (Token.scan v text.toList))).length := by
  have hnames := congrArg (List.map Heading.name) (map_ofStop_walk_parse v text)
  rw [Token.map_name_headings] at hnames
  simpa using congrArg List.length hnames

theorem Document.exists_walk_parse_payload {v : Vocabulary} {text : String}
    {before payload rest : List Token} {t u : Tag}
    (htokens : Token.scan v text.toList = before ++ .tag t :: (payload ++ .tag u :: rest))
    (hout : Token.inside? v none before = none) (hc : t.closing = false)
    (hverb : v.isVerbatim t.name = true) (hlacks : Token.LacksClose t.name payload)
    (hu : u.closing = true) (hname : u.name = t.name) :
    ∃ above, (parse v text).walk[(Token.openings (Token.structural v none before)).length]? =
      some (above, .leaf t.name (String.ofList (payload.flatMap Token.lexeme)) true) := by
  have hstructural := Token.structural_outside hout hc hverb (payload ++ .tag u :: rest)
  rw [← htokens, Token.structural_payload hlacks, Token.structural_close hu hname] at hstructural
  obtain ⟨above, n, hstop, hn⟩ := exists_walk_parse hstructural hc
  rw [Token.heading_verbatim hverb hu hname] at hn
  rw [Heading.eq_leaf_of_ofStop hn] at hstop
  exact ⟨above, hstop⟩

/-- A verbatim tag outside of verbatim payloads becomes a leaf. If a closing tag of its name
follows, the leaf is complete, its text is the source up to the first such tag as it stands, and
behind it the same tags are open as before. If none follows, the leaf and all nodes around it are
unfinished, and nothing behind the opening tag makes a node or a loose run. -/
theorem parse_keeps_verbatim {v : Vocabulary} {text : String} {before after : List Token} {t : Tag}
    (htokens : Token.scan v text.toList = before ++ .tag t :: after) (hc : t.closing = false)
    (hverb : v.isVerbatim t.name = true) (hout : Token.inside? v none before = none) :
    let d := Document.parse v text
    let outline := fun tokens : List Token ↦ tokens.foldl (Outline.take v) {}
    let index := (Token.openings (Token.structural v none before)).length
    (∀ payload u rest, after = payload ++ .tag u :: rest → Token.LacksClose t.name payload →
      u.closing = true → u.name = t.name → ∃ source above,
        source = payload.flatMap Token.lexeme ∧
        text.toList = before.flatMap Token.lexeme ++
          (t.lexeme ++ (source ++ (u.lexeme ++ rest.flatMap Token.lexeme))) ∧
        d.walk[index]? = some (above, .leaf t.name (String.ofList source) true) ∧
        (outline (before ++ .tag t :: (payload ++ [.tag u]))).names = (outline before).names) ∧
    (Token.LacksClose t.name after → ∃ above shown,
      d.walk[index]? = some (above, .leaf t.name shown false) ∧
      (∀ n ∈ above, n.complete = false) ∧ above.map Node.name = (outline before).names ∧
      d.walk.length = index + 1 ∧
      d.loose = (Document.ofTokens v (before ++ [.tag t])).loose) := by
  intro d outline index
  have htext : text.toList = (before ++ .tag t :: after).flatMap Token.lexeme := by
    rw [← htokens, Token.flatMap_lexeme_scan]
  refine ⟨?_, ?_⟩
  · rintro payload u rest rfl hlacks hu hname
    obtain ⟨above, hstop⟩ :=
      Document.exists_walk_parse_payload htokens hout hc hverb hlacks hu hname
    exact ⟨_, above, rfl, by simpa using htext, hstop,
      Outline.names_foldl_payload hout hc hverb hlacks hu hname⟩
  · intro hlacks
    obtain ⟨loose, hopen⟩ := Outline.exists_foldl_take_open hout hc
    have hd : d = Outline.finish v (Outline.within t.name (after.flatMap Token.lexeme)
        (outline before).stack (outline before).nodes loose) := by
      simp only [d, Document.parse, Document.ofTokens, htokens, List.foldl_append, List.foldl_cons]
      rw [hopen, Outline.foldl_take_within hverb hlacks, List.nil_append]
    have hlength : d.walk.length = index + 1 := by
      rw [Document.length_walk_parse, htokens, Token.openings_outside hout hc hverb hlacks,
        List.length_append]
      rfl
    obtain ⟨above, hlast, habove, hnames⟩ := Outline.exists_getLast?_walk_finish_within hverb
      (after.flatMap Token.lexeme) (outline before).stack (outline before).nodes loose
    rw [← hd, List.getLast?_eq_getElem?, hlength] at hlast
    refine ⟨above, _, hlast, habove, hnames, hlength, ?_⟩
    have hcut : Document.ofTokens v (before ++ [.tag t]) = Outline.finish v
        (Outline.within t.name [] (outline before).stack (outline before).nodes loose) := by
      rw [Document.ofTokens, List.foldl_append, List.foldl_cons, List.foldl_nil, hopen]
    rw [hcut, hd, Outline.within, Outline.within, Outline.finish_of_pending_nil,
      Outline.finish_of_pending_nil]

theorem parse_keeps_verbatim_nested :
    let text := "<response><content>a</type><content></response>b</content>"
    ∃ before t after, Token.scan .standard text.toList = before ++ .tag t :: after ∧
      t.closing = false ∧ Vocabulary.standard.isVerbatim t.name = true ∧
      Token.inside? .standard none before = none ∧
      ∃ above, (Document.parse .standard text).walk[1]? =
        some (above, .leaf "content" "a</type><content></response>b" true) := by
  intro text
  let before : List Token := [.tag ⟨false, "response".toList, []⟩]
  let payload : List Token := [.text ['a'], .tag ⟨true, "type".toList, []⟩,
    .tag ⟨false, "content".toList, []⟩, .tag ⟨true, "response".toList, []⟩, .text ['b']]
  have htokens : Token.scan .standard text.toList = before ++ .tag ⟨false, "content".toList, []⟩ ::
      (payload ++ [.tag ⟨true, "content".toList, []⟩]) := by decide +kernel
  have hverb : Vocabulary.standard.isVerbatim "content" = true := by decide +kernel
  have hout : Token.inside? .standard none before = none := by decide +kernel
  have hlacks : Token.LacksClose "content" payload := by
    intro u hu hc
    simp only [payload, List.mem_cons, reduceCtorEq, Token.tag.injEq, List.not_mem_nil, or_false,
      false_or] at hu
    rcases hu with rfl | rfl | rfl
    · decide
    · cases hc
    · decide
  obtain ⟨_, above, rfl, -, hwalk, -⟩ :=
    (parse_keeps_verbatim htokens rfl hverb hout).1 payload _ [] rfl hlacks rfl rfl
  exact ⟨_, _, _, htokens, rfl, hverb, hout, above, hwalk⟩

end AgentReply
