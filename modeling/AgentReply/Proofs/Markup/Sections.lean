import AgentReply.Proofs.Markup.Order
import Mathlib.Data.List.Chain

/-!
# The sections of a text

A text falls into the spans of its top-level tags, the stray closing tags between them, and the
stretches of text that are left. The span of a tag goes to the closing tag that ends it, or to the end
of the text. So what becomes loose text is told by the sections alone: while a reading is within a
span no loose text and no top-level node is added, and with the end of the span comes one node.
-/

namespace AgentReply

/-- A piece of a text outside of which no tag is open. -/
inductive Section where
  /-- Text outside every tag. -/
  | stretch (run : List Char)
  /-- A closing tag that ends no tag. -/
  | stray (t : Tag)
  /-- A tag with the tokens up to its end, the closing tag that ends it among them. -/
  | root (t : Tag) (span : List Token) (ending : Token.Ending)

namespace Section

/-- The characters of a section. -/
def source : Section → List Char
  | stretch run => run
  | stray t => t.lexeme
  | root t span _ => t.lexeme ++ span.flatMap Token.lexeme

def isStretch : Section → Bool
  | stretch _ => true
  | _ => false

/-- The name of a root, and whether it ends with its own closing tag. -/
def root? : Section → Option (String × Bool)
  | root t _ ending => some (t.name, ending == .own)
  | _ => none

/-- Puts text before some sections: a stretch at their head grows. -/
def consText (run : List Char) : List Section → List Section
  | stretch more :: rest => stretch (run ++ more) :: rest
  | sections => stretch run :: sections

/-- The loose text that a section leaves: a stretch that is not blank, trimmed. The last section is
cut before a fragment of a tag. -/
def loose? (v : Vocabulary) (roots : ℕ) (last : Bool) : Section → Option Loose
  | stretch run =>
    match Text.trim (if last then v.withoutFragment run else run) with
    | [] => none
    | shown => some ⟨String.ofList shown, roots⟩
  | _ => none

/-- The loose text that section number `i` of a text leaves, with the number of roots before it. -/
def looseAt (v : Vocabulary) (sections : List Section) (i : ℕ) : Option Loose :=
  (sections[i]?).bind
    (loose? v ((sections.take i).filterMap root?).length (i + 1 == sections.length))

/-- The loose texts that some sections leave, of which the first stands behind `roots` roots. -/
def looseAll (v : Vocabulary) (roots : ℕ) : List Section → List Loose
  | [] => []
  | s :: rest =>
    (s.loose? v roots rest.isEmpty).toList ++ looseAll v (roots + s.root?.toList.length) rest

end Section

/-- The sections of some tokens that are structure. -/
def Token.sections : List Token → List Section
  | [] => []
  | .text run :: rest => Section.consText run (sections rest)
  | .tag t :: rest =>
    if t.closing then .stray t :: sections rest
    else
      let extent := extent t.name [] [] rest
      .root t (rest.take (extent.1.length + 1)) extent.2 ::
        sections (rest.drop (extent.1.length + 1))
termination_by tokens => tokens.length

variable {v : Vocabulary}

namespace Section

variable {sections : List Section}

theorem flatMap_source_consText (run : List Char) (sections : List Section) :
    (consText run sections).flatMap source = run ++ sections.flatMap source := by
  unfold consText
  split <;> simp [source]

theorem consText_append (a b : List Char) (sections : List Section) :
    consText a (consText b sections) = consText (a ++ b) sections := by
  cases sections with
  | nil => rfl
  | cons s rest => cases s <;> simp [consText]

theorem filterMap_root?_consText (run : List Char) (sections : List Section) :
    (consText run sections).filterMap root? = sections.filterMap root? := by
  unfold consText
  split <;> rfl

theorem consText_cons {s : Section} (h : s.isStretch = false) (run : List Char)
    (sections : List Section) : consText run (s :: sections) = stretch run :: s :: sections := by
  cases s with
  | stretch more => cases h
  | _ => rfl

theorem loose?_stretch (roots : ℕ) (last : Bool) (run : List Char) :
    ((stretch run).loose? v roots last).toList =
      Loose.addRun [] roots (if last then v.withoutFragment run else run) := by
  rw [loose?, Loose.addRun, List.nil_append]
  split
  · next h => rw [if_pos h]; rfl
  · next h => rw [if_neg h]; rfl

/-- No two stretches stand next to each other. -/
def IsMaximal (sections : List Section) : Prop :=
  sections.IsChain fun a b ↦ (a.isStretch && b.isStretch) = false

theorem IsMaximal.consText (h : IsMaximal sections) (run : List Char) :
    IsMaximal (consText run sections) := by
  unfold Section.consText IsMaximal
  split
  · exact List.isChain_cons.2 ⟨(List.isChain_cons.1 h).1, (List.isChain_cons.1 h).2⟩
  · next hnot =>
    refine List.isChain_cons.2 ⟨?_, h⟩
    intro s hs
    cases s with
    | stretch more =>
      cases sections with
      | nil => cases hs
      | cons s rest =>
        cases hs
        exact absurd rfl (hnot more rest)
    | _ => rfl

theorem looseAll_eq (v : Vocabulary) (roots : ℕ) (sections : List Section) :
    looseAll v roots sections = (List.range sections.length).filterMap fun i ↦
      (sections[i]?).bind (loose? v (roots + ((sections.take i).filterMap root?).length)
        (i + 1 == sections.length)) := by
  induction sections generalizing roots with
  | nil => rfl
  | cons s rest ih =>
    have hlast : (0 + 1 == (s :: rest).length) = rest.isEmpty := by cases rest <;> rfl
    -- The roots that precede the rest are those so far and the first section's own.
    have hroots : ∀ i, roots + s.root?.toList.length + ((rest.take i).filterMap root?).length =
        roots + (((s :: rest).take (i + 1)).filterMap root?).length := by
      intro i
      rw [List.take_succ_cons, List.filterMap_cons]
      cases s.root? with
      | none => simp
      | some root => simp; omega
    have htail : ∀ i, (i + 1 == rest.length) = (i + 1 + 1 == (s :: rest).length) := by
      intro i
      rw [List.length_cons, Bool.eq_iff_iff]
      simp
    rw [looseAll, ih, List.length_cons, List.range_succ_eq_map, List.filterMap_cons, List.filterMap_map,
      ← List.length_cons (a := s), hlast]
    simp only [hroots, htail]
    have hhead : ((s :: rest)[0]?).bind (loose? v
        (roots + (((s :: rest).take 0).filterMap root?).length) rest.isEmpty) =
          s.loose? v roots rest.isEmpty := rfl
    rw [hhead]
    cases s.loose? v roots rest.isEmpty <;> rfl

end Section

namespace Token

theorem flatMap_source_sections (tokens : List Token) :
    (sections tokens).flatMap Section.source = tokens.flatMap lexeme := by
  fun_induction sections tokens with
  | case1 => rfl
  | case2 run rest ih => rw [Section.flatMap_source_consText, ih]; rfl
  | case3 t rest hc ih => rw [List.flatMap_cons, ih]; rfl
  | case4 t rest hc extent ih =>
    rw [List.flatMap_cons, ih, Section.source, List.append_assoc, ← List.flatMap_append,
      List.take_append_drop]
    rfl

theorem isMaximal_sections (tokens : List Token) : Section.IsMaximal (sections tokens) := by
  fun_induction sections tokens with
  | case1 => exact .nil
  | case2 run rest ih => exact ih.consText run
  | case3 t rest hc ih => exact List.isChain_cons.2 ⟨fun _ _ ↦ rfl, ih⟩
  | case4 t rest hc extent ih => exact List.isChain_cons.2 ⟨fun _ _ ↦ rfl, ih⟩

end Token

/-! ### Taking the tokens that are structure -/

namespace OpenTag

variable {name : String} {inner : List String} {n : Node} {stack outer : List OpenTag}

/-- A closing tag ends the innermost tag of its name. -/
theorem closeNamed?_eq_some {inside : Option Node}
    (h : closeNamed? v name inside stack = some (n, outer)) :
    n.name = name ∧ n.complete = true ∧ ∃ passed, name ∉ passed ∧
      stack.map OpenTag.name = passed ++ name :: outer.map OpenTag.name := by
  induction stack generalizing inside with
  | nil => cases h
  | cons top rest ih =>
    have hname : (inside.elim top top.addChild).name = top.name := by cases inside <;> rfl
    rw [closeNamed?] at h
    split at h
    · next htop =>
      cases h
      refine ⟨(name_toNode ..).trans htop, complete_toNode .., [], List.not_mem_nil, ?_⟩
      rw [List.map_cons, ← hname, htop]
      rfl
    · next htop =>
      obtain ⟨hn, hcomplete, passed, hpassed, hrest⟩ := ih h
      refine ⟨hn, hcomplete, top.name :: passed, ?_, by rw [List.map_cons, hrest]; rfl⟩
      intro hmem
      rcases List.mem_cons.1 hmem with heq | hmem
      · exact htop (hname.trans heq.symm)
      · exact hpassed hmem

/-- The node that holds the open tags at the end of a text is that of the outermost one. -/
theorem settle_eq_some (h : stack.map OpenTag.name = inner ++ [name]) (inside : Option Node) :
    ∃ n, settle v inside stack = some n ∧ n.name = name ∧ n.complete = false := by
  induction stack generalizing inside inner with
  | nil => simp at h
  | cons top rest ih =>
    cases inner with
    | nil =>
      obtain ⟨htop, rfl⟩ : top.name = name ∧ rest = [] := by simpa using h
      have hname : (inside.elim top top.addChild).name = top.name := by cases inside <;> rfl
      exact ⟨_, rfl, (name_toNode ..).trans (hname.trans htop), complete_toNode ..⟩
    | cons first inner => exact ih (List.cons.inj h).2 _

end OpenTag

namespace Token

variable {name : String} {inner : List String}

theorem closeName_append_of_mem (h : name ∈ inner) (outer : List String) :
    closeName name (inner ++ outer) = closeName name inner ++ outer := by
  obtain ⟨passed, rest, rfl, hpassed⟩ := List.eq_append_cons_of_mem h
  rw [List.append_assoc, List.cons_append, closeName_append_cons hpassed,
    closeName_append_cons hpassed]

theorem of_ends? {token : Token} {ending : Ending} (h : token.ends? name [] inner = some ending) :
    ∃ t, token = .tag t ∧ t.closing = true ∧ t.name ∉ inner ∧ t.name = name ∧ ending = .own := by
  cases token with
  | text run => cases h
  | tag t =>
    rw [ends?] at h
    split at h
    · cases h
    · next hnot =>
      rw [not_or, Bool.not_eq_false] at hnot
      split at h
      · next hname =>
        cases h
        exact ⟨t, rfl, hnot.1, hnot.2, hname, rfl⟩
      · simp at h

theorem mem_of_not_ends {t : Tag} (hc : t.closing = true)
    (hends : (Token.tag t).ends? name [] inner = none) (h : t.name ∈ inner ++ [name]) :
    t.name ∈ inner := by
  by_contra hnot
  have hname : t.name = name := by simpa [hnot] using h
  simp [ends?, hc, hname ▸ hnot, hname] at hends

end Token

namespace Outline

variable {o : Outline} {name : String} {inner : List String} {token : Token} {tokens : List Token}

/-- What a token does that counts as what it is. -/
def takeStructure (v : Vocabulary) (o : Outline) : Token → Outline
  | .text run => o.extend run
  | .tag t =>
    if t.closing then
      match OpenTag.closeNamed? v t.name none o.stack with
      | some (node, outer) => { o with stack := outer }.addNode node
      | none => o.skip t
    else { o.flush with stack := ⟨t.name, [], []⟩ :: o.stack }

theorem take_eq (v : Vocabulary) (o : Outline) (token : Token) :
    o.take v token = o.takeStructure v (token.countsAs (o.inside? v)) := by
  cases token with
  | text run =>
    rw [Token.countsAs_text]
    rfl
  | tag t =>
    cases hi : o.ignores v t with
    | true =>
      rw [countsAs_of_ignores hi, take_of_ignores hi]
      rfl
    | false =>
      rw [countsAs_of_not_ignores hi, take, hi]
      rfl

theorem foldl_take (hflat : o.IsFlat v) (tokens : List Token) :
    tokens.foldl (take v) o = (Token.structural v (o.inside? v) tokens).foldl (takeStructure v) o := by
  induction tokens generalizing o with
  | nil => rfl
  | cons token tokens ih =>
    rw [List.foldl_cons, ih (isFlat_take_token hflat token), inside?_take hflat, Token.structural,
      List.foldl_cons, ← take_eq]

/-- Within a root no loose text and no top-level node is added. -/
theorem takeStructure_within (hnames : o.names = inner ++ [name]) (hpending : o.pending = [])
    (hends : token.ends? name [] inner = none) : ∃ stack,
      o.takeStructure v token = ⟨stack, o.nodes, o.loose, []⟩ ∧
      stack.map OpenTag.name = token.openNext inner ++ [name] := by
  obtain ⟨stack, nodes, loose, pending⟩ := o
  obtain rfl : pending = [] := hpending
  rw [names] at hnames
  cases stack with
  | nil => simp at hnames
  | cons top outer =>
    cases token with
    | text run => exact ⟨top.extend run :: outer, rfl, hnames⟩
    | tag t =>
      rw [takeStructure]
      cases hc : t.closing with
      | false =>
        refine ⟨⟨t.name, [], []⟩ :: top :: outer, ?_, ?_⟩
        · rw [flush_eq]
          simp
        · rw [List.map_cons, hnames]
          simp [Token.openNext, hc]
      | true =>
        have hopen : (Token.tag t).openNext inner = Token.closeName t.name inner := by
          simp [Token.openNext, hc]
        rw [hopen, if_pos rfl]
        cases hn : OpenTag.closeNamed? v t.name none (top :: outer) with
        | some ended =>
          obtain ⟨n, rest⟩ := ended
          obtain ⟨-, -, passed, hpassed, hstack⟩ := OpenTag.closeNamed?_eq_some hn
          -- The tag that is closed is an inner one: closing the root would be an ending.
          have hmem : t.name ∈ inner := by
            refine Token.mem_of_not_ends hc hends ?_
            rw [← hnames, hstack]
            exact List.mem_append_right _ List.mem_cons_self
          have hrest : rest.map OpenTag.name = Token.closeName t.name inner ++ [name] := by
            rw [← Token.closeName_append_of_mem hmem, ← hnames, hstack,
              Token.closeName_append_cons hpassed]
          cases rest with
          | nil => simp at hrest
          | cons next rest => exact ⟨next.addChild n :: rest, rfl, hrest⟩
        | none =>
          have hnot : t.name ∉ inner ++ [name] := hnames ▸ OpenTag.closeNamed?_eq_none_iff_notMem.1 hn
          refine ⟨top.extend t.lexeme :: outer, rfl, ?_⟩
          rw [Token.closeName_of_notMem fun hmem ↦ hnot (List.mem_append_left _ hmem)]
          exact hnames

/-- A root ends with its closing tag, and then it is a top-level node. -/
theorem takeStructure_ends {ending : Token.Ending} (hnames : o.names = inner ++ [name])
    (hpending : o.pending = []) (hends : token.ends? name [] inner = some ending) :
    ending = .own ∧ ∃ n : Node, n.name = name ∧ n.complete = true ∧
      o.takeStructure v token = ⟨[], o.nodes ++ [n], o.loose, []⟩ := by
  obtain ⟨t, rfl, hc, hnot, hname, rfl⟩ := Token.of_ends? hends
  obtain ⟨stack, nodes, loose, pending⟩ := o
  obtain rfl : pending = [] := hpending
  rw [names] at hnames
  rw [takeStructure, if_pos hc]
  cases hn : OpenTag.closeNamed? v t.name none stack with
  | none =>
    rw [OpenTag.closeNamed?_eq_none_iff_notMem, hnames] at hn
    simp [hname] at hn
  | some ended =>
    obtain ⟨n, rest⟩ := ended
    obtain ⟨hnode, hcomplete, passed, hpassed, hstack⟩ := OpenTag.closeNamed?_eq_some hn
    have hrest : rest.map OpenTag.name = [] :=
      calc rest.map OpenTag.name = Token.closeName t.name (stack.map OpenTag.name) := by
            rw [hstack, Token.closeName_append_cons hpassed]
        _ = [] := by rw [hnames, ← hname, Token.closeName_append_cons hnot]
    obtain rfl := List.map_eq_nil_iff.1 hrest
    exact ⟨rfl, n, hnode.trans hname, hcomplete, rfl⟩

/-- What the tokens from behind the opening tag of a root to its end do: they add one node, or, if
the root never ends, none before the end of the text. -/
theorem foldl_takeStructure_span (hnames : o.names = inner ++ [name]) (hpending : o.pending = [])
    (tokens : List Token) :
    let extent := Token.extent name [] inner tokens
    (extent.2 = .own ∧ ∃ n : Node, n.name = name ∧ n.complete = true ∧
      (tokens.take (extent.1.length + 1)).foldl (takeStructure v) o =
        ⟨[], o.nodes ++ [n], o.loose, []⟩) ∨
    (extent.2 = .never ∧ tokens.length ≤ extent.1.length + 1 ∧ ∃ stack inner,
      tokens.foldl (takeStructure v) o = ⟨stack, o.nodes, o.loose, []⟩ ∧
      stack.map OpenTag.name = inner ++ [name]) := by
  induction tokens generalizing o inner with
  | nil =>
    obtain ⟨stack, nodes, loose, pending⟩ := o
    obtain rfl : pending = [] := hpending
    exact .inr ⟨rfl, Nat.zero_le _, stack, inner, rfl, hnames⟩
  | cons token tokens ih =>
    cases hends : token.ends? name [] inner with
    | some ending =>
      obtain ⟨rfl, n, hn, hcomplete, htake⟩ := takeStructure_ends (v := v) hnames hpending hends
      rw [Token.extent_of_ends hends]
      exact .inl ⟨rfl, n, hn, hcomplete, htake⟩
    | none =>
      obtain ⟨stack, htake, hstack⟩ := takeStructure_within (v := v) hnames hpending hends
      rw [Token.extent_of_not_ends hends]
      rcases ih (o := ⟨stack, o.nodes, o.loose, []⟩) hstack rfl with
        ⟨hown, n, hn, hcomplete, hfold⟩ | ⟨hnever, hlength, stack', inner', hfold, hstack'⟩
      · exact .inl ⟨hown, n, hn, hcomplete, by rwa [List.take_succ_cons, List.foldl_cons, htake]⟩
      · exact .inr ⟨hnever, Nat.succ_le_succ hlength, stack', inner', by rwa [List.foldl_cons, htake],
          hstack'⟩

end Outline

theorem Loose.addRun_eq (loose : List Loose) (count : ℕ) (run : List Char) :
    Loose.addRun loose count run = loose ++ Loose.addRun [] count run := rfl

namespace Section

variable {roots : ℕ} {sections : List Section}

theorem looseAll_consText_nil (v : Vocabulary) (roots : ℕ) (sections : List Section) :
    looseAll v roots (consText [] sections) = looseAll v roots sections := by
  cases sections with
  | nil => rfl
  | cons s rest =>
    cases s with
    | stretch more => rfl
    | _ => rfl

theorem looseAll_consText_cons {s : Section} (h : s.isStretch = false) (run : List Char)
    (sections : List Section) : looseAll v roots (consText run (s :: sections)) =
      Loose.addRun [] roots run ++ looseAll v roots (s :: sections) := by
  rw [consText_cons h, looseAll, loose?_stretch]
  rfl

end Section

theorem Section.root?_root (t : Tag) (span : List Token) (ending : Token.Ending) :
    (root t span ending).root? = some (t.name, ending == .own) := rfl

namespace Outline

variable {t : Tag} {rest tokens : List Token}

/-- The document that an outline outside every tag and the tokens still to come will make is told by
the sections of these tokens, before which the pending text stands. -/
def AreTold (v : Vocabulary) (tokens : List Token) : Prop :=
  ∀ (nodes : List Node) (loose : List Loose) (pending : List Char), ∃ more : List Node,
    (tokens.foldl (takeStructure v) ⟨[], nodes, loose, pending⟩).finish v = ⟨nodes ++ more, loose ++
      Section.looseAll v nodes.length (Section.consText pending (Token.sections tokens))⟩ ∧
    more.map (fun n ↦ (n.name, n.complete)) = (Token.sections tokens).filterMap Section.root?

theorem areTold_nil (v : Vocabulary) : AreTold v [] := by
  intro nodes loose pending
  refine ⟨[], ?_, by rw [Token.sections]; rfl⟩
  have hcons : Section.consText pending [] = [.stretch pending] := rfl
  rw [List.foldl_nil, finish_of_stack_nil, Token.sections, hcons, Section.looseAll,
    Section.loose?_stretch]
  simp [Section.looseAll, Loose.addRun]

theorem AreTold.text (h : AreTold v rest) (run : List Char) : AreTold v (.text run :: rest) := by
  intro nodes loose pending
  obtain ⟨more, hfinish, hmore⟩ := h nodes loose (pending ++ run)
  refine ⟨more, ?_, ?_⟩
  · rw [List.foldl_cons, Token.sections, Section.consText_append]
    exact hfinish
  · rw [Token.sections, Section.filterMap_root?_consText, hmore]

theorem AreTold.stray (h : AreTold v rest) (hc : t.closing = true) : AreTold v (.tag t :: rest) := by
  intro nodes loose pending
  have hsections : Token.sections (.tag t :: rest) = .stray t :: Token.sections rest := by
    rw [Token.sections, if_pos hc]
  have htake : takeStructure v ⟨[], nodes, loose, pending⟩ (.tag t) =
      ⟨[], nodes, Loose.addRun loose nodes.length pending, []⟩ := by
    rw [takeStructure, if_pos hc]
    exact skip_of_stack_nil ..
  obtain ⟨more, hfinish, hmore⟩ := h nodes (Loose.addRun loose nodes.length pending) []
  refine ⟨more, ?_, hsections ▸ hmore⟩
  rw [List.foldl_cons, htake, hfinish, hsections, Section.looseAll_consText_nil,
    Section.looseAll_consText_cons rfl, Loose.addRun_eq loose, List.append_assoc]
  rfl

theorem AreTold.root (hc : ¬t.closing = true)
    (h : AreTold v (rest.drop ((Token.extent t.name [] [] rest).1.length + 1))) :
    AreTold v (.tag t :: rest) := by
  intro nodes loose pending
  let span := rest.take ((Token.extent t.name [] [] rest).1.length + 1)
  let later := rest.drop ((Token.extent t.name [] [] rest).1.length + 1)
  let runs := Loose.addRun loose nodes.length pending
  have hsections : Token.sections (.tag t :: rest) =
      .root t span (Token.extent t.name [] [] rest).2 :: Token.sections later := by
    rw [Token.sections, if_neg hc]
  have htake : takeStructure v ⟨[], nodes, loose, pending⟩ (.tag t) =
      ⟨[⟨t.name, [], []⟩], nodes, runs, []⟩ := by
    rw [takeStructure, if_neg hc, flush_eq]
  have hloose : loose ++ Section.looseAll v nodes.length (Section.consText pending
      (Token.sections (.tag t :: rest))) =
        runs ++ Section.looseAll v (nodes.length + 1) (Token.sections later) := by
    rw [hsections, Section.looseAll_consText_cons rfl, ← List.append_assoc, ← Loose.addRun_eq]
    rfl
  have hnames : names ⟨[⟨t.name, [], []⟩], nodes, runs, []⟩ = [] ++ [t.name] := rfl
  rw [List.foldl_cons, htake, hloose, hsections]
  rcases foldl_takeStructure_span (v := v) hnames rfl rest with
    ⟨hown, n, hn, hcomplete, hfold⟩ | ⟨hnever, hlength, stack, inner, hfold, hstack⟩
  · -- the root ends, and the tokens behind it begin outside every tag
    obtain ⟨more, hfinish, hmore⟩ := h (nodes ++ [n]) runs []
    rw [Section.looseAll_consText_nil, List.length_append, List.append_assoc] at hfinish
    refine ⟨n :: more, ?_, ?_⟩
    · refine Eq.trans ?_ hfinish
      conv_lhs => rw [← List.take_append_drop ((Token.extent t.name [] [] rest).1.length + 1) rest,
        List.foldl_append]
      exact congrArg (fun o ↦ finish v (List.foldl _ o _)) hfold
    · rw [List.filterMap_cons_some (Section.root?_root ..), List.map_cons, hmore, hown, hn, hcomplete]
      rfl
  · -- the root goes to the end of the text, where its node is made of the tags that are open
    obtain ⟨n, hsettle, hn, hcomplete⟩ := OpenTag.settle_eq_some (v := v) hstack none
    have hlater : later = [] := List.drop_of_length_le hlength
    have hnone : Token.sections later = [] := by rw [hlater, Token.sections]
    refine ⟨[n], ?_, ?_⟩
    · rw [hfold, finish_of_pending_nil, hsettle, hnone, Section.looseAll, List.append_nil]
      rfl
    · rw [List.filterMap_cons_some (Section.root?_root ..), hnone, hnever, List.map_singleton, hn,
        hcomplete]
      rfl

theorem areTold (v : Vocabulary) (tokens : List Token) : AreTold v tokens := by
  fun_induction Token.sections tokens with
  | case1 => exact areTold_nil v
  | case2 run rest ih => exact ih.text run
  | case3 t rest hc ih => exact ih.stray hc
  | case4 t rest hc extent ih => exact ih.root hc

end Outline

/-- The document of a text is told by its sections: the roots are its top-level nodes, each complete
when it ends with its own closing tag, and the stretches leave its loose text. -/
theorem Document.exists_parse_eq (v : Vocabulary) (text : String) :
    let sections := Token.sections (Token.structural v none (Token.scan v text.toList))
    ∃ nodes, parse v text = ⟨nodes, Section.looseAll v 0 sections⟩ ∧
      nodes.map (fun n ↦ (n.name, n.complete)) = sections.filterMap Section.root? := by
  intro sections
  obtain ⟨nodes, hfinish, hnodes⟩ :=
    Outline.areTold v (Token.structural v none (Token.scan v text.toList)) [] [] []
  rw [Section.looseAll_consText_nil, List.nil_append, List.nil_append] at hfinish
  refine ⟨nodes, ?_, hnodes⟩
  rw [parse, ofTokens, Outline.foldl_take (Outline.isFlat_empty v)]
  exact hfinish

/-- No text outside the tags is lost or doubled. A text is cut into the spans of its roots, the stray
closing tags between them and the stretches that are left, no two of which are neighbours. The roots
are the top-level nodes of the document, each complete when it ends with its own closing tag. The
loose runs are the stretches that are not blank, trimmed, and each tells the number of roots before
it; a stretch at the end of the text is cut before the fragment of a tag. -/
theorem Document.parse_keeps_loose (v : Vocabulary) (text : String) :
    let d := Document.parse v text
    let sections := Token.sections (Token.structural v none (Token.scan v text.toList))
    sections.flatMap Section.source = text.toList ∧
    Section.IsMaximal sections ∧
    d.nodes.map (fun n ↦ (n.name, n.complete)) = sections.filterMap Section.root? ∧
    d.loose = (List.range sections.length).filterMap (Section.looseAt v sections) := by
  intro d sections
  obtain ⟨nodes, hd, hnodes⟩ : ∃ nodes, d = ⟨nodes, Section.looseAll v 0 sections⟩ ∧ _ :=
    Document.exists_parse_eq v text
  refine ⟨?_, Token.isMaximal_sections _, ?_, ?_⟩
  · rw [Token.flatMap_source_sections, Token.flatMap_lexeme_structural, Token.flatMap_lexeme_scan]
  · rw [hd]
    exact hnodes
  · rw [hd, Section.looseAll_eq]
    simp only [Nat.zero_add]
    rfl

end AgentReply
