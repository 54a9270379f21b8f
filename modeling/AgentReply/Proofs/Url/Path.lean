import AgentReply.Proofs.Text.Marks
import AgentReply.Proofs.Url.Percent
import AgentReply.Url.Reader

/-!
# Paths that are written and read

A path that was read has segments without slashes, none of which stands for the folder itself or the one
above it. Such a path is read back from its written form.
-/

namespace AgentReply.Url

variable {segment : List Char} {segments : List (List Char)}

/-- A segment of a path that was read. -/
structure IsSegment (segment : List Char) : Prop where
  encoded : IsEncoded pathSet segment
  noSlash : ∀ c ∈ segment, isSlash true c = false
  noDots : dots segment = none

/-! ### Dots -/

/-- The segments that stand for a folder, in lower case. -/
def dotForms : List (List Char) :=
  [['.'], ['%', '2', 'e'], ['.', '.'], ['%', '2', 'e', '.'], ['.', '%', '2', 'e'],
    ['%', '2', 'e', '%', '2', 'e']]

theorem mem_dotForms (h : dots segment ≠ none) : segment.map Char.toLower ∈ dotForms := by
  unfold dots at h
  split at h
  all_goals first | exact absurd rfl h | simp_all [dotForms]

/-- In a segment of dots every percent sign begins a full stop. -/
theorem percent_of_dots {a b : List Char} {x y : Char} (h : dots (a ++ '%' :: x :: y :: b) ≠ none) :
    x.toLower = '2' ∧ y.toLower = 'e' := by
  have hforms : ∀ form ∈ dotForms, ∀ i < 6, form[i]? = some '%' →
      form[i + 1]? = some '2' ∧ form[i + 2]? = some 'e' := by decide
  have hlength : ∀ form ∈ dotForms, form.length ≤ 6 := by decide
  have hmem := mem_dotForms h
  have hshort := hlength _ hmem
  simp only [List.map_append, List.map_cons, List.length_append, List.length_cons,
    List.length_map] at hmem hshort
  have hat := hforms _ hmem a.length (by omega)
  simpa [List.getElem?_append_right] using hat

theorem head_utf8EncodeChar {c : Char} (hc : c ≠ '.') :
    ∃ o rest, String.utf8EncodeChar c = o :: rest ∧ o ≠ 0x2E := by
  have hdot : c.val.toNat ≠ 0x2E := fun h ↦ hc (Char.toNat_inj.1 h)
  have hofNat : ∀ n < 256, n ≠ 0x2E → UInt8.ofNat n ≠ 0x2E := by decide +kernel
  unfold String.utf8EncodeChar
  dsimp only
  split
  · exact ⟨_, _, rfl, hofNat _ (by omega) hdot⟩
  · split
    · exact ⟨_, _, rfl, hofNat _ (by omega) (by omega)⟩
    · split
      · exact ⟨_, _, rfl, hofNat _ (by omega) (by omega)⟩
      · exact ⟨_, _, rfl, hofNat _ (by omega) (by omega)⟩

theorem dots_percentEncode (h : dots segment = none) : dots (percentEncode pathSet segment) = none := by
  by_contra hdots
  have hplain : IsEncoded pathSet segment := by
    intro c hc
    by_contra hset
    obtain ⟨a, b, rfl⟩ := List.append_of_mem hc
    have hne : c ≠ '.' := by
      rintro rfl
      exact hset (by decide)
    obtain ⟨o, rest, hchar, ho⟩ := head_utf8EncodeChar hne
    obtain ⟨x, y, hoctet, hx, hy, hdot⟩ := encodeOctet_eq o
    have htext : percentEncode pathSet (a ++ c :: b) = percentEncode pathSet a ++
        '%' :: x :: y :: (rest.flatMap encodeOctet ++ percentEncode pathSet b) := by
      have hset' : pathSet c = true := by simpa using hset
      rw [percentEncode_append]
      simp [percentEncode, encodeChar, hset', hchar, hoctet]
    rw [htext] at hdots
    obtain ⟨hx', hy'⟩ := percent_of_dots hdots
    have hdigit : ∀ d ∈ encodingChars, d.toLower = '2' → d = '2' := by decide
    exact hdot ho ⟨hdigit x hx hx', hy'⟩
  rw [percentEncode_of_isEncoded hplain] at hdots
  exact hdots h

/-! ### Segments -/

theorem isSegment_percentEncode (hslash : ∀ c ∈ segment, isSlash true c = false)
    (hdots : dots segment = none) : IsSegment (percentEncode pathSet segment) := by
  refine ⟨isEncoded_percentEncode (by decide) segment, fun c hc ↦ ?_, dots_percentEncode hdots⟩
  rcases mem_percentEncode hc with ⟨hc, -⟩ | hc
  · exact hslash c hc
  · have hall : ∀ d ∈ encodingChars, isSlash true d = false := by decide
    exact hall c hc

theorem isSegment_nil : IsSegment [] := ⟨by simp [IsEncoded], by simp, rfl⟩

theorem splitSegments_eq_splitOnP (special : Bool) (s : List Char) :
    splitSegments special s = s.splitOnP (isSlash special) := by
  induction s with
  | nil => rfl
  | cons c s ih =>
    obtain ⟨first, others, heq⟩ := List.exists_cons_of_ne_nil (List.splitOnP_ne_nil (isSlash special) s)
    rw [splitSegments, ih, List.splitOnP_cons_eq_if_modifyHead, heq]
    rfl

theorem noSlash_splitSegments (s : List Char) :
    ∀ segment ∈ splitSegments true s, ∀ c ∈ segment, isSlash true c = false := by
  rw [splitSegments_eq_splitOnP]
  exact fun segment hsegment c hc ↦ (Text.mem_splitOnP hsegment hc).2

theorem splitSegments_flatMap (hsegment : ∀ c ∈ segment, isSlash true c = false)
    (h : ∀ t ∈ segments, ∀ c ∈ t, isSlash true c = false) :
    splitSegments true (segment ++ segments.flatMap ('/' :: ·)) = segment :: segments := by
  rw [splitSegments_eq_splitOnP]
  induction segments generalizing segment with
  | nil => rw [List.flatMap_nil, List.append_nil, List.splitOnP_eq_singleton hsegment]
  | cons next segments ih =>
    rw [List.forall_mem_cons] at h
    rw [List.flatMap_cons, List.cons_append,
      List.splitOnP_append_cons_of_forall_mem hsegment '/' rfl, ih h.1 h.2]

/-! ### Paths -/

theorem resolve_of_isSegment (path : List (List Char)) (h : ∀ t ∈ segments, IsSegment t) :
    resolve path segments = path.reverse ++ segments := by
  induction segments generalizing path with
  | nil => rw [resolve, List.append_nil]
  | cons segment segments ih =>
    rw [List.forall_mem_cons] at h
    rw [resolve, h.1.noDots]
    dsimp only
    rw [ih _ h.2, percentEncode_of_isEncoded h.1.encoded, List.reverse_cons, List.append_assoc,
      List.singleton_append]

theorem mem_leave {path : List (List Char)} (h : segment ∈ leave path) : segment ∈ path := by
  unfold leave at h
  split at h
  · exact h
  · split at h
    · exact h
    · exact List.mem_cons_of_mem _ h

theorem isSegment_resolve {path : List (List Char)} (hpath : ∀ t ∈ path, IsSegment t)
    (h : ∀ t ∈ segments, ∀ c ∈ t, isSlash true c = false) (hne : path ≠ [] ∨ segments ≠ []) :
    (∀ t ∈ resolve path segments, IsSegment t) ∧ resolve path segments ≠ [] := by
  induction segments generalizing path with
  | nil => simpa [resolve] using And.intro hpath (hne.resolve_right (by simp))
  | cons segment segments ih =>
    rw [List.forall_mem_cons] at h
    have hleave : ∀ t ∈ leave path, IsSegment t := fun t ht ↦ hpath t (mem_leave ht)
    have hfolder : ∀ path' : List (List Char), (∀ t ∈ path', IsSegment t) →
        (∀ t ∈ (if segments.isEmpty then [] :: path' else path'), IsSegment t) ∧
          ((if segments.isEmpty then [] :: path' else path') ≠ [] ∨ segments ≠ []) := by
      intro path' hpath'
      cases segments with
      | nil => simpa using And.intro isSegment_nil hpath'
      | cons next segments => simpa using hpath'
    rw [resolve]
    split
    · exact ih (hfolder path hpath).1 h.2 (hfolder path hpath).2
    · exact ih (hfolder _ hleave).1 h.2 (hfolder _ hleave).2
    · next hdots =>
      refine ih ?_ h.2 (.inl (by simp))
      rw [List.forall_mem_cons]
      exact ⟨isSegment_percentEncode h.1 hdots, hpath⟩

/-- A path that was read: it has a segment, and all its segments are such. -/
def IsPath (path : Path) : Prop :=
  ∃ segment segments, path = .segments (segment :: segments) ∧ ∀ t ∈ segment :: segments, IsSegment t

theorem isPath_readPath (s : List Char) : IsPath (readPath true s) := by
  unfold readPath
  split
  · exact ⟨[], [], rfl, by simpa using isSegment_nil⟩
  · next c rest =>
    have hsplit : splitSegments true (if isSlash true c then rest else c :: rest) ≠ [] := by
      rw [splitSegments_eq_splitOnP]
      exact List.splitOnP_ne_nil _ _
    obtain ⟨hall, hne⟩ := isSegment_resolve (List.forall_mem_nil _) (noSlash_splitSegments _) (.inr hsplit)
    obtain ⟨segment, segments, heq⟩ := List.exists_cons_of_ne_nil hne
    exact ⟨segment, segments, congrArg Path.segments heq, heq ▸ hall⟩

theorem readPath_write {path : Path} (h : IsPath path) : readPath true path.write = path := by
  obtain ⟨segment, segments, rfl, hall⟩ := h
  rw [List.forall_mem_cons] at hall
  have hsplit := splitSegments_flatMap hall.1.noSlash fun t ht ↦ (hall.2 t ht).noSlash
  have hslash : isSlash true '/' = true := rfl
  rw [Path.write, List.flatMap_cons, List.cons_append, readPath]
  simp only [hslash, if_true]
  rw [hsplit, resolve_of_isSegment [] (List.forall_mem_cons.2 hall)]
  rfl

theorem write_of_isPath {path : Path} (h : IsPath path) : ∃ rest, path.write = '/' :: rest := by
  obtain ⟨segment, segments, rfl, -⟩ := h
  exact ⟨_, rfl⟩

theorem mem_write_of_isPath {path : Path} (h : IsPath path) {c : Char} (hc : c ∈ path.write) :
    pathSet c = false := by
  obtain ⟨segment, segments, rfl, hall⟩ := h
  obtain ⟨t, ht, hc⟩ := List.mem_flatMap.1 hc
  rcases List.mem_cons.1 hc with rfl | hc
  · decide
  · exact (hall t ht).encoded c hc

end AgentReply.Url
