import AgentReply.Proofs.Toml.Values
import Mathlib.Data.List.Nodup

/-!
# TOML documents that are written and read

The reader keeps the tables built so far and the path of the last header. A table at the end of a path is
known by what surrounds it (`Opens`), so a line or a header that the writer puts down adds one field to it
and leaves the rest alone.
-/

namespace AgentReply.Toml

open Text (Rest)

/-! ### Tables under construction -/

namespace Draft

/-- The table at the end of a path may hold anything, and what surrounds it is `wrap`. -/
def Opens (path : List String) (wrap : Fields → Fields) : Prop :=
  ∀ edit inner, change false edit ⟨false, false⟩ (wrap inner) path =
    (edit ⟨false, false⟩ inner).map wrap

theorem opens_nil : Opens [] id := by
  intro edit inner
  simp [change]

theorem change_append (dotted : Bool) (edit : Origin → Fields → Option Fields) (origin : Origin)
    (fields : Fields) (path more : List String) :
    change dotted edit origin fields (path ++ more) =
      change dotted (fun o inner ↦ change dotted edit o inner more) origin fields path := by
  induction path generalizing origin fields with
  | nil => rfl
  | cons key path ih =>
    rw [List.cons_append, change, change]
    split
    all_goals simp only [ih]

theorem lookup_append_self {fields : Fields} {key : String} (h : fields.lookup key = none) (d : Draft) :
    (fields ++ [(key, d)]).lookup key = some d := by
  rw [List.lookup_append, h, Option.none_or, List.lookup_cons_self]

theorem replace_append_self {fields : Fields} {key : String} (h : fields.lookup key = none)
    (d e : Draft) : replace key e (fields ++ [(key, d)]) = fields ++ [(key, e)] := by
  induction fields with
  | nil => simp [replace]
  | cons field fields ih =>
    obtain ⟨k, f⟩ := field
    rw [List.lookup_cons] at h
    split at h
    · cases h
    · next hne =>
      have hkey : k ≠ key := by
        rintro rfl
        simp at hne
      rw [List.cons_append, replace, if_neg hkey, ih h, List.cons_append]

theorem Opens.table {path : List String} {wrap : Fields → Fields} (h : Opens path wrap)
    {fields : Fields} {key : String} (hkey : fields.lookup key = none) :
    Opens (path ++ [key]) fun inner ↦ wrap (fields ++ [(key, .table ⟨false, false⟩ inner)]) := by
  intro edit inner
  rw [change_append, h]
  simp only [change, lookup_append_self hkey, Bool.false_and, Bool.false_eq_true, if_false]
  cases edit ⟨false, false⟩ inner with
  | none => rfl
  | some changed => simp [replace_append_self hkey]

theorem define_of_lookup {fields : Fields} {key : String} (h : fields.lookup key = none)
    (o : Origin) : define key o fields = some (fields ++ [(key, .table ⟨false, false⟩ [])]) := by
  rw [define, h]

theorem addValue_of_lookup {fields : Fields} {key : String} (h : fields.lookup key = none)
    (value : Value) :
    addValue [] key value ⟨false, false⟩ fields = some (fields ++ [(key, .closed value)]) := by
  simp [addValue, change, h]

theorem toTable_eq_map (fields : Fields) : toTable fields = fields.map fun f ↦ (f.1, f.2.toValue) := by
  induction fields with
  | nil => rfl
  | cons field fields ih => rw [toTable, ih, List.map_cons]

theorem toTable_append (xs ys : Fields) : toTable (xs ++ ys) = toTable xs ++ toTable ys := by
  simp only [toTable_eq_map, List.map_append]

theorem lookup_eq_none {fields : Fields} {key : String} (h : key ∉ (toTable fields).map Prod.fst) :
    fields.lookup key = none := by
  rw [List.lookup_eq_none_iff]
  rintro ⟨k, d⟩ hmem
  rw [bne_iff_ne]
  rintro rfl
  apply h
  rw [toTable_eq_map, List.map_map]
  exact List.mem_map_of_mem (f := Prod.fst ∘ fun f : String × Draft ↦ (f.1, f.2.toValue)) hmem

end Draft

/-! ### Keys -/

variable {path : List String} {rest : List Char}

/-- A dotted key as it is written. -/
def writePath (path : List String) : String := ".".intercalate (path.map writeKey)

theorem writePath_cons_cons (key next : String) (path : List String) :
    (writePath (key :: next :: path)).toList =
      (writeKey key).toList ++ '.' :: (writePath (next :: path)).toList := by
  simp only [writePath, String.toList_intercalate, List.map_cons]
  rw [List.intercalate_cons_cons]
  simp

theorem writePath_singleton (key : String) : writePath [key] = writeKey key := by
  apply String.ext
  rw [writePath, String.toList_intercalate]
  simp

/-- A character that a written key may begin with. -/
def isKeyStart (c : Char) : Bool := isBareChar c || c == '"' || c == '\''

theorem exists_writeKey (key : String) :
    ∃ c t, (writeKey key).toList = c :: t ∧ isKeyStart c = true := by
  fun_cases writeKey key
  · next hbare =>
    simp only [Bool.and_eq_true, Bool.not_eq_true', List.isEmpty_eq_false_iff, List.all_eq_true] at hbare
    obtain ⟨c, t, heq⟩ := List.exists_cons_of_ne_nil hbare.1
    exact ⟨c, t, heq, by simp [isKeyStart, hbare.2 c (heq ▸ List.mem_cons_self)]⟩
  all_goals
    rw [String.toList_ofList]
    exact ⟨_, _, rfl, by decide⟩

theorem exists_writePath (hne : path ≠ []) :
    ∃ c t, (writePath path).toList = c :: t ∧ isKeyStart c = true := by
  match path with
  | [key] =>
    rw [writePath_singleton]
    exact exists_writeKey key
  | key :: next :: path =>
    obtain ⟨c, t, heq, hc⟩ := exists_writeKey key
    exact ⟨c, _, by rw [writePath_cons_cons, heq, List.cons_append], hc⟩

theorem isBlank_of_isKeyStart {c : Char} (hc : isKeyStart c = true) : isBlank c = false := by
  have hblanks : ∀ d ∈ [' ', '\t', '#', '\n', '\r'], isKeyStart d = false := by decide
  rw [isBlank, decide_eq_false_iff_not]
  intro hmem
  rw [hblanks c hmem] at hc
  cases hc

theorem skipSpace_of_isBlank {c : Char} (hc : isBlank c = false) (s : List Char) :
    skipSpace (c :: s) = c :: s := by
  simp only [isBlank, List.mem_cons, List.not_mem_nil, or_false, decide_eq_false_iff_not, not_or] at hc
  exact List.dropWhile_cons_of_neg (by simp [isSpace, hc])

theorem exists_mark? {c : Char} {s t : List Char} (h : s = c :: t) : ∃ r, mark? c s = some r ∧ r.1 = t := by
  subst h
  exact ⟨.first c t, if_pos rfl, rfl⟩

theorem result_key?_dot {key : String} {s t u : List Char}
    (hkey : result (simpleKey? s) = some (key, t)) (hdot : skipSpace t = '.' :: u) :
    result (key? s) = (result (key? (skipSpace u))).map fun z ↦ (key :: z.1, z.2) := by
  obtain ⟨hnext, hread⟩ := exists_of_result hkey
  rw [skipSpace] at hdot
  obtain ⟨dot, hmark, rfl⟩ := exists_mark? hdot
  rw [key?]
  simp only [hread, Option.bind_eq_bind, Option.bind_some, Rest.andTail, Text.Tail.dropWhile, hmark,
    skipSpace]
  cases key? (dot.1.dropWhile isSpace) <;> rfl

theorem result_key?_last {key : String} {s t : List Char}
    (hkey : result (simpleKey? s) = some (key, t)) (hdot : (skipSpace t).head? ≠ some '.') :
    result (key? s) = some ([key], skipSpace t) := by
  obtain ⟨hnext, hread⟩ := exists_of_result hkey
  have hmark : mark? '.' (t.dropWhile isSpace) = none := mark?_eq_none hdot
  rw [key?]
  simp only [hread, Option.bind_eq_bind, Option.bind_some, Rest.andTail, Text.Tail.dropWhile, hmark]
  rfl

theorem result_key? {path : List String} (hne : path ≠ []) (hbare : rest.head?.all (!isBareChar ·) = true)
    (hdot : (skipSpace rest).head? ≠ some '.') :
    result (key? ((writePath path).toList ++ rest)) = some (path, skipSpace rest) := by
  match path with
  | [key] =>
    rw [writePath_singleton]
    exact result_key?_last (result_simpleKey?_writeKey key rest hbare) hdot
  | key :: next :: path =>
    have hread := result_simpleKey?_writeKey key ('.' :: ((writePath (next :: path)).toList ++ rest)) rfl
    obtain ⟨c, t, heq, hc⟩ := exists_writePath (List.cons_ne_nil next path)
    rw [writePath_cons_cons, List.append_assoc, List.cons_append, result_key?_dot hread rfl]
    have hskip : skipSpace ((writePath (next :: path)).toList ++ rest) =
        (writePath (next :: path)).toList ++ rest := by
      rw [heq, List.cons_append, skipSpace_of_isBlank (isBlank_of_isKeyStart hc)]
    rw [hskip, result_key? (List.cons_ne_nil next path) hbare hdot]
    rfl

theorem result_path? {path : List String} (hne : path ≠ []) (hlength : path.length ≤ maxDepth)
    (rest : List Char) (hbare : rest.head?.all (!isBareChar ·) = true)
    (hdot : (skipSpace rest).head? ≠ some '.') :
    result (path? ((writePath path).toList ++ rest)) = some (path, skipSpace rest) := by
  obtain ⟨hrest, hread⟩ := exists_of_result (result_key? hne hbare hdot)
  rw [path?, hread, Option.filter_some, if_pos (by simpa using hlength), result_some]

/-! ### Lines -/

section

variable {key : String} {value : Value} {p : Progress} {s t u : List Char}

theorem result_pair? {item : Scan Value} (hpath : result (path? s) = some ([key], t))
    (hequals : skipSpace t = '=' :: u) (hitem : result (item (skipSpace u)) = some (value, rest)) :
    result (pair? item s) = some (([], key, value), rest) := by
  obtain ⟨hnext, hread⟩ := exists_of_result hpath
  rw [skipSpace] at hequals hitem
  obtain ⟨equals, hmark, rfl⟩ := exists_mark? hequals
  obtain ⟨hlast, hvalue⟩ := exists_of_result hitem
  rw [pair?]
  simp only [hread, Option.bind_eq_bind, Option.bind_some, Rest.andTail, Text.Tail.dropWhile, hmark,
    Rest.andRest]
  simp only [hvalue, Option.bind_some]
  rfl

theorem statement?_pair (hs : s.head? ≠ some '[')
    (hpair : result (pair? (value? maxDepth) s) = some (([], key, value), rest)) :
    statement? p s = (Draft.change false (Draft.addValue [] key value) ⟨false, false⟩ p.fields
      p.header).map fun fields ↦ ({ p with fields := fields }, rest) := by
  obtain ⟨hlast, hread⟩ := exists_of_result hpair
  unfold statement?
  split
  · simp at hs
  · simp at hs
  · simp only [hread, Option.bind_eq_bind, Option.bind_some]
    cases Draft.change _ _ _ _ _ <;> rfl

theorem header?_eq (close s : List Char) : header? close s =
    (result (path? (skipSpace s))).bind fun z ↦ z.1.getLast?.bind fun last ↦
      if close.isPrefixOf (skipSpace z.2) then
        some ((z.1.dropLast, last), (skipSpace z.2).drop close.length)
      else none := by
  rw [header?]
  cases path? (skipSpace s) <;> rfl

theorem line?_eq_statement? {c : Char} (hc : isBlank c = false) (s : List Char) :
    line? p (c :: s) = (statement? p (c :: s)).bind fun z ↦ (endOfLine? z.2).map (z.1, ·) := by
  have hskip := skipSpace_of_isBlank hc s
  simp only [isBlank, List.mem_cons, List.not_mem_nil, or_false, decide_eq_false_iff_not, not_or] at hc
  unfold line?
  rw [hskip]
  split
  · next heq => cases heq
  · next heq => exact absurd (List.cons.inj heq).1 hc.2.2.1
  · next heq => exact absurd (List.cons.inj heq).1 hc.2.2.2.1
  · next heq => exact absurd (List.cons.inj heq).1 hc.2.2.2.2
  · rfl

theorem lines?_of_line? {p' : Progress} (hline : line? p s = some (p', rest))
    (hlength : rest.length < s.length) : lines? p s = lines? p' rest := by
  have hne : s.isEmpty = false := by
    cases s with
    | nil => simp at hlength
    | cons c s => rfl
  rw [lines?, hne, hline]
  simp only [Bool.false_eq_true, if_false, if_pos hlength]

theorem lines?_nil (p : Progress) : lines? p [] = some p := by
  simp [lines?]

theorem lines?_break (p : Progress) (s : List Char) : lines? p ('\n' :: s) = lines? p s :=
  lines?_of_line? rfl (Nat.lt_succ_self _)

end

def writeLine (field : String × Value) : String := writeKey field.1 ++ " = " ++ writeValue field.2 ++ "\n"

section

variable {wrap : Draft.Fields → Draft.Fields} {fields : Draft.Fields} {key : String} {value : Value}

/-- The line of a field adds the field to the table under the last header. -/
theorem lines?_writeLine (hopens : Draft.Opens path wrap) (hkey : fields.lookup key = none)
    (hvalue : IsPlain maxDepth value) (rest : List Char) :
    lines? ⟨wrap fields, path⟩ ((writeLine (key, value)).toList ++ rest) =
      lines? ⟨wrap (fields ++ [(key, .closed value)]), path⟩ rest := by
  have htext : (writeLine (key, value)).toList ++ rest = (writeKey key).toList ++
      ' ' :: '=' :: ' ' :: ((writeValue value).toList ++ '\n' :: rest) := by
    simp [writeLine]
  obtain ⟨d, u, hvalueText, hd, -⟩ := hvalue.exists_writeValue
  have hskip : skipSpace (' ' :: ((writeValue value).toList ++ '\n' :: rest)) =
      (writeValue value).toList ++ '\n' :: rest := by
    rw [hvalueText]
    exact skipSpace_of_isBlank hd _
  have hpath := result_path? (List.cons_ne_nil key []) (Nat.le_of_ble_eq_true rfl) (' ' :: '=' :: ' ' ::
    ((writeValue value).toList ++ '\n' :: rest)) rfl (by simp [skipSpace, isSpace])
  have hread := hvalue.result_value? (endsValue_cons (c := '\n') (by decide) rest)
  rw [← hskip] at hread
  have hpair := result_pair? hpath rfl hread
  have hadd := hopens (Draft.addValue [] key value) fields
  rw [Draft.addValue_of_lookup hkey, Option.map_some] at hadd
  obtain ⟨c, t, heq, hc⟩ := exists_writeKey key
  rw [writePath_singleton, heq, List.cons_append] at hpair
  rw [htext, heq, List.cons_append]
  apply lines?_of_line?
  · rw [line?_eq_statement? (isBlank_of_isKeyStart hc), statement?_pair _ hpair, hadd]
    · rfl
    · rintro hbracket
      rw [Option.some.inj hbracket] at hc
      exact absurd hc (by decide)
  · simp
    omega

/-- A header adds an empty table to the table around it. -/
theorem lines?_header (hopens : Draft.Opens path wrap) (hkey : fields.lookup key = none)
    (hlength : path.length < maxDepth) (header : List String) (rest : List Char) :
    lines? ⟨wrap fields, header⟩ (("[" ++ writePath (path ++ [key]) ++ "]\n").toList ++ rest) =
      lines? ⟨wrap (fields ++ [(key, .table ⟨false, false⟩ [])]), path ++ [key]⟩ rest := by
  have hne : path ++ [key] ≠ [] := by simp
  have htext : ("[" ++ writePath (path ++ [key]) ++ "]\n").toList ++ rest =
      '[' :: ((writePath (path ++ [key])).toList ++ ']' :: '\n' :: rest) := by
    simp
  have hpath := result_path? hne (by simpa using Nat.succ_le_of_lt hlength) (']' :: '\n' :: rest) rfl
    (by simp [skipSpace, isSpace])
  have hdefine := hopens (Draft.define key) fields
  rw [Draft.define_of_lookup hkey, Option.map_some] at hdefine
  obtain ⟨c, t, heq, hc⟩ := exists_writePath hne
  have hskip : skipSpace ((writePath (path ++ [key])).toList ++ ']' :: '\n' :: rest) =
      (writePath (path ++ [key])).toList ++ ']' :: '\n' :: rest := by
    rw [heq, List.cons_append, skipSpace_of_isBlank (isBlank_of_isKeyStart hc)]
  have hheader : header? [']'] ((writePath (path ++ [key])).toList ++ ']' :: '\n' :: rest) =
      some ((path, key), '\n' :: rest) := by
    rw [header?_eq, hskip, hpath]
    simp [skipSpace, isSpace]
  have hstatement : statement? ⟨wrap fields, header⟩
      ('[' :: ((writePath (path ++ [key])).toList ++ ']' :: '\n' :: rest)) =
      some (⟨wrap (fields ++ [(key, .table ⟨false, false⟩ [])]), path ++ [key]⟩, '\n' :: rest) := by
    rw [statement?]
    · simp only [hheader, hdefine, Option.bind_eq_bind, Option.bind_some]
    · intro u hbracket
      rw [heq] at hbracket
      obtain rfl := (List.cons.inj hbracket).1
      exact absurd hc (by decide)
  rw [htext]
  apply lines?_of_line?
  · rw [line?_eq_statement? (by decide), hstatement]
    rfl
  · simp
    omega

end

/-! ### Sections -/

/-- The fields of a table that hold tables again. -/
def subtables (tables : List (String × Table)) : Table := tables.map fun f ↦ (f.1, .table f.2)

/-- A table whose plain fields stand before its tables, each name once. -/
structure IsSplit (IsInner : Table → Prop) (t lines : Table) (tables : List (String × Table)) :
    Prop where
  eq : t = lines ++ subtables tables
  nodup : (t.map Prod.fst).Nodup
  plain : ∀ f ∈ lines, IsPlain maxDepth f.2
  inner : ∀ f ∈ tables, IsInner f.2

theorem IsSplit.nodup_lines {IsInner : Table → Prop} {t lines : Table} {tables : List (String × Table)}
    (h : IsSplit IsInner t lines tables) : ((Draft.toTable [] ++ lines).map Prod.fst).Nodup := by
  have hkeys := h.nodup
  rw [h.eq, List.map_append] at hkeys
  exact hkeys.of_append_left

/-- A table that is written under a header of its own, with tables in it to the given depth. -/
def IsSection : (depth : ℕ) → Table → Prop
  | 0, _ => False
  | depth + 1, t => ∃ lines tables, IsSplit (IsSection depth) t lines tables ∧ (lines ≠ [] ∨ tables = [])

/-- A table that a document is written for and read as. -/
def IsDocument (t : Table) : Prop := ∃ lines tables, IsSplit (IsSection maxDepth) t lines tables

section

variable {IsInner : Table → Prop} {t lines : Table} {tables : List (String × Table)}

theorem writeFields_append (s t : Table) : writeFields (s ++ t) = writeFields s ++ writeFields t :=
  List.filterMap_append

theorem writeFields_of_plain (h : ∀ f ∈ lines, IsPlain maxDepth f.2) :
    writeFields lines = lines.map writeLine := by
  rw [writeFields, ← List.filterMap_eq_map]
  apply List.filterMap_congr
  rintro ⟨key, value⟩ hf
  have hplain := h _ hf
  cases hplain <;> rfl

theorem writeFields_subtables (tables : List (String × Table)) : writeFields (subtables tables) = [] := by
  rw [writeFields, subtables, List.filterMap_map]
  exact List.filterMap_eq_nil_iff.2 fun _ _ ↦ rfl

theorem IsSplit.writeFields_eq (h : IsSplit IsInner t lines tables) :
    writeFields t = lines.map writeLine := by
  rw [h.eq, writeFields_append, writeFields_of_plain h.plain, writeFields_subtables, List.append_nil]

theorem writeSections_eq_flatMap (path : List String) (t : Table) :
    writeSections path t = t.flatMap fun f ↦ writeSection (path ++ [f.1]) f.2 := by
  induction t with
  | nil => rw [writeSections, List.flatMap_nil]
  | cons f t ih => rw [writeSections, ih, List.flatMap_cons]

theorem IsSplit.writeSections_eq (h : IsSplit IsInner t lines tables) (path : List String) :
    writeSections path t = tables.flatMap fun f ↦ writeSection (path ++ [f.1]) (.table f.2) := by
  have hlines : lines.flatMap (fun f ↦ writeSection (path ++ [f.1]) f.2) = [] := by
    rw [List.flatMap_eq_nil_iff]
    rintro ⟨key, value⟩ hf
    have hplain := h.plain _ hf
    cases hplain <;> rw [writeSection]
    all_goals simp
  rw [writeSections_eq_flatMap, h.eq, List.flatMap_append, hlines, List.nil_append, subtables,
    List.flatMap_map]

end

theorem toTable_closed (lines : Table) :
    Draft.toTable (lines.map fun f ↦ (f.1, .closed f.2)) = lines := by
  simp [Draft.toTable_eq_map, Draft.toValue, Function.comp_def]

/-- The pieces of a document, each behind an empty line. -/
def spaced (pieces : List String) : List Char := pieces.flatMap fun piece ↦ '\n' :: piece.toList

theorem spaced_cons (piece : String) (pieces : List String) :
    spaced (piece :: pieces) = '\n' :: (piece.toList ++ spaced pieces) := by
  simp [spaced]

section

variable {wrap : Draft.Fields → Draft.Fields} {fields : Draft.Fields}

theorem lines?_writeLines (hopens : Draft.Opens path wrap) {lines : Table}
    (hplain : ∀ f ∈ lines, IsPlain maxDepth f.2)
    (hkeys : ((Draft.toTable fields ++ lines).map Prod.fst).Nodup) (rest : List Char) :
    lines? ⟨wrap fields, path⟩ ((String.join (lines.map writeLine)).toList ++ rest) =
      lines? ⟨wrap (fields ++ lines.map fun f ↦ (f.1, .closed f.2)), path⟩ rest := by
  induction lines generalizing fields with
  | nil => simp
  | cons f lines ih =>
    obtain ⟨key, value⟩ := f
    rw [List.forall_mem_cons] at hplain
    have hfree : key ∉ (Draft.toTable fields).map Prod.fst := by
      rw [List.map_append, List.map_cons, List.nodup_append] at hkeys
      exact fun hmem ↦ hkeys.2.2 key hmem key List.mem_cons_self rfl
    have htext : (String.join ((key, value) :: lines |>.map writeLine)).toList ++ rest =
        (writeLine (key, value)).toList ++ ((String.join (lines.map writeLine)).toList ++ rest) := by
      simp [String.toList_join]
    rw [htext, lines?_writeLine hopens (Draft.lookup_eq_none hfree) hplain.1, ih hplain.2]
    · simp
    · simpa [Draft.toTable_append, Draft.toTable, Draft.toValue] using hkeys

/-- What is read where a table is written: it is added under its name to the table around it. -/
def ReadsSection (depth : ℕ) (t : Table) : Prop :=
  ∀ {path : List String} {wrap fields key}, Draft.Opens path wrap → fields.lookup key = none →
    path.length + depth ≤ maxDepth → ∀ header rest, ∃ header' inner, Draft.toTable inner = t ∧
      lines? ⟨wrap fields, header⟩ (spaced (writeSection (path ++ [key]) (.table t)) ++ rest) =
        lines? ⟨wrap (fields ++ [(key, .table ⟨false, false⟩ inner)]), header'⟩ rest

theorem lines?_subtables (hopens : Draft.Opens path wrap) {depth : ℕ}
    (hdepth : path.length + depth ≤ maxDepth) {tables : List (String × Table)}
    (hread : ∀ f ∈ tables, ReadsSection depth f.2)
    (hkeys : ((Draft.toTable fields ++ subtables tables).map Prod.fst).Nodup)
    (header : List String) (rest : List Char) :
    ∃ header' more, Draft.toTable more = subtables tables ∧
      lines? ⟨wrap fields, header⟩ (spaced (tables.flatMap fun f ↦
        writeSection (path ++ [f.1]) (.table f.2)) ++ rest) =
        lines? ⟨wrap (fields ++ more), header'⟩ rest := by
  induction tables generalizing fields header with
  | nil => exact ⟨header, [], rfl, by simp [spaced]⟩
  | cons f tables ih =>
    obtain ⟨key, t⟩ := f
    rw [List.forall_mem_cons] at hread
    -- The key is free so far, since the keys of all fields differ.
    have hfree : key ∉ (Draft.toTable fields).map Prod.fst := by
      rw [List.map_append, subtables, List.map_cons, List.map_cons, List.nodup_append] at hkeys
      exact fun hmem ↦ hkeys.2.2 key hmem key List.mem_cons_self rfl
    obtain ⟨header', inner, hinner, hfirst⟩ := hread.1 hopens (Draft.lookup_eq_none hfree) hdepth header
      (spaced (tables.flatMap fun f ↦ writeSection (path ++ [f.1]) (.table f.2)) ++ rest)
    have hadded : Draft.toTable [(key, .table ⟨false, false⟩ inner)] = [(key, .table t)] := by
      simp [Draft.toTable, Draft.toValue, hinner]
    have hkeys' : ((Draft.toTable (fields ++ [(key, .table ⟨false, false⟩ inner)]) ++
        subtables tables).map Prod.fst).Nodup := by
      simpa [Draft.toTable_append, hadded, subtables] using hkeys
    obtain ⟨last, more, hmore, hothers⟩ := ih hread.2 hkeys' header'
    refine ⟨last, (key, .table ⟨false, false⟩ inner) :: more, ?_, ?_⟩
    · rw [← List.singleton_append, Draft.toTable_append, hadded, hmore]
      rfl
    · have htext : spaced (((key, t) :: tables).flatMap fun f ↦ writeSection (path ++ [f.1]) (.table f.2)) ++
          rest = spaced (writeSection (path ++ [key]) (.table t)) ++
            (spaced (tables.flatMap fun f ↦ writeSection (path ++ [f.1]) (.table f.2)) ++ rest) := by
        simp [spaced]
      rw [htext, hfirst, hothers, List.append_assoc, List.singleton_append]

theorem IsSection.reads {depth : ℕ} {t : Table} (h : IsSection depth t) : ReadsSection depth t := by
  induction depth generalizing t with
  | zero => exact h.elim
  | succ depth ih =>
    obtain ⟨lines, tables, hsplit, hheader⟩ := h
    intro path wrap fields key hopens hkey hdepth header rest
    have hpath : path.length + 1 + depth ≤ maxDepth := by omega
    have hpieces : writeSection (path ++ [key]) (.table t) =
        ("[" ++ writePath (path ++ [key]) ++ "]\n" ++ String.join (lines.map writeLine)) ::
          tables.flatMap fun f ↦ writeSection (path ++ [key] ++ [f.1]) (.table f.2) := by
      -- Only a table of nothing but tables goes without a header, and this is none.
      have hheader : ¬((lines.map writeLine).isEmpty && !t.isEmpty) = true := by
        rcases hheader with hlines | rfl
        · simp [hlines]
        · rw [hsplit.eq]
          cases lines <;> simp [subtables]
      rw [writeSection, hsplit.writeFields_eq, hsplit.writeSections_eq, if_neg hheader]
      rfl
    have hinner := hopens.table hkey
    have hkeys := hsplit.nodup
    have hclosed := toTable_closed lines
    rw [hsplit.eq, ← hclosed] at hkeys
    obtain ⟨header', more, hmore, hread⟩ := lines?_subtables hinner (by simpa using hpath)
      (fun f hf ↦ ih (hsplit.inner f hf)) hkeys (path ++ [key]) rest
    refine ⟨header', lines.map (fun f ↦ (f.1, .closed f.2)) ++ more, ?_, ?_⟩
    · rw [Draft.toTable_append, hclosed, hmore, hsplit.eq]
    · have htext : ∀ first others, spaced ((first ++ others) :: tables.flatMap fun f ↦
          writeSection (path ++ [key] ++ [f.1]) (.table f.2)) ++ rest =
          '\n' :: (first.toList ++ (others.toList ++ (spaced (tables.flatMap fun f ↦
            writeSection (path ++ [key] ++ [f.1]) (.table f.2)) ++ rest))) := by
        simp [spaced]
      rw [hpieces, htext, lines?_break, lines?_header hopens hkey (by omega),
        lines?_writeLines hinner hsplit.plain hsplit.nodup_lines, List.nil_append, hread]

end

/-! ### Documents -/

theorem cons_intercalate_break (piece : List Char) (pieces : List (List Char)) :
    '\n' :: ['\n'].intercalate (piece :: pieces) = (piece :: pieces).flatMap ('\n' :: ·) := by
  induction pieces generalizing piece with
  | nil => simp
  | cons next pieces ih =>
    rw [List.intercalate_cons_cons, List.flatMap_cons, ← ih]
    simp

/-- Pieces between empty lines are read like pieces behind one each. -/
theorem lines?_intercalate (p : Progress) (pieces : List String) :
    lines? p ("\n".intercalate pieces).toList = lines? p (spaced pieces) := by
  cases pieces with
  | nil => rfl
  | cons piece pieces =>
    rw [← lines?_break p, String.toList_intercalate, List.map_cons]
    refine congrArg (lines? p) ((cons_intercalate_break _ _).trans ?_)
    simp [spaced, List.flatMap_map]

/-- No line begins with a byte order mark, so the reader does not take one from a written document. -/
theorem lines?_mark (p : Progress) (s : List Char) : lines? p ('\uFEFF' :: s) = none := by
  have hbare : isBareChar '\uFEFF' = false := by decide
  have hkey : simpleKey? ('\uFEFF' :: s) = none := by
    rw [simpleKey?]
    · split
      · rfl
      · next h => simp [hbare] at h
    all_goals
      rintro t heq
      exact absurd (List.cons.inj heq).1 (by decide)
  have hstatement : statement? p ('\uFEFF' :: s) = none := by
    have hpath : path? ('\uFEFF' :: s) = none := by
      rw [path?, key?, hkey]
      rfl
    rw [statement?, pair?, hpath]
    · rfl
    all_goals
      rintro t heq
      exact absurd (List.cons.inj heq).1 (by decide)
  rw [lines?, List.isEmpty_cons, line?_eq_statement? (by decide), hstatement]
  simp

theorem read_of_lines? {text : String} {p : Progress} (h : lines? {} text.toList = some p) :
    read text = some (Draft.toTable p.fields) := by
  unfold read
  split
  · next heq =>
    rw [heq, lines?_mark] at h
    cases h
  · simp only [h, Option.map_some]

theorem read_write {t : Table} (h : IsDocument t) : read (write t) = some t := by
  obtain ⟨lines, tables, hsplit⟩ := h
  have hkeys := hsplit.nodup
  have hclosed := toTable_closed lines
  rw [hsplit.eq, ← hclosed] at hkeys
  obtain ⟨header, more, hmore, hread⟩ := lines?_subtables Draft.opens_nil (Nat.zero_add maxDepth).le
    (fun f hf ↦ (hsplit.inner f hf).reads) hkeys [] []
  have htop : lines? {} (spaced ((if (lines.map writeLine).isEmpty then [] else
      [String.join (lines.map writeLine)]) ++ tables.flatMap fun f ↦ writeSection ([] ++ [f.1]) (.table f.2))) =
      lines? ⟨lines.map fun f ↦ (f.1, .closed f.2), []⟩ (spaced (tables.flatMap fun f ↦
        writeSection ([] ++ [f.1]) (.table f.2)) ++ []) := by
    split
    · next hempty =>
      obtain rfl : lines = [] := by simpa using hempty
      simp
    · have hfirst := lines?_writeLines Draft.opens_nil hsplit.plain hsplit.nodup_lines
        (spaced (tables.flatMap fun f ↦ writeSection ([] ++ [f.1]) (.table f.2)))
      rw [List.append_nil, List.singleton_append, spaced_cons, lines?_break]
      exact hfirst
  have hend : lines? {} (write t).toList = some ⟨lines.map (fun f ↦ (f.1, .closed f.2)) ++ more, header⟩ := by
    rw [write, hsplit.writeFields_eq, hsplit.writeSections_eq, lines?_intercalate, htop]
    exact hread.trans (lines?_nil _)
  rw [read_of_lines? hend, Draft.toTable_append, hclosed, hmore, hsplit.eq]

end AgentReply.Toml
