import AgentReply.Proofs.Text.Items
import AgentReply.Proofs.Toml.Document
import AgentReply.Settings.File
import Mathlib.Algebra.Group.Nat.Defs
import Mathlib.Data.List.Sort

/-!
# Settings that are written and read

The document of some settings is read back as the same settings, with one exception: settings without a
base URL are written without one, and a document without one has the default.
-/

namespace AgentReply.Settings

open Toml (Value Table IsPlain IsSection IsDocument maxDepth)

/-- Numbers that a document can hold, and collections in the order of a map. -/
structure IsWellFormed (s : Settings) : Prop where
  connectTimeout_lt : s.channels.connectTimeout < 0x8000000000000000
  initialDelay_lt : s.reconnect.initialDelay < 0x8000000000000000
  maxDelay_lt : s.reconnect.maxDelay < 0x8000000000000000
  maxAttempts_lt : s.reconnect.maxAttempts < 0x100000000
  collections_sorted : s.tags.collections.Pairwise fun a b ↦ a.1 < b.1

/-! ### Values -/

theorem decodeNat?_natCast {bits n : ℕ} (h : n < 2 ^ bits) :
    decodeNat? bits (.integer n) = some n := by
  simp [decodeNat?]
  exact_mod_cast h

theorem decodeStrings?_encodeStrings (values : List String) :
    decodeStrings? (encodeStrings values) = some values := by
  rw [encodeStrings, decodeStrings?]
  exact Text.mapM_map_eq_some fun value _ ↦ rfl

theorem decodeVariant?_string {α : Type} {ofName? : String → Option α} (name : String) :
    decodeVariant? ofName? (.string name) = ofName? name := rfl

theorem decodePairs?_collections {pairs : List (String × String)}
    (h : pairs.Pairwise fun a b ↦ a.1 < b.1) :
    decodePairs? (.table (pairs.map fun (name, item) ↦ (name, .string item))) = some pairs := by
  rw [decodePairs?]
  have hmap : (pairs.map fun (name, item) ↦ (name, Value.string item)).mapM (fun field ↦
      (decodeString? field.2).map (field.1, ·)) = some pairs :=
    Text.mapM_map_eq_some fun pair _ ↦ rfl
  simp only [hmap, Option.map_some]
  rw [List.mergeSort_of_pairwise]
  exact h.imp fun hlt ↦ by simpa using Std.le_of_lt hlt

/-! ### Sections -/

theorem decodeChannels?_of_values {mode : Value} {seconds : Value} {c : Channels}
    (hmode : decodeVariant? Mode.ofName? mode = some c.mode)
    (hseconds : decodeNat? 64 seconds = some c.connectTimeout) :
    decodeChannels? (.table (encodeOptional "backend_url" c.backendUrl ++
      encodeOptional "events_url" c.eventsUrl ++ encodeOptional "socket_url" c.socketUrl ++
      [("mode", mode), ("connect_timeout_secs", seconds)])) =
      some { c with backendUrl := c.backendUrl.or ({} : Channels).backendUrl } := by
  obtain ⟨backend, events, socket, _, _⟩ := c
  cases backend <;> cases events <;> cases socket
  all_goals simp [decodeChannels?, sectionFields?, encodeOptional, decodeString?, hmode, hseconds]

theorem decodeReconnect?_toTable (r : Reconnect) (hinitial : r.initialDelay < 2 ^ 64)
    (hmax : r.maxDelay < 2 ^ 64) (hattempts : r.maxAttempts < 2 ^ 32) :
    decodeReconnect? (.table [("strategy", .string r.strategy.name),
      ("initial_delay_ms", .integer r.initialDelay), ("max_delay_ms", .integer r.maxDelay),
      ("max_attempts", .integer r.maxAttempts)]) = some r := by
  have hstrategy : Strategy.ofName? r.strategy.name = some r.strategy := by cases r.strategy <;> rfl
  simp [decodeReconnect?, sectionFields?, decodeVariant?_string, hstrategy, decodeNat?_natCast hinitial,
    decodeNat?_natCast hmax, decodeNat?_natCast hattempts]

theorem decodeTags?_toTable (t : Tags) (h : t.collections.Pairwise fun a b ↦ a.1 < b.1) :
    decodeTags? (.table [("envelopes", encodeStrings t.envelopes), ("known", encodeStrings t.known),
      ("opaque", encodeStrings t.verbatim),
      ("collections", .table (t.collections.map fun (name, item) ↦ (name, .string item)))]) = some t := by
  simp [decodeTags?, sectionFields?, decodeStrings?_encodeStrings, decodePairs?_collections h]

theorem decodeEnvelopes?_toTable (e : Envelopes) :
    decodeEnvelopes? (.table [("delta_types", encodeStrings e.deltaTypes)]) = some e := by
  simp [decodeEnvelopes?, sectionFields?, decodeStrings?_encodeStrings]

theorem decodeLog?_toTable (l : Log) :
    decodeLog? (.table (("level", .string l.level) :: encodeOptional "file" l.file)) = some l := by
  obtain ⟨level, file⟩ := l
  cases file <;> simp [decodeLog?, sectionFields?, encodeOptional, decodeString?]

theorem ofTable?_toTable {s : Settings} (h : s.IsWellFormed) : ofTable? s.toTable =
    some { s with channels.backendUrl := s.channels.backendUrl.or ({} : Channels).backendUrl } := by
  have hmode : decodeVariant? Mode.ofName? (.string s.channels.mode.name) = some s.channels.mode := by
    cases s.channels.mode <;> rfl
  have hchannels := decodeChannels?_of_values hmode
    (decodeNat?_natCast (h.connectTimeout_lt.trans (by decide)))
  have hreconnect := decodeReconnect?_toTable s.reconnect (h.initialDelay_lt.trans (by decide))
    (h.maxDelay_lt.trans (by decide)) h.maxAttempts_lt
  have htags := decodeTags?_toTable s.tags h.collections_sorted
  simp only [ofTable?, toTable, List.foldlM_cons, List.foldlM_nil, hchannels, hreconnect, htags,
    decodeEnvelopes?_toTable, decodeLog?_toTable]
  rfl

/-! ### Documents -/

theorem isPlain_natCast {n depth : ℕ} (h : n < 0x8000000000000000) : IsPlain depth (.integer n) :=
  .integer (by omega)

theorem isPlain_encodeStrings {depth : ℕ} (values : List String) :
    IsPlain (depth + 1) (encodeStrings values) := by
  apply IsPlain.array
  rw [List.forall_mem_map]
  exact fun value _ ↦ .string value

theorem isSection_of_plain {depth : ℕ} {lines : Table} (hkeys : (lines.map Prod.fst).Nodup)
    (hplain : ∀ f ∈ lines, IsPlain maxDepth f.2) : IsSection (depth + 1) lines :=
  ⟨lines, [], ⟨by simp [Toml.subtables], hkeys, hplain, by simp⟩, .inr rfl⟩

theorem isSection_channels {depth : ℕ} {c : Channels} (h : c.connectTimeout < 0x8000000000000000) :
    IsSection (depth + 1) (encodeOptional "backend_url" c.backendUrl ++
      encodeOptional "events_url" c.eventsUrl ++ encodeOptional "socket_url" c.socketUrl ++
      [("mode", .string c.mode.name), ("connect_timeout_secs", .integer c.connectTimeout)]) := by
  have hplain : IsPlain maxDepth (.integer c.connectTimeout) := isPlain_natCast h
  obtain ⟨backend, events, socket, _, _⟩ := c
  apply isSection_of_plain
  · cases backend <;> cases events <;> cases socket <;> simp [encodeOptional]
  · cases backend <;> cases events <;> cases socket <;>
      simp [encodeOptional, IsPlain.string, hplain]

theorem isSection_reconnect {depth : ℕ} {r : Reconnect} (hinitial : r.initialDelay < 0x8000000000000000)
    (hmax : r.maxDelay < 0x8000000000000000) (hattempts : r.maxAttempts < 0x8000000000000000) :
    IsSection (depth + 1) [("strategy", .string r.strategy.name),
      ("initial_delay_ms", .integer r.initialDelay), ("max_delay_ms", .integer r.maxDelay),
      ("max_attempts", .integer r.maxAttempts)] := by
  apply isSection_of_plain
  · simp
  · simp [IsPlain.string, isPlain_natCast, hinitial, hmax, hattempts]

theorem isSection_tags {depth : ℕ} {t : Tags} (h : t.collections.Pairwise fun a b ↦ a.1 < b.1) :
    IsSection (depth + 2) [("envelopes", encodeStrings t.envelopes), ("known", encodeStrings t.known),
      ("opaque", encodeStrings t.verbatim),
      ("collections", .table (t.collections.map fun (name, item) ↦ (name, .string item)))] := by
  have hcollections : IsSection (depth + 1)
      (t.collections.map fun (name, item) ↦ (name, Value.string item)) := by
    apply isSection_of_plain
    · rw [List.map_map]
      have hsorted : (t.collections.map Prod.fst).Pairwise (· < ·) := List.pairwise_map.2 h
      exact hsorted.imp fun hlt heq ↦ by simp [heq] at hlt
    · rw [List.forall_mem_map]
      exact fun _ _ ↦ .string _
  refine ⟨[("envelopes", encodeStrings t.envelopes), ("known", encodeStrings t.known),
    ("opaque", encodeStrings t.verbatim)], [("collections", _)], ⟨rfl, ?_, ?_, ?_⟩, .inl (by simp)⟩
  · simp
  · simp [maxDepth, isPlain_encodeStrings]
  · simpa using hcollections

theorem isDocument_toTable {s : Settings} (h : s.IsWellFormed) : IsDocument s.toTable := by
  have hattempts := h.maxAttempts_lt
  refine ⟨[], [("channels", _), ("reconnect", _), ("tags", _), ("envelope", _), ("log", _)],
    ⟨rfl, ?_, ?_, ?_⟩⟩
  · simp [toTable]
  · simp
  · simp only [List.mem_cons, List.not_mem_nil, or_false, forall_eq_or_imp, forall_eq]
    refine ⟨isSection_channels h.connectTimeout_lt,
      isSection_reconnect h.initialDelay_lt h.maxDelay_lt (by omega), isSection_tags h.collections_sorted,
      isSection_of_plain (by simp) (by simp [maxDepth, isPlain_encodeStrings]), ?_⟩
    apply isSection_of_plain
    · cases s.log.file <;> simp [encodeOptional]
    · cases s.log.file <;> simp [encodeOptional, IsPlain.string]

theorem isWritable_of_isWellFormed {s : Settings} (h : s.IsWellFormed) : s.isWritable = true := by
  have hattempts := h.maxAttempts_lt
  simp [isWritable, h.connectTimeout_lt, h.initialDelay_lt, h.maxDelay_lt]
  omega

theorem ofToml?_toToml {s : Settings} (h : s.IsWellFormed) : ofToml? s.toToml =
    some { s with channels.backendUrl := s.channels.backendUrl.or ({} : Channels).backendUrl } := by
  rw [ofToml?, toToml, Toml.read_write (isDocument_toTable h), Option.bind_some, ofTable?_toTable h]

/-- Settings have a document, and it is read back as the same settings, where a base URL that is not set
has become the default one. -/
theorem exists_toToml? (s : Settings) (h : s.IsWellFormed) :
    ∃ text, s.toToml? = some text ∧ ofToml? text =
      some { s with channels.backendUrl := s.channels.backendUrl.or ({} : Channels).backendUrl } :=
  ⟨s.toToml, if_pos (isWritable_of_isWellFormed h), ofToml?_toToml h⟩

theorem exists_toToml?_quoted :
    let s : Settings := {
      channels := { backendUrl := none, socketUrl := some "ws://h/ws", mode := .socket }
      tags := { known := [], collections := [("a \"b\"", "it's"), ("b", "\n")] }
      log := { file := some "a\\b" } }
    s.IsWellFormed ∧ ∃ text, s.toToml? = some text ∧
      ofToml? text = some { s with channels.backendUrl := some "http://localhost:8000" } := by
  intro s
  have h : s.IsWellFormed := ⟨by decide, by decide, by decide, by decide, by decide⟩
  exact ⟨h, exists_toToml? s h⟩

/-- Settings without a base URL are not read back as they are. -/
theorem ofToml?_toToml?_ne :
    let s : Settings := { channels := { backendUrl := none } }
    s.IsWellFormed ∧ s.toToml? = some s.toToml ∧ ofToml? s.toToml ≠ some s := by
  intro s
  have h : s.IsWellFormed := ⟨by decide, by decide, by decide, by decide, by decide⟩
  refine ⟨h, if_pos (isWritable_of_isWellFormed h), ?_⟩
  rw [ofToml?_toToml h]
  decide

end AgentReply.Settings
