import AgentReply.Proofs.Text.Trim
import AgentReply.Proofs.Url.Names
import AgentReply.Proofs.Url.Reading
import AgentReply.Settings.Endpoint
import Mathlib.Data.List.DropRight

/-!
# Endpoints that the backend leads to

The path of the events is put behind the text of the base URL, and so behind its query or fragment where it
has one. The URL of the socket has parts of its own.
-/

namespace AgentReply.Settings

open Url (IsCanonical IsEncoded IsPath IsSegment)

variable {u backend : Url} {s : Settings} {given : Overrides}

/-! ### Slashes at the end -/

/-- A text without slashes at its end. -/
def unslashed (s : List Char) : List Char := s.rdropWhile (· == '/')

@[simp] theorem unslashed_nil : unslashed [] = [] := rfl

@[simp] theorem unslashed_concat_slash (s : List Char) : unslashed (s ++ ['/']) = unslashed s :=
  List.rdropWhile_concat_pos (· == '/') s '/' rfl

theorem unslashed_concat {c : Char} (hc : c ≠ '/') (s : List Char) : unslashed (s ++ [c]) = s ++ [c] :=
  List.rdropWhile_concat_neg (· == '/') s c (by simpa using hc)

theorem unslashed_append_cons {c : Char} (hc : c ≠ '/') (s t : List Char) :
    unslashed (s ++ c :: t) = s ++ c :: unslashed t := by
  induction t using List.reverseRecOn with
  | nil => exact unslashed_concat hc s
  | append_singleton t d ih =>
    rw [← List.cons_append, ← List.append_assoc]
    by_cases hd : d = '/'
    · rw [hd, unslashed_concat_slash, unslashed_concat_slash, ih]
    · rw [unslashed_concat hd, unslashed_concat hd, List.append_assoc, List.cons_append]

theorem isEncoded_unslashed_append {set : Url.EncodeSet} {s t : List Char} (hs : IsEncoded set s)
    (ht : IsEncoded set t) : IsEncoded set (unslashed s ++ t) := by
  intro c hc
  rcases List.mem_append.1 hc with hc | hc
  · exact hs c ((List.rdropWhile_prefix _ s).mem hc)
  · exact ht c hc

theorem exists_segments {parts : List (List Char)} (h : ∀ t ∈ parts, IsSegment t) :
    ∃ kept : List (List Char), (∀ t ∈ kept, IsSegment t) ∧
      kept.flatMap ('/' :: ·) = unslashed (parts.flatMap ('/' :: ·)) := by
  induction parts using List.reverseRecOn with
  | nil => exact ⟨[], h, rfl⟩
  | append_singleton parts last ih =>
    obtain ⟨kept, hkept, heq⟩ := ih fun t ht ↦ h t (List.mem_append_left _ ht)
    rcases List.eq_nil_or_concat last with rfl | ⟨init, d, rfl⟩
    · refine ⟨kept, hkept, ?_⟩
      rw [heq, List.flatMap_append, List.flatMap_singleton, unslashed_concat_slash]
    · refine ⟨_, h, ?_⟩
      have hd := (h _ (List.mem_append_right _ List.mem_cons_self)).noSlash d (by simp)
      have hslash : d ≠ '/' := by
        rintro rfl
        exact absurd hd (by decide)
      rw [List.flatMap_append, List.flatMap_singleton, List.concat_eq_append, ← List.cons_append,
        ← List.append_assoc, unslashed_append_cons hslash]
      rfl

theorem exists_path {path : Url.Path} (h : IsPath path) :
    ∃ path', IsPath path' ∧ path'.write = unslashed path.write ++ eventsPath.toList := by
  obtain ⟨first, others, rfl, hall⟩ := h
  obtain ⟨kept, hkept, heq⟩ := exists_segments hall
  have hevents : ∀ t ∈ ["api".toList, "v1".toList, "agents".toList, "sse".toList], IsSegment t := by
    have hencoded : ∀ t ∈ ["api".toList, "v1".toList, "agents".toList, "sse".toList],
        (∀ c ∈ t, Url.pathSet c = false) ∧ (∀ c ∈ t, Url.isSlash true c = false) ∧ Url.dots t = none := by
      decide
    exact fun t ht ↦ ⟨(hencoded t ht).1, (hencoded t ht).2.1, (hencoded t ht).2.2⟩
  obtain ⟨segment, segments, hcons⟩ := List.exists_cons_of_ne_nil
    (l := kept ++ ["api".toList, "v1".toList, "agents".toList, "sse".toList]) (by simp)
  refine ⟨.segments (segment :: segments), ⟨segment, segments, rfl, ?_⟩, ?_⟩
  · rw [← hcons]
    exact fun t ht ↦ (List.mem_append.1 ht).elim (hkept t) (hevents t)
  · rw [← hcons, Url.Path.write, List.flatMap_append, heq]
    rfl

/-! ### The URL of the events -/

theorem withoutSlashes_eq (u : Url) : withoutSlashes u = String.ofList (unslashed u.write) := rfl

theorem isEncoded_eventsPath : IsEncoded Url.fragmentSet eventsPath.toList ∧
    IsEncoded Url.specialQuerySet eventsPath.toList := by
  simp only [IsEncoded]
  decide

theorem exists_write_eq [Idna] [LawfulIdna] (h : IsCanonical u) :
    ∃ before c, c ≠ '/' ∧ ∀ path, ({ u with path := path } : Url).write =
      before ++ c :: (path.write ++ u.query.elim [] ('?' :: ·) ++ u.fragment.elim [] ('#' :: ·)) := by
  obtain ⟨host, hhost, hisHost⟩ := h.host
  have hne : Url.writeHostAndPort host u.port ≠ [] := by simp [Url.writeHostAndPort, hisHost.write_ne_nil]
  obtain ⟨init, c, hinit⟩ := (List.eq_nil_or_concat _).resolve_left hne
  have hc : Url.Host.isHostChar c = true :=
    Url.mem_writeHostAndPort hisHost (by rw [hinit, List.concat_eq_append]; simp)
  refine ⟨u.scheme.toList ++ ':' :: '/' :: '/' ::
    ((Url.userinfo? u.username u.password).elim [] (· ++ ['@']) ++ init), c, ?_, fun path ↦ ?_⟩
  · rintro rfl
    exact absurd hc (by decide)
  · rw [Url.write_eq (u := { u with path := path }) hhost, hinit]
    simp

/-- What is put behind the text of a URL goes to its last part. -/
theorem text_eq {v : Url} {before last : List Char} {c : Char} (hc : c ≠ '/')
    (hu : u.write = before ++ c :: last)
    (hv : v.write = before ++ c :: (unslashed last ++ eventsPath.toList)) :
    v.text = withoutSlashes u ++ eventsPath := by
  rw [withoutSlashes_eq, hu, unslashed_append_cons hc, Url.text, hv, String.ext_iff, String.toList_append,
    String.toList_ofList, String.toList_ofList]
  simp

/-- The last part of a URL is what the path of the events is put behind. -/
theorem exists_extended [Idna] [LawfulIdna] (h : IsCanonical u) :
    ∃ v, IsCanonical v ∧ v.text = withoutSlashes u ++ eventsPath ∧
      v.scheme = u.scheme ∧ v.username = u.username ∧ v.password = u.password ∧ v.host = u.host ∧
      v.port = u.port ∧
      if u.query = none ∧ u.fragment = none then
        v.path.write = unslashed u.path.write ++ eventsPath.toList ∧ v.query = none ∧ v.fragment = none
      else v.path = u.path := by
  -- The ending lands in whatever the URL ends with: its fragment, else its query, else its path.
  cases hfragment : u.fragment with
  | some f =>
    refine ⟨{ u with fragment := some (unslashed f ++ eventsPath.toList) }, ?_, ?_,
      rfl, rfl, rfl, rfl, rfl, ?_⟩
    · refine { h with fragment := ?_ }
      intro fragment hfragment'
      rw [← Option.some.inj hfragment']
      exact isEncoded_unslashed_append (h.fragment f hfragment) isEncoded_eventsPath.1
    · have hu : u.write = (u.scheme.toList ++ ':' :: u.writeAuthority ++ u.path.write ++
          u.query.elim [] ('?' :: ·)) ++ '#' :: f := by
        rw [Url.write, hfragment]
        rfl
      exact text_eq (by decide) hu rfl
    · simp
  | none =>
    cases hquery : u.query with
    | some q =>
      refine ⟨{ u with query := some (unslashed q ++ eventsPath.toList) }, ?_, ?_,
        rfl, rfl, rfl, rfl, rfl, ?_⟩
      · refine { h with query := ?_ }
        intro query hquery'
        rw [← Option.some.inj hquery']
        exact isEncoded_unslashed_append (h.query q hquery) isEncoded_eventsPath.2
      · have hu : u.write = (u.scheme.toList ++ ':' :: u.writeAuthority ++ u.path.write) ++ '?' :: q := by
          rw [Url.write, hquery, hfragment, Option.elim_none, List.append_nil]
          rfl
        refine text_eq (by decide) hu ?_
        rw [Url.write, hfragment, Option.elim_none, List.append_nil]
        rfl
      · simp
    | none =>
      obtain ⟨path, hpath, hwrite⟩ := exists_path h.path
      refine ⟨{ u with path := path }, { h with path := hpath }, ?_, rfl, rfl, rfl, rfl, rfl, ?_⟩
      · obtain ⟨before, c, hc, hbefore⟩ := exists_write_eq h
        have hu : u.write = before ++ c :: u.path.write :=
          (hbefore u.path).trans (by simp [hquery, hfragment])
        exact text_eq hc hu ((hbefore path).trans (by simp [hquery, hfragment, hwrite]))
      · simp [hwrite, hquery, hfragment]

/-! ### The URLs of the channels -/

theorem isCanonical_of_parseUrl [Idna] [LawfulIdna] {raw : String} (h : parseUrl httpSchemes raw = .ok u) :
    IsCanonical u ∧ u.scheme ∈ httpSchemes := by
  unfold parseUrl at h
  split at h
  · cases h
  · next url hparse =>
    split at h
    · next hscheme =>
      obtain rfl := Except.ok.inj h
      have hmem := List.contains_iff_mem.1 hscheme
      have hspecial : ∀ scheme ∈ httpSchemes, Url.isSpecialScheme scheme = true := by decide
      exact ⟨Url.isCanonical_of_parse hparse (hspecial _ hmem), hmem⟩
    · cases h

theorem isCanonical_of_backendUrl [Idna] [LawfulIdna] (h : s.backendUrl = .ok backend) :
    IsCanonical backend ∧ backend.scheme ∈ httpSchemes := by
  unfold backendUrl at h
  split at h
  · cases h
  · exact isCanonical_of_parseUrl h

theorem trimmed_text [Idna] [LawfulIdna] (h : IsCanonical u) : Text.trimmed u.text = u.text := by
  have hblank : ∀ c ∈ u.write, Text.isBlank c = false := by
    intro c hc
    have hgraphic := h.isGraphic hc
    simp only [Url.isGraphic, Bool.and_eq_true, decide_eq_true_eq] at hgraphic
    rw [← Bool.not_eq_true, Text.isBlank_iff]
    omega
  have hstart : Text.trimStart u.write = u.write := by
    cases hwrite : u.write with
    | nil => rfl
    | cons c rest =>
      have hc := hblank c (hwrite ▸ List.mem_cons_self)
      exact List.dropWhile_cons_of_neg (by simp [hc])
  rw [Text.trimmed, Url.text, String.toList_ofList, Text.trim, hstart, Text.trimEnd_eq_self hblank]

theorem parseUrl_text [Idna] [LawfulIdna] (h : IsCanonical u) (hscheme : u.scheme ∈ httpSchemes) :
    parseUrl httpSchemes u.text = .ok u := by
  rw [parseUrl, trimmed_text h, h.parse_text]
  dsimp only
  rw [if_pos (List.contains_iff_mem.2 hscheme)]

/-- Both URLs lead to the host and the port of the backend. That of the events has its path if there is
nothing behind the path of the backend; else its path is that of the backend itself. -/
theorem derived_urls [Idna] [LawfulIdna] (hbackend : s.backendUrl = .ok backend) :
    (firstGiven [given.events, s.channels.eventsUrl] = none →
      ∃ events, s.eventsUrl given = .ok events ∧ events.scheme = backend.scheme ∧
        events.host = backend.host ∧ events.port = backend.port ∧
        if backend.query = none ∧ backend.fragment = none then
          events.path.write = unslashed backend.path.write ++ eventsPath.toList
        else events.path = backend.path) ∧
    (firstGiven [given.socket, s.channels.socketUrl] = none →
      ∃ socket, s.socketUrl given = .ok socket ∧ socket.host = backend.host ∧ socket.port = backend.port ∧
        (backend.scheme = "http" ∧ socket.scheme = "ws" ∨ backend.scheme = "https" ∧ socket.scheme = "wss") ∧
        socket.path.write = "/ws".toList ∧ socket.query = none) := by
  obtain ⟨hcanonical, hscheme⟩ := isCanonical_of_backendUrl hbackend
  refine ⟨fun hevents ↦ ?_, fun hsocket ↦ ?_⟩
  · obtain ⟨events, hevents', htext, hsame, -, -, hhost, hport, hpath⟩ := exists_extended hcanonical
    refine ⟨events, ?_, hsame, hhost, hport, ?_⟩
    · rw [eventsUrl, hevents]
      simp only [hbackend, bind, Except.bind]
      rw [← htext, parseUrl_text hevents' (hsame ▸ hscheme)]
    · split
      · next hnone =>
        rw [if_pos hnone] at hpath
        exact hpath.1
      · next hsome => rwa [if_neg hsome] at hpath
  · have hok : s.socketUrl given = .ok { backend with
        scheme := if backend.scheme == "https" then "wss" else "ws"
        path := .segments ["ws".toList]
        query := none } := by
      rw [socketUrl, hsocket]
      simp only [hbackend, bind, Except.bind, pure, Except.pure]
    refine ⟨_, hok, rfl, rfl, ?_, rfl, rfl⟩
    have hschemes : ∀ scheme ∈ httpSchemes,
        scheme = "http" ∧ (if scheme == "https" then "wss" else "ws") = "ws" ∨
          scheme = "https" ∧ (if scheme == "https" then "wss" else "ws") = "wss" := by decide
    exact hschemes _ hscheme

/-- A base URL with a user, a port and a path that ends with slashes. -/
def nested : Settings :=
  { channels := { backendUrl := some "https://user@example.com:8443/base//" } }

theorem derived_urls_nested :
    (∃ events, @eventsUrl .common nested {} = .ok events ∧ events.port = some 8443 ∧
      events.path.write = "/base/api/v1/agents/sse".toList) ∧
    ∃ socket, @socketUrl .common nested {} = .ok socket ∧ socket.scheme = "wss" ∧ socket.port = some 8443 ∧
      socket.path.write = "/ws".toList := by
  have hbackend : @backendUrl .common nested = .ok {
      scheme := "https", username := "user".toList, host := some (.domain "example.com".toList),
      port := some 8443, path := .segments ["base".toList, [], []] } := by decide +kernel
  obtain ⟨hevents, hsocket⟩ := @derived_urls _ _ {} .common Idna.lawful_common hbackend
  obtain ⟨events, hok, -, -, hport, hpath⟩ := hevents rfl
  obtain ⟨socket, hok', -, hport', hscheme, hpath', -⟩ := hsocket rfl
  exact ⟨⟨events, hok, hport, hpath⟩, socket, hok', (hscheme.resolve_left (by simp)).2, hport', hpath'⟩

/-- A base URL with a query. -/
def queried : Settings := { channels := { backendUrl := some "http://h/?x=1" } }

/-- The events are asked for at the path `/`, with their path in the query. -/
theorem eventsUrl_of_query :
    ∃ backend events, @backendUrl .common queried = .ok backend ∧ queried.channels.eventsUrl = none ∧
      @eventsUrl .common queried {} = .ok events ∧ events.text = "http://h/?x=1/api/v1/agents/sse" ∧
      events.path.write ≠ unslashed backend.path.write ++ eventsPath.toList := by
  refine ⟨{ scheme := "http", host := some (.domain ['h']), path := .segments [[]],
            query := some "x=1".toList },
    { scheme := "http", host := some (.domain ['h']), path := .segments [[]],
      query := some "x=1/api/v1/agents/sse".toList }, ?_, rfl, ?_, ?_, ?_⟩
  all_goals decide +kernel

end AgentReply.Settings
