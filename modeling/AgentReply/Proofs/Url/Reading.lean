import AgentReply.Proofs.Url.Host
import AgentReply.Proofs.Url.Path

/-!
# URLs that are read again

A URL with a special scheme that was read is canonical: its parts are encoded, its host, port and path are
in their one form. A canonical URL is read back from its text.
-/

namespace AgentReply.Url

/-- A URL as reading leaves it. -/
structure IsCanonical [Idna] (u : Url) : Prop where
  special : isSpecialScheme u.scheme = true
  username : IsEncoded userinfoSet u.username
  password : IsEncoded userinfoSet u.password
  host : ∃ host, u.host = some host ∧ Host.IsHost host
  port : ∀ port, u.port = some port → port ≤ 0xFFFF ∧ givenPort u.scheme port = some port
  path : IsPath u.path
  query : ∀ query, u.query = some query → IsEncoded specialQuerySet query
  fragment : ∀ fragment, u.fragment = some fragment → IsEncoded fragmentSet fragment

/-! ### What is read is canonical -/

section

variable {scheme : String} {s : List Char} {u : Url}

theorem bind_eq_ok {ε α β : Type} {x : Except ε α} {f : α → Except ε β} {b : β} :
    (x >>= f) = .ok b ↔ ∃ a, x = .ok a ∧ f a = .ok b := by
  cases x <;> simp [bind, Except.bind]

theorem readAuthority_eq_ok [Idna] (h : readAuthority scheme s = .ok u) :
    ∃ (username password hostText rest : List Char) (portText : Option (List Char)) (host : Host)
      (port : Option ℕ),
      (if isSpecialScheme scheme then Host.parse else Host.parseUnknown) hostText = .ok host ∧
      (portText.elim (.ok none) (readPort scheme) : Except ParseError (Option ℕ)) = .ok port ∧
      u = { scheme := scheme, username := percentEncode userinfoSet username,
            password := percentEncode userinfoSet password, host := some host, port := port,
            path := readPath (isSpecialScheme scheme) (splitTail (isSpecialScheme scheme) rest).before,
            query := (splitTail (isSpecialScheme scheme) rest).query,
            fragment := (splitTail (isSpecialScheme scheme) rest).fragment } := by
  unfold readAuthority at h
  dsimp only at h
  generalize (if isSpecialScheme scheme = true then Host.parse else Host.parseUnknown) = read at h ⊢
  split at h
  · cases h
  · obtain ⟨host, hhost, h⟩ := bind_eq_ok.1 h
    split at h
    · cases h
    · obtain ⟨port, hport, hu⟩ := bind_eq_ok.1 h
      cases hparse : read _ with
      | error e =>
        rw [hparse] at hhost
        cases hhost
      | ok host' =>
        rw [hparse] at hhost
        obtain rfl := Except.ok.inj hhost
        exact ⟨_, _, _, _, _, host', port, hparse, hport, (Except.ok.inj hu).symm⟩

theorem readPort_eq_ok {port : ℕ} (h : readPort scheme s = .ok (some port)) :
    port ≤ 0xFFFF ∧ givenPort scheme port = some port := by
  unfold readPort at h
  dsimp only at h
  generalize List.foldl _ 0 _ = value at h
  split at h
  · cases h
  · split at h
    · cases h
    · next hsmall =>
      split at h
      · cases h
      · have hgiven := Except.ok.inj h
        have hport := hgiven
        unfold givenPort at hport
        split at hport
        · cases hport
        · obtain rfl := Option.some.inj hport
          exact ⟨by omega, hgiven⟩

theorem isEncoded_splitTail (rest : List Char) :
    (∀ query, (splitTail true rest).query = some query → IsEncoded specialQuerySet query) ∧
      ∀ fragment, (splitTail true rest).fragment = some fragment → IsEncoded fragmentSet fragment := by
  simp only [splitTail, if_true]
  refine ⟨fun query hquery ↦ ?_, fun fragment hfragment ↦ ?_⟩
  · split at hquery
    · obtain rfl := Option.some.inj hquery
      exact isEncoded_percentEncode (by decide) _
    · cases hquery
  · split at hfragment
    · obtain rfl := Option.some.inj hfragment
      exact isEncoded_percentEncode (by decide) _
    · cases hfragment

theorem isCanonical_of_readAuthority [Idna] [LawfulIdna] (hspecial : isSpecialScheme scheme = true)
    (h : readAuthority scheme s = .ok u) : IsCanonical u := by
  obtain ⟨username, password, hostText, rest, portText, host, port, hhost, hport, rfl⟩ :=
    readAuthority_eq_ok h
  simp only [hspecial, if_true] at hhost ⊢
  obtain ⟨hquery, hfragment⟩ := isEncoded_splitTail rest
  refine ⟨hspecial, isEncoded_percentEncode (by decide) _, isEncoded_percentEncode (by decide) _,
    ⟨host, rfl, Host.isHost_of_parse hhost⟩, ?_, isPath_readPath _, hquery, hfragment⟩
  rintro port rfl
  cases portText with
  | none => cases hport
  | some text => exact readPort_eq_ok hport

theorem scheme_of_readScheme [Idna] (h : readScheme scheme s = .ok u) : u.scheme = scheme := by
  unfold readScheme at h
  split at h
  · next hfile =>
    rw [beq_iff_eq.1 hfile]
    unfold readFile at h
    dsimp only at h
    repeat' split at h
    all_goals first
      | rw [← Except.ok.inj h]
      | cases h
  · split at h
    · obtain ⟨_, _, _, _, _, _, _, _, _, rfl⟩ := readAuthority_eq_ok h
      rfl
    · split at h
      · obtain ⟨_, _, _, _, _, _, _, _, _, rfl⟩ := readAuthority_eq_ok h
        rfl
      · rw [← Except.ok.inj h]

theorem isCanonical_of_parse [Idna] [LawfulIdna] {text : String} (h : parse text = .ok u)
    (hspecial : isSpecialScheme u.scheme = true) :
    IsCanonical u := by
  unfold parse at h
  dsimp only at h
  split at h
  · split at h
    · have hscheme := scheme_of_readScheme h
      generalize String.ofList _ = scheme at h hscheme
      subst hscheme
      unfold readScheme at h
      split at h
      · next hfile =>
        rw [beq_iff_eq] at hfile
        rw [hfile] at hspecial
        exact absurd hspecial (by decide)
      · exact isCanonical_of_readAuthority hspecial h
    · cases h
  · cases h

end

/-! ### What is canonical is read back -/

section

variable {u : Url} {username password : List Char} {port : Option ℕ}

theorem takeWhile_append_elim {c : Char} {s : List Char} (h : c ∉ s) (t : Option (List Char)) :
    (s ++ t.elim [] (c :: ·)).takeWhile (· != c) = s := by
  cases t with
  | none => simpa using Text.forall_bne_of_notMem h
  | some t => exact Text.takeWhile_append_cons h t

theorem dropWhile_append_elim {c : Char} {s : List Char} (h : c ∉ s) (t : Option (List Char)) :
    (s ++ t.elim [] (c :: ·)).dropWhile (· != c) = t.elim [] (c :: ·) := by
  cases t with
  | none => simpa using Text.forall_bne_of_notMem h
  | some t => exact Text.dropWhile_append_cons h t

theorem notMem_of_isEncoded {set : EncodeSet} {s : List Char} {c : Char} (h : IsEncoded set s)
    (hc : set c = true) : c ∉ s := by
  intro hmem
  rw [h c hmem] at hc
  cases hc

theorem splitTail_write {path : Path} {query fragment : Option (List Char)} (hpath : IsPath path)
    (hquery : ∀ q, query = some q → IsEncoded specialQuerySet q)
    (hfragment : ∀ f, fragment = some f → IsEncoded fragmentSet f) :
    splitTail true (path.write ++ query.elim [] ('?' :: ·) ++ fragment.elim [] ('#' :: ·)) =
      ⟨path.write, query, fragment⟩ := by
  have hencoded : IsEncoded pathSet path.write := fun c ↦ mem_write_of_isPath hpath
  have hmark : '?' ∉ path.write := notMem_of_isEncoded hencoded rfl
  have hhash : '#' ∉ path.write ++ query.elim [] ('?' :: ·) := by
    rw [List.mem_append, not_or]
    refine ⟨notMem_of_isEncoded hencoded rfl, ?_⟩
    cases query with
    | none => simp
    | some q => simpa using notMem_of_isEncoded (hquery q rfl) rfl
  simp only [splitTail, takeWhile_append_elim hhash, dropWhile_append_elim hhash,
    takeWhile_append_elim hmark, dropWhile_append_elim hmark]
  congr 1
  · cases query with
    | none => rfl
    | some q => exact congrArg some (percentEncode_of_isEncoded (hquery q rfl))
  · cases fragment with
    | none => rfl
    | some f => exact congrArg some (percentEncode_of_isEncoded (hfragment f rfl))

/-- The user before an `@`, as it is written. -/
def userinfo? (username password : List Char) : Option (List Char) :=
  if username.isEmpty && password.isEmpty then none
  else some (username ++ if password.isEmpty then [] else ':' :: password)

theorem writeUserinfo_eq (u : Url) :
    u.writeUserinfo = (userinfo? u.username u.password).elim [] (· ++ ['@']) := by
  unfold writeUserinfo userinfo?
  split <;> rfl

theorem splitUserinfo_append {hostAndPort : List Char} (h : '@' ∉ hostAndPort)
    (userinfo : Option (List Char)) :
    splitUserinfo (userinfo.elim [] (· ++ ['@']) ++ hostAndPort) = (userinfo, hostAndPort) := by
  cases userinfo with
  | none => simp [splitUserinfo, h]
  | some userinfo =>
    have hhost : ((userinfo ++ ['@'] ++ hostAndPort).reverse.takeWhile (· != '@')).reverse = hostAndPort := by
      have hreverse : '@' ∉ hostAndPort.reverse := by simpa using h
      rw [List.append_assoc, List.singleton_append, List.reverse_append, List.reverse_cons,
        List.append_assoc, List.singleton_append, Text.takeWhile_append_cons hreverse, List.reverse_reverse]
    have hlength : (userinfo ++ ['@'] ++ hostAndPort).length - hostAndPort.length =
        (userinfo ++ ['@']).length := by
      rw [List.length_append, Nat.add_sub_cancel]
    have hat : (userinfo ++ ['@'] ++ hostAndPort).contains '@' = true := by simp
    rw [Option.elim_some, splitUserinfo, if_pos hat]
    dsimp only
    rw [hhost, hlength, List.take_left, List.dropLast_concat]

theorem userinfo?_ne_some_nil : (userinfo? username password == some []) = false := by
  unfold userinfo?
  cases username <;> cases password <;> rfl

theorem takeWhile_userinfo? (h : ':' ∉ username) :
    ((userinfo? username password).getD []).takeWhile (· != ':') = username := by
  cases password with
  | nil =>
    cases username with
    | nil => rfl
    | cons c username => simpa [userinfo?] using Text.forall_bne_of_notMem h
  | cons d password =>
    have hinfo : userinfo? username (d :: password) = some (username ++ ':' :: d :: password) := by
      simp [userinfo?]
    rw [hinfo, Option.getD_some, Text.takeWhile_append_cons h]

theorem drop_userinfo? (h : ':' ∉ username) :
    (((userinfo? username password).getD []).dropWhile (· != ':')).drop 1 = password := by
  cases password with
  | nil =>
    have hnone : ((userinfo? username []).getD []).dropWhile (· != ':') = [] := by
      cases username with
      | nil => rfl
      | cons c username => simpa [userinfo?] using Text.forall_bne_of_notMem h
    rw [hnone]
    rfl
  | cons d password =>
    have hinfo : userinfo? username (d :: password) = some (username ++ ':' :: d :: password) := by
      simp [userinfo?]
    rw [hinfo, Option.getD_some, Text.dropWhile_append_cons h]
    rfl

theorem readPort_toDigits {scheme : String} {n : ℕ} (h : n ≤ 0xFFFF) :
    readPort scheme (Nat.toDigits 10 n) = .ok (givenPort scheme n) := by
  have hdigit : ∀ c ∈ Nat.toDigits 10 n, c.isDigit = true := fun c ↦ Text.isDigit_of_mem_toDigits
  have htake : (Nat.toDigits 10 n).takeWhile Char.isDigit = Nat.toDigits 10 n := by simpa using hdigit
  have hdrop : (Nat.toDigits 10 n).dropWhile Char.isDigit = [] := by simpa using hdigit
  have hne : (Nat.toDigits 10 n).isEmpty = false := by simp
  unfold readPort
  dsimp only
  rw [htake, hdrop, Text.foldl_toDigits, hne]
  simp [Nat.not_lt.2 h]

/-- The host and the port, as they are written. -/
def writeHostAndPort (host : Host) (port : Option ℕ) : List Char :=
  host.write ++ (port.map (Nat.toDigits 10)).elim [] (':' :: ·)

theorem writeAuthority_eq {host : Host} (h : u.host = some host) :
    u.writeAuthority = '/' :: '/' ::
      ((userinfo? u.username u.password).elim [] (· ++ ['@']) ++ writeHostAndPort host u.port) := by
  unfold writeAuthority
  rw [h, writeUserinfo_eq, writeHostAndPort]
  cases u.port <;> simp [Nat.repr]

theorem of_isHostChar {c : Char} (h : Host.isHostChar c = true) :
    isGraphic c = true ∧ endsAuthority true c = false ∧ c ≠ '@' := by
  have hall : ∀ n < 0x80, Host.isHostChar (Char.ofNat n) = true →
      isGraphic (Char.ofNat n) = true ∧ endsAuthority true (Char.ofNat n) = false ∧ Char.ofNat n ≠ '@' := by
    decide +kernel
  have hlt : c.toNat < 0x80 := by
    simp only [Host.isHostChar, Bool.or_eq_true, beq_iff_eq] at h
    rcases h with ((h | rfl) | rfl) | rfl
    · exact Idna.toNat_lt_of_isDomainChar h
    all_goals decide
  have hc := hall c.toNat hlt
  rw [Char.ofNat_toNat] at hc
  exact hc h

theorem endsAuthority_of_userinfoSet {c : Char} (h : userinfoSet c = false) :
    endsAuthority true c = false := by
  by_contra hends
  simp only [endsAuthority, isSlash, Bool.true_and, Bool.not_eq_false, Bool.or_eq_true, beq_iff_eq] at hends
  rcases hends with ((rfl | rfl) | rfl) | rfl
  all_goals exact absurd h (by decide)

theorem mem_writeHostAndPort [Idna] [LawfulIdna] {host : Host} (h : Host.IsHost host) {c : Char}
    (hc : c ∈ writeHostAndPort host port) : Host.isHostChar c = true := by
  rcases List.mem_append.1 hc with hc | hc
  · exact h.chars c hc
  · cases port with
    | none => simp at hc
    | some n =>
      rcases List.mem_cons.1 hc with rfl | hc
      · decide
      · have hall : ∀ d ∈ "0123456789".toList, Host.isHostChar d = true := by decide
        exact hall c (Text.mem_digits_of_isDigit (Text.isDigit_of_mem_toDigits hc))

theorem write_eq {host : Host} (h : u.host = some host) :
    u.write = u.scheme.toList ++ ':' :: '/' :: '/' ::
      ((userinfo? u.username u.password).elim [] (· ++ ['@']) ++ writeHostAndPort host u.port ++
        (u.path.write ++ u.query.elim [] ('?' :: ·) ++ u.fragment.elim [] ('#' :: ·))) := by
  rw [write, writeAuthority_eq h]
  simp

theorem mem_specialSchemes {scheme : String} (h : isSpecialScheme scheme = true) :
    scheme ∈ ["http", "https", "ws", "wss", "ftp"] := by
  by_contra hne
  simp only [List.mem_cons, List.not_mem_nil, or_false, not_or, ← beq_eq_false_iff_ne] at hne
  simp [isSpecialScheme, specialPorts, List.lookup_cons, hne] at h

namespace IsCanonical

variable [Idna] (h : IsCanonical u)
include h

theorem mem_userinfo {c : Char} (hc : c ∈ (userinfo? u.username u.password).elim [] (· ++ ['@'])) :
    userinfoSet c = false ∨ c = ':' ∨ c = '@' := by
  unfold userinfo? at hc
  split at hc
  · simp at hc
  · rw [Option.elim_some, List.mem_append, List.mem_append, List.mem_singleton] at hc
    rcases hc with (hc | hc) | hc
    · exact .inl (h.username c hc)
    · split at hc
      · simp at hc
      · rcases List.mem_cons.1 hc with hc | hc
        · exact .inr (.inl hc)
        · exact .inl (h.password c hc)
    · exact .inr (.inr hc)

theorem mem_tail {c : Char}
    (hc : c ∈ u.path.write ++ u.query.elim [] ('?' :: ·) ++ u.fragment.elim [] ('#' :: ·)) :
    isGraphic c = true := by
  rw [List.mem_append, List.mem_append] at hc
  rcases hc with (hc | hc) | hc
  · exact isGraphic_of_pathSet (mem_write_of_isPath h.path hc)
  · cases hquery : u.query with
    | none => simp [hquery] at hc
    | some q =>
      rw [hquery] at hc
      rcases List.mem_cons.1 hc with rfl | hc
      · decide
      · exact isGraphic_of_specialQuerySet (h.query q hquery c hc)
  · cases hfragment : u.fragment with
    | none => simp [hfragment] at hc
    | some f =>
      rw [hfragment] at hc
      rcases List.mem_cons.1 hc with rfl | hc
      · decide
      · exact isGraphic_of_fragmentSet (h.fragment f hfragment c hc)

variable [LawfulIdna]

theorem isGraphic {c : Char} (hc : c ∈ u.write) : isGraphic c = true := by
  obtain ⟨host, hhost, hisHost⟩ := h.host
  have hscheme : ∀ scheme ∈ ["http", "https", "ws", "wss", "ftp"],
      ∀ d ∈ scheme.toList ++ [':', '/', '/'], Url.isGraphic d = true := by decide
  have hwrite : u.write = (u.scheme.toList ++ [':', '/', '/']) ++
      ((userinfo? u.username u.password).elim [] (· ++ ['@']) ++ writeHostAndPort host u.port ++
        (u.path.write ++ u.query.elim [] ('?' :: ·) ++ u.fragment.elim [] ('#' :: ·))) := by
    simp [write_eq hhost]
  rw [hwrite] at hc
  rcases List.mem_append.1 hc with hc | hc
  · exact hscheme _ (mem_specialSchemes h.special) c hc
  · rcases List.mem_append.1 hc with hc | hc
    · rcases List.mem_append.1 hc with hc | hc
      · rcases h.mem_userinfo hc with hc | rfl | rfl
        · exact isGraphic_of_userinfoSet hc
        · decide
        · decide
      · exact (of_isHostChar (mem_writeHostAndPort hisHost hc)).1
    · exact h.mem_tail hc

theorem mem_authority {host : Host} (hisHost : Host.IsHost host) {c : Char}
    (hc : c ∈ (userinfo? u.username u.password).elim [] (· ++ ['@']) ++ writeHostAndPort host u.port) :
    endsAuthority true c = false := by
  rcases List.mem_append.1 hc with hc | hc
  · rcases h.mem_userinfo hc with hset | rfl | rfl
    · exact endsAuthority_of_userinfoSet hset
    · decide
    · decide
  · exact (of_isHostChar (mem_writeHostAndPort hisHost hc)).2.1

theorem readAuthority_write {host : Host} (hhost : u.host = some host) (hisHost : Host.IsHost host) :
    readAuthority u.scheme
      ((userinfo? u.username u.password).elim [] (· ++ ['@']) ++ writeHostAndPort host u.port ++
        (u.path.write ++ u.query.elim [] ('?' :: ·) ++ u.fragment.elim [] ('#' :: ·))) = .ok u := by
  have hinside : ∀ c ∈ (userinfo? u.username u.password).elim [] (· ++ ['@']) ++
      writeHostAndPort host u.port, (!endsAuthority true c) = true :=
    fun c hc ↦ by rw [h.mem_authority hisHost hc]; rfl
  have houtside : (u.path.write ++ u.query.elim [] ('?' :: ·) ++ u.fragment.elim [] ('#' :: ·)).head?.all
      (!!endsAuthority true ·) = true := by
    obtain ⟨rest, hrest⟩ := write_of_isPath h.path
    rw [hrest]
    rfl
  -- Neither part has a delimiter of its own in it, so each is split off where it was joined.
  have hat : '@' ∉ writeHostAndPort host u.port := fun hmem ↦
    (of_isHostChar (mem_writeHostAndPort hisHost hmem)).2.2 rfl
  have hcolon : ':' ∉ u.username := notMem_of_isEncoded h.username rfl
  have hport : ((u.port.map (Nat.toDigits 10)).elim (.ok none) (readPort u.scheme) :
      Except ParseError (Option ℕ)) = .ok u.port := by
    cases hport : u.port with
    | none => rfl
    | some n =>
      obtain ⟨hle, hgiven⟩ := h.port n hport
      rw [Option.map_some, Option.elim_some, readPort_toDigits hle, hgiven]
  unfold readAuthority
  dsimp only
  rw [h.special, Text.takeWhile_append_of_head? hinside houtside,
    Text.dropWhile_append_of_head? hinside houtside, splitUserinfo_append hat]
  dsimp only
  rw [takeWhile_userinfo? hcolon, drop_userinfo? hcolon, userinfo?_ne_some_nil, writeHostAndPort,
    Host.splitPort_write hisHost, splitTail_write h.path h.query h.fragment]
  have hempty : host.write.isEmpty = false := by simpa using hisHost.write_ne_nil
  simp only [Bool.false_and, Bool.false_eq_true, if_false, if_true, Host.parse_write hisHost, hempty, hport,
    percentEncode_of_isEncoded h.username, percentEncode_of_isEncoded h.password, readPath_write h.path]
  have hu : { u with host := some host } = u := by rw [← hhost]
  exact congrArg Except.ok hu

theorem significant_write : significant u.write = u.write := by
  have houter : ∀ c ∈ u.write, decide (c.toNat ≤ 0x20) = false := by
    intro c hc
    have hgraphic := h.isGraphic hc
    simp only [Url.isGraphic, Bool.and_eq_true, decide_eq_true_eq] at hgraphic
    simpa using hgraphic.1
  have hstart : ∀ s : List Char, (∀ c ∈ s, decide (c.toNat ≤ 0x20) = false) →
      s.dropWhile (fun c ↦ decide (c.toNat ≤ 0x20)) = s := by
    intro s hs
    cases s with
    | nil => rfl
    | cons c s => rw [List.dropWhile_cons_of_neg (by simpa using hs c List.mem_cons_self)]
  unfold significant
  dsimp only
  rw [hstart _ houter, hstart _ (by simpa using houter), List.reverse_reverse, List.filter_eq_self]
  intro c hc
  have hc := houter c hc
  by_contra hbreak
  simp only [Bool.and_eq_true, bne_iff_ne, not_and_or, not_not] at hbreak
  rcases hbreak with (rfl | rfl) | rfl
  all_goals exact absurd hc (by decide)

theorem parse_text : parse u.text = .ok u := by
  obtain ⟨host, hhost, hisHost⟩ := h.host
  have hscheme : ∀ scheme ∈ ["http", "https", "ws", "wss", "ftp"],
      (∀ c ∈ scheme.toList, isSchemeChar c = true) ∧ (scheme.toList.head?.any Char.isAlpha) = true ∧
        String.ofList (scheme.toList.map Char.toLower) = scheme ∧ (scheme == "file") = false := by decide
  obtain ⟨hchars, halpha, hlower, hfile⟩ := hscheme _ (mem_specialSchemes h.special)
  obtain ⟨c, rest, hcons⟩ : ∃ c rest, u.scheme.toList = c :: rest := by
    cases hlist : u.scheme.toList with
    | nil => simp [hlist] at halpha
    | cons c rest => exact ⟨c, rest, rfl⟩
  have hauthority := h.readAuthority_write hhost hisHost
  unfold parse
  dsimp only
  rw [text, String.toList_ofList, h.significant_write, write_eq hhost,
    Text.takeWhile_append_of_head? hchars rfl, Text.dropWhile_append_of_head? hchars rfl, hcons]
  have hletter : c.isAlpha = true := by simpa [hcons] using halpha
  simp only [List.head?_cons, hletter, if_true]
  rw [← hcons, hlower, readScheme, hfile, if_neg (by decide), if_pos h.special]
  -- All slashes behind the scheme are skipped, and the authority does not start with one.
  have hslashes : ∀ c ∈ ['/', '/'], isSlash true c = true := by decide
  have hfirst : ((userinfo? u.username u.password).elim [] (· ++ ['@']) ++ writeHostAndPort host u.port ++
      (u.path.write ++ u.query.elim [] ('?' :: ·) ++ u.fragment.elim [] ('#' :: ·))).head?.all
        (!isSlash true ·) = true := by
    obtain ⟨first, others, heq⟩ := List.exists_cons_of_ne_nil (l := (userinfo? u.username u.password).elim []
      (· ++ ['@']) ++ writeHostAndPort host u.port) (by simp [writeHostAndPort, hisHost.write_ne_nil])
    have hends := h.mem_authority hisHost (heq ▸ List.mem_cons_self)
    simp only [endsAuthority, Bool.or_eq_false_iff] at hends
    simp [heq, hends.1.1]
  have hdrop := Text.dropWhile_append_of_head? hslashes hfirst
  rw [List.cons_append, List.singleton_append] at hdrop
  rw [hdrop, hauthority]

end IsCanonical

end

end AgentReply.Url
