import ProbeAgent.Bootstrap
import ProbeAgent.RunProgress
import ProbeAgent.UrlSplit

/-!
# URLs the agent puts together

`advertised_agent_uri` registers the address the scheduler dials, and the hook on
`HTTPConnection.request` records the URL of a request.  Both write a host and a port next to
each other; an IPv6 literal is written without brackets, so its colons and the port's cannot
be told apart (`composed_urls_parse_back_iff`).
-/

namespace ProbeAgent

open PyText UrlSplit

/-! ## Hosts -/

/-- A host name, an IPv4 literal or an IPv6 literal without brackets. -/
inductive IsHost (s : PyStr) : Prop
  | name (h : IsName s)
  | v4 (n : Fin (2 ^ 32)) (h : IpAddress.parseV4 s = some n)
  | v6 (n : Fin (2 ^ 128)) (h : IpAddress.parseV6 s = some n)

theorem isNameChar_of_decimalDigit {c : CodePoint} (h : (decimalDigit c).isSome = true) :
    isNameChar c = true := by
  unfold decimalDigit at h
  split at h
  · rename_i hdigit
    simp [isNameChar, isAsciiDigit, hdigit]
  · cases h

/-- What is read as a number is made of digits. -/
theorem digits_of_number {base : Nat} {digit : CodePoint → Option Nat} {s : PyStr} {n : Nat}
    (h : number base digit s = some n) : ∀ c ∈ s, (digit c).isSome = true := by
  induction s using List.reverseRecOn generalizing n with
  | nil => exact fun c hc => absurd hc List.not_mem_nil
  | append_singleton s d ih =>
      simp only [number, List.foldl_append, List.foldl_cons, List.foldl_nil,
        Option.bind_eq_bind, Option.bind_eq_some_iff] at h
      obtain ⟨k, hk, v, hv, -⟩ := h
      intro c hc
      rcases List.mem_append.mp hc with hc | hc
      · exact ih hk c hc
      · rw [List.mem_singleton.mp hc, hv]
        rfl

theorem octet_chars {s : PyStr} {n : Fin 256} (h : IpAddress.parseOctet s = some n) :
    s ≠ [] ∧ ∀ c ∈ s, isNameChar c = true := by
  unfold IpAddress.parseOctet at h
  split_ifs at h with hnil hlong hzero
  refine ⟨hnil, fun c hc => isNameChar_of_decimalDigit ?_⟩
  cases hnumber : number 10 decimalDigit s with
  | none => simp [hnumber] at h
  | some k => exact digits_of_number hnumber c hc

/-- An IPv4 literal has the characters of a name. -/
theorem isName_of_parseV4 {s : PyStr} {n : Fin (2 ^ 32)} (h : IpAddress.parseV4 s = some n) :
    IsName s := by
  unfold IpAddress.parseV4 at h
  split at h
  · rename_i a b c d hsplit
    simp only [Option.bind_eq_bind, Option.bind_eq_some_iff] at h
    obtain ⟨na, ha, nb, hb, nc, hc, nd, hd, -⟩ := h
    have hjoin : [IpAddress.dot].intercalate (s.splitOn IpAddress.dot) = s :=
      List.intercalate_splitOn IpAddress.dot
    rw [hsplit] at hjoin
    have hs : s = a ++ IpAddress.dot :: (b ++ IpAddress.dot :: (c ++ IpAddress.dot :: d)) := by
      rw [← hjoin]
      simp [List.intercalate]
    have hdot : isNameChar IpAddress.dot = true := by decide
    refine ⟨by rw [hs]; simp, fun x hx => ?_⟩
    rw [hs] at hx
    simp only [List.mem_append, List.mem_cons] at hx
    rcases hx with hx | rfl | hx | rfl | hx | rfl | hx
    · exact (octet_chars ha).2 x hx
    · exact hdot
    · exact (octet_chars hb).2 x hx
    · exact hdot
    · exact (octet_chars hc).2 x hx
    · exact hdot
    · exact (octet_chars hd).2 x hx
  · cases h

/-- An IPv6 literal has a colon. -/
theorem colon_mem_of_parseV6 {s : PyStr} {n : Fin (2 ^ 128)}
    (h : IpAddress.parseV6 s = some n) : colon ∈ s := by
  unfold IpAddress.parseV6 at h
  split at h
  · cases h
  · rename_i address hscope
    have hsub : address.Sublist s := by
      unfold IpAddress.splitScopeId at hscope
      split at hscope
      · cases hscope
        exact List.Sublist.refl s
      · split_ifs at hscope
        cases hscope
        exact List.takeWhile_sublist _
    split at h
    · cases h
    · rename_i hs hhextets
      simp only [IpAddress.hextets, Option.bind_eq_bind, Option.bind_eq_some_iff] at hhextets
      obtain ⟨ps, hparts, -⟩ := hhextets
      refine hsub.subset ?_
      by_contra hnone
      have hsingle : address.splitOn IpAddress.colon = [address] :=
        List.splitOn_eq_singleton hnone
      simp [IpAddress.parts, hsingle] at hparts

/-- A host is a name, or it has a colon in it and is an IPv6 literal. -/
theorem IsHost.isName {s : PyStr} (h : IsHost s) (hv6 : IpAddress.parseV6 s = none) :
    IsName s := by
  cases h with
  | name h => exact h
  | v4 n h => exact isName_of_parseV4 h
  | v6 n h => cases hv6.symm.trans h

/-! ## What is put together -/

/-- The host `advertised_agent_uri` takes. -/
def advertisedName (settings : AgentSettings) (fqdn : PyStr) : PyStr :=
  let stripped := strip settings.advertisedHost
  if stripped = [] then fqdn else stripped

/-- `settings.advertised_port or settings.port`. -/
def advertisedPort (settings : AgentSettings) : Int :=
  match settings.advertisedPort with
  | some p => p.val
  | none => settings.port

def httpScheme (https : Bool) : PyStr :=
  py (if https then "https" else "http")

theorem isScheme_httpScheme (https : Bool) : IsScheme (httpScheme https) := by
  have hall : (httpScheme https).all (fun c => decide (0x61 ≤ c.val ∧ c.val ≤ 0x7A)) = true ∧
      httpScheme https ≠ [] := by
    cases https <;> decide +kernel
  exact ⟨hall.2, fun c hc => by simpa using List.all_eq_true.mp hall.1 c hc⟩

theorem advertisedAgentUri_eq {settings : AgentSettings} {port : Nat}
    (hport : advertisedPort settings = port) (fqdn : PyStr) :
    advertisedAgentUri settings fqdn =
      httpScheme true ++ colon :: slash :: slash ::
        (advertisedName settings fqdn ++ portText (some port)) := by
  have hscheme : py "https://" = httpScheme true ++ [colon, slash, slash] := by decide +kernel
  have hcolon : py ":" = [colon] := by decide +kernel
  have hdigits : (match settings.advertisedPort with
      | some p => toString p.val
      | none => toString settings.port) = toString port := by
    unfold advertisedPort at hport
    split at hport
    · rw [Int.ofNat.inj hport]
    · rw [hport]
      rfl
  simp only [advertisedAgentUri, hscheme, hcolon, advertisedName, portText, strNat,
    List.append_assoc, List.cons_append, List.nil_append]
  exact congrArg (fun digits => httpScheme true ++ colon :: slash :: slash ::
    ((if strip settings.advertisedHost = [] then fqdn else strip settings.advertisedHost) ++
      colon :: py digits)) hdigits

/-- The port of a connection's URL, where it is written out. -/
def Connection.writtenPort (c : Connection) : Option Nat :=
  if c.port = (if c.https then 443 else 80) then none else some c.port

theorem url_eq (c : Connection) (target : PyStr) :
    c.url target = httpScheme c.https ++ colon :: slash :: slash ::
      ((c.host ++ portText c.writtenPort) ++ target) := by
  have hslashes : py "://" = [colon, slash, slash] := by decide +kernel
  have hcolon : py ":" = [colon] := by decide +kernel
  have hpart : c.hostPart = c.host ++ portText c.writtenPort := by
    rw [Connection.hostPart, Connection.writtenPort]
    by_cases hdefault : c.port = (if c.https then 443 else 80)
    · rw [if_pos hdefault, if_pos hdefault, portText, List.append_nil]
    · rw [if_neg hdefault, if_neg hdefault, portText, hcolon, List.append_assoc]
      rfl
  rw [Connection.url, hpart, hslashes, httpScheme]
  simp only [List.append_assoc, List.cons_append, List.nil_append]

/-! ## What comes back -/

/-- The port a URL stands for: the scheme's own when none is written. -/
def effectivePort (parts : SplitResult) : Option Nat :=
  parts.port.map fun p => p.getD (if parts.scheme = httpScheme true then 443 else 80)

/-- `urlsplit` gives the host, the port and the path back. -/
def ParsesBack (m : CaseMap) (nfkc : PyStr → PyStr) (url host : PyStr) (port : Nat)
    (path : PyStr) : Prop :=
  ∃ parts, urlsplit m nfkc url = some parts ∧
    (∃ h, parts.hostname m = some h ∧ SameHost h host) ∧
    effectivePort parts = some port ∧ parts.path = path

section Back

variable (m : CaseMap) (nfkc : PyStr → PyStr) (https : Bool) {host target : PyStr}

theorem parsesBack_of_isName (h : IsName host) {written : Option Nat} {port : Nat}
    (hwritten : ∀ n, written = some n → n ≤ 65535)
    (hport : written.getD (if https then 443 else 80) = port) (htarget : IsTarget target) :
    ParsesBack m nfkc
      (httpScheme https ++ colon :: slash :: slash :: ((host ++ portText written) ++ target))
      host port (targetPath target) := by
  obtain ⟨query, fragment, hsplit⟩ := urlsplit_compose m nfkc (isScheme_httpScheme https)
    (h.isAuthority written) htarget
  refine ⟨_, hsplit, ⟨_, hostname_compose written m h rfl, sameHost_lower host⟩, ?_, rfl⟩
  rw [effectivePort, port_compose written h hwritten rfl, Option.map_some, ← hport]
  have hscheme : httpScheme https = httpScheme true ↔ https = true := by
    cases https <;> decide +kernel
  simp only [hscheme]

theorem not_parsesBack_of_colon (hcolon : colon ∈ host) {written : Option Nat} {path : PyStr}
    {port : Nat} (htarget : IsTarget target) :
    ¬ParsesBack m nfkc
      (httpScheme https ++ colon :: slash :: slash :: ((host ++ portText written) ++ target))
      host port path := by
  rintro ⟨parts, hsplit, ⟨h, hh, hsame⟩, -⟩
  have hnetloc := netloc_sublist (isScheme_httpScheme https) htarget hsplit
  have hnone : openBracket ∉ portText written := by
    cases written with
    | none => exact List.not_mem_nil
    | some n =>
        intro hmem
        rcases List.mem_cons.mp hmem with heq | hmem
        · exact absurd heq (by decide)
        · exact absurd (val_of_mem_strNat hmem) (by decide)
  exact not_sameHost_of_colon hnetloc hnone hcolon hh hsame

/-- A host and a port next to each other come back exactly if the host is no IPv6
literal. -/
theorem parsesBack_iff (h : IsHost host) {written : Option Nat} {port : Nat}
    (hwritten : ∀ n, written = some n → n ≤ 65535)
    (hport : written.getD (if https then 443 else 80) = port) (htarget : IsTarget target) :
    ParsesBack m nfkc
        (httpScheme https ++ colon :: slash :: slash :: ((host ++ portText written) ++ target))
        host port (targetPath target) ↔
      IpAddress.parseV6 host = none := by
  constructor
  · intro hback
    by_contra hv6
    obtain ⟨n, hn⟩ := Option.ne_none_iff_exists'.mp hv6
    exact not_parsesBack_of_colon m nfkc https (colon_mem_of_parseV6 hn) htarget hback
  · exact fun hv6 => parsesBack_of_isName m nfkc https (h.isName hv6) hwritten hport htarget

end Back

/-- A default port that is not written is read as itself. -/
theorem writtenPort_getD (c : Connection) :
    c.writtenPort.getD (if c.https then 443 else 80) = c.port := by
  rw [Connection.writtenPort]
  by_cases hdefault : c.port = (if c.https then 443 else 80)
  · rw [if_pos hdefault]
    exact hdefault.symm
  · rw [if_neg hdefault]
    rfl

/-- **URLs the agent puts together come back exactly for the hosts that are no IPv6
literals.** -/
theorem composed_urls_parse_back_iff (m : CaseMap) (nfkc : PyStr → PyStr) :
    (∀ (settings : AgentSettings) (fqdn : PyStr) (port : Nat),
      IsHost (advertisedName settings fqdn) → advertisedPort settings = port →
      1 ≤ port → port ≤ 65535 →
        (ParsesBack m nfkc (advertisedAgentUri settings fqdn) (advertisedName settings fqdn)
            port [] ↔
          IpAddress.parseV6 (advertisedName settings fqdn) = none)) ∧
    (∀ (c : Connection) (target : PyStr), IsHost c.host → 1 ≤ c.port → c.port ≤ 65535 →
      IsTarget target →
        (ParsesBack m nfkc (c.url target) c.host c.port (targetPath target) ↔
          IpAddress.parseV6 c.host = none)) := by
  refine ⟨fun settings fqdn port hhost hport _ hmax => ?_,
    fun c target hhost _ hmax htarget => ?_⟩
  · have hwritten : ∀ n, some port = some n → n ≤ 65535 := by
      simpa using hmax
    have hnone : IsTarget [] := ⟨nofun, nofun⟩
    have hiff := parsesBack_iff m nfkc true hhost hwritten rfl hnone
    rw [List.append_nil] at hiff
    rw [advertisedAgentUri_eq hport]
    exact hiff
  · rw [url_eq]
    refine parsesBack_iff m nfkc c.https hhost (fun n hn => ?_) (writtenPort_getD c) htarget
    rw [Connection.writtenPort, Option.ite_none_left_eq_some] at hn
    obtain ⟨-, hn⟩ := hn
    rw [← Option.some.inj hn]
    exact hmax

/-- `https://::1:8443` has no host, and `http://::1/x` neither. -/
theorem ipv6_literal_lost :
    IsHost (py "::1") ∧
      advertisedName { advertisedHost := py "::1" } [] = py "::1" ∧
      advertisedPort { advertisedHost := py "::1" } = 8443 ∧
      ¬ParsesBack .ascii id (advertisedAgentUri { advertisedHost := py "::1" } []) (py "::1") 8443
        [] ∧
      ¬ParsesBack .ascii id (Connection.url ⟨1, py "::1", 80, false⟩ (py "/x")) (py "::1") 80
        (py "/x") := by
  have hliteral : IpAddress.parseV6 (py "::1") = some 1 := by decide +kernel
  have huri : (urlsplit .ascii id (advertisedAgentUri { advertisedHost := py "::1" } [])).bind
      (SplitResult.hostname .ascii) = none := by decide +kernel
  have hurl : (urlsplit .ascii id (Connection.url ⟨1, py "::1", 80, false⟩ (py "/x"))).bind
      (SplitResult.hostname .ascii) = none := by decide +kernel
  refine ⟨.v6 1 hliteral, by decide +kernel, rfl, ?_, ?_⟩
  · rintro ⟨parts, hsplit, ⟨h, hh, -⟩, -⟩
    rw [hsplit, Option.bind_some, hh] at huri
    cases huri
  · rintro ⟨parts, hsplit, ⟨h, hh, -⟩, -⟩
    rw [hsplit, Option.bind_some, hh] at hurl
    cases hurl

end ProbeAgent
