import ProbeAgent.IpAddress
import ProbeAgent.StrMethods
import Mathlib.Data.List.TakeWhile

/-!
# Splitting URLs (`urllib.parse`)

`urlsplit` and the parts of a `netloc` that `SplitResult` reads off it: `hostname` and
`port`.  Where Python raises `ValueError` there is none.  The NFKC form of a text, which
only a `netloc` outside ASCII is held against, is a parameter.

A URL made of a scheme, a host name, a port and a target is split into these
(`urlsplit_compose`).  A host with a colon in it never comes back out of a `netloc` it was
put into without brackets (`not_sameHost_of_colon`).
-/

namespace UrlSplit

open PyText

def colon : CodePoint := 0x3A
def slash : CodePoint := 0x2F
def question : CodePoint := 0x3F
def hash : CodePoint := 0x23
def atSign : CodePoint := 0x40
def percent : CodePoint := 0x25
def openBracket : CodePoint := 0x5B
def closeBracket : CodePoint := 0x5D

def isAsciiLetter (c : CodePoint) : Bool :=
  (0x41 ≤ c.val && c.val ≤ 0x5A) || (0x61 ≤ c.val && c.val ≤ 0x7A)

def isAsciiDigit (c : CodePoint) : Bool :=
  0x30 ≤ c.val && c.val ≤ 0x39

/-- `scheme_chars`. -/
def isSchemeChar (c : CodePoint) : Bool :=
  isAsciiLetter c || isAsciiDigit c || c.val == 0x2B || c.val == 0x2D || c.val == 0x2E

/-- `_UNSAFE_URL_BYTES_TO_REMOVE`: tab, carriage return and newline. -/
def isUnsafe (c : CodePoint) : Bool :=
  c.val == 0x09 || c.val == 0x0D || c.val == 0x0A

/-- The part before the first `sep`, whether there is one, and the part after it. -/
def partition (sep : CodePoint) (s : PyStr) : PyStr × Bool × PyStr :=
  match s.dropWhile (· ≠ sep) with
  | [] => (s, false, [])
  | _ :: rest => (s.takeWhile (· ≠ sep), true, rest)

/-- The part after the last `sep`: `s.rpartition(sep)[2]`. -/
def afterLast (sep : CodePoint) (s : PyStr) : PyStr :=
  (s.reverse.takeWhile (· ≠ sep)).reverse

/-- `SplitResult`. -/
structure SplitResult where
  scheme : PyStr
  netloc : PyStr
  path : PyStr
  query : PyStr
  fragment : PyStr
deriving DecidableEq

/-! ## `_check_bracketed_netloc` and `_checknetloc` -/

def isHex (c : CodePoint) : Bool :=
  (hexadecimalDigit c).isSome

/-- `re.match(r"\Av[a-fA-F0-9]+\..+\z", hostname)`, after the `v`: `.` is any character but
a newline. -/
def isIpFuture (s : PyStr) : Bool :=
  let digits := s.takeWhile isHex
  match s.dropWhile isHex with
  | dot :: rest =>
      !digits.isEmpty && decide (dot = IpAddress.dot) && !rest.isEmpty &&
        rest.all (fun c => decide (c.val ≠ 0x0A))
  | [] => false

/-- `_check_bracketed_host`, as whether it passes. -/
def bracketedHostOk (hostname : PyStr) : Bool :=
  match hostname with
  | [] => false
  | c :: rest =>
      if c.val = 0x76 then isIpFuture rest
      else
        match IpAddress.ipAddress hostname with
        | some address => decide (address.version = .v6)
        | none => false

/-- `_check_bracketed_netloc`. -/
def bracketedNetlocOk (netloc : PyStr) : Bool :=
  let hostnameAndPort := afterLast atSign netloc
  match partition openBracket hostnameAndPort with
  | (before, true, bracketed) =>
      if before ≠ [] then false
      else
        let (hostname, _, port) := partition closeBracket bracketed
        if port ≠ [] ∧ port.head? ≠ some colon then false
        else bracketedHostOk hostname
  | (_, false, _) => bracketedHostOk (partition colon hostnameAndPort).1

/-- The brackets of a `netloc` are in order. -/
def bracketsOk (netloc : PyStr) : Bool :=
  if decide (openBracket ∈ netloc) != decide (closeBracket ∈ netloc) then false
  else if openBracket ∈ netloc then bracketedNetlocOk netloc
  else true

/-- `_checknetloc`: no delimiter comes out of the NFKC form. -/
def netlocOk (nfkc : PyStr → PyStr) (netloc : PyStr) : Bool :=
  if netloc.all (fun c => decide (c.val < 0x80)) then true
  else
    let n := netloc.filter fun c =>
      decide (c ≠ atSign ∧ c ≠ colon ∧ c ≠ hash ∧ c ≠ question)
    let normal := nfkc n
    if n = normal then true
    else normal.all fun c =>
      decide (c ≠ slash ∧ c ≠ question ∧ c ≠ hash ∧ c ≠ atSign ∧ c ≠ colon)

/-! ## `urlsplit` -/

section Urlsplit

variable (m : CaseMap) (nfkc : PyStr → PyStr)

/-- The scheme, when there is one, and what comes after its colon. -/
def splitScheme (url : PyStr) : PyStr × PyStr :=
  match partition colon url with
  | (name, true, rest) =>
      if (name.head?.any isAsciiLetter) && name.all isSchemeChar then (m.lower name, rest)
      else ([], url)
  | (_, false, _) => ([], url)

def isDelimiter (c : CodePoint) : Bool :=
  decide (c = slash ∨ c = question ∨ c = hash)

/-- The `netloc` after two slashes, and the rest. -/
def splitNetloc (url : PyStr) : PyStr × PyStr :=
  match url with
  | a :: b :: rest =>
      if a = slash ∧ b = slash then
        (rest.takeWhile (fun c => !isDelimiter c), rest.dropWhile (fun c => !isDelimiter c))
      else ([], url)
  | _ => ([], url)

/-- What is split at all: no control characters or spaces in front, no tabs and line ends
anywhere. -/
def cleaned (url : PyStr) : PyStr :=
  (url.dropWhile (fun c => c.val ≤ 0x20)).filter (fun c => !isUnsafe c)

def urlsplit (url : PyStr) : Option SplitResult :=
  let (scheme, rest) := splitScheme m (cleaned url)
  let (netloc, rest) := splitNetloc rest
  if !bracketsOk netloc then none
  else
    let (rest, _, fragment) := partition hash rest
    let (path, _, query) := partition question rest
    if !netlocOk nfkc netloc then none
    else some ⟨scheme, netloc, path, query, fragment⟩

end Urlsplit

namespace SplitResult

variable (m : CaseMap) (r : SplitResult)

/-- `_hostinfo`: the host and the port as they stand in the `netloc`. -/
def hostinfo : PyStr × PyStr :=
  let hostinfo := afterLast atSign r.netloc
  match partition openBracket hostinfo with
  | (_, true, bracketed) =>
      let (hostname, _, port) := partition closeBracket bracketed
      (hostname, (partition colon port).2.2)
  | (_, false, _) =>
      let (hostname, _, port) := partition colon hostinfo
      (hostname, port)

/-- `hostname`: in lower case, the zone of an address excepted. -/
def hostname : Option PyStr :=
  match r.hostinfo.1 with
  | [] => none
  | c :: s =>
      let (host, found, zone) := partition percent (c :: s)
      some (m.lower host ++ (if found then [percent] else []) ++ zone)

/-- `port`: none is `ValueError`, and none inside it that there is no port.  `int` takes
4300 digits at most. -/
def port : Option (Option Nat) :=
  match r.hostinfo.2 with
  | [] => some none
  | digits =>
      match if digits.length ≤ 4300 then number 10 decimalDigit digits else none with
      | none => none
      | some n => if n ≤ 65535 then some (some n) else none

end SplitResult

/-! ## Partitions -/

section Partition

variable {sep : CodePoint} {s : PyStr}

theorem takeWhile_of_notMem (h : sep ∉ s) : s.takeWhile (· ≠ sep) = s := by
  refine List.takeWhile_eq_self_iff.mpr fun c hc => ?_
  simpa using fun heq : c = sep => h (heq ▸ hc)

theorem takeWhile_append_sep (h : sep ∉ s) (rest : PyStr) :
    (s ++ sep :: rest).takeWhile (· ≠ sep) = s := by
  rw [List.takeWhile_append_of_pos, List.takeWhile_cons_of_neg (by simp), List.append_nil]
  intro c hc
  simpa using fun heq : c = sep => h (heq ▸ hc)

theorem dropWhile_append_sep (h : sep ∉ s) (rest : PyStr) :
    (s ++ sep :: rest).dropWhile (· ≠ sep) = sep :: rest := by
  rw [List.dropWhile_append_of_pos, List.dropWhile_cons_of_neg (by simp)]
  intro c hc
  simpa using fun heq : c = sep => h (heq ▸ hc)

theorem partition_append_sep (h : sep ∉ s) (rest : PyStr) :
    partition sep (s ++ sep :: rest) = (s, true, rest) := by
  rw [partition, dropWhile_append_sep h]
  simp only [takeWhile_append_sep h]

theorem partition_of_notMem (h : sep ∉ s) : partition sep s = (s, false, []) := by
  have hdrop : s.dropWhile (· ≠ sep) = [] := by
    refine List.dropWhile_eq_nil_iff.mpr fun c hc => ?_
    simpa using fun heq : c = sep => h (heq ▸ hc)
  rw [partition, hdrop]

theorem partition_fst (sep : CodePoint) (s : PyStr) :
    (partition sep s).1 = s.takeWhile (· ≠ sep) := by
  by_cases h : sep ∈ s
  · obtain ⟨x, y, rfl, hx⟩ := List.eq_append_cons_of_mem h
    rw [partition_append_sep hx, takeWhile_append_sep hx]
  · rw [partition_of_notMem h, takeWhile_of_notMem h]

theorem afterLast_of_notMem (h : sep ∉ s) : afterLast sep s = s := by
  have hrev : sep ∉ s.reverse := fun hmem => h (List.mem_reverse.mp hmem)
  rw [afterLast, takeWhile_of_notMem hrev, List.reverse_reverse]

end Partition

/-! ## URLs that are put together -/

/-- The characters of host names and of IPv4 addresses: letters, digits, hyphens, dots and
underscores. -/
def isNameChar (c : CodePoint) : Bool :=
  isAsciiLetter c || isAsciiDigit c || c.val == 0x2D || c.val == 0x2E || c.val == 0x5F

/-- The text of a host name. -/
structure IsName (s : PyStr) : Prop where
  ne_nil : s ≠ []
  chars : ∀ c ∈ s, isNameChar c = true

/-- What a request asks for: a path, a query or both, or nothing, without tabs and line
ends. -/
structure IsTarget (s : PyStr) : Prop where
  head : ∀ c, s.head? = some c → isDelimiter c = true
  safe : ∀ c ∈ s, isUnsafe c = false

/-- The path of a target. -/
def targetPath (s : PyStr) : PyStr :=
  (s.takeWhile (· ≠ hash)).takeWhile (· ≠ question)

/-- A scheme of lower-case letters. -/
structure IsScheme (s : PyStr) : Prop where
  ne_nil : s ≠ []
  letters : ∀ c ∈ s, 0x61 ≤ c.val ∧ c.val ≤ 0x7A

/-- What a host and a port are made of: no delimiter, no bracket, nothing outside ASCII. -/
structure IsAuthority (s : PyStr) : Prop where
  ascii : ∀ c ∈ s, c.val < 0x80
  undelimited : ∀ c ∈ s, isDelimiter c = false
  safe : ∀ c ∈ s, isUnsafe c = false
  unbracketed : openBracket ∉ s ∧ closeBracket ∉ s

section Compose

variable {scheme authority target : PyStr}

/-- Nothing before the host is taken away. -/
theorem cleaned_scheme (hscheme : IsScheme scheme) (rest : PyStr) :
    cleaned (scheme ++ colon :: slash :: slash :: rest) =
      scheme ++ colon :: slash :: slash :: rest.filter (fun c => !isUnsafe c) := by
  have hletters : ∀ c ∈ scheme, (!isUnsafe c) = true := by
    intro c hc
    have := hscheme.letters c hc
    simp only [isUnsafe, Bool.not_eq_true', Bool.or_eq_false_iff, beq_eq_false_iff_ne]
    omega
  have hsafe := List.filter_eq_self.mpr hletters
  obtain ⟨c, scheme, rfl⟩ := List.exists_cons_of_ne_nil hscheme.ne_nil
  have hc := hscheme.letters c List.mem_cons_self
  rw [cleaned, List.cons_append, List.dropWhile_cons_of_neg (by simp; omega),
    ← List.cons_append, List.filter_append, hsafe]
  rfl

theorem IsScheme.lower_eq (m : CaseMap) (h : IsScheme scheme) : m.lower scheme = scheme := by
  have hascii : ∀ c ∈ scheme, c.val < 0x80 := fun c hc => by
    have := h.letters c hc
    omega
  have hkeep : scheme.map lowerAscii = scheme.map id := by
    refine List.map_congr_left fun c hc => lowerAscii_eq_self ?_
    have := h.letters c hc
    omega
  rw [m.lower_ascii hascii, hkeep, List.map_id]

theorem splitScheme_compose (m : CaseMap) (hscheme : IsScheme scheme) (rest : PyStr) :
    splitScheme m (scheme ++ colon :: rest) = (scheme, rest) := by
  have hcolon : colon ∉ scheme := by
    intro hmem
    have := hscheme.letters colon hmem
    revert this
    decide
  have hchar : ∀ c ∈ scheme, isAsciiLetter c = true := by
    intro c hc
    have := hscheme.letters c hc
    simp only [isAsciiLetter, Bool.or_eq_true, Bool.and_eq_true, decide_eq_true_eq]
    omega
  have hhead : scheme.head?.any isAsciiLetter = true := by
    obtain ⟨c, scheme, rfl⟩ := List.exists_cons_of_ne_nil hscheme.ne_nil
    simpa using hchar c List.mem_cons_self
  have hall : scheme.all isSchemeChar = true := by
    refine List.all_eq_true.mpr fun c hc => ?_
    simp [isSchemeChar, hchar c hc]
  rw [splitScheme, partition_append_sep hcolon]
  simp only [hhead, hall, Bool.and_self, if_true, hscheme.lower_eq m]

theorem splitNetloc_compose (hauthority : IsAuthority authority) (htarget : IsTarget target) :
    splitNetloc (slash :: slash :: (authority ++ target)) = (authority, target) := by
  have hkeep : ∀ c ∈ authority, (!isDelimiter c) = true := fun c hc => by
    simp [hauthority.undelimited c hc]
  have hstop : target.takeWhile (fun c => !isDelimiter c) = [] ∧
      target.dropWhile (fun c => !isDelimiter c) = target := by
    cases target with
    | nil => exact ⟨rfl, rfl⟩
    | cons c target =>
        have hc := htarget.head c rfl
        simp [hc]
  rw [splitNetloc, if_pos ⟨rfl, rfl⟩, List.takeWhile_append_of_pos hkeep,
    List.dropWhile_append_of_pos hkeep, hstop.1, hstop.2, List.append_nil]

/-- **A URL put together is split into its parts.** -/
theorem urlsplit_compose (m : CaseMap) (nfkc : PyStr → PyStr) (hscheme : IsScheme scheme)
    (hauthority : IsAuthority authority) (htarget : IsTarget target) :
    ∃ query fragment,
      urlsplit m nfkc (scheme ++ colon :: slash :: slash :: (authority ++ target)) =
        some ⟨scheme, authority, targetPath target, query, fragment⟩ := by
  have hbrackets : bracketsOk authority = true := by
    simp [bracketsOk, hauthority.unbracketed.1, hauthority.unbracketed.2]
  have hnetloc : netlocOk nfkc authority = true := by
    have hascii : authority.all (fun c => decide (c.val < 0x80)) = true := by
      simpa using hauthority.ascii
    rw [netlocOk, if_pos hascii]
  refine ⟨(partition question (partition hash target).1).2.2, (partition hash target).2.2, ?_⟩
  have hclean : (authority ++ target).filter (fun c => !isUnsafe c) = authority ++ target := by
    refine List.filter_eq_self.mpr fun c hc => ?_
    rcases List.mem_append.mp hc with hc | hc
    · simp [hauthority.safe c hc]
    · simp [htarget.safe c hc]
  rw [urlsplit, cleaned_scheme hscheme, hclean, splitScheme_compose m hscheme]
  simp only [splitNetloc_compose hauthority htarget, hbrackets, hnetloc, Bool.not_true,
    Bool.false_eq_true, if_false]
  simp only [targetPath, partition_fst]

/-- Whatever stands between the two slashes and a target, the `netloc` is a part of it. -/
theorem netloc_sublist {m : CaseMap} {nfkc : PyStr → PyStr} {rest : PyStr} {r : SplitResult}
    (hscheme : IsScheme scheme) (htarget : IsTarget target)
    (h : urlsplit m nfkc (scheme ++ colon :: slash :: slash :: (rest ++ target)) = some r) :
    r.netloc.Sublist rest := by
  have hkept : target.filter (fun c => !isUnsafe c) = target :=
    List.filter_eq_self.mpr fun c hc => by simp [htarget.safe c hc]
  have hstop : target.takeWhile (fun c => !isDelimiter c) = [] := by
    cases target with
    | nil => rfl
    | cons c target => simp [htarget.head c rfl]
  rw [urlsplit, cleaned_scheme hscheme, splitScheme_compose m hscheme, List.filter_append,
    hkept] at h
  simp only [splitNetloc, and_self, if_true, List.takeWhile_append, hstop, List.append_nil] at h
  split_ifs at h
  all_goals cases h
  · exact List.filter_sublist
  · exact (List.takeWhile_sublist _).trans List.filter_sublist

end Compose

/-! ## Hosts and ports -/

/-- A port after a colon, or nothing. -/
def portText : Option Nat → PyStr
  | none => []
  | some n => colon :: strNat n

/-- The same host, but for the case of its letters. -/
def SameHost (a b : PyStr) : Prop :=
  a.map lowerAscii = b.map lowerAscii

theorem IsName.notMem {s : PyStr} {c : CodePoint} (h : IsName s) (hc : isNameChar c = false) :
    c ∉ s := by
  intro hmem
  rw [h.chars c hmem] at hc
  cases hc

theorem val_of_isNameChar {c : CodePoint} (h : isNameChar c = true) :
    0x2D ≤ c.val ∧ c.val ≤ 0x7A ∧ c.val ≠ 0x2F ∧ c.val ≠ 0x3A ∧ c.val ≠ 0x3F ∧ c.val ≠ 0x5B ∧
      c.val ≠ 0x5D := by
  simp only [isNameChar, isAsciiLetter, isAsciiDigit, Bool.or_eq_true, Bool.and_eq_true,
    decide_eq_true_eq, beq_iff_eq] at h
  omega

theorem isAuthority_of_val {s : PyStr}
    (h : ∀ c ∈ s, 0x2D ≤ c.val ∧ c.val ≤ 0x7A ∧ c.val ≠ 0x2F ∧ c.val ≠ 0x3F ∧ c.val ≠ 0x5B ∧
      c.val ≠ 0x5D) : IsAuthority s where
  ascii c hc := by
    have := h c hc
    omega
  undelimited c hc := by
    have := h c hc
    simp only [isDelimiter, slash, question, hash, decide_eq_false_iff_not, Fin.ext_iff]
    omega
  safe c hc := by
    have := h c hc
    simp only [isUnsafe, Bool.or_eq_false_iff, beq_eq_false_iff_ne]
    omega
  unbracketed := by
    refine ⟨fun hmem => ?_, fun hmem => ?_⟩
    · exact (h _ hmem).2.2.2.2.1 rfl
    · exact (h _ hmem).2.2.2.2.2 rfl

section Authority

variable {host : PyStr} (port : Option Nat)

theorem IsName.isAuthority (h : IsName host) : IsAuthority (host ++ portText port) := by
  refine isAuthority_of_val fun c hc => ?_
  rcases List.mem_append.mp hc with hc | hc
  · have := val_of_isNameChar (h.chars c hc)
    omega
  · cases port with
    | none => cases hc
    | some n =>
        rcases List.mem_cons.mp hc with rfl | hc
        · decide
        · have := val_of_mem_strNat hc
          omega

variable {r : SplitResult}

theorem hostinfo_compose (h : IsName host) (hr : r.netloc = host ++ portText port) :
    r.hostinfo = (host, (port.map strNat).getD []) := by
  have hauthority := h.isAuthority port
  have hat : atSign ∉ host ++ portText port := by
    intro hmem
    rcases List.mem_append.mp hmem with hmem | hmem
    · exact h.notMem (by decide) hmem
    · cases port with
      | none => cases hmem
      | some n =>
          rcases List.mem_cons.mp hmem with heq | hmem
          · exact absurd heq (by decide)
          · exact absurd (val_of_mem_strNat hmem) (by decide)
  have hcolon : colon ∉ host := h.notMem (by decide)
  rw [SplitResult.hostinfo, hr, afterLast_of_notMem hat,
    partition_of_notMem hauthority.unbracketed.1]
  cases port with
  | none =>
      simp only [portText, List.append_nil, partition_of_notMem hcolon]
      rfl
  | some n =>
      simp only [portText, partition_append_sep hcolon]
      rfl

theorem hostname_compose (m : CaseMap) (h : IsName host)
    (hr : r.netloc = host ++ portText port) : r.hostname m = some (host.map lowerAscii) := by
  have hpercent : percent ∉ host := h.notMem (by decide)
  have hascii : ∀ c ∈ host, c.val < 0x80 := fun c hc => by
    have := val_of_isNameChar (h.chars c hc)
    omega
  obtain ⟨c, s, rfl⟩ := List.exists_cons_of_ne_nil h.ne_nil
  rw [SplitResult.hostname, hostinfo_compose port h hr]
  simp [partition_of_notMem hpercent, m.lower_ascii hascii]

theorem port_compose (h : IsName host) (hport : ∀ n, port = some n → n ≤ 65535)
    (hr : r.netloc = host ++ portText port) : r.port = some port := by
  rw [SplitResult.port, hostinfo_compose port h hr]
  cases port with
  | none => rfl
  | some n =>
      have hn := hport n rfl
      have hlen : (strNat n).length ≤ 5 := length_strNat_le (by decide) (by omega)
      have hread := number_strNat n
      obtain ⟨c, s, hs⟩ := List.exists_cons_of_ne_nil (strNat_ne_nil n)
      rw [hs] at hlen hread
      simp only [Option.map_some, Option.getD_some, hs]
      rw [if_pos (by omega), hread]
      exact if_pos hn

theorem sameHost_lower (host : PyStr) : SameHost (host.map lowerAscii) host := by
  rw [SameHost, List.map_map]
  exact List.map_congr_left fun c _ => lowerAscii_lowerAscii c

end Authority

/-! ## Hosts with colons -/

theorem partition_concat (sep : CodePoint) (s : PyStr) :
    (partition sep s).1 ++ (if (partition sep s).2.1 then [sep] else []) ++
      (partition sep s).2.2 = s := by
  by_cases h : sep ∈ s
  · obtain ⟨x, y, rfl, hx⟩ := List.eq_append_cons_of_mem h
    rw [partition_append_sep hx]
    simp
  · rw [partition_of_notMem h]
    simp

theorem afterLast_sublist (sep : CodePoint) (s : PyStr) : (afterLast sep s).Sublist s := by
  have h : (s.reverse.takeWhile (· ≠ sep)).Sublist s.reverse := List.takeWhile_sublist _
  have hrev := List.reverse_sublist.mpr h
  rwa [List.reverse_reverse] at hrev

section Colon

variable {m : CaseMap} {r : SplitResult} {host h : PyStr} {x : CodePoint}

theorem SameHost.count_eq (hx : IsSign x) (hsame : SameHost h host) :
    h.count x = host.count x := by
  rw [← count_map_lowerAscii hx, hsame, count_map_lowerAscii hx]

/-- The signs of a `hostname` are those of the `netloc`'s host. -/
theorem count_hostname (hx : IsSign x) (hh : r.hostname m = some h) :
    h.count x = r.hostinfo.1.count x := by
  rw [SplitResult.hostname] at hh
  split at hh
  · cases hh
  · rename_i c s hs
    have hconcat := congrArg (List.count x) (partition_concat percent (c :: s))
    have hlower : m.lower (partition percent (c :: s)).1 ++
        (if (partition percent (c :: s)).2.1 then [percent] else []) ++
          (partition percent (c :: s)).2.2 = h := Option.some.inj hh
    rw [hs, ← hconcat, ← hlower]
    simp only [List.count_append, CaseMap.count_lower m hx]

/-- **A host with a colon in it does not come back**: without brackets the `netloc`'s host
ends at a colon, and with brackets it has lost one of its own. -/
theorem not_sameHost_of_colon {rest : PyStr} (hnetloc : r.netloc.Sublist (host ++ rest))
    (hrest : openBracket ∉ rest) (hcolon : colon ∈ host) (hh : r.hostname m = some h) :
    ¬SameHost h host := by
  intro hsame
  have hbracketSign : IsSign openBracket := .inr (.inl (by decide))
  have hbracket : (afterLast atSign r.netloc).count openBracket ≤ host.count openBracket := by
    have hle := ((afterLast_sublist atSign r.netloc).trans hnetloc).count_le openBracket
    rwa [List.count_append, List.count_eq_zero.mpr hrest, Nat.add_zero] at hle
  have hinfo : r.hostinfo.1.count colon = 0 ∨
      r.hostinfo.1.count openBracket < (afterLast atSign r.netloc).count openBracket := by
    rw [SplitResult.hostinfo]
    by_cases hopen : openBracket ∈ afterLast atSign r.netloc
    · obtain ⟨before, bracketed, hsplit, hbefore⟩ := List.eq_append_cons_of_mem hopen
      right
      simp only [hsplit, partition_append_sep hbefore, partition_fst, List.count_append,
        List.count_cons_self]
      have hhost : (bracketed.takeWhile (· ≠ closeBracket)).Sublist bracketed :=
        List.takeWhile_sublist _
      have hle := hhost.count_le openBracket
      omega
    · left
      simp only [partition_of_notMem hopen, partition_fst]
      refine List.count_eq_zero.mpr fun hmem => ?_
      simpa using List.mem_takeWhile_imp hmem
  rcases hinfo with hinfo | hinfo
  · have hcount := hsame.count_eq (x := colon) (.inl (by decide))
    rw [count_hostname (.inl (by decide)) hh, hinfo] at hcount
    exact List.count_eq_zero.mp hcount.symm hcolon
  · have hcount := hsame.count_eq hbracketSign
    rw [count_hostname hbracketSign hh] at hcount
    omega

end Colon

end UrlSplit
