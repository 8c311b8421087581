import ProbeAgent.LiveKey
import ProbeAgent.PinFile

/-!
# The life of an agent, over starts, renewals and deaths

An agent starts on its certificate directory, renews while it runs, and dies at any
moment, in the middle of a renewal included.  `LifeStep` is one such event.

Once it has served over mutual TLS it never listens on plain HTTP again.  Whether it
serves again at all is decided when it dies: `build_server_context` loads the directory
then, at this start and at every later one, or at none of them (`lost_for_good_iff`).  A
renewal that began on a directory that loads leaves one that does not exactly if it
`Spoils` it (`renewal_spoils_iff`).
-/

namespace ProbeAgent

open PyText Effects Runs

variable {K : Type}

/-- The agent is down, or listens. -/
inductive Life (K : Type)
  | down (d : Disk)
  | up (listener : Listener) (w : World K)

/-- The certificate directory. -/
def Life.disk : Life K → Disk
  | down d => d
  | up _ w => w.disk

/-- What happens to an agent: it is started, makes an attempt to renew in which a file
operation may fail, or dies in the middle of one. -/
inductive LifeEvent (K : Type)
  | boot (b : Boot K)
  | renew (a : Attempt K)
  | die (a : Attempt K)

section Machine

variable [DecidableEq K] (P : Platform K) (settings : AgentSettings)

def Life.next : Life K → LifeEvent K → Option (Life K)
  | down d, .boot b =>
      match bootOutcome P settings d b with
      | .exited => some (down (bootDisk P settings d b))
      | .serving listener => some (up listener (bootWorld P settings d b))
  | up listener w, .renew a => some (up listener (a.act P settings w))
  | up _ w, .die a => some (down (a.act P settings w).disk)
  | _, _ => none

def LifeStep (s : Life K) (e : LifeEvent K) (t : Life K) : Prop :=
  s.next P settings e = some t

/-- `build_server_context` loads the directory. -/
def Loadable (d : Disk) : Prop :=
  ∃ ctx, buildServerContext P settings d = .ok ctx

/-- The agent has all its files, and when it listens it is over mutual TLS. -/
def Life.Secured : Life K → Prop
  | down d => certsExist settings d = true
  | up listener w => certsExist settings w.disk = true ∧ listener = .mtls

/-- The agent is down, on a directory that is not loaded. -/
def Life.Lost : Life K → Prop
  | down d => ¬Loadable P settings d
  | up _ _ => False

/-- The agent dies, and leaves a directory that is not loaded. -/
def DiesSpoilt : Life K → LifeEvent K → Prop
  | .up _ w, .die a => ¬Loadable P settings (a.act P settings w).disk
  | _, _ => False

/-- The attempt replaces the key, and then not the certificate by one of the new key, or the
CA bundle by one that OpenSSL does not load. -/
def Spoils (w : World K) (a : Attempt K) : Prop :=
  ∃ data caRoot, acceptedRenewal P settings a.renewal w.disk = some (data, caRoot) ∧
    Reaches a.stop 3 ∧
      ∀ cert, answeredCertificate data = .ok cert → Reaches a.stop 6 →
        P.certificateKey cert = some a.renewal.newKey →
          ∃ bundle, caRoot.truthy = true ∧ caRoot.encode = .ok bundle ∧ Reaches a.stop 9 ∧
            P.loadCaFile bundle = none

end Machine

/-! ## The directory a context is built from -/

section Directories

variable [DecidableEq K] {P : Platform K} {settings : AgentSettings} {d d' : Disk}

/-- A directory loads when its key and certificate are a pair and its bundle loads. -/
theorem loadable_iff :
    Loadable P settings d ↔
      Matched P settings d ∧ ((d settings.caCertPath).bind P.loadCaFile).isSome := by
  rw [← loadCertChain_iff_matched]
  constructor
  · rintro ⟨ctx, h⟩
    obtain ⟨chain, hchain, hload⟩ := except_bind_eq_ok.mp h
    obtain ⟨pem, hread, hpem⟩ := except_bind_eq_ok.mp hload
    refine ⟨⟨chain, hchain⟩, ?_⟩
    rw [readBytes_eq_ok_iff.mp hread, Option.bind_some]
    cases hca : P.loadCaFile pem with
    | none => simp [hca] at hpem
    | some certs => rfl
  · rintro ⟨⟨chain, hchain⟩, hsome⟩
    obtain ⟨certs, hcerts⟩ := Option.isSome_iff_exists.mp hsome
    obtain ⟨pem, hfile, hca⟩ := Option.bind_eq_some_iff.mp hcerts
    refine ⟨{ chain with verifyLocations := chain.verifyLocations ++ certs },
      except_bind_eq_ok.mpr ⟨chain, hchain, ?_⟩⟩
    refine except_bind_eq_ok.mpr ⟨pem, readBytes_eq_ok_iff.mpr hfile, ?_⟩
    rw [hca]

/-- It depends on the three files only. -/
theorem loadable_congr (hkey : d' settings.keyPath = d settings.keyPath)
    (hcert : d' settings.certPath = d settings.certPath)
    (hca : d' settings.caCertPath = d settings.caCertPath) :
    Loadable P settings d' ↔ Loadable P settings d := by
  rw [loadable_iff, loadable_iff, Matched, Matched, keyOnDisk, keyOnDisk, certificateKeyOnDisk,
    certificateKeyOnDisk, hkey, hcert, hca]

end Directories

/-! ## The files an attempt leaves -/

section Files

variable {P : Platform K} {settings : AgentSettings}

theorem not_touched_by_atomicWrite {p path : Path} {data : Bytes} (hne : p ≠ path)
    (htmp : p ≠ tmpPath path) :
    ∀ op ∈ (atomicWriteOps path data : List (Op K)), p ∉ op.touches := by
  intro op hop hmem
  rcases touches_of_mem_atomicWrite hop p hmem with h | h
  · exact hne h
  · exact htmp h

/-- A run that may be stopped has replaced a file if it got as far as that, and otherwise
has left it alone. -/
theorem disk_after_cut_replace (p : Path) (data : Bytes) {pre : List (Op K)} (post : List (Op K))
    (hpre : ∀ op ∈ pre, p ∉ op.touches) (hpost : ∀ op ∈ post, p ∉ op.touches)
    (stop : Option Nat) (w : World K) :
    (after w (cut stop (pre ++ (atomicWriteOps p data ++ post)))).disk p =
      if Reaches stop (pre.length + 3) then some data else w.disk p := by
  split
  · rename_i hreach
    have hlen : (pre ++ (atomicWriteOps p data : List (Op K))).length = pre.length + 3 := by
      simp [atomicWriteOps]
    rw [← hlen] at hreach
    obtain ⟨us, hus, hmem⟩ := cut_append_of_reaches hreach post
    rw [← List.append_assoc, hus, after_append, after_append,
      after_disk_of_untouched _ us (fun op hop => hpost op (hmem op hop)),
      after_atomicWrite_disk, if_pos rfl]
  · rename_i hreach
    have hsplit : pre ++ (atomicWriteOps p data ++ post) =
        (pre ++ [.truncate (tmpPath p), .write (tmpPath p) data]) ++
          (.replace (tmpPath p) p :: post) := by
      simp [atomicWriteOps]
    have hlen : (pre ++ [.truncate (tmpPath p), .write (tmpPath p) data] :
        List (Op K)).length + 1 = pre.length + 3 := by
      simp
    rw [← hlen] at hreach
    refine after_disk_of_untouched w _ fun op hop hmem => ?_
    rw [hsplit] at hop
    rcases List.mem_append.mp (mem_of_mem_cut_append hreach hop) with hop | hop
    · exact hpre op hop hmem
    · have htouch : op.touches = [tmpPath p] := by
        simp only [List.mem_cons, List.not_mem_nil, or_false] at hop
        rcases hop with rfl | rfl
        · rfl
        · rfl
      rw [htouch, List.mem_singleton] at hmem
      exact tmpPath_ne p hmem.symm

/-- Where the files of an agent are apart. -/
theorem AgentSettings.Apart.not_touched (hapart : settings.Apart) {p path : Path}
    (hp : p ∈ settings.paths) (hne : p ≠ path)
    (hpath : tmpPath path ∈ settings.temporaryPaths) (data : Bytes) :
    ∀ op ∈ (atomicWriteOps path data : List (Op K)), p ∉ op.touches :=
  not_touched_by_atomicWrite hne (hapart.ne_temporary hp hpath)

/-- The three files of a context and the pins are four. -/
theorem AgentSettings.Apart.distinct (hapart : settings.Apart) :
    (settings.keyPath ≠ settings.certPath ∧ settings.keyPath ≠ settings.caCertPath ∧
        settings.keyPath ≠ settings.caPinsPath) ∧
      (settings.certPath ≠ settings.caCertPath ∧ settings.certPath ≠ settings.caPinsPath) ∧
      settings.caCertPath ≠ settings.caPinsPath := by
  have hpaths := hapart.paths_nodup
  simp only [AgentSettings.paths, List.nodup_cons, List.mem_cons, List.not_mem_nil, or_false,
    not_or] at hpaths
  exact ⟨⟨hpaths.1.1, hpaths.1.2.1, hpaths.1.2.2.1⟩, ⟨hpaths.2.1.1, hpaths.2.1.2.1⟩,
    hpaths.2.2.1.1⟩

theorem keyPath_mem_paths : settings.keyPath ∈ settings.paths := by simp [AgentSettings.paths]

theorem certPath_mem_paths : settings.certPath ∈ settings.paths := by simp [AgentSettings.paths]

theorem caCertPath_mem_paths : settings.caCertPath ∈ settings.paths := by
  simp [AgentSettings.paths]

theorem keyPath_temporary : tmpPath settings.keyPath ∈ settings.temporaryPaths := by
  simp [AgentSettings.temporaryPaths]

theorem certPath_temporary : tmpPath settings.certPath ∈ settings.temporaryPaths := by
  simp [AgentSettings.temporaryPaths]

theorem caCertPath_temporary : tmpPath settings.caCertPath ∈ settings.temporaryPaths := by
  simp [AgentSettings.temporaryPaths]

section Answered

variable (hapart : settings.Apart) (newKey : K) (cert : Bytes) (caRoot : Json)
  {reload : List (Op K)} (hreload : ∀ op ∈ reload, op.touches = [])
include hapart hreload

omit hapart in
theorem not_touched_by_reload (p : Path) : ∀ op ∈ reload, p ∉ op.touches := by
  intro op hop
  rw [hreload op hop]
  exact List.not_mem_nil

/-- What follows the certificate touches the bundle and the pins alone. -/
theorem not_touched_by_bundle {p : Path} (hp : p ∈ settings.paths)
    (hca : p ≠ settings.caCertPath) (hpins : p ≠ settings.caPinsPath) :
    ∀ op ∈ bundleOps P settings caRoot ++ reload, p ∉ op.touches := by
  intro op hop hmem
  rcases List.mem_append.mp hop with hop | hop
  · rcases touches_of_mem_bundleOps hop p hmem with h | h | h
    · exact hca h
    · exact hapart.ne_temporary hp caCertPath_temporary h
    · exact hpins h
  · exact not_touched_by_reload hreload p op hop hmem

omit hapart hreload in
theorem fileOps_append :
    fileOps P settings newKey cert caRoot ++ reload =
      atomicWriteOps settings.keyPath (P.privateKeyPem newKey) ++
        (atomicWriteOps settings.certPath cert ++ (bundleOps P settings caRoot ++ reload)) := by
  simp only [fileOps, List.append_assoc]

variable (stop : Option Nat) (w : World K)

theorem keyFile_after :
    (after w (cut stop (fileOps P settings newKey cert caRoot ++ reload))).disk settings.keyPath =
      if Reaches stop 3 then some (P.privateKeyPem newKey) else w.disk settings.keyPath := by
  obtain ⟨⟨hkeyCert, hkeyCa, hkeyPins⟩, -⟩ := hapart.distinct
  have hback : ∀ op ∈ (atomicWriteOps settings.certPath cert ++
      (bundleOps P settings caRoot ++ reload) : List (Op K)), settings.keyPath ∉ op.touches := by
    intro op hop
    rcases List.mem_append.mp hop with hop | hop
    · exact hapart.not_touched keyPath_mem_paths hkeyCert certPath_temporary _ op hop
    · exact not_touched_by_bundle hapart caRoot hreload keyPath_mem_paths hkeyCa hkeyPins op hop
  have h := disk_after_cut_replace settings.keyPath (P.privateKeyPem newKey) _
    (List.forall_mem_nil _) hback stop w
  rw [List.nil_append, ← fileOps_append] at h
  exact h

theorem certFile_after :
    (after w (cut stop (fileOps P settings newKey cert caRoot ++ reload))).disk settings.certPath =
      if Reaches stop 6 then some cert else w.disk settings.certPath := by
  obtain ⟨⟨hkeyCert, -, -⟩, ⟨hcertCa, hcertPins⟩, -⟩ := hapart.distinct
  have h := disk_after_cut_replace settings.certPath cert _
    (hapart.not_touched certPath_mem_paths (Ne.symm hkeyCert) keyPath_temporary
      (P.privateKeyPem newKey))
    (not_touched_by_bundle (P := P) hapart caRoot hreload certPath_mem_paths hcertCa hcertPins)
    stop w
  rw [← fileOps_append] at h
  exact h

omit hreload in
/-- What comes before the bundle does not touch it. -/
theorem caCertPath_not_touched :
    ∀ op ∈ (atomicWriteOps settings.keyPath (P.privateKeyPem newKey) ++
      atomicWriteOps settings.certPath cert : List (Op K)), settings.caCertPath ∉ op.touches := by
  obtain ⟨⟨-, hkeyCa, -⟩, ⟨hcertCa, -⟩, -⟩ := hapart.distinct
  intro op hop
  rcases List.mem_append.mp hop with hop | hop
  · exact hapart.not_touched caCertPath_mem_paths (Ne.symm hkeyCa) keyPath_temporary _ op hop
  · exact hapart.not_touched caCertPath_mem_paths (Ne.symm hcertCa) certPath_temporary _ op hop

theorem caFile_after {bundle : Bytes} (htruthy : caRoot.truthy = true)
    (hencode : caRoot.encode = .ok bundle) :
    (after w (cut stop (fileOps P settings newKey cert caRoot ++ reload))).disk
        settings.caCertPath =
      if Reaches stop 9 then some bundle else w.disk settings.caCertPath := by
  have hpins : ∀ op ∈ pinOps P settings bundle ++ reload, settings.caCertPath ∉ op.touches := by
    intro op hop hmem
    rcases List.mem_append.mp hop with hop | hop
    · rw [(touches_of_mem_pinOps hop).1, List.mem_singleton] at hmem
      exact hapart.distinct.2.2 hmem
    · exact not_touched_by_reload hreload _ op hop hmem
  have h := disk_after_cut_replace settings.caCertPath bundle _
    (caCertPath_not_touched (P := P) hapart newKey cert) hpins stop w
  rw [fileOps_append, bundleOps_of_encode P settings htruthy hencode, List.append_assoc]
  rw [List.append_assoc] at h
  exact h

/-- An answer whose bundle is none to be stored leaves the old one. -/
theorem caFile_kept (hnone : ∀ bundle, caRoot.truthy = true → caRoot.encode ≠ .ok bundle) :
    (after w (cut stop (fileOps P settings newKey cert caRoot ++ reload))).disk
      settings.caCertPath = w.disk settings.caCertPath := by
  have hempty : bundleOps P settings caRoot = [] := by
    by_cases htruthy : caRoot.truthy = true
    · cases hencode : caRoot.encode with
      | ok bundle => exact absurd hencode (hnone bundle htruthy)
      | error e => simp [bundleOps, htruthy, hencode]
    · exact bundleOps_of_falsy P settings (by simpa using htruthy)
  refine after_disk_of_untouched w _ fun op hop => ?_
  have hop := mem_of_mem_cut hop
  rw [fileOps_append, hempty, List.nil_append, ← List.append_assoc] at hop
  rcases List.mem_append.mp hop with hop | hop
  · exact caCertPath_not_touched hapart newKey cert op hop
  · exact not_touched_by_reload hreload _ op hop

end Answered

end Files

/-! ## The attempts that spoil the directory -/

section Spoiling

variable [DecidableEq K] {P : Platform K} {settings : AgentSettings}

/-- With a new key in place, the directory loads if the certificate is of this key and the
bundle loads. -/
theorem loadable_of_newKey (hpem : ∀ k, P.loadPemPrivateKey (P.privateKeyPem k) = some k)
    {d : Disk} {newKey : K} (hkey : d settings.keyPath = some (P.privateKeyPem newKey)) :
    Loadable P settings d ↔ certificateKeyOnDisk P settings d = some newKey ∧
      ((d settings.caCertPath).bind P.loadCaFile).isSome := by
  have hnew : keyOnDisk P settings d = some newKey := by
    rw [keyOnDisk, hkey, Option.bind_some, hpem]
  rw [loadable_iff, Matched]
  refine and_congr_left fun _ => ?_
  constructor
  · rintro ⟨key, hk, hcert⟩
    rw [hnew] at hk
    rwa [Option.some.inj hk]
  · exact fun hcert => ⟨newKey, hnew, hcert⟩

/-- An attempt whose answer has a certificate. -/
theorem spoilt_of_certificate (hapart : settings.Apart)
    (hpem : ∀ k, P.loadPemPrivateKey (P.privateKeyPem k) = some k) {newKey : K} {cert : Bytes}
    {caRoot : Json} {reload : List (Op K)} (hreload : ∀ op ∈ reload, op.touches = [])
    {stop : Option Nat} {w : World K} (hload : Loadable P settings w.disk)
    (hfresh : certificateKeyOnDisk P settings w.disk ≠ some newKey) :
    ¬Loadable P settings
        (after w (cut stop (fileOps P settings newKey cert caRoot ++ reload))).disk ↔
      Reaches stop 3 ∧ (Reaches stop 6 → P.certificateKey cert = some newKey →
        ∃ bundle, caRoot.truthy = true ∧ caRoot.encode = .ok bundle ∧ Reaches stop 9 ∧
          P.loadCaFile bundle = none) := by
  have hkey := keyFile_after (P := P) hapart newKey cert caRoot hreload stop w
  have hcert := certFile_after (P := P) hapart newKey cert caRoot hreload stop w
  have hsame := caFile_kept (P := P) hapart newKey cert caRoot hreload stop w
  have hca := (loadable_iff.mp hload).2
  by_cases h3 : Reaches stop 3
  · rw [if_pos h3] at hkey
    rw [loadable_of_newKey hpem hkey, and_iff_right h3, certificateKeyOnDisk, hcert]
    by_cases h6 : Reaches stop 6
    · rw [if_pos h6, Option.bind_some, imp_iff_right h6, not_and]
      refine imp_congr_right fun _ => ?_
      by_cases hnew : ∃ bundle, caRoot.truthy = true ∧ caRoot.encode = .ok bundle
      · obtain ⟨bundle, htruthy, hencode⟩ := hnew
        rw [caFile_after hapart newKey cert caRoot hreload stop w htruthy hencode]
        constructor
        · intro hnot
          split at hnot
          · rename_i h9
            exact ⟨bundle, htruthy, hencode, h9, by simpa using hnot⟩
          · exact absurd hca hnot
        · rintro ⟨bundle', -, hencode', h9, hnone⟩
          rw [hencode, Except.ok.injEq] at hencode'
          rw [if_pos h9, Option.bind_some, hencode', hnone]
          exact Bool.false_ne_true
      · rw [hsame fun bundle htruthy hencode => hnew ⟨bundle, htruthy, hencode⟩]
        refine iff_of_false (not_not.mpr hca) ?_
        rintro ⟨bundle, htruthy, hencode, -⟩
        exact hnew ⟨bundle, htruthy, hencode⟩
    · -- the new key stands beside the old certificate
      rw [if_neg h6]
      exact iff_of_true (fun h => hfresh h.1) fun h => absurd h h6
  · have h6 : ¬Reaches stop 6 := fun h => h3 (h.mono (by omega))
    have h9 : ¬Reaches stop 9 := fun h => h3 (h.mono (by omega))
    rw [if_neg h3] at hkey
    rw [if_neg h6] at hcert
    refine iff_of_false (not_not.mpr ?_) fun h => h3 h.1
    refine (loadable_congr hkey hcert ?_).mpr hload
    by_cases hnew : ∃ bundle, caRoot.truthy = true ∧ caRoot.encode = .ok bundle
    · obtain ⟨bundle, htruthy, hencode⟩ := hnew
      rw [caFile_after hapart newKey cert caRoot hreload stop w htruthy hencode, if_neg h9]
    · exact hsame fun bundle htruthy hencode => hnew ⟨bundle, htruthy, hencode⟩

/-- An attempt whose answer has none. -/
theorem spoilt_of_noCertificate (hapart : settings.Apart)
    (hpem : ∀ k, P.loadPemPrivateKey (P.privateKeyPem k) = some k) {newKey : K}
    {stop : Option Nat} {w : World K} (hload : Loadable P settings w.disk)
    (hfresh : certificateKeyOnDisk P settings w.disk ≠ some newKey) :
    ¬Loadable P settings
        (after w (cut stop (atomicWriteOps settings.keyPath (P.privateKeyPem newKey)))).disk ↔
      Reaches stop 3 := by
  obtain ⟨⟨hkeyCert, hkeyCa, -⟩, -⟩ := hapart.distinct
  have hkept : ∀ p ∈ settings.paths, p ≠ settings.keyPath →
      (after w (cut stop (atomicWriteOps settings.keyPath (P.privateKeyPem newKey)))).disk p =
        w.disk p := by
    intro p hp hne
    refine after_disk_of_untouched w _ fun op hop => ?_
    exact hapart.not_touched hp hne keyPath_temporary _ op (mem_of_mem_cut hop)
  have hcert := hkept settings.certPath certPath_mem_paths (Ne.symm hkeyCert)
  have hca := hkept settings.caCertPath caCertPath_mem_paths (Ne.symm hkeyCa)
  have hkey := disk_after_cut_replace settings.keyPath (P.privateKeyPem newKey) []
    (List.forall_mem_nil _) (List.forall_mem_nil _) stop w
  rw [List.nil_append, List.append_nil] at hkey
  by_cases h3 : Reaches stop 3
  · rw [if_pos (by simpa using h3)] at hkey
    rw [loadable_of_newKey hpem hkey, certificateKeyOnDisk, hcert]
    exact iff_of_true (fun h => hfresh h.1) h3
  · rw [if_neg (by simpa using h3)] at hkey
    exact iff_of_false (not_not.mpr ((loadable_congr hkey hcert hca).mpr hload)) h3

/-- The effects of an attempt whose answer is accepted: those that store its files, as far
as it has any. -/
theorem attempt_cases {w : World K} {a : Attempt K} {data caRoot : Json}
    (h : acceptedRenewal P settings a.renewal w.disk = some (data, caRoot)) :
    (∀ cert, answeredCertificate data ≠ .ok cert) ∧
        a.act P settings w = after w (cut a.stop
          (atomicWriteOps settings.keyPath (P.privateKeyPem a.renewal.newKey))) ∨
      ∃ cert reload, answeredCertificate data = .ok cert ∧
        (∀ op ∈ reload, op.touches = []) ∧
        a.act P settings w = after w (cut a.stop
          (fileOps P settings a.renewal.newKey cert caRoot ++ reload)) := by
  obtain ⟨-, -, slug, out, -, hrun, heffects⟩ := renewIfNeeded_of_some h
  rw [Attempt.act, Attempt.performed, Prog.performed, heffects]
  cases hrun with
  | noCertificate hnone => exact .inl ⟨hnone, rfl⟩
  | @badBundle cert exc hcert htruthy hbad =>
      have hempty : bundleOps P settings caRoot = [] := by
        cases hencode : caRoot.encode with
        | ok bundle => simp [Json.encodable, hencode] at hbad
        | error e => simp [bundleOps, htruthy, hencode]
      refine .inr ⟨cert, [], hcert, List.forall_mem_nil _, ?_⟩
      rw [fileOps, hempty, List.append_nil, List.append_nil]
  | @installed cert hcert hbundle =>
      exact .inr ⟨cert, _, hcert, hotReload_touches, rfl⟩

/-- **Attempts that spoil the directory.** On a directory that loads, an attempt with a fresh
key, in which a file operation may fail or the process may die, leaves one that does not load
exactly if it replaces the key, and then not the certificate by one of this key, or the bundle
by one that OpenSSL does not load. -/
theorem renewal_spoils_iff (P : Platform K) (settings : AgentSettings) (hapart : settings.Apart)
    (hpem : ∀ k, P.loadPemPrivateKey (P.privateKeyPem k) = some k) {w : World K} {a : Attempt K}
    (hload : Loadable P settings w.disk)
    (hfresh : certificateKeyOnDisk P settings w.disk ≠ some a.renewal.newKey) :
    ¬Loadable P settings (a.act P settings w).disk ↔ Spoils P settings w a := by
  cases haccepted : acceptedRenewal P settings a.renewal w.disk with
  | none =>
      rw [Attempt.act_of_none haccepted]
      refine iff_of_false (not_not.mpr hload) ?_
      rintro ⟨data, caRoot, h, -⟩
      rw [haccepted] at h
      cases h
  | some answer =>
      obtain ⟨data, caRoot⟩ := answer
      have hspoils : Spoils P settings w a ↔ Reaches a.stop 3 ∧
          ∀ cert, answeredCertificate data = .ok cert → Reaches a.stop 6 →
            P.certificateKey cert = some a.renewal.newKey →
              ∃ bundle, caRoot.truthy = true ∧ caRoot.encode = .ok bundle ∧ Reaches a.stop 9 ∧
                P.loadCaFile bundle = none := by
        constructor
        · rintro ⟨data', caRoot', h, hrest⟩
          rw [haccepted] at h
          cases h
          exact hrest
        · exact fun h => ⟨data, caRoot, haccepted, h⟩
      rw [hspoils]
      rcases attempt_cases haccepted with ⟨hnone, hact⟩ | ⟨cert, reload, hcert, hreload, hact⟩
      · rw [hact, spoilt_of_noCertificate hapart hpem hload hfresh]
        exact ⟨fun h3 => ⟨h3, fun cert hcert => absurd hcert (hnone cert)⟩, fun h => h.1⟩
      · rw [hact, spoilt_of_certificate hapart hpem hreload hload hfresh]
        refine and_congr_right fun _ => ⟨fun h cert' hcert' => ?_, fun h => h cert hcert⟩
        rw [hcert, Except.ok.injEq] at hcert'
        exact hcert' ▸ h

/-- An attempt that dies between its two replacements. -/
def sampleDeath : Attempt UInt8 :=
  ⟨sampleRenewal (.obj [(py "certificatePem", .str (py "C2"))]), some 3⟩

theorem sampleDisk_loadable : Loadable samplePlatform sampleSettings sampleDisk :=
  loadable_iff.mpr ⟨⟨0x31, by decide, by decide⟩, by decide⟩

theorem renewal_spoils_iff_parted :
    ¬Loadable samplePlatform sampleSettings
        (sampleDeath.act samplePlatform sampleSettings ⟨sampleDisk, none, none⟩).disk ↔
      Spoils samplePlatform sampleSettings ⟨sampleDisk, none, none⟩ sampleDeath :=
  renewal_spoils_iff samplePlatform sampleSettings (by decide) (fun _ => rfl)
    sampleDisk_loadable (by decide)

end Spoiling

/-! ## Starts, renewals and deaths in any order -/

section Lives

variable [DecidableEq K] {P : Platform K} {settings : AgentSettings}

/-- No attempt removes a file of the agent. -/
theorem exists_after_attempt (hapart : settings.Apart) {p : Path} (hp : p ∈ settings.paths)
    {w : World K} (h : pathExists w.disk p = true) (a : Attempt K) :
    pathExists (a.act P settings w).disk p = true := by
  cases haccepted : acceptedRenewal P settings a.renewal w.disk with
  | none =>
      rw [Attempt.act_of_none haccepted]
      exact h
  | some answer =>
      obtain ⟨data, caRoot⟩ := answer
      obtain ⟨-, -, slug, out, -, hrun, heffects⟩ := renewIfNeeded_of_some haccepted
      rw [Attempt.act, Attempt.performed, Prog.performed, heffects]
      exact (hrun.passes_exists (fun _ => hotReload_touches)
        (fun t ht => hapart.ne_temporary hp ht) h).at_cut a.stop

theorem certsExist_after_attempt (hapart : settings.Apart) {w : World K}
    (h : certsExist settings w.disk = true) (a : Attempt K) :
    certsExist settings (a.act P settings w).disk = true := by
  obtain ⟨hca, hcert, hkey⟩ := certsExist_eq_true_iff.mp h
  refine certsExist_eq_true_iff.mpr ⟨?_, ?_, ?_⟩
  · exact exists_after_attempt hapart caCertPath_mem_paths hca a
  · exact exists_after_attempt hapart certPath_mem_paths hcert a
  · exact exists_after_attempt hapart keyPath_mem_paths hkey a

/-- A start on a full directory listens over mutual TLS if it loads it and is not stopped;
otherwise it ends. -/
theorem bootOutcome_of_certs {d : Disk} (hcerts : certsExist settings d = true) (b : Boot K) :
    bootOutcome P settings d b = .serving .mtls ∧ b.death = none ∧ Loadable P settings d ∨
      bootOutcome P settings d b = .exited ∧ ¬(b.death = none ∧ Loadable P settings d) := by
  have hmain := run_main_of_certs (P := P) b.enrolment hcerts
  unfold bootOutcome
  cases hdeath : b.death with
  | some n => exact .inr ⟨rfl, nofun⟩
  | none =>
      cases hctx : buildServerContext P settings d with
      | error exc =>
          have hrun : (serve P settings).run (newProcess d) = ([], .error exc) := by
            rw [serve, Prog.run_look_bind, newProcess_disk, if_pos hcerts, hctx,
              Prog.run_ofExcept_error_bind]
          refine .inr ⟨by rw [Prog.result_of_run (hmain.trans hrun)], fun h => ?_⟩
          obtain ⟨-, ctx, hload⟩ := h
          rw [hctx] at hload
          cases hload
      | ok ctx =>
          have hresult : (serve P settings).result (newProcess d) = .ok .mtls := by
            rw [Prog.result, serve, Prog.run_look_bind, newProcess_disk, if_pos hcerts, hctx,
              Prog.run_ofExcept_ok_bind, Prog.bind_ok (Prog.run_perform _ _),
              Prog.bind_ok (Prog.run_perform _ _), Prog.run_pure]
          have hmtls : (main P settings b.enrolment).result (newProcess d) = .ok .mtls := by
            rw [Prog.result, hmain]
            exact hresult
          exact .inl ⟨by rw [hmtls], rfl, ctx, hctx⟩

/-- A start on a full directory. -/
theorem boot_next {d : Disk} (hcerts : certsExist settings d = true) (b : Boot K) :
    (Life.down d).next P settings (.boot b) = some (.up .mtls (bootWorld P settings d b)) ∧
        b.death = none ∧ Loadable P settings d ∨
      (Life.down d).next P settings (.boot b) = some (.down d) ∧
        ¬(b.death = none ∧ Loadable P settings d) := by
  rcases bootOutcome_of_certs hcerts b with ⟨hout, h⟩ | ⟨hout, h⟩
  · exact .inl ⟨by simp only [Life.next, hout], h⟩
  · exact .inr ⟨by simp only [Life.next, hout, bootDisk_of_certs hcerts], h⟩

/-- The step of an agent that has its files. -/
theorem life_step (hapart : settings.Apart) {s t : Life K} {e : LifeEvent K}
    (hst : LifeStep P settings s e t) (hs : s.Secured settings) :
    t.Secured settings ∧
      (t.Lost P settings ↔ s.Lost P settings ∨ DiesSpoilt P settings s e) ∧
      (s.Lost P settings → t = s) := by
  cases s with
  | down d =>
      cases e with
      | boot b =>
          rcases boot_next (P := P) hs b with ⟨hnext, -, hload⟩ | ⟨hnext, -⟩
          · rw [LifeStep, hnext] at hst
            obtain rfl := Option.some.inj hst
            refine ⟨⟨?_, rfl⟩, ?_, fun hlost => absurd hload hlost⟩
            · have hdisk : (bootWorld P settings d b).disk = d := bootDisk_of_certs hs
              rw [hdisk]
              exact hs
            · exact iff_of_false id fun h => h.elim (fun hlost => hlost hload) id
          · rw [LifeStep, hnext] at hst
            obtain rfl := Option.some.inj hst
            exact ⟨hs, (or_iff_left id).symm, fun _ => rfl⟩
      | renew a => cases hst
      | die a => cases hst
  | up listener w =>
      obtain ⟨hcerts, hlistener⟩ := hs
      cases e with
      | boot b => cases hst
      | renew a =>
          obtain rfl := Option.some.inj hst
          refine ⟨⟨certsExist_after_attempt hapart hcerts a, hlistener⟩, ?_, False.elim⟩
          exact iff_of_false id fun h => h.elim id id
      | die a =>
          obtain rfl := Option.some.inj hst
          refine ⟨certsExist_after_attempt hapart hcerts a, ?_, False.elim⟩
          exact (or_iff_right id).symm

/-- **Lost for good.** Over any order of starts, attempts to renew and deaths, an agent that
has its files keeps them and never listens on plain HTTP.  It ends lost exactly if it was or
some death left a directory that does not load; it then stays as it is whatever happens, while
one that is down and not lost is back with the next start. -/
theorem lost_for_good_iff (P : Platform K) (settings : AgentSettings) (hapart : settings.Apart)
    {s : Life K} {r : List (LifeEvent K × Life K)} (hr : Run (LifeStep P settings) s r)
    (hs : s.Secured settings) :
    (∀ t ∈ statesOf s r, t.Secured settings) ∧
      ((lastState s r).Lost P settings ↔
        s.Lost P settings ∨ ¬Along (fun s e _ => ¬DiesSpoilt P settings s e) s r) ∧
      (∀ t ∈ statesOf s r, t.Lost P settings →
        ∀ r', Run (LifeStep P settings) t r' → ∀ u ∈ statesOf t r', u = t) ∧
      ∀ d, .down d ∈ statesOf s r → ¬(Life.down d).Lost P settings →
        ∀ e, ∃ w, LifeStep P settings (.down d) (.boot ⟨e, none⟩) (.up .mtls w) := by
  have hsecured := invariant_statesOf (Life.Secured settings)
    (fun hst hs => (life_step hapart hst hs).1) hr hs
  refine ⟨hsecured, ?_, ?_, ?_⟩
  · exact marked_lastState_iff (Life.Secured settings)
      (fun hst hs => (life_step hapart hst hs).1)
      (fun hst hs => (life_step hapart hst hs).2.1) hr hs
  · intro t ht hlost r' hr'
    have hall := invariant_statesOf (fun u => u = t)
      (fun hst hu => by
        subst hu
        exact (life_step hapart hst (hsecured _ ht)).2.2 hlost) hr' rfl
    exact hall
  · intro d hd hlost e
    rcases boot_next (P := P) (hsecured _ hd) ⟨e, none⟩ with ⟨hnext, -⟩ | ⟨-, hnot⟩
    · exact ⟨_, hnext⟩
    · exact absurd ⟨rfl, not_not.mp hlost⟩ hnot

/-- The sample agent dies between two replacements. -/
theorem lost_for_good_iff_parted :
    let d := (sampleDeath.act samplePlatform sampleSettings ⟨sampleDisk, none, none⟩).disk
    let s := Life.up .mtls ⟨sampleDisk, none, none⟩
    let r := [(LifeEvent.die sampleDeath, Life.down d)]
    ((lastState s r).Lost samplePlatform sampleSettings ↔
      s.Lost samplePlatform sampleSettings ∨
        ¬Along (fun s e _ => ¬DiesSpoilt samplePlatform sampleSettings s e) s r) := by
  intro d s r
  have hdie : LifeStep samplePlatform sampleSettings s (.die sampleDeath) (.down d) := rfl
  have hs : s.Secured sampleSettings := ⟨by decide, rfl⟩
  exact (lost_for_good_iff samplePlatform sampleSettings (by decide)
    (.cons hdie (.nil _)) hs).2.1

end Lives

end ProbeAgent
