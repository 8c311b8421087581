import ProbeAgent.Renewal
import ProbeAgent.Runs

/-!
# The trust anchor and its pins

An enrolment records the fingerprints of the bundle it was handed, and a renewal
that replaces the bundle advances them.  `Anchored` says that the two files agree:
the pins on record are the fingerprints of the stored bundle, and there are some.

* `trust_anchor_continuity`: over any calls of `_renew` after a completed enrolment
  the files stay anchored, consecutive bundles share a certificate, and a bundle
  that shares none changes nothing.
* `bundle_of_*`: what the two files hold where a renewal that replaces the bundle
  is stopped.
-/

namespace ProbeAgent

open PyText Effects Runs

variable {K : Type}

/-- The temporary files of the key and the certificate are neither the CA file nor the
pins file. -/
def AgentSettings.BundleApart (settings : AgentSettings) : Prop :=
  ∀ t ∈ [tmpPath settings.keyPath, tmpPath settings.certPath],
    settings.caCertPath ≠ t ∧ settings.caPinsPath ≠ t

instance (settings : AgentSettings) : Decidable settings.BundleApart :=
  inferInstanceAs (Decidable (∀ t ∈ [tmpPath settings.keyPath, tmpPath settings.certPath], _))

theorem AgentSettings.Apart.bundleApart {settings : AgentSettings} (h : settings.Apart) :
    settings.BundleApart := by
  intro t ht
  have htmp : t ∈ settings.temporaryPaths := List.mem_append_left [tmpPath settings.caCertPath] ht
  exact ⟨h.ne_temporary (by simp [AgentSettings.paths]) htmp,
    h.ne_temporary (by simp [AgentSettings.paths]) htmp⟩

/-- The pins on record are the fingerprints of the stored bundle, and there are some. -/
def Anchored (P : Platform K) (settings : AgentSettings) (d : Disk) : Prop :=
  ∃ bundle, d settings.caCertPath = some bundle ∧
    readPins d settings.caPinsPath = .ok (bundleFingerprints P bundle) ∧
    bundleFingerprints P bundle ≠ ∅

/-- The file is neither the key nor the certificate file, nor a temporary one of these. -/
structure OffPair (settings : AgentSettings) (p : Path) : Prop where
  ne_key : p ≠ settings.keyPath
  ne_cert : p ≠ settings.certPath
  ne_tmpKey : p ≠ tmpPath settings.keyPath
  ne_tmpCert : p ≠ tmpPath settings.certPath

theorem offPair_ca {settings : AgentSettings} (hpaths : settings.paths.Nodup)
    (htmp : settings.BundleApart) : OffPair settings settings.caCertPath := by
  simp only [AgentSettings.paths, List.nodup_cons, List.mem_cons, List.not_mem_nil, or_false,
    not_or] at hpaths
  refine ⟨Ne.symm hpaths.1.2.1, Ne.symm hpaths.2.1.1, ?_, ?_⟩
  · exact (htmp _ (by simp)).1
  · exact (htmp _ (by simp)).1

theorem offPair_pins {settings : AgentSettings} (hpaths : settings.paths.Nodup)
    (htmp : settings.BundleApart) : OffPair settings settings.caPinsPath := by
  simp only [AgentSettings.paths, List.nodup_cons, List.mem_cons, List.not_mem_nil, or_false,
    not_or] at hpaths
  refine ⟨Ne.symm hpaths.1.2.2.1, Ne.symm hpaths.2.1.2.1, ?_, ?_⟩
  · exact (htmp _ (by simp)).2
  · exact (htmp _ (by simp)).2

/-- Reading the pins depends on the pins file only. -/
theorem readPins_congr {d d' : Disk} {path : Path} (h : d' path = d path) :
    readPins d' path = readPins d path := by
  unfold readPins pathExists readText
  rw [h]

/-! ## The bundle and the pins during a renewal -/

section Bundle

variable {P : Platform K} {settings : AgentSettings} {newKey : K} {cert bundle : Bytes}
  {caRoot : Json} {reload : List (Op K)}

/-- The effects up to the replacement of the CA file. -/
def throughBundle (P : Platform K) (settings : AgentSettings) (newKey : K)
    (cert bundle : Bytes) : List (Op K) :=
  atomicWriteOps settings.keyPath (P.privateKeyPem newKey) ++
    (atomicWriteOps settings.certPath cert ++ atomicWriteOps settings.caCertPath bundle)

/-- The effects of a renewal that stores a bundle. -/
def storedOps (P : Platform K) (settings : AgentSettings) (newKey : K)
    (cert bundle : Bytes) (reload : List (Op K)) : List (Op K) :=
  throughBundle P settings newKey cert bundle ++ (pinOps P settings bundle ++ reload)

/-- The directory such a renewal leaves when it is stopped. -/
def stoppedDisk (P : Platform K) (settings : AgentSettings) (newKey : K)
    (cert bundle : Bytes) (reload : List (Op K)) (stop : Option Nat) (w : World K) : Disk :=
  (after w (cut stop (storedOps P settings newKey cert bundle reload))).disk

theorem fileOps_eq (htruthy : caRoot.truthy = true) (hencode : caRoot.encode = .ok bundle) :
    fileOps P settings newKey cert caRoot =
      throughBundle P settings newKey cert bundle ++ pinOps P settings bundle := by
  rw [fileOps, throughBundle, bundleOps_of_encode P settings htruthy hencode]
  simp only [List.append_assoc]

theorem throughBundle_ca (P : Platform K) (settings : AgentSettings) (newKey : K)
    (cert bundle : Bytes) (w : World K) :
    (after w (throughBundle P settings newKey cert bundle)).disk settings.caCertPath =
      some bundle := by
  rw [throughBundle, after_append, after_append, after_atomicWrite_disk, if_pos rfl]

/-- A file off the pair that is not the CA file is left alone. -/
theorem throughBundle_of_ne (newKey : K) (cert bundle : Bytes) {p : Path}
    (hp : OffPair settings p) (hca : p ≠ settings.caCertPath)
    (htmp : p ≠ tmpPath settings.caCertPath) (w : World K) :
    (after w (throughBundle P settings newKey cert bundle)).disk p = w.disk p := by
  rw [throughBundle, after_append, after_append, after_atomicWrite_of_ne hca htmp,
    after_atomicWrite_of_ne hp.ne_cert hp.ne_tmpCert,
    after_atomicWrite_of_ne hp.ne_key hp.ne_tmpKey]

/-- Stopped before the CA file is replaced, a renewal has left the bundle and the
pins alone. -/
theorem bundle_of_early_stop {p : Path} {stop : Option Nat} (hp : OffPair settings p)
    (htmp : p ≠ tmpPath settings.caCertPath) (hstop : ¬Reaches stop 9) (rest : List (Op K))
    (w : World K) :
    (after w (cut stop (throughBundle P settings newKey cert bundle ++ rest))).disk p =
      w.disk p := by
  have hsplit : throughBundle P settings newKey cert bundle ++ rest =
      (atomicWriteOps settings.keyPath (P.privateKeyPem newKey) ++
        (atomicWriteOps settings.certPath cert ++
          [.truncate (tmpPath settings.caCertPath),
            .write (tmpPath settings.caCertPath) bundle])) ++
        (.replace (tmpPath settings.caCertPath) settings.caCertPath :: rest) := by
    simp [throughBundle, atomicWriteOps]
  refine after_disk_of_untouched w _ ?_
  intro op hop hmem
  rw [hsplit] at hop
  have hop' := mem_of_mem_cut_append hstop hop
  rcases List.mem_append.mp hop' with hop' | hop'
  · rcases touches_of_mem_atomicWrite hop' p hmem with h | h
    · exact hp.ne_key h
    · exact hp.ne_tmpKey h
  · rcases List.mem_append.mp hop' with hop' | hop'
    · rcases touches_of_mem_atomicWrite hop' p hmem with h | h
      · exact hp.ne_cert h
      · exact hp.ne_tmpCert h
    · simp only [List.mem_cons, List.not_mem_nil, or_false] at hop'
      rcases hop' with rfl | rfl
      · exact htmp (List.mem_singleton.mp hmem)
      · exact htmp (List.mem_singleton.mp hmem)

/-- Effects that touch no file leave every file alone. -/
theorem after_disk_of_touchless {ops : List (Op K)} (h : ∀ op ∈ ops, op.touches = [])
    (w : World K) (p : Path) : (after w ops).disk p = w.disk p := by
  refine after_disk_of_untouched w ops ?_
  intro op hop
  rw [h op hop]
  exact List.not_mem_nil

theorem pinOps_of_empty (h : bundleFingerprints P bundle = ∅) :
    pinOps P settings bundle = ([] : List (Op K)) := by
  unfold pinOps
  split
  · rw [if_pos h]
  · rfl

theorem pinOps_of_nonempty (settings : AgentSettings) (h : bundleFingerprints P bundle ≠ ∅) :
    ∃ data, encodeUtf8 (pinsText (bundleFingerprints P bundle)) = some data ∧
      pinOps P settings bundle = (writeOps settings.caPinsPath data : List (Op K)) := by
  obtain ⟨data, hdata⟩ := encodeUtf8_pinsText (bundleFingerprints_fingerprints P bundle)
  refine ⟨data, hdata, ?_⟩
  unfold pinOps
  rw [hdata]
  exact if_neg h

/-- Stopped before the pins file is opened, or with no pins to write, the bundle is
stored and the pins are left alone. -/
theorem bundle_without_pins (newKey : K) (cert : Bytes)
    (hpins : OffPair settings settings.caPinsPath) (hne : settings.caPinsPath ≠ settings.caCertPath)
    (htmp : settings.caPinsPath ≠ tmpPath settings.caCertPath)
    (hreload : ∀ op ∈ reload, op.touches = []) {stop : Option Nat} (hstop : Reaches stop 9)
    (hshort : bundleFingerprints P bundle = ∅ ∨ ¬Reaches stop 10) (w : World K) :
    stoppedDisk P settings newKey cert bundle reload stop w settings.caCertPath = some bundle ∧
    stoppedDisk P settings newKey cert bundle reload stop w settings.caPinsPath =
      w.disk settings.caPinsPath := by
  unfold stoppedDisk storedOps
  have hlen : Reaches stop (throughBundle P settings newKey cert bundle).length := hstop
  have hbundle := throughBundle_ca P settings newKey cert bundle w
  have hkept := throughBundle_of_ne (P := P) newKey cert bundle hpins hne htmp w
  rcases hshort with hempty | hshort
  · rw [pinOps_of_empty hempty, List.nil_append]
    obtain ⟨us, hus, hmem⟩ := cut_append_of_reaches hlen reload
    have hus' : ∀ op ∈ us, op.touches = [] := fun op hop => hreload op (hmem op hop)
    rw [hus, after_append, after_disk_of_touchless hus', after_disk_of_touchless hus']
    exact ⟨hbundle, hkept⟩
  · rw [cut_append_eq hlen hshort]
    exact ⟨hbundle, hkept⟩

/-- Stopped right after the pins file is opened, the bundle is stored and the pins
file is empty. -/
theorem bundle_with_empty_pins (newKey : K) (cert : Bytes) (reload : List (Op K))
    (hne : settings.caPinsPath ≠ settings.caCertPath)
    {stop : Option Nat} (hfp : bundleFingerprints P bundle ≠ ∅) (hstop : Reaches stop 10)
    (hshort : ¬Reaches stop 11) (w : World K) :
    stoppedDisk P settings newKey cert bundle reload stop w settings.caCertPath = some bundle ∧
    stoppedDisk P settings newKey cert bundle reload stop w settings.caPinsPath = some [] := by
  obtain ⟨data, -, hops⟩ := pinOps_of_nonempty (K := K) settings hfp
  have hsplit : storedOps P settings newKey cert bundle reload =
      (throughBundle P settings newKey cert bundle ++ [.truncate settings.caPinsPath]) ++
        (.write settings.caPinsPath data :: reload) := by
    rw [storedOps, hops]
    simp [writeOps]
  have hlen : Reaches stop (throughBundle P settings newKey cert bundle ++
      [Op.truncate settings.caPinsPath]).length := hstop
  rw [stoppedDisk, hsplit, cut_append_eq hlen hshort, after_append]
  simp only [after_cons, after_nil, apply_disk, Op.applyDisk, if_neg hne.symm, if_true]
  exact ⟨throughBundle_ca P settings newKey cert bundle w, trivial⟩

/-- Not stopped before the pins are written, the pins are those of the bundle. -/
theorem bundle_with_pins (newKey : K) (cert : Bytes)
    (hne : settings.caPinsPath ≠ settings.caCertPath)
    (hreload : ∀ op ∈ reload, op.touches = []) {stop : Option Nat}
    (hfp : bundleFingerprints P bundle ≠ ∅) (hstop : Reaches stop 11) (w : World K) :
    stoppedDisk P settings newKey cert bundle reload stop w settings.caCertPath = some bundle ∧
    readPins (stoppedDisk P settings newKey cert bundle reload stop w) settings.caPinsPath =
      .ok (bundleFingerprints P bundle) := by
  obtain ⟨data, hdata, hops⟩ := pinOps_of_nonempty (K := K) settings hfp
  have hlen : Reaches stop (throughBundle P settings newKey cert bundle ++
      writeOps settings.caPinsPath data).length := hstop
  obtain ⟨us, hus, hmem⟩ := cut_append_of_reaches hlen reload
  have hus' : ∀ op ∈ us, op.touches = [] := fun op hop => hreload op (hmem op hop)
  have hwritten : stoppedDisk P settings newKey cert bundle reload stop w settings.caPinsPath =
      some data := by
    rw [stoppedDisk, storedOps, hops, ← List.append_assoc, hus, after_append,
      after_disk_of_touchless hus', after_append, after_writeOps_disk, if_pos rfl]
  refine ⟨?_, readPins_pinsText (bundleFingerprints_fingerprints P bundle) hdata hwritten⟩
  rw [stoppedDisk, storedOps, hops, ← List.append_assoc, hus, after_append,
    after_disk_of_touchless hus', after_append, after_writeOps_disk, if_neg hne.symm]
  exact throughBundle_ca P settings newKey cert bundle w

/-- The answer has a certificate, and a bundle that can be encoded. -/
def StoresBundle (data caRoot : Json) (cert bundle : Bytes) : Prop :=
  answeredCertificate data = .ok cert ∧ caRoot.truthy = true ∧ caRoot.encode = .ok bundle

/-- Either the bundle is stored, or no file off the pair is touched. -/
theorem RenewalRun.bundle_cases {data : Json} {w : World K} {reloadFrom : World K → List (Op K)}
    {out : List (Op K) × Except PyExc Unit}
    (h : RenewalRun P settings newKey data caRoot w reloadFrom out)
    (hreload : ∀ v, ∀ op ∈ reloadFrom v, op.touches = []) :
    ((∀ cert bundle, ¬StoresBundle data caRoot cert bundle) ∧
      ∀ op ∈ out.1, ∀ p, OffPair settings p → p ∉ op.touches) ∨
    ∃ cert bundle reload, StoresBundle data caRoot cert bundle ∧
      (∀ op ∈ reload, op.touches = []) ∧
      out.1 = storedOps P settings newKey cert bundle reload := by
  have hkey : ∀ op ∈ (atomicWriteOps settings.keyPath (P.privateKeyPem newKey) : List (Op K)),
      ∀ p, OffPair settings p → p ∉ op.touches := by
    intro op hop p hp hmem
    rcases touches_of_mem_atomicWrite hop p hmem with h | h
    · exact hp.ne_key h
    · exact hp.ne_tmpKey h
  have hcert : ∀ cert, ∀ op ∈ (atomicWriteOps settings.certPath cert : List (Op K)),
      ∀ p, OffPair settings p → p ∉ op.touches := by
    intro cert op hop p hp hmem
    rcases touches_of_mem_atomicWrite hop p hmem with h | h
    · exact hp.ne_cert h
    · exact hp.ne_tmpCert h
  cases h with
  | noCertificate hnone =>
      exact .inl ⟨fun cert _ hs => hnone cert hs.1, hkey⟩
  | @badBundle cert _ _ _ hbad =>
      refine .inl ⟨?_, ?_⟩
      · rintro _ bundle ⟨-, -, hencode⟩
        simp [Json.encodable, hencode] at hbad
      · intro op hop
        rcases List.mem_append.mp hop with hop | hop
        · exact hkey op hop
        · exact hcert cert op hop
  | @installed cert hanswered hbundle =>
      by_cases htruthy : caRoot.truthy = true
      · obtain ⟨bundle, hencode⟩ := (Json.encodable_iff caRoot).mp (hbundle htruthy)
        refine .inr ⟨cert, bundle, reloadFrom (after w (fileOps P settings newKey cert caRoot)),
          ⟨hanswered, htruthy, hencode⟩, hreload _, ?_⟩
        rw [storedOps, fileOps_eq htruthy hencode, List.append_assoc]
      · refine .inl ⟨fun _ _ hs => htruthy hs.2.1, ?_⟩
        intro op hop
        rw [fileOps, bundleOps_of_falsy P settings (by simpa using htruthy), List.append_nil] at hop
        rcases List.mem_append.mp hop with hop | hop
        · rcases List.mem_append.mp hop with hop | hop
          · exact hkey op hop
          · exact hcert cert op hop
        · intro p _
          rw [hreload _ op hop]
          exact List.not_mem_nil

end Bundle

/-! ## Completed enrolments and calls -/

section Continuity

variable {P : Platform K} {settings : AgentSettings}

/-- The directory an uninterrupted enrolment leaves. -/
def enrolledDisk (P : Platform K) (settings : AgentSettings) (e : Enrolment K) (d : Disk) : Disk :=
  (after (newProcess d : World K) ((ensureRegistered P settings e).effects (newProcess d))).disk

/-- A completed enrolment under a bundle that has certificates leaves an anchored
directory. -/
theorem anchored_after_enrolment (hpaths : settings.paths.Nodup) {e : Enrolment K}
    {w : World K} {ca : PyStr}
    (hstart : ¬(pathExists w.disk settings.certPath ∧ pathExists w.disk settings.keyPath))
    (hdone : (ensureRegistered P settings e).result w = .ok ())
    (hca : answerText (e.answer P settings) (py "caRootPem") = some ca)
    (hparse : caFingerprints P (.str ca) ≠ ∅) :
    Anchored P settings (after w ((ensureRegistered P settings e).effects w)).disk := by
  simp only [AgentSettings.paths, List.nodup_cons, List.mem_cons, List.not_mem_nil, or_false,
    not_or] at hpaths
  obtain ⟨-, -, ⟨hcapins, hcaslug⟩, hpinsslug, -⟩ := hpaths
  have hrun := ensureRegistered_run P settings e hstart
  cases hout : (ensureRegistered P settings e).run w with
  | mk ops res =>
      rw [hout] at hrun
      rw [Prog.result_of_run hout] at hdone
      rw [Prog.effects_of_run hout]
      cases hrun with
      | noCertificate _ => cases hdone
      | lostCertificate _ _ => cases hdone
      | noBundle _ _ _ => cases hdone
      | lostBundle _ _ _ _ => cases hdone
      | @stored text ca' cert bundle slugOps _ htext hcert hca' hbundle hslug =>
          rw [hca', Option.some.injEq] at hca
          subst hca
          have hencode : (Json.str ca').encode = .ok bundle := by
            simp [Json.encode, hbundle]
          rw [caFingerprints_of_encode hencode] at hparse
          obtain ⟨data, hdata, hops⟩ := pinOps_of_nonempty (K := K) settings hparse
          have hslugfree : ∀ p, p ≠ settings.slugPath → ∀ v : World K,
              (after v slugOps).disk p = v.disk p := by
            intro p hp v
            refine after_disk_of_untouched v _ ?_
            intro op hop
            rw [(hslug op hop).1, List.mem_singleton]
            exact hp
          refine ⟨bundle, ?_, ?_, hparse⟩
          · simp only [hops, after_append]
            rw [hslugfree _ hcaslug, after_writeOps_disk, if_neg hcapins,
              after_writeOps_disk, if_pos rfl]
          · refine readPins_pinsText (bundleFingerprints_fingerprints P bundle) hdata ?_
            simp only [hops, after_append]
            rw [hslugfree _ hpinsslug, after_writeOps_disk, if_pos rfl]

/-- A directory with the same bundle and pins is as anchored. -/
theorem Anchored.congr {d d' : Disk} (h : Anchored P settings d)
    (hca : d' settings.caCertPath = d settings.caCertPath)
    (hpins : d' settings.caPinsPath = d settings.caPinsPath) : Anchored P settings d' := by
  obtain ⟨bundle, hbundle, hread, hne⟩ := h
  refine ⟨bundle, ?_, ?_, hne⟩
  · rw [hca, hbundle]
  · rw [readPins_congr hpins, hread]

variable [DecidableEq K]

/-- What a call may do to the trust anchor: the directory it leaves is anchored, a
bundle it stores shares a certificate with the one before, and an answer whose
bundle has no pinned certificate changes nothing. -/
def KeepsAnchor (P : Platform K) (settings : AgentSettings) (d : Disk) (c : RenewCall K) : Prop :=
  Anchored P settings (c.act P settings d) ∧
  (c.act P settings d settings.caCertPath ≠ d settings.caCertPath →
    ∃ old new f, d settings.caCertPath = some old ∧
      c.act P settings d settings.caCertPath = some new ∧
      f ∈ bundleFingerprints P old ∧ f ∈ bundleFingerprints P new) ∧
  (∀ data v pinned, askGateway P settings c.slug c.renewal d = .ok data →
    data.get (py "caRootPem") = .ok v → v.truthy = true →
    readPins d settings.caPinsPath = .ok pinned →
    (caFingerprints P v = ∅ ∨ Disjoint (caFingerprints P v) pinned) →
    ∀ p ∈ trustFiles settings, c.act P settings d p = d p)

/-- A call that leaves the bundle and the pins alone keeps the anchor, if it
refuses what it has to refuse. -/
theorem keepsAnchor_of_same {d : Disk} {c : RenewCall K} (hd : Anchored P settings d)
    (hca : c.act P settings d settings.caCertPath = d settings.caCertPath)
    (hpins : c.act P settings d settings.caPinsPath = d settings.caPinsPath)
    (hrefuse : ∀ data v pinned, askGateway P settings c.slug c.renewal d = .ok data →
      data.get (py "caRootPem") = .ok v → v.truthy = true →
      readPins d settings.caPinsPath = .ok pinned →
      (caFingerprints P v = ∅ ∨ Disjoint (caFingerprints P v) pinned) →
      ∀ p ∈ trustFiles settings, c.act P settings d p = d p) :
    KeepsAnchor P settings d c :=
  ⟨hd.congr hca hpins, fun hne => absurd hca hne, hrefuse⟩

/-- **One call.** An uninterrupted call in an anchored directory keeps the anchor. -/
theorem keepsAnchor (hpaths : settings.paths.Nodup) (htmp : settings.BundleApart)
    {d : Disk} {c : RenewCall K} (hstop : c.stop = none) (hd : Anchored P settings d) :
    KeepsAnchor P settings d c := by
  have hoffca := offPair_ca hpaths htmp
  have hoffpins := offPair_pins hpaths htmp
  have hne : settings.caPinsPath ≠ settings.caCertPath := by
    simp only [AgentSettings.paths, List.nodup_cons, List.mem_cons, not_or] at hpaths
    exact Ne.symm hpaths.2.2.1.1
  have hact : c.act P settings d =
      (after (c.world d) ((renew P settings c.slug c.renewal).effects (c.world d))).disk := by
    rw [RenewCall.act, RenewCall.performed, Prog.performed, hstop, cut_none]
  obtain ⟨old, hold, hread, hsome⟩ := id hd
  cases hchecked : checkedAnswer P settings c.slug c.renewal d with
  | error exc =>
      have hsame : c.act P settings d = d := by
        rw [hact, Prog.effects_of_run (renew_of_refused (w := c.world d) hchecked)]
        rfl
      rw [KeepsAnchor, hsame]
      exact ⟨hd, fun h => absurd rfl h, fun _ _ _ _ _ _ _ _ _ _ => rfl⟩
  | ok answer =>
      obtain ⟨data, caRoot⟩ := answer
      obtain ⟨-, pinned, hpinned, hask, hget, hpreserve⟩ := checkedAnswer_eq_ok hchecked
      rw [hread, Except.ok.injEq] at hpinned
      -- an accepted bundle has a pinned certificate, so nothing had to be refused
      have hshare : caRoot.truthy = true →
          ∃ f, f ∈ caFingerprints P caRoot ∧ f ∈ bundleFingerprints P old := by
        intro htruthy
        rw [← hpinned] at hpreserve
        exact (bundlePreservesPins_iff hsome).mp (hpreserve htruthy)
      have hrefuse : ∀ data v pinned, askGateway P settings c.slug c.renewal d = .ok data →
          data.get (py "caRootPem") = .ok v → v.truthy = true →
          readPins d settings.caPinsPath = .ok pinned →
          (caFingerprints P v = ∅ ∨ Disjoint (caFingerprints P v) pinned) →
          ∀ p ∈ trustFiles settings, c.act P settings d p = d p := by
        intro data' v pinned' hask' hget' htruthy hpinned' hlost
        rw [hask, Except.ok.injEq] at hask'
        rw [← hask', hget, Except.ok.injEq] at hget'
        rw [hread, Except.ok.injEq] at hpinned'
        obtain ⟨f, hf, hfold⟩ := hshare (hget' ▸ htruthy)
        rw [← hget', ← hpinned'] at hlost
        rcases hlost with hempty | hdisjoint
        · rw [hempty] at hf
          exact absurd hf (Finset.notMem_empty f)
        · exact absurd hfold (Finset.disjoint_left.mp hdisjoint hf)
      have hrun := renew_run (w := c.world d) hchecked
      unfold Prog.effects at hact
      rcases hrun.bundle_cases (fun v => hotReload_touches) with
        ⟨-, hoff⟩ | ⟨cert, bundle, reload, ⟨-, htruthy, hencode⟩, hreload, hops⟩
      · have hsame : ∀ p, OffPair settings p → c.act P settings d p = d p := by
          intro p hp
          rw [hact]
          exact after_disk_of_untouched (c.world d) _ (fun op hop => hoff op hop p hp)
        exact keepsAnchor_of_same hd (hsame _ hoffca) (hsame _ hoffpins) hrefuse
      · obtain ⟨f, hf, hfold⟩ := hshare htruthy
        rw [caFingerprints_of_encode hencode] at hf
        have hfp : bundleFingerprints P bundle ≠ ∅ := Finset.ne_empty_of_mem hf
        have hstored := bundle_with_pins (P := P) c.renewal.newKey cert
          hne hreload hfp (reaches_none 11) (c.world d)
        rw [stoppedDisk, cut_none, ← hops, ← hact] at hstored
        refine ⟨⟨bundle, hstored.1, hstored.2, hfp⟩, ?_, hrefuse⟩
        intro _
        exact ⟨old, bundle, f, hold, hstored.1, hfold, hf⟩

/-- **Trust-anchor continuity.** After a completed enrolment whose bundle has
certificates, and over any uninterrupted calls of `_renew`, every call keeps the
anchor. -/
theorem trust_anchor_continuity (P : Platform K) (settings : AgentSettings)
    (hpaths : settings.paths.Nodup) (htmp : settings.BundleApart)
    (d : Disk) (e : Enrolment K) (ca : PyStr)
    (hstart : ¬(pathExists d settings.certPath ∧ pathExists d settings.keyPath))
    (hdone : (ensureRegistered P settings e).result (newProcess d) = .ok ())
    (hca : answerText (e.answer P settings) (py "caRootPem") = some ca)
    (hparse : caFingerprints P (.str ca) ≠ ∅)
    (calls : List (RenewCall K)) (hwhole : ∀ c ∈ calls, c.stop = none) :
    Anchored P settings (enrolledDisk P settings e d) ∧
      Along (fun d c _ => KeepsAnchor P settings d c) (enrolledDisk P settings e d)
        (trace (RenewCall.act P settings) (enrolledDisk P settings e d) calls) := by
  have hfirst : Anchored P settings (enrolledDisk P settings e d) :=
    anchored_after_enrolment (w := newProcess d) hpaths hstart hdone hca hparse
  refine ⟨hfirst, along_trace (Anchored P settings) ?_ ?_ hfirst hwhole⟩
  · intro d c hstop hd
    exact (keepsAnchor hpaths htmp hstop hd).1
  · intro d c hstop hd
    exact keepsAnchor hpaths htmp hstop hd

end Continuity

/-- An enrolment under the CA `A`. -/
def sampleAnchor : Enrolment UInt8 :=
  sampleEnrolment (.obj [
    (py "certificatePem", .str (py "C1")),
    (py "caRootPem", .str (py "A"))])

/-- A renewal that keeps the CA. -/
def sampleCall : RenewCall UInt8 where
  slug := py "g"
  renewal := sampleRenewal (.obj [(py "certificatePem", .str (py "C2"))])
  context := none
  stop := none

/-- A renewal that adds the CA `B`. -/
def sampleRotation : RenewCall UInt8 where
  slug := py "g"
  renewal := sampleRenewal (.obj [
    (py "certificatePem", .str (py "C3")),
    (py "caRootPem", .str (py "AB"))])
  context := none
  stop := none

/-- The pins where the CA file is staged, which a rotation moves away and writes anew. -/
def stagedPins : AgentSettings :=
  { sampleSettings with caPinsPath := py "a.tmp" }

theorem trust_anchor_continuity_rotation :
    Anchored samplePlatform stagedPins
        (enrolledDisk samplePlatform stagedPins sampleAnchor emptyDisk) ∧
      Along (fun d c _ => KeepsAnchor samplePlatform stagedPins d c)
        (enrolledDisk samplePlatform stagedPins sampleAnchor emptyDisk)
        (trace (RenewCall.act samplePlatform stagedPins)
          (enrolledDisk samplePlatform stagedPins sampleAnchor emptyDisk)
          [sampleCall, sampleRotation]) :=
  trust_anchor_continuity samplePlatform stagedPins (by decide) (by decide) emptyDisk
    sampleAnchor (py "A") (by decide) (by decide +kernel) (by decide) (by decide)
    [sampleCall, sampleRotation] (by decide)

/-- With the pins in the temporary file of the key, a renewal moves them away. -/
theorem pins_lost_in_temporary_file :
    ∃ settings : AgentSettings, settings.paths.Nodup ∧
      (ensureRegistered samplePlatform settings sampleAnchor).result (newProcess emptyDisk) =
        .ok () ∧
      answerText (sampleAnchor.answer samplePlatform settings) (py "caRootPem") = some (py "A") ∧
      caFingerprints samplePlatform (.str (py "A")) ≠ ∅ ∧
      ¬Along (fun d c _ => KeepsAnchor samplePlatform settings d c)
        (enrolledDisk samplePlatform settings sampleAnchor emptyDisk)
        (trace (RenewCall.act samplePlatform settings)
          (enrolledDisk samplePlatform settings sampleAnchor emptyDisk) [sampleCall]) := by
  refine ⟨{ sampleSettings with caPinsPath := py "k.tmp" }, by decide, by decide +kernel,
    by decide, by decide, ?_⟩
  rintro ⟨⟨⟨bundle, -, hread, hne⟩, -⟩, -⟩
  have hgone : sampleCall.act samplePlatform { sampleSettings with caPinsPath := py "k.tmp" }
      (enrolledDisk samplePlatform { sampleSettings with caPinsPath := py "k.tmp" } sampleAnchor
        emptyDisk) (py "k.tmp") = none := by
    decide +kernel
  rw [readPins_of_missing hgone, Except.ok.injEq] at hread
  exact hne hread.symm

end ProbeAgent
