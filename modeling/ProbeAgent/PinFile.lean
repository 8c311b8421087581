import ProbeAgent.TrustAnchor

/-!
# The pins across interruptions

The pins are written after the bundle they belong to, and in place: the file is
opened, which empties it, and then written.  An interruption between the bundle
and the pins leaves an agent that has its three certificate files, so that it will
serve and renew and never enrol again, and no pins; from then on every bundle is
accepted.

`pins_hold_iff` says which interruptions these are: of an enrolment, after five,
six or seven effects; of a renewal that stores a bundle, after the pins file is
opened and before it is written, or, with no pins on record, anywhere between the
replacement of the CA file and the end of that write.
-/

namespace ProbeAgent

open PyText Effects Runs

variable {K : Type}

/-- An agent with its certificate files has pins, one of them of the stored bundle. -/
def PinsHold (P : Platform K) (settings : AgentSettings) (d : Disk) : Prop :=
  certsExist settings d = true →
    ∃ pins bundle f, readPins d settings.caPinsPath = .ok pins ∧
      d settings.caCertPath = some bundle ∧ f ∈ pins ∧ f ∈ bundleFingerprints P bundle

/-- The bundle of an answer, if it has one, has certificates. -/
def ParseableBundle (P : Platform K) (answer : Except PyExc Json) : Prop :=
  ∀ ca, answerText answer (py "caRootPem") = some ca → caFingerprints P (.str ca) ≠ ∅

/-- An enrolment or a renewal, and the number of effects after which it is
interrupted, when it is. -/
inductive PinStep (P : Platform K) (settings : AgentSettings)
  | enrol (e : Enrolment K) (parseable : ParseableBundle P (e.answer P settings))
      (stop : Option Nat)
  | renew (r : Renewal K) (context : Option (SslContext K)) (stop : Option Nat)

/-- What every reachable directory satisfies besides: files come in the order they
are written in. -/
structure PinsSound (P : Platform K) (settings : AgentSettings) (d : Disk) : Prop where
  ca_of_pins : pathExists d settings.caPinsPath = true → pathExists d settings.caCertPath = true
  pair_of_ca : pathExists d settings.caCertPath = true →
    pathExists d settings.certPath = true ∧ pathExists d settings.keyPath = true
  hold : PinsHold P settings d

/-- Without a bundle there is nothing to hold. -/
theorem pinsSound_of_no_bundle {P : Platform K} {settings : AgentSettings} {d : Disk}
    (hca : ¬pathExists d settings.caCertPath = true)
    (hpins : ¬pathExists d settings.caPinsPath = true) : PinsSound P settings d := by
  refine ⟨fun h => absurd h hpins, fun h => absurd h hca, ?_⟩
  intro h
  simp only [certsExist, Bool.and_eq_true] at h
  exact absurd h.1.1 hca

theorem pathExists_of_some {d : Disk} {p : Path} {data : Bytes} (h : d p = some data) :
    pathExists d p = true := by
  simp [pathExists, h]

/-- With all files there and the pins read as none, nothing is pinned. -/
theorem not_pinsHold {P : Platform K} {settings : AgentSettings} {d : Disk}
    (hcerts : certsExist settings d = true)
    (hread : readPins d settings.caPinsPath = .ok ∅) : ¬PinsHold P settings d := by
  intro h
  obtain ⟨pins, bundle, f, hpins, -, hf, -⟩ := h hcerts
  rw [hread, Except.ok.injEq] at hpins
  rw [← hpins] at hf
  exact absurd hf (Finset.notMem_empty f)

/-- Pins that share a fingerprint with the stored bundle, and the files before them. -/
theorem pinsSound_of_shared {P : Platform K} {settings : AgentSettings} {d : Disk}
    {pins : Finset PyStr} {bundle : Bytes} {f : PyStr}
    (hkey : pathExists d settings.keyPath = true) (hcert : pathExists d settings.certPath = true)
    (hca : d settings.caCertPath = some bundle)
    (hread : readPins d settings.caPinsPath = .ok pins)
    (hpin : f ∈ pins) (hf : f ∈ bundleFingerprints P bundle) : PinsSound P settings d :=
  ⟨fun _ => pathExists_of_some hca, fun _ => ⟨hcert, hkey⟩,
    fun _ => ⟨pins, bundle, f, hread, hca, hpin, hf⟩⟩

/-! ## Enrolments -/

section Enrolments

variable {P : Platform K} {settings : AgentSettings} {e : Enrolment K} {w : World K}

/-- Interrupted before its seventh effect, an enrolment has not touched the pins. -/
theorem pins_untouched_by_enrolment (hpaths : settings.paths.Nodup)
    (hstart : ¬(pathExists w.disk settings.certPath ∧ pathExists w.disk settings.keyPath))
    {stop : Option Nat} (hstop : ¬(BundleReached (e.answer P settings) ∧ Reaches stop 7)) :
    (after w ((ensureRegistered P settings e).performed w stop)).disk settings.caPinsPath =
      w.disk settings.caPinsPath := by
  simp only [AgentSettings.paths, List.nodup_cons, List.mem_cons, List.not_mem_nil, or_false,
    not_or] at hpaths
  obtain ⟨⟨-, -, hkey, -⟩, ⟨-, hcert, -⟩, ⟨hca, -⟩, -⟩ := hpaths
  have hwrite : ∀ q, q ≠ settings.caPinsPath → ∀ data, ∀ op ∈ (writeOps q data : List (Op K)),
      settings.caPinsPath ∉ op.touches := by
    intro q hq data op hop
    simp only [writeOps, List.mem_cons, List.not_mem_nil, or_false] at hop
    rcases hop with rfl | rfl
    · exact fun h => hq (List.mem_singleton.mp h).symm
    · exact fun h => hq (List.mem_singleton.mp h).symm
  have htrunc : ∀ q, q ≠ settings.caPinsPath → ∀ op ∈ ([.truncate q] : List (Op K)),
      settings.caPinsPath ∉ op.touches := by
    intro q hq op hop
    rw [List.mem_singleton.mp hop]
    exact fun h => hq (List.mem_singleton.mp h).symm
  refine after_disk_of_untouched w _ ?_
  intro op hop
  have hrun := ensureRegistered_run P settings e hstart
  cases hout : (ensureRegistered P settings e).run w with
  | mk ops res =>
      rw [hout] at hrun
      rw [Prog.performed_of_run hout] at hop
      cases hrun with
      | noCertificate _ =>
          exact hwrite _ hkey _ op (mem_of_mem_cut hop)
      | lostCertificate _ _ =>
          rcases List.mem_append.mp (mem_of_mem_cut hop) with hop | hop
          · exact hwrite _ hkey _ op hop
          · exact htrunc _ hcert op hop
      | noBundle _ _ _ =>
          rcases List.mem_append.mp (mem_of_mem_cut hop) with hop | hop
          · exact hwrite _ hkey _ op hop
          · exact hwrite _ hcert _ op hop
      | lostBundle _ _ _ _ =>
          rcases List.mem_append.mp (mem_of_mem_cut hop) with hop | hop
          · exact hwrite _ hkey _ op hop
          · rcases List.mem_append.mp hop with hop | hop
            · exact hwrite _ hcert _ op hop
            · exact htrunc _ hca op hop
      | @stored text ca cert bundle slugOps _ htext hcertificate hca' hbundle _ =>
          have hearly : ¬Reaches stop 7 :=
            fun h => hstop ⟨⟨text, cert, ca, htext, hcertificate, hca'⟩, h⟩
          have hsplit : writeOps settings.keyPath (P.privateKeyPem e.newKey) ++
              (writeOps settings.certPath cert ++ (writeOps settings.caCertPath bundle ++
                (pinOps P settings bundle ++ slugOps))) =
              (writeOps settings.keyPath (P.privateKeyPem e.newKey) ++
                (writeOps settings.certPath cert ++ writeOps settings.caCertPath bundle)) ++
              (pinOps P settings bundle ++ slugOps) := by
            simp only [List.append_assoc]
          rw [hsplit] at hop
          have hop' := mem_of_mem_cut_append hearly hop
          rcases List.mem_append.mp hop' with hop' | hop'
          · exact hwrite _ hkey _ op hop'
          · rcases List.mem_append.mp hop' with hop' | hop'
            · exact hwrite _ hcert _ op hop'
            · exact hwrite _ hca _ op hop'

/-- From the seventh effect on, the answer has been stored with its bundle. -/
theorem enrolment_stored (hparse : ParseableBundle P (e.answer P settings))
    (hstart : ¬(pathExists w.disk settings.certPath ∧ pathExists w.disk settings.keyPath))
    (hreached : BundleReached (e.answer P settings)) :
    ∃ cert bundle data slugOps, bundleFingerprints P bundle ≠ ∅ ∧
      encodeUtf8 (pinsText (bundleFingerprints P bundle)) = some data ∧
      (∀ op ∈ slugOps, op.touches = [settings.slugPath]) ∧
      (ensureRegistered P settings e).effects w =
        writeOps settings.keyPath (P.privateKeyPem e.newKey) ++
          (writeOps settings.certPath cert ++ (writeOps settings.caCertPath bundle ++
            (writeOps settings.caPinsPath data ++ slugOps))) := by
  obtain ⟨text, cert, ca, htext, hcert, hca⟩ := hreached
  have hsome := hparse ca hca
  have hrun := ensureRegistered_run P settings e hstart
  cases hout : (ensureRegistered P settings e).run w with
  | mk ops res =>
      rw [hout] at hrun
      rw [Prog.effects_of_run hout]
      cases hrun with
      | noCertificate hnone =>
          simp [htext] at hnone
      | lostCertificate htext' hlost =>
          rw [htext', Option.some.injEq] at htext
          simp [htext, hcert] at hlost
      | noBundle _ _ hnone =>
          simp [hca] at hnone
      | lostBundle _ _ hca' hlost =>
          rw [hca', Option.some.injEq] at hca
          subst hca
          simp [caFingerprints, Json.encode, hlost] at hsome
      | @stored _ ca' cert' bundle slugOps _ _ _ hca' hbundle hslug =>
          rw [hca', Option.some.injEq] at hca
          subst hca
          have hencode : (Json.str ca').encode = .ok bundle := by
            simp [Json.encode, hbundle]
          rw [caFingerprints_of_encode hencode] at hsome
          obtain ⟨data, hdata, hops⟩ := pinOps_of_nonempty (K := K) settings hsome
          refine ⟨cert', bundle, data, slugOps, hsome, hdata, fun op hop => (hslug op hop).1, ?_⟩
          rw [hops]

/-- Interrupted after the pins file was opened, an enrolment leaves no pins. -/
theorem no_pins_after_enrolment (hpaths : settings.paths.Nodup)
    (hparse : ParseableBundle P (e.answer P settings))
    (hstart : ¬(pathExists w.disk settings.certPath ∧ pathExists w.disk settings.keyPath))
    (hnew : pathExists w.disk settings.caPinsPath = false)
    {stop : Option Nat} (hreached : BundleReached (e.answer P settings))
    (hstop : ¬Reaches stop 8) :
    readPins (after w ((ensureRegistered P settings e).performed w stop)).disk
      settings.caPinsPath = .ok ∅ := by
  by_cases hopen : Reaches stop 7
  · obtain ⟨cert, bundle, data, slugOps, -, -, -, hops⟩ :=
      enrolment_stored hparse hstart hreached
    have hsplit : (ensureRegistered P settings e).effects w =
        (writeOps settings.keyPath (P.privateKeyPem e.newKey) ++
          (writeOps settings.certPath cert ++ (writeOps settings.caCertPath bundle ++
            [.truncate settings.caPinsPath]))) ++ (.write settings.caPinsPath data :: slugOps) := by
      rw [hops]
      simp [writeOps]
    rw [Prog.performed, hsplit, cut_append_eq hopen hstop]
    refine readPins_of_empty ?_
    simp only [after_append, after_cons, after_nil, apply_disk, Op.applyDisk, if_true]
  · refine readPins_of_missing ?_
    rw [pins_untouched_by_enrolment hpaths hstart (fun h => hopen h.2)]
    simpa [pathExists] using hnew

/-- An enrolment that gets past its pins leaves them with their bundle. -/
theorem anchored_after_stopped_enrolment (hpaths : settings.paths.Nodup)
    (hparse : ParseableBundle P (e.answer P settings))
    (hstart : ¬(pathExists w.disk settings.certPath ∧ pathExists w.disk settings.keyPath))
    {stop : Option Nat} (hreached : BundleReached (e.answer P settings))
    (hstop : Reaches stop 8) :
    Anchored P settings
      (after w ((ensureRegistered P settings e).performed w stop)).disk := by
  simp only [AgentSettings.paths, List.nodup_cons, List.mem_cons, List.not_mem_nil, or_false,
    not_or] at hpaths
  obtain ⟨-, -, ⟨hcapins, hcaslug⟩, hpinsslug, -⟩ := hpaths
  obtain ⟨cert, bundle, data, slugOps, hsome, hdata, hslug, hops⟩ :=
    enrolment_stored hparse hstart hreached
  have hsplit : (ensureRegistered P settings e).effects w =
      (writeOps settings.keyPath (P.privateKeyPem e.newKey) ++
        (writeOps settings.certPath cert ++ (writeOps settings.caCertPath bundle ++
          writeOps settings.caPinsPath data))) ++ slugOps := by
    rw [hops]
    simp only [List.append_assoc]
  have hlen : Reaches stop (writeOps settings.keyPath (P.privateKeyPem e.newKey) ++
      (writeOps settings.certPath cert ++ (writeOps settings.caCertPath bundle ++
        writeOps settings.caPinsPath data)) : List (Op K)).length := hstop
  obtain ⟨us, hus, hmem⟩ := cut_append_of_reaches hlen slugOps
  have hslugfree : ∀ p, p ≠ settings.slugPath → ∀ v : World K,
      (after v us).disk p = v.disk p := by
    intro p hp v
    refine after_disk_of_untouched v _ ?_
    intro op hop
    rw [hslug op (hmem op hop), List.mem_singleton]
    exact hp
  rw [Prog.performed, hsplit, hus]
  refine ⟨bundle, ?_, ?_, hsome⟩
  · rw [after_append, hslugfree _ hcaslug]
    simp only [after_append]
    rw [after_writeOps_disk, if_neg hcapins, after_writeOps_disk, if_pos rfl]
  · refine readPins_pinsText (bundleFingerprints_fingerprints P bundle) hdata ?_
    rw [after_append, hslugfree _ hpinsslug]
    simp only [after_append]
    rw [after_writeOps_disk, if_pos rfl]

/-- **One enrolment.** From a sound directory it leaves the pins missing exactly when it is
interrupted after its fifth, sixth or seventh effect, and a sound directory otherwise. -/
theorem enrolment_pins (hpaths : settings.paths.Nodup)
    (hparse : ParseableBundle P (e.answer P settings)) (hsound : PinsSound P settings w.disk)
    (hstart : ¬(pathExists w.disk settings.certPath ∧ pathExists w.disk settings.keyPath))
    (stop : Option Nat) :
    ((BundleReached (e.answer P settings) ∧ Reaches stop 5 ∧ ¬Reaches stop 8) →
      ¬PinsHold P settings
        (after w ((ensureRegistered P settings e).performed w stop)).disk) ∧
    (¬(BundleReached (e.answer P settings) ∧ Reaches stop 5 ∧ ¬Reaches stop 8) →
      PinsSound P settings
        (after w ((ensureRegistered P settings e).performed w stop)).disk) := by
  have hnoca : ¬pathExists w.disk settings.caCertPath = true :=
    fun h => hstart (hsound.pair_of_ca h)
  have hnopins : ¬pathExists w.disk settings.caPinsPath = true :=
    fun h => hnoca (hsound.ca_of_pins h)
  obtain ⟨hkey, hcert, hca⟩ := exists_after_enrolment (P := P) (e := e)
    (AgentSettings.separate_of_nodup hpaths) hstart stop
  have hall : BundleReached (e.answer P settings) → Reaches stop 5 →
      pathExists (after w ((ensureRegistered P settings e).performed w stop)).disk
        settings.keyPath = true ∧
      pathExists (after w ((ensureRegistered P settings e).performed w stop)).disk
        settings.certPath = true ∧
      pathExists (after w ((ensureRegistered P settings e).performed w stop)).disk
        settings.caCertPath = true := by
    intro hreached h5
    refine ⟨hkey.mpr (.inr (h5.mono (by omega))), hcert.mpr (.inr ⟨?_, h5.mono (by omega)⟩),
      hca.mpr (.inr ⟨hreached, h5⟩)⟩
    obtain ⟨text, _, _, htext, -, -⟩ := hreached
    simp [htext]
  constructor
  · rintro ⟨hreached, h5, h8⟩
    obtain ⟨hk, hc, ha⟩ := hall hreached h5
    refine not_pinsHold ?_ ?_
    · simp [certsExist, hk, hc, ha]
    · exact no_pins_after_enrolment hpaths hparse hstart (by simpa using hnopins) hreached h8
  · intro hstop
    by_cases hreached : BundleReached (e.answer P settings) ∧ Reaches stop 5
    · have h8 : Reaches stop 8 := by
        by_contra h8
        exact hstop ⟨hreached.1, hreached.2, h8⟩
      obtain ⟨hk, hc, -⟩ := hall hreached.1 hreached.2
      obtain ⟨bundle, hbundle, hread, hsome⟩ :=
        anchored_after_stopped_enrolment hpaths hparse hstart hreached.1 h8
      obtain ⟨f, hf⟩ := Finset.nonempty_iff_ne_empty.mpr hsome
      exact pinsSound_of_shared hk hc hbundle hread hf hf
    · refine pinsSound_of_no_bundle ?_ ?_
      · intro h
        rcases hca.mp h with h | h
        · exact hnoca h
        · exact hreached h
      · rw [pathExists, pins_untouched_by_enrolment hpaths hstart
          (fun h => hreached ⟨h.1, h.2.mono (by omega)⟩)]
        exact hnopins

end Enrolments

/-! ## Renewals -/

section Renewals

/-- Writing in place, and working on the listener, remove no file. -/
theorem passes_exists_inPlace {ops : List (Op K)}
    (hops : ∀ op ∈ ops, op.inPlace = true) {w : World K} {p : Path}
    (h : pathExists w.disk p = true) :
    Passes (fun v : World K => pathExists v.disk p = true) w ops := by
  intro n
  refine (exists_after_writes ?_ w p).mpr (.inl h)
  exact fun op hop => hops op (List.mem_of_mem_take hop)

theorem passes_exists_touchless {ops : List (Op K)}
    (hops : ∀ op ∈ ops, op.touches = []) {w : World K} {p : Path}
    (h : pathExists w.disk p = true) :
    Passes (fun v : World K => pathExists v.disk p = true) w ops := by
  intro n
  rw [pathExists, after_disk_of_touchless (fun op hop => hops op (List.mem_of_mem_take hop))]
  exact h

/-- A renewal never removes a file that is not one of its temporary ones. -/
theorem RenewalRun.passes_exists {P : Platform K} {settings : AgentSettings} {newKey : K}
    {data caRoot : Json} {w : World K} {reloadFrom : World K → List (Op K)}
    {out : List (Op K) × Except PyExc Unit}
    (h : RenewalRun P settings newKey data caRoot w reloadFrom out)
    (hreload : ∀ v, ∀ op ∈ reloadFrom v, op.touches = []) {p : Path}
    (hp : ∀ t ∈ settings.temporaryPaths, p ≠ t) (hexists : pathExists w.disk p = true) :
    Passes (fun v : World K => pathExists v.disk p = true) w out.1 := by
  have hkey : p ≠ tmpPath settings.keyPath := hp _ (by simp [AgentSettings.temporaryPaths])
  have hcert : p ≠ tmpPath settings.certPath := hp _ (by simp [AgentSettings.temporaryPaths])
  have hca : p ≠ tmpPath settings.caCertPath := hp _ (by simp [AgentSettings.temporaryPaths])
  have hfirst := passes_exists_atomicWrite (P.privateKeyPem newKey) hkey hexists
  cases h with
  | noCertificate _ => exact hfirst
  | badBundle _ _ _ =>
      exact (passes_append _ _ _ _).mpr ⟨hfirst, passes_exists_atomicWrite _ hcert hfirst.final⟩
  | @installed cert _ hbundle =>
      have hsecond := passes_exists_atomicWrite cert hcert hfirst.final
      have hthird : ∀ v : World K, pathExists v.disk p = true →
          Passes (fun v : World K => pathExists v.disk p = true) v
            (bundleOps P settings caRoot) := by
        intro v hv
        by_cases htruthy : caRoot.truthy = true
        · obtain ⟨bundle, hencode⟩ := (Json.encodable_iff caRoot).mp (hbundle htruthy)
          rw [bundleOps_of_encode P settings htruthy hencode, passes_append]
          have hstored := passes_exists_atomicWrite bundle hca hv
          refine ⟨hstored, passes_exists_inPlace (fun _ hop => ?_) hstored.final⟩
          exact (touches_of_mem_pinOps hop).2
        · rw [bundleOps_of_falsy P settings (by simpa using htruthy)]
          exact (passes_nil _ _).mpr hv
      have hfiles : Passes (fun v : World K => pathExists v.disk p = true) w
          (fileOps P settings newKey cert caRoot) := by
        rw [fileOps, passes_append, passes_append]
        exact ⟨hfirst, hsecond, hthird _ hsecond.final⟩
      exact (passes_append _ _ _ _).mpr
        ⟨hfiles, passes_exists_touchless (hreload _) hfiles.final⟩

section Checks

variable {P : Platform K} {settings : AgentSettings} {r : Renewal K} {w : World K}

/-- A sound directory in which only the pair has changed is sound. -/
theorem PinsSound.congr {d d' : Disk} (h : PinsSound P settings d)
    (hca : d' settings.caCertPath = d settings.caCertPath)
    (hpins : d' settings.caPinsPath = d settings.caPinsPath)
    (hpair : pathExists d settings.certPath = true ∧ pathExists d settings.keyPath = true)
    (hpair' : pathExists d' settings.certPath = true ∧ pathExists d' settings.keyPath = true) :
    PinsSound P settings d' := by
  refine ⟨?_, fun _ => hpair', ?_⟩
  · rw [pathExists, hpins, pathExists, hca]
    exact h.ca_of_pins
  · intro hcerts
    have hcerts' : certsExist settings d = true := by
      simp only [certsExist, Bool.and_eq_true, pathExists, hca] at hcerts ⊢
      exact ⟨⟨hcerts.1.1, hpair.1⟩, hpair.2⟩
    obtain ⟨pins, bundle, f, hread, hbundle, hf⟩ := h.hold hcerts'
    exact ⟨pins, bundle, f, by rw [readPins_congr hpins, hread], by rw [hca, hbundle], hf⟩

/-- The pins an accepted answer was checked against, in a sound directory: either
none were on record, or the new bundle has one of them. -/
theorem pins_before_renewal (hsound : PinsSound P settings w.disk) {slug : PyStr}
    {data caRoot : Json} {bundle : Bytes}
    (hchecked : checkedAnswer P settings slug r w.disk = .ok (data, caRoot))
    (htruthy : caRoot.truthy = true) (hencode : caRoot.encode = .ok bundle) :
    pathExists w.disk settings.caPinsPath = false ∨
      pathExists w.disk settings.caPinsPath = true ∧
      ∃ pins f, readPins w.disk settings.caPinsPath = .ok pins ∧ f ∈ pins ∧
        f ∈ bundleFingerprints P bundle := by
  cases hpins : pathExists w.disk settings.caPinsPath with
  | false => exact .inl rfl
  | true =>
      obtain ⟨-, pinned, hread, -, -, hpreserve⟩ := checkedAnswer_eq_ok hchecked
      have hca := hsound.ca_of_pins hpins
      obtain ⟨hcert, hkey⟩ := hsound.pair_of_ca hca
      obtain ⟨pins, _, g, hread', -, hg, -⟩ :=
        hsound.hold (by simp [certsExist, hca, hcert, hkey])
      rw [hread, Except.ok.injEq] at hread'
      rw [← hread'] at hg
      obtain ⟨f, hf, hfpin⟩ :=
        (bundlePreservesPins_iff (Finset.ne_empty_of_mem hg)).mp (hpreserve htruthy)
      rw [caFingerprints_of_encode hencode] at hf
      exact .inr ⟨rfl, pinned, f, hread, hfpin, hf⟩

/-- Where a renewal that stores its bundle is interrupted decides what becomes of
the pins. -/
theorem stored_bundle_pins {newKey : K} {cert bundle : Bytes} {reload : List (Op K)}
    {stop : Option Nat} (hapart : settings.Apart)
    (hreload : ∀ op ∈ reload, op.touches = []) (hsound : PinsSound P settings w.disk)
    (hpair : pathExists w.disk settings.certPath = true ∧
      pathExists w.disk settings.keyPath = true)
    (hpair' : pathExists (stoppedDisk P settings newKey cert bundle reload stop w)
        settings.certPath = true ∧
      pathExists (stoppedDisk P settings newKey cert bundle reload stop w) settings.keyPath = true)
    (hbefore : pathExists w.disk settings.caPinsPath = false ∨
      pathExists w.disk settings.caPinsPath = true ∧
      ∃ pins f, readPins w.disk settings.caPinsPath = .ok pins ∧ f ∈ pins ∧
        f ∈ bundleFingerprints P bundle) :
    (((bundleFingerprints P bundle ≠ ∅ ∧ Reaches stop 10 ∧ ¬Reaches stop 11) ∨
        (pathExists w.disk settings.caPinsPath = false ∧ Reaches stop 9 ∧
          (bundleFingerprints P bundle = ∅ ∨ ¬Reaches stop 11))) →
      ¬PinsHold P settings (stoppedDisk P settings newKey cert bundle reload stop w)) ∧
    (¬((bundleFingerprints P bundle ≠ ∅ ∧ Reaches stop 10 ∧ ¬Reaches stop 11) ∨
        (pathExists w.disk settings.caPinsPath = false ∧ Reaches stop 9 ∧
          (bundleFingerprints P bundle = ∅ ∨ ¬Reaches stop 11))) →
      PinsSound P settings (stoppedDisk P settings newKey cert bundle reload stop w)) := by
  have hoffca := offPair_ca hapart.paths_nodup hapart.bundleApart
  have hoffpins := offPair_pins hapart.paths_nodup hapart.bundleApart
  have hne : settings.caPinsPath ≠ settings.caCertPath := by
    have hpaths := hapart.paths_nodup
    simp only [AgentSettings.paths, List.nodup_cons, List.mem_cons, not_or] at hpaths
    exact Ne.symm hpaths.2.2.1.1
  have hcatmp : settings.caCertPath ≠ tmpPath settings.caCertPath :=
    hapart.ne_temporary (by simp [AgentSettings.paths]) (by simp [AgentSettings.temporaryPaths])
  have hpinstmp : settings.caPinsPath ≠ tmpPath settings.caCertPath :=
    hapart.ne_temporary (by simp [AgentSettings.paths]) (by simp [AgentSettings.temporaryPaths])
  by_cases h9 : Reaches stop 9
  · by_cases hopen : bundleFingerprints P bundle ≠ ∅ ∧ Reaches stop 10
    · obtain ⟨hfp, h10⟩ := hopen
      by_cases h11 : Reaches stop 11
      · -- the pins are those of the new bundle
        obtain ⟨hca, hread⟩ := bundle_with_pins newKey cert hne hreload hfp h11 w
        obtain ⟨f, hf⟩ := Finset.nonempty_iff_ne_empty.mpr hfp
        refine ⟨?_, fun _ => pinsSound_of_shared hpair'.2 hpair'.1 hca hread hf hf⟩
        rintro (⟨-, -, h⟩ | ⟨-, -, h⟩)
        · exact absurd h11 h
        · exact absurd h11 (h.resolve_left hfp)
      · -- the pins file has been opened and not written
        obtain ⟨hca, hpins⟩ := bundle_with_empty_pins newKey cert reload hne hfp h10 h11 w
        refine ⟨fun _ => not_pinsHold ?_ (readPins_of_empty hpins), ?_⟩
        · simp [certsExist, pathExists_of_some hca, hpair'.1, hpair'.2]
        · exact fun hno => absurd (.inl ⟨hfp, h10, h11⟩) hno
    · -- the pins file has not been opened
      have hshort : bundleFingerprints P bundle = ∅ ∨ ¬Reaches stop 10 := by
        by_contra hboth
        rw [not_or, not_not] at hboth
        exact hopen hboth
      obtain ⟨hca, hpins⟩ := bundle_without_pins newKey cert hoffpins hne hpinstmp hreload h9
        hshort w
      rcases hbefore with hmissing | ⟨hthere, pins, f, hread, hpin, hf⟩
      · have hnone : w.disk settings.caPinsPath = none := by
          simpa [pathExists] using hmissing
        refine ⟨fun _ => not_pinsHold ?_ (readPins_of_missing (hpins.trans hnone)), ?_⟩
        · simp [certsExist, pathExists_of_some hca, hpair'.1, hpair'.2]
        · refine fun hno => absurd (.inr ⟨hmissing, h9, hshort.imp_right ?_⟩) hno
          exact fun h10 h11 => h10 (h11.mono (by omega))
      · rw [← readPins_congr hpins] at hread
        refine ⟨?_, fun _ => pinsSound_of_shared hpair'.2 hpair'.1 hca hread hpin hf⟩
        rintro (⟨hfp, h10, -⟩ | ⟨hmissing, -, -⟩)
        · exact absurd ⟨hfp, h10⟩ hopen
        · rw [hthere] at hmissing
          cases hmissing
  · -- the CA file has not been replaced
    refine ⟨?_, fun _ => hsound.congr ?_ ?_ hpair hpair'⟩
    · rintro (⟨-, h10, -⟩ | ⟨-, h, -⟩)
      · exact absurd (h10.mono (by omega)) h9
      · exact absurd h h9
    · exact bundle_of_early_stop hoffca hcatmp h9 _ w
    · exact bundle_of_early_stop hoffpins hpinstmp h9 _ w

end Checks

variable [DecidableEq K] {P : Platform K} {settings : AgentSettings} {r : Renewal K}
  {w : World K}

/-- The renewal stores a bundle and is interrupted between opening and writing the
pins file; or no pins were on record, and it is interrupted anywhere between the
bundle and the end of that write, or has no pins to write. -/
def DropsPins (P : Platform K) (settings : AgentSettings) (d : Disk) (r : Renewal K)
    (stop : Option Nat) : Prop :=
  ∃ data caRoot cert bundle, acceptedRenewal P settings r d = some (data, caRoot) ∧
    StoresBundle data caRoot cert bundle ∧
    ((bundleFingerprints P bundle ≠ ∅ ∧ Reaches stop 10 ∧ ¬Reaches stop 11) ∨
      (pathExists d settings.caPinsPath = false ∧ Reaches stop 9 ∧
        (bundleFingerprints P bundle = ∅ ∨ ¬Reaches stop 11)))

/-- **One renewal.** From a sound directory it leaves the pins missing exactly when it
drops them, and a sound directory otherwise. -/
theorem renewal_pins (hapart : settings.Apart) (hsound : PinsSound P settings w.disk)
    (stop : Option Nat) :
    (DropsPins P settings w.disk r stop →
      ¬PinsHold P settings (after w ((renewIfNeeded P settings r).performed w stop)).disk) ∧
    (¬DropsPins P settings w.disk r stop →
      PinsSound P settings (after w ((renewIfNeeded P settings r).performed w stop)).disk) := by
  cases haccepted : acceptedRenewal P settings r w.disk with
  | none =>
      rw [Prog.performed, renewIfNeeded_of_none haccepted, cut_nil, after_nil]
      refine ⟨?_, fun _ => hsound⟩
      rintro ⟨data, caRoot, cert, bundle, hsome, -⟩
      rw [haccepted] at hsome
      cases hsome
  | some answer =>
      obtain ⟨data, caRoot⟩ := answer
      obtain ⟨hcert, hkey, slug, out, hchecked, hrun, heffects⟩ := renewIfNeeded_of_some haccepted
      have hoffca := offPair_ca hapart.paths_nodup hapart.bundleApart
      have hoffpins := offPair_pins hapart.paths_nodup hapart.bundleApart
      have hpair : pathExists (after w (cut stop out.1)).disk settings.certPath = true ∧
          pathExists (after w (cut stop out.1)).disk settings.keyPath = true :=
        ⟨(hrun.passes_exists (fun _ => hotReload_touches)
            (fun t ht => hapart.ne_temporary (by simp [AgentSettings.paths]) ht) hcert).at_cut stop,
          (hrun.passes_exists (fun _ => hotReload_touches)
            (fun t ht => hapart.ne_temporary (by simp [AgentSettings.paths]) ht) hkey).at_cut stop⟩
      rw [Prog.performed, heffects]
      rcases hrun.bundle_cases (fun _ => hotReload_touches) with
        ⟨hnone, hoff⟩ | ⟨cert, bundle, reload, hstores, hreload, hops⟩
      · -- no bundle is stored: the bundle and the pins are left alone
        have hsame : ∀ p, OffPair settings p →
            (after w (cut stop out.1)).disk p = w.disk p := fun p hp =>
          after_disk_of_untouched w _ (fun op hop => hoff op (mem_of_mem_cut hop) p hp)
        refine ⟨?_, fun _ => hsound.congr (hsame _ hoffca) (hsame _ hoffpins) ⟨hcert, hkey⟩ hpair⟩
        rintro ⟨data', caRoot', cert, bundle, hsome, hstores, -⟩
        rw [haccepted, Option.some.injEq, Prod.mk.injEq] at hsome
        rw [← hsome.1, ← hsome.2] at hstores
        exact absurd hstores (hnone cert bundle)
      · have hdrops : DropsPins P settings w.disk r stop ↔
            ((bundleFingerprints P bundle ≠ ∅ ∧ Reaches stop 10 ∧ ¬Reaches stop 11) ∨
              (pathExists w.disk settings.caPinsPath = false ∧ Reaches stop 9 ∧
                (bundleFingerprints P bundle = ∅ ∨ ¬Reaches stop 11))) := by
          constructor
          · rintro ⟨data', caRoot', cert', bundle', hsome, hstores', h⟩
            rw [haccepted, Option.some.injEq, Prod.mk.injEq] at hsome
            rw [← hsome.2] at hstores'
            have hbundle : bundle = bundle' :=
              Except.ok.inj (hstores.2.2.symm.trans hstores'.2.2)
            rwa [hbundle]
          · intro h
            exact ⟨data, caRoot, cert, bundle, haccepted, hstores, h⟩
        have hbefore := pins_before_renewal hsound hchecked hstores.2.1 hstores.2.2
        rw [hdrops]
        rw [hops] at hpair ⊢
        exact stored_bundle_pins hapart hreload hsound ⟨hcert, hkey⟩ hpair hbefore

end Renewals

/-! ## Runs -/

section Runs

variable [DecidableEq K] {P : Platform K} {settings : AgentSettings}

/-- The directory a step leaves. -/
def PinStep.act (d : Disk) : PinStep (K := K) P settings → Disk
  | .enrol e _ stop =>
      (after (newProcess d : World K)
        ((ensureRegistered P settings e).performed (newProcess d) stop)).disk
  | .renew r context stop =>
      (after (⟨d, context, none⟩ : World K)
        ((renewIfNeeded P settings r).performed ⟨d, context, none⟩ stop)).disk

/-- The step is interrupted where that costs the pins. -/
def PinStep.LosesPins (d : Disk) : PinStep (K := K) P settings → Prop
  | .enrol e _ stop =>
      ¬(pathExists d settings.certPath ∧ pathExists d settings.keyPath) ∧
        BundleReached (e.answer P settings) ∧ Reaches stop 5 ∧ ¬Reaches stop 8
  | .renew r _ stop => DropsPins P settings d r stop

theorem pinStep_act (hapart : settings.Apart) {d : Disk} (hsound : PinsSound P settings d)
    (s : PinStep (K := K) P settings) :
    (s.LosesPins d → ¬PinsHold P settings (s.act d)) ∧
      (¬s.LosesPins d → PinsSound P settings (s.act d)) := by
  cases s with
  | enrol e parseable stop =>
      by_cases hstart : pathExists d settings.certPath ∧ pathExists d settings.keyPath
      · refine ⟨fun h => absurd hstart h.1, fun _ => ?_⟩
        have hskip := ensureRegistered_skip P settings e (w := (newProcess d : World K)) hstart
        rw [PinStep.act, Prog.performed_of_run hskip, cut_nil]
        exact hsound
      · obtain ⟨hlost, hkept⟩ := enrolment_pins (w := (newProcess d : World K))
          hapart.paths_nodup parseable hsound hstart stop
        exact ⟨fun h => hlost h.2, fun h => hkept (fun h' => h ⟨hstart, h'⟩)⟩
  | renew r context stop =>
      exact renewal_pins (w := ⟨d, context, none⟩) hapart hsound stop

/-- **Pins across interruptions.** From an empty directory, over any enrolments with
parseable bundles and any renewals, each interrupted anywhere or not at all, the pins
hold in every directory reached exactly when no step loses them. -/
theorem pins_hold_iff (P : Platform K) (settings : AgentSettings) (hapart : settings.Apart)
    (steps : List (PinStep (K := K) P settings)) :
    Along (fun d s _ => PinsHold P settings (PinStep.act d s)) emptyDisk
        (trace PinStep.act emptyDisk steps) ↔
      Along (fun d s _ => ¬PinStep.LosesPins d s) emptyDisk
        (trace PinStep.act emptyDisk steps) := by
  refine along_trace_iff (A := fun _ => True) (PinsSound P settings) ?_ ?_ ?_ (fun _ _ => trivial)
  · intro d s _ hsound hkeeps
    exact (pinStep_act hapart hsound s).2 hkeeps
  · intro d s _ hsound
    constructor
    · intro hhold hloses
      exact (pinStep_act hapart hsound s).1 hloses hhold
    · intro hkeeps
      exact ((pinStep_act hapart hsound s).2 hkeeps).hold
  · refine pinsSound_of_no_bundle ?_ ?_
    · simp [emptyDisk, pathExists]
    · simp [emptyDisk, pathExists]

end Runs

theorem sampleAnchor_parseable :
    ParseableBundle samplePlatform (sampleAnchor.answer samplePlatform sampleSettings) := by
  intro ca hca
  have hA : answerText (sampleAnchor.answer samplePlatform sampleSettings) (py "caRootPem") =
      some (py "A") := by
    decide
  rw [hA, Option.some.injEq] at hca
  rw [← hca]
  decide

/-- An enrolment that is killed between the bundle and its pins. -/
theorem pins_lost_by_enrolment :
    ¬∀ steps : List (PinStep samplePlatform sampleSettings),
      Along (fun d s _ => PinsHold samplePlatform sampleSettings (PinStep.act d s)) emptyDisk
        (trace PinStep.act emptyDisk steps) := by
  intro h
  have hhold := (h [.enrol sampleAnchor sampleAnchor_parseable (some 6)]).1
  refine not_pinsHold ?_ (readPins_of_missing ?_) hhold
  · decide +kernel
  · decide +kernel

theorem pins_hold_iff_one_enrolment :
    Along (fun d s _ => PinsHold samplePlatform sampleSettings (PinStep.act d s)) emptyDisk
        (trace PinStep.act emptyDisk [.enrol sampleAnchor sampleAnchor_parseable none]) ↔
      Along (fun d s _ => ¬PinStep.LosesPins d s) emptyDisk
        (trace PinStep.act emptyDisk [.enrol sampleAnchor sampleAnchor_parseable none]) :=
  pins_hold_iff samplePlatform sampleSettings (by decide) _

end ProbeAgent
