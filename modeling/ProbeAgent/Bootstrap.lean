import ProbeAgent.CaPins

/-!
# Settings and enrolment (`config.py`, `mtls/bootstrap.py`)

`ensure_registered` writes the key, sends the registration request and then
writes the certificate, the CA bundle, the pins and the slug, one file after the
other, each in place.  `EnrolmentRun` lists what it can do, by how far the answer
carries it, and `ensureRegistered_run` says that it does nothing else.  The
directories an interrupted enrolment can leave are read off these lists.
-/

namespace ProbeAgent

open PyText Effects

variable {K : Type}

/-- A port as the field's `ge=1, le=65535` admits it. -/
abbrev AdvertisedPort := {n : Nat // 1 ≤ n ∧ n ≤ 65535}

/-- `AgentSettings`, as far as enrolment, renewal and start-up read it. -/
structure AgentSettings where
  bootstrapToken : PyStr := []
  schedulerUrl : PyStr := []
  caCertPath : Path := py "/certs/ca.pem"
  certPath : Path := py "/certs/agent.pem"
  keyPath : Path := py "/certs/agent-key.pem"
  caPinsPath : Path := py "/certs/ca-pins.txt"
  slugPath : Path := py "/certs/agent-slug.txt"
  slug : PyStr := []
  renewBeforeDays : Int := 30
  port : Int := 8443
  advertisedHost : PyStr := []
  advertisedPort : Option AdvertisedPort := none

/-- The files the agent keeps. -/
def AgentSettings.paths (settings : AgentSettings) : List Path :=
  [settings.keyPath, settings.certPath, settings.caCertPath, settings.caPinsPath,
    settings.slugPath]

/-- The temporary files of the atomic replacements. -/
def AgentSettings.temporaryPaths (settings : AgentSettings) : List Path :=
  [tmpPath settings.keyPath, tmpPath settings.certPath, tmpPath settings.caCertPath]

/-- No file the agent keeps is another one of them or a temporary file. -/
def AgentSettings.Apart (settings : AgentSettings) : Prop :=
  (settings.paths ++ settings.temporaryPaths).Nodup

instance (settings : AgentSettings) : Decidable settings.Apart :=
  inferInstanceAs (Decidable (List.Nodup _))

theorem AgentSettings.Apart.paths_nodup {settings : AgentSettings} (h : settings.Apart) :
    settings.paths.Nodup :=
  List.Nodup.of_append_left h

theorem AgentSettings.Apart.ne_temporary {settings : AgentSettings} (h : settings.Apart)
    {p t : Path} (hp : p ∈ settings.paths) (ht : t ∈ settings.temporaryPaths) : p ≠ t := by
  rintro rfl
  exact List.disjoint_of_nodup_append h hp ht

/-- The default paths are apart. -/
theorem defaults_apart : ({} : AgentSettings).Apart := by decide

/-- Settings with short paths, for the runs on fixed inputs. -/
def sampleSettings : AgentSettings where
  bootstrapToken := py "t"
  schedulerUrl := py "u"
  caCertPath := py "a"
  certPath := py "c"
  keyPath := py "k"
  caPinsPath := py "p"
  slugPath := py "s"
  slug := py "g"

/-- What one call of `ensure_registered` draws from outside: the key it
generates, the machine's name, and the answer to the registration request
(`resolve_bootstrap_verify`, the POST and `resp.json()`). -/
structure Enrolment (K : Type) where
  newKey : K
  fqdn : PyStr
  register : Json → Except PyExc Json

/-- An enrolment with key `1` that is answered with `data`. -/
def sampleEnrolment (data : Json) : Enrolment UInt8 where
  newKey := 0x31
  fqdn := py "h"
  register _ := .ok data

/-- `advertised_agent_uri`. -/
def advertisedAgentUri (settings : AgentSettings) (fqdn : PyStr) : PyStr :=
  let stripped := strip settings.advertisedHost
  let host := if stripped = [] then fqdn else stripped
  let port :=
    match settings.advertisedPort with
    | some p => toString p.val
    | none => toString settings.port
  py "https://" ++ host ++ py ":" ++ py port

/-- The body of the registration request. -/
def registration (P : Platform K) (settings : AgentSettings) (e : Enrolment K) : Json :=
  .obj [
    (py "bootstrapToken", .str settings.bootstrapToken),
    (py "csrPem", .str (P.buildCsrPem e.newKey)),
    (py "agentUri", .str (advertisedAgentUri settings e.fqdn))]

/-- Record the pins of a bundle, unless it has none. -/
def pinBundle (P : Platform K) (settings : AgentSettings) (caBundlePem : Json) :
    AgentProg K Unit :=
  let pins := caFingerprints P caBundlePem
  if pins ≠ ∅ then writePins settings.caPinsPath pins else pure ()

/-- Store the slug, unless the answer has none. -/
def storeSlug (settings : AgentSettings) (data : Json) : AgentProg K Unit := do
  let slug ← Prog.ofExcept (data.get (py "slug"))
  if slug.truthy then writeText settings.slugPath slug else pure ()

/-- What `ensure_registered` does with the answer `data`. -/
def storeEnrolment (P : Platform K) (settings : AgentSettings) (data : Json) :
    AgentProg K Unit := do
  let certificatePem ← Prog.ofExcept (data.index (py "certificatePem"))
  writeText settings.certPath certificatePem
  let caRootPem ← Prog.ofExcept (data.index (py "caRootPem"))
  writeText settings.caCertPath caRootPem
  pinBundle P settings caRootPem
  storeSlug settings data

/-- `ensure_registered`. -/
def ensureRegistered (P : Platform K) (settings : AgentSettings) (e : Enrolment K) :
    AgentProg K Unit := do
  let d ← Prog.look (fun w => w.disk)
  if pathExists d settings.certPath ∧ pathExists d settings.keyPath then
    pure ()
  else
    writeBytes settings.keyPath (P.privateKeyPem e.newKey)
    let data ← Prog.ofExcept (e.register (registration P settings e))
    storeEnrolment P settings data

/-- The string an answer carries under a key. -/
def answerText (answer : Except PyExc Json) (key : PyStr) : Option PyStr :=
  match answer with
  | .error _ => none
  | .ok data =>
      match data.index key with
      | .ok (.str text) => some text
      | _ => none

/-- The answer an enrolment gets. -/
def Enrolment.answer (P : Platform K) (settings : AgentSettings) (e : Enrolment K) :
    Except PyExc Json :=
  e.register (registration P settings e)

/-- The effects that record the fingerprints of a bundle. -/
def pinOps (P : Platform K) (settings : AgentSettings) (bundle : Bytes) : List (Op K) :=
  match encodeUtf8 (pinsText (bundleFingerprints P bundle)) with
  | some data => if bundleFingerprints P bundle = ∅ then [] else writeOps settings.caPinsPath data
  | none => []

/-- What `ensure_registered` does when it does not skip, by how far the answer
carries it. -/
inductive EnrolmentRun (P : Platform K) (settings : AgentSettings) (newKey : K)
    (answer : Except PyExc Json) : List (Op K) × Except PyExc Unit → Prop
  | noCertificate {exc : PyExc} :
      answerText answer (py "certificatePem") = none →
      EnrolmentRun P settings newKey answer
        (writeOps settings.keyPath (P.privateKeyPem newKey), .error exc)
  | lostCertificate {text : PyStr} {exc : PyExc} :
      answerText answer (py "certificatePem") = some text →
      encodeUtf8 text = none →
      EnrolmentRun P settings newKey answer
        (writeOps settings.keyPath (P.privateKeyPem newKey) ++
          [.truncate settings.certPath], .error exc)
  | noBundle {text : PyStr} {cert : Bytes} {exc : PyExc} :
      answerText answer (py "certificatePem") = some text →
      encodeUtf8 text = some cert →
      answerText answer (py "caRootPem") = none →
      EnrolmentRun P settings newKey answer
        (writeOps settings.keyPath (P.privateKeyPem newKey) ++
          writeOps settings.certPath cert, .error exc)
  | lostBundle {text ca : PyStr} {cert : Bytes} {exc : PyExc} :
      answerText answer (py "certificatePem") = some text →
      encodeUtf8 text = some cert →
      answerText answer (py "caRootPem") = some ca →
      encodeUtf8 ca = none →
      EnrolmentRun P settings newKey answer
        (writeOps settings.keyPath (P.privateKeyPem newKey) ++
          (writeOps settings.certPath cert ++ [.truncate settings.caCertPath]), .error exc)
  | stored {text ca : PyStr} {cert bundle : Bytes} {slugOps : List (Op K)}
      {r : Except PyExc Unit} :
      answerText answer (py "certificatePem") = some text →
      encodeUtf8 text = some cert →
      answerText answer (py "caRootPem") = some ca →
      encodeUtf8 ca = some bundle →
      (∀ op ∈ slugOps, op.touches = [settings.slugPath] ∧ op.inPlace = true) →
      EnrolmentRun P settings newKey answer
        (writeOps settings.keyPath (P.privateKeyPem newKey) ++
          (writeOps settings.certPath cert ++
            (writeOps settings.caCertPath bundle ++ (pinOps P settings bundle ++ slugOps))), r)

theorem index_of_answerText {data : Json} {key text : PyStr}
    (h : answerText (.ok data) key = some text) : data.index key = .ok (.str text) := by
  unfold answerText at h
  cases hv : data.index key with
  | error e => simp [hv] at h
  | ok v =>
      cases v with
      | str s => simpa [hv] using h
      | _ => simp [hv] at h

theorem index_of_answerText_none {data : Json} {key : PyStr}
    (h : answerText (.ok data) key = none) :
    (∃ e, data.index key = .error e) ∨
      ∃ v, data.index key = .ok v ∧ ∀ text, v ≠ .str text := by
  cases hv : data.index key with
  | error e => exact .inl ⟨e, rfl⟩
  | ok v =>
      refine .inr ⟨v, rfl, ?_⟩
      rintro text rfl
      simp [answerText, hv] at h

theorem run_pinBundle (P : Platform K) (settings : AgentSettings) {v : Json}
    {bundle : Bytes} (hv : v.encode = .ok bundle) (w : World K) :
    (pinBundle P settings v).run w = (pinOps P settings bundle, .ok ()) := by
  obtain ⟨data, hdata⟩ := encodeUtf8_pinsText (bundleFingerprints_fingerprints P bundle)
  unfold pinBundle pinOps
  rw [caFingerprints_of_encode hv, hdata]
  by_cases hempty : bundleFingerprints P bundle = ∅
  · simp [hempty]
  · simp only [ne_eq, hempty, not_false_eq_true, if_true, if_false, writePins]
    exact run_writeText hdata w

theorem touches_of_mem_storeSlug (settings : AgentSettings) (data : Json) (w : World K) :
    ∀ op ∈ ((storeSlug settings data).run w).1,
      op.touches = [settings.slugPath] ∧ op.inPlace = true := by
  unfold storeSlug
  cases hslug : data.get (py "slug") with
  | error e =>
      intro op hop
      simp at hop
  | ok slug =>
      rw [Prog.run_ofExcept_ok_bind]
      by_cases htruthy : slug.truthy = true
      · rw [if_pos htruthy]
        intro op hop
        exact touches_of_mem_writeText hop
      · rw [if_neg htruthy]
        intro op hop
        cases hop

theorem ensureRegistered_skip (P : Platform K) (settings : AgentSettings) (e : Enrolment K)
    {w : World K}
    (h : pathExists w.disk settings.certPath ∧ pathExists w.disk settings.keyPath) :
    (ensureRegistered P settings e).run w = ([], .ok ()) := by
  unfold ensureRegistered
  rw [Prog.run_look_bind, if_pos h, Prog.run_pure]

/-- **Enrolment.** A call that does not skip does one of the things of `EnrolmentRun`. -/
theorem ensureRegistered_run (P : Platform K) (settings : AgentSettings) (e : Enrolment K)
    {w : World K}
    (h : ¬(pathExists w.disk settings.certPath ∧ pathExists w.disk settings.keyPath)) :
    EnrolmentRun P settings e.newKey (e.answer P settings)
      ((ensureRegistered P settings e).run w) := by
  unfold ensureRegistered
  rw [Prog.run_look_bind, if_neg h, Prog.bind_ok (run_writeBytes _ _ w)]
  generalize after w (writeOps settings.keyPath (P.privateKeyPem e.newKey)) = w₁
  change EnrolmentRun P settings e.newKey (e.answer P settings)
    (_ ++ ((Prog.ofExcept (e.answer P settings) >>= storeEnrolment P settings).run w₁).1,
      ((Prog.ofExcept (e.answer P settings) >>= storeEnrolment P settings).run w₁).2)
  cases hanswer : e.answer P settings with
  | error exc =>
      rw [Prog.run_ofExcept_error_bind, List.append_nil]
      exact .noCertificate rfl
  | ok data =>
      rw [Prog.run_ofExcept_ok_bind]
      unfold storeEnrolment
      cases hcert : answerText (.ok data) (py "certificatePem") with
      | none =>
          rcases index_of_answerText_none hcert with ⟨exc, hindex⟩ | ⟨v, hindex, hstr⟩
          · rw [hindex, Prog.run_ofExcept_error_bind, List.append_nil]
            exact .noCertificate hcert
          · obtain ⟨exc, hrun⟩ := run_writeText_of_not_str settings.certPath hstr w₁
            rw [hindex, Prog.run_ofExcept_ok_bind, Prog.bind_error hrun, List.append_nil]
            exact .noCertificate hcert
      | some text =>
          rw [index_of_answerText hcert, Prog.run_ofExcept_ok_bind]
          cases htext : encodeUtf8 text with
          | none =>
              rw [Prog.bind_error (run_writeText_unencodable htext w₁)]
              exact .lostCertificate hcert htext
          | some cert =>
              rw [Prog.bind_ok (run_writeText htext w₁)]
              generalize after w₁ (writeOps settings.certPath cert) = w₂
              cases hca : answerText (.ok data) (py "caRootPem") with
              | none =>
                  rcases index_of_answerText_none hca with ⟨exc, hindex⟩ | ⟨v, hindex, hstr⟩
                  · rw [hindex, Prog.run_ofExcept_error_bind, List.append_nil]
                    exact .noBundle hcert htext hca
                  · obtain ⟨exc, hrun⟩ := run_writeText_of_not_str settings.caCertPath hstr w₂
                    rw [hindex, Prog.run_ofExcept_ok_bind, Prog.bind_error hrun, List.append_nil]
                    exact .noBundle hcert htext hca
              | some ca =>
                  rw [index_of_answerText hca, Prog.run_ofExcept_ok_bind]
                  cases hbundle : encodeUtf8 ca with
                  | none =>
                      rw [Prog.bind_error (run_writeText_unencodable hbundle w₂)]
                      exact .lostBundle hcert htext hca hbundle
                  | some bundle =>
                      have hencode : (Json.str ca).encode = .ok bundle := by
                        simp [Json.encode, hbundle]
                      rw [Prog.bind_ok (run_writeText hbundle w₂),
                        Prog.bind_ok (run_pinBundle P settings hencode _)]
                      exact .stored hcert htext hca hbundle
                        (touches_of_mem_storeSlug settings data _)

/-! ## The files an interrupted enrolment leaves -/

/-- The key, certificate and CA paths name three files. -/
structure AgentSettings.Separate (settings : AgentSettings) : Prop where
  cert_ne_key : settings.certPath ≠ settings.keyPath
  ca_ne_key : settings.caCertPath ≠ settings.keyPath
  ca_ne_cert : settings.caCertPath ≠ settings.certPath

theorem AgentSettings.separate_of_nodup {settings : AgentSettings}
    (h : settings.paths.Nodup) : settings.Separate := by
  simp only [AgentSettings.paths, List.nodup_cons, List.mem_cons, List.not_mem_nil, or_false,
    not_or] at h
  exact ⟨Ne.symm h.1.1, Ne.symm h.1.2.1, Ne.symm h.2.1.1⟩

/-- The answer has both strings, and the certificate can be written. -/
def BundleReached (answer : Except PyExc Json) : Prop :=
  ∃ text cert ca, answerText answer (py "certificatePem") = some text ∧
    encodeUtf8 text = some cert ∧ answerText answer (py "caRootPem") = some ca

namespace EnrolmentRun

variable {P : Platform K} {settings : AgentSettings} {newKey : K}
  {answer : Except PyExc Json} {out : List (Op K) × Except PyExc Unit}

theorem inPlace (h : EnrolmentRun P settings newKey answer out) :
    ∀ op ∈ out.1, op.inPlace = true := by
  have hwrite : ∀ (path : Path) (data : Bytes), ∀ op ∈ (writeOps path data : List (Op K)),
      op.inPlace = true := by
    intro path data op hop
    rcases List.mem_cons.mp hop with rfl | hop
    · rfl
    · rw [List.mem_singleton.mp hop]
      rfl
  have hpins : ∀ bundle, ∀ op ∈ (pinOps P settings bundle : List (Op K)), op.inPlace = true := by
    intro bundle op hop
    unfold pinOps at hop
    split at hop
    · split at hop
      · cases hop
      · exact hwrite _ _ op hop
    · cases hop
  intro op hop
  cases h with
  | noCertificate _ =>
      exact hwrite _ _ op hop
  | lostCertificate _ _ =>
      rcases List.mem_append.mp hop with hop | hop
      · exact hwrite _ _ op hop
      · rw [List.mem_singleton.mp hop]
        rfl
  | noBundle _ _ _ =>
      rcases List.mem_append.mp hop with hop | hop
      · exact hwrite _ _ op hop
      · exact hwrite _ _ op hop
  | lostBundle _ _ _ _ =>
      rcases List.mem_append.mp hop with hop | hop
      · exact hwrite _ _ op hop
      · rcases List.mem_append.mp hop with hop | hop
        · exact hwrite _ _ op hop
        · rw [List.mem_singleton.mp hop]
          rfl
  | stored _ _ _ _ hslug =>
      simp only [List.mem_append] at hop
      rcases hop with hop | hop | hop | hop | hop
      · exact hwrite _ _ op hop
      · exact hwrite _ _ op hop
      · exact hwrite _ _ op hop
      · exact hpins _ op hop
      · exact (hslug op hop).2

/-- The key file is the first one touched. -/
theorem touches_key (h : EnrolmentRun P settings newKey answer out) (stop : Option Nat) :
    (∃ op ∈ cut stop out.1, settings.keyPath ∈ op.touches) ↔ Reaches stop 1 := by
  have hfirst : ∃ rest, out.1 = [] ++ Op.truncate settings.keyPath :: rest := by
    cases h with
    | noCertificate _ => exact ⟨_, rfl⟩
    | lostCertificate _ _ => exact ⟨_, rfl⟩
    | noBundle _ _ _ => exact ⟨_, rfl⟩
    | lostBundle _ _ _ _ => exact ⟨_, rfl⟩
    | stored _ _ _ _ _ => exact ⟨_, rfl⟩
  obtain ⟨rest, hrest⟩ := hfirst
  rw [hrest]
  refine exists_mem_cut_iff ?_ ?_ stop
  · simp
  · simp [Op.touches]

/-- The certificate file is touched by the third effect. -/
theorem touches_cert (h : EnrolmentRun P settings newKey answer out)
    (hne : settings.certPath ≠ settings.keyPath) (stop : Option Nat) :
    (∃ op ∈ cut stop out.1, settings.certPath ∈ op.touches) ↔
      (answerText answer (py "certificatePem")).isSome ∧ Reaches stop 3 := by
  have hkey : ∀ op ∈ writeOps settings.keyPath (P.privateKeyPem newKey),
      settings.certPath ∉ (op : Op K).touches := by
    simp [writeOps, Op.touches, hne]
  have hthird : ∀ rest : List (Op K),
      (∃ op ∈ cut stop (writeOps settings.keyPath (P.privateKeyPem newKey) ++
        Op.truncate settings.certPath :: rest), settings.certPath ∈ op.touches) ↔
      Reaches stop 3 := by
    intro rest
    refine exists_mem_cut_iff hkey ?_ stop
    simp [Op.touches]
  cases h with
  | noCertificate htext =>
      constructor
      · rintro ⟨op, hop, htouch⟩
        exact absurd htouch (hkey op (mem_of_mem_cut hop))
      · rintro ⟨hsome, -⟩
        simp [htext] at hsome
  | lostCertificate htext _ =>
      rw [htext, hthird]
      simp
  | noBundle htext _ _ =>
      rw [htext]
      exact (hthird _).trans (by simp)
  | lostBundle htext _ _ _ =>
      rw [htext]
      exact (hthird _).trans (by simp)
  | stored htext _ _ _ _ =>
      rw [htext]
      exact (hthird _).trans (by simp)

/-- The CA file is touched by the fifth effect. -/
theorem touches_ca (h : EnrolmentRun P settings newKey answer out)
    (hkey : settings.caCertPath ≠ settings.keyPath)
    (hcert : settings.caCertPath ≠ settings.certPath) (stop : Option Nat) :
    (∃ op ∈ cut stop out.1, settings.caCertPath ∈ op.touches) ↔
      BundleReached answer ∧ Reaches stop 5 := by
  have hfour : ∀ cert, ∀ op ∈ writeOps settings.keyPath (P.privateKeyPem newKey) ++
      writeOps settings.certPath cert, settings.caCertPath ∉ (op : Op K).touches := by
    simp [writeOps, Op.touches, hkey, hcert]
  have hfifth : ∀ (cert : Bytes) (rest : List (Op K)), (∃ op ∈ cut stop
      ((writeOps settings.keyPath (P.privateKeyPem newKey) ++ writeOps settings.certPath cert) ++
        Op.truncate settings.caCertPath :: rest), settings.caCertPath ∈ op.touches) ↔
      Reaches stop 5 := by
    intro cert rest
    refine exists_mem_cut_iff (hfour cert) ?_ stop
    simp [Op.touches]
  cases h with
  | noCertificate htext =>
      constructor
      · rintro ⟨op, hop, htouch⟩
        have hmem := mem_of_mem_cut hop
        exact absurd htouch (hfour [] op (List.mem_append_left _ hmem))
      · rintro ⟨⟨text, cert, ca, hsome, -, -⟩, -⟩
        simp [htext] at hsome
  | @lostCertificate text _ htext hlost =>
      constructor
      · rintro ⟨op, hop, htouch⟩
        have hmem := mem_of_mem_cut hop
        rcases List.mem_append.mp hmem with hmem | hmem
        · exact absurd htouch (hfour [] op (List.mem_append_left _ hmem))
        · rw [List.mem_singleton.mp hmem] at htouch
          simp [Op.touches, hcert] at htouch
      · rintro ⟨⟨text, cert, ca, hsome, hcert, -⟩, -⟩
        rw [htext, Option.some.injEq] at hsome
        simp [← hsome, hlost] at hcert
  | noBundle htext _ hca =>
      constructor
      · rintro ⟨op, hop, htouch⟩
        exact absurd htouch (hfour _ op (mem_of_mem_cut hop))
      · rintro ⟨⟨text, cert, ca, -, -, hsome⟩, -⟩
        simp [hca] at hsome
  | @lostBundle text ca cert _ htext henc hca _ =>
      have hreached : BundleReached answer := ⟨text, cert, ca, htext, henc, hca⟩
      rw [← List.append_assoc, hfifth]
      simp [hreached]
  | @stored text ca cert bundle _ _ htext henc hca _ _ =>
      have hreached : BundleReached answer := ⟨text, cert, ca, htext, henc, hca⟩
      rw [← List.append_assoc]
      exact (hfifth cert _).trans (by simp [hreached])

theorem bundleReached_of_ok (h : EnrolmentRun P settings newKey answer out)
    (hok : out.2 = .ok ()) : BundleReached answer := by
  cases h with
  | noCertificate _ => cases hok
  | lostCertificate _ _ => cases hok
  | noBundle _ _ _ => cases hok
  | lostBundle _ _ _ _ => cases hok
  | stored htext henc hca _ _ => exact ⟨_, _, _, htext, henc, hca⟩

end EnrolmentRun

section Interrupted

variable {P : Platform K} {settings : AgentSettings} {e : Enrolment K} {w : World K}

/-- **Interrupted enrolment.** The files there are when it stops. -/
theorem exists_after_enrolment (hsep : settings.Separate)
    (h : ¬(pathExists w.disk settings.certPath ∧ pathExists w.disk settings.keyPath))
    (stop : Option Nat) :
    (pathExists (after w ((ensureRegistered P settings e).performed w stop)).disk
        settings.keyPath = true ↔
      pathExists w.disk settings.keyPath = true ∨ Reaches stop 1) ∧
    (pathExists (after w ((ensureRegistered P settings e).performed w stop)).disk
        settings.certPath = true ↔
      pathExists w.disk settings.certPath = true ∨
        (answerText (e.answer P settings) (py "certificatePem")).isSome ∧ Reaches stop 3) ∧
    (pathExists (after w ((ensureRegistered P settings e).performed w stop)).disk
        settings.caCertPath = true ↔
      pathExists w.disk settings.caCertPath = true ∨
        BundleReached (e.answer P settings) ∧ Reaches stop 5) := by
  have hrun := ensureRegistered_run P settings e h
  have hplace : ∀ op ∈ (ensureRegistered P settings e).performed w stop, op.inPlace = true :=
    fun op hop => hrun.inPlace op (mem_of_mem_cut hop)
  refine ⟨?_, ?_, ?_⟩
  · rw [exists_after_writes hplace]
    exact or_congr_right (hrun.touches_key stop)
  · rw [exists_after_writes hplace]
    exact or_congr_right (hrun.touches_cert hsep.cert_ne_key stop)
  · rw [exists_after_writes hplace]
    exact or_congr_right (hrun.touches_ca hsep.ca_ne_key hsep.ca_ne_cert stop)

end Interrupted

end ProbeAgent
