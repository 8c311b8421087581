import ProbeAgent.SslContext

/-!
# Renewal (`mtls/renewal.py`)

`_renew` has two halves.  The first, `checkedAnswer`, proves possession of the
current key, asks the gateway and checks the bundle it returns against the pins;
it changes nothing.  The second, `install`, replaces the key file, the certificate
file and, when the answer carries one, the bundle and its pins, and then loads
what it wrote onto the live listener.

`RenewalRun` lists what the second half can do, by how far the answer carries it,
and `renew_run` says that it does nothing else.
-/

namespace ProbeAgent

open PyText Effects

variable {K : Type}

/-- What one call of `_renew` draws from outside: the key it generates, the time,
and what `_post_renewal` makes of a request. -/
structure Renewal (K : Type) where
  newKey : K
  now : Rat
  gateway : Json → Except PyExc Json

/-- `_cert_not_after`. -/
def certNotAfter (P : Platform K) (settings : AgentSettings) (d : Disk) : Option Rat :=
  (d settings.certPath).bind P.notValidAfter

/-- `_resolve_slug`. -/
def resolveSlug (settings : AgentSettings) (d : Disk) : Except PyExc (Option PyStr) :=
  if settings.slug ≠ [] then
    .ok (some settings.slug)
  else if pathExists d settings.slugPath then do
    let slug := strip (← readText d settings.slugPath)
    if slug ≠ [] then .ok (some slug) else .ok none
  else
    .ok none

/-- `serialization.load_pem_private_key(key_path.read_bytes(), password=None)`. -/
def loadCurrentKey (P : Platform K) (settings : AgentSettings) (d : Disk) :
    Except PyExc K := do
  match P.loadPemPrivateKey (← readBytes d settings.keyPath) with
  | some key => .ok key
  | none => .error (.valueError "Could not deserialize key data.")

/-- `current_key.sign(csr, padding.PKCS1v15(), hashes.SHA256())`, which the keys of
other algorithms do not take. -/
def signCsr (P : Platform K) (currentKey : K) (csr : Bytes) : Except PyExc PyStr :=
  if P.isRsa currentKey then .ok (P.sign currentKey csr)
  else .error (.typeError "sign() takes 3 positional arguments but 4 were given")

/-- The body of the renewal request. -/
def renewalRequest (slug csrPem signature : PyStr) : Json :=
  .obj [
    (py "slug", .str slug),
    (py "csrPem", .str csrPem),
    (py "signature", .str signature)]

/-- The error `_renew` refuses a swapped trust anchor with. -/
def anchorSwapRefused : PyExc :=
  .runtimeError ("renewal returned a CA bundle that drops every pinned trust anchor — " ++
    "refusing to rotate the trust anchor (possible MITM)")

/-- `_renew` up to the gateway's answer. -/
def askGateway (P : Platform K) (settings : AgentSettings) (slug : PyStr)
    (r : Renewal K) (d : Disk) : Except PyExc Json := do
  let currentKey ← loadCurrentKey P settings d
  let csrPem := P.buildCsrPem r.newKey
  let csr ← (Json.str csrPem).encode
  let signature ← signCsr P currentKey csr
  r.gateway (renewalRequest slug csrPem signature)

/-- `_renew` up to the first replacement: the answer and its `caRootPem`. -/
def checkedAnswer (P : Platform K) (settings : AgentSettings) (slug : PyStr)
    (r : Renewal K) (d : Disk) : Except PyExc (Json × Json) := do
  let data ← askGateway P settings slug r d
  let pinned ← readPins d settings.caPinsPath
  let caRoot ← data.get (py "caRootPem")
  if caRoot.truthy ∧ ¬bundlePreservesPins P caRoot pinned then
    .error anchorSwapRefused
  else
    .ok (data, caRoot)

/-- Replace the CA file and advance the pins, when the answer carries a bundle. -/
def storeBundle (P : Platform K) (settings : AgentSettings) (caRoot : Json) :
    AgentProg K Unit :=
  if caRoot.truthy then do
    let bundle ← Prog.ofExcept caRoot.encode
    atomicWrite settings.caCertPath bundle
    pinBundle P settings caRoot
  else
    pure ()

/-- `_renew` from the first replacement to the last file. -/
def install (P : Platform K) (settings : AgentSettings) (newKey : K) (data caRoot : Json) :
    AgentProg K Unit := do
  atomicWrite settings.keyPath (P.privateKeyPem newKey)
  let certificatePem ← Prog.ofExcept (data.index (py "certificatePem"))
  let cert ← Prog.ofExcept certificatePem.encode
  atomicWrite settings.certPath cert
  storeBundle P settings caRoot

section Calls

variable [DecidableEq K]

/-- One call on the live context, when there is one. -/
def onContext (call : Disk → SslContext K → Except PyExc (SslContext K)) : AgentProg K Unit := do
  let w ← Prog.look id
  match w.serverSslContext with
  | none => pure ()
  | some ctx => do
      let ctx' ← Prog.ofExcept (call w.disk ctx)
      Prog.perform (.setContext ctx')

/-- The hot reload at the end of `_renew`; its exceptions are logged only. -/
def hotReload (P : Platform K) (settings : AgentSettings) : AgentProg K Unit :=
  Prog.swallow (do
    onContext (useCertificateFile P settings)
    onContext (usePrivateKeyFile P settings)
    onContext (loadVerifyLocations P settings))

/-- `_renew`. -/
def renew (P : Platform K) (settings : AgentSettings) (slug : PyStr) (r : Renewal K) :
    AgentProg K Unit := do
  let d ← Prog.look (fun w => w.disk)
  let answer ← Prog.ofExcept (checkedAnswer P settings slug r d)
  install P settings r.newKey answer.1 answer.2
  hotReload P settings

/-- The tests of `renew_if_needed` before it renews: the slug, when it will. -/
def dueSlug (P : Platform K) (settings : AgentSettings) (d : Disk) (now : Rat) :
    Except PyExc (Option PyStr) :=
  if settings.schedulerUrl = [] then
    .ok none
  else if ¬pathExists d settings.certPath ∨ ¬pathExists d settings.keyPath then
    .ok none
  else
    match certNotAfter P settings d with
    | none => .ok none
    | some notAfter =>
        if (notAfter - now) / 86400 > settings.renewBeforeDays then .ok none
        else resolveSlug settings d

/-- `renew_if_needed`: every exception is logged and swallowed. -/
def renewIfNeeded (P : Platform K) (settings : AgentSettings) (r : Renewal K) :
    AgentProg K Unit := do
  let d ← Prog.look (fun w => w.disk)
  match dueSlug P settings d r.now with
  | .ok (some slug) => Prog.swallow (renew P settings slug r)
  | _ => pure ()

end Calls

/-- The bytes of the certificate an answer carries. -/
def answeredCertificate (data : Json) : Except PyExc Bytes := do
  (← data.index (py "certificatePem")).encode

/-- The effects that store the bundle of an answer and its pins. -/
def bundleOps (P : Platform K) (settings : AgentSettings) (caRoot : Json) : List (Op K) :=
  if caRoot.truthy then
    match caRoot.encode with
    | .ok bundle => atomicWriteOps settings.caCertPath bundle ++ pinOps P settings bundle
    | .error _ => []
  else []

/-- The effects that replace the files by those of an answer. -/
def fileOps (P : Platform K) (settings : AgentSettings) (newKey : K) (cert : Bytes)
    (caRoot : Json) : List (Op K) :=
  atomicWriteOps settings.keyPath (P.privateKeyPem newKey) ++
    (atomicWriteOps settings.certPath cert ++ bundleOps P settings caRoot)

/-- What `_renew` does with an accepted answer, by how far it carries it.
`reload` is what the hot reload performs on the world it is given. -/
inductive RenewalRun (P : Platform K) (settings : AgentSettings) (newKey : K)
    (data caRoot : Json) (w : World K) (reload : World K → List (Op K)) :
    List (Op K) × Except PyExc Unit → Prop
  | noCertificate {exc : PyExc} :
      (∀ cert, answeredCertificate data ≠ .ok cert) →
      RenewalRun P settings newKey data caRoot w reload
        (atomicWriteOps settings.keyPath (P.privateKeyPem newKey), .error exc)
  | badBundle {cert : Bytes} {exc : PyExc} :
      answeredCertificate data = .ok cert →
      caRoot.truthy = true →
      caRoot.encodable = false →
      RenewalRun P settings newKey data caRoot w reload
        (atomicWriteOps settings.keyPath (P.privateKeyPem newKey) ++
          atomicWriteOps settings.certPath cert, .error exc)
  | installed {cert : Bytes} :
      answeredCertificate data = .ok cert →
      (caRoot.truthy = true → caRoot.encodable = true) →
      RenewalRun P settings newKey data caRoot w reload
        (fileOps P settings newKey cert caRoot ++
          reload (after w (fileOps P settings newKey cert caRoot)), .ok ())

theorem bundleOps_of_falsy (P : Platform K) (settings : AgentSettings) {caRoot : Json}
    (h : caRoot.truthy = false) : bundleOps P settings caRoot = [] := by
  simp [bundleOps, h]

theorem bundleOps_of_encode (P : Platform K) (settings : AgentSettings) {caRoot : Json}
    {bundle : Bytes} (htruthy : caRoot.truthy = true) (hencode : caRoot.encode = .ok bundle) :
    bundleOps P settings caRoot =
      atomicWriteOps settings.caCertPath bundle ++ pinOps P settings bundle := by
  simp [bundleOps, htruthy, hencode]

theorem run_storeBundle (P : Platform K) (settings : AgentSettings) {caRoot : Json}
    (h : caRoot.truthy = true → caRoot.encodable = true) (w : World K) :
    (storeBundle P settings caRoot).run w = (bundleOps P settings caRoot, .ok ()) := by
  unfold storeBundle
  by_cases htruthy : caRoot.truthy = true
  · obtain ⟨bundle, hencode⟩ := (Json.encodable_iff caRoot).mp (h htruthy)
    rw [bundleOps_of_encode P settings htruthy hencode, if_pos htruthy, hencode,
      Prog.run_ofExcept_ok_bind, Prog.bind_ok (run_atomicWrite _ _ w),
      run_pinBundle P settings hencode]
  · rw [bundleOps_of_falsy P settings (by simpa using htruthy), if_neg htruthy, Prog.run_pure]

theorem run_storeBundle_of_unencodable (P : Platform K) (settings : AgentSettings)
    {caRoot : Json} (htruthy : caRoot.truthy = true) (hencode : caRoot.encodable = false)
    (w : World K) :
    ∃ exc, (storeBundle P settings caRoot).run w = ([], .error exc) := by
  unfold storeBundle
  rw [if_pos htruthy]
  cases hv : caRoot.encode with
  | ok bundle => simp [Json.encodable, hv] at hencode
  | error exc => exact ⟨exc, by simp⟩

/-- An answer without a certificate costs the key file and ends there. -/
theorem run_install_of_noCertificate (P : Platform K) (settings : AgentSettings) (newKey : K)
    {data : Json} (caRoot : Json) (h : ∀ cert, answeredCertificate data ≠ .ok cert)
    (w : World K) :
    ∃ exc, (install P settings newKey data caRoot).run w =
      (atomicWriteOps settings.keyPath (P.privateKeyPem newKey), .error exc) := by
  unfold install
  rw [Prog.bind_ok (run_atomicWrite _ _ w)]
  cases hindex : data.index (py "certificatePem") with
  | error exc => exact ⟨exc, by simp⟩
  | ok certificatePem =>
      rw [Prog.run_ofExcept_ok_bind]
      cases hencode : certificatePem.encode with
      | error exc => exact ⟨exc, by simp⟩
      | ok cert =>
          refine absurd ?_ (h cert)
          exact except_bind_eq_ok.mpr ⟨certificatePem, hindex, hencode⟩

theorem run_install_of_certificate (P : Platform K) (settings : AgentSettings) (newKey : K)
    {data : Json} (caRoot : Json) {cert : Bytes} (h : answeredCertificate data = .ok cert)
    (w : World K) :
    (install P settings newKey data caRoot).run w =
      (atomicWriteOps settings.keyPath (P.privateKeyPem newKey) ++
        (atomicWriteOps settings.certPath cert ++
          ((storeBundle P settings caRoot).run
            (after (after w (atomicWriteOps settings.keyPath (P.privateKeyPem newKey)))
              (atomicWriteOps settings.certPath cert))).1),
        ((storeBundle P settings caRoot).run
          (after (after w (atomicWriteOps settings.keyPath (P.privateKeyPem newKey)))
            (atomicWriteOps settings.certPath cert))).2) := by
  obtain ⟨certificatePem, hindex, hencode⟩ := except_bind_eq_ok.mp h
  unfold install
  rw [Prog.bind_ok (run_atomicWrite _ _ w), hindex, Prog.run_ofExcept_ok_bind, hencode,
    Prog.run_ofExcept_ok_bind, Prog.bind_ok (run_atomicWrite _ _ _)]

theorem touches_of_mem_pinOps {P : Platform K} {settings : AgentSettings} {bundle : Bytes}
    {op : Op K} (h : op ∈ pinOps P settings bundle) :
    op.touches = [settings.caPinsPath] ∧ op.inPlace = true := by
  unfold pinOps at h
  split at h
  · split at h
    · cases h
    · simp only [writeOps, List.mem_cons, List.not_mem_nil, or_false] at h
      rcases h with rfl | rfl
      · exact ⟨rfl, rfl⟩
      · exact ⟨rfl, rfl⟩
  · cases h

theorem touches_of_mem_bundleOps {P : Platform K} {settings : AgentSettings} {caRoot : Json}
    {op : Op K} (h : op ∈ bundleOps P settings caRoot) :
    ∀ p ∈ op.touches, p = settings.caCertPath ∨ p = tmpPath settings.caCertPath ∨
      p = settings.caPinsPath := by
  intro p hp
  unfold bundleOps at h
  split at h
  · split at h
    · rcases List.mem_append.mp h with h | h
      · rcases touches_of_mem_atomicWrite h p hp with h | h
        · exact .inl h
        · exact .inr (.inl h)
      · rw [(touches_of_mem_pinOps h).1, List.mem_singleton] at hp
        exact .inr (.inr hp)
    · cases h
  · cases h

theorem atomicWriteOps_onDisk (path : Path) (data : Bytes) :
    ∀ op ∈ (atomicWriteOps path data : List (Op K)), op.onDisk = true := by
  simp [atomicWriteOps, Op.onDisk]

theorem Op.onDisk_of_inPlace {op : Op K} (h : op.inPlace = true) : op.onDisk = true := by
  cases op with
  | truncate path => rfl
  | write path data => rfl
  | replace src dst => rfl
  | setContext ctx => cases h
  | setPrivateKey key => cases h

theorem fileOps_onDisk (P : Platform K) (settings : AgentSettings) (newKey : K) (cert : Bytes)
    (caRoot : Json) : ∀ op ∈ fileOps P settings newKey cert caRoot, op.onDisk = true := by
  intro op hop
  rcases List.mem_append.mp hop with hop | hop
  · exact atomicWriteOps_onDisk _ _ op hop
  · rcases List.mem_append.mp hop with hop | hop
    · exact atomicWriteOps_onDisk _ _ op hop
    · unfold bundleOps at hop
      split at hop
      · split at hop
        · rcases List.mem_append.mp hop with hop | hop
          · exact atomicWriteOps_onDisk _ _ op hop
          · exact Op.onDisk_of_inPlace (touches_of_mem_pinOps hop).2
        · cases hop
      · cases hop

/-- The files of an installed answer, once they are written. -/
theorem files_after_install (P : Platform K) {settings : AgentSettings}
    (hapart : settings.Apart) (newKey : K) (cert : Bytes) (caRoot : Json) (w : World K) :
    (after w (fileOps P settings newKey cert caRoot)).disk settings.certPath = some cert ∧
      (after w (fileOps P settings newKey cert caRoot)).disk settings.keyPath =
        some (P.privateKeyPem newKey) := by
  have hpaths := hapart.paths_nodup
  simp only [AgentSettings.paths, List.nodup_cons, List.mem_cons, List.not_mem_nil, or_false,
    not_or] at hpaths
  have htmp : ∀ p ∈ settings.paths, ∀ t ∈ settings.temporaryPaths, p ≠ t :=
    fun p hp t ht => hapart.ne_temporary hp ht
  have hkept : ∀ p, p ∈ settings.paths → p ≠ settings.caCertPath → p ≠ settings.caPinsPath →
      ∀ v : World K, (after v (bundleOps P settings caRoot)).disk p = v.disk p := by
    intro p hp hca hpins v
    refine after_disk_of_untouched v _ ?_
    intro op hop hmem
    rcases touches_of_mem_bundleOps hop p hmem with h | h | h
    · exact hca h
    · exact htmp p hp _ (by simp [AgentSettings.temporaryPaths]) h
    · exact hpins h
  rw [fileOps, after_append, after_append]
  constructor
  · rw [hkept _ (by simp [AgentSettings.paths]) hpaths.2.1.1 hpaths.2.1.2.1,
      after_atomicWrite_disk, if_pos rfl]
  · rw [hkept _ (by simp [AgentSettings.paths]) hpaths.1.2.1 hpaths.1.2.2.1,
      after_atomicWrite_of_ne hpaths.1.1
        (htmp _ (by simp [AgentSettings.paths]) _ (by simp [AgentSettings.temporaryPaths])),
      after_atomicWrite_disk, if_pos rfl]

section Answers

variable {P : Platform K} {settings : AgentSettings} {slug : PyStr} {r : Renewal K} {w : World K}

/-- What an accepted answer has been checked for. -/
theorem checkedAnswer_eq_ok {d : Disk} {data caRoot : Json}
    (h : checkedAnswer P settings slug r d = .ok (data, caRoot)) :
    (∃ pem, d settings.keyPath = some pem) ∧
      ∃ pinned, readPins d settings.caPinsPath = .ok pinned ∧
        askGateway P settings slug r d = .ok data ∧
        data.get (py "caRootPem") = .ok caRoot ∧
        (caRoot.truthy = true → bundlePreservesPins P caRoot pinned = true) := by
  obtain ⟨data', hask, h⟩ := except_bind_eq_ok.mp h
  obtain ⟨pinned, hpins, h⟩ := except_bind_eq_ok.mp h
  obtain ⟨caRoot', hget, h⟩ := except_bind_eq_ok.mp h
  by_cases hswap : caRoot'.truthy = true ∧ ¬bundlePreservesPins P caRoot' pinned = true
  · rw [if_pos hswap] at h
    cases h
  · rw [if_neg hswap] at h
    cases h
    obtain ⟨currentKey, hkey, -⟩ := except_bind_eq_ok.mp hask
    obtain ⟨pem, hread, -⟩ := except_bind_eq_ok.mp hkey
    refine ⟨⟨pem, readBytes_eq_ok_iff.mp hread⟩, pinned, hpins, hask, hget, ?_⟩
    intro htruthy
    by_contra hlost
    exact hswap ⟨htruthy, hlost⟩

theorem onContext_effects (call : Disk → SslContext K → Except PyExc (SslContext K)) :
    ∀ op ∈ ((onContext call).run w).1, ∃ ctx, op = .setContext ctx := by
  intro op hop
  unfold onContext at hop
  rw [Prog.run_look_bind] at hop
  cases hctx : (id w).serverSslContext with
  | none =>
      rw [hctx] at hop
      cases hop
  | some ctx =>
      rw [hctx] at hop
      cases hcall : call (id w).disk ctx with
      | error e =>
          simp only [hcall, Prog.run_ofExcept_error_bind] at hop
          cases hop
      | ok ctx' =>
          simp only [hcall, Prog.run_ofExcept_ok_bind, Prog.run_perform] at hop
          exact ⟨ctx', List.mem_singleton.mp hop⟩

theorem run_onContext_ok (call : Disk → SslContext K → Except PyExc (SslContext K))
    {v : World K} {ctx ctx' : SslContext K} (hctx : v.serverSslContext = some ctx)
    (hcall : call v.disk ctx = .ok ctx') :
    (onContext call).run v = ([.setContext ctx'], .ok ()) := by
  unfold onContext
  rw [Prog.run_look_bind]
  simp only [id, hctx, hcall, Prog.run_ofExcept_ok_bind, Prog.run_perform]

theorem run_onContext_error (call : Disk → SslContext K → Except PyExc (SslContext K))
    {v : World K} {ctx : SslContext K} {exc : PyExc} (hctx : v.serverSslContext = some ctx)
    (hcall : call v.disk ctx = .error exc) :
    (onContext call).run v = ([], .error exc) := by
  unfold onContext
  rw [Prog.run_look_bind]
  simp only [id, hctx, hcall, Prog.run_ofExcept_error_bind]

end Answers

section Runs

variable [DecidableEq K] {P : Platform K} {settings : AgentSettings}
  {slug : PyStr} {r : Renewal K} {w : World K}

/-- A refused answer changes nothing. -/
theorem renew_of_refused {exc : PyExc}
    (h : checkedAnswer P settings slug r w.disk = .error exc) :
    (renew P settings slug r).run w = ([], .error exc) := by
  unfold renew
  rw [Prog.run_look_bind, h, Prog.run_ofExcept_error_bind]

/-- **Renewal.** With an accepted answer, a call does one of the things of `RenewalRun`. -/
theorem renew_run {data caRoot : Json}
    (h : checkedAnswer P settings slug r w.disk = .ok (data, caRoot)) :
    RenewalRun P settings r.newKey data caRoot w (hotReload P settings).effects
      ((renew P settings slug r).run w) := by
  have hreload : ∀ v : World K, (hotReload P settings).run v =
      ((hotReload P settings).effects v, .ok ()) := fun v => rfl
  unfold renew
  rw [Prog.run_look_bind, h, Prog.run_ofExcept_ok_bind]
  by_cases hcert : ∃ cert, answeredCertificate data = .ok cert
  · obtain ⟨cert, hcert⟩ := hcert
    have hinstall := run_install_of_certificate P settings r.newKey caRoot hcert w
    by_cases hbundle : caRoot.truthy = true → caRoot.encodable = true
    · rw [run_storeBundle P settings hbundle] at hinstall
      rw [Prog.bind_ok hinstall, hreload]
      exact .installed hcert hbundle
    · rw [Classical.not_imp, Bool.not_eq_true] at hbundle
      obtain ⟨exc, hstore⟩ := run_storeBundle_of_unencodable P settings hbundle.1 hbundle.2
        (after (after w (atomicWriteOps settings.keyPath (P.privateKeyPem r.newKey)))
          (atomicWriteOps settings.certPath cert))
      rw [hstore, List.append_nil] at hinstall
      rw [Prog.bind_error hinstall]
      exact .badBundle hcert hbundle.1 hbundle.2
  · have hnone : ∀ cert, answeredCertificate data ≠ .ok cert := fun cert hc => hcert ⟨cert, hc⟩
    obtain ⟨exc, hinstall⟩ := run_install_of_noCertificate P settings r.newKey caRoot hnone w
    rw [Prog.bind_error hinstall]
    exact .noCertificate hnone

/-- The hot reload works on the listener's context only. -/
theorem hotReload_effects :
    ∀ op ∈ (hotReload P settings).effects w, ∃ ctx, op = .setContext ctx :=
  Prog.forall_effects_bind (onContext_effects _)
    (fun _ _ => Prog.forall_effects_bind (onContext_effects _) (fun _ _ => onContext_effects _))

theorem hotReload_touches :
    ∀ op ∈ (hotReload P settings).effects w, op.touches = [] := by
  intro op hop
  obtain ⟨ctx, rfl⟩ := hotReload_effects op hop
  rfl

end Runs

theorem dueSlug_eq_some {P : Platform K} {settings : AgentSettings} {d : Disk} {now : Rat}
    {slug : PyStr} (h : dueSlug P settings d now = .ok (some slug)) :
    pathExists d settings.certPath = true ∧ pathExists d settings.keyPath = true := by
  unfold dueSlug at h
  split at h
  · cases h
  · split at h
    · cases h
    · rename_i hfiles
      rw [not_or, not_not, not_not] at hfiles
      exact hfiles

/-- The answer `renew_if_needed` accepts, when it renews and accepts one. -/
def acceptedRenewal [DecidableEq K] (P : Platform K) (settings : AgentSettings)
    (r : Renewal K) (d : Disk) : Option (Json × Json) :=
  match dueSlug P settings d r.now with
  | .ok (some slug) => (checkedAnswer P settings slug r d).toOption
  | _ => none

section Attempts

variable [DecidableEq K] {P : Platform K} {settings : AgentSettings}
  {r : Renewal K} {w : World K}

theorem renewIfNeeded_of_due {slug : PyStr}
    (h : dueSlug P settings w.disk r.now = .ok (some slug)) :
    (renewIfNeeded P settings r).effects w = (renew P settings slug r).effects w := by
  rw [renewIfNeeded, Prog.effects_look_bind, h]
  exact Prog.effects_swallow _ _

/-- An attempt that accepts no answer changes nothing. -/
theorem renewIfNeeded_of_none (h : acceptedRenewal P settings r w.disk = none) :
    (renewIfNeeded P settings r).effects w = [] := by
  unfold acceptedRenewal at h
  cases hdue : dueSlug P settings w.disk r.now with
  | error e =>
      rw [renewIfNeeded, Prog.effects_look_bind, hdue]
      rfl
  | ok slug? =>
      cases slug? with
      | none =>
          rw [renewIfNeeded, Prog.effects_look_bind, hdue]
          rfl
      | some slug =>
          rw [hdue] at h
          rw [renewIfNeeded_of_due hdue]
          cases hchecked : checkedAnswer P settings slug r w.disk with
          | error exc =>
              rw [Prog.effects_of_run (renew_of_refused hchecked)]
          | ok answer =>
              simp [hchecked, Except.toOption] at h

/-- **Attempt.** With an accepted answer, an attempt renews. -/
theorem renewIfNeeded_of_some {data caRoot : Json}
    (h : acceptedRenewal P settings r w.disk = some (data, caRoot)) :
    pathExists w.disk settings.certPath = true ∧ pathExists w.disk settings.keyPath = true ∧
    ∃ slug out, checkedAnswer P settings slug r w.disk = .ok (data, caRoot) ∧
      RenewalRun P settings r.newKey data caRoot w (hotReload P settings).effects out ∧
      (renewIfNeeded P settings r).effects w = out.1 := by
  unfold acceptedRenewal at h
  split at h
  · rename_i slug hdue
    obtain ⟨hcert, hkey⟩ := dueSlug_eq_some hdue
    cases hchecked : checkedAnswer P settings slug r w.disk with
    | error exc =>
        simp [hchecked, Except.toOption] at h
    | ok answer =>
        have hanswer : answer = (data, caRoot) := by
          simpa [hchecked, Except.toOption] using h
        subst hanswer
        exact ⟨hcert, hkey, slug, _, hchecked, renew_run hchecked, renewIfNeeded_of_due hdue⟩
  · cases h

end Attempts

/-- The files a renewal may replace. -/
def trustFiles (settings : AgentSettings) : List Path :=
  [settings.keyPath, settings.certPath, settings.caCertPath, settings.caPinsPath]

/-- One call of `_renew`: the context of the process that makes it, and the number
of effects after which it is stopped, when it is. -/
structure RenewCall (K : Type) where
  slug : PyStr
  renewal : Renewal K
  context : Option (SslContext K)
  stop : Option Nat

namespace RenewCall

variable [DecidableEq K]

def world (c : RenewCall K) (d : Disk) : World K := ⟨d, c.context, none⟩

/-- The effects a call performs in a directory. -/
def performed (P : Platform K) (settings : AgentSettings) (d : Disk) (c : RenewCall K) :
    List (Op K) :=
  (renew P settings c.slug c.renewal).performed (c.world d) c.stop

/-- The directory a call leaves. -/
def act (P : Platform K) (settings : AgentSettings) (d : Disk) (c : RenewCall K) : Disk :=
  (after (c.world d) (c.performed P settings d)).disk

end RenewCall

/-- A renewal with key `2` that the gateway answers with `data`. -/
def sampleRenewal (data : Json) : Renewal UInt8 where
  newKey := 0x32
  now := 0
  gateway _ := .ok data

/-- The directory of an agent enrolled with key `1` under the CA `A`. -/
def sampleDisk : Disk := fun p =>
  if p = py "k" then some [0x4B, 0x31]
  else if p = py "c" then some [0x43, 0x31]
  else if p = py "a" then some [0x41]
  else none

end ProbeAgent
