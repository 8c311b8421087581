import ProbeAgent.Bootstrap

/-!
# TLS contexts (`mtls/ssl_context.py`, `envelope.load_private_key`)

`load_cert_chain` is OpenSSL's: it reads the certificate file into the context,
which drops a private key that does not belong to it, and then reads the key
file, which is refused when it does not belong to the certificate.  A context
serves a certificate only while it holds its private key (`SslContext.served`).
-/

namespace ProbeAgent

open PyText Effects

variable {K : Type}

/-- `certs_exist`. -/
def certsExist (settings : AgentSettings) (d : Disk) : Bool :=
  pathExists d settings.caCertPath && pathExists d settings.certPath &&
    pathExists d settings.keyPath

section Loading

variable [DecidableEq K]

/-- The first half of `ctx.load_cert_chain`: the certificate file. -/
def useCertificateFile (P : Platform K) (settings : AgentSettings) (d : Disk)
    (ctx : SslContext K) : Except PyExc (SslContext K) := do
  let pem ← readBytes d settings.certPath
  match P.certificateKey pem with
  | none => .error (.sslError "PEM lib")
  | some key =>
      .ok { ctx with
        certificate := some ⟨pem, key⟩
        privateKey := if ctx.privateKey = some key then some key else none }

/-- The second half of `ctx.load_cert_chain`: the private key file. -/
def usePrivateKeyFile (P : Platform K) (settings : AgentSettings) (d : Disk)
    (ctx : SslContext K) : Except PyExc (SslContext K) := do
  let pem ← readBytes d settings.keyPath
  match P.loadPemPrivateKey pem, ctx.certificate with
  | none, _ => .error (.sslError "PEM lib")
  | some _, none => .error (.sslError "no certificate assigned")
  | some key, some cert =>
      if key = cert.key then .ok { ctx with privateKey := some key }
      else .error (.sslError "key values mismatch")

/-- `ctx.load_verify_locations(cafile=settings.ca_cert_path)`. -/
def loadVerifyLocations (P : Platform K) (settings : AgentSettings) (d : Disk)
    (ctx : SslContext K) : Except PyExc (SslContext K) := do
  let pem ← readBytes d settings.caCertPath
  match P.loadCaFile pem with
  | none => .error (.sslError "no certificate or crl found")
  | some certs => .ok { ctx with verifyLocations := ctx.verifyLocations ++ certs }

/-- `ctx.load_cert_chain(settings.cert_path, settings.key_path)`. -/
def loadCertChain (P : Platform K) (settings : AgentSettings) (d : Disk)
    (ctx : SslContext K) : Except PyExc (SslContext K) := do
  let ctx ← useCertificateFile P settings d ctx
  usePrivateKeyFile P settings d ctx

/-- `build_server_context`; `build_client_context` loads the same files. -/
def buildServerContext (P : Platform K) (settings : AgentSettings) (d : Disk) :
    Except PyExc (SslContext K) := do
  let ctx ← loadCertChain P settings d ⟨none, none, []⟩
  loadVerifyLocations P settings d ctx

/-- The certificate a context can complete a handshake with. -/
def SslContext.served (ctx : SslContext K) : Option (Certificate K) :=
  match ctx.certificate with
  | none => none
  | some cert => if ctx.privateKey = some cert.key then some cert else none

end Loading

/-- `envelope.load_private_key`: only an RSA key can open an envelope. -/
def loadPrivateKey (P : Platform K) (d : Disk) (path : Path) : Except PyExc K := do
  let pem ← readBytes d path
  match P.loadPemPrivateKey pem with
  | none => .error (.valueError "Could not deserialize key data.")
  | some key =>
      if P.isRsa key then .ok key
      else .error (.library "EnvelopeError")

/-- The key of the private key file. -/
def keyOnDisk (P : Platform K) (settings : AgentSettings) (d : Disk) : Option K :=
  (d settings.keyPath).bind P.loadPemPrivateKey

/-- The key the certificate in the certificate file was issued for. -/
def certificateKeyOnDisk (P : Platform K) (settings : AgentSettings) (d : Disk) : Option K :=
  (d settings.certPath).bind P.certificateKey

/-- The key file and the certificate file are a pair. -/
def Matched (P : Platform K) (settings : AgentSettings) (d : Disk) : Prop :=
  ∃ key, keyOnDisk P settings d = some key ∧ certificateKeyOnDisk P settings d = some key

theorem readBytes_eq_ok_iff {d : Disk} {path : Path} {data : Bytes} :
    readBytes d path = .ok data ↔ d path = some data := by
  unfold readBytes
  cases d path with
  | none => simp
  | some bytes => simp

theorem loadPrivateKey_eq_ok {P : Platform K} {d : Disk} {path : Path} {key : K}
    (h : loadPrivateKey P d path = .ok key) :
    (d path).bind P.loadPemPrivateKey = some key := by
  obtain ⟨pem, hread, hload⟩ := except_bind_eq_ok.mp h
  rw [readBytes_eq_ok_iff.mp hread, Option.bind_some]
  cases hkey : P.loadPemPrivateKey pem with
  | none => simp [hkey] at hload
  | some k =>
      simp only [hkey] at hload
      split at hload
      · cases hload
        rfl
      · cases hload

theorem loadVerifyLocations_eq_ok {P : Platform K} {settings : AgentSettings} {d : Disk}
    {ctx ctx' : SslContext K} (h : loadVerifyLocations P settings d ctx = .ok ctx') :
    ctx'.certificate = ctx.certificate ∧ ctx'.privateKey = ctx.privateKey := by
  obtain ⟨pem, -, hload⟩ := except_bind_eq_ok.mp h
  cases hca : P.loadCaFile pem with
  | none => simp [hca] at hload
  | some certs =>
      simp only [hca, Except.ok.injEq] at hload
      subst hload
      exact ⟨rfl, rfl⟩

section Loaded

variable [DecidableEq K]

theorem useCertificateFile_eq_ok {P : Platform K} {settings : AgentSettings} {d : Disk}
    {ctx ctx' : SslContext K} (h : useCertificateFile P settings d ctx = .ok ctx') :
    ∃ pem key, d settings.certPath = some pem ∧ P.certificateKey pem = some key ∧
      ctx'.certificate = some ⟨pem, key⟩ ∧
      ctx'.privateKey = if ctx.privateKey = some key then some key else none := by
  obtain ⟨pem, hread, huse⟩ := except_bind_eq_ok.mp h
  cases hkey : P.certificateKey pem with
  | none => simp [hkey] at huse
  | some key =>
      simp only [hkey, Except.ok.injEq] at huse
      subst huse
      exact ⟨pem, key, readBytes_eq_ok_iff.mp hread, hkey, rfl, rfl⟩

theorem usePrivateKeyFile_eq_ok {P : Platform K} {settings : AgentSettings} {d : Disk}
    {ctx ctx' : SslContext K} (h : usePrivateKeyFile P settings d ctx = .ok ctx') :
    ∃ cert, ctx.certificate = some cert ∧ keyOnDisk P settings d = some cert.key ∧
      ctx'.certificate = some cert ∧ ctx'.privateKey = some cert.key := by
  obtain ⟨pem, hread, huse⟩ := except_bind_eq_ok.mp h
  rw [keyOnDisk, readBytes_eq_ok_iff.mp hread, Option.bind_some]
  cases hload : P.loadPemPrivateKey pem with
  | none => simp [hload] at huse
  | some key =>
      cases hcert : ctx.certificate with
      | none => simp [hload, hcert] at huse
      | some cert =>
          simp only [hload, hcert] at huse
          split at huse
          · rename_i heq
            cases huse
            subst heq
            exact ⟨cert, rfl, rfl, rfl, rfl⟩
          · cases huse

theorem useCertificateFile_of_file {P : Platform K} {settings : AgentSettings} {d : Disk}
    {pem : Bytes} {key : K} (ctx : SslContext K) (hfile : d settings.certPath = some pem)
    (hkey : P.certificateKey pem = some key) :
    ∃ ctx', useCertificateFile P settings d ctx = .ok ctx' ∧
      ctx'.certificate = some ⟨pem, key⟩ := by
  refine ⟨⟨some ⟨pem, key⟩, if ctx.privateKey = some key then some key else none,
    ctx.verifyLocations⟩, except_bind_eq_ok.mpr ⟨pem, readBytes_eq_ok_iff.mpr hfile, ?_⟩, rfl⟩
  rw [hkey]

theorem usePrivateKeyFile_of_file {P : Platform K} {settings : AgentSettings} {d : Disk}
    {cert : Certificate K} {ctx : SslContext K} (hkey : keyOnDisk P settings d = some cert.key)
    (hcert : ctx.certificate = some cert) :
    ∃ ctx', usePrivateKeyFile P settings d ctx = .ok ctx' := by
  obtain ⟨pem, hfile, hload⟩ := Option.bind_eq_some_iff.mp hkey
  refine ⟨{ ctx with privateKey := some cert.key },
    except_bind_eq_ok.mpr ⟨pem, readBytes_eq_ok_iff.mpr hfile, ?_⟩⟩
  simp [hload, hcert]

/-- OpenSSL loads the two files into a new context exactly when they are a pair. -/
theorem loadCertChain_iff_matched (P : Platform K) (settings : AgentSettings) (d : Disk) :
    (∃ ctx, loadCertChain P settings d ⟨none, none, []⟩ = .ok ctx) ↔ Matched P settings d := by
  constructor
  · rintro ⟨ctx, h⟩
    obtain ⟨ctx₁, hcert, hkey⟩ := except_bind_eq_ok.mp h
    obtain ⟨pem, key, hfile, hkeyOf, hcert₁, -⟩ := useCertificateFile_eq_ok hcert
    obtain ⟨cert, hcert₂, hdisk, -, -⟩ := usePrivateKeyFile_eq_ok hkey
    rw [hcert₁, Option.some.injEq] at hcert₂
    refine ⟨cert.key, hdisk, ?_⟩
    rw [certificateKeyOnDisk, hfile, ← hcert₂]
    exact hkeyOf
  · rintro ⟨key, hkey, hcert⟩
    obtain ⟨pem, hfile, hkeyOf⟩ := Option.bind_eq_some_iff.mp hcert
    obtain ⟨ctx₁, huse, hcert₁⟩ := useCertificateFile_of_file ⟨none, none, []⟩ hfile hkeyOf
    obtain ⟨ctx₂, hload⟩ := usePrivateKeyFile_of_file hkey hcert₁
    exact ⟨ctx₂, except_bind_eq_ok.mpr ⟨ctx₁, huse, hload⟩⟩

/-- A context serves the certificate it has the private key of. -/
theorem served_eq_some_iff {ctx : SslContext K} {cert : Certificate K} :
    ctx.served = some cert ↔
      ctx.certificate = some cert ∧ ctx.privateKey = some cert.key := by
  unfold SslContext.served
  cases hcert : ctx.certificate with
  | none => simp
  | some c =>
      by_cases hkey : ctx.privateKey = some c.key
      · simp only [hkey, if_true, Option.some.injEq]
        constructor
        · rintro rfl
          exact ⟨rfl, rfl⟩
        · exact fun h => h.1
      · simp only [hkey, if_false, Option.some.injEq, reduceCtorEq, false_iff, not_and]
        rintro rfl
        exact hkey

/-- A context that was built serves the certificate on disk with the key on disk. -/
theorem buildServerContext_eq_ok {P : Platform K} {settings : AgentSettings} {d : Disk}
    {ctx : SslContext K} (h : buildServerContext P settings d = .ok ctx) :
    ∃ cert, ctx.certificate = some cert ∧ ctx.privateKey = some cert.key ∧
      keyOnDisk P settings d = some cert.key := by
  obtain ⟨ctx₂, hchain, h⟩ := except_bind_eq_ok.mp h
  obtain ⟨ctx₁, -, hkey⟩ := except_bind_eq_ok.mp hchain
  obtain ⟨cert, -, hdisk, hcert₂, hkey₂⟩ := usePrivateKeyFile_eq_ok hkey
  obtain ⟨hc, hk⟩ := loadVerifyLocations_eq_ok h
  exact ⟨cert, hc.trans hcert₂, hk.trans hkey₂, hdisk⟩

end Loaded

end ProbeAgent
