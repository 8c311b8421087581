import ProbeAgent.Bootstrap
import ProbeAgent.Fingerprints
import ProbeAgent.UrlSplit

/-!
# How the gateway is authenticated (`mtls/bootstrap_trust.py`)

`gateway_trust_context` makes the context an `https` gateway is authenticated with: by the
pin, else by the CA bundle, else by the system's trust store.  `resolve_bootstrap_verify`
is what enrolment asks for its one request; it may also answer not to verify.

In production neither the opt-out nor a gateway that is not reached over `https` passes
(`refusesInsecure_iff`, `refusesPlain_iff`).  What counts as production there and for the
egress guard is not the same text (`guards_armed_together_iff`).
-/

namespace ProbeAgent

open PyText

/-- `AgentSettings`, with what decides how the gateway is authenticated and which guards
are on. -/
structure TrustSettings extends AgentSettings where
  deploymentEnv : PyStr := py "dev"
  bootstrapCaBundle : PyStr := []
  bootstrapPinSha256 : PyStr := []
  insecureSkipBootstrapTlsVerify : Bool := false
  egressGuard : Option Bool := none

/-- `PRODUCTION`. -/
def production : PyStr := py "production"

/-- `AgentSettings.is_production`. -/
def TrustSettings.isProduction (settings : TrustSettings) : Bool :=
  decide (settings.deploymentEnv = production)

/-- `AgentSettings.egress_guard_enabled`. -/
def TrustSettings.egressGuardEnabled (settings : TrustSettings) : Bool :=
  match settings.egressGuard with
  | some enabled => enabled
  | none => settings.isProduction

/-- What the network, the file system and OpenSSL answer. -/
structure TrustWorld (E Ctx : Type) where
  sha256 : Bytes → Digest
  fetchPeerCertificate : PyStr → Nat → Except E Bytes
  pinnedContext : Bytes → Except E Ctx
  isFile : PyStr → Bool
  createDefaultContext : Option PyStr → Except E Ctx

/-- Why the gateway is not asked. -/
inductive TrustError (E : Type)
  | pin (e : PinError E)
  /-- `ValueError` of `urlsplit` or of `port`. -/
  | invalidUrl
  | noHost (url : PyStr)
  | noBundle (path : PyStr)
  | insecureInProduction
  | plainInProduction (url : PyStr)
  | raised (e : E)

/-- The `verify` argument: `False`, or a context. -/
inductive Verify (Ctx : Type)
  | skip
  | context (ctx : Ctx)
deriving DecidableEq

section Trust

variable {E Ctx : Type} (m : CaseMap) (nfkc : PyStr → PyStr) (w : TrustWorld E Ctx)

/-- `bootstrap_trust.is_production`. -/
def bootstrapIsProduction (settings : TrustSettings) : Bool :=
  decide (m.lower (strip settings.deploymentEnv) = production)

/-- `_host_port`. -/
def hostPort (url : PyStr) : Except (TrustError E) (PyStr × Nat) :=
  match UrlSplit.urlsplit m nfkc url with
  | none => .error .invalidUrl
  | some parts =>
      match parts.hostname m with
      | none => .error (.noHost url)
      | some host =>
          if host = [] then .error (.noHost url)
          else
            match parts.port with
            | none => .error .invalidUrl
            | some none => .ok (host, 443)
            | some (some port) => .ok (host, if port = 0 then 443 else port)

/-- `ca_bundle_context`. -/
def caBundleContext (path : PyStr) : Except (TrustError E) Ctx :=
  if w.isFile path then (w.createDefaultContext (some path)).mapError .raised
  else .error (.noBundle path)

/-- `gateway_trust_context`. -/
def gatewayTrustContext (settings : TrustSettings) : Except (TrustError E) Ctx :=
  if settings.bootstrapPinSha256 ≠ [] then do
    let pins ← (normalizeFingerprints m settings.bootstrapPinSha256).mapError TrustError.pin
    let (host, port) ← hostPort m nfkc settings.schedulerUrl
    let der ← (w.fetchPeerCertificate host port).mapError .raised
    (pinAndBind w.sha256 w.pinnedContext pins der).mapError .pin
  else if settings.bootstrapCaBundle ≠ [] then caBundleContext w settings.bootstrapCaBundle
  else (w.createDefaultContext none).mapError .raised

/-- `resolve_bootstrap_verify`. -/
def resolveBootstrapVerify (settings : TrustSettings) : Except (TrustError E) (Verify Ctx) :=
  let insecure := settings.insecureSkipBootstrapTlsVerify
  let isProduction := bootstrapIsProduction m settings
  if insecure && isProduction then .error .insecureInProduction
  else
    match UrlSplit.urlsplit m nfkc settings.schedulerUrl with
    | none => .error .invalidUrl
    | some parts =>
        if m.lower parts.scheme ≠ py "https" then
          if isProduction then .error (.plainInProduction settings.schedulerUrl)
          else .ok .skip
        else if insecure then .ok .skip
        else (gatewayTrustContext m nfkc w settings).map .context

/-! ## The guards of enrolment -/

/-- The opt-out is refused, whatever else is set. -/
def RefusesInsecure (settings : TrustSettings) : Prop :=
  resolveBootstrapVerify m nfkc w { settings with insecureSkipBootstrapTlsVerify := true } =
    .error .insecureInProduction

/-- Every URL that is not `https` is refused. -/
def RefusesPlain (settings : TrustSettings) : Prop :=
  ∀ url parts, UrlSplit.urlsplit m nfkc url = some parts → m.lower parts.scheme ≠ py "https" →
    resolveBootstrapVerify m nfkc w
        { settings with schedulerUrl := url, insecureSkipBootstrapTlsVerify := false } =
      .error (.plainInProduction url)

variable {m nfkc w} {settings : TrustSettings}

theorem refusesInsecure_iff :
    RefusesInsecure m nfkc w settings ↔ bootstrapIsProduction m settings = true := by
  have hsame : bootstrapIsProduction m { settings with insecureSkipBootstrapTlsVerify := true } =
      bootstrapIsProduction m settings := rfl
  unfold RefusesInsecure resolveBootstrapVerify
  simp only [hsame, Bool.true_and, if_true]
  cases hproduction : bootstrapIsProduction m settings with
  | true => exact iff_of_true rfl rfl
  | false =>
      refine iff_of_false (fun h => ?_) nofun
      simp only [Bool.false_eq_true, if_false] at h
      split at h
      · cases h
      · split_ifs at h

/-- The empty URL has no scheme. -/
theorem urlsplit_nil : UrlSplit.urlsplit m nfkc [] = some ⟨[], [], [], [], []⟩ := rfl

theorem refusesPlain_iff :
    RefusesPlain m nfkc w settings ↔ bootstrapIsProduction m settings = true := by
  have hsame : ∀ url, bootstrapIsProduction m
      { settings with schedulerUrl := url, insecureSkipBootstrapTlsVerify := false } =
        bootstrapIsProduction m settings := fun _ => rfl
  constructor
  · intro h
    by_contra hproduction
    have hscheme : m.lower [] ≠ py "https" := by
      rw [show m.lower [] = [] from rfl]
      decide
    have hempty := h [] _ urlsplit_nil hscheme
    unfold resolveBootstrapVerify at hempty
    simp only [hsame, urlsplit_nil, Bool.false_and, Bool.false_eq_true, if_false,
      hproduction] at hempty
    rw [if_pos hscheme] at hempty
    cases hempty
  · intro hproduction url parts hurl hscheme
    unfold resolveBootstrapVerify
    simp only [hsame, hurl, Bool.false_and, Bool.false_eq_true, if_false, hproduction, if_true]
    exact if_pos hscheme

/-! ## What is production -/

theorem bootstrapIsProduction_iff :
    bootstrapIsProduction m settings = true ↔
      (strip settings.deploymentEnv).map lowerAscii = production := by
  have hascii : ∀ c ∈ production, c.val < 0x80 ∧ c.val ≠ 0x6B := by
    have hall : production.all (fun c => decide (c.val < 0x80 ∧ c.val ≠ 0x6B)) = true := by
      decide +kernel
    simpa using hall
  rw [bootstrapIsProduction, decide_eq_true_iff, m.lower_eq_iff hascii]

end Trust

/-- The exact value is production for both. -/
theorem strip_lower_production : (strip production).map lowerAscii = production := by
  decide +kernel

/-- **The guards of enrolment and the egress guard are armed together exactly if the
deployment environment is `production`, or is not `production` after it is stripped and put
into lower case.** -/
theorem guards_armed_together_iff {E Ctx : Type} (m : CaseMap) (nfkc : PyStr → PyStr)
    (w : TrustWorld E Ctx) (given : TrustSettings) :
    let settings := { given with egressGuard := none }
    ((RefusesInsecure m nfkc w settings ↔ settings.egressGuardEnabled = true) ∧
        (RefusesPlain m nfkc w settings ↔ settings.egressGuardEnabled = true)) ↔
      (settings.deploymentEnv = production ∨
        (strip settings.deploymentEnv).map lowerAscii ≠ production) := by
  intro settings
  have henabled : settings.egressGuardEnabled = true ↔ settings.deploymentEnv = production :=
    decide_eq_true_iff
  rw [refusesInsecure_iff, refusesPlain_iff, and_self, bootstrapIsProduction_iff, henabled]
  constructor
  · intro hiff
    by_cases henv : settings.deploymentEnv = production
    · exact .inl henv
    · exact .inr fun hlower => henv (hiff.mp hlower)
  · rintro (henv | hlower)
    · exact iff_of_true (henv ▸ strip_lower_production) henv
    · refine iff_of_false hlower fun henv => hlower ?_
      rw [henv, strip_lower_production]

/-- A digest of zeros. -/
def zeroDigest : Digest := ⟨List.replicate 32 0, rfl⟩

/-- A world in which nothing answers. -/
def silentWorld : TrustWorld Unit Unit where
  sha256 _ := zeroDigest
  fetchPeerCertificate _ _ := .error ()
  pinnedContext _ := .error ()
  isFile _ := false
  createDefaultContext _ := .error ()

/-- `Production` arms the guards of enrolment and leaves the egress guard off. -/
theorem capital_production :
    RefusesInsecure .ascii id silentWorld { deploymentEnv := py "Production" } ∧
      RefusesPlain .ascii id silentWorld { deploymentEnv := py "Production" } ∧
      TrustSettings.egressGuardEnabled { deploymentEnv := py "Production" } = false := by
  have hproduction :
      bootstrapIsProduction .ascii { deploymentEnv := py "Production" } = true := by
    decide +kernel
  exact ⟨refusesInsecure_iff.mpr hproduction, refusesPlain_iff.mpr hproduction,
    by decide +kernel⟩

end ProbeAgent
