import ProbeAgent.Main
import ProbeAgent.Renewal
import ProbeAgent.Runs

/-!
# The key a running agent opens dispatches with (`routes/probe.py`, `routes/health.py`)

A sealed dispatch is encrypted to the certificate the listener serves and opened
with `app.state.agent_private_key`.  The boot sets both from the same files.  A
renewal loads its new certificate and key onto the listener and leaves the key in
the application state as it was, so after it the agent still advertises payload
encryption and can open nothing that is sealed to it (`sealed_dispatch_opens_iff`).
-/

namespace ProbeAgent

open PyText Effects Runs

variable {K : Type}

/-- `_can_open_sealed`, which `/health` reports as `payload_encryption`. -/
def canOpenSealed (w : World K) : Bool := w.agentPrivateKey.isSome

/-- A private key in a context belongs to the certificate in it. -/
def SslContext.Consistent (ctx : SslContext K) : Prop :=
  ∀ k, ctx.privateKey = some k → ∃ cert, ctx.certificate = some cert ∧ cert.key = k

variable [DecidableEq K]

/-- The certificate the listener serves. -/
def World.served (w : World K) : Option (Certificate K) :=
  w.serverSslContext.bind SslContext.served

/-- While the agent advertises payload encryption, the key `run_probe` opens a
dispatch with is the key of the certificate the listener serves. -/
def SealedOpens (w : World K) : Prop :=
  canOpenSealed w = true → ∀ cert, w.served = some cert → w.agentPrivateKey = some cert.key

/-- What holds of an agent on mutual TLS: its context is consistent, and it opens
what is sealed to it. -/
def LiveKey (w : World K) : Prop :=
  (∃ ctx, w.serverSslContext = some ctx ∧ ctx.Consistent) ∧ SealedOpens w

/-- One attempt of the renewal loop, and the number of effects after which one of
its file operations fails, when one does. -/
structure Attempt (K : Type) where
  renewal : Renewal K
  stop : Option Nat

def Attempt.performed (P : Platform K) (settings : AgentSettings) (w : World K)
    (a : Attempt K) : List (Op K) :=
  (renewIfNeeded P settings a.renewal).performed w a.stop

def Attempt.act (P : Platform K) (settings : AgentSettings) (w : World K)
    (a : Attempt K) : World K :=
  after w (a.performed P settings w)

/-- The attempt gets as far as loading a certificate issued for its new key, with
that key, onto the listener, and the agent holds another key. -/
def LoadsNewKey (P : Platform K) (settings : AgentSettings) (w : World K)
    (a : Attempt K) : Prop :=
  ∃ data caRoot cert key,
    acceptedRenewal P settings a.renewal w.disk = some (data, caRoot) ∧
    answeredCertificate data = .ok cert ∧
    (caRoot.truthy = true → caRoot.encodable = true) ∧
    P.certificateKey cert = some a.renewal.newKey ∧
    Reaches a.stop ((fileOps P settings a.renewal.newKey cert caRoot).length + 2) ∧
    w.agentPrivateKey = some key ∧ key ≠ a.renewal.newKey

/-! ## The boot -/

section Booted

variable {P : Platform K} {settings : AgentSettings} {d : Disk}

theorem serve_of_mtls {w : World K} (h : (serve P settings).result w = .ok .mtls) :
    ∃ ctx, buildServerContext P settings w.disk = .ok ctx ∧
      (serve P settings).effects w = [.setContext ctx,
        .setPrivateKey (loadPrivateKey P w.disk settings.keyPath).toOption] := by
  cases hcerts : certsExist settings w.disk with
  | false =>
      rw [Prog.result_of_run (serve_run_of_missing hcerts)] at h
      cases h
  | true =>
      rcases serve_run_of_certs (P := P) hcerts with ⟨exc, hrun⟩ | ⟨ctx, hctx, hrun⟩
      · rw [Prog.result_of_run hrun] at h
        cases h
      · exact ⟨ctx, hctx, Prog.effects_of_run hrun⟩

/-- A boot that listens ends with `serve`. -/
theorem main_ends_serving {e : Enrolment K} {listener : Listener}
    (h : (main P settings e).result (newProcess d) = .ok listener) :
    ∃ ops, (main P settings e).effects (newProcess d) =
        ops ++ (serve P settings).effects (after (newProcess d) ops) ∧
      (serve P settings).result (after (newProcess d) ops) = .ok listener := by
  rw [main, Prog.result_look_bind] at h
  rw [main, Prog.effects_look_bind]
  split at h
  · rename_i hguard
    rw [if_pos hguard]
    cases hrun : (ensureRegistered P settings e).run (newProcess d) with
    | mk ops res =>
        cases res with
        | error exc =>
            rw [Prog.result_of_run (Prog.bind_error hrun)] at h
            cases h
        | ok u =>
            rw [Prog.result_of_run (Prog.bind_ok hrun)] at h
            exact ⟨ops, Prog.effects_of_run (Prog.bind_ok hrun), h⟩
  · rename_i hguard
    rw [if_neg hguard]
    exact ⟨[], rfl, h⟩

/-- A boot on mutual TLS holds the key of the certificate it serves. -/
theorem liveKey_of_boot {b : Boot K} (hboot : bootOutcome P settings d b = .serving .mtls) :
    LiveKey (bootWorld P settings d b) := by
  have hdeath : b.death = none ∧
      (main P settings b.enrolment).result (newProcess d) = .ok .mtls := by
    unfold bootOutcome at hboot
    cases hd : b.death with
    | some n =>
        rw [hd] at hboot
        cases hboot
    | none =>
        rw [hd] at hboot
        cases hres : (main P settings b.enrolment).result (newProcess d) with
        | error e =>
            simp [hres] at hboot
        | ok listener =>
            simp only [hres, Outcome.serving.injEq] at hboot
            rw [hboot]
            exact ⟨rfl, rfl⟩
  obtain ⟨ops, heffects, hserve⟩ := main_ends_serving hdeath.2
  obtain ⟨ctx, hctx, hserving⟩ := serve_of_mtls hserve
  have hworld : bootWorld P settings d b = after (after (newProcess d) ops)
      [Op.setContext ctx, .setPrivateKey (loadPrivateKey P
        (after (newProcess d : World K) ops).disk settings.keyPath).toOption] := by
    rw [bootWorld, Prog.performed, hdeath.1, cut_none, heffects, hserving, after_append]
  obtain ⟨cert, hcert, hkey, hdisk⟩ := buildServerContext_eq_ok hctx
  rw [hworld]
  refine ⟨⟨ctx, rfl, ?_⟩, ?_⟩
  · intro k hk
    rw [hkey, Option.some.injEq] at hk
    exact ⟨cert, hcert, hk⟩
  · intro hcan served hserved
    have hsame : served = cert := by
      have h : ctx.served = some served := hserved
      rw [served_eq_some_iff.mpr ⟨hcert, hkey⟩, Option.some.injEq] at h
      exact h.symm
    have hheld : (loadPrivateKey P (after (newProcess d : World K) ops).disk
        settings.keyPath).toOption.isSome = true := hcan
    change (loadPrivateKey P (after (newProcess d : World K) ops).disk
      settings.keyPath).toOption = some served.key
    cases hload : loadPrivateKey P (after (newProcess d : World K) ops).disk
        settings.keyPath with
    | error e =>
        rw [hload] at hheld
        cases hheld
    | ok key =>
        have hkeyFile := loadPrivateKey_eq_ok hload
        rw [keyOnDisk, hkeyFile, Option.some.injEq] at hdisk
        rw [hsame, ← hdisk]
        rfl

end Booted

/-! ## The hot reload -/

section Reload

/-- What the hot reload does to the live context: each of its three calls replaces
it, and the first that fails ends it. -/
inductive ReloadRun (P : Platform K) (settings : AgentSettings) (d : Disk)
    (ctx : SslContext K) : List (Op K) → Prop
  | unread :
      (∀ ctx₁, useCertificateFile P settings d ctx ≠ .ok ctx₁) →
      ReloadRun P settings d ctx []
  | keyless {ctx₁ : SslContext K} :
      useCertificateFile P settings d ctx = .ok ctx₁ →
      (∀ ctx₂, usePrivateKeyFile P settings d ctx₁ ≠ .ok ctx₂) →
      ReloadRun P settings d ctx [.setContext ctx₁]
  | loaded {ctx₁ ctx₂ : SslContext K} {rest : List (Op K)} :
      useCertificateFile P settings d ctx = .ok ctx₁ →
      usePrivateKeyFile P settings d ctx₁ = .ok ctx₂ →
      (∀ op ∈ rest, ∃ ctx₃, op = .setContext ctx₃ ∧
        ctx₃.certificate = ctx₂.certificate ∧ ctx₃.privateKey = ctx₂.privateKey) →
      ReloadRun P settings d ctx ([.setContext ctx₁, .setContext ctx₂] ++ rest)

theorem hotReload_run (P : Platform K) (settings : AgentSettings)
    {v : World K} {ctx : SslContext K} (hctx : v.serverSslContext = some ctx) :
    ReloadRun P settings v.disk ctx ((hotReload P settings).effects v) := by
  rw [hotReload, Prog.effects_swallow]
  cases hcert : useCertificateFile P settings v.disk ctx with
  | error exc =>
      rw [Prog.effects_of_run (Prog.bind_error (run_onContext_error _ hctx hcert))]
      refine .unread ?_
      intro ctx₁ h
      rw [hcert] at h
      cases h
  | ok ctx₁ =>
      rw [Prog.effects_of_run (Prog.bind_ok (run_onContext_ok _ hctx hcert))]
      have hctx₁ : (after v [Op.setContext ctx₁]).serverSslContext = some ctx₁ := rfl
      cases hkey : usePrivateKeyFile P settings v.disk ctx₁ with
      | error exc =>
          have hrun := run_onContext_error (usePrivateKeyFile P settings) hctx₁ hkey
          rw [Prog.bind_error hrun]
          refine .keyless hcert ?_
          intro ctx₂ h
          rw [hkey] at h
          cases h
      | ok ctx₂ =>
          have hrun := run_onContext_ok (usePrivateKeyFile P settings) hctx₁ hkey
          rw [Prog.bind_ok hrun]
          have hctx₂ : (after (after v [Op.setContext ctx₁])
              [Op.setContext ctx₂]).serverSslContext = some ctx₂ := rfl
          refine .loaded hcert hkey ?_
          cases hca : loadVerifyLocations P settings v.disk ctx₂ with
          | error exc =>
              have hlast := run_onContext_error (loadVerifyLocations P settings) hctx₂ hca
              rw [hlast]
              intro op hop
              cases hop
          | ok ctx₃ =>
              have hlast := run_onContext_ok (loadVerifyLocations P settings) hctx₂ hca
              rw [hlast]
              intro op hop
              exact ⟨ctx₃, List.mem_singleton.mp hop, loadVerifyLocations_eq_ok hca⟩

end Reload

/-! ## One attempt -/

section Attempts

variable {P : Platform K} {settings : AgentSettings} {w : World K} {ctx : SslContext K}

/-- An attempt that accepts no answer leaves everything as it is. -/
theorem Attempt.act_of_none {a : Attempt K}
    (h : acceptedRenewal P settings a.renewal w.disk = none) : a.act P settings w = w := by
  rw [Attempt.act, Attempt.performed, Prog.performed, renewIfNeeded_of_none h, cut_nil, after_nil]

theorem LiveKey.congr {v : World K} (h : LiveKey w)
    (hctx : v.serverSslContext = w.serverSslContext)
    (hkey : v.agentPrivateKey = w.agentPrivateKey) : LiveKey v := by
  unfold LiveKey SealedOpens canOpenSealed World.served at h ⊢
  rw [hctx, hkey]
  exact h

/-- Work on files leaves the live key as it is. -/
theorem passes_liveKey_onDisk {ops : List (Op K)} (hops : ∀ op ∈ ops, op.onDisk = true)
    (h : LiveKey w) : Passes LiveKey w ops := by
  intro n
  obtain ⟨hctx, hkey⟩ := after_onDisk (fun op hop => hops op (List.mem_of_mem_take hop)) w
  exact h.congr hctx hkey

/-- Reading the new certificate file drops a key that is not its own, so it never
makes the listener serve what the agent cannot open. -/
theorem liveKey_useCertificateFile {d : Disk} {ctx₁ : SslContext K}
    (hctx : w.serverSslContext = some ctx) (h : LiveKey w)
    (huse : useCertificateFile P settings d ctx = .ok ctx₁) :
    LiveKey (Effect.apply w (Op.setContext ctx₁)) := by
  obtain ⟨pem, key, -, -, hcert, hkey⟩ := useCertificateFile_eq_ok huse
  obtain ⟨⟨ctx', hctx', hconsistent⟩, hopens⟩ := h
  rw [hctx, Option.some.injEq] at hctx'
  subst hctx'
  refine ⟨⟨ctx₁, rfl, ?_⟩, ?_⟩
  · intro k hk
    refine ⟨_, hcert, ?_⟩
    by_cases hold : ctx.privateKey = some key
    · rw [hkey, if_pos hold, Option.some.injEq] at hk
      exact hk
    · rw [hkey, if_neg hold] at hk
      cases hk
  · intro hcan served hserved
    obtain ⟨hc, hk⟩ := served_eq_some_iff.mp (show ctx₁.served = some served from hserved)
    rw [hcert, Option.some.injEq] at hc
    rw [← hc] at hk ⊢
    by_cases hold : ctx.privateKey = some key
    · obtain ⟨old, holdCert, holdKey⟩ := hconsistent key hold
      have hbefore := hopens hcan old (by
        rw [World.served, hctx, Option.bind_some]
        exact served_eq_some_iff.mpr ⟨holdCert, by rw [hold, holdKey]⟩)
      rw [holdKey] at hbefore
      exact hbefore
    · rw [hkey, if_neg hold] at hk
      cases hk

/-- A context with a certificate and its key leaves the agent able to open exactly
when the key it holds, if it holds one, is that key. -/
theorem liveKey_setContext {cert : Certificate K} (hcert : ctx.certificate = some cert)
    (hkey : ctx.privateKey = some cert.key) :
    (SealedOpens (Effect.apply w (Op.setContext ctx)) →
      ∀ k, w.agentPrivateKey = some k → k = cert.key) ∧
    ((∀ k, w.agentPrivateKey = some k → k = cert.key) →
      LiveKey (Effect.apply w (Op.setContext ctx))) := by
  constructor
  · intro hopens k hk
    have hcan : canOpenSealed (Effect.apply w (Op.setContext ctx)) = true := by
      change w.agentPrivateKey.isSome = true
      rw [hk]
      rfl
    have hheld := hopens hcan cert (served_eq_some_iff.mpr ⟨hcert, hkey⟩)
    change w.agentPrivateKey = some cert.key at hheld
    rw [hk, Option.some.injEq] at hheld
    exact hheld
  · intro hheld
    refine ⟨⟨ctx, rfl, ?_⟩, ?_⟩
    · intro k hk
      rw [hkey, Option.some.injEq] at hk
      exact ⟨cert, hcert, hk⟩
    · intro hcan served hserved
      obtain ⟨hc, -⟩ := served_eq_some_iff.mp (show ctx.served = some served from hserved)
      rw [hcert, Option.some.injEq] at hc
      rw [← hc]
      change w.agentPrivateKey.isSome = true at hcan
      change w.agentPrivateKey = some cert.key
      obtain ⟨k, hk⟩ := Option.isSome_iff_exists.mp hcan
      rw [hk, hheld k hk]

/-- A certificate issued for another key is not loaded with the new one. -/
theorem reload_of_other_certificate {newKey : K} {cert : Bytes}
    (hctx : w.serverSslContext = some ctx) (hlive : LiveKey w)
    (hcertFile : w.disk settings.certPath = some cert)
    (hkeyFile : keyOnDisk P settings w.disk = some newKey)
    (hother : P.certificateKey cert ≠ some newKey) :
    Passes LiveKey w ((hotReload P settings).effects w) := by
  have hrun := hotReload_run P settings hctx
  cases hops : (hotReload P settings).effects w with
  | nil => exact (passes_nil _ _).mpr hlive
  | cons op ops =>
      rw [hops] at hrun
      cases hrun with
      | keyless huse _ =>
          rw [passes_cons, passes_nil]
          exact ⟨hlive, liveKey_useCertificateFile hctx hlive huse⟩
      | loaded huse hload _ =>
          obtain ⟨pem, key, hfile, hissued, hcert₁, -⟩ := useCertificateFile_eq_ok huse
          obtain ⟨cert₂, hcert₂, hdisk, -, -⟩ := usePrivateKeyFile_eq_ok hload
          rw [hcertFile, Option.some.injEq] at hfile
          rw [hcert₁, Option.some.injEq] at hcert₂
          rw [hkeyFile, Option.some.injEq] at hdisk
          rw [← hfile] at hissued
          refine absurd ?_ hother
          rw [hissued, hdisk, ← hcert₂]

/-- A certificate issued for the new key is loaded with it. -/
theorem reload_of_new_certificate {newKey : K} {cert : Bytes}
    (hctx : w.serverSslContext = some ctx) (hlive : LiveKey w)
    (hcertFile : w.disk settings.certPath = some cert)
    (hkeyFile : keyOnDisk P settings w.disk = some newKey)
    (hissued : P.certificateKey cert = some newKey) :
    ∃ ctx₁ ctx₂ rest,
      (hotReload P settings).effects w = [.setContext ctx₁] ++ (.setContext ctx₂ :: rest) ∧
      LiveKey (Effect.apply w (Op.setContext ctx₁)) ∧
      ctx₂.certificate = some ⟨cert, newKey⟩ ∧ ctx₂.privateKey = some newKey ∧
      ∀ op ∈ rest, ∃ ctx₃, op = .setContext ctx₃ ∧
        ctx₃.certificate = ctx₂.certificate ∧ ctx₃.privateKey = ctx₂.privateKey := by
  obtain ⟨ctx₁, huse, hcert₁⟩ := useCertificateFile_of_file ctx hcertFile hissued
  obtain ⟨ctx₂, hload⟩ := usePrivateKeyFile_of_file hkeyFile hcert₁
  have hrun := hotReload_run P settings hctx
  cases hops : (hotReload P settings).effects w with
  | nil =>
      rw [hops] at hrun
      cases hrun with
      | unread hnone => exact absurd huse (hnone ctx₁)
  | cons op ops =>
      rw [hops] at hrun
      cases hrun with
      | keyless huse' hnone =>
          rw [huse, Except.ok.injEq] at huse'
          subst huse'
          exact absurd hload (hnone ctx₂)
      | loaded huse' hload' hrest =>
          rw [huse, Except.ok.injEq] at huse'
          subst huse'
          obtain ⟨cert₂, hcert₂, -, hcertOut, hkeyOut⟩ := usePrivateKeyFile_eq_ok hload'
          rw [hcert₁, Option.some.injEq] at hcert₂
          subst hcert₂
          exact ⟨ctx₁, _, _, rfl, liveKey_useCertificateFile hctx hlive huse, hcertOut, hkeyOut,
            hrest⟩

/-- Contexts that serve the same certificate with the same key, one after the other. -/
theorem passes_liveKey_same (cert : Certificate K) (rest : List (Op K))
    (hrest : ∀ op ∈ rest, ∃ ctx₃, op = .setContext ctx₃ ∧
      ctx₃.certificate = some cert ∧ ctx₃.privateKey = some cert.key)
    (hheld : ∀ k, w.agentPrivateKey = some k → k = cert.key) (hlive : LiveKey w) :
    Passes LiveKey w rest := by
  induction rest generalizing w with
  | nil => exact (passes_nil _ _).mpr hlive
  | cons op rest ih =>
      obtain ⟨ctx₃, rfl, hcert, hkey⟩ := hrest op List.mem_cons_self
      rw [passes_cons]
      refine ⟨hlive, ih (fun o ho => hrest o (List.mem_cons_of_mem _ ho)) ?_ ?_⟩
      · exact hheld
      · exact (liveKey_setContext hcert hkey).2 hheld

/-- **Reload of an installed answer.** The agent keeps opening what is sealed to it
exactly when it does not get to load a certificate issued for a key it does not hold. -/
theorem installed_liveKey (hpem : ∀ k, P.loadPemPrivateKey (P.privateKeyPem k) = some k)
    (hapart : settings.Apart) (hlive : LiveKey w) (newKey : K) (cert : Bytes) (caRoot : Json)
    (stop : Option Nat) :
    ((P.certificateKey cert = some newKey ∧
          Reaches stop ((fileOps P settings newKey cert caRoot).length + 2) ∧
          ∃ k, w.agentPrivateKey = some k ∧ k ≠ newKey) →
      ¬Passes SealedOpens w (cut stop (fileOps P settings newKey cert caRoot ++
        (hotReload P settings).effects (after w (fileOps P settings newKey cert caRoot))))) ∧
    (¬(P.certificateKey cert = some newKey ∧
          Reaches stop ((fileOps P settings newKey cert caRoot).length + 2) ∧
          ∃ k, w.agentPrivateKey = some k ∧ k ≠ newKey) →
      Passes LiveKey w (cut stop (fileOps P settings newKey cert caRoot ++
        (hotReload P settings).effects (after w (fileOps P settings newKey cert caRoot))))) := by
  obtain ⟨hcertFile, hkeyFile⟩ := files_after_install P hapart newKey cert caRoot w
  obtain ⟨hctxSame, hkeySame⟩ := after_onDisk (fileOps_onDisk P settings newKey cert caRoot) w
  have hfiles : Passes LiveKey w (fileOps P settings newKey cert caRoot) :=
    passes_liveKey_onDisk (fileOps_onDisk P settings newKey cert caRoot) hlive
  obtain ⟨⟨ctx, hctx, -⟩, -⟩ := id hlive
  rw [← hctxSame] at hctx
  have hv := hfiles.final
  have hkeyOn : keyOnDisk P settings
      (after w (fileOps P settings newKey cert caRoot)).disk = some newKey := by
    rw [keyOnDisk, hkeyFile, Option.bind_some, hpem]
  by_cases hissued : P.certificateKey cert = some newKey
  · obtain ⟨ctx₁, ctx₂, rest, hops, hlive₁, hcert₂, hkey₂, hrest⟩ :=
      reload_of_new_certificate hctx hv hcertFile hkeyOn hissued
    have hfirst : Passes LiveKey w
        (fileOps P settings newKey cert caRoot ++ [Op.setContext ctx₁]) := by
      rw [passes_append, passes_cons, passes_nil]
      exact ⟨hfiles, hv, hlive₁⟩
    have hheld : (after w (fileOps P settings newKey cert caRoot ++
        [Op.setContext ctx₁])).agentPrivateKey = w.agentPrivateKey := by
      rw [after_append]
      exact hkeySame
    have hsecond := liveKey_setContext (w := after w (fileOps P settings newKey cert caRoot ++
      [Op.setContext ctx₁])) hcert₂ hkey₂
    rw [hheld] at hsecond
    have hlen : (fileOps P settings newKey cert caRoot ++ [Op.setContext ctx₁]).length + 1 =
        (fileOps P settings newKey cert caRoot).length + 2 := by
      simp
    rw [hops, ← List.append_assoc]
    constructor
    · rintro ⟨-, hreach, k, hk, hne⟩ hpass
      have hsplit : fileOps P settings newKey cert caRoot ++ [Op.setContext ctx₁] ++
          Op.setContext ctx₂ :: rest = (fileOps P settings newKey cert caRoot ++
            [Op.setContext ctx₁] ++ [Op.setContext ctx₂]) ++ rest := by
        simp
      have hboth : Reaches stop (fileOps P settings newKey cert caRoot ++
          [Op.setContext ctx₁] ++ [Op.setContext ctx₂]).length := by
        rw [List.length_append, List.length_singleton, hlen]
        exact hreach
      obtain ⟨us, hus, -⟩ := cut_append_of_reaches hboth rest
      rw [hsplit, hus, passes_append] at hpass
      have hopens := hpass.1.final
      rw [after_append] at hopens
      exact hne (hsecond.1 hopens k hk)
    · intro hkeeps
      by_cases hreach : Reaches stop ((fileOps P settings newKey cert caRoot).length + 2)
      · have hsame : ∀ k, w.agentPrivateKey = some k → k = newKey := by
          intro k hk
          by_contra hne
          exact hkeeps ⟨hissued, hreach, k, hk, hne⟩
        have hlast := hsecond.2 hsame
        refine Passes.cut ((passes_append _ _ _ _).mpr ⟨hfirst, ?_⟩) stop
        rw [passes_cons]
        refine ⟨hfirst.final, passes_liveKey_same ⟨cert, newKey⟩ rest ?_ ?_ hlast⟩
        · intro op hop
          obtain ⟨ctx₃, hop₃, hc, hk⟩ := hrest op hop
          exact ⟨ctx₃, hop₃, hc.trans hcert₂, hk.trans hkey₂⟩
        · intro k hk
          exact hsame k (hheld.symm.trans hk)
      · rw [cut_append_of_not_reaches (by rwa [hlen])]
        exact hfirst.cut stop
  · refine ⟨fun h => absurd h.1 hissued, fun _ => ?_⟩
    refine Passes.cut ((passes_append _ _ _ _).mpr ⟨hfiles, ?_⟩) stop
    exact reload_of_other_certificate hctx hv hcertFile hkeyOn hissued

/-- **One attempt.** -/
theorem attempt_liveKey (hpem : ∀ k, P.loadPemPrivateKey (P.privateKeyPem k) = some k)
    (hapart : settings.Apart) (hlive : LiveKey w) (a : Attempt K) :
    (LoadsNewKey P settings w a → ¬Passes SealedOpens w (a.performed P settings w)) ∧
      (¬LoadsNewKey P settings w a → Passes LiveKey w (a.performed P settings w)) := by
  rw [Attempt.performed, Prog.performed]
  cases haccepted : acceptedRenewal P settings a.renewal w.disk with
  | none =>
      rw [renewIfNeeded_of_none haccepted, cut_nil]
      refine ⟨?_, fun _ => (passes_nil _ _).mpr hlive⟩
      rintro ⟨data, caRoot, cert, key, hsome, -⟩
      rw [haccepted] at hsome
      cases hsome
  | some answer =>
      obtain ⟨data, caRoot⟩ := answer
      obtain ⟨-, -, slug, out, -, hrun, heffects⟩ := renewIfNeeded_of_some haccepted
      -- the answer the attempt is about is the one it accepted
      have hanswer : LoadsNewKey P settings w a → ∃ cert key,
          answeredCertificate data = .ok cert ∧ (caRoot.truthy = true → caRoot.encodable = true) ∧
          P.certificateKey cert = some a.renewal.newKey ∧
          Reaches a.stop ((fileOps P settings a.renewal.newKey cert caRoot).length + 2) ∧
          w.agentPrivateKey = some key ∧ key ≠ a.renewal.newKey := by
        rintro ⟨data', caRoot', cert, key, hsome, hrest⟩
        rw [haccepted, Option.some.injEq, Prod.mk.injEq] at hsome
        rw [← hsome.1, ← hsome.2] at hrest
        exact ⟨cert, key, hrest⟩
      rw [heffects]
      cases hrun with
      | noCertificate hnone =>
          refine ⟨?_, fun _ => (passes_liveKey_onDisk (atomicWriteOps_onDisk _ _) hlive).cut _⟩
          intro hloads
          obtain ⟨cert, key, hcert, -⟩ := hanswer hloads
          exact absurd hcert (hnone cert)
      | badBundle _ htruthy hbad =>
          refine ⟨?_, fun _ => Passes.cut (passes_liveKey_onDisk ?_ hlive) _⟩
          · intro hloads
            obtain ⟨cert, key, -, hgood, -⟩ := hanswer hloads
            rw [hgood htruthy] at hbad
            cases hbad
          · intro op hop
            rcases List.mem_append.mp hop with hop | hop
            · exact atomicWriteOps_onDisk _ _ op hop
            · exact atomicWriteOps_onDisk _ _ op hop
      | @installed cert hcert hbundle =>
          obtain ⟨hlost, hkept⟩ := installed_liveKey (P := P) hpem hapart hlive
            a.renewal.newKey cert caRoot a.stop
          constructor
          · intro hloads
            obtain ⟨cert', key, hcert', -, hissued, hreach, hheld, hne⟩ := hanswer hloads
            rw [hcert, Except.ok.injEq] at hcert'
            subst hcert'
            exact hlost ⟨hissued, hreach, key, hheld, hne⟩
          · intro hkeeps
            refine hkept ?_
            rintro ⟨hissued, hreach, key, hheld, hne⟩
            exact hkeeps ⟨data, caRoot, cert, key, haccepted, hcert, hbundle, hissued, hreach,
              hheld, hne⟩

/-- **Sealed dispatches.** After a boot on mutual TLS the agent opens what is sealed to
it, and over any renewal attempts it does so in every state passed through exactly
when no attempt gets to load a newly issued certificate and key onto the listener. -/
theorem sealed_dispatch_opens_iff (P : Platform K) (settings : AgentSettings)
    (hpem : ∀ k, P.loadPemPrivateKey (P.privateKeyPem k) = some k)
    (hapart : settings.Apart) (d : Disk) (b : Boot K)
    (hboot : bootOutcome P settings d b = .serving .mtls) (attempts : List (Attempt K)) :
    SealedOpens (bootWorld P settings d b) ∧
      (Along (fun w a _ => Passes SealedOpens w (Attempt.performed P settings w a))
          (bootWorld P settings d b)
          (trace (Attempt.act P settings) (bootWorld P settings d b) attempts) ↔
        Along (fun w a _ => ¬LoadsNewKey P settings w a) (bootWorld P settings d b)
          (trace (Attempt.act P settings) (bootWorld P settings d b) attempts)) := by
  have hlive := liveKey_of_boot hboot
  refine ⟨hlive.2, ?_⟩
  refine along_trace_iff (A := fun _ => True) LiveKey ?_ ?_ hlive (fun _ _ => trivial)
  · intro w a _ hw hkeeps
    exact ((attempt_liveKey hpem hapart hw a).2 hkeeps).final
  · intro w a _ hw
    constructor
    · intro hopens hloads
      exact (attempt_liveKey hpem hapart hw a).1 hloads hopens
    · intro hkeeps n
      exact ((attempt_liveKey hpem hapart hw a).2 hkeeps n).2

end Attempts

/-- A boot on the files of an enrolled agent. -/
def sampleBoot : Boot UInt8 := ⟨sampleEnrolment .null, none⟩

/-- One renewal that succeeds. -/
theorem sealed_dispatch_lost_by_renewal :
    bootOutcome samplePlatform sampleSettings sampleDisk sampleBoot = .serving .mtls ∧
    ¬∀ attempts : List (Attempt UInt8),
      Along (fun w a _ => Passes SealedOpens w
          (Attempt.performed samplePlatform sampleSettings w a))
        (bootWorld samplePlatform sampleSettings sampleDisk sampleBoot)
        (trace (Attempt.act samplePlatform sampleSettings)
          (bootWorld samplePlatform sampleSettings sampleDisk sampleBoot) attempts) := by
  refine ⟨by decide +kernel, ?_⟩
  intro h
  have hopens := (h [⟨sampleRenewal (.obj [(py "certificatePem", .str (py "C2"))]), none⟩]).1.final
  have hheld := hopens (by decide +kernel) ⟨[0x43, 0x32], 0x32⟩ (by decide +kernel)
  revert hheld
  decide +kernel

/-- An attempt that is refused leaves the agent able to open; the one after it that is
accepted loads a new key, which is why the agent opens nothing then. -/
theorem sealed_dispatch_opens_iff_two_attempts :
    Along (fun w a _ => Passes SealedOpens w
        (Attempt.performed samplePlatform sampleSettings w a))
      (bootWorld samplePlatform sampleSettings sampleDisk sampleBoot)
      (trace (Attempt.act samplePlatform sampleSettings)
        (bootWorld samplePlatform sampleSettings sampleDisk sampleBoot)
        [⟨sampleRenewal .null, none⟩]) ∧
    ¬Along (fun w a _ => ¬LoadsNewKey samplePlatform sampleSettings w a)
      (bootWorld samplePlatform sampleSettings sampleDisk sampleBoot)
      (trace (Attempt.act samplePlatform sampleSettings)
        (bootWorld samplePlatform sampleSettings sampleDisk sampleBoot)
        [⟨sampleRenewal .null, none⟩,
          ⟨sampleRenewal (.obj [(py "certificatePem", .str (py "C2"))]), none⟩]) := by
  have hiff := fun attempts => (sealed_dispatch_opens_iff samplePlatform sampleSettings
    (fun _ => rfl) (by decide) sampleDisk sampleBoot (by decide +kernel) attempts).2
  constructor
  · refine (hiff _).mpr ⟨?_, trivial⟩
    rintro ⟨data, caRoot, cert, key, haccepted, -⟩
    have hnone : acceptedRenewal samplePlatform sampleSettings (sampleRenewal .null)
        (bootWorld samplePlatform sampleSettings sampleDisk sampleBoot).disk = none := by
      decide +kernel
    rw [hnone] at haccepted
    cases haccepted
  · intro hkeeps
    have hopens := ((hiff _).mpr hkeeps).2.1.final
    have hheld := hopens (by decide +kernel) ⟨[0x43, 0x32], 0x32⟩ (by decide +kernel)
    revert hheld
    decide +kernel

end ProbeAgent
