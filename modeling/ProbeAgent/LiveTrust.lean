import ProbeAgent.LiveKey
import ProbeAgent.TrustAnchor
import Mathlib.Logic.Relation

/-!
# Whom the running listener trusts

The listener starts with the CA bundle on disk, and every renewal that replaces the bundle
adds the new one to what it accepts peers from.  `live_trust_linked` says where that comes
from, in every state a run passes through: from bundles that a chain of bundles, each
sharing a certificate with the one before, links to the one the listener started with.
Nothing is taken out again before the next start, not even while a bundle is replaced.
-/

namespace ProbeAgent

open PyText Effects Runs

variable {K : Type}

/-- The authorities the live listener accepts peers from. -/
def World.trusted (w : World K) : List Der :=
  match w.serverSslContext with
  | none => []
  | some ctx => ctx.verifyLocations

/-- The two bundles have a certificate in common. -/
def SharesAnchor (P : Platform K) (old new : Bytes) : Prop :=
  ∃ f, f ∈ bundleFingerprints P old ∧ f ∈ bundleFingerprints P new

/-- A chain of bundles leads from one to the other, each sharing a certificate with the
one before. -/
def Linked (P : Platform K) : Bytes → Bytes → Prop :=
  Relation.ReflTransGen (SharesAnchor P)

/-- Whoever the listener trusts comes from a bundle that is linked to that one. -/
def LinkedTrust (P : Platform K) (first : Bytes) (w : World K) : Prop :=
  ∀ der ∈ w.trusted, ∃ bundle certs, Linked P first bundle ∧ P.loadCaFile bundle = some certs ∧
    der ∈ certs

/-! ## Contexts -/

section Contexts

variable [DecidableEq K] {P : Platform K} {settings : AgentSettings} {d : Disk}
  {ctx ctx' : SslContext K}

theorem useCertificateFile_trust (h : useCertificateFile P settings d ctx = .ok ctx') :
    ctx'.verifyLocations = ctx.verifyLocations := by
  obtain ⟨pem, -, hload⟩ := except_bind_eq_ok.mp h
  cases hkey : P.certificateKey pem with
  | none => simp [hkey] at hload
  | some key =>
      simp only [hkey, Except.ok.injEq] at hload
      rw [← hload]

theorem usePrivateKeyFile_trust (h : usePrivateKeyFile P settings d ctx = .ok ctx') :
    ctx'.verifyLocations = ctx.verifyLocations := by
  obtain ⟨pem, -, hload⟩ := except_bind_eq_ok.mp h
  cases hkey : P.loadPemPrivateKey pem with
  | none => simp [hkey] at hload
  | some key =>
      cases hcert : ctx.certificate with
      | none => simp [hkey, hcert] at hload
      | some cert =>
          simp only [hkey, hcert] at hload
          split at hload
          · cases hload
            rfl
          · cases hload

omit [DecidableEq K] in
theorem loadVerifyLocations_trust (h : loadVerifyLocations P settings d ctx = .ok ctx') :
    ∃ pem certs, d settings.caCertPath = some pem ∧ P.loadCaFile pem = some certs ∧
      ctx'.verifyLocations = ctx.verifyLocations ++ certs := by
  obtain ⟨pem, hread, hload⟩ := except_bind_eq_ok.mp h
  cases hca : P.loadCaFile pem with
  | none => simp [hca] at hload
  | some certs =>
      simp only [hca, Except.ok.injEq] at hload
      exact ⟨pem, certs, readBytes_eq_ok_iff.mp hread, hca, by rw [← hload]⟩

theorem buildServerContext_trust (h : buildServerContext P settings d = .ok ctx) :
    ∃ pem certs, d settings.caCertPath = some pem ∧ P.loadCaFile pem = some certs ∧
      ctx.verifyLocations = certs := by
  obtain ⟨ctx₂, hchain, h⟩ := except_bind_eq_ok.mp h
  obtain ⟨ctx₁, hcert, hkey⟩ := except_bind_eq_ok.mp hchain
  obtain ⟨pem, certs, hfile, hload, htrust⟩ := loadVerifyLocations_trust h
  refine ⟨pem, certs, hfile, hload, ?_⟩
  rw [htrust, usePrivateKeyFile_trust hkey, useCertificateFile_trust hcert, List.nil_append]

/-- The context trusts what the other did, and perhaps the bundle on disk besides. -/
def SslContext.Extends (P : Platform K) (settings : AgentSettings) (d : Disk)
    (ctx ctx' : SslContext K) : Prop :=
  ctx'.verifyLocations = ctx.verifyLocations ∨
    ∃ pem certs, d settings.caCertPath = some pem ∧ P.loadCaFile pem = some certs ∧
      ctx'.verifyLocations = ctx.verifyLocations ++ certs

/-- Each context trusts what the one before it does. -/
def Widening (ctxs : List (SslContext K)) : Prop :=
  ctxs.IsChain fun ctx ctx' => ctx.verifyLocations ⊆ ctx'.verifyLocations

/-- The hot reload puts contexts in place that extend the one there was, one after
another. -/
theorem hotReload_extends {v : World K} (hctx : v.serverSslContext = some ctx) :
    ∃ ctxs, (hotReload P settings).effects v = ctxs.map .setContext ∧ Widening (ctx :: ctxs) ∧
      ∀ ctx' ∈ ctxs, ctx.Extends P settings v.disk ctx' := by
  rw [hotReload, Prog.effects_swallow]
  cases hcert : useCertificateFile P settings v.disk ctx with
  | error exc =>
      rw [Prog.effects_of_run (Prog.bind_error (run_onContext_error _ hctx hcert))]
      exact ⟨[], rfl, .singleton ctx, by simp⟩
  | ok ctx₁ =>
      have htrust₁ := useCertificateFile_trust hcert
      rw [Prog.effects_of_run (Prog.bind_ok (run_onContext_ok _ hctx hcert))]
      have hctx₁ : (after v [Op.setContext ctx₁]).serverSslContext = some ctx₁ := rfl
      cases hkey : usePrivateKeyFile P settings v.disk ctx₁ with
      | error exc =>
          have hrun := run_onContext_error (usePrivateKeyFile P settings) hctx₁ hkey
          rw [Prog.bind_error hrun]
          refine ⟨[ctx₁], rfl, ?_, by simpa using .inl htrust₁⟩
          simp [Widening, htrust₁]
      | ok ctx₂ =>
          have hrun := run_onContext_ok (usePrivateKeyFile P settings) hctx₁ hkey
          have htrust₂ := (usePrivateKeyFile_trust hkey).trans htrust₁
          rw [Prog.bind_ok hrun]
          have hctx₂ : (after (after v [Op.setContext ctx₁])
              [Op.setContext ctx₂]).serverSslContext = some ctx₂ := rfl
          cases hca : loadVerifyLocations P settings v.disk ctx₂ with
          | error exc =>
              rw [run_onContext_error (loadVerifyLocations P settings) hctx₂ hca]
              refine ⟨[ctx₁, ctx₂], rfl, by simp [Widening, htrust₁, htrust₂], ?_⟩
              simp only [List.forall_mem_cons, List.not_mem_nil, false_imp_iff, implies_true,
                and_true]
              exact ⟨.inl htrust₁, .inl htrust₂⟩
          | ok ctx₃ =>
              obtain ⟨pem, certs, hfile, hload, htrust₃⟩ := loadVerifyLocations_trust hca
              rw [htrust₂] at htrust₃
              rw [run_onContext_ok (loadVerifyLocations P settings) hctx₂ hca]
              refine ⟨[ctx₁, ctx₂, ctx₃], rfl, ?_, ?_⟩
              · simp [Widening, htrust₁, htrust₂, htrust₃]
              · simp only [List.forall_mem_cons, List.not_mem_nil, false_imp_iff, implies_true,
                  and_true]
                exact ⟨.inl htrust₁, .inl htrust₂, .inr ⟨pem, certs, hfile, hload, htrust₃⟩⟩

/-- Without a listener there is no context to put in place. -/
theorem hotReload_of_none {v : World K} (hctx : v.serverSslContext = none) :
    (hotReload P settings).effects v = [] := by
  have hstep : ∀ call : Disk → SslContext K → Except PyExc (SslContext K),
      (onContext call).run v = ([], .ok ()) := by
    intro call
    unfold onContext
    rw [Prog.run_look_bind]
    simp only [id, hctx, Prog.run_pure]
  rw [hotReload, Prog.effects_swallow, Prog.effects_of_run (Prog.bind_ok (hstep _)), after_nil,
    Prog.bind_ok (hstep _), after_nil, hstep]
  rfl

end Contexts

/-! ## One attempt -/

section Attempts

variable [DecidableEq K] {P : Platform K} {settings : AgentSettings} {w : World K} {a : Attempt K}
  {first old : Bytes}

theorem Attempt.performed_of_whole (hstop : a.stop = none) :
    a.performed P settings w = (renewIfNeeded P settings a.renewal).effects w := by
  rw [Attempt.performed, Prog.performed, hstop, cut_none]

/-- An uninterrupted attempt keeps the anchor, and a bundle it stores shares a certificate
with the one before. -/
theorem Attempt.act_anchored (hapart : settings.Apart) (hstop : a.stop = none)
    (hd : Anchored P settings w.disk) (hold : w.disk settings.caCertPath = some old) :
    Anchored P settings (a.act P settings w).disk ∧
      ∃ new, (a.act P settings w).disk settings.caCertPath = some new ∧ Linked P old new := by
  have hpaths := hapart.paths_nodup
  have hoffca := offPair_ca hpaths hapart.bundleApart
  have hoffpins := offPair_pins hpaths hapart.bundleApart
  have hne : settings.caPinsPath ≠ settings.caCertPath := by
    simp only [AgentSettings.paths, List.nodup_cons, List.mem_cons, not_or] at hpaths
    exact Ne.symm hpaths.2.2.1.1
  have hsame : ∀ d : Disk, d settings.caCertPath = w.disk settings.caCertPath →
      d settings.caPinsPath = w.disk settings.caPinsPath →
      Anchored P settings d ∧ ∃ new, d settings.caCertPath = some new ∧ Linked P old new :=
    fun d hca hpins => ⟨hd.congr hca hpins, old, hca.trans hold, .refl⟩
  rw [Attempt.act, Attempt.performed_of_whole hstop]
  cases haccepted : acceptedRenewal P settings a.renewal w.disk with
  | none =>
      rw [renewIfNeeded_of_none haccepted]
      exact hsame _ rfl rfl
  | some answer =>
      obtain ⟨data, caRoot⟩ := answer
      obtain ⟨-, -, slug, out, hchecked, hrun, heffects⟩ := renewIfNeeded_of_some haccepted
      rw [heffects]
      rcases hrun.bundle_cases (fun v => hotReload_touches) with
        ⟨-, hoff⟩ | ⟨cert, bundle, reload, ⟨-, htruthy, hencode⟩, hreload, hops⟩
      · refine hsame _ ?_ ?_
        · exact after_disk_of_untouched w _ (fun op hop => hoff op hop _ hoffca)
        · exact after_disk_of_untouched w _ (fun op hop => hoff op hop _ hoffpins)
      · -- the bundle was accepted because one of its certificates is pinned
        obtain ⟨before, hbefore, hread, hsome⟩ := hd
        rw [hold, Option.some.injEq] at hbefore
        subst hbefore
        obtain ⟨-, pinned, hpinned, -, -, hpreserve⟩ := checkedAnswer_eq_ok hchecked
        rw [hread, Except.ok.injEq] at hpinned
        have hkept := hpreserve htruthy
        rw [← hpinned] at hkept
        obtain ⟨f, hf, hfold⟩ := (bundlePreservesPins_iff hsome).mp hkept
        rw [caFingerprints_of_encode hencode] at hf
        have hfp : bundleFingerprints P bundle ≠ ∅ := Finset.ne_empty_of_mem hf
        have hstored := bundle_with_pins (P := P) a.renewal.newKey cert
          hne hreload hfp (reaches_none 11) w
        rw [stoppedDisk, cut_none, ← hops] at hstored
        exact ⟨⟨bundle, hstored.1, hstored.2, hfp⟩, bundle, hstored.1, .single ⟨f, hfold, hf⟩⟩

/-- An uninterrupted attempt works on files, and then puts contexts in place that extend the
live one by the bundle the attempt leaves. -/
theorem Attempt.performed_extends (P : Platform K) (settings : AgentSettings) (w : World K)
    (hstop : a.stop = none) :
    ∃ files ctxs, a.performed P settings w = files ++ ctxs.map .setContext ∧
      (∀ op ∈ files, op.onDisk = true) ∧
      (ctxs = [] ∨ ∃ ctx, w.serverSslContext = some ctx ∧ Widening (ctx :: ctxs) ∧
        ∀ ctx' ∈ ctxs, ctx.Extends P settings (a.act P settings w).disk ctx') := by
  rw [Attempt.act, Attempt.performed_of_whole hstop]
  cases haccepted : acceptedRenewal P settings a.renewal w.disk with
  | none =>
      rw [renewIfNeeded_of_none haccepted]
      exact ⟨[], [], rfl, by simp, .inl rfl⟩
  | some answer =>
      obtain ⟨data, caRoot⟩ := answer
      obtain ⟨-, -, slug, out, -, hrun, heffects⟩ := renewIfNeeded_of_some haccepted
      rw [heffects]
      cases hrun with
      | noCertificate _ =>
          exact ⟨_, [], (List.append_nil _).symm, atomicWriteOps_onDisk _ _, .inl rfl⟩
      | badBundle _ _ _ =>
          refine ⟨_, [], (List.append_nil _).symm, fun op hop => ?_, .inl rfl⟩
          rcases List.mem_append.mp hop with hop | hop
          · exact atomicWriteOps_onDisk _ _ op hop
          · exact atomicWriteOps_onDisk _ _ op hop
      | @installed cert _ _ =>
          have hfiles := fileOps_onDisk P settings a.renewal.newKey cert caRoot
          have hlive := (after_onDisk hfiles w).1
          have hdisk : (after w (fileOps P settings a.renewal.newKey cert caRoot ++
              (hotReload P settings).effects
                (after w (fileOps P settings a.renewal.newKey cert caRoot)))).disk =
              (after w (fileOps P settings a.renewal.newKey cert caRoot)).disk := by
            rw [after_append]
            funext p
            exact after_disk_of_touchless hotReload_touches _ p
          rw [hdisk]
          cases hctx : w.serverSslContext with
          | none =>
              rw [hotReload_of_none (hlive.trans hctx)]
              exact ⟨_, [], rfl, hfiles, .inl rfl⟩
          | some ctx =>
              obtain ⟨ctxs, heffects, hwidening, hextends⟩ :=
                hotReload_extends (hlive.trans hctx)
              rw [heffects]
              exact ⟨_, ctxs, rfl, hfiles, .inr ⟨ctx, rfl, hwidening, hextends⟩⟩

omit [DecidableEq K] in
theorem trusted_of_onDisk {op : Op K} (h : op.onDisk = true) (v : World K) :
    (Effect.apply v op).trusted = v.trusted := by
  cases op with
  | truncate path => rfl
  | write path data => rfl
  | replace src dst => rfl
  | setContext ctx => cases h
  | setPrivateKey key => cases h

/-- The listener's trust is linked to that bundle, and so is the bundle on disk. -/
structure TrustKept (P : Platform K) (settings : AgentSettings) (first : Bytes) (w : World K) :
    Prop where
  anchored : Anchored P settings w.disk
  bundle : ∃ bundle, w.disk settings.caCertPath = some bundle ∧ Linked P first bundle
  trust : LinkedTrust P first w

/-- **One attempt.** -/
theorem TrustKept.passes (hapart : settings.Apart) (hstop : a.stop = none)
    (h : TrustKept P settings first w) :
    Passes (LinkedTrust P first) w (a.performed P settings w) := by
  obtain ⟨old, hold, hlinked⟩ := h.bundle
  obtain ⟨-, new, hnew, hchain⟩ := Attempt.act_anchored hapart hstop h.anchored hold
  obtain ⟨files, ctxs, hperformed, hfiles, hctxs⟩ :=
    Attempt.performed_extends P settings w hstop
  refine Passes.of_each (fun op hop v hv => ?_) h.trust
  rw [hperformed] at hop
  rcases List.mem_append.mp hop with hop | hop
  · rw [LinkedTrust, trusted_of_onDisk (hfiles op hop)]
    exact hv
  · obtain ⟨ctx', hctx', rfl⟩ := List.mem_map.mp hop
    obtain ⟨ctx, hctx, -, hextends⟩ := hctxs.resolve_left (List.ne_nil_of_mem hctx')
    have hextends := hextends ctx' hctx'
    have hbefore : w.trusted = ctx.verifyLocations := by rw [World.trusted, hctx]
    have htrust := h.trust
    rw [LinkedTrust, hbefore] at htrust
    intro der hder
    change der ∈ ctx'.verifyLocations at hder
    rcases hextends with hsame | ⟨pem, certs, hfile, hload, hmore⟩
    · rw [hsame] at hder
      exact htrust der hder
    · rw [hnew, Option.some.injEq] at hfile
      subst hfile
      rw [hmore, List.mem_append] at hder
      rcases hder with hder | hder
      · exact htrust der hder
      · exact ⟨new, certs, hlinked.trans hchain, hload, hder⟩

theorem TrustKept.act (hapart : settings.Apart) (hstop : a.stop = none)
    (h : TrustKept P settings first w) : TrustKept P settings first (a.act P settings w) := by
  obtain ⟨old, hold, hlinked⟩ := h.bundle
  obtain ⟨hanchored, new, hnew, hchain⟩ := Attempt.act_anchored hapart hstop h.anchored hold
  exact ⟨hanchored, ⟨new, hnew, hlinked.trans hchain⟩, (h.passes hapart hstop).final⟩

/-- The second listener trusts whomever the first one does. -/
def TrustGrows (w v : World K) : Prop :=
  w.trusted ⊆ v.trusted

omit [DecidableEq K] in
/-- Putting contexts in place that widen takes nobody out. -/
theorem ascends_setContext {v : World K} {ctxs : List (SslContext K)}
    (hctx : v.serverSslContext = some ctx) (h : Widening (ctx :: ctxs)) :
    Ascends TrustGrows v (ctxs.map Op.setContext) := by
  induction ctxs generalizing v ctx with
  | nil => trivial
  | cons ctx' ctxs ih =>
      obtain ⟨hsubset, hrest⟩ := List.isChain_cons_cons.mp h
      refine ⟨?_, ih rfl hrest⟩
      have hbefore : v.trusted = ctx.verifyLocations := by rw [World.trusted, hctx]
      rw [TrustGrows, hbefore]
      exact hsubset

/-- Nobody is taken out of the live context. -/
theorem Attempt.ascends (P : Platform K) (settings : AgentSettings) (w : World K)
    (hstop : a.stop = none) : Ascends TrustGrows w (a.performed P settings w) := by
  obtain ⟨files, ctxs, hperformed, hfiles, hctxs⟩ :=
    Attempt.performed_extends P settings w hstop
  rw [hperformed]
  refine Ascends.append (Ascends.of_each (fun op hop v => ?_) w) ?_
  · rw [TrustGrows, trusted_of_onDisk (hfiles op hop)]
    exact List.Subset.refl _
  · rcases hctxs with rfl | ⟨ctx, hctx, hwidening, -⟩
    · trivial
    · exact ascends_setContext (((after_onDisk hfiles w).1).trans hctx) hwidening

end Attempts

/-! ## Runs -/

section Runs

variable [DecidableEq K] {P : Platform K} {settings : AgentSettings}

/-- A boot on mutual TLS trusts the bundle it leaves on disk. -/
theorem trust_of_boot {d : Disk} {b : Boot K}
    (hboot : bootOutcome P settings d b = .serving .mtls) :
    ∃ pem certs, (bootWorld P settings d b).disk settings.caCertPath = some pem ∧
      P.loadCaFile pem = some certs ∧ (bootWorld P settings d b).trusted = certs := by
  obtain ⟨hdeath, hresult⟩ : b.death = none ∧
      (main P settings b.enrolment).result (newProcess d) = .ok .mtls := by
    unfold bootOutcome at hboot
    cases hd : b.death with
    | some n =>
        rw [hd] at hboot
        cases hboot
    | none =>
        rw [hd] at hboot
        cases hres : (main P settings b.enrolment).result (newProcess d) with
        | error e => simp [hres] at hboot
        | ok listener =>
            simp only [hres, Outcome.serving.injEq] at hboot
            rw [hboot]
            exact ⟨rfl, rfl⟩
  obtain ⟨ops, heffects, hserve⟩ := main_ends_serving hresult
  obtain ⟨ctx, hctx, hserving⟩ := serve_of_mtls hserve
  obtain ⟨pem, certs, hfile, hload, htrust⟩ := buildServerContext_trust hctx
  rw [bootWorld, Prog.performed, hdeath, cut_none, heffects, hserving, after_append]
  exact ⟨pem, certs, hfile, hload, htrust⟩

/-- The states the agent passes through, attempt after attempt and effect by effect. -/
def passedStates (P : Platform K) (settings : AgentSettings) :
    World K → List (Attempt K) → List (World K)
  | w, [] => [w]
  | w, a :: attempts =>
      passed w (a.performed P settings w) ++ passedStates P settings (a.act P settings w) attempts

/-- Whomever the listener trusts in a state it trusts in every later one. -/
theorem trustGrows_passedStates {attempts : List (Attempt K)}
    (hwhole : ∀ a ∈ attempts, a.stop = none) (w : World K) :
    (passedStates P settings w attempts).Pairwise TrustGrows ∧
      ∀ v ∈ passedStates P settings w attempts, TrustGrows w v := by
  have hrefl : ∀ v : World K, TrustGrows v v := fun v => List.Subset.refl _
  induction attempts generalizing w with
  | nil => simp [passedStates, hrefl]
  | cons a attempts ih =>
      rw [List.forall_mem_cons] at hwhole
      have hascends := Attempt.ascends P settings w hwhole.1
      obtain ⟨hinside, hfirst, hlast⟩ := hascends.pairwise hrefl fun h => List.Subset.trans h
      obtain ⟨hlater, hnext⟩ := ih hwhole.2 (a.act P settings w)
      rw [passedStates, List.pairwise_append, List.forall_mem_append]
      refine ⟨⟨hinside, hlater, fun u hu v hv => ?_⟩, hfirst, fun v hv => ?_⟩
      · exact List.Subset.trans (hlast u hu) (hnext v hv)
      · exact List.Subset.trans (hlast w (mem_passed w _)) (hnext v hv)

/-- **Live trust.** After a boot on mutual TLS with the pins of its bundle on record, and
over any uninterrupted renewal attempts: whomever the listener trusts, in every state
passed through, comes from a bundle linked to the one it started with, and whomever it
trusts in such a state it trusts in every later one. -/
theorem live_trust_linked (P : Platform K) (settings : AgentSettings) (hapart : settings.Apart)
    {d : Disk} {b : Boot K} (hboot : bootOutcome P settings d b = .serving .mtls)
    (hanchored : Anchored P settings (bootWorld P settings d b).disk) {first : Bytes}
    (hfirst : (bootWorld P settings d b).disk settings.caCertPath = some first)
    {attempts : List (Attempt K)} (hwhole : ∀ a ∈ attempts, a.stop = none) :
    LinkedTrust P first (bootWorld P settings d b) ∧
      Along (fun w a _ => Passes (LinkedTrust P first) w (Attempt.performed P settings w a))
        (bootWorld P settings d b)
        (trace (Attempt.act P settings) (bootWorld P settings d b) attempts) ∧
      (passedStates P settings (bootWorld P settings d b) attempts).Pairwise fun w v =>
        w.trusted ⊆ v.trusted := by
  obtain ⟨pem, certs, hfile, hload, htrust⟩ := trust_of_boot hboot
  rw [hfile, Option.some.injEq] at hfirst
  subst hfirst
  have hstart : LinkedTrust P pem (bootWorld P settings d b) := by
    intro der hder
    rw [htrust] at hder
    exact ⟨pem, certs, .refl, hload, hder⟩
  have hkept : TrustKept P settings pem (bootWorld P settings d b) :=
    ⟨hanchored, ⟨pem, hfile, .refl⟩, hstart⟩
  refine ⟨hstart, ?_, (trustGrows_passedStates hwhole _).1⟩
  refine along_trace (A := fun a : Attempt K => a.stop = none) (TrustKept P settings pem) ?_ ?_
    hkept hwhole
  · intro w a hstop h
    exact h.act hapart hstop
  · intro w a hstop h
    exact h.passes hapart hstop

end Runs

section Sample

/-- A first boot, enrolled under the CA `A`. -/
def sampleFirstBoot : Boot UInt8 := ⟨sampleAnchor, none⟩

/-- A renewal that puts the CA `B` beside it. -/
def rotation : Attempt UInt8 :=
  ⟨sampleRenewal (.obj [(py "certificatePem", .str (py "C2")), (py "caRootPem", .str (py "AB"))]),
    none⟩

theorem live_trust_linked_rotation :
    LinkedTrust samplePlatform [0x41]
        (bootWorld samplePlatform sampleSettings emptyDisk sampleFirstBoot) ∧
      Along (fun w a _ => Passes (LinkedTrust samplePlatform [0x41]) w
          (Attempt.performed samplePlatform sampleSettings w a))
        (bootWorld samplePlatform sampleSettings emptyDisk sampleFirstBoot)
        (trace (Attempt.act samplePlatform sampleSettings)
          (bootWorld samplePlatform sampleSettings emptyDisk sampleFirstBoot) [rotation]) ∧
      (passedStates samplePlatform sampleSettings
        (bootWorld samplePlatform sampleSettings emptyDisk sampleFirstBoot) [rotation]).Pairwise
          fun w v => w.trusted ⊆ v.trusted :=
  live_trust_linked samplePlatform sampleSettings (by decide) (by decide +kernel)
    ⟨[0x41], by decide +kernel, by decide +kernel, by decide +kernel⟩ (by decide +kernel)
    (by decide)

end Sample

end ProbeAgent
