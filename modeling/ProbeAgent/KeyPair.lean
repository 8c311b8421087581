import ProbeAgent.Renewal
import ProbeAgent.Runs

/-!
# The key and the certificate on disk

A renewal replaces the key file and then the certificate file.  Each replacement
is atomic, the pair of them is not: between the two the directory holds the new
key with the old certificate, and an answer that fails after the first
replacement leaves it so.

* `failed_renewal_atomic_iff`: a call that raises leaves the files and the
  listener as they were exactly when the accepted answer has a certificate and,
  if it has a bundle, one that can be encoded.
* `pair_matched_iff`: the two files are a pair in every state a sequence of calls
  passes through exactly when no call reaches the first replacement.
-/

namespace ProbeAgent

open PyText Effects Runs

variable {K : Type}

variable [DecidableEq K] {P : Platform K} {settings : AgentSettings}
  {slug : PyStr} {r : Renewal K} {w : World K}

/-- With an accepted answer, a call begins by replacing the key file. -/
theorem renew_effects_of_accepted {answer : Json × Json}
    (h : checkedAnswer P settings slug r w.disk = .ok answer) :
    ∃ rest, (renew P settings slug r).effects w =
      atomicWriteOps settings.keyPath (P.privateKeyPem r.newKey) ++ rest := by
  have hrun := renew_run h
  cases hout : (renew P settings slug r).run w with
  | mk ops res =>
      rw [hout] at hrun
      rw [Prog.effects_of_run hout]
      cases hrun with
      | noCertificate _ => exact ⟨[], (List.append_nil _).symm⟩
      | badBundle _ _ _ => exact ⟨_, rfl⟩
      | installed _ _ =>
          rw [fileOps, List.append_assoc]
          exact ⟨_, rfl⟩

/-! ## A failed renewal -/

/-- If the call raises, it has left the files and the listener as they were. -/
def FailsAtomically (P : Platform K) (settings : AgentSettings) (slug : PyStr)
    (r : Renewal K) (w : World K) : Prop :=
  ∀ exc, (renew P settings slug r).result w = .error exc →
    (∀ p ∈ trustFiles settings,
      (after w ((renew P settings slug r).effects w)).disk p = w.disk p) ∧
    (after w ((renew P settings slug r).effects w)).serverSslContext = w.serverSslContext

/-- A call that raised after it had replaced the key file has changed it. -/
theorem not_failsAtomically {exc : PyExc} (rest : List (Op K))
    (hrun : (renew P settings slug r).run w =
      (atomicWriteOps settings.keyPath (P.privateKeyPem r.newKey) ++ rest, .error exc))
    (hrest : ∀ v : World K, v.disk settings.keyPath = some (P.privateKeyPem r.newKey) →
      (after v rest).disk settings.keyPath ≠ w.disk settings.keyPath) :
    ¬FailsAtomically P settings slug r w := by
  intro h
  have herror : (renew P settings slug r).result w = .error exc := by
    rw [Prog.result_of_run hrun]
  have hkey := (h exc herror).1 settings.keyPath (by simp [trustFiles])
  rw [Prog.effects_of_run hrun, after_append] at hkey
  refine hrest _ ?_ hkey
  rw [after_atomicWrite_disk, if_pos rfl]

/-- **Failed renewal.** A call that raises leaves the key, certificate, CA and pins
files and the live context as they were exactly when the answer, if it was
accepted, has a certificate and no bundle that cannot be encoded. -/
theorem failed_renewal_atomic_iff (P : Platform K) (settings : AgentSettings)
    (slug : PyStr) (r : Renewal K) (w : World K)
    (hpaths : settings.certPath ≠ settings.keyPath)
    (hfresh : w.disk settings.keyPath ≠ some (P.privateKeyPem r.newKey)) :
    FailsAtomically P settings slug r w ↔
      ∀ data caRoot, checkedAnswer P settings slug r w.disk = .ok (data, caRoot) →
        (∃ cert, answeredCertificate data = .ok cert) ∧
          (caRoot.truthy = true → caRoot.encodable = true) := by
  cases hchecked : checkedAnswer P settings slug r w.disk with
  | error exc =>
      have hrun := renew_of_refused hchecked
      constructor
      · intro _ data caRoot haccepted
        cases haccepted
      · intro _ exc' _
        rw [Prog.effects_of_run hrun]
        exact ⟨fun _ _ => rfl, rfl⟩
  | ok answer =>
      obtain ⟨data, caRoot⟩ := answer
      obtain ⟨⟨pem, hpem⟩, -⟩ := checkedAnswer_eq_ok hchecked
      have hrun := renew_run hchecked
      cases hout : (renew P settings slug r).run w with
      | mk ops res =>
          rw [hout] at hrun
          cases hrun with
          | @noCertificate exc hnone =>
              have hend : (renew P settings slug r).run w =
                  (atomicWriteOps settings.keyPath (P.privateKeyPem r.newKey) ++ [],
                    .error exc) := by
                rw [hout, List.append_nil]
              refine iff_of_false ?_ ?_
              · refine not_failsAtomically [] hend ?_
                intro v hv
                rw [after_nil, hv]
                exact hfresh.symm
              · intro h
                obtain ⟨⟨cert, hcert⟩, -⟩ := h data caRoot rfl
                exact hnone cert hcert
          | @badBundle cert _ _ htruthy hbad =>
              refine iff_of_false ?_ ?_
              · refine not_failsAtomically _ hout ?_
                intro v hv
                rw [after_atomicWrite_disk, if_neg hpaths.symm]
                by_cases htmp : settings.keyPath = tmpPath settings.certPath
                · rw [if_pos htmp, hpem]
                  exact Option.some_ne_none _ |>.symm
                · rw [if_neg htmp, hv]
                  exact hfresh.symm
              · intro h
                have hgood := (h data caRoot rfl).2 htruthy
                rw [hbad] at hgood
                cases hgood
          | @installed cert hcert hbundle =>
              refine iff_of_true ?_ ?_
              · intro exc herror
                rw [Prog.result_of_run hout] at herror
                cases herror
              · intro data' caRoot' haccepted
                cases haccepted
                exact ⟨⟨cert, hcert⟩, hbundle⟩

/-! ## Calls that may be stopped -/

namespace RenewCall

/-- The answer of the call is accepted, and it is not stopped before the key file
is replaced. -/
def ReplacesKey (P : Platform K) (settings : AgentSettings) (d : Disk) (c : RenewCall K) : Prop :=
  (∃ answer, checkedAnswer P settings c.slug c.renewal d = .ok answer) ∧ Reaches c.stop 3

/-- The key and the certificate are a pair in every state the call passes through. -/
def KeepsPair (P : Platform K) (settings : AgentSettings) (d : Disk) (c : RenewCall K) : Prop :=
  Passes (fun w : World K => Matched P settings w.disk) (c.world d) (c.performed P settings d)

end RenewCall

theorem keyPath_ne_tmpPath (settings : AgentSettings) :
    settings.keyPath ≠ tmpPath settings.keyPath :=
  fun h => tmpPath_ne settings.keyPath h.symm

/-- A call that does not replace the key file works on its temporary file only. -/
theorem touches_of_not_replacesKey {d : Disk} {c : RenewCall K}
    (h : ¬c.ReplacesKey P settings d) :
    ∀ op ∈ c.performed P settings d, op.touches = [tmpPath settings.keyPath] := by
  intro op hop
  rw [RenewCall.performed] at hop
  cases hchecked : checkedAnswer P settings c.slug c.renewal d with
  | error exc =>
      have hrun := renew_of_refused (w := c.world d) hchecked
      rw [Prog.performed_of_run hrun, cut_nil] at hop
      cases hop
  | ok answer =>
      have hstop : ¬Reaches c.stop 3 := fun hr => h ⟨⟨answer, hchecked⟩, hr⟩
      obtain ⟨rest, hrest⟩ := renew_effects_of_accepted (w := c.world d) hchecked
      have hpast : ¬Reaches c.stop ((atomicWriteOps settings.keyPath
          (P.privateKeyPem c.renewal.newKey) : List (Op K)).length + 1) :=
        fun h => hstop (h.mono (Nat.le_succ 3))
      rw [Prog.performed, hrest, cut_append_of_not_reaches hpast] at hop
      exact touches_of_mem_cut_atomicWrite hstop hop

/-- A call that does not replace the key file leaves the pair alone. -/
theorem pair_of_not_replacesKey (hpaths : settings.certPath ≠ tmpPath settings.keyPath)
    {d : Disk} {c : RenewCall K} (h : ¬c.ReplacesKey P settings d) {q : Disk → Prop}
    (hq : ∀ d' : Disk, d' settings.keyPath = d settings.keyPath →
      d' settings.certPath = d settings.certPath → q d') :
    Passes (fun w : World K => q w.disk) (c.world d) (c.performed P settings d) := by
  intro n
  have htouch : ∀ p, p ≠ tmpPath settings.keyPath →
      (after (c.world d) ((c.performed P settings d).take n)).disk p = d p := by
    intro p hp
    refine after_disk_of_untouched (c.world d) _ ?_
    intro op hop
    rw [touches_of_not_replacesKey h op (List.mem_of_mem_take hop), List.mem_singleton]
    exact hp
  exact hq _ (htouch _ (keyPath_ne_tmpPath settings)) (htouch _ hpaths)

/-- A call that replaces the key file by a fresh key parts it from the certificate. -/
theorem not_keepsPair_of_replacesKey (hpem : ∀ k, P.loadPemPrivateKey (P.privateKeyPem k) = some k)
    (hcertKey : settings.certPath ≠ settings.keyPath)
    (hpaths : settings.certPath ≠ tmpPath settings.keyPath) {d : Disk} {c : RenewCall K}
    (hfresh : certificateKeyOnDisk P settings d ≠ some c.renewal.newKey)
    (h : c.ReplacesKey P settings d) : ¬c.KeepsPair P settings d := by
  obtain ⟨⟨answer, hchecked⟩, hstop⟩ := h
  obtain ⟨rest, hrest⟩ := renew_effects_of_accepted (w := c.world d) hchecked
  have hlen : Reaches c.stop (atomicWriteOps settings.keyPath
      (P.privateKeyPem c.renewal.newKey) : List (Op K)).length := hstop
  obtain ⟨us, hus, -⟩ := cut_append_of_reaches hlen rest
  rw [RenewCall.KeepsPair, RenewCall.performed, Prog.performed, hrest, hus, passes_append]
  rintro ⟨hkey, -⟩
  obtain ⟨key, hkeyFile, hcert⟩ := hkey.final
  rw [keyOnDisk, after_atomicWrite_disk, if_pos rfl, Option.bind_some, hpem,
    Option.some.injEq] at hkeyFile
  rw [certificateKeyOnDisk, after_atomicWrite_disk, if_neg hcertKey, if_neg hpaths] at hcert
  refine hfresh ?_
  rw [hkeyFile]
  exact hcert

/-- **The pair on disk.** From a matching pair, over calls whose new keys differ from
its key, the key file and the certificate file are a pair in every state passed
through exactly when no call replaces the key file. -/
theorem pair_matched_iff (P : Platform K) (settings : AgentSettings)
    (hpem : ∀ k, P.loadPemPrivateKey (P.privateKeyPem k) = some k)
    (hcertKey : settings.certPath ≠ settings.keyPath)
    (htmp : settings.certPath ≠ tmpPath settings.keyPath) {d : Disk} {k : K}
    (hkey : keyOnDisk P settings d = some k)
    (hcert : certificateKeyOnDisk P settings d = some k)
    (calls : List (RenewCall K)) (hfresh : ∀ c ∈ calls, c.renewal.newKey ≠ k) :
    Along (fun d c _ => RenewCall.KeepsPair P settings d c) d
        (trace (RenewCall.act P settings) d calls) ↔
      Along (fun d c _ => ¬RenewCall.ReplacesKey P settings d c) d
        (trace (RenewCall.act P settings) d calls) := by
  refine along_trace_iff
    (fun d => keyOnDisk P settings d = some k ∧ certificateKeyOnDisk P settings d = some k)
    ?_ ?_ ⟨hkey, hcert⟩ hfresh
  · rintro d c - ⟨hk, hc⟩ hstay
    have hpass := pair_of_not_replacesKey htmp hstay (q := fun d' =>
      keyOnDisk P settings d' = some k ∧ certificateKeyOnDisk P settings d' = some k)
      (fun d' hk' hc' => by
        rw [keyOnDisk, certificateKeyOnDisk, hk', hc']
        exact ⟨hk, hc⟩)
    exact hpass.final
  · rintro d c hnew ⟨hk, hc⟩
    constructor
    · intro hkeep hreplace
      refine not_keepsPair_of_replacesKey hpem hcertKey htmp ?_ hreplace hkeep
      rw [hc, ne_eq, Option.some.injEq]
      exact hnew.symm
    · intro hstay
      refine pair_of_not_replacesKey htmp hstay (q := fun d' => Matched P settings d') ?_
      intro d' hk' hc'
      refine ⟨k, ?_, ?_⟩
      · rw [keyOnDisk, hk']
        exact hk
      · rw [certificateKeyOnDisk, hc']
        exact hc

/-- A renewal that is stopped between its two replacements. -/
theorem pair_parted_by_renewal :
    Matched samplePlatform sampleSettings sampleDisk ∧ ¬∀ calls : List (RenewCall UInt8),
      Along (fun d c _ => RenewCall.KeepsPair samplePlatform sampleSettings d c) sampleDisk
        (trace (RenewCall.act samplePlatform sampleSettings) sampleDisk calls) := by
  refine ⟨⟨0x31, by decide, by decide⟩, ?_⟩
  intro h
  have hkeep := (h [⟨py "g", sampleRenewal (.obj [(py "certificatePem", .str (py "C2"))]),
    none, some 3⟩]).1
  obtain ⟨key, hkey, hcert⟩ := hkeep 3
  have hpair := hkey.trans hcert.symm
  revert hpair
  decide

/-- An accepted answer without a certificate leaves the new key behind. -/
theorem failed_renewal_changes_key :
    ¬∀ data : Json, FailsAtomically samplePlatform sampleSettings (py "g")
      (sampleRenewal data) ⟨sampleDisk, none, none⟩ := by
  intro h
  have hkey := (h (.obj []) (.keyError (py "certificatePem")) (by rfl)).1 (py "k") (by decide)
  revert hkey
  decide

/-- The answers `{}` and a whole one, told apart by what they carry. -/
theorem failed_renewal_atomic_iff_certificate :
    FailsAtomically samplePlatform sampleSettings (py "g")
        (sampleRenewal (.obj [(py "certificatePem", .str (py "C2"))])) ⟨sampleDisk, none, none⟩ ∧
      ¬∀ data caRoot, checkedAnswer samplePlatform sampleSettings (py "g")
          (sampleRenewal (.obj [])) sampleDisk = .ok (data, caRoot) →
        (∃ cert, answeredCertificate data = .ok cert) ∧
          (caRoot.truthy = true → caRoot.encodable = true) := by
  have hiff := fun data => failed_renewal_atomic_iff samplePlatform sampleSettings (py "g")
    (sampleRenewal data) ⟨sampleDisk, none, none⟩ (by decide)
      (show sampleDisk (py "k") ≠ some [0x4B, 0x32] by decide)
  constructor
  · refine (hiff _).mpr ?_
    intro data caRoot haccepted
    have hchecked : checkedAnswer samplePlatform sampleSettings (py "g")
        (sampleRenewal (.obj [(py "certificatePem", .str (py "C2"))])) sampleDisk =
          .ok (.obj [(py "certificatePem", .str (py "C2"))], .null) := by
      rfl
    rw [hchecked, Except.ok.injEq, Prod.mk.injEq] at haccepted
    rw [← haccepted.1, ← haccepted.2]
    exact ⟨⟨[0x43, 0x32], by rfl⟩, by decide⟩
  · intro hwhole
    have hfails := (hiff _).mpr hwhole
    have hkey := (hfails (.keyError (py "certificatePem")) (by rfl)).1 (py "k") (by decide)
    revert hkey
    decide

/-- A call that is stopped before the replacement of the key file, and one that is not. -/
theorem pair_matched_iff_stopped_calls :
    Along (fun d c _ => RenewCall.KeepsPair samplePlatform sampleSettings d c) sampleDisk
        (trace (RenewCall.act samplePlatform sampleSettings) sampleDisk
          [⟨py "g", sampleRenewal (.obj []), none, some 2⟩]) ∧
      ¬Along (fun d c _ => RenewCall.KeepsPair samplePlatform sampleSettings d c) sampleDisk
        (trace (RenewCall.act samplePlatform sampleSettings) sampleDisk
          [⟨py "g", sampleRenewal (.obj []), none, some 2⟩,
            ⟨py "g", sampleRenewal (.obj [(py "certificatePem", .str (py "C2"))]), none,
              none⟩]) := by
  have hiff := fun calls => pair_matched_iff samplePlatform sampleSettings (fun _ => rfl)
    (by decide) (by decide) (d := sampleDisk) (k := 0x31) (by decide) (by decide) calls
  constructor
  · refine (hiff _ (by decide)).mpr ⟨?_, trivial⟩
    rintro ⟨-, hstop⟩
    revert hstop
    decide
  · intro hkeeps
    refine ((hiff _ (by decide)).mp hkeeps).2.1
      ⟨⟨(.obj [(py "certificatePem", .str (py "C2"))], .null), ?_⟩, by decide⟩
    rfl

end ProbeAgent
