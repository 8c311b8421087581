import ProbeAgent.Cadence
import ProbeAgent.LiveKey

/-!
# The renewal loop (`renewal_loop`)

The loop checks the certificate, sleeps and checks again.  A check whose answer is refused,
or that fails halfway, leaves the next one able to ask, so a certificate that is never
replaced is asked for again at every check from `renew_before_days` before its expiry on
(`renewal_asked_before_expiry`).

To ask is to hand a request to `_post_renewal`.  Whether that comes to a POST is a question
of its own: over https the client presents the certificate and the key, and where a renewal
that failed halfway has parted them it raises before it sends anything.

The doubles `renew_if_needed` compares are modelled by the exact quotient.
-/

namespace ProbeAgent

open PyText Effects Runs

variable {K : Type}

/-- The settings the loop reads besides those of a renewal. -/
structure LoopSettings extends AgentSettings where
  renewCheckHours : Int := 24

/-- `interval`, in seconds. -/
def LoopSettings.interval (settings : LoopSettings) : ℚ :=
  ((max 1 settings.renewCheckHours * 3600 : Int) : ℚ)

theorem LoopSettings.interval_pos (settings : LoopSettings) : 0 < settings.interval := by
  have hpos : (0 : Int) < max 1 settings.renewCheckHours * 3600 := by
    have hone := le_max_left 1 settings.renewCheckHours
    omega
  exact Int.cast_pos.mpr hpos

/-- The agent, and the time at which the loop checks next. -/
structure Looping (K : Type) where
  world : World K
  clock : ℚ

/-- A certificate that expires then is due from that time on. -/
def AgentSettings.dueFrom (settings : AgentSettings) (expiry : ℚ) : ℚ :=
  expiry - settings.renewBeforeDays * 86400

/-- One turn of the loop: the check, and the sleep after it. -/
def LoopStep [DecidableEq K] (P : Platform K) (settings : LoopSettings) (s : Looping K)
    (a : Attempt K) (t : Looping K) : Prop :=
  a.renewal.now = s.clock ∧ t.world = a.act P settings.toAgentSettings s.world ∧
    s.clock + settings.interval ≤ t.clock

/-- What a check hands to `_post_renewal`, when it gets that far. -/
def handedRequest (P : Platform K) (settings : AgentSettings) (r : Renewal K) (d : Disk) :
    Option Json :=
  match dueSlug P settings d r.now with
  | .ok (some slug) => (askGateway P settings slug { r with gateway := .ok } d).toOption
  | _ => none

/-- The check calls `_post_renewal` before the certificate expires. -/
def asksBefore (P : Platform K) (settings : AgentSettings) (expiry : ℚ) (s : Looping K)
    (a : Attempt K) : Bool :=
  decide (s.clock < expiry) && (handedRequest P settings a.renewal s.world.disk).isSome

/-! ## What a check needs in order to ask -/

/-- The gateway is asked with what is handed over, and nothing else of it is used. -/
theorem askGateway_eq (P : Platform K) (settings : AgentSettings) (slug : PyStr)
    (r : Renewal K) (d : Disk) :
    askGateway P settings slug r d =
      askGateway P settings slug { r with gateway := .ok } d >>= r.gateway := by
  unfold askGateway
  cases loadCurrentKey P settings d with
  | error exc => rfl
  | ok currentKey =>
      change ((Json.str (P.buildCsrPem r.newKey)).encode >>= fun csr =>
          signCsr P currentKey csr >>= fun signature => r.gateway _) =
        ((Json.str (P.buildCsrPem r.newKey)).encode >>= fun csr =>
          signCsr P currentKey csr >>= fun signature => .ok _) >>= r.gateway
      cases (Json.str (P.buildCsrPem r.newKey)).encode with
      | error exc => rfl
      | ok csr =>
          cases hsign : signCsr P currentKey csr with
          | error exc => simp [hsign, bind, Except.bind]
          | ok signature => simp [hsign, bind, Except.bind]

/-- The files an agent asks with: the certificate that expires then, a key that can sign,
and the slug. -/
structure Askable (P : Platform K) (settings : AgentSettings) (expiry : ℚ) (slug : PyStr)
    (d : Disk) : Prop where
  certificate : certNotAfter P settings d = some expiry
  key : ∃ key, keyOnDisk P settings d = some key ∧ P.isRsa key = true
  slug : resolveSlug settings d = .ok (some slug)

section Check

variable {P : Platform K} {settings : AgentSettings} {expiry : ℚ} {slug : PyStr} {d d' : Disk}
  {r : Renewal K}

theorem exists_of_certNotAfter (h : certNotAfter P settings d = some expiry) :
    pathExists d settings.certPath = true := by
  cases hcert : d settings.certPath with
  | none => simp [certNotAfter, hcert] at h
  | some cert => simp [pathExists, hcert]

theorem file_of_keyOnDisk {key : K} (h : keyOnDisk P settings d = some key) :
    ∃ pem, d settings.keyPath = some pem ∧ P.loadPemPrivateKey pem = some key :=
  Option.bind_eq_some_iff.mp h

/-- From when the certificate is due on, the check goes on to renew it. -/
theorem Askable.due (h : Askable P settings expiry slug d) (hurl : settings.schedulerUrl ≠ [])
    (hnow : settings.dueFrom expiry ≤ r.now) : dueSlug P settings d r.now = .ok (some slug) := by
  obtain ⟨key, hkey, -⟩ := h.key
  obtain ⟨pem, hpem, -⟩ := file_of_keyOnDisk hkey
  have hcertFile := exists_of_certNotAfter h.certificate
  have hkeyFile : pathExists d settings.keyPath = true := by simp [pathExists, hpem]
  have hdays : ¬(expiry - r.now) / 86400 > settings.renewBeforeDays := by
    rw [AgentSettings.dueFrom] at hnow
    rw [gt_iff_lt, not_lt, div_le_iff₀ (by norm_num)]
    linarith
  rw [dueSlug, if_neg hurl, if_neg (by simp [hcertFile, hkeyFile]), h.certificate]
  simp only
  rw [if_neg hdays, h.slug]

/-- A check of a due certificate asks for a new one, in the agent's name and under the
signature of its key. -/
theorem Askable.handed (h : Askable P settings expiry slug d) (hurl : settings.schedulerUrl ≠ [])
    (hcsr : ∀ k, ∃ csr, (Json.str (P.buildCsrPem k)).encode = .ok csr)
    (hnow : settings.dueFrom expiry ≤ r.now) :
    ∃ key csr, keyOnDisk P settings d = some key ∧
      (Json.str (P.buildCsrPem r.newKey)).encode = .ok csr ∧
      handedRequest P settings r d =
        some (renewalRequest slug (P.buildCsrPem r.newKey) (P.sign key csr)) := by
  obtain ⟨key, hkey, hrsa⟩ := h.key
  obtain ⟨pem, hpem, hload⟩ := file_of_keyOnDisk hkey
  obtain ⟨csr, hencode⟩ := hcsr r.newKey
  refine ⟨key, csr, hkey, hencode, ?_⟩
  have hcurrent : loadCurrentKey P settings d = .ok key := by
    refine except_bind_eq_ok.mpr ⟨pem, readBytes_eq_ok_iff.mpr hpem, ?_⟩
    rw [hload]
  have hsign : signCsr P key csr = .ok (P.sign key csr) := if_pos hrsa
  rw [handedRequest, h.due hurl hnow]
  simp [askGateway, hcurrent, hencode, hsign, bind, Except.bind, Except.toOption]

/-- What the check reads of the directory. -/
theorem Askable.congr (h : Askable P settings expiry slug d)
    (hcert : d' settings.certPath = d settings.certPath)
    (hslug : d' settings.slugPath = d settings.slugPath)
    (hkey : ∃ key, keyOnDisk P settings d' = some key ∧ P.isRsa key = true) :
    Askable P settings expiry slug d' := by
  refine ⟨?_, hkey, ?_⟩
  · rw [certNotAfter, hcert]
    exact h.certificate
  · have hexists : pathExists d' settings.slugPath = pathExists d settings.slugPath := by
      rw [pathExists, hslug, pathExists]
    have hread : readText d' settings.slugPath = readText d settings.slugPath := by
      rw [readText, hslug, readText]
    rw [resolveSlug, hexists, hread]
    exact h.slug

end Check

/-! ## What a check leaves -/

section Kept

variable [DecidableEq K] {P : Platform K} {settings : AgentSettings} {w : World K} {a : Attempt K}

/-- The files a renewal works on once the key file is replaced. -/
def laterFiles (settings : AgentSettings) : List Path :=
  [settings.certPath, tmpPath settings.certPath, settings.caCertPath, tmpPath settings.caCertPath,
    settings.caPinsPath]

/-- A renewal replaces the key file first, and does not come back to it. -/
theorem RenewalRun.key_first {newKey : K} {data caRoot : Json}
    {out : List (Op K) × Except PyExc Unit}
    (h : RenewalRun P settings newKey data caRoot w (hotReload P settings).effects out) :
    ∃ rest, out.1 = atomicWriteOps settings.keyPath (P.privateKeyPem newKey) ++ rest ∧
      ∀ op ∈ rest, ∀ p ∈ op.touches, p ∈ laterFiles settings := by
  have hcert : ∀ cert, ∀ op ∈ (atomicWriteOps settings.certPath cert : List (Op K)),
      ∀ p ∈ op.touches, p ∈ laterFiles settings := by
    intro cert op hop p hp
    rcases touches_of_mem_atomicWrite hop p hp with rfl | rfl
    · simp [laterFiles]
    · simp [laterFiles]
  cases h with
  | noCertificate _ => exact ⟨[], (List.append_nil _).symm, by simp⟩
  | badBundle _ _ _ => exact ⟨_, rfl, hcert _⟩
  | @installed cert _ _ =>
      refine ⟨_, by rw [fileOps, List.append_assoc], ?_⟩
      intro op hop p hp
      rcases List.mem_append.mp hop with hop | hop
      · rcases List.mem_append.mp hop with hop | hop
        · exact hcert cert op hop p hp
        · rcases touches_of_mem_bundleOps hop p hp with rfl | rfl | rfl
          · simp [laterFiles]
          · simp [laterFiles]
          · simp [laterFiles]
      · rw [hotReload_touches op hop] at hp
        cases hp

theorem AgentSettings.Apart.not_mem_laterFiles (hapart : settings.Apart) :
    settings.keyPath ∉ laterFiles settings ∧ settings.slugPath ∉ laterFiles settings := by
  have hpaths := hapart.paths_nodup
  have hkey : ∀ t ∈ settings.temporaryPaths, settings.keyPath ≠ t :=
    fun t ht => hapart.ne_temporary (by simp [AgentSettings.paths]) ht
  have hslug : ∀ t ∈ settings.temporaryPaths, settings.slugPath ≠ t :=
    fun t ht => hapart.ne_temporary (by simp [AgentSettings.paths]) ht
  simp only [AgentSettings.paths, List.nodup_cons, List.mem_cons, List.not_mem_nil, or_false,
    not_or] at hpaths
  simp only [AgentSettings.temporaryPaths, List.mem_cons, List.not_mem_nil, or_false, ne_eq,
    forall_eq_or_imp, forall_eq] at hkey hslug
  simp only [laterFiles, List.mem_cons, List.not_mem_nil, or_false, not_or]
  exact ⟨⟨hpaths.1.1, hkey.2.1, hpaths.1.2.1, hkey.2.2, hpaths.1.2.2.1⟩,
    ⟨Ne.symm hpaths.2.1.2.2, hslug.2.1, Ne.symm hpaths.2.2.1.2, hslug.2.2,
      Ne.symm hpaths.2.2.2.1⟩⟩

/-- What an attempt performs, if it performs anything, is part of such a renewal. -/
theorem Attempt.performed_cases (P : Platform K) (settings : AgentSettings) (w : World K)
    (a : Attempt K) :
    a.performed P settings w = [] ∨
      ∃ rest, a.performed P settings w =
          cut a.stop (atomicWriteOps settings.keyPath (P.privateKeyPem a.renewal.newKey) ++ rest) ∧
        ∀ op ∈ rest, ∀ p ∈ op.touches, p ∈ laterFiles settings := by
  rw [Attempt.performed, Prog.performed]
  cases haccepted : acceptedRenewal P settings a.renewal w.disk with
  | none =>
      rw [renewIfNeeded_of_none haccepted, cut_nil]
      exact .inl rfl
  | some answer =>
      obtain ⟨data, caRoot⟩ := answer
      obtain ⟨-, -, slug, out, -, hrun, heffects⟩ := renewIfNeeded_of_some haccepted
      obtain ⟨rest, hout, hrest⟩ := hrun.key_first
      rw [heffects, hout]
      exact .inr ⟨rest, rfl, hrest⟩

/-- An attempt leaves the slug file alone. -/
theorem Attempt.act_slugPath (hapart : settings.Apart) :
    (a.act P settings w).disk settings.slugPath = w.disk settings.slugPath := by
  have hkey : settings.slugPath ≠ settings.keyPath := by
    have hpaths := hapart.paths_nodup
    simp only [AgentSettings.paths, List.nodup_cons, List.mem_cons, not_or] at hpaths
    exact Ne.symm hpaths.1.2.2.2.1
  have htmp : settings.slugPath ≠ tmpPath settings.keyPath :=
    hapart.ne_temporary (by simp [AgentSettings.paths]) (by simp [AgentSettings.temporaryPaths])
  rw [Attempt.act]
  refine after_disk_of_untouched w _ ?_
  intro op hop hmem
  rcases Attempt.performed_cases P settings w a with hnone | ⟨rest, hops, hrest⟩
  · rw [hnone] at hop
    cases hop
  · rw [hops] at hop
    rcases List.mem_append.mp (mem_of_mem_cut hop) with hop | hop
    · rcases touches_of_mem_atomicWrite hop _ hmem with h | h
      · exact hkey h
      · exact htmp h
    · exact hapart.not_mem_laterFiles.2 (hrest op hop _ hmem)

/-- An attempt leaves the key file as it is, or with the new key. -/
theorem Attempt.act_keyPath (hapart : settings.Apart) :
    (a.act P settings w).disk settings.keyPath = w.disk settings.keyPath ∨
      (a.act P settings w).disk settings.keyPath = some (P.privateKeyPem a.renewal.newKey) := by
  rw [Attempt.act]
  rcases Attempt.performed_cases P settings w a with hnone | ⟨rest, hops, hrest⟩
  · rw [hnone]
    exact .inl rfl
  · rw [hops]
    by_cases hreach : Reaches a.stop (atomicWriteOps settings.keyPath
        (P.privateKeyPem a.renewal.newKey) : List (Op K)).length
    · -- the new key is in place, and the rest goes past it
      obtain ⟨us, hus, hsub⟩ := cut_append_of_reaches hreach rest
      rw [hus, after_append]
      refine .inr ((after_disk_of_untouched _ us ?_).trans ?_)
      · exact fun op hop hmem => hapart.not_mem_laterFiles.1 (hrest op (hsub op hop) _ hmem)
      · rw [after_atomicWrite_disk, if_pos rfl]
    · refine .inl (after_disk_of_untouched w _ ?_)
      intro op hop hmem
      rw [cut_append_of_not_reaches (fun h => hreach (h.mono (Nat.le_succ _)))] at hop
      rw [touches_of_mem_cut_atomicWrite hreach hop, List.mem_singleton] at hmem
      exact tmpPath_ne _ hmem.symm

/-- **One check.** One that leaves the certificate as it is leaves the next one able to
ask. -/
theorem Askable.act {expiry : ℚ} {slug : PyStr} (hapart : settings.Apart)
    (hpem : ∀ k, P.loadPemPrivateKey (P.privateKeyPem k) = some k)
    (hrsa : P.isRsa a.renewal.newKey = true) (h : Askable P settings expiry slug w.disk)
    (hcert : (a.act P settings w).disk settings.certPath = w.disk settings.certPath) :
    Askable P settings expiry slug (a.act P settings w).disk := by
  refine h.congr hcert (Attempt.act_slugPath hapart) ?_
  rcases Attempt.act_keyPath (P := P) (w := w) (a := a) hapart with hkey | hkey
  · rw [keyOnDisk, hkey]
    exact h.key
  · refine ⟨a.renewal.newKey, ?_, hrsa⟩
    rw [keyOnDisk, hkey, Option.bind_some, hpem]

end Kept

/-! ## Runs -/

/-- **A certificate is asked for again until it expires.** Over every run of the loop that
goes past the expiry of a certificate no check of it replaces, whatever the gateway answers
and wherever a check fails: from `renew_before_days` before the expiry on, or from the
start of the loop if that comes later, a request is handed to `_post_renewal` at least once
in the time a turn may take, and over the whole run no more than once in the interval. -/
theorem renewal_asked_before_expiry [DecidableEq K] (P : Platform K) (settings : LoopSettings)
    (hpem : ∀ k, P.loadPemPrivateKey (P.privateKeyPem k) = some k)
    (hcsr : ∀ k, ∃ csr, (Json.str (P.buildCsrPem k)).encode = .ok csr)
    (hapart : settings.Apart) (hurl : settings.schedulerUrl ≠ [])
    {expiry late : ℚ} {slug : PyStr} (hlate : 0 ≤ late) {s : Looping K}
    {run : List (Attempt K × Looping K)} (hrun : Run (LoopStep P settings) s run)
    (hs : Askable P settings.toAgentSettings expiry slug s.world.disk)
    (hrsa : Along (fun _ a _ => P.isRsa a.renewal.newKey = true) s run)
    (hkept : Along (fun s _ t => t.world.disk settings.certPath =
      s.world.disk settings.certPath) s run)
    (hpunctual : Along (fun s _ t => t.clock ≤ s.clock + settings.interval + late) s run)
    (hend : expiry ≤ (lastState s run).clock) :
    (s.clock < settings.dueFrom expiry →
        settings.renewBeforeDays * 86400 ≤
          (count (asksBefore P settings.toAgentSettings expiry) s run + 1) *
            (settings.interval + late)) ∧
      (settings.dueFrom expiry ≤ s.clock →
        expiry - s.clock ≤
          count (asksBefore P settings.toAgentSettings expiry) s run *
            (settings.interval + late)) ∧
      count (asksBefore P settings.toAgentSettings expiry) s run * settings.interval ≤
        (lastState s run).clock - s.clock := by
  have hstep := ((hrun.restrict hrsa).restrict hkept).restrict hpunctual
  have hwindow := window_le_count Looping.clock (asksBefore P settings.toAgentSettings expiry)
    (settings.dueFrom expiry) expiry
    (fun s => Askable P settings.toAgentSettings expiry slug s.world.disk)
    (add_nonneg settings.interval_pos.le hlate) ?_ ?_ ?_ hstep hs hend
  · obtain ⟨hearly, hdue⟩ := hwindow
    refine ⟨fun h => ?_, hdue, ?_⟩
    · have hlength := hearly h
      rwa [AgentSettings.dueFrom, sub_sub_cancel] at hlength
    · exact count_le_elapsed Looping.clock _ settings.interval_pos.le (fun hst => hst.2.2) hrun
  · rintro s a t ⟨⟨⟨⟨-, hworld, -⟩, hrsa⟩, hcert⟩, -⟩ hs
    rw [hworld] at hcert ⊢
    exact hs.act hapart hpem hrsa hcert
  · rintro s a t ⟨-, hpunctual⟩ -
    rw [← add_assoc]
    exact hpunctual
  · rintro s a t ⟨⟨⟨⟨hnow, -⟩, -⟩, -⟩, -⟩ hs hopens hcloses
    obtain ⟨key, csr, -, -, hhanded⟩ := hs.handed (r := a.renewal) hurl hcsr (hnow ▸ hopens)
    rw [asksBefore, hhanded, Option.isSome_some, Bool.and_true, decide_eq_true_iff]
    exact hcloses

section Sample

def sampleLoop : LoopSettings := { sampleSettings with renewCheckHours := 24 }

/-- A check at that time, which the gateway does not answer. -/
def unanswered (now : ℚ) : Attempt UInt8 :=
  ⟨{ newKey := 0x32, now := now, gateway := fun _ => .error (.library "ConnectError") }, none⟩

/-- The loop, so many days before the certificate expires. -/
def daysBefore (days : Int) : Looping UInt8 :=
  ⟨⟨sampleDisk, none, none⟩, -86400 * days⟩

def sampleChecks : List (Attempt UInt8 × Looping UInt8) :=
  [(unanswered (-86400 * 2), daysBefore 1), (unanswered (-86400 * 1), daysBefore 0)]

theorem unanswered_act (now : ℚ) (w : World UInt8) :
    (unanswered now).act samplePlatform sampleLoop.toAgentSettings w = w := by
  have hrefused : acceptedRenewal samplePlatform sampleLoop.toAgentSettings
      (unanswered now).renewal w.disk = none := by
    have hanswer : ∀ slug, (checkedAnswer samplePlatform sampleLoop.toAgentSettings slug
        (unanswered now).renewal w.disk).toOption = none := by
      intro slug
      cases h : checkedAnswer samplePlatform sampleLoop.toAgentSettings slug
        (unanswered now).renewal w.disk with
      | error exc => rfl
      | ok answer =>
          obtain ⟨data, caRoot⟩ := answer
          obtain ⟨-, pinned, -, hask, -⟩ := checkedAnswer_eq_ok h
          rw [askGateway_eq] at hask
          obtain ⟨request, -, hgateway⟩ := except_bind_eq_ok.mp hask
          cases hgateway
    rw [acceptedRenewal]
    split
    · exact hanswer _
    · rfl
  exact Attempt.act_of_none hrefused

theorem sampleChecks_run :
    Run (LoopStep samplePlatform sampleLoop) (daysBefore 2) sampleChecks := by
  refine .cons ⟨rfl, (unanswered_act _ _).symm, ?_⟩ (.cons ⟨rfl, (unanswered_act _ _).symm, ?_⟩
    (.nil _))
  · norm_num [daysBefore, LoopSettings.interval, sampleLoop]
  · norm_num [daysBefore, LoopSettings.interval, sampleLoop]

theorem daysBefore_askable :
    Askable samplePlatform sampleLoop.toAgentSettings 0 (py "g") (daysBefore 2).world.disk :=
  ⟨rfl, ⟨0x31, rfl, rfl⟩, rfl⟩

/-- Two days before the expiry, with a check a day. -/
theorem renewal_asked_before_expiry_two_days :
    (0 : ℚ) - (daysBefore 2).clock ≤
      count (asksBefore samplePlatform sampleLoop.toAgentSettings 0) (daysBefore 2) sampleChecks *
        (sampleLoop.interval + 0) :=
  (renewal_asked_before_expiry samplePlatform sampleLoop (fun _ => rfl)
    (fun _ => ⟨_, rfl⟩) (by decide) (by decide) le_rfl sampleChecks_run
    daysBefore_askable ⟨rfl, rfl, trivial⟩ ⟨rfl, rfl, trivial⟩
    ⟨by norm_num [daysBefore, LoopSettings.interval, sampleLoop],
      by norm_num [daysBefore, LoopSettings.interval, sampleLoop], trivial⟩
    (by norm_num [lastState, sampleChecks, daysBefore])).2.1
    (by norm_num [daysBefore, AgentSettings.dueFrom, sampleLoop, sampleSettings])

end Sample

end ProbeAgent
