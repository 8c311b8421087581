import ProbeAgent.SslContext

/-!
# Start-up (`main.py`)

The `__main__` block registers when there is a bootstrap token and the three
certificate files are not all there, and then listens: over mutual TLS when they
are, over plain HTTP otherwise.

Three tests on the certificate directory have to agree for an agent never to
listen on plain HTTP: the boot guard and `certs_exist` look at three files,
`ensure_registered` skips on two.  They disagree on one kind of directory, with a
key and a certificate and no CA bundle (`Halfway`).  An agent started on it
listens on plain HTTP (`boot_of_halfway`), and `no_plain_http_iff` says that this
is the only way there: plain HTTP is reached exactly when an enrolment stops
between the certificate and the CA bundle and a later boot runs to its end.
-/

namespace ProbeAgent

open PyText Effects

variable {K : Type}

/-- What the server listens with. -/
inductive Listener
  | mtls
  | plainHttp
deriving DecidableEq

inductive Outcome
  | exited
  | serving (listener : Listener)
deriving DecidableEq

/-- One start of the agent.  `death` is the number of effects after which the
process dies while it registers, when it does. -/
structure Boot (K : Type) where
  enrolment : Enrolment K
  death : Option Nat

section Start

variable [DecidableEq K]

/-- The `__main__` block from the second `certs_exist` on. -/
def serve (P : Platform K) (settings : AgentSettings) : AgentProg K Listener := do
  let d ← Prog.look (fun w => w.disk)
  if certsExist settings d then
    let serverCtx ← Prog.ofExcept (buildServerContext P settings d)
    Prog.perform (.setContext serverCtx)
    Prog.perform (.setPrivateKey (loadPrivateKey P d settings.keyPath).toOption)
    pure .mtls
  else
    pure .plainHttp

/-- The `__main__` block. -/
def main (P : Platform K) (settings : AgentSettings) (e : Enrolment K) :
    AgentProg K Listener := do
  let d ← Prog.look (fun w => w.disk)
  if settings.bootstrapToken ≠ [] ∧ settings.schedulerUrl ≠ [] ∧ ¬certsExist settings d then
    ensureRegistered P settings e
    serve P settings
  else
    serve P settings

/-- The world a boot leaves. -/
def bootWorld (P : Platform K) (settings : AgentSettings) (d : Disk) (b : Boot K) : World K :=
  after (newProcess d) ((main P settings b.enrolment).performed (newProcess d) b.death)

/-- The directory a boot leaves. -/
def bootDisk (P : Platform K) (settings : AgentSettings) (d : Disk) (b : Boot K) : Disk :=
  (bootWorld P settings d b).disk

/-- How a boot ends.  A process that dies or that an exception leaves does not listen. -/
def bootOutcome (P : Platform K) (settings : AgentSettings) (d : Disk) (b : Boot K) : Outcome :=
  match b.death with
  | some _ => .exited
  | none =>
      match (main P settings b.enrolment).result (newProcess d) with
      | .ok listener => .serving listener
      | .error _ => .exited

/-- The outcomes of a sequence of boots in one directory. -/
def bootOutcomes (P : Platform K) (settings : AgentSettings) : Disk → List (Boot K) → List Outcome
  | _, [] => []
  | d, b :: bs =>
      bootOutcome P settings d b :: bootOutcomes P settings (bootDisk P settings d b) bs

/-- A directory with a key and a certificate and no CA bundle. -/
def Halfway (settings : AgentSettings) (d : Disk) : Prop :=
  pathExists d settings.keyPath = true ∧ pathExists d settings.certPath = true ∧
    pathExists d settings.caCertPath = false

/-- A directory in which the certificate comes with its key and its CA bundle. -/
def Whole (settings : AgentSettings) (d : Disk) : Prop :=
  (pathExists d settings.caCertPath = true ↔ pathExists d settings.certPath = true) ∧
    (pathExists d settings.certPath = true → pathExists d settings.keyPath = true)

/-- The boot enrols, and stops after the certificate file was opened and before
the CA file was. -/
def StopsHalfway (P : Platform K) (settings : AgentSettings) (d : Disk) (b : Boot K) : Prop :=
  ¬(pathExists d settings.certPath = true ∧ pathExists d settings.keyPath = true) ∧
    (answerText (b.enrolment.answer P settings) (py "certificatePem")).isSome ∧
    Reaches b.death 3 ∧
    ¬(BundleReached (b.enrolment.answer P settings) ∧ Reaches b.death 5)

/-- No boot that stops halfway is followed by one that runs to its end. -/
def NoneResumed (P : Platform K) (settings : AgentSettings) : Disk → List (Boot K) → Prop
  | _, [] => True
  | d, b :: bs =>
      (StopsHalfway P settings d b → ∀ c ∈ bs, c.death ≠ none) ∧
        NoneResumed P settings (bootDisk P settings d b) bs

section Serving

variable {P : Platform K} {settings : AgentSettings}

theorem serve_run_of_missing {w : World K} (hcerts : certsExist settings w.disk = false) :
    (serve P settings).run w = ([], .ok .plainHttp) := by
  rw [serve, Prog.run_look_bind, if_neg (by simp [hcerts]), Prog.run_pure]

/-- With the three files there, the context is built and published with the key, or
the process ends. -/
theorem serve_run_of_certs {w : World K} (hcerts : certsExist settings w.disk = true) :
    (∃ exc, (serve P settings).run w = ([], .error exc)) ∨
      ∃ ctx, buildServerContext P settings w.disk = .ok ctx ∧
        (serve P settings).run w = ([.setContext ctx,
          .setPrivateKey (loadPrivateKey P w.disk settings.keyPath).toOption], .ok .mtls) := by
  rw [serve, Prog.run_look_bind, if_pos hcerts]
  cases hctx : buildServerContext P settings w.disk with
  | error exc =>
      refine .inl ⟨exc, ?_⟩
      rw [Prog.run_ofExcept_error_bind]
  | ok ctx =>
      refine .inr ⟨ctx, rfl, ?_⟩
      rw [Prog.run_ofExcept_ok_bind, Prog.bind_ok (Prog.run_perform _ w),
        Prog.bind_ok (Prog.run_perform _ _), Prog.run_pure]
      rfl

/-- Listening changes no file. -/
theorem serve_touches (w : World K) :
    ∀ op ∈ (serve P settings).effects w, op.touches = [] := by
  intro op hop
  cases hcerts : certsExist settings w.disk with
  | false =>
      rw [Prog.effects_of_run (serve_run_of_missing hcerts)] at hop
      cases hop
  | true =>
      rcases serve_run_of_certs (P := P) hcerts with ⟨exc, hrun⟩ | ⟨ctx, -, hrun⟩
      · rw [Prog.effects_of_run hrun] at hop
        cases hop
      · rw [Prog.effects_of_run hrun] at hop
        simp only [List.mem_cons, List.not_mem_nil, or_false] at hop
        rcases hop with rfl | rfl
        · rfl
        · rfl

theorem serve_plain_iff (w : World K) :
    (serve P settings).result w = .ok .plainHttp ↔ certsExist settings w.disk = false := by
  cases hcerts : certsExist settings w.disk with
  | false =>
      rw [Prog.result_of_run (serve_run_of_missing hcerts)]
      exact iff_of_true rfl rfl
  | true =>
      rcases serve_run_of_certs (P := P) hcerts with ⟨exc, hrun⟩ | ⟨ctx, -, hrun⟩
      · rw [Prog.result_of_run hrun]
        simp
      · rw [Prog.result_of_run hrun]
        simp

end Serving

section Boots

variable {P : Platform K} {settings : AgentSettings} {d : Disk}

theorem run_main_of_certs (e : Enrolment K) (hcerts : certsExist settings d = true) :
    (main P settings e).run (newProcess d) = (serve P settings).run (newProcess d) := by
  rw [main, Prog.run_look_bind, if_neg (by simp [newProcess, hcerts])]

theorem run_main_of_missing (e : Enrolment K) (htoken : settings.bootstrapToken ≠ [])
    (hurl : settings.schedulerUrl ≠ []) (hcerts : certsExist settings d = false) :
    (main P settings e).run (newProcess d) =
      (ensureRegistered P settings e >>= fun _ => serve P settings).run (newProcess d) := by
  rw [main, Prog.run_look_bind, if_pos ⟨htoken, hurl, by simp [newProcess, hcerts]⟩]

/-- A boot leaves the directory its enrolment leaves. -/
theorem bootDisk_of_missing {b : Boot K} (htoken : settings.bootstrapToken ≠ [])
    (hurl : settings.schedulerUrl ≠ []) (hcerts : certsExist settings d = false) :
    bootDisk P settings d b =
      (after (newProcess d : World K)
        ((ensureRegistered P settings b.enrolment).performed (newProcess d) b.death)).disk := by
  have hmain := run_main_of_missing (P := P) b.enrolment htoken hurl hcerts
  rw [bootDisk, bootWorld]
  cases hrun : (ensureRegistered P settings b.enrolment).run (newProcess d) with
  | mk ops r =>
      rw [Prog.performed_of_run hrun]
      cases r with
      | error e =>
          rw [Prog.performed_of_run (hmain.trans (Prog.bind_error hrun))]
      | ok u =>
          rw [Prog.performed_of_run (hmain.trans (Prog.bind_ok hrun))]
          exact after_cut_append_disk (serve_touches _) _ _

theorem bootDisk_of_certs {b : Boot K} (hcerts : certsExist settings d = true) :
    bootDisk P settings d b = d := by
  rw [bootDisk, bootWorld, Prog.performed_of_run (run_main_of_certs b.enrolment hcerts)]
  funext p
  refine after_disk_of_untouched _ _ ?_
  intro op hop
  rw [serve_touches _ op (mem_of_mem_cut hop)]
  exact List.not_mem_nil

theorem bootOutcome_plain_iff {b : Boot K} :
    bootOutcome P settings d b = .serving .plainHttp ↔
      b.death = none ∧ (main P settings b.enrolment).result (newProcess d) = .ok .plainHttp := by
  unfold bootOutcome
  cases b.death with
  | some n => simp
  | none =>
      cases (main P settings b.enrolment).result (newProcess d) with
      | error e => simp
      | ok listener => simp

/-- With the three files there, the agent listens on mutual TLS or not at all. -/
theorem result_main_of_certs (e : Enrolment K) (hcerts : certsExist settings d = true) :
    (main P settings e).result (newProcess d) ≠ .ok .plainHttp := by
  intro h
  rw [Prog.result_of_run (run_main_of_certs e hcerts)] at h
  have hmissing := (serve_plain_iff (newProcess d)).mp h
  simp [newProcess, hcerts] at hmissing

/-- With files missing, plain HTTP is reached by an enrolment that ends well and
leaves files missing. -/
theorem result_main_of_missing (e : Enrolment K) (htoken : settings.bootstrapToken ≠ [])
    (hurl : settings.schedulerUrl ≠ []) (hcerts : certsExist settings d = false) :
    (main P settings e).result (newProcess d) = .ok .plainHttp ↔
      (ensureRegistered P settings e).result (newProcess d) = .ok () ∧
        certsExist settings
          (after (newProcess d : World K)
            ((ensureRegistered P settings e).effects (newProcess d))).disk = false := by
  have hmain := run_main_of_missing (P := P) e htoken hurl hcerts
  cases hrun : (ensureRegistered P settings e).run (newProcess d) with
  | mk ops r =>
      rw [Prog.result_of_run hrun, Prog.effects_of_run hrun]
      cases r with
      | error exc =>
          rw [Prog.result_of_run (hmain.trans (Prog.bind_error hrun))]
          simp
      | ok u =>
          rw [Prog.result_of_run (hmain.trans (Prog.bind_ok hrun))]
          exact (serve_plain_iff _).trans (by simp)

theorem certsExist_eq_true_iff :
    certsExist settings d = true ↔
      pathExists d settings.caCertPath = true ∧ pathExists d settings.certPath = true ∧
        pathExists d settings.keyPath = true := by
  simp [certsExist, and_assoc]

/-- A boot from a whole directory never listens on plain HTTP, and leaves a whole
directory unless it stops halfway. -/
theorem boot_of_whole {b : Boot K} (htoken : settings.bootstrapToken ≠ [])
    (hurl : settings.schedulerUrl ≠ []) (hsep : settings.Separate) (hwhole : Whole settings d) :
    bootOutcome P settings d b ≠ .serving .plainHttp ∧
      (StopsHalfway P settings d b → Halfway settings (bootDisk P settings d b)) ∧
      (¬StopsHalfway P settings d b → Whole settings (bootDisk P settings d b)) := by
  obtain ⟨hca, hkey⟩ := hwhole
  by_cases hcerts : certsExist settings d = true
  · obtain ⟨-, hcert, hk⟩ := certsExist_eq_true_iff.mp hcerts
    rw [bootDisk_of_certs hcerts]
    refine ⟨?_, ?_, fun _ => ⟨hca, hkey⟩⟩
    · intro hplain
      exact result_main_of_certs b.enrolment hcerts (bootOutcome_plain_iff.mp hplain).2
    · intro hstop
      exact absurd ⟨hcert, hk⟩ hstop.1
  · have hmissing : certsExist settings d = false := by simpa using hcerts
    have hcert : ¬pathExists d settings.certPath = true := by
      intro hcert
      exact hcerts (certsExist_eq_true_iff.mpr ⟨hca.mpr hcert, hcert, hkey hcert⟩)
    have hnot : ¬(pathExists d settings.certPath = true ∧ pathExists d settings.keyPath = true) :=
      fun h => hcert h.1
    have hnoca : ¬pathExists d settings.caCertPath = true := fun h => hcert (hca.mp h)
    rw [bootDisk_of_missing htoken hurl hmissing]
    obtain ⟨hk', hc', ha'⟩ := exists_after_enrolment (P := P) (e := b.enrolment)
      (w := (newProcess d : World K)) hsep hnot b.death
    rw [newProcess_disk, or_iff_right hcert] at hc'
    rw [newProcess_disk, or_iff_right hnoca] at ha'
    have hsome : BundleReached (b.enrolment.answer P settings) →
        (answerText (b.enrolment.answer P settings) (py "certificatePem")).isSome = true := by
      rintro ⟨text, cert, ca, htext, -, -⟩
      rw [htext]
      rfl
    refine ⟨?_, ?_, ?_⟩
    · intro hplain
      obtain ⟨hdeath, hresult⟩ := bootOutcome_plain_iff.mp hplain
      obtain ⟨hok, hgone⟩ := (result_main_of_missing b.enrolment htoken hurl hmissing).mp hresult
      have hreached := (ensureRegistered_run P settings b.enrolment hnot).bundleReached_of_ok hok
      rw [hdeath] at hk' hc' ha'
      have hall := certsExist_eq_true_iff.mpr
        ⟨ha'.mpr ⟨hreached, reaches_none 5⟩, hc'.mpr ⟨hsome hreached, reaches_none 3⟩,
          hk'.mpr (.inr (reaches_none 1))⟩
      rw [Prog.performed, cut_none, hgone] at hall
      cases hall
    · rintro ⟨-, htext, h3, h5⟩
      refine ⟨hk'.mpr (.inr (h3.mono (by omega))), hc'.mpr ⟨htext, h3⟩, ?_⟩
      rw [← Bool.not_eq_true]
      exact fun h => h5 (ha'.mp h)
    · intro hstop
      refine ⟨⟨?_, ?_⟩, ?_⟩
      · intro h
        obtain ⟨hreached, h5⟩ := ha'.mp h
        exact hc'.mpr ⟨hsome hreached, h5.mono (by omega)⟩
      · intro h
        obtain ⟨htext, h3⟩ := hc'.mp h
        by_contra hnone
        exact hstop ⟨hnot, htext, h3, fun h5 => hnone (ha'.mpr h5)⟩
      · intro h
        exact hk'.mpr (.inr ((hc'.mp h).2.mono (by omega)))

/-- A directory left halfway stays so, and a boot that is not killed listens on
plain HTTP in it. -/
theorem boot_of_halfway {b : Boot K} (htoken : settings.bootstrapToken ≠ [])
    (hurl : settings.schedulerUrl ≠ []) (hhalf : Halfway settings d) :
    bootDisk P settings d b = d ∧
      (bootOutcome P settings d b = .serving .plainHttp ↔ b.death = none) := by
  obtain ⟨hkey, hcert, hca⟩ := hhalf
  have hmissing : certsExist settings d = false := by simp [certsExist, hca]
  have hskip := ensureRegistered_skip P settings b.enrolment (w := (newProcess d : World K))
    ⟨hcert, hkey⟩
  rw [bootDisk_of_missing htoken hurl hmissing]
  constructor
  · rw [Prog.performed_of_run hskip, cut_nil]
    rfl
  · rw [bootOutcome_plain_iff, result_main_of_missing b.enrolment htoken hurl hmissing]
    rw [Prog.result_of_run hskip, Prog.effects_of_run hskip]
    simp [newProcess, hmissing]

/-- In a halfway directory no boot stops halfway again. -/
theorem noneResumed_of_halfway (htoken : settings.bootstrapToken ≠ [])
    (hurl : settings.schedulerUrl ≠ []) (hhalf : Halfway settings d) (bs : List (Boot K)) :
    NoneResumed P settings d bs := by
  induction bs with
  | nil => trivial
  | cons b bs ih =>
      rw [NoneResumed, (boot_of_halfway htoken hurl hhalf).1]
      exact ⟨fun hstop => absurd ⟨hhalf.2.1, hhalf.1⟩ hstop.1, ih⟩

/-- In a halfway directory plain HTTP is avoided by dying only. -/
theorem bootOutcomes_of_halfway (htoken : settings.bootstrapToken ≠ [])
    (hurl : settings.schedulerUrl ≠ []) (hhalf : Halfway settings d) (bs : List (Boot K)) :
    (∀ o ∈ bootOutcomes P settings d bs, o ≠ .serving .plainHttp) ↔
      ∀ b ∈ bs, b.death ≠ none := by
  induction bs with
  | nil => simp [bootOutcomes]
  | cons b bs ih =>
      obtain ⟨hdisk, hplain⟩ := boot_of_halfway (P := P) (b := b) htoken hurl hhalf
      rw [bootOutcomes, List.forall_mem_cons, List.forall_mem_cons, hdisk, ih, ne_eq, hplain]

/-- From a whole directory, no boot listens on plain HTTP exactly when no enrolment
stops halfway before a boot that runs to its end. -/
theorem bootOutcomes_of_whole (htoken : settings.bootstrapToken ≠ [])
    (hurl : settings.schedulerUrl ≠ []) (hsep : settings.Separate) (bs : List (Boot K))
    (d : Disk) (hwhole : Whole settings d) :
    (∀ o ∈ bootOutcomes P settings d bs, o ≠ .serving .plainHttp) ↔
      NoneResumed P settings d bs := by
  induction bs generalizing d with
  | nil => simp [bootOutcomes, NoneResumed]
  | cons b bs ih =>
      obtain ⟨hplain, hhalf, hnext⟩ := boot_of_whole (P := P) (b := b) htoken hurl hsep hwhole
      rw [bootOutcomes, List.forall_mem_cons, and_iff_right hplain, NoneResumed]
      by_cases hstop : StopsHalfway P settings d b
      · rw [bootOutcomes_of_halfway htoken hurl (hhalf hstop)]
        have hrest := noneResumed_of_halfway (P := P) htoken hurl (hhalf hstop) bs
        simp [hstop, hrest]
      · rw [ih _ (hnext hstop)]
        simp [hstop]

end Boots

/-- **Plain HTTP.** Over every sequence of boots from an empty directory, no boot
listens on plain HTTP exactly when no enrolment that stops between the certificate
file and the CA file is followed by a boot that is not killed. -/
theorem no_plain_http_iff (P : Platform K) (settings : AgentSettings)
    (htoken : settings.bootstrapToken ≠ []) (hurl : settings.schedulerUrl ≠ [])
    (hsep : settings.Separate) (bs : List (Boot K)) :
    (∀ o ∈ bootOutcomes P settings emptyDisk bs, o ≠ .serving .plainHttp) ↔
      NoneResumed P settings emptyDisk bs := by
  refine bootOutcomes_of_whole htoken hurl hsep bs emptyDisk ⟨?_, ?_⟩
  · simp [emptyDisk, pathExists]
  · simp [emptyDisk, pathExists]

end Start

/-- An answer without `caRootPem`, and the next start. -/
theorem plain_http_after_missing_bundle :
    ¬∀ bs : List (Boot UInt8),
      ∀ o ∈ bootOutcomes samplePlatform sampleSettings emptyDisk bs,
        o ≠ .serving .plainHttp := by
  intro h
  refine h [⟨sampleEnrolment (.obj [(py "certificatePem", .str (py "C1"))]), none⟩,
    ⟨sampleEnrolment .null, none⟩] (.serving .plainHttp) ?_ rfl
  decide

theorem no_plain_http_iff_two_boots :
    (∀ o ∈ bootOutcomes samplePlatform sampleSettings emptyDisk
        [⟨sampleEnrolment .null, some 1⟩, ⟨sampleEnrolment .null, none⟩],
      o ≠ .serving .plainHttp) ↔
      NoneResumed samplePlatform sampleSettings emptyDisk
        [⟨sampleEnrolment .null, some 1⟩, ⟨sampleEnrolment .null, none⟩] :=
  no_plain_http_iff samplePlatform sampleSettings (by decide) (by decide)
    ⟨by decide, by decide, by decide⟩ _

end ProbeAgent
