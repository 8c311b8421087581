import ProbeAgent.GatewayTrust
import ProbeAgent.Main
import ProbeAgent.Runs
import ProbeAgent.TrustAnchor

/-!
# Where the bootstrap token goes (`bootstrap.ensure_registered`, `main.lifespan`)

A start of the agent down to its transport: what it does is an effect on files and
listener, or the POST of the registration, which carries the bootstrap token.  It ends
where the server is up: the renewal loop that `lifespan` then starts is none of it.  Seen
without the POSTs, the `__main__` block is the one of `Main` (`mainOver_seenAs`).

Over any sequence of starts, each of which may die between any two of these, the token is
sent at most once a start, to a peer authenticated the way the settings say, and not again
once the agent has a certificate and its key (`token_sent_authenticated`).
-/

namespace ProbeAgent

open PyText Effects Runs

/-- The registration request as it leaves the agent. -/
structure RegistrationPost (Ctx : Type) where
  url : PyStr
  payload : Json
  verify : Verify Ctx

/-- What one call of `ensure_registered` draws from outside. -/
structure Transport (K E Ctx : Type) where
  newKey : K
  fqdn : PyStr
  trust : TrustWorld E Ctx
  /-- The POST, `raise_for_status` and `resp.json()`. -/
  answer : RegistrationPost Ctx → Except PyExc Json
  /-- The exception `resolve_bootstrap_verify` leaves with. -/
  raised : TrustError E → PyExc

/-- What a start does: an effect on its world, or the POST of a registration. -/
inductive Deed (K Ctx : Type)
  | op (o : Op K)
  | post (p : RegistrationPost Ctx)

variable {K E Ctx : Type}

def Deed.op? : Deed K Ctx → Option (Op K)
  | op o => some o
  | post _ => none

def Deed.post? : Deed K Ctx → Option (RegistrationPost Ctx)
  | op _ => none
  | post p => some p

instance : Effect (Deed K Ctx) (World K) where
  apply w
    | .op o => Effect.apply w o
    | .post _ => w

abbrev BootProg (K Ctx : Type) := Prog (Deed K Ctx) (World K) PyExc

section Start

variable (m : CaseMap) (nfkc : PyStr → PyStr) (P : Platform K) (settings : TrustSettings)

/-- The request with this `verify` argument. -/
def registrationPost (t : Transport K E Ctx) (verify : Verify Ctx) : RegistrationPost Ctx where
  url := settings.schedulerUrl ++ py "/internal/agents/register"
  payload := .obj [
    (py "bootstrapToken", .str settings.bootstrapToken),
    (py "csrPem", .str (P.buildCsrPem t.newKey)),
    (py "agentUri", .str (advertisedAgentUri settings.toAgentSettings t.fqdn))]
  verify := verify

/-- `ensure_registered` from `resolve_bootstrap_verify` to `resp.json()`. -/
def postRegistration (t : Transport K E Ctx) : BootProg K Ctx Json := do
  let verify ← Prog.ofExcept ((resolveBootstrapVerify m nfkc t.trust settings).mapError t.raised)
  Prog.perform (.post (registrationPost P settings t verify))
  Prog.ofExcept (t.answer (registrationPost P settings t verify))

/-- `ensure_registered`. -/
def ensureRegisteredOver (t : Transport K E Ctx) : BootProg K Ctx Unit := do
  let d ← Prog.look (fun w => w.disk)
  if pathExists d settings.certPath ∧ pathExists d settings.keyPath then
    pure ()
  else
    Prog.lift Deed.op (writeBytes settings.keyPath (P.privateKeyPem t.newKey))
    let data ← postRegistration m nfkc P settings t
    Prog.lift Deed.op (storeEnrolment P settings.toAgentSettings data)

/-- The `__main__` block. -/
def mainOver [DecidableEq K] (t : Transport K E Ctx) : BootProg K Ctx Listener := do
  let d ← Prog.look (fun w => w.disk)
  if settings.bootstrapToken ≠ [] ∧ settings.schedulerUrl ≠ [] ∧
      ¬certsExist settings.toAgentSettings d then
    ensureRegisteredOver m nfkc P settings t
    Prog.lift Deed.op (serve P settings.toAgentSettings)
  else
    Prog.lift Deed.op (serve P settings.toAgentSettings)

/-- `lifespan`, as far as it registers; the renewal loop it starts sends no token and is
left out. -/
def lifespan (t : Transport K E Ctx) : BootProg K Ctx Unit :=
  if settings.bootstrapToken ≠ [] ∧ settings.schedulerUrl ≠ [] then
    ensureRegisteredOver m nfkc P settings t
  else
    pure ()

/-- One start of the agent: what its two registrations draw, and the number of deeds after
which the process dies, when it does. -/
structure Start (K E Ctx : Type) where
  first : Transport K E Ctx
  second : Transport K E Ctx
  death : Option Nat

/-- A start, up to its server: the `__main__` block, and the registration in the lifespan
of the server it runs. -/
def start [DecidableEq K] (s : Start K E Ctx) : BootProg K Ctx Listener := do
  let listener ← mainOver m nfkc P settings s.first
  lifespan m nfkc P settings s.second
  pure listener

/-- What a start does in a directory. -/
def Start.deeds [DecidableEq K] (d : Disk) (s : Start K E Ctx) : List (Deed K Ctx) :=
  (start m nfkc P settings s).performed (newProcess d) s.death

/-- The directory it leaves. -/
def Start.act [DecidableEq K] (d : Disk) (s : Start K E Ctx) : Disk :=
  (after (newProcess d : World K) (s.deeds m nfkc P settings d)).disk

/-- The POSTs of a registration that a start makes. -/
def Start.posts [DecidableEq K] (d : Disk) (s : Start K E Ctx) : List (RegistrationPost Ctx) :=
  (s.deeds m nfkc P settings d).filterMap Deed.post?

/-! ## The start without its POSTs -/

/-- What the registration of `Main` draws from outside. -/
def Transport.enrolment (t : Transport K E Ctx) : Enrolment K where
  newKey := t.newKey
  fqdn := t.fqdn
  register payload := do
    let verify ← (resolveBootstrapVerify m nfkc t.trust settings).mapError t.raised
    t.answer ⟨settings.schedulerUrl ++ py "/internal/agents/register", payload, verify⟩

end Start

section Views

variable {m : CaseMap} {nfkc : PyStr → PyStr} {P : Platform K} {settings : TrustSettings}

theorem faithful_op : Prog.Faithful (σ := World K) (Deed.op? : Deed K Ctx → Option (Op K)) := by
  intro s deed
  cases deed with
  | op o => rfl
  | post p => rfl

theorem op_seenAs {α : Type} (p : AgentProg K α) :
    Prog.SeenAs Deed.op? (Prog.lift Deed.op p : BootProg K Ctx α) p := by
  have hop : ∀ o : Op K, (Deed.op o : Deed K Ctx).op? = some o := fun _ => rfl
  exact Prog.SeenAs.lift hop p

theorem postRegistration_seenAs (t : Transport K E Ctx) :
    Prog.SeenAs Deed.op? (postRegistration m nfkc P settings t)
      (Prog.ofExcept ((t.enrolment m nfkc settings).register
        (registration P settings.toAgentSettings (t.enrolment m nfkc settings)))) := by
  intro s
  unfold postRegistration
  cases hverify : (resolveBootstrapVerify m nfkc t.trust settings).mapError t.raised with
  | error e =>
      rw [Prog.run_ofExcept_error_bind]
      simp only [Transport.enrolment, hverify]
      exact ⟨rfl, rfl⟩
  | ok verify =>
      rw [Prog.run_ofExcept_ok_bind, Prog.bind_ok (Prog.run_perform _ s)]
      simp only [Transport.enrolment, hverify]
      exact ⟨rfl, rfl⟩

theorem ensureRegisteredOver_seenAs (t : Transport K E Ctx) :
    Prog.SeenAs Deed.op? (ensureRegisteredOver m nfkc P settings t)
      (ensureRegistered P settings.toAgentSettings (t.enrolment m nfkc settings)) := by
  unfold ensureRegisteredOver ensureRegistered
  refine Prog.SeenAs.look_bind fun d => ?_
  split
  · exact Prog.SeenAs.pure ()
  · refine (op_seenAs _).bind faithful_op fun _ => ?_
    refine (postRegistration_seenAs t).bind faithful_op fun data => ?_
    exact op_seenAs _

/-- **The `__main__` block, seen without its POSTs.** -/
theorem mainOver_seenAs [DecidableEq K] (t : Transport K E Ctx) :
    Prog.SeenAs Deed.op? (mainOver m nfkc P settings t)
      (main P settings.toAgentSettings (t.enrolment m nfkc settings)) := by
  unfold mainOver main
  refine Prog.SeenAs.look_bind fun d => ?_
  split
  · refine (ensureRegisteredOver_seenAs t).bind faithful_op fun _ => ?_
    exact op_seenAs _
  · exact op_seenAs _

end Views

/-! ## One start -/

/-- The agent has a certificate and its key. -/
def Enrolled (settings : AgentSettings) (d : Disk) : Prop :=
  pathExists d settings.certPath = true ∧ pathExists d settings.keyPath = true

theorem enrolled_of_certsExist {settings : AgentSettings} {d : Disk}
    (h : certsExist settings d = true) : Enrolled settings d := by
  simp only [certsExist, Bool.and_eq_true] at h
  exact ⟨h.1.2, h.2⟩

/-- A registration that succeeds leaves a certificate and its key. -/
theorem EnrolmentRun.enrolled {P : Platform K} {settings : AgentSettings} {newKey : K}
    {answer : Except PyExc Json} {out : List (Op K) × Except PyExc Unit}
    (h : EnrolmentRun P settings newKey answer out) (hok : out.2 = .ok ()) (w : World K) :
    Enrolled settings (after w out.1).disk := by
  have hplace := h.inPlace
  have hmem : ∀ p, p = settings.keyPath ∨ p = settings.certPath →
      ∃ op ∈ out.1, p ∈ op.touches := by
    cases h with
    | noCertificate _ => cases hok
    | lostCertificate _ _ => cases hok
    | noBundle _ _ _ => cases hok
    | lostBundle _ _ _ _ => cases hok
    | @stored text ca cert bundle slugOps r htext hcert hca hbundle hslug =>
        rintro p (rfl | rfl)
        · exact ⟨.truncate settings.keyPath, by simp [writeOps], by simp [Op.touches]⟩
        · exact ⟨.truncate settings.certPath, by simp [writeOps], by simp [Op.touches]⟩
  constructor
  · exact (exists_after_writes hplace w _).mpr (.inr (hmem _ (.inr rfl)))
  · exact (exists_after_writes hplace w _).mpr (.inr (hmem _ (.inl rfl)))

section Run

variable [DecidableEq K] {m : CaseMap} {nfkc : PyStr → PyStr} {P : Platform K}
  {settings : TrustSettings}

/-- The `__main__` block gets to its server with no token or no URL, or enrolled. -/
theorem main_enrolled {settings : AgentSettings} {e : Enrolment K} {w : World K}
    {ops : List (Op K)} {listener : Listener}
    (h : (main P settings e).run w = (ops, .ok listener)) :
    settings.bootstrapToken = [] ∨ settings.schedulerUrl = [] ∨
      Enrolled settings (after w ops).disk := by
  have hserve : ∀ v : World K, Enrolled settings v.disk →
      Enrolled settings (after v ((serve P settings).run v).1).disk := by
    intro v hv
    have hsame : ∀ p, (after v ((serve P settings).run v).1).disk p = v.disk p :=
      after_disk_of_touchless (serve_touches v) v
    rw [Enrolled, pathExists, hsame, pathExists, hsame]
    exact hv
  rw [main, Prog.run_look_bind] at h
  split at h
  · refine .inr (.inr ?_)
    cases hregister : (ensureRegistered P settings e).run w with
    | mk first r =>
        cases r with
        | error exc =>
            rw [Prog.bind_error hregister] at h
            cases h
        | ok u =>
            have henrolled : Enrolled settings (after w first).disk := by
              by_cases hskip : pathExists w.disk settings.certPath ∧
                  pathExists w.disk settings.keyPath
              · rw [ensureRegistered_skip P settings e hskip] at hregister
                cases hregister
                exact hskip
              · have hrun := ensureRegistered_run P settings e hskip
                rw [hregister] at hrun
                exact hrun.enrolled rfl w
            rw [Prog.bind_ok hregister] at h
            obtain ⟨rfl, -⟩ := Prod.mk.inj h
            rw [after_append]
            exact hserve _ henrolled
  · rename_i hguard
    by_cases htoken : settings.bootstrapToken = []
    · exact .inl htoken
    · by_cases hurl : settings.schedulerUrl = []
      · exact .inr (.inl hurl)
      · have hcerts : certsExist settings w.disk = true := by
          by_contra hmissing
          exact hguard ⟨htoken, hurl, hmissing⟩
        have hkept := hserve w (enrolled_of_certsExist hcerts)
        rw [h] at hkept
        exact .inr (.inr hkept)

omit [DecidableEq K] in
theorem ensureRegisteredOver_skip (t : Transport K E Ctx) {w : World K}
    (h : Enrolled settings.toAgentSettings w.disk) :
    (ensureRegisteredOver m nfkc P settings t).run w = ([], .ok ()) := by
  rw [ensureRegisteredOver, Prog.run_look_bind, if_pos ⟨h.1, h.2⟩, Prog.run_pure]

/-- The server registers nothing that the `__main__` block has not. -/
theorem start_run (s : Start K E Ctx) (w : World K) :
    (start m nfkc P settings s).run w = (mainOver m nfkc P settings s.first).run w := by
  unfold start
  cases hmain : (mainOver m nfkc P settings s.first).run w with
  | mk deeds r =>
      cases r with
      | error exc => rw [Prog.bind_error hmain]
      | ok listener =>
          have hseen : Prog.SeenAs Deed.op? (mainOver m nfkc P settings s.first)
              (main P settings.toAgentSettings (s.first.enrolment m nfkc settings)) :=
            mainOver_seenAs s.first
          obtain ⟨hops, hend⟩ := hseen w
          rw [hmain] at hops hend
          have hcoarse : (main P settings.toAgentSettings
              (s.first.enrolment m nfkc settings)).run w =
              (deeds.filterMap Deed.op?, .ok listener) := Prod.ext hops.symm hend.symm
          have hidle : (lifespan m nfkc P settings s.second).run (after w deeds) =
              ([], .ok ()) := by
            unfold lifespan
            rcases main_enrolled hcoarse with htoken | hurl | henrolled
            · rw [if_neg (fun h => h.1 htoken), Prog.run_pure]
            · rw [if_neg (fun h => h.2 hurl), Prog.run_pure]
            · rw [faithful_op.after] at henrolled
              split
              · exact ensureRegisteredOver_skip s.second henrolled
              · rfl
          rw [Prog.bind_ok hmain, Prog.bind_ok hidle, Prog.run_pure, List.nil_append,
            List.append_nil]

end Run

/-! ## The POSTs of a start -/

section Posts

variable {m : CaseMap} {nfkc : PyStr → PyStr} {P : Platform K} {settings : TrustSettings}

theorem posts_lift {α : Type} (p : AgentProg K α) (w : World K) :
    ((Prog.lift Deed.op p : BootProg K Ctx α).run w).1.filterMap Deed.post? = [] := by
  change ((p.run w).1.map Deed.op).filterMap Deed.post? = ([] : List (RegistrationPost Ctx))
  rw [List.filterMap_map, List.filterMap_eq_nil_iff]
  exact fun _ _ => rfl

/-- The POSTs of a sequence whose second part makes none are those of its first. -/
theorem posts_bind {α β : Type} {p : BootProg K Ctx α} {f : α → BootProg K Ctx β}
    (hf : ∀ a w, ((f a).run w).1.filterMap Deed.post? = []) (w : World K) :
    ((p >>= f).run w).1.filterMap Deed.post? = (p.run w).1.filterMap Deed.post? := by
  cases hp : p.run w with
  | mk deeds r =>
      cases r with
      | error e => rw [Prog.bind_error hp]
      | ok a => rw [Prog.bind_ok hp, List.filterMap_append, hf, List.append_nil]

/-- What a registration posts, from a directory: nothing, or the one request. -/
def PostsOnce (m : CaseMap) (nfkc : PyStr → PyStr) (P : Platform K) (settings : TrustSettings)
    (t : Transport K E Ctx) (d : Disk) (posts : List (RegistrationPost Ctx)) : Prop :=
  posts = [] ∨
    ¬Enrolled settings.toAgentSettings d ∧
      ∃ verify, resolveBootstrapVerify m nfkc t.trust settings = .ok verify ∧
        posts = [registrationPost P settings t verify]

theorem postsOnce_ensureRegisteredOver (t : Transport K E Ctx) (w : World K) :
    PostsOnce m nfkc P settings t w.disk
      (((ensureRegisteredOver m nfkc P settings t).run w).1.filterMap Deed.post?) := by
  rw [ensureRegisteredOver, Prog.run_look_bind]
  split
  · exact .inl rfl
  · rename_i hguard
    have hkey : (Prog.lift Deed.op (writeBytes settings.keyPath (P.privateKeyPem t.newKey)) :
        BootProg K Ctx Unit).run w =
        ((writeOps settings.keyPath (P.privateKeyPem t.newKey)).map Deed.op, .ok ()) := by
      change ((writeBytes settings.keyPath (P.privateKeyPem t.newKey)).run w |>.1.map Deed.op,
        ((writeBytes settings.keyPath (P.privateKeyPem t.newKey)).run w).2) = _
      rw [run_writeBytes]
    have hsilent : ((Prog.lift Deed.op (writeBytes settings.keyPath
        (P.privateKeyPem t.newKey)) : BootProg K Ctx Unit).run w).1.filterMap Deed.post? = [] :=
      posts_lift _ w
    rw [hkey] at hsilent
    rw [Prog.bind_ok hkey, List.filterMap_append, hsilent, List.nil_append,
      posts_bind (fun data => posts_lift _), postRegistration]
    cases hverify : resolveBootstrapVerify m nfkc t.trust settings with
    | error e =>
        rw [show (Except.error e : Except (TrustError E) (Verify Ctx)).mapError t.raised =
          .error (t.raised e) from rfl, Prog.run_ofExcept_error_bind]
        exact .inl rfl
    | ok verify =>
        rw [show (Except.ok verify : Except (TrustError E) (Verify Ctx)).mapError t.raised =
          .ok verify from rfl, Prog.run_ofExcept_ok_bind]
        exact .inr ⟨hguard, verify, hverify, rfl⟩

theorem postsOnce_mainOver [DecidableEq K] (t : Transport K E Ctx) (w : World K) :
    PostsOnce m nfkc P settings t w.disk
      (((mainOver m nfkc P settings t).run w).1.filterMap Deed.post?) := by
  rw [mainOver, Prog.run_look_bind]
  split
  · rw [posts_bind (fun _ => posts_lift _)]
    exact postsOnce_ensureRegisteredOver t w
  · rw [posts_lift]
    exact .inl rfl

/-- The POSTs of a start that may die. -/
theorem postsOnce_start [DecidableEq K] (s : Start K E Ctx) (d : Disk) :
    PostsOnce m nfkc P settings s.first d (s.posts m nfkc P settings d) := by
  have hall : PostsOnce m nfkc P settings s.first d
      (((mainOver m nfkc P settings s.first).run (newProcess d)).1.filterMap Deed.post?) :=
    postsOnce_mainOver s.first (newProcess d)
  have hpart : List.Sublist (s.posts m nfkc P settings d)
      (((mainOver m nfkc P settings s.first).run (newProcess d)).1.filterMap Deed.post?) := by
    have heffects : (start m nfkc P settings s).effects (newProcess d) =
        ((mainOver m nfkc P settings s.first).run (newProcess d)).1 := by
      rw [Prog.effects, start_run]
    obtain ⟨n, hn⟩ := cut_eq_take s.death ((start m nfkc P settings s).effects (newProcess d))
    rw [Start.posts, Start.deeds, Prog.performed, hn, heffects]
    exact (List.take_sublist n _).filterMap _
  rcases hall with hnone | ⟨hfresh, verify, hverify, hone⟩
  · rw [hnone] at hpart
    exact .inl (List.sublist_nil.mp hpart)
  · rw [hone] at hpart
    rcases List.sublist_singleton.mp hpart with h | h
    · exact .inl h
    · exact .inr ⟨hfresh, verify, hverify, h⟩

end Posts

/-! ## How the peer is authenticated -/

section Authentication

/-- The gateway is reached over `https`. -/
def OverHttps (m : CaseMap) (nfkc : PyStr → PyStr) (settings : TrustSettings) : Prop :=
  ∃ parts, UrlSplit.urlsplit m nfkc settings.schedulerUrl = some parts ∧
    m.lower parts.scheme = py "https"

/-- The context accepts the peer the settings name: the certificate that was pinned, one
the CA bundle issued, or one the system trusts. -/
inductive Authenticates (m : CaseMap) (nfkc : PyStr → PyStr) (w : TrustWorld E Ctx)
    (settings : TrustSettings) : Ctx → Prop
  | pinned {pins : Finset PyStr} {host : PyStr} {port : Nat} {der : Bytes} {ctx : Ctx} :
      normalizeFingerprints m settings.bootstrapPinSha256 = .ok pins →
      hostPort m nfkc settings.schedulerUrl = (.ok (host, port) : Except (TrustError E) _) →
      w.fetchPeerCertificate host port = .ok der →
      hexdigest (w.sha256 der) ∈ pins →
      w.pinnedContext der = .ok ctx →
      Authenticates m nfkc w settings ctx
  | bundle {ctx : Ctx} :
      settings.bootstrapPinSha256 = [] →
      settings.bootstrapCaBundle ≠ [] →
      w.isFile settings.bootstrapCaBundle = true →
      w.createDefaultContext (some settings.bootstrapCaBundle) = .ok ctx →
      Authenticates m nfkc w settings ctx
  | system {ctx : Ctx} :
      settings.bootstrapPinSha256 = [] →
      settings.bootstrapCaBundle = [] →
      w.createDefaultContext none = .ok ctx →
      Authenticates m nfkc w settings ctx

/-- What the `verify` argument of the request stands for: out of production, a gateway that
is not authenticated; else a peer that is. -/
def TransportChecked (m : CaseMap) (nfkc : PyStr → PyStr) (w : TrustWorld E Ctx)
    (settings : TrustSettings) : Verify Ctx → Prop
  | .skip => (strip settings.deploymentEnv).map lowerAscii ≠ production ∧
      (¬OverHttps m nfkc settings ∨ settings.insecureSkipBootstrapTlsVerify = true)
  | .context ctx => OverHttps m nfkc settings ∧
      settings.insecureSkipBootstrapTlsVerify = false ∧ Authenticates m nfkc w settings ctx

variable {m : CaseMap} {nfkc : PyStr → PyStr} {w : TrustWorld E Ctx} {settings : TrustSettings}

theorem mapError_eq_ok {ε ε' α : Type} {f : ε → ε'} {x : Except ε α} {a : α}
    (h : x.mapError f = .ok a) : x = .ok a := by
  cases x with
  | error e => cases h
  | ok b => exact congrArg _ (Except.ok.inj h)

/-- A context is made for a pinned certificate only. -/
theorem pinAndBind_eq_ok {sha256 : Bytes → Digest} {pinnedContext : Bytes → Except E Ctx}
    {pins : Finset PyStr} {der : Bytes} {ctx : Ctx}
    (h : pinAndBind sha256 pinnedContext pins der = .ok ctx) :
    hexdigest (sha256 der) ∈ pins ∧ pinnedContext der = .ok ctx := by
  simp only [pinAndBind] at h
  split at h
  · cases h
  · rename_i hpinned
    exact ⟨not_not.mp hpinned, mapError_eq_ok h⟩

theorem authenticates_of_gatewayTrustContext {ctx : Ctx}
    (h : gatewayTrustContext m nfkc w settings = .ok ctx) :
    Authenticates m nfkc w settings ctx := by
  unfold gatewayTrustContext at h
  split at h
  · obtain ⟨pins, hpins, h⟩ := except_bind_eq_ok.mp h
    obtain ⟨⟨host, port⟩, hhost, h⟩ := except_bind_eq_ok.mp h
    obtain ⟨der, hder, h⟩ := except_bind_eq_ok.mp h
    obtain ⟨hpinned, hctx⟩ := pinAndBind_eq_ok (mapError_eq_ok h)
    exact .pinned (mapError_eq_ok hpins) hhost (mapError_eq_ok hder) hpinned hctx
  · rename_i hpin
    split at h
    · rename_i hbundle
      unfold caBundleContext at h
      split at h
      · rename_i hfile
        exact .bundle (not_not.mp hpin) hbundle hfile (mapError_eq_ok h)
      · cases h
    · rename_i hbundle
      exact .system (not_not.mp hpin) (not_not.mp hbundle) (mapError_eq_ok h)

/-- The argument `resolve_bootstrap_verify` gives has been checked. -/
theorem transportChecked {verify : Verify Ctx}
    (h : resolveBootstrapVerify m nfkc w settings = .ok verify) :
    TransportChecked m nfkc w settings verify := by
  unfold resolveBootstrapVerify at h
  simp only [Bool.and_eq_true] at h
  split at h
  · cases h
  · rename_i hguard
    cases hparts : UrlSplit.urlsplit m nfkc settings.schedulerUrl with
    | none =>
        rw [hparts] at h
        cases h
    | some parts =>
        simp only [hparts] at h
        split at h
        · rename_i hscheme
          split at h
          · cases h
          · rename_i hproduction
            obtain rfl := Except.ok.inj h
            refine ⟨fun henv => hproduction (bootstrapIsProduction_iff.mpr henv), .inl ?_⟩
            rintro ⟨other, hother, hhttps⟩
            rw [hparts] at hother
            obtain rfl := Option.some.inj hother
            exact hscheme hhttps
        · rename_i hscheme
          split at h
          · rename_i hinsecure
            obtain rfl := Except.ok.inj h
            refine ⟨fun henv => hguard ⟨hinsecure, bootstrapIsProduction_iff.mpr henv⟩, ?_⟩
            exact .inr hinsecure
          · rename_i hinsecure
            cases hctx : gatewayTrustContext m nfkc w settings with
            | error e =>
                rw [hctx] at h
                cases h
            | ok ctx =>
                rw [hctx] at h
                obtain rfl := Except.ok.inj h
                exact ⟨⟨parts, hparts, not_not.mp hscheme⟩, Bool.not_eq_true _ ▸ hinsecure,
                  authenticates_of_gatewayTrustContext hctx⟩

end Authentication

/-! ## Any sequence of starts -/

section Runs

variable [DecidableEq K] {m : CaseMap} {nfkc : PyStr → PyStr} {P : Platform K}
  {settings : TrustSettings}

/-- The start is not stopped and gets to its server. -/
def Serves (m : CaseMap) (nfkc : PyStr → PyStr) (P : Platform K) (settings : TrustSettings)
    (d : Disk) (s : Start K E Ctx) : Prop :=
  s.death = none ∧
    ∃ listener, (start m nfkc P settings s).result (newProcess d) = .ok listener

/-- What a start in a directory sends and leaves. -/
structure KeepsToken (m : CaseMap) (nfkc : PyStr → PyStr) (P : Platform K)
    (settings : TrustSettings) (d : Disk) (s : Start K E Ctx) : Prop where
  atMostOne : (s.posts m nfkc P settings d).length ≤ 1
  checked : ∀ p ∈ s.posts m nfkc P settings d,
    p = registrationPost P settings s.first p.verify ∧
      TransportChecked m nfkc s.first.trust settings p.verify
  quiet : Enrolled settings.toAgentSettings d →
    s.posts m nfkc P settings d = [] ∧ s.act m nfkc P settings d = d
  enrols : settings.bootstrapToken ≠ [] → settings.schedulerUrl ≠ [] →
    Serves m nfkc P settings d s →
      Enrolled settings.toAgentSettings (s.act m nfkc P settings d)

/-- The effects of a start are among those of the `__main__` block. -/
theorem mem_ops_of_deeds {s : Start K E Ctx} {d : Disk} {o : Op K}
    (ho : o ∈ (s.deeds m nfkc P settings d).filterMap Deed.op?) :
    o ∈ ((main P settings.toAgentSettings
      (s.first.enrolment m nfkc settings)).run (newProcess d)).1 := by
  have hseen : Prog.SeenAs Deed.op? (mainOver m nfkc P settings s.first)
      (main P settings.toAgentSettings (s.first.enrolment m nfkc settings)) :=
    mainOver_seenAs s.first
  obtain ⟨deed, hdeed, hop⟩ := List.mem_filterMap.mp ho
  have hmem := mem_of_mem_cut hdeed
  rw [Prog.effects, start_run] at hmem
  rw [← (hseen (newProcess d)).1]
  exact List.mem_filterMap.mpr ⟨deed, hmem, hop⟩

/-- An enrolled agent only serves. -/
theorem main_of_enrolled {settings : AgentSettings} {e : Enrolment K} {w : World K}
    (h : Enrolled settings w.disk) :
    (main P settings e).run w = (serve P settings).run w := by
  rw [main, Prog.run_look_bind]
  split
  · rw [Prog.bind_ok (ensureRegistered_skip P settings e h), List.nil_append, after_nil]
  · rfl

theorem act_of_enrolled {s : Start K E Ctx} {d : Disk}
    (h : Enrolled settings.toAgentSettings d) : s.act m nfkc P settings d = d := by
  have htouchless : ∀ o ∈ (s.deeds m nfkc P settings d).filterMap Deed.op?, o.touches = [] := by
    intro o ho
    have hmem := mem_ops_of_deeds ho
    rw [main_of_enrolled h] at hmem
    exact serve_touches (newProcess d) o hmem
  funext p
  rw [Start.act, ← faithful_op.after]
  exact after_disk_of_touchless htouchless (newProcess d) p

/-- A start that gets to its server with a token and a URL leaves the agent enrolled. -/
theorem enrolled_of_serves {s : Start K E Ctx} {d : Disk} (htoken : settings.bootstrapToken ≠ [])
    (hurl : settings.schedulerUrl ≠ []) (h : Serves m nfkc P settings d s) :
    Enrolled settings.toAgentSettings (s.act m nfkc P settings d) := by
  obtain ⟨hdeath, listener, hlistener⟩ := h
  have hseen : Prog.SeenAs Deed.op? (mainOver m nfkc P settings s.first)
      (main P settings.toAgentSettings (s.first.enrolment m nfkc settings)) :=
    mainOver_seenAs s.first
  obtain ⟨hops, hend⟩ := hseen (newProcess d)
  rw [Prog.result, start_run] at hlistener
  have hrun : (main P settings.toAgentSettings (s.first.enrolment m nfkc settings)).run
      (newProcess d) = ((s.deeds m nfkc P settings d).filterMap Deed.op?, .ok listener) := by
    rw [Start.deeds, Prog.performed, hdeath, cut_none, Prog.effects, start_run, hops,
      ← hlistener, hend]
  rcases main_enrolled hrun with h | h | h
  · exact absurd h htoken
  · exact absurd h hurl
  · rw [faithful_op.after] at h
    exact h

/-- One start keeps the token. -/
theorem keepsToken (s : Start K E Ctx) (d : Disk) : KeepsToken m nfkc P settings d s := by
  have hposts : PostsOnce m nfkc P settings s.first d (s.posts m nfkc P settings d) :=
    postsOnce_start s d
  refine ⟨?_, ?_, fun henrolled => ⟨?_, act_of_enrolled henrolled⟩, enrolled_of_serves⟩
  · rcases hposts with hnone | ⟨-, verify, -, hone⟩
    · rw [hnone]
      exact Nat.zero_le 1
    · rw [hone]
      exact Nat.le_refl 1
  · intro p hp
    rcases hposts with hnone | ⟨-, verify, hverify, hone⟩
    · rw [hnone] at hp
      cases hp
    · rw [hone] at hp
      obtain rfl := List.mem_singleton.mp hp
      exact ⟨rfl, transportChecked hverify⟩
  · rcases hposts with hnone | ⟨hfresh, -⟩
    · exact hnone
    · exact absurd henrolled hfresh

/-- **Over any starts of the agent, each of which may die anywhere, the token goes out at
most once a start, with its registration and to a peer authenticated the way the
settings say; and once a start has got to its server, no later one sends it.** -/
theorem token_sent_authenticated (m : CaseMap) (nfkc : PyStr → PyStr) (P : Platform K)
    (settings : TrustSettings) (d : Disk) (starts : List (Start K E Ctx)) :
    let act := fun d (s : Start K E Ctx) => s.act m nfkc P settings d
    Along (fun d s _ => KeepsToken m nfkc P settings d s) d (trace act d starts) ∧
      ∀ before s later, starts = before ++ s :: later →
        settings.bootstrapToken ≠ [] → settings.schedulerUrl ≠ [] →
        Serves m nfkc P settings (lastState d (trace act d before)) s →
          Along (fun d s _ => s.posts m nfkc P settings d = [] ∧ act d s = d)
            (act (lastState d (trace act d before)) s)
            (trace act (act (lastState d (trace act d before)) s) later) := by
  intro act
  constructor
  · exact along_trace (A := fun _ => True) (fun _ => True) (fun _ _ => trivial)
      (fun _ _ => keepsToken _ _) trivial (fun _ _ => trivial)
  · intro before s later _ htoken hurl hserves
    have henrolled : Enrolled settings.toAgentSettings
        (act (lastState d (trace act d before)) s) := enrolled_of_serves htoken hurl hserves
    refine along_trace (A := fun _ => True) (Enrolled settings.toAgentSettings) ?_ ?_ henrolled
      (fun _ _ => trivial)
    · intro d s _ h
      have hsame : act d s = d := act_of_enrolled h
      rw [hsame]
      exact h
    · exact fun _ h => (keepsToken _ _).quiet h

end Runs

end ProbeAgent
