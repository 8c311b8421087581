import ProbeAgent.GatewayTrust
import ProbeAgent.VisitedWalk

/-!
# Asking the gateway for a renewal (`renewal._post_renewal`)

The request goes to the gateway over mutual TLS.  When the gateway's certificate is
rejected, and for no other reason, it is sent once more to what terminates TLS in front of
the gateway, authenticated as at enrolment.

Whether a certificate was rejected is looked up along the links of the exception, which may
form cycles; `certificateRejection_iff` says what is found there.  `post_renewal_posts` says
which requests are sent with which `verify` argument, and what comes back.
-/

namespace ProbeAgent

open PyText

/-- The exceptions of a process: their links and, of their classes, what is asked. -/
structure Exceptions (E : Type) where
  cause : E → Option E
  context : E → Option E
  isConnectError : E → Bool
  isCertVerificationError : E → Bool

/-- `cur.__cause__ or cur.__context__`. -/
def Exceptions.next {E : Type} (x : Exceptions E) (e : E) : Option E :=
  match x.cause e with
  | some cause => some cause
  | none => x.context e

/-- A POST of the renewal request. -/
structure RenewalPost (Ctx : Type) where
  url : PyStr
  payload : Json
  verify : Verify Ctx

/-- What `build_client_context` and the gateway answer; the POSTs are numbered from 0. -/
structure GatewayWorld (E Ctx : Type) extends TrustWorld E Ctx where
  clientContext : Except E Ctx
  answer : Nat → RenewalPost Ctx → Except E Json

/-- What `_post_renewal` raises: an exception of `httpx` or of OpenSSL, or one of
`gateway_trust_context`. -/
inductive RenewalError (E : Type)
  | raised (e : E)
  | trust (e : TrustError E)

/-- The POSTs that were made, and how it ended. -/
structure Renewed (E Ctx : Type) where
  posts : List (RenewalPost Ctx)
  outcome : Except (RenewalError E) Json

section Post

variable {E Ctx : Type} [Fintype E] [DecidableEq E]
variable (m : CaseMap) (nfkc : PyStr → PyStr) (x : Exceptions E) (w : GatewayWorld E Ctx)
variable (settings : TrustSettings) (payload : Json)

/-- `_renewal_verify`. -/
def renewalVerify {E Ctx : Type} (m : CaseMap) (w : GatewayWorld E Ctx)
    (settings : TrustSettings) : Except E (Verify Ctx) :=
  if py "https" <+: m.lower settings.schedulerUrl then w.clientContext.map .context
  else .ok .skip

/-- `_is_certificate_rejection`. -/
def certificateRejection (e : E) : Bool :=
  VisitedWalk.walk x.next x.isCertVerificationError ∅ (some e)

/-- The request, with this `verify` argument. -/
def renewalPost {Ctx : Type} (settings : TrustSettings) (payload : Json) (verify : Verify Ctx) :
    RenewalPost Ctx :=
  ⟨settings.schedulerUrl ++ py "/internal/agents/renew", payload, verify⟩

/-- `_post_renewal`. -/
def postRenewal : Renewed E Ctx :=
  match renewalVerify m w settings with
  | .error e => ⟨[], .error (.raised e)⟩
  | .ok .skip =>
      let post := renewalPost settings payload .skip
      ⟨[post], (w.answer 0 post).mapError .raised⟩
  | .ok (.context ctx) =>
      let first := renewalPost settings payload (.context ctx)
      match w.answer 0 first with
      | .ok data => ⟨[first], .ok data⟩
      | .error e =>
          if x.isConnectError e && certificateRejection x e then
            match gatewayTrustContext m nfkc w.toTrustWorld settings with
            | .error refused => ⟨[first], .error (.trust refused)⟩
            | .ok front =>
                let second := renewalPost settings payload (.context front)
                ⟨[first, second], (w.answer 1 second).mapError .raised⟩
          else ⟨[first], .error (.raised e)⟩

/-! ## What happens -/

/-- A certificate verification error lies on the way along the causes, or the contexts
where there is no cause. -/
def Exceptions.Rejected {E : Type} (x : Exceptions E) (e : E) : Prop :=
  ∃ f, VisitedWalk.OnPath x.next e f ∧ x.isCertVerificationError f = true

theorem certificateRejection_iff (e : E) : certificateRejection x e = true ↔ x.Rejected e :=
  VisitedWalk.walk_iff e

/-- The URL begins with `https`, in whatever case. -/
def StartsWithHttps (url : PyStr) : Prop :=
  py "https" <+: url.map lowerAscii

theorem startsWithHttps_iff (url : PyStr) :
    py "https" <+: m.lower url ↔ StartsWithHttps url := by
  have hascii : ∀ c ∈ py "https", c.val < 0x80 ∧ c.val ≠ 0x69 ∧ c.val ≠ 0x6B := by
    have hall : (py "https").all
        (fun c => decide (c.val < 0x80 ∧ c.val ≠ 0x69 ∧ c.val ≠ 0x6B)) = true := by
      decide +kernel
    simpa using hall
  exact m.prefix_lower_iff hascii url

/-- The first POST was made over mutual TLS, and ended in this exception. -/
def FirstRaises {E Ctx : Type} (w : GatewayWorld E Ctx) (settings : TrustSettings)
    (payload : Json) (e : E) : Prop :=
  ∃ ctx, w.clientContext = .ok ctx ∧
    w.answer 0 (renewalPost settings payload (.context ctx)) = .error e

/-- The first POST failed because the gateway's certificate was rejected. -/
def FirstRejected {E Ctx : Type} (x : Exceptions E) (w : GatewayWorld E Ctx)
    (settings : TrustSettings) (payload : Json) : Prop :=
  StartsWithHttps settings.schedulerUrl ∧
    ∃ e, FirstRaises w settings payload e ∧ x.isConnectError e = true ∧ x.Rejected e

/-- How a renewal goes, by the way it takes. -/
inductive RenewalWay (E Ctx : Type) (x : Exceptions E) (m : CaseMap) (nfkc : PyStr → PyStr)
    (w : GatewayWorld E Ctx) (settings : TrustSettings) (payload : Json) : Renewed E Ctx → Prop
  /-- No transport to verify. -/
  | plain (hurl : ¬StartsWithHttps settings.schedulerUrl) :
      RenewalWay E Ctx x m nfkc w settings payload
        ⟨[renewalPost settings payload .skip],
          (w.answer 0 (renewalPost settings payload .skip)).mapError .raised⟩
  /-- No context to ask with. -/
  | unready (hurl : StartsWithHttps settings.schedulerUrl) (e : E)
      (hctx : w.clientContext = .error e) :
      RenewalWay E Ctx x m nfkc w settings payload ⟨[], .error (.raised e)⟩
  /-- The first answer is the answer, or its failure the failure. -/
  | first (hurl : StartsWithHttps settings.schedulerUrl) (ctx : Ctx)
      (hctx : w.clientContext = .ok ctx)
      (hkept : ¬FirstRejected x w settings payload) :
      RenewalWay E Ctx x m nfkc w settings payload
        ⟨[renewalPost settings payload (.context ctx)],
          (w.answer 0 (renewalPost settings payload (.context ctx))).mapError .raised⟩
  /-- There is no context for the front either. -/
  | unauthenticated (hrejected : FirstRejected x w settings payload) (ctx : Ctx)
      (hctx : w.clientContext = .ok ctx) (refused : TrustError E)
      (htrust : gatewayTrustContext m nfkc w.toTrustWorld settings = .error refused) :
      RenewalWay E Ctx x m nfkc w settings payload
        ⟨[renewalPost settings payload (.context ctx)], .error (.trust refused)⟩
  /-- The front is asked. -/
  | front (hrejected : FirstRejected x w settings payload) (ctx front : Ctx)
      (hctx : w.clientContext = .ok ctx)
      (htrust : gatewayTrustContext m nfkc w.toTrustWorld settings = .ok front) :
      RenewalWay E Ctx x m nfkc w settings payload
        ⟨[renewalPost settings payload (.context ctx),
            renewalPost settings payload (.context front)],
          (w.answer 1 (renewalPost settings payload (.context front))).mapError .raised⟩

/-- Every renewal goes one of these ways. -/
theorem postRenewal_way :
    RenewalWay E Ctx x m nfkc w settings payload
      (postRenewal m nfkc x w settings payload) := by
  unfold postRenewal renewalVerify
  by_cases hurl : StartsWithHttps settings.schedulerUrl
  · rw [if_pos ((startsWithHttps_iff m _).mpr hurl)]
    cases hctx : w.clientContext with
    | error e => exact .unready hurl e hctx
    | ok ctx =>
        simp only [Except.map]
        cases hanswer : w.answer 0 (renewalPost settings payload (.context ctx)) with
        | ok data =>
            have hkept : ¬FirstRejected x w settings payload := by
              rintro ⟨-, e, ⟨ctx', hctx', hraises⟩, -⟩
              cases hctx.symm.trans hctx'
              cases hanswer.symm.trans hraises
            have hway : RenewalWay E Ctx x m nfkc w settings payload _ :=
              .first hurl ctx hctx hkept
            rw [hanswer] at hway
            exact hway
        | error e =>
            have hiff : FirstRejected x w settings payload ↔
                x.isConnectError e = true ∧ x.Rejected e := by
              constructor
              · rintro ⟨-, e', ⟨ctx', hctx', hraises⟩, hrejected⟩
                cases hctx.symm.trans hctx'
                cases hanswer.symm.trans hraises
                exact hrejected
              · exact fun h => ⟨hurl, e, ⟨ctx, hctx, hanswer⟩, h⟩
            by_cases hrejected : FirstRejected x w settings payload
            · have hcond : (x.isConnectError e && certificateRejection x e) = true := by
                rw [Bool.and_eq_true, certificateRejection_iff]
                exact hiff.mp hrejected
              simp only [hcond, if_true]
              cases htrust : gatewayTrustContext m nfkc w.toTrustWorld settings with
              | error refused => exact .unauthenticated hrejected ctx hctx refused htrust
              | ok front => exact .front hrejected ctx front hctx htrust
            · have hcond : (x.isConnectError e && certificateRejection x e) = false := by
                rw [Bool.eq_false_iff, ne_eq, Bool.and_eq_true, certificateRejection_iff]
                exact fun h => hrejected (hiff.mpr h)
              simp only [hcond, Bool.false_eq_true, if_false]
              have hway : RenewalWay E Ctx x m nfkc w settings payload _ :=
                .first hurl ctx hctx hrejected
              rw [hanswer] at hway
              exact hway
  · rw [if_neg (fun h => hurl ((startsWithHttps_iff m _).mp h))]
    exact .plain hurl

/-- The second POST. -/
theorem posts_length_two_iff :
    (postRenewal m nfkc x w settings payload).posts.length = 2 ↔
      FirstRejected x w settings payload ∧
        ∃ front, gatewayTrustContext m nfkc w.toTrustWorld settings = .ok front := by
  have hway := postRenewal_way m nfkc x w settings payload
  generalize postRenewal m nfkc x w settings payload = r at hway
  cases hway with
  | plain hurl => exact iff_of_false nofun fun h => hurl h.1.1
  | unready hurl e hctx =>
      refine iff_of_false nofun ?_
      rintro ⟨⟨-, e', ⟨ctx, hctx', -⟩, -⟩, -⟩
      cases hctx.symm.trans hctx'
  | first hurl ctx hctx hkept => exact iff_of_false nofun fun h => hkept h.1
  | unauthenticated hrejected ctx hctx refused htrust =>
      refine iff_of_false nofun ?_
      rintro ⟨-, front, hfront⟩
      cases htrust.symm.trans hfront
  | front hrejected ctx front hctx htrust => exact iff_of_true rfl ⟨hrejected, front, htrust⟩

end Post

namespace RenewalWay

variable {E Ctx : Type} {x : Exceptions E} {m : CaseMap} {nfkc : PyStr → PyStr}
  {w : GatewayWorld E Ctx} {settings : TrustSettings} {payload : Json} {r : Renewed E Ctx}

theorem length_le (h : RenewalWay E Ctx x m nfkc w settings payload r) : r.posts.length ≤ 2 := by
  cases h <;> simp

/-- A request without verification does not go over `https`. -/
theorem not_https_of_skip (h : RenewalWay E Ctx x m nfkc w settings payload r) :
    ∀ post ∈ r.posts, post.verify = .skip → ¬StartsWithHttps settings.schedulerUrl := by
  cases h with
  | plain hurl => exact fun _ _ _ => hurl
  | unready => simp
  | first => simp [renewalPost]
  | unauthenticated => simp [renewalPost]
  | front => simp [renewalPost]

/-- Without `https` there is one request. -/
theorem posts_of_plain (h : RenewalWay E Ctx x m nfkc w settings payload r)
    (hplain : ¬StartsWithHttps settings.schedulerUrl) :
    r.posts = [renewalPost settings payload .skip] := by
  cases h with
  | plain hurl => rfl
  | unready hurl => exact absurd hurl hplain
  | first hurl => exact absurd hurl hplain
  | unauthenticated hrejected => exact absurd hrejected.1 hplain
  | front hrejected => exact absurd hrejected.1 hplain

/-- The second request is verified by the context of enrolment, and its answer is the
answer. -/
theorem front_of_two (h : RenewalWay E Ctx x m nfkc w settings payload r)
    {first second : RenewalPost Ctx} (hposts : r.posts = [first, second]) :
    ∃ front, gatewayTrustContext m nfkc w.toTrustWorld settings = .ok front ∧
      second = renewalPost settings payload (.context front) ∧
      r.outcome = (w.answer 1 second).mapError .raised := by
  cases h with
  | plain => cases hposts
  | unready => cases hposts
  | first => cases hposts
  | unauthenticated => cases hposts
  | front hrejected ctx front hctx htrust =>
      cases hposts
      exact ⟨front, htrust, rfl, rfl⟩

/-- Unless its certificate was rejected, the first answer is the answer. -/
theorem outcome_of_one (h : RenewalWay E Ctx x m nfkc w settings payload r)
    {first : RenewalPost Ctx} (hposts : r.posts = [first])
    (hkept : ¬FirstRejected x w settings payload) :
    r.outcome = (w.answer 0 first).mapError .raised := by
  cases h with
  | plain =>
      cases hposts
      rfl
  | unready => cases hposts
  | first =>
      cases hposts
      rfl
  | unauthenticated hrejected => exact absurd hrejected hkept
  | front hrejected => exact absurd hrejected hkept

/-- Where the front cannot be authenticated, the renewal fails with the reason. -/
theorem outcome_of_refused (h : RenewalWay E Ctx x m nfkc w settings payload r)
    {refused : TrustError E} (hrejected : FirstRejected x w settings payload)
    (htrust : gatewayTrustContext m nfkc w.toTrustWorld settings = .error refused) :
    r.outcome = .error (.trust refused) := by
  cases h with
  | plain hurl => exact absurd hrejected.1 hurl
  | unready hurl e hctx =>
      obtain ⟨-, e', ⟨ctx, hctx', -⟩, -⟩ := hrejected
      cases hctx.symm.trans hctx'
  | first hurl ctx hctx hkept => exact absurd hrejected hkept
  | unauthenticated hrejected ctx hctx refused' htrust' =>
      cases htrust.symm.trans htrust'
      rfl
  | front hrejected ctx front hctx htrust' => cases htrust.symm.trans htrust'

/-- Without a client context nothing is sent. -/
theorem unready_of_error (h : RenewalWay E Ctx x m nfkc w settings payload r) {e : E}
    (hurl : StartsWithHttps settings.schedulerUrl) (hctx : w.clientContext = .error e) :
    r.posts = [] ∧ r.outcome = .error (.raised e) := by
  cases h with
  | plain hplain => exact absurd hurl hplain
  | unready hurl e' hctx' =>
      cases hctx.symm.trans hctx'
      exact ⟨rfl, rfl⟩
  | first hurl ctx hctx' => cases hctx.symm.trans hctx'
  | unauthenticated hrejected ctx hctx' => cases hctx.symm.trans hctx'
  | front hrejected ctx front hctx' => cases hctx.symm.trans hctx'

end RenewalWay

/-- **Renewal never skips verification over `https`, and asks the front only after a
rejected certificate.** -/
theorem post_renewal_posts {E Ctx : Type} [Fintype E] [DecidableEq E] (m : CaseMap)
    (nfkc : PyStr → PyStr) (x : Exceptions E) (w : GatewayWorld E Ctx)
    (settings : TrustSettings) (payload : Json) :
    let r := postRenewal m nfkc x w settings payload
    let trust := gatewayTrustContext m nfkc w.toTrustWorld settings
    r.posts.length ≤ 2 ∧
    (∀ post ∈ r.posts, post.verify = .skip → ¬StartsWithHttps settings.schedulerUrl) ∧
    (¬StartsWithHttps settings.schedulerUrl →
      r.posts = [renewalPost settings payload .skip]) ∧
    (r.posts.length = 2 ↔
      FirstRejected x w settings payload ∧ ∃ front, trust = .ok front) ∧
    (∀ first second, r.posts = [first, second] →
      ∃ front, trust = .ok front ∧ second = renewalPost settings payload (.context front) ∧
        r.outcome = (w.answer 1 second).mapError .raised) ∧
    (∀ insecure, postRenewal m nfkc x w
      { settings with insecureSkipBootstrapTlsVerify := insecure } payload = r) ∧
    (∀ first, r.posts = [first] → ¬FirstRejected x w settings payload →
      r.outcome = (w.answer 0 first).mapError .raised) ∧
    (∀ refused, FirstRejected x w settings payload → trust = .error refused →
      r.outcome = .error (.trust refused)) ∧
    (∀ e, StartsWithHttps settings.schedulerUrl → w.clientContext = .error e →
      r.posts = [] ∧ r.outcome = .error (.raised e)) := by
  intro r trust
  have hway : RenewalWay E Ctx x m nfkc w settings payload r :=
    postRenewal_way m nfkc x w settings payload
  exact ⟨hway.length_le, hway.not_https_of_skip, hway.posts_of_plain,
    posts_length_two_iff m nfkc x w settings payload, fun _ _ => hway.front_of_two, fun _ => rfl,
    fun _ => hway.outcome_of_one, fun _ => hway.outcome_of_refused, fun _ => hway.unready_of_error⟩

/-! ## A front that cannot be authenticated -/

/-- `true` is a `ConnectError`, and `false` the certificate verification error it comes
from, which is in turn linked back to it. -/
def rejectedExceptions : Exceptions Bool where
  cause e := some !e
  context _ := none
  isConnectError e := e
  isCertVerificationError e := !e

/-- A gateway whose certificate is rejected. -/
def rejectingWorld : GatewayWorld Bool Unit where
  sha256 _ := zeroDigest
  fetchPeerCertificate _ _ := .ok []
  pinnedContext _ := .ok ()
  isFile _ := true
  createDefaultContext _ := .ok ()
  clientContext := .ok ()
  answer _ _ := .error true

/-- Settings with a pin that is no fingerprint. -/
def mistypedPin : TrustSettings where
  schedulerUrl := py "https://g"
  bootstrapPinSha256 := py "ab:cd"

/-- With a mistyped pin there is no second POST after a rejected certificate. -/
theorem mistyped_pin_no_second_post :
    FirstRejected rejectedExceptions rejectingWorld mistypedPin (.obj []) ∧
      (postRenewal .ascii id rejectedExceptions rejectingWorld mistypedPin
        (.obj [])).posts.length ≠ 2 := by
  have hurl : StartsWithHttps mistypedPin.schedulerUrl := by
    unfold StartsWithHttps
    decide +kernel
  have hpath : VisitedWalk.OnPath rejectedExceptions.next true false :=
    .single rfl
  have hpin : (normalizeFingerprints .ascii (py "ab:cd") : Except (PinError Bool) _) =
      .error (.notFingerprint (py "ab:cd")) := by
    rfl
  have htrust : gatewayTrustContext .ascii id rejectingWorld.toTrustWorld mistypedPin =
      .error (.pin (.notFingerprint (py "ab:cd"))) := by
    have hset : mistypedPin.bootstrapPinSha256 ≠ [] := by decide
    rw [gatewayTrustContext, if_pos hset, show mistypedPin.bootstrapPinSha256 = py "ab:cd" from rfl,
      hpin]
    rfl
  refine ⟨⟨hurl, true, ⟨(), rfl, rfl⟩, rfl, false, hpath, rfl⟩, fun hlength => ?_⟩
  obtain ⟨-, front, hfront⟩ :=
    (posts_length_two_iff .ascii id rejectedExceptions rejectingWorld mistypedPin _).mp hlength
  cases htrust.symm.trans hfront

end ProbeAgent
