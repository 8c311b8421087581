import ProbeAgent.Envelope

/-!
# The probe route (`routes/probe.py`)

`runProbe` answers the bytes of a request, plain or sealed.  A job is run on the same
fields whichever way it is sent (`runProbe_of_plain`, `runProbe_of_sealed`), and so it is
refused in both ways or in neither.

A result is written by `JSONResponse` in the one way and by `json.dumps` in the other.  The
first takes neither a float that is not a number or infinite nor a surrogate, the second
takes them all: the plain answer to such a result is the exception, and the sealed one the
result (`dispatches_agree_iff`).  An integer of too many digits is taken by neither.
-/

namespace ProbeAgent

open PyText NumberText JsonText

structure JSONResponse where
  statusCode : Nat
  body : Bytes
deriving DecidableEq

/-- The options of `JSONResponse.render`. -/
def renderStyle : Style :=
  ⟨false, false, true⟩

/-- `JSONResponse(status_code=statusCode, content=content)`; none is a `ValueError`. -/
def jsonResponse (statusCode : Nat) (content : Json) : Option JSONResponse :=
  (written renderStyle content).map fun body => ⟨statusCode, body⟩

def badRequest (error : PyStr) : Option JSONResponse :=
  jsonResponse 400 (.obj [(py "error", .str error)])

/-- `str(AgentAtCapacity(budget_ms))`; the validator bounds the budget, so its text is never
too long. -/
def capacityText (budgetMs : Int) : PyStr :=
  py "probe did not start within its " ++ (intLexeme budgetMs).text ++
    py "ms run budget (agent at capacity)"

/-- `_at_capacity`. -/
def atCapacity (budgetMs : Int) : Option JSONResponse :=
  jsonResponse 503
    (.obj [(py "error", .str (py "agent_at_capacity")),
      (py "detail", .str (capacityText budgetMs))])

/-- How `execute_probe(JobPayload(**fields))` ends. -/
inductive Executed
  | result (r : Json)
  /-- `AgentAtCapacity`. -/
  | atCapacity (budgetMs : Int)
  /-- Another exception, `ValidationError` among them. -/
  | raised

/-- `fields.pop(key, None)`, and what is left. -/
def popField (fields : List (PyStr × Json)) (key : PyStr) : Json × List (PyStr × Json) :=
  ((fields.lookup key).getD .null, fields.filter fun f => f.1 != key)

section Route

variable {Pub Priv Seed : Type} (C : Crypto Pub Priv Seed) (readJson : Bytes → Option Json)
  (decodeWide : Bytes → Option PyStr) (execute : List (PyStr × Json) → Executed)

/-- The answer to a body that is not an envelope. -/
def answerPlain (body : Json) : Option JSONResponse :=
  match body with
  | .obj fields =>
      match execute fields with
      | .result r => jsonResponse 200 r
      | .atCapacity budgetMs => atCapacity budgetMs
      | .raised => none
  | _ => none

/-- The answer to an envelope. -/
def answerSealed (privateKey : Option Priv) (entropy : Entropy Seed) (body : Json) :
    Option JSONResponse :=
  match privateKey with
  | none => badRequest (py "payload_encryption_unavailable")
  | some privateKey =>
      match openEnvelope C readJson body privateKey with
      | .refused => badRequest (py "payload_undecryptable")
      | .raised => none
      | .opened (.obj fields) =>
          let (replyCert, fields) := popField fields (py "replyCert")
          match execute fields with
          | .raised => none
          | .atCapacity budgetMs => atCapacity budgetMs
          | .result r =>
              if replyCert.truthy = false then badRequest (py "missing_reply_certificate")
              else (sealEnvelope C r replyCert entropy).bind (jsonResponse 200)
      | .opened _ => none

/-- `run_probe`; none is an exception, which the server answers with a 500. -/
def runProbe (privateKey : Option Priv) (entropy : Entropy Seed) (request : Bytes) :
    Option JSONResponse :=
  match readJson request with
  | none => none
  | some body =>
      match isEnvelope body with
      | none => none
      | some false => answerPlain execute body
      | some true => answerSealed C readJson execute privateKey entropy body

/-! ## The two ways of sending a job -/

/-- The job as it is read. -/
def readJob (job : List (PyStr × Json)) : List (PyStr × Json) :=
  dictOf (rereadMembers job)

/-- The answer to the job in a plain body. -/
def sentPlain (privateKey : Option Priv) (entropy : Entropy Seed) (job : List (PyStr × Json)) :
    Option JSONResponse :=
  (written defaultStyle (.obj job)).bind
    (runProbe C (loadsBytes decodeWide) execute privateKey entropy)

/-- The answer to the job with a reply certificate, sealed to the agent's certificate. -/
def sentSealed (privateKey : Option Priv) (entropy : Entropy Seed) (sender : Entropy Seed)
    (agentCert replyCert : PyStr) (job : List (PyStr × Json)) : Option JSONResponse :=
  ((sealEnvelope C (.obj (job ++ [(py "replyCert", .str replyCert)])) (.str agentCert) sender).bind
    (written defaultStyle)).bind (runProbe C (loadsBytes decodeWide) execute privateKey entropy)

/-- A 200 with a body that is read as the result. -/
def GivesPlain (answer : Option JSONResponse) (r : Json) : Prop :=
  ∃ response, answer = some response ∧ response.statusCode = 200 ∧
    loadsBytes decodeWide response.body = some r

/-- A 200 with an envelope that opens to the result. -/
def GivesSealed (replyKey : Priv) (answer : Option JSONResponse) (r : Json) : Prop :=
  ∃ response body, answer = some response ∧ response.statusCode = 200 ∧
    loadsBytes decodeWide response.body = some body ∧
      openEnvelope C (loadsBytes decodeWide) body replyKey = .opened r

/-- A 503. -/
def Refuses (answer : Option JSONResponse) : Prop :=
  ∃ response, answer = some response ∧ response.statusCode = 503

/-- The plain and the sealed answer give the same results and refuse together. -/
def Agree (replyKey : Priv) (plain sealed : Option JSONResponse) : Prop :=
  (∀ r, GivesPlain decodeWide plain r ↔ GivesSealed C decodeWide replyKey sealed r) ∧
    (Refuses plain ↔ Refuses sealed)

end Route

/-- A job without the keys that mean something to the route. -/
def Unmarked (job : List (PyStr × Json)) : Prop :=
  ∀ key ∈ [py "ek", py "ct", py "replyCert"], key ∉ job.map Prod.fst

/-! ## What is run -/

theorem reserved_basic {key : PyStr} (hkey : key ∈ [py "ek", py "ct", py "replyCert"]) :
    ∀ c ∈ key, c.val < 0x10000 := by
  have hall : ([py "ek", py "ct", py "replyCert"].all fun key =>
      key.all fun c => decide (c.val < 0x10000)) = true := by decide +kernel
  intro c hc
  exact of_decide_eq_true (List.all_eq_true.mp (List.all_eq_true.mp hall key hkey) c hc)

theorem not_mem_rereadMembers_of_unmarked {job : List (PyStr × Json)} (hjob : Unmarked job)
    {key : PyStr} (hkey : key ∈ [py "ek", py "ct", py "replyCert"]) :
    key ∉ (rereadMembers job).map Prod.fst :=
  not_mem_rereadMembers (reserved_basic hkey) (hjob key hkey)

theorem popField_concat_fresh {fields : List (PyStr × Json)} {key : PyStr}
    (h : key ∉ fields.map Prod.fst) (v : Json) :
    popField (fields ++ [(key, v)]) key = (v, fields) := by
  have hfields : fields.filter (fun f => f.1 != key) = fields := by
    refine List.filter_eq_self.mpr fun f hf => bne_iff_ne.mpr ?_
    rintro rfl
    exact h (List.mem_map_of_mem hf)
  rw [popField, lookup_concat_fresh h, List.filter_append, hfields]
  simp

section Runs

variable {Pub Priv Seed : Type} {C : Crypto Pub Priv Seed} {readJson : Bytes → Option Json}
  (execute : List (PyStr × Json) → Executed) (entropy : Entropy Seed)

/-- A body that is read as the fields of a job. -/
theorem runProbe_of_plain (privateKey : Option Priv) {request : Bytes}
    {fields : List (PyStr × Json)} (hloads : readJson request = some (.obj fields))
    (hfields : py "ek" ∉ fields.map Prod.fst) :
    runProbe C readJson execute privateKey entropy request =
      match execute fields with
      | .result r => jsonResponse 200 r
      | .atCapacity budgetMs => atCapacity budgetMs
      | .raised => none := by
  have henvelope : isEnvelope (.obj fields) = some false := by
    rw [isEnvelope, contains_obj, decide_eq_false hfields]
  simp only [runProbe, hloads, henvelope, answerPlain]

/-- A body that is read as an envelope of the fields of a job and a certificate. -/
theorem runProbe_of_sealed {privateKey : Priv} {request : Bytes} {body : Json}
    {fields : List (PyStr × Json)} {replyCert : PyStr}
    (hloads : readJson request = some body) (henvelope : isEnvelope body = some true)
    (hopen : openEnvelope C readJson body privateKey =
      .opened (.obj (fields ++ [(py "replyCert", .str replyCert)])))
    (hfields : py "replyCert" ∉ fields.map Prod.fst) (hcert : replyCert ≠ []) :
    runProbe C readJson execute (some privateKey) entropy request =
      match execute fields with
      | .result r => (sealEnvelope C r (.str replyCert) entropy).bind (jsonResponse 200)
      | .atCapacity budgetMs => atCapacity budgetMs
      | .raised => none := by
  have htruthy : (Json.str replyCert).truthy = true := by
    simpa [Json.truthy] using hcert
  simp only [runProbe, hloads, henvelope, answerSealed, hopen, popField_concat_fresh hfields,
    htruthy, Bool.true_eq_false, if_false]
  cases execute fields with
  | result r => rfl
  | atCapacity budgetMs => rfl
  | raised => rfl

end Runs

/-- The fields of an envelope are a small number and ASCII text. -/
theorem envelopeFields_everywhere (ek iv ct : Bytes) :
    Everywhere FewDigits IsFinite NoSurrogate (.obj (envelopeFields ek iv ct)) := by
  have hencode : ∀ data, NoSurrogate (Base64.encode data) := fun data =>
    noSurrogate_of_ascii (Base64.encode_ascii data)
  simp only [envelopeFields, Everywhere, EverywhereMembers, hencode, and_true, true_and]
  decide +kernel

theorem envelopeFields_fits (ek iv ct : Bytes) : Fits (.obj (envelopeFields ek iv ct)) :=
  Everywhere.imp (fun _ h => h) (fun _ _ => trivial) (fun _ _ => trivial) _
    (envelopeFields_everywhere ek iv ct)

/-- The reply certificate adds no integer. -/
theorem fits_with_replyCert (job : List (PyStr × Json)) (replyCert : PyStr) :
    Fits (.obj (job ++ [(py "replyCert", .str replyCert)])) ↔ Fits (.obj job) := by
  rw [Fits, Everywhere, Everywhere, everywhereMembers_append]
  simp [EverywhereMembers, Everywhere]

section Dispatches

variable {Pub Priv Seed : Type} {C : Crypto Pub Priv Seed} (decodeWide : Bytes → Option PyStr)
  (execute : List (PyStr × Json) → Executed) (entropy : Entropy Seed)
  {job : List (PyStr × Json)} (hjob : Unmarked job)
include hjob

theorem sentPlain_eq (hfits : Fits (.obj job)) (privateKey : Option Priv) :
    sentPlain C decodeWide execute privateKey entropy job =
      match execute (readJob job) with
      | .result r => jsonResponse 200 r
      | .atCapacity budgetMs => atCapacity budgetMs
      | .raised => none := by
  obtain ⟨request, hwritten⟩ := (written_default_iff (.obj job)).mpr hfits
  have hfields : py "ek" ∉ (readJob job).map Prod.fst := fun hmem =>
    not_mem_rereadMembers_of_unmarked hjob List.mem_cons_self (mem_keys_dictOf hmem)
  rw [sentPlain, hwritten, Option.bind_some]
  exact runProbe_of_plain execute entropy privateKey
    (loadsBytes_written decodeWide hwritten) hfields

/-- The reply certificate travels with the job, and the job is read as it is without it. -/
theorem reread_with_replyCert {replyCert : PyStr} (hcert : NoSurrogate replyCert) :
    reread (.obj (job ++ [(py "replyCert", .str replyCert)])) =
      .obj (readJob job ++ [(py "replyCert", .str replyCert)]) := by
  have hkey : joinPairs (py "replyCert") = py "replyCert" := by decide +kernel
  have hfresh : py "replyCert" ∉ (rereadMembers job).map Prod.fst :=
    not_mem_rereadMembers_of_unmarked hjob (by simp)
  rw [reread, rereadMembers_append, rereadMembers, rereadMembers, reread, hkey,
    joinPairs_of_noSurrogate hcert, dictOf_concat_fresh hfresh, readJob]

theorem sentSealed_eq (hfits : Fits (.obj job)) (hinverts : C.Inverts) {agentPub : Pub}
    {agentPriv : Priv} (hagent : C.Pairs agentPub agentPriv) {agentCert : PyStr}
    (hagentCert : C.Certifies agentCert agentPub) {replyPub : Pub} {replyCert : PyStr}
    (hreplyCert : C.Certifies replyCert replyPub) (sender : Entropy Seed) :
    sentSealed C decodeWide execute (some agentPriv) entropy sender agentCert replyCert job =
      match execute (readJob job) with
      | .result r => (sealEnvelope C r (.str replyCert) entropy).bind (jsonResponse 200)
      | .atCapacity budgetMs => atCapacity budgetMs
      | .raised => none := by
  obtain ⟨pem, hencode, hpublic⟩ := hreplyCert
  have hne : replyCert ≠ [] := by
    rintro rfl
    cases hencode
    rw [C.publicKey_nil] at hpublic
    cases hpublic
  have hcert : NoSurrogate replyCert := (encodeUtf8_isSome_iff replyCert).mp ⟨pem, hencode⟩
  obtain ⟨ek, iv, ct, hseal, hopen⟩ := sealEnvelope_opens decodeWide hinverts hagent hagentCert
    ((fits_with_replyCert job replyCert).mpr hfits) sender
  rw [reread_with_replyCert hjob hcert] at hopen
  obtain ⟨request, hwritten⟩ := (written_default_iff _).mpr (envelopeFields_fits ek iv ct)
  have hloads := loadsBytes_written decodeWide hwritten
  rw [reread_envelopeFields] at hloads
  have hfields : py "replyCert" ∉ (readJob job).map Prod.fst := fun hmem =>
    not_mem_rereadMembers_of_unmarked hjob (by simp) (mem_keys_dictOf hmem)
  rw [sentSealed, hseal, Option.bind_some, hwritten, Option.bind_some]
  exact runProbe_of_sealed execute entropy hloads (isEnvelope_envelopeFields ek iv ct)
    hopen hfields hne

omit hjob in
/-- A job that cannot be written is sent in neither way. -/
theorem sent_eq_none (hfits : ¬Fits (.obj job)) (privateKey : Option Priv)
    (sender : Entropy Seed) (agentCert replyCert : PyStr) :
    sentPlain C decodeWide execute privateKey entropy job = none ∧
      sentSealed C decodeWide execute privateKey entropy sender agentCert replyCert job =
        none := by
  have hsealed := mt (fits_with_replyCert job replyCert).mp hfits
  rw [sentPlain, written_default_eq_none hfits, sentSealed, sealEnvelope_eq_none hsealed]
  exact ⟨rfl, rfl⟩

end Dispatches

/-! ## What is answered -/

section Answers

variable {Pub Priv Seed : Type} {C : Crypto Pub Priv Seed} (decodeWide : Bytes → Option PyStr)

/-- `JSONResponse` writes what has neither an integer of too many digits, nor a float that
JSON has no name for, nor a surrogate. -/
theorem jsonResponse_isSome_iff (statusCode : Nat) (content : Json) :
    (∃ response, jsonResponse statusCode content = some response) ↔
      Everywhere FewDigits IsFinite NoSurrogate content := by
  have hwritten := written_isSome_iff renderStyle content
  constructor
  · rintro ⟨response, h⟩
    obtain ⟨body, hbody, -⟩ := Option.map_eq_some_iff.mp h
    exact Everywhere.imp (fun _ h => h) (fun _ h => h.resolve_left nofun)
      (fun _ h => h.resolve_left nofun) _ (hwritten.mp ⟨body, hbody⟩)
  · intro h
    obtain ⟨body, hbody⟩ := hwritten.mpr
      (Everywhere.imp (fun _ h => h) (fun _ => .inr) (fun _ => .inr) _ h)
    exact ⟨_, Option.map_eq_some_iff.mpr ⟨body, hbody, rfl⟩⟩

theorem jsonResponse_eq_some {statusCode : Nat} {content : Json} {response : JSONResponse}
    (h : jsonResponse statusCode content = some response) :
    response.statusCode = statusCode ∧
      loadsBytes decodeWide response.body = some (reread content) := by
  obtain ⟨body, hbody, rfl⟩ := Option.map_eq_some_iff.mp h
  exact ⟨rfl, loadsBytes_written decodeWide hbody⟩

theorem givesPlain_jsonResponse_iff (result r : Json) :
    GivesPlain decodeWide (jsonResponse 200 result) r ↔
      Everywhere FewDigits IsFinite NoSurrogate result ∧ r = reread result := by
  rw [← jsonResponse_isSome_iff 200]
  constructor
  · rintro ⟨response, hresponse, -, hloads⟩
    rw [(jsonResponse_eq_some decodeWide hresponse).2] at hloads
    exact ⟨⟨response, hresponse⟩, (Option.some.inj hloads).symm⟩
  · rintro ⟨⟨response, hresponse⟩, rfl⟩
    exact ⟨response, hresponse, jsonResponse_eq_some decodeWide hresponse⟩

theorem not_givesSealed_none (replyPriv : Priv) (r : Json) :
    ¬GivesSealed C decodeWide replyPriv none r := by
  rintro ⟨response, -, ⟨⟩, -⟩

/-- A result is sealed when its integers can be written. -/
theorem givesSealed_result_iff (hinverts : C.Inverts) {replyPub : Pub} {replyPriv : Priv}
    (hreply : C.Pairs replyPub replyPriv) {replyCert : PyStr}
    (hreplyCert : C.Certifies replyCert replyPub) (entropy : Entropy Seed) (result r : Json) :
    GivesSealed C decodeWide replyPriv
        ((sealEnvelope C result (.str replyCert) entropy).bind (jsonResponse 200)) r ↔
      Fits result ∧ r = reread result := by
  by_cases hfits : Fits result
  · obtain ⟨ek, iv, ct, hseal, hopen⟩ := sealEnvelope_opens decodeWide hinverts hreply hreplyCert
      hfits entropy
    obtain ⟨response, hresponse⟩ := (jsonResponse_isSome_iff 200 _).mpr
      (envelopeFields_everywhere ek iv ct)
    obtain ⟨hstatus, hloads⟩ := jsonResponse_eq_some decodeWide hresponse
    rw [reread_envelopeFields] at hloads
    rw [hseal, Option.bind_some, hresponse, and_iff_right hfits]
    constructor
    · rintro ⟨_, body, ⟨⟩, -, hbody, hopened⟩
      rw [hloads] at hbody
      cases hbody
      rw [hopen] at hopened
      exact (Opening.opened.inj hopened).symm
    · rintro rfl
      exact ⟨response, _, rfl, hstatus, hloads, hopen⟩
  · rw [sealEnvelope_eq_none hfits]
    exact iff_of_false (not_givesSealed_none decodeWide replyPriv r) fun h => hfits h.1

theorem not_refuses_jsonResponse (content : Json) : ¬Refuses (jsonResponse 200 content) := by
  rintro ⟨response, hresponse, hstatus⟩
  rw [(jsonResponse_eq_some (fun _ => none) hresponse).1] at hstatus
  cases hstatus

theorem not_refuses_sealed (content : Option Json) :
    ¬Refuses (content.bind (jsonResponse 200)) := by
  cases content with
  | none => rintro ⟨response, ⟨⟩, -⟩
  | some content => exact not_refuses_jsonResponse content

/-- Where the run is refused, neither answer gives a result. -/
theorem agree_atCapacity (replyPriv : Priv) (budgetMs : Int) :
    Agree C decodeWide replyPriv (atCapacity budgetMs) (atCapacity budgetMs) := by
  have hstatus : ∀ response, atCapacity budgetMs = some response → response.statusCode ≠ 200 := by
    intro response hresponse hstatus
    rw [(jsonResponse_eq_some decodeWide hresponse).1] at hstatus
    cases hstatus
  refine ⟨fun r => iff_of_false ?_ ?_, Iff.rfl⟩
  · rintro ⟨response, hresponse, hstatus', -⟩
    exact hstatus response hresponse hstatus'
  · rintro ⟨response, -, hresponse, hstatus', -⟩
    exact hstatus response hresponse hstatus'

theorem agree_raised (replyPriv : Priv) : Agree C decodeWide replyPriv none none := by
  refine ⟨fun r => iff_of_false ?_ (not_givesSealed_none decodeWide replyPriv r), Iff.rfl⟩
  rintro ⟨response, ⟨⟩, -⟩

/-- The two encoders write the same result exactly when the stricter one takes what the
other takes. -/
theorem agree_result_iff (hinverts : C.Inverts) {replyPub : Pub} {replyPriv : Priv}
    (hreply : C.Pairs replyPub replyPriv) {replyCert : PyStr}
    (hreplyCert : C.Certifies replyCert replyPub) (entropy : Entropy Seed) (result : Json) :
    Agree C decodeWide replyPriv (jsonResponse 200 result)
        ((sealEnvelope C result (.str replyCert) entropy).bind (jsonResponse 200)) ↔
      (Fits result → Everywhere (fun _ => True) IsFinite NoSurrogate result) := by
  have hsealed := givesSealed_result_iff decodeWide hinverts hreply hreplyCert entropy result
  have hboth : Everywhere FewDigits IsFinite NoSurrogate result ↔
      Fits result ∧ Everywhere (fun _ => True) IsFinite NoSurrogate result := by
    rw [Fits, ← everywhere_and]
    simp only [and_true, true_and]
  constructor
  · intro h hfits
    have hplain := (h.1 (reread result)).mpr ((hsealed _).mpr ⟨hfits, rfl⟩)
    exact (hboth.mp ((givesPlain_jsonResponse_iff decodeWide result _).mp hplain).1).2
  · intro h
    refine ⟨fun r => ?_, iff_of_false (not_refuses_jsonResponse result) (not_refuses_sealed _)⟩
    rw [givesPlain_jsonResponse_iff, hsealed, hboth, and_iff_left_of_imp h]

/-- Plain and sealed dispatch agree exactly when the run has no result, or one without
floats that JSON has no name for and without surrogates; and where an integer of too many
digits keeps the job or the result from being sent in either way. -/
theorem dispatches_agree_iff (execute : List (PyStr × Json) → Executed) (hinverts : C.Inverts)
    {agentPub replyPub : Pub} {agentPriv replyPriv : Priv} (hagent : C.Pairs agentPub agentPriv)
    (hreply : C.Pairs replyPub replyPriv) {agentCert replyCert : PyStr}
    (hagentCert : C.Certifies agentCert agentPub) (hreplyCert : C.Certifies replyCert replyPub)
    (entropy sender : Entropy Seed) {job : List (PyStr × Json)} (hjob : Unmarked job) :
    Agree C decodeWide replyPriv
        (sentPlain C decodeWide execute (some agentPriv) entropy job)
        (sentSealed C decodeWide execute (some agentPriv) entropy sender agentCert replyCert job) ↔
      ∀ result, Fits (.obj job) → execute (readJob job) = .result result → Fits result →
        Everywhere (fun _ => True) IsFinite NoSurrogate result := by
  by_cases hfits : Fits (.obj job)
  · rw [sentPlain_eq decodeWide execute entropy hjob hfits,
      sentSealed_eq decodeWide execute entropy hjob hfits hinverts hagent hagentCert hreplyCert]
    simp only [hfits, true_imp_iff]
    cases hexecute : execute (readJob job) with
    | result result =>
        simp only [agree_result_iff decodeWide hinverts hreply hreplyCert, Executed.result.injEq,
          forall_eq']
    | atCapacity budgetMs => exact iff_of_true (agree_atCapacity decodeWide _ _) nofun
    | raised => exact iff_of_true (agree_raised decodeWide _) nofun
  · obtain ⟨hplain, hsealed⟩ := sent_eq_none (C := C) decodeWide execute entropy hfits
      (some agentPriv) sender agentCert replyCert
    rw [hplain, hsealed]
    exact iff_of_true (agree_raised decodeWide _) fun _ h => absurd h hfits

end Answers

/-! ## Two runs -/

/-- A certificate file begins with the number of its key, a wrapped key with the number of
the key it is wrapped with, and the tag is a half of the content key. -/
def sampleCrypto : Crypto UInt8 UInt8 Unit where
  publicKey pem := pem.head?
  publicKey_nil := rfl
  wrap key _ contentKey := some (key :: contentKey)
  unwrap key ek := if ek.head? = some key then some ek.tail else none
  encrypt contentKey _ plaintext := plaintext ++ contentKey.take 16
  decrypt contentKey _ ct :=
    if ct.drop (ct.length - 16) = contentKey.take 16 then some (ct.take (ct.length - 16)) else none

theorem sampleCrypto_inverts : sampleCrypto.Inverts := by
  intro contentKey iv plaintext hkey hiv
  have htag : (contentKey.take 16).length = 16 := by
    rw [List.length_take, hkey]
    rfl
  have hlength : (plaintext ++ contentKey.take 16).length - 16 = plaintext.length := by
    rw [List.length_append, htag, Nat.add_sub_cancel]
  simp only [sampleCrypto, hlength, List.drop_left, List.take_left, if_true]

theorem sampleCrypto_pairs (key : UInt8) : sampleCrypto.Pairs key key := by
  intro seed contentKey _
  exact ⟨key :: contentKey, rfl, if_pos rfl⟩

def sampleEntropy : Entropy Unit :=
  ⟨List.replicate 32 7, List.replicate 12 9, (), List.length_replicate, List.length_replicate⟩

def sampleAgentCert : PyStr := py "agent"

def sampleReplyCert : PyStr := py "reply"

theorem sampleAgentCert_certifies : sampleCrypto.Certifies sampleAgentCert 0x61 :=
  ⟨[0x61, 0x67, 0x65, 0x6E, 0x74], by decide +kernel, rfl⟩

theorem sampleReplyCert_certifies : sampleCrypto.Certifies sampleReplyCert 0x72 :=
  ⟨[0x72, 0x65, 0x70, 0x6C, 0x79], by decide +kernel, rfl⟩

def sampleDispatch : List (PyStr × Json) :=
  [(py "script", .str (py "get(url)")), (py "variables", .obj [])]

theorem sampleDispatch_unmarked : Unmarked sampleDispatch := by
  change ∀ key ∈ [py "ek", py "ct", py "replyCert"], key ∉ [py "script", py "variables"]
  decide +kernel

theorem sampleDispatch_fits : Fits (.obj sampleDispatch) :=
  ⟨trivial, trivial, trivial, trivial, trivial⟩

/-- A run that stored a float. -/
def sampleRun (x : PyFloat) : List (PyStr × Json) → Executed :=
  fun _ => .result (.obj [(py "runVars", .obj [(py "ratio", .float x)])])

/-- A script stored `NaN` from the body of its target: there is a sealed answer and no plain
one. -/
theorem nan_answered_sealed_only :
    sampleCrypto.Inverts ∧ sampleCrypto.Pairs 0x61 0x61 ∧ sampleCrypto.Pairs 0x72 0x72 ∧
      sampleCrypto.Certifies sampleAgentCert 0x61 ∧ sampleCrypto.Certifies sampleReplyCert 0x72 ∧
      Unmarked sampleDispatch ∧
      ¬Agree sampleCrypto (fun _ => none) 0x72
        (sentPlain sampleCrypto (fun _ => none) (sampleRun .nan) (some 0x61) sampleEntropy
          sampleDispatch)
        (sentSealed sampleCrypto (fun _ => none) (sampleRun .nan) (some 0x61) sampleEntropy
          sampleEntropy sampleAgentCert sampleReplyCert sampleDispatch) := by
  refine ⟨sampleCrypto_inverts, sampleCrypto_pairs _, sampleCrypto_pairs _,
    sampleAgentCert_certifies, sampleReplyCert_certifies, sampleDispatch_unmarked, ?_⟩
  rw [sentPlain_eq _ _ _ sampleDispatch_unmarked sampleDispatch_fits,
    sentSealed_eq _ _ _ sampleDispatch_unmarked sampleDispatch_fits sampleCrypto_inverts
      (sampleCrypto_pairs _) sampleAgentCert_certifies sampleReplyCert_certifies]
  intro hagree
  have hresult := (agree_result_iff _ sampleCrypto_inverts (sampleCrypto_pairs _)
    sampleReplyCert_certifies sampleEntropy _).mp hagree
  obtain ⟨negative, m, e, hfinite⟩ := (hresult ⟨trivial, ⟨trivial, trivial, trivial⟩,
    trivial⟩).2.1.2.1
  cases hfinite

/-- A stored half is answered both ways. -/
theorem dispatches_agree_iff_half :
    Agree sampleCrypto (fun _ => none) 0x72
        (sentPlain sampleCrypto (fun _ => none) (sampleRun (.finite false 1 (-1))) (some 0x61)
          sampleEntropy sampleDispatch)
        (sentSealed sampleCrypto (fun _ => none) (sampleRun (.finite false 1 (-1))) (some 0x61)
          sampleEntropy sampleEntropy sampleAgentCert sampleReplyCert sampleDispatch) := by
  refine (dispatches_agree_iff _ (sampleRun (.finite false 1 (-1))) sampleCrypto_inverts
    (sampleCrypto_pairs 0x61) (sampleCrypto_pairs 0x72) sampleAgentCert_certifies
    sampleReplyCert_certifies sampleEntropy sampleEntropy sampleDispatch_unmarked).mpr ?_
  rintro result - ⟨⟩ -
  have hkeys : NoSurrogate (py "runVars") ∧ NoSurrogate (py "ratio") := by decide +kernel
  exact ⟨hkeys.1, ⟨hkeys.2, ⟨_, _, _, rfl⟩, trivial⟩, trivial⟩

end ProbeAgent
