import ProbeAgent.ProbeRoute

/-!
# Sealed dispatches that are not answered with a result

Two questions about `run_probe` on a body that `is_envelope` takes for an envelope.

* Is it opened, or refused as one that cannot be opened?  `open_envelope` turns every
  failure from the base64 to the tag into an `EnvelopeError`, but neither a body that is
  no dictionary nor a plaintext that is no JSON text of one (`opening_total_iff`).
* Is the job run, although no result is sent back?  The agent's key and the envelope are
  looked at before the run, the reply certificate after it (`refused_not_run_iff`).
-/

namespace ProbeAgent

open PyText NumberText JsonText

/-! ## Opening -/

/-- A JSON object, or an `EnvelopeError`. -/
def Opening.Clean (o : Opening) : Prop :=
  o = .refused ∨ ∃ fields, o = .opened (.obj fields)

/-- The 400 of an envelope that cannot be opened. -/
def Undecryptable (answer : Option JSONResponse) : Prop :=
  answer = badRequest (py "payload_undecryptable") ∧
    ∃ response, answer = some response ∧ response.statusCode = 400

/-- A 400 can be written. -/
theorem badRequest_eq_some {error : PyStr} (h : NoSurrogate error) :
    ∃ response, badRequest error = some response ∧ response.statusCode = 400 := by
  have hcontent : Everywhere FewDigits IsFinite NoSurrogate (.obj [(py "error", .str error)]) :=
    ⟨by decide +kernel, h, trivial⟩
  obtain ⟨response, hresponse⟩ := (jsonResponse_isSome_iff 400 _).mpr hcontent
  exact ⟨response, hresponse, (jsonResponse_eq_some (fun _ => none) hresponse).1⟩

theorem undecryptable_badRequest : Undecryptable (badRequest (py "payload_undecryptable")) :=
  ⟨rfl, badRequest_eq_some (by decide +kernel)⟩

section Opening

variable {Pub Priv Seed : Type} (C : Crypto Pub Priv Seed) (readJson : Bytes → Option Json)

/-- A dictionary whose plaintext, if it is decrypted at all, the decoder reads as an
object. -/
def CarriesObject (body : Json) (privateKey : Priv) : Prop :=
  ∃ fields, body = .obj fields ∧
    (((fields.lookup (py "v")).getD .null).isVersion = true →
      ((fields.lookup (py "alg")).getD .null).isAlg = true →
        ∀ plaintext, decrypted C fields privateKey = some plaintext →
          ∃ payload, readJson plaintext = some (.obj payload))

theorem not_clean_raised : ¬Opening.raised.Clean := by
  rintro (h | ⟨_, h⟩) <;> cases h

theorem openEnvelope_of_not_obj {body : Json} (h : ∀ fields, body ≠ .obj fields)
    (privateKey : Priv) : openEnvelope C readJson body privateKey = .raised := by
  cases body with
  | obj fields => exact absurd rfl (h fields)
  | _ => rfl

/-- What `open_envelope` opens or refuses. -/
theorem openEnvelope_clean_iff (body : Json) (privateKey : Priv) :
    (openEnvelope C readJson body privateKey).Clean ↔
      CarriesObject C readJson body privateKey := by
  unfold CarriesObject
  by_cases hobj : ∃ fields, body = .obj fields
  · obtain ⟨fields, rfl⟩ := hobj
    simp only [Json.obj.injEq, exists_eq_left', openEnvelope]
    cases hversion : ((fields.lookup (py "v")).getD .null).isVersion with
    | false => exact iff_of_true (.inl rfl) (by simp)
    | true =>
        cases halg : ((fields.lookup (py "alg")).getD .null).isAlg with
        | false => exact iff_of_true (.inl rfl) (by simp)
        | true =>
            cases hdecrypted : decrypted C fields privateKey with
            | none => exact iff_of_true (.inl rfl) (by simp)
            | some plaintext =>
                simp only [Bool.true_eq_false, if_false, Option.some.injEq, forall_eq',
                  true_imp_iff]
                cases hloads : readJson plaintext with
                | none => exact iff_of_false not_clean_raised (by simp)
                | some payload =>
                    simp only [Opening.Clean, reduceCtorEq, false_or, Opening.opened.injEq,
                      Option.some.injEq]
  · rw [not_exists] at hobj
    rw [openEnvelope_of_not_obj C readJson hobj]
    refine iff_of_false not_clean_raised ?_
    rintro ⟨fields, hfields, -⟩
    exact hobj fields hfields

/-- An envelope that is refused is answered with its 400. -/
theorem runProbe_of_refused (execute : List (PyStr × Json) → Executed) (entropy : Entropy Seed)
    {privateKey : Priv} {request : Bytes} {body : Json}
    (hloads : readJson request = some body) (henvelope : isEnvelope body = some true)
    (hrefused : openEnvelope C readJson body privateKey = .refused) :
    Undecryptable (runProbe C readJson execute (some privateKey) entropy request) := by
  simp only [runProbe, hloads, henvelope, answerSealed, hrefused]
  exact undecryptable_badRequest

/-- **Opening.** An envelope is opened to an object or refused, and the route answers what
it cannot open with its 400, exactly when the body is a dictionary that carries an
object. -/
theorem opening_total_iff (privateKey : Priv) {body : Json}
    (henvelope : isEnvelope body = some true) :
    ((openEnvelope C readJson body privateKey).Clean ∧
      ∀ (execute : List (PyStr × Json) → Executed) (entropy : Entropy Seed) (request : Bytes),
        readJson request = some body →
          (¬∃ fields, openEnvelope C readJson body privateKey = .opened (.obj fields)) →
            Undecryptable (runProbe C readJson execute (some privateKey) entropy request)) ↔
      CarriesObject C readJson body privateKey := by
  rw [← openEnvelope_clean_iff]
  refine and_iff_left_of_imp fun hclean execute entropy request hloads hclosed => ?_
  exact runProbe_of_refused C readJson execute entropy hloads henvelope
    (hclean.resolve_right hclosed)

end Opening

/-- The decoder, where UTF-16 and UTF-32 are not decoded. -/
abbrev sampleReader : Bytes → Option Json :=
  loadsBytes fun _ => none

/-- The list `["ek", "ct"]` passes for an envelope, and its answer is an unhandled error. -/
theorem list_taken_for_envelope :
    isEnvelope (.arr [.str (py "ek"), .str (py "ct")]) = some true ∧
      (∃ request, sampleReader request =
          some (.arr [.str (py "ek"), .str (py "ct")]) ∧
        runProbe sampleCrypto sampleReader (sampleRun .nan) (some 0x61) sampleEntropy request =
          none) ∧
      ¬(openEnvelope sampleCrypto sampleReader (.arr [.str (py "ek"), .str (py "ct")])
        0x61).Clean := by
  refine ⟨rfl, ⟨[0x5B, 0x22, 0x65, 0x6B, 0x22, 0x2C, 0x22, 0x63, 0x74, 0x22, 0x5D], rfl, ?_⟩,
    not_clean_raised⟩
  decide +kernel

/-- An envelope whose plaintext is the text of an empty object is opened to it. -/
theorem opening_total_iff_empty_object :
    let body := Json.obj (envelopeFields (0x61 :: sampleEntropy.contentKey) sampleEntropy.iv
      (sampleCrypto.encrypt sampleEntropy.contentKey sampleEntropy.iv [0x7B, 0x7D]))
    (openEnvelope sampleCrypto sampleReader body 0x61).Clean ∧
      ∀ (execute : List (PyStr × Json) → Executed) (entropy : Entropy Unit) (request : Bytes),
        sampleReader request = some body →
          (¬∃ fields, openEnvelope sampleCrypto sampleReader body 0x61 =
              .opened (.obj fields)) →
            Undecryptable (runProbe sampleCrypto sampleReader execute (some 0x61) entropy
              request) := by
  refine (opening_total_iff sampleCrypto sampleReader 0x61
    (isEnvelope_envelopeFields _ _ _)).mpr ⟨_, rfl, fun _ _ plaintext hplaintext => ⟨[], ?_⟩⟩
  obtain ⟨hv, halg, hek, hiv, hct⟩ := lookup_envelopeFields (0x61 :: sampleEntropy.contentKey)
    sampleEntropy.iv (sampleCrypto.encrypt sampleEntropy.contentKey sampleEntropy.iv [0x7B, 0x7D])
  have hdecrypted := decrypted_of_lookup hek hiv hct
    (show sampleCrypto.unwrap 0x61 (0x61 :: sampleEntropy.contentKey) =
      some sampleEntropy.contentKey from rfl)
    (sampleCrypto_inverts _ _ [0x7B, 0x7D] sampleEntropy.contentKey_length sampleEntropy.iv_length)
  rw [hdecrypted] at hplaintext
  cases hplaintext
  rfl

/-! ## Running -/

section Submission

variable {Pub Priv Seed Payload : Type} (C : Crypto Pub Priv Seed)
  (readJson : Bytes → Option Json)
  -- `JobPayload(**fields)`, and `execute_probe`
  (jobPayload : List (PyStr × Json) → Option Payload) (executeProbe : Payload → Executed)

/-- `execute_probe(JobPayload(**fields))`. -/
def executeJob (fields : List (PyStr × Json)) : Executed :=
  match jobPayload fields with
  | none => .raised
  | some payload => executeProbe payload

/-- What is left of the answer when the run has ended. -/
def answerRun (entropy : Entropy Seed) (replyCert : Json) : Executed → Option JSONResponse
  | .raised => none
  | .atCapacity budgetMs => atCapacity budgetMs
  | .result r =>
      if replyCert.truthy = false then badRequest (py "missing_reply_certificate")
      else (sealEnvelope C r replyCert entropy).bind (jsonResponse 200)

/-- What an envelope opens to, with the payloads submitted to `execute_probe`. -/
def loggedOpening (entropy : Entropy Seed) : Opening → List Payload × Option JSONResponse
  | .refused => ([], badRequest (py "payload_undecryptable"))
  | .opened (.obj fields) =>
      let (replyCert, fields) := popField fields (py "replyCert")
      match jobPayload fields with
      | none => ([], none)
      | some payload => ([payload], answerRun C entropy replyCert (executeProbe payload))
  | _ => ([], none)

/-- `answerSealed` with the payloads it submits to `execute_probe`. -/
def loggedSealed (privateKey : Option Priv) (entropy : Entropy Seed) (body : Json) :
    List Payload × Option JSONResponse :=
  match privateKey with
  | none => ([], badRequest (py "payload_encryption_unavailable"))
  | some privateKey =>
      loggedOpening C jobPayload executeProbe entropy (openEnvelope C readJson body privateKey)

variable {C jobPayload executeProbe} in
/-- A dispatch that opens to a valid job is submitted. -/
theorem submitted_of_opened {key : Priv} {entropy : Entropy Seed} {body : Json}
    {fields : List (PyStr × Json)} {payload : Payload}
    (hopen : openEnvelope C readJson body key = .opened (.obj fields))
    (hjob : jobPayload (popField fields (py "replyCert")).2 = some payload) :
    (loggedSealed C readJson jobPayload executeProbe (some key) entropy body).1 = [payload] := by
  simp only [loggedSealed, hopen, loggedOpening, hjob]

/-- The log is of the route's own answer. -/
theorem loggedSealed_answer (privateKey : Option Priv) (entropy : Entropy Seed) {request : Bytes}
    {body : Json} (hloads : readJson request = some body)
    (henvelope : isEnvelope body = some true) :
    (loggedSealed C readJson jobPayload executeProbe privateKey entropy body).2 =
      runProbe C readJson (executeJob jobPayload executeProbe) privateKey entropy request := by
  cases privateKey with
  | none => simp only [runProbe, hloads, henvelope, answerSealed, loggedSealed]
  | some privateKey =>
      simp only [runProbe, hloads, henvelope, answerSealed, loggedSealed]
      cases openEnvelope C readJson body privateKey with
      | refused => rfl
      | raised => rfl
      | opened inner =>
          cases inner with
          | obj fields =>
              simp only [loggedOpening, executeJob]
              cases jobPayload (popField fields (py "replyCert")).2 with
              | none => rfl
              | some payload => cases executeProbe payload <;> rfl
          | _ => rfl

/-- A sealed result. -/
def GivesEnvelope (answer : Option JSONResponse) : Prop :=
  ∃ ek iv ct, answer = jsonResponse 200 (.obj (envelopeFields ek iv ct))

/-- The text of a certificate whose key wraps the content key. -/
def Sealable (entropy : Entropy Seed) (replyCert : Json) : Prop :=
  ∃ pem b publicKey ek, replyCert = .str pem ∧ encodeUtf8 pem = some b ∧
    C.publicKey b = some publicKey ∧ C.wrap publicKey entropy.seed entropy.contentKey = some ek

/-- A request that gets as far as the run is refused there for capacity, or has a result
that can be written and can be answered. -/
def NotSpent (privateKey : Option Priv) (entropy : Entropy Seed) (body : Json) : Prop :=
  ∀ key fields payload, privateKey = some key →
    openEnvelope C readJson body key = .opened (.obj fields) →
      jobPayload (popField fields (py "replyCert")).2 = some payload →
        (∃ budgetMs, executeProbe payload = .atCapacity budgetMs) ∨
          (∃ result, executeProbe payload = .result result ∧ Fits result) ∧
            Sealable C entropy (popField fields (py "replyCert")).1

end Submission

section Refusals

variable {Pub Priv Seed Payload : Type} {C : Crypto Pub Priv Seed}

/-- A certificate that seals is not empty. -/
theorem Sealable.truthy {entropy : Entropy Seed} {replyCert : Json}
    (h : Sealable C entropy replyCert) : replyCert.truthy = true := by
  obtain ⟨pem, b, publicKey, ek, rfl, hencode, hpublic, -⟩ := h
  cases pem with
  | nil =>
      cases hencode
      rw [C.publicKey_nil] at hpublic
      cases hpublic
  | cons c pem => rfl

/-- What `seal_envelope` takes for a payload and for a recipient. -/
theorem sealEnvelope_isSome_iff (payload replyCert : Json) (entropy : Entropy Seed) :
    (∃ env, sealEnvelope C payload replyCert entropy = some env) ↔
      Fits payload ∧ Sealable C entropy replyCert := by
  constructor
  · rintro ⟨env, h⟩
    refine ⟨fits_of_sealEnvelope h, ?_⟩
    unfold sealEnvelope at h
    split at h
    · cases h
    · rename_i pem hencode
      split at h
      · cases h
      · rename_i publicKey hpublic
        split at h
        · rename_i plaintext' ek hwritten' hwrap
          cases replyCert with
          | str s =>
              simp only [Json.encode] at hencode
              cases hb : encodeUtf8 s with
              | none => simp [hb] at hencode
              | some b =>
                  simp only [hb, Except.ok.injEq] at hencode
                  subst hencode
                  exact ⟨s, b, publicKey, ek, rfl, hb, hpublic, hwrap⟩
          | _ => cases hencode
        · cases h
  · rintro ⟨hfits, pem, b, publicKey, ek, rfl, hencode, hpublic, hwrap⟩
    obtain ⟨plaintext, hwritten⟩ := (written_default_iff payload).mpr hfits
    simp only [sealEnvelope, Json.encode, hencode, hpublic, hwritten, hwrap]
    exact ⟨_, rfl⟩

theorem sealEnvelope_fields {payload replyCert env : Json} {entropy : Entropy Seed}
    (h : sealEnvelope C payload replyCert entropy = some env) :
    ∃ ek iv ct, env = .obj (envelopeFields ek iv ct) := by
  unfold sealEnvelope at h
  split at h
  · cases h
  · split at h
    · cases h
    · split at h
      · cases h
        exact ⟨_, _, _, rfl⟩
      · cases h

/-- No answer with another status is an envelope. -/
theorem GivesEnvelope.statusCode {answer : Option JSONResponse} (h : GivesEnvelope answer) :
    ∃ response, answer = some response ∧ response.statusCode = 200 := by
  obtain ⟨ek, iv, ct, rfl⟩ := h
  obtain ⟨response, hresponse⟩ := (jsonResponse_isSome_iff 200 _).mpr
    (envelopeFields_everywhere ek iv ct)
  exact ⟨response, hresponse, (jsonResponse_eq_some (fun _ => none) hresponse).1⟩

theorem not_givesEnvelope_none : ¬GivesEnvelope none := by
  intro h
  obtain ⟨response, hresponse, -⟩ := h.statusCode
  cases hresponse

theorem not_refuses_none : ¬Refuses none := by
  rintro ⟨response, hresponse, -⟩
  cases hresponse

/-- A 400 is neither. -/
theorem not_kept_badRequest {error : PyStr} (herror : NoSurrogate error) :
    ¬(GivesEnvelope (badRequest error) ∨ Refuses (badRequest error)) := by
  obtain ⟨response, hresponse, hstatus⟩ := badRequest_eq_some herror
  rintro (h | ⟨response', h, hstatus'⟩)
  · obtain ⟨response', h, hstatus'⟩ := h.statusCode
    rw [hresponse] at h
    cases h
    omega
  · rw [hresponse] at h
    cases h
    omega

theorem refuses_atCapacity (budgetMs : Int) : Refuses (atCapacity budgetMs) := by
  have hdetail : NoSurrogate (capacityText budgetMs) := by
    have hdigits : NoSurrogate (intLexeme budgetMs).text := fun c hc =>
      forall_lexeme (P := fun c => ¬(0xD800 ≤ c.val ∧ c.val < 0xE000))
        (fun c hc => by have hc := of_decide_eq_true hc; omega)
        (intLexeme_wellFormed budgetMs) c hc
    rw [capacityText, noSurrogate_append, noSurrogate_append]
    exact ⟨⟨by decide +kernel, hdigits⟩, by decide +kernel⟩
  have hname : NoSurrogate (py "agent_at_capacity") := by decide +kernel
  obtain ⟨response, hresponse⟩ := (jsonResponse_isSome_iff 503 (.obj
    [(py "error", .str (py "agent_at_capacity")),
      (py "detail", .str (capacityText budgetMs))])).mpr
    ⟨by decide +kernel, hname, by decide +kernel, hdetail, trivial⟩
  exact ⟨response, hresponse, (jsonResponse_eq_some (fun _ => none) hresponse).1⟩

/-- The answer to a run that was made: a sealed result or the 503. -/
theorem answerRun_kept_iff (entropy : Entropy Seed) (replyCert : Json) (executed : Executed) :
    (GivesEnvelope (answerRun C entropy replyCert executed) ∨
        Refuses (answerRun C entropy replyCert executed)) ↔
      (∃ budgetMs, executed = .atCapacity budgetMs) ∨
        (∃ result, executed = .result result ∧ Fits result) ∧ Sealable C entropy replyCert := by
  cases executed with
  | raised =>
      refine iff_of_false (not_or.mpr ⟨not_givesEnvelope_none, not_refuses_none⟩) ?_
      rintro (⟨_, h⟩ | ⟨⟨_, h, -⟩, -⟩) <;> cases h
  | atCapacity budgetMs => exact iff_of_true (.inr (refuses_atCapacity budgetMs)) (.inl ⟨_, rfl⟩)
  | result r =>
      simp only [answerRun, reduceCtorEq, exists_false, false_or, Executed.result.injEq,
        exists_eq_left']
      cases htruthy : replyCert.truthy with
      | false =>
          rw [if_pos rfl]
          refine iff_of_false (not_kept_badRequest (by decide +kernel)) fun h => ?_
          rw [h.2.truthy] at htruthy
          cases htruthy
      | true =>
          rw [if_neg (by simp), ← sealEnvelope_isSome_iff r]
          cases hseal : sealEnvelope C r replyCert entropy with
          | none =>
              refine iff_of_false (not_or.mpr ⟨not_givesEnvelope_none, not_refuses_none⟩) ?_
              rintro ⟨env, ⟨⟩⟩
          | some env =>
              obtain ⟨ek, iv, ct, rfl⟩ := sealEnvelope_fields hseal
              exact iff_of_true (.inl ⟨ek, iv, ct, rfl⟩) ⟨_, rfl⟩

/-- **Refusals.** A sealed dispatch that is answered with neither a sealed result nor the
503 has not been run, exactly when every request that gets as far as the run is refused
there or has a result that can be sent back. -/
theorem refused_not_run_iff (readJson : Bytes → Option Json)
    (jobPayload : List (PyStr × Json) → Option Payload) (executeProbe : Payload → Executed)
    (privateKey : Option Priv) (entropy : Entropy Seed) {request : Bytes} {body : Json}
    (hloads : readJson request = some body) (henvelope : isEnvelope body = some true) :
    (¬GivesEnvelope (runProbe C readJson (executeJob jobPayload executeProbe) privateKey entropy
          request) →
        Refuses (runProbe C readJson (executeJob jobPayload executeProbe) privateKey entropy
          request) ∨
        (loggedSealed C readJson jobPayload executeProbe privateKey entropy body).1 = []) ↔
      NotSpent C readJson jobPayload executeProbe privateKey entropy body := by
  rw [← loggedSealed_answer C readJson jobPayload executeProbe privateKey entropy hloads
    henvelope, ← or_iff_not_imp_left, ← or_assoc]
  unfold NotSpent loggedSealed
  cases privateKey with
  | none => exact iff_of_true (.inr rfl) nofun
  | some key =>
      simp only [Option.some.injEq]
      by_cases hrun : ∃ fields payload, openEnvelope C readJson body key = .opened (.obj fields) ∧
          jobPayload (popField fields (py "replyCert")).2 = some payload
      · obtain ⟨fields, payload, hopen, hpayload⟩ := hrun
        simp only [hopen, loggedOpening, hpayload, List.cons_ne_nil, or_false, answerRun_kept_iff]
        constructor
        · rintro h _ fields' payload' rfl hopen' hpayload'
          rw [hopen] at hopen'
          cases hopen'
          rw [hpayload] at hpayload'
          cases hpayload'
          exact h
        · intro h
          exact h key fields payload rfl hopen hpayload
      · -- the request is answered before the run
        rw [not_exists] at hrun
        refine iff_of_true (.inr ?_) ?_
        · cases hopen : openEnvelope C readJson body key with
          | refused => rfl
          | raised => rfl
          | opened inner =>
              cases inner with
              | obj fields =>
                  cases hpayload : jobPayload (popField fields (py "replyCert")).2 with
                  | none => simp only [loggedOpening, hpayload]
                  | some payload => exact absurd ⟨payload, hopen, hpayload⟩ (hrun fields)
              | _ => rfl
        · rintro _ fields payload rfl hopen hpayload
          exact absurd ⟨payload, hopen, hpayload⟩ (hrun fields)

end Refusals

/-- The payload sealed to the agent of the sample. -/
def sampleSealed (payload : Json) : Json :=
  (sealEnvelope sampleCrypto payload (.str sampleAgentCert) sampleEntropy).getD .null

def sampleSealedRequest (payload : Json) : Bytes :=
  (written defaultStyle (sampleSealed payload)).getD []

theorem sampleSealed_opens {payload : Json} (h : Fits payload) :
    sampleReader (sampleSealedRequest payload) = some (sampleSealed payload) ∧
      isEnvelope (sampleSealed payload) = some true ∧
      openEnvelope sampleCrypto sampleReader (sampleSealed payload) 0x61 =
        .opened (reread payload) := by
  obtain ⟨ek, iv, ct, hseal, hopen⟩ := sealEnvelope_opens (fun _ => none) sampleCrypto_inverts
    (sampleCrypto_pairs 0x61) sampleAgentCert_certifies h sampleEntropy
  have hsealed : sampleSealed payload = .obj (envelopeFields ek iv ct) := by
    rw [sampleSealed, hseal]
    rfl
  obtain ⟨request, hwritten⟩ := (written_default_iff _).mpr (envelopeFields_fits ek iv ct)
  have hloads := loadsBytes_written (fun _ => none) hwritten
  rw [reread_envelopeFields] at hloads
  rw [sampleSealedRequest, hsealed, hwritten]
  exact ⟨hloads, isEnvelope_envelopeFields ek iv ct, hopen⟩

/-- A dispatch sealed without a reply certificate is run and then refused. -/
theorem unanswerable_dispatch_is_run :
    ∃ request body, sampleReader request = some body ∧
      isEnvelope body = some true ∧
      ¬(¬GivesEnvelope (runProbe sampleCrypto sampleReader (executeJob some (sampleRun .nan))
            (some 0x61) sampleEntropy request) →
          Refuses (runProbe sampleCrypto sampleReader (executeJob some (sampleRun .nan))
            (some 0x61) sampleEntropy request) ∨
          (loggedSealed sampleCrypto sampleReader some (sampleRun .nan) (some 0x61)
            sampleEntropy body).1 = []) := by
  obtain ⟨hloads, henvelope, hopen⟩ := sampleSealed_opens (show Fits (.obj []) from trivial)
  refine ⟨_, _, hloads, henvelope, ?_⟩
  rw [← loggedSealed_answer sampleCrypto _ some (sampleRun .nan) (some 0x61) sampleEntropy hloads
    henvelope, loggedSealed]
  simp only [hopen]
  have hkept : ¬(GivesEnvelope (badRequest (py "missing_reply_certificate")) ∨
      Refuses (badRequest (py "missing_reply_certificate"))) :=
    not_kept_badRequest (by decide +kernel)
  rw [not_or] at hkept
  intro h
  rcases h hkept.1 with hrefuses | hlog
  · exact hkept.2 hrefuses
  · cases hlog

def sampleSealedDispatch : Json :=
  .obj (sampleDispatch ++ [(py "replyCert", .str sampleReplyCert)])

theorem sampleSealedDispatch_opens :
    sampleReader (sampleSealedRequest sampleSealedDispatch) =
        some (sampleSealed sampleSealedDispatch) ∧
      isEnvelope (sampleSealed sampleSealedDispatch) = some true ∧
      openEnvelope sampleCrypto sampleReader (sampleSealed sampleSealedDispatch) 0x61 =
        .opened (.obj (readJob sampleDispatch ++ [(py "replyCert", .str sampleReplyCert)])) := by
  have hcert : NoSurrogate sampleReplyCert := by decide +kernel
  have hopens := sampleSealed_opens
    ((fits_with_replyCert sampleDispatch sampleReplyCert).mpr sampleDispatch_fits)
  rw [reread_with_replyCert sampleDispatch_unmarked hcert] at hopens
  exact hopens

theorem sampleSealedDispatch_fields :
    popField (readJob sampleDispatch ++ [(py "replyCert", .str sampleReplyCert)])
      (py "replyCert") = (.str sampleReplyCert, readJob sampleDispatch) :=
  popField_concat_fresh (fun hmem =>
    not_mem_rereadMembers_of_unmarked sampleDispatch_unmarked (by simp) (mem_keys_dictOf hmem)) _

/-- A dispatch with a reply certificate is run, and so it is answered. -/
theorem refused_not_run_iff_answered :
    (loggedSealed sampleCrypto sampleReader some (sampleRun .nan) (some 0x61) sampleEntropy
        (sampleSealed sampleSealedDispatch)).1 ≠ [] ∧
      (GivesEnvelope (runProbe sampleCrypto sampleReader (executeJob some (sampleRun .nan))
          (some 0x61) sampleEntropy (sampleSealedRequest sampleSealedDispatch)) ∨
        Refuses (runProbe sampleCrypto sampleReader (executeJob some (sampleRun .nan))
          (some 0x61) sampleEntropy (sampleSealedRequest sampleSealedDispatch))) := by
  obtain ⟨hloads, henvelope, hopen⟩ := sampleSealedDispatch_opens
  have hrun : (loggedSealed sampleCrypto sampleReader some (sampleRun .nan) (some 0x61)
      sampleEntropy (sampleSealed sampleSealedDispatch)).1 ≠ [] := by
    rw [submitted_of_opened _ hopen (congrArg some (congrArg Prod.snd sampleSealedDispatch_fields))]
    exact List.cons_ne_nil _ _
  have hkept := (refused_not_run_iff (C := sampleCrypto) sampleReader some (sampleRun .nan)
    (some 0x61) sampleEntropy hloads henvelope).mpr ?_
  · exact ⟨hrun, or_iff_not_imp_left.mpr fun hnot => (hkept hnot).resolve_right hrun⟩
  · rintro _ fields payload ⟨⟩ hfields -
    rw [hopen] at hfields
    cases hfields
    rw [sampleSealedDispatch_fields]
    obtain ⟨b, hencode, hpublic⟩ := sampleReplyCert_certifies
    exact .inr ⟨⟨_, rfl, trivial, ⟨trivial, trivial, trivial⟩, trivial⟩, _, b, _, _, rfl,
      hencode, hpublic, rfl⟩

end ProbeAgent
