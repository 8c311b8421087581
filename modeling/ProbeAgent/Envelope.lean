import ProbeAgent.Base64
import ProbeAgent.JsonBytes

/-!
# The payload envelope (`mtls/envelope.py`)

A payload is written as JSON and encrypted under a fresh content key, which is wrapped with
the public key of the recipient.  `Crypto` stands for the cryptography library, and the
decoder of JSON is a parameter too: `loadsBytes`, or one that gives out on other texts as
well, as `json.loads` does on what is nested too deep for the interpreter's stack.

Whatever the payload, what `sealEnvelope` makes of it is an envelope that a text carries
unchanged and that the recipient's private key opens to the payload as it is read back
(`sealEnvelope_opens`).
-/

namespace ProbeAgent

open PyText JsonText

/-- The cryptography library, for public keys, private keys and the randomness of a
padding. -/
structure Crypto (Pub Priv Seed : Type) where
  /-- The RSA key of the certificate in a PEM file; none is a `ValueError` or another kind
  of key. -/
  publicKey : Bytes → Option Pub
  publicKey_nil : publicKey [] = none
  /-- RSA-OAEP with SHA-256, and SHA-256 in its MGF1. -/
  wrap : Pub → Seed → Bytes → Option Bytes
  unwrap : Priv → Bytes → Option Bytes
  /-- AES-GCM with no associated data: the content key, the iv and the data. -/
  encrypt : Bytes → Bytes → Bytes → Bytes
  decrypt : Bytes → Bytes → Bytes → Option Bytes

/-- What is drawn to seal one payload. -/
structure Entropy (Seed : Type) where
  contentKey : Bytes
  iv : Bytes
  seed : Seed
  /-- `AESGCM.generate_key(bit_length=256)`. -/
  contentKey_length : contentKey.length = 32
  /-- `os.urandom(12)`. -/
  iv_length : iv.length = 12

/-- `ALG`. -/
def ALG : PyStr := py "RSA-OAEP-256+A256GCM"

/-- `VERSION`. -/
def VERSION : Int := 1

/-- The float is equal to one. -/
def PyFloat.isOne : PyFloat → Bool
  | .finite false m e =>
      if 0 ≤ e then m * 2 ^ e.toNat == 1 else m == 2 ^ (-e).toNat
  | _ => false

/-- `v == VERSION`. -/
def Json.isVersion : Json → Bool
  | .bool b => b
  | .int n => n == VERSION
  | .float x => x.isOne
  | _ => false

/-- `v == ALG`. -/
def Json.isAlg : Json → Bool
  | .str s => s == ALG
  | _ => false

/-- `key in v`; none is a `TypeError`. -/
def Json.contains (v : Json) (key : PyStr) : Option Bool :=
  match v with
  | .obj fields => some (fields.any fun f => f.1 == key)
  | .arr items =>
      some (items.any fun item =>
        match item with
        | .str s => s == key
        | _ => false)
  | .str s => some (decide (key <:+: s))
  | _ => none

/-- `is_envelope`; none is a `TypeError`. -/
def isEnvelope (body : Json) : Option Bool :=
  match body.contains (py "ek") with
  | some true => body.contains (py "ct")
  | other => other

/-- How `open_envelope` ends. -/
inductive Opening
  | opened (payload : Json)
  /-- `EnvelopeError`. -/
  | refused
  /-- Another exception. -/
  | raised

section Envelope

variable {Pub Priv Seed : Type} (C : Crypto Pub Priv Seed)
  -- `json.loads` of bytes; none is an exception, of whatever class
  (readJson : Bytes → Option Json)

/-- `base64.b64decode(body[key])`. -/
def decodedField (fields : List (PyStr × Json)) (key : PyStr) : Option Bytes :=
  match fields.lookup key with
  | some (.str s) => Base64.decode s
  | _ => none

/-- The `try` of `open_envelope`. -/
def decrypted (fields : List (PyStr × Json)) (privateKey : Priv) : Option Bytes :=
  match (decodedField fields (py "ek")).bind (C.unwrap privateKey), decodedField fields (py "iv"),
      decodedField fields (py "ct") with
  | some contentKey, some iv, some ct => C.decrypt contentKey iv ct
  | _, _, _ => none

/-- `open_envelope`. -/
def openEnvelope (body : Json) (privateKey : Priv) : Opening :=
  match body with
  | .obj fields =>
      if ((fields.lookup (py "v")).getD .null).isVersion = false then .refused
      else if ((fields.lookup (py "alg")).getD .null).isAlg = false then .refused
      else
        match decrypted C fields privateKey with
        | none => .refused
        | some plaintext =>
            match readJson plaintext with
            | none => .raised
            | some payload => .opened payload
  | _ => .raised

/-- The fields of an envelope. -/
def envelopeFields (ek iv ct : Bytes) : List (PyStr × Json) :=
  [(py "v", .int VERSION), (py "alg", .str ALG), (py "ek", .str (Base64.encode ek)),
    (py "iv", .str (Base64.encode iv)), (py "ct", .str (Base64.encode ct))]

/-- `seal_envelope`; none is an exception, of whatever class. -/
def sealEnvelope (payload recipientCertPem : Json) (entropy : Entropy Seed) : Option Json :=
  match recipientCertPem.encode with
  | .error _ => none
  | .ok pem =>
      match C.publicKey pem with
      | none => none
      | some publicKey =>
          match written defaultStyle payload, C.wrap publicKey entropy.seed entropy.contentKey with
          | some plaintext, some ek =>
              some (.obj (envelopeFields ek entropy.iv
                (C.encrypt entropy.contentKey entropy.iv plaintext)))
          | _, _ => none

end Envelope

/-! ## The round trip -/

section Laws

variable {Pub Priv Seed : Type} (C : Crypto Pub Priv Seed)

/-- Unwrapping undoes wrapping. -/
def Crypto.Pairs (publicKey : Pub) (privateKey : Priv) : Prop :=
  ∀ (seed : Seed) (contentKey : Bytes), contentKey.length = 32 →
    ∃ ek, C.wrap publicKey seed contentKey = some ek ∧ C.unwrap privateKey ek = some contentKey

/-- Decryption undoes encryption. -/
def Crypto.Inverts : Prop :=
  ∀ contentKey iv plaintext : Bytes, contentKey.length = 32 → iv.length = 12 →
    C.decrypt contentKey iv (C.encrypt contentKey iv plaintext) = some plaintext

/-- The text is a certificate of the public key. -/
def Crypto.Certifies (pem : PyStr) (publicKey : Pub) : Prop :=
  ∃ b, encodeUtf8 pem = some b ∧ C.publicKey b = some publicKey

end Laws

theorem contains_obj (fields : List (PyStr × Json)) (key : PyStr) :
    (Json.obj fields).contains key = some (decide (key ∈ fields.map Prod.fst)) := by
  rw [Json.contains, Option.some.injEq, Bool.eq_iff_iff, List.any_eq_true, decide_eq_true_eq,
    List.mem_map]
  simp only [beq_iff_eq]

theorem noSurrogate_of_ascii {s : PyStr} (h : ∀ c ∈ s, c.val < 0x80) : NoSurrogate s := by
  intro c hc hsurrogate
  have hlt := h c hc
  omega

theorem joinPairs_encode (data : Bytes) : joinPairs (Base64.encode data) = Base64.encode data :=
  joinPairs_of_noSurrogate (noSurrogate_of_ascii (Base64.encode_ascii data))

/-- The fields' names, and the text that is the same in every envelope. -/
theorem joinPairs_constants :
    (joinPairs (py "v"), joinPairs (py "alg"), joinPairs (py "ek"), joinPairs (py "iv"),
        joinPairs (py "ct"), joinPairs ALG) =
      (py "v", py "alg", py "ek", py "iv", py "ct", ALG) := by
  decide +kernel

section Fields

variable (ek iv ct : Bytes)

theorem envelopeFields_nodup : ((envelopeFields ek iv ct).map Prod.fst).Nodup := by
  change [py "v", py "alg", py "ek", py "iv", py "ct"].Nodup
  decide +kernel

theorem reread_envelopeFields :
    reread (.obj (envelopeFields ek iv ct)) = .obj (envelopeFields ek iv ct) := by
  have hconstants := joinPairs_constants
  simp only [Prod.mk.injEq] at hconstants
  obtain ⟨hv, halg, hek, hiv, hct, hname⟩ := hconstants
  have hmembers : rereadMembers (envelopeFields ek iv ct) = envelopeFields ek iv ct := by
    simp only [envelopeFields, rereadMembers, reread, joinPairs_encode, hv, halg, hek, hiv, hct,
      hname]
  rw [reread, hmembers, dictOf_of_nodup (envelopeFields_nodup ek iv ct)]

theorem isEnvelope_envelopeFields : isEnvelope (.obj (envelopeFields ek iv ct)) = some true := by
  have hkeys : ∀ key ∈ [py "ek", py "ct"],
      (Json.obj (envelopeFields ek iv ct)).contains key = some true := by
    intro key hkey
    have hmem : key ∈ (envelopeFields ek iv ct).map Prod.fst := by
      change key ∈ [py "v", py "alg", py "ek", py "iv", py "ct"]
      simp only [List.mem_cons, List.not_mem_nil, or_false] at hkey ⊢
      tauto
    rw [contains_obj, decide_eq_true hmem]
  rw [isEnvelope, hkeys _ List.mem_cons_self]
  exact hkeys _ (List.mem_cons_of_mem _ List.mem_cons_self)

/-- Where the fields of an envelope are found. -/
theorem lookup_envelopeFields :
    (envelopeFields ek iv ct).lookup (py "v") = some (.int VERSION) ∧
      (envelopeFields ek iv ct).lookup (py "alg") = some (.str ALG) ∧
      (envelopeFields ek iv ct).lookup (py "ek") = some (.str (Base64.encode ek)) ∧
      (envelopeFields ek iv ct).lookup (py "iv") = some (.str (Base64.encode iv)) ∧
      (envelopeFields ek iv ct).lookup (py "ct") = some (.str (Base64.encode ct)) := by
  have hnodup := envelopeFields_nodup ek iv ct
  refine ⟨lookup_of_mem hnodup ?_, lookup_of_mem hnodup ?_, lookup_of_mem hnodup ?_,
    lookup_of_mem hnodup ?_, lookup_of_mem hnodup ?_⟩ <;>
  simp [envelopeFields]

end Fields

section RoundTrip

variable {Pub Priv Seed : Type} {C : Crypto Pub Priv Seed} (decodeWide : Bytes → Option PyStr)
  {readJson : Bytes → Option Json}

variable {fields : List (PyStr × Json)} {privateKey : Priv}

theorem decrypted_of_lookup {ek iv ct contentKey plaintext : Bytes}
    (hek : fields.lookup (py "ek") = some (.str (Base64.encode ek)))
    (hiv : fields.lookup (py "iv") = some (.str (Base64.encode iv)))
    (hct : fields.lookup (py "ct") = some (.str (Base64.encode ct)))
    (hunwrap : C.unwrap privateKey ek = some contentKey)
    (hdecrypt : C.decrypt contentKey iv ct = some plaintext) :
    decrypted C fields privateKey = some plaintext := by
  simp only [decrypted, decodedField, hek, hiv, hct, Base64.decode_encode, Option.bind_some,
    hunwrap, hdecrypt]

theorem openEnvelope_of_lookup {plaintext : Bytes} {payload : Json}
    (hv : fields.lookup (py "v") = some (.int VERSION))
    (halg : fields.lookup (py "alg") = some (.str ALG))
    (hdecrypted : decrypted C fields privateKey = some plaintext)
    (hloads : readJson plaintext = some payload) :
    openEnvelope C readJson (.obj fields) privateKey = .opened payload := by
  have hversion : (Json.int VERSION).isVersion = true := by decide
  have hname : (Json.str ALG).isAlg = true := beq_self_eq_true ALG
  simp only [openEnvelope, hv, halg, Option.getD_some, hversion, hname, Bool.true_eq_false,
    if_false, hdecrypted, hloads]

/-- A payload whose integers can be written is sealed, and opened by the recipient. -/
theorem sealEnvelope_opens (hinverts : C.Inverts) {publicKey : Pub}
    (hpairs : C.Pairs publicKey privateKey) {pem : PyStr} (hpem : C.Certifies pem publicKey)
    {payload : Json} (hfits : Fits payload) (entropy : Entropy Seed) :
    ∃ ek iv ct, sealEnvelope C payload (.str pem) entropy = some (.obj (envelopeFields ek iv ct)) ∧
      openEnvelope C (loadsBytes decodeWide) (.obj (envelopeFields ek iv ct)) privateKey =
        .opened (reread payload) := by
  obtain ⟨b, hencode, hpublic⟩ := hpem
  obtain ⟨plaintext, hwritten⟩ := (written_default_iff payload).mpr hfits
  obtain ⟨ek, hwrap, hunwrap⟩ := hpairs entropy.seed _ entropy.contentKey_length
  refine ⟨ek, entropy.iv, C.encrypt entropy.contentKey entropy.iv plaintext, ?_, ?_⟩
  · simp only [sealEnvelope, Json.encode, hencode, hpublic, hwritten, hwrap]
  · obtain ⟨hv, halg, hek, hiv, hct⟩ := lookup_envelopeFields ek entropy.iv
      (C.encrypt entropy.contentKey entropy.iv plaintext)
    have hdecrypt := hinverts _ _ plaintext entropy.contentKey_length entropy.iv_length
    exact openEnvelope_of_lookup hv halg
      (decrypted_of_lookup hek hiv hct hunwrap hdecrypt) (loadsBytes_written decodeWide hwritten)

/-- Only a payload that can be written is sealed. -/
theorem fits_of_sealEnvelope {payload recipientCertPem env : Json} {entropy : Entropy Seed}
    (h : sealEnvelope C payload recipientCertPem entropy = some env) : Fits payload := by
  unfold sealEnvelope at h
  split at h
  · cases h
  · split at h
    · cases h
    · split at h
      · rename_i plaintext ek hwritten hwrap
        exact (written_default_iff payload).mp ⟨plaintext, hwritten⟩
      · cases h

theorem sealEnvelope_eq_none {payload : Json} (h : ¬Fits payload) (recipientCertPem : Json)
    (entropy : Entropy Seed) : sealEnvelope C payload recipientCertPem entropy = none :=
  Option.eq_none_iff_forall_ne_some.mpr fun _ henv => h (fits_of_sealEnvelope henv)

end RoundTrip

end ProbeAgent
