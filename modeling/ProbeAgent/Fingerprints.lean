import ProbeAgent.StrMethods
import Mathlib.Data.Finset.Dedup
import Mathlib.Data.Finset.Lattice.Lemmas

/-!
# The pins of the gateway's certificate (`mtls/bootstrap_trust.py`)

`normalize_fingerprints` reads `PROBE_AGENT_BOOTSTRAP_PIN_SHA256`, and `_pin_and_bind` holds
the certificate the gateway presents against what it read.

A chunk between separators is read without its label, its colons and its case
(`Reduces`).  What `normalize_fingerprints` makes of a chunk is what it reduces to
(`candidate_eq_iff`), so every way to write a digest down is read back, and nothing else
is taken for one.
-/

namespace ProbeAgent

open PyText

def colonSign : CodePoint := 0x3A
def comma : CodePoint := 0x2C
def space : CodePoint := 0x20

/-- `sha256:`. -/
def fingerprintLabel : PyStr := py "sha256:"

/-- What `normalize_fingerprints` and `_pin_and_bind` refuse. -/
inductive PinError (E : Type)
  /-- A chunk that is no SHA-256 fingerprint. -/
  | notFingerprint (chunk : PyStr)
  | noFingerprint
  /-- The fingerprint of the certificate presented, and the pins it is not among. -/
  | notPinned (presented : PyStr) (pins : Finset PyStr)
  /-- An exception of `pinned_context`. -/
  | context (e : E)

section Parsing

variable {E : Type} (m : CaseMap)

/-- What is left of a chunk. -/
def fingerprintCandidate (chunk : PyStr) : PyStr :=
  (removePrefix fingerprintLabel (m.lower (strip chunk))).filter (· ≠ colonSign)

/-- The loop of `normalize_fingerprints`. -/
def addFingerprints (pins : Finset PyStr) : List PyStr → Except (PinError E) (Finset PyStr)
  | [] => .ok pins
  | chunk :: chunks =>
      let candidate := fingerprintCandidate m chunk
      if candidate = [] then addFingerprints pins chunks
      else if candidate.length ≠ 64 ∨ candidate.all isHexLower = false then
        .error (.notFingerprint chunk)
      else addFingerprints (insert candidate pins) chunks

/-- `raw.replace(",", " ").split()`. -/
def fingerprintChunks (raw : PyStr) : List PyStr :=
  split (raw.map fun c => if c = comma then space else c)

def normalizeFingerprints (raw : PyStr) : Except (PinError E) (Finset PyStr) :=
  match addFingerprints m ∅ (fingerprintChunks raw) with
  | .error e => .error e
  | .ok pins => if pins = ∅ then .error .noFingerprint else .ok pins

end Parsing

/-- `_pin_and_bind`; `pinned_context` is given by what it returns. -/
def pinAndBind {E Ctx : Type} (sha256 : Bytes → Digest) (pinnedContext : Bytes → Except E Ctx)
    (pins : Finset PyStr) (der : Bytes) : Except (PinError E) Ctx :=
  let presented := hexdigest (sha256 der)
  if presented ∉ pins then .error (.notPinned presented pins)
  else (pinnedContext der).mapError .context

/-! ## How a digest is written down -/

/-- A comma or white space. -/
def isSeparator (c : CodePoint) : Bool :=
  isSpace c || decide (c = comma)

def Separators (s : PyStr) : Prop := ∀ c ∈ s, isSeparator c = true

/-- No label, or `sha256:` in any case. -/
def IsLabel (s : PyStr) : Prop :=
  s = [] ∨ s.map lowerAscii = fingerprintLabel

/-- The chunk is this text, with colons put in anywhere and the letters in any case, after
an optional label. -/
def Reduces (chunk text : PyStr) : Prop :=
  ∃ label rest, chunk = label ++ rest ∧ IsLabel label ∧
    (rest.filter (· ≠ colonSign)).map lowerAscii = text

/-- The chunk is a rendering of the digest. -/
def Renders (d : Digest) (chunk : PyStr) : Prop :=
  Reduces chunk (hexdigest d)

/-- Renderings of the digests, one after another, with separators between them. -/
inductive Joined : List Digest → PyStr → Prop
  | last {d : Digest} {chunk trail : PyStr} (hchunk : Renders d chunk)
      (htrail : Separators trail) : Joined [d] (chunk ++ trail)
  | more {d : Digest} {ds : List Digest} {chunk seps rest : PyStr} (hchunk : Renders d chunk)
      (hseps : Separators seps) (hne : seps ≠ []) (hrest : Joined ds rest) :
      Joined (d :: ds) (chunk ++ (seps ++ rest))

/-- A text that lists the digests. -/
def Lists (digests : List Digest) (raw : PyStr) : Prop :=
  ∃ lead body, raw = lead ++ body ∧ Separators lead ∧ Joined digests body

/-! ## What a chunk reduces to -/

/-- Text of lower-case digits and nothing else. -/
def HexText (s : PyStr) : Prop := ∀ c ∈ s, isHexLower c = true

theorem hexText_hexdigest (d : Digest) : HexText (hexdigest d) :=
  fun _ hc => isHexLower_of_mem_hexdigest hc

theorem isHexLower_iff {c : CodePoint} :
    isHexLower c = true ↔ (0x30 ≤ c.val ∧ c.val ≤ 0x39) ∨ (0x61 ≤ c.val ∧ c.val ≤ 0x66) := by
  simp [isHexLower]

theorem lowerAscii_eq_colon {c : CodePoint} : lowerAscii c = colonSign ↔ c = colonSign :=
  lowerAscii_eq_sign (.inl (by decide))

/-- Colons and case do not get in each other's way. -/
theorem filter_map_lowerAscii (s : PyStr) :
    (s.map lowerAscii).filter (· ≠ colonSign) = (s.filter (· ≠ colonSign)).map lowerAscii := by
  rw [List.filter_map]
  congr 1
  refine List.filter_congr fun c _ => ?_
  simp [lowerAscii_eq_colon]

/-- The characters of a label and of a text of digits. -/
theorem val_of_mem_label {s : PyStr} (h : IsLabel s) {c : CodePoint} (hc : c ∈ s) :
    (lowerAscii c) ∈ fingerprintLabel := by
  rcases h with rfl | h
  · cases hc
  · rw [← h]
    exact List.mem_map_of_mem hc

/-- No character of the label is foreign, and none is a `k`. -/
theorem label_facts : fingerprintLabel.all
    (fun c => decide (c.val < 0x80 ∧ c.val ≠ 0x6B ∧ isSpace c = false ∧ c ≠ comma)) = true := by
  decide +kernel

theorem of_mem_label {c : CodePoint} (h : c ∈ fingerprintLabel) :
    c.val < 0x80 ∧ c.val ≠ 0x6B ∧ isSpace c = false ∧ c ≠ comma := by
  simpa using List.all_eq_true.mp label_facts c h

/-- What a chunk is made of that reduces to digits. -/
theorem Reduces.mem {chunk text : PyStr} (h : Reduces chunk text) (htext : HexText text)
    {c : CodePoint} (hc : c ∈ chunk) :
    lowerAscii c ∈ fingerprintLabel ∨ c = colonSign ∨ isHexLower (lowerAscii c) = true := by
  obtain ⟨label, rest, rfl, hlabel, rfl⟩ := h
  rcases List.mem_append.mp hc with hc | hc
  · exact .inl (val_of_mem_label hlabel hc)
  · by_cases hcolon : c = colonSign
    · exact .inr (.inl hcolon)
    · refine .inr (.inr (htext _ (List.mem_map_of_mem ?_)))
      exact List.mem_filter.mpr ⟨hc, by simpa using hcolon⟩

theorem Reduces.ascii {chunk text : PyStr} (h : Reduces chunk text) (htext : HexText text) :
    ∀ c ∈ chunk, c.val < 0x80 := by
  intro c hc
  rcases h.mem htext hc with hlabel | rfl | hdigit
  · exact val_lt_of_lowerAscii (of_mem_label hlabel).1
  · decide
  · rw [isHexLower_iff] at hdigit
    exact val_lt_of_lowerAscii (by omega)

theorem isSeparator_lowerAscii (c : CodePoint) :
    isSeparator (lowerAscii c) = isSeparator c := by
  unfold lowerAscii
  split
  · rename_i hcapital
    have hletter : ∀ d : CodePoint, 0x41 ≤ d.val → d.val ≤ 0x7A → isSeparator d = false := by
      intro d hlow hhigh
      simp only [isSeparator, isSpace, comma, Bool.or_eq_false_iff, Bool.and_eq_false_iff,
        decide_eq_false_iff_not, beq_eq_false_iff_ne, Fin.ext_iff]
      omega
    rw [hletter c hcapital.1 (by omega)]
    exact hletter _ (by simp only [Fin.ofNat, Fin.val_mk]; omega)
      (by simp only [Fin.ofNat, Fin.val_mk]; omega)
  · rfl

/-- A rendering has no separator in it. -/
theorem Reduces.unseparated {chunk text : PyStr} (h : Reduces chunk text)
    (htext : HexText text) : ∀ c ∈ chunk, isSeparator c = false := by
  intro c hc
  rw [← isSeparator_lowerAscii]
  rcases h.mem htext hc with hlabel | rfl | hdigit
  · have hfacts := of_mem_label hlabel
    simp [isSeparator, hfacts.2.2.1, hfacts.2.2.2]
  · decide
  · rw [isHexLower_iff] at hdigit
    simp only [isSeparator, isSpace, comma, Bool.or_eq_false_iff, Bool.and_eq_false_iff,
      decide_eq_false_iff_not, beq_eq_false_iff_ne, Fin.ext_iff]
    omega

theorem solid_of_unseparated {s : PyStr} (h : ∀ c ∈ s, isSeparator c = false) : Solid s := by
  intro c hc
  have := h c hc
  simp only [isSeparator, Bool.or_eq_false_iff] at this
  exact this.1

section Candidate

variable (m : CaseMap) {chunk text : PyStr}

/-- A rendering is read back, whatever its case, its colons and its label. -/
theorem candidate_of_reduces (h : Reduces chunk text) (htext : HexText text) :
    fingerprintCandidate m chunk = text := by
  have hsolid := solid_of_unseparated (h.unseparated htext)
  rw [fingerprintCandidate, strip_of_solid hsolid, m.lower_ascii (h.ascii htext)]
  obtain ⟨label, rest, rfl, rfl | hlabel, rfl⟩ := h
  · -- without a label nothing is taken for one: no digit is an `s`
    have hnone : ¬fingerprintLabel <+: ([] ++ rest).map lowerAscii := by
      rintro ⟨t, ht⟩
      have hs : (0x73 : CodePoint) ∈ rest.map lowerAscii := by
        rw [← List.nil_append rest, ← ht]
        exact List.mem_append_left t (by decide)
      have hleft : (0x73 : CodePoint) ∈ (rest.map lowerAscii).filter (· ≠ colonSign) :=
        List.mem_filter.mpr ⟨hs, by decide⟩
      rw [filter_map_lowerAscii] at hleft
      exact absurd (htext _ hleft) (by decide)
    rw [removePrefix, if_neg hnone, List.nil_append, filter_map_lowerAscii]
  · rw [List.map_append, hlabel, removePrefix_append, filter_map_lowerAscii]

/-- What is read as digits is a rendering of them: a foreign character would show. -/
theorem reduces_of_candidate (hsolid : Solid chunk)
    (htext : HexText (fingerprintCandidate m chunk)) :
    Reduces chunk (fingerprintCandidate m chunk) := by
  have hascii : ∀ c ∈ chunk, c.val < 0x80 := by
    intro c hc
    by_contra hforeign
    obtain ⟨x, hx, hval⟩ := m.exists_mem_lower hc (Nat.le_of_not_lt hforeign)
    have hlabel : x ∉ fingerprintLabel := fun hmem => by
      have := of_mem_label hmem
      omega
    have hcolon : x ≠ colonSign := by
      rintro rfl
      revert hval
      decide
    have hleft : x ∈ fingerprintCandidate m chunk := by
      rw [fingerprintCandidate, strip_of_solid hsolid]
      exact List.mem_filter.mpr ⟨mem_removePrefix hx hlabel, by simpa using hcolon⟩
    have hdigit := isHexLower_iff.mp (htext x hleft)
    omega
  rw [fingerprintCandidate, strip_of_solid hsolid, m.lower_ascii hascii]
  by_cases hlabel : fingerprintLabel <+: chunk.map lowerAscii
  · obtain ⟨t, ht⟩ := hlabel
    obtain ⟨label, rest, rfl, hlabel, rfl⟩ := List.map_eq_append_iff.mp ht.symm
    rw [List.map_append, hlabel, removePrefix_append, filter_map_lowerAscii]
    exact ⟨label, rest, rfl, .inr hlabel, rfl⟩
  · rw [removePrefix, if_neg hlabel, filter_map_lowerAscii]
    exact ⟨[], chunk, rfl, .inl rfl, rfl⟩

theorem candidate_eq_iff (hsolid : Solid chunk) (htext : HexText text) :
    fingerprintCandidate m chunk = text ↔ Reduces chunk text := by
  constructor
  · rintro rfl
    exact reduces_of_candidate m hsolid htext
  · exact fun h => candidate_of_reduces m h htext

end Candidate

/-! ## What a text lists -/

theorem fingerprintChunks_eq (raw : PyStr) :
    fingerprintChunks raw = words isSeparator raw := by
  refine words_map (fun c => ?_) (fun c hc => ?_) raw
  · by_cases hcomma : c = comma
    · subst hcomma
      decide
    · rw [if_neg hcomma]
      simp [isSeparator, hcomma]
  · simp only [isSeparator, Bool.or_eq_false_iff, decide_eq_false_iff_not] at hc
    rw [if_neg hc.2]

theorem Renders.ne_nil {d : Digest} {chunk : PyStr} (h : Renders d chunk) : chunk ≠ [] := by
  rintro rfl
  obtain ⟨label, rest, happend, -, htext⟩ := h
  obtain ⟨rfl, rfl⟩ := List.append_eq_nil_iff.mp happend.symm
  exact hexdigest_ne_nil d htext.symm

theorem Renders.unseparated {d : Digest} {chunk : PyStr} (h : Renders d chunk) :
    ∀ c ∈ chunk, isSeparator c = false :=
  Reduces.unseparated h (hexText_hexdigest d)

/-- The words of a joined text are the renderings it was joined from. -/
theorem Joined.words {digests : List Digest} {body : PyStr} (h : Joined digests body) :
    List.Forall₂ Renders digests (words isSeparator body) := by
  induction h with
  | @last d chunk trail hchunk htrail =>
      have hnone : PyText.words isSeparator trail = [] := words_separators htrail
      rw [words_solid_append hchunk.ne_nil hchunk.unseparated
        (fun c hc => htrail c (List.mem_of_head? hc)), hnone]
      exact .cons hchunk .nil
  | @more d ds chunk seps rest hchunk hseps hne hrest ih =>
      have hhead : ∀ c, (seps ++ rest).head? = some c → isSeparator c = true := by
        intro c hc
        rw [List.head?_append_of_ne_nil seps hne] at hc
        exact hseps c (List.mem_of_head? hc)
      rw [words_solid_append hchunk.ne_nil hchunk.unseparated hhead, words_sep_append hseps]
      exact .cons hchunk ih

theorem Lists.chunks {digests : List Digest} {raw : PyStr} (h : Lists digests raw) :
    List.Forall₂ Renders digests (fingerprintChunks raw) := by
  obtain ⟨lead, body, rfl, hlead, hjoined⟩ := h
  rw [fingerprintChunks_eq, words_sep_append hlead]
  exact hjoined.words

theorem Lists.ne_nil {digests : List Digest} {raw : PyStr} (h : Lists digests raw) :
    digests ≠ [] := by
  obtain ⟨lead, body, -, -, hjoined⟩ := h
  cases hjoined with
  | last => exact List.cons_ne_nil _ _
  | more => exact List.cons_ne_nil _ _

section Reading

variable {E : Type} (m : CaseMap)

/-- One rendering adds its digest. -/
theorem addFingerprints_cons {d : Digest} {chunk : PyStr} (h : Renders d chunk)
    (pins : Finset PyStr) (chunks : List PyStr) :
    (addFingerprints m pins (chunk :: chunks) : Except (PinError E) (Finset PyStr)) =
      addFingerprints m (insert (hexdigest d) pins) chunks := by
  have hcandidate := candidate_of_reduces m h (hexText_hexdigest d)
  have hall : (hexdigest d).all isHexLower = true :=
    List.all_eq_true.mpr (hexText_hexdigest d)
  rw [addFingerprints]
  simp only [hcandidate]
  rw [if_neg (hexdigest_ne_nil d), if_neg (by simp [length_hexdigest, hall])]

theorem addFingerprints_renders {digests : List Digest} {chunks : List PyStr}
    (h : List.Forall₂ Renders digests chunks) (pins : Finset PyStr) :
    (addFingerprints m pins chunks : Except (PinError E) (Finset PyStr)) =
      .ok (pins ∪ (digests.map hexdigest).toFinset) := by
  induction h generalizing pins with
  | nil => simp [addFingerprints]
  | @cons d chunk ds chunks hchunk hrest ih =>
      rw [addFingerprints_cons m hchunk, ih, List.map_cons, List.toFinset_cons,
        Finset.insert_union, Finset.union_insert]

/-- A chunk that is neither a rendering nor empty is not passed. -/
theorem addFingerprints_rejects {chunk : PyStr} (hsolid : Solid chunk)
    (hrender : ∀ d, ¬Renders d chunk) (hempty : ¬Reduces chunk []) {chunks : List PyStr}
    (hchunk : chunk ∈ chunks) (pins : Finset PyStr) :
    ∃ bad, (addFingerprints m pins chunks : Except (PinError E) (Finset PyStr)) =
      .error (.notFingerprint bad) := by
  induction chunks generalizing pins with
  | nil => cases hchunk
  | cons other chunks ih =>
      simp only [addFingerprints]
      by_cases hnil : fingerprintCandidate m other = []
      · rw [if_pos hnil]
        rcases List.mem_cons.mp hchunk with rfl | hrest
        · have hreduces :=
            (candidate_eq_iff m hsolid (fun c hc => absurd hc List.not_mem_nil)).mp hnil
          exact absurd hreduces hempty
        · exact ih hrest pins
      · rw [if_neg hnil]
        by_cases hbad : (fingerprintCandidate m other).length ≠ 64 ∨
            (fingerprintCandidate m other).all isHexLower = false
        · exact ⟨other, if_pos hbad⟩
        · rw [if_neg hbad]
          simp only [not_or, not_not, Bool.not_eq_false] at hbad
          rcases List.mem_cons.mp hchunk with rfl | hrest
          · have htext := List.all_eq_true.mp hbad.2
            obtain ⟨d, hd⟩ := exists_hexdigest hbad.1 htext
            have hreduces := reduces_of_candidate m hsolid htext
            rw [← hd] at hreduces
            exact absurd hreduces (hrender d)
          · exact ih hrest _

theorem normalizeFingerprints_lists {digests : List Digest} {raw : PyStr}
    (h : Lists digests raw) :
    (normalizeFingerprints m raw : Except (PinError E) (Finset PyStr)) =
      .ok (digests.map hexdigest).toFinset := by
  obtain ⟨d, ds, rfl⟩ := List.exists_cons_of_ne_nil h.ne_nil
  rw [normalizeFingerprints, addFingerprints_renders m h.chunks, Finset.empty_union]
  exact if_neg (by simp)

theorem normalizeFingerprints_rejects {raw chunk : PyStr} (hword : IsWord isSeparator raw chunk)
    (hrender : ∀ d, ¬Renders d chunk) (hempty : ¬Reduces chunk []) :
    ∃ bad, (normalizeFingerprints m raw : Except (PinError E) (Finset PyStr)) =
      .error (.notFingerprint bad) := by
  have hchunk : chunk ∈ fingerprintChunks raw := by
    rw [fingerprintChunks_eq]
    exact hword.mem_words
  have hsolid := solid_of_unseparated hword.solid
  obtain ⟨bad, hbad⟩ := addFingerprints_rejects (E := E) m hsolid hrender hempty hchunk ∅
  exact ⟨bad, by rw [normalizeFingerprints, hbad]⟩

end Reading

/-- Among the pins are the digests they were read from, and no other. -/
theorem hexdigest_mem_pins {d : Digest} {digests : List Digest} :
    hexdigest d ∈ (digests.map hexdigest).toFinset ↔ d ∈ digests := by
  rw [List.mem_toFinset, List.mem_map_of_injective hexdigest_injective]

/-- **Fingerprints are read back from every way to write them down, and nothing else is
read as one; a certificate passes exactly when its digest was among those written.** -/
theorem fingerprints_read_back {E Ctx : Type} (m : CaseMap) (sha256 : Bytes → Digest)
    (pinnedContext : Bytes → Except E Ctx) :
    (∀ digests raw, Lists digests raw →
      normalizeFingerprints m raw =
        (.ok (digests.map hexdigest).toFinset : Except (PinError E) (Finset PyStr))) ∧
    (∀ raw chunk, IsWord isSeparator raw chunk → (∀ d, ¬Renders d chunk) →
      ¬Reduces chunk [] →
        ∃ bad, normalizeFingerprints m raw =
          (.error (.notFingerprint bad) : Except (PinError E) (Finset PyStr))) ∧
    (∀ digests raw pins, Lists digests raw →
      normalizeFingerprints m raw = (.ok pins : Except (PinError E) (Finset PyStr)) →
        ∀ der,
          (pinAndBind sha256 pinnedContext pins der = (pinnedContext der).mapError .context ↔
            sha256 der ∈ digests) ∧
          ∀ ctx, pinAndBind sha256 pinnedContext pins der = .ok ctx ↔
            sha256 der ∈ digests ∧ pinnedContext der = .ok ctx) := by
  refine ⟨fun digests raw h => normalizeFingerprints_lists m h,
    fun raw chunk hword hrender hempty => normalizeFingerprints_rejects m hword hrender hempty,
    fun digests raw pins hlists hpins der => ?_⟩
  have heq := (normalizeFingerprints_lists m hlists).symm.trans hpins
  obtain rfl := Except.ok.inj heq
  have hmem : hexdigest (sha256 der) ∈ (digests.map hexdigest).toFinset ↔ sha256 der ∈ digests :=
    hexdigest_mem_pins
  by_cases hder : sha256 der ∈ digests
  · rw [pinAndBind, if_neg (not_not.mpr (hmem.mpr hder))]
    refine ⟨iff_of_true rfl hder, fun ctx => ?_⟩
    cases pinnedContext der with
    | error e => simp [Except.mapError]
    | ok context => simp [Except.mapError, hder]
  · rw [pinAndBind, if_pos (fun h => hder (hmem.mp h))]
    refine ⟨iff_of_false ?_ hder, fun ctx => by simp [hder]⟩
    cases pinnedContext der with
    | error e => simp [Except.mapError]
    | ok context => simp [Except.mapError]

end ProbeAgent
