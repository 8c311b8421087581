import ProbeAgent.Redaction
import ProbeAgent.Tracking

/-!
# What redaction copies through (`_redact_body_bytes`)

A secret's occurrence that overlaps one masked before it is no longer there at its own turn,
and what the mask left of it stays in the body.  So redaction leaves no byte of any
occurrence exactly if the occurrences masked in turn cover all the others
(`fragments_masked_iff`); where of two occurrences that overlap one lies within the other,
they do (`takenCover_of_within`).

A secret with the mask's character can also be found in a mask put in before it.  Where the
loop comes to that, it replaces what is no occurrence in the body (`CutsMask`).
-/

namespace ProbeAgent

open PyText Substitution Effects

/-! ## The loop, with the origin of every byte -/

/-- A byte, and where in the body it comes from. -/
abbrev Traced := List (UInt8 × Option Nat)

/-- One secret's turn. -/
def traceOne (t : Traced) (needle : Bytes) : Traced :=
  if needle ≠ [] ∧ needle <:+: t.map Prod.fst then
    replaceOn Prod.fst needle (untracked mask) t
  else t

/-- The loop over the secrets. -/
def traceEach (t : Traced) : List PyStr → Except PyExc Traced
  | [] => .ok t
  | s :: secrets => do
      let needle ← encodeSecret s
      traceEach (traceOne t needle) secrets

/-- `_redact_body_bytes`, with the origin of every byte it returns. -/
def traceBodyBytes (data : Bytes) (secretValues : List PyStr) : Except PyExc Traced :=
  if secretValues = [] then .ok (track data)
  else traceEach (track data) (longestFirst secretValues)

theorem map_traceOne (t : Traced) (needle : Bytes) :
    (traceOne t needle).map Prod.fst = redactOne (t.map Prod.fst) needle := by
  unfold traceOne redactOne
  split
  · rw [map_replaceOn, map_fst_untracked]
  · rfl

theorem map_traceEach (t : Traced) (secrets : List PyStr) :
    (traceEach t secrets).map (List.map Prod.fst) = redactEach (t.map Prod.fst) secrets := by
  induction secrets generalizing t with
  | nil => rfl
  | cons s secrets ih =>
      rw [traceEach, redactEach]
      cases encodeSecret s with
      | error e => rfl
      | ok needle =>
          change (traceEach (traceOne t needle) secrets).map _ =
            redactEach (redactOne _ needle) secrets
          rw [ih, map_traceOne]

/-- Without the origins it is `_redact_body_bytes`. -/
theorem map_traceBodyBytes (data : Bytes) (secretValues : List PyStr) :
    (traceBodyBytes data secretValues).map (List.map Prod.fst) =
      redactBodyBytes data secretValues := by
  unfold traceBodyBytes redactBodyBytes
  split
  · exact congrArg Except.ok (map_fst_track data)
  · rw [map_traceEach, map_fst_track]

/-! ## The loop cuts the secrets out in turn -/

/-- What is looked for, in the order of the turns. -/
def needles (secretValues : List PyStr) : List Bytes :=
  (longestFirst secretValues).filterMap encodeUtf8

theorem mem_needles {secretValues : List PyStr} {w : Bytes} :
    w ∈ needles secretValues ↔ ∃ s ∈ secretValues, s ≠ [] ∧ encodeUtf8 s = some w := by
  simp [needles, mem_longestFirst, and_assoc]

theorem needles_ne_nil {secretValues : List PyStr} :
    ∀ w ∈ needles secretValues, w ≠ [] := by
  intro w hw
  obtain ⟨s, -, hne, hs⟩ := mem_needles.mp hw
  exact encodeUtf8_ne_nil hs hne

theorem traceEach_eq {t t' : Traced} {secrets : List PyStr} (h : traceEach t secrets = .ok t') :
    t' = (secrets.filterMap encodeUtf8).foldl traceOne t := by
  induction secrets generalizing t with
  | nil =>
      cases h
      rfl
  | cons s secrets ih =>
      obtain ⟨needle, hneedle, hrest⟩ := except_bind_eq_ok.mp h
      rw [List.filterMap_cons, encodeSecret_eq_ok.mp hneedle]
      exact ih hrest

theorem traceOne_eq {needle : Bytes} (hneedle : needle ≠ []) (t : Traced) :
    traceOne t needle = replaceOn Prod.fst needle (untracked mask) t := by
  unfold traceOne
  split
  · rfl
  · rename_i hno
    exact (replaceOn_of_absent _ fun hoccurs => hno ⟨hneedle, hoccurs⟩).symm

/-- The body with the secrets of `ws` cut out in turn. -/
def carved (data : Bytes) (ws : List Bytes) : List (Piece UInt8) :=
  carveEach (data.map .kept) ws

/-- No secret is cut out of a mask: at its turn, in the body with a mask for every occurrence
taken before it, what is replaced is bytes of the body. -/
def MaskUnread (data : Bytes) (ws : List Bytes) : Prop :=
  ∀ k w, ws[k]? = some w → Unread w (shown mask 0 (carved data (ws.take k)))

/-- At some turn of the loop, what it replaces has a byte of a mask. -/
def CutsMask (data : Bytes) (secretValues : List PyStr) : Prop :=
  ∃ k w, (needles secretValues)[k]? = some w ∧
    ∃ m ∈ matchesOn Prod.fst w (((needles secretValues).take k).foldl traceOne (track data)),
      ∃ e ∈ m, e.2 = none

theorem mask_ne_nil : mask ≠ [] := by
  decide

theorem carveEach_concat (l : List (Piece UInt8)) (ws : List Bytes) (w : Bytes) :
    carveEach l (ws ++ [w]) = carve w (carveEach l ws) := by
  induction ws generalizing l with
  | nil => rfl
  | cons v ws ih => exact ih (carve v l)

/-- Turns that read no mask show what they cut out. -/
theorem foldl_traceOne {data : Bytes} {ws : List Bytes} (hws : ∀ w ∈ ws, w ≠ [])
    (h : ∀ k w, ws[k]? = some w → Unread w (shown mask 0 (carved data (ws.take k)))) :
    ws.foldl traceOne (track data) = shown mask 0 (carved data ws) := by
  induction ws using List.reverseRecOn with
  | nil => exact (shown_map_kept mask 0 data).symm
  | append_singleton ws w ih =>
      have hw := hws w (by simp)
      have hbefore := ih (fun v hv => hws v (List.mem_append_left _ hv)) fun k v hv => by
        obtain ⟨hk, -⟩ := List.getElem?_eq_some_iff.mp hv
        have hturn := h k v (by rwa [List.getElem?_append_left hk])
        rwa [List.take_append_of_le_length hk.le] at hturn
      have hturn := h ws.length w (by simp)
      rw [List.take_left] at hturn
      rw [List.foldl_append, hbefore, List.foldl_cons, List.foldl_nil, traceOne_eq hw,
        replaceOn_shown hw mask_ne_nil hturn, carved, carved, carveEach_concat]

/-- The text a turn searches, as long as no turn before it has read a mask. -/
theorem foldl_take {data : Bytes} {secretValues : List PyStr} {k : Nat}
    (h : ∀ j w, j < k → (needles secretValues)[j]? = some w →
      Unread w (shown mask 0 (carved data ((needles secretValues).take j)))) :
    ((needles secretValues).take k).foldl traceOne (track data) =
      shown mask 0 (carved data ((needles secretValues).take k)) := by
  refine foldl_traceOne (fun w hw => needles_ne_nil w (List.mem_of_mem_take hw)) fun j w hw => ?_
  rw [List.getElem?_take] at hw
  split at hw
  · rename_i hj
    rw [List.take_take, Nat.min_eq_left hj.le]
    exact h j w hj hw
  · cases hw

/-- The loop cuts a secret out of a mask exactly if cutting the secrets out of the body comes
to that. -/
theorem maskUnread_iff (data : Bytes) (secretValues : List PyStr) :
    MaskUnread data (needles secretValues) ↔ ¬CutsMask data secretValues := by
  constructor
  · rintro h ⟨k, w, hw, m, hm, e, he, hnone⟩
    rw [foldl_take fun j v _ hv => h j v hv] at hm
    have hsome := h k w hw m hm e he
    rw [hnone] at hsome
    cases hsome
  · intro h k
    -- the first turn that read a mask would find it in the text of the loop
    induction k using Nat.strong_induction_on with
    | h k ih =>
        intro w hw m hm e he
        by_contra hnone
        rw [Bool.not_eq_true, Option.isSome_eq_false_iff, Option.isNone_iff_eq_none] at hnone
        rw [← foldl_take fun j v hj hv => ih j hj v hv] at hm
        exact h ⟨k, w, hw, m, hm, e, he, hnone⟩

/-- **The loop** masks what is cut out in turn, and copies the rest through. -/
theorem traceBodyBytes_eq {data : Bytes} {secretValues : List PyStr} {t : Traced}
    (hmask : MaskUnread data (needles secretValues))
    (h : traceBodyBytes data secretValues = .ok t) :
    t = shown mask 0 (carved data (needles secretValues)) := by
  rw [← foldl_traceOne needles_ne_nil hmask]
  unfold traceBodyBytes at h
  split at h
  · rename_i hnone
    cases h
    rw [hnone]
    rfl
  · exact traceEach_eq h

/-- The places that are copied through are those that are not cut out. -/
theorem copied_iff {data : Bytes} {secretValues : List PyStr} {t : Traced}
    (hmask : MaskUnread data (needles secretValues))
    (h : traceBodyBytes data secretValues = .ok t) (b : UInt8) (j : Nat) :
    (b, some j) ∈ t ↔ (punchEach (data.map some) (needles secretValues))[j]? = some (some b) := by
  have hdata : (data.map Piece.kept).flatMap Piece.holes = data.map some := by
    rw [List.flatMap_map]
    exact List.flatMap_pure_eq_map some data
  rw [traceBodyBytes_eq hmask h, mem_shown_iff, carved, holes_carveEach needles_ne_nil, hdata]
  simp

/-! ## Fragments -/

/-- No byte that is copied through lies inside an occurrence of a secret in the body. -/
def NoFragments (data : Bytes) (secretValues : List PyStr) (t : Traced) : Prop :=
  ∀ b j, (b, some j) ∈ t → ∀ s ∈ secretValues, s ≠ [] → ∀ w, encodeUtf8 s = some w →
    ∀ i, w <+: data.drop i → ¬(i ≤ j ∧ j < i + w.length)

theorem noFragments_iff {data : Bytes} {secretValues : List PyStr} {t : Traced}
    (hmask : MaskUnread data (needles secretValues))
    (h : traceBodyBytes data secretValues = .ok t) :
    NoFragments data secretValues t ↔ TakenCover (needles secretValues) data := by
  have hcopied := copied_iff hmask h
  rw [takenCover_iff needles_ne_nil]
  constructor
  · rintro hclean ⟨k, i⟩ j ⟨w, hw, hoccurs⟩ hj
    rw [Covers, width_of_getElem? hw] at hj
    obtain ⟨s, hs, hne, hform⟩ := mem_needles.mp (List.mem_of_getElem? hw)
    have hlen := hoccurs.length_le
    rw [List.length_drop] at hlen
    have hjlen : j < (punchEach (data.map some) (needles secretValues)).length := by
      rw [length_punchEach needles_ne_nil, List.length_map]
      omega
    rw [List.getElem?_eq_getElem hjlen, Option.some.injEq]
    cases hb : (punchEach (data.map some) (needles secretValues))[j] with
    | none => rfl
    | some b =>
        have hmem := (hcopied b j).mpr (by rw [List.getElem?_eq_getElem hjlen, hb])
        exact absurd hj (hclean b j hmem s hs hne w hform i hoccurs)
  · intro hholes b j hmem s hs hne w hform i hoccurs hj
    obtain ⟨k, hk⟩ := List.mem_iff_getElem?.mp (mem_needles.mpr ⟨s, hs, hne, hform⟩)
    have hhole := hholes (k, i) j ⟨w, hk, hoccurs⟩ (by rwa [Covers, width_of_getElem? hk])
    rw [(hcopied b j).mp hmem] at hhole
    cases hhole

/-- No secret has the mask's character. -/
theorem maskUnread_of_notMem {secretValues : List PyStr} (data : Bytes)
    (h : ∀ s ∈ secretValues, maskChar ∉ s) : MaskUnread data (needles secretValues) := by
  intro k w hw
  obtain ⟨s, hs, hne, hform⟩ := mem_needles.mp (List.mem_of_getElem? hw)
  have hwne := encodeUtf8_ne_nil hform hne
  exact (apart_mask hform hwne (h s hs)).unread hwne 0 _

/-! ## Secrets within secrets -/

/-- A text's form at the front of another's is that of its front. -/
theorem encodeUtf8_append_inv {s t : PyStr} {w v : Bytes} (hs : encodeUtf8 s = some w)
    (ht : encodeUtf8 t = some (w ++ v)) : ∃ r, t = s ++ r ∧ encodeUtf8 r = some v := by
  induction s generalizing t w with
  | nil =>
      cases hs
      exact ⟨t, rfl, ht⟩
  | cons c s ih =>
      obtain ⟨b, rest, hb, hrest, rfl⟩ := encodeUtf8_cons hs
      cases t with
      | nil =>
          have hempty : b = [] := by
            simp only [encodeUtf8, Option.some.injEq, List.append_assoc] at ht
            exact (List.append_eq_nil_iff.mp ht.symm).1
          exact absurd hempty (encodeChar_ne_nil hb)
      | cons c' t =>
          obtain ⟨b', rest', hb', hrest', hform⟩ := encodeUtf8_cons ht
          rw [List.append_assoc] at hform
          have hsame : c = c' := eq_of_encodeChar_append hb hb' hform
          subst hsame
          rw [hb] at hb'
          cases hb'
          rw [← List.append_cancel_left hform] at hrest'
          obtain ⟨r, rfl, hr⟩ := ih hrest hrest'
          exact ⟨r, rfl, hr⟩

/-- A secret whose form lies within another's is shorter, or it is the other. -/
theorem length_of_form_within {s t : PyStr} {w u v : Bytes} (hs : encodeUtf8 s = some w)
    (hw : w ≠ []) (ht : encodeUtf8 t = some (u ++ w ++ v)) (hlen : t.length ≤ s.length) :
    u = [] ∧ v = [] := by
  obtain ⟨b₀, w, rfl⟩ := List.exists_cons_of_ne_nil hw
  rw [List.append_assoc, List.cons_append] at ht
  obtain ⟨t₁, t₂, rfl, ht₁, ht₂⟩ := encodeUtf8_boundary ht (encodeUtf8_head hs)
  rw [← List.cons_append] at ht₂
  obtain ⟨r, rfl, hr⟩ := encodeUtf8_append_inv hs ht₂
  simp only [List.length_append] at hlen
  have ht₁nil : t₁ = [] := List.eq_nil_of_length_eq_zero (by omega)
  have hrnil : r = [] := List.eq_nil_of_length_eq_zero (by omega)
  subst ht₁nil hrnil
  cases ht₁
  cases hr
  exact ⟨rfl, rfl⟩

/-- The turns are in the order of the secrets' lengths, the longest first. -/
theorem needles_pairwise (secretValues : List PyStr) :
    (needles secretValues).Pairwise fun w v =>
      ∀ s t, encodeUtf8 s = some w → encodeUtf8 t = some v → t.length ≤ s.length := by
  have hsorted : (longestFirst secretValues).Pairwise fun s t => t.length ≤ s.length := by
    have htotal : Std.Total fun s t : PyStr => t.length ≤ s.length :=
      ⟨fun s t => Nat.le_total t.length s.length⟩
    have htrans : IsTrans PyStr fun s t => t.length ≤ s.length :=
      ⟨fun _ _ _ hst htr => Nat.le_trans htr hst⟩
    exact List.pairwise_insertionSort _ _
  refine List.pairwise_filterMap.mpr (hsorted.imp ?_)
  intro s t hle w hw v hv s' t' hs' ht'
  have hs : s' = s := by
    rw [← Option.some.injEq, ← decodeUtf8_encodeUtf8 hs', decodeUtf8_encodeUtf8 hw]
  have ht : t' = t := by
    rw [← Option.some.injEq, ← decodeUtf8_encodeUtf8 ht', decodeUtf8_encodeUtf8 hv]
  rwa [hs, ht]

/-- No secret is masked before one that it lies within. -/
theorem covers_of_before_within {data : Bytes} {secretValues : List PyStr} {p o : Nat × Nat}
    (hp : Occurs (needles secretValues) data p) (ho : Occurs (needles secretValues) data o)
    (hbefore : Before p o)
    (hwithin : ∀ j, Covers (needles secretValues) p j → Covers (needles secretValues) o j) :
    ∀ j, Covers (needles secretValues) o j → Covers (needles secretValues) p j := by
  obtain ⟨w, hw, hwoccurs⟩ := hp
  obtain ⟨v, hv, hvoccurs⟩ := ho
  have hwne := needles_ne_nil w (List.mem_of_getElem? hw)
  have hwpos := List.length_pos_of_ne_nil hwne
  simp only [Covers, width_of_getElem? hw, width_of_getElem? hv] at hwithin ⊢
  have hleft := hwithin p.2 ⟨Nat.le_refl _, by omega⟩
  have hright := hwithin (p.2 + w.length - 1) ⟨by omega, by omega⟩
  obtain ⟨a, b, rfl, ha⟩ := exists_of_occurs_within hwoccurs hvoccurs hleft.1 (by omega)
  have hsame : a = [] ∧ b = [] := by
    rcases before_iff.mp hbefore with hturn | ⟨hturn, hplace⟩
    · obtain ⟨s, -, -, hs⟩ := mem_needles.mp (List.mem_of_getElem? hw)
      obtain ⟨t, -, -, ht⟩ := mem_needles.mp (List.mem_of_getElem? hv)
      obtain ⟨hk, rfl⟩ := List.getElem?_eq_some_iff.mp hw
      obtain ⟨hk', hv⟩ := List.getElem?_eq_some_iff.mp hv
      have hlen := List.pairwise_iff_getElem.mp (needles_pairwise secretValues) _ _ hk hk' hturn
        s t hs (hv ▸ ht)
      exact length_of_form_within hs hwne ht hlen
    · omega
  obtain ⟨rfl, rfl⟩ := hsame
  intro j hj
  simp only [List.length_append, List.length_nil] at ha hj
  omega

/-- **The longest secret first**: where of two occurrences that overlap one always lies within
the other, those masked in turn cover all. -/
theorem takenCover_of_within {data : Bytes} {secretValues : List PyStr}
    (hwithin : ∀ p o, Occurs (needles secretValues) data p → Occurs (needles secretValues) data o →
      Overlap (needles secretValues) p o →
        (∀ j, Covers (needles secretValues) p j → Covers (needles secretValues) o j) ∨
          ∀ j, Covers (needles secretValues) o j → Covers (needles secretValues) p j) :
    TakenCover (needles secretValues) data :=
  takenCover_of_nested needles_ne_nil hwithin fun _ _ => covers_of_before_within

/-! ## What redaction leaves -/

/-- **What redaction leaves.** Unless the loop cuts a secret out of a mask, no byte copied
through lies inside an occurrence of a secret in the body exactly if the occurrences masked
in turn cover all of them; and whether it does is a question about the body and the
secrets, too. -/
theorem fragments_masked_iff {data out : Bytes} {secretValues : List PyStr}
    (hout : redactBodyBytes data secretValues = .ok out) :
    ∃ t, traceBodyBytes data secretValues = .ok t ∧ t.map Prod.fst = out ∧
      (MaskUnread data (needles secretValues) →
        (NoFragments data secretValues t ↔ TakenCover (needles secretValues) data)) ∧
      (MaskUnread data (needles secretValues) ↔ ¬CutsMask data secretValues) := by
  have herase := map_traceBodyBytes data secretValues
  rw [hout] at herase
  cases ht : traceBodyBytes data secretValues with
  | error e =>
      rw [ht] at herase
      cases herase
  | ok t =>
      rw [ht] at herase
      cases herase
      exact ⟨t, rfl, rfl, fun hmask => noFragments_iff hmask ht, maskUnread_iff data secretValues⟩

/-- Of `abc` nothing is left, where `abc` is a secret and so is a text with the mask's
character. -/
theorem fragments_masked_iff_bullet :
    ∃ t, traceBodyBytes [0x61, 0x62, 0x63] [py "abc", [maskChar, 0x78]] = .ok t ∧
      t.map Prod.fst = mask ∧ NoFragments [0x61, 0x62, 0x63] [py "abc", [maskChar, 0x78]] t := by
  have hneedles : needles [py "abc", [maskChar, 0x78]] =
      [[0x61, 0x62, 0x63], [0xE2, 0x80, 0xA2, 0x78]] := by decide +kernel
  have hmasked : redactBodyBytes [0x61, 0x62, 0x63] [py "abc", [maskChar, 0x78]] = .ok mask := by
    rfl
  obtain ⟨t, htrace, hout, hiff, -⟩ := fragments_masked_iff hmasked
  rw [hneedles] at hiff
  refine ⟨t, htrace, hout, (hiff ?_).mpr ?_⟩
  · intro k w hw
    rcases k with _ | _ | k
    · cases hw
      decide +kernel
    · cases hw
      decide +kernel
    · cases hw
  · -- there is one occurrence, that of the first secret
    rw [← hneedles]
    refine takenCover_of_within fun p o hp ho _ => .inl ?_
    have hfirst : ∀ q, Occurs (needles [py "abc", [maskChar, 0x78]]) [0x61, 0x62, 0x63] q →
        q = (0, 0) := by
      rintro ⟨k, i⟩ ⟨w, hw, hoccurs⟩
      rw [hneedles] at hw
      have hlen := hoccurs.length_le
      rw [List.length_drop] at hlen
      rcases k with _ | _ | k
      · cases hw
        simp only [List.length_cons, List.length_nil] at hlen
        obtain rfl : i = 0 := by omega
        rfl
      · cases hw
        simp only [List.length_cons, List.length_nil] at hlen
        omega
      · cases hw
    rw [hfirst p hp, hfirst o ho]
    exact fun j h => h

/-- Of `abcd` the `d` is left, where `abc` and `bcd` are the secrets. -/
theorem overlapped_secret_left :
    ∃ t, traceBodyBytes [0x61, 0x62, 0x63, 0x64] [py "abc", py "bcd"] = .ok t ∧
      t.map Prod.fst = mask ++ [0x64] ∧
      ¬NoFragments [0x61, 0x62, 0x63, 0x64] [py "abc", py "bcd"] t := by
  refine ⟨untracked mask ++ [(0x64, some 3)], by rfl, by rfl, fun hclean => ?_⟩
  exact hclean 0x64 3 (by simp) (py "bcd") (by simp) (by decide) [0x62, 0x63, 0x64] (by rfl) 1
    (by decide) (by decide)

end ProbeAgent
