import ProbeAgent.Platform
import ProbeAgent.Substitution
import Mathlib.Data.List.Sort

/-!
# Secrets in stored bodies (`_redact_body_bytes`, `_upload_bodies`)

Each secret of a run is replaced by the mask in the bytes of a body, one secret after
another, and only then is the body handed to the storage backend.  No occurrence of a
secret overlaps a mask unless the secret itself has the mask's character, since UTF-8
shows where a character begins; so no replacement puts a secret together again
(`handed_bodies_redacted`).
-/

namespace ProbeAgent

open PyText Substitution Effects

/-! ## The forms of texts keep apart -/

/-- The form of a text keeps apart from that of a character the text does not have. -/
theorem apart_of_not_mem {s : PyStr} {c : CodePoint} {w b : Bytes}
    (hs : encodeUtf8 s = some w) (hw : w ≠ []) (hc : encodeChar c = some b) (hcs : c ∉ s) :
    Apart w b := by
  intro x y p q h
  rw [List.append_assoc, List.append_assoc] at h
  by_contra hoverlap
  rw [not_or, Nat.not_le, Nat.not_le] at hoverlap
  obtain ⟨hb, hx⟩ := hoverlap
  rcases Nat.lt_or_ge x.length p.length with hlt | hge
  · -- the text would begin inside the character
    obtain ⟨d, rfl, hd⟩ := exists_of_append_eq h hlt.le
    simp only [List.length_append] at hlt hb
    obtain ⟨e, rfl, he⟩ := exists_of_append_eq hd.symm (by omega)
    cases d with
    | nil => simp at hlt
    | cons b₀ d =>
        cases e with
        | nil => simp at hb
        | cons e₀ e =>
            obtain ⟨w₀, w, rfl⟩ := List.exists_cons_of_ne_nil hw
            rw [List.cons_append, List.cons_append, List.cons.injEq] at he
            obtain ⟨rfl, -⟩ := he
            exact (encodeChar_continues hc).2 w₀ (by simp) (encodeUtf8_head hs)
  · -- the character would begin inside the text
    obtain ⟨d, rfl, hd⟩ := exists_of_append_eq h.symm hge
    simp only [List.length_append] at hx
    obtain ⟨e, rfl, he⟩ := exists_of_append_eq hd.symm (by omega)
    obtain ⟨b₀, b, rfl⟩ := List.exists_cons_of_ne_nil (encodeChar_ne_nil hc)
    cases e with
    | nil => simp at hx
    | cons e₀ e =>
        rw [List.cons_append, List.cons_append, List.cons.injEq] at he
        obtain ⟨rfl, he⟩ := he
        obtain ⟨s₁, s₂, rfl, -, hs₂⟩ := encodeUtf8_boundary hs (encodeChar_continues hc).1
        cases s₂ with
        | nil => cases hs₂
        | cons c' s₂ =>
            obtain ⟨b', rest, hb', -, hform⟩ := encodeUtf8_cons hs₂
            have hfront : b' ++ (rest ++ q) = (b₀ :: b) ++ y := by
              rw [← List.append_assoc, ← hform, List.cons_append, List.cons_append, he]
            have hcc' : c' = c := eq_of_encodeChar_append hb' hc hfront
            exact hcs (by simp [hcc'])

/-! ## The mask -/

/-- The character the mask is made of, U+2022. -/
def maskChar : CodePoint := 0x2022

/-- `_MASK`. -/
def maskToken : PyStr := List.replicate 6 maskChar

def maskCharForm : Bytes := [0xE2, 0x80, 0xA2]

/-- `_MASK.encode("utf-8")`. -/
def mask : Bytes := (List.replicate 6 maskCharForm).flatten

theorem encodeChar_maskChar : encodeChar maskChar = some maskCharForm := by
  decide

theorem encodeUtf8_maskToken : encodeUtf8 maskToken = some mask := by
  decide

/-- A secret that does not have the mask's character keeps apart from the mask. -/
theorem apart_mask {s : PyStr} {w : Bytes} (hs : encodeUtf8 s = some w) (hw : w ≠ [])
    (hmask : maskChar ∉ s) : Apart w mask :=
  (apart_of_not_mem hs hw encodeChar_maskChar hmask).flatten_replicate hw 5

/-! ## `_redact_body_bytes` -/

/-- `sorted((s for s in secret_values if s), key=len, reverse=True)`. -/
def longestFirst (secretValues : List PyStr) : List PyStr :=
  (secretValues.filter fun s => !s.isEmpty).insertionSort fun s t => t.length ≤ s.length

/-- `secret.encode("utf-8")`. -/
def encodeSecret (s : PyStr) : Except PyExc Bytes :=
  match encodeUtf8 s with
  | some needle => .ok needle
  | none => .error .unicodeEncodeError

/-- One secret's turn. -/
def redactOne (data needle : Bytes) : Bytes :=
  if needle ≠ [] ∧ needle <:+: data then replace needle mask data else data

/-- The loop over the secrets. -/
def redactEach (data : Bytes) : List PyStr → Except PyExc Bytes
  | [] => .ok data
  | s :: secrets => do
      let needle ← encodeSecret s
      redactEach (redactOne data needle) secrets

/-- `_redact_body_bytes`. -/
def redactBodyBytes (data : Bytes) (secretValues : List PyStr) : Except PyExc Bytes :=
  if secretValues = [] then .ok data else redactEach data (longestFirst secretValues)

theorem mem_longestFirst {secretValues : List PyStr} {s : PyStr} :
    s ∈ longestFirst secretValues ↔ s ∈ secretValues ∧ s ≠ [] := by
  rw [longestFirst, List.mem_insertionSort, List.mem_filter]
  simp

theorem encodeSecret_eq_ok {s : PyStr} {w : Bytes} :
    encodeSecret s = .ok w ↔ encodeUtf8 s = some w := by
  unfold encodeSecret
  cases encodeUtf8 s <;> simp

theorem encodeUtf8_ne_nil {s : PyStr} {w : Bytes} (h : encodeUtf8 s = some w) (hs : s ≠ []) :
    w ≠ [] := by
  obtain ⟨c, s, rfl⟩ := List.exists_cons_of_ne_nil hs
  obtain ⟨b, rest, hb, -, rfl⟩ := encodeUtf8_cons h
  simp [encodeChar_ne_nil hb]

section Redact

variable {data : Bytes} {needle w : Bytes}

/-- A turn brings in no occurrence of a secret without the mask's character. -/
theorem not_infix_redactOne (hw : Apart w mask) (h : ¬w <:+: data) :
    ¬w <:+: redactOne data needle := by
  unfold redactOne
  split
  · rename_i hneedle
    exact not_infix_replace hneedle.1 hw h
  · exact h

/-- Its own turn leaves none. -/
theorem not_infix_redactOne_self (hneedle : needle ≠ []) (hmask : Apart needle mask) :
    ¬needle <:+: redactOne data needle := by
  unfold redactOne
  split
  · exact not_infix_replace_self hneedle hmask data
  · rename_i hno
    exact fun hoccurs => hno ⟨hneedle, hoccurs⟩

/-- The turns of other secrets bring in none. -/
theorem not_infix_redactEach (hw : Apart w mask) {secrets : List PyStr} {out : Bytes}
    (h : ¬w <:+: data) (hout : redactEach data secrets = .ok out) : ¬w <:+: out := by
  induction secrets generalizing data with
  | nil =>
      cases hout
      exact h
  | cons s secrets ih =>
      obtain ⟨needle, -, hrest⟩ := except_bind_eq_ok.mp hout
      exact ih (not_infix_redactOne hw h) hrest

/-- Every secret of the list has had its turn. -/
theorem redacted_of_redactEach {secrets : List PyStr} {s : PyStr} {out : Bytes}
    (hmem : s ∈ secrets) (hs : encodeUtf8 s = some w) (hw : w ≠ []) (hmask : Apart w mask)
    (hout : redactEach data secrets = .ok out) : ¬w <:+: out := by
  induction secrets generalizing data with
  | nil => cases hmem
  | cons t secrets ih =>
      obtain ⟨needle, hneedle, hrest⟩ := except_bind_eq_ok.mp hout
      rcases List.mem_cons.mp hmem with rfl | hmem
      · have hsame : needle = w := by
          rw [encodeSecret_eq_ok, hs] at hneedle
          exact (Option.some.inj hneedle).symm
        subst hsame
        exact not_infix_redactEach hmask (not_infix_redactOne_self hw hmask) hrest
      · exact ih hmem hrest

end Redact

/-- No secret of the list, unless it has the mask's character, occurs in the bytes. -/
def Redacted (secretValues : List PyStr) (data : Bytes) : Prop :=
  ∀ s ∈ secretValues, s ≠ [] → maskChar ∉ s → ∀ w, encodeUtf8 s = some w → ¬w <:+: data

/-- `_redact_body_bytes` redacts. -/
theorem redacted_redactBodyBytes {data out : Bytes} {secretValues : List PyStr}
    (h : redactBodyBytes data secretValues = .ok out) : Redacted secretValues out := by
  intro s hmem hne hmask w hs
  have hnonempty : secretValues ≠ [] := List.ne_nil_of_mem hmem
  rw [redactBodyBytes, if_neg hnonempty] at h
  have hw := encodeUtf8_ne_nil hs hne
  exact redacted_of_redactEach (mem_longestFirst.mpr ⟨hmem, hne⟩) hs hw
    (apart_mask hs hw hmask) h

/-! ## `_upload_bodies` -/

/-- The files, and what the storage backend was handed: the key and the file's bytes at
that moment. -/
structure Bodies where
  disk : Disk
  handed : List (PyStr × Bytes)

/-- The bytes of a file that exists. -/
def Bodies.read (b : Bodies) (path : Path) : Bytes :=
  (b.disk path).getD []

inductive BodyOp
  /-- `local.write_bytes(redacted)`. -/
  | write (path : Path) (data : Bytes)
  /-- `_storage.upload(local, key)`. -/
  | upload (path : Path) (key : PyStr)

def BodyOp.apply (b : Bodies) : BodyOp → Bodies
  | write path data => { b with disk := fun p => if p = path then some data else b.disk p }
  | upload path key => { b with handed := b.handed ++ [(key, b.read path)] }

instance : Effect BodyOp Bodies where
  apply := BodyOp.apply

/-- What the system and the storage backend answer. -/
structure BodyIO where
  /-- `local.read_bytes` of a file that exists: its failure. -/
  readBytes : Path → Except PyExc Unit
  /-- `local.write_bytes`. -/
  writeBytes : Path → Except PyExc Unit
  /-- `local.name`. -/
  name : Path → PyStr
  /-- The reference `_storage.upload` returns. -/
  upload : PyStr → Bytes → Except PyExc PyStr

abbrev BodyProg := Prog BodyOp Bodies PyExc

section Upload

variable (io : BodyIO) (runPrefix : PyStr) (secretValues : List PyStr)

/-- Mask the secrets in a body's file. -/
def maskFile (path : Path) : BodyProg PUnit := do
  if secretValues = [] then
    pure ⟨⟩
  else
    Prog.ofExcept (io.readBytes path)
    let original ← Prog.look fun b => b.read path
    let redacted ← Prog.ofExcept (redactBodyBytes original secretValues)
    if redacted = original then
      pure ⟨⟩
    else
      Prog.ofExcept (io.writeBytes path)
      Prog.perform (.write path redacted)

/-- Hand a body's file to the storage backend. -/
def handOver (path : Path) : BodyProg PyStr := do
  let key := runPrefix ++ py "/" ++ io.name path
  Prog.perform (.upload path key)
  let content ← Prog.look fun b => b.read path
  Prog.ofExcept (io.upload key content)

/-- One turn of the loop over the calls. -/
def uploadBody (call : Json) : BodyProg Json := do
  let response ← Prog.ofExcept (call.get (py "response"))
  match response with
  | .null => pure call
  | _ =>
      let bodyPath ← Prog.ofExcept (response.get (py "bodyPath"))
      match bodyPath with
      | .null => pure call
      | .str path =>
          let exists_ ← Prog.look fun b => (b.disk path).isSome
          if exists_ then
            maskFile io secretValues path
            let ref ← handOver io runPrefix path
            pure (call.setField (py "response") (response.setField (py "bodyPath") (.str ref)))
          else pure call
      | _ =>
          Prog.raise (.typeError "argument should be a str or an os.PathLike object")

def uploadEach : List Json → BodyProg (List Json)
  | [] => pure []
  | call :: calls => do
      let call ← uploadBody io runPrefix secretValues call
      let calls ← uploadEach calls
      pure (call :: calls)

/-- `_upload_bodies`: the result with its paths rewritten. -/
def uploadBodies (result : Json) : BodyProg Json := do
  let calls ← Prog.ofExcept (result.getD (py "calls") (.arr []))
  let items ← Prog.ofExcept calls.iter
  let items ← uploadEach io runPrefix secretValues items
  match calls with
  | .arr _ => pure (result.setField (py "calls") (.arr items))
  | _ => pure result

/-- Everything handed to the storage backend is redacted. -/
def Bodies.Safe (b : Bodies) : Prop :=
  ∀ entry ∈ b.handed, Redacted secretValues entry.2

/-- A file that has been through the masking is redacted. -/
theorem maskFile_spec (path : Path) :
    Prog.Triple (Bodies.Safe secretValues) (maskFile io secretValues path)
      (fun _ b => b.Safe secretValues ∧ Redacted secretValues (b.read path))
      (Bodies.Safe secretValues) := by
  unfold maskFile
  split
  · rename_i hnone
    refine .pure fun b hb => ⟨hb, ?_⟩
    rw [hnone]
    exact fun s hs => absurd hs List.not_mem_nil
  · refine Prog.Triple.bind (.ofExcept (fun _ b _ hb => hb) fun b hb => hb) fun _ => ?_
    refine Prog.Triple.bind (Q := fun original b => b.Safe secretValues ∧ b.read path = original)
      (.look fun b hb => ⟨hb, rfl⟩) fun original => ?_
    refine Prog.Triple.bind
      (Q := fun redacted b => (b.Safe secretValues ∧ b.read path = original) ∧
        redactBodyBytes original secretValues = .ok redacted)
      (.ofExcept (fun redacted b hredacted hb => ⟨hb, hredacted⟩) fun b hb => hb.1)
      fun redacted => ?_
    split
    · rename_i hsame
      refine .pure fun b hb => ⟨hb.1.1, ?_⟩
      rw [hb.1.2, ← hsame]
      exact redacted_redactBodyBytes hb.2
    · refine Prog.Triple.bind (.ofExcept (fun _ b _ hb => hb) fun b hb => hb.1.1) fun _ => ?_
      refine .perform fun b hb => ⟨hb.1.1, ?_⟩
      have hread : (BodyOp.apply b (.write path redacted)).read path = redacted := by
        simp [BodyOp.apply, Bodies.read]
      change Redacted secretValues ((BodyOp.apply b (.write path redacted)).read path)
      rw [hread]
      exact redacted_redactBodyBytes hb.2

theorem handOver_spec (path : Path) :
    Prog.Triple (fun b => b.Safe secretValues ∧ Redacted secretValues (b.read path))
      (handOver io runPrefix path)
      (fun _ b => b.Safe secretValues) (Bodies.Safe secretValues) := by
  unfold handOver
  refine Prog.Triple.bind (Q := fun _ => Bodies.Safe secretValues) (.perform ?_) fun _ => ?_
  · rintro b ⟨hsafe, hpath⟩ entry hentry
    rcases List.mem_append.mp hentry with hbefore | hnow
    · exact hsafe entry hbefore
    · rw [List.mem_singleton.mp hnow]
      exact hpath
  · refine Prog.Triple.bind (Q := fun _ => Bodies.Safe secretValues) (.look fun b hb => hb)
      fun content => ?_
    exact .ofExcept (fun _ b _ hb => hb) fun b hb => hb

/-- A turn of the loop hands over nothing that is not redacted. -/
theorem uploadBody_spec (call : Json) :
    Prog.Triple (Bodies.Safe secretValues) (uploadBody io runPrefix secretValues call)
      (fun _ => Bodies.Safe secretValues) (Bodies.Safe secretValues) := by
  unfold uploadBody
  refine Prog.Triple.bind (.ofExcept (fun _ b _ hb => hb) fun b hb => hb) fun response => ?_
  split
  · exact .pure fun b hb => hb
  · refine Prog.Triple.bind (.ofExcept (fun _ b _ hb => hb) fun b hb => hb) fun bodyPath => ?_
    split
    · exact .pure fun b hb => hb
    · refine Prog.Triple.bind (Q := fun _ => Bodies.Safe secretValues) (.look fun b hb => hb)
        fun found => ?_
      split
      · refine Prog.Triple.bind (maskFile_spec io secretValues _) fun _ => ?_
        refine Prog.Triple.bind (handOver_spec io runPrefix secretValues _) fun ref => ?_
        exact .pure fun b hb => hb
      · exact .pure fun b hb => hb
    · exact .raise fun b hb => hb

theorem uploadEach_spec (calls : List Json) :
    Prog.Triple (Bodies.Safe secretValues) (uploadEach io runPrefix secretValues calls)
      (fun _ => Bodies.Safe secretValues) (Bodies.Safe secretValues) := by
  induction calls with
  | nil => exact .pure fun b hb => hb
  | cons call calls ih =>
      refine Prog.Triple.bind (uploadBody_spec io runPrefix secretValues call) fun call => ?_
      refine Prog.Triple.bind ih fun calls => ?_
      exact .pure fun b hb => hb

theorem uploadBodies_spec (result : Json) :
    Prog.Triple (Bodies.Safe secretValues) (uploadBodies io runPrefix secretValues result)
      (fun _ => Bodies.Safe secretValues) (Bodies.Safe secretValues) := by
  unfold uploadBodies
  refine Prog.Triple.bind (.ofExcept (fun _ b _ hb => hb) fun b hb => hb) fun calls => ?_
  refine Prog.Triple.bind (.ofExcept (fun _ b _ hb => hb) fun b hb => hb) fun items => ?_
  refine Prog.Triple.bind (uploadEach_spec io runPrefix secretValues items) fun items => ?_
  split
  · exact .pure fun b hb => hb
  · exact .pure fun b hb => hb

/-- **No secret in a stored body.** Whatever the result, the files and the secrets are,
and however the system and the backend answer: no file handed to the storage backend has
an occurrence of the form of a secret, unless that secret has the mask's character. -/
theorem handed_bodies_redacted (result : Json) (disk : Disk) :
    ∀ entry ∈ (after (⟨disk, []⟩ : Bodies)
        ((uploadBodies io runPrefix secretValues result).effects ⟨disk, []⟩)).handed,
      ∀ s ∈ secretValues, s ≠ [] → maskChar ∉ s →
        ∀ w, encodeUtf8 s = some w → ¬w <:+: entry.2 :=
  Prog.Triple.final (uploadBodies_spec io runPrefix secretValues result)
    (fun _ hentry => absurd hentry List.not_mem_nil)

end Upload

section Sample

def sampleIO : BodyIO where
  readBytes _ := .ok ()
  writeBytes _ := .ok ()
  name path := path
  upload key _ := .ok (py "file:///data/bodies/" ++ key)

/-- A call whose response is in this file. -/
def sampleEchoCall (bodyPath : PyStr) : Json :=
  .obj [(py "response", .obj [(py "bodyPath", .str bodyPath)])]

/-- Two calls, whose responses echo secrets. -/
def sampleEcho : Json :=
  .obj [(py "calls", .arr [sampleEchoCall (py "call_0"), sampleEchoCall (py "call_1")])]

def sampleBodies : Bodies :=
  ⟨fun path =>
    if path = py "call_0" then encodeUtf8 (py "xabcd")
    else if path = py "call_1" then encodeUtf8 (py "bcd;TOK")
    else none, []⟩

/-- Secrets, two of which overlap in the first body. -/
def sampleSecrets : List PyStr :=
  [py "abc", py "bcd", py "TOK"]

/-- What is left of the first body has no `bcd`, and what is left of the second no `TOK`. -/
theorem handed_bodies_redacted_echo :
    ¬[0x62, 0x63, 0x64] <:+: [0x78] ++ mask ++ [0x64] ∧
      ¬[0x54, 0x4F, 0x4B] <:+: mask ++ [0x3B] ++ mask := by
  have hredacted := handed_bodies_redacted sampleIO (py "run") sampleSecrets sampleEcho
    sampleBodies.disk
  constructor
  · exact hredacted (py "run/call_0", [0x78] ++ mask ++ [0x64]) (by decide +kernel) (py "bcd")
      (by decide) (by decide) (by decide) _ (by decide)
  · exact hredacted (py "run/call_1", mask ++ [0x3B] ++ mask) (by decide +kernel) (py "TOK")
      (by decide) (by decide) (by decide) _ (by decide)

end Sample

end ProbeAgent
