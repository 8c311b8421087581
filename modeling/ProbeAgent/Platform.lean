import ProbeAgent.Effects
import ProbeAgent.PyValue

/-!
# The machine under the agent

Files, the TLS context of the running listener and the cryptographic libraries.

The state of an agent process and its host is a `World`: the files on disk, the
context the listener serves from (`app.state.server_ssl_context`) and the key
held for opening sealed dispatches (`app.state.agent_private_key`).  Everything
the agent does to it is one of the effects `Op`, so a program can stop between
any two of them.

`Path.write_text` opens the file, which empties it, and then writes;
`_atomic_write` does the same to a temporary file and then moves that over the
target with `os.replace`.

The third-party functions are the fields of `Platform`: what a PEM text parses
to, what a key serializes to, and so on.  Nothing is assumed about them here.
-/

namespace ProbeAgent

open PyText Effects

abbrev Path := PyStr

/-- The DER form of a certificate. -/
abbrev Der := Bytes

/-- The files that exist, with their contents. -/
abbrev Disk := Path → Option Bytes

/-- The directory of an agent that was never started. -/
def emptyDisk : Disk := fun _ => none

/-- A certificate file together with the key its certificate was issued for. -/
structure Certificate (K : Type) where
  pem : Bytes
  key : K
deriving DecidableEq

/-- An `ssl.SSLContext`: the chain and the private key it serves with, and the
authorities it accepts peers from. -/
structure SslContext (K : Type) where
  certificate : Option (Certificate K)
  privateKey : Option K
  verifyLocations : List Der

/-- The state of an agent process and the directory it works in. -/
structure World (K : Type) where
  disk : Disk
  serverSslContext : Option (SslContext K)
  agentPrivateKey : Option K

/-- What the agent does to its world. -/
inductive Op (K : Type)
  /-- `open(path, "w")`: the file exists and is empty. -/
  | truncate (path : Path)
  /-- `f.write(data)` into a file just opened. -/
  | write (path : Path) (data : Bytes)
  /-- `os.replace(src, dst)`. -/
  | replace (src dst : Path)
  | setContext (ctx : SslContext K)
  | setPrivateKey (key : Option K)

/-- The functions of the libraries the agent is built on. -/
structure Platform (K : Type) where
  /-- `serialization.load_pem_private_key`, with OpenSSL's reader of a key file. -/
  loadPemPrivateKey : Bytes → Option K
  /-- `private_key_pem`. -/
  privateKeyPem : K → Bytes
  isRsa : K → Bool
  /-- `build_csr_pem`. -/
  buildCsrPem : K → PyStr
  /-- The base64 form of a PKCS#1 signature over the given bytes. -/
  sign : K → Bytes → PyStr
  /-- OpenSSL's reader of a certificate file: the key of its first certificate. -/
  certificateKey : Bytes → Option K
  /-- The `notAfter` of a certificate file, in seconds. -/
  notValidAfter : Bytes → Option Rat
  loadPemX509Certificates : Bytes → Option (List Der)
  /-- OpenSSL's reader of a CA file. -/
  loadCaFile : Bytes → Option (List Der)
  sha256 : Bytes → Digest

variable {K : Type}

/-- The world of a process that has just been started. -/
def newProcess (d : Disk) : World K := ⟨d, none, none⟩

@[simp] theorem newProcess_disk (d : Disk) : (newProcess d : World K).disk = d := rfl

/-! ## Effects -/

/-- The files after an effect. -/
def Op.applyDisk (d : Disk) : Op K → Disk
  | truncate path => fun p => if p = path then some [] else d p
  | write path data => fun p => if p = path then some data else d p
  | replace src dst => fun p => if p = dst then d src else if p = src then none else d p
  | setContext _ => d
  | setPrivateKey _ => d

/-- The world after an effect. -/
def Op.apply (w : World K) (op : Op K) : World K :=
  { disk := op.applyDisk w.disk
    serverSslContext :=
      match op with
      | setContext ctx => some ctx
      | _ => w.serverSslContext
    agentPrivateKey :=
      match op with
      | setPrivateKey key => key
      | _ => w.agentPrivateKey }

instance : Effect (Op K) (World K) where
  apply := Op.apply

/-- The paths an effect creates, changes or removes. -/
def Op.touches : Op K → List Path
  | truncate path => [path]
  | write path _ => [path]
  | replace src dst => [src, dst]
  | setContext _ => []
  | setPrivateKey _ => []

/-- The effect opens or writes a file in place. -/
def Op.inPlace : Op K → Bool
  | truncate _ => true
  | write _ _ => true
  | _ => false

/-- The effect is one on files. -/
def Op.onDisk : Op K → Bool
  | setContext _ => false
  | setPrivateKey _ => false
  | _ => true

theorem Op.applyDisk_of_untouched {op : Op K} {p : Path} (d : Disk)
    (h : p ∉ op.touches) : op.applyDisk d p = d p := by
  cases op with
  | truncate path => simp_all [touches, applyDisk]
  | write path data => simp_all [touches, applyDisk]
  | replace src dst => simp_all [touches, applyDisk]
  | setContext ctx => rfl
  | setPrivateKey key => rfl

@[simp] theorem apply_disk (w : World K) (op : Op K) :
    (Effect.apply w op).disk = op.applyDisk w.disk := rfl

/-- A file none of the effects touches is the same after them. -/
theorem after_disk_of_untouched {p : Path} (w : World K) (ops : List (Op K))
    (h : ∀ op ∈ ops, p ∉ op.touches) :
    (after w ops).disk p = w.disk p :=
  after_frame (fun v : World K => v.disk p) ops w
    (fun op hop v => Op.applyDisk_of_untouched v.disk (h op hop))

/-- Effects that touch no file may follow a run unnoticed on disk. -/
theorem after_cut_append_disk {ops rest : List (Op K)} (h : ∀ op ∈ rest, op.touches = [])
    (w : World K) (stop : Option Nat) :
    (after w (cut stop (ops ++ rest))).disk = (after w (cut stop ops)).disk := by
  by_cases hr : Reaches stop ops.length
  · obtain ⟨us, hus, hmem⟩ := cut_append_of_reaches hr rest
    rw [hus, cut_of_reaches hr, after_append]
    funext p
    refine after_disk_of_untouched _ us ?_
    intro op hop
    rw [h op (hmem op hop)]
    exact List.not_mem_nil
  · rw [cut_append_of_not_reaches (fun h => hr (h.mono (by omega)))]

/-- Work on files leaves the state of the process as it is. -/
theorem after_onDisk {ops : List (Op K)} (hops : ∀ op ∈ ops, op.onDisk = true) (w : World K) :
    (after w ops).serverSslContext = w.serverSslContext ∧
      (after w ops).agentPrivateKey = w.agentPrivateKey := by
  induction ops generalizing w with
  | nil => exact ⟨rfl, rfl⟩
  | cons op ops ih =>
      obtain ⟨hctx, hkey⟩ := ih (fun o ho => hops o (List.mem_cons_of_mem _ ho))
        (Effect.apply w op)
      have hop := hops op List.mem_cons_self
      rw [after_cons, hctx, hkey]
      cases op with
      | truncate path => exact ⟨rfl, rfl⟩
      | write path data => exact ⟨rfl, rfl⟩
      | replace src dst => exact ⟨rfl, rfl⟩
      | setContext ctx => cases hop
      | setPrivateKey key => cases hop

/-! ## Files -/

abbrev AgentProg (K : Type) := Prog (Op K) (World K) PyExc

/-- `path.exists()`. -/
def pathExists (d : Disk) (path : Path) : Bool := (d path).isSome

/-- `path.read_bytes()`. -/
def readBytes (d : Disk) (path : Path) : Except PyExc Bytes :=
  match d path with
  | some data => .ok data
  | none => .error (.fileNotFoundError path)

/-- `path.read_text()`. -/
def readText (d : Disk) (path : Path) : Except PyExc PyStr :=
  match d path with
  | none => .error (.fileNotFoundError path)
  | some data =>
      match decodeUtf8 data with
      | some text => .ok (universalNewlines text)
      | none => .error .unicodeDecodeError

/-- `path.write_bytes(data)`. -/
def writeBytes (path : Path) (data : Bytes) : AgentProg K Unit := do
  Prog.perform (.truncate path)
  Prog.perform (.write path data)

/-- `path.write_text(value)`.  A value that is not a string is refused before
the file is opened, one that cannot be encoded only after it. -/
def writeText (path : Path) (value : Json) : AgentProg K Unit :=
  match value with
  | .str text => do
      Prog.perform (.truncate path)
      match encodeUtf8 text with
      | some data => Prog.perform (.write path data)
      | none => Prog.raise .unicodeEncodeError
  | value =>
      Prog.raise (.typeError s!"data must be str, not {value.typeName}")

/-- The temporary file of `_atomic_write`: `path.with_suffix(path.suffix + ".tmp")`. -/
def tmpPath (path : Path) : Path := path ++ py ".tmp"

/-- `_atomic_write`. -/
def atomicWrite (path : Path) (data : Bytes) : AgentProg K Unit := do
  Prog.perform (.truncate (tmpPath path))
  Prog.perform (.write (tmpPath path) data)
  Prog.perform (.replace (tmpPath path) path)

/-- The effects of `writeBytes`, and of `writeText` on a string with this encoding. -/
def writeOps (path : Path) (data : Bytes) : List (Op K) :=
  [.truncate path, .write path data]

/-- The effects of `atomicWrite`. -/
def atomicWriteOps (path : Path) (data : Bytes) : List (Op K) :=
  [.truncate (tmpPath path), .write (tmpPath path) data, .replace (tmpPath path) path]

theorem run_writeBytes (path : Path) (data : Bytes) (w : World K) :
    (writeBytes path data).run w = (writeOps path data, .ok ()) := by
  unfold writeBytes
  rw [Prog.bind_ok (Prog.run_perform _ w)]
  simp [writeOps]

theorem run_writeText {path : Path} {text : PyStr} {data : Bytes}
    (h : encodeUtf8 text = some data) (w : World K) :
    (writeText path (.str text)).run w = (writeOps path data, .ok ()) := by
  rw [writeText]
  rw [Prog.bind_ok (Prog.run_perform _ w)]
  simp [h, writeOps]

theorem run_writeText_unencodable {path : Path} {text : PyStr}
    (h : encodeUtf8 text = none) (w : World K) :
    (writeText path (.str text)).run w = ([.truncate path], .error .unicodeEncodeError) := by
  rw [writeText]
  rw [Prog.bind_ok (Prog.run_perform _ w)]
  simp [h]

theorem run_writeText_of_not_str (path : Path) {v : Json}
    (h : ∀ text, v ≠ .str text) (w : World K) :
    ∃ e, (writeText path v).run w = ([], .error e) := by
  cases v with
  | str text => exact absurd rfl (h text)
  | null => exact ⟨_, rfl⟩
  | bool b => exact ⟨_, rfl⟩
  | int n => exact ⟨_, rfl⟩
  | float x => exact ⟨_, rfl⟩
  | arr items => exact ⟨_, rfl⟩
  | obj fields => exact ⟨_, rfl⟩

/-- Whatever the value, only the file itself is touched. -/
theorem touches_of_mem_writeText {path : Path} {v : Json} {w : World K} {op : Op K}
    (h : op ∈ ((writeText path v).run w).1) :
    op.touches = [path] ∧ op.inPlace = true := by
  by_cases hstr : ∃ text, v = .str text
  · obtain ⟨text, rfl⟩ := hstr
    cases henc : encodeUtf8 text with
    | none =>
        rw [run_writeText_unencodable henc] at h
        rw [List.mem_singleton.mp h]
        exact ⟨rfl, rfl⟩
    | some data =>
        rw [run_writeText henc] at h
        rcases List.mem_cons.mp h with rfl | h
        · exact ⟨rfl, rfl⟩
        · rw [List.mem_singleton.mp h]
          exact ⟨rfl, rfl⟩
  · obtain ⟨e, he⟩ := run_writeText_of_not_str path (fun t ht => hstr ⟨t, ht⟩) w
    rw [he] at h
    cases h

theorem run_atomicWrite (path : Path) (data : Bytes) (w : World K) :
    (atomicWrite path data).run w = (atomicWriteOps path data, .ok ()) := by
  unfold atomicWrite
  rw [Prog.bind_ok (Prog.run_perform _ w)]
  rw [Prog.bind_ok (Prog.run_perform _ _)]
  simp [atomicWriteOps]

theorem tmpPath_ne (path : Path) : tmpPath path ≠ path := by
  intro h
  have hlen := congrArg List.length h
  simp [tmpPath, py] at hlen

theorem after_writeOps_disk (w : World K) (path : Path) (data : Bytes) (p : Path) :
    (after w (writeOps path data)).disk p =
      if p = path then some data else w.disk p := by
  simp only [writeOps, after_cons, after_nil, apply_disk, Op.applyDisk]
  by_cases h : p = path
  · simp [h]
  · simp [h]

theorem after_atomicWrite_disk (w : World K) (path : Path) (data : Bytes) (p : Path) :
    (after w (atomicWriteOps path data)).disk p =
      if p = path then some data else if p = tmpPath path then none else w.disk p := by
  simp only [atomicWriteOps, after_cons, after_nil, apply_disk, Op.applyDisk]
  by_cases h : p = path
  · simp [h]
  · by_cases ht : p = tmpPath path
    · simp [ht]
    · simp [ht]

theorem touches_of_mem_atomicWrite {path : Path} {data : Bytes} {op : Op K}
    (h : op ∈ (atomicWriteOps path data : List (Op K))) :
    ∀ p ∈ op.touches, p = path ∨ p = tmpPath path := by
  intro p hp
  simp only [atomicWriteOps, List.mem_cons, List.not_mem_nil, or_false] at h
  rcases h with rfl | rfl | rfl
  · exact .inr (List.mem_singleton.mp hp)
  · exact .inr (List.mem_singleton.mp hp)
  · simp only [Op.touches, List.mem_cons, List.not_mem_nil, or_false] at hp
    exact hp.symm

/-- Before its last effect an atomic replacement works on the temporary file. -/
theorem touches_of_mem_cut_atomicWrite {path : Path} {data : Bytes} {stop : Option Nat}
    (h : ¬Reaches stop 3) {op : Op K}
    (hop : op ∈ cut stop (atomicWriteOps path data : List (Op K))) :
    op.touches = [tmpPath path] := by
  have hsplit : (atomicWriteOps path data : List (Op K)) =
      [.truncate (tmpPath path), .write (tmpPath path) data] ++
        [.replace (tmpPath path) path] := rfl
  rw [hsplit] at hop
  have hop' := mem_of_mem_cut_append h hop
  simp only [List.mem_cons, List.not_mem_nil, or_false] at hop'
  rcases hop' with rfl | rfl
  · rfl
  · rfl

theorem after_atomicWrite_of_ne {path p : Path} {data : Bytes} (h : p ≠ path)
    (htmp : p ≠ tmpPath path) (w : World K) :
    (after w (atomicWriteOps path data)).disk p = w.disk p := by
  rw [after_atomicWrite_disk, if_neg h, if_neg htmp]

/-- An atomic replacement removes no file but its temporary one. -/
theorem passes_exists_atomicWrite {path p : Path} (data : Bytes) (htmp : p ≠ tmpPath path)
    {w : World K} (h : pathExists w.disk p = true) :
    Passes (fun v : World K => pathExists v.disk p = true) w (atomicWriteOps path data) := by
  have hout : ∀ q : Path, p ≠ q → ∀ v : World K, ∀ op : Op K, op.touches = [q] →
      pathExists v.disk p = true → pathExists (Effect.apply v op).disk p = true := by
    intro q hq v op hop hv
    have hsame : op.applyDisk v.disk p = v.disk p :=
      Op.applyDisk_of_untouched v.disk (by rw [hop, List.mem_singleton]; exact hq)
    rwa [pathExists, apply_disk, hsame]
  simp only [atomicWriteOps, passes_cons, passes_nil]
  refine ⟨h, hout _ htmp _ _ rfl h, hout _ htmp _ _ rfl (hout _ htmp _ _ rfl h), ?_⟩
  change pathExists (after w (atomicWriteOps path data)).disk p = true
  rw [pathExists, after_atomicWrite_disk]
  by_cases hp : p = path
  · simp [hp]
  · rw [if_neg hp, if_neg htmp]
    exact h

/-- Writing in place removes no file: what exists afterwards is what existed and
what was touched. -/
theorem exists_after_writes {ops : List (Op K)} (hops : ∀ op ∈ ops, op.inPlace = true)
    (w : World K) (p : Path) :
    pathExists (after w ops).disk p = true ↔
      pathExists w.disk p = true ∨ ∃ op ∈ ops, p ∈ op.touches := by
  induction ops generalizing w with
  | nil => simp
  | cons op ops ih =>
      have hstep : pathExists (Effect.apply w op).disk p = true ↔
          pathExists w.disk p = true ∨ p ∈ op.touches := by
        have hop := hops op List.mem_cons_self
        cases op with
        | truncate path =>
            by_cases h : p = path
            · simp [pathExists, Op.applyDisk, Op.touches, h]
            · simp [pathExists, Op.applyDisk, Op.touches, h]
        | write path data =>
            by_cases h : p = path
            · simp [pathExists, Op.applyDisk, Op.touches, h]
            · simp [pathExists, Op.applyDisk, Op.touches, h]
        | replace src dst => cases hop
        | setContext ctx => cases hop
        | setPrivateKey key => cases hop
      rw [after_cons, ih (fun o ho => hops o (List.mem_cons_of_mem _ ho)), hstep]
      simp [or_assoc]

/-! ## A small platform

Keys are digits.  A key file is a `K` and its key, a certificate a `C` and the key
it was issued for, and every byte of a bundle is a certificate. -/

def samplePlatform : Platform UInt8 where
  loadPemPrivateKey
    | [0x4B, k] => some k
    | _ => none
  privateKeyPem k := [0x4B, k]
  isRsa _ := true
  buildCsrPem _ := py "csr"
  sign _ _ := py "signature"
  certificateKey
    | [0x43, k] => some k
    | _ => none
  notValidAfter _ := some 0
  loadPemX509Certificates
    | [] => none
    | data => some (data.map (fun b => [b]))
  loadCaFile
    | [] => none
    | data => some (data.map (fun b => [b]))
  sha256 data := ⟨List.replicate 32 (data.headD 0), List.length_replicate⟩

end ProbeAgent
