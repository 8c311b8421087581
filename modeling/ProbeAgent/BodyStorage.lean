import ProbeAgent.PurePath
import ProbeAgent.Redaction
import Mathlib.Data.List.DropRight

/-!
# Stored bodies (`storage/`)

A backend keeps a body under a key and gives a URI for it.  A file backend joins the key
to its directory; an object store puts its own prefix before it.

* `uri_located_iff`: the URI leads back to where the body is kept, for every key, unless
  the destination of a file is a directory, or the bucket of an object store has a slash in
  its name.
* `bodies_uploaded_once`: each body of a run is handed over once, redacted, and the result
  changes in its references only.
* `runs_stored_apart`: each reference leads to the redacted bytes of its own body, whatever
  other runs upload in the meantime.
-/

namespace ProbeAgent

open PyText Effects

/-! ## The backends -/

/-- Where a body is kept. -/
inductive Location
  | file (path : PurePath)
  | object (bucket key : PyStr)
deriving DecidableEq

/-- `FilesystemStorage`. -/
structure FilesystemStorage where
  rootDir : PyStr

/-- `S3Storage`; `pre` is its `_prefix`. -/
structure S3Storage where
  bucket : PyStr
  pre : PyStr

inductive BodyStorage
  | filesystem (storage : FilesystemStorage)
  | s3 (storage : S3Storage)

/-- The settings of the body storage. -/
structure StorageSettings where
  storageBackend : PyStr
  storageDir : PyStr
  s3Bucket : PyStr
  s3Prefix : PyStr

/-- `_create_storage`, with `S3Storage.__init__`. -/
def createStorage (settings : StorageSettings) : BodyStorage :=
  if settings.storageBackend = py "s3" then
    .s3 ⟨settings.s3Bucket, settings.s3Prefix.rdropWhile (· == slashSign)⟩
  else .filesystem ⟨settings.storageDir⟩

namespace FilesystemStorage

/-- `SCHEME`. -/
def scheme : PyStr := py "file://"

/-- `self._root / key`. -/
def dest (storage : FilesystemStorage) (key : PyStr) : PurePath :=
  .parse (posixJoin storage.rootDir key)

/-- What `upload` returns. -/
def uri (storage : FilesystemStorage) (key : PyStr) : PyStr :=
  scheme ++ (storage.dest key).str

/-- `_strip_scheme`. -/
def stripScheme (uri : PyStr) : PyStr :=
  removePrefix scheme uri

end FilesystemStorage

namespace S3Storage

/-- `SCHEME`. -/
def scheme : PyStr := py "s3://"

/-- `_full_key`. -/
def fullKey (storage : S3Storage) (key : PyStr) : PyStr :=
  if storage.pre = [] then key else storage.pre ++ slashSign :: key

/-- What `upload` returns. -/
def uri (storage : S3Storage) (key : PyStr) : PyStr :=
  scheme ++ (storage.bucket ++ slashSign :: storage.fullKey key)

/-- `_parse_uri`, or the message of the `ValueError` it raises. -/
def parseUri (uri : PyStr) : Except PyStr (PyStr × PyStr) :=
  let uri := removePrefix scheme uri
  match uri.dropWhile (· != slashSign) with
  | [] => .error (py "Invalid S3 URI: " ++ uri)
  | _ :: key => .ok (uri.takeWhile (· != slashSign), key)

end S3Storage

namespace BodyStorage

/-- What the body is to be kept as. -/
def location (st : BodyStorage) (key : PyStr) : Location :=
  match st with
  | filesystem storage => .file (storage.dest key)
  | s3 storage => .object storage.bucket (storage.fullKey key)

/-- Where `upload` puts a file of this name: `shutil.copy2` into the destination, if that is
a directory. -/
def place (st : BodyStorage) (isDirectory : PurePath → Bool) (name key : PyStr) : Location :=
  match st with
  | filesystem storage =>
      if isDirectory (storage.dest key) then
        .file (.parse (posixJoin (storage.dest key).str name))
      else .file (storage.dest key)
  | s3 storage => .object storage.bucket (storage.fullKey key)

/-- What `upload` returns. -/
def uri (st : BodyStorage) (key : PyStr) : PyStr :=
  match st with
  | filesystem storage => storage.uri key
  | s3 storage => storage.uri key

/-- Where `download_url` looks. -/
def locate (st : BodyStorage) (uri : PyStr) : Except PyStr Location :=
  match st with
  | filesystem _ => .ok (.file (.parse (FilesystemStorage.stripScheme uri)))
  | s3 _ => (S3Storage.parseUri uri).map fun parsed => .object parsed.1 parsed.2

/-- No slash in the name of the bucket. -/
def BucketNamed : BodyStorage → Prop
  | filesystem _ => True
  | s3 storage => slashSign ∉ storage.bucket

/-- The destination of a file is no directory. -/
def Free (isDirectory : PurePath → Bool) (key : PyStr) : BodyStorage → Prop
  | filesystem storage => isDirectory (storage.dest key) = false
  | s3 _ => True

instance decidableFree (isDirectory : PurePath → Bool) (key : PyStr) (st : BodyStorage) :
    Decidable (st.Free isDirectory key) :=
  match st with
  | filesystem _ => inferInstanceAs (Decidable (_ = false))
  | s3 _ => inferInstanceAs (Decidable True)

theorem place_of_free {st : BodyStorage} {isDirectory : PurePath → Bool} {key : PyStr}
    (h : st.Free isDirectory key) (name : PyStr) :
    st.place isDirectory name key = st.location key := by
  cases st with
  | filesystem storage => exact if_neg (by rw [show isDirectory _ = false from h]; simp)
  | s3 storage => rfl

end BodyStorage

/-! ## URIs -/

theorem dropWhile_append_slash {s t : PyStr} (hs : slashSign ∉ s) :
    (s ++ slashSign :: t).dropWhile (· != slashSign) = slashSign :: t ∧
      (s ++ slashSign :: t).takeWhile (· != slashSign) = s := by
  have hkeep : ∀ c ∈ s, (c != slashSign) = true := by
    intro c hc
    simpa using ne_of_mem_of_not_mem hc hs
  constructor
  · rw [List.dropWhile_append_of_pos hkeep, List.dropWhile_cons_of_neg (by simp)]
  · rw [List.takeWhile_append_of_pos hkeep, List.takeWhile_cons_of_neg (by simp), List.append_nil]

theorem S3Storage.parseUri_uri (storage : S3Storage) (key : PyStr) :
    S3Storage.parseUri (storage.uri key) = .ok (storage.bucket, storage.fullKey key) ↔
      slashSign ∉ storage.bucket := by
  rw [parseUri, uri, removePrefix_append]
  constructor
  · intro h hslash
    split at h
    · cases h
    · rw [Except.ok.injEq, Prod.mk.injEq] at h
      -- what stands before the first slash has none
      rw [← h.1] at hslash
      have hkept := List.mem_takeWhile_imp hslash
      simp at hkept
  · intro hbucket
    obtain ⟨hdrop, htake⟩ := dropWhile_append_slash (t := storage.fullKey key) hbucket
    rw [hdrop, htake]

theorem FilesystemStorage.parse_uri (storage : FilesystemStorage) (key : PyStr) :
    PurePath.parse (stripScheme (storage.uri key)) = storage.dest key := by
  rw [stripScheme, uri, removePrefix_append, PurePath.parse_str]

theorem BodyStorage.locate_uri {st : BodyStorage} (hst : st.BucketNamed) (key : PyStr) :
    st.locate (st.uri key) = .ok (st.location key) := by
  cases st with
  | filesystem storage =>
      simp only [locate, uri, location, storage.parse_uri]
  | s3 storage =>
      simp only [locate, uri, location, (storage.parseUri_uri key).mpr hst, Except.map]

/-- **A URI leads back to its body.** For every key, `download_url` looks where `upload`
has put the file, exactly if the bucket of an object store has no slash in its name and the
destination of a file is no directory. -/
theorem uri_located_iff (st : BodyStorage) (isDirectory : PurePath → Bool) {name : PyStr}
    (hname : IsPart name) (key : PyStr) :
    st.locate (st.uri key) = .ok (st.place isDirectory name key) ↔
      st.BucketNamed ∧ st.Free isDirectory key := by
  constructor
  · intro hlocated
    cases st with
    | filesystem storage =>
        refine ⟨trivial, Bool.eq_false_iff.mpr fun hdirectory => ?_⟩
        simp only [BodyStorage.locate, BodyStorage.uri, BodyStorage.place, storage.parse_uri,
          hdirectory, if_true, Except.ok.injEq, Location.file.injEq] at hlocated
        exact posixJoin_ne hname _ hlocated.symm
    | s3 storage =>
        refine ⟨?_, trivial⟩
        rw [BodyStorage.BucketNamed, ← storage.parseUri_uri key]
        simp only [BodyStorage.locate, BodyStorage.uri, BodyStorage.place] at hlocated
        cases hparsed : S3Storage.parseUri (storage.uri key) with
        | error message =>
            rw [hparsed] at hlocated
            cases hlocated
        | ok parsed =>
            rw [hparsed, Except.map, Except.ok.injEq, Location.object.injEq] at hlocated
            rw [← hlocated.1, ← hlocated.2]
  · rintro ⟨hst, hfree⟩
    rw [BodyStorage.place_of_free hfree, BodyStorage.locate_uri hst]

/-- The empty key names the root itself, and the body is put into it. -/
theorem uri_located_iff_root :
    let st : BodyStorage := .filesystem ⟨py "/data/bodies"⟩
    let isDirectory := fun p => decide (p = PurePath.parse (py "/data/bodies"))
    ¬st.locate (st.uri []) = .ok (st.place isDirectory (py "call_0") []) ∧
      st.locate (st.uri (py "9f/call_0")) =
        .ok (st.place isDirectory (py "call_0") (py "9f/call_0")) := by
  have hname : IsPart (py "call_0") :=
    ⟨by decide +kernel, by decide +kernel, by decide +kernel⟩
  refine ⟨fun hlocated => ?_, (uri_located_iff _ _ hname _).mpr ⟨trivial, by decide +kernel⟩⟩
  have hfree := ((uri_located_iff _ _ hname _).mp hlocated).2
  exact absurd hfree (by decide +kernel)

/-! ## One run -/

/-- What a backend holds after files have been uploaded under these keys, one after
another; a key ends in the name of its file. -/
def stored (st : BodyStorage) (isDirectory : PurePath → Bool) (handed : List (PyStr × Bytes))
    (location : Location) : Option Bytes :=
  (handed.reverse.find? fun entry =>
    decide (st.place isDirectory (PurePath.parse entry.1).name entry.1 = location)).map Prod.snd

/-- The body's file of a call, if there is one. -/
def bodyFile (d : Disk) (call : Json) : Option Path :=
  match call.get (py "response") with
  | .ok response =>
      match response.get (py "bodyPath") with
      | .ok (.str path) => if (d path).isSome then some path else none
      | _ => none
  | .error _ => none

/-- The call with another body path. -/
def withBodyPath (call : Json) (ref : PyStr) : Json :=
  match call.get (py "response") with
  | .ok response =>
      call.setField (py "response") (response.setField (py "bodyPath") (.str ref))
  | .error _ => call

/-- What the system answers to a run that uploads its bodies. -/
structure StorageAnswers where
  /-- `local.read_bytes` of a file that exists: its failure. -/
  readBytes : Path → Except PyExc Unit
  /-- `local.write_bytes`. -/
  writeBytes : Path → Except PyExc Unit
  /-- The copying or sending in `_storage.upload`. -/
  upload : PyStr → Bytes → Except PyExc Unit

/-- `local.name`. -/
def bodyName (path : Path) : PyStr :=
  (PurePath.parse path).name

/-- A run with that backend. -/
def BodyStorage.io (st : BodyStorage) (answers : StorageAnswers) : BodyIO where
  readBytes := answers.readBytes
  writeBytes := answers.writeBytes
  name := bodyName
  upload key data := (answers.upload key data).map fun _ => st.uri key

/-- The key a body is uploaded under. -/
def bodyKey (runPrefix : PyStr) (path : Path) : PyStr :=
  runPrefix ++ py "/" ++ bodyName path

section Upload

variable (st : BodyStorage) (answers : StorageAnswers) (runPrefix : PyStr)
  (secretValues : List PyStr)

/-- What a turn of the loop over the calls comes to, when it does not raise. -/
def Uploaded (b : Bodies) (call call' : Json) (b' : Bodies) : Prop :=
  match bodyFile b.disk call with
  | none => call' = call ∧ b' = b
  | some path =>
      call' = withBodyPath call (st.uri (bodyKey runPrefix path)) ∧
        ∃ data, redactBodyBytes (b.read path) secretValues = .ok data ∧
          b'.handed = b.handed ++ [(bodyKey runPrefix path, data)] ∧
          (∀ p, (b'.disk p).isSome = (b.disk p).isSome) ∧ ∀ p ≠ path, b'.disk p = b.disk p

/-- The masking leaves the redacted bytes in the file, and every other file as it was. -/
theorem maskFile_leaves (io : BodyIO) (b : Bodies) (path : Path)
    (hexists : (b.disk path).isSome = true) :
    Prog.Triple (fun s => s = b) (maskFile io secretValues path)
      (fun _ s => redactBodyBytes (b.read path) secretValues = .ok (s.read path) ∧
        s.handed = b.handed ∧ (∀ p, (s.disk p).isSome = (b.disk p).isSome) ∧
        ∀ p ≠ path, s.disk p = b.disk p)
      (fun _ => True) := by
  unfold maskFile
  split
  · rename_i hnone
    refine .pure ?_
    rintro s rfl
    exact ⟨by rw [redactBodyBytes, if_pos hnone], rfl, fun _ => rfl, fun _ _ => rfl⟩
  · refine Prog.Triple.bind (Q := fun _ s => s = b) (.ofExcept (fun _ s _ hs => hs)
      fun _ _ => trivial) fun _ => ?_
    refine Prog.Triple.bind (Q := fun original s => s = b ∧ original = b.read path) (.look ?_)
      fun original => ?_
    · rintro s rfl
      exact ⟨rfl, rfl⟩
    refine Prog.Triple.bind
      (Q := fun redacted s => s = b ∧ original = b.read path ∧
        redactBodyBytes (b.read path) secretValues = .ok redacted)
      (.ofExcept ?_ fun _ _ => trivial) fun redacted => ?_
    · rintro redacted s hredacted ⟨rfl, rfl⟩
      exact ⟨rfl, rfl, hredacted⟩
    split
    · rename_i hsame
      refine .pure ?_
      rintro s ⟨rfl, rfl, hredacted⟩
      exact ⟨hsame ▸ hredacted, rfl, fun _ => rfl, fun _ _ => rfl⟩
    · refine Prog.Triple.bind (Q := fun _ s => s = b ∧ original = b.read path ∧
          redactBodyBytes (b.read path) secretValues = .ok redacted)
        (.ofExcept (fun _ s _ hs => hs) fun _ _ => trivial) fun _ => ?_
      refine .perform ?_
      rintro s ⟨rfl, rfl, hredacted⟩
      change redactBodyBytes _ _ = .ok ((BodyOp.apply s (.write path redacted)).read path) ∧ _
      refine ⟨?_, rfl, fun p => ?_, fun p hp => ?_⟩
      · rw [hredacted]
        simp [BodyOp.apply, Bodies.read]
      · change (if p = path then some redacted else s.disk p).isSome = _
        split
        · rename_i hp
          rw [hp, hexists]
          rfl
        · rfl
      · change (if p = path then some redacted else s.disk p) = _
        rw [if_neg hp]

theorem handOver_leaves (path : Path) (S : Bodies → Prop) :
    Prog.Triple S (handOver (st.io answers) runPrefix path)
      (fun ref s => ref = st.uri (bodyKey runPrefix path) ∧ ∃ t, S t ∧
        s = { t with handed := t.handed ++ [(bodyKey runPrefix path, t.read path)] })
      (fun _ => True) := by
  unfold handOver
  refine Prog.Triple.bind
    (Q := fun _ s => ∃ t, S t ∧
      s = { t with handed := t.handed ++ [(bodyKey runPrefix path, t.read path)] })
    (.perform fun t ht => ⟨t, ht, rfl⟩) fun _ => ?_
  refine Prog.Triple.bind
    (Q := fun _ s => ∃ t, S t ∧
      s = { t with handed := t.handed ++ [(bodyKey runPrefix path, t.read path)] })
    (.look fun s hs => hs) fun content => ?_
  refine .ofExcept (fun ref s href hs => ⟨?_, hs⟩) fun _ _ => trivial
  simp only [BodyStorage.io] at href
  cases hanswer : answers.upload (runPrefix ++ py "/" ++ bodyName path) content with
  | error e =>
      rw [hanswer] at href
      cases href
  | ok u =>
      rw [hanswer] at href
      cases href
      rfl

theorem uploadBody_leaves (b : Bodies) (call : Json) :
    Prog.Triple (fun s => s = b) (uploadBody (st.io answers) runPrefix secretValues call)
      (fun call' s => Uploaded st runPrefix secretValues b call call' s) (fun _ => True) := by
  unfold uploadBody
  refine Prog.Triple.bind (Q := fun response s => s = b ∧ call.get (py "response") = .ok response)
    (.ofExcept (fun _ s hresponse hs => ⟨hs, hresponse⟩) fun _ _ => trivial) fun response => ?_
  split
  · refine .pure ?_
    rintro s ⟨rfl, hresponse⟩
    have hnone : bodyFile s.disk call = none := by
      rw [bodyFile, hresponse]
      rfl
    simp [Uploaded, hnone]
  · rename_i hnull
    refine Prog.Triple.bind
      (Q := fun bodyPath s => s = b ∧ call.get (py "response") = .ok response ∧
        response.get (py "bodyPath") = .ok bodyPath)
      (.ofExcept (fun _ s hpath hs => ⟨hs.1, hs.2, hpath⟩) fun _ _ => trivial) fun bodyPath => ?_
    split
    · refine .pure ?_
      rintro s ⟨rfl, hresponse, hpath⟩
      simp [Uploaded, bodyFile, hresponse, hpath]
    · rename_i path
      refine Prog.Triple.bind
        (Q := fun found s => (s = b ∧ call.get (py "response") = .ok response ∧
          response.get (py "bodyPath") = .ok (.str path)) ∧ found = (b.disk path).isSome)
        (.look ?_) fun found => ?_
      · rintro s ⟨rfl, hrest⟩
        exact ⟨⟨rfl, hrest⟩, rfl⟩
      split
      · rename_i hfound
        refine Prog.Triple.mono
          (P := fun s => ((b.disk path).isSome = true ∧ bodyFile b.disk call = some path ∧
            call.get (py "response") = .ok response) ∧ s = b) (.assume ?_) ?_
        · rintro ⟨hexists, hfile, hresponse⟩
          refine Prog.Triple.bind (maskFile_leaves secretValues _ b path hexists) fun _ => ?_
          refine Prog.Triple.bind (handOver_leaves st answers runPrefix path _) fun ref => ?_
          refine .pure ?_
          rintro s ⟨rfl, t, ⟨hredacted, hhanded, hexist, hsame⟩, rfl⟩
          rw [Uploaded, hfile]
          refine ⟨by rw [withBodyPath, hresponse], _, hredacted, ?_, hexist, hsame⟩
          rw [hhanded]
        · rintro s ⟨⟨rfl, hresponse, hpath⟩, hexists⟩
          have hsome : (s.disk path).isSome = true := by rw [← hexists, hfound]
          exact ⟨⟨hsome, by simp [bodyFile, hresponse, hpath, hsome], hresponse⟩, rfl⟩
      · rename_i hfound
        refine .pure ?_
        rintro s ⟨⟨rfl, hresponse, hpath⟩, hexists⟩
        have hnone : (s.disk path).isSome = false := by
          rw [← hexists, Bool.eq_false_iff]
          exact hfound
        simp [Uploaded, bodyFile, hresponse, hpath, hnone]
    · exact .raise fun _ _ => trivial

/-- The files whose bodies are uploaded, in the order of the calls. -/
def bodyFiles (d : Disk) (calls : List Json) : List Path :=
  calls.filterMap (bodyFile d)

/-- The call with the reference to its stored body. -/
def referring (d : Disk) (call : Json) : Json :=
  match bodyFile d call with
  | none => call
  | some path => withBodyPath call (st.uri (bodyKey runPrefix path))

/-- The redacted bytes of a body, where the redaction does not raise. -/
def redactedBytes (data : Bytes) : Bytes :=
  match redactBodyBytes data secretValues with
  | .ok out => out
  | .error _ => []

/-- What the loop over the calls comes to, when it does not raise. -/
structure AllUploaded (b : Bodies) (calls items : List Json) (b' : Bodies) : Prop where
  items_eq : items = calls.map (referring st runPrefix b.disk)
  redacted : ∀ path ∈ bodyFiles b.disk calls,
    redactBodyBytes (b.read path) secretValues = .ok (redactedBytes secretValues (b.read path))
  handed : b'.handed = b.handed ++ (bodyFiles b.disk calls).map fun path =>
    (bodyKey runPrefix path, redactedBytes secretValues (b.read path))

theorem bodyFile_congr {d d' : Disk} (h : ∀ p, (d p).isSome = (d' p).isSome) :
    bodyFile d = bodyFile d' := by
  funext call
  simp only [bodyFile, h]

/-- The calls have different files: so every body is what it was when its turn comes. -/
theorem uploadEach_leaves (calls : List Json) (b : Bodies)
    (hnodup : (bodyFiles b.disk calls).Nodup) :
    Prog.Triple (fun s => s = b) (uploadEach (st.io answers) runPrefix secretValues calls)
      (fun items s => AllUploaded st runPrefix secretValues b calls items s) (fun _ => True) := by
  induction calls generalizing b with
  | nil =>
      refine .pure ?_
      rintro s rfl
      exact ⟨rfl, fun path hpath => absurd hpath List.not_mem_nil, by simp [bodyFiles]⟩
  | cons call calls ih =>
      refine Prog.Triple.bind
        (uploadBody_leaves st answers runPrefix secretValues b call) fun call' => ?_
      refine .of_start fun b₁ hone => ?_
      cases hfile : bodyFile b.disk call with
      | none =>
          have hfiles : bodyFiles b.disk (call :: calls) = bodyFiles b.disk calls := by
            simp [bodyFiles, hfile]
          rw [hfiles] at hnodup
          rw [Uploaded, hfile] at hone
          obtain ⟨rfl, rfl⟩ := hone
          refine Prog.Triple.bind (ih _ hnodup) fun items => .pure fun s hrest => ?_
          refine ⟨?_, by rw [hfiles]; exact hrest.redacted, by rw [hfiles]; exact hrest.handed⟩
          rw [hrest.items_eq, List.map_cons, referring, hfile]
      | some path =>
          have hfiles : bodyFiles b.disk (call :: calls) = path :: bodyFiles b.disk calls := by
            simp [bodyFiles, hfile]
          rw [hfiles, List.nodup_cons] at hnodup
          rw [Uploaded, hfile] at hone
          obtain ⟨rfl, data, hredacted, hhanded, hexist, hsame⟩ := hone
          have hcongr : bodyFile b₁.disk = bodyFile b.disk := bodyFile_congr hexist
          have hread : ∀ p ∈ bodyFiles b.disk calls, b₁.read p = b.read p := by
            intro p hp
            rw [Bodies.read, hsame p (ne_of_mem_of_not_mem hp hnodup.1), Bodies.read]
          have hrest₁ : bodyFiles b₁.disk calls = bodyFiles b.disk calls := by
            rw [bodyFiles, hcongr, bodyFiles]
          have hdata : redactedBytes secretValues (b.read path) = data := by
            rw [redactedBytes, hredacted]
          refine Prog.Triple.bind (ih b₁ (by rw [hrest₁]; exact hnodup.2)) fun items =>
            .pure fun s hrest => ⟨?_, ?_, ?_⟩
          · rw [hrest.items_eq, List.map_cons]
            congr 1
            · rw [referring, hfile]
            · refine List.map_congr_left fun call _ => ?_
              rw [referring, referring, hcongr]
          · intro p hp
            rw [hfiles] at hp
            rcases List.mem_cons.mp hp with rfl | hp
            · rw [hdata, hredacted]
            · have hok := hrest.redacted p (by rw [hrest₁]; exact hp)
              rwa [hread p hp] at hok
          · rw [hrest.handed, hhanded, hrest₁, hfiles, List.map_cons, hdata, List.append_assoc,
              List.singleton_append]
            congr 2
            refine List.map_congr_left fun p hp => ?_
            rw [hread p hp]

/-- The bodies after a run that began with these files, however it ended. -/
def bodiesAfter (disk : Disk) (result : Json) : Bodies :=
  after (⟨disk, []⟩ : Bodies)
    ((uploadBodies (st.io answers) runPrefix secretValues result).effects ⟨disk, []⟩)

/-- The result with the references put in, if the run did not raise. -/
def resultAfter (disk : Disk) (result : Json) : Except PyExc Json :=
  (uploadBodies (st.io answers) runPrefix secretValues result).result ⟨disk, []⟩

theorem uploadBodies_leaves {disk : Disk} {result : Json} {calls : List Json}
    (hcalls : result.getD (py "calls") (.arr []) = .ok (.arr calls))
    (hnodup : (bodyFiles disk calls).Nodup) {out : Json}
    (hout : resultAfter st answers runPrefix secretValues disk result = .ok out) :
    ∃ items, out = result.setField (py "calls") (.arr items) ∧
      AllUploaded st runPrefix secretValues ⟨disk, []⟩ calls items
        (bodiesAfter st answers runPrefix secretValues disk result) := by
  have hspec : Prog.Triple (fun s => s = (⟨disk, []⟩ : Bodies))
      (uploadBodies (st.io answers) runPrefix secretValues result)
      (fun out s => ∃ items, out = result.setField (py "calls") (.arr items) ∧
        AllUploaded st runPrefix secretValues ⟨disk, []⟩ calls items s) (fun _ => True) := by
    unfold uploadBodies
    refine Prog.Triple.bind (Q := fun v s => v = .arr calls ∧ s = ⟨disk, []⟩)
      (.ofExcept ?_ fun _ _ => trivial) fun v => .assume ?_
    · rintro v s hv rfl
      rw [hcalls, Except.ok.injEq] at hv
      exact ⟨hv.symm, rfl⟩
    rintro rfl
    refine Prog.Triple.bind (Q := fun items s => items = calls ∧ s = ⟨disk, []⟩)
      (.ofExcept ?_ fun _ _ => trivial) fun items => .assume ?_
    · rintro items s hitems rfl
      cases hitems
      exact ⟨rfl, rfl⟩
    rintro rfl
    refine Prog.Triple.bind (uploadEach_leaves st answers runPrefix secretValues items _ hnodup)
      fun refs => .pure fun s hall => ⟨refs, rfl, hall⟩
  have hend := hspec _ rfl
  rw [resultAfter] at hout
  rw [hout] at hend
  exact hend

/-- **What a run uploads.** If the bodies of a result are in files of different names and
`_upload_bodies` does not raise, each body has been handed to the backend once, in the order
of the calls, redacted, under a key of the run's own; and the result is as it was but for
the references in the place of their paths. -/
theorem bodies_uploaded_once {disk : Disk} {result : Json} {calls : List Json}
    (hcalls : result.getD (py "calls") (.arr []) = .ok (.arr calls))
    (hnames : ((bodyFiles disk calls).map bodyName).Nodup) {out : Json}
    (hout : resultAfter st answers runPrefix secretValues disk result = .ok out) :
    out = result.setField (py "calls") (.arr (calls.map (referring st runPrefix disk))) ∧
      ∃ redacted : Path → Bytes,
        (∀ path ∈ bodyFiles disk calls,
          redactBodyBytes ((disk path).getD []) secretValues = .ok (redacted path)) ∧
        (bodiesAfter st answers runPrefix secretValues disk result).handed =
          (bodyFiles disk calls).map fun path => (bodyKey runPrefix path, redacted path) := by
  obtain ⟨items, hitems, hall⟩ := uploadBodies_leaves st answers runPrefix secretValues hcalls
    (List.Nodup.of_map bodyName hnames) hout
  refine ⟨by rw [hitems, hall.items_eq], fun path => redactedBytes secretValues
    ((disk path).getD []), hall.redacted, ?_⟩
  rw [hall.handed, List.nil_append]
  rfl

/-- The effect is a write, or an upload under a key of the run's own. -/
def BodyOp.Own : BodyOp → Prop
  | .write _ _ => True
  | .upload path key => key = bodyKey runPrefix path

theorem own_uploadBody (call : Json) (b : Bodies) :
    ∀ op ∈ ((uploadBody (st.io answers) runPrefix secretValues call).run b).1,
      op.Own runPrefix := by
  have hexcept : ∀ {α : Type} (x : Except PyExc α) (s : Bodies),
      ∀ op ∈ ((Prog.ofExcept x : BodyProg α).run s).1, BodyOp.Own runPrefix op := by
    intro α x s op hop
    cases hop
  unfold uploadBody
  refine Prog.forall_effects_bind (hexcept _ _) fun response s => ?_
  split
  · exact nofun
  · refine Prog.forall_effects_bind (hexcept _ _) fun bodyPath s => ?_
    split
    · exact nofun
    · refine Prog.forall_effects_bind nofun fun found s => ?_
      split
      · refine Prog.forall_effects_bind ?_ fun _ s => ?_
        · unfold maskFile
          split
          · exact nofun
          · refine Prog.forall_effects_bind (hexcept _ _) fun _ s => ?_
            refine Prog.forall_effects_bind nofun fun original s => ?_
            refine Prog.forall_effects_bind (hexcept _ _) fun redacted s => ?_
            split
            · exact nofun
            · refine Prog.forall_effects_bind (hexcept _ _) fun _ s op hop => ?_
              rw [Prog.run_perform, List.mem_singleton] at hop
              rw [hop]
              trivial
        · refine Prog.forall_effects_bind ?_ fun ref s => nofun
          unfold handOver
          refine Prog.forall_effects_bind (fun op hop => ?_) fun _ s => ?_
          · rw [Prog.run_perform, List.mem_singleton] at hop
            rw [hop]
            rfl
          · exact Prog.forall_effects_bind nofun fun content s => hexcept _ _
      · exact nofun
    · exact nofun

theorem own_uploadEach (calls : List Json) (b : Bodies) :
    ∀ op ∈ ((uploadEach (st.io answers) runPrefix secretValues calls).run b).1,
      op.Own runPrefix := by
  induction calls generalizing b with
  | nil =>
      exact nofun
  | cons call calls ih =>
      refine Prog.forall_effects_bind (own_uploadBody st answers runPrefix secretValues call b)
        fun call' s => ?_
      exact Prog.forall_effects_bind (ih s) fun items s => nofun

theorem own_uploadBodies (result : Json) (b : Bodies) :
    ∀ op ∈ ((uploadBodies (st.io answers) runPrefix secretValues result).run b).1,
      op.Own runPrefix := by
  unfold uploadBodies
  refine Prog.forall_effects_bind nofun fun calls s => ?_
  refine Prog.forall_effects_bind nofun fun items s => ?_
  refine Prog.forall_effects_bind (own_uploadEach st answers runPrefix secretValues items s)
    fun items s => ?_
  split <;> exact nofun

theorem handed_after (ops : List BodyOp) (hops : ∀ op ∈ ops, op.Own runPrefix) (b : Bodies) :
    ∀ entry ∈ (after b ops).handed,
      entry ∈ b.handed ∨ ∃ path, entry.1 = bodyKey runPrefix path := by
  induction ops generalizing b with
  | nil =>
      exact fun entry hentry => .inl hentry
  | cons op ops ih =>
      intro entry hentry
      have hop := hops op List.mem_cons_self
      rcases ih (fun op hmem => hops op (List.mem_cons_of_mem _ hmem)) _ entry hentry with
        hbefore | hown
      · cases op with
        | write path data =>
            exact .inl hbefore
        | upload path key =>
            rcases List.mem_append.mp hbefore with hbefore | hnow
            · exact .inl hbefore
            · rw [List.mem_singleton.mp hnow]
              exact .inr ⟨path, hop⟩
      · exact .inr hown

/-- Whatever a run hands over, it hands over under keys of its own. -/
theorem handed_keys (disk : Disk) (result : Json) :
    ∀ entry ∈ (bodiesAfter st answers runPrefix secretValues disk result).handed,
      ∃ path, entry.1 = bodyKey runPrefix path := by
  intro entry hentry
  rcases handed_after runPrefix _
    (own_uploadBodies st answers runPrefix secretValues result ⟨disk, []⟩) _ entry hentry with
    hbefore | hown
  · cases hbefore
  · exact hown

end Upload

/-! ## Runs beside each other -/

/-- A name is a part of a path, or empty. -/
theorem isPart_bodyName (path : Path) : bodyName path = [] ∨ IsPart (bodyName path) := by
  unfold bodyName PurePath.name
  cases hlast : (PurePath.parse path).tail.getLast? with
  | none =>
      exact .inl rfl
  | some part =>
      exact .inr ((PurePath.parse path).isPart part (List.mem_of_getLast? hlast))

section Keys

variable {runPrefix runPrefix' : PyStr} {path path' : Path}

theorem parts_bodyKey (h : IsPart runPrefix) (path : Path) :
    parts (bodyKey runPrefix path) =
      runPrefix :: if bodyName path = [] then [] else [bodyName path] := by
  have hslash : py "/" = [slashSign] := by decide +kernel
  rw [bodyKey, hslash, List.append_assoc, List.singleton_append, parts_append_slash,
    parts_of_isPart h, List.singleton_append]
  split
  · rename_i hnone
    rw [hnone]
    rfl
  · rename_i hsome
    rw [parts_of_isPart ((isPart_bodyName path).resolve_left hsome)]

/-- Bodies kept in the same place have the same run and the same name. -/
theorem location_injective (st : BodyStorage) (h : IsPart runPrefix) (h' : IsPart runPrefix')
    (hloc : st.location (bodyKey runPrefix path) = st.location (bodyKey runPrefix' path')) :
    runPrefix = runPrefix' ∧ bodyName path = bodyName path' := by
  have hparts : parts (bodyKey runPrefix path) = parts (bodyKey runPrefix' path') := by
    cases st with
    | filesystem storage =>
        have hrelative : ∀ {p : PyStr}, IsPart p → ∀ q : Path,
            (bodyKey p q).head? ≠ some slashSign := by
          intro p hp q
          rw [bodyKey, List.append_assoc]
          exact hp.head_append _
        simp only [BodyStorage.location, Location.file.injEq, FilesystemStorage.dest] at hloc
        have htail := congrArg PurePath.tail hloc
        rw [(parse_posixJoin (hrelative h path)).2, (parse_posixJoin (hrelative h' path')).2]
          at htail
        exact List.append_cancel_left htail
    | s3 storage =>
        simp only [BodyStorage.location, Location.object.injEq, S3Storage.fullKey, true_and]
          at hloc
        split at hloc
        · rw [hloc]
        · rw [List.append_cancel_left_eq, List.cons.injEq] at hloc
          rw [hloc.2]
  rw [parts_bodyKey h, parts_bodyKey h', List.cons.injEq] at hparts
  refine ⟨hparts.1, ?_⟩
  have hnames := hparts.2
  split at hnames
  · rename_i hnone
    split at hnames
    · rename_i hnone'
      rw [hnone, hnone']
    · cases hnames
  · split at hnames
    · cases hnames
    · exact List.singleton_inj.mp hnames

end Keys

/-- A run that uploads its bodies: its namespace, what it knows, and what it meets. -/
structure StoringRun where
  runPrefix : PyStr
  secretValues : List PyStr
  disk : Disk
  result : Json
  answers : StorageAnswers

namespace StoringRun

variable (st : BodyStorage) (run : StoringRun)

/-- What the run uploads, however it ends. -/
def uploads : List (PyStr × Bytes) :=
  (bodiesAfter st run.answers run.runPrefix run.secretValues run.disk run.result).handed

/-- The run ends with a result, and its bodies are in files of different names. -/
structure Succeeds (calls : List Json) : Prop where
  result_calls : run.result.getD (py "calls") (.arr []) = .ok (.arr calls)
  names_nodup : ((bodyFiles run.disk calls).map bodyName).Nodup
  ended : ∃ out,
    resultAfter st run.answers run.runPrefix run.secretValues run.disk run.result = .ok out

/-- What a consumer of the reference to the body finds. -/
def Serves (held : Location → Option Bytes) (path : Path) : Prop :=
  ∃ location data,
    st.locate (st.uri (bodyKey run.runPrefix path)) = .ok location ∧
    held location = some data ∧
    redactBodyBytes ((run.disk path).getD []) run.secretValues = .ok data

end StoringRun

theorem stored_of_mem {st : BodyStorage} {isDirectory : PurePath → Bool}
    {handed : List (PyStr × Bytes)} (hfree : ∀ entry ∈ handed, st.Free isDirectory entry.1)
    {key : PyStr} {data : Bytes} (hmem : (key, data) ∈ handed)
    (hlast : ∀ entry ∈ handed, st.location entry.1 = st.location key → entry.2 = data) :
    stored st isDirectory handed (st.location key) = some data := by
  unfold stored
  cases hfind : handed.reverse.find? fun entry =>
      decide (st.place isDirectory (PurePath.parse entry.1).name entry.1 = st.location key) with
  | none =>
      have hnone := List.find?_eq_none.mp hfind (key, data) (List.mem_reverse.mpr hmem)
      simp [BodyStorage.place_of_free (hfree _ hmem)] at hnone
  | some entry =>
      have hentry := List.mem_reverse.mp (List.mem_of_find?_eq_some hfind)
      have hsame := List.find?_some hfind
      rw [decide_eq_true_eq, BodyStorage.place_of_free (hfree entry hentry)] at hsame
      rw [Option.map_some, hlast entry hentry hsame]

/-- **Runs beside each other store apart.** However the uploads of any number of runs
with namespaces of their own are interleaved, and however the other runs end: every
reference a successful run puts in its result leads to the redacted bytes of its own body,
if no destination is a directory. -/
theorem runs_stored_apart {R : Type} [DecidableEq R] (st : BodyStorage) (hst : st.BucketNamed)
    (runs : R → StoringRun) (hpart : ∀ r, IsPart (runs r).runPrefix)
    (hfresh : ∀ r r', (runs r).runPrefix = (runs r').runPrefix → r = r')
    (isDirectory : PurePath → Bool)
    (hfree : ∀ r, ∀ entry ∈ (runs r).uploads st, st.Free isDirectory entry.1)
    (log : List (R × (PyStr × Bytes)))
    (hlog : ∀ r, (log.filter fun e => e.1 == r).map Prod.snd = (runs r).uploads st)
    {r : R} {calls : List Json} (hsucceeds : (runs r).Succeeds st calls) :
    ∀ path ∈ bodyFiles (runs r).disk calls,
      (runs r).Serves st (stored st isDirectory (log.map Prod.snd)) path := by
  intro path hpath
  obtain ⟨hcalls, hnames, out, hout⟩ := hsucceeds
  obtain ⟨items, -, hall⟩ := uploadBodies_leaves st _ _ _ hcalls
    (List.Nodup.of_map bodyName hnames) hout
  have hredacted := hall.redacted path hpath
  have hupload : ∀ entry ∈ log.map Prod.snd, ∃ r', entry ∈ (runs r').uploads st := by
    intro entry hentry
    obtain ⟨⟨r', entry⟩, he, rfl⟩ := List.mem_map.mp hentry
    refine ⟨r', ?_⟩
    rw [← hlog r']
    exact List.mem_map.mpr ⟨(r', entry), List.mem_filter.mpr ⟨he, by simp⟩, rfl⟩
  refine ⟨_, _, BodyStorage.locate_uri hst _, stored_of_mem ?_ ?_ ?_, hredacted⟩
  · intro entry hentry
    obtain ⟨r', hentry⟩ := hupload entry hentry
    exact hfree r' entry hentry
  · have hown : (bodyKey (runs r).runPrefix path, redactedBytes (runs r).secretValues
        ((runs r).disk path |>.getD [])) ∈ (runs r).uploads st := by
      rw [StoringRun.uploads, hall.handed, List.nil_append]
      exact List.mem_map.mpr ⟨path, hpath, rfl⟩
    rw [← hlog r] at hown
    obtain ⟨e, he, hsnd⟩ := List.mem_map.mp hown
    exact List.mem_map.mpr ⟨e, (List.mem_filter.mp he).1, hsnd⟩
  · intro entry hentry hloc
    obtain ⟨r', hentry⟩ := hupload entry hentry
    obtain ⟨path', hkey⟩ := handed_keys st _ _ _ _ _ entry hentry
    -- only the run itself puts anything there, and only this body
    have hrun : r' = r := by
      rw [hkey] at hloc
      exact hfresh _ _ (location_injective st (hpart r') (hpart r) hloc).1
    subst hrun
    rw [StoringRun.uploads, hall.handed, List.nil_append] at hentry
    obtain ⟨other, hother, rfl⟩ := List.mem_map.mp hentry
    have hname := (location_injective st (hpart r') (hpart r') hloc).2
    rw [List.inj_on_of_nodup_map hnames hother hpath hname]

section Sample

def sampleAnswers : StorageAnswers where
  readBytes _ := .ok ()
  writeBytes _ := .ok ()
  upload _ _ := .ok ()

def sampleStorage : BodyStorage :=
  createStorage ⟨py "filesystem", py "/data/bodies", [], py "bodies/"⟩

/-- Two runs whose bodies have the same names. -/
def sampleRuns (r : Bool) : StoringRun where
  runPrefix := if r then py "9f" else py "a0"
  secretValues := sampleSecrets
  disk := sampleBodies.disk
  result := sampleEcho
  answers := sampleAnswers

def sampleStoredCalls : List Json :=
  [sampleEchoCall (py "call_0"), sampleEchoCall (py "call_1")]

theorem sampleRuns_succeeds (r : Bool) :
    (sampleRuns r).Succeeds sampleStorage sampleStoredCalls := by
  cases r
  · exact ⟨rfl, by decide +kernel, _, rfl⟩
  · exact ⟨rfl, by decide +kernel, _, rfl⟩

theorem bodies_uploaded_once_echo :
    ∃ redacted : Path → Bytes,
      (∀ path ∈ bodyFiles sampleBodies.disk sampleStoredCalls,
        redactBodyBytes ((sampleBodies.disk path).getD []) sampleSecrets = .ok (redacted path)) ∧
      (bodiesAfter sampleStorage sampleAnswers (py "9f") sampleSecrets sampleBodies.disk
        sampleEcho).handed =
        (bodyFiles sampleBodies.disk sampleStoredCalls).map fun path =>
          (bodyKey (py "9f") path, redacted path) :=
  have hended := (sampleRuns_succeeds true).ended
  (bodies_uploaded_once sampleStorage sampleAnswers (py "9f") sampleSecrets
    (sampleRuns_succeeds true).result_calls (sampleRuns_succeeds true).names_nodup
    hended.choose_spec).2

/-- The directories there are while the runs upload. -/
def sampleDirectory (path : PurePath) : Bool :=
  decide (path.str = py "/data/bodies" ∨ path.str = py "/data/bodies/9f" ∨
    path.str = py "/data/bodies/a0")

/-- The second run uploads its first body first, and its second one last. -/
def sampleLog : List (Bool × (PyStr × Bytes)) :=
  [(false, (py "a0/call_0", [0x78] ++ mask ++ [0x64])),
    (true, (py "9f/call_0", [0x78] ++ mask ++ [0x64])),
    (true, (py "9f/call_1", mask ++ [0x3B] ++ mask)),
    (false, (py "a0/call_1", mask ++ [0x3B] ++ mask))]

theorem sampleLog_uploads (r : Bool) :
    (sampleLog.filter fun e => e.1 == r).map Prod.snd = (sampleRuns r).uploads sampleStorage := by
  cases r
  · decide +kernel
  · decide +kernel

theorem runs_stored_apart_two :
    (sampleRuns true).Serves sampleStorage
        (stored sampleStorage sampleDirectory (sampleLog.map Prod.snd)) (py "call_0") ∧
      (sampleRuns true).Serves sampleStorage
        (stored sampleStorage sampleDirectory (sampleLog.map Prod.snd)) (py "call_1") := by
  have hpart : ∀ r, IsPart (sampleRuns r).runPrefix := by
    intro r
    cases r
    · exact ⟨by decide +kernel, by decide +kernel, by decide +kernel⟩
    · exact ⟨by decide +kernel, by decide +kernel, by decide +kernel⟩
  have hfresh : ∀ r r', (sampleRuns r).runPrefix = (sampleRuns r').runPrefix → r = r' := by
    decide +kernel
  have hfree : ∀ r, ∀ entry ∈ (sampleRuns r).uploads sampleStorage,
      sampleStorage.Free sampleDirectory entry.1 := by
    intro r
    rw [← sampleLog_uploads]
    cases r
    · decide +kernel
    · decide +kernel
  have hserves := runs_stored_apart sampleStorage trivial sampleRuns hpart hfresh sampleDirectory
    hfree sampleLog sampleLog_uploads (sampleRuns_succeeds true)
  exact ⟨hserves _ (by decide +kernel), hserves _ (by decide +kernel)⟩

end Sample

end ProbeAgent
