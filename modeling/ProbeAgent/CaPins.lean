import ProbeAgent.Platform
import Mathlib.Data.Finset.Sort
import Mathlib.Data.List.Lex

/-!
# Trust-anchor pinning (`mtls/ca_pins.py`)

The pin set is the set of SHA-256 fingerprints of the certificates of a CA
bundle, kept in a text file with one fingerprint a line.  A bundle preserves a
pin set when it contains a pinned certificate; an empty pin set is preserved by
every bundle.

The pin file round trip is `readPins_pinsText`: a file that holds the text
`write_pins` produces for the fingerprints of a bundle is read back as these
fingerprints.
-/

namespace ProbeAgent

open PyText Effects

variable {K : Type}

/-- The fingerprints of a bundle given as bytes; a malformed bundle has none. -/
def bundleFingerprints (P : Platform K) (data : Bytes) : Finset PyStr :=
  match P.loadPemX509Certificates data with
  | none => ∅
  | some certs => (certs.map (fun c => hexdigest (P.sha256 c))).toFinset

/-- `ca_fingerprints`.  Encoding the argument is part of what may fail. -/
def caFingerprints (P : Platform K) (caBundlePem : Json) : Finset PyStr :=
  match caBundlePem.encode with
  | .ok data => bundleFingerprints P data
  | .error _ => ∅

/-- `read_pins`. -/
def readPins (d : Disk) (pinsPath : Path) : Except PyExc (Finset PyStr) :=
  if pathExists d pinsPath then
    match readText d pinsPath with
    | .ok text => .ok (((splitlines text).map strip).filter (fun l => l ≠ [])).toFinset
    | .error e => .error e
  else .ok ∅

/-- The text `write_pins` writes: one fingerprint a line, sorted. -/
def pinsText (fingerprints : Finset PyStr) : PyStr :=
  unlines (fingerprints.sort (· ≤ ·))

/-- `write_pins`. -/
def writePins (pinsPath : Path) (fingerprints : Finset PyStr) : AgentProg K Unit :=
  writeText pinsPath (.str (pinsText fingerprints))

/-- `bundle_preserves_pins`. -/
def bundlePreservesPins (P : Platform K) (newBundlePem : Json)
    (pinned : Finset PyStr) : Bool :=
  if pinned = ∅ then true
  else decide (¬ Disjoint (caFingerprints P newBundlePem) pinned)

/-- Every element is a digest in hexadecimal. -/
def Fingerprints (s : Finset PyStr) : Prop :=
  ∀ f ∈ s, ∃ d : Digest, f = hexdigest d

theorem bundleFingerprints_fingerprints (P : Platform K) (data : Bytes) :
    Fingerprints (bundleFingerprints P data) := by
  intro f hf
  unfold bundleFingerprints at hf
  cases hload : P.loadPemX509Certificates data with
  | none =>
      simp [hload] at hf
  | some certs =>
      rw [hload] at hf
      obtain ⟨c, _, hc⟩ := List.mem_map.mp (List.mem_toFinset.mp hf)
      exact ⟨P.sha256 c, hc.symm⟩

theorem caFingerprints_of_encode {P : Platform K} {v : Json} {data : Bytes}
    (h : v.encode = .ok data) :
    caFingerprints P v = bundleFingerprints P data := by
  simp [caFingerprints, h]

section PinFile

variable {s : Finset PyStr} (hs : Fingerprints s)
include hs

theorem sort_solid : ∀ l ∈ s.sort (· ≤ ·), Solid l := by
  intro l hl
  obtain ⟨d, rfl⟩ := hs l ((Finset.mem_sort _).mp hl)
  exact hexdigest_solid d

/-- The pin file holds hexadecimal digits and newlines only. -/
theorem mem_pinsText {c : CodePoint} (hc : c ∈ pinsText s) :
    c.val < 0x80 ∧ c.val ≠ 0x0D := by
  obtain ⟨l, hl, hc⟩ := List.mem_flatMap.mp hc
  obtain ⟨d, rfl⟩ := hs l ((Finset.mem_sort _).mp hl)
  rcases List.mem_append.mp hc with hc | hc
  · have hdigit := mem_hexdigest hc
    omega
  · rw [List.mem_singleton.mp hc]
    decide

theorem encodeUtf8_pinsText : ∃ data, encodeUtf8 (pinsText s) = some data :=
  encodeUtf8_ascii _ (fun _ hc => (mem_pinsText hs hc).1)

/-- The lines of the pin file, stripped, are the fingerprints. -/
theorem pinsText_lines :
    (((splitlines (pinsText s)).map strip).filter (fun l => l ≠ [])).toFinset = s := by
  have hsolid := sort_solid hs
  have hstrip : (s.sort (· ≤ ·)).map strip = s.sort (· ≤ ·) := by
    rw [List.map_congr_left (fun l hl => strip_of_solid (hsolid l hl))]
    simp
  have hfilter : (s.sort (· ≤ ·)).filter (fun l => l ≠ []) = s.sort (· ≤ ·) := by
    rw [List.filter_eq_self]
    intro l hl
    obtain ⟨d, rfl⟩ := hs l ((Finset.mem_sort _).mp hl)
    simpa using hexdigest_ne_nil d
  rw [pinsText, splitlines_unlines _ hsolid, hstrip, hfilter]
  exact Finset.sort_toFinset s (· ≤ ·)

/-- **Pin file round trip.** -/
theorem readPins_pinsText {data : Bytes} (hdata : encodeUtf8 (pinsText s) = some data)
    {d : Disk} {path : Path} (hfile : d path = some data) :
    readPins d path = .ok s := by
  have hread : readText d path = .ok (pinsText s) := by
    simp only [readText, hfile, decodeUtf8_encodeUtf8 hdata]
    rw [universalNewlines_eq _ (fun _ hc => (mem_pinsText hs hc).2)]
  simp only [readPins, pathExists, hfile, Option.isSome_some, if_true, hread]
  rw [pinsText_lines hs]

end PinFile

/-- A file that is missing or empty holds no pin. -/
theorem readPins_of_missing {d : Disk} {path : Path} (h : d path = none) :
    readPins d path = .ok ∅ := by
  simp [readPins, pathExists, h]

theorem readPins_of_empty {d : Disk} {path : Path} (h : d path = some []) :
    readPins d path = .ok ∅ := by
  simp [readPins, pathExists, readText, h, decodeUtf8, decodeFuel, universalNewlines,
    splitlines, splitlinesFrom]

/-- A bundle preserves a non-empty pin set when it contains a pinned certificate. -/
theorem bundlePreservesPins_iff {P : Platform K} {v : Json} {pinned : Finset PyStr}
    (h : pinned ≠ ∅) :
    bundlePreservesPins P v pinned = true ↔ ∃ f, f ∈ caFingerprints P v ∧ f ∈ pinned := by
  unfold bundlePreservesPins
  rw [if_neg h, decide_eq_true_iff, Finset.not_disjoint_iff]

end ProbeAgent
