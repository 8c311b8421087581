import Mathlib.Data.Finset.Card
import ProbeAgent.Runs

/-!
# A queue in front of equal servers

Those who arrive wait in line.  A server that is free takes the first of the line;
whoever is still in line may abandon it.  Over every run of it, no more are served at a
time than there are servers, and nobody is served before one who arrived earlier and
is still in line: those taken, followed by those still in line, stand in the order of
their arrival.
-/

namespace ServerQueue

open Runs

universe u

/-- Those in line, and those being served. -/
@[ext]
structure Servers (ι : Type u) where
  waiting : List ι := []
  serving : Finset ι := ∅

inductive Move (ι : Type u)
  | arrive (i : ι)
  | start (i : ι)
  | abandon (i : ι)
  | leave (i : ι)

variable {ι : Type u}

/-- The one who arrives, in a move that is an arrival. -/
def Move.arrived : Move ι → Option ι
  | .arrive i => some i
  | _ => none

/-- The one who is taken from the line. -/
def Move.started : Move ι → Option ι
  | .start i => some i
  | _ => none

/-- All who arrive in a run, in this order. -/
def arrivals {σ : Type*} (r : List (Move ι × σ)) : List ι :=
  r.filterMap fun x => x.1.arrived

/-- All who are taken in a run, in this order. -/
def starts {σ : Type*} (r : List (Move ι × σ)) : List ι :=
  r.filterMap fun x => x.1.started

variable [DecidableEq ι]

/-- One move of a queue in front of `k` servers. -/
inductive Step (k : Nat) (s : Servers ι) : Move ι → Servers ι → Prop
  | arrive (i : ι) : Step k s (.arrive i) { s with waiting := s.waiting ++ [i] }
  | start {i : ι} {rest : List ι} : s.waiting = i :: rest → s.serving.card < k →
      Step k s (.start i) ⟨rest, insert i s.serving⟩
  | abandon (i : ι) : Step k s (.abandon i) { s with waiting := s.waiting.erase i }
  | leave (i : ι) : Step k s (.leave i) { s with serving := s.serving.erase i }

variable {k : Nat} {s t : Servers ι} {r : List (Move ι × Servers ι)}

/-- No move makes more be served than there are servers. -/
theorem Step.card_le {m : Move ι} (h : Step k s m t) (hs : s.serving.card ≤ k) :
    t.serving.card ≤ k := by
  cases h with
  | arrive i =>
      exact hs
  | @start i rest _ hfree =>
      exact (Finset.card_insert_le i s.serving).trans hfree
  | abandon i =>
      exact hs
  | leave i =>
      exact (Finset.card_le_card (Finset.erase_subset i s.serving)).trans hs

/-- **No more than the servers.** -/
theorem card_lastState_le (hr : Run (Step k) s r) (hs : s.serving.card ≤ k) :
    (lastState s r).serving.card ≤ k :=
  invariant_lastState (fun s : Servers ι => s.serving.card ≤ k) Step.card_le hr hs

/-- **First come, first served.** Those taken and those left in line stand in the order
in which they came. -/
theorem starts_sublist_arrivals (hr : Run (Step k) s r) :
    List.Sublist (starts r ++ (lastState s r).waiting) (s.waiting ++ arrivals r) := by
  induction hr with
  | nil s =>
      simp [starts, arrivals, lastState]
  | @cons s t m r hst _ ih =>
      cases hst with
      | arrive i =>
          simpa [starts, arrivals, lastState, Move.started, Move.arrived] using ih
      | @start i rest hline hfree =>
          simpa [starts, arrivals, lastState, Move.started, Move.arrived, hline] using
            ih.cons_cons i
      | abandon i =>
          have herase := (List.erase_sublist (a := i) (l := s.waiting)).append_right (arrivals r)
          simpa [starts, arrivals, lastState, Move.started, Move.arrived] using ih.trans herase
      | leave i =>
          simpa [starts, arrivals, lastState, Move.started, Move.arrived] using ih

end ServerQueue
