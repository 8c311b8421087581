import ProbeAgent.Runs
import Mathlib.Algebra.Order.Ring.Rat
import Mathlib.Tactic.Linarith

/-!
# Steps at a cadence

A system reads a clock at every step, and takes the next step no later than some gap and
no earlier than some interval after it.  In a window of time that a run goes past, the
steps it takes cannot be fewer than the gap allows (`window_le_count`), and no stretch of
the run has more of them than the interval allows (`count_le_elapsed`).
-/

namespace Runs

universe u v

variable {σ : Type u} {α : Type v}

/-- The number of steps of a run that meet `C`. -/
def count (C : σ → α → Bool) : σ → List (α × σ) → Nat
  | _, [] => 0
  | s, (a, t) :: r => (if C s a then 1 else 0) + count C t r

section Cadence

variable {step : σ → α → σ → Prop} (clock : σ → ℚ) (C : σ → α → Bool)

/-- A run that goes past a window takes a step that counts at least once in a gap,
reckoned from the opening of the window, or from its first step if that comes later. -/
theorem window_le_count (opens closes : ℚ) {gap : ℚ} (Inv : σ → Prop) (hgap : 0 ≤ gap)
    (hkeep : ∀ {s a t}, step s a t → Inv s → Inv t)
    (hlate : ∀ {s a t}, step s a t → Inv s → clock t ≤ clock s + gap)
    (hcounts : ∀ {s a t}, step s a t → Inv s → opens ≤ clock s → clock s < closes →
      C s a = true)
    {s : σ} {r : List (α × σ)} (hr : Run step s r) (hs : Inv s)
    (hend : closes ≤ clock (lastState s r)) :
    (clock s < opens → closes - opens ≤ (count C s r + 1) * gap) ∧
      (opens ≤ clock s → closes - clock s ≤ count C s r * gap) := by
  induction hr with
  | nil s =>
      simp only [lastState] at hend
      simp only [count, Nat.cast_zero, zero_add, one_mul, zero_mul]
      constructor
      · intro hearly
        linarith
      · intro hopen
        linarith
  | @cons s t a r hst _ ih =>
      obtain ⟨hearlier, hopened⟩ := ih (hkeep hst hs) hend
      have hstep := hlate hst hs
      have hmore : (count C t r : ℚ) * gap ≤ count C s ((a, t) :: r) * gap := by
        refine mul_le_mul_of_nonneg_right ?_ hgap
        exact_mod_cast Nat.le_add_left _ _
      constructor
      · intro hearly
        rcases lt_or_ge (clock t) opens with ht | ht
        · have hrest := hearlier ht
          linarith
        · -- the window has opened since the last reading
          have hrest := hopened ht
          linarith
      · intro hopen
        rcases lt_or_ge (clock s) closes with hs' | hs'
        · have hone : count C s ((a, t) :: r) = 1 + count C t r := by
            rw [count, if_pos (hcounts hst hs hopen hs')]
          rw [hone]
          push_cast
          rcases lt_or_ge (clock t) opens with ht | ht
          · have hrest := hearlier ht
            linarith
          · have hrest := hopened ht
            linarith
        · have hnonneg : (0 : ℚ) ≤ count C s ((a, t) :: r) * gap :=
            mul_nonneg (Nat.cast_nonneg _) hgap
          linarith

/-- The steps of a run that count are no more than the interval between two allows. -/
theorem count_le_elapsed {interval : ℚ} (hinterval : 0 ≤ interval)
    (hearly : ∀ {s a t}, step s a t → clock s + interval ≤ clock t)
    {s : σ} {r : List (α × σ)} (hr : Run step s r) :
    count C s r * interval ≤ clock (lastState s r) - clock s := by
  induction hr with
  | nil s => simp [count, lastState]
  | @cons s t a r hst _ ih =>
      have hstep := hearly hst
      have hone : (count C s ((a, t) :: r) : ℚ) * interval ≤
          interval + count C t r * interval := by
        rw [count]
        split
        · push_cast
          linarith
        · push_cast
          linarith
      rw [lastState]
      linarith

end Cadence

end Runs
