import Mathlib.Algebra.Order.Floor.Ring
import Mathlib.Data.Int.Log
import Mathlib.Data.Rat.Floor
import Mathlib.Tactic.Linarith

/-!
# Rounding to a binary floating-point format

A format has a number of significant bits and a least exponent.  `Format.round` takes
an exact rational to the nearest number of the format, to the one with an even last
place where two are equally near, and with it every operation on such numbers is its
exact result, rounded.  There is no greatest number: what overflows is not told apart.

* `Format.round_near`: a number is off by at most half a unit in its last place.
* `Format.abs_round_sub_le`: by at most half of such a unit for every number below a
  power of two, which is how several roundings are added up.
-/

namespace Rounding

/-- The nearest integer, and of two the even one. -/
def halfEven (q : ℚ) : ℤ :=
  if Int.fract q < 1 / 2 ∨ (Int.fract q = 1 / 2 ∧ ⌊q⌋ % 2 = 0) then ⌊q⌋ else ⌊q⌋ + 1

theorem halfEven_near (q : ℚ) : |(halfEven q : ℚ) - q| ≤ 1 / 2 := by
  have hsplit := Int.floor_add_fract q
  have hnonneg := Int.fract_nonneg q
  have hlt := Int.fract_lt_one q
  unfold halfEven
  split
  · rename_i hdown
    have hhalf : Int.fract q ≤ 1 / 2 := hdown.elim le_of_lt fun h => h.1.le
    rw [abs_le]
    constructor <;> linarith
  · rename_i hup
    rw [not_or, not_lt] at hup
    rw [abs_le, Int.cast_add, Int.cast_one]
    constructor <;> linarith [hup.1]

theorem halfEven_nonneg {q : ℚ} (h : 0 ≤ q) : 0 ≤ halfEven q := by
  have hfloor : 0 ≤ ⌊q⌋ := Int.floor_nonneg.mpr h
  unfold halfEven
  split <;> omega

theorem halfEven_mono {q r : ℚ} (h : q ≤ r) : halfEven q ≤ halfEven r := by
  have hfloor : ⌊q⌋ ≤ ⌊r⌋ := Int.floor_mono h
  rcases hfloor.eq_or_lt with heq | hlt
  · have hsplit := Int.floor_add_fract q
    have hsplit' := Int.floor_add_fract r
    have hcast : (⌊q⌋ : ℚ) = ⌊r⌋ := congrArg _ heq
    have hfract : Int.fract q ≤ Int.fract r := by linarith
    unfold halfEven
    rw [heq]
    split
    · split <;> omega
    · rename_i hup
      rw [if_neg]
      rintro (hdown | ⟨hdown, heven⟩)
      · exact hup (.inl (hfract.trans_lt hdown))
      · exact hup (hfract.lt_or_eq.imp (·.trans_eq hdown) fun h => ⟨h.trans hdown, heven⟩)
  · unfold halfEven
    split <;> split <;> omega

theorem halfEven_intCast (n : ℤ) : halfEven n = n := by
  simp [halfEven]

/-- A binary floating-point format without a greatest number. -/
structure Format where
  /-- The significant bits, the leading one included. -/
  precision : ℕ
  /-- The exponent of the least positive number. -/
  minExponent : ℤ
  precision_pos : 0 < precision

namespace Format

variable (F : Format) {q : ℚ}

/-- The exponent of the last place of a number of that size. -/
def lastPlace (q : ℚ) : ℤ :=
  max (Int.log 2 |q| + 1 - F.precision) F.minExponent

/-- The nearest number of the format. -/
def round (q : ℚ) : ℚ :=
  halfEven (q / 2 ^ F.lastPlace q) * 2 ^ F.lastPlace q

theorem round_near (q : ℚ) : |F.round q - q| ≤ 2 ^ F.lastPlace q / 2 := by
  have hunit : (0 : ℚ) < 2 ^ F.lastPlace q := zpow_pos two_pos _
  have hsplit : F.round q - q =
      (halfEven (q / 2 ^ F.lastPlace q) - q / 2 ^ F.lastPlace q) * 2 ^ F.lastPlace q := by
    rw [sub_mul, div_mul_cancel₀ _ hunit.ne']
    rfl
  rw [hsplit, abs_mul, abs_of_pos hunit]
  have hnear := mul_le_mul_of_nonneg_right (halfEven_near (q / 2 ^ F.lastPlace q)) hunit.le
  linarith

theorem round_nonneg (h : 0 ≤ q) : 0 ≤ F.round q := by
  have hunit : (0 : ℚ) < 2 ^ F.lastPlace q := zpow_pos two_pos _
  have hround := halfEven_nonneg (div_nonneg h hunit.le)
  exact mul_nonneg (by exact_mod_cast hround) hunit.le

/-- A number of the format's grid bounds what is rounded below it. -/
theorem round_le {n : ℤ} (hq : q ≤ n * 2 ^ F.lastPlace q) :
    F.round q ≤ n * 2 ^ F.lastPlace q := by
  have hunit : (0 : ℚ) < 2 ^ F.lastPlace q := zpow_pos two_pos _
  have hle := halfEven_mono ((div_le_iff₀ hunit).mpr hq)
  rw [halfEven_intCast] at hle
  exact mul_le_mul_of_nonneg_right (by exact_mod_cast hle) hunit.le

theorem le_round {n : ℤ} (hq : n * 2 ^ F.lastPlace q ≤ q) :
    n * 2 ^ F.lastPlace q ≤ F.round q := by
  have hunit : (0 : ℚ) < 2 ^ F.lastPlace q := zpow_pos two_pos _
  have hle := halfEven_mono ((le_div_iff₀ hunit).mpr hq)
  rw [halfEven_intCast] at hle
  exact mul_le_mul_of_nonneg_right (by exact_mod_cast hle) hunit.le

/-- What is less than half a unit above a number of the grid is rounded to it or below. -/
theorem round_le_of_lt {n : ℤ} (hq : q < n * 2 ^ F.lastPlace q + 2 ^ F.lastPlace q / 2) :
    F.round q ≤ n * 2 ^ F.lastPlace q := by
  have hunit : (0 : ℚ) < 2 ^ F.lastPlace q := zpow_pos two_pos _
  have hbelow : q / 2 ^ F.lastPlace q < n + 1 / 2 := by
    rw [div_lt_iff₀ hunit]
    linarith
  have hnear := (abs_le.mp (halfEven_near (q / 2 ^ F.lastPlace q))).2
  have hlt : (halfEven (q / 2 ^ F.lastPlace q) : ℚ) < n + 1 := by linarith
  have hle : halfEven (q / 2 ^ F.lastPlace q) ≤ n :=
    Int.lt_add_one_iff.mp (by exact_mod_cast hlt)
  exact mul_le_mul_of_nonneg_right (by exact_mod_cast hle) hunit.le

/-- Rounding keeps the order. -/
theorem round_mono {r : ℚ} (hq : 0 ≤ q) (h : q ≤ r) : F.round q ≤ F.round r := by
  rcases hq.eq_or_lt with rfl | hpos
  · have hzero : F.round 0 = 0 := by simp [round, halfEven]
    rw [hzero]
    exact F.round_nonneg h
  have hpos' : 0 < r := hpos.trans_le h
  have hlog : Int.log 2 q ≤ Int.log 2 r := Int.log_mono_right hpos h
  have hplaces : F.lastPlace q ≤ F.lastPlace r := by
    rw [lastPlace, lastPlace, abs_of_pos hpos, abs_of_pos hpos']
    omega
  rcases hplaces.eq_or_lt with heq | hlt
  · have hunit : (0 : ℚ) < 2 ^ F.lastPlace r := zpow_pos two_pos _
    rw [round, round, heq]
    have hle := halfEven_mono (div_le_div_of_nonneg_right h hunit.le)
    exact mul_le_mul_of_nonneg_right (by exact_mod_cast hle) hunit.le
  · -- the power of two at the head of `r` is on both grids and stands between them
    have hprecision := F.precision_pos
    have hgap : Int.log 2 q + 1 ≤ Int.log 2 r ∧ F.lastPlace q ≤ Int.log 2 r ∧
        F.lastPlace r ≤ Int.log 2 r := by
      rw [lastPlace, lastPlace, abs_of_pos hpos, abs_of_pos hpos'] at hlt ⊢
      omega
    have hgrid : ∀ e, e ≤ Int.log 2 r →
        (((2 ^ (Int.log 2 r - e).toNat : ℤ) : ℚ)) * 2 ^ e = 2 ^ Int.log 2 r := by
      intro e he
      rw [Int.cast_pow, Int.cast_ofNat, ← zpow_natCast, ← zpow_add₀ two_ne_zero]
      congr 1
      omega
    have hbelow : q ≤ 2 ^ Int.log 2 r := by
      have hnext : q < 2 ^ (Int.log 2 q + 1) := by
        exact_mod_cast Int.lt_zpow_succ_log_self one_lt_two q
      exact hnext.le.trans (zpow_le_zpow_right₀ one_le_two hgap.1)
    have habove : (2 : ℚ) ^ Int.log 2 r ≤ r := by
      exact_mod_cast Int.zpow_log_le_self one_lt_two hpos'
    rw [← hgrid _ hgap.2.1] at hbelow
    rw [← hgrid _ hgap.2.2] at habove
    calc F.round q ≤ _ := F.round_le hbelow
      _ = 2 ^ Int.log 2 r := hgrid _ hgap.2.1
      _ = _ := (hgrid _ hgap.2.2).symm
      _ ≤ F.round r := F.le_round habove

/-- The last place of a number below a power of two. -/
theorem lastPlace_le {k : ℤ} (hq : |q| < 2 ^ k) (hk : F.minExponent ≤ k - F.precision) :
    F.lastPlace q ≤ max (k - F.precision) (1 - F.precision) := by
  rw [lastPlace, max_le_iff]
  refine ⟨?_, hk.trans (le_max_left _ _)⟩
  rcases (abs_nonneg q).eq_or_lt with hzero | hpos
  · rw [← hzero, Int.log_zero_right, zero_add]
    exact le_max_right _ _
  · have hlog := (Int.lt_zpow_iff_log_lt one_lt_two hpos).mp (by exact_mod_cast hq)
    exact le_trans (by omega) (le_max_left _ _)

/-- Below a power of two from one on, a rounding moves a number by at most half of the
unit in the last place there. -/
theorem abs_round_sub_le {k : ℤ} (hq : |q| < 2 ^ k) (hone : 1 ≤ k)
    (hk : F.minExponent ≤ k - F.precision) :
    |F.round q - q| ≤ 2 ^ (k - F.precision) / 2 := by
  have hplace := F.lastPlace_le hq hk
  rw [max_eq_left (by omega)] at hplace
  have hunit : (2 : ℚ) ^ F.lastPlace q ≤ 2 ^ (k - F.precision) :=
    zpow_le_zpow_right₀ one_le_two hplace
  have hnear := F.round_near q
  linarith

end Format

/-- Double precision. -/
def binary64 : Format :=
  ⟨53, -1074, by decide⟩

/-- The nearest double. -/
def double (q : ℚ) : ℚ :=
  binary64.round q

theorem double_nonneg {q : ℚ} (h : 0 ≤ q) : 0 ≤ double q :=
  binary64.round_nonneg h

theorem double_mono {q r : ℚ} (hq : 0 ≤ q) (h : q ≤ r) : double q ≤ double r :=
  binary64.round_mono hq h

theorem abs_double_sub_le {q : ℚ} {k : ℤ} (hq : |q| < 2 ^ k) (hk : 1 ≤ k) :
    |double q - q| ≤ 2 ^ (k - 53) / 2 :=
  binary64.abs_round_sub_le hq hk (by simp only [binary64]; omega)

/-- The last place of a double from one to the 53rd power of two. -/
theorem lastPlace_binary64 {q : ℚ} (hq : 1 ≤ q) (hlt : q < 2 ^ (53 : ℤ)) :
    binary64.lastPlace q = Int.log 2 q - 52 ∧ Int.log 2 q ≤ 52 := by
  have hpos : 0 < q := lt_of_lt_of_le one_pos hq
  have hbottom : 0 ≤ Int.log 2 q :=
    (Int.zpow_le_iff_le_log one_lt_two hpos).mp (by simpa using hq)
  have htop : Int.log 2 q < 53 :=
    (Int.lt_zpow_iff_log_lt one_lt_two hpos).mp (by exact_mod_cast hlt)
  refine ⟨?_, by omega⟩
  rw [Format.lastPlace, abs_of_pos hpos]
  simp only [binary64]
  omega

/-- What is above a whole number by less than a 54th binary place of it is rounded to that
number or below. -/
theorem double_le_natCast {m : ℕ} {q : ℚ} (hm : 1 ≤ m) (hlt : m < 2 ^ 52) (hle : (m : ℚ) ≤ q)
    (hq : q < m + m / 2 ^ 54) : double q ≤ m := by
  have hone : (1 : ℚ) ≤ m := by exact_mod_cast hm
  have hbound : (m : ℚ) < 4503599627370496 := by exact_mod_cast hlt
  have hqlt : q < 2 ^ (53 : ℤ) := by
    norm_num
    linarith
  obtain ⟨hplace, hlog⟩ := lastPlace_binary64 (hone.trans hle) hqlt
  have hnext : q < 2 ^ (Int.log 2 q - 52) * 2 ^ 53 := by
    have hsucc : q < 2 ^ (Int.log 2 q + 1) := by
      exact_mod_cast Int.lt_zpow_succ_log_self one_lt_two q
    rwa [show Int.log 2 q + 1 = Int.log 2 q - 52 + 53 by ring, zpow_add₀ two_ne_zero] at hsucc
  -- the whole number is one of the format
  have hgrid : ((m * 2 ^ (52 - Int.log 2 q).toNat : ℤ) : ℚ) * 2 ^ binary64.lastPlace q = m := by
    have hcancel : ((52 - Int.log 2 q).toNat : ℤ) + (Int.log 2 q - 52) = 0 := by omega
    rw [hplace]
    push_cast
    rw [mul_assoc, ← zpow_natCast, ← zpow_add₀ two_ne_zero, hcancel, zpow_zero, mul_one]
  have hround : binary64.round q ≤
      ((m * 2 ^ (52 - Int.log 2 q).toNat : ℤ) : ℚ) * 2 ^ binary64.lastPlace q := by
    refine binary64.round_le_of_lt ?_
    rw [hgrid, hplace]
    generalize (2 : ℚ) ^ (Int.log 2 q - 52) = unit at hnext ⊢
    linarith
  rwa [hgrid] at hround

example : double (1 / 100) = 5764607523034235 / 2 ^ 59 := by decide +kernel

end Rounding
