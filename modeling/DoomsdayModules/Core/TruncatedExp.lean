import Mathlib

/-!
# The truncated exponential series

The sum of the first terms of the exponential series up to an even degree is
positive everywhere.  On the left of zero it is above the exponential function:
its quotient by that function falls, since all but the last term of the
derivative cancel.
-/

namespace DoomsdayModules.TruncatedExp

open Finset

/-- The exponential series up to degree `n`. -/
def truncExp {K : Type*} [Field K] (n : ℕ) (x : K) : K :=
  ∑ k ∈ range (n + 1), x ^ k / (k.factorial : K)

section Field

variable {K : Type*} [Field K]

@[simp]
theorem truncExp_zero (x : K) : truncExp 0 x = 1 := by
  simp [truncExp]

theorem truncExp_succ (n : ℕ) (x : K) :
    truncExp (n + 1) x = truncExp n x + x ^ (n + 1) / ((n + 1).factorial : K) :=
  sum_range_succ _ _

/-- One term of the series from the one before. -/
theorem pow_div_factorial_succ (n : ℕ) (x : K) :
    x ^ n / (n.factorial : K) * (x / ((n + 1 : ℕ) : K)) =
      x ^ (n + 1) / ((n + 1).factorial : K) := by
  rw [div_mul_div_comm, pow_succ, Nat.factorial_succ, Nat.cast_mul, mul_comm (n.factorial : K)]

end Field

theorem cast_truncExp (n : ℕ) (x : ℚ) : ((truncExp n x : ℚ) : ℝ) = truncExp n (x : ℝ) := by
  simp [truncExp]

/-! ## The derivative -/

theorem hasDerivAt_pow_div_factorial (n : ℕ) (x : ℝ) :
    HasDerivAt (fun y : ℝ => y ^ (n + 1) / ((n + 1).factorial : ℝ))
      (x ^ n / (n.factorial : ℝ)) x := by
  have hpow := (hasDerivAt_pow (n + 1) x).div_const ((n + 1).factorial : ℝ)
  have hvalue : ((n + 1 : ℕ) : ℝ) * x ^ n / ((n + 1).factorial : ℝ) = x ^ n / n.factorial := by
    rw [Nat.factorial_succ, Nat.cast_mul]
    exact mul_div_mul_left _ _ (Nat.cast_ne_zero.mpr n.succ_ne_zero)
  rw [Nat.add_sub_cancel, hvalue] at hpow
  exact hpow

/-- The derivative of the sum is the sum of one degree less. -/
theorem hasDerivAt_truncExp_succ (n : ℕ) (x : ℝ) :
    HasDerivAt (truncExp (n + 1)) (truncExp n x) x := by
  induction n with
  | zero =>
      have hsum : (truncExp 1 : ℝ → ℝ) = fun y => 1 + y := by
        funext y
        simp [truncExp, sum_range_succ]
      rw [hsum, truncExp_zero]
      exact (hasDerivAt_id x).const_add 1
  | succ n ih =>
      have hsum : (truncExp (n + 2) : ℝ → ℝ) =
          fun y => truncExp (n + 1) y + y ^ (n + 2) / ((n + 2).factorial : ℝ) :=
        funext (truncExp_succ (n + 1))
      rw [hsum, truncExp_succ]
      exact ih.add (hasDerivAt_pow_div_factorial (n + 1) x)

/-- In the derivative of the quotient by the exponential function only the last
term is left. -/
theorem hasDerivAt_truncExp_mul_exp_neg (n : ℕ) (x : ℝ) :
    HasDerivAt (fun y => truncExp (n + 1) y * Real.exp (-y))
      (-(x ^ (n + 1) / ((n + 1).factorial : ℝ)) * Real.exp (-x)) x := by
  have hexp : HasDerivAt (fun y => Real.exp (-y)) (Real.exp (-x) * -1) x :=
    (hasDerivAt_neg x).exp
  have hvalue : truncExp n x * Real.exp (-x) + truncExp (n + 1) x * (Real.exp (-x) * -1) =
      -(x ^ (n + 1) / ((n + 1).factorial : ℝ)) * Real.exp (-x) := by
    rw [truncExp_succ]
    ring
  rw [← hvalue]
  exact (hasDerivAt_truncExp_succ n x).mul hexp

/-! ## Positivity -/

theorem truncExp_pos_of_nonneg (n : ℕ) {x : ℝ} (hx : 0 ≤ x) : 0 < truncExp n x := by
  induction n with
  | zero => simp
  | succ n ih =>
      rw [truncExp_succ]
      positivity

/-- On the left of zero an even degree is above the exponential function. -/
theorem exp_le_truncExp_of_nonpos {n : ℕ} (hn : Even n) {x : ℝ} (hx : x ≤ 0) :
    Real.exp x ≤ truncExp n x := by
  cases n with
  | zero => simpa using Real.exp_le_one_iff.mpr hx
  | succ n =>
      have hantitone : Antitone fun y => truncExp (n + 1) y * Real.exp (-y) := by
        apply antitone_of_deriv_nonpos
        · exact fun y => (hasDerivAt_truncExp_mul_exp_neg n y).differentiableAt
        · intro y
          rw [(hasDerivAt_truncExp_mul_exp_neg n y).deriv]
          have hterm : 0 ≤ y ^ (n + 1) / ((n + 1).factorial : ℝ) :=
            div_nonneg (hn.pow_nonneg y) (Nat.cast_nonneg _)
          exact mul_nonpos_of_nonpos_of_nonneg (neg_nonpos.mpr hterm) (Real.exp_pos _).le
      have hzero : truncExp (n + 1) (0 : ℝ) * Real.exp (-0) = 1 := by
        simp [truncExp, sum_range_succ']
      have hquotient : 1 ≤ truncExp (n + 1) x * Real.exp (-x) := hzero ▸ hantitone hx
      calc Real.exp x = 1 * Real.exp x := (one_mul _).symm
        _ ≤ truncExp (n + 1) x * Real.exp (-x) * Real.exp x :=
            mul_le_mul_of_nonneg_right hquotient (Real.exp_pos x).le
        _ = truncExp (n + 1) x := by
            rw [mul_assoc, ← Real.exp_add, neg_add_cancel, Real.exp_zero, mul_one]

theorem truncExp_pos_of_even {n : ℕ} (hn : Even n) (x : ℝ) : 0 < truncExp n x := by
  rcases le_total 0 x with hx | hx
  · exact truncExp_pos_of_nonneg n hx
  · exact (Real.exp_pos _).trans_le (exp_le_truncExp_of_nonpos hn hx)

/-- The sum up to an even degree is positive at every rational number. -/
theorem truncExp_pos {n : ℕ} (hn : Even n) (x : ℚ) : 0 < truncExp n x := by
  have hreal := truncExp_pos_of_even hn (x : ℝ)
  rw [← cast_truncExp] at hreal
  exact_mod_cast hreal

/-! ## Growth -/

/-- One degree above an even one the sum rises everywhere. -/
theorem strictMono_truncExp_succ {n : ℕ} (hn : Even n) :
    StrictMono (truncExp (n + 1) : ℝ → ℝ) := by
  apply strictMono_of_deriv_pos
  intro x
  rw [(hasDerivAt_truncExp_succ n x).deriv]
  exact truncExp_pos_of_even hn x

theorem one_add_le_truncExp_succ (n : ℕ) {x : ℝ} (hx : 0 ≤ x) : 1 + x ≤ truncExp (n + 1) x := by
  induction n with
  | zero => simp [truncExp, sum_range_succ]
  | succ n ih =>
      rw [truncExp_succ]
      have hterm : 0 ≤ x ^ (n + 1 + 1) / ((n + 1 + 1).factorial : ℝ) := by positivity
      exact ih.trans (le_add_of_nonneg_right hterm)

theorem truncExp_neg_le (n : ℕ) {x : ℝ} (hx : 0 ≤ x) : truncExp n (-x) ≤ truncExp n x := by
  apply sum_le_sum
  intro k _
  apply div_le_div_of_nonneg_right _ (Nat.cast_nonneg _)
  calc
    (-x) ^ k ≤ |(-x) ^ k| := le_abs_self _
    _ = x ^ k := by rw [abs_pow, abs_neg, abs_of_nonneg hx]

end DoomsdayModules.TruncatedExp
