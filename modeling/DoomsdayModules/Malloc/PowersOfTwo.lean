import DoomsdayModules.Malloc.Util
import Mathlib.Order.Bounds.Basic

/-!
# How far the power-of-two loops reach

`util.c` rounds a size to a power of two, downwards and upwards, and returns
either the power or its exponent.  The four functions run two loops.  The
upward loop stops at a power that is large enough, and up to `2 ^ 63` there is
one among the 64 shifts a 64-bit one allows.  The downward loop looks one
exponent ahead: it stops at the first power that is too large, and from
`2 ^ 63` on the first such power is `2 ^ 64`, which no defined shift computes.
-/

namespace DoomsdayModules.PowersOfTwo

open DoomsdayModules.Util

def log2Lower (size : ℕ) : Option ℕ := log2LowerLoop size 63 0

/-- The loop of `log2_upper`, returning the power in place of its exponent. -/
def minUpperPowerOf2 (size : ℕ) : Option ℕ := (log2UpperLoop size 64 0).map (2 ^ ·)

/-! ## The downward loop -/

theorem log2LowerLoop_eq_some {size shifts p : ℕ} (hstart : p ≤ Nat.log 2 size)
    (hsize : size ≠ 0) (hshifts : Nat.log 2 size < p + shifts) :
    log2LowerLoop size shifts p = some (Nat.log 2 size) := by
  induction shifts generalizing p with
  | zero => omega
  | succ shifts ih =>
      have hiff : 2 ^ (p + 1) ≤ size ↔ p + 1 ≤ Nat.log 2 size :=
        (Nat.le_log_iff_pow_le (by norm_num) hsize).symm
      by_cases hmore : 2 ^ (p + 1) ≤ size
      · simp only [log2LowerLoop, if_pos hmore]
        exact ih (hiff.mp hmore) (by omega)
      · simp only [log2LowerLoop, if_neg hmore]
        rw [hiff] at hmore
        congr 1
        omega

/-- As long as every exponent it tries is reached, the loop goes on. -/
theorem log2LowerLoop_eq_none {size shifts p : ℕ} (hreached : 2 ^ (p + shifts) ≤ size) :
    log2LowerLoop size shifts p = none := by
  induction shifts generalizing p with
  | zero => rfl
  | succ shifts ih =>
      have hstep : 2 ^ (p + 1) ≤ 2 ^ (p + (shifts + 1)) :=
        Nat.pow_le_pow_right (by norm_num) (by omega)
      simp only [log2LowerLoop, if_pos (hstep.trans hreached)]
      apply ih
      rw [show p + 1 + shifts = p + (shifts + 1) by omega]
      exact hreached

/-- The downward loop ends before it shifts by 64 exactly below `2 ^ 63`. -/
theorem log2Lower_eq {size : ℕ} (hsize : size ≠ 0) :
    log2Lower size = if size < 2 ^ 63 then some (Nat.log 2 size) else none := by
  by_cases hsmall : size < 2 ^ 63
  · have hlog : Nat.log 2 size < 63 := (Nat.log_lt_iff_lt_pow (by norm_num) hsize).mpr hsmall
    rw [if_pos hsmall]
    exact log2LowerLoop_eq_some (Nat.zero_le _) hsize (by omega)
  · rw [if_neg hsmall]
    exact log2LowerLoop_eq_none (by omega)

theorem maxLowerPowerOf2_eq (size : ℕ) :
    maxLowerPowerOf2 size = (log2Lower size).map (2 ^ ·) := rfl

theorem isGreatest_log {size : ℕ} (hsize : size ≠ 0) :
    IsGreatest {p | 2 ^ p ≤ size} (Nat.log 2 size) := by
  constructor
  · exact Nat.pow_log_le_self 2 hsize
  · intro p hp
    exact (Nat.le_log_iff_pow_le (by norm_num) hsize).mpr hp

/-! ## The upward loop -/

theorem minUpperPowerOf2_eq (size : ℕ) :
    minUpperPowerOf2 size = (log2Upper size).map (2 ^ ·) := rfl

theorem isLeast_clog (size : ℕ) : IsLeast {p | size ≤ 2 ^ p} (Nat.clog 2 size) := by
  constructor
  · exact Nat.le_pow_clog (by norm_num) size
  · intro p hp
    exact Nat.clog_le_of_le_pow hp

/-! ## The four functions together -/

/-- The two downward functions end, without a shift by 64, at the greatest
power of two that does not exceed the size. -/
def RoundsDown (size : ℕ) : Prop :=
  ∃ p, log2Lower size = some p ∧ maxLowerPowerOf2 size = some (2 ^ p) ∧
    IsGreatest {q | 2 ^ q ≤ size} p

/-- The two upward functions end, without a shift by 64, at the least power of
two that is not below the size. -/
def RoundsUp (size : ℕ) : Prop :=
  ∃ p, log2Upper size = some p ∧ minUpperPowerOf2 size = some (2 ^ p) ∧
    IsLeast {q | size ≤ 2 ^ q} p

theorem roundsDown_iff {size : ℕ} (hsize : size ≠ 0) : RoundsDown size ↔ size < 2 ^ 63 := by
  rw [RoundsDown, maxLowerPowerOf2_eq, log2Lower_eq hsize]
  constructor
  · rintro ⟨p, hlog, -⟩
    by_contra hlarge
    rw [if_neg hlarge] at hlog
    cases hlog
  · intro hsmall
    rw [if_pos hsmall]
    exact ⟨Nat.log 2 size, rfl, rfl, isGreatest_log hsize⟩

theorem roundsUp_of_le {size : ℕ} (hsize : size ≤ 2 ^ 63) : RoundsUp size := by
  rw [RoundsUp, minUpperPowerOf2_eq, log2Upper_eq_clog hsize]
  exact ⟨Nat.clog 2 size, rfl, rfl, isLeast_clog size⟩

/-- The four loops do what their names say exactly for the sizes below
`2 ^ 63`; from there on the downward ones shift a 64-bit one by 64. -/
theorem powerOfTwoLoops_round_iff {size : ℕ} (hpositive : 1 ≤ size) (hword : size < 2 ^ 64) :
    (RoundsDown size ∧ (size ≤ 2 ^ 63 → RoundsUp size)) ↔ size < 2 ^ 63 := by
  constructor
  · rintro ⟨hdown, -⟩
    exact (roundsDown_iff (by omega)).mp hdown
  · intro hsmall
    exact ⟨(roundsDown_iff (by omega)).mpr hsmall, roundsUp_of_le⟩

theorem powerOfTwoLoops_round_ten : RoundsDown 10 ∧ ((10 : ℕ) ≤ 2 ^ 63 → RoundsUp 10) :=
  (powerOfTwoLoops_round_iff (by norm_num) (by norm_num)).mpr (by norm_num)

/-- At `2 ^ 63`, whose logarithm is 63, the downward loop has no result. -/
theorem powerOfTwoLoops_fail_at_half_word :
    ¬ ∀ size : ℕ, 1 ≤ size → size < 2 ^ 64 →
      RoundsDown size ∧ (size ≤ 2 ^ 63 → RoundsUp size) := by
  intro hall
  obtain ⟨⟨p, hlog, -⟩, -⟩ := hall (2 ^ 63) (by norm_num) (by norm_num)
  rw [log2Lower_eq (by norm_num), if_neg (by norm_num)] at hlog
  cases hlog

end DoomsdayModules.PowersOfTwo
