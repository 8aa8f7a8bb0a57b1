import DoomsdayModules.Core.TruncatedExp

/-!
# The activation functions

The kernel computes the exponential function by its series up to degree 30, and
the two activation functions from it.  Floating-point operations are read as
exact ones on rational numbers.
-/

namespace DoomsdayModules.NeuroSwap.Math

open DoomsdayModules.TruncatedExp

def expTailorPower : ℕ := 30

/-- The loop of `kexpf` up to a power: the sum and the last term. -/
def kexpfLoop (x : ℚ) (power : ℕ) : ℚ × ℚ :=
  (List.range' 1 power).foldl
    (fun ((sum, term) : ℚ × ℚ) (i : ℕ) =>
      let term := term * (x / i)
      (sum + term, term))
    (1, 1)

def kexpf (x : ℚ) : ℚ := (kexpfLoop x expTailorPower).1

def ktanhf (x : ℚ) : ℚ :=
  let ex := kexpf x
  let enx := kexpf (-x)
  (ex - enx) / (ex + enx)

def sigmoid (x : ℚ) : ℚ :=
  let expfv := kexpf (-x)
  1 / (1 + expfv)

/-- `matvec` on a matrix that is stored row by row. -/
def matvec {m n : ℕ} (A : ℕ → ℚ) (x : Fin n → ℚ) : Fin m → ℚ := fun i =>
  (List.finRange n).foldl (fun out j => out + A (i.val * n + j.val) * x j) 0

def vecAdd {n : ℕ} (out v : Fin n → ℚ) : Fin n → ℚ := fun i => out i + v i

/-- The loop sums up the series. -/
theorem kexpfLoop_eq (x : ℚ) (power : ℕ) :
    kexpfLoop x power = (truncExp power x, x ^ power / power.factorial) := by
  induction power with
  | zero => simp [kexpfLoop]
  | succ power ih =>
      rw [kexpfLoop, List.range'_1_concat, List.foldl_append, ← kexpfLoop, ih]
      simp only [List.foldl_cons, List.foldl_nil, Nat.add_comm 1 power]
      rw [pow_div_factorial_succ, truncExp_succ]

theorem kexpf_pos (x : ℚ) : 0 < kexpf x := by
  rw [kexpf, kexpfLoop_eq]
  exact truncExp_pos (by decide) x

/-- No denominator of an activation function is zero. -/
theorem denominators_pos (x : ℚ) : 0 < 1 + kexpf (-x) ∧ 0 < kexpf x + kexpf (-x) :=
  ⟨add_pos one_pos (kexpf_pos (-x)), add_pos (kexpf_pos x) (kexpf_pos (-x))⟩

theorem sigmoid_pos (x : ℚ) : 0 < sigmoid x := one_div_pos.mpr (denominators_pos x).1

theorem sigmoid_lt_one (x : ℚ) : sigmoid x < 1 := by
  rw [sigmoid, div_lt_one (denominators_pos x).1]
  exact lt_add_of_pos_right 1 (kexpf_pos (-x))

theorem abs_ktanhf_lt_one (x : ℚ) : |ktanhf x| < 1 := by
  have hpos := kexpf_pos x
  have hneg := kexpf_pos (-x)
  rw [ktanhf, abs_div, abs_of_pos (denominators_pos x).2, div_lt_one (denominators_pos x).2, abs_lt]
  constructor <;> linarith

end DoomsdayModules.NeuroSwap.Math
