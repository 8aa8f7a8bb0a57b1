import DoomsdayModules.Core.Humps
import DoomsdayModules.Core.TruncatedExp

/-!
# Gates from a truncated exponential series

The logistic function and the hyperbolic tangent, with the sum of the first
terms of the exponential series in place of the exponential function.  On the
left of the root of the sum of one degree less, an even sum grows again, so the
logistic function falls behind the negated root.  The tangent behaves in the
same way on both sides of zero: the sign of its derivative is that of a function
that falls from two on the right of zero.
-/

namespace DoomsdayModules.TruncatedExp

open Finset DoomsdayModules.Humps

section Field

variable {K : Type*} [Field K]

def truncLogistic (n : ℕ) (x : K) : K := 1 / (1 + truncExp n (-x))

def truncTanh (n : ℕ) (x : K) : K :=
  (truncExp n x - truncExp n (-x)) / (truncExp n x + truncExp n (-x))

theorem truncTanh_neg (n : ℕ) (x : K) : truncTanh n (-x) = -truncTanh n x := by
  rw [truncTanh, truncTanh, neg_neg, ← neg_div, neg_sub, add_comm]

/-- The numerator of the derivative of `truncTanh`, halved. -/
def truncTanhSlope (n : ℕ) (x : K) : K :=
  2 * (truncExp n x * truncExp n (-x)) -
    x ^ n / (n.factorial : K) * (truncExp n x + truncExp n (-x))

end Field

theorem cast_truncLogistic (n : ℕ) (x : ℚ) :
    ((truncLogistic n x : ℚ) : ℝ) = truncLogistic n (x : ℝ) := by
  simp [truncLogistic, cast_truncExp]

theorem cast_truncTanh (n : ℕ) (x : ℚ) : ((truncTanh n x : ℚ) : ℝ) = truncTanh n (x : ℝ) := by
  simp [truncTanh, cast_truncExp]

theorem cast_truncTanhSlope (n : ℕ) (x : ℚ) :
    ((truncTanhSlope n x : ℚ) : ℝ) = truncTanhSlope n (x : ℝ) := by
  simp [truncTanhSlope, cast_truncExp]

theorem hasDerivAt_truncExp_neg (n : ℕ) (x : ℝ) :
    HasDerivAt (fun y => truncExp (n + 1) (-y)) (-truncExp n (-x)) x := by
  have hcomp := (hasDerivAt_truncExp_succ n (-x)).comp x (hasDerivAt_neg x)
  exact hcomp.congr_deriv (by ring)

/-! ## The logistic function -/

theorem hasDerivAt_truncLogistic {n : ℕ} (hn : Even (n + 1)) (x : ℝ) :
    HasDerivAt (truncLogistic (n + 1))
      (truncExp n (-x) / (1 + truncExp (n + 1) (-x)) ^ 2) x := by
  have hpos : 0 < 1 + truncExp (n + 1) (-x) := add_pos one_pos (truncExp_pos_of_even hn (-x))
  have hquotient := (hasDerivAt_const x (1 : ℝ)).div
    ((hasDerivAt_truncExp_neg n x).const_add 1) hpos.ne'
  exact hquotient.congr_deriv (by ring)

/-- Far enough on the left the logistic function is below any of its values. -/
theorem exists_truncLogistic_le {n : ℕ} (hn : Even (n + 1)) (turn y : ℝ) :
    ∃ start ≤ turn, truncLogistic (n + 1) start ≤ truncLogistic (n + 1) y := by
  have hpos := truncExp_pos_of_even hn (-y)
  let far := max (truncExp (n + 1) (-y)) (-turn)
  have hfar : truncExp (n + 1) (-y) ≤ far := le_max_left _ _
  have hgrowth := one_add_le_truncExp_succ n (hpos.le.trans hfar)
  refine ⟨-far, neg_le.mp (le_max_right _ _), ?_⟩
  simp only [truncLogistic, neg_neg]
  apply one_div_le_one_div_of_le (by linarith)
  linarith

theorem truncLogistic_rises_falls {n : ℕ} (hn : Even n) {turn : ℝ}
    (hturn : truncExp (n + 1) (-turn) = 0) :
    StrictMonoOn (truncLogistic (n + 2) : ℝ → ℝ) (Set.univ ∩ Set.Iic turn) ∧
      StrictAntiOn (truncLogistic (n + 2) : ℝ → ℝ) (Set.univ ∩ Set.Ici turn) := by
  have heven : Even (n + 1 + 1) := hn.add even_two
  have hsquare : ∀ x : ℝ, 0 < (1 + truncExp (n + 1 + 1) (-x)) ^ 2 := fun x =>
    pow_pos (add_pos one_pos (truncExp_pos_of_even heven (-x))) 2
  apply Hump.rises_falls_of_deriv Set.ordConnected_univ (hasDerivAt_truncLogistic heven)
  · intro x _ hbefore
    have hrises := strictMono_truncExp_succ hn (neg_lt_neg hbefore)
    rw [hturn] at hrises
    exact div_pos hrises (hsquare x)
  · intro x _ hbehind
    have hrises := strictMono_truncExp_succ hn (neg_lt_neg hbehind)
    rw [hturn] at hrises
    exact div_neg_of_neg_of_pos hrises (hsquare x)

/-- The logistic function of an even sum turns at the negated root of the sum
of one degree less. -/
noncomputable def logisticHump {n : ℕ} (hn : Even n) {turn : ℝ}
    (hturn : truncExp (n + 1) (-turn) = 0) :
    Hump Set.univ (truncLogistic (n + 2) : ℝ → ℝ) :=
  have heven : Even (n + 1 + 1) := hn.add even_two
  Hump.ofContinuous Set.ordConnected_univ (Set.mem_univ turn)
    (Hump.continuous_of_deriv (hasDerivAt_truncLogistic heven))
    (truncLogistic_rises_falls hn hturn)
    (fun y _ _ => by
      obtain ⟨start, hle, hvalue⟩ := exists_truncLogistic_le heven turn y
      exact ⟨start, Set.mem_univ _, hle, hvalue⟩)

theorem truncLogistic_le_iff {n : ℕ} (hump : Hump Set.univ (truncLogistic n : ℝ → ℝ)) {x y : ℝ}
    (hle : x ≤ y) : truncLogistic n x ≤ truncLogistic n y ↔ hump.Climbs x y :=
  Hump.le_iff_climbs (Set.mem_univ x) (Set.mem_univ y) hle

/-! ## The hyperbolic tangent -/

theorem hasDerivAt_truncTanh {n : ℕ} (hn : Even (n + 1)) (x : ℝ) :
    HasDerivAt (truncTanh (n + 1))
      (2 * truncTanhSlope (n + 1) x /
        (truncExp (n + 1) x + truncExp (n + 1) (-x)) ^ 2) x := by
  have hpos : 0 < truncExp (n + 1) x + truncExp (n + 1) (-x) :=
    add_pos (truncExp_pos_of_even hn x) (truncExp_pos_of_even hn (-x))
  have hup := hasDerivAt_truncExp_succ n x
  have hdown := hasDerivAt_truncExp_neg n x
  have hquotient := (hup.sub hdown).div (hup.add hdown) hpos.ne'
  have hterm : x ^ (n + 1) / ((n + 1).factorial : ℝ) = truncExp (n + 1) x - truncExp n x := by
    rw [truncExp_succ]
    ring
  have hterm' : truncExp n (-x) =
      truncExp (n + 1) (-x) - x ^ (n + 1) / ((n + 1).factorial : ℝ) := by
    rw [truncExp_succ, hn.neg_pow]
    ring
  refine hquotient.congr_deriv ?_
  congr 1
  rw [truncTanhSlope, hterm', hterm]
  simp only [Pi.sub_apply, Pi.add_apply]
  ring

theorem mul_truncExp (n : ℕ) (x : ℝ) :
    x * truncExp n x = ∑ k ∈ range (n + 2), (k : ℝ) * (x ^ k / (k.factorial : ℝ)) := by
  rw [sum_range_succ', truncExp, mul_sum, Nat.cast_zero, zero_mul, add_zero]
  apply sum_congr rfl
  intro k _
  rw [← pow_div_factorial_succ]
  have hne : ((k + 1 : ℕ) : ℝ) ≠ 0 := Nat.cast_ne_zero.mpr k.succ_ne_zero
  field_simp

theorem pow_add_neg_pow_nonneg {x : ℝ} (hx : 0 ≤ x) (k : ℕ) : 0 ≤ x ^ k + (-x) ^ k := by
  rcases Nat.even_or_odd k with hk | hk
  · rw [hk.neg_pow]
    positivity
  · rw [hk.neg_pow, add_neg_cancel]

/-- The even part of the sum outweighs the odd part times `x / (n + 1)`. -/
theorem odd_part_lt_even_part {n : ℕ} (hn : Even (n + 1)) {x : ℝ} (hx : 0 ≤ x) :
    x * (truncExp (n + 1) x - truncExp (n + 1) (-x)) <
      ((n + 1 : ℕ) : ℝ) * (truncExp (n + 1) x + truncExp (n + 1) (-x)) := by
  -- the top terms of the two sums are the same
  have htop : truncExp (n + 1) x - truncExp (n + 1) (-x) = truncExp n x - truncExp n (-x) := by
    rw [truncExp_succ, truncExp_succ, hn.neg_pow]
    ring
  have hodd : x * (truncExp (n + 1) x - truncExp (n + 1) (-x)) =
      ∑ k ∈ range (n + 2), (k : ℝ) * ((x ^ k + (-x) ^ k) / (k.factorial : ℝ)) := by
    calc
      x * (truncExp (n + 1) x - truncExp (n + 1) (-x)) =
          x * truncExp n x + -x * truncExp n (-x) := by rw [htop]; ring
      _ = _ := by
        rw [mul_truncExp, mul_truncExp, ← sum_add_distrib]
        exact sum_congr rfl fun k _ => by ring
  have heven : ((n + 1 : ℕ) : ℝ) * (truncExp (n + 1) x + truncExp (n + 1) (-x)) =
      ∑ k ∈ range (n + 2), ((n + 1 : ℕ) : ℝ) * ((x ^ k + (-x) ^ k) / (k.factorial : ℝ)) := by
    rw [← mul_sum, truncExp, truncExp, ← sum_add_distrib]
    congr 1
    exact sum_congr rfl fun k _ => by ring
  rw [hodd, heven]
  apply sum_lt_sum
  · intro k hk
    apply mul_le_mul_of_nonneg_right
    · exact_mod_cast Nat.lt_succ_iff.mp (mem_range.mp hk)
    · exact div_nonneg (pow_add_neg_pow_nonneg hx k) (Nat.cast_nonneg _)
  · refine ⟨0, by simp, ?_⟩
    have hpos : (0 : ℝ) < ((n + 1 : ℕ) : ℝ) := Nat.cast_pos.mpr n.succ_pos
    simpa using hpos

/-- The slope falls on the right of zero: its derivative is a power of `x` times
the odd part less the even part. -/
theorem hasDerivAt_truncTanhSlope {n : ℕ} (hn : Even (n + 1)) (x : ℝ) :
    HasDerivAt (truncTanhSlope (n + 1))
      (x ^ n / ((n + 1).factorial : ℝ) *
        (x * (truncExp (n + 1) x - truncExp (n + 1) (-x)) -
          ((n + 1 : ℕ) : ℝ) * (truncExp (n + 1) x + truncExp (n + 1) (-x)))) x := by
  have hup := hasDerivAt_truncExp_succ n x
  have hdown := hasDerivAt_truncExp_neg n x
  have hterm := hasDerivAt_pow_div_factorial n x
  have hslope := ((hup.mul hdown).const_mul 2).sub (hterm.mul (hup.add hdown))
  have hlower : truncExp n x =
      truncExp (n + 1) x - x ^ (n + 1) / ((n + 1).factorial : ℝ) := by
    rw [truncExp_succ]
    ring
  have hlower' : truncExp n (-x) =
      truncExp (n + 1) (-x) - x ^ (n + 1) / ((n + 1).factorial : ℝ) := by
    rw [truncExp_succ, hn.neg_pow]
    ring
  have hpower : x ^ n / (n.factorial : ℝ) =
      ((n + 1 : ℕ) : ℝ) * (x ^ n / ((n + 1).factorial : ℝ)) := by
    have hne : ((n + 1 : ℕ) : ℝ) ≠ 0 := Nat.cast_ne_zero.mpr n.succ_ne_zero
    rw [Nat.factorial_succ, Nat.cast_mul]
    field_simp
  refine hslope.congr_deriv ?_
  simp only [Pi.add_apply]
  rw [hlower, hlower', hpower]
  ring

theorem strictAntiOn_truncTanhSlope {n : ℕ} (hn : Even (n + 1)) :
    StrictAntiOn (truncTanhSlope (n + 1) : ℝ → ℝ) (Set.Ici 0) := by
  apply strictAntiOn_of_deriv_neg (convex_Ici 0)
  · exact fun x _ => (hasDerivAt_truncTanhSlope hn x).continuousAt.continuousWithinAt
  · intro x hx
    rw [interior_Ici] at hx
    rw [(hasDerivAt_truncTanhSlope hn x).deriv]
    have hpower : 0 < x ^ n / ((n + 1).factorial : ℝ) :=
      div_pos (pow_pos hx n) (Nat.cast_pos.mpr (n + 1).factorial_pos)
    exact mul_neg_of_pos_of_neg hpower (sub_neg.mpr (odd_part_lt_even_part hn hx.le))

/-! ## The hump of the tangent -/

theorem truncTanh_nonneg {n : ℕ} (hn : Even n) {x : ℝ} (hx : 0 ≤ x) : 0 ≤ truncTanh n x :=
  div_nonneg (sub_nonneg.mpr (truncExp_neg_le n hx))
    (add_pos (truncExp_pos_of_even hn x) (truncExp_pos_of_even hn (-x))).le

theorem truncTanh_rises_falls {n : ℕ} (hn : Even (n + 1)) {turn : ℝ} (hpos : 0 < turn)
    (hturn : truncTanhSlope (n + 1) turn = 0) :
    StrictMonoOn (truncTanh (n + 1) : ℝ → ℝ) (Set.Ici 0 ∩ Set.Iic turn) ∧
      StrictAntiOn (truncTanh (n + 1) : ℝ → ℝ) (Set.Ici 0 ∩ Set.Ici turn) := by
  have hsquare : ∀ x : ℝ, 0 < (truncExp (n + 1) x + truncExp (n + 1) (-x)) ^ 2 := fun x =>
    pow_pos (add_pos (truncExp_pos_of_even hn x) (truncExp_pos_of_even hn (-x))) 2
  have hslope := strictAntiOn_truncTanhSlope hn
  apply Hump.rises_falls_of_deriv Set.ordConnected_Ici (hasDerivAt_truncTanh hn)
  · intro x hx hbefore
    have hfalls := hslope (interior_subset hx) hpos.le hbefore
    rw [hturn] at hfalls
    exact div_pos (mul_pos two_pos hfalls) (hsquare x)
  · intro x hx hbehind
    have hfalls := hslope hpos.le (interior_subset hx) hbehind
    rw [hturn] at hfalls
    exact div_neg_of_neg_of_pos (mul_neg_of_pos_of_neg two_pos hfalls) (hsquare x)

/-- On the right of zero the tangent of an even sum turns at the zero of the
slope. -/
noncomputable def tanhHump {n : ℕ} (hn : Even (n + 1)) {turn : ℝ} (hpos : 0 < turn)
    (hturn : truncTanhSlope (n + 1) turn = 0) :
    Hump (Set.Ici 0) (truncTanh (n + 1) : ℝ → ℝ) :=
  Hump.ofContinuous Set.ordConnected_Ici hpos.le
    (Hump.continuous_of_deriv (hasDerivAt_truncTanh hn))
    (truncTanh_rises_falls hn hpos hturn)
    (fun y hy _ => ⟨0, Set.mem_Ici.mpr le_rfl, hpos.le, by
      have hzero : truncTanh (n + 1) (0 : ℝ) = 0 := by simp [truncTanh]
      rw [hzero]
      exact truncTanh_nonneg hn hy⟩)

/-- The tangent is in order on both sides of zero together; on one side the
order is that of the hump. -/
theorem truncTanh_le_iff {n : ℕ} (hn : Even n) (hump : Hump (Set.Ici 0) (truncTanh n : ℝ → ℝ))
    {x y : ℝ} (hle : x ≤ y) :
    truncTanh n x ≤ truncTanh n y ↔
      x ≤ 0 ∧ 0 ≤ y ∨ 0 ≤ x ∧ hump.Climbs x y ∨ y ≤ 0 ∧ hump.Climbs (-y) (-x) := by
  have hright : ∀ {x y : ℝ}, 0 ≤ x → x ≤ y →
      (truncTanh n x ≤ truncTanh n y ↔ hump.Climbs x y) := fun hx hle =>
    Hump.le_iff_climbs (Set.mem_Ici.mpr hx) (Set.mem_Ici.mpr (hx.trans hle)) hle
  have hleft : y ≤ 0 → (truncTanh n x ≤ truncTanh n y ↔ hump.Climbs (-y) (-x)) := by
    intro hy
    rw [← hright (neg_nonneg.mpr hy) (neg_le_neg hle), truncTanh_neg, truncTanh_neg,
      neg_le_neg_iff]
  constructor
  · intro hordered
    rcases le_total 0 x with hx | hx
    · exact .inr (.inl ⟨hx, (hright hx hle).mp hordered⟩)
    rcases le_total 0 y with hy | hy
    · exact .inl ⟨hx, hy⟩
    · exact .inr (.inr ⟨hy, (hleft hy).mp hordered⟩)
  · rintro (⟨hx, hy⟩ | ⟨hx, hclimbs⟩ | ⟨hy, hclimbs⟩)
    · have hbelow := truncTanh_nonneg hn (neg_nonneg.mpr hx)
      rw [truncTanh_neg] at hbelow
      exact (neg_nonneg.mp hbelow).trans (truncTanh_nonneg hn hy)
    · exact (hright hx hle).mpr hclimbs
    · exact (hleft hy).mpr hclimbs

end DoomsdayModules.TruncatedExp
