import DoomsdayModules.Core.TruncatedGates
import DoomsdayModules.NeuroSwap.Math

/-!
# Where the activation functions keep the order

A gate should never close when its argument grows.  The series of degree 30 is
used for every argument, however large, and grows in both directions, so
`sigmoid` rises up to a point just below 9 and then falls back to zero, and
`ktanhf` turns at a point near 9.25 and, on the left, at the negated one.  The
order of two arguments is kept exactly up to the turning points and beyond the
mirrored ones.
-/

namespace DoomsdayModules.NeuroSwap.Monotonicity

open DoomsdayModules.Humps DoomsdayModules.TruncatedExp DoomsdayModules.NeuroSwap.Math

theorem kexpf_eq (x : ℚ) : kexpf x = truncExp 30 x := by
  rw [kexpf, kexpfLoop_eq]
  rfl

theorem sigmoid_eq (x : ℚ) : sigmoid x = truncLogistic 30 x := by
  rw [sigmoid, kexpf_eq, truncLogistic]

theorem ktanhf_eq (x : ℚ) : ktanhf x = truncTanh 30 x := by
  rw [ktanhf, kexpf_eq, kexpf_eq, truncTanh]

/-! ## The turning points -/

/-- A function that crosses zero downwards between two rational numbers. -/
theorem exists_zero_between {f : ℝ → ℝ} {left right : ℝ} (hle : left ≤ right)
    (hcontinuous : Continuous f) (hleft : 0 < f left) (hright : f right < 0) :
    ∃ turn, left < turn ∧ turn < right ∧ f turn = 0 := by
  obtain ⟨turn, ⟨hlower, hupper⟩, hzero⟩ :=
    intermediate_value_Ioo' hle hcontinuous.continuousOn ⟨hright, hleft⟩
  exact ⟨turn, hlower, hupper, hzero⟩

theorem exists_sigmoidTurn :
    ∃ turn : ℝ, 899 / 100 < turn ∧ turn < 9 ∧ truncExp 29 (-turn) = 0 := by
  apply exists_zero_between (by norm_num)
  · exact continuous_iff_continuousAt.mpr fun x => (hasDerivAt_truncExp_neg 28 x).continuousAt
  · have hbefore : 0 < truncExp 29 (-(899 / 100) : ℚ) := by decide +kernel
    have hreal := Rat.cast_pos (K := ℝ) |>.mpr hbefore
    rw [cast_truncExp] at hreal
    push_cast at hreal
    exact hreal
  · have hbehind : truncExp 29 (-9 : ℚ) < 0 := by decide +kernel
    have hreal := Rat.cast_lt_zero (K := ℝ) |>.mpr hbehind
    rw [cast_truncExp] at hreal
    push_cast at hreal
    exact hreal

theorem exists_ktanhfTurn :
    ∃ turn : ℝ, 92 / 10 < turn ∧ turn < 93 / 10 ∧ truncTanhSlope 30 turn = 0 := by
  apply exists_zero_between (by norm_num)
  · exact continuous_iff_continuousAt.mpr fun x =>
      (hasDerivAt_truncTanhSlope (n := 29) (by decide) x).continuousAt
  · have hbefore : 0 < truncTanhSlope 30 (92 / 10 : ℚ) := by decide +kernel
    have hreal := Rat.cast_pos (K := ℝ) |>.mpr hbefore
    rw [cast_truncTanhSlope] at hreal
    push_cast at hreal
    exact hreal
  · have hbehind : truncTanhSlope 30 (93 / 10 : ℚ) < 0 := by decide +kernel
    have hreal := Rat.cast_lt_zero (K := ℝ) |>.mpr hbehind
    rw [cast_truncTanhSlope] at hreal
    push_cast at hreal
    exact hreal

/-- `sigmoid` on the real numbers turns at the negated root of the series of
degree 29. -/
noncomputable def sigmoidHump : Hump Set.univ (truncLogistic 30 : ℝ → ℝ) :=
  logisticHump (n := 28) (by decide) exists_sigmoidTurn.choose_spec.2.2

/-- `ktanhf` on the non-negative real numbers. -/
noncomputable def ktanhfHump : Hump (Set.Ici 0) (truncTanh 30 : ℝ → ℝ) :=
  have hturn := exists_ktanhfTurn.choose_spec
  tanhHump (n := 29) (by decide) (lt_trans (by norm_num) hturn.1) hturn.2.2

theorem sigmoidHump_turn : 899 / 100 < sigmoidHump.turn ∧ sigmoidHump.turn < 9 :=
  have hturn := exists_sigmoidTurn.choose_spec
  ⟨hturn.1, hturn.2.1⟩

theorem ktanhfHump_turn : 92 / 10 < ktanhfHump.turn ∧ ktanhfHump.turn < 93 / 10 :=
  have hturn := exists_ktanhfTurn.choose_spec
  ⟨hturn.1, hturn.2.1⟩

/-! ## The order of two arguments -/

theorem sigmoid_le_iff {x y : ℚ} (hle : x ≤ y) :
    sigmoid x ≤ sigmoid y ↔ sigmoidHump.Climbs x y := by
  rw [← truncLogistic_le_iff sigmoidHump (Rat.cast_le.mpr hle), ← cast_truncLogistic,
    ← cast_truncLogistic, Rat.cast_le, sigmoid_eq, sigmoid_eq]

theorem ktanhf_le_iff {x y : ℚ} (hle : x ≤ y) :
    ktanhf x ≤ ktanhf y ↔
      x ≤ 0 ∧ 0 ≤ y ∨ 0 ≤ x ∧ ktanhfHump.Climbs x y ∨ y ≤ 0 ∧ ktanhfHump.Climbs (-y) (-x) := by
  have hiff := truncTanh_le_iff (by decide) ktanhfHump (Rat.cast_le.mpr hle)
  rw [← cast_truncTanh, ← cast_truncTanh, Rat.cast_le, ← ktanhf_eq, ← ktanhf_eq] at hiff
  exact_mod_cast hiff

/-- The gates keep the order of two arguments exactly if, for `sigmoid`, the
larger argument is not past the turning point below 9 or the smaller one not
above its mirror, and, for `ktanhf`, zero lies between them or they are so
placed on one side of it. -/
theorem gates_monotone_iff {x y : ℚ} (hle : x ≤ y) :
    (sigmoid x ≤ sigmoid y ∧ ktanhf x ≤ ktanhf y ↔
      sigmoidHump.Climbs x y ∧
        (x ≤ 0 ∧ 0 ≤ y ∨ 0 ≤ x ∧ ktanhfHump.Climbs x y ∨
          y ≤ 0 ∧ ktanhfHump.Climbs (-y) (-x))) ∧
    (899 / 100 < sigmoidHump.turn ∧ sigmoidHump.turn < 9) ∧
    92 / 10 < ktanhfHump.turn ∧ ktanhfHump.turn < 93 / 10 := by
  rw [sigmoid_le_iff hle, ktanhf_le_iff hle]
  exact ⟨Iff.rfl, sigmoidHump_turn, ktanhfHump_turn⟩

theorem gates_monotone_small : sigmoid (-3) ≤ sigmoid 8 ∧ ktanhf (-3) ≤ ktanhf 8 := by
  obtain ⟨hiff, ⟨hturn, -⟩, -⟩ := @gates_monotone_iff (-3) 8 (by norm_num)
  refine hiff.mpr ⟨.inl ?_, .inl ⟨by norm_num, by norm_num⟩⟩
  push_cast
  linarith

/-- At 12 the gate is further closed than at 9. -/
theorem gates_close : ¬ ∀ x y : ℚ, x ≤ y → sigmoid x ≤ sigmoid y ∧ ktanhf x ≤ ktanhf y := by
  intro hall
  have hgate : ¬ sigmoid 9 ≤ sigmoid 12 := by decide +kernel
  exact hgate (hall 9 12 (by norm_num)).1

end DoomsdayModules.NeuroSwap.Monotonicity
