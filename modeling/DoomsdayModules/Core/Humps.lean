import Mathlib

/-!
# Functions with one hump

A function that rises strictly up to one point and falls strictly from there,
and that takes the values of its falling side on the rising side too.  Such a
function keeps the order of two arguments exactly if the larger one is not past
the turning point, or the smaller one is as far down the rising side as the
larger one is down the falling side.
-/

namespace DoomsdayModules.Humps

/-- The mirror of a point past the turning point is the point of the rising
side with the same value. -/
structure Hump {α β : Type*} [LinearOrder α] [Preorder β] (s : Set α) (f : α → β) where
  turn : α
  mirror : α → α
  turn_mem : turn ∈ s
  rises : StrictMonoOn f (s ∩ Set.Iic turn)
  falls : StrictAntiOn f (s ∩ Set.Ici turn)
  mirror_spec : ∀ y ∈ s, turn < y → mirror y ∈ s ∧ mirror y ≤ turn ∧ f (mirror y) = f y

namespace Hump

section Order

variable {α β : Type*} [LinearOrder α] [Preorder β] {s : Set α} {f : α → β}

/-- The larger argument is not past the turning point, or the smaller one is the
same or not above its mirror. -/
def Climbs (hump : Hump s f) (x y : α) : Prop :=
  y ≤ hump.turn ∨ x = y ∨ x ≤ hump.mirror y

variable {hump : Hump s f} {x y : α}

theorem lt_turn_value (hy : y ∈ s) (hpast : hump.turn < y) : f y < f hump.turn :=
  hump.falls ⟨hump.turn_mem, Set.mem_Ici.mpr le_rfl⟩ ⟨hy, hpast.le⟩ hpast

theorem mirror_lt_turn (hy : y ∈ s) (hpast : hump.turn < y) : hump.mirror y < hump.turn := by
  obtain ⟨-, hle, hvalue⟩ := hump.mirror_spec y hy hpast
  apply lt_of_le_of_ne hle
  intro hsame
  rw [hsame] at hvalue
  exact (lt_turn_value hy hpast).ne' hvalue

/-- Where a function with a hump keeps the order of its arguments. -/
theorem le_iff_climbs (hx : x ∈ s) (hy : y ∈ s) (hle : x ≤ y) :
    f x ≤ f y ↔ hump.Climbs x y := by
  rcases le_or_gt y hump.turn with hturn | hpast
  · exact iff_of_true (hump.rises.monotoneOn ⟨hx, hle.trans hturn⟩ ⟨hy, hturn⟩ hle) (.inl hturn)
  have hmirror := mirror_lt_turn hy hpast
  obtain ⟨hmem, hbelow, hvalue⟩ := hump.mirror_spec y hy hpast
  rcases le_or_gt x hump.turn with hrising | hfalling
  · rw [← hvalue, hump.rises.le_iff_le ⟨hx, hrising⟩ ⟨hmem, hbelow⟩, Climbs]
    constructor
    · exact fun hxm => .inr (.inr hxm)
    · rintro (hturn | rfl | hxm)
      · exact absurd hturn hpast.not_ge
      · exact absurd hrising hpast.not_ge
      · exact hxm
  · constructor
    · intro hfle
      right; left
      by_contra hne
      exact hfle.not_gt
        (hump.falls ⟨hx, hfalling.le⟩ ⟨hy, hpast.le⟩ (lt_of_le_of_ne hle hne))
    · rintro (hturn | rfl | hxm)
      · exact absurd hturn hpast.not_ge
      · exact le_rfl
      · exact absurd (hxm.trans_lt hmirror) hfalling.not_gt

end Order

section Real

variable {s : Set ℝ} {f f' : ℝ → ℝ} {turn : ℝ}

theorem continuous_of_deriv (hderiv : ∀ x, HasDerivAt f (f' x) x) : Continuous f :=
  continuous_iff_continuousAt.mpr fun x => (hderiv x).continuousAt

/-- A derivative that is positive before the turning point and negative behind. -/
theorem rises_falls_of_deriv (hs : s.OrdConnected) (hderiv : ∀ x, HasDerivAt f (f' x) x)
    (hrise : ∀ x ∈ interior s, x < turn → 0 < f' x)
    (hfall : ∀ x ∈ interior s, turn < x → f' x < 0) :
    StrictMonoOn f (s ∩ Set.Iic turn) ∧ StrictAntiOn f (s ∩ Set.Ici turn) := by
  have hcontinuous := continuous_of_deriv hderiv
  constructor
  · apply strictMonoOn_of_deriv_pos (hs.inter Set.ordConnected_Iic).convex
      hcontinuous.continuousOn
    intro x hx
    rw [interior_inter, interior_Iic] at hx
    rw [(hderiv x).deriv]
    exact hrise x hx.1 hx.2
  · apply strictAntiOn_of_deriv_neg (hs.inter Set.ordConnected_Ici).convex
      hcontinuous.continuousOn
    intro x hx
    rw [interior_inter, interior_Ici] at hx
    rw [(hderiv x).deriv]
    exact hfall x hx.1 hx.2

/-- What comes down as far as some point of the rising side has mirrors. -/
theorem exists_mirror (hs : s.OrdConnected) (hturn : turn ∈ s) (hcontinuous : Continuous f)
    (hfalls : StrictAntiOn f (s ∩ Set.Ici turn))
    (hreturn : ∀ y ∈ s, turn < y → ∃ start ∈ s, start ≤ turn ∧ f start ≤ f y) :
    ∃ mirror : ℝ → ℝ, ∀ y ∈ s, turn < y →
      mirror y ∈ s ∧ mirror y ≤ turn ∧ f (mirror y) = f y := by
  have hpoint : ∀ y, ∃ m, y ∈ s → turn < y → m ∈ s ∧ m ≤ turn ∧ f m = f y := by
    intro y
    by_cases hy : y ∈ s ∧ turn < y
    · obtain ⟨start, hstart, hle, hvalue⟩ := hreturn y hy.1 hy.2
      have hbelow : f y ≤ f turn :=
        (hfalls ⟨hturn, Set.mem_Ici.mpr le_rfl⟩ ⟨hy.1, hy.2.le⟩ hy.2).le
      obtain ⟨m, hm, hfm⟩ :=
        intermediate_value_Icc hle hcontinuous.continuousOn ⟨hvalue, hbelow⟩
      exact ⟨m, fun _ _ => ⟨hs.out hstart hturn hm, hm.2, hfm⟩⟩
    · exact ⟨turn, fun hmem hpast => absurd ⟨hmem, hpast⟩ hy⟩
  choose mirror hmirror using hpoint
  exact ⟨mirror, hmirror⟩

/-- The hump of a continuous function that turns once and comes down no lower
than its rising side starts. -/
noncomputable def ofContinuous (hs : s.OrdConnected) (hturn : turn ∈ s)
    (hcontinuous : Continuous f)
    (hshape : StrictMonoOn f (s ∩ Set.Iic turn) ∧ StrictAntiOn f (s ∩ Set.Ici turn))
    (hreturn : ∀ y ∈ s, turn < y → ∃ start ∈ s, start ≤ turn ∧ f start ≤ f y) : Hump s f :=
  have hmirror := exists_mirror hs hturn hcontinuous hshape.2 hreturn
  { turn := turn
    mirror := hmirror.choose
    turn_mem := hturn
    rises := hshape.1
    falls := hshape.2
    mirror_spec := hmirror.choose_spec }

end Real

end Hump

end DoomsdayModules.Humps
