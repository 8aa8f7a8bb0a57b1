import DoomsdayModules.Core.DyadicBlocks
import Mathlib.Data.Nat.Bitwise
import Mathlib.Data.Set.Insert

/-!
# Canonical covers of a set of pages

A block is full for a set of pages when all its pages are in the set, and
maximal when in addition no block above it is full.  The maximal blocks are the
canonical cover of the set.  Adding one page puts one block into the cover, the
largest block the page completes, in place of the maximal blocks under it.
-/

namespace DoomsdayModules.DyadicBlocks

namespace Block

/-! ## Parents and siblings -/

def parent (block : Block) : Block := ⟨block.layer - 1, block.index / 2⟩

/-- The other half of the block's parent. -/
def sibling (block : Block) : Block := ⟨block.layer, block.index ^^^ 1⟩

theorem parent_leftHalf (block : Block) : block.leftHalf.parent = block := by
  simp [parent, leftHalf]

theorem parent_rightHalf (block : Block) : block.rightHalf.parent = block := by
  cases block
  simp only [parent, rightHalf, mk.injEq]
  omega

theorem sibling_leftHalf (block : Block) : block.leftHalf.sibling = block.rightHalf := by
  simp only [sibling, leftHalf, rightHalf, mk.injEq, true_and]
  exact Nat.xor_one_of_even (even_two_mul _)

theorem sibling_rightHalf (block : Block) : block.rightHalf.sibling = block.leftHalf := by
  simp only [sibling, leftHalf, rightHalf, mk.injEq, true_and]
  rw [Nat.xor_one_of_odd (odd_two_mul_add_one _)]
  omega

/-- Every block but the root is one of the halves of its parent. -/
theorem eq_half_parent {block : Block} (hlayer : 0 < block.layer) :
    block = block.parent.leftHalf ∨ block = block.parent.rightHalf := by
  cases block
  simp only [parent, leftHalf, rightHalf, mk.injEq] at hlayer ⊢
  omega

/-- A fact about both halves of a block is a fact about a block and its sibling. -/
theorem parent_sibling_cases {P : Block → Block → Block → Prop} {block : Block}
    (hlayer : 0 < block.layer)
    (hleft : P block.parent block.parent.leftHalf block.parent.rightHalf)
    (hright : P block.parent block.parent.rightHalf block.parent.leftHalf) :
    P block.parent block block.sibling := by
  rcases eq_half_parent hlayer with hhalf | hhalf
  · rw [hhalf, parent_leftHalf, sibling_leftHalf]
    exact hleft
  · rw [hhalf, parent_rightHalf, sibling_rightHalf]
    exact hright

theorem parent_sibling {block : Block} (hlayer : 0 < block.layer) :
    block.sibling.parent = block.parent :=
  parent_sibling_cases (P := fun parent _ sibling => sibling.parent = parent) hlayer
    (parent_rightHalf _) (parent_leftHalf _)

theorem parent_layer_lt {depth : ℕ} {block : Block} (hvalid : block.Valid depth)
    (hlayer : 0 < block.layer) : block.parent.layer < depth := by
  have := hvalid.1
  simp only [parent]
  omega

theorem Valid.parent {depth : ℕ} {block : Block} (hvalid : block.Valid depth)
    (hlayer : 0 < block.layer) : block.parent.Valid depth := by
  obtain ⟨hdepth, hindex⟩ := hvalid
  obtain ⟨steps, hsteps⟩ := Nat.exists_eq_succ_of_ne_zero hlayer.ne'
  rw [hsteps, pow_succ] at hindex
  simp only [Block.parent, Block.Valid, hsteps, Nat.succ_sub_one]
  omega

theorem Valid.sibling {depth : ℕ} {block : Block} (hvalid : block.Valid depth)
    (hlayer : 0 < block.layer) : block.sibling.Valid depth :=
  parent_sibling_cases (P := fun _ _ sibling => sibling.Valid depth) hlayer
    ((hvalid.parent hlayer).rightHalf (parent_layer_lt hvalid hlayer))
    ((hvalid.parent hlayer).leftHalf (parent_layer_lt hvalid hlayer))

theorem covers_parent_iff {depth : ℕ} {block : Block} (hvalid : block.Valid depth)
    (hlayer : 0 < block.layer) (page : ℕ) : block.parent.Covers depth page ↔
      block.Covers depth page ∨ block.sibling.Covers depth page := by
  have hhalves := covers_iff_halves (parent_layer_lt hvalid hlayer) page
  exact parent_sibling_cases
    (P := fun parent block sibling => parent.Covers depth page ↔
      block.Covers depth page ∨ sibling.Covers depth page) hlayer
    hhalves (hhalves.trans Or.comm)

theorem apart_sibling {depth : ℕ} {block : Block} (hvalid : block.Valid depth)
    (hlayer : 0 < block.layer) : Apart depth block block.sibling :=
  have hapart := apart_halves (parent_layer_lt hvalid hlayer)
  parent_sibling_cases (P := fun _ block sibling => Apart depth block sibling) hlayer
    hapart hapart.symm

theorem below_parent {depth : ℕ} {block : Block} (hvalid : block.Valid depth)
    (hlayer : 0 < block.layer) : Below depth block.parent block ∧
      Below depth block.parent block.sibling :=
  have hleft := below_leftHalf (parent_layer_lt hvalid hlayer)
  have hright := below_rightHalf (parent_layer_lt hvalid hlayer)
  parent_sibling_cases
    (P := fun parent block sibling => Below depth parent block ∧ Below depth parent sibling)
    hlayer ⟨hleft, hright⟩ ⟨hright, hleft⟩

theorem Apart.not_covers {depth page : ℕ} {left right : Block}
    (hapart : Apart depth left right) (hcovers : left.Covers depth page) :
    ¬ right.Covers depth page := by
  simp only [Apart, Covers] at *
  omega

/-! ## Containment -/

/-- `inner` is the block `outer` or a descendant of it. -/
def Within (depth : ℕ) (outer inner : Block) : Prop :=
  inner = outer ∨ Below depth outer inner

theorem covers_start (depth : ℕ) (block : Block) : block.Covers depth (block.start depth) :=
  ⟨le_rfl, block.start_lt_stop depth⟩

theorem Below.covers {depth page : ℕ} {outer inner : Block} (hbelow : Below depth outer inner)
    (hcovers : inner.Covers depth page) : outer.Covers depth page :=
  ⟨hbelow.2.1.trans hcovers.1, hcovers.2.trans_le hbelow.2.2⟩

theorem Within.covers {depth page : ℕ} {outer inner : Block} (hwithin : Within depth outer inner)
    (hcovers : inner.Covers depth page) : outer.Covers depth page := by
  rcases hwithin with rfl | hbelow
  · exact hcovers
  · exact hbelow.covers hcovers

theorem Within.trans {depth : ℕ} {top middle bottom : Block}
    (hupper : Within depth top middle) (hlower : Within depth middle bottom) :
    Within depth top bottom := by
  rcases hupper with rfl | hupper
  · exact hlower
  rcases hlower with rfl | hlower
  · exact .inr hupper
  · exact .inr (hupper.trans hlower)

theorem index_eq_div_of_covers {depth page : ℕ} {block : Block}
    (hcovers : block.Covers depth page) : block.index = page / block.size depth := by
  obtain ⟨hstart, hstop⟩ := hcovers
  symm
  apply Nat.div_eq_of_lt_le hstart
  rw [Nat.succ_mul]
  exact hstop

/-- Of two blocks with a common page the one of the deeper layer is within the
other. -/
theorem within_of_covers {depth page : ℕ} {outer inner : Block}
    (hlayer : outer.layer ≤ inner.layer) (hdepth : inner.layer ≤ depth)
    (houter : outer.Covers depth page) (hinner : inner.Covers depth page) :
    Within depth outer inner := by
  have hindex := index_eq_div_of_covers houter
  have hindex' := index_eq_div_of_covers hinner
  have hsize : outer.size depth = inner.size depth * 2 ^ (inner.layer - outer.layer) := by
    simp only [size]
    rw [← pow_add]
    congr 1
    omega
  rcases hlayer.eq_or_lt with hsame | hdeeper
  · left
    rw [hsame, Nat.sub_self, pow_zero, mul_one] at hsize
    have hsameIndex : inner.index = outer.index := by rw [hindex', hindex, hsize]
    cases outer
    cases inner
    exact congrArg₂ Block.mk hsame.symm hsameIndex
  · right
    rw [hsize, ← Nat.div_div_eq_div_mul, ← hindex'] at hindex
    have hpieces := Nat.two_pow_pos (inner.layer - outer.layer)
    have hlower := Nat.div_mul_le_self inner.index (2 ^ (inner.layer - outer.layer))
    have hupper := Nat.lt_div_mul_add (a := inner.index) hpieces
    rw [← hindex] at hlower hupper
    have hfirst := Nat.mul_le_mul_right (inner.size depth) hlower
    have hlast := Nat.mul_le_mul_right (inner.size depth) (Nat.succ_le_of_lt hupper)
    refine ⟨hdeeper, ?_, ?_⟩
    · simp only [start, hsize]
      calc
        outer.index * (inner.size depth * 2 ^ (inner.layer - outer.layer)) =
            outer.index * 2 ^ (inner.layer - outer.layer) * inner.size depth := by ring
        _ ≤ inner.index * inner.size depth := hfirst
    · simp only [stop, start, hsize]
      calc
        inner.index * inner.size depth + inner.size depth =
            (inner.index + 1) * inner.size depth := by ring
        _ ≤ (outer.index * 2 ^ (inner.layer - outer.layer) +
              2 ^ (inner.layer - outer.layer)) * inner.size depth := hlast
        _ = outer.index * (inner.size depth * 2 ^ (inner.layer - outer.layer)) +
              inner.size depth * 2 ^ (inner.layer - outer.layer) := by ring

/-- What a block above another contains, it contains through the parent. -/
theorem Below.within_parent {depth : ℕ} {outer block : Block} (hbelow : Below depth outer block)
    (hvalid : block.Valid depth) (hlayer : 0 < block.layer) :
    Within depth outer block.parent := by
  have hcovers := block.covers_start depth
  have hparent := ((below_parent hvalid hlayer).1).covers hcovers
  apply within_of_covers _ (hvalid.parent hlayer).1 (hbelow.covers hcovers) hparent
  have := hbelow.1
  simp only [parent]
  omega

/-- The descendants of a block are under one of its halves. -/
theorem within_parent_iff {depth : ℕ} {block node : Block} (hvalid : block.Valid depth)
    (hlayer : 0 < block.layer) (hnode : node.layer ≤ depth) :
    Within depth block.parent node ↔
      node = block.parent ∨ Within depth block node ∨ Within depth block.sibling node := by
  obtain ⟨hblock, hsibling⟩ := below_parent hvalid hlayer
  constructor
  · rintro (rfl | hbelow)
    · exact .inl rfl
    · right
      have hdeeper : block.layer ≤ node.layer := by
        have := hbelow.1
        simp only [parent] at this
        omega
      have hcovers := node.covers_start depth
      have hhalf := (covers_parent_iff hvalid hlayer _).mp (hbelow.covers hcovers)
      exact hhalf.imp (within_of_covers hdeeper hnode · hcovers)
        (within_of_covers hdeeper hnode · hcovers)
  · rintro (rfl | hwithin | hwithin)
    · exact .inl rfl
    · exact Within.trans (.inr hblock) hwithin
    · exact Within.trans (.inr hsibling) hwithin

/-! ## Full and maximal blocks -/

/-- All pages of the block are in the set. -/
def Full (pages : Set ℕ) (depth : ℕ) (block : Block) : Prop :=
  ∀ page, block.Covers depth page → page ∈ pages

/-- The block is full and no block of the tree above it is. -/
def Maximal (pages : Set ℕ) (depth : ℕ) (block : Block) : Prop :=
  Full pages depth block ∧
    ∀ outer : Block, outer.Valid depth → Below depth outer block → ¬ Full pages depth outer

variable {pages : Set ℕ} {depth page : ℕ}

theorem Full.within {outer inner : Block} (hfull : Full pages depth outer)
    (hwithin : Within depth outer inner) : Full pages depth inner :=
  fun _ hcovers => hfull _ (hwithin.covers hcovers)

theorem Full.insert {block : Block} (hfull : Full pages depth block) (page : ℕ) :
    Full (insert page pages) depth block :=
  fun _ hcovers => Set.mem_insert_of_mem _ (hfull _ hcovers)

/-- A block without the new page is as full as before. -/
theorem full_insert_iff {block : Block} (houtside : ¬ block.Covers depth page) :
    Full (insert page pages) depth block ↔ Full pages depth block := by
  constructor
  · intro hfull other hcovers
    rcases hfull other hcovers with rfl | hmem
    · exact absurd hcovers houtside
    · exact hmem
  · intro hfull
    exact hfull.insert page

theorem full_parent_iff {block : Block} (hvalid : block.Valid depth) (hlayer : 0 < block.layer) :
    Full pages depth block.parent ↔ Full pages depth block ∧ Full pages depth block.sibling := by
  constructor
  · intro hfull
    obtain ⟨hblock, hsibling⟩ := below_parent hvalid hlayer
    exact ⟨hfull.within (.inr hblock), hfull.within (.inr hsibling)⟩
  · rintro ⟨hblock, hsibling⟩ other hcovers
    rcases (covers_parent_iff hvalid hlayer other).mp hcovers with hcovers | hcovers
    · exact hblock other hcovers
    · exact hsibling other hcovers

theorem maximal_iff_parent {block : Block} (hvalid : block.Valid depth)
    (hlayer : 0 < block.layer) :
    Maximal pages depth block ↔ Full pages depth block ∧ ¬ Full pages depth block.parent := by
  constructor
  · rintro ⟨hfull, habove⟩
    exact ⟨hfull, habove _ (hvalid.parent hlayer) (below_parent hvalid hlayer).1⟩
  · rintro ⟨hfull, hparent⟩
    refine ⟨hfull, fun outer _ hbelow houter => hparent ?_⟩
    exact houter.within (hbelow.within_parent hvalid hlayer)

/-- Nothing is above the root. -/
theorem maximal_of_layer_zero {block : Block} (hlayer : block.layer = 0)
    (hfull : Full pages depth block) : Maximal pages depth block := by
  refine ⟨hfull, fun outer _ hbelow => ?_⟩
  have := hbelow.1
  omega

/-- When all pages are in the set, the root is the only maximal block. -/
theorem maximal_iff_root {block : Block} (hall : ∀ page < 2 ^ depth, page ∈ pages)
    (hvalid : block.Valid depth) : Maximal pages depth block ↔ block = ⟨0, 0⟩ := by
  have hfull : ∀ block : Block, block.Valid depth → Full pages depth block :=
    fun block hvalid page hcovers => hall page (hcovers.2.trans_le (stop_le hvalid))
  constructor
  · rintro ⟨-, habove⟩
    rcases Nat.eq_zero_or_pos block.layer with hlayer | hlayer
    · obtain ⟨layer, index⟩ := block
      obtain rfl : layer = 0 := hlayer
      have := hvalid.2
      simp_all
    · have hparent := hvalid.parent hlayer
      exact absurd (hfull _ hparent) (habove _ hparent (below_parent hvalid hlayer).1)
  · rintro rfl
    exact maximal_of_layer_zero rfl (hfull _ hvalid)

/-! ## Adding a page -/

/-- The maximal block over a new page replaces the maximal blocks within it;
the others stay. -/
theorem maximal_insert_iff {top node : Block} (htop : Maximal (insert page pages) depth top)
    (hcovers : top.Covers depth page) (hvalid : top.Valid depth) (hnode : node.Valid depth) :
    Maximal (insert page pages) depth node ↔
      node = top ∨ Maximal pages depth node ∧ ¬ Within depth top node := by
  -- a block over the new page that is not within the top one is above it
  have habove : ∀ {block : Block}, block.layer ≤ depth → block.Covers depth page →
      ¬ Within depth top block → Below depth block top := by
    intro block hlayer hblock houtside
    rcases le_total top.layer block.layer with hle | hle
    · exact absurd (within_of_covers hle hlayer hcovers hblock) houtside
    · rcases within_of_covers hle hvalid.1 hblock hcovers with rfl | hbelow
      · exact absurd (.inl rfl) houtside
      · exact hbelow
  constructor
  · rintro ⟨hfull, hupper⟩
    rw [or_iff_not_imp_left]
    intro hne
    have houtside : ¬ Within depth top node := by
      rintro (heq | hbelow)
      · exact hne heq
      · exact hupper top hvalid hbelow htop.1
    have hpage : ¬ node.Covers depth page := fun hcovered =>
      htop.2 node hnode (habove hnode.1 hcovered houtside) hfull
    refine ⟨⟨(full_insert_iff hpage).mp hfull, ?_⟩, houtside⟩
    intro outer houter hbelow hfullOuter
    exact hupper outer houter hbelow (hfullOuter.insert page)
  · rintro (rfl | ⟨⟨hfull, hupper⟩, houtside⟩)
    · exact htop
    · refine ⟨hfull.insert page, fun outer houter hbelow hfullOuter => ?_⟩
      by_cases hcovered : outer.Covers depth page
      · by_cases hwithin : Within depth top outer
        · exact houtside (hwithin.trans (.inr hbelow))
        · exact htop.2 outer houter (habove houter.1 hcovered hwithin) hfullOuter
      · exact hupper outer houter hbelow ((full_insert_iff hcovered).mp hfullOuter)

/-- Beside the path of a page that is not in the set, full is maximal. -/
theorem maximal_sibling_iff {block : Block} (hpage : page ∉ pages)
    (hcovers : block.Covers depth page) (hvalid : block.Valid depth) (hlayer : 0 < block.layer) :
    Maximal pages depth block.sibling ↔ Full pages depth block.sibling := by
  constructor
  · exact fun hmaximal => hmaximal.1
  · intro hfull
    refine ⟨hfull, fun outer _ hbelow houter => hpage ?_⟩
    have hwithin := hbelow.within_parent (hvalid.sibling hlayer) hlayer
    rw [parent_sibling hlayer] at hwithin
    exact houter page (hwithin.covers ((below_parent hvalid hlayer).1.covers hcovers))

/-- When the sibling is full, what is maximal and not within the parent is what
is maximal, not within the block and not the sibling. -/
theorem maximal_outside_parent_iff {block node : Block} (hpage : page ∉ pages)
    (hcovers : block.Covers depth page) (hvalid : block.Valid depth) (hlayer : 0 < block.layer)
    (hsibling : Full pages depth block.sibling) (hnode : node.Valid depth) :
    Maximal pages depth node ∧ ¬ Within depth block.parent node ↔
      (Maximal pages depth node ∧ ¬ Within depth block node) ∧ node ≠ block.sibling := by
  rw [within_parent_iff hvalid hlayer hnode.1]
  constructor
  · rintro ⟨hmaximal, houtside⟩
    refine ⟨⟨hmaximal, fun hwithin => houtside (.inr (.inl hwithin))⟩, ?_⟩
    rintro rfl
    exact houtside (.inr (.inr (.inl rfl)))
  · rintro ⟨⟨hmaximal, houtside⟩, hne⟩
    refine ⟨hmaximal, ?_⟩
    rintro (rfl | hwithin | rfl | hbelow)
    · exact hpage (hmaximal.1 page ((below_parent hvalid hlayer).1.covers hcovers))
    · exact houtside hwithin
    · exact hne rfl
    · exact hmaximal.2 _ (hvalid.sibling hlayer) hbelow hsibling

/-- A new page that fills the block but leaves the sibling not full makes the
block maximal. -/
theorem maximal_insert_of_sibling {block : Block} (hcovers : block.Covers depth page)
    (hvalid : block.Valid depth) (hlayer : 0 < block.layer)
    (hfull : Full (insert page pages) depth block)
    (hsibling : ¬ Full pages depth block.sibling) :
    Maximal (insert page pages) depth block := by
  rw [maximal_iff_parent hvalid hlayer, full_parent_iff hvalid hlayer]
  refine ⟨hfull, fun hboth => hsibling ?_⟩
  exact (full_insert_iff ((apart_sibling hvalid hlayer).not_covers hcovers)).mp hboth.2

end Block

end DoomsdayModules.DyadicBlocks
