import Mathlib.Tactic

/-!
# Dyadic blocks and tilings

The binary tree over `2 ^ depth` pages: the block at `layer` with `index` spans
`2 ^ (depth - layer)` pages, and each block above the last layer is split in
two equal halves.  A list of blocks tiles the pages when every page lies in
exactly one of them.
-/

namespace DoomsdayModules.DyadicBlocks

structure Block where
  layer : ℕ
  index : ℕ
  deriving DecidableEq, Repr

namespace Block

/-- Number of pages in the block. -/
def size (depth : ℕ) (block : Block) : ℕ := 2 ^ (depth - block.layer)

/-- First page of the block. -/
def start (depth : ℕ) (block : Block) : ℕ := block.index * block.size depth

def stop (depth : ℕ) (block : Block) : ℕ := block.start depth + block.size depth

/-- The block is a node of the tree. -/
def Valid (depth : ℕ) (block : Block) : Prop :=
  block.layer ≤ depth ∧ block.index < 2 ^ block.layer

def Covers (depth : ℕ) (block : Block) (page : ℕ) : Prop :=
  block.start depth ≤ page ∧ page < block.stop depth

instance (depth : ℕ) (block : Block) (page : ℕ) : Decidable (block.Covers depth page) :=
  inferInstanceAs (Decidable (_ ∧ _))

def leftHalf (block : Block) : Block := ⟨block.layer + 1, 2 * block.index⟩

def rightHalf (block : Block) : Block := ⟨block.layer + 1, 2 * block.index + 1⟩

/-- The node of a deeper layer that starts where the block starts. -/
def leftmost (block : Block) (layer : ℕ) : Block :=
  ⟨layer, block.index * 2 ^ (layer - block.layer)⟩

/-- The blocks share no page. -/
def Apart (depth : ℕ) (left right : Block) : Prop :=
  left.stop depth ≤ right.start depth ∨ right.stop depth ≤ left.start depth

instance (depth : ℕ) (block : Block) : Decidable (block.Valid depth) :=
  inferInstanceAs (Decidable (_ ∧ _))

instance (depth : ℕ) (left right : Block) : Decidable (Apart depth left right) :=
  inferInstanceAs (Decidable (_ ∨ _))

/-- `node` is a proper descendant of the block. -/
def Below (depth : ℕ) (block node : Block) : Prop :=
  block.layer < node.layer ∧ block.start depth ≤ node.start depth ∧
    node.stop depth ≤ block.stop depth

theorem size_pos (depth : ℕ) (block : Block) : 0 < block.size depth :=
  Nat.two_pow_pos _

theorem start_lt_stop (depth : ℕ) (block : Block) :
    block.start depth < block.stop depth := by
  have := block.size_pos depth
  simp only [stop]
  omega

theorem stop_le {depth : ℕ} {block : Block} (hvalid : block.Valid depth) :
    block.stop depth ≤ 2 ^ depth := by
  obtain ⟨hlayer, hindex⟩ := hvalid
  calc
    block.stop depth = (block.index + 1) * 2 ^ (depth - block.layer) := by
      simp only [stop, start, size]
      ring
    _ ≤ 2 ^ block.layer * 2 ^ (depth - block.layer) := Nat.mul_le_mul_right _ hindex
    _ = 2 ^ depth := by rw [← pow_add, Nat.add_sub_cancel' hlayer]

theorem Apart.symm {depth : ℕ} {left right : Block} (hapart : Apart depth left right) :
    Apart depth right left := Or.symm hapart

instance (depth : ℕ) : Std.Symm (Apart depth) := ⟨fun _ _ => Apart.symm⟩

theorem Apart.ne {depth : ℕ} {left right : Block} (hapart : Apart depth left right) :
    left ≠ right := by
  rintro rfl
  have := left.start_lt_stop depth
  simp only [Apart] at hapart
  omega

/-- A descendant of one block is not a descendant of a block apart from it. -/
theorem Apart.below_ne {depth : ℕ} {left right node other : Block}
    (hapart : Apart depth left right)
    (hnode : node = left ∨ Below depth left node)
    (hother : other = right ∨ Below depth right other) : node ≠ other := by
  rintro rfl
  have hpages := node.start_lt_stop depth
  simp only [Apart] at hapart
  rcases hnode with rfl | ⟨-, _, _⟩ <;> rcases hother with rfl | ⟨-, _, _⟩ <;> omega

/-! ## Halves -/

theorem size_leftHalf {depth : ℕ} {block : Block} (hlayer : block.layer < depth) :
    block.size depth = 2 * block.leftHalf.size depth := by
  simp only [size, leftHalf]
  rw [← pow_succ']
  congr 1
  omega

theorem size_rightHalf {depth : ℕ} {block : Block} :
    block.rightHalf.size depth = block.leftHalf.size depth := rfl

theorem start_leftHalf {depth : ℕ} {block : Block} (hlayer : block.layer < depth) :
    block.leftHalf.start depth = block.start depth := by
  simp only [start, size_leftHalf hlayer]
  simp only [leftHalf]
  ring

theorem start_rightHalf {depth : ℕ} {block : Block} (hlayer : block.layer < depth) :
    block.rightHalf.start depth = block.start depth + block.leftHalf.size depth := by
  simp only [start, size_leftHalf hlayer, size_rightHalf]
  simp only [rightHalf]
  ring

theorem stop_leftHalf {depth : ℕ} {block : Block} (hlayer : block.layer < depth) :
    block.leftHalf.stop depth = block.rightHalf.start depth := by
  rw [stop, start_leftHalf hlayer, start_rightHalf hlayer]

theorem stop_rightHalf {depth : ℕ} {block : Block} (hlayer : block.layer < depth) :
    block.rightHalf.stop depth = block.stop depth := by
  rw [stop, stop, start_rightHalf hlayer, size_rightHalf, size_leftHalf hlayer]
  omega

theorem Valid.leftHalf {depth : ℕ} {block : Block} (hvalid : block.Valid depth)
    (hlayer : block.layer < depth) : block.leftHalf.Valid depth := by
  obtain ⟨-, hindex⟩ := hvalid
  refine ⟨hlayer, ?_⟩
  simp only [Block.leftHalf, pow_succ']
  omega

theorem Valid.rightHalf {depth : ℕ} {block : Block} (hvalid : block.Valid depth)
    (hlayer : block.layer < depth) : block.rightHalf.Valid depth := by
  obtain ⟨-, hindex⟩ := hvalid
  refine ⟨hlayer, ?_⟩
  simp only [Block.rightHalf, pow_succ']
  omega

theorem below_leftHalf {depth : ℕ} {block : Block} (hlayer : block.layer < depth) :
    Below depth block block.leftHalf := by
  have hleft := start_leftHalf hlayer
  have hstop := stop_leftHalf hlayer
  have hright := stop_rightHalf hlayer
  have := block.rightHalf.start_lt_stop depth
  exact ⟨Nat.lt_succ_self _, by omega, by omega⟩

theorem below_rightHalf {depth : ℕ} {block : Block} (hlayer : block.layer < depth) :
    Below depth block block.rightHalf := by
  have hleft := start_leftHalf hlayer
  have hstop := stop_leftHalf hlayer
  have hright := stop_rightHalf hlayer
  have := block.leftHalf.start_lt_stop depth
  exact ⟨Nat.lt_succ_self _, by omega, by omega⟩

theorem Below.trans {depth : ℕ} {top middle bottom : Block}
    (hupper : Below depth top middle) (hlower : Below depth middle bottom) :
    Below depth top bottom :=
  ⟨hupper.1.trans hlower.1, hupper.2.1.trans hlower.2.1, hlower.2.2.trans hupper.2.2⟩

/-- The descendants of a block share no page with what the block shares none with. -/
theorem Below.apart {depth : ℕ} {block node other : Block} (hbelow : Below depth block node)
    (hapart : Apart depth block other) : Apart depth node other := by
  rcases hapart with hbefore | hafter
  · exact .inl (hbelow.2.2.trans hbefore)
  · exact .inr (hafter.trans hbelow.2.1)

theorem apart_halves {depth : ℕ} {block : Block} (hlayer : block.layer < depth) :
    Apart depth block.leftHalf block.rightHalf :=
  .inl (stop_leftHalf hlayer).le

/-! ## Leftmost descendants -/

theorem start_leftmost {depth layer : ℕ} {block : Block} (hlayer : block.layer ≤ layer)
    (hdepth : layer ≤ depth) : (block.leftmost layer).start depth = block.start depth := by
  simp only [start, size, leftmost]
  rw [mul_assoc, ← pow_add]
  congr 2
  omega

theorem leftmost_self (block : Block) : block.leftmost block.layer = block := by
  simp [leftmost]

theorem below_leftmost {depth layer : ℕ} {block : Block} (hlayer : block.layer < layer)
    (hdepth : layer ≤ depth) : Below depth block (block.leftmost layer) := by
  have hstart := start_leftmost hlayer.le hdepth
  have hsize : (block.leftmost layer).size depth ≤ block.size depth :=
    Nat.pow_le_pow_right (by omega) (by simp only [leftmost]; omega)
  refine ⟨hlayer, by omega, ?_⟩
  simp only [stop]
  omega

theorem Valid.leftmost {depth layer : ℕ} {block : Block} (hvalid : block.Valid depth)
    (hlayer : block.layer ≤ layer) (hdepth : layer ≤ depth) :
    (block.leftmost layer).Valid depth := by
  refine ⟨hdepth, ?_⟩
  calc
    block.index * 2 ^ (layer - block.layer)
        < 2 ^ block.layer * 2 ^ (layer - block.layer) :=
      Nat.mul_lt_mul_of_pos_right hvalid.2 (Nat.two_pow_pos _)
    _ = 2 ^ layer := by rw [← pow_add, Nat.add_sub_cancel' hlayer]

/-- Halving the index of a leftmost descendant moves up one layer. -/
theorem leftmost_index_half {layer : ℕ} {block : Block} (hlayer : block.layer ≤ layer) :
    (block.leftmost (layer + 1)).index / 2 = (block.leftmost layer).index := by
  simp only [leftmost]
  rw [Nat.succ_sub hlayer, pow_succ, ← mul_assoc]
  omega

theorem stop_leftmost_le {depth layer : ℕ} {block : Block} (hlayer : block.layer ≤ layer)
    (hdepth : layer ≤ depth) : (block.leftmost layer).stop depth ≤ block.stop depth := by
  rcases hlayer.eq_or_lt with rfl | hlt
  · rw [leftmost_self]
  · exact (below_leftmost hlt hdepth).2.2

theorem leftHalf_leftmost {layer : ℕ} {block : Block} (hlayer : block.layer < layer) :
    block.leftHalf.leftmost layer = block.leftmost layer := by
  have hsteps : layer - block.layer = layer - (block.layer + 1) + 1 := by omega
  simp only [leftmost, leftHalf, mk.injEq, true_and]
  rw [hsteps, pow_succ]
  ring

theorem leftmost_leftHalf (block : Block) (steps : ℕ) :
    block.leftHalf.leftmost (block.leftHalf.layer + steps) =
      block.leftmost (block.layer + (steps + 1)) := by
  rw [leftHalf_leftmost (by simp only [leftHalf]; omega)]
  congr 1
  simp only [leftHalf]
  omega

/-! ## Splitting down -/

theorem covers_iff_halves {depth : ℕ} {block : Block} (hlayer : block.layer < depth)
    (page : ℕ) : block.Covers depth page ↔
      block.leftHalf.Covers depth page ∨ block.rightHalf.Covers depth page := by
  have hleft := start_leftHalf hlayer
  have hmiddle := stop_leftHalf hlayer
  have hright := stop_rightHalf hlayer
  have := block.leftHalf.start_lt_stop depth
  have := block.rightHalf.start_lt_stop depth
  simp only [Covers]
  omega

/-- The right halves that are split off on the way down to a leftmost
descendant, the largest first. -/
def splitOff (block : Block) : ℕ → List Block
  | 0 => []
  | steps + 1 => block.rightHalf :: block.leftHalf.splitOff steps

/-- One right half is split off at each layer. -/
theorem map_layer_splitOff (block : Block) (steps : ℕ) :
    (block.splitOff steps).map layer = List.range' (block.layer + 1) steps := by
  induction steps generalizing block with
  | zero => rfl
  | succ steps ih =>
      rw [splitOff, List.map_cons, ih, List.range'_succ]
      rfl

theorem Valid.splitOff {depth : ℕ} {block : Block} (hvalid : block.Valid depth) {steps : ℕ}
    (hsteps : block.layer + steps ≤ depth) : ∀ piece ∈ block.splitOff steps,
      piece.Valid depth := by
  induction steps generalizing block with
  | zero => simp [Block.splitOff]
  | succ steps ih =>
      intro piece hpiece
      rcases List.mem_cons.mp hpiece with rfl | hpiece
      · exact hvalid.rightHalf (by omega)
      · exact ih (hvalid.leftHalf (by omega)) (by simp only [Block.leftHalf]; omega) piece hpiece

theorem below_splitOff {depth : ℕ} {block : Block} {steps : ℕ}
    (hsteps : block.layer + steps ≤ depth) : ∀ piece ∈ block.splitOff steps,
      Below depth block piece := by
  induction steps generalizing block with
  | zero => simp [splitOff]
  | succ steps ih =>
      intro piece hpiece
      rcases List.mem_cons.mp hpiece with rfl | hpiece
      · exact below_rightHalf (by omega)
      · have hlayer : block.layer < depth := by omega
        exact (below_leftHalf hlayer).trans
          (ih (by simp only [leftHalf]; omega) piece hpiece)

/-- The pieces share no page. -/
theorem pairwise_splitOff {depth : ℕ} {block : Block} {steps : ℕ}
    (hsteps : block.layer + steps ≤ depth) :
    (block.leftmost (block.layer + steps) :: block.splitOff steps).Pairwise (Apart depth) := by
  induction steps generalizing block with
  | zero => simp [splitOff]
  | succ steps ih =>
      have hlayer : block.layer < depth := by omega
      have hsteps' : block.leftHalf.layer + steps ≤ depth := by
        simp only [leftHalf]
        omega
      have hpieces := ih hsteps'
      rw [leftmost_leftHalf] at hpieces
      obtain ⟨hfirst, hrest⟩ := List.pairwise_cons.mp hpieces
      have hmiddle := stop_leftHalf hlayer
      have hleftmost : (block.leftmost (block.layer + (steps + 1))).stop depth ≤
          block.leftHalf.stop depth := by
        rw [← leftmost_leftHalf]
        exact stop_leftmost_le (Nat.le_add_right _ _) hsteps'
      refine List.pairwise_cons.mpr ⟨?_, List.pairwise_cons.mpr ⟨?_, hrest⟩⟩
      · intro piece hpiece
        rcases List.mem_cons.mp hpiece with rfl | hpiece
        · exact .inl (by omega)
        · exact hfirst piece hpiece
      · intro piece hpiece
        have hbelow := below_splitOff hsteps' piece hpiece
        exact .inr (by have := hbelow.2.2; omega)

/-- The pieces cover the pages of the block. -/
theorem covers_iff_splitOff {depth : ℕ} {block : Block} {steps : ℕ}
    (hsteps : block.layer + steps ≤ depth) (page : ℕ) :
    block.Covers depth page ↔
      ∃ piece ∈ block.leftmost (block.layer + steps) :: block.splitOff steps,
        piece.Covers depth page := by
  induction steps generalizing block with
  | zero => simp [splitOff, leftmost_self]
  | succ steps ih =>
      have hsteps' : block.leftHalf.layer + steps ≤ depth := by
        simp only [leftHalf]
        omega
      rw [covers_iff_halves (by omega), ih hsteps', leftmost_leftHalf]
      simp only [splitOff, List.mem_cons]
      constructor
      · rintro (⟨piece, hpiece, hcovers⟩ | hcovers)
        · exact ⟨piece, hpiece.imp_right .inr, hcovers⟩
        · exact ⟨block.rightHalf, .inr (.inl rfl), hcovers⟩
      · rintro ⟨piece, rfl | rfl | hpiece, hcovers⟩
        · exact .inl ⟨_, .inl rfl, hcovers⟩
        · exact .inr hcovers
        · exact .inl ⟨piece, .inr hpiece, hcovers⟩

end Block

open Block

/-- Every page lies in exactly one of the blocks. -/
structure Tiling (depth : ℕ) (blocks : List Block) : Prop where
  valid : ∀ block ∈ blocks, block.Valid depth
  once : ∀ page < 2 ^ depth, blocks.countP (fun block => block.Covers depth page) = 1

theorem Tiling.perm {depth : ℕ} {blocks blocks' : List Block} (htiling : Tiling depth blocks)
    (hperm : blocks.Perm blocks') : Tiling depth blocks' where
  valid block hmem := htiling.valid block (hperm.mem_iff.mpr hmem)
  once page hpage := by rw [← hperm.countP_eq]; exact htiling.once page hpage

/-- The whole tree is tiled by its root. -/
theorem tiling_root (depth : ℕ) : Tiling depth [⟨0, 0⟩] where
  valid block hmem := by
    obtain rfl := List.mem_singleton.mp hmem
    exact ⟨Nat.zero_le _, by simp⟩
  once page hpage := by
    simp [Block.Covers, Block.start, Block.stop, Block.size, hpage]

theorem count_halves {depth : ℕ} {block : Block} (hlayer : block.layer < depth) (page : ℕ) :
    [block.leftHalf, block.rightHalf].countP (fun half => half.Covers depth page) =
      [block].countP (fun whole => whole.Covers depth page) := by
  have hleft := start_leftHalf hlayer
  have hmiddle := stop_leftHalf hlayer
  have hright := stop_rightHalf hlayer
  have := block.leftHalf.start_lt_stop depth
  have := block.rightHalf.start_lt_stop depth
  have hwhole := covers_iff_halves hlayer page
  have hnotBoth : block.leftHalf.Covers depth page →
      ¬ block.rightHalf.Covers depth page := by
    simp only [Block.Covers]
    omega
  by_cases hl : block.leftHalf.Covers depth page
  · simp [hwhole, hl, hnotBoth hl]
  · by_cases hr : block.rightHalf.Covers depth page
    · simp [hwhole, hl, hr]
    · simp [hwhole, hl, hr]

/-- Splitting a block in two halves keeps the tiling. -/
theorem Tiling.split {depth : ℕ} {block : Block} {rest : List Block}
    (htiling : Tiling depth (block :: rest)) (hlayer : block.layer < depth) :
    Tiling depth (block.leftHalf :: block.rightHalf :: rest) where
  valid half hmem := by
    have hblock := htiling.valid block List.mem_cons_self
    rcases List.mem_cons.mp hmem with rfl | hmem
    · exact hblock.leftHalf hlayer
    rcases List.mem_cons.mp hmem with rfl | hmem
    · exact hblock.rightHalf hlayer
    · exact htiling.valid half (List.mem_cons_of_mem _ hmem)
  once page hpage := by
    have hwhole := htiling.once page hpage
    have hhalves := count_halves hlayer page
    simp only [List.countP_cons, List.countP_nil] at hwhole hhalves ⊢
    omega

/-- Two blocks of a tiling share no page. -/
theorem Tiling.apart {depth : ℕ} {block other : Block} {rest : List Block}
    (htiling : Tiling depth (block :: rest)) (hother : other ∈ rest) :
    Apart depth block other := by
  by_contra hoverlap
  have hblock := htiling.valid block List.mem_cons_self
  have hstop := stop_le hblock
  have hpages := block.start_lt_stop depth
  have hpages' := other.start_lt_stop depth
  simp only [Apart, not_or, not_le] at hoverlap
  let page := max (block.start depth) (other.start depth)
  have hpage : page < 2 ^ depth := by omega
  have hcovers : block.Covers depth page := ⟨by omega, by omega⟩
  have hcovers' : other.Covers depth page := ⟨by omega, by omega⟩
  have hcount := htiling.once page hpage
  have hpositive : 0 < rest.countP (fun block => block.Covers depth page) :=
    List.countP_pos_iff.mpr ⟨other, hother, by simpa using hcovers'⟩
  rw [List.countP_cons_of_pos (by simpa using hcovers)] at hcount
  omega

/-- No block occurs twice in a tiling. -/
theorem Tiling.nodup {depth : ℕ} {blocks : List Block} (htiling : Tiling depth blocks) :
    blocks.Nodup := by
  by_contra hdup
  obtain ⟨block, hdup⟩ := List.exists_duplicate_iff_not_nodup.mpr hdup
  have hcovers : block.Covers depth (block.start depth) :=
    ⟨le_rfl, block.start_lt_stop depth⟩
  have hpage : block.start depth < 2 ^ depth :=
    (block.start_lt_stop depth).trans_le (stop_le (htiling.valid block hdup.mem))
  have htwice := (List.duplicate_iff_sublist.mp hdup).countP_le
    (p := fun other => decide (other.Covers depth (block.start depth)))
  rw [htiling.once _ hpage] at htwice
  simp [hcovers] at htwice

theorem Tiling.apart_of_ne {depth : ℕ} {blocks : List Block} {block other : Block}
    (htiling : Tiling depth blocks) (hblock : block ∈ blocks) (hother : other ∈ blocks)
    (hne : block ≠ other) : Apart depth block other := by
  have hperm := List.perm_cons_erase hblock
  exact (htiling.perm hperm).apart ((List.mem_erase_of_ne hne.symm).mpr hother)

/-- A tiling with the root in it has no other block. -/
theorem Tiling.eq_root {depth : ℕ} {blocks : List Block} (htiling : Tiling depth blocks)
    (hroot : ⟨0, 0⟩ ∈ blocks) : blocks = [⟨0, 0⟩] := by
  have hperm := List.perm_cons_erase hroot
  have htiling' := htiling.perm hperm
  have hrest : blocks.erase ⟨0, 0⟩ = [] := by
    rw [List.eq_nil_iff_forall_not_mem]
    intro other hother
    have hapart := htiling'.apart hother
    have hstop := stop_le (htiling'.valid other (List.mem_cons_of_mem _ hother))
    have hpages := other.start_lt_stop depth
    simp only [Apart, start, stop, size, Nat.zero_mul, Nat.zero_add, Nat.sub_zero] at *
    omega
  rw [hrest] at hperm
  exact List.perm_singleton.mp hperm

end DoomsdayModules.DyadicBlocks
