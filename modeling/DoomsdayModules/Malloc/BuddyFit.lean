import DoomsdayModules.Malloc.BuddyRuns
import Mathlib.Order.Bounds.Basic

/-!
# The block that serves a request

`best_fit_layer` divides the root block by the request and takes the rounded-up
logarithm of the quotient.  The division rounds down and the logarithm rounds
up, and both roundings go the same way: the layer is too deep, and its blocks
too small, unless the quotient is a power of two.  A request above the root
block has quotient zero and layer zero.
-/

namespace DoomsdayModules.BuddyFit

open DoomsdayModules.ByteMemory DoomsdayModules.Util DoomsdayModules.BuddyUtil
open DoomsdayModules.Freelist DoomsdayModules.Buddy DoomsdayModules.BuddyInvariant
open DoomsdayModules.BuddyInit DoomsdayModules.BuddyRuns

/-! ## Two roundings -/

/-- The power of two left after both roundings is no more than it should be. -/
theorem pow_sub_clog_le {depth pages power : ℕ} (hpages : 1 ≤ pages) (hpower : pages ≤ 2 ^ power) :
    2 ^ (depth - Nat.clog 2 (2 ^ depth / pages)) ≤ 2 ^ power := by
  apply Nat.pow_le_pow_right (by norm_num)
  by_contra hlt
  have hquotient : 2 ^ (Nat.clog 2 (2 ^ depth / pages) + 1) ≤ 2 ^ depth / pages := by
    rw [Nat.le_div_iff_mul_le hpages]
    calc 2 ^ (Nat.clog 2 (2 ^ depth / pages) + 1) * pages
        ≤ 2 ^ (Nat.clog 2 (2 ^ depth / pages) + 1) * 2 ^ power := Nat.mul_le_mul_left _ hpower
      _ = 2 ^ (Nat.clog 2 (2 ^ depth / pages) + 1 + power) := (pow_add _ _ _).symm
      _ ≤ 2 ^ depth := Nat.pow_le_pow_right (by norm_num) (by omega)
  have hround := Nat.le_pow_clog (show 1 < 2 by norm_num) (2 ^ depth / pages)
  rw [pow_succ] at hquotient
  have hpos := Nat.two_pow_pos (Nat.clog 2 (2 ^ depth / pages))
  omega

/-- It is enough for the request exactly if the division was by a power of two. -/
theorem le_pow_sub_clog_iff {depth pages : ℕ} (hpages : 1 ≤ pages) :
    pages ≤ 2 ^ (depth - Nat.clog 2 (2 ^ depth / pages)) ↔
      ∃ power, 2 ^ depth / pages = 2 ^ power := by
  have hle := clog_div_le depth pages
  have hsplit : 2 ^ depth = 2 ^ Nat.clog 2 (2 ^ depth / pages) *
      2 ^ (depth - Nat.clog 2 (2 ^ depth / pages)) := by
    rw [← pow_add, Nat.add_sub_cancel' hle]
  have hquotient : pages ≤ 2 ^ (depth - Nat.clog 2 (2 ^ depth / pages)) ↔
      2 ^ Nat.clog 2 (2 ^ depth / pages) ≤ 2 ^ depth / pages := by
    rw [Nat.le_div_iff_mul_le hpages]
    generalize Nat.clog 2 (2 ^ depth / pages) = rounded at hsplit ⊢
    rw [hsplit]
    exact (Nat.mul_le_mul_left_iff (Nat.two_pow_pos _)).symm
  rw [hquotient]
  constructor
  · intro hlower
    exact ⟨_, hlower.antisymm (Nat.le_pow_clog (by norm_num) _)|>.symm⟩
  · rintro ⟨power, hpower⟩
    rw [hpower, Nat.clog_pow 2 power (by norm_num)]

/-! ## The free lists that are searched -/

theorem searchLayer_head_eq_zero_iff (memory : Memory) (alloc layer : ℕ) :
    readWord memory (freelistSlot memory alloc (searchLayer memory alloc layer)) = 0 ↔
      ∀ level ≤ layer, readWord memory (freelistSlot memory alloc level) = 0 := by
  induction layer with
  | zero => simp [searchLayer]
  | succ layer ih =>
      by_cases hhead : readWord memory (freelistSlot memory alloc (layer + 1)) = 0
      · simp only [searchLayer, if_pos hhead, ih]
        constructor
        · intro hbelow level hlevel
          rcases Nat.lt_or_eq_of_le hlevel with hlt | rfl
          · exact hbelow level (by omega)
          · exact hhead
        · exact fun hall level hlevel => hall level (by omega)
      · simp only [searchLayer, if_neg hhead]
        exact ⟨fun hzero => absurd hzero hhead, fun hall => hall (layer + 1) le_rfl⟩

/-- What `buddy_init` sets up and no operation changes. -/
structure Initialised (memory : Memory) (alloc depth : ℕ) : Prop where
  alloc_ne : alloc ≠ 0
  freelist_ne : freelist memory alloc ≠ 0
  root_eq : rootBlockSize memory alloc = 2 ^ depth

theorem initialised_of_header {layout : Layout} {memory : Memory}
    (hheader : Header layout memory) : Initialised memory layout.alloc layout.depth where
  alloc_ne := layout.alloc_pos.ne'
  freelist_ne := by
    have hposition := layout.header_le
    rw [hheader.freelist_eq]
    simp only [sizeofBuddyAlloc] at hposition
    omega
  root_eq := hheader.root_eq

/-- `buddy_alloc` fails exactly if every list from the target layer up is empty. -/
theorem buddyAllocLayer_eq_null_iff {memory : Memory} {alloc depth : ℕ}
    (hinit : Initialised memory alloc depth) (layer : ℕ) :
    (buddyAllocLayer memory alloc layer).1 = 0 ↔
      ∀ level ≤ layer, readWord memory (freelistSlot memory alloc level) = 0 := by
  rw [← searchLayer_head_eq_zero_iff]
  have hslot (level : ℕ) : freelistSlot memory alloc level ≠ 0 := by
    have hlist := hinit.freelist_ne
    rw [freelistSlot]
    omega
  have hpop (level : ℕ) : (freelistPop memory (freelistSlot memory alloc level)).1 =
      readWord memory (freelistSlot memory alloc level) := by
    by_cases hempty : readWord memory (freelistSlot memory alloc level) = 0
    · simp only [freelistPop, if_neg (hslot level), hempty, if_pos]
    · simp only [freelistPop, if_neg (hslot level), if_neg hempty]
  rw [← hpop]
  simp only [buddyAllocLayer]
  split_ifs with hnull
  · simp [hnull]
  · exact Iff.rfl

/-! ## Sufficient blocks -/

/-- A block that is returned is of the least power of two of pages that the
request fits, and a request above the root block is refused. -/
def FitsRequest (memory : Memory) (alloc pages : ℕ) : Prop :=
  (∀ ptr memory', buddyAlloc memory alloc pages = some (ptr, memory') → ptr ≠ 0 →
    ∃ layer, bestFitLayer pages (rootBlockSize memory alloc) = some layer ∧
      IsLeast {size | pages ≤ size ∧ ∃ power, size = 2 ^ power}
        (blockSize layer (rootBlockSize memory alloc))) ∧
  (rootBlockSize memory alloc < pages →
    ∃ memory', buddyAlloc memory alloc pages = some (0, memory'))

/-- Every free list that the request's search looks at is empty. -/
def Exhausted (memory : Memory) (alloc pages : ℕ) : Prop :=
  ∀ layer, bestFitLayer pages (rootBlockSize memory alloc) = some layer →
    ∀ level ≤ layer, readWord memory (freelistSlot memory alloc level) = 0

instance (memory : Memory) (alloc pages : ℕ) : Decidable (Exhausted memory alloc pages) :=
  decidable_of_iff (∀ layer ∈ (bestFitLayer pages (rootBlockSize memory alloc)).toList,
    ∀ level < layer + 1, readWord memory (freelistSlot memory alloc level) = 0) (by
      simp only [Option.mem_toList, Nat.lt_succ_iff, Exhausted])

/-- A block for the request has the pages, or there is none to be had. -/
def Suffices (memory : Memory) (alloc pages : ℕ) : Prop :=
  pages ≤ fitPages memory alloc pages ∨ Exhausted memory alloc pages

instance (memory : Memory) (alloc pages : ℕ) : Decidable (Suffices memory alloc pages) :=
  inferInstanceAs (Decidable (_ ∨ _))

theorem blockSize_pow {layer depth : ℕ} (hlayer : layer ≤ depth) :
    blockSize layer (2 ^ depth) = 2 ^ (depth - layer) := by
  rw [blockSize, Nat.shiftRight_eq_div_pow, Nat.pow_div hlayer (by norm_num)]

theorem depth_lt_of_initialised {memory : Memory} {alloc depth : ℕ}
    (hinit : Initialised memory alloc depth) : depth < 64 := by
  have hword : 2 ^ depth < 2 ^ 64 := hinit.root_eq ▸ readWord_lt memory (alloc + 32)
  exact (Nat.pow_lt_pow_iff_right (by norm_num)).mp hword

/-- A request whose lists are all empty gets no block. -/
theorem buddyAlloc_of_exhausted {memory : Memory} {alloc pages depth : ℕ}
    (hinit : Initialised memory alloc depth) (hpages : 1 ≤ pages)
    (hexhausted : Exhausted memory alloc pages) :
    (buddyAlloc memory alloc pages).map Prod.fst = some 0 := by
  have hfit := bestFitLayer_eq_clog hpages (depth_lt_of_initialised hinit)
  rw [← hinit.root_eq] at hfit
  rw [buddyAlloc, if_neg hinit.alloc_ne, hfit, Option.map_some, Option.map_some,
    (buddyAllocLayer_eq_null_iff hinit _).mpr (hexhausted _ hfit)]

/-- One page is never too much for the block it gets. -/
theorem suffices_one_page {memory : Memory} {alloc depth : ℕ}
    (hinit : Initialised memory alloc depth) : Suffices memory alloc 1 := by
  have hfit := bestFitLayer_eq_clog le_rfl (depth_lt_of_initialised hinit)
  left
  rw [fitPages, fitLayer, hinit.root_eq, hfit, Option.getD_some, Nat.div_one,
    Nat.clog_pow 2 depth (by norm_num), blockSize_pow le_rfl, Nat.sub_self, pow_zero]

/-- A request gets a sufficient block exactly if the root block divided by it
is a power of two, or there is no block to be had. -/
theorem fitsRequest_iff {memory : Memory} {alloc pages depth : ℕ}
    (hinit : Initialised memory alloc depth) (hpages : 1 ≤ pages) :
    FitsRequest memory alloc pages ↔
      (∃ power, rootBlockSize memory alloc / pages = 2 ^ power) ∨
        Exhausted memory alloc pages := by
  have hroot := hinit.root_eq
  have hfit := bestFitLayer_eq_clog hpages (depth_lt_of_initialised hinit)
  have hresult : buddyAlloc memory alloc pages =
      some (buddyAllocLayer memory alloc (Nat.clog 2 (2 ^ depth / pages))) := by
    rw [buddyAlloc, if_neg hinit.alloc_ne, hroot, hfit, Option.map_some]
  have hlayer := clog_div_le depth pages
  have hleast : IsLeast {size | pages ≤ size ∧ ∃ power, size = 2 ^ power}
      (2 ^ (depth - Nat.clog 2 (2 ^ depth / pages))) ↔ ∃ power, 2 ^ depth / pages = 2 ^ power := by
    rw [← le_pow_sub_clog_iff hpages]
    constructor
    · exact fun hle => hle.1.1
    · refine fun hle => ⟨⟨hle, _, rfl⟩, ?_⟩
      rintro size ⟨hsize, power, rfl⟩
      exact pow_sub_clog_le hpages hsize
  have hexhausted : Exhausted memory alloc pages ↔
      (buddyAllocLayer memory alloc (Nat.clog 2 (2 ^ depth / pages))).1 = 0 := by
    rw [buddyAllocLayer_eq_null_iff hinit, Exhausted, hroot, hfit]
    simp
  rw [hexhausted]
  simp only [FitsRequest, hroot, hresult, hfit, Option.some.injEq, exists_eq_left',
    blockSize_pow hlayer, hleast]
  generalize buddyAllocLayer memory alloc (Nat.clog 2 (2 ^ depth / pages)) = reply
  obtain ⟨ptr, memory'⟩ := reply
  have hbelow : (∃ power, 2 ^ depth / pages = 2 ^ power) → ¬ 2 ^ depth < pages := by
    rintro ⟨power, hpower⟩ habove
    rw [Nat.div_eq_of_lt habove] at hpower
    exact (Nat.two_pow_pos power).ne hpower
  constructor
  · rintro ⟨hblock, -⟩
    by_cases hnull : ptr = 0
    · exact .inr hnull
    · exact .inl (hblock ptr memory' rfl hnull)
  · rintro (hpower | rfl)
    · exact ⟨fun _ _ _ _ => hpower, fun habove => absurd habove (hbelow hpower)⟩
    · refine ⟨?_, fun _ => ⟨memory', rfl⟩⟩
      rintro ptr memory' ⟨rfl, rfl⟩ hne
      exact absurd rfl hne

theorem fitsRequest_smallPool : FitsRequest smallPool 4096 6 :=
  (fitsRequest_iff ⟨by decide, by decide +kernel,
    show rootBlockSize smallPool 4096 = 2 ^ 4 by decide +kernel⟩ (by decide)).mpr
    (.inl ⟨1, by decide +kernel⟩)

/-- Three pages of a root block of sixteen are served with a block of two. -/
theorem not_fitsRequest_three_pages :
    ¬ ∀ (memory memory₀ : Memory) (begin_ end_ alloc pages : ℕ), begin_ ≤ end_ →
      end_ < wordSize → buddyInit memory begin_ end_ = some (alloc, memory₀) → alloc ≠ 0 →
      WellSized memory₀ alloc → 1 ≤ pages → FitsRequest memory₀ alloc pages := by
  intro hclaim
  have hfits := hclaim _ _ _ _ _ 3 (by decide) (by decide) buddyInit_smallPool (by decide)
    smallPool_wellSized (by decide)
  have hptr : (buddyAlloc smallPool 4096 3).map Prod.fst = some 8192 := by decide +kernel
  obtain ⟨⟨ptr, memory'⟩, halloc, rfl⟩ := Option.map_eq_some_iff.mp hptr
  obtain ⟨layer, hlayer, hleast⟩ := hfits.1 _ _ halloc (by decide)
  have hfit : bestFitLayer 3 (rootBlockSize smallPool 4096) = some 3 := by decide +kernel
  have hsize : blockSize 3 (rootBlockSize smallPool 4096) = 2 := by decide +kernel
  rw [hfit, Option.some.injEq] at hlayer
  have henough := hleast.1.1
  rw [← hlayer, hsize] at henough
  omega

end DoomsdayModules.BuddyFit
