import DoomsdayModules.Malloc.Buddy
import Mathlib.Data.Set.Card
import Mathlib.Order.Interval.Finset.Nat

/-!
# The pools that `buddy_init` accepts

`pages_count` rounds the beginning of a pool up and its end down.  Rounding up
moves an aligned address by a whole page, so the first page of an aligned pool
is not counted; and the rounded ends of a pool inside one page cross, which
makes the difference negative and the unsigned page count huge.
-/

namespace DoomsdayModules.PoolAdmission

open DoomsdayModules.ByteMemory DoomsdayModules.Util DoomsdayModules.Buddy

/-- The whole pages of `[begin_, end_)`. -/
def wholePages (begin_ end_ : ℕ) : Set ℕ :=
  {page | begin_ ≤ page * pageSize ∧ (page + 1) * pageSize ≤ end_}

/-- The page count is the number of whole pages, and a pool is refused, with
the memory as it was, exactly if it has fewer than sixteen of them. -/
structure Admits (begin_ end_ : ℕ) : Prop where
  counts : pagesCount begin_ end_ = (wholePages begin_ end_).ncard
  refuses : ∀ memory, buddyInit memory begin_ end_ = some (0, memory) ↔
    (wholePages begin_ end_).ncard < 16

/-! ## The whole pages -/

theorem wholePages_eq (begin_ end_ : ℕ) :
    wholePages begin_ end_ =
      (Finset.Ico ((begin_ + pageSize - 1) / pageSize) (end_ / pageSize) : Finset ℕ) := by
  ext page
  simp only [wholePages, Set.mem_ofPred_eq, Finset.coe_Ico, Set.mem_Ico, pageSize]
  omega

theorem ncard_wholePages (begin_ end_ : ℕ) :
    (wholePages begin_ end_).ncard =
      end_ / pageSize - (begin_ + pageSize - 1) / pageSize := by
  rw [wholePages_eq, Set.ncard_coe_finset, Nat.card_Ico]

/-! ## Admission -/

/-- `buddy_init` returns `NULL` exactly on the count that it makes itself. -/
theorem buddyInit_eq_null_iff {begin_ end_ : ℕ} (hbegin : begin_ ≠ 0) (memory : Memory) :
    buddyInit memory begin_ end_ = some (0, memory) ↔ pagesCount begin_ end_ < 16 := by
  rw [buddyInit]
  split_ifs with hfew
  · simp [hfew]
  · simp only [hfew, iff_false, Option.bind_eq_bind, Option.bind_eq_some_iff, Option.pure_def,
      Option.some.injEq, Prod.mk.injEq]
    rintro ⟨first, -, second, -, hnull, -⟩
    exact hbegin hnull

/-- A pool is counted right, and refused exactly if it is too small, only if it
begins inside a page and ends in a later page less than `2 ^ 63` bytes away. -/
theorem admits_iff {begin_ end_ : ℕ} (horder : begin_ ≤ end_) (hend : end_ < wordSize) :
    Admits begin_ end_ ↔ begin_ % pageSize ≠ 0 ∧ begin_ / pageSize < end_ / pageSize ∧
      end_ / pageSize ≤ begin_ / pageSize + 2 ^ 51 := by
  have hpages : begin_ / pageSize ≤ end_ / pageSize := Nat.div_le_div_right horder
  have hwhole := ncard_wholePages begin_ end_
  constructor
  · rintro ⟨hcounts, -⟩
    rw [hwhole] at hcounts
    rcases hpages.eq_or_lt with hsame | hlater
    · rw [pagesCount_of_same_page hsame hend] at hcounts
      simp only [pageSize, wordSize] at *
      omega
    · by_cases hnear : end_ / pageSize ≤ begin_ / pageSize + 2 ^ 51
      · rw [pagesCount_of_later hlater hnear hend] at hcounts
        refine ⟨?_, hlater, hnear⟩
        intro haligned
        simp only [pageSize] at *
        omega
      · rw [pagesCount_of_far (by omega) hend] at hcounts
        simp only [pageSize, wordSize] at *
        omega
  · rintro ⟨hinside, hlater, hnear⟩
    have hcounts : pagesCount begin_ end_ = (wholePages begin_ end_).ncard := by
      rw [pagesCount_of_later hlater hnear hend, hwhole]
      simp only [pageSize] at *
      omega
    have hbegin : begin_ ≠ 0 := by
      rintro rfl
      exact hinside rfl
    exact ⟨hcounts, fun memory => hcounts ▸ buddyInit_eq_null_iff hbegin memory⟩

theorem admits_inside_page : Admits 4097 73728 :=
  (admits_iff (by decide) (by decide)).mpr (by decide)

/-- Sixteen whole pages from an aligned address are counted as fifteen. -/
theorem not_admits_aligned :
    ¬ ∀ begin_ end_, begin_ ≤ end_ → end_ < wordSize → Admits begin_ end_ := by
  intro hclaim
  have hcounts := (hclaim 4096 69632 (by decide) (by decide)).counts
  rw [ncard_wholePages] at hcounts
  exact absurd hcounts (by decide)

end DoomsdayModules.PoolAdmission
