import Mathlib.Tactic
import Mathlib.Data.Nat.Log

/-!
# Page and power-of-two arithmetic

The helpers of `util.c` that the buddy allocator is laid out with.  A
`size_t` is a natural number below `2 ^ 64`; pointer arithmetic wraps at
`2 ^ 64`.  The power-of-two loops shift a 64-bit one by a growing count, and a
shift by 64 or more is undefined: there the result is `none`.
-/

namespace DoomsdayModules.Util

def pageSize : ℕ := 4096

/-- `SIZE_MAX + 1`. -/
abbrev wordSize : ℕ := 2 ^ 64

def alignAddrToPageSizeUp (ptr : ℕ) : ℕ :=
  (ptr + (pageSize - ptr % pageSize)) % wordSize

def alignAddrToPageSizeDown (ptr : ℕ) : ℕ := ptr - ptr % pageSize

/-- The pointers are subtracted as a signed 64-bit difference, divided as
signed integers, and converted back to `size_t`. -/
def pagesCount (begin_ end_ : ℕ) : ℕ :=
  let begin_ := alignAddrToPageSizeUp begin_
  let end_ := alignAddrToPageSizeDown end_
  (((Int.bmod ((end_ : ℤ) - begin_) wordSize).tdiv pageSize) % wordSize).toNat

/-- `while ((1ull << p) < size) p += 1`, with the shift counts left. -/
def log2UpperLoop (size : ℕ) : ℕ → ℕ → Option ℕ
  | 0, _ => none
  | shifts + 1, p => if 2 ^ p < size then log2UpperLoop size shifts (p + 1) else some p

def log2Upper (size : ℕ) : Option ℕ := log2UpperLoop size 64 0

/-- `while ((1ull << (p + 1)) <= size) p += 1`, with the shift counts left. -/
def log2LowerLoop (size : ℕ) : ℕ → ℕ → Option ℕ
  | 0, _ => none
  | shifts + 1, p => if 2 ^ (p + 1) ≤ size then log2LowerLoop size shifts (p + 1) else some p

def maxLowerPowerOf2 (size : ℕ) : Option ℕ := (log2LowerLoop size 63 0).map (2 ^ ·)

/-! ## The loops compute logarithms -/

theorem log2UpperLoop_eq_clog {size shifts p : ℕ} (hstart : p ≤ Nat.clog 2 size)
    (hshifts : Nat.clog 2 size < p + shifts) :
    log2UpperLoop size shifts p = some (Nat.clog 2 size) := by
  induction shifts generalizing p with
  | zero => omega
  | succ shifts ih =>
      have hiff : 2 ^ p < size ↔ p < Nat.clog 2 size :=
        (Nat.lt_clog_iff_pow_lt (by norm_num)).symm
      by_cases hmore : 2 ^ p < size
      · simp only [log2UpperLoop, if_pos hmore]
        exact ih (hiff.mp hmore) (by omega)
      · simp only [log2UpperLoop, if_neg hmore]
        rw [hiff] at hmore
        congr 1
        omega

/-- `log2_upper` is the rounded-up logarithm for every size up to `2 ^ 63`. -/
theorem log2Upper_eq_clog {size : ℕ} (hsize : size ≤ 2 ^ 63) :
    log2Upper size = some (Nat.clog 2 size) := by
  have hclog : Nat.clog 2 size ≤ 63 := Nat.clog_le_of_le_pow hsize
  exact log2UpperLoop_eq_clog (Nat.zero_le _) (by omega)

theorem log2UpperLoop_spec {size shifts p q : ℕ}
    (hresult : log2UpperLoop size shifts p = some q) (hbelow : ∀ r < p, 2 ^ r < size) :
    size ≤ 2 ^ q ∧ ∀ r < q, 2 ^ r < size := by
  induction shifts generalizing p with
  | zero => simp [log2UpperLoop] at hresult
  | succ shifts ih =>
      by_cases hmore : 2 ^ p < size
      · simp only [log2UpperLoop, if_pos hmore] at hresult
        apply ih hresult
        intro r hr
        rcases Nat.lt_succ_iff_lt_or_eq.mp hr with hr | rfl
        · exact hbelow r hr
        · exact hmore
      · simp only [log2UpperLoop, if_neg hmore, Option.some.injEq] at hresult
        subst hresult
        exact ⟨by omega, hbelow⟩

/-- Where `log2_upper` has a result it is the least sufficient exponent. -/
theorem log2Upper_spec {size q : ℕ} (hresult : log2Upper size = some q) :
    size ≤ 2 ^ q ∧ ∀ r < q, 2 ^ r < size :=
  log2UpperLoop_spec hresult (by simp)

theorem log2LowerLoop_spec {size shifts p q : ℕ}
    (hresult : log2LowerLoop size shifts p = some q) (hstart : p = 0 ∨ 2 ^ p ≤ size) :
    size < 2 ^ (q + 1) ∧ (q = 0 ∨ 2 ^ q ≤ size) ∧ q < p + shifts := by
  induction shifts generalizing p with
  | zero => simp [log2LowerLoop] at hresult
  | succ shifts ih =>
      by_cases hmore : 2 ^ (p + 1) ≤ size
      · simp only [log2LowerLoop, if_pos hmore] at hresult
        obtain ⟨hupper, hlower, hbound⟩ := ih hresult (.inr hmore)
        exact ⟨hupper, hlower, by omega⟩
      · simp only [log2LowerLoop, if_neg hmore, Option.some.injEq] at hresult
        subst hresult
        exact ⟨by omega, hstart, by omega⟩

/-- Where `max_lower_power_of_2` has a result it is a power of two `2 ^ q`
with `size < 2 ^ (q + 1)`, and `2 ^ q ≤ size` unless `size` is zero. -/
theorem maxLowerPowerOf2_spec {size root : ℕ} (hresult : maxLowerPowerOf2 size = some root) :
    ∃ q < 63, root = 2 ^ q ∧ size < 2 ^ (q + 1) ∧ (size = 0 ∨ 2 ^ q ≤ size) := by
  simp only [maxLowerPowerOf2, Option.map_eq_some_iff] at hresult
  obtain ⟨q, hloop, rfl⟩ := hresult
  obtain ⟨hupper, hlower, hbound⟩ := log2LowerLoop_spec hloop (.inl rfl)
  refine ⟨q, by omega, rfl, hupper, ?_⟩
  rcases hlower with rfl | hlower
  · simp only [pow_zero, zero_add, pow_one] at hupper ⊢
    omega
  · exact .inr hlower

/-! ## Alignment -/

theorem alignAddrToPageSizeDown_le (ptr : ℕ) : alignAddrToPageSizeDown ptr ≤ ptr :=
  Nat.sub_le _ _

theorem alignAddrToPageSizeUp_mod (ptr : ℕ) : alignAddrToPageSizeUp ptr % pageSize = 0 := by
  simp only [alignAddrToPageSizeUp, pageSize, wordSize]
  omega

theorem pagesCount_lt (begin_ end_ : ℕ) : pagesCount begin_ end_ < wordSize := by
  simp only [pagesCount, wordSize]
  omega

/-- Rounded ends that do not cross: the page count is their distance in pages. -/
theorem pagesCount_mul_of_le {begin_ end_ : ℕ}
    (hle : alignAddrToPageSizeUp begin_ ≤ alignAddrToPageSizeDown end_)
    (hsmall : alignAddrToPageSizeDown end_ - alignAddrToPageSizeUp begin_ < 2 ^ 63) :
    pagesCount begin_ end_ * pageSize =
      alignAddrToPageSizeDown end_ - alignAddrToPageSizeUp begin_ := by
  have hstart := alignAddrToPageSizeUp_mod begin_
  have hstop : alignAddrToPageSizeDown end_ % pageSize = 0 := by
    simp only [alignAddrToPageSizeDown, pageSize]
    omega
  simp only [pagesCount]
  generalize alignAddrToPageSizeUp begin_ = start at *
  generalize alignAddrToPageSizeDown end_ = stop at *
  have hdiff : Int.bmod ((stop : ℤ) - start) wordSize = (stop : ℤ) - start := by
    rw [Int.bmod_def]
    simp only [wordSize]
    omega
  rw [hdiff, Int.tdiv_eq_ediv_of_nonneg (by omega)]
  simp only [wordSize, pageSize] at *
  omega

/-- A page count below `2 ^ 63` comes from rounded ends that neither wrapped
nor crossed. -/
theorem pagesCount_spec {begin_ end_ : ℕ} (horder : begin_ ≤ end_ + 2 ^ 62)
    (hend : end_ < wordSize) (hcount : pagesCount begin_ end_ < 2 ^ 63) :
    alignAddrToPageSizeUp begin_ = begin_ + (pageSize - begin_ % pageSize) ∧
      alignAddrToPageSizeUp begin_ ≤ alignAddrToPageSizeDown end_ ∧
      alignAddrToPageSizeDown end_ - alignAddrToPageSizeUp begin_ < 2 ^ 63 := by
  have hup : alignAddrToPageSizeUp begin_ % pageSize = 0 ∧
      alignAddrToPageSizeUp begin_ < wordSize ∧
      (alignAddrToPageSizeUp begin_ = begin_ + (pageSize - begin_ % pageSize) ∨
        alignAddrToPageSizeUp begin_ + wordSize = begin_ + (pageSize - begin_ % pageSize)) := by
    simp only [alignAddrToPageSizeUp, pageSize, wordSize] at *
    omega
  have hdown : alignAddrToPageSizeDown end_ % pageSize = 0 ∧
      alignAddrToPageSizeDown end_ ≤ end_ ∧
      end_ < alignAddrToPageSizeDown end_ + pageSize := by
    simp only [alignAddrToPageSizeDown, pageSize]
    omega
  simp only [pagesCount] at hcount
  generalize alignAddrToPageSizeUp begin_ = start at *
  generalize alignAddrToPageSizeDown end_ = stop at *
  generalize hdiff : Int.bmod ((stop : ℤ) - start) wordSize = diff at *
  have hbounds : -2 ^ 63 ≤ diff ∧ diff < 2 ^ 63 ∧ diff % 4096 = 0 ∧
      (diff = (stop : ℤ) - start ∨ diff = (stop : ℤ) - start - 2 ^ 64 ∨
        diff = (stop : ℤ) - start + 2 ^ 64) := by
    rw [Int.bmod_def] at hdiff
    simp only [wordSize, pageSize] at *
    omega
  obtain ⟨hlower, hupper, haligned, hexact⟩ := hbounds
  have hnonneg : 0 ≤ diff := by
    by_contra hneg
    obtain ⟨size, rfl⟩ : ∃ size : ℤ, diff = -size := ⟨-diff, by omega⟩
    rw [Int.neg_tdiv, Int.tdiv_eq_ediv_of_nonneg (by omega)] at hcount
    simp only [wordSize, pageSize] at *
    omega
  simp only [wordSize, pageSize] at *
  omega

/-- The difference of the rounded ends, as the signed number it is divided as. -/
theorem pagesCount_eq_of_diff {begin_ end_ : ℕ} {pages : ℤ}
    (hdiff : Int.bmod ((alignAddrToPageSizeDown end_ : ℤ) - alignAddrToPageSizeUp begin_) wordSize =
      pages * pageSize) :
    pagesCount begin_ end_ = (pages % wordSize).toNat := by
  have hpos : (pageSize : ℤ) ≠ 0 := by norm_num [pageSize]
  simp only [pagesCount, hdiff]
  rw [Int.mul_tdiv_cancel _ hpos]

/-- The pages between the page of `begin_` and the page of `end_`, as far as
their bytes can be told by a signed number. -/
theorem pagesCount_of_later {begin_ end_ : ℕ} (hlater : begin_ / pageSize < end_ / pageSize)
    (hnear : end_ / pageSize ≤ begin_ / pageSize + 2 ^ 51) (hend : end_ < wordSize) :
    pagesCount begin_ end_ = end_ / pageSize - begin_ / pageSize - 1 := by
  have hup : alignAddrToPageSizeUp begin_ = (begin_ / pageSize + 1) * pageSize := by
    simp only [alignAddrToPageSizeUp, pageSize, wordSize] at *
    omega
  have hdown : alignAddrToPageSizeDown end_ = end_ / pageSize * pageSize := by
    simp only [alignAddrToPageSizeDown, pageSize]
    omega
  have hle : alignAddrToPageSizeUp begin_ ≤ alignAddrToPageSizeDown end_ := by
    rw [hup, hdown]
    exact Nat.mul_le_mul_right _ hlater
  have hmul := pagesCount_mul_of_le hle (by simp only [hup, hdown, pageSize] at *; omega)
  simp only [hup, hdown, pageSize] at *
  omega

/-- The rounded ends of a pool inside one page cross. -/
theorem pagesCount_of_same_page {begin_ end_ : ℕ} (hsame : begin_ / pageSize = end_ / pageSize)
    (hend : end_ < wordSize) : pagesCount begin_ end_ = wordSize - 1 := by
  have hdiff : Int.bmod ((alignAddrToPageSizeDown end_ : ℤ) - alignAddrToPageSizeUp begin_)
      wordSize = -1 * pageSize := by
    rw [Int.bmod_def]
    simp only [alignAddrToPageSizeUp, alignAddrToPageSizeDown, pageSize, wordSize] at *
    omega
  rw [pagesCount_eq_of_diff hdiff]
  rfl

/-- A difference of `2 ^ 63` bytes or more is taken for a negative one. -/
theorem pagesCount_of_far {begin_ end_ : ℕ}
    (hfar : begin_ / pageSize + 2 ^ 51 < end_ / pageSize) (hend : end_ < wordSize) :
    pagesCount begin_ end_ =
      wordSize - 2 ^ 52 + (end_ / pageSize - begin_ / pageSize - 1) := by
  have hdiff : Int.bmod ((alignAddrToPageSizeDown end_ : ℤ) - alignAddrToPageSizeUp begin_)
      wordSize =
        (((end_ / pageSize : ℕ) : ℤ) - (begin_ / pageSize : ℕ) - 1 - 2 ^ 52) * pageSize := by
    rw [Int.bmod_def]
    simp only [alignAddrToPageSizeUp, alignAddrToPageSizeDown, pageSize, wordSize] at *
    omega
  rw [pagesCount_eq_of_diff hdiff]
  simp only [pageSize, wordSize] at *
  omega

/-- A page count below `2 ^ 63` is that of the pages strictly between the page
of `begin_` and the page of `end_`. -/
theorem pagesCount_eq_of_lt {begin_ end_ : ℕ} (horder : begin_ ≤ end_ + 2 ^ 62)
    (hend : end_ < wordSize) (hcount : pagesCount begin_ end_ < 2 ^ 63) :
    begin_ / pageSize < end_ / pageSize ∧ end_ / pageSize ≤ begin_ / pageSize + 2 ^ 51 ∧
      pagesCount begin_ end_ = end_ / pageSize - begin_ / pageSize - 1 := by
  obtain ⟨hup, hle, hdiff⟩ := pagesCount_spec horder hend hcount
  have hrange : begin_ / pageSize < end_ / pageSize ∧
      end_ / pageSize ≤ begin_ / pageSize + 2 ^ 51 := by
    rw [hup] at hle hdiff
    simp only [alignAddrToPageSizeDown, pageSize] at *
    omega
  exact ⟨hrange.1, hrange.2, pagesCount_of_later hrange.1 hrange.2 hend⟩

end DoomsdayModules.Util
