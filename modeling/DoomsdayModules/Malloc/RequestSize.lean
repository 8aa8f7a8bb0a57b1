import DoomsdayModules.Malloc.PenguinMalloc

/-!
# What a request asks for

A request is the client's size and a header.  Both the addition of the header
and the rounding to pages are taken modulo `2 ^ 64`; a size in the last 4103 of
the range wraps in one of the two, and asks the smallest slab or asks the buddy
allocator for no pages.  Every other size asks for enough.
-/

namespace DoomsdayModules.RequestSize

open DoomsdayModules.ByteMemory DoomsdayModules.Util DoomsdayModules.Slab
open DoomsdayModules.PenguinMalloc

variable {allocators : Allocators} {globals : Globals} {memory : Memory} {size : ℕ}

/-! ## The class of a size -/

theorem slabSizeByIndex_eq (index : ℕ) : slabSizeByIndex index = 2 ^ (index + 5) := by
  rw [slabSizeByIndex, penguinMallocMinSlabSize, Nat.shiftLeft_eq, ← Nat.pow_add' 2 (index + 1) 4]

theorem bestFitSlabIndexLoop_spec (size classes index : ℕ) :
    (bestFitSlabIndexLoop size classes index = buddyIndex ∧
      ∀ other, index ≤ other → other < index + classes → slabSizeByIndex other ≤ size) ∨
    (bestFitSlabIndexLoop size classes index < index + classes ∧
      size < slabSizeByIndex (bestFitSlabIndexLoop size classes index)) := by
  induction classes generalizing index with
  | zero => exact .inl ⟨rfl, fun other hlower hupper => absurd hlower (by omega)⟩
  | succ classes ih =>
      by_cases hfits : size < slabSizeByIndex index
      · simp only [bestFitSlabIndexLoop, if_pos hfits]
        exact .inr ⟨by omega, hfits⟩
      · simp only [bestFitSlabIndexLoop, if_neg hfits]
        rcases ih (index + 1) with ⟨hbuddy, hall⟩ | ⟨hlt, hsize⟩
        · refine .inl ⟨hbuddy, fun other hlower hupper => ?_⟩
          rcases hlower.eq_or_lt with rfl | hlower
          · omega
          · exact hall other hlower (by omega)
        · exact .inr ⟨by omega, hsize⟩

/-- A size below the largest class gets a class that it fits. -/
theorem bestFitSlabIndex_spec (size : ℕ) :
    (bestFitSlabIndex size = buddyIndex ∧ 4096 ≤ size) ∨
    (bestFitSlabIndex size < penguinMallocSlabs ∧
      size < slabSizeByIndex (bestFitSlabIndex size)) := by
  rcases bestFitSlabIndexLoop_spec size buddyIndex 0 with ⟨hbuddy, hall⟩ | ⟨hlt, hsize⟩
  · exact .inl ⟨hbuddy, hall 7 (by norm_num) (by norm_num [buddyIndex, penguinMallocSlabs])⟩
  · rw [zero_add] at hlt
    exact .inr ⟨hlt, hsize⟩

theorem bestFitSlabIndex_zero (hsmall : size < 32) : bestFitSlabIndex size = 0 := by
  have hfits : size < slabSizeByIndex 0 := hsmall
  simp only [bestFitSlabIndex, buddyIndex, penguinMallocSlabs, bestFitSlabIndexLoop, if_pos hfits]

theorem bestFitSlabIndex_buddy (hlarge : 4096 ≤ size) : bestFitSlabIndex size = buddyIndex := by
  rcases bestFitSlabIndex_spec size with ⟨hbuddy, -⟩ | ⟨hlt, hsize⟩
  · exact hbuddy
  · rw [slabSizeByIndex_eq] at hsize
    have hclass : 2 ^ (bestFitSlabIndex size + 5) ≤ 2 ^ 12 := by
      apply Nat.pow_le_pow_right (by norm_num)
      simp only [penguinMallocSlabs] at hlt
      omega
    omega

/-! ## The calls and the outcome -/

/-- The outcome is that of the requests, made one after the other. -/
theorem penguinTake_eq_requests (memory : Memory) (size : ℕ) :
    (penguinTake allocators globals memory size).map (fun taken => (taken.mem, taken.memory)) =
      (requests allocators globals memory size).foldlM
        (fun reply request => ask allocators globals reply.2 request) (0, memory) := by
  simp only [penguinTake, requests]
  by_cases hclass : bestFitSlabIndex (withHeader size) = buddyIndex
  · simp only [takeSlab, hclass, ne_eq, not_true_eq_false, if_false]
    cases hbuddy : allocators.buddy.alloc memory globals.buddy (toPagesCount (withHeader size)) <;>
      simp [ask, hbuddy]
  · have hslab : takeSlab allocators globals memory (bestFitSlabIndex (withHeader size)) =
        ask allocators globals memory (.slab (bestFitSlabIndex (withHeader size))) := if_pos hclass
    rw [if_pos hclass, hslab]
    cases hreply : ask allocators globals memory (.slab (bestFitSlabIndex (withHeader size))) with
    | none => simp [hreply]
    | some reply =>
        obtain ⟨mem, replied⟩ := reply
        by_cases hnull : mem = 0
        · subst hnull
          have hbuddy : allocators.buddy.alloc replied globals.buddy
              (toPagesCount (withHeader size)) =
                ask allocators globals replied (.buddy (toPagesCount (withHeader size))) := rfl
          cases ask allocators globals replied (.buddy (toPagesCount (withHeader size))) <;>
            simp_all
        · simp [hreply, hnull]

/-- A slab that has a block is the only one asked. -/
theorem requests_of_served {mem : ℕ} {replied : Memory}
    (hclass : bestFitSlabIndex (withHeader size) ≠ buddyIndex)
    (hturn : takeSlab allocators globals memory (bestFitSlabIndex (withHeader size)) =
      some (mem, replied)) (hmem : mem ≠ 0) :
    requests allocators globals memory size = [.slab (bestFitSlabIndex (withHeader size))] := by
  simp only [requests, hturn, if_pos hclass]
  split
  · rename_i hzero
    simp only [Option.some.injEq, Prod.mk.injEq] at hzero
    exact absurd hzero.1 hmem
  · rfl

/-- Either the slab of the class served the request, or it had its turn (which
is none for a large size) and the buddy allocator was asked. -/
theorem penguinTake_cases {taken : Taken}
    (htake : penguinTake allocators globals memory size = some taken) :
    (bestFitSlabIndex (withHeader size) ≠ buddyIndex ∧
      taken.index = bestFitSlabIndex (withHeader size) ∧ taken.mem ≠ 0 ∧
      allocators.slab.alloc memory (globals.slabs taken.index) = some (taken.mem, taken.memory) ∧
      requests allocators globals memory size = [.slab taken.index]) ∨
    (∃ replied, takeSlab allocators globals memory (bestFitSlabIndex (withHeader size)) =
        some (0, replied) ∧ taken.index = buddyIndex ∧
      allocators.buddy.alloc replied globals.buddy (toPagesCount (withHeader size)) =
        some (taken.mem, taken.memory) ∧
      requests allocators globals memory size =
        if bestFitSlabIndex (withHeader size) ≠ buddyIndex then
          [.slab (bestFitSlabIndex (withHeader size)), .buddy (toPagesCount (withHeader size))]
        else [.buddy (toPagesCount (withHeader size))]) := by
  simp only [penguinTake, Option.bind_eq_bind, Option.bind_eq_some_iff] at htake
  obtain ⟨⟨mem, replied⟩, hslab, hrest⟩ := htake
  by_cases hnull : mem = 0
  · subst hnull
    simp only [if_true, Option.bind_eq_some_iff] at hrest
    obtain ⟨⟨mem, memory'⟩, hbuddy, htaken⟩ := hrest
    simp only [Option.pure_def, Option.some.injEq] at htaken
    subst htaken
    refine .inr ⟨replied, hslab, rfl, hbuddy, ?_⟩
    simp only [requests, hslab]
  · simp only [if_neg hnull, Option.pure_def, Option.some.injEq] at hrest
    subst hrest
    have hclass : bestFitSlabIndex (withHeader size) ≠ buddyIndex := by
      intro hbuddy
      simp only [takeSlab, hbuddy, ne_eq, not_true_eq_false, if_false, Option.some.injEq,
        Prod.mk.injEq] at hslab
      exact hnull hslab.1.symm
    refine .inl ⟨hclass, rfl, hnull, ?_, requests_of_served hclass hslab hnull⟩
    rwa [takeSlab, if_pos hclass] at hslab

/-! ## Enough -/

/-- The block a request is for has room for the size and its header. -/
def Enough (size : ℕ) : Request → Prop
  | .slab index => size + sizeofPenguinMallocHeader ≤ slabSizeByIndex index
  | .buddy pages => 1 ≤ pages ∧ size + sizeofPenguinMallocHeader ≤ pages * pageSize

/-- Neither the header nor the rounding to pages wraps. -/
def NoWrap (size : ℕ) : Prop := size + sizeofPenguinMallocHeader + (pageSize - 1) < wordSize

instance (size : ℕ) : Decidable (NoWrap size) := inferInstanceAs (Decidable (_ < _))

theorem withHeader_eq (hwrap : NoWrap size) : withHeader size = size + 8 := by
  exact Nat.mod_eq_of_lt (lt_of_le_of_lt (Nat.le_add_right _ _) hwrap)

theorem enough_of_noWrap (hwrap : NoWrap size) {request : Request}
    (hrequest : request ∈ requests allocators globals memory size) : Enough size request := by
  have hheader := withHeader_eq hwrap
  simp only [NoWrap, sizeofPenguinMallocHeader, pageSize, wordSize] at hwrap
  have hslab : bestFitSlabIndex (withHeader size) ≠ buddyIndex →
      Enough size (.slab (bestFitSlabIndex (withHeader size))) := by
    intro hclass
    have hspec := (bestFitSlabIndex_spec (withHeader size)).resolve_left fun hbuddy =>
      hclass hbuddy.1
    have hfits := hspec.2
    simp only [Enough, sizeofPenguinMallocHeader]
    omega
  have hbuddy : Enough size (.buddy (toPagesCount (withHeader size))) := by
    simp only [Enough, toPagesCount, sizeofPenguinMallocHeader, hheader, pageSize, wordSize]
    omega
  simp only [requests] at hrequest
  split_ifs at hrequest with hclass
  · rcases List.mem_cons.mp hrequest with rfl | hturn
    · exact hslab hclass
    · split at hturn
      · rwa [List.mem_singleton.mp hturn]
      · exact absurd hturn List.not_mem_nil
  · split at hrequest
    · rwa [List.mem_singleton.mp hrequest]
    · exact absurd hrequest List.not_mem_nil

/-- A header that wraps asks the smallest slab, for less than the size. -/
theorem slab_mem_requests_of_wrap (hsize : size < wordSize)
    (hwrap : wordSize ≤ size + sizeofPenguinMallocHeader) :
    Request.slab 0 ∈ requests allocators globals memory size := by
  have hsmall : withHeader size < 32 := by
    simp only [withHeader, sizeofPenguinMallocHeader, wordSize] at hwrap hsize ⊢
    omega
  have hclass : (0 : ℕ) ≠ buddyIndex := by decide
  simp only [requests, bestFitSlabIndex_zero hsmall, if_pos hclass]
  exact List.mem_cons_self

/-- A page count that wraps asks the buddy allocator for no pages. -/
theorem buddy_mem_requests_of_wrap (hheader : size + sizeofPenguinMallocHeader < wordSize)
    (hwrap : wordSize ≤ size + sizeofPenguinMallocHeader + (pageSize - 1)) :
    Request.buddy 0 ∈ requests allocators globals memory size := by
  simp only [sizeofPenguinMallocHeader, pageSize, wordSize] at hheader hwrap
  have hsize : withHeader size = size + 8 := Nat.mod_eq_of_lt hheader
  have hclass : bestFitSlabIndex (size + 8) = buddyIndex := bestFitSlabIndex_buddy (by omega)
  have hpages : toPagesCount (size + 8) = 0 := by
    simp only [toPagesCount, pageSize, wordSize]
    omega
  simp only [requests, hsize, hclass, hpages, takeSlab, ne_eq, not_true_eq_false, if_false]
  exact List.mem_cons_self

/-- A size asks for enough exactly if neither addition wraps. -/
theorem requests_enough_iff (allocators : Allocators) (globals : Globals) (memory : Memory)
    {size : ℕ} (hsize : size < wordSize) :
    (∀ request ∈ requests allocators globals memory size, Enough size request) ↔
      NoWrap size := by
  constructor
  · intro henough
    by_contra hwrap
    rw [NoWrap, not_lt] at hwrap
    by_cases hheader : size + sizeofPenguinMallocHeader < wordSize
    · exact absurd (henough _ (buddy_mem_requests_of_wrap hheader hwrap)).1 (by norm_num)
    · have hslab := henough _ (slab_mem_requests_of_wrap hsize (not_lt.mp hheader))
      have hclass : slabSizeByIndex 0 = 32 := rfl
      simp only [Enough, hclass] at hslab
      simp only [wordSize] at hheader
      omega
  · exact fun hwrap request hrequest => enough_of_noWrap hwrap hrequest

theorem requests_enough_page :
    (∀ request ∈ requests (realAllocators 2) ⟨4096, fun _ => 0⟩ (fun _ => 0) 4096,
      Enough 4096 request) ↔ NoWrap 4096 :=
  requests_enough_iff _ _ _ (by decide)

/-- A request for all of memory is one for a block of the smallest slab. -/
theorem requests_not_enough_at_limit :
    ¬ ∀ (allocators : Allocators) (globals : Globals) (memory : Memory) (size : ℕ),
      size < wordSize → ∀ request ∈ requests allocators globals memory size,
        Enough size request := by
  intro hclaim
  have hslab := hclaim (realAllocators 2) ⟨4096, fun _ => 0⟩ (fun _ => 0) (2 ^ 64 - 1) (by decide)
    (.slab 0) (slab_mem_requests_of_wrap (by decide) (by decide))
  exact absurd hslab (by unfold Enough; decide)

end DoomsdayModules.RequestSize
