import DoomsdayModules.Malloc.Slab

/-!
# The general allocator

`penguin_malloc.c` and `pfalloc.c` over byte memory.  A request goes to the
slab of its size class, or to the buddy allocator if it is larger than every
class or the slab has nothing; a header word in front of the client's memory
says which of them served it.

The C globals are a record beside the memory.  The two allocators are
parameters, so that the same code can be run on the real ones or on any others.
-/

namespace DoomsdayModules.PenguinMalloc

open DoomsdayModules.ByteMemory DoomsdayModules.Util DoomsdayModules.Slab

/-- The two calls that are made to a slab. -/
structure SlabOps where
  alloc : Memory → ℕ → Option (ℕ × Memory)
  free : Memory → ℕ → ℕ → Option Memory

structure Allocators where
  buddy : BuddyOps
  slab : SlabOps

/-- The allocators of `buddy.c` and `slab.c`. -/
def realAllocators (fuel : ℕ) : Allocators where
  buddy := realBuddy
  slab := ⟨slabAlloc fuel realBuddy, slabFree realBuddy⟩

/-- `global_buddy` and `global_slabs`. -/
structure Globals where
  buddy : ℕ
  slabs : ℕ → ℕ

/-! ## Size classes -/

def penguinMallocSlabs : ℕ := 8

def penguinMallocMinSlabSize : ℕ := 16

def buddyIndex : ℕ := penguinMallocSlabs

def slabSizeByIndex (index : ℕ) : ℕ := penguinMallocMinSlabSize <<< (index + 1)

def toPagesCount (size : ℕ) : ℕ := (size + pageSize - 1) % wordSize / pageSize

/-- The classes are tried in order, `classes` of them left. -/
def bestFitSlabIndexLoop (size : ℕ) : ℕ → ℕ → ℕ
  | 0, _ => buddyIndex
  | classes + 1, index =>
      if size < slabSizeByIndex index then index
      else bestFitSlabIndexLoop size classes (index + 1)

def bestFitSlabIndex (size : ℕ) : ℕ := bestFitSlabIndexLoop size buddyIndex 0

def sizeofPenguinMallocHeader : ℕ := 8

/-- `size += sizeof(penguin_malloc_header_t)`. -/
def withHeader (size : ℕ) : ℕ := (size + sizeofPenguinMallocHeader) % wordSize

/-! ## Initialisation -/

/-- The loop of `penguin_malloc_init` from class `index` on. -/
def initSlabs (buddy : BuddyOps) : ℕ → ℕ → Globals → Memory → Option (Globals × Memory)
  | 0, _, globals, memory => some (globals, memory)
  | classes + 1, index, globals, memory => do
      let (slab, memory) ← slabInit buddy memory globals.buddy (slabSizeByIndex index)
      initSlabs buddy classes (index + 1)
        { globals with slabs := Function.update globals.slabs index slab } memory

def penguinMallocInit (buddy : BuddyOps) (memory : Memory) (alloc : ℕ) :
    Option (Globals × Memory) :=
  initSlabs buddy penguinMallocSlabs 0 ⟨alloc, fun _ => 0⟩ memory

/-- `pfalloc_init`: the buddy allocator that `get_pfalloc_buddy` returns. -/
def pfallocInit (memory : Memory) (poolBegin poolSize : ℕ) : Option (ℕ × Memory) :=
  Buddy.buddyInit memory poolBegin (poolBegin + poolSize)

def pfalloc (buddy : BuddyOps) (memory : Memory) (globalBuddy pages : ℕ) :
    Option (ℕ × Memory) :=
  if globalBuddy = 0 then some (0, memory) else buddy.alloc memory globalBuddy pages

def pffree (buddy : BuddyOps) (memory : Memory) (globalBuddy ptr : ℕ) : Option Memory :=
  if globalBuddy ≠ 0 ∧ ptr ≠ 0 then buddy.free memory globalBuddy ptr else some memory

/-! ## `penguin_malloc` -/

/-- The block, the index for its header, and the memory after the calls for it. -/
structure Taken where
  mem : ℕ
  index : ℕ
  memory : Memory

variable (allocators : Allocators) (globals : Globals)

/-- The slab's turn. -/
def takeSlab (memory : Memory) (index : ℕ) : Option (ℕ × Memory) :=
  if index ≠ buddyIndex then allocators.slab.alloc memory (globals.slabs index)
  else some (0, memory)

/-- `penguin_malloc` up to the check that it has a block. -/
def penguinTake (memory : Memory) (size : ℕ) : Option Taken := do
  let size := withHeader size
  let index := bestFitSlabIndex size
  let (mem, memory) ← takeSlab allocators globals memory index
  -- the index is the buddy allocator's, or the slab returned NULL
  if mem = 0 then
    let (mem, memory) ← allocators.buddy.alloc memory globals.buddy (toPagesCount size)
    return ⟨mem, buddyIndex, memory⟩
  else return ⟨mem, index, memory⟩

def penguinMalloc (memory : Memory) (size : ℕ) : Option (ℕ × Memory) := do
  let taken ← penguinTake allocators globals memory size
  if taken.mem = 0 then return (0, taken.memory)
  else return (taken.mem + sizeofPenguinMallocHeader,
    writeWord taken.memory taken.mem taken.index)

/-! ## `penguin_free` -/

def slabIndex (memory : Memory) (ptr : ℕ) : ℕ :=
  readWord memory (ptr - sizeofPenguinMallocHeader)

/-- A header that names no class reads past the end of `global_slabs`. -/
def penguinFree (memory : Memory) (ptr : ℕ) : Option Memory :=
  if ptr = 0 then some memory
  else
    let block := ptr - sizeofPenguinMallocHeader
    if slabIndex memory ptr = buddyIndex then allocators.buddy.free memory globals.buddy block
    else if slabIndex memory ptr < penguinMallocSlabs then
      allocators.slab.free memory (globals.slabs (slabIndex memory ptr)) block
    else none

/-! ## The calls that are made -/

/-- A call of `penguin_malloc` for memory: to the slab of a class, or to the
buddy allocator for some pages. -/
inductive Request where
  | slab (index : ℕ)
  | buddy (pages : ℕ)
  deriving DecidableEq

inductive Allocator where
  | slab (index : ℕ)
  | buddy
  deriving DecidableEq

namespace Request

def allocator : Request → Allocator
  | .slab index => .slab index
  | .buddy _ => .buddy

/-- The header of a block that the request got. -/
def index : Request → ℕ
  | .slab index => index
  | .buddy _ => buddyIndex

/-- Bytes that the request is for. -/
def room : Request → ℕ
  | .slab index => slabSizeByIndex index
  | .buddy pages => pages * pageSize

end Request

def ask (memory : Memory) : Request → Option (ℕ × Memory)
  | .slab index => allocators.slab.alloc memory (globals.slabs index)
  | .buddy pages => allocators.buddy.alloc memory globals.buddy pages

/-- The calls of `penguin_malloc(size)`, in order. -/
def requests (memory : Memory) (size : ℕ) : List Request :=
  let size := withHeader size
  let index := bestFitSlabIndex size
  let buddyTurn := match takeSlab allocators globals memory index with
    | some (0, _) => [Request.buddy (toPagesCount size)]
    | _ => []
  if index ≠ buddyIndex then .slab index :: buddyTurn else buddyTurn

/-- The call that `penguin_free` makes: the allocator that gets the block back,
and the pointer it is passed. -/
def freeCall (memory : Memory) (ptr : ℕ) : Option (Allocator × ℕ) :=
  if ptr = 0 then none
  else if slabIndex memory ptr = buddyIndex then some (.buddy, ptr - sizeofPenguinMallocHeader)
  else if slabIndex memory ptr < penguinMallocSlabs then
    some (.slab (slabIndex memory ptr), ptr - sizeofPenguinMallocHeader)
  else none

/-- `free` of an allocator. -/
def giveBack (memory : Memory) : Allocator × ℕ → Option Memory
  | (.slab index, block) => allocators.slab.free memory (globals.slabs index) block
  | (.buddy, block) => allocators.buddy.free memory globals.buddy block

theorem penguinFree_eq_freeCall (memory : Memory) {ptr : ℕ} (hptr : ptr ≠ 0) :
    penguinFree allocators globals memory ptr =
      (freeCall memory ptr).bind (giveBack allocators globals memory) := by
  simp only [penguinFree, freeCall, if_neg hptr]
  by_cases hbuddy : slabIndex memory ptr = buddyIndex
  · rw [if_pos hbuddy, if_pos hbuddy]
    rfl
  · rw [if_neg hbuddy, if_neg hbuddy]
    by_cases hslab : slabIndex memory ptr < penguinMallocSlabs
    · rw [if_pos hslab, if_pos hslab]
      rfl
    · rw [if_neg hslab, if_neg hslab]
      rfl

end DoomsdayModules.PenguinMalloc
