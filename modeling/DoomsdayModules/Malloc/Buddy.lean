import DoomsdayModules.Malloc.BuddyUtil
import DoomsdayModules.Malloc.Freelist

/-!
# The buddy allocator

`buddy.c` over byte memory.  The allocator's state is the `buddy_alloc_t` at
the start of the pool, the free-list heads and the bitmap behind it, and the
first words of the free blocks; nothing is kept outside the memory.

A result is `none` where the C program has no defined one: a dereferenced null
allocator, a request for no pages (which divides by zero), a shift by 64 or
more, and an index that does not fit the `int` it is stored in.
-/

namespace DoomsdayModules.Buddy

open DoomsdayModules.ByteMemory DoomsdayModules.Util DoomsdayModules.BuddyUtil
open DoomsdayModules.Freelist

/-! ## `buddy_alloc_t` -/

def sizeofBuddyAlloc : ℕ := 48

def bitmap (memory : Memory) (alloc : ℕ) : ℕ := readWord memory alloc

def freelist (memory : Memory) (alloc : ℕ) : ℕ := readWord memory (alloc + 8)

def buddyLayers (memory : Memory) (alloc : ℕ) : ℕ := readWord memory (alloc + 16)

def blocksCount (memory : Memory) (alloc : ℕ) : ℕ := readWord memory (alloc + 24)

def rootBlockSize (memory : Memory) (alloc : ℕ) : ℕ := readWord memory (alloc + 32)

def poolBegin (memory : Memory) (alloc : ℕ) : ℕ := readWord memory (alloc + 40)

/-- `&alloc->freelist[layer]`. -/
def freelistSlot (memory : Memory) (alloc layer : ℕ) : ℕ := freelist memory alloc + 8 * layer

/-! ## `buddy_init` -/

def buddyUpdateParams (memory : Memory) (alloc begin_ end_ : ℕ) : Option Memory := do
  let memory := writeWord memory (alloc + 24) (pagesCount begin_ end_)
  let root ← maxLowerPowerOf2 (blocksCount memory alloc)
  let memory := writeWord memory (alloc + 32) root
  let layers ← log2Upper (blocksCount memory alloc)
  return writeWord memory (alloc + 16) layers

/-- The part of `buddy_init` after the layout is settled. -/
def buddyInitLists (memory : Memory) (alloc begin_ : ℕ) : Memory :=
  let memory := fill memory (freelist memory alloc) 0 (buddyLayers memory alloc * 8)
  let memory := fill memory (bitmap memory alloc) 0xFF
    (buddyBitmapSize (blocksCount memory alloc))
  let memory := freelistPush memory (freelistSlot memory alloc 0) begin_
  let memory := buddyUnset memory (bitmap memory alloc) 0 0
  writeWord memory (alloc + 40) begin_

/-- `NULL` for a pool of fewer than 16 pages, otherwise the allocator. -/
def buddyInit (memory : Memory) (begin_ end_ : ℕ) : Option (ℕ × Memory) :=
  if pagesCount begin_ end_ < 16 then some (0, memory)
  else do
    let alloc := begin_
    let begin_ := begin_ + sizeofBuddyAlloc
    let memory ← buddyUpdateParams memory alloc begin_ end_
    let memory := writeWord memory (alloc + 8) begin_
    let begin_ := begin_ + buddyLayers memory alloc * 8
    let memory := writeWord memory alloc begin_
    let begin_ := begin_ + buddyBitmapSize (blocksCount memory alloc)
    -- the parameters are computed again for what is left of the pool
    let begin_ := alignAddrToPageSizeUp begin_
    let end_ := alignAddrToPageSizeDown end_
    let memory ← buddyUpdateParams memory alloc begin_ end_
    return (alloc, buddyInitLists memory alloc begin_)

/-! ## `buddy_alloc` -/

/-- Walk up from `layer` to the first layer with a free block, or to the root. -/
def searchLayer (memory : Memory) (alloc : ℕ) : ℕ → ℕ
  | 0 => 0
  | layer + 1 =>
      if readWord memory (freelistSlot memory alloc (layer + 1)) = 0 then
        searchLayer memory alloc layer
      else layer + 1

/-- One pass of the split loop: the block keeps its left half and frees the right one. -/
def splitStep (memory : Memory) (alloc layer index : ℕ) : Memory :=
  let memory := buddySet memory (bitmap memory alloc) layer index
  let layer := layer + 1
  let index := index * 2
  let memory := buddyUnset memory (bitmap memory alloc) layer index
  let memory := buddySet memory (bitmap memory alloc) layer (index + 1)
  let freed := toPointer (poolBegin memory alloc) layer (index + 1) (rootBlockSize memory alloc)
  freelistPush memory (freelistSlot memory alloc layer) freed

/-- The split loop, with the number of layers left to go down. -/
def splitLoop (alloc : ℕ) : ℕ → ℕ → ℕ → Memory → Memory
  | 0, _, _, memory => memory
  | steps + 1, layer, index, memory =>
      splitLoop alloc steps (layer + 1) (index * 2) (splitStep memory alloc layer index)

/-- `buddy_alloc` once the target layer is known. -/
def buddyAllocLayer (memory : Memory) (alloc bfLayer : ℕ) : ℕ × Memory :=
  let layer := searchLayer memory alloc bfLayer
  let popped := freelistPop memory (freelistSlot memory alloc layer)
  let ptr := popped.1
  let memory := popped.2
  if ptr = 0 then (0, memory)
  else
    let index := toIndex (poolBegin memory alloc) layer ptr (rootBlockSize memory alloc)
    (ptr, splitLoop alloc (bfLayer - layer) layer index memory)

def buddyAlloc (memory : Memory) (alloc pages : ℕ) : Option (ℕ × Memory) :=
  if alloc = 0 then none
  else (bestFitLayer pages (rootBlockSize memory alloc)).map (buddyAllocLayer memory alloc)

/-! ## `buddy_free` -/

/-- Conversion of a `size_t` to `int`, where it is representable. -/
def toInt (value : ℕ) : Option ℕ := if value < 2 ^ 31 then some value else none

/-- Walk up from a leaf while the bit is set. -/
def findBlock (memory : Memory) (bitmap : ℕ) : ℕ → ℕ → ℕ × ℕ
  | 0, index => (0, index)
  | layer + 1, index =>
      if buddyGet memory bitmap (layer + 1) index then findBlock memory bitmap layer (index / 2)
      else (layer + 1, index)

/-- Merge with the buddy while its bit is clear. -/
def mergeLoop (alloc : ℕ) : ℕ → ℕ → Memory → ℕ × ℕ × Memory
  | 0, index, memory => (0, index, memory)
  | layer + 1, index, memory =>
      if buddyGet memory (bitmap memory alloc) (layer + 1) (index ^^^ 1) then
        (layer + 1, index, memory)
      else
        let memory := buddySet memory (bitmap memory alloc) (layer + 1) index
        let memory := buddySet memory (bitmap memory alloc) (layer + 1) (index ^^^ 1)
        let memory := buddyUnset memory (bitmap memory alloc) layer (index / 2)
        mergeLoop alloc layer (index / 2) memory

/-- `buddy_free` from the leaf layer and the leaf index on. -/
def buddyFreeLeaf (memory : Memory) (alloc layer index : ℕ) : Memory :=
  let found := findBlock memory (bitmap memory alloc) layer index
  let memory := buddyUnset memory (bitmap memory alloc) found.1 found.2
  let merged := mergeLoop alloc found.1 found.2 memory
  let layer := merged.1
  let index := merged.2.1
  let memory := merged.2.2
  let ptr := toPointer (poolBegin memory alloc) layer index (rootBlockSize memory alloc)
  freelistPush memory (freelistSlot memory alloc layer) ptr

def buddyFree (memory : Memory) (alloc ptr : ℕ) : Option Memory :=
  if alloc = 0 then none
  else do
    let layer ← toInt ((buddyLayers memory alloc + wordSize - 1) % wordSize)
    let index ← toInt (toIndex (poolBegin memory alloc) layer ptr (rootBlockSize memory alloc))
    return buddyFreeLeaf memory alloc layer index

end DoomsdayModules.Buddy
