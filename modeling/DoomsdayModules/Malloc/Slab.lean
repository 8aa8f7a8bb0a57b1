import DoomsdayModules.Malloc.Buddy

/-!
# The slab allocator

`slab.c` over byte memory.  A slab is a `slab_alloc_t` at the start of its
first region, and one cache header in each region it got from the buddy
allocator; the slots behind a header are handed out, and free slots are linked
through their first word.

The buddy allocator is a parameter, so that a slab can be run on the real one
or on any other.  A result is `none` where the C program has none: a null
pointer dereferenced, a division by zero, or the loop that skips full caches
running longer than its fuel.
-/

namespace DoomsdayModules.Slab

open DoomsdayModules.ByteMemory DoomsdayModules.Util DoomsdayModules.Freelist

/-- The two calls a slab makes. -/
structure BuddyOps where
  alloc : Memory → ℕ → ℕ → Option (ℕ × Memory)
  free : Memory → ℕ → ℕ → Option Memory

/-- The allocator of `buddy.c`. -/
def realBuddy : BuddyOps where
  alloc := Buddy.buddyAlloc
  free := Buddy.buddyFree

/-! ## `slab_cache_header_t` -/

def sizeofSlabCacheHeader : ℕ := 72

def sizeofSlabAllocatedObjectHeader : ℕ := 8

def unmanagedBegin (memory : Memory) (cache : ℕ) : ℕ := readWord memory (cache + 16)

def prevCache (memory : Memory) (cache : ℕ) : ℕ := readWord memory (cache + 24)

def nextCache (memory : Memory) (cache : ℕ) : ℕ := readWord memory (cache + 32)

def allocatedObjects (memory : Memory) (cache : ℕ) : ℕ := readWord memory (cache + 48)

def maxObjects (memory : Memory) (cache : ℕ) : ℕ := readWord memory (cache + 56)

def rootCache (memory : Memory) (cache : ℕ) : Bool := memory (cache + 64) != 0

/-! ## `slab_alloc_t` -/

def sizeofSlabAlloc : ℕ := 48

def buddyOf (memory : Memory) (alloc : ℕ) : ℕ := readWord memory alloc

def firstCache (memory : Memory) (alloc : ℕ) : ℕ := readWord memory (alloc + 8)

def firstFreeCache (memory : Memory) (alloc : ℕ) : ℕ := readWord memory (alloc + 16)

def lastCache (memory : Memory) (alloc : ℕ) : ℕ := readWord memory (alloc + 24)

def objsize (memory : Memory) (alloc : ℕ) : ℕ := readWord memory (alloc + 32)

def cachesize (memory : Memory) (alloc : ℕ) : ℕ := readWord memory (alloc + 40)

def slabMinCachePages : ℕ := 8

def slabMinCacheObjects : ℕ := 8

def slabCachePages (objsize : ℕ) : ℕ :=
  if objsize * slabMinCacheObjects % wordSize < slabMinCachePages then slabMinCachePages
  else slabMinCacheObjects * 8

/-! ## The list of caches -/

def slabCacheMoveDown (memory : Memory) (alloc cache : ℕ) : Memory :=
  if nextCache memory cache = 0 then memory
  else
    let memory := writeWord memory (nextCache memory cache + 32) cache
    let memory := writeWord memory (nextCache memory cache + 24) (prevCache memory cache)
    let memory := writeWord memory (cache + 24) (nextCache memory cache)
    let memory := writeWord memory (cache + 32) (nextCache memory (nextCache memory cache))
    if prevCache memory cache = 0 then writeWord memory (alloc + 8) (nextCache memory cache)
    else memory

def slabCacheMoveUp (memory : Memory) (alloc cache : ℕ) : Memory :=
  if prevCache memory cache = 0 then memory
  else
    let memory := writeWord memory (prevCache memory cache + 24) cache
    let memory := writeWord memory (prevCache memory cache + 32) (nextCache memory cache)
    let memory := writeWord memory (cache + 32) (prevCache memory cache)
    let memory := writeWord memory (cache + 24) (prevCache memory (prevCache memory cache))
    if nextCache memory cache = 0 then writeWord memory (alloc + 24) (prevCache memory cache)
    else memory

/-- The fields of a fresh cache. -/
def slabCacheFields (memory : Memory) (begin_ end_ objsize : ℕ) : Memory :=
  let size := end_ - begin_ - sizeofSlabCacheHeader
  let memory := writeWord memory begin_ size
  let memory := writeWord memory (begin_ + 8) begin_
  let memory := writeWord memory (begin_ + 16) (begin_ + sizeofSlabCacheHeader)
  let memory := writeWord memory (begin_ + 24) 0
  let memory := writeWord memory (begin_ + 32) 0
  let memory := writeWord memory (begin_ + 40) 0
  let memory := writeWord memory (begin_ + 48) 0
  let memory := writeWord memory (begin_ + 56) (size / objsize)
  writeByte memory (begin_ + 64) 0

/-- Put a fresh cache at the end of the list. -/
def slabCacheAppend (memory : Memory) (alloc cache : ℕ) : Option Memory :=
  if firstCache memory alloc = 0 then
    let memory := writeByte memory (cache + 64) 1
    let memory := writeWord memory (alloc + 8) cache
    some (writeWord memory (alloc + 24) cache)
  else if lastCache memory alloc = 0 then none
  else
    let memory := writeWord memory (lastCache memory alloc + 32) cache
    let memory := writeWord memory (cache + 24) (lastCache memory alloc)
    some (writeWord memory (alloc + 24) cache)

def slabCacheInit (memory : Memory) (alloc begin_ end_ : ℕ) : Option Memory :=
  if objsize memory alloc = 0 then none
  else do
    let memory := slabCacheFields memory begin_ end_ (objsize memory alloc)
    let memory ← slabCacheAppend memory alloc begin_
    return if firstFreeCache memory alloc = 0 then writeWord memory (alloc + 16) begin_
      else memory

/-! ## Objects of one cache -/

/-- The loop that moves `first_free_cache` past full caches. -/
def skipFullCaches (alloc : ℕ) : ℕ → Memory → Option Memory
  | 0, _ => none
  | fuel + 1, memory =>
      let cache := firstFreeCache memory alloc
      if cache ≠ 0 ∧ allocatedObjects memory cache = maxObjects memory cache then
        skipFullCaches alloc fuel (writeWord memory (alloc + 16) (nextCache memory cache))
      else some memory

/-- Count one more object. -/
def countObject (memory : Memory) (cache : ℕ) : Memory :=
  writeWord memory (cache + 48) (allocatedObjects memory cache + 1)

/-- Whether the counted object makes the cache overtake its predecessor. -/
def overtakesPrev (memory : Memory) (cache : ℕ) : Prop :=
  prevCache memory cache ≠ 0 ∧
    allocatedObjects memory (prevCache memory cache) < allocatedObjects memory cache

instance (memory : Memory) (cache : ℕ) : Decidable (overtakesPrev memory cache) :=
  inferInstanceAs (Decidable (_ ∧ _))

/-- Take a slot from the free list, or else the first slot never used. -/
def takeSlot (memory : Memory) (alloc cache : ℕ) : ℕ × Memory :=
  let popped := freelistPop memory (cache + 40)
  if popped.1 = 0 then
    (unmanagedBegin popped.2 cache, writeWord popped.2 (cache + 16)
      (unmanagedBegin popped.2 cache + objsize popped.2 alloc))
  else popped

def slabCacheAlloc (fuel : ℕ) (memory : Memory) (alloc cache : ℕ) : Option (ℕ × Memory) :=
  if allocatedObjects memory cache = maxObjects memory cache then some (0, memory)
  else do
    let memory := countObject memory cache
    let memory := if overtakesPrev memory cache then slabCacheMoveUp memory alloc cache
      else memory
    let memory ← skipFullCaches alloc fuel memory
    let slot := takeSlot memory alloc cache
    return (slot.1 + sizeofSlabAllocatedObjectHeader, writeWord slot.2 slot.1 cache)

/-- Put the slot on the free list and count one object less. -/
def releaseSlot (memory : Memory) (cache ptr : ℕ) : Memory :=
  let memory := freelistPush memory (cache + 40) ptr
  writeWord memory (cache + 48) (allocatedObjects memory cache + wordSize - 1)

/-- Whether the cache falls behind its successor. -/
def fallsBehindNext (memory : Memory) (cache : ℕ) : Prop :=
  nextCache memory cache ≠ 0 ∧
    allocatedObjects memory cache < allocatedObjects memory (nextCache memory cache)

instance (memory : Memory) (cache : ℕ) : Decidable (fallsBehindNext memory cache) :=
  inferInstanceAs (Decidable (_ ∧ _))

def slabCacheFree (memory : Memory) (alloc cache ptr : ℕ) : Memory :=
  let memory := releaseSlot memory cache ptr
  if fallsBehindNext memory cache then slabCacheMoveDown memory alloc cache else memory

/-- `slab_cache_destroy` up to the call of `buddy_free`. -/
def slabCacheUnlink (memory : Memory) (alloc cache : ℕ) : Memory :=
  let memory := if prevCache memory cache = 0 then
      writeWord memory (alloc + 8) (nextCache memory cache)
    else memory
  let memory := if nextCache memory cache = 0 then
      writeWord memory (alloc + 24) (prevCache memory cache)
    else memory
  if prevCache memory cache ≠ 0 ∧ nextCache memory cache ≠ 0 then
    let memory := writeWord memory (prevCache memory cache + 32) (nextCache memory cache)
    writeWord memory (nextCache memory cache + 24) (prevCache memory cache)
  else memory

/-- The address that a destroyed cache gives back. -/
def cacheMem (memory : Memory) (cache : ℕ) : ℕ :=
  if rootCache memory cache then cache - sizeofSlabAlloc else cache

def slabCacheDestroy (buddy : BuddyOps) (memory : Memory) (alloc cache : ℕ) : Option Memory :=
  let memory := slabCacheUnlink memory alloc cache
  buddy.free memory (buddyOf memory alloc) (cacheMem memory cache)

/-! ## The slab -/

/-- `slab_init` once the region `mem` is there. -/
def slabInitAt (memory : Memory) (mem buddyPtr objsize cachesize : ℕ) : Option Memory :=
  let memory := writeWord memory mem buddyPtr
  let memory := writeWord memory (mem + 8) 0
  let memory := writeWord memory (mem + 16) 0
  let memory := writeWord memory (mem + 24) 0
  let memory := writeWord memory (mem + 32) objsize
  let memory := writeWord memory (mem + 40) cachesize
  slabCacheInit memory mem (mem + sizeofSlabAlloc) (mem + cachesize * pageSize)

def slabInit (buddy : BuddyOps) (memory : Memory) (buddyPtr size : ℕ) :
    Option (ℕ × Memory) := do
  let objsize := (size + sizeofSlabAllocatedObjectHeader) % wordSize
  let cachesize := slabCachePages objsize
  let (mem, memory) ← buddy.alloc memory buddyPtr cachesize
  if mem = 0 then some (0, memory)
  else (slabInitAt memory mem buddyPtr objsize cachesize).map fun memory => (mem, memory)

/-- `slab_alloc` with a new region in hand: the region becomes a cache. -/
def growAt (memory : Memory) (alloc cache : ℕ) : Option (ℕ × Memory) :=
  (slabCacheInit memory alloc cache (cache + cachesize memory alloc * pageSize)).map
    fun memory => (firstFreeCache memory alloc, memory)

/-- The part of `slab_alloc` that finds the cache to allocate from: the first
cache known to have room, or a new one, or `NULL` when there is none to be had. -/
def growSlab (buddy : BuddyOps) (memory : Memory) (alloc : ℕ) : Option (ℕ × Memory) :=
  if firstFreeCache memory alloc = 0 then do
    let (cache, memory) ← buddy.alloc memory (buddyOf memory alloc) (cachesize memory alloc)
    if cache = 0 then some (0, memory) else growAt memory alloc cache
  else some (firstFreeCache memory alloc, memory)

def slabAlloc (fuel : ℕ) (buddy : BuddyOps) (memory : Memory) (alloc : ℕ) :
    Option (ℕ × Memory) :=
  if alloc = 0 then none
  else do
    let (cache, memory) ← growSlab buddy memory alloc
    if cache = 0 then some (0, memory) else slabCacheAlloc fuel memory alloc cache

/-- The cache that an object's header names. -/
def objectCache (memory : Memory) (ptr : ℕ) : ℕ :=
  readWord memory (ptr - sizeofSlabAllocatedObjectHeader)

/-- Whether `slab_free` destroys the cache it has just freed an object of. -/
def emptied (memory : Memory) (cache : ℕ) : Prop :=
  allocatedObjects memory cache = 0 ∧ rootCache memory cache = false

instance (memory : Memory) (cache : ℕ) : Decidable (emptied memory cache) :=
  inferInstanceAs (Decidable (_ ∧ _))

def slabFree (buddy : BuddyOps) (memory : Memory) (alloc ptr : ℕ) : Option Memory :=
  let cache := objectCache memory ptr
  if alloc = 0 ∨ cache = 0 then none
  else
    let memory := slabCacheFree memory alloc cache (ptr - sizeofSlabAllocatedObjectHeader)
    if emptied memory cache then do
      let memory ← slabCacheDestroy buddy memory alloc cache
      return if cache = firstFreeCache memory alloc then writeWord memory (alloc + 16) 0
        else memory
    else some memory

/-- The loop of `slab_destroy`, with the cache that each round destroys and the
address that it gives back. -/
def slabDestroyLoop (buddy : BuddyOps) (copy : ℕ) :
    ℕ → Memory → Option (List (ℕ × ℕ) × Memory)
  | 0, _ => none
  | fuel + 1, memory =>
      let cache := firstCache memory copy
      if cache = 0 then some ([], memory)
      else do
        let given := cacheMem (slabCacheUnlink memory copy cache) cache
        let memory ← slabCacheDestroy buddy memory copy cache
        let (rounds, memory) ← slabDestroyLoop buddy copy fuel memory
        return ((cache, given) :: rounds, memory)

/-- `slab_destroy`, with its local `alloc_copy` at the address `copy`. -/
def slabDestroy (fuel : ℕ) (buddy : BuddyOps) (memory : Memory) (alloc copy : ℕ) :
    Option (List (ℕ × ℕ) × Memory) :=
  if alloc = 0 then none
  else slabDestroyLoop buddy copy fuel (copyBytes memory alloc copy sizeofSlabAlloc)

end DoomsdayModules.Slab
