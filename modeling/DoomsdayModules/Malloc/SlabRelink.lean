import DoomsdayModules.Malloc.Slab

/-!
# What the moves of a cache do

`slab_cache_move_up` and `slab_cache_move_down` overwrite a link of the
neighbour before they read it.  The moved cache ends up linked to itself on one
side and to its neighbour on the other, and the caches beyond the neighbour
keep their links.
-/

namespace DoomsdayModules.SlabRelink

open DoomsdayModules.ByteMemory DoomsdayModules.Util DoomsdayModules.Slab

/-- Two cache headers are the same or share no byte. -/
def HeadersApart (cache other : ℕ) : Prop :=
  cache = other ∨ cache + sizeofSlabCacheHeader ≤ other ∨ other + sizeofSlabCacheHeader ≤ cache

/-- The links after a move: the neighbour points at the cache and at what was
on the cache's other side, the cache at its neighbour and at itself. -/
def relinkUp (memory : Memory) (cache prev : ℕ) : Memory :=
  writeWord (writeWord (writeWord (writeWord memory (prev + 24) cache) (prev + 32)
    (nextCache memory cache)) (cache + 32) prev) (cache + 24) cache

def relinkDown (memory : Memory) (cache next : ℕ) : Memory :=
  writeWord (writeWord (writeWord (writeWord memory (next + 32) cache) (next + 24)
    (prevCache memory cache)) (cache + 24) next) (cache + 32) cache

/-- A byte of a link of one of two caches. -/
def LinkOf (cache other query : ℕ) : Prop :=
  (cache + 24 ≤ query ∧ query < cache + 40) ∨ (other + 24 ≤ query ∧ query < other + 40)

variable {memory : Memory} {slab cache prev next : ℕ}

theorem relinkUp_unchangedOutside (memory : Memory) (cache prev : ℕ) :
    UnchangedOutside memory (relinkUp memory cache prev) (LinkOf cache prev) := by
  intro query houtside
  simp only [LinkOf] at houtside
  rw [relinkUp, writeWord_of_outside (by omega), writeWord_of_outside (by omega),
    writeWord_of_outside (by omega), writeWord_of_outside (by omega)]

theorem relinkDown_unchangedOutside (memory : Memory) (cache next : ℕ) :
    UnchangedOutside memory (relinkDown memory cache next) (LinkOf cache next) := by
  intro query houtside
  simp only [LinkOf] at houtside
  rw [relinkDown, writeWord_of_outside (by omega), writeWord_of_outside (by omega),
    writeWord_of_outside (by omega), writeWord_of_outside (by omega)]

/-- The cache's own links after a move up. -/
theorem relinkUp_links (memory : Memory) (hcache : cache < 2 ^ 64) (hprev : prev < 2 ^ 64) :
    prevCache (relinkUp memory cache prev) cache = cache ∧
      nextCache (relinkUp memory cache prev) cache = prev := by
  refine ⟨readWord_writeWord_same hcache, ?_⟩
  exact (readWord_writeWord_of_disjoint (by omega)).trans (readWord_writeWord_same hprev)

/-- The cache's own links after a move down. -/
theorem relinkDown_links (memory : Memory) (hcache : cache < 2 ^ 64) (hnext : next < 2 ^ 64) :
    prevCache (relinkDown memory cache next) cache = next ∧
      nextCache (relinkDown memory cache next) cache = cache := by
  refine ⟨?_, readWord_writeWord_same hcache⟩
  exact (readWord_writeWord_of_disjoint (by omega)).trans (readWord_writeWord_same hnext)

/-- A cache with a predecessor: the predecessor is overwritten before it is read. -/
theorem slabCacheMoveUp_eq (hprev : prevCache memory cache = prev) (hne : prev ≠ 0)
    (hcache : cache < 2 ^ 64) (hapart : HeadersApart cache prev) :
    slabCacheMoveUp memory slab cache = relinkUp memory cache prev := by
  have hprevLt : prev < 2 ^ 64 := hprev ▸ readWord_lt _ _
  simp only [HeadersApart, sizeofSlabCacheHeader] at hapart
  have hfirst : prevCache (writeWord memory (prev + 24) cache) cache = prev := by
    rcases hapart with rfl | hapart
    · exact readWord_writeWord_same hcache
    · exact (readWord_writeWord_of_disjoint (by omega)).trans hprev
  have hnext : nextCache (writeWord memory (prev + 24) cache) cache = nextCache memory cache :=
    readWord_writeWord_of_disjoint (by omega)
  have hsecond : prevCache (writeWord (writeWord memory (prev + 24) cache) (prev + 32)
      (nextCache memory cache)) cache = prev :=
    (readWord_writeWord_of_disjoint (by omega)).trans hfirst
  have hback : prevCache (writeWord (writeWord (writeWord memory (prev + 24) cache) (prev + 32)
      (nextCache memory cache)) (cache + 32) prev) prev = cache := by
    refine (readWord_writeWord_of_disjoint (by omega)).trans ?_
    exact (readWord_writeWord_of_disjoint (by omega)).trans (readWord_writeWord_same hcache)
  have hthird : prevCache (writeWord (writeWord (writeWord memory (prev + 24) cache) (prev + 32)
      (nextCache memory cache)) (cache + 32) prev) cache = prev :=
    (readWord_writeWord_of_disjoint (by omega)).trans hsecond
  have hlinks := (relinkUp_links memory hcache hprevLt).2
  rw [relinkUp] at hlinks ⊢
  simp only [slabCacheMoveUp, hprev, if_neg hne, hfirst, hnext, hsecond, hthird, hback, hlinks]

/-- A cache with a successor: the successor is overwritten before it is read. -/
theorem slabCacheMoveDown_eq (hnext : nextCache memory cache = next) (hne : next ≠ 0)
    (hcache : cache < 2 ^ 64) (hapart : HeadersApart cache next) :
    slabCacheMoveDown memory slab cache = relinkDown memory cache next := by
  have hnextLt : next < 2 ^ 64 := hnext ▸ readWord_lt _ _
  simp only [HeadersApart, sizeofSlabCacheHeader] at hapart
  have hfirst : nextCache (writeWord memory (next + 32) cache) cache = next := by
    rcases hapart with rfl | hapart
    · exact readWord_writeWord_same hcache
    · exact (readWord_writeWord_of_disjoint (by omega)).trans hnext
  have hprev : prevCache (writeWord memory (next + 32) cache) cache = prevCache memory cache :=
    readWord_writeWord_of_disjoint (by omega)
  have hsecond : nextCache (writeWord (writeWord memory (next + 32) cache) (next + 24)
      (prevCache memory cache)) cache = next :=
    (readWord_writeWord_of_disjoint (by omega)).trans hfirst
  have hthird : nextCache (writeWord (writeWord (writeWord memory (next + 32) cache) (next + 24)
      (prevCache memory cache)) (cache + 24) next) cache = next :=
    (readWord_writeWord_of_disjoint (by omega)).trans hsecond
  have hback : nextCache (writeWord (writeWord (writeWord memory (next + 32) cache) (next + 24)
      (prevCache memory cache)) (cache + 24) next) next = cache := by
    refine (readWord_writeWord_of_disjoint (by omega)).trans ?_
    exact (readWord_writeWord_of_disjoint (by omega)).trans (readWord_writeWord_same hcache)
  have hlinks := (relinkDown_links memory hcache hnextLt).1
  rw [relinkDown] at hlinks ⊢
  simp only [slabCacheMoveDown, hnext, if_neg hne, hfirst, hprev, hsecond, hthird, hback, hlinks]

/-! ## Allocating and freeing with a move -/

/-- The memory after the counted cache is moved up, if it has overtaken its predecessor. -/
def settleUp (memory : Memory) (slab cache : ℕ) : Memory :=
  if overtakesPrev memory cache then slabCacheMoveUp memory slab cache else memory

/-- The memory after the cache is moved down, if it has fallen behind its successor. -/
def settleDown (memory : Memory) (slab cache : ℕ) : Memory :=
  if fallsBehindNext memory cache then slabCacheMoveDown memory slab cache else memory

/-- What `slab_cache_alloc` does when the cache is not full. -/
theorem slabCacheAlloc_of_room {fuel : ℕ}
    (hroom : allocatedObjects memory cache ≠ maxObjects memory cache) :
    slabCacheAlloc fuel memory slab cache =
      (skipFullCaches slab fuel (settleUp (countObject memory cache) slab cache)).map
        fun skipped => ((takeSlot skipped slab cache).1 + sizeofSlabAllocatedObjectHeader,
          writeWord (takeSlot skipped slab cache).2 (takeSlot skipped slab cache).1 cache) := by
  rw [slabCacheAlloc, if_neg hroom]
  exact (Option.map_eq_bind ..).symm

theorem slabCacheFree_eq (memory : Memory) (slab cache ptr : ℕ) :
    slabCacheFree memory slab cache ptr =
      settleDown (releaseSlot memory cache ptr) slab cache := rfl

/-! ## The loop over full caches -/

/-- The loop writes `first_free_cache` and nothing else. -/
theorem skipFullCaches_unchangedOutside {fuel : ℕ} {memory' : Memory}
    (hskip : skipFullCaches slab fuel memory = some memory') :
    UnchangedOutside memory memory' fun query => slab + 16 ≤ query ∧ query < slab + 24 := by
  induction fuel generalizing memory with
  | zero => simp [skipFullCaches] at hskip
  | succ fuel ih =>
      simp only [skipFullCaches] at hskip
      split_ifs at hskip
      · exact (writeWord_unchangedOutside _ _ _).trans (ih hskip)
      · obtain rfl := Option.some.inj hskip
        exact unchangedOutside_refl _ _

end DoomsdayModules.SlabRelink
