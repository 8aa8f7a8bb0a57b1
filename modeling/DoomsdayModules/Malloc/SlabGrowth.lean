import DoomsdayModules.Malloc.SlabMoves

/-!
# New caches

`slab_cache_init` turns a region into an empty cache: the first one of a new
slab, which is marked as the root cache, or one more at the end of the list.
-/

namespace DoomsdayModules.SlabGrowth

open DoomsdayModules.ByteMemory DoomsdayModules.Util DoomsdayModules.IntrusiveStack
open DoomsdayModules.DoublyLinked DoomsdayModules.Slab
open DoomsdayModules.SlabInvariant DoomsdayModules.SlabMoves

variable {shape : Shape} {memory memory' : Memory} {cache : Cache} {base : ℕ}

/-- A region with no slot used yet. -/
def emptyCache (base : ℕ) : Cache := ⟨base, [], []⟩

/-! ## The fields of a fresh cache -/

theorem slabCacheFields_unchangedOutside (memory : Memory) (begin_ end_ objsize : ℕ) :
    UnchangedOutside memory (slabCacheFields memory begin_ end_ objsize)
      fun query => begin_ ≤ query ∧ query < begin_ + 65 := by
  intro query houtside
  simp only [slabCacheFields]
  rw [writeByte_of_ne (by omega)]
  iterate 8 rw [writeWord_of_outside (by omega)]

/-- A field of a fresh cache reads back as it was written. -/
theorem slabCacheFields_words (memory : Memory) (objsize : ℕ) {begin_ end_ : ℕ} (hbegin : begin_ + 72 ≤ end_)
    (hend : end_ < wordSize) :
    readWord (slabCacheFields memory begin_ end_ objsize) (begin_ + 16) = begin_ + 72 ∧
      readWord (slabCacheFields memory begin_ end_ objsize) (begin_ + 24) = 0 ∧
      readWord (slabCacheFields memory begin_ end_ objsize) (begin_ + 32) = 0 ∧
      readWord (slabCacheFields memory begin_ end_ objsize) (begin_ + 40) = 0 ∧
      readWord (slabCacheFields memory begin_ end_ objsize) (begin_ + 48) = 0 ∧
      readWord (slabCacheFields memory begin_ end_ objsize) (begin_ + 56) =
        (end_ - begin_ - 72) / objsize := by
  have hunmanaged : begin_ + 72 < 2 ^ 64 := hbegin.trans_lt hend
  have hmax : (end_ - begin_ - 72) / objsize < 2 ^ 64 :=
    lt_of_le_of_lt ((Nat.div_le_self _ _).trans (by omega)) hend
  simp only [slabCacheFields, sizeofSlabCacheHeader]
  refine ⟨?_, ?_, ?_, ?_, ?_, ?_⟩
  · rw [readWord_writeByte_of_disjoint (by omega)]
    iterate 5 rw [readWord_writeWord_of_disjoint (by omega)]
    exact readWord_writeWord_same hunmanaged
  · rw [readWord_writeByte_of_disjoint (by omega)]
    iterate 4 rw [readWord_writeWord_of_disjoint (by omega)]
    exact readWord_writeWord_same (by norm_num)
  · rw [readWord_writeByte_of_disjoint (by omega)]
    iterate 3 rw [readWord_writeWord_of_disjoint (by omega)]
    exact readWord_writeWord_same (by norm_num)
  · rw [readWord_writeByte_of_disjoint (by omega)]
    iterate 2 rw [readWord_writeWord_of_disjoint (by omega)]
    exact readWord_writeWord_same (by norm_num)
  · rw [readWord_writeByte_of_disjoint (by omega), readWord_writeWord_of_disjoint (by omega)]
    exact readWord_writeWord_same (by norm_num)
  · rw [readWord_writeByte_of_disjoint (by omega)]
    exact readWord_writeWord_same hmax

/-- The words and the flag that make a region an empty cache. -/
theorem emptyCache_holds
    (hunmanaged : readWord memory (shape.addr base + 16) = shape.addr base + 72)
    (hfreelist : readWord memory (shape.addr base + 40) = 0)
    (hallocated : readWord memory (shape.addr base + 48) = 0)
    (hmax : readWord memory (shape.addr base + 56) = shape.capacity base)
    (hroot : memory (shape.addr base + 64) = if base = shape.slab then 1 else 0) :
    CacheHolds shape memory (emptyCache base) where
  unmanaged_eq := hunmanaged
  freelist := hfreelist
  max_eq := hmax
  root_eq := by
    simp only [rootCache, emptyCache, hroot]
    split_ifs with hsame <;> simp [hsame]
  slots := List.Perm.refl _
  used_le := Nat.zero_le _
  headers := fun index hindex => absurd hindex (List.not_mem_nil)
  allocated_eq := hallocated

/-! ## One more cache -/

/-- The writes that put a fresh cache behind the last one. -/
def appendWrites (memory : Memory) (slab last base : ℕ) : Memory :=
  writeWord (writeWord (writeWord (writeWord memory (last + 32) base) (base + 24) last)
    (slab + 24) base) (slab + 16) base

/-- A region that shares nothing with the slab. -/
structure Fresh (shape : Shape) (caches : List Cache) (base : ℕ) : Prop where
  pos : 0 < base
  stop_lt : shape.stop base < wordSize
  apart : ∀ cache ∈ caches, shape.RegionsApart cache.base base

namespace Fresh

variable {caches : List Cache}

theorem not_inRegion (hfresh : Fresh shape caches base) (hcache : cache ∈ caches) {query : ℕ}
    (hquery : shape.InRegion cache.base query) : ¬ shape.InRegion base query := by
  have hapart := hfresh.apart cache hcache
  simp only [Shape.RegionsApart, Shape.InRegion] at *
  omega

theorem not_slab (hfresh : Fresh shape caches base) (hcore : Core shape memory caches)
    {query : ℕ} (hquery : shape.SlabByte query) : ¬ shape.InRegion base query := by
  obtain ⟨root, hroot, hbase⟩ := hcore.root_mem
  have hstop := shape.header_le_stop shape.slab
  have haddr := shape.addr_slab
  apply hfresh.not_inRegion hroot
  simp only [hbase, Shape.SlabByte, sizeofSlabAlloc, sizeofSlabCacheHeader] at *
  exact ⟨hquery.1, by omega⟩

theorem ne_slab (hfresh : Fresh shape caches base) (hcore : Core shape memory caches) :
    base ≠ shape.slab := by
  rintro rfl
  have hstop := shape.header_le_stop shape.slab
  have haddr := shape.addr_slab
  simp only [sizeofSlabCacheHeader] at hstop
  have hquery : shape.SlabByte shape.slab := ⟨le_rfl, by simp [sizeofSlabAlloc]⟩
  exact hfresh.not_slab hcore hquery ⟨le_rfl, by omega⟩

end Fresh

theorem exists_last {caches : List Cache} (hcore : Core shape memory caches) :
    ∃ before last, caches = before ++ [last] := by
  obtain ⟨root, hroot, -⟩ := hcore.root_mem
  exact ⟨_, _, (List.dropLast_append_getLast (List.ne_nil_of_mem hroot)).symm⟩

/-- The header of a cache lies in its region. -/
theorem header_inRegion (shape : Shape) {base query : ℕ} (hlower : shape.addr base ≤ query)
    (hupper : query < shape.addr base + 72) : shape.InRegion base query := by
  have haddr := shape.base_le_addr base
  have hstop := shape.header_le_stop base
  simp only [sizeofSlabCacheHeader] at hstop
  exact ⟨by omega, by omega⟩

/-- The words written when a cache is appended share no byte. -/
theorem append_geometry {before : List Cache} {last : Cache}
    (hcore : Core shape memory (before ++ [last]))
    (hfresh : Fresh shape (before ++ [last]) base) :
    (shape.addr last.base + 72 ≤ base ∨ base + 72 ≤ shape.addr last.base) ∧
      (shape.addr last.base + 40 ≤ shape.slab ∨ shape.slab + 48 ≤ shape.addr last.base + 24) ∧
      (base + 72 ≤ shape.slab ∨ shape.slab + 48 ≤ base) ∧ base + 72 ≤ shape.stop base := by
  have hlastMem : last ∈ before ++ [last] := by simp
  have haddr := shape.base_le_addr last.base
  have hheaderLast := shape.header_le_stop last.base
  have hheader := shape.header_le_stop base
  have hapart := hfresh.apart last hlastMem
  rw [shape.addr_of_ne (hfresh.ne_slab hcore)] at hheader
  simp only [sizeofSlabCacheHeader, Shape.RegionsApart] at hheader hheaderLast hapart
  refine ⟨by omega, ?_, ?_, by omega⟩
  · by_contra hoverlap
    have hlink : shape.LinkByte last.base (max (shape.addr last.base + 24) shape.slab) :=
      ⟨by omega, by omega⟩
    exact hcore.link_not_slab hlastMem hlink ⟨by omega, by simp only [sizeofSlabAlloc]; omega⟩
  · by_contra hoverlap
    have hslab : shape.SlabByte (max base shape.slab) :=
      ⟨by omega, by simp only [sizeofSlabAlloc]; omega⟩
    exact hfresh.not_slab hcore hslab ⟨by omega, by omega⟩

/-- `slab_cache_init` on a fresh region is the fields and the links of the new cache. -/
theorem slabCacheInit_eq {before : List Cache} {last : Cache}
    (hcore : Core shape memory (before ++ [last]))
    (hfresh : Fresh shape (before ++ [last]) base)
    (hfirst : firstFreeCache memory shape.slab = 0) :
    slabCacheInit memory shape.slab base (shape.stop base) =
      some (appendWrites (slabCacheFields memory base (shape.stop base) shape.slotBytes)
        shape.slab (shape.addr last.base) base) := by
  obtain ⟨hlastBase, hlastSlab, hbaseSlab, hregion⟩ := append_geometry hcore hfresh
  have hfields := slabCacheFields_unchangedOutside memory base (shape.stop base) shape.slotBytes
  have hslabWord : ∀ offset, offset + 8 ≤ 48 →
      readWord (slabCacheFields memory base (shape.stop base) shape.slotBytes)
        (shape.slab + offset) = readWord memory (shape.slab + offset) := fun offset hoffset =>
    readWord_congr (hfields.agreeOn fun query hlower hupper => by omega)
  have hsizePos : shape.slotBytes ≠ 0 := by
    have := shape.slotBytes_bounds.1
    omega
  have hfirstPos : shape.addr shape.slab ≠ 0 := by
    rw [shape.addr_slab]
    omega
  have hlastPos : shape.addr last.base ≠ 0 := (hcore.addr_pos (by simp)).ne'
  have hfirstCache : firstCache (slabCacheFields memory base (shape.stop base) shape.slotBytes)
      shape.slab = shape.addr shape.slab := (hslabWord 8 (by omega)).trans hcore.first_eq
  have hlastCache : lastCache (slabCacheFields memory base (shape.stop base) shape.slotBytes)
      shape.slab = shape.addr last.base := (hslabWord 24 (by omega)).trans hcore.last_eq_addr
  have hfirstFree : firstFreeCache (slabCacheFields memory base (shape.stop base)
      shape.slotBytes) shape.slab = 0 := (hslabWord 16 (by omega)).trans hfirst
  rw [slabCacheInit, hcore.objsize_eq, if_neg hsizePos]
  generalize slabCacheFields memory base (shape.stop base) shape.slotBytes = fields at *
  have hlastCache' : lastCache (writeWord fields (shape.addr last.base + 32) base)
      shape.slab = shape.addr last.base :=
    (readWord_writeWord_of_disjoint (by omega)).trans hlastCache
  have happend : slabCacheAppend fields shape.slab base =
      some (writeWord (writeWord (writeWord fields (shape.addr last.base + 32) base)
        (base + 24) (shape.addr last.base)) (shape.slab + 24) base) := by
    simp only [slabCacheAppend, hfirstCache, if_neg hfirstPos, hlastCache, if_neg hlastPos,
      hlastCache']
  have hfirstFree' : firstFreeCache (writeWord (writeWord (writeWord fields
      (shape.addr last.base + 32) base) (base + 24) (shape.addr last.base)) (shape.slab + 24)
      base) shape.slab = 0 := by
    refine (readWord_writeWord_of_disjoint (by omega)).trans ?_
    refine (readWord_writeWord_of_disjoint (by omega)).trans ?_
    exact (readWord_writeWord_of_disjoint (by omega)).trans hfirstFree
  simp only [happend, Option.bind_eq_bind, Option.bind_some, Option.pure_def, if_pos hfirstFree',
    appendWrites]

/-- What the writes change, and what they leave there. -/
theorem appendWrites_words (memory : Memory) {slab last : ℕ}
    (hlastBase : last + 72 ≤ base ∨ base + 72 ≤ last)
    (hlastSlab : last + 40 ≤ slab ∨ slab + 48 ≤ last + 24)
    (hbaseSlab : base + 72 ≤ slab ∨ slab + 48 ≤ base) (hlast : last < wordSize)
    (hbase : base < wordSize) :
    UnchangedOutside memory (appendWrites memory slab last base) (fun query =>
        (last + 32 ≤ query ∧ query < last + 40) ∨ (base + 24 ≤ query ∧ query < base + 32) ∨
          (slab + 16 ≤ query ∧ query < slab + 32)) ∧
      nextCache (appendWrites memory slab last base) last = base ∧
      prevCache (appendWrites memory slab last base) base = last ∧
      lastCache (appendWrites memory slab last base) slab = base ∧
      firstFreeCache (appendWrites memory slab last base) slab = base := by
  refine ⟨?_, ?_, ?_, ?_, ?_⟩
  · intro query houtside
    rw [appendWrites, writeWord_of_outside (by omega), writeWord_of_outside (by omega),
      writeWord_of_outside (by omega), writeWord_of_outside (by omega)]
  · refine (readWord_writeWord_of_disjoint (by omega)).trans ?_
    refine (readWord_writeWord_of_disjoint (by omega)).trans ?_
    exact (readWord_writeWord_of_disjoint (by omega)).trans (readWord_writeWord_same hbase)
  · refine (readWord_writeWord_of_disjoint (by omega)).trans ?_
    exact (readWord_writeWord_of_disjoint (by omega)).trans (readWord_writeWord_same hlast)
  · exact (readWord_writeWord_of_disjoint (by omega)).trans (readWord_writeWord_same hbase)
  · exact readWord_writeWord_same hbase

/-- What an append behind the last cache changed, and what it left there. -/
structure Appended (shape : Shape) (memory grown : Memory) (last : Cache) (base : ℕ) : Prop where
  change : UnchangedOutside memory grown fun query =>
    (shape.addr last.base + 32 ≤ query ∧ query < shape.addr last.base + 40) ∨
      (base ≤ query ∧ query < base + 65) ∨ (shape.slab + 16 ≤ query ∧ query < shape.slab + 32)
  next_last : nextCache grown (shape.addr last.base) = base
  prev_base : prevCache grown base = shape.addr last.base
  last_eq : lastCache grown shape.slab = base
  first_free_eq : firstFreeCache grown shape.slab = base
  next_base : nextCache grown base = 0
  empty : CacheHolds shape grown (emptyCache base)

theorem appended_of_writes {before : List Cache} {last : Cache}
    (hcore : Core shape memory (before ++ [last]))
    (hfresh : Fresh shape (before ++ [last]) base) :
    Appended shape memory
      (appendWrites (slabCacheFields memory base (shape.stop base) shape.slotBytes)
        shape.slab (shape.addr last.base) base) last base := by
  have hlastMem : last ∈ before ++ [last] := by simp
  have haddrBase := shape.addr_of_ne (hfresh.ne_slab hcore)
  obtain ⟨hlastBase, hlastSlab, hbaseSlab, hregion⟩ := append_geometry hcore hfresh
  have hbaseLt : base < wordSize := lt_of_le_of_lt (by omega) hfresh.stop_lt
  have hfields := slabCacheFields_unchangedOutside memory base (shape.stop base) shape.slotBytes
  obtain ⟨hunmanaged, -, hnextBase, hfreelist, hallocated, hmax⟩ :=
    slabCacheFields_words memory shape.slotBytes hregion hfresh.stop_lt
  have hflag : slabCacheFields memory base (shape.stop base) shape.slotBytes (base + 64) = 0 :=
    writeByte_same _ _ _
  generalize slabCacheFields memory base (shape.stop base) shape.slotBytes = fields at *
  obtain ⟨hwrites, hnext, hprev, hlast, hfirst⟩ := appendWrites_words fields
    hlastBase hlastSlab hbaseSlab (addr_lt (hcore.stop_lt hlastMem)) hbaseLt
  generalize appendWrites fields shape.slab (shape.addr last.base) base = grown at *
  have hbaseWord : ∀ offset, offset = 16 ∨ 32 ≤ offset ∧ offset + 8 ≤ 64 →
      readWord grown (base + offset) = readWord fields (base + offset) :=
    fun offset hoffset => readWord_congr (hwrites.agreeOn fun query hlower hupper => by omega)
  have hempty : CacheHolds shape grown (emptyCache base) := by
    apply emptyCache_holds
    · rw [haddrBase, hbaseWord 16 (by omega), hunmanaged]
    · rw [haddrBase, hbaseWord 40 (by omega), hfreelist]
    · rw [haddrBase, hbaseWord 48 (by omega), hallocated]
    · rw [haddrBase, hbaseWord 56 (by omega), hmax, Shape.capacity, haddrBase]
      rfl
    · rw [haddrBase, if_neg (hfresh.ne_slab hcore), hwrites (base + 64) (by omega), hflag]
  exact {
    change := (hfields.mono fun query hquery => .inr (.inl hquery)).trans
      (hwrites.mono fun query hquery => by omega)
    next_last := hnext
    prev_base := hprev
    last_eq := hlast
    first_free_eq := hfirst
    next_base := (hbaseWord 32 (by omega)).trans hnextBase
    empty := hempty }

namespace Appended

variable {grown : Memory} {before : List Cache} {last : Cache}

/-- The regions of the old caches keep all but the link behind the last one. -/
theorem spared (happended : Appended shape memory grown last base)
    (hcore : Core shape memory (before ++ [last]))
    (hfresh : Fresh shape (before ++ [last]) base) {other : Cache}
    (hmem : other ∈ before ++ [last]) {query : ℕ} (hinside : shape.InRegion other.base query)
    (hslab : ¬ shape.SlabByte query)
    (hnext : ¬ (shape.addr last.base + 32 ≤ query ∧ query < shape.addr last.base + 40)) :
    grown query = memory query := by
  obtain ⟨-, -, -, hregion⟩ := append_geometry hcore hfresh
  have hnotFresh := hfresh.not_inRegion hmem hinside
  simp only [Shape.InRegion, Shape.SlabByte, sizeofSlabAlloc] at hnotFresh hslab
  exact happended.change query (by omega)

theorem link_inRegion {other query : ℕ} (hlink : shape.LinkByte other query) :
    shape.InRegion other query :=
  header_inRegion shape (by have := hlink.1; omega) (by have := hlink.2; omega)

/-- The links of the other caches stay. -/
theorem links_eq (happended : Appended shape memory grown last base)
    (hcore : Core shape memory (before ++ [last]))
    (hfresh : Fresh shape (before ++ [last]) base) {other : Cache}
    (hmem : other ∈ before ++ [last]) (hne : shape.addr other.base ≠ shape.addr last.base) :
    nextCache grown (shape.addr other.base) = nextCache memory (shape.addr other.base) ∧
      prevCache grown (shape.addr other.base) = prevCache memory (shape.addr other.base) := by
  have happart := hcore.headers_apart hmem (show last ∈ before ++ [last] by simp) hne
  refine Core.link_words fun query hlink => ?_
  refine happended.spared hcore hfresh hmem (link_inRegion hlink)
    (hcore.link_not_slab hmem hlink) ?_
  simp only [Shape.LinkByte] at hlink
  omega

/-- The last cache keeps its link to the cache before it, too. -/
theorem prev_eq (happended : Appended shape memory grown last base)
    (hcore : Core shape memory (before ++ [last]))
    (hfresh : Fresh shape (before ++ [last]) base) {other : Cache}
    (hmem : other ∈ before ++ [last]) :
    prevCache grown (shape.addr other.base) = prevCache memory (shape.addr other.base) := by
  by_cases hsame : shape.addr other.base = shape.addr last.base
  · have hlastMem : last ∈ before ++ [last] := by simp
    rw [hsame]
    apply readWord_congr
    intro query hlower hupper
    have hlink : shape.LinkByte last.base query := ⟨hlower, by omega⟩
    exact happended.spared hcore hfresh hlastMem (link_inRegion hlink)
      (hcore.link_not_slab hlastMem hlink) (by omega)
  · exact (happended.links_eq hcore hfresh hmem hsame).2

/-- The old caches keep their contents, and the new one is empty. -/
theorem contents (happended : Appended shape memory grown last base)
    (hcore : Core shape memory (before ++ [last]))
    (hfresh : Fresh shape (before ++ [last]) base) :
    ∀ other ∈ before ++ [last, emptyCache base], CacheHolds shape grown other := by
  have hlastMem : last ∈ before ++ [last] := by simp
  intro other hmem
  rw [List.append_cons] at hmem
  rcases List.mem_append.mp hmem with hold | hnew
  · apply (hcore.contents other hold).frame
    intro query hcontent _
    have haddr := shape.base_le_addr other.base
    refine happended.spared hcore hfresh hold ⟨by have := hcontent.1; omega, hcontent.2.1⟩
      (hcore.content_not_slab hold hcontent) fun hlink => ?_
    exact hcore.content_not_link hold hlastMem hcontent ⟨by omega, hlink.2⟩
  · exact List.mem_singleton.mp hnew ▸ happended.empty

/-- The list goes on to the new cache. -/
theorem linked (happended : Appended shape memory grown last base)
    (hcore : Core shape memory (before ++ [last]))
    (hfresh : Fresh shape (before ++ [last]) base) :
    Links (nextCache grown) (prevCache grown)
      (addrs shape (before ++ [last, emptyCache base])) := by
  have haddrBase := shape.addr_of_ne (hfresh.ne_slab hcore)
  have hold := hcore.linked
  have hnodup := hcore.addrs_nodup
  have hmember : ∀ addr ∈ addrs shape (before ++ [last]),
      ∃ other ∈ before ++ [last], shape.addr other.base = addr := fun _ => mem_addrs.mp
  simp only [addrs, bases, emptyCache, List.map_append, List.map_cons, List.map_nil,
    haddrBase] at hold hnodup hmember ⊢
  refine Links.append (hold.congr ?_ ?_) happended.next_last happended.prev_base
  · intro addr haddr
    rw [List.dropLast_concat] at haddr
    obtain ⟨other, hmem, rfl⟩ := hmember addr (List.mem_append_left _ haddr)
    refine (happended.links_eq hcore hfresh hmem ?_).1
    exact (List.nodup_append.mp hnodup).2.2 _ haddr _ (by simp)
  · intro addr haddr
    obtain ⟨other, hmem, rfl⟩ := hmember addr (List.mem_of_mem_tail haddr)
    exact happended.prev_eq hcore hfresh hmem

theorem core (happended : Appended shape memory grown last base)
    (hcore : Core shape memory (before ++ [last]))
    (hfresh : Fresh shape (before ++ [last]) base) :
    Core shape grown (before ++ [last, emptyCache base]) := by
  have haddrBase := shape.addr_of_ne (hfresh.ne_slab hcore)
  obtain ⟨-, hlastSlab, hbaseSlab, -⟩ := append_geometry hcore hfresh
  have hslabWord : ∀ offset, offset + 8 ≤ 16 ∨ 32 ≤ offset ∧ offset + 8 ≤ 48 →
      readWord grown (shape.slab + offset) = readWord memory (shape.slab + offset) :=
    fun offset hoffset =>
      readWord_congr (happended.change.agreeOn fun query hlower hupper => by omega)
  obtain ⟨root, hroot, hrootBase⟩ := hcore.root_mem
  exact {
    buddy_eq := (hslabWord 0 (by omega)).trans hcore.buddy_eq
    objsize_eq := (hslabWord 32 (by omega)).trans hcore.objsize_eq
    cachesize_eq := (hslabWord 40 (by omega)).trans hcore.cachesize_eq
    head_eq := head_of_append hcore.head_eq
    first_eq := (hslabWord 8 (by omega)).trans hcore.first_eq
    last_eq := by simp [addrs, bases, emptyCache, haddrBase, happended.last_eq]
    linked := happended.linked hcore hfresh
    head_prev := by
      rw [← hrootBase, happended.prev_eq hcore hfresh hroot, hrootBase]
      exact hcore.head_prev
    contents := happended.contents hcore hfresh
    placed := by
      intro region hregion
      rw [List.append_cons, bases, List.map_append] at hregion
      rcases List.mem_append.mp hregion with hold | hnew
      · exact hcore.placed region hold
      · obtain rfl : region = base := by simpa [emptyCache] using hnew
        exact ⟨hfresh.pos, hfresh.stop_lt⟩
    apart := by
      rw [List.append_cons, bases, List.map_append, List.pairwise_append]
      refine ⟨hcore.apart, List.pairwise_singleton _ _, ?_⟩
      intro region hregion other hother
      obtain ⟨cache, hcache, rfl⟩ := List.mem_map.mp hregion
      obtain rfl : other = base := by simpa [emptyCache] using hother
      exact hfresh.apart cache hcache }

end Appended

/-- The slab after one more cache. -/
theorem append_ready {before : List Cache} {last : Cache}
    (hcore : Core shape memory (before ++ [last]))
    (hfresh : Fresh shape (before ++ [last]) base) :
    Ready shape (appendWrites (slabCacheFields memory base (shape.stop base) shape.slotBytes)
        shape.slab (shape.addr last.base) base) (before ++ [last]) (emptyCache base) ∧
      UnchangedOutside memory
        (appendWrites (slabCacheFields memory base (shape.stop base) shape.slotBytes)
          shape.slab (shape.addr last.base) base)
        (fun query => OwnByte shape (before ++ [last]) query ∨ shape.InRegion base query) := by
  have hlastMem : last ∈ before ++ [last] := by simp
  have haddrBase := shape.addr_of_ne (hfresh.ne_slab hcore)
  obtain ⟨-, -, -, hregion⟩ := append_geometry hcore hfresh
  have happended := appended_of_writes hcore hfresh
  generalize appendWrites (slabCacheFields memory base (shape.stop base) shape.slotBytes)
    shape.slab (shape.addr last.base) base = grown at happended ⊢
  have hcore' := happended.core hcore hfresh
  refine ⟨⟨by rwa [List.append_cons] at hcore', ?_, ?_⟩, ?_⟩
  · exact happended.first_free_eq.trans haddrBase.symm
  · rw [emptyCache, haddrBase]
    exact happended.next_base
  · apply happended.change.mono
    rintro query (hlink | hfield | hends)
    · exact .inl (Core.link_own hlastMem ⟨by omega, hlink.2⟩)
    · exact .inr ⟨hfield.1, by omega⟩
    · exact .inl (hcore.slab_own ⟨by omega, by simp only [sizeofSlabAlloc]; omega⟩)

/-! ## The first cache -/

/-- The `slab_alloc_t` of a slab without caches. -/
def slabFields (shape : Shape) (memory : Memory) : Memory :=
  writeWord (writeWord (writeWord (writeWord (writeWord (writeWord memory shape.slab shape.buddy)
    (shape.slab + 8) 0) (shape.slab + 16) 0) (shape.slab + 24) 0)
    (shape.slab + 32) shape.slotBytes) (shape.slab + 40) shape.pages

theorem slabFields_words (shape : Shape) (memory : Memory) :
    buddyOf (slabFields shape memory) shape.slab = shape.buddy ∧
      firstCache (slabFields shape memory) shape.slab = 0 ∧
      firstFreeCache (slabFields shape memory) shape.slab = 0 ∧
      objsize (slabFields shape memory) shape.slab = shape.slotBytes ∧
      cachesize (slabFields shape memory) shape.slab = shape.pages := by
  have hpages : shape.pages < 2 ^ 64 := shape.pages_bounds.2.trans_lt (by norm_num)
  refine ⟨?_, ?_, ?_, ?_, ?_⟩
  · iterate 5 refine (readWord_writeWord_of_disjoint (by omega)).trans ?_
    exact readWord_writeWord_same shape.buddy_lt
  · iterate 4 refine (readWord_writeWord_of_disjoint (by omega)).trans ?_
    exact readWord_writeWord_same (by norm_num)
  · iterate 3 refine (readWord_writeWord_of_disjoint (by omega)).trans ?_
    exact readWord_writeWord_same (by norm_num)
  · refine (readWord_writeWord_of_disjoint (by omega)).trans ?_
    exact readWord_writeWord_same shape.slotBytes_bounds.2
  · exact readWord_writeWord_same hpages

theorem slabFields_unchangedOutside (shape : Shape) (memory : Memory) :
    UnchangedOutside memory (slabFields shape memory)
      fun query => shape.slab ≤ query ∧ query < shape.slab + 48 := by
  intro query houtside
  rw [slabFields]
  iterate 6 rw [writeWord_of_outside (by omega)]

/-- The writes that make a fresh cache the only one. -/
def rootWrites (memory : Memory) (slab cache : ℕ) : Memory :=
  writeWord (writeWord (writeWord (writeByte memory (cache + 64) 1) (slab + 8) cache)
    (slab + 24) cache) (slab + 16) cache

theorem rootWrites_words (memory : Memory) {slab : ℕ} (hslab : slab + 48 < wordSize) :
    UnchangedOutside memory (rootWrites memory slab (slab + 48)) (fun query =>
        (slab + 8 ≤ query ∧ query < slab + 32) ∨ query = slab + 112) ∧
      firstCache (rootWrites memory slab (slab + 48)) slab = slab + 48 ∧
      lastCache (rootWrites memory slab (slab + 48)) slab = slab + 48 ∧
      firstFreeCache (rootWrites memory slab (slab + 48)) slab = slab + 48 ∧
      rootWrites memory slab (slab + 48) (slab + 112) = 1 := by
  refine ⟨?_, ?_, ?_, ?_, ?_⟩
  · intro query houtside
    rw [rootWrites, writeWord_of_outside (by omega), writeWord_of_outside (by omega),
      writeWord_of_outside (by omega), writeByte_of_ne (by omega)]
  · iterate 2 refine (readWord_writeWord_of_disjoint (by omega)).trans ?_
    exact readWord_writeWord_same hslab
  · exact (readWord_writeWord_of_disjoint (by omega)).trans (readWord_writeWord_same hslab)
  · exact readWord_writeWord_same hslab
  · rw [rootWrites, writeWord_of_outside (by omega), writeWord_of_outside (by omega),
      writeWord_of_outside (by omega)]
    exact writeByte_same _ _ _

/-- `slab_cache_init` behind the header of a slab without caches. -/
theorem slabCacheInit_root {slab end_ : ℕ} (hfirst : firstCache memory slab = 0)
    (hfirstFree : firstFreeCache memory slab = 0) (hobjsize : objsize memory slab ≠ 0) :
    slabCacheInit memory slab (slab + 48) end_ =
      some (rootWrites (slabCacheFields memory (slab + 48) end_ (objsize memory slab)) slab
        (slab + 48)) := by
  have hfields := slabCacheFields_unchangedOutside memory (slab + 48) end_ (objsize memory slab)
  have hfirst' : firstCache (slabCacheFields memory (slab + 48) end_ (objsize memory slab))
      slab = 0 :=
    (readWord_congr (hfields.agreeOn fun query hlower hupper => by omega)).trans hfirst
  have hfirstFree' : firstFreeCache (slabCacheFields memory (slab + 48) end_
      (objsize memory slab)) slab = 0 :=
    (readWord_congr (hfields.agreeOn fun query hlower hupper => by omega)).trans hfirstFree
  rw [slabCacheInit, if_neg hobjsize]
  generalize slabCacheFields memory (slab + 48) end_ (objsize memory slab) = fields at *
  have hfirstFree'' : firstFreeCache (writeWord (writeWord (writeByte fields
      (slab + 48 + 64) 1) (slab + 8) (slab + 48)) (slab + 24) (slab + 48)) slab = 0 := by
    iterate 2 refine (readWord_writeWord_of_disjoint (by omega)).trans ?_
    exact (readWord_writeByte_of_disjoint (by omega)).trans hfirstFree'
  simp only [slabCacheAppend, if_pos hfirst', Option.bind_eq_bind, Option.bind_some,
    Option.pure_def, if_pos hfirstFree'', rootWrites]

theorem slabInitAt_eq (shape : Shape) (memory : Memory) :
    slabInitAt memory shape.slab shape.buddy shape.slotBytes shape.pages =
      some (rootWrites (slabCacheFields (slabFields shape memory) (shape.slab + 48)
        (shape.stop shape.slab) shape.slotBytes) shape.slab (shape.slab + 48)) := by
  obtain ⟨-, hfirstCache, hfirstFree, hobjsize, -⟩ := slabFields_words shape memory
  have hsizePos : objsize (slabFields shape memory) shape.slab ≠ 0 := by
    have := shape.slotBytes_bounds.1
    omega
  have hinit := @slabCacheInit_root _ _ (shape.stop shape.slab) hfirstCache hfirstFree hsizePos
  rw [hobjsize] at hinit
  exact hinit

/-- A new slab has one empty cache. -/
theorem slabInitAt_ready (memory : Memory) (hstop : shape.stop shape.slab < wordSize) :
    ∃ memory', slabInitAt memory shape.slab shape.buddy shape.slotBytes shape.pages =
        some memory' ∧ Ready shape memory' [] (emptyCache shape.slab) ∧
      UnchangedOutside memory memory' (shape.InRegion shape.slab) := by
  have hheader := shape.header_le_stop shape.slab
  have haddr := shape.addr_slab
  rw [haddr] at hheader
  simp only [sizeofSlabCacheHeader] at hheader
  have hslabLt : shape.slab + 48 < wordSize := lt_of_le_of_lt (by omega) hstop
  refine ⟨_, slabInitAt_eq shape memory, ?_⟩
  obtain ⟨hbuddy, -, -, hobjsize, hcachesize⟩ := slabFields_words shape memory
  have hslabFields := slabFields_unchangedOutside shape memory
  generalize slabFields shape memory = slabbed at *
  obtain ⟨hunmanaged, hprev, hnext, hfreelist, hallocated, hmax⟩ := slabCacheFields_words slabbed
    shape.slotBytes (show shape.slab + 48 + 72 ≤ shape.stop shape.slab by omega) hstop
  have hfields := slabCacheFields_unchangedOutside slabbed (shape.slab + 48)
    (shape.stop shape.slab) shape.slotBytes
  generalize slabCacheFields slabbed (shape.slab + 48) (shape.stop shape.slab)
    shape.slotBytes = fields at *
  obtain ⟨hwrites, hfirst, hlast, hfirstFree, hflag⟩ := rootWrites_words fields hslabLt
  generalize rootWrites fields shape.slab (shape.slab + 48) = final at *
  have hslabWord : ∀ offset, offset = 0 ∨ 32 ≤ offset ∧ offset + 8 ≤ 48 →
      readWord final (shape.slab + offset) = readWord slabbed (shape.slab + offset) :=
    fun offset hoffset =>
      (readWord_congr (hwrites.agreeOn fun query hlower hupper => by omega)).trans
        (readWord_congr (hfields.agreeOn fun query hlower hupper => by omega))
  have hcacheWord : ∀ offset, offset + 8 ≤ 64 →
      readWord final (shape.slab + 48 + offset) = readWord fields (shape.slab + 48 + offset) :=
    fun offset hoffset => readWord_congr (hwrites.agreeOn fun query hlower hupper => by omega)
  have hempty : CacheHolds shape final (emptyCache shape.slab) := by
    apply emptyCache_holds
    · rw [haddr, hcacheWord 16 (by omega), hunmanaged]
    · rw [haddr, hcacheWord 40 (by omega), hfreelist]
    · rw [haddr, hcacheWord 48 (by omega), hallocated]
    · rw [haddr, hcacheWord 56 (by omega), hmax, Shape.capacity, haddr]
      rfl
    · rw [haddr, if_pos rfl]
      exact hflag
  have hcore : Core shape final [emptyCache shape.slab] :=
    { buddy_eq := (hslabWord 0 (by omega)).trans hbuddy
      objsize_eq := (hslabWord 32 (by omega)).trans hobjsize
      cachesize_eq := (hslabWord 40 (by omega)).trans hcachesize
      head_eq := rfl
      first_eq := hfirst.trans haddr.symm
      last_eq := by simp [addrs, bases, emptyCache, haddr, hlast]
      linked := List.IsChain.singleton _
      head_prev := by
        rw [haddr]
        exact (hcacheWord 24 (by omega)).trans hprev
      contents := fun cache hcache => List.mem_singleton.mp hcache ▸ hempty
      placed := by
        intro base hbase
        obtain rfl : base = shape.slab := by simpa [bases, emptyCache] using hbase
        exact ⟨shape.slab_pos, hstop⟩
      apart := List.pairwise_singleton _ _ }
  refine ⟨⟨hcore, hfirstFree.trans haddr.symm, ?_⟩, ?_⟩
  · rw [emptyCache, haddr]
    exact (hcacheWord 32 (by omega)).trans hnext
  · refine ((hslabFields.mono ?_).trans (hfields.mono ?_)).trans (hwrites.mono ?_)
    · rintro query ⟨hlower, hupper⟩
      exact ⟨hlower, by omega⟩
    · rintro query ⟨hlower, hupper⟩
      exact ⟨by omega, by omega⟩
    · rintro query hquery
      exact ⟨by omega, by omega⟩

end DoomsdayModules.SlabGrowth
