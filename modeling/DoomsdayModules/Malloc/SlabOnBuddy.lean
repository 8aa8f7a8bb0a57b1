import DoomsdayModules.Malloc.BuddyRuns
import DoomsdayModules.Malloc.SlabOps

/-!
# A slab on the real buddy allocator

The regions of a slab are live blocks of the buddy allocator.  As long as the
buddy allocator's state is intact its replies are sound for the slab, and the
slab, which writes inside its own regions only, leaves that state intact.  The
other live blocks, such as the regions of other slabs, are not touched by either.
-/

namespace DoomsdayModules.SlabOnBuddy

open DoomsdayModules.ByteMemory DoomsdayModules.Util DoomsdayModules.DyadicBlocks
open DoomsdayModules.DoublyLinked
open DoomsdayModules.BuddyUtil DoomsdayModules.Buddy DoomsdayModules.BuddyInvariant
open DoomsdayModules.BuddyMoves DoomsdayModules.BuddyRuns DoomsdayModules.Slab
open DoomsdayModules.SlabInvariant
open DoomsdayModules.SlabMoves DoomsdayModules.SlabGrowth DoomsdayModules.SlabOps

variable {layout : Layout} {shape : Shape} {memory memory' : Memory}
  {free live regions others : List Block} {caches : List Cache}

/-! ## The two calls of a slab -/

/-- The bytes of live blocks are the same. -/
def Spares (layout : Layout) (live : List Block) (memory memory' : Memory) : Prop :=
  ∀ block ∈ live, ∀ query, layout.InBlock block query → memory' query = memory query

theorem Spares.mono {few : List Block} (hspares : Spares layout live memory memory')
    (hsubset : few ⊆ live) : Spares layout few memory memory' :=
  fun block hblock => hspares block (hsubset hblock)

theorem Spares.trans {memory'' : Memory} (hfirst : Spares layout live memory memory')
    (hsecond : Spares layout live memory' memory'') : Spares layout live memory memory'' :=
  fun block hblock query hquery =>
    (hsecond block hblock query hquery).trans (hfirst block hblock query hquery)

theorem spares_of_touches (hrep : Represents layout memory free live) {block : Block}
    (hblock : block ∈ free) (hchange : UnchangedOutside memory memory' (Touches layout block)) :
    Spares layout live memory memory' := by
  intro other hother query hquery
  obtain ⟨hmeta, hfree⟩ := hrep.live_byte hother hquery
  apply hchange
  rintro (hmeta' | hinside)
  · exact hmeta hmeta'
  · exact hfree block hblock hinside

/-- `buddy_alloc` hands out a free block, or nothing. -/
theorem buddyAlloc_spec (hrep : Represents layout memory free live) {pages : ℕ}
    (hpages : 1 ≤ pages) :
    buddyAlloc memory layout.alloc pages = some (0, memory) ∨
    ∃ block free' replied, buddyAlloc memory layout.alloc pages =
        some (layout.address block, replied) ∧
      bestFitLayer pages (2 ^ layout.depth) = some block.layer ∧
      Represents layout replied free' (block :: live) ∧ Spares layout live memory replied := by
  obtain ⟨target, htarget, hfit⟩ := bestFitLayer_eq_some layout hpages
  have halloc := buddyAlloc_eq hrep.toHeader hfit
  rcases buddyAllocLayer_represents hrep htarget with ⟨hnone, -⟩ |
    ⟨top, free', htop, hle, -, hptr, hrep', hchange⟩
  · exact .inl (halloc.trans (congrArg some hnone))
  · refine .inr ⟨top.leftmost target, free', _, ?_, hfit, hrep', spares_of_touches hrep htop hchange⟩
    rw [halloc, ← hptr]

/-- A block that `buddy_free` gives back to its own list: an even index, and a
first page whose number fits an `int`. -/
def Returns (layout : Layout) (block : Block) : Prop :=
  block.index % 2 = 0 ∧ block.start layout.depth < 2 ^ 31

/-- The same, as `buddy_free` sees it: from the address and the pages asked for. -/
def ReturnsBlock (memory : Memory) (alloc pages ptr : ℕ) : Prop :=
  toIndex (poolBegin memory alloc) (fitLayer memory alloc pages) ptr
      (rootBlockSize memory alloc) % 2 = 0 ∧
    toIndex (poolBegin memory alloc) (buddyLayers memory alloc - 1) ptr
      (rootBlockSize memory alloc) < 2 ^ 31

instance (memory : Memory) (alloc pages ptr : ℕ) : Decidable (ReturnsBlock memory alloc pages ptr) :=
  inferInstanceAs (Decidable (_ ∧ _))

theorem returnsBlock_iff {block : Block} {pages : ℕ} (hheader : Header layout memory)
    (hvalid : block.Valid layout.depth)
    (hfit : bestFitLayer pages (2 ^ layout.depth) = some block.layer) :
    ReturnsBlock memory layout.alloc pages (layout.address block) ↔ Returns layout block := by
  have hstart := (block.start_lt_stop layout.depth).trans_le (Block.stop_le hvalid)
  have hlayer : fitLayer memory layout.alloc pages = block.layer := by
    rw [fitLayer, hheader.root_eq, hfit, Option.getD_some]
  have hindex : toIndex layout.begin_ block.layer (layout.address block) (2 ^ layout.depth) =
      block.index := toIndex_pageAddress hvalid layout.room.le
  have hleaf : toIndex layout.begin_ layout.depth (layout.address block) (2 ^ layout.depth) =
      block.start layout.depth := toIndex_leaf hstart layout.room.le
  rw [ReturnsBlock, Returns, hlayer, hheader.begin_eq, hheader.root_eq, hheader.layers_eq,
    Nat.add_sub_cancel, hindex, hleaf]

theorem buddyFree_spec {block : Block} (hrep : Represents layout memory free (block :: live))
    (hreturns : Returns layout block) :
    ∃ replied, buddyFree memory layout.alloc (layout.address block) = some replied ∧
      Represents layout replied (block :: free) live ∧ Spares layout live memory replied := by
  obtain ⟨replied, hfree, hrep', hchange⟩ := buddyFree_represents hrep hreturns.1 hreturns.2
  refine ⟨replied, hfree, hrep', ?_⟩
  intro other hother query hquery
  obtain ⟨hmeta, hapart⟩ := hrep'.live_byte hother hquery
  apply hchange
  rintro (hmeta' | hinside)
  · exact hmeta hmeta'
  · exact hapart block List.mem_cons_self hinside

/-- A request for a power of two is not rounded. -/
theorem bestFitLayer_pow (layout : Layout) {power : ℕ} (hpower : power ≤ layout.depth) :
    bestFitLayer (2 ^ power) (2 ^ layout.depth) = some (layout.depth - power) := by
  have hdepth := depth_lt layout
  rw [bestFitLayer, if_neg (by positivity), Nat.pow_div hpower (by norm_num),
    log2Upper_eq_clog (Nat.pow_le_pow_right (by norm_num) (by omega)),
    Nat.clog_pow 2 _ (by norm_num)]

/-! ## Regions are blocks -/

/-- The slab's regions, in list order, are blocks of the right size. -/
structure Regions (layout : Layout) (shape : Shape) (regions : List Block)
    (caches : List Cache) : Prop where
  bases_eq : bases caches = regions.map layout.address
  size_eq : ∀ block ∈ regions, block.size layout.depth = shape.pages

theorem addressStop_eq (block : Block) :
    layout.addressStop block =
      layout.address block + block.size layout.depth * pageSize := by
  simp only [Layout.addressStop, Layout.address, pageAddress, Block.stop]
  ring

theorem stop_address {block : Block} (hsize : block.size layout.depth = shape.pages) :
    shape.stop (layout.address block) = layout.addressStop block := by
  rw [addressStop_eq, hsize]
  rfl

theorem Regions.exists_block (hregions : Regions layout shape regions caches) {cache : Cache}
    (hcache : cache ∈ caches) :
    ∃ block ∈ regions, layout.address block = cache.base ∧
      shape.stop cache.base = layout.addressStop block := by
  have hbase : cache.base ∈ bases caches := List.mem_map_of_mem hcache
  rw [hregions.bases_eq] at hbase
  obtain ⟨block, hblock, haddress⟩ := List.mem_map.mp hbase
  exact ⟨block, hblock, haddress, haddress ▸ stop_address (hregions.size_eq block hblock)⟩

/-- Bytes of the slab are bytes of its regions. -/
theorem Regions.own_inBlock (hregions : Regions layout shape regions caches) {query : ℕ}
    (hquery : OwnByte shape caches query) : ∃ block ∈ regions, layout.InBlock block query := by
  obtain ⟨cache, hcache, hinside, -⟩ := hquery
  obtain ⟨block, hblock, haddress, hstop⟩ := hregions.exists_block hcache
  exact ⟨block, hblock, haddress ▸ hinside.1, hstop ▸ hinside.2⟩

theorem Regions.append {block : Block} {caches' : List Cache}
    (hregions : Regions layout shape regions caches)
    (hsize : block.size layout.depth = shape.pages)
    (hbases : bases caches' = bases caches ++ [layout.address block]) :
    Regions layout shape (regions ++ [block]) caches' where
  bases_eq := by rw [hbases, hregions.bases_eq, List.map_append, List.map_singleton]
  size_eq := by
    intro other hother
    rcases List.mem_append.mp hother with hold | hnew
    · exact hregions.size_eq other hold
    · rwa [List.mem_singleton.mp hnew]

/-- A cache of the slab and the block it lies in. -/
theorem Regions.split {before after : List Cache} {cache : Cache}
    (hregions : Regions layout shape regions (before ++ cache :: after)) :
    ∃ first block last, regions = first ++ block :: last ∧ layout.address block = cache.base ∧
      Regions layout shape (first ++ last) (before ++ after) := by
  have hbases := hregions.bases_eq
  rw [bases, List.map_append, List.map_cons] at hbases
  obtain ⟨first, rest, rfl, hfirst, hrest⟩ := List.map_eq_append_iff.mp hbases.symm
  obtain ⟨block, last, rfl, hblock, hlast⟩ := List.map_eq_cons_iff.mp hrest
  refine ⟨first, block, last, rfl, hblock, ?_, ?_⟩
  · rw [bases, List.map_append, List.map_append, hfirst, hlast]
  · intro other hother
    exact hregions.size_eq other (mem_middle.mpr (.inr hother))

/-- Bytes of other live blocks are no bytes of the slab. -/
theorem Regions.own_not_other (hregions : Regions layout shape regions caches)
    (hrep : Represents layout memory free (regions ++ others)) {query : ℕ}
    (hquery : OwnByte shape caches query) {other : Block} (hother : other ∈ others) :
    ¬ layout.InBlock other query := by
  intro hinside
  obtain ⟨block, hblock, hquery'⟩ := hregions.own_inBlock hquery
  obtain ⟨first, last, rfl⟩ := List.append_of_mem hblock
  have hperm : (first ++ block :: last ++ others ++ free).Perm
      (block :: (first ++ last ++ others ++ free)) := by
    rw [List.append_assoc, List.append_assoc, List.cons_append]
    refine List.perm_middle.trans ?_
    simp only [List.append_assoc]
    exact List.Perm.refl _
  have hapart := (hrep.tiling.perm hperm).apart (List.mem_append_left free
    (List.mem_append_right (first ++ last) hother))
  have := layout.addressStop_le_of_apart hapart
  have := hinside.1
  have := hinside.2
  have := hquery'.1
  have := hquery'.2
  omega

/-- A region's pages are a power of two, so that it is a block of its own. -/
theorem pages_fit (layout : Layout) (shape : Shape) (hpages : shape.pages ≤ 2 ^ layout.depth) :
    ∃ layer ≤ layout.depth, bestFitLayer shape.pages (2 ^ layout.depth) = some layer ∧
      2 ^ (layout.depth - layer) = shape.pages := by
  obtain ⟨power, hpower⟩ : ∃ power, shape.pages = 2 ^ power := by
    rw [Shape.pages, slabCachePages]
    split_ifs
    · exact ⟨3, rfl⟩
    · exact ⟨6, rfl⟩
  rw [hpower] at hpages ⊢
  have hle := (Nat.pow_le_pow_iff_right (by norm_num)).mp hpages
  exact ⟨layout.depth - power, Nat.sub_le _ _, bestFitLayer_pow layout hle,
    by rw [Nat.sub_sub_self hle]⟩

/-! ## A slab among the live blocks -/

/-- The slab is intact, its regions are live blocks, and `others` are live too. -/
structure OnBuddy (layout : Layout) (shape : Shape) (memory : Memory)
    (free regions others : List Block) (caches : List Cache) : Prop where
  represents : Represents layout memory free (regions ++ others)
  settled : Settled shape memory caches
  regions : Regions layout shape regions caches
  buddy_eq : shape.buddy = layout.alloc
  pages_le : shape.pages ≤ 2 ^ layout.depth

namespace OnBuddy

/-- A change that the buddy allocator and the slab do not notice. -/
theorem congr (honBuddy : OnBuddy layout shape memory free regions others caches)
    (hrep : Represents layout memory' free (regions ++ others))
    (hspared : ∀ query, OwnByte shape caches query → memory' query = memory query) :
    OnBuddy layout shape memory' free regions others caches where
  represents := hrep
  settled := settled_congr honBuddy.settled hspared
  regions := honBuddy.regions
  buddy_eq := honBuddy.buddy_eq
  pages_le := honBuddy.pages_le

theorem spared (honBuddy : OnBuddy layout shape memory free regions others caches)
    (hspares : Spares layout (regions ++ others) memory memory') {query : ℕ}
    (hquery : OwnByte shape caches query) : memory' query = memory query := by
  obtain ⟨block, hblock, hinside⟩ := honBuddy.regions.own_inBlock hquery
  exact hspares block (List.mem_append_left _ hblock) query hinside

/-- A block that joins the live ones makes a fresh region. -/
theorem fresh (honBuddy : OnBuddy layout shape memory free regions others caches)
    {block : Block} {free' : List Block}
    (hrep : Represents layout memory' free' (block :: (regions ++ others)))
    (hsize : block.size layout.depth = shape.pages) :
    Fresh shape caches (layout.address block) where
  pos := Nat.pos_of_ne_zero (layout.address_pos block)
  stop_lt := by
    rw [stop_address hsize]
    exact layout.addressStop_lt (hrep.valid (List.mem_append_left _ List.mem_cons_self))
  apart := by
    intro cache hcache
    obtain ⟨other, hother, haddress, hstop⟩ := honBuddy.regions.exists_block hcache
    have hapart := hrep.tiling.apart (List.mem_append_left _ (List.mem_append_left others hother))
    have := layout.addressStop_le_of_apart hapart
    rw [Shape.RegionsApart, hstop, stop_address hsize, ← haddress]
    omega

/-- What the slab asks for, it gets from the buddy allocator. -/
theorem askBuddy_spec (honBuddy : OnBuddy layout shape memory free regions others caches) :
    ∃ taken replied, askBuddy realBuddy memory shape.slab = some (taken, replied) ∧
      SoundReply shape memory caches taken replied ∧
      Spares layout (regions ++ others) memory replied ∧
      ((taken = 0 ∧ Represents layout replied free (regions ++ others)) ∨
        ∃ block free', taken = layout.address block ∧ block.size layout.depth = shape.pages ∧
          Represents layout replied free' (block :: (regions ++ others))) := by
  have hcore := honBuddy.settled.toCore
  have hnothing : SoundReply shape memory caches 0 memory :=
    ⟨fun _ _ => rfl, fun hne => absurd rfl hne⟩
  have hsame : Spares layout (regions ++ others) memory memory := fun _ _ _ _ => rfl
  have hrep := honBuddy.represents
  obtain ⟨layer, -, hfit, hsize⟩ := pages_fit layout shape honBuddy.pages_le
  have hpages : 1 ≤ shape.pages := by
    have := shape.pages_bounds.1
    omega
  rw [askBuddy, hcore.buddy_eq, hcore.cachesize_eq, honBuddy.buddy_eq]
  by_cases hfirst : firstFreeCache memory shape.slab = 0
  · rw [if_pos hfirst]
    rcases buddyAlloc_spec hrep hpages with hnone |
      ⟨block, free', replied, halloc, hlayer, hrep', hspares⟩
    · exact ⟨0, memory, hnone, hnothing, hsame, .inl ⟨rfl, hrep⟩⟩
    · rw [hfit, Option.some.injEq] at hlayer
      have hblock : block.size layout.depth = shape.pages := by rw [Block.size, ← hlayer, hsize]
      refine ⟨_, replied, halloc, ⟨fun query hquery => honBuddy.spared hspares hquery,
        fun _ => honBuddy.fresh hrep' hblock⟩, hspares, .inr ⟨block, free', rfl, hblock, hrep'⟩⟩
  · exact ⟨0, memory, if_neg hfirst, hnothing, hsame, .inl ⟨rfl, hrep⟩⟩

/-- A region that `buddy_free` gives back to its own list. -/
theorem returns (honBuddy : OnBuddy layout shape memory free regions others caches) {ptr : ℕ}
    (hreturns : ReturnsBlock memory layout.alloc (cachesize memory shape.slab) ptr) :
    ∀ block ∈ regions, layout.address block = ptr → Returns layout block := by
  rintro block hblock rfl
  have hvalid := honBuddy.represents.valid
    (List.mem_append_left free (List.mem_append_left others hblock))
  obtain ⟨layer, hlayer, hfit, hexact⟩ := pages_fit layout shape honBuddy.pages_le
  have hsame : layer = block.layer := by
    have hsize := (honBuddy.regions.size_eq block hblock).trans hexact.symm
    have hpower := Nat.pow_right_injective (le_refl 2) hsize
    have := hvalid.1
    omega
  rw [honBuddy.settled.toCore.cachesize_eq] at hreturns
  exact (returnsBlock_iff honBuddy.represents.toHeader hvalid (hsame ▸ hfit)).mp hreturns

end OnBuddy

/-- A change inside live blocks goes unnoticed by the buddy allocator. -/
theorem represents_of_inside (hrep : Represents layout memory free live)
    (hchange : UnchangedOutside memory memory' fun query =>
      ∃ block ∈ live, layout.InBlock block query) : Represents layout memory' free live := by
  apply hrep.frame
  apply hchange.mono
  rintro query ⟨block, hblock, hinside⟩
  exact hrep.live_byte hblock hinside

/-! ## Objects -/

/-- An object lies in one of the slab's blocks. -/
theorem Regions.object_inBlock {memory : Memory} (hregions : Regions layout shape regions caches)
    (hcore : Core shape memory caches) {ptr : ℕ} (hptr : ptr ∈ objects shape caches) :
    ∃ block ∈ regions, layout.address block ≤ ptr ∧ ptr + shape.size ≤ layout.addressStop block := by
  obtain ⟨cache, hcache, hmem⟩ := List.mem_flatMap.mp hptr
  obtain ⟨index, hlive, rfl⟩ := List.mem_map.mp hmem
  obtain ⟨block, hblock, haddress, hstop⟩ := hregions.exists_block hcache
  have hindex := (hcore.contents cache hcache).index_lt (List.mem_append_left _ hlive)
  have hslot := shape.slot_add_le_stop hindex
  have hbegin := shape.header_le_slot cache.base index
  have haddr := shape.base_le_addr cache.base
  rw [hstop] at hslot
  simp only [Shape.slotBytes] at hslot
  exact ⟨block, hblock, by omega, by omega⟩

/-- The region in a block shares no byte with a block apart from it. -/
theorem not_inRegion_of_apart {block other : Block} {query : ℕ}
    (hsize : block.size layout.depth = shape.pages)
    (hapart : Block.Apart layout.depth block other) (hquery : layout.InBlock other query) :
    ¬ shape.InRegion (layout.address block) query := by
  intro hregion
  have hstop := layout.addressStop_le_of_apart hapart
  have hbegin := hregion.1
  have hend := stop_address hsize ▸ hregion.2
  have hlower := hquery.1
  have hupper := hquery.2
  omega

/-- An allocation writes no byte of an object. -/
theorem OnBuddy.sparesObjects {taken : ℕ} {replied : Memory}
    (honBuddy : OnBuddy layout shape memory free regions others caches)
    (hsound : SoundReply shape memory caches taken replied)
    (hspares : Spares layout (regions ++ others) memory replied)
    (hchange : UnchangedOutside replied memory' fun query =>
      OwnByte shape caches query ∨ taken ≠ 0 ∧ shape.InRegion taken query) :
    SparesObjects shape caches memory memory' := by
  have hcore := honBuddy.settled.toCore
  intro object hobject query hlower hupper
  obtain ⟨block, hblock, hinside, hinside'⟩ := honBuddy.regions.object_inBlock hcore hobject
  have hquery : layout.InBlock block query := ⟨by omega, by omega⟩
  rw [hchange, hspares block (List.mem_append_left _ hblock) query hquery]
  rintro (hown | ⟨htaken, htakenByte⟩)
  · exact object_not_own hcore hobject hlower hupper hown
  · obtain ⟨cache, hcache, hmem⟩ := List.mem_flatMap.mp hobject
    obtain ⟨index, hlive, rfl⟩ := List.mem_map.mp hmem
    have hindex := (hcore.contents cache hcache).index_lt (List.mem_append_left _ hlive)
    have hslot := shape.slot_add_le_stop hindex
    have hbegin := shape.header_le_slot cache.base index
    have haddr := shape.base_le_addr cache.base
    simp only [Shape.slotBytes] at hslot
    exact (hsound.fresh htaken).not_inRegion hcache ⟨by omega, by omega⟩ htakenByte

/-! ## Whole calls -/

/-- `slab_alloc` on the real buddy allocator. -/
theorem slabAlloc_onBuddy {fuel : ℕ} (hfuel : 2 ≤ fuel)
    (honBuddy : OnBuddy layout shape memory free regions others caches)
    (hstays : ¬ MovesUp realBuddy memory shape.slab) :
    ∃ taken replied ptr memory' free' regions' caches',
      askBuddy realBuddy memory shape.slab = some (taken, replied) ∧
      slabAlloc fuel realBuddy memory shape.slab = some (ptr, memory') ∧
      OnBuddy layout shape memory' free' regions' others caches' ∧
      bases caches' = (if taken = 0 then bases caches else bases caches ++ [taken]) ∧
      (objects shape caches').Perm
        (if ptr = 0 then objects shape caches else ptr :: objects shape caches) ∧
      Spares layout others memory memory' ∧ SparesObjects shape caches memory memory' := by
  obtain ⟨taken, replied, hask, hsound, hspares, hreply⟩ := honBuddy.askBuddy_spec
  obtain ⟨ptr, memory', caches', halloc, hsettled', -, hbases, hobjects, hchange⟩ :=
    slabAlloc_spec hfuel honBuddy.settled hask hsound hstays
  have hobjectsSpared := honBuddy.sparesObjects hsound hspares hchange
  rcases hreply with ⟨rfl, hrep⟩ | ⟨block, free', rfl, hsize, hrep⟩
  · have hbases' := hbases
    rw [if_pos rfl] at hbases
    have hinside : UnchangedOutside replied memory' (OwnByte shape caches) :=
      hchange.mono fun _ hquery => hquery.resolve_right fun htaken => htaken.1 rfl
    refine ⟨0, replied, ptr, memory', free, regions, caches', hask, halloc, ?_, hbases', hobjects,
      ?_, hobjectsSpared⟩
    · exact
        { represents := represents_of_inside hrep (hinside.mono fun _ hquery => by
            obtain ⟨other, hother, hbyte⟩ := honBuddy.regions.own_inBlock hquery
            exact ⟨other, List.mem_append_left _ hother, hbyte⟩)
          settled := hsettled'
          regions := ⟨hbases.trans honBuddy.regions.bases_eq, honBuddy.regions.size_eq⟩
          buddy_eq := honBuddy.buddy_eq
          pages_le := honBuddy.pages_le }
    · intro other hother query hquery
      rw [hinside query fun hown =>
        honBuddy.regions.own_not_other honBuddy.represents hown hother hquery]
      exact hspares other (List.mem_append_right _ hother) query hquery
  · have hpos := layout.address_pos block
    have hbases' := hbases
    rw [if_neg hpos] at hbases
    have hperm : (block :: (regions ++ others)).Perm (regions ++ [block] ++ others) := by
      rw [List.append_assoc]
      exact List.perm_middle.symm
    have hrep' := hrep.perm_live hperm
    have hregions' := honBuddy.regions.append hsize hbases
    have hinBlock : ∀ query, OwnByte shape caches query ∨ layout.address block ≠ 0 ∧
        shape.InRegion (layout.address block) query →
        ∃ other ∈ regions ++ [block], layout.InBlock other query := by
      rintro query (hown | ⟨-, htaken⟩)
      · obtain ⟨other, hother, hbyte⟩ := honBuddy.regions.own_inBlock hown
        exact ⟨other, List.mem_append_left _ hother, hbyte⟩
      · exact ⟨block, by simp, htaken.1, stop_address hsize ▸ htaken.2⟩
    refine ⟨_, replied, ptr, memory', free', regions ++ [block], caches', hask, halloc, ?_,
      hbases', hobjects, ?_, hobjectsSpared⟩
    · exact
        { represents := represents_of_inside hrep' (hchange.mono fun query hquery => by
            obtain ⟨other, hother, hbyte⟩ := hinBlock query hquery
            exact ⟨other, List.mem_append_left _ hother, hbyte⟩)
          settled := hsettled'
          regions := hregions'
          buddy_eq := honBuddy.buddy_eq
          pages_le := honBuddy.pages_le }
    · intro other hother query hquery
      rw [hchange, hspares other (List.mem_append_right _ hother) query hquery]
      rintro (hown | ⟨-, htaken⟩)
      · exact honBuddy.regions.own_not_other honBuddy.represents hown hother hquery
      · exact not_inRegion_of_apart hsize (hrep.tiling.apart
          (List.mem_append_left _ (List.mem_append_right regions hother))) hquery htaken

/-- What a change of a slab's own bytes leaves alone. -/
theorem Regions.own_change (hregions : Regions layout shape regions caches)
    (hrep : Represents layout memory free (regions ++ others)) (hcore : Core shape memory caches)
    (hchange : UnchangedOutside memory memory' (OwnByte shape caches)) :
    Represents layout memory' free (regions ++ others) ∧ Spares layout others memory memory' ∧
      SparesObjects shape caches memory memory' := by
  refine ⟨represents_of_inside hrep (hchange.mono fun _ hquery => ?_), ?_, ?_⟩
  · obtain ⟨block, hblock, hbyte⟩ := hregions.own_inBlock hquery
    exact ⟨block, List.mem_append_left _ hblock, hbyte⟩
  · exact fun other hother query hquery =>
      hchange query fun hown => hregions.own_not_other hrep hown hother hquery
  · exact fun ptr hptr query hlower hupper =>
      hchange query (object_not_own hcore hptr hlower hupper)

/-- The real buddy allocator takes the region of a destroyed cache back. -/
theorem destroy_onBuddy {before after : List Cache} {cache : Cache} {index ptr : ℕ}
    (honBuddy : OnBuddy layout shape memory free regions others (before ++ cache :: after))
    (hlive : index ∈ cache.live)
    (hptr : ptr = shape.slot cache.base index + sizeofSlabAllocatedObjectHeader)
    (hstays : ¬ MovesDown memory ptr) (hdestroys : Destroys memory shape.slab ptr)
    (hnext : after = [] → nextCache memory (shape.addr cache.base) = 0)
    (hreturns : ∀ block ∈ regions, layout.address block = objectCache memory ptr →
      Returns layout block) :
    ∃ regions' block replied, Regions layout shape regions' (before ++ after) ∧
      realBuddy.free (unlinked memory shape.slab ptr) shape.buddy cache.base = some replied ∧
      Represents layout replied (block :: free) (regions' ++ others) ∧
      Spares layout (regions' ++ others) (unlinked memory shape.slab ptr) replied ∧
      Spares layout others memory (unlinked memory shape.slab ptr) ∧
      SparesObjects shape (before ++ cache :: after) memory (unlinked memory shape.slab ptr) := by
  have hsettled := honBuddy.settled
  obtain ⟨-, hcacheEq, -, -, -, -, hchange⟩ :=
    unlinked_spec hsettled hlive hptr hstays hdestroys hnext
  obtain ⟨first, block, last, rfl, haddress, hregions'⟩ := honBuddy.regions.split
  obtain ⟨hrep, hspares, hobjects⟩ :=
    honBuddy.regions.own_change honBuddy.represents hsettled.toCore hchange
  have hperm : (first ++ block :: last ++ others).Perm (block :: (first ++ last ++ others)) := by
    rw [List.append_assoc, List.append_assoc, List.cons_append]
    exact List.perm_middle
  have hblock := hreturns block (by simp) (haddress.trans hcacheEq.symm)
  obtain ⟨replied, hreply, hrep', hspares'⟩ := buddyFree_spec (hrep.perm_live hperm) hblock
  refine ⟨first ++ last, block, replied, hregions', ?_, hrep', hspares', hspares, hobjects⟩
  rw [honBuddy.buddy_eq, ← haddress]
  exact hreply

/-- `slab_free` of the last object of a later cache, which goes back to the buddy
allocator. -/
theorem slabFree_destroys_onBuddy {before after : List Cache} {cache : Cache} {index ptr : ℕ}
    (honBuddy : OnBuddy layout shape memory free regions others (before ++ cache :: after))
    (hlive : index ∈ cache.live)
    (hptr : ptr = shape.slot cache.base index + sizeofSlabAllocatedObjectHeader)
    (hstays : ¬ MovesDown memory ptr) (hdestroys : Destroys memory shape.slab ptr)
    (hnext : after = [] → nextCache memory (shape.addr cache.base) = 0)
    (hreturns : ∀ block ∈ regions, layout.address block = objectCache memory ptr →
      Returns layout block) :
    ∃ memory' free' regions', slabFree realBuddy memory shape.slab ptr = some memory' ∧
      OnBuddy layout shape memory' free' regions' others (before ++ after) ∧
      cacheMem (unlinked memory shape.slab ptr) (objectCache memory ptr) = cache.base ∧
      (objects shape (before ++ cache :: after)).Perm (ptr :: objects shape (before ++ after)) ∧
      Spares layout others memory memory' ∧
      SparesObjects shape (before ++ after) memory memory' := by
  obtain ⟨honly, hcacheEq, hcacheMem, hcore', -, -, -⟩ :=
    unlinked_spec honBuddy.settled hlive hptr hstays hdestroys hnext
  obtain ⟨regions', block, replied, hregions', hfree, hrep', hspares', hspares, hobjects⟩ :=
    destroy_onBuddy honBuddy hlive hptr hstays hdestroys hnext hreturns
  have hspared : ∀ query, OwnByte shape (before ++ after) query →
      replied query = unlinked memory shape.slab ptr query := by
    intro query hquery
    obtain ⟨other, hother, hbyte⟩ := hregions'.own_inBlock hquery
    exact hspares' other (List.mem_append_left _ hother) query hbyte
  obtain ⟨memory', hresult, hsettled', -, hchange', -⟩ :=
    slabFree_destroys honBuddy.settled hlive hptr hstays hdestroys hnext hfree hspared
  have hcore'' := hcore'.frame hspared
  obtain ⟨hrep'', hspares'', hobjects''⟩ := hregions'.own_change hrep' hcore'' hchange'
  have hdrop : (objects shape (before ++ cache :: after)).Perm
      (ptr :: objects shape (before ++ after)) := hptr ▸ objects_drop honly
  refine ⟨memory', block :: free, regions', hresult, ?_, by rw [hcacheEq, hcacheMem], hdrop, ?_,
    ?_⟩
  · exact
      { represents := hrep''
        settled := hsettled'
        regions := hregions'
        buddy_eq := honBuddy.buddy_eq
        pages_le := honBuddy.pages_le }
  · exact (hspares.trans (hspares'.mono (List.subset_append_right _ _))).trans hspares''
  · intro object hmember query hlower hupper
    obtain ⟨other, hother, hbyte, hbyte'⟩ := hregions'.object_inBlock hcore'' hmember
    rw [hobjects'' object hmember query hlower hupper,
      hspares' other (List.mem_append_left _ hother) query ⟨by omega, by omega⟩]
    exact hobjects object (hdrop.mem_iff.mpr (List.mem_cons_of_mem _ hmember)) query hlower
      hupper

/-- `slab_free` of an object whose cache stays. -/
theorem slabFree_kept_onBuddy {before after : List Cache} {cache : Cache} {index ptr : ℕ}
    (honBuddy : OnBuddy layout shape memory free regions others (before ++ cache :: after))
    (hlive : index ∈ cache.live)
    (hptr : ptr = shape.slot cache.base index + sizeofSlabAllocatedObjectHeader)
    (hstays : ¬ MovesDown memory ptr) (hkept : ¬ Destroys memory shape.slab ptr) :
    slabFree realBuddy memory shape.slab ptr = some (released memory ptr) ∧
      OnBuddy layout shape (released memory ptr) free regions others
        (before ++ cache.release index :: after) ∧
      bases (before ++ cache.release index :: after) = bases (before ++ cache :: after) ∧
      (objects shape (before ++ cache :: after)).Perm
        (ptr :: objects shape (before ++ cache.release index :: after)) ∧
      Spares layout others memory (released memory ptr) ∧
      SparesObjects shape (before ++ cache.release index :: after) memory
        (released memory ptr) := by
  obtain ⟨hresult, hsettled', -, hchange⟩ :=
    slabFree_stays realBuddy honBuddy.settled hlive hptr hstays hkept
  obtain ⟨hrep, hspares, hobjects⟩ :=
    honBuddy.regions.own_change honBuddy.represents honBuddy.settled.toCore hchange
  have hdrop : (objects shape (before ++ cache :: after)).Perm
      (ptr :: objects shape (before ++ cache.release index :: after)) :=
    hptr ▸ objects_release hlive
  have hbases : bases (before ++ cache.release index :: after) =
      bases (before ++ cache :: after) := by
    simp only [bases, List.map_append, List.map_cons, Cache.release]
  refine ⟨hresult, ?_, hbases, hdrop, hspares, fun object hmember =>
    hobjects object (hdrop.mem_iff.mpr (List.mem_cons_of_mem _ hmember))⟩
  exact
    { represents := hrep
      settled := hsettled'
      regions := ⟨hbases.trans honBuddy.regions.bases_eq, honBuddy.regions.size_eq⟩
      buddy_eq := honBuddy.buddy_eq
      pages_le := honBuddy.pages_le }

/-- `slab_free` on the real buddy allocator. -/
theorem slabFree_onBuddy
    (honBuddy : OnBuddy layout shape memory free regions others caches) {ptr : ℕ}
    (hptr : ptr ∈ objects shape caches) (hstays : ¬ MovesDown memory ptr)
    (hlast : Destroys memory shape.slab ptr →
      lastCache memory shape.slab = objectCache memory ptr →
      nextCache memory (objectCache memory ptr) = 0)
    (hreturns : Destroys memory shape.slab ptr →
      ∀ block ∈ regions, layout.address block = objectCache memory ptr → Returns layout block) :
    ∃ memory' free' regions' caches',
      slabFree realBuddy memory shape.slab ptr = some memory' ∧
      OnBuddy layout shape memory' free' regions' others caches' ∧
      (Destroys memory shape.slab ptr → (bases caches).Perm
        (cacheMem (unlinked memory shape.slab ptr) (objectCache memory ptr) :: bases caches')) ∧
      (¬ Destroys memory shape.slab ptr → (bases caches).Perm (bases caches')) ∧
      (objects shape caches).Perm (ptr :: objects shape caches') ∧
      Spares layout others memory memory' ∧ SparesObjects shape caches' memory memory' := by
  have hcore := honBuddy.settled.toCore
  obtain ⟨before, cache, after, index, rfl, hlive, hslot⟩ := mem_objects hptr
  by_cases hdestroys : Destroys memory shape.slab ptr
  · have hobject : objectCache memory ptr = shape.addr cache.base :=
      hslot ▸ objectCache_eq hcore (by simp) hlive
    have hnext : after = [] → nextCache memory (shape.addr cache.base) = 0 := by
      rintro rfl
      have hzero := hlast hdestroys (hcore.last_eq_addr.trans hobject.symm)
      rwa [hobject] at hzero
    obtain ⟨memory', free', regions', hresult, honBuddy', hcacheMem, hdrop, hspares, hobjects⟩ :=
      slabFree_destroys_onBuddy honBuddy hlive hslot hstays hdestroys hnext (hreturns hdestroys)
    refine ⟨memory', free', regions', before ++ after, hresult, honBuddy', ?_,
      fun hkept => absurd hdestroys hkept, hdrop, hspares, hobjects⟩
    intro _
    rw [hcacheMem]
    exact List.perm_middle.map Cache.base
  · obtain ⟨hresult, honBuddy', hbases, hdrop, hspares, hobjects⟩ :=
      slabFree_kept_onBuddy honBuddy hlive hslot hstays hdestroys
    refine ⟨released memory ptr, free, regions, before ++ cache.release index :: after, hresult,
      honBuddy', fun hgone => absurd hgone hdestroys, fun _ => ?_, hdrop, hspares, hobjects⟩
    rw [hbases]

/-- `slab_init` on the real buddy allocator. -/
theorem slabInit_onBuddy (hrep : Represents layout memory free others) {size : ℕ}
    (hsize : size + sizeofSlabAllocatedObjectHeader < wordSize)
    (hpages : slabCachePages (size + sizeofSlabAllocatedObjectHeader) ≤ 2 ^ layout.depth) :
    slabInit realBuddy memory layout.alloc size = some (0, memory) ∨
    ∃ shape memory' free' block, shape.size = size ∧
      slabInit realBuddy memory layout.alloc size = some (shape.slab, memory') ∧
      OnBuddy layout shape memory' free' [block] others [emptyCache shape.slab] ∧
      Closed shape memory' ∧ Spares layout others memory memory' := by
  have hobjsize := Nat.mod_eq_of_lt hsize
  have hminimum : 1 ≤ slabCachePages (size + sizeofSlabAllocatedObjectHeader) := by
    rw [slabCachePages]
    split_ifs <;> norm_num [slabMinCachePages, slabMinCacheObjects]
  have hlayoutLt : layout.alloc < wordSize := by
    have := layout.header_le
    have := layout.freelist_le
    have := layout.bitmap_le
    exact lt_of_le_of_lt (by simp only [pageAddress]; omega) layout.room
  simp only [slabInit, hobjsize, Option.bind_eq_bind]
  rcases buddyAlloc_spec hrep hminimum with hnone |
    ⟨block, free', replied, halloc, hfit, hrep', hspares⟩
  · left
    have hnone' : realBuddy.alloc memory layout.alloc
        (slabCachePages (size + sizeofSlabAllocatedObjectHeader)) = some (0, memory) := hnone
    simp only [hnone', Option.bind_some, if_pos]
  · right
    have halloc' : realBuddy.alloc memory layout.alloc
        (slabCachePages (size + sizeofSlabAllocatedObjectHeader)) =
          some (layout.address block, replied) := halloc
    let shape : Shape :=
      { slab := layout.address block
        buddy := layout.alloc
        size := size
        slab_pos := Nat.pos_of_ne_zero (layout.address_pos block)
        buddy_lt := hlayoutLt
        size_lt := hsize }
    have hblock : block.size layout.depth = shape.pages := by
      obtain ⟨layer, -, hlayer, hexact⟩ := pages_fit layout shape hpages
      have hsame : some layer = some block.layer := hlayer.symm.trans hfit
      rw [Block.size, ← Option.some.inj hsame, hexact]
    have hstop : shape.stop shape.slab < wordSize := by
      rw [stop_address hblock]
      exact layout.addressStop_lt (hrep'.valid (List.mem_append_left _ List.mem_cons_self))
    obtain ⟨memory', hinit, hready, hchange⟩ := slabInitAt_ready replied hstop
    have hinit' : slabInitAt replied (layout.address block) layout.alloc
        (size + sizeofSlabAllocatedObjectHeader)
        (slabCachePages (size + sizeofSlabAllocatedObjectHeader)) = some memory' := hinit
    have hinside : ∀ query, shape.InRegion shape.slab query → layout.InBlock block query :=
      fun query hquery => ⟨hquery.1, stop_address hblock ▸ hquery.2⟩
    refine ⟨shape, memory', free', block, rfl, ?_, ?_, hready.closed, ?_⟩
    · simp only [halloc', Option.bind_some, if_neg (layout.address_pos block), hinit',
        Option.map_some]
      rfl
    · exact
        { represents := represents_of_inside hrep' (hchange.mono fun query hquery =>
            ⟨block, List.mem_cons_self, hinside query hquery⟩)
          settled := hready.settled
          regions := ⟨rfl, fun other hother => List.mem_singleton.mp hother ▸ hblock⟩
          buddy_eq := rfl
          pages_le := hpages }
    · intro other hother query hquery
      have hapart := hrep'.tiling.apart (List.mem_append_left _ hother)
      rw [hchange, hspares other hother query hquery]
      exact not_inRegion_of_apart hblock hapart hquery

end DoomsdayModules.SlabOnBuddy
