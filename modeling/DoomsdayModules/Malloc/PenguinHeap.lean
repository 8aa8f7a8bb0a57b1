import DoomsdayModules.Malloc.BuddyFit
import DoomsdayModules.Malloc.PenguinOrigin
import DoomsdayModules.Malloc.SlabIsolation

/-!
# The heap behind the general allocator

The slabs of the size classes and the blocks of large requests share one buddy
allocator.  Each slab sees the others' regions and the large blocks as live
blocks that it does not touch, so that what was shown of one slab on the buddy
allocator carries over to all of them side by side.
-/

namespace DoomsdayModules.PenguinHeap

open DoomsdayModules.ByteMemory DoomsdayModules.Util DoomsdayModules.DyadicBlocks
open DoomsdayModules.DoublyLinked
open DoomsdayModules.BuddyUtil DoomsdayModules.Buddy DoomsdayModules.BuddyInvariant
open DoomsdayModules.BuddyMoves DoomsdayModules.BuddyRuns DoomsdayModules.BuddyFit
open DoomsdayModules.Slab DoomsdayModules.SlabInvariant DoomsdayModules.SlabOps
open DoomsdayModules.SlabOnBuddy DoomsdayModules.PenguinMalloc DoomsdayModules.PenguinOrigin

/-! ## The parts of the heap -/

/-- A size class with a slab: the regions and the caches of the slab. -/
structure SlabClass where
  index : ℕ
  shape : Shape
  regions : List Block
  caches : List Cache

/-- The class with other regions and caches. -/
def SlabClass.goOn (slabClass : SlabClass) (regions : List Block) (caches : List Cache) :
    SlabClass := { slabClass with regions := regions, caches := caches }

/-- The slab of the class is intact, and its regions are blocks. -/
structure SlabClass.Intact (layout : Layout) (globals : Globals) (memory : Memory)
    (slabClass : SlabClass) : Prop where
  index_lt : slabClass.index < penguinMallocSlabs
  slab_eq : globals.slabs slabClass.index = slabClass.shape.slab
  size_eq : slabClass.shape.size = slabSizeByIndex slabClass.index
  settled : Settled slabClass.shape memory slabClass.caches
  regions : Regions layout slabClass.shape slabClass.regions slabClass.caches
  buddy_eq : slabClass.shape.buddy = layout.alloc
  pages_le : slabClass.shape.pages ≤ 2 ^ layout.depth

/-- The block of the buddy allocator that a large request got. -/
def bigBlock (layout : Layout) (entry : Entry) : Option Block :=
  match entry.request with
  | .slab _ => none
  | .buddy pages => some (liveBlock layout ⟨entry.mem, pages⟩)

/-- The object of the class that a request got. -/
def smallBlock (index : ℕ) (entry : Entry) : Option ℕ :=
  if entry.request = .slab index then some entry.mem else none

/-- The live blocks of the buddy allocator apart from the class's regions. -/
def othersOf (layout : Layout) (rest : List SlabClass) (live : List Entry) : List Block :=
  rest.flatMap SlabClass.regions ++ live.filterMap (bigBlock layout)

/-- A large block is the block of the buddy allocator that fits its request. -/
structure Located (layout : Layout) (mem pages : ℕ) : Prop where
  mem_eq : mem = layout.address (liveBlock layout ⟨mem, pages⟩)
  pages_pos : 1 ≤ pages
  pages_le : pages ≤ (liveBlock layout ⟨mem, pages⟩).size layout.depth

/-- The memory holds the classes' slabs and the blocks of the large requests. -/
structure Heap (layout : Layout) (globals : Globals) (free : List Block)
    (classes : List SlabClass) (memory : Memory) (live : List Entry) : Prop where
  buddy_eq : globals.buddy = layout.alloc
  represents : Represents layout memory free (othersOf layout classes live)
  intact : ∀ slabClass ∈ classes, slabClass.Intact layout globals memory
  distinct : classes.Pairwise fun slabClass other => slabClass.index ≠ other.index
  covers : ∀ index, globals.slabs index ≠ 0 → ∃ slabClass ∈ classes, slabClass.index = index
  objects : ∀ slabClass ∈ classes, (live.filterMap (smallBlock slabClass.index)).Perm
    (objects slabClass.shape slabClass.caches)
  owned : ∀ entry ∈ live, ∀ index, entry.request = .slab index →
    ∃ slabClass ∈ classes, slabClass.index = index
  located : ∀ entry ∈ live, ∀ pages, entry.request = .buddy pages →
    Located layout entry.mem pages

variable {layout : Layout} {globals : Globals} {free : List Block}
  {classes before after : List SlabClass} {slabClass other : SlabClass}
  {memory memory' : Memory} {live : List Entry} {entry : Entry}

/-! ## One class among the others -/

theorem SlabClass.Intact.congr (hintact : slabClass.Intact layout globals memory)
    (hspared : ∀ query, OwnByte slabClass.shape slabClass.caches query →
      memory' query = memory query) : slabClass.Intact layout globals memory' :=
  { hintact with settled := settled_congr hintact.settled hspared }

theorem othersOf_perm (live : List Entry) :
    (othersOf layout (before ++ slabClass :: after) live).Perm
      (slabClass.regions ++ othersOf layout (before ++ after) live) := by
  have hclasses : ((before ++ slabClass :: after).flatMap SlabClass.regions).Perm
      (slabClass.regions ++ (before ++ after).flatMap SlabClass.regions) :=
    List.perm_middle.flatMap_right SlabClass.regions
  rw [othersOf, othersOf, ← List.append_assoc]
  exact hclasses.append_right _

namespace Heap

theorem onBuddy (hheap : Heap layout globals free (before ++ slabClass :: after) memory live) :
    OnBuddy layout slabClass.shape memory free slabClass.regions
      (othersOf layout (before ++ after) live) slabClass.caches := by
  have hintact := hheap.intact slabClass (by simp)
  exact
    { represents := hheap.represents.perm_live (othersOf_perm live)
      settled := hintact.settled
      regions := hintact.regions
      buddy_eq := hintact.buddy_eq
      pages_le := hintact.pages_le }

theorem index_ne (hheap : Heap layout globals free (before ++ slabClass :: after) memory live)
    (hother : other ∈ before ++ after) : other.index ≠ slabClass.index := by
  have hdistinct := List.pairwise_middle (R := fun slabClass other : SlabClass =>
    slabClass.index ≠ other.index) (fun hne => hne.symm) |>.mp hheap.distinct
  exact ((List.pairwise_cons.mp hdistinct).1 other hother).symm

/-- The class of an index. -/
theorem split_class (hheap : Heap layout globals free classes memory live) {index : ℕ}
    (hslab : globals.slabs index ≠ 0) :
    ∃ before slabClass after, classes = before ++ slabClass :: after ∧ slabClass.index = index := by
  obtain ⟨slabClass, hclass, hindex⟩ := hheap.covers index hslab
  obtain ⟨before, after, rfl⟩ := List.append_of_mem hclass
  exact ⟨before, slabClass, after, rfl, hindex⟩

/-! ## Where the live blocks are -/

theorem mem_objects (hheap : Heap layout globals free classes memory live)
    (hclass : slabClass ∈ classes) (hentry : entry ∈ live)
    (hrequest : entry.request = .slab slabClass.index) :
    entry.mem ∈ SlabOps.objects slabClass.shape slabClass.caches := by
  rw [← (hheap.objects slabClass hclass).mem_iff]
  exact List.mem_filterMap.mpr ⟨entry, hentry, if_pos hrequest⟩

theorem room_eq (hheap : Heap layout globals free classes memory live)
    (hclass : slabClass ∈ classes) (hrequest : entry.request = .slab slabClass.index) :
    entry.request.room = slabClass.shape.size := by
  rw [hrequest, (hheap.intact slabClass hclass).size_eq]
  rfl

/-- A small block lies in a region of its class. -/
theorem small_inBlock (hheap : Heap layout globals free classes memory live)
    (hclass : slabClass ∈ classes) (hentry : entry ∈ live)
    (hrequest : entry.request = .slab slabClass.index) :
    ∃ block ∈ slabClass.regions, layout.address block ≤ entry.mem ∧
      entry.mem + entry.request.room ≤ layout.addressStop block := by
  have hintact := hheap.intact slabClass hclass
  rw [hheap.room_eq hclass hrequest]
  exact hintact.regions.object_inBlock hintact.settled.toCore
    (hheap.mem_objects hclass hentry hrequest)

/-- A large block starts a block of the buddy allocator. -/
theorem big_inBlock (hheap : Heap layout globals free classes memory live)
    (hentry : entry ∈ live) {pages : ℕ} (hrequest : entry.request = .buddy pages) :
    ∃ block, bigBlock layout entry = some block ∧ layout.address block = entry.mem ∧
      entry.mem + entry.request.room ≤ layout.addressStop block := by
  obtain ⟨hmem, -, hpages⟩ := hheap.located entry hentry pages hrequest
  refine ⟨liveBlock layout ⟨entry.mem, pages⟩, by simp [bigBlock, hrequest], hmem.symm, ?_⟩
  rw [addressStop_eq, ← hmem, hrequest]
  exact Nat.add_le_add_left (Nat.mul_le_mul_right pageSize hpages) _

theorem big_mem (hentry : entry ∈ live) {block : Block}
    (hblock : bigBlock layout entry = some block) (rest : List SlabClass) :
    block ∈ othersOf layout rest live :=
  List.mem_append_right _ (List.mem_filterMap.mpr ⟨entry, hentry, hblock⟩)

/-- The block of the buddy allocator that a live block lies in, small or large. -/
theorem inBlock (hheap : Heap layout globals free classes memory live) (hentry : entry ∈ live) :
    ∃ block ∈ othersOf layout classes live, layout.address block ≤ entry.mem ∧
      entry.mem + entry.request.room ≤ layout.addressStop block := by
  cases hrequest : entry.request with
  | slab index =>
      obtain ⟨slabClass, hclass, rfl⟩ := hheap.owned entry hentry index hrequest
      obtain ⟨block, hblock, hinside⟩ := hheap.small_inBlock hclass hentry hrequest
      rw [hrequest] at hinside
      exact ⟨block, List.mem_append_left _ (List.mem_flatMap.mpr ⟨slabClass, hclass, hblock⟩),
        hinside⟩
  | buddy pages =>
      obtain ⟨block, hblock, haddress, hinside⟩ := hheap.big_inBlock hentry hrequest
      rw [hrequest] at hinside
      exact ⟨block, big_mem hentry hblock classes, haddress.le, hinside⟩

/-- What is not of the class lies in the other live blocks. -/
theorem other_inBlock
    (hheap : Heap layout globals free (before ++ slabClass :: after) memory live)
    (hentry : entry ∈ live) (hrequest : entry.request ≠ .slab slabClass.index) :
    ∃ block ∈ othersOf layout (before ++ after) live, layout.address block ≤ entry.mem ∧
      entry.mem + entry.request.room ≤ layout.addressStop block := by
  cases hother : entry.request with
  | slab index =>
      obtain ⟨other, hclass, rfl⟩ := hheap.owned entry hentry index hother
      have hrest : other ∈ before ++ after := by
        have hne : other ≠ slabClass := by
          rintro rfl
          exact hrequest hother
        exact (mem_middle.mp hclass).resolve_left hne
      obtain ⟨block, hblock, hinside⟩ := hheap.small_inBlock hclass hentry hother
      rw [hother] at hinside
      exact ⟨block, List.mem_append_left _ (List.mem_flatMap.mpr ⟨other, hrest, hblock⟩), hinside⟩
  | buddy pages =>
      obtain ⟨block, hblock, haddress, hinside⟩ := hheap.big_inBlock hentry hother
      rw [hother] at hinside
      exact ⟨block, big_mem hentry hblock _, haddress.le, hinside⟩

/-- The bytes of a live block are no slab's own. -/
theorem region_not_own (hheap : Heap layout globals free classes memory live)
    (hclass : slabClass ∈ classes) (hentry : entry ∈ live) {query : ℕ}
    (hlower : entry.mem ≤ query) (hupper : query < entry.mem + entry.request.room) :
    ¬ OwnByte slabClass.shape slabClass.caches query := by
  by_cases hrequest : entry.request = .slab slabClass.index
  · rw [hheap.room_eq hclass hrequest] at hupper
    exact object_not_own (hheap.intact slabClass hclass).settled.toCore
      (hheap.mem_objects hclass hentry hrequest) hlower hupper
  · obtain ⟨before, after, rfl⟩ := List.append_of_mem hclass
    obtain ⟨block, hblock, hbegin, hend⟩ := hheap.other_inBlock hentry hrequest
    have honBuddy := hheap.onBuddy
    intro hown
    exact honBuddy.regions.own_not_other honBuddy.represents hown hblock
      ⟨hbegin.trans hlower, hupper.trans_le hend⟩

/-! ## Frames -/

/-- Writing inside live blocks changes nothing the allocators rely on. -/
theorem write (hheap : Heap layout globals free classes memory live)
    (hchange : UnchangedOutside memory memory' fun query =>
      ∃ entry ∈ live, entry.mem ≤ query ∧ query < entry.mem + entry.request.room) :
    Heap layout globals free classes memory' live := by
  refine { hheap with represents := ?_, intact := fun slabClass hclass => ?_ }
  · apply represents_of_inside hheap.represents
    apply hchange.mono
    rintro query ⟨entry, hentry, hlower, hupper⟩
    obtain ⟨block, hblock, hbegin, hend⟩ := hheap.inBlock hentry
    exact ⟨block, hblock, hbegin.trans hlower, hupper.trans_le hend⟩
  · apply (hheap.intact slabClass hclass).congr
    intro query hquery
    apply hchange
    rintro ⟨entry, hentry, hlower, hupper⟩
    exact hheap.region_not_own hclass hentry hlower hupper hquery

/-- What spares the live blocks of the buddy allocator spares the client's. -/
theorem sparesEntries {memory₀ : Memory}
    (hheap : Heap layout globals free classes memory₀ live)
    (hspares : Spares layout (othersOf layout classes live) memory memory') :
    SparesEntries live memory memory' := by
  intro entry hentry offset hoffset
  obtain ⟨block, hblock, hbegin, hend⟩ := hheap.inBlock hentry
  exact hspares block hblock _ ⟨by omega, by omega⟩

/-- What a slab spares of its own objects and of the other live blocks. -/
theorem sparesEntries_of_class {memory₀ : Memory}
    (hheap : Heap layout globals free (before ++ slabClass :: after) memory₀ live)
    (hspares : Spares layout (othersOf layout (before ++ after) live) memory memory')
    (hobjects : SparesObjects slabClass.shape slabClass.caches memory memory') :
    SparesEntries live memory memory' := by
  intro entry hentry offset hoffset
  by_cases hrequest : entry.request = .slab slabClass.index
  · have hclass : slabClass ∈ before ++ slabClass :: after := by simp
    rw [hheap.room_eq hclass hrequest] at hoffset
    exact hobjects entry.mem (hheap.mem_objects hclass hentry hrequest) _ (by omega) (by omega)
  · obtain ⟨block, hblock, hbegin, hend⟩ := hheap.other_inBlock hentry hrequest
    exact hspares block hblock _ ⟨by omega, by omega⟩

/-! ## The allocators' calls -/

theorem perm (hheap : Heap layout globals free classes memory live) {live' : List Entry}
    (hperm : live.Perm live') : Heap layout globals free classes memory live' :=
  { hheap with
    represents := hheap.represents.perm_live ((hperm.filterMap _).append_left _)
    objects := fun slabClass hclass =>
      (hperm.symm.filterMap _).trans (hheap.objects slabClass hclass)
    owned := fun entry hentry => hheap.owned entry (hperm.mem_iff.mpr hentry)
    located := fun entry hentry => hheap.located entry (hperm.mem_iff.mpr hentry) }

/-- What spares the blocks of the other classes leaves those classes intact. -/
theorem intact_of_spares
    (hheap : Heap layout globals free (before ++ slabClass :: after) memory live)
    (hspares : Spares layout (othersOf layout (before ++ after) live) memory memory')
    (hother : other ∈ before ++ after) : other.Intact layout globals memory' := by
  have hintact := hheap.intact other (mem_middle.mpr (.inr hother))
  apply hintact.congr
  intro query hquery
  obtain ⟨block, hblock, hinside⟩ := hintact.regions.own_inBlock hquery
  exact hspares block (List.mem_append_left _ (List.mem_flatMap.mpr ⟨other, hother, hblock⟩))
    query hinside

/-- A class that goes on keeps its index, so every index still has its class. -/
theorem exists_index_goOn {regions' : List Block} {caches' : List Cache} {index : ℕ}
    (hindex : ∃ other ∈ before ++ slabClass :: after, other.index = index) :
    ∃ other ∈ before ++ slabClass.goOn regions' caches' :: after, other.index = index := by
  obtain ⟨other, hother, rfl⟩ := hindex
  rcases mem_middle.mp hother with rfl | hrest
  · exact ⟨_, mem_middle.mpr (.inl rfl), rfl⟩
  · exact ⟨other, mem_middle.mpr (.inr hrest), rfl⟩

/-- One class goes on with other regions and caches, and live blocks of that
class come or go. -/
theorem replace (hheap : Heap layout globals free (before ++ slabClass :: after) memory live)
    {live' : List Entry} {free' regions' : List Block} {caches' : List Cache}
    (honBuddy : OnBuddy layout slabClass.shape memory' free' regions'
      (othersOf layout (before ++ after) live) caches')
    (hspares : Spares layout (othersOf layout (before ++ after) live) memory memory')
    (hbig : live'.filterMap (bigBlock layout) = live.filterMap (bigBlock layout))
    (hsmall : ∀ index ≠ slabClass.index,
      live'.filterMap (smallBlock index) = live.filterMap (smallBlock index))
    (hobjects : (live'.filterMap (smallBlock slabClass.index)).Perm
      (SlabOps.objects slabClass.shape caches'))
    (hkept : ∀ entry ∈ live', entry ∈ live ∨ entry.request = .slab slabClass.index) :
    Heap layout globals free' (before ++ slabClass.goOn regions' caches' :: after)
      memory' live' := by
  have hclass : slabClass ∈ before ++ slabClass :: after := by simp
  have hold := hheap.intact slabClass hclass
  have hothers : othersOf layout (before ++ after) live' =
      othersOf layout (before ++ after) live := by
    rw [othersOf, othersOf, hbig]
  refine
    { buddy_eq := hheap.buddy_eq
      represents := ?_
      intact := ?_
      distinct := ?_
      covers := fun index hslab => exists_index_goOn (hheap.covers index hslab)
      objects := ?_
      owned := ?_
      located := ?_ }
  · apply honBuddy.represents.perm_live
    rw [← hothers]
    have hperm : (othersOf layout (before ++ slabClass.goOn regions' caches' :: after) live').Perm
        (regions' ++ othersOf layout (before ++ after) live') := othersOf_perm live'
    exact hperm.symm
  · intro other hother
    rcases mem_middle.mp hother with rfl | hother
    · exact
        { index_lt := hold.index_lt
          slab_eq := hold.slab_eq
          size_eq := hold.size_eq
          settled := honBuddy.settled
          regions := honBuddy.regions
          buddy_eq := honBuddy.buddy_eq
          pages_le := honBuddy.pages_le }
    · exact hheap.intact_of_spares hspares hother
  · have hindex : (before ++ slabClass.goOn regions' caches' :: after).map SlabClass.index =
        (before ++ slabClass :: after).map SlabClass.index := by
      simp only [List.map_append, List.map_cons, SlabClass.goOn]
    have hdistinct := List.pairwise_map (R := fun index other : ℕ => index ≠ other)
      |>.mpr hheap.distinct
    rw [← hindex] at hdistinct
    exact List.pairwise_map.mp hdistinct
  · intro other hother
    rcases mem_middle.mp hother with rfl | hother
    · exact hobjects
    · rw [hsmall other.index (hheap.index_ne hother)]
      exact hheap.objects other (mem_middle.mpr (.inr hother))
  · intro entry hentry index hrequest
    apply exists_index_goOn
    rcases hkept entry hentry with hentry | hclassRequest
    · exact hheap.owned entry hentry index hrequest
    · rw [hrequest, Request.slab.injEq] at hclassRequest
      exact ⟨slabClass, hclass, hclassRequest.symm⟩
  · intro entry hentry pages hrequest
    rcases hkept entry hentry with hentry | hclassRequest
    · exact hheap.located entry hentry pages hrequest
    · rw [hrequest] at hclassRequest
      exact absurd hclassRequest (by simp)

theorem filterMap_big_cons {index : ℕ} (hrequest : entry.request = .slab index)
    (live : List Entry) :
    (entry :: live).filterMap (bigBlock layout) = live.filterMap (bigBlock layout) :=
  List.filterMap_cons_none (by simp [bigBlock, hrequest])

theorem filterMap_small_cons_same {index : ℕ} (hrequest : entry.request = .slab index)
    (live : List Entry) :
    (entry :: live).filterMap (smallBlock index) =
      entry.mem :: live.filterMap (smallBlock index) :=
  List.filterMap_cons_some (if_pos hrequest)

theorem filterMap_small_cons_of_ne {index : ℕ} (hrequest : entry.request ≠ .slab index)
    (live : List Entry) :
    (entry :: live).filterMap (smallBlock index) = live.filterMap (smallBlock index) :=
  List.filterMap_cons_none (if_neg hrequest)

/-- `slab_alloc` on the slab of a class. -/
theorem slabAlloc_heap {fuel : ℕ} (hfuel : 2 ≤ fuel)
    (hheap : Heap layout globals free classes memory live) {index : ℕ}
    (hslab : globals.slabs index ≠ 0)
    (hstays : ¬ MovesUp realBuddy memory (globals.slabs index)) (size : ℕ) :
    ∃ mem memory' free' classes',
      slabAlloc fuel realBuddy memory (globals.slabs index) = some (mem, memory') ∧
      SparesEntries live memory memory' ∧
      Heap layout globals free' classes' memory' (if mem = 0 then live
        else ⟨mem + sizeofPenguinMallocHeader, size, mem, .slab index⟩ :: live) := by
  obtain ⟨before, slabClass, after, rfl, rfl⟩ := hheap.split_class hslab
  have hclass : slabClass ∈ before ++ slabClass :: after := by simp
  have hslabEq := (hheap.intact slabClass hclass).slab_eq
  rw [hslabEq] at hstays ⊢
  obtain ⟨taken, replied, mem, memory', free', regions', caches', -, halloc, honBuddy, -, hobjects,
    hspares, hspared⟩ := slabAlloc_onBuddy hfuel hheap.onBuddy hstays
  have hentries := hheap.sparesEntries_of_class hspares hspared
  have hsmall := hheap.objects slabClass hclass
  refine ⟨mem, memory', free', before ++ slabClass.goOn regions' caches' :: after, halloc,
    hentries, ?_⟩
  by_cases hnull : mem = 0
  · rw [if_pos hnull] at hobjects ⊢
    exact hheap.replace honBuddy hspares rfl (fun _ _ => rfl) (hsmall.trans hobjects.symm)
      fun entry hentry => .inl hentry
  · rw [if_neg hnull] at hobjects ⊢
    refine hheap.replace honBuddy hspares (filterMap_big_cons rfl live) ?_ ?_ ?_
    · intro index hne
      exact filterMap_small_cons_of_ne (by simpa using Ne.symm hne) live
    · rw [filterMap_small_cons_same rfl]
      exact (hsmall.cons mem).trans hobjects.symm
    · intro entry hentry
      rcases List.mem_cons.mp hentry with rfl | hentry
      · exact .inr rfl
      · exact .inl hentry

/-- `slab_free` of a live block of a class. -/
theorem slabFree_heap (hheap : Heap layout globals free classes memory (entry :: live))
    {index : ℕ} (hrequest : entry.request = .slab index) (hstays : ¬ MovesDown memory entry.mem)
    (hdestroy : Destroys memory (globals.slabs index) entry.mem →
      (lastCache memory (globals.slabs index) = objectCache memory entry.mem →
        nextCache memory (objectCache memory entry.mem) = 0) ∧
      ReturnsBlock memory globals.buddy (cachesize memory (globals.slabs index))
        (objectCache memory entry.mem)) :
    ∃ memory' free' classes',
      slabFree realBuddy memory (globals.slabs index) entry.mem = some memory' ∧
      SparesEntries live memory memory' ∧
      Heap layout globals free' classes' memory' live := by
  obtain ⟨slabClass, hclass, rfl⟩ := hheap.owned entry List.mem_cons_self index hrequest
  have hslabEq := (hheap.intact slabClass hclass).slab_eq
  have hobject := hheap.mem_objects hclass List.mem_cons_self hrequest
  obtain ⟨before, after, rfl⟩ := List.append_of_mem hclass
  have honBuddy := hheap.onBuddy
  rw [hslabEq, hheap.buddy_eq] at hdestroy
  rw [hslabEq]
  obtain ⟨memory', free', regions', caches', hfree, honBuddy', -, -, hobjects, hspares, hspared⟩ :=
    slabFree_onBuddy honBuddy hobject hstays (fun hdestroys => (hdestroy hdestroys).1)
      fun hdestroys => honBuddy.returns (hdestroy hdestroys).2
  have hsmall := hheap.objects slabClass hclass
  have hrest : (live.filterMap (smallBlock slabClass.index)).Perm
      (SlabOps.objects slabClass.shape caches') := by
    rw [filterMap_small_cons_same hrequest live] at hsmall
    exact (List.perm_cons _).mp (hsmall.trans hobjects)
  have hheap' := hheap.replace honBuddy' hspares (filterMap_big_cons hrequest live).symm
    (fun index hne => (filterMap_small_cons_of_ne (by simpa [hrequest] using Ne.symm hne) live).symm)
    hrest fun other hother => .inl (List.mem_cons_of_mem _ hother)
  refine ⟨memory', free', _, hfree, hheap'.sparesEntries_of_class ?_ hspared, hheap'⟩
  have hbig : othersOf layout (before ++ after) (entry :: live) =
      othersOf layout (before ++ after) live := by
    rw [othersOf, othersOf, filterMap_big_cons hrequest live]
  exact hbig ▸ hspares

/-- A change that leaves the classes' regions alone. -/
theorem congr_big (hheap : Heap layout globals free classes memory live)
    {live' : List Entry} {free' : List Block}
    (hrep : Represents layout memory' free' (othersOf layout classes live'))
    (hspares : Spares layout (classes.flatMap SlabClass.regions) memory memory')
    (hsmall : ∀ index,
      live'.filterMap (smallBlock index) = live.filterMap (smallBlock index))
    (howned : ∀ entry ∈ live', ∀ index, entry.request = .slab index →
      ∃ slabClass ∈ classes, slabClass.index = index)
    (hlocated : ∀ entry ∈ live', ∀ pages, entry.request = .buddy pages →
      Located layout entry.mem pages) :
    Heap layout globals free' classes memory' live' where
  buddy_eq := hheap.buddy_eq
  represents := hrep
  intact := by
    intro slabClass hclass
    have hintact := hheap.intact slabClass hclass
    apply hintact.congr
    intro query hquery
    obtain ⟨block, hblock, hinside⟩ := hintact.regions.own_inBlock hquery
    exact hspares block (List.mem_flatMap.mpr ⟨slabClass, hclass, hblock⟩) query hinside
  distinct := hheap.distinct
  covers := hheap.covers
  objects := fun slabClass hclass => by
    rw [hsmall]
    exact hheap.objects slabClass hclass
  owned := howned
  located := hlocated

theorem fitPages_eq {pages : ℕ} {block : Block} (hheader : Header layout memory)
    (hvalid : block.Valid layout.depth)
    (hfit : bestFitLayer pages (2 ^ layout.depth) = some block.layer) :
    fitPages memory layout.alloc pages = block.size layout.depth := by
  rw [fitPages, fitLayer, hheader.root_eq, hfit, Option.getD_some]
  exact blockSize_eq_size block.index hvalid.1

/-- `buddy_alloc` for a request that its block is large enough for. -/
theorem buddyAlloc_heap (hheap : Heap layout globals free classes memory live) {pages : ℕ}
    (hpages : 1 ≤ pages) (hfits : Suffices memory globals.buddy pages) (size : ℕ) :
    ∃ mem memory' free', buddyAlloc memory globals.buddy pages = some (mem, memory') ∧
      SparesEntries live memory memory' ∧
      Heap layout globals free' classes memory' (if mem = 0 then live
        else ⟨mem + sizeofPenguinMallocHeader, size, mem, .buddy pages⟩ :: live) := by
  rw [hheap.buddy_eq] at hfits ⊢
  rcases buddyAlloc_spec hheap.represents hpages with hnone |
    ⟨block, free', replied, halloc, hfit, hrep, hspares⟩
  · exact ⟨0, memory, free, hnone, fun _ _ _ _ => rfl, by rwa [if_pos rfl]⟩
  · have hvalid := hrep.valid (List.mem_append_left free' List.mem_cons_self)
    have hblock : liveBlock layout ⟨layout.address block, pages⟩ = block := liveBlock_eq hvalid hfit
    refine ⟨_, replied, free', halloc, hheap.sparesEntries hspares, ?_⟩
    rw [if_neg (layout.address_pos block)]
    have hothers : (block :: othersOf layout classes live).Perm (othersOf layout classes
        (⟨layout.address block + sizeofPenguinMallocHeader, size, layout.address block,
          .buddy pages⟩ :: live)) := by
      rw [othersOf, othersOf, List.filterMap_cons_some (b := block) (by simp [bigBlock, hblock])]
      exact List.perm_middle.symm
    refine hheap.congr_big (hrep.perm_live hothers)
      (hspares.mono (List.subset_append_left _ _)) (fun index => ?_) ?_ ?_
    · exact filterMap_small_cons_of_ne (by simp) live
    · intro entry hentry index hrequest
      rcases List.mem_cons.mp hentry with rfl | hentry
      · exact absurd hrequest (by simp)
      · exact hheap.owned entry hentry index hrequest
    · intro entry hentry pages' hrequest
      rcases List.mem_cons.mp hentry with rfl | hentry
      · obtain rfl : pages = pages' := by simpa using hrequest
        refine ⟨by rw [hblock], hpages, ?_⟩
        rw [hblock, ← fitPages_eq hheap.represents.toHeader hvalid hfit]
        refine hfits.resolve_right fun hexhausted => ?_
        have hnull := buddyAlloc_of_exhausted (initialised_of_header hheap.represents.toHeader)
          hpages hexhausted
        rw [halloc, Option.map_some, Option.some.injEq] at hnull
        exact layout.address_pos block hnull
      · exact hheap.located entry hentry pages' hrequest

/-- `buddy_free` of a live block of a large request. -/
theorem buddyFree_heap (hheap : Heap layout globals free classes memory (entry :: live))
    {pages : ℕ} (hrequest : entry.request = .buddy pages)
    (hreturns : ReturnsBlock memory globals.buddy pages entry.mem) :
    ∃ memory' free', buddyFree memory globals.buddy entry.mem = some memory' ∧
      SparesEntries live memory memory' ∧
      Heap layout globals free' classes memory' live := by
  obtain ⟨hmem, hpages, -⟩ := hheap.located entry List.mem_cons_self pages hrequest
  obtain ⟨target, -, hfit⟩ := bestFitLayer_eq_some layout hpages
  have hlayer : bestFitLayer pages (2 ^ layout.depth) =
      some (liveBlock layout ⟨entry.mem, pages⟩).layer := by
    simp only [liveBlock, hfit, Option.getD_some]
  have hbig : bigBlock layout entry = some (liveBlock layout ⟨entry.mem, pages⟩) := by
    simp [bigBlock, hrequest]
  generalize liveBlock layout ⟨entry.mem, pages⟩ = block at hmem hlayer hbig
  have hothers : (othersOf layout classes (entry :: live)).Perm
      (block :: othersOf layout classes live) := by
    rw [othersOf, othersOf, List.filterMap_cons_some hbig]
    exact List.perm_middle
  have hrep := hheap.represents.perm_live hothers
  have hvalid := hrep.valid (List.mem_append_left free List.mem_cons_self)
  rw [hheap.buddy_eq, hmem, returnsBlock_iff hrep.toHeader hvalid hlayer] at hreturns
  obtain ⟨replied, hfree, hrep', hspares⟩ := buddyFree_spec hrep hreturns
  have hheap' : Heap layout globals (block :: free) classes replied live := by
    refine hheap.congr_big hrep' (hspares.mono (List.subset_append_left _ _)) ?_ ?_ ?_
    · exact fun index => (filterMap_small_cons_of_ne (by simp [hrequest]) live).symm
    · exact fun other hother => hheap.owned other (List.mem_cons_of_mem _ hother)
    · exact fun other hother => hheap.located other (List.mem_cons_of_mem _ hother)
  rw [hheap.buddy_eq, hmem]
  exact ⟨replied, _, hfree, hheap'.sparesEntries hspares, hheap'⟩

/-! ## A fresh heap -/

/-- A class whose slab has just been placed in a block of its own. -/
theorem addClass (hheap : Heap layout globals free classes memory []) {shape : Shape}
    {free' : List Block} {block : Block} {index : ℕ}
    (honBuddy : OnBuddy layout shape memory' free' [block] (othersOf layout classes [])
      [SlabGrowth.emptyCache shape.slab])
    (hspares : Spares layout (othersOf layout classes []) memory memory')
    (hindex : index < penguinMallocSlabs) (hsize : shape.size = slabSizeByIndex index)
    (hfresh : ∀ slabClass ∈ classes, slabClass.index < index) :
    Heap layout { globals with slabs := Function.update globals.slabs index shape.slab } free'
      (⟨index, shape, [block], [SlabGrowth.emptyCache shape.slab]⟩ :: classes) memory' [] where
  buddy_eq := hheap.buddy_eq
  represents := honBuddy.represents
  intact := by
    intro slabClass hclass
    rcases List.mem_cons.mp hclass with rfl | hold
    · exact
        { index_lt := hindex
          slab_eq := Function.update_self _ _ _
          size_eq := hsize
          settled := honBuddy.settled
          regions := honBuddy.regions
          buddy_eq := honBuddy.buddy_eq
          pages_le := honBuddy.pages_le }
    · have hintact := hheap.intact slabClass hold
      have hspared : slabClass.Intact layout globals memory' := by
        apply hintact.congr
        intro query hquery
        obtain ⟨other, hother, hinside⟩ := hintact.regions.own_inBlock hquery
        exact hspares other (List.mem_append_left _
          (List.mem_flatMap.mpr ⟨slabClass, hold, hother⟩)) query hinside
      exact
        { hspared with
          slab_eq := (Function.update_of_ne (hfresh slabClass hold).ne _ _).trans hspared.slab_eq }
  distinct := List.pairwise_cons.mpr
    ⟨fun slabClass hclass => (hfresh slabClass hclass).ne', hheap.distinct⟩
  covers := by
    intro other hslab
    by_cases hsame : other = index
    · exact ⟨_, List.mem_cons_self, hsame.symm⟩
    · simp only [Function.update_of_ne hsame] at hslab
      obtain ⟨slabClass, hclass, hclassIndex⟩ := hheap.covers other hslab
      exact ⟨slabClass, List.mem_cons_of_mem _ hclass, hclassIndex⟩
  objects := by
    intro slabClass hclass
    rcases List.mem_cons.mp hclass with rfl | hold
    · exact List.Perm.refl _
    · exact hheap.objects slabClass hold
  owned := by simp
  located := by simp

/-! ## Live blocks share no byte -/

theorem small_apart (hheap : Heap layout globals free classes memory live)
    (hclass : slabClass ∈ classes) :
    live.Pairwise fun entry other => entry.request = .slab slabClass.index →
      other.request = .slab slabClass.index →
      RegionsApart entry.mem entry.request.room other := by
  have hapart := SlabIsolation.objects_apart (hheap.intact slabClass hclass).settled.toCore
  have hsmall := ((hheap.objects slabClass hclass).pairwise_iff Or.symm).mpr hapart
  apply (List.pairwise_filterMap.mp hsmall).imp
  intro entry other hpair hentry hother
  have hobjects : SlabIsolation.ObjectsApart slabClass.shape.size entry.mem other.mem :=
    hpair entry.mem (if_pos hentry) other.mem (if_pos hother)
  rw [SlabIsolation.ObjectsApart] at hobjects
  rw [RegionsApart, hheap.room_eq hclass hentry, hheap.room_eq hclass hother]
  omega

theorem big_apart (hheap : Heap layout globals free classes memory live) :
    live.Pairwise fun entry other => ∀ pages pages', entry.request = .buddy pages →
      other.request = .buddy pages' → RegionsApart entry.mem entry.request.room other := by
  have htiling := hheap.represents.tiling
  have hnodup : (live.filterMap (bigBlock layout)).Nodup :=
    (List.nodup_append.mp (List.nodup_append.mp htiling.nodup).1).2.1
  have hblocks : (live.filterMap (bigBlock layout)).Pairwise
      fun block other => Block.Apart layout.depth block other := by
    apply List.Pairwise.imp_of_mem _ hnodup
    intro block other hblock hother hne
    exact htiling.apart_of_ne (List.mem_append_left _ (List.mem_append_right _ hblock))
      (List.mem_append_left _ (List.mem_append_right _ hother)) hne
  apply List.Pairwise.imp_of_mem _ (List.pairwise_filterMap.mp hblocks)
  intro entry other hentry hother hpair pages pages' hrequest hrequest'
  obtain ⟨block, hblock, haddress, hend⟩ := hheap.big_inBlock hentry hrequest
  obtain ⟨block', hblock', haddress', hend'⟩ := hheap.big_inBlock hother hrequest'
  have hapart := layout.addressStop_le_of_apart (hpair block hblock block' hblock')
  rw [RegionsApart]
  omega

/-- A small block and a block that is not of its class. -/
theorem small_other_apart
    (hheap : Heap layout globals free (before ++ slabClass :: after) memory live)
    {other : Entry} (hentry : entry ∈ live) (hother : other ∈ live)
    (hrequest : entry.request = .slab slabClass.index)
    (hne : other.request ≠ .slab slabClass.index) :
    RegionsApart entry.mem entry.request.room other := by
  have hclass : slabClass ∈ before ++ slabClass :: after := by simp
  obtain ⟨block, hblock, hbegin, hend⟩ := hheap.small_inBlock hclass hentry hrequest
  obtain ⟨block', hblock', hbegin', hend'⟩ := hheap.other_inBlock hother hne
  have htiling := (hheap.represents.perm_live (othersOf_perm live)).tiling
  obtain ⟨first, last, hsplit⟩ := List.append_of_mem hblock
  rw [hsplit] at htiling
  have hperm : (first ++ block :: last ++ othersOf layout (before ++ after) live ++ free).Perm
      (block :: (first ++ last ++ othersOf layout (before ++ after) live ++ free)) := by
    simp only [List.append_assoc, List.cons_append]
    exact List.perm_middle
  have hapart := layout.addressStop_le_of_apart ((htiling.perm hperm).apart
    (List.mem_append_left free (List.mem_append_right (first ++ last) hblock')))
  rw [RegionsApart]
  omega

/-- The regions of the live blocks share no byte. -/
theorem regions_apart (hheap : Heap layout globals free classes memory live) :
    live.Pairwise fun entry other => RegionsApart entry.mem entry.request.room other := by
  have hsymm : ∀ entry other : Entry, RegionsApart entry.mem entry.request.room other →
      RegionsApart other.mem other.request.room entry := fun _ _ hapart => Or.symm hapart
  apply List.pairwise_iff_forall_sublist.mpr
  intro entry other hpair
  have hentry : entry ∈ live := hpair.subset (by simp)
  have hother : other ∈ live := hpair.subset (by simp)
  have hsmall : ∀ {entry other : Entry}, entry ∈ live → other ∈ live → ∀ {index},
      entry.request = .slab index → other.request ≠ .slab index →
      RegionsApart entry.mem entry.request.room other := by
    intro entry other hentry hother index hrequest hne
    obtain ⟨slabClass, hclass, rfl⟩ := hheap.owned entry hentry index hrequest
    obtain ⟨before, after, rfl⟩ := List.append_of_mem hclass
    exact hheap.small_other_apart hentry hother hrequest hne
  cases hrequest : entry.request with
  | slab index =>
      by_cases hsame : other.request = .slab index
      · obtain ⟨slabClass, hclass, rfl⟩ := hheap.owned entry hentry index hrequest
        rw [← hrequest]
        exact (hheap.small_apart hclass).forall_sublist hpair hrequest hsame
      · rw [← hrequest]
        exact hsmall hentry hother hrequest hsame
  | buddy pages =>
      rw [← hrequest]
      cases hrequest' : other.request with
      | slab index =>
          exact hsymm _ _ (hsmall hother hentry hrequest' (by simp [hrequest]))
      | buddy pages' => exact hheap.big_apart.forall_sublist hpair pages pages' hrequest hrequest'

end Heap

end DoomsdayModules.PenguinHeap
