import DoomsdayModules.Malloc.PenguinHeap

/-!
# Runs of the general allocator

Over the real slab and buddy allocators the heap stays intact, and every call
returns, in a run in which no request wraps, every large request gets a block
that it fits or none at all, no class without a slab is asked, no cache changes
places and every block given back to the buddy allocator is a left half.  The live blocks
are then apart from each other and from everything the allocators keep.
-/

namespace DoomsdayModules.PenguinRuns

open DoomsdayModules.ByteMemory DoomsdayModules.Runs DoomsdayModules.Util
open DoomsdayModules.DyadicBlocks DoomsdayModules.BuddyUtil DoomsdayModules.Buddy
open DoomsdayModules.BuddyInvariant DoomsdayModules.BuddyInit
open DoomsdayModules.BuddyFit (Suffices initialised_of_header suffices_one_page)
open DoomsdayModules.Slab DoomsdayModules.SlabInvariant DoomsdayModules.SlabOps
open DoomsdayModules.SlabOnBuddy DoomsdayModules.PenguinMalloc DoomsdayModules.RequestSize
open DoomsdayModules.PenguinOrigin DoomsdayModules.PenguinHeap

/-! ## What a client has to meet -/

/-- What the client of an allocator may do. -/
def Legal (client : Client) : Op → Prop
  | .malloc size => size < wordSize
  | .free ptr => ptr = 0 ∨ ∃ entry ∈ client.live, entry.ptr = ptr
  | .write address _ => ∃ entry ∈ client.live, entry.ptr ≤ address ∧
      address < entry.ptr + entry.size

/-- The class of the request has a slab. -/
def HasSlab (globals : Globals) (size : ℕ) : Prop :=
  bestFitSlabIndex (withHeader size) ≠ buddyIndex →
    globals.slabs (bestFitSlabIndex (withHeader size)) ≠ 0

instance (globals : Globals) (size : ℕ) : Decidable (HasSlab globals size) :=
  inferInstanceAs (Decidable (_ → _))

/-- The conditions under which `penguin_malloc` serves a request soundly. -/
def TameMalloc (globals : Globals) (memory : Memory) (size : ℕ) : Prop :=
  NoWrap size ∧ HasSlab globals size ∧
    (bestFitSlabIndex (withHeader size) ≠ buddyIndex →
      ¬ MovesUp realBuddy memory (globals.slabs (bestFitSlabIndex (withHeader size)))) ∧
    Suffices memory globals.buddy (toPagesCount (withHeader size))

/-- The conditions under which a block is given back soundly. -/
def TameFree (globals : Globals) (memory : Memory) (entry : Entry) : Prop :=
  match entry.request with
  | .slab index => ¬ MovesDown memory entry.mem ∧
      (Destroys memory (globals.slabs index) entry.mem →
        (lastCache memory (globals.slabs index) = objectCache memory entry.mem →
          nextCache memory (objectCache memory entry.mem) = 0) ∧
        ReturnsBlock memory globals.buddy (cachesize memory (globals.slabs index))
          (objectCache memory entry.mem))
  | .buddy pages => ReturnsBlock memory globals.buddy pages entry.mem

instance (globals : Globals) (memory : Memory) (size : ℕ) :
    Decidable (TameMalloc globals memory size) :=
  inferInstanceAs (Decidable (_ ∧ _ ∧ (_ → _) ∧ _))

instance (globals : Globals) (memory : Memory) (entry : Entry) :
    Decidable (TameFree globals memory entry) := by
  unfold TameFree
  cases entry.request with
  | slab index => exact inferInstanceAs (Decidable (_ ∧ (_ → _ ∧ _)))
  | buddy pages => exact inferInstanceAs (Decidable (ReturnsBlock _ _ _ _))

def Tame (globals : Globals) (client : Client) : Op → Prop
  | .malloc size => TameMalloc globals client.memory size
  | .free ptr => ∀ entry ∈ client.live, entry.ptr = ptr → TameFree globals client.memory entry
  | .write _ _ => True

instance (client : Client) : ∀ op, Decidable (Legal client op)
  | .malloc _ => inferInstanceAs (Decidable (_ < _))
  | .free _ => inferInstanceAs (Decidable (_ ∨ ∃ entry ∈ client.live, _))
  | .write _ _ => inferInstanceAs (Decidable (∃ entry ∈ client.live, _))

instance (globals : Globals) (client : Client) : ∀ op, Decidable (Tame globals client op)
  | .malloc _ => inferInstanceAs (Decidable (TameMalloc _ _ _))
  | .free _ => inferInstanceAs (Decidable (∀ entry ∈ client.live, _ → _))
  | .write _ _ => isTrue trivial

/-! ## One step -/

variable {layout : Layout} {globals : Globals} {free : List Block}
  {classes : List SlabClass} {memory memory' : Memory} {live : List Entry} {client : Client}
  {fuel size : ℕ}

/-- The heap is intact and the headers of the live blocks are in place. -/
structure Sound (layout : Layout) (globals : Globals) (client : Client) : Prop where
  heap : ∃ free classes, Heap layout globals free classes client.memory client.live
  entries : ∀ entry ∈ client.live, entry.Recorded client.memory

/-- A request of a class is for one page. -/
theorem toPagesCount_of_class (hwrap : NoWrap size)
    (hclass : bestFitSlabIndex (withHeader size) ≠ buddyIndex) :
    toPagesCount (withHeader size) = 1 := by
  have hsmall : withHeader size < 4096 := by
    by_contra hlarge
    exact hclass (bestFitSlabIndex_buddy (not_lt.mp hlarge))
  rw [withHeader_eq hwrap] at hsmall ⊢
  simp only [toPagesCount, pageSize, wordSize]
  omega

/-- The calls for memory, up to the check that there is a block. -/
theorem penguinTake_heap (hfuel : 2 ≤ fuel)
    (hheap : Heap layout globals free classes memory live)
    (htame : TameMalloc globals memory size) :
    ∃ taken request free' classes',
      penguinTake (realAllocators fuel) globals memory size = some taken ∧
      (requests (realAllocators fuel) globals memory size).getLast? = some request ∧
      request ∈ requests (realAllocators fuel) globals memory size ∧
      taken.index = request.index ∧
      (∀ index, request = .slab index → index < penguinMallocSlabs) ∧
      SparesEntries live memory taken.memory ∧
      Heap layout globals free' classes' taken.memory (if taken.mem = 0 then live
        else ⟨taken.mem + sizeofPenguinMallocHeader, size, taken.mem, request⟩ :: live) := by
  obtain ⟨hwrap, hslab, hstays, hfits⟩ := htame
  have hpages : 1 ≤ toPagesCount (withHeader size) := by
    rw [withHeader_eq hwrap]
    simp only [NoWrap, sizeofPenguinMallocHeader, pageSize, wordSize] at hwrap
    simp only [toPagesCount, pageSize, wordSize]
    omega
  by_cases hclass : bestFitSlabIndex (withHeader size) = buddyIndex
  · obtain ⟨mem, memory', free', halloc, hspares, hheap'⟩ :=
      hheap.buddyAlloc_heap hpages hfits size
    have hturn : takeSlab (realAllocators fuel) globals memory
        (bestFitSlabIndex (withHeader size)) = some (0, memory) := if_neg (not_not.mpr hclass)
    have halloc' : (realAllocators fuel).buddy.alloc memory globals.buddy
        (toPagesCount (withHeader size)) = some (mem, memory') := halloc
    refine ⟨⟨mem, buddyIndex, memory'⟩, .buddy (toPagesCount (withHeader size)), free', classes,
      ?_, ?_, ?_, rfl, by simp, hspares, hheap'⟩
    · simp only [penguinTake, hturn, Option.bind_eq_bind, Option.bind_some, if_pos, halloc']
      rfl
    · simp only [requests, hturn, if_neg (not_not.mpr hclass)]
      rfl
    · simp only [requests, hturn, if_neg (not_not.mpr hclass), List.mem_singleton]
  · obtain ⟨mem, replied, free', classes', halloc, hspares, hheap'⟩ :=
      hheap.slabAlloc_heap hfuel (hslab hclass) (hstays hclass) size
    have hturn : takeSlab (realAllocators fuel) globals memory
        (bestFitSlabIndex (withHeader size)) = some (mem, replied) := (if_pos hclass).trans halloc
    have hspec := (bestFitSlabIndex_spec (withHeader size)).resolve_left fun hb => hclass hb.1
    by_cases hnull : mem = 0
    · subst hnull
      rw [if_pos rfl] at hheap'
      have hfits' : Suffices replied globals.buddy (toPagesCount (withHeader size)) := by
        rw [toPagesCount_of_class hwrap hclass, hheap'.buddy_eq]
        exact suffices_one_page (initialised_of_header hheap'.represents.toHeader)
      obtain ⟨mem, memory', free'', halloc', hspares', hheap''⟩ :=
        hheap'.buddyAlloc_heap hpages hfits' size
      have halloc'' : (realAllocators fuel).buddy.alloc replied globals.buddy
          (toPagesCount (withHeader size)) = some (mem, memory') := halloc'
      refine ⟨⟨mem, buddyIndex, memory'⟩, .buddy (toPagesCount (withHeader size)), free'',
        classes', ?_, ?_, ?_, rfl, by simp, hspares.trans hspares', hheap''⟩
      · simp only [penguinTake, hturn, Option.bind_eq_bind, Option.bind_some, if_pos, halloc'']
        rfl
      · simp only [requests, hturn, if_pos hclass]
        rfl
      · simp only [requests, hturn, if_pos hclass]
        simp
    · refine ⟨⟨mem, bestFitSlabIndex (withHeader size), replied⟩,
        .slab (bestFitSlabIndex (withHeader size)), free', classes', ?_, ?_, ?_, rfl, ?_, hspares,
        hheap'⟩
      · simp only [penguinTake, hturn, Option.bind_eq_bind, Option.bind_some, if_neg hnull]
        rfl
      · rw [requests_of_served hclass hturn hnull]
        rfl
      · rw [requests_of_served hclass hturn hnull]
        exact List.mem_cons_self
      · rintro index ⟨⟩
        exact hspec.1

theorem Sound.recorded (hsound : Sound layout globals client) : Recorded client := by
  obtain ⟨free, classes, hheap⟩ := hsound.heap
  exact ⟨hsound.entries, hheap.regions_apart⟩

/-- A served request: the header word lies in the new block. -/
theorem malloc_step (hfuel : 2 ≤ fuel) (hsound : Sound layout globals client)
    (htame : TameMalloc globals client.memory size) :
    ∃ next, step (realAllocators fuel) globals client (.malloc size) = some next ∧
      Sound layout globals next := by
  obtain ⟨free, classes, hheap⟩ := hsound.heap
  obtain ⟨taken, request, free', classes', htake, hlast, hrequest, hindex, hclass, hspares,
    hheap'⟩ := penguinTake_heap hfuel hheap htame
  by_cases hnull : taken.mem = 0
  · rw [if_pos hnull] at hheap'
    refine ⟨⟨taken.memory, client.live⟩, ?_, ⟨free', classes', hheap'⟩, ?_⟩
    · simp only [step, penguinMalloc, htake, hlast, Option.bind_eq_bind, Option.bind_some,
        if_pos hnull]
      rfl
    · exact fun entry hentry => (hsound.entries entry hentry).frame (hspares entry hentry)
  · rw [if_neg hnull] at hheap'
    have henough := room_of_enough (enough_of_noWrap htame.1 hrequest)
    have hheaderRoom : sizeofPenguinMallocHeader ≤ request.room := by omega
    have hindexLt : taken.index < wordSize := by
      rw [hindex]
      exact index_lt hclass
    have hapart := (List.pairwise_cons.mp hheap'.regions_apart).1
    have hspares' : SparesEntries client.live client.memory
        (writeWord taken.memory taken.mem taken.index) :=
      hspares.trans (spares_writeHeader hheaderRoom hapart)
    have hptr : taken.mem + sizeofPenguinMallocHeader ≠ 0 := by
      simp [sizeofPenguinMallocHeader]
    refine ⟨⟨writeWord taken.memory taken.mem taken.index,
      ⟨taken.mem + sizeofPenguinMallocHeader, size, taken.mem, request⟩ :: client.live⟩, ?_,
      ⟨free', classes', hheap'.write ?_⟩, ?_⟩
    · simp only [step, penguinMalloc, htake, hlast, Option.bind_eq_bind, Option.bind_some,
        if_neg hnull, Option.pure_def, if_neg hptr]
    · apply (writeWord_unchangedOutside taken.memory taken.mem taken.index).mono
      rintro query ⟨hlower, hupper⟩
      simp only [sizeofPenguinMallocHeader] at hheaderRoom
      exact ⟨_, List.mem_cons_self, hlower, by dsimp only; omega⟩
    · intro entry hentry
      rcases List.mem_cons.mp hentry with rfl | hentry
      · exact
          { ptr_eq := rfl
            enough := henough
            header_eq := (readWord_writeWord_same hindexLt).trans hindex
            class_lt := hclass }
      · exact (hsound.entries entry hentry).frame (hspares' entry hentry)

/-- The header sends a live block to the allocator that gets it back. -/
theorem penguinFree_eq {entry : Entry} (hrecorded : entry.Recorded client.memory) :
    penguinFree (realAllocators fuel) globals client.memory entry.ptr =
      match entry.request with
      | .slab index => slabFree realBuddy client.memory (globals.slabs index) entry.mem
      | .buddy _ => buddyFree client.memory globals.buddy entry.mem := by
  have hptr : entry.ptr ≠ 0 := by
    rw [hrecorded.ptr_eq]
    simp [sizeofPenguinMallocHeader]
  rw [penguinFree_eq_freeCall _ _ _ hptr, hrecorded.freeCall_eq]
  cases entry.request with
  | slab index => rfl
  | buddy pages => rfl

theorem free_step (hsound : Sound layout globals client) {ptr : ℕ}
    (hlegal : Legal client (.free ptr)) (htame : Tame globals client (.free ptr)) :
    ∃ next, step (realAllocators fuel) globals client (.free ptr) = some next ∧
      Sound layout globals next := by
  obtain ⟨free, classes, hheap⟩ := hsound.heap
  by_cases hmem : ∃ entry ∈ client.live, entry.ptr = ptr
  · obtain ⟨witness, hwitness, hptr⟩ := hmem
    obtain ⟨entry, before, after, -, hentry, hsplit, herase⟩ :=
      List.exists_of_eraseP (p := fun entry : Entry => decide (entry.ptr = ptr)) hwitness
        (decide_eq_true hptr)
    obtain rfl := of_decide_eq_true hentry
    have hperm : client.live.Perm (entry :: (before ++ after)) := hsplit ▸ List.perm_middle
    have hentryMem : entry ∈ client.live := hperm.mem_iff.mpr List.mem_cons_self
    have hheap' := hheap.perm hperm
    have hgive := htame entry hentryMem rfl
    have hfreed : ∃ memory' free' classes',
        penguinFree (realAllocators fuel) globals client.memory entry.ptr = some memory' ∧
        SparesEntries (before ++ after) client.memory memory' ∧
        Heap layout globals free' classes' memory' (before ++ after) := by
      rw [penguinFree_eq (hsound.entries entry hentryMem)]
      cases hrequest : entry.request with
      | slab index =>
          simp only [TameFree, hrequest] at hgive
          exact hheap'.slabFree_heap hrequest hgive.1 hgive.2
      | buddy pages =>
          simp only [TameFree, hrequest] at hgive
          obtain ⟨memory', free', hfree, hspares, hrest⟩ := hheap'.buddyFree_heap hrequest hgive
          exact ⟨memory', free', classes, hfree, hspares, hrest⟩
    obtain ⟨memory', free', classes', hfree, hspares, hrest⟩ := hfreed
    refine ⟨⟨memory', before ++ after⟩, ?_, ⟨free', classes', hrest⟩, ?_⟩
    · simp only [step, hfree, Option.map_some, herase]
    · intro other hother
      exact (hsound.entries other (hperm.mem_iff.mpr (List.mem_cons_of_mem _ hother))).frame
        (hspares other hother)
  · obtain rfl := hlegal.resolve_right hmem
    have hnone : client.live.eraseP (fun entry => entry.ptr = 0) = client.live := by
      apply List.eraseP_of_forall_not
      intro entry hentry hptr
      exact hmem ⟨entry, hentry, of_decide_eq_true hptr⟩
    refine ⟨client, ?_, hsound⟩
    simp only [step, penguinFree, if_pos, Option.map_some, hnone]

theorem write_step (hsound : Sound layout globals client) {address : ℕ} {byte : UInt8}
    (hlegal : Legal client (.write address byte)) :
    ∃ next, step (realAllocators fuel) globals client (.write address byte) = some next ∧
      Sound layout globals next := by
  obtain ⟨free, classes, hheap⟩ := hsound.heap
  have hstep : step (realAllocators fuel) globals client (.write address byte) =
      some ⟨writeByte client.memory address byte, client.live⟩ := rfl
  have hrecorded := PenguinOrigin.write_step hsound.recorded hlegal hstep
  refine ⟨_, hstep, ⟨free, classes, hheap.write ?_⟩, hrecorded.entries⟩
  obtain ⟨owner, howner, hlower, hupper⟩ := hlegal
  have hptr := (hsound.entries owner howner).ptr_eq
  have henough := (hsound.entries owner howner).enough
  intro query houtside
  apply writeByte_of_ne
  rintro rfl
  exact houtside ⟨owner, howner, by omega, by omega⟩

theorem step_sound (hfuel : 2 ≤ fuel) (hsound : Sound layout globals client) {op : Op}
    (hlegal : Legal client op) (htame : Tame globals client op) :
    ∃ next, step (realAllocators fuel) globals client op = some next ∧
      Sound layout globals next := by
  cases op with
  | malloc size => exact malloc_step hfuel hsound htame
  | free ptr => exact free_step hsound hlegal htame
  | write address byte => exact write_step hsound hlegal

/-! ## Initialisation -/

/-- The loop of `penguin_malloc_init` sets up a slab for each class that the
buddy allocator has a region for. -/
theorem initSlabs_heap (hroot : 64 ≤ 2 ^ layout.depth) (count : ℕ) :
    ∀ (index : ℕ) {globals : Globals} {free : List Block} {classes : List SlabClass}
      {memory : Memory}, index + count ≤ penguinMallocSlabs →
      Heap layout globals free classes memory [] →
      (∀ slabClass ∈ classes, slabClass.index < index) →
      (∀ other, index ≤ other → globals.slabs other = 0) →
      ∃ globals' memory' free' classes',
        initSlabs realBuddy count index globals memory = some (globals', memory') ∧
        Heap layout globals' free' classes' memory' [] := by
  induction count with
  | zero => exact fun index globals free classes memory _ hheap _ _ =>
      ⟨globals, memory, free, classes, rfl, hheap⟩
  | succ count ih =>
      intro index globals free classes memory hcount hheap hbelow hempty
      have hindex : index < penguinMallocSlabs := by omega
      have hobject : slabSizeByIndex index + sizeofSlabAllocatedObjectHeader < wordSize := by
        rw [slabSizeByIndex_eq]
        have hpower : 2 ^ (index + 5) ≤ 2 ^ 12 := Nat.pow_le_pow_right (by norm_num) (by
          simp only [penguinMallocSlabs] at hindex
          omega)
        simp only [sizeofSlabAllocatedObjectHeader, wordSize]
        omega
      have hpages : slabCachePages (slabSizeByIndex index + sizeofSlabAllocatedObjectHeader) ≤
          2 ^ layout.depth := by
        refine le_trans ?_ hroot
        rw [slabCachePages]
        split_ifs <;> norm_num [slabMinCachePages, slabMinCacheObjects]
      have hrest : ∀ (slab other : ℕ), index + 1 ≤ other →
          Function.update globals.slabs index slab other = 0 := by
        intro slab other hother
        rw [Function.update_of_ne (by omega)]
        exact hempty other (by omega)
      simp only [initSlabs, hheap.buddy_eq, Option.bind_eq_bind]
      rcases slabInit_onBuddy hheap.represents hobject hpages with hnone |
        ⟨shape, memory', free', block, hsize, hinit, honBuddy, -, hspares⟩
      · rw [hnone, Option.bind_some]
        have hsame : { globals with slabs := Function.update globals.slabs index 0 } = globals := by
          rw [← hempty index le_rfl, Function.update_eq_self]
        have hheap' : Heap layout { globals with slabs := Function.update globals.slabs index 0 }
            free classes memory [] := by rwa [hsame]
        rw [← hheap.buddy_eq]
        exact ih (index + 1) (by omega) hheap'
          (fun slabClass hclass => (hbelow slabClass hclass).trans_le (Nat.le_succ _)) (hrest 0)
      · rw [hinit, Option.bind_some, ← hheap.buddy_eq]
        refine ih (index + 1) (by omega) (hheap.addClass honBuddy hspares hindex hsize hbelow) ?_
          (hrest shape.slab)
        intro slabClass hclass
        rcases List.mem_cons.mp hclass with rfl | hold
        · exact Nat.lt_succ_self _
        · exact (hbelow slabClass hold).trans_le (Nat.le_succ _)

/-- A well-sized pool whose root block has room for a slab. -/
theorem penguinMallocInit_sound {memory₀ : Memory} (hroot : 64 ≤ 2 ^ layout.depth)
    (hrep : Represents layout memory₀ [rootBlock] []) :
    ∃ globals memory₁, penguinMallocInit realBuddy memory₀ layout.alloc =
        some (globals, memory₁) ∧ Sound layout globals ⟨memory₁, []⟩ := by
  have hheap : Heap layout ⟨layout.alloc, fun _ => 0⟩ [rootBlock] [] memory₀ [] :=
    { buddy_eq := rfl
      represents := hrep
      intact := by simp
      distinct := List.Pairwise.nil
      covers := fun _ hslab => absurd rfl hslab
      objects := by simp
      owned := by simp
      located := by simp }
  obtain ⟨globals, memory₁, free, classes, hinit, hheap'⟩ :=
    initSlabs_heap hroot penguinMallocSlabs 0 (Nat.le_of_eq (Nat.zero_add _)) hheap (by simp)
      fun _ _ => rfl
  exact ⟨globals, memory₁, hinit, ⟨free, classes, hheap'⟩, by simp⟩

/-! ## A pool with all slabs -/

/-- A well-sized pool with a root block of 1024 pages, half of them for slabs. -/
def widePool : Memory := ((buddyInit (fun _ => 0) 4096 8392704).getD (0, fun _ => 0)).2

theorem buddyInit_widePool :
    buddyInit (fun _ => 0) 4096 8392704 = some (4096, widePool) := by
  have hfst : (buddyInit (fun _ => 0) 4096 8392704).map Prod.fst = some 4096 := by decide +kernel
  obtain ⟨⟨alloc, memory⟩, hinit, rfl⟩ := Option.map_eq_some_iff.mp hfst
  rw [widePool, hinit]
  rfl

theorem widePool_wellSized : WellSized widePool 4096 :=
  ⟨10, by decide +kernel, by decide +kernel, by decide +kernel⟩

theorem rootBlockSize_widePool : 64 ≤ rootBlockSize widePool 4096 := by decide +kernel

def wideReady : Option (Globals × Memory) := penguinMallocInit realBuddy widePool 4096

def wideGlobals : Globals := (wideReady.map Prod.fst).getD ⟨0, fun _ => 0⟩

def wideMemory : Memory := (wideReady.map Prod.snd).getD fun _ => 0

theorem penguinMallocInit_widePool :
    penguinMallocInit realBuddy widePool 4096 = some (wideGlobals, wideMemory) := by
  have hdefined : (penguinMallocInit realBuddy widePool 4096).isSome := by decide +kernel
  obtain ⟨⟨globals, memory⟩, hready⟩ := Option.isSome_iff_exists.mp hdefined
  rw [wideGlobals, wideMemory, wideReady, hready]
  rfl

end DoomsdayModules.PenguinRuns
