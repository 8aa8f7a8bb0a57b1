import DoomsdayModules.Malloc.BuddyInvariant

/-!
# The free lists of the buddy allocator

What `buddy_alloc` and `buddy_free` do to the free lists, without a word about
the bitmap: the lists hold blocks of their layers that share no page, a pop
takes the first block of a list away, and a push adds a block that shares no
page with those that are there.
-/

namespace DoomsdayModules.BuddyLists

open DoomsdayModules.ByteMemory DoomsdayModules.Util DoomsdayModules.BuddyUtil
open DoomsdayModules.IntrusiveStack DoomsdayModules.Freelist
open DoomsdayModules.DyadicBlocks DoomsdayModules.Buddy DoomsdayModules.BuddyInvariant

/-- Where an allocator keeps its tables and its pages.  The bitmap starts
behind the free-list heads; how far it reaches is left open. -/
structure Site where
  alloc : ℕ
  freelist : ℕ
  bitmap : ℕ
  layers : ℕ
  begin_ : ℕ
  depth : ℕ
  alloc_pos : 0 < alloc
  header_le : alloc + sizeofBuddyAlloc ≤ freelist
  heads_le : freelist + 8 * layers ≤ bitmap
  bitmap_le : bitmap ≤ begin_
  room : pageAddress begin_ (2 ^ depth) < wordSize

namespace Site

variable (site : Site)

def address (block : Block) : ℕ := pageAddress site.begin_ (block.start site.depth)

def slot (layer : ℕ) : ℕ := site.freelist + 8 * layer

/-- A byte of the word that links a free block to the next one. -/
def LinkByte (block : Block) (query : ℕ) : Prop :=
  site.address block ≤ query ∧ query < site.address block + 8

instance (block : Block) (query : ℕ) : Decidable (site.LinkByte block query) :=
  inferInstanceAs (Decidable (_ ∧ _))

theorem begin_le_address (block : Block) : site.begin_ ≤ site.address block :=
  Nat.le_add_right _ _

theorem slot_bounds {layer : ℕ} (hlayer : layer < site.layers) :
    site.alloc + sizeofBuddyAlloc ≤ site.slot layer ∧ site.slot layer + 8 ≤ site.bitmap := by
  have hheader := site.header_le
  have hheads := site.heads_le
  simp only [slot]
  omega

theorem slot_ne_zero (layer : ℕ) : site.slot layer ≠ 0 := by
  have hpos := site.alloc_pos
  have hheader := site.header_le
  simp only [slot]
  omega

theorem address_ne_zero (block : Block) : site.address block ≠ 0 := by
  have hbegin := site.begin_le_address block
  have hbitmap := site.bitmap_le
  have hheads := site.heads_le
  have hheader := site.header_le
  have hpos := site.alloc_pos
  omega

theorem address_lt {block : Block} (hvalid : block.Valid site.depth) :
    site.address block < 2 ^ 64 := by
  have hpages := (block.start_lt_stop site.depth).le.trans (Block.stop_le hvalid)
  exact (Nat.add_le_add_left (Nat.mul_le_mul_right _ hpages) _).trans_lt site.room

theorem slot_apart_address {layer : ℕ} (hlayer : layer < site.layers) (block : Block) :
    WordsApart (site.slot layer) (site.address block) := by
  have hslot := site.slot_bounds hlayer
  have hbegin := site.begin_le_address block
  have hbitmap := site.bitmap_le
  exact .inl (by omega)

/-- Blocks that share no page have their links in different words. -/
theorem links_apart {block other : Block} (hapart : Block.Apart site.depth block other) :
    WordsApart (site.address block) (site.address other) := by
  have hpages := block.start_lt_stop site.depth
  have hpages' := other.start_lt_stop site.depth
  simp only [WordsApart, address, pageAddress, pageSize, Block.Apart] at *
  omega

end Site

/-- The words of the `buddy_alloc_t`. -/
structure SiteHeader (site : Site) (memory : Memory) : Prop where
  bitmap_eq : bitmap memory site.alloc = site.bitmap
  freelist_eq : freelist memory site.alloc = site.freelist
  layers_eq : buddyLayers memory site.alloc = site.layers
  root_eq : rootBlockSize memory site.alloc = 2 ^ site.depth
  begin_eq : poolBegin memory site.alloc = site.begin_

/-- The free lists hold these blocks, each on the list of its layer, and no two
of them share a page. -/
structure FreeBlocks (site : Site) (memory : Memory) (free : List Block) : Prop
    extends SiteHeader site memory where
  lists : ∀ layer < site.layers, IsStack memory (readWord memory (site.slot layer))
    ((freeAt free layer).map site.address)
  valid : ∀ block ∈ free, block.Valid site.depth ∧ block.layer < site.layers
  apart : free.Pairwise (Block.Apart site.depth)

variable {site : Site} {memory memory' : Memory} {free : List Block} {block : Block}

theorem SiteHeader.slot_eq (hheader : SiteHeader site memory) (layer : ℕ) :
    freelistSlot memory site.alloc layer = site.slot layer := by
  rw [freelistSlot, hheader.freelist_eq, Site.slot]

theorem SiteHeader.frame (hheader : SiteHeader site memory)
    (hagree : AgreeOn memory memory' site.alloc (site.alloc + sizeofBuddyAlloc)) :
    SiteHeader site memory' := by
  have hfield : ∀ offset, offset + 8 ≤ sizeofBuddyAlloc →
      readWord memory' (site.alloc + offset) = readWord memory (site.alloc + offset) :=
    fun offset hoffset => readWord_congr (hagree.mono (by omega) (by omega))
  simp only [sizeofBuddyAlloc] at hfield
  exact
    { bitmap_eq := (hfield 0 (by omega)).trans hheader.bitmap_eq
      freelist_eq := (hfield 8 (by omega)).trans hheader.freelist_eq
      layers_eq := (hfield 16 (by omega)).trans hheader.layers_eq
      root_eq := (hfield 32 (by omega)).trans hheader.root_eq
      begin_eq := (hfield 40 (by omega)).trans hheader.begin_eq }

namespace FreeBlocks

/-- One list whose head and whose links are as they were. -/
theorem list_frame (hfree : FreeBlocks site memory free) {layer : ℕ} (hlayer : layer < site.layers)
    (hslot : AgreeOn memory memory' (site.slot layer) (site.slot layer + 8))
    (hlinks : ∀ other ∈ freeAt free layer,
      AgreeOn memory memory' (site.address other) (site.address other + 8)) :
    IsStack memory' (readWord memory' (site.slot layer))
      ((freeAt free layer).map site.address) := by
  rw [readWord_congr hslot]
  apply (hfree.lists layer hlayer).frame
  intro node hnode
  obtain ⟨other, hother, rfl⟩ := List.mem_map.mp hnode
  exact readWord_congr (hlinks other hother)

/-- The lists read the header, the heads and the links of the free blocks. -/
theorem frame (hfree : FreeBlocks site memory free)
    (htables : AgreeOn memory memory' site.alloc site.bitmap)
    (hlinks : ∀ other ∈ free, ∀ query, site.LinkByte other query →
      memory' query = memory query) : FreeBlocks site memory' free := by
  have hheader := site.header_le
  have hheads := site.heads_le
  refine
    { hfree.toSiteHeader.frame (htables.mono le_rfl (by omega)) with
      lists := fun layer hlayer => ?_
      valid := hfree.valid
      apart := hfree.apart }
  have hslot := site.slot_bounds hlayer
  exact hfree.list_frame hlayer (htables.mono (by omega) (by omega)) fun other hother =>
    fun query hlower hupper => hlinks other (mem_freeAt.mp hother).1 query ⟨hlower, hupper⟩

/-- Popping the first block of a list takes it away. -/
theorem pop (hfree : FreeBlocks site memory free) {rest : List Block}
    (hhead : freeAt free block.layer = block :: rest) :
    (freelistPop memory (site.slot block.layer)).1 = site.address block ∧
      FreeBlocks site (freelistPop memory (site.slot block.layer)).2 (free.erase block) := by
  have hmem : block ∈ free := (mem_freeAt.mp (hhead ▸ List.mem_cons_self)).1
  obtain ⟨-, hlayer⟩ := hfree.valid block hmem
  have hslot := site.slot_bounds hlayer
  have hlist := hfree.lists block.layer hlayer
  rw [hhead, List.map_cons] at hlist
  have hchange := freelistPop_unchangedOutside memory (site.slot block.layer)
  obtain ⟨hptr, hpopped⟩ := freelistPop_cons hlist (site.slot_ne_zero _) (by
    intro node hnode
    obtain ⟨other, -, rfl⟩ := List.mem_map.mp hnode
    exact site.slot_apart_address hlayer other)
  refine ⟨hptr,
    { hfree.toSiteHeader.frame (hchange.agreeOn fun query hlower hupper => by omega) with
      lists := fun layer hlayer' => ?_
      valid := fun other hother => hfree.valid other (List.mem_of_mem_erase hother)
      apart := hfree.apart.sublist List.erase_sublist }⟩
  rw [freeAt_erase]
  by_cases hsame : layer = block.layer
  · subst hsame
    rw [hhead, List.erase_cons_head]
    exact hpopped
  · have hnot : block ∉ freeAt free layer := fun hin => hsame (mem_freeAt.mp hin).2.symm
    rw [List.erase_of_not_mem hnot]
    apply hfree.list_frame hlayer'
    · apply hchange.agreeOn
      intro query hlower hupper
      simp only [Site.slot] at hlower hupper ⊢
      omega
    · intro other _
      have hbegin := site.begin_le_address other
      have hbitmap := site.bitmap_le
      apply hchange.agreeOn
      intro query hlower hupper
      omega

/-- Pushing a block that shares no page with the free ones adds it. -/
theorem push (hfree : FreeBlocks site memory free) (hvalid : block.Valid site.depth)
    (hlayer : block.layer < site.layers)
    (hapart : ∀ other ∈ free, Block.Apart site.depth block other) :
    FreeBlocks site (freelistPush memory (site.slot block.layer) (site.address block))
      (block :: free) := by
  have hslot := site.slot_bounds hlayer
  have hbegin := site.begin_le_address block
  have hbitmap := site.bitmap_le
  have hchange := freelistPush_unchangedOutside memory (site.slot block.layer)
    (site.address block)
  refine
    { hfree.toSiteHeader.frame (hchange.agreeOn fun query hlower hupper => by omega) with
      lists := fun layer hlayer' => ?_
      valid := ?_
      apart := List.pairwise_cons.mpr ⟨hapart, hfree.apart⟩ }
  · by_cases hsame : block.layer = layer
    · subst hsame
      rw [freeAt_cons_same, List.map_cons]
      apply freelistPush_isStack (hfree.lists block.layer hlayer) (site.slot_ne_zero _)
        (site.address_ne_zero block) (site.address_lt hvalid)
        (site.slot_apart_address hlayer block)
      · intro node hnode
        obtain ⟨other, -, rfl⟩ := List.mem_map.mp hnode
        exact site.slot_apart_address hlayer other
      · intro node hnode
        obtain ⟨other, hother, rfl⟩ := List.mem_map.mp hnode
        exact site.links_apart (hapart other (mem_freeAt.mp hother).1)
    · rw [freeAt_cons_of_ne hsame]
      have hslot' := site.slot_bounds hlayer'
      apply hfree.list_frame hlayer'
      · apply hchange.agreeOn
        intro query hlower hupper
        simp only [Site.slot] at hlower hupper hslot hslot' ⊢
        omega
      · intro other hother
        have hlinks := site.links_apart (hapart other (mem_freeAt.mp hother).1)
        have hbegin' := site.begin_le_address other
        simp only [WordsApart] at hlinks
        apply hchange.agreeOn
        intro query hlower hupper
        omega
  · intro other hother
    rcases List.mem_cons.mp hother with rfl | hother
    · exact ⟨hvalid, hlayer⟩
    · exact hfree.valid other hother

/-- The upward search stops at the deepest layer with a free block, or at the root. -/
theorem searchLayer_spec (hfree : FreeBlocks site memory free) {target : ℕ}
    (htarget : target < site.layers) :
    searchLayer memory site.alloc target ≤ target ∧
      (∀ layer ≤ target, searchLayer memory site.alloc target < layer →
        freeAt free layer = []) ∧
      (searchLayer memory site.alloc target = 0 ∨
        freeAt free (searchLayer memory site.alloc target) ≠ []) := by
  induction target with
  | zero =>
      simp only [searchLayer]
      exact ⟨le_rfl, fun layer hlayer habove => by omega, .inl trivial⟩
  | succ target ih =>
      obtain ⟨hle, hempty, hfound⟩ := ih (by omega)
      have hhead := (hfree.lists (target + 1) htarget).head_eq_zero_iff
      rw [List.map_eq_nil_iff] at hhead
      simp only [searchLayer, hfree.slot_eq]
      split_ifs with hnull
      · refine ⟨by omega, fun layer hlayer habove => ?_, hfound⟩
        rcases Nat.lt_succ_iff_lt_or_eq.mp (Nat.lt_succ_of_le hlayer) with hlt | rfl
        · exact hempty layer (by omega) habove
        · exact hhead.mp hnull
      · refine ⟨le_rfl, fun layer hlayer habove => by omega, .inr ?_⟩
        rwa [Ne, ← hhead]

end FreeBlocks

/-! ## One pass of the split loop -/

/-- The bit updates of one pass of the split loop. -/
def splitBits (memory : Memory) (bitmap : ℕ) (block : Block) : Memory :=
  buddySet
    (buddyUnset (buddySet memory bitmap block.layer block.index) bitmap
      block.leftHalf.layer block.leftHalf.index)
    bitmap block.rightHalf.layer block.rightHalf.index

theorem buddySet_below {bitmap query : ℕ} (memory : Memory) (layer index : ℕ)
    (hbelow : query < bitmap) : buddySet memory bitmap layer index query = memory query :=
  writeByte_of_ne (by omega)

theorem buddyUnset_below {bitmap query : ℕ} (memory : Memory) (layer index : ℕ)
    (hbelow : query < bitmap) : buddyUnset memory bitmap layer index query = memory query :=
  writeByte_of_ne (by omega)

theorem splitBits_below {bitmap query : ℕ} (memory : Memory) (block : Block)
    (hbelow : query < bitmap) : splitBits memory bitmap block query = memory query := by
  rw [splitBits, buddySet_below _ _ _ hbelow, buddyUnset_below _ _ _ hbelow,
    buddySet_below _ _ _ hbelow]

/-- One pass of the split loop is the bit updates and the push of the right half. -/
theorem SiteHeader.splitStep_eq (hheader : SiteHeader site memory)
    (hvalid : block.Valid site.depth) (hlayer : block.layer < site.depth) :
    splitStep memory site.alloc block.layer block.index =
      freelistPush (splitBits memory site.bitmap block) (site.slot block.rightHalf.layer)
        (site.address block.rightHalf) := by
  have hheaderLe := site.header_le
  have hheads := site.heads_le
  have hspared : ∀ {memory memory' : Memory}, SiteHeader site memory →
      (∀ query < site.bitmap, memory' query = memory query) → SiteHeader site memory' :=
    fun hheader hbelow => hheader.frame fun query _ hupper => hbelow query (by omega)
  have hset := hspared hheader fun query hbelow =>
    buddySet_below memory block.layer block.index hbelow
  have hunset := hspared hset fun query hbelow =>
    buddyUnset_below _ block.leftHalf.layer block.leftHalf.index hbelow
  have hbits : SiteHeader site (splitBits memory site.bitmap block) :=
    hspared hheader fun query hbelow => splitBits_below memory block hbelow
  have hindex : block.index * 2 = block.leftHalf.index := Nat.mul_comm _ _
  have hptr := toPointer_eq (hvalid.rightHalf hlayer) site.room.le
  rw [splitBits] at hbits ⊢
  simp only [splitStep, hheader.bitmap_eq, hindex]
  simp only [show block.layer + 1 = block.leftHalf.layer from rfl,
    show block.leftHalf.index + 1 = block.rightHalf.index from rfl, hset.bitmap_eq,
    hunset.bitmap_eq]
  simp only [show block.leftHalf.layer = block.rightHalf.layer from rfl] at hbits ⊢
  rw [hbits.slot_eq, hbits.begin_eq, hbits.root_eq, hptr]
  rfl

theorem SiteHeader.after_splitStep (hheader : SiteHeader site memory)
    (hvalid : block.Valid site.depth) (hlayer : block.layer < site.depth)
    (hlayers : block.rightHalf.layer < site.layers) :
    SiteHeader site (splitStep memory site.alloc block.layer block.index) := by
  have hslot := site.slot_bounds hlayers
  have hbegin := site.begin_le_address block.rightHalf
  have hbitmap := site.bitmap_le
  rw [hheader.splitStep_eq hvalid hlayer]
  apply hheader.frame
  intro query hlower hupper
  rw [freelistPush_unchangedOutside _ _ _ query (by omega)]
  exact splitBits_below memory block (by omega)

/-! ## The lists of a represented state -/

/-- The tables and the pages of a layout. -/
def siteOf (layout : Layout) : Site where
  alloc := layout.alloc
  freelist := layout.freelist
  bitmap := layout.bitmap
  layers := layout.depth + 1
  begin_ := layout.begin_
  depth := layout.depth
  alloc_pos := layout.alloc_pos
  header_le := layout.header_le
  heads_le := layout.freelist_le
  bitmap_le := (Nat.le_add_right _ _).trans layout.bitmap_le
  room := layout.room

theorem siteHeader_of_header {layout : Layout} (hheader : Header layout memory) :
    SiteHeader (siteOf layout) memory :=
  ⟨hheader.bitmap_eq, hheader.freelist_eq, hheader.layers_eq, hheader.root_eq,
    hheader.begin_eq⟩

theorem freeBlocks_of_represents {layout : Layout} {live : List Block}
    (hrep : Represents layout memory free live) : FreeBlocks (siteOf layout) memory free where
  toSiteHeader := siteHeader_of_header hrep.toHeader
  lists := fun layer hlayer => hrep.lists layer (Nat.le_of_lt_succ hlayer)
  valid := fun block hmem =>
    ⟨hrep.valid_free hmem, Nat.lt_succ_of_le (hrep.valid_free hmem).1⟩
  apart := by
    have hnodup := (List.nodup_append.mp hrep.tiling.nodup).2.1
    apply List.Pairwise.imp_of_mem _ hnodup
    intro block other hblock hother hne
    exact hrep.tiling.apart_of_ne (List.mem_append_right _ hblock)
      (List.mem_append_right _ hother) hne

end DoomsdayModules.BuddyLists
