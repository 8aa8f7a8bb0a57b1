import DoomsdayModules.Malloc.BuddyRuns

/-!
# Splitting a block for an allocation

What one `buddy_alloc` does to the free lists of any allocator whose lists
hold blocks that share no page.  The allocator takes the first block of the
deepest list that has one, and the right half split off on each layer goes to
the list of that layer.

The bits that the loop sets and clears are written wherever the bitmap
reaches.  Where it reaches a managed page, such a bit can lie in the word that
links a free block to the next one; the lists are right afterwards exactly
when no link is changed that way.
-/

namespace DoomsdayModules.BuddySplit

open DoomsdayModules.ByteMemory DoomsdayModules.Util DoomsdayModules.BuddyUtil
open DoomsdayModules.IntrusiveStack DoomsdayModules.Freelist
open DoomsdayModules.DyadicBlocks DoomsdayModules.Buddy DoomsdayModules.BuddyInvariant
open DoomsdayModules.BuddyLists

variable {site : Site} {memory memory' : Memory} {free : List Block} {block : Block}

/-! ## The pushes of a split -/

/-- The blocks are pushed one after the other, each on the list of its layer. -/
def pushAll (site : Site) (memory : Memory) : List Block → Memory
  | [] => memory
  | block :: blocks =>
      pushAll site (freelistPush memory (site.slot block.layer) (site.address block)) blocks

theorem freelistPush_outside {query : ℕ} (memory : Memory)
    (hquery : ¬ site.LinkByte block query) (hbitmap : site.bitmap ≤ query)
    (hlayer : block.layer < site.layers) :
    freelistPush memory (site.slot block.layer) (site.address block) query = memory query := by
  have hslot := site.slot_bounds hlayer
  apply freelistPush_unchangedOutside
  rintro (⟨-, hupper⟩ | hinside)
  · omega
  · exact hquery hinside

/-- A push writes the same below the bitmap, whatever is in the bitmap. -/
theorem freelistPush_congr {query : ℕ} (hagree : ∀ query < site.bitmap, memory' query = memory query)
    (hlayer : block.layer < site.layers) (hquery : query < site.bitmap) :
    freelistPush memory' (site.slot block.layer) (site.address block) query =
      freelistPush memory (site.slot block.layer) (site.address block) query := by
  have hslot := site.slot_bounds hlayer
  have hbegin := site.begin_le_address block
  have hbitmap := site.bitmap_le
  simp only [freelistPush, freelistSetNext, if_neg (site.slot_ne_zero _),
    if_neg (site.address_ne_zero _)]
  by_cases hinside : site.slot block.layer ≤ query ∧ query < site.slot block.layer + 8
  · exact writeWord_of_inside hinside.1 hinside.2
  · rw [writeWord_of_outside (by omega), writeWord_of_outside (by omega),
      writeWord_of_outside (by omega), writeWord_of_outside (by omega)]
    exact hagree query hquery

/-- The link word of a block that is pushed: the head that its list had. -/
def linked (site : Site) (memory : Memory) (block : Block) : Memory :=
  writeWord memory (site.address block) (readWord memory (site.slot block.layer))

theorem freelistPush_linkByte {query : ℕ} (memory : Memory) (hlayer : block.layer < site.layers)
    (hquery : site.LinkByte block query) :
    freelistPush memory (site.slot block.layer) (site.address block) query =
      linked site memory block query := by
  have hslot := site.slot_bounds hlayer
  have hbegin := site.begin_le_address block
  have hbitmap := site.bitmap_le
  have hlower := hquery.1
  simp only [freelistPush, freelistSetNext, if_neg (site.slot_ne_zero _),
    if_neg (site.address_ne_zero _)]
  exact writeWord_of_outside (by omega)

/-- What a link word gets depends on the head of the list only. -/
theorem linked_congr {query : ℕ}
    (hslot : AgreeOn memory memory' (site.slot block.layer) (site.slot block.layer + 8))
    (hquery : site.LinkByte block query) :
    linked site memory' block query = linked site memory block query := by
  rw [linked, linked, readWord_congr hslot]
  exact writeWord_of_inside hquery.1 hquery.2

theorem linkByte_ge {query : ℕ} (hquery : site.LinkByte block query) : site.bitmap ≤ query :=
  (site.bitmap_le.trans (site.begin_le_address block)).trans hquery.1

/-- Blocks that share no page share no byte of their link words. -/
theorem not_linkByte_of_apart {other : Block} (hapart : Block.Apart site.depth block other)
    {query : ℕ} (hquery : site.LinkByte other query) : ¬ site.LinkByte block query := by
  have hlinks := site.links_apart hapart
  simp only [WordsApart] at hlinks
  simp only [Site.LinkByte] at hquery ⊢
  omega

theorem freeBlocks_pushAll {blocks : List Block} (hfree : FreeBlocks site memory free)
    (hvalid : ∀ piece ∈ blocks, piece.Valid site.depth ∧ piece.layer < site.layers)
    (hpieces : blocks.Pairwise (Block.Apart site.depth))
    (hapart : ∀ piece ∈ blocks, ∀ other ∈ free, Block.Apart site.depth piece other) :
    FreeBlocks site (pushAll site memory blocks) (blocks.reverse ++ free) := by
  induction blocks generalizing memory free with
  | nil => exact hfree
  | cons piece blocks ih =>
      obtain ⟨hfirst, hrest⟩ := List.pairwise_cons.mp hpieces
      obtain ⟨hpiece, hlayer⟩ := hvalid piece List.mem_cons_self
      have hpushed := hfree.push hpiece hlayer (hapart piece List.mem_cons_self)
      rw [List.reverse_cons, List.append_assoc]
      apply ih hpushed (fun other hother => hvalid other (List.mem_cons_of_mem _ hother)) hrest
      intro other hother third hthird
      rcases List.mem_cons.mp hthird with rfl | hthird
      · exact (hfirst other hother).symm
      · exact hapart other (List.mem_cons_of_mem _ hother) third hthird

theorem pushAll_outside {blocks : List Block} {query : ℕ} (hbitmap : site.bitmap ≤ query)
    (hlayers : ∀ piece ∈ blocks, piece.layer < site.layers)
    (hquery : ∀ piece ∈ blocks, ¬ site.LinkByte piece query) (memory : Memory) :
    pushAll site memory blocks query = memory query := by
  induction blocks generalizing memory with
  | nil => rfl
  | cons piece blocks ih =>
      rw [pushAll, ih (fun other hother => hlayers other (List.mem_cons_of_mem _ hother))
        fun other hother => hquery other (List.mem_cons_of_mem _ hother)]
      exact freelistPush_outside memory (hquery piece List.mem_cons_self) hbitmap
        (hlayers piece List.mem_cons_self)

/-- Blocks of different layers each link to the head that their list had. -/
theorem pushAll_linkByte {blocks : List Block} {piece : Block} (hpiece : piece ∈ blocks)
    (hlayers : ∀ piece ∈ blocks, piece.layer < site.layers)
    (hapart : blocks.Pairwise (Block.Apart site.depth))
    (hnodup : (blocks.map Block.layer).Nodup) {query : ℕ} (hquery : site.LinkByte piece query) :
    pushAll site memory blocks query = linked site memory piece query := by
  induction blocks generalizing memory with
  | nil => simp at hpiece
  | cons first blocks ih =>
      obtain ⟨hfirst, hrest⟩ := List.pairwise_cons.mp hapart
      obtain ⟨hfresh, hnodup⟩ := List.nodup_cons.mp hnodup
      have hlayer := hlayers first List.mem_cons_self
      have hlayers' : ∀ piece ∈ blocks, piece.layer < site.layers :=
        fun piece hpiece => hlayers piece (List.mem_cons_of_mem _ hpiece)
      rw [pushAll]
      rcases List.mem_cons.mp hpiece with rfl | hpiece
      · rw [pushAll_outside (linkByte_ge hquery) hlayers'
          fun other hother => not_linkByte_of_apart (hfirst other hother).symm hquery]
        exact freelistPush_linkByte memory hlayer hquery
      · have hne : first.layer ≠ piece.layer := by
          intro hsame
          exact hfresh (hsame ▸ List.mem_map_of_mem hpiece)
        rw [ih hpiece hlayers' hrest hnodup]
        apply linked_congr _ hquery
        intro query hlower hupper
        have hslot := site.slot_bounds (hlayers' piece hpiece)
        have hbegin := site.begin_le_address first
        have hbitmap := site.bitmap_le
        have hslots : site.slot first.layer + 8 ≤ site.slot piece.layer ∨
            site.slot piece.layer + 8 ≤ site.slot first.layer := by
          simp only [Site.slot]
          omega
        exact freelistPush_unchangedOutside _ _ _ query (by omega)

/-! ## The marks of a split -/

/-- The bit updates of the split loop, without its pushes. -/
def splitMarks (bitmap : ℕ) : ℕ → Block → Memory → Memory
  | 0, _, memory => memory
  | steps + 1, block, memory =>
      splitMarks bitmap steps block.leftHalf (splitBits memory bitmap block)

theorem writeByte_congr {query address : ℕ} (change : UInt8 → UInt8)
    (hquery : memory' query = memory query) :
    writeByte memory' address (change (memory' address)) query =
      writeByte memory address (change (memory address)) query := by
  simp only [writeByte]
  split_ifs with hsame
  · rw [← hsame, hquery]
  · exact hquery

/-- The bit updates change each byte on its own. -/
theorem splitBits_congr {bitmap query : ℕ} (hquery : memory' query = memory query) :
    splitBits memory' bitmap block query = splitBits memory bitmap block query := by
  simp only [splitBits, buddySet, buddyUnset]
  exact writeByte_congr (· ||| _) (writeByte_congr (· &&& _) (writeByte_congr (· ||| _) hquery))

theorem splitMarks_congr {bitmap query : ℕ} (steps : ℕ) (block : Block)
    (hquery : memory' query = memory query) :
    splitMarks bitmap steps block memory' query = splitMarks bitmap steps block memory query := by
  induction steps generalizing block memory memory' with
  | zero => exact hquery
  | succ steps ih => exact ih block.leftHalf (splitBits_congr hquery)

/-! ## The split loop -/

/-- Below the bitmap the split loop does what its pushes do. -/
theorem splitLoop_below {steps : ℕ} (hheader : SiteHeader site memory)
    (hvalid : block.Valid site.depth) (hsteps : block.layer + steps ≤ site.depth)
    (hlayers : block.layer + steps < site.layers)
    (hagree : ∀ query < site.bitmap, memory query = memory' query) {query : ℕ}
    (hquery : query < site.bitmap) :
    splitLoop site.alloc steps block.layer block.index memory query =
      pushAll site memory' (block.splitOff steps) query := by
  induction steps generalizing block memory memory' with
  | zero => exact hagree query hquery
  | succ steps ih =>
      have hlayer : block.layer < site.depth := by omega
      have hright : block.rightHalf.layer < site.layers := by
        simp only [Block.rightHalf]
        omega
      have hindex : block.index * 2 = block.leftHalf.index := Nat.mul_comm _ _
      rw [splitLoop, hindex, Block.splitOff, pushAll]
      apply ih (hheader.after_splitStep hvalid hlayer hright) (hvalid.leftHalf hlayer)
        (by simp only [Block.leftHalf]; omega) (by simp only [Block.leftHalf]; omega)
      intro query hquery
      rw [hheader.splitStep_eq hvalid hlayer]
      apply freelistPush_congr _ hright hquery
      intro query hquery
      rw [splitBits_below memory block hquery, hagree query hquery]

/-- At the link of a block that shares no page with the one that is split, the
loop does what its marks do. -/
theorem splitLoop_marks {steps : ℕ} {other : Block} (hheader : SiteHeader site memory)
    (hvalid : block.Valid site.depth) (hsteps : block.layer + steps ≤ site.depth)
    (hlayers : block.layer + steps < site.layers)
    (hapart : Block.Apart site.depth block other) {query : ℕ}
    (hquery : site.LinkByte other query) :
    splitLoop site.alloc steps block.layer block.index memory query =
      splitMarks site.bitmap steps block memory query := by
  induction steps generalizing block memory with
  | zero => rfl
  | succ steps ih =>
      have hlayer : block.layer < site.depth := by omega
      have hright : block.rightHalf.layer < site.layers := by
        simp only [Block.rightHalf]
        omega
      have hindex : block.index * 2 = block.leftHalf.index := Nat.mul_comm _ _
      have hleftApart := (Block.below_leftHalf hlayer).apart hapart
      have hrightApart := (Block.below_rightHalf hlayer).apart hapart
      rw [splitLoop, hindex, splitMarks]
      refine (ih (hheader.after_splitStep hvalid hlayer hright) (hvalid.leftHalf hlayer)
        (by simp only [Block.leftHalf]; omega) (by simp only [Block.leftHalf]; omega)
        hleftApart).trans ?_
      apply splitMarks_congr
      rw [hheader.splitStep_eq hvalid hlayer]
      exact freelistPush_outside _ (not_linkByte_of_apart hrightApart hquery)
        (linkByte_ge hquery) hright

/-- At the link of a right half the loop does the push and then the marks of
the passes that follow. -/
theorem splitLoop_splitOff {steps : ℕ} {piece : Block} (hheader : SiteHeader site memory)
    (hvalid : block.Valid site.depth) (hsteps : block.layer + steps ≤ site.depth)
    (hlayers : block.layer + steps < site.layers) (hpiece : piece ∈ block.splitOff steps)
    {query : ℕ} (hquery : site.LinkByte piece query) :
    splitLoop site.alloc steps block.layer block.index memory query =
      splitMarks site.bitmap (block.layer + steps - piece.layer) (block.leftmost piece.layer)
        (linked site memory piece) query := by
  induction steps generalizing block memory with
  | zero => simp [Block.splitOff] at hpiece
  | succ steps ih =>
      have hlayer : block.layer < site.depth := by omega
      have hright : block.rightHalf.layer < site.layers := by
        simp only [Block.rightHalf]
        omega
      have hindex : block.index * 2 = block.leftHalf.index := Nat.mul_comm _ _
      have hheader' := hheader.after_splitStep hvalid hlayer hright
      have hsteps' : block.leftHalf.layer + steps ≤ site.depth := by
        simp only [Block.leftHalf]
        omega
      have hlayers' : block.leftHalf.layer + steps < site.layers := by
        simp only [Block.leftHalf]
        omega
      rw [splitLoop, hindex]
      rcases List.mem_cons.mp hpiece with rfl | hpiece
      · have hdown := splitLoop_marks hheader' (hvalid.leftHalf hlayer) hsteps' hlayers'
          (Block.apart_halves hlayer) hquery
        have hleftmost : block.leftmost block.rightHalf.layer = block.leftHalf := by
          simp [Block.leftmost, Block.rightHalf, Block.leftHalf, Nat.mul_comm]
        have hcount : block.layer + (steps + 1) - block.rightHalf.layer = steps := by
          simp only [Block.rightHalf]
          omega
        rw [hleftmost, hcount]
        refine hdown.trans (splitMarks_congr _ _ ?_)
        rw [hheader.splitStep_eq hvalid hlayer, freelistPush_linkByte _ hright hquery]
        apply linked_congr _ hquery
        intro query _ hupper
        have hslot := site.slot_bounds hright
        exact splitBits_below memory block (by omega)
      · have hbelow := Block.below_splitOff hsteps' piece hpiece
        have hlayerPiece := hbelow.1
        simp only [Block.leftHalf] at hlayerPiece
        have hpieceLayers : piece.layer < site.layers := by
          have hmem : piece.layer ∈ (block.leftHalf.splitOff steps).map Block.layer :=
            List.mem_map_of_mem hpiece
          rw [Block.map_layer_splitOff, List.mem_range'_1] at hmem
          omega
        have hcount : block.layer + (steps + 1) - piece.layer =
            block.leftHalf.layer + steps - piece.layer := by
          simp only [Block.leftHalf]
          omega
        rw [← Block.leftHalf_leftmost (by omega), hcount]
        refine (ih hheader' (hvalid.leftHalf hlayer) hsteps' hlayers' hpiece).trans
          (splitMarks_congr _ _ ?_)
        apply linked_congr _ hquery
        intro query hlower hupper
        have hslot := site.slot_bounds hpieceLayers
        have hslots : site.slot block.rightHalf.layer + 8 ≤ site.slot piece.layer := by
          simp only [Site.slot, Block.rightHalf]
          omega
        have hbegin := site.begin_le_address block.rightHalf
        have hbitmap := site.bitmap_le
        rw [hheader.splitStep_eq hvalid hlayer,
          freelistPush_unchangedOutside _ _ _ query (by omega)]
        exact splitBits_below memory block (by omega)

/-! ## The lists after the loop -/

/-- The same blocks are on the lists exactly when their links are the same. -/
theorem freeBlocks_iff_links (hfree : FreeBlocks site memory free)
    (hbelow : ∀ query < site.bitmap, memory' query = memory query) :
    FreeBlocks site memory' free ↔
      ∀ block ∈ free, ∀ query, site.LinkByte block query → memory' query = memory query := by
  constructor
  · intro hfree' block hmem query hquery
    have hlayer := (hfree.valid block hmem).2
    have hlink := (hfree.lists block.layer hlayer).link_eq (hfree'.lists block.layer hlayer)
      (site.address block) (List.mem_map_of_mem (mem_freeAt.mpr ⟨hmem, rfl⟩))
    exact agreeOn_of_readWord_eq hlink query hquery.1 hquery.2
  · intro hlinks
    exact hfree.frame (fun query _ hupper => hbelow query hupper) hlinks

/-- The marks of a split write into the link word of `other` what is there. -/
def KeepsLink (site : Site) (steps : ℕ) (block : Block) (memory : Memory) (other : Block) : Prop :=
  ∀ query, site.LinkByte other query →
    splitMarks site.bitmap steps block memory query = memory query

instance (site : Site) (steps : ℕ) (block : Block) (memory : Memory) (other : Block) :
    Decidable (KeepsLink site steps block memory other) :=
  decidable_of_iff (∀ offset : ℕ, offset < 8 → splitMarks site.bitmap steps block memory
      (site.address other + offset) = memory (site.address other + offset)) <| by
    constructor
    · intro hkeeps query hquery
      have hbyte := hkeeps (query - site.address other) (by have := hquery.2; omega)
      rwa [Nat.add_sub_cancel' hquery.1] at hbyte
    · intro hkeeps offset hoffset
      exact hkeeps _ ⟨Nat.le_add_right _ _, Nat.add_lt_add_left hoffset _⟩

theorem keepsLink_congr {steps : ℕ} {other : Block}
    (hagree : ∀ query, site.LinkByte other query → memory' query = memory query) :
    KeepsLink site steps block memory' other ↔ KeepsLink site steps block memory other := by
  have hbyte : ∀ query, site.LinkByte other query →
      splitMarks site.bitmap steps block memory' query =
        splitMarks site.bitmap steps block memory query :=
    fun query hquery => splitMarks_congr steps block (hagree query hquery)
  constructor
  · intro hkeeps query hquery
    rw [← hbyte query hquery, ← hagree query hquery]
    exact hkeeps query hquery
  · intro hkeeps query hquery
    rw [hbyte query hquery, hagree query hquery]
    exact hkeeps query hquery

theorem layer_of_mem_splitOff {steps : ℕ} {piece : Block} (hpiece : piece ∈ block.splitOff steps) :
    block.layer < piece.layer ∧ piece.layer ≤ block.layer + steps := by
  have hmem : piece.layer ∈ (block.splitOff steps).map Block.layer := List.mem_map_of_mem hpiece
  rw [Block.map_layer_splitOff, List.mem_range'_1] at hmem
  omega

/-- The lists as the pushes of a split leave them. -/
theorem freeBlocks_pushAll_splitOff {steps : ℕ} (hfree : FreeBlocks site memory free)
    (hvalid : block.Valid site.depth) (hsteps : block.layer + steps ≤ site.depth)
    (hlayers : block.layer + steps < site.layers)
    (hapart : ∀ other ∈ free, Block.Apart site.depth block other) :
    FreeBlocks site (pushAll site memory (block.splitOff steps))
      ((block.splitOff steps).reverse ++ free) := by
  apply freeBlocks_pushAll hfree
  · intro piece hpiece
    have hlayer := layer_of_mem_splitOff hpiece
    exact ⟨hvalid.splitOff hsteps piece hpiece, by omega⟩
  · exact (List.pairwise_cons.mp (Block.pairwise_splitOff hsteps)).2
  · intro piece hpiece other hother
    exact (Block.below_splitOff hsteps piece hpiece).apart (hapart other hother)

/-- After the loop the right halves are on their lists and the other lists are
as they were, exactly when the marks keep every link. -/
theorem splitLoop_freeBlocks_iff {steps : ℕ} (hfree : FreeBlocks site memory free)
    (hvalid : block.Valid site.depth) (hsteps : block.layer + steps ≤ site.depth)
    (hlayers : block.layer + steps < site.layers)
    (hapart : ∀ other ∈ free, Block.Apart site.depth block other) :
    FreeBlocks site (splitLoop site.alloc steps block.layer block.index memory)
        ((block.splitOff steps).reverse ++ free) ↔
      (∀ other ∈ free, KeepsLink site steps block memory other) ∧
        ∀ piece ∈ block.splitOff steps,
          KeepsLink site (block.layer + steps - piece.layer) (block.leftmost piece.layer)
            (linked site memory piece) piece := by
  have hideal := freeBlocks_pushAll_splitOff hfree hvalid hsteps hlayers hapart
  have hpieceLayers : ∀ piece ∈ block.splitOff steps, piece.layer < site.layers := by
    intro piece hpiece
    have hlayer := layer_of_mem_splitOff hpiece
    omega
  have hold : ∀ other ∈ free, ∀ query, site.LinkByte other query →
      pushAll site memory (block.splitOff steps) query = memory query := by
    intro other hother query hquery
    apply pushAll_outside (linkByte_ge hquery) hpieceLayers
    intro piece hpiece
    exact not_linkByte_of_apart
      ((Block.below_splitOff hsteps piece hpiece).apart (hapart other hother)) hquery
  have hnew : ∀ piece ∈ block.splitOff steps, ∀ query, site.LinkByte piece query →
      pushAll site memory (block.splitOff steps) query = linked site memory piece query := by
    intro piece hpiece query hquery
    apply pushAll_linkByte hpiece hpieceLayers
      (List.pairwise_cons.mp (Block.pairwise_splitOff hsteps)).2 _ hquery
    rw [Block.map_layer_splitOff]
    exact List.nodup_range'
  rw [freeBlocks_iff_links hideal fun query hquery =>
    splitLoop_below hfree.toSiteHeader hvalid hsteps hlayers (fun _ _ => rfl) hquery]
  constructor
  · intro hlinks
    refine ⟨fun other hother query hquery => ?_, fun piece hpiece query hquery => ?_⟩
    · rw [← splitLoop_marks hfree.toSiteHeader hvalid hsteps hlayers (hapart other hother) hquery,
        hlinks other (List.mem_append_right _ hother) query hquery]
      exact hold other hother query hquery
    · rw [← splitLoop_splitOff hfree.toSiteHeader hvalid hsteps hlayers hpiece hquery,
        hlinks piece (List.mem_append_left _ (List.mem_reverse.mpr hpiece)) query hquery]
      exact hnew piece hpiece query hquery
  · rintro ⟨hkeepsOld, hkeepsNew⟩ other hother query hquery
    rcases List.mem_append.mp hother with hpiece | hother
    · have hpiece := List.mem_reverse.mp hpiece
      rw [splitLoop_splitOff hfree.toSiteHeader hvalid hsteps hlayers hpiece hquery,
        hnew other hpiece query hquery]
      exact hkeepsNew other hpiece query hquery
    · rw [splitLoop_marks hfree.toSiteHeader hvalid hsteps hlayers (hapart other hother) hquery,
        hold other hother query hquery]
      exact hkeepsOld other hother query hquery

/-! ## A whole allocation -/

/-- The block a request of layer `target` takes: the first one on the deepest
list, of those down to `target`, that has one. -/
structure FirstFit (free : List Block) (target : ℕ) (top : Block) : Prop where
  layer_le : top.layer ≤ target
  deepest : ∀ layer ≤ target, top.layer < layer → freeAt free layer = []
  first : ∃ rest, freeAt free top.layer = top :: rest

theorem FirstFit.mem {target : ℕ} {top : Block} (hfit : FirstFit free target top) :
    top ∈ free := by
  obtain ⟨rest, hfirst⟩ := hfit.first
  exact (mem_freeAt.mp (hfirst ▸ List.mem_cons_self)).1

theorem exists_firstFit {target : ℕ} (hsome : ∃ layer ≤ target, freeAt free layer ≠ []) :
    ∃ top, FirstFit free target top := by
  induction target with
  | zero =>
      obtain ⟨layer, hlayer, hne⟩ := hsome
      obtain rfl := Nat.le_zero.mp hlayer
      obtain ⟨top, rest, hlist⟩ := List.exists_cons_of_ne_nil hne
      have htop : top.layer = 0 := (mem_freeAt.mp (hlist ▸ List.mem_cons_self)).2
      exact ⟨top, htop.le, fun layer hlayer habove => by omega, rest, htop ▸ hlist⟩
  | succ target ih =>
      cases hlist : freeAt free (target + 1) with
      | nil =>
          obtain ⟨layer, hlayer, hne⟩ := hsome
          have hlayer' : layer ≠ target + 1 := by
            rintro rfl
            exact hne hlist
          obtain ⟨top, hfit⟩ := ih ⟨layer, by omega, hne⟩
          refine ⟨top, hfit.layer_le.trans (Nat.le_succ _), fun layer hlayer habove => ?_,
            hfit.first⟩
          rcases hlayer.lt_or_eq with hlt | rfl
          · exact hfit.deepest layer (Nat.le_of_lt_succ hlt) habove
          · exact hlist
      | cons top rest =>
          have htop : top.layer = target + 1 := (mem_freeAt.mp (hlist ▸ List.mem_cons_self)).2
          exact ⟨top, htop.le, fun layer hlayer habove => by omega, rest, htop ▸ hlist⟩

theorem FirstFit.unique {target : ℕ} {top top' : Block} (hfit : FirstFit free target top)
    (hfit' : FirstFit free target top') : top = top' := by
  obtain ⟨rest, hfirst⟩ := hfit.first
  obtain ⟨rest', hfirst'⟩ := hfit'.first
  rcases lt_trichotomy top.layer top'.layer with hlt | hsame | hlt
  · simp [hfit.deepest _ hfit'.layer_le hlt] at hfirst'
  · rw [hsame, hfirst'] at hfirst
    exact (List.cons.inj hfirst).1.symm
  · simp [hfit'.deepest _ hfit.layer_le hlt] at hfirst

theorem searchLayer_eq {target : ℕ} {top : Block} (hfree : FreeBlocks site memory free)
    (htarget : target < site.layers) (hfit : FirstFit free target top) :
    searchLayer memory site.alloc target = top.layer := by
  obtain ⟨hle, habove, hfound⟩ := hfree.searchLayer_spec htarget
  obtain ⟨rest, hfirst⟩ := hfit.first
  rcases lt_trichotomy (searchLayer memory site.alloc target) top.layer with hlt | hsame | hlt
  · simp [habove _ hfit.layer_le hlt] at hfirst
  · exact hsame
  · rcases hfound with hzero | hne
    · omega
    · exact absurd (hfit.deepest _ hle hlt) hne

/-- The allocation pops the block and runs the split loop on it. -/
theorem buddyAllocLayer_eq_splitLoop {target : ℕ} {top : Block}
    (hfree : FreeBlocks site memory free) (htarget : target < site.layers)
    (hfit : FirstFit free target top) :
    buddyAllocLayer memory site.alloc target =
      (site.address top, splitLoop site.alloc (target - top.layer) top.layer top.index
        (freelistPop memory (site.slot top.layer)).2) := by
  obtain ⟨rest, hfirst⟩ := hfit.first
  obtain ⟨hvalid, -⟩ := hfree.valid top hfit.mem
  obtain ⟨hptr, hpopped⟩ := hfree.pop hfirst
  have hindex : toIndex site.begin_ top.layer (site.address top) (2 ^ site.depth) = top.index :=
    toIndex_pageAddress hvalid site.room.le
  simp only [buddyAllocLayer, searchLayer_eq hfree htarget hfit, hfree.slot_eq, hptr,
    if_neg (site.address_ne_zero top), hpopped.begin_eq, hpopped.root_eq, hindex]

theorem buddyAllocLayer_eq_null {target : ℕ} (hfree : FreeBlocks site memory free)
    (htarget : target < site.layers) (hempty : ∀ layer ≤ target, freeAt free layer = []) :
    buddyAllocLayer memory site.alloc target = (0, memory) := by
  have hle := (hfree.searchLayer_spec htarget).1
  have hstack := hfree.lists (searchLayer memory site.alloc target) (hle.trans_lt htarget)
  rw [hempty _ hle, List.map_nil] at hstack
  simp [buddyAllocLayer, hfree.slot_eq, freelistPop_nil hstack]

theorem siteDepth_lt (site : Site) : site.depth < 64 := by
  have hroom := site.room
  simp only [pageAddress, pageSize] at hroom
  by_contra hdepth
  have hpow : 2 ^ 64 ≤ 2 ^ site.depth := Nat.pow_le_pow_right (by norm_num) (by omega)
  simp only [wordSize] at hroom
  omega

theorem buddyAlloc_eq (hheader : SiteHeader site memory) {pages target : ℕ}
    (htarget : bestFitLayer pages (2 ^ site.depth) = some target) :
    buddyAlloc memory site.alloc pages =
      some (buddyAllocLayer memory site.alloc target) := by
  simp only [buddyAlloc, if_neg site.alloc_pos.ne', hheader.root_eq, htarget, Option.map_some]

theorem target_le_depth {pages target : ℕ} (hpages : 1 ≤ pages)
    (htarget : bestFitLayer pages (2 ^ site.depth) = some target) : target ≤ site.depth := by
  rw [bestFitLayer_eq_clog hpages (siteDepth_lt site), Option.some.injEq] at htarget
  exact htarget ▸ clog_div_le site.depth pages

/-! ## One block is taken -/

/-- `top` comes from the deepest list that has a block, and falls into the
block `taken` of the target layer and one block of each layer in between. -/
structure Splits (depth : ℕ) (free : List Block) (target : ℕ) (top taken : Block)
    (added : List Block) : Prop where
  mem : top ∈ free
  layer_le : top.layer ≤ target
  deepest : ∀ layer ≤ target, top.layer < layer → freeAt free layer = []
  taken_valid : taken.Valid depth
  taken_layer : taken.layer = target
  added_layers : added.map Block.layer =
    (List.range' (top.layer + 1) (target - top.layer)).reverse
  apart : (taken :: added).Pairwise (Block.Apart depth)
  covers : ∀ page, top.Covers depth page ↔ ∃ piece ∈ taken :: added, piece.Covers depth page

/-- `buddy_alloc` returns `NULL`, with the state as it was, when no list down to
the target layer has a block and only then.  Otherwise one block is removed,
the returned block is a part of it, and the other parts are added. -/
structure TakesOneBlock (site : Site) (memory : Memory) (free : List Block)
    (pages target : ℕ) : Prop where
  null_iff : buddyAlloc memory site.alloc pages = some (0, memory) ↔
    ∀ layer ≤ target, freeAt free layer = []
  takes : (∃ layer ≤ target, freeAt free layer ≠ []) → ∃ memory' top taken added,
    buddyAlloc memory site.alloc pages = some (site.address taken, memory') ∧
      Splits site.depth free target top taken added ∧
      FreeBlocks site memory' (added ++ free.erase top)

/-- Wherever a bit that the split writes lies in the link word of a block that
is free by then, the last value written to it is the one it has.  A block that
the split adds has the head of its list for a link. -/
structure SparesLinks (site : Site) (memory : Memory) (free : List Block) (top : Block)
    (target : ℕ) : Prop where
  old : ∀ other ∈ free.erase top, KeepsLink site (target - top.layer) top memory other
  added : ∀ piece ∈ top.splitOff (target - top.layer),
    KeepsLink site (target - piece.layer) (top.leftmost piece.layer)
      (linked site memory piece) piece

theorem splits_splitOff {depth target : ℕ} {top : Block} (hfit : FirstFit free target top)
    (hvalid : top.Valid depth) (htarget : target ≤ depth) :
    Splits depth free target top (top.leftmost target)
      (top.splitOff (target - top.layer)).reverse := by
  have hlayer := hfit.layer_le
  have hsum : top.layer + (target - top.layer) = target := by omega
  have hsteps : top.layer + (target - top.layer) ≤ depth := by omega
  have hpieces := Block.pairwise_splitOff hsteps
  rw [hsum] at hpieces
  obtain ⟨hfirst, hrest⟩ := List.pairwise_cons.mp hpieces
  refine
    { mem := hfit.mem
      layer_le := hlayer
      deepest := hfit.deepest
      taken_valid := hvalid.leftmost hlayer htarget
      taken_layer := rfl
      added_layers := by rw [List.map_reverse, Block.map_layer_splitOff]
      apart := ?_
      covers := fun page => ?_ }
  · refine List.pairwise_cons.mpr
      ⟨fun piece hpiece => hfirst piece (List.mem_reverse.mp hpiece), ?_⟩
    exact List.pairwise_reverse.mpr (hrest.imp fun hapart => hapart.symm)
  · rw [Block.covers_iff_splitOff hsteps page, hsum]
    simp only [List.mem_cons, List.mem_reverse]

theorem eq_of_address_eq {block other : Block} (hlayer : block.layer = other.layer)
    (haddress : site.address block = site.address other) : block = other := by
  have hstart : block.start site.depth = other.start site.depth := by
    simp only [Site.address, pageAddress, pageSize] at haddress
    omega
  have hsize : block.size site.depth = other.size site.depth := by
    rw [Block.size, Block.size, hlayer]
  simp only [Block.start, hsize] at hstart
  have hindex := Nat.eq_of_mul_eq_mul_right (other.size_pos site.depth) hstart
  cases block
  cases other
  simp_all

theorem freeAt_append_of_mem {added rest : List Block} (hnodup : (added.map Block.layer).Nodup)
    {piece : Block} (hpiece : piece ∈ added) :
    freeAt (added ++ rest) piece.layer = piece :: freeAt rest piece.layer := by
  induction added with
  | nil => simp at hpiece
  | cons first added ih =>
      obtain ⟨hfresh, hnodup⟩ := List.nodup_cons.mp hnodup
      rw [List.cons_append]
      rcases List.mem_cons.mp hpiece with rfl | hpiece
      · have hnone : freeAt added piece.layer = [] := by
          rw [freeAt, List.filter_eq_nil_iff]
          intro other hother hsame
          exact hfresh (of_decide_eq_true hsame ▸ List.mem_map_of_mem hother)
        rw [freeAt_cons_same, freeAt, List.filter_append, ← freeAt, ← freeAt, hnone,
          List.nil_append]
      · have hne : first.layer ≠ piece.layer := by
          intro hsame
          exact hfresh (hsame ▸ List.mem_map_of_mem hpiece)
        rw [freeAt_cons_of_ne hne, ih hnodup hpiece]

/-- Of several blocks of different layers each is the first on its list. -/
theorem head_eq {added rest : List Block} (hfree : FreeBlocks site memory (added ++ rest))
    (hnodup : (added.map Block.layer).Nodup) {piece : Block} (hpiece : piece ∈ added) :
    readWord memory (site.slot piece.layer) = site.address piece := by
  have hstack := hfree.lists piece.layer
    (hfree.valid piece (List.mem_append_left _ hpiece)).2
  rw [freeAt_append_of_mem hnodup hpiece, List.map_cons] at hstack
  exact hstack.1

/-- The heads of the lists say which blocks were added. -/
theorem added_unique {added added' : List Block}
    (hlayers : added.map Block.layer = added'.map Block.layer)
    (hheads : ∀ piece ∈ added, readWord memory (site.slot piece.layer) = site.address piece)
    (hheads' : ∀ piece ∈ added', readWord memory (site.slot piece.layer) = site.address piece) :
    added = added' := by
  induction added generalizing added' with
  | nil => exact (List.map_eq_nil_iff.mp hlayers.symm).symm
  | cons piece added ih =>
      cases added' with
      | nil => simp at hlayers
      | cons piece' added' =>
          obtain ⟨hlayer, hrest⟩ := List.cons.inj hlayers
          have haddress : site.address piece = site.address piece' := by
            rw [← hheads piece List.mem_cons_self, ← hheads' piece' List.mem_cons_self]
            exact congrArg (fun layer => readWord memory (site.slot layer)) hlayer
          rw [eq_of_address_eq hlayer haddress,
            ih hrest (fun other hother => hheads other (List.mem_cons_of_mem _ hother))
              fun other hother => hheads' other (List.mem_cons_of_mem _ hother)]

/-- Of free blocks, only the one that holds the returned block can have been split. -/
theorem Splits.top_eq {target : ℕ} {top top' taken : Block} {added : List Block}
    (hsplits : Splits site.depth free target top' taken added)
    (hapart : free.Pairwise (Block.Apart site.depth)) (hmem : top ∈ free)
    (haddress : site.address taken = site.address top) : top' = top := by
  have hstart : taken.start site.depth = top.start site.depth := by
    simp only [Site.address, pageAddress, pageSize] at haddress
    omega
  have htaken : taken.Covers site.depth (taken.start site.depth) :=
    ⟨le_rfl, taken.start_lt_stop site.depth⟩
  have hcovers := (hsplits.covers _).mpr ⟨taken, List.mem_cons_self, htaken⟩
  have htop := top.start_lt_stop site.depth
  by_contra hne
  have hdisjoint := hapart.forall hsplits.mem hmem hne
  simp only [Block.Covers, Block.Apart] at hcovers hdisjoint
  omega

/-- After the loop each right half is the first on its list. -/
theorem splitLoop_head {steps : ℕ} {piece : Block} (hfree : FreeBlocks site memory free)
    (hvalid : block.Valid site.depth) (hsteps : block.layer + steps ≤ site.depth)
    (hlayers : block.layer + steps < site.layers)
    (hapart : ∀ other ∈ free, Block.Apart site.depth block other)
    (hpiece : piece ∈ block.splitOff steps) :
    readWord (splitLoop site.alloc steps block.layer block.index memory)
      (site.slot piece.layer) = site.address piece := by
  have hlayer := layer_of_mem_splitOff hpiece
  have hslot := site.slot_bounds (hlayer.2.trans_lt hlayers)
  have hideal := freeBlocks_pushAll_splitOff hfree hvalid hsteps hlayers hapart
  have hnodup : ((block.splitOff steps).reverse.map Block.layer).Nodup := by
    rw [List.map_reverse, Block.map_layer_splitOff]
    exact List.nodup_reverse.mpr List.nodup_range'
  rw [← head_eq hideal hnodup (List.mem_reverse.mpr hpiece)]
  apply readWord_congr
  intro query hlower hupper
  exact splitLoop_below hfree.toSiteHeader hvalid hsteps hlayers (fun _ _ => rfl) (by omega)

/-! ## When the lists are right -/

section Allocation

variable {pages target : ℕ} {top : Block}

theorem apart_of_mem_erase (hfree : FreeBlocks site memory free) (htop : top ∈ free) :
    ∀ other ∈ free.erase top, Block.Apart site.depth top other := by
  have hperm := List.perm_cons_erase htop
  exact (List.pairwise_cons.mp
    ((hperm.pairwise_iff fun hapart => hapart.symm).mp hfree.apart)).1

theorem buddyAllocLayer_freeBlocks_iff (hfree : FreeBlocks site memory free)
    (htarget : target ≤ site.depth) (hlayers : target < site.layers)
    (hfit : FirstFit free target top) :
    FreeBlocks site (buddyAllocLayer memory site.alloc target).2
        ((top.splitOff (target - top.layer)).reverse ++ free.erase top) ↔
      SparesLinks site memory free top target := by
  obtain ⟨rest, hfirst⟩ := hfit.first
  have hlayer := hfit.layer_le
  have hsum : top.layer + (target - top.layer) = target := by omega
  obtain ⟨hvalid, htopLayers⟩ := hfree.valid top hfit.mem
  have hslot := site.slot_bounds htopLayers
  have hchange := freelistPop_unchangedOutside memory (site.slot top.layer)
  have hsame : ∀ other : Block, ∀ query, site.LinkByte other query →
      (freelistPop memory (site.slot top.layer)).2 query = memory query := by
    intro other query hquery
    have hbitmap := linkByte_ge hquery
    exact hchange query (by omega)
  have hold : ∀ other, KeepsLink site (target - top.layer) top
        (freelistPop memory (site.slot top.layer)).2 other ↔
      KeepsLink site (target - top.layer) top memory other :=
    fun other => keepsLink_congr (hsame other)
  have hnew : ∀ piece ∈ top.splitOff (target - top.layer),
      (KeepsLink site (target - piece.layer) (top.leftmost piece.layer)
          (linked site (freelistPop memory (site.slot top.layer)).2 piece) piece ↔
        KeepsLink site (target - piece.layer) (top.leftmost piece.layer)
          (linked site memory piece) piece) := by
    intro piece hpiece
    have hpieceLayer := layer_of_mem_splitOff hpiece
    have hslots : site.slot top.layer + 8 ≤ site.slot piece.layer := by
      simp only [Site.slot]
      omega
    exact keepsLink_congr fun query hquery => linked_congr
      (hchange.agreeOn fun query hlower hupper => by omega) hquery
  rw [buddyAllocLayer_eq_splitLoop hfree hlayers hfit,
    splitLoop_freeBlocks_iff (hfree.pop hfirst).2 hvalid (by omega) (by omega)
      (apart_of_mem_erase hfree hfit.mem), hsum]
  constructor
  · rintro ⟨hkeepsOld, hkeepsNew⟩
    exact ⟨fun other hother => (hold other).mp (hkeepsOld other hother),
      fun piece hpiece => (hnew piece hpiece).mp (hkeepsNew piece hpiece)⟩
  · intro hspares
    exact ⟨fun other hother => (hold other).mpr (hspares.old other hother),
      fun piece hpiece => (hnew piece hpiece).mpr (hspares.added piece hpiece)⟩

/-- Whatever the allocation is said to have taken and added, it is the first
fit and its right halves. -/
theorem sparesLinks_of_takesOneBlock (hfree : FreeBlocks site memory free) (hpages : 1 ≤ pages)
    (htarget : bestFitLayer pages (2 ^ site.depth) = some target) (hlayers : target < site.layers)
    (hfit : FirstFit free target top) (htakes : TakesOneBlock site memory free pages target) :
    SparesLinks site memory free top target := by
  have hdepth := target_le_depth hpages htarget
  have hlayer := hfit.layer_le
  have hvalid := (hfree.valid top hfit.mem).1
  obtain ⟨rest, hfirst⟩ := hfit.first
  obtain ⟨memory', top', taken, added, hresult, hsplits, hfree'⟩ :=
    htakes.takes ⟨top.layer, hlayer, by simp [hfirst]⟩
  rw [buddyAlloc_eq hfree.toSiteHeader htarget, Option.some.injEq] at hresult
  have hafter := buddyAllocLayer_eq_splitLoop hfree hlayers hfit
  have hptr : site.address top = site.address taken := by
    rw [hafter] at hresult
    exact congrArg Prod.fst hresult
  obtain rfl := hsplits.top_eq hfree.apart hfit.mem hptr.symm
  have hnodup : (added.map Block.layer).Nodup := by
    rw [hsplits.added_layers]
    exact List.nodup_reverse.mpr List.nodup_range'
  have hadded : added = (top'.splitOff (target - top'.layer)).reverse := by
    apply @added_unique site memory'
    · rw [hsplits.added_layers, (splits_splitOff hfit hvalid hdepth).added_layers]
    · exact fun piece hpiece => head_eq hfree' hnodup hpiece
    · intro piece hpiece
      have hmemory : (buddyAllocLayer memory site.alloc target).2 = memory' :=
        congrArg Prod.snd hresult
      rw [← hmemory, hafter]
      exact splitLoop_head (hfree.pop hfirst).2 hvalid (by omega) (by omega)
        (apart_of_mem_erase hfree hfit.mem) (List.mem_reverse.mp hpiece)
  rw [← buddyAllocLayer_freeBlocks_iff hfree hdepth hlayers hfit, hresult, ← hadded]
  exact hfree'

theorem takesOneBlock_of_sparesLinks (hfree : FreeBlocks site memory free) (hpages : 1 ≤ pages)
    (htarget : bestFitLayer pages (2 ^ site.depth) = some target) (hlayers : target < site.layers)
    (hspares : ∀ top, FirstFit free target top → SparesLinks site memory free top target) :
    TakesOneBlock site memory free pages target := by
  have hdepth := target_le_depth hpages htarget
  have halloc := buddyAlloc_eq hfree.toSiteHeader htarget
  refine ⟨?_, fun hsome => ?_⟩
  · constructor
    · intro hnull layer hlayer
      by_contra hne
      obtain ⟨top, hfit⟩ := exists_firstFit ⟨layer, hlayer, hne⟩
      rw [halloc, buddyAllocLayer_eq_splitLoop hfree hlayers hfit, Option.some.injEq,
        Prod.mk.injEq] at hnull
      exact site.address_ne_zero top hnull.1
    · intro hempty
      rw [halloc, buddyAllocLayer_eq_null hfree hlayers hempty]
  · obtain ⟨top, hfit⟩ := exists_firstFit hsome
    have hvalid := (hfree.valid top hfit.mem).1
    have hptr : (buddyAllocLayer memory site.alloc target).1 =
        site.address (top.leftmost target) := by
      rw [buddyAllocLayer_eq_splitLoop hfree hlayers hfit, Site.address, Site.address,
        Block.start_leftmost hfit.layer_le hdepth]
    refine ⟨_, top, top.leftmost target, _, ?_, splits_splitOff hfit hvalid hdepth,
      (buddyAllocLayer_freeBlocks_iff hfree hdepth hlayers hfit).mpr (hspares top hfit)⟩
    rw [halloc, ← hptr]

/-- An allocation takes one block, and puts its parts on the lists, exactly
when it writes no bit into a link. -/
theorem takesOneBlock_iff (hfree : FreeBlocks site memory free) (hpages : 1 ≤ pages)
    (htarget : bestFitLayer pages (2 ^ site.depth) = some target) (hlayers : target < site.layers) :
    TakesOneBlock site memory free pages target ↔
      ∀ top, FirstFit free target top → SparesLinks site memory free top target :=
  ⟨fun htakes _ hfit => sparesLinks_of_takesOneBlock hfree hpages htarget hlayers hfit htakes,
    takesOneBlock_of_sparesLinks hfree hpages htarget hlayers⟩

end Allocation

/-! ## A bitmap that reaches its first page -/

/-- The tables of the pool `[8056, 540672)`: 129 managed pages, and a bitmap of
32 bytes that reaches eight bytes into the first page. -/
def overlappingSite : Site where
  alloc := 8056
  freelist := 8104
  bitmap := 8168
  layers := 8
  begin_ := 8192
  depth := 7
  alloc_pos := by decide
  header_le := by decide
  heads_le := by decide
  bitmap_le := by decide
  room := by decide

/-- That pool after two allocations and the free of the first page. -/
def overlappingPool : Memory :=
  (((buddyInit (fun _ => 0) 8056 540672).bind fun (alloc, memory) =>
    (Runs.run (BuddyRuns.step alloc) ⟨memory, []⟩ [.alloc 64, .alloc 32, .free 8192]).map
      BuddyRuns.Client.memory)).getD fun _ => 0

theorem freeBlocks_overlappingPool :
    FreeBlocks overlappingSite overlappingPool [⟨1, 0⟩, ⟨2, 3⟩] where
  bitmap_eq := by decide +kernel
  freelist_eq := by decide +kernel
  layers_eq := by decide +kernel
  root_eq := by decide +kernel
  begin_eq := by decide +kernel
  lists := by decide +kernel
  valid := by decide +kernel
  apart := by decide +kernel

/-- A request for 16 pages writes the bits of nodes above the leaves only. -/
theorem takesOneBlock_overlappingPool :
    TakesOneBlock overlappingSite overlappingPool [⟨1, 0⟩, ⟨2, 3⟩] 16 3 := by
  apply (takesOneBlock_iff freeBlocks_overlappingPool (by decide) (by decide +kernel)
    (by decide)).mpr
  intro top hfit
  obtain rfl : top = ⟨2, 3⟩ := hfit.unique ⟨by decide, by decide, [], by decide⟩
  exact ⟨by decide +kernel, by decide +kernel⟩

/-- A request for one page there sets a bit in the link of the first page. -/
theorem not_takesOneBlock_overlappingPool :
    ¬ ∀ (site : Site) (memory : Memory) (free : List Block) (pages target : ℕ),
      FreeBlocks site memory free → 1 ≤ pages → pages ≤ 2 ^ site.depth →
      bestFitLayer pages (2 ^ site.depth) = some target → target < site.layers →
      TakesOneBlock site memory free pages target := by
  intro hclaim
  have htakes := hclaim _ _ _ 1 7 freeBlocks_overlappingPool (by decide) (by decide)
    (by decide +kernel) (by decide)
  have hfit : FirstFit [⟨1, 0⟩, ⟨2, 3⟩] 7 ⟨2, 3⟩ := ⟨by decide, by decide, [], by decide⟩
  have hspares := sparesLinks_of_takesOneBlock freeBlocks_overlappingPool (by decide)
    (by decide +kernel) (by decide) hfit htakes
  have hkept := hspares.old ⟨1, 0⟩ (by decide) 8196 (by decide)
  exact absurd hkept (by decide +kernel)

end DoomsdayModules.BuddySplit
