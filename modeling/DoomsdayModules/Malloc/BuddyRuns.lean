import DoomsdayModules.Core.Runs
import DoomsdayModules.Malloc.BuddyInit

/-!
# Runs of a buddy client

A client allocates and frees blocks of a fresh pool and writes inside the
blocks it holds.  The blocks on the free lists and the live blocks partition the
managed pages as long as every freed block is the left half of its parent or
the root.  The split loop leaves the bit of a right half set, so `buddy_free`
of a right half climbs past the block and frees the whole pool.
-/

namespace DoomsdayModules.BuddyRuns

open DoomsdayModules.ByteMemory DoomsdayModules.Runs DoomsdayModules.Util
open DoomsdayModules.BuddyUtil DoomsdayModules.IntrusiveStack DoomsdayModules.DyadicBlocks
open DoomsdayModules.Buddy DoomsdayModules.BuddyInvariant DoomsdayModules.BuddyMoves
open DoomsdayModules.BuddyInit

/-! ## The client -/

/-- A pointer that `buddy_alloc` returned and the number of pages asked for. -/
structure Allocation where
  ptr : ℕ
  pages : ℕ
  deriving DecidableEq

structure Client where
  memory : Memory
  live : List Allocation

inductive Op where
  | alloc (pages : ℕ)
  | free (ptr : ℕ)
  | write (address : ℕ) (byte : UInt8)

def step (alloc : ℕ) (client : Client) : Op → Option Client
  | .alloc pages => (buddyAlloc client.memory alloc pages).map fun (ptr, memory) =>
      if ptr = 0 then { client with memory := memory }
      else { memory := memory, live := ⟨ptr, pages⟩ :: client.live }
  | .free ptr => (buddyFree client.memory alloc ptr).map fun memory =>
      { memory := memory, live := client.live.eraseP fun entry => entry.ptr = ptr }
  | .write address byte => some { client with memory := writeByte client.memory address byte }

/-- Layer of the block that a request for at least one page gets. -/
def fitLayer (memory : Memory) (alloc pages : ℕ) : ℕ :=
  (bestFitLayer pages (rootBlockSize memory alloc)).getD 0

def fitPages (memory : Memory) (alloc pages : ℕ) : ℕ :=
  blockSize (fitLayer memory alloc pages) (rootBlockSize memory alloc)

/-- What the client of a buddy allocator may do. -/
def Legal (alloc : ℕ) (client : Client) : Op → Prop
  | .alloc pages => 1 ≤ pages ∧ pages ≤ rootBlockSize client.memory alloc
  | .free ptr => ∃ entry ∈ client.live, entry.ptr = ptr
  | .write address _ => ∃ entry ∈ client.live, entry.ptr ≤ address ∧
      address < entry.ptr + fitPages client.memory alloc entry.pages * pageSize

instance (alloc : ℕ) (client : Client) : ∀ op, Decidable (Legal alloc client op)
  | .alloc _ => inferInstanceAs (Decidable (_ ∧ _))
  | .free _ => inferInstanceAs (Decidable (∃ entry ∈ client.live, _))
  | .write _ _ => inferInstanceAs (Decidable (∃ entry ∈ client.live, _))

/-! ## The partition -/

/-- A run of pages at an address. -/
structure Span where
  ptr : ℕ
  pages : ℕ
  deriving DecidableEq

def Span.Contains (span : Span) (address : ℕ) : Prop :=
  span.ptr ≤ address ∧ address < span.ptr + span.pages * pageSize

instance (span : Span) (address : ℕ) : Decidable (span.Contains address) :=
  inferInstanceAs (Decidable (_ ∧ _))

/-- The free blocks, given the nodes of each free list. -/
def freeSpans (memory : Memory) (alloc : ℕ) (lists : ℕ → List ℕ) : List Span :=
  (List.range (buddyLayers memory alloc)).flatMap fun layer =>
    (lists layer).map fun ptr => ⟨ptr, blockSize layer (rootBlockSize memory alloc)⟩

/-- The live blocks, each of the size its request was rounded to. -/
def liveSpans (memory : Memory) (alloc : ℕ) (live : List Allocation) : List Span :=
  live.map fun entry => ⟨entry.ptr, fitPages memory alloc entry.pages⟩

/-- The spans are runs of managed pages, and each managed page is in exactly one. -/
structure Partitions (memory : Memory) (alloc : ℕ) (spans : List Span) : Prop where
  managed : ∀ span ∈ spans, ∃ first,
    span.ptr = pageAddress (poolBegin memory alloc) first ∧
      first + span.pages ≤ rootBlockSize memory alloc
  once : ∀ page < rootBlockSize memory alloc, spans.countP
    (fun span => span.Contains (pageAddress (poolBegin memory alloc) page)) = 1

/-- The free lists are well formed, and their blocks and the live blocks
partition the managed pages. -/
def PagesPartitioned (alloc : ℕ) (client : Client) : Prop :=
  ∃ lists : ℕ → List ℕ,
    (∀ layer < buddyLayers client.memory alloc, IsStack client.memory
      (readWord client.memory (freelistSlot client.memory alloc layer)) (lists layer)) ∧
    Partitions client.memory alloc
      (freeSpans client.memory alloc lists ++ liveSpans client.memory alloc client.live)

/-! ## The invariant of a client -/

/-- The block behind a live allocation. -/
def liveBlock (layout : Layout) (entry : Allocation) : Block :=
  let layer := (bestFitLayer entry.pages (2 ^ layout.depth)).getD 0
  ⟨layer, toIndex layout.begin_ layer entry.ptr (2 ^ layout.depth)⟩

/-- The memory represents the free blocks and the client's live blocks. -/
structure Holds (layout : Layout) (free : List Block) (client : Client) : Prop where
  represents : Represents layout client.memory free (client.live.map (liveBlock layout))
  located : ∀ entry ∈ client.live, entry.ptr = layout.address (liveBlock layout entry)

variable {layout : Layout} {free : List Block} {client : Client}

theorem fitLayer_eq (hheader : Header layout client.memory) (entry : Allocation) :
    fitLayer client.memory layout.alloc entry.pages = (liveBlock layout entry).layer := by
  rw [fitLayer, hheader.root_eq]
  rfl

/-- A block that serves a request is the one its pointer and size stand for. -/
theorem liveBlock_eq {block : Block} {pages : ℕ} (hvalid : block.Valid layout.depth)
    (hlayer : bestFitLayer pages (2 ^ layout.depth) = some block.layer) :
    liveBlock layout ⟨layout.address block, pages⟩ = block := by
  simp only [liveBlock, hlayer, Option.getD_some, Layout.address,
    toIndex_pageAddress hvalid layout.room.le]

namespace Holds

theorem valid (hholds : Holds layout free client) {entry : Allocation}
    (hmem : entry ∈ client.live) : (liveBlock layout entry).Valid layout.depth :=
  hholds.represents.valid (List.mem_append_left _ (List.mem_map_of_mem hmem))

theorem fitPages_eq (hholds : Holds layout free client) {entry : Allocation}
    (hmem : entry ∈ client.live) :
    fitPages client.memory layout.alloc entry.pages =
      (liveBlock layout entry).size layout.depth := by
  rw [fitPages, fitLayer_eq hholds.represents.toHeader, hholds.represents.root_eq]
  exact blockSize_eq_size _ (hholds.valid hmem).1

end Holds

/-! ## The invariant is a partition -/

def blockSpan (layout : Layout) (block : Block) : Span :=
  ⟨layout.address block, block.size layout.depth⟩

theorem blockSpan_contains {block : Block} {page : ℕ} :
    (blockSpan layout block).Contains (pageAddress layout.begin_ page) ↔
      block.Covers layout.depth page := by
  simp only [Span.Contains, blockSpan, Layout.address, pageAddress, pageSize, Block.Covers,
    Block.stop]
  omega

/-- The free blocks, taken layer by layer. -/
theorem freeAt_flatMap_perm (free : List Block) (layers : ℕ) :
    ((List.range layers).flatMap (freeAt free)).Perm
      (free.filter fun block => block.layer < layers) := by
  induction layers with
  | zero => simp
  | succ layers ih =>
      have hbelow : ((free.filter fun block => block.layer < layers + 1).filter
          fun block => block.layer < layers) = free.filter fun block => block.layer < layers := by
        rw [List.filter_filter]
        apply List.filter_congr
        intro block _
        simp only [← Bool.decide_and, decide_eq_decide]
        omega
      have hat : ((free.filter fun block => block.layer < layers + 1).filter
          fun block => !decide (block.layer < layers)) = freeAt free layers := by
        rw [List.filter_filter, freeAt]
        apply List.filter_congr
        intro block _
        simp only [← decide_not, ← Bool.decide_and, decide_eq_decide]
        omega
      have hsplit := List.filter_append_perm (fun block : Block => decide (block.layer < layers))
        (free.filter fun block => block.layer < layers + 1)
      rw [hbelow, hat] at hsplit
      rw [List.range_succ, List.flatMap_append, List.flatMap_singleton]
      exact (ih.append_right _).trans hsplit

/-- The spans of the free lists are those of the free blocks. -/
theorem freeSpans_eq (hholds : Holds layout free client) :
    freeSpans client.memory layout.alloc (fun layer => (freeAt free layer).map layout.address) =
      ((List.range (layout.depth + 1)).flatMap (freeAt free)).map (blockSpan layout) := by
  have hrep := hholds.represents
  rw [freeSpans, hrep.layers_eq, hrep.root_eq, List.map_flatMap]
  apply List.flatMap_congr
  intro layer _
  rw [List.map_map]
  apply List.map_congr_left
  intro block hblock
  obtain ⟨hfree, rfl⟩ := mem_freeAt.mp hblock
  simp only [Function.comp_apply, blockSpan,
    blockSize_eq_size block.index (hrep.valid_free hfree).1]

theorem liveSpans_eq (hholds : Holds layout free client) :
    liveSpans client.memory layout.alloc client.live =
      (client.live.map (liveBlock layout)).map (blockSpan layout) := by
  rw [liveSpans, List.map_map]
  apply List.map_congr_left
  intro entry hentry
  simp only [Function.comp_apply, blockSpan, hholds.fitPages_eq hentry,
    hholds.located entry hentry]

/-- What the memory represents is a partition of the managed pages. -/
theorem Holds.partitioned (hholds : Holds layout free client) :
    PagesPartitioned layout.alloc client := by
  have hrep := hholds.represents
  have hall : (free.filter fun block => block.layer < layout.depth + 1) = free := by
    rw [List.filter_eq_self]
    intro block hblock
    simpa using Nat.lt_succ_of_le (hrep.valid_free hblock).1
  have hperm : ((List.range (layout.depth + 1)).flatMap (freeAt free) ++
      client.live.map (liveBlock layout)).Perm (client.live.map (liveBlock layout) ++ free) :=
    ((hall ▸ freeAt_flatMap_perm free (layout.depth + 1)).append_right _).trans
      List.perm_append_comm
  have htiling := hrep.tiling.perm hperm.symm
  refine ⟨fun layer => (freeAt free layer).map layout.address, ?_, ?_⟩
  · intro layer hlayer
    rw [hrep.layers_eq] at hlayer
    rw [hrep.slot_eq]
    exact hrep.lists layer (by omega)
  rw [freeSpans_eq hholds, liveSpans_eq hholds, ← List.map_append]
  refine ⟨?_, ?_⟩
  · intro span hspan
    obtain ⟨block, hblock, rfl⟩ := List.mem_map.mp hspan
    refine ⟨block.start layout.depth, ?_, ?_⟩
    · rw [hrep.begin_eq]
      rfl
    · rw [hrep.root_eq]
      exact Block.stop_le (htiling.valid block hblock)
  · intro page hpage
    rw [hrep.root_eq] at hpage
    rw [hrep.begin_eq, List.countP_map]
    refine (List.countP_congr ?_).trans (htiling.once page hpage)
    intro block _
    simpa using blockSpan_contains

/-! ## What one operation does -/

/-- An allocation either finds no block and changes nothing, or takes the
first free block of the layer its search stops at. -/
theorem alloc_step (hholds : Holds layout free client) {pages : ℕ} (hpages : 1 ≤ pages) :
    ∃ target ≤ layout.depth, bestFitLayer pages (2 ^ layout.depth) = some target ∧
      ((step layout.alloc client (.alloc pages) = some client ∧
          ∀ layer ≤ target, freeAt free layer = []) ∨
        ∃ top next free', top ∈ free ∧
          top.layer = searchLayer client.memory layout.alloc target ∧
          step layout.alloc client (.alloc pages) = some next ∧
          next.live.map (liveBlock layout) =
            top.leftmost target :: client.live.map (liveBlock layout) ∧
          Holds layout free' next) := by
  have hrep := hholds.represents
  obtain ⟨target, htarget, hfit⟩ := bestFitLayer_eq_some layout hpages
  have halloc := buddyAlloc_eq hrep.toHeader hfit
  refine ⟨target, htarget, hfit, ?_⟩
  rcases buddyAllocLayer_represents hrep htarget with ⟨hnone, hempty⟩ |
    ⟨top, free', htop, hle, hsearch, hptr, hrep', -⟩
  · left
    refine ⟨?_, hempty⟩
    simp [step, halloc, hnone]
  · right
    have hblock := liveBlock_eq ((hrep.valid_free htop).leftmost hle htarget) hfit
    refine ⟨top, ⟨(buddyAllocLayer client.memory layout.alloc target).2,
      ⟨layout.address (top.leftmost target), pages⟩ :: client.live⟩, free', htop,
      hsearch, ?_, ?_, ?_⟩
    · simp only [step, halloc, Option.map_some, hptr, if_neg (layout.address_pos _)]
    · simp only [List.map_cons, hblock]
    · refine ⟨by simpa only [List.map_cons, hblock] using hrep', ?_⟩
      intro entry hentry
      rcases List.mem_cons.mp hentry with rfl | hentry
      · rw [hblock]
      · exact hholds.located entry hentry

/-- The block is the left half of its parent, or the root, and its first page's
number fits the `int` that `buddy_free` keeps it in. -/
def FreesLeftHalf (alloc : ℕ) (client : Client) : Op → Prop
  | .free ptr => ∀ entry ∈ client.live, entry.ptr = ptr →
      toIndex (poolBegin client.memory alloc) (fitLayer client.memory alloc entry.pages) ptr
        (rootBlockSize client.memory alloc) % 2 = 0 ∧
      toIndex (poolBegin client.memory alloc) (buddyLayers client.memory alloc - 1) ptr
        (rootBlockSize client.memory alloc) < 2 ^ 31
  | _ => True

instance (alloc : ℕ) (client : Client) : ∀ op, Decidable (FreesLeftHalf alloc client op)
  | .alloc _ => isTrue trivial
  | .free _ => inferInstanceAs (Decidable (∀ entry ∈ client.live, _))
  | .write _ _ => isTrue trivial

theorem freesLeftHalf_iff (hholds : Holds layout free client) {ptr : ℕ} :
    FreesLeftHalf layout.alloc client (.free ptr) ↔
      ∀ entry ∈ client.live, entry.ptr = ptr → (liveBlock layout entry).index % 2 = 0 ∧
        (liveBlock layout entry).start layout.depth < 2 ^ 31 := by
  have hrep := hholds.represents
  apply forall₂_congr
  rintro entry hentry
  apply forall_congr'
  rintro rfl
  have hstart := ((liveBlock layout entry).start_lt_stop layout.depth).trans_le
    (Block.stop_le (hholds.valid hentry))
  have hindex : toIndex layout.begin_ (liveBlock layout entry).layer entry.ptr
      (2 ^ layout.depth) = (liveBlock layout entry).index := rfl
  have hleaf : toIndex layout.begin_ layout.depth entry.ptr (2 ^ layout.depth) =
      (liveBlock layout entry).start layout.depth := by
    rw [hholds.located entry hentry, Layout.address, toIndex_leaf hstart layout.room.le]
  rw [hrep.begin_eq, hrep.root_eq, hrep.layers_eq, fitLayer_eq hrep.toHeader,
    Nat.add_sub_cancel, hindex, hleaf]

/-- Freeing a left half, or the root, gives its block back. -/
theorem free_step (hholds : Holds layout free client) {ptr : ℕ}
    (hlegal : Legal layout.alloc client (.free ptr))
    (hleft : FreesLeftHalf layout.alloc client (.free ptr)) :
    ∃ entry next, step layout.alloc client (.free ptr) = some next ∧
      client.live.Perm (entry :: next.live) ∧
      Holds layout (liveBlock layout entry :: free) next := by
  obtain ⟨witness, hwitness, hptr⟩ := hlegal
  obtain ⟨entry, before, after, -, hentry, hsplit, herase⟩ :=
    List.exists_of_eraseP (p := fun entry : Allocation => decide (entry.ptr = ptr)) hwitness
      (decide_eq_true hptr)
  obtain rfl := of_decide_eq_true hentry
  have hperm : client.live.Perm (entry :: (before ++ after)) := hsplit ▸ List.perm_middle
  have hmem : entry ∈ client.live := hperm.mem_iff.mpr List.mem_cons_self
  have hrep := hholds.represents.perm_live (hperm.map (liveBlock layout))
  obtain ⟨heven, hint⟩ := (freesLeftHalf_iff hholds).mp hleft entry hmem rfl
  obtain ⟨memory', hfree, hrep', -⟩ := buddyFree_represents hrep heven hint
  rw [← hholds.located entry hmem] at hfree
  refine ⟨entry, ⟨memory', before ++ after⟩, ?_, hperm, ⟨hrep', ?_⟩⟩
  · simp only [step, hfree, Option.map_some, herase]
  · intro other hother
    exact hholds.located other (hperm.mem_iff.mpr (List.mem_cons_of_mem _ hother))

/-- Writing inside a live block changes nothing the allocator relies on. -/
theorem write_step (hholds : Holds layout free client) {address : ℕ} {byte : UInt8}
    (hlegal : Legal layout.alloc client (.write address byte)) :
    ∃ next, step layout.alloc client (.write address byte) = some next ∧
      next.live = client.live ∧ Holds layout free next := by
  obtain ⟨entry, hentry, hlower, hupper⟩ := hlegal
  rw [hholds.fitPages_eq hentry] at hupper
  have hmem : liveBlock layout entry ∈ client.live.map (liveBlock layout) :=
    List.mem_map_of_mem hentry
  have hinside : layout.InBlock (liveBlock layout entry) address := by
    have hlocated := hholds.located entry hentry
    refine ⟨by omega, ?_⟩
    simp only [Layout.addressStop, Layout.address, pageAddress, Block.stop, add_mul] at hlocated ⊢
    omega
  refine ⟨_, rfl, rfl, ⟨hholds.represents.frame ?_, hholds.located⟩⟩
  intro query houtside
  apply writeByte_of_ne
  rintro rfl
  exact houtside (hholds.represents.live_byte hmem hinside)

/-- Every operation of a client that frees only left halves keeps the invariant. -/
theorem step_holds (hholds : Holds layout free client) {op : Op}
    (hlegal : Legal layout.alloc client op) (hleft : FreesLeftHalf layout.alloc client op) :
    ∃ next, step layout.alloc client op = some next ∧ ∃ free', Holds layout free' next := by
  cases op with
  | alloc pages =>
      obtain ⟨target, -, -, ⟨hstep, -⟩ | ⟨top, next, free', -, -, hstep, -, hnext⟩⟩ :=
        alloc_step hholds hlegal.1
      · exact ⟨client, hstep, free, hholds⟩
      · exact ⟨next, hstep, free', hnext⟩
  | free ptr =>
      obtain ⟨entry, next, hstep, -, hnext⟩ := free_step hholds hlegal hleft
      exact ⟨next, hstep, _, hnext⟩
  | write address byte =>
      obtain ⟨next, hstep, -, hnext⟩ := write_step hholds hlegal
      exact ⟨next, hstep, free, hnext⟩

/-! ## The partition over runs -/

/-- In every run that frees only left halves, the free and the live blocks
partition the managed pages at every point. -/
theorem pages_partitioned_of_frees_left_half {memory memory₀ : Memory} {begin_ end_ alloc : ℕ}
    (horder : begin_ ≤ end_) (hend : end_ < wordSize)
    (hinit : buddyInit memory begin_ end_ = some (alloc, memory₀)) (halloc : alloc ≠ 0)
    (hsized : WellSized memory₀ alloc) {ops : List Op}
    (hrun : AllSteps (step alloc)
      (fun client op => Legal alloc client op ∧ FreesLeftHalf alloc client op)
      ⟨memory₀, []⟩ ops) :
    ∀ done, done <+: ops → ∃ client, run (step alloc) ⟨memory₀, []⟩ done = some client ∧
      PagesPartitioned alloc client := by
  obtain ⟨layout, rfl, -, -, hrep⟩ := buddyInit_represents horder hend hinit halloc hsized
  have hholds : Holds layout [rootBlock] ⟨memory₀, []⟩ := ⟨hrep, by simp⟩
  intro done hdone
  obtain ⟨client, hreached, free, hinv⟩ :=
    run_preserves_throughout (fun client => ∃ free, Holds layout free client)
      (fun client op ⟨free, hinv⟩ ⟨hlegal, hleft⟩ => step_holds hinv hlegal hleft)
      ⟨_, hholds⟩ hrun done hdone
  exact ⟨client, hreached, hinv.partitioned⟩

/-- A well-sized pool with a root block of 16 pages. -/
def smallPool : Memory := ((buddyInit (fun _ => 0) 4096 139264).getD (0, fun _ => 0)).2

theorem buddyInit_smallPool :
    buddyInit (fun _ => 0) 4096 139264 = some (4096, smallPool) := by
  have hfst : (buddyInit (fun _ => 0) 4096 139264).map Prod.fst = some 4096 := by decide +kernel
  obtain ⟨⟨alloc, memory⟩, hinit, rfl⟩ := Option.map_eq_some_iff.mp hfst
  rw [smallPool, hinit]
  rfl

theorem smallPool_wellSized : WellSized smallPool 4096 :=
  ⟨4, by decide +kernel, by decide +kernel, by decide +kernel⟩

theorem pages_partitioned_smallPool :
    ∃ client, run (step 4096) ⟨smallPool, []⟩
        [.alloc 1, .alloc 1, .alloc 3, .write 12288 7, .free 8192] = some client ∧
      PagesPartitioned 4096 client :=
  pages_partitioned_of_frees_left_half (by decide) (by decide) buddyInit_smallPool (by decide)
    smallPool_wellSized (by decide +kernel) _ (List.prefix_refl _)

/-- The first block of a free list and a live block share no page. -/
theorem PagesPartitioned.head_apart {alloc : ℕ} {client : Client}
    (hpartition : PagesPartitioned alloc client) (layer page : ℕ) (entry : Allocation)
    (hlayer : layer < buddyLayers client.memory alloc)
    (hhead : readWord client.memory (freelistSlot client.memory alloc layer) ≠ 0)
    (hentry : entry ∈ client.live) (hpage : page < rootBlockSize client.memory alloc)
    (hfree : (Span.mk (readWord client.memory (freelistSlot client.memory alloc layer))
      (blockSize layer (rootBlockSize client.memory alloc))).Contains
        (pageAddress (poolBegin client.memory alloc) page)) :
    ¬ (Span.mk entry.ptr (fitPages client.memory alloc entry.pages)).Contains
      (pageAddress (poolBegin client.memory alloc) page) := by
  intro hlive
  obtain ⟨lists, hlists, hparts⟩ := hpartition
  have hlist := hlists layer hlayer
  cases hnodes : lists layer with
  | nil =>
      rw [hnodes] at hlist
      exact hhead hlist
  | cons node rest =>
      rw [hnodes] at hlist
      have honce := hparts.once page hpage
      rw [List.countP_append] at honce
      rw [hlist.1] at hfree
      have hnode : Span.mk node (blockSize layer (rootBlockSize client.memory alloc)) ∈
          freeSpans client.memory alloc lists :=
        List.mem_flatMap.mpr ⟨layer, List.mem_range.mpr hlayer,
          List.mem_map.mpr ⟨node, hnodes ▸ List.mem_cons_self, rfl⟩⟩
      have hspan : Span.mk entry.ptr (fitPages client.memory alloc entry.pages) ∈
          liveSpans client.memory alloc client.live := List.mem_map.mpr ⟨entry, hentry, rfl⟩
      have hfreePos := List.countP_pos_iff (p := fun span : Span => decide
        (span.Contains (pageAddress (poolBegin client.memory alloc) page))) |>.mpr
        ⟨_, hnode, decide_eq_true hfree⟩
      have hlivePos := List.countP_pos_iff (p := fun span : Span => decide
        (span.Contains (pageAddress (poolBegin client.memory alloc) page))) |>.mpr
        ⟨_, hspan, decide_eq_true hlive⟩
      omega

/-- Freeing a right half whose left half is live frees the whole pool. -/
theorem pages_not_partitioned_after_right_half :
    ¬ ∀ (memory memory₀ : Memory) (begin_ end_ alloc : ℕ) (ops : List Op), begin_ ≤ end_ →
      end_ < wordSize → buddyInit memory begin_ end_ = some (alloc, memory₀) → alloc ≠ 0 →
      WellSized memory₀ alloc → AllSteps (step alloc) (Legal alloc) ⟨memory₀, []⟩ ops →
      ∀ done, done <+: ops → ∃ client, run (step alloc) ⟨memory₀, []⟩ done = some client ∧
        PagesPartitioned alloc client := by
  intro hclaim
  obtain ⟨client, hrun, hpartition⟩ := hclaim _ _ _ _ _ [.alloc 1, .alloc 1, .free 12288]
    (by decide) (by decide) buddyInit_smallPool (by decide) smallPool_wellSized
    (by decide +kernel) _ (List.prefix_refl _)
  obtain rfl : (run (step 4096) ⟨smallPool, []⟩ [.alloc 1, .alloc 1, .free 12288]).getD
      ⟨smallPool, []⟩ = client := by rw [hrun, Option.getD_some]
  -- the first page is in the root block on list 0 and in the block at 8192
  exact hpartition.head_apart 0 0 ⟨8192, 1⟩ (by decide +kernel) (by decide +kernel)
    (by decide +kernel) (by decide +kernel) (by decide +kernel) (by decide +kernel)

end DoomsdayModules.BuddyRuns
