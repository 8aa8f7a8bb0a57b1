import DoomsdayModules.Malloc.BuddyRuns

/-!
# Coalescing

A pool is coalesced when its only free block is the root.  A left half always
finds its buddy's bit set, so `buddy_free` never merges two halves: a run that
frees everything is back at one root block exactly when it never entered the
split loop.
-/

namespace DoomsdayModules.BuddyCoalescing

open DoomsdayModules.ByteMemory DoomsdayModules.Runs DoomsdayModules.Util
open DoomsdayModules.BuddyUtil DoomsdayModules.IntrusiveStack DoomsdayModules.DyadicBlocks
open DoomsdayModules.Buddy DoomsdayModules.BuddyInvariant DoomsdayModules.BuddyMoves
open DoomsdayModules.BuddyInit DoomsdayModules.BuddyRuns

variable {layout : Layout} {free : List Block} {client : Client}

/-- One free block of the root layer, and nothing else free. -/
structure Coalesced (alloc : ℕ) (memory : Memory) : Prop where
  root_free : IsStack memory (readWord memory (freelistSlot memory alloc 0))
    [poolBegin memory alloc]
  others_empty : ∀ layer, 0 < layer → layer < buddyLayers memory alloc →
    readWord memory (freelistSlot memory alloc layer) = 0
  root_available : ∃ ptr memory', ptr ≠ 0 ∧
    buddyAlloc memory alloc (rootBlockSize memory alloc) = some (ptr, memory')

/-- The allocation does not enter the split loop: the layer where the search
for a free block stops is the requested one, or its list is empty. -/
def SplitsNothing (alloc : ℕ) (client : Client) : Op → Prop
  | .alloc pages => ∀ target ∈ bestFitLayer pages (rootBlockSize client.memory alloc),
      searchLayer client.memory alloc target = target ∨
        readWord client.memory (freelistSlot client.memory alloc
          (searchLayer client.memory alloc target)) = 0
  | _ => True

instance (alloc : ℕ) (client : Client) : ∀ op, Decidable (SplitsNothing alloc client op)
  | .alloc _ => inferInstanceAs (Decidable (∀ target ∈ bestFitLayer _ _, _))
  | .free _ => isTrue trivial
  | .write _ _ => isTrue trivial

/-- Every block is the root block. -/
def Whole (layout : Layout) (free : List Block) (client : Client) : Prop :=
  rootBlock ∈ client.live.map (liveBlock layout) ++ free

theorem Whole.eq_root (hwhole : Whole layout free client) (hholds : Holds layout free client)
    {block : Block} (hmem : block ∈ client.live.map (liveBlock layout) ++ free) :
    block = rootBlock := by
  rw [hholds.represents.tiling.eq_root hwhole] at hmem
  exact List.mem_singleton.mp hmem

theorem slot_empty_iff (hholds : Holds layout free client) {layer : ℕ}
    (hlayer : layer ≤ layout.depth) :
    readWord client.memory (freelistSlot client.memory layout.alloc layer) = 0 ↔
      freeAt free layer = [] := by
  rw [hholds.represents.slot_eq, (hholds.represents.lists layer hlayer).head_eq_zero_iff,
    List.map_eq_nil_iff]

/-- A whole pool that is free is coalesced. -/
theorem Whole.coalesced (hwhole : Whole layout free client) (hholds : Holds layout free client)
    (hlive : client.live = []) : Coalesced layout.alloc client.memory := by
  have hrep := hholds.represents
  have hfree : free = [rootBlock] := by
    have hall := hrep.tiling.eq_root hwhole
    rwa [hlive] at hall
  subst hfree
  have hone : 1 ≤ 2 ^ layout.depth := Nat.one_le_two_pow
  refine ⟨?_, ?_, ?_⟩
  · have hlist := hrep.lists 0 (Nat.zero_le _)
    rw [show freeAt [rootBlock] 0 = [rootBlock] from rfl, List.map_singleton,
      address_rootBlock] at hlist
    rwa [hrep.slot_eq, hrep.begin_eq]
  · intro layer hpos hlayer
    rw [hrep.layers_eq] at hlayer
    rw [slot_empty_iff hholds (by omega), freeAt_cons_of_ne (Nat.ne_of_lt hpos)]
    rfl
  · obtain ⟨target, htarget, hfit⟩ := bestFitLayer_eq_some layout hone
    rw [hrep.root_eq, buddyAlloc_eq hrep.toHeader hfit]
    refine ⟨(buddyAllocLayer client.memory layout.alloc target).1,
      (buddyAllocLayer client.memory layout.alloc target).2, ?_, rfl⟩
    rcases buddyAllocLayer_represents hrep htarget with ⟨-, hempty⟩ |
      ⟨top, -, -, -, -, hptr, -, -⟩
    · exact absurd (hempty 0 (Nat.zero_le _)) (by simp [freeAt, rootBlock])
    · rw [hptr]
      exact layout.address_pos _

/-- Conversely only a whole pool is coalesced. -/
theorem whole_of_coalesced (hholds : Holds layout free client)
    (hcoalesced : Coalesced layout.alloc client.memory) : Whole layout free client := by
  have hrep := hholds.represents
  have hlist := hrep.lists 0 (Nat.zero_le _)
  have hroot := hcoalesced.root_free
  rw [hrep.slot_eq] at hroot
  obtain ⟨block, hblock, -⟩ : ∃ block ∈ freeAt free 0, layout.address block ∈
      [poolBegin client.memory layout.alloc] := by
    have hnodes := hlist.unique hroot
    cases hfree : freeAt free 0 with
    | nil => rw [hfree] at hnodes; simp at hnodes
    | cons block rest =>
        refine ⟨block, List.mem_cons_self, ?_⟩
        rw [← hnodes, hfree]
        exact List.mem_cons_self
  obtain ⟨hmem, hlayer⟩ := mem_freeAt.mp hblock
  have hindex := (hrep.valid_free hmem).2
  have hblockRoot : block = rootBlock := by
    cases block
    simp_all [rootBlock]
  exact List.mem_append_right _ (hblockRoot ▸ hmem)

/-- A whole pool whose client splits nothing stays whole. -/
theorem Whole.step (hwhole : Whole layout free client) (hholds : Holds layout free client)
    {op : Op} (hlegal : Legal layout.alloc client op)
    (hsplits : SplitsNothing layout.alloc client op) :
    ∃ next, step layout.alloc client op = some next ∧
      ∃ free', Holds layout free' next ∧ Whole layout free' next := by
  have hrep := hholds.represents
  cases op with
  | alloc pages =>
      obtain ⟨target, -, hfit, ⟨hstep, -⟩ |
        ⟨top, next, free', htop, hsearch, hstep, hlive, hnext⟩⟩ := alloc_step hholds hlegal.1
      · exact ⟨client, hstep, free, hholds, hwhole⟩
      · refine ⟨next, hstep, free', hnext, ?_⟩
        obtain rfl := hwhole.eq_root hholds (List.mem_append_right _ htop)
        have hzero : searchLayer client.memory layout.alloc target = 0 := hsearch.symm
        have htarget : target = 0 := by
          rcases hsplits target (hrep.root_eq ▸ hfit) with hsame | hempty
          · rw [← hsame, hzero]
          · rw [hzero, slot_empty_iff hholds (Nat.zero_le _)] at hempty
            exact absurd hempty (List.ne_nil_of_mem (mem_freeAt.mpr ⟨htop, rfl⟩))
        rw [Whole, hlive, htarget]
        exact List.mem_append_left _ (by simp [rootBlock, Block.leftmost])
  | free ptr =>
      have hleft : FreesLeftHalf layout.alloc client (.free ptr) := by
        rw [freesLeftHalf_iff hholds]
        intro entry hentry _
        rw [hwhole.eq_root hholds (List.mem_append_left _ (List.mem_map_of_mem hentry))]
        simp [rootBlock, Block.start]
      obtain ⟨entry, next, hstep, hperm, hnext⟩ := free_step hholds hlegal hleft
      refine ⟨next, hstep, _, hnext, ?_⟩
      have hentry := hperm.mem_iff.mpr List.mem_cons_self
      have hroot := hwhole.eq_root hholds
        (List.mem_append_left _ (List.mem_map_of_mem (f := liveBlock layout) hentry))
      exact List.mem_append_right _ (hroot ▸ List.mem_cons_self)
  | write address byte =>
      obtain ⟨next, hstep, hlive, hnext⟩ := write_step hholds hlegal
      exact ⟨next, hstep, free, hnext, by rwa [Whole, hlive]⟩

/-- A step that leaves the pool whole found it whole and split nothing. -/
theorem whole_of_step (hholds : Holds layout free client) {op : Op} {next : Client}
    (hlegal : Legal layout.alloc client op) (hleft : FreesLeftHalf layout.alloc client op)
    (hstep : step layout.alloc client op = some next) :
    ∃ free', Holds layout free' next ∧
      (Whole layout free' next → Whole layout free client ∧
        SplitsNothing layout.alloc client op) := by
  have hrep := hholds.represents
  cases op with
  | alloc pages =>
      obtain ⟨target, htarget, hfit, ⟨hsame, hempty⟩ |
        ⟨top, next', free', htop, hsearch, hstep', hlive, hnext⟩⟩ := alloc_step hholds hlegal.1
      · obtain rfl := Option.some.inj (hsame.symm.trans hstep)
        refine ⟨free, hholds, fun hwhole => ⟨hwhole, ?_⟩⟩
        intro target' htarget'
        rw [hrep.root_eq] at htarget'
        obtain rfl := Option.some.inj (hfit.symm.trans htarget')
        have hsearch := (searchLayer_spec hrep htarget).1
        exact .inr ((slot_empty_iff hholds (by omega)).mpr (hempty _ hsearch))
      · obtain rfl := Option.some.inj (hstep'.symm.trans hstep)
        refine ⟨free', hnext, fun hwhole => ?_⟩
        have hroot : top.leftmost target = rootBlock := hwhole.eq_root hnext
          (List.mem_append_left _ (hlive ▸ List.mem_cons_self))
        obtain rfl : target = 0 := congrArg Block.layer hroot
        have hlayer : top.layer = 0 := by
          have := (searchLayer_spec hrep htarget).1
          omega
        have htopRoot : top = rootBlock := by
          have hindex := (hrep.valid_free htop).2
          cases top
          simp_all [rootBlock]
        refine ⟨List.mem_append_right _ (htopRoot ▸ htop), ?_⟩
        intro target' htarget'
        rw [hrep.root_eq] at htarget'
        obtain rfl := Option.some.inj (hfit.symm.trans htarget')
        exact .inl rfl
  | free ptr =>
      obtain ⟨entry, next', hstep', hperm, hnext⟩ := free_step hholds hlegal hleft
      obtain rfl := Option.some.inj (hstep'.symm.trans hstep)
      refine ⟨_, hnext, fun hwhole => ⟨?_, trivial⟩⟩
      rw [Whole, List.mem_append] at hwhole ⊢
      have hmem := (hperm.map (liveBlock layout)).mem_iff (a := rootBlock)
      rw [List.map_cons, List.mem_cons] at hmem
      rw [hmem]
      rcases hwhole with hin | hin
      · exact .inl (.inr hin)
      · rcases List.mem_cons.mp hin with heq | hin
        · exact .inl (.inl heq)
        · exact .inr hin
  | write address byte =>
      obtain ⟨next', hstep', hlive, hnext⟩ := write_step hholds hlegal
      obtain rfl := Option.some.inj (hstep'.symm.trans hstep)
      exact ⟨free, hnext, fun hwhole => ⟨by rwa [Whole, hlive] at hwhole, trivial⟩⟩

/-- A run that ends whole never split a block. -/
theorem splitsNothing_of_whole {ops : List Op} {final : Client}
    (hholds : Holds layout free client)
    (hrun : AllSteps (step layout.alloc)
      (fun client op => Legal layout.alloc client op ∧ FreesLeftHalf layout.alloc client op)
      client ops)
    (hreached : run (step layout.alloc) client ops = some final)
    (hcoalesced : Coalesced layout.alloc final.memory) :
    Whole layout free client ∧
      AllSteps (step layout.alloc) (SplitsNothing layout.alloc) client ops := by
  induction ops generalizing client free with
  | nil =>
      obtain rfl := Option.some.inj hreached
      exact ⟨whole_of_coalesced hholds hcoalesced, trivial⟩
  | cons op ops ih =>
      obtain ⟨next, hnext, hrest⟩ := run_cons_eq_some.mp hreached
      obtain ⟨free', hholds', hback⟩ := whole_of_step hholds hrun.1.1 hrun.1.2 hnext
      obtain ⟨hwhole', hsplits⟩ := ih hholds' (hrun.2 next hnext) hrest
      obtain ⟨hwhole, hsplit⟩ := hback hwhole'
      refine ⟨hwhole, hsplit, fun next' hnext' => ?_⟩
      exact Option.some.inj (hnext.symm.trans hnext') ▸ hsplits

/-- A run that splits nothing and frees everything leaves one free root block;
a run of frees of left halves that leaves one split nothing. -/
theorem coalesced_iff_splits_nothing {memory memory₀ : Memory} {begin_ end_ alloc : ℕ}
    (horder : begin_ ≤ end_) (hend : end_ < wordSize)
    (hinit : buddyInit memory begin_ end_ = some (alloc, memory₀)) (halloc : alloc ≠ 0)
    (hsized : WellSized memory₀ alloc) {ops : List Op}
    (hlegal : AllSteps (step alloc) (Legal alloc) ⟨memory₀, []⟩ ops) :
    (AllSteps (step alloc) (SplitsNothing alloc) ⟨memory₀, []⟩ ops →
      ∃ client, run (step alloc) ⟨memory₀, []⟩ ops = some client ∧
        (client.live = [] → Coalesced alloc client.memory)) ∧
    (AllSteps (step alloc) (FreesLeftHalf alloc) ⟨memory₀, []⟩ ops →
      ∀ client, run (step alloc) ⟨memory₀, []⟩ ops = some client →
        Coalesced alloc client.memory →
        AllSteps (step alloc) (SplitsNothing alloc) ⟨memory₀, []⟩ ops) := by
  obtain ⟨layout, rfl, -, -, hrep⟩ := buddyInit_represents horder hend hinit halloc hsized
  have hholds : Holds layout [rootBlock] ⟨memory₀, []⟩ := ⟨hrep, by simp⟩
  have hwhole : Whole layout [rootBlock] ⟨memory₀, []⟩ :=
    List.mem_append_right _ List.mem_cons_self
  refine ⟨fun hsplits => ?_, fun hleft client hreached hcoalesced => ?_⟩
  · obtain ⟨client, hreached, free, hinv, hstays⟩ :=
      run_preserves (fun client => ∃ free, Holds layout free client ∧
          Whole layout free client)
        (fun client op ⟨free, hinv, hstays⟩ ⟨hop, hsplit⟩ => hstays.step hinv hop hsplit)
        ⟨_, hholds, hwhole⟩ (hlegal.and hsplits)
    exact ⟨client, hreached, hstays.coalesced hinv⟩
  · exact (splitsNothing_of_whole hholds (hlegal.and hleft) hreached hcoalesced).2

theorem coalesced_smallPool :
    ((AllSteps (step 4096) (SplitsNothing 4096) ⟨smallPool, []⟩ [.alloc 16, .free 8192] →
      ∃ client, run (step 4096) ⟨smallPool, []⟩ [.alloc 16, .free 8192] = some client ∧
        (client.live = [] → Coalesced 4096 client.memory)) ∧
    (AllSteps (step 4096) (FreesLeftHalf 4096) ⟨smallPool, []⟩ [.alloc 16, .free 8192] →
      ∀ client, run (step 4096) ⟨smallPool, []⟩ [.alloc 16, .free 8192] = some client →
        Coalesced 4096 client.memory →
        AllSteps (step 4096) (SplitsNothing 4096) ⟨smallPool, []⟩ [.alloc 16, .free 8192])) ∧
    AllSteps (step 4096) (SplitsNothing 4096) ⟨smallPool, []⟩ [.alloc 16, .free 8192] :=
  ⟨coalesced_iff_splits_nothing (by decide) (by decide) buddyInit_smallPool (by decide)
    smallPool_wellSized (by decide +kernel), by decide +kernel⟩

/-- One page taken and given back: the root block does not come back. -/
theorem not_coalesced_after_split :
    ¬ ∀ (memory memory₀ : Memory) (begin_ end_ alloc : ℕ) (ops : List Op) (client : Client),
      begin_ ≤ end_ → end_ < wordSize → buddyInit memory begin_ end_ = some (alloc, memory₀) →
      alloc ≠ 0 → WellSized memory₀ alloc → AllSteps (step alloc) (Legal alloc) ⟨memory₀, []⟩ ops →
      run (step alloc) ⟨memory₀, []⟩ ops = some client → client.live = [] →
      Coalesced alloc client.memory := by
  intro hclaim
  have hlive : (run (step 4096) ⟨smallPool, []⟩ [.alloc 1, .free 8192]).map Client.live =
      some [] := by decide +kernel
  obtain ⟨client, hrun, hempty⟩ := Option.map_eq_some_iff.mp hlive
  have hcoalesced := hclaim _ _ _ _ _ _ client (by decide) (by decide) buddyInit_smallPool
    (by decide) smallPool_wellSized (by decide +kernel) hrun hempty
  obtain rfl : (run (step 4096) ⟨smallPool, []⟩ [.alloc 1, .free 8192]).getD
      ⟨smallPool, []⟩ = client := by rw [hrun, Option.getD_some]
  exact absurd hcoalesced.root_free.1 (by decide +kernel)

end DoomsdayModules.BuddyCoalescing
