import DoomsdayModules.Malloc.SlabHosted

/-!
# Destroying a slab

`slab_destroy` destroys the first cache of a copy of the `slab_alloc_t` until
there is none.  `slab_cache_destroy` moves `first_cache` on for a cache without
a predecessor only, and does not clear the `prev_cache` of the next one, so the
loop ends for a slab with a single cache and destroys a second one for ever.
-/

namespace DoomsdayModules.SlabDestroy

open DoomsdayModules.ByteMemory DoomsdayModules.Runs DoomsdayModules.Util
open DoomsdayModules.DyadicBlocks DoomsdayModules.Buddy DoomsdayModules.BuddyUtil
open DoomsdayModules.BuddyInvariant
open DoomsdayModules.DoublyLinked DoomsdayModules.Slab DoomsdayModules.SlabInvariant
open DoomsdayModules.SlabMoves DoomsdayModules.SlabGrowth DoomsdayModules.SlabOps
open DoomsdayModules.SlabOnBuddy DoomsdayModules.SlabRuns DoomsdayModules.SlabHosted

/-! ## What is asked of the two sides -/

/-- A byte of the copy of the `slab_alloc_t`. -/
def CopyByte (copy query : ℕ) : Prop := copy ≤ query ∧ query < copy + sizeofSlabAlloc

/-- `buddy_free` takes each of the regions back, in any order and whatever the
regions and the copy hold by then, and leaves the other regions and the copy alone. -/
def Accepts (setting : Setting) (buddyPtr copy : ℕ) : ℕ → List ℕ → Memory → Prop
  | 0, _, _ => True
  | count + 1, held, memory => ∀ base ∈ held, ∀ memory',
      UnchangedOutside memory memory' (fun query => CopyByte copy query ∨
        ∃ other ∈ held, other ≤ query ∧ query < setting.stop other) →
      ∃ replied, setting.buddy.free memory' buddyPtr base = some replied ∧
        SparesRegions setting (held.erase base) memory' replied ∧
        (∀ query, CopyByte copy query → replied query = memory' query) ∧
        Accepts setting buddyPtr copy count (held.erase base) replied

/-- For a copy that shares nothing with the regions, and a buddy allocator that
keeps its side: the loop ends, every held region is given back exactly once, and
no cache is destroyed that lies in a region given back before. -/
def DestroysAll (setting : Setting) (client : Client) : Prop :=
  ∀ copy, (∀ base ∈ client.held,
      copy + sizeofSlabAlloc ≤ base ∨ setting.stop base ≤ copy) →
    Accepts setting (buddyOf client.memory setting.slab) copy client.held.length client.held
      client.memory →
    ∃ fuel rounds memory',
      slabDestroy fuel setting.buddy client.memory setting.slab copy = some (rounds, memory') ∧
      (rounds.map Prod.snd).Perm client.held ∧
      rounds.Pairwise fun earlier later =>
        later.1 < earlier.2 ∨ setting.stop earlier.2 ≤ later.1

/-- The slab gets no further region. -/
def StaysSingle (setting : Setting) (client : Client) : Op → Prop
  | .alloc => ∀ taken replied,
      askBuddy setting.buddy client.memory setting.slab = some (taken, replied) → taken = 0
  | _ => True

variable {shape : Shape} {buddy : BuddyOps} {fuel : ℕ} {memory : Memory} {cache : Cache}
  {client : Client}

/-! ## A slab with one cache -/

/-- The slab has its first cache only, and nothing is behind it. -/
structure Single (shape : Shape) (cache : Cache) (client : Client) : Prop where
  holds : Holds shape [cache] client
  closed : Closed shape client.memory

theorem Single.base_eq (hsingle : Single shape cache client) : cache.base = shape.slab :=
  Option.some.inj hsingle.holds.settled.head_eq

theorem Single.next_eq (hsingle : Single shape cache client) :
    nextCache client.memory (shape.addr cache.base) = 0 := by
  have hcore : Core shape client.memory ([] ++ [cache]) := hsingle.holds.settled.toCore
  have hclosed := hsingle.closed
  rwa [Closed, hcore.last_eq_addr] at hclosed

/-- A cache without a predecessor does not move up. -/
theorem Single.not_movesUp (hsingle : Single shape cache client)
    (hlegal : Legal (settingOf shape buddy fuel) client .alloc)
    (hstays : StaysSingle (settingOf shape buddy fuel) client .alloc) :
    ¬ MovesUp buddy client.memory shape.slab := by
  obtain ⟨taken, replied, hask, hspares, hfresh⟩ := hlegal
  obtain rfl : taken = 0 := hstays taken replied hask
  have hsound := soundReply_of_legal hsingle.holds hspares hfresh
  have hask' : askBuddy buddy client.memory shape.slab = some (0, replied) := hask
  rintro ⟨⟨reached, grown⟩, hgrow, hne, -, hovertakes⟩
  rcases growSlab_spec hsingle.holds.settled hask' hsound with ⟨hnone, -⟩ |
    ⟨before, last, grown', hsome, hready, hcaches, -⟩
  · rw [Option.mem_def, hnone, Option.some.injEq, Prod.mk.injEq] at hgrow
    exact hne hgrow.1.symm
  · rw [Option.mem_def, hsome, Option.some.injEq, Prod.mk.injEq] at hgrow
    obtain ⟨rfl, rfl⟩ := hgrow
    obtain rfl : last = cache := by
      have hend := congrArg List.getLast? hcaches
      simpa [grownCaches] using hend
    have hroot := hready.core.head_prev
    refine hovertakes.1 ?_
    rw [← hroot, ← hsingle.base_eq]
    exact readWord_writeWord_of_disjoint (by omega)

/-- A cache without a successor does not move down, and the first one is not destroyed. -/
theorem Single.kept (hsingle : Single shape cache client) {index ptr : ℕ}
    (hlive : index ∈ cache.live)
    (hslot : ptr = shape.slot cache.base index + sizeofSlabAllocatedObjectHeader) :
    ¬ MovesDown client.memory ptr ∧ ¬ Destroys client.memory shape.slab ptr := by
  have hcore : Core shape client.memory ([] ++ cache :: []) := hsingle.holds.settled.toCore
  obtain ⟨hcache, -, hchange, hemptied⟩ := released_spec hcore hlive hslot
  have hnext := (released_frame hcore hchange).2.2.2 cache (by simp)
  have hstays : ¬ MovesDown client.memory ptr := by
    intro hmoves
    refine hmoves.1 ?_
    rw [hcache]
    exact hnext.trans hsingle.next_eq
  refine ⟨hstays, fun hdestroys => ?_⟩
  rw [Destroys, freed_eq hstays] at hdestroys
  exact (hemptied.mp hdestroys).2 hsingle.base_eq

/-- Every step that gets no region leaves the slab with one cache. -/
theorem step_single (hfuel : 2 ≤ fuel) (hsingle : Single shape cache client) {op : Op}
    (hlegal : Legal (settingOf shape buddy fuel) client op)
    (hstays : StaysSingle (settingOf shape buddy fuel) client op) :
    ∃ next cache', step (settingOf shape buddy fuel) client op = some next ∧
      Single shape cache' next := by
  cases op with
  | alloc =>
      obtain ⟨taken, replied, hask, hspares, hfresh⟩ := id hlegal
      obtain rfl : taken = 0 := hstays taken replied hask
      have hsound := soundReply_of_legal hsingle.holds hspares hfresh
      obtain ⟨ptr, memory', caches', halloc, hsettled', hclosed, hbases, hobjects, -⟩ :=
        slabAlloc_spec hfuel hsingle.holds.settled hask hsound
          (hsingle.not_movesUp hlegal hstays)
      obtain ⟨hheld, hlive⟩ :=
        grownClient_perm memory' hsingle.holds.held_perm hsingle.holds.live_perm hbases hobjects
      rw [if_pos rfl] at hbases
      obtain ⟨cache', rfl⟩ : ∃ cache', caches' = [cache'] := by
        have hlength := congrArg List.length hbases
        simp only [bases, List.length_map, List.length_singleton] at hlength
        exact List.length_eq_one_iff.mp hlength
      exact ⟨_, cache', step_alloc hask halloc, ⟨hsettled', hheld, hlive⟩, hclosed hsingle.closed⟩
  | free ptr =>
      obtain ⟨before, other, after, index, hsplit, hlive, hslot⟩ :=
        mem_objects (hsingle.holds.live_perm.mem_iff.mp hlegal.1)
      obtain ⟨rfl, rfl, rfl⟩ : before = [] ∧ cache = other ∧ after = [] := by
        have hsplit' : [] ++ cache :: [] = before ++ other :: after := hsplit
        cases before with
        | nil => simpa using hsplit'
        | cons _ _ => simp at hsplit'
      obtain ⟨hkeeps, hkept⟩ := hsingle.kept hlive hslot
      have hholds : Holds shape ([] ++ cache :: []) client := hsingle.holds
      obtain ⟨next, hstep, hholds', hclosed, -⟩ := free_kept_step hholds hlive hslot hkeeps hkept
      exact ⟨next, cache.release index, hstep, hholds', hclosed hsingle.closed⟩
  | write address byte =>
      obtain ⟨next, hstep, hholds', hclosed⟩ := write_step hsingle.holds hlegal
      exact ⟨next, cache, hstep, hholds', hclosed hsingle.closed⟩

/-! ## The loop -/

/-- The loop ends once the copy has no first cache. -/
theorem slabDestroyLoop_nil {copy : ℕ} (hfirst : firstCache memory copy = 0) (fuel : ℕ) :
    slabDestroyLoop buddy copy (fuel + 1) memory = some ([], memory) := by
  rw [slabDestroyLoop, if_pos hfirst]

/-- One round of the loop. -/
theorem slabDestroyLoop_cons {copy first : ℕ} {replied : Memory}
    (hfirst : firstCache memory copy = first) (hne : first ≠ 0)
    (hdestroy : slabCacheDestroy buddy memory copy first = some replied) (fuel : ℕ) :
    slabDestroyLoop buddy copy (fuel + 1) memory =
      (slabDestroyLoop buddy copy fuel replied).map fun (rounds, final) =>
        ((first, cacheMem (slabCacheUnlink memory copy first) first) :: rounds, final) := by
  simp only [slabDestroyLoop, hfirst, if_neg hne, hdestroy, Option.bind_eq_bind, Option.bind_some]
  exact (Option.map_eq_bind ..).symm

/-- A round that was made, from the rounds the loop reports. -/
theorem slabDestroyLoop_inv {copy first : ℕ} {rounds : List (ℕ × ℕ)} {final : Memory}
    (hloop : slabDestroyLoop buddy copy fuel memory = some (rounds, final))
    (hfirst : firstCache memory copy = first) (hne : first ≠ 0) :
    ∃ fuel' replied rest, slabCacheDestroy buddy memory copy first = some replied ∧
      rounds = (first, cacheMem (slabCacheUnlink memory copy first) first) :: rest ∧
      slabDestroyLoop buddy copy fuel' replied = some (rest, final) := by
  cases fuel with
  | zero => simp [slabDestroyLoop] at hloop
  | succ fuel =>
      cases hdestroy : slabCacheDestroy buddy memory copy first with
      | none => simp [slabDestroyLoop, hfirst, hne, hdestroy] at hloop
      | some replied =>
          rw [slabDestroyLoop_cons hfirst hne hdestroy, Option.map_eq_some_iff] at hloop
          obtain ⟨⟨rest, last⟩, hrest, hresult⟩ := hloop
          obtain ⟨rfl, rfl⟩ := Prod.mk.inj hresult
          exact ⟨fuel, replied, rest, rfl, rfl, hrest⟩

/-- Destroying the only cache empties the copy and gives back the slab's region. -/
theorem slabCacheUnlink_only {copy first : ℕ} (hprev : prevCache memory first = 0)
    (hnext : nextCache memory first = 0)
    (happart : copy + sizeofSlabAlloc ≤ first ∨ first + sizeofSlabCacheHeader ≤ copy) :
    slabCacheUnlink memory copy first =
      writeWord (writeWord memory (copy + 8) 0) (copy + 24) 0 := by
  simp only [sizeofSlabAlloc, sizeofSlabCacheHeader] at happart
  have hnext' : nextCache (writeWord memory (copy + 8) 0) first = 0 :=
    (readWord_writeWord_of_disjoint (by omega)).trans hnext
  have hprev' : prevCache (writeWord memory (copy + 8) 0) first = 0 :=
    (readWord_writeWord_of_disjoint (by omega)).trans hprev
  have hprev'' : prevCache (writeWord (writeWord memory (copy + 8) 0) (copy + 24) 0) first = 0 :=
    (readWord_writeWord_of_disjoint (by omega)).trans hprev'
  simp only [slabCacheUnlink, hprev, hnext, if_pos, hnext', hprev', hprev'', ne_eq,
    not_true_eq_false, false_and, if_false]

/-- A slab with one cache is destroyed in one round. -/
theorem destroysAll_of_single (hsingle : Single shape cache client) :
    DestroysAll (settingOf shape buddy fuel) client := by
  intro copy hcopy haccepts
  have hcore : Core shape client.memory [cache] := hsingle.holds.settled.toCore
  have hbase := hsingle.base_eq
  have hheld : client.held = [shape.slab] := by
    have hperm := hsingle.holds.held_perm
    rw [bases, List.map_singleton, hbase] at hperm
    exact List.perm_singleton.mp hperm
  have hnext := hsingle.next_eq
  have hprev := hcore.head_prev
  have hfirst : firstCache client.memory shape.slab = shape.addr shape.slab := hcore.first_eq
  have hroot : rootCache client.memory (shape.addr shape.slab) = true := by
    have hflag := (hcore.contents cache (by simp)).root_eq
    rwa [hbase, decide_eq_true rfl] at hflag
  rw [hbase] at hnext
  rw [hheld] at hcopy haccepts ⊢
  have happart := hcopy shape.slab (by simp)
  have haddr := shape.addr_slab
  have hstop := shape.header_le_stop shape.slab
  rw [settingOf_stop] at happart
  simp only [sizeofSlabAlloc, sizeofSlabCacheHeader] at happart hstop
  have hslabPos := shape.slab_pos
  -- the copy
  have hcopied := copyBytes_unchangedOutside client.memory shape.slab copy 48
  have hcopyWord : ∀ offset, offset + 8 ≤ 48 →
      readWord (copyBytes client.memory shape.slab copy 48) (copy + offset) =
        readWord client.memory (shape.slab + offset) := fun offset => readWord_copyBytes
  have hfirstCopy := (hcopyWord 8 (by omega)).trans hfirst
  have hbuddyCopy := hcopyWord 0 (by omega)
  have hloop : ∀ enough, slabDestroy enough buddy client.memory shape.slab copy =
      slabDestroyLoop buddy copy enough (copyBytes client.memory shape.slab copy 48) :=
    fun enough => if_neg hslabPos.ne'
  generalize copyBytes client.memory shape.slab copy 48 = copied at *
  -- the only round
  have hheader : ∀ offset, offset + 8 ≤ 72 → readWord copied (shape.addr shape.slab + offset) =
      readWord client.memory (shape.addr shape.slab + offset) := fun offset hoffset =>
    readWord_congr (hcopied.agreeOn fun query hlower hupper hquery => by omega)
  have hunlink : slabCacheUnlink copied copy (shape.addr shape.slab) =
      writeWord (writeWord copied (copy + 8) 0) (copy + 24) 0 :=
    slabCacheUnlink_only ((hheader 24 (by omega)).trans hprev)
      ((hheader 32 (by omega)).trans hnext)
      (by simp only [sizeofSlabAlloc, sizeofSlabCacheHeader]; omega)
  have hchange : UnchangedOutside client.memory
      (writeWord (writeWord copied (copy + 8) 0) (copy + 24) 0) fun query =>
        CopyByte copy query ∨ ∃ other ∈ [shape.slab], other ≤ query ∧
          query < (settingOf shape buddy fuel).stop other := by
    intro query hquery
    simp only [CopyByte, sizeofSlabAlloc, not_or] at hquery
    rw [writeWord_of_outside (by omega), writeWord_of_outside (by omega)]
    exact hcopied query hquery.1
  have hfirstNull : firstCache (writeWord (writeWord copied (copy + 8) 0) (copy + 24) 0) copy = 0 :=
    (readWord_writeWord_of_disjoint (by omega)).trans (readWord_writeWord_same (by norm_num))
  have hbuddy : buddyOf (writeWord (writeWord copied (copy + 8) 0) (copy + 24) 0) copy =
      buddyOf client.memory shape.slab :=
    (readWord_writeWord_of_disjoint (by omega)).trans
      ((readWord_writeWord_of_disjoint (by omega)).trans hbuddyCopy)
  have hmem : cacheMem (writeWord (writeWord copied (copy + 8) 0) (copy + 24) 0)
      (shape.addr shape.slab) = shape.slab := by
    have hflag : rootCache (writeWord (writeWord copied (copy + 8) 0) (copy + 24) 0)
        (shape.addr shape.slab) = true := by
      rw [← hroot, rootCache, rootCache, writeWord_of_outside (by omega),
        writeWord_of_outside (by omega), hcopied _ (by omega)]
    rw [cacheMem, hflag, if_pos rfl, haddr, sizeofSlabAlloc, Nat.add_sub_cancel]
  obtain ⟨replied, hfree, -, hspared, -⟩ := haccepts shape.slab (by simp) _ hchange
  have hfirstReplied : firstCache replied copy = 0 := by
    refine Eq.trans (readWord_congr fun query hlower hupper => hspared query ?_) hfirstNull
    exact ⟨by omega, by simp only [sizeofSlabAlloc]; omega⟩
  have hdestroy : slabCacheDestroy buddy copied copy (shape.addr shape.slab) = some replied := by
    rw [slabCacheDestroy, hunlink, hbuddy, hmem]
    exact hfree
  refine ⟨2, [(shape.addr shape.slab, shape.slab)], replied, ?_, List.Perm.refl _,
    List.pairwise_singleton _ _⟩
  refine (hloop 2).trans ?_
  rw [slabDestroyLoop_cons hfirstCopy (by omega) hdestroy, slabDestroyLoop_nil hfirstReplied,
    Option.map_some, hunlink, hmem]

/-- In every run in which the slab gets no second region, it is destroyed
properly from every point. -/
theorem destroysAll_of_staysSingle {setting : Setting} {memory memory₀ : Memory} {buddyPtr : ℕ}
    (hsize : setting.size + sizeofSlabAllocatedObjectHeader < wordSize)
    (hfuel : 2 ≤ setting.fuel) (hplaced : Placed setting buddyPtr)
    (hinit : slabInit setting.buddy memory buddyPtr setting.size = some (setting.slab, memory₀))
    {ops : List Op} (hrun : AllSteps (step setting)
      (fun client op => Legal setting client op ∧ StaysSingle setting client op)
      ⟨memory₀, [setting.slab], []⟩ ops) :
    ∀ done, done <+: ops → ∃ client,
      run (step setting) ⟨memory₀, [setting.slab], []⟩ done = some client ∧
      DestroysAll setting client := by
  obtain ⟨shape, hsetting, hholds, hclosed, -⟩ := slabInit_holds hsize hplaced hinit
  intro done hdone
  obtain ⟨client, hreached, cache, hsingle⟩ := run_preserves_throughout
    (fun client => ∃ cache, Single shape cache client)
    (fun client op ⟨cache, hsingle⟩ ⟨hlegal, hstays⟩ => by
      rw [hsetting] at hlegal hstays ⊢
      obtain ⟨next, cache', hnext, hsingle'⟩ := step_single hfuel hsingle hlegal hstays
      exact ⟨next, hnext, cache', hsingle'⟩)
    ⟨_, hholds, hclosed⟩ hrun done hdone
  refine ⟨client, hreached, ?_⟩
  rw [hsetting]
  exact destroysAll_of_single hsingle

/-! ## The real buddy allocator -/

/-- The buddy allocator of `buddy.c` keeps its side for a copy inside a block of
someone else, as long as it takes each region back to its own list. -/
theorem accepts_of_represents {layout : Layout} {setting : Setting} {regions others : List Block}
    {copy : ℕ} {owner : Block} (hsetting : setting.buddy = realBuddy) (howner : owner ∈ others)
    (hcopy : ∀ query, CopyByte copy query → layout.InBlock owner query)
    (hreturns : ∀ block ∈ regions, Returns layout block)
    (hstop : ∀ block ∈ regions, setting.stop (layout.address block) = layout.addressStop block)
    {count : ℕ} {held : List ℕ} {free : List Block}
    (hrep : Represents layout memory free (regions ++ others))
    (hheld : held.Perm (regions.map layout.address)) :
    Accepts setting layout.alloc copy count held memory := by
  induction count generalizing memory regions held free with
  | zero => trivial
  | succ count ih =>
      intro base hbase memory' hchange
      obtain ⟨block, hblock, rfl⟩ := List.mem_map.mp (hheld.mem_iff.mp hbase)
      obtain ⟨first, last, rfl⟩ := List.append_of_mem hblock
      have hrep' : Represents layout memory' free (first ++ block :: last ++ others) := by
        apply represents_of_inside hrep
        intro query hquery
        apply hchange
        rintro (hown | ⟨other, hother, hlower, hupper⟩)
        · exact hquery ⟨owner, List.mem_append_right _ howner, hcopy query hown⟩
        · obtain ⟨region, hregion, rfl⟩ := List.mem_map.mp (hheld.mem_iff.mp hother)
          exact hquery ⟨region, List.mem_append_left _ hregion, hlower,
            hstop region hregion ▸ hupper⟩
      have hperm : (first ++ block :: last ++ others).Perm (block :: (first ++ last ++ others)) := by
        rw [List.append_assoc, List.append_assoc, List.cons_append]
        exact List.perm_middle
      obtain ⟨replied, hfree, hreplied, hspares⟩ :=
        buddyFree_spec (hrep'.perm_live hperm) (hreturns block hblock)
      have hsubset : ∀ region ∈ first ++ last, region ∈ first ++ block :: last :=
        fun region hregion => mem_middle.mpr (.inr hregion)
      have hheld' : (held.erase (layout.address block)).Perm
          ((first ++ last).map layout.address) := by
        have hmiddle : ((first ++ block :: last).map layout.address).Perm
            (layout.address block :: (first ++ last).map layout.address) :=
          List.perm_middle.map layout.address
        have herase := (hheld.trans hmiddle).erase (layout.address block)
        rwa [List.erase_cons_head] at herase
      refine ⟨replied, by rw [hsetting]; exact hfree, ?_, ?_, ?_⟩
      · intro other hother query hlower hupper
        obtain ⟨region, hregion, rfl⟩ := List.mem_map.mp (hheld'.mem_iff.mp hother)
        exact hspares region (List.mem_append_left _ hregion) query
          ⟨hlower, hstop region (hsubset region hregion) ▸ hupper⟩
      · exact fun query hquery =>
          hspares owner (List.mem_append_right _ howner) query (hcopy query hquery)
      · exact ih (fun region hregion => hreturns region (hsubset region hregion))
          (fun region hregion => hstop region (hsubset region hregion)) hreplied hheld'

theorem accepts_of_hosted {layout : Layout} {regions others free : List Block}
    {caches : List Cache} {copy : ℕ} {owner : Block}
    (hhosted : Hosted layout shape others free regions caches client) (howner : owner ∈ others)
    (hcopy : ∀ query, CopyByte copy query → layout.InBlock owner query)
    (hreturns : ∀ block ∈ regions, Returns layout block) (count : ℕ) :
    Accepts (settingOf shape realBuddy fuel) (buddyOf client.memory shape.slab) copy count
      client.held client.memory := by
  have honBuddy := hhosted.onBuddy
  have hbuddy : buddyOf client.memory shape.slab = layout.alloc :=
    honBuddy.settled.toCore.buddy_eq.trans honBuddy.buddy_eq
  rw [hbuddy]
  refine accepts_of_represents rfl howner hcopy hreturns (fun block hblock => ?_)
    honBuddy.represents (honBuddy.regions.bases_eq ▸ hhosted.held_perm)
  rw [settingOf_stop]
  exact stop_address (honBuddy.regions.size_eq block hblock)

/-! ## A pool with a block between the regions -/

/-- The pool with its second 64 pages given to someone else too. -/
def sharedPool : Memory := ((buddyAlloc lentPool 4096 64).getD (0, lentPool)).2

/-- The pool with the first 64 pages given back. -/
def returnedPool : Memory := (buddyFree sharedPool 4096 8192).getD sharedPool

/-- The pool with a slab for objects of 100000 bytes in the first 64 pages. -/
def aroundSlab : Memory := ((slabInit realBuddy returnedPool 4096 100000).getD (0, sharedPool)).2

def aroundSetting : Setting := ⟨realBuddy, 2, 8192, 100000⟩

def aroundClient : Client := ⟨aroundSlab, [8192], []⟩

theorem buddyAlloc_lentPool : buddyAlloc lentPool 4096 64 = some (270336, sharedPool) := by
  have hfst : (buddyAlloc lentPool 4096 64).map Prod.fst = some 270336 := by decide +kernel
  obtain ⟨⟨ptr, memory⟩, halloc, rfl⟩ := Option.map_eq_some_iff.mp hfst
  rw [sharedPool, halloc]
  rfl

theorem slabInit_returnedPool :
    slabInit realBuddy returnedPool 4096 100000 = some (8192, aroundSlab) := by
  have hfst : (slabInit realBuddy returnedPool 4096 100000).map Prod.fst = some 8192 := by
    decide +kernel
  obtain ⟨⟨slab, memory⟩, hinit, rfl⟩ := Option.map_eq_some_iff.mp hfst
  rw [aroundSlab, hinit]
  rfl

/-- The slab and the buddy allocator are intact, and the pages from 270336 to
532480 are someone else's. -/
theorem hosted_aroundClient :
    ∃ layout shape others owner free regions caches,
      aroundSetting = settingOf shape realBuddy 2 ∧
      (owner ∈ others ∧ ∀ query, 270336 ≤ query → query < 532480 → layout.InBlock owner query) ∧
      Hosted layout shape others free regions caches aroundClient := by
  obtain ⟨layout, lent, free, halloc, hdepth, hlent, hlayer, hrep⟩ := represents_lentPool
  have hfit : bestFitLayer 64 (2 ^ layout.depth) = some 2 := by
    rw [hdepth]
    decide +kernel
  rcases buddyAlloc_spec hrep (show 1 ≤ 64 by decide) with hnone |
    ⟨owner, free', replied, hsome, hownerFit, hrep', -⟩
  · rw [halloc, buddyAlloc_lentPool] at hnone
    simp at hnone
  rw [halloc, buddyAlloc_lentPool, Option.some.injEq, Prod.mk.injEq] at hsome
  obtain ⟨howner, rfl⟩ := hsome
  have hstop : layout.addressStop owner = 532480 := by
    have hownerLayer : owner.layer = 2 := Option.some.inj (hownerFit.symm.trans hfit)
    rw [addressStop_eq, ← howner, Block.size, hownerLayer, hdepth]
    rfl
  have hshared := hrep'.perm_live (List.Perm.swap lent owner [])
  have hreturns : Returns layout lent := by
    rw [← returnsBlock_iff hshared.toHeader (hshared.valid (by simp))
      (hfit.trans (congrArg some hlayer.symm)), halloc, hlent]
    decide +kernel
  obtain ⟨replied, hfree, hreturned, -⟩ := buddyFree_spec hshared hreturns
  obtain rfl : returnedPool = replied := by
    rw [returnedPool, ← halloc, ← hlent, hfree, Option.getD_some]
  obtain ⟨shape, free'', region, hsetting, hhosted⟩ := hosted_of_slabInit 2 hreturned
    (show 100000 + sizeofSlabAllocatedObjectHeader < wordSize by decide)
    (by rw [hdepth]; decide) (halloc ▸ slabInit_returnedPool) (by decide)
  exact ⟨layout, shape, _, owner, free'', _, _, hsetting,
    ⟨List.mem_singleton_self owner, fun query hlower hupper =>
      ⟨howner ▸ hlower, hstop ▸ hupper⟩⟩, hhosted⟩

/-- A tame client of the pool, and a copy at the address 274432, between its
regions. -/
theorem accepts_aroundClient {ops : List Op}
    (htame : AllSteps (step aroundSetting) (Tame aroundSetting) aroundClient ops) :
    AllSteps (step aroundSetting) (Legal aroundSetting) aroundClient ops ∧
      ∃ client, run (step aroundSetting) aroundClient ops = some client ∧
        ((∀ base ∈ client.held, ReturnsBlock client.memory
            (buddyOf client.memory aroundSetting.slab)
            (cachesize client.memory aroundSetting.slab) base) →
          Accepts aroundSetting (buddyOf client.memory aroundSetting.slab) 274432
            client.held.length client.held client.memory) := by
  obtain ⟨layout, shape, others, owner, free, regions, caches, hsetting, ⟨howner, hinside⟩,
    hhosted⟩ := hosted_aroundClient
  obtain ⟨horderly, client, free', regions', caches', hrun, hclient⟩ :=
    hhosted.run_hosted le_rfl (hsetting ▸ htame)
  rw [hsetting]
  refine ⟨horderly.mono fun _ _ hop => hop.1, client, hrun, fun hreturns => ?_⟩
  refine accepts_of_hosted hclient howner ?_ ?_ _
  · rintro query ⟨hlower, hupper⟩
    simp only [sizeofSlabAlloc] at hupper
    exact hinside query (by omega) (by omega)
  · intro block hblock
    have hheld : layout.address block ∈ client.held := by
      rw [hclient.held_perm.mem_iff, hclient.onBuddy.regions.bases_eq]
      exact List.mem_map_of_mem hblock
    exact hclient.returns (hreturns _ hheld) block hblock rfl

/-! ## One cache, and two -/

/-- A call that needs no buddy allocator gets no region. -/
theorem staysSingle_of_quiet {setting : Setting} {op : Op} (hquiet : Quiet setting client op) :
    StaysSingle setting client op := by
  cases op with
  | alloc =>
      intro taken replied hask
      rw [askBuddy, if_neg hquiet, Option.some.injEq, Prod.mk.injEq] at hask
      exact hask.1.symm
  | free ptr => trivial
  | write address byte => trivial

/-- The slab after two objects were taken and one of them was freed. -/
def oneCache : Client :=
  (run (step aroundSetting) aroundClient [.alloc, .write 8321 7, .free 8320, .alloc]).getD
    aroundClient

theorem destroysAll_aroundClient :
    ∃ client fuel rounds memory', run (step aroundSetting) aroundClient
        [.alloc, .write 8321 7, .free 8320, .alloc] = some client ∧
      slabDestroy fuel aroundSetting.buddy client.memory aroundSetting.slab 274432 =
        some (rounds, memory') ∧
      (rounds.map Prod.snd).Perm [8192] := by
  have hquiet : AllSteps (step aroundSetting) (Quiet aroundSetting) aroundClient
      [.alloc, .write 8321 7, .free 8320, .alloc] := by decide +kernel
  have htame : AllSteps (step aroundSetting) (Tame aroundSetting) aroundClient
      [.alloc, .write 8321 7, .free 8320, .alloc] := by decide +kernel
  have hheld : oneCache.held = [8192] ∧ ∀ base ∈ oneCache.held,
      ReturnsBlock oneCache.memory (buddyOf oneCache.memory aroundSetting.slab)
        (cachesize oneCache.memory aroundSetting.slab) base := by decide +kernel
  have hstays : AllSteps (step aroundSetting)
      (fun client op => Legal aroundSetting client op ∧ StaysSingle aroundSetting client op)
      aroundClient [.alloc, .write 8321 7, .free 8320, .alloc] :=
    hquiet.mono fun _ _ hop => ⟨legal_of_quiet hop, staysSingle_of_quiet hop⟩
  have hinit : slabInit aroundSetting.buddy returnedPool 4096 aroundSetting.size =
      some (aroundSetting.slab, aroundSlab) := slabInit_returnedPool
  obtain ⟨client, hrun, hdestroys⟩ := destroysAll_of_staysSingle (by decide) le_rfl
    ⟨by decide, by decide, by decide⟩ hinit hstays _ (List.prefix_refl _)
  obtain ⟨-, client', hrun', haccepts⟩ := accepts_aroundClient htame
  obtain rfl : client' = client := Option.some.inj (hrun'.symm.trans hrun)
  have hclient : oneCache = client' := by rw [oneCache, hrun', Option.getD_some]
  rw [hclient] at hheld
  obtain ⟨fuel, rounds, memory', hdestroy, hperm, -⟩ :=
    hdestroys 274432 (by rw [hheld.1]; decide) (haccepts hheld.2)
  exact ⟨client', fuel, rounds, memory', hrun', hdestroy, hheld.1 ▸ hperm⟩

/-- The slab has two caches, at 8192 and 532480. -/
def twoCaches : Client :=
  (run (step aroundSetting) aroundClient [.alloc, .alloc, .alloc]).getD aroundClient

/-- The memory after the copy was made, and after one and two rounds of the loop. -/
def twoCachesCopied : Memory := copyBytes twoCaches.memory 8192 274432 48

def rootDestroyed : Memory :=
  (slabCacheDestroy realBuddy twoCachesCopied 274432 8240).getD twoCachesCopied

def secondDestroyed : Memory :=
  (slabCacheDestroy realBuddy rootDestroyed 274432 532480).getD twoCachesCopied

/-- The second cache stays the first one of the copy after it was given back. -/
theorem secondDestroyed_again :
    firstCache twoCachesCopied 274432 = 8240 ∧ firstCache rootDestroyed 274432 = 532480 ∧
      firstCache secondDestroyed 274432 = 532480 := by decide +kernel

/-- A slab that has got a second cache is not destroyed properly. -/
theorem not_destroysAll_twoCaches :
    ¬ ∀ (setting : Setting) (memory memory₀ : Memory) (buddyPtr : ℕ) (ops : List Op),
      2 ≤ setting.fuel → Placed setting buddyPtr →
      slabInit setting.buddy memory buddyPtr setting.size = some (setting.slab, memory₀) →
      AllSteps (step setting) (Legal setting) ⟨memory₀, [setting.slab], []⟩ ops →
      ∀ done, done <+: ops → ∀ client,
        run (step setting) ⟨memory₀, [setting.slab], []⟩ done = some client →
        DestroysAll setting client := by
  intro hclaim
  have htame : AllSteps (step aroundSetting) (Tame aroundSetting) aroundClient
      [.alloc, .alloc, .alloc] := by decide +kernel
  obtain ⟨hlegal, client, hrun, haccepts⟩ := accepts_aroundClient htame
  have hdestroys := hclaim aroundSetting returnedPool aroundSlab 4096 _ le_rfl
    ⟨by decide, by decide, by decide⟩ slabInit_returnedPool hlegal _ (List.prefix_refl _)
    client hrun
  have hheld : twoCaches.held = [8192, 532480] ∧ ∀ base ∈ twoCaches.held,
      ReturnsBlock twoCaches.memory (buddyOf twoCaches.memory aroundSetting.slab)
        (cachesize twoCaches.memory aroundSetting.slab) base := by decide +kernel
  have hclient : twoCaches = client := by rw [twoCaches, hrun, Option.getD_some]
  obtain ⟨hroot, hsecond, hagain⟩ := secondDestroyed_again
  rw [hclient] at hheld
  obtain ⟨fuel, rounds, final, hdestroy, hperm, -⟩ :=
    hdestroys 274432 (by rw [hheld.1]; decide) (haccepts hheld.2)
  have hloop : slabDestroyLoop realBuddy 274432 fuel twoCachesCopied = some (rounds, final) := by
    rw [slabDestroy, if_neg (by decide)] at hdestroy
    rw [twoCachesCopied, hclient]
    exact hdestroy
  obtain ⟨fuel, replied, rest, hreplied, rfl, hloop⟩ :=
    slabDestroyLoop_inv hloop hroot (by decide)
  obtain rfl : rootDestroyed = replied := by rw [rootDestroyed, hreplied, Option.getD_some]
  obtain ⟨fuel, replied, rest, hreplied, rfl, hloop⟩ :=
    slabDestroyLoop_inv hloop hsecond (by decide)
  obtain rfl : secondDestroyed = replied := by rw [secondDestroyed, hreplied, Option.getD_some]
  obtain ⟨fuel, replied, rest, -, rfl, -⟩ := slabDestroyLoop_inv hloop hagain (by decide)
  have hlength := hperm.length_eq
  simp only [hheld.1, List.map_cons, List.length_cons, List.length_nil] at hlength
  omega

end DoomsdayModules.SlabDestroy
