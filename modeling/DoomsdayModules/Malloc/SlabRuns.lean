import DoomsdayModules.Core.Runs
import DoomsdayModules.Malloc.SlabOps

/-!
# Runs of a slab client

A client allocates and frees objects of one slab and writes inside the objects
it holds.  The buddy allocator behind the slab is any that keeps its side of
the contract: a region it hands out shares nothing with the regions held, and
it does not write into them.  The abstract state of the slab is carried through
every run in which no cache changes places with a neighbour and the last cache
is not destroyed while its `next_cache` dangles.
-/

namespace DoomsdayModules.SlabRuns

open DoomsdayModules.ByteMemory DoomsdayModules.Runs DoomsdayModules.Util
open DoomsdayModules.Slab DoomsdayModules.SlabInvariant DoomsdayModules.SlabMoves
open DoomsdayModules.SlabGrowth DoomsdayModules.SlabOps

/-! ## The client -/

/-- A slab for objects of `size` bytes at the address `slab`. -/
structure Setting where
  buddy : BuddyOps
  fuel : ℕ
  slab : ℕ
  size : ℕ

namespace Setting

variable (setting : Setting)

/-- First address past a region that starts at `base`. -/
def stop (base : ℕ) : ℕ :=
  base + slabCachePages ((setting.size + sizeofSlabAllocatedObjectHeader) % wordSize) * pageSize

/-- Where the cache header of a region is; the first one is behind the `slab_alloc_t`. -/
def cacheAt (base : ℕ) : ℕ := if base = setting.slab then base + sizeofSlabAlloc else base

end Setting

/-- The memory, the regions held from the buddy allocator and the live objects. -/
structure Client where
  memory : Memory
  held : List ℕ
  live : List ℕ

inductive Op where
  | alloc
  | free (ptr : ℕ)
  | write (address : ℕ) (byte : UInt8)

/-- The regions held after a free. -/
def heldAfter (setting : Setting) (client : Client) (ptr : ℕ) : List ℕ :=
  if Destroys client.memory setting.slab ptr then
    client.held.erase (cacheMem (unlinked client.memory setting.slab ptr)
      (objectCache client.memory ptr))
  else client.held

theorem heldAfter_of_destroys {setting : Setting} {client : Client} {ptr : ℕ}
    (hdestroys : Destroys client.memory setting.slab ptr) :
    heldAfter setting client ptr = client.held.erase
      (cacheMem (unlinked client.memory setting.slab ptr) (objectCache client.memory ptr)) :=
  if_pos hdestroys

theorem heldAfter_of_kept {setting : Setting} {client : Client} {ptr : ℕ}
    (hkept : ¬ Destroys client.memory setting.slab ptr) :
    heldAfter setting client ptr = client.held := if_neg hkept

-- deciding whether a cache is destroyed runs the whole call
attribute [irreducible] heldAfter

def step (setting : Setting) (client : Client) : Op → Option Client
  | .alloc => do
      let (taken, _) ← askBuddy setting.buddy client.memory setting.slab
      let (ptr, memory) ← slabAlloc setting.fuel setting.buddy client.memory setting.slab
      return { memory := memory
               held := if taken = 0 then client.held else client.held ++ [taken]
               live := if ptr = 0 then client.live else ptr :: client.live }
  | .free ptr => (slabFree setting.buddy client.memory setting.slab ptr).map fun memory =>
      { memory := memory, held := heldAfter setting client ptr, live := client.live.erase ptr }
  | .write address byte => some { client with memory := writeByte client.memory address byte }

/-- The bytes of the regions are the same. -/
def SparesRegions (setting : Setting) (held : List ℕ) (memory memory' : Memory) : Prop :=
  ∀ base ∈ held, ∀ query, base ≤ query → query < setting.stop base →
    memory' query = memory query

/-- What the client may do, and what it may expect of the buddy allocator. -/
def Legal (setting : Setting) (client : Client) : Op → Prop
  | .alloc => ∃ taken replied,
      askBuddy setting.buddy client.memory setting.slab = some (taken, replied) ∧
      SparesRegions setting client.held client.memory replied ∧
      (taken ≠ 0 → setting.stop taken < wordSize ∧
        ∀ base ∈ client.held, setting.stop base ≤ taken ∨ setting.stop taken ≤ base)
  | .free ptr => ptr ∈ client.live ∧ (Destroys client.memory setting.slab ptr →
      ∃ replied, slabCacheDestroy setting.buddy (freed client.memory setting.slab ptr)
          setting.slab (objectCache client.memory ptr) = some replied ∧
        SparesRegions setting (heldAfter setting client ptr)
          (unlinked client.memory setting.slab ptr) replied)
  | .write address _ => ∃ ptr ∈ client.live, ptr ≤ address ∧ address < ptr + setting.size

/-- No cache changes places with a neighbour. -/
def KeepsOrder (setting : Setting) (client : Client) : Op → Prop
  | .alloc => ¬ MovesUp setting.buddy client.memory setting.slab
  | .free ptr => ¬ MovesDown client.memory ptr
  | .write _ _ => True

/-- The call destroys the last cache. -/
def DestroysLast (setting : Setting) (client : Client) : Op → Prop
  | .free ptr => Destroys client.memory setting.slab ptr ∧
      lastCache client.memory setting.slab = objectCache client.memory ptr
  | _ => False

/-- The last cache is destroyed only while nothing is behind it. -/
def SparesStaleNext (setting : Setting) (client : Client) : Op → Prop
  | .free ptr => DestroysLast setting client (.free ptr) →
      nextCache client.memory (objectCache client.memory ptr) = 0
  | _ => True

/-- The call does not need the buddy allocator. -/
def AsksNothing (setting : Setting) (client : Client) : Op → Prop
  | .alloc => firstFreeCache client.memory setting.slab ≠ 0
  | _ => True

instance (setting : Setting) (client : Client) : ∀ op, Decidable (AsksNothing setting client op)
  | .alloc => inferInstanceAs (Decidable (_ ≠ _))
  | .free _ => isTrue trivial
  | .write _ _ => isTrue trivial

theorem legal_of_asksNothing {setting : Setting} {client : Client}
    (hasks : AsksNothing setting client .alloc) : Legal setting client .alloc :=
  ⟨0, client.memory, if_neg hasks, fun _ _ _ _ _ => rfl, fun hne => absurd rfl hne⟩

/-- A legal call that does not need the buddy allocator. -/
def Quiet (setting : Setting) (client : Client) : Op → Prop
  | .alloc => firstFreeCache client.memory setting.slab ≠ 0
  | .free ptr => ptr ∈ client.live ∧ ¬ Destroys client.memory setting.slab ptr
  | .write address _ => ∃ ptr ∈ client.live, ptr ≤ address ∧ address < ptr + setting.size

instance (setting : Setting) (client : Client) : ∀ op, Decidable (Quiet setting client op)
  | .alloc => inferInstanceAs (Decidable (_ ≠ _))
  | .free _ => inferInstanceAs (Decidable (_ ∧ _))
  | .write _ _ => inferInstanceAs (Decidable (∃ ptr ∈ client.live, _))

theorem legal_of_quiet {setting : Setting} {client : Client} {op : Op}
    (hquiet : Quiet setting client op) : Legal setting client op := by
  cases op with
  | alloc => exact legal_of_asksNothing hquiet
  | free ptr => exact ⟨hquiet.1, fun hdestroys => absurd hdestroys hquiet.2⟩
  | write address byte => exact hquiet

/-! ## What a client holds -/

/-- The setting of a slab whose slot size does not overflow. -/
def settingOf (shape : Shape) (buddy : BuddyOps) (fuel : ℕ) : Setting :=
  ⟨buddy, fuel, shape.slab, shape.size⟩

variable {shape : Shape} {buddy : BuddyOps} {fuel : ℕ} {caches : List Cache} {client : Client}

theorem settingOf_stop (base : ℕ) : (settingOf shape buddy fuel).stop base = shape.stop base := by
  have hsize := shape.slotBytes_bounds.2
  simp only [Shape.slotBytes] at hsize
  simp only [Setting.stop, settingOf, Nat.mod_eq_of_lt hsize]
  rfl

/-- The slab is intact, and the caches account for what the client holds. -/
structure Holds (shape : Shape) (caches : List Cache) (client : Client) : Prop where
  settled : Settled shape client.memory caches
  held_perm : client.held.Perm (bases caches)
  live_perm : client.live.Perm (objects shape caches)

/-- Bytes of the slab are bytes of held regions. -/
theorem own_spared {memory memory' : Memory} {held : List ℕ} (hheld : held.Perm (bases caches))
    (hspares : SparesRegions (settingOf shape buddy fuel) held memory memory') {query : ℕ}
    (hquery : OwnByte shape caches query) : memory' query = memory query := by
  obtain ⟨cache, hcache, ⟨hlower, hupper⟩, -⟩ := hquery
  apply hspares cache.base (hheld.mem_iff.mpr (List.mem_map_of_mem hcache)) query hlower
  rwa [settingOf_stop]

/-! ## What one operation does -/

/-- The client after an allocation. -/
def grownClient (client : Client) (taken ptr : ℕ) (memory : Memory) : Client where
  memory := memory
  held := if taken = 0 then client.held else client.held ++ [taken]
  live := if ptr = 0 then client.live else ptr :: client.live

theorem step_alloc {setting : Setting} {taken ptr : ℕ} {replied memory : Memory}
    (hask : askBuddy setting.buddy client.memory setting.slab = some (taken, replied))
    (halloc : slabAlloc setting.fuel setting.buddy client.memory setting.slab =
      some (ptr, memory)) :
    step setting client .alloc = some (grownClient client taken ptr memory) := by
  simp only [step, hask, halloc, Option.bind_eq_bind, Option.bind_some, Option.pure_def,
    grownClient]

theorem grownClient_perm {caches' : List Cache} {taken ptr : ℕ} (memory : Memory)
    (hheld : client.held.Perm (bases caches)) (hlive : client.live.Perm (objects shape caches))
    (hbases : bases caches' = if taken = 0 then bases caches else bases caches ++ [taken])
    (hobjects : (objects shape caches').Perm
      (if ptr = 0 then objects shape caches else ptr :: objects shape caches)) :
    (grownClient client taken ptr memory).held.Perm (bases caches') ∧
      (grownClient client taken ptr memory).live.Perm (objects shape caches') := by
  refine ⟨?_, List.Perm.trans ?_ hobjects.symm⟩
  · rw [hbases]
    change (if taken = 0 then client.held else client.held ++ [taken]).Perm _
    split_ifs
    · exact hheld
    · exact hheld.append_right _
  · change (if ptr = 0 then client.live else ptr :: client.live).Perm _
    split_ifs
    · exact hlive
    · exact hlive.cons _

theorem step_free {setting : Setting} {ptr : ℕ} {memory : Memory}
    (hfree : slabFree setting.buddy client.memory setting.slab ptr = some memory) :
    step setting client (.free ptr) =
      some ⟨memory, heldAfter setting client ptr, client.live.erase ptr⟩ := by
  simp only [step, hfree, Option.map_some]

theorem heldAfter_perm {setting : Setting} {caches' : List Cache} {ptr : ℕ}
    (hheld : client.held.Perm (bases caches))
    (hgone : Destroys client.memory setting.slab ptr → (bases caches).Perm
      (cacheMem (unlinked client.memory setting.slab ptr) (objectCache client.memory ptr) ::
        bases caches'))
    (hkept : ¬ Destroys client.memory setting.slab ptr → (bases caches).Perm (bases caches')) :
    (heldAfter setting client ptr).Perm (bases caches') := by
  by_cases hdestroys : Destroys client.memory setting.slab ptr
  · have herase := (hheld.trans (hgone hdestroys)).erase
      (cacheMem (unlinked client.memory setting.slab ptr) (objectCache client.memory ptr))
    rw [List.erase_cons_head] at herase
    exact heldAfter_of_destroys hdestroys ▸ herase
  · exact heldAfter_of_kept hdestroys ▸ hheld.trans (hkept hdestroys)

theorem erase_perm {caches' : List Cache} {ptr : ℕ}
    (hlive : client.live.Perm (objects shape caches))
    (hobjects : (objects shape caches).Perm (ptr :: objects shape caches')) :
    (client.live.erase ptr).Perm (objects shape caches') := by
  simpa only [List.erase_cons_head] using (hlive.trans hobjects).erase ptr

/-- A buddy allocator that keeps its side gives a sound reply. -/
theorem soundReply_of_legal (hholds : Holds shape caches client) {taken : ℕ} {replied : Memory}
    (hspares : SparesRegions (settingOf shape buddy fuel) client.held client.memory replied)
    (hfresh : taken ≠ 0 → (settingOf shape buddy fuel).stop taken < wordSize ∧
      ∀ base ∈ client.held, (settingOf shape buddy fuel).stop base ≤ taken ∨
        (settingOf shape buddy fuel).stop taken ≤ base) :
    SoundReply shape client.memory caches taken replied where
  spared := fun query hquery => own_spared hholds.held_perm hspares hquery
  fresh := by
    intro htaken
    obtain ⟨hstop, hapart⟩ := hfresh htaken
    refine ⟨Nat.pos_of_ne_zero htaken, settingOf_stop taken ▸ hstop, ?_⟩
    intro cache hcache
    have hbase := hholds.held_perm.mem_iff.mpr (List.mem_map_of_mem (f := Cache.base) hcache)
    simp only [settingOf_stop] at hapart
    exact hapart cache.base hbase

theorem alloc_step (hfuel : 2 ≤ fuel) (hholds : Holds shape caches client)
    (hlegal : Legal (settingOf shape buddy fuel) client .alloc)
    (hkeeps : KeepsOrder (settingOf shape buddy fuel) client .alloc) :
    ∃ next caches', step (settingOf shape buddy fuel) client .alloc = some next ∧
      Holds shape caches' next ∧ (Closed shape client.memory → Closed shape next.memory) := by
  obtain ⟨taken, replied, hask, hspares, hfresh⟩ := hlegal
  have hsound := soundReply_of_legal hholds hspares hfresh
  obtain ⟨ptr, memory', caches', halloc, hsettled, hclosed, hbases, hobjects, -⟩ :=
    slabAlloc_spec hfuel hholds.settled hask hsound hkeeps
  obtain ⟨hheld, hlive⟩ :=
    grownClient_perm memory' hholds.held_perm hholds.live_perm hbases hobjects
  exact ⟨grownClient client taken ptr memory', caches', step_alloc hask halloc,
    ⟨hsettled, hheld, hlive⟩, hclosed⟩

section Free

variable {before after : List Cache} {cache : Cache} {index ptr : ℕ}

/-- A free that spares its cache. -/
theorem free_kept_step (hholds : Holds shape (before ++ cache :: after) client)
    (hlive : index ∈ cache.live)
    (hslot : ptr = shape.slot cache.base index + sizeofSlabAllocatedObjectHeader)
    (hstays : ¬ MovesDown client.memory ptr) (hkept : ¬ Destroys client.memory shape.slab ptr) :
    ∃ next, step (settingOf shape buddy fuel) client (.free ptr) = some next ∧
      Holds shape (before ++ cache.release index :: after) next ∧
      (Closed shape client.memory → Closed shape next.memory) ∧
      next.memory = released client.memory ptr := by
  obtain ⟨hresult, hsettled', hclosed, -⟩ :=
    slabFree_stays buddy hholds.settled hlive hslot hstays hkept
  have hbases : (bases (before ++ cache :: after)).Perm
      (bases (before ++ cache.release index :: after)) := by
    simp only [bases, List.map_append, List.map_cons, Cache.release]
    exact List.Perm.refl _
  have hheld : (heldAfter (settingOf shape buddy fuel) client ptr).Perm
      (bases (before ++ cache.release index :: after)) :=
    heldAfter_perm hholds.held_perm (fun hgone => absurd hgone hkept) fun _ => hbases
  have hobjects : (objects shape (before ++ cache :: after)).Perm
      (ptr :: objects shape (before ++ cache.release index :: after)) :=
    hslot ▸ objects_release hlive
  have hfreed : (client.live.erase ptr).Perm
      (objects shape (before ++ cache.release index :: after)) :=
    erase_perm hholds.live_perm hobjects
  have hstep : step (settingOf shape buddy fuel) client (.free ptr) = some
      ⟨released client.memory ptr, heldAfter (settingOf shape buddy fuel) client ptr,
        client.live.erase ptr⟩ := step_free hresult
  exact ⟨_, hstep, ⟨hsettled', hheld, hfreed⟩, hclosed, rfl⟩

/-- A cache that is destroyed with nothing behind it is the last one. -/
theorem last_of_destroyed (hholds : Holds shape (before ++ cache :: after) client)
    (hlive : index ∈ cache.live)
    (hslot : ptr = shape.slot cache.base index + sizeofSlabAllocatedObjectHeader)
    (hdestroys : Destroys client.memory shape.slab ptr)
    (hstale : SparesStaleNext (settingOf shape buddy fuel) client (.free ptr)) :
    (after = [] → DestroysLast (settingOf shape buddy fuel) client (.free ptr)) ∧
      (after = [] → nextCache client.memory (shape.addr cache.base) = 0) := by
  have hobject : objectCache client.memory ptr = shape.addr cache.base :=
    hslot ▸ objectCache_eq hholds.settled.toCore (by simp) hlive
  have hlast : after = [] → DestroysLast (settingOf shape buddy fuel) client (.free ptr) := by
    rintro rfl
    exact ⟨hdestroys, hholds.settled.toCore.last_eq_addr.trans hobject.symm⟩
  refine ⟨hlast, fun hnil => ?_⟩
  rw [← hobject]
  exact hstale (hlast hnil)

/-- What `buddy_free` gets when a free destroys its cache. -/
theorem destroy_call (hholds : Holds shape (before ++ cache :: after) client)
    (hlive : index ∈ cache.live)
    (hslot : ptr = shape.slot cache.base index + sizeofSlabAllocatedObjectHeader)
    (hstays : ¬ MovesDown client.memory ptr) (hdestroys : Destroys client.memory shape.slab ptr)
    (hnext : after = [] → nextCache client.memory (shape.addr cache.base) = 0) :
    slabCacheDestroy buddy (freed client.memory shape.slab ptr) shape.slab
        (objectCache client.memory ptr) =
      buddy.free (unlinked client.memory shape.slab ptr) shape.buddy cache.base := by
  obtain ⟨-, hcacheEq, hcacheMem, hcore', -, -, -⟩ :=
    unlinked_spec hholds.settled hlive hslot hstays hdestroys hnext
  have hdestroy : slabCacheDestroy buddy (freed client.memory shape.slab ptr) shape.slab
    (objectCache client.memory ptr) = buddy.free (unlinked client.memory shape.slab ptr)
      (buddyOf (unlinked client.memory shape.slab ptr) shape.slab)
      (cacheMem (unlinked client.memory shape.slab ptr) (objectCache client.memory ptr)) := rfl
  rw [hdestroy, hcore'.buddy_eq, hcacheEq, hcacheMem]

/-- A free that destroys its cache. -/
theorem free_destroys_step (hholds : Holds shape (before ++ cache :: after) client)
    (hlive : index ∈ cache.live)
    (hslot : ptr = shape.slot cache.base index + sizeofSlabAllocatedObjectHeader)
    (hstays : ¬ MovesDown client.memory ptr) (hdestroys : Destroys client.memory shape.slab ptr)
    (hnext : after = [] → nextCache client.memory (shape.addr cache.base) = 0)
    (hlegal : Legal (settingOf shape buddy fuel) client (.free ptr)) :
    ∃ next, step (settingOf shape buddy fuel) client (.free ptr) = some next ∧
      Holds shape (before ++ after) next ∧
      (after ≠ [] → Closed shape client.memory → Closed shape next.memory) ∧
      firstFreeCache next.memory shape.slab =
        if objectCache client.memory ptr = firstFreeCache client.memory shape.slab then 0
        else firstFreeCache client.memory shape.slab := by
  obtain ⟨honly, hcacheEq, hcacheMem, -⟩ :=
    unlinked_spec hholds.settled hlive hslot hstays hdestroys hnext
  have hbases : (bases (before ++ cache :: after)).Perm
      (cacheMem (unlinked client.memory shape.slab ptr) (objectCache client.memory ptr) ::
        bases (before ++ after)) := by
    rw [hcacheEq, hcacheMem]
    exact List.perm_middle.map Cache.base
  have hheld : (heldAfter (settingOf shape buddy fuel) client ptr).Perm
      (bases (before ++ after)) :=
    heldAfter_perm hholds.held_perm (fun _ => hbases) fun hkept => absurd hdestroys hkept
  obtain ⟨replied, hfree, hspares⟩ := hlegal.2 hdestroys
  have hfree' : buddy.free (unlinked client.memory shape.slab ptr) shape.buddy cache.base =
      some replied := by
    rw [← destroy_call hholds hlive hslot hstays hdestroys hnext]
    exact hfree
  obtain ⟨memory', hresult, hsettled', hclosed, -, hfirst⟩ :=
    slabFree_destroys hholds.settled hlive hslot hstays hdestroys hnext hfree'
      fun query hquery => own_spared hheld hspares hquery
  have hobjects : (objects shape (before ++ cache :: after)).Perm
      (ptr :: objects shape (before ++ after)) := hslot ▸ objects_drop honly
  have hfreed : (client.live.erase ptr).Perm (objects shape (before ++ after)) :=
    erase_perm hholds.live_perm hobjects
  have hstep : step (settingOf shape buddy fuel) client (.free ptr) = some
      ⟨memory', heldAfter (settingOf shape buddy fuel) client ptr, client.live.erase ptr⟩ :=
    step_free hresult
  exact ⟨_, hstep, ⟨hsettled', hheld, hfreed⟩, hclosed, hcacheEq ▸ hfirst⟩

end Free

theorem free_step {ptr : ℕ} (hholds : Holds shape caches client)
    (hlegal : Legal (settingOf shape buddy fuel) client (.free ptr))
    (hkeeps : KeepsOrder (settingOf shape buddy fuel) client (.free ptr))
    (hstale : SparesStaleNext (settingOf shape buddy fuel) client (.free ptr)) :
    ∃ next caches', step (settingOf shape buddy fuel) client (.free ptr) = some next ∧
      Holds shape caches' next ∧ (¬ DestroysLast (settingOf shape buddy fuel) client (.free ptr) →
        Closed shape client.memory → Closed shape next.memory) := by
  obtain ⟨before, cache, after, index, rfl, hlive, hslot⟩ :=
    mem_objects (hholds.live_perm.mem_iff.mp hlegal.1)
  by_cases hdestroys : Destroys client.memory shape.slab ptr
  · obtain ⟨hlast, hnext⟩ := last_of_destroyed hholds hlive hslot hdestroys hstale
    obtain ⟨next, hstep, hholds', hclosed, -⟩ :=
      free_destroys_step hholds hlive hslot hkeeps hdestroys hnext hlegal
    exact ⟨next, before ++ after, hstep, hholds', fun hkept => hclosed fun hnil =>
      hkept (hlast hnil)⟩
  · obtain ⟨next, hstep, hholds', hclosed, -⟩ :=
      free_kept_step hholds hlive hslot hkeeps hdestroys
    exact ⟨next, _, hstep, hholds', fun _ => hclosed⟩

/-- Writing inside an object changes nothing the slab relies on. -/
theorem write_spares_own {address : ℕ} {byte : UInt8} (hholds : Holds shape caches client)
    (hlegal : Legal (settingOf shape buddy fuel) client (.write address byte)) :
    ∀ query, OwnByte shape caches query →
      writeByte client.memory address byte query = client.memory query := by
  obtain ⟨ptr, hptr, hlower, hupper⟩ := hlegal
  intro query hquery
  apply writeByte_of_ne
  rintro rfl
  exact object_not_own hholds.settled.toCore (hholds.live_perm.mem_iff.mp hptr) hlower hupper hquery

theorem write_step {address : ℕ} {byte : UInt8} (hholds : Holds shape caches client)
    (hlegal : Legal (settingOf shape buddy fuel) client (.write address byte)) :
    ∃ next, step (settingOf shape buddy fuel) client (.write address byte) = some next ∧
      Holds shape caches next ∧ (Closed shape client.memory → Closed shape next.memory) := by
  have hspared := write_spares_own hholds hlegal
  exact ⟨_, rfl, ⟨settled_congr hholds.settled hspared, hholds.held_perm, hholds.live_perm⟩,
    closed_congr hholds.settled.toCore hspared⟩

/-- What every step of an orderly run meets. -/
def Orderly (setting : Setting) (client : Client) (op : Op) : Prop :=
  Legal setting client op ∧ KeepsOrder setting client op ∧ SparesStaleNext setting client op

theorem step_holds (hfuel : 2 ≤ fuel) (hholds : Holds shape caches client) {op : Op}
    (horderly : Orderly (settingOf shape buddy fuel) client op) :
    ∃ next caches', step (settingOf shape buddy fuel) client op = some next ∧
      Holds shape caches' next ∧ (¬ DestroysLast (settingOf shape buddy fuel) client op →
        Closed shape client.memory → Closed shape next.memory) := by
  obtain ⟨hlegal, hkeeps, hstale⟩ := horderly
  cases op with
  | alloc =>
      obtain ⟨next, caches', hstep, hnext, hclosed⟩ := alloc_step hfuel hholds hlegal hkeeps
      exact ⟨next, caches', hstep, hnext, fun _ => hclosed⟩
  | free ptr => exact free_step hholds hlegal hkeeps hstale
  | write address byte =>
      obtain ⟨next, hstep, hnext, hclosed⟩ := write_step hholds hlegal
      exact ⟨next, caches, hstep, hnext, fun _ => hclosed⟩

/-! ## A fresh slab -/

/-- The region that `slab_init` got fits the address space. -/
structure Placed (setting : Setting) (buddyPtr : ℕ) : Prop where
  slab_ne : setting.slab ≠ 0
  stop_lt : setting.stop setting.slab < wordSize
  buddy_lt : buddyPtr < wordSize

theorem slabInit_holds {setting : Setting} {memory memory₀ : Memory} {buddyPtr : ℕ}
    (hsize : setting.size + sizeofSlabAllocatedObjectHeader < wordSize)
    (hplaced : Placed setting buddyPtr)
    (hinit : slabInit setting.buddy memory buddyPtr setting.size = some (setting.slab, memory₀)) :
    ∃ shape, setting = settingOf shape setting.buddy setting.fuel ∧
      Holds shape [emptyCache shape.slab] ⟨memory₀, [setting.slab], []⟩ ∧
      Closed shape memory₀ ∧ firstFreeCache memory₀ shape.slab ≠ 0 := by
  let shape : Shape := ⟨setting.slab, buddyPtr, setting.size, Nat.pos_of_ne_zero hplaced.slab_ne,
    hplaced.buddy_lt, hsize⟩
  have hsetting : setting = settingOf shape setting.buddy setting.fuel := rfl
  have hstop : shape.stop shape.slab < wordSize := by
    have hsame : (settingOf shape setting.buddy setting.fuel).stop shape.slab =
        shape.stop shape.slab := settingOf_stop shape.slab
    rw [← hsame]
    exact hplaced.stop_lt
  simp only [slabInit, Nat.mod_eq_of_lt hsize, Option.bind_eq_bind, Option.bind_eq_some_iff]
    at hinit
  obtain ⟨⟨region, replied⟩, -, hresult⟩ := hinit
  by_cases hregion : region = 0
  · simp only [if_pos hregion, Option.some.injEq, Prod.mk.injEq] at hresult
    exact absurd hresult.1.symm hplaced.slab_ne
  · simp only [if_neg hregion, Option.map_eq_some_iff, Prod.mk.injEq] at hresult
    obtain ⟨memory', hat, rfl, rfl⟩ := hresult
    obtain ⟨settled, hat', hready, -⟩ := slabInitAt_ready replied hstop
    obtain rfl : memory' = settled := Option.some.inj (hat.symm.trans hat')
    refine ⟨shape, hsetting, ⟨hready.settled, List.Perm.refl _, List.Perm.refl _⟩, hready.closed, ?_⟩
    rw [hready.first]
    exact (hready.core.addr_pos (by simp)).ne'

end DoomsdayModules.SlabRuns
