import DoomsdayModules.Malloc.SlabInvariant

/-!
# The moves of a slab

Taking a slot, releasing one, adding a cache at the end of the list and
unlinking one, each on the abstract state, and from them what `slab_alloc` and
`slab_free` do as long as no cache changes places with its neighbour.
-/

namespace DoomsdayModules.SlabMoves

open DoomsdayModules.ByteMemory DoomsdayModules.Util DoomsdayModules.IntrusiveStack
open DoomsdayModules.DoublyLinked DoomsdayModules.Freelist DoomsdayModules.Slab
open DoomsdayModules.SlabInvariant

variable {shape : Shape} {memory memory' : Memory} {cache : Cache}

/-! ## Slots of one cache -/

/-- A byte that taking or releasing a slot may change. -/
def SlotByte (shape : Shape) (base index query : ℕ) : Prop :=
  (shape.addr base + 16 ≤ query ∧ query < shape.addr base + 24) ∨
    (shape.addr base + 40 ≤ query ∧ query < shape.addr base + 48) ∨
    (shape.slot base index ≤ query ∧ query < shape.slot base index + 8)

theorem SlotByte.content {base index query : ℕ} (hindex : index < shape.capacity base)
    (hbyte : SlotByte shape base index query) :
    shape.Content base query ∧ ¬ shape.CounterByte base query := by
  have hstop := shape.header_le_stop base
  have hbegin := shape.header_le_slot base index
  have hend := shape.slot_add_le_stop hindex
  have hbytes := shape.slotBytes_bounds.1
  simp only [sizeofSlabCacheHeader] at hstop hbegin
  simp only [SlotByte] at hbyte
  simp only [Shape.Content, Shape.LinkByte, Shape.CounterByte]
  omega

/-- Taking or releasing a slot spares the clients. -/
theorem SlotByte.not_client {index query : ℕ}
    (hbyte : SlotByte shape cache.base index query) : ¬ cache.ClientByte shape query := by
  rcases hbyte with ⟨-, hupper⟩ | ⟨-, hupper⟩ | ⟨hlower, hupper⟩
  · exact Slots.header_not_client (by simp only [sizeofSlabCacheHeader]; omega)
  · exact Slots.header_not_client (by simp only [sizeofSlabCacheHeader]; omega)
  · exact Slots.slot_not_client hlower hupper

theorem slot_ne_zero {base : ℕ} (index : ℕ) : shape.slot base index ≠ 0 := by
  have := shape.header_le_slot base index
  simp only [sizeofSlabCacheHeader] at this
  omega

theorem addr_lt {base : ℕ} (hstop : shape.stop base < wordSize) : shape.addr base < wordSize :=
  lt_of_le_of_lt (by have := shape.header_le_stop base; omega) hstop

/-- The list head of a cache is in front of its slots. -/
theorem head_wordsApart (base index : ℕ) :
    WordsApart (shape.addr base + 40) (shape.slot base index) := by
  have := shape.header_le_slot base index
  simp only [sizeofSlabCacheHeader] at this
  exact .inl (by omega)

theorem slot_word_unchanged {base index other : ℕ} (hne : other ≠ index)
    (hchange : UnchangedOutside memory memory' (SlotByte shape base index)) :
    readWord memory' (shape.slot base other) = readWord memory (shape.slot base other) := by
  have hapart : WordsApart (shape.slot base other) (shape.slot base index) :=
    shape.slots_wordsApart hne
  have hbegin := shape.header_le_slot base other
  simp only [sizeofSlabCacheHeader] at hbegin
  apply readWord_congr
  apply hchange.agreeOn
  intro query hlower hupper hbyte
  simp only [WordsApart, SlotByte] at hapart hbyte
  omega

/-- What a change of one slot has to establish. -/
theorem slots_of_change (cache' : Cache) {index : ℕ} (hslots : Slots shape memory cache)
    (hbase : cache'.base = cache.base)
    (hchange : UnchangedOutside memory memory' (SlotByte shape cache.base index))
    (hunmanaged : unmanagedBegin memory' (shape.addr cache.base) =
      shape.slot cache.base cache'.used)
    (hfreelist : IsStack memory' (readWord memory' (shape.addr cache.base + 40))
      (cache'.free.map (shape.slot cache.base)))
    (hperm : (cache'.live ++ cache'.free).Perm (List.range cache'.used))
    (hused : cache'.used ≤ shape.capacity cache.base)
    (hheader : index ∈ cache'.live →
      readWord memory' (shape.slot cache.base index) = shape.addr cache.base)
    (hlive : ∀ other ∈ cache'.live, other ≠ index → other ∈ cache.live) :
    Slots shape memory' cache' := by
  have hbegin := shape.header_le_slot cache.base index
  simp only [sizeofSlabCacheHeader] at hbegin
  have hmax : maxObjects memory' (shape.addr cache.base) =
      maxObjects memory (shape.addr cache.base) := by
    apply readWord_congr
    apply hchange.agreeOn
    intro query hlower hupper hbyte
    simp only [SlotByte] at hbyte
    omega
  have hroot : memory' (shape.addr cache.base + 64) = memory (shape.addr cache.base + 64) := by
    apply hchange
    intro hbyte
    simp only [SlotByte] at hbyte
    omega
  exact
    { unmanaged_eq := hbase ▸ hunmanaged
      freelist := hbase ▸ hfreelist
      max_eq := by rw [hbase, hmax, hslots.max_eq]
      root_eq := by rw [hbase, ← hslots.root_eq, rootCache, rootCache, hroot]
      slots := hperm
      used_le := hbase ▸ hused
      headers := by
        intro other hother
        rw [hbase]
        by_cases hsame : other = index
        · exact hsame ▸ hheader (hsame ▸ hother)
        · rw [slot_word_unchanged hsame hchange]
          exact hslots.headers other (hlive other hother hsame) }

/-- Taking a slot never used. -/
theorem take_fresh (hslots : Slots shape memory cache)
    (hstop : shape.stop cache.base < wordSize)
    (hroom : cache.live.length < shape.capacity cache.base) (hfree : cache.free = [])
    (hobjsize : objsize memory shape.slab = shape.slotBytes) :
    (takeSlot memory shape.slab (shape.addr cache.base)).1 =
        shape.slot cache.base cache.live.length ∧
      Slots shape (writeWord (takeSlot memory shape.slab (shape.addr cache.base)).2
        (shape.slot cache.base cache.live.length) (shape.addr cache.base))
        ⟨cache.base, cache.live.length :: cache.live, []⟩ ∧
      UnchangedOutside memory (writeWord (takeSlot memory shape.slab (shape.addr cache.base)).2
        (shape.slot cache.base cache.live.length) (shape.addr cache.base))
        (SlotByte shape cache.base cache.live.length) := by
  have haddr := shape.base_le_addr cache.base
  have hheader := shape.header_le_stop cache.base
  have hbegin := shape.header_le_slot cache.base cache.live.length
  have hend := shape.slot_add_le_stop hroom
  simp only [sizeofSlabCacheHeader] at hheader hbegin
  have hlist := hslots.freelist
  rw [hfree, List.map_nil] at hlist
  have hused : cache.used = cache.live.length := by simp [Cache.used, hfree]
  have hunmanaged := hslots.unmanaged_eq
  rw [hused] at hunmanaged
  have htake : takeSlot memory shape.slab (shape.addr cache.base) =
      (shape.slot cache.base cache.live.length, writeWord memory
        (shape.addr cache.base + 16) (shape.slot cache.base (cache.live.length + 1))) := by
    simp only [takeSlot, freelistPop_nil hlist, if_pos, hunmanaged, hobjsize, Shape.slot_succ]
  rw [htake]
  have hchange : UnchangedOutside memory (writeWord (writeWord memory
      (shape.addr cache.base + 16) (shape.slot cache.base (cache.live.length + 1)))
      (shape.slot cache.base cache.live.length) (shape.addr cache.base))
      (SlotByte shape cache.base cache.live.length) := by
    intro query houtside
    simp only [SlotByte, not_or] at houtside
    rw [writeWord_of_outside (by omega), writeWord_of_outside (by omega)]
  refine ⟨rfl, ?_, hchange⟩
  have hlive := hslots.slots
  rw [hfree, List.append_nil, hused] at hlive
  apply slots_of_change ⟨cache.base, cache.live.length :: cache.live, []⟩ hslots rfl hchange
  · have hfits : shape.slot cache.base (cache.live.length + 1) < 2 ^ 64 := by
      rw [Shape.slot_succ]
      exact hend.trans_lt hstop
    simp only [Cache.used, List.length_cons, List.length_nil, Nat.add_zero]
    exact (readWord_writeWord_of_disjoint (.inl (by omega))).trans (readWord_writeWord_same hfits)
  · have hempty : readWord (writeWord (writeWord memory (shape.addr cache.base + 16)
        (shape.slot cache.base (cache.live.length + 1))) (shape.slot cache.base cache.live.length)
        (shape.addr cache.base)) (shape.addr cache.base + 40) = 0 :=
      (readWord_writeWord_of_disjoint (.inl (by omega))).trans
        ((readWord_writeWord_of_disjoint (.inr (by omega))).trans hlist)
    exact hempty
  · simp only [Cache.used, List.length_cons, List.length_nil, Nat.add_zero, List.append_nil,
      List.range_succ]
    exact (List.perm_append_singleton _ _).symm.trans (hlive.append_right _)
  · simpa only [Cache.used, List.length_cons, List.length_nil, Nat.add_zero] using
      Nat.succ_le_of_lt hroom
  · intro _
    exact readWord_writeWord_same (addr_lt hstop)
  · intro other hother hne
    exact (List.mem_cons.mp hother).resolve_left hne

/-- Taking the first free slot again. -/
theorem take_recycled (hslots : Slots shape memory cache)
    (hstop : shape.stop cache.base < wordSize) {index : ℕ} {rest : List ℕ}
    (hfree : cache.free = index :: rest) :
    (takeSlot memory shape.slab (shape.addr cache.base)).1 = shape.slot cache.base index ∧
      Slots shape (writeWord (takeSlot memory shape.slab (shape.addr cache.base)).2
        (shape.slot cache.base index) (shape.addr cache.base))
        ⟨cache.base, index :: cache.live, rest⟩ ∧
      UnchangedOutside memory (writeWord (takeSlot memory shape.slab (shape.addr cache.base)).2
        (shape.slot cache.base index) (shape.addr cache.base))
        (SlotByte shape cache.base index) := by
  have hheader := shape.header_le_stop cache.base
  have hbegin := shape.header_le_slot cache.base index
  simp only [sizeofSlabCacheHeader] at hheader hbegin
  have hlist := hslots.freelist
  rw [hfree, List.map_cons] at hlist
  obtain ⟨hptr, hpopped⟩ := freelistPop_cons hlist (by omega) (by
    intro other hother
    obtain ⟨next, -, rfl⟩ := List.mem_map.mp hother
    exact head_wordsApart cache.base next)
  have hpop := freelistPop_unchangedOutside memory (shape.addr cache.base + 40)
  have htake : takeSlot memory shape.slab (shape.addr cache.base) =
      freelistPop memory (shape.addr cache.base + 40) := by
    simp only [takeSlot, hptr, if_neg (slot_ne_zero index)]
  rw [htake]
  have hchange : UnchangedOutside memory
      (writeWord (freelistPop memory (shape.addr cache.base + 40)).2
        (shape.slot cache.base index) (shape.addr cache.base))
      (SlotByte shape cache.base index) :=
    (hpop.mono fun query hquery => .inr (.inl ⟨hquery.1, by omega⟩)).trans
      ((writeWord_unchangedOutside _ _ _).mono fun query hquery => .inr (.inr hquery))
  have hnodup := hslots.nodup
  rw [hfree] at hnodup
  have hrest : index ∉ rest :=
    (List.nodup_cons.mp (List.nodup_append.mp hnodup).2.1).1
  have hused : Cache.used ⟨cache.base, index :: cache.live, rest⟩ = cache.used := by
    simp only [Cache.used, hfree, List.length_cons]
    omega
  refine ⟨hptr, ?_, hchange⟩
  apply slots_of_change ⟨cache.base, index :: cache.live, rest⟩ hslots rfl hchange
  · rw [hused, ← hslots.unmanaged_eq]
    exact (readWord_writeWord_of_disjoint (.inl (by omega))).trans
      (readWord_congr (hpop.agreeOn fun query hlower hupper => by omega))
  · rw [readWord_writeWord_of_disjoint (head_wordsApart cache.base index)]
    apply hpopped.frame
    intro node hnode
    obtain ⟨other, hother, rfl⟩ := List.mem_map.mp hnode
    exact readWord_writeWord_of_disjoint
      (shape.slots_wordsApart fun hsame => hrest (hsame ▸ hother))
  · rw [hused]
    refine List.Perm.trans ?_ hslots.slots
    rw [hfree]
    exact List.perm_middle.symm
  · rw [hused]
    exact hslots.used_le
  · intro _
    exact readWord_writeWord_same (addr_lt hstop)
  · intro other hother hne
    exact (List.mem_cons.mp hother).resolve_left hne

/-- Taking a slot, wherever it comes from. -/
theorem take_slots (hslots : Slots shape memory cache)
    (hstop : shape.stop cache.base < wordSize)
    (hroom : cache.live.length < shape.capacity cache.base)
    (hobjsize : objsize memory shape.slab = shape.slotBytes) :
    ∃ index free', index < shape.capacity cache.base ∧
      (takeSlot memory shape.slab (shape.addr cache.base)).1 = shape.slot cache.base index ∧
      Slots shape (writeWord (takeSlot memory shape.slab (shape.addr cache.base)).2
        (shape.slot cache.base index) (shape.addr cache.base))
        ⟨cache.base, index :: cache.live, free'⟩ ∧
      UnchangedOutside memory (writeWord (takeSlot memory shape.slab (shape.addr cache.base)).2
        (shape.slot cache.base index) (shape.addr cache.base))
        (SlotByte shape cache.base index) := by
  cases hfree : cache.free with
  | nil => exact ⟨_, _, hroom, take_fresh hslots hstop hroom hfree hobjsize⟩
  | cons index rest =>
      have hmem : index ∈ cache.live ++ cache.free := by simp [hfree]
      have hindex := hslots.index_lt hmem
      exact ⟨index, rest, hindex, take_recycled hslots hstop hfree⟩

/-- Taking a slot for an object that is counted already. -/
theorem take_holds (hslots : Slots shape memory cache)
    (hstop : shape.stop cache.base < wordSize)
    (hroom : cache.live.length < shape.capacity cache.base)
    (hobjsize : objsize memory shape.slab = shape.slotBytes)
    (hcounter : allocatedObjects memory (shape.addr cache.base) = cache.live.length + 1) :
    ∃ index free', index < shape.capacity cache.base ∧
      (takeSlot memory shape.slab (shape.addr cache.base)).1 = shape.slot cache.base index ∧
      CacheHolds shape (writeWord (takeSlot memory shape.slab (shape.addr cache.base)).2
        (shape.slot cache.base index) (shape.addr cache.base))
        ⟨cache.base, index :: cache.live, free'⟩ ∧
      UnchangedOutside memory (writeWord (takeSlot memory shape.slab (shape.addr cache.base)).2
        (shape.slot cache.base index) (shape.addr cache.base))
        (SlotByte shape cache.base index) := by
  obtain ⟨index, free', hindex, hslot, hslots', htake⟩ := take_slots hslots hstop hroom hobjsize
  refine ⟨index, free', hindex, hslot, { hslots' with allocated_eq := ?_ }, htake⟩
  refine Eq.trans (readWord_congr (htake.agreeOn fun query hlower hupper hbyte => ?_)) hcounter
  exact (hbyte.content hindex).2 ⟨hlower, by omega⟩

/-- Releasing a live slot. -/
theorem release_slots (hslots : Slots shape memory cache)
    (hstop : shape.stop cache.base < wordSize) {index : ℕ} (hlive : index ∈ cache.live) :
    Slots shape (freelistPush memory (shape.addr cache.base + 40) (shape.slot cache.base index))
        (cache.release index) ∧
      UnchangedOutside memory
        (freelistPush memory (shape.addr cache.base + 40) (shape.slot cache.base index))
        (SlotByte shape cache.base index) := by
  have hheader := shape.header_le_stop cache.base
  have hbegin := shape.header_le_slot cache.base index
  have hend := shape.slot_add_le_stop (hslots.index_lt (List.mem_append_left _ hlive))
  have hbytes := shape.slotBytes_bounds.1
  simp only [sizeofSlabCacheHeader] at hheader hbegin
  have hpush := freelistPush_unchangedOutside memory (shape.addr cache.base + 40)
    (shape.slot cache.base index)
  have hchange : UnchangedOutside memory
      (freelistPush memory (shape.addr cache.base + 40) (shape.slot cache.base index))
      (SlotByte shape cache.base index) := hpush.mono fun query hquery => by
    simp only [SlotByte]
    omega
  have hnodup := List.nodup_append.mp hslots.nodup
  have hfresh : index ∉ cache.free := fun hin => hnodup.2.2 index hlive index hin rfl
  have hlength := List.length_erase_of_mem hlive
  have hpositive := List.length_pos_of_mem hlive
  have hused : (cache.release index).used =
      cache.used := by
    simp only [Cache.release, Cache.used, List.length_cons, hlength]
    omega
  refine ⟨?_, hchange⟩
  apply slots_of_change (cache.release index) hslots rfl hchange
  · rw [hused, ← hslots.unmanaged_eq]
    exact readWord_congr (hpush.agreeOn fun query hlower hupper => by omega)
  · exact freelistPush_isStack hslots.freelist (by omega) (slot_ne_zero index)
      (show shape.slot cache.base index < 2 ^ 64 from lt_of_le_of_lt (by omega) hstop)
      (head_wordsApart cache.base index)
      (fun node hnode => by
        obtain ⟨other, -, rfl⟩ := List.mem_map.mp hnode
        exact head_wordsApart cache.base other)
      (fun node hnode => by
        obtain ⟨other, hother, rfl⟩ := List.mem_map.mp hnode
        exact shape.slots_wordsApart fun hsame => hfresh (hsame ▸ hother))
  · rw [hused]
    refine List.Perm.trans ?_ hslots.slots
    exact List.perm_middle.trans
      ((List.perm_cons_erase hlive).symm.append_right cache.free)
  · rw [hused]
    exact hslots.used_le
  · intro hin
    exact absurd hin (hnodup.1.not_mem_erase)
  · intro other hother _
    exact List.mem_of_mem_erase hother

/-! ## Allocating from the last cache -/

theorem capacity_lt {base : ℕ} (hstop : shape.stop base < wordSize) :
    shape.capacity base < wordSize := by
  have hdiv : shape.capacity base ≤ shape.stop base - shape.addr base - sizeofSlabCacheHeader :=
    Nat.div_le_self _ _
  exact lt_of_le_of_lt (by omega) hstop

/-- The loop over full caches ends at the last cache or behind it. -/
theorem skipFullCaches_spec {fuel addr : ℕ} (hfuel : 2 ≤ fuel)
    (hfirst : firstFreeCache memory shape.slab = addr) (hnext : nextCache memory addr = 0) :
    ∃ memory', skipFullCaches shape.slab fuel memory = some memory' ∧
      UnchangedOutside memory memory' shape.FirstFreeByte ∧
      (firstFreeCache memory' shape.slab = 0 ∧
          (addr ≠ 0 → allocatedObjects memory addr = maxObjects memory addr) ∨
        memory' = memory ∧
          (addr ≠ 0 → allocatedObjects memory addr ≠ maxObjects memory addr)) := by
  obtain ⟨fuel, rfl⟩ : ∃ rest, fuel = rest + 2 := ⟨fuel - 2, by omega⟩
  simp only [skipFullCaches, hfirst, hnext]
  by_cases hfull : addr ≠ 0 ∧ allocatedObjects memory addr = maxObjects memory addr
  · have hzero : firstFreeCache (writeWord memory (shape.slab + 16) 0) shape.slab = 0 :=
      readWord_writeWord_same (by norm_num)
    refine ⟨writeWord memory (shape.slab + 16) 0, ?_, writeWord_unchangedOutside _ _ _,
      .inl ⟨hzero, fun _ => hfull.2⟩⟩
    simp only [if_pos hfull, hzero, ne_eq, not_true_eq_false, false_and, if_false]
  · exact ⟨memory, by simp only [if_neg hfull], unchangedOutside_refl _ _,
      .inr ⟨rfl, fun hne hsame => hfull ⟨hne, hsame⟩⟩⟩

theorem counter_content {base query : ℕ} (hcounter : shape.CounterByte base query) :
    shape.Content base query := by
  have hstop := shape.header_le_stop base
  simp only [sizeofSlabCacheHeader] at hstop
  simp only [Shape.CounterByte] at hcounter
  simp only [Shape.Content, Shape.LinkByte]
  omega

theorem counter_not_client {query : ℕ} (hcounter : shape.CounterByte cache.base query) :
    ¬ cache.ClientByte shape query :=
  Slots.header_not_client (by have := hcounter.2; simp only [sizeofSlabCacheHeader]; omega)

theorem countObject_unchangedOutside (memory : Memory) (shape : Shape) (base : ℕ) :
    UnchangedOutside memory (countObject memory (shape.addr base)) (shape.CounterByte base) :=
  (writeWord_unchangedOutside _ _ _).mono fun _ hquery => ⟨hquery.1, by omega⟩

/-- What the counted object leaves alone. -/
theorem countObject_spares {before : List Cache}
    (hready : Ready shape memory before cache) :
    firstFreeCache (countObject memory (shape.addr cache.base)) shape.slab =
        shape.addr cache.base ∧
      ∀ other ∈ before ++ [cache],
        nextCache (countObject memory (shape.addr cache.base)) (shape.addr other.base) =
          nextCache memory (shape.addr other.base) ∧
        prevCache (countObject memory (shape.addr cache.base)) (shape.addr other.base) =
          prevCache memory (shape.addr other.base) := by
  obtain ⟨hcore, hfirst, -⟩ := hready
  have hmem : cache ∈ before ++ [cache] := by simp
  have hcount := countObject_unchangedOutside memory shape cache.base
  generalize countObject memory (shape.addr cache.base) = counted at *
  have hcontent : UnchangedOutside memory counted (shape.UpdateByte cache.base) :=
    hcount.mono fun _ hquery => .inl (counter_content hquery)
  refine ⟨?_, fun other hother => Core.link_words fun query hlink =>
    hcore.update_link hmem hcontent hother hlink⟩
  rw [← hfirst]
  apply readWord_congr
  intro query hlower hupper
  exact hcount query fun hquery => hcore.content_not_slab hmem (counter_content hquery)
    (Shape.FirstFreeByte.slabByte ⟨hlower, by omega⟩)

/-- The last cache is counted, the loop over full caches is over, and its slot is
not taken yet. -/
structure Skipped (shape : Shape) (memory : Memory) (cache : Cache) (skipped : Memory) : Prop where
  change : UnchangedOutside memory skipped fun query =>
    shape.CounterByte cache.base query ∨ shape.FirstFreeByte query
  slots : Slots shape skipped cache
  objsize_eq : objsize skipped shape.slab = shape.slotBytes
  counter : allocatedObjects skipped (shape.addr cache.base) = cache.live.length + 1
  first_free : firstFreeCache skipped shape.slab = 0 ∧
      cache.live.length + 1 = shape.capacity cache.base ∨
    firstFreeCache skipped shape.slab = shape.addr cache.base ∧
      cache.live.length + 1 ≠ shape.capacity cache.base

theorem countObject_skipped {before : List Cache} {fuel : ℕ} (hfuel : 2 ≤ fuel)
    (hready : Ready shape memory before cache)
    (hroom : cache.live.length < shape.capacity cache.base) :
    ∃ skipped, skipFullCaches shape.slab fuel (countObject memory (shape.addr cache.base)) =
      some skipped ∧ Skipped shape memory cache skipped := by
  obtain ⟨hfirst, hlinks⟩ := countObject_spares hready
  obtain ⟨hcore, -, hnext⟩ := hready
  have hmem : cache ∈ before ++ [cache] := by simp
  have hholds := hcore.contents cache hmem
  have hcount := countObject_unchangedOutside memory shape cache.base
  have hcounter : allocatedObjects (countObject memory (shape.addr cache.base))
      (shape.addr cache.base) = cache.live.length + 1 := by
    rw [countObject, hholds.allocated_eq]
    exact readWord_writeWord_same
      (lt_of_le_of_lt (Nat.succ_le_of_lt hroom) (capacity_lt (hcore.stop_lt hmem)))
  have hmax : maxObjects (countObject memory (shape.addr cache.base)) (shape.addr cache.base) =
      shape.capacity cache.base :=
    (readWord_writeWord_of_disjoint (by omega)).trans hholds.max_eq
  have hnext' := (hlinks cache hmem).1.trans hnext
  generalize countObject memory (shape.addr cache.base) = counted at *
  obtain ⟨skipped, hskip, houtside, hends⟩ := skipFullCaches_spec hfuel hfirst hnext'
  -- neither change reaches the slots
  have hchange : UnchangedOutside memory skipped fun query =>
      shape.CounterByte cache.base query ∨ shape.FirstFreeByte query :=
    (hcount.mono fun _ => Or.inl).trans (houtside.mono fun _ => Or.inr)
  have hcontent : ∀ query, shape.Content cache.base query → skipped query = counted query :=
    fun query hquery => houtside query fun hbyte =>
      hcore.content_not_slab hmem hquery hbyte.slabByte
  refine ⟨skipped, hskip, hchange, ?_, ?_, ?_, ?_⟩
  · apply hholds.toSlots.frame
    intro query hquery hnotCounter _
    rw [hcontent query hquery]
    exact hcount query hnotCounter
  · have hupdate : UnchangedOutside memory skipped (shape.UpdateByte cache.base) :=
      hchange.mono fun _ => Or.imp counter_content id
    exact (Core.slab_words _ (by omega) fun query hslab hquery =>
      hcore.update_slab hmem hupdate hslab hquery).trans hcore.objsize_eq
  · rw [← hcounter]
    exact readWord_congr fun query hlower hupper =>
      hcontent query (counter_content ⟨hlower, by omega⟩)
  · have haddr := (hcore.addr_pos hmem).ne'
    rcases hends with ⟨hzero, hfilled⟩ | ⟨rfl, hunfilled⟩
    · exact .inl ⟨hzero, by rw [← hcounter, ← hmax, hfilled haddr]⟩
    · refine .inr ⟨hfirst, fun hlast => hunfilled haddr ?_⟩
      rw [hcounter, hmax, hlast]

/-- An allocation from the last cache, when no cache overtakes its predecessor:
nothing happens if the cache is full, and otherwise one slot becomes live. -/
theorem slabCacheAlloc_spec {before : List Cache} {fuel : ℕ} (hfuel : 2 ≤ fuel)
    (hready : Ready shape memory before cache)
    (hstays : allocatedObjects memory (shape.addr cache.base) ≠
        maxObjects memory (shape.addr cache.base) →
      ¬ overtakesPrev (countObject memory (shape.addr cache.base)) (shape.addr cache.base)) :
    (slabCacheAlloc fuel memory shape.slab (shape.addr cache.base) = some (0, memory) ∧
      cache.live.length = shape.capacity cache.base) ∨
    ∃ index free' memory', slabCacheAlloc fuel memory shape.slab (shape.addr cache.base) =
        some (shape.slot cache.base index + sizeofSlabAllocatedObjectHeader, memory') ∧
      Settled shape memory' (before ++ [⟨cache.base, index :: cache.live, free'⟩]) ∧
      Closed shape memory' ∧
      UnchangedOutside memory memory' (OwnByte shape (before ++ [cache])) ∧
      cache.live.length < shape.capacity cache.base ∧
      (firstFreeCache memory' shape.slab = 0 ↔
        cache.live.length + 1 = shape.capacity cache.base) := by
  obtain ⟨hcore, hfirst, hnext⟩ := hready
  have hmem : cache ∈ before ++ [cache] := by simp
  have hholds := hcore.contents cache hmem
  have hstop := hcore.stop_lt hmem
  have hcapacity := capacity_lt hstop
  rw [hholds.allocated_eq, hholds.max_eq] at hstays
  simp only [slabCacheAlloc, hholds.allocated_eq, hholds.max_eq]
  by_cases hfull : cache.live.length = shape.capacity cache.base
  · exact .inl ⟨if_pos hfull, hfull⟩
  right
  simp only [if_neg hfull, if_neg (hstays hfull)]
  have hroom : cache.live.length < shape.capacity cache.base := lt_of_le_of_ne
    (le_trans (Nat.le_add_right _ _) hholds.used_le) hfull
  obtain ⟨skipped, hskip, hskipped⟩ := countObject_skipped hfuel ⟨hcore, hfirst, hnext⟩ hroom
  obtain ⟨index, free', hindex, hslot, hholds', htake⟩ :=
    take_holds hskipped.slots hstop hroom hskipped.objsize_eq hskipped.counter
  simp only [hskip, Option.bind_eq_bind, Option.bind_some, Option.pure_def, hslot]
  refine ⟨index, free', _, rfl, ?_⟩
  generalize writeWord (takeSlot skipped shape.slab (shape.addr cache.base)).2
    (shape.slot cache.base index) (shape.addr cache.base) = final at *
  have hfinal : UnchangedOutside memory final (shape.UpdateByte cache.base) :=
    (hskipped.change.mono fun _ => Or.imp counter_content id).trans
      (htake.mono fun _ hbyte => .inl (hbyte.content hindex).1)
  have hcore' : Core shape final (before ++ [⟨cache.base, index :: cache.live, free'⟩]) :=
    hcore.update rfl hfinal hholds'
  have hlast := hcore'.last_eq_addr
  have hnext' : Closed shape final := by
    rw [Closed, hlast, ← hnext]
    exact (Core.link_words fun query hlink =>
      hcore.update_link hmem hfinal hmem hlink).1
  have hown : UnchangedOutside memory final (OwnByte shape (before ++ [cache])) := by
    refine (hskipped.change.mono ?_).trans (htake.mono fun _ hbyte =>
      hcore.update_own hmem (.inl (hbyte.content hindex).1) hbyte.not_client)
    rintro query (hcounter | hbyte)
    · exact hcore.update_own hmem (.inl (counter_content hcounter)) (counter_not_client hcounter)
    · exact hcore.slab_own hbyte.slabByte
  have hfirst' : firstFreeCache final shape.slab = firstFreeCache skipped shape.slab := by
    apply readWord_congr
    intro query hlower hupper
    exact htake query fun hbyte => hcore.content_not_slab hmem (hbyte.content hindex).1
      (Shape.FirstFreeByte.slabByte ⟨hlower, by omega⟩)
  rw [hfirst']
  rcases hskipped.first_free with ⟨hzero, hfilled⟩ | ⟨hunmoved, hunfilled⟩
  · exact ⟨{ hcore' with first_free := .inl (hfirst'.trans hzero) }, hnext', hown, hroom,
      iff_of_true hzero hfilled⟩
  · have hnonzero : firstFreeCache skipped shape.slab ≠ 0 := by
      rw [hunmoved]
      exact (hcore.addr_pos hmem).ne'
    exact ⟨{ hcore' with
        first_free := .inr ⟨hfirst'.trans (hunmoved.trans hlast.symm), hnext'⟩ },
      hnext', hown, hroom, iff_of_false hnonzero hunfilled⟩

/-! ## Releasing a slot -/

/-- Releasing a live slot of a cache, and counting it. -/
theorem releaseSlot_holds (hholds : CacheHolds shape memory cache)
    (hstop : shape.stop cache.base < wordSize) {index : ℕ} (hlive : index ∈ cache.live) :
    CacheHolds shape (releaseSlot memory (shape.addr cache.base) (shape.slot cache.base index))
        (cache.release index) ∧
      UnchangedOutside memory
        (releaseSlot memory (shape.addr cache.base) (shape.slot cache.base index))
        (fun query => shape.Content cache.base query ∧ ¬ cache.ClientByte shape query) := by
  have hindex := hholds.index_lt (List.mem_append_left _ hlive)
  obtain ⟨hslots, hpush⟩ := release_slots hholds.toSlots hstop hlive
  have hcounter : allocatedObjects (freelistPush memory (shape.addr cache.base + 40)
      (shape.slot cache.base index)) (shape.addr cache.base) = cache.live.length := by
    rw [← hholds.allocated_eq]
    apply readWord_congr
    intro query hlower hupper
    exact hpush query fun hbyte => (hbyte.content hindex).2 ⟨hlower, by omega⟩
  have hpositive := List.length_pos_of_mem hlive
  have hlength := List.length_erase_of_mem hlive
  simp only [releaseSlot, hcounter]
  generalize freelistPush memory (shape.addr cache.base + 40)
    (shape.slot cache.base index) = pushed at *
  have hwrite : UnchangedOutside pushed (writeWord pushed (shape.addr cache.base + 48)
      (cache.live.length + wordSize - 1)) (shape.CounterByte cache.base) :=
    (writeWord_unchangedOutside _ _ _).mono fun _ hquery => ⟨hquery.1, by omega⟩
  refine ⟨{ hslots.frame fun query _ hnotCounter _ => hwrite query hnotCounter with
    allocated_eq := ?_ },
    (hpush.mono fun _ hbyte => ⟨(hbyte.content hindex).1, hbyte.not_client⟩).trans
      (hwrite.mono fun _ hquery => ⟨counter_content hquery, counter_not_client hquery⟩)⟩
  have hbound : cache.live.length - 1 < wordSize := by
    have := hholds.used_le
    have hcapacity := capacity_lt hstop
    simp only [Cache.used] at this
    exact lt_of_le_of_lt (by omega) hcapacity
  rw [Cache.release, hlength]
  refine (readWord_writeWord_mod _ _ _).trans ?_
  rw [show cache.live.length + wordSize - 1 = cache.live.length - 1 + wordSize by omega]
  exact (Nat.add_mod_right _ _).trans (Nat.mod_eq_of_lt hbound)

theorem releaseSlot_spec {before after : List Cache} {index : ℕ}
    (hcore : Core shape memory (before ++ cache :: after)) (hlive : index ∈ cache.live) :
    Core shape (releaseSlot memory (shape.addr cache.base) (shape.slot cache.base index))
        (before ++ cache.release index :: after) ∧
      UnchangedOutside memory
        (releaseSlot memory (shape.addr cache.base) (shape.slot cache.base index))
        (fun query => shape.Content cache.base query ∧ ¬ cache.ClientByte shape query) := by
  have hmem : cache ∈ before ++ cache :: after := by simp
  obtain ⟨hholds, hchange⟩ :=
    releaseSlot_holds (hcore.contents cache hmem) (hcore.stop_lt hmem) hlive
  exact ⟨hcore.update rfl (hchange.mono fun _ hcontent => .inl hcontent.1) hholds, hchange⟩

/-- A change of the contents of one cache leaves the ends of the list alone. -/
theorem ends_unchanged {caches : List Cache} (hcore : Core shape memory caches)
    (hmem : cache ∈ caches)
    (hchange : UnchangedOutside memory memory' (shape.Content cache.base)) :
    firstFreeCache memory' shape.slab = firstFreeCache memory shape.slab ∧
      lastCache memory' shape.slab = lastCache memory shape.slab := by
  have hword : ∀ offset, offset + 8 ≤ 48 →
      readWord memory' (shape.slab + offset) = readWord memory (shape.slab + offset) := by
    intro offset hoffset
    apply readWord_congr
    intro query hlower hupper
    exact hchange query fun hcontent => hcore.content_not_slab hmem hcontent
      ⟨by omega, by simp only [sizeofSlabAlloc]; omega⟩
  exact ⟨hword 16 (by omega), hword 24 (by omega)⟩

/-! ## Unlinking a cache -/

/-- What a change of the list has to establish, when it writes links and the
two end pointers only. -/
theorem relink {caches caches' : List Cache} (hcore : Core shape memory caches)
    (hslab : ∀ query, shape.SlabByte query →
      ¬ (shape.slab + 16 ≤ query ∧ query < shape.slab + 32) → memory' query = memory query)
    (hcontent : ∀ cache ∈ caches', ∀ query, shape.Content cache.base query →
      memory' query = memory query)
    (hsublist : caches'.Sublist caches) (hhead : (bases caches').head? = some shape.slab)
    (hlast : (addrs shape caches').getLast? = some (lastCache memory' shape.slab))
    (hlinked : Links (nextCache memory') (prevCache memory') (addrs shape caches'))
    (hprev : prevCache memory' (shape.addr shape.slab) = 0) : Core shape memory' caches' := by
  have hword : ∀ offset, offset + 8 ≤ 16 ∨ 32 ≤ offset ∧ offset + 8 ≤ 48 →
      readWord memory' (shape.slab + offset) = readWord memory (shape.slab + offset) := by
    intro offset hoffset
    apply readWord_congr
    intro query hlower hupper
    exact hslab query ⟨by omega, by simp only [sizeofSlabAlloc]; omega⟩ (by omega)
  exact
    { buddy_eq := (hword 0 (by omega)).trans hcore.buddy_eq
      objsize_eq := (hword 32 (by omega)).trans hcore.objsize_eq
      cachesize_eq := (hword 40 (by omega)).trans hcore.cachesize_eq
      head_eq := hhead
      first_eq := (hword 8 (by omega)).trans hcore.first_eq
      last_eq := hlast
      linked := hlinked
      head_prev := hprev
      contents := fun cache hcache => (hcore.contents cache (hsublist.subset hcache)).frame
        fun query hquery _ => hcontent cache hcache query hquery
      placed := fun base hbase => hcore.placed base ((hsublist.map _).subset hbase)
      apart := hcore.apart.sublist (hsublist.map _) }

/-- The bytes of `last_cache`. -/
def LastByte (shape : Shape) (query : ℕ) : Prop :=
  shape.slab + 24 ≤ query ∧ query < shape.slab + 32

theorem LastByte.slabByte {query : ℕ} (hquery : LastByte shape query) : shape.SlabByte query :=
  ⟨by have := hquery.1; omega, by have := hquery.2; simp only [sizeofSlabAlloc]; omega⟩

theorem head_of_append {before rest rest' : List Cache} {prev : Cache}
    (hhead : (bases (before ++ prev :: rest)).head? = some shape.slab) :
    (bases (before ++ prev :: rest')).head? = some shape.slab := by
  cases before with
  | nil => exact hhead
  | cons root before => exact hhead

theorem unlink_tail {before : List Cache} {prev : Cache}
    (hcore : Core shape memory (before ++ [prev, cache]))
    (hnext : nextCache memory (shape.addr cache.base) = 0) :
    Core shape (slabCacheUnlink memory shape.slab (shape.addr cache.base)) (before ++ [prev]) ∧
      UnchangedOutside memory (slabCacheUnlink memory shape.slab (shape.addr cache.base))
        (LastByte shape) := by
  have hprevMem : prev ∈ before ++ [prev, cache] := by simp
  have hlinks : Links (nextCache memory) (prevCache memory) ((bases before).map shape.addr ++
      [shape.addr prev.base, shape.addr cache.base]) := by
    simpa [addrs, bases] using hcore.linked
  obtain ⟨-, hprev⟩ := hlinks.adjacent
  have hprevPos := hcore.addr_pos hprevMem
  have hwrite : UnchangedOutside memory
      (writeWord memory (shape.slab + 24) (shape.addr prev.base)) (LastByte shape) :=
    (writeWord_unchangedOutside _ _ _).mono fun _ hquery => ⟨hquery.1, by omega⟩
  have hlink : ∀ other ∈ before ++ [prev, cache], nextCache
      (writeWord memory (shape.slab + 24) (shape.addr prev.base)) (shape.addr other.base) =
        nextCache memory (shape.addr other.base) ∧ prevCache
      (writeWord memory (shape.slab + 24) (shape.addr prev.base)) (shape.addr other.base) =
        prevCache memory (shape.addr other.base) := fun other hother =>
    Core.link_words fun query hquery => hwrite query fun hlast =>
      hcore.link_not_slab hother hquery hlast.slabByte
  have hunlink : slabCacheUnlink memory shape.slab (shape.addr cache.base) =
      writeWord memory (shape.slab + 24) (shape.addr prev.base) := by
    have hnext' := (hlink cache (by simp)).1.trans hnext
    simp only [slabCacheUnlink, hprev, if_neg hprevPos.ne', hnext, if_pos, hnext', ne_eq,
      not_true_eq_false, and_false, if_false]
  have hlast : lastCache (writeWord memory (shape.slab + 24) (shape.addr prev.base))
      shape.slab = shape.addr prev.base :=
    readWord_writeWord_same (addr_lt (hcore.stop_lt hprevMem))
  rw [hunlink]
  generalize writeWord memory (shape.slab + 24) (shape.addr prev.base) = unlinked at *
  have hsublist : (before ++ [prev]).Sublist (before ++ [prev, cache]) := by simp
  obtain ⟨root, hroot, hbase⟩ := hcore.root_mem
  refine ⟨relink hcore ?_ ?_ hsublist (head_of_append hcore.head_eq) ?_ ?_ ?_, hwrite⟩
  · intro query _ hends
    exact hwrite query fun hbyte => hends ⟨by have := hbyte.1; omega, hbyte.2⟩
  · intro other hother query hcontent
    exact hwrite query fun hbyte => hcore.content_not_slab (hsublist.subset hother) hcontent
      hbyte.slabByte
  · simp [addrs, bases, hlast]
  · have hmembers : ∀ addr ∈ (bases before).map shape.addr ++ [shape.addr prev.base],
        nextCache unlinked addr = nextCache memory addr ∧
          prevCache unlinked addr = prevCache memory addr := by
      intro addr haddr
      have haddrs : addr ∈ addrs shape (before ++ [prev]) := by simpa [addrs, bases] using haddr
      obtain ⟨other, hother, rfl⟩ := mem_addrs.mp haddrs
      exact hlink other (hsublist.subset hother)
    have hcongr := hlinks.left.congr
      (fun addr haddr => (hmembers addr (List.mem_of_mem_dropLast haddr)).1)
      (fun addr haddr => (hmembers addr (List.mem_of_mem_tail haddr)).2)
    simpa [addrs, bases] using hcongr
  · rw [← hbase, (hlink root hroot).2, hbase]
    exact hcore.head_prev

/-- Link two cache headers to each other. -/
def bypass (memory : Memory) (prev next : ℕ) : Memory :=
  writeWord (writeWord memory (prev + 32) next) (next + 24) prev

/-- Only two words change: the forward pointer of one cache and the backward
pointer of the other. -/
theorem bypass_words {caches : List Cache} {prev next : Cache}
    (hcore : Core shape memory caches) (hprev : prev ∈ caches) (hnext : next ∈ caches)
    (hne : shape.addr prev.base ≠ shape.addr next.base) :
    nextCache (bypass memory (shape.addr prev.base) (shape.addr next.base))
        (shape.addr prev.base) = shape.addr next.base ∧
      prevCache (bypass memory (shape.addr prev.base) (shape.addr next.base))
        (shape.addr next.base) = shape.addr prev.base ∧
      (∀ other ∈ caches, shape.addr other.base ≠ shape.addr prev.base →
        nextCache (bypass memory (shape.addr prev.base) (shape.addr next.base))
          (shape.addr other.base) = nextCache memory (shape.addr other.base)) ∧
      (∀ other ∈ caches, shape.addr other.base ≠ shape.addr next.base →
        prevCache (bypass memory (shape.addr prev.base) (shape.addr next.base))
          (shape.addr other.base) = prevCache memory (shape.addr other.base)) := by
  have happart := hcore.headers_apart hprev hnext hne
  refine ⟨?_, ?_, ?_, ?_⟩
  · exact (readWord_writeWord_of_disjoint (by omega)).trans
      (readWord_writeWord_same (addr_lt (hcore.stop_lt hnext)))
  · exact readWord_writeWord_same (addr_lt (hcore.stop_lt hprev))
  · intro other hother hother'
    have hapart := hcore.headers_apart hother hprev hother'
    refine (readWord_writeWord_of_disjoint ?_).trans (readWord_writeWord_of_disjoint (by omega))
    by_cases hsame : shape.addr other.base = shape.addr next.base
    · omega
    · have := hcore.headers_apart hother hnext hsame
      omega
  · intro other hother hother'
    have hapart := hcore.headers_apart hother hnext hother'
    refine (readWord_writeWord_of_disjoint (by omega)).trans (readWord_writeWord_of_disjoint ?_)
    by_cases hsame : shape.addr other.base = shape.addr prev.base
    · omega
    · have := hcore.headers_apart hother hprev hsame
      omega

theorem bypass_unchangedOutside (memory : Memory) (shape : Shape) (prev next : ℕ) :
    UnchangedOutside memory (bypass memory (shape.addr prev) (shape.addr next))
      fun query => shape.LinkByte prev query ∨ shape.LinkByte next query :=
  ((writeWord_unchangedOutside _ _ _).mono fun _ hquery =>
    .inl ⟨by have := hquery.1; omega, by have := hquery.2; omega⟩).trans
  ((writeWord_unchangedOutside _ _ _).mono fun _ hquery =>
    .inr ⟨hquery.1, by have := hquery.2; omega⟩)

/-- The neighbours of a cache in the middle of the list. -/
theorem middle_links {before after : List Cache} {prev next : Cache}
    (hcore : Core shape memory (before ++ prev :: cache :: next :: after)) :
    prevCache memory (shape.addr cache.base) = shape.addr prev.base ∧
      nextCache memory (shape.addr cache.base) = shape.addr next.base ∧
      shape.addr prev.base ≠ shape.addr next.base ∧
      shape.addr cache.base ≠ shape.addr prev.base := by
  have hlinks := hcore.linked
  have hnodup := hcore.addrs_nodup
  simp only [addrs, bases, List.map_append, List.map_cons] at hlinks hnodup
  have hlinks' := List.append_cons _ _ _ ▸ hlinks
  simp only [List.nodup_append, List.nodup_cons, List.mem_cons, not_or] at hnodup
  exact ⟨hlinks.adjacent.2, (Links.adjacent hlinks').1, hnodup.2.1.1.2.1,
    Ne.symm hnodup.2.1.1.1⟩

theorem unlink_middle_eq {before after : List Cache} {prev next : Cache}
    (hcore : Core shape memory (before ++ prev :: cache :: next :: after)) :
    slabCacheUnlink memory shape.slab (shape.addr cache.base) =
      bypass memory (shape.addr prev.base) (shape.addr next.base) := by
  obtain ⟨hprev, hnext, -, hne⟩ := middle_links hcore
  have happart := hcore.headers_apart (by simp) (by simp) hne
  have hprevPos : shape.addr prev.base ≠ 0 := (hcore.addr_pos (by simp)).ne'
  have hnextPos : shape.addr next.base ≠ 0 := (hcore.addr_pos (by simp)).ne'
  have hprev' : prevCache (writeWord memory (shape.addr prev.base + 32) (shape.addr next.base))
      (shape.addr cache.base) = shape.addr prev.base :=
    (readWord_writeWord_of_disjoint (by omega)).trans hprev
  have hnext' : nextCache (writeWord memory (shape.addr prev.base + 32) (shape.addr next.base))
      (shape.addr cache.base) = shape.addr next.base :=
    (readWord_writeWord_of_disjoint (by omega)).trans hnext
  simp only [slabCacheUnlink, hprev, hnext, ne_eq, hprevPos, hnextPos, not_false_eq_true,
    and_self, if_true, if_false, hprev', hnext', bypass]

/-- The first cache is not the successor of another. -/
theorem root_ne_later {before after : List Cache} {prev next : Cache}
    (hcore : Core shape memory (before ++ prev :: cache :: next :: after)) :
    ∃ root ∈ before ++ prev :: cache :: next :: after, root.base = shape.slab ∧
      shape.addr root.base ≠ shape.addr next.base := by
  have hnodup := hcore.addrs_nodup
  simp only [addrs, bases, List.map_append, List.map_cons] at hnodup
  have hhead := hcore.head_eq
  cases before with
  | nil =>
      obtain ⟨-, -, hne, -⟩ := middle_links hcore
      exact ⟨prev, by simp, Option.some.inj hhead, hne⟩
  | cons root before =>
      refine ⟨root, by simp, Option.some.inj hhead, ?_⟩
      have hroot := (List.nodup_cons.mp hnodup).1
      rintro hsame
      exact hroot (by simp [hsame])

/-- Unlinking a cache in the middle links its neighbours to each other. -/
theorem unlink_middle {before after : List Cache} {prev next : Cache}
    (hcore : Core shape memory (before ++ prev :: cache :: next :: after)) :
    Core shape (slabCacheUnlink memory shape.slab (shape.addr cache.base))
        (before ++ prev :: next :: after) ∧
      (∀ other ∈ next :: after, nextCache (slabCacheUnlink memory shape.slab
        (shape.addr cache.base)) (shape.addr other.base) =
          nextCache memory (shape.addr other.base)) ∧
      UnchangedOutside memory (slabCacheUnlink memory shape.slab (shape.addr cache.base))
        fun query => shape.LinkByte prev.base query ∨ shape.LinkByte next.base query := by
  have hprevMem : prev ∈ before ++ prev :: cache :: next :: after := by simp
  have hnextMem : next ∈ before ++ prev :: cache :: next :: after := by simp
  have hsublist : (before ++ prev :: next :: after).Sublist
      (before ++ prev :: cache :: next :: after) := by simp
  obtain ⟨-, -, hne, -⟩ := middle_links hcore
  obtain ⟨root, hroot, hbase, hrootNe⟩ := root_ne_later hcore
  obtain ⟨hprevNext, hnextPrev, hforward, hbackward⟩ :=
    bypass_words hcore hprevMem hnextMem hne
  have hwrite := bypass_unchangedOutside memory shape prev.base next.base
  rw [unlink_middle_eq hcore]
  generalize bypass memory (shape.addr prev.base) (shape.addr next.base) = unlinked at *
  have hslab : ∀ query, shape.SlabByte query → unlinked query = memory query := by
    intro query hquery
    apply hwrite
    rintro (hlink | hlink)
    · exact hcore.link_not_slab hprevMem hlink hquery
    · exact hcore.link_not_slab hnextMem hlink hquery
  refine ⟨relink hcore (fun query hquery _ => hslab query hquery) ?_ hsublist
    (head_of_append hcore.head_eq) ?_ ?_ ?_, ?_, hwrite⟩
  · intro other hother query hcontent
    apply hwrite
    rintro (hlink | hlink)
    · exact hcore.content_not_link (hsublist.subset hother) hprevMem hcontent hlink
    · exact hcore.content_not_link (hsublist.subset hother) hnextMem hcontent hlink
  · have hlast : lastCache unlinked shape.slab = lastCache memory shape.slab :=
      readWord_congr fun query hlower hupper => hslab query
        (LastByte.slabByte ⟨hlower, by omega⟩)
    rw [hlast, ← hcore.last_eq]
    simp [addrs, bases, List.getLast?_append, List.getLast?_cons]
  · have hlinks := hcore.linked
    have hnodup := hcore.addrs_nodup
    have hmember : ∀ addr ∈ addrs shape (before ++ prev :: next :: after),
        ∃ other ∈ before ++ prev :: cache :: next :: after, shape.addr other.base = addr := by
      intro addr haddr
      obtain ⟨other, hother, rfl⟩ := mem_addrs.mp haddr
      exact ⟨other, hsublist.subset hother, rfl⟩
    simp only [addrs, bases, List.map_append, List.map_cons] at hlinks hnodup hmember ⊢
    apply hlinks.bypass hnodup hprevNext hnextPrev
    · intro addr haddr hother
      obtain ⟨other, hmem, rfl⟩ := hmember addr haddr
      exact hforward other hmem hother
    · intro addr haddr hother
      obtain ⟨other, hmem, rfl⟩ := hmember addr haddr
      exact hbackward other hmem hother
  · rw [← hbase, hbackward root hroot hrootNe, hbase]
    exact hcore.head_prev
  · intro other hother
    have hnodup := hcore.addrs_nodup
    simp only [addrs, bases, List.map_append, List.map_cons] at hnodup
    have hlater := (List.nodup_cons.mp (List.nodup_append.mp hnodup).2.1).1
    refine hforward other (by simp [List.mem_cons.mp hother]) fun hsame => hlater ?_
    rw [← hsame, List.map_map]
    exact List.mem_cons_of_mem _
      (List.mem_map_of_mem (f := fun other => shape.addr other.base) hother)

end DoomsdayModules.SlabMoves
