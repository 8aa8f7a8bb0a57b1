import DoomsdayModules.Fat16.Walk

/-!
# The order of a walk

A directory is the sequence of the 32-byte entries in its bytes, and a walk is
meant to call back with each of them in order, from the place it is stored at,
until an end marker, a result other than zero or the capacity of the directory.
In both layouts it does so for all entries of the sectors it reads.  The last
sector of the root directory may hold more of them than the root has.
-/

namespace DoomsdayModules.Fat16.WalkOrder

open DoomsdayModules.EarlyExit DoomsdayModules.Fat16.Image DoomsdayModules.Fat16.Directory
open DoomsdayModules.Fat16.Walk

/-! ## Entries of a buffer -/

/-- An entry is what its 32 bytes hold. -/
theorem direntryAt_congr {buf buf' : List UInt8} {i i' : ℕ}
    (hbytes : ∀ x < 32, buf.getD (32 * i + x) 0 = buf'.getD (32 * i' + x) 0) :
    direntryAt buf i = direntryAt buf' i' := by
  have hname : (List.range 11).map (fun k => buf.getD (32 * i + k) 0) =
      (List.range 11).map fun k => buf'.getD (32 * i' + k) 0 :=
    List.map_congr_left fun k hk => hbytes k (by have := List.mem_range.mp hk; omega)
  have hlow (x : ℕ) (hx : x + 1 < 32) : le16 buf (32 * i + x) = le16 buf' (32 * i' + x) := by
    simp only [le16, Nat.add_assoc, hbytes x (by omega), hbytes (x + 1) hx]
  simp only [direntryAt, le32, Nat.add_assoc, Direntry.mk.injEq]
  exact ⟨hname, hbytes 11 (by norm_num), hlow 26 (by norm_num), by
    rw [hlow 28 (by norm_num), hlow (28 + 2) (by norm_num)]⟩

theorem direntryAt_append_left {buf : List UInt8} {i : ℕ} (rest : List UInt8)
    (hinside : 32 * (i + 1) ≤ buf.length) : direntryAt (buf ++ rest) i = direntryAt buf i := by
  refine direntryAt_congr fun x hx => ?_
  rw [List.getD_eq_getElem?_getD, List.getD_eq_getElem?_getD, List.getElem?_append_left (by omega)]

theorem direntryAt_append_right {buf : List UInt8} {count : ℕ} (rest : List UInt8) (i : ℕ)
    (hlength : buf.length = 32 * count) :
    direntryAt (buf ++ rest) (count + i) = direntryAt rest i := by
  refine direntryAt_congr fun x _ => ?_
  have hindex : 32 * (count + i) + x = buf.length + (32 * i + x) := by
    rw [hlength]
    ring
  rw [List.getD_eq_getElem?_getD, List.getD_eq_getElem?_getD, hindex,
    List.getElem?_append_right (Nat.le_add_right _ _), Nat.add_sub_cancel_left]

/-- Buffers of `count` entries each, one behind the other. -/
theorem map_direntryAt_flatten {count : ℕ} {bufs : List (List UInt8)}
    (hlength : ∀ buf ∈ bufs, buf.length = 32 * count) :
    bufs.flatMap (fun buf => (List.range count).map (direntryAt buf)) =
      (List.range (bufs.length * count)).map (direntryAt bufs.flatten) := by
  induction bufs with
  | nil => simp
  | cons buf bufs ih =>
      have hbuf := hlength buf List.mem_cons_self
      have hfirst : (List.range count).map (direntryAt (buf ++ bufs.flatten)) =
          (List.range count).map (direntryAt buf) :=
        List.map_congr_left fun i hi => direntryAt_append_left _ (by
          have := List.mem_range.mp hi
          omega)
      have hrest : ((List.range (bufs.length * count)).map (count + ·)).map
          (direntryAt (buf ++ bufs.flatten)) =
            (List.range (bufs.length * count)).map (direntryAt bufs.flatten) := by
        rw [List.map_map]
        exact List.map_congr_left fun i _ => direntryAt_append_right _ i hbuf
      have hcount : (buf :: bufs).length * count = count + bufs.length * count := by
        rw [List.length_cons]
        ring
      rw [List.flatMap_cons, ih fun other hmem => hlength other (List.mem_cons_of_mem _ hmem),
        hcount, List.range_add, List.map_append, List.flatten_cons, hfirst, hrest]

/-- Entry `i` of buffer `j`. -/
theorem direntryAt_flatten {count : ℕ} {bufs : List (List UInt8)} {i j : ℕ} {buf : List UInt8}
    (hlength : ∀ buf ∈ bufs, buf.length = 32 * count) (hi : i < count)
    (hbuf : bufs[j]? = some buf) :
    direntryAt bufs.flatten (j * count + i) = direntryAt buf i := by
  induction bufs generalizing j with
  | nil => simp at hbuf
  | cons first bufs ih =>
      have hfirst := hlength first List.mem_cons_self
      rw [List.flatten_cons]
      cases j with
      | zero =>
          rw [List.getElem?_cons_zero, Option.some.injEq] at hbuf
          rw [← hbuf, Nat.zero_mul, Nat.zero_add]
          exact direntryAt_append_left _ (by omega)
      | succ j =>
          have hindex : (j + 1) * count + i = count + (j * count + i) := by ring
          rw [hindex, direntryAt_append_right _ _ hfirst]
          exact ih (fun other hmem => hlength other (List.mem_cons_of_mem _ hmem)) hbuf

/-! ## Sectors of a cluster -/

theorem readSectors_flatten {volume : Volume} {sector : ℕ} {numbers : List ℕ}
    {buf data : List UInt8} (hread : numbers.foldlM (readSectors volume sector) buf = .ok data) :
    ∃ sectors, List.Forall₂ (fun i bytes => volume.bread (u32 (sector + i)) = some bytes)
      numbers sectors ∧ data = buf ++ sectors.flatten := by
  induction numbers generalizing buf with
  | nil =>
      cases hread
      exact ⟨[], .nil, by simp⟩
  | cons i numbers ih =>
      obtain ⟨middle, hfirst, hrest⟩ := foldlM_cons_ok hread
      obtain ⟨bytes, hbytes, rfl⟩ := readSectors_ok hfirst
      obtain ⟨sectors, hsectors, rfl⟩ := ih hrest
      exact ⟨bytes :: sectors, .cons hbytes hsectors, by simp⟩

/-- A cluster is its sectors one behind the other. -/
theorem readCluster_flatten {volume : Volume} {cluster : ℕ} {data : List UInt8}
    (hread : readCluster volume cluster = .ok data) :
    ∃ sectors, List.Forall₂ (fun i bytes => volume.bread (u32
        (clusterSector volume.sbi.dataStart cluster volume.sbi.sectorsPerCluster + i)) =
          some bytes)
      (List.range volume.sbi.sectorsPerCluster) sectors ∧ data = sectors.flatten := by
  simp only [readCluster] at hread
  split at hread
  · cases hread
  · exact readSectors_flatten hread

/-! ## Entries of a directory -/

variable {volume : Volume} {startCluster : ℕ}

namespace Storage

/-- What the sectors or clusters of a directory hold. -/
def bytes : Storage volume startCluster → List UInt8
  | .root sectors _ => sectors.flatten
  | .clusters _ links _ => chainData links

/-- How many entries the directory has. -/
def capacity : Storage volume startCluster → ℕ
  | .root _ _ => volume.sbi.rootDirEntries
  | .clusters _ links _ => links.length * entriesPerCluster volume.sbi.bytesPerCluster

end Storage

/-- The slot was read from its place on the disk. -/
def StoredAt (volume : Volume) (slot : Slot) : Prop :=
  slot.idx < entriesPerSector volume.sbi.bytesPerSector ∧
    ∃ data, volume.bread slot.sector = some data ∧ slot.de = direntryAt data slot.idx

theorem storedAt_of_mem_sectorSlots {s : ℕ} {data : List UInt8}
    (hread : volume.bread (volume.sbi.rootDirStart + s) = some data) :
    ∀ slot ∈ sectorSlots volume s data, StoredAt volume slot := by
  intro slot hslot
  obtain ⟨i, hi, rfl⟩ := List.mem_map.mp hslot
  exact ⟨List.mem_range.mp hi, data, hread, rfl⟩

theorem entriesPerSector_eq (hsize : volume.sbi.bytesPerSector = 512) :
    entriesPerSector volume.sbi.bytesPerSector = 16 := by
  rw [hsize, entriesPerSector]

theorem entriesPerCluster_eq (hsize : volume.sbi.bytesPerSector = 512) :
    entriesPerCluster volume.sbi.bytesPerCluster = volume.sbi.sectorsPerCluster * 16 := by
  rw [volume.sbi.bytesPerCluster_eq, hsize, entriesPerCluster]
  omega

theorem length_of_bread (hsize : volume.sbi.bytesPerSector = 512) {block : ℕ}
    {data : List UInt8} (hread : volume.bread block = some data) : data.length = 32 * 16 := by
  rw [sbBread_length hread, hsize]

/-- The index in a cluster is taken apart into a sector of it and an index there. -/
theorem storedAt_of_mem_linkSlots (hsize : volume.sbi.bytesPerSector = 512) {link : Link}
    (hread : readCluster volume link.cluster = .ok link.data) :
    ∀ slot ∈ linkSlots volume link, StoredAt volume slot := by
  obtain ⟨sectors, hsectors, hdata⟩ := readCluster_flatten hread
  have heps := entriesPerSector_eq hsize
  have hlengths : ∀ bytes ∈ sectors, bytes.length = 32 * 16 :=
    forall_of_forall₂ (fun _ _ hbytes => length_of_bread hsize hbytes) hsectors
  intro slot hslot
  obtain ⟨i, hi, rfl⟩ := List.mem_map.mp hslot
  have hi := List.mem_range.mp hi
  rw [entriesPerCluster_eq hsize] at hi
  obtain ⟨hcount, hget⟩ := List.forall₂_iff_get.mp hsectors
  rw [List.length_range] at hcount
  have hj : i / 16 < sectors.length := by omega
  have hbread := hget (i / 16) (by simpa [hcount] using hj) hj
  rw [List.get_eq_getElem, List.getElem_range] at hbread
  have hentry := @direntryAt_flatten 16 sectors (i % 16) (i / 16) sectors[i / 16] hlengths
    (Nat.mod_lt i (by norm_num)) (List.getElem?_eq_getElem hj)
  rw [Nat.div_add_mod'] at hentry
  refine ⟨?_, sectors[i / 16], ?_, ?_⟩
  · rw [heps]
    exact Nat.mod_lt i (by norm_num)
  · simp only [heps, entrySector]
    exact hbread
  · simp only [heps, entryIdx, hdata]
    exact hentry

/-- Every slot of a directory was read from its place. -/
theorem storedAt_of_mem_slots (hsize : volume.sbi.bytesPerSector = 512)
    (storage : Storage volume startCluster) : ∀ slot ∈ storage.slots, StoredAt volume slot := by
  intro slot hslot
  cases storage with
  | root sectors hread =>
      obtain ⟨⟨s, data⟩, hsector, hmem⟩ := List.mem_flatMap.mp hslot
      exact storedAt_of_mem_sectorSlots (List.forall₂_zip hread hsector) slot hmem
  | clusters hstart links hchain =>
      obtain ⟨link, hlink, hmem⟩ := List.mem_flatMap.mp hslot
      exact storedAt_of_mem_linkSlots hsize ((Chain.opened hchain).readable link hlink) slot hmem

theorem map_de_rootSlots (hsize : volume.sbi.bytesPerSector = 512) {numbers : List ℕ}
    {sectors : List (List UInt8)}
    (hread : List.Forall₂ (fun s data => volume.bread (volume.sbi.rootDirStart + s) = some data)
      numbers sectors) :
    ((numbers.zip sectors).flatMap fun sector => sectorSlots volume sector.1 sector.2).map
        Slot.de = (List.range (sectors.length * 16)).map (direntryAt sectors.flatten) := by
  have hlengths : ∀ bytes ∈ sectors, bytes.length = 32 * 16 :=
    forall_of_forall₂ (fun _ _ hbytes => length_of_bread hsize hbytes) hread
  have hsectors : (numbers.zip sectors).map Prod.snd = sectors :=
    List.map_snd_zip hread.length_eq.ge
  rw [← map_direntryAt_flatten hlengths, List.map_flatMap]
  conv_rhs => rw [← hsectors, List.flatMap_map]
  simp only [sectorSlots, List.map_map, entriesPerSector_eq hsize]
  rfl

theorem map_de_linkSlots (links : List Link) :
    (links.flatMap (linkSlots volume)).map Slot.de =
      (links.map Link.data).flatMap fun data =>
        (List.range (entriesPerCluster volume.sbi.bytesPerCluster)).map (direntryAt data) := by
  rw [List.map_flatMap, List.flatMap_map]
  simp only [linkSlots, List.map_map]
  rfl

/-- The slots are the entries of the directory's bytes, in order. -/
theorem map_de_slots (hsize : volume.sbi.bytesPerSector = 512)
    (storage : Storage volume startCluster) :
    storage.slots.map Slot.de =
      (List.range storage.slots.length).map (direntryAt (Storage.bytes storage)) := by
  have hcount : storage.slots.length = (storage.slots.map Slot.de).length :=
    (List.length_map _).symm
  cases storage with
  | root sectors hread =>
      have hslots := map_de_rootSlots hsize hread
      rw [hcount, Storage.slots, hslots, List.length_map, List.length_range, Storage.bytes]
  | clusters hstart links hchain =>
      have hlengths : ∀ data ∈ links.map Link.data,
          data.length = 32 * (volume.sbi.sectorsPerCluster * 16) := by
        intro data hdata
        obtain ⟨link, hlink, rfl⟩ := List.mem_map.mp hdata
        rw [hchain.length_data link hlink, volume.sbi.bytesPerCluster_eq, hsize]
        ring
      have hslots := @map_de_linkSlots volume links
      rw [entriesPerCluster_eq hsize, map_direntryAt_flatten hlengths] at hslots
      rw [hcount, Storage.slots, hslots]
      simp only [List.length_map, List.length_range, Storage.bytes, chainData, List.flatMap_def]

/-! ## What a walk is to do -/

variable {σ : Type*}

/-- Call back with one entry after the other, up to an end marker or a result
other than zero: what is returned, the data and the calls. -/
def walkSpec (cb : DirentCb σ) : List Slot → ℕ → σ → Int × σ × List (Slot × ℕ)
  | [], _, cbdata => (0, cbdata, [])
  | slot :: rest, absIdx, cbdata =>
      if slot.de.isEnd then (0, cbdata, [])
      else
        let reply := cb slot.de slot.sector slot.idx absIdx cbdata
        if reply.1 ≠ 0 then (reply.1, reply.2, [(slot, absIdx)])
        else
          let after := walkSpec cb rest (absIdx + 1) reply.2
          (after.1, after.2.1, (slot, absIdx) :: after.2.2)

/-- An end marker or a result other than zero comes among the entries. -/
def StopsIn (cb : DirentCb σ) : List Slot → ℕ → σ → Prop
  | [], _, _ => False
  | slot :: rest, absIdx, cbdata =>
      slot.de.isEnd = true ∨ (cb slot.de slot.sector slot.idx absIdx cbdata).1 ≠ 0 ∨
        StopsIn cb rest (absIdx + 1) (cb slot.de slot.sector slot.idx absIdx cbdata).2

section Rounds

variable {cb : DirentCb σ} {slot : Slot} {absIdx : ℕ} {cbdata : σ}

theorem walkSpec_of_end (rest : List Slot) (hend : slot.de.isEnd = true) :
    walkSpec cb (slot :: rest) absIdx cbdata = (0, cbdata, []) := by
  rw [walkSpec, if_pos hend]

theorem walkSpec_of_ret (rest : List Slot) (hend : ¬ slot.de.isEnd = true)
    (hret : (cb slot.de slot.sector slot.idx absIdx cbdata).1 ≠ 0) :
    walkSpec cb (slot :: rest) absIdx cbdata =
      ((cb slot.de slot.sector slot.idx absIdx cbdata).1,
        (cb slot.de slot.sector slot.idx absIdx cbdata).2, [(slot, absIdx)]) := by
  simp only [walkSpec, if_neg hend, if_pos hret]

theorem walkSpec_of_zero (rest : List Slot) (hend : ¬ slot.de.isEnd = true)
    (hret : (cb slot.de slot.sector slot.idx absIdx cbdata).1 = 0) :
    walkSpec cb (slot :: rest) absIdx cbdata =
      ((walkSpec cb rest (absIdx + 1) (cb slot.de slot.sector slot.idx absIdx cbdata).2).1,
        (walkSpec cb rest (absIdx + 1) (cb slot.de slot.sector slot.idx absIdx cbdata).2).2.1,
        (slot, absIdx) ::
          (walkSpec cb rest (absIdx + 1)
            (cb slot.de slot.sector slot.idx absIdx cbdata).2).2.2) := by
  simp only [walkSpec, if_neg hend, hret, ne_eq, not_true_eq_false, if_false]

end Rounds

/-- An entry that is no end marker is called back with. -/
theorem walkSpec_calls {cb : DirentCb σ} {slot : Slot} (hend : ¬ slot.de.isEnd = true)
    (rest : List Slot) (absIdx : ℕ) (cbdata : σ) :
    ∃ calls, (walkSpec cb (slot :: rest) absIdx cbdata).2.2 = (slot, absIdx) :: calls := by
  by_cases hret : (cb slot.de slot.sector slot.idx absIdx cbdata).1 = 0
  · exact ⟨_, by rw [walkSpec_of_zero rest hend hret]⟩
  · exact ⟨[], by rw [walkSpec_of_ret rest hend hret]⟩

/-- Without a call nothing but zero is returned. -/
theorem walkSpec_ret {cb : DirentCb σ} {slots : List Slot} {absIdx : ℕ} {cbdata : σ}
    (hcalls : (walkSpec cb slots absIdx cbdata).2.2 = []) :
    (walkSpec cb slots absIdx cbdata).1 = 0 := by
  cases slots with
  | nil => rfl
  | cons slot rest =>
      by_cases hend : slot.de.isEnd = true
      · rw [walkSpec_of_end rest hend]
      · obtain ⟨calls, hfirst⟩ := @walkSpec_calls σ cb slot hend rest absIdx cbdata
        rw [hcalls] at hfirst
        cases hfirst

/-- The loop over slots does what the walk is to do with them. -/
theorem foldlM_walkSpec {cb : DirentCb σ} {slots : List Slot} {absIdx : ℕ} {cbdata : σ}
    {log : List (Slot × ℕ)} (hbound : absIdx + slots.length < 2 ^ 32) :
    walkReply (slots.foldlM (visitSlot (logged cb)) ((cbdata, log), absIdx)) =
      ((walkSpec cb slots absIdx cbdata).1, (walkSpec cb slots absIdx cbdata).2.1,
        log ++ (walkSpec cb slots absIdx cbdata).2.2) := by
  induction slots generalizing absIdx cbdata log with
  | nil => simp [walkSpec, walkReply, pure, Except.pure]
  | cons slot rest ih =>
      rw [List.length_cons] at hbound
      by_cases hend : slot.de.isEnd = true
      · have hvisit : visitSlot (logged cb) ((cbdata, log), absIdx) slot =
            .error (0, cbdata, log) := by
          rw [visitSlot, visit, if_pos hend]
        rw [foldlM_cons_of_error rest hvisit, walkSpec_of_end rest hend, List.append_nil]
        rfl
      by_cases hret : (cb slot.de slot.sector slot.idx absIdx cbdata).1 = 0
      · have hvisit : visitSlot (logged cb) ((cbdata, log), absIdx) slot =
            .ok (((cb slot.de slot.sector slot.idx absIdx cbdata).2, log ++ [(slot, absIdx)]),
              absIdx + 1) := by
          simp [visitSlot, visit, hend, hret, logged, u32_of_lt (by omega : absIdx + 1 < 2 ^ 32)]
        rw [foldlM_cons_of_ok rest hvisit, ih (by omega), walkSpec_of_zero rest hend hret,
          List.append_assoc, List.singleton_append]
      · have hvisit : visitSlot (logged cb) ((cbdata, log), absIdx) slot =
            .error ((cb slot.de slot.sector slot.idx absIdx cbdata).1,
              (cb slot.de slot.sector slot.idx absIdx cbdata).2, log ++ [(slot, absIdx)]) := by
          simp [visitSlot, visit, hend, hret, logged]
        rw [foldlM_cons_of_error rest hvisit, walkSpec_of_ret rest hend hret]
        rfl

/-- More entries make no difference exactly if the walk stops before them or
finds none there. -/
theorem walkSpec_append_iff (cb : DirentCb σ) (front back : List Slot) (absIdx : ℕ) (cbdata : σ) :
    walkSpec cb (front ++ back) absIdx cbdata = walkSpec cb front absIdx cbdata ↔
      StopsIn cb front absIdx cbdata ∨ ∀ slot, back.head? = some slot → slot.de.isEnd = true := by
  induction front generalizing absIdx cbdata with
  | nil =>
      rw [List.nil_append]
      cases back with
      | nil => simp [walkSpec]
      | cons slot rest =>
          by_cases hend : slot.de.isEnd = true
          · simp [walkSpec, hend]
          · refine iff_of_false (fun hsame => ?_) (by simp [StopsIn, hend])
            obtain ⟨calls, hfirst⟩ := @walkSpec_calls σ cb slot hend rest absIdx cbdata
            rw [hsame, walkSpec] at hfirst
            cases hfirst
  | cons slot front ih =>
      rw [List.cons_append, StopsIn]
      by_cases hend : slot.de.isEnd = true
      · rw [walkSpec_of_end _ hend, walkSpec_of_end _ hend]
        exact iff_of_true rfl (.inl (.inl hend))
      by_cases hret : (cb slot.de slot.sector slot.idx absIdx cbdata).1 = 0
      · have hrest := ih (absIdx + 1) (cb slot.de slot.sector slot.idx absIdx cbdata).2
        rw [walkSpec_of_zero _ hend hret, walkSpec_of_zero _ hend hret]
        constructor
        · intro hsame
          simp only [Prod.mk.injEq, List.cons.injEq, true_and] at hsame
          have hafter := Prod.ext hsame.1 (Prod.ext hsame.2.1 hsame.2.2)
          exact (hrest.mp hafter).imp_left fun hstops => .inr (.inr hstops)
        · rintro ((hmarker | hother | hstops) | hnone)
          · exact absurd hmarker hend
          · exact absurd hret hother
          · rw [hrest.mpr (.inl hstops)]
          · rw [hrest.mpr (.inr hnone)]
      · rw [walkSpec_of_ret _ hend hret, walkSpec_of_ret _ hend hret]
        exact iff_of_true rfl (.inl (.inr (.inl hret)))

/-! ## The capacity of a directory -/

/-- What a walk does, with all entries of the sectors it reads. -/
theorem dirWalk_walkSpec (storage : Storage volume startCluster) {fuel : ℕ}
    (hfuel : storage.rounds < fuel) (cb : DirentCb σ) (cbdata : σ) :
    dirWalk fuel volume startCluster true (logged cb) (cbdata, []) =
      some (walkSpec cb storage.slots 0 cbdata) := by
  have hbound := storage.length_slots_lt
  rw [dirWalk_eq storage hfuel, foldlM_walkSpec (by omega), List.nil_append]

/-- The root sectors hold the entries of the root, rounded up to a whole sector. -/
theorem length_slots_root (hsize : volume.sbi.bytesPerSector = 512)
    (storage : Storage volume 0) :
    storage.slots.length = (volume.sbi.rootDirEntries + 15) / 16 * 16 := by
  cases storage with
  | root sectors hread =>
      have hslots := congrArg List.length (map_de_rootSlots hsize hread)
      have hcount := hread.length_eq
      rw [List.length_range, hsize, rootSectors] at hcount
      rw [List.length_map, List.length_map, List.length_range] at hslots
      rw [Storage.slots, hslots]
      omega
  | clusters hstart _ _ => exact absurd rfl hstart

theorem take_capacity_of_ne_zero (hstart : startCluster ≠ 0)
    (storage : Storage volume startCluster) :
    storage.slots.take (Storage.capacity storage) = storage.slots := by
  cases storage with
  | root _ _ => exact absurd rfl hstart
  | clusters _ links hchain =>
      refine List.take_of_length_le ?_
      simp [Storage.slots, Storage.capacity, List.length_flatMap, linkSlots]

theorem capacity_root (storage : Storage volume 0) :
    Storage.capacity storage = volume.sbi.rootDirEntries := by
  cases storage with
  | root _ _ => rfl
  | clusters hstart _ _ => exact absurd rfl hstart

/-- Behind the capacity of the root there is no entry in its last sector. -/
theorem walkSpec_root_iff (hsize : volume.sbi.bytesPerSector = 512) (storage : Storage volume 0)
    (cb : DirentCb σ) (cbdata : σ) :
    walkSpec cb storage.slots 0 cbdata =
        walkSpec cb (storage.slots.take volume.sbi.rootDirEntries) 0 cbdata ↔
      16 ∣ volume.sbi.rootDirEntries ∨
        StopsIn cb (storage.slots.take volume.sbi.rootDirEntries) 0 cbdata ∨
        ∃ marker, storage.slots[volume.sbi.rootDirEntries]? = some marker ∧
          marker.de.isEnd = true := by
  have hlength := length_slots_root hsize storage
  have happend := walkSpec_append_iff cb (storage.slots.take volume.sbi.rootDirEntries)
    (storage.slots.drop volume.sbi.rootDirEntries) 0 cbdata
  rw [List.take_append_drop, List.head?_drop] at happend
  rw [happend]
  by_cases hwhole : 16 ∣ volume.sbi.rootDirEntries
  · have hnone : storage.slots[volume.sbi.rootDirEntries]? = none :=
      List.getElem?_eq_none (by omega)
    refine iff_of_true (.inr fun slot hslot => ?_) (.inl hwhole)
    rw [hnone] at hslot
    cases hslot
  · have hsome := List.getElem?_eq_getElem
      (by omega : volume.sbi.rootDirEntries < storage.slots.length)
    rw [or_iff_right hwhole, hsome]
    simp only [Option.some.injEq, forall_eq', exists_eq_left']

/-- The slots of a directory are the entries of its bytes in order, each read
from its place.  With memory for a cluster buffer a walk calls back with them as
it is to do, except that the capacity of the root bounds it only where the root
fills its last sector, or an end marker or a result of the callback comes first. -/
theorem walk_iff (hsize : volume.sbi.bytesPerSector = 512) (storage : Storage volume startCluster)
    {fuel : ℕ} (hfuel : storage.rounds < fuel) (allocated : Bool) (cb : DirentCb σ)
    (cbdata : σ) :
    (∀ slot ∈ storage.slots, StoredAt volume slot) ∧
    storage.slots.map Slot.de =
      (List.range storage.slots.length).map (direntryAt (Storage.bytes storage)) ∧
    (dirWalk fuel volume startCluster allocated (logged cb) (cbdata, []) =
        some (walkSpec cb (storage.slots.take (Storage.capacity storage)) 0 cbdata) ↔
      (startCluster ≠ 0 ∧ allocated = true) ∨
      (startCluster = 0 ∧ (16 ∣ volume.sbi.rootDirEntries ∨
        StopsIn cb (storage.slots.take volume.sbi.rootDirEntries) 0 cbdata ∨
        ∃ marker, storage.slots[volume.sbi.rootDirEntries]? = some marker ∧
          marker.de.isEnd = true))) := by
  refine ⟨storedAt_of_mem_slots hsize storage, map_de_slots hsize storage, ?_⟩
  by_cases hstart : startCluster = 0
  · subst hstart
    have hwalk := dirWalk_walkSpec storage hfuel cb cbdata
    rw [dirWalk, if_pos rfl] at hwalk
    rw [dirWalk, if_pos rfl, hwalk, Option.some.injEq, capacity_root,
      walkSpec_root_iff hsize storage]
    simp
  rw [take_capacity_of_ne_zero hstart]
  cases allocated with
  | true => exact iff_of_true (dirWalk_walkSpec storage hfuel cb cbdata) (.inl ⟨hstart, rfl⟩)
  | false =>
      refine iff_of_false (fun hwalk => ?_) (by simp [hstart])
      rw [dirWalk, if_neg hstart, if_neg Bool.false_ne_true, Option.some.injEq] at hwalk
      have hret := walkSpec_ret (congrArg (fun reply => reply.2.2) hwalk).symm
      rw [← hwalk] at hret
      exact absurd hret (by norm_num [enomem])

/-! ## A root with one entry -/

/-- The small image with one root directory entry. -/
def oneEntryDevice : Device := fun address => if address = 17 then some 1 else smallDevice address

def oneEntryVolume : Volume := Volume.mount oneEntryDevice (by decide +kernel)

def oneEntryRoot : Storage oneEntryVolume 0 :=
  .root
    (((List.range (rootSectors oneEntryVolume.sbi.rootDirEntries
        oneEntryVolume.sbi.bytesPerSector)).mapM fun s =>
          oneEntryVolume.bread (oneEntryVolume.sbi.rootDirStart + s)).get (by decide +kernel))
    (forall₂_of_mapM (Option.some_get _).symm)

theorem walk_smallRoot :
    (∀ slot ∈ smallRoot.slots, StoredAt smallVolume slot) ∧
    smallRoot.slots.map Slot.de =
      (List.range smallRoot.slots.length).map (direntryAt (Storage.bytes smallRoot)) ∧
    (dirWalk 1 smallVolume 0 true (logged passAll) ((), []) =
        some (walkSpec passAll (smallRoot.slots.take (Storage.capacity smallRoot)) 0 ()) ↔
      ((0 : ℕ) ≠ 0 ∧ true = true) ∨
      ((0 : ℕ) = 0 ∧ (16 ∣ smallVolume.sbi.rootDirEntries ∨
        StopsIn passAll (smallRoot.slots.take smallVolume.sbi.rootDirEntries) 0 () ∨
        ∃ marker, smallRoot.slots[smallVolume.sbi.rootDirEntries]? = some marker ∧
          marker.de.isEnd = true))) :=
  walk_iff (by decide +kernel) smallRoot (by decide) true passAll ()

/-- A root with one entry is walked past its capacity. -/
theorem not_walk_oneEntryRoot :
    ¬ ∀ (volume : Volume) (startCluster fuel : ℕ) (storage : Storage volume startCluster)
      (cb : DirentCb Unit), volume.sbi.bytesPerSector = 512 → 1 ≤ volume.sbi.sectorsPerCluster →
      storage.rounds < fuel →
      dirWalk fuel volume startCluster true (logged cb) ((), []) =
        some (walkSpec cb (storage.slots.take (Storage.capacity storage)) 0 ()) := by
  intro hclaim
  have hwalk := hclaim oneEntryVolume 0 1 oneEntryRoot passAll (by decide +kernel)
    (by decide +kernel) (by decide)
  have hcalls : (dirWalk 1 oneEntryVolume 0 true (logged passAll) ((), [])).map
      (fun reply => reply.2.2.length) = some 3 := by
    decide +kernel
  have hspec : (walkSpec passAll (oneEntryRoot.slots.take (Storage.capacity oneEntryRoot)) 0
      ()).2.2.length = 1 := by
    decide +kernel
  rw [hwalk, Option.map_some, hspec] at hcalls
  exact absurd hcalls (by decide)

end DoomsdayModules.Fat16.WalkOrder
