import DoomsdayModules.Core.Runs
import DoomsdayModules.Fat16.Search

/-!
# Inode numbers and the inode hash

An inode has the number of the slot its directory entry is stored in: the
sector in units of its bytes, and the offset of the slot in the sector.  Slots
lie inside their sectors, so that the number gives both back.  The hash of
in-core inodes is only added to: a lookup that comes to a slot whose inode is
still hashed puts a second inode with its number there.
-/

namespace DoomsdayModules.Fat16.InodeNumbers

open DoomsdayModules.EarlyExit DoomsdayModules.Runs
open DoomsdayModules.Fat16.Image DoomsdayModules.Fat16.Directory DoomsdayModules.Fat16.Lookup
open DoomsdayModules.Fat16.Walk DoomsdayModules.Fat16.Search

/-! ## Places of slots -/

/-- A slot inside a sector with a 32-bit number. -/
def Placed (volume : Volume) (slot : Slot) : Prop :=
  slot.sector < 2 ^ 32 ∧ slot.idx < entriesPerSector volume.sbi.bytesPerSector

theorem placed_of_mem_rootSlots {volume : Volume} {sectors : List (List UInt8)}
    (hcount : sectors.length ≤ rootSectors volume.sbi.rootDirEntries volume.sbi.bytesPerSector) :
    ∀ slot ∈ rootSlots volume sectors, Placed volume slot := by
  have hbound := rootSector_lt volume
  intro slot hslot
  obtain ⟨⟨s, data⟩, hsector, hmem⟩ := List.mem_flatMap.mp hslot
  obtain ⟨i, hi, rfl⟩ := List.mem_map.mp hmem
  have hs := List.mem_range.mp (List.of_mem_zip hsector).1
  exact ⟨by simp only; omega, List.mem_range.mp hi⟩

theorem placed_of_mem_linkSlots {volume : Volume} {link : Link}
    (hsize : 32 ≤ volume.sbi.bytesPerSector) :
    ∀ slot ∈ linkSlots volume link, Placed volume slot := by
  have hentries : 0 < entriesPerSector volume.sbi.bytesPerSector := Nat.div_pos hsize (by norm_num)
  intro slot hslot
  obtain ⟨i, -, rfl⟩ := List.mem_map.mp hslot
  exact ⟨Nat.mod_lt _ (by norm_num), Nat.mod_lt _ hentries⟩

theorem placed_of_visited {volume : Volume} {startCluster : ℕ} {slots : List Slot}
    (hvisited : Visited volume startCluster slots) (hsize : 32 ≤ volume.sbi.bytesPerSector) :
    ∀ slot ∈ slots, Placed volume slot := by
  cases hvisited with
  | root sectors hcount _ => exact placed_of_mem_rootSlots hcount
  | clusters _ links _ =>
      intro slot hslot
      obtain ⟨link, -, hmem⟩ := List.mem_flatMap.mp hslot
      exact placed_of_mem_linkSlots hsize slot hmem

/-! ## Numbers -/

theorem offset_lt {volume : Volume} {slot : Slot} (hplaced : Placed volume slot) :
    slot.idx * 32 < volume.sbi.bytesPerSector := by
  have hidx := hplaced.2
  rw [entriesPerSector, Nat.lt_div_iff_mul_lt (by norm_num)] at hidx
  omega

theorem makeIno_div {volume : Volume} {slot : Slot} (hplaced : Placed volume slot) :
    makeIno volume slot.sector slot.idx / volume.sbi.bytesPerSector = slot.sector := by
  rw [makeIno, Nat.mul_comm, Nat.mul_add_div volume.sbi.bytesPerSector_pos,
    Nat.div_eq_of_lt (offset_lt hplaced), Nat.add_zero]

theorem makeIno_mod {volume : Volume} {slot : Slot} (hplaced : Placed volume slot) :
    makeIno volume slot.sector slot.idx % volume.sbi.bytesPerSector = slot.idx * 32 := by
  rw [makeIno, Nat.mul_comm, Nat.mul_add_mod, Nat.mod_eq_of_lt (offset_lt hplaced)]

/-- Slots are identified by their numbers. -/
theorem makeIno_inj {volume : Volume} {slot other : Slot} (hslot : Placed volume slot)
    (hother : Placed volume other) :
    makeIno volume slot.sector slot.idx = makeIno volume other.sector other.idx ↔
      slot.sector = other.sector ∧ slot.idx = other.idx := by
  constructor
  · intro hsame
    have hsector := makeIno_div hslot
    have hidx := makeIno_mod hslot
    rw [hsame, makeIno_div hother] at hsector
    rw [hsame, makeIno_mod hother] at hidx
    exact ⟨hsector.symm, by omega⟩
  · rintro ⟨hsector, hidx⟩
    rw [hsector, hidx]

/-- The number of the root inode is no slot's. -/
theorem makeIno_ne_one {volume : Volume} {slot : Slot} (hplaced : Placed volume slot)
    (hsize : 32 ≤ volume.sbi.bytesPerSector) : makeIno volume slot.sector slot.idx ≠ 1 := by
  intro hone
  have hidx := makeIno_mod hplaced
  rw [hone, Nat.mod_eq_of_lt (by omega)] at hidx
  omega

theorem makeIno_lt {volume : Volume} {slot : Slot} (hplaced : Placed volume slot) :
    makeIno volume slot.sector slot.idx < 2 ^ 64 := by
  have hoffset := offset_lt hplaced
  have hsize := volume.sbi.bytesPerSector_lt
  have hsectors : slot.sector * volume.sbi.bytesPerSector ≤ 2 ^ 32 * 2 ^ 16 :=
    Nat.mul_le_mul hplaced.1.le hsize.le
  rw [makeIno]
  omega

/-- The calls of a walk are about slots inside their sectors. -/
theorem placed_of_dirWalk {σ : Type*} {volume : Volume} {startCluster fuel : ℕ}
    {allocated : Bool} {cb : DirentCb σ} {cbdata data : σ} {ret : Int}
    {calls : List (Slot × ℕ)} (hsize : 32 ≤ volume.sbi.bytesPerSector)
    (hwalk : dirWalk fuel volume startCluster allocated (logged cb) (cbdata, []) =
      some (ret, data, calls)) :
    ∀ call ∈ calls, Placed volume call.1 := by
  rcases calls_of_dirWalk hwalk with rfl | ⟨slots, hvisited, rfl⟩
  · simp
  · exact fun call hcall => placed_of_visited hvisited hsize call.1 (mem_passed call hcall)

/-- The entries any two walks pass to their callbacks, be it only to be stopped
there, have the same number exactly if they are stored in the same slot of the
same sector, and none has the number of the root. -/
theorem makeIno_eq_iff {σ τ : Type*} {volume : Volume} (hsize : 32 ≤ volume.sbi.bytesPerSector)
    {cb : DirentCb σ} {cb' : DirentCb τ} {fuel fuel' startCluster startCluster' : ℕ}
    {allocated allocated' : Bool} {cbdata data : σ} {cbdata' data' : τ} {ret ret' : Int}
    {calls calls' : List (Slot × ℕ)}
    (hwalk : dirWalk fuel volume startCluster allocated (logged cb) (cbdata, []) =
      some (ret, data, calls))
    (hwalk' : dirWalk fuel' volume startCluster' allocated' (logged cb') (cbdata', []) =
      some (ret', data', calls')) :
    ∀ call ∈ calls, makeIno volume call.1.sector call.1.idx ≠ 1 ∧
      makeIno volume call.1.sector call.1.idx < 2 ^ 64 ∧
      ∀ call' ∈ calls',
        (makeIno volume call.1.sector call.1.idx = makeIno volume call'.1.sector call'.1.idx ↔
          call.1.sector = call'.1.sector ∧ call.1.idx = call'.1.idx) := by
  intro call hcall
  have hplaced := placed_of_dirWalk hsize hwalk call hcall
  refine ⟨makeIno_ne_one hplaced hsize, makeIno_lt hplaced, fun call' hcall' => ?_⟩
  exact makeIno_inj hplaced (placed_of_dirWalk hsize hwalk' call' hcall')

theorem makeIno_smallRoot :
    ∃ calls, dirWalk 1 smallVolume 0 true (logged passAll) ((), []) = some (0, (), calls) ∧
      ∀ call ∈ calls, makeIno smallVolume call.1.sector call.1.idx ≠ 1 ∧
        makeIno smallVolume call.1.sector call.1.idx < 2 ^ 64 ∧
        ∀ call' ∈ calls, (makeIno smallVolume call.1.sector call.1.idx =
            makeIno smallVolume call'.1.sector call'.1.idx ↔
          call.1.sector = call'.1.sector ∧ call.1.idx = call'.1.idx) := by
  have hret : (dirWalk 1 smallVolume 0 true (logged passAll) ((), [])).map Prod.fst = some 0 := by
    decide +kernel
  obtain ⟨⟨ret, data, calls⟩, hwalk, rfl⟩ := Option.map_eq_some_iff.mp hret
  exact ⟨calls, hwalk, makeIno_eq_iff (by decide +kernel) hwalk hwalk⟩

/-! ## The hash of in-core inodes -/

/-- The hashed inodes, each under an identity of its own, and the next identity. -/
structure Icache where
  next : ℕ
  hashed : List (ℕ × Inode)

/-- The kernel's `insert_inode_hash` of an inode fresh from `new_inode`. -/
def insertInodeHash (icache : Icache) (inode : Inode) : Icache :=
  ⟨icache.next + 1, (icache.next, inode) :: icache.hashed⟩

/-- An inode is evicted when its last dentry has been dropped. -/
def evictInode (icache : Icache) (identity : ℕ) : Icache :=
  ⟨icache.next, icache.hashed.filter fun entry => entry.1 ≠ identity⟩

/-- What lies in the hash after the mount. -/
def mountedIcache : Icache :=
  match penguinFat16GetRootInode true with
  | .ok root => insertInodeHash ⟨0, []⟩ root
  | .error _ => ⟨0, []⟩

inductive IcacheOp
  | lookup (startCluster : ℕ) (allocated memory : Bool) (name : List UInt8)
  | evict (identity : ℕ)

/-- A lookup hashes the inode it gets, and has no result where it does not return. -/
def icacheStep (fuel : ℕ) (volume : Volume) (icache : Icache) : IcacheOp → Option Icache
  | .lookup startCluster allocated memory name =>
      (penguinFat16Lookup fuel volume startCluster allocated memory name).map fun
        | .ok (some (.ok inode)) => insertInodeHash icache inode
        | _ => icache
  | .evict identity => some (evictInode icache identity)

/-- At most one hashed inode has a given number. -/
def OnePerNumber (icache : Icache) : Prop := (icache.hashed.map fun entry => entry.2.ino).Nodup

/-- The lookup comes to no slot whose number is hashed. -/
def Unhashed (volume : Volume) (icache : Icache) : IcacheOp → Prop
  | .lookup startCluster allocated memory name =>
      (startCluster ≠ 0 → allocated = true) → memory = true →
        ∀ slot, IsFirst volume startCluster (Named name) slot →
          ∀ entry ∈ icache.hashed, entry.2.ino ≠ makeIno volume slot.sector slot.idx
  | .evict _ => True

theorem onePerNumber_insert_iff {icache : Icache} (hone : OnePerNumber icache) (inode : Inode) :
    OnePerNumber (insertInodeHash icache inode) ↔
      ∀ entry ∈ icache.hashed, entry.2.ino ≠ inode.ino := by
  have hinsert : OnePerNumber (insertInodeHash icache inode) ↔
      inode.ino ∉ (icache.hashed.map fun entry => entry.2.ino) ∧ OnePerNumber icache :=
    List.nodup_cons
  rw [hinsert, and_iff_left hone, List.mem_map, not_exists]
  simp only [not_and, ne_eq]

theorem onePerNumber_evict {icache : Icache} (hone : OnePerNumber icache) (identity : ℕ) :
    OnePerNumber (evictInode icache identity) :=
  hone.sublist (List.filter_sublist.map _)

theorem penguinFat16Iget_ok (ino : ℕ) (de : Direntry) :
    ∃ inode, penguinFat16Iget true ino de = .ok inode ∧ inode.ino = ino := ⟨_, rfl, rfl⟩

/-- A step keeps one inode for each number exactly if it is no lookup that comes
to a slot whose number is hashed. -/
theorem icacheStep_iff {fuel : ℕ} {volume : Volume} {icache next : Icache} {op : IcacheOp}
    (hone : OnePerNumber icache) (hstep : icacheStep fuel volume icache op = some next) :
    OnePerNumber next ↔ Unhashed volume icache op := by
  cases op with
  | evict identity =>
      cases hstep
      exact iff_of_true (onePerNumber_evict hone identity) trivial
  | lookup startCluster allocated memory name =>
      obtain ⟨walked, hlookup, rfl⟩ := Option.map_eq_some_iff.mp hstep
      rcases penguinFat16Lookup_cases hlookup with
        ⟨hstart, hnone, rfl⟩ | ⟨hallocated, ⟨slot, hfirst, rfl⟩ | ⟨hmiss, hwalked⟩⟩
      · refine iff_of_true hone fun hallocated => ?_
        simp [hallocated hstart] at hnone
      · cases memory with
        | false => exact iff_of_true hone fun _ hmemory => absurd hmemory Bool.false_ne_true
        | true =>
            obtain ⟨inode, higet, hino⟩ :=
              penguinFat16Iget_ok (makeIno volume slot.sector slot.idx) slot.de
            rw [higet]
            refine (onePerNumber_insert_iff hone inode).trans ?_
            rw [hino]
            constructor
            · intro hfresh _ _ other hother
              rw [← hfirst.unique hother]
              exact hfresh
            · intro hfresh
              exact hfresh hallocated rfl slot hfirst
      · have hnothing : Unhashed volume icache (.lookup startCluster allocated memory name) :=
          fun _ _ slot hfirst => absurd hfirst (hmiss slot)
        rcases hwalked with rfl | rfl
        · exact iff_of_true hone hnothing
        · exact iff_of_true hone hnothing

theorem onePerNumber_mounted : OnePerNumber mountedIcache := List.nodup_singleton 1

/-- From the mount on, at every point of a run at most one hashed inode has a
given number, exactly if no lookup of the run comes to a slot whose number is
hashed. -/
theorem onePerNumber_iff {fuel : ℕ} {volume : Volume} {ops : List IcacheOp} {final : Icache}
    (hrun : run (icacheStep fuel volume) mountedIcache ops = some final) :
    (∀ done, done <+: ops → ∀ reached,
        run (icacheStep fuel volume) mountedIcache done = some reached → OnePerNumber reached) ↔
      AllSteps (icacheStep fuel volume) (Unhashed volume) mountedIcache ops :=
  run_throughout_iff OnePerNumber (fun _ _ _ hone hstep => icacheStep_iff hone hstep)
    onePerNumber_mounted hrun

/-- The name of the note as it is stored. -/
def upperNoteName : List UInt8 := [0x4E, 0x4F, 0x54, 0x45, 0x2E, 0x54, 0x58, 0x54]

/-- The note looked up under two spellings. -/
def noteTwice : List IcacheOp := [.lookup 0 true true noteName, .lookup 0 true true upperNoteName]

theorem run_noteTwice :
    ∃ final, run (icacheStep 1 smallVolume) mountedIcache noteTwice = some final ∧
      ¬ OnePerNumber final := by
  have hnumbers : (run (icacheStep 1 smallVolume) mountedIcache noteTwice).map
      (fun final => final.hashed.map fun entry => entry.2.ino) = some [1088, 1088, 1] := by
    decide +kernel
  obtain ⟨final, hrun, hfinal⟩ := Option.map_eq_some_iff.mp hnumbers
  refine ⟨final, hrun, fun hone => ?_⟩
  rw [OnePerNumber, hfinal] at hone
  exact absurd hone (by decide)

theorem onePerNumber_noteTwice :
    ∃ final, run (icacheStep 1 smallVolume) mountedIcache noteTwice = some final ∧
      ((∀ done, done <+: noteTwice → ∀ reached,
          run (icacheStep 1 smallVolume) mountedIcache done = some reached →
            OnePerNumber reached) ↔
        AllSteps (icacheStep 1 smallVolume) (Unhashed smallVolume) mountedIcache noteTwice) := by
  obtain ⟨final, hrun, -⟩ := run_noteTwice
  exact ⟨final, hrun, onePerNumber_iff hrun⟩

/-- Two spellings of one name leave two inodes with one number. -/
theorem not_onePerNumber_noteTwice :
    ¬ ∀ (fuel : ℕ) (volume : Volume) (ops : List IcacheOp) (final : Icache),
      run (icacheStep fuel volume) mountedIcache ops = some final → OnePerNumber final := by
  intro hclaim
  obtain ⟨final, hrun, htwo⟩ := run_noteTwice
  exact htwo (hclaim 1 smallVolume noteTwice final hrun)

end DoomsdayModules.Fat16.InodeNumbers
