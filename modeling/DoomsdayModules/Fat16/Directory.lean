import DoomsdayModules.Fat16.Image
import Mathlib.Data.List.TakeWhile

/-!
# Walking a directory

`fat16_dir_walk` hands every entry before the end marker to a callback, with
the sector and index it is stored at and its position in the directory.  The
root directory is a range of sectors, every other directory a chain of
clusters; in both layouts the walk is one loop over the list of all slots,
which the callbacks' results are stated over.
-/

namespace DoomsdayModules.Fat16.Directory

open DoomsdayModules.EarlyExit DoomsdayModules.Fat16.Image

/-! ## Entries -/

/-- The fields of `fat16_direntry_t` that are read. -/
structure Direntry where
  filename : List UInt8
  attr : UInt8
  firstClusterLow : ℕ
  fileSize : ℕ
  filename_length : filename.length = 11
  firstClusterLow_lt : firstClusterLow < 2 ^ 16
  fileSize_lt : fileSize < 2 ^ 32

/-- Entry `i` of a buffer of entries. -/
def direntryAt (buf : List UInt8) (i : ℕ) : Direntry where
  filename := (List.range 11).map fun k => buf.getD (32 * i + k) 0
  attr := buf.getD (32 * i + 11) 0
  firstClusterLow := le16 buf (32 * i + 26)
  fileSize := le32 buf (32 * i + 28)
  filename_length := by simp
  firstClusterLow_lt := le16_lt buf _
  fileSize_lt := le32_lt buf _

namespace Direntry

def isEnd (de : Direntry) : Bool := de.filename.headD 0 == 0

def isSkip (de : Direntry) : Bool :=
  de.filename.headD 0 == 0xE5 || de.attr == 0x0F || de.attr &&& 0x08 != 0

def isDir (de : Direntry) : Bool := de.attr &&& 0x10 != 0

end Direntry

/-- `fat16_make_ino`. -/
def makeIno (volume : Volume) (sector entryIndex : ℕ) : ℕ :=
  sector * volume.sbi.bytesPerSector + entryIndex * 32

/-! ## Names -/

def space : UInt8 := 0x20
def dot : UInt8 := 0x2E

/-- Append characters up to a space to the output, which has room for
`outsz - 1` of them. -/
def copyUntilSpace (outsz : ℕ) : List UInt8 → List UInt8 → Option (List UInt8)
  | [], out => some out
  | c :: rest, out =>
      if c = space then some out
      else if outsz - 1 ≤ out.length then none
      else copyUntilSpace outsz rest (out ++ [c])

/-- `fat16_83_to_str`: the characters written before the terminating zero,
`none` for the result -1. -/
def str83 (name83 : List UInt8) (outsz : ℕ) : Option (List UInt8) :=
  (copyUntilSpace outsz (name83.take 8) []).bind fun out =>
    if name83.getD 8 0 ≠ space then
      if outsz - 1 ≤ out.length then none
      else copyUntilSpace outsz (name83.drop 8) (out ++ [dot])
    else some out

/-- The C string in the name buffer of a callback. -/
def entryName (de : Direntry) : List UInt8 :=
  ((str83 de.filename 13).getD []).takeWhile (· ≠ 0)

theorem entryName_ne_zero (de : Direntry) : ∀ c ∈ entryName de, c ≠ 0 := by
  intro c hc
  rw [entryName] at hc
  simpa using List.mem_takeWhile_imp hc

/-! ## The walk -/

/-- A callback: the entry, its sector and index there, its position in the
directory, and the callback's data. -/
abbrev DirentCb (σ : Type*) := Direntry → ℕ → ℕ → ℕ → σ → Int × σ

variable {σ : Type*}

/-- The body of the loop over entries: the walk goes on with the data and the
next position, or returns a code. -/
def visit (cb : DirentCb σ) (de : Direntry) (sector idx : ℕ) (walk : σ × ℕ) :
    Except (Int × σ) (σ × ℕ) :=
  if de.isEnd then .error (0, walk.1)
  else
    let reply := cb de sector idx walk.2 walk.1
    if reply.1 ≠ 0 then .error reply else .ok (reply.2, u32 (walk.2 + 1))

def walkSector (volume : Volume) (cb : DirentCb σ) (walk : σ × ℕ) (s : ℕ) :
    Except (Int × σ) (σ × ℕ) :=
  match volume.bread (volume.sbi.rootDirStart + s) with
  | none => .error (eio, walk.1)
  | some data =>
      (List.range (entriesPerSector volume.sbi.bytesPerSector)).foldlM
        (fun walk i => visit cb (direntryAt data i) (volume.sbi.rootDirStart + s) i walk) walk

def walkRoot (volume : Volume) (cb : DirentCb σ) (walk : σ × ℕ) : Except (Int × σ) (σ × ℕ) :=
  (List.range (rootSectors volume.sbi.rootDirEntries volume.sbi.bytesPerSector)).foldlM
    (walkSector volume cb) walk

def walkEntries (volume : Volume) (cb : DirentCb σ) (cluster : ℕ) (buf : List UInt8)
    (walk : σ × ℕ) : Except (Int × σ) (σ × ℕ) :=
  let eps := entriesPerSector volume.sbi.bytesPerSector
  let cs := clusterSector volume.sbi.dataStart cluster volume.sbi.sectorsPerCluster
  (List.range (entriesPerCluster volume.sbi.bytesPerCluster)).foldlM
    (fun walk i => visit cb (direntryAt buf i) (entrySector cs i eps) (entryIdx i eps) walk) walk

/-- The loop over clusters, by rounds left: `none` is a loop that is still running. -/
def walkClusters (volume : Volume) (cb : DirentCb σ) :
    ℕ → ℕ → σ × ℕ → Option (Except (Int × σ) (σ × ℕ))
  | 0, _, _ => none
  | fuel + 1, cluster, walk =>
      if cluster < finalCluster then
        match readCluster volume cluster with
        | .error _ => some (.error (eio, walk.1))
        | .ok buf =>
            match walkEntries volume cb cluster buf walk with
            | .error reply => some (.error reply)
            | .ok walk =>
                match nextCluster volume cluster with
                | .error _ => some (.error (eio, walk.1))
                | .ok next => walkClusters volume cb fuel next walk
      else some (.ok walk)

/-- What the walk returns, and the data it leaves. -/
def walkReply : Except (Int × σ) (σ × ℕ) → Int × σ
  | .error reply => reply
  | .ok walk => (0, walk.1)

/-- `fat16_dir_walk`: `allocated` is whether `kmalloc` had room for the cluster
buffer, which only the cluster layout asks for. -/
def dirWalk (fuel : ℕ) (volume : Volume) (startCluster : ℕ) (allocated : Bool) (cb : DirentCb σ)
    (cbdata : σ) : Option (Int × σ) :=
  if startCluster = 0 then some (walkReply (walkRoot volume cb (cbdata, 0)))
  else if allocated then
    (walkClusters volume cb fuel (startCluster % 2 ^ 16) (cbdata, 0)).map walkReply
  else some (enomem, cbdata)

/-! ## All slots of a directory -/

/-- An entry with the place it is stored at. -/
structure Slot where
  de : Direntry
  sector : ℕ
  idx : ℕ

def sectorSlots (volume : Volume) (s : ℕ) (data : List UInt8) : List Slot :=
  (List.range (entriesPerSector volume.sbi.bytesPerSector)).map fun i =>
    ⟨direntryAt data i, volume.sbi.rootDirStart + s, i⟩

def linkSlots (volume : Volume) (link : Link) : List Slot :=
  let eps := entriesPerSector volume.sbi.bytesPerSector
  let cs := clusterSector volume.sbi.dataStart link.cluster volume.sbi.sectorsPerCluster
  (List.range (entriesPerCluster volume.sbi.bytesPerCluster)).map fun i =>
    ⟨direntryAt link.data i, entrySector cs i eps, entryIdx i eps⟩

/-- A directory that can be read to its end: the range of root sectors, or a
chain of clusters that comes to an end. -/
inductive Storage (volume : Volume) : ℕ → Type
  | root (sectors : List (List UInt8))
      (hread : List.Forall₂ (fun s data => volume.bread (volume.sbi.rootDirStart + s) = some data)
        (List.range (rootSectors volume.sbi.rootDirEntries volume.sbi.bytesPerSector)) sectors) :
      Storage volume 0
  | clusters {startCluster : ℕ} (hstart : startCluster ≠ 0) (links : List Link)
      (hchain : Chain volume (startCluster % 2 ^ 16) links) : Storage volume startCluster

namespace Storage

variable {volume : Volume} {startCluster : ℕ}

/-- The slots in the order of the walk, those after the end marker included. -/
def slots : Storage volume startCluster → List Slot
  | .root sectors _ =>
      ((List.range (rootSectors volume.sbi.rootDirEntries volume.sbi.bytesPerSector)).zip
        sectors).flatMap fun sector => sectorSlots volume sector.1 sector.2
  | .clusters _ links _ => links.flatMap (linkSlots volume)

/-- The rounds of the loop over clusters. -/
def rounds : Storage volume startCluster → ℕ
  | .root _ _ => 0
  | .clusters _ links _ => links.length

end Storage

/-- The positions of all slots fit in the counter. -/
theorem Storage.length_slots_lt {volume : Volume} {startCluster : ℕ}
    (storage : Storage volume startCluster) : storage.slots.length < 2 ^ 32 := by
  have hsectors := volume.sbi.sectorsPerCluster_lt
  have hentries := volume.sbi.rootDirEntries_lt
  have hsize := volume.sbi.bytesPerSector_lt
  cases storage with
  | root sectors hread =>
      have hcount := hread.length_eq
      rw [List.length_range] at hcount
      have hlength : (Storage.root sectors hread).slots.length =
          rootSectors volume.sbi.rootDirEntries volume.sbi.bytesPerSector *
            entriesPerSector volume.sbi.bytesPerSector := by
        simp [Storage.slots, List.length_flatMap, sectorSlots, ← hcount]
      calc (Storage.root sectors hread).slots.length
          = rootSectors volume.sbi.rootDirEntries volume.sbi.bytesPerSector *
              entriesPerSector volume.sbi.bytesPerSector := hlength
        _ ≤ rootSectors volume.sbi.rootDirEntries volume.sbi.bytesPerSector *
              volume.sbi.bytesPerSector := Nat.mul_le_mul_left _ (Nat.div_le_self _ _)
        _ ≤ volume.sbi.rootDirEntries * 32 + volume.sbi.bytesPerSector - 1 :=
              Nat.div_mul_le_self _ _
        _ < 2 ^ 32 := by omega
  | clusters hstart links hchain =>
      have hlength : (Storage.clusters hstart links hchain).slots.length =
          links.length * entriesPerCluster volume.sbi.bytesPerCluster := by
        simp [Storage.slots, List.length_flatMap, linkSlots]
      rw [hlength]
      by_cases hlinks : links = []
      · simp [hlinks]
      rcases Nat.eq_zero_or_pos volume.sbi.sectorsPerCluster with hzero | hpos
      · simp [volume.sbi.bytesPerCluster_eq, hzero, entriesPerCluster]
      have hentries : entriesPerCluster volume.sbi.bytesPerCluster ≤ 128 * 255 := by
        have hpage := (hchain.validBlocksize hlinks hpos).2.2
        have hbytes : volume.sbi.bytesPerCluster ≤ 4096 * 255 := by
          rw [volume.sbi.bytesPerCluster_eq]
          exact Nat.mul_le_mul hpage (by omega)
        rw [entriesPerCluster]
        omega
      calc links.length * entriesPerCluster volume.sbi.bytesPerCluster
          ≤ finalCluster * (128 * 255) := Nat.mul_le_mul hchain.length_le hentries
        _ < 2 ^ 32 := by norm_num [finalCluster]

/-- One round of the walk as one loop over all slots. -/
def visitSlot (cb : DirentCb σ) (walk : σ × ℕ) (slot : Slot) : Except (Int × σ) (σ × ℕ) :=
  visit cb slot.de slot.sector slot.idx walk

theorem walkSector_eq {volume : Volume} {cb : DirentCb σ} {s : ℕ} {data : List UInt8}
    (hread : volume.bread (volume.sbi.rootDirStart + s) = some data) (walk : σ × ℕ) :
    walkSector volume cb walk s = (sectorSlots volume s data).foldlM (visitSlot cb) walk := by
  simp only [walkSector, hread, sectorSlots, List.foldlM_map]
  rfl

theorem walkEntries_eq (volume : Volume) (cb : DirentCb σ) (link : Link) (walk : σ × ℕ) :
    walkEntries volume cb link.cluster link.data walk =
      (linkSlots volume link).foldlM (visitSlot cb) walk := by
  simp only [walkEntries, linkSlots, List.foldlM_map]
  rfl

theorem foldlM_walkSector {volume : Volume} {cb : DirentCb σ} {numbers : List ℕ}
    {sectors : List (List UInt8)}
    (hread : List.Forall₂ (fun s data => volume.bread (volume.sbi.rootDirStart + s) = some data)
      numbers sectors) (walk : σ × ℕ) :
    numbers.foldlM (walkSector volume cb) walk =
      ((numbers.zip sectors).flatMap fun sector =>
        sectorSlots volume sector.1 sector.2).foldlM (visitSlot cb) walk := by
  induction hread generalizing walk with
  | nil => rfl
  | cons hdata _ ih =>
      rw [List.foldlM_cons, walkSector_eq hdata, List.zip_cons_cons, List.flatMap_cons,
        List.foldlM_append]
      congr 1
      funext next
      exact ih next

theorem walkClusters_eq {volume : Volume} {cb : DirentCb σ} {fuel cluster : ℕ} {links : List Link}
    (hchain : Chain volume cluster links) (hfuel : links.length < fuel) (walk : σ × ℕ) :
    (walkClusters volume cb fuel cluster walk).map walkReply =
      some (walkReply ((links.flatMap (linkSlots volume)).foldlM (visitSlot cb) walk)) := by
  induction hchain generalizing fuel walk with
  | stop hfinal =>
      obtain ⟨fuel, rfl⟩ := Nat.exists_eq_succ_of_ne_zero (Nat.ne_of_gt hfuel)
      rw [walkClusters, if_neg (Nat.not_lt.mpr hfinal)]
      rfl
  | @link cluster next data rest hcluster hdata hnext _ ih =>
      obtain ⟨fuel, rfl⟩ := Nat.exists_eq_succ_of_ne_zero (Nat.ne_of_gt (Nat.zero_lt_of_lt hfuel))
      have hentries := walkEntries_eq volume cb ⟨cluster, data⟩ walk
      rw [List.flatMap_cons, List.foldlM_append, ← hentries]
      rw [walkClusters, if_pos hcluster]
      simp only [hdata]
      cases hwalk : walkEntries volume cb cluster data walk with
      | error reply => rfl
      | ok after =>
          simp only [hnext]
          exact ih (by simpa using hfuel) after

/-- In both layouts the walk is one loop over the slots. -/
theorem dirWalk_eq {volume : Volume} {startCluster fuel : ℕ}
    (storage : Storage volume startCluster) (hfuel : storage.rounds < fuel) (cb : DirentCb σ)
    (cbdata : σ) :
    dirWalk fuel volume startCluster true cb cbdata =
      some (walkReply (storage.slots.foldlM (visitSlot cb) (cbdata, 0))) := by
  cases storage with
  | root sectors hread =>
      rw [dirWalk, if_pos rfl, walkRoot, foldlM_walkSector hread]
      rfl
  | clusters hstart links hchain =>
      rw [dirWalk, if_neg hstart, if_pos rfl]
      exact walkClusters_eq hchain hfuel _

/-! ## The root directory of the small image -/

def smallRoot : Storage smallVolume 0 :=
  .root
    (((List.range (rootSectors smallVolume.sbi.rootDirEntries
        smallVolume.sbi.bytesPerSector)).mapM fun s =>
          smallVolume.bread (smallVolume.sbi.rootDirStart + s)).get (by decide +kernel))
    (forall₂_of_mapM (Option.some_get _).symm)

end DoomsdayModules.Fat16.Directory
