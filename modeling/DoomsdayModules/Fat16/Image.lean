import DoomsdayModules.Core.EarlyExit

/-!
# The FAT16 image

A mounted image is a block device and the geometry `fill_super` reads from its
first sector.  A file or a directory is a chain of clusters that starts in its
directory entry and is followed through the allocation table.  The device is
only read.

`sb_bread` is the kernel's: it refuses a block size that is no multiple of the
logical block size, which `sb_set_blocksize` fixes at 512, and one above a page.
-/

namespace DoomsdayModules.Fat16.Image

open DoomsdayModules.EarlyExit

/-- A value as the code keeps it in a `u32`. -/
def u32 (value : ℕ) : ℕ := value % 2 ^ 32

theorem u32_of_lt {value : ℕ} (hvalue : value < 2 ^ 32) : u32 value = value :=
  Nat.mod_eq_of_lt hvalue

def eio : Int := -5
def enomem : Int := -12
def einval : Int := -22

/-! ## Blocks -/

/-- The byte at each address of the device, if it can be read. -/
abbrev Device := ℕ → Option UInt8

def ValidBlocksize (blocksize : ℕ) : Prop :=
  blocksize % 512 = 0 ∧ 512 ≤ blocksize ∧ blocksize ≤ 4096

instance (blocksize : ℕ) : Decidable (ValidBlocksize blocksize) := by
  unfold ValidBlocksize
  infer_instance

/-- The bytes of one block, `none` where the kernel returns a null buffer head. -/
def sbBread (device : Device) (blocksize block : ℕ) : Option (List UInt8) :=
  if ValidBlocksize blocksize then
    (List.range blocksize).mapM fun i => device (block * blocksize + i)
  else none

def le16 (data : List UInt8) (offset : ℕ) : ℕ :=
  (data.getD offset 0).toNat + 256 * (data.getD (offset + 1) 0).toNat

def le32 (data : List UInt8) (offset : ℕ) : ℕ :=
  le16 data offset + 65536 * le16 data (offset + 2)

theorem le16_lt (data : List UInt8) (offset : ℕ) : le16 data offset < 2 ^ 16 := by
  have hlow := (data.getD offset 0).toNat_lt
  have hhigh := (data.getD (offset + 1) 0).toNat_lt
  simp only [le16]
  omega

theorem le32_lt (data : List UInt8) (offset : ℕ) : le32 data offset < 2 ^ 32 := by
  have hlow := le16_lt data offset
  have hhigh := le16_lt data (offset + 2)
  simp only [le32]
  omega

theorem length_of_mapM_range {device : Device} {start count : ℕ} {data : List UInt8}
    (hread : (List.range count).mapM (fun i => device (start + i)) = some data) :
    data.length = count := by
  have hmap := forall₂_of_mapM hread
  simpa using hmap.length_eq.symm

theorem sbBread_length {device : Device} {blocksize block : ℕ} {data : List UInt8}
    (hread : sbBread device blocksize block = some data) : data.length = blocksize := by
  unfold sbBread at hread
  split at hread
  · exact length_of_mapM_range hread
  · cases hread

theorem sbBread_validBlocksize {device : Device} {blocksize block : ℕ} {data : List UInt8}
    (hread : sbBread device blocksize block = some data) : ValidBlocksize blocksize := by
  by_contra hsize
  simp [sbBread, hsize] at hread

/-! ## Mounting -/

/-- `fat16_sb_info_t`, with the bounds its fields have whatever the first sector holds. -/
structure SbInfo where
  fatStart : ℕ
  rootDirStart : ℕ
  dataStart : ℕ
  sectorsPerCluster : ℕ
  bytesPerCluster : ℕ
  rootDirEntries : ℕ
  bytesPerSector : ℕ
  sectorsPerCluster_lt : sectorsPerCluster < 2 ^ 8
  bytesPerCluster_eq : bytesPerCluster = bytesPerSector * sectorsPerCluster
  rootDirEntries_lt : rootDirEntries < 2 ^ 16
  bytesPerSector_pos : 0 < bytesPerSector
  bytesPerSector_lt : bytesPerSector < 2 ^ 16

def entriesPerSector (bytesPerSector : ℕ) : ℕ := bytesPerSector / 32

def entriesPerCluster (bytesPerCluster : ℕ) : ℕ := bytesPerCluster / 32

def rootSectors (rootDirEntries bytesPerSector : ℕ) : ℕ :=
  (rootDirEntries * 32 + bytesPerSector - 1) / bytesPerSector

def clusterSector (dataStart cluster sectorsPerCluster : ℕ) : ℕ :=
  u32 (dataStart + u32 (cluster + 2 ^ 32 - 2) * sectorsPerCluster)

def entrySector (clusterSector i entriesPerSector : ℕ) : ℕ :=
  u32 (clusterSector + i / entriesPerSector)

def entryIdx (i entriesPerSector : ℕ) : ℕ := i % entriesPerSector

inductive MountError
  | eio
  | divideError
  deriving DecidableEq, Repr

/-- `penguin_fat16_fill_super`, as far as the geometry: the boot sector is read
with 512-byte blocks, and a sector size of zero traps in the division that
rounds the root directory up to sectors. -/
def fillSuper (device : Device) : Except MountError SbInfo :=
  match sbBread device 512 0 with
  | none => .error .eio
  | some bpb =>
      if hsize : le16 bpb 11 = 0 then .error .divideError
      else
        let rootDirSector := le16 bpb 14 + (bpb.getD 16 0).toNat * le16 bpb 22
        .ok {
          fatStart := le16 bpb 14
          rootDirStart := rootDirSector
          dataStart := rootDirSector + rootSectors (le16 bpb 17) (le16 bpb 11)
          sectorsPerCluster := (bpb.getD 13 0).toNat
          bytesPerCluster := le16 bpb 11 * (bpb.getD 13 0).toNat
          rootDirEntries := le16 bpb 17
          bytesPerSector := le16 bpb 11
          sectorsPerCluster_lt := (bpb.getD 13 0).toNat_lt
          bytesPerCluster_eq := rfl
          rootDirEntries_lt := le16_lt bpb 17
          bytesPerSector_pos := Nat.pos_of_ne_zero hsize
          bytesPerSector_lt := le16_lt bpb 11 }

/-- Where the geometry of a mounted image comes from. -/
theorem fillSuper_ok {device : Device} {sbi : SbInfo} (hmount : fillSuper device = .ok sbi) :
    ∃ bpb, sbBread device 512 0 = some bpb ∧ sbi.fatStart = le16 bpb 14 ∧
      sbi.rootDirStart = le16 bpb 14 + (bpb.getD 16 0).toNat * le16 bpb 22 ∧
      sbi.dataStart = sbi.rootDirStart + rootSectors sbi.rootDirEntries sbi.bytesPerSector ∧
      sbi.sectorsPerCluster = (bpb.getD 13 0).toNat ∧ sbi.rootDirEntries = le16 bpb 17 ∧
      sbi.bytesPerSector = le16 bpb 11 := by
  unfold fillSuper at hmount
  split at hmount
  · cases hmount
  · split at hmount
    · cases hmount
    · cases hmount
      exact ⟨_, ‹_›, rfl, rfl, rfl, rfl, rfl, rfl⟩

/-- A device and the geometry it was mounted with. -/
structure Volume where
  device : Device
  sbi : SbInfo
  mounted : fillSuper device = .ok sbi

namespace Volume

/-- The volume of a device that can be mounted. -/
def mount (device : Device) (hok : (fillSuper device).isOk = true) : Volume :=
  match hsbi : fillSuper device with
  | .ok sbi => ⟨device, sbi, hsbi⟩
  | .error _ => absurd hok (by simp [hsbi, Except.isOk, Except.toBool])

/-- `sb_bread` with the block size `fill_super` leaves in the super block. -/
def bread (volume : Volume) (block : ℕ) : Option (List UInt8) :=
  sbBread volume.device volume.sbi.bytesPerSector block

end Volume

/-! ## Clusters -/

def finalCluster : ℕ := 0xFFF8

def nextCluster (volume : Volume) (cluster : ℕ) : Except Int ℕ :=
  let entPerSec := volume.sbi.bytesPerSector / 2
  let fatSector := volume.sbi.fatStart + cluster / entPerSec
  match volume.bread fatSector with
  | none => .error eio
  | some data => .ok (le16 data (2 * (cluster % entPerSec)))

/-- Append the sectors from `sector` on to the cluster buffer. -/
def readSectors (volume : Volume) (sector : ℕ) (buf : List UInt8) (i : ℕ) :
    Except Int (List UInt8) :=
  match volume.bread (u32 (sector + i)) with
  | none => .error eio
  | some data => .ok (buf ++ data)

def readCluster (volume : Volume) (cluster : ℕ) : Except Int (List UInt8) :=
  if finalCluster ≤ cluster then .error einval
  else
    let sector := clusterSector volume.sbi.dataStart cluster volume.sbi.sectorsPerCluster
    (List.range volume.sbi.sectorsPerCluster).foldlM (readSectors volume sector) []

/-- The tables and the root directory end far below the range of a `u32`. -/
theorem rootSector_lt (volume : Volume) :
    volume.sbi.rootDirStart + rootSectors volume.sbi.rootDirEntries volume.sbi.bytesPerSector <
      2 ^ 25 := by
  obtain ⟨bpb, -, -, hroot, -⟩ := fillSuper_ok volume.mounted
  have hreserved := le16_lt bpb 14
  have hfats := (bpb.getD 16 0).toNat_lt
  have hfatSectors := le16_lt bpb 22
  have hentries := volume.sbi.rootDirEntries_lt
  have hsize := volume.sbi.bytesPerSector_lt
  have htables : (bpb.getD 16 0).toNat * le16 bpb 22 ≤ 2 ^ 8 * 2 ^ 16 :=
    Nat.mul_le_mul hfats.le hfatSectors.le
  have hsectors : rootSectors volume.sbi.rootDirEntries volume.sbi.bytesPerSector ≤
      volume.sbi.rootDirEntries * 32 + volume.sbi.bytesPerSector - 1 := Nat.div_le_self _ _
  rw [hroot]
  omega

theorem nextCluster_lt {volume : Volume} {cluster next : ℕ}
    (hnext : nextCluster volume cluster = .ok next) : next < 2 ^ 16 := by
  simp only [nextCluster] at hnext
  split at hnext
  · cases hnext
  · cases hnext
    exact le16_lt _ _

theorem readSectors_ok {volume : Volume} {sector i : ℕ} {buf buf' : List UInt8}
    (hread : readSectors volume sector buf i = .ok buf') :
    ∃ data, volume.bread (u32 (sector + i)) = some data ∧ buf' = buf ++ data := by
  simp only [readSectors] at hread
  split at hread
  · cases hread
  · cases hread
    exact ⟨_, ‹_›, rfl⟩

theorem length_of_readSectors {volume : Volume} {sector : ℕ} {sectors : List ℕ}
    {buf buf' : List UInt8} (hread : sectors.foldlM (readSectors volume sector) buf = .ok buf') :
    buf'.length = buf.length + sectors.length * volume.sbi.bytesPerSector := by
  induction sectors generalizing buf with
  | nil =>
      cases hread
      simp
  | cons i sectors ih =>
      obtain ⟨middle, hfirst, hrest⟩ := foldlM_cons_ok hread
      obtain ⟨data, hdata, rfl⟩ := readSectors_ok hfirst
      have hlength := sbBread_length hdata
      rw [ih hrest, List.length_append, hlength, List.length_cons]
      ring

/-- A cluster that could be read fills the buffer. -/
theorem readCluster_length {volume : Volume} {cluster : ℕ} {buf : List UInt8}
    (hread : readCluster volume cluster = .ok buf) :
    buf.length = volume.sbi.bytesPerCluster := by
  simp only [readCluster] at hread
  split at hread
  · cases hread
  · rw [length_of_readSectors hread, volume.sbi.bytesPerCluster_eq]
    simp [mul_comm]

/-- A cluster is readable only on a volume whose sectors are. -/
theorem readCluster_validBlocksize {volume : Volume} {cluster : ℕ} {buf : List UInt8}
    (hread : readCluster volume cluster = .ok buf) (hpos : 0 < volume.sbi.sectorsPerCluster) :
    ValidBlocksize volume.sbi.bytesPerSector := by
  simp only [readCluster] at hread
  split at hread
  · cases hread
  · obtain ⟨count, hcount⟩ := Nat.exists_eq_succ_of_ne_zero hpos.ne'
    rw [hcount, List.range_succ_eq_map] at hread
    obtain ⟨middle, hfirst, -⟩ := foldlM_cons_ok hread
    obtain ⟨data, hdata, -⟩ := readSectors_ok hfirst
    exact sbBread_validBlocksize hdata

/-- `fat16_inode_info_t`: the first cluster is a 16-bit field of the entry. -/
structure InodeInfo where
  startCluster : ℕ
  fileSize : ℕ
  startCluster_lt : startCluster < 2 ^ 16
  fileSize_lt : fileSize < 2 ^ 32

/-! ## Chains -/

/-- One cluster of a chain, with what it holds. -/
structure Link where
  cluster : ℕ
  data : List UInt8

/-- The allocation table leads from `cluster` through `links` to a final
cluster, and all of them are readable.  A finite chain is one that does not
return to a cluster. -/
inductive Chain (volume : Volume) : ℕ → List Link → Prop
  | stop {cluster : ℕ} (hfinal : finalCluster ≤ cluster) : Chain volume cluster []
  | link {cluster next : ℕ} {data : List UInt8} {rest : List Link}
      (hcluster : cluster < finalCluster) (hread : readCluster volume cluster = .ok data)
      (hnext : nextCluster volume cluster = .ok next) (hrest : Chain volume next rest) :
      Chain volume cluster (⟨cluster, data⟩ :: rest)

/-- What the clusters of a chain hold, in chain order. -/
def chainData (links : List Link) : List UInt8 := links.flatMap Link.data

@[simp]
theorem chainData_nil : chainData [] = [] := rfl

@[simp]
theorem chainData_cons (link : Link) (rest : List Link) :
    chainData (link :: rest) = link.data ++ chainData rest := rfl

namespace Chain

variable {volume : Volume} {cluster : ℕ} {links : List Link}

/-- The table decides the chain. -/
theorem unique {other : List Link} (hchain : Chain volume cluster links)
    (hother : Chain volume cluster other) : links = other := by
  induction hchain generalizing other with
  | stop hfinal =>
      cases hother with
      | stop _ => rfl
      | link hcluster => exact absurd hfinal (Nat.not_le.mpr hcluster)
  | link hcluster hread hnext _ ih =>
      cases hother with
      | stop hfinal => exact absurd hfinal (Nat.not_le.mpr hcluster)
      | link _ hread' hnext' hrest' =>
          rw [hread] at hread'
          rw [hnext] at hnext'
          cases hread'
          cases hnext'
          rw [ih hrest']

theorem cluster_lt (hchain : Chain volume cluster links) :
    ∀ link ∈ links, link.cluster < finalCluster := by
  induction hchain with
  | stop _ => simp
  | link hcluster _ _ _ ih =>
      intro link hlink
      rcases List.mem_cons.mp hlink with rfl | hrest
      · exact hcluster
      · exact ih link hrest

/-- Every cluster of a chain starts the part of the chain that follows it. -/
theorem of_mem (hchain : Chain volume cluster links) {link : Link} (hlink : link ∈ links) :
    ∃ tail, Chain volume link.cluster tail ∧ tail.length ≤ links.length := by
  induction hchain with
  | stop _ => simp at hlink
  | link hcluster hread hnext hrest ih =>
      rcases List.mem_cons.mp hlink with rfl | hmem
      · exact ⟨_, .link hcluster hread hnext hrest, le_rfl⟩
      · obtain ⟨tail, htail, hle⟩ := ih hmem
        exact ⟨tail, htail, by simp only [List.length_cons]; omega⟩

/-- No cluster occurs twice. -/
theorem nodup (hchain : Chain volume cluster links) : (links.map Link.cluster).Nodup := by
  induction hchain with
  | stop _ => simp
  | @link cluster next data rest hcluster hread hnext hrest ih =>
      rw [List.map_cons, List.nodup_cons]
      refine ⟨?_, ih⟩
      intro hmem
      obtain ⟨link, hlink, hsame⟩ := List.mem_map.mp hmem
      obtain ⟨tail, htail, hle⟩ := hrest.of_mem hlink
      rw [hsame] at htail
      have hequal := htail.unique (.link hcluster hread hnext hrest)
      rw [hequal, List.length_cons] at hle
      omega

theorem length_le (hchain : Chain volume cluster links) : links.length ≤ finalCluster := by
  have hsubset : links.map Link.cluster ⊆ List.range finalCluster := by
    intro number hnumber
    obtain ⟨link, hlink, rfl⟩ := List.mem_map.mp hnumber
    exact List.mem_range.mpr (hchain.cluster_lt link hlink)
  have hcard := (hchain.nodup.subperm hsubset).length_le
  simpa using hcard

theorem length_data (hchain : Chain volume cluster links) :
    ∀ link ∈ links, link.data.length = volume.sbi.bytesPerCluster := by
  induction hchain with
  | stop _ => simp
  | link _ hread _ _ ih =>
      intro link hlink
      rcases List.mem_cons.mp hlink with rfl | hrest
      · exact readCluster_length hread
      · exact ih link hrest

/-- A chain that holds a cluster is on a volume with a block size the kernel reads. -/
theorem validBlocksize (hchain : Chain volume cluster links) (hlinks : links ≠ [])
    (hpos : 0 < volume.sbi.sectorsPerCluster) : ValidBlocksize volume.sbi.bytesPerSector := by
  cases hchain with
  | stop _ => exact absurd rfl hlinks
  | link _ hread _ _ => exact readCluster_validBlocksize hread hpos

end Chain

/-- Follow the table for at most `fuel` clusters. -/
def followChain (volume : Volume) : ℕ → ℕ → Option (List Link)
  | 0, _ => none
  | fuel + 1, cluster =>
      if finalCluster ≤ cluster then some []
      else
        match readCluster volume cluster, nextCluster volume cluster with
        | .ok data, .ok next => (followChain volume fuel next).map (⟨cluster, data⟩ :: ·)
        | _, _ => none

theorem Chain.of_followChain {volume : Volume} {fuel cluster : ℕ} {links : List Link}
    (hfollow : followChain volume fuel cluster = some links) : Chain volume cluster links := by
  induction fuel generalizing cluster links with
  | zero => cases hfollow
  | succ fuel ih =>
      rw [followChain] at hfollow
      split at hfollow
      · cases hfollow
        exact .stop ‹_›
      · split at hfollow
        · rename_i hcluster _ _ data next hdata hnext
          obtain ⟨rest, hrest, rfl⟩ := Option.map_eq_some_iff.mp hfollow
          exact .link (Nat.not_le.mp hcluster) hdata hnext (ih hrest)
        · cases hfollow

/-! ## A small image -/

/-- Four sectors: the boot sector, a table with one final entry, a root
directory with a volume label, a deleted entry and `NOTE.TXT`, and its cluster. -/
def smallDevice : Device := fun address =>
  if address < 2048 then
    some (((([(12, 2), (13, 1), (14, 1), (16, 1), (17, 16), (22, 1), (516, 0xFF), (517, 0xFF),
      (1024, 0x50), (1025, 0x45), (1026, 0x4E), (1027, 0x47), (1028, 0x55), (1029, 0x49),
      (1030, 0x4E), (1031, 0x20), (1032, 0x20), (1033, 0x20), (1034, 0x20), (1035, 0x08),
      (1056, 0xE5), (1088, 0x4E), (1089, 0x4F), (1090, 0x54), (1091, 0x45), (1092, 0x20),
      (1093, 0x20), (1094, 0x20), (1095, 0x20), (1096, 0x54), (1097, 0x58), (1098, 0x54),
      (1099, 0x20), (1114, 2), (1116, 2), (1536, 0x68), (1537, 0x69)] :
        List (ℕ × UInt8)).lookup address).getD 0))
  else none

def smallVolume : Volume := Volume.mount smallDevice (by decide +kernel)

end DoomsdayModules.Fat16.Image
