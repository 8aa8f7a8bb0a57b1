import DoomsdayModules.Fat16.Walk

/-!
# The regions of an image

The boot sector divides an image into the tables, the root directory and the
data.  Cluster numbers are compared with the final ones and with nothing else:
a number the table has no entry for is looked up behind the first table, a
number beyond the volume is read beyond its last sector, and the numbers 0 and 1
lie in front of the data, where subtracting 2 wraps around.
-/

namespace DoomsdayModules.Fat16.Regions

open DoomsdayModules.EarlyExit DoomsdayModules.Fat16.Image DoomsdayModules.Fat16.Walk

/-! ## The boot sector -/

def bootSector (volume : Volume) : List UInt8 := (sbBread volume.device 512 0).getD []

/-- `sectors_per_FAT`. -/
def sectorsPerFat (volume : Volume) : ℕ := le16 (bootSector volume) 22

/-- The volume's sector count, in `sectors_per_volume_u16` if it fits there and
in `sectors_per_volume_u32` otherwise. -/
def sectorCount (volume : Volume) : ℕ :=
  if le16 (bootSector volume) 19 = 0 then le32 (bootSector volume) 32
  else le16 (bootSector volume) 19

theorem sectorCount_lt (volume : Volume) : sectorCount volume < 2 ^ 32 := by
  have hsmall := le16_lt (bootSector volume) 19
  have hlarge := le32_lt (bootSector volume) 32
  rw [sectorCount]
  split <;> omega

theorem dataStart_lt (volume : Volume) : volume.sbi.dataStart < 2 ^ 25 := by
  obtain ⟨-, -, -, -, hdata, -⟩ := fillSuper_ok volume.mounted
  rw [hdata]
  exact rootSector_lt volume

/-! ## Sectors that are read -/

/-- The sector `fat16_next_cluster` reads. -/
def tableSector (volume : Volume) (cluster : ℕ) : ℕ :=
  volume.sbi.fatStart + cluster / (volume.sbi.bytesPerSector / 2)

/-- The sectors `fat16_read_cluster` reads. -/
def clusterSectors (volume : Volume) (cluster : ℕ) : List ℕ :=
  (List.range volume.sbi.sectorsPerCluster).map fun i =>
    u32 (clusterSector volume.sbi.dataStart cluster volume.sbi.sectorsPerCluster + i)

theorem nextCluster_isOk_iff (volume : Volume) (cluster : ℕ) :
    (nextCluster volume cluster).isOk = true ↔
      ∃ data, volume.bread (tableSector volume cluster) = some data := by
  simp only [nextCluster, tableSector]
  cases volume.bread (volume.sbi.fatStart + cluster / (volume.sbi.bytesPerSector / 2)) with
  | none => simp [Except.isOk, Except.toBool]
  | some data => simp [Except.isOk, Except.toBool]

theorem foldlM_readSectors_isOk_iff (volume : Volume) (sector : ℕ) (numbers : List ℕ)
    (buf : List UInt8) :
    (numbers.foldlM (readSectors volume sector) buf).isOk = true ↔
      ∀ i ∈ numbers, ∃ data, volume.bread (u32 (sector + i)) = some data := by
  induction numbers generalizing buf with
  | nil => simp [pure, Except.pure, Except.isOk, Except.toBool]
  | cons i numbers ih =>
      cases hdata : volume.bread (u32 (sector + i)) with
      | none =>
          have hround : readSectors volume sector buf i = .error eio := by
            simp only [readSectors, hdata]
          rw [foldlM_cons_of_error numbers hround]
          simp [hdata, Except.isOk, Except.toBool]
      | some data =>
          have hround : readSectors volume sector buf i = .ok (buf ++ data) := by
            simp only [readSectors, hdata]
          rw [foldlM_cons_of_ok numbers hround, ih, List.forall_mem_cons]
          exact (and_iff_right ⟨data, hdata⟩).symm

theorem readCluster_isOk_iff (volume : Volume) (cluster : ℕ) :
    (readCluster volume cluster).isOk = true ↔ cluster < finalCluster ∧
      ∀ sector ∈ clusterSectors volume cluster, ∃ data, volume.bread sector = some data := by
  simp only [readCluster]
  split
  · rename_i hfinal
    exact iff_of_false (by simp [Except.isOk, Except.toBool])
      fun hboth => absurd hboth.1 (Nat.not_lt.mpr hfinal)
  · rename_i hcluster
    rw [foldlM_readSectors_isOk_iff, and_iff_right (Nat.not_le.mp hcluster), clusterSectors,
      List.forall_mem_map]

/-! ## Containment -/

/-- A table entry comes from the first table, or an error is returned. -/
def TableContained (volume : Volume) (cluster : ℕ) : Prop :=
  (nextCluster volume cluster).isOk = true →
    volume.sbi.fatStart ≤ tableSector volume cluster ∧
      tableSector volume cluster < volume.sbi.fatStart + sectorsPerFat volume

/-- The bytes of a cluster come from the data region, or an error is returned. -/
def DataContained (volume : Volume) (cluster : ℕ) : Prop :=
  (readCluster volume cluster).isOk = true → ∀ sector ∈ clusterSectors volume cluster,
    volume.sbi.dataStart ≤ sector ∧ sector < sectorCount volume

/-- The first table has an entry for the cluster, or the sector cannot be read. -/
def TableHolds (volume : Volume) (cluster : ℕ) : Prop :=
  volume.bread (tableSector volume cluster) = none ∨
    cluster < sectorsPerFat volume * (volume.sbi.bytesPerSector / 2)

/-- The cluster is not read, or has no sectors, or ends inside the volume.  The
number 0 may wrap around to the last sectors of a volume of 2^32 sectors. -/
def VolumeHolds (volume : Volume) (cluster : ℕ) : Prop :=
  finalCluster ≤ cluster ∨
    (∃ sector ∈ clusterSectors volume cluster, volume.bread sector = none) ∨
    volume.sbi.sectorsPerCluster = 0 ∨
    (2 ≤ cluster ∧ volume.sbi.dataStart + (cluster - 1) * volume.sbi.sectorsPerCluster ≤
      sectorCount volume) ∨
    (cluster = 0 ∧ volume.sbi.dataStart ≤ volume.sbi.sectorsPerCluster ∧
      2 ^ 32 + volume.sbi.dataStart - volume.sbi.sectorsPerCluster ≤ sectorCount volume)

theorem tableContained_iff (volume : Volume) (cluster : ℕ) :
    TableContained volume cluster ↔ TableHolds volume cluster := by
  rw [TableContained, nextCluster_isOk_iff, TableHolds]
  cases hdata : volume.bread (tableSector volume cluster) with
  | none => simp
  | some data =>
      have hsize := (sbBread_validBlocksize hdata).2.1
      have hentries : 0 < volume.sbi.bytesPerSector / 2 := by omega
      have hindex : cluster / (volume.sbi.bytesPerSector / 2) < sectorsPerFat volume ↔
          cluster < sectorsPerFat volume * (volume.sbi.bytesPerSector / 2) :=
        Nat.div_lt_iff_lt_mul hentries
      rw [← hindex]
      simp [tableSector]

/-! ## Numbers of sectors -/

section Numbers

variable {dataStart spc count cluster : ℕ}

/-- From 2 on the clusters lie one behind the other. -/
theorem clusterSector_of_two_le (hstart : dataStart < 2 ^ 25) (hspc : spc < 2 ^ 8)
    (hlow : 2 ≤ cluster) (hcluster : cluster < 2 ^ 16) {i : ℕ} (hi : i < spc) :
    u32 (clusterSector dataStart cluster spc + i) = dataStart + (cluster - 2) * spc + i := by
  have hindex : u32 (cluster + 2 ^ 32 - 2) = cluster - 2 := by
    rw [u32]
    omega
  have hproduct : (cluster - 2) * spc ≤ 2 ^ 16 * 2 ^ 8 := Nat.mul_le_mul (by omega) hspc.le
  have hfirst : u32 (dataStart + (cluster - 2) * spc) = dataStart + (cluster - 2) * spc :=
    u32_of_lt (by omega)
  rw [clusterSector, hindex, hfirst, u32_of_lt (by omega)]

theorem clusterSector_zero (i : ℕ) :
    u32 (clusterSector dataStart 0 spc + i) = (dataStart + (2 ^ 32 - 2) * spc + i) % 2 ^ 32 := by
  simp only [clusterSector, u32]
  omega

theorem clusterSector_one (i : ℕ) :
    u32 (clusterSector dataStart 1 spc + i) = (dataStart + (2 ^ 32 - 1) * spc + i) % 2 ^ 32 := by
  simp only [clusterSector, u32]
  omega

theorem inside_of_two_le_iff (hstart : dataStart < 2 ^ 25) (hspc : spc < 2 ^ 8) (hpos : 0 < spc)
    (hlow : 2 ≤ cluster) (hcluster : cluster < 2 ^ 16) :
    (∀ i < spc, dataStart ≤ u32 (clusterSector dataStart cluster spc + i) ∧
        u32 (clusterSector dataStart cluster spc + i) < count) ↔
      dataStart + (cluster - 1) * spc ≤ count := by
  have hnext : (cluster - 1) * spc = (cluster - 2) * spc + spc := by
    obtain ⟨k, rfl⟩ := Nat.exists_eq_add_of_le hlow
    have hfront : 2 + k - 1 = 2 + k - 2 + 1 := by omega
    rw [hfront, Nat.succ_mul]
  constructor
  · intro hinside
    have hlast := (hinside (spc - 1) (by omega)).2
    rw [clusterSector_of_two_le hstart hspc hlow hcluster (by omega)] at hlast
    omega
  · intro hfits i hi
    rw [clusterSector_of_two_le hstart hspc hlow hcluster hi]
    omega

/-- The last sector of cluster 1 is the one in front of the data. -/
theorem not_inside_one (hstart : dataStart < 2 ^ 25) (hpos : 0 < spc) (hcount : count < 2 ^ 32) :
    ¬ ∀ i < spc, dataStart ≤ u32 (clusterSector dataStart 1 spc + i) ∧
      u32 (clusterSector dataStart 1 spc + i) < count := by
  intro hinside
  have hlast := hinside (spc - 1) (by omega)
  rw [clusterSector_one] at hlast
  omega

theorem inside_zero_iff (hstart : dataStart < 2 ^ 25) (hspc : spc < 2 ^ 8) (hpos : 0 < spc) :
    (∀ i < spc, dataStart ≤ u32 (clusterSector dataStart 0 spc + i) ∧
        u32 (clusterSector dataStart 0 spc + i) < count) ↔
      dataStart ≤ spc ∧ 2 ^ 32 + dataStart - spc ≤ count := by
  simp only [clusterSector_zero]
  constructor
  · intro hinside
    have hlast := hinside (spc - 1) (by omega)
    omega
  · intro hwrap i hi
    omega

end Numbers

theorem forall_clusterSectors (volume : Volume) (cluster : ℕ) (good : ℕ → Prop) :
    (∀ sector ∈ clusterSectors volume cluster, good sector) ↔
      ∀ i < volume.sbi.sectorsPerCluster, good (u32 (clusterSector volume.sbi.dataStart cluster
        volume.sbi.sectorsPerCluster + i)) := by
  rw [clusterSectors, List.forall_mem_map]
  simp only [List.mem_range]

theorem dataContained_iff (volume : Volume) {cluster : ℕ} (hcluster : cluster < 2 ^ 16) :
    DataContained volume cluster ↔ VolumeHolds volume cluster := by
  have hstart := dataStart_lt volume
  have hspc := volume.sbi.sectorsPerCluster_lt
  have hcount := sectorCount_lt volume
  rw [DataContained, readCluster_isOk_iff, VolumeHolds]
  by_cases hfinal : finalCluster ≤ cluster
  · exact iff_of_true (fun hboth => absurd hboth.1 (Nat.not_lt.mpr hfinal)) (.inl hfinal)
  rw [or_iff_right hfinal]
  by_cases hunread : ∃ sector ∈ clusterSectors volume cluster, volume.bread sector = none
  · refine iff_of_true (fun hboth => ?_) (.inl hunread)
    obtain ⟨sector, hsector, hnone⟩ := hunread
    obtain ⟨data, hdata⟩ := hboth.2 sector hsector
    rw [hnone] at hdata
    cases hdata
  rw [or_iff_right hunread]
  have hread : ∀ sector ∈ clusterSectors volume cluster, ∃ data, volume.bread sector = some data :=
    fun sector hsector => Option.ne_none_iff_exists'.mp fun hnone =>
      hunread ⟨sector, hsector, hnone⟩
  rw [imp_iff_right ⟨Nat.not_le.mp hfinal, hread⟩, forall_clusterSectors]
  rcases Nat.eq_zero_or_pos volume.sbi.sectorsPerCluster with hzero | hpos
  · exact iff_of_true (fun i hi => by omega) (.inl hzero)
  rw [or_iff_right hpos.ne']
  rcases Nat.lt_or_ge cluster 2 with hfront | hlow
  · rw [or_iff_right fun htwo => absurd htwo.1 (Nat.not_le.mpr hfront)]
    rcases Nat.le_one_iff_eq_zero_or_eq_one.mp (Nat.le_of_lt_succ hfront) with rfl | rfl
    · rw [inside_zero_iff hstart hspc hpos, and_iff_right rfl]
    · exact iff_of_false (not_inside_one hstart hpos hcount) fun hwrap => absurd hwrap.1 (by decide)
  · rw [inside_of_two_le_iff hstart hspc hpos hlow hcluster, and_iff_right hlow,
      or_iff_left fun hwrap => by omega]

theorem Path.last_lt {volume : Volume} {cluster last : ℕ} {links : List Link}
    (hpath : Path volume cluster links last) (hcluster : cluster < 2 ^ 16) : last < 2 ^ 16 := by
  induction hpath with
  | here _ => exact hcluster
  | step _ _ hnext _ ih => exact ih (nextCluster_lt hnext)

/-- Wherever a chain leads, the table entry of a cluster is read from the first
table exactly if that has an entry for it, and its bytes from the data region
exactly if it is one of the clusters of the volume, unless an error is returned. -/
theorem contained_iff (volume : Volume) {startCluster last : ℕ} {links : List Link}
    (hstart : startCluster < 2 ^ 16) (hpath : Path volume startCluster links last) :
    (TableContained volume last ↔ TableHolds volume last) ∧
      (DataContained volume last ↔ VolumeHolds volume last) :=
  ⟨tableContained_iff volume last, dataContained_iff volume (Path.last_lt hpath hstart)⟩

/-! ## The cluster in front of the data -/

/-- The small image with its sector count of 4 in the boot sector. -/
def countedDevice : Device := fun address => if address = 19 then some 4 else smallDevice address

def countedVolume : Volume := Volume.mount countedDevice (by decide +kernel)

theorem contained_countedVolume :
    (TableContained countedVolume 2 ↔ TableHolds countedVolume 2) ∧
      (DataContained countedVolume 2 ↔ VolumeHolds countedVolume 2) :=
  contained_iff countedVolume (by decide) (.here 2)

/-- Cluster 1 of the small image is read from its root directory. -/
theorem not_contained_countedVolume :
    ¬ ∀ (volume : Volume) (startCluster : ℕ) (links : List Link) (last : ℕ),
      startCluster < 2 ^ 16 → Path volume startCluster links last →
      TableContained volume last ∧ DataContained volume last := by
  intro hclaim
  have hinside := (hclaim countedVolume 1 [] 1 (by decide) (.here 1)).2 (by decide +kernel)
  exact absurd (hinside 2 (by decide +kernel)) (by decide +kernel)

end DoomsdayModules.Fat16.Regions
