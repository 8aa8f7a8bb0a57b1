import DoomsdayModules.Fat16.ReadFile
import DoomsdayModules.Fat16.Search

/-!
# Divisions

The sector size of the boot sector is divided by, as it stands and in units of
entries of a directory or of the table.  A size of zero traps in the mount
itself.  A size that is not zero but too small for an entry is none the kernel
reads blocks of: the root directory is then empty or unreadable, and no
directory or file is ever reached in which a unit would be divided by.
-/

namespace DoomsdayModules.Fat16.Divisors

open DoomsdayModules.EarlyExit
open DoomsdayModules.Fat16.Image DoomsdayModules.Fat16.Directory DoomsdayModules.Fat16.Lookup
open DoomsdayModules.Fat16.ReadFile DoomsdayModules.Fat16.Walk DoomsdayModules.Fat16.Search

/-! ## Divisions that trap -/

/-- The trap of a division by zero. -/
inductive DivideError
  | trap
  deriving DecidableEq

def divide (dividend divisor : ℕ) : Except DivideError ℕ :=
  if divisor = 0 then .error .trap else .ok (dividend / divisor)

def remainder (dividend divisor : ℕ) : Except DivideError ℕ :=
  if divisor = 0 then .error .trap else .ok (dividend % divisor)

theorem divide_eq {divisor : ℕ} (hdivisor : divisor ≠ 0) (dividend : ℕ) :
    divide dividend divisor = .ok (dividend / divisor) := if_neg hdivisor

theorem remainder_eq {divisor : ℕ} (hdivisor : divisor ≠ 0) (dividend : ℕ) :
    remainder dividend divisor = .ok (dividend % divisor) := if_neg hdivisor

/-- Why a loop is left: it traps, or the function returns. -/
inductive Leave (ε : Type*)
  | trap
  | ret (reply : ε)

/-! ## The functions with their divisions checked -/

namespace Checked

variable {σ : Type*}

def rootSectors (rootDirEntries bytesPerSector : ℕ) : Except DivideError ℕ :=
  divide (rootDirEntries * 32 + bytesPerSector - 1) bytesPerSector

def entrySector (clusterSector i entriesPerSector : ℕ) : Except DivideError ℕ :=
  (divide i entriesPerSector).map fun sectors => u32 (clusterSector + sectors)

def entryIdx (i entriesPerSector : ℕ) : Except DivideError ℕ := remainder i entriesPerSector

def nextCluster (volume : Volume) (cluster : ℕ) : Except DivideError (Except Int ℕ) :=
  let entPerSec := volume.sbi.bytesPerSector / 2
  match divide cluster entPerSec, remainder cluster entPerSec with
  | .ok sectors, .ok offset =>
      match volume.bread (volume.sbi.fatStart + sectors) with
      | none => .ok (.error eio)
      | some data => .ok (.ok (le16 data (2 * offset)))
  | _, _ => .error .trap

def walkRoot (volume : Volume) (cb : DirentCb σ) (walk : σ × ℕ) :
    Except (Leave (Int × σ)) (σ × ℕ) :=
  match rootSectors volume.sbi.rootDirEntries volume.sbi.bytesPerSector with
  | .error _ => .error .trap
  | .ok count => ((List.range count).foldlM (walkSector volume cb) walk).mapError .ret

/-- The place of an entry is computed for the callback, behind the test for the
end marker. -/
def visit (cb : DirentCb σ) (de : Direntry) (cs i eps : ℕ) (walk : σ × ℕ) :
    Except (Leave (Int × σ)) (σ × ℕ) :=
  if de.isEnd then .error (.ret (0, walk.1))
  else
    match entrySector cs i eps, entryIdx i eps with
    | .ok sector, .ok idx => (Directory.visit cb de sector idx walk).mapError .ret
    | _, _ => .error .trap

def walkEntries (volume : Volume) (cb : DirentCb σ) (cluster : ℕ) (buf : List UInt8)
    (walk : σ × ℕ) : Except (Leave (Int × σ)) (σ × ℕ) :=
  let eps := entriesPerSector volume.sbi.bytesPerSector
  let cs := clusterSector volume.sbi.dataStart cluster volume.sbi.sectorsPerCluster
  (List.range (entriesPerCluster volume.sbi.bytesPerCluster)).foldlM
    (fun walk i => visit cb (direntryAt buf i) cs i eps walk) walk

def walkClusters (volume : Volume) (cb : DirentCb σ) :
    ℕ → ℕ → σ × ℕ → Option (Except (Leave (Int × σ)) (σ × ℕ))
  | 0, _, _ => none
  | fuel + 1, cluster, walk =>
      if cluster < finalCluster then
        match readCluster volume cluster with
        | .error _ => some (.error (.ret (eio, walk.1)))
        | .ok buf =>
            match walkEntries volume cb cluster buf walk with
            | .error leave => some (.error leave)
            | .ok walk =>
                match nextCluster volume cluster with
                | .error _ => some (.error .trap)
                | .ok (.error _) => some (.error (.ret (eio, walk.1)))
                | .ok (.ok next) => walkClusters volume cb fuel next walk
      else some (.ok walk)

def walkReply : Except (Leave (Int × σ)) (σ × ℕ) → Except DivideError (Int × σ)
  | .error .trap => .error .trap
  | .error (.ret reply) => .ok reply
  | .ok walk => .ok (0, walk.1)

def dirWalk (fuel : ℕ) (volume : Volume) (startCluster : ℕ) (allocated : Bool) (cb : DirentCb σ)
    (cbdata : σ) : Option (Except DivideError (Int × σ)) :=
  if startCluster = 0 then some (walkReply (walkRoot volume cb (cbdata, 0)))
  else if allocated then
    (walkClusters volume cb fuel (startCluster % 2 ^ 16) (cbdata, 0)).map walkReply
  else some (.ok (enomem, cbdata))

def readLoop (volume : Volume) (requested : ℕ) :
    ℕ → ℕ → ℕ → IovIter → Option (Except DivideError (Except Int ℕ × IovIter))
  | 0, _, _, _ => none
  | fuel + 1, cluster, bytesRead, to_ =>
      if bytesRead < requested ∧ cluster < finalCluster then
        match readCluster volume cluster with
        | .error _ => some (.ok (.error eio, to_))
        | .ok buf =>
            let fromCluster :=
              requestedFromCluster volume.sbi.bytesPerCluster (requested - bytesRead)
            let copy := copyToIter (buf.take fromCluster) to_
            if copy.1 ≠ fromCluster then some (.ok (.error eio, copy.2))
            else
              match nextCluster volume cluster with
              | .error _ => some (.error .trap)
              | .ok (.error _) => some (.ok (.error eio, copy.2))
              | .ok (.ok next) => readLoop volume requested fuel next (bytesRead + copy.1) copy.2
      else some (.ok (.ok bytesRead, to_))

def penguinFat16ReadIter (fuel : ℕ) (volume : Volume) (ino : InodeInfo) (allocated : Bool)
    (kiPos : ℕ) (to_ : IovIter) : Option (Except DivideError ReadReply) :=
  if allocated then
    match readLoop volume (bytesRequested to_.count ino.fileSize kiPos) fuel ino.startCluster 0 to_
      with
    | none => none
    | some (.error _) => some (.error .trap)
    | some (.ok (.error code, to_)) => some (.ok ⟨code, kiPos, to_⟩)
    | some (.ok (.ok bytesRead, to_)) => some (.ok ⟨bytesRead, kiPos + bytesRead, to_⟩)
  else some (.ok ⟨enomem, kiPos, to_⟩)

end Checked

/-! ## Sizes that are read -/

variable {σ : Type*} {volume : Volume}

theorem entPerSec_ne_zero (hsize : ValidBlocksize volume.sbi.bytesPerSector) :
    volume.sbi.bytesPerSector / 2 ≠ 0 := by
  have hlow := hsize.2.1
  omega

theorem entriesPerSector_ne_zero (hsize : ValidBlocksize volume.sbi.bytesPerSector) :
    entriesPerSector volume.sbi.bytesPerSector ≠ 0 := by
  have hlow := hsize.2.1
  rw [entriesPerSector]
  omega

theorem checked_nextCluster (hsize : ValidBlocksize volume.sbi.bytesPerSector) (cluster : ℕ) :
    Checked.nextCluster volume cluster = .ok (nextCluster volume cluster) := by
  have hdivisor := entPerSec_ne_zero hsize
  simp only [Checked.nextCluster, divide_eq hdivisor, remainder_eq hdivisor, nextCluster]
  cases volume.bread (volume.sbi.fatStart + cluster / (volume.sbi.bytesPerSector / 2)) <;> rfl

theorem checked_visit (hsize : ValidBlocksize volume.sbi.bytesPerSector) (cb : DirentCb σ)
    (de : Direntry) (cs i : ℕ) (walk : σ × ℕ) :
    Checked.visit cb de cs i (entriesPerSector volume.sbi.bytesPerSector) walk =
      (visit cb de (entrySector cs i (entriesPerSector volume.sbi.bytesPerSector))
        (entryIdx i (entriesPerSector volume.sbi.bytesPerSector)) walk).mapError .ret := by
  have hdivisor := entriesPerSector_ne_zero hsize
  rw [Checked.visit]
  split
  · rename_i hend
    rw [visit, if_pos hend]
    rfl
  · simp only [Checked.entrySector, Checked.entryIdx, divide_eq hdivisor, remainder_eq hdivisor]
    rfl

theorem checked_walkEntries (hsize : ValidBlocksize volume.sbi.bytesPerSector) (cb : DirentCb σ)
    (cluster : ℕ) (buf : List UInt8) (walk : σ × ℕ) :
    Checked.walkEntries volume cb cluster buf walk =
      (walkEntries volume cb cluster buf walk).mapError .ret := by
  simp only [Checked.walkEntries, checked_visit hsize]
  exact foldlM_mapError Leave.ret _ _ walk

/-- On a volume whose sectors can be read no loop traps. -/
theorem checked_walkClusters (hsize : ValidBlocksize volume.sbi.bytesPerSector) (cb : DirentCb σ)
    (fuel cluster : ℕ) (walk : σ × ℕ) :
    Checked.walkClusters volume cb fuel cluster walk =
      (walkClusters volume cb fuel cluster walk).map fun result => result.mapError .ret := by
  induction fuel generalizing cluster walk with
  | zero => rfl
  | succ fuel ih =>
      rw [Checked.walkClusters, walkClusters]
      split
      · cases hdata : readCluster volume cluster with
        | error code => rfl
        | ok buf =>
            simp only [checked_walkEntries hsize]
            cases hround : walkEntries volume cb cluster buf walk with
            | error reply => rfl
            | ok after =>
                simp only [Except.mapError, checked_nextCluster hsize]
                cases hnext : nextCluster volume cluster with
                | error code => rfl
                | ok next => exact ih next after
      · rfl

theorem checked_walkReply (result : Except (Int × σ) (σ × ℕ)) :
    Checked.walkReply (result.mapError .ret) = .ok (walkReply result) := by
  cases result <;> rfl

theorem checked_walkRoot (cb : DirentCb σ) (walk : σ × ℕ) :
    Checked.walkRoot volume cb walk = (walkRoot volume cb walk).mapError .ret := by
  simp only [Checked.walkRoot, Checked.rootSectors,
    divide_eq volume.sbi.bytesPerSector_pos.ne']
  rfl

/-- The walk of the root divides by the sector size only. -/
theorem checked_dirWalk_root (fuel : ℕ) (allocated : Bool) (cb : DirentCb σ) (cbdata : σ) :
    Checked.dirWalk fuel volume 0 allocated cb cbdata =
      (dirWalk fuel volume 0 allocated cb cbdata).map .ok := by
  rw [Checked.dirWalk, dirWalk, if_pos rfl, if_pos rfl, checked_walkRoot, checked_walkReply]
  rfl

theorem checked_dirWalk (hsize : ValidBlocksize volume.sbi.bytesPerSector)
    (fuel startCluster : ℕ) (allocated : Bool) (cb : DirentCb σ) (cbdata : σ) :
    Checked.dirWalk fuel volume startCluster allocated cb cbdata =
      (dirWalk fuel volume startCluster allocated cb cbdata).map .ok := by
  by_cases hstart : startCluster = 0
  · subst hstart
    exact checked_dirWalk_root fuel allocated cb cbdata
  · rw [Checked.dirWalk, dirWalk, if_neg hstart, if_neg hstart]
    split
    · rw [checked_walkClusters hsize, Option.map_map, Option.map_map]
      congr 1
      funext result
      exact checked_walkReply result
    · rfl

theorem checked_readLoop (hsize : ValidBlocksize volume.sbi.bytesPerSector)
    (requested fuel cluster bytesRead : ℕ) (to_ : IovIter) :
    Checked.readLoop volume requested fuel cluster bytesRead to_ =
      (readLoop volume requested fuel cluster bytesRead to_).map .ok := by
  induction fuel generalizing cluster bytesRead to_ with
  | zero => rfl
  | succ fuel ih =>
      rw [Checked.readLoop, readLoop]
      split
      · cases hdata : readCluster volume cluster with
        | error code => rfl
        | ok buf =>
            simp only [checked_nextCluster hsize]
            split
            · rfl
            · cases hnext : nextCluster volume cluster with
              | error code => rfl
              | ok next => exact ih _ _ _
      · rfl

theorem checked_readIter (hsize : ValidBlocksize volume.sbi.bytesPerSector) (fuel : ℕ)
    (ino : InodeInfo) (allocated : Bool) (kiPos : ℕ) (to_ : IovIter) :
    Checked.penguinFat16ReadIter fuel volume ino allocated kiPos to_ =
      (penguinFat16ReadIter fuel volume ino allocated kiPos to_).map .ok := by
  rw [Checked.penguinFat16ReadIter, penguinFat16ReadIter]
  split
  · rw [checked_readLoop hsize]
    cases readLoop volume (bytesRequested to_.count ino.fileSize kiPos) fuel ino.startCluster 0
      to_ with
    | none => rfl
    | some reply =>
        obtain ⟨result, after⟩ := reply
        cases result <;> rfl
  · rfl

/-! ## Inodes that are reached -/

/-- The inodes of a mounted volume: the root, and what lookups in directories return. -/
inductive Reached (volume : Volume) : Inode → Prop
  | root {inode : Inode} (hroot : penguinFat16GetRootInode true = .ok inode) :
      Reached volume inode
  | lookup {dir inode : Inode} {fuel : ℕ} {allocated memory : Bool} {name : List UInt8}
      (hdir : Reached volume dir) (htype : dir.dType = .dir)
      (hlookup : penguinFat16Lookup fuel volume dir.info.startCluster allocated memory name =
        some (.ok (some (.ok inode)))) : Reached volume inode

/-- Neither a walk of a directory nor a read of a file divides by zero. -/
structure NeverTraps (volume : Volume) (inode : Inode) : Prop where
  walk : inode.dType = .dir → ∀ (σ : Type) fuel allocated (cb : DirentCb σ) cbdata,
    Checked.dirWalk fuel volume inode.info.startCluster allocated cb cbdata ≠
      some (.error .trap)
  read : inode.dType = .reg → ∀ fuel allocated kiPos to_,
    Checked.penguinFat16ReadIter fuel volume inode.info allocated kiPos to_ ≠
      some (.error .trap)

theorem map_ok_ne_trap {α : Type*} (result : Option α) :
    result.map Except.ok ≠ some (.error DivideError.trap) := by
  cases result <;> simp

theorem neverTraps_of_validBlocksize (hsize : ValidBlocksize volume.sbi.bytesPerSector)
    (inode : Inode) : NeverTraps volume inode where
  walk _ σ fuel allocated cb cbdata := by
    rw [checked_dirWalk hsize]
    exact map_ok_ne_trap _
  read _ fuel allocated kiPos to_ := by
    rw [checked_readIter hsize]
    exact map_ok_ne_trap _

theorem startCluster_root {inode : Inode} (hroot : penguinFat16GetRootInode true = .ok inode) :
    inode.info.startCluster = 0 ∧ inode.dType = .dir := by
  cases hroot
  exact ⟨rfl, rfl⟩

theorem neverTraps_root {inode : Inode} (hroot : penguinFat16GetRootInode true = .ok inode) :
    NeverTraps volume inode := by
  obtain ⟨hstart, hdir⟩ := startCluster_root hroot
  refine ⟨fun _ σ fuel allocated cb cbdata => ?_, fun htype => ?_⟩
  · rw [hstart, checked_dirWalk_root]
    exact map_ok_ne_trap _
  · rw [hdir] at htype
    cases htype

/-- A slot of the root was read with a block size the kernel reads. -/
theorem validBlocksize_of_visited_root {slots : List Slot} {slot : Slot}
    (hvisited : Visited volume 0 slots) (hslot : slot ∈ slots) :
    ValidBlocksize volume.sbi.bytesPerSector := by
  cases hvisited with
  | root sectors _ hread =>
      obtain ⟨⟨s, data⟩, hsector, -⟩ := List.mem_flatMap.mp hslot
      exact sbBread_validBlocksize (List.forall₂_zip hread hsector)
  | clusters hstart _ _ => exact absurd rfl hstart

/-- Where the kernel reads no sector, the root is all there is. -/
theorem Reached.eq_root {inode : Inode} (hreached : Reached volume inode)
    (hsize : ¬ ValidBlocksize volume.sbi.bytesPerSector) :
    penguinFat16GetRootInode true = .ok inode := by
  induction hreached with
  | root hroot => exact hroot
  | @lookup dir inode fuel allocated memory name _ _ hlookup ih =>
      rw [(startCluster_root ih).1] at hlookup
      rcases penguinFat16Lookup_cases hlookup with
        ⟨hstart, -, -⟩ | ⟨-, ⟨slot, ⟨before, after, hvisited, -⟩, -⟩ | ⟨-, hreply | hreply⟩⟩
      · exact absurd rfl hstart
      · have hslot : slot ∈ before ++ slot :: after :=
          List.mem_append_right _ List.mem_cons_self
        exact absurd (validBlocksize_of_visited_root hvisited hslot) hsize
      · cases hreply
      · cases hreply

theorem Reached.neverTraps {inode : Inode} (hreached : Reached volume inode) :
    NeverTraps volume inode := by
  by_cases hsize : ValidBlocksize volume.sbi.bytesPerSector
  · exact neverTraps_of_validBlocksize hsize inode
  · exact neverTraps_root (hreached.eq_root hsize)

theorem fillSuper_trap_iff {device : Device} {bpb : List UInt8}
    (hread : sbBread device 512 0 = some bpb) :
    fillSuper device = .error .divideError ↔ le16 bpb 11 = 0 := by
  unfold fillSuper
  rw [hread]
  by_cases hzero : le16 bpb 11 = 0
  · dsimp only
    rw [dif_pos hzero]
    exact iff_of_true rfl hzero
  · dsimp only
    rw [dif_neg hzero]
    exact iff_of_false (fun htrap => by cases htrap) hzero

/-- The mount does not divide by zero and leaves a volume in which nothing that
can be reached does, exactly if the sector size in the boot sector is not zero. -/
theorem no_divide_error_iff {device : Device} {bpb : List UInt8}
    (hread : sbBread device 512 0 = some bpb) :
    (fillSuper device ≠ .error .divideError ∧
      ∀ volume : Volume, volume.device = device → ∀ inode, Reached volume inode →
        NeverTraps volume inode) ↔ le16 bpb 11 ≠ 0 := by
  rw [ne_eq, fillSuper_trap_iff hread]
  exact and_iff_left fun volume _ inode hreached => hreached.neverTraps

theorem no_divide_error_smallDevice :
    ∃ bpb, sbBread smallDevice 512 0 = some bpb ∧
      ((fillSuper smallDevice ≠ .error .divideError ∧
        ∀ volume : Volume, volume.device = smallDevice → ∀ inode, Reached volume inode →
          NeverTraps volume inode) ↔ le16 bpb 11 ≠ 0) := by
  obtain ⟨bpb, hread⟩ := Option.isSome_iff_exists.mp
    (by decide +kernel : (sbBread smallDevice 512 0).isSome = true)
  exact ⟨bpb, hread, no_divide_error_iff hread⟩

/-- A boot sector of zeros traps in the mount. -/
theorem not_no_divide_error_zeros :
    ¬ ∀ (device : Device) (bpb : List UInt8), sbBread device 512 0 = some bpb →
      fillSuper device ≠ .error .divideError ∧
        ∀ volume : Volume, volume.device = device → ∀ inode, Reached volume inode →
          NeverTraps volume inode := by
  intro hclaim
  have hzeros : (sbBread (fun _ => some 0) 512 0).map (fun bpb => le16 bpb 11) = some 0 := by
    decide +kernel
  obtain ⟨bpb, hread, hsize⟩ := Option.map_eq_some_iff.mp hzeros
  exact (hclaim _ bpb hread).1 ((fillSuper_trap_iff hread).mpr hsize)

end DoomsdayModules.Fat16.Divisors
