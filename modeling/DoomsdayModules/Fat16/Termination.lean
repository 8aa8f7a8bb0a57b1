import DoomsdayModules.Core.FiniteOrbit
import DoomsdayModules.Fat16.ReadFile
import DoomsdayModules.Fat16.Search

/-!
# Loops over the allocation table

The loops over clusters leave when the table comes to a final cluster, when
something cannot be read, or when a visit returns.  Nothing bounds them on a
table that leads back to a cluster: a walk that finds nothing to stop at on the
way round goes on for ever.  A read stops when it has its bytes, and each
cluster brings it some, unless clusters have no sectors.
-/

namespace DoomsdayModules.Fat16.Termination

open DoomsdayModules.EarlyExit DoomsdayModules.FiniteOrbit
open DoomsdayModules.Fat16.Image DoomsdayModules.Fat16.Directory DoomsdayModules.Fat16.Readdir
open DoomsdayModules.Fat16.Lookup DoomsdayModules.Fat16.ReadFile
open DoomsdayModules.Fat16.Walk DoomsdayModules.Fat16.Search

/-! ## Following the table -/

/-- From a readable cluster whose slots all pass on to the next one. -/
def advance (volume : Volume) (pass : Slot → Prop) [DecidablePred pass] (cluster : ℕ) :
    Option ℕ :=
  if cluster < finalCluster then
    match readCluster volume cluster with
    | .error _ => none
    | .ok data =>
        if ∀ slot ∈ linkSlots volume ⟨cluster, data⟩, pass slot then
          (nextCluster volume cluster).toOption
        else none
  else none

variable {volume : Volume}

theorem advance_eq_some_iff {pass : Slot → Prop} [DecidablePred pass] {cluster next : ℕ} :
    advance volume pass cluster = some next ↔ cluster < finalCluster ∧
      ∃ data, readCluster volume cluster = .ok data ∧
        (∀ slot ∈ linkSlots volume ⟨cluster, data⟩, pass slot) ∧
        nextCluster volume cluster = .ok next := by
  rw [advance]
  split
  · rename_i hcluster
    rw [and_iff_right hcluster]
    cases hread : readCluster volume cluster with
    | error code => simp
    | ok data =>
        simp only [Except.ok.injEq, exists_eq_left']
        split
        · rename_i hpass
          rw [and_iff_right hpass]
          cases nextCluster volume cluster <;> simp [Except.toOption]
        · rename_i hstop
          exact iff_of_false (by simp) fun hboth => hstop hboth.1
  · rename_i hfinal
    exact iff_of_false (by simp) fun hboth => hfinal hboth.1

theorem advance_mem {pass : Slot → Prop} [DecidablePred pass] :
    ∀ cluster next, advance volume pass cluster = some next →
      cluster ∈ Finset.range finalCluster :=
  fun _ _ hadvance => Finset.mem_range.mpr (advance_eq_some_iff.mp hadvance).1

theorem advance_congr {pass pass' : Slot → Prop} [DecidablePred pass] [DecidablePred pass']
    (hsame : ∀ slot, pass slot ↔ pass' slot) : advance volume pass = advance volume pass' := by
  funext cluster
  simp only [advance, hsame]

/-- An orbit of the table comes to an end exactly if it does not return to a cluster. -/
theorem ends_advance_iff (pass : Slot → Prop) [DecidablePred pass] (cluster : ℕ) :
    Ends (advance volume pass) cluster ↔ ¬ Returns (advance volume pass) cluster :=
  ends_iff_not_returns advance_mem cluster

/-! ## Walks -/

variable {σ : Type*} {cb : DirentCb σ}

/-- Rounds that all go on passed no end marker. -/
theorem notEnd_of_foldlM_ok {slots : List Slot} {walk after : σ × ℕ}
    (hloop : slots.foldlM (visitSlot cb) walk = .ok after) :
    ∀ slot ∈ slots, slot.de.isEnd = false := by
  refine forall_of_foldlM_ok (fun slot hend walk => ?_) hloop
  exact ⟨(0, walk.1), by rw [visitSlot, visit, if_pos (by simpa using hend)]⟩

/-- The callback lets exactly the entries pass that `pass` holds of, as long as
its data keep `good`. -/
structure LetsPass (cb : DirentCb σ) (good : σ → Prop) (pass : Slot → Prop) : Prop where
  ret_iff : ∀ slot absIdx data, good data →
    ((cb slot.de slot.sector slot.idx absIdx data).1 = 0 ↔ pass slot)
  keeps : ∀ slot absIdx data, good data → pass slot →
    good (cb slot.de slot.sector slot.idx absIdx data).2

theorem LetsPass.foldlM_ok {good : σ → Prop} {pass : Slot → Prop} (hcb : LetsPass cb good pass)
    {slots : List Slot} {walk : σ × ℕ} (hgood : good walk.1)
    (hpass : ∀ slot ∈ slots, slot.de.isEnd = false ∧ pass slot) :
    ∃ after, slots.foldlM (visitSlot cb) walk = .ok after ∧ good after.1 := by
  induction slots generalizing walk with
  | nil => exact ⟨walk, rfl, hgood⟩
  | cons slot slots ih =>
      obtain ⟨hend, hslot⟩ := hpass slot List.mem_cons_self
      have hret := (hcb.ret_iff slot walk.2 walk.1 hgood).mpr hslot
      have hvisit : visitSlot cb walk slot =
          .ok ((cb slot.de slot.sector slot.idx walk.2 walk.1).2, u32 (walk.2 + 1)) := by
        simp [visitSlot, visit, hend, hret]
      rw [foldlM_cons_of_ok slots hvisit]
      exact ih (hcb.keeps slot walk.2 walk.1 hgood hslot)
        fun later hmem => hpass later (List.mem_cons_of_mem _ hmem)

theorem LetsPass.of_foldlM_ok {good : σ → Prop} {pass : Slot → Prop} (hcb : LetsPass cb good pass)
    {slots : List Slot} {walk after : σ × ℕ} (hgood : good walk.1)
    (hloop : slots.foldlM (visitSlot cb) walk = .ok after) :
    (∀ slot ∈ slots, slot.de.isEnd = false ∧ pass slot) ∧ good after.1 := by
  induction slots generalizing walk with
  | nil =>
      cases hloop
      exact ⟨by simp, hgood⟩
  | cons slot slots ih =>
      obtain ⟨middle, hfirst, hrest⟩ := foldlM_cons_ok hloop
      obtain ⟨hend, hret, rfl⟩ := visitSlot_ok hfirst
      have hslot := (hcb.ret_iff slot walk.2 walk.1 hgood).mp hret
      obtain ⟨hlater, hkept⟩ := ih (hcb.keeps slot walk.2 walk.1 hgood hslot) hrest
      exact ⟨List.forall_mem_cons.mpr ⟨⟨hend, hslot⟩, hlater⟩, hkept⟩

/-- A walk that is still running has come through as many clusters whose slots
all passed: `hpassed` says what passing is, and `good` what the data keep. -/
theorem orbit_of_walkClusters_none {good : σ → Prop} {pass : Slot → Prop} [DecidablePred pass]
    (hpassed : ∀ (slots : List Slot) walk after, good walk.1 →
      slots.foldlM (visitSlot cb) walk = .ok after → (∀ slot ∈ slots, pass slot) ∧ good after.1)
    {fuel cluster : ℕ} {walk : σ × ℕ} (hgood : good walk.1)
    (hrunning : walkClusters volume cb fuel cluster walk = none) :
    (orbit (advance volume pass) fuel cluster).isSome = true := by
  induction fuel generalizing cluster walk with
  | zero => rfl
  | succ fuel ih =>
      obtain ⟨outcome, hround⟩ := exists_round volume cb cluster walk
      rw [walkClusters_of_round hround] at hrunning
      cases hround with
      | final | unread | stopped | lost => cases hrunning
      | goesOn hcluster hread hloop hnext =>
          obtain ⟨hpass, hkept⟩ := hpassed _ _ _ hgood hloop
          have hadvance := advance_eq_some_iff.mpr ⟨hcluster, _, hread, hpass, hnext⟩
          rw [orbit, hadvance, Option.bind_some]
          exact ih hkept hrunning

/-- As long as the table leads on through clusters that pass, the walk is running. -/
theorem walkClusters_none_of_orbit {good : σ → Prop} {pass : Slot → Prop} [DecidablePred pass]
    (hcb : LetsPass cb good pass) {fuel cluster : ℕ} {walk : σ × ℕ} (hgood : good walk.1)
    (horbit : (orbit (advance volume fun slot => slot.de.isEnd = false ∧ pass slot) fuel
      cluster).isSome = true) :
    walkClusters volume cb fuel cluster walk = none := by
  induction fuel generalizing cluster walk with
  | zero => rfl
  | succ fuel ih =>
      rw [orbit] at horbit
      obtain ⟨next, hadvance⟩ := Option.isSome_iff_exists.mp (Option.isSome_of_isSome_bind horbit)
      obtain ⟨hcluster, data, hread, hpass, hnext⟩ := advance_eq_some_iff.mp hadvance
      obtain ⟨after, hloop, hkept⟩ := hcb.foldlM_ok hgood hpass
      rw [hadvance, Option.bind_some] at horbit
      rw [walkClusters_of_round (.goesOn hcluster hread hloop hnext)]
      exact ih hkept horbit

/-- A walk through clusters with such a callback returns exactly if the table
does not lead back to a cluster before an entry stops it. -/
theorem walkClusters_returns_iff {good : σ → Prop} {pass : Slot → Prop} [DecidablePred pass]
    (hcb : LetsPass cb good pass) {walk : σ × ℕ} (hgood : good walk.1) (cluster : ℕ) :
    (∃ fuel, (walkClusters volume cb fuel cluster walk).isSome = true) ↔
      ¬ Returns (advance volume fun slot => slot.de.isEnd = false ∧ pass slot) cluster := by
  rw [← ends_advance_iff]
  refine exists_congr fun fuel => ?_
  constructor
  · intro hsome
    by_contra horbit
    rw [walkClusters_none_of_orbit hcb hgood (Option.isSome_iff_ne_none.mpr horbit)] at hsome
    cases hsome
  · intro hends
    by_contra hnone
    have horbit := orbit_of_walkClusters_none
      (fun slots walk after hgood hloop => hcb.of_foldlM_ok hgood hloop) hgood
      (Option.not_isSome_iff_eq_none.mp hnone)
    rw [hends] at horbit
    cases horbit

theorem dirWalk_root_isSome (allocated : Bool) (cbdata : σ) :
    (dirWalk 0 volume 0 allocated cb cbdata).isSome = true := by
  rw [dirWalk, if_pos rfl]
  rfl

theorem dirWalk_unallocated_isSome {startCluster : ℕ} (hstart : startCluster ≠ 0) (cbdata : σ) :
    (dirWalk 0 volume startCluster false cb cbdata).isSome = true := by
  rw [dirWalk, if_neg hstart, if_neg Bool.false_ne_true]
  rfl

theorem dirWalk_clusters_isSome_iff {startCluster : ℕ} (hstart : startCluster ≠ 0) (fuel : ℕ)
    (cbdata : σ) :
    (dirWalk fuel volume startCluster true cb cbdata).isSome = true ↔
      (walkClusters volume cb fuel (startCluster % 2 ^ 16) (cbdata, 0)).isSome = true := by
  rw [dirWalk, if_neg hstart, if_pos rfl, Option.isSome_map]

/-- The same for a directory in either layout. -/
theorem dirWalk_returns_iff {good : σ → Prop} {pass : Slot → Prop} [DecidablePred pass]
    (hcb : LetsPass cb good pass) {cbdata : σ} (hgood : good cbdata) (startCluster : ℕ)
    (allocated : Bool) :
    (∃ fuel, (dirWalk fuel volume startCluster allocated cb cbdata).isSome = true) ↔
      startCluster = 0 ∨ allocated = false ∨
        ¬ Returns (advance volume fun slot => slot.de.isEnd = false ∧ pass slot)
          (startCluster % 2 ^ 16) := by
  by_cases hstart : startCluster = 0
  · subst hstart
    exact iff_of_true ⟨0, dirWalk_root_isSome allocated cbdata⟩ (.inl rfl)
  rw [or_iff_right hstart]
  cases allocated with
  | false => exact iff_of_true ⟨0, dirWalk_unallocated_isSome hstart cbdata⟩ (.inl rfl)
  | true =>
      have hclusters := @walkClusters_returns_iff volume σ cb good pass _ hcb (cbdata, 0) hgood
        (startCluster % 2 ^ 16)
      rw [or_iff_right Bool.true_eq_false_eq_False, ← hclusters]
      exact exists_congr fun fuel => dirWalk_clusters_isSome_iff hstart fuel cbdata

/-! ## Lookups and listings -/

theorem letsPass_searchCb (chosen : Slot → Prop) [DecidablePred chosen] (found : Slot → σ → σ) :
    LetsPass (searchCb chosen found) (fun _ => True) fun slot => ¬ chosen slot where
  ret_iff slot absIdx data _ := by
    by_cases hchosen : chosen slot <;> simp [searchCb, hchosen]
  keeps _ _ _ _ _ := trivial

/-- A listing whose consumer never refuses lets every entry pass. -/
theorem letsPass_iterateCb (volume : Volume) (startIdx : ℕ) :
    LetsPass (iterateCb volume startIdx) (fun ctx => ctx.room = none) fun _ => True where
  ret_iff slot absIdx ctx hroom := by
    simp only [iterateCb, dirEmit, hroom, iff_true]
    split
    · rfl
    · split <;> rfl
  keeps slot absIdx ctx hroom _ := by
    simp only [iterateCb, dirEmit, hroom]
    split
    · exact hroom
    · split
      · exact hroom
      · rfl

theorem lookup_returns_iff (volume : Volume) (startCluster : ℕ) (allocated memory : Bool)
    (name : List UInt8) :
    (∃ fuel, (penguinFat16Lookup fuel volume startCluster allocated memory name).isSome = true) ↔
      startCluster = 0 ∨ allocated = false ∨
        ¬ Returns (advance volume fun slot => slot.de.isEnd = false ∧ ¬ Named name slot)
          (startCluster % 2 ^ 16) := by
  rw [← dirWalk_returns_iff (letsPass_searchCb (Named name) _) trivial]
  refine exists_congr fun fuel => ?_
  rw [penguinFat16Lookup, Option.isSome_map, lookupCb_eq_searchCb]

/-- A walk comes to its end with every callback where the table does not lead
back to a cluster before an end marker. -/
theorem dirWalk_returns_of_not_returns (startCluster : ℕ) (allocated : Bool)
    (hends : startCluster = 0 ∨ allocated = false ∨
      ¬ Returns (advance volume fun slot => slot.de.isEnd = false) (startCluster % 2 ^ 16))
    (cb : DirentCb σ) (cbdata : σ) :
    ∃ fuel, (dirWalk fuel volume startCluster allocated cb cbdata).isSome = true := by
  by_cases hstart : startCluster = 0
  · subst hstart
    exact ⟨0, dirWalk_root_isSome allocated cbdata⟩
  cases allocated with
  | false => exact ⟨0, dirWalk_unallocated_isSome hstart cbdata⟩
  | true =>
      have hnever := (hends.resolve_left hstart).resolve_left Bool.true_eq_false_eq_False
      obtain ⟨fuel, hnone⟩ := (ends_advance_iff _ _).mpr hnever
      refine ⟨fuel, (dirWalk_clusters_isSome_iff hstart fuel cbdata).mpr ?_⟩
      by_contra hrunning
      have horbit := @orbit_of_walkClusters_none volume σ cb (fun _ => True)
        (fun slot => slot.de.isEnd = false) _
        (fun slots walk after _ hloop => ⟨notEnd_of_foldlM_ok hloop, trivial⟩) fuel
        (startCluster % 2 ^ 16) (cbdata, 0) trivial (Option.not_isSome_iff_eq_none.mp hrunning)
      rw [hnone] at horbit
      cases horbit

/-- Every listing of a directory returns, from whatever position and to whatever
consumer, exactly if the table does not lead back to a cluster before an end
marker. -/
theorem iterateShared_returns_iff (volume : Volume) (startCluster : ℕ) (allocated : Bool) :
    (∀ dots ctx, ∃ fuel,
        (penguinFat16IterateShared fuel volume startCluster allocated dots ctx).isSome = true) ↔
      startCluster = 0 ∨ allocated = false ∨
        ¬ Returns (advance volume fun slot => slot.de.isEnd = false) (startCluster % 2 ^ 16) := by
  constructor
  · intro hall
    obtain ⟨fuel, hfuel⟩ := hall ⟨1, 1⟩ ⟨2, none, [], false⟩
    have hwalk : (dirWalk fuel volume startCluster allocated (iterateCb volume 0)
        ⟨2, none, [], false⟩).isSome = true := by
      simpa [penguinFat16IterateShared, dirEmitDots, dirEmitDot, dirEmitDotdot] using hfuel
    have hends := (dirWalk_returns_iff (letsPass_iterateCb volume 0) rfl startCluster
      allocated).mp ⟨fuel, hwalk⟩
    rwa [advance_congr fun slot => and_iff_left trivial] at hends
  · intro hends dots ctx
    obtain ⟨fuel, hfuel⟩ := dirWalk_returns_of_not_returns startCluster allocated hends
      (iterateCb volume ((dirEmitDots dots ctx).2.pos - 2)) (dirEmitDots dots ctx).2
    refine ⟨fuel, ?_⟩
    simp only [penguinFat16IterateShared]
    split
    · rwa [Option.isSome_map]
    · rfl

/-! ## Reads -/

/-- Each cluster with a sector brings a read nearer to its end. -/
theorem readLoop_isSome {requested fuel cluster bytesRead : ℕ} {to_ : IovIter}
    (hsectors : volume.sbi.sectorsPerCluster ≠ 0) (hfuel : requested - bytesRead < fuel) :
    (readLoop volume requested fuel cluster bytesRead to_).isSome = true := by
  have hcluster : 0 < volume.sbi.bytesPerCluster := by
    rw [volume.sbi.bytesPerCluster_eq]
    exact Nat.mul_pos volume.sbi.bytesPerSector_pos (Nat.pos_of_ne_zero hsectors)
  induction fuel generalizing cluster bytesRead to_ with
  | zero => cases hfuel
  | succ fuel ih =>
      rw [readLoop]
      split
      · rename_i hmore
        cases hdata : readCluster volume cluster with
        | error code => rfl
        | ok data =>
            simp only
            split
            · rfl
            · rename_i hcopied
              have hfrom : 0 < requestedFromCluster volume.sbi.bytesPerCluster
                  (requested - bytesRead) := by
                rw [requestedFromCluster_eq_min]
                omega
              cases hnext : nextCluster volume cluster with
              | error code => rfl
              | ok next => exact ih (by omega)
      · rfl

theorem readCluster_of_no_sectors {cluster : ℕ} (hcluster : cluster < finalCluster)
    (hsectors : volume.sbi.sectorsPerCluster = 0) : readCluster volume cluster = .ok [] := by
  rw [readCluster, if_neg (Nat.not_le.mpr hcluster), hsectors]
  rfl

/-- Without sectors a read only follows the table. -/
theorem readLoop_isSome_iff {requested fuel cluster bytesRead : ℕ} {to_ : IovIter}
    (hsectors : volume.sbi.sectorsPerCluster = 0) (hmore : bytesRead < requested) :
    (readLoop volume requested fuel cluster bytesRead to_).isSome = true ↔
      orbit (advance volume fun _ => True) fuel cluster = none := by
  have hbytes : volume.sbi.bytesPerCluster = 0 := by
    rw [volume.sbi.bytesPerCluster_eq, hsectors, Nat.mul_zero]
  induction fuel generalizing cluster to_ with
  | zero => simp [readLoop, orbit]
  | succ fuel ih =>
      rw [readLoop, orbit, advance]
      by_cases hcluster : cluster < finalCluster
      · rw [if_pos ⟨hmore, hcluster⟩, if_pos hcluster]
        simp only [readCluster_of_no_sectors hcluster hsectors, hbytes, requestedFromCluster,
          Nat.not_lt_zero, if_false, List.take_nil, copyToIter, List.length_nil, Nat.zero_min,
          ne_eq, not_true_eq_false, implies_true, if_true]
        cases hnext : nextCluster volume cluster with
        | error code => simp [Except.toOption]
        | ok next =>
            simp only [Except.toOption, Option.bind_some]
            exact ih
      · rw [if_neg fun hboth => hcluster hboth.2, if_neg hcluster]
        exact iff_of_true rfl rfl

theorem readIter_isSome_iff (volume : Volume) (ino : InodeInfo) (kiPos fuel : ℕ) (to_ : IovIter) :
    (penguinFat16ReadIter fuel volume ino true kiPos to_).isSome = true ↔
      (readLoop volume (bytesRequested to_.count ino.fileSize kiPos) fuel ino.startCluster 0
        to_).isSome = true := by
  simp only [penguinFat16ReadIter, if_true]
  split <;> simp_all

/-- A read returns exactly if nothing is requested, clusters have sectors, or the
table does not lead back to a cluster. -/
theorem readIter_returns_iff (volume : Volume) (ino : InodeInfo) (allocated : Bool) (kiPos : ℕ)
    (to_ : IovIter) :
    (∃ fuel, (penguinFat16ReadIter fuel volume ino allocated kiPos to_).isSome = true) ↔
      allocated = false ∨ bytesRequested to_.count ino.fileSize kiPos = 0 ∨
        volume.sbi.sectorsPerCluster ≠ 0 ∨
        ¬ Returns (advance volume fun _ => True) ino.startCluster := by
  cases allocated with
  | false => exact iff_of_true ⟨0, rfl⟩ (.inl rfl)
  | true =>
      rw [or_iff_right Bool.true_eq_false_eq_False]
      simp only [readIter_isSome_iff]
      by_cases hnothing : bytesRequested to_.count ino.fileSize kiPos = 0
      · refine iff_of_true ⟨1, ?_⟩ (.inl hnothing)
        rw [hnothing, readLoop, if_neg (by simp)]
        rfl
      rw [or_iff_right hnothing]
      by_cases hsectors : volume.sbi.sectorsPerCluster = 0
      · rw [or_iff_right (not_not.mpr hsectors), ← ends_advance_iff]
        exact exists_congr fun fuel =>
          readLoop_isSome_iff hsectors (Nat.pos_of_ne_zero hnothing)
      · exact iff_of_true ⟨bytesRequested to_.count ino.fileSize kiPos + 1,
          readLoop_isSome hsectors (by omega)⟩ (.inl hsectors)

/-! ## All three loops -/

/-- When the walks of lookups and listings and the reads of an image return. -/
theorem returns_iff (volume : Volume) :
    (∀ startCluster allocated memory name,
      (∃ fuel, (penguinFat16Lookup fuel volume startCluster allocated memory name).isSome =
          true) ↔
        startCluster = 0 ∨ allocated = false ∨
          ¬ Returns (advance volume fun slot => slot.de.isEnd = false ∧ ¬ Named name slot)
            (startCluster % 2 ^ 16)) ∧
    (∀ startCluster allocated,
      (∀ dots ctx, ∃ fuel,
          (penguinFat16IterateShared fuel volume startCluster allocated dots ctx).isSome = true) ↔
        startCluster = 0 ∨ allocated = false ∨
          ¬ Returns (advance volume fun slot => slot.de.isEnd = false)
            (startCluster % 2 ^ 16)) ∧
    ∀ ino allocated kiPos to_,
      (∃ fuel, (penguinFat16ReadIter fuel volume ino allocated kiPos to_).isSome = true) ↔
        allocated = false ∨ bytesRequested to_.count ino.fileSize kiPos = 0 ∨
          volume.sbi.sectorsPerCluster ≠ 0 ∨
          ¬ Returns (advance volume fun _ => True) ino.startCluster :=
  ⟨lookup_returns_iff volume, iterateShared_returns_iff volume, readIter_returns_iff volume⟩

/-! ## Clusters that follow themselves -/

/-- The small image with the table entry of cluster 2 leading back to it, and
deleted entries in the cluster. -/
def loopDevice : Device := fun address =>
  if address = 516 then some 2
  else if address = 517 then some 0
  else if 1536 ≤ address ∧ address < 2048 then some 0xE5
  else smallDevice address

def loopVolume : Volume := Volume.mount loopDevice (by decide +kernel)

/-- The same with no sectors in a cluster. -/
def noSectorsDevice : Device := fun address => if address = 13 then some 0 else loopDevice address

def noSectorsVolume : Volume := Volume.mount noSectorsDevice (by decide +kernel)

theorem returns_of_advance {pass : Slot → Prop} [DecidablePred pass] {cluster : ℕ}
    (hself : advance volume pass cluster = some cluster) :
    Returns (advance volume pass) cluster :=
  ⟨0, 1, cluster, by norm_num, rfl, by rw [orbit, hself]; rfl⟩

/-- None of the three loops returns on every image. -/
theorem not_returns_loop :
    (¬ ∀ (volume : Volume) (startCluster : ℕ) (allocated memory : Bool) (name : List UInt8),
      ∃ fuel, (penguinFat16Lookup fuel volume startCluster allocated memory name).isSome =
        true) ∧
    (¬ ∀ (volume : Volume) (startCluster : ℕ) (allocated : Bool) (dots : Dots)
        (ctx : DirContext), ∃ fuel,
      (penguinFat16IterateShared fuel volume startCluster allocated dots ctx).isSome = true) ∧
    ¬ ∀ (volume : Volume) (ino : InodeInfo) (allocated : Bool) (kiPos : ℕ) (to_ : IovIter),
      ∃ fuel, (penguinFat16ReadIter fuel volume ino allocated kiPos to_).isSome = true := by
  refine ⟨fun hclaim => ?_, fun hclaim => ?_, fun hclaim => ?_⟩
  · have hends := (lookup_returns_iff loopVolume 2 true true noteName).mp
      (hclaim loopVolume 2 true true noteName)
    have hself : advance loopVolume (fun slot => slot.de.isEnd = false ∧ ¬ Named noteName slot)
        2 = some 2 := by
      decide +kernel
    simp [returns_of_advance hself] at hends
  · have hends := (iterateShared_returns_iff loopVolume 2 true).mp (hclaim loopVolume 2 true)
    have hself : advance loopVolume (fun slot => slot.de.isEnd = false) 2 = some 2 := by
      decide +kernel
    simp [returns_of_advance hself] at hends
  · have hends := (readIter_returns_iff noSectorsVolume ⟨2, 2, by norm_num, by norm_num⟩ true 0
      ⟨1, 1, []⟩).mp (hclaim noSectorsVolume ⟨2, 2, by norm_num, by norm_num⟩ true 0 ⟨1, 1, []⟩)
    have hself : advance noSectorsVolume (fun _ => True) 2 = some 2 := by decide +kernel
    have hsectors : noSectorsVolume.sbi.sectorsPerCluster = 0 := by decide +kernel
    have hrequested : bytesRequested 1 2 0 = 1 := by decide
    simp [returns_of_advance hself, hsectors, hrequested] at hends

end DoomsdayModules.Fat16.Termination
