import DoomsdayModules.Fat16.Directory

/-!
# Walks over any image

On a damaged image a walk may meet a sector it cannot read or a chain that never
ends.  What it passes before that is one loop over the slots of the sectors or
clusters it has read; the walk ends in a visit that returns, at the end of the
directory or at something unreadable.  The calls it makes are recorded by a
callback of their own.
-/

namespace DoomsdayModules.Fat16.Walk

open DoomsdayModules.EarlyExit DoomsdayModules.Fat16.Image DoomsdayModules.Fat16.Directory

/-! ## Clusters -/

/-- The table leads from a cluster through readable clusters to another. -/
inductive Path (volume : Volume) : ℕ → List Link → ℕ → Prop
  | here (cluster : ℕ) : Path volume cluster [] cluster
  | step {cluster next last : ℕ} {data : List UInt8} {rest : List Link}
      (hcluster : cluster < finalCluster) (hread : readCluster volume cluster = .ok data)
      (hnext : nextCluster volume cluster = .ok next) (hrest : Path volume next rest last) :
      Path volume cluster (⟨cluster, data⟩ :: rest) last

/-- The clusters that can be read from a cluster on.  The table entry of the
last of them need not be readable. -/
inductive Opened (volume : Volume) : ℕ → List Link → Prop
  | none (cluster : ℕ) : Opened volume cluster []
  | last {cluster : ℕ} {data : List UInt8} (hcluster : cluster < finalCluster)
      (hread : readCluster volume cluster = .ok data) : Opened volume cluster [⟨cluster, data⟩]
  | link {cluster next : ℕ} {data : List UInt8} {rest : List Link}
      (hcluster : cluster < finalCluster) (hread : readCluster volume cluster = .ok data)
      (hnext : nextCluster volume cluster = .ok next) (hrest : Opened volume next rest) :
      Opened volume cluster (⟨cluster, data⟩ :: rest)

theorem Chain.opened {volume : Volume} {cluster : ℕ} {links : List Link}
    (hchain : Chain volume cluster links) : Opened volume cluster links := by
  induction hchain with
  | stop _ => exact .none _
  | link hcluster hread hnext _ ih => exact .link hcluster hread hnext ih

theorem Opened.readable {volume : Volume} {cluster : ℕ} {links : List Link}
    (hopened : Opened volume cluster links) :
    ∀ link ∈ links, readCluster volume link.cluster = .ok link.data := by
  induction hopened with
  | none _ => simp
  | last _ hread => simpa using hread
  | link _ hread _ _ ih => simpa [hread] using ih

/-! ## Slots -/

/-- The slots of the first sectors of the root directory. -/
def rootSlots (volume : Volume) (sectors : List (List UInt8)) : List Slot :=
  ((List.range sectors.length).zip sectors).flatMap fun sector =>
    sectorSlots volume sector.1 sector.2

/-- The slots of the sectors or clusters a walk can read, in its order. -/
inductive Visited (volume : Volume) : ℕ → List Slot → Prop
  | root (sectors : List (List UInt8))
      (hcount : sectors.length ≤
        rootSectors volume.sbi.rootDirEntries volume.sbi.bytesPerSector)
      (hread : List.Forall₂ (fun s data => volume.bread (volume.sbi.rootDirStart + s) = some data)
        (List.range sectors.length) sectors) :
      Visited volume 0 (rootSlots volume sectors)
  | clusters {startCluster : ℕ} (hstart : startCluster ≠ 0) (links : List Link)
      (hopened : Opened volume (startCluster % 2 ^ 16) links) :
      Visited volume startCluster (links.flatMap (linkSlots volume))

/-! ## How a walk ends -/

variable {σ : Type*} {volume : Volume} {cb : DirentCb σ}

/-- A visit of the slots returned, or all went on until the walk came to its end
or to something it could not read. -/
inductive Ended (cb : DirentCb σ) (slots : List Slot) (walk : σ × ℕ) : Int × σ → Prop
  | stopped {reply : Int × σ} (hloop : slots.foldlM (visitSlot cb) walk = .error reply) :
      Ended cb slots walk reply
  | finished {after : σ × ℕ} (hloop : slots.foldlM (visitSlot cb) walk = .ok after) :
      Ended cb slots walk (0, after.1)
  | unreadable {after : σ × ℕ} (hloop : slots.foldlM (visitSlot cb) walk = .ok after) :
      Ended cb slots walk (eio, after.1)

theorem Ended.of_error {slots : List Slot} {walk : σ × ℕ} {reply stopped : Int × σ}
    (hended : Ended cb slots walk reply)
    (hstop : slots.foldlM (visitSlot cb) walk = .error stopped) : reply = stopped := by
  cases hended with
  | stopped hloop =>
      rw [hstop, Except.error.injEq] at hloop
      exact hloop.symm
  | finished hloop | unreadable hloop =>
      rw [hstop] at hloop
      cases hloop

theorem Ended.of_ok {slots : List Slot} {walk last : σ × ℕ} {reply : Int × σ}
    (hended : Ended cb slots walk reply)
    (hall : slots.foldlM (visitSlot cb) walk = .ok last) :
    reply = (0, last.1) ∨ reply = (eio, last.1) := by
  cases hended with
  | stopped hloop =>
      rw [hall] at hloop
      cases hloop
  | finished hloop =>
      rw [hall, Except.ok.injEq] at hloop
      exact .inl (by rw [hloop])
  | unreadable hloop =>
      rw [hall, Except.ok.injEq] at hloop
      exact .inr (by rw [hloop])

/-- A visit that goes on. -/
theorem visitSlot_ok {slot : Slot} {walk next : σ × ℕ}
    (hvisit : visitSlot cb walk slot = .ok next) :
    slot.de.isEnd = false ∧ (cb slot.de slot.sector slot.idx walk.2 walk.1).1 = 0 ∧
      next = ((cb slot.de slot.sector slot.idx walk.2 walk.1).2, u32 (walk.2 + 1)) := by
  simp only [visitSlot, visit] at hvisit
  split at hvisit
  · cases hvisit
  · rename_i hend
    split at hvisit
    · cases hvisit
    · rename_i hret
      cases hvisit
      exact ⟨by simpa using hend, not_not.mp hret, rfl⟩

theorem foldlM_append_of_ok {slots rest : List Slot} {walk middle : σ × ℕ}
    (hloop : slots.foldlM (visitSlot cb) walk = .ok middle) :
    (slots ++ rest).foldlM (visitSlot cb) walk = rest.foldlM (visitSlot cb) middle := by
  rw [List.foldlM_append, hloop]
  rfl

theorem foldlM_append_of_error {slots : List Slot} {walk : σ × ℕ} {reply : Int × σ}
    (rest : List Slot) (hloop : slots.foldlM (visitSlot cb) walk = .error reply) :
    (slots ++ rest).foldlM (visitSlot cb) walk = .error reply := by
  rw [List.foldlM_append, hloop]
  rfl

theorem Ended.append {slots rest : List Slot} {walk middle : σ × ℕ} {reply : Int × σ}
    (hloop : slots.foldlM (visitSlot cb) walk = .ok middle) (hrest : Ended cb rest middle reply) :
    Ended cb (slots ++ rest) walk reply := by
  cases hrest with
  | stopped hstop => exact .stopped (by rw [foldlM_append_of_ok hloop, hstop])
  | finished hend => exact .finished (by rw [foldlM_append_of_ok hloop, hend])
  | unreadable hend => exact .unreadable (by rw [foldlM_append_of_ok hloop, hend])

/-- How a round of the loop over clusters goes: the loop is left with a result, or
goes on from the next cluster. -/
inductive Round (volume : Volume) (cb : DirentCb σ) (cluster : ℕ) (walk : σ × ℕ) :
    Except (Except (Int × σ) (σ × ℕ)) (ℕ × σ × ℕ) → Prop
  | final (hfinal : finalCluster ≤ cluster) : Round volume cb cluster walk (.error (.ok walk))
  | unread {code : Int} (hcluster : cluster < finalCluster)
      (hread : readCluster volume cluster = .error code) :
      Round volume cb cluster walk (.error (.error (eio, walk.1)))
  | stopped {data : List UInt8} {reply : Int × σ} (hcluster : cluster < finalCluster)
      (hread : readCluster volume cluster = .ok data)
      (hloop : (linkSlots volume ⟨cluster, data⟩).foldlM (visitSlot cb) walk = .error reply) :
      Round volume cb cluster walk (.error (.error reply))
  | lost {data : List UInt8} {after : σ × ℕ} {code : Int} (hcluster : cluster < finalCluster)
      (hread : readCluster volume cluster = .ok data)
      (hloop : (linkSlots volume ⟨cluster, data⟩).foldlM (visitSlot cb) walk = .ok after)
      (hnext : nextCluster volume cluster = .error code) :
      Round volume cb cluster walk (.error (.error (eio, after.1)))
  | goesOn {data : List UInt8} {after : σ × ℕ} {next : ℕ} (hcluster : cluster < finalCluster)
      (hread : readCluster volume cluster = .ok data)
      (hloop : (linkSlots volume ⟨cluster, data⟩).foldlM (visitSlot cb) walk = .ok after)
      (hnext : nextCluster volume cluster = .ok next) :
      Round volume cb cluster walk (.ok (next, after))

theorem exists_round (volume : Volume) (cb : DirentCb σ) (cluster : ℕ) (walk : σ × ℕ) :
    ∃ outcome, Round volume cb cluster walk outcome := by
  rcases Nat.lt_or_ge cluster finalCluster with hcluster | hfinal
  swap
  · exact ⟨_, .final hfinal⟩
  cases hread : readCluster volume cluster with
  | error code => exact ⟨_, .unread hcluster hread⟩
  | ok data =>
      cases hloop : (linkSlots volume ⟨cluster, data⟩).foldlM (visitSlot cb) walk with
      | error reply => exact ⟨_, .stopped hcluster hread hloop⟩
      | ok after =>
          cases hnext : nextCluster volume cluster with
          | error code => exact ⟨_, .lost hcluster hread hloop hnext⟩
          | ok next => exact ⟨_, .goesOn hcluster hread hloop hnext⟩

/-- The loop does what its first round does, and the rest. -/
theorem walkClusters_of_round {cluster : ℕ} {walk : σ × ℕ}
    {outcome : Except (Except (Int × σ) (σ × ℕ)) (ℕ × σ × ℕ)}
    (hround : Round volume cb cluster walk outcome) (fuel : ℕ) :
    walkClusters volume cb (fuel + 1) cluster walk =
      match outcome with
      | .error result => some result
      | .ok (next, after) => walkClusters volume cb fuel next after := by
  rw [walkClusters]
  cases hround with
  | final hfinal => rw [if_neg (Nat.not_lt.mpr hfinal)]
  | unread hcluster hread => simp only [if_pos hcluster, hread]
  | @stopped data reply hcluster hread hloop =>
      have hentries := (walkEntries_eq volume cb ⟨cluster, data⟩ walk).trans hloop
      simp only [if_pos hcluster, hread, hentries]
  | @lost data after code hcluster hread hloop hnext =>
      have hentries := (walkEntries_eq volume cb ⟨cluster, data⟩ walk).trans hloop
      simp only [if_pos hcluster, hread, hentries, hnext]
  | @goesOn data after next hcluster hread hloop hnext =>
      have hentries := (walkEntries_eq volume cb ⟨cluster, data⟩ walk).trans hloop
      simp only [if_pos hcluster, hread, hentries, hnext]

theorem walkClusters_ended {fuel cluster : ℕ} {walk : σ × ℕ} {result : Except (Int × σ) (σ × ℕ)}
    (hwalk : walkClusters volume cb fuel cluster walk = some result) :
    ∃ links, Opened volume cluster links ∧
      Ended cb (links.flatMap (linkSlots volume)) walk (walkReply result) := by
  induction fuel generalizing cluster walk with
  | zero => cases hwalk
  | succ fuel ih =>
      obtain ⟨outcome, hround⟩ := exists_round volume cb cluster walk
      rw [walkClusters_of_round hround] at hwalk
      cases hround with
      | final hfinal =>
          cases hwalk
          exact ⟨[], .none cluster, .finished rfl⟩
      | unread hcluster hread =>
          cases hwalk
          exact ⟨[], .none cluster, .unreadable rfl⟩
      | @stopped data reply hcluster hread hloop =>
          cases hwalk
          refine ⟨[⟨cluster, data⟩], .last hcluster hread, .stopped ?_⟩
          rwa [List.flatMap_singleton]
      | @lost data after code hcluster hread hloop hnext =>
          cases hwalk
          refine ⟨[⟨cluster, data⟩], .last hcluster hread, .unreadable ?_⟩
          rwa [List.flatMap_singleton]
      | @goesOn data after next hcluster hread hloop hnext =>
          obtain ⟨links, hopened, hended⟩ := ih hwalk
          refine ⟨⟨cluster, data⟩ :: links, .link hcluster hread hnext hopened, ?_⟩
          rw [List.flatMap_cons]
          exact hended.append hloop

theorem walkSectors_ended (numbers : List ℕ) (walk : σ × ℕ) :
    ∃ (before : List ℕ) (sectors : List (List UInt8)), before <+: numbers ∧
      List.Forall₂ (fun s data => volume.bread (volume.sbi.rootDirStart + s) = some data)
        before sectors ∧
      Ended cb ((before.zip sectors).flatMap fun sector => sectorSlots volume sector.1 sector.2)
        walk (walkReply (numbers.foldlM (walkSector volume cb) walk)) := by
  induction numbers generalizing walk with
  | nil => exact ⟨[], [], List.nil_prefix, .nil, .finished rfl⟩
  | cons s numbers ih =>
      cases hdata : volume.bread (volume.sbi.rootDirStart + s) with
      | none =>
          have hround : walkSector volume cb walk s = .error (eio, walk.1) := by
            simp only [walkSector, hdata]
          rw [foldlM_cons_of_error numbers hround]
          exact ⟨[], [], List.nil_prefix, .nil, .unreadable rfl⟩
      | some data =>
          have hsector := @walkSector_eq σ volume cb s data hdata walk
          cases hround : walkSector volume cb walk s with
          | error reply =>
              rw [hround] at hsector
              rw [foldlM_cons_of_error numbers hround]
              refine ⟨[s], [data], ⟨numbers, rfl⟩, .cons hdata .nil, .stopped ?_⟩
              simpa [walkReply] using hsector.symm
          | ok after =>
              rw [hround] at hsector
              rw [foldlM_cons_of_ok numbers hround]
              obtain ⟨before, sectors, hprefix, hread, hended⟩ := ih after
              refine ⟨s :: before, data :: sectors, List.cons_prefix_cons.mpr ⟨rfl, hprefix⟩,
                .cons hdata hread, ?_⟩
              rw [List.zip_cons_cons, List.flatMap_cons]
              exact hended.append hsector.symm

/-- A walk that returned passed slots it could read, unless there was no memory
for the cluster buffer. -/
theorem dirWalk_cases {fuel startCluster : ℕ} {allocated : Bool} {cbdata : σ} {reply : Int × σ}
    (hwalk : dirWalk fuel volume startCluster allocated cb cbdata = some reply) :
    (startCluster ≠ 0 ∧ allocated = false ∧ reply = (enomem, cbdata)) ∨
      ∃ slots, Visited volume startCluster slots ∧ Ended cb slots (cbdata, 0) reply := by
  rw [dirWalk] at hwalk
  split at hwalk
  · rename_i hroot
    subst hroot
    cases hwalk
    obtain ⟨before, sectors, hprefix, hread, hended⟩ := @walkSectors_ended σ volume cb
      (List.range (rootSectors volume.sbi.rootDirEntries volume.sbi.bytesPerSector)) (cbdata, 0)
    have hle := hprefix.length_le
    have hbefore := List.prefix_iff_eq_take.mp hprefix
    rw [List.length_range] at hle
    rw [List.take_range, min_eq_left hle, hread.length_eq] at hbefore
    rw [hread.length_eq] at hle
    rw [hbefore] at hread hended
    exact .inr ⟨_, .root sectors hle hread, hended⟩
  · rename_i hstart
    split at hwalk
    · obtain ⟨result, hresult, rfl⟩ := Option.map_eq_some_iff.mp hwalk
      obtain ⟨links, hopened, hended⟩ := walkClusters_ended hresult
      exact .inr ⟨_, .clusters hstart links hopened, hended⟩
    · cases hwalk
      exact .inl ⟨hstart, by simpa using ‹¬ allocated = true›, rfl⟩

/-! ## Enough rounds -/

theorem walkClusters_mono {fuel more cluster : ℕ} {walk : σ × ℕ}
    {result : Except (Int × σ) (σ × ℕ)}
    (hwalk : walkClusters volume cb fuel cluster walk = some result) (hmore : fuel ≤ more) :
    walkClusters volume cb more cluster walk = some result := by
  induction fuel generalizing more cluster walk with
  | zero => cases hwalk
  | succ fuel ih =>
      obtain ⟨more, rfl⟩ := Nat.exists_eq_succ_of_ne_zero (Nat.ne_of_gt (Nat.zero_lt_of_lt hmore))
      obtain ⟨outcome, hround⟩ := exists_round volume cb cluster walk
      rw [walkClusters_of_round hround] at hwalk ⊢
      cases outcome with
      | error left => exact hwalk
      | ok step => exact ih hwalk (Nat.succ_le_succ_iff.mp hmore)

/-- A walk that has returned returns the same with more rounds. -/
theorem dirWalk_mono {fuel more startCluster : ℕ} {allocated : Bool} {cbdata : σ}
    {reply : Int × σ} (hwalk : dirWalk fuel volume startCluster allocated cb cbdata = some reply)
    (hmore : fuel ≤ more) :
    dirWalk more volume startCluster allocated cb cbdata = some reply := by
  rw [dirWalk] at hwalk ⊢
  split
  · rwa [if_pos ‹_›] at hwalk
  · rw [if_neg ‹_›] at hwalk
    split
    · rw [if_pos ‹_›] at hwalk
      obtain ⟨result, hresult, rfl⟩ := Option.map_eq_some_iff.mp hwalk
      rw [walkClusters_mono hresult hmore, Option.map_some]
    · rwa [if_neg ‹_›] at hwalk

theorem dirWalk_unique {fuel other startCluster : ℕ} {allocated : Bool} {cbdata : σ}
    {reply reply' : Int × σ}
    (hwalk : dirWalk fuel volume startCluster allocated cb cbdata = some reply)
    (hother : dirWalk other volume startCluster allocated cb cbdata = some reply') :
    reply = reply' := by
  have hmore := dirWalk_mono hwalk (Nat.le_max_left fuel other)
  rw [dirWalk_mono hother (Nat.le_max_right fuel other), Option.some.injEq] at hmore
  exact hmore.symm

theorem walkClusters_of_stopped {cluster : ℕ} {links : List Link} {walk : σ × ℕ}
    {reply : Int × σ} (hopened : Opened volume cluster links)
    (hstop : (links.flatMap (linkSlots volume)).foldlM (visitSlot cb) walk = .error reply) :
    walkClusters volume cb links.length cluster walk = some (.error reply) := by
  induction hopened generalizing walk with
  | none _ => cases hstop
  | @last cluster data hcluster hread =>
      rw [List.flatMap_singleton] at hstop
      exact walkClusters_of_round (.stopped hcluster hread hstop) 0
  | @link cluster next data rest hcluster hread hnext _ ih =>
      rw [List.flatMap_cons] at hstop
      rw [List.length_cons]
      cases hloop : (linkSlots volume ⟨cluster, data⟩).foldlM (visitSlot cb) walk with
      | error first =>
          rw [foldlM_append_of_error _ hloop] at hstop
          cases hstop
          exact walkClusters_of_round (.stopped hcluster hread hloop) rest.length
      | ok after =>
          rw [foldlM_append_of_ok hloop] at hstop
          rw [walkClusters_of_round (.goesOn hcluster hread hloop hnext)]
          exact ih hstop

theorem walkSectors_of_stopped {numbers : List ℕ} {sectors : List (List UInt8)}
    (rest : List ℕ) {walk : σ × ℕ} {reply : Int × σ}
    (hread : List.Forall₂ (fun s data => volume.bread (volume.sbi.rootDirStart + s) = some data)
      numbers sectors)
    (hstop : ((numbers.zip sectors).flatMap fun sector =>
      sectorSlots volume sector.1 sector.2).foldlM (visitSlot cb) walk = .error reply) :
    (numbers ++ rest).foldlM (walkSector volume cb) walk = .error reply := by
  rw [← foldlM_walkSector hread walk] at hstop
  rw [List.foldlM_append, hstop]
  rfl

/-- A visit that returns on a slot the walk can read is the end of the walk. -/
theorem dirWalk_of_stopped {startCluster : ℕ} {allocated : Bool} {cbdata : σ} {reply : Int × σ}
    {slots : List Slot} (hvisited : Visited volume startCluster slots)
    (hallocated : startCluster ≠ 0 → allocated = true)
    (hstop : slots.foldlM (visitSlot cb) (cbdata, 0) = .error reply) :
    ∃ fuel, dirWalk fuel volume startCluster allocated cb cbdata = some reply := by
  cases hvisited with
  | root sectors hcount hread =>
      obtain ⟨more, hmore⟩ := Nat.exists_eq_add_of_le hcount
      refine ⟨0, ?_⟩
      rw [dirWalk, if_pos rfl, walkRoot, hmore, List.range_add,
        walkSectors_of_stopped _ hread hstop]
      rfl
  | clusters hstart links hopened =>
      refine ⟨links.length, ?_⟩
      rw [dirWalk, if_neg hstart, if_pos (hallocated hstart), walkClusters_of_stopped hopened hstop]
      rfl

/-! ## The calls of a walk -/

/-- The callback that also records what it is called with: the slot and its
position in the directory. -/
def logged (cb : DirentCb σ) : DirentCb (σ × List (Slot × ℕ)) :=
  fun de sector idx absIdx data =>
    let reply := cb de sector idx absIdx data.1
    (reply.1, reply.2, data.2 ++ [(⟨de, sector, idx⟩, absIdx)])

/-- The callback that lets every entry pass. -/
def passAll : DirentCb Unit := fun _ _ _ _ data => (0, data)

/-- The calls made on the way through a list of slots. -/
def passed (cb : DirentCb σ) : List Slot → σ × ℕ → List (Slot × ℕ)
  | [], _ => []
  | slot :: rest, walk =>
      if slot.de.isEnd then []
      else (slot, walk.2) ::
        match visitSlot cb walk slot with
        | .error _ => []
        | .ok next => passed cb rest next

theorem mem_passed {slots : List Slot} {walk : σ × ℕ} :
    ∀ call ∈ passed cb slots walk, call.1 ∈ slots := by
  induction slots generalizing walk with
  | nil => simp [passed]
  | cons slot rest ih =>
      intro call hcall
      rw [passed] at hcall
      split at hcall
      · cases hcall
      · rcases List.mem_cons.mp hcall with rfl | hrest
        · exact List.mem_cons_self
        · split at hrest
          · cases hrest
          · exact List.mem_cons_of_mem _ (ih call hrest)

/-- Recording the calls does not change the walk. -/
theorem foldlM_logged (slots : List Slot) (walk : σ × ℕ) (log : List (Slot × ℕ)) :
    slots.foldlM (visitSlot (logged cb)) ((walk.1, log), walk.2) =
      match slots.foldlM (visitSlot cb) walk with
      | .error reply => .error (reply.1, reply.2, log ++ passed cb slots walk)
      | .ok after => .ok ((after.1, log ++ passed cb slots walk), after.2) := by
  induction slots generalizing walk log with
  | nil => simp [passed, pure, Except.pure]
  | cons slot rest ih =>
      rw [passed]
      by_cases hend : slot.de.isEnd = true
      · have hplain : visitSlot cb walk slot = .error (0, walk.1) := by
          rw [visitSlot, visit, if_pos hend]
        have hlogged : visitSlot (logged cb) ((walk.1, log), walk.2) slot =
            .error (0, walk.1, log) := by
          rw [visitSlot, visit, if_pos hend]
        rw [foldlM_cons_of_error rest hplain, foldlM_cons_of_error rest hlogged, if_pos hend,
          List.append_nil]
      rw [if_neg hend]
      by_cases hreply : (cb slot.de slot.sector slot.idx walk.2 walk.1).1 = 0
      · have hplain : visitSlot cb walk slot =
            .ok ((cb slot.de slot.sector slot.idx walk.2 walk.1).2, u32 (walk.2 + 1)) := by
          simp [visitSlot, visit, hend, hreply]
        have hlogged : visitSlot (logged cb) ((walk.1, log), walk.2) slot =
            .ok (((cb slot.de slot.sector slot.idx walk.2 walk.1).2, log ++ [(slot, walk.2)]),
              u32 (walk.2 + 1)) := by
          simp [visitSlot, visit, hend, hreply, logged]
        rw [foldlM_cons_of_ok rest hplain, foldlM_cons_of_ok rest hlogged, hplain,
          ih ((cb slot.de slot.sector slot.idx walk.2 walk.1).2, u32 (walk.2 + 1))]
        simp only [List.append_assoc, List.singleton_append]
      · have hplain : visitSlot cb walk slot =
            .error (cb slot.de slot.sector slot.idx walk.2 walk.1) := by
          simp [visitSlot, visit, hend, hreply]
        have hlogged : visitSlot (logged cb) ((walk.1, log), walk.2) slot =
            .error ((cb slot.de slot.sector slot.idx walk.2 walk.1).1,
              (cb slot.de slot.sector slot.idx walk.2 walk.1).2, log ++ [(slot, walk.2)]) := by
          simp [visitSlot, visit, hend, hreply, logged]
        rw [foldlM_cons_of_error rest hplain, foldlM_cons_of_error rest hlogged, hplain]

/-- The record of a walk is the calls on its way. -/
theorem Ended.calls {slots : List Slot} {cbdata data : σ} {ret : Int} {calls : List (Slot × ℕ)}
    (hended : Ended (logged cb) slots ((cbdata, []), 0) (ret, data, calls)) :
    calls = passed cb slots (cbdata, 0) := by
  have hlog := @foldlM_logged σ cb slots (cbdata, 0) []
  rw [List.nil_append] at hlog
  cases hplain : slots.foldlM (visitSlot cb) (cbdata, 0) with
  | error reply =>
      rw [hplain] at hlog
      have hreply := hended.of_error hlog
      exact congrArg (fun given => given.2.2) hreply
  | ok after =>
      rw [hplain] at hlog
      rcases hended.of_ok hlog with hreply | hreply
      · exact congrArg (fun given => given.2.2) hreply
      · exact congrArg (fun given => given.2.2) hreply

theorem calls_of_dirWalk {fuel startCluster : ℕ} {allocated : Bool} {cbdata data : σ} {ret : Int}
    {calls : List (Slot × ℕ)}
    (hwalk : dirWalk fuel volume startCluster allocated (logged cb) (cbdata, []) =
      some (ret, data, calls)) :
    calls = [] ∨ ∃ slots, Visited volume startCluster slots ∧
      calls = passed cb slots (cbdata, 0) := by
  rcases dirWalk_cases hwalk with ⟨-, -, hreply⟩ | ⟨slots, hvisited, hended⟩
  · cases hreply
    exact .inl rfl
  · exact .inr ⟨slots, hvisited, hended.calls⟩

end DoomsdayModules.Fat16.Walk
