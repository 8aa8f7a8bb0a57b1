import DoomsdayModules.Fat16.Readdir

/-!
# Looking up a name

`lookup_cb` decodes the name of every entry that is no deleted, long-name or
volume entry, as the callback of a listing does, and stops at the first that is
the name looked for up to case.  A lookup therefore selects the first entry of
a listing with such a name, under the same inode number and of the same type.
-/

namespace DoomsdayModules.Fat16.Lookup

open DoomsdayModules.EarlyExit DoomsdayModules.ResumableStream
open DoomsdayModules.Fat16.Image DoomsdayModules.Fat16.Directory DoomsdayModules.Fat16.Readdir

/-! ## Comparing names -/

/-- The upper-case letters of the kernel's character table, ASCII and Latin-1. -/
def isUpper (c : UInt8) : Bool :=
  (0x41 ≤ c && c ≤ 0x5A) || (0xC0 ≤ c && c ≤ 0xDE && c != 0xD7)

/-- The kernel's `tolower`. -/
def tolower (c : UInt8) : UInt8 := if isUpper c then c + 0x20 else c

/-- The kernel's `strncasecmp` of two strings, each ending in a zero. -/
def strncasecmp : List UInt8 → List UInt8 → ℕ → Int
  | _, _, 0 => 0
  | s1, s2, len + 1 =>
      let c1 := s1.headD 0
      let c2 := s2.headD 0
      if c1 = 0 ∨ c2 = 0 then c1.toNat - c2.toNat
      else if tolower c1 = tolower c2 then strncasecmp s1.tail s2.tail len
      else (tolower c1).toNat - (tolower c2).toNat

theorem tolower_eq_zero_iff (c : UInt8) : tolower c = 0 ↔ c = 0 := by
  have hall : ∀ n : Fin 256, tolower (UInt8.ofFin n) = 0 ↔ UInt8.ofFin n = 0 := by
    decide +kernel
  exact hall c.toFin

theorem strncasecmp_cons (c d : UInt8) (s1 s2 : List UInt8) (len : ℕ) :
    strncasecmp (c :: s1) (d :: s2) (len + 1) =
      if c = 0 ∨ d = 0 then (c.toNat : Int) - d.toNat
      else if tolower c = tolower d then strncasecmp s1 s2 len
      else (tolower c).toNat - (tolower d).toNat := rfl

/-- A name without a zero equals another of its length up to case exactly if
they are the same in lower case. -/
theorem strncasecmp_eq_zero_iff {name x : List UInt8} (hname : ∀ c ∈ name, c ≠ 0)
    (hlength : name.length = x.length) :
    strncasecmp name x x.length = 0 ↔ name.map tolower = x.map tolower := by
  induction name generalizing x with
  | nil =>
      have hx : x = [] := List.length_eq_zero_iff.mp hlength.symm
      simp [hx, strncasecmp]
  | cons c name ih =>
      cases x with
      | nil => cases hlength
      | cons d x =>
          have hc : c ≠ 0 := hname c (by simp)
          have htail := ih (fun e he => hname e (List.mem_cons_of_mem c he))
            (Nat.succ_injective hlength)
          rw [List.length_cons, strncasecmp_cons, List.map_cons, List.map_cons,
            List.cons_eq_cons]
          by_cases hd : d = 0
          · subst hd
            have hlower : tolower c ≠ tolower 0 := fun hsame =>
              hc ((tolower_eq_zero_iff c).mp (hsame.trans ((tolower_eq_zero_iff 0).mpr rfl)))
            have hvalue : c.toNat ≠ 0 := fun hzero => hc (UInt8.toNat_inj.mp hzero)
            simp [hlower, hvalue]
          · rw [if_neg (by simp [hc, hd])]
            by_cases hlower : tolower c = tolower d
            · rw [if_pos hlower, htail]
              simp [hlower]
            · rw [if_neg hlower]
              have hdiffer : (tolower c).toNat ≠ (tolower d).toNat := fun hsame =>
                hlower (UInt8.toNat_inj.mp hsame)
              simp only [hlower, false_and, iff_false]
              omega

/-- The test of `lookup_cb`: equal length, and equal as `strncasecmp` compares. -/
def SameName (name x : List UInt8) : Prop :=
  name.length = x.length ∧ strncasecmp name x x.length = 0

instance (name x : List UInt8) : Decidable (SameName name x) := by
  unfold SameName
  infer_instance

theorem sameName_entryName_iff (de : Direntry) (x : List UInt8) :
    SameName (entryName de) x ↔ (entryName de).map tolower = x.map tolower := by
  constructor
  · rintro ⟨hlength, hcompare⟩
    exact (strncasecmp_eq_zero_iff (entryName_ne_zero de) hlength).mp hcompare
  · intro hlower
    have hlength : (entryName de).length = x.length := by
      simpa using congrArg List.length hlower
    exact ⟨hlength, (strncasecmp_eq_zero_iff (entryName_ne_zero de) hlength).mpr hlower⟩

/-! ## The callback -/

def sIfmt : ℕ := 0o170000
def sIfdir : ℕ := 0o040000
def sIfreg : ℕ := 0o100000

structure Inode where
  ino : ℕ
  info : InodeInfo
  size : ℕ
  mode : ℕ

/-- `penguin_fat16_iget`: `memory` is whether the inode and its information
could be allocated. -/
def penguinFat16Iget (memory : Bool) (ino : ℕ) (de : Direntry) : Except Int Inode :=
  if memory then
    .ok {
      ino
      info := ⟨de.firstClusterLow, de.fileSize, de.firstClusterLow_lt, de.fileSize_lt⟩
      size := de.fileSize
      mode := if de.isDir then sIfdir ||| 0o555 else sIfreg ||| 0o444 }
  else .error enomem

/-- `penguin_fat16_get_root_inode`. -/
def penguinFat16GetRootInode (memory : Bool) : Except Int Inode :=
  penguinFat16Iget memory 1
    { filename := List.replicate 11 0
      attr := 0x10
      firstClusterLow := 0
      fileSize := 0
      filename_length := List.length_replicate
      firstClusterLow_lt := by norm_num
      fileSize_lt := by norm_num }

/-- The data of the callback is what it selects: the inode handed to the dentry
cache, or the error returned in its place. -/
def lookupCb (volume : Volume) (memory : Bool) (name : List UInt8) :
    DirentCb (Option (Except Int Inode)) :=
  fun de entrySector entryIdx _ selected =>
    if de.isSkip then (0, selected)
    else if (entryName de).length ≠ name.length ∨
        strncasecmp (entryName de) name name.length ≠ 0 then (0, selected)
    else (1, some (penguinFat16Iget memory (makeIno volume entrySector entryIdx) de))

/-- `penguin_fat16_lookup` up to the dentry cache: the walk's error, or what was
selected. -/
def penguinFat16Lookup (fuel : ℕ) (volume : Volume) (startCluster : ℕ) (allocated memory : Bool)
    (name : List UInt8) : Option (Except Int (Option (Except Int Inode))) :=
  (dirWalk fuel volume startCluster allocated (lookupCb volume memory name) none).map fun reply =>
    if reply.1 < 0 then .error reply.1 else .ok reply.2

/-- The type of an inode, as a listing reports it. -/
def Inode.dType (inode : Inode) : DType := if inode.mode &&& sIfmt = sIfdir then .dir else .reg

/-! ## Selecting from a listing -/

/-- An inode is selected for the first entry with the name, and none where no
entry has it. -/
def Selects (listing : List Emission) (name : List UInt8) : Option (Except Int Inode) → Prop
  | none => ∀ entry ∈ listing, ¬ SameName entry.name name
  | some (.error _) => False
  | some (.ok inode) => ∃ before entry after, listing = before ++ entry :: after ∧
      (∀ earlier ∈ before, ¬ SameName earlier.name name) ∧ SameName entry.name name ∧
      inode.ino = entry.ino ∧ inode.dType = entry.dType

theorem Selects.cons {listing : List Emission} {name : List UInt8}
    {selected : Option (Except Int Inode)} (hselects : Selects listing name selected)
    {entry : Emission} (hother : ¬ SameName entry.name name) :
    Selects (entry :: listing) name selected := by
  match selected, hselects with
  | none, hnone =>
      intro other hmem
      rcases List.mem_cons.mp hmem with rfl | hrest
      · exact hother
      · exact hnone other hrest
  | some (.ok inode), ⟨before, found, after, hlisting, hbefore, hfound⟩ =>
      refine ⟨entry :: before, found, after, by rw [hlisting, List.cons_append], ?_, hfound⟩
      intro earlier hmem
      rcases List.mem_cons.mp hmem with rfl | hrest
      · exact hother
      · exact hbefore earlier hrest

theorem dType_penguinFat16Iget (ino : ℕ) (de : Direntry) :
    ∃ inode, penguinFat16Iget true ino de = .ok inode ∧ inode.ino = ino ∧
      inode.dType = if de.isDir then .dir else .reg := by
  refine ⟨_, rfl, rfl, ?_⟩
  simp only [Inode.dType]
  split
  · rfl
  · rfl

/-- The walk of a lookup selects from the entries a listing would emit. -/
theorem foldlM_lookupCb {volume : Volume} {name : List UInt8} {absIdx : ℕ} {slots : List Slot}
    (hbound : absIdx + slots.length < 2 ^ 32) :
    Selects (slotItems volume absIdx slots).reduceOption name
        (walkReply (slots.foldlM (visitSlot (lookupCb volume true name)) (none, absIdx))).2 ∧
      0 ≤ (walkReply (slots.foldlM (visitSlot (lookupCb volume true name)) (none, absIdx))).1 := by
  induction slots generalizing absIdx with
  | nil => exact ⟨by simp [slotItems, walkReply, Selects, pure, Except.pure], le_rfl⟩
  | cons slot slots ih =>
      rw [List.length_cons] at hbound
      have hnext : u32 (absIdx + 1) = absIdx + 1 := u32_of_lt (by omega)
      have hrest := @ih (absIdx + 1) (by omega)
      by_cases hend : slot.de.isEnd = true
      · rw [foldlM_cons_of_error slots (visitSlot_end hend), slotItems, if_pos hend]
        exact ⟨by simp [walkReply, Selects], le_rfl⟩
      rw [slotItems, if_neg hend, slotItem]
      by_cases hskip : slot.de.isSkip = true
      · have hvisit : visitSlot (lookupCb volume true name) (none, absIdx) slot =
            .ok (none, absIdx + 1) := by
          simp [visitSlot, visit, hend, lookupCb, hskip, hnext]
        rw [foldlM_cons_of_ok slots hvisit, if_pos hskip, List.reduceOption_cons_of_none]
        exact hrest
      rw [if_neg hskip, List.reduceOption_cons_of_some]
      by_cases hname : SameName (entryName slot.de) name
      · obtain ⟨inode, higet, hino, htype⟩ :=
          dType_penguinFat16Iget (makeIno volume slot.sector slot.idx) slot.de
        have hvisit : visitSlot (lookupCb volume true name) (none, absIdx) slot =
            .error (1, some (.ok inode)) := by
          simp [visitSlot, visit, hend, lookupCb, hskip, hname.1, hname.2, higet]
        rw [foldlM_cons_of_error slots hvisit]
        exact ⟨⟨[], _, _, rfl, by simp, hname, hino, htype⟩, by norm_num [walkReply]⟩
      · have hvisit : visitSlot (lookupCb volume true name) (none, absIdx) slot =
            .ok (none, absIdx + 1) := by
          have hdiffers : (entryName slot.de).length ≠ name.length ∨
              strncasecmp (entryName slot.de) name name.length ≠ 0 := not_and_or.mp hname
          simp [visitSlot, visit, hend, lookupCb, hskip, hdiffers, hnext]
        rw [foldlM_cons_of_ok slots hvisit]
        exact ⟨hrest.1.cons hname, hrest.2⟩

/-! ## Lookup and listing -/

/-- The entries a listing emits behind the dots, from the first slot on. -/
theorem dirWalk_iterateCb {volume : Volume} {startCluster fuel : ℕ}
    (storage : Storage volume startCluster) (hfuel : storage.rounds < fuel) :
    ∃ listing, dirWalk fuel volume startCluster true (iterateCb volume 0) ⟨2, none, [], false⟩ =
        some (0, listing) ∧
      listing.emitted = (slotItems volume 0 storage.slots).reduceOption := by
  have hbound := storage.length_slots_lt
  have hwalk := @foldlM_iterateCb volume 0 0 storage.slots ⟨2, none, [], false⟩ (by omega) rfl
  rw [Nat.sub_zero, List.drop_zero, serve_unlimited] at hwalk
  exact ⟨_, by rw [dirWalk_eq storage hfuel, hwalk]; rfl, List.nil_append _⟩

theorem penguinFat16Lookup_selects {volume : Volume} {startCluster fuel : ℕ}
    (storage : Storage volume startCluster) (hfuel : storage.rounds < fuel) (name : List UInt8) :
    ∃ selected, penguinFat16Lookup fuel volume startCluster true true name = some (.ok selected) ∧
      Selects (slotItems volume 0 storage.slots).reduceOption name selected := by
  have hbound := storage.length_slots_lt
  obtain ⟨hselects, hret⟩ := @foldlM_lookupCb volume name 0 storage.slots (by omega)
  refine ⟨_, ?_, hselects⟩
  rw [penguinFat16Lookup, dirWalk_eq storage hfuel, Option.map_some,
    if_neg (Int.not_lt.mpr hret)]

/-- A lookup selects an entry exactly if a listing emits one with the name up to
case, and it selects the first of them, with its inode number and its type. -/
theorem lookup_agrees {volume : Volume} {startCluster : ℕ} (storage : Storage volume startCluster)
    (fuel : ℕ) (hfuel : storage.rounds < fuel) (name : List UInt8) :
    ∃ listing selected,
      dirWalk fuel volume startCluster true (iterateCb volume 0) ⟨2, none, [], false⟩ =
        some (0, listing) ∧
      penguinFat16Lookup fuel volume startCluster true true name = some (.ok selected) ∧
      (selected.isSome ↔ ∃ entry ∈ listing.emitted, SameName entry.name name) ∧
      ∀ found, selected = some found → ∃ inode before entry after, found = .ok inode ∧
        listing.emitted = before ++ entry :: after ∧
        (∀ earlier ∈ before, ¬ SameName earlier.name name) ∧ SameName entry.name name ∧
        inode.ino = entry.ino ∧ inode.dType = entry.dType := by
  obtain ⟨listing, hlisting, hemitted⟩ := dirWalk_iterateCb storage hfuel
  obtain ⟨selected, hlookup, hselects⟩ := penguinFat16Lookup_selects storage hfuel name
  rw [← hemitted] at hselects
  refine ⟨listing, selected, hlisting, hlookup, ?_⟩
  match selected, hselects with
  | none, hnone => exact ⟨by simpa [Selects] using hnone, fun found hfound => by cases hfound⟩
  | some (.ok inode), ⟨before, entry, after, hsplit, hbefore, hname, hsame⟩ =>
      refine ⟨iff_of_true rfl ⟨entry, by simp [hsplit], hname⟩, fun found hfound => ?_⟩
      cases hfound
      exact ⟨inode, before, entry, after, rfl, hsplit, hbefore, hname, hsame⟩

/-- The name of the note, in lower case. -/
def noteName : List UInt8 := [0x6E, 0x6F, 0x74, 0x65, 0x2E, 0x74, 0x78, 0x74]

theorem lookup_agrees_smallRoot :
    ∃ listing selected,
      dirWalk 1 smallVolume 0 true (iterateCb smallVolume 0) ⟨2, none, [], false⟩ =
        some (0, listing) ∧
      penguinFat16Lookup 1 smallVolume 0 true true noteName = some (.ok selected) ∧
      (selected.isSome ↔ ∃ entry ∈ listing.emitted, SameName entry.name noteName) ∧
      ∀ found, selected = some found → ∃ inode before entry after, found = .ok inode ∧
        listing.emitted = before ++ entry :: after ∧
        (∀ earlier ∈ before, ¬ SameName earlier.name noteName) ∧ SameName entry.name noteName ∧
        inode.ino = entry.ino ∧ inode.dType = entry.dType :=
  lookup_agrees smallRoot 1 (by decide) noteName

example : (penguinFat16Lookup 1 smallVolume 0 true true noteName).map
    (fun reply => reply.toOption.join.map fun found => found.toOption.map Inode.ino) =
      some (some (some 1088)) := by
  decide +kernel

end DoomsdayModules.Fat16.Lookup
