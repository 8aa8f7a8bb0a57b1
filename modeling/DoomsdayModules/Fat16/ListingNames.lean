import DoomsdayModules.Fat16.Lookup

/-!
# The names of a listing

A listing takes its names from two sources: the two dots come from
`dir_emit_dots`, and one name from each entry that is not skipped.  In a
subdirectory the first two entries are the dots once more, and nothing skips
them, so that both are emitted twice.
-/

namespace DoomsdayModules.Fat16.ListingNames

open DoomsdayModules.EarlyExit DoomsdayModules.Fat16.Image DoomsdayModules.Fat16.Directory
open DoomsdayModules.Fat16.Readdir DoomsdayModules.Fat16.Lookup

/-- The entries that a walk comes to and a callback does not skip. -/
def listed (slots : List Slot) : List Slot :=
  (slots.takeWhile fun slot => !slot.de.isEnd).filter fun slot => !slot.de.isSkip

def slotName (slot : Slot) : List UInt8 := entryName slot.de

/-- A directory as the format has it: no two entries with one name, whatever
the case, and in front of a subdirectory its own two dots. -/
structure WellFormed {volume : Volume} {startCluster : ℕ}
    (storage : Storage volume startCluster) : Prop where
  distinct : ((listed storage.slots).map fun slot => (slotName slot).map tolower).Nodup
  dots : startCluster ≠ 0 → ∃ self parent rest, storage.slots = self :: parent :: rest ∧
    (self.de.isEnd = false ∧ self.de.isSkip = false ∧ self.de.isDir = true ∧
      slotName self = [dot]) ∧
    parent.de.isEnd = false ∧ parent.de.isSkip = false ∧ parent.de.isDir = true ∧
      slotName parent = [dot, dot]

/-! ## Names -/

theorem listed_cons (slot : Slot) (slots : List Slot) :
    listed (slot :: slots) =
      if slot.de.isEnd then [] else if slot.de.isSkip then listed slots else slot :: listed slots := by
  by_cases hend : slot.de.isEnd = true
  · simp [listed, hend]
  · by_cases hskip : slot.de.isSkip = true <;> simp [listed, hend, hskip]

theorem map_name_slotItems (volume : Volume) (absIdx : ℕ) (slots : List Slot) :
    (slotItems volume absIdx slots).reduceOption.map Emission.name =
      (listed slots).map slotName := by
  induction slots generalizing absIdx with
  | nil => rfl
  | cons slot slots ih =>
      rw [slotItems, listed_cons]
      by_cases hend : slot.de.isEnd = true
      · rw [if_pos hend, if_pos hend]
        rfl
      rw [if_neg hend, if_neg hend, slotItem]
      by_cases hskip : slot.de.isSkip = true
      · rw [if_pos hskip, if_pos hskip, List.reduceOption_cons_of_none]
        exact ih _
      · rw [if_neg hskip, if_neg hskip, List.reduceOption_cons_of_some, List.map_cons,
          List.map_cons, ih]
        rfl

/-- The names of a whole listing. -/
theorem map_name_stream {volume : Volume} {startCluster : ℕ}
    (storage : Storage volume startCluster) (dots : Dots) :
    (stream storage dots).reduceOption.map Emission.name =
      [dot] :: [dot, dot] :: (listed storage.slots).map slotName := by
  rw [stream, dirStream, List.reduceOption_cons_of_some, List.reduceOption_cons_of_some,
    List.map_cons, List.map_cons, map_name_slotItems]

theorem nodup_slotName {slots : List Slot}
    (hdistinct : ((listed slots).map fun slot => (slotName slot).map tolower).Nodup) :
    ((listed slots).map slotName).Nodup := by
  refine List.Nodup.of_map (List.map tolower) ?_
  rwa [List.map_map]

theorem nodup_names_iff {slots : List Slot}
    (hdistinct : ((listed slots).map fun slot => (slotName slot).map tolower).Nodup) :
    ([dot] :: [dot, dot] :: (listed slots).map slotName).Nodup ↔
      ∀ slot ∈ listed slots, slotName slot ≠ [dot] ∧ slotName slot ≠ [dot, dot] := by
  rw [List.nodup_cons, List.nodup_cons, and_iff_left (nodup_slotName hdistinct)]
  constructor
  · rintro ⟨hself, hparent⟩ slot hslot
    have hname := List.mem_map_of_mem (f := slotName) hslot
    refine ⟨fun hsame => hself ?_, fun hsame => hparent ?_⟩
    · exact List.mem_cons_of_mem _ (hsame ▸ hname)
    · exact hsame ▸ hname
  · intro hother
    refine ⟨fun hmem => ?_, fun hmem => ?_⟩
    · rcases List.mem_cons.mp hmem with hsame | hmem
      · exact absurd hsame (by decide)
      · obtain ⟨slot, hslot, hsame⟩ := List.mem_map.mp hmem
        exact (hother slot hslot).1 hsame
    · obtain ⟨slot, hslot, hsame⟩ := List.mem_map.mp hmem
      exact (hother slot hslot).2 hsame

/-! ## Listings -/

/-- A complete listing of a well-formed directory, split into calls in any way,
emits each name once exactly if the directory is the root and none of its
entries is named like one of the two dots. -/
theorem listing_nodup_iff {volume : Volume} {startCluster fuel : ℕ}
    (storage : Storage volume startCluster) (hwell : WellFormed storage) (dots : Dots)
    (hfuel : storage.rounds < fuel) {rooms : List (Option ℕ)} {room : Option ℕ}
    {emitted : List Emission} {pos : ℕ} {ret : Int} {last : DirContext}
    (hcalls : calls fuel volume startCluster dots 0 rooms = some (emitted, pos))
    (hlast : call fuel volume startCluster dots pos room = some (ret, last))
    (hcomplete : last.refused = false) :
    ((emitted ++ last.emitted).map Emission.name).Nodup ↔
      startCluster = 0 ∧
        ∀ slot ∈ listed storage.slots, slotName slot ≠ [dot] ∧ slotName slot ≠ [dot, dot] := by
  obtain ⟨rest, hall, hnothing⟩ := calls_append storage dots hfuel hcalls hlast
  rw [hnothing hcomplete, List.append_nil] at hall
  rw [hall, map_name_stream, nodup_names_iff hwell.distinct]
  refine (and_iff_right_of_imp fun hother => ?_).symm
  by_contra hstart
  obtain ⟨self, parent, slots, hslots, ⟨hend, hskip, -, hname⟩, -⟩ := hwell.dots hstart
  rw [hslots, listed_cons, hend, hskip] at hother
  exact (hother self List.mem_cons_self).1 hname

/-! ## A subdirectory -/

/-- The small image with the two dots in its cluster. -/
def dotsDevice : Device := fun address =>
  if 1536 ≤ address ∧ address < 1600 then
    some (if address = 1536 ∨ address = 1568 ∨ address = 1569 then 0x2E
      else if address = 1547 ∨ address = 1579 then 0x10
      else 0x20)
  else if 1600 ≤ address ∧ address < 2048 then some 0
  else smallDevice address

def dotsVolume : Volume := Volume.mount dotsDevice (by decide +kernel)

def dotsDirectory : Storage dotsVolume 2 :=
  .clusters (by decide) ((followChain dotsVolume 2 2).get (by decide +kernel))
    (Chain.of_followChain (Option.some_get _).symm)

theorem wellFormed_dotsDirectory : WellFormed dotsDirectory where
  distinct := by decide +kernel
  dots := by
    intro _
    have hfirst : (dotsDirectory.slots.take 2).map (fun slot =>
        (slot.de.isEnd, slot.de.isSkip, slot.de.isDir, slotName slot)) =
          [(false, false, true, [dot]), (false, false, true, [dot, dot])] := by
      decide +kernel
    generalize dotsDirectory.slots = slots at hfirst
    match slots, hfirst with
    | [_], hfirst => simp at hfirst
    | self :: parent :: rest, hfirst =>
        simp only [List.take_succ_cons, List.take_zero, List.map_cons, List.map_nil,
          List.cons.injEq, Prod.mk.injEq, and_true] at hfirst
        exact ⟨self, parent, rest, rfl, hfirst⟩

theorem wellFormed_smallRoot : WellFormed smallRoot where
  distinct := by decide +kernel
  dots := fun hstart => absurd rfl hstart

theorem listing_smallRoot :
    ∃ last, call 1 smallVolume 0 ⟨1, 1⟩ 0 none = some (0, last) ∧
      (((([] : List Emission) ++ last.emitted).map Emission.name).Nodup ↔
        (0 : ℕ) = 0 ∧ ∀ slot ∈ listed smallRoot.slots,
          slotName slot ≠ [dot] ∧ slotName slot ≠ [dot, dot]) := by
  have hcall := call_eq smallRoot ⟨1, 1⟩ (by decide : smallRoot.rounds < 1) 0 none
  refine ⟨_, hcall, @listing_nodup_iff smallVolume 0 1 smallRoot wellFormed_smallRoot ⟨1, 1⟩
    (by decide) [] none [] 0 0 _ rfl hcall ?_⟩
  simp [DirContext.after, ResumableStream.serve_unlimited]

/-- A subdirectory lists its dots twice. -/
theorem not_listing_dotsDirectory :
    ¬ ∀ (volume : Volume) (startCluster fuel : ℕ) (storage : Storage volume startCluster)
      (dots : Dots) (rooms : List (Option ℕ)) (room : Option ℕ) (emitted : List Emission)
      (pos : ℕ) (ret : Int) (last : DirContext), WellFormed storage → storage.rounds < fuel →
      calls fuel volume startCluster dots 0 rooms = some (emitted, pos) →
      call fuel volume startCluster dots pos room = some (ret, last) → last.refused = false →
      ((emitted ++ last.emitted).map Emission.name).Nodup := by
  intro hclaim
  have hnames : (call 2 dotsVolume 2 ⟨1088, 1⟩ 0 none).map (fun reply =>
      (reply.2.refused, reply.2.emitted.map Emission.name)) =
        some (false, [[dot], [dot, dot], [dot], [dot, dot]]) := by
    decide +kernel
  obtain ⟨⟨ret, last⟩, hcall, hsame⟩ := Option.map_eq_some_iff.mp hnames
  obtain ⟨hcomplete, hemitted⟩ := Prod.mk.inj hsame
  have honce := hclaim dotsVolume 2 2 dotsDirectory ⟨1088, 1⟩ [] none [] 0 ret last
    wellFormed_dotsDirectory (by decide +kernel) rfl hcall hcomplete
  rw [List.nil_append, hemitted] at honce
  exact absurd honce (by decide)

end DoomsdayModules.Fat16.ListingNames
