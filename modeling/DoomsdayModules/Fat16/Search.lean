import DoomsdayModules.Fat16.Lookup
import DoomsdayModules.Fat16.Walk

/-!
# Walks that search

A callback that lets entries pass until one is chosen leaves the same walk
behind on every image: it stops at the first chosen entry, or there is none in
front of the end of the directory, or something could not be read.  Looking up
a name is such a search.
-/

namespace DoomsdayModules.Fat16.Search

open DoomsdayModules.EarlyExit
open DoomsdayModules.Fat16.Image DoomsdayModules.Fat16.Directory DoomsdayModules.Fat16.Lookup
open DoomsdayModules.Fat16.Walk

variable {σ : Type*} {volume : Volume} {startCluster : ℕ}

/-! ## Entries of a directory -/

/-- A slot a walk can come to: no slot before it, nor the slot itself, is an end marker. -/
def IsEntry (volume : Volume) (startCluster : ℕ) (slot : Slot) : Prop :=
  ∃ before after, Visited volume startCluster (before ++ slot :: after) ∧
    (∀ earlier ∈ before, earlier.de.isEnd = false) ∧ slot.de.isEnd = false

/-- The first entry that is chosen. -/
def IsFirst (volume : Volume) (startCluster : ℕ) (chosen : Slot → Prop) (slot : Slot) : Prop :=
  ∃ before after, Visited volume startCluster (before ++ slot :: after) ∧
    (∀ earlier ∈ before, earlier.de.isEnd = false ∧ ¬ chosen earlier) ∧
    slot.de.isEnd = false ∧ chosen slot

theorem IsFirst.isEntry {chosen : Slot → Prop} {slot : Slot}
    (hfirst : IsFirst volume startCluster chosen slot) :
    IsEntry volume startCluster slot ∧ chosen slot := by
  obtain ⟨before, after, hvisited, hbefore, hend, hchosen⟩ := hfirst
  exact ⟨⟨before, after, hvisited, fun earlier hmem => (hbefore earlier hmem).1, hend⟩, hchosen⟩

/-- Where an entry is chosen there is a first one. -/
theorem exists_isFirst {chosen : Slot → Prop} [DecidablePred chosen] {slot : Slot}
    (hentry : IsEntry volume startCluster slot) (hchosen : chosen slot) :
    ∃ first, IsFirst volume startCluster chosen first := by
  obtain ⟨before, after, hvisited, hbefore, hend⟩ := hentry
  have hsome : ((before ++ [slot]).find? (chosen ·)).isSome = true :=
    List.find?_isSome.mpr ⟨slot, by simp, by simpa using hchosen⟩
  obtain ⟨first, hfirst⟩ := Option.isSome_iff_exists.mp hsome
  obtain ⟨hfound, front, rest, hsplit, hfront⟩ := List.find?_eq_some_iff_append.mp hfirst
  have hall : ∀ earlier ∈ before ++ [slot], earlier.de.isEnd = false := by
    intro earlier hmem
    rcases List.mem_append.mp hmem with hold | hlast
    · exact hbefore earlier hold
    · rwa [List.mem_singleton.mp hlast]
  rw [← List.singleton_append, ← List.append_assoc, hsplit, List.append_assoc,
    List.cons_append] at hvisited
  rw [hsplit] at hall
  refine ⟨first, front, rest ++ after, hvisited, fun earlier hmem => ⟨?_, ?_⟩, ?_, ?_⟩
  · exact hall earlier (List.mem_append_left _ hmem)
  · simpa using hfront earlier hmem
  · exact hall first (by simp)
  · simpa using hfound

/-! ## The search -/

/-- Let entries pass until one is chosen, and stop with what is made of it. -/
def searchCb (chosen : Slot → Prop) [DecidablePred chosen] (found : Slot → σ → σ) : DirentCb σ :=
  fun de sector idx _ data =>
    if chosen ⟨de, sector, idx⟩ then (1, found ⟨de, sector, idx⟩ data) else (0, data)

section Loop

variable {chosen : Slot → Prop} [DecidablePred chosen] {found : Slot → σ → σ} {data : σ}

theorem visitSlot_pass {slot : Slot} (hend : slot.de.isEnd = false) (hpass : ¬ chosen slot)
    (absIdx : ℕ) :
    visitSlot (searchCb chosen found) (data, absIdx) slot = .ok (data, u32 (absIdx + 1)) := by
  simp [visitSlot, visit, hend, searchCb, hpass]

theorem visitSlot_chosen {slot : Slot} (hend : slot.de.isEnd = false) (hchosen : chosen slot)
    (absIdx : ℕ) :
    visitSlot (searchCb chosen found) (data, absIdx) slot = .error (1, found slot data) := by
  simp [visitSlot, visit, hend, searchCb, hchosen]

theorem foldlM_pass {slots : List Slot}
    (hpass : ∀ slot ∈ slots, slot.de.isEnd = false ∧ ¬ chosen slot) (absIdx : ℕ) :
    ∃ after, slots.foldlM (visitSlot (searchCb chosen found)) (data, absIdx) =
      .ok (data, after) := by
  induction slots generalizing absIdx with
  | nil => exact ⟨absIdx, rfl⟩
  | cons slot slots ih =>
      obtain ⟨hend, hother⟩ := hpass slot List.mem_cons_self
      rw [foldlM_cons_of_ok slots (visitSlot_pass hend hother absIdx)]
      exact ih (fun later hmem => hpass later (List.mem_cons_of_mem _ hmem)) _

theorem foldlM_chosen {before after : List Slot} {slot : Slot}
    (hbefore : ∀ earlier ∈ before, earlier.de.isEnd = false ∧ ¬ chosen earlier)
    (hend : slot.de.isEnd = false) (hchosen : chosen slot) (absIdx : ℕ) :
    (before ++ slot :: after).foldlM (visitSlot (searchCb chosen found)) (data, absIdx) =
      .error (1, found slot data) := by
  obtain ⟨middle, hmiddle⟩ := @foldlM_pass σ chosen _ found data before hbefore absIdx
  rw [foldlM_append_of_ok hmiddle, foldlM_cons_of_error _ (visitSlot_chosen hend hchosen middle)]

/-- A search through slots passes all of them, or comes to an end marker or to a
chosen slot. -/
theorem foldlM_searchCb (slots : List Slot) (absIdx : ℕ) :
    (∃ after, slots.foldlM (visitSlot (searchCb chosen found)) (data, absIdx) =
      .ok (data, after)) ∨
    slots.foldlM (visitSlot (searchCb chosen found)) (data, absIdx) = .error (0, data) ∨
    ∃ before slot after, slots = before ++ slot :: after ∧
      (∀ earlier ∈ before, earlier.de.isEnd = false ∧ ¬ chosen earlier) ∧
      slot.de.isEnd = false ∧ chosen slot ∧
      slots.foldlM (visitSlot (searchCb chosen found)) (data, absIdx) =
        .error (1, found slot data) := by
  induction slots generalizing absIdx with
  | nil => exact .inl ⟨absIdx, rfl⟩
  | cons slot slots ih =>
      by_cases hend : slot.de.isEnd = true
      · refine .inr (.inl (foldlM_cons_of_error slots ?_))
        rw [visitSlot, visit, if_pos hend]
      rw [Bool.not_eq_true] at hend
      by_cases hchosen : chosen slot
      · exact .inr (.inr ⟨[], slot, slots, rfl, by simp, hend, hchosen,
          foldlM_cons_of_error slots (visitSlot_chosen hend hchosen absIdx)⟩)
      rw [foldlM_cons_of_ok slots (visitSlot_pass hend hchosen absIdx)]
      rcases ih (u32 (absIdx + 1)) with hall | hmarker | ⟨before, first, after, rfl, hbefore, hrest⟩
      · exact .inl hall
      · exact .inr (.inl hmarker)
      · refine .inr (.inr ⟨slot :: before, first, after, rfl, ?_, hrest⟩)
        intro earlier hmem
        rcases List.mem_cons.mp hmem with rfl | hrestmem
        · exact ⟨hend, hchosen⟩
        · exact hbefore earlier hrestmem

end Loop

/-- Where a first chosen entry exists the search stops at it. -/
theorem dirWalk_of_isFirst {chosen : Slot → Prop} [DecidablePred chosen] {found : Slot → σ → σ}
    {data : σ} {slot : Slot} {allocated : Bool} (hallocated : startCluster ≠ 0 → allocated = true)
    (hfirst : IsFirst volume startCluster chosen slot) :
    ∃ fuel, dirWalk fuel volume startCluster allocated (searchCb chosen found) data =
      some (1, found slot data) := by
  obtain ⟨before, after, hvisited, hbefore, hend, hchosen⟩ := hfirst
  exact dirWalk_of_stopped hvisited hallocated (foldlM_chosen hbefore hend hchosen 0)

/-- What a search returns, on every image. -/
theorem dirWalk_searchCb {chosen : Slot → Prop} [DecidablePred chosen] {found : Slot → σ → σ}
    {fuel : ℕ} {allocated : Bool} {data : σ} {reply : Int × σ}
    (hwalk : dirWalk fuel volume startCluster allocated (searchCb chosen found) data =
      some reply) :
    (startCluster ≠ 0 ∧ allocated = false ∧ reply = (enomem, data)) ∨
      (startCluster ≠ 0 → allocated = true) ∧
        ((∃ slot, IsFirst volume startCluster chosen slot ∧ reply = (1, found slot data)) ∨
          (∀ slot, ¬ IsFirst volume startCluster chosen slot) ∧
            (reply = (0, data) ∨ reply = (eio, data))) := by
  rcases dirWalk_cases hwalk with hbuffer | ⟨slots, hvisited, hended⟩
  · exact .inl hbuffer
  by_cases hallocated : startCluster ≠ 0 → allocated = true
  swap
  · obtain ⟨hstart, hnone⟩ := Classical.not_imp.mp hallocated
    rw [Bool.not_eq_true] at hnone
    rw [dirWalk, if_neg hstart, hnone, if_neg Bool.false_ne_true, Option.some.injEq] at hwalk
    exact .inl ⟨hstart, hnone, hwalk.symm⟩
  refine .inr ⟨hallocated, ?_⟩
  have hmiss : reply = (0, data) ∨ reply = (eio, data) →
      ∀ slot, ¬ IsFirst volume startCluster chosen slot := by
    intro hreply slot hfirst
    obtain ⟨more, hstop⟩ := @dirWalk_of_isFirst σ volume startCluster chosen _ found data slot
      allocated hallocated hfirst
    have hsame := congrArg Prod.fst (dirWalk_unique hwalk hstop)
    rcases hreply with rfl | rfl
    · exact absurd hsame (by norm_num)
    · exact absurd hsame (by norm_num [eio])
  rcases @foldlM_searchCb σ chosen _ found data slots 0 with
    ⟨after, hall⟩ | hmarker | ⟨before, slot, after, rfl, hbefore, hend, hchosen, hstop⟩
  · have hreply := hended.of_ok hall
    exact .inr ⟨hmiss hreply, hreply⟩
  · have hreply := hended.of_error hmarker
    exact .inr ⟨hmiss (.inl hreply), .inl hreply⟩
  · have hreply := hended.of_error hstop
    exact .inl ⟨slot, ⟨before, after, hvisited, hbefore, hend, hchosen⟩, hreply⟩

/-- There is at most one first chosen entry. -/
theorem IsFirst.unique {chosen : Slot → Prop} [DecidablePred chosen] {slot other : Slot}
    (hfirst : IsFirst volume startCluster chosen slot)
    (hother : IsFirst volume startCluster chosen other) : slot = other := by
  obtain ⟨fuel, hwalk⟩ := @dirWalk_of_isFirst (Option Slot) volume startCluster chosen _
    (fun slot _ => some slot) none slot true (fun _ => rfl) hfirst
  obtain ⟨fuel', hwalk'⟩ := @dirWalk_of_isFirst (Option Slot) volume startCluster chosen _
    (fun slot _ => some slot) none other true (fun _ => rfl) hother
  simpa using dirWalk_unique hwalk hwalk'

/-! ## Looking up a name -/

/-- The entries `lookup_cb` stops at. -/
def Named (name : List UInt8) (slot : Slot) : Prop :=
  slot.de.isSkip = false ∧ SameName (entryName slot.de) name

instance (name : List UInt8) (slot : Slot) : Decidable (Named name slot) := by
  unfold Named
  infer_instance

theorem lookupCb_eq_searchCb (volume : Volume) (memory : Bool) (name : List UInt8) :
    lookupCb volume memory name = searchCb (Named name) fun slot _ =>
      some (penguinFat16Iget memory (makeIno volume slot.sector slot.idx) slot.de) := by
  funext de sector idx absIdx selected
  simp only [lookupCb, searchCb]
  by_cases hskip : de.isSkip = true
  · have hother : ¬ Named name ⟨de, sector, idx⟩ := fun hnamed =>
      absurd hskip (by simpa using hnamed.1)
    rw [if_pos hskip, if_neg hother]
  rw [if_neg hskip]
  by_cases hname : SameName (entryName de) name
  · have hnamed : Named name ⟨de, sector, idx⟩ := ⟨by simpa using hskip, hname⟩
    rw [if_neg (by simp [hname.1, hname.2]), if_pos hnamed]
  · have hother : ¬ Named name ⟨de, sector, idx⟩ := fun hnamed => hname hnamed.2
    rw [if_pos (not_and_or.mp hname), if_neg hother]

/-- A lookup selects the first entry with the name, and none where there is no
such entry. -/
theorem penguinFat16Lookup_cases {fuel : ℕ} {allocated memory : Bool} {name : List UInt8}
    {reply : Except Int (Option (Except Int Inode))}
    (hlookup : penguinFat16Lookup fuel volume startCluster allocated memory name = some reply) :
    (startCluster ≠ 0 ∧ allocated = false ∧ reply = .error enomem) ∨
      (startCluster ≠ 0 → allocated = true) ∧
        ((∃ slot, IsFirst volume startCluster (Named name) slot ∧
          reply = .ok (some (penguinFat16Iget memory (makeIno volume slot.sector slot.idx)
            slot.de))) ∨
          (∀ slot, ¬ IsFirst volume startCluster (Named name) slot) ∧
            (reply = .ok none ∨ reply = .error eio)) := by
  rw [penguinFat16Lookup, lookupCb_eq_searchCb] at hlookup
  obtain ⟨walked, hwalk, rfl⟩ := Option.map_eq_some_iff.mp hlookup
  rcases dirWalk_searchCb hwalk with
    ⟨hstart, hnone, rfl⟩ | ⟨hallocated, ⟨slot, hfirst, rfl⟩ | ⟨hmiss, rfl | rfl⟩⟩
  · exact .inl ⟨hstart, hnone, rfl⟩
  · exact .inr ⟨hallocated, .inl ⟨slot, hfirst, rfl⟩⟩
  · exact .inr ⟨hallocated, .inr ⟨hmiss, .inl rfl⟩⟩
  · exact .inr ⟨hallocated, .inr ⟨hmiss, .inr rfl⟩⟩

end DoomsdayModules.Fat16.Search
