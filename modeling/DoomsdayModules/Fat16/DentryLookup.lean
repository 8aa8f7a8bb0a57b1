import DoomsdayModules.Fat16.Search

/-!
# Lookups and the dentry cache

A lookup hands the inode it selects to `d_splice_alias`, which attaches the
dentry to it and returns NULL when it has no other alias to use, and the dentry
of that alias otherwise.  NULL is also the result of a lookup that selects
nothing, and then the dentry is attached to no inode.  Both meet in one return
path, so that a dentry that was attached to its inode is attached a second time.
-/

namespace DoomsdayModules.Fat16.DentryLookup

open DoomsdayModules.Fat16.Image DoomsdayModules.Fat16.Directory DoomsdayModules.Fat16.Lookup
open DoomsdayModules.Fat16.Search

/-! ## The dentry -/

/-- A dentry pointer: NULL, another dentry or an error. -/
inductive DentryPtr (Alias : Type*)
  | null
  | alias (dentry : Alias)
  | err (code : Int)
  deriving DecidableEq

variable {Alias : Type*}

/-- `lc->result` when an entry was selected, and what the dentry was attached
to: `aliasOf` is the other alias `d_splice_alias` finds for an inode. -/
def lookupResult (aliasOf : Inode → Option Alias) :
    Except Int Inode → DentryPtr Alias × List (Option Inode)
  | .error code => (.err code, [])
  | .ok inode =>
      match aliasOf inode with
      | none => (.null, [some inode])
      | some dentry => (.alias dentry, [])

/-- `penguin_fat16_lookup` behind the walk, with everything the dentry is
attached to, `none` for the `d_add` that makes it negative. -/
def penguinFat16LookupDentry (fuel : ℕ) (volume : Volume) (startCluster : ℕ)
    (allocated memory : Bool) (aliasOf : Inode → Option Alias) (name : List UInt8) :
    Option (DentryPtr Alias × List (Option Inode)) :=
  (penguinFat16Lookup fuel volume startCluster allocated memory name).map fun walked =>
    match walked with
    | .error code => (.err code, [])
    | .ok selected =>
        let cbdata := selected.elim (.null, []) (lookupResult aliasOf)
        match cbdata.1 with
        | .null => (.null, cbdata.2 ++ [none])
        | result => (result, cbdata.2)

/-! ## Attached once -/

section Attached

variable (volume : Volume) (startCluster : ℕ) (allocated memory : Bool)
  (aliasOf : Inode → Option Alias) (name : List UInt8)

/-- The callback finds an entry with the name and gets a fresh inode for it. -/
def Finds (inode : Inode) : Prop :=
  (startCluster ≠ 0 → allocated = true) ∧
    ∃ slot, IsFirst volume startCluster (Named name) slot ∧
      penguinFat16Iget memory (makeIno volume slot.sector slot.idx) slot.de = .ok inode ∧
      aliasOf inode = none

/-- No entry of the directory has the name. -/
def Absent : Prop := ∀ slot, IsEntry volume startCluster slot → ¬ Named name slot

/-- What is attached is the inode that was found or, when no entry has the name
and no memory was missing, nothing; and never both. -/
structure AttachedOnce (attached : List (Option Inode)) : Prop where
  atMostOnce : attached.length ≤ 1
  hit : ∀ inode, Finds volume startCluster allocated memory aliasOf name inode →
    attached = [some inode]
  miss : (startCluster ≠ 0 → allocated = true) → Absent volume startCluster name →
    attached = [none]
  negative : none ∈ attached → Absent volume startCluster name

end Attached

variable {volume : Volume} {startCluster : ℕ} {allocated memory : Bool}
  {aliasOf : Inode → Option Alias} {name : List UInt8}

theorem absent_iff :
    Absent volume startCluster name ↔
      ∀ slot, ¬ IsFirst volume startCluster (Named name) slot := by
  constructor
  · intro habsent slot hfirst
    exact habsent slot hfirst.isEntry.1 hfirst.isEntry.2
  · intro hmiss slot hentry hnamed
    obtain ⟨first, hfirst⟩ := exists_isFirst hentry hnamed
    exact hmiss first hfirst

theorem not_finds_of_absent (habsent : Absent volume startCluster name) (inode : Inode) :
    ¬ Finds volume startCluster allocated memory aliasOf name inode := by
  rintro ⟨-, slot, hfirst, -⟩
  exact absent_iff.mp habsent slot hfirst

/-- Everything a lookup can do with its dentry, unless it meets an I/O error. -/
theorem penguinFat16LookupDentry_cases {fuel : ℕ} {result : DentryPtr Alias}
    {attached : List (Option Inode)}
    (hlookup : penguinFat16LookupDentry fuel volume startCluster allocated memory aliasOf name =
      some (result, attached)) (hio : result ≠ .err eio) :
    (Absent volume startCluster name ∧ attached = [none]) ∨
      (∃ inode, Finds volume startCluster allocated memory aliasOf name inode ∧
        attached = [some inode, none]) ∨
      (attached = [] ∧ (¬ (startCluster ≠ 0 → allocated = true) ∨
        ¬ Absent volume startCluster name) ∧
        ∀ inode, ¬ Finds volume startCluster allocated memory aliasOf name inode) := by
  obtain ⟨walked, hwalked, hresult⟩ := Option.map_eq_some_iff.mp hlookup
  rcases penguinFat16Lookup_cases hwalked with
    ⟨hstart, hnone, rfl⟩ | ⟨hmemory, ⟨slot, hfirst, rfl⟩ | ⟨hmiss, rfl | rfl⟩⟩
  · have hbuffer : ¬ (startCluster ≠ 0 → allocated = true) := fun hmemory => by
      simp [hmemory hstart] at hnone
    cases hresult
    exact .inr (.inr ⟨rfl, .inl hbuffer, fun inode hfinds => hbuffer hfinds.1⟩)
  · have hpresent : ¬ Absent volume startCluster name := fun habsent =>
      absent_iff.mp habsent slot hfirst
    cases higet : penguinFat16Iget memory (makeIno volume slot.sector slot.idx) slot.de with
    | error code =>
        simp only [higet, Option.elim_some, lookupResult] at hresult
        cases hresult
        refine .inr (.inr ⟨rfl, .inr hpresent, ?_⟩)
        rintro inode ⟨-, other, hother, higet', -⟩
        rw [← hfirst.unique hother, higet] at higet'
        cases higet'
    | ok inode =>
        simp only [higet, Option.elim_some, lookupResult] at hresult
        cases halias : aliasOf inode with
        | none =>
            simp only [halias] at hresult
            cases hresult
            exact .inr (.inl ⟨inode, ⟨hmemory, slot, hfirst, higet, halias⟩, rfl⟩)
        | some dentry =>
            simp only [halias] at hresult
            cases hresult
            refine .inr (.inr ⟨rfl, .inr hpresent, ?_⟩)
            rintro found ⟨-, other, hother, higet', halias'⟩
            rw [← hfirst.unique hother, higet, Except.ok.injEq] at higet'
            rw [← higet', halias] at halias'
            cases halias'
  · simp only [Option.elim_none] at hresult
    cases hresult
    exact .inl ⟨absent_iff.mpr hmiss, rfl⟩
  · cases hresult
    exact absurd rfl hio

/-- A lookup without an I/O error attaches its dentry once, and to what it
should, exactly if it does not find an entry and a fresh inode for it: in that
case the dentry is attached to the inode and then to nothing. -/
theorem attachedOnce_iff {fuel : ℕ} {result : DentryPtr Alias} {attached : List (Option Inode)}
    (hlookup : penguinFat16LookupDentry fuel volume startCluster allocated memory aliasOf name =
      some (result, attached)) (hio : result ≠ .err eio) :
    AttachedOnce volume startCluster allocated memory aliasOf name attached ↔
      ¬ ∃ inode, Finds volume startCluster allocated memory aliasOf name inode := by
  rcases penguinFat16LookupDentry_cases hlookup hio with
    ⟨habsent, rfl⟩ | ⟨inode, hfinds, rfl⟩ | ⟨rfl, hwhy, hnothing⟩
  · have hnothing : ¬ ∃ inode, Finds volume startCluster allocated memory aliasOf name inode :=
      not_exists.mpr (not_finds_of_absent habsent)
    refine iff_of_true ⟨le_rfl, fun inode hfinds => ?_, fun _ _ => rfl, fun _ => habsent⟩ hnothing
    exact absurd ⟨inode, hfinds⟩ hnothing
  · refine iff_of_false (fun honce => ?_) (not_not.mpr ⟨inode, hfinds⟩)
    exact absurd honce.atMostOnce (by simp)
  · refine iff_of_true ⟨by simp, fun inode hfinds => absurd hfinds (hnothing inode),
      fun hmemory habsent => ?_, fun hmem => by cases hmem⟩ (not_exists.mpr hnothing)
    rcases hwhy with hbuffer | hpresent
    · exact absurd hmemory hbuffer
    · exact absurd habsent hpresent

/-! ## The note of the small image -/

theorem exists_noteLookup :
    ∃ attached, penguinFat16LookupDentry 1 smallVolume 0 true true
        (fun _ => (none : Option Empty)) noteName = some (.null, attached) ∧
      attached.length = 2 := by
  have hreply : (penguinFat16LookupDentry 1 smallVolume 0 true true
      (fun _ => (none : Option Empty)) noteName).map (fun reply => (reply.1, reply.2.length)) =
        some (.null, 2) := by
    decide +kernel
  obtain ⟨⟨result, attached⟩, hlookup, hsame⟩ := Option.map_eq_some_iff.mp hreply
  obtain ⟨rfl, hlength⟩ := Prod.mk.inj hsame
  exact ⟨attached, hlookup, hlength⟩

theorem attachedOnce_note :
    ∃ attached, penguinFat16LookupDentry 1 smallVolume 0 true true
        (fun _ => (none : Option Empty)) noteName = some (.null, attached) ∧
      (AttachedOnce smallVolume 0 true true (fun _ => (none : Option Empty)) noteName attached ↔
        ¬ ∃ inode, Finds smallVolume 0 true true (fun _ => (none : Option Empty)) noteName
          inode) := by
  obtain ⟨attached, hlookup, -⟩ := exists_noteLookup
  exact ⟨attached, hlookup, attachedOnce_iff hlookup (by simp)⟩

/-- The dentry of the note is attached twice. -/
theorem not_attachedOnce_note :
    ¬ ∀ (volume : Volume) (startCluster fuel : ℕ) (allocated memory : Bool)
      (aliasOf : Inode → Option Empty) (name : List UInt8) (result : DentryPtr Empty)
      (attached : List (Option Inode)),
      penguinFat16LookupDentry fuel volume startCluster allocated memory aliasOf name =
        some (result, attached) → result ≠ .err eio →
      AttachedOnce volume startCluster allocated memory aliasOf name attached := by
  intro hclaim
  obtain ⟨attached, hlookup, htwice⟩ := exists_noteLookup
  have honce := hclaim smallVolume 0 1 true true (fun _ => none) noteName .null attached hlookup
    (by simp)
  exact absurd honce.atMostOnce (by omega)

end DoomsdayModules.Fat16.DentryLookup
