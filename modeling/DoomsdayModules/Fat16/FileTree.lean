import DoomsdayModules.Core.PathTree
import DoomsdayModules.Fat16.ListingNames
import DoomsdayModules.Fat16.ReadFile

/-!
# The tree of files

What an image means: a tree with a name for every entry that a walk comes to in
front of the end marker, other than labels, long-name parts, deleted entries and
the dots, and with the clusters of a file, cut to its size, at the leaves.  The
kernel resolves a path one lookup at a time, in directories only, and takes the
dots for itself.
-/

namespace DoomsdayModules.Fat16.FileTree

open DoomsdayModules.EarlyExit DoomsdayModules.PathTree DoomsdayModules.ResumableStream
open DoomsdayModules.Fat16.Image DoomsdayModules.Fat16.Directory DoomsdayModules.Fat16.Readdir
open DoomsdayModules.Fat16.ListingNames DoomsdayModules.Fat16.Lookup
open DoomsdayModules.Fat16.ReadFile

/-- Names and contents are byte strings. -/
abbrev Tree := NameTree (List UInt8) (List UInt8)

/-- The names the kernel does not ask the file system for. -/
def IsDots (name : List UInt8) : Prop := name = [dot] ∨ name = [dot, dot]

instance (name : List UInt8) : Decidable (IsDots name) := by
  unfold IsDots
  infer_instance

/-! ## The tree of an image -/

/-- The entries with a name that can be asked for. -/
def named (slots : List Slot) : List Slot :=
  (listed slots).filter fun slot => ¬ IsDots (entryName slot.de)

def entryType (de : Direntry) : DType := if de.isDir then .dir else .reg

def entryInfo (de : Direntry) : InodeInfo :=
  ⟨de.firstClusterLow, de.fileSize, de.firstClusterLow_lt, de.fileSize_lt⟩

/-- An image holds a tree under a directory or a file of it. -/
inductive Represents (volume : Volume) : DType → InodeInfo → Tree → Prop
  | file {info : InodeInfo} {links : List Link} (hchain : Chain volume info.startCluster links)
      (hsize : info.fileSize ≤ (chainData links).length) :
      Represents volume .reg info (.leaf ((chainData links).take info.fileSize))
  | dir {info : InodeInfo} (storage : Storage volume info.startCluster) (subtree : Slot → Tree)
      (hsubtree : ∀ slot ∈ named storage.slots,
        Represents volume (entryType slot.de) (entryInfo slot.de) (subtree slot)) :
      Represents volume .dir info
        (.node ((named storage.slots).map fun slot => (entryName slot.de, subtree slot)))

theorem represents_content (file : RegularFile) :
    Represents file.volume .reg file.ino (.leaf file.content) :=
  .file file.chain file.fileSize_le

/-! ## Looking up one name -/

def enoent : Int := -2
def enotdir : Int := -20

/-- Why a path is not resolved: an error, or a walk that goes on. -/
inductive Failure
  | running
  | errno (code : Int)

/-- One name of a path, up to the dentry cache: the inode that `lookup_cb` selects.
Only directories have a lookup. -/
def lookupStep (fuel : ℕ) (volume : Volume) (inode : Inode) (name : List UInt8) :
    Except Failure Inode :=
  match inode.dType with
  | .reg => .error (.errno enotdir)
  | .dir =>
      match penguinFat16Lookup fuel volume inode.info.startCluster true true name with
      | none => .error .running
      | some (.error code) => .error (.errno code)
      | some (.ok none) => .error (.errno enoent)
      | some (.ok (some (.error code))) => .error (.errno code)
      | some (.ok (some (.ok child))) => .ok child

/-- Resolve a path from a directory on. -/
def resolve (fuel : ℕ) (volume : Volume) (inode : Inode) (path : List (List UInt8)) :
    Except Failure Inode :=
  path.foldlM (lookupStep fuel volume) inode

def failure : Missing → Failure
  | .notFound => .errno enoent
  | .notDirectory => .errno enotdir

/-- What a lookup finds is the first entry with the name. -/
theorem foldlM_lookupCb_find (volume : Volume) (name : List UInt8) (slots : List Slot)
    (absIdx : ℕ) :
    walkReply (slots.foldlM (visitSlot (lookupCb volume true name)) (none, absIdx)) =
      match (listed slots).find? fun slot => SameName (entryName slot.de) name with
      | none => (0, none)
      | some slot =>
          (1, some (penguinFat16Iget true (makeIno volume slot.sector slot.idx) slot.de)) := by
  induction slots generalizing absIdx with
  | nil => rfl
  | cons slot slots ih =>
      rw [listed_cons]
      by_cases hend : slot.de.isEnd = true
      · rw [foldlM_cons_of_error slots (visitSlot_end hend), if_pos hend]
        rfl
      rw [if_neg hend]
      by_cases hskip : slot.de.isSkip = true
      · have hvisit : visitSlot (lookupCb volume true name) (none, absIdx) slot =
            .ok (none, u32 (absIdx + 1)) := by
          simp [visitSlot, visit, hend, lookupCb, hskip]
        rw [foldlM_cons_of_ok slots hvisit, if_pos hskip, ih]
      rw [if_neg hskip]
      by_cases hname : SameName (entryName slot.de) name
      · have hvisit : visitSlot (lookupCb volume true name) (none, absIdx) slot = .error
            (1, some (penguinFat16Iget true (makeIno volume slot.sector slot.idx) slot.de)) := by
          simp [visitSlot, visit, hend, lookupCb, hskip, hname.1, hname.2]
        rw [foldlM_cons_of_error slots hvisit, List.find?_cons_of_pos (by simpa using hname)]
        rfl
      · have hvisit : visitSlot (lookupCb volume true name) (none, absIdx) slot =
            .ok (none, u32 (absIdx + 1)) := by
          have hdiffers : (entryName slot.de).length ≠ name.length ∨
              strncasecmp (entryName slot.de) name name.length ≠ 0 := not_and_or.mp hname
          simp [visitSlot, visit, hend, lookupCb, hskip, hdiffers]
        rw [foldlM_cons_of_ok slots hvisit, ih, List.find?_cons_of_neg (by simpa using hname)]

theorem tolower_eq_dot_iff (c : UInt8) : tolower c = dot ↔ c = dot := by
  have hall : ∀ n : Fin 256, tolower (UInt8.ofFin n) = dot ↔ UInt8.ofFin n = dot := by
    decide +kernel
  exact hall c.toFin

/-- The dots are no other name in another case. -/
theorem isDots_of_sameName {de : Direntry} {name : List UInt8} (hsame : SameName (entryName de) name)
    (hdots : IsDots (entryName de)) : IsDots name := by
  rw [sameName_entryName_iff] at hsame
  have hdot : tolower dot = dot := by decide
  rcases hdots with hone | htwo
  · rw [hone, List.map_singleton, hdot, eq_comm, List.map_eq_singleton_iff] at hsame
    obtain ⟨c, rfl, hc⟩ := hsame
    rw [(tolower_eq_dot_iff c).mp hc]
    exact .inl rfl
  · rw [htwo] at hsame
    rcases name with _ | ⟨c, _ | ⟨d, _ | ⟨e, rest⟩⟩⟩ <;> simp [hdot] at hsame
    rw [(tolower_eq_dot_iff c).mp hsame.1.symm, (tolower_eq_dot_iff d).mp hsame.2.symm]
    exact .inr rfl

/-- A name that is not the dots is looked for among the entries that are not. -/
theorem find?_named {name : List UInt8} (hname : ¬ IsDots name) (slots : List Slot) :
    ((named slots).find? fun slot => SameName (entryName slot.de) name) =
      (listed slots).find? fun slot => SameName (entryName slot.de) name := by
  rw [named, List.find?_filter]
  congr 1
  funext slot
  by_cases hsame : SameName (entryName slot.de) name
  · have hdots : ¬ IsDots (entryName slot.de) := fun hdots => hname (isDots_of_sameName hsame hdots)
    simp [hsame, hdots]
  · simp [hsame]

theorem rounds_le {volume : Volume} {startCluster : ℕ} (storage : Storage volume startCluster) :
    storage.rounds ≤ finalCluster := by
  cases storage with
  | root sectors hread => exact Nat.zero_le _
  | clusters hstart links hchain => exact hchain.length_le

theorem exists_iget (ino : ℕ) (de : Direntry) :
    ∃ inode, penguinFat16Iget true ino de = .ok inode ∧ inode.dType = entryType de ∧
      inode.info = entryInfo de := by
  obtain ⟨inode, higet, -, hdType⟩ := dType_penguinFat16Iget ino de
  refine ⟨inode, higet, hdType, ?_⟩
  cases higet
  rfl

/-- One lookup is one step down the tree. -/
theorem agrees_lookupStep {fuel : ℕ} {volume : Volume} (hfuel : finalCluster < fuel)
    (inode : Inode) (tree : Tree) (name : List UInt8) (hname : ¬ IsDots name)
    (htree : Represents volume inode.dType inode.info tree) :
    Agrees (fun inode tree => Represents volume inode.dType inode.info tree) failure
      (lookupStep fuel volume inode name) (tree.child SameName name) := by
  generalize hdType : inode.dType = dType at htree
  generalize hinfo : inode.info = info at htree
  cases htree with
  | file hchain hsize =>
      rw [lookupStep, hdType]
      rfl
  | dir storage subtree hsubtree =>
      have hwalk := dirWalk_eq storage ((rounds_le storage).trans_lt hfuel)
        (lookupCb volume true name) none
      rw [foldlM_lookupCb_find, ← find?_named hname] at hwalk
      rw [lookupStep, hdType]
      have hchild : (((fun entry => decide (SameName entry.1 name)) ∘ fun slot =>
          (entryName slot.de, subtree slot)) : Slot → Bool) =
          fun slot => decide (SameName (entryName slot.de) name) := rfl
      simp only [penguinFat16Lookup, hinfo, hwalk, NameTree.child, List.find?_map, hchild]
      cases hfind : (named storage.slots).find? fun slot => SameName (entryName slot.de) name with
      | none => rfl
      | some slot =>
          obtain ⟨child, higet, hchildType, hchildInfo⟩ :=
            exists_iget (makeIno volume slot.sector slot.idx) slot.de
          have hrepresents := hsubtree slot (List.mem_of_find?_eq_some hfind)
          rw [← hchildType, ← hchildInfo] at hrepresents
          simp only [higet]
          exact hrepresents

/-- The kernel's walk along a path is the walk down the tree: the same files and
directories, the same paths that do not exist, and the same that go through a
file. -/
theorem resolve_agrees {fuel : ℕ} {volume : Volume} (hfuel : finalCluster < fuel) {inode : Inode}
    {tree : Tree} (htree : Represents volume inode.dType inode.info tree)
    {path : List (List UInt8)} (hpath : ∀ name ∈ path, ¬ IsDots name) :
    Agrees (fun inode tree => Represents volume inode.dType inode.info tree) failure
      (resolve fuel volume inode path) (tree.find SameName path) :=
  agrees_foldlM (fun inode tree name => agrees_lookupStep hfuel inode tree name) htree hpath

/-! ## What a path leads to -/

def treeType : Tree → DType
  | .leaf _ => .reg
  | .node _ => .dir

/-- A read from the start of a file hands over its content as far as is asked
for, and a listing the names of a directory with their types. -/
def Serves (fuel : ℕ) (volume : Volume) (inode : Inode) : Tree → Prop
  | .leaf content => inode.dType = .reg ∧ ∀ count, ∃ reply,
      penguinFat16ReadIter fuel volume inode.info true 0 ⟨count, count, []⟩ = some reply ∧
        reply.to_.delivered = content.take count ∧ reply.ret = (content.take count).length
  | .node children => inode.dType = .dir ∧ ∀ dots, ∃ listing,
      call fuel volume inode.info.startCluster dots 0 none = some (0, listing) ∧
        ((listing.emitted.filter fun entry => ¬ IsDots entry.name).map fun entry =>
            (entry.name, entry.dType)) =
          children.map fun child => (child.1, treeType child.2)

theorem Represents.treeType_eq {volume : Volume} {dType : DType} {info : InodeInfo} {tree : Tree}
    (htree : Represents volume dType info tree) : treeType tree = dType := by
  cases htree <;> rfl

theorem slotItems_named (volume : Volume) (slots : List Slot) (absIdx : ℕ) :
    ((slotItems volume absIdx slots).reduceOption.filter fun entry => ¬ IsDots entry.name).map
        (fun entry => (entry.name, entry.dType)) =
      (named slots).map fun slot => (entryName slot.de, entryType slot.de) := by
  induction slots generalizing absIdx with
  | nil => rfl
  | cons slot slots ih =>
      rw [slotItems, named, listed_cons]
      by_cases hend : slot.de.isEnd = true
      · rw [if_pos hend, if_pos hend]
        rfl
      rw [if_neg hend, if_neg hend, slotItem]
      by_cases hskip : slot.de.isSkip = true
      · rw [if_pos hskip, if_pos hskip, List.reduceOption_cons_of_none]
        exact ih (absIdx + 1)
      rw [if_neg hskip, if_neg hskip, List.reduceOption_cons_of_some]
      have hrest := ih (absIdx + 1)
      rw [named] at hrest
      by_cases hdots : IsDots (entryName slot.de)
      · simp only [List.filter_cons, hdots, not_true_eq_false, decide_false, Bool.false_eq_true,
          if_false]
        exact hrest
      · simp only [List.filter_cons, hdots, not_false_eq_true, decide_true, if_true, List.map_cons]
        rw [hrest]
        rfl

theorem serves_of_represents {fuel : ℕ} {volume : Volume} (hfuel : finalCluster < fuel)
    {inode : Inode} {tree : Tree} (htree : Represents volume inode.dType inode.info tree) :
    Serves fuel volume inode tree := by
  generalize hdType : inode.dType = dType at htree
  generalize hinfo : inode.info = info at htree
  cases htree with
  | @file _ links hchain hsize =>
      refine ⟨hdType, fun count => ?_⟩
      have hle := bytesRequested_le count info.fileSize 0
      have hbound := @bytesRequested_of_le count info.fileSize 0 (Nat.zero_le _) info.fileSize_lt
      obtain ⟨after, hloop, hdelivered⟩ := @readLoop_chain volume
        (bytesRequested count info.fileSize 0) fuel info.startCluster 0 links ⟨count, count, []⟩
        hchain (hchain.length_le.trans_lt hfuel) (Nat.zero_le _) hle hle
      have hcontent : (chainData links).take (bytesRequested count info.fileSize 0) =
          ((chainData links).take info.fileSize).take count := by
        rw [hbound, Nat.sub_zero, List.take_take]
      rw [Nat.sub_zero, hcontent] at hloop hdelivered
      generalize hwanted : ((chainData links).take info.fileSize).take count = wanted at *
      refine ⟨⟨wanted.length, wanted.length, after⟩, ?_, hdelivered, rfl⟩
      simp only [penguinFat16ReadIter, if_true, hinfo, hloop, Nat.zero_add]
  | dir storage subtree hsubtree =>
      refine ⟨hdType, fun dots => ?_⟩
      rw [hinfo]
      refine ⟨_, call_eq storage dots ((rounds_le storage).trans_lt hfuel) 0 none, ?_⟩
      have hdotsFirst : ∀ (slots : List Slot),
          ((dirStream volume dots slots).reduceOption.filter fun entry => ¬ IsDots entry.name) =
            (slotItems volume 0 slots).reduceOption.filter fun entry => ¬ IsDots entry.name := by
        intro slots
        rw [dirStream, List.reduceOption_cons_of_some, List.reduceOption_cons_of_some]
        rfl
      have hnames := slotItems_named volume storage.slots 0
      rw [← hdotsFirst] at hnames
      rw [serve_unlimited, List.drop_zero]
      simp only [DirContext.after, List.nil_append]
      rw [stream, hnames, List.map_map]
      refine List.map_congr_left fun slot hslot => ?_
      rw [Function.comp, (hsubtree slot hslot).treeType_eq]

/-! ## Every path -/

/-- The root directory as `fill_super` makes it. -/
abbrev rootInfo : InodeInfo := ⟨0, 0, Nat.two_pow_pos 16, Nat.two_pow_pos 32⟩

theorem exists_root : ∃ root, penguinFat16GetRootInode true = .ok root ∧ root.dType = .dir ∧
    root.info = rootInfo :=
  exists_iget 1 _

/-- A path resolves to an inode exactly if it leads somewhere in the tree of the
image, and then the inode serves what is there; otherwise the error is that of
the tree. -/
theorem path_served {volume : Volume} {tree : Tree} (htree : Represents volume .dir rootInfo tree)
    {fuel : ℕ} (hfuel : finalCluster < fuel) {path : List (List UInt8)}
    (hpath : ∀ name ∈ path, ¬ IsDots name) :
    ∃ root, penguinFat16GetRootInode true = .ok root ∧
      Agrees (Serves fuel volume) failure (resolve fuel volume root path)
        (tree.find SameName path) := by
  obtain ⟨root, hroot, hdType, hinfo⟩ := exists_root
  refine ⟨root, hroot, ?_⟩
  rw [← hdType, ← hinfo] at htree
  have hagrees := resolve_agrees hfuel htree hpath
  exact hagrees.mono fun inode tree => serves_of_represents hfuel

theorem sameName_refl (name : List UInt8) : SameName name name := by
  refine ⟨rfl, ?_⟩
  induction name with
  | nil => rfl
  | cons c name ih =>
      rw [List.length_cons, strncasecmp_cons, if_pos rfl, ih]
      split
      · simp
      · rfl

/-- What is stored under distinguishable names is found under them. -/
theorem stored_served {volume : Volume} {tree last : Tree}
    (htree : Represents volume .dir rootInfo tree) {fuel : ℕ} (hfuel : finalCluster < fuel)
    {path : List (List UInt8)} (hpath : ∀ name ∈ path, ¬ IsDots name)
    (hreaches : NameTree.Reaches tree path last)
    (hdistinct : NameTree.DistinctAlong SameName tree path) :
    ∃ root inode, penguinFat16GetRootInode true = .ok root ∧
      resolve fuel volume root path = .ok inode ∧ Serves fuel volume inode last := by
  obtain ⟨root, hroot, hagrees⟩ := path_served htree hfuel hpath
  rw [NameTree.find_of_reaches SameName sameName_refl hreaches hdistinct] at hagrees
  obtain ⟨inode, hinode, hserves⟩ := hagrees.of_ok
  exact ⟨root, inode, hroot, hinode, hserves⟩

/-! ## The small image -/

/-- The name of the note, as it is stored. -/
def upperNote : List UInt8 := [0x4E, 0x4F, 0x54, 0x45, dot, 0x54, 0x58, 0x54]

/-- The root directory of the small image holds one file. -/
def smallTree : Tree := .node [(upperNote, .leaf smallFile.content)]

theorem represents_smallTree : Represents smallVolume .dir rootInfo smallTree := by
  have hentries : ((named smallRoot.slots).map fun slot => (entryName slot.de, slot.de.isDir,
      slot.de.firstClusterLow, slot.de.fileSize)) = [(upperNote, false, 2, 2)] := by
    decide +kernel
  obtain ⟨slot, hslots, hslot⟩ := List.map_eq_singleton_iff.mp hentries
  obtain ⟨hname, hdir, hcluster, hsize⟩ : entryName slot.de = upperNote ∧
      slot.de.isDir = false ∧ slot.de.firstClusterLow = 2 ∧ slot.de.fileSize = 2 := by
    simpa using hslot
  have htype : entryType slot.de = .reg := by rw [entryType, hdir]; rfl
  have hinfo : entryInfo slot.de = smallFile.ino := by
    simp only [entryInfo, hcluster, hsize]
    rfl
  have hvolume : smallFile.volume = smallVolume := by rw [smallFile]
  have hfile := represents_content smallFile
  rw [hvolume] at hfile
  have htree := @Represents.dir smallVolume rootInfo smallRoot (fun _ => .leaf smallFile.content)
    fun other hother => by
      rw [hslots, List.mem_singleton] at hother
      rw [hother, htype, hinfo]
      exact hfile
  rwa [hslots, List.map_singleton, hname] at htree

theorem path_served_small :
    ∃ root, penguinFat16GetRootInode true = .ok root ∧
      Agrees (Serves (finalCluster + 1) smallVolume) failure
        (resolve (finalCluster + 1) smallVolume root [noteName])
        (smallTree.find SameName [noteName]) :=
  path_served represents_smallTree (Nat.lt_succ_self _) (by decide)

theorem stored_served_small :
    ∃ root inode, penguinFat16GetRootInode true = .ok root ∧
      resolve (finalCluster + 1) smallVolume root [upperNote] = .ok inode ∧
        Serves (finalCluster + 1) smallVolume inode (.leaf smallFile.content) :=
  stored_served represents_smallTree (Nat.lt_succ_self _) (by decide)
    (.into (by simp) (.here _)) (by simp [smallTree, NameTree.DistinctAlong])

end DoomsdayModules.Fat16.FileTree
