import DoomsdayModules.Core.Runs
import DoomsdayModules.Malloc.RequestSize
import DoomsdayModules.Malloc.SlabHosted

/-!
# A block goes back to where it came from

`penguin_free` reads the header word in front of the client's memory to find
the allocator that served the block.  Over sound allocators the word survives
every other call and every client write, as long as the block really has room
for the size that the client asked for.
-/

namespace DoomsdayModules.PenguinOrigin

open DoomsdayModules.ByteMemory DoomsdayModules.Runs DoomsdayModules.Util
open DoomsdayModules.Slab DoomsdayModules.PenguinMalloc DoomsdayModules.RequestSize

/-! ## The client -/

/-- A live block: the client's pointer and size, the pointer that was obtained
for it, and the request that obtained it. -/
structure Entry where
  ptr : ℕ
  size : ℕ
  mem : ℕ
  request : Request
  deriving DecidableEq

structure Client where
  memory : Memory
  live : List Entry

inductive Op where
  | malloc (size : ℕ)
  | free (ptr : ℕ)
  | write (address : ℕ) (byte : UInt8)

variable (allocators : Allocators) (globals : Globals)

/-- The last request is the one that was served. -/
def step (client : Client) : Op → Option Client
  | .malloc size => do
      let taken ← penguinTake allocators globals client.memory size
      let request ← (requests allocators globals client.memory size).getLast?
      let (ptr, memory) ← penguinMalloc allocators globals client.memory size
      if ptr = 0 then return ⟨memory, client.live⟩
      else return ⟨memory, ⟨ptr, size, taken.mem, request⟩ :: client.live⟩
  | .free ptr => (penguinFree allocators globals client.memory ptr).map fun memory =>
      ⟨memory, client.live.eraseP fun entry => entry.ptr = ptr⟩
  | .write address byte => some ⟨writeByte client.memory address byte, client.live⟩

/-! ## Sound allocators -/

/-- The regions of live blocks keep their bytes. -/
def SparesEntries (live : List Entry) (memory memory' : Memory) : Prop :=
  ∀ entry ∈ live, ∀ offset < entry.request.room,
    memory' (entry.mem + offset) = memory (entry.mem + offset)

instance (live : List Entry) (memory memory' : Memory) :
    Decidable (SparesEntries live memory memory') :=
  inferInstanceAs (Decidable (∀ entry ∈ live, ∀ offset < entry.request.room, _))

/-- Regions of two blocks that share no byte. -/
def RegionsApart (mem room : ℕ) (entry : Entry) : Prop :=
  mem + room ≤ entry.mem ∨ entry.mem + entry.request.room ≤ mem

instance (mem room : ℕ) (entry : Entry) : Decidable (RegionsApart mem room entry) :=
  inferInstanceAs (Decidable (_ ∨ _))

/-- Each request is refused or answered with a region as large as asked for,
apart from all live ones, and no live region is written to. -/
def SoundReplies (live : List Entry) : Memory → List Request → Prop
  | _, [] => True
  | memory, request :: rest =>
      match ask allocators globals memory request with
      | none => True
      | some (mem, replied) => SparesEntries live memory replied ∧
          (mem ≠ 0 → ∀ entry ∈ live, RegionsApart mem request.room entry) ∧
          SoundReplies live replied rest

instance decidableSoundReplies (live : List Entry) : ∀ memory requests,
    Decidable (SoundReplies allocators globals live memory requests)
  | _, [] => isTrue trivial
  | memory, request :: rest =>
      match hreply : ask allocators globals memory request with
      | none => isTrue (by simp only [SoundReplies, hreply])
      | some (mem, replied) =>
          have := decidableSoundReplies live replied rest
          decidable_of_iff (SparesEntries live memory replied ∧
            (mem ≠ 0 → ∀ entry ∈ live, RegionsApart mem request.room entry) ∧
            SoundReplies allocators globals live replied rest)
            (by simp only [SoundReplies, hreply])

/-- A freed block is given back without writing to the other live regions. -/
def SoundFree (client : Client) (ptr : ℕ) : Prop :=
  match penguinFree allocators globals client.memory ptr with
  | none => True
  | some memory => SparesEntries (client.live.eraseP fun entry => entry.ptr = ptr)
      client.memory memory

instance (client : Client) (ptr : ℕ) : Decidable (SoundFree allocators globals client ptr) :=
  match hfree : penguinFree allocators globals client.memory ptr with
  | none => isTrue (by simp only [SoundFree, hfree])
  | some memory => decidable_of_iff (SparesEntries
      (client.live.eraseP fun entry => entry.ptr = ptr) client.memory memory)
      (by simp only [SoundFree, hfree])

/-- What the client may do, and what its allocators promise. -/
def Legal (client : Client) : Op → Prop
  | .malloc size => size < wordSize ∧ SoundReplies allocators globals client.live client.memory
      (requests allocators globals client.memory size)
  | .free ptr => (ptr = 0 ∨ ∃ entry ∈ client.live, entry.ptr = ptr) ∧
      SoundFree allocators globals client ptr
  | .write address _ => ∃ entry ∈ client.live, entry.ptr ≤ address ∧
      address < entry.ptr + entry.size

instance (client : Client) : ∀ op, Decidable (Legal allocators globals client op)
  | .malloc _ => inferInstanceAs (Decidable (_ ∧ _))
  | .free _ => inferInstanceAs (Decidable ((_ ∨ ∃ entry ∈ client.live, _) ∧ _))
  | .write _ _ => inferInstanceAs (Decidable (∃ entry ∈ client.live, _))

/-- A request whose size does not wrap. -/
def Bounded : Op → Prop
  | .malloc size => NoWrap size
  | _ => True

instance : ∀ op, Decidable (Bounded op)
  | .malloc _ => inferInstanceAs (Decidable (NoWrap _))
  | .free _ => isTrue trivial
  | .write _ _ => isTrue trivial

/-- `penguin_free` of any live pointer would pass the pointer that was obtained
for it to the allocator that it was obtained from. -/
def FreesToOrigin (client : Client) : Prop :=
  ∀ entry ∈ client.live,
    freeCall client.memory entry.ptr = some (entry.request.allocator, entry.mem)

instance (client : Client) : Decidable (FreesToOrigin client) :=
  inferInstanceAs (Decidable (∀ entry ∈ client.live, _))

/-! ## The header survives -/

variable {allocators : Allocators} {globals : Globals} {client : Client}

/-- What a live block records. -/
structure Entry.Recorded (memory : Memory) (entry : Entry) : Prop where
  ptr_eq : entry.ptr = entry.mem + sizeofPenguinMallocHeader
  enough : entry.size + sizeofPenguinMallocHeader ≤ entry.request.room
  header_eq : readWord memory entry.mem = entry.request.index
  class_lt : ∀ index, entry.request = .slab index → index < penguinMallocSlabs

structure Recorded (client : Client) : Prop where
  entries : ∀ entry ∈ client.live, entry.Recorded client.memory
  apart : client.live.Pairwise fun entry other =>
    RegionsApart entry.mem (entry.request.room) other

theorem Entry.Recorded.freeCall_eq {memory : Memory} {entry : Entry}
    (hentry : entry.Recorded memory) :
    freeCall memory entry.ptr = some (entry.request.allocator, entry.mem) := by
  have hne : entry.mem + sizeofPenguinMallocHeader ≠ 0 := by
    simp [sizeofPenguinMallocHeader]
  have hindex : slabIndex memory (entry.mem + sizeofPenguinMallocHeader) =
      entry.request.index := by
    rw [slabIndex, Nat.add_sub_cancel, hentry.header_eq]
  rw [hentry.ptr_eq, freeCall, if_neg hne, hindex, Nat.add_sub_cancel]
  cases hrequest : entry.request with
  | slab index =>
      have hlt : (Request.slab index).index < penguinMallocSlabs :=
        hentry.class_lt index hrequest
      have hclass : (Request.slab index).index ≠ buddyIndex := hlt.ne
      rw [if_neg hclass, if_pos hlt]
      rfl
  | buddy pages => exact if_pos rfl

theorem Recorded.freesToOrigin (hrecorded : Recorded client) : FreesToOrigin client :=
  fun entry hentry => (hrecorded.entries entry hentry).freeCall_eq

/-- A block whose region keeps its bytes is recorded as before. -/
theorem Entry.Recorded.frame {memory memory' : Memory} {entry : Entry}
    (hentry : entry.Recorded memory)
    (hspared : ∀ offset < entry.request.room,
      memory' (entry.mem + offset) = memory (entry.mem + offset)) :
    entry.Recorded memory' := by
  refine { hentry with header_eq := ?_ }
  rw [← hentry.header_eq]
  apply readWord_congr
  intro query hlower hupper
  have henough := hentry.enough
  simp only [sizeofPenguinMallocHeader] at henough
  obtain ⟨offset, rfl⟩ := Nat.exists_eq_add_of_le hlower
  exact hspared offset (by omega)

theorem room_of_enough {size : ℕ} {request : Request} (henough : Enough size request) :
    size + sizeofPenguinMallocHeader ≤ request.room := by
  cases request with
  | slab index => exact henough
  | buddy pages => exact henough.2

theorem index_lt {request : Request}
    (hclass : ∀ index, request = .slab index → index < penguinMallocSlabs) :
    request.index < wordSize := by
  cases request with
  | slab index => exact (hclass index rfl).trans (by decide)
  | buddy pages => exact show buddyIndex < wordSize by decide

/-- What sound replies come to. -/
theorem taken_spec {live : List Entry} {memory : Memory} {size : ℕ} {taken : Taken}
    (hsound : SoundReplies allocators globals live memory (requests allocators globals memory size))
    (htake : penguinTake allocators globals memory size = some taken) :
    ∃ request, (requests allocators globals memory size).getLast? = some request ∧
      request ∈ requests allocators globals memory size ∧
      taken.index = request.index ∧
      (∀ index, request = .slab index → index < penguinMallocSlabs) ∧
      SparesEntries live memory taken.memory ∧
      (taken.mem ≠ 0 → ∀ entry ∈ live, RegionsApart taken.mem request.room entry) := by
  rcases penguinTake_cases htake with ⟨hclass, hindex, -, hslab, hrequests⟩ |
    ⟨replied, hslab, hindex, hbuddy, hrequests⟩
  · rw [hrequests] at hsound ⊢
    have hask : ask allocators globals memory (.slab taken.index) =
        some (taken.mem, taken.memory) := hslab
    simp only [SoundReplies, hask] at hsound
    refine ⟨_, rfl, List.mem_cons_self, rfl, ?_, hsound.1, hsound.2.1⟩
    rintro index ⟨⟩
    have hspec := (bestFitSlabIndex_spec (withHeader size)).resolve_left fun hb => hclass hb.1
    rw [hindex]
    exact hspec.1
  · have hask : ask allocators globals replied (.buddy (toPagesCount (withHeader size))) =
        some (taken.mem, taken.memory) := hbuddy
    by_cases hclass : bestFitSlabIndex (withHeader size) ≠ buddyIndex
    · rw [if_pos hclass] at hrequests
      rw [takeSlab, if_pos hclass] at hslab
      have hfirst : ask allocators globals memory
          (.slab (bestFitSlabIndex (withHeader size))) = some (0, replied) := hslab
      rw [hrequests] at hsound ⊢
      simp only [SoundReplies, hfirst, hask] at hsound
      obtain ⟨hspares, -, hspares', hapart, -⟩ := hsound
      refine ⟨.buddy _, rfl, by simp, hindex, fun index heq => (by cases heq), ?_, hapart⟩
      exact fun entry hentry offset hoffset =>
        (hspares' entry hentry offset hoffset).trans (hspares entry hentry offset hoffset)
    · rw [if_neg hclass] at hrequests
      rw [takeSlab, if_neg hclass, Option.some.injEq, Prod.mk.injEq] at hslab
      obtain ⟨-, rfl⟩ := hslab
      rw [hrequests] at hsound ⊢
      simp only [SoundReplies, hask] at hsound
      exact ⟨.buddy _, rfl, List.mem_cons_self, hindex, fun index heq => (by cases heq),
        hsound.1, hsound.2.1⟩

theorem SparesEntries.trans {live : List Entry} {memory memory' memory'' : Memory}
    (hfirst : SparesEntries live memory memory') (hsecond : SparesEntries live memory' memory'') :
    SparesEntries live memory memory'' := fun entry hentry offset hoffset =>
  (hsecond entry hentry offset hoffset).trans (hfirst entry hentry offset hoffset)

/-- A header inside a region apart from the live ones spares them. -/
theorem spares_writeHeader {live : List Entry} {memory : Memory} {mem room value : ℕ}
    (hroom : sizeofPenguinMallocHeader ≤ room) (hapart : ∀ entry ∈ live, RegionsApart mem room entry) :
    SparesEntries live memory (writeWord memory mem value) := by
  intro entry hentry offset hoffset
  have hdisjoint := hapart entry hentry
  simp only [RegionsApart, sizeofPenguinMallocHeader] at hdisjoint hroom
  exact writeWord_of_outside (by omega)

/-! ## One step -/

theorem Recorded.entries_frame (hrecorded : Recorded client) {memory' : Memory}
    {few : List Entry} (hsublist : few.Sublist client.live)
    (hspares : SparesEntries few client.memory memory') : Recorded ⟨memory', few⟩ where
  entries := fun entry hentry =>
    (hrecorded.entries entry (hsublist.subset hentry)).frame (hspares entry hentry)
  apart := hrecorded.apart.sublist hsublist

theorem Recorded.apart_of_ne (hrecorded : Recorded client) {entry other : Entry}
    (hentry : entry ∈ client.live) (hother : other ∈ client.live) (hne : entry ≠ other) :
    RegionsApart entry.mem entry.request.room other := by
  have hsymm : Std.Symm fun entry other : Entry =>
    RegionsApart entry.mem entry.request.room other := ⟨fun _ _ hapart => Or.symm hapart⟩
  exact hrecorded.apart.forall hentry hother hne

theorem malloc_step (hrecorded : Recorded client) {size : ℕ} {next : Client}
    (hlegal : Legal allocators globals client (.malloc size)) (hwrap : NoWrap size)
    (hstep : step allocators globals client (.malloc size) = some next) : Recorded next := by
  simp only [step, Option.bind_eq_bind, Option.bind_eq_some_iff] at hstep
  obtain ⟨taken, htake, request, hlast, ⟨ptr, memory'⟩, hmalloc, hnext⟩ := hstep
  obtain ⟨request', hlast', hmem, hindex, hclass, hspares, hapart⟩ := taken_spec hlegal.2 htake
  obtain rfl : request' = request := Option.some.inj (hlast'.symm.trans hlast)
  have henough := room_of_enough (enough_of_noWrap hwrap hmem)
  simp only [penguinMalloc, htake, Option.bind_eq_bind, Option.bind_some] at hmalloc
  by_cases hnull : taken.mem = 0
  · rw [if_pos hnull] at hmalloc
    obtain ⟨rfl, rfl⟩ : 0 = ptr ∧ taken.memory = memory' := by simpa using hmalloc
    obtain rfl : Client.mk taken.memory client.live = next := by simpa using hnext
    exact hrecorded.entries_frame (List.Sublist.refl _) hspares
  · rw [if_neg hnull] at hmalloc
    obtain ⟨rfl, rfl⟩ : taken.mem + sizeofPenguinMallocHeader = ptr ∧
        writeWord taken.memory taken.mem taken.index = memory' := by simpa using hmalloc
    rw [if_neg (by simp [sizeofPenguinMallocHeader])] at hnext
    obtain rfl : Client.mk _ _ = next := Option.some.inj hnext
    have hheaderRoom : sizeofPenguinMallocHeader ≤ request'.room := by omega
    have hspares' : SparesEntries client.live client.memory
        (writeWord taken.memory taken.mem taken.index) :=
      hspares.trans (spares_writeHeader hheaderRoom (hapart hnull))
    have hold := hrecorded.entries_frame (List.Sublist.refl _) hspares'
    have hindexLt : taken.index < wordSize := by
      rw [hindex]
      exact index_lt hclass
    refine ⟨?_, List.pairwise_cons.mpr ⟨hapart hnull, hold.apart⟩⟩
    intro entry hentry
    rcases List.mem_cons.mp hentry with rfl | hentry
    · exact
        { ptr_eq := rfl
          enough := henough
          header_eq := (readWord_writeWord_same hindexLt).trans hindex
          class_lt := hclass }
    · exact hold.entries entry hentry

theorem free_step (hrecorded : Recorded client) {ptr : ℕ} {next : Client}
    (hlegal : Legal allocators globals client (.free ptr))
    (hstep : step allocators globals client (.free ptr) = some next) : Recorded next := by
  simp only [step, Option.map_eq_some_iff] at hstep
  obtain ⟨memory', hfree, rfl⟩ := hstep
  have hspares := hlegal.2
  simp only [SoundFree, hfree] at hspares
  exact hrecorded.entries_frame List.eraseP_sublist hspares

/-- A client writes behind the header of its own block. -/
theorem write_step (hrecorded : Recorded client) {address : ℕ} {byte : UInt8} {next : Client}
    (hlegal : Legal allocators globals client (.write address byte))
    (hstep : step allocators globals client (.write address byte) = some next) :
    Recorded next := by
  obtain rfl : Client.mk _ _ = next := Option.some.inj hstep
  obtain ⟨owner, howner, hlower, hupper⟩ := hlegal
  have hown := hrecorded.entries owner howner
  have hptr := hown.ptr_eq
  have henough := hown.enough
  refine ⟨fun entry hentry => ?_, hrecorded.apart⟩
  have hrecord := hrecorded.entries entry hentry
  have hroom := hrecord.enough
  simp only [sizeofPenguinMallocHeader] at hptr henough hroom
  refine { hrecord with header_eq := ?_ }
  rw [readWord_writeByte_of_disjoint, hrecord.header_eq]
  by_cases hsame : owner = entry
  · subst hsame
    omega
  · have hapart := hrecorded.apart_of_ne howner hentry hsame
    simp only [RegionsApart] at hapart
    omega

theorem step_recorded (hrecorded : Recorded client) {op : Op} {next : Client}
    (hlegal : Legal allocators globals client op) (hbounded : Bounded op)
    (hstep : step allocators globals client op = some next) : Recorded next := by
  cases op with
  | malloc size => exact malloc_step hrecorded hlegal hbounded hstep
  | free ptr => exact free_step hrecorded hlegal hstep
  | write address byte => exact write_step hrecorded hlegal hstep

/-! ## Runs -/

/-- In every run over sound allocators whose sizes do not wrap, each live block
goes back to the allocator that it came from, by the pointer it came with. -/
theorem frees_to_origin_of_noWrap (allocators : Allocators) (globals : Globals)
    (memory : Memory) {ops : List Op}
    (hrun : AllSteps (step allocators globals)
      (fun client op => Legal allocators globals client op ∧ Bounded op) ⟨memory, []⟩ ops) :
    ∀ done, done <+: ops → ∀ client,
      run (step allocators globals) ⟨memory, []⟩ done = some client → FreesToOrigin client := by
  intro done hdone client hreached
  have hrecorded : Recorded client := run_invariant Recorded
    (fun _ _ _ hinv hadmissible hstep => step_recorded hinv hadmissible.1 hadmissible.2 hstep)
    ⟨by simp, List.Pairwise.nil⟩ (hrun.of_prefix hdone) hreached
  exact hrecorded.freesToOrigin

/-- `penguin_malloc_init` on a pool with regions for the four smallest classes. -/
def poolReady : Option (Globals × Memory) :=
  penguinMallocInit realBuddy SlabHosted.slabPool 4096

def poolGlobals : Globals := (poolReady.map Prod.fst).getD ⟨0, fun _ => 0⟩

def poolMemory : Memory := (poolReady.map Prod.snd).getD fun _ => 0

theorem frees_to_origin_poolMemory :
    ∃ client, run (step (realAllocators 2) poolGlobals) ⟨poolMemory, []⟩
        [.malloc 20, .malloc 50, .malloc 5000, .write 8347 7, .free 8328, .malloc 1] =
          some client ∧ FreesToOrigin client := by
  have hdefined : (run (step (realAllocators 2) poolGlobals) ⟨poolMemory, []⟩
      [.malloc 20, .malloc 50, .malloc 5000, .write 8347 7, .free 8328, .malloc 1]).isSome := by
    decide +kernel
  obtain ⟨client, hclient⟩ := Option.isSome_iff_exists.mp hdefined
  exact ⟨client, hclient, frees_to_origin_of_noWrap _ _ _ (by decide +kernel) _
    (List.prefix_refl _) client hclient⟩

/-- A request for all of memory gets a small block, and the client's writes
inside the size it asked for reach the header of the next block. -/
theorem not_frees_to_origin_after_wrap :
    ¬ ∀ (allocators : Allocators) (globals : Globals) (memory : Memory) (ops : List Op),
      AllSteps (step allocators globals) (Legal allocators globals) ⟨memory, []⟩ ops →
      ∀ done, done <+: ops → ∀ client,
        run (step allocators globals) ⟨memory, []⟩ done = some client → FreesToOrigin client := by
  intro hclaim
  have horigin := hclaim (realAllocators 2) poolGlobals poolMemory
    [.malloc (2 ^ 64 - 1), .malloc 1, .write 8360 8] (by decide +kernel) _ (List.prefix_refl _)
  have hastray : (run (step (realAllocators 2) poolGlobals) ⟨poolMemory, []⟩
      [.malloc (2 ^ 64 - 1), .malloc 1, .write 8360 8]).map (fun client =>
        decide (FreesToOrigin client)) = some false := by decide +kernel
  obtain ⟨client, hclient, hfalse⟩ := Option.map_eq_some_iff.mp hastray
  exact of_decide_eq_false hfalse (horigin client hclient)

end DoomsdayModules.PenguinOrigin
