import DoomsdayModules.Core.ResumableStream
import DoomsdayModules.Fat16.Directory

/-!
# Listing a directory in several calls

`iterate_shared` may be called again after the consumer refused an entry, and
finds its way from the position the last call left.  The callback advances the
position over entries it skips and entries it emits, and the walk starts from
the first slot again.  The calls are those of a resumable stream: two dots, and
then one slot for each entry before the end marker.
-/

namespace DoomsdayModules.Fat16.Readdir

open DoomsdayModules.EarlyExit DoomsdayModules.ResumableStream
open DoomsdayModules.Fat16.Image DoomsdayModules.Fat16.Directory

/-! ## The callback -/

/-- `DT_DIR` and `DT_REG`. -/
inductive DType
  | dir
  | reg
  deriving DecidableEq, Repr

/-- What one `dir_emit` hands to the consumer. -/
structure Emission where
  name : List UInt8
  ino : ℕ
  dType : DType
  pos : ℕ
  deriving DecidableEq, Repr

/-- `struct dir_context` with its consumer: how many entries it still takes
before it refuses one, `none` if it never does, and what it has taken. -/
structure DirContext where
  pos : ℕ
  room : Option ℕ
  emitted : List Emission
  refused : Bool
  deriving DecidableEq, Repr

/-- The kernel's `dir_emit`. -/
def dirEmit (ctx : DirContext) (name : List UInt8) (ino : ℕ) (dType : DType) :
    Bool × DirContext :=
  if ctx.room = some 0 then (false, ⟨ctx.pos, ctx.room, ctx.emitted, true⟩)
  else (true, ⟨ctx.pos, ctx.room.map (· - 1), ctx.emitted ++ [⟨name, ino, dType, ctx.pos⟩],
    ctx.refused⟩)

/-- The inode numbers of the directory and of its parent. -/
structure Dots where
  self : ℕ
  parent : ℕ

def DirContext.seek (ctx : DirContext) (pos : ℕ) : DirContext :=
  ⟨pos, ctx.room, ctx.emitted, ctx.refused⟩

def dirEmitDot (dots : Dots) (ctx : DirContext) : Bool × DirContext :=
  if ctx.pos = 0 then
    let emit := dirEmit ctx [dot] dots.self .dir
    if emit.1 then (true, emit.2.seek 1) else emit
  else (true, ctx)

def dirEmitDotdot (dots : Dots) (ctx : DirContext) : Bool × DirContext :=
  if ctx.pos = 1 then
    let emit := dirEmit ctx [dot, dot] dots.parent .dir
    if emit.1 then (true, emit.2.seek 2) else emit
  else (true, ctx)

/-- The kernel's `dir_emit_dots`. -/
def dirEmitDots (dots : Dots) (ctx : DirContext) : Bool × DirContext :=
  let first := dirEmitDot dots ctx
  if first.1 then dirEmitDotdot dots first.2 else first

def iterateCb (volume : Volume) (startIdx : ℕ) : DirentCb DirContext :=
  fun de entrySector entryIdx absIdx ctx =>
    if absIdx < startIdx then (0, ctx)
    else if de.isSkip then (0, ctx.seek (ctx.pos + 1))
    else
      let emit := dirEmit ctx (entryName de) (makeIno volume entrySector entryIdx)
        (if de.isDir then .dir else .reg)
      if emit.1 then (0, emit.2.seek (emit.2.pos + 1)) else (1, emit.2)

def penguinFat16IterateShared (fuel : ℕ) (volume : Volume) (startCluster : ℕ) (allocated : Bool)
    (dots : Dots) (ctx : DirContext) : Option (Int × DirContext) :=
  let emit := dirEmitDots dots ctx
  if emit.1 then
    (dirWalk fuel volume startCluster allocated (iterateCb volume (emit.2.pos - 2)) emit.2).map
      fun reply => (if reply.1 < 0 then reply.1 else 0, reply.2)
  else some (0, emit.2)

/-! ## The stream of a directory -/

/-- What the slot at `absIdx` holds for a listing. -/
def slotItem (volume : Volume) (absIdx : ℕ) (slot : Slot) : Option Emission :=
  if slot.de.isSkip then none
  else some ⟨entryName slot.de, makeIno volume slot.sector slot.idx,
    if slot.de.isDir then .dir else .reg, absIdx + 2⟩

/-- The slots before the end marker, from the one at `absIdx` on. -/
def slotItems (volume : Volume) : ℕ → List Slot → List (Option Emission)
  | _, [] => []
  | absIdx, slot :: slots =>
      if slot.de.isEnd then [] else slotItem volume absIdx slot :: slotItems volume (absIdx + 1) slots

def dirStream (volume : Volume) (dots : Dots) (slots : List Slot) : List (Option Emission) :=
  some ⟨[dot], dots.self, .dir, 0⟩ :: some ⟨[dot, dot], dots.parent, .dir, 1⟩ ::
    slotItems volume 0 slots

/-- A context after a call has been served. -/
def DirContext.after (ctx : DirContext) (served : Served Emission) : DirContext :=
  ⟨ctx.pos + served.passed, ctx.room.map (· - served.items.length), ctx.emitted ++ served.items,
    ctx.refused || served.refused⟩

/-- What the walk returns with it. -/
def DirContext.reply (ctx : DirContext) (served : Served Emission) : Int × DirContext :=
  (if served.refused then 1 else 0, ctx.after served)

theorem DirContext.reply_nothing (ctx : DirContext) : ctx.reply ⟨[], 0, false⟩ = (0, ctx) := by
  cases ctx with
  | mk pos room emitted refused => simp [DirContext.reply, DirContext.after]

theorem DirContext.reply_skip (ctx : DirContext) (rest : Served Emission) :
    ctx.reply ⟨rest.items, rest.passed + 1, rest.refused⟩ =
      (ctx.seek (ctx.pos + 1)).reply rest := by
  simp only [DirContext.reply, DirContext.after, DirContext.seek, Nat.add_assoc, Nat.add_comm 1]

theorem DirContext.after_emit (ctx : DirContext) (item : Emission) (rest : Served Emission) :
    ctx.after ⟨item :: rest.items, rest.passed + 1, rest.refused⟩ =
      DirContext.after ⟨ctx.pos + 1, ctx.room.map (· - 1), ctx.emitted ++ [item], ctx.refused⟩
        rest := by
  have hroom : ctx.room.map (· - (rest.items.length + 1)) =
      (ctx.room.map (· - 1)).map (· - rest.items.length) := by
    rw [Option.map_map]
    congr 1
    funext count
    simp only [Function.comp_apply]
    omega
  simp only [DirContext.after, List.length_cons, hroom, Nat.add_assoc, Nat.add_comm 1,
    List.append_assoc, List.singleton_append]

theorem DirContext.reply_emit (ctx : DirContext) (item : Emission) (rest : Served Emission) :
    ctx.reply ⟨item :: rest.items, rest.passed + 1, rest.refused⟩ =
      DirContext.reply ⟨ctx.pos + 1, ctx.room.map (· - 1), ctx.emitted ++ [item], ctx.refused⟩
        rest := by
  rw [DirContext.reply, ctx.after_emit]
  rfl

theorem DirContext.after_refused (ctx : DirContext) (hroom : ctx.room = some 0) :
    ctx.after ⟨[], 0, true⟩ = ⟨ctx.pos, ctx.room, ctx.emitted, true⟩ := by
  simp [DirContext.after, hroom]

theorem DirContext.reply_refused (ctx : DirContext) (hroom : ctx.room = some 0) :
    ctx.reply ⟨[], 0, true⟩ = (1, ⟨ctx.pos, ctx.room, ctx.emitted, true⟩) := by
  rw [DirContext.reply, ctx.after_refused hroom]
  rfl

section Rounds

variable {volume : Volume} {startIdx absIdx : ℕ} {ctx : DirContext} {slot : Slot}

theorem visitSlot_end {σ : Type*} {cb : DirentCb σ} {cbdata : σ} (hend : slot.de.isEnd = true) :
    visitSlot cb (cbdata, absIdx) slot = .error (0, cbdata) := by
  rw [visitSlot, visit, if_pos hend]

theorem visitSlot_before (hend : ¬ slot.de.isEnd = true) (hbound : absIdx + 1 < 2 ^ 32)
    (hbefore : absIdx < startIdx) :
    visitSlot (iterateCb volume startIdx) (ctx, absIdx) slot = .ok (ctx, absIdx + 1) := by
  simp [visitSlot, visit, hend, iterateCb, hbefore, u32_of_lt hbound]

theorem visitSlot_skip (hend : ¬ slot.de.isEnd = true) (hbound : absIdx + 1 < 2 ^ 32)
    (hbefore : ¬ absIdx < startIdx) (hskip : slot.de.isSkip = true) :
    visitSlot (iterateCb volume startIdx) (ctx, absIdx) slot =
      .ok (ctx.seek (ctx.pos + 1), absIdx + 1) := by
  simp [visitSlot, visit, hend, iterateCb, hbefore, hskip, u32_of_lt hbound]

theorem visitSlot_refused (hend : ¬ slot.de.isEnd = true) (hbefore : ¬ absIdx < startIdx)
    (hskip : ¬ slot.de.isSkip = true) (hroom : ctx.room = some 0) :
    visitSlot (iterateCb volume startIdx) (ctx, absIdx) slot =
      .error (1, ⟨ctx.pos, ctx.room, ctx.emitted, true⟩) := by
  simp [visitSlot, visit, hend, iterateCb, hbefore, hskip, dirEmit, hroom]

theorem visitSlot_emit (hend : ¬ slot.de.isEnd = true) (hbound : absIdx + 1 < 2 ^ 32)
    (hbefore : ¬ absIdx < startIdx) (hskip : ¬ slot.de.isSkip = true)
    (hroom : ctx.room ≠ some 0) :
    visitSlot (iterateCb volume startIdx) (ctx, absIdx) slot =
      .ok (⟨ctx.pos + 1, ctx.room.map (· - 1), ctx.emitted ++
        [⟨entryName slot.de, makeIno volume slot.sector slot.idx,
          if slot.de.isDir then .dir else .reg, ctx.pos⟩], ctx.refused⟩, absIdx + 1) := by
  simp [visitSlot, visit, hend, iterateCb, hbefore, hskip, dirEmit, hroom,
    u32_of_lt hbound, DirContext.seek]

end Rounds

/-- The walk passes the slots below the start without a trace, and serves those
after it from the position that belongs to them.  It returns one if it was refused. -/
theorem foldlM_iterateCb {volume : Volume} {startIdx absIdx : ℕ} {slots : List Slot}
    {ctx : DirContext} (hbound : absIdx + slots.length < 2 ^ 32)
    (hpos : ctx.pos = max startIdx absIdx + 2) :
    walkReply (slots.foldlM (visitSlot (iterateCb volume startIdx)) (ctx, absIdx)) =
      ctx.reply (serve ctx.room ((slotItems volume absIdx slots).drop (startIdx - absIdx))) := by
  induction slots generalizing absIdx ctx with
  | nil =>
      rw [slotItems, List.drop_nil, serve_nil, ctx.reply_nothing]
      rfl
  | cons slot slots ih =>
      rw [List.length_cons] at hbound
      by_cases hend : slot.de.isEnd = true
      · rw [foldlM_cons_of_error slots (visitSlot_end hend), slotItems, if_pos hend,
          List.drop_nil, serve_nil, ctx.reply_nothing]
        rfl
      rw [slotItems, if_neg hend]
      by_cases hbefore : absIdx < startIdx
      · have hdrop : startIdx - absIdx = (startIdx - (absIdx + 1)) + 1 := by omega
        rw [foldlM_cons_of_ok slots (visitSlot_before hend (by omega) hbefore), hdrop,
          List.drop_succ_cons]
        exact ih (by omega) (by omega)
      · have hzero : startIdx - absIdx = 0 := by omega
        have hdrop : startIdx - (absIdx + 1) = 0 := by omega
        have hslot : ctx.pos = absIdx + 2 := by omega
        rw [hzero, List.drop_zero, slotItem]
        by_cases hskip : slot.de.isSkip = true
        · rw [foldlM_cons_of_ok slots (visitSlot_skip hend (by omega) hbefore hskip),
            if_pos hskip, serve_none_cons, ctx.reply_skip]
          have hrest := @ih (absIdx + 1) (ctx.seek (ctx.pos + 1)) (by omega)
            (by simp only [DirContext.seek]; omega)
          rwa [hdrop, List.drop_zero] at hrest
        rw [if_neg hskip]
        by_cases hroom : ctx.room = some 0
        · rw [foldlM_cons_of_error slots (visitSlot_refused hend hbefore hskip hroom), hroom,
            serve_some_cons_of_refused, ctx.reply_refused hroom, ← hroom]
          rfl
        · rw [foldlM_cons_of_ok slots (visitSlot_emit hend (by omega) hbefore hskip hroom),
            serve_some_cons _ _ hroom, ctx.reply_emit, hslot]
          have hrest := @ih (absIdx + 1) ⟨absIdx + 2 + 1, ctx.room.map (· - 1), ctx.emitted ++
            [⟨entryName slot.de, makeIno volume slot.sector slot.idx,
              if slot.de.isDir then .dir else .reg, absIdx + 2⟩], ctx.refused⟩
            (by omega) (by simp only; omega)
          rwa [hdrop, List.drop_zero] at hrest

/-! ## Calls -/

section Calls

variable {volume : Volume} {startCluster fuel : ℕ} (storage : Storage volume startCluster)
  (dots : Dots)

/-- The directory as a stream, whatever its layout. -/
def stream : List (Option Emission) := dirStream volume dots storage.slots

theorem dirEmitDot_eq (ctx : DirContext) :
    dirEmitDot dots ctx =
      if ctx.pos = 0 then
        if ctx.room = some 0 then (false, ⟨ctx.pos, ctx.room, ctx.emitted, true⟩)
        else (true, ⟨1, ctx.room.map (· - 1), ctx.emitted ++ [⟨[dot], dots.self, .dir, ctx.pos⟩],
          ctx.refused⟩)
      else (true, ctx) := by
  simp only [dirEmitDot, dirEmit]
  split
  · split <;> rfl
  · rfl

theorem dirEmitDotdot_eq (ctx : DirContext) :
    dirEmitDotdot dots ctx =
      if ctx.pos = 1 then
        if ctx.room = some 0 then (false, ⟨ctx.pos, ctx.room, ctx.emitted, true⟩)
        else (true, ⟨2, ctx.room.map (· - 1),
          ctx.emitted ++ [⟨[dot, dot], dots.parent, .dir, ctx.pos⟩], ctx.refused⟩)
      else (true, ctx) := by
  simp only [dirEmitDotdot, dirEmit]
  split
  · split <;> rfl
  · rfl

/-- A call whose position is past the dots. -/
theorem iterateShared_of_two_le (hfuel : storage.rounds < fuel) {ctx : DirContext}
    (hpos : 2 ≤ ctx.pos) :
    (dirWalk fuel volume startCluster true (iterateCb volume (ctx.pos - 2)) ctx).map
        (fun reply => ((if reply.1 < 0 then reply.1 else 0 : Int), reply.2)) =
      some (0, ctx.after (serve ctx.room ((stream storage dots).drop ctx.pos))) := by
  have hbound := storage.length_slots_lt
  have hwalk := @foldlM_iterateCb volume (ctx.pos - 2) 0 storage.slots ctx (by omega) (by omega)
  have hdrop : (stream storage dots).drop ctx.pos =
      (slotItems volume 0 storage.slots).drop (ctx.pos - 2 - 0) := by
    obtain ⟨rest, hrest⟩ := Nat.exists_eq_add_of_le hpos
    rw [stream, dirStream, hrest, Nat.add_comm 2 rest]
    rfl
  rw [← hdrop] at hwalk
  rw [dirWalk_eq storage hfuel, hwalk, Option.map_some, DirContext.reply]
  split <;> rfl

/-- After the first dot the call is one that starts at the second. -/
theorem iterateShared_of_zero {ctx : DirContext} (hpos : ctx.pos = 0)
    (hroom : ctx.room ≠ some 0) :
    penguinFat16IterateShared fuel volume startCluster true dots ctx =
      penguinFat16IterateShared fuel volume startCluster true dots
        ⟨1, ctx.room.map (· - 1), ctx.emitted ++ [⟨[dot], dots.self, .dir, 0⟩], ctx.refused⟩ := by
  have hdots : dirEmitDots dots ctx = dirEmitDots dots
      ⟨1, ctx.room.map (· - 1), ctx.emitted ++ [⟨[dot], dots.self, .dir, 0⟩], ctx.refused⟩ := by
    simp only [dirEmitDots, dirEmitDot_eq, if_neg hroom, if_true, hpos,
      one_ne_zero, if_false]
  simp only [penguinFat16IterateShared, hdots]

theorem iterateShared_of_one (hfuel : storage.rounds < fuel) {ctx : DirContext}
    (hpos : ctx.pos = 1) :
    penguinFat16IterateShared fuel volume startCluster true dots ctx =
      some (0, ctx.after (serve ctx.room ((stream storage dots).drop 1))) := by
  have hstream : (stream storage dots).drop 1 =
      some ⟨[dot, dot], dots.parent, .dir, 1⟩ :: (stream storage dots).drop 2 := rfl
  have hfirst : dirEmitDot dots ctx = (true, ctx) := by
    rw [dirEmitDot_eq, if_neg (by omega)]
  by_cases hroom : ctx.room = some 0
  · have hdots : dirEmitDots dots ctx =
        (false, ⟨ctx.pos, ctx.room, ctx.emitted, true⟩) := by
      simp only [dirEmitDots, hfirst, if_true, dirEmitDotdot_eq, if_pos hpos, if_pos hroom]
    rw [hstream, hroom, serve_some_cons_of_refused, ctx.after_refused hroom]
    simp [penguinFat16IterateShared, hdots, hroom]
  · have hdots : dirEmitDots dots ctx = (true, ⟨2, ctx.room.map (· - 1),
        ctx.emitted ++ [⟨[dot, dot], dots.parent, .dir, ctx.pos⟩], ctx.refused⟩) := by
      simp only [dirEmitDots, hfirst, if_true, dirEmitDotdot_eq, if_pos hpos, if_neg hroom]
    have hrest := @iterateShared_of_two_le volume startCluster fuel storage dots hfuel
      ⟨2, ctx.room.map (· - 1), ctx.emitted ++ [⟨[dot, dot], dots.parent, .dir, ctx.pos⟩],
        ctx.refused⟩ le_rfl
    rw [hstream, serve_some_cons _ _ hroom, ctx.after_emit]
    simp only [penguinFat16IterateShared, hdots, if_true]
    rw [hrest, hpos]

/-- One call serves the stream from its position on. -/
theorem iterateShared_eq (hfuel : storage.rounds < fuel) (ctx : DirContext) :
    penguinFat16IterateShared fuel volume startCluster true dots ctx =
      some (0, ctx.after (serve ctx.room ((stream storage dots).drop ctx.pos))) := by
  rcases Nat.lt_or_ge ctx.pos 2 with hdots | hpast
  · rcases Nat.le_one_iff_eq_zero_or_eq_one.mp (Nat.le_of_lt_succ hdots) with hzero | hone
    · have hstream : (stream storage dots).drop ctx.pos =
          some ⟨[dot], dots.self, .dir, 0⟩ :: (stream storage dots).drop 1 := by
        rw [hzero]
        rfl
      by_cases hroom : ctx.room = some 0
      · have hfirst : dirEmitDots dots ctx =
            (false, ⟨ctx.pos, ctx.room, ctx.emitted, true⟩) := by
          simp [dirEmitDots, dirEmitDot_eq, hzero, hroom]
        rw [hstream, hroom, serve_some_cons_of_refused, ctx.after_refused hroom]
        simp [penguinFat16IterateShared, hfirst, hroom]
      · rw [iterateShared_of_zero dots hzero hroom, iterateShared_of_one storage dots hfuel rfl,
          hstream, serve_some_cons _ _ hroom, ctx.after_emit, hzero]
    · rw [iterateShared_of_one storage dots hfuel hone, hone]
  · have hfirst : dirEmitDots dots ctx = (true, ctx) := by
      simp only [dirEmitDots, dirEmitDot_eq, dirEmitDotdot_eq, if_neg (show ctx.pos ≠ 0 by omega),
        if_neg (show ctx.pos ≠ 1 by omega), if_true]
    have hwalk := iterateShared_of_two_le storage dots hfuel hpast
    simp only [penguinFat16IterateShared, hfirst, if_true]
    exact hwalk

end Calls

/-- A call at `pos` whose consumer takes `room` entries. -/
def call (fuel : ℕ) (volume : Volume) (startCluster : ℕ) (dots : Dots) (pos : ℕ)
    (room : Option ℕ) : Option (Int × DirContext) :=
  penguinFat16IterateShared fuel volume startCluster true dots ⟨pos, room, [], false⟩

/-- Successful calls one after the other, each at the position the last one
left: all that was emitted, and the last position. -/
def calls (fuel : ℕ) (volume : Volume) (startCluster : ℕ) (dots : Dots) :
    ℕ → List (Option ℕ) → Option (List Emission × ℕ)
  | pos, [] => some ([], pos)
  | pos, room :: rooms =>
      (call fuel volume startCluster dots pos room).bind fun reply =>
        if reply.1 ≠ 0 then none
        else
          (calls fuel volume startCluster dots reply.2.pos rooms).map fun rest =>
            (reply.2.emitted ++ rest.1, rest.2)

theorem call_eq {volume : Volume} {startCluster fuel : ℕ}
    (storage : Storage volume startCluster) (dots : Dots) (hfuel : storage.rounds < fuel)
    (pos : ℕ) (room : Option ℕ) :
    call fuel volume startCluster dots pos room =
      some (0, DirContext.after ⟨pos, room, [], false⟩
        (serve room ((stream storage dots).drop pos))) :=
  iterateShared_eq storage dots hfuel _

theorem calls_eq {volume : Volume} {startCluster fuel : ℕ}
    (storage : Storage volume startCluster) (dots : Dots) (hfuel : storage.rounds < fuel)
    (pos : ℕ) (rooms : List (Option ℕ)) :
    calls fuel volume startCluster dots pos rooms =
      some (serveAll (stream storage dots) pos rooms) := by
  induction rooms generalizing pos with
  | nil => rfl
  | cons room rooms ih =>
      rw [calls, call_eq storage dots hfuel, Option.bind_some, if_neg (by simp), ih]
      rfl

/-- What calls have emitted and what is still ahead of the last of them make up
the directory; nothing is ahead of one that was not refused. -/
theorem calls_append {volume : Volume} {startCluster fuel pos : ℕ}
    (storage : Storage volume startCluster) (dots : Dots) (hfuel : storage.rounds < fuel)
    {rooms : List (Option ℕ)} {room : Option ℕ} {emitted : List Emission} {last : DirContext}
    {ret : Int} (hcalls : calls fuel volume startCluster dots 0 rooms = some (emitted, pos))
    (hcall : call fuel volume startCluster dots pos room = some (ret, last)) :
    ∃ rest, emitted ++ last.emitted ++ rest = (stream storage dots).reduceOption ∧
      (last.refused = false → rest = []) := by
  rw [calls_eq storage dots hfuel, Option.some.injEq] at hcalls
  rw [call_eq storage dots hfuel, Option.some.injEq, Prod.mk.injEq] at hcall
  obtain ⟨-, rfl⟩ := hcall
  have hbefore := serveAll_items_append (stream storage dots) 0 rooms
  have hlast := serve_items_append room ((stream storage dots).drop pos)
  have hpassed := serve_passed_of_not_refused room ((stream storage dots).drop pos)
  rw [hcalls, List.drop_zero, ← hlast, ← List.append_assoc] at hbefore
  refine ⟨_, hbefore, fun haccepted => ?_⟩
  rw [hpassed (by simpa [DirContext.after] using haccepted), List.drop_length,
    List.reduceOption_nil]

/-- However a listing is split into calls, what they emit is the beginning of
the listing of one call, and all of it once a call was not refused. -/
theorem calls_resume {volume : Volume} {startCluster : ℕ} (storage : Storage volume startCluster)
    (dots : Dots) (fuel : ℕ) (hfuel : storage.rounds < fuel) :
    ∃ whole, call fuel volume startCluster dots 0 none = some (0, whole) ∧
      whole.refused = false ∧
      ∀ rooms room, ∃ emitted pos last,
        calls fuel volume startCluster dots 0 rooms = some (emitted, pos) ∧
        call fuel volume startCluster dots pos room = some (0, last) ∧
        emitted ++ last.emitted <+: whole.emitted ∧
        (last.refused = false → emitted ++ last.emitted = whole.emitted) := by
  have hwhole := call_eq storage dots hfuel 0 none
  rw [serve_unlimited, List.drop_zero] at hwhole
  refine ⟨_, hwhole, rfl, fun rooms room => ?_⟩
  have hcalls := calls_eq storage dots hfuel 0 rooms
  have hcall := call_eq storage dots hfuel (serveAll (stream storage dots) 0 rooms).2 room
  obtain ⟨rest, hrest, hend⟩ := calls_append storage dots hfuel hcalls hcall
  refine ⟨_, _, _, hcalls, hcall, ⟨rest, hrest⟩, fun haccepted => ?_⟩
  rw [hend haccepted, List.append_nil] at hrest
  exact hrest

theorem calls_resume_smallRoot :
    ∃ whole, call 1 smallVolume 0 ⟨1, 1⟩ 0 none = some (0, whole) ∧
      whole.refused = false ∧
      ∀ rooms room, ∃ emitted pos last,
        calls 1 smallVolume 0 ⟨1, 1⟩ 0 rooms = some (emitted, pos) ∧
        call 1 smallVolume 0 ⟨1, 1⟩ pos room = some (0, last) ∧
        emitted ++ last.emitted <+: whole.emitted ∧
        (last.refused = false → emitted ++ last.emitted = whole.emitted) :=
  calls_resume smallRoot ⟨1, 1⟩ 1 (by decide)

/-- The note is at position 4, behind the dots, the label and the deleted entry. -/
example : (call 1 smallVolume 0 ⟨1, 1⟩ 1 (some 2)).map (fun reply => reply.2.emitted) =
    some [⟨[dot, dot], 1, .dir, 1⟩,
      ⟨[0x4E, 0x4F, 0x54, 0x45, dot, 0x54, 0x58, 0x54], 1088, .reg, 4⟩] := by
  decide +kernel

end DoomsdayModules.Fat16.Readdir
