import DoomsdayModules.Telegram.Threads

/-!
# Locks

In every schedule a lock has one process in its sections, who gives it back
after six accesses of its own at most, and no process is stuck in front of a
lock for good.
-/

namespace DoomsdayModules.Telegram.Exclusion

open Function DoomsdayModules.KernelText DoomsdayModules.Mutexes
open DoomsdayModules.Telegram.Devices DoomsdayModules.Telegram.Threads

variable {opened : ℕ → ℕ} {kernel : Kernel}

/-! ## Sections -/

/-- The lock a writer has, by where it is. -/
def writerHolds : WriterTask → Option Lock
  | .print line | .count line _ | .unlockChat line => some (.chat line.chat)
  | .testQueue _ _ | .storeFrame _ _ | .moveTail _ _ | .moveCount _ _ | .wakeBus | .unlockBus =>
      some .bus
  | .storeId binding | .unlockSet binding => some (.chat binding.chat)
  | _ => none

/-- Whether a reader is between its lock and its unlock. -/
def readerInside : ReaderTask → Bool
  | .test _ | .unlockEmpty _ | .copy _ | .advance _ _ | .finish _ _ | .unlock => true
  | _ => false

def holds (opened : ℕ → ℕ) (kernel : Kernel) : Agent → Option Lock
  | .writer process => writerHolds (kernel.writers process)
  | .reader source =>
      if readerInside (kernel.readers source) then some (lockOf opened source) else none

@[simp]
theorem holds_setWriter (process : ℕ) (task : WriterTask) :
    holds opened (kernel.setWriter process task) =
      update (holds opened kernel) (.writer process) (writerHolds task) := by
  funext agent
  cases agent with
  | writer other =>
      by_cases hother : other = process
      · subst hother
        simp [holds]
      · simp [holds, hother]
  | reader source => simp [holds]

@[simp]
theorem holds_setReader (source : Source) (task : ReaderTask) :
    holds opened (kernel.setReader source task) =
      update (holds opened kernel) (.reader source)
        (if readerInside task then some (lockOf opened source) else none) := by
  funext agent
  cases agent with
  | writer process => simp [holds]
  | reader other =>
      by_cases hother : other = source
      · subst hother
        simp [holds]
      · simp [holds, hother]

@[simp]
theorem holds_setOwner (lock : Lock) (owner : Option Agent) :
    holds opened (kernel.setOwner lock owner) = holds opened kernel := by
  funext agent
  cases agent <;> rfl

@[simp]
theorem holds_setChat (chat : ℕ) (dev : ChatDev) :
    holds opened (kernel.setChat chat dev) = holds opened kernel := by
  funext agent
  cases agent <;> rfl

@[simp]
theorem holds_setBus (bus : TgBusDev) :
    holds opened (kernel.setBus bus) = holds opened kernel := by
  funext agent
  cases agent <;> rfl

@[simp]
theorem holds_answer (source : Source) (reply : Except Int Text) :
    holds opened (kernel.answer source reply) = holds opened kernel := by
  funext agent
  cases agent <;> rfl

@[simp]
theorem holds_deliver (file : ℕ) (bytes : Text) :
    holds opened (kernel.deliver file bytes) = holds opened kernel := by
  funext agent
  cases agent <;> rfl

theorem readerInside_wake (task : ReaderTask) : readerInside task.wake = readerInside task := by
  cases task with
  | check count signalled woken => cases signalled <;> rfl
  | _ => rfl

/-- A wake-up moves nobody into a section or out of one. -/
@[simp]
theorem holds_wakeUp (lock : Lock) :
    holds opened (kernel.wakeUp opened lock) = holds opened kernel := by
  funext agent
  cases agent with
  | writer process => rfl
  | reader source =>
      simp only [holds, Kernel.wakeUp_readers]
      split
      · rw [readerInside_wake]
      · rfl

/-! ## Mutual exclusion -/

/-- The owner of each lock is the one process in its sections. -/
def Locked (opened : ℕ → ℕ) (kernel : Kernel) : Prop :=
  Exclusive kernel.owner (holds opened kernel)

theorem locked_init (opened : ℕ → ℕ) : Locked opened telegramInit := by
  intro lock agent
  cases agent <;> exact iff_of_false (fun h => by cases h) fun h => by cases h

namespace Locked

theorem setChat (hlocked : Locked opened kernel) (chat : ℕ) (dev : ChatDev) :
    Locked opened (kernel.setChat chat dev) := by
  rw [Locked, holds_setChat]
  exact hlocked

theorem setBus (hlocked : Locked opened kernel) (bus : TgBusDev) :
    Locked opened (kernel.setBus bus) := by
  rw [Locked, holds_setBus]
  exact hlocked

theorem wakeUp (hlocked : Locked opened kernel) (lock : Lock) :
    Locked opened (kernel.wakeUp opened lock) := by
  rw [Locked, holds_wakeUp]
  exact hlocked

theorem answer (hlocked : Locked opened kernel) (source : Source) (reply : Except Int Text) :
    Locked opened (kernel.answer source reply) := by
  rw [Locked, holds_answer]
  exact hlocked

theorem deliver (hlocked : Locked opened kernel) (file : ℕ) (bytes : Text) :
    Locked opened (kernel.deliver file bytes) := by
  rw [Locked, holds_deliver]
  exact hlocked

section Writers

variable {process : ℕ} {task : WriterTask} {lock : Lock}

theorem writer_stay (hlocked : Locked opened kernel)
    (hkeep : writerHolds (kernel.writers process) = writerHolds task) :
    Locked opened (kernel.setWriter process task) := by
  rw [Locked, holds_setWriter, ← hkeep]
  exact hlocked.stay rfl

theorem writer_take (hlocked : Locked opened kernel) (hfree : kernel.owner lock = none)
    (houtside : writerHolds (kernel.writers process) = none)
    (htask : writerHolds task = some lock) :
    Locked opened ((kernel.setOwner lock (some (.writer process))).setWriter process task) := by
  rw [Locked, holds_setWriter, holds_setOwner, htask]
  exact hlocked.acquire hfree houtside

theorem writer_leave (hlocked : Locked opened kernel)
    (hinside : writerHolds (kernel.writers process) = some lock)
    (htask : writerHolds task = none) :
    Locked opened ((kernel.setOwner lock none).setWriter process task) := by
  rw [Locked, holds_setWriter, holds_setOwner, htask]
  exact hlocked.release hinside

end Writers

section Readers

variable {source : Source} {task : ReaderTask}

theorem reader_stay (hlocked : Locked opened kernel)
    (hkeep : readerInside (kernel.readers source) = readerInside task) :
    Locked opened (kernel.setReader source task) := by
  rw [Locked, holds_setReader, ← hkeep]
  exact hlocked.stay rfl

theorem reader_take (hlocked : Locked opened kernel)
    (hfree : kernel.owner (lockOf opened source) = none)
    (houtside : readerInside (kernel.readers source) = false)
    (htask : readerInside task = true) :
    Locked opened ((kernel.setOwner (lockOf opened source) (some (.reader source))).setReader
      source task) := by
  rw [Locked, holds_setReader, holds_setOwner, htask]
  exact hlocked.acquire hfree (by simp [holds, houtside])

theorem reader_leave (hlocked : Locked opened kernel)
    (hinside : readerInside (kernel.readers source) = true)
    (htask : readerInside task = false) :
    Locked opened ((kernel.setOwner (lockOf opened source) none).setReader source task) := by
  rw [Locked, holds_setReader, holds_setOwner, htask]
  exact hlocked.release (by simp [holds, hinside])

end Readers

end Locked

theorem locked_writerStep (hlocked : Locked opened kernel) (process : ℕ) :
    Locked opened (writerStep opened kernel process) := by
  unfold writerStep
  cases htask : kernel.writers process with
  | idle => exact hlocked
  | lockChat line | lockBus chat tmp | lockSet binding =>
      dsimp only
      split
      · exact hlocked.writer_take ‹_› (by rw [htask]; rfl) rfl
      · exact hlocked
  | print line | count line stored | storeId binding =>
      exact (hlocked.setChat _ _).writer_stay (by rw [Kernel.setChat_writers, htask]; rfl)
  | unlockChat line =>
      exact hlocked.writer_leave (by rw [htask]; rfl) rfl
  | unlockBus | unlockSet binding => exact hlocked.writer_leave (by rw [htask]; rfl) rfl
  | wakeChat line =>
      refine (hlocked.wakeUp _).writer_stay ?_
      rw [Kernel.wakeUp_writers, htask]
      cases line <;> rfl
  | testQueue chat tmp =>
      refine hlocked.writer_stay ?_
      rw [htask]
      split <;> rfl
  | storeFrame chat tmp | moveTail chat tmp | moveCount chat tmp =>
      exact (hlocked.setBus _).writer_stay (by rw [Kernel.setBus_writers, htask]; rfl)
  | wakeBus => exact (hlocked.wakeUp _).writer_stay (by rw [Kernel.wakeUp_writers, htask]; rfl)

theorem locked_readerStep (hlocked : Locked opened kernel) (source : Source) (flag : Bool) :
    Locked opened (readerStep opened kernel source flag) := by
  unfold readerStep
  cases htask : kernel.readers source with
  | idle => exact hlocked
  | lock count =>
      dsimp only
      split
      · exact hlocked.reader_take ‹_› (by rw [htask]; rfl) rfl
      · exact hlocked
  | test count | waitFirst count =>
      refine hlocked.reader_stay ?_
      rw [htask]
      split <;> rfl
  | unlockEmpty count =>
      cases flag with
      | true =>
          refine (hlocked.answer source (.error eagain)).reader_leave ?_ rfl
          rw [Kernel.answer_readers, htask]
          rfl
      | false => exact hlocked.reader_leave (by rw [htask]; rfl) rfl
  | prepare count => exact hlocked.reader_stay (by rw [htask]; rfl)
  | check count signalled woken =>
      dsimp only
      split
      · exact hlocked.reader_stay (by rw [htask]; rfl)
      · split
        · refine (hlocked.answer source _).reader_stay ?_
          rw [Kernel.answer_readers, htask]
          rfl
        · exact hlocked.reader_stay (by rw [htask]; rfl)
  | schedule count woken =>
      dsimp only
      split
      · exact hlocked.reader_stay (by rw [htask]; rfl)
      · exact hlocked
  | copy count =>
      dsimp only [readerCopy]
      split
      · refine (hlocked.answer source _).reader_stay ?_
        rw [Kernel.answer_readers, htask]
        rfl
      · exact hlocked.reader_stay (by rw [htask]; rfl)
  | advance count bytes =>
      cases source with
      | file file => exact (hlocked.deliver file bytes).reader_stay (by
          rw [Kernel.deliver_readers, htask]
          rfl)
      | bus process => exact (hlocked.setBus _).reader_stay (by
          rw [Kernel.setBus_readers, htask]
          rfl)
  | finish count bytes =>
      cases source with
      | file file => exact hlocked.reader_stay (by rw [htask]; rfl)
      | bus process => exact ((hlocked.setBus _).answer _ _).reader_stay (by
          rw [Kernel.answer_readers, Kernel.setBus_readers, htask]
          rfl)
  | unlock => exact hlocked.reader_leave (by rw [htask]; rfl) rfl

theorem writerHolds_chatWriteEntry (chat : ℕ) (ubuf : Text) (readable : Bool) :
    writerHolds (chatWriteEntry chat ubuf readable) = none := by
  unfold chatWriteEntry
  split <;> rfl

theorem writerHolds_busWriteEntry (ubuf : Text) (readable : Bool) :
    writerHolds (busWriteEntry ubuf readable) = none := by
  unfold busWriteEntry
  split <;> rfl

theorem locked_step (kernel : Kernel) (op : Op) (hlocked : Locked opened kernel) :
    Locked opened (step opened kernel op) := by
  cases op with
  | chatWrite process chat ubuf readable =>
      simp only [step]
      split
      · refine hlocked.writer_stay ?_
        rw [‹kernel.writers process = _›, writerHolds_chatWriteEntry]
        rfl
      · exact hlocked
  | busWrite process ubuf readable =>
      simp only [step]
      split
      · refine hlocked.writer_stay ?_
        rw [‹kernel.writers process = _›, writerHolds_busWriteEntry]
        rfl
      · exact hlocked
  | read source count =>
      simp only [step]
      split
      · exact hlocked.reader_stay (by rw [‹kernel.readers source = _›]; rfl)
      · exact hlocked
  | writer process => exact locked_writerStep hlocked process
  | reader source flag => exact locked_readerStep hlocked source flag

theorem locked_execute (opened : ℕ → ℕ) (ops : List Op) :
    Locked opened (execute opened telegramInit ops) :=
  Schedules.foldl_invariant (step opened) locked_step (locked_init opened) ops

/-! ## What a step leaves alone -/

/-- The process that makes the access of a step; a call is no access. -/
def access : Op → Option Agent
  | .writer process => some (.writer process)
  | .reader source _ => some (.reader source)
  | _ => none

theorem writers_writerStep_of_ne {process other : ℕ} (hother : other ≠ process) :
    (writerStep opened kernel process).writers other = kernel.writers other := by
  unfold writerStep
  cases kernel.writers process <;> (dsimp only; try split) <;> simp [hother]

variable (opened kernel) in
theorem readers_writerStep (process : ℕ) (source : Source) :
    (writerStep opened kernel process).readers source = kernel.readers source ∨
      (writerStep opened kernel process).readers source = (kernel.readers source).wake := by
  unfold writerStep
  cases kernel.writers process with
  | wakeChat line =>
      simp only [Kernel.setWriter_readers, Kernel.wakeUp_readers]
      split <;> simp
  | wakeBus =>
      simp only [Kernel.setWriter_readers, Kernel.wakeUp_readers]
      split <;> simp
  | lockChat line | lockBus chat tmp | lockSet binding =>
      dsimp only
      split <;> exact .inl rfl
  | _ => exact .inl rfl

theorem readerStep_keeps (opened : ℕ → ℕ) (kernel : Kernel) (source : Source) (flag : Bool) :
    (readerStep opened kernel source flag).writers = kernel.writers ∧
      (readerStep opened kernel source flag).chats = kernel.chats := by
  unfold readerStep
  cases kernel.readers source with
  | copy count =>
      dsimp only [readerCopy]
      split <;> exact ⟨rfl, rfl⟩
  | advance count bytes | finish count bytes => cases source <;> exact ⟨rfl, rfl⟩
  | unlockEmpty count => cases flag <;> exact ⟨rfl, rfl⟩
  | lock count | schedule count woken =>
      dsimp only
      split <;> exact ⟨rfl, rfl⟩
  | check count signalled woken =>
      dsimp only
      split
      · exact ⟨rfl, rfl⟩
      · split <;> exact ⟨rfl, rfl⟩
  | _ => exact ⟨rfl, rfl⟩

theorem readers_readerStep_of_ne {source other : Source} (flag : Bool) (hother : other ≠ source) :
    (readerStep opened kernel source flag).readers other = kernel.readers other := by
  unfold readerStep
  cases kernel.readers source with
  | copy count =>
      dsimp only [readerCopy]
      split <;> simp [hother]
  | advance count bytes => cases source <;> simp [readerAdvance, hother]
  | finish count bytes => cases source <;> simp [readerFinish, hother]
  | unlockEmpty count => cases flag <;> simp [hother]
  | lock count | schedule count woken =>
      dsimp only
      split <;> simp [hother]
  | check count signalled woken =>
      dsimp only
      split
      · simp [hother]
      · split <;> simp [hother]
  | _ => simp [hother]

variable (opened) in
/-- A process inside of a call is where it was, when another makes the access. -/
theorem writers_step_other {process : ℕ} {op : Op} (haccess : access op ≠ some (.writer process))
    (hinside : kernel.writers process ≠ .idle) :
    (step opened kernel op).writers process = kernel.writers process := by
  cases op with
  | chatWrite other chat ubuf readable | busWrite other ubuf readable =>
      simp only [step]
      split
      · have hother : process ≠ other := by
          rintro rfl
          exact hinside ‹_›
        simp [hother]
      · rfl
  | read source count =>
      simp only [step]
      split <;> rfl
  | writer other => exact writers_writerStep_of_ne fun hother => haccess (by rw [hother]; rfl)
  | reader source flag => rw [step, (readerStep_keeps opened kernel source flag).1]

variable (opened) in
theorem readers_step_other {source : Source} {op : Op} (haccess : access op ≠ some (.reader source))
    (hinside : kernel.readers source ≠ .idle) :
    (step opened kernel op).readers source = kernel.readers source ∨
      (step opened kernel op).readers source = (kernel.readers source).wake := by
  cases op with
  | chatWrite process chat ubuf readable | busWrite process ubuf readable =>
      simp only [step]
      split <;> exact .inl rfl
  | read other count =>
      simp only [step]
      split
      · have hother : source ≠ other := by
          rintro rfl
          exact hinside ‹_›
        simp [hother]
      · exact .inl rfl
  | writer process => exact readers_writerStep opened kernel process source
  | reader other flag =>
      exact .inl (readers_readerStep_of_ne flag fun hother => haccess (by rw [hother]; rfl))

/-! ## Giving a lock back -/

/-- How many accesses a writer makes before it has no lock. -/
def writerRank : WriterTask → ℕ
  | .testQueue _ _ => 6
  | .storeFrame _ _ => 5
  | .moveTail _ _ => 4
  | .print _ | .moveCount _ _ => 3
  | .count _ _ | .wakeBus | .storeId _ => 2
  | .unlockChat _ | .unlockBus | .unlockSet _ => 1
  | _ => 0

def readerRank : ReaderTask → ℕ
  | .test _ => 5
  | .copy _ => 4
  | .advance _ _ => 3
  | .finish _ _ => 2
  | .unlockEmpty _ | .unlock => 1
  | _ => 0

def rank (kernel : Kernel) : Agent → ℕ
  | .writer process => writerRank (kernel.writers process)
  | .reader source => readerRank (kernel.readers source)

theorem rank_eq_zero_iff (agent : Agent) : rank kernel agent = 0 ↔ holds opened kernel agent = none := by
  cases agent with
  | writer process =>
      simp only [rank, holds]
      cases kernel.writers process <;> simp [writerRank, writerHolds]
  | reader source =>
      simp only [rank, holds]
      cases kernel.readers source <;> simp [readerRank, readerInside]

theorem rank_le (agent : Agent) : rank kernel agent ≤ 6 := by
  cases agent with
  | writer process =>
      simp only [rank]
      cases kernel.writers process <;> simp [writerRank]
  | reader source =>
      simp only [rank]
      cases kernel.readers source <;> simp [readerRank]

theorem readerRank_wake (task : ReaderTask) : readerRank task.wake = readerRank task := by
  cases task with
  | check count signalled woken => cases signalled <;> rfl
  | _ => rfl

variable (opened) in
/-- The owner of a lock is one access closer to giving it back. -/
theorem rank_own {agent : Agent} {op : Op} (haccess : access op = some agent)
    (hinside : rank kernel agent ≠ 0) : rank (step opened kernel op) agent < rank kernel agent := by
  cases op with
  | chatWrite | busWrite | read => cases haccess
  | writer process =>
      cases haccess
      simp only [rank, step, writerStep] at hinside ⊢
      cases htask : kernel.writers process with
      | testQueue chat tmp =>
          dsimp only
          split <;> simp [writerRank]
      | idle | lockChat | wakeChat | lockBus | lockSet =>
          rw [htask] at hinside
          exact absurd rfl hinside
      | _ => simp [writerRank]
  | reader source flag =>
      cases haccess
      simp only [rank, step, readerStep] at hinside ⊢
      cases htask : kernel.readers source with
      | test count =>
          dsimp only
          split <;> simp [readerRank]
      | unlockEmpty count => cases flag <;> simp [readerRank]
      | copy count =>
          dsimp only [readerCopy]
          split <;> simp [readerRank]
      | advance count bytes => cases source <;> simp [readerAdvance, readerRank]
      | finish count bytes => cases source <;> simp [readerFinish, readerRank]
      | unlock => simp [readerRank]
      | _ =>
          rw [htask] at hinside
          exact absurd rfl hinside

variable (opened) in
/-- The others do not move the owner of a lock. -/
theorem rank_other {agent : Agent} {op : Op} (haccess : access op ≠ some agent)
    (hinside : rank kernel agent ≠ 0) :
    rank (step opened kernel op) agent = rank kernel agent := by
  cases agent with
  | writer process =>
      have hidle : kernel.writers process ≠ .idle := fun hidle => hinside (by rw [rank, hidle]; rfl)
      simp only [rank, writers_step_other opened haccess hidle]
  | reader source =>
      have hidle : kernel.readers source ≠ .idle := fun hidle => hinside (by rw [rank, hidle]; rfl)
      rcases readers_step_other opened haccess hidle with h | h
      · rw [rank, h, rank]
      · rw [rank, h, readerRank_wake, rank]

/-- The owner of a lock gives it back in every schedule that gives it enough accesses. -/
theorem exists_released {agent : Agent} {lock : Lock} {ops : List Op}
    (hinside : holds opened kernel agent = some lock)
    (hturns : 6 ≤ ops.countP fun op => access op = some agent) :
    ∃ done, done <+: ops ∧ holds opened (execute opened kernel done) agent = none := by
  refine Schedules.exists_reached (step opened) _ (fun kernel => rank kernel agent ≠ 0)
    (fun kernel => holds opened kernel agent = none) (fun kernel => rank kernel agent)
    (fun kernel hrank => Nat.pos_of_ne_zero hrank)
    (fun kernel op hop hrank => ?_) (fun kernel op hop hrank => ?_) ?_
    ((rank_le agent).trans hturns)
  · have hless := rank_own opened (of_decide_eq_true hop) hrank
    rw [← rank_eq_zero_iff]
    exact (eq_or_ne _ 0).imp_right fun hinside => ⟨hinside, hless⟩
  · have hsame := rank_other opened (fun h => hop (decide_eq_true h)) hrank
    exact .inr ⟨hsame ▸ hrank, hsame.le⟩
  · intro hrank
    rw [rank_eq_zero_iff, hinside] at hrank
    cases hrank

/-! ## Who can move -/

/-- A process whose next access changes the state, without a signal's help. -/
def CanMove (opened : ℕ → ℕ) (kernel : Kernel) : Agent → Prop
  | .writer process => writerStep opened kernel process ≠ kernel
  | .reader source => readerStep opened kernel source false ≠ kernel

def Idle (kernel : Kernel) : Agent → Prop
  | .writer process => kernel.writers process = .idle
  | .reader source => kernel.readers source = .idle

/-- A reader that no wake-up has reached. -/
def Asleep (kernel : Kernel) : Agent → Prop
  | .writer _ => False
  | .reader source => ∃ count, kernel.readers source = .schedule count false

/-- The lock a process is about to take. -/
def waitsFor (opened : ℕ → ℕ) (kernel : Kernel) : Agent → Option Lock
  | .writer process =>
      match kernel.writers process with
      | .lockChat line => some (.chat line.chat)
      | .lockBus _ _ => some .bus
      | .lockSet binding => some (.chat binding.chat)
      | _ => none
  | .reader source =>
      match kernel.readers source with
      | .lock _ => some (lockOf opened source)
      | _ => none

theorem canMove_writer {process : ℕ} (hidle : kernel.writers process ≠ .idle)
    (hfree : ∀ lock, waitsFor opened kernel (.writer process) = some lock →
      kernel.owner lock = none) : CanMove opened kernel (.writer process) := by
  intro hsame
  have htasks := congrFun (congrArg Kernel.writers hsame) process
  simp only [waitsFor] at hfree
  simp only [writerStep] at htasks
  cases htask : kernel.writers process with
  | idle => exact hidle htask
  | lockChat line | lockBus chat tmp | lockSet binding =>
      rw [htask] at htasks hfree
      dsimp only at htasks hfree
      rw [if_pos (hfree _ rfl), Kernel.setWriter_writers, update_self] at htasks
      cases htasks
  | wakeChat line =>
      rw [htask] at htasks
      cases line <;> simp [Line.rest] at htasks
  | testQueue chat tmp =>
      rw [htask] at htasks
      simp only [Kernel.setWriter_writers, update_self] at htasks
      split at htasks <;> cases htasks
  | _ =>
      rw [htask] at htasks
      simp at htasks

theorem canMove_reader {source : Source} (hidle : kernel.readers source ≠ .idle)
    (hawake : ¬ Asleep kernel (.reader source))
    (hfree : ∀ lock, waitsFor opened kernel (.reader source) = some lock →
      kernel.owner lock = none) : CanMove opened kernel (.reader source) := by
  intro hsame
  have htasks := congrFun (congrArg Kernel.readers hsame) source
  simp only [waitsFor] at hfree
  simp only [readerStep] at htasks
  cases htask : kernel.readers source with
  | idle => exact hidle htask
  | lock count =>
      rw [htask] at htasks hfree
      dsimp only at htasks hfree
      rw [if_pos (hfree _ rfl), Kernel.setReader_readers, update_self] at htasks
      cases htasks
  | schedule count woken =>
      rw [htask] at htasks
      cases woken with
      | false => exact hawake ⟨count, htask⟩
      | true => simp at htasks
  | test count | waitFirst count =>
      rw [htask] at htasks
      simp only [Kernel.setReader_readers, update_self] at htasks
      split at htasks <;> cases htasks
  | check count signalled woken =>
      rw [htask] at htasks
      dsimp only at htasks
      split at htasks
      · simp at htasks
      · split at htasks <;> simp at htasks
  | copy count =>
      rw [htask] at htasks
      dsimp only [readerCopy] at htasks
      split at htasks <;> simp at htasks
  | advance count bytes =>
      rw [htask] at htasks
      cases source <;> simp [readerAdvance] at htasks
  | finish count bytes =>
      rw [htask] at htasks
      cases source <;> simp [readerFinish] at htasks
  | _ =>
      rw [htask] at htasks
      simp at htasks

/-- The owner of a lock waits for nothing. -/
theorem canMove_of_holds {agent : Agent} {lock : Lock} (hholds : holds opened kernel agent = some lock) :
    CanMove opened kernel agent := by
  cases agent with
  | writer process =>
      simp only [holds] at hholds
      refine canMove_writer ?_ ?_
      · intro hidle
        rw [hidle] at hholds
        cases hholds
      · intro lock hwaits
        simp only [waitsFor] at hwaits
        cases htask : kernel.writers process <;> simp [htask, writerHolds] at hholds hwaits
  | reader source =>
      simp only [holds] at hholds
      refine canMove_reader ?_ ?_ ?_
      · intro hidle
        rw [hidle] at hholds
        cases hholds
      · rintro ⟨count, hasleep⟩
        rw [hasleep] at hholds
        cases hholds
      · intro lock hwaits
        simp only [waitsFor] at hwaits
        cases htask : kernel.readers source <;> simp [htask, readerInside] at hholds hwaits

/-- A process inside of a call can move, or waits for the owner of a lock, who
can, or is asleep. -/
theorem moves_or_waits (hlocked : Locked opened kernel) {agent : Agent}
    (hinside : ¬ Idle kernel agent) :
    CanMove opened kernel agent ∨
      (∃ lock other, waitsFor opened kernel agent = some lock ∧
        holds opened kernel other = some lock ∧ CanMove opened kernel other) ∨
      Asleep kernel agent := by
  by_cases hfree : ∀ lock, waitsFor opened kernel agent = some lock → kernel.owner lock = none
  · cases agent with
    | writer process => exact .inl (canMove_writer hinside hfree)
    | reader source =>
        by_cases hawake : Asleep kernel (.reader source)
        · exact .inr (.inr hawake)
        · exact .inl (canMove_reader hinside hawake hfree)
  · push Not at hfree
    obtain ⟨lock, hwaits, htaken⟩ := hfree
    obtain ⟨other, hother⟩ := hlocked.exists_holder htaken
    exact .inr (.inl ⟨lock, other, hwaits, hother, canMove_of_holds hother⟩)

/-! ## Every schedule -/

/-- Who writes to a chat has its lock. -/
theorem chats_step {op : Op} {chat : ℕ}
    (hchanged : (step opened kernel op).chats chat ≠ kernel.chats chat) :
    ∃ agent, access op = some agent ∧ holds opened kernel agent = some (.chat chat) := by
  cases op with
  | chatWrite | busWrite | read =>
      simp only [step] at hchanged
      split at hchanged <;> exact absurd rfl hchanged
  | reader source flag =>
      exact absurd (congrFun (readerStep_keeps opened kernel source flag).2 chat) hchanged
  | writer process =>
      refine ⟨.writer process, rfl, ?_⟩
      simp only [step, writerStep] at hchanged
      rw [holds]
      cases htask : kernel.writers process with
      | print line | count line stored | storeId line =>
          rw [htask] at hchanged
          by_cases hchat : chat = line.chat
          · rw [hchat]
            rfl
          · exact absurd (by simp [hchat]) hchanged
      | lockChat | lockBus | lockSet =>
          rw [htask] at hchanged
          dsimp only at hchanged
          split at hchanged <;> exact absurd rfl hchanged
      | _ =>
          rw [htask] at hchanged
          exact absurd rfl hchanged

/-- Who writes to the bus has its lock. -/
theorem bus_step {op : Op} (hchanged : (step opened kernel op).bus ≠ kernel.bus) :
    ∃ agent, access op = some agent ∧ holds opened kernel agent = some .bus := by
  cases op with
  | chatWrite | busWrite | read =>
      simp only [step] at hchanged
      split at hchanged <;> exact absurd rfl hchanged
  | reader source flag =>
      refine ⟨.reader source, rfl, ?_⟩
      simp only [step, readerStep] at hchanged
      rw [holds]
      cases htask : kernel.readers source with
      | advance count bytes | finish count bytes =>
          rw [htask] at hchanged
          cases source with
          | file file => exact absurd rfl hchanged
          | bus process => rfl
      | copy count =>
          rw [htask] at hchanged
          dsimp only [readerCopy] at hchanged
          split at hchanged <;> exact absurd rfl hchanged
      | unlockEmpty count =>
          rw [htask] at hchanged
          cases flag <;> exact absurd rfl hchanged
      | lock | schedule =>
          rw [htask] at hchanged
          dsimp only at hchanged
          split at hchanged <;> exact absurd rfl hchanged
      | check count signalled woken =>
          rw [htask] at hchanged
          dsimp only at hchanged
          split at hchanged
          · exact absurd rfl hchanged
          · split at hchanged <;> exact absurd rfl hchanged
      | _ =>
          rw [htask] at hchanged
          exact absurd rfl hchanged
  | writer process =>
      refine ⟨.writer process, rfl, ?_⟩
      simp only [step, writerStep] at hchanged
      rw [holds]
      cases htask : kernel.writers process with
      | storeFrame | moveTail | moveCount => rfl
      | lockChat | lockBus | lockSet =>
          rw [htask] at hchanged
          dsimp only at hchanged
          split at hchanged <;> exact absurd rfl hchanged
      | _ =>
          rw [htask] at hchanged
          exact absurd rfl hchanged

/-- Locks that keep the shared data to one process at a time and that no
process is stuck in or in front of. -/
structure Disciplined (opened : ℕ → ℕ) (kernel : Kernel) : Prop where
  exclusive : ∀ lock agent other, holds opened kernel agent = some lock →
    holds opened kernel other = some lock → agent = other
  chats_locked : ∀ op chat, (step opened kernel op).chats chat ≠ kernel.chats chat →
    ∃ agent, access op = some agent ∧ holds opened kernel agent = some (.chat chat)
  bus_locked : ∀ op, (step opened kernel op).bus ≠ kernel.bus →
    ∃ agent, access op = some agent ∧ holds opened kernel agent = some .bus
  progress : ∀ agent, ¬ Idle kernel agent → CanMove opened kernel agent ∨
    (∃ lock other, waitsFor opened kernel agent = some lock ∧
      holds opened kernel other = some lock ∧ CanMove opened kernel other) ∨
    Asleep kernel agent
  released : ∀ agent lock ops, holds opened kernel agent = some lock →
    6 ≤ (ops.countP fun op => access op = some agent) →
      ∃ done, done <+: ops ∧ holds opened (execute opened kernel done) agent = none

/-- In every schedule one process at most is in the sections of a lock, only it
writes what the lock protects, it gives the lock back within six accesses of its
own, and nobody else's calls stop but for a lock it has or in sleep. -/
theorem disciplined_execute (opened : ℕ → ℕ) (ops : List Op) :
    Disciplined opened (execute opened telegramInit ops) :=
  have hlocked := locked_execute opened ops
  { exclusive := fun _ _ _ hagent hother => hlocked.unique hagent hother
    chats_locked := fun _ _ hchanged => chats_step hchanged
    bus_locked := fun _ hchanged => bus_step hchanged
    progress := fun _ hinside => moves_or_waits hlocked hinside
    released := fun _ _ _ hinside hturns => exists_released hinside hturns }

end DoomsdayModules.Telegram.Exclusion
