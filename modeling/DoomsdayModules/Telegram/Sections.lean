import DoomsdayModules.Telegram.Exclusion
import DoomsdayModules.Telegram.MessageBus

/-!
# Sections

Each section of a lock takes effect at one access, the one that makes its
change visible to the readers that look without the lock.  What the process in a
section knows of the data it changes holds until its next access, whatever the
others do, and relates the data to a state between the sections.
-/

namespace DoomsdayModules.Telegram.Sections

open Function DoomsdayModules.KernelText DoomsdayModules.RingBuffer
open DoomsdayModules.Telegram DoomsdayModules.Telegram.Devices DoomsdayModules.Telegram.MessageBus
open DoomsdayModules.Telegram.Threads DoomsdayModules.Telegram.Exclusion

variable {opened : ℕ → ℕ} {kernel : Kernel}

/-! ## Where calls take effect -/

def lineOp (process : ℕ) : Line → System.Op
  | .user chat tmp _ => .chatWrite process chat tmp true
  | .incoming ubuf _ _ _ _ => .busWrite ubuf true

def readCallOp (count : ℕ) : Source → System.Op
  | .file file => .chatReadCall file count
  | .bus process => .busReadCall process count

def readLockOp (nonblock writable : Bool) : Source → System.Op
  | .file file => .chatReadLock file nonblock writable
  | .bus process => .busReadLock process nonblock writable

def readWakeOp (interrupted : Bool) : Source → System.Op
  | .file file => .chatReadWake file interrupted
  | .bus process => .busReadWake process interrupted

def writerCommit (kernel : Kernel) (process : ℕ) : List System.Op :=
  match kernel.writers process with
  | .count line _ => [lineOp process line]
  | .storeId binding => [.busWrite binding.ubuf true]
  | .testQueue _ _ => if busQueueSize ≤ kernel.bus.count then [.enqueue process] else []
  | .moveCount _ _ => [.enqueue process]
  | _ => []

def readerCommit (opened : ℕ → ℕ) (kernel : Kernel) (source : Source) (flag : Bool) :
    List System.Op :=
  match kernel.readers source with
  | .unlockEmpty _ => [readLockOp flag true source]
  | .waitFirst _ => if Available opened kernel source then [readWakeOp false source] else []
  | .check _ signalled _ =>
      if Available opened kernel source then [readWakeOp false source]
      else if signalled then [readWakeOp true source]
      else []
  | .copy count =>
      match replyTo opened kernel count flag source with
      | .error _ => [readLockOp false flag source]
      | .ok _ => []
  | .advance _ _ =>
      match source with
      | .file _ => [readLockOp false true source]
      | .bus _ => []
  | .finish _ _ => [readLockOp false true source]
  | _ => []

/-- The sections that take effect at an access. -/
def commit (opened : ℕ → ℕ) (kernel : Kernel) : Op → List System.Op
  | .chatWrite _ _ _ _ => []
  | .busWrite _ _ _ => []
  | .read source count =>
      match kernel.readers source with
      | .idle => [readCallOp count source]
      | _ => []
  | .writer process => writerCommit kernel process
  | .reader source flag => readerCommit opened kernel source flag

/-- The sections of a schedule, in the order they take effect. -/
def sections (opened : ℕ → ℕ) (ops : List Op) : List System.Op :=
  Schedules.commits (step opened) (commit opened) telegramInit ops

/-! ## What the process in a section knows -/

/-- The bus in the middle of a section that changes it. -/
def Between (kernel : Kernel) : Agent → Prop
  | .writer process =>
      match kernel.writers process with
      | .moveTail _ _ | .moveCount _ _ => True
      | _ => False
  | .reader source =>
      match kernel.readers source with
      | .finish _ _ => True
      | _ => False

/-- `before` is the bus as the last section left it. -/
def WriterFact (kernel : Kernel) (before : TgBusDev) : WriterTask → Prop
  | .count line stored =>
      ∃ old : ChatDev, old.log = (kernel.chats line.chat).log ∧
        (⟨(kernel.chats line.chat).buffer, (kernel.chats line.chat).bufLen + stored,
          (kernel.chats line.chat).chatId⟩ : ChatDev) = old.append line.text
  | .storeFrame _ _ => kernel.bus.count < busQueueSize
  | .moveTail chat tmp =>
      before.count < busQueueSize ∧
        ⟨kernel.bus.queue, kernel.bus.count + 1, kernel.bus.head,
          (kernel.bus.tail + 1) % busQueueSize⟩ = busEnqueueOutgoing before chat tmp
  | .moveCount chat tmp =>
      before.count < busQueueSize ∧
        ⟨kernel.bus.queue, kernel.bus.count + 1, kernel.bus.head, kernel.bus.tail⟩ =
          busEnqueueOutgoing before chat tmp
  | _ => True

def ReaderFact (opened : ℕ → ℕ) (kernel : Kernel) (before : TgBusDev) (source : Source) :
    ReaderTask → Prop
  | .unlockEmpty _ => ¬ Available opened kernel source
  | .copy _ => Available opened kernel source
  | .advance count bytes =>
      Available opened kernel source ∧ replyTo opened kernel count true source = .ok bytes
  | .finish count bytes =>
      lockOf opened source = .bus ∧ before.count ≠ 0 ∧ before.count = kernel.bus.count ∧
        busReadLocked before count true =
          (.ok bytes, ⟨kernel.bus.queue, kernel.bus.count - 1, kernel.bus.head, kernel.bus.tail⟩)
  | _ => True

def Fact (opened : ℕ → ℕ) (kernel : Kernel) (before : TgBusDev) : Agent → Prop
  | .writer process => WriterFact kernel before (kernel.writers process)
  | .reader source => ReaderFact opened kernel before source (kernel.readers source)

structure Invariant (opened : ℕ → ℕ) (kernel : Kernel) (before : TgBusDev) : Prop where
  locked : Locked opened kernel
  fact : ∀ agent, Fact opened kernel before agent
  settled : (∀ agent, ¬ Between kernel agent) → before = kernel.bus

/-! ## Sections of the small and the large steps -/

/-- Where a reader is between its sections. -/
def phaseOf : ReaderTask → System.Phase
  | .idle | .unlock => .idle
  | .lock count | .test count | .unlockEmpty count | .copy count | .advance count _
  | .finish count _ => .entered count
  | .waitFirst count | .prepare count | .check count _ _ | .schedule count _ => .waiting count

/-- The message that a writer has printed and not yet put on the bus. -/
def pendingOf : WriterTask → Option (ℕ × Text)
  | .unlockChat (.user chat tmp _) | .wakeChat (.user chat tmp _) => some (chat, tmp)
  | .lockBus chat tmp | .testQueue chat tmp | .storeFrame chat tmp | .moveTail chat tmp
  | .moveCount chat tmp => some (chat, tmp)
  | _ => none

structure Matches (opened : ℕ → ℕ) (kernel : Kernel) (before : TgBusDev) (state : System.State) :
    Prop where
  logs : ∀ chat, (kernel.chats chat).log = (state.chats chat).log
  ids : ∀ chat, (kernel.chats chat).chatId = (state.chats chat).chatId
  queue : ∃ queued, Holds busQueueSize (ring before) queued ∧
    Holds busQueueSize (ring state.bus) queued
  files : ∀ file, state.files file =
    ⟨opened file, kernel.pos file, phaseOf (kernel.readers (.file file)), kernel.returned file⟩
  busReaders : ∀ process, state.busReaders process = phaseOf (kernel.readers (.bus process))
  writers : ∀ process,
    (state.writers process).map (fun pending => (pending.chat, pending.tmp)) =
      pendingOf (kernel.writers process)
  replies : state.history.busReplies = kernel.busReplies

def Simulated (opened : ℕ → ℕ) (kernel : Kernel) (state : System.State) : Prop :=
  ∃ before, Invariant opened kernel before ∧ Matches opened kernel before state

/-! ## What others do to a process in a section -/

theorem holds_of_between {before : TgBusDev} {agent : Agent} (hfact : Fact opened kernel before agent)
    (hbetween : Between kernel agent) : holds opened kernel agent = some .bus := by
  cases agent with
  | writer process =>
      simp only [Between, holds] at hbetween ⊢
      cases htask : kernel.writers process <;> simp [htask, writerHolds] at hbetween ⊢
  | reader source =>
      simp only [Between, holds, Fact] at hbetween hfact ⊢
      cases htask : kernel.readers source <;>
        simp [htask, readerInside, ReaderFact] at hbetween hfact ⊢
      exact hfact.1

theorem chats_step_other {op : Op} {agent : Agent} {chat : ℕ} (hlocked : Locked opened kernel)
    (haccess : access op ≠ some agent) (hholds : holds opened kernel agent = some (.chat chat)) :
    (step opened kernel op).chats chat = kernel.chats chat := by
  by_contra hchanged
  obtain ⟨other, hother, hinside⟩ := chats_step hchanged
  exact haccess (hlocked.unique hinside hholds ▸ hother)

theorem bus_step_other {op : Op} {agent : Agent} (hlocked : Locked opened kernel)
    (haccess : access op ≠ some agent) (hholds : holds opened kernel agent = some .bus) :
    (step opened kernel op).bus = kernel.bus := by
  by_contra hchanged
  obtain ⟨other, hother, hinside⟩ := bus_step hchanged
  exact haccess (hlocked.unique hinside hholds ▸ hother)

/-- The position of a file is moved by its reader. -/
theorem pos_step_other {op : Op} {file : ℕ} (haccess : access op ≠ some (.reader (.file file))) :
    (step opened kernel op).pos file = kernel.pos file ∧
      (step opened kernel op).returned file = kernel.returned file := by
  cases op with
  | chatWrite | busWrite | read =>
      simp only [step]
      split <;> exact ⟨rfl, rfl⟩
  | writer process =>
      simp only [step, writerStep]
      cases kernel.writers process with
      | lockChat | lockBus | lockSet =>
          dsimp only
          split <;> exact ⟨rfl, rfl⟩
      | _ => exact ⟨rfl, rfl⟩
  | reader source flag =>
      simp only [step, readerStep]
      cases kernel.readers source with
      | advance count bytes =>
          cases source with
          | bus process => exact ⟨rfl, rfl⟩
          | file other =>
              have hother : file ≠ other := fun hfile => haccess (by rw [hfile]; rfl)
              simp [readerAdvance, hother]
      | finish count bytes => cases source <;> exact ⟨rfl, rfl⟩
      | copy count =>
          dsimp only [readerCopy]
          split <;> exact ⟨rfl, rfl⟩
      | unlockEmpty count => cases flag <;> exact ⟨rfl, rfl⟩
      | lock | schedule =>
          dsimp only
          split <;> exact ⟨rfl, rfl⟩
      | check count signalled woken =>
          dsimp only
          split
          · exact ⟨rfl, rfl⟩
          · split <;> exact ⟨rfl, rfl⟩
      | _ => exact ⟨rfl, rfl⟩

variable (opened) in
/-- A process that is in no call is in none or in front of its first lock after
the step of another. -/
theorem writers_step_idle {op : Op} {process : ℕ} (haccess : access op ≠ some (.writer process))
    (hidle : kernel.writers process = .idle) :
    (step opened kernel op).writers process = .idle ∨
      (∃ line, (step opened kernel op).writers process = .lockChat line) ∨
      ∃ binding, (step opened kernel op).writers process = .lockSet binding := by
  cases op with
  | chatWrite other chat ubuf readable =>
      by_cases hother : process = other
      · subst hother
        simp only [step, hidle, Kernel.setWriter_writers, update_self]
        unfold chatWriteEntry
        split <;> simp
      · simp only [step]
        split <;> exact .inl (by simp [hother, hidle])
  | busWrite other ubuf readable =>
      by_cases hother : process = other
      · subst hother
        simp only [step, hidle, Kernel.setWriter_writers, update_self]
        unfold busWriteEntry
        split <;> simp
      · simp only [step]
        split <;> exact .inl (by simp [hother, hidle])
  | read source count =>
      simp only [step]
      split <;> exact .inl hidle
  | writer other =>
      refine .inl ?_
      rw [step, writers_writerStep_of_ne fun hother => haccess (by rw [hother]; rfl)]
      exact hidle
  | reader source flag =>
      refine .inl ?_
      rw [step, (readerStep_keeps opened kernel source flag).1]
      exact hidle

variable (opened) in
theorem readers_step_idle {op : Op} {source : Source} (haccess : access op ≠ some (.reader source))
    (hidle : kernel.readers source = .idle) :
    (step opened kernel op).readers source = .idle ∨
      ∃ count, op = .read source count ∧ (step opened kernel op).readers source = .lock count := by
  cases op with
  | chatWrite | busWrite =>
      simp only [step]
      split <;> exact .inl hidle
  | read other count =>
      by_cases hother : source = other
      · subst hother
        simp [step, hidle]
      · simp only [step]
        split <;> exact .inl (by simp [hother, hidle])
  | writer process =>
      refine .inl ?_
      rcases readers_writerStep opened kernel process source with h | h <;>
        rw [step, h, hidle]
      rfl
  | reader other flag =>
      refine .inl ?_
      rw [step, readers_readerStep_of_ne flag fun hother => haccess (by rw [hother]; rfl)]
      exact hidle

theorem writerFact_step_other {op : Op} {process : ℕ} {before : TgBusDev}
    (hlocked : Locked opened kernel) (haccess : access op ≠ some (.writer process))
    (hfact : Fact opened kernel before (.writer process)) :
    Fact opened (step opened kernel op) before (.writer process) := by
  by_cases hidle : kernel.writers process = .idle
  · rcases writers_step_idle opened haccess hidle with h | ⟨_, h⟩ | ⟨_, h⟩ <;>
      simp only [Fact, h, WriterFact]
  · simp only [Fact, writers_step_other opened haccess hidle] at hfact ⊢
    cases htask : kernel.writers process with
    | count line stored =>
        have hchat := chats_step_other hlocked haccess
          (show holds opened kernel (.writer process) = some (.chat line.chat) by
            rw [holds, htask]; rfl)
        simpa only [htask, WriterFact, hchat] using hfact
    | storeFrame | moveTail | moveCount =>
        have hbus := bus_step_other hlocked haccess (by rw [holds, htask]; rfl)
        simpa only [htask, WriterFact, hbus] using hfact
    | _ => trivial

theorem available_congr {next : Kernel} {source : Source}
    (hchats : ∀ chat, lockOf opened source = .chat chat → next.chats chat = kernel.chats chat)
    (hbus : lockOf opened source = .bus → next.bus = kernel.bus)
    (hpos : ∀ file, source = .file file → next.pos file = kernel.pos file) :
    (Available opened next source ↔ Available opened kernel source) ∧
      ∀ count writable, replyTo opened next count writable source =
        replyTo opened kernel count writable source := by
  cases source with
  | file file => simp only [Available, replyTo, hchats _ rfl, hpos _ rfl, implies_true, and_self]
  | bus process => simp only [Available, replyTo, hbus rfl, implies_true, and_self]

@[simp]
theorem available_setReader {source other : Source} {task : ReaderTask} :
    Available opened (kernel.setReader other task) source ↔ Available opened kernel source := by
  cases source <;> rfl

@[simp]
theorem replyTo_setReader {source other : Source} {task : ReaderTask} {count : ℕ} {writable : Bool} :
    replyTo opened (kernel.setReader other task) count writable source =
      replyTo opened kernel count writable source := by
  cases source <;> rfl

theorem readerFact_of_outside {before : TgBusDev} {source : Source} {task : ReaderTask}
    (houtside : readerInside task = false) : ReaderFact opened kernel before source task := by
  cases task <;> trivial

theorem wake_of_inside {task : ReaderTask} (hinside : readerInside task = true) :
    task.wake = task := by
  cases task <;> first | rfl | cases hinside

theorem readers_step_inside {op : Op} {source : Source}
    (haccess : access op ≠ some (.reader source))
    (hinside : readerInside (kernel.readers source) = true) :
    (step opened kernel op).readers source = kernel.readers source := by
  have hidle : kernel.readers source ≠ .idle := by
    intro hidle
    rw [hidle] at hinside
    cases hinside
  rcases readers_step_other opened haccess hidle with h | h
  · exact h
  · rw [h, wake_of_inside hinside]

theorem readers_step_outside {op : Op} {source : Source}
    (haccess : access op ≠ some (.reader source))
    (houtside : readerInside (kernel.readers source) = false) :
    readerInside ((step opened kernel op).readers source) = false := by
  by_cases hidle : kernel.readers source = .idle
  · rcases readers_step_idle opened haccess hidle with h | ⟨count, -, h⟩ <;> rw [h] <;> rfl
  · rcases readers_step_other opened haccess hidle with h | h
    · rw [h, houtside]
    · rw [h, readerInside_wake, houtside]

theorem readerFact_step_other {op : Op} {source : Source} {before : TgBusDev}
    (hlocked : Locked opened kernel) (haccess : access op ≠ some (.reader source))
    (hfact : Fact opened kernel before (.reader source)) :
    Fact opened (step opened kernel op) before (.reader source) := by
  cases hinside : readerInside (kernel.readers source) with
  | false => exact readerFact_of_outside (readers_step_outside haccess hinside)
  | true =>
      have hholds : holds opened kernel (.reader source) = some (lockOf opened source) :=
        if_pos hinside
      have hsame := @available_congr opened kernel (step opened kernel op) source
        (fun chat hchat => chats_step_other hlocked haccess (hchat ▸ hholds))
        (fun hbus => bus_step_other hlocked haccess (hbus ▸ hholds))
        (fun file hfile => (pos_step_other (hfile ▸ haccess)).1)
      rw [Fact, readers_step_inside haccess hinside]
      rw [Fact] at hfact
      cases htask : kernel.readers source with
      | unlockEmpty | copy | advance =>
          simpa only [htask, ReaderFact, hsame.1, hsame.2] using hfact
      | finish count bytes =>
          rw [htask] at hfact
          have hbus := bus_step_other hlocked haccess (hfact.1 ▸ hholds)
          simpa only [ReaderFact, hbus] using hfact
      | _ => trivial

theorem fact_step_other {op : Op} {agent : Agent} {before : TgBusDev}
    (hlocked : Locked opened kernel) (haccess : access op ≠ some agent)
    (hfact : Fact opened kernel before agent) : Fact opened (step opened kernel op) before agent := by
  cases agent with
  | writer process => exact writerFact_step_other hlocked haccess hfact
  | reader source => exact readerFact_step_other hlocked haccess hfact

/-- Only a process in the middle of its section speaks of the last one. -/
theorem fact_before {before after : TgBusDev} {agent : Agent} (houtside : ¬ Between kernel agent)
    (hfact : Fact opened kernel before agent) : Fact opened kernel after agent := by
  cases agent with
  | writer process =>
      simp only [Fact, Between] at hfact houtside ⊢
      cases htask : kernel.writers process with
      | moveTail | moveCount => simp [htask] at houtside
      | count | storeFrame => simpa only [htask, WriterFact] using hfact
      | _ => trivial
  | reader source =>
      simp only [Fact, Between] at hfact houtside ⊢
      cases htask : kernel.readers source with
      | finish => simp [htask] at houtside
      | unlockEmpty | copy | advance => simpa only [htask, ReaderFact] using hfact
      | _ => trivial

theorem between_step_other {op : Op} {agent : Agent} (haccess : access op ≠ some agent) :
    Between (step opened kernel op) agent ↔ Between kernel agent := by
  cases agent with
  | writer process =>
      simp only [Between]
      by_cases hidle : kernel.writers process = .idle
      · rcases writers_step_idle opened haccess hidle with h | ⟨_, h⟩ | ⟨_, h⟩ <;>
          simp [h, hidle]
      · rw [writers_step_other opened haccess hidle]
  | reader source =>
      simp only [Between]
      by_cases hidle : kernel.readers source = .idle
      · rcases readers_step_idle opened haccess hidle with h | ⟨count, -, h⟩ <;>
          simp [h, hidle]
      · rcases readers_step_other opened haccess hidle with h | h
        · rw [h]
        · rw [h]
          cases kernel.readers source with
          | check count signalled woken => cases signalled <;> rfl
          | _ => rfl

namespace Invariant

variable {before : TgBusDev} {op : Op} {agent : Agent}

/-- Two processes are not both in the middle of their sections of the bus. -/
theorem not_between (hinv : Invariant opened kernel before) {other : Agent}
    (hbetween : Between kernel agent) (hother : other ≠ agent) : ¬ Between kernel other :=
  fun hboth => hother (hinv.locked.unique (holds_of_between (hinv.fact other) hboth)
    (holds_of_between (hinv.fact agent) hbetween))

theorem call (hinv : Invariant opened kernel before) (haccess : access op = none) :
    Invariant opened (step opened kernel op) before := by
  have hother : ∀ agent, access op ≠ some agent := fun agent => by simp [haccess]
  refine ⟨locked_step kernel op hinv.locked,
    fun agent => fact_step_other hinv.locked (hother agent) (hinv.fact agent), fun hnone => ?_⟩
  have hbus : (step opened kernel op).bus = kernel.bus := by
    by_contra hchanged
    obtain ⟨agent, hagent, -⟩ := bus_step hchanged
    exact hother agent hagent
  rw [hbus]
  exact hinv.settled fun agent => (between_step_other (hother agent)).not.mp (hnone agent)

/-- A step in a section that is not its last write to the bus. -/
theorem keep (hinv : Invariant opened kernel before) (haccess : access op = some agent)
    (hown : Fact opened (step opened kernel op) before agent)
    (hbetween : Between kernel agent → Between (step opened kernel op) agent)
    (hbus : ¬ Between (step opened kernel op) agent →
      (step opened kernel op).bus = kernel.bus) :
    Invariant opened (step opened kernel op) before := by
  have hother : ∀ other, other ≠ agent → access op ≠ some other := fun other hne h => by
    rw [haccess, Option.some.injEq] at h
    exact hne h.symm
  refine ⟨locked_step kernel op hinv.locked, fun other => ?_, fun hnone => ?_⟩
  · by_cases hne : other = agent
    · exact hne ▸ hown
    · exact fact_step_other hinv.locked (hother other hne) (hinv.fact other)
  · rw [hbus (hnone agent)]
    refine hinv.settled fun other => ?_
    by_cases hne : other = agent
    · exact fun h => hnone agent (hbetween (hne ▸ h))
    · exact (between_step_other (hother other hne)).not.mp (hnone other)

/-- The last write to the bus of a section. -/
theorem last (hinv : Invariant opened kernel before) (haccess : access op = some agent)
    (hbetween : Between kernel agent)
    (hown : Fact opened (step opened kernel op) (step opened kernel op).bus agent) :
    Invariant opened (step opened kernel op) (step opened kernel op).bus := by
  refine ⟨locked_step kernel op hinv.locked, fun other => ?_, fun _ => rfl⟩
  by_cases hne : other = agent
  · exact hne ▸ hown
  · have hother : access op ≠ some other := fun h => by
      rw [haccess, Option.some.injEq] at h
      exact hne h.symm
    refine fact_before ?_ (fact_step_other hinv.locked hother (hinv.fact other))
    rw [between_step_other hother]
    exact hinv.not_between hbetween hne

end Invariant
end DoomsdayModules.Telegram.Sections
