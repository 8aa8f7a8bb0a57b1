import DoomsdayModules.Telegram.Exclusion

/-!
# Wake-ups

A writer gives the lock of a chat back before it wakes the readers, and readers
look at what they wait for without the lock.  No reader misses its wake-up: one
that sleeps in front of something to read has a writer that is about to wake it.
-/

namespace DoomsdayModules.Telegram.WakeUps

open Function
open DoomsdayModules.Telegram.Devices DoomsdayModules.Telegram.Threads
open DoomsdayModules.Telegram.Exclusion

variable {opened : ℕ → ℕ} {kernel : Kernel}

/-- A writer that has changed what the readers of a lock wait for, and is on its
way to wake them. -/
def wakeRank (lock : Lock) : WriterTask → ℕ
  | .unlockChat line => if lock = .chat line.chat then 2 else 0
  | .wakeChat line => if lock = .chat line.chat then 1 else 0
  | .wakeBus => if lock = .bus then 1 else 0
  | _ => 0

/-- A reader asleep in front of something to read is about to be woken. -/
def Attended (opened : ℕ → ℕ) (kernel : Kernel) : Prop :=
  ∀ source, Asleep kernel (.reader source) → Available opened kernel source →
    ∃ process, 0 < wakeRank (lockOf opened source) (kernel.writers process)

theorem attended_init (opened : ℕ → ℕ) : Attended opened telegramInit := by
  rintro source ⟨count, hasleep⟩
  cases hasleep

theorem not_asleep_wake {source : Source} (task : ReaderTask)
    (hwoken : kernel.readers source = task.wake) : ¬ Asleep kernel (.reader source) := by
  rintro ⟨count, hasleep⟩
  rw [hwoken] at hasleep
  cases task with
  | check count signalled woken => cases signalled <;> cases hasleep
  | _ => cases hasleep

/-- Who sleeps after a writer's access has slept before, and was not woken. -/
theorem asleep_writerStep {process : ℕ} {source : Source}
    (hasleep : Asleep (writerStep opened kernel process) (.reader source)) :
    Asleep kernel (.reader source) := by
  rcases readers_writerStep opened kernel process source with h | h
  · obtain ⟨count, hcount⟩ := hasleep
    exact ⟨count, h ▸ hcount⟩
  · exact absurd hasleep (not_asleep_wake _ h)

/-- A writer on its way to wake a sleeper comes closer or wakes it. -/
theorem wakeRank_writerStep {process : ℕ} {source : Source}
    (hrank : 0 < wakeRank (lockOf opened source) (kernel.writers process)) :
    ¬ Asleep (writerStep opened kernel process) (.reader source) ∨
      0 < wakeRank (lockOf opened source) ((writerStep opened kernel process).writers process) ∧
        wakeRank (lockOf opened source) ((writerStep opened kernel process).writers process) <
          wakeRank (lockOf opened source) (kernel.writers process) := by
  cases htask : kernel.writers process with
  | unlockChat line =>
      rw [htask] at hrank
      refine .inr ?_
      simp only [wakeRank] at hrank
      split at hrank
      · simp [writerStep, htask, wakeRank, ‹lockOf opened source = _›]
      · cases hrank
  | wakeChat line =>
      rw [htask] at hrank
      refine .inl (not_asleep_wake (kernel.readers source) ?_)
      simp only [wakeRank] at hrank
      split at hrank
      · simp [writerStep, htask, ‹lockOf opened source = _›]
      · cases hrank
  | wakeBus =>
      rw [htask] at hrank
      refine .inl (not_asleep_wake (kernel.readers source) ?_)
      simp only [wakeRank] at hrank
      split at hrank
      · simp [writerStep, htask, ‹lockOf opened source = _›]
      · cases hrank
  | _ =>
      rw [htask] at hrank
      cases hrank

/-- Only a writer that goes on to wake the readers makes something available. -/
theorem available_writerStep {process : ℕ} {source : Source}
    (havailable : Available opened (writerStep opened kernel process) source) :
    Available opened kernel source ∨
      0 < wakeRank (lockOf opened source) ((writerStep opened kernel process).writers process) := by
  cases htask : kernel.writers process with
  | count line stored =>
      cases source with
      | bus reader =>
          rw [writerStep, htask] at havailable
          exact .inl havailable
      | file file =>
          by_cases hchat : opened file = line.chat
          · refine .inr ?_
            simp [writerStep, htask, wakeRank, lockOf, hchat]
          · refine .inl ?_
            simpa [writerStep, htask, Available, hchat] using havailable
  | moveCount chat tmp =>
      cases source with
      | bus reader =>
          refine .inr ?_
          simp [writerStep, htask, wakeRank, lockOf]
      | file file =>
          rw [writerStep, htask] at havailable
          exact .inl havailable
  | print line | storeId line =>
      refine .inl ?_
      cases source with
      | bus reader =>
          rw [writerStep, htask] at havailable
          exact havailable
      | file file =>
          by_cases hchat : opened file = line.chat <;>
            simpa [writerStep, htask, Available, hchat] using havailable
  | lockChat line | lockBus chat tmp | lockSet binding =>
      refine .inl ?_
      rw [writerStep, htask] at havailable
      dsimp only at havailable
      split at havailable <;> cases source <;> exact havailable
  | _ =>
      refine .inl ?_
      rw [writerStep, htask] at havailable
      cases source <;> exact havailable

theorem attended_writerStep (hattended : Attended opened kernel) (process : ℕ) :
    Attended opened (writerStep opened kernel process) := by
  intro source hasleep havailable
  rcases available_writerStep havailable with hbefore | hrank
  · obtain ⟨waker, hwaker⟩ := hattended source (asleep_writerStep hasleep) hbefore
    by_cases hsame : waker = process
    · subst hsame
      rcases wakeRank_writerStep hwaker with hwoken | hcloser
      · exact absurd hasleep hwoken
      · exact ⟨waker, hcloser.1⟩
    · refine ⟨waker, ?_⟩
      rw [writers_writerStep_of_ne hsame]
      exact hwaker
  · exact ⟨process, hrank⟩

/-- A reader's access makes nothing available to another. -/
theorem available_readerStep_of_ne {source other : Source} {flag : Bool} (hother : other ≠ source)
    (havailable : Available opened (readerStep opened kernel source flag) other) :
    Available opened kernel other := by
  unfold readerStep at havailable
  cases htask : kernel.readers source with
  | copy count =>
      rw [htask] at havailable
      dsimp only [readerCopy] at havailable
      split at havailable <;> cases other <;> exact havailable
  | advance count bytes =>
      rw [htask] at havailable
      cases source with
      | bus process => cases other <;> exact havailable
      | file file =>
          cases other with
          | bus process => exact havailable
          | file file' =>
              have hfile : file' ≠ file := fun hfile => hother (by rw [hfile])
              simpa [readerAdvance, Available, hfile] using havailable
  | finish count bytes =>
      rw [htask] at havailable
      cases source with
      | file file => cases other <;> exact havailable
      | bus process =>
          cases other with
          | file file => exact havailable
          | bus other => exact Nat.lt_of_lt_of_le havailable (Nat.sub_le _ _)
  | unlockEmpty count =>
      rw [htask] at havailable
      cases flag <;> cases other <;> exact havailable
  | lock count | schedule count woken =>
      rw [htask] at havailable
      dsimp only at havailable
      split at havailable <;> cases other <;> exact havailable
  | check count signalled woken =>
      rw [htask] at havailable
      dsimp only at havailable
      split at havailable
      · cases other <;> exact havailable
      · split at havailable <;> cases other <;> exact havailable
  | _ =>
      rw [htask] at havailable
      cases other <;> exact havailable

/-- A reader falls asleep in front of nothing. -/
theorem asleep_readerStep {source : Source} {flag : Bool}
    (hasleep : Asleep (readerStep opened kernel source flag) (.reader source))
    (havailable : Available opened (readerStep opened kernel source flag) source) :
    readerStep opened kernel source flag = kernel := by
  obtain ⟨wanted, hwanted⟩ := hasleep
  unfold readerStep at hwanted havailable ⊢
  cases htask : kernel.readers source with
  | idle => rfl
  | schedule count woken =>
      rw [htask] at hwanted
      dsimp only at hwanted ⊢
      split at hwanted
      · simp at hwanted
      · rw [if_neg ‹_›]
  | lock count =>
      rw [htask] at hwanted
      dsimp only at hwanted ⊢
      split at hwanted
      · simp at hwanted
      · rw [if_neg ‹_›]
  | check count signalled woken =>
      rw [htask] at hwanted havailable
      dsimp only at hwanted havailable
      split at hwanted
      · simp at hwanted
      · rename_i hnothing
        rw [if_neg hnothing] at havailable
        split at hwanted
        · simp at hwanted
        · rw [if_neg ‹_›] at havailable
          refine absurd ?_ hnothing
          cases source <;> exact havailable
  | copy count =>
      rw [htask] at hwanted
      dsimp only [readerCopy] at hwanted
      split at hwanted <;> simp at hwanted
  | advance count bytes =>
      rw [htask] at hwanted
      cases source <;> simp [readerAdvance] at hwanted
  | finish count bytes =>
      rw [htask] at hwanted
      cases source <;> simp [readerFinish] at hwanted
  | unlockEmpty count =>
      rw [htask] at hwanted
      cases flag <;> simp at hwanted
  | test count | waitFirst count =>
      rw [htask] at hwanted
      simp only [Kernel.setReader_readers, update_self] at hwanted
      split at hwanted <;> cases hwanted
  | _ =>
      rw [htask] at hwanted
      simp at hwanted

theorem attended_readerStep (hattended : Attended opened kernel) (source : Source) (flag : Bool) :
    Attended opened (readerStep opened kernel source flag) := by
  intro other hasleep havailable
  rw [(readerStep_keeps opened kernel source flag).1]
  by_cases hother : other = source
  · subst hother
    have hsame := asleep_readerStep hasleep havailable
    rw [hsame] at hasleep havailable
    exact hattended other hasleep havailable
  · refine hattended other ?_ (available_readerStep_of_ne hother havailable)
    obtain ⟨count, hcount⟩ := hasleep
    exact ⟨count, readers_readerStep_of_ne flag hother ▸ hcount⟩

/-- A call that a process enters makes nothing available and wakes nobody. -/
theorem Attended.enter (hattended : Attended opened kernel) {process : ℕ}
    (hidle : kernel.writers process = .idle) (task : WriterTask) :
    Attended opened (kernel.setWriter process task) := by
  intro source hasleep havailable
  obtain ⟨waker, hwaker⟩ := hattended source hasleep (by cases source <;> exact havailable)
  have hother : waker ≠ process := by
    rintro rfl
    rw [hidle] at hwaker
    cases hwaker
  exact ⟨waker, by rwa [Kernel.setWriter_writers, update_of_ne hother]⟩

theorem attended_step (kernel : Kernel) (op : Op) (hattended : Attended opened kernel) :
    Attended opened (step opened kernel op) := by
  cases op with
  | chatWrite process chat ubuf readable =>
      simp only [step]
      split
      · exact hattended.enter ‹_› _
      · exact hattended
  | busWrite process ubuf readable =>
      simp only [step]
      split
      · exact hattended.enter ‹_› _
      · exact hattended
  | read source count =>
      simp only [step]
      split
      · rintro other ⟨wanted, hwanted⟩ havailable
        by_cases hother : other = source
        · subst hother
          simp at hwanted
        · simp only [Kernel.setReader_readers, update_of_ne hother] at hwanted
          exact hattended other ⟨wanted, hwanted⟩ (by cases other <;> exact havailable)
      · exact hattended
  | writer process => exact attended_writerStep hattended process
  | reader source flag => exact attended_readerStep hattended source flag

theorem attended_execute (opened : ℕ → ℕ) (ops : List Op) :
    Attended opened (execute opened telegramInit ops) :=
  Schedules.foldl_invariant (step opened) attended_step (attended_init opened) ops

theorem wakeRank_le (lock : Lock) (task : WriterTask) : wakeRank lock task ≤ 2 := by
  cases task <;> simp only [wakeRank] <;> (try split) <;> omega

/-- A writer on its way to wake the readers is in front of no lock. -/
theorem canMove_of_wakeRank {lock : Lock} {process : ℕ}
    (hrank : 0 < wakeRank lock (kernel.writers process)) :
    CanMove opened kernel (.writer process) := by
  refine canMove_writer ?_ ?_
  · intro hidle
    rw [hidle] at hrank
    cases hrank
  · intro other hwaits
    simp only [waitsFor] at hwaits
    cases htask : kernel.writers process <;> simp [htask, wakeRank] at hrank hwaits

/-- A writer on its way to wake a sleeper wakes it in every schedule that gives
it two accesses. -/
theorem exists_woken {source : Source} {process : ℕ} {ops : List Op}
    (hasleep : Asleep kernel (.reader source))
    (hrank : 0 < wakeRank (lockOf opened source) (kernel.writers process))
    (hturns : 2 ≤ ops.countP fun op => access op = some (.writer process)) :
    ∃ done, done <+: ops ∧ ¬ Asleep (execute opened kernel done) (.reader source) := by
  refine Schedules.exists_reached (step opened) _
    (fun kernel => Asleep kernel (.reader source) ∧
      0 < wakeRank (lockOf opened source) (kernel.writers process))
    (fun kernel => ¬ Asleep kernel (.reader source))
    (fun kernel => wakeRank (lockOf opened source) (kernel.writers process))
    (fun kernel hinside => hinside.2) (fun kernel op hop hinside => ?_)
    (fun kernel op hop hinside => ?_) ⟨hasleep, hrank⟩ ((wakeRank_le _ _).trans hturns)
  · by_cases hstill : Asleep (step opened kernel op) (.reader source)
    · cases op with
      | chatWrite | busWrite | read | reader => simp [access] at hop
      | writer other =>
          obtain rfl : other = process := by simpa [access] using hop
          rcases wakeRank_writerStep hinside.2 with hwoken | hcloser
          · exact absurd hstill hwoken
          · exact .inr ⟨⟨hstill, hcloser.1⟩, hcloser.2⟩
    · exact .inl hstill
  · by_cases hstill : Asleep (step opened kernel op) (.reader source)
    · have hidle : kernel.writers process ≠ .idle := by
        intro hidle
        have hpos := hinside.2
        rw [hidle] at hpos
        cases hpos
      have hsame := writers_step_other opened (fun h => hop (decide_eq_true h)) hidle
      exact .inr ⟨⟨hstill, hsame ▸ hinside.2⟩, (congrArg _ hsame).le⟩
    · exact .inl hstill

/-- In every schedule a reader that sleeps in front of something to read has a
writer that can move and that wakes it within two accesses of its own. -/
theorem sleeper_woken (opened : ℕ → ℕ) (ops : List Op) (source : Source)
    (hasleep : Asleep (execute opened telegramInit ops) (.reader source))
    (havailable : Available opened (execute opened telegramInit ops) source) :
    ∃ process, CanMove opened (execute opened telegramInit ops) (.writer process) ∧
      ∀ rest : List Op, 2 ≤ (rest.countP fun op => access op = some (.writer process)) →
        ∃ done, done <+: rest ∧
          ¬ Asleep (execute opened (execute opened telegramInit ops) done) (.reader source) := by
  obtain ⟨process, hrank⟩ := attended_execute opened ops source hasleep havailable
  exact ⟨process, canMove_of_wakeRank hrank, fun rest hturns => exists_woken hasleep hrank hturns⟩

/-- A reader asleep at an empty log, and a message up to the end of its print. -/
def printedForSleeper : List Op :=
  [.read (.file 0) 16] ++ List.replicate 7 (.reader (.file 0) false) ++
    [.chatWrite 0 0 [0x68, 0x69] true] ++ List.replicate 3 (.writer 0)

theorem sleeper_woken_printed :
    Asleep (execute (fun _ => 0) telegramInit printedForSleeper) (.reader (.file 0)) ∧
      ∃ process, CanMove (fun _ => 0) (execute (fun _ => 0) telegramInit printedForSleeper)
          (.writer process) ∧
        ∀ rest : List Op, 2 ≤ (rest.countP fun op => access op = some (.writer process)) →
          ∃ done, done <+: rest ∧ ¬ Asleep (execute (fun _ => 0)
            (execute (fun _ => 0) telegramInit printedForSleeper) done) (.reader (.file 0)) :=
  have hasleep : Asleep (execute (fun _ => 0) telegramInit printedForSleeper) (.reader (.file 0)) :=
    ⟨16, rfl⟩
  ⟨hasleep, sleeper_woken (fun _ => 0) printedForSleeper (.file 0) hasleep (by decide)⟩

end DoomsdayModules.Telegram.WakeUps
