import DoomsdayModules.Core.Runs
import DoomsdayModules.Telegram.System

/-!
# The log of a chat

Writers append behind the log and count what was stored, so the length never
reaches the size of the buffer and no stored byte changes.  What the reads of an
open file returned is the log up to the position of the file.  A line that does
not fit is cut without an error: the writers do not compare what was stored with
what they printed.
-/

namespace DoomsdayModules.Telegram.ChatLog

open DoomsdayModules.KernelText DoomsdayModules.Runs
open DoomsdayModules.Telegram.Devices DoomsdayModules.Telegram.System

/-! ## Coherence -/

/-- The reads of every open file returned the log up to its position. -/
structure LogInvariant (state : State) : Prop where
  bufLen_lt : ∀ chat, (state.chats chat).bufLen < msgBuffSize
  pos_le : ∀ file, (state.files file).pos ≤ (state.chats (state.files file).chat).bufLen
  returned_eq : ∀ file, (state.files file).returned =
    (state.chats (state.files file).chat).log.take (state.files file).pos

/-- Each log extends what it was. -/
def Extends (before after : State) : Prop :=
  ∀ chat, (before.chats chat).log <+: (after.chats chat).log

theorem logInvariant_init (opened : ℕ → ℕ) : LogInvariant (telegramInit opened) :=
  ⟨fun _ => show 0 < msgBuffSize by decide, fun _ => le_rfl, fun _ => rfl⟩

theorem Extends.refl (state : State) : Extends state state := fun _ => List.prefix_refl _

theorem Extends.trans {first second third : State} (hfirst : Extends first second)
    (hsecond : Extends second third) : Extends first third := fun chat =>
  (hfirst chat).trans (hsecond chat)

/-- An append to one chat extends its log and leaves the others. -/
theorem extends_append (chats : ℕ → ChatDev) (chat : ℕ) (line : Text) (other : ℕ) :
    (chats other).log <+: (assign chats chat ((chats chat).append line) other).log := by
  by_cases hsame : other = chat
  · subst hsame
    rw [assign_self, ChatDev.log_append]
    exact List.prefix_append _ _
  · rw [assign_of_ne _ hsame]

theorem bufLen_append_lt {chats : ℕ → ChatDev} (hlen : ∀ chat, (chats chat).bufLen < msgBuffSize)
    (chat : ℕ) (line : Text) (other : ℕ) :
    (assign chats chat ((chats chat).append line) other).bufLen < msgBuffSize := by
  by_cases hsame : other = chat
  · subst hsame
    rw [assign_self]
    exact ChatDev.bufLen_append_lt line (hlen other)
  · rw [assign_of_ne _ hsame]
    exact hlen other

/-- The step of a writer: the logs grow, and the files stay as they are. -/
theorem LogInvariant.of_extends {state : State} (hinv : LogInvariant state) {next : State}
    (hfiles : next.files = state.files) (hgrow : Extends state next)
    (hlen : ∀ chat, (next.chats chat).bufLen < msgBuffSize) : LogInvariant next := by
  refine ⟨hlen, fun file => ?_, fun file => ?_⟩
  · rw [hfiles]
    have hlonger := (hgrow (state.files file).chat).length_le
    rw [ChatDev.length_log, ChatDev.length_log] at hlonger
    exact (hinv.pos_le file).trans hlonger
  · rw [hfiles, hinv.returned_eq file]
    obtain ⟨tail, htail⟩ := hgrow (state.files file).chat
    have hinside := hinv.pos_le file
    rw [← htail, List.take_append_of_le_length (by rw [ChatDev.length_log]; exact hinside)]

/-- The step of a reader: its file stays on the same chat, and the logs stay. -/
theorem LogInvariant.of_file {state : State} (hinv : LogInvariant state) (file : ℕ)
    {next : OpenFile} (hchat : next.chat = (state.files file).chat)
    (hpos : next.pos ≤ (state.chats (state.files file).chat).bufLen)
    (hreturned : next.returned =
      (state.chats (state.files file).chat).log.take next.pos) :
    LogInvariant (stepFile state file next) := by
  refine ⟨hinv.bufLen_lt, fun other => ?_, fun other => ?_⟩
  · by_cases hsame : other = file
    · subst hsame
      simpa only [stepFile, assign_self, hchat] using hpos
    · simpa only [stepFile, assign_of_ne next hsame] using hinv.pos_le other
  · by_cases hsame : other = file
    · subst hsame
      simpa only [stepFile, assign_self, hchat] using hreturned
    · simpa only [stepFile, assign_of_ne next hsame] using hinv.returned_eq other

theorem Extends.byte {before after : State} (hgrow : Extends before after) (chat : ℕ) {i : ℕ}
    (hi : i < (before.chats chat).bufLen) :
    i < (after.chats chat).bufLen ∧
      (after.chats chat).buffer i = (before.chats chat).buffer i := by
  have hlonger := (hgrow chat).length_le
  rw [ChatDev.length_log, ChatDev.length_log] at hlonger
  have hbyte := (hgrow chat).getElem (i := i) (by simpa using hi)
  simp only [ChatDev.log, List.getElem_map, List.getElem_range] at hbyte
  exact ⟨hi.trans_le hlonger, hbyte.symm⟩

/-- A piece read behind a prefix continues it. -/
theorem take_append_take_drop (log : Text) (pos count : ℕ) :
    log.take pos ++ (log.drop pos).take count =
      log.take (pos + ((log.drop pos).take count).length) := by
  have hpiece : (log.drop pos).take ((log.drop pos).take count).length =
      (log.drop pos).take count := by
    rw [List.length_take, ← List.take_eq_take_min]
  rw [List.take_add, hpiece]

/-- A step keeps the invariant and extends the logs. -/
theorem logInvariant_step (state : State) (op : Op) (hinv : LogInvariant state) :
    LogInvariant (step state op) ∧ Extends state (step state op) := by
  have hchange := change_step state op
  generalize step state op = next at hchange
  cases hchange with
  | nothing => exact ⟨hinv, Extends.refl state⟩
  | chatWrite process chat tmp _ =>
      have hgrow : Extends state (stepChatWrite state process chat tmp) :=
        extends_append state.chats chat (userLine tmp)
      exact ⟨hinv.of_extends rfl hgrow (bufLen_append_lt hinv.bufLen_lt chat _), hgrow⟩
  | enqueue process pending _ => exact ⟨⟨hinv.1, hinv.2, hinv.3⟩, Extends.refl state⟩
  | busWrite command =>
      cases command with
      | incoming chat sender message =>
          have hgrow : Extends state (stepBusWrite state (.incoming chat sender message)) :=
            extends_append state.chats chat (senderLine sender message)
          exact ⟨hinv.of_extends rfl hgrow (bufLen_append_lt hinv.bufLen_lt chat _), hgrow⟩
      | set chat id =>
          have hsame := log_apply_set state.chats chat id
          have hgrow : Extends state (stepBusWrite state (.set chat id)) := fun other =>
            (hsame other).1 ▸ List.prefix_refl _
          have hlen : ∀ other, ((stepBusWrite state (.set chat id)).chats other).bufLen <
              msgBuffSize := fun other => (hsame other).2 ▸ hinv.bufLen_lt other
          exact ⟨hinv.of_extends rfl hgrow hlen, hgrow⟩
  | filePhase file phase =>
      exact ⟨hinv.of_file file rfl (hinv.pos_le file) (hinv.returned_eq file), Extends.refl state⟩
  | fileRead file count hinside =>
      refine ⟨hinv.of_file file rfl ?_ ?_, Extends.refl state⟩
      · simp only [List.length_take, List.length_drop, ChatDev.length_log]
        omega
      · rw [hinv.returned_eq file]
        exact take_append_take_drop _ _ _
  | readerPhase process phase => exact ⟨⟨hinv.1, hinv.2, hinv.3⟩, Extends.refl state⟩
  | readerFailed process code => exact ⟨⟨hinv.1, hinv.2, hinv.3⟩, Extends.refl state⟩
  | readerTook process hcount => exact ⟨⟨hinv.1, hinv.2, hinv.3⟩, Extends.refl state⟩

/-! ## The pieces of a log -/

/-- Each log is what the appends of its chat stored, in order. -/
def LogOfPieces (state : State) : Prop :=
  ∀ chat, (state.chats chat).log = (state.history.pieces chat).flatMap Piece.stored

theorem logOfPieces_init (opened : ℕ → ℕ) : LogOfPieces (telegramInit opened) := fun _ => rfl

theorem logOfPieces_append {state : State} (hinv : LogOfPieces state) (chat : ℕ) (line : Text)
    (ticket : Option ℕ) (other : ℕ) :
    (assign state.chats chat ((state.chats chat).append line) other).log =
      (assign state.history.pieces chat (state.history.pieces chat ++
        [⟨ticket, scnprintf (state.chats chat).room line⟩]) other).flatMap Piece.stored := by
  by_cases hsame : other = chat
  · subst hsame
    simp [assign_self, ChatDev.log_append, hinv other]
  · rw [assign_of_ne _ hsame, assign_of_ne _ hsame, hinv other]

theorem LogOfPieces.busWrite {state : State} (hinv : LogOfPieces state) (command : BusCommand) :
    LogOfPieces (stepBusWrite state command) := by
  cases command with
  | incoming chat sender message => exact logOfPieces_append hinv chat _ _
  | set chat id =>
      intro other
      exact (log_apply_set state.chats chat id other).1.trans (hinv other)

theorem logOfPieces_step (state : State) (op : Op) (hinv : LogOfPieces state) :
    LogOfPieces (step state op) := by
  have hchange := change_step state op
  generalize step state op = next at hchange
  cases hchange with
  | chatWrite process chat tmp _ => exact logOfPieces_append hinv chat _ _
  | busWrite command => exact hinv.busWrite command
  | _ => exact hinv

/-! ## Every interleaving -/

/-- What a log holds after some steps, and what it holds after more. -/
structure Coherent (before after : State) : Prop where
  bufLen_le : ∀ chat, (after.chats chat).bufLen ≤ 4095
  bytes_stay : ∀ chat, ∀ i < (before.chats chat).bufLen,
    i < (after.chats chat).bufLen ∧ (after.chats chat).buffer i = (before.chats chat).buffer i
  pos_le : ∀ file, (after.files file).pos ≤ (after.chats (after.files file).chat).bufLen
  returned_eq : ∀ file, (after.files file).returned =
    (after.chats (after.files file).chat).log.take (after.files file).pos

/-- Over every interleaving, and from every point of it on, the logs are
coherent. -/
theorem log_coherent (opened : ℕ → ℕ) (first second : List Op) :
    Coherent (execute (telegramInit opened) first)
      (execute (telegramInit opened) (first ++ second)) := by
  have hreached : LogInvariant (execute (telegramInit opened) first) :=
    execute_invariant (fun state op hinv => (logInvariant_step state op hinv).1)
      (logInvariant_init opened) first
  rw [execute_append]
  generalize execute (telegramInit opened) first = before at hreached ⊢
  obtain ⟨hinv, hgrow⟩ : LogInvariant (execute before second) ∧
      Extends before (execute before second) := by
    refine @execute_invariant (fun state => LogInvariant state ∧ Extends before state) ?_ before
      ⟨hreached, Extends.refl before⟩ second
    rintro state op ⟨hinv, hgrow⟩
    obtain ⟨hnext, hmore⟩ := logInvariant_step state op hinv
    exact ⟨hnext, hgrow.trans hmore⟩
  exact {
    bufLen_le := fun chat => Nat.le_of_lt_succ (hinv.bufLen_lt chat)
    bytes_stay := fun chat i hi => hgrow.byte chat hi
    pos_le := hinv.pos_le
    returned_eq := hinv.returned_eq }

/-! ## Lines that are cut -/

/-- A call of one of the two writers. -/
inductive Call
  | chatWrite (ubuf : Text) (readable : Bool)
  | busWrite (ubuf : Text) (readable : Bool)

def Call.bytes : Call → Text
  | .chatWrite ubuf _ => ubuf
  | .busWrite ubuf _ => ubuf

/-- A call where `chat` is the one users write to. -/
def perform (chat : ℕ) (chats : ℕ → ChatDev) : Call → Int × (ℕ → ChatDev)
  | .chatWrite ubuf readable =>
      let reply := chatWrite (chats chat) ubuf readable
      (reply.1, assign chats chat reply.2)
  | .busWrite ubuf readable => busWrite chats ubuf readable

/-- The whole line that an accepted call asks to append to the log of `chat`:
the message is everything the caller wrote, also behind a zero. -/
def acceptedLine (chat : ℕ) : Call → Option Text
  | .chatWrite ubuf readable =>
      match chatWriteTmp ubuf readable with
      | .ok _ => some ([0x5B, 0x55, 0x73, 0x65, 0x72, 0x5D, 0x20] ++ ubuf ++ [newline])
      | .error _ => none
  | .busWrite ubuf readable =>
      match busWriteCommand ubuf readable with
      | .ok (.incoming chatIdx sender message) =>
          if chatIdx = chat then
            some (senderLine sender (message ++ ubuf.drop (cstr ubuf).length))
          else none
      | _ => none

/-- A call that succeeds appends its whole line, and one that fails leaves the
log as it was. -/
def StoresWhole (chat : ℕ) (chats : ℕ → ChatDev) (call : Call) : Prop :=
  (0 ≤ (perform chat chats call).1 → ∀ line, acceptedLine chat call = some line →
    ((perform chat chats call).2 chat).log = (chats chat).log ++ line) ∧
  ((perform chat chats call).1 < 0 →
    ((perform chat chats call).2 chat).log = (chats chat).log)

/-- The lines of the accepted calls are free of zeros and fit in the buffer
together, behind what is already there. -/
def AllFit (chat used : ℕ) (calls : List Call) : Prop :=
  (∀ call ∈ calls, acceptedLine chat call ≠ none → 0 ∉ call.bytes) ∧
    used + ((calls.filterMap (acceptedLine chat)).map List.length).sum ≤ msgBuffSize - 1

/-- A call without a line for the log leaves it as it was. -/
theorem log_of_acceptedLine_eq_none {chat : ℕ} {call : Call} (chats : ℕ → ChatDev)
    (hnone : acceptedLine chat call = none) :
    ((perform chat chats call).2 chat).log = (chats chat).log ∧
      ((perform chat chats call).2 chat).bufLen = (chats chat).bufLen := by
  cases call with
  | chatWrite ubuf readable =>
      simp only [acceptedLine] at hnone
      split at hnone
      · cases hnone
      · rename_i code hcode
        simp [perform, chatWrite, hcode]
  | busWrite ubuf readable =>
      simp only [acceptedLine] at hnone
      simp only [perform, busWrite]
      cases hcommand : busWriteCommand ubuf readable with
      | error code => exact ⟨rfl, rfl⟩
      | ok command =>
          cases command with
          | incoming chatIdx sender message =>
              simp only [hcommand] at hnone
              have hother : chat ≠ chatIdx := by
                rintro rfl
                simp at hnone
              simp [BusCommand.apply, assign_of_ne _ hother]
          | set chatIdx id => exact log_apply_set chats chatIdx id chat

/-- A call with a line succeeds, and appends it as far as the C string of its
bytes reaches. -/
theorem append_of_acceptedLine_eq_some {chat : ℕ} {call : Call} {line : Text}
    (chats : ℕ → ChatDev) (hsome : acceptedLine chat call = some line) :
    0 ≤ (perform chat chats call).1 ∧ ∃ printed,
      (perform chat chats call).2 chat = (chats chat).append printed ∧
      printed.length ≤ line.length ∧ (printed = line ↔ 0 ∉ call.bytes) := by
  cases call with
  | chatWrite ubuf readable =>
      simp only [acceptedLine] at hsome
      split at hsome
      · rename_i tmp htmp
        cases hsome
        have hubuf : tmp = ubuf := by
          simp only [chatWriteTmp] at htmp
          split at htmp
          · cases htmp
          · split at htmp
            · cases htmp
            · cases htmp
              rfl
        subst hubuf
        refine ⟨by simp [perform, chatWrite, htmp], userLine tmp,
          by simp [perform, chatWrite, htmp], ?_, ?_⟩
        · have hle := length_cstr_le tmp
          simp only [userLine, List.length_append]
          omega
        · rw [userLine, List.append_left_inj, List.append_right_inj]
          exact cstr_eq_self_iff
      · cases hsome
  | busWrite ubuf readable =>
      simp only [acceptedLine] at hsome
      split at hsome
      · rename_i chatIdx sender message hcommand
        split at hsome
        · rename_i hsame
          subst hsame
          cases hsome
          refine ⟨by simp [perform, busWrite, hcommand], senderLine sender message,
            by simp [perform, busWrite, hcommand, BusCommand.apply], ?_, ?_⟩
          · simp only [senderLine, List.length_append]
            omega
          · rw [senderLine, senderLine, List.append_left_inj, List.append_right_inj,
              List.self_eq_append_right, List.drop_eq_nil_iff]
            exact length_le_cstr_iff
        · cases hsome
      · cases hsome

theorem storesWhole_iff {chat : ℕ} {chats : ℕ → ChatDev} {call : Call}
    (hlen : (chats chat).bufLen < msgBuffSize) :
    StoresWhole chat chats call ↔ ∀ line, acceptedLine chat call = some line →
      0 ∉ call.bytes ∧ (chats chat).bufLen + line.length ≤ msgBuffSize - 1 := by
  cases hline : acceptedLine chat call with
  | none =>
      refine iff_of_true ⟨fun _ line hsome => ?_, fun _ => ?_⟩ (by simp)
      · rw [hline] at hsome
        cases hsome
      · exact (log_of_acceptedLine_eq_none chats hline).1
  | some line =>
      obtain ⟨hret, printed, happend, hle, hsame⟩ := append_of_acceptedLine_eq_some chats hline
      have hstored : StoresWhole chat chats call ↔
          printed.take (msgBuffSize - 1 - (chats chat).bufLen) = line := by
        rw [StoresWhole, hline, happend, ChatDev.log_append, ChatDev.scnprintf_room printed hlen]
        constructor
        · exact fun hwhole => List.append_cancel_left (hwhole.1 hret line rfl)
        · refine fun htake => ⟨fun _ other hother => ?_, fun hneg => absurd hret hneg.not_ge⟩
          cases hother
          rw [htake]
      rw [hstored, take_eq_iff hle, hsame]
      simp only [Option.some.injEq, forall_eq']
      refine and_congr_right fun _ => ?_
      simp only [msgBuffSize] at hlen ⊢
      omega

/-- How much of the buffer a call that stores its whole line takes. -/
theorem bufLen_of_storesWhole {chat : ℕ} {chats : ℕ → ChatDev} {call : Call}
    (hwhole : StoresWhole chat chats call) :
    ((perform chat chats call).2 chat).bufLen =
      (chats chat).bufLen + ((acceptedLine chat call).map List.length).getD 0 := by
  cases hline : acceptedLine chat call with
  | none => exact (log_of_acceptedLine_eq_none chats hline).2
  | some line =>
      obtain ⟨hret, -⟩ := append_of_acceptedLine_eq_some chats hline
      have hlog := congrArg List.length (hwhole.1 hret line hline)
      rwa [List.length_append, ChatDev.length_log, ChatDev.length_log] at hlog

theorem allFit_cons {chat used : ℕ} {call : Call} {calls : List Call} :
    AllFit chat used (call :: calls) ↔
      (∀ line, acceptedLine chat call = some line →
        0 ∉ call.bytes ∧ used + line.length ≤ msgBuffSize - 1) ∧
      AllFit chat (used + ((acceptedLine chat call).map List.length).getD 0) calls := by
  cases hline : acceptedLine chat call with
  | none => simp [AllFit, hline]
  | some line =>
      simp only [AllFit, List.forall_mem_cons, hline, List.filterMap_cons, List.map_cons,
        List.sum_cons, Option.some.injEq, forall_eq', Option.map_some, Option.getD_some]
      constructor
      · rintro ⟨⟨hzero, hzeros⟩, hsum⟩
        exact ⟨⟨hzero (by simp), by omega⟩, hzeros, by omega⟩
      · rintro ⟨⟨hzero, -⟩, hzeros, hsum⟩
        exact ⟨⟨fun _ => hzero, hzeros⟩, by omega⟩

theorem allSteps_storesWhole_iff {chat : ℕ} {calls : List Call} {chats : ℕ → ChatDev}
    (hlen : (chats chat).bufLen < msgBuffSize) :
    AllSteps (fun current call => some (perform chat current call).2) (StoresWhole chat) chats
        calls ↔ AllFit chat (chats chat).bufLen calls := by
  induction calls generalizing chats with
  | nil =>
      refine iff_of_true trivial ⟨by simp, ?_⟩
      simp only [List.filterMap_nil, List.map_nil, List.sum_nil]
      omega
  | cons call calls ih =>
      rw [allFit_cons, AllSteps, storesWhole_iff hlen]
      refine and_congr_right fun hfits => ?_
      have hwhole : StoresWhole chat chats call := (storesWhole_iff hlen).mpr hfits
      have hused := bufLen_of_storesWhole hwhole
      have hnext : ((perform chat chats call).2 chat).bufLen < msgBuffSize := by
        rw [hused]
        cases hline : acceptedLine chat call with
        | none => simpa using hlen
        | some line =>
            have := (hfits line hline).2
            simp only [Option.map_some, Option.getD_some, msgBuffSize] at this ⊢
            omega
      rw [← hused, ← ih hnext]
      simp

/-- From the fresh module, every call of a sequence stores its whole line or
fails exactly if the accepted lines are free of zeros and fit together. -/
theorem all_storesWhole_iff (chat : ℕ) (calls : List Call) :
    AllSteps (fun current call => some (perform chat current call).2) (StoresWhole chat)
        (telegramInit fun _ => 0).chats calls ↔ AllFit chat 0 calls :=
  allSteps_storesWhole_iff (show 0 < msgBuffSize by decide)

/-- The longest message the write accepts is longer than the buffer with its frame. -/
theorem not_storesWhole_long_message :
    ¬ ∀ chat calls, AllSteps (fun current call => some (perform chat current call).2)
      (StoresWhole chat) (telegramInit fun _ => 0).chats calls := by
  intro hclaim
  obtain ⟨ubuf, hubuf⟩ : ∃ ubuf : Text, ubuf.length = 4095 :=
    ⟨List.replicate 4095 0x61, List.length_replicate⟩
  have hall := hclaim 0 [.chatWrite ubuf true]
  rw [allSteps_storesWhole_iff (show 0 < msgBuffSize by decide)] at hall
  have hline : acceptedLine 0 (.chatWrite ubuf true) =
      some ([0x5B, 0x55, 0x73, 0x65, 0x72, 0x5D, 0x20] ++ ubuf ++ [newline]) := by
    simp [acceptedLine, chatWriteTmp, msgBuffSize, hubuf]
  have hsum := hall.2
  rw [List.filterMap_cons_some hline] at hsum
  simp [msgBuffSize, hubuf] at hsum

end DoomsdayModules.Telegram.ChatLog
