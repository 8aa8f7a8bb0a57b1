import DoomsdayModules.Telegram.Devices

/-!
# The grammar of bus commands

`bus_write` splits a line with `strsep` and reads the missing fields off its
null results.  The lines it accepts are those of a grammar with two forms, and
the command it executes is the one the form says: `IN` appends to the log of a
chat, `SET` replaces the chat's id.  A line of no form, a write that is too long
and a write that cannot be copied leave all chats as they are.
-/

namespace DoomsdayModules.Telegram.BusGrammar

open DoomsdayModules.KernelText DoomsdayModules.Telegram.Devices

/-- `kstrtoint` accepts the field, with a value that names a chat. -/
def NamesChat (idxStr : Text) (chatIdx : ℕ) : Prop :=
  kstrtoint idxStr = some (chatIdx : Int) ∧ chatIdx ≤ 9

/-- `IN|idx|sender|message` and `SET|idx|id`. -/
inductive BusForm : Text → BusCommand → Prop
  | incoming {idxStr sender : Text} {chatIdx : ℕ} (hidx : NamesChat idxStr chatIdx)
      (hsender : bar ∉ sender) (message : Text) :
      BusForm ([0x49, 0x4E] ++ bar :: (idxStr ++ bar :: (sender ++ bar :: message)))
        (.incoming chatIdx sender message)
  | set {idxStr : Text} {chatIdx : ℕ} (hidx : NamesChat idxStr chatIdx) (id : Text) :
      BusForm ([0x53, 0x45, 0x54] ++ bar :: (idxStr ++ bar :: id)) (.set chatIdx id)

/-- What a command may change: `IN` the buffer, not beyond its end, and the
length of one chat, `SET` the id of one chat. -/
def ChangesOnly (before after : ℕ → ChatDev) : BusCommand → Prop
  | .incoming chatIdx _ _ =>
      (∀ other ≠ chatIdx, after other = before other) ∧
      (after chatIdx).chatId = (before chatIdx).chatId ∧
      ((before chatIdx).bufLen ≤ msgBuffSize →
        ∀ i ≥ msgBuffSize, (after chatIdx).buffer i = (before chatIdx).buffer i)
  | .set chatIdx _ =>
      (∀ other ≠ chatIdx, after other = before other) ∧
      (after chatIdx).buffer = (before chatIdx).buffer ∧
      (after chatIdx).bufLen = (before chatIdx).bufLen

/-! ## Fields -/

/-- A text either has no delimiter or is split at its first one. -/
theorem strsep_cases (delimiter : UInt8) (text : Text) :
    (delimiter ∉ text ∧ strsep delimiter (some text) = (some text, none)) ∨
      ∃ token rest, text = token ++ delimiter :: rest ∧ delimiter ∉ token := by
  by_cases hmem : delimiter ∈ text
  · right
    exact List.eq_append_cons_of_mem hmem
  · left
    refine ⟨hmem, ?_⟩
    have htoken := takeWhile_append_token hmem ([] : Text)
    rw [List.append_nil, List.takeWhile_nil, List.append_nil] at htoken
    rw [strsep, htoken, if_neg hmem]

theorem strsep_none (delimiter : UInt8) : strsep delimiter none = (none, none) := rfl

/-- Digits, and the newline that may follow them, are no delimiters. -/
theorem bar_not_mem_of_parseDigits {text : Text} {n : ℕ} (hparse : parseDigits text = some n) :
    bar ∉ text := by
  simp only [parseDigits] at hparse
  split at hparse
  · cases hparse
  split at hparse
  next hrest =>
    rw [← List.takeWhile_append_dropWhile (p := isDigit) (l := text), List.mem_append]
    rintro (hdigit | htail)
    · exact (ne_of_isDigit (List.mem_takeWhile_imp hdigit)).2.2.2 rfl
    · rcases hrest with hrest | hrest
      · rw [hrest] at htail
        cases htail
      · rw [hrest] at htail
        exact absurd htail (by decide)
  next => cases hparse

theorem bar_not_mem_of_kstrtoint {text : Text} {value : Int}
    (hvalue : kstrtoint text = some value) : bar ∉ text := by
  rw [kstrtoint.eq_def] at hvalue
  split at hvalue
  · obtain ⟨n, hparse, -⟩ := Option.bind_eq_some_iff.mp hvalue
    exact List.not_mem_cons_of_ne_of_not_mem (by decide) (bar_not_mem_of_parseDigits hparse)
  · obtain ⟨n, hparse, -⟩ := Option.bind_eq_some_iff.mp hvalue
    exact List.not_mem_cons_of_ne_of_not_mem (by decide) (bar_not_mem_of_parseDigits hparse)
  · obtain ⟨n, hparse, -⟩ := Option.bind_eq_some_iff.mp hvalue
    exact bar_not_mem_of_parseDigits hparse

theorem parseIdx_eq_some_iff {idxStr : Text} {chatIdx : ℕ} :
    parseIdx idxStr = some chatIdx ↔ NamesChat idxStr chatIdx := by
  rw [parseIdx, NamesChat, Option.bind_eq_some_iff]
  constructor
  · rintro ⟨value, hvalue, hrange⟩
    split at hrange
    next => cases hrange
    next hinside =>
      simp only [maxChats, Option.some.injEq] at hinside hrange
      obtain rfl : value = (chatIdx : Int) := by omega
      exact ⟨hvalue, by omega⟩
  · rintro ⟨hvalue, hrange⟩
    have hinside : ¬ ((chatIdx : Int) < 0 ∨ (maxChats : Int) ≤ chatIdx) := by
      simp only [maxChats]
      omega
    exact ⟨chatIdx, hvalue, by rw [if_neg hinside, Int.toNat_natCast]⟩

/-! ## The parser -/

theorem parseBusLine_of_form {line : Text} {command : BusCommand} (hform : BusForm line command) :
    parseBusLine line = some command := by
  cases hform with
  | incoming hidx hsender message =>
      simp only [parseBusLine, strsep_append (show bar ∉ [0x49, 0x4E] by decide),
        strsep_append (bar_not_mem_of_kstrtoint hidx.1), strsep_append hsender,
        parseIdx_eq_some_iff.mpr hidx, Option.bind_some, if_true]
  | set hidx id =>
      simp only [parseBusLine, strsep_append (show bar ∉ [0x53, 0x45, 0x54] by decide),
        strsep_append (bar_not_mem_of_kstrtoint hidx.1), parseIdx_eq_some_iff.mpr hidx,
        Option.bind_some, show ¬ ([0x53, 0x45, 0x54] : Text) = [0x49, 0x4E] by decide, if_false,
        if_true, Option.map_some]

/-- Behind a command and an index without a third field nothing is accepted. -/
theorem parseBusLine_two_fields {cmd idxStr : Text} (hcmd : bar ∉ cmd)
    (hlast : strsep bar (some idxStr) = (some idxStr, none)) :
    parseBusLine (cmd ++ bar :: idxStr) = none := by
  simp only [parseBusLine, strsep_append hcmd, hlast, strsep_none, Option.map_none]
  cases parseIdx idxStr with
  | none => rfl
  | some chatIdx => simp

theorem form_of_parseBusLine {line : Text} {command : BusCommand}
    (hparse : parseBusLine line = some command) : BusForm line command := by
  rcases strsep_cases bar line with ⟨hcmd, hlast⟩ | ⟨cmd, line, rfl, hcmd⟩
  · -- no delimiter at all: the second field is null
    simp [parseBusLine, hlast, strsep_none] at hparse
  rcases strsep_cases bar line with ⟨hidxStr, hlast⟩ | ⟨idxStr, rest, rfl, hidxStr⟩
  · rw [parseBusLine_two_fields hcmd hlast] at hparse
    cases hparse
  simp only [parseBusLine, strsep_append hcmd, strsep_append hidxStr] at hparse
  obtain ⟨chatIdx, hidx, hcommand⟩ := Option.bind_eq_some_iff.mp hparse
  rw [parseIdx_eq_some_iff] at hidx
  split at hcommand
  next hincoming =>
    subst hincoming
    rcases strsep_cases bar rest with ⟨hsender, hlast⟩ | ⟨sender, message, rfl, hsender⟩
    · simp [hlast] at hcommand
    · simp only [strsep_append hsender, Option.some.injEq] at hcommand
      subst hcommand
      exact .incoming hidx hsender message
  next =>
    split at hcommand
    next hset =>
      subst hset
      simp only [Option.map_some, Option.some.injEq] at hcommand
      subst hcommand
      exact .set hidx rest
    next => cases hcommand

theorem parseBusLine_eq_some_iff {line : Text} {command : BusCommand} :
    parseBusLine line = some command ↔ BusForm line command :=
  ⟨form_of_parseBusLine, parseBusLine_of_form⟩

/-! ## The writes -/

theorem busWriteCommand_eq_ok_iff {ubuf : Text} {command : BusCommand} :
    busWriteCommand ubuf true = .ok command ↔
      ubuf.length < busMessageSize ∧ BusForm (cstr ubuf) command := by
  rw [← parseBusLine_eq_some_iff, busWriteCommand]
  split
  next hlong => simp [Nat.not_lt.mpr hlong]
  next hshort =>
    rw [if_neg (by simp)]
    cases parseBusLine (cstr ubuf) <;> simp [Nat.lt_of_not_le hshort]

theorem busWriteCommand_error_neg {ubuf : Text} {readable : Bool} {code : Int}
    (herror : busWriteCommand ubuf readable = .error code) : code < 0 := by
  have hcodes : code = einval ∨ code = efault := by
    rw [busWriteCommand] at herror
    split_ifs at herror
    · exact .inl (Except.error.inj herror).symm
    · cases hparse : parseBusLine (cstr ubuf) with
      | none =>
          rw [hparse] at herror
          exact .inl (Except.error.inj herror).symm
      | some command =>
          rw [hparse] at herror
          cases herror
    · exact .inr (Except.error.inj herror).symm
  rcases hcodes with rfl | rfl <;> decide

/-- An error is negative and leaves the chats alone. -/
theorem busWrite_error (chats : ℕ → ChatDev) (ubuf : Text) (readable : Bool) :
    ((busWrite chats ubuf readable).1 < 0 ∧ (busWrite chats ubuf readable).2 = chats) ∨
      ∃ command, busWriteCommand ubuf readable = .ok command := by
  cases hcommand : busWriteCommand ubuf readable with
  | ok command => exact .inr ⟨command, rfl⟩
  | error code =>
      rw [busWrite, hcommand]
      exact .inl ⟨busWriteCommand_error_neg hcommand, rfl⟩

theorem printTo_of_ge {buffer : ℕ → UInt8} {first size i : ℕ} {text : Text}
    (hi : first + size ≤ i) : printTo buffer first size text i = buffer i := by
  simp only [printTo]
  by_cases hsize : size = 0 ∨ 2 ^ 31 ≤ size
  · rw [if_pos hsize]
  · have hlength := length_scnprintf_lt text (show 0 < size by omega)
    rw [if_neg hsize, if_neg (by omega), if_neg (by omega)]

theorem apply_changesOnly (chats : ℕ → ChatDev) (command : BusCommand) :
    ChangesOnly chats (command.apply chats) command := by
  cases command with
  | incoming chatIdx sender message =>
      rw [ChangesOnly, BusCommand.apply, assign_self]
      refine ⟨fun other hother => assign_of_ne _ hother, rfl, fun hlen i hi => printTo_of_ge ?_⟩
      simp only [ChatDev.room, msgBuffSize] at *
      omega
  | set chatIdx id =>
      rw [ChangesOnly, BusCommand.apply, assign_self]
      exact ⟨fun other hother => assign_of_ne _ hother, rfl, rfl⟩

/-- A write to the bus succeeds exactly if it is shorter than 128 bytes and its
C string is of one of the two forms; then its result is its length and the
command of the form changes only what it may.  A write that fails, whatever the
reason, changes no chat. -/
theorem busWrite_accepts_iff (chats : ℕ → ChatDev) (ubuf : Text) :
    (0 ≤ (busWrite chats ubuf true).1 ↔
      ubuf.length < 128 ∧ ∃ command, BusForm (cstr ubuf) command) ∧
    (∀ command, ubuf.length < 128 → BusForm (cstr ubuf) command →
      (busWrite chats ubuf true).1 = ubuf.length ∧
        ChangesOnly chats (busWrite chats ubuf true).2 command) ∧
    ∀ readable, (busWrite chats ubuf readable).1 < 0 → (busWrite chats ubuf readable).2 = chats := by
  have hwritten : ∀ command, busWriteCommand ubuf true = .ok command →
      busWrite chats ubuf true = ((ubuf.length : Int), command.apply chats) := by
    intro command hcommand
    rw [busWrite, hcommand]
  refine ⟨⟨fun hresult => ?_, ?_⟩, ?_, fun readable hresult => ?_⟩
  · rcases busWrite_error chats ubuf true with ⟨herror, -⟩ | ⟨command, hcommand⟩
    · exact absurd hresult (Int.not_le.mpr herror)
    · obtain ⟨hlength, hform⟩ := busWriteCommand_eq_ok_iff.mp hcommand
      exact ⟨hlength, command, hform⟩
  · rintro ⟨hlength, command, hform⟩
    rw [hwritten command (busWriteCommand_eq_ok_iff.mpr ⟨hlength, hform⟩)]
    exact Int.natCast_nonneg _
  · intro command hlength hform
    rw [hwritten command (busWriteCommand_eq_ok_iff.mpr ⟨hlength, hform⟩)]
    exact ⟨rfl, apply_changesOnly chats command⟩
  · rcases busWrite_error chats ubuf readable with ⟨-, hsame⟩ | ⟨command, hcommand⟩
    · exact hsame
    · rw [busWrite, hcommand] at hresult
      exact absurd hresult (Int.not_lt.mpr (Int.natCast_nonneg _))

end DoomsdayModules.Telegram.BusGrammar
