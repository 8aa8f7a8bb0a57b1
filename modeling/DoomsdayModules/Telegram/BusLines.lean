import DoomsdayModules.Telegram.Daemon

/-!
# From the daemon to a chat

The daemon ends every line with a newline, and the kernel takes what stands
behind the last bar it splits at as the message or the chat id, the newline
included.  So an injected message is stored with an empty line behind it, and a
chat id with a newline, unless the buffer has no room left for that byte.  A bar
in the sender ends the sender there.
-/

namespace DoomsdayModules.Telegram.BusLines

open DoomsdayModules.KernelText DoomsdayModules.Utf8
open DoomsdayModules.Telegram.Devices DoomsdayModules.Telegram.Daemon

/-- The injected message is the line appended to its chat, and nothing else changes. -/
def InjectsLine (chats : ℕ → ChatDev) (chatIdx : ℕ) (sender text : List Char) : Prop :=
  let line := injectLine chatIdx sender text
  let written := busWrite chats line true
  written.1 = line.length ∧
    (written.2 chatIdx).log =
      (chats chatIdx).log ++ senderLine (encode sender) (encode text) ∧
    (written.2 chatIdx).chatId = (chats chatIdx).chatId ∧
    ∀ other, other ≠ chatIdx → written.2 other = chats other

/-- The chat id is stored as its decimal text, and nothing else changes. -/
def StoresChatId (chats : ℕ → ChatDev) (chatIdx : ℕ) (tgChatId : Int) : Prop :=
  let line := setLine chatIdx tgChatId
  let written := busWrite chats line true
  written.1 = line.length ∧
    (written.2 chatIdx).chatId = decimalInt tgChatId ∧
    (written.2 chatIdx).log = (chats chatIdx).log ∧
    ∀ other, other ≠ chatIdx → written.2 other = chats other

/-! ## Parsing a line -/

theorem bar_not_mem_decimal (n : ℕ) : bar ∉ decimal n := fun hmem =>
  (ne_of_isDigit (isDigit_of_mem_decimal bar hmem)).2.2.2 rfl

theorem parseIdx_decimal {chatIdx : ℕ} (hidx : chatIdx < maxChats) :
    parseIdx (decimal chatIdx) = some chatIdx := by
  have hrange : ¬ ((chatIdx : Int) < 0 ∨ (maxChats : Int) ≤ chatIdx) := by omega
  simp only [maxChats] at hidx
  rw [parseIdx, kstrtoint_decimal (by omega), Option.bind_some, if_neg hrange, Int.toNat_natCast]

theorem parseBusLine_incoming {chatIdx : ℕ} (hidx : chatIdx < maxChats) {sender : Text}
    (hsender : bar ∉ sender) (message : Text) :
    parseBusLine ([0x49, 0x4E] ++ bar :: (decimal chatIdx ++ bar :: (sender ++ bar :: message))) =
      some (.incoming chatIdx sender message) := by
  simp only [parseBusLine, strsep_append (show bar ∉ [0x49, 0x4E] by decide),
    strsep_append (bar_not_mem_decimal chatIdx), strsep_append hsender, parseIdx_decimal hidx,
    Option.bind_some, if_true]

theorem parseBusLine_set {chatIdx : ℕ} (hidx : chatIdx < maxChats) (id : Text) :
    parseBusLine ([0x53, 0x45, 0x54] ++ bar :: (decimal chatIdx ++ bar :: id)) =
      some (.set chatIdx id) := by
  simp only [parseBusLine, strsep_append (show bar ∉ [0x53, 0x45, 0x54] by decide),
    strsep_append (bar_not_mem_decimal chatIdx), parseIdx_decimal hidx, Option.bind_some,
    show ¬ ([0x53, 0x45, 0x54] : Text) = [0x49, 0x4E] by decide, if_false, if_true,
    Option.map_some]

theorem busWrite_of_parse {line : Text} {command : BusCommand} (chats : ℕ → ChatDev)
    (hlength : line.length < busMessageSize) (hzero : 0 ∉ line)
    (hparse : parseBusLine line = some command) :
    busWrite chats line true = ((line.length : Int), command.apply chats) := by
  have hcommand : busWriteCommand line true = .ok command := by
    rw [busWriteCommand, if_neg (Nat.not_le.mpr hlength), if_neg (by simp),
      cstr_eq_self_iff.mpr hzero, hparse]
  rw [busWrite, hcommand]

theorem zero_not_mem_injectLine (chatIdx : ℕ) {sender text : List Char}
    (hsender : '\x00' ∉ sender) (htext : '\x00' ∉ text) :
    0 ∉ injectLine chatIdx sender text := by
  rw [injectLine_eq]
  simp [zero_not_mem_decimal, zero_not_mem_encode hsender, zero_not_mem_encode htext, bar, newline]

theorem zero_not_mem_setLine (chatIdx : ℕ) (tgChatId : Int) : 0 ∉ setLine chatIdx tgChatId := by
  have hid : (0 : UInt8) ∉ decimalInt tgChatId := fun hmem => decimalInt_ne_zero 0 hmem rfl
  rw [setLine_eq]
  simp [zero_not_mem_decimal, hid, bar, newline]

/-! ## What is stored -/

/-- Of a text and a newline, the text is stored exactly if the room ends there. -/
theorem take_newline_eq_iff {text : Text} {room : ℕ} :
    (text ++ [newline]).take room = text ↔ room = text.length := by
  constructor
  · intro htake
    have hlength := congrArg List.length htake
    simp only [List.length_take, List.length_append, List.length_singleton] at hlength
    omega
  · rintro rfl
    exact List.take_left' rfl

theorem busWrite_injectLine (chats : ℕ → ChatDev) {chatIdx : ℕ} (hidx : chatIdx < maxChats)
    {sender text : List Char} (hsender : '\x00' ∉ sender) (htext : '\x00' ∉ text)
    (hlength : (injectLine chatIdx sender text).length < busMessageSize)
    {arg1 arg2 : Text} (hbar : bar ∉ arg1)
    (hargs : encode sender ++ bar :: (encode text ++ [newline]) = arg1 ++ bar :: arg2) :
    busWrite chats (injectLine chatIdx sender text) true =
      (((injectLine chatIdx sender text).length : Int),
        assign chats chatIdx ((chats chatIdx).append (senderLine arg1 arg2))) := by
  have hparse : parseBusLine (injectLine chatIdx sender text) =
      some (.incoming chatIdx arg1 arg2) := by
    rw [injectLine_eq, hargs, parseBusLine_incoming hidx hbar]
  exact busWrite_of_parse chats hlength (zero_not_mem_injectLine chatIdx hsender htext) hparse

/-- An injection depends only on what the kernel's two arguments print. -/
theorem injectsLine_iff_take (chats : ℕ → ChatDev) {chatIdx : ℕ} (hidx : chatIdx < maxChats)
    {sender text : List Char} (hsender : '\x00' ∉ sender) (htext : '\x00' ∉ text)
    (hlength : (injectLine chatIdx sender text).length < busMessageSize)
    (hlog : (chats chatIdx).bufLen < msgBuffSize) {arg1 arg2 : Text} (hbar : bar ∉ arg1)
    (hargs : encode sender ++ bar :: (encode text ++ [newline]) = arg1 ++ bar :: arg2) :
    InjectsLine chats chatIdx sender text ↔
      (senderLine arg1 arg2).take (msgBuffSize - 1 - (chats chatIdx).bufLen) =
        senderLine (encode sender) (encode text) := by
  have hwrite := busWrite_injectLine chats hidx hsender htext hlength hbar hargs
  simp only [InjectsLine, hwrite, assign_self, ChatDev.log_append, ChatDev.scnprintf_room _ hlog,
    List.append_cancel_left_eq]
  constructor
  · exact fun hinject => hinject.2.1
  · exact fun htake => ⟨trivial, htake, rfl, fun other hother => assign_of_ne _ hother⟩

theorem injectsLine_iff (chats : ℕ → ChatDev) {chatIdx : ℕ} (hidx : chatIdx < maxChats)
    {sender text : List Char} (hsender : '\x00' ∉ sender) (htext : '\x00' ∉ text)
    (hlength : (injectLine chatIdx sender text).length < busMessageSize)
    (hroom : (chats chatIdx).bufLen + (senderLine (encode sender) (encode text)).length <
      msgBuffSize) :
    InjectsLine chats chatIdx sender text ↔
      '|' ∉ sender ∧ (chats chatIdx).bufLen +
        (senderLine (encode sender) (encode text)).length = msgBuffSize - 1 := by
  have hlog : (chats chatIdx).bufLen < msgBuffSize := by omega
  have hmem : bar ∈ encode sender ↔ '|' ∈ sender := mem_encode_iff (by decide)
  by_cases hbar : '|' ∈ sender
  · -- the kernel takes the sender up to its first bar, and prints a bracket there
    obtain ⟨before, after, hencode, hbefore⟩ := List.eq_append_cons_of_mem (hmem.mpr hbar)
    have hargs : encode sender ++ bar :: (encode text ++ [newline]) =
        before ++ bar :: (after ++ bar :: (encode text ++ [newline])) := by
      rw [hencode]
      simp
    rw [injectsLine_iff_take chats hidx hsender htext hlength hlog hbefore hargs]
    constructor
    · intro htake
      have hprefix := htake ▸ List.take_prefix (msgBuffSize - 1 - (chats chatIdx).bufLen)
        (senderLine before (after ++ bar :: (encode text ++ [newline])))
      rw [senderLine, senderLine, hencode] at hprefix
      simp only [List.append_assoc, List.cons_append, List.nil_append, List.cons_prefix_cons,
        List.prefix_append_right_inj] at hprefix
      exact absurd hprefix.2.1 (by decide)
    · exact fun hcondition => absurd hbar hcondition.1
  · have hline : senderLine (encode sender) (encode text ++ [newline]) =
        senderLine (encode sender) (encode text) ++ [newline] := by
      simp [senderLine]
    rw [injectsLine_iff_take chats hidx hsender htext hlength hlog (mt hmem.mp hbar) rfl, hline,
      take_newline_eq_iff]
    constructor
    · exact fun hfull => ⟨hbar, by omega⟩
    · exact fun hcondition => by omega

theorem storesChatId_iff (chats : ℕ → ChatDev) {chatIdx : ℕ} (hidx : chatIdx < maxChats)
    {tgChatId : Int} (hlength : (setLine chatIdx tgChatId).length < busMessageSize) :
    StoresChatId chats chatIdx tgChatId ↔
      (decimalInt tgChatId).length = chatIdBuffSize - 1 := by
  have hparse : parseBusLine (setLine chatIdx tgChatId) =
      some (.set chatIdx (decimalInt tgChatId ++ [newline])) := by
    rw [setLine_eq, parseBusLine_set hidx]
  have hwrite := busWrite_of_parse chats hlength (zero_not_mem_setLine chatIdx tgChatId) hparse
  simp only [StoresChatId, hwrite, BusCommand.apply, assign_self, strscpy, take_newline_eq_iff]
  constructor
  · exact fun hstores => hstores.2.1.symm
  · exact fun hfull => ⟨trivial, hfull.symm, rfl, fun other hother => assign_of_ne _ hother⟩

/-- The two lines the daemon writes do what they are meant to exactly if the
newline behind them is cut, and the sender has no bar. -/
theorem bus_lines_iff (chats : ℕ → ChatDev) (chatIdx : ℕ) (hidx : chatIdx < maxChats) :
    (∀ sender text : List Char, '\x00' ∉ sender → '\x00' ∉ text →
      (injectLine chatIdx sender text).length < busMessageSize →
      (chats chatIdx).bufLen + (senderLine (encode sender) (encode text)).length <
        msgBuffSize →
      (InjectsLine chats chatIdx sender text ↔
        '|' ∉ sender ∧ (chats chatIdx).bufLen +
          (senderLine (encode sender) (encode text)).length = msgBuffSize - 1)) ∧
    (∀ tgChatId : Int, (setLine chatIdx tgChatId).length < busMessageSize →
      (StoresChatId chats chatIdx tgChatId ↔
        (decimalInt tgChatId).length = chatIdBuffSize - 1)) :=
  ⟨fun _ _ hsender htext hlength hroom =>
      injectsLine_iff chats hidx hsender htext hlength hroom,
    fun _ hlength => storesChatId_iff chats hidx hlength⟩

/-- A full chat but for the line, where the newline behind it is cut. -/
theorem bus_lines_iff_examples :
    (InjectsLine (fun _ => ⟨fun _ => 0, 4089, []⟩) 3 ['a'] ['b'] ↔
      '|' ∉ ['a'] ∧ 4089 + (senderLine (encode ['a']) (encode ['b'])).length = msgBuffSize - 1) ∧
    (StoresChatId (fun _ => ⟨fun _ => 0, 4089, []⟩) 3 (-42) ↔
      (decimalInt (-42)).length = chatIdBuffSize - 1) :=
  ⟨(bus_lines_iff (fun _ => ⟨fun _ => 0, 4089, []⟩) 3 (by decide)).1 ['a'] ['b']
      (by decide) (by decide) (by decide +kernel) (by decide +kernel),
    (bus_lines_iff (fun _ => ⟨fun _ => 0, 4089, []⟩) 3 (by decide)).2 (-42) (by decide +kernel)⟩

/-- In a fresh module an injected message has an empty line behind it, and a chat
id a newline. -/
theorem not_bus_lines_fresh :
    (¬ ∀ (chats : ℕ → ChatDev) (chatIdx : ℕ) (sender text : List Char), chatIdx < maxChats →
      '\x00' ∉ sender → '\x00' ∉ text →
      (injectLine chatIdx sender text).length < busMessageSize →
      (chats chatIdx).bufLen + (senderLine (encode sender) (encode text)).length < msgBuffSize →
      InjectsLine chats chatIdx sender text) ∧
    ¬ ∀ (chats : ℕ → ChatDev) (chatIdx : ℕ) (tgChatId : Int), chatIdx < maxChats →
      (setLine chatIdx tgChatId).length < busMessageSize → StoresChatId chats chatIdx tgChatId := by
  constructor
  · intro hclaim
    obtain ⟨-, hinjected, -⟩ := hclaim (fun _ => ⟨fun _ => 0, 0, []⟩) 0 ['a'] ['b'] (by decide)
      (by decide) (by decide) (by decide +kernel) (by decide +kernel)
    exact absurd hinjected (by decide +kernel)
  · intro hclaim
    obtain ⟨-, hstored, -⟩ := hclaim (fun _ => ⟨fun _ => 0, 0, []⟩) 0 42 (by decide)
      (by decide +kernel)
    exact absurd hstored (by decide +kernel)

end DoomsdayModules.Telegram.BusLines
