import DoomsdayModules.Core.EarlyExit
import DoomsdayModules.Telegram.BusLines

/-!
# The incoming thread

The thread takes batches of updates and writes a line to the bus for each text
message from a chat it knows.  Nothing in the loop catches an exception, so the
thread ends at the first update that lacks a field the loop reads, that has no
encoding, or whose line the kernel rejects, and every later update is lost.
-/

namespace DoomsdayModules.Telegram.Incoming

open DoomsdayModules.EarlyExit DoomsdayModules.KernelText DoomsdayModules.Utf8
open DoomsdayModules.Telegram.Devices DoomsdayModules.Telegram.Daemon
open DoomsdayModules.Telegram.BusLines

/-! ## Updates -/

/-- A string of the language: a lone surrogate, which has no encoding, is `none`. -/
abbrev PyString := List (Option Char)

/-- `update["message"]["from"]`, whose first name may be missing. -/
structure User where
  firstName : Option PyString

/-- `update["message"]`; `chatId` is `none` if the chat or its id is missing. -/
structure Message where
  chatId : Option Int
  from_ : Option User
  text : Option PyString

/-- An update; an empty message is one without fields. -/
structure Update where
  updateId : Option Int
  message : Option Message

/-- The exceptions that end the thread. -/
inductive Failure
  | keyError
  | unicodeEncodeError
  | osError (code : Int)

/-- The thread's offset, and the commands the kernel took from its lines. -/
structure LoopState where
  offset : Int
  written : List BusCommand

def unknown : PyString := "Unknown".toList.map some

def User.sender (user : User) : PyString := user.firstName.getD unknown

/-- `bus_inject_message` on strings that may have no encoding. -/
def busInjectMessage (state : LoopState) (chatIdx : ℕ) (sender text : PyString) :
    Except Failure LoopState :=
  match sender.mapM id, text.mapM id with
  | some senderChars, some textChars =>
      match busWriteCommand (injectLine chatIdx senderChars textChars) true with
      | .error code => .error (.osError code)
      | .ok command => .ok ⟨state.offset, state.written ++ [command]⟩
  | _, _ => .error .unicodeEncodeError

/-- The body of the loop for one update. -/
def processUpdate (reverseMap : Int → Option ℕ) (state : LoopState) (update : Update) :
    Except Failure LoopState :=
  match update.updateId with
  | none => .error .keyError
  | some updateId =>
      let advanced : LoopState := ⟨updateId + 1, state.written⟩
      match update.message with
      | none => .ok advanced
      | some msg =>
          match msg.text with
          | none => .ok advanced
          | some text =>
              match msg.chatId, msg.from_ with
              | some tgChatId, some user =>
                  match reverseMap tgChatId with
                  | none => .ok advanced
                  | some chatIdx => busInjectMessage advanced chatIdx user.sender text
              | _, _ => .error .keyError

/-- `incoming_loop` over the first `count` batches. -/
def incomingLoop (reverseMap : Int → Option ℕ) (batches : ℕ → List Update) (count : ℕ) :
    Except Failure LoopState :=
  (List.range count).foldlM
    (fun state round => (batches round).foldlM (processUpdate reverseMap) state) ⟨0, []⟩

/-! ## What is expected of the thread -/

/-- The command of a text message from a mapped chat, if the kernel can accept
it; a message without a sender is from an unknown one. -/
def acceptable (reverseMap : Int → Option ℕ) (update : Update) : Option BusCommand := do
  let msg ← update.message
  let text ← msg.text
  let chatIdx ← msg.chatId.bind reverseMap
  let senderChars ← ((msg.from_.map User.sender).getD unknown).mapM id
  let textChars ← text.mapM id
  (busWriteCommand (injectLine chatIdx senderChars textChars) true).toOption

/-- The thread never ends, and the kernel takes every acceptable update once and
in order. -/
def NeverLoses (reverseMap : Int → Option ℕ) (batches : ℕ → List Update) : Prop :=
  ∀ count, ∃ last, incomingLoop reverseMap batches count = .ok last ∧
    last.written = ((List.range count).flatMap batches).filterMap (acceptable reverseMap)

/-- The kernel accepts the line: it names a chat, is short enough, and a bar ends
its sender before a zero ends the line. -/
def AcceptedLine (chatIdx : ℕ) (sender text : List Char) : Prop :=
  chatIdx < maxChats ∧ (injectLine chatIdx sender text).length < busMessageSize ∧
    '|' ∈ (sender ++ ['|']).takeWhile (· ≠ '\x00')

/-- The loop gets past the update: it has its id, and if it is a text message it
has a chat and a sender, and its line is accepted if its chat is mapped. -/
def Update.Passes (reverseMap : Int → Option ℕ) (update : Update) : Prop :=
  update.updateId.isSome ∧ ∀ msg text, update.message = some msg → msg.text = some text →
    ∃ tgChatId user, msg.chatId = some tgChatId ∧ msg.from_ = some user ∧
      ∀ chatIdx, reverseMap tgChatId = some chatIdx →
        ∃ senderChars textChars, user.sender.mapM id = some senderChars ∧
          text.mapM id = some textChars ∧ AcceptedLine chatIdx senderChars textChars

/-! ## The lines the kernel accepts -/

theorem parseIdx_decimal_eq (chatIdx : ℕ) :
    parseIdx (decimal chatIdx) = if chatIdx < maxChats then some chatIdx else none := by
  by_cases hidx : chatIdx < maxChats
  · rw [parseIdx_decimal hidx, if_pos hidx]
  · rw [parseIdx, kstrtoint_decimal_eq, if_neg hidx]
    have hrange : (chatIdx : Int) < 0 ∨ (maxChats : Int) ≤ chatIdx := by omega
    split
    · rw [Option.bind_some, if_pos hrange]
    · rfl

theorem isSome_parseBusLine_incoming (chatIdx : ℕ) (rest : Text) :
    (parseBusLine ([0x49, 0x4E] ++ bar :: (decimal chatIdx ++ bar :: rest))).isSome ↔
      chatIdx < maxChats ∧ bar ∈ rest := by
  simp only [parseBusLine, strsep_append (show bar ∉ [0x49, 0x4E] by decide),
    strsep_append (bar_not_mem_decimal chatIdx), parseIdx_decimal_eq, if_true]
  by_cases hidx : chatIdx < maxChats
  · by_cases hbar : bar ∈ rest <;> simp [hidx, hbar, strsep]
  · simp [hidx]

/-- A bar is in front of the first zero behind a sender exactly if it is so
in the sender itself and the bar behind it. -/
theorem bar_mem_cstr_iff (sender : List Char) (rest : Text) :
    bar ∈ cstr (encode sender ++ bar :: rest) ↔
      '|' ∈ (sender ++ ['|']).takeWhile (· ≠ '\x00') := by
  have hmem : ∀ chars : List Char, bar ∈ encode chars ↔ '|' ∈ chars := fun _ =>
    mem_encode_iff (by decide)
  by_cases hsender : '\x00' ∈ sender
  · obtain ⟨before, after, rfl, hbefore⟩ := List.eq_append_cons_of_mem hsender
    have hencode : encode (before ++ '\x00' :: after) ++ bar :: rest =
        encode before ++ 0 :: (encode after ++ bar :: rest) := by
      have hnul : encode ('\x00' :: after) = 0 :: encode after := rfl
      rw [encode_append, hnul, List.append_assoc, List.cons_append]
    have htake : ((before ++ '\x00' :: after) ++ ['|']).takeWhile (· ≠ '\x00') = before := by
      rw [List.append_assoc, List.cons_append, takeWhile_token hbefore]
    rw [hencode, cstr_append (zero_not_mem_encode hbefore), cstr_zero_cons, List.append_nil, htake, hmem]
  · have htake : (sender ++ ['|']).takeWhile (· ≠ '\x00') = sender ++ ['|'] := by
      rw [takeWhile_append_token hsender]
      rfl
    have hcstr : cstr (encode sender ++ bar :: rest) = encode sender ++ bar :: cstr rest := by
      rw [cstr_append (zero_not_mem_encode hsender)]
      exact congrArg (encode sender ++ ·) (cstr_append (show (0 : UInt8) ∉ [bar] by decide) rest)
    rw [hcstr, htake]
    simp

theorem isOk_busWriteCommand_iff (chatIdx : ℕ) (sender text : List Char) :
    (∃ command, busWriteCommand (injectLine chatIdx sender text) true = .ok command) ↔
      AcceptedLine chatIdx sender text := by
  have hparse : (parseBusLine (cstr (injectLine chatIdx sender text))).isSome ↔
      chatIdx < maxChats ∧ '|' ∈ (sender ++ ['|']).takeWhile (· ≠ '\x00') := by
    have hhead : (0 : UInt8) ∉ [0x49, 0x4E] ++ bar :: (decimal chatIdx ++ [bar]) := by
      simp [zero_not_mem_decimal, bar]
    have hline : injectLine chatIdx sender text =
        ([0x49, 0x4E] ++ bar :: (decimal chatIdx ++ [bar])) ++
          (encode sender ++ bar :: (encode text ++ [newline])) := by
      rw [injectLine_eq]
      simp
    have hassoc : ∀ rest : Text, ([0x49, 0x4E] ++ bar :: (decimal chatIdx ++ [bar])) ++ rest =
        [0x49, 0x4E] ++ bar :: (decimal chatIdx ++ bar :: rest) := by simp
    rw [hline, cstr_append hhead, hassoc, isSome_parseBusLine_incoming, bar_mem_cstr_iff]
  rw [AcceptedLine, and_left_comm, ← hparse, busWriteCommand]
  by_cases hlength : (injectLine chatIdx sender text).length < busMessageSize
  · rw [if_neg (Nat.not_le.mpr hlength), if_neg (by simp)]
    cases parseBusLine (cstr (injectLine chatIdx sender text)) <;> simp [hlength]
  · rw [if_pos (Nat.not_lt.mp hlength)]
    simp [hlength]

/-! ## One update -/

/-- The state behind an update the loop gets past. -/
def LoopState.past (reverseMap : Int → Option ℕ) (state : LoopState) (update : Update) :
    LoopState where
  offset := (update.updateId.map (· + 1)).getD state.offset
  written := state.written ++ (acceptable reverseMap update).toList

theorem busInjectMessage_of_accepted {senderChars textChars : List Char} {sender text : PyString}
    {chatIdx : ℕ} (state : LoopState) (hsender : sender.mapM id = some senderChars)
    (htext : text.mapM id = some textChars) (haccepted : AcceptedLine chatIdx senderChars textChars) :
    ∃ command, busWriteCommand (injectLine chatIdx senderChars textChars) true = .ok command ∧
      busInjectMessage state chatIdx sender text =
        .ok ⟨state.offset, state.written ++ [command]⟩ := by
  obtain ⟨command, hcommand⟩ := (isOk_busWriteCommand_iff chatIdx senderChars textChars).mpr haccepted
  refine ⟨command, hcommand, ?_⟩
  simp only [busInjectMessage, hsender, htext, hcommand]

theorem busInjectMessage_of_not_accepted {sender text : PyString} {chatIdx : ℕ}
    (state : LoopState)
    (hnot : ¬ ∃ senderChars textChars, sender.mapM id = some senderChars ∧
      text.mapM id = some textChars ∧ AcceptedLine chatIdx senderChars textChars) :
    ∃ failure, busInjectMessage state chatIdx sender text = .error failure := by
  rw [busInjectMessage]
  cases hsender : sender.mapM id with
  | none => exact ⟨_, rfl⟩
  | some senderChars =>
      cases htext : text.mapM id with
      | none => exact ⟨_, rfl⟩
      | some textChars =>
          cases hcommand : busWriteCommand (injectLine chatIdx senderChars textChars) true with
          | error code => exact ⟨.osError code, by simp only [hcommand]⟩
          | ok command =>
              have haccepted := (isOk_busWriteCommand_iff _ _ _).mp ⟨command, hcommand⟩
              exact absurd ⟨senderChars, textChars, hsender, htext, haccepted⟩ hnot

/-- An update the loop gets past gives the kernel its command, if it has one. -/
theorem processUpdate_of_passes {reverseMap : Int → Option ℕ} {update : Update}
    (hpasses : update.Passes reverseMap) (state : LoopState) :
    processUpdate reverseMap state update = .ok (state.past reverseMap update) := by
  obtain ⟨hid, htextual⟩ := hpasses
  obtain ⟨updateId, hupdateId⟩ := Option.isSome_iff_exists.mp hid
  rw [processUpdate, hupdateId]
  cases hmessage : update.message with
  | none => simp [LoopState.past, acceptable, hmessage, hupdateId]
  | some msg =>
      cases htext : msg.text with
      | none => simp [LoopState.past, acceptable, hmessage, htext, hupdateId]
      | some text =>
          obtain ⟨tgChatId, user, hchat, hfrom, hline⟩ := htextual msg text hmessage htext
          cases hmapped : reverseMap tgChatId with
          | none =>
              simp [LoopState.past, acceptable, hmessage, htext, hchat, hfrom, hmapped, hupdateId]
          | some chatIdx =>
              obtain ⟨senderChars, textChars, hsender, hchars, haccepted⟩ := hline chatIdx hmapped
              obtain ⟨command, hcommand, hinject⟩ := busInjectMessage_of_accepted
                ⟨updateId + 1, state.written⟩ hsender hchars haccepted
              simp [LoopState.past, acceptable, hmessage, htext, hchat, hfrom, hmapped, hupdateId,
                hsender, hchars, hcommand, hinject, Except.toOption]

/-- Every other update ends the loop. -/
theorem processUpdate_of_not_passes {reverseMap : Int → Option ℕ} {update : Update}
    (hnot : ¬ update.Passes reverseMap) (state : LoopState) :
    ∃ failure, processUpdate reverseMap state update = .error failure := by
  rw [processUpdate]
  cases hupdateId : update.updateId with
  | none => exact ⟨_, rfl⟩
  | some updateId =>
      have hmessage : ∃ msg text, update.message = some msg ∧ msg.text = some text ∧
          ¬ ∃ tgChatId user, msg.chatId = some tgChatId ∧ msg.from_ = some user ∧
            ∀ chatIdx, reverseMap tgChatId = some chatIdx →
              ∃ senderChars textChars, user.sender.mapM id = some senderChars ∧
                text.mapM id = some textChars ∧ AcceptedLine chatIdx senderChars textChars := by
        by_contra hall
        refine hnot ⟨by rw [hupdateId]; rfl, fun msg text hmsg htext => ?_⟩
        by_contra hline
        exact hall ⟨msg, text, hmsg, htext, hline⟩
      obtain ⟨msg, text, hmsg, htext, hline⟩ := hmessage
      simp only [hmsg, htext]
      cases hchat : msg.chatId with
      | none => exact ⟨_, rfl⟩
      | some tgChatId =>
          cases hfrom : msg.from_ with
          | none => exact ⟨_, rfl⟩
          | some user =>
              cases hmapped : reverseMap tgChatId with
              | none =>
                  refine absurd ⟨tgChatId, user, hchat, hfrom, fun chatIdx hidx => ?_⟩ hline
                  rw [hmapped] at hidx
                  cases hidx
              | some chatIdx =>
                  simp only [hmapped]
                  refine busInjectMessage_of_not_accepted _ fun haccepted => hline ?_
                  refine ⟨tgChatId, user, hchat, hfrom, fun other hother => ?_⟩
                  rw [hmapped] at hother
                  cases hother
                  exact haccepted

/-! ## The loop -/

theorem incomingLoop_eq (reverseMap : Int → Option ℕ) (batches : ℕ → List Update) (count : ℕ) :
    incomingLoop reverseMap batches count =
      ((List.range count).flatMap batches).foldlM (processUpdate reverseMap) ⟨0, []⟩ :=
  (foldlM_flatMap batches (processUpdate reverseMap) ⟨0, []⟩ (List.range count)).symm

theorem written_foldl_past (reverseMap : Int → Option ℕ) (updates : List Update)
    (state : LoopState) :
    (updates.foldl (LoopState.past reverseMap) state).written =
      state.written ++ updates.filterMap (acceptable reverseMap) := by
  induction updates generalizing state with
  | nil => simp
  | cons update updates ih =>
      rw [List.foldl_cons, ih, LoopState.past, List.append_assoc]
      cases hcommand : acceptable reverseMap update <;> simp [hcommand]

/-- The thread loses no update exactly if it gets past every update there is. -/
theorem neverLoses_iff (reverseMap : Int → Option ℕ) (batches : ℕ → List Update) :
    NeverLoses reverseMap batches ↔
      ∀ round, ∀ update ∈ batches round, update.Passes reverseMap := by
  constructor
  · intro hnever round update hupdate
    obtain ⟨last, hloop, -⟩ := hnever (round + 1)
    rw [incomingLoop_eq] at hloop
    have hmem : update ∈ (List.range (round + 1)).flatMap batches :=
      List.mem_flatMap.mpr ⟨round, List.mem_range.mpr round.lt_succ_self, hupdate⟩
    exact forall_of_foldlM_ok (fun _ => processUpdate_of_not_passes) hloop update hmem
  · intro hpasses count
    have hround : ∀ update ∈ (List.range count).flatMap batches, ∀ state,
        processUpdate reverseMap state update = .ok (state.past reverseMap update) := by
      intro update hupdate
      obtain ⟨round, -, hmem⟩ := List.mem_flatMap.mp hupdate
      exact processUpdate_of_passes (hpasses round update hmem)
    refine ⟨_, (incomingLoop_eq reverseMap batches count).trans (foldlM_eq_foldl hround _), ?_⟩
    rw [written_foldl_past, List.nil_append]

/-- A message of 128 letters ends the thread, and the message behind it is lost. -/
theorem not_neverLoses_long_message :
    ¬ NeverLoses (fun tgChatId => if tgChatId = 1 then some 0 else none)
      (fun round => if round = 0 then
        [⟨some 7, some ⟨some 1, some ⟨none⟩, some (List.replicate 128 (some 'a'))⟩⟩,
          ⟨some 8, some ⟨some 1, some ⟨none⟩, some [some 'h', some 'i']⟩⟩]
      else []) := by
  intro hnever
  obtain ⟨last, hloop, -⟩ := hnever 1
  have hfails : (incomingLoop (fun tgChatId => if tgChatId = 1 then some 0 else none)
      (fun round => if round = 0 then
        [⟨some 7, some ⟨some 1, some ⟨none⟩, some (List.replicate 128 (some 'a'))⟩⟩,
          ⟨some 8, some ⟨some 1, some ⟨none⟩, some [some 'h', some 'i']⟩⟩]
      else []) 1).isOk = false := by
    decide +kernel
  rw [hloop] at hfails
  cases hfails

end DoomsdayModules.Telegram.Incoming
