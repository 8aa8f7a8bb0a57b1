import DoomsdayModules.Telegram.Daemon
import DoomsdayModules.Telegram.MessageBus

/-!
# From a chat to the daemon

A message written to a chat becomes a frame of at most 127 bytes, six of which
name the chat.  The daemon strips the frame and splits it at the first two bars,
so it finds the message again, less its trailing white space, if 121 bytes were
enough for it.  A full queue drops the message, and the write still succeeds.
-/

namespace DoomsdayModules.Telegram.Outgoing

open DoomsdayModules.KernelText DoomsdayModules.RingBuffer DoomsdayModules.Utf8
open DoomsdayModules.Telegram.Devices DoomsdayModules.Telegram.MessageBus
open DoomsdayModules.Telegram.Daemon

/-- `chat_write` on the bus: its result and what it does to the queue. -/
def chatWriteBus (bus : TgBusDev) (chatIdx : ℕ) (ubuf : Text) (readable : Bool) :
    Int × TgBusDev :=
  match chatWriteTmp ubuf readable with
  | .error code => (code, bus)
  | .ok tmp => (ubuf.length, busEnqueueOutgoing bus chatIdx tmp)

/-! ## Parsing a frame -/

theorem split_append {separator : Char} {token : List Char} (htoken : separator ∉ token)
    (maxsplit : ℕ) (rest : List Char) :
    split separator (maxsplit + 1) (token ++ separator :: rest) =
      token :: split separator maxsplit rest := by
  rw [split, if_pos (by simp), takeWhile_token htoken, dropWhile_token htoken, List.tail_cons]

/-- White space is stripped from the text behind a character that is none. -/
theorem rstrip_append {head : List Char} {c : Char} (hc : isSpace c = false) (text : List Char) :
    rstrip (head ++ c :: text) = head ++ c :: rstrip text := by
  induction text using List.reverseRecOn with
  | nil =>
      rw [rstrip, rstrip, List.rdropWhile_nil]
      exact List.rdropWhile_concat_neg _ _ _ (by simp [hc])
  | append_singleton text last ih =>
      have hassoc : head ++ c :: (text ++ [last]) = (head ++ c :: text) ++ [last] := by simp
      rw [rstrip] at ih ⊢
      rw [hassoc]
      by_cases hlast : isSpace last = true
      · rw [List.rdropWhile_concat_pos _ _ _ hlast, ih, rstrip, rstrip,
          List.rdropWhile_concat_pos _ _ _ hlast]
      · rw [List.rdropWhile_concat_neg _ _ _ hlast, rstrip,
          List.rdropWhile_concat_neg _ _ _ hlast, hassoc]

theorem rstrip_newline (text : List Char) : rstrip (text ++ ['\n']) = rstrip text :=
  List.rdropWhile_concat_pos _ _ _ (by decide)

theorem bar_not_mem_formatInt (n : ℕ) : '|' ∉ formatInt n := by
  rw [formatInt, decimalInt_natCast, ascii, List.mem_map]
  rintro ⟨c, hc, hbar⟩
  obtain ⟨-, hhigh, -⟩ := char_of_isDigit (isDigit_of_mem_decimal c hc)
  rw [hbar] at hhigh
  exact absurd hhigh (by decide)

/-- The daemon finds the chat and the stripped message in a frame's text. -/
theorem handleFrame_encode (chatIdx : ℕ) (text : List Char) :
    handleFrame (encode ("OUT|".toList ++ formatInt chatIdx ++ '|' :: text)) =
      some ((chatIdx : Int), rstrip text) := by
  have hline : "OUT|".toList ++ formatInt chatIdx ++ '|' :: rstrip text =
      "OUT".toList ++ '|' :: (formatInt chatIdx ++ '|' :: rstrip text) := by
    simp
  have hstrip : strip ("OUT|".toList ++ formatInt chatIdx ++ '|' :: text) =
      "OUT|".toList ++ formatInt chatIdx ++ '|' :: rstrip text := by
    rw [strip, ← rstrip_append (by decide)]
    rfl
  rw [handleFrame, decodeReplace_encode, hstrip, hline, parseOutgoing,
    split_append (by decide), split_append (bar_not_mem_formatInt chatIdx)]
  simp only [split, if_true, pyInt_formatInt, Option.map_some]

/-! ## The frame of a message -/

theorem decimal_of_lt_ten {n : ℕ} (hn : n < 10) : decimal n = [digitChar n] := by
  interval_cases n <;> simp [decimal]

/-- The line of a message without its newline. -/
def outText (chatIdx : ℕ) (message : List Char) : List Char :=
  "OUT|".toList ++ formatInt chatIdx ++ '|' :: message

theorem encode_outText (chatIdx : ℕ) (message : List Char) :
    encode (outText chatIdx message) =
      [0x4F, 0x55, 0x54, bar] ++ decimal chatIdx ++ bar :: encode message := by
  have hout : encode "OUT|".toList = [0x4F, 0x55, 0x54, bar] := by decide +kernel
  rw [outText, encode_append, encode_append, hout, encode_bar_cons, encode_formatInt,
    decimalInt_natCast]

theorem length_encode_outText {chatIdx : ℕ} (hidx : chatIdx < maxChats) (message : List Char) :
    (encode (outText chatIdx message)).length = 6 + (encode message).length := by
  rw [encode_outText, decimal_of_lt_ten hidx]
  simp only [List.length_append, List.length_cons, List.length_nil]
  omega

/-- A frame is the first 127 bytes of its line. -/
theorem frameBytes_outFrame {message : List Char} (chatIdx : ℕ) (hzero : '\x00' ∉ message) :
    frameBytes (outFrame chatIdx (encode message)) =
      (encode (outText chatIdx message) ++ [newline]).take 127 := by
  have hline : outLine chatIdx (encode message) =
      encode (outText chatIdx message) ++ [newline] := by
    rw [outLine, cstr_eq_self_iff.mpr (zero_not_mem_encode hzero), encode_outText]
    simp
  rw [frameBytes, outFrame, List.take_length, scnprintf_eq_take _ (by decide) (by decide), hline]
  rfl

/-- The daemon gets no more of a message than its first 121 bytes. -/
theorem handleFrame_outFrame_cut {chatIdx : ℕ} {first rest : List Char}
    (hidx : chatIdx < maxChats) (hzero : '\x00' ∉ first ++ rest)
    (hfull : (encode first).length = 121) :
    handleFrame (frameBytes (outFrame chatIdx (encode (first ++ rest)))) =
      some ((chatIdx : Int), rstrip first) := by
  have hsplit : outText chatIdx (first ++ rest) = outText chatIdx first ++ rest := by
    simp [outText]
  have hlength := length_encode_outText hidx first
  rw [frameBytes_outFrame chatIdx hzero, hsplit, encode_append, List.append_assoc,
    List.take_left' (by omega), outText, handleFrame_encode]

/-- The message is in the frame as far as the 121 bytes behind its head go. -/
theorem handleFrame_outFrame {chatIdx : ℕ} {message : List Char} (hidx : chatIdx < maxChats)
    (hzero : '\x00' ∉ message) (hfits : (encode message).length ≤ 121) :
    handleFrame (frameBytes (outFrame chatIdx (encode message))) =
      some ((chatIdx : Int), rstrip message) := by
  rcases hfits.lt_or_eq with hroom | hfull
  · have hlength := length_encode_outText hidx message
    have hwhole : frameBytes (outFrame chatIdx (encode message)) =
        encode (outText chatIdx (message ++ ['\n'])) := by
      have hsplit : outText chatIdx (message ++ ['\n']) = outText chatIdx message ++ ['\n'] := by
        simp [outText]
      rw [frameBytes_outFrame chatIdx hzero, hsplit, encode_append, encode_newline]
      exact List.take_of_length_le (by
        rw [List.length_append, List.length_singleton]
        omega)
    rw [hwhole, outText, handleFrame_encode, rstrip_newline]
  · have hcut := @handleFrame_outFrame_cut chatIdx message [] hidx
      (by rwa [List.append_nil]) hfull
    rwa [List.append_nil] at hcut

/-- A write to a chat succeeds and puts exactly one frame on a queue with room,
which the daemon parses to the chat and the message without trailing white
space if the message has at most 121 bytes; a full queue stays as it is. -/
theorem outgoing_delivered (chatIdx : ℕ) (hidx : chatIdx < maxChats) (message : List Char)
    (hzero : '\x00' ∉ message) (hlength : (encode message).length < msgBuffSize)
    (bus : TgBusDev) (pending : List BusMessage)
    (hholds : Holds busQueueSize (ring bus) pending) :
    ∃ bus', chatWriteBus bus chatIdx (encode message) true =
        (((encode message).length : Int), bus') ∧
      (bus.count < busQueueSize → ∃ frame,
        Holds busQueueSize (ring bus') (pending ++ [frame]) ∧
        ((encode message).length ≤ 121 →
          handleFrame (frameBytes frame) = some ((chatIdx : Int), rstrip message))) ∧
      (busQueueSize ≤ bus.count → bus' = bus) := by
  refine ⟨busEnqueueOutgoing bus chatIdx (encode message), ?_, fun hroom => ?_, fun hfull => ?_⟩
  · simp [chatWriteBus, chatWriteTmp, Nat.not_le.mpr hlength]
  · refine ⟨outFrame chatIdx (encode message), ?_, handleFrame_outFrame hidx hzero⟩
    rw [ring_busEnqueueOutgoing (Nat.not_le.mpr hroom)]
    exact hholds.push hroom _
  · rw [busEnqueueOutgoing, if_pos hfull]

theorem outgoing_delivered_empty :
    ∃ bus', chatWriteBus ⟨fun _ => ⟨[], 0⟩, 0, 0, 0⟩ 3 (encode ['h', 'i']) true =
        (((encode ['h', 'i']).length : Int), bus') ∧
      (0 < busQueueSize → ∃ frame,
        Holds busQueueSize (ring bus') ([] ++ [frame]) ∧
        ((encode ['h', 'i']).length ≤ 121 →
          handleFrame (frameBytes frame) = some (((3 : ℕ) : Int), rstrip ['h', 'i']))) ∧
      (busQueueSize ≤ 0 → bus' = ⟨fun _ => ⟨[], 0⟩, 0, 0, 0⟩) :=
  outgoing_delivered 3 (by decide) ['h', 'i'] (by decide) (by decide) _ []
    (Holds.nil (by decide : 0 < busQueueSize) _)

/-- A write that finds the queue full succeeds without a frame, and a message of
122 bytes is cut. -/
theorem not_outgoing_delivered_unconditionally :
    (¬ ∀ (chatIdx : ℕ) (message : List Char) (bus bus' : TgBusDev) (pending : List BusMessage)
      (ret : Int), chatIdx < maxChats → '\x00' ∉ message →
      (encode message).length < msgBuffSize → Holds busQueueSize (ring bus) pending →
      chatWriteBus bus chatIdx (encode message) true = (ret, bus') → 0 ≤ ret →
      ∃ frame, Holds busQueueSize (ring bus') (pending ++ [frame])) ∧
    ¬ ∀ (chatIdx : ℕ) (message : List Char), chatIdx < maxChats → '\x00' ∉ message →
      (encode message).length < msgBuffSize →
      handleFrame (frameBytes (outFrame chatIdx (encode message))) =
        some ((chatIdx : Int), rstrip message) := by
  constructor
  · intro hclaim
    have hfull : Holds busQueueSize (ring ⟨fun _ => ⟨[], 0⟩, 32, 0, 0⟩)
        (List.replicate 32 ⟨[], 0⟩) := by
      refine ⟨by decide, rfl, by decide, rfl, fun i hi => ?_⟩
      rw [List.getElem_replicate]
      rfl
    obtain ⟨frame, hframe⟩ := hclaim 0 ['h', 'i'] _ ⟨fun _ => ⟨[], 0⟩, 32, 0, 0⟩ _ 2
      (by decide) (by decide) (by decide) hfull rfl (by decide)
    have hcount := hframe.count_eq
    rw [List.length_append, List.length_replicate, List.length_singleton] at hcount
    exact absurd hcount (by decide)
  · intro hclaim
    have hmessage := hclaim 0 (List.replicate 121 'a' ++ ['a']) (by decide) (by decide)
      (by decide +kernel)
    rw [handleFrame_outFrame_cut (by decide) (by decide) (by decide +kernel)] at hmessage
    exact absurd hmessage (by decide +kernel)

end DoomsdayModules.Telegram.Outgoing
