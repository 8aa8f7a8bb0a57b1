import DoomsdayModules.Core.Utf8
import DoomsdayModules.Telegram.Devices
import Mathlib.Data.List.DropRight

/-!
# The daemon's side of the bus

The daemon writes lines for the kernel and reads its frames as text.  Strings
are lists of characters; the functions are those of the daemon and of the
language's standard library that it applies to a frame or a line.
-/

namespace DoomsdayModules.Telegram.Daemon

open DoomsdayModules.KernelText DoomsdayModules.Utf8 DoomsdayModules.Telegram.Devices

/-! ## Strings -/

/-- The white space that `str.strip` removes. -/
def isSpace (c : Char) : Bool :=
  let n := c.toNat
  (0x09 ≤ n && n ≤ 0x0D) || (0x1C ≤ n && n ≤ 0x20) || n == 0x85 || n == 0xA0 || n == 0x1680 ||
    (0x2000 ≤ n && n ≤ 0x200A) || n == 0x2028 || n == 0x2029 || n == 0x202F || n == 0x205F ||
    n == 0x3000

def rstrip (text : List Char) : List Char := text.rdropWhile isSpace

def strip (text : List Char) : List Char := rstrip (text.dropWhile isSpace)

/-- `text.split(separator, maxsplit)`. -/
def split (separator : Char) : ℕ → List Char → List (List Char)
  | 0, text => [text]
  | maxsplit + 1, text =>
      if separator ∈ text then
        text.takeWhile (· ≠ separator) ::
          split separator maxsplit (text.dropWhile (· ≠ separator)).tail
      else [text]

/-- The digits of `int(text)`, which single underscores may separate; those of
other scripts than ASCII do not occur in a frame. -/
def intDigits : Bool → ℕ → List Char → Option ℕ
  | afterDigit, value, [] => if afterDigit then some value else none
  | afterDigit, value, c :: rest =>
      if '0' ≤ c ∧ c ≤ '9' then intDigits true (10 * value + (c.toNat - 48)) rest
      else if c = '_' ∧ afterDigit then intDigits false value rest
      else none

/-- `int(text)`, `none` for a `ValueError`. -/
def pyInt (text : List Char) : Option Int :=
  match strip text with
  | '-' :: rest => (intDigits false 0 rest).map fun n => -(n : Int)
  | '+' :: rest => (intDigits false 0 rest).map fun n => (n : Int)
  | rest => (intDigits false 0 rest).map fun n => (n : Int)

/-- An integer in a formatted string. -/
def formatInt (i : Int) : List Char := ascii (decimalInt i)

/-! ## Lines for the kernel -/

/-- The bytes `bus_write` writes for a line. -/
def busLine (line : List Char) : Text := encode (line ++ ['\n'])

/-- The line of `bus_inject_message`. -/
def injectLine (chatIdx : ℕ) (sender text : List Char) : Text :=
  busLine ("IN|".toList ++ formatInt chatIdx ++ ['|'] ++ sender ++ ['|'] ++ text)

/-- The line of `bus_set_chat_id`. -/
def setLine (chatIdx : ℕ) (tgChatId : Int) : Text :=
  busLine ("SET|".toList ++ formatInt chatIdx ++ ['|'] ++ formatInt tgChatId)

/-! ## Frames from the kernel -/

/-- The parser of `handle_outgoing`: the chat index and the message. -/
def parseOutgoing (line : List Char) : Option (Int × List Char) :=
  match split '|' 2 line with
  | [cmd, idxStr, message] =>
      if cmd = "OUT".toList then (pyInt idxStr).map fun chatIdx => (chatIdx, message) else none
  | _ => none

/-- What `outgoing_loop` makes of the bytes it read. -/
def handleFrame (raw : Text) : Option (Int × List Char) :=
  parseOutgoing (strip (decodeReplace raw))

/-! ## Formatted numbers -/

theorem isDigit_lt {c : UInt8} (hc : isDigit c = true) : c < 0x80 := by
  have hall : ∀ n : Fin 256, isDigit (UInt8.ofFin n) = true → UInt8.ofFin n < 0x80 := by
    decide +kernel
  exact hall c.toFin hc

theorem decimalInt_lt {i : Int} : ∀ c ∈ decimalInt i, c < 0x80 := by
  have hdecimal : ∀ c ∈ decimal i.natAbs, c < 0x80 := fun c hc =>
    isDigit_lt (isDigit_of_mem_decimal c hc)
  intro c hc
  rw [decimalInt] at hc
  split at hc
  · rcases List.mem_cons.mp hc with rfl | hrest
    · decide
    · exact hdecimal c hrest
  · exact hdecimal c hc

theorem encode_formatInt (i : Int) : encode (formatInt i) = decimalInt i :=
  encode_ascii decimalInt_lt

theorem decimalInt_natCast (n : ℕ) : decimalInt n = decimal n := by
  rw [decimalInt, if_neg (by omega), Int.natAbs_natCast]

theorem encode_bar_cons (rest : List Char) : encode ('|' :: rest) = bar :: encode rest := rfl

theorem encode_newline : encode ['\n'] = [newline] := rfl

/-- The bytes of an injected message. -/
theorem injectLine_eq (chatIdx : ℕ) (sender text : List Char) :
    injectLine chatIdx sender text =
      [0x49, 0x4E] ++ bar :: (decimal chatIdx ++ bar ::
        (encode sender ++ bar :: (encode text ++ [newline]))) := by
  have hin : encode "IN|".toList = [0x49, 0x4E, bar] := by decide +kernel
  simp only [injectLine, busLine, encode_append, hin, encode_bar_cons, encode_newline,
    encode_formatInt, decimalInt_natCast, List.append_assoc, List.cons_append, List.nil_append]

theorem setLine_eq (chatIdx : ℕ) (tgChatId : Int) :
    setLine chatIdx tgChatId =
      [0x53, 0x45, 0x54] ++ bar :: (decimal chatIdx ++ bar ::
        (decimalInt tgChatId ++ [newline])) := by
  have hset : encode "SET|".toList = [0x53, 0x45, 0x54, bar] := by decide +kernel
  simp only [setLine, busLine, encode_append, hset, encode_bar_cons, encode_newline,
    encode_formatInt, decimalInt_natCast, List.append_assoc, List.cons_append, List.nil_append]

theorem char_of_isDigit {c : UInt8} (hc : isDigit c = true) :
    '0' ≤ Char.ofNat c.toNat ∧ Char.ofNat c.toNat ≤ '9' ∧
      (Char.ofNat c.toNat).toNat = c.toNat ∧ isSpace (Char.ofNat c.toNat) = false := by
  have hall : ∀ n : Fin 256, isDigit (UInt8.ofFin n) = true →
      '0' ≤ Char.ofNat (UInt8.ofFin n).toNat ∧ Char.ofNat (UInt8.ofFin n).toNat ≤ '9' ∧
        (Char.ofNat (UInt8.ofFin n).toNat).toNat = (UInt8.ofFin n).toNat ∧
        isSpace (Char.ofNat (UInt8.ofFin n).toNat) = false := by
    decide +kernel
  exact hall c.toFin hc

theorem intDigits_ascii {digits : Text} (hdigits : ∀ c ∈ digits, isDigit c = true) (value : ℕ) :
    intDigits true value (ascii digits) =
      some (digits.foldl (fun value c => 10 * value + (c.toNat - 48)) value) := by
  induction digits generalizing value with
  | nil => rfl
  | cons c digits ih =>
      obtain ⟨hlow, hhigh, hvalue, -⟩ := char_of_isDigit (hdigits c (by simp))
      rw [ascii, List.map_cons, intDigits, if_pos ⟨hlow, hhigh⟩, hvalue, List.foldl_cons]
      exact ih (fun d hd => hdigits d (List.mem_cons_of_mem c hd)) _

/-- Text without white space at its ends is not stripped. -/
theorem strip_eq_self {text : List Char} (htext : ∀ c ∈ text, isSpace c = false) :
    strip text = text := by
  have hdrop : text.dropWhile isSpace = text := by
    rw [List.dropWhile_eq_self_iff]
    intro hl
    simp [htext _ (List.getElem_mem hl)]
  rw [strip, hdrop, rstrip, List.rdropWhile_eq_self_iff]
  intro hl
  simp [htext _ (List.getLast_mem hl)]

/-- A formatted number is read back. -/
theorem pyInt_formatInt (n : ℕ) : pyInt (formatInt n) = some (n : Int) := by
  have hdigit := @isDigit_of_mem_decimal n
  have hvalue := digitsValue_decimal n
  have htext : formatInt n = ascii (decimal n) := by rw [formatInt, decimalInt_natCast]
  have hstrip : strip (ascii (decimal n)) = ascii (decimal n) := by
    apply strip_eq_self
    intro c hc
    obtain ⟨b, hb, rfl⟩ := List.mem_map.mp hc
    exact (char_of_isDigit (hdigit b hb)).2.2.2
  cases hdecimal : decimal n with
  | nil => exact absurd hdecimal (decimal_ne_nil n)
  | cons c rest =>
      rw [hdecimal] at hdigit hvalue hstrip htext
      obtain ⟨hlow, hhigh, hnat, -⟩ := char_of_isDigit (hdigit c (by simp))
      have hdigits : intDigits false 0 (ascii (c :: rest)) = some n := by
        rw [ascii, List.map_cons, intDigits, if_pos ⟨hlow, hhigh⟩, hnat]
        have hrest := intDigits_ascii (fun d hd => hdigit d (List.mem_cons_of_mem c hd))
          (10 * 0 + (c.toNat - 48))
        rw [← hvalue]
        exact hrest
      rw [pyInt, htext, hstrip]
      split
      · rename_i tail hminus
        rw [ascii, List.map_cons, List.cons_eq_cons] at hminus
        rw [hminus.1] at hlow
        exact absurd hlow (by decide)
      · rename_i tail hplus
        rw [ascii, List.map_cons, List.cons_eq_cons] at hplus
        rw [hplus.1] at hlow
        exact absurd hlow (by decide)
      · rw [hdigits]
        rfl

end DoomsdayModules.Telegram.Daemon
