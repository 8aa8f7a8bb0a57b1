import Mathlib.Data.List.TakeWhile
import Mathlib.Data.Nat.Digits.Defs
import Mathlib.Tactic

/-!
# Text in the kernel

A C string is the bytes before the first zero of a buffer.  The functions below
are those of the kernel's string library on such strings: bounded printing,
copying and splitting, and the conversion of a decimal number.
-/

namespace DoomsdayModules.KernelText

abbrev Text := List UInt8

/-- The C string at the start of a buffer that holds `bytes` and a zero. -/
def cstr (bytes : Text) : Text := bytes.takeWhile (· ≠ 0)

/-- What `scnprintf` stores of `text` before the terminating zero; its result is
the number of these bytes.  A size above `INT_MAX` is rejected. -/
def scnprintf (size : ℕ) (text : Text) : Text :=
  if size = 0 ∨ 2 ^ 31 ≤ size then [] else text.take (size - 1)

/-- What `strscpy` stores of `text` before the terminating zero. -/
def strscpy (text : Text) (size : ℕ) : Text := text.take (size - 1)

/-- `strsep` with one delimiter: the token, and what is left to be split. -/
def strsep (delimiter : UInt8) : Option Text → Option Text × Option Text
  | none => (none, none)
  | some text =>
      (some (text.takeWhile (· ≠ delimiter)),
        if delimiter ∈ text then some (text.dropWhile (· ≠ delimiter)).tail else none)

/-! ## Numbers -/

def digitChar (digit : ℕ) : UInt8 := UInt8.ofNat (48 + digit)

/-- `%d` of a natural number. -/
def decimal (n : ℕ) : Text :=
  if n = 0 then [digitChar 0] else ((Nat.digits 10 n).map digitChar).reverse

/-- `%d` of an integer. -/
def decimalInt (i : Int) : Text :=
  if i < 0 then 0x2D :: decimal i.natAbs else decimal i.natAbs

def isDigit (c : UInt8) : Bool := 0x30 ≤ c && c ≤ 0x39

/-- The value of a string of digits. -/
def digitsValue (digits : Text) : ℕ := digits.foldl (fun value c => 10 * value + (c.toNat - 48)) 0

/-- `_kstrtoull` with base 10 and without its bound: at least one digit, and
nothing behind the digits but one newline. -/
def parseDigits (text : Text) : Option ℕ :=
  let digits := text.takeWhile (isDigit ·)
  let rest := text.dropWhile (isDigit ·)
  if digits = [] then none
  else if rest = [] ∨ rest = [0x0A] then some (digitsValue digits) else none

/-- `kstrtoint` with base 10, `none` for its errors: a sign, digits, and a value
in the range of an `int`. -/
def kstrtoint (text : Text) : Option Int :=
  match text with
  | 0x2D :: rest =>
      (parseDigits rest).bind fun n => if n ≤ 2 ^ 31 then some (-(n : Int)) else none
  | 0x2B :: rest => (parseDigits rest).bind fun n => if n < 2 ^ 31 then some (n : Int) else none
  | text => (parseDigits text).bind fun n => if n < 2 ^ 31 then some (n : Int) else none

/-! ## Tokens -/

section Token

variable {α : Type*} [DecidableEq α] {delimiter : α} {token : List α}

/-- A token without the delimiter is all in front of it. -/
theorem takeWhile_append_token (htoken : delimiter ∉ token) (rest : List α) :
    (token ++ rest).takeWhile (· ≠ delimiter) = token ++ rest.takeWhile (· ≠ delimiter) := by
  apply List.takeWhile_append_of_pos
  intro c hc
  simp only [ne_eq, decide_eq_true_eq]
  rintro rfl
  exact htoken hc

theorem takeWhile_token (htoken : delimiter ∉ token) {rest : List α} :
    (token ++ delimiter :: rest).takeWhile (· ≠ delimiter) = token := by
  rw [takeWhile_append_token htoken, List.takeWhile_cons_of_neg (by simp), List.append_nil]

theorem dropWhile_token (htoken : delimiter ∉ token) {rest : List α} :
    (token ++ delimiter :: rest).dropWhile (· ≠ delimiter) = delimiter :: rest := by
  have hsplit := List.takeWhile_append_dropWhile (p := fun c => decide (c ≠ delimiter))
    (l := token ++ delimiter :: rest)
  rw [takeWhile_token htoken] at hsplit
  exact List.append_cancel_left hsplit

end Token

/-! ## C strings -/

theorem cstr_ne_zero {bytes : Text} : ∀ c ∈ cstr bytes, c ≠ 0 := by
  intro c hc
  simpa using List.mem_takeWhile_imp hc

theorem cstr_eq_self {bytes : Text} (hbytes : ∀ c ∈ bytes, c ≠ 0) : cstr bytes = bytes :=
  List.takeWhile_eq_self_iff.mpr fun c hc => by simpa using hbytes c hc

theorem cstr_eq_self_iff {bytes : Text} : cstr bytes = bytes ↔ 0 ∉ bytes := by
  constructor
  · intro hsame hzero
    rw [← hsame] at hzero
    exact cstr_ne_zero 0 hzero rfl
  · intro hzero
    exact cstr_eq_self fun c hc => by
      rintro rfl
      exact hzero hc

/-- Bytes without a zero are all in the string. -/
theorem cstr_append {head : Text} (hhead : 0 ∉ head) (rest : Text) :
    cstr (head ++ rest) = head ++ cstr rest :=
  takeWhile_append_token hhead rest

theorem cstr_zero_cons (rest : Text) : cstr (0 :: rest) = [] :=
  List.takeWhile_cons_of_neg (by simp)

theorem length_cstr_le (bytes : Text) : (cstr bytes).length ≤ bytes.length :=
  (List.takeWhile_prefix _).length_le

/-- The C string is as long as the buffer exactly if the buffer has no zero. -/
theorem length_le_cstr_iff {bytes : Text} : bytes.length ≤ (cstr bytes).length ↔ 0 ∉ bytes := by
  rw [← cstr_eq_self_iff]
  constructor
  · exact fun hle => (List.takeWhile_prefix _).eq_of_length_le hle
  · exact fun hsame => (congrArg List.length hsame).ge

theorem length_scnprintf_lt {size : ℕ} (text : Text) (hsize : 0 < size) :
    (scnprintf size text).length < size := by
  rw [scnprintf]
  split
  · exact hsize
  · rw [List.length_take]
    omega

theorem scnprintf_eq_take {size : ℕ} (text : Text) (hpos : 0 < size) (hsize : size < 2 ^ 31) :
    scnprintf size text = text.take (size - 1) := by
  rw [scnprintf, if_neg (by omega)]

/-- A line that is not longer than the whole is stored as the whole exactly if it
is the whole and fits. -/
theorem take_eq_iff {line whole : Text} {room : ℕ} (hlength : line.length ≤ whole.length) :
    line.take room = whole ↔ line = whole ∧ whole.length ≤ room := by
  constructor
  · intro htake
    have hroom := congrArg List.length htake
    rw [List.length_take] at hroom
    have hline : line.take room = line := List.take_of_length_le (by omega)
    exact ⟨hline ▸ htake, by omega⟩
  · rintro ⟨rfl, hroom⟩
    exact List.take_of_length_le hroom

/-! ## Splitting -/

/-- A token and a delimiter in front of the rest are split there. -/
theorem strsep_append {delimiter : UInt8} {token rest : Text} (htoken : delimiter ∉ token) :
    strsep delimiter (some (token ++ delimiter :: rest)) = (some token, some rest) := by
  rw [strsep, takeWhile_token htoken, dropWhile_token htoken, if_pos (by simp)]
  rfl

/-! ## Printed numbers -/

theorem digitChar_toNat {digit : ℕ} (hdigit : digit < 10) : (digitChar digit).toNat = 48 + digit := by
  interval_cases digit <;> rfl

theorem isDigit_digitChar {digit : ℕ} (hdigit : digit < 10) : isDigit (digitChar digit) = true := by
  interval_cases digit <;> rfl

theorem isDigit_of_mem_decimal {n : ℕ} : ∀ c ∈ decimal n, isDigit c = true := by
  intro c hc
  rw [decimal] at hc
  split at hc
  · rw [List.mem_singleton.mp hc]
    exact isDigit_digitChar (by norm_num)
  · rw [List.mem_reverse] at hc
    obtain ⟨digit, hdigit, rfl⟩ := List.mem_map.mp hc
    exact isDigit_digitChar (Nat.digits_lt_base (by norm_num) hdigit)

theorem decimal_ne_nil (n : ℕ) : decimal n ≠ [] := by
  rw [decimal]
  split
  · simp
  · rename_i hn
    simpa using Nat.digits_ne_nil_iff_ne_zero.mpr hn

theorem digitsValue_append (digits : Text) (c : UInt8) :
    digitsValue (digits ++ [c]) = 10 * digitsValue digits + (c.toNat - 48) := by
  simp [digitsValue]

theorem digitsValue_reverse_map {digits : List ℕ} (hdigits : ∀ digit ∈ digits, digit < 10) :
    digitsValue (digits.map digitChar).reverse = Nat.ofDigits 10 digits := by
  induction digits with
  | nil => rfl
  | cons digit digits ih =>
      have hdigit := digitChar_toNat (hdigits digit (by simp))
      rw [List.map_cons, List.reverse_cons, digitsValue_append,
        ih fun d hd => hdigits d (List.mem_cons_of_mem digit hd), Nat.ofDigits_cons, hdigit]
      omega

theorem digitsValue_decimal (n : ℕ) : digitsValue (decimal n) = n := by
  rw [decimal]
  split
  · rename_i hn
    rw [hn]
    rfl
  · rw [digitsValue_reverse_map fun digit hdigit => Nat.digits_lt_base (by norm_num) hdigit,
      Nat.ofDigits_digits]

/-- Printed numbers are read back, also with a newline behind them. -/
theorem parseDigits_decimal (n : ℕ) : parseDigits (decimal n) = some n := by
  have htake : (decimal n).takeWhile (isDigit ·) = decimal n :=
    List.takeWhile_eq_self_iff.mpr isDigit_of_mem_decimal
  have hdrop : (decimal n).dropWhile (isDigit ·) = [] :=
    List.dropWhile_eq_nil_iff.mpr isDigit_of_mem_decimal
  simp only [parseDigits, htake, hdrop, if_neg (decimal_ne_nil n), true_or, if_true,
    digitsValue_decimal]

theorem ne_of_isDigit {c : UInt8} (hc : isDigit c = true) :
    c ≠ 0 ∧ c ≠ 0x2D ∧ c ≠ 0x2B ∧ c ≠ 0x7C := by
  refine ⟨?_, ?_, ?_, ?_⟩ <;> rintro rfl <;> exact absurd hc (by decide)

theorem zero_not_mem_decimal (n : ℕ) : 0 ∉ decimal n := fun hmem =>
  (ne_of_isDigit (isDigit_of_mem_decimal 0 hmem)).1 rfl

theorem kstrtoint_decimal_eq (n : ℕ) :
    kstrtoint (decimal n) = if n < 2 ^ 31 then some (n : Int) else none := by
  have hparse := parseDigits_decimal n
  cases htext : decimal n with
  | nil => exact absurd htext (decimal_ne_nil n)
  | cons c rest =>
      have hdigit := ne_of_isDigit (isDigit_of_mem_decimal c (by rw [htext]; simp))
      rw [htext] at hparse
      rw [kstrtoint]
      · rw [hparse, Option.bind_some]
      · rintro _ ⟨⟩
        exact hdigit.2.1 rfl
      · rintro _ ⟨⟩
        exact hdigit.2.2.1 rfl

theorem kstrtoint_decimal {n : ℕ} (hn : n < 2 ^ 31) : kstrtoint (decimal n) = some (n : Int) := by
  rw [kstrtoint_decimal_eq, if_pos hn]

theorem decimalInt_ne_zero {i : Int} : ∀ c ∈ decimalInt i, c ≠ 0 := by
  intro c hc
  have hdecimal : ∀ d ∈ decimal i.natAbs, d ≠ 0 := fun d hd =>
    (ne_of_isDigit (isDigit_of_mem_decimal d hd)).1
  rw [decimalInt] at hc
  split at hc
  · rcases List.mem_cons.mp hc with rfl | hrest
    · decide
    · exact hdecimal c hrest
  · exact hdecimal c hc

end DoomsdayModules.KernelText
