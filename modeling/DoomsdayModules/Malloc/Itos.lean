import DoomsdayModules.Core.ByteMemory
import DoomsdayModules.Core.KernelText
import Mathlib.Data.Nat.Log

/-!
# Decimal conversion

`itos` of `util.c` first looks for the largest power of ten that does not
exceed the number, in 32-bit arithmetic, and then divides the number by the
falling powers.  Both loops get the number of their steps as fuel; `none` is a
loop that still runs, or a division by zero.
-/

namespace DoomsdayModules.Itos

open DoomsdayModules.ByteMemory DoomsdayModules.KernelText

/-- `while (num / denum >= 10) denum *= 10`. -/
def denumLoop (num : ℕ) : ℕ → ℕ → Option ℕ
  | 0, _ => none
  | fuel + 1, denum =>
      if denum = 0 then none
      else if 10 ≤ num / denum then denumLoop num fuel (denum * 10 % 2 ^ 32) else some denum

/-- The second loop and the store of the terminating zero behind it. -/
def digitLoop (num str : ℕ) : ℕ → Memory → ℕ → ℕ → Option Memory
  | 0, _, _, _ => none
  | fuel + 1, memory, denum, i =>
      if denum = 0 then some (writeByte memory (str + i) 0)
      else
        let memory := writeByte memory (str + i) (digitChar (num / denum % 10))
        digitLoop num str fuel memory (denum / 10) (i + 1)

def itos (fuel num str : ℕ) (memory : Memory) : Option Memory :=
  if num = 0 then some (writeByte (writeByte memory str (digitChar 0)) (str + 1) 0)
  else (denumLoop num fuel 1).bind fun denum => digitLoop num str fuel memory denum 0

/-! ## The denominator -/

/-- Where the test of the first loop holds, the product is no larger than the
number. -/
theorem denum_mul_ten_le {num denum : ℕ} (htest : 10 ≤ num / denum) : denum * 10 ≤ num :=
  (Nat.mul_le_mul_left denum htest).trans (Nat.mul_div_le num denum)

theorem denumLoop_eq {num fuel exponent : ℕ} (hnum : num ≠ 0) (hword : num < 2 ^ 32)
    (hstart : exponent ≤ Nat.log 10 num) (hfuel : Nat.log 10 num < exponent + fuel) :
    denumLoop num fuel (10 ^ exponent) = some (10 ^ Nat.log 10 num) := by
  induction fuel generalizing exponent with
  | zero => omega
  | succ fuel ih =>
      have hpositive : 0 < 10 ^ exponent := Nat.pow_pos (by norm_num)
      have htest : 10 ≤ num / 10 ^ exponent ↔ exponent + 1 ≤ Nat.log 10 num := by
        rw [Nat.le_div_iff_mul_le hpositive, Nat.le_log_iff_pow_le (by norm_num) hnum, pow_succ']
      rw [denumLoop, if_neg hpositive.ne']
      by_cases hmore : 10 ≤ num / 10 ^ exponent
      · have hproduct := denum_mul_ten_le hmore
        rw [if_pos hmore, Nat.mod_eq_of_lt (hproduct.trans_lt hword), ← pow_succ]
        exact ih (htest.mp hmore) (by omega)
      · rw [if_neg hmore]
        rw [htest] at hmore
        congr 2
        omega

/-! ## The digits -/

/-- The last `count` decimal digits of a number, the most significant first. -/
def lastDigits (num : ℕ) : ℕ → Text
  | 0 => []
  | count + 1 => digitChar (num / 10 ^ count % 10) :: lastDigits num count

/-- The memory holds the C string `text` at the address. -/
def HoldsString (memory : Memory) : ℕ → Text → Prop
  | address, [] => memory address = 0
  | address, c :: text => c ≠ 0 ∧ memory address = c ∧ HoldsString memory (address + 1) text

theorem length_lastDigits (num count : ℕ) : (lastDigits num count).length = count := by
  induction count with
  | zero => rfl
  | succ count ih => rw [lastDigits, List.length_cons, ih]

theorem isDigit_of_mem_lastDigits {num count : ℕ} :
    ∀ c ∈ lastDigits num count, isDigit c = true := by
  induction count with
  | zero => simp [lastDigits]
  | succ count ih =>
      intro c hc
      rcases List.mem_cons.mp hc with rfl | hc
      · exact isDigit_digitChar (Nat.mod_lt _ (by norm_num))
      · exact ih c hc

/-- Reading on from a value appends the last digits to it. -/
theorem foldl_lastDigits (num count value : ℕ) :
    (lastDigits num count).foldl (fun value c => 10 * value + (c.toNat - 48)) value =
      value * 10 ^ count + num % 10 ^ count := by
  induction count generalizing value with
  | zero => simp [lastDigits, Nat.mod_one]
  | succ count ih =>
      have hdigit : num / 10 ^ count % 10 < 10 := Nat.mod_lt _ (by norm_num)
      rw [lastDigits, List.foldl_cons, ih, digitChar_toNat hdigit, Nat.add_sub_cancel_left,
        Nat.mod_pow_succ, pow_succ]
      ring

theorem digitsValue_lastDigits {num count : ℕ} (hnum : num < 10 ^ count) :
    digitsValue (lastDigits num count) = num := by
  rw [digitsValue, foldl_lastDigits, Nat.mod_eq_of_lt hnum, Nat.zero_mul, Nat.zero_add]

/-- The first of all digits of a positive number is not zero. -/
theorem head_lastDigits {num : ℕ} (hnum : num ≠ 0) :
    (lastDigits num (Nat.log 10 num + 1)).head? ≠ some (digitChar 0) := by
  have hlower : 1 ≤ num / 10 ^ Nat.log 10 num :=
    Nat.div_pos (Nat.pow_log_le_self 10 hnum) (Nat.pow_pos (by norm_num))
  have hupper : num / 10 ^ Nat.log 10 num < 10 := by
    rw [Nat.div_lt_iff_lt_mul (Nat.pow_pos (by norm_num)), ← pow_succ']
    exact Nat.lt_pow_succ_log_self (by norm_num) num
  rw [lastDigits, Nat.mod_eq_of_lt hupper, List.head?_cons, Ne, Option.some.injEq]
  intro hsame
  have hvalue := congrArg UInt8.toNat hsame
  rw [digitChar_toNat hupper, digitChar_toNat (by norm_num)] at hvalue
  omega

/-- The digit loop stores the digits that are left and a zero behind them, and
nothing in front of them or beyond. -/
theorem digitLoop_eq {num str fuel count i : ℕ} {memory : Memory} (hfuel : count < fuel) :
    ∃ after, digitLoop num str fuel memory (10 ^ count / 10) i = some after ∧
      (UnchangedOutside memory after fun query =>
        str + i ≤ query ∧ query < str + i + (count + 1)) ∧
      HoldsString after (str + i) (lastDigits num count) := by
  induction count generalizing fuel memory i with
  | zero =>
      obtain ⟨fuel, rfl⟩ := Nat.exists_eq_succ_of_ne_zero (Nat.ne_of_gt hfuel)
      refine ⟨writeByte memory (str + i) 0, rfl, ?_, writeByte_same _ _ _⟩
      intro query houtside
      exact writeByte_of_ne (by omega)
  | succ count ih =>
      obtain ⟨fuel, rfl⟩ := Nat.exists_eq_succ_of_ne_zero (Nat.ne_of_gt (Nat.zero_lt_of_lt hfuel))
      have hpositive : 0 < 10 ^ count := Nat.pow_pos (by norm_num)
      have hdenum : 10 ^ (count + 1) / 10 = 10 ^ count := by
        rw [pow_succ, Nat.mul_div_cancel _ (by norm_num)]
      have hdigit : num / 10 ^ count % 10 < 10 := Nat.mod_lt _ (by norm_num)
      obtain ⟨after, hloop, hout, hholds⟩ := @ih fuel (i + 1)
        (writeByte memory (str + i) (digitChar (num / 10 ^ count % 10))) (by omega)
      refine ⟨after, ?_, ?_, ?_, ?_, hholds⟩
      · rw [digitLoop, hdenum, if_neg hpositive.ne']
        exact hloop
      · intro query houtside
        rw [hout query (by omega)]
        exact writeByte_of_ne (by omega)
      · exact (ne_of_isDigit (isDigit_digitChar hdigit)).1
      · rw [hout _ (by omega)]
        exact writeByte_same _ _ _

/-! ## The conversion -/

theorem itos_zero (fuel str : ℕ) (memory : Memory) :
    ∃ after, itos fuel 0 str memory = some after ∧
      (UnchangedOutside memory after fun query => str ≤ query ∧ query < str + 2) ∧
      HoldsString after str [digitChar 0] := by
  refine ⟨_, rfl, ?_, by decide, ?_, writeByte_same _ _ _⟩
  · intro query houtside
    rw [writeByte_of_ne (by omega), writeByte_of_ne (by omega)]
  · rw [writeByte_of_ne (by omega)]
    exact writeByte_same _ _ _

theorem log_lt_ten {num : ℕ} (hword : num < 2 ^ 32) : Nat.log 10 num < 10 := by
  apply Nat.log_lt_of_lt_pow' (by norm_num)
  exact hword.trans (by norm_num)

/-- `itos` of a 32-bit number: within eleven steps of each loop and without a
product that leaves 32 bits it stores, in at most eleven bytes, a C string of
digits without a leading zero that reads back as the number. -/
theorem itos_decimalString {num fuel : ℕ} (hword : num < 2 ^ 32) (hfuel : 11 ≤ fuel)
    (memory : Memory) (str : ℕ) :
    (∀ denum, 10 ≤ num / denum → denum * 10 < 2 ^ 32) ∧
      ∃ after text, itos fuel num str memory = some after ∧
        (UnchangedOutside memory after fun query => str ≤ query ∧ query < str + 11) ∧
        HoldsString after str text ∧ text.length ≤ 10 ∧ text ≠ [] ∧
        (∀ c ∈ text, isDigit c = true) ∧
        (text.head? = some (digitChar 0) → text = [digitChar 0]) ∧
        digitsValue text = num := by
  refine ⟨fun denum htest => (denum_mul_ten_le htest).trans_lt hword, ?_⟩
  by_cases hnum : num = 0
  · subst hnum
    obtain ⟨after, hresult, hout, hholds⟩ := itos_zero fuel str memory
    refine ⟨after, [digitChar 0], hresult, ?_, hholds, by simp, List.cons_ne_nil _ _, ?_,
      fun _ => rfl, rfl⟩
    · exact hout.mono fun query hquery => by omega
    · intro c hc
      rw [List.mem_singleton.mp hc]
      exact isDigit_digitChar (by norm_num)
  · have hlog := log_lt_ten hword
    have hdenum : denumLoop num fuel (10 ^ 0) = _ :=
      denumLoop_eq hnum hword (Nat.zero_le _) (by omega)
    obtain ⟨after, hloop, hout, hholds⟩ :=
      @digitLoop_eq num str fuel (Nat.log 10 num + 1) 0 memory (by omega)
    rw [pow_succ, Nat.mul_div_cancel _ (by norm_num)] at hloop
    refine ⟨after, lastDigits num (Nat.log 10 num + 1), ?_, ?_, hholds, ?_, ?_,
      isDigit_of_mem_lastDigits, fun hhead => absurd hhead (head_lastDigits hnum), ?_⟩
    · rw [itos, if_neg hnum, ← pow_zero 10, hdenum, Option.bind_some]
      exact hloop
    · exact hout.mono fun query hquery => by omega
    · rw [length_lastDigits]
      omega
    · simp [lastDigits]
    · exact digitsValue_lastDigits (Nat.lt_pow_succ_log_self (by norm_num) num)

/-- The largest number has ten digits. -/
theorem itos_decimalString_max :
    ∃ after text, itos 11 4294967295 4096 (fun _ => 0xFF) = some after ∧
      HoldsString after 4096 text ∧ digitsValue text = 4294967295 := by
  obtain ⟨-, after, text, hresult, -, hholds, -, -, -, -, hvalue⟩ :=
    @itos_decimalString 4294967295 11 (by norm_num) le_rfl (fun _ => 0xFF) 4096
  exact ⟨after, text, hresult, hholds, hvalue⟩

end DoomsdayModules.Itos
