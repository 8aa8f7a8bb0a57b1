import DoomsdayModules.NeuroSwap.Math

/-!
# The recurrent network

Memorising and recalling a page run the same step once for each byte.  Its gates
are values of the activation functions, so one step adds less than one to a
component of the cell, and the hidden state stays inside the unit interval.
-/

namespace DoomsdayModules.NeuroSwap.Inference

open DoomsdayModules.NeuroSwap.Math

def inputSize : ℕ := 1
def hiddenSize : ℕ := 80
def outputSize : ℕ := 1

/-- The arrays of `weights.h`: the matrices row by row. -/
structure Weights where
  Wi : ℕ → ℚ
  Ui : ℕ → ℚ
  bi : Fin hiddenSize → ℚ
  Wf : ℕ → ℚ
  Uf : ℕ → ℚ
  bf : Fin hiddenSize → ℚ
  Wg : ℕ → ℚ
  Ug : ℕ → ℚ
  bg : Fin hiddenSize → ℚ
  Wo : ℕ → ℚ
  Uo : ℕ → ℚ
  bo : Fin hiddenSize → ℚ
  Wy : ℕ → ℚ
  by_ : Fin outputSize → ℚ

structure LSTMState where
  h : Fin hiddenSize → ℚ
  c : Fin hiddenSize → ℚ

/-- What a gate is applied to. -/
def preActivation (W U : ℕ → ℚ) (b : Fin hiddenSize → ℚ) (s : LSTMState)
    (x : Fin inputSize → ℚ) : Fin hiddenSize → ℚ :=
  vecAdd (vecAdd (matvec W x) (matvec U s.h)) b

def gi (w : Weights) (s : LSTMState) (x : Fin inputSize → ℚ) (i : Fin hiddenSize) : ℚ :=
  sigmoid (preActivation w.Wi w.Ui w.bi s x i)

def gf (w : Weights) (s : LSTMState) (x : Fin inputSize → ℚ) (i : Fin hiddenSize) : ℚ :=
  sigmoid (preActivation w.Wf w.Uf w.bf s x i)

def gg (w : Weights) (s : LSTMState) (x : Fin inputSize → ℚ) (i : Fin hiddenSize) : ℚ :=
  ktanhf (preActivation w.Wg w.Ug w.bg s x i)

def go (w : Weights) (s : LSTMState) (x : Fin inputSize → ℚ) (i : Fin hiddenSize) : ℚ :=
  sigmoid (preActivation w.Wo w.Uo w.bo s x i)

/-- `lstm_step`: the new state and the output. -/
def lstmStep (w : Weights) (s : LSTMState) (x : Fin inputSize → ℚ) :
    LSTMState × (Fin outputSize → ℚ) :=
  let c := fun i => gf w s x i * s.c i + gi w s x i * gg w s x i
  let h := fun i => go w s x i * ktanhf (c i)
  (⟨h, c⟩, vecAdd (matvec w.Wy h) w.by_)

def lstmMemorizeSse (w : Weights) (state : LSTMState) (seq : List UInt8) : LSTMState :=
  seq.foldl (fun state byte => (lstmStep w state fun _ => (byte.toNat : ℚ) / 255).1) state

/-- The conversion of a float to a byte, which is undefined out of range. -/
def toByte (v : ℚ) : Option UInt8 :=
  if -1 < v ∧ v < 256 then some (UInt8.ofNat v.floor.toNat) else none

/-- `lstm_recall_sse`: the new state and the bytes recalled. -/
def lstmRecallSse (w : Weights) (state : LSTMState) (len : ℕ) :
    LSTMState × List (Option UInt8) :=
  (List.range len).foldl
    (fun (state, seq) _ =>
      let (state, out) := lstmStep w state fun _ => 0
      (state, seq ++ [toByte (out ⟨0, Nat.one_pos⟩ * 255)]))
    (state, [])

def lstmStateReset : LSTMState := ⟨fun _ => 0, fun _ => 0⟩

/-! ## Runs -/

inductive Call
  | lstmMemorize (seq : List UInt8)
  | lstmRecall (len : ℕ)

/-- How many steps of the network a call takes. -/
def Call.steps : Call → ℕ
  | .lstmMemorize seq => seq.length
  | .lstmRecall len => len

def Call.run (w : Weights) (state : LSTMState) : Call → LSTMState
  | .lstmMemorize seq => lstmMemorizeSse w state seq
  | .lstmRecall len => (lstmRecallSse w state len).1

/-! ## Bounds -/

/-- The bounds on a state after `n` steps. -/
structure Bounded (n : ℕ) (s : LSTMState) : Prop where
  h_lt : ∀ i, |s.h i| < 1
  c_le : ∀ i, |s.c i| ≤ n

theorem bounded_lstmStateReset : Bounded 0 lstmStateReset where
  h_lt := fun i => by simp [lstmStateReset]
  c_le := fun i => by simp [lstmStateReset]

/-- Every gate value is in the range of its activation function. -/
theorem gates_mem (w : Weights) (s : LSTMState) (x : Fin inputSize → ℚ) (i : Fin hiddenSize) :
    (0 < gi w s x i ∧ gi w s x i < 1) ∧ (0 < gf w s x i ∧ gf w s x i < 1) ∧
      (-1 < gg w s x i ∧ gg w s x i < 1) ∧ (0 < go w s x i ∧ go w s x i < 1) :=
  ⟨⟨sigmoid_pos _, sigmoid_lt_one _⟩, ⟨sigmoid_pos _, sigmoid_lt_one _⟩,
    abs_lt.mp (abs_ktanhf_lt_one _), ⟨sigmoid_pos _, sigmoid_lt_one _⟩⟩

theorem Bounded.lstmStep {n : ℕ} {s : LSTMState} (hbounded : Bounded n s) (w : Weights)
    (x : Fin inputSize → ℚ) : Bounded (n + 1) (lstmStep w s x).1 where
  h_lt := by
    intro i
    obtain ⟨-, -, -, hopos, holt⟩ := gates_mem w s x i
    have htanh := abs_ktanhf_lt_one (gf w s x i * s.c i + gi w s x i * gg w s x i)
    calc |go w s x i * ktanhf (gf w s x i * s.c i + gi w s x i * gg w s x i)|
        = go w s x i * |ktanhf (gf w s x i * s.c i + gi w s x i * gg w s x i)| := by
          rw [abs_mul, abs_of_pos hopos]
      _ ≤ go w s x i * 1 := mul_le_mul_of_nonneg_left htanh.le hopos.le
      _ < 1 := by rwa [mul_one]
  c_le := by
    intro i
    obtain ⟨⟨hipos, hilt⟩, ⟨hfpos, hflt⟩, hg, -⟩ := gates_mem w s x i
    calc |gf w s x i * s.c i + gi w s x i * gg w s x i|
        ≤ |gf w s x i * s.c i| + |gi w s x i * gg w s x i| := abs_add_le _ _
      _ = gf w s x i * |s.c i| + gi w s x i * |gg w s x i| := by
          rw [abs_mul, abs_mul, abs_of_pos hfpos, abs_of_pos hipos]
      _ ≤ 1 * n + 1 * 1 := by
          have hc := hbounded.c_le i
          have hgate := (abs_lt.mpr hg).le
          gcongr
      _ = ((n + 1 : ℕ) : ℚ) := by push_cast; ring

/-- A call takes its steps one after the other. -/
theorem Bounded.run {n : ℕ} {s : LSTMState} (hbounded : Bounded n s) (w : Weights) (call : Call) :
    Bounded (n + call.steps) (call.run w s) := by
  cases call with
  | lstmMemorize seq =>
      rw [Call.run, lstmMemorizeSse, Call.steps]
      induction seq generalizing n s with
      | nil => exact hbounded
      | cons byte seq ih =>
          have hstep := ih (hbounded.lstmStep w fun _ => (byte.toNat : ℚ) / 255)
          rw [Nat.add_assoc, Nat.add_comm 1] at hstep
          exact hstep
  | lstmRecall len =>
      rw [Call.run, Call.steps]
      induction len with
      | zero => exact hbounded
      | succ len ih =>
          rw [lstmRecallSse, List.range_succ, List.foldl_append, ← lstmRecallSse]
          exact ih.lstmStep w fun _ => 0

theorem bounded_runs (w : Weights) (calls : List Call) :
    Bounded (calls.map Call.steps).sum (calls.foldl (Call.run w) lstmStateReset) := by
  induction calls using List.reverseRecOn with
  | nil => exact bounded_lstmStateReset
  | append_singleton calls call ih =>
      rw [List.map_append, List.sum_append, List.foldl_append]
      exact ih.run w call

/-- Whatever the weights and the calls are, nothing is divided by zero, the gates
stay open and the state stays bounded. -/
theorem lstm_state_bounded (w : Weights) (calls : List Call) :
    (∀ x, 1 + kexpf (-x) ≠ 0 ∧ kexpf x + kexpf (-x) ≠ 0) ∧
      (∀ s x i, (0 < gi w s x i ∧ gi w s x i < 1) ∧ (0 < gf w s x i ∧ gf w s x i < 1) ∧
        (-1 < gg w s x i ∧ gg w s x i < 1) ∧ (0 < go w s x i ∧ go w s x i < 1)) ∧
      ∀ i, |(calls.foldl (Call.run w) lstmStateReset).h i| < 1 ∧
        |(calls.foldl (Call.run w) lstmStateReset).c i| ≤ (calls.map Call.steps).sum := by
  have hbounded := bounded_runs w calls
  refine ⟨fun x => ?_, gates_mem w, fun i => ⟨hbounded.h_lt i, hbounded.c_le i⟩⟩
  exact ⟨(denominators_pos x).1.ne', (denominators_pos x).2.ne'⟩

end DoomsdayModules.NeuroSwap.Inference
