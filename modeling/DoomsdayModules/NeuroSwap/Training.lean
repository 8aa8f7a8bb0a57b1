import DoomsdayModules.NeuroSwap.Inference
import Mathlib.Algebra.BigOperators.Fin
import Mathlib.LinearAlgebra.Matrix.Defs

/-!
# From the trained parameters to the kernel

The parameters of the trained model are exported as arrays, the stacked weights cut
into the four gates and the two biases of a gate added up, and the inference in the
kernel runs on these arrays.  A step of it is written out in the parameters here: the
gates, the cells and the outputs are sums over the rows that belong to them.  What the
library makes of the same parameters during the training is not part of this.
-/

namespace DoomsdayModules.NeuroSwap.Training

open DoomsdayModules.NeuroSwap.Math DoomsdayModules.NeuroSwap.Inference

/-! ## The parameters -/

/-- `state_dict` of an `EchoLSTM`. -/
structure StateDict where
  weightIhL0 : Matrix (Fin (4 * hiddenSize)) (Fin inputSize) ℚ
  weightHhL0 : Matrix (Fin (4 * hiddenSize)) (Fin hiddenSize) ℚ
  biasIhL0 : Fin (4 * hiddenSize) → ℚ
  biasHhL0 : Fin (4 * hiddenSize) → ℚ
  fcWeight : Matrix (Fin outputSize) (Fin hiddenSize) ℚ
  fcBias : Fin outputSize → ℚ

/-- The gates, in the order in which their parameters are stacked. -/
inductive Gate
  | input
  | forget
  | cell
  | output

/-- The place of a gate in the stacked parameters. -/
def gateIndex : Gate → Fin 4
  | .input => 0
  | .forget => 1
  | .cell => 2
  | .output => 3

/-- The row of the stacked parameters for a component of a gate. -/
def gateRow (gate : Gate) (i : Fin hiddenSize) : Fin (4 * hiddenSize) :=
  finProdFinEquiv (gateIndex gate, i)

/-- The rows of a gate. -/
def gateRows {n : ℕ} (gate : Gate) (A : Matrix (Fin (4 * hiddenSize)) (Fin n) ℚ) :
    Matrix (Fin hiddenSize) (Fin n) ℚ :=
  Matrix.of fun i => A (gateRow gate i)

/-- The two biases of a gate, added up. -/
def gateBias (sd : StateDict) (gate : Gate) (i : Fin hiddenSize) : ℚ :=
  sd.biasIhL0 (gateRow gate i) + sd.biasHhL0 (gateRow gate i)

/-- What the parameters of a gate make of an input and of the last hidden state. -/
def gateSum (sd : StateDict) (gate : Gate) (s : LSTMState) (x : Fin inputSize → ℚ)
    (i : Fin hiddenSize) : ℚ :=
  ∑ j, sd.weightIhL0 (gateRow gate i) j * x j + ∑ j, sd.weightHhL0 (gateRow gate i) j * s.h j +
    gateBias sd gate i

/-- A step of the recurrence, as it is written in the parameters: the state before it,
the input, and the state and the output after it. -/
structure StepsBy (sd : StateDict) (s : LSTMState) (x : Fin inputSize → ℚ)
    (next : LSTMState × (Fin outputSize → ℚ)) : Prop where
  cell : ∀ i, next.1.c i = sigmoid (gateSum sd .forget s x i) * s.c i +
    sigmoid (gateSum sd .input s x i) * ktanhf (gateSum sd .cell s x i)
  hidden : ∀ i, next.1.h i = sigmoid (gateSum sd .output s x i) * ktanhf (next.1.c i)
  output : ∀ i, next.2 i = ∑ j, sd.fcWeight i j * next.1.h j + sd.fcBias i

/-! ## The exported arrays -/

/-- An array of one or of two dimensions. -/
inductive NdArray
  | vector (entries : List ℚ)
  | matrix (rows : List (List ℚ))

/-- The entries in the order in which they are written. -/
def NdArray.entries : NdArray → List ℚ
  | .vector entries => entries
  | .matrix rows => rows.flatten

/-- The rows of a matrix. -/
def toRows {m n : ℕ} (A : Matrix (Fin m) (Fin n) ℚ) : List (List ℚ) :=
  List.ofFn fun i => List.ofFn (A i)

/-- `arr[k*H:(k+1)*H]`. -/
def slice {α : Type} (k : ℕ) (arr : List α) : List α :=
  (arr.take ((k + 1) * hiddenSize)).drop (k * hiddenSize)

/-- The sum of two slices of the biases. -/
def biasSlice (sd : StateDict) (k : ℕ) : List ℚ :=
  List.zipWith (· + ·) (slice k (List.ofFn sd.biasIhL0)) (slice k (List.ofFn sd.biasHhL0))

/-- `arrays` in `format_weights`. -/
def arrays (sd : StateDict) : List (String × NdArray) :=
  let wih := toRows sd.weightIhL0
  let whh := toRows sd.weightHhL0
  [("Wi", .matrix (slice 0 wih)), ("Wf", .matrix (slice 1 wih)),
    ("Wg", .matrix (slice 2 wih)), ("Wo", .matrix (slice 3 wih)),
    ("Ui", .matrix (slice 0 whh)), ("Uf", .matrix (slice 1 whh)),
    ("Ug", .matrix (slice 2 whh)), ("Uo", .matrix (slice 3 whh)),
    ("bi", .vector (biasSlice sd 0)), ("bf", .vector (biasSlice sd 1)),
    ("bg", .vector (biasSlice sd 2)), ("bo", .vector (biasSlice sd 3)),
    ("Wy", .matrix (toRows sd.fcWeight)), ("by", .vector (List.ofFn sd.fcBias))]

/-- The arrays of a header by their names. -/
abbrev Header := List (String × List ℚ)

/-- An element of an array; it is undefined behind the end. -/
def Header.element (header : Header) (name : String) (k : ℕ) : ℚ :=
  ((header.lookup name).getD []).getD k 0

/-- The weights that are compiled in. -/
def Header.weights (header : Header) : Weights where
  Wi := header.element "lstmw_Wi"
  Ui := header.element "lstmw_Ui"
  bi := fun i => header.element "lstmw_bi" i
  Wf := header.element "lstmw_Wf"
  Uf := header.element "lstmw_Uf"
  bf := fun i => header.element "lstmw_bf" i
  Wg := header.element "lstmw_Wg"
  Ug := header.element "lstmw_Ug"
  bg := fun i => header.element "lstmw_bg" i
  Wo := header.element "lstmw_Wo"
  Uo := header.element "lstmw_Uo"
  bo := fun i => header.element "lstmw_bo" i
  Wy := header.element "lstmw_Wy"
  by_ := fun i => header.element "lstmw_by" i

/-- The header with the exported arrays. -/
def exported (sd : StateDict) : Header :=
  (arrays sd).map fun (name, arr) => ("lstmw_" ++ name, arr.entries)

/-! ## The entries of the arrays -/

/-- The entries of a matrix row by row, under one index. -/
theorem flatten_toRows {m n : ℕ} (A : Matrix (Fin m) (Fin n) ℚ) :
    (toRows A).flatten = List.ofFn fun k : Fin (m * n) =>
      A (finProdFinEquiv.symm k).1 (finProdFinEquiv.symm k).2 := by
  rw [List.ofFn_mul, toRows]
  congr 2
  funext i
  congr 1
  funext j
  have hplace : (⟨i * n + j, by
      calc i * n + j < (i + 1) * n := by rw [Nat.succ_mul]; omega
        _ ≤ m * n := Nat.mul_le_mul_right n i.isLt⟩ : Fin (m * n)) = finProdFinEquiv (i, j) :=
    Fin.ext (by simp [Nat.add_comm, Nat.mul_comm])
  rw [hplace, Equiv.symm_apply_apply]

/-- An entry of a matrix stands at its place in the array. -/
theorem getD_toRows {m n : ℕ} (A : Matrix (Fin m) (Fin n) ℚ) (i : Fin m) (j : Fin n) :
    (toRows A).flatten.getD (i * n + j) 0 = A i j := by
  have hplace : (finProdFinEquiv (i, j) : ℕ) = i * n + j := by simp [Nat.add_comm, Nat.mul_comm]
  have hlt := (finProdFinEquiv (i, j)).isLt
  rw [← hplace, flatten_toRows, List.getD_eq_getElem _ _ (by rwa [List.length_ofFn]),
    List.getElem_ofFn, Fin.eta, Equiv.symm_apply_apply]

theorem getD_ofFn {n : ℕ} (f : Fin n → ℚ) (i : Fin n) : (List.ofFn f).getD i 0 = f i := by
  rw [List.getD_eq_getElem _ _ (by rw [List.length_ofFn]; exact i.isLt), List.getElem_ofFn]

/-- The entries of a matrix row by row. -/
def rowByRow {m n : ℕ} (A : Matrix (Fin m) (Fin n) ℚ) (k : ℕ) : ℚ := (toRows A).flatten.getD k 0

/-- The loops of `matvec` on an array sum up the rows of its matrix. -/
theorem matvec_rowByRow {m n : ℕ} (A : Matrix (Fin m) (Fin n) ℚ) (x : Fin n → ℚ) (i : Fin m) :
    matvec (rowByRow A) x i = ∑ j, A i j * x j := by
  rw [matvec, Fin.sum_univ_def, List.sum_eq_foldl, List.foldl_map]
  simp only [rowByRow, getD_toRows]

/-- The slice of the stacked parameters for a gate. -/
theorem slice_ofFn {α : Type} (gate : Gate) (f : Fin (4 * hiddenSize) → α) :
    slice (gateIndex gate) (List.ofFn f) = List.ofFn fun i => f (gateRow gate i) := by
  have hlt := (gateIndex gate).isLt
  have hrows : (gateIndex gate + 1) * hiddenSize ≤ 4 * hiddenSize :=
    Nat.mul_le_mul_right _ hlt
  apply List.ext_getElem
  · rw [slice, List.length_drop, List.length_take, List.length_ofFn, List.length_ofFn,
      Nat.min_eq_left hrows, Nat.succ_mul, Nat.add_sub_cancel_left]
  · intro i hleft hright
    rw [List.length_ofFn] at hright
    simp only [slice, List.getElem_drop, List.getElem_take, List.getElem_ofFn]
    congr 1
    exact Fin.ext (by simp [gateRow, Nat.add_comm, Nat.mul_comm])

theorem biasSlice_eq (sd : StateDict) (gate : Gate) :
    biasSlice sd (gateIndex gate) = List.ofFn (gateBias sd gate) := by
  rw [biasSlice, slice_ofFn, slice_ofFn]
  apply List.ext_getElem
  · simp
  · intro i hleft hright
    simp [gateBias]

theorem slice_toRows {n : ℕ} (gate : Gate) (A : Matrix (Fin (4 * hiddenSize)) (Fin n) ℚ) :
    slice (gateIndex gate) (toRows A) = toRows (gateRows gate A) :=
  slice_ofFn gate fun i => List.ofFn (A i)

/-! ## The compiled weights -/

/-- The weights for the parameters: the rows of each gate, and its two biases added up. -/
def trainedWeights (sd : StateDict) : Weights where
  Wi := rowByRow (gateRows .input sd.weightIhL0)
  Ui := rowByRow (gateRows .input sd.weightHhL0)
  bi := gateBias sd .input
  Wf := rowByRow (gateRows .forget sd.weightIhL0)
  Uf := rowByRow (gateRows .forget sd.weightHhL0)
  bf := gateBias sd .forget
  Wg := rowByRow (gateRows .cell sd.weightIhL0)
  Ug := rowByRow (gateRows .cell sd.weightHhL0)
  bg := gateBias sd .cell
  Wo := rowByRow (gateRows .output sd.weightIhL0)
  Uo := rowByRow (gateRows .output sd.weightHhL0)
  bo := gateBias sd .output
  Wy := rowByRow sd.fcWeight
  by_ := sd.fcBias

theorem getD_biasSlice (sd : StateDict) (gate : Gate) :
    (fun i : Fin hiddenSize => (biasSlice sd (gateIndex gate)).getD i 0) = gateBias sd gate := by
  funext i
  rw [biasSlice_eq, getD_ofFn]

theorem weights_exported (sd : StateDict) : (exported sd).weights = trainedWeights sd := by
  have hrows : ∀ {n : ℕ} (gate : Gate) (A : Matrix (Fin (4 * hiddenSize)) (Fin n) ℚ),
      (fun k => (slice (gateIndex gate) (toRows A)).flatten.getD k 0) =
        rowByRow (gateRows gate A) := fun gate A => by
    rw [slice_toRows]
    rfl
  have hinput := fun gate => hrows gate sd.weightIhL0
  have hhidden := fun gate => hrows gate sd.weightHhL0
  have hbias := getD_biasSlice sd
  simp only [Header.weights, trainedWeights, Weights.mk.injEq]
  exact ⟨hinput .input, hhidden .input, hbias .input, hinput .forget, hhidden .forget,
    hbias .forget, hinput .cell, hhidden .cell, hbias .cell, hinput .output, hhidden .output,
    hbias .output, rfl, funext fun i => getD_ofFn sd.fcBias i⟩

/-! ## The step in the kernel -/

theorem preActivation_rowByRow (sd : StateDict) (gate : Gate) (s : LSTMState)
    (x : Fin inputSize → ℚ) (i : Fin hiddenSize) :
    preActivation (rowByRow (gateRows gate sd.weightIhL0))
      (rowByRow (gateRows gate sd.weightHhL0)) (gateBias sd gate) s x i =
        gateSum sd gate s x i := by
  rw [preActivation, vecAdd, vecAdd, matvec_rowByRow, matvec_rowByRow]
  rfl

/-- On the exported weights `lstm_step` is the recurrence of the parameters. -/
theorem stepsBy_lstmStep (sd : StateDict) (s : LSTMState) (x : Fin inputSize → ℚ) :
    StepsBy sd s x (lstmStep (exported sd).weights s x) where
  cell := by
    intro i
    simp only [weights_exported, lstmStep, gf, gi, gg, trainedWeights, preActivation_rowByRow]
  hidden := by
    intro i
    simp only [weights_exported, lstmStep, gf, gi, gg, go, trainedWeights, preActivation_rowByRow]
  output := by
    intro i
    rw [weights_exported]
    exact congrArg₂ (· + ·) (matvec_rowByRow sd.fcWeight _ i) rfl

/-- All weights are one half. -/
def halfWeights : StateDict where
  weightIhL0 := Matrix.of fun _ _ => 1 / 2
  weightHhL0 := Matrix.of fun _ _ => 1 / 2
  biasIhL0 := fun _ => 1 / 2
  biasHhL0 := fun _ => 1 / 2
  fcWeight := Matrix.of fun _ _ => 1 / 2
  fcBias := fun _ => 1 / 2

end DoomsdayModules.NeuroSwap.Training
