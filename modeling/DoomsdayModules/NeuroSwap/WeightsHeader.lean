import DoomsdayModules.Core.ArrayDeclarations
import DoomsdayModules.Core.KernelText
import DoomsdayModules.Core.Utf8
import DoomsdayModules.NeuroSwap.Training

/-!
# The generated header

The exported arrays are written as a C header, and the kernel is compiled with
what a compiler reads in it.  How a number is printed, and what a compiler makes of
the print, are parameters.
-/

namespace DoomsdayModules.NeuroSwap.WeightsHeader

open DoomsdayModules.KernelText DoomsdayModules.Utf8 DoomsdayModules.ArrayDeclarations
open DoomsdayModules.NeuroSwap.Inference
open DoomsdayModules.NeuroSwap.Training

variable (str : ℚ → List Char) (readFloat : List Char → Option ℚ)

/-- The name of an array in the header. -/
def arrayName (name : String) : List Char := "lstmw_".toList ++ name.toList

/-- The first line of an array up to the opening brace. -/
def opensText (name : List Char) : List Char :=
  "static const float ".toList ++ (name ++ '[' :: "] = \x7b".toList)

/-- The last line of an array from the closing brace on. -/
def closesText : List Char := "\x7d;".toList

/-- A row of a matrix. -/
def formatRow (row : List ℚ) : List Char :=
  "    ".toList ++ [',', ' '].intercalate (row.map str) ++ [','] ++ ['\n']

/-- The lines of an array in the header. -/
def formatArray : String × NdArray → List Char
  | (name, .vector entries) =>
      opensText (arrayName name) ++ [' '] ++ [','].intercalate (entries.map str) ++ [' '] ++
        closesText ++ ['\n'] ++ ['\n']
  | (name, .matrix rows) =>
      opensText (arrayName name) ++ ['\n'] ++ rows.flatMap (formatRow str) ++
        closesText ++ ['\n'] ++ ['\n']

def formatDefine : String × ℕ → List Char
  | (name, value) => "#define ".toList ++ name.toList ++ [' '] ++ ascii (decimal value)

/-- The start of the header, up to the sizes. -/
def formatStart : List Char :=
  "/* THIS FILE IS AUTOGENERATED, DO NOT EDIT */\n\n#ifndef WEIGHTS_H\n#define WEIGHTS_H\n\n".toList

def formatEnd : List Char := "\n#endif // #ifndef WEIGHTS_H".toList

/-- The sizes in the header. -/
def sizes : List (String × ℕ) :=
  [("INPUT_SIZE", inputSize), ("HIDDEN_SIZE", hiddenSize), ("OUTPUT_SIZE", outputSize)]

/-- `format_weights`. -/
def formatWeights (sd : StateDict) : List Char :=
  formatStart ++ (sizes.flatMap fun size => formatDefine size ++ ['\n']) ++ ['\n'] ++
    (arrays sd).flatMap (formatArray str) ++ formatEnd

/-- The header as it is compiled in. -/
def compileHeader (text : List Char) : Option Header :=
  (readArrays readFloat text).map fun arrays =>
    arrays.map fun (name, values) => (String.ofList name, values)

/-! ## The tokens of the header -/

variable {str : ℚ → List Char} {readFloat : List Char → Option ℚ}

/-- The tokens between the braces. -/
def itemTokens (str : ℚ → List Char) : NdArray → List Token
  | .vector entries => commaBetween str entries
  | .matrix rows => commaAfter str rows.flatten

def arrayTokens (str : ℚ → List Char) (array : String × NdArray) : List Token :=
  opensArray (arrayName array.1) ++ itemTokens str array.2 ++
    [.punctuator '\x7d', .punctuator ';']

/-- An array that can be written: its name is a plain word, and so are its entries. -/
structure Writable (str : ℚ → List Char) (readFloat : List Char → Option ℚ)
    (array : String × NdArray) : Prop where
  isWord : IsWord (arrayName array.1)
  isPlain : IsPlain (arrayName array.1)
  rows : ∀ rows, array.2 = .matrix rows → ∀ row ∈ rows, row ≠ []
  printed : ∀ value ∈ array.2.entries, Printed readFloat str value

theorem isPlain_opensText {name : List Char} (hname : IsPlain name) : IsPlain (opensText name) :=
  (by decide : IsPlain "static const float ".toList).append (hname.append (by decide))

theorem isPlain_closesText : IsPlain closesText := by decide

/-- The words in front of a name. -/
def arrayWords : List Token :=
  [.word ['s', 't', 'a', 't', 'i', 'c'], .word ['c', 'o', 'n', 's', 't'],
    .word ['f', 'l', 'o', 'a', 't']]

theorem tokensFrom_arrayWords (text : List Char) :
    tokensFrom [] ("static const float ".toList ++ text) = arrayWords ++ tokensFrom [] text := by
  simp [tokensFrom, isPunctuator, isBlank, flush, arrayWords]

theorem tokensFrom_bracket (text : List Char) :
    tokensFrom [] ("] = \x7b".toList ++ text) =
      [.punctuator ']', .punctuator '=', .punctuator '\x7b'] ++ tokensFrom [] text := by
  simp [tokensFrom, isPunctuator, isBlank, flush]

theorem tokensFrom_opensText {name : List Char} (hname : IsWord name) (rest : List Char) :
    tokensFrom [] (opensText name ++ rest) = opensArray name ++ tokensFrom [] rest := by
  have hassoc : ∀ start last : List Char, start ++ (name ++ '[' :: last) ++ rest =
      start ++ (name ++ '[' :: (last ++ rest)) := fun start last => by
    simp only [List.append_assoc, List.cons_append]
  calc tokensFrom [] (opensText name ++ rest)
      = tokensFrom [] ("static const float ".toList ++
          (name ++ '[' :: ("] = \x7b".toList ++ rest))) := congrArg _ (hassoc _ _)
    _ = arrayWords ++ tokensFrom [] (name ++ '[' :: ("] = \x7b".toList ++ rest)) :=
        tokensFrom_arrayWords _
    _ = arrayWords ++
          (.word name :: .punctuator '[' :: tokensFrom [] ("] = \x7b".toList ++ rest)) :=
        congrArg _ (tokensFrom_word_punctuator hname (by decide) _)
    _ = arrayWords ++ (.word name :: .punctuator '[' ::
          ([.punctuator ']', .punctuator '=', .punctuator '\x7b'] ++ tokensFrom [] rest)) :=
        congrArg (fun tokens => arrayWords ++ (.word name :: .punctuator '[' :: tokens))
          (tokensFrom_bracket rest)

theorem tokensFrom_closesText : tokensFrom [] closesText = [.punctuator '\x7d', .punctuator ';'] :=
  rfl

variable {array : String × NdArray} {name : String}

theorem sourceTokens_vector {entries : List ℚ}
    (hwritable : Writable str readFloat (name, .vector entries)) (rest : List Char) :
    sourceTokens (formatArray str (name, .vector entries) ++ rest) =
      arrayTokens str (name, .vector entries) ++ sourceTokens rest := by
  have hjoined : IsPlain ([','].intercalate (entries.map str)) :=
    IsPlain.intercalate (by decide) fun item hitem => by
      obtain ⟨value, hvalue, rfl⟩ := List.mem_map.mp hitem
      exact (hwritable.printed value hvalue).isPlain
  have htext : formatArray str (name, .vector entries) ++ rest =
      (opensText (arrayName name) ++ ([' '] ++ ([','].intercalate (entries.map str) ++
        ([' '] ++ closesText)))) ++ '\n' :: ([] ++ '\n' :: rest) := by
    simp only [formatArray, List.append_assoc, List.cons_append, List.nil_append]
  have hline := (isPlain_opensText hwritable.isPlain).append
    ((by decide : IsPlain [' ']).append (hjoined.append
      ((by decide : IsPlain [' ']).append isPlain_closesText)))
  have hempty : IsPlain [] := by decide
  have hblank : ∀ text, tokensFrom [] ([' '] ++ text) = tokensFrom [] text := fun text => rfl
  rw [htext, sourceTokens_plain hline, sourceTokens_plain hempty,
    tokensFrom_opensText hwritable.isWord, hblank, List.singleton_append,
    tokensFrom_vector (show ∀ value ∈ entries, _ from hwritable.printed), tokensFrom_closesText,
    arrayTokens, itemTokens, List.append_assoc]
  rfl

theorem sourceTokens_rows {rows : List (List ℚ)} (hrows : ∀ row ∈ rows, row ≠ [])
    (hprinted : ∀ value ∈ rows.flatten, Printed readFloat str value) (rest : List Char) :
    sourceTokens (rows.flatMap (formatRow str) ++ rest) =
      commaAfter str rows.flatten ++ sourceTokens rest := by
  induction rows with
  | nil => rfl
  | cons row rows ih =>
      have hrow : ∀ value ∈ row, Printed readFloat str value := fun value hvalue =>
        hprinted value (List.mem_flatten_of_mem List.mem_cons_self hvalue)
      have hjoined : IsPlain ([',', ' '].intercalate (row.map str)) :=
        IsPlain.intercalate (by decide) fun item hitem => by
          obtain ⟨value, hvalue, rfl⟩ := List.mem_map.mp hitem
          exact (hrow value hvalue).isPlain
      have hline := (by decide : IsPlain "    ".toList).append
        (hjoined.append (by decide : IsPlain [',']))
      have hindent : ∀ text, tokensFrom [] ("    ".toList ++ text) = tokensFrom [] text :=
        fun text => rfl
      have hrest := ih (fun row hmem => hrows row (List.mem_cons_of_mem _ hmem))
        fun value hvalue => hprinted value (by
          rw [List.flatten_cons]
          exact List.mem_append_right _ hvalue)
      have htext : (row :: rows).flatMap (formatRow str) ++ rest =
          ("    ".toList ++ ([',', ' '].intercalate (row.map str) ++ [','])) ++
            '\n' :: (rows.flatMap (formatRow str) ++ rest) := by
        simp only [List.flatMap_cons, formatRow, List.append_assoc, List.cons_append,
          List.nil_append]
      rw [htext, sourceTokens_plain hline, hindent,
        tokensFrom_row hrow (hrows row List.mem_cons_self), hrest, List.flatten_cons, commaAfter,
        commaAfter, commaAfter, List.flatMap_append, List.append_assoc]

theorem sourceTokens_matrix {rows : List (List ℚ)}
    (hwritable : Writable str readFloat (name, .matrix rows)) (rest : List Char) :
    sourceTokens (formatArray str (name, .matrix rows) ++ rest) =
      arrayTokens str (name, .matrix rows) ++ sourceTokens rest := by
  have htext : formatArray str (name, .matrix rows) ++ rest =
      (opensText (arrayName name) ++ []) ++ '\n' :: (rows.flatMap (formatRow str) ++
        (closesText ++ '\n' :: ([] ++ '\n' :: rest))) := by
    simp only [formatArray, List.append_assoc, List.cons_append, List.nil_append]
  have hempty : IsPlain [] := by decide
  have hline := (isPlain_opensText hwritable.isPlain).append hempty
  rw [htext, sourceTokens_plain hline, tokensFrom_opensText hwritable.isWord,
    sourceTokens_rows (hwritable.rows rows rfl) hwritable.printed,
    sourceTokens_plain isPlain_closesText, sourceTokens_plain hempty, tokensFrom_closesText,
    arrayTokens, itemTokens, List.append_assoc, List.append_assoc, List.append_assoc]
  rfl

theorem sourceTokens_formatArray (hwritable : Writable str readFloat array) (rest : List Char) :
    sourceTokens (formatArray str array ++ rest) = arrayTokens str array ++ sourceTokens rest := by
  obtain ⟨name, entries | rows⟩ := array
  · exact sourceTokens_vector hwritable rest
  · exact sourceTokens_matrix hwritable rest

theorem sourceTokens_formatStart (rest : List Char) :
    sourceTokens (formatStart ++ rest) = sourceTokens rest := by
  rfl

theorem sourceTokens_formatEnd : sourceTokens formatEnd = [] := rfl

theorem directive_sizes : ∀ size ∈ sizes, '/' ∉ formatDefine size ∧ '\n' ∉ formatDefine size ∧
    lineTokens (formatDefine size) = [] := by decide +kernel

theorem sourceTokens_sizes (rest : List Char) :
    sourceTokens ((sizes.flatMap fun size => formatDefine size ++ ['\n']) ++ rest) =
      sourceTokens rest := by
  have hlines := directive_sizes
  generalize sizes = sizes at hlines
  induction sizes with
  | nil => rfl
  | cons size sizes ih =>
      obtain ⟨hslash, hnewline, hline⟩ := hlines size List.mem_cons_self
      rw [List.flatMap_cons, List.append_assoc, List.append_assoc, List.singleton_append,
        sourceTokens_line hslash hnewline, hline, List.nil_append]
      exact ih fun size hmem => hlines size (List.mem_cons_of_mem _ hmem)

theorem sourceTokens_formatWeights {sd : StateDict}
    (hwritable : ∀ array ∈ arrays sd, Writable str readFloat array) :
    sourceTokens (formatWeights str sd) = (arrays sd).flatMap (arrayTokens str) := by
  have harrays : ∀ list : List (String × NdArray),
      (∀ array ∈ list, Writable str readFloat array) →
      sourceTokens (list.flatMap (formatArray str) ++ formatEnd) =
        list.flatMap (arrayTokens str) := by
    intro list
    induction list with
    | nil => exact fun _ => sourceTokens_formatEnd
    | cons array list ih =>
        intro hlist
        rw [List.flatMap_cons, List.append_assoc,
          sourceTokens_formatArray (hlist array List.mem_cons_self),
          ih fun array hmem => hlist array (List.mem_cons_of_mem _ hmem), List.flatMap_cons]
  have hempty : IsPlain [] := by decide
  rw [formatWeights, List.append_assoc, List.append_assoc, List.append_assoc,
    sourceTokens_formatStart, sourceTokens_sizes, List.singleton_append]
  exact (sourceTokens_plain hempty _).trans (harrays _ hwritable)

/-! ## Reading the header -/

theorem declaration_arrayTokens (hwritable : Writable str readFloat array) (rest : List Token) :
    declaration readFloat (arrayTokens str array ++ rest) =
      some ((arrayName array.1, array.2.entries), rest) := by
  have hassoc : arrayTokens str array ++ rest = opensArray (arrayName array.1) ++
      itemTokens str array.2 ++ .punctuator '\x7d' :: .punctuator ';' :: rest := by
    rw [arrayTokens, List.append_assoc]
    rfl
  rw [hassoc]
  apply declaration_array
  obtain ⟨name, entries | rows⟩ := array
  · exact initialisers_commaBetween hwritable.printed _
  · exact initialisers_commaAfter hwritable.printed _

theorem ofList_arrayName (name : String) : String.ofList (arrayName name) = "lstmw_" ++ name := by
  have happend : ∀ start : String, String.ofList (start.toList ++ name.toList) = start ++ name :=
    fun start => by rw [String.ofList_append, String.ofList_toList, String.ofList_toList]
  exact happend "lstmw_"

/-- The compiler reads the arrays that were exported. -/
theorem compileHeader_formatWeights {sd : StateDict}
    (hwritable : ∀ array ∈ arrays sd, Writable str readFloat array) :
    compileHeader readFloat (formatWeights str sd) = some (exported sd) := by
  rw [compileHeader, readArrays_eq (sourceTokens_formatWeights hwritable)
    fun array hmem => declaration_arrayTokens (hwritable array hmem), Option.map_some,
    List.map_map, exported]
  congr 1
  refine List.map_congr_left fun array _ => ?_
  simp only [Function.comp_apply, ofList_arrayName]

/-! ## The header of the trained parameters -/

/-- No row of an array is empty. -/
def NoEmptyRow (array : NdArray) : Prop := ∀ rows, array = .matrix rows → ∀ row ∈ rows, row ≠ []

theorem noEmptyRow_vector (entries : List ℚ) : NoEmptyRow (.vector entries) :=
  fun _ heq => by cases heq

theorem noEmptyRow_toRows {m n : ℕ} (hn : 0 < n) (A : Matrix (Fin m) (Fin n) ℚ) :
    NoEmptyRow (.matrix (toRows A)) := by
  rintro rows ⟨⟩ row hrow
  obtain ⟨i, rfl⟩ := (List.mem_ofFn' _ row).mp hrow
  exact List.ne_nil_of_length_pos (by rwa [List.length_ofFn])

theorem NoEmptyRow.slice {rows : List (List ℚ)} (hrows : NoEmptyRow (.matrix rows)) (k : ℕ) :
    NoEmptyRow (.matrix (slice k rows)) := by
  rintro sliced ⟨⟩ row hrow
  exact hrows rows rfl row (List.mem_of_mem_take (List.mem_of_mem_drop hrow))

theorem noEmptyRow_arrays (sd : StateDict) : ∀ array ∈ arrays sd, NoEmptyRow array.2 := by
  have hih := (noEmptyRow_toRows (by decide) sd.weightIhL0).slice
  have hhh := (noEmptyRow_toRows (by decide) sd.weightHhL0).slice
  have hbias := fun k => noEmptyRow_vector (biasSlice sd k)
  simp only [arrays, List.forall_mem_cons]
  exact ⟨hih 0, hih 1, hih 2, hih 3, hhh 0, hhh 1, hhh 2, hhh 3, hbias 0, hbias 1, hbias 2,
    hbias 3, noEmptyRow_toRows (by decide) sd.fcWeight, noEmptyRow_vector _,
    fun _ hmem => absurd hmem List.not_mem_nil⟩

theorem writable_arrays {sd : StateDict}
    (hprinted : ∀ array ∈ arrays sd, ∀ value ∈ array.2.entries, Printed readFloat str value) :
    ∀ array ∈ arrays sd, Writable str readFloat array := by
  have hnames : ∀ name ∈ (arrays sd).map Prod.fst, arrayName name ≠ [] ∧
      (∀ c ∈ arrayName name, isPunctuator c = false ∧ isBlank c = false) ∧
        IsPlain (arrayName name) := by
    simp [arrays, arrayName, isPunctuator, isBlank, IsPlain]
  intro array hmem
  obtain ⟨hne, hplain, hspecial⟩ := hnames array.1 (List.mem_map_of_mem hmem)
  exact ⟨⟨hne, hplain⟩, hspecial, noEmptyRow_arrays sd array hmem, hprinted array hmem⟩

/-- The arrays that the loops of the inference read, with their lengths. -/
def declaredSizes : List (String × ℕ) :=
  [("lstmw_Wi", hiddenSize * inputSize), ("lstmw_Wf", hiddenSize * inputSize),
    ("lstmw_Wg", hiddenSize * inputSize), ("lstmw_Wo", hiddenSize * inputSize),
    ("lstmw_Ui", hiddenSize * hiddenSize), ("lstmw_Uf", hiddenSize * hiddenSize),
    ("lstmw_Ug", hiddenSize * hiddenSize), ("lstmw_Uo", hiddenSize * hiddenSize),
    ("lstmw_bi", hiddenSize), ("lstmw_bf", hiddenSize), ("lstmw_bg", hiddenSize),
    ("lstmw_bo", hiddenSize), ("lstmw_Wy", outputSize * hiddenSize), ("lstmw_by", outputSize)]

theorem sizes_exported (sd : StateDict) :
    (exported sd).map (fun (name, entries) => (name, entries.length)) = declaredSizes := by
  have hih : ∀ gate, (slice (gateIndex gate) (toRows sd.weightIhL0)).flatten.length =
      hiddenSize * inputSize := fun gate => by
    rw [slice_toRows, flatten_toRows, List.length_ofFn]
  have hhh : ∀ gate, (slice (gateIndex gate) (toRows sd.weightHhL0)).flatten.length =
      hiddenSize * hiddenSize := fun gate => by
    rw [slice_toRows, flatten_toRows, List.length_ofFn]
  have hbias : ∀ gate, (biasSlice sd (gateIndex gate)).length = hiddenSize := fun gate => by
    rw [biasSlice_eq, List.length_ofFn]
  have hy : (toRows sd.fcWeight).flatten.length = outputSize * hiddenSize := by
    rw [flatten_toRows, List.length_ofFn]
  have hby : (List.ofFn sd.fcBias).length = outputSize := List.length_ofFn
  simp only [exported, arrays, List.map_cons, List.map_nil, declaredSizes, List.cons.injEq,
    Prod.mk.injEq]
  exact ⟨⟨rfl, hih .input⟩, ⟨rfl, hih .forget⟩, ⟨rfl, hih .cell⟩, ⟨rfl, hih .output⟩,
    ⟨rfl, hhh .input⟩, ⟨rfl, hhh .forget⟩, ⟨rfl, hhh .cell⟩, ⟨rfl, hhh .output⟩,
    ⟨rfl, hbias .input⟩, ⟨rfl, hbias .forget⟩, ⟨rfl, hbias .cell⟩, ⟨rfl, hbias .output⟩,
    ⟨rfl, hy⟩, ⟨rfl, hby⟩, trivial⟩

/-- What is printed by the training is compiled into the kernel as the same parameters:
every array has the length that the loops need, and each step of the inference, from
every state and on every input, is the recurrence of the parameters. -/
theorem header_faithful (sd : StateDict) (str : ℚ → List Char)
    (readFloat : List Char → Option ℚ)
    (hprinted : ∀ array ∈ arrays sd, ∀ value ∈ array.2.entries, Printed readFloat str value) :
    ∃ header, compileHeader readFloat (formatWeights str sd) = some header ∧
      header.map (fun (name, entries) => (name, entries.length)) = declaredSizes ∧
      ∀ s x, StepsBy sd s x (lstmStep header.weights s x) :=
  ⟨exported sd, compileHeader_formatWeights (writable_arrays hprinted), sizes_exported sd,
    stepsBy_lstmStep sd⟩

/-! ## An example of a header -/

/-- The prints of one half and of one. -/
def strHalf (value : ℚ) : List Char := if value = 1 / 2 then ['0', '.', '5'] else ['1', '.', '0']

def readHalf (text : List Char) : Option ℚ :=
  if text = ['0', '.', '5'] then some (1 / 2)
  else if text = ['1', '.', '0'] then some 1
  else none

theorem exists_entry {m n k : ℕ} {A : Matrix (Fin m) (Fin n) ℚ} {value : ℚ}
    (hvalue : value ∈ (slice k (toRows A)).flatten) : ∃ i j, A i j = value := by
  obtain ⟨row, hrow, hmem⟩ := List.mem_flatten.mp hvalue
  obtain ⟨i, rfl⟩ := (List.mem_ofFn' _ row).mp (List.mem_of_mem_take (List.mem_of_mem_drop hrow))
  obtain ⟨j, rfl⟩ := (List.mem_ofFn' _ value).mp hmem
  exact ⟨i, j, rfl⟩

theorem entries_halfWeights : ∀ array ∈ arrays halfWeights, ∀ value ∈ array.2.entries,
    value = 1 / 2 ∨ value = 1 := by
  have hmatrix : ∀ {m n k : ℕ}, ∀ value ∈
      (slice k (toRows (Matrix.of fun (_ : Fin m) (_ : Fin n) => (1 / 2 : ℚ)))).flatten,
      value = 1 / 2 ∨ value = 1 := fun value hvalue => by
    obtain ⟨i, j, rfl⟩ := exists_entry hvalue
    exact .inl rfl
  have hbias : ∀ gate, ∀ value ∈ biasSlice halfWeights (gateIndex gate),
      value = 1 / 2 ∨ value = 1 := fun gate value hvalue => by
    rw [biasSlice_eq] at hvalue
    obtain ⟨i, rfl⟩ := (List.mem_ofFn' _ value).mp hvalue
    exact .inr (by norm_num [gateBias, halfWeights])
  have hfc : ∀ value ∈ (toRows halfWeights.fcWeight).flatten, value = 1 / 2 ∨ value = 1 :=
    fun value hvalue => by
      rw [flatten_toRows] at hvalue
      obtain ⟨k, rfl⟩ := (List.mem_ofFn' _ value).mp hvalue
      exact .inl rfl
  have hby : ∀ value ∈ List.ofFn halfWeights.fcBias, value = 1 / 2 ∨ value = 1 :=
    fun value hvalue => by
      obtain ⟨i, rfl⟩ := (List.mem_ofFn' _ value).mp hvalue
      exact .inl rfl
  simp only [arrays, List.forall_mem_cons]
  exact ⟨hmatrix, hmatrix, hmatrix, hmatrix, hmatrix, hmatrix, hmatrix, hmatrix, hbias .input,
    hbias .forget, hbias .cell, hbias .output, hfc, hby, fun _ hmem => absurd hmem List.not_mem_nil⟩

theorem printed_half : Printed readHalf strHalf (1 / 2) ∧ Printed readHalf strHalf 1 := by
  have hhalf : strHalf (1 / 2) = ['0', '.', '5'] := if_pos rfl
  have hone : strHalf 1 = ['1', '.', '0'] := if_neg (by norm_num)
  constructor
  · constructor
    · rw [hhalf]
      exact ⟨by decide, by simp [isPunctuator, isBlank]⟩
    · rw [hhalf]
      decide
    · rw [hhalf]
      rfl
  · constructor
    · rw [hone]
      exact ⟨by decide, by simp [isPunctuator, isBlank]⟩
    · rw [hone]
      decide
    · rw [hone]
      rfl

theorem header_faithful_half :
    ∃ header, compileHeader readHalf (formatWeights strHalf halfWeights) = some header ∧
      header.map (fun (name, entries) => (name, entries.length)) = declaredSizes ∧
      ∀ s x, StepsBy halfWeights s x (lstmStep header.weights s x) :=
  header_faithful halfWeights strHalf readHalf fun array hmem value hvalue => by
    obtain rfl | rfl := entries_halfWeights array hmem value hvalue
    · exact printed_half.1
    · exact printed_half.2

end DoomsdayModules.NeuroSwap.WeightsHeader
