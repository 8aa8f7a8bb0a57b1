import Mathlib.Tactic

/-!
# Arrays in a source file

How a C compiler reads declarations of arrays: comments are taken out, lines for
the preprocessor are left aside, the rest is cut into words and punctuators, and a
declaration is a name with initialisers in braces.  What an initialiser stands for
is a parameter.
-/

namespace DoomsdayModules.ArrayDeclarations

/-! ## Lines -/

/-- Where the search for comments stands. -/
inductive Scan
  | code
  | opening
  | block
  | closing
  | line

/-- The text without comments, and a blank for each that is closed. -/
def stripComments : Scan → List Char → List Char
  | _, [] => []
  | .code, c :: text =>
      if c = '/' ∧ text.head? = some '*' then ' ' :: stripComments .opening text
      else if c = '/' ∧ text.head? = some '/' then stripComments .line text
      else c :: stripComments .code text
  | .opening, _ :: text => stripComments .block text
  | .block, c :: text =>
      if c = '*' ∧ text.head? = some '/' then stripComments .closing text
      else stripComments .block text
  | .closing, _ :: text => stripComments .code text
  | .line, c :: text =>
      if c = '\n' then c :: stripComments .code text else stripComments .line text

/-- The lines of a text behind the start of its first line. -/
def linesFrom (line : List Char) : List Char → List (List Char)
  | [] => [line]
  | c :: text => if c = '\n' then line :: linesFrom [] text else linesFrom (line ++ [c]) text

def isDirective (line : List Char) : Bool :=
  decide ((line.dropWhile (· = ' ')).head? = some '#')

theorem stripComments_append {line : List Char} (hline : '/' ∉ line) (rest : List Char) :
    stripComments .code (line ++ rest) = line ++ stripComments .code rest := by
  induction line with
  | nil => rfl
  | cons c line ih =>
      rw [List.mem_cons, not_or] at hline
      rw [List.cons_append, stripComments, if_neg fun hc => hline.1 hc.1.symm,
        if_neg fun hc => hline.1 hc.1.symm, ih hline.2, List.cons_append]

theorem linesFrom_append {line : List Char} (hline : '\n' ∉ line) (start rest : List Char) :
    linesFrom start (line ++ '\n' :: rest) = (start ++ line) :: linesFrom [] rest := by
  induction line generalizing start with
  | nil => rw [List.nil_append, linesFrom, if_pos rfl, List.append_nil]
  | cons c line ih =>
      rw [List.mem_cons, not_or] at hline
      rw [List.cons_append, linesFrom, if_neg (Ne.symm hline.1), ih hline.2, List.append_assoc,
        List.singleton_append]

/-! ## Tokens -/

inductive Token
  | word (text : List Char)
  | punctuator (c : Char)
  deriving DecidableEq

def isBlank (c : Char) : Bool := c = ' ' || c = '\t' || c = '\n'

def isPunctuator (c : Char) : Bool :=
  c = '[' || c = ']' || c = '=' || c = '\x7b' || c = '\x7d' || c = ',' || c = ';'

/-- The token of a word that has ended. -/
def flush (word : List Char) : List Token := if word = [] then [] else [.word word]

/-- The tokens of a text behind the start of a word. -/
def tokensFrom (word : List Char) : List Char → List Token
  | [] => flush word
  | c :: text =>
      if isPunctuator c then flush word ++ .punctuator c :: tokensFrom [] text
      else if isBlank c then flush word ++ tokensFrom [] text
      else tokensFrom (word ++ [c]) text

/-- The tokens of a line, if it is not one for the preprocessor. -/
def lineTokens (line : List Char) : List Token :=
  if isDirective line then [] else tokensFrom [] line

def sourceTokens (text : List Char) : List Token :=
  (linesFrom [] (stripComments .code text)).flatMap lineTokens

theorem sourceTokens_line {line : List Char} (hslash : '/' ∉ line) (hnewline : '\n' ∉ line)
    (rest : List Char) :
    sourceTokens (line ++ '\n' :: rest) = lineTokens line ++ sourceTokens rest := by
  have hne : '\n' ≠ '/' := by decide
  have hstrip : stripComments .code (line ++ '\n' :: rest) =
      line ++ '\n' :: stripComments .code rest := by
    rw [stripComments_append hslash, stripComments, if_neg fun hc => hne hc.1,
      if_neg fun hc => hne hc.1]
  rw [sourceTokens, hstrip, linesFrom_append hnewline, List.flatMap_cons, List.nil_append]
  rfl

/-- A text in which no line, comment or directive begins or ends. -/
def IsPlain (text : List Char) : Prop := ∀ c ∈ text, c ≠ '/' ∧ c ≠ '\n' ∧ c ≠ '#'

instance (text : List Char) : Decidable (IsPlain text) :=
  List.decidableBAll (fun c => c ≠ '/' ∧ c ≠ '\n' ∧ c ≠ '#') text

theorem IsPlain.append {left right : List Char} (hleft : IsPlain left) (hright : IsPlain right) :
    IsPlain (left ++ right) :=
  List.forall_mem_append.mpr ⟨hleft, hright⟩

theorem IsPlain.intercalate {separator : List Char} (hseparator : IsPlain separator)
    {items : List (List Char)} (hitems : ∀ item ∈ items, IsPlain item) :
    IsPlain (separator.intercalate items) := by
  induction items with
  | nil => exact fun c hc => absurd hc List.not_mem_nil
  | cons item items ih =>
      have hitem := hitems item List.mem_cons_self
      have hrest := ih fun item hmem => hitems item (List.mem_cons_of_mem _ hmem)
      cases items with
      | nil => rwa [List.intercalate_singleton]
      | cons next items =>
          rw [List.intercalate_cons_cons]
          exact (hitem.append hseparator).append hrest

theorem isDirective_eq_false {line : List Char} (hline : IsPlain line) :
    isDirective line = false := by
  rw [isDirective, decide_eq_false_iff_not]
  intro hhead
  exact (hline '#' ((List.dropWhile_sublist _).subset (List.mem_of_head? hhead))).2.2 rfl

/-- A line of code is read by itself. -/
theorem sourceTokens_plain {line : List Char} (hline : IsPlain line) (rest : List Char) :
    sourceTokens (line ++ '\n' :: rest) = tokensFrom [] line ++ sourceTokens rest := by
  rw [sourceTokens_line (fun hmem => (hline _ hmem).1 rfl) (fun hmem => (hline _ hmem).2.1 rfl),
    lineTokens, isDirective_eq_false hline, if_neg Bool.false_ne_true]

/-- A text that is one word wherever it stands between blanks and punctuators. -/
structure IsWord (text : List Char) : Prop where
  ne_nil : text ≠ []
  plain : ∀ c ∈ text, isPunctuator c = false ∧ isBlank c = false

theorem tokensFrom_plain {text : List Char}
    (hplain : ∀ c ∈ text, isPunctuator c = false ∧ isBlank c = false) (word rest : List Char) :
    tokensFrom word (text ++ rest) = tokensFrom (word ++ text) rest := by
  induction text generalizing word with
  | nil => rw [List.nil_append, List.append_nil]
  | cons c text ih =>
      obtain ⟨hpunctuator, hblank⟩ := hplain c List.mem_cons_self
      rw [List.cons_append, tokensFrom, hpunctuator, hblank, if_neg Bool.false_ne_true,
        if_neg Bool.false_ne_true, ih fun c hc => hplain c (List.mem_cons_of_mem _ hc),
        List.append_assoc, List.singleton_append]

theorem flush_word {text : List Char} (hword : IsWord text) : flush text = [.word text] :=
  if_neg hword.ne_nil

theorem tokensFrom_word_punctuator {text : List Char} (hword : IsWord text) {c : Char}
    (hc : isPunctuator c) (rest : List Char) :
    tokensFrom [] (text ++ c :: rest) = .word text :: .punctuator c :: tokensFrom [] rest := by
  rw [tokensFrom_plain hword.plain, List.nil_append, tokensFrom, if_pos hc, flush_word hword,
    List.singleton_append]

theorem tokensFrom_word_blank {text : List Char} (hword : IsWord text) (rest : List Char) :
    tokensFrom [] (text ++ ' ' :: rest) = .word text :: tokensFrom [] rest := by
  rw [tokensFrom_plain hword.plain, List.nil_append, tokensFrom, if_neg (by decide),
    if_pos (by decide), flush_word hword, List.singleton_append]

/-! ## Declarations -/

variable {Value : Type*} (read : List Char → Option Value)

/-- The initialisers up to the closing brace, with a comma after the last or not,
and the tokens behind it. -/
def initialisers : List Token → Option (List Value × List Token)
  | .punctuator '\x7d' :: rest => some ([], rest)
  | .word item :: .punctuator '\x7d' :: rest => (read item).map fun value => ([value], rest)
  | .word item :: .punctuator ',' :: rest =>
      (read item).bind fun value =>
        (initialisers rest).map fun (values, rest) => (value :: values, rest)
  | _ => none

/-- `static const float name[] = {`. -/
def opensArray (name : List Char) : List Token :=
  [.word ['s', 't', 'a', 't', 'i', 'c'], .word ['c', 'o', 'n', 's', 't'],
    .word ['f', 'l', 'o', 'a', 't'], .word name, .punctuator '[', .punctuator ']',
    .punctuator '=', .punctuator '\x7b']

/-- A declaration, and the tokens behind it. -/
def declaration (tokens : List Token) : Option ((List Char × List Value) × List Token) :=
  match tokens.drop 3 with
  | .word name :: _ =>
      if tokens.take 8 = opensArray name then
        match initialisers read (tokens.drop 8) with
        | some (values, .punctuator ';' :: rest) => some ((name, values), rest)
        | _ => none
      else none
  | _ => none

/-- So many declarations at most. -/
def declarations : ℕ → List Token → Option (List (List Char × List Value))
  | _, [] => some []
  | 0, _ :: _ => none
  | count + 1, tokens =>
      (declaration read tokens).bind fun (array, rest) =>
        (declarations count rest).map fun arrays => array :: arrays

/-- The arrays of a source file; a declaration is longer than one token. -/
def readArrays (text : List Char) : Option (List (List Char × List Value)) :=
  declarations read (sourceTokens text).length (sourceTokens text)

/-! ## Printed values -/

variable {read} {print : Value → List Char} {values : List Value}

/-- A printed value is one plain word, and is read back. -/
structure Printed (read : List Char → Option Value) (print : Value → List Char) (value : Value) :
    Prop where
  isWord : IsWord (print value)
  isPlain : IsPlain (print value)
  read_eq : read (print value) = some value

/-- Values with a comma after each. -/
def commaAfter (print : Value → List Char) (values : List Value) : List Token :=
  values.flatMap fun value => [.word (print value), .punctuator ',']

/-- Values with a comma between them. -/
def commaBetween (print : Value → List Char) : List Value → List Token
  | [] => []
  | [value] => [.word (print value)]
  | value :: values => .word (print value) :: .punctuator ',' :: commaBetween print values

theorem initialisers_commaAfter (hprinted : ∀ value ∈ values, Printed read print value)
    (rest : List Token) :
    initialisers read (commaAfter print values ++ .punctuator '\x7d' :: rest) =
      some (values, rest) := by
  induction values with
  | nil => rfl
  | cons value values ih =>
      have hread := (hprinted value List.mem_cons_self).read_eq
      have hrest := ih fun value hvalue => hprinted value (List.mem_cons_of_mem _ hvalue)
      rw [commaAfter, List.flatMap_cons, ← commaAfter]
      simp [initialisers, hread, hrest]

theorem initialisers_commaBetween (hprinted : ∀ value ∈ values, Printed read print value)
    (rest : List Token) :
    initialisers read (commaBetween print values ++ .punctuator '\x7d' :: rest) =
      some (values, rest) := by
  induction values with
  | nil => rfl
  | cons value values ih =>
      have hread := (hprinted value List.mem_cons_self).read_eq
      have hrest := ih fun value hvalue => hprinted value (List.mem_cons_of_mem _ hvalue)
      cases values with
      | nil => simp [commaBetween, initialisers, hread]
      | cons next values =>
          simp only [commaBetween, List.cons_append] at hrest ⊢
          simp [initialisers, hread, hrest]

theorem declaration_array {name : List Char} {items rest : List Token}
    (hitems : initialisers read (items ++ .punctuator '\x7d' :: .punctuator ';' :: rest) =
      some (values, .punctuator ';' :: rest)) :
    declaration read (opensArray name ++ items ++
      .punctuator '\x7d' :: .punctuator ';' :: rest) = some ((name, values), rest) := by
  simp [declaration, opensArray, hitems]

theorem declarations_succ (count : ℕ) {tokens : List Token} (htokens : tokens ≠ []) :
    declarations read (count + 1) tokens =
      (declaration read tokens).bind fun (array, rest) =>
        (declarations read count rest).map fun arrays => array :: arrays := by
  cases tokens with
  | nil => exact absurd rfl htokens
  | cons token tokens => rfl

/-- Declarations one after the other are all read. -/
theorem declarations_flatMap {Source : Type*} {arrays : List Source} {tokens : Source → List Token}
    {meaning : Source → List Char × List Value}
    (harrays : ∀ array ∈ arrays, ∀ rest,
      declaration read (tokens array ++ rest) = some (meaning array, rest))
    {count : ℕ} (hcount : arrays.length ≤ count) :
    declarations read count (arrays.flatMap tokens) = some (arrays.map meaning) := by
  induction arrays generalizing count with
  | nil => cases count <;> rfl
  | cons array arrays ih =>
      obtain ⟨count, rfl⟩ := Nat.exists_eq_succ_of_ne_zero (Nat.ne_zero_of_lt hcount)
      have harray := harrays array List.mem_cons_self (arrays.flatMap tokens)
      have hrest := ih (fun array hmem => harrays array (List.mem_cons_of_mem _ hmem))
        (Nat.le_of_succ_le_succ hcount)
      rw [List.flatMap_cons]
      cases htokens : tokens array ++ arrays.flatMap tokens with
      | nil =>
          rw [htokens] at harray
          cases harray
      | cons token others =>
          rw [declarations_succ count (List.cons_ne_nil _ _), ← htokens, harray, Option.bind_some]
          simp only [hrest, Option.map_some, List.map_cons]

theorem readArrays_eq {Source : Type*} {text : List Char} {arrays : List Source}
    {tokens : Source → List Token} {meaning : Source → List Char × List Value}
    (htext : sourceTokens text = arrays.flatMap tokens)
    (harrays : ∀ array ∈ arrays, ∀ rest,
      declaration read (tokens array ++ rest) = some (meaning array, rest)) :
    readArrays read text = some (arrays.map meaning) := by
  have htokens : ∀ array ∈ arrays, 1 ≤ (tokens array).length := fun array hmem => by
    have harray := harrays array hmem []
    cases hnil : tokens array with
    | nil =>
        rw [hnil] at harray
        cases harray
    | cons token rest => exact Nat.le_add_left 1 _
  have hcount : arrays.length ≤ (arrays.flatMap tokens).length := by
    rw [List.length_flatMap]
    calc arrays.length = (arrays.map fun _ => 1).sum := by simp
      _ ≤ (arrays.map fun array => (tokens array).length).sum :=
        List.sum_le_sum htokens
  rw [readArrays, htext]
  exact declarations_flatMap harrays hcount

/-! ## Printed lines -/

/-- A row of values, each followed by a comma. -/
theorem tokensFrom_row (hprinted : ∀ value ∈ values, Printed read print value)
    (hvalues : values ≠ []) :
    tokensFrom [] ([',', ' '].intercalate (values.map print) ++ [',']) =
      commaAfter print values := by
  induction values with
  | nil => exact absurd rfl hvalues
  | cons value values ih =>
      have hword := (hprinted value List.mem_cons_self).isWord
      cases values with
      | nil =>
          rw [List.map_singleton, List.intercalate_singleton,
            tokensFrom_word_punctuator hword (by decide)]
          rfl
      | cons next values =>
          have hrest := ih (fun value hvalue => hprinted value (List.mem_cons_of_mem _ hvalue))
            (List.cons_ne_nil _ _)
          rw [List.map_cons, List.map_cons, List.intercalate_cons_cons, ← List.map_cons,
            List.append_assoc, List.append_assoc, List.cons_append,
            tokensFrom_word_punctuator hword (by decide), List.singleton_append, tokensFrom,
            if_neg (by decide), if_pos (by decide), hrest]
          rfl

/-- Values in one line, up to the blank in front of the closing brace. -/
theorem tokensFrom_vector (hprinted : ∀ value ∈ values, Printed read print value)
    (rest : List Char) :
    tokensFrom [] ([','].intercalate (values.map print) ++ ' ' :: rest) =
      commaBetween print values ++ tokensFrom [] rest := by
  induction values with
  | nil =>
      rw [List.map_nil, List.intercalate_nil, List.nil_append, tokensFrom, if_neg (by decide),
        if_pos (by decide)]
      rfl
  | cons value values ih =>
      have hword := (hprinted value List.mem_cons_self).isWord
      cases values with
      | nil =>
          rw [List.map_singleton, List.intercalate_singleton, tokensFrom_word_blank hword]
          rfl
      | cons next values =>
          have hrest := ih fun value hvalue => hprinted value (List.mem_cons_of_mem _ hvalue)
          rw [List.map_cons, List.map_cons, List.intercalate_cons_cons, ← List.map_cons,
            List.append_assoc, List.append_assoc, List.singleton_append,
            tokensFrom_word_punctuator hword (by decide), hrest]
          rfl

end DoomsdayModules.ArrayDeclarations
