import DoomsdayModules.Fat16.Lookup

/-!
# Names in 8.3 form

A name field is a stem of eight bytes and an extension of three, each padded
with spaces.  Decoding reads each part up to its first space and puts a dot
between them if there is an extension; encoding splits at the first dot, bounds
the lengths of the parts and writes them in upper case over a field of spaces.
A dot with nothing behind it leaves no trace in the field, and a space is
padding to the decoder wherever it stands.
-/

namespace DoomsdayModules.Fat16.ShortName

open DoomsdayModules.Fat16.Directory DoomsdayModules.Fat16.Lookup

/-! ## Upper case -/

/-- The lower-case letters of the kernel's character table, ASCII and Latin-1. -/
def isLower (c : UInt8) : Bool :=
  (0x61 ≤ c && c ≤ 0x7A) || (0xDF ≤ c && c != 0xF7)

/-- The kernel's `toupper`. -/
def toupper (c : UInt8) : UInt8 := if isLower c then c - 0x20 else c

theorem toupper_eq_iff_of_sign {sign : UInt8} (hsign : sign < 0x40) (c : UInt8) :
    toupper c = sign ↔ c = sign := by
  have hall : ∀ n : Fin 256, UInt8.ofFin n < 0x40 ∧ toupper (UInt8.ofFin n) = UInt8.ofFin n ∨
      0x40 ≤ UInt8.ofFin n ∧ 0x40 ≤ toupper (UInt8.ofFin n) := by
    decide +kernel
  rcases hall c.toFin with ⟨-, hsame⟩ | ⟨hletter, hupper⟩
  · exact (congrArg (· = sign) hsame).to_iff
  · constructor
    · rintro rfl
      exact absurd hsign (UInt8.not_lt.mpr hupper)
    · rintro rfl
      exact absurd hsign (UInt8.not_lt.mpr hletter)

theorem toupper_eq_space_iff (c : UInt8) : toupper c = space ↔ c = space :=
  toupper_eq_iff_of_sign (by decide) c

theorem toupper_eq_dot_iff (c : UInt8) : toupper c = dot ↔ c = dot :=
  toupper_eq_iff_of_sign (by decide) c

/-! ## Decoding -/

/-- The bytes of a part before its padding. -/
def unpad (part : List UInt8) : List UInt8 := part.takeWhile (· ≠ space)

/-- A stem and an extension as one name. -/
def joinName (stem ext : List UInt8) : List UInt8 :=
  if ext = [] then stem else stem ++ dot :: ext

theorem unpad_cons_of_ne {c : UInt8} (hc : c ≠ space) (part : List UInt8) :
    unpad (c :: part) = c :: unpad part := by
  simp [unpad, hc]

theorem space_notMem_unpad (part : List UInt8) : space ∉ unpad part := by
  intro hmem
  simpa using List.mem_takeWhile_imp hmem

theorem unpad_eq_self {part : List UInt8} (hpart : space ∉ part) : unpad part = part := by
  rw [unpad, List.takeWhile_eq_self_iff]
  intro c hc
  have hne : c ≠ space := fun hspace => hpart (hspace ▸ hc)
  simpa using hne

theorem length_unpad_le (part : List UInt8) : (unpad part).length ≤ part.length :=
  (List.takeWhile_sublist _).length_le

theorem copyUntilSpace_eq {outsz : ℕ} (source out : List UInt8)
    (hroom : out.length + (unpad source).length < outsz) :
    copyUntilSpace outsz source out = some (out ++ unpad source) := by
  induction source generalizing out with
  | nil => simp [copyUntilSpace, unpad]
  | cons c rest ih =>
      by_cases hspace : c = space
      · rw [copyUntilSpace, if_pos hspace]
        simp [unpad, hspace]
      · rw [unpad_cons_of_ne hspace, List.length_cons] at hroom
        rw [copyUntilSpace, if_neg hspace, if_neg (by omega), unpad_cons_of_ne hspace,
          ih (out ++ [c]) (by rw [List.length_append, List.length_singleton]; omega),
          List.append_assoc, List.singleton_append]

/-- Decoding joins what the two parts hold before their padding. -/
theorem str83_eq {stem ext : List UInt8} (hstem : stem.length = 8) (hext : ext.length = 3) :
    str83 (stem ++ ext) 13 = some (joinName (unpad stem) (unpad ext)) := by
  have htake : (stem ++ ext).take 8 = stem := by rw [← hstem, List.take_left]
  have hdrop : (stem ++ ext).drop 8 = ext := by rw [← hstem, List.drop_left]
  have hstemLength := length_unpad_le stem
  have hextLength := length_unpad_le ext
  rw [str83, htake, hdrop,
    copyUntilSpace_eq stem [] (by rw [List.length_nil]; omega), Option.bind_some, List.nil_append]
  obtain ⟨first, rest, rfl⟩ := List.exists_cons_of_length_pos (by omega : 0 < ext.length)
  have hfirst : (stem ++ first :: rest).getD 8 0 = first := by
    simp [List.getD_eq_getElem?_getD, ← hstem]
  rw [hfirst]
  by_cases hspace : first = space
  · rw [if_neg (not_not.mpr hspace)]
    simp [joinName, unpad, hspace]
  · rw [if_pos hspace, if_neg (by omega), copyUntilSpace_eq _ _ (by
      rw [List.length_append, List.length_singleton]; omega), joinName, if_neg (by
      rw [unpad_cons_of_ne hspace]; exact List.cons_ne_nil _ _), List.append_assoc,
      List.singleton_append]

/-! ## Encoding -/

/-- Write the characters of a part over the field, from index `i` on. -/
def copyUpper : List UInt8 → ℕ → List UInt8 → List UInt8
  | out83, _, [] => out83
  | out83, i, c :: rest => copyUpper (out83.set i (toupper c)) (i + 1) rest

/-- The kernel's `strsep` at a dot: the token before it, and what is left behind it. -/
def strsep : List UInt8 → List UInt8 × Option (List UInt8)
  | [] => ([], none)
  | c :: rest => if c = dot then ([], some rest) else (c :: (strsep rest).1, (strsep rest).2)

/-- `fat16_str_to_83` of a name of `namelen` bytes: the field, `none` for the
result -1.  The copy in the buffer is a C string and ends at a zero. -/
def strTo83 (name : List UInt8) : Option (List UInt8) :=
  if 13 ≤ name.length then none
  else
    let parts := strsep (name.takeWhile (· ≠ 0))
    let stem := parts.1
    let ext := parts.2.getD []
    if 8 < stem.length ∨ 3 < ext.length then none
    else some (copyUpper (copyUpper (List.replicate 11 space) 0 stem) 8 ext)

/-- A part of a field, padded to its width. -/
def pad (width : ℕ) (part : List UInt8) : List UInt8 :=
  part ++ List.replicate (width - part.length) space

theorem length_pad {width : ℕ} {part : List UInt8} (hpart : part.length ≤ width) :
    (pad width part).length = width := by
  rw [pad, List.length_append, List.length_replicate]
  omega

theorem unpad_append_spaces (part : List UInt8) (count : ℕ) :
    unpad (part ++ List.replicate count space) = unpad part := by
  induction part with
  | nil => cases count <;> simp [unpad, List.replicate_succ]
  | cons c rest ih =>
      by_cases hspace : c = space
      · simp [unpad, hspace]
      · rw [List.cons_append, unpad_cons_of_ne hspace, unpad_cons_of_ne hspace, ih]

/-- The loop overwrites as many bytes of the field as the part has. -/
theorem copyUpper_eq (before old after part : List UInt8) (hold : old.length = part.length) :
    copyUpper (before ++ old ++ after) before.length part =
      before ++ part.map toupper ++ after := by
  induction part generalizing before old with
  | nil =>
      rw [List.length_eq_zero_iff.mp hold]
      rfl
  | cons c rest ih =>
      obtain ⟨first, old, rfl⟩ := List.exists_cons_of_length_eq_add_one hold
      have hset : (before ++ first :: old ++ after).set before.length (toupper c) =
          before ++ [toupper c] ++ old ++ after := by
        simp
      have hlength : before.length + 1 = (before ++ [toupper c]).length := by
        rw [List.length_append, List.length_singleton]
      rw [copyUpper, hset, hlength, ih (before ++ [toupper c]) old (Nat.succ_injective hold),
        List.map_cons, List.append_assoc before, List.singleton_append]

theorem copyUpper_field {stem ext : List UInt8} (hstem : stem.length ≤ 8)
    (hext : ext.length ≤ 3) :
    copyUpper (copyUpper (List.replicate 11 space) 0 stem) 8 ext =
      pad 8 (stem.map toupper) ++ pad 3 (ext.map toupper) := by
  have hspaces : List.replicate 11 space = [] ++ List.replicate stem.length space ++
      (List.replicate (8 - stem.length) space ++
        (List.replicate ext.length space ++ List.replicate (3 - ext.length) space)) := by
    simp only [List.nil_append, List.replicate_append_replicate]
    congr 1
    omega
  have hwidth : (stem.map toupper ++ List.replicate (8 - stem.length) space).length = 8 := by
    rw [List.length_append, List.length_map, List.length_replicate]
    omega
  have hstemField := copyUpper_eq [] (List.replicate stem.length space)
    (List.replicate (8 - stem.length) space ++
      (List.replicate ext.length space ++ List.replicate (3 - ext.length) space)) stem (by simp)
  have hextField := copyUpper_eq (stem.map toupper ++ List.replicate (8 - stem.length) space)
    (List.replicate ext.length space) (List.replicate (3 - ext.length) space) ext (by simp)
  rw [hwidth] at hextField
  rw [hspaces]
  simp only [List.length_nil, List.nil_append, List.append_assoc] at hstemField hextField ⊢
  rw [hstemField, hextField, pad, pad, List.length_map, List.length_map, List.append_assoc]

theorem strsep_of_notMem {name : List UInt8} (hname : dot ∉ name) : strsep name = (name, none) := by
  induction name with
  | nil => rfl
  | cons c rest ih =>
      obtain ⟨hc, hrest⟩ := not_or.mp (mt List.mem_cons.mpr hname)
      rw [strsep, if_neg (Ne.symm hc), ih hrest]

theorem strsep_append {stem : List UInt8} (hstem : dot ∉ stem) (ext : List UInt8) :
    strsep (stem ++ dot :: ext) = (stem, some ext) := by
  induction stem with
  | nil => rw [List.nil_append, strsep, if_pos rfl]
  | cons c rest ih =>
      obtain ⟨hc, hrest⟩ := not_or.mp (mt List.mem_cons.mpr hstem)
      rw [List.cons_append, strsep, if_neg (Ne.symm hc), ih hrest]

theorem cString_eq_self {name : List UInt8} (hname : 0 ∉ name) : name.takeWhile (· ≠ 0) = name := by
  rw [List.takeWhile_eq_self_iff]
  intro c hc
  have hne : c ≠ 0 := fun hzero => hname (hzero ▸ hc)
  simpa using hne

/-- Encoding accepts a name for the lengths of its parts alone. -/
theorem strTo83_eq_some_iff {name : List UInt8} (hname : 0 ∉ name) (name83 : List UInt8) :
    strTo83 name = some name83 ↔
      name.length < 13 ∧ (strsep name).1.length ≤ 8 ∧ ((strsep name).2.getD []).length ≤ 3 ∧
        name83 = pad 8 ((strsep name).1.map toupper) ++
          pad 3 (((strsep name).2.getD []).map toupper) := by
  simp only [strTo83, cString_eq_self hname]
  by_cases hlong : 13 ≤ name.length
  · rw [if_pos hlong]
    exact iff_of_false (by simp) fun haccepted => absurd hlong (Nat.not_le.mpr haccepted.1)
  rw [if_neg hlong]
  by_cases hparts : 8 < (strsep name).1.length ∨ 3 < ((strsep name).2.getD []).length
  · rw [if_pos hparts]
    exact iff_of_false (by simp) fun haccepted => by omega
  · obtain ⟨hstem, hext⟩ := not_or.mp hparts
    rw [if_neg hparts, copyUpper_field (Nat.not_lt.mp hstem) (Nat.not_lt.mp hext),
      Option.some.injEq]
    constructor
    · rintro rfl
      exact ⟨Nat.not_le.mp hlong, Nat.not_lt.mp hstem, Nat.not_lt.mp hext, rfl⟩
    · rintro ⟨-, -, -, rfl⟩
      rfl

/-- A field of two padded parts decodes to what these hold before a space. -/
theorem str83_pad {stem ext : List UInt8} (hstem : stem.length ≤ 8) (hext : ext.length ≤ 3) :
    str83 (pad 8 stem ++ pad 3 ext) 13 = some (joinName (unpad stem) (unpad ext)) := by
  rw [str83_eq (length_pad hstem) (length_pad hext), pad, pad, unpad_append_spaces,
    unpad_append_spaces]

/-! ## Decoding, then encoding -/

/-- A part whose bytes are followed by spaces only. -/
def SpacePadded (part : List UInt8) : Prop :=
  ∃ run count, part = run ++ List.replicate count space ∧ space ∉ run

theorem pad_unpad {width : ℕ} {part : List UInt8} (hlength : part.length = width)
    (hpadded : SpacePadded part) : pad width (unpad part) = part := by
  obtain ⟨run, count, rfl, hrun⟩ := hpadded
  rw [List.length_append, List.length_replicate] at hlength
  have hcount : width - run.length = count := by omega
  rw [unpad_append_spaces, unpad_eq_self hrun, pad, hcount]

theorem mem_of_mem_unpad {c : UInt8} {part : List UInt8} (hc : c ∈ unpad part) : c ∈ part :=
  (List.takeWhile_sublist _).subset hc

theorem strsep_joinName {stem ext : List UInt8} (hstem : dot ∉ stem) :
    (strsep (joinName stem ext)).1 = stem ∧ (strsep (joinName stem ext)).2.getD [] = ext := by
  rw [joinName]
  split
  · rename_i hext
    rw [strsep_of_notMem hstem, hext]
    exact ⟨rfl, rfl⟩
  · rw [strsep_append hstem]
    exact ⟨rfl, rfl⟩

theorem mem_joinName {c : UInt8} {stem ext : List UInt8} (hc : c ∈ joinName stem ext) :
    c ∈ stem ∨ c = dot ∨ c ∈ ext := by
  rw [joinName] at hc
  split at hc
  · exact .inl hc
  · simpa using hc

theorem length_joinName_le (stem ext : List UInt8) :
    (joinName stem ext).length ≤ stem.length + 1 + ext.length := by
  rw [joinName]
  split
  · omega
  · rw [List.length_append, List.length_cons]
    omega

theorem map_toupper_eq_self {part : List UInt8} (hpart : ∀ c ∈ part, toupper c = c) :
    part.map toupper = part := by
  rw [List.map_congr_left hpart, List.map_id']

/-- A well-formed field survives the trip through its name. -/
theorem decode_encode {name83 : List UInt8} (hlength : name83.length = 11)
    (hstem : SpacePadded (name83.take 8)) (hext : SpacePadded (name83.drop 8))
    (hbytes : ∀ c ∈ name83, c ≠ 0 ∧ c ≠ dot ∧ toupper c = c) :
    ∃ name, str83 name83 13 = some name ∧ strTo83 name = some name83 := by
  have htake : (name83.take 8).length = 8 := by
    rw [List.length_take]
    omega
  have hdrop : (name83.drop 8).length = 3 := by
    rw [List.length_drop]
    omega
  have hdecoded := str83_eq htake hdrop
  rw [List.take_append_drop] at hdecoded
  have hstemBytes : ∀ c ∈ unpad (name83.take 8), c ≠ 0 ∧ c ≠ dot ∧ toupper c = c :=
    fun c hc => hbytes c (List.mem_of_mem_take (mem_of_mem_unpad hc))
  have hextBytes : ∀ c ∈ unpad (name83.drop 8), c ≠ 0 ∧ c ≠ dot ∧ toupper c = c :=
    fun c hc => hbytes c (List.mem_of_mem_drop (mem_of_mem_unpad hc))
  have hzero : 0 ∉ joinName (unpad (name83.take 8)) (unpad (name83.drop 8)) := by
    intro hmem
    rcases mem_joinName hmem with hc | hc | hc
    · exact (hstemBytes 0 hc).1 rfl
    · exact absurd hc (by decide)
    · exact (hextBytes 0 hc).1 rfl
  obtain ⟨hstemPart, hextPart⟩ := @strsep_joinName (unpad (name83.take 8)) (unpad (name83.drop 8))
    (fun hmem => (hstemBytes dot hmem).2.1 rfl)
  have hstemLength := length_unpad_le (name83.take 8)
  have hextLength := length_unpad_le (name83.drop 8)
  have hjoined := length_joinName_le (unpad (name83.take 8)) (unpad (name83.drop 8))
  refine ⟨_, hdecoded, (strTo83_eq_some_iff hzero name83).mpr ?_⟩
  rw [hstemPart, hextPart]
  refine ⟨by omega, by omega, by omega, ?_⟩
  rw [map_toupper_eq_self fun c hc => (hstemBytes c hc).2.2,
    map_toupper_eq_self fun c hc => (hextBytes c hc).2.2, pad_unpad htake hstem,
    pad_unpad hdrop hext, List.take_append_drop]

/-- The field of `NOTE.TXT`. -/
def noteField : List UInt8 := [0x4E, 0x4F, 0x54, 0x45, space, space, space, space, 0x54, 0x58, 0x54]

theorem decode_encode_note :
    ∃ name, str83 noteField 13 = some name ∧ strTo83 name = some noteField :=
  have hstem : SpacePadded (noteField.take 8) :=
    ⟨[0x4E, 0x4F, 0x54, 0x45], 4, by decide +kernel, by decide +kernel⟩
  have hext : SpacePadded (noteField.drop 8) :=
    ⟨[0x54, 0x58, 0x54], 0, by decide +kernel, by decide +kernel⟩
  decode_encode rfl hstem hext (by decide +kernel)

/-! ## Encoding, then decoding -/

/-- No space, and no first dot with nothing behind it. -/
def Representable (name : List UInt8) : Prop :=
  space ∉ name ∧ (dot ∈ name → dot ∈ name.dropLast)

instance (name : List UInt8) : Decidable (Representable name) := by
  unfold Representable
  infer_instance

theorem space_mem_map_toupper (name : List UInt8) : space ∈ name.map toupper ↔ space ∈ name := by
  simp only [List.mem_map, toupper_eq_space_iff, exists_eq_right]

theorem space_notMem_joinName (stem ext : List UInt8) :
    space ∉ joinName (unpad stem) (unpad ext) := by
  intro hmem
  rcases mem_joinName hmem with hc | hc | hc
  · exact space_notMem_unpad stem hc
  · exact absurd hc (by decide)
  · exact space_notMem_unpad ext hc

/-- A name without a dot is decoded as it was exactly if it has no space. -/
theorem joinName_stem_iff {name : List UInt8} (hdot : dot ∉ name) :
    joinName (unpad (name.map toupper)) (unpad []) = name.map toupper ↔ Representable name := by
  rw [joinName, if_pos (by rfl)]
  constructor
  · intro hsame
    refine ⟨fun hspace => ?_, fun hmem => absurd hmem hdot⟩
    rw [← space_mem_map_toupper, ← hsame] at hspace
    exact space_notMem_unpad _ hspace
  · rintro ⟨hspace, -⟩
    exact unpad_eq_self (by rwa [space_mem_map_toupper])

/-- A name with a dot is decoded as it was exactly if it has no space and
something behind the first dot. -/
theorem joinName_parts_iff {stem ext : List UInt8} (hdot : dot ∉ stem) :
    joinName (unpad (stem.map toupper)) (unpad (ext.map toupper)) =
        (stem ++ dot :: ext).map toupper ↔ Representable (stem ++ dot :: ext) := by
  have hupper : (stem ++ dot :: ext).map toupper =
      stem.map toupper ++ dot :: ext.map toupper := by
    rw [List.map_append, List.map_cons, (toupper_eq_dot_iff dot).mpr rfl]
  constructor
  · intro hsame
    have hspace : space ∉ stem ++ dot :: ext := by
      intro hmem
      rw [← space_mem_map_toupper, ← hsame] at hmem
      exact space_notMem_joinName _ _ hmem
    refine ⟨hspace, fun _ => ?_⟩
    cases ext with
    | nil =>
        have hstemLength := length_unpad_le (stem.map toupper)
        have hlength := congrArg List.length hsame
        rw [hupper] at hlength
        simp [joinName, unpad] at hlength hstemLength
        omega
    | cons c rest => simp
  · rintro ⟨hspace, hlast⟩
    have hext : ext ≠ [] := by
      rintro rfl
      have hmem := hlast (by simp)
      simp [hdot] at hmem
    have hstemSpace : space ∉ stem.map toupper := by
      rw [space_mem_map_toupper]
      exact fun hmem => hspace (List.mem_append_left _ hmem)
    have hextSpace : space ∉ ext.map toupper := by
      rw [space_mem_map_toupper]
      exact fun hmem => hspace (List.mem_append_right _ (List.mem_cons_of_mem _ hmem))
    rw [unpad_eq_self hstemSpace, unpad_eq_self hextSpace, joinName,
      if_neg (by simpa using hext), hupper]

/-- The field of an accepted name decodes, and to the name in upper case exactly
if the name is representable. -/
theorem str83_of_strTo83 {name name83 : List UInt8} (hname : 0 ∉ name)
    (haccepted : strTo83 name = some name83) :
    (∃ out, str83 name83 13 = some out) ∧
      (str83 name83 13 = some (name.map toupper) ↔ Representable name) := by
  obtain ⟨-, hstem, hext, rfl⟩ := (strTo83_eq_some_iff hname name83).mp haccepted
  have hdecoded := @str83_pad ((strsep name).1.map toupper) (((strsep name).2.getD []).map toupper)
    (by rwa [List.length_map]) (by rwa [List.length_map])
  refine ⟨⟨_, hdecoded⟩, ?_⟩
  rw [hdecoded, Option.some.injEq]
  by_cases hdot : dot ∈ name
  · obtain ⟨stem, ext, rfl, hstemDot⟩ := List.eq_append_cons_of_mem hdot
    rw [strsep_append hstemDot]
    exact joinName_parts_iff hstemDot
  · rw [strsep_of_notMem hdot]
    exact joinName_stem_iff hdot

/-- An accepted name comes back in upper case exactly if it is representable,
and a representable name shares its field with the representable names that
equal it in upper case and with no other representable name. -/
theorem encode_decode_iff {name name83 : List UInt8} (hname : 0 ∉ name)
    (haccepted : strTo83 name = some name83) :
    (∃ out, str83 name83 13 = some out) ∧
      (str83 name83 13 = some (name.map toupper) ↔ Representable name) ∧
      ∀ other, 0 ∉ other → strTo83 other = some name83 → Representable name →
        (name.map toupper = other.map toupper ↔ Representable other) := by
  obtain ⟨hdecodes, hback⟩ := str83_of_strTo83 hname haccepted
  refine ⟨hdecodes, hback, fun other hother hotherAccepted hrepresentable => ?_⟩
  have hotherBack := (str83_of_strTo83 hother hotherAccepted).2
  rwa [hback.mpr hrepresentable, Option.some.injEq] at hotherBack

theorem encode_decode_note :
    (∃ out, str83 noteField 13 = some out) ∧
      (str83 noteField 13 = some (noteName.map toupper) ↔ Representable noteName) ∧
      ∀ other, 0 ∉ other → strTo83 other = some noteField → Representable noteName →
        (noteName.map toupper = other.map toupper ↔ Representable other) :=
  encode_decode_iff (by decide +kernel) (by decide +kernel)

/-- The names `A.` and `A` get one field, and it decodes to `A`. -/
theorem not_encode_decode_trailing_dot :
    (¬ ∀ name name83 : List UInt8, 0 ∉ name → strTo83 name = some name83 →
      str83 name83 13 = some (name.map toupper)) ∧
    ¬ ∀ name other name83 : List UInt8, 0 ∉ name → 0 ∉ other → strTo83 name = some name83 →
      strTo83 other = some name83 → name.map toupper = other.map toupper := by
  have hzero : (0 : UInt8) ∉ [0x41, dot] := by decide +kernel
  have hdotted : strTo83 [0x41, dot] = some (0x41 :: List.replicate 10 space) := by decide +kernel
  have hplain : strTo83 [0x41] = some (0x41 :: List.replicate 10 space) := by decide +kernel
  constructor
  · intro hclaim
    have hback := hclaim _ _ hzero hdotted
    exact absurd hback (by decide +kernel)
  · intro hclaim
    have hsame := hclaim _ _ _ hzero (by decide +kernel) hdotted hplain
    exact absurd hsame (by decide +kernel)

end DoomsdayModules.Fat16.ShortName
