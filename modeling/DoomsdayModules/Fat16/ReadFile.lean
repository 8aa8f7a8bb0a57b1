import DoomsdayModules.Core.Runs
import DoomsdayModules.Fat16.Image

/-!
# Reading a file

`read_iter` bounds the request by what the file has left after the position,
and then copies clusters to the caller until the bound is reached or the chain
ends.  The position is not used to choose the first cluster, nor an offset in
it: every call starts at the first byte of the file.  A position past the end
of the file makes the bound wrap around.
-/

namespace DoomsdayModules.Fat16.ReadFile

open DoomsdayModules.Runs DoomsdayModules.Fat16.Image

/-- The destination of a read: how much is asked for, how much of it can be
written before a fault, and what has been copied. -/
structure IovIter where
  count : ℕ
  writable : ℕ
  delivered : List UInt8

/-- The kernel's `copy_to_iter`: the number of bytes copied, and the advanced iterator. -/
def copyToIter (bytes : List UInt8) (to_ : IovIter) : ℕ × IovIter :=
  let copied := min bytes.length (min to_.count to_.writable)
  (copied, ⟨to_.count - copied, to_.writable - copied, to_.delivered ++ bytes.take copied⟩)

/-- `file_size - ki_pos` as the unsigned 64-bit number it is compared as. -/
def remaining (fileSize kiPos : ℕ) : ℕ := (fileSize + 2 ^ 64 - kiPos) % 2 ^ 64

/-- `bytes_requested` after the bound at the end of the file. -/
def bytesRequested (count fileSize kiPos : ℕ) : ℕ :=
  if remaining fileSize kiPos < count then remaining fileSize kiPos else count

/-- `bytes_requested_from_cluster`, with `left` bytes still to be read. -/
def requestedFromCluster (bytesPerCluster left : ℕ) : ℕ :=
  if left < bytesPerCluster then left else bytesPerCluster

/-- The copying loop, by rounds left: `none` is a loop that is still running. -/
def readLoop (volume : Volume) (requested : ℕ) :
    ℕ → ℕ → ℕ → IovIter → Option (Except Int ℕ × IovIter)
  | 0, _, _, _ => none
  | fuel + 1, cluster, bytesRead, to_ =>
      if bytesRead < requested ∧ cluster < finalCluster then
        match readCluster volume cluster with
        | .error _ => some (.error eio, to_)
        | .ok buf =>
            let fromCluster :=
              requestedFromCluster volume.sbi.bytesPerCluster (requested - bytesRead)
            let copy := copyToIter (buf.take fromCluster) to_
            if copy.1 ≠ fromCluster then some (.error eio, copy.2)
            else
              match nextCluster volume cluster with
              | .error _ => some (.error eio, copy.2)
              | .ok next => readLoop volume requested fuel next (bytesRead + copy.1) copy.2
      else some (.ok bytesRead, to_)

/-- What a call returns, the position it leaves and the advanced iterator. -/
structure ReadReply where
  ret : Int
  kiPos : ℕ
  to_ : IovIter

/-- `allocated` is whether `kmalloc` had room for the cluster buffer. -/
def penguinFat16ReadIter (fuel : ℕ) (volume : Volume) (ino : InodeInfo) (allocated : Bool)
    (kiPos : ℕ) (to_ : IovIter) : Option ReadReply :=
  if allocated then
    match readLoop volume (bytesRequested to_.count ino.fileSize kiPos) fuel ino.startCluster 0 to_
      with
    | none => none
    | some (.error code, to_) => some ⟨code, kiPos, to_⟩
    | some (.ok bytesRead, to_) => some ⟨bytesRead, kiPos + bytesRead, to_⟩
  else some ⟨enomem, kiPos, to_⟩

/-! ## One call -/

theorem bytesRequested_of_le {count fileSize kiPos : ℕ} (hpos : kiPos ≤ fileSize)
    (hsize : fileSize < 2 ^ 32) :
    bytesRequested count fileSize kiPos = min count (fileSize - kiPos) := by
  have hremaining : remaining fileSize kiPos = fileSize - kiPos := by
    simp only [remaining]
    omega
  rw [bytesRequested, hremaining]
  split <;> omega

theorem bytesRequested_pos_of_lt {count fileSize kiPos : ℕ} (hpast : fileSize < kiPos)
    (hpos : kiPos < 2 ^ 63) (hcount : 0 < count) : 0 < bytesRequested count fileSize kiPos := by
  have hremaining : 0 < remaining fileSize kiPos := by
    simp only [remaining]
    omega
  rw [bytesRequested]
  split <;> omega

theorem bytesRequested_le (count fileSize kiPos : ℕ) :
    bytesRequested count fileSize kiPos ≤ count := by
  rw [bytesRequested]
  split <;> omega

theorem copyToIter_all {bytes : List UInt8} {to_ : IovIter} (hcount : bytes.length ≤ to_.count)
    (hwritable : bytes.length ≤ to_.writable) :
    copyToIter bytes to_ = (bytes.length, ⟨to_.count - bytes.length,
      to_.writable - bytes.length, to_.delivered ++ bytes⟩) := by
  have hcopied : min bytes.length (min to_.count to_.writable) = bytes.length := by omega
  simp only [copyToIter, hcopied, List.take_length]

theorem requestedFromCluster_eq_min (bytesPerCluster left : ℕ) :
    requestedFromCluster bytesPerCluster left = min left bytesPerCluster := by
  rw [requestedFromCluster]
  split <;> omega

/-- One round copies what is wanted of one cluster and goes on in the next. -/
theorem readLoop_round {volume : Volume} {requested fuel cluster next bytesRead : ℕ}
    {data : List UInt8} {to_ : IovIter} (hcluster : cluster < finalCluster)
    (hdata : readCluster volume cluster = .ok data)
    (hnext : nextCluster volume cluster = .ok next) (hread : bytesRead < requested)
    (hcount : requested - bytesRead ≤ to_.count)
    (hwritable : requested - bytesRead ≤ to_.writable) :
    readLoop volume requested (fuel + 1) cluster bytesRead to_ =
      readLoop volume requested fuel next
        (bytesRead + min (requested - bytesRead) volume.sbi.bytesPerCluster)
        ⟨to_.count - min (requested - bytesRead) volume.sbi.bytesPerCluster,
          to_.writable - min (requested - bytesRead) volume.sbi.bytesPerCluster,
          to_.delivered ++ data.take (requested - bytesRead)⟩ := by
  have hlength := readCluster_length hdata
  have htaken : (data.take (min (requested - bytesRead) volume.sbi.bytesPerCluster)).length =
      min (requested - bytesRead) volume.sbi.bytesPerCluster := by
    rw [List.length_take]
    omega
  have htake : data.take (min (requested - bytesRead) volume.sbi.bytesPerCluster) =
      data.take (requested - bytesRead) := by
    rw [← hlength, ← List.take_eq_take_min]
  have hcopy := @copyToIter_all
    (data.take (min (requested - bytesRead) volume.sbi.bytesPerCluster)) to_ (by omega) (by omega)
  rw [htaken, htake] at hcopy
  simp only [readLoop, if_pos (And.intro hread hcluster), hdata, requestedFromCluster_eq_min,
    htake, hcopy, ne_eq, not_true_eq_false, if_false, hnext]

/-- The loop delivers the chain from its first byte on, as far as was requested. -/
theorem readLoop_chain {volume : Volume} {requested fuel cluster bytesRead : ℕ}
    {links : List Link} {to_ : IovIter} (hchain : Chain volume cluster links)
    (hfuel : links.length < fuel) (hread : bytesRead ≤ requested)
    (hcount : requested - bytesRead ≤ to_.count)
    (hwritable : requested - bytesRead ≤ to_.writable) :
    ∃ after, readLoop volume requested fuel cluster bytesRead to_ =
        some (.ok (bytesRead + ((chainData links).take (requested - bytesRead)).length), after) ∧
      after.delivered = to_.delivered ++ (chainData links).take (requested - bytesRead) := by
  induction hchain generalizing fuel bytesRead to_ with
  | stop hfinal =>
      obtain ⟨fuel, rfl⟩ := Nat.exists_eq_succ_of_ne_zero (Nat.ne_of_gt hfuel)
      exact ⟨to_, by simp [readLoop, Nat.not_lt.mpr hfinal], by simp⟩
  | @link cluster next data rest hcluster hdata hnext _ ih =>
      obtain ⟨fuel, rfl⟩ := Nat.exists_eq_succ_of_ne_zero (Nat.ne_of_gt (Nat.zero_lt_of_lt hfuel))
      rcases hread.lt_or_eq with hmore | rfl
      · have hlength := readCluster_length hdata
        have hround := @readLoop_round volume requested fuel cluster next bytesRead data to_ hcluster
          hdata hnext hmore hcount hwritable
        generalize hsize : min (requested - bytesRead) volume.sbi.bytesPerCluster = size at hround
        have hleft : requested - (bytesRead + size) = requested - bytesRead - data.length := by
          omega
        obtain ⟨after, hafter, hdelivered⟩ := @ih fuel (bytesRead + size)
          ⟨to_.count - size, to_.writable - size,
            to_.delivered ++ data.take (requested - bytesRead)⟩
          (by simpa using hfuel) (by omega) (by simp only; omega) (by simp only; omega)
        have hsplit : (chainData (⟨cluster, data⟩ :: rest)).take (requested - bytesRead) =
            data.take (requested - bytesRead) ++
              (chainData rest).take (requested - (bytesRead + size)) := by
          rw [chainData_cons, List.take_append, hleft]
        refine ⟨after, ?_, ?_⟩
        · have htaken : (data.take (requested - bytesRead)).length = size := by
            rw [List.length_take, hlength, hsize]
          rw [hround, hafter, hsplit, List.length_append, htaken, Nat.add_assoc]
        · rw [hdelivered, hsplit, List.append_assoc]
      · exact ⟨to_, by simp [readLoop], by simp⟩

/-! ## Files -/

/-- A file whose chain comes to an end and has clusters enough for its size. -/
structure RegularFile where
  volume : Volume
  ino : InodeInfo
  links : List Link
  chain : Chain volume ino.startCluster links
  fileSize_le : ino.fileSize ≤ (chainData links).length
  sectorsPerCluster_pos : 1 ≤ volume.sbi.sectorsPerCluster

namespace RegularFile

variable (file : RegularFile)

/-- The clusters in chain order, cut to the size of the file. -/
def content : List UInt8 := (chainData file.links).take file.ino.fileSize

@[simp]
theorem length_content : file.content.length = file.ino.fileSize := by
  rw [content, List.length_take]
  exact min_eq_left file.fileSize_le

theorem chainData_eq_nil_iff : chainData file.links = [] ↔ file.links = [] := by
  constructor
  · intro hdata
    cases hlinks : file.links with
    | nil => rfl
    | cons link rest =>
        have hlength := file.chain.length_data link (by simp [hlinks])
        have hpos : 0 < file.volume.sbi.bytesPerCluster := by
          rw [file.volume.sbi.bytesPerCluster_eq]
          exact Nat.mul_pos file.volume.sbi.bytesPerSector_pos file.sectorsPerCluster_pos
        rw [hlinks, chainData_cons, List.append_eq_nil_iff] at hdata
        rw [hdata.1, List.length_nil] at hlength
        omega
  · intro hlinks
    rw [hlinks, chainData_nil]

/-- A read of `count` bytes at `pos` into a buffer that can take them. -/
def read (fuel pos count : ℕ) : Option ReadReply :=
  penguinFat16ReadIter fuel file.volume file.ino true pos ⟨count, count, []⟩

/-- The call delivers the bytes of the file at the position and moves past them. -/
def Delivers (pos count : ℕ) (reply : ReadReply) : Prop :=
  reply.to_.delivered = (file.content.drop pos).take count ∧
    reply.ret = reply.to_.delivered.length ∧
    reply.kiPos = pos + reply.to_.delivered.length

/-- The bytes at the position are those at the start of the file, or there is
nothing past its end to be delivered instead. -/
def Repeats (pos count : ℕ) : Prop :=
  (∀ i < count, pos + i < file.ino.fileSize → file.content[i]? = file.content[pos + i]?) ∧
    (file.ino.fileSize < pos → count = 0 ∨ file.links = [])

/-- Every call delivers the start of the file's clusters. -/
theorem read_eq {fuel pos count : ℕ} (hfuel : file.links.length < fuel) :
    ∃ reply, file.read fuel pos count = some reply ∧
      reply.to_.delivered =
        (chainData file.links).take (bytesRequested count file.ino.fileSize pos) ∧
      reply.ret = reply.to_.delivered.length ∧
      reply.kiPos = pos + reply.to_.delivered.length := by
  have hle := bytesRequested_le count file.ino.fileSize pos
  obtain ⟨after, hloop, hdelivered⟩ := @readLoop_chain file.volume
    (bytesRequested count file.ino.fileSize pos) fuel file.ino.startCluster 0 file.links
    ⟨count, count, []⟩ file.chain hfuel (Nat.zero_le _) hle hle
  rw [Nat.sub_zero, Nat.zero_add] at hloop
  rw [Nat.sub_zero, List.nil_append] at hdelivered
  refine ⟨⟨(after.delivered.length : ℕ), pos + after.delivered.length, after⟩, ?_, hdelivered,
    rfl, rfl⟩
  simp only [read, penguinFat16ReadIter, if_true, hloop, hdelivered]

theorem delivers_iff {pos count : ℕ} {reply : ReadReply} (hpos : pos < 2 ^ 63)
    (hdelivered : reply.to_.delivered =
      (chainData file.links).take (bytesRequested count file.ino.fileSize pos))
    (hret : reply.ret = reply.to_.delivered.length)
    (hkiPos : reply.kiPos = pos + reply.to_.delivered.length) :
    file.Delivers pos count reply ↔ file.Repeats pos count := by
  have hsize := file.ino.fileSize_lt
  have hcontent := file.length_content
  have honly : file.Delivers pos count reply ↔
      reply.to_.delivered = (file.content.drop pos).take count :=
    and_iff_left ⟨hret, hkiPos⟩
  rw [honly, hdelivered]
  by_cases hpast : file.ino.fileSize < pos
  · have hnothing : (file.content.drop pos).take count = [] := by
      rw [List.drop_eq_nil_of_le (by omega), List.take_nil]
    rw [hnothing, List.take_eq_nil_iff, file.chainData_eq_nil_iff]
    constructor
    · intro hempty
      refine ⟨fun i _ hi => by omega, fun _ => hempty.imp_left fun hzero => ?_⟩
      by_contra hcount
      have := bytesRequested_pos_of_lt hpast hpos (Nat.pos_of_ne_zero hcount)
      omega
    · rintro ⟨-, hempty⟩
      refine (hempty hpast).imp_left ?_
      rintro rfl
      exact Nat.le_zero.mp (bytesRequested_le 0 _ _)
  · have hinside := Nat.not_lt.mp hpast
    rw [bytesRequested_of_le hinside hsize]
    have hstart : (chainData file.links).take (min count (file.ino.fileSize - pos)) =
        file.content.take (min count (file.ino.fileSize - pos)) := by
      rw [content, List.take_take]
      congr 1
      omega
    have hwanted : (file.content.drop pos).take count =
        (file.content.drop pos).take (min count (file.ino.fileSize - pos)) := by
      rw [List.take_eq_take_min, List.length_drop, hcontent]
    rw [hstart, hwanted, List.ext_getElem?_iff]
    simp only [List.getElem?_take, List.getElem?_drop]
    constructor
    · intro hsame
      refine ⟨fun i hi hend => ?_, fun hlt => absurd hlt hpast⟩
      have hbyte := hsame i
      rwa [if_pos (by omega), if_pos (by omega)] at hbyte
    · rintro ⟨hsame, -⟩ i
      by_cases hi : i < min count (file.ino.fileSize - pos)
      · rw [if_pos hi, if_pos hi]
        exact hsame i (by omega) (by omega)
      · rw [if_neg hi, if_neg hi]

theorem delivers_of_repeats {fuel pos count : ℕ} (hfuel : file.links.length < fuel)
    (hpos : pos < 2 ^ 63) (hrepeats : file.Repeats pos count) :
    ∃ reply, file.read fuel pos count = some reply ∧ file.Delivers pos count reply := by
  obtain ⟨reply, hreply, hdelivered, hret, hkiPos⟩ := @read_eq file fuel pos count hfuel
  exact ⟨reply, hreply, (file.delivers_iff hpos hdelivered hret hkiPos).mpr hrepeats⟩

/-! ## Reading in chunks -/

/-- One more call at the position the last one left. -/
def readChunk (fuel : ℕ) (state : ℕ × List UInt8) (count : ℕ) : Option (ℕ × List UInt8) :=
  (file.read fuel state.1 count).bind fun reply =>
    if reply.ret < 0 then none else some (reply.kiPos, state.2 ++ reply.to_.delivered)

theorem readChunk_of_repeats {fuel pos count : ℕ} (hfuel : file.links.length < fuel)
    (hpos : pos ≤ file.ino.fileSize) (hrepeats : file.Repeats pos count) :
    file.readChunk fuel (pos, file.content.take pos) count =
      some (min (pos + count) file.ino.fileSize, file.content.take (pos + count)) := by
  have hsize := file.ino.fileSize_lt
  have hcontent := file.length_content
  obtain ⟨reply, hreply, hdelivered, hret, hkiPos⟩ :=
    file.delivers_of_repeats hfuel (by omega) hrepeats
  have hlength : reply.to_.delivered.length = min count (file.ino.fileSize - pos) := by
    rw [hdelivered, List.length_take, List.length_drop, hcontent]
  have hforward : pos + min count (file.ino.fileSize - pos) =
      min (pos + count) file.ino.fileSize := by omega
  rw [readChunk, hreply, Option.bind_some, if_neg (by omega), hkiPos, hlength, hforward,
    hdelivered, ← List.take_add]

theorem run_readChunk {fuel pos : ℕ} (counts : List ℕ) (hfuel : file.links.length < fuel)
    (hpos : pos ≤ file.ino.fileSize)
    (hall : AllSteps (file.readChunk fuel) (fun state count => file.Repeats state.1 count)
      (pos, file.content.take pos) counts) :
    run (file.readChunk fuel) (pos, file.content.take pos) counts =
      some (min (pos + counts.sum) file.ino.fileSize, file.content.take (pos + counts.sum)) := by
  induction counts generalizing pos with
  | nil =>
      rw [run_nil, List.sum_nil, Nat.add_zero, min_eq_left hpos]
  | cons count counts ih =>
      have hstep := file.readChunk_of_repeats hfuel hpos hall.1
      have hcut : file.content.take (pos + count) =
          file.content.take (min (pos + count) file.ino.fileSize) := by
        rw [List.take_eq_take_min, file.length_content]
      rw [hcut] at hstep
      have hrest := ih (min_le_right _ _) (hall.2 _ hstep)
      have htotal : min (min (pos + count) file.ino.fileSize + counts.sum) file.ino.fileSize =
          min (pos + (count + counts.sum)) file.ino.fileSize := by omega
      have hbytes : file.content.take (min (pos + count) file.ino.fileSize + counts.sum) =
          file.content.take (pos + (count + counts.sum)) := by
        rw [List.take_eq_take_min, file.length_content, htotal, ← file.length_content,
          ← List.take_eq_take_min]
      rw [run_cons_eq_some]
      exact ⟨_, hstep, by rw [hrest, List.sum_cons, htotal, hbytes]⟩

end RegularFile

/-- A call returns, and delivers the bytes of the file at its position exactly
if these repeat the start of the file and no data lies behind a position past
its end.  Chunks that all do so make up the file. -/
theorem delivers_iff_repeats (file : RegularFile) (fuel : ℕ) (hfuel : file.links.length < fuel) :
    (∀ pos count, pos < 2 ^ 63 → ∃ reply, file.read fuel pos count = some reply ∧
      (file.Delivers pos count reply ↔ file.Repeats pos count)) ∧
    ∀ counts, AllSteps (file.readChunk fuel) (fun state count => file.Repeats state.1 count)
        (0, []) counts →
      run (file.readChunk fuel) (0, []) counts =
        some (min counts.sum file.ino.fileSize, file.content.take counts.sum) := by
  refine ⟨fun pos count hpos => ?_, fun counts hall => ?_⟩
  · obtain ⟨reply, hreply, hdelivered, hret, hkiPos⟩ := @file.read_eq fuel pos count hfuel
    exact ⟨reply, hreply, file.delivers_iff hpos hdelivered hret hkiPos⟩
  · have hrun := @file.run_readChunk fuel 0 counts hfuel (Nat.zero_le _)
      (by simpa only [List.take_zero] using hall)
    simpa only [List.take_zero, Nat.zero_add] using hrun

/-! ## The note of the small image -/

def smallFile : RegularFile where
  volume := smallVolume
  ino := ⟨2, 2, by norm_num, by norm_num⟩
  links := (followChain smallVolume 2 2).get (by decide +kernel)
  chain := Chain.of_followChain (Option.some_get _).symm
  fileSize_le := by decide +kernel
  sectorsPerCluster_pos := by decide +kernel

theorem delivers_smallFile :
    (∀ pos count, pos < 2 ^ 63 → ∃ reply, smallFile.read 2 pos count = some reply ∧
      (smallFile.Delivers pos count reply ↔ smallFile.Repeats pos count)) ∧
    ∀ counts, AllSteps (smallFile.readChunk 2)
        (fun state count => smallFile.Repeats state.1 count) (0, []) counts →
      run (smallFile.readChunk 2) (0, []) counts =
        some (min counts.sum smallFile.ino.fileSize, smallFile.content.take counts.sum) :=
  delivers_iff_repeats smallFile 2 (by decide +kernel)

/-- Reading one byte at position one delivers the byte at position zero. -/
theorem not_delivers_second_byte :
    ¬ ∀ (file : RegularFile) (fuel pos count : ℕ), file.volume.sbi.bytesPerSector = 512 →
      file.links.length < fuel → pos < 2 ^ 63 →
      ∃ reply, file.read fuel pos count = some reply ∧ file.Delivers pos count reply := by
  intro hclaim
  obtain ⟨reply, hreply, hdelivers⟩ := hclaim smallFile 2 1 1 (by decide +kernel)
    (by decide +kernel) (by norm_num)
  obtain ⟨reply', hreply', hdelivered, hret, hkiPos⟩ :=
    @smallFile.read_eq 2 1 1 (by decide +kernel)
  rw [hreply, Option.some.injEq] at hreply'
  subst hreply'
  have hrepeats := (smallFile.delivers_iff (by norm_num) hdelivered hret hkiPos).mp hdelivers
  have hbytes : smallFile.content[0]? ≠ smallFile.content[1]? := by decide +kernel
  exact hbytes (hrepeats.1 0 (by norm_num) (by decide +kernel))

end DoomsdayModules.Fat16.ReadFile
