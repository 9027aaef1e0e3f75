import ObjectStorage.Journal.WriteHandler
import ObjectStorage.Journal.ReadLayout
import ObjectStorage.Library.Transition

/-!
Where the checkpoints of a journal stand: `recover_last_checkpoint` looks for them at the multiples
of the checkpoint interval, `write` places them by a counter that goes up by one interval at a time.
-/

namespace ObjectStorage.Journal

open Library JournalReadHandler

variable {ρ : Type}

/-! ### Offsets of the records of a file -/

/-- The records of a file with their offsets, the first of which is given. -/
def recordOffsets (encode : ρ → Bytes) (offset : Nat) : List (Segment ρ) → List (Nat × ρ)
  | [] => []
  | .record record :: file =>
      (offset, record) :: recordOffsets encode (offset + frameSize (encode record)) file
  | .padding count :: file => recordOffsets encode (offset + count) file

/-- A checkpoint record starts at the offset. -/
def CheckpointAt (encode : ρ → Bytes) (isCheckpoint : ρ → Prop) (file : List (Segment ρ))
    (offset : Nat) : Prop :=
  ∃ placed ∈ recordOffsets encode 0 file, placed.1 = offset ∧ isCheckpoint placed.2

instance (encode : ρ → Bytes) (isCheckpoint : ρ → Prop) [DecidablePred isCheckpoint]
    (file : List (Segment ρ)) (offset : Nat) :
    Decidable (CheckpointAt encode isCheckpoint file offset) :=
  inferInstanceAs (Decidable (∃ placed ∈ _, _))

/-- Every positive multiple of the interval inside the file is where a checkpoint starts. -/
def Aligned (encode : ρ → Bytes) (isCheckpoint : ρ → Prop) (interval : Nat)
    (file : List (Segment ρ)) : Prop :=
  ∀ k, 0 < k → k * interval < (fileBytes encode file).length →
    CheckpointAt encode isCheckpoint file (k * interval)

/-! ### The files of a directory -/

/-- A record to write, with what the subclass does at this moment: the snapshot that it would write
and whether it sets the counter back with it, the checkpoint that it would write, if it writes any,
and the oldest file it keeps when a file is started. -/
structure WriteCall (isCheckpoint : ρ → Prop) where
  snapshot : List ρ
  resets : Bool
  checkpoint : Option { record : ρ // isCheckpoint record }
  record : ρ
  oldestFileId : Nat

/-- `GLJournalWriteHandler`, whose `process_snapshot` and `process_checkpoint` do nothing. -/
def WriteCall.globalLeader {isCheckpoint : ρ → Prop} (record : ρ) (oldestFileId : Nat) :
    WriteCall isCheckpoint := ⟨[], false, none, record, oldestFileId⟩

/-- The bytes a file is started with. -/
def WriteCall.startSize (encode : ρ → Bytes) {isCheckpoint : ρ → Prop}
    (call : WriteCall isCheckpoint) : Nat :=
  (fileBytes encode (call.snapshot.map .record)).length + frameSize (encode call.record)

/-- The handler and the files it does not have open; a file that is not there is empty. -/
structure JournalFiles (ρ : Type) where
  writer : JournalWriteHandler ρ
  stored : Nat → List (Segment ρ)

inductive JournalOp (isCheckpoint : ρ → Prop) where
  | construct
  | setActiveFileId (fileId : Nat)
  | write (call : WriteCall isCheckpoint)

namespace JournalFiles

variable (encode : ρ → Bytes) (config : JournalConfig) {isCheckpoint : ρ → Prop}

/-- The files of a directory under a handler that has just been constructed. -/
def fresh (stored : Nat → List (Segment ρ)) : JournalFiles ρ :=
  ⟨⟨0, 0, [], config.checkpointInterval⟩, stored⟩

def file (j : JournalFiles ρ) (fileId : Nat) : List (Segment ρ) :=
  if fileId = j.writer.activeFileId then j.writer.file else j.stored fileId

def length (j : JournalFiles ρ) : Nat := (fileBytes encode j.writer.file).length

/-- `set_active_file_id`, which leaves the counter for the next checkpoint as it is. -/
def setActiveFileId (j : JournalFiles ρ) (fileId : Nat) : JournalFiles ρ where
  writer := ⟨fileId, fileId, j.file fileId, j.writer.nextCheckpointOffset⟩
  stored := j.file

/-- `remove_old_files`. -/
def removeOldFiles (stored : Nat → List (Segment ρ)) (first last : Nat) : Nat → List (Segment ρ) :=
  fun fileId => if first ≤ fileId ∧ fileId < last then [] else stored fileId

/-- `process_snapshot` and `remove_old_files` on the file that is open. -/
def startFile (j : JournalFiles ρ) (call : WriteCall isCheckpoint) : JournalFiles ρ where
  writer := { j.writer with
    oldestFileId := call.oldestFileId
    file := j.writer.file ++ call.snapshot.map .record
    nextCheckpointOffset :=
      if call.resets then config.checkpointInterval else j.writer.nextCheckpointOffset }
  stored := removeOldFiles j.stored j.writer.oldestFileId call.oldestFileId

/-- `add_padding_bytes` up to the limit, `close` and `rotate_file`. -/
def rotateFile (j : JournalFiles ρ) (offset : Int) : JournalFiles ρ where
  writer := { j.writer with
    activeFileId := j.writer.activeFileId + 1
    file := j.file (j.writer.activeFileId + 1) }
  stored := Function.update j.stored j.writer.activeFileId
    (j.writer.file ++ [.padding (config.maxFileLength - offset).toNat])

/-- `add_padding_bytes` and `process_checkpoint`. -/
def placeCheckpoint (j : JournalFiles ρ) (offset : Int) (call : WriteCall isCheckpoint) :
    JournalFiles ρ where
  writer := { j.writer with
    file := j.writer.file ++ .padding (j.writer.nextCheckpointOffset - offset).toNat ::
      call.checkpoint.toList.map fun c => .record c.val
    nextCheckpointOffset := j.writer.nextCheckpointOffset + config.checkpointInterval }
  stored := j.stored

/-- Whether a record starts the next file. -/
def Rotates (offset : Int) (record : ρ) : Prop :=
  config.maxFileLength - offset < frameSize (encode record)

/-- Whether a record is preceded by a checkpoint. -/
def Checkpoints (j : JournalFiles ρ) (offset : Int) (record : ρ) : Prop :=
  j.writer.nextCheckpointOffset - offset ≤ frameSize (encode record) ∧ 0 < offset

instance (offset : Int) (record : ρ) : Decidable (Rotates encode config offset record) :=
  inferInstanceAs (Decidable (_ < _))

instance (j : JournalFiles ρ) (offset : Int) (record : ρ) :
    Decidable (j.Checkpoints encode offset record) :=
  inferInstanceAs (Decidable (_ ∧ _))

/-- What `write` does before the record itself, at the offset that `seek_end` returns. -/
def prepareFile (j : JournalFiles ρ) (offset : Int) (call : WriteCall isCheckpoint) :
    JournalFiles ρ :=
  if offset = 0 then j.startFile config call
  else if Rotates encode config offset call.record then
    (j.rotateFile config offset).startFile config call
  else if j.Checkpoints encode offset call.record then j.placeCheckpoint config offset call
  else j

/-- `process_write`. -/
def processWrite (j : JournalFiles ρ) (record : ρ) : JournalFiles ρ :=
  { j with writer := { j.writer with file := j.writer.file ++ [.record record] } }

/-- `write` on the files of the directory. When `seek_end` throws, nothing is written. -/
def write (j : JournalFiles ρ) (call : WriteCall isCheckpoint) : JournalFiles ρ :=
  match seekOffset (j.length encode) with
  | none => j
  | some offset => (j.prepareFile encode config offset call).processWrite call.record

/-- One step of a handler's life. Records are not larger than the limit, a file is set before the
first record, and the file that a rotation opens has no content yet: recovery opens the newest file
with content, or one after it. -/
def step (j : JournalFiles ρ) : JournalOp isCheckpoint → Option (JournalFiles ρ)
  | .construct => some (fresh config j.file)
  | .setActiveFileId fileId => some (j.setActiveFileId fileId)
  | .write call =>
      if frameSize (encode call.record) ≤ config.maxFileLength ∧ 0 < j.writer.activeFileId ∧
          ∀ offset ∈ seekOffset (j.length encode), Rotates encode config offset call.record →
            (fileBytes encode (j.file (j.writer.activeFileId + 1))).length = 0 then
        some (j.write encode config call)
      else none

/-! ### Keeping checkpoints aligned -/

/-- A snapshot with its first record fits into the first interval, with the counter at its end. -/
def StartFits (j : JournalFiles ρ) (call : WriteCall isCheckpoint) : Prop :=
  call.startSize encode ≤ config.checkpointInterval ∧
    (call.resets ∨ j.writer.nextCheckpointOffset ≤ config.checkpointInterval)

/-- A checkpoint with its record fits before the next multiple of the interval; without a checkpoint
the record stands behind padding that passes no multiple, and passes none itself. -/
def CheckpointFits (j : JournalFiles ρ) (call : WriteCall isCheckpoint) : Prop :=
  let start := max (j.length encode) j.writer.nextCheckpointOffset.toNat
  match call.checkpoint with
  | some checkpoint =>
      start % config.checkpointInterval + frameSize (encode checkpoint) +
        frameSize (encode call.record) ≤ config.checkpointInterval
  | none =>
      start + frameSize (encode call.record) ≤ roundUp config.checkpointInterval (j.length encode)

instance (j : JournalFiles ρ) (call : WriteCall isCheckpoint) :
    Decidable (j.StartFits encode config call) :=
  inferInstanceAs (Decidable (_ ∧ _))

instance (j : JournalFiles ρ) (call : WriteCall isCheckpoint) :
    Decidable (j.CheckpointFits encode config call) := by
  unfold CheckpointFits
  split <;> infer_instance

/-- What keeps the checkpoints aligned. Files that are written to are shorter than 2 GiB; a file is
started in its first interval; the padding of a file that is left passes no multiple of the
interval; checkpoints fit; and the counter of a handler that opens a file with content is not past
the next multiple after its end. -/
def Safe (j : JournalFiles ρ) : JournalOp isCheckpoint → Prop
  | .construct => True
  | .setActiveFileId fileId =>
      (fileBytes encode (j.file fileId)).length = 0 ∨
        j.writer.nextCheckpointOffset ≤
          roundUp config.checkpointInterval (fileBytes encode (j.file fileId)).length
  | .write call =>
      j.length encode < 2 ^ 31 ∧
        if j.length encode = 0 then j.StartFits encode config call
        else if Rotates encode config (j.length encode) call.record then
          config.maxFileLength ≤ roundUp config.checkpointInterval (j.length encode) ∧
            j.StartFits encode config call
        else if j.Checkpoints encode (j.length encode) call.record then
          j.CheckpointFits encode config call
        else True

instance (j : JournalFiles ρ) (op : JournalOp isCheckpoint) : Decidable (j.Safe encode config op) :=
  match op with
  | .construct => inferInstanceAs (Decidable True)
  | .setActiveFileId _ => inferInstanceAs (Decidable (_ ∨ _))
  | .write _ => inferInstanceAs (Decidable (_ ∧ ite _ _ _))

end JournalFiles

/-! ### Offsets under appends -/

section

variable {encode : ρ → Bytes} {isCheckpoint : ρ → Prop} {interval : Nat}
  {file more : List (Segment ρ)}

theorem recordOffsets_append (offset : Nat) (file more : List (Segment ρ)) :
    recordOffsets encode offset (file ++ more) =
      recordOffsets encode offset file ++
        recordOffsets encode (offset + (fileBytes encode file).length) more := by
  induction file generalizing offset with
  | nil => simp [recordOffsets, fileBytes]
  | cons segment file ih =>
      cases segment with
      | record record =>
          rw [List.cons_append, recordOffsets, recordOffsets, ih, fileBytes_cons_record,
            List.length_append, length_frame, Nat.add_assoc, List.cons_append]
      | padding count =>
          have hlength : (fileBytes encode (.padding count :: file)).length =
              count + (fileBytes encode file).length := by
            simp [fileBytes, Segment.bytes]
          rw [List.cons_append, recordOffsets, recordOffsets, ih, hlength, Nat.add_assoc]

theorem CheckpointAt.append_right {offset : Nat} (h : CheckpointAt encode isCheckpoint file offset)
    (more : List (Segment ρ)) : CheckpointAt encode isCheckpoint (file ++ more) offset := by
  obtain ⟨placed, hmem, hplaced⟩ := h
  refine ⟨placed, ?_, hplaced⟩
  rw [recordOffsets_append]
  exact List.mem_append_left _ hmem

theorem checkpointAt_append_cons {record : ρ} (hrecord : isCheckpoint record) :
    CheckpointAt encode isCheckpoint (file ++ .record record :: more)
      (fileBytes encode file).length := by
  refine ⟨((fileBytes encode file).length, record), ?_, rfl, hrecord⟩
  rw [recordOffsets_append, Nat.zero_add]
  exact List.mem_append_right _ (List.mem_cons_self ..)

/-- Appending keeps a file aligned if a checkpoint starts at each multiple that is passed. -/
theorem Aligned.append (haligned : Aligned encode isCheckpoint interval file)
    (hmore : ∀ k, 0 < k → (fileBytes encode file).length ≤ k * interval →
      k * interval < (fileBytes encode (file ++ more)).length →
      CheckpointAt encode isCheckpoint (file ++ more) (k * interval)) :
    Aligned encode isCheckpoint interval (file ++ more) := by
  intro k hk hlt
  rcases Nat.lt_or_ge (k * interval) (fileBytes encode file).length with hin | hout
  · exact (haligned k hk hin).append_right more
  · exact hmore k hk hout hlt

theorem aligned_of_length_le (h : (fileBytes encode file).length ≤ interval) :
    Aligned encode isCheckpoint interval file := by
  intro k hk hlt
  have hle : interval ≤ k * interval := Nat.le_mul_of_pos_left _ hk
  omega

theorem roundUp_le_mul {chunk size k : Nat} (h : size ≤ k * chunk) :
    roundUp chunk size ≤ k * chunk := by
  rcases Nat.eq_zero_or_pos chunk with rfl | hpos
  · simp [roundUp]
  · have hlt : size + chunk - 1 < (k + 1) * chunk := by
      rw [Nat.add_mul]
      omega
    have hdiv : (size + chunk - 1) / chunk ≤ k := Nat.lt_succ_iff.mp (Nat.div_lt_of_lt_mul
      (by rwa [Nat.mul_comm] at hlt))
    rw [roundUp, Nat.mul_comm]
    exact Nat.mul_le_mul_right chunk hdiv

end

/-! ### The counter of the next checkpoint -/

/-- The file is aligned, and the counter stands at a multiple of the interval, for a file with
content at one that is not past the next multiple after its end. -/
structure Counted (encode : ρ → Bytes) (isCheckpoint : ρ → Prop) (interval : Nat)
    (file : List (Segment ρ)) (next : Int) : Prop where
  aligned : Aligned encode isCheckpoint interval file
  multiple : ∃ n, 0 < n ∧ next = (n * interval : Nat)
  next_le : (fileBytes encode file).length = 0 ∨
    ∀ k, 0 < k → (fileBytes encode file).length ≤ k * interval → next ≤ (k * interval : Nat)

section

variable {encode : ρ → Bytes} {isCheckpoint : ρ → Prop} {interval : Nat}
  {file : List (Segment ρ)} {next : Int}

theorem length_fileBytes_record (file : List (Segment ρ)) (record : ρ) :
    (fileBytes encode (file ++ [.record record])).length =
      (fileBytes encode file).length + frameSize (encode record) := by
  rw [fileBytes_append, List.length_append, fileBytes_cons_record, List.length_append, length_frame]
  rfl

theorem length_fileBytes_padding (file : List (Segment ρ)) (count : Nat) :
    (fileBytes encode (file ++ [.padding count])).length =
      (fileBytes encode file).length + count := by
  simp [fileBytes, Segment.bytes]

theorem counted_start {call : WriteCall isCheckpoint} (hfile : (fileBytes encode file).length = 0)
    (hsize : call.startSize encode ≤ interval) (hnext : next ≤ interval)
    (hmultiple : ∃ n, 0 < n ∧ next = (n * interval : Nat)) :
    Counted encode isCheckpoint interval
      (file ++ call.snapshot.map .record ++ [.record call.record]) next where
  aligned := by
    apply aligned_of_length_le
    rw [length_fileBytes_record, fileBytes_append, List.length_append, hfile, Nat.zero_add]
    exact hsize
  multiple := hmultiple
  next_le := .inr fun _ hk _ =>
    hnext.trans (Int.ofNat_le.mpr (Nat.le_mul_of_pos_left interval hk))

/-- Below the counter there is no multiple of the interval left to pass. -/
theorem Counted.plain (h : Counted encode isCheckpoint interval file next)
    (hpos : (fileBytes encode file).length ≠ 0) {record : ρ}
    (hroom : ((fileBytes encode file).length : Int) + frameSize (encode record) < next) :
    Counted encode isCheckpoint interval (file ++ [.record record]) next where
  aligned := by
    apply h.aligned.append
    intro k hk hle hlt
    have hnext := h.next_le.resolve_left hpos k hk hle
    rw [length_fileBytes_record] at hlt
    omega
  multiple := h.multiple
  next_le := by
    refine .inr fun k hk hle => ?_
    rw [length_fileBytes_record] at hle
    exact h.next_le.resolve_left hpos k hk (by omega)

/-- What ends behind the counter takes it to the next multiple. -/
theorem Counted.raise (h : Counted encode isCheckpoint interval file next)
    {more : List (Segment ρ)} (haligned : Aligned encode isCheckpoint interval (file ++ more))
    (hbehind : next < (fileBytes encode (file ++ more)).length) :
    Counted encode isCheckpoint interval (file ++ more) (next + interval) where
  aligned := haligned
  multiple := by
    obtain ⟨n, -, hnext⟩ := h.multiple
    refine ⟨n + 1, Nat.succ_pos n, ?_⟩
    rw [hnext, Nat.add_mul, Nat.one_mul, Int.natCast_add]
  next_le := by
    obtain ⟨n, -, hnext⟩ := h.multiple
    refine .inr fun k _ hge => ?_
    have hlt : n * interval < k * interval := by omega
    have hsucc := Nat.mul_le_mul_right interval (Nat.succ_le_of_lt (Nat.lt_of_mul_lt_mul_right hlt))
    rw [Nat.succ_mul] at hsucc
    omega

theorem length_fileBytes_checkpoint (padding : Nat) (checkpoint record : ρ) :
    (fileBytes encode (file ++ [.padding padding, .record checkpoint, .record record])).length =
      (fileBytes encode file).length + padding + frameSize (encode checkpoint) +
        frameSize (encode record) := by
  have hsplit : file ++ [.padding padding, .record checkpoint, .record record] =
      file ++ [.padding padding] ++ [.record checkpoint] ++ [.record record] := by simp
  rw [hsplit, length_fileBytes_record, length_fileBytes_record, length_fileBytes_padding]

theorem Counted.checkpoint (h : Counted encode isCheckpoint interval file next)
    (hpos : (fileBytes encode file).length ≠ 0) {checkpoint record : ρ}
    (hcheckpoint : isCheckpoint checkpoint)
    (hfits : max (fileBytes encode file).length next.toNat % interval +
      frameSize (encode checkpoint) + frameSize (encode record) ≤ interval) :
    Counted encode isCheckpoint interval
      (file ++ [.padding (next - (fileBytes encode file).length).toNat, .record checkpoint,
        .record record])
      (next + interval) := by
  have hle := h.next_le.resolve_left hpos
  generalize hlength : (fileBytes encode file).length = length at *
  generalize hstart : max length next.toNat = start at *
  -- the checkpoint starts at the counter, or at the end of the file if that is already behind it
  have hpadding : length + (next - length).toNat = start := by omega
  have hdiv := Nat.div_add_mod' start interval
  have hend : start + frameSize (encode checkpoint) + frameSize (encode record) ≤
      (start / interval + 1) * interval := by
    rw [Nat.add_mul]
    omega
  have hsixteen := headerSize_add_footerSize_le (encode checkpoint)
  apply h.raise
  · apply h.aligned.append
    intro k hk hge hlt
    rw [length_fileBytes_checkpoint, hlength, hpadding] at hlt
    have hk' : k ≤ start / interval :=
      Nat.lt_succ_iff.mp (Nat.lt_of_mul_lt_mul_right (hlt.trans_le hend))
    have hmul := Nat.mul_le_mul_right interval hk'
    have hnext' := hle k hk (hlength ▸ hge)
    have hat : k * interval =
        (fileBytes encode (file ++ [.padding (next - length).toNat])).length := by
      rw [length_fileBytes_padding, hlength, hpadding]
      omega
    have hfile : file ++ [.padding (next - length).toNat, .record checkpoint, .record record] =
        file ++ [.padding (next - length).toNat] ++ .record checkpoint :: [.record record] := by
      simp
    rw [hfile, hat]
    exact checkpointAt_append_cons hcheckpoint
  · rw [length_fileBytes_checkpoint, hlength, hpadding]
    omega

/-- A record without a checkpoint that ends in front of the next multiple. -/
theorem Counted.uncheckpointed (h : Counted encode isCheckpoint interval file next) {record : ρ}
    (hfits : max (fileBytes encode file).length next.toNat + frameSize (encode record) ≤
      roundUp interval (fileBytes encode file).length) :
    Counted encode isCheckpoint interval
      (file ++ [.padding (next - (fileBytes encode file).length).toNat, .record record])
      (next + interval) := by
  have hsixteen := headerSize_add_footerSize_le (encode record)
  have hsplit : file ++ [.padding (next - (fileBytes encode file).length).toNat, .record record] =
      file ++ [.padding (next - (fileBytes encode file).length).toNat] ++ [.record record] := by
    simp
  have hsize : (fileBytes encode (file ++
      [.padding (next - (fileBytes encode file).length).toNat, .record record])).length =
        max (fileBytes encode file).length next.toNat + frameSize (encode record) := by
    rw [hsplit, length_fileBytes_record, length_fileBytes_padding]
    omega
  apply h.raise
  · apply h.aligned.append
    intro k hk hge hlt
    have hround := roundUp_le_mul hge
    omega
  · rw [hsize]
    omega

theorem Aligned.leave (h : Aligned encode isCheckpoint interval file) {limit : Nat}
    (hlimit : limit ≤ roundUp interval (fileBytes encode file).length) :
    Aligned encode isCheckpoint interval
      (file ++ [.padding (limit - (fileBytes encode file).length)]) := by
  apply h.append
  intro k _ hle hlt
  have hround : roundUp interval (fileBytes encode file).length ≤ k * interval := roundUp_le_mul hle
  rw [length_fileBytes_padding] at hlt
  omega

end

/-! ### The files of a run -/

namespace JournalFiles

section

variable {encode : ρ → Bytes} {config : JournalConfig} {isCheckpoint : ρ → Prop}
  {j j' : JournalFiles ρ} {call : WriteCall isCheckpoint}

/-- In front of 2 GiB `write` goes by the length of the file. -/
theorem write_of_lt (hnear : j.length encode < 2 ^ 31) :
    j.write encode config call =
      (j.prepareFile encode config (j.length encode) call).processWrite call.record := by
  rw [write, seekOffset_of_lt hnear]

/-- For a handler that writes checkpoints and resets its counter, on files without empty segments,
`write` does to the file in use what it does without the other files. -/
theorem write_writer (hnear : j.length encode < 2 ^ 31)
    (hempty : j.length encode = 0 → j.writer.file = [])
    (hnext : j.file (j.writer.activeFileId + 1) = []) (hresets : call.resets = true)
    {checkpoint : { record : ρ // isCheckpoint record }}
    (hsome : call.checkpoint = some checkpoint) :
    (j.write encode config call).writer.file =
        (j.writer.write encode config call.snapshot checkpoint call.record).file ∧
      (j.write encode config call).writer.activeFileId =
        (j.writer.write encode config call.snapshot checkpoint call.record).activeFileId ∧
      (j.write encode config call).writer.nextCheckpointOffset =
        (j.writer.write encode config call.snapshot checkpoint
          call.record).nextCheckpointOffset := by
  rw [write_of_lt hnear]
  simp only [processWrite, prepareFile, JournalWriteHandler.write, JournalWriteHandler.prepareFile]
  by_cases hlength : j.length encode = 0
  · have hlength' : (fileBytes encode j.writer.file).length = 0 := hlength
    rw [if_pos (by omega), if_pos hlength']
    simp [startFile, JournalWriteHandler.startFile, hempty hlength, hresets]
  have hlength' : (fileBytes encode j.writer.file).length ≠ 0 := hlength
  have hpos : (0 : Int) < j.length encode := by omega
  rw [if_neg (by omega), if_neg hlength']
  by_cases hrotates : j.writer.rotates encode config call.record
  · have hrotates' : Rotates encode config (j.length encode) call.record := hrotates
    rw [if_pos hrotates', if_pos hrotates]
    simp [startFile, rotateFile, JournalWriteHandler.startFile, hnext, hresets]
  have hrotates' : ¬ Rotates encode config (j.length encode) call.record := hrotates
  rw [if_neg hrotates', if_neg hrotates]
  by_cases hcheckpoints : j.writer.checkpoints encode call.record
  · have hcheckpoints' : j.Checkpoints encode (j.length encode) call.record := ⟨hcheckpoints, hpos⟩
    rw [if_pos hcheckpoints', if_pos hcheckpoints]
    simp [placeCheckpoint, hsome, length]
  · have hcheckpoints' : ¬ j.Checkpoints encode (j.length encode) call.record :=
      fun h => hcheckpoints h.1
    rw [if_neg hcheckpoints', if_neg hcheckpoints]
    exact ⟨rfl, rfl, rfl⟩

/-- All files are aligned, and the counter fits the one in use. -/
structure CheckpointsPlaced (encode : ρ → Bytes) (config : JournalConfig) (isCheckpoint : ρ → Prop)
    (j : JournalFiles ρ) : Prop where
  counted : Counted encode isCheckpoint config.checkpointInterval j.writer.file
    j.writer.nextCheckpointOffset
  stored : ∀ fileId, Aligned encode isCheckpoint config.checkpointInterval (j.stored fileId)

theorem aligned_nil {interval : Nat} : Aligned encode isCheckpoint interval [] :=
  aligned_of_length_le (Nat.zero_le _)

theorem CheckpointsPlaced.file (h : CheckpointsPlaced encode config isCheckpoint j) (fileId : Nat) :
    Aligned encode isCheckpoint config.checkpointInterval (j.file fileId) := by
  unfold JournalFiles.file
  split
  · exact h.counted.aligned
  · exact h.stored fileId

theorem aligned_removeOldFiles {stored : Nat → List (Segment ρ)} {interval : Nat}
    (h : ∀ fileId, Aligned encode isCheckpoint interval (stored fileId)) (first last fileId : Nat) :
    Aligned encode isCheckpoint interval (removeOldFiles stored first last fileId) := by
  unfold removeOldFiles
  split
  · exact aligned_nil
  · exact h fileId

theorem checkpointsPlaced_fresh {stored : Nat → List (Segment ρ)}
    (h : ∀ fileId, Aligned encode isCheckpoint config.checkpointInterval (stored fileId)) :
    CheckpointsPlaced encode config isCheckpoint (fresh config stored) where
  counted := ⟨aligned_nil, ⟨1, Nat.one_pos, by rw [Nat.one_mul]; rfl⟩, .inl rfl⟩
  stored := h

theorem CheckpointsPlaced.setActiveFileId {fileId : Nat}
    (h : CheckpointsPlaced encode config isCheckpoint j)
    (hsafe : (fileBytes encode (j.file fileId)).length = 0 ∨ j.writer.nextCheckpointOffset ≤
      roundUp config.checkpointInterval (fileBytes encode (j.file fileId)).length) :
    CheckpointsPlaced encode config isCheckpoint (j.setActiveFileId fileId) where
  counted :=
    { aligned := h.file fileId
      multiple := h.counted.multiple
      next_le := by
        refine hsafe.imp_right fun hnext k _ hle => ?_
        have hround : roundUp config.checkpointInterval (fileBytes encode (j.file fileId)).length ≤
          k * config.checkpointInterval := roundUp_le_mul hle
        exact hnext.trans (Int.ofNat_le.mpr hround) }
  stored := h.file

theorem CheckpointsPlaced.start (h : CheckpointsPlaced encode config isCheckpoint j)
    (hempty : j.length encode = 0) (hfits : j.StartFits encode config call) :
    CheckpointsPlaced encode config isCheckpoint
      ((j.startFile config call).processWrite call.record) where
  counted := by
    by_cases hresets : call.resets = true
    · have hone : ∃ n, 0 < n ∧ (config.checkpointInterval : Int) =
          (n * config.checkpointInterval : Nat) := ⟨1, Nat.one_pos, by rw [Nat.one_mul]⟩
      simpa [startFile, processWrite, hresets] using
        counted_start hempty hfits.1 (Int.le_refl _) hone
    · have hnext := hfits.2.resolve_left hresets
      simpa [startFile, processWrite, hresets] using
        counted_start hempty hfits.1 hnext h.counted.multiple
  stored := aligned_removeOldFiles h.stored _ _

/-- A file is left for one without content. -/
theorem CheckpointsPlaced.rotate (h : CheckpointsPlaced encode config isCheckpoint j)
    (hlimit : config.maxFileLength ≤ roundUp config.checkpointInterval (j.length encode))
    (hnext : (fileBytes encode (j.file (j.writer.activeFileId + 1))).length = 0) :
    CheckpointsPlaced encode config isCheckpoint (j.rotateFile config (j.length encode)) where
  counted := ⟨h.file _, h.counted.multiple, .inl hnext⟩
  stored fileId := by
    unfold rotateFile
    by_cases hactive : fileId = j.writer.activeFileId
    · subst hactive
      simp only [Function.update_self]
      have hpadding : ((config.maxFileLength : Int) - j.length encode).toNat =
          config.maxFileLength - j.length encode := by omega
      rw [hpadding]
      exact h.counted.aligned.leave hlimit
    · simp only [Function.update_of_ne hactive]
      exact h.stored fileId

theorem CheckpointsPlaced.checkpoint (h : CheckpointsPlaced encode config isCheckpoint j)
    (hpos : j.length encode ≠ 0) (hfits : j.CheckpointFits encode config call) :
    CheckpointsPlaced encode config isCheckpoint
      ((j.placeCheckpoint config (j.length encode) call).processWrite call.record) where
  counted := by
    unfold CheckpointFits at hfits
    simp only at hfits
    split at hfits
    next checkpoint hsome =>
      simpa [placeCheckpoint, processWrite, hsome, JournalFiles.length] using
        h.counted.checkpoint hpos checkpoint.property hfits
    next hnone =>
      simpa [placeCheckpoint, processWrite, hnone, JournalFiles.length] using
        h.counted.uncheckpointed hfits
  stored := h.stored

theorem CheckpointsPlaced.write (h : CheckpointsPlaced encode config isCheckpoint j)
    (hsafe : j.Safe encode config (.write call))
    (hnext : ∀ offset ∈ seekOffset (j.length encode), Rotates encode config offset call.record →
      (fileBytes encode (j.file (j.writer.activeFileId + 1))).length = 0) :
    CheckpointsPlaced encode config isCheckpoint (j.write encode config call) := by
  obtain ⟨hnear, hsafe⟩ := hsafe
  rw [write_of_lt hnear, prepareFile]
  by_cases hlength : j.length encode = 0
  · rw [if_pos hlength] at hsafe
    rw [if_pos (by omega)]
    exact h.start hlength hsafe
  rw [if_neg hlength] at hsafe
  rw [if_neg (by omega)]
  by_cases hrotates : Rotates encode config (j.length encode) call.record
  · rw [if_pos hrotates] at hsafe
    rw [if_pos hrotates]
    have hempty := hnext _ (seekOffset_of_lt hnear) hrotates
    exact (h.rotate hsafe.1 hempty).start hempty hsafe.2
  rw [if_neg hrotates] at hsafe
  rw [if_neg hrotates]
  by_cases hcheckpoints : j.Checkpoints encode (j.length encode) call.record
  · rw [if_pos hcheckpoints] at hsafe
    rw [if_pos hcheckpoints]
    exact h.checkpoint hlength hsafe
  · rw [if_neg hcheckpoints]
    refine ⟨h.counted.plain hlength ?_, h.stored⟩
    unfold Checkpoints at hcheckpoints
    unfold length at hcheckpoints hlength
    omega

theorem CheckpointsPlaced.step {op : JournalOp isCheckpoint}
    (h : CheckpointsPlaced encode config isCheckpoint j) (hsafe : j.Safe encode config op)
    (hstep : j.step encode config op = some j') :
    CheckpointsPlaced encode config isCheckpoint j' := by
  cases op with
  | construct =>
      cases hstep
      exact checkpointsPlaced_fresh h.file
  | setActiveFileId fileId =>
      cases hstep
      exact h.setActiveFileId hsafe
  | write call =>
      simp only [JournalFiles.step, Option.ite_none_right_eq_some] at hstep
      obtain ⟨⟨-, -, hnext⟩, hwritten⟩ := hstep
      cases hwritten
      exact h.write hsafe hnext

/-- Over every run of a handler on a directory of aligned files, all files stay aligned if every
step meets the condition. -/
theorem run_checkpoints_aligned {stored : Nat → List (Segment ρ)}
    (hstored : ∀ fileId, Aligned encode isCheckpoint config.checkpointInterval (stored fileId))
    {ops : List (JournalOp isCheckpoint)} {t : JournalFiles ρ}
    (hsafe : Along (JournalFiles.step encode config) (JournalFiles.Safe encode config)
      (fresh config stored) ops)
    (hrun : run (JournalFiles.step encode config) (fresh config stored) ops = some t)
    (fileId : Nat) :
    Aligned encode isCheckpoint config.checkpointInterval (t.file fileId) :=
  (run_along_preserves (JournalFiles.step encode config)
    (fun _ _ _ h hsafe hstep => CheckpointsPlaced.step h hsafe hstep)
    (checkpointsPlaced_fresh hstored) hsafe hrun).file fileId

end

/-! ### A file opened past the first interval -/

section

/-- A record is a flag that marks the checkpoints and its payload. -/
def flaggedCall : WriteCall (fun record : Bool × Bytes => record.1 = true) where
  snapshot := [(false, [])]
  resets := true
  checkpoint := some ⟨(true, []), rfl⟩
  record := (false, [])
  oldestFileId := 1

def reopenedOps : List (JournalOp fun record : Bool × Bytes => record.1 = true) :=
  [.setActiveFileId 1, .write flaggedCall, .write flaggedCall, .construct, .setActiveFileId 1,
    .write flaggedCall]

/-- A new handler appends to a file of 80 bytes with its counter at 48: its checkpoint stands at
80, and a record at 96. -/
theorem checkpoint_behind_counter : ∃ t,
    run (JournalFiles.step Prod.snd ⟨48, 1000⟩) (fresh ⟨48, 1000⟩ fun _ => []) reopenedOps =
      some t ∧
    ¬ Aligned Prod.snd (fun record => record.1 = true) 48 (t.file 1) := by
  refine ⟨_, rfl, fun h => ?_⟩
  exact absurd (h 2 (by decide) (by decide +kernel)) (by decide +kernel)

def globalLeaderOps : List (JournalOp fun record : Bool × Bytes => record.1 = true) :=
  .setActiveFileId 1 :: List.replicate 4 (.write (.globalLeader (false, []) 1))

/-- In a journal of the global leader the third record stands at 48. -/
example : ∃ t,
    run (JournalFiles.step Prod.snd ⟨48, 1000⟩) (fresh ⟨48, 1000⟩ fun _ => []) globalLeaderOps =
      some t ∧
    ¬ Aligned Prod.snd (fun record => record.1 = true) 48 (t.file 1) := by
  refine ⟨_, rfl, fun h => ?_⟩
  exact absurd (h 1 (by decide) (by decide +kernel)) (by decide +kernel)

/-- The same records in one life of the handler, with checkpoints at 48 and 96 and a rotation. -/
def rotatingOps : List (JournalOp fun record : Bool × Bytes => record.1 = true) :=
  [.setActiveFileId 1, .write flaggedCall, .write flaggedCall, .write flaggedCall,
    .write flaggedCall]

theorem rotatingOps_safe :
    Along (JournalFiles.step Prod.snd ⟨48, 96⟩) (JournalFiles.Safe Prod.snd ⟨48, 96⟩)
      (fresh ⟨48, 96⟩ fun _ => []) rotatingOps := by
  decide +kernel

theorem run_checkpoints_aligned_rotation : ∃ t,
    run (JournalFiles.step Prod.snd ⟨48, 96⟩) (fresh ⟨48, 96⟩ fun _ => []) rotatingOps = some t ∧
    Aligned Prod.snd (fun record => record.1 = true) 48 (t.file 1) :=
  ⟨_, rfl, run_checkpoints_aligned (fun _ => aligned_nil) rotatingOps_safe rfl 1⟩

end

end JournalFiles

end ObjectStorage.Journal
