import ObjectStorage.Journal.Framing

/-!
`JournalWriteHandler`: which records, checkpoints and padding a journal file gets, and when the next
file is started.
-/

namespace ObjectStorage.Journal

/-- What a journal file is made of. -/
inductive Segment (ρ : Type) where
  | record (record : ρ)
  | padding (count : Nat)
deriving DecidableEq

variable {ρ : Type}

def Segment.bytes (encode : ρ → Bytes) : Segment ρ → Bytes
  | .record r => frame (encode r)
  | .padding count => List.replicate count Journal.padding

def fileBytes (encode : ρ → Bytes) (file : List (Segment ρ)) : Bytes :=
  file.flatMap (·.bytes encode)

/-- The records of a file, without the padding. -/
def fileRecords (file : List (Segment ρ)) : List ρ :=
  file.filterMap fun
    | .record record => some record
    | .padding _ => none

/-- The configured sizes. -/
structure JournalConfig where
  checkpointInterval : Nat
  maxFileLength : Nat

/-- The writer, with the file it appends to. -/
structure JournalWriteHandler (ρ : Type) where
  activeFileId : Nat
  oldestFileId : Nat
  file : List (Segment ρ)
  nextCheckpointOffset : Int

namespace JournalWriteHandler

variable (encode : ρ → Bytes) (config : JournalConfig)

/-- The state after `set_active_file_id` has opened an empty file. -/
def openFile (fileId : Nat) : JournalWriteHandler ρ :=
    ⟨fileId, fileId, [], config.checkpointInterval⟩

/-- `process_snapshot` of a subclass, which writes the given records, and `remove_old_files`. -/
def startFile (w : JournalWriteHandler ρ) (snapshot : List ρ) : JournalWriteHandler ρ :=
  { w with
    oldestFileId := w.activeFileId
    file := snapshot.map .record
    nextCheckpointOffset := config.checkpointInterval }

/-- Whether a record starts the next file. -/
def rotates (w : JournalWriteHandler ρ) (record : ρ) : Prop :=
  (config.maxFileLength : Int) - (fileBytes encode w.file).length < frameSize (encode record)

/-- Whether a record is preceded by a checkpoint. -/
def checkpoints (w : JournalWriteHandler ρ) (record : ρ) : Prop :=
  w.nextCheckpointOffset - (fileBytes encode w.file).length ≤ frameSize (encode record)

instance (w : JournalWriteHandler ρ) (record : ρ) : Decidable (w.rotates encode config record) :=
  inferInstanceAs (Decidable (_ < _))

instance (w : JournalWriteHandler ρ) (record : ρ) : Decidable (w.checkpoints encode record) :=
  inferInstanceAs (Decidable (_ ≤ _))

/-- What `write` does before the record itself. The padding at the end of a file that is left is not
kept, as the model follows the file in use; padding of negative length is none. -/
def prepareFile (w : JournalWriteHandler ρ) (snapshot : List ρ) (checkpoint record : ρ) :
    JournalWriteHandler ρ :=
  if (fileBytes encode w.file).length = 0 then w.startFile config snapshot
  else if w.rotates encode config record then
    { w with activeFileId := w.activeFileId + 1 }.startFile config snapshot
  else if w.checkpoints encode record then
    { w with
      file := w.file ++
        [.padding (w.nextCheckpointOffset - (fileBytes encode w.file).length).toNat,
          .record checkpoint]
      nextCheckpointOffset := w.nextCheckpointOffset + config.checkpointInterval }
  else w

/-- `JournalWriteHandler::write`, given what the subclass would write as snapshot or checkpoint. -/
def write (w : JournalWriteHandler ρ) (snapshot : List ρ) (checkpoint record : ρ) :
    JournalWriteHandler ρ :=
  let w := w.prepareFile encode config snapshot checkpoint record
  { w with file := w.file ++ [.record record] }

end JournalWriteHandler

/-! ### Bytes of a file -/

variable {encode : ρ → Bytes}

theorem fileBytes_append (file file' : List (Segment ρ)) :
    fileBytes encode (file ++ file') = fileBytes encode file ++ fileBytes encode file' :=
  List.flatMap_append

theorem fileRecords_append (file file' : List (Segment ρ)) :
    fileRecords (file ++ file') = fileRecords file ++ fileRecords file' :=
  List.filterMap_append

@[simp] theorem fileRecords_map_record (records : List ρ) :
    fileRecords (records.map .record) = records := by
  induction records with
  | nil => rfl
  | cons record records ih => exact congrArg (record :: ·) ih

theorem fileBytes_cons_record (record : ρ) (file : List (Segment ρ)) :
    fileBytes encode (.record record :: file) = frame (encode record) ++ fileBytes encode file :=
  rfl

theorem length_pos_of_mem (encode : ρ → Bytes) {file : List (Segment ρ)} {record : ρ}
    (h : .record record ∈ file) : 0 < (fileBytes encode file).length := by
  obtain ⟨front, back, rfl⟩ := List.append_of_mem h
  have hsixteen := headerSize_add_footerSize_le (encode record)
  rw [fileBytes_append, fileBytes_cons_record, List.length_append, List.length_append,
    length_frame]
  omega

end ObjectStorage.Journal
