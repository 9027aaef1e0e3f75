import ObjectStorage.Container.RecordMemory
import ObjectStorage.Library.Transition

/-!
The creation and the deletion of a container while object records are journaled, added to memory
and flushed. One thread executes the batches of journal records; flushes, creations and deletions
run in threads of their own and take the lock of the path for a part of their way only.
-/

namespace ObjectStorage.Container

open Std Library

/-- An info file has the journal offset in its trailer; `records` are those applied to it. -/
structure InfoFile where
  journalOffset : Nat
  records : List ObjectRecord
deriving DecidableEq

/-- The records are appended and the trailer gets the offset of the last one. -/
def InfoFile.append (file : InfoFile) (records : RecordList) : InfoFile :=
  match records.getLast? with
  | some last => ⟨last.1, file.records ++ records.map (·.2)⟩
  | none => file

/-- From the creation of an info file to the deletion of the container: the sync offset at the
creation, and what has been acknowledged since then. -/
structure Life where
  createdAt : Nat
  acknowledged : List ObjectRecord
deriving DecidableEq

/-- The info file of a container, and how far creations and deletions of it have come: the offsets
that creations have read, how many have created the file and will erase the path from memory, and
how many deletions have erased it and will remove the file. -/
structure ContainerState where
  infoFile : Option InfoFile
  sampled : List Nat
  created : Nat
  deleting : Nat
  life : Option Life

/-- The batch of records that `execute_for_container` is at; of the added ones those that are not
acknowledged. -/
inductive BatchStage where
  | writing (records : List ObjectRecord)
  | synced (records : List ObjectRecord) (prevOff syncOff : Nat)
  | added (records : List ObjectRecord)

namespace BatchStage

/-- Records that are in the journal and not in memory. -/
def unadded : BatchStage → List ObjectRecord
  | .writing records => records
  | .synced records _ _ => records
  | .added _ => []

/-- Records that are synced and not acknowledged. -/
def unacknowledged : BatchStage → List ObjectRecord
  | .writing _ => []
  | .synced records _ _ => records
  | .added records => records

def unsynced : BatchStage → List ObjectRecord
  | .writing records => records
  | _ => []

def inMemory : BatchStage → List ObjectRecord
  | .added records => records
  | _ => []

end BatchStage

/-- A flush that holds the lock of its path: the temporary file with the records applied, and
whether the records have been released. -/
structure Flush where
  copy : InfoFile
  syncOff : Nat
  released : Bool
deriving DecidableEq

/-- `files` has where the journal files start, the newest first, of which those in front of `oldest`
are removed. A crash leaves the journal up to `durable`, except for what stands in the regions of
`unsynced`: those are the ends of files that were closed without a sync. `waiting` has the flushes
that have taken their records and wait for the lock of the path, `ending` those that have renamed
the file and have not written their marker, `committing` and `computed` those before and after they
have computed the commit offset. -/
structure ContainerLibrary where
  journal : Journal
  journalEnd : Nat
  files : List Nat
  oldest : Nat
  durable : Nat
  unsynced : List (Nat × Nat)
  lastSyncOffset : Nat
  lastCommitOffset : Nat
  batch : BatchStage
  memory : MemoryManager
  waiting : TreeMap String Nat
  flushing : TreeMap String Flush
  ending : List (String × Nat)
  committing : List Nat
  computed : List Nat
  recovering : Bool
  containers : String → ContainerState

inductive LibraryStep where
  | write (record : ObjectRecord)
  | sync
  | addEntries
  | executeCallback
  | finishBatch
  | writeOther (stop : Nat)
  | rotateFile (nextFile : Nat)
  | removeOldFiles
  | processCheckpoint (start stop : Nat)
  | getFlushRecords (path : String)
  | flushContainer (path : String) (garbage : Nat)
  | releaseFlushRecords (path : String) (garbage : Nat)
  | renameTmpFile (path : String)
  | processEndContainerFlush (path : String) (syncOff start stop : Nat)
  | getLastCommitOffset (syncOff : Nat)
  | setLastCommitOffset (offset : Nat)
  | getLastSyncOffset (path : String)
  | addContainer (path : String) (offset : Nat)
  | eraseCreated (path : String)
  | memDelete (path : String)
  | removeFile (path : String)
  | crash (journalEnd newestFile : Nat) (lost : List (Nat × Nat))
  | finishRecovery (nextFile : Nat)

namespace ContainerLibrary

/-- After a complete recovery: the journal starts anew at an offset. -/
def start (infoFiles : String → Option InfoFile) (offset : Nat) : ContainerLibrary where
  journal := []
  journalEnd := offset
  files := [offset]
  oldest := offset
  durable := offset
  unsynced := []
  lastSyncOffset := offset
  lastCommitOffset := offset
  batch := .writing []
  memory := ∅
  waiting := ∅
  flushing := ∅
  ending := []
  committing := []
  computed := []
  recovering := false
  containers path := ⟨infoFiles path, [], 0, 0, none⟩

/-- `JournalWriteHandler::write`: whatever padding or header precedes the record takes up space. -/
def writeRecord (s : ContainerLibrary) (e : JournalRecord) : Option ContainerLibrary :=
  if s.journalEnd ≤ e.start ∧ e.start < e.stop then
    some { s with journal := s.journal ++ [e], journalEnd := e.stop }
  else none

def setContainer (s : ContainerLibrary) (path : String) (c : ContainerState) : ContainerLibrary :=
  { s with containers := Function.update s.containers path c }

def activeFile (s : ContainerLibrary) : Nat := s.files.headD 0

/-- Where the file of the last commit offset starts, up to which `remove_old_files` removes. -/
def committedFile (s : ContainerLibrary) : Nat :=
  max s.oldest ((s.files.find? (· ≤ s.lastCommitOffset)).getD s.oldest)

/-- What a removal of the files in front of an offset leaves. -/
def keptJournal (s : ContainerLibrary) (oldest : Nat) : Journal :=
  s.journal.filter fun e => oldest ≤ e.start

/-- What a crash leaves. -/
def survivingJournal (s : ContainerLibrary) (journalEnd : Nat) (lost : List (Nat × Nat)) :
    Journal :=
  s.journal.filter fun e => e.stop ≤ journalEnd ∧ e.Outside lost

/-- The callback of a record; who waits for it learns that the record is safe. -/
def acknowledge (s : ContainerLibrary) (record : ObjectRecord) : ContainerLibrary :=
  let c := s.containers record.path
  s.setContainer record.path
    { c with life := c.life.map fun l => { l with acknowledged := record :: l.acknowledged } }

def step (s : ContainerLibrary) : LibraryStep → Option ContainerLibrary
  | .write record =>
      match s.recovering, s.batch with
      | false, .writing records => (s.writeRecord (.object record)).map fun s =>
          { s with batch := .writing (records ++ [record]) }
      | _, _ => none
  | .sync =>
      match s.recovering, s.batch with
      | false, .writing records =>
          some { s with
            batch := .synced records s.lastSyncOffset s.journalEnd
            lastSyncOffset := s.journalEnd
            durable := s.journalEnd }
      | _, _ => none
  | .addEntries =>
      match s.batch with
      | .synced records prevOff syncOff =>
          some { s with
            batch := .added records
            memory := s.memory.addEntries records prevOff syncOff }
      | _ => none
  | .executeCallback =>
      match s.batch with
      | .added (record :: records) => some ({ s with batch := .added records }.acknowledge record)
      | _ => none
  | .finishBatch =>
      match s.batch with
      | .added [] => some { s with batch := .writing [] }
      | _ => none
  | .writeOther stop =>
      if s.journalEnd ≤ stop then some { s with journalEnd := stop } else none
  -- `close` does not sync, and a later `sync` is one of the new file
  | .rotateFile nextFile =>
      if s.journalEnd ≤ nextFile then
        some { s with
          unsynced := (max s.durable s.activeFile, nextFile) :: s.unsynced
          files := nextFile :: s.files
          journalEnd := nextFile }
      else none
  | .removeOldFiles =>
      some { s with journal := s.keptJournal s.committedFile, oldest := s.committedFile }
  | .processCheckpoint start stop =>
      s.writeRecord (.checkpoint s.lastCommitOffset start stop)
  | .getFlushRecords path =>
      match s.waiting[path]?, s.memory.getFlushRecords path with
      | none, some (records, memory) => records.getLast?.map fun last =>
          { s with memory := memory, waiting := s.waiting.insert path last.1 }
      | _, _ => none
  | .flushContainer path garbage =>
      match s.waiting[path]?, s.flushing[path]? with
      | some syncOff, none =>
          match (s.containers path).infoFile with
          | none =>
              some { s with
                memory := s.memory.releaseFlushRecords path garbage
                waiting := s.waiting.erase path
                ending := (path, syncOff) :: s.ending }
          | some file =>
              let (rest, memory) := s.memory.popFlushRecords path file.journalOffset
              some { s with
                memory := memory
                waiting := s.waiting.erase path
                flushing := s.flushing.insert path ⟨file.append rest, syncOff, false⟩ }
      | _, _ => none
  | .releaseFlushRecords path garbage =>
      match s.flushing[path]? with
      | some ⟨copy, syncOff, false⟩ =>
          some { s with
            memory := s.memory.releaseFlushRecords path garbage
            flushing := s.flushing.insert path ⟨copy, syncOff, true⟩ }
      | _ => none
  | .renameTmpFile path =>
      match s.flushing[path]? with
      | some ⟨copy, syncOff, true⟩ =>
          some ({ s with
            flushing := s.flushing.erase path
            ending := (path, syncOff) :: s.ending }.setContainer path
              { s.containers path with infoFile := some copy })
      | _ => none
  | .processEndContainerFlush path syncOff start stop =>
      if (path, syncOff) ∈ s.ending then
        (s.writeRecord (.endFlush path syncOff start stop)).map fun s =>
          { s with
            ending := s.ending.erase (path, syncOff)
            committing := syncOff :: s.committing }
      else none
  | .getLastCommitOffset syncOff =>
      if syncOff ∈ s.committing then
        some { s with
          committing := s.committing.erase syncOff
          computed := s.memory.getLastCommitOffset.getD syncOff :: s.computed }
      else none
  | .setLastCommitOffset offset =>
      if offset ∈ s.computed then
        some { s with computed := s.computed.erase offset, lastCommitOffset := offset }
      else none
  | .getLastSyncOffset path =>
      let c := s.containers path
      if s.recovering then none
      else some (s.setContainer path { c with sampled := s.lastSyncOffset :: c.sampled })
  | .addContainer path offset =>
      let c := s.containers path
      if offset ∈ c.sampled ∧ s.flushing[path]? = none then
        match c.infoFile with
        | none =>
            some (s.setContainer path { c with
              infoFile := some ⟨offset, []⟩
              sampled := c.sampled.erase offset
              created := c.created + 1
              life := some ⟨s.lastSyncOffset, []⟩ })
        | some _ => some (s.setContainer path { c with sampled := c.sampled.erase offset })
      else none
  | .eraseCreated path =>
      let c := s.containers path
      match c.created with
      | n + 1 =>
          some ({ s with memory := (s.memory.deleteContainer path).2 }.setContainer path
            { c with created := n })
      | 0 => none
  | .memDelete path =>
      let c := s.containers path
      if s.recovering = false ∧ s.flushing[path]? = none then
        match s.memory.deleteContainer path with
        | (true, memory) =>
            some ({ s with memory := memory }.setContainer path
              { c with deleting := c.deleting + 1, life := none })
        | (false, _) => none
      else none
  | .removeFile path =>
      let c := s.containers path
      match c.deleting with
      | n + 1 => some (s.setContainer path { c with deleting := n, infoFile := none })
      | 0 => none
  | .crash journalEnd newestFile lost =>
      if s.durable ≤ journalEnd ∧ journalEnd ≤ s.journalEnd ∧ newestFile ≤ journalEnd ∧
          newestFile ∈ s.files ∧
          ∀ region ∈ lost, ∃ end' ∈ s.unsynced, end'.1 ≤ region.1 ∧ region.2 = end'.2 then
        let journal := s.survivingJournal journalEnd lost
        some {
          journal := journal
          journalEnd := journalEnd
          files := s.files.filter (· ≤ newestFile)
          oldest := s.oldest
          durable := journalEnd
          unsynced := []
          lastSyncOffset := newestFile
          lastCommitOffset := newestFile
          batch := .writing []
          memory := journal.recoverFiles s.oldest
          waiting := ∅
          flushing := ∅
          ending := []
          committing := []
          computed := []
          recovering := true
          containers := fun path =>
            { s.containers path with sampled := [], created := 0, deleting := 0 } }
      else none
  | .finishRecovery nextFile =>
      if s.recovering ∧ s.memory.isEmpty ∧ s.waiting.isEmpty ∧ s.flushing.isEmpty ∧
          s.ending = [] ∧ s.committing = [] ∧ s.computed = [] ∧ s.journalEnd ≤ nextFile then
        some { s with
          journal := []
          journalEnd := nextFile
          files := [nextFile]
          oldest := nextFile
          durable := nextFile
          unsynced := []
          lastSyncOffset := nextFile
          lastCommitOffset := nextFile
          recovering := false }
      else none

/-- A life of a container does not see the one before: what was synced before its creation is not
applied to the info file, and what was acknowledged since then is applied, in memory, or brought
back into memory by a recovery from the journal. -/
def IsolatedAt (s : ContainerLibrary) (path : String) : Prop :=
  ∀ l ∈ (s.containers path).life, ∃ file ∈ (s.containers path).infoFile,
    (∀ r ∈ file.records, l.createdAt < r.stop) ∧
      ∀ r ∈ l.acknowledged, r ∈ file.records ∨ r ∈ s.memory.recordsOf path ∨
        r ∈ (s.journal.recoverFiles s.oldest).recordsOf path

instance (s : ContainerLibrary) : DecidablePred s.IsolatedAt := fun path =>
  inferInstanceAs (Decidable (∀ l ∈ (s.containers path).life,
    ∃ file ∈ (s.containers path).infoFile, (∀ r ∈ file.records, l.createdAt < r.stop) ∧
      ∀ r ∈ l.acknowledged, r ∈ file.records ∨ r ∈ s.memory.recordsOf path ∨
        r ∈ (s.journal.recoverFiles s.oldest).recordsOf path))

def Isolated (s : ContainerLibrary) : Prop := ∀ path, s.IsolatedAt path

/-- Whether the memory of an entry whose flushed list is empty may get this last commit offset. -/
def HarmlessAt (s : ContainerLibrary) (path : String) (garbage : Nat) : Prop :=
  ∀ e ∈ s.memory[path]?, e.tmpRecordList = [] → ∀ x ∈ e.recordList, garbage ≤ x.2.start

instance (s : ContainerLibrary) (path : String) (garbage : Nat) :
    Decidable (s.HarmlessAt path garbage) :=
  inferInstanceAs (Decidable (∀ e ∈ s.memory[path]?, _))

/-- The commit offset is in a file that is there, and not behind a record that has left memory and
is in a temporary file only, nor, during a recovery, behind a record that has just been read
back. -/
def CommitInPlace (s : ContainerLibrary) : Prop :=
  s.oldest ≤ s.lastCommitOffset ∧
  (∀ e ∈ s.flushing.toList, e.2.released = true → ∀ r ∈ e.2.copy.records,
    s.lastCommitOffset ≤ r.start ∨ ∃ file ∈ (s.containers e.1).infoFile, r ∈ file.records) ∧
  (s.recovering = true → ∀ e ∈ s.memory.toList, ∀ r ∈ e.2.records, s.lastCommitOffset ≤ r.start)

instance (s : ContainerLibrary) : Decidable s.CommitInPlace :=
  inferInstanceAs (Decidable (_ ∧ (∀ e ∈ s.flushing.toList, _ → ∀ r ∈ e.2.copy.records, _) ∧
    (_ → ∀ e ∈ s.memory.toList, ∀ r ∈ e.2.records, _)))

/-- When a step keeps the lives of a container apart: none of its records is synced while a
creation is between its offset and its file, or added while one is between its file and its
erasure, or is synced and not acknowledged when the file is created; no file is created between
the two steps of a deletion; a flush whose records are all old releases them before another one
takes records, and leaves no later offset behind; the records that are synced stand in the file that
is; and the newest header, also the newest one that a crash leaves, names a file that is there. -/
def Safe (s : ContainerLibrary) : LibraryStep → Prop
  | .sync => ∀ r ∈ s.batch.unsynced, (s.containers r.path).sampled = [] ∧ s.activeFile ≤ r.start
  | .addEntries => ∀ r ∈ s.batch.unadded, (s.containers r.path).created = 0
  | .addContainer path _ =>
      (s.containers path).infoFile = none → ∀ r ∈ s.batch.unacknowledged, r.path ≠ path
  | .removeFile path => (s.containers path).life = none
  | .getFlushRecords path =>
      ∀ f ∈ s.flushing[path]?, f.released = false → ∃ e ∈ s.memory[path]?, e.tmpRecordList ≠ []
  | .releaseFlushRecords path garbage => s.HarmlessAt path garbage
  | .processCheckpoint _ _ => s.CommitInPlace
  | .removeOldFiles =>
      ∃ c ∈ ((s.keptJournal s.committedFile).filterMap JournalRecord.commit?).getLast?,
        s.committedFile ≤ c
  | .crash journalEnd _ lost => (s.survivingJournal journalEnd lost).FileKept s.oldest
  | _ => True

instance (s : ContainerLibrary) : DecidablePred s.Safe
  | .sync => inferInstanceAs (Decidable (∀ r ∈ s.batch.unsynced, _))
  | .addEntries => inferInstanceAs (Decidable (∀ r ∈ s.batch.unadded, _))
  | .addContainer path _ => inferInstanceAs (Decidable
      ((s.containers path).infoFile = none → ∀ r ∈ s.batch.unacknowledged, r.path ≠ path))
  | .removeFile path => inferInstanceAs (Decidable ((s.containers path).life = none))
  | .getFlushRecords path => inferInstanceAs (Decidable (∀ f ∈ s.flushing[path]?,
      f.released = false → ∃ e ∈ s.memory[path]?, e.tmpRecordList ≠ []))
  | .releaseFlushRecords path garbage => inferInstanceAs (Decidable (s.HarmlessAt path garbage))
  | .processCheckpoint _ _ => inferInstanceAs (Decidable s.CommitInPlace)
  | .removeOldFiles => inferInstanceAs (Decidable (∃ c ∈
      ((s.keptJournal s.committedFile).filterMap JournalRecord.commit?).getLast?, _))
  | .crash journalEnd _ lost =>
      inferInstanceAs (Decidable ((s.survivingJournal journalEnd lost).FileKept s.oldest))
  | .write _ => isTrue trivial
  | .executeCallback => isTrue trivial
  | .finishBatch => isTrue trivial
  | .writeOther _ => isTrue trivial
  | .rotateFile _ => isTrue trivial
  | .flushContainer _ _ => isTrue trivial
  | .renameTmpFile _ => isTrue trivial
  | .processEndContainerFlush _ _ _ _ => isTrue trivial
  | .getLastCommitOffset _ => isTrue trivial
  | .setLastCommitOffset _ => isTrue trivial
  | .getLastSyncOffset _ => isTrue trivial
  | .eraseCreated _ => isTrue trivial
  | .memDelete _ => isTrue trivial
  | .finishRecovery _ => isTrue trivial

end ContainerLibrary

end ObjectStorage.Container
