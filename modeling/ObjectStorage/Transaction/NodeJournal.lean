import ObjectStorage.Journal.ReadLayout
import ObjectStorage.Transaction.CheckpointRecovery

/-!
A node with the directory of its journal files: the calls of the service, the changes that a write
or a recovery makes to the directory one after the other, crashes between and within these changes,
and restarts, which recover the newest file that is not empty.
-/

namespace ObjectStorage.Transaction

open Std Library Journal TransactionLockManager

/-! ### The directory -/

/-- The journal files by their ids. For the statements the disk also tells what has been written
since the last complete snapshot, with the snapshot, and of which record only some bytes
followed. -/
structure JournalDisk where
  files : TreeMap Nat Bytes
  written : List (Segment Record)
  torn : Option (Record × Nat)

/-- A change to the directory. -/
inductive DiskOp where
  | create (fileId : Nat)
  | pad (fileId count : Nat)
  | store (fileId : Nat) (records : List Record)
  | remove (fileId : Nat)
deriving DecidableEq

def Record.isSnapshotHeader : Record → Bool
  | .snapshotHeaderRecord _ _ => true
  | _ => false

def recordBytes (stream : ObjectStream) (records : List Record) : Bytes :=
  fileBytes (Record.encode stream) (records.map .record)

/-- The records are a snapshot. -/
def isSnapshot (records : List Record) : Bool :=
  (records.head?.map (·.isSnapshotHeader)).getD false

namespace JournalDisk

/-- The records that are written completely. -/
def durable (disk : JournalDisk) : List Record := fileRecords disk.written

def appendBytes (disk : JournalDisk) (fileId : Nat) (bytes : Bytes) : JournalDisk :=
  { disk with files := disk.files.insert fileId (disk.files[fileId]?.getD [] ++ bytes) }

/-- A snapshot is written as one buffer, and what it replaces need not be recovered any more. -/
def apply (stream : ObjectStream) (disk : JournalDisk) : DiskOp → JournalDisk
  | .create fileId => { disk with files := disk.files.insertIfNew fileId [] }
  | .pad fileId count =>
      { disk.appendBytes fileId (List.replicate count padding) with
        written := disk.written ++ [.padding count] }
  | .store fileId records =>
      let stored := disk.appendBytes fileId (recordBytes stream records)
      if isSnapshot records then { stored with written := records.map .record, torn := none }
      else { stored with written := disk.written ++ records.map .record }
  | .remove fileId => { disk with files := disk.files.erase fileId }

/-- What a crash leaves of a change, of which at most `count` bytes got to the disk. -/
def tear (stream : ObjectStream) (disk : JournalDisk) (count : Nat) : DiskOp → JournalDisk
  | .pad fileId total => disk.apply stream (.pad fileId (min count total))
  | .store fileId records =>
      if (recordBytes stream records).length ≤ count then disk.apply stream (.store fileId records)
      else
        let torn := disk.appendBytes fileId ((recordBytes stream records).take count)
        if isSnapshot records then torn
        else { torn with torn := records.head?.map fun record => (record, count) }
  | .create _ => disk
  | .remove _ => disk

def applyAll (stream : ObjectStream) (disk : JournalDisk) (ops : List DiskOp) : JournalDisk :=
  ops.foldl (apply stream) disk

/-- The disk after `done` of the changes and `count` bytes of the next one. -/
def crashed (stream : ObjectStream) (disk : JournalDisk) (ops : List DiskOp) (done count : Nat) :
    JournalDisk :=
  match ops[done]? with
  | none => disk.applyAll stream ops
  | some op => (disk.applyAll stream (ops.take done)).tear stream count op

end JournalDisk

/-- What `find_latest_journal_file` finds. Without a file there is no oldest one. -/
structure JournalFileIds where
  latestFileId : Nat
  nextFileId : Nat
  oldestFileId : Option Nat
deriving DecidableEq

def JournalFileIds.visit (ids : JournalFileIds) (entry : Nat × Bytes) : JournalFileIds where
  latestFileId := if entry.2.isEmpty then ids.latestFileId else max ids.latestFileId entry.1
  nextFileId := max ids.nextFileId (if entry.2.isEmpty then entry.1 else entry.1 + 1)
  oldestFileId := some (ids.oldestFileId.elim entry.1 (min · entry.1))

def findLatestJournalFile (files : TreeMap Nat Bytes) : JournalFileIds :=
  files.toList.foldl JournalFileIds.visit ⟨0, 1, none⟩

/-- The files that `clean_journal_files` removes. -/
def JournalFileIds.cleaned (ids : JournalFileIds) : List Nat :=
  match ids.oldestFileId with
  | none => []
  | some oldest => List.range' oldest (ids.latestFileId + 1 - oldest)

/-! ### The changes of a write and of a recovery -/

/-- The snapshot of a lock table. -/
def snapshotRecords (lastTransactionId : Int) (memory : TransactionLockManager) : List Record :=
  .snapshotHeaderRecord lastTransactionId 1 :: (memoryRecords memory.memMap).map .openRecord

/-- `remove_old_files` in front of the file in use. -/
def removeOldFiles (oldest active : Nat) : List DiskOp :=
  (List.range' oldest (active - oldest)).map .remove

/-- The changes that `write` makes for a record. -/
def TransactionJournal.writeOps (stream : ObjectStream) (config : JournalConfig)
    (journal : TransactionJournal) (memory : TransactionLockManager) (record : Record) :
    List DiskOp :=
  let w := journal.writer
  let offset := (fileBytes (Record.encode stream) w.file).length
  let snapshot := snapshotRecords journal.lastTransactionId memory
  if offset = 0 then
    .store w.activeFileId snapshot :: removeOldFiles w.oldestFileId w.activeFileId ++
      [.store w.activeFileId [record]]
  else if w.rotates (Record.encode stream) config record then
    .pad w.activeFileId (config.maxFileLength - offset) :: .create (w.activeFileId + 1) ::
      .store (w.activeFileId + 1) snapshot ::
      removeOldFiles w.oldestFileId (w.activeFileId + 1) ++ [.store (w.activeFileId + 1) [record]]
  else if w.checkpoints (Record.encode stream) record then
    [.pad w.activeFileId (w.nextCheckpointOffset - offset).toNat,
      .store w.activeFileId [.checkpointRecord journal.lastTransactionId memory.getActiveIdList],
      .store w.activeFileId [record]]
  else [.store w.activeFileId [record]]

/-- The changes for the record at the head of the queue. -/
def JournaledImpl.writeOps (stream : ObjectStream) (config : JournalConfig) (s : JournaledImpl) :
    List DiskOp :=
  match s.queue with
  | [] => []
  | record :: _ => s.journal.writeOps stream config s.memory record

/-- The changes of `finish_recovery`. The write handler is new and has written no transaction. -/
def finishRecovery (ids : JournalFileIds) (memory : TransactionLockManager) : List DiskOp :=
  .create ids.nextFileId :: .store ids.nextFileId (snapshotRecords 0 memory) ::
    ids.cleaned.map .remove

/-! ### Recovery -/

/-- What `perform_recovery` reads of a file before it applies any record: the handler behind the
last checkpoint, the records, and the file, which may have been cut. -/
structure JournalReading where
  handler : TransactionReadHandler
  records : List PlacedRecord
  file : Bytes

def PlacedRecord.ofFound (found : JournalReadHandler.Found Record) : PlacedRecord :=
  ⟨found.1, found.2.1, found.2.2⟩

namespace TransactionRecovery

variable (stream : ObjectStream)

def readJournal (config : JournalConfig) (nodeId fileId : Nat) (bytes : Bytes) :
    Option JournalReading :=
  (recoverSnapshot stream (start config nodeId fileId bytes)).bind fun t =>
    (recoverLastCheckpoint stream (t.reader.file.length + 1) t).bind fun t =>
      (JournalReadHandler.readAll (Record.decode stream) (t.reader.file.length + 1)
        t.reader.prepareReadRecord).map fun (founds, reader) =>
          ⟨t.handler, founds.map .ofFound, reader.file⟩

/-- Records may be read before any of them is applied. -/
theorem recoverLoop_eq_readAll (osdConfig : Bool) (fuel : Nat) (reader : JournalReadHandler)
    (handler : TransactionReadHandler) :
    recoverLoop osdConfig stream fuel reader handler =
      (JournalReadHandler.readAll (Record.decode stream) fuel reader).bind fun (founds, _) =>
        handler.recoverRecords osdConfig (founds.map .ofFound) := by
  induction fuel generalizing reader handler with
  | zero => rfl
  | succ fuel ih =>
      rw [recoverLoop, JournalReadHandler.readAll]
      cases hnext : reader.getNextJournalRecord (Record.decode stream) with
      | none => rfl
      | some next =>
          obtain ⟨found?, reader'⟩ := next
          cases found? with
          | none => rfl
          | some found =>
              obtain ⟨record, offset, size⟩ := found
              simp only [ih]
              cases JournalReadHandler.readAll (Record.decode stream) fuel reader' with
              | none =>
                  cases handler.recoverObjects osdConfig ⟨record, offset, size⟩ <;> rfl
              | some rest => rfl

theorem performRecovery_eq_readJournal (osdConfig : Bool) (config : JournalConfig)
    (nodeId fileId : Nat) (bytes : Bytes) :
    performRecovery osdConfig stream config nodeId fileId bytes =
      (readJournal stream config nodeId fileId bytes).bind fun reading =>
        reading.handler.recoverRecords osdConfig reading.records := by
  unfold performRecovery readJournal
  rw [Option.bind_assoc]
  congr 1
  funext t
  rw [Option.bind_assoc]
  congr 1
  funext t
  rw [recoverJournalTillEof, recoverLoop_eq_readAll]
  cases JournalReadHandler.readAll (Record.decode stream) (t.reader.file.length + 1)
    t.reader.prepareReadRecord <;> rfl

end TransactionRecovery

/-! ### The node -/

/-- A node: its disk, the service while it runs, and the ids it has issued so far. -/
structure JournalNode where
  disk : JournalDisk
  running : Option JournaledImpl
  issued : List Int

/-- A crash while a record is written, or while recovery is finished, comes after `done` changes to
the directory and `count` bytes of the next one. Records are accepted from other nodes, and their
components committed. -/
inductive NodeStep where
  | call (c : Call)
  | extract (componentNames : List Int)
  | accept (records : List ActiveRecord)
  | commit (componentList : List Int) (baseVersionChanged : Bool)
  | write
  | crash
  | crashWriting (done count : Nat)
  | restart (componentList : List Int)
  | crashRestarting (componentList : List Int) (done count : Nat)
deriving DecidableEq

/-- The id that a call issues goes with the record it queues. -/
def Record.issued? : Record → Option Int
  | .openRecord active => some active.transactionId
  | _ => none

namespace JournalNode

/-- A node that has never run. -/
def init : JournalNode := ⟨⟨∅, [], none⟩, none, []⟩

variable (osdConfig : Bool) (stream : ObjectStream) (config : JournalConfig) (nodeId : Nat)

/-- The files that `find_latest_journal_file` finds. -/
def fileIds (node : JournalNode) : JournalFileIds := findLatestJournalFile node.disk.files

/-- The file that is recovered, if there is one. -/
def latestFile (node : JournalNode) : Option Bytes := node.disk.files[node.fileIds.latestFileId]?

/-- What recovery reads. -/
def reading (node : JournalNode) (bytes : Bytes) : Option JournalReading :=
  TransactionRecovery.readJournal stream config nodeId node.fileIds.latestFileId bytes

/-- `perform_recovery` up to its last step, and the disk it leaves. A recovery that fails an
assertion is undefined. -/
def recover (node : JournalNode) : Option (TransactionLockManager × JournalDisk) :=
  match node.latestFile with
  | none => some (.init nodeId, node.disk)
  | some bytes =>
      (node.reading stream config nodeId bytes).bind fun reading =>
        (reading.handler.recoverRecords osdConfig reading.records).map fun handler =>
          (handler.memory, { node.disk with
            files := node.disk.files.insert node.fileIds.latestFileId reading.file
            torn := if reading.file = bytes then node.disk.torn else none })

/-- The service that `start_recovery` leaves. -/
def recovered (ids : JournalFileIds) (memory : TransactionLockManager) : JournaledImpl where
  memory := memory
  queue := []
  journal := ⟨0, (JournalWriteHandler.openFile config ids.nextFileId).startFile config
    (snapshotRecords 0 memory)⟩

def step (node : JournalNode) : NodeStep → Option JournalNode
  | .call c => node.running.bind fun s =>
      (s.memory.call osdConfig c).map fun (record?, memory) =>
        { node with
          running := some { s with memory := memory, queue := s.queue ++ record?.toList }
          issued := node.issued ++ (record?.bind (·.issued?)).toList }
  | .extract componentNames => node.running.map fun s =>
      let memory := (s.memory.getComponentTransactionMap componentNames).2
      { node with running := some { s with memory := memory } }
  | .accept records =>
      if records = [] then none
      else node.running.map fun s =>
        let memory := s.memory.addRecordsInMemory osdConfig records false
        let queue := s.queue ++ records.map .openRecord
        { node with running := some { s with memory := memory, queue := queue } }
  | .commit componentList baseVersionChanged => node.running.bind fun s =>
      (s.memory.commitRecoveredData componentList baseVersionChanged).map fun memory =>
        { node with running := some { s with memory := memory } }
  | .write => node.running.bind fun s =>
      (s.step osdConfig stream config .write).map fun s' =>
        { node with
          disk := node.disk.applyAll stream (s.writeOps stream config)
          running := some s' }
  | .crash => node.running.map fun _ => { node with running := none }
  | .crashWriting done count => node.running.bind fun s =>
      if s.queue = [] then none
      else some { node with
        disk := node.disk.crashed stream (s.writeOps stream config) done count
        running := none }
  | .restart componentList =>
      if node.running.isSome then none
      else (node.recover osdConfig stream config nodeId).map fun (memory, disk) =>
        let memory := memory.markUnknownMemory componentList
        { node with
          disk := disk.applyAll stream (finishRecovery node.fileIds memory)
          running := some (recovered config node.fileIds memory) }
  | .crashRestarting componentList done count =>
      if node.running.isSome then none
      else (node.recover osdConfig stream config nodeId).map fun (memory, disk) =>
        { node with
          disk := disk.crashed stream
            (finishRecovery node.fileIds (memory.markUnknownMemory componentList)) done count }

end JournalNode

end ObjectStorage.Transaction
