import ObjectStorage.Journal.Framing
import ObjectStorage.Transaction.LockManager

/-!
The transaction journal at the level of records: what the service queues for its calls, what the
writer stores, and how the read handler applies the records of a file to a lock table.
-/

namespace ObjectStorage.Transaction

open Journal

/-- The records of a transaction journal. -/
inductive Record where
  | openRecord (record : ActiveRecord)
  | closeRecord (transactionId : Int) (objectName : String)
  | checkpointRecord (lastTransactionId : Int) (idList : List Int)
  | snapshotHeaderRecord (lastTransactionId journalVersion : Int)
deriving DecidableEq

/-- `helper_utils::Request`. -/
structure Request where
  objectName : String
  requestMethod : String
  operation : Int
  serverId : String
  operation_valid : operation = LockType.read.code ∨ operation = LockType.write.code
deriving DecidableEq

/-- The constructor takes any other lock type for a write. -/
def Request.ofLockType (objectName requestMethod : String) (lockType : Int) (serverId : String) :
    Request where
  objectName := objectName
  requestMethod := requestMethod
  operation :=
    if lockType ≠ LockType.read.code ∧ lockType ≠ LockType.write.code then LockType.write.code
    else lockType
  serverId := serverId
  operation_valid := by
    split
    · exact Or.inr rfl
    · rename_i h
      by_cases hread : lockType = LockType.read.code
      · exact Or.inl hread
      · exact Or.inr (Classical.byContradiction fun hwrite => h ⟨hread, hwrite⟩)

/-- The record of a request, which has no id yet. -/
def Request.activeRecord (request : Request) (time : Int) : ActiveRecord where
  operation := request.operation
  objectName := request.objectName
  requestMethod := request.requestMethod
  objectId := request.serverId
  transactionId := 0
  time := time

namespace TransactionLockManager

def getNameForId (s : TransactionLockManager) (transactionId : Int) : String :=
  match s.findRecord? transactionId with
  | some (_, record) => record.objectName
  | none => "error"

/-! ### Calls of the service -/

/-- `TransactionImpl::add_transaction`, with the record it queues. The lock table and the queue
share the record, so the lock time set after the grant is the time of both. -/
def addTransaction (osdConfig : Bool) (s : TransactionLockManager) (request : Request)
    (lockTime : Int) : Option (Int × Option Record × TransactionLockManager) :=
  let record := request.activeRecord lockTime
  (s.acquireLock osdConfig record).map fun (id, s') =>
    if id = -1 ∨ id = -2 then (id, none, s')
    else (id, some (.openRecord { record with transactionId := id }), s')

/-- `TransactionImpl::release_lock` by id, with the record it queues. -/
def releaseLock (s : TransactionLockManager) (transactionId : Int) :
    Option (Bool × Option Record × TransactionLockManager) :=
  let objectName := s.getNameForId transactionId
  (s.releaseLockById transactionId).map fun (status, s') =>
    if status then (status, some (.closeRecord transactionId objectName), s')
    else (status, none, s')

end TransactionLockManager

inductive Call where
  | addTransaction (request : Request) (lockTime : Int)
  | releaseLock (transactionId : Int)
deriving DecidableEq

/-- The record that a call queues, and the lock table it leaves. -/
def TransactionLockManager.call (osdConfig : Bool) (s : TransactionLockManager) :
    Call → Option (Option Record × TransactionLockManager)
  | .addTransaction request lockTime => (s.addTransaction osdConfig request lockTime).map (·.2)
  | .releaseLock transactionId => (s.releaseLock transactionId).map (·.2)

/-! ### Writing -/

/-- The records in the order `process_snapshot` visits them, by component and then by id. -/
def memoryRecords (mem : MemMap) : List ActiveRecord :=
  mem.toList.flatMap fun entry => entry.2.1.toList.map (·.2)

/-- The journal file that is being written, as the records in it. -/
structure TransactionWriteHandler where
  lastTransactionId : Int
  file : List Record

namespace TransactionWriteHandler

def processWrite (w : TransactionWriteHandler) (record : Record) : TransactionWriteHandler where
  lastTransactionId :=
    match record with
    | .openRecord active => active.transactionId
    | _ => w.lastTransactionId
  file := w.file ++ [record]

/-- The records that `process_snapshot` writes: a header of journal version one and every record in
memory, whatever the flag of its component and the queue. -/
def snapshotRecords (w : TransactionWriteHandler) (mem : MemMap) : List Record :=
  .snapshotHeaderRecord w.lastTransactionId 1 :: (memoryRecords mem).map .openRecord

/-- A new file that starts with a snapshot. -/
def processSnapshot (w : TransactionWriteHandler) (mem : MemMap) : TransactionWriteHandler :=
  { w with file := w.snapshotRecords mem }

end TransactionWriteHandler

/-- The service: the lock table, the records queued for the journal thread, and the writer. -/
structure TransactionImpl where
  memory : TransactionLockManager
  queue : List Record
  writer : TransactionWriteHandler

inductive ServiceStep where
  | call (c : Call)
  | write (rotate : Bool)
deriving DecidableEq

namespace TransactionImpl

def init (nodeId : Nat) : TransactionImpl := ⟨.init nodeId, [], ⟨0, []⟩⟩

/-- The journal thread writes the head of the queue, behind a snapshot when the file is new. The
sizes decide whether `JournalWriteHandler::write` rotates to a new file. -/
def step (osdConfig : Bool) (s : TransactionImpl) : ServiceStep → Option TransactionImpl
  | .call c => (s.memory.call osdConfig c).map fun (record?, memory) =>
      { s with memory := memory, queue := s.queue ++ record?.toList }
  | .write rotate =>
      match s.queue with
      | [] => none
      | record :: queue =>
          let writer :=
            if s.writer.file.isEmpty ∨ rotate then s.writer.processSnapshot s.memory.memMap
            else s.writer
          some { s with queue := queue, writer := writer.processWrite record }

end TransactionImpl

/-! ### Recovering -/

/-- A record read from a file, where it starts and how many bytes it takes. -/
structure PlacedRecord where
  record : Record
  offset : JournalOffset
  size : Nat

/-- The records of a file one after the other, each as long as its serialized form. -/
def layOut (serializedSize : Record → Nat) (fileId offset : Nat) : List Record → List PlacedRecord
  | [] => []
  | record :: records => ⟨record, toLex (fileId, offset), serializedSize record⟩ ::
      layOut serializedSize fileId (offset + serializedSize record) records

/-- The part of `TransactionReadHandler` that `recover_objects` uses. -/
structure TransactionReadHandler where
  memory : TransactionLockManager
  lastCheckpointOffset : JournalOffset
  activeIdList : List Int

namespace TransactionReadHandler

/-- The handler for a file without a checkpoint, over an empty lock table. -/
def init (nodeId fileId : Nat) : TransactionReadHandler := ⟨.init nodeId, toLex (fileId, 0), []⟩

/-- The record that is locked for an open record. Small records have no time. -/
def recoveredRecord (active : ActiveRecord) (size : Nat) : ActiveRecord :=
  { active with time := if (size : Int) - 16 ≥ 174 then active.time else 0 }

def acquire (osdConfig : Bool) (h : TransactionReadHandler) (active : ActiveRecord) :
    Option TransactionReadHandler :=
  (h.memory.acquireLock osdConfig active).map fun (_, memory) => { h with memory := memory }

/-- `recover_objects`. Of the records before the checkpoint only those on its list count. -/
def recoverObjects (osdConfig : Bool) (h : TransactionReadHandler) (placed : PlacedRecord) :
    Option TransactionReadHandler :=
  match placed.record with
  | .snapshotHeaderRecord lastTransactionId _ =>
      some { h with memory := h.memory.setLastTransactionId lastTransactionId }
  | .openRecord active =>
      let record := recoveredRecord active placed.size
      if placed.offset < h.lastCheckpointOffset then
        if active.transactionId ∈ h.activeIdList then
          (h.acquire osdConfig record).map fun h' =>
            { h' with activeIdList := h'.activeIdList.filter (· ≠ active.transactionId) }
        else some h
      else h.acquire osdConfig record
  | .closeRecord transactionId _ =>
      (h.memory.releaseLockById transactionId).map fun (_, memory) => { h with memory := memory }
  | .checkpointRecord _ _ => some h

/-- The loop of `recover_journal_till_eof` over the records read. -/
def recoverRecords (osdConfig : Bool) (h : TransactionReadHandler) (records : List PlacedRecord) :
    Option TransactionReadHandler :=
  records.foldlM (recoverObjects osdConfig) h

end TransactionReadHandler

end ObjectStorage.Transaction
