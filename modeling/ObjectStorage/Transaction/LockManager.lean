import Mathlib

/-!
The lock table of the transaction library: `TransactionLockManager` with its three indexes, and the
operations that update them. `none` marks an operation whose effect C++ leaves undefined.
-/

namespace ObjectStorage.Transaction

open Std

/-- `helper_utils::lockType`. Records carry the code as a plain `int`. -/
inductive LockType where
  | write
  | read
  | readWrite
deriving DecidableEq

def LockType.code : LockType → Int
  | .write => 1
  | .read => 2
  | .readWrite => 3

structure ActiveRecord where
  operation : Int
  objectName : String
  requestMethod : String
  objectId : String
  transactionId : Int
  time : Int
deriving DecidableEq

/-- An element of the list that `name_map` keeps for a name. -/
structure TransactionIdElement where
  transactionId : Int
  operation : Int
deriving DecidableEq

abbrev ElementList := List TransactionIdElement
abbrev RecordMap := TreeMap Int ActiveRecord
abbrev NameMap := TreeMap String ElementList
abbrev MemMap := TreeMap Int (RecordMap × Bool)
abbrev CompMap := TreeMap Int Int

/-- The counter `id` and the indexes by name, by component and by transaction id. -/
structure TransactionLockManager where
  id : Int
  nameMap : NameMap
  memMap : MemMap
  compMap : CompMap

def ActiveRecord.element (record : ActiveRecord) : TransactionIdElement :=
  ⟨record.transactionId, record.operation⟩

/-- `MAX_ID_LIMIT` is a bit mask of the low part of an id. -/
def maxIdLimit : Nat := 63050394783186943

def getUniqueId (nodeId id : Nat) : Int :=
  ((maxIdLimit &&& id) ||| (nodeId <<< 55) : Nat)

/-- The state the constructor leaves. -/
def TransactionLockManager.init (nodeId : Nat) : TransactionLockManager :=
  ⟨getUniqueId nodeId 0, ∅, ∅, ∅⟩

/-! ### Components -/

def hexDigit? (c : Char) : Option Nat :=
  if '0' ≤ c ∧ c ≤ '9' then some (c.toNat - '0'.toNat)
  else if 'a' ≤ c ∧ c ≤ 'f' then some (c.toNat - 'a'.toNat + 10)
  else if 'A' ≤ c ∧ c ≤ 'F' then some (c.toNat - 'A'.toNat + 10)
  else none

def hexDigits (acc : Nat) : List Char → Nat
  | [] => acc
  | c :: cs =>
      match hexDigit? c with
      | some d => hexDigits (16 * acc + d) cs
      | none => acc

def isStreamSpace (c : Char) : Bool :=
  c == ' ' || (9 ≤ c.toNat && c.toNat ≤ 13)

/-- The value after an optional `0x`. A prefix without digits fails, and the target keeps zero. -/
def hexBody : List Char → Nat
  | '0' :: 'x' :: cs => hexDigits 0 cs
  | '0' :: 'X' :: cs => hexDigits 0 cs
  | cs => hexDigits 0 cs

/-- `ss >> comp_number` with `std::hex` into a `uint64_t` that holds zero. -/
def readHex (cs : List Char) : Nat :=
  match cs.dropWhile isStreamSpace with
  | '-' :: rest => (2 ^ 64 - hexBody rest) % 2 ^ 64
  | '+' :: rest => hexBody rest
  | rest => hexBody rest

/-- What precedes the last `/`, or everything when there is none. -/
def beforeLastSlash (cs : List Char) : List Char :=
  if '/' ∈ cs then ((cs.reverse.dropWhile (· != '/')).drop 1).reverse else cs

/-- What follows the last `/`, or everything when there is none. -/
def afterLastSlash (cs : List Char) : List Char :=
  (cs.reverse.takeWhile (· != '/')).reverse

/-- `get_component_name`; `osdConfig` tells whether `OBJECT_STORAGE_CONFIG` is set. -/
def getComponentName (osdConfig : Bool) (objectPath : String) : Int :=
  let accConHash := afterLastSlash (beforeLastSlash objectPath.toList)
  let compNumber := readHex (accConHash.take 8)
  if osdConfig then 1 else (compNumber % 512 : Nat)

/-! ### Updates shared by the operations -/

/-- Append an element to the list of a name, creating the list when the name is absent. -/
def pushElement (names : NameMap) (name : String) (element : TransactionIdElement) : NameMap :=
  names.insert name (names[name]?.getD [] ++ [element])

/-- Erase the first element with this id, and the name with it when its list becomes empty. -/
def eraseElement (names : NameMap) (name : String) (elements : ElementList) (id : Int) :
    NameMap :=
  if elements.any (·.transactionId == id) then
    let rest := elements.eraseP (·.transactionId == id)
    if rest.isEmpty then names.erase name else names.insert name rest
  else names

/-- Append a recovered element unless one with the same id is listed. An empty list stays empty. -/
def pushRecovered (names : NameMap) (name : String) (element : TransactionIdElement) : NameMap :=
  match names[name]? with
  | none => names.insert name [element]
  | some [] => names
  | some elements =>
      if elements.any (·.transactionId == element.transactionId) then names
      else names.insert name (elements ++ [element])

/-- `std::map::insert` of a record into a component, which is created with `flag` when absent. -/
def insertRecord (mem : MemMap) (component : Int) (record : ActiveRecord) (flag : Bool) : MemMap :=
  match mem[component]? with
  | some (records, owned) =>
      mem.insert component (records.insertIfNew record.transactionId record, owned)
  | none => mem.insert component ((∅ : RecordMap).insertIfNew record.transactionId record, flag)

/-- Erase a record, and its component when no record remains. -/
def eraseRecord (mem : MemMap) (component : Int) (id : Int) : MemMap :=
  match mem[component]? with
  | some (records, owned) =>
      if (records.erase id).isEmpty then mem.erase component
      else mem.insert component (records.erase id, owned)
  | none => mem

namespace TransactionLockManager

def setLastTransactionId (s : TransactionLockManager) (transactionId : Int) :
    TransactionLockManager :=
  if s.id < transactionId then { s with id := transactionId } else s

def isFull (s : TransactionLockManager) : Bool :=
  s.compMap.size > 1000000

/-- Every active id, except that a table of one id gives the empty list. -/
def getActiveIdList (s : TransactionLockManager) : List Int :=
  if s.compMap.size ≤ 1 then [] else s.compMap.keys

/-- The record an id is registered for: the lookup shared by release and bulk removal. -/
def findRecord? (s : TransactionLockManager) (id : Int) : Option (Int × ActiveRecord) := do
  let component ← s.compMap[id]?
  let (records, _) ← s.memMap[component]?
  let record ← records[id]?
  return (component, record)

/-! ### Acquire -/

/-- The three combinations that `acquire_transaction_lock` turns down. -/
def rejects (lockOperation incomingOperation : Int) : Bool :=
  (lockOperation == LockType.read.code && incomingOperation == LockType.write.code) ||
  (lockOperation == LockType.write.code && incomingOperation == LockType.write.code) ||
  (lockOperation == LockType.write.code && incomingOperation == LockType.read.code)

/-- The id a granted request gets: its own, or the next value of the counter. -/
def grantedId (s : TransactionLockManager) (record : ActiveRecord) : Int :=
  if record.transactionId ≠ 0 then record.transactionId else s.id + 1

def withGrantedId (s : TransactionLockManager) (record : ActiveRecord) : ActiveRecord :=
  { record with transactionId := s.grantedId record }

/-- The part of `acquire_transaction_lock` after the conflict test. An id that the component
already holds is turned down after its element was appended to the name. -/
def grant (osdConfig : Bool) (s : TransactionLockManager) (record : ActiveRecord) :
    Int × TransactionLockManager :=
  let granted := s.withGrantedId record
  let id := granted.transactionId
  let component := getComponentName osdConfig record.objectName
  let pushed := { s.setLastTransactionId id with
    nameMap := pushElement s.nameMap record.objectName granted.element }
  if (s.memMap[component]?.bind (·.1[id]?)).isSome then (-1, pushed)
  else (id, { pushed with
    memMap := insertRecord s.memMap component granted true
    compMap := s.compMap.insertIfNew id component })

/-- Undefined on a name with an empty list, whose front is read. -/
def acquireTransactionLock (osdConfig : Bool) (s : TransactionLockManager)
    (record : ActiveRecord) : Option (Int × TransactionLockManager) :=
  match s.nameMap[record.objectName]? with
  | none => some (s.grant osdConfig record)
  | some [] => none
  | some (front :: _) =>
      if rejects front.operation record.operation then some (-1, s)
      else some (s.grant osdConfig record)

/-- `TransactionStoreManager::acquire_lock`. -/
def acquireLock (osdConfig : Bool) (s : TransactionLockManager) (record : ActiveRecord) :
    Option (Int × TransactionLockManager) :=
  if s.isFull then some (-2, s) else s.acquireTransactionLock osdConfig record

/-! ### Release and bulk removal -/

/-- Undefined when the record's name is missing from `name_map`. -/
def releaseLockById (s : TransactionLockManager) (transactionId : Int) :
    Option (Bool × TransactionLockManager) :=
  match s.findRecord? transactionId with
  | none => some (false, s)
  | some (component, record) =>
      match s.nameMap[record.objectName]? with
      | none => none
      | some elements =>
          some (true, { s with
            nameMap := eraseElement s.nameMap record.objectName elements transactionId
            memMap := eraseRecord s.memMap component transactionId
            compMap := s.compMap.erase transactionId })

def removeBulkDeleteId (s : TransactionLockManager) (transactionId : Int) :
    TransactionLockManager :=
  match s.findRecord? transactionId with
  | none => s
  | some (component, record) =>
      if record.requestMethod = "BULK_DELETE" then
        { s with
          nameMap := s.nameMap.erase record.objectName
          memMap := eraseRecord s.memMap component transactionId
          compMap := s.compMap.erase transactionId }
      else s

def removeBulkDeleteEntry (s : TransactionLockManager) (bulkTransactionIds : List Int) :
    TransactionLockManager :=
  bulkTransactionIds.foldl removeBulkDeleteId s

/-! ### Takeover of components -/

/-- One entry of `add_records_in_memory`. -/
def addRecord (osdConfig memoryFlag : Bool) (s : TransactionLockManager) (record : ActiveRecord) :
    TransactionLockManager :=
  let component := getComponentName osdConfig record.objectName
  let s := { s with memMap := insertRecord s.memMap component record memoryFlag }
  if memoryFlag then
    { s with
      nameMap := pushElement s.nameMap record.objectName record.element
      compMap := s.compMap.insertIfNew record.transactionId component }
  else s

def addRecordsInMemory (osdConfig : Bool) (s : TransactionLockManager)
    (transactionEntries : List ActiveRecord) (memoryFlag : Bool) : TransactionLockManager :=
  transactionEntries.foldl (addRecord osdConfig memoryFlag) s

/-- Drop an id and the name of its record from the indexes by id and by name. -/
def forgetRecord (s : TransactionLockManager) (entry : Int × ActiveRecord) :
    TransactionLockManager :=
  { s with
    nameMap := s.nameMap.erase entry.2.objectName
    compMap := s.compMap.erase entry.1 }

/-- The body of the loop over `mem_map` in `mark_unknown_memory`. -/
def markUnknownComponent (componentList : List Int) (s : TransactionLockManager)
    (entry : Int × (RecordMap × Bool)) : TransactionLockManager :=
  if entry.1 ∈ componentList then s
  else
    let s := { s with memMap := s.memMap.insert entry.1 (entry.2.1, false) }
    entry.2.1.toList.foldl forgetRecord s

def markUnknownMemory (s : TransactionLockManager) (componentList : List Int) :
    TransactionLockManager :=
  s.memMap.toList.foldl (markUnknownComponent componentList) s

/-- Register a recovered record under its name and its id. -/
def commitRecord (component : Int) (s : TransactionLockManager) (record : ActiveRecord) :
    TransactionLockManager :=
  { s with
    nameMap := pushRecovered s.nameMap record.objectName record.element
    compMap := s.compMap.insertIfNew record.transactionId component }

/-- The body of the loop over `mem_map` in `commit_recovered_data`. Erasing the element the
iterator stands on and then advancing it is undefined. -/
def commitComponent (componentList : List Int) (baseVersionChanged : Bool)
    (s : TransactionLockManager) (entry : Int × (RecordMap × Bool)) :
    Option TransactionLockManager :=
  if entry.1 ∈ componentList then
    if entry.2.2 then some s
    else
      let s := { s with memMap := s.memMap.insert entry.1 (entry.2.1, true) }
      some ((entry.2.1.toList.map (·.2)).foldl (commitRecord entry.1) s)
  else if baseVersionChanged then none
  else some s

def commitRecoveredData (s : TransactionLockManager) (componentList : List Int)
    (baseVersionChanged : Bool) : Option TransactionLockManager :=
  s.memMap.toList.foldlM (commitComponent componentList baseVersionChanged) s

/-- One component of `get_component_transaction_map`, with the records handed out for it. -/
def extractComponent (acc : TreeMap Int (List ActiveRecord) × TransactionLockManager)
    (component : Int) : TreeMap Int (List ActiveRecord) × TransactionLockManager :=
  match acc.2.memMap[component]? with
  | none => acc
  | some (records, _) =>
      let extracted :=
        if records.isEmpty then acc.1
        else acc.1.insert component (acc.1[component]?.getD [] ++ records.toList.map (·.2))
      let entries := records.toList.map fun entry => (entry.2.transactionId, entry.2)
      let s := entries.foldl forgetRecord acc.2
      (extracted, { s with memMap := s.memMap.erase component })

def getComponentTransactionMap (s : TransactionLockManager) (componentNames : List Int) :
    TreeMap Int (List ActiveRecord) × TransactionLockManager :=
  componentNames.foldl extractComponent (∅, s)

end TransactionLockManager

/-! ### The manager as a transition system -/

/-- A call of one of the operations that change the indexes. -/
inductive Operation where
  | acquire (record : ActiveRecord)
  | release (transactionId : Int)
  | removeBulkDelete (bulkTransactionIds : List Int)
  | addRecords (transactionEntries : List ActiveRecord) (memoryFlag : Bool)
  | markUnknown (componentList : List Int)
  | commitRecovered (componentList : List Int) (baseVersionChanged : Bool)
  | extractComponents (componentNames : List Int)

def TransactionLockManager.step (osdConfig : Bool) (s : TransactionLockManager) :
    Operation → Option TransactionLockManager
  | .acquire record => (s.acquireTransactionLock osdConfig record).map (·.2)
  | .release id => (s.releaseLockById id).map (·.2)
  | .removeBulkDelete ids => some (s.removeBulkDeleteEntry ids)
  | .addRecords entries flag => some (s.addRecordsInMemory osdConfig entries flag)
  | .markUnknown components => some (s.markUnknownMemory components)
  | .commitRecovered components changed => s.commitRecoveredData components changed
  | .extractComponents components => some (s.getComponentTransactionMap components).2

end ObjectStorage.Transaction
