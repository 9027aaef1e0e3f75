import Std.Data.TreeSet
import ObjectStorage.Container.PendingStatistics
import ObjectStorage.Library.OrderedMap

/-!
`MemoryManager`: the records in memory by component and container, with the flag that tells whether
the component is owned and the counters of the records of owned and of recovered components. The
counters are 32 bits wide. The component of a path is a parameter.
-/

namespace ObjectStorage.Container.Statistics.Components

open Std Library Statistics ObjectStorage.Journal

abbrev ContainerMap := TreeMap String SecureObjectRecord

abbrev MemoryMap := TreeMap Int (ContainerMap × Bool)

structure FinalObjectRecord where
  path : String
  record : ObjectRecord
deriving DecidableEq

structure TransferObjectRecord where
  final : FinalObjectRecord
  offset : JournalOffset
deriving DecidableEq

structure MemoryManager where
  memoryMap : MemoryMap
  unknownFlagSet : TreeSet String
  count : BitVec 32
  recoveredCount : BitVec 32

/-- What the records handed to another node for its recovery have for a flag. -/
def toUnknown (record : ObjectRecord) : ObjectRecord :=
  if record.deleted = objectAdd then { record with deleted := objectUnknownAdd }
  else if record.deleted = objectDelete then { record with deleted := objectUnknownDelete }
  else record

namespace MemoryManager

def init : MemoryManager := ⟨∅, ∅, 0, 0⟩

/-- One of the counters goes up. -/
def countUp (m : MemoryManager) (memoryFlag : Bool) : MemoryManager :=
  if memoryFlag then { m with count := m.count + 1 }
  else { m with recoveredCount := m.recoveredCount + 1 }

/-- `count -= n` or `recovered_count -= n`. -/
def countDown (m : MemoryManager) (memoryFlag : Bool) (n : Nat) : MemoryManager :=
  if memoryFlag then { m with count := m.count - BitVec.ofNat 32 n }
  else { m with recoveredCount := m.recoveredCount - BitVec.ofNat 32 n }

section

variable (component : String → Int)

/-- The records of a container with one more, which may be the first. -/
def withRecord (containers : ContainerMap) (final : FinalObjectRecord)
    (prevOff syncOff : JournalOffset) : SecureObjectRecord :=
  match containers[final.path]? with
  | some e => e.addRecord final.record syncOff
  | none => .new final.record prevOff syncOff

/-- The records of a container. -/
def find (m : MemoryManager) (path : String) : Option SecureObjectRecord :=
  (m.memoryMap[component path]?).bind fun (containers, _) => containers[path]?

def addRecordInMap (m : MemoryManager) (final : FinalObjectRecord)
    (prevOff syncOff : JournalOffset) (memoryFlag : Bool) : MemoryManager :=
  let entry (containers : ContainerMap) := withRecord containers final prevOff syncOff
  let c := component final.path
  let memoryMap :=
    match m.memoryMap[c]? with
    | some (containers, owned) =>
        m.memoryMap.insert c (containers.insert final.path (entry containers), owned)
    | none => m.memoryMap.insert c ((∅ : ContainerMap).insert final.path (entry ∅), memoryFlag)
  let unknownFlagSet :=
    if final.record.deleted = objectUnknownAdd ∨ final.record.deleted = objectUnknownDelete then
      m.unknownFlagSet.insert final.path
    else m.unknownFlagSet
  { m with memoryMap := memoryMap, unknownFlagSet := unknownFlagSet }.countUp memoryFlag

def addEntries (m : MemoryManager) (records : List (Bool × List FinalObjectRecord))
    (prevOff syncOff : JournalOffset) : MemoryManager :=
  records.foldl (fun m (memoryFlag, finals) =>
    finals.foldl (fun m final => addRecordInMap component m final prevOff syncOff memoryFlag) m) m

def revertBackContData (m : MemoryManager) (transfer : TransferObjectRecord)
    (memoryFlag : Bool) : MemoryManager :=
  let path := transfer.final.path
  match m.memoryMap[component path]? with
  | none => m
  | some (containers, _) =>
      let containers :=
        match containers[path]? with
        | some e => containers.insert path (e.revertRecord transfer.final.record transfer.offset)
        | none => containers
      { m with
        memoryMap := m.memoryMap.insert (component path) (containers, memoryFlag) }.countUp
          memoryFlag

/-- The container goes, and its component when no container remains there. -/
def eraseContainer (m : MemoryManager) (path : String) : MemoryManager :=
  match m.memoryMap[component path]? with
  | none => m
  | some (containers, owned) =>
      let containers := containers.erase path
      { m with memoryMap :=
        if containers.isEmpty then m.memoryMap.erase (component path)
        else m.memoryMap.insert (component path) (containers, owned) }

def setContainer (m : MemoryManager) (path : String) (e : SecureObjectRecord) : MemoryManager :=
  match m.memoryMap[component path]? with
  | none => m
  | some (containers, owned) =>
      { m with memoryMap :=
        m.memoryMap.insert (component path) (containers.insert path e, owned) }

/-- `get_flush_records` with its reference argument `unknown_status`. The caller gets the list that
is being flushed from then on, or nothing. -/
def getFlushRecords (m : MemoryManager) (path : String) (unknownStatus requestFromUpdater : Bool) :
    Option RecordList × Bool × MemoryManager :=
  match find component m path with
  | none => (none, unknownStatus, m)
  | some e =>
      let unknown := m.unknownFlagSet.contains path
      let m := if unknown then { m with unknownFlagSet := m.unknownFlagSet.erase path } else m
      let unknownStatus := unknownStatus || unknown
      if requestFromUpdater && ! unknownStatus then (none, unknownStatus, m)
      else if ! e.tmpRecordList.isEmpty then (none, unknownStatus, m)
      else (some e.recordList, unknownStatus, setContainer component m path e.getFlushRecords)

def releaseFlushRecords (m : MemoryManager) (path : String) (garbage : JournalOffset) :
    MemoryManager :=
  match find component m path with
  | none => m
  | some e =>
      if e.recordList.isEmpty then eraseContainer component m path
      else setContainer component m path (e.releaseFlushRecords garbage)

def isFlushRunning (m : MemoryManager) (path : String) : Bool :=
  match find component m path with
  | none => false
  | some e => ! e.tmpRecordList.isEmpty

/-- `flush_container` takes records that the info file has already out of the list. -/
def flushContainer (getHash : String → String) (m : MemoryManager) (path : String) (flush : Flush) :
    MemoryManager :=
  match find component m path with
  | none => m
  | some e => setContainer component m path
      { e with tmpRecordList := Statistics.flushContainer getHash flush e.tmpRecordList }

/-- `remove_entry`, which leaves a component without containers. -/
def removeEntry (m : MemoryManager) (path : String) (offset : JournalOffset) : MemoryManager :=
  match m.memoryMap[component path]? with
  | none => m
  | some (containers, owned) =>
      match containers[path]? with
      | none => m
      | some e =>
          let e := e.removeRecord offset
          let containers :=
            if e.recordList.isEmpty then containers.erase path else containers.insert path e
          { m with memoryMap := m.memoryMap.insert (component path) (containers, owned) }

/-- `delete_container`, which fails while the container is being flushed. -/
def deleteContainer (m : MemoryManager) (path : String) : Bool × MemoryManager :=
  if isFlushRunning component m path then (false, m)
  else if (find component m path).isSome then (true, eraseContainer component m path)
  else (true, m)

end

/-- One component of `get_component_object_records`: what is taken out of its containers, and those
that are being flushed. -/
def extractComponent (m : MemoryManager) (requestFromRecovery : Bool) (c : Int) :
    Option (List TransferObjectRecord × List String × MemoryManager) :=
  (m.memoryMap[c]?).map fun (containers, owned) =>
    let transfer (path : String) (r : JournalOffset × ObjectRecord) : TransferObjectRecord :=
      ⟨⟨path, if requestFromRecovery then toUnknown r.2 else r.2⟩, r.1⟩
    let records := containers.toList.flatMap fun (path, e) => e.recordList.map (transfer path)
    let flushed := (containers.toList.filter fun e => ! e.2.tmpRecordList.isEmpty).map (·.1)
    let taken := containers.map fun _ e => e.getUnscheduledRecords
    (records, flushed,
      { m with memoryMap := m.memoryMap.insert c (taken, owned) }.countDown owned records.length)

/-- `remove_components` and `remove_transferred_records`. -/
def removeComponents (m : MemoryManager) (components : List Int) : MemoryManager :=
  { m with memoryMap := components.foldl (fun map c => map.erase c) m.memoryMap }

def markUnknownMemory (m : MemoryManager) (components : List Int) : MemoryManager :=
  { m with memoryMap := m.memoryMap.map fun c e => if c ∈ components then e else (e.1, false) }

/-- `commit_recovered_data`, which tells whether a component was committed. The loop goes on from
the component that it has erased, which C++ leaves undefined. -/
def commitRecoveredData (m : MemoryManager) (components : List Int) (baseVersionChanged : Bool) :
    Option (Bool × MemoryManager) :=
  let recovered := m.memoryMap.toList.filter fun e => ! e.2.2
  if baseVersionChanged && recovered.any fun e => e.1 ∉ components then none
  else some (recovered.any fun e => e.1 ∈ components,
    { m with memoryMap := m.memoryMap.map fun c e => (e.1, e.2 || decide (c ∈ components)) })

def resetInMemoryCount (m : MemoryManager) (decrementCount : BitVec 32) : MemoryManager :=
  { m with count := m.count - decrementCount }

/-- `flush_containers`: the paths handed to the file writer, whose threads flush them later. -/
def flushContainers (m : MemoryManager) : List String × MemoryManager :=
  ((m.memoryMap.toList.filter (·.2.2)).flatMap fun e => e.2.1.toList.map (·.1),
    { m with count := 0 })

/-! ### The manager as a transition system -/

/-- A call of one of the operations that change the memory. `get_component_object_records` handles
one component after the other, and others may come between. -/
inductive Operation where
  | addEntries (records : List (Bool × List FinalObjectRecord)) (prevOff syncOff : JournalOffset)
  | revertBackContData (transfer : TransferObjectRecord) (memoryFlag : Bool)
  | getFlushRecords (path : String) (unknownStatus requestFromUpdater : Bool)
  | flushContainer (path : String) (flush : Flush)
  | releaseFlushRecords (path : String) (garbage : JournalOffset)
  | deleteContainer (path : String)
  | removeEntry (path : String) (offset : JournalOffset)
  | getComponentObjectRecords (component : Int) (requestFromRecovery : Bool)
  | removeComponents (components : List Int)
  | markUnknownMemory (components : List Int)
  | commitRecoveredData (components : List Int) (baseVersionChanged : Bool)
  | resetInMemoryCount (decrementCount : BitVec 32)
  | flushContainers

def step (component : String → Int) (getHash : String → String) (m : MemoryManager) :
    Operation → Option MemoryManager
  | .addEntries records prevOff syncOff => some (addEntries component m records prevOff syncOff)
  | .revertBackContData transfer memoryFlag =>
      some (revertBackContData component m transfer memoryFlag)
  | .getFlushRecords path unknownStatus requestFromUpdater =>
      some (getFlushRecords component m path unknownStatus requestFromUpdater).2.2
  | .flushContainer path flush => some (flushContainer component getHash m path flush)
  | .releaseFlushRecords path garbage => some (releaseFlushRecords component m path garbage)
  | .deleteContainer path => some (deleteContainer component m path).2
  | .removeEntry path offset => some (removeEntry component m path offset)
  | .getComponentObjectRecords c requestFromRecovery =>
      some (((m.extractComponent requestFromRecovery c).map (·.2.2)).getD m)
  | .removeComponents components => some (m.removeComponents components)
  | .markUnknownMemory components => some (m.markUnknownMemory components)
  | .commitRecoveredData components baseVersionChanged =>
      (m.commitRecoveredData components baseVersionChanged).map (·.2)
  | .resetInMemoryCount decrementCount => some (m.resetInMemoryCount decrementCount)
  | .flushContainers => some m.flushContainers.2

end MemoryManager

end ObjectStorage.Container.Statistics.Components
