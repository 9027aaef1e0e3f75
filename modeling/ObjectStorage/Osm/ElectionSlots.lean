import Mathlib.Data.String.Basic
import Mathlib.Order.Bounds.Basic
import ObjectStorage.Library.SlotFile
import ObjectStorage.Records.RecordStructure

/-!
The election of a global leader over a file with one slot for each node (`election_manager.cpp` and
`file_handler.cpp`). File operations succeed, and the product of the number of nodes and the size of
a slot is not bounded.
-/

namespace ObjectStorage.Osm.ElectionSlots

open Journal Library Transaction

def ELECTION_RECORD_SIZE : Nat := 24

def DEFAULT_CONNECTIVITY_COUNT : Int32 := 0

/-- `buffer_size` of `ElectionFileHandler`. -/
def bufferSize : Nat := 8192

/-- The types of the switch of `deserialize_record`. -/
def knownTypes : List Int :=
  [Record.OPEN_RECORD, Record.CLOSE_RECORD, Record.SNAPSHOT_HEADER_RECORD,
    Record.CHECKPOINT_RECORD, Records.CONTAINER_STAT, Records.FINAL_OBJECT_RECORD,
    Records.OBJECT_RECORD, Records.SNAPSHOT_CONTAINER_JOURNAL,
    Records.CHECKPOINT_CONTAINER_JOURNAL, Records.CONTAINER_START_FLUSH,
    Records.CONTAINER_END_FLUSH, nodeInfoFileRecordType, Records.RING_RECORD,
    componentInfoRecordType, Records.COMPLETE_COMPONENT_RECORD, Records.TRANSIENT_MAP,
    Records.GL_MOUNT_INFO_RECORD, Records.ELECTION_RECORD, Records.ACCEPT_COMPONENTS_MARKER]

/-- What `deserialize_record` gives: a record, a null pointer for a type without a case, or an
exception of the stream. -/
inductive Deserialized where
  | record (r : Records.Record)
  | null
  | raised
deriving DecidableEq

/-- The node id behind the `dynamic_cast` to an election record, or none behind a null pointer. -/
def Deserialized.nodeId : Deserialized → Option (Option String)
  | .record (.election r) => some (some r.nodeId)
  | .record _ | .null => some none
  | .raised => none

section

variable (s : Records.ObjectStream) (unset : { n : Int // FitsInt64 n })

def deserialize (buffer : Bytes) : Deserialized :=
  match s.getInt buffer with
  | none => .raised
  | some (type, _) =>
    if type ∈ knownTypes then
      match Records.deserializeRecord s unset buffer with
      | some r => .record r
      | none => .raised
    else .null

/-- The bytes that a participant writes. -/
def electionRecord (id : String) : Bytes :=
  Records.serializeRecord s (.election ⟨id, DEFAULT_CONNECTIVITY_COUNT⟩)

/-- `OsmUtils::find_index`. -/
def findIndex (dataList : List String) (data : String) : Int :=
  if data ∈ dataList then dataList.idxOf data else -1

/-- `node_ids.sort()`. -/
def sorted (ids : List String) : List String := ids.mergeSort (· ≤ ·)

/-- The buffer on the stack has a fixed size, and a `memset` beyond it is undefined. -/
def createElectionFile (fileSize : Nat) : Option Bytes :=
  if bufferSize < fileSize then none else some (List.replicate fileSize 0)

/-- What `proceed_as_coordinator` and `proceed_as_participent` write, or an
`IdNotFoundException`. -/
def participate (ids : List String) (file : Bytes) (id : String) : Option Bytes :=
  let offset := findIndex (sorted ids) id * ELECTION_RECORD_SIZE
  if offset < 0 then none else some (overwrite 0 file offset.toNat (electionRecord s id))

/-- The file after the participants have written one after the other. -/
def electionFile (ids order : List String) : Option Bytes :=
  (createElectionFile (ids.length * ELECTION_RECORD_SIZE)).map fun file =>
    order.foldl (fun file id => (participate s ids file id).getD file) file

/-- `getGL`: none is an exception, or `back()` of an empty list. -/
def getGL (recordSize fileSize : Nat) (file : Bytes) : Option String :=
  let read := file.take bufferSize
  if read.length ≠ fileSize then none
  else
    let buffer := read ++ List.replicate (bufferSize - read.length) 0
    ((List.range ((fileSize + recordSize - 1) / recordSize)).mapM fun i =>
      (deserialize s unset (slotAt recordSize buffer i)).nodeId).bind fun found =>
        ((found.filterMap id).mergeSort (· ≤ ·)).getLast?

/-- The bytes of the file where a participant wrote its record. -/
def recordAt (ids : List String) (file : Bytes) (id : String) : Bytes :=
  (file.drop ((sorted ids).idxOf id * ELECTION_RECORD_SIZE)).take (electionRecord s id).length

/-- A node that is not in the list of the cluster writes nothing. -/
def participants (ids order : List String) : List String := order.filter (· ∈ ids)

/-- Every record is as its participant wrote it, and the greatest participant is elected. -/
def Elects (ids order : List String) : Prop :=
  ∃ file, electionFile s ids order = some file ∧
    (∀ id ∈ participants ids order, recordAt s ids file id = electionRecord s id) ∧
    ∃ leader, getGL s unset ELECTION_RECORD_SIZE (ids.length * ELECTION_RECORD_SIZE) file =
      some leader ∧ IsGreatest { id | id ∈ participants ids order } leader

/-- The file fits into the buffer, and the records of the participants into their slots. -/
def Fits (ids order : List String) : Prop :=
  ids.length * ELECTION_RECORD_SIZE ≤ bufferSize ∧
    ∀ id ∈ participants ids order, (electionRecord s id).length ≤ ELECTION_RECORD_SIZE

/-- The stream raises an exception where a buffer ends within a number or a string. -/
structure RaisesAtEnd : Prop where
  int : ∀ n bs, FitsInt n → bs <+: s.putInt n → bs ≠ s.putInt n → s.getInt bs = none
  string : ∀ text bs, bs <+: s.putString text → bs ≠ s.putString text → s.getString bs = none

end

end ObjectStorage.Osm.ElectionSlots
