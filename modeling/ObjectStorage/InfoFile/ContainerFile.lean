import ObjectStorage.Container.PendingStatistics
import ObjectStorage.InfoFile.Sorter

/-!
`ContainerInfoFile`: the info file of a container with its regions, the two layouts of the index
block, and the operations that create, flush, compact and update it.
-/

namespace ObjectStorage.InfoFile

open Std Library ObjectStorage.Journal Container.Statistics

/-! ### Records -/

/-- A field of 33 characters, filled with zeros. -/
abbrev HashField := { bytes : Bytes // bytes.length = 33 }

def hashField (bytes : Bytes) : HashField :=
  ⟨(bytes ++ List.replicate 33 0).take 33, by simp⟩

/-- The string in a field. -/
def HashField.toString (field : HashField) : String :=
  String.ofList ((field.1.takeWhile (· ≠ 0)).map fun b => Char.ofNat b.toNat)

/-- `IndexBlockBuilder::IndexRecord`. -/
structure IndexSlot where
  hash : HashField
  fileState : BitVec 64
  size : BitVec 64
deriving DecidableEq

/-- What the info file keeps of an object record, as far as it is used here. -/
structure DataRecord where
  name : String
  size : BitVec 64
  deleted : Nat
deriving DecidableEq

def DataRecord.isDeleted (data : DataRecord) : Bool :=
  data.deleted = objectDelete || data.deleted = objectUnknownDelete

/-! ### The index block -/

def sizeofIndexRecordV0 : Nat := 48

def sizeofIndexRecord : Nat := 56

/-- The bytes of an index record in a file of the given version, with its fields aligned. -/
def IndexSlot.encode (version : Nat) (slot : IndexSlot) : Bytes :=
  slot.hash.1 ++ List.replicate 7 0 ++ leBytes 8 slot.fileState.toNat ++
    if version = 0 then [] else leBytes 8 slot.size.toNat

def sizeofIndex (version : Nat) : Nat :=
  if version = 0 then sizeofIndexRecordV0 else sizeofIndexRecord

/-- An index record as it is read, without a size from a file of version 0. -/
def IndexSlot.decode (version : Nat) (bytes : Bytes) : IndexSlot where
  hash := hashField bytes
  fileState := BitVec.ofNat 64 (leValue ((bytes.drop 40).take 8))
  size := if version = 0 then 0 else BitVec.ofNat 64 (leValue ((bytes.drop 48).take 8))

/-- `Reader::read_index_block`. -/
def readIndexBlock (version : Nat) (indexBlock : Bytes) (start count : Nat) : List IndexSlot :=
  (List.range count).map fun i =>
    IndexSlot.decode version (indexBlock.drop ((start + i) * sizeofIndex version))

/-- Bytes written into a block, which has zeros where nothing was written. -/
def writeBlock (block : Bytes) (offset : Nat) (bytes : Bytes) : Bytes :=
  (block ++ List.replicate (offset - block.length) 0).take offset ++ bytes ++
    block.drop (offset + bytes.length)

/-! ### The trailer -/

def supportedVersion : Nat := 1

def sizeofObjectRecord : Nat := 1360

def sizeofDataIndexRecord : Nat := 1024

def dataIndexInterval : Nat := 5000

structure Trailer where
  sortedRecord : Nat
  unsortedRecord : Nat
  indexOffset : Nat
  dataIndexOffset : Nat
  dataOffset : Nat
  statOffset : Nat
  journalOffset : JournalOffset
  version : Nat
deriving DecidableEq

/-- For how many records a file is laid out that is created for the given number of them. -/
def Trailer.capacityFor (numRecord : Nat) : Nat := (numRecord + 10000 - 1) / 10000 * 10000 + 10000

def Trailer.new (numRecord version : Nat) : Trailer :=
  let capacity := Trailer.capacityFor numRecord
  let dataIndexOffset := 0 + capacity * sizeofIndexRecord
  let dataOffset := dataIndexOffset + sizeofDataIndexRecord * capacity / dataIndexInterval
  { sortedRecord := 0
    unsortedRecord := 0
    indexOffset := 0
    dataIndexOffset := dataIndexOffset
    dataOffset := dataOffset
    statOffset := dataOffset + sizeofObjectRecord * capacity
    journalOffset := toLex (0, 0)
    version := version }

/-! ### The file -/

abbrev Metadata := TreeMap String String

/-- A part of the file. -/
inductive Region where
  | index
  | dataIndex
  | data
  | stat
  | trailer
deriving DecidableEq

/-- Bytes that are written for one or more regions of the file with the given trailer. -/
structure FileWrite where
  trailer : Trailer
  regions : List Region
  offset : Nat
  length : Nat
deriving DecidableEq

/-- The info file. For the statements it also tells the index records that the writer wrote since
the index block was last started, and all writes since the container was added. -/
structure ContainerFile where
  trailer : Trailer
  metadata : Metadata
  indexBlock : Bytes
  data : List DataRecord
  written : List IndexSlot
  writes : List FileWrite

def metaDataLength : Nat := 30 * 1024

/-- The statistics block ends with the metadata, which start with their length. -/
def sizeofStatBlock : Nat := 688 + metaDataLength

def sizeofMetadataLength : Nat := 8

def sizeofTrailer : Nat := 88

namespace ContainerFile

variable (getHash : String → String)

/-- The statistics block and the trailer are written as one block of fixed size. -/
def statWrite (trailer : Trailer) : FileWrite :=
  ⟨trailer, [.stat, .trailer], trailer.statOffset, sizeofStatBlock + sizeofTrailer⟩

/-- The writer stores the supported version, whatever the trailer says. -/
def storeTrailer (trailer : Trailer) : Trailer := { trailer with version := supportedVersion }

def addContainer (metadata : Metadata) (offset : JournalOffset) : ContainerFile :=
  let trailer := { Trailer.new 0 supportedVersion with journalOffset := offset }
  { trailer := storeTrailer trailer
    metadata := metadata
    indexBlock := []
    data := []
    written := []
    writes := [statWrite trailer] }

/-- All index records as they are read. -/
def readIndex (file : ContainerFile) : List IndexSlot :=
  readIndexBlock file.trailer.version file.indexBlock 0
    (file.trailer.sortedRecord + file.trailer.unsortedRecord)

theorem length_readIndex (file : ContainerFile) :
    file.readIndex.length = file.trailer.sortedRecord + file.trailer.unsortedRecord := by
  simp [readIndex, readIndexBlock]

/-! ### Compaction -/

/-- The index record of a file of version 0 gets its fields from the data record. -/
def upgradeIndex (version : Nat) (entry : DataRecord × IndexSlot) : DataRecord × IndexSlot :=
  if version = 0 then
    let deleted := if entry.1.deleted = objectUnknownAdd then objectAdd else entry.1.deleted
    ({ entry.1 with deleted := deleted },
      ⟨hashField (getHash entry.1.name).toUTF8.toList, BitVec.ofNat 64 deleted, entry.1.size⟩)
  else entry

/-- The records that are left, from the sorted and the unsorted ones. -/
def compacted (file : ContainerFile) : List (DataRecord × IndexSlot) :=
  let entries := file.data.zip file.readIndex
  let sorted := entries.take file.trailer.sortedRecord
  let unsorted := sortedMap (·.1.name) (entries.drop file.trailer.sortedRecord)
  ((InfoFileSorter.records (·.1.name) [sorted, unsorted]).filter (! ·.1.isDeleted)).map
    (upgradeIndex getHash file.trailer.version)

def compactionTrailer (trailer : Trailer) (numRecord count : Nat) : Trailer :=
  { Trailer.new (trailer.sortedRecord + trailer.unsortedRecord + numRecord) trailer.version with
    journalOffset := trailer.journalOffset
    sortedRecord := count
    version := supportedVersion }

@[simp] theorem compactionTrailer_sortedRecord (trailer : Trailer) (numRecord count : Nat) :
    (compactionTrailer trailer numRecord count).sortedRecord = count := rfl

@[simp] theorem compactionTrailer_unsortedRecord (trailer : Trailer) (numRecord count : Nat) :
    (compactionTrailer trailer numRecord count).unsortedRecord = 0 := rfl

def compaction (file : ContainerFile) (numRecord : Nat) : ContainerFile :=
  let entries := file.compacted getHash
  let trailer := compactionTrailer file.trailer numRecord entries.length
  { trailer := storeTrailer trailer
    metadata := file.metadata
    indexBlock := entries.flatMap (·.2.encode supportedVersion)
    data := entries.map (·.1)
    written := entries.map (·.2)
    writes := file.writes ++
      [⟨trailer, [.data], trailer.dataOffset, sizeofObjectRecord * entries.length⟩,
        ⟨trailer, [.index], trailer.indexOffset, sizeofIndexRecord * entries.length⟩,
        ⟨trailer, [.dataIndex], trailer.dataIndexOffset,
          sizeofDataIndexRecord * (entries.length / dataIndexInterval)⟩,
        statWrite trailer] }

/-! ### Flushing -/

def maxReadIndexRecord : Nat := 100000

/-- `IndexBlockIterator` that goes backwards, with the records in its buffer in front of the place
where it stands. -/
structure IndexBlockIterator where
  restCount : Nat
  buffer : List IndexSlot
  index : Nat

namespace IndexBlockIterator

variable (limit : Nat) (records : List IndexSlot)

/-- The next records in front of the place. -/
def readIndexRecords (restCount : Nat) : IndexBlockIterator :=
  let count := min limit restCount
  ⟨restCount, (records.drop (restCount - count)).take count, count⟩

/-- When the first record of the buffer is reached, the buffer is filled again before the record is
copied out of it; an empty buffer still holds its former first record. -/
def next (it : IndexBlockIterator) : Option (IndexSlot × IndexBlockIterator) :=
  if it.restCount = 0 then none
  else if it.index - 1 = 0 then
    let it' := readIndexRecords limit records (it.restCount - 1)
    (it'.buffer.head?.or it.buffer.head?).map (·, it')
  else it.buffer[it.index - 1]?.map
    (·, { it with restCount := it.restCount - 1, index := it.index - 1 })

def toList : Nat → IndexBlockIterator → List IndexSlot
  | 0, _ => []
  | fuel + 1, it =>
      match it.next limit records with
      | none => []
      | some (slot, it') => slot :: toList fuel it'

end IndexBlockIterator

/-- The index records in the order in which the takeover reads them. -/
def indexBackwards (records : List IndexSlot) : List IndexSlot :=
  IndexBlockIterator.toList maxReadIndexRecord records (records.length + 1)
    (IndexBlockIterator.readIndexRecords maxReadIndexRecord records records.length)

def IndexSlot.toIndexRecord (slot : IndexSlot) : IndexRecord :=
  ⟨slot.hash.toString, slot.fileState.toNat⟩

/-- Files of an old version and files with many unsorted records are compacted first. -/
def prepareFlush (file : ContainerFile) (numRecord : Nat) : ContainerFile :=
  if file.trailer.version < supportedVersion ∨
      5000 ≤ file.trailer.unsortedRecord + numRecord then
    file.compaction getHash numRecord
  else file

/-- The records that are left when those in the file are taken out. -/
def flushRecords (file : ContainerFile) (nodeId : Nat) (unknownStatus : Bool)
    (records : RecordList) : RecordList :=
  Container.Statistics.flushContainer getHash
    ⟨nodeId, unknownStatus, file.trailer.journalOffset,
      (indexBackwards file.readIndex).map IndexSlot.toIndexRecord⟩ records

/-- The file state of an object record whose status is unknown is that of a known one. -/
def fileState (deleted : Nat) : Nat :=
  if deleted = objectUnknownDelete then objectDelete
  else if deleted = objectUnknownAdd then objectAdd
  else deleted

def newSlot (record : ObjectRecord) : IndexSlot :=
  ⟨hashField (getHash record.name).toUTF8.toList, BitVec.ofNat 64 (fileState record.deleted),
    record.size⟩

def appendTrailer (trailer : Trailer) (records : RecordList) : Trailer :=
  { trailer with
    unsortedRecord := trailer.unsortedRecord + records.length
    journalOffset := (records.getLast?.map (·.1)).getD trailer.journalOffset }

@[simp] theorem appendTrailer_sortedRecord (trailer : Trailer) (records : RecordList) :
    (appendTrailer trailer records).sortedRecord = trailer.sortedRecord := rfl

@[simp] theorem appendTrailer_unsortedRecord (trailer : Trailer) (records : RecordList) :
    (appendTrailer trailer records).unsortedRecord = trailer.unsortedRecord + records.length := rfl

/-- The records are appended to the unsorted ones. -/
def append (file : ContainerFile) (records : RecordList) : ContainerFile :=
  let slots := records.map fun e => newSlot getHash e.2
  let trailer := appendTrailer file.trailer records
  let first := trailer.sortedRecord + trailer.unsortedRecord - records.length
  { trailer := storeTrailer trailer
    metadata := file.metadata
    indexBlock := writeBlock file.indexBlock (sizeofIndexRecord * first)
      (slots.flatMap (·.encode supportedVersion))
    data := file.data ++ records.map fun e => ⟨e.2.name, e.2.size, e.2.deleted⟩
    written := file.written ++ slots
    writes := file.writes ++
      [⟨trailer, [.data], trailer.dataOffset + sizeofObjectRecord * first,
          sizeofObjectRecord * records.length⟩,
        ⟨trailer, [.index], trailer.indexOffset + sizeofIndexRecord * first,
          sizeofIndexRecord * records.length⟩,
        statWrite trailer] }

def hasUnknown (records : RecordList) : Bool :=
  records.any fun e => e.2.deleted = objectUnknownDelete || e.2.deleted = objectUnknownAdd

/-- `flush_container`. -/
def flushContainer (file : ContainerFile) (nodeId : Nat) (unknownStatus : Bool)
    (records : RecordList) : ContainerFile :=
  let file := file.prepareFlush getHash records.length
  let records := file.flushRecords getHash nodeId unknownStatus records
  if records = [] then
    if unknownStatus ∧ file.trailer.unsortedRecord ≠ 0 then file.compaction getHash 0
    else file
  else
    let file := file.append getHash records
    if unknownStatus ∨ hasUnknown records then file.compaction getHash 0 else file

/-! ### Statistics -/

def maxMetaLength : Nat := 4 * 1024

def maxMetaKeys : Nat := 90

def maxAclLength : Nat := 24 * 1024

def maxSystemMetaLength : Nat := 2 * 1024

/-- The length of the entries whose keys start with one of the strings. -/
def entriesLength (prefixes : List String) (entries : List (String × String)) : Nat :=
  ((entries.filter fun e => prefixes.any fun p => e.1.startsWith p).map
    fun e => e.1.utf8ByteSize + e.2.utf8ByteSize).sum

/-- An empty value deletes the entry. -/
def updateMetadata (metadata new : Metadata) : Metadata :=
  new.toList.foldl
    (fun metadata e => if e.2 = "" then metadata.erase e.1 else metadata.insert e.1 e.2) metadata

def entriesAllowed (entries : List (String × String)) : Prop :=
  entriesLength ["m-"] entries ≤ maxMetaLength ∧
    entries.countP (·.1.startsWith "m-") ≤ maxMetaKeys ∧
    entriesLength ["r-", "w-"] entries ≤ maxAclLength ∧
    entriesLength ["sm-"] entries ≤ maxSystemMetaLength

instance (entries : List (String × String)) : Decidable (entriesAllowed entries) :=
  inferInstanceAs (Decidable (_ ∧ _ ∧ _ ∧ _))

def metadataAllowed (metadata : Metadata) : Prop := entriesAllowed metadata.toList

instance (metadata : Metadata) : Decidable (metadataAllowed metadata) :=
  inferInstanceAs (Decidable (entriesAllowed _))

/-- `set_container_stat` writes only the statistics and the trailer. It throws if there are too many
metadata. -/
def setContainerStat (file : ContainerFile) (new : Metadata) : Option ContainerFile :=
  let metadata := updateMetadata file.metadata new
  if metadataAllowed metadata then
    some { file with
      trailer := storeTrailer file.trailer
      metadata := metadata
      writes := file.writes ++ [statWrite file.trailer] }
  else none

inductive Operation where
  | flushContainer (nodeId : Nat) (unknownStatus : Bool) (records : RecordList)
  | compaction (numRecord : Nat)
  | setContainerStat (new : Metadata)

def step (file : ContainerFile) : Operation → Option ContainerFile
  | .flushContainer nodeId unknownStatus records =>
      some (file.flushContainer getHash nodeId unknownStatus records)
  | .compaction numRecord => some (file.compaction getHash numRecord)
  | .setContainerStat new => file.setContainerStat new

end ContainerFile

end ObjectStorage.InfoFile
