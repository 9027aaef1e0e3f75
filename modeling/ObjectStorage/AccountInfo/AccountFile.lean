import Mathlib.Data.BitVec
import ObjectStorage.InfoFile.Sorter

/-!
`AccountInfoFile`: the info file of an account with the records of its containers, first the sorted
ones that compaction wrote and then the unsorted ones that were appended since. Counts and sizes are
64 bits wide. Hashes and names are compared whole, though the file stores 32 and 256 characters.
-/

namespace ObjectStorage.AccountInfo

open Std InfoFile

/-! ### Records -/

/-- A record of a container, as it is passed and as it stands in the static and the non-static block
together. -/
structure ContainerRecord where
  name : String
  hash : String
  objectCount : BitVec 64
  bytesUsed : BitVec 64
  deleted : Bool
deriving DecidableEq

@[ext]
structure AccountStat where
  containerCount : BitVec 64
  objectCount : BitVec 64
  bytesUsed : BitVec 64
deriving DecidableEq

def AccountStat.zero : AccountStat := ⟨0, 0, 0⟩

def AccountStat.add (stat : AccountStat) (record : ContainerRecord) : AccountStat where
  containerCount := stat.containerCount + 1
  objectCount := stat.objectCount + record.objectCount
  bytesUsed := stat.bytesUsed + record.bytesUsed

/-! ### The trailer -/

def sizeofStaticBlock : Nat := 272

def sizeofNonStaticBlock : Nat := 96

def sizeofStatBlock : Nat := 31168

def sizeofTrailerBlock : Nat := 72

structure TrailerBlock where
  sortedRecord : Nat
  unsortedRecord : Nat
  staticDataBlockOffset : Nat
  nonStaticDataBlockOffset : Nat
  statBlockOffset : Nat
deriving DecidableEq

/-- For how many records a file is laid out that is created for the given number of them. -/
def TrailerBlock.capacityFor (numRecord : Nat) : Nat :=
  (numRecord + 10000 - 1) / 10000 * 10000 + 10000

def TrailerBlock.new (numRecord : Nat) : TrailerBlock :=
  let capacity := TrailerBlock.capacityFor numRecord
  let nonStaticDataBlockOffset := 0 + capacity * sizeofStaticBlock
  { sortedRecord := 0
    unsortedRecord := 0
    staticDataBlockOffset := 0
    nonStaticDataBlockOffset := nonStaticDataBlockOffset
    statBlockOffset := nonStaticDataBlockOffset + sizeofNonStaticBlock * capacity }

/-! ### The file -/

/-- A part of the file. -/
inductive Region where
  | staticData
  | nonStaticData
  | stat
  | trailer
deriving DecidableEq

/-- Bytes that are written for a region of the file with the given trailer. -/
structure FileWrite where
  trailer : TrailerBlock
  region : Region
  offset : Nat
  length : Nat
deriving DecidableEq

/-- The records are those of the sorted part and then those of the unsorted part. For the statements
the file also tells all writes since the account was created. -/
structure AccountFile where
  trailer : TrailerBlock
  stat : AccountStat
  blocks : List ContainerRecord
  writes : List FileWrite
deriving DecidableEq

namespace AccountFile

def sorted (file : AccountFile) : List ContainerRecord := file.blocks.take file.trailer.sortedRecord

def unsorted (file : AccountFile) : List ContainerRecord :=
  (file.blocks.drop file.trailer.sortedRecord).take file.trailer.unsortedRecord

/-- The writes of the statistics block and the trailer behind it. -/
def statWrites (trailer : TrailerBlock) : List FileWrite :=
  [⟨trailer, .stat, trailer.statBlockOffset, sizeofStatBlock⟩,
    ⟨trailer, .trailer, trailer.statBlockOffset + sizeofStatBlock, sizeofTrailerBlock⟩]

/-- The write of `count` non-static blocks from the given one on. -/
def nonStaticWrite (trailer : TrailerBlock) (start count : Nat) : FileWrite :=
  ⟨trailer, .nonStaticData, trailer.nonStaticDataBlockOffset + sizeofNonStaticBlock * start,
    sizeofNonStaticBlock * count⟩

def staticWrite (trailer : TrailerBlock) (start count : Nat) : FileWrite :=
  ⟨trailer, .staticData, trailer.staticDataBlockOffset + sizeofStaticBlock * start,
    sizeofStaticBlock * count⟩

def createAccount (stat : AccountStat) : AccountFile where
  trailer := TrailerBlock.new 0
  stat := stat
  blocks := []
  writes := statWrites (TrailerBlock.new 0)

/-! ### Compaction -/

/-- The records that are left, from the sorted and the unsorted ones. -/
def compacted (file : AccountFile) : List ContainerRecord :=
  (InfoFileSorter.records (·.name) [file.sorted, sortedMap (·.name) file.unsorted]).filter
    (! ·.deleted)

def compactionTrailer (trailer : TrailerBlock) (count : Nat) : TrailerBlock :=
  { TrailerBlock.new (trailer.sortedRecord + trailer.unsortedRecord) with sortedRecord := count }

@[simp] theorem compactionTrailer_sortedRecord (trailer : TrailerBlock) (count : Nat) :
    (compactionTrailer trailer count).sortedRecord = count := rfl

@[simp] theorem compactionTrailer_unsortedRecord (trailer : TrailerBlock) (count : Nat) :
    (compactionTrailer trailer count).unsortedRecord = 0 := rfl

def compaction (file : AccountFile) : AccountFile :=
  let entries := file.compacted
  let trailer := compactionTrailer file.trailer entries.length
  { trailer := trailer
    stat := entries.foldl AccountStat.add AccountStat.zero
    blocks := entries
    writes := file.writes ++
      [staticWrite trailer 0 entries.length, nonStaticWrite trailer 0 entries.length] ++
        statWrites trailer }

/-! ### Adding containers -/

def maxUnsortedRecord : Nat := 5000

def prepareAppend (file : AccountFile) : AccountFile :=
  if maxUnsortedRecord ≤ file.trailer.unsortedRecord then file.compaction else file

def appendTrailer (trailer : TrailerBlock) (count : Nat) : TrailerBlock :=
  { trailer with unsortedRecord := trailer.unsortedRecord + count }

@[simp] theorem appendTrailer_sortedRecord (trailer : TrailerBlock) (count : Nat) :
    (appendTrailer trailer count).sortedRecord = trailer.sortedRecord := rfl

@[simp] theorem appendTrailer_unsortedRecord (trailer : TrailerBlock) (count : Nat) :
    (appendTrailer trailer count).unsortedRecord = trailer.unsortedRecord + count := rfl

/-- `write_static_data_block`, behind the records that are there. -/
def append (file : AccountFile) (records : List ContainerRecord) : AccountFile :=
  let trailer := appendTrailer file.trailer records.length
  let first := trailer.sortedRecord + trailer.unsortedRecord - records.length
  { trailer := trailer
    stat := records.foldl AccountStat.add file.stat
    blocks := file.blocks ++ records
    writes := file.writes ++
      [staticWrite trailer first records.length, nonStaticWrite trailer first records.length] ++
        statWrites trailer }

def addContainerInternal (file : AccountFile) (records : List ContainerRecord) : AccountFile :=
  file.prepareAppend.append records

def addContainer (file : AccountFile) (record : ContainerRecord) : AccountFile :=
  file.addContainerInternal [record]

/-! ### Updating containers -/

/-- A deleted record is only updated by a deletion. -/
def updateRecord (source target : ContainerRecord) : Option ContainerRecord :=
  if ! source.deleted && target.deleted then none
  else some { target with
    objectCount := source.objectCount
    bytesUsed := source.bytesUsed
    deleted := source.deleted }

/-- The first record of the container is updated, if there is one. -/
def updateFirst (source : ContainerRecord) : List ContainerRecord → Option (List ContainerRecord)
  | [] => none
  | target :: blocks =>
      if target.hash = source.hash then (updateRecord source target).map (· :: blocks)
      else (updateFirst source blocks).map (target :: ·)

/-- The records of the list that update a block, and those that are left. -/
def updateBlocks (blocks : List ContainerRecord) :
    List ContainerRecord → List ContainerRecord × List ContainerRecord
  | [] => (blocks, [])
  | source :: records =>
      match updateFirst source blocks with
      | some blocks' => updateBlocks blocks' records
      | none => ((updateBlocks blocks records).1, source :: (updateBlocks blocks records).2)

/-- In the unsorted part the last record of a container is updated. -/
def updateUnsorted (blocks records : List ContainerRecord) :
    List ContainerRecord × List ContainerRecord :=
  ((updateBlocks blocks.reverse records).1.reverse, (updateBlocks blocks.reverse records).2)

def maxReadNonStaticRecord : Nat := 10000

/-- What an update of the sorted part leads to: its blocks, the records that are left, and the first
block and the number of blocks of every write. -/
structure SortedUpdate where
  blocks : List ContainerRecord
  records : List ContainerRecord
  written : List (Nat × Nat)

/-- The sorted part is updated in pieces. -/
def updateSorted (limit : Nat) :
    Nat → Nat → List ContainerRecord → List ContainerRecord → SortedUpdate
  | 0, _, blocks, records => ⟨blocks, records, []⟩
  | fuel + 1, start, blocks, records =>
      if blocks = [] then ⟨[], records, []⟩
      else
        let piece := updateBlocks (blocks.take limit) records
        let rest := updateSorted limit fuel (start + (blocks.take limit).length)
          (blocks.drop limit) piece.2
        { blocks := piece.1 ++ rest.blocks
          records := rest.records
          written := if piece.2.length < records.length then
            (start, (blocks.take limit).length) :: rest.written else rest.written }

/-- The statistics of the unsorted records, from the last one on, and the containers they have. -/
def unsortedStat : List ContainerRecord → AccountStat × List String → AccountStat × List String
  | [], counted => counted
  | record :: blocks, (stat, hashSet) =>
      if record.hash ∈ hashSet then unsortedStat blocks (stat, hashSet)
      else unsortedStat blocks
        (if record.deleted then stat else stat.add record, record.hash :: hashSet)

/-- The sorted records of other containers are counted, too. -/
def sortedStat (hashSet : List String) (blocks : List ContainerRecord) (stat : AccountStat) :
    AccountStat :=
  (blocks.filter fun record => record.hash ∉ hashSet ∧ ! record.deleted).foldl AccountStat.add stat

/-- The file with the records of the containers that it has already, and the records that are
left. -/
def updateExisting (file : AccountFile) (records : List ContainerRecord) :
    AccountFile × List ContainerRecord :=
  let unsorted := updateUnsorted file.unsorted records
  let counted := unsortedStat unsorted.1.reverse (AccountStat.zero, [])
  let sorted :=
    updateSorted maxReadNonStaticRecord file.trailer.sortedRecord 0 file.sorted unsorted.2
  let unsortedWrites := if unsorted.2.length < records.length then
    [nonStaticWrite file.trailer file.trailer.sortedRecord file.trailer.unsortedRecord] else []
  ({ file with
      stat := sortedStat counted.2 sorted.blocks counted.1
      blocks := sorted.blocks ++ unsorted.1
      writes := file.writes ++ unsortedWrites ++
        sorted.written.map (fun piece => nonStaticWrite file.trailer piece.1 piece.2) ++
          statWrites file.trailer },
    sorted.records.filter (! ·.deleted))

def updateContainer (file : AccountFile) (records : List ContainerRecord) : AccountFile :=
  let updated := file.updateExisting records
  if updated.2 = [] then updated.1 else updated.1.addContainerInternal updated.2

def deleteContainer (file : AccountFile) (record : ContainerRecord) : AccountFile :=
  file.updateContainer [{ record with bytesUsed := 0, objectCount := 0, deleted := true }]

inductive Operation where
  | addContainer (record : ContainerRecord)
  | deleteContainer (record : ContainerRecord)
  | updateContainer (records : List ContainerRecord)
  | compaction

def step (file : AccountFile) : Operation → Option AccountFile
  | .addContainer record => some (file.addContainer record)
  | .deleteContainer record => some (file.deleteContainer record)
  | .updateContainer records => some (file.updateContainer records)
  | .compaction => some file.compaction

end AccountFile

end ObjectStorage.AccountInfo
