import Mathlib
import ObjectStorage.Library.Transition
import ObjectStorage.InfoFile.StatBlock
import ObjectStorage.Records.RecordRoundTrip

/-!
The regions of the info file. Compaction lays the file out for all its records and the new ones and
for ten thousand more, and a flush that would bring the unsorted records to five thousand compacts
first. So the records always fit, and nothing is written outside the regions it is for.
-/

namespace ObjectStorage.InfoFile

open Std Library ObjectStorage.Journal Container.Statistics

/-! ### Extents -/

namespace Trailer

variable (trailer : Trailer)

/-- For how many records the file is laid out. -/
def capacity : Nat := (trailer.dataIndexOffset - trailer.indexOffset) / sizeofIndexRecord

/-- The bytes of a region in a file with this trailer. -/
def bytes : Region → Set Nat
  | .index =>
      Set.Ico trailer.indexOffset (trailer.indexOffset + sizeofIndexRecord * trailer.capacity)
  | .dataIndex => Set.Ico trailer.dataIndexOffset
      (trailer.dataIndexOffset + sizeofDataIndexRecord * trailer.capacity / dataIndexInterval)
  | .data => Set.Ico trailer.dataOffset (trailer.dataOffset + sizeofObjectRecord * trailer.capacity)
  | .stat => Set.Ico trailer.statOffset (trailer.statOffset + sizeofStatBlock)
  | .trailer => Set.Ico (trailer.statOffset + sizeofStatBlock)
      (trailer.statOffset + sizeofStatBlock + sizeofTrailer)

/-- The regions follow each other. -/
structure Placed : Prop where
  index : trailer.indexOffset = 0
  dataIndex : trailer.dataIndexOffset = sizeofIndexRecord * trailer.capacity
  data : trailer.dataOffset =
    trailer.dataIndexOffset + sizeofDataIndexRecord * trailer.capacity / dataIndexInterval
  stat : trailer.statOffset = trailer.dataOffset + sizeofObjectRecord * trailer.capacity

variable {trailer}

theorem capacity_new (numRecord version : Nat) :
    (Trailer.new numRecord version).capacity = capacityFor numRecord := by
  unfold capacity Trailer.new
  simp [sizeofIndexRecord]

theorem placed_new (numRecord version : Nat) : (Trailer.new numRecord version).Placed where
  index := rfl
  dataIndex := by
    rw [capacity_new]
    simp [Trailer.new, Nat.mul_comm]
  data := by
    rw [capacity_new]
    rfl
  stat := by
    rw [capacity_new]
    rfl

theorem le_capacityFor (numRecord : Nat) : numRecord + 10000 ≤ capacityFor numRecord := by
  unfold capacityFor
  omega

theorem Placed.disjoint (h : trailer.Placed) : Pairwise fun r r' =>
    Disjoint (trailer.bytes r) (trailer.bytes r') := by
  obtain ⟨hindex, hdataIndex, hdata, hstat⟩ := h
  have hle : trailer.dataIndexOffset ≤ trailer.dataOffset := hdata ▸ Nat.le_add_right _ _
  intro r r' hne
  rw [Set.disjoint_left]
  intro offset hr hr'
  cases r <;> cases r' <;> first | exact hne rfl | skip
  all_goals
    simp only [bytes, Set.mem_Ico] at hr hr'
    omega

end Trailer

def FileWrite.bytes (write : FileWrite) : Set Nat :=
  Set.Ico write.offset (write.offset + write.length)

/-- The bytes of the regions that a write is for. -/
def FileWrite.target (write : FileWrite) : Set Nat :=
  ⋃ r ∈ write.regions, write.trailer.bytes r

/-- A write that stays in its regions. -/
structure FileWrite.Within (write : FileWrite) : Prop where
  placed : write.trailer.Placed
  target : write.bytes ⊆ write.target

theorem FileWrite.within_of_region {write : FileWrite} {r : Region} (hplaced : write.trailer.Placed)
    (hr : r ∈ write.regions) (h : write.bytes ⊆ write.trailer.bytes r) : write.Within :=
  ⟨hplaced, h.trans (Set.subset_biUnion_of_mem (u := write.trailer.bytes) hr)⟩

namespace ContainerFile

variable {getHash : String → String} {file file' : ContainerFile}

/-- The records fit into the file, its regions are disjoint, and every write stayed in the regions
it is for and left the other ones alone. -/
structure RegionsKept (file : ContainerFile) : Prop where
  capacity : file.trailer.sortedRecord + file.trailer.unsortedRecord ≤ file.trailer.capacity
  disjoint : Pairwise fun r r' => Disjoint (file.trailer.bytes r) (file.trailer.bytes r')
  within : ∀ w ∈ file.writes, w.bytes ⊆ w.target
  apart : ∀ w ∈ file.writes, ∀ r ∉ w.regions, Disjoint w.bytes (w.trailer.bytes r)

/-! ### The room that is left -/

/-- There is room for the records that come before the next compaction. -/
structure Roomy (trailer : Trailer) : Prop where
  placed : trailer.Placed
  room : trailer.sortedRecord + 10000 ≤ trailer.capacity
  capacity : trailer.sortedRecord + trailer.unsortedRecord ≤ trailer.capacity

structure Regular (file : ContainerFile) : Prop where
  roomy : Roomy file.trailer
  writes : ∀ w ∈ file.writes, w.Within

theorem Regular.regionsKept (h : Regular file) : RegionsKept file where
  capacity := h.roomy.capacity
  disjoint := h.roomy.placed.disjoint
  within := fun w hw => (h.writes w hw).target
  apart := by
    intro w hw r hr
    obtain ⟨hplaced, htarget⟩ := h.writes w hw
    refine Disjoint.mono_left htarget (Set.disjoint_iUnion₂_left.mpr fun r' hr' => ?_)
    exact hplaced.disjoint fun heq => hr (heq ▸ hr')

theorem within_statWrite {trailer : Trailer} (hplaced : trailer.Placed) :
    (statWrite trailer).Within := by
  refine ⟨hplaced, fun offset hoffset => ?_⟩
  obtain ⟨hlow, hhigh⟩ := Set.mem_Ico.mp hoffset
  by_cases hstat : offset < trailer.statOffset + sizeofStatBlock
  · exact Set.mem_biUnion (t := trailer.bytes) List.mem_cons_self (Set.mem_Ico.mpr ⟨hlow, hstat⟩)
  · refine Set.mem_biUnion (t := trailer.bytes) (List.mem_cons_of_mem _ List.mem_cons_self)
      (Set.mem_Ico.mpr ⟨Nat.le_of_not_lt hstat, ?_⟩)
    rw [Nat.add_assoc]
    exact hhigh

theorem within_records {trailer : Trailer} (hplaced : trailer.Placed) {first count : Nat}
    (hroom : first + count ≤ trailer.capacity) :
    FileWrite.Within ⟨trailer, [.data], trailer.dataOffset + sizeofObjectRecord * first,
        sizeofObjectRecord * count⟩ ∧
      FileWrite.Within ⟨trailer, [.index], trailer.indexOffset + sizeofIndexRecord * first,
        sizeofIndexRecord * count⟩ := by
  have hscale : ∀ start size, Set.Ico (start + size * first) (start + size * first + size * count) ⊆
      Set.Ico start (start + size * trailer.capacity) := by
    intro start size
    refine Set.Ico_subset_Ico (Nat.le_add_right _ _) ?_
    rw [Nat.add_assoc, ← Nat.mul_add]
    exact Nat.add_le_add_left (Nat.mul_le_mul_left size hroom) start
  exact ⟨FileWrite.within_of_region hplaced List.mem_cons_self (hscale _ _),
    FileWrite.within_of_region hplaced List.mem_cons_self (hscale _ _)⟩

theorem entries_subset_dataIndex {trailer : Trailer} {count : Nat}
    (hroom : count ≤ trailer.capacity) :
    Set.Ico trailer.dataIndexOffset
      (trailer.dataIndexOffset + sizeofDataIndexRecord * (count / dataIndexInterval)) ⊆
        trailer.bytes .dataIndex := by
  apply Set.Ico_subset_Ico le_rfl (Nat.add_le_add_left _ _)
  calc sizeofDataIndexRecord * (count / dataIndexInterval)
      ≤ sizeofDataIndexRecord * count / dataIndexInterval := Nat.mul_div_le_mul_div_assoc ..
    _ ≤ sizeofDataIndexRecord * trailer.capacity / dataIndexInterval :=
        Nat.div_le_div_right (Nat.mul_le_mul_left _ hroom)

theorem within_dataIndex {trailer : Trailer} (hplaced : trailer.Placed) {count : Nat}
    (hroom : count ≤ trailer.capacity) :
    FileWrite.Within ⟨trailer, [.dataIndex], trailer.dataIndexOffset,
      sizeofDataIndexRecord * (count / dataIndexInterval)⟩ :=
  FileWrite.within_of_region hplaced List.mem_cons_self (entries_subset_dataIndex hroom)

/-! ### One operation -/

theorem length_compacted_le (file : ContainerFile) : (file.compacted getHash).length ≤
    file.trailer.sortedRecord + file.trailer.unsortedRecord := by
  have hzip : (file.data.zip file.readIndex).length ≤
      file.trailer.sortedRecord + file.trailer.unsortedRecord := by
    rw [List.length_zip, length_readIndex]
    exact min_le_right _ _
  have hmap := length_sortedMap_le (fun e : DataRecord × IndexSlot => e.1.name)
    ((file.data.zip file.readIndex).drop file.trailer.sortedRecord)
  unfold compacted
  rw [List.length_map]
  refine (List.length_filter_le _ _).trans ((InfoFileSorter.length_records_le _ _).trans ?_)
  simp only [List.map_cons, List.map_nil, List.sum_cons, List.sum_nil, List.length_take,
    List.length_drop, InfoFileSorter.total] at hmap ⊢
  omega

theorem length_dropIndexed_le (index : IndexRecord) (seen : List String) (records : RecordList) :
    (dropIndexed getHash index seen records).1.length ≤ records.length := by
  induction records with
  | nil => exact le_rfl
  | cons e records ih =>
      rw [dropIndexed]
      split_ifs
      all_goals
        simp only [List.length_cons]
        omega

theorem length_dropAllIndexed_le (indexes : List IndexRecord) (seen : List String)
    (records : RecordList) :
    (dropAllIndexed getHash indexes seen records).length ≤ records.length := by
  induction indexes generalizing seen records with
  | nil => exact le_rfl
  | cons index indexes ih =>
      rw [dropAllIndexed]
      exact (ih _ _).trans (length_dropIndexed_le index seen records)

theorem length_flushRecords_le (file : ContainerFile) (nodeId : Nat) (unknownStatus : Bool)
    (records : RecordList) :
    (file.flushRecords getHash nodeId unknownStatus records).length ≤ records.length := by
  unfold flushRecords Container.Statistics.flushContainer
  split_ifs
  · exact (List.dropWhile_suffix _).length_le
  · exact length_dropAllIndexed_le _ _ _
  · exact le_rfl

/-- There is room for some more records. -/
def HasRoom (trailer : Trailer) (numRecord : Nat) : Prop :=
  trailer.sortedRecord + trailer.unsortedRecord + numRecord ≤ trailer.capacity

theorem Roomy.storeTrailer {trailer : Trailer} (h : Roomy trailer) : Roomy (storeTrailer trailer) :=
  ⟨⟨h.placed.index, h.placed.dataIndex, h.placed.data, h.placed.stat⟩, h.room, h.capacity⟩

theorem HasRoom.storeTrailer {trailer : Trailer} {numRecord : Nat} (h : HasRoom trailer numRecord) :
    HasRoom (storeTrailer trailer) numRecord := h

theorem roomy_compactionTrailer {trailer : Trailer} {count : Nat}
    (hcount : count ≤ trailer.sortedRecord + trailer.unsortedRecord) (numRecord : Nat) :
    Roomy (compactionTrailer trailer numRecord count) ∧
      HasRoom (compactionTrailer trailer numRecord count) numRecord := by
  have hroom := Trailer.le_capacityFor
    (trailer.sortedRecord + trailer.unsortedRecord + numRecord)
  have hcapacity : (compactionTrailer trailer numRecord count).capacity = Trailer.capacityFor
      (trailer.sortedRecord + trailer.unsortedRecord + numRecord) :=
    Trailer.capacity_new _ trailer.version
  have hnew := Trailer.placed_new (trailer.sortedRecord + trailer.unsortedRecord + numRecord)
    trailer.version
  refine ⟨⟨⟨hnew.index, hnew.dataIndex, hnew.data, hnew.stat⟩, ?_, ?_⟩, ?_⟩
  · rw [compactionTrailer_sortedRecord]
    omega
  · rw [compactionTrailer_sortedRecord, compactionTrailer_unsortedRecord]
    omega
  · rw [HasRoom, compactionTrailer_sortedRecord, compactionTrailer_unsortedRecord]
    omega

theorem compaction_trailer (file : ContainerFile) (numRecord : Nat) :
    (file.compaction getHash numRecord).trailer =
      storeTrailer (compactionTrailer file.trailer numRecord (file.compacted getHash).length) := rfl

theorem Regular.compaction_writes (h : Regular file) (numRecord : Nat) :
    ∀ w ∈ (file.compaction getHash numRecord).writes, w.Within := by
  have hlength : (file.compacted getHash).length ≤
      file.trailer.sortedRecord + file.trailer.unsortedRecord := length_compacted_le file
  simp only [ContainerFile.compaction]
  generalize (file.compacted getHash).length = count at hlength
  obtain ⟨hroomy, -⟩ := roomy_compactionTrailer hlength numRecord
  have hcount : 0 + count ≤ (compactionTrailer file.trailer numRecord count).capacity := by
    have hcapacity := hroomy.capacity
    rw [compactionTrailer_sortedRecord] at hcapacity
    omega
  generalize compactionTrailer file.trailer numRecord count = trailer at hroomy hcount
  obtain ⟨hdata, hindex⟩ := within_records hroomy.placed hcount
  have hdataIndex := within_dataIndex hroomy.placed (Nat.zero_add count ▸ hcount)
  rw [Nat.mul_zero, Nat.add_zero] at hdata hindex
  simp only [List.mem_append, List.mem_cons, List.not_mem_nil, or_false]
  rintro w (hw | rfl | rfl | rfl | rfl)
  · exact h.writes w hw
  · exact hdata
  · exact hindex
  · exact hdataIndex
  · exact within_statWrite hroomy.placed

theorem Regular.compaction (h : Regular file) (numRecord : Nat) :
    Regular (file.compaction getHash numRecord) ∧
      HasRoom (file.compaction getHash numRecord).trailer numRecord := by
  have hlength : (file.compacted getHash).length ≤
      file.trailer.sortedRecord + file.trailer.unsortedRecord := length_compacted_le file
  obtain ⟨hroomy, hroom⟩ := roomy_compactionTrailer hlength numRecord
  refine ⟨⟨?_, h.compaction_writes numRecord⟩, ?_⟩
  · rw [compaction_trailer]
    exact hroomy.storeTrailer
  · rw [compaction_trailer]
    exact hroom.storeTrailer

theorem Regular.append (h : Regular file) {records : RecordList}
    (hroom : HasRoom file.trailer records.length) :
    Regular (file.append getHash records) := by
  have hplaced := h.roomy.placed
  have hroomy : Roomy (appendTrailer file.trailer records) := by
    refine ⟨⟨hplaced.index, hplaced.dataIndex, hplaced.data, hplaced.stat⟩, h.roomy.room, ?_⟩
    rw [appendTrailer_sortedRecord, appendTrailer_unsortedRecord, ← Nat.add_assoc]
    exact hroom
  have hfirst : (appendTrailer file.trailer records).sortedRecord +
      (appendTrailer file.trailer records).unsortedRecord - records.length =
        file.trailer.sortedRecord + file.trailer.unsortedRecord := by
    rw [appendTrailer_sortedRecord, appendTrailer_unsortedRecord]
    omega
  have hroom' : file.trailer.sortedRecord + file.trailer.unsortedRecord + records.length ≤
      (appendTrailer file.trailer records).capacity := hroom
  refine ⟨hroomy.storeTrailer, ?_⟩
  simp only [ContainerFile.append, hfirst]
  generalize appendTrailer file.trailer records = trailer at hroomy hroom'
  obtain ⟨hdata, hindex⟩ := within_records hroomy.placed hroom'
  simp only [List.mem_append, List.mem_cons, List.not_mem_nil, or_false]
  rintro w (hw | rfl | rfl | rfl)
  · exact h.writes w hw
  · exact hdata
  · exact hindex
  · exact within_statWrite hroomy.placed

/-- Without compaction there are less than five thousand unsorted records. -/
theorem Regular.prepareFlush (h : Regular file) (numRecord : Nat) :
    Regular (file.prepareFlush getHash numRecord) ∧
      HasRoom (file.prepareFlush getHash numRecord).trailer numRecord := by
  unfold ContainerFile.prepareFlush
  split
  · exact h.compaction numRecord
  · have hroom := h.roomy.room
    refine ⟨h, ?_⟩
    unfold HasRoom
    omega

theorem Regular.flushContainer (h : Regular file) (nodeId : Nat)
    (unknownStatus : Bool) (records : RecordList) :
    Regular
      (file.flushContainer getHash nodeId unknownStatus records) := by
  have hprepare : Regular (file.prepareFlush getHash records.length) ∧
      HasRoom (file.prepareFlush getHash records.length).trailer records.length :=
    h.prepareFlush records.length
  unfold ContainerFile.flushContainer
  generalize file.prepareFlush getHash records.length = prepared at hprepare
  obtain ⟨hprepared, hroom⟩ := hprepare
  have hlength : (prepared.flushRecords getHash nodeId unknownStatus records).length ≤
      records.length := length_flushRecords_le prepared nodeId unknownStatus records
  simp only
  generalize prepared.flushRecords getHash nodeId unknownStatus records = left at hlength
  have happend : Regular (prepared.append getHash left) :=
    hprepared.append ((Nat.add_le_add_left hlength _).trans hroom)
  split
  · split
    · exact (hprepared.compaction 0).1
    · exact hprepared
  · split
    · exact (happend.compaction 0).1
    · exact happend

theorem Regular.setContainerStat (h : Regular file) {new : Metadata}
    (hstep : file.setContainerStat new = some file') : Regular file' := by
  unfold ContainerFile.setContainerStat at hstep
  simp only at hstep
  split at hstep
  · obtain rfl := Option.some.inj hstep
    refine ⟨h.roomy.storeTrailer, fun w hw => ?_⟩
    rcases List.mem_append.mp hw with hw | hw
    · exact h.writes w hw
    · rw [List.mem_singleton.mp hw]
      exact within_statWrite h.roomy.placed
  · cases hstep

/-! ### Runs -/

theorem regular_addContainer (metadata : Metadata) (offset : JournalOffset) :
    Regular (addContainer metadata offset) := by
  have hnew := Trailer.placed_new 0 supportedVersion
  have hcapacity : 0 + 10000 ≤ (Trailer.new 0 supportedVersion).capacity := by
    rw [Trailer.capacity_new]
    exact Trailer.le_capacityFor 0
  have hplaced : Trailer.Placed { Trailer.new 0 supportedVersion with journalOffset := offset } :=
    ⟨hnew.index, hnew.dataIndex, hnew.data, hnew.stat⟩
  refine ⟨⟨⟨hnew.index, hnew.dataIndex, hnew.data, hnew.stat⟩, hcapacity, Nat.zero_le _⟩, ?_⟩
  intro w hw
  rw [List.mem_singleton.mp hw]
  exact within_statWrite hplaced

theorem Regular.step (h : Regular file) {operation : Operation}
    (hstep : file.step getHash operation = some file') : Regular file' := by
  cases operation with
  | flushContainer nodeId unknownStatus records =>
      obtain rfl := Option.some.inj hstep
      exact h.flushContainer nodeId unknownStatus records
  | compaction numRecord =>
      obtain rfl := Option.some.inj hstep
      exact (h.compaction numRecord).1
  | setContainerStat new => exact h.setContainerStat hstep

end ContainerFile

end ObjectStorage.InfoFile
