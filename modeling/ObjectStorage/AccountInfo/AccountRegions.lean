import Mathlib
import ObjectStorage.AccountInfo.AddedContainers
import ObjectStorage.Library.Transition

/-!
The regions of an account's info file. Compaction lays the file out for its own records and for ten
thousand more, whatever comes next, and an update appends all containers of its list that the file
does not have, after a compaction only if five thousand records are unsorted already.
-/

namespace ObjectStorage.AccountInfo

open Std Library InfoFile

/-! ### Extents -/

namespace TrailerBlock

variable (trailer : TrailerBlock)

/-- For how many records the file is laid out. -/
def capacity : Nat :=
  (trailer.nonStaticDataBlockOffset - trailer.staticDataBlockOffset) / sizeofStaticBlock

/-- The bytes of a region in a file with this trailer. -/
def bytes : Region → Set Nat
  | .staticData => Set.Ico trailer.staticDataBlockOffset
      (trailer.staticDataBlockOffset + sizeofStaticBlock * trailer.capacity)
  | .nonStaticData => Set.Ico trailer.nonStaticDataBlockOffset
      (trailer.nonStaticDataBlockOffset + sizeofNonStaticBlock * trailer.capacity)
  | .stat => Set.Ico trailer.statBlockOffset (trailer.statBlockOffset + sizeofStatBlock)
  | .trailer => Set.Ico (trailer.statBlockOffset + sizeofStatBlock)
      (trailer.statBlockOffset + sizeofStatBlock + sizeofTrailerBlock)

/-- The regions follow each other. -/
structure Placed : Prop where
  staticData : trailer.staticDataBlockOffset = 0
  nonStaticData : trailer.nonStaticDataBlockOffset = sizeofStaticBlock * trailer.capacity
  stat : trailer.statBlockOffset =
    trailer.nonStaticDataBlockOffset + sizeofNonStaticBlock * trailer.capacity

variable {trailer}

theorem capacity_new (numRecord : Nat) :
    (TrailerBlock.new numRecord).capacity = capacityFor numRecord := by
  unfold capacity TrailerBlock.new
  simp [sizeofStaticBlock]

theorem placed_new (numRecord : Nat) : (TrailerBlock.new numRecord).Placed where
  staticData := rfl
  nonStaticData := by
    rw [capacity_new]
    simp [TrailerBlock.new, Nat.mul_comm]
  stat := by
    rw [capacity_new]
    rfl

theorem le_capacityFor (numRecord : Nat) : numRecord + 10000 ≤ capacityFor numRecord := by
  unfold capacityFor
  omega

theorem Placed.disjoint (h : trailer.Placed) : Pairwise fun r r' =>
    Disjoint (trailer.bytes r) (trailer.bytes r') := by
  obtain ⟨hstatic, hnonStatic, hstat⟩ := h
  intro r r' hne
  rw [Set.disjoint_left]
  intro offset hr hr'
  cases r <;> cases r' <;> first | exact hne rfl | skip
  all_goals
    simp only [bytes, Set.mem_Ico] at hr hr'
    omega

end TrailerBlock

def FileWrite.bytes (write : FileWrite) : Set Nat :=
  Set.Ico write.offset (write.offset + write.length)

/-- A write that stays in its region. -/
structure FileWrite.Within (write : FileWrite) : Prop where
  placed : write.trailer.Placed
  region : write.bytes ⊆ write.trailer.bytes write.region

namespace AccountFile

variable {file file' : AccountFile}

/-- The records fit into the file, its regions are disjoint, and every write stayed in its region
and left the other regions alone. -/
structure RegionsKept (file : AccountFile) : Prop where
  capacity : file.trailer.sortedRecord + file.trailer.unsortedRecord ≤ file.trailer.capacity
  disjoint : Pairwise fun r r' => Disjoint (file.trailer.bytes r) (file.trailer.bytes r')
  within : ∀ w ∈ file.writes, w.bytes ⊆ w.trailer.bytes w.region
  apart : ∀ w ∈ file.writes, ∀ r ≠ w.region, Disjoint w.bytes (w.trailer.bytes r)

/-! ### The room that is left -/

/-- There is room for the records that come before the next compaction, if they come one by one. -/
structure Roomy (trailer : TrailerBlock) : Prop where
  placed : trailer.Placed
  room : trailer.sortedRecord + 10000 ≤ trailer.capacity
  capacity : trailer.sortedRecord + trailer.unsortedRecord ≤ trailer.capacity

/-- There is room for some more records. -/
def HasRoom (trailer : TrailerBlock) (numRecord : Nat) : Prop :=
  trailer.sortedRecord + trailer.unsortedRecord + numRecord ≤ trailer.capacity

instance (trailer : TrailerBlock) (numRecord : Nat) : Decidable (HasRoom trailer numRecord) :=
  inferInstanceAs (Decidable (_ ≤ _))

structure Regular (file : AccountFile) : Prop where
  roomy : Roomy file.trailer
  writes : ∀ w ∈ file.writes, w.Within

theorem Regular.regionsKept (h : Regular file) : RegionsKept file where
  capacity := h.roomy.capacity
  disjoint := h.roomy.placed.disjoint
  within := fun w hw => (h.writes w hw).region
  apart := fun w hw _ hne =>
    ((h.writes w hw).placed.disjoint hne.symm).mono_left (h.writes w hw).region

variable {trailer : TrailerBlock}

theorem within_statWrites (hplaced : trailer.Placed) : ∀ w ∈ statWrites trailer, w.Within := by
  simp only [statWrites, List.forall_mem_cons]
  exact ⟨⟨hplaced, le_rfl⟩, ⟨hplaced, le_rfl⟩, fun _ h => absurd h List.not_mem_nil⟩

theorem Ico_scale_subset {start size first count capacity : Nat}
    (hroom : first + count ≤ capacity) :
    Set.Ico (start + size * first) (start + size * first + size * count) ⊆
      Set.Ico start (start + size * capacity) := by
  refine Set.Ico_subset_Ico (Nat.le_add_right _ _) ?_
  rw [Nat.add_assoc, ← Nat.mul_add]
  exact Nat.add_le_add_left (Nat.mul_le_mul_left size hroom) start

theorem within_staticWrite (hplaced : trailer.Placed) {first count : Nat}
    (hroom : first + count ≤ trailer.capacity) : (staticWrite trailer first count).Within :=
  ⟨hplaced, Ico_scale_subset hroom⟩

theorem within_nonStaticWrite (hplaced : trailer.Placed) {first count : Nat}
    (hroom : first + count ≤ trailer.capacity) : (nonStaticWrite trailer first count).Within :=
  ⟨hplaced, Ico_scale_subset hroom⟩

/-! ### Compaction -/

theorem length_compacted_le (file : AccountFile) :
    file.compacted.length ≤ file.trailer.sortedRecord + file.trailer.unsortedRecord := by
  have hmap := length_sortedMap_le (fun record : ContainerRecord => record.name) file.unsorted
  have hsorted : file.sorted.length ≤ file.trailer.sortedRecord := List.length_take_le _ _
  have hunsorted : file.unsorted.length ≤ file.trailer.unsortedRecord := List.length_take_le _ _
  refine (List.length_filter_le _ _).trans ((InfoFileSorter.length_records_le _ _).trans ?_)
  simp only [InfoFileSorter.total, List.map_cons, List.map_nil, List.sum_cons, List.sum_nil]
  omega

theorem roomy_compactionTrailer {count : Nat}
    (hcount : count ≤ trailer.sortedRecord + trailer.unsortedRecord) :
    Roomy (compactionTrailer trailer count) := by
  have hroom := TrailerBlock.le_capacityFor (trailer.sortedRecord + trailer.unsortedRecord)
  have hnew := TrailerBlock.placed_new (trailer.sortedRecord + trailer.unsortedRecord)
  have hcapacity : (compactionTrailer trailer count).capacity =
      TrailerBlock.capacityFor (trailer.sortedRecord + trailer.unsortedRecord) :=
    TrailerBlock.capacity_new _
  refine ⟨⟨hnew.staticData, hnew.nonStaticData, hnew.stat⟩, ?_, ?_⟩
  · rw [compactionTrailer_sortedRecord]
    omega
  · rw [compactionTrailer_sortedRecord, compactionTrailer_unsortedRecord]
    omega

theorem Regular.compaction (h : Regular file) : Regular file.compaction := by
  have hlength := length_compacted_le file
  unfold AccountFile.compaction
  generalize file.compacted = entries at hlength
  have hroomy := roomy_compactionTrailer hlength
  have hcount : 0 + entries.length ≤ (compactionTrailer file.trailer entries.length).capacity := by
    have hcapacity := hroomy.capacity
    rw [compactionTrailer_sortedRecord] at hcapacity
    omega
  refine ⟨hroomy, ?_⟩
  simp only [List.mem_append, List.mem_cons, List.not_mem_nil, or_false]
  generalize compactionTrailer file.trailer entries.length = trailer at hroomy hcount
  rintro w ((hw | rfl | rfl) | hw)
  · exact h.writes w hw
  · exact within_staticWrite hroomy.placed hcount
  · exact within_nonStaticWrite hroomy.placed hcount
  · exact within_statWrites hroomy.placed w hw

theorem Regular.prepareAppend (h : Regular file) : Regular file.prepareAppend := by
  unfold AccountFile.prepareAppend
  split
  · exact h.compaction
  · exact h

/-- After the check there is room for at least five thousand records. -/
theorem Regular.hasRoom_prepareAppend (h : Regular file) {numRecord : Nat}
    (hle : numRecord ≤ 5000) :
    HasRoom file.prepareAppend.trailer numRecord := by
  have hroom := h.prepareAppend.roomy.room
  have hunsorted : file.prepareAppend.trailer.unsortedRecord < 5000 := by
    unfold AccountFile.prepareAppend maxUnsortedRecord
    split
    · exact Nat.succ_pos _
    · omega
  unfold HasRoom
  omega

/-! ### Appending and updating -/

theorem Regular.append_iff (h : Regular file) (records : List ContainerRecord) :
    Regular (file.append records) ↔ HasRoom file.trailer records.length := by
  have hplaced := h.roomy.placed
  constructor
  · intro hregular
    have hcapacity := hregular.roomy.capacity
    simp only [append, appendTrailer_sortedRecord, appendTrailer_unsortedRecord] at hcapacity
    unfold HasRoom
    rw [Nat.add_assoc]
    exact hcapacity
  · intro hroom
    have hroomy : Roomy (appendTrailer file.trailer records.length) := by
      refine ⟨⟨hplaced.staticData, hplaced.nonStaticData, hplaced.stat⟩, h.roomy.room, ?_⟩
      rw [appendTrailer_sortedRecord, appendTrailer_unsortedRecord, ← Nat.add_assoc]
      exact hroom
    have hfirst : (appendTrailer file.trailer records.length).sortedRecord +
        (appendTrailer file.trailer records.length).unsortedRecord - records.length =
          file.trailer.sortedRecord + file.trailer.unsortedRecord := by
      rw [appendTrailer_sortedRecord, appendTrailer_unsortedRecord]
      omega
    have hroom' : file.trailer.sortedRecord + file.trailer.unsortedRecord + records.length ≤
        (appendTrailer file.trailer records.length).capacity := hroom
    refine ⟨hroomy, ?_⟩
    simp only [append, hfirst]
    generalize appendTrailer file.trailer records.length = trailer at hroomy hroom'
    simp only [List.mem_append, List.mem_cons, List.not_mem_nil, or_false]
    rintro w ((hw | rfl | rfl) | hw)
    · exact h.writes w hw
    · exact within_staticWrite hroomy.placed hroom'
    · exact within_nonStaticWrite hroomy.placed hroom'
    · exact within_statWrites hroomy.placed w hw

theorem updateSorted_written (limit fuel start : Nat) (blocks records : List ContainerRecord) :
    ∀ piece ∈ (updateSorted limit fuel start blocks records).written,
      piece.1 + piece.2 ≤ start + blocks.length := by
  induction fuel generalizing start blocks records with
  | zero => exact fun _ h => absurd h List.not_mem_nil
  | succ fuel ih =>
      rw [updateSorted]
      split
      · exact fun _ h => absurd h List.not_mem_nil
      · have hlength : (blocks.take limit).length + (blocks.drop limit).length = blocks.length := by
          rw [← List.length_append, List.take_append_drop]
        intro piece hpiece
        simp only at hpiece
        have hrest : ∀ piece ∈ (updateSorted limit fuel (start + (blocks.take limit).length)
            (blocks.drop limit) (updateBlocks (blocks.take limit) records).2).written,
            piece.1 + piece.2 ≤ start + blocks.length := by
          intro piece hpiece
          have hle := ih _ _ _ piece hpiece
          omega
        split at hpiece
        · rcases List.mem_cons.mp hpiece with rfl | hpiece
          · simp only
            omega
          · exact hrest piece hpiece
        · exact hrest piece hpiece

theorem Regular.updateExisting (h : Regular file) (records : List ContainerRecord) :
    Regular (file.updateExisting records).1 := by
  refine ⟨h.roomy, ?_⟩
  have hplaced := h.roomy.placed
  have hcapacity := h.roomy.capacity
  simp only [AccountFile.updateExisting, List.mem_append, List.mem_map]
  rintro w (((hw | hw) | ⟨piece, hpiece, rfl⟩) | hw)
  · exact h.writes w hw
  · split at hw
    · obtain rfl := List.mem_singleton.mp hw
      exact within_nonStaticWrite hplaced hcapacity
    · exact absurd hw List.not_mem_nil
  · refine within_nonStaticWrite hplaced ?_
    have hle := updateSorted_written _ _ _ _ _ piece hpiece
    have hsorted : file.sorted.length ≤ file.trailer.sortedRecord := List.length_take_le _ _
    omega
  · exact within_statWrites hplaced w hw

/-- The containers of the list that the file does not have find room behind its records, of which
the ones that the list deletes go if the file is compacted. -/
def NewContainersFit (file : AccountFile) : Operation → Prop
  | .updateContainer records => HasRoom (file.deleting records).prepareAppend.trailer
      (file.addedContainers records).length
  | _ => True

theorem newContainersFit_iff (file : AccountFile) (records : List ContainerRecord) :
    NewContainersFit file (.updateContainer records) ↔
      HasRoom (file.updateExisting records).1.prepareAppend.trailer
        (file.updateExisting records).2.length := by
  rw [prepareAppend_trailer_updateExisting, updateExisting_added]
  rfl

theorem Regular.updateContainer_iff (h : Regular file) (records : List ContainerRecord) :
    Regular (file.updateContainer records) ↔ NewContainersFit file (.updateContainer records) := by
  have hupdated := h.updateExisting records
  rw [newContainersFit_iff]
  unfold updateContainer
  simp only
  split
  · rename_i hnil
    rw [hnil]
    exact iff_of_true hupdated hupdated.prepareAppend.roomy.capacity
  · exact hupdated.prepareAppend.append_iff _

theorem length_updateBlocks_le (blocks records : List ContainerRecord) :
    (updateBlocks blocks records).2.length ≤ records.length := by
  induction records generalizing blocks with
  | nil => exact le_rfl
  | cons source records ih =>
      rw [updateBlocks]
      split
      · exact (ih _).trans (Nat.le_succ _)
      · exact Nat.succ_le_succ (ih _)

theorem length_updateSorted_le (limit fuel start : Nat) (blocks records : List ContainerRecord) :
    (updateSorted limit fuel start blocks records).records.length ≤ records.length := by
  induction fuel generalizing start blocks records with
  | zero => exact le_rfl
  | succ fuel ih =>
      rw [updateSorted]
      split
      · exact le_rfl
      · exact (ih _ _ _).trans (length_updateBlocks_le _ _)

/-- Up to five thousand containers always fit. -/
theorem Regular.newContainersFit (h : Regular file) {records : List ContainerRecord}
    (hle : records.length ≤ 5000) : NewContainersFit file (.updateContainer records) := by
  rw [newContainersFit_iff]
  refine (h.updateExisting records).hasRoom_prepareAppend (Nat.le_trans ?_ hle)
  refine (List.length_filter_le _ _).trans ((length_updateSorted_le _ _ _ _ _).trans ?_)
  exact length_updateBlocks_le _ _

/-! ### Runs -/

theorem regular_createAccount (stat : AccountStat) : Regular (createAccount stat) := by
  have hplaced := TrailerBlock.placed_new 0
  have hcapacity : 0 + 10000 ≤ (TrailerBlock.new 0).capacity := by
    rw [TrailerBlock.capacity_new]
    exact TrailerBlock.le_capacityFor 0
  exact ⟨⟨hplaced, hcapacity, Nat.zero_le _⟩, within_statWrites hplaced⟩

theorem Regular.step_iff (h : Regular file) (operation : Operation) :
    NewContainersFit file operation ↔
      ∀ file', file.step operation = some file' → Regular file' := by
  cases operation with
  | addContainer record =>
      refine ⟨fun _ file' hstep => ?_, fun _ => trivial⟩
      obtain rfl := Option.some.inj hstep
      exact (h.prepareAppend.append_iff _).mpr (h.hasRoom_prepareAppend (by simp))
  | deleteContainer record =>
      refine ⟨fun _ file' hstep => ?_, fun _ => trivial⟩
      obtain rfl := Option.some.inj hstep
      exact (h.updateContainer_iff _).mpr (h.newContainersFit (by simp))
  | updateContainer records =>
      rw [← h.updateContainer_iff]
      refine ⟨fun hregular file' hstep => ?_, fun hall => hall _ rfl⟩
      obtain rfl := Option.some.inj hstep
      exact hregular
  | compaction =>
      refine ⟨fun _ file' hstep => ?_, fun _ => trivial⟩
      obtain rfl := Option.some.inj hstep
      exact h.compaction

theorem Regular.of_regionsKept (h : Regular file) {operation : Operation}
    (hstep : file.step operation = some file') (hkept : RegionsKept file') : Regular file' := by
  refine (h.step_iff operation).mp ?_ file' hstep
  cases operation with
  | addContainer | deleteContainer | compaction => trivial
  | updateContainer records =>
      obtain rfl := Option.some.inj hstep
      have hupdated := h.updateExisting records
      have hcapacity := hkept.capacity
      rw [newContainersFit_iff]
      unfold updateContainer at hcapacity
      simp only at hcapacity
      split at hcapacity
      · rename_i hnil
        rw [hnil]
        exact hupdated.prepareAppend.roomy.capacity
      · simp only [addContainerInternal, append, appendTrailer_sortedRecord,
          appendTrailer_unsortedRecord, ← Nat.add_assoc] at hcapacity
        exact hcapacity

/-- From a new account on, the regions are kept in every state if and only if the new containers of
every list that is passed find room. -/
theorem run_accountRegions_iff (stat : AccountStat) (operations : List Operation) :
    (∀ n t, run AccountFile.step (createAccount stat) (operations.take n) = some t →
      RegionsKept t) ↔
      Along AccountFile.step NewContainersFit (createAccount stat) operations :=
  (prefixes_strengthen AccountFile.step (fun _ hs => Regular.regionsKept hs)
    (fun _ _ _ hs hstep hkept => Regular.of_regionsKept hs hstep hkept)
    (regular_createAccount stat) operations).trans
  (prefixes_iff_along AccountFile.step (fun _ operation hs => Regular.step_iff hs operation)
    (regular_createAccount stat) operations)

theorem updateBlocks_nil (records : List ContainerRecord) :
    updateBlocks [] records = ([], records) := by
  induction records with
  | nil => rfl
  | cons source records ih => simp [updateBlocks, updateFirst, ih]

theorem updateContainer_createAccount (stat : AccountStat) {records : List ContainerRecord}
    (hlive : records.filter (! ·.deleted) = records) (hne : records ≠ []) :
    ((createAccount stat).updateContainer records).trailer =
      appendTrailer (TrailerBlock.new 0) records.length := by
  have hleft : ((createAccount stat).updateExisting records).2 = records := by
    have hunsorted : (createAccount stat).unsorted = [] := rfl
    have hsorted : (createAccount stat).sorted = [] := rfl
    simp only [updateExisting, updateUnsorted, hunsorted, hsorted, List.reverse_nil,
      updateBlocks_nil]
    exact hlive
  unfold updateContainer
  simp only [hleft, if_neg hne]
  rfl

def newContainers (count : Nat) : List ContainerRecord :=
  (List.range count).map fun i => ⟨toString i, toString i, 0, 0, false⟩

/-- A new account has room for ten thousand containers, and a list with one more is appended to
it. -/
theorem newContainers_overflow :
    ∃ t, run AccountFile.step (createAccount AccountStat.zero)
        [.updateContainer (newContainers 10001)] = some t ∧
      t.trailer.capacity = 10000 ∧ t.trailer.unsortedRecord = 10001 ∧ ¬ RegionsKept t := by
  have hlength : (newContainers 10001).length = 10001 := by
    rw [newContainers, List.length_map, List.length_range]
  have hlive : (newContainers 10001).filter (! ·.deleted) = newContainers 10001 := by
    refine List.filter_eq_self.mpr fun record hrecord => ?_
    obtain ⟨i, -, rfl⟩ := List.mem_map.mp hrecord
    rfl
  have hne : newContainers 10001 ≠ [] := List.ne_nil_of_length_pos (by rw [hlength]; decide)
  have htrailer := updateContainer_createAccount AccountStat.zero hlive hne
  rw [hlength] at htrailer
  refine ⟨_, rfl, ?_, ?_, fun hkept => ?_⟩
  · rw [htrailer]
    rfl
  · rw [htrailer]
    rfl
  · have hcapacity := hkept.capacity
    rw [htrailer] at hcapacity
    exact absurd hcapacity (by decide)

end AccountFile

end ObjectStorage.AccountInfo
