import ObjectStorage.Library.Transition
import ObjectStorage.InfoFile.ContainerFile

/-!
The version in the trailer and the layout of the index block. Compaction writes the block anew in
the supported layout and a flush of an old file compacts it first, but an update of the statistics
stores the supported version and leaves the block as it is.
-/

namespace ObjectStorage.InfoFile

open Std Library ObjectStorage.Journal Container.Statistics

/-! ### Reading what was written -/

variable {version : Nat}

theorem IndexSlot.length_encode (version : Nat) (slot : IndexSlot) :
    (slot.encode version).length = sizeofIndex version := by
  have hhash : slot.hash.1.length = 33 := slot.hash.2
  unfold IndexSlot.encode sizeofIndex sizeofIndexRecordV0 sizeofIndexRecord
  split <;> simp [hhash]

theorem hashField_append (field : HashField) (bytes : Bytes) :
    hashField (field.1 ++ bytes) = field := by
  apply Subtype.ext
  have hlength : field.1.length = 33 := field.2
  show ((field.1 ++ bytes) ++ List.replicate 33 0).take 33 = field.1
  rw [List.append_assoc, List.take_left' hlength]

/-- A file of version 0 does not keep the sizes. -/
def IndexSlot.asRead (version : Nat) (slot : IndexSlot) : IndexSlot :=
  if version = 0 then { slot with size := 0 } else slot

theorem ofNat_leValue (n : BitVec 64) (rest : Bytes) :
    BitVec.ofNat 64 (leValue ((leBytes 8 n.toNat ++ rest).take 8)) = n := by
  have hlength : (leBytes 8 n.toNat).length = 8 := length_leBytes 8 _
  have htake : (leBytes 8 n.toNat ++ rest).take 8 = leBytes 8 n.toNat := by
    rw [List.take_append_of_le_length hlength.ge, List.take_of_length_le hlength.le]
  have hlt : n.toNat < 256 ^ 8 := n.isLt
  rw [htake, leValue_leBytes, Nat.mod_eq_of_lt hlt, BitVec.ofNat_toNat, BitVec.setWidth_eq]

theorem IndexSlot.decode_encode (version : Nat) (slot : IndexSlot) (rest : Bytes) :
    IndexSlot.decode version (slot.encode version ++ rest) = slot.asRead version := by
  have hhash : slot.hash.1.length = 33 := slot.hash.2
  have hforty : (slot.hash.1 ++ List.replicate 7 0).length = 40 := by simp [hhash]
  have hsplit : slot.encode version ++ rest = slot.hash.1 ++ (List.replicate 7 0 ++
      (leBytes 8 slot.fileState.toNat ++
        ((if version = 0 then [] else leBytes 8 slot.size.toNat) ++ rest))) := by
    simp only [IndexSlot.encode, List.append_assoc]
  have hdrop : (slot.encode version ++ rest).drop 40 = leBytes 8 slot.fileState.toNat ++
      ((if version = 0 then [] else leBytes 8 slot.size.toNat) ++ rest) := by
    rw [hsplit, ← List.append_assoc, List.drop_left' hforty]
  have hdrop' : (slot.encode version ++ rest).drop 48 =
      (if version = 0 then [] else leBytes 8 slot.size.toNat) ++ rest := by
    have height : (leBytes 8 slot.fileState.toNat).length = 8 := length_leBytes 8 _
    rw [show 48 = 40 + 8 from rfl, ← List.drop_drop, hdrop, List.drop_left' height]
  unfold IndexSlot.decode IndexSlot.asRead
  rw [hdrop, hdrop', ofNat_leValue]
  have hfield : hashField (slot.encode version ++ rest) = slot.hash := by
    rw [hsplit, hashField_append]
  rw [hfield]
  split
  · rfl
  · rw [ofNat_leValue]

theorem drop_flatMap_encode (version : Nat) (slots : List IndexSlot) (i : Nat) :
    (slots.flatMap (·.encode version)).drop (i * sizeofIndex version) =
      (slots.drop i).flatMap (·.encode version) := by
  induction slots generalizing i with
  | nil => simp
  | cons slot slots ih =>
      cases i with
      | zero => simp
      | succ i =>
          have hlength := slot.length_encode version
          rw [List.flatMap_cons, List.drop_succ_cons, ← ih, Nat.succ_mul, Nat.add_comm,
            ← List.drop_drop, ← hlength, List.drop_left]

/-- The reader finds the index records in the layout of the version it is told. -/
theorem readIndexBlock_encode (version : Nat) (slots : List IndexSlot) :
    readIndexBlock version (slots.flatMap (·.encode version)) 0 slots.length =
      slots.map (IndexSlot.asRead version) := by
  apply List.ext_getElem
  · simp [readIndexBlock]
  · intro i hi hi'
    have hlt : i < slots.length := by simpa using hi'
    have hdrop : (slots.drop i).flatMap (·.encode version) =
        slots[i].encode version ++ (slots.drop (i + 1)).flatMap (·.encode version) := by
      rw [List.drop_eq_getElem_cons hlt, List.flatMap_cons]
    simp only [readIndexBlock, List.getElem_map, List.getElem_range, Nat.zero_add,
      drop_flatMap_encode, hdrop, IndexSlot.decode_encode]

theorem length_flatMap_encode (version : Nat) (slots : List IndexSlot) :
    (slots.flatMap (·.encode version)).length = slots.length * sizeofIndex version := by
  induction slots with
  | nil => simp
  | cons slot slots ih =>
      rw [List.flatMap_cons, List.length_append, slot.length_encode, ih, List.length_cons,
        Nat.succ_mul, Nat.add_comm]

namespace ContainerFile

/-! ### The layout of a file -/

/-- The index block has the layout of the version in the trailer, and so the reader finds the index
records that were written. -/
structure LaidOut (file : ContainerFile) : Prop where
  version : file.trailer.version ≤ supportedVersion
  block : file.indexBlock = file.written.flatMap (·.encode file.trailer.version)
  read : file.readIndex = file.written

variable {getHash : String → String} {file file' : ContainerFile}

theorem LaidOut.length_written (h : LaidOut file) :
    file.written.length = file.trailer.sortedRecord + file.trailer.unsortedRecord := by
  rw [← h.read, length_readIndex]

theorem laidOut_supported (hversion : file.trailer.version = supportedVersion)
    (hblock : file.indexBlock = file.written.flatMap (·.encode supportedVersion))
    (hcount : file.written.length = file.trailer.sortedRecord + file.trailer.unsortedRecord) :
    LaidOut file where
  version := hversion.le
  block := by rw [hversion, hblock]
  read := by
    rw [readIndex, hversion, hblock, ← hcount, readIndexBlock_encode]
    have hsame : IndexSlot.asRead supportedVersion = id := by
      funext slot
      exact if_neg (by decide)
    rw [hsame, List.map_id]

theorem laidOut_compaction (file : ContainerFile) (numRecord : Nat) :
    LaidOut (file.compaction getHash numRecord) := by
  refine laidOut_supported rfl ?_ ?_
  · simp [compaction, List.flatMap_map]
  · simp [compaction, storeTrailer]

theorem LaidOut.append (h : LaidOut file) (hversion : file.trailer.version = supportedVersion)
    (records : RecordList) : LaidOut (file.append getHash records) := by
  have hlength : file.indexBlock.length =
      sizeofIndexRecord * (file.trailer.sortedRecord + file.trailer.unsortedRecord) := by
    rw [h.block, hversion, length_flatMap_encode, h.length_written, Nat.mul_comm]
    rfl
  refine laidOut_supported rfl ?_ ?_
  · simp only [ContainerFile.append, appendTrailer_sortedRecord, appendTrailer_unsortedRecord]
    rw [← Nat.add_assoc, Nat.add_sub_cancel, ← hlength, writeBlock, Nat.sub_self,
      List.replicate_zero,
      List.append_nil, List.take_length, List.drop_of_length_le (Nat.le_add_right _ _),
      List.append_nil, h.block, hversion, List.flatMap_append]
  · simp [ContainerFile.append, storeTrailer, h.length_written]
    omega

theorem LaidOut.prepareFlush (h : LaidOut file) (numRecord : Nat) :
    LaidOut (file.prepareFlush getHash numRecord) ∧
      (file.prepareFlush getHash numRecord).trailer.version = supportedVersion := by
  unfold ContainerFile.prepareFlush
  split
  · exact ⟨laidOut_compaction file numRecord, rfl⟩
  · rename_i hnot
    have hle := h.version
    exact ⟨h, by omega⟩

theorem LaidOut.flushContainer (h : LaidOut file) (nodeId : Nat) (unknownStatus : Bool)
    (records : RecordList) :
    LaidOut (file.flushContainer getHash nodeId unknownStatus records) := by
  have hprepare : LaidOut (file.prepareFlush getHash records.length) ∧
      (file.prepareFlush getHash records.length).trailer.version =
        supportedVersion := h.prepareFlush records.length
  obtain ⟨hprepared, hversion⟩ := hprepare
  unfold ContainerFile.flushContainer
  simp only
  split
  · split
    · exact laidOut_compaction _ _
    · exact hprepared
  · split
    · exact laidOut_compaction _ _
    · exact hprepared.append hversion _

/-- The update leaves the index block as it is. -/
theorem LaidOut.setContainerStat (h : LaidOut file) {new : Metadata}
    (hstep : file.setContainerStat new = some file') :
    LaidOut file' ↔ file.trailer.version = supportedVersion ∨
      file.trailer.sortedRecord + file.trailer.unsortedRecord = 0 := by
  unfold ContainerFile.setContainerStat at hstep
  simp only at hstep
  split at hstep
  · obtain rfl := Option.some.inj hstep
    have hcount := h.length_written
    constructor
    · intro hlaid
      have hlength := congrArg List.length (h.block.symm.trans hlaid.block)
      rw [length_flatMap_encode, length_flatMap_encode, hcount] at hlength
      by_cases hversion : file.trailer.version = supportedVersion
      · exact .inl hversion
      · have hzero : file.trailer.version = 0 := by
          have hle := h.version
          unfold supportedVersion at hle hversion
          omega
        have hold : sizeofIndex file.trailer.version = 48 := by rw [hzero]; rfl
        have hnew : sizeofIndex (storeTrailer file.trailer).version = 56 := rfl
        simp only [hold, hnew] at hlength
        exact .inr (by omega)
    · rintro (hversion | hempty)
      · refine laidOut_supported rfl ?_ hcount
        rw [← hversion]
        exact h.block
      · have hnil : file.written = [] := List.eq_nil_of_length_eq_zero (hcount.trans hempty)
        have hblock := h.block
        rw [hnil] at hblock
        exact laidOut_supported rfl (by simp [hblock, hnil]) hcount
  · cases hstep

/-! ### Runs -/

/-- The statistics are updated only in files of the supported version or without index records. -/
def KeepsLayout (file : ContainerFile) : Operation → Prop
  | .setContainerStat new => metadataAllowed (updateMetadata file.metadata new) →
      file.trailer.version = supportedVersion ∨
        file.trailer.sortedRecord + file.trailer.unsortedRecord = 0
  | _ => True

theorem LaidOut.step_iff (h : LaidOut file) (operation : Operation) :
    file.KeepsLayout operation ↔
      ∀ file', file.step getHash operation = some file' → LaidOut file' := by
  cases operation with
  | flushContainer nodeId unknownStatus records =>
      refine ⟨fun _ file' hstep => ?_, fun _ => trivial⟩
      obtain rfl := Option.some.inj hstep
      exact h.flushContainer nodeId unknownStatus records
  | compaction numRecord =>
      refine ⟨fun _ file' hstep => ?_, fun _ => trivial⟩
      obtain rfl := Option.some.inj hstep
      exact laidOut_compaction file numRecord
  | setContainerStat new =>
      constructor
      · intro hkeeps file' hstep
        refine (h.setContainerStat hstep).mpr (hkeeps ?_)
        by_contra hnot
        simp [ContainerFile.step, ContainerFile.setContainerStat, hnot] at hstep
      · intro hall hallowed
        have hstep : file.setContainerStat new = some _ := if_pos hallowed
        exact (h.setContainerStat hstep).mp (hall _ hstep)

/-- In a run from any file in which version and layout agree they agree in every state if and only
if the statistics are never updated in a file of version 0 that has index records. -/
theorem run_laidOut_iff (h : LaidOut file) (operations : List Operation) :
    (∀ n t, run (ContainerFile.step getHash) file (operations.take n) = some t →
      LaidOut t) ↔ Along (ContainerFile.step getHash) KeepsLayout file operations :=
  prefixes_iff_along (ContainerFile.step getHash)
    (fun _ operation hs => LaidOut.step_iff hs operation) h operations

/-- A file of version 0 with two objects. -/
def oldFile : ContainerFile :=
  let slots : List IndexSlot := [⟨hashField [97], 1, 0⟩, ⟨hashField [98], 1, 0⟩]
  { trailer := { Trailer.new 0 0 with unsortedRecord := 2 }
    metadata := ∅
    indexBlock := slots.flatMap (·.encode 0)
    data := [⟨"a", 5, objectAdd⟩, ⟨"b", 6, objectAdd⟩]
    written := slots
    writes := [] }

theorem laidOut_oldFile : LaidOut oldFile where
  version := by decide
  block := by decide +kernel
  read := by decide +kernel

/-- Once the old file is compacted the statistics can be updated. -/
theorem run_laidOut_compacted :
    let step := ContainerFile.step id
    let operations := [Operation.compaction 0, .setContainerStat ∅,
      .flushContainer 1 false [(toLex (2, 0), ⟨"b", 7, 0, objectAdd⟩)]]
    (run step oldFile operations).isSome ∧
      ∀ n t, run step oldFile (operations.take n) = some t → LaidOut t := by
  refine ⟨by decide +kernel, (run_laidOut_iff laidOut_oldFile _).mpr ⟨trivial, ?_⟩⟩
  rintro s hs
  obtain rfl := Option.some.inj hs
  refine ⟨fun _ => .inl rfl, fun s hs => ⟨trivial, fun s hs => trivial⟩⟩

/-- Before that the update makes the reader look for the second index record eight bytes behind the
place where it stands. -/
theorem setContainerStat_oldFile :
    ∃ t, run (ContainerFile.step id) oldFile [.setContainerStat ∅] = some t ∧
      t.trailer.version = 1 ∧ t.indexBlock = t.written.flatMap (·.encode 0) ∧
      t.readIndex ≠ t.written ∧ ¬ LaidOut t := by
  have hread : ∃ t,
    run (ContainerFile.step id) oldFile [.setContainerStat ∅] = some t ∧
      t.trailer.version = 1 ∧ t.indexBlock = t.written.flatMap (·.encode 0) ∧
      t.readIndex ≠ t.written := ⟨_, rfl, rfl, rfl, by decide +kernel⟩
  obtain ⟨t, hrun, hversion, hblock, hne⟩ := hread
  exact ⟨t, hrun, hversion, hblock, hne, fun h => hne h.read⟩

end ContainerFile

end ObjectStorage.InfoFile
