import ObjectStorage.InfoFile.CountedFile
import ObjectStorage.InfoFile.Takeover

/-!
The records of a container in memory together with its info file, and the statistics that are
reported of both. While a flush holds the lock of the path nobody reads them.
-/

namespace ObjectStorage.InfoFile

open Std ObjectStorage.Journal Container.Statistics
open Library (takeLeading dropLeading takeLeading_append_dropLeading_perm run Along along_append
  run_along_preserves prefixes_iff_along)

/-! ### The records that a file has -/

section

variable (getHash : String → String)

namespace ContainerFile

/-- The records of a list that the file has. They are told by their offset if this node was the last
to flush the file, and else by the latest state of their objects. -/
def filed (file : ContainerFile) (nodeId : Nat) (unknownStatus : Bool) (records : RecordList) :
    RecordList :=
  if (ofLex file.trailer.journalOffset).1 >>> 56 = nodeId then
    records.takeWhile fun e => e.1 ≤ file.trailer.journalOffset
  else if unknownStatus then []
  else takeLeading (hashOf getHash) (inState getHash file.indexState) [] records

/-- The other records of the list. -/
def unfiled (file : ContainerFile) (nodeId : Nat) (unknownStatus : Bool) (records : RecordList) :
    RecordList :=
  if (ofLex file.trailer.journalOffset).1 >>> 56 = nodeId then
    records.dropWhile fun e => e.1 ≤ file.trailer.journalOffset
  else if unknownStatus then records
  else dropLeading (hashOf getHash) (inState getHash file.indexState) [] records

theorem flushRecords_eq_unfiled (file : ContainerFile) (nodeId : Nat) (unknownStatus : Bool)
    (records : RecordList) : file.flushRecords getHash nodeId unknownStatus records =
      file.unfiled getHash nodeId unknownStatus records := by
  unfold unfiled
  split
  · next hnode => rw [flushRecords, Container.Statistics.flushContainer, if_pos hnode]
  · next hnode =>
      cases unknownStatus with
      | true => rw [flushRecords, Container.Statistics.flushContainer, if_neg hnode]; rfl
      | false => exact flushRecords_eq hnode records

theorem total_filed (file : ContainerFile) (nodeId : Nat) (unknownStatus : Bool)
    (records : RecordList) : total (file.filed getHash nodeId unknownStatus records) +
      total (file.unfiled getHash nodeId unknownStatus records) = total records := by
  unfold filed unfiled
  split
  · exact total_takeWhile_dropWhile _ records
  · cases unknownStatus with
    | true => exact zero_add _
    | false =>
        rw [← total_append]
        exact total_perm (takeLeading_append_dropLeading_perm [] records)

end ContainerFile

/-! ### Statistics of the file -/

/-- The statistics as the 64-bit numbers that are stored. -/
def FileStat.toStat (stat : FileStat) : ContainerStat :=
  (BitVec.ofInt 64 stat.1, BitVec.ofInt 64 stat.2)

/-- The statistics do not fall below zero with a record. -/
def FileStat.Fits (stat : FileStat) (record : ObjectRecord) : Prop :=
  (record.deleted = objectDelete → 0 < stat.1 ∧ record.size.toNat ≤ stat.2) ∧
    (record.deleted = objectModify → (record.oldSize.toNat : Int) ≤ stat.2 + record.size.toNat)

instance (stat : FileStat) (record : ObjectRecord) : Decidable (stat.Fits record) :=
  inferInstanceAs (Decidable (_ ∧ _))

/-- The statistics do not fall below zero with any record of a list. -/
abbrev FileStat.FitsAll (stat : FileStat) (records : RecordList) : Prop :=
  Along (fun stat e => some (FileStat.count stat e.2)) (fun stat e => FileStat.Fits stat e.2) stat
    records

/-! ### Records with their info file -/

/-- A container in memory with its info file; `locked` from the flush of its records until they are
released. For the statements it also tells which records the container has got, each of them once,
and which of them were handed over. -/
structure CountedRecords where
  memory : SecureObjectRecord
  info : CountedFile
  locked : Bool
  records : RecordList
  handedOver : RecordList

/-- The info file may have a record that is added already, if it is read from the journal again. -/
inductive RecordOp where
  | addRecord (record : ObjectRecord) (syncOff : JournalOffset) (inFile : Bool)
  | getFlushRecords
  | flushContainer (nodeId : Nat) (unknownStatus : Bool)
  | releaseFlushRecords (garbage : JournalOffset)
  | removeRecord (offset : JournalOffset)
  | getUnscheduledRecords
  | revertRecord (record : ObjectRecord) (offset : JournalOffset)

namespace CountedRecords

def start (info : CountedFile) (prevOff : JournalOffset) : CountedRecords :=
  ⟨⟨[], [], prevOff, 0⟩, info, false, [], []⟩

/-- `get_container_stat`, which waits for the lock. -/
def getContainerStat (s : CountedRecords) : Option ContainerStat :=
  let file := s.info.stat.toStat
  if s.locked then none
  else some (ContainerStat.nonNegative (file.1 + s.memory.stat.1, file.2 + s.memory.stat.2))

/-- The file as the flush of a list finds it. -/
def flushed (s : CountedRecords) : ContainerFile :=
  (s.info.prepareFlush getHash s.memory.tmpRecordList.length).file

def step (s : CountedRecords) : RecordOp → Option CountedRecords
  | .addRecord record syncOff inFile =>
      some { s with
        memory := s.memory.addRecord record syncOff
        records := if inFile then s.records else s.records ++ [(syncOff, record)] }
  | .getFlushRecords => some { s with memory := s.memory.getFlushRecords }
  -- the list that is being flushed is shared with the memory
  | .flushContainer nodeId unknownStatus =>
      if s.locked then none
      else
        let records := s.memory.tmpRecordList
        some { s with
          memory := { s.memory with tmpRecordList :=
            (s.flushed getHash).flushRecords getHash nodeId unknownStatus records }
          info := s.info.flushContainer getHash nodeId unknownStatus records
          locked := true }
  | .releaseFlushRecords garbage =>
      some { s with memory := s.memory.releaseFlushRecords garbage, locked := false }
  | .removeRecord offset => some { s with memory := s.memory.removeRecord offset }
  | .getUnscheduledRecords =>
      some { s with
        memory := s.memory.getUnscheduledRecords
        handedOver := s.handedOver ++ s.memory.recordList }
  | .revertRecord record offset =>
      some { s with
        memory := s.memory.revertRecord record offset
        records := s.records ++ [(offset, record)] }

/-- The statistics in memory are those of the records in memory. -/
def StatAgrees (s : CountedRecords) : Prop :=
  s.memory.stat = total (s.memory.recordList ++ s.memory.tmpRecordList)

/-- What is reported counts each record once besides what the file had. -/
def CountsOnce (base : FileStat) (s : CountedRecords) : Prop :=
  ∀ stat ∈ s.getContainerStat,
    stat = ContainerStat.nonNegative (base.toStat + total s.records - total s.handedOver)

/-- When the statistics in memory stay right: the records that leave memory or come into it without
touching them add up to nothing. -/
def Safe (s : CountedRecords) : RecordOp → Prop
  | .flushContainer nodeId unknownStatus => s.locked = false →
      total ((s.flushed getHash).filed getHash nodeId unknownStatus s.memory.tmpRecordList) = 0
  | .getUnscheduledRecords => total s.memory.recordList = 0
  | .revertRecord record _ => effect record = 0
  | _ => True

/-- When the file takes up what memory gives up: a record that the file has or that is removed
because of a marker has no effect; no list is taken while another one waits for its release, and
none is released that was not flushed; and a flush has no records of unknown status, does not bring
the statistics of the file below zero, and compacts it first only if they are those of its
objects. -/
def FileSafe (s : CountedRecords) : RecordOp → Prop
  | .addRecord record _ inFile => inFile = true → effect record = 0
  | .getFlushRecords =>
      s.locked = true → s.memory.tmpRecordList = [] → total s.memory.recordList = 0
  | .flushContainer nodeId unknownStatus =>
      let records := s.memory.tmpRecordList
      let unfiled := (s.flushed getHash).unfiled getHash nodeId unknownStatus records
      unknownStatus = false ∧ ContainerFile.hasUnknown unfiled = false ∧
        (s.info.file.trailer.version < supportedVersion ∨
          5000 ≤ s.info.file.trailer.unsortedRecord + records.length →
            CountedFile.compactionStat getHash s.info.file = s.info.stat) ∧
        FileStat.FitsAll s.info.stat unfiled
  | .releaseFlushRecords _ => s.locked = true ∨ total s.memory.tmpRecordList = 0
  | .removeRecord offset => total (s.memory.recordList.takeWhile fun e => e.1 < offset) = 0
  | _ => True

instance (s : CountedRecords) : DecidablePred (s.Safe getHash)
  | .flushContainer _ _ => inferInstanceAs (Decidable (_ → total _ = 0))
  | .getUnscheduledRecords => inferInstanceAs (Decidable (total _ = 0))
  | .revertRecord _ _ => inferInstanceAs (Decidable (effect _ = 0))
  | .addRecord _ _ _ => isTrue trivial
  | .getFlushRecords => isTrue trivial
  | .releaseFlushRecords _ => isTrue trivial
  | .removeRecord _ => isTrue trivial

instance (s : CountedRecords) : DecidablePred (s.FileSafe getHash)
  | .addRecord record _ inFile =>
      inferInstanceAs (Decidable (inFile = true → effect record = 0))
  | .getFlushRecords => inferInstanceAs (Decidable (_ → _ → _))
  | .flushContainer _ _ => inferInstanceAs (Decidable (_ ∧ _ ∧ (_ → _) ∧ Along _ _ _ _))
  | .releaseFlushRecords _ => inferInstanceAs (Decidable (_ ∨ _))
  | .removeRecord _ => inferInstanceAs (Decidable (total _ = 0))
  | .getUnscheduledRecords => isTrue trivial
  | .revertRecord _ _ => isTrue trivial

end CountedRecords

end

/-! ### The statistics of the file follow the records -/

section

variable {getHash : String → String} {stat : FileStat}

theorem FileStat.toStat_count {record : ObjectRecord} (h : stat.Fits record) :
    (stat.count record).toStat = stat.toStat + effect record := by
  unfold FileStat.count effect
  by_cases hadd : record.deleted = objectAdd
  · simp [hadd, toStat, BitVec.ofInt_add]
  by_cases hdelete : record.deleted = objectDelete
  · obtain ⟨hcount, hbytes⟩ := h.1 hdelete
    rw [if_neg hadd, if_pos hdelete, if_pos hcount, if_pos hbytes, if_neg hadd, if_pos hdelete]
    simp [toStat, Int.sub_eq_add_neg, BitVec.ofInt_add, BitVec.ofInt_neg]
  by_cases hmodify : record.deleted = objectModify
  · have hbytes := h.2 hmodify
    have hnonneg : 0 ≤ stat.2 + ((record.size.toNat : Int) - record.oldSize.toNat) := by omega
    rw [if_neg hadd, if_neg hdelete, if_pos hmodify, if_neg hadd, if_neg hdelete, if_pos hmodify,
      max_eq_right hnonneg]
    simp [toStat, BitVec.ofInt_add, BitVec.ofInt_neg, sub_eq_add_neg]
  · simp [hadd, hdelete, hmodify]

theorem FileStat.toStat_foldl {records : RecordList} (h : stat.FitsAll records) :
    (records.foldl (fun stat e => FileStat.count stat e.2) stat).toStat =
      stat.toStat + total records := by
  induction records generalizing stat with
  | nil => simp
  | cons e records ih =>
      rw [List.foldl_cons, ih (h.2 _ rfl), toStat_count h.1, total_cons, add_assoc]

/-- A flush adds the records to the file that it does not have. -/
theorem CountedFile.toStat_flushContainer {c : CountedFile} {nodeId : Nat} {records unfiled :
      RecordList}
    (hunfiled : (c.prepareFlush getHash records.length).file.flushRecords getHash nodeId false
      records = unfiled)
    (hknown : ContainerFile.hasUnknown unfiled = false)
    (hcompaction : c.file.trailer.version < supportedVersion ∨
      5000 ≤ c.file.trailer.unsortedRecord + records.length →
        compactionStat getHash c.file = c.stat)
    (hfits : c.stat.FitsAll unfiled) :
    (c.flushContainer getHash nodeId false records).stat.toStat =
      c.stat.toStat + total unfiled := by
  have hprepared : (c.prepareFlush getHash records.length).stat = c.stat := by
    unfold prepareFlush
    split
    · next hold => exact hcompaction hold
    · rfl
  unfold flushContainer
  simp only [hunfiled, Bool.false_eq_true, false_and, if_false, false_or, hknown]
  split
  · next hempty => rw [hempty, total_nil, add_zero, hprepared]
  · rw [← FileStat.toStat_foldl hfits, ← hprepared]
    rfl

end

/-! ### Steps -/

namespace CountedRecords

variable {getHash : String → String} {base : FileStat} {s s' : CountedRecords} {op : RecordOp}

/-- Each step keeps the statistics in memory right exactly if it meets the condition. -/
theorem safe_iff_statAgrees (h : s.StatAgrees) (op : RecordOp) :
    s.Safe getHash op ↔ ∀ s', s.step getHash op = some s' → s'.StatAgrees := by
  unfold StatAgrees at h
  rw [total_append] at h
  have hsome : ∀ t : CountedRecords, (∀ s', some t = some s' → s'.StatAgrees) ↔
      t.memory.stat = total t.memory.recordList + total t.memory.tmpRecordList := by
    intro t
    rw [← total_append]
    exact ⟨fun hall => hall t rfl, fun ht s' hs' => Option.some.inj hs' ▸ ht⟩
  cases op with
  | addRecord record syncOff inFile =>
      refine iff_of_true trivial ((hsome _).mpr ?_)
      simp only [SecureObjectRecord.addRecord, add_eq, h, total_append, total_singleton]
      abel
  | getFlushRecords =>
      refine iff_of_true trivial ((hsome _).mpr ?_)
      unfold SecureObjectRecord.getFlushRecords
      split
      · rw [h, add_comm]
      · exact h
  | flushContainer nodeId unknownStatus =>
      cases hlocked : s.locked with
      | true => simp [Safe, step, hlocked]
      | false =>
          rw [step, hlocked, if_neg Bool.false_ne_true, hsome]
          simp only [Safe, hlocked, forall_const, ContainerFile.flushRecords_eq_unfiled, h]
          rw [← ContainerFile.total_filed getHash (s.flushed getHash) nodeId
            unknownStatus s.memory.tmpRecordList, add_right_inj, add_eq_right]
  | releaseFlushRecords garbage =>
      refine iff_of_true trivial ((hsome _).mpr ?_)
      simp only [SecureObjectRecord.releaseFlushRecords, releaseAll_eq, h, total_nil]
      abel
  | removeRecord offset =>
      refine iff_of_true trivial ((hsome _).mpr ?_)
      simp only [SecureObjectRecord.removeRecord, releaseAll_eq, h]
      rw [← total_takeWhile_dropWhile (fun e => e.1 < offset) s.memory.recordList]
      abel
  | getUnscheduledRecords =>
      rw [step, hsome]
      simp only [Safe, SecureObjectRecord.getUnscheduledRecords, h, total_nil, zero_add]
      rw [add_eq_right]
  | revertRecord record offset =>
      rw [step, hsome]
      simp only [Safe, SecureObjectRecord.revertRecord, h, total_append, total_singleton]
      rw [add_left_inj, left_eq_add]

/-- The file and the memory together have what the container has got. -/
structure Balanced (base : FileStat) (s : CountedRecords) : Prop where
  agrees : s.StatAgrees
  sum : s.info.stat.toStat + total s.memory.recordList +
      (if s.locked then 0 else total s.memory.tmpRecordList) =
    base.toStat + total s.records - total s.handedOver

theorem Balanced.countsOnce (h : s.Balanced base) : s.CountsOnce base := by
  intro stat hstat
  have hsum := h.sum
  unfold getContainerStat at hstat
  cases hlocked : s.locked with
  | true => simp [hlocked] at hstat
  | false =>
      rw [hlocked] at hstat hsum
      obtain rfl := Option.some.inj hstat
      have hstat := h.agrees
      rw [StatAgrees, total_append] at hstat
      have : s.info.stat.toStat + s.memory.stat = base.toStat + total s.records -
          total s.handedOver := by
        rw [hstat, ← add_assoc]
        exact hsum
      rw [← this]
      rfl

/-- What memory gives up is what the file takes up. -/
theorem Balanced.step (h : s.Balanced base) (hsafe : s.Safe getHash op)
    (hfile : s.FileSafe getHash op) (hstep : s.step getHash op = some s') : s'.Balanced base := by
  refine ⟨(safe_iff_statAgrees h.agrees op).mp hsafe s' hstep, ?_⟩
  have hsum := h.sum
  cases op with
  | addRecord record syncOff inFile =>
      obtain rfl := Option.some.inj hstep
      simp only [SecureObjectRecord.addRecord, total_append, total_singleton]
      cases inFile with
      | true =>
          rw [hfile rfl, add_zero]
          exact hsum
      | false =>
          simp only [Bool.false_eq_true, if_false, total_append, total_singleton]
          rw [← add_assoc, add_right_comm _ (effect record), hsum]
          abel
  | getFlushRecords =>
      obtain rfl := Option.some.inj hstep
      unfold SecureObjectRecord.getFlushRecords
      split
      · next hempty =>
          have htmp : s.memory.tmpRecordList = [] := List.isEmpty_iff.mp hempty
          rw [← hsum, htmp]
          cases hlocked : s.locked with
          | true => simp [hfile hlocked htmp]
          | false => simp
      · exact hsum
  | flushContainer nodeId unknownStatus =>
      simp only [CountedRecords.step] at hstep
      split at hstep
      · cases hstep
      · next hunlocked =>
          obtain rfl := Option.some.inj hstep
          obtain ⟨rfl, hknown, hcompaction, hfits⟩ := hfile
          have hunfiled := ContainerFile.flushRecords_eq_unfiled getHash (s.flushed getHash)
            nodeId false s.memory.tmpRecordList
          have htotal := ContainerFile.total_filed getHash (s.flushed getHash) nodeId false
            s.memory.tmpRecordList
          rw [hsafe (by simpa using hunlocked), zero_add] at htotal
          rw [if_neg hunlocked] at hsum
          simp only [if_true, add_zero,
            CountedFile.toStat_flushContainer hunfiled hknown hcompaction hfits, htotal]
          rw [← hsum]
          abel
  | releaseFlushRecords garbage =>
      obtain rfl := Option.some.inj hstep
      simp only [SecureObjectRecord.releaseFlushRecords, total_nil, Bool.false_eq_true, if_false]
      rw [← hsum]
      rcases hfile with hlocked | hnone
      · simp [hlocked]
      · simp [hnone]
  | removeRecord offset =>
      obtain rfl := Option.some.inj hstep
      have htotal := total_takeWhile_dropWhile (fun e => e.1 < offset) s.memory.recordList
      rw [show total _ = 0 from hfile, zero_add] at htotal
      simp only [SecureObjectRecord.removeRecord, htotal]
      exact hsum
  | getUnscheduledRecords =>
      obtain rfl := Option.some.inj hstep
      have hnone : total s.memory.recordList = 0 := hsafe
      simp only [SecureObjectRecord.getUnscheduledRecords, total_append, total_nil, hnone,
        add_zero] at hsum ⊢
      exact hsum
  | revertRecord record offset =>
      obtain rfl := Option.some.inj hstep
      have hnone : effect record = 0 := hsafe
      simp only [SecureObjectRecord.revertRecord, total_append, total_singleton, hnone, add_zero]
      exact hsum

theorem balanced_start (info : CountedFile) (prevOff : JournalOffset) :
    (start info prevOff).Balanced info.stat where
  agrees := rfl
  sum := by simp [start]

/-- In a run the statistics in memory are right in every state reached exactly if all steps meet the
condition; and if the file takes up what memory gives up, what is reported counts each record
once. -/
theorem counts_once_iff_safe (getHash : String → String) (info : CountedFile)
    (prevOff : JournalOffset) (ops : List RecordOp) :
    ((∀ n t, run (step getHash) (start info prevOff) (ops.take n) = some t → t.StatAgrees) ↔
      Along (step getHash) (Safe getHash) (start info prevOff) ops) ∧
    (Along (step getHash) (fun s op => s.Safe getHash op ∧ s.FileSafe getHash op)
        (start info prevOff) ops →
      ∀ n t, run (step getHash) (start info prevOff) (ops.take n) = some t →
        t.StatAgrees ∧ t.CountsOnce info.stat) := by
  refine ⟨prefixes_iff_along (step getHash) (fun _ op h => safe_iff_statAgrees h op)
    (balanced_start info prevOff).agrees ops,
    fun halong n t hrun => ?_⟩
  have hprefix : Along (step getHash) (fun s op => s.Safe getHash op ∧ s.FileSafe getHash op)
      (start info prevOff) (ops.take n) := by
    rw [← List.take_append_drop n ops, along_append] at halong
    exact halong.1
  have hbalanced := run_along_preserves (step getHash)
    (fun _ _ _ h hsafe hstep => h.step hsafe.1 hsafe.2 hstep) (balanced_start info prevOff) hprefix
    hrun
  exact ⟨hbalanced.agrees, hbalanced.countsOnce⟩

def uploaded : ObjectRecord := ⟨"a", 5, 0, objectAdd⟩

/-- The info file of a new container. -/
def newFile : CountedFile := CountedFile.addContainer ∅ (toLex (1 <<< 56 + 1, 0))

/-- An object is modified while the record of its creation is flushed, and another one is deleted
again before its record is. -/
theorem counts_once_modified : ∃ t, run (step id) (start newFile (toLex (1 <<< 56 + 1, 0)))
      [.addRecord uploaded (toLex (1 <<< 56 + 1, 100)) false, .getFlushRecords,
        .addRecord ⟨"a", 7, 5, objectModify⟩ (toLex (1 <<< 56 + 1, 200)) false,
        .flushContainer 1 false,
        .addRecord ⟨"b", 3, 0, objectAdd⟩ (toLex (1 <<< 56 + 1, 300)) false,
        .releaseFlushRecords (toLex (0, 0)), .getFlushRecords, .flushContainer 1 false,
        .addRecord ⟨"b", 3, 0, objectDelete⟩ (toLex (1 <<< 56 + 1, 400)) false,
        .releaseFlushRecords (toLex (0, 0))] = some t ∧
    t.memory.recordList.length = 1 ∧ t.getContainerStat = some (1, 7) ∧ t.StatAgrees ∧
      t.CountsOnce newFile.stat := by
  refine ⟨_, rfl, by decide +kernel, by decide +kernel, ?_⟩
  exact (counts_once_iff_safe id newFile (toLex (1 <<< 56 + 1, 0))
    [.addRecord uploaded (toLex (1 <<< 56 + 1, 100)) false, .getFlushRecords,
      .addRecord ⟨"a", 7, 5, objectModify⟩ (toLex (1 <<< 56 + 1, 200)) false,
      .flushContainer 1 false, .addRecord ⟨"b", 3, 0, objectAdd⟩ (toLex (1 <<< 56 + 1, 300)) false,
      .releaseFlushRecords (toLex (0, 0)), .getFlushRecords, .flushContainer 1 false,
      .addRecord ⟨"b", 3, 0, objectDelete⟩ (toLex (1 <<< 56 + 1, 400)) false,
      .releaseFlushRecords (toLex (0, 0))]).2 (by decide +kernel) 10 _ rfl

/-- A record that was flushed before a crash is read from the journal again. The next flush takes it
out of its list, and it stays counted as long as later records keep the container in memory. -/
theorem flushed_record_stays_counted : ∃ t,
    run (step id) (start
        (newFile.flushContainer id 1 false [(toLex (1 <<< 56 + 1, 150), uploaded)])
        (toLex (1 <<< 56 + 1, 0)))
      [.addRecord uploaded (toLex (1 <<< 56 + 1, 100)) true, .getFlushRecords,
        .addRecord ⟨"b", 7, 0, objectAdd⟩ (toLex (1 <<< 56 + 2, 200)) false,
        .flushContainer 1 false, .releaseFlushRecords (toLex (0, 0))] = some t ∧
    t.memory.recordList.length = 1 ∧ t.memory.tmpRecordList = [] ∧ t.memory.stat = (2, 12) ∧
      ¬ t.StatAgrees ∧ ¬ t.CountsOnce (1, 5) := by
  refine ⟨_, rfl, by decide +kernel, by decide +kernel, by decide +kernel, ?_, fun h => ?_⟩
  · exact fun h : _ = _ => absurd h (by decide +kernel)
  · exact absurd (h (3, 17) (by decide +kernel)) (by decide +kernel)

end CountedRecords

end ObjectStorage.InfoFile
