import Mathlib.Algebra.BigOperators.Group.List.Basic
import Mathlib.Algebra.Group.Prod
import Mathlib.Data.BitVec
import Mathlib.Data.List.TakeWhile
import Mathlib.Tactic.Abel
import ObjectStorage.Journal.Framing

/-!
The statistics that the container library keeps of the object records in memory, to be added to
those of the info file. Counts and sizes are 64 bits wide and wrap around as in the source.
-/

namespace ObjectStorage.Container.Statistics

open ObjectStorage.Journal

/-! ### Object records -/

/-- What the statistics read of an object record. -/
structure ObjectRecord where
  name : String
  size : BitVec 64
  oldSize : BitVec 64
  deleted : Nat
deriving DecidableEq

def objectAdd : Nat := 1
def objectDelete : Nat := 2
def objectModify : Nat := 3
def objectUnknownDelete : Nat := 254
def objectUnknownAdd : Nat := 255

abbrev RecordList := List (JournalOffset × ObjectRecord)

/-- `object_count` and `bytes_used`. -/
abbrev ContainerStat := BitVec 64 × BitVec 64

/-- What a record adds to the statistics when it comes into memory. -/
def ContainerStat.add (stat : ContainerStat) (record : ObjectRecord) : ContainerStat :=
  if record.deleted = objectDelete then (stat.1 - 1, stat.2 - record.size)
  else if record.deleted = objectAdd then (stat.1 + 1, stat.2 + record.size)
  else if record.deleted = objectModify then (stat.1, stat.2 + (record.size - record.oldSize))
  else stat

/-- What is taken back when a record leaves. -/
def ContainerStat.release (stat : ContainerStat) (record : ObjectRecord) : ContainerStat :=
  if record.deleted = objectDelete then (stat.1 + 1, stat.2 + record.size)
  else if record.deleted = objectAdd then (stat.1 - 1, stat.2 - record.size)
  else if record.deleted = objectModify then (stat.1, stat.2 - (record.size - record.oldSize))
  else stat

/-! ### Flushing -/

/-- An entry of the info file's index. -/
structure IndexRecord where
  hash : String
  fileState : Nat
deriving DecidableEq

/-- The inner loop of `flush_container` for an entry of the index. An object that had another state
in an earlier entry keeps its records. -/
def dropIndexed (getHash : String → String) (index : IndexRecord) (seen : List String) :
    RecordList → RecordList × List String
  | [] => ([], seen)
  | e :: l =>
      if getHash e.2.name = index.hash then
        if e.2.deleted = index.fileState then
          if index.hash ∈ seen then
            (e :: (dropIndexed getHash index seen l).1, (dropIndexed getHash index seen l).2)
          else dropIndexed getHash index seen l
        else (e :: l, if index.hash ∈ seen then seen else index.hash :: seen)
      else (e :: (dropIndexed getHash index seen l).1, (dropIndexed getHash index seen l).2)

def dropAllIndexed (getHash : String → String) :
    List IndexRecord → List String → RecordList → RecordList
  | [], _, l => l
  | index :: indexes, seen, l =>
      dropAllIndexed getHash indexes (dropIndexed getHash index seen l).2
        (dropIndexed getHash index seen l).1

/-- What `flush_container` is called with and finds in the info file. -/
structure Flush where
  nodeId : Nat
  unknownStatus : Bool
  journalOffset : JournalOffset
  index : List IndexRecord

/-- The list `flush_container` is left with: the records that the info file has already are taken
out, found by their offset if the file was last flushed by this node, else by the index. -/
def flushContainer (getHash : String → String) (flush : Flush) (l : RecordList) : RecordList :=
  if (ofLex flush.journalOffset).1 >>> 56 = flush.nodeId then
    l.dropWhile fun e => e.1 ≤ flush.journalOffset
  else if ! flush.unknownStatus then dropAllIndexed getHash flush.index [] l
  else l

/-- The info file has the record: this node was the last to flush the file, with an offset that is
not in front of the record, or the latest entry of the object has its state. The index is not looked
at while the status is unknown. -/
def Flush.Has (getHash : String → String) (flush : Flush) (e : JournalOffset × ObjectRecord) :
    Prop :=
  if (ofLex flush.journalOffset).1 >>> 56 = flush.nodeId then e.1 ≤ flush.journalOffset
  else flush.unknownStatus = false ∧
    (flush.index.find? (·.hash = getHash e.2.name)).map (·.fileState) = some e.2.deleted

section

variable {getHash : String → String}

theorem dropIndexed_seen (index : IndexRecord) (seen : List String) (l : RecordList) :
    (dropIndexed getHash index seen l).2 = seen ∨
      (dropIndexed getHash index seen l).2 = index.hash :: seen := by
  induction l with
  | nil => exact .inl rfl
  | cons e l ih =>
      rw [dropIndexed]
      split_ifs <;> simp_all

/-- The first entry of an object decides, unless another one did before. -/
def Indexed (getHash : String → String) (indexes : List IndexRecord) (seen : List String)
    (e : JournalOffset × ObjectRecord) : Prop :=
  getHash e.2.name ∉ seen ∧
    (indexes.find? (·.hash = getHash e.2.name)).map (·.fileState) = some e.2.deleted

/-- The entry takes out what it decides about, or marks the object as seen. -/
theorem forall_dropIndexed_iff (index : IndexRecord) (indexes : List IndexRecord)
    (seen : List String) (l : RecordList) :
    (∀ e ∈ (dropIndexed getHash index seen l).1,
        Indexed getHash indexes (dropIndexed getHash index seen l).2 e) ↔
      ∀ e ∈ l, Indexed getHash (index :: indexes) seen e := by
  induction l with
  | nil => simp [dropIndexed]
  | cons e l ih =>
    have hsub : seen ⊆ (dropIndexed getHash index seen l).2 := by
      rcases dropIndexed_seen index seen l with h | h
      · rw [h]
        exact List.Subset.refl seen
      · rw [h]
        exact List.subset_cons_self _ _
    rw [dropIndexed, List.forall_mem_cons]
    by_cases hhash : getHash e.2.name = index.hash
    · have hfind : ((index :: indexes).find? (·.hash = getHash e.2.name)) = some index :=
        List.find?_cons_of_pos (by simp [hhash])
      rw [if_pos hhash]
      split_ifs with hstate hseen hseen
      · -- the object was seen, so its records stay
        rw [List.forall_mem_cons]
        refine iff_of_false (fun h => ?_) fun h => h.1.1 (hhash.symm ▸ hseen)
        exact h.1.1 (hhash.symm ▸ hsub hseen)
      · have hin : Indexed getHash (index :: indexes) seen e := by
          refine ⟨hhash.symm ▸ hseen, ?_⟩
          rw [hfind, hstate]
          rfl
        rw [ih, and_iff_right hin]
      all_goals
        refine iff_of_false (fun h => ?_) fun h => ?_
        · refine (h e List.mem_cons_self).1 ?_
          simp [hhash, hseen]
        · have hsome := h.1.2
          rw [hfind] at hsome
          exact hstate (Option.some.inj hsome).symm
    · have hsame : Indexed getHash indexes (dropIndexed getHash index seen l).2 e ↔
          Indexed getHash (index :: indexes) seen e := by
        have hfind : (index :: indexes).find? (·.hash = getHash e.2.name) =
            indexes.find? (·.hash = getHash e.2.name) :=
          List.find?_cons_of_neg (by simpa using Ne.symm hhash)
        unfold Indexed
        rw [hfind]
        have hmem : getHash e.2.name ∈ (dropIndexed getHash index seen l).2 ↔
            getHash e.2.name ∈ seen := by
          have hseen : (dropIndexed getHash index seen l).2 = seen ∨ _ :=
            dropIndexed_seen index seen l
          rcases hseen with h | h
          · rw [h]
          · rw [h, List.mem_cons, or_iff_right hhash]
        rw [hmem]
      rw [if_neg hhash, List.forall_mem_cons, hsame, ih]

theorem dropAllIndexed_eq_nil_iff (indexes : List IndexRecord) (seen : List String)
    (l : RecordList) : dropAllIndexed getHash indexes seen l = [] ↔
      ∀ e ∈ l, Indexed getHash indexes seen e := by
  induction indexes generalizing seen l with
  | nil =>
    rw [dropAllIndexed]
    constructor
    · rintro rfl e he
      cases he
    · intro h
      apply List.eq_nil_iff_forall_not_mem.mpr
      intro e he
      cases (h e he).2
  | cons index indexes ih => rw [dropAllIndexed, ih, forall_dropIndexed_iff]

/-- Records are left if and only if the info file does not have all of them. -/
theorem flushContainer_ne_nil_iff (flush : Flush) (l : RecordList) :
    flushContainer getHash flush l ≠ [] ↔ ∃ e ∈ l, ¬ flush.Has getHash e := by
  have hnil : flushContainer getHash flush l = [] ↔ ∀ e ∈ l, flush.Has getHash e := by
    unfold flushContainer Flush.Has
    split_ifs with hnode hstatus
    · simp [List.dropWhile_eq_nil_iff]
    · have hknown : flush.unknownStatus = false := by simpa using hstatus
      simp [dropAllIndexed_eq_nil_iff, Indexed, hknown]
    · constructor
      · rintro rfl e he
        cases he
      · intro h
        apply List.eq_nil_iff_forall_not_mem.mpr
        intro e he
        exact hstatus (by simp [(h e he).1])
  rw [ne_eq, hnil]
  push Not
  rfl

end

/-! ### The records of a container -/

structure SecureObjectRecord where
  recordList : RecordList
  tmpRecordList : RecordList
  lastCommitOffset : JournalOffset
  stat : ContainerStat
deriving DecidableEq

namespace SecureObjectRecord

def addRecord (s : SecureObjectRecord) (record : ObjectRecord) (syncOff : JournalOffset) :
    SecureObjectRecord :=
  { s with
    stat := s.stat.add record
    recordList := s.recordList ++ [(syncOff, record)] }

def new (record : ObjectRecord) (prevOff syncOff : JournalOffset) : SecureObjectRecord :=
  (⟨[], [], prevOff, 0⟩ : SecureObjectRecord).addRecord record syncOff

def revertRecord (s : SecureObjectRecord) (record : ObjectRecord) (offset : JournalOffset) :
    SecureObjectRecord :=
  { s with recordList := s.recordList ++ [(offset, record)] }

/-- The statistics without the records of a list. -/
def releaseAll (stat : ContainerStat) (l : RecordList) : ContainerStat :=
  l.foldl (fun stat e => ContainerStat.release stat e.2) stat

/-- The loop stops at the first record that is not older than the offset. -/
def removeRecord (s : SecureObjectRecord) (offset : JournalOffset) : SecureObjectRecord :=
  { s with
    recordList := s.recordList.dropWhile fun e => e.1 < offset
    stat := releaseAll s.stat (s.recordList.takeWhile fun e => e.1 < offset) }

/-- While a flush goes on the caller gets no list. -/
def getFlushRecords (s : SecureObjectRecord) : SecureObjectRecord :=
  if s.tmpRecordList.isEmpty then
    { s with tmpRecordList := s.recordList, recordList := s.tmpRecordList }
  else s

/-- Of an empty list, the element before the end is whatever stands there in memory. -/
def releaseFlushRecords (s : SecureObjectRecord) (garbage : JournalOffset) : SecureObjectRecord :=
  { s with
    lastCommitOffset := (s.tmpRecordList.getLast?.map (·.1)).getD garbage
    stat := releaseAll s.stat s.tmpRecordList
    tmpRecordList := [] }

/-- The caller gets the records that are not being flushed. -/
def getUnscheduledRecords (s : SecureObjectRecord) : SecureObjectRecord :=
  { s with recordList := [] }

end SecureObjectRecord

/-- Negative numbers are not reported. -/
def ContainerStat.nonNegative (stat : ContainerStat) : ContainerStat :=
  (if stat.1.toInt < 0 then 0 else stat.1, if stat.2.toInt < 0 then 0 else stat.2)

/-! ### What the statistics stand for -/

/-- What a record means for the statistics. -/
def effect (record : ObjectRecord) : ContainerStat :=
  if record.deleted = objectAdd then (1, record.size)
  else if record.deleted = objectDelete then (-1, -record.size)
  else if record.deleted = objectModify then (0, record.size - record.oldSize)
  else 0

def total (l : RecordList) : ContainerStat := (l.map fun e => effect e.2).sum

@[simp] theorem total_nil : total [] = 0 := rfl

@[simp] theorem total_append (l l' : RecordList) : total (l ++ l') = total l + total l' := by
  simp [total]

@[simp] theorem total_singleton (e : JournalOffset × ObjectRecord) : total [e] = effect e.2 := by
  simp [total]

theorem total_cons (e : JournalOffset × ObjectRecord) (l : RecordList) :
    total (e :: l) = effect e.2 + total l :=
  List.sum_cons

theorem total_perm {l l' : RecordList} (h : l.Perm l') : total l = total l' := (h.map _).sum_eq

theorem add_eq (stat : ContainerStat) (record : ObjectRecord) :
    stat.add record = stat + effect record := by
  unfold ContainerStat.add effect
  by_cases hadd : record.deleted = objectAdd
  · simp [hadd, objectAdd, objectDelete, Prod.ext_iff]
  by_cases hdelete : record.deleted = objectDelete
  · simp [hdelete, objectAdd, objectDelete, Prod.ext_iff, sub_eq_add_neg]
  by_cases hmodify : record.deleted = objectModify
  · simp [hmodify, objectAdd, objectDelete, objectModify, Prod.ext_iff]
  · simp [hadd, hdelete, hmodify]

theorem release_eq (stat : ContainerStat) (record : ObjectRecord) :
    stat.release record = stat - effect record := by
  unfold ContainerStat.release effect
  by_cases hadd : record.deleted = objectAdd
  · simp [hadd, objectAdd, objectDelete, Prod.ext_iff]
  by_cases hdelete : record.deleted = objectDelete
  · rw [if_pos hdelete, if_neg hadd, if_pos hdelete]
    exact Prod.ext (sub_neg_eq_add _ _).symm (sub_neg_eq_add _ _).symm
  by_cases hmodify : record.deleted = objectModify
  · simp [hmodify, objectAdd, objectDelete, objectModify, Prod.ext_iff]
  · simp [hadd, hdelete, hmodify]

theorem releaseAll_eq (stat : ContainerStat) (l : RecordList) :
    SecureObjectRecord.releaseAll stat l = stat - total l := by
  unfold SecureObjectRecord.releaseAll
  induction l generalizing stat with
  | nil => simp
  | cons e l ih => rw [List.foldl_cons, ih, release_eq, total_cons, sub_sub]

theorem total_takeWhile_dropWhile (p : JournalOffset × ObjectRecord → Bool) (l : RecordList) :
    total (l.takeWhile p) + total (l.dropWhile p) = total l := by
  rw [← total_append, List.takeWhile_append_dropWhile]

end ObjectStorage.Container.Statistics
