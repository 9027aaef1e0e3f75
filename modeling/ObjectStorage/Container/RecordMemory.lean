import Mathlib.Data.List.Basic
import Mathlib.Data.Nat.Basic
import Mathlib.Order.Basic
import ObjectStorage.Library.OrderedMap

/-!
The object records that the container library keeps in memory between their journal record and
their container's info file, and how a recovery reads them back from the journal. An offset is a
number: the journal files are laid end to end.
-/

namespace ObjectStorage.Container

open Std Library

/-- An object record of the journal is known by where it stands there. -/
structure ObjectRecord where
  path : String
  start : Nat
  stop : Nat
deriving DecidableEq

abbrev RecordList := List (Nat × ObjectRecord)

namespace RecordList

def Sorted (l : RecordList) : Prop := l.Pairwise fun x y => x.1 ≤ y.1

theorem mem_dropWhile_of_not {α : Type} {p : α → Bool} {l : List α} {x : α} (hx : x ∈ l)
    (hp : p x = false) : x ∈ l.dropWhile p := by
  induction l with
  | nil => exact hx
  | cons y l ih =>
      rw [List.dropWhile_cons]
      rcases List.mem_cons.mp hx with rfl | hx
      · simp [hp]
      · split
        · exact ih hx
        · exact List.mem_cons_of_mem _ hx

/-- Of a sorted list the loop that pops up to an offset leaves the later records. -/
theorem Sorted.mem_pop {l : RecordList} (hsorted : l.Sorted) {offset : Nat}
    {x : Nat × ObjectRecord} :
    (x ∈ l.dropWhile fun e => e.1 ≤ offset) ↔ x ∈ l ∧ offset < x.1 := by
  constructor
  · intro hx
    refine ⟨List.dropWhile_subset _ hx, ?_⟩
    induction l with
    | nil => simp at hx
    | cons y l ih =>
        obtain ⟨hle, hsorted⟩ := List.pairwise_cons.mp hsorted
        rw [List.dropWhile_cons] at hx
        split at hx
        · exact ih hsorted hx
        · next hy =>
            rcases List.mem_cons.mp hx with rfl | hx
            · simpa using hy
            · have := hle x hx
              simp only [decide_eq_true_eq] at hy
              omega
  · rintro ⟨hx, hlt⟩
    exact mem_dropWhile_of_not hx (by simpa using hlt)

end RecordList

/-- The records of a container in memory, and those of them that are being flushed. -/
structure SecureObjectRecord where
  recordList : RecordList
  tmpRecordList : RecordList
  lastCommitOffset : Nat
deriving DecidableEq

namespace SecureObjectRecord

def addRecord (s : SecureObjectRecord) (record : ObjectRecord) (syncOff : Nat) :
    SecureObjectRecord :=
  { s with recordList := s.recordList ++ [(syncOff, record)] }

def new (record : ObjectRecord) (prevOff syncOff : Nat) : SecureObjectRecord :=
  (⟨[], [], prevOff⟩ : SecureObjectRecord).addRecord record syncOff

/-- The loop stops at the first record that is not older than the offset. -/
def removeRecord (s : SecureObjectRecord) (offset : Nat) : SecureObjectRecord :=
  { s with recordList := s.recordList.dropWhile fun e => e.1 < offset }

def isFlushOngoing (s : SecureObjectRecord) : Bool := ! s.tmpRecordList.isEmpty

def getFlushRecords (s : SecureObjectRecord) : Option SecureObjectRecord :=
  if s.isFlushOngoing then none
  else some { s with tmpRecordList := s.recordList, recordList := s.tmpRecordList }

/-- Of an empty list, the element before the end is whatever stands there in memory. -/
def releaseFlushRecords (s : SecureObjectRecord) (garbage : Nat) : SecureObjectRecord :=
  { s with
    tmpRecordList := []
    lastCommitOffset := (s.tmpRecordList.getLast?.map (·.1)).getD garbage }

def records (s : SecureObjectRecord) : List ObjectRecord :=
  (s.tmpRecordList ++ s.recordList).map (·.2)

end SecureObjectRecord

/-- The memory map; the component of a path is a function of the path. -/
abbrev MemoryManager := TreeMap String SecureObjectRecord

namespace MemoryManager

def addRecordInMap (m : MemoryManager) (record : ObjectRecord) (prevOff syncOff : Nat) :
    MemoryManager :=
  match m[record.path]? with
  | some s => m.insert record.path (s.addRecord record syncOff)
  | none => m.insert record.path (SecureObjectRecord.new record prevOff syncOff)

def addEntries (m : MemoryManager) (records : List ObjectRecord) (prevOff syncOff : Nat) :
    MemoryManager :=
  records.foldl (fun m record => m.addRecordInMap record prevOff syncOff) m

def getFlushRecords (m : MemoryManager) (path : String) : Option (RecordList × MemoryManager) :=
  match m[path]? with
  | some s => s.getFlushRecords.map fun s' => (s'.tmpRecordList, m.insert path s')
  | none => none

/-- `flush_container` pops the records that the info file has from the list that is flushed. -/
def popFlushRecords (m : MemoryManager) (path : String) (journalOffset : Nat) :
    RecordList × MemoryManager :=
  match m[path]? with
  | some s =>
      let rest := s.tmpRecordList.dropWhile fun e => e.1 ≤ journalOffset
      (rest, m.insert path { s with tmpRecordList := rest })
  | none => ([], m)

def releaseFlushRecords (m : MemoryManager) (path : String) (garbage : Nat) : MemoryManager :=
  match m[path]? with
  | some s =>
      if s.recordList.isEmpty then m.erase path
      else m.insert path (s.releaseFlushRecords garbage)
  | none => m

/-- Nothing is deleted while the container is flushed. -/
def deleteContainer (m : MemoryManager) (path : String) : Bool × MemoryManager :=
  match m[path]? with
  | some s => if s.isFlushOngoing then (false, m) else (true, m.erase path)
  | none => (true, m)

def removeEntry (m : MemoryManager) (path : String) (offset : Nat) : MemoryManager :=
  match m[path]? with
  | some s =>
      if (s.removeRecord offset).recordList.isEmpty then m.erase path
      else m.insert path (s.removeRecord offset)
  | none => m

/-- The least offset of all containers, if there is any. -/
def getLastCommitOffset (m : MemoryManager) : Option Nat :=
  (m.toList.map fun e => e.2.lastCommitOffset).min?

/-- The records of a container in memory. -/
def recordsOf (m : MemoryManager) (path : String) : List ObjectRecord :=
  (m[path]?.map (·.records)).getD []

end MemoryManager

/-- The records of the journal that are read back. Snapshot and checkpoint headers both carry the
offset that a recovery starts from. -/
inductive JournalRecord where
  | object (record : ObjectRecord)
  | endFlush (path : String) (lastCommitOffset start stop : Nat)
  | checkpoint (lastCommitOffset start stop : Nat)
deriving DecidableEq

namespace JournalRecord

def start : JournalRecord → Nat
  | .object record => record.start
  | .endFlush _ _ start _ => start
  | .checkpoint _ start _ => start

def stop : JournalRecord → Nat
  | .object record => record.stop
  | .endFlush _ _ _ stop => stop
  | .checkpoint _ _ stop => stop

def commit? : JournalRecord → Option Nat
  | .checkpoint lastCommitOffset _ _ => some lastCommitOffset
  | _ => none

/-- The record stands in none of the regions. -/
def Outside (e : JournalRecord) (regions : List (Nat × Nat)) : Prop :=
  ∀ region ∈ regions, e.stop ≤ region.1 ∨ region.2 ≤ e.start

instance (e : JournalRecord) (regions : List (Nat × Nat)) : Decidable (e.Outside regions) :=
  inferInstanceAs (Decidable (∀ region ∈ regions, _))

end JournalRecord

abbrev Journal := List JournalRecord

namespace MemoryManager

def recoverObjects (m : MemoryManager) : JournalRecord → MemoryManager
  | .object record => m.addRecordInMap record record.start record.stop
  | .endFlush path lastCommitOffset _ _ => m.removeEntry path lastCommitOffset
  | .checkpoint _ _ _ => m

/-- What a recovery adds for a container when it reads a journal record. -/
def recoveredRecord? (path : String) : JournalRecord → Option (Nat × ObjectRecord)
  | .object record => if record.path = path then some (record.stop, record) else none
  | _ => none

end MemoryManager

namespace Journal

/-- Where the newest header says that a recovery starts. -/
def lastCommitOffset (journal : Journal) : Nat :=
  ((journal.filterMap JournalRecord.commit?).getLast?).getD 0

def recover (journal : Journal) : MemoryManager :=
  (journal.filter fun e => lastCommitOffset journal ≤ e.start).foldl
    MemoryManager.recoverObjects ∅

/-- The newest header names a file that is there, when all files in front of an offset are
removed. -/
def FileKept (journal : Journal) (oldest : Nat) : Prop :=
  ∀ c ∈ (journal.filterMap JournalRecord.commit?).getLast?, oldest ≤ c

instance (journal : Journal) (oldest : Nat) : Decidable (journal.FileKept oldest) :=
  inferInstanceAs (Decidable (∀ c ∈ (journal.filterMap JournalRecord.commit?).getLast?, _))

/-- `start_recovery`, which finds nothing if the file that the header names is not there. -/
def recoverFiles (journal : Journal) (oldest : Nat) : MemoryManager :=
  if journal.FileKept oldest then journal.recover else ∅

end Journal

/-! ### What the operations do at one path -/

namespace MemoryManager

variable {m : MemoryManager} {path : String} {s : SecureObjectRecord}

theorem getElem?_addRecordInMap (m : MemoryManager) (record : ObjectRecord) (prevOff syncOff : Nat)
    (path : String) : (m.addRecordInMap record prevOff syncOff)[path]? =
      if record.path = path then
        some ((m[path]?.getD ⟨[], [], prevOff⟩).addRecord record syncOff)
      else m[path]? := by
  unfold addRecordInMap
  split
  · next hs =>
      by_cases hpath : record.path = path
      · subst hpath
        simp [hs]
      · simp [hpath]
  · next hs =>
      by_cases hpath : record.path = path
      · subst hpath
        simp [hs, SecureObjectRecord.new]
      · simp [hpath]

theorem getElem?_addEntries (m : MemoryManager) (records : List ObjectRecord)
    (prevOff syncOff : Nat) (path : String) : (m.addEntries records prevOff syncOff)[path]? =
      if records.any (·.path = path) then
        let s := m[path]?.getD ⟨[], [], prevOff⟩
        some { s with recordList :=
          s.recordList ++ (records.filter (·.path = path)).map (syncOff, ·) }
      else m[path]? := by
  induction records generalizing m with
  | nil => simp [addEntries]
  | cons record records ih =>
      have hcons : m.addEntries (record :: records) prevOff syncOff =
        (m.addRecordInMap record prevOff syncOff).addEntries records prevOff syncOff := rfl
      rw [hcons, ih, getElem?_addRecordInMap]
      by_cases hpath : record.path = path
      · simp only [hpath, if_true, Option.getD_some, List.any_cons, decide_true, Bool.true_or,
          List.filter_cons, List.map_cons, SecureObjectRecord.addRecord, List.append_assoc,
          List.singleton_append]
        split
        · rfl
        · next hnone =>
            have hfilter : records.filter (·.path = path) = [] := by
              simpa [List.filter_eq_nil_iff] using hnone
            simp [hfilter]
      · simp [hpath]

theorem getLastCommitOffset_le {c : Nat} (hc : m.getLastCommitOffset = some c)
    (hs : m[path]? = some s) : c ≤ s.lastCommitOffset :=
  (List.min?_eq_some_iff.mp hc).2 _
    (List.mem_map.mpr ⟨(path, s), TreeMap.mem_toList_iff_getElem?_eq_some.mpr hs, rfl⟩)

theorem exists_of_getLastCommitOffset {c : Nat} (hc : m.getLastCommitOffset = some c) :
    ∃ (path : String) (s : SecureObjectRecord), m[path]? = some s ∧ s.lastCommitOffset = c := by
  obtain ⟨e, he, rfl⟩ := List.mem_map.mp (List.min?_eq_some_iff.mp hc).1
  exact ⟨e.1, e.2, TreeMap.mem_toList_iff_getElem?_eq_some.mp he, rfl⟩

theorem getElem?_of_getLastCommitOffset_none (hc : m.getLastCommitOffset = none) (path : String) :
    m[path]? = none := by
  rw [getLastCommitOffset, List.min?_eq_none_iff, List.map_eq_nil_iff] at hc
  cases hs : m[path]? with
  | none => rfl
  | some s =>
      have := TreeMap.mem_toList_iff_getElem?_eq_some.mpr hs
      rw [hc] at this
      simp at this

theorem getElem?_releaseFlushRecords (m : MemoryManager) (path : String) (garbage : Nat)
    (q : String) : (m.releaseFlushRecords path garbage)[q]? =
      if path = q then
        m[q]?.bind fun s => if s.recordList = [] then none else some (s.releaseFlushRecords garbage)
      else m[q]? := by
  unfold releaseFlushRecords
  by_cases hq : path = q
  · subst hq
    cases hs : m[path]? with
    | none => simp [hs]
    | some s => by_cases hlist : s.recordList = [] <;> simp [hlist]
  · split
    · split <;> simp [hq]
    · simp [hq]

theorem getElem?_removeEntry (m : MemoryManager) (path : String) (offset : Nat) (q : String) :
    (m.removeEntry path offset)[q]? =
      if path = q then
        m[q]?.bind fun s =>
          if (s.removeRecord offset).recordList = [] then none else some (s.removeRecord offset)
      else m[q]? := by
  unfold removeEntry
  by_cases hq : path = q
  · subst hq
    cases hs : m[path]? with
    | none => simp [hs]
    | some s => by_cases hlist : (s.removeRecord offset).recordList = [] <;> simp [hlist]
  · split
    · split <;> simp [hq]
    · simp [hq]

theorem getFlushRecords_eq_some {m' : MemoryManager} {records : RecordList} :
    m.getFlushRecords path = some (records, m') ↔ ∃ s : SecureObjectRecord, m[path]? = some s ∧
      s.tmpRecordList = [] ∧ records = s.recordList ∧
        m' = m.insert path { s with tmpRecordList := s.recordList, recordList := [] } := by
  unfold getFlushRecords
  cases hs : m[path]? with
  | none => simp
  | some s =>
      have hif : s.getFlushRecords = if s.isFlushOngoing then none
        else some { s with tmpRecordList := s.recordList, recordList := s.tmpRecordList } := rfl
      by_cases htmp : s.tmpRecordList = []
      · simp [hif, SecureObjectRecord.isFlushOngoing, htmp, eq_comm]
      · simp [hif, SecureObjectRecord.isFlushOngoing, htmp]

theorem popFlushRecords_of_some (hs : m[path]? = some s) (journalOffset : Nat) :
    m.popFlushRecords path journalOffset =
      (s.tmpRecordList.dropWhile fun e => e.1 ≤ journalOffset, m.insert path
        { s with tmpRecordList := s.tmpRecordList.dropWhile fun e => e.1 ≤ journalOffset }) := by
  simp [popFlushRecords, hs]

theorem getElem?_deleteContainer (m : MemoryManager) (path q : String) :
    (m.deleteContainer path).2[q]? =
      if path = q then m[q]?.filter (·.isFlushOngoing) else m[q]? := by
  unfold deleteContainer
  by_cases hq : path = q
  · subst hq
    cases hs : m[path]? with
    | none => simp [hs]
    | some s => by_cases hflush : s.isFlushOngoing <;> simp [hflush, hs, Option.filter]
  · split
    · split <;> simp [hq]
    · simp [hq]

theorem deleteContainer_fst : (m.deleteContainer path).1 = true ↔
    ∀ s, m[path]? = some s → s.tmpRecordList = [] := by
  unfold deleteContainer
  cases m[path]? with
  | none => simp
  | some s =>
      by_cases htmp : s.tmpRecordList = [] <;> simp [SecureObjectRecord.isFlushOngoing, htmp]

theorem mem_recordsOf {r : ObjectRecord} : r ∈ m.recordsOf path ↔
    ∃ s, m[path]? = some s ∧ ∃ x ∈ s.tmpRecordList ++ s.recordList, x.2 = r := by
  unfold recordsOf SecureObjectRecord.records
  cases m[path]? with
  | none => simp
  | some s => simpa using exists_or.symm

end MemoryManager

/-! ### What a recovery brings back -/

namespace MemoryManager

variable {m : MemoryManager} {path : String}

/-- The records that are not being flushed. -/
def listed (m : MemoryManager) (path : String) : RecordList :=
  (m[path]?.map (·.recordList)).getD []

theorem recoveredRecord?_eq_some {e : JournalRecord} {x : Nat × ObjectRecord}
    (h : recoveredRecord? path e = some x) :
    e = .object x.2 ∧ x.1 = x.2.stop ∧ x.2.path = path := by
  cases e with
  | object record =>
      by_cases hpath : record.path = path
      · simp only [recoveredRecord?, hpath, if_true, Option.some.injEq] at h
        subst h
        exact ⟨rfl, rfl, hpath⟩
      · simp [recoveredRecord?, hpath] at h
  | endFlush q offset start stop => cases h
  | checkpoint c start stop => cases h

theorem listed_recoverObjects_sublist (m : MemoryManager) (e : JournalRecord) (path : String) :
    ((m.recoverObjects e).listed path).Sublist
      (m.listed path ++ (recoveredRecord? path e).toList) := by
  unfold listed
  cases e with
  | object record =>
      rw [recoverObjects, getElem?_addRecordInMap, recoveredRecord?]
      by_cases hpath : record.path = path
      · cases m[path]? <;> simp [hpath, SecureObjectRecord.addRecord]
      · simp [hpath]
  | endFlush q offset start stop =>
      have hnone : recoveredRecord? path (.endFlush q offset start stop) = none := rfl
      rw [recoverObjects, getElem?_removeEntry, hnone]
      by_cases hq : q = path
      · cases hs : m[path]? with
        | none => simp [hq]
        | some s =>
            have hdrop : (s.removeRecord offset).recordList.Sublist s.recordList :=
              List.dropWhile_sublist _
            by_cases hlist : (s.removeRecord offset).recordList = []
            · simp [hq, hlist]
            · simpa [hq, hlist] using hdrop
      · simp [hq]
  | checkpoint c start stop => simp [recoverObjects, recoveredRecord?]

theorem listed_foldl_sublist (es : Journal) (m : MemoryManager) (path : String) :
    ((es.foldl recoverObjects m).listed path).Sublist
      (m.listed path ++ es.filterMap (recoveredRecord? path)) := by
  induction es generalizing m with
  | nil => simp
  | cons e es ih =>
      refine (ih (m.recoverObjects e)).trans ?_
      have hcons : (e :: es).filterMap (recoveredRecord? path) =
          (recoveredRecord? path e).toList ++ es.filterMap (recoveredRecord? path) := by
        cases he : recoveredRecord? path e <;> simp [he]
      rw [hcons, ← List.append_assoc]
      exact (m.listed_recoverObjects_sublist e path).append (List.Sublist.refl _)

/-- Only an end-of-flush marker with a later offset takes a record out again. -/
theorem mem_listed_recoverObjects {e : JournalRecord} {r : ObjectRecord}
    (hr : (r.stop, r) ∈ m.listed path)
    (hend : ∀ offset start stop, e = .endFlush path offset start stop → offset ≤ r.stop) :
    (r.stop, r) ∈ (m.recoverObjects e).listed path := by
  unfold listed at hr ⊢
  cases e with
  | object record =>
      rw [recoverObjects, getElem?_addRecordInMap]
      by_cases hpath : record.path = path
      · cases hs : m[path]? with
        | none => simp [hs] at hr
        | some s =>
            rw [hs] at hr
            simp [hpath, SecureObjectRecord.addRecord, show (r.stop, r) ∈ s.recordList from hr]
      · simpa [hpath] using hr
  | endFlush q offset start stop =>
      rw [recoverObjects, getElem?_removeEntry]
      by_cases hq : q = path
      · subst hq
        cases hs : m[q]? with
        | none => simp [hs] at hr
        | some s =>
            rw [hs] at hr
            have hkept : (r.stop, r) ∈ (s.removeRecord offset).recordList :=
              RecordList.mem_dropWhile_of_not hr (by simpa using hend offset start stop rfl)
            have hne : (s.removeRecord offset).recordList ≠ [] := List.ne_nil_of_mem hkept
            simp [hne, hkept]
      · simpa [hq] using hr
  | checkpoint c start stop => exact hr

theorem mem_listed_foldl {es : Journal} {r : ObjectRecord} (hr : (r.stop, r) ∈ m.listed path)
    (hend : ∀ offset start stop, .endFlush path offset start stop ∈ es → offset ≤ r.stop) :
    (r.stop, r) ∈ (es.foldl recoverObjects m).listed path := by
  induction es generalizing m with
  | nil => exact hr
  | cons e es ih =>
      refine ih (mem_listed_recoverObjects hr fun offset start stop he => ?_)
        fun offset start stop he => hend offset start stop (List.mem_cons_of_mem _ he)
      exact hend offset start stop (he ▸ List.mem_cons_self)

theorem tmpRecordList_foldl {es : Journal} {s : SecureObjectRecord}
    (hm : ∀ s, m[path]? = some s → s.tmpRecordList = [])
    (hs : (es.foldl recoverObjects m)[path]? = some s) : s.tmpRecordList = [] := by
  induction es generalizing m with
  | nil => exact hm s hs
  | cons e es ih =>
      refine ih (m := m.recoverObjects e) (fun s hs => ?_) hs
      cases e with
      | object record =>
          rw [recoverObjects, getElem?_addRecordInMap] at hs
          split at hs
          · cases hs
            cases hold : m[path]? with
            | none => rfl
            | some s => exact hm s hold
          · exact hm s hs
      | endFlush q offset start stop =>
          rw [recoverObjects, getElem?_removeEntry] at hs
          split at hs
          · obtain ⟨s', hs', hif⟩ := Option.bind_eq_some_iff.mp hs
            split at hif
            · cases hif
            · cases hif
              exact hm s' hs'
          · exact hm s hs
      | checkpoint c start stop => exact hm s hs

end MemoryManager

namespace Journal

open MemoryManager

/-- The journal is written from the front to the back. -/
def Ordered (journal : Journal) : Prop :=
  (∀ e ∈ journal, e.start < e.stop) ∧ journal.Pairwise fun e e' => e.stop ≤ e'.start

/-- What the journal still has of a record: it is behind every offset that a recovery may start
from, and no marker says that it was flushed. -/
structure Kept (journal : Journal) (r : ObjectRecord) : Prop where
  written : .object r ∈ journal
  commit : ∀ c start stop, .checkpoint c start stop ∈ journal → c ≤ r.start
  marker : ∀ o start stop, .endFlush r.path o start stop ∈ journal → o ≤ r.start

/-- The newest header stands in the journal. -/
theorem exists_checkpoint {journal : Journal} {c : Nat}
    (hc : c ∈ (journal.filterMap JournalRecord.commit?).getLast?) :
    ∃ start stop, .checkpoint c start stop ∈ journal := by
  obtain ⟨e, he, hcommit⟩ := List.mem_filterMap.mp (List.mem_of_getLast? hc)
  cases e with
  | checkpoint c' start stop =>
      obtain rfl := Option.some.inj hcommit
      exact ⟨start, stop, he⟩
  | object record => cases hcommit
  | endFlush q o start stop => cases hcommit

theorem lastCommitOffset_le {journal : Journal} {r : ObjectRecord} (hr : journal.Kept r) :
    journal.lastCommitOffset ≤ r.start := by
  unfold lastCommitOffset
  cases hlast : (journal.filterMap JournalRecord.commit?).getLast? with
  | none => simp
  | some c =>
      obtain ⟨start, stop, hheader⟩ := exists_checkpoint hlast
      exact hr.commit c start stop hheader

theorem mem_listed_recover {journal : Journal} {r : ObjectRecord} (hr : journal.Kept r)
    (hlt : r.start < r.stop) : (r.stop, r) ∈ journal.recover.listed r.path := by
  have hin : JournalRecord.object r ∈
      journal.filter fun e => lastCommitOffset journal ≤ e.start :=
    List.mem_filter.mpr ⟨hr.written, decide_eq_true (lastCommitOffset_le hr)⟩
  obtain ⟨before, after, hsplit⟩ := List.append_of_mem hin
  unfold recover
  rw [hsplit, List.foldl_append, List.foldl_cons]
  refine mem_listed_foldl ?_ fun offset start stop he => ?_
  · simp [listed, recoverObjects, getElem?_addRecordInMap, SecureObjectRecord.addRecord]
  · have hmem : JournalRecord.endFlush r.path offset start stop ∈
        journal.filter fun e => lastCommitOffset journal ≤ e.start := by
      rw [hsplit]
      exact List.mem_append_right _ (List.mem_cons_of_mem _ he)
    have := hr.marker offset start stop (List.mem_filter.mp hmem).1
    omega

theorem exists_entry_recover {journal : Journal} {r : ObjectRecord} (hr : journal.Kept r)
    (hlt : r.start < r.stop) :
    ∃ s, journal.recover[r.path]? = some s ∧ (r.stop, r) ∈ s.recordList := by
  have hlisted := mem_listed_recover hr hlt
  unfold listed at hlisted
  cases hs : journal.recover[r.path]? with
  | none => simp [hs] at hlisted
  | some s =>
      rw [hs] at hlisted
      exact ⟨s, rfl, hlisted⟩

/-- The memory after a recovery: records of the journal, each with the offset where it ends. -/
theorem recover_spec {journal : Journal} (hordered : journal.Ordered) {path : String}
    {s : SecureObjectRecord} (hs : journal.recover[path]? = some s) :
    s.tmpRecordList = [] ∧ RecordList.Sorted s.recordList ∧ ∀ x ∈ s.recordList,
      x.1 = x.2.stop ∧ x.2.path = path ∧ .object x.2 ∈ journal := by
  have hsub : s.recordList.Sublist (journal.filterMap (recoveredRecord? path)) := by
    have := listed_foldl_sublist
      (journal.filter fun e => lastCommitOffset journal ≤ e.start) ∅ path
    have hlisted : journal.recover.listed path = s.recordList := by simp [listed, hs]
    rw [← hlisted]
    refine this.trans ?_
    simpa [listed] using List.filter_sublist.filterMap (recoveredRecord? path)
  refine ⟨tmpRecordList_foldl (fun s hs => by simp at hs) hs, ?_, fun x hx => ?_⟩
  · refine List.Pairwise.sublist hsub ?_
    rw [List.pairwise_filterMap]
    refine hordered.2.imp_of_mem fun {e e'} he he' hle x hx x' hx' => ?_
    obtain ⟨rfl, hstop, -⟩ := recoveredRecord?_eq_some hx
    obtain ⟨rfl, hstop', -⟩ := recoveredRecord?_eq_some hx'
    have hlt' : x'.2.start < x'.2.stop := hordered.1 _ he'
    have hle : x.2.stop ≤ x'.2.start := hle
    omega
  · obtain ⟨e, he, hx'⟩ := List.mem_filterMap.mp (hsub.subset hx)
    obtain ⟨rfl, hstop, hpath⟩ := recoveredRecord?_eq_some hx'
    exact ⟨hstop, hpath, he⟩

end Journal

end ObjectStorage.Container
