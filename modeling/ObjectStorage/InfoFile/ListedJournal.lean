import ObjectStorage.InfoFile.FlushedJournal
import ObjectStorage.InfoFile.ObjectListing

/-!
A container with its info file, its records in memory and its journal. A listing takes the records
in memory first and reads the info file later. However records are added, flushed, compacted and
recovered before and in between, each name is listed as it was at some moment from the one to the
other.
-/

namespace ObjectStorage.Container.Statistics.SecureObjectRecord

/-- The records that a listing gets. -/
def getListRecords (s : SecureObjectRecord) : List ObjectRecord :=
  (s.tmpRecordList ++ s.recordList).map (·.2)

def addRecords (s : SecureObjectRecord) (records : RecordList) : SecureObjectRecord :=
  records.foldl (fun s e => s.addRecord e.2 e.1) s

theorem addRecords_lists (s : SecureObjectRecord) (records : RecordList) :
    (s.addRecords records).recordList = s.recordList ++ records ∧
      (s.addRecords records).tmpRecordList = s.tmpRecordList := by
  unfold addRecords
  induction records using List.reverseRecOn with
  | nil => exact ⟨(List.append_nil _).symm, rfl⟩
  | append_singleton records e ih =>
    rw [List.foldl_append, List.foldl_cons, List.foldl_nil, ← List.append_assoc]
    exact ⟨congrArg (· ++ [e]) ih.1, ih.2⟩

end ObjectStorage.Container.Statistics.SecureObjectRecord

namespace ObjectStorage.InfoFile

open Std Library InfoFileSorter ObjectStorage.Journal Container.Statistics

/-! ### The journal up to an offset -/

section

variable {journal records : RecordList} {offset : JournalOffset} {name : String}

theorem ObjectMap.lookup_ofJournal_append (front records : RecordList) (name : String) :
    (ofJournal (front ++ records)).lookup name =
      ((records.map fun e => dataRecord e.2).reverse.find? fun r => r.name = name).elim
        ((ofJournal front).lookup name) fun record => (some record).filter (! ·.isDeleted) := by
  rw [ofJournal_append, lookup_replay]

theorem ContainerFile.Represents.shown_eq {file : ContainerFile} {objects : ObjectMap}
    (h : file.Represents objects) (memory : List ObjectRecord) (name : String) :
    file.shown memory name = ((memory.map dataRecord).reverse.find? fun r => r.name = name).elim
      (objects.lookup name) fun record => (some record).filter (! ·.isDeleted) := by
  rw [shown]
  cases (memory.map dataRecord).reverse.find? fun r => r.name = name with
  | none => exact h name
  | some r => rfl

theorem exists_eq_upTo_append (hincreasing : journal.Pairwise fun e e' => e.1 < e'.1)
    (offset : JournalOffset) :
    ∃ back, journal = upTo journal offset ++ back ∧ ∀ e ∈ back, offset < e.1 := by
  obtain ⟨old, new, hsplit, -, hold, hnew⟩ := dropWhile_le_eq (·.1) journal offset
  have hlater : ∀ e ∈ new, offset < e.1 := by
    have hordered : new.Pairwise fun e e' => e.1 ≤ e'.1 := by
      rw [hsplit] at hincreasing
      exact (List.pairwise_append.mp hincreasing).2.1.imp fun hlt => hlt.le
    exact fun e he => lt_of_head_lt hordered hnew he
  refine ⟨new, ?_, hlater⟩
  rw [upTo_eq hsplit hold hlater]
  exact hsplit

theorem upTo_append (hlater : ∀ e ∈ records, offset < e.1) :
    upTo (journal ++ records) offset = upTo journal offset := by
  have hnone : (records.filter fun e => e.1 ≤ offset) = [] := by
    apply List.filter_eq_nil_iff.mpr
    intro e he
    simpa using hlater e he
  rw [upTo, List.filter_append, hnone, List.append_nil, upTo]

theorem Applied.extend {nodeId : Nat} {c : CountedFile} (h : Applied nodeId journal c)
    (hlater : ∀ e ∈ records, c.file.trailer.journalOffset < e.1) :
    Applied nodeId (journal ++ records) c := by
  refine ⟨h.sound, h.node, ?_, fun hadmitted => ?_⟩
  · rw [upTo_append hlater]
    exact h.objects
  · rw [upTo_append hlater]
    exact h.stat (Preceded.of_append hadmitted)

end

/-! ### Containers -/

/-- A container with the records of its journal, and whether the records that are being flushed are
in the info file and not released yet. -/
structure ContainerState where
  info : CountedFile
  memory : SecureObjectRecord
  journal : RecordList
  flushed : Bool

inductive ContainerState.Action where
  | addEntries (records : RecordList) (syncOff : JournalOffset)
  | getFlushRecords
  | flushContainer (unknownStatus : Bool)
  | releaseFlushRecords (garbage : JournalOffset)
  | compaction (numRecord : Nat)
  | setContainerStat (new : Metadata)
  | recover (prevOff : JournalOffset) (records : RecordList)

namespace ContainerState

section

variable (getHash : String → String) (nodeId : Nat)

def start (metadata : Metadata) (offset : JournalOffset) : ContainerState :=
  ⟨.addContainer metadata offset, ⟨[], [], offset, 0⟩, [], false⟩

/-- The list that is flushed is shared with the memory, and what the file has already is taken out
of it. -/
def flush (s : ContainerState) (unknownStatus : Bool) : ContainerState :=
  let records := s.memory.tmpRecordList
  { s with
    info := s.info.flushContainer getHash nodeId unknownStatus records
    memory := { s.memory with
      tmpRecordList := (s.info.file.prepareFlush getHash records.length).flushRecords
        getHash nodeId unknownStatus records }
    flushed := true }

/-- Records that have been synchronized together are added together, with the offset behind them.
After a crash the memory is that of the records which are read from the journal again, each with its
own offset. -/
def step (s : ContainerState) : Action → Option ContainerState
  | .addEntries records syncOff => some { s with
      memory := s.memory.addRecords (records.map fun e => (syncOff, e.2))
      journal := s.journal ++ records }
  | .getFlushRecords => some { s with memory := s.memory.getFlushRecords }
  | .flushContainer unknownStatus => some (s.flush getHash nodeId unknownStatus)
  | .releaseFlushRecords garbage => some { s with
      memory := s.memory.releaseFlushRecords garbage
      flushed := false }
  | .compaction numRecord =>
      some { s with info := s.info.compaction getHash numRecord }
  | .setContainerStat new =>
      (s.info.step getHash (.setContainerStat new)).map fun info =>
        { s with info := info }
  | .recover prevOff records => some { s with
      memory := (⟨[], [], prevOff, 0⟩ : SecureObjectRecord).addRecords records
      flushed := false }

/-- Records that come next in the journal of this node. -/
structure ComesNext (s : ContainerState) (records : RecordList) (syncOff : JournalOffset) :
    Prop where
  increasing : records.Pairwise fun e e' => e.1 < e'.1
  own : ∀ e ∈ records, (ofLex e.1).1 >>> 56 = nodeId ∧ e.1 ≤ syncOff
  sync : (ofLex syncOff).1 >>> 56 = nodeId
  journal : ∀ e ∈ records, ∀ e' ∈ s.journal, e'.1 < e.1
  memory : ∀ e ∈ records, ∀ e' ∈ s.memory.tmpRecordList ++ s.memory.recordList, e'.1 < e.1
  file : ∀ e ∈ records, s.info.file.trailer.journalOffset < e.1
  fits : ∀ e ∈ records, Fits ObjectRecord.name e.2

/-- Offsets grow. A flush may ask for its records again while it has some, but none starts on a list
that the last one has emptied and not released yet. What is released has been written. Recovery
reads all that has not been flushed. -/
def Next (s : ContainerState) : Action → Prop
  | .addEntries records syncOff => ComesNext nodeId s records syncOff
  | .getFlushRecords => s.flushed = true → s.memory.tmpRecordList ≠ []
  | .releaseFlushRecords _ => s.flushed = true
  | .recover _ records => ∃ front, s.journal = front ++ records ∧
      ∀ e ∈ front, e.1 ≤ s.info.file.trailer.journalOffset
  | _ => True

end

/-! ### What every step keeps -/

/-- The memory has the last records of the journal, some of them being flushed, and what is in front
of them is in the file. -/
structure InMemory (nodeId : Nat) (journal : RecordList) (offset : JournalOffset)
    (memory : SecureObjectRecord) (front : RecordList) (tmp rest : List MarkedRecord) : Prop where
  journal : journal = front ++ (tmp ++ rest).map MarkedRecord.journaled
  tmpRecordList : memory.tmpRecordList = tmp.map MarkedRecord.inMemory
  recordList : memory.recordList = rest.map MarkedRecord.inMemory
  front : ∀ e ∈ front, e.1 ≤ offset
  marked : Marked nodeId offset [] (tmp ++ rest)
  cut : ∀ p ∈ tmp, ∀ q ∈ rest, p.mark < q.own

structure Inv (nodeId : Nat) (s : ContainerState) : Prop where
  journal : OwnJournal s.journal
  node : ∀ e ∈ s.journal, (ofLex e.1).1 >>> 56 = nodeId
  fits : ∀ e ∈ s.journal, Fits ObjectRecord.name e.2
  applied : Applied nodeId s.journal s.info
  data : ∀ r ∈ s.info.file.data, Fits DataRecord.name r
  memory : ∃ front tmp rest,
    InMemory nodeId s.journal s.info.file.trailer.journalOffset s.memory front tmp rest
  flushed : s.flushed = true →
    ∀ e ∈ s.memory.tmpRecordList, e.1 ≤ s.info.file.trailer.journalOffset

/-- The journal and the offset up to which the file has it do not go back. -/
structure Keeps (nodeId : Nat) (s s' : ContainerState) : Prop where
  inv : Inv nodeId s'
  offset_le : s.info.file.trailer.journalOffset ≤ s'.info.file.trailer.journalOffset
  journal : s.journal <+: s'.journal

variable {getHash : String → String} {nodeId : Nat}
  {s s' : ContainerState}

theorem marked_nil (offset : JournalOffset) : Marked nodeId offset [] [] :=
  ⟨.nil, by simp, by simp, by simp, by simp⟩

theorem inv_start (metadata : Metadata) {offset : JournalOffset}
    (hnode : (ofLex offset).1 >>> 56 = nodeId) :
    Inv nodeId (start metadata offset) where
  journal := ⟨.nil, by simp [start]⟩
  node := by simp [start]
  fits := by simp [start]
  applied := applied_addContainer metadata hnode (by simp [start])
  data := fun r hr => by cases hr
  memory := ⟨[], [], [], rfl, rfl, rfl, by simp, marked_nil _, by simp⟩
  flushed := fun h => by cases h

/-- Records that are synchronized together. -/
def batch (records : RecordList) (syncOff : JournalOffset) : List MarkedRecord :=
  records.map fun e => ⟨e.1, syncOff, e.2⟩

theorem map_journaled_batch (records : RecordList) (syncOff : JournalOffset) :
    (batch records syncOff).map MarkedRecord.journaled = records := by
  rw [batch, List.map_map]
  exact List.map_id _

theorem marked_append_batch {offset syncOff : JournalOffset} {records : RecordList}
    {piece : List MarkedRecord} (h : Marked nodeId offset [] piece)
    (hnext : ComesNext nodeId s records syncOff)
    (hoffset : s.info.file.trailer.journalOffset = offset)
    (hmarks : ∀ p ∈ piece, ∀ e ∈ records, p.mark < e.1) :
    Marked nodeId offset [] (piece ++ batch records syncOff) := by
  have hmem : ∀ p ∈ piece ++ batch records syncOff,
      p ∈ piece ∨ ∃ e ∈ records, p = ⟨e.1, syncOff, e.2⟩ := by
    intro p hp
    rcases List.mem_append.mp hp with hin | hin
    · exact .inl hin
    · obtain ⟨e, he, rfl⟩ := List.mem_map.mp hin
      exact .inr ⟨e, he, rfl⟩
  refine ⟨List.pairwise_append.mpr ⟨h.increasing, ?_, fun p hp q hq => ?_⟩, ?_, ?_, ?_, by simp⟩
  · exact List.pairwise_map.mpr (List.pairwise_of_forall fun _ _ => le_rfl)
  · obtain ⟨e, he, rfl⟩ := List.mem_map.mp hq
    exact (hmarks p hp e he).le.trans (hnext.own e he).2
  all_goals
    intro p hp
    rcases hmem p hp with hin | ⟨e, he, rfl⟩
  · exact h.node p hin
  · exact hnext.sync
  · exact h.own_le p hin
  · exact (hnext.own e he).2
  · exact h.written p hin
  · intro hle
    exact absurd (hoffset ▸ hle) (hnext.file e he).not_ge

theorem Inv.addEntries (h : Inv nodeId s) {records : RecordList} {syncOff : JournalOffset}
    (hnext : ComesNext nodeId s records syncOff) : Keeps nodeId s { s with
      memory := s.memory.addRecords (records.map fun e => (syncOff, e.2))
      journal := s.journal ++ records } := by
  obtain ⟨hlist, htmp⟩ :=
    SecureObjectRecord.addRecords_lists s.memory (records.map fun e => (syncOff, e.2))
  refine ⟨⟨⟨?_, fun e he => ?_⟩, fun e he => ?_, fun e he => ?_, h.applied.extend hnext.file,
    h.data, ?_, ?_⟩, le_rfl, List.prefix_append _ _⟩
  · exact List.pairwise_append.mpr
      ⟨h.journal.increasing, hnext.increasing, fun e' he' e he => hnext.journal e he e' he'⟩
  · exact (List.mem_append.mp he).elim (h.journal.short e) fun hin => (hnext.fits e hin).short
  · exact (List.mem_append.mp he).elim (h.node e) fun hin => (hnext.own e hin).1
  · exact (List.mem_append.mp he).elim (h.fits e) (hnext.fits e)
  · obtain ⟨front, tmp, rest, hmemory⟩ := h.memory
    have hmarks : ∀ p ∈ tmp ++ rest, ∀ e ∈ records, p.mark < e.1 := by
      intro p hp e he
      apply hnext.memory e he p.inMemory
      rw [hmemory.tmpRecordList, hmemory.recordList, ← List.map_append]
      exact List.mem_map_of_mem hp
    refine ⟨front, tmp, rest ++ batch records syncOff, ⟨?_, ?_, ?_, hmemory.front, ?_, ?_⟩⟩
    · show s.journal ++ records = _
      have hall : (tmp ++ (rest ++ batch records syncOff)).map MarkedRecord.journaled =
          (tmp ++ rest).map MarkedRecord.journaled ++ records := by
        rw [← List.append_assoc, List.map_append, map_journaled_batch]
      rw [hall, hmemory.journal, List.append_assoc]
    · exact htmp.trans hmemory.tmpRecordList
    · show (s.memory.addRecords _).recordList = _
      rw [hlist, List.map_append, hmemory.recordList, batch, List.map_map]
      rfl
    · rw [← List.append_assoc]
      exact marked_append_batch hmemory.marked hnext rfl hmarks
    · intro p hp q hq
      rcases List.mem_append.mp hq with hin | hin
      · exact hmemory.cut p hp q hin
      · obtain ⟨e, he, rfl⟩ := List.mem_map.mp hin
        exact hmarks p (List.mem_append_left _ hp) e he
  · intro hflushed
    show ∀ e ∈ (s.memory.addRecords _).tmpRecordList, _
    rw [htmp]
    exact h.flushed hflushed

theorem Inv.withMemory (h : Inv nodeId s) {memory : SecureObjectRecord} {flushed : Bool}
    (hmemory : ∃ front tmp rest,
      InMemory nodeId s.journal s.info.file.trailer.journalOffset memory front tmp rest)
    (hflushed : flushed = true →
      ∀ e ∈ memory.tmpRecordList, e.1 ≤ s.info.file.trailer.journalOffset) :
    Keeps nodeId s { s with memory := memory, flushed := flushed } :=
  ⟨⟨h.journal, h.node, h.fits, h.applied, h.data, hmemory, hflushed⟩, le_rfl, List.prefix_refl _⟩

theorem Inv.getFlushRecords (h : Inv nodeId s)
    (hkept : s.flushed = true → s.memory.tmpRecordList ≠ []) :
    Keeps nodeId s { s with memory := s.memory.getFlushRecords } := by
  unfold SecureObjectRecord.getFlushRecords
  split
  next hempty =>
    have hnil : s.memory.tmpRecordList = [] := List.isEmpty_iff.mp hempty
    apply h.withMemory _ fun hflushed => absurd hnil (hkept hflushed)
    obtain ⟨front, tmp, rest, hmemory⟩ := h.memory
    obtain rfl : tmp = [] := List.map_eq_nil_iff.mp (hmemory.tmpRecordList.symm.trans hnil)
    refine ⟨front, rest, [], ⟨?_, hmemory.recordList, hmemory.tmpRecordList, hmemory.front, ?_,
      by simp⟩⟩
    · rw [List.append_nil]
      exact hmemory.journal
    · rw [List.append_nil]
      exact hmemory.marked
  -- the records are already being flushed
  next => exact h.withMemory h.memory h.flushed

theorem Inv.releaseFlushRecords (h : Inv nodeId s) (hflushed : s.flushed = true)
    (garbage : JournalOffset) : Keeps nodeId s { s with
      memory := s.memory.releaseFlushRecords garbage
      flushed := false } := by
  apply h.withMemory _ fun htrue => absurd htrue (by decide)
  obtain ⟨front, tmp, rest, hmemory⟩ := h.memory
  have hwritten := h.flushed hflushed
  rw [hmemory.tmpRecordList] at hwritten
  refine ⟨front ++ tmp.map MarkedRecord.journaled, [], rest, ⟨?_, rfl, hmemory.recordList,
    fun e he => ?_, hmemory.marked.of_append, by simp⟩⟩
  · rw [hmemory.journal, List.map_append, List.append_assoc]
    rfl
  · rcases List.mem_append.mp he with hin | hin
    · exact hmemory.front e hin
    · obtain ⟨p, hp, rfl⟩ := List.mem_map.mp hin
      exact (hmemory.marked.own_le p (List.mem_append_left _ hp)).trans
        (hwritten p.inMemory (List.mem_map_of_mem hp))

theorem Inv.recover (h : Inv nodeId s) {front records : RecordList}
    (hsplit : s.journal = front ++ records)
    (hfront : ∀ e ∈ front, e.1 ≤ s.info.file.trailer.journalOffset) (prevOff : JournalOffset) :
    Keeps nodeId s { s with
      memory := (⟨[], [], prevOff, 0⟩ : SecureObjectRecord).addRecords records
      flushed := false } := by
  apply h.withMemory _ fun htrue => absurd htrue (by decide)
  obtain ⟨hlist, htmp⟩ := SecureObjectRecord.addRecords_lists ⟨[], [], prevOff, 0⟩ records
  have hincreasing : records.Pairwise fun e e' => e.1 ≤ e'.1 := by
    have hall := h.journal.increasing
    rw [hsplit] at hall
    exact (List.pairwise_append.mp hall).2.1.imp fun hlt => hlt.le
  -- each record is marked with its own offset
  refine ⟨front, [], records.map fun e => ⟨e.1, e.1, e.2⟩, ⟨?_, htmp, ?_, hfront,
    ⟨List.pairwise_map.mpr hincreasing, ?_, ?_, ?_, by simp⟩, by simp⟩⟩
  · rw [List.nil_append, List.map_map, hsplit]
    exact congrArg (front ++ ·) (List.map_id _).symm
  · rw [hlist, List.map_map]
    exact (List.map_id _).symm
  all_goals
    intro p hp
    obtain ⟨e, he, rfl⟩ := List.mem_map.mp hp
  · apply h.node e
    rw [hsplit]
    exact List.mem_append_right _ he
  · exact le_rfl
  · exact id

/-- An operation on the file leaves it applied, and its names are those of the journal. -/
theorem Inv.data_of_step (h : Inv nodeId s) (operation : ContainerFile.Operation)
    {info : CountedFile} (hstep : s.info.step getHash operation = some info)
    (hrecords : ∀ e ∈ ContainerFile.handed operation, ∃ e' ∈ s.journal, e'.2 = e.2) :
    ∀ r ∈ info.file.data, Fits DataRecord.name r := by
  have hfits : ∀ e ∈ ContainerFile.handed operation, Fits ObjectRecord.name e.2 := by
    intro e he
    obtain ⟨e', he', hsame⟩ := hrecords e he
    exact hsame ▸ h.fits e' he'
  have hafter : s.info.file.SoundAfter (ContainerFile.handed operation) info.file :=
    h.applied.sound.step (fun e he => (hfits e he).short) (CountedFile.step_file hstep)
  intro r hr
  unfold Fits
  rcases hafter.names r hr with ⟨r', hr', hname⟩ | ⟨e, he, hname⟩
  · rw [← hname]
    exact h.data r' hr'
  · rw [← hname]
    exact hfits e he

theorem Inv.update (h : Inv nodeId s) (operation : ContainerFile.Operation) {info : CountedFile}
    (hstep : s.info.step getHash operation = some info)
    (hnext : FlushesNext nodeId s.journal s.info operation)
    (hnone : ContainerFile.handed operation = []) : Keeps nodeId s { s with info := info } := by
  have hadvanced := h.applied.step h.journal hnext hstep
  have hoffset : info.file.trailer.journalOffset = s.info.file.trailer.journalOffset := by
    rcases hadvanced.reached with hsame | ⟨e, he, -⟩
    · exact hsame
    · rw [hnone] at he
      cases he
  refine ⟨⟨h.journal, h.node, h.fits, hadvanced.applied, ?_, ?_, ?_⟩, hadvanced.offset_le,
    List.prefix_refl _⟩
  · exact h.data_of_step operation hstep (by simp [hnone])
  · show ∃ front tmp rest,
      InMemory nodeId s.journal info.file.trailer.journalOffset s.memory front tmp rest
    rw [hoffset]
    exact h.memory
  · show s.flushed = true → ∀ e ∈ s.memory.tmpRecordList, e.1 ≤ info.file.trailer.journalOffset
    rw [hoffset]
    exact h.flushed

/-- What a flush leaves in memory of its records has been written. -/
theorem Inv.flush (h : Inv nodeId s) (unknownStatus : Bool) :
    Keeps nodeId s (s.flush getHash nodeId unknownStatus) := by
  obtain ⟨front, tmp, rest, hmemory⟩ := h.memory
  have hpiece : s.journal = front ++ tmp.map MarkedRecord.journaled ++
      rest.map MarkedRecord.journaled := by
    rw [hmemory.journal, List.map_append, List.append_assoc]
  have hmarked : Marked nodeId s.info.file.trailer.journalOffset
      (rest.map MarkedRecord.journaled) tmp := by
    have hall := hmemory.marked
    refine ⟨(List.pairwise_append.mp hall.increasing).1,
      fun p hp => hall.node p (List.mem_append_left _ hp),
      fun p hp => hall.own_le p (List.mem_append_left _ hp),
      fun p hp => hall.written p (List.mem_append_left _ hp), fun p hp e he => ?_⟩
    obtain ⟨q, hq, rfl⟩ := List.mem_map.mp he
    exact hmemory.cut p hp q hq
  have hadvanced : Advanced nodeId s.journal s.memory.tmpRecordList
      s.info.file.trailer.journalOffset
        (s.flush getHash nodeId unknownStatus).info := by
    show Advanced nodeId s.journal s.memory.tmpRecordList _
      (s.info.flushContainer getHash nodeId unknownStatus s.memory.tmpRecordList)
    rw [hmemory.tmpRecordList]
    exact h.applied.flushContainer h.journal unknownStatus hpiece hmemory.front hmarked
  have hmem : ∀ e ∈ ContainerFile.handed
      (.flushContainer nodeId unknownStatus s.memory.tmpRecordList),
        ∃ e' ∈ s.journal, e'.2 = e.2 := by
    intro e he
    rw [ContainerFile.handed, hmemory.tmpRecordList] at he
    obtain ⟨p, hp, rfl⟩ := List.mem_map.mp he
    refine ⟨p.journaled, ?_, rfl⟩
    rw [hpiece]
    exact List.mem_append_left _ (List.mem_append_right _ (List.mem_map_of_mem hp))
  obtain ⟨old, new, hsplit, hdrop, hold, -⟩ :=
    dropWhile_le_eq MarkedRecord.mark tmp s.info.file.trailer.journalOffset
  have hleft : (s.flush getHash nodeId unknownStatus).memory.tmpRecordList =
      new.map MarkedRecord.inMemory := by
    have hoffset : (s.info.file.prepareFlush getHash
        s.memory.tmpRecordList.length).trailer.journalOffset =
          s.info.file.trailer.journalOffset := by
      rw [← CountedFile.file_prepareFlush, journalOffset_prepareFlush]
    show ContainerFile.flushRecords getHash _ nodeId unknownStatus s.memory.tmpRecordList = _
    rw [flushRecords_own unknownStatus _ (by rw [hoffset]; exact h.applied.node), hoffset,
      hmemory.tmpRecordList, dropWhile_inMemory, hdrop]
  have hwritten : ∀ p ∈ tmp, p.mark ≤
      (s.flush getHash nodeId unknownStatus).info.file.trailer.journalOffset := by
    intro p hp
    apply hadvanced.records_le p.inMemory
    rw [hmemory.tmpRecordList]
    exact List.mem_map_of_mem hp
  have hnew : ∀ p ∈ new, p ∈ tmp := fun p hp => hsplit ▸ List.mem_append_right _ hp
  have hmarks : Marked nodeId s.info.file.trailer.journalOffset [] (new ++ rest) := by
    have hall := hmemory.marked
    rw [hsplit, List.append_assoc] at hall
    exact hall.of_append
  refine ⟨⟨h.journal, h.node, h.fits, hadvanced.applied, ?_, ?_, fun _ e he => ?_⟩,
    hadvanced.offset_le, List.prefix_refl _⟩
  · exact h.data_of_step (.flushContainer nodeId unknownStatus s.memory.tmpRecordList) rfl hmem
  · refine ⟨front ++ old.map MarkedRecord.journaled, new, rest, ⟨?_, hleft, hmemory.recordList,
      fun e he => ?_, { hmarks with written := ?_ }, fun p hp => hmemory.cut p (hnew p hp)⟩⟩
    · show s.journal = _
      rw [hmemory.journal, hsplit, List.append_assoc old, List.map_append, List.append_assoc]
    · rcases List.mem_append.mp he with hin | hin
      · exact (hmemory.front e hin).trans hadvanced.offset_le
      · obtain ⟨p, hp, rfl⟩ := List.mem_map.mp hin
        have hp' : p ∈ tmp := hsplit ▸ List.mem_append_left _ hp
        exact (hmarked.own_le p hp').trans (hwritten p hp')
    · intro p hp hle
      rcases List.mem_append.mp hp with hin | hin
      · exact hwritten p (hnew p hin)
      -- what has come later is not in front of the new offset, if this is that of a record
      · rcases hadvanced.reached with hsame | ⟨e, he, hoffset⟩
        · rw [hsame] at hle ⊢
          exact hmarks.written p hp hle
        · rw [hmemory.tmpRecordList] at he
          obtain ⟨q, hq, rfl⟩ := List.mem_map.mp he
          exact absurd (hle.trans hoffset.le) (hmemory.cut q hq p hin).not_ge
  · rw [hleft] at he
    obtain ⟨p, hp, rfl⟩ := List.mem_map.mp he
    exact hwritten p (hnew p hp)

theorem Inv.step (h : Inv nodeId s) {action : Action} (hnext : Next nodeId s action)
    (hstep : s.step getHash nodeId action = some s') : Keeps nodeId s s' := by
  cases action with
  | addEntries records syncOff =>
    obtain rfl := Option.some.inj hstep
    exact h.addEntries hnext
  | getFlushRecords =>
    obtain rfl := Option.some.inj hstep
    exact h.getFlushRecords hnext
  | flushContainer unknownStatus =>
    obtain rfl := Option.some.inj hstep
    exact h.flush unknownStatus
  | releaseFlushRecords garbage =>
    obtain rfl := Option.some.inj hstep
    exact h.releaseFlushRecords hnext garbage
  | compaction numRecord =>
    obtain rfl := Option.some.inj hstep
    exact h.update (.compaction numRecord) rfl trivial rfl
  | setContainerStat new =>
    obtain ⟨info, hinfo, rfl⟩ := Option.map_eq_some_iff.mp hstep
    exact h.update (.setContainerStat new) hinfo trivial rfl
  | recover prevOff records =>
    obtain rfl := Option.some.inj hstep
    obtain ⟨front, hsplit, hfront⟩ := hnext
    exact h.recover hsplit hfront prevOff

theorem Inv.run (h : Inv nodeId s) {actions : List Action}
    (hnext : Along (ContainerState.step getHash nodeId) (Next nodeId) s actions)
    (hrun : Library.run (ContainerState.step getHash nodeId) s actions = some s') :
    Keeps nodeId s s' := by
  induction actions generalizing s with
  | nil =>
    obtain rfl := Option.some.inj hrun
    exact ⟨h, le_rfl, List.prefix_refl _⟩
  | cons action actions ih =>
    obtain ⟨s₁, hstep, hrest⟩ := Option.bind_eq_some_iff.mp hrun
    have hone := h.step hnext.1 hstep
    have hall := ih hone.inv (hnext.2 s₁ hstep) hrest
    exact ⟨hall.inv, hone.offset_le.trans hall.offset_le, hone.journal.trans hall.journal⟩

/-! ### Listings -/

theorem front_isPrefix {front u back rest : RecordList} {offset : JournalOffset}
    (hfront : ∀ e ∈ front, e.1 ≤ offset) (hback : ∀ e ∈ back, offset < e.1)
    (heq : front ++ rest = u ++ back) : front <+: u := by
  rcases List.append_eq_append_iff.mp heq with ⟨more, rfl, -⟩ | ⟨more, rfl, rfl⟩
  · exact List.prefix_append front more
  · have hnil : more = [] := by
      apply List.eq_nil_iff_forall_not_mem.mpr
      intro e he
      have hle : e.1 ≤ offset := hfront e (List.mem_append_right _ he)
      have hlt : offset < e.1 := hback e (List.mem_append_left _ he)
      exact absurd hle hlt.not_ge
    rw [hnil, List.append_nil]

/-- A name is shown as it was at some moment between the one when the memory was read and the one
when the file was read. -/
theorem Inv.shown_between {s₁ s₂ : ContainerState} (h₁ : Inv nodeId s₁) (h : Keeps nodeId s₁ s₂)
    (name : String) : ∃ more, s₁.journal ++ more <+: s₂.journal ∧
      s₂.info.file.shown s₁.memory.getListRecords name =
        (ObjectMap.ofJournal (s₁.journal ++ more)).lookup name := by
  obtain ⟨front, tmp, rest, hlists⟩ := h₁.memory
  have hsplit := hlists.journal
  have hmemory : s₁.memory.getListRecords.map dataRecord =
      ((tmp ++ rest).map MarkedRecord.journaled).map fun e => dataRecord e.2 := by
    rw [SecureObjectRecord.getListRecords, hlists.tmpRecordList, hlists.recordList,
      ← List.map_append, List.map_map, List.map_map, List.map_map]
    rfl
  generalize (tmp ++ rest).map MarkedRecord.journaled = records at hsplit hmemory
  rw [h.inv.applied.objects.shown_eq, hmemory]
  cases hfind : (records.map fun e => dataRecord e.2).reverse.find? fun r => r.name = name with
  | some r =>
    -- the memory has the last record of the name
    refine ⟨[], by rw [List.append_nil]; exact h.journal, ?_⟩
    rw [List.append_nil, hsplit, ObjectMap.lookup_ofJournal_append, hfind]
    rfl
  | none =>
    obtain ⟨back, hback, hlater⟩ := exists_eq_upTo_append h.inv.journal.increasing
      s₂.info.file.trailer.journalOffset
    generalize upTo s₂.journal s₂.info.file.trailer.journalOffset = u at hback
    have hu : u <+: s₂.journal := ⟨back, hback.symm⟩
    rcases List.prefix_or_prefix_of_prefix h.journal hu with ⟨more, hmore⟩ | ⟨more, hmore⟩
    · refine ⟨more, by rwa [hmore], ?_⟩
      rw [hmore]
      rfl
    · -- what the file lacks of the journal is in memory and is not about the name
      refine ⟨[], by rw [List.append_nil]; exact h.journal, ?_⟩
      obtain ⟨later, hlate⟩ := h.journal
      obtain ⟨flushed, rfl⟩ : front <+: u := by
        have heq : front ++ (records ++ later) = u ++ back := by
          rw [← List.append_assoc, ← hsplit, hlate, hback]
        exact front_isPrefix (fun e he => (hlists.front e he).trans h.offset_le) hlater heq
      have hparts : records = flushed ++ more := by
        rw [hsplit, List.append_assoc] at hmore
        exact (List.append_cancel_left hmore).symm
      have hnone : ((flushed.map fun e => dataRecord e.2).reverse.find? fun r => r.name = name) =
          none := by
        rw [hparts, List.map_append, List.reverse_append, List.find?_append,
          Option.or_eq_none_iff] at hfind
        exact hfind.2
      rw [List.append_nil, hsplit, ObjectMap.lookup_ofJournal_append,
        ObjectMap.lookup_ofJournal_append, hfind, hnone]
      rfl

variable {metadata : Metadata} {offset : JournalOffset} {before during : List Action}
  {s₁ s₂ : ContainerState} {marker namePrefix : Bytes}

/-- A listing that reads the memory and, later, the file returns the first entries of objects each
of which is as the journal had it at some moment from the one to the other. -/
theorem list_between (hnode : (ofLex offset).1 >>> 56 = nodeId)
    (hnext : Along (step getHash nodeId) (Next nodeId)
      (start metadata offset) (before ++ during))
    (hbefore : Library.run (step getHash nodeId) (start metadata offset)
      before = some s₁)
    (hduring : Library.run (step getHash nodeId) s₁ during = some s₂)
    (hskip : s₂.info.file.SkipsWithin marker namePrefix) (count : Nat)
    (endMarker delimiter : Bytes) : ∃ records entries live,
      s₂.info.file.getObjectList s₁.memory.getListRecords count marker endMarker namePrefix
        delimiter = some records ∧
      ObjectEntries live marker endMarker namePrefix delimiter entries ∧
      records.map (fun r => (r.name, r.size)) =
        (counted count entries).map (fun r => (r.name, r.size)) ∧
      ∀ name, ∃ more, s₁.journal ++ more <+: s₂.journal ∧
        live name = (ObjectMap.ofJournal (s₁.journal ++ more)).lookup name := by
  obtain ⟨hfirst, hsecond⟩ := (along_append _ _ _ _).mp hnext
  have hinv : Inv nodeId s₁ := ((inv_start metadata hnode).run hfirst hbefore).inv
  have hkeeps : Keeps nodeId s₁ s₂ := hinv.run (hsecond s₁ hbefore) hduring
  have hmemory : ∀ r ∈ s₁.memory.getListRecords, Fits ObjectRecord.name r := by
    intro r hr
    obtain ⟨e, he, rfl⟩ := List.mem_map.mp hr
    obtain ⟨front, tmp, rest, hlists⟩ := hinv.memory
    rw [hlists.tmpRecordList, hlists.recordList, ← List.map_append] at he
    obtain ⟨p, hp, rfl⟩ := List.mem_map.mp he
    apply hinv.fits p.journaled
    rw [hlists.journal]
    exact List.mem_append_right _ (List.mem_map_of_mem hp)
  obtain ⟨records, entries, hlisted, hentries, hrecords⟩ :=
    hkeeps.inv.applied.sound.getObjectList hkeeps.inv.data hmemory hskip count endMarker delimiter
  exact ⟨records, entries, _, hlisted, hentries, hrecords, hinv.shown_between hkeeps⟩

/-- Between the two readings the records in memory are flushed, and the object is written again. -/
theorem list_between_flushed : ∃ s₁ s₂,
    Library.run (step id 1) (start ∅ (toLex (1 <<< 56, 0)))
      [.addEntries [upload] upload.1, .getFlushRecords] = some s₁ ∧
    Library.run (step id 1) s₁ [.flushContainer false,
      .addEntries [overwrite] overwrite.1, .releaseFlushRecords (toLex (0, 0))] = some s₂ ∧
    ∃ records entries live,
      s₂.info.file.getObjectList s₁.memory.getListRecords 0 [] [] [] [] = some records ∧
      ObjectEntries live [] [] [] [] entries ∧
      records.map (fun r => (r.name, r.size)) =
        (counted 0 entries).map (fun r => (r.name, r.size)) ∧
      ∀ name, ∃ more, s₁.journal ++ more <+: s₂.journal ∧
        live name = (ObjectMap.ofJournal (s₁.journal ++ more)).lookup name := by
  have hname : ∀ e ∈ [upload, overwrite], Fits ObjectRecord.name e.2 := fun e he => by
    rcases List.mem_pair.mp he with rfl | rfl <;> exact ⟨by decide +kernel, by decide +kernel⟩
  have hnext : Along (step id 1) (Next 1)
      (start ∅ (toLex (1 <<< 56, 0)))
      ([.addEntries [upload] upload.1, .getFlushRecords] ++ [.flushContainer false,
        .addEntries [overwrite] overwrite.1, .releaseFlushRecords (toLex (0, 0))]) := by
    refine ⟨⟨by decide, by decide, by decide, by decide, by decide, by decide,
      fun e he => hname e (List.mem_singleton.mp he ▸ List.mem_cons_self)⟩, fun s hs => ?_⟩
    obtain rfl := Option.some.inj hs
    refine ⟨fun hflushed => absurd hflushed (by decide), fun s hs => ?_⟩
    obtain rfl := Option.some.inj hs
    refine ⟨trivial, fun s hs => ?_⟩
    obtain rfl := Option.some.inj hs
    refine ⟨⟨by decide, by decide, by decide, by decide, by decide, by decide,
      fun e he => hname e (List.mem_cons_of_mem _ he)⟩, fun s hs => ?_⟩
    obtain rfl := Option.some.inj hs
    exact ⟨rfl, fun _ _ => trivial⟩
  refine ⟨_, _, rfl, rfl, ?_⟩
  exact list_between (by decide) hnext rfl rfl (ContainerFile.skipsWithin_of_few (by decide) [] [])
    0 [] []

end ContainerState

end ObjectStorage.InfoFile
