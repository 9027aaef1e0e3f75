import ObjectStorage.Journal.WriteHandler
import ObjectStorage.Transaction.RecordCodec
import ObjectStorage.Transaction.SnapshotRecovery

/-!
The service over the bytes of its journal file, with the checkpoints and rotations that the sizes
call for. It refines the service over records, and a file that is not longer than the checkpoint
interval has neither checkpoints nor padding.
-/

namespace ObjectStorage.Transaction

open Std Library SharedExclusive Journal TransactionLockManager

def Record.isCheckpoint : Record → Bool
  | .checkpointRecord _ _ => true
  | _ => false

/-- What `TransactionWriteHandler` keeps. -/
structure TransactionJournal where
  lastTransactionId : Int
  writer : JournalWriteHandler Record

/-- `write` with the hooks of `TransactionWriteHandler`. -/
def TransactionJournal.write (stream : ObjectStream) (config : JournalConfig)
    (journal : TransactionJournal) (memory : TransactionLockManager) (record : Record) :
    TransactionJournal where
  lastTransactionId :=
    match record with
    | .openRecord active => active.transactionId
    | _ => journal.lastTransactionId
  writer := journal.writer.write (Record.encode stream) config
    (.snapshotHeaderRecord journal.lastTransactionId 1 ::
      (memoryRecords memory.memMap).map .openRecord)
    (.checkpointRecord journal.lastTransactionId memory.getActiveIdList) record

/-- The service with the bytes of its journal. -/
structure JournaledImpl where
  memory : TransactionLockManager
  queue : List Record
  journal : TransactionJournal

inductive JournaledStep where
  | call (c : Call)
  | write
deriving DecidableEq

namespace JournaledImpl

def init (config : JournalConfig) (nodeId fileId : Nat) : JournaledImpl :=
  ⟨.init nodeId, [], ⟨0, .openFile config fileId⟩⟩

def step (osdConfig : Bool) (stream : ObjectStream) (config : JournalConfig) (s : JournaledImpl) :
    JournaledStep → Option JournaledImpl
  | .call c => (s.memory.call osdConfig c).map fun (record?, memory) =>
      { s with memory := memory, queue := s.queue ++ record?.toList }
  | .write =>
      match s.queue with
      | [] => none
      | record :: queue =>
          some { s with
            queue := queue
            journal := s.journal.write stream config s.memory record }

/-- The segments of the file in use. -/
def file (s : JournaledImpl) : List (Segment Record) := s.journal.writer.file

/-- The service over records that this state stands for. -/
def abstract (s : JournaledImpl) : TransactionImpl where
  memory := s.memory
  queue := s.queue
  writer := ⟨s.journal.lastTransactionId, (fileRecords s.file).filter (!·.isCheckpoint)⟩

end JournaledImpl

/-! ### The shape of a file -/

/-- A file in use starts with a snapshot header, and as long as it is not longer than the checkpoint
interval it is made of records only, none of them a checkpoint. -/
structure WellFormed (encode : Record → Bytes) (config : JournalConfig)
    (w : JournalWriteHandler Record) : Prop where
  header : w.file ≠ [] → ∃ last version rest,
    w.file = .record (.snapshotHeaderRecord last version) :: rest
  short : (fileBytes encode w.file).length ≤ config.checkpointInterval →
    w.nextCheckpointOffset = config.checkpointInterval ∧
      ∃ records : List Record, w.file = records.map .record ∧ ∀ r ∈ records, ¬ r.isCheckpoint

variable {encode : Record → Bytes} {config : JournalConfig} {w : JournalWriteHandler Record}

theorem WellFormed.isEmpty_iff (h : WellFormed encode config w) :
    (fileBytes encode w.file).length = 0 ↔ w.file = [] := by
  constructor
  · intro hlength
    refine Classical.byContradiction fun hne => ?_
    obtain ⟨last, version, rest, hfile⟩ := h.header hne
    have hpos := length_pos_of_mem encode (hfile ▸ List.mem_cons_self)
    omega
  · intro hfile
    rw [hfile]
    rfl

theorem length_fileBytes_append_record (encode : Record → Bytes) (file : List (Segment Record))
    (record : Record) : (fileBytes encode (file ++ [.record record])).length =
      (fileBytes encode file).length + frameSize (encode record) := by
  rw [fileBytes_append, List.length_append, fileBytes_cons_record, List.length_append,
    length_frame]
  rfl

theorem length_fileBytes_append_padding (encode : Record → Bytes) (file : List (Segment Record))
    (count : Nat) : (fileBytes encode (file ++ [.padding count])).length =
      (fileBytes encode file).length + count := by
  have hpadding : (fileBytes encode [.padding count]).length = count := by
    simp [fileBytes, Segment.bytes]
  rw [fileBytes_append, List.length_append, hpadding]

theorem wellFormed_startFile (w : JournalWriteHandler Record) (last version : Int)
    (opens : List ActiveRecord) : WellFormed encode config
      (w.startFile config (.snapshotHeaderRecord last version :: opens.map .openRecord)) where
  header _ := ⟨last, version, _, rfl⟩
  short _ := by
    refine ⟨rfl, _, rfl, fun r hr => ?_⟩
    rcases List.mem_cons.mp hr with rfl | hr
    · simp [Record.isCheckpoint]
    · obtain ⟨active, -, rfl⟩ := List.mem_map.mp hr
      simp [Record.isCheckpoint]

theorem WellFormed.append (h : WellFormed encode config w) (hne : w.file ≠ []) {record : Record}
    (hrecord : ¬ record.isCheckpoint) :
    WellFormed encode config { w with file := w.file ++ [.record record] } where
  header _ := by
    obtain ⟨last, version, rest, hfile⟩ := h.header hne
    exact ⟨last, version, rest ++ [.record record], by rw [hfile]; rfl⟩
  short hlength := by
    have hold := length_fileBytes_append_record encode w.file record
    obtain ⟨hnext, records, hfile, hnot⟩ := h.short (by simp only at hlength; omega)
    refine ⟨hnext, records ++ [record], by simp [hfile], fun r hr => ?_⟩
    rcases List.mem_append.mp hr with hr | hr
    · exact hnot r hr
    · rwa [List.mem_singleton.mp hr]

theorem WellFormed.checkpoint (h : WellFormed encode config w) (hne : w.file ≠ [])
    (checkpoint : Record) : WellFormed encode config
      { w with
        file := w.file ++
          [.padding (w.nextCheckpointOffset - (fileBytes encode w.file).length).toNat,
            .record checkpoint]
        nextCheckpointOffset := w.nextCheckpointOffset + config.checkpointInterval } where
  header _ := by
    obtain ⟨last, version, rest, hfile⟩ := h.header hne
    exact ⟨last, version, _, by rw [hfile]; rfl⟩
  short hlength := by
    have hsixteen := headerSize_add_footerSize_le (encode checkpoint)
    have hgrown : (fileBytes encode (w.file ++
        [.padding (w.nextCheckpointOffset - (fileBytes encode w.file).length).toNat,
          .record checkpoint])).length = (fileBytes encode w.file).length +
        (w.nextCheckpointOffset - (fileBytes encode w.file).length).toNat +
        frameSize (encode checkpoint) := by
      rw [List.append_cons, length_fileBytes_append_record, length_fileBytes_append_padding]
    simp only [hgrown] at hlength
    have hnext := (h.short (by omega)).1
    omega

theorem WellFormed.write (h : WellFormed encode config w) (last version : Int)
    (opens : List ActiveRecord) (checkpoint : Record) {record : Record}
    (hrecord : ¬ record.isCheckpoint) : WellFormed encode config (w.write encode config
      (.snapshotHeaderRecord last version :: opens.map .openRecord) checkpoint record) := by
  have hprepared : WellFormed encode config (w.prepareFile encode config
      (.snapshotHeaderRecord last version :: opens.map .openRecord) checkpoint record) ∧
      (w.prepareFile encode config (.snapshotHeaderRecord last version :: opens.map .openRecord)
        checkpoint record).file ≠ [] := by
    unfold JournalWriteHandler.prepareFile
    by_cases hempty : (fileBytes encode w.file).length = 0
    · rw [if_pos hempty]
      exact ⟨wellFormed_startFile w last version opens, by simp [JournalWriteHandler.startFile]⟩
    · have hne : w.file ≠ [] := mt h.isEmpty_iff.mpr hempty
      rw [if_neg hempty]
      split
      · exact ⟨wellFormed_startFile _ last version opens, by simp [JournalWriteHandler.startFile]⟩
      · split
        · exact ⟨h.checkpoint hne checkpoint, by simp [hne]⟩
        · exact ⟨h, hne⟩
  exact hprepared.1.append hprepared.2 hrecord

/-! ### Refinement -/

namespace JournaledImpl

variable {osdConfig : Bool} {stream : ObjectStream} {s s' : JournaledImpl}

theorem filter_snapshot (last version : Int) (opens : List ActiveRecord) {record : Record}
    (hrecord : ¬ record.isCheckpoint) :
    (fileRecords ((Record.snapshotHeaderRecord last version ::
      opens.map Record.openRecord).map Segment.record ++ [.record record])).filter
        (!·.isCheckpoint) =
      (.snapshotHeaderRecord last version :: opens.map .openRecord) ++ [record] := by
  have hone : fileRecords [Segment.record record] = [record] := rfl
  rw [fileRecords_append, fileRecords_map_record, hone, List.filter_eq_self]
  intro r hr
  rcases List.mem_append.mp hr with hr | hr
  · rcases List.mem_cons.mp hr with rfl | hr
    · rfl
    · obtain ⟨active, -, rfl⟩ := List.mem_map.mp hr
      rfl
  · rw [List.mem_singleton.mp hr]
    simpa using hrecord

theorem filter_append_record (file : List (Segment Record)) {record : Record}
    (hrecord : ¬ record.isCheckpoint) :
    (fileRecords (file ++ [.record record])).filter (!·.isCheckpoint) =
      (fileRecords file).filter (!·.isCheckpoint) ++ [record] := by
  rw [fileRecords_append, List.filter_append]
  congr 1
  simp [fileRecords, hrecord]

theorem filter_checkpoint (file : List (Segment Record)) (count : Nat) (last : Int)
    (ids : List Int) : (fileRecords (file ++
      [.padding count, .record (.checkpointRecord last ids)])).filter (!·.isCheckpoint) =
      (fileRecords file).filter (!·.isCheckpoint) := by
  rw [fileRecords_append, List.filter_append]
  simp [fileRecords, Record.isCheckpoint]

/-- The write of one record is the write of the service over records that rotates alike. -/
theorem step_write_refines (hfile : WellFormed (Record.encode stream) config s.journal.writer)
    (hqueue : ∀ r ∈ s.queue, ¬ r.isCheckpoint)
    (hstep : s.step osdConfig stream config .write = some s') :
    ∃ rotate, s.abstract.step osdConfig (.write rotate) = some s'.abstract := by
  unfold step at hstep
  cases hrecords : s.queue with
  | nil => simp [hrecords] at hstep
  | cons record queue =>
      have hrecord : ¬ record.isCheckpoint := hqueue record (hrecords ▸ List.mem_cons_self)
      simp only [hrecords, Option.some.injEq] at hstep
      subst hstep
      refine ⟨decide (s.journal.writer.rotates (Record.encode stream) config record), ?_⟩
      have hstart : s.abstract.step osdConfig
          (.write (decide (s.journal.writer.rotates (Record.encode stream) config record))) =
          some { s.abstract with
            queue := queue
            writer := (if s.abstract.writer.file.isEmpty ∨
                s.journal.writer.rotates (Record.encode stream) config record then
                s.abstract.writer.processSnapshot s.memory.memMap
              else s.abstract.writer).processWrite record } := by
        simp [TransactionImpl.step, abstract, hrecords]
      rw [hstart, Option.some.injEq]
      have hwriter : ∀ w : TransactionWriteHandler,
          w.lastTransactionId = s.journal.lastTransactionId →
          w.file ++ [record] = (fileRecords
            (s.journal.write stream config s.memory record).writer.file).filter
              (!·.isCheckpoint) →
          ({ s.abstract with queue := queue, writer := w.processWrite record } : TransactionImpl) =
            abstract { s with
              queue := queue
              journal := s.journal.write stream config s.memory record } := by
        intro w hlast hw
        simp only [abstract, TransactionImpl.mk.injEq, true_and, file,
          TransactionWriteHandler.processWrite, TransactionWriteHandler.mk.injEq]
        refine ⟨?_, hw⟩
        cases record <;> simp [TransactionJournal.write, hlast]
      by_cases hempty : (fileBytes (Record.encode stream) s.journal.writer.file).length = 0
      · have hnil : s.journal.writer.file = [] := hfile.isEmpty_iff.mp hempty
        have hnew : s.abstract.writer.file.isEmpty ∨
            s.journal.writer.rotates (Record.encode stream) config record := by
          left
          simp [abstract, file, hnil, fileRecords]
        rw [if_pos hnew]
        refine hwriter _ rfl ?_
        simp only [TransactionJournal.write, JournalWriteHandler.write,
          JournalWriteHandler.prepareFile, if_pos hempty, JournalWriteHandler.startFile]
        exact (filter_snapshot _ _ _ hrecord).symm
      · by_cases hrotates : s.journal.writer.rotates (Record.encode stream) config record
        · rw [if_pos (Or.inr hrotates)]
          refine hwriter _ rfl ?_
          simp only [TransactionJournal.write, JournalWriteHandler.write,
            JournalWriteHandler.prepareFile, if_neg hempty, if_pos hrotates,
            JournalWriteHandler.startFile]
          exact (filter_snapshot _ _ _ hrecord).symm
        · obtain ⟨last, version, rest, hheader⟩ := hfile.header (mt hfile.isEmpty_iff.mpr hempty)
          have hold : ¬(s.abstract.writer.file.isEmpty ∨
              s.journal.writer.rotates (Record.encode stream) config record) := by
            simp [hrotates, abstract, file, hheader, fileRecords, Record.isCheckpoint]
          rw [if_neg hold]
          refine hwriter _ rfl ?_
          simp only [TransactionJournal.write, JournalWriteHandler.write,
            JournalWriteHandler.prepareFile, if_neg hempty, if_neg hrotates]
          split
          · rw [filter_append_record _ hrecord, filter_checkpoint]
            rfl
          · rw [filter_append_record _ hrecord]
            rfl

theorem step_write_wellFormed
    (hfile : WellFormed (Record.encode stream) config s.journal.writer)
    (hqueue : ∀ r ∈ s.queue, ¬ r.isCheckpoint)
    (hstep : s.step osdConfig stream config .write = some s') :
    WellFormed (Record.encode stream) config s'.journal.writer := by
  unfold step at hstep
  cases hrecords : s.queue with
  | nil => simp [hrecords] at hstep
  | cons record queue =>
      simp only [hrecords, Option.some.injEq] at hstep
      subst hstep
      exact hfile.write _ _ _ _ (hqueue record (hrecords ▸ List.mem_cons_self))

theorem step_call_refines {c : Call}
    (hstep : s.step osdConfig stream config (.call c) = some s') :
    s.abstract.step osdConfig (.call c) = some s'.abstract ∧ s'.journal = s.journal := by
  obtain ⟨⟨record?, memory⟩, hcall, rfl⟩ := Option.map_eq_some_iff.mp hstep
  have hcall' : s.abstract.memory.call osdConfig c = some (record?, memory) := hcall
  exact ⟨by rw [TransactionImpl.step, hcall']; rfl, rfl⟩

theorem Reports.not_isCheckpoint {records : List Record} {es : List (Event Int String)}
    (h : List.Forall₂ Reports records es) : ∀ r ∈ records, ¬ r.isCheckpoint := by
  intro r hr
  obtain ⟨i, hi, rfl⟩ := List.mem_iff_getElem.mp hr
  have hreport := h.get hi (h.length_eq ▸ hi)
  rw [List.get_eq_getElem] at hreport
  cases hrecord : records[i] with
  | checkpointRecord last ids =>
      rw [hrecord] at hreport
      cases hreport
  | _ => simp [Record.isCheckpoint]

/-- Every run over bytes is a run over records, and leaves a file of the right shape. -/
theorem run_refines {nodeId fileId : Nat} {steps : List JournaledStep}
    (hrun : run (step osdConfig stream config) (init config nodeId fileId) steps = some s) :
    (∃ steps', run (TransactionImpl.step osdConfig) (TransactionImpl.init nodeId) steps' =
      some s.abstract) ∧ WellFormed (Record.encode stream) config s.journal.writer := by
  refine run_preserves (step osdConfig stream config) (I := fun s =>
    (∃ steps', run (TransactionImpl.step osdConfig) (TransactionImpl.init nodeId) steps' =
      some s.abstract) ∧ WellFormed (Record.encode stream) config s.journal.writer) ?_ ?_ hrun
  · rintro s a s' ⟨⟨steps', hsteps'⟩, hfile⟩ hstep
    cases a with
    | call c =>
        obtain ⟨hcall, hjournal⟩ := step_call_refines hstep
        exact ⟨⟨steps' ++ [.call c], by rw [run_append, hsteps']; simpa using hcall⟩,
          hjournal ▸ hfile⟩
    | write =>
        obtain ⟨written, queued, -, hreports⟩ := TransactionImpl.run_serves hsteps'
        have hqueue := Reports.not_isCheckpoint hreports
        obtain ⟨rotate, hwrite⟩ := step_write_refines hfile hqueue hstep
        exact ⟨⟨steps' ++ [.write rotate], by rw [run_append, hsteps']; simpa using hwrite⟩,
          step_write_wellFormed hfile hqueue hstep⟩
  · exact ⟨⟨[], rfl⟩, fun hne => absurd rfl hne, fun _ => ⟨rfl, [], rfl, by simp⟩⟩

end JournaledImpl

end ObjectStorage.Transaction
