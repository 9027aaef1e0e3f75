import ObjectStorage.Transaction.IssuedIds
import ObjectStorage.Transaction.JournalDirectory

/-!
Crashes and restarts of a node. What the disk holds is always the newest file with the records that
are durable, except when a crash cuts a snapshot; and from such a file recovery rebuilds the locks
of its records as long as the reader gets through it and takes every record as it is told.
-/

namespace ObjectStorage.Transaction

open Std Library SharedExclusive Journal TransactionLockManager JournalDisk

variable {osdConfig : Bool} {stream : ObjectStream} {config : JournalConfig}

/-! ### What a write does to the disk -/

/-- What a change adds to what has been written. -/
def DiskOp.extend (written : List (Segment Record)) : DiskOp → List (Segment Record)
  | .pad _ count => written ++ [.padding count]
  | .store _ records =>
      if isSnapshot records then records.map .record else written ++ records.map .record
  | .create _ => written
  | .remove _ => written

theorem written_applyAll (disk : JournalDisk) (ops : List DiskOp) :
    (disk.applyAll stream ops).written = ops.foldl DiskOp.extend disk.written := by
  induction ops generalizing disk with
  | nil => rfl
  | cons op ops ih =>
      rw [applyAll_cons, ih, List.foldl_cons]
      congr 1
      cases op with
      | store fileId records =>
          rw [JournalDisk.apply, DiskOp.extend]
          split <;> rfl
      | _ => rfl

theorem foldl_extend_remove (ids : List Nat) (written : List (Segment Record)) :
    (ids.map DiskOp.remove).foldl DiskOp.extend written = written := by
  induction ids with
  | nil => rfl
  | cons m ids ih => exact ih

namespace TransactionJournal

variable {journal : TransactionJournal} {memory : TransactionLockManager} {record : Record}

/-- A file in use starts with a snapshot header. -/
def InUse (journal : TransactionJournal) : Prop :=
  ∃ last rest, journal.writer.file = .record (.snapshotHeaderRecord last 1) :: rest

theorem InUse.length_ne_zero (h : InUse journal) :
    (fileBytes (Record.encode stream) journal.writer.file).length ≠ 0 := by
  obtain ⟨last, rest, hfile⟩ := h
  have hin : .record (.snapshotHeaderRecord last 1) ∈ journal.writer.file :=
    hfile ▸ List.mem_cons_self
  exact (length_pos_of_mem (Record.encode stream) hin).ne'

theorem writeOps_chain (h : InUse journal) (hrecord : ¬ record.isSnapshotHeader) :
    Chain journal.writer.activeFileId (journal.writeOps stream config memory record)
      (journal.write stream config memory record).writer.activeFileId := by
  have hoffset : (fileBytes (Record.encode stream) journal.writer.file).length ≠ 0 :=
    h.length_ne_zero
  simp only [writeOps, TransactionJournal.write, JournalWriteHandler.write,
    JournalWriteHandler.prepareFile, if_neg hoffset]
  split
  · refine .pad (.create (Nat.succ_pos _) (.snapshot (Nat.lt_succ_self _) ?_))
    refine Chain.removes (fun m hm => ?_) (.store hrecord .done)
    rw [List.mem_range'_1] at hm
    omega
  · split
    · exact .pad (.store (by simp [Record.isSnapshotHeader]) (.store hrecord .done))
    · exact .store hrecord .done

theorem writeOps_extend (h : InUse journal) (hrecord : ¬ record.isSnapshotHeader) :
    (journal.writeOps stream config memory record).foldl DiskOp.extend journal.writer.file =
      (journal.write stream config memory record).writer.file := by
  have hoffset : (fileBytes (Record.encode stream) journal.writer.file).length ≠ 0 :=
    h.length_ne_zero
  have hlast : ∀ fileId written, DiskOp.extend written (.store fileId [record]) =
      written ++ [.record record] := fun fileId written => if_neg hrecord
  simp only [writeOps, TransactionJournal.write, JournalWriteHandler.write,
    JournalWriteHandler.prepareFile, if_neg hoffset]
  split
  · simp only [List.foldl_cons, List.cons_append, List.foldl_append, removeOldFiles,
      foldl_extend_remove, List.foldl_nil, hlast]
    rfl
  · split
    · simp only [List.foldl_cons, List.foldl_nil, hlast]
      simp [DiskOp.extend, isSnapshot, Record.isSnapshotHeader]
    · simp only [List.foldl_cons, List.foldl_nil, hlast]

end TransactionJournal

/-- The disk of a node that runs: the newest file is the one in use, with what the writer wrote. -/
structure Runs (stream : ObjectStream) (disk : JournalDisk) (s : JournaledImpl) : Prop where
  newest : Newest stream disk s.journal.writer.activeFileId
  torn : disk.torn = none
  written : disk.written = s.file
  queue : ∀ record ∈ s.queue, ¬ record.isSnapshotHeader

namespace Runs

variable {disk : JournalDisk} {s s' : JournaledImpl}

theorem inUse (h : Runs stream disk s) : TransactionJournal.InUse s.journal := by
  obtain ⟨last, rest, hheader⟩ := h.newest.header
  have hfile : disk.written = s.journal.writer.file := h.written
  exact ⟨last, rest, hfile.symm.trans hheader⟩

theorem write (h : Runs stream disk s) (hstep : s.step osdConfig stream config .write = some s') :
    Runs stream (disk.applyAll stream (s.writeOps stream config)) s' := by
  simp only [JournaledImpl.step] at hstep
  cases hqueue : s.queue with
  | nil => simp [hqueue] at hstep
  | cons record queue =>
      simp only [hqueue, Option.some.injEq] at hstep
      subst hstep
      have hrecord := h.queue record (hqueue ▸ List.mem_cons_self)
      have hops : s.writeOps stream config = s.journal.writeOps stream config s.memory record := by
        rw [JournaledImpl.writeOps, hqueue]
      have hchain : Chain _ (s.journal.writeOps stream config s.memory record) _ :=
        TransactionJournal.writeOps_chain h.inUse hrecord
      obtain ⟨hnewest, htorn⟩ := hchain.applyAll h.newest h.torn
      rw [hops]
      refine ⟨hnewest, htorn, ?_, fun r hr => h.queue r (hqueue ▸ List.mem_cons_of_mem _ hr)⟩
      rw [written_applyAll, h.written]
      exact TransactionJournal.writeOps_extend h.inUse hrecord

theorem crashWriting (h : Runs stream disk s) (hqueue : s.queue ≠ []) {done count : Nat}
    (hcut : ¬ CutsSnapshot (s.writeOps stream config) done count) :
    Rests stream (disk.crashed stream (s.writeOps stream config) done count) := by
  cases hhead : s.queue with
  | nil => exact absurd hhead hqueue
  | cons record queue =>
      have hrecord := h.queue record (hhead ▸ List.mem_cons_self)
      have hops : s.writeOps stream config = s.journal.writeOps stream config s.memory record := by
        rw [JournaledImpl.writeOps, hhead]
      rw [hops] at hcut ⊢
      exact .inr ((TransactionJournal.writeOps_chain h.inUse hrecord).crashed h.newest h.torn hcut)

end Runs

/-! ### What finishing a recovery does to the disk -/

namespace FinishRecovery

variable {disk : JournalDisk} {ids : JournalFileIds} {memory : TransactionLockManager}

/-- The next file is behind all others with contents. -/
structure Ready (stream : ObjectStream) (disk : JournalDisk) (ids : JournalFileIds) : Prop where
  rests : Rests stream disk
  free : FreeFrom disk ids.nextFileId
  behind : ids.latestFileId < ids.nextFileId

theorem Ready.create (h : Ready stream disk ids) :
    Ready stream (disk.apply stream (.create ids.nextFileId)) ids where
  rests := by
    rcases h.rests with hblank | ⟨n, hnewest⟩
    · exact .inl (hblank.create h.free.1)
    · exact .inr ⟨n, hnewest.create h.free.1⟩
  free := by
    obtain ⟨hpos, hpositive, hfree⟩ := h.free
    refine ⟨hpos, fun k old hk => ?_, fun k old hk hle => ?_⟩
    · rcases getElem?_insertIfNew_eq_some.mp hk with hk | ⟨-, rfl, -⟩
      · exact hpositive k old hk
      · exact hpos
    · rcases getElem?_insertIfNew_eq_some.mp hk with hk | ⟨-, -, rfl⟩
      · exact hfree k old hk hle
      · rfl
  behind := h.behind

theorem Ready.removes (h : Ready stream disk ids) :
    Chain ids.nextFileId (ids.cleaned.map .remove) ids.nextFileId := by
  have hbehind := h.behind
  have hchain : Chain ids.nextFileId (ids.cleaned.map .remove ++ []) ids.nextFileId :=
    Chain.removes (fun m hm => by have := mem_cleaned hm; omega) .done
  rwa [List.append_nil] at hchain

theorem Ready.applyAll (h : Ready stream disk ids) (memory : TransactionLockManager) :
    Newest stream (disk.applyAll stream (finishRecovery ids memory)) ids.nextFileId ∧
      (disk.applyAll stream (finishRecovery ids memory)).torn = none ∧
      (disk.applyAll stream (finishRecovery ids memory)).written =
        (snapshotRecords 0 memory).map .record := by
  obtain ⟨hnewest, htorn⟩ := h.removes.applyAll h.create.free.snapshot rfl
  refine ⟨hnewest, htorn, ?_⟩
  rw [written_applyAll, finishRecovery, List.foldl_cons, List.foldl_cons, foldl_extend_remove]
  rfl

/-- Whatever the point of the crash, unless it cuts the snapshot. -/
theorem Ready.crashed (h : Ready stream disk ids) {done count : Nat}
    (hcut : ¬ (done = 1 ∧ 0 < count)) :
    Rests stream (disk.crashed stream (finishRecovery ids memory) done count) := by
  rw [finishRecovery]
  match done with
  | 0 => exact h.rests
  | 1 =>
      obtain rfl : count = 0 := Nat.eq_zero_of_not_pos fun hpos => hcut ⟨rfl, hpos⟩
      rw [crashed_succ, crashed_zero, snapshotRecords, tear_snapshot]
      rcases h.create.rests with hblank | ⟨n, hnewest⟩
      · exact .inl (hblank.appendNothing h.free.1)
      · have hlt : n < ids.nextFileId := by
          refine Nat.lt_of_not_le fun hle => hnewest.contents_ne_nil ?_
          exact h.create.free.2.2 n _ hnewest.file hle
        exact .inr ⟨n, hnewest.appendNothing hlt⟩
  | done + 2 =>
      rw [crashed_succ, crashed_succ]
      refine .inr (h.removes.crashed h.create.free.snapshot rfl ?_)
      rintro ⟨-, fileId, records, hop, -⟩
      obtain ⟨m, -, hremove⟩ := List.mem_map.mp (List.mem_of_getElem? hop)
      cases hremove

end FinishRecovery

/-! ### What recovery rebuilds -/

theorem Record.event_asRead (record : Record) : (record.asRead stream).event? = record.event? := by
  cases record with
  | openRecord active =>
      rw [Record.asRead]
      split <;> rfl
  | _ => rfl

theorem mem_map_asRead {records : List Record} {active : ActiveRecord}
    (h : .openRecord active ∈ records.map (Record.asRead stream)) :
    ∃ active', .openRecord active' ∈ records ∧ active'.transactionId = active.transactionId ∧
      active'.objectName = active.objectName ∧ active'.operation = active.operation := by
  obtain ⟨record, hin, hread⟩ := List.mem_map.mp h
  cases record with
  | openRecord active' =>
      rw [Record.asRead] at hread
      split at hread
      · obtain rfl := Record.openRecord.inj hread
        exact ⟨active', hin, rfl, rfl, rfl⟩
      · obtain rfl := Record.openRecord.inj hread
        exact ⟨active', hin, rfl, rfl, rfl⟩
  | _ => cases hread

theorem Coherent.asRead {records : List Record} (h : Coherent records) :
    Coherent (records.map (Record.asRead stream)) where
  known active hin := by
    obtain ⟨active', hin', hid, -, hoperation⟩ := mem_map_asRead hin
    rw [← hid, ← hoperation]
    exact h.known active' hin'
  single active₁ active₂ hin₁ hin₂ hsame := by
    obtain ⟨active₁', hin₁', hid₁, hname₁, hoperation₁⟩ := mem_map_asRead hin₁
    obtain ⟨active₂', hin₂', hid₂, hname₂, hoperation₂⟩ := mem_map_asRead hin₂
    rw [← hname₁, ← hname₂, ← hoperation₁, ← hoperation₂]
    exact h.single active₁' active₂' hin₁' hin₂' (hid₁.trans (hsame.trans hid₂.symm))

theorem recordEvents_asRead (records : List Record) :
    recordEvents (records.map (Record.asRead stream)) = recordEvents records := by
  rw [recordEvents, List.filterMap_map]
  exact congrArg (fun f => List.filterMap f records) (funext Record.event_asRead)

namespace JournalDisk

/-- The records of the newest file, each with the padding in front of it, and the cut one. -/
def fileEntries (disk : JournalDisk) : List (Nat × Record) :=
  entriesOf 0 (disk.written ++ (disk.torn.map (·.1)).toList.map .record)

/-- The newest file is read up to its end, and every record is taken as it is told. -/
structure Recoverable (stream : ObjectStream) (config : JournalConfig) (disk : JournalDisk) :
    Prop where
  short : (disk.contents stream).length ≤ config.checkpointInterval
  tells : Tells (disk.contents stream).length
  types : ∀ entry ∈ disk.fileEntries, entry.2.FitsTypes
  fits : JournalReadHandler.BufferState.blank.Fits (Record.encode stream) 0 disk.fileEntries
    (disk.contents stream).length
  coherent : Coherent disk.durable
  replayable : Replayed.Replayable capacity ∅ (recordEvents disk.durable)

variable {disk : JournalDisk} {n : Nat}

theorem Newest.tornBytes_length (h : Newest stream disk n) :
    ∀ record ∈ disk.torn.map (·.1),
      (tornBytes stream disk.torn).length < frameSize (Record.encode stream record) := by
  intro record hrecord
  obtain ⟨⟨r, count⟩, htorn, rfl⟩ := Option.map_eq_some_iff.mp hrecord
  have hcut := h.cut r count htorn
  rw [htorn, tornBytes, List.length_take]
  exact (Nat.min_le_left _ _).trans_lt hcut

theorem tornBytes_of_none (h : disk.torn.map (·.1) = none) :
    (tornBytes stream disk.torn).length = 0 := by
  rw [Option.map_eq_none_iff.mp h]
  rfl

theorem contents_eq_take (stream : ObjectStream) (disk : JournalDisk) : disk.contents stream =
    (layout (Record.encode stream) disk.fileEntries
      (trailingOf 0 (disk.written ++ (disk.torn.map (·.1)).toList.map .record))).take
        (disk.contents stream).length := by
  rw [fileEntries, layout_entriesOf, List.replicate_zero, List.nil_append, fileBytes_append]
  cases htorn : disk.torn with
  | none => simp [contents, htorn, tornBytes, fileBytes]
  | some cut =>
      obtain ⟨record, count⟩ := cut
      simp only [contents, htorn, tornBytes, List.length_append, List.length_take, Option.map_some,
        Option.toList_some, List.map_cons, List.map_nil, fileBytes_cons_record]
      rw [List.take_append, List.take_of_length_le (Nat.le_add_right _ _), Nat.add_sub_cancel_left]
      congr 1
      have hnil : fileBytes (Record.encode stream) [] = [] := rfl
      rw [hnil, List.append_nil, List.take_eq_take_iff]
      omega

theorem Newest.truncate (h : Newest stream disk n) {torn : Option (Record × Nat)}
    (htorn : tornBytes stream torn = [])
    (hcut : ∀ record count, torn = some (record, count) →
      count < frameSize (Record.encode stream record)) :
    Newest stream { disk with
      files := disk.files.insert n (fileBytes (Record.encode stream) disk.written)
      torn := torn } n where
  positive m old hm := by
    simp only [getElem?_insert_eq] at hm
    split at hm
    · rename_i hn
      exact hn ▸ h.positive n _ h.file
    · exact h.positive m old hm
  newer m old hm hlt := by
    simp only [getElem?_insert_eq, if_neg hlt.ne] at hm
    exact h.newer m old hm hlt
  file := by
    simp only [getElem?_insert_eq, if_pos, contents, htorn, List.append_nil]
  header := h.header
  cut := hcut

theorem Newest.readJournal (h : Newest stream disk n) (hlawful : stream.Lawful)
    (hpos : 0 < config.checkpointInterval) (hrec : Recoverable stream config disk) (nodeId : Nat) :
    ∃ records, TransactionRecovery.readJournal stream config nodeId n (disk.contents stream) =
        some ⟨.init nodeId n, records, fileBytes (Record.encode stream) disk.written⟩ ∧
      records.map (·.record) = disk.durable.map (Record.asRead stream) := by
  obtain ⟨last, rest, hheader⟩ := h.header
  have hentries : disk.fileEntries = (0, .snapshotHeaderRecord last 1) ::
      entriesOf 0 (rest ++ (disk.torn.map (·.1)).toList.map .record) := by
    rw [fileEntries, hheader]
    rfl
  have hcontents := contents_eq_take stream disk
  have hcomplete := complete_entriesOf n 0 0 disk.written (disk.torn.map (·.1)) h.tornBytes_length
    tornBytes_of_none
  rw [Nat.zero_add, ← fileEntries, ← List.length_append, ← contents] at hcomplete
  obtain ⟨hrecords, hcut⟩ := hcomplete
  have hlength : (disk.contents stream).length ≤
      (layout (Record.encode stream) disk.fileEntries
        (trailingOf 0 (disk.written ++ (disk.torn.map (·.1)).toList.map .record))).length := by
    have htake := congrArg List.length hcontents
    rw [List.length_take] at htake
    omega
  have htypes := hrec.types
  have hfits := hrec.fits
  -- the header is complete
  have hfirst : frameSize (Record.encode stream (.snapshotHeaderRecord last 1)) ≤
      (disk.contents stream).length := by
    rw [contents, hheader, fileBytes_cons_record, List.length_append, List.length_append,
      length_frame]
    omega
  have hwritten : (layout (Record.encode stream) disk.fileEntries
      (trailingOf 0 (disk.written ++ (disk.torn.map (·.1)).toList.map .record))).take
        (fileBytes (Record.encode stream) disk.written).length =
      fileBytes (Record.encode stream) disk.written := by
    rw [fileEntries, layout_entriesOf, List.replicate_zero, List.nil_append, fileBytes_append,
      List.take_left]
  rw [hentries] at hcontents hlength htypes hfits hrecords hcut hwritten
  have hlast : FitsInt64 last := (htypes _ List.mem_cons_self).1
  have hread := TransactionRecovery.readJournal_layout hlawful nodeId n hpos hlast
    (fun entry hentry => htypes entry (List.mem_cons_of_mem _ hentry)) hlength hrec.short
    hrec.tells hfirst hfits
  rw [← hcontents, hcut, hwritten] at hread
  refine ⟨_, hread, ?_⟩
  rw [durable, ← hrecords, List.map_map, List.map_map]
  rfl

end JournalDisk

end ObjectStorage.Transaction
