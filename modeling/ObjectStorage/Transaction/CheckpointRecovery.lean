import ObjectStorage.Journal.ReadHandler
import ObjectStorage.Transaction.JournalFile

/-!
`TransactionRecovery::perform_recovery` on one journal file: the snapshot is looked at, the last
checkpoint is looked for at a multiple of the interval, and then the file is read to its end from
where the file handler stands. Behind a checkpoint that is the end of the chunk that was read for
it.
-/

namespace ObjectStorage.Transaction

open Std Library SharedExclusive Journal TransactionLockManager

/-- `get_journal_version`, one for all records but snapshot headers. -/
def Record.journalVersion : Record → Int
  | .snapshotHeaderRecord _ journalVersion => journalVersion
  | _ => 1

/-- The state of `TransactionReadHandler` with its reader. -/
structure TransactionRecovery where
  reader : JournalReadHandler
  handler : TransactionReadHandler
  checkpointInterval : Int
  journalVersion : Int

namespace TransactionRecovery

variable (osdConfig : Bool) (stream : ObjectStream)

/-- The handler for a file and an empty lock table. -/
def start (config : JournalConfig) (nodeId fileId : Nat) (bytes : Bytes) : TransactionRecovery where
  reader :=
    { file := bytes
      position := 0
      buffer := List.replicate maxReadChunkSize 0
      current := 0
      restSize := 0
      fileId := fileId
      fileOffset := 0
      endOfFile := false }
  handler := .init nodeId fileId
  checkpointInterval := config.checkpointInterval
  journalVersion := 0

/-- `recover_snapshot` with `process_snapshot`, which tells the journal version from the size of the
first record and goes back to the start of the file. -/
def recoverSnapshot (t : TransactionRecovery) : Option TransactionRecovery :=
  let reader := { t.reader with position := 0 }.prepareReadRecord
  (reader.getNextJournalRecord (Record.decode stream)).map fun (found?, reader) =>
    match found? with
    | none => { t with
        reader := { reader with position := 0 }
        journalVersion := 0
        checkpointInterval := 5242880 }
    | some (record, _, size) =>
        if size ≤ 28 then { t with
          reader := { reader with position := 0 }
          journalVersion := 0
          checkpointInterval := 5242880 }
        else { t with
          reader := { reader with position := 0 }
          journalVersion := record.journalVersion }

/-- `recover_last_checkpoint` with `process_last_checkpoint`. They call each other again when no
record can be read, which may have cut the file; the fuel bounds these calls. A record of another
type is cast to a null pointer. -/
def recoverLastCheckpoint : Nat → TransactionRecovery → Option TransactionRecovery
  | 0, _ => none
  | fuel + 1, t =>
      t.reader.getEndOffset.bind fun (length, reader) =>
        let offset := (length - 1).tdiv t.checkpointInterval * t.checkpointInterval
        let t := { t with
          reader := reader
          handler := { t.handler with
            lastCheckpointOffset := toLex (reader.fileId, offset.toNat) } }
        if offset ≤ 0 then some t
        else
          let interval := if t.journalVersion = 0 then 5242880 else t.checkpointInterval
          (reader.seek offset).bind fun reader =>
            match reader.prepareReadRecord.getNextJournalRecord (Record.decode stream) with
            | none => none
            | some (none, reader) =>
                recoverLastCheckpoint fuel
                  { t with reader := reader, checkpointInterval := interval }
            | some (some (.checkpointRecord lastTransactionId idList, _, _), reader) =>
                some { t with
                  reader := reader
                  checkpointInterval := interval
                  handler := { t.handler with
                    memory := t.handler.memory.setLastTransactionId lastTransactionId
                    activeIdList := idList } }
            | some (some _, _) => none

/-- The loop of `recover_journal_till_eof`. The fuel bounds the number of records. -/
def recoverLoop : Nat → JournalReadHandler → TransactionReadHandler →
    Option TransactionReadHandler
  | 0, _, _ => none
  | fuel + 1, reader, handler =>
      match reader.getNextJournalRecord (Record.decode stream) with
      | none => none
      | some (none, _) => some handler
      | some (some (record, offset, size), reader) =>
          (handler.recoverObjects osdConfig ⟨record, offset, size⟩).bind fun handler =>
            recoverLoop fuel reader handler

def recoverJournalTillEof (t : TransactionRecovery) : Option TransactionReadHandler :=
  recoverLoop osdConfig stream (t.reader.file.length + 1) t.reader.prepareReadRecord t.handler

/-- `perform_recovery` up to its last step, which gives up the components of other nodes. -/
def performRecovery (config : JournalConfig) (nodeId fileId : Nat) (bytes : Bytes) :
    Option TransactionReadHandler :=
  (recoverSnapshot stream (start config nodeId fileId bytes)).bind fun t =>
    (recoverLastCheckpoint stream (t.reader.file.length + 1) t).bind fun t =>
      recoverJournalTillEof osdConfig stream t

end TransactionRecovery

/-- The records of a file with the places where they are. -/
def placeRecords (encode : Record → Bytes) (fileId : Nat) :
    Nat → List (Segment Record) → List PlacedRecord
  | _, [] => []
  | offset, .record record :: file =>
      ⟨record, toLex (fileId, offset), frameSize (encode record)⟩ ::
        placeRecords encode fileId (offset + frameSize (encode record)) file
  | offset, .padding count :: file => placeRecords encode fileId (offset + count) file

variable {osdConfig : Bool} {stream : ObjectStream} {config : JournalConfig}

/-! ### Replaying all records -/

theorem placeRecords_record (encode : Record → Bytes) (fileId offset : Nat)
    (file : List (Segment Record)) :
    (placeRecords encode fileId offset file).map (·.record) = fileRecords file := by
  induction file generalizing offset with
  | nil => rfl
  | cons segment file ih =>
      cases segment with
      | record r =>
          have hrest := ih (offset + frameSize (encode r))
          exact congrArg (r :: ·) hrest
      | padding count => exact ih (offset + count)

theorem placeRecords_not_before (encode : Record → Bytes) (fileId offset : Nat)
    (file : List (Segment Record)) :
    ∀ p ∈ placeRecords encode fileId offset file, ¬ p.offset < toLex (fileId, 0) := by
  induction file generalizing offset with
  | nil => simp [placeRecords]
  | cons segment file ih =>
      cases segment with
      | record r =>
          intro p hp
          rcases List.mem_cons.mp hp with rfl | hp
          · simp [Prod.Lex.toLex_lt_toLex]
          · exact ih _ p hp
      | padding count => exact ih (offset + count)

theorem recoverRecords_filter (h : TransactionReadHandler) (placed : List PlacedRecord) :
    h.recoverRecords osdConfig placed =
      h.recoverRecords osdConfig (placed.filter (!·.record.isCheckpoint)) := by
  induction placed generalizing h with
  | nil => rfl
  | cons p placed ih =>
      cases hp : p.record.isCheckpoint with
      | true =>
          have hsame : h.recoverObjects osdConfig p = some h := by
            obtain ⟨record, offset, size⟩ := p
            cases record with
            | checkpointRecord last ids => rfl
            | _ => simp [Record.isCheckpoint] at hp
          rw [List.filter_cons_of_neg (by simp [hp]), ← ih]
          simp [TransactionReadHandler.recoverRecords, hsame]
      | false =>
          rw [List.filter_cons_of_pos (by simp [hp])]
          simp only [TransactionReadHandler.recoverRecords, List.foldlM_cons]
          congr 1
          funext h'
          exact ih h'

/-- The locks that the events acquire are acquired in the history. -/
def Within (es history : List (Event Int String)) : Prop :=
  ∀ t l, .acquired t l ∈ es → .acquired t l ∈ history

/-- The file starts with the snapshot of an earlier lock table; what follows it, and what is queued,
reports events of the history. -/
structure FileHistory (osdConfig : Bool) (s : TransactionImpl)
    (history : List (Event Int String)) : Prop where
  serves : Serves osdConfig s.memory history
  queue : ∃ es, List.Forall₂ Reports s.queue es ∧ Within es history
  file : s.writer.file ≠ [] → ∃ (m : TransactionLockManager) (w : TransactionWriteHandler)
    (es : List (Event Int String)) (records : List Record) (es' : List (Event Int String)),
    Serves osdConfig m es ∧ Within es history ∧
      s.writer.file = w.snapshotRecords m.memMap ++ records ∧
      List.Forall₂ Reports records es' ∧ Within es' history

theorem run_fileHistory {nodeId : Nat} {steps : List ServiceStep} {s : TransactionImpl}
    (hrun : run (TransactionImpl.step osdConfig) (TransactionImpl.init nodeId) steps = some s) :
    ∃ history, FileHistory osdConfig s history := by
  refine run_preserves (TransactionImpl.step osdConfig)
    (I := fun s => ∃ history, FileHistory osdConfig s history) ?_
    ⟨[], serves_init nodeId, ⟨[], .nil, fun t l h => h⟩, fun hne => absurd rfl hne⟩ hrun
  rintro s a s' ⟨history, hserves, ⟨queued, hqueue, hqueued⟩, hfile⟩ hstep
  cases a with
  | call c =>
      obtain ⟨record?, e?, hreport, -, hserves', hqueue', hwriter⟩ :=
        TransactionImpl.step_call hserves hstep
      have hgrow : ∀ {es : List (Event Int String)}, Within es history →
          Within es (history ++ e?.toList) :=
        fun h t l hin => List.mem_append_left _ (h t l hin)
      refine ⟨history ++ e?.toList, hserves', ⟨queued ++ e?.toList, ?_, fun t l hin => ?_⟩,
        fun hne => ?_⟩
      · rw [hqueue']
        exact List.rel_append hqueue (forall₂_toList hreport)
      · rcases List.mem_append.mp hin with hin | hin
        · exact List.mem_append_left _ (hqueued t l hin)
        · exact List.mem_append_right _ hin
      · rw [hwriter] at hne
        obtain ⟨m, w, es, records, es', hm, hes, hwritten, hrecords, hes'⟩ := hfile hne
        exact ⟨m, w, es, records, es', hm, hgrow hes, hwriter ▸ hwritten, hrecords, hgrow hes'⟩
  | write rotate =>
      obtain ⟨record, hhead, hmemory, hwritten⟩ := TransactionImpl.step_write hstep
      rw [hhead] at hqueue
      cases hqueue with
      | @cons _ e _ rest hr hrest =>
          have hone : Within [e] history := fun t l hin =>
            hqueued t l (List.mem_cons.mpr (Or.inl (List.mem_singleton.mp hin)))
          refine ⟨history, hmemory ▸ hserves,
            ⟨rest, hrest, fun t l hin => hqueued t l (List.mem_cons_of_mem _ hin)⟩, fun _ => ?_⟩
          by_cases hnew : s.writer.file.isEmpty ∨ rotate
          · rw [if_pos hnew] at hwritten
            exact ⟨s.memory, s.writer, history, [record], [e], hserves, fun t l hin => hin,
              hwritten, .cons hr .nil, hone⟩
          · rw [if_neg hnew] at hwritten
            have hne : s.writer.file ≠ [] := fun hnil => hnew (Or.inl (by simp [hnil]))
            obtain ⟨m, w, es, records, es', hm, hes, hold, hrecords, hes'⟩ := hfile hne
            refine ⟨m, w, es, records ++ [record], es' ++ [e], hm, hes, ?_,
              List.rel_append hrecords (.cons hr .nil), fun t l hin => ?_⟩
            · rw [hwritten, hold, List.append_assoc]
            · rcases List.mem_append.mp hin with hin | hin
              · exact hes' t l hin
              · exact hone t l hin

theorem FileHistory.recoverRecords {s : TransactionImpl} {history : List (Event Int String)}
    (h : FileHistory osdConfig s history) (hfile : s.writer.file ≠ []) (nodeId fileId : Nat)
    {placed : List PlacedRecord}
    (hplaced : (placed.map (·.record)).filter (!·.isCheckpoint) = s.writer.file)
    (hoffset : ∀ p ∈ placed, ¬ p.offset < toLex (fileId, 0)) :
    ∃ h', (TransactionReadHandler.init nodeId fileId).recoverRecords osdConfig placed =
      some h' := by
  obtain ⟨m, w, es, records, es', hm, hes, hwritten, hrecords, hes'⟩ := h.file hfile
  have hmap : (placed.filter (!·.record.isCheckpoint)).map (·.record) =
      w.snapshotRecords m.memMap ++ records := by
    rw [← hwritten, ← hplaced, List.filter_map]
    rfl
  rw [recoverRecords_filter]
  have hoffset' : ∀ p ∈ placed.filter (!·.record.isCheckpoint),
      ¬ p.offset < toLex (fileId, 0) := fun p hp => hoffset p (List.mem_of_mem_filter hp)
  generalize placed.filter (!·.record.isCheckpoint) = kept at hmap hoffset'
  cases kept with
  | nil => simp [TransactionWriteHandler.snapshotRecords] at hmap
  | cons p kept =>
      obtain ⟨hheader, hrest⟩ := List.cons.inj hmap
      have hheader : p.record = .snapshotHeaderRecord w.lastTransactionId 1 := hheader
      have hids : ∀ t ∈ acquiredIds history, t ≠ 0 := fun t ht => (h.serves.ids t ht).1.ne'
      have hfrom : ∀ t l, .acquired t l ∈ snapshotEvents m.memMap ++ es' →
          .acquired t l ∈ history := by
        intro t l hin
        rcases List.mem_append.mp hin with hin | hin
        · exact hes t l (hm.acquired_of_snapshot hin)
        · exact hes' t l hin
      obtain ⟨h', hrun, -⟩ := TransactionReadHandler.recoverRecords_represents
        (h := { TransactionReadHandler.init nodeId fileId with
          memory := (TransactionLockManager.init nodeId).setLastTransactionId
            w.lastTransactionId })
        ((represents_init nodeId).setLastTransactionId _)
        (by rw [hrest]; exact List.rel_append hm.represents.reports_snapshot hrecords)
        (fun q hq => hoffset' q (List.mem_cons_of_mem _ hq)) h.serves.nodup hids hfrom
        (fun t l hentry => by rcases hentry with hl | hl <;> simp [Replayed.start] at hl)
      have hfirst : (TransactionReadHandler.init nodeId fileId).recoverObjects osdConfig p =
          some { TransactionReadHandler.init nodeId fileId with
            memory := (TransactionLockManager.init nodeId).setLastTransactionId
              w.lastTransactionId } := by
        rw [TransactionReadHandler.recoverObjects, hheader]
        rfl
      refine ⟨h', ?_⟩
      rw [TransactionReadHandler.recoverRecords, List.foldlM_cons, hfirst]
      exact hrun

/-! ### Recovery from the bytes -/

namespace TransactionRecovery

open JournalReadHandler

variable {h : TransactionReadHandler} {r : JournalReadHandler} {record : Record}

/-- What a short open record has lost is not looked at. -/
theorem recoverObjects_asRead (h : TransactionReadHandler) (record : Record)
    (offset : JournalOffset) :
    h.recoverObjects osdConfig
        ⟨record.asRead stream, offset, frameSize (record.encode stream)⟩ =
      h.recoverObjects osdConfig ⟨record, offset, frameSize (record.encode stream)⟩ := by
  cases record with
  | openRecord active =>
      by_cases hshort : (Record.encode stream (.openRecord active)).length < 174
      · have hsmall : ¬ ((frameSize (Record.encode stream (.openRecord active)) : Nat) : Int) - 16 ≥
            174 := by
          unfold frameSize headerSize footerSize
          omega
        have hsame : TransactionReadHandler.recoveredRecord { active with time := 0 }
              (frameSize (Record.encode stream (.openRecord active))) =
            TransactionReadHandler.recoveredRecord active
              (frameSize (Record.encode stream (.openRecord active))) := by
          unfold TransactionReadHandler.recoveredRecord
          rw [if_neg hsmall, if_neg hsmall]
        have hread : Record.asRead stream (.openRecord active) =
            .openRecord { active with time := 0 } := if_pos hshort
        rw [hread]
        unfold TransactionReadHandler.recoverObjects
        simp only [hsame]
      · have hread : Record.asRead stream (.openRecord active) = .openRecord active :=
          if_neg hshort
        rw [hread]
  | _ => rfl

/-- Each record that is read is the one that was written. -/
structure Readable (stream : ObjectStream) (record : Record) : Prop where
  fits : record.FitsTypes
  small : frameSize (record.encode stream) ≤ recordsReadChunkSize

instance (stream : ObjectStream) : DecidablePred (Readable stream) := fun record =>
  decidable_of_iff (record.FitsTypes ∧ frameSize (record.encode stream) ≤ recordsReadChunkSize)
    ⟨fun h => ⟨h.1, h.2⟩, fun h => ⟨h.fits, h.small⟩⟩

theorem recoverLoop_records (hlawful : stream.Lawful) {records : List Record}
    (hreads : ReadsAt r (fileBytes (Record.encode stream) (records.map .record)))
    (hsize : r.file.length < 2 ^ 31)
    (hfront : records = [] → HeaderInFront r.buffer)
    (hreadable : ∀ record ∈ records, Readable stream record) {n : Nat}
    (hfuel : records.length < n) :
    recoverLoop osdConfig stream n r h = h.recoverRecords osdConfig
      (placeRecords (Record.encode stream) r.fileId r.fileOffset (records.map .record)) := by
  induction records generalizing r h n with
  | nil =>
      obtain ⟨r', hnext⟩ := ReadsAt.finish (Record.decode stream) hreads (hreads.tells hsize)
        (hfront rfl)
      cases n with
      | zero => simp at hfuel
      | succ n =>
          rw [recoverLoop, hnext]
          rfl
  | cons record records ih =>
      obtain ⟨hfits, hsmall⟩ := hreadable record List.mem_cons_self
      obtain ⟨r', hnext, hreads', hfront', hfile, hid, hoffset, -⟩ :=
        ReadsAt.next hreads (hreads.tells hsize) hsmall (Record.decode_encode hlawful hfits)
      cases n with
      | zero => simp at hfuel
      | succ n =>
          rw [recoverLoop, hnext]
          simp only [recoverObjects_asRead, List.map_cons, placeRecords,
            TransactionReadHandler.recoverRecords, List.foldlM_cons, Option.bind_eq_bind]
          congr 1
          funext h'
          have hrest := ih (h := h') (n := n) hreads' (hfile ▸ hsize) (fun _ => hfront')
            (fun record hin => hreadable record (List.mem_cons_of_mem _ hin))
            (by simpa using hfuel)
          rw [hrest, hid, hoffset]
          rfl

/-- The first record of a file is large enough to carry a version, and the reader is back at the
start. -/
theorem recoverSnapshot_start (hlawful : stream.Lawful) (config : JournalConfig)
    (nodeId fileId : Nat) {last : Int} (hlast : FitsInt64 last) {bytes tail : Bytes}
    (hbytes : bytes = frame (Record.encode stream (.snapshotHeaderRecord last 1)) ++ tail) :
    ∃ r, recoverSnapshot stream (start config nodeId fileId bytes) =
        some { start config nodeId fileId bytes with reader := r, journalVersion := 1 } ∧
      r.file = bytes ∧ r.position = 0 ∧ r.fileId = fileId := by
  have hsize : frameSize (Record.encode stream (.snapshotHeaderRecord last 1)) = 36 := by
    rw [frameSize, Record.length_encode_header hlawful]
    rfl
  have hone : FitsInt64 1 := by decide
  have hreads := readsAt_prepareReadRecord { (start config nodeId fileId bytes).reader with
    position := 0 } (Nat.zero_le _)
  have hreads : ReadsAt { (start config nodeId fileId bytes).reader with
      position := 0 }.prepareReadRecord
      (frame (Record.encode stream (.snapshotHeaderRecord last 1)) ++ tail) := hbytes ▸ hreads
  obtain ⟨r', hnext, -, -, hfile, hid, -⟩ := ReadsAt.next hreads
    (tells_of_lt (show 0 < 2 ^ 31 by decide)) (by rw [hsize]; decide)
    (Record.decode_encode hlawful ⟨hlast, hone⟩)
  refine ⟨{ r' with position := 0 }, ?_, hfile, rfl, hid⟩
  have hlarge : ¬ frameSize (Record.encode stream (.snapshotHeaderRecord last 1)) ≤ 28 := by
    rw [hsize]
    decide
  rw [recoverSnapshot, hnext, Option.map_some]
  simp only [if_neg hlarge]
  rfl

/-- The offset at which the last checkpoint is looked for. -/
def checkpointOffset (config : JournalConfig) (bytes : Bytes) : Nat :=
  (bytes.length - 1) / config.checkpointInterval * config.checkpointInterval

theorem checkpointOffset_eq (config : JournalConfig) {bytes : Bytes} (hne : 0 < bytes.length) :
    ((bytes.length : Int) - 1).tdiv config.checkpointInterval * config.checkpointInterval =
      checkpointOffset config bytes := by
  have hcast : (bytes.length : Int) - 1 = ((bytes.length - 1 : Nat) : Int) := by omega
  rw [hcast, checkpointOffset, Int.natCast_mul]
  rfl

theorem checkpointOffset_eq_zero {bytes : Bytes} (hpos : 0 < config.checkpointInterval)
    (hshort : bytes.length ≤ config.checkpointInterval) : checkpointOffset config bytes = 0 := by
  rw [checkpointOffset, Nat.div_eq_of_lt (by omega), Nat.zero_mul]

theorem length_le_fileBytes (encode : Record → Bytes) (records : List Record) :
    records.length ≤ (fileBytes encode (records.map .record)).length := by
  induction records with
  | nil => exact Nat.zero_le _
  | cons record records ih =>
      have hsixteen := headerSize_add_footerSize_le (encode record)
      rw [List.map_cons, fileBytes_cons_record, List.length_append, length_frame, List.length_cons]
      omega

/-- A file that is not longer than the interval is read from its start to its end. -/
theorem performRecovery_short (hlawful : stream.Lawful) (nodeId fileId : Nat) {last : Int}
    {records : List Record} (hpos : 0 < config.checkpointInterval)
    (hreadable : ∀ record ∈ .snapshotHeaderRecord last 1 :: records, Readable stream record)
    {file : List (Segment Record)}
    (hfile : file = (.snapshotHeaderRecord last 1 :: records).map .record)
    (hsize : (fileBytes (Record.encode stream) file).length < 2 ^ 31)
    (hshort : (fileBytes (Record.encode stream) file).length ≤ config.checkpointInterval) :
    performRecovery osdConfig stream config nodeId fileId (fileBytes (Record.encode stream) file) =
      (TransactionReadHandler.init nodeId fileId).recoverRecords osdConfig
        (placeRecords (Record.encode stream) fileId 0 file) := by
  have hcount : (Record.snapshotHeaderRecord last 1 :: records).length ≤
      (fileBytes (Record.encode stream) file).length := hfile ▸ length_le_fileBytes _ _
  have hoffset := checkpointOffset_eq config (Nat.lt_of_lt_of_le (Nat.succ_pos _) hcount)
  rw [checkpointOffset_eq_zero hpos hshort, Int.natCast_zero] at hoffset
  have hstarts : fileBytes (Record.encode stream) file =
      frame (Record.encode stream (.snapshotHeaderRecord last 1)) ++
        fileBytes (Record.encode stream) (records.map .record) := by
    rw [hfile]
    rfl
  obtain ⟨r, hsnapshot, hbytes, hposition, hid⟩ := recoverSnapshot_start hlawful config nodeId
    fileId (hreadable _ List.mem_cons_self).fits.1 hstarts
  have hreads := readsAt_prepareReadRecord r (by rw [hposition]; exact Nat.zero_le _)
  rw [hbytes, hposition, List.drop_zero, hfile] at hreads
  have hend := r.getEndOffset_of_lt (by rw [hposition]; exact Nat.zero_le _) (hbytes ▸ hsize)
  rw [performRecovery, hsnapshot, Option.bind_some, recoverLastCheckpoint, hend, Option.bind_some]
  simp only [hbytes, start, hoffset, hid]
  rw [if_pos (Int.le_refl _), Option.bind_some, recoverJournalTillEof]
  simp only [hbytes]
  rw [recoverLoop_records hlawful hreads (show r.file.length < 2 ^ 31 from hbytes ▸ hsize)
    (fun hnil => by simp at hnil) hreadable (by omega), ← hfile]
  simp only [prepareReadRecord, hid, hposition]
  rfl

/-- Where the chunk that is read at an offset ends, the file has ended too or goes on with neither a
record nor padding. -/
def NothingBehind (bytes : Bytes) (offset : Nat) : Prop :=
  bytes.length ≤ offset + recordsReadChunkSize ∨
    offset + recordsReadChunkSize + headerSize ≤ bytes.length ∧
      (bytes.drop (offset + recordsReadChunkSize)).take 4 ≠ startMarker ∧
      paddingLength (bytes.drop (offset + recordsReadChunkSize)) = 0

/-- Behind the chunk of a checkpoint nothing is read, so that no transaction is recovered. -/
theorem performRecovery_checkpoint (osdConfig : Bool) (hlawful : stream.Lawful)
    (nodeId fileId : Nat)
    (hpos : 0 < config.checkpointInterval) {first last : Int} (hfirst : FitsInt64 first)
    {idList : List Int} (hreadable : Readable stream (.checkpointRecord last idList))
    {bytes tail behind : Bytes}
    (hstarts : bytes = frame (Record.encode stream (.snapshotHeaderRecord first 1)) ++ tail)
    (hsize : bytes.length < 2 ^ 31) (hlong : config.checkpointInterval < bytes.length)
    (hcheckpoint : bytes.drop (checkpointOffset config bytes) =
      frame (Record.encode stream (.checkpointRecord last idList)) ++ behind)
    (hbehind : NothingBehind bytes (checkpointOffset config bytes)) :
    ∃ h, performRecovery osdConfig stream config nodeId fileId bytes = some h ∧
      h.memory = (TransactionLockManager.init nodeId).setLastTransactionId last := by
  have hoffset := checkpointOffset_eq config (Nat.zero_lt_of_lt hlong)
  have hoffsetPos : 0 < checkpointOffset config bytes :=
    Nat.mul_pos (Nat.div_pos (Nat.le_sub_one_of_lt hlong) hpos) hpos
  have hoffsetLe : checkpointOffset config bytes ≤ bytes.length :=
    (Nat.div_mul_le_self _ _).trans (Nat.sub_le _ _)
  generalize checkpointOffset config bytes = offset
    at hoffset hbehind hcheckpoint hoffsetPos hoffsetLe
  obtain ⟨r, hsnapshot, hbytes, hstart, hid⟩ := recoverSnapshot_start hlawful config nodeId fileId
    hfirst hstarts
  have hend := r.getEndOffset_of_lt (by rw [hstart]; exact Nat.zero_le _) (hbytes ▸ hsize)
  -- the checkpoint is read from a chunk that starts with it
  have hreads := readsAt_prepareReadRecord { r with position := offset } (by rwa [hbytes])
  simp only [hbytes, hcheckpoint, hid] at hreads
  obtain ⟨r', hnext, hreads', hfront, hfile, -, -, hposition⟩ := ReadsAt.next hreads
    (tells_of_lt (hoffsetLe.trans_lt hsize)) hreadable.small
    (Record.decode_encode hlawful hreadable.fits)
  have hfile : r'.file = bytes := hfile
  have hlength : offset + (frame (Record.encode stream (.checkpointRecord last idList)) ++
      behind).length = bytes.length := by
    rw [← hcheckpoint, List.length_drop]
    omega
  have hposition : r'.position = offset + min recordsReadChunkSize
      (frame (Record.encode stream (.checkpointRecord last idList)) ++ behind).length :=
    hposition rfl
  -- and the reader goes on behind that chunk
  have hresumes := readsAt_prepareReadRecord r' (by rw [hfile]; omega)
  have htells := hresumes.tells (show r'.file.length < 2 ^ 31 from hfile ▸ hsize)
  obtain ⟨r'', hnothing⟩ : ∃ r'', getNextJournalRecord (Record.decode stream) r'.prepareReadRecord =
      some (none, r'') := by
    rw [hfile] at hresumes
    rcases hbehind with hend | ⟨hheader, hmarker, hpad⟩
    · rw [List.drop_of_length_le (by omega)] at hresumes
      exact hresumes.finish _ htells (hfront.resize (by decide))
    · rw [show r'.position = offset + recordsReadChunkSize by omega] at hresumes
      refine hresumes.next_garbage _ htells rfl ?_ hmarker hpad
      rw [List.length_drop]
      omega
  refine ⟨{ TransactionReadHandler.init nodeId fileId with
    memory := (TransactionLockManager.init nodeId).setLastTransactionId last
    lastCheckpointOffset := toLex (fileId, offset)
    activeIdList := idList }, ?_, rfl⟩
  rw [performRecovery, hsnapshot, Option.bind_some, recoverLastCheckpoint, hend, Option.bind_some]
  simp only [hbytes, start, hoffset, hid]
  rw [if_neg (by omega), seek_of_lt (by omega) (by omega), Option.bind_some, Int.toNat_natCast]
  simp only [hbytes, hid, hnext]
  simp only [Record.asRead, Option.bind_some, recoverJournalTillEof, hfile]
  rw [recoverLoop, hnothing]
  rfl

end TransactionRecovery

/-! ### Where the last checkpoint stands -/

/-- The file ends in its last interval, and unless this is the first one it starts with a
checkpoint. -/
def CheckpointPlaced (encode : Record → Bytes) (config : JournalConfig)
    (w : JournalWriteHandler Record) : Prop :=
  ∃ k : Nat, w.nextCheckpointOffset = ((k + 1) * config.checkpointInterval : Nat) ∧
    (fileBytes encode w.file).length ≤ (k + 1) * config.checkpointInterval ∧
    (k = 0 ∨ k * config.checkpointInterval < (fileBytes encode w.file).length ∧
      ∃ front last idList back, w.file = front ++ .record (.checkpointRecord last idList) :: back ∧
        (fileBytes encode front).length = k * config.checkpointInterval)

theorem checkpointPlaced_startFile {encode : Record → Bytes} {w : JournalWriteHandler Record}
    {snapshot : List Record} {record : Record}
    (hfits : (fileBytes encode (snapshot.map .record)).length + frameSize (encode record) ≤
      config.checkpointInterval) :
    CheckpointPlaced encode config { w.startFile config snapshot with
      file := (w.startFile config snapshot).file ++ [.record record] } := by
  have hlength := length_fileBytes_append_record encode (snapshot.map .record) record
  refine ⟨0, ?_, ?_, Or.inl rfl⟩
  · simp [JournalWriteHandler.startFile]
  · simp only [JournalWriteHandler.startFile, hlength]
    omega

theorem CheckpointPlaced.write {encode : Record → Bytes} {w : JournalWriteHandler Record}
    (h : CheckpointPlaced encode config w) {snapshot : List Record} {last : Int}
    {idList : List Int} {record : Record}
    (hsnapshot : (fileBytes encode (snapshot.map .record)).length + frameSize (encode record) ≤
      config.checkpointInterval)
    (hcheckpoint : frameSize (encode (.checkpointRecord last idList)) + frameSize (encode record) ≤
      config.checkpointInterval) :
    CheckpointPlaced encode config
      (w.write encode config snapshot (.checkpointRecord last idList) record) := by
  obtain ⟨k, hnext, hlength, hplaced⟩ := h
  have hsucc : (k + 1 + 1) * config.checkpointInterval =
      (k + 1) * config.checkpointInterval + config.checkpointInterval := Nat.succ_mul _ _
  have hrecord := headerSize_add_footerSize_le (encode record)
  unfold JournalWriteHandler.write JournalWriteHandler.prepareFile
  by_cases hempty : (fileBytes encode w.file).length = 0
  · rw [if_pos hempty]
    exact checkpointPlaced_startFile hsnapshot
  · rw [if_neg hempty]
    by_cases hrotates : w.rotates encode config record
    · rw [if_pos hrotates]
      exact checkpointPlaced_startFile hsnapshot
    · rw [if_neg hrotates]
      by_cases hneeded : w.checkpoints encode record
      · rw [if_pos hneeded]
        have hfront : (fileBytes encode (w.file ++ [.padding
            (w.nextCheckpointOffset - (fileBytes encode w.file).length).toNat])).length =
            (k + 1) * config.checkpointInterval := by
          rw [length_fileBytes_append_padding]
          omega
        have hgrown : (fileBytes encode (w.file ++ [.padding
            (w.nextCheckpointOffset - (fileBytes encode w.file).length).toNat,
            .record (.checkpointRecord last idList)] ++ [.record record])).length =
            (k + 1) * config.checkpointInterval +
              frameSize (encode (.checkpointRecord last idList)) + frameSize (encode record) := by
          rw [length_fileBytes_append_record, List.append_cons, length_fileBytes_append_record,
            hfront]
        refine ⟨k + 1, ?_, ?_, Or.inr ⟨?_, _, last, idList, [.record record], ?_, hfront⟩⟩
        · simp only [hnext, hsucc]
          omega
        · simp only [hgrown]
          omega
        · simp only [hgrown]
          omega
        · simp
      · rw [if_neg hneeded]
        have hroom : ¬ w.nextCheckpointOffset - (fileBytes encode w.file).length ≤
          frameSize (encode record) := hneeded
        have hgrown := length_fileBytes_append_record encode w.file record
        refine ⟨k, hnext, ?_, hplaced.imp_right ?_⟩
        · simp only [hgrown]
          omega
        · rintro ⟨hlt, front, last', idList', back, hfile, hoffset⟩
          refine ⟨?_, front, last', idList', back ++ [.record record], ?_, hoffset⟩
          · simp only [hgrown]
            omega
          · simp [hfile]

theorem CheckpointPlaced.drop_checkpointOffset {encode : Record → Bytes}
    {w : JournalWriteHandler Record} (h : CheckpointPlaced encode config w)
    (hlong : config.checkpointInterval < (fileBytes encode w.file).length) :
    ∃ last idList behind, .checkpointRecord last idList ∈ fileRecords w.file ∧
      (fileBytes encode w.file).drop
        (TransactionRecovery.checkpointOffset config (fileBytes encode w.file)) =
        frame (encode (.checkpointRecord last idList)) ++ behind := by
  obtain ⟨k, -, hlength, hplaced⟩ := h
  obtain rfl | ⟨hlt, front, last, idList, back, hfile, hfront⟩ := hplaced
  · omega
  · have hoffset : TransactionRecovery.checkpointOffset config (fileBytes encode w.file) =
        (fileBytes encode front).length := by
      have hdiv : ((fileBytes encode w.file).length - 1) / config.checkpointInterval = k :=
        Nat.div_eq_of_lt_le (Nat.le_sub_one_of_lt hlt) (by omega)
      rw [TransactionRecovery.checkpointOffset, hdiv, hfront]
    refine ⟨last, idList, fileBytes encode back, ?_, ?_⟩
    · rw [hfile, fileRecords_append]
      exact List.mem_append_right _ List.mem_cons_self
    · rw [hoffset, hfile, fileBytes_append, List.drop_left, fileBytes_cons_record]

namespace JournaledImpl

open TransactionRecovery

variable {s : JournaledImpl}

/-- The file is shorter than 2 GiB, so that `seek_end` and `tell` give its offsets. -/
def Addressable (stream : ObjectStream) (s : JournaledImpl) : Prop :=
  (fileBytes (Record.encode stream) s.file).length < 2 ^ 31

instance (stream : ObjectStream) (s : JournaledImpl) : Decidable (s.Addressable stream) :=
  inferInstanceAs (Decidable (_ < _))

/-- The snapshot or the checkpoint that goes with a record fits into an interval together with
it. -/
def WriteFits (stream : ObjectStream) (config : JournalConfig) (s : JournaledImpl) :
    JournaledStep → Prop
  | .call _ => True
  | .write => ∀ record ∈ s.queue.head?,
      (fileBytes (Record.encode stream)
          ((Record.snapshotHeaderRecord s.journal.lastTransactionId 1 ::
            (memoryRecords s.memory.memMap).map .openRecord).map .record)).length +
        frameSize (Record.encode stream record) ≤ config.checkpointInterval ∧
      frameSize (Record.encode stream
          (.checkpointRecord s.journal.lastTransactionId s.memory.getActiveIdList)) +
        frameSize (Record.encode stream record) ≤ config.checkpointInterval

theorem run_checkpointPlaced {nodeId fileId : Nat} {steps : List JournaledStep}
    (hfits : Along (step osdConfig stream config) (WriteFits stream config)
      (init config nodeId fileId) steps)
    (hrun : run (step osdConfig stream config) (init config nodeId fileId) steps = some s) :
    CheckpointPlaced (Record.encode stream) config s.journal.writer := by
  have hstart : CheckpointPlaced (Record.encode stream) config
      (init config nodeId fileId).journal.writer :=
    ⟨0, by simp [init, JournalWriteHandler.openFile], Nat.zero_le _, Or.inl rfl⟩
  generalize init config nodeId fileId = s₀ at hfits hrun hstart
  induction steps generalizing s₀ with
  | nil => exact Option.some.inj hrun ▸ hstart
  | cons a steps ih =>
      obtain ⟨s₁, hstep, hrest⟩ := Option.bind_eq_some_iff.mp hrun
      refine ih s₁ (hfits.2 s₁ hstep) hrest ?_
      cases a with
      | call c => exact (step_call_refines hstep).2 ▸ hstart
      | write =>
          unfold step at hstep
          cases hrecords : s₀.queue with
          | nil => simp [hrecords] at hstep
          | cons record queue =>
              have hwrite := hfits.1 record (by simp [hrecords])
              simp only [hrecords, Option.some.injEq] at hstep
              subst hstep
              exact hstart.write hwrite.1 hwrite.2

theorem run_file {nodeId fileId : Nat} {steps : List JournaledStep}
    (hrun : run (step osdConfig stream config) (init config nodeId fileId) steps = some s)
    (hfile : s.file ≠ []) :
    (∃ first segments, s.file = .record (.snapshotHeaderRecord first 1) :: segments) ∧
      ∀ nodeId' fileId', ∃ full,
        (TransactionReadHandler.init nodeId' fileId').recoverRecords osdConfig
          (placeRecords (Record.encode stream) fileId' 0 s.file) = some full := by
  obtain ⟨⟨steps', habstract⟩, hwellFormed⟩ := run_refines hrun
  obtain ⟨history, hhistory⟩ := run_fileHistory habstract
  obtain ⟨last, version, rest, hheader⟩ := hwellFormed.header hfile
  have hheader : s.file = .record (.snapshotHeaderRecord last version) :: rest := hheader
  have hne : s.abstract.writer.file ≠ [] := by
    simp [abstract, hheader, fileRecords, Record.isCheckpoint]
  constructor
  · obtain ⟨m, w, es, records, es', -, -, hwritten, -⟩ := hhistory.file hne
    have hversion : s.abstract.writer.file.head? = some (.snapshotHeaderRecord last version) := by
      simp [abstract, hheader, fileRecords, Record.isCheckpoint]
    rw [hwritten] at hversion
    obtain ⟨-, rfl⟩ := Record.snapshotHeaderRecord.inj (Option.some.inj hversion)
    exact ⟨last, rest, hheader⟩
  · intro nodeId' fileId'
    refine hhistory.recoverRecords hne nodeId' fileId' ?_ (placeRecords_not_before _ _ _ _)
    rw [placeRecords_record]
    rfl

/-- No lock is stored or listed. -/
def HoldsNothing (m : TransactionLockManager) : Prop :=
  ∀ id name operation, ¬ m.Holds id name operation ∧ ¬ m.ListsLock id name operation

theorem holdsNothing_init (nodeId : Nat) (last : Int) :
    HoldsNothing ((TransactionLockManager.init nodeId).setLastTransactionId last) := by
  have hrep : Represents false ((TransactionLockManager.init nodeId).setLastTransactionId last)
    Replayed.start := (represents_init nodeId).setLastTransactionId last
  refine fun id name operation => ⟨fun hholds => ?_, fun hlists => ?_⟩
  · obtain ⟨l, hl, -⟩ := hrep.holds_iff.mp hholds
    simp [Replayed.start] at hl
  · obtain ⟨l, hl | hl, -⟩ := hrep.lists_iff.mp hlists
    · simp [Replayed.start] at hl
    · simp [Replayed.start] at hl

theorem HoldsNothing.sameLocks_iff {m m' : TransactionLockManager} (h : HoldsNothing m) :
    SameLocks m m' ↔ HoldsNothing m' := by
  constructor
  · intro hsame id name operation
    exact ⟨fun hholds => (h id name operation).1 ((hsame.holds id name operation).mpr hholds),
      fun hlists => (h id name operation).2 ((hsame.lists id name operation).mpr hlists)⟩
  · intro h'
    exact ⟨fun id name operation => iff_of_false (h id name operation).1 (h' id name operation).1,
      fun id name operation => iff_of_false (h id name operation).2 (h' id name operation).2⟩

/-- As long as files are shorter than 2 GiB: recovery of a file that is not longer than the
checkpoint interval replays all of it. A longer file is recovered to an empty lock table when
nothing stands behind the chunk of its last checkpoint, which is the table of the full replay only
if that holds nothing. -/
theorem run_recovers_like_full_replay (osdConfig : Bool) (hlawful : stream.Lawful)
    (hpos : 0 < config.checkpointInterval) {nodeId fileId : Nat} {steps : List JournaledStep}
    (hrun : run (step osdConfig stream config) (init config nodeId fileId) steps = some s)
    (_ : Along (step osdConfig stream config) (fun s _ => s.Addressable stream)
      (init config nodeId fileId) steps)
    (hsize : s.Addressable stream) (hfile : s.file ≠ [])
    (hreadable : ∀ record ∈ fileRecords s.file, Readable stream record)
    (nodeId' fileId' : Nat) :
    ∃ full, (TransactionReadHandler.init nodeId' fileId').recoverRecords osdConfig
        (placeRecords (Record.encode stream) fileId' 0 s.file) = some full ∧
      ((fileBytes (Record.encode stream) s.file).length ≤ config.checkpointInterval →
        ∃ h, TransactionRecovery.performRecovery osdConfig stream config nodeId' fileId'
            (fileBytes (Record.encode stream) s.file) = some h ∧ SameLocks h.memory full.memory) ∧
      (config.checkpointInterval < (fileBytes (Record.encode stream) s.file).length →
        Along (step osdConfig stream config) (WriteFits stream config) (init config nodeId fileId)
          steps →
        TransactionRecovery.NothingBehind (fileBytes (Record.encode stream) s.file)
          (TransactionRecovery.checkpointOffset config
            (fileBytes (Record.encode stream) s.file)) →
        ∃ h, TransactionRecovery.performRecovery osdConfig stream config nodeId' fileId'
            (fileBytes (Record.encode stream) s.file) = some h ∧
          (SameLocks h.memory full.memory ↔ HoldsNothing full.memory)) := by
  obtain ⟨⟨first, segments, hheader⟩, hreplay⟩ := run_file hrun hfile
  obtain ⟨full, hfull⟩ := hreplay nodeId' fileId'
  have hfirst : FitsInt64 first := by
    have hin : .snapshotHeaderRecord first 1 ∈ fileRecords s.file := by
      rw [hheader]
      exact List.mem_cons_self
    exact (hreadable _ hin).fits.1
  refine ⟨full, hfull, fun hshort => ?_, fun hlong hfits hbehind => ?_⟩
  · obtain ⟨-, records, hrecords, -⟩ := (run_refines hrun).2.short hshort
    have hrecords : s.file = records.map .record := hrecords
    rw [hrecords] at hheader
    cases records with
    | nil => simp at hheader
    | cons record records =>
        obtain ⟨hrecord, -⟩ := List.cons.inj hheader
        obtain rfl := Segment.record.inj hrecord
        refine ⟨full, ?_, fun _ _ _ => Iff.rfl, fun _ _ _ => Iff.rfl⟩
        rw [
          TransactionRecovery.performRecovery_short hlawful nodeId' fileId' hpos ?_ hrecords
            hsize hshort,
          hfull]
        rwa [hrecords, fileRecords_map_record] at hreadable
  · obtain ⟨last, idList, behind, hin, hcheckpoint⟩ :=
      (run_checkpointPlaced hfits hrun).drop_checkpointOffset hlong
    obtain ⟨h, hrecover, hmemory⟩ := TransactionRecovery.performRecovery_checkpoint
      osdConfig hlawful nodeId' fileId' hpos hfirst (hreadable _ hin)
      (by rw [hheader, fileBytes_cons_record]) hsize hlong hcheckpoint hbehind
    refine ⟨h, hrecover, ?_⟩
    rw [hmemory]
    exact (holdsNothing_init nodeId' last).sameLocks_iff

/-- A request for an object of component 26, and the record that it queues. -/
def lockRequest (objectName : String) : Request :=
  .ofLockType objectName "HEAD" LockType.write.code "server"

def lockRecord (objectName : String) (transactionId time : Int) : Record :=
  .openRecord ⟨LockType.write.code, objectName, "HEAD", "server", transactionId, time⟩

theorem run_recovers_like_full_replay_write : ∃ s h full,
    run (step false .plain ⟨5242880, 2 ^ 30⟩) (init ⟨5242880, 2 ^ 30⟩ 1 3)
        [.call (.addTransaction (lockRequest "1a/b") 7), .write] = some s ∧
      (TransactionReadHandler.init 1 3).recoverRecords false
        (placeRecords (Record.encode .plain) 3 0 s.file) = some full ∧
      performRecovery false .plain ⟨5242880, 2 ^ 30⟩ 1 3
        (fileBytes (Record.encode .plain) s.file) = some h ∧ SameLocks h.memory full.memory := by
  have hsizes : Along (step false .plain ⟨5242880, 2 ^ 30⟩) (fun s _ => s.Addressable .plain)
      (init ⟨5242880, 2 ^ 30⟩ 1 3) [.call (.addTransaction (lockRequest "1a/b") 7), .write] := by
    refine ⟨by decide +kernel, fun s₁ hs₁ => ?_⟩
    cases hs₁
    exact ⟨by decide +kernel, fun _ _ => trivial⟩
  obtain ⟨s, hrun, hfile⟩ : ∃ s, run (step false .plain ⟨5242880, 2 ^ 30⟩)
      (init ⟨5242880, 2 ^ 30⟩ 1 3)
      [.call (.addTransaction (lockRequest "1a/b") 7), .write] = some s ∧
      s.file = [.record (.snapshotHeaderRecord 0 1),
        .record (lockRecord "1a/b" (getUniqueId 1 0 + 1) 7),
        .record (lockRecord "1a/b" (getUniqueId 1 0 + 1) 7)] :=
    ⟨_, rfl, by decide +kernel⟩
  obtain ⟨full, hfull, hshort, -⟩ := run_recovers_like_full_replay false ObjectStream.plain_lawful
    (by decide) hrun hsizes (by rw [Addressable, hfile]; decide +kernel) (by simp [hfile])
    (by rw [hfile]; decide +kernel) 1 3
  obtain ⟨h, hrecover, hsame⟩ := hshort (by rw [hfile]; decide +kernel)
  exact ⟨s, h, full, hrun, hfull, hrecover, hsame⟩

/-- The second lock comes with a checkpoint, behind which nothing is read: both locks are held after
the full replay, and none after recovery. -/
theorem checkpoint_hides_all_locks : ∃ s h full,
    run (step false .plain ⟨300, 2 ^ 30⟩) (init ⟨300, 2 ^ 30⟩ 1 3)
        [.call (.addTransaction (lockRequest "1a/b") 7), .write,
          .call (.addTransaction (lockRequest "1a/c") 8), .write] = some s ∧
      (TransactionReadHandler.init 1 3).recoverRecords false
        (placeRecords (Record.encode .plain) 3 0 s.file) = some full ∧
      performRecovery false .plain ⟨300, 2 ^ 30⟩ 1 3
        (fileBytes (Record.encode .plain) s.file) = some h ∧
      full.memory.ListsLock (getUniqueId 1 0 + 1) "1a/b" LockType.write.code ∧
      full.memory.ListsLock (getUniqueId 1 0 + 2) "1a/c" LockType.write.code ∧
      HoldsNothing h.memory ∧ ¬ SameLocks h.memory full.memory := by
  obtain ⟨s, hrun, hfile⟩ : ∃ s, run (step false .plain ⟨300, 2 ^ 30⟩) (init ⟨300, 2 ^ 30⟩ 1 3)
      [.call (.addTransaction (lockRequest "1a/b") 7), .write,
        .call (.addTransaction (lockRequest "1a/c") 8), .write] = some s ∧
      s.file = [.record (.snapshotHeaderRecord 0 1),
        .record (lockRecord "1a/b" (getUniqueId 1 0 + 1) 7),
        .record (lockRecord "1a/b" (getUniqueId 1 0 + 1) 7), .padding 6,
        .record (.checkpointRecord (getUniqueId 1 0 + 1)
          [getUniqueId 1 0 + 1, getUniqueId 1 0 + 2]),
        .record (lockRecord "1a/c" (getUniqueId 1 0 + 2) 8)] :=
    ⟨_, rfl, by decide +kernel⟩
  obtain ⟨full, hfull, hlists⟩ := Option.map_eq_some_iff.mp
    (show ((TransactionReadHandler.init 1 3).recoverRecords false
      (placeRecords (Record.encode .plain) 3 0 s.file)).map (fun full => decide
        (full.memory.ListsLock (getUniqueId 1 0 + 1) "1a/b" LockType.write.code ∧
          full.memory.ListsLock (getUniqueId 1 0 + 2) "1a/c" LockType.write.code)) = some true by
      rw [hfile]
      decide +kernel)
  obtain ⟨hfirst, hsecond⟩ := of_decide_eq_true hlists
  have hlength : (fileBytes (Record.encode .plain) s.file).length = 476 := by
    rw [hfile]
    decide +kernel
  have hoffset :
      checkpointOffset ⟨300, 2 ^ 30⟩ (fileBytes (Record.encode .plain) s.file) = 300 := by
    rw [checkpointOffset, hlength]
    rfl
  obtain ⟨tail, hstarts⟩ : ∃ tail, fileBytes (Record.encode .plain) s.file =
      frame (Record.encode .plain (.snapshotHeaderRecord 0 1)) ++ tail := by
    rw [hfile, fileBytes_cons_record]
    exact ⟨_, rfl⟩
  obtain ⟨behind, hcheckpoint⟩ : ∃ behind, (fileBytes (Record.encode .plain) s.file).drop 300 =
      frame (Record.encode .plain (.checkpointRecord (getUniqueId 1 0 + 1)
        [getUniqueId 1 0 + 1, getUniqueId 1 0 + 2])) ++ behind := by
    rw [hfile, ← List.take_append_drop 4 [_, _, _, _, _, _], fileBytes_append]
    exact ⟨_, List.drop_left' (by decide +kernel)⟩
  obtain ⟨h, hrecover, hmemory⟩ := performRecovery_checkpoint false ObjectStream.plain_lawful 1 3
    (show 0 < (⟨300, 2 ^ 30⟩ : JournalConfig).checkpointInterval by decide) (by decide)
    (by decide +kernel) hstarts (by rw [hlength]; decide) (by rw [hlength]; decide)
    (hoffset.symm ▸ hcheckpoint)
    (Or.inl (by rw [hoffset, hlength]; decide))
  have hnothing : HoldsNothing h.memory := hmemory ▸ holdsNothing_init 1 _
  exact ⟨s, h, full, hrun, hfull, hrecover, hfirst, hsecond, hnothing, fun hsame =>
    (hnothing.sameLocks_iff.mp hsame _ _ _).2 hfirst⟩

end JournaledImpl

end ObjectStorage.Transaction
