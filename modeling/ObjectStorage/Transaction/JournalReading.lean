import ObjectStorage.Journal.ReadFraming
import ObjectStorage.Transaction.NodeJournal

/-!
What recovery reads of a journal file. No record that is read stands before the last checkpoint, and
a file that is not longer than the checkpoint interval is read from its start as far as its chunks
allow.
-/

namespace ObjectStorage.Journal

namespace JournalReadHandler

variable {ρ : Type} {decode : Bytes → Option ρ} {r r' r'' : JournalReadHandler}

/-! ### The reader goes forward -/

/-- The second reader reads the same file from a place that is not before that of the first. -/
structure Ahead (r r' : JournalReadHandler) : Prop where
  fileId_eq : r'.fileId = r.fileId
  fileOffset_le : r.fileOffset ≤ r'.fileOffset
  position_le : r.position ≤ r'.position

theorem Ahead.refl (r : JournalReadHandler) : Ahead r r := ⟨rfl, Nat.le_refl _, Nat.le_refl _⟩

theorem Ahead.trans (h : Ahead r r') (h' : Ahead r' r'') : Ahead r r'' :=
  ⟨h'.fileId_eq.trans h.fileId_eq, h.fileOffset_le.trans h'.fileOffset_le,
    h.position_le.trans h'.position_le⟩

theorem ahead_skipPadding (r : JournalReadHandler) : Ahead r r.skipPadding :=
  ⟨rfl, Nat.le_add_right _ _, Nat.le_refl _⟩

theorem ahead_refill (r : JournalReadHandler) : Ahead r r.refill :=
  ⟨rfl, Nat.le_refl _, Nat.le_add_right _ _⟩

theorem ahead_grow (size : Int) (fuel : Nat) (r : JournalReadHandler) :
    Ahead r (grow size fuel r) := by
  induction fuel generalizing r with
  | zero => exact .refl r
  | succ fuel ih =>
      rw [grow]
      split
      · simp only
        split
        · exact ⟨rfl, Nat.le_refl _, Nat.le_add_right _ _⟩
        · refine Ahead.trans ?_ (ih _)
          exact ⟨rfl, Nat.le_refl _, Nat.le_add_right _ _⟩
      · exact .refl r

/-- The record starts where the reader stands, or later. -/
def StartsBehind (r : JournalReadHandler) (found : Found ρ) : Prop :=
  ∃ offset, found.2.1 = toLex (r.fileId, offset) ∧ r.fileOffset ≤ offset

theorem takeRecord_ahead {found : Found ρ} (h : takeRecord decode r = some (some found, r')) :
    Ahead r r' ∧ StartsBehind r found := by
  unfold takeRecord at h
  simp only at h
  split at h
  · cases h
  · split at h
    · cases h
    · split at h
      · cases h
      · split at h
        · cases h
        · obtain ⟨hfound, rfl⟩ := Prod.mk.inj (Option.some.inj h)
          obtain rfl := Option.some.inj hfound
          exact ⟨⟨rfl, Nat.le_add_right _ _, Nat.le_refl _⟩, _, rfl, Nat.le_refl _⟩

theorem StartsBehind.of_ahead {found : Found ρ} (h : Ahead r r') (hfound : StartsBehind r' found) :
    StartsBehind r found := by
  obtain ⟨offset, hoffset, hle⟩ := hfound
  exact ⟨offset, by rw [hoffset, h.fileId_eq], h.fileOffset_le.trans hle⟩

theorem getNextJournalRecord_ahead {found : Found ρ}
    (h : getNextJournalRecord decode r = some (some found, r')) :
    Ahead r r' ∧ StartsBehind r found := by
  have hstep : ∀ {s : JournalReadHandler}, Ahead r s →
      takeRecord decode s = some (some found, r') → Ahead r r' ∧ StartsBehind r found := by
    intro s hs htake
    obtain ⟨hahead, hbehind⟩ := takeRecord_ahead htake
    exact ⟨hs.trans hahead, hbehind.of_ahead hs⟩
  simp only [getNextJournalRecord] at h
  split at h
  · split at h
    · cases h
    · split at h
      · cases h
      · obtain ⟨start, -, h⟩ := Option.bind_eq_some_iff.mp h
        split at h
        · split at h
          · cases h
          · refine hstep ?_ h
            exact (((ahead_skipPadding r).trans (ahead_refill _)).trans (ahead_grow _ _ _)).trans
              (ahead_skipPadding _)
        · split at h
          · split at h
            · cases h
            · split at h <;> cases h
          · cases h
  · exact hstep (ahead_skipPadding r) h

theorem readAll_offsets {fuel : Nat} {founds : List (Found ρ)}
    (h : readAll decode fuel r = some (founds, r')) :
    ∀ found ∈ founds, StartsBehind r found := by
  induction fuel generalizing r r' founds with
  | zero => cases h
  | succ fuel ih =>
      rw [readAll] at h
      split at h
      · cases h
      · obtain ⟨rfl, -⟩ := Prod.mk.inj (Option.some.inj h)
        simp
      · rename_i found r₁ hnext
        obtain ⟨⟨founds', r₂⟩, hrest, heq⟩ := Option.map_eq_some_iff.mp h
        obtain ⟨rfl, rfl⟩ := Prod.mk.inj heq
        obtain ⟨hahead, hbehind⟩ := getNextJournalRecord_ahead hnext
        intro f hf
        rcases List.mem_cons.mp hf with rfl | hf
        · exact hbehind
        · exact (ih hrest f hf).of_ahead hahead

theorem scans_prepareReadRecord (r : JournalReadHandler) (hle : r.position ≤ r.file.length) :
    Scans r.prepareReadRecord (r.file.drop r.position) .filled
      (r.prepareReadRecord.buffer.take headerSize) where
  stream_eq := rfl
  unread_eq := by simp [unread, prepareReadRecord]
  fits := .inl rfl
  position_eq := rfl
  position_le := hle
  ends _ := .inl rfl
  restSize_le := Nat.zero_le _
  front_eq := rfl
  front_length := by
    rw [List.length_take, show r.prepareReadRecord.buffer.length = maxReadChunkSize + 1 from
      length_resize _ _]
    rfl
  endOfFile_iff := by simp [prepareReadRecord]
  ended h := nomatch h

/-- What the buffer holds in front of the first record does not matter when this record is read from
its start. -/
theorem BufferState.fits_cons_of_complete {encode : ρ → Bytes} {record : ρ}
    {entries : List (Nat × ρ)} {offset length : Nat} (front front' : Bytes)
    (hcomplete : frameSize (encode record) ≤ length)
    (h : BufferState.Fits encode ⟨0, .filled, front⟩ offset ((0, record) :: entries) length) :
    BufferState.Fits encode ⟨0, .filled, front'⟩ offset ((0, record) :: entries) length := by
  have hpos := headerSize_add_footerSize_le (encode record)
  simp only [BufferState.Fits, Nat.zero_add, if_pos hcomplete] at h ⊢
  have hafter : ∀ front : Bytes,
    BufferState.afterRecord ⟨0, .filled, front⟩ offset 0 (encode record) length =
      BufferState.afterRecord ⟨0, .filled, front'⟩ offset 0 (encode record) length := by
    intro front
    have hmore : ¬ frameSize (encode record) ≤ 0 := by omega
    simp only [BufferState.afterRecord, Nat.zero_add, if_neg hmore, Nat.lt_irrefl, if_false]
  rwa [hafter front] at h

end JournalReadHandler

/-! ### Segments as records with padding -/

variable {ρ : Type} {encode : ρ → Bytes}

/-- The records of a file, each with the padding in front of it, where `count` bytes of padding come
first. -/
def entriesOf : Nat → List (Segment ρ) → List (Nat × ρ)
  | _, [] => []
  | count, .padding more :: file => entriesOf (count + more) file
  | count, .record record :: file => (count, record) :: entriesOf 0 file

/-- The padding at the end. -/
def trailingOf : Nat → List (Segment ρ) → Nat
  | count, [] => count
  | count, .padding more :: file => trailingOf (count + more) file
  | _, .record _ :: file => trailingOf 0 file

theorem fileBytes_cons_padding (count : Nat) (file : List (Segment ρ)) :
    fileBytes encode (.padding count :: file) =
      List.replicate count padding ++ fileBytes encode file := rfl

theorem layout_entriesOf (count : Nat) (file : List (Segment ρ)) :
    layout encode (entriesOf count file) (trailingOf count file) =
      List.replicate count padding ++ fileBytes encode file := by
  induction file generalizing count with
  | nil => simp [entriesOf, trailingOf, layout, fileBytes]
  | cons segment file ih =>
      cases segment with
      | record record =>
          simp only [entriesOf, trailingOf, layout, ih, fileBytes_cons_record, List.replicate_zero,
            List.nil_append]
      | padding more =>
          rw [entriesOf, trailingOf, ih, fileBytes_cons_padding, List.replicate_add,
            List.append_assoc]

/-- A file that may end with the first bytes of a record has the other records complete, and is cut
behind them. -/
theorem complete_entriesOf (fileId offset count : Nat) (file : List (Segment ρ)) (torn : Option ρ)
    {left : Nat} (hleft : ∀ record ∈ torn, left < frameSize (encode record))
    (hnone : torn = none → left = 0) :
    (JournalReadHandler.completeRecords encode fileId offset
        (count + (fileBytes encode file).length + left)
        (entriesOf count (file ++ torn.toList.map .record))).map (·.1) = fileRecords file ∧
      JournalReadHandler.cutLength encode (count + (fileBytes encode file).length + left)
        (entriesOf count (file ++ torn.toList.map .record)) =
          count + (fileBytes encode file).length := by
  induction file generalizing offset count with
  | nil =>
      cases torn with
      | none =>
          have hzero := hnone rfl
          simp [entriesOf, JournalReadHandler.completeRecords, JournalReadHandler.cutLength,
            fileBytes, fileRecords, hzero]
      | some record =>
          have hshort := hleft record rfl
          have hcut : ¬ count + frameSize (encode record) ≤ count + 0 + left := by omega
          have hempty : (fileBytes encode ([] : List (Segment ρ))).length = 0 := rfl
          simp only [List.nil_append, Option.toList_some, List.map_cons, List.map_nil, entriesOf,
            JournalReadHandler.completeRecords, JournalReadHandler.cutLength, hempty, if_neg hcut]
          exact ⟨rfl, by omega⟩
  | cons segment file ih =>
      cases segment with
      | record record =>
          have hlength : (fileBytes encode (.record record :: file)).length =
              frameSize (encode record) + (fileBytes encode file).length := by
            rw [fileBytes_cons_record, List.length_append, length_frame]
          have hcomplete : count + frameSize (encode record) ≤
              count + (frameSize (encode record) + (fileBytes encode file).length) + left :=
                by omega
          have hrest : count + (frameSize (encode record) + (fileBytes encode file).length) + left -
              (count + frameSize (encode record)) = 0 + (fileBytes encode file).length + left := by
            omega
          obtain ⟨hrecords, hcut⟩ := ih (offset + (count + frameSize (encode record))) 0
          rw [List.cons_append, entriesOf, JournalReadHandler.completeRecords,
            JournalReadHandler.cutLength, hlength, if_pos hcomplete, if_pos hcomplete, hrest]
          constructor
          · exact congrArg (record :: ·) hrecords
          · omega
      | padding more =>
          have hlength : (fileBytes encode (.padding more :: file)).length =
              more + (fileBytes encode file).length := by
            rw [fileBytes_cons_padding, List.length_append, List.length_replicate]
          have hsum : count + (more + (fileBytes encode file).length) + left =
              count + more + (fileBytes encode file).length + left := by omega
          obtain ⟨hrecords, hcut⟩ := ih offset (count + more)
          rw [List.cons_append, entriesOf, hlength, hsum]
          exact ⟨hrecords, by omega⟩

end ObjectStorage.Journal

namespace ObjectStorage.Transaction

open Std Library Journal TransactionLockManager

namespace TransactionRecovery

variable {stream : ObjectStream} {config : JournalConfig} {t t' : TransactionRecovery}

/-! ### Nothing is read in front of the checkpoint -/

/-- The reader stands at the checkpoint or behind it, and the counter has been raised to an id or
not at all. -/
structure AtCheckpoint (t t' : TransactionRecovery) : Prop where
  memory : t'.handler.memory = t.handler.memory ∨
    ∃ last, t'.handler.memory = t.handler.memory.setLastTransactionId last
  offset : ∃ offset, t'.handler.lastCheckpointOffset = toLex (t'.reader.fileId, offset) ∧
    offset ≤ t'.reader.position

theorem recoverLastCheckpoint_atCheckpoint {fuel : Nat}
    (h : recoverLastCheckpoint stream fuel t = some t') : AtCheckpoint t t' := by
  induction fuel generalizing t with
  | zero => cases h
  | succ fuel ih =>
      rw [recoverLastCheckpoint] at h
      obtain ⟨⟨size, reader⟩, hend, h⟩ := Option.bind_eq_some_iff.mp h
      obtain ⟨position, rfl⟩ := JournalReadHandler.getEndOffset_eq_some hend
      simp only at h
      split at h
      · rename_i hoffset
        obtain rfl := Option.some.inj h
        exact ⟨.inl rfl, _, rfl, by simp only; omega⟩
      · obtain ⟨reader', hseek, h⟩ := Option.bind_eq_some_iff.mp h
        obtain ⟨-, rfl⟩ := JournalReadHandler.seek_eq_some hseek
        split at h
        · cases h
        · -- the search goes on with the same handler but for the offset
          obtain ⟨hmemory, hoffset⟩ := ih h
          exact ⟨hmemory, hoffset⟩
        · rename_i last idList offset size reader hnext
          obtain rfl := Option.some.inj h
          obtain ⟨hahead, -⟩ := JournalReadHandler.getNextJournalRecord_ahead hnext
          exact ⟨.inr ⟨last, rfl⟩, _, by rw [hahead.fileId_eq]; rfl, hahead.position_le⟩
        · cases h

theorem recoverSnapshot_handler (h : recoverSnapshot stream t = some t') :
    t'.handler = t.handler := by
  unfold recoverSnapshot at h
  obtain ⟨⟨found?, reader⟩, -, heq⟩ := Option.map_eq_some_iff.mp h
  cases found? with
  | none =>
      obtain rfl := heq
      rfl
  | some found =>
      obtain ⟨record, offset, size⟩ := found
      simp only at heq
      split at heq
      · obtain rfl := heq
        rfl
      · obtain rfl := heq
        rfl

/-- The handler of a reading has an empty lock table, and no record stands before its checkpoint. -/
structure JournalReading.Fresh (nodeId : Nat) (reading : JournalReading) : Prop where
  memory : reading.handler.memory = .init nodeId ∨
    ∃ last, reading.handler.memory = (TransactionLockManager.init nodeId).setLastTransactionId last
  notBefore : ∀ p ∈ reading.records, ¬ p.offset < reading.handler.lastCheckpointOffset

theorem readJournal_fresh {nodeId fileId : Nat} {bytes : Bytes} {reading : JournalReading}
    (h : readJournal stream config nodeId fileId bytes = some reading) :
    JournalReading.Fresh nodeId reading := by
  obtain ⟨t, hsnapshot, h⟩ := Option.bind_eq_some_iff.mp h
  obtain ⟨t', hcheckpoint, h⟩ := Option.bind_eq_some_iff.mp h
  obtain ⟨⟨founds, reader⟩, hread, rfl⟩ := Option.map_eq_some_iff.mp h
  obtain ⟨hmemory, offset, hoffset, hle⟩ := recoverLastCheckpoint_atCheckpoint hcheckpoint
  have hinit : t.handler.memory = .init nodeId := by
    rw [recoverSnapshot_handler hsnapshot]
    rfl
  rw [hinit] at hmemory
  refine ⟨hmemory, fun p hp => ?_⟩
  obtain ⟨found, hfound, rfl⟩ := List.mem_map.mp hp
  obtain ⟨start, hstart, hbehind⟩ := JournalReadHandler.readAll_offsets hread found hfound
  have hstart' : (PlacedRecord.ofFound found).offset = toLex (t'.reader.fileId, start) := hstart
  have hposition : t'.reader.prepareReadRecord.fileOffset = t'.reader.position := rfl
  rw [hstart', hoffset, Prod.Lex.toLex_lt_toLex]
  omega

/-! ### Short files -/

/-- A record with its place as it is read. -/
def readFound (stream : ObjectStream) (found : JournalReadHandler.Found Record) : PlacedRecord :=
  .ofFound (found.1.asRead stream, found.2)

/-- In a file that is not longer than the interval no checkpoint is looked for, whatever
`seek_offset` makes of its length. -/
theorem getEndOffset_short {r : JournalReadHandler} {bytes : Bytes}
    (hpos : 0 < config.checkpointInterval) (hfile : r.file = bytes) (hposition : r.position = 0)
    (htells : Tells bytes.length) (hshort : bytes.length ≤ config.checkpointInterval) :
    ∃ size, r.getEndOffset = some (size, r) ∧
      (size - 1).tdiv config.checkpointInterval * config.checkpointInterval ≤ 0 := by
  obtain ⟨size, hsize⟩ := Option.isSome_iff_exists.mp htells
  refine ⟨size, ?_, ?_⟩
  · have hstart : seekOffset r.position = some (0 : Int) := by
      rw [hposition]
      exact seekOffset_of_lt (by decide)
    rw [JournalReadHandler.getEndOffset, hstart, Option.bind_some, hfile, hsize, Option.bind_some,
      JournalReadHandler.seek_of_lt (Int.le_refl 0) (by decide), Option.map_some, Int.toNat_zero,
      ← hposition]
  · have hle : size ≤ bytes.length := by
      by_cases hnear : bytes.length < 2 ^ 31
      · rw [seekOffset_of_lt hnear] at hsize
        exact (Option.some.inj hsize).ge
      · have hbehind := seekOffset_behind hnear hsize
        omega
    have hquotient : (size - 1).tdiv config.checkpointInterval ≤ 0 := by
      rcases Int.lt_or_le 0 size with hlt | hnone
      · exact (Int.tdiv_eq_zero_of_lt (by omega) (by omega)).le
      · have hnonneg := Int.tdiv_nonneg (show 0 ≤ 1 - size by omega)
          (show (0 : Int) ≤ config.checkpointInterval by omega)
        rw [show size - 1 = -(1 - size) by omega, Int.neg_tdiv]
        omega
    exact Int.mul_nonpos_of_nonpos_of_nonneg hquotient (by omega)

/-- A file that starts with a snapshot and is not longer than the interval, with padding and cut
somewhere, is read as far as it is complete. -/
theorem readJournal_layout (hlawful : stream.Lawful) (nodeId fileId : Nat) {last : Int}
    {entries : List (Nat × Record)} {trailing length : Nat} (hpos : 0 < config.checkpointInterval)
    (hlast : FitsInt64 last) (htypes : ∀ entry ∈ entries, entry.2.FitsTypes)
    (hlength : length ≤ (layout (Record.encode stream)
      ((0, .snapshotHeaderRecord last 1) :: entries) trailing).length)
    (hshort : length ≤ config.checkpointInterval) (htells : Tells length)
    (hcomplete : frameSize (Record.encode stream (.snapshotHeaderRecord last 1)) ≤ length)
    (hfits : JournalReadHandler.BufferState.blank.Fits (Record.encode stream) 0
      ((0, .snapshotHeaderRecord last 1) :: entries) length) :
    readJournal stream config nodeId fileId ((layout (Record.encode stream)
        ((0, .snapshotHeaderRecord last 1) :: entries) trailing).take length) =
      some ⟨.init nodeId fileId,
        (JournalReadHandler.completeRecords (Record.encode stream) fileId 0 length
          ((0, .snapshotHeaderRecord last 1) :: entries)).map (readFound stream),
        (layout (Record.encode stream) ((0, .snapshotHeaderRecord last 1) :: entries) trailing).take
          (JournalReadHandler.cutLength (Record.encode stream) length
            ((0, .snapshotHeaderRecord last 1) :: entries))⟩ := by
  have hstarts : (layout (Record.encode stream) ((0, .snapshotHeaderRecord last 1) :: entries)
      trailing).take length = _ := JournalReadHandler.take_layout_complete (by omega)
  rw [List.replicate_zero, List.nil_append] at hstarts
  have hone : FitsInt64 1 := by decide
  have hcut := JournalReadHandler.cutLength_le (Record.encode stream) length
    ((0, .snapshotHeaderRecord last 1) :: entries)
  generalize hwhole : layout (Record.encode stream)
    ((0, .snapshotHeaderRecord last 1) :: entries) trailing = whole at hlength hstarts ⊢
  have hbytesLength : (whole.take length).length = length := by
    rw [List.length_take]
    omega
  have hsixteen := headerSize_add_footerSize_le
    (Record.encode stream (.snapshotHeaderRecord last 1))
  obtain ⟨r, hsnapshot, hfile, hposition, hid⟩ := recoverSnapshot_start hlawful config nodeId fileId
    hlast hstarts
  obtain ⟨size, hend, hoffset⟩ := getEndOffset_short hpos hfile hposition
    (hbytesLength.symm ▸ htells) (hbytesLength.symm ▸ hshort)
  have hscans := JournalReadHandler.scans_prepareReadRecord r
    (by rw [hposition]; exact Nat.zero_le _)
  rw [hfile, hposition, List.drop_zero, ← hwhole] at hscans
  have hlength' : length ≤ (layout (Record.encode stream)
      ((0, .snapshotHeaderRecord last 1) :: entries) trailing).length := by rwa [hwhole]
  obtain ⟨r', hread, hfile'⟩ := hscans.readAll_of_decodes (Record.asRead stream) hlength'
    (by
      rw [show r.prepareReadRecord.fileOffset = 0 from hposition]
      exact JournalReadHandler.BufferState.fits_cons_of_complete _ _ hcomplete hfits)
    (fun entry hentry => by
      rcases List.mem_cons.mp hentry with rfl | hentry
      · exact Record.decode_encode hlawful ⟨hlast, hone⟩
      · exact Record.decode_encode hlawful (htypes entry hentry))
    (Nat.lt_succ_self length)
  rw [readJournal, hsnapshot, Option.bind_some, recoverLastCheckpoint, hend, Option.bind_some]
  simp only [start, hid]
  rw [if_pos hoffset, Option.bind_some, Int.toNat_of_nonpos hoffset]
  simp only [hfile, hbytesLength, hread, Option.map_some]
  have hstart : r.prepareReadRecord.fileOffset = 0 := hposition
  have hsame : r.prepareReadRecord.fileId = fileId := hid
  have hleft : r'.file = whole.take (JournalReadHandler.cutLength (Record.encode stream) length
      ((0, .snapshotHeaderRecord last 1) :: entries)) := by
    have hwhole' : r.prepareReadRecord.file = whole.take length := hfile
    rw [hfile', hwhole', hstart, Nat.zero_add, List.take_take, Nat.min_eq_left hcut]
  rw [hleft, hstart, hsame, List.map_map]
  rfl

/-- Records one after the other, without padding. -/
def unpadded (records : List Record) : List (Nat × Record) := records.map fun record => (0, record)

theorem unpadded_cons (record : Record) (records : List Record) :
    unpadded (record :: records) = (0, record) :: unpadded records := rfl

theorem layout_unpadded (stream : ObjectStream) (records : List Record) :
    layout (Record.encode stream) (unpadded records) 0 = recordBytes stream records := by
  induction records with
  | nil => rfl
  | cons record records ih =>
      simp only [unpadded, recordBytes] at ih
      simp only [unpadded, List.map_cons, layout, List.replicate_zero, List.nil_append, recordBytes,
        fileBytes_cons_record, ih]

theorem readJournal_records (hlawful : stream.Lawful) (nodeId fileId : Nat) {last : Int}
    {records : List Record} (hpos : 0 < config.checkpointInterval) (hlast : FitsInt64 last)
    (htypes : ∀ record ∈ records, record.FitsTypes)
    (hshort : (recordBytes stream (.snapshotHeaderRecord last 1 :: records)).length ≤
      config.checkpointInterval)
    (htells : Tells (recordBytes stream (.snapshotHeaderRecord last 1 :: records)).length)
    (hfits : JournalReadHandler.BufferState.blank.Fits (Record.encode stream) 0
      (unpadded (.snapshotHeaderRecord last 1 :: records))
      (recordBytes stream (.snapshotHeaderRecord last 1 :: records)).length) :
    readJournal stream config nodeId fileId
        (recordBytes stream (.snapshotHeaderRecord last 1 :: records)) =
      some ⟨.init nodeId fileId,
        (located (Record.encode stream) fileId 0
          (unpadded (.snapshotHeaderRecord last 1 :: records))).map (readFound stream),
        recordBytes stream (.snapshotHeaderRecord last 1 :: records)⟩ := by
  have hlayout := layout_unpadded stream (.snapshotHeaderRecord last 1 :: records)
  have hheader : frameSize (Record.encode stream (.snapshotHeaderRecord last 1)) ≤
      (recordBytes stream (.snapshotHeaderRecord last 1 :: records)).length := by
    rw [recordBytes, List.map_cons, fileBytes_cons_record, List.length_append, length_frame]
    exact Nat.le_add_right _ _
  have hwhole := JournalReadHandler.completeRecords_total (Record.encode stream) fileId 0
    (unpadded (.snapshotHeaderRecord last 1 :: records)) 0
  have hcut := JournalReadHandler.cutLength_total (Record.encode stream)
    (unpadded (.snapshotHeaderRecord last 1 :: records)) 0
  have htypes' : ∀ entry ∈ unpadded records, entry.2.FitsTypes := by
    intro entry hentry
    obtain ⟨record, hrecord, rfl⟩ := List.mem_map.mp hentry
    exact htypes record hrecord
  rw [hlayout, unpadded_cons] at hwhole hcut
  rw [unpadded_cons] at hlayout hfits ⊢
  generalize recordBytes stream (.snapshotHeaderRecord last 1 :: records) = bytes at *
  have hlength : bytes.length ≤ (layout (Record.encode stream)
      ((0, .snapshotHeaderRecord last 1) :: unpadded records) 0).length := by
    rw [hlayout]
  have hread := readJournal_layout hlawful nodeId fileId hpos hlast htypes' hlength hshort htells
    hheader hfits
  rwa [hlayout, hwhole, hcut, List.take_length] at hread

end TransactionRecovery

end ObjectStorage.Transaction
