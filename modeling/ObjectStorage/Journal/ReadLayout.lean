import ObjectStorage.Journal.ReadHandler

/-!
Reading a whole journal file: records with padding in front of them, possibly cut short. When the
reader returns the records of such a file depends on where its chunks end.
-/

namespace ObjectStorage.Journal

open JournalReadHandler (Found)

variable {ρ : Type}

/-! ### Files with padding -/

/-- Records, each behind as much padding as is written next to it, and padding at the end. -/
def layout (encode : ρ → Bytes) : List (Nat × ρ) → Nat → Bytes
  | [], trailing => List.replicate trailing padding
  | (count, record) :: entries, trailing =>
      List.replicate count padding ++ (frame (encode record) ++ layout encode entries trailing)

/-- The records with the offsets they start at and their sizes. -/
def located (encode : ρ → Bytes) (fileId : Nat) : Nat → List (Nat × ρ) → List (Found ρ)
  | _, [] => []
  | offset, (count, record) :: entries =>
      (record, toLex (fileId, offset + count), frameSize (encode record)) ::
        located encode fileId (offset + count + frameSize (encode record)) entries

/-- The record ends within the first `length` bytes. -/
def CompleteIn (length : Nat) (found : Found ρ) : Prop :=
  (ofLex found.2.1).2 + found.2.2 ≤ length

instance (length : Nat) : DecidablePred (CompleteIn (ρ := ρ) length) :=
  fun _ => inferInstanceAs (Decidable (_ ≤ _))

/-- Where the record starts that a prefix of this length cuts, and the end of the prefix when it
cuts none. -/
def cutOffset (encode : ρ → Bytes) (length : Nat) : Nat → List (Nat × ρ) → Nat
  | _, [] => length
  | offset, (count, record) :: entries =>
      if offset + count + frameSize (encode record) ≤ length then
        cutOffset encode length (offset + count + frameSize (encode record)) entries
      else min length (offset + count)

namespace JournalReadHandler

/-- The handler of a file from whose start records are read. -/
def openFile (fileId : Nat) (bytes : Bytes) : JournalReadHandler :=
  { file := bytes
    position := 0
    buffer := List.replicate maxReadChunkSize 0
    current := 0
    restSize := 0
    fileId := fileId
    fileOffset := 0
    endOfFile := false : JournalReadHandler }.prepareReadRecord

/-- `get_next_journal_record` until it returns no record. The fuel bounds the number of records. -/
def readAll (decode : Bytes → Option ρ) : Nat → JournalReadHandler →
    Option (List (Found ρ) × JournalReadHandler)
  | 0, _ => none
  | fuel + 1, r =>
      match getNextJournalRecord decode r with
      | none => none
      | some (none, r) => some ([], r)
      | some (some found, r) => (readAll decode fuel r).map fun (founds, r) => (found :: founds, r)

/-- Reading the first `length` bytes of a file returns the records that are complete in them, and
leaves the file cut where the record starts that is not. -/
def ReadsPrefix (decode : Bytes → Option ρ) (encode : ρ → Bytes) (fileId : Nat)
    (entries : List (Nat × ρ)) (trailing length : Nat) : Prop :=
  ∃ r, readAll decode (length + 1)
      (openFile fileId ((layout encode entries trailing).take length)) =
        some ((located encode fileId 0 entries).filter fun found => CompleteIn length found, r) ∧
    r.file = (layout encode entries trailing).take (cutOffset encode length 0 entries)

/-- Reading a file returns its records and leaves it as it is. -/
def ReadsBack (decode : Bytes → Option ρ) (encode : ρ → Bytes) (fileId : Nat)
    (entries : List (Nat × ρ)) (trailing : Nat) : Prop :=
  ∃ r, readAll decode ((layout encode entries trailing).length + 1)
      (openFile fileId (layout encode entries trailing)) =
        some (located encode fileId 0 entries, r) ∧
    r.file = layout encode entries trailing

/-! ### Where the chunks end -/

/-- How the fetched bytes lie in the buffer: they end a chunk or the file, or they are what a record
larger than a chunk has left, in the middle of the file or at its end. -/
inductive BufferMode where
  | filled
  | grown
  | ended
deriving DecidableEq

/-- The next multiple of a chunk size. -/
def roundUp (chunk size : Nat) : Nat := chunk * ((size + chunk - 1) / chunk)

/-- The bytes of as many chunks as a record needs. -/
def chunksFor (size : Nat) : Nat := roundUp recordsReadChunkSize size

/-- How the bytes behind a record lie in the buffer that was filled from the start of the record,
with `length` bytes to the end of the file. -/
def modeAfter (size length : Nat) : BufferMode :=
  if size ≤ recordsReadChunkSize then .filled
  else if length < chunksFor size then .ended
  else .grown

/-- The bytes fetched and not parsed yet, how they lie in the buffer, and what the buffer starts
with. -/
structure BufferState where
  left : Nat
  mode : BufferMode
  front : Bytes

/-- Nothing has been read yet. -/
def BufferState.blank : BufferState := ⟨0, .filled, List.replicate headerSize 0⟩

/-- The buffer behind a record with `count` bytes of padding in front of it, which begins at
`offset`, with `length` bytes to the end of the file. No read begins where `tell` fails, a chunk
that starts with padding must hold the whole record, bytes are moved only when they end a chunk, and
the chunks of a record are counted in 32 bits. -/
def BufferState.afterRecord (b : BufferState) (offset count : Nat) (payload : Bytes)
    (length : Nat) : Option BufferState :=
  let size := frameSize payload
  if count + size ≤ b.left then some { b with left := b.left - (count + size) }
  else if ¬ Tells (offset + b.left) then none
  else if b.left < count then
    if count - b.left + size ≤ recordsReadChunkSize then
      some ⟨min recordsReadChunkSize (length - b.left) - (count - b.left + size), .filled,
        (List.replicate (count - b.left) padding ++ frame payload).take headerSize⟩
    else none
  else if (b.left = count ∨ b.mode = .filled) ∧ chunksFor size < 2 ^ 32 then
    some ⟨min (chunksFor size) (length - count) - size, modeAfter size (length - count),
      (frame payload).take headerSize⟩
  else none

/-- What is left of a file at `offset` can be read, and cut off there. -/
def EndReads (offset : Nat) (torn : Bytes) : Prop :=
  if torn = [] then Tells offset
  else offset < 2 ^ 31 ∧ torn.length + recordsReadChunkSize < 2 ^ 32

instance (offset : Nat) (torn : Bytes) : Decidable (EndReads offset torn) :=
  inferInstanceAs (Decidable (ite _ _ _))

theorem EndReads.tells {offset : Nat} {torn : Bytes} (h : EndReads offset torn) :
    Tells offset := by
  unfold EndReads at h
  split at h
  · exact h
  · exact tells_of_lt h.1

/-- The end of a file is recognized, behind `count` bytes of padding and the first bytes of a
record. What these bytes lack of a header is taken from the front of the buffer. -/
def BufferState.EndFits (b : BufferState) (offset count : Nat) (torn : Bytes) : Prop :=
  b.left = count ∧ ((torn.length : Int) < recordSize (torn ++ b.front.drop torn.length) ∧
      EndReads (offset + count) torn ∨
    torn = [] ∧ b.mode = .ended)

instance (b : BufferState) (offset count : Nat) (torn : Bytes) :
    Decidable (b.EndFits offset count torn) :=
  inferInstanceAs (Decidable (_ ∧ (_ ∨ _)))

/-- The chunks end where the reader can go on, from the offset to the end of the `length` bytes that
are left. -/
def BufferState.Fits (encode : ρ → Bytes) : BufferState → Nat → List (Nat × ρ) → Nat → Prop
  | b, offset, [], length => b.EndFits offset length []
  | b, offset, (count, record) :: entries, length =>
      let size := frameSize (encode record)
      if count + size ≤ length then
        match b.afterRecord offset count (encode record) length with
        | some b' => b'.Fits encode (offset + (count + size)) entries (length - (count + size))
        | none => False
      else b.EndFits offset (min count length) ((frame (encode record)).take (length - count))

instance BufferState.decidableFits (encode : ρ → Bytes) : (b : BufferState) → (offset : Nat) →
    (entries : List (Nat × ρ)) → (length : Nat) → Decidable (b.Fits encode offset entries length)
  | b, offset, [], length => inferInstanceAs (Decidable (b.EndFits offset length []))
  | b, offset, (count, record) :: entries, length =>
      if hcomplete : count + frameSize (encode record) ≤ length then
        match hafter : b.afterRecord offset count (encode record) length with
        | some b' =>
            have := decidableFits encode b' (offset + (count + frameSize (encode record))) entries
              (length - (count + frameSize (encode record)))
            decidable_of_iff (b'.Fits encode (offset + (count + frameSize (encode record))) entries
                (length - (count + frameSize (encode record))))
              (by simp [Fits, hcomplete, hafter])
        | none => isFalse (by simp [Fits, hcomplete, hafter])
      else
        decidable_of_iff
          (b.EndFits offset (min count length) ((frame (encode record)).take (length - count)))
          (by simp [Fits, hcomplete])

/-! ### Steps of the reader -/

/-- The reader stands in front of `stream`, the rest of the file, and the bytes it has fetched lie
in a buffer of this mode that starts with `front`. -/
structure Scans (r : JournalReadHandler) (stream : Bytes) (mode : BufferMode) (front : Bytes) :
    Prop where
  stream_eq : r.file.drop r.fileOffset = stream
  unread_eq : r.unread = stream.take r.restSize
  fits : r.restSize = 0 ∨ r.current + r.restSize ≤ r.buffer.length
  position_eq : r.position = r.fileOffset + r.restSize
  position_le : r.position ≤ r.file.length
  ends : mode = .filled → r.restSize = 0 ∨ r.current + r.restSize = recordsReadChunkSize ∨
    r.position = r.file.length
  restSize_le : r.restSize ≤ recordsReadChunkSize
  front_eq : r.buffer.take headerSize = front
  front_length : front.length = headerSize
  endOfFile_iff : r.endOfFile = true ↔ mode = .ended
  ended : mode = .ended → r.position = r.file.length

variable {decode : Bytes → Option ρ} {encode : ρ → Bytes} {r : JournalReadHandler}
  {stream payload tail front : Bytes} {mode : BufferMode}

theorem scans_openFile (fileId : Nat) (bytes : Bytes) :
    Scans (openFile fileId bytes) bytes .filled BufferState.blank.front where
  stream_eq := rfl
  unread_eq := by simp [unread, openFile, prepareReadRecord]
  fits := .inl rfl
  position_eq := rfl
  position_le := Nat.zero_le _
  ends _ := .inl rfl
  restSize_le := Nat.zero_le _
  front_eq := by
    have hblank : (openFile fileId bytes).buffer = List.replicate (maxReadChunkSize + 1) 0 := by
      simp only [openFile, prepareReadRecord, resize, List.length_replicate, List.take_replicate,
        List.replicate_append_replicate]
      rfl
    rw [hblank, List.take_replicate]
    rfl
  front_length := rfl
  endOfFile_iff := by simp [openFile, prepareReadRecord]
  ended h := nomatch h

theorem Scans.length_eq (h : Scans r stream mode front) :
    stream.length + r.fileOffset = r.file.length := by
  have hlength := congrArg List.length h.stream_eq
  have hposition := h.position_eq
  have hle := h.position_le
  rw [List.length_drop] at hlength
  omega

theorem Scans.window (h : Scans r stream mode front) (hmode : r.restSize = 0 ∨ mode = .filled) :
    Window r stream :=
  ⟨h.stream_eq, h.unread_eq, h.fits, h.position_eq, h.position_le, hmode.elim .inl h.ends⟩

theorem paddingLength_replicate {rest : Bytes} (hrest : rest.head? ≠ some padding)
    (count n : Nat) :
    paddingLength ((List.replicate count padding ++ rest).take n) = min count n := by
  induction count generalizing n with
  | zero =>
      cases rest with
      | nil => simp [paddingLength]
      | cons b rest =>
          cases n with
          | zero => simp [paddingLength]
          | succ n =>
              have hb : ¬ b = padding := fun hb => hrest (by simp [hb])
              simp [paddingLength, hb]
  | succ count ih =>
      cases n with
      | zero => simp [paddingLength]
      | succ n =>
          have hrest := ih n
          simp only [paddingLength] at hrest ⊢
          simp only [List.replicate_succ, List.cons_append, List.take_succ_cons,
            List.takeWhile_cons, beq_self_eq_true, if_true, List.length_cons, hrest]
          omega

theorem Scans.skip {count : Nat} {rest : Bytes}
    (h : Scans r (List.replicate count padding ++ rest) mode front)
    (hrest : rest.head? ≠ some padding) :
    Scans r.skipPadding (List.replicate (count - r.restSize) padding ++ rest) mode front ∧
      r.skipPadding.restSize = r.restSize - count ∧
      r.skipPadding.fileOffset = r.fileOffset + min count r.restSize := by
  have hskipped : paddingLength r.unread = min count r.restSize := by
    rw [h.unread_eq]
    exact paddingLength_replicate hrest _ _
  have hdrop : (List.replicate count padding ++ rest).drop (min count r.restSize) =
      List.replicate (count - r.restSize) padding ++ rest := by
    rw [List.drop_append_of_le_length (by simp), List.drop_replicate]
    congr 2
    omega
  have hposition := h.position_eq
  have hfits := h.fits
  have hends := h.ends
  have hle := h.restSize_le
  refine ⟨⟨?_, ?_, ?_, ?_, h.position_le, fun hmode => ?_, ?_, h.front_eq, h.front_length,
    h.endOfFile_iff, h.ended⟩, ?_, ?_⟩
  · simp only [skipPadding, hskipped]
    rw [← List.drop_drop, h.stream_eq, hdrop]
  · have hcut := congrArg (List.drop (min count r.restSize)) h.unread_eq
    rw [unread, List.drop_take, List.drop_take, List.drop_drop, hdrop] at hcut
    simp only [skipPadding, hskipped]
    exact hcut
  · simp only [skipPadding, hskipped]
    omega
  · simp only [skipPadding, hskipped]
    omega
  · have hends := hends hmode
    simp only [skipPadding, hskipped]
    omega
  · simp only [skipPadding, hskipped]
    omega
  · simp only [skipPadding, hskipped]
    omega
  · simp only [skipPadding, hskipped]

theorem Scans.next_skip {count : Nat} {rest : Bytes}
    (h : Scans r (List.replicate count padding ++ rest) mode front)
    (hrest : rest.head? ≠ some padding) (decode : Bytes → Option ρ) :
    getNextJournalRecord decode r = getNextJournalRecord decode r.skipPadding := by
  obtain ⟨hskip, hleft, -⟩ := h.skip hrest
  have hpad : paddingLength r.skipPadding.unread = 0 := by
    rw [hskip.unread_eq, paddingLength_replicate hrest, hleft]
    omega
  simp only [getNextJournalRecord, skipPadding_eq hpad]

theorem head?_frame_append (payload tail : Bytes) :
    (frame payload ++ tail).head? ≠ some padding := by
  obtain ⟨bs, hbs⟩ := frame_eq_cons payload
  rw [hbs]
  exact fun h => absurd (Option.some.inj h) (by decide)

theorem Scans.paddingLength_unread (h : Scans r stream mode front)
    (hstream : stream.head? ≠ some padding) : paddingLength r.unread = 0 := by
  rw [h.unread_eq]
  simpa using paddingLength_replicate hstream 0 r.restSize

theorem Scans.consume (h : Scans r (frame payload ++ tail) mode front)
    (hcomplete : frameSize payload ≤ r.restSize) :
    Scans { r with
      restSize := r.restSize - frameSize payload
      current := r.current + frameSize payload
      fileOffset := r.fileOffset + frameSize payload } tail mode front := by
  have hposition := h.position_eq
  have hfits := h.fits
  have hle := h.restSize_le
  refine ⟨?_, ?_, ?_, ?_, h.position_le, fun hmode => ?_, ?_, h.front_eq, h.front_length,
    h.endOfFile_iff, h.ended⟩
  · rw [← List.drop_drop, h.stream_eq, ← length_frame, List.drop_left]
  · have hcut := congrArg (List.drop (frameSize payload)) h.unread_eq
    rwa [unread, List.drop_take, List.drop_take, List.drop_drop, ← length_frame,
      List.drop_left, length_frame] at hcut
  · simp only
    omega
  · simp only
    omega
  · have hends := h.ends hmode
    simp only
    omega
  · simp only
    omega

theorem headerSize_le_frameSize (payload : Bytes) : headerSize ≤ frameSize payload :=
  (show headerSize ≤ 16 by decide).trans (headerSize_add_footerSize_le payload)

theorem Scans.next_fetched (h : Scans r (frame payload ++ tail) mode front)
    (hcomplete : frameSize payload ≤ r.restSize) {record : ρ}
    (hdecode : decode payload = some record) :
    ∃ r', getNextJournalRecord decode r =
        some (some (record, toLex (r.fileId, r.fileOffset), frameSize payload), r') ∧
      Scans r' tail mode front ∧ r'.restSize = r.restSize - frameSize payload ∧
      r'.fileOffset = r.fileOffset + frameSize payload ∧ r'.file = r.file ∧
      r'.fileId = r.fileId := by
  have hbound : frameSize payload < 2 ^ 63 :=
    (hcomplete.trans h.restSize_le).trans_lt (by decide)
  have hheader := (headerSize_le_frameSize payload).trans hcomplete
  have henough : ¬(r.restSize < headerSize ∨
      (r.restSize : Int) < recordSize (r.buffer.drop r.current)) := by
    rw [recordSize_of_unread h.unread_eq hbound hheader]
    omega
  simp only [getNextJournalRecord, skipPadding_eq (h.paddingLength_unread
    (head?_frame_append payload tail))]
  rw [if_neg henough, takeRecord_of_unread h.unread_eq hbound hcomplete hdecode]
  exact ⟨_, rfl, h.consume hcomplete, rfl, rfl, rfl, rfl⟩

/-! ### Refills -/

theorem length_writeAt {bs data : Bytes} {i : Nat} (h : i + data.length ≤ bs.length) :
    (writeAt bs data i).length = bs.length := by
  simp only [writeAt, List.length_append, List.length_take, List.length_drop]
  omega

theorem length_refill (r : JournalReadHandler) (hle : r.restSize ≤ recordsReadChunkSize) :
    r.refill.buffer.length = recordsReadChunkSize := by
  have hmoved : (((resize r.buffer recordsReadChunkSize).drop
      (recordsReadChunkSize - r.restSize)).take r.restSize).length ≤ recordsReadChunkSize := by
    rw [List.length_take, List.length_drop, length_resize]
    omega
  have hdata : (r.read (recordsReadChunkSize - r.restSize)).length ≤
      recordsReadChunkSize - r.restSize := List.length_take_le _ _
  simp only [JournalReadHandler.refill]
  rw [length_writeAt, length_writeAt, length_resize]
  · rw [length_resize]
    omega
  · rw [length_writeAt, length_resize]
    · omega
    · rw [length_resize]
      omega

/-- The buffer starts with the bytes that are read, and goes on with the old ones. -/
theorem Scans.refill_front (h : Scans r stream mode front) (hzero : r.restSize = 0) :
    r.refill.buffer.take headerSize = (stream ++ front.drop stream.length).take headerSize := by
  have htwelve : headerSize ≤ recordsReadChunkSize := by decide
  have hold : (resize r.buffer recordsReadChunkSize).take headerSize = front := by
    have hlength := congrArg List.length h.front_eq
    rw [h.front_length, List.length_take] at hlength
    rw [resize, List.take_append_of_le_length (by rw [List.length_take]; omega), List.take_take,
      Nat.min_eq_left htwelve, h.front_eq]
  have hbuffer : r.refill.buffer = stream.take recordsReadChunkSize ++
      (resize r.buffer recordsReadChunkSize).drop (stream.take recordsReadChunkSize).length := by
    have hposition := h.position_eq
    have hdata : r.read recordsReadChunkSize = stream.take recordsReadChunkSize := by
      rw [read, hposition, hzero, Nat.add_zero, h.stream_eq]
    simp only [JournalReadHandler.refill, hzero, Nat.sub_zero, List.take_zero, hdata]
    simp [writeAt]
  rw [hbuffer]
  by_cases hshort : stream.length < headerSize
  · have hall : stream.take recordsReadChunkSize = stream := List.take_of_length_le (by omega)
    rw [hall, ← hold, List.drop_take, List.take_append, List.take_append, List.take_take,
      Nat.min_self]
  · rw [List.take_append_of_le_length (by rw [List.length_take]; omega), List.take_take,
      Nat.min_eq_left htwelve, List.take_append_of_le_length (by omega)]

/-- A refill that may move what was fetched brings in the first chunk of the stream. -/
theorem Scans.refill (h : Scans r stream mode front) (hmode : r.restSize = 0 ∨ mode = .filled)
    (hnotEnded : mode ≠ .ended) (hmore : r.restSize = 0 ∨ r.restSize < stream.length)
    (hheader : r.restSize = 0 ∨ headerSize ≤ stream.length) :
    Scans r.refill stream .filled ((stream ++ front.drop stream.length).take headerSize) ∧
      r.refill.current = 0 ∧ r.refill.restSize = min recordsReadChunkSize stream.length := by
  have htwelve : headerSize ≤ recordsReadChunkSize := by decide
  have hlength := h.front_length
  obtain ⟨hwindow, hcurrent, hrest⟩ := (h.window hmode).refill h.restSize_le hmore
  refine ⟨⟨hwindow.stream_eq, hwindow.unread_eq, hwindow.fits, hwindow.position_eq,
    hwindow.position_le, fun _ => hwindow.ends, by omega, ?_, ?_,
    ⟨fun heof => absurd (h.endOfFile_iff.mp heof) hnotEnded, fun hm => nomatch hm⟩,
    fun hm => nomatch hm⟩, hcurrent, hrest⟩
  · rcases hheader with hzero | hheader
    · exact h.refill_front hzero
    · have hcut := congrArg (List.take headerSize) hwindow.unread_eq
      rw [unread, hcurrent, List.drop_zero, List.take_take, List.take_take,
        Nat.min_eq_left (by omega)] at hcut
      rw [hcut, List.take_append_of_le_length hheader]
  · rw [List.length_take, List.length_append, List.length_drop]
    omega

theorem Scans.ne_ended (h : Scans r stream mode front) (hmore : r.restSize < stream.length) :
    mode ≠ .ended := by
  intro hmode
  have hend := h.ended hmode
  have hposition := h.position_eq
  have hlength := h.length_eq
  omega

theorem Scans.not_endOfFile (h : Scans r stream mode front) (hmode : mode ≠ .ended) :
    ¬ r.endOfFile = true := fun heof => hmode (h.endOfFile_iff.mp heof)

theorem Scans.needs (h : Scans r (frame payload ++ tail) mode front)
    (hbound : frameSize payload < 2 ^ 63) (hshort : r.restSize < frameSize payload) :
    r.restSize < headerSize ∨ (r.restSize : Int) < recordSize (r.buffer.drop r.current) := by
  by_cases hless : r.restSize < headerSize
  · exact .inl hless
  · right
    rw [recordSize_of_unread h.unread_eq hbound (by omega)]
    omega

theorem take_frame_append (payload tail rest : Bytes) :
    ((frame payload ++ tail) ++ rest).take headerSize = (frame payload).take headerSize := by
  rw [List.append_assoc, List.take_append_of_le_length
    (by rw [length_frame]; exact headerSize_le_frameSize payload)]

/-- A record that is not fetched yet, but fits into a chunk, is returned from a refilled buffer. -/
theorem Scans.next_refilled (h : Scans r (frame payload ++ tail) mode front)
    (hmode : r.restSize = 0 ∨ mode = .filled) (hshort : r.restSize < frameSize payload)
    (hsmall : frameSize payload ≤ recordsReadChunkSize) (htells : Tells r.position) {record : ρ}
    (hdecode : decode payload = some record) :
    ∃ r', getNextJournalRecord decode r =
        some (some (record, toLex (r.fileId, r.fileOffset), frameSize payload), r') ∧
      Scans r' tail .filled ((frame payload).take headerSize) ∧
      r'.restSize = min recordsReadChunkSize (frame payload ++ tail).length - frameSize payload ∧
      r'.fileOffset = r.fileOffset + frameSize payload ∧ r'.file = r.file ∧
      r'.fileId = r.fileId := by
  have hbound : frameSize payload < 2 ^ 63 := hsmall.trans_lt (by decide)
  have hheader := headerSize_le_frameSize payload
  have hlength : (frame payload ++ tail).length = frameSize payload + tail.length := by
    rw [List.length_append, length_frame]
  have hnotEnded := h.ne_ended (by omega)
  obtain ⟨hrefill, hcurrent, hrest⟩ := h.refill hmode hnotEnded (.inr (by omega))
    (.inr (by omega))
  rw [take_frame_append] at hrefill
  have hcomplete : frameSize payload ≤ r.refill.restSize := by omega
  have hsize := recordSize_of_unread hrefill.unread_eq hbound (hheader.trans hcomplete)
  rw [hcurrent, List.drop_zero] at hsize
  have hgrown : ¬ (r.refill.restSize : Int) < recordSize r.refill.buffer := by
    rw [hsize]
    omega
  have hopen : ¬(r.refill.endOfFile = true ∧ r.refill.restSize = 0) := by omega
  have hle := h.restSize_le
  obtain ⟨start, hstart⟩ := Option.isSome_iff_exists.mp htells
  simp only [getNextJournalRecord, skipPadding_eq (h.paddingLength_unread
    (head?_frame_append payload tail))]
  rw [if_pos (h.needs hbound hshort), if_neg (h.not_endOfFile hnotEnded), if_neg hle.not_gt,
    hstart, Option.bind_some, grow_of_complete _ hgrown, if_pos hgrown,
    skipPadding_eq (hrefill.paddingLength_unread (head?_frame_append payload tail)), if_neg hopen,
    takeRecord_of_unread hrefill.unread_eq hbound hcomplete hdecode]
  exact ⟨_, rfl, hrefill.consume hcomplete, by rw [hrest], rfl, rfl, rfl⟩

/-! ### Records larger than a chunk -/

theorem le_roundUp {chunk : Nat} (hpos : 0 < chunk) (size : Nat) : size ≤ roundUp chunk size := by
  have hdiv := Nat.div_add_mod (size + chunk - 1) chunk
  have hmod := Nat.mod_lt (size + chunk - 1) hpos
  unfold roundUp
  omega

theorem roundUp_lt {chunk : Nat} (hpos : 0 < chunk) (size : Nat) :
    roundUp chunk size < size + chunk := by
  have hdiv := Nat.div_add_mod (size + chunk - 1) chunk
  unfold roundUp
  omega

theorem roundUp_small {chunk size : Nat} (hpos : 0 < size) (hsmall : size ≤ chunk) :
    roundUp chunk size = chunk := by
  have hone : (size + chunk - 1) / chunk = 1 := Nat.div_eq_of_lt_le (by omega) (by omega)
  rw [roundUp, hone, Nat.mul_one]

theorem roundUp_large {chunk size : Nat} (hpos : 0 < chunk) (hlarge : chunk < size) :
    ∃ n, roundUp chunk size = chunk + chunk * n := by
  have hone : 1 ≤ (size + chunk - 1) / chunk := (Nat.one_le_div_iff hpos).mpr (by omega)
  obtain ⟨n, hn⟩ := Nat.exists_eq_add_of_le hone
  exact ⟨n, by rw [roundUp, hn, Nat.mul_add, Nat.mul_one]⟩

theorem chunk_pos : 0 < recordsReadChunkSize := by decide

theorem bound_of_chunksFor {size : Nat} (hroom : chunksFor size < 2 ^ 32) : size < 2 ^ 63 :=
  (le_roundUp chunk_pos size).trans_lt (hroom.trans (by decide))

/-- The buffer is filled from its start with all that was fetched of `stream`. -/
structure Grows (r : JournalReadHandler) (stream : Bytes) : Prop where
  stream_eq : r.file.drop r.fileOffset = stream
  current_eq : r.current = 0
  buffer_eq : r.buffer = stream.take r.restSize
  position_eq : r.position = r.fileOffset + r.restSize
  restSize_le : r.restSize ≤ stream.length
  notEnded : r.endOfFile = false

theorem Grows.read_eq (h : Grows r stream) (n : Nat) :
    r.read n = (stream.drop r.restSize).take n := by
  rw [read, h.position_eq, ← h.stream_eq, List.drop_drop]

theorem Grows.buffer_grown (h : Grows r stream) :
    (writeAt (resize r.buffer (r.restSize + recordsReadChunkSize))
        (r.read recordsReadChunkSize) r.restSize).take
      (r.restSize + (r.read recordsReadChunkSize).length) =
        stream.take (r.restSize + (r.read recordsReadChunkSize).length) ∧
    ((r.read recordsReadChunkSize).length = recordsReadChunkSize →
      writeAt (resize r.buffer (r.restSize + recordsReadChunkSize))
        (r.read recordsReadChunkSize) r.restSize =
          stream.take (r.restSize + recordsReadChunkSize)) := by
  have hle := h.restSize_le
  have hlength : r.buffer.length = r.restSize := by
    rw [h.buffer_eq, List.length_take]
    omega
  have hfirst : (resize r.buffer (r.restSize + recordsReadChunkSize)).take r.restSize =
      stream.take r.restSize := by
    rw [resize, List.take_append_of_le_length (by rw [List.length_take]; omega), List.take_take,
      Nat.min_eq_left (Nat.le_add_right _ _), List.take_of_length_le hlength.le, h.buffer_eq]
  have hjoined : stream.take r.restSize ++ r.read recordsReadChunkSize =
      stream.take (r.restSize + (r.read recordsReadChunkSize).length) := by
    rw [List.take_add, h.read_eq]
    congr 1
    rw [List.length_take]
    exact List.take_eq_take_min
  have hcount : (stream.take (r.restSize + (r.read recordsReadChunkSize).length)).length =
      r.restSize + (r.read recordsReadChunkSize).length := by
    rw [← hjoined, List.length_append, List.length_take, Nat.min_eq_left hle]
  rw [writeAt, hfirst, hjoined]
  refine ⟨?_, fun hfull => ?_⟩
  · rw [List.take_append_of_le_length (by omega), List.take_take, Nat.min_self]
  · rw [hfull, List.drop_of_length_le (by rw [length_resize]), List.append_nil]

/-- Chunks are fetched until a record that is complete in the file has all its bytes. -/
theorem Grows.grow (h : Grows r stream) {size n fuel : Nat}
    (hchunks : r.restSize + recordsReadChunkSize * n = chunksFor size) (hfuel : n < fuel)
    (hroom : chunksFor size < 2 ^ 32) :
    ∃ r', grow size fuel r = r' ∧ r'.file = r.file ∧ r'.fileId = r.fileId ∧
      r'.fileOffset = r.fileOffset ∧ r'.current = 0 ∧
      (r'.restSize = chunksFor size ∧ chunksFor size ≤ stream.length ∨
        r'.restSize = stream.length ∧ stream.length < chunksFor size) ∧
      r'.buffer.take r'.restSize = stream.take r'.restSize ∧ r'.restSize ≤ r'.buffer.length ∧
      r'.position = r'.fileOffset + r'.restSize ∧
      (r'.endOfFile = true ↔ stream.length < chunksFor size) := by
  have hle := h.restSize_le
  induction n generalizing r fuel with
  | zero =>
      have hrest : r.restSize = chunksFor size := by omega
      have henough : size ≤ chunksFor size := le_roundUp chunk_pos size
      refine ⟨r, grow_of_complete _ (by omega), rfl, rfl, rfl, h.current_eq,
        .inl ⟨hrest, by omega⟩, ?_, ?_, h.position_eq, ?_⟩
      · rw [h.buffer_eq, List.take_take, Nat.min_self]
      · rw [h.buffer_eq, List.length_take]
        omega
      · simp only [h.notEnded, Bool.false_eq_true, false_iff]
        omega
  | succ n ih =>
      have hlt : chunksFor size < size + recordsReadChunkSize := roundUp_lt chunk_pos size
      have hmul : recordsReadChunkSize * (n + 1) =
        recordsReadChunkSize * n + recordsReadChunkSize :=
        Nat.mul_succ _ _
      have hless : (r.restSize : Int) < (size : Int) ∧
          r.restSize + recordsReadChunkSize < 2 ^ 32 := by omega
      have hdata : (r.read recordsReadChunkSize).length =
          min recordsReadChunkSize (stream.length - r.restSize) := by
        rw [h.read_eq, List.length_take, List.length_drop]
      obtain ⟨hfront, hwhole⟩ := h.buffer_grown
      obtain ⟨fuel, rfl⟩ := Nat.exists_eq_succ_of_ne_zero (Nat.ne_zero_of_lt hfuel)
      rw [JournalReadHandler.grow, if_pos hless]
      by_cases hfull : (r.read recordsReadChunkSize).length = recordsReadChunkSize
      · simp only [hfull, ne_eq, not_true_eq_false, if_false]
        have hgrown : Grows { r with
            buffer := writeAt (resize r.buffer (r.restSize + recordsReadChunkSize))
              (r.read recordsReadChunkSize) r.restSize
            position := r.position + recordsReadChunkSize
            restSize := r.restSize + recordsReadChunkSize } stream :=
          ⟨h.stream_eq, h.current_eq, hwhole hfull, by simp only [h.position_eq]; omega,
            by simp only; omega, h.notEnded⟩
        exact ih hgrown (by simp only; omega) (by omega) (by simp only; omega)
      · simp only [ne_eq, hfull, not_false_eq_true, if_true]
        have hrest : r.restSize + (r.read recordsReadChunkSize).length = stream.length := by omega
        have hend : stream.length < chunksFor size := by omega
        refine ⟨_, rfl, rfl, rfl, rfl, h.current_eq,
          .inr ⟨hrest, hend⟩, hfront, ?_, ?_, ?_⟩
        · simp only [writeAt, List.length_append, List.length_take, length_resize]
          omega
        · simp only [h.position_eq]
          omega
        · simp only [true_iff]
          exact hend

/-- The buffer grows from a refilled one until it has a record that is larger than a chunk. -/
theorem Scans.grows (h : Scans r (frame payload ++ tail) mode front)
    (hmode : r.restSize = 0 ∨ mode = .filled) (hroom : chunksFor (frameSize payload) < 2 ^ 32)
    (hlarge : recordsReadChunkSize < frameSize payload) :
    recordSize r.refill.buffer = frameSize payload ∧
    ∃ r', grow (frameSize payload) (r.refill.file.length + 1) r.refill = r' ∧
      r'.file = r.file ∧ r'.fileId = r.fileId ∧ r'.fileOffset = r.fileOffset ∧ r'.current = 0 ∧
      (r'.restSize = chunksFor (frameSize payload) ∧
          chunksFor (frameSize payload) ≤ (frame payload ++ tail).length ∨
        r'.restSize = (frame payload ++ tail).length ∧
          (frame payload ++ tail).length < chunksFor (frameSize payload)) ∧
      r'.buffer.take r'.restSize = (frame payload ++ tail).take r'.restSize ∧
      r'.restSize ≤ r'.buffer.length ∧ r'.position = r'.fileOffset + r'.restSize ∧
      (r'.endOfFile = true ↔
        (frame payload ++ tail).length < chunksFor (frameSize payload)) := by
  have hheader := headerSize_le_frameSize payload
  have htwelve : headerSize ≤ recordsReadChunkSize := by decide
  have hbound := bound_of_chunksFor hroom
  have hrestLe := h.restSize_le
  have hfile := h.length_eq
  have hlength : (frame payload ++ tail).length = frameSize payload + tail.length := by
    rw [List.length_append, length_frame]
  have hnotEnded := h.ne_ended (by omega)
  obtain ⟨hrefill, hcurrent, hrest⟩ := h.refill hmode hnotEnded (.inr (by omega))
    (.inr (by omega))
  have hfull : r.refill.restSize = recordsReadChunkSize := by omega
  have hsize := recordSize_of_unread hrefill.unread_eq hbound (by omega)
  rw [hcurrent, List.drop_zero] at hsize
  have hbuffer : r.refill.buffer = (frame payload ++ tail).take r.refill.restSize := by
    have hcut := hrefill.unread_eq
    rw [unread, hcurrent, List.drop_zero] at hcut
    rw [← hcut, List.take_of_length_le (by rw [length_refill r hrestLe]; omega)]
  have hgrows : Grows r.refill (frame payload ++ tail) :=
    ⟨hrefill.stream_eq, hcurrent, hbuffer, hrefill.position_eq, by omega,
      (by simpa using h.not_endOfFile hnotEnded : r.endOfFile = false)⟩
  -- the number of chunks to come
  obtain ⟨n, hn⟩ := roundUp_large chunk_pos hlarge
  have hlt := roundUp_lt chunk_pos (frameSize payload)
  have hnle : n ≤ recordsReadChunkSize * n := Nat.le_mul_of_pos_left n chunk_pos
  refine ⟨hsize, ?_⟩
  exact hgrows.grow (by rw [hfull, chunksFor, hn])
    (show n < r.refill.file.length + 1 by rw [show r.refill.file = r.file from rfl]; omega) hroom

theorem modeAfter_eq_ended {size length : Nat} (hlarge : recordsReadChunkSize < size) :
    modeAfter size length = .ended ↔ length < chunksFor size := by
  unfold modeAfter
  rw [if_neg hlarge.not_ge]
  split
  · exact iff_of_true rfl ‹_›
  · exact iff_of_false (fun hm => nomatch hm) ‹_›

theorem modeAfter_ne_filled {size length : Nat} (hlarge : recordsReadChunkSize < size) :
    modeAfter size length ≠ .filled := by
  unfold modeAfter
  rw [if_neg hlarge.not_ge]
  split <;> simp

/-- A record that is larger than a chunk is returned from a buffer that has grown. -/
theorem Scans.next_grown (h : Scans r (frame payload ++ tail) mode front)
    (hmode : r.restSize = 0 ∨ mode = .filled) (hroom : chunksFor (frameSize payload) < 2 ^ 32)
    (hlarge : recordsReadChunkSize < frameSize payload) (htells : Tells r.position) {record : ρ}
    (hdecode : decode payload = some record) :
    ∃ r', getNextJournalRecord decode r =
        some (some (record, toLex (r.fileId, r.fileOffset), frameSize payload), r') ∧
      Scans r' tail (modeAfter (frameSize payload) (frame payload ++ tail).length)
        ((frame payload).take headerSize) ∧
      r'.restSize = min (chunksFor (frameSize payload)) (frame payload ++ tail).length -
        frameSize payload ∧
      r'.fileOffset = r.fileOffset + frameSize payload ∧ r'.file = r.file ∧
      r'.fileId = r.fileId := by
  obtain ⟨hsize, r', hgrow, hfile', hid, hoffset, hcurrent, hfetched, hbuffer, hbufferLe,
    hposition, hended⟩ := h.grows hmode hroom hlarge
  have hheader := headerSize_le_frameSize payload
  have hbound := bound_of_chunksFor hroom
  have hlength : (frame payload ++ tail).length = frameSize payload + tail.length := by
    rw [List.length_append, length_frame]
  have hshort : r.restSize < frameSize payload := by
    have hrestLe := h.restSize_le
    omega
  have hnotEnded := h.not_endOfFile (h.ne_ended (by omega))
  have hle : frameSize payload ≤ chunksFor (frameSize payload) := le_roundUp chunk_pos _
  have hlt : chunksFor (frameSize payload) < frameSize payload + recordsReadChunkSize :=
    roundUp_lt chunk_pos _
  have hrest : frameSize payload ≤ r'.restSize ∧ r'.restSize ≤ (frame payload ++ tail).length ∧
      r'.restSize - frameSize payload ≤ recordsReadChunkSize := by
    rcases hfetched with ⟨hall, hsome⟩ | ⟨hall, hsome⟩ <;> rw [hall]
    · exact ⟨hle, hsome, by omega⟩
    · exact ⟨by omega, Nat.le_refl _, by omega⟩
  obtain ⟨hcomplete, hrestLe, hleft⟩ := hrest
  have hunread : r'.unread = (frame payload ++ tail).take r'.restSize := by
    rw [unread, hcurrent, List.drop_zero, hbuffer]
  have hstill : ¬ (r'.restSize : Int) < (frameSize payload : Int) := by omega
  have hnotEmpty : ¬(r'.endOfFile = true ∧ r'.restSize = 0) := by omega
  have hpad : paddingLength r'.unread = 0 := by
    rw [hunread]
    exact paddingLength_frame payload tail _
  have hnext : getNextJournalRecord decode r = takeRecord decode r' := by
    have hrestLe := h.restSize_le
    obtain ⟨start, hstart⟩ := Option.isSome_iff_exists.mp htells
    simp only [getNextJournalRecord, skipPadding_eq (h.paddingLength_unread
      (head?_frame_append payload tail))]
    rw [if_pos (h.needs hbound hshort), if_neg hnotEnded, if_neg hrestLe.not_gt, hstart,
      Option.bind_some, hsize, hgrow, if_pos hstill, skipPadding_eq hpad, if_neg hnotEmpty]
  have hmodes : modeAfter (frameSize payload) (frame payload ++ tail).length = .ended ↔ _ :=
    modeAfter_eq_ended hlarge
  have hfile := h.length_eq
  refine ⟨{ r' with
      restSize := r'.restSize - frameSize payload
      current := r'.current + frameSize payload
      fileOffset := r'.fileOffset + frameSize payload }, ?_,
    ⟨?_, ?_, ?_, ?_, ?_, fun hm => absurd hm (modeAfter_ne_filled hlarge), hleft, ?_, ?_,
      hended.trans hmodes.symm, fun hm => ?_⟩, ?_, by rw [hoffset], hfile', hid⟩
  · rw [hnext, takeRecord_of_unread hunread hbound hcomplete hdecode, hid, hoffset]
  · simp only [hfile', hoffset]
    rw [← List.drop_drop, h.stream_eq, ← length_frame, List.drop_left]
  · have hcut := congrArg (List.drop (frameSize payload)) hunread
    rwa [unread, List.drop_take, List.drop_take, List.drop_drop, ← length_frame,
      List.drop_left, length_frame] at hcut
  · simp only
    omega
  · simp only
    omega
  · simp only [hfile', hposition, hoffset]
    omega
  · have hcut := congrArg (List.take headerSize) hbuffer
    rw [List.take_take, List.take_take, Nat.min_eq_left (hheader.trans hcomplete)] at hcut
    rw [hcut, List.take_append_of_le_length (by rw [length_frame]; exact hheader)]
  · rw [List.length_take, length_frame, Nat.min_eq_left hheader]
  · have hend := hmodes.mp hm
    obtain ⟨-, hsome⟩ | ⟨hall, -⟩ := hfetched
    · omega
    · simp only [hfile', hposition, hoffset, hall]
      omega
  · rcases hfetched with ⟨hall, hsome⟩ | ⟨hall, hsome⟩ <;> simp only [hall]
    · rw [Nat.min_eq_left hsome]
    · rw [Nat.min_eq_right hsome.le]

/-! ### Chunks that start with padding -/

theorem recordSize_padding {buffer : Bytes} (h : buffer.head? = some padding) :
    recordSize buffer = -1 := by
  cases buffer with
  | nil => simp at h
  | cons b bs =>
      obtain rfl := Option.some.inj h
      rfl

theorem recordSize_take (buffer : Bytes) :
    recordSize (buffer.take headerSize) = recordSize buffer := by
  have hfour : (buffer.take headerSize).take 4 = buffer.take 4 := by
    rw [List.take_take]
    rfl
  have height : ((buffer.take headerSize).drop 4).take 8 = (buffer.drop 4).take 8 := by
    rw [List.drop_take, List.take_take]
    rfl
  rw [recordSize, recordSize, hfour, height]

/-- A chunk that starts with padding is read, and what comes next is looked for behind the padding
of this chunk. -/
theorem Scans.next_padded {count : Nat} {rest : Bytes}
    (h : Scans r (List.replicate count padding ++ rest) mode front) (hcount : 0 < count)
    (hzero : r.restSize = 0) (hrest : rest.head? ≠ some padding) (htells : Tells r.position)
    (decode : Bytes → Option ρ) :
    ∃ r', getNextJournalRecord decode r = takeRecord decode r' ∧
      Scans r' (List.replicate (count - recordsReadChunkSize) padding ++ rest) .filled
        ((List.replicate count padding ++ rest ++
          front.drop (List.replicate count padding ++ rest).length).take headerSize) ∧
      r'.restSize = min recordsReadChunkSize (count + rest.length) - count ∧
      (count ≤ recordsReadChunkSize → r'.fileOffset = r.fileOffset + count) ∧ r'.file = r.file ∧
      r'.fileId = r.fileId := by
  have hlength : (List.replicate count padding ++ rest).length = count + rest.length := by simp
  have hnotEnded := h.ne_ended (by omega)
  obtain ⟨hrefill, hcurrent, hrest'⟩ := h.refill (.inl hzero) hnotEnded (.inl hzero) (.inl hzero)
  obtain ⟨hskip, hleft, hoffset⟩ := hrefill.skip hrest
  have hcounts : count - r.refill.restSize = count - recordsReadChunkSize := by omega
  rw [hcounts] at hskip
  have hpad : paddingLength r.unread = 0 := by simp [unread, hzero, paddingLength]
  have hfirst : (r.refill.buffer.take headerSize).head? = some padding := by
    obtain ⟨n, rfl⟩ := Nat.exists_eq_succ_of_ne_zero hcount.ne'
    rw [hrefill.front_eq]
    rfl
  have hsize : recordSize r.refill.buffer = -1 := by
    rw [← recordSize_take, recordSize_padding hfirst]
  have hgrown : ¬ (r.refill.restSize : Int) < recordSize r.refill.buffer := by
    rw [hsize]
    omega
  have hopen : ¬(r.refill.skipPadding.endOfFile = true ∧ r.refill.skipPadding.restSize = 0) :=
    fun hend => h.not_endOfFile hnotEnded hend.1
  have hneeds : r.restSize < headerSize ∨
      (r.restSize : Int) < recordSize (r.buffer.drop r.current) := .inl (by rw [hzero]; decide)
  obtain ⟨start, hstart⟩ := Option.isSome_iff_exists.mp htells
  refine ⟨r.refill.skipPadding, ?_, hskip, by omega, fun hle => ?_, rfl, rfl⟩
  · simp only [getNextJournalRecord, skipPadding_eq hpad]
    rw [if_pos hneeds, if_neg (h.not_endOfFile hnotEnded), if_neg h.restSize_le.not_gt, hstart,
      Option.bind_some, grow_of_complete _ hgrown, if_pos hgrown, if_neg hopen]
  · have hsame : r.refill.fileOffset = r.fileOffset := rfl
    omega

/-- A record that is not complete in the buffer fails an assertion. -/
theorem takeRecord_incomplete (decode : Bytes → Option ρ)
    (hunread : r.unread = (frame payload ++ tail).take r.restSize)
    (hbound : frameSize payload < 2 ^ 63) (hshort : r.restSize < frameSize payload) :
    takeRecord decode r = none := by
  have hfails : r.restSize < headerSize ∨
      ((r.restSize : Int) < recordSize (r.buffer.drop r.current) ∧ r.restSize ≠ 0) := by
    by_cases hless : r.restSize < headerSize
    · exact .inl hless
    · right
      have htwelve : 0 < headerSize := by decide
      rw [recordSize_of_unread hunread hbound (by omega)]
      omega
  simp only [takeRecord]
  rw [if_pos hfails]

/-! ### The end of a file -/

theorem takeRecord_file {found? : Option (Found ρ)} {r' : JournalReadHandler}
    (h : takeRecord decode r = some (found?, r')) : r'.file = r.file := by
  unfold takeRecord at h
  simp only at h
  split at h
  · cases h
  · split at h
    · obtain ⟨-, rfl⟩ := Prod.mk.inj (Option.some.inj h)
      rfl
    · split at h
      · cases h
      · split at h
        · cases h
        · obtain ⟨-, rfl⟩ := Prod.mk.inj (Option.some.inj h)
          rfl

/-- No record and no failure: the file is left as it is, or cut where the last read began, according
to `tell`. -/
theorem getNextJournalRecord_file {r' : JournalReadHandler}
    (h : getNextJournalRecord decode r = some (none, r')) :
    r'.file = r.file ∨
      ∃ start, seekOffset r.position = some start ∧ 0 ≤ start ∧
        r'.file = r.file.take start.toNat := by
  have hgrown : ∀ size fuel, (grow size fuel r.skipPadding.refill).file = r.file :=
    fun size fuel => grow_file size fuel _
  simp only [getNextJournalRecord] at h
  split at h
  · split at h
    · obtain ⟨-, rfl⟩ := Prod.mk.inj (Option.some.inj h)
      exact .inl rfl
    · split at h
      · cases h
      · obtain ⟨start, hstart, h⟩ := Option.bind_eq_some_iff.mp h
        split at h
        · split at h
          · obtain ⟨-, rfl⟩ := Prod.mk.inj (Option.some.inj h)
            exact .inl (hgrown _ _)
          · exact .inl ((takeRecord_file h).trans (hgrown _ _))
        · split at h
          · split at h
            · obtain ⟨-, rfl⟩ := Prod.mk.inj (Option.some.inj h)
              exact .inl (hgrown _ _)
            · split at h
              · cases h
              next hnonneg =>
                obtain ⟨-, rfl⟩ := Prod.mk.inj (Option.some.inj h)
                exact .inr ⟨start, hstart, by omega, congrArg (List.take start.toNat) (hgrown _ _)⟩
          · cases h
  · have hfile : r'.file = r.skipPadding.file := takeRecord_file h
    exact .inl hfile

theorem grow_torn {size : Int} {fuel : Nat} (hstream : r.file.drop r.fileOffset = stream)
    (hposition : r.position = r.fileOffset + r.restSize) (hrest : r.restSize ≤ stream.length)
    (hsize : (stream.length : Int) < size)
    (hroom : stream.length + recordsReadChunkSize < 2 ^ 32)
    (hfuel : stream.length < r.restSize + recordsReadChunkSize * fuel) :
    (grow size fuel r).restSize = stream.length ∧ (grow size fuel r).endOfFile = true := by
  induction fuel generalizing r with
  | zero => omega
  | succ fuel ih =>
      have hdata : (r.read recordsReadChunkSize).length =
          min recordsReadChunkSize (stream.length - r.restSize) := by
        rw [read, hposition, ← List.drop_drop, hstream, List.length_take, List.length_drop]
      have hmul : recordsReadChunkSize * (fuel + 1) =
          recordsReadChunkSize * fuel + recordsReadChunkSize := Nat.mul_succ _ _
      have hless : (r.restSize : Int) < size ∧ r.restSize + recordsReadChunkSize < 2 ^ 32 := by
        omega
      rw [JournalReadHandler.grow, if_pos hless]
      by_cases hfull : (r.read recordsReadChunkSize).length = recordsReadChunkSize
      · simp only [hfull, ne_eq, not_true_eq_false, if_false]
        exact ih hstream (by simp only; omega) (by simp only; omega) (by simp only; omega)
      · simp only [ne_eq, hfull, not_false_eq_true, if_true, and_true]
        omega

/-- The rest of the file is shorter than the record it starts: it is read, and cut off where `tell`
says. -/
theorem Scans.next_torn_eq (h : Scans r stream mode front) (hzero : r.restSize = 0)
    (hmode : mode ≠ .ended) (hstream : stream.head? ≠ some padding)
    (hcut : (stream.length : Int) < recordSize (stream ++ front.drop stream.length))
    (hroom : stream.length + recordsReadChunkSize < 2 ^ 32) {start : Int}
    (hstart : seekOffset r.position = some start) (decode : Bytes → Option ρ) :
    ∃ g, g.file = r.file ∧ getNextJournalRecord decode r =
      if stream.length = 0 then some (none, g)
      else if start < 0 then none
      else some (none, { g with file := g.file.take start.toNat, position := start.toNat }) := by
  have hlength := h.length_eq
  have hposition := h.position_eq
  have hpad := h.paddingLength_unread hstream
  have hneeds : r.restSize < headerSize ∨
      (r.restSize : Int) < recordSize (r.buffer.drop r.current) := .inl (by rw [hzero]; decide)
  obtain ⟨hrefill, hcurrent, hrest⟩ := h.refill (.inl hzero) hmode (.inl hzero) (.inl hzero)
  have hsize : recordSize r.refill.buffer = recordSize (stream ++ front.drop stream.length) := by
    rw [← recordSize_take, hrefill.front_eq, recordSize_take]
  have hpos : r.refill.file.length + 1 ≤ recordsReadChunkSize * (r.refill.file.length + 1) :=
    Nat.le_mul_of_pos_left _ chunk_pos
  have hsame : r.refill.file = r.file := rfl
  obtain ⟨hgrown, hended⟩ := grow_torn hrefill.stream_eq hrefill.position_eq (by omega)
    (hsize ▸ hcut) hroom (show stream.length < r.refill.restSize +
      recordsReadChunkSize * (r.refill.file.length + 1) by rw [hsame] at hpos ⊢; omega)
  have hless : ¬¬ (((grow (recordSize r.refill.buffer) (r.refill.file.length + 1)
      r.refill).restSize : Nat) : Int) < recordSize r.refill.buffer := by
    rw [hgrown, hsize]
    exact not_not.mpr hcut
  refine ⟨grow (recordSize r.refill.buffer) (r.refill.file.length + 1) r.refill,
    grow_file _ _ _, ?_⟩
  simp only [getNextJournalRecord, skipPadding_eq hpad]
  rw [if_pos hneeds, if_neg (h.not_endOfFile hmode), if_neg h.restSize_le.not_gt, hstart,
    Option.bind_some, if_neg hless, if_pos hended, hgrown]

theorem Scans.next_torn (h : Scans r stream mode front) (hzero : r.restSize = 0)
    (hstream : stream.head? ≠ some padding)
    (hcut : (stream.length : Int) < recordSize (stream ++ front.drop stream.length))
    (hreads : EndReads r.fileOffset stream) (decode : Bytes → Option ρ) :
    ∃ r', getNextJournalRecord decode r = some (none, r') ∧
      r'.file = r.file.take r.fileOffset := by
  have hlength := h.length_eq
  have hposition := h.position_eq
  by_cases hmode : mode = .ended
  · have hend := h.ended hmode
    have hneeds : r.restSize < headerSize ∨
        (r.restSize : Int) < recordSize (r.buffer.drop r.current) := .inl (by rw [hzero]; decide)
    refine ⟨r, ?_, (List.take_of_length_le (by omega)).symm⟩
    simp only [getNextJournalRecord, skipPadding_eq (h.paddingLength_unread hstream)]
    rw [if_pos hneeds, if_pos (h.endOfFile_iff.mpr hmode)]
  · have hplace : r.position = r.fileOffset := by omega
    by_cases hempty : stream = []
    · subst hempty
      obtain ⟨start, hstart⟩ := Option.isSome_iff_exists.mp (hplace ▸ hreads.tells)
      obtain ⟨g, hfile, hnext⟩ := h.next_torn_eq hzero hmode hstream hcut (by decide) hstart decode
      rw [List.length_nil] at hlength
      exact ⟨g, hnext, hfile.trans (List.take_of_length_le (by omega)).symm⟩
    · rw [EndReads, if_neg hempty] at hreads
      obtain ⟨g, hfile, hnext⟩ := h.next_torn_eq hzero hmode hstream hcut hreads.2
        (seekOffset_of_lt (hplace ▸ hreads.1)) decode
      rw [if_neg fun hnil => hempty (List.eq_nil_of_length_eq_zero hnil),
        if_neg (by omega)] at hnext
      exact ⟨_, hnext, by simp only [hfile, hplace, Int.toNat_natCast]⟩

/-- The file ends behind padding and the first bytes of a record, which are cut off. -/
theorem Scans.next_end {count : Nat} {torn : Bytes}
    (h : Scans r (List.replicate count padding ++ torn) mode front)
    (htorn : torn.head? ≠ some padding)
    (hfits : BufferState.EndFits ⟨r.restSize, mode, front⟩ r.fileOffset count torn)
    (decode : Bytes → Option ρ) :
    ∃ r', getNextJournalRecord decode r = some (none, r') ∧
      r'.file = r.file.take (r.fileOffset + count) := by
  obtain ⟨hleft, hend⟩ := hfits
  have hleft : r.restSize = count := hleft
  obtain ⟨hskip, hrest, hoffset⟩ := h.skip htorn
  rw [hleft, Nat.sub_self, List.replicate_zero, List.nil_append] at hskip
  rw [h.next_skip htorn, show r.fileOffset + count = r.skipPadding.fileOffset by omega]
  rcases hend with ⟨hcut, hreads⟩ | ⟨rfl, hmode⟩
  · have hplace : r.skipPadding.fileOffset = r.fileOffset + count := by omega
    exact hskip.next_torn (by omega) htorn hcut (hplace ▸ hreads) decode
  · have hend := hskip.ended hmode
    have hposition := hskip.position_eq
    have hneeds : r.skipPadding.restSize < headerSize ∨ (r.skipPadding.restSize : Int) <
        recordSize (r.skipPadding.buffer.drop r.skipPadding.current) :=
      .inl (by rw [hrest, hleft, Nat.sub_self]; decide)
    refine ⟨r.skipPadding, ?_, (List.take_of_length_le (by omega)).symm⟩
    simp only [getNextJournalRecord, skipPadding_eq (hskip.paddingLength_unread htorn)]
    rw [if_pos hneeds, if_pos (hskip.endOfFile_iff.mpr hmode)]

/-! ### One entry -/

/-- A complete record behind padding is returned whenever the buffer fits it. -/
theorem Scans.next_entry {count : Nat} {b' : BufferState}
    (h : Scans r (List.replicate count padding ++ (frame payload ++ tail)) mode front)
    (hafter : BufferState.afterRecord ⟨r.restSize, mode, front⟩ r.fileOffset count payload
      (count + frameSize payload + tail.length) = some b') {record : ρ}
    (hdecode : decode payload = some record) :
    ∃ r', getNextJournalRecord decode r = some (some (record,
        toLex (r.fileId, r.fileOffset + count), frameSize payload), r') ∧
      Scans r' tail b'.mode b'.front ∧ r'.restSize = b'.left ∧
      r'.fileOffset = r.fileOffset + (count + frameSize payload) ∧ r'.file = r.file ∧
      r'.fileId = r.fileId := by
  have hhead := head?_frame_append payload tail
  have hlength : (frame payload ++ tail).length = frameSize payload + tail.length := by
    rw [List.length_append, length_frame]
  obtain ⟨hskip, hrest, hoffset⟩ := h.skip hhead
  have hsame : r.skipPadding.file = r.file ∧ r.skipPadding.fileId = r.fileId := ⟨rfl, rfl⟩
  have hplace : r.skipPadding.position = r.fileOffset + r.restSize := h.position_eq
  unfold BufferState.afterRecord at hafter
  simp only at hafter
  rw [h.next_skip hhead]
  split at hafter
  · -- the record is fetched already
    obtain rfl := Option.some.inj hafter
    rw [show count - r.restSize = 0 by omega, List.replicate_zero, List.nil_append] at hskip
    obtain ⟨r', hnext, hscans, hrest', hoffset', hfile, hid⟩ :=
      hskip.next_fetched (by omega) hdecode
    rw [show r.fileOffset + count = r.skipPadding.fileOffset by omega]
    exact ⟨r', hnext, hscans, by simp only; omega, by omega, hfile, hid⟩
  · by_cases htells : Tells (r.fileOffset + r.restSize)
    swap
    · rw [if_pos htells] at hafter
      cases hafter
    rw [if_neg (not_not.mpr htells)] at hafter
    rw [← hplace] at htells
    split at hafter
    · -- padding goes on in the next chunk
      split at hafter
      · rename_i hmore hchunk
        obtain rfl := Option.some.inj hafter
        have hzero : r.skipPadding.restSize = 0 := by omega
        obtain ⟨r', hnext, hscans, hrest', hoffset', hfile, hid⟩ :=
          hskip.next_padded (by omega) hzero hhead htells decode
        have hoffset' := hoffset' (by omega)
        rw [show count - r.restSize - recordsReadChunkSize = 0 by omega, List.replicate_zero,
          List.nil_append] at hscans
        have hcomplete : frameSize payload ≤ r'.restSize := by omega
        have hbound : frameSize payload < 2 ^ 63 :=
          (hcomplete.trans hscans.restSize_le).trans_lt (by decide)
        rw [hnext, takeRecord_of_unread hscans.unread_eq hbound hcomplete hdecode,
          show r.fileOffset + count = r'.fileOffset by omega,
          show r.fileId = r'.fileId from hid.symm]
        refine ⟨_, rfl, ?_, by simp only; omega, by simp only; omega, hfile, rfl⟩
        have hconsume := hscans.consume hcomplete
        have htwelve := headerSize_le_frameSize payload
        rwa [List.append_assoc, List.append_assoc, ← List.append_assoc (List.replicate _ _),
          List.take_append_of_le_length (by rw [List.length_append, length_frame]; omega)]
          at hconsume
      · cases hafter
    · -- the record is read from its start
      split at hafter
      · rename_i hnot hmore hcond
        obtain ⟨hmode, hroom⟩ := hcond
        obtain rfl := Option.some.inj hafter
        rw [show count - r.restSize = 0 by omega, List.replicate_zero, List.nil_append] at hskip
        have hmode' : r.skipPadding.restSize = 0 ∨ mode = .filled :=
          hmode.imp_left fun heq => by omega
        have hshort : r.skipPadding.restSize < frameSize payload := by omega
        have hsum : r.skipPadding.fileOffset + frameSize payload =
            r.fileOffset + (count + frameSize payload) := by omega
        rw [show r.fileOffset + count = r.skipPadding.fileOffset by omega,
          show count + frameSize payload + tail.length - count =
            (frame payload ++ tail).length by omega]
        by_cases hsmall : frameSize payload ≤ recordsReadChunkSize
        · obtain ⟨r', hnext, hscans, hrest', hoffset', hfile, hid⟩ :=
            hskip.next_refilled hmode' hshort hsmall htells hdecode
          have hchunks : chunksFor (frameSize payload) = recordsReadChunkSize :=
            roundUp_small ((by decide : 0 < 16).trans_le (headerSize_add_footerSize_le payload))
              hsmall
          refine ⟨r', hnext, ?_, by rw [hrest', hchunks], hoffset'.trans hsum, hfile, hid⟩
          rwa [modeAfter, if_pos hsmall]
        · obtain ⟨r', hnext, hscans, hrest', hoffset', hfile, hid⟩ :=
            hskip.next_grown hmode' hroom (Nat.lt_of_not_le hsmall) htells hdecode
          exact ⟨r', hnext, hscans, hrest', hoffset'.trans hsum, hfile, hid⟩
      · cases hafter

end JournalReadHandler

end ObjectStorage.Journal
