import ObjectStorage.Journal.Framing

/-!
`JournalReadHandler`: the reader that takes the records of a journal file through a buffer, which it
fills chunk by chunk and from which it skips the padding between records.
-/

namespace ObjectStorage.Journal

/-- `RECORDS_READ_CHUNK_SIZE`. -/
def recordsReadChunkSize : Nat := 524288

/-- `MAX_READ_CHUNK_SIZE`. -/
def maxReadChunkSize : Nat := 65536

/-- `seek_offset`: the place that `lseek` returns is kept in an `int`, of which -1 is taken for a
failure. -/
def seekOffset (place : Nat) : Option Int :=
  let value := (BitVec.ofNat 32 place).toInt
  if value = -1 then none else some value

/-- A place of which `tell` gives an offset, be it the wrong one. -/
def Tells (place : Nat) : Prop := (seekOffset place).isSome

instance (place : Nat) : Decidable (Tells place) := inferInstanceAs (Decidable (_ = true))

theorem not_tells {place : Nat} : ¬ Tells place ↔ seekOffset place = none := by
  simp [Tells]

theorem seekOffset_of_lt {place : Nat} (h : place < 2 ^ 31) :
    seekOffset place = some (place : Int) := by
  have hvalue : (BitVec.ofNat 32 place).toInt = place := by
    rw [BitVec.toInt_ofNat']
    exact Int.bmod_eq_of_le (by omega) (by omega)
  simp only [seekOffset, hvalue]
  rw [if_neg (by omega)]

theorem tells_of_lt {place : Nat} (h : place < 2 ^ 31) : Tells place := by
  rw [Tells, seekOffset_of_lt h]
  rfl

theorem seekOffset_lt {place : Nat} {value : Int} (h : seekOffset place = some value) :
    value < 2 ^ 31 := by
  simp only [seekOffset] at h
  split at h
  · cases h
  · exact Option.some.inj h ▸ BitVec.toInt_lt

/-- Behind 2 GiB it is negative, or a place far in front. -/
theorem seekOffset_behind {place : Nat} (h : ¬ place < 2 ^ 31) {value : Int}
    (hvalue : seekOffset place = some value) : value < 0 ∨ value + 2 ^ 32 ≤ place := by
  have hbmod : (BitVec.ofNat 32 place).toInt = (place : Int).bmod (2 ^ 32) :=
    BitVec.toInt_ofNat' place
  have hlt : (place : Int).bmod (2 ^ 32) < 2 ^ 31 := Int.bmod_lt (by decide)
  simp only [seekOffset, hbmod] at hvalue
  split at hvalue
  · cases hvalue
  · have hsome := Option.some.inj hvalue
    have hmod := Int.bmod_emod (x := place) (m := 2 ^ 32)
    omega

/-- The reader, with the file and the position of its file handler. `current` is the index that
`cur_buffer_ptr` points to. -/
structure JournalReadHandler where
  file : Bytes
  position : Nat
  buffer : Bytes
  current : Nat
  restSize : Nat
  fileId : Nat
  fileOffset : Nat
  endOfFile : Bool

/-! ### Vectors of bytes -/

/-- `std::vector::resize`. -/
def resize (bs : Bytes) (n : Nat) : Bytes :=
  bs.take n ++ List.replicate (n - bs.length) 0

/-- `memcpy` into a buffer, from index `i` on. -/
def writeAt (bs data : Bytes) (i : Nat) : Bytes :=
  bs.take i ++ data ++ bs.drop (i + data.length)

/-- How many bytes of padding come first. -/
def paddingLength (bs : Bytes) : Nat := (bs.takeWhile (· == padding)).length

namespace JournalReadHandler

/-- What `::read` returns for `n` bytes: fewer bytes only at the end of the file. -/
def read (h : JournalReadHandler) (n : Nat) : Bytes := (h.file.drop h.position).take n

/-- The bytes of the buffer that are still to be parsed. -/
def unread (h : JournalReadHandler) : Bytes := (h.buffer.drop h.current).take h.restSize

/-- `seek`, which fails at a negative offset. -/
def seek (h : JournalReadHandler) (offset : Int) : Option JournalReadHandler :=
  if offset < 0 then none
  else (seekOffset offset.toNat).map fun _ => { h with position := offset.toNat }

/-- `get_end_offset`, which goes to the end of the file and back. -/
def getEndOffset (h : JournalReadHandler) : Option (Int × JournalReadHandler) :=
  (seekOffset h.position).bind fun current =>
    (seekOffset h.file.length).bind fun size => (h.seek current).map fun h => (size, h)

theorem seek_eq_some {h h' : JournalReadHandler} {offset : Int} (hseek : h.seek offset = some h') :
    0 ≤ offset ∧ h' = { h with position := offset.toNat } := by
  unfold seek at hseek
  split at hseek
  · cases hseek
  · obtain ⟨_, -, rfl⟩ := Option.map_eq_some_iff.mp hseek
    exact ⟨by omega, rfl⟩

theorem seek_of_lt {h : JournalReadHandler} {offset : Int} (hnonneg : 0 ≤ offset)
    (hnear : offset < 2 ^ 31) : h.seek offset = some { h with position := offset.toNat } := by
  rw [seek, if_neg (by omega), seekOffset_of_lt (by omega), Option.map_some]

/-- `get_end_offset` changes nothing but the position. -/
theorem getEndOffset_eq_some {h h' : JournalReadHandler} {size : Int}
    (hend : h.getEndOffset = some (size, h')) :
    ∃ position, h' = { h with position := position } := by
  obtain ⟨current, -, hend⟩ := Option.bind_eq_some_iff.mp hend
  obtain ⟨_, -, hend⟩ := Option.bind_eq_some_iff.mp hend
  obtain ⟨r, hseek, heq⟩ := Option.map_eq_some_iff.mp hend
  obtain ⟨-, rfl⟩ := Prod.mk.inj heq
  exact ⟨_, (seek_eq_some hseek).2⟩

theorem getEndOffset_file {h h' : JournalReadHandler} {size : Int}
    (hend : h.getEndOffset = some (size, h')) : h'.file = h.file := by
  obtain ⟨position, rfl⟩ := getEndOffset_eq_some hend
  rfl

theorem getEndOffset_of_lt (h : JournalReadHandler) (hle : h.position ≤ h.file.length)
    (hshort : h.file.length < 2 ^ 31) : h.getEndOffset = some ((h.file.length : Int), h) := by
  have hposition := seekOffset_of_lt (hle.trans_lt hshort)
  rw [getEndOffset, hposition, Option.bind_some, seekOffset_of_lt hshort, Option.bind_some,
    seek_of_lt (by omega) (by omega), Option.map_some, Int.toNat_natCast]

/-- The position is taken as it is, which is right in front of 2 GiB. -/
def prepareReadRecord (h : JournalReadHandler) : JournalReadHandler :=
  { h with
    buffer := resize h.buffer (maxReadChunkSize + 1)
    restSize := 0
    endOfFile := false
    fileOffset := h.position }

def skipPadding (h : JournalReadHandler) : JournalReadHandler :=
  let skipped := paddingLength h.unread
  { h with
    current := h.current + skipped
    restSize := h.restSize - skipped
    fileOffset := h.fileOffset + skipped }

/-- The first part of a refill: the unread bytes, taken from the place where a full buffer has them,
go to the front, and the rest of the chunk is read behind them. -/
def refill (h : JournalReadHandler) : JournalReadHandler :=
  let buffer := resize h.buffer recordsReadChunkSize
  let moved := (buffer.drop (recordsReadChunkSize - h.restSize)).take h.restSize
  let data := h.read (recordsReadChunkSize - h.restSize)
  { h with
    buffer := writeAt (writeAt buffer moved 0) data h.restSize
    position := h.position + data.length
    restSize := h.restSize + data.length
    current := 0 }

/-- Whole chunks are read until the buffer has `size` bytes; a short read ends the file. The fuel
bounds the number of chunks in the file. Where `rest_size`, a `uint32_t`, would overflow and the
buffer shrink, nothing more is read. -/
def grow (size : Int) : Nat → JournalReadHandler → JournalReadHandler
  | 0, h => h
  | fuel + 1, h =>
      if h.restSize < size ∧ h.restSize + recordsReadChunkSize < 2 ^ 32 then
        let data := h.read recordsReadChunkSize
        let grown := { h with
          buffer := writeAt (resize h.buffer (h.restSize + recordsReadChunkSize)) data h.restSize
          position := h.position + data.length
          restSize := h.restSize + data.length }
        if data.length ≠ recordsReadChunkSize then { grown with endOfFile := true }
        else grow size fuel grown
      else h

theorem grow_file (size : Int) (fuel : Nat) (r : JournalReadHandler) :
    (grow size fuel r).file = r.file := by
  induction fuel generalizing r with
  | zero => rfl
  | succ fuel ih =>
      rw [grow]
      split
      · simp only
        split
        · rfl
        · rw [ih]
      · rfl

theorem grow_current (size : Int) (fuel : Nat) (r : JournalReadHandler) :
    (grow size fuel r).current = r.current := by
  induction fuel generalizing r with
  | zero => rfl
  | succ fuel ih =>
      rw [grow]
      split
      · simp only
        split
        · rfl
        · rw [ih]
      · rfl

/-- A record, the offset it starts at and its size. -/
abbrev Found (ρ : Type) := ρ × JournalOffset × Nat

variable {ρ : Type}

/-- The last part of `get_next_journal_record`. `none` stands for a failed assertion. -/
def takeRecord (decode : Bytes → Option ρ) (h : JournalReadHandler) :
    Option (Option (Found ρ) × JournalReadHandler) :=
  let size := recordSize (h.buffer.drop h.current)
  if h.restSize < headerSize ∨ (h.restSize < size ∧ h.restSize ≠ 0) then none
  else if size = -1 then some (none, h)
  else if size < headerSize + footerSize then none
  else
    match (payload? (h.buffer.drop h.current) size.toNat).bind decode with
    | none => none
    | some record =>
        some (some (record, toLex (h.fileId, h.fileOffset), size.toNat),
          { h with
            restSize := h.restSize - size.toNat
            current := h.current + size.toNat
            fileOffset := h.fileOffset + size.toNat })

/-- `get_next_journal_record`, which returns no record at the end of the file. A record that is cut
short by the end of the file is cut off where the last read began, as far as `tell` says. Unread
bytes that exceed a chunk would be taken from in front of the buffer. -/
def getNextJournalRecord (decode : Bytes → Option ρ) (h : JournalReadHandler) :
    Option (Option (Found ρ) × JournalReadHandler) :=
  let h := h.skipPadding
  if h.restSize < headerSize ∨ h.restSize < recordSize (h.buffer.drop h.current) then
    if h.endOfFile then some (none, h)
    else if recordsReadChunkSize < h.restSize then none
    else
      (seekOffset h.position).bind fun startReadingOffset =>
        let h := h.refill
        let size := recordSize h.buffer
        let h := grow size (h.file.length + 1) h
        if ¬ h.restSize < size then
          let h := h.skipPadding
          if h.endOfFile ∧ h.restSize = 0 then some (none, h) else takeRecord decode h
        else if h.endOfFile then
          if h.restSize = 0 then some (none, h)
          else if startReadingOffset < 0 then none
          else some (none, { h with
            file := h.file.take startReadingOffset.toNat
            position := startReadingOffset.toNat })
        else none
  else takeRecord decode h

/-! ### Reading what was written -/

/-- The reader stands in front of `stream`, the rest of the file. The bytes it has fetched already
are the first ones of the stream, and they end a full buffer or the file. -/
structure Window (r : JournalReadHandler) (stream : Bytes) : Prop where
  stream_eq : r.file.drop r.fileOffset = stream
  unread_eq : r.unread = stream.take r.restSize
  fits : r.restSize = 0 ∨ r.current + r.restSize ≤ r.buffer.length
  position_eq : r.position = r.fileOffset + r.restSize
  position_le : r.position ≤ r.file.length
  ends : r.restSize = 0 ∨ r.current + r.restSize = recordsReadChunkSize ∨
    r.position = r.file.length

variable {decode : Bytes → Option ρ} {r : JournalReadHandler} {stream payload tail : Bytes}

theorem Window.length_eq (h : Window r stream) : stream.length + r.fileOffset = r.file.length := by
  have hlength := congrArg List.length h.stream_eq
  have hle := h.position_le
  rw [h.position_eq] at hle
  rw [List.length_drop] at hlength
  omega

theorem length_resize (bs : Bytes) (n : Nat) : (resize bs n).length = n := by
  simp [resize]
  omega

theorem drop_take_resize {bs : Bytes} {n i k : Nat} (hik : i + k ≤ n) (hbs : i + k ≤ bs.length) :
    ((resize bs n).drop i).take k = (bs.drop i).take k := by
  have htake : (bs.take n).length = min n bs.length := List.length_take
  rw [resize, List.drop_append_of_le_length (by omega), List.take_append_of_le_length
    (by rw [List.length_drop]; omega), List.drop_take, List.take_take, Nat.min_eq_left (by omega)]

theorem Window.refill (h : Window r stream) (hrest : r.restSize ≤ recordsReadChunkSize)
    (hmore : r.restSize = 0 ∨ r.restSize < stream.length) :
    Window r.refill stream ∧ r.refill.current = 0 ∧
      r.refill.restSize = min recordsReadChunkSize stream.length := by
  have hposition := h.position_eq
  have hlength := h.length_eq
  have hle := h.position_le
  have hmoved : ((resize r.buffer recordsReadChunkSize).drop
      (recordsReadChunkSize - r.restSize)).take r.restSize = stream.take r.restSize := by
    rcases h.ends with hzero | hfull | hend
    · simp [hzero]
    · rcases h.fits with hzero | hfits
      · simp [hzero]
      · have hcurrent : recordsReadChunkSize - r.restSize = r.current := by omega
        rw [hcurrent, drop_take_resize (by omega) hfits]
        exact h.unread_eq
    · rcases hmore with hzero | hlt
      · simp [hzero]
      · omega
  have hdata : r.read (recordsReadChunkSize - r.restSize) =
      (stream.drop r.restSize).take (recordsReadChunkSize - r.restSize) := by
    rw [read, hposition, ← h.stream_eq, List.drop_drop]
  have hmovedLength : (stream.take r.restSize).length = r.restSize := by
    rw [List.length_take]
    omega
  have hdataLength : ((stream.drop r.restSize).take (recordsReadChunkSize - r.restSize)).length =
      min recordsReadChunkSize stream.length - r.restSize := by
    rw [List.length_take, List.length_drop]
    omega
  have hfront : stream.take r.restSize ++
      (stream.drop r.restSize).take (recordsReadChunkSize - r.restSize) =
        stream.take recordsReadChunkSize := by
    rw [← List.take_add]
    congr 1
    omega
  have hbuffer : r.refill.buffer = stream.take recordsReadChunkSize ++
      (writeAt (resize r.buffer recordsReadChunkSize) (stream.take r.restSize) 0).drop
        (r.restSize + (r.read (recordsReadChunkSize - r.restSize)).length) := by
    simp only [JournalReadHandler.refill, hmoved]
    rw [writeAt, hdata, ← hfront]
    congr 2
    rw [writeAt, List.take_zero, List.nil_append, List.take_append_of_le_length (by omega)]
    exact List.take_of_length_le (by omega)
  have hrestSize : r.refill.restSize = min recordsReadChunkSize stream.length := by
    simp only [JournalReadHandler.refill, hdata, hdataLength]
    omega
  have htakeLength : (stream.take recordsReadChunkSize).length = r.refill.restSize := by
    rw [hrestSize, List.length_take]
  have hnewPosition : r.refill.position = r.fileOffset + r.refill.restSize := by
    have hunfold : r.refill.position =
        r.position + (r.read (recordsReadChunkSize - r.restSize)).length := rfl
    rw [hunfold, hdata, hdataLength, hrestSize]
    omega
  refine ⟨⟨h.stream_eq, ?_, ?_, hnewPosition, ?_, ?_⟩, rfl, hrestSize⟩
  · have hall : stream.take recordsReadChunkSize = stream.take r.refill.restSize := by
      rw [hrestSize]
      exact (List.take_eq_take_iff.mpr (by omega)).symm
    rw [← hall, unread, hbuffer, ← htakeLength]
    exact List.take_left
  · right
    rw [hbuffer, List.length_append, htakeLength]
    exact (Nat.zero_add _).trans_le (Nat.le_add_right _ _)
  · rw [hnewPosition, hrestSize]
    show r.fileOffset + _ ≤ r.file.length
    omega
  · right
    by_cases hlong : recordsReadChunkSize ≤ stream.length
    · left
      rw [hrestSize]
      exact (Nat.zero_add _).trans (by omega)
    · right
      rw [hnewPosition, hrestSize]
      show r.fileOffset + _ = r.file.length
      omega

/-! ### One record -/

theorem paddingLength_frame (payload tail : Bytes) (n : Nat) :
    paddingLength ((frame payload ++ tail).take n) = 0 := by
  obtain ⟨bs, hbs⟩ := frame_eq_cons payload
  rw [hbs]
  cases n with
  | zero => rfl
  | succ n => rfl

theorem skipPadding_eq (hpad : paddingLength r.unread = 0) : r.skipPadding = r := by
  simp [skipPadding, hpad]

theorem recordSize_of_unread (hunread : r.unread = (frame payload ++ tail).take r.restSize)
    (hsize : frameSize payload < 2 ^ 63) (hheader : headerSize ≤ r.restSize) :
    recordSize (r.buffer.drop r.current) = frameSize payload := by
  apply recordSize_of_take hsize
  have hcut := congrArg (List.take headerSize) hunread
  have hle : headerSize ≤ (frame payload).length := by
    rw [length_frame]
    exact (show headerSize ≤ 16 by decide).trans (headerSize_add_footerSize_le payload)
  rwa [unread, List.take_take, List.take_take, Nat.min_eq_left hheader,
    List.take_append_of_le_length hle] at hcut

theorem takeRecord_of_unread {record : ρ}
    (hunread : r.unread = (frame payload ++ tail).take r.restSize)
    (hsize : frameSize payload < 2 ^ 63) (hcomplete : frameSize payload ≤ r.restSize)
    (hdecode : decode payload = some record) :
    takeRecord decode r = some (some (record, toLex (r.fileId, r.fileOffset), frameSize payload),
      { r with
        restSize := r.restSize - frameSize payload
        current := r.current + frameSize payload
        fileOffset := r.fileOffset + frameSize payload }) := by
  have hsixteen := headerSize_add_footerSize_le payload
  have hheader : headerSize ≤ r.restSize := (show headerSize ≤ 16 by decide).trans
    (hsixteen.trans hcomplete)
  have hrecordSize := recordSize_of_unread hunread hsize hheader
  have hpayload : payload? (r.buffer.drop r.current) (frameSize payload) = some payload := by
    apply payload?_of_take
    have hcut := congrArg (List.take (frameSize payload)) hunread
    rwa [unread, List.take_take, List.take_take, Nat.min_eq_left hcomplete, ← length_frame,
      List.take_left, length_frame] at hcut
  have hnotShort : ¬(r.restSize < headerSize ∨
      ((r.restSize : Int) < (frameSize payload : Int) ∧ r.restSize ≠ 0)) := by
    omega
  have hnotMinus : ¬((frameSize payload : Int) = -1) := by omega
  have hnotSmall : ¬((frameSize payload : Int) < headerSize + footerSize) := by
    have hsum : (headerSize : Int) + footerSize = 16 := by decide
    omega
  simp only [takeRecord, hrecordSize, Int.toNat_natCast, hpayload, Option.bind_some, hdecode]
  rw [if_neg hnotShort, if_neg hnotMinus, if_neg hnotSmall]

/-- The buffer starts with the header of a record. -/
def HeaderInFront (buffer : Bytes) : Prop := headerSize ≤ buffer.length ∧ 0 < recordSize buffer

theorem recordSize_resize {buffer : Bytes} {n : Nat} (hbuffer : headerSize ≤ buffer.length)
    (hn : headerSize ≤ n) : recordSize (resize buffer n) = recordSize buffer := by
  have htake : ∀ k i, i + k ≤ headerSize →
      ((resize buffer n).drop i).take k = (buffer.drop i).take k :=
    fun k i hk => drop_take_resize (hk.trans hn) (hk.trans hbuffer)
  have hfour := htake 4 0 (by decide)
  rw [List.drop_zero, List.drop_zero] at hfour
  rw [recordSize, recordSize, htake 8 4 (by decide), hfour]

theorem HeaderInFront.resize {buffer : Bytes} (h : HeaderInFront buffer) {n : Nat}
    (hn : headerSize ≤ n) : HeaderInFront (Journal.resize buffer n) :=
  ⟨(length_resize buffer n).symm ▸ hn, (recordSize_resize h.1 hn).symm ▸ h.2⟩

/-- Between two records: the window, a buffer that starts with a header unless nothing was fetched,
and no end of file seen so far. -/
structure ReadsAt (r : JournalReadHandler) (stream : Bytes) : Prop extends Window r stream where
  front : r.restSize = 0 ∨ HeaderInFront r.buffer
  notEnded : r.endOfFile = false

theorem ReadsAt.tells (h : ReadsAt r stream) (hshort : r.file.length < 2 ^ 31) :
    Tells r.position := tells_of_lt (h.position_le.trans_lt hshort)

theorem Window.consume (h : Window r (frame payload ++ tail))
    (hcomplete : frameSize payload ≤ r.restSize) :
    Window { r with
      restSize := r.restSize - frameSize payload
      current := r.current + frameSize payload
      fileOffset := r.fileOffset + frameSize payload } tail := by
  have hposition := h.position_eq
  have hfits := h.fits
  have hends := h.ends
  refine ⟨?_, ?_, ?_, ?_, h.position_le, ?_⟩
  · rw [← List.drop_drop, h.stream_eq, ← length_frame, List.drop_left]
  · have hcut := congrArg (List.drop (frameSize payload)) h.unread_eq
    rwa [unread, List.drop_take, List.drop_take, List.drop_drop, ← length_frame,
      List.drop_left, length_frame] at hcut
  · simp only
    omega
  · simp only
    omega
  · simp only
    omega

theorem grow_of_complete {size : Int} (fuel : Nat) (h : ¬ (r.restSize : Int) < size) :
    grow size fuel r = r := by
  cases fuel with
  | zero => rfl
  | succ fuel => rw [grow, if_neg fun hmore => h hmore.1]

/-- A complete record of at most a chunk is returned, and the reader stands behind it. -/
theorem ReadsAt.next (h : ReadsAt r (frame payload ++ tail)) (htells : Tells r.position)
    (hsize : frameSize payload ≤ recordsReadChunkSize) {record : ρ}
    (hdecode : decode payload = some record) :
    ∃ r', getNextJournalRecord decode r =
        some (some (record, toLex (r.fileId, r.fileOffset), frameSize payload), r') ∧
      ReadsAt r' tail ∧ HeaderInFront r'.buffer ∧ r'.file = r.file ∧ r'.fileId = r.fileId ∧
      r'.fileOffset = r.fileOffset + frameSize payload ∧
      (r.restSize = 0 → r'.position = r.fileOffset +
        min recordsReadChunkSize (frame payload ++ tail).length) := by
  have hsixteen := headerSize_add_footerSize_le payload
  have hbound : frameSize payload < 2 ^ 63 := hsize.trans_lt (by decide)
  have hlength : (frame payload ++ tail).length = frameSize payload + tail.length := by
    rw [List.length_append, length_frame]
  have hpad : paddingLength r.unread = 0 := by
    rw [h.unread_eq]
    exact paddingLength_frame payload tail _
  simp only [getNextJournalRecord, skipPadding_eq hpad]
  by_cases hready : frameSize payload ≤ r.restSize
  · have hheader : headerSize ≤ r.restSize := (show headerSize ≤ 16 by decide).trans
      (hsixteen.trans hready)
    have henough : ¬(r.restSize < headerSize ∨
        (r.restSize : Int) < recordSize (r.buffer.drop r.current)) := by
      rw [recordSize_of_unread h.unread_eq hbound hheader]
      omega
    have hfront : HeaderInFront r.buffer := h.front.resolve_left (by omega)
    rw [if_neg henough, takeRecord_of_unread h.unread_eq hbound hready hdecode]
    exact ⟨_, rfl, ⟨h.toWindow.consume hready, Or.inr hfront, h.notEnded⟩, hfront, rfl, rfl, rfl,
      fun hzero => by omega⟩
  · have hneeds : r.restSize < headerSize ∨
        (r.restSize : Int) < recordSize (r.buffer.drop r.current) := by
      by_cases hheader : r.restSize < headerSize
      · exact Or.inl hheader
      · right
        rw [recordSize_of_unread h.unread_eq hbound (by omega)]
        omega
    obtain ⟨hwindow, hcurrent, hrest⟩ := h.toWindow.refill (by omega) (Or.inr (by omega))
    have hcomplete : frameSize payload ≤ r.refill.restSize := by omega
    have hrecordSize := recordSize_of_unread hwindow.unread_eq hbound
      ((show headerSize ≤ 16 by decide).trans (hsixteen.trans hcomplete))
    rw [hcurrent, List.drop_zero] at hrecordSize
    have hgrown : ¬ (r.refill.restSize : Int) < recordSize r.refill.buffer := by
      rw [hrecordSize]
      omega
    have hpad' : paddingLength r.refill.unread = 0 := by
      rw [hwindow.unread_eq]
      exact paddingLength_frame payload tail _
    have hopen : ¬(r.refill.endOfFile = true ∧ r.refill.restSize = 0) := by
      omega
    obtain ⟨start, hstart⟩ := Option.isSome_iff_exists.mp htells
    rw [if_pos hneeds, if_neg (by simp [h.notEnded]), if_neg (by omega), hstart,
      Option.bind_some, grow_of_complete _ hgrown, if_pos hgrown, skipPadding_eq hpad',
      if_neg hopen, takeRecord_of_unread hwindow.unread_eq hbound hcomplete hdecode]
    have hfits := hwindow.fits
    have hfront : HeaderInFront r.refill.buffer :=
      ⟨(show headerSize ≤ 16 by decide).trans (by omega), by omega⟩
    exact ⟨_, rfl, ⟨hwindow.consume hcomplete, Or.inr hfront, h.notEnded⟩, hfront, rfl, rfl, rfl,
      fun _ => hwindow.position_eq.trans (by rw [hrest]; rfl)⟩

/-- At the end of the file the reader returns no record: the stale header at the front of the buffer
makes it read on, which finds the end. -/
theorem ReadsAt.finish (decode : Bytes → Option ρ) (h : ReadsAt r []) (htells : Tells r.position)
    (hfront : HeaderInFront r.buffer) :
    ∃ r', getNextJournalRecord decode r = some (none, r') := by
  have hlength := h.length_eq
  have hposition := h.position_eq
  have hle := h.position_le
  rw [List.length_nil] at hlength
  have hrest : r.restSize = 0 := by omega
  have hpad : paddingLength r.unread = 0 := by simp [unread, hrest, paddingLength]
  have hneeds : r.restSize < headerSize ∨
      (r.restSize : Int) < recordSize (r.buffer.drop r.current) := Or.inl (by rw [hrest]; decide)
  have hread : ∀ n, r.read n = [] := by
    intro n
    rw [read, List.drop_of_length_le (by omega), List.take_nil]
  have hbuffer : r.refill.buffer = resize r.buffer recordsReadChunkSize := by
    simp [JournalReadHandler.refill, hread, hrest, writeAt]
  have hrest' : r.refill.restSize = 0 := by simp [JournalReadHandler.refill, hread, hrest]
  have hrecordSize : recordSize r.refill.buffer = recordSize r.buffer := by
    rw [hbuffer, recordSize_resize hfront.1 (by decide)]
  have hgrows : (r.refill.restSize : Int) < recordSize r.refill.buffer := by
    rw [hrecordSize, hrest']
    exact hfront.2
  have hmore : (r.refill.restSize : Int) < recordSize r.refill.buffer ∧
      r.refill.restSize + recordsReadChunkSize < 2 ^ 32 := by
    refine ⟨hgrows, ?_⟩
    rw [hrest']
    decide
  have hread' : r.refill.read recordsReadChunkSize = [] := by
    have hend : r.refill.position = r.position := by
      simp [JournalReadHandler.refill, hread]
    show ((r.file.drop r.refill.position).take recordsReadChunkSize) = []
    rw [hend]
    exact hread _
  have hshort : ([] : Bytes).length ≠ recordsReadChunkSize := by decide
  obtain ⟨start, hstart⟩ := Option.isSome_iff_exists.mp htells
  simp only [getNextJournalRecord, skipPadding_eq hpad]
  rw [if_pos hneeds, if_neg (by simp [h.notEnded]), if_neg (by omega), hstart, Option.bind_some,
    grow, if_pos hmore]
  simp only [hread', if_pos hshort]
  have hstill : ¬¬ ((r.refill.restSize + ([] : Bytes).length : Nat) : Int) <
      recordSize r.refill.buffer := by
    simpa using hgrows
  rw [if_neg hstill]
  simp only [if_true]
  rw [if_pos (by simpa using hrest')]
  exact ⟨_, rfl⟩

/-- A reader that has fetched nothing and stands in front of at least a header's worth of bytes that
are no record returns no record. -/
theorem ReadsAt.next_garbage (decode : Bytes → Option ρ) (h : ReadsAt r stream)
    (htells : Tells r.position) (hrest : r.restSize = 0)
    (hlength : headerSize ≤ stream.length) (hmarker : stream.take 4 ≠ startMarker)
    (hpad : paddingLength stream = 0) :
    ∃ r', getNextJournalRecord decode r = some (none, r') := by
  have hheader : headerSize ≤ recordsReadChunkSize := by decide
  have hnopad : paddingLength r.unread = 0 := by simp [unread, hrest, paddingLength]
  obtain ⟨hwindow, hcurrent, hrest'⟩ := h.toWindow.refill (by omega) (Or.inl hrest)
  have hbuffer : r.refill.buffer.take 4 = stream.take 4 := by
    have hcut := congrArg (List.take 4) hwindow.unread_eq
    have hfour : 4 ≤ headerSize := by decide
    rwa [unread, hcurrent, List.drop_zero, List.take_take, List.take_take,
      Nat.min_eq_left (by omega)] at hcut
  have hrecordSize : recordSize r.refill.buffer = -1 := by
    rw [recordSize, hbuffer, if_neg hmarker]
  have hgrown : ¬ (r.refill.restSize : Int) < recordSize r.refill.buffer := by
    rw [hrecordSize]
    omega
  have hnopad' : paddingLength r.refill.unread = 0 := by
    rw [hwindow.unread_eq]
    cases stream with
    | nil => simp [paddingLength]
    | cons b bs =>
        have hb : ¬ (b == padding) = true := fun hb => by simp [paddingLength, hb] at hpad
        cases r.refill.restSize with
        | zero => rfl
        | succ n => simp [paddingLength, hb]
  have hzero : 0 < headerSize := by decide
  have hopen : ¬(r.refill.endOfFile = true ∧ r.refill.restSize = 0) := by omega
  have hnotShort : ¬(r.refill.restSize < headerSize ∨
      ((r.refill.restSize : Int) < -1 ∧ r.refill.restSize ≠ 0)) := by omega
  obtain ⟨start, hstart⟩ := Option.isSome_iff_exists.mp htells
  simp only [getNextJournalRecord, skipPadding_eq hnopad]
  rw [if_pos (Or.inl (by omega)), if_neg (by simp [h.notEnded]), if_neg (by omega),
    hstart, Option.bind_some, grow_of_complete _ hgrown, if_pos hgrown,
    skipPadding_eq hnopad', if_neg hopen, takeRecord]
  simp only [hcurrent, List.drop_zero, hrecordSize]
  rw [if_neg hnotShort]
  simp only [if_true]
  exact ⟨_, rfl⟩

theorem window_prepareReadRecord (r : JournalReadHandler) (hle : r.position ≤ r.file.length) :
    Window r.prepareReadRecord (r.file.drop r.position) where
  stream_eq := rfl
  unread_eq := by simp [unread, prepareReadRecord]
  fits := Or.inl rfl
  position_eq := rfl
  position_le := hle
  ends := Or.inl rfl

theorem readsAt_prepareReadRecord (r : JournalReadHandler) (hle : r.position ≤ r.file.length) :
    ReadsAt r.prepareReadRecord (r.file.drop r.position) where
  toWindow := window_prepareReadRecord r hle
  front := Or.inl rfl
  notEnded := rfl

end JournalReadHandler

end ObjectStorage.Journal
