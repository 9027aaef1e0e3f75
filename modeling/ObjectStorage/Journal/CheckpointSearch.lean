import ObjectStorage.Journal.ReadHandler

/-!
`recover_last_checkpoint` with the `process_last_checkpoint` of the transaction and of the container
journal. They call each other again as long as no record can be read at the last multiple of the
interval. The records and how they are decoded are parameters.
-/

namespace ObjectStorage.Journal

open JournalReadHandler

/-! ### The first record behind an offset -/

/-- Behind the padding in the chunk at the offset there are at least as many bytes as a header has,
and they tell no size. -/
def Unmarked (file : Bytes) (offset : Nat) : Prop :=
  let rest := ((file.drop offset).take recordsReadChunkSize).dropWhile (· == padding)
  headerSize ≤ rest.length ∧ recordSize rest = -1

instance (file : Bytes) (offset : Nat) : Decidable (Unmarked file offset) :=
  inferInstanceAs (Decidable (_ ∧ _))

theorem recordSize_take {buffer : Bytes} {n : Nat} (hn : headerSize ≤ n) :
    recordSize (buffer.take n) = recordSize buffer := by
  have hfour : min 4 n = 4 := Nat.min_eq_left ((show 4 ≤ headerSize by decide).trans hn)
  have height : ((buffer.take n).drop 4).take 8 = (buffer.drop 4).take 8 := by
    rw [List.drop_take, List.take_take, Nat.min_eq_left]
    have hheader : headerSize = 12 := rfl
    omega
  rw [recordSize, recordSize, List.take_take, hfour, height]

theorem take_of_recordSize {buffer : Bytes} (h : recordSize buffer ≠ -1) :
    buffer.take 4 = startMarker := by
  unfold recordSize at h
  split at h
  · assumption
  · exact absurd rfl h

theorem paddingLength_of_marked {bs : Bytes} (h : bs.take 4 = startMarker) :
    paddingLength bs = 0 := by
  cases bs with
  | nil => rfl
  | cons b bs =>
      have hb : b = 35 := by
        have hhead := congrArg List.head? h
        simpa [startMarker] using hhead
      subst hb
      rfl

theorem drop_paddingLength (bs : Bytes) :
    bs.drop (paddingLength bs) = bs.dropWhile (· == padding) := by
  have hsplit := List.takeWhile_append_dropWhile (p := (· == padding)) (l := bs)
  calc bs.drop (paddingLength bs)
      = (bs.takeWhile (· == padding) ++ bs.dropWhile (· == padding)).drop
          (bs.takeWhile (· == padding)).length := by rw [hsplit, paddingLength]
    _ = bs.dropWhile (· == padding) := List.drop_left

namespace JournalReadHandler

variable {ρ : Type} {decode : Bytes → Option ρ} {r h' : JournalReadHandler} {size : Int}

theorem restSize_le_grow (size : Int) (fuel : Nat) (r : JournalReadHandler) :
    r.restSize ≤ (grow size fuel r).restSize := by
  induction fuel generalizing r with
  | zero => exact Nat.le_refl _
  | succ fuel ih =>
      unfold grow
      split
      · simp only
        split
        · exact Nat.le_add_right _ _
        · refine Nat.le_trans ?_ (ih _)
          exact Nat.le_add_right _ _
      · exact Nat.le_refl _

/-- What is in the buffer stays in front when more is read behind it. -/
theorem take_grow (size : Int) (fuel : Nat) {r : JournalReadHandler} {k : Nat}
    (hk : k ≤ r.restSize) (hfits : r.restSize ≤ r.buffer.length) :
    (grow size fuel r).buffer.take k = r.buffer.take k := by
  induction fuel generalizing r with
  | zero => rfl
  | succ fuel ih =>
      unfold grow
      split
      · have hresize : ((resize r.buffer (r.restSize + recordsReadChunkSize)).take r.restSize) =
            r.buffer.take r.restSize := by
          have hdrop :
              ((resize r.buffer (r.restSize + recordsReadChunkSize)).drop 0).take r.restSize =
              (r.buffer.drop 0).take r.restSize := drop_take_resize (by omega) (by omega)
          simpa using hdrop
        have hlength : (r.buffer.take r.restSize).length = r.restSize := by
          rw [List.length_take]
          omega
        have htake : ∀ data rest : Bytes,
            (r.buffer.take r.restSize ++ data ++ rest).take k = r.buffer.take k := by
          intro data rest
          rw [List.append_assoc, List.take_append_of_le_length (by omega), List.take_take,
            Nat.min_eq_left hk]
        simp only
        split
        · simp only [writeAt, hresize]
          exact htake _ _
        · rw [ih]
          · simp only [writeAt, hresize]
            exact htake _ _
          · simp only
            omega
          · simp only [writeAt, hresize, List.length_append, hlength]
            omega
      · rfl

theorem restSize_grow_of_read_nil (size : Int) (fuel : Nat) {r : JournalReadHandler}
    (hread : r.read recordsReadChunkSize = []) : (grow size fuel r).restSize = r.restSize := by
  have hshort : ([] : Bytes).length ≠ recordsReadChunkSize := by decide
  cases fuel with
  | zero => rfl
  | succ fuel =>
      unfold grow
      split
      · simp only [hread, if_pos hshort]
        rfl
      · rfl

/-! ### What the first read of a prepared reader finds -/

/-- The buffer of a reader that has fetched its first chunk. -/
structure Fetched (r : JournalReadHandler) (file : Bytes) (offset : Nat) : Prop where
  file_eq : r.file = file
  current_eq : r.current = 0
  notEnded : r.endOfFile = false
  restSize_eq : r.restSize = ((file.drop offset).take recordsReadChunkSize).length
  take_eq : r.buffer.take r.restSize = (file.drop offset).take recordsReadChunkSize
  position_eq : r.position = offset + r.restSize

theorem fetched_refill (hlt : r.position < r.file.length) :
    Fetched r.prepareReadRecord.refill r.file r.position := by
  have hwindow := window_prepareReadRecord r (Nat.le_of_lt hlt)
  obtain ⟨hwindow, hcurrent, hrest⟩ := hwindow.refill (Nat.zero_le _) (Or.inl rfl)
  have hlength : r.prepareReadRecord.refill.restSize =
      ((r.file.drop r.position).take recordsReadChunkSize).length := by
    rw [hrest, List.length_take]
  refine ⟨rfl, hcurrent, rfl, hlength, ?_, hwindow.position_eq⟩
  have hunread := hwindow.unread_eq
  rw [unread, hcurrent, List.drop_zero] at hunread
  rw [hunread, hrest]
  exact List.take_eq_take_iff.mpr (by omega)

/-- The call that follows a fresh start in front of 2 GiB. -/
theorem getNextJournalRecord_prepareReadRecord (decode : Bytes → Option ρ)
    (r : JournalReadHandler) (hnear : r.position < 2 ^ 31) :
    getNextJournalRecord decode r.prepareReadRecord =
      let h := r.prepareReadRecord.refill
      let g := grow (recordSize h.buffer) (r.file.length + 1) h
      if ¬ g.restSize < recordSize h.buffer then
        if g.skipPadding.endOfFile ∧ g.skipPadding.restSize = 0 then some (none, g.skipPadding)
        else takeRecord decode g.skipPadding
      else if g.endOfFile then
        if g.restSize = 0 then some (none, g)
        else some (none, { g with file := g.file.take r.position, position := r.position })
      else none := by
  have hnopad : paddingLength r.prepareReadRecord.unread = 0 := by
    simp [unread, prepareReadRecord, paddingLength]
  have hneeds : r.prepareReadRecord.restSize < headerSize ∨
      (r.prepareReadRecord.restSize : Int) <
        recordSize (r.prepareReadRecord.buffer.drop r.prepareReadRecord.current) :=
    Or.inl (show 0 < headerSize by decide)
  have hstart : seekOffset r.prepareReadRecord.position = some (r.position : Int) :=
    seekOffset_of_lt hnear
  simp only [getNextJournalRecord, skipPadding_eq hnopad]
  rw [if_pos hneeds, if_neg (by simp [prepareReadRecord]), if_neg (by simp [prepareReadRecord]),
    hstart, Option.bind_some]
  simp only [if_neg (Int.not_lt.mpr (Int.natCast_nonneg r.position)), Int.toNat_natCast]
  rfl

variable {file : Bytes} {offset : Nat}

theorem Fetched.skipPadding (h : Fetched r file offset) :
    let rest := ((file.drop offset).take recordsReadChunkSize).dropWhile (· == padding)
    r.skipPadding.restSize = rest.length ∧
      (headerSize ≤ rest.length →
        recordSize (r.skipPadding.buffer.drop r.skipPadding.current) = recordSize rest) := by
  intro rest
  have hunread : r.unread = (file.drop offset).take recordsReadChunkSize := by
    rw [unread, h.current_eq, List.drop_zero, h.take_eq]
  have hdrop := drop_paddingLength ((file.drop offset).take recordsReadChunkSize)
  have hlength : r.skipPadding.restSize = rest.length := by
    have hcount := congrArg List.length hdrop
    rw [List.length_drop] at hcount
    simp only [JournalReadHandler.skipPadding, hunread, h.restSize_eq]
    exact hcount
  refine ⟨hlength, fun hheader => ?_⟩
  have hrest : (r.skipPadding.buffer.drop r.skipPadding.current).take rest.length = rest := by
    have hcut := congrArg (List.drop (paddingLength r.unread)) h.take_eq
    rw [List.drop_take, hunread, hdrop] at hcut
    rw [← hlength]
    simpa [JournalReadHandler.skipPadding, hunread, h.current_eq] using hcut
  rw [← recordSize_take hheader, hrest]

/-- Unmarked bytes have no size that would make the reader read on. -/
theorem Fetched.recordSize_buffer (h : Fetched r file offset) (hunmarked : Unmarked file offset) :
    recordSize r.buffer = -1 := by
  by_contra hne
  have hmark := take_of_recordSize hne
  have hheader : headerSize = 12 := rfl
  obtain ⟨hlength, hsize⟩ := hunmarked
  have hlong : headerSize ≤ r.restSize := by
    rw [h.restSize_eq]
    exact hlength.trans (List.dropWhile_sublist _).length_le
  have hchunk : ((file.drop offset).take recordsReadChunkSize).take 4 = startMarker := by
    rw [← h.take_eq, List.take_take, Nat.min_eq_left (by omega), hmark]
  have hrest := drop_paddingLength ((file.drop offset).take recordsReadChunkSize)
  rw [paddingLength_of_marked hchunk, List.drop_zero] at hrest
  rw [← hrest, ← h.take_eq, recordSize_take hlong] at hsize
  exact hne hsize

/-- Unmarked bytes are taken for the end of the journal, and the file stays as it is. -/
theorem getNextJournalRecord_unmarked (decode : Bytes → Option ρ) (hlt : r.position < r.file.length)
    (hnear : r.position < 2 ^ 31) (hunmarked : Unmarked r.file r.position) :
    ∃ h', getNextJournalRecord decode r.prepareReadRecord = some (none, h') ∧ h'.file = r.file := by
  have hfetched := fetched_refill hlt
  have hsize := hfetched.recordSize_buffer hunmarked
  have hcomplete : ¬ (r.prepareReadRecord.refill.restSize : Int) <
      recordSize r.prepareReadRecord.refill.buffer := by
    rw [hsize]
    omega
  obtain ⟨hlength, hrest⟩ := hfetched.skipPadding
  have hminus := (hrest hunmarked.1).trans hunmarked.2
  have hheader := hunmarked.1
  rw [← hlength] at hheader
  have hended : ¬ (r.prepareReadRecord.refill.skipPadding.endOfFile = true ∧
      r.prepareReadRecord.refill.skipPadding.restSize = 0) := by
    rintro ⟨hend, -⟩
    exact absurd hend (by simp [JournalReadHandler.skipPadding, hfetched.notEnded])
  have hnotShort : ¬ (r.prepareReadRecord.refill.skipPadding.restSize < headerSize ∨
      ((r.prepareReadRecord.refill.skipPadding.restSize : Int) < -1 ∧
        r.prepareReadRecord.refill.skipPadding.restSize ≠ 0)) := by omega
  rw [getNextJournalRecord_prepareReadRecord decode r hnear]
  simp only [grow_of_complete _ hcomplete]
  rw [if_pos hcomplete, if_neg hended, takeRecord]
  simp only [hminus]
  rw [if_neg hnotShort, if_true]
  exact ⟨_, rfl, rfl⟩

theorem takeRecord_none (h : takeRecord decode r = some (none, h')) :
    headerSize ≤ r.restSize ∧ recordSize (r.buffer.drop r.current) = -1 ∧ h' = r := by
  unfold takeRecord at h
  simp only at h
  split at h
  · contradiction
  next hshort =>
    split at h
    next hminus =>
      cases h
      exact ⟨by omega, hminus, rfl⟩
    next =>
      split at h
      · contradiction
      · split at h
        · contradiction
        · simp at h

/-- Where the reader finds no record in front of the end of the file, the bytes there are unmarked
or they have been cut off. -/
theorem getNextJournalRecord_none (hlt : r.position < r.file.length)
    (hnear : r.position < 2 ^ 31)
    (h : getNextJournalRecord decode r.prepareReadRecord = some (none, h')) :
    (Unmarked r.file r.position ∧ h'.file = r.file) ∨ h'.file = r.file.take r.position := by
  have hfetched := fetched_refill hlt
  have hheader : headerSize = 12 := rfl
  rw [getNextJournalRecord_prepareReadRecord decode r hnear] at h
  simp only at h
  generalize hq : r.prepareReadRecord.refill = q at h hfetched
  have hpositive : 0 < q.restSize := by
    rw [hfetched.restSize_eq, List.length_take, List.length_drop]
    have hchunk : 0 < recordsReadChunkSize := by decide
    omega
  by_cases hgrows : (q.restSize : Int) < recordSize q.buffer
  · right
    generalize hg : grow (recordSize q.buffer) (r.file.length + 1) q = g at h
    have hle : q.restSize ≤ g.restSize := hg ▸ restSize_le_grow _ _ _
    split at h
    next hcomplete =>
      -- the header was complete already, so that its size is still in front
      have hlong : headerSize ≤ q.restSize := by
        by_contra hshort
        have hread : q.read recordsReadChunkSize = [] := by
          have hrest := hfetched.restSize_eq
          rw [List.length_take, List.length_drop] at hrest
          have hchunk : headerSize ≤ recordsReadChunkSize := by decide
          rw [JournalReadHandler.read, hfetched.file_eq, List.drop_of_length_le, List.take_nil]
          rw [hfetched.position_eq]
          omega
        have hsame := restSize_grow_of_read_nil (recordSize q.buffer) (r.file.length + 1) hread
        rw [hg] at hsame
        omega
      have hfits : q.restSize ≤ q.buffer.length := by
        have hlength := congrArg List.length hfetched.take_eq
        rw [List.length_take, ← hfetched.restSize_eq] at hlength
        omega
      have hfront : g.buffer.take headerSize = q.buffer.take headerSize :=
        hg ▸ take_grow _ _ hlong hfits
      have hsize : recordSize g.buffer = recordSize q.buffer := by
        rw [← recordSize_take (Nat.le_refl headerSize), hfront, recordSize_take (Nat.le_refl _)]
      have hcurrent : g.current = 0 := by rw [← hg, grow_current, hfetched.current_eq]
      have hnopad : paddingLength g.unread = 0 := by
        refine paddingLength_of_marked ?_
        rw [unread, hcurrent, List.drop_zero, List.take_take, Nat.min_eq_left (by omega)]
        exact take_of_recordSize (by omega)
      rw [skipPadding_eq hnopad, if_neg (by omega)] at h
      obtain ⟨-, hminus, -⟩ := takeRecord_none h
      rw [hcurrent, List.drop_zero] at hminus
      omega
    next =>
      split at h
      · rw [if_neg (by omega)] at h
        cases h
        rw [← hg, grow_file, hfetched.file_eq]
      · contradiction
  · left
    rw [grow_of_complete _ hgrows, if_pos hgrows, if_neg ?_] at h
    · obtain ⟨hshort, hminus, rfl⟩ := takeRecord_none h
      obtain ⟨hlength, hrest⟩ := hfetched.skipPadding
      rw [hlength] at hshort
      exact ⟨⟨hshort, (hrest hshort).symm.trans hminus⟩, hfetched.file_eq⟩
    · rintro ⟨hend, -⟩
      exact absurd hend (by simp [JournalReadHandler.skipPadding, hfetched.notEnded])

end JournalReadHandler

/-! ### The search for the last checkpoint -/

structure CheckpointSearch where
  reader : JournalReadHandler
  checkpointInterval : Int
  latestFileId : Nat
  lastCheckpointOffset : JournalOffset

/-- What one call comes to. The cast of the record and what is taken from it are left to the caller;
`aborted` stands for a failed assertion, for an exception and for a division by zero. -/
inductive CheckpointCall (ρ : Type) where
  | absent (s : CheckpointSearch)
  | found (record : ρ) (s : CheckpointSearch)
  | again (s : CheckpointSearch)
  | aborted

def CheckpointCall.next {ρ : Type} : CheckpointCall ρ → Option CheckpointSearch
  | .again s => some s
  | _ => none

namespace CheckpointSearch

variable {ρ : Type} (decode : Bytes → Option ρ)

/-- The last multiple of the interval in front of the end of the file, of whose length
`get_end_offset` makes an `int`. -/
def offset (s : CheckpointSearch) : Int :=
  ((seekOffset s.reader.file.length).getD 0 - 1).tdiv s.checkpointInterval * s.checkpointInterval

def prepareReadRecord (s : CheckpointSearch) : CheckpointSearch :=
  { s with reader := s.reader.prepareReadRecord }

/-- The last part of both `process_last_checkpoint`. -/
def readCheckpoint (s : CheckpointSearch) : CheckpointCall ρ :=
  match s.prepareReadRecord.reader.getNextJournalRecord decode with
  | none => .aborted
  | some (none, reader) => .again { s with reader := reader }
  | some (some (record, _, _), reader) => .found record { s with reader := reader }

/-- `TransactionReadHandler::process_last_checkpoint`, which prepares the reader twice. -/
def processTransactionCheckpoint (journalVersion : Int) (s : CheckpointSearch) (offset : Int) :
    CheckpointCall ρ :=
  if offset ≤ 0 then .absent s
  else
    match s.reader.seek offset with
    | none => .aborted
    | some reader =>
        let s := { s with reader := reader }.prepareReadRecord
        let s := if journalVersion = 0 then { s with checkpointInterval := 5242880 } else s
        readCheckpoint decode s

/-- `ContainerJournalReadHandler::process_last_checkpoint`. -/
def processContainerCheckpoint (s : CheckpointSearch) (offset : Int) : CheckpointCall ρ :=
  match s.reader.seek offset with
  | none => .aborted
  | some reader =>
      let s := { s with reader := reader }
      if offset ≤ 0 then .absent s else readCheckpoint decode s

def recoverLastCheckpoint (process : CheckpointSearch → Int → CheckpointCall ρ)
    (s : CheckpointSearch) : CheckpointCall ρ :=
  match s.reader.getEndOffset with
  | none => .aborted
  | some (_, reader) =>
      if s.checkpointInterval = 0 then .aborted
      else process { s with
          reader := reader
          lastCheckpointOffset := toLex (s.latestFileId, s.offset.toNat) } s.offset

/-- The state at the `n`-th call, if there is one. -/
def calls (process : CheckpointSearch → Int → CheckpointCall ρ) (s : CheckpointSearch) :
    Nat → Option CheckpointSearch
  | 0 => some s
  | n + 1 => (calls process s n).bind fun t => (recoverLastCheckpoint process t).next

/-- Finitely many calls, each at a smaller offset than the one before. -/
def Descends (process : CheckpointSearch → Int → CheckpointCall ρ) (s : CheckpointSearch) : Prop :=
  (∃ n, calls process s n = none) ∧
    ∀ n t t', calls process s n = some t → calls process s (n + 1) = some t' → t'.offset < t.offset

/-- The call gets the end offset and finds unmarked bytes, and the interval that the next call has
gives no smaller offset. -/
def Stuck (interval : Int → Int) (s : CheckpointSearch) : Prop :=
  s.reader.getEndOffset.isSome ∧ 0 < s.offset ∧ Unmarked s.reader.file s.offset.toNat ∧
    s.offset ≤ { s with checkpointInterval := interval s.checkpointInterval }.offset

variable {decode}

theorem tdiv_mul_nonneg {a : Int} (b : Int) (ha : 0 ≤ a) : 0 ≤ a.tdiv b * b := by
  rcases Int.le_total 0 b with hb | hb
  · exact Int.mul_nonneg (Int.tdiv_nonneg ha hb) hb
  · have hneg : 0 ≤ a.tdiv (-b) * -b :=
      Int.mul_nonneg (Int.tdiv_nonneg ha (by omega)) (by omega)
    rwa [Int.tdiv_neg, Int.neg_mul_neg] at hneg

/-- A positive offset is in front of the length that the `int` tells. -/
theorem tdiv_mul_lt {length interval : Int} (hpos : 0 < (length - 1).tdiv interval * interval) :
    (length - 1).tdiv interval * interval < length := by
  have hsplit := Int.tdiv_mul_add_tmod (length - 1) interval
  rcases Int.lt_or_le 0 length with hlt | hle
  · have hrest := Int.tmod_nonneg (a := length - 1) interval (by omega)
    omega
  · have hnonneg := tdiv_mul_nonneg interval (show 0 ≤ 1 - length by omega)
    rw [show length - 1 = -(1 - length) by omega, Int.neg_tdiv, Int.neg_mul] at hpos
    omega

/-- The last byte of the file is not in front of the offset, and the offset is in front of 2 GiB. -/
theorem offset_lt_length (s : CheckpointSearch) (hpos : 0 < s.offset) :
    s.offset < s.reader.file.length ∧ s.offset < 2 ^ 31 := by
  have hlt : s.offset < _ := tdiv_mul_lt hpos
  by_cases hnear : s.reader.file.length < 2 ^ 31
  · rw [seekOffset_of_lt hnear, Option.getD_some] at hlt
    omega
  · cases hlength : seekOffset s.reader.file.length with
    | none =>
        rw [hlength, Option.getD_none] at hlt
        omega
    | some value =>
        have hbehind := seekOffset_behind hnear hlength
        rw [hlength, Option.getD_some] at hlt
        have hbound := seekOffset_lt hlength
        omega

/-! ### One call -/

theorem readCheckpoint_next {s t : CheckpointSearch}
    (hlt : s.reader.position < s.reader.file.length) (hnear : s.reader.position < 2 ^ 31)
    (h : (readCheckpoint decode s).next = some t) :
    t.checkpointInterval = s.checkpointInterval ∧
      ((Unmarked s.reader.file s.reader.position ∧ t.reader.file = s.reader.file) ∨
        t.reader.file = s.reader.file.take s.reader.position) := by
  unfold readCheckpoint at h
  split at h
  · contradiction
  next reader hread =>
    cases h
    exact ⟨rfl, getNextJournalRecord_none hlt hnear hread⟩
  · contradiction

theorem readCheckpoint_unmarked (decode : Bytes → Option ρ) {s : CheckpointSearch}
    (hlt : s.reader.position < s.reader.file.length) (hnear : s.reader.position < 2 ^ 31)
    (hunmarked : Unmarked s.reader.file s.reader.position) :
    ∃ t, (readCheckpoint decode s).next = some t ∧
      t.checkpointInterval = s.checkpointInterval ∧ t.reader.file = s.reader.file := by
  obtain ⟨reader, hread, hfile⟩ := getNextJournalRecord_unmarked decode hlt hnear hunmarked
  refine ⟨{ s with reader := reader }, ?_, rfl, hfile⟩
  rw [readCheckpoint, prepareReadRecord, hread]
  rfl

/-- Both `process_last_checkpoint` read the record at a positive offset, with the interval that the
search has from then on. -/
structure Reads (decode : Bytes → Option ρ) (process : CheckpointSearch → Int → CheckpointCall ρ)
    (interval : Int → Int) : Prop where
  absent : ∀ s o, o ≤ 0 → (process s o).next = none
  reads : ∀ s o, 0 < o → o < 2 ^ 31 →
    ∃ u : CheckpointSearch, process s o = readCheckpoint decode u ∧
    u.reader.position = o.toNat ∧ u.reader.file = s.reader.file ∧
      u.checkpointInterval = interval s.checkpointInterval

theorem reads_transaction (decode : Bytes → Option ρ) (journalVersion : Int) :
    Reads decode (processTransactionCheckpoint decode journalVersion)
      fun interval => if journalVersion = 0 then 5242880 else interval where
  absent s o ho := by
    rw [processTransactionCheckpoint, if_pos ho]
    rfl
  reads s o ho hnear := by
    rw [processTransactionCheckpoint, if_neg (by omega), seek_of_lt ho.le hnear]
    refine ⟨_, rfl, ?_, ?_, ?_⟩ <;> split <;> rfl

theorem reads_container (decode : Bytes → Option ρ) :
    Reads decode (processContainerCheckpoint decode) id where
  absent s o ho := by
    unfold processContainerCheckpoint
    split
    · rfl
    · rw [if_pos ho]
      rfl
  reads s o ho hnear := by
    rw [processContainerCheckpoint, seek_of_lt ho.le hnear]
    simp only
    rw [if_neg (by omega)]
    exact ⟨_, rfl, rfl, rfl, rfl⟩

section

variable {process : CheckpointSearch → Int → CheckpointCall ρ} {interval : Int → Int}
  {s t : CheckpointSearch}

theorem Reads.of_next (h : Reads decode process interval)
    (hnext : (recoverLastCheckpoint process s).next = some t) :
    0 < s.offset ∧ t.checkpointInterval = interval s.checkpointInterval ∧
      ((Unmarked s.reader.file s.offset.toNat ∧ t.reader.file = s.reader.file) ∨
        t.reader.file = s.reader.file.take s.offset.toNat) := by
  unfold recoverLastCheckpoint at hnext
  split at hnext
  · contradiction
  next reader hend =>
    split at hnext
    · contradiction
    · by_cases hpos : 0 < s.offset
      · obtain ⟨hlt, hnear⟩ := offset_lt_length s hpos
        obtain ⟨u, hu, hposition, hfile, hinterval⟩ := h.reads { s with
          reader := reader
          lastCheckpointOffset := toLex (s.latestFileId, s.offset.toNat) } s.offset hpos hnear
        rw [hu] at hnext
        have hfile : u.reader.file = s.reader.file := hfile.trans (getEndOffset_file hend)
        have hbehind : u.reader.position < u.reader.file.length := by
          rw [hposition, hfile]
          omega
        have hspec := readCheckpoint_next hbehind (by omega) hnext
        rw [hposition, hfile, hinterval] at hspec
        exact ⟨hpos, hspec⟩
      · rw [h.absent _ _ (by omega)] at hnext
        contradiction

theorem Reads.next_of_unmarked (h : Reads decode process interval)
    (hend : s.reader.getEndOffset.isSome) (hpos : 0 < s.offset)
    (hunmarked : Unmarked s.reader.file s.offset.toNat) :
    ∃ t, (recoverLastCheckpoint process s).next = some t ∧
      t.checkpointInterval = interval s.checkpointInterval ∧ t.reader.file = s.reader.file := by
  obtain ⟨⟨size, reader⟩, hend⟩ := Option.isSome_iff_exists.mp hend
  obtain ⟨hlt, hnear⟩ := offset_lt_length s hpos
  obtain ⟨u, hu, hposition, hfile, hinterval⟩ := h.reads { s with
    reader := reader
    lastCheckpointOffset := toLex (s.latestFileId, s.offset.toNat) } s.offset hpos hnear
  have hfile : u.reader.file = s.reader.file := hfile.trans (getEndOffset_file hend)
  have hinterval0 : s.checkpointInterval ≠ 0 := by
    intro hzero
    rw [offset, hzero, Int.mul_zero] at hpos
    omega
  have hbehind : u.reader.position < u.reader.file.length := by
    rw [hposition, hfile]
    omega
  have hunread : Unmarked u.reader.file u.reader.position := by
    rw [hposition, hfile]
    exact hunmarked
  obtain ⟨t, ht, hkept, hsame⟩ := readCheckpoint_unmarked decode hbehind (by omega) hunread
  refine ⟨t, ?_, hkept.trans hinterval, hsame.trans hfile⟩
  rw [recoverLastCheckpoint, hend]
  simp only
  rw [if_neg hinterval0, hu, ht]

theorem offset_eq_of_file (hfile : t.reader.file = s.reader.file)
    (hinterval : t.checkpointInterval = interval s.checkpointInterval) :
    t.offset = { s with checkpointInterval := interval s.checkpointInterval }.offset := by
  rw [offset, offset, hfile, hinterval]

/-- A call that is stuck is followed by one that looks no further in front. -/
theorem Reads.next_of_stuck (h : Reads decode process interval) (hstuck : s.Stuck interval) :
    ∃ t, (recoverLastCheckpoint process s).next = some t ∧ s.offset ≤ t.offset := by
  obtain ⟨hend, hpos, hunmarked, hle⟩ := hstuck
  obtain ⟨t, ht, hinterval, hfile⟩ := h.next_of_unmarked hend hpos hunmarked
  exact ⟨t, ht, (offset_eq_of_file hfile hinterval).symm ▸ hle⟩

/-- A call that is followed by one got the end offset. -/
theorem isSome_of_next (hnext : (recoverLastCheckpoint process s).next = some t) :
    s.reader.getEndOffset.isSome := by
  unfold recoverLastCheckpoint at hnext
  split at hnext
  · contradiction
  next hend =>
    rw [hend]
    rfl

/-- Any other call that is followed by one cuts the file off at its offset. -/
theorem Reads.next_lt (h : Reads decode process interval) (hstuck : ¬ s.Stuck interval)
    (hnext : (recoverLastCheckpoint process s).next = some t) : t.offset < s.offset := by
  obtain ⟨hpos, hinterval, ⟨hunmarked, hfile⟩ | hcut⟩ := h.of_next hnext
  · rw [offset_eq_of_file hfile hinterval]
    by_contra hle
    exact hstuck ⟨isSome_of_next hnext, hpos, hunmarked, by omega⟩
  · by_contra hle
    have hlt := (offset_lt_length t (by omega)).1
    rw [hcut, List.length_take] at hlt
    omega

/-! ### All calls -/

theorem calls_succ {n : Nat} (hn : calls process s n = some t) :
    calls process s (n + 1) = (recoverLastCheckpoint process t).next := by
  rw [calls, hn, Option.bind_some]

/-- Each call of a descending search is at least one further in front. -/
theorem offset_le_of_calls
    (hlt : ∀ n t t', calls process s n = some t → calls process s (n + 1) = some t' →
      t'.offset < t.offset) {n : Nat} (hn : calls process s n = some t) :
    t.offset ≤ s.offset - n := by
  induction n generalizing t with
  | zero =>
      cases hn
      simp
  | succ n ih =>
      obtain ⟨u, hu, -⟩ := Option.bind_eq_some_iff.mp hn
      have hstep := hlt n u t hu hn
      have hle := ih hu
      omega

theorem Reads.exists_calls_eq_none (h : Reads decode process interval)
    (hlt : ∀ n t t', calls process s n = some t → calls process s (n + 1) = some t' →
      t'.offset < t.offset) : ∃ n, calls process s n = none := by
  refine ⟨s.offset.toNat + 1, ?_⟩
  cases hcalls : calls process s s.offset.toNat with
  | none => rw [calls, hcalls, Option.bind_none]
  | some t =>
      rw [calls_succ hcalls]
      cases hnext : (recoverLastCheckpoint process t).next with
      | none => rfl
      | some t' =>
          have hle := offset_le_of_calls hlt hcalls
          have hpos := (h.of_next hnext).1
          omega

theorem Reads.descends_iff (h : Reads decode process interval) (s : CheckpointSearch) :
    Descends process s ↔ ∀ n t, calls process s n = some t → ¬ t.Stuck interval := by
  constructor
  · intro hdescends n t hn hstuck
    obtain ⟨t', hnext, hle⟩ := h.next_of_stuck hstuck
    have hlt := hdescends.2 n t t' hn ((calls_succ hn).trans hnext)
    omega
  · intro hstuck
    have hlt : ∀ n t t', calls process s n = some t → calls process s (n + 1) = some t' →
        t'.offset < t.offset := by
      intro n t t' hn hnext
      exact h.next_lt (hstuck n t hn) ((calls_succ hn).symm.trans hnext)
    exact ⟨h.exists_calls_eq_none hlt, hlt⟩

end

/-- The search for the last checkpoint of either journal ends after finitely many calls, each retry
at a smaller offset, if and only if no call of it is stuck. -/
theorem checkpoint_search_descends_iff (decode : Bytes → Option ρ) (journalVersion : Int)
    (s : CheckpointSearch) :
    (Descends (processTransactionCheckpoint decode journalVersion) s ↔
      ∀ n t, calls (processTransactionCheckpoint decode journalVersion) s n = some t →
        ¬ t.Stuck fun interval => if journalVersion = 0 then 5242880 else interval) ∧
    (Descends (processContainerCheckpoint decode) s ↔
      ∀ n t, calls (processContainerCheckpoint decode) s n = some t → ¬ t.Stuck id) :=
  ⟨(reads_transaction decode journalVersion).descends_iff s,
    (reads_container decode).descends_iff s⟩

/-- Thirty zero bytes and an interval of sixteen: no record is marked at offset 16, the file stays
as it is, and every call looks there again. -/
theorem checkpoint_search_loops :
    let reader : JournalReadHandler :=
      ⟨List.replicate 30 0, 0, List.replicate maxReadChunkSize 0, 0, 0, 1, 0, false⟩
    let s : CheckpointSearch := ⟨reader, 16, 1, toLex (0, 0)⟩
    ¬ Descends (processTransactionCheckpoint (fun _ => none (α := Unit)) 1) s ∧
      ¬ Descends (processContainerCheckpoint (fun _ => none (α := Unit))) s := by
  intro reader s
  have hstuck : Unmarked s.reader.file s.offset.toNat := by decide
  constructor
  · rw [(reads_transaction _ 1).descends_iff]
    exact fun h => h 0 s rfl ⟨by decide, by decide, hstuck, by decide⟩
  · rw [(reads_container _).descends_iff]
    exact fun h => h 0 s rfl ⟨by decide, by decide, hstuck, by decide⟩

end CheckpointSearch

end ObjectStorage.Journal
