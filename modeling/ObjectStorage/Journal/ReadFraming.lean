import ObjectStorage.Journal.ReadLayout

/-!
Which journal files are read back: all of a file, and what is left of a file that is cut short. The
conditions are exact for records that are not larger than a chunk.
-/

namespace ObjectStorage.Journal

open JournalReadHandler (Found)

variable {ρ : Type}

namespace JournalReadHandler

variable {decode : Bytes → Option ρ} {encode : ρ → Bytes} {r : JournalReadHandler}
  {stream payload tail front : Bytes} {mode : BufferMode}

/-! ### Failures -/

/-- A chunk is not read where `tell` fails. -/
theorem Scans.next_not_tells (h : Scans r stream .filled front)
    (hpad : paddingLength r.unread = 0)
    (hneeds : r.restSize < headerSize ∨
      (r.restSize : Int) < recordSize (r.buffer.drop r.current))
    (hnot : ¬ Tells r.position) (decode : Bytes → Option ρ) :
    getNextJournalRecord decode r = none := by
  simp only [getNextJournalRecord, skipPadding_eq hpad]
  rw [if_pos hneeds, if_neg (h.not_endOfFile (by simp)), if_neg h.restSize_le.not_gt,
    not_tells.mp hnot, Option.bind_none]

theorem Scans.needs_of_zero (hzero : r.restSize = 0) : r.restSize < headerSize ∨
    (r.restSize : Int) < recordSize (r.buffer.drop r.current) := .inl (by rw [hzero]; decide)

theorem Scans.next_padded_incomplete {count : Nat} {rest : Bytes}
    (h : Scans r (List.replicate count padding ++ rest) mode front) (hcount : 0 < count)
    (hzero : r.restSize = 0) (hrest : rest.head? ≠ some padding)
    (hbound : frameSize payload < 2 ^ 63) (htells : Tells r.position)
    (hshort : min recordsReadChunkSize (count + rest.length) - count < frameSize payload)
    (htake : ∀ n ≤ min recordsReadChunkSize (count + rest.length) - count,
      rest.take n = (frame payload).take n) (decode : Bytes → Option ρ) :
    getNextJournalRecord decode r = none := by
  obtain ⟨r', hnext, hscans, hleft, -⟩ := h.next_padded hcount hzero hrest htells decode
  rw [hnext]
  refine takeRecord_incomplete decode (?_ : r'.unread = (frame payload ++ []).take _) hbound
    (hleft ▸ hshort)
  rw [hscans.unread_eq, List.append_nil]
  by_cases hle : count ≤ recordsReadChunkSize
  · rw [Nat.sub_eq_zero_of_le hle, List.replicate_zero, List.nil_append]
    exact htake _ hleft.le
  · rw [show r'.restSize = 0 by omega, List.take_zero, List.take_zero]

/-- Padding in front of a record that does not fit behind it into a chunk fails an assertion, and a
read where `tell` fails an exception. -/
theorem Scans.next_entry_fails {count : Nat}
    (h : Scans r (List.replicate count padding ++ (frame payload ++ tail)) .filled front)
    (hsmall : frameSize payload ≤ recordsReadChunkSize) {length : Nat}
    (hafter : BufferState.afterRecord ⟨r.restSize, .filled, front⟩ r.fileOffset count payload
      length = none) (decode : Bytes → Option ρ) : getNextJournalRecord decode r = none := by
  have hhead := head?_frame_append payload tail
  have hbound : frameSize payload < 2 ^ 63 := hsmall.trans_lt (by decide)
  have hlength : (frame payload ++ tail).length = frameSize payload + tail.length := by
    rw [List.length_append, length_frame]
  obtain ⟨hskip, hrest, -⟩ := h.skip hhead
  have hplace : r.skipPadding.position = r.fileOffset + r.restSize := h.position_eq
  unfold BufferState.afterRecord at hafter
  simp only at hafter
  split at hafter
  · cases hafter
  · by_cases htells : Tells (r.fileOffset + r.restSize)
    swap
    · rw [h.next_skip hhead]
      rw [← hplace] at htells
      by_cases hmore : r.restSize < count
      · have hzero : r.skipPadding.restSize = 0 := by omega
        exact hskip.next_not_tells (by simp [unread, hzero, paddingLength])
          (Scans.needs_of_zero hzero) htells decode
      · rw [show count - r.restSize = 0 by omega, List.replicate_zero, List.nil_append] at hskip
        exact hskip.next_not_tells (hskip.paddingLength_unread hhead)
          (hskip.needs hbound (by omega)) htells decode
    rw [if_neg (not_not.mpr htells)] at hafter
    rw [← hplace] at htells
    split at hafter
    · split at hafter
      · cases hafter
      · rw [h.next_skip hhead]
        have hpos := headerSize_add_footerSize_le payload
        have hshort :
            min recordsReadChunkSize (count - r.restSize + (frame payload ++ tail).length) -
            (count - r.restSize) < frameSize payload :=
          (Nat.sub_le_sub_right (Nat.min_le_left _ _) _).trans_lt (by omega)
        refine hskip.next_padded_incomplete (by omega) (by omega) hhead hbound htells hshort
          (fun n hn => ?_) decode
        rw [List.take_append_of_le_length (by rw [length_frame]; exact (hn.trans_lt hshort).le)]
    · have hchunks : chunksFor (frameSize payload) = recordsReadChunkSize :=
        roundUp_small ((by decide : 0 < 16).trans_le (headerSize_add_footerSize_le payload)) hsmall
      rw [hchunks, if_pos ⟨.inr trivial, by decide⟩] at hafter
      cases hafter

theorem BufferState.afterRecord_mode {b b' : BufferState} {offset count length : Nat}
    (hsmall : frameSize payload ≤ recordsReadChunkSize) (hmode : b.mode = .filled)
    (hafter : b.afterRecord offset count payload length = some b') : b'.mode = .filled := by
  unfold BufferState.afterRecord at hafter
  simp only at hafter
  split at hafter
  · rwa [← Option.some.inj hafter]
  · split at hafter
    · cases hafter
    · split at hafter
      · split at hafter
        · rw [← Option.some.inj hafter]
        · cases hafter
      · split at hafter
        · rw [← Option.some.inj hafter, modeAfter, if_pos hsmall]
        · cases hafter

theorem head?_take_frame (payload : Bytes) (n : Nat) :
    ((frame payload).take n).head? ≠ some padding := by
  obtain ⟨bs, hbs⟩ := frame_eq_cons payload
  rw [hbs]
  cases n with
  | zero => simp
  | succ n => exact fun h => absurd (Option.some.inj h) (by decide)

/-- Less than a header at the start of a chunk, with which no larger size is read, fails. -/
theorem Scans.next_unsized {bs : Bytes} (h : Scans r bs .filled front) (hzero : r.restSize = 0)
    (hhead : bs.head? ≠ some padding) (htells : Tells r.position) (hless : bs.length < headerSize)
    (hsize : ¬ (bs.length : Int) < recordSize (bs ++ front.drop bs.length)) :
    getNextJournalRecord decode r = none := by
  obtain ⟨start, hstart⟩ := Option.isSome_iff_exists.mp htells
  obtain ⟨hrefill, hcurrent, hleft⟩ := h.refill (.inl hzero) (by simp) (.inl hzero) (.inl hzero)
  have htwelve : headerSize ≤ recordsReadChunkSize := by decide
  have hsame : recordSize r.refill.buffer = recordSize (bs ++ front.drop bs.length) := by
    rw [← recordSize_take, hrefill.front_eq, recordSize_take]
  have hgrown : ¬ (r.refill.restSize : Int) < recordSize r.refill.buffer := by
    rw [hsame]
    omega
  have hneeds := Scans.needs_of_zero hzero
  have hopen := h.not_endOfFile (by simp)
  have hopen' : ¬(r.refill.endOfFile = true ∧ r.refill.restSize = 0) := fun hend => hopen hend.1
  have hfails : takeRecord decode r.refill = none := by
    simp only [takeRecord]
    rw [if_pos (.inl (by omega))]
  simp only [getNextJournalRecord, skipPadding_eq (h.paddingLength_unread hhead)]
  rw [if_pos hneeds, if_neg hopen, if_neg h.restSize_le.not_gt, hstart, Option.bind_some,
    grow_of_complete _ hgrown, if_pos hgrown, skipPadding_eq (hrefill.paddingLength_unread hhead),
    if_neg hopen', hfails]

/-- An end that does not fit is not recognized, or the file is not cut where the record starts. -/
theorem Scans.next_end_fails {count n : Nat}
    (h : Scans r (List.replicate count padding ++ (frame payload).take n) .filled front)
    (hsmall : frameSize payload ≤ recordsReadChunkSize) (hn : n < frameSize payload)
    (hnot : ¬ BufferState.EndFits ⟨r.restSize, .filled, front⟩ r.fileOffset count
      ((frame payload).take n)) {r' : JournalReadHandler}
    (hnext : getNextJournalRecord decode r = some (none, r')) :
    r'.file ≠ r.file.take (r.fileOffset + count) := by
  have hhead := head?_take_frame payload n
  have hbound : frameSize payload < 2 ^ 63 := hsmall.trans_lt (by decide)
  have htorn : ((frame payload).take n).length = n := by
    rw [List.length_take, length_frame]
    omega
  obtain ⟨hskip, hrest, hoffset⟩ := h.skip hhead
  have hposition := h.position_eq
  have hle := h.position_le
  have hplace : r.skipPadding.position = r.position := rfl
  rw [h.next_skip hhead] at hnext
  have htells : r.skipPadding.restSize = 0 → Tells r.skipPadding.position := by
    intro hzero
    by_contra hfails
    rw [hskip.next_not_tells (by simp [unread, hzero, paddingLength]) (Scans.needs_of_zero hzero)
      hfails] at hnext
    cases hnext
  rcases Nat.lt_trichotomy r.restSize count with hless | heq | hmore
  · -- a chunk starts with padding
    have hzero : r.skipPadding.restSize = 0 := by omega
    rw [hskip.next_padded_incomplete (by omega) hzero hhead hbound (htells hzero) (by omega)
      (fun m hm => by rw [List.take_take, Nat.min_eq_left (by omega)])] at hnext
    cases hnext
  · rw [heq, Nat.sub_self, List.replicate_zero, List.nil_append] at hskip
    have hzero : r.skipPadding.restSize = 0 := by omega
    obtain ⟨start, hstart⟩ := Option.isSome_iff_exists.mp (htells hzero)
    by_cases hcut : (n : Int) < recordSize ((frame payload).take n ++ front.drop n)
    · -- the file is cut where the offset of the read is taken to be
      have hreads : ¬ EndReads (r.fileOffset + count) ((frame payload).take n) := fun hreads =>
        hnot ⟨heq, .inl ⟨by rwa [htorn], hreads⟩⟩
      have hchunk : recordsReadChunkSize = 524288 := rfl
      have hsome : n ≠ 0 := by
        rintro rfl
        apply hreads
        rw [List.take_zero, EndReads, if_pos rfl]
        exact (show r.skipPadding.position = r.fileOffset + count by omega) ▸ htells hzero
      have hfar : ¬ r.skipPadding.position < 2 ^ 31 := by
        intro hlt
        apply hreads
        rw [EndReads, if_neg fun hnil => hsome (by rw [← htorn, hnil, List.length_nil]), htorn]
        omega
      obtain ⟨g, hfile, hnext'⟩ := hskip.next_torn_eq hzero (by simp) hhead (by rwa [htorn])
        (by omega) hstart decode
      have hfile : g.file = r.file := hfile
      rw [hnext', if_neg (by omega)] at hnext
      split at hnext
      · cases hnext
      · obtain ⟨-, rfl⟩ := Prod.mk.inj (Option.some.inj hnext)
        have hbehind := seekOffset_behind hfar hstart
        intro hsame
        have hlength := congrArg List.length hsame
        simp only [hfile, List.length_take] at hlength
        omega
    -- less than a header is left, or its size would be known
    have hless : n < headerSize := by
      refine Nat.lt_of_not_le fun hheader => hcut ?_
      rw [recordSize_of_take hbound (by
        rw [List.take_append_of_le_length (by rw [htorn]; exact hheader), List.take_take,
          Nat.min_eq_left hheader])]
      omega
    rw [hskip.next_unsized hzero hhead (htells hzero) (by rwa [htorn]) (by rwa [htorn])] at hnext
    cases hnext
  · -- the file is cut behind the bytes that were fetched, if at all, or far in front of them
    have hsame : r.skipPadding.file = r.file := rfl
    intro hfile
    have hlength := congrArg List.length hfile
    rw [List.length_take] at hlength
    rcases getNextJournalRecord_file hnext with hwhole | ⟨start, hstart, hnonneg, hcut⟩
    · rw [hwhole, hsame] at hlength
      omega
    · rw [hcut, hsame, List.length_take] at hlength
      by_cases hnear : r.skipPadding.position < 2 ^ 31
      · rw [seekOffset_of_lt hnear] at hstart
        have hexact := Option.some.inj hstart
        omega
      · have hbehind := seekOffset_behind hnear hstart
        have hchunk : r.restSize ≤ 524288 := h.restSize_le
        omega

/-! ### Whole files -/

/-- The records that are complete in the first `length` bytes, with their offsets and sizes. -/
def completeRecords (encode : ρ → Bytes) (fileId : Nat) :
    Nat → Nat → List (Nat × ρ) → List (Found ρ)
  | _, _, [] => []
  | offset, length, (count, record) :: entries =>
      if count + frameSize (encode record) ≤ length then
        (record, toLex (fileId, offset + count), frameSize (encode record)) ::
          completeRecords encode fileId (offset + (count + frameSize (encode record)))
            (length - (count + frameSize (encode record))) entries
      else []

/-- How many bytes stand in front of a record that is cut. -/
def cutLength (encode : ρ → Bytes) : Nat → List (Nat × ρ) → Nat
  | length, [] => length
  | length, (count, record) :: entries =>
      if count + frameSize (encode record) ≤ length then
        count + frameSize (encode record) +
          cutLength encode (length - (count + frameSize (encode record))) entries
      else min count length

theorem take_layout_complete {count length : Nat} {record : ρ} {entries : List (Nat × ρ)}
    {trailing : Nat} (hcomplete : count + frameSize (encode record) ≤ length) :
    (layout encode ((count, record) :: entries) trailing).take length =
      List.replicate count padding ++ (frame (encode record) ++
        (layout encode entries trailing).take
          (length - (count + frameSize (encode record)))) := by
  rw [layout, List.take_append, List.take_append, List.length_replicate, length_frame,
    List.take_of_length_le (by rw [List.length_replicate]; omega),
    List.take_of_length_le (by rw [length_frame]; omega), Nat.sub_sub]

theorem take_layout_cut {count length : Nat} {record : ρ} {entries : List (Nat × ρ)}
    {trailing : Nat} (hcut : ¬ count + frameSize (encode record) ≤ length) :
    (layout encode ((count, record) :: entries) trailing).take length =
      List.replicate (min count length) padding ++
        (frame (encode record)).take (length - count) := by
  rw [layout, List.take_append, List.take_append, List.length_replicate, length_frame,
    show length - count - frameSize (encode record) = 0 by omega, List.take_zero, List.append_nil,
    List.take_replicate, Nat.min_comm]

theorem Scans.readAll_of_decodes {ρ' : Type} {decode : Bytes → Option ρ'} (asRead : ρ → ρ')
    {entries : List (Nat × ρ)} {trailing length fuel : Nat}
    (h : Scans r ((layout encode entries trailing).take length) mode front)
    (hlength : length ≤ (layout encode entries trailing).length)
    (hfits : BufferState.Fits encode ⟨r.restSize, mode, front⟩ r.fileOffset entries length)
    (hdecode : ∀ entry ∈ entries, decode (encode entry.2) = some (asRead entry.2))
    (hfuel : length < fuel) :
    ∃ r', readAll decode fuel r =
        some ((completeRecords encode r.fileId r.fileOffset length entries).map
          fun found => (asRead found.1, found.2), r') ∧
      r'.file = r.file.take (r.fileOffset + cutLength encode length entries) := by
  induction entries generalizing r mode front length fuel with
  | nil =>
      obtain ⟨fuel, rfl⟩ := Nat.exists_eq_succ_of_ne_zero (Nat.ne_zero_of_lt hfuel)
      have hstream : (layout encode ([] : List (Nat × ρ)) trailing).take length =
          List.replicate length padding ++ [] := by
        simp only [layout, List.length_replicate] at hlength ⊢
        rw [List.take_replicate, Nat.min_eq_left hlength, List.append_nil]
      rw [hstream] at h
      obtain ⟨r', hnext, hfile⟩ := h.next_end (by simp) hfits decode
      exact ⟨r', by simp [readAll, hnext, completeRecords], hfile⟩
  | cons entry entries ih =>
      obtain ⟨count, record⟩ := entry
      obtain ⟨fuel, rfl⟩ := Nat.exists_eq_succ_of_ne_zero (Nat.ne_zero_of_lt hfuel)
      by_cases hcomplete : count + frameSize (encode record) ≤ length
      · rw [take_layout_complete hcomplete] at h
        have hrest : length - (count + frameSize (encode record)) ≤
            (layout encode entries trailing).length := by
          simp only [layout, List.length_append, List.length_replicate, length_frame] at hlength
          omega
        simp only [BufferState.Fits, if_pos hcomplete] at hfits
        split at hfits
        · rename_i b' hafter
          have htotal : count + frameSize (encode record) + ((layout encode entries trailing).take
              (length - (count + frameSize (encode record)))).length = length := by
            rw [List.length_take]
            omega
          obtain ⟨r', hnext, hscans, hleft, hoffset, hfile, hid⟩ := h.next_entry
            (htotal.symm ▸ hafter) (hdecode _ List.mem_cons_self)
          have hpos := headerSize_le_frameSize (encode record)
          have htwelve : 0 < headerSize := by decide
          have hless : length - (count + frameSize (encode record)) < fuel := by omega
          obtain ⟨r'', hread, hfile'⟩ := ih hscans hrest (by rwa [hleft, hoffset])
            (fun entry hin => hdecode entry (List.mem_cons_of_mem _ hin)) hless
          refine ⟨r'', ?_, ?_⟩
          · simp only [readAll, hnext, hread, Option.map_some, completeRecords, if_pos hcomplete,
              hoffset, hid, List.map_cons]
          · rw [hfile', hfile, hoffset, cutLength, if_pos hcomplete, Nat.add_assoc]
        · exact absurd hfits id
      · rw [take_layout_cut hcomplete] at h
        simp only [BufferState.Fits, if_neg hcomplete] at hfits
        obtain ⟨r', hnext, hfile⟩ := h.next_end (head?_take_frame _ _) hfits decode
        refine ⟨r', by simp [readAll, hnext, completeRecords, hcomplete], ?_⟩
        rw [hfile, cutLength, if_neg hcomplete]

theorem Scans.readAll_of_fits {entries : List (Nat × ρ)} {trailing length fuel : Nat}
    (h : Scans r ((layout encode entries trailing).take length) mode front)
    (hlength : length ≤ (layout encode entries trailing).length)
    (hfits : BufferState.Fits encode ⟨r.restSize, mode, front⟩ r.fileOffset entries length)
    (hdecode : ∀ entry ∈ entries, decode (encode entry.2) = some entry.2)
    (hfuel : length < fuel) :
    ∃ r', readAll decode fuel r =
        some (completeRecords encode r.fileId r.fileOffset length entries, r') ∧
      r'.file = r.file.take (r.fileOffset + cutLength encode length entries) := by
  obtain ⟨r', hread, hfile⟩ := h.readAll_of_decodes id hlength hfits hdecode hfuel
  exact ⟨r', by simpa using hread, hfile⟩

theorem readAll_nil {fuel : Nat} {r' : JournalReadHandler}
    (h : readAll decode fuel r = some ([], r')) :
    getNextJournalRecord decode r = some (none, r') := by
  cases fuel with
  | zero => cases h
  | succ fuel =>
      rw [readAll] at h
      split at h
      · cases h
      · rename_i hnext
        rw [hnext, (Prod.mk.inj (Option.some.inj h)).2]
      · obtain ⟨_, -, heq⟩ := Option.map_eq_some_iff.mp h
        cases heq

theorem readAll_cons {fuel : Nat} {found : Found ρ} {founds : List (Found ρ)}
    {r' : JournalReadHandler} (h : readAll decode fuel r = some (found :: founds, r')) :
    ∃ r₁ n, getNextJournalRecord decode r = some (some found, r₁) ∧
      readAll decode n r₁ = some (founds, r') := by
  cases fuel with
  | zero => cases h
  | succ fuel =>
      rw [readAll] at h
      split at h
      · cases h
      · cases h
      · rename_i found' r₁ hnext
        obtain ⟨⟨founds', r₂⟩, hread, heq⟩ := Option.map_eq_some_iff.mp h
        obtain ⟨hcons, rfl⟩ := Prod.mk.inj heq
        obtain ⟨rfl, rfl⟩ := List.cons.inj hcons
        exact ⟨r₁, fuel, hnext, hread⟩

theorem Scans.fits_of_readAll {entries : List (Nat × ρ)} {trailing length fuel : Nat}
    (h : Scans r ((layout encode entries trailing).take length) mode front)
    (hmode : mode = .filled) (hlength : length ≤ (layout encode entries trailing).length)
    (hdecode : ∀ entry ∈ entries, decode (encode entry.2) = some entry.2)
    (hsmall : ∀ entry ∈ entries, frameSize (encode entry.2) ≤ recordsReadChunkSize)
    {r' : JournalReadHandler} (hread : readAll decode fuel r =
      some (completeRecords encode r.fileId r.fileOffset length entries, r'))
    (hfile : r'.file = r.file.take (r.fileOffset + cutLength encode length entries)) :
    BufferState.Fits encode ⟨r.restSize, mode, front⟩ r.fileOffset entries length := by
  induction entries generalizing r mode front length fuel with
  | nil =>
      have hstream : (layout encode ([] : List (Nat × ρ)) trailing).take length =
          List.replicate length padding ++ (frame []).take 0 := by
        simp only [layout, List.length_replicate] at hlength ⊢
        rw [List.take_replicate, Nat.min_eq_left hlength, List.take_zero, List.append_nil]
      subst hmode
      rw [hstream] at h
      refine Classical.byContradiction fun hnot => ?_
      exact h.next_end_fails (by decide) (by decide) hnot (readAll_nil hread) hfile
  | cons entry entries ih =>
      obtain ⟨count, record⟩ := entry
      have hhere : frameSize (encode record) ≤ recordsReadChunkSize :=
        hsmall _ List.mem_cons_self
      by_cases hcomplete : count + frameSize (encode record) ≤ length
      · rw [take_layout_complete hcomplete] at h
        rw [completeRecords, if_pos hcomplete] at hread
        rw [cutLength, if_pos hcomplete] at hfile
        have hrest : length - (count + frameSize (encode record)) ≤
            (layout encode entries trailing).length := by
          simp only [layout, List.length_append, List.length_replicate, length_frame] at hlength
          omega
        obtain ⟨r₁, n, hnext, hread⟩ := readAll_cons hread
        cases hafter : BufferState.afterRecord ⟨r.restSize, mode, front⟩ r.fileOffset count
            (encode record) length with
        | none =>
            subst hmode
            rw [h.next_entry_fails hhere hafter] at hnext
            cases hnext
        | some b' =>
            have htotal : count + frameSize (encode record) + ((layout encode entries
                trailing).take (length - (count + frameSize (encode record)))).length =
                  length := by
              rw [List.length_take]
              omega
            obtain ⟨r₂, hnext', hscans, hleft, hoffset, hfile', hid⟩ := h.next_entry
              (htotal.symm ▸ hafter) (hdecode _ List.mem_cons_self)
            rw [hnext', Option.some.injEq, Prod.mk.injEq] at hnext
            obtain rfl := hnext.2
            have hmode' := BufferState.afterRecord_mode hhere hmode hafter
            rw [BufferState.Fits, if_pos hcomplete, hafter]
            have hfits := ih hscans hmode' hrest
              (fun entry hin => hdecode entry (List.mem_cons_of_mem _ hin))
              (fun entry hin => hsmall entry (List.mem_cons_of_mem _ hin))
              (by rw [hid, hoffset]; exact hread)
              (by rw [hfile', hoffset, Nat.add_assoc]; exact hfile)
            rwa [hleft, hoffset] at hfits
      · rw [take_layout_cut hcomplete] at h
        rw [completeRecords, if_neg hcomplete] at hread
        rw [cutLength, if_neg hcomplete] at hfile
        rw [BufferState.Fits, if_neg hcomplete]
        subst hmode
        refine Classical.byContradiction fun hnot => ?_
        have hpos := headerSize_add_footerSize_le (encode record)
        exact h.next_end_fails hhere (by omega) hnot (readAll_nil hread) hfile

theorem le_offset_of_mem_located {fileId offset : Nat} {entries : List (Nat × ρ)} {found : Found ρ}
    (h : found ∈ located encode fileId offset entries) : offset ≤ (ofLex found.2.1).2 := by
  induction entries generalizing offset with
  | nil => cases h
  | cons entry entries ih =>
      rcases List.mem_cons.mp h with rfl | h
      · exact Nat.le_add_right _ _
      · exact (Nat.le_add_right _ _).trans ((Nat.le_add_right _ _).trans (ih h))

theorem filter_located (encode : ρ → Bytes) (fileId offset length : Nat)
    (entries : List (Nat × ρ)) :
    ((located encode fileId offset entries).filter fun found =>
        CompleteIn (offset + length) found) =
      completeRecords encode fileId offset length entries := by
  induction entries generalizing offset length with
  | nil => rfl
  | cons entry entries ih =>
      obtain ⟨count, record⟩ := entry
      have hhead : CompleteIn (offset + length) (record, toLex (fileId, offset + count),
          frameSize (encode record)) ↔ count + frameSize (encode record) ≤ length := by
        show offset + count + frameSize (encode record) ≤ offset + length ↔ _
        omega
      by_cases hcomplete : count + frameSize (encode record) ≤ length
      · have hrest := ih (offset + (count + frameSize (encode record)))
          (length - (count + frameSize (encode record)))
        rw [show offset + (count + frameSize (encode record)) +
          (length - (count + frameSize (encode record))) = offset + length by omega] at hrest
        rw [located, List.filter_cons_of_pos (by simpa using hhead.mpr hcomplete),
          completeRecords, if_pos hcomplete, ← hrest, Nat.add_assoc]
      · rw [located, List.filter_cons_of_neg (by simpa using mt hhead.mp hcomplete),
          completeRecords, if_neg hcomplete, List.filter_eq_nil_iff]
        intro found hin hfound
        have hle := le_offset_of_mem_located hin
        have hcomplete' : (ofLex found.2.1).2 + found.2.2 ≤ offset + length :=
          of_decide_eq_true hfound
        omega

theorem cutOffset_eq (encode : ρ → Bytes) (offset length : Nat) (entries : List (Nat × ρ)) :
    cutOffset encode (offset + length) offset entries =
      offset + cutLength encode length entries := by
  induction entries generalizing offset length with
  | nil => rfl
  | cons entry entries ih =>
      obtain ⟨count, record⟩ := entry
      by_cases hcomplete : count + frameSize (encode record) ≤ length
      · have hrest := ih (offset + (count + frameSize (encode record)))
          (length - (count + frameSize (encode record)))
        rw [show offset + (count + frameSize (encode record)) +
          (length - (count + frameSize (encode record))) = offset + length by omega] at hrest
        rw [cutOffset, if_pos (by omega), cutLength, if_pos hcomplete, Nat.add_assoc, hrest]
        omega
      · rw [cutOffset, if_neg (by omega), cutLength, if_neg hcomplete]
        omega

theorem cutLength_le (encode : ρ → Bytes) (length : Nat) (entries : List (Nat × ρ)) :
    cutLength encode length entries ≤ length := by
  induction entries generalizing length with
  | nil => exact Nat.le_refl _
  | cons entry entries ih =>
      obtain ⟨count, record⟩ := entry
      rw [cutLength]
      split
      · have hrest := ih (length - (count + frameSize (encode record)))
        omega
      · exact Nat.min_le_right _ _

theorem cutLength_total (encode : ρ → Bytes) (entries : List (Nat × ρ)) (trailing : Nat) :
    cutLength encode (layout encode entries trailing).length entries =
      (layout encode entries trailing).length := by
  induction entries with
  | nil => rfl
  | cons entry entries ih =>
      obtain ⟨count, record⟩ := entry
      simp only [layout, List.length_append, List.length_replicate, length_frame, cutLength]
      rw [if_pos (by omega), show count + (frameSize (encode record) +
        (layout encode entries trailing).length) - (count + frameSize (encode record)) =
          (layout encode entries trailing).length by omega, ih]
      omega

theorem completeRecords_total (encode : ρ → Bytes) (fileId offset : Nat)
    (entries : List (Nat × ρ)) (trailing : Nat) :
    completeRecords encode fileId offset (layout encode entries trailing).length entries =
      located encode fileId offset entries := by
  induction entries generalizing offset with
  | nil => rfl
  | cons entry entries ih =>
      obtain ⟨count, record⟩ := entry
      simp only [layout, List.length_append, List.length_replicate, length_frame, completeRecords]
      rw [if_pos (by omega), show count + (frameSize (encode record) +
        (layout encode entries trailing).length) - (count + frameSize (encode record)) =
          (layout encode entries trailing).length by omega, ih, located, Nat.add_assoc]

/-- The second of two records does not fit behind the padding that goes on in the next chunk. -/
theorem not_fits_padding_across {first second : Bytes} {count : Nat}
    (hfirst : frameSize first ≤ recordsReadChunkSize)
    (hacross : recordsReadChunkSize < frameSize first + count)
    (hsecond : recordsReadChunkSize + recordsReadChunkSize <
      frameSize first + count + frameSize second) :
    ¬ BufferState.blank.Fits id 0 [(0, first), (count, second)]
      (layout id [(0, first), (count, second)] 0).length := by
  have hlength : (layout id [(0, first), (count, second)] 0).length =
      frameSize first + (count + frameSize second) := by
    simp only [layout, List.length_append, List.length_replicate, length_frame, id_eq]
    omega
  have hpos := headerSize_add_footerSize_le first
  have hchunks : chunksFor (frameSize first) = recordsReadChunkSize :=
    roundUp_small ((by decide : 0 < 16).trans_le hpos) hfirst
  have hmin : min recordsReadChunkSize (frameSize first + (count + frameSize second)) =
      recordsReadChunkSize := Nat.min_eq_left (by omega)
  have hafter : BufferState.blank.afterRecord 0 0 first (frameSize first +
      (count + frameSize second)) = some ⟨recordsReadChunkSize - frameSize first,
        modeAfter (frameSize first) (frameSize first + (count + frameSize second)),
        (frame first).take headerSize⟩ := by
    have hnone : ¬ 0 + frameSize first ≤ BufferState.blank.left := by
      show ¬ 0 + frameSize first ≤ 0
      omega
    have htells : Tells (0 + BufferState.blank.left) := by decide
    simp only [BufferState.afterRecord, hchunks]
    rw [if_neg hnone, if_neg (not_not.mpr htells), if_neg (Nat.not_lt_zero _),
      if_pos ⟨.inl rfl, by decide⟩, Nat.sub_zero, hmin]
  have htells : Tells (0 + (0 + frameSize first) + (recordsReadChunkSize - frameSize first)) := by
    rw [show 0 + (0 + frameSize first) + (recordsReadChunkSize - frameSize first) =
      recordsReadChunkSize by omega]
    decide
  rw [hlength, BufferState.Fits]
  simp only [id_eq]
  rw [if_pos (by omega), hafter]
  simp only [BufferState.Fits, BufferState.afterRecord, id_eq]
  rw [if_pos (by omega), if_neg (by omega), if_neg (not_not.mpr htells), if_pos (by omega),
    if_neg (by omega)]
  exact id

end JournalReadHandler

end ObjectStorage.Journal
