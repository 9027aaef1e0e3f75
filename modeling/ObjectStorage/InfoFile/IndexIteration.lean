import ObjectStorage.InfoFile.LayoutVersion
import ObjectStorage.Library.Enumeration

/-!
`IndexBlockIterator` over the index records of an info file, forwards and backwards. The records are
read chunk by chunk; the reader takes the place and the number of the records as 32 bit integers,
and so is the number of bytes.
-/

namespace ObjectStorage.InfoFile.IndexIteration

open Library ObjectStorage.Journal

def zeroSlot : IndexSlot := ⟨hashField [], 0, 0⟩

/-- `resize` of the buffer. -/
def resize (buffer : List IndexSlot) (count : Nat) : List IndexSlot :=
  buffer.take count ++ List.replicate (count - buffer.length) zeroSlot

/-- `Reader::read_index_block` into a buffer, which keeps the bytes that are not read. An old layout
is read into a buffer of its own first, and nothing is read from a file of an unknown version. -/
def readIndexBlockInto (version : Nat) (block : Bytes) (buffer : List IndexSlot)
    (start count : Nat) : List IndexSlot :=
  let size := sizeofIndex version * count % 2 ^ 32
  let bytes := (block.drop (start % 2 ^ 32 * sizeofIndex version)).take size
  if version = 0 then readIndexBlock 0 bytes 0 buffer.length
  else if version = supportedVersion then
    readIndexBlock supportedVersion
      (bytes ++ (buffer.flatMap (·.encode supportedVersion)).drop bytes.length) 0 buffer.length
  else buffer

structure IndexBlockIterator where
  restCount : Nat
  currentCount : Nat
  indexBuffer : List IndexSlot
  indexIter : Nat

namespace IndexBlockIterator

variable (version limit : Nat) (block : Bytes) (reverse : Bool)

def readIndexRecords (it : IndexBlockIterator) : IndexBlockIterator :=
  let readCount := min limit it.restCount
  let buffer := resize it.indexBuffer readCount
  if reverse then
    { it with
      indexBuffer :=
        readIndexBlockInto version block buffer (it.currentCount - readCount) readCount
      indexIter := readCount }
  else
    { it with
      indexBuffer := readIndexBlockInto version block buffer it.currentCount readCount
      indexIter := 0 }

/-- The iterator over the sorted and the unsorted records. -/
def new (records : Nat) : IndexBlockIterator :=
  readIndexRecords version limit block reverse
    ⟨records, if reverse then records else 0, [], 0⟩

/-- A step in front of the buffer and a record behind its end are undefined. Backwards the record is
copied when the buffer may have been filled again; what lies behind a buffer that has become smaller
is still its former contents. -/
def next (it : IndexBlockIterator) : Option (Option (IndexSlot × IndexBlockIterator)) :=
  if it.restCount = 0 then some none
  else if reverse then
    if it.indexIter = 0 then none
    else
      let moved :=
        { it with
          indexIter := it.indexIter - 1
          currentCount := it.currentCount - 1
          restCount := it.restCount - 1 }
      let filled :=
        if moved.indexIter = 0 then readIndexRecords version limit block reverse moved else moved
      (filled.indexBuffer[moved.indexIter]?.or it.indexBuffer[moved.indexIter]?).map
        fun record => some (record, filled)
  else
    let filled :=
      if it.indexIter = it.indexBuffer.length then readIndexRecords version limit block reverse it
      else it
    filled.indexBuffer[filled.indexIter]?.map fun record =>
      some (record, { filled with
        indexIter := filled.indexIter + 1
        currentCount := filled.currentCount + 1
        restCount := filled.restCount - 1 })

end IndexBlockIterator

/-! ### What the reader finds -/

variable {version limit : Nat} {slots buffer : List IndexSlot} {start count : Nat}

theorem length_resize (buffer : List IndexSlot) (count : Nat) :
    (resize buffer count).length = count := by
  simp [resize]
  omega

theorem take_flatMap_encode (version : Nat) (slots : List IndexSlot) (i : Nat) :
    (slots.flatMap (·.encode version)).take (i * sizeofIndex version) =
      (slots.take i).flatMap (·.encode version) := by
  have hsplit : slots.flatMap (·.encode version) =
      (slots.take i).flatMap (·.encode version) ++ (slots.drop i).flatMap (·.encode version) := by
    rw [← List.flatMap_append, List.take_append_drop]
  by_cases hi : i ≤ slots.length
  · have hlength : ((slots.take i).flatMap (·.encode version)).length =
        i * sizeofIndex version := by
      rw [length_flatMap_encode, List.length_take, Nat.min_eq_left hi]
    rw [hsplit, List.take_left' hlength]
  · have hle : slots.length ≤ i := by omega
    rw [List.take_of_length_le hle, List.take_of_length_le]
    rw [length_flatMap_encode]
    exact Nat.mul_le_mul_right _ hle

/-- Chunks of less than 2 ^ 32 bytes are read from the place that is left of 32 bits. -/
theorem readIndexBlockInto_of_fits (hversion : version ≤ supportedVersion)
    (hsize : sizeofIndex version * count < 2 ^ 32) (hbuffer : buffer.length = count)
    (hcount : start % 2 ^ 32 + count ≤ slots.length) :
    readIndexBlockInto version (slots.flatMap (·.encode version)) buffer start count =
      ((slots.drop (start % 2 ^ 32)).take count).map (IndexSlot.asRead version) := by
  have hchunk : ((slots.drop (start % 2 ^ 32)).take count).length = count := by
    rw [List.length_take, List.length_drop]
    omega
  have hread := readIndexBlock_encode version ((slots.drop (start % 2 ^ 32)).take count)
  rw [hchunk] at hread
  have hbytes : ((slots.flatMap (·.encode version)).drop
      (start % 2 ^ 32 * sizeofIndex version)).take (sizeofIndex version * count) =
        ((slots.drop (start % 2 ^ 32)).take count).flatMap (·.encode version) := by
    rw [drop_flatMap_encode, Nat.mul_comm, take_flatMap_encode]
  have hcases : version = 0 ∨ version = supportedVersion := by
    unfold supportedVersion at hversion ⊢
    omega
  unfold readIndexBlockInto
  dsimp only
  rw [Nat.mod_eq_of_lt hsize, hbytes, hbuffer]
  rcases hcases with rfl | rfl
  · exact hread
  · have hold : (buffer.flatMap (·.encode supportedVersion)).drop (((slots.drop
        (start % 2 ^ 32)).take count).flatMap (·.encode supportedVersion)).length = [] := by
      rw [List.drop_eq_nil_iff, length_flatMap_encode, length_flatMap_encode, hbuffer, hchunk]
    rw [if_neg (by decide), if_pos rfl, hold, List.append_nil]
    exact hread

/-- The last record of a chunk that is too large is not read, and that of an unknown version is
not either. -/
theorem readIndexBlockInto_of_not_fits
    (h : supportedVersion < version ∨ 2 ^ 32 ≤ sizeofIndex version * count) (hcount : 0 < count)
    (block : Bytes) :
    (readIndexBlockInto version block (List.replicate count zeroSlot) start count)[count - 1]? =
      some zeroSlot := by
  have hlast : count - 1 < count := Nat.sub_lt hcount Nat.one_pos
  have hsize : version ≤ supportedVersion →
      sizeofIndex version * count % 2 ^ 32 ≤ (count - 1) * sizeofIndex version := by
    intro hversion
    have hbig := h.resolve_left hversion.not_gt
    have hmod := Nat.mod_lt (sizeofIndex version * count) (Nat.two_pow_pos 32)
    have hdiv := Nat.mod_add_div (sizeofIndex version * count) (2 ^ 32)
    have hpos : 0 < sizeofIndex version * count / 2 ^ 32 :=
      Nat.div_pos hbig (Nat.two_pow_pos 32)
    have hsmall : sizeofIndex version ≤ 2 ^ 32 := by
      unfold sizeofIndex sizeofIndexRecordV0 sizeofIndexRecord
      split <;> decide
    have hle : 2 ^ 32 ≤ 2 ^ 32 * (sizeofIndex version * count / 2 ^ 32) :=
      Nat.le_mul_of_pos_right _ hpos
    have hsub : (count - 1) * sizeofIndex version =
        sizeofIndex version * count - sizeofIndex version := by
      rw [Nat.sub_mul, Nat.one_mul, Nat.mul_comm]
    omega
  unfold readIndexBlockInto
  dsimp only
  split_ifs with hzero hsupported
  · subst hzero
    have hempty : (((block.drop (start % 2 ^ 32 * sizeofIndex 0)).take
        (sizeofIndex 0 * count % 2 ^ 32)).drop ((count - 1) * sizeofIndex 0)) = [] := by
      rw [List.drop_eq_nil_iff]
      exact (List.length_take_le _ _).trans (hsize (Nat.zero_le _))
    simp only [readIndexBlock, List.length_replicate, List.getElem?_map, Nat.zero_add,
      List.getElem?_range hlast, Option.map_some, hempty]
    rfl
  · subst hsupported
    have hle := (List.length_take_le _ (block.drop
      (start % 2 ^ 32 * sizeofIndex supportedVersion))).trans (hsize le_rfl)
    generalize (block.drop (start % 2 ^ 32 * sizeofIndex supportedVersion)).take
      (sizeofIndex supportedVersion * count % 2 ^ 32) = bytes at hle
    have hdrop : (bytes ++ ((List.replicate count zeroSlot).flatMap
        (·.encode supportedVersion)).drop bytes.length).drop
          ((count - 1) * sizeofIndex supportedVersion) = zeroSlot.encode supportedVersion := by
      rw [List.drop_append, List.drop_of_length_le hle, List.nil_append, List.drop_drop,
        Nat.add_sub_cancel' hle, drop_flatMap_encode, List.drop_replicate,
        show count - (count - 1) = 1 by omega]
      simp
    simp only [readIndexBlock, List.length_replicate, List.getElem?_map, Nat.zero_add,
      List.getElem?_range hlast, Option.map_some, hdrop]
    have hdecode := IndexSlot.decode_encode supportedVersion zeroSlot []
    rw [List.append_nil] at hdecode
    rw [hdecode]
    rfl
  · rw [List.getElem?_replicate, if_pos hlast]

theorem length_readIndexBlockInto (version : Nat) (block : Bytes) (buffer : List IndexSlot)
    (start count : Nat) :
    (readIndexBlockInto version block buffer start count).length = buffer.length := by
  unfold readIndexBlockInto
  dsimp only
  split_ifs <;> simp [readIndexBlock]

theorem getElem?_eq_getD {records : List IndexSlot} {i : Nat} (hi : i < records.length) :
    records[i]? = some (records.getD i zeroSlot) := by
  simp [List.getD_eq_getElem?_getD, List.getElem?_eq_getElem hi]

/-! ### What the calls return -/

/-- All chunks of the file can be read. -/
structure Fits (version limit records : Nat) : Prop where
  known : version ≤ supportedVersion
  small : sizeofIndex version * min limit records < 2 ^ 32

/-- The chunk that is read at a place. -/
def chunk (version : Nat) (slots : List IndexSlot) (start count : Nat) : List IndexSlot :=
  ((slots.map (IndexSlot.asRead version)).drop (start % 2 ^ 32)).take count

theorem readIndexBlockInto_eq_chunk (h : Fits version limit slots.length)
    (buffer : List IndexSlot) (start : Nat) (hbuffer : buffer.length = count)
    (hlimit : count ≤ limit) (hcount : start + count ≤ slots.length) :
    readIndexBlockInto version (slots.flatMap (·.encode version)) buffer start count =
      chunk version slots start count := by
  have hmod : start % 2 ^ 32 ≤ start := Nat.mod_le _ _
  have hsize : sizeofIndex version * count < 2 ^ 32 :=
    (Nat.mul_le_mul_left _ (le_min hlimit (by omega))).trans_lt h.small
  rw [readIndexBlockInto_of_fits h.known hsize hbuffer (by omega), chunk, List.map_take,
    List.map_drop]

theorem length_chunk (version : Nat) (hcount : start + count ≤ slots.length) :
    (chunk version slots start count).length = count := by
  have hmod : start % 2 ^ 32 ≤ start := Nat.mod_le _ _
  simp only [chunk, List.length_take, List.length_drop, List.length_map]
  omega

theorem getElem?_chunk {i : Nat} (hi : i < count) :
    (chunk version slots start count)[i]? =
      (slots.map (IndexSlot.asRead version))[start % 2 ^ 32 + i]? := by
  rw [chunk, List.getElem?_take_of_lt hi, List.getElem?_drop]

namespace IndexBlockIterator

/-- The calls of a new iterator return these records and then `NULL`. -/
def Returns (version limit : Nat) (slots : List IndexSlot) (reverse : Bool)
    (records : List IndexSlot) : Prop :=
  Drains (next version limit (slots.flatMap (·.encode version)) reverse)
    (new version limit (slots.flatMap (·.encode version)) reverse slots.length) records

/-! ### Forwards -/

/-- The iterator forwards after this many calls. -/
def forwards (version limit : Nat) (slots : List IndexSlot) (k : Nat) : IndexBlockIterator :=
  let start := (k - 1) / limit * limit
  ⟨slots.length - k, k, chunk version slots start (min limit (slots.length - start)), k - start⟩

/-- Where the record of this call is read. -/
def forwardPlace (limit k : Nat) : Nat := k / limit * limit % 2 ^ 32 + k % limit

theorem new_forwards (h : Fits version limit slots.length) :
    new version limit (slots.flatMap (·.encode version)) false slots.length =
      forwards version limit slots 0 := by
  have hread := readIndexBlockInto_eq_chunk h (resize [] (min limit slots.length)) 0
    (length_resize _ _) (Nat.min_le_left _ _) (by omega)
  simp [new, readIndexRecords, forwards, hread]

theorem start_of_boundary {k : Nat} (hk : 0 < k) (h : k % limit = 0) :
    (k - 1) / limit * limit + limit = k := by
  obtain ⟨q, rfl⟩ := Nat.dvd_of_mod_eq_zero h
  have hlimit : 0 < limit := Nat.pos_of_mul_pos_right hk
  obtain ⟨p, rfl⟩ := Nat.exists_eq_succ_of_ne_zero (Nat.pos_of_mul_pos_left hk).ne'
  have hsplit : limit * (p + 1) - 1 = limit - 1 + limit * p := by
    rw [Nat.mul_succ]
    omega
  rw [hsplit, Nat.add_mul_div_left _ _ hlimit, Nat.div_eq_of_lt (by omega), Nat.zero_add,
    Nat.mul_comm p, Nat.mul_succ]

theorem start_of_inside {k : Nat} (h : 0 < k % limit ∨ k = 0) :
    (k - 1) / limit * limit = k / limit * limit := by
  rcases h with h | rfl
  · have hsplit := Nat.div_add_mod k limit
    rcases Nat.eq_zero_or_pos limit with rfl | hlimit
    · simp
    have hmod := Nat.mod_lt k hlimit
    have hfront : k - 1 = k % limit - 1 + limit * (k / limit) := by omega
    rw [hfront, Nat.add_mul_div_left _ _ hlimit, Nat.div_eq_of_lt (by omega), Nat.zero_add]
  · rfl

theorem next_forwards (h : Fits version limit slots.length) (hlimit : 0 < limit) {k : Nat}
    (hk : k < slots.length) :
    next version limit (slots.flatMap (·.encode version)) false (forwards version limit slots k) =
      some (some ((slots.map (IndexSlot.asRead version)).getD (forwardPlace limit k) zeroSlot,
        forwards version limit slots (k + 1))) := by
  have hsplit := Nat.div_add_mod' k limit
  have hmod := Nat.mod_lt k hlimit
  have hplace : forwardPlace limit k < (slots.map (IndexSlot.asRead version)).length := by
    have hle := Nat.mod_le (k / limit * limit) (2 ^ 32)
    rw [forwardPlace, List.length_map]
    omega
  have hget : (chunk version slots (k / limit * limit)
      (min limit (slots.length - k / limit * limit)))[k % limit]? =
        some ((slots.map (IndexSlot.asRead version)).getD (forwardPlace limit k) zeroSlot) := by
    rw [getElem?_chunk (by omega), ← forwardPlace, getElem?_eq_getD hplace]
  have hrest : slots.length - k ≠ 0 := by omega
  by_cases hinside : 0 < k % limit ∨ k = 0
  · have hstart := start_of_inside hinside
    have hindex : k - k / limit * limit = k % limit := by omega
    have hlength : k % limit ≠ (chunk version slots (k / limit * limit)
        (min limit (slots.length - k / limit * limit))).length := by
      rw [length_chunk version (by omega)]
      omega
    have hnext : k + 1 - k / limit * limit = k % limit + 1 := by omega
    simp only [next, forwards, hstart, hindex, if_neg hrest, if_neg hlength, hget,
      Bool.false_eq_true, if_false, Option.map_some, Nat.add_sub_cancel, hnext, Nat.sub_sub]
  · have hzero : k % limit = 0 := by omega
    have hpos : 0 < k := by omega
    have hstart := start_of_boundary hpos hzero
    have hplain : k / limit * limit = k := by omega
    have hindex : k - (k - 1) / limit * limit = limit := by omega
    have hlength : limit = (chunk version slots ((k - 1) / limit * limit)
        (min limit (slots.length - (k - 1) / limit * limit))).length := by
      rw [length_chunk version (by omega)]
      omega
    have hfilled := readIndexBlockInto_eq_chunk h
      (resize (chunk version slots ((k - 1) / limit * limit)
        (min limit (slots.length - (k - 1) / limit * limit))) (min limit (slots.length - k)))
      k (length_resize _ _) (Nat.min_le_left _ _) (by omega)
    have hnext : k + 1 - k = 1 := by omega
    rw [hplain, hzero] at hget
    simp only [next, forwards, hindex, if_neg hrest, if_pos hlength, readIndexRecords, hfilled,
      hget, Bool.false_eq_true, if_false, Option.map_some, Nat.add_sub_cancel, hplain, hnext,
      Nat.zero_add, Nat.sub_sub]

theorem returns_forwards (h : Fits version limit slots.length) (hlimit : 0 < limit) :
    Returns version limit slots false ((List.range slots.length).map fun k =>
      (slots.map (IndexSlot.asRead version)).getD (forwardPlace limit k) zeroSlot) := by
  refine ⟨forwards version limit slots slots.length, ?_, by simp [next, forwards]⟩
  rw [new_forwards h]
  exact emits_range fun k hk => next_forwards h hlimit hk

theorem forwardPlace_eq {k : Nat} (h : k / limit * limit < 2 ^ 32) : forwardPlace limit k = k := by
  rw [forwardPlace, Nat.mod_eq_of_lt h, Nat.div_add_mod']

/-! ### Backwards, while the first chunk lasts -/

/-- The iterator backwards after this many calls. -/
def backwards (version limit : Nat) (slots : List IndexSlot) (k : Nat) : IndexBlockIterator :=
  let count := min limit slots.length
  ⟨slots.length - k, slots.length - k, chunk version slots (slots.length - count) count, count - k⟩

theorem new_backwards (h : Fits version limit slots.length) :
    new version limit (slots.flatMap (·.encode version)) true slots.length =
      backwards version limit slots 0 := by
  have hread := readIndexBlockInto_eq_chunk h (resize [] (min limit slots.length))
    (slots.length - min limit slots.length) (length_resize _ _) (Nat.min_le_left _ _) (by omega)
  simp [new, readIndexRecords, backwards, hread]

theorem next_reverse_inside {block : Bytes} {it : IndexBlockIterator} {i : Nat}
    (hrest : it.restCount ≠ 0) (hindex : it.indexIter = i + 2) :
    next version limit block true it = it.indexBuffer[i + 1]?.map fun record =>
      some (record, { it with
        indexIter := i + 1
        currentCount := it.currentCount - 1
        restCount := it.restCount - 1 }) := by
  simp [next, hrest, hindex]

theorem next_reverse_first {block : Bytes} {it : IndexBlockIterator} (hrest : it.restCount ≠ 0)
    (hindex : it.indexIter = 1) :
    next version limit block true it =
      let filled := readIndexRecords version limit block true
        { it with
          indexIter := 0
          currentCount := it.currentCount - 1
          restCount := it.restCount - 1 }
      (filled.indexBuffer[0]?.or it.indexBuffer[0]?).map fun record => some (record, filled) := by
  simp [next, hrest, hindex]

theorem next_backwards {k : Nat} (hk : k + 1 < min limit slots.length) :
    next version limit (slots.flatMap (·.encode version)) true (backwards version limit slots k) =
      some (some ((chunk version slots (slots.length - min limit slots.length)
        (min limit slots.length)).getD (min limit slots.length - 1 - k) zeroSlot,
        backwards version limit slots (k + 1))) := by
  have hrest : (backwards version limit slots k).restCount ≠ 0 := by
    simp only [backwards]
    omega
  obtain ⟨i, hi⟩ : ∃ i, min limit slots.length - k = i + 2 :=
    ⟨min limit slots.length - k - 2, by omega⟩
  have hplace : min limit slots.length - 1 - k = i + 1 := by omega
  have hnext : min limit slots.length - (k + 1) = i + 1 := by omega
  have hlength : (chunk version slots (slots.length - min limit slots.length)
      (min limit slots.length)).length = min limit slots.length :=
    length_chunk version (by omega)
  have hget : (backwards version limit slots k).indexBuffer[i + 1]? =
      some ((backwards version limit slots k).indexBuffer.getD (i + 1) zeroSlot) :=
    getElem?_eq_getD (by simp only [backwards]; omega)
  rw [next_reverse_inside hrest (by exact hi), hget, hplace]
  simp only [backwards, Option.map_some, hnext, Nat.sub_sub]

theorem emits_backwards (h : Fits version limit slots.length) {m : Nat}
    (hm : m < min limit slots.length) :
    Emits (next version limit (slots.flatMap (·.encode version)) true)
      (new version limit (slots.flatMap (·.encode version)) true slots.length)
      ((List.range m).map fun k => (chunk version slots (slots.length - min limit slots.length)
        (min limit slots.length)).getD (min limit slots.length - 1 - k) zeroSlot)
      (backwards version limit slots m) := by
  rw [new_backwards h]
  exact emits_range fun k hk => next_backwards (by omega)

/-- What the call returns that takes the last record out of the first chunk: the first record of the
chunk in front, if there is one. -/
theorem next_backwards_last (h : Fits version limit slots.length) (hlimit : 0 < limit)
    (hpos : 0 < slots.length) :
    ∃ it : IndexBlockIterator, it.restCount = slots.length - min limit slots.length ∧
      next version limit (slots.flatMap (·.encode version)) true
        (backwards version limit slots (min limit slots.length - 1)) =
      some (some (((slots.map (IndexSlot.asRead version)).getD
        ((slots.length - limit - min limit (slots.length - limit)) % 2 ^ 32) zeroSlot), it)) := by
  let it := backwards version limit slots (min limit slots.length - 1)
  have hrest : it.restCount ≠ 0 := by
    simp only [it, backwards]
    omega
  have hindex : it.indexIter = 1 := by
    simp only [it, backwards]
    omega
  have hleft : it.restCount - 1 = slots.length - min limit slots.length := by
    simp only [it, backwards]
    omega
  have hcurrent : it.currentCount - 1 = slots.length - min limit slots.length := hleft
  have hfilled := readIndexBlockInto_eq_chunk h
    (resize it.indexBuffer (min limit (slots.length - min limit slots.length)))
    (slots.length - min limit slots.length - min limit (slots.length - min limit slots.length))
    (length_resize _ _) (Nat.min_le_left _ _) (by omega)
  rw [next_reverse_first hrest hindex]
  simp only [readIndexRecords, if_true, hleft, hcurrent, hfilled]
  refine ⟨_, rfl, congrArg (Option.map _) (?_ : _ = some _)⟩
  by_cases hone : slots.length ≤ limit
  · have hcount : min limit (slots.length - min limit slots.length) = 0 := by omega
    have hplace : slots.length - limit - min limit (slots.length - limit) = 0 := by omega
    have hempty : (chunk version slots (slots.length - min limit slots.length - 0) 0)[0]? =
        none := by simp [chunk]
    rw [hcount, hempty, hplace, Option.none_or]
    simp only [it, backwards]
    rw [getElem?_chunk (by omega), show slots.length - min limit slots.length = 0 by omega]
    exact getElem?_eq_getD (by simpa using hpos)
  · have hmin : min limit slots.length = limit := by omega
    have hmod := Nat.mod_le (slots.length - limit - min limit (slots.length - limit)) (2 ^ 32)
    rw [hmin, getElem?_chunk (by omega), Nat.add_zero,
      getElem?_eq_getD (by rw [List.length_map]; omega)]
    rfl

theorem reverse_eq_map_getD (records : List IndexSlot) :
    records.reverse = (List.range records.length).map fun k =>
      records.getD (records.length - 1 - k) zeroSlot := by
  refine List.ext_getElem (by simp) fun k hk hk' => ?_
  have hlt : records.length - 1 - k < records.length := by
    rw [List.length_reverse] at hk
    omega
  simp [List.getElem_reverse, List.getD_eq_getElem?_getD, List.getElem?_eq_getElem hlt]

theorem returns_backwards (h : Fits version limit slots.length) (hlimit : slots.length ≤ limit)
    (hpos : 0 < slots.length) :
    Returns version limit slots true (slots.map (IndexSlot.asRead version)).reverse := by
  have hcount : min limit slots.length = slots.length := Nat.min_eq_right hlimit
  have hchunk : chunk version slots 0 slots.length = slots.map (IndexSlot.asRead version) := by
    simp [chunk, List.take_of_length_le]
  obtain ⟨it, hrest, hlast⟩ := next_backwards_last h (hpos.trans_le hlimit) hpos
  have hemits := emits_backwards h (m := slots.length - 1) (by omega)
  rw [hcount, Nat.sub_self, hchunk] at hemits
  rw [hcount] at hlast
  have hall := hemits.concat hlast
  have hplace : slots.length - limit - min limit (slots.length - limit) = 0 := by omega
  have hrange : List.range slots.length = List.range (slots.length - 1) ++ [slots.length - 1] := by
    rw [← List.range_succ]
    exact congrArg List.range (by omega)
  refine ⟨it, ?_, by simp [next, hrest, hcount]⟩
  rw [reverse_eq_map_getD, List.length_map, hrange, List.map_append]
  simpa [hplace] using hall

/-- More than one chunk: the last record of the first chunk is that in front of the buffer. -/
theorem not_returns_backwards (h : Fits version limit slots.length) (hlimit : 0 < limit)
    (hmore : limit < slots.length)
    (hdiff : (slots.map (IndexSlot.asRead version)).getD (slots.length - limit) zeroSlot ≠
      (slots.map (IndexSlot.asRead version)).getD
        ((slots.length - limit - min limit (slots.length - limit)) % 2 ^ 32) zeroSlot) :
    ¬ Returns version limit slots true (slots.map (IndexSlot.asRead version)).reverse := by
  intro hreturns
  have hcount : min limit slots.length = limit := Nat.min_eq_left hmore.le
  obtain ⟨it, -, hlast⟩ := next_backwards_last h hlimit (hlimit.trans hmore)
  have hemits := (emits_backwards h (m := min limit slots.length - 1) (by omega)).concat hlast
  obtain ⟨rest, hrest, -⟩ := hreturns.of_emits hemits
  have hplace : (slots.map (IndexSlot.asRead version)).reverse[limit - 1]? =
      some ((slots.map (IndexSlot.asRead version)).getD (slots.length - limit) zeroSlot) := by
    rw [List.getElem?_reverse (by rw [List.length_map]; omega), List.length_map,
      show slots.length - 1 - (limit - 1) = slots.length - limit by omega]
    exact getElem?_eq_getD (by rw [List.length_map]; omega)
  rw [hrest, hcount] at hplace
  refine hdiff (Option.some.inj (hplace.symm.trans ?_))
  rw [List.getElem?_append_left (by simp), List.getElem?_append_right (by simp)]
  simp

/-! ### Chunks that cannot be read -/

/-- The buffer of a new iterator. -/
def firstBuffer (version limit : Nat) (block : Bytes) (reverse : Bool) (records : Nat) :
    List IndexSlot :=
  readIndexBlockInto version block (resize [] (min limit records))
    (if reverse then records - min limit records else 0) (min limit records)

theorem resize_nil (count : Nat) : resize [] count = List.replicate count zeroSlot := by
  simp [resize]

theorem length_firstBuffer (version limit : Nat) (block : Bytes) (reverse : Bool) (records : Nat) :
    (firstBuffer version limit block reverse records).length = min limit records := by
  rw [firstBuffer, length_readIndexBlockInto, length_resize]

theorem firstBuffer_last {records : Nat} (h : ¬ Fits version limit records)
    (hpos : 0 < min limit records) (block : Bytes) (reverse : Bool) :
    (firstBuffer version limit block reverse records)[min limit records - 1]? = some zeroSlot := by
  rw [firstBuffer, resize_nil]
  refine readIndexBlockInto_of_not_fits ?_ hpos block
  by_contra hneither
  rw [not_or, Nat.not_lt, Nat.not_le] at hneither
  exact h ⟨hneither.1, hneither.2⟩

theorem new_eq (version limit : Nat) (block : Bytes) (reverse : Bool) (records : Nat) :
    new version limit block reverse records =
      ⟨records, if reverse then records else 0, firstBuffer version limit block reverse records,
        if reverse then min limit records else 0⟩ := by
  cases reverse <;> rfl

theorem emits_firstBuffer (version limit : Nat) (block : Bytes) (records : Nat) :
    Emits (next version limit block false) (new version limit block false records)
      (firstBuffer version limit block false records)
      ⟨records - min limit records, min limit records,
        firstBuffer version limit block false records, min limit records⟩ := by
  have hlength := length_firstBuffer version limit block false records
  let state (k : Nat) : IndexBlockIterator :=
    ⟨records - k, k, firstBuffer version limit block false records, k⟩
  have hstep : ∀ k < min limit records, next version limit block false (state k) =
      some (some ((firstBuffer version limit block false records).getD k zeroSlot,
        state (k + 1))) := by
    intro k hk
    have hrest : records - k ≠ 0 := by omega
    have hindex : k ≠ (firstBuffer version limit block false records).length := by omega
    simp only [next, state, if_neg hrest, if_neg hindex, Bool.false_eq_true, if_false,
      getElem?_eq_getD (hlength ▸ hk), Option.map_some, Nat.sub_sub]
  have hemits := emits_range hstep
  have hbuffer : (List.range (min limit records)).map (fun k =>
      (firstBuffer version limit block false records).getD k zeroSlot) =
        firstBuffer version limit block false records := by
    refine List.ext_getElem (by simp [hlength]) fun k hk hk' => ?_
    simp [List.getD_eq_getElem?_getD, List.getElem?_eq_getElem hk']
  rw [hbuffer] at hemits
  rw [new_eq]
  exact hemits

theorem next_backwards_unread {records : Nat} (h : ¬ Fits version limit records)
    (hpos : 0 < min limit records) (block : Bytes) :
    ∃ it, next version limit block true (new version limit block true records) =
      some (some (zeroSlot, it)) := by
  have hlast := firstBuffer_last h hpos block true
  have hrest : (new version limit block true records).restCount ≠ 0 := by
    rw [new_eq]
    exact (hpos.trans_le (Nat.min_le_right _ _)).ne'
  by_cases hone : min limit records = 1
  · have hversion : supportedVersion < version := by
      by_contra hknown
      refine h ⟨Nat.le_of_not_lt hknown, ?_⟩
      rw [hone, Nat.mul_one]
      unfold sizeofIndex sizeofIndexRecordV0 sizeofIndexRecord
      split <;> decide
    have hunread : ∀ (buffer : List IndexSlot) (start count : Nat),
        readIndexBlockInto version block buffer start count = buffer := by
      intro buffer start count
      unfold readIndexBlockInto supportedVersion at *
      rw [if_neg (by omega), if_neg (by omega)]
    have hfirst : firstBuffer version limit block true records = [zeroSlot] := by
      rw [firstBuffer, hunread, resize_nil, hone]
      rfl
    rw [next_reverse_first hrest (by rw [new_eq]; exact hone)]
    simp only [new_eq, hfirst, readIndexRecords, if_true, hunread]
    generalize min limit (records - 1) = count
    cases count <;> simp [resize]
  · obtain ⟨i, hi⟩ : ∃ i, min limit records = i + 2 := ⟨min limit records - 2, by omega⟩
    rw [next_reverse_inside hrest (by rw [new_eq]; exact hi)]
    have hplace : min limit records - 1 = i + 1 := by omega
    rw [hplace] at hlast
    simp only [new_eq, hlast, Option.map_some]
    exact ⟨_, rfl⟩

def oneSlot : IndexSlot := ⟨hashField [], 1, 0⟩

theorem asRead_zeroSlot (version : Nat) : IndexSlot.asRead version zeroSlot = zeroSlot := by
  simp [IndexSlot.asRead, zeroSlot]

theorem asRead_oneSlot_ne (version : Nat) : IndexSlot.asRead version oneSlot ≠ zeroSlot := by
  unfold IndexSlot.asRead
  split <;> simp [oneSlot, zeroSlot]

/-- Backwards the iterator does what the takeover's iterator over records does, as long as the
places fit into 32 bits. -/
theorem next_eq_takeover (h : Fits version limit slots.length) (hplaces : slots.length ≤ 2 ^ 32)
    {rest index : Nat} {buffer : List IndexSlot} (hpos : 0 < rest) (hrest : rest ≤ slots.length) :
    next version limit (slots.flatMap (·.encode version)) true ⟨rest, rest, buffer, index + 1⟩ =
      (ContainerFile.IndexBlockIterator.next limit (slots.map (IndexSlot.asRead version))
        ⟨rest, buffer, index + 1⟩).map fun (record, it) =>
          some (record, ⟨it.restCount, it.restCount, it.buffer, it.index⟩) := by
  cases index with
  | zero =>
      have hfilled := readIndexBlockInto_eq_chunk h (resize buffer (min limit (rest - 1)))
        (rest - 1 - min limit (rest - 1)) (length_resize _ _) (Nat.min_le_left _ _) (by omega)
      have hplace : (rest - 1 - min limit (rest - 1)) % 2 ^ 32 = rest - 1 - min limit (rest - 1) :=
        Nat.mod_eq_of_lt (by omega)
      rw [chunk, hplace] at hfilled
      rw [next_reverse_first hpos.ne' rfl]
      simp [readIndexRecords, hfilled, ContainerFile.IndexBlockIterator.next, hpos.ne',
        ContainerFile.IndexBlockIterator.readIndexRecords, List.head?_eq_getElem?,
        Function.comp_def]
  | succ i =>
      rw [next_reverse_inside hpos.ne' rfl]
      simp [ContainerFile.IndexBlockIterator.next, hpos.ne', Function.comp_def]

/-! ### All index records -/

/-- The records in the order of the file, or in the opposite one. -/
def inOrder (version : Nat) (slots : List IndexSlot) (reverse : Bool) : List IndexSlot :=
  if reverse then (slots.map (IndexSlot.asRead version)).reverse
  else slots.map (IndexSlot.asRead version)

/-- From every file with this many index records the iterator returns all of them, each once and in
order, and then `NULL`. -/
def ReturnsAll (version limit records : Nat) (reverse : Bool) : Prop :=
  ∀ slots : List IndexSlot, slots.length = records →
    Returns version limit slots reverse (inOrder version slots reverse)

/-- Forwards all chunks can be read and start below 2 ^ 32; backwards there is one chunk only. -/
def Covers (version limit records : Nat) (reverse : Bool) : Prop :=
  records = 0 ∨ Fits version limit records ∧
    if reverse then records ≤ limit else 0 < limit ∧ (records - 1) / limit * limit < 2 ^ 32

/-- Files whose records are the same but for one that is read from another place. -/
theorem exists_slots_ne (version : Nat) {records place read : Nat} (hplace : place < records)
    (hread : read < place) :
    ∃ slots : List IndexSlot, slots.length = records ∧
      (slots.map (IndexSlot.asRead version)).getD place zeroSlot ≠
        (slots.map (IndexSlot.asRead version)).getD read zeroSlot := by
  refine ⟨(List.replicate records zeroSlot).set place oneSlot, by simp, ?_⟩
  have hne : place ≠ read := hread.ne'
  have hlt : read < records := hread.trans hplace
  simpa [List.getD_eq_getElem?_getD, List.getElem?_set, hplace, hne, hlt, asRead_zeroSlot] using
    asRead_oneSlot_ne version

theorem not_returnsAll_of_not_fits {records : Nat} (h : ¬ Fits version limit records)
    (hpos : 0 < min limit records) (reverse : Bool) :
    ¬ ReturnsAll version limit records reverse := by
  intro hall
  have hrecords : 0 < records := hpos.trans_le (Nat.min_le_right _ _)
  have hones : (List.replicate records oneSlot).length = records := List.length_replicate
  have hreturns := hall (List.replicate records oneSlot) hones
  unfold Returns inOrder at hreturns
  rw [hones, List.map_replicate] at hreturns
  cases reverse with
  | false =>
      obtain ⟨rest, hrest, -⟩ := hreturns.of_emits (emits_firstBuffer _ _ _ _)
      have hlast := congrArg (fun l : List IndexSlot => l[min limit records - 1]?) hrest
      rw [List.getElem?_append_left (by rw [length_firstBuffer]; omega), firstBuffer_last h hpos,
        if_neg (by simp), List.getElem?_replicate, if_pos (by omega)] at hlast
      exact asRead_oneSlot_ne version (Option.some.inj hlast)
  | true =>
      obtain ⟨it, hfirst⟩ := next_backwards_unread h hpos _
      obtain ⟨rest, hrest, -⟩ := hreturns.of_emits (.cons hfirst (.nil it))
      have hhead := congrArg List.head? hrest
      rw [if_pos rfl, List.reverse_replicate, List.head?_replicate, if_neg hrecords.ne'] at hhead
      exact asRead_oneSlot_ne version (Option.some.inj hhead)

theorem not_returnsAll_of_no_room {records : Nat} (hpos : 0 < records) (reverse : Bool) :
    ¬ ReturnsAll version 0 records reverse := by
  intro hall
  have hdefined := (hall (List.replicate records zeroSlot) List.length_replicate).next_ne_none
  have hempty : ∀ (block : Bytes) (start : Nat),
      readIndexBlockInto version block [] start 0 = [] := fun block start =>
    List.length_eq_zero_iff.mp (length_readIndexBlockInto version block [] start 0)
  refine hdefined ?_
  rw [new_eq, List.length_replicate]
  cases reverse <;>
    simp [next, hpos.ne', firstBuffer, resize, readIndexRecords, hempty]

theorem returnsAll_of_fits {records : Nat} (h : Fits version limit records)
    (hlimit : 0 < limit) (hstart : (records - 1) / limit * limit < 2 ^ 32) :
    ReturnsAll version limit records false := by
  rintro slots rfl
  have hreturns := returns_forwards h hlimit
  have hrecords : (List.range slots.length).map (fun k =>
      (slots.map (IndexSlot.asRead version)).getD (forwardPlace limit k) zeroSlot) =
        slots.map (IndexSlot.asRead version) := by
    refine List.ext_getElem (by simp) fun k hk hk' => ?_
    have hlt : k < slots.length := by simpa using hk
    have hbefore : k / limit * limit < 2 ^ 32 :=
      (Nat.mul_le_mul_right _ (Nat.div_le_div_right (by omega))).trans_lt hstart
    simp [forwardPlace_eq hbefore, List.getD_eq_getElem?_getD, hlt]
  rwa [hrecords] at hreturns

theorem not_returnsAll_of_far {records : Nat} (h : Fits version limit records)
    (hlimit : 0 < limit) (hpos : 0 < records)
    (hstart : 2 ^ 32 ≤ (records - 1) / limit * limit) :
    ¬ ReturnsAll version limit records false := by
  intro hall
  let start := (records - 1) / limit * limit
  have hlt : start < records := by
    have hle : start ≤ records - 1 := Nat.div_mul_le_self _ _
    omega
  have hplace : forwardPlace limit start < start := by
    have hself : start / limit * limit = start := by
      rw [Nat.mul_div_cancel _ hlimit]
    have hmod : start % limit = 0 := Nat.mul_mod_left _ _
    rw [forwardPlace, hself, hmod, Nat.add_zero]
    exact (Nat.mod_lt _ (Nat.two_pow_pos 32)).trans_le hstart
  obtain ⟨slots, rfl, hne⟩ := exists_slots_ne version hlt hplace
  obtain ⟨_, hemits, -⟩ := returns_forwards h hlimit
  obtain ⟨rest, hrest, -⟩ := (hall slots rfl).of_emits hemits
  have hget := congrArg (fun l : List IndexSlot => l[start]?) hrest
  rw [List.getElem?_append_left (by simpa using hlt), List.getElem?_map,
    List.getElem?_range hlt, Option.map_some, inOrder, if_neg (by simp),
    getElem?_eq_getD (by simpa using hlt)] at hget
  exact hne (Option.some.inj hget)

theorem not_returnsAll_of_chunks {records : Nat} (h : Fits version limit records)
    (hlimit : 0 < limit) (hmore : limit < records) :
    ¬ ReturnsAll version limit records true := by
  intro hall
  have hmod := Nat.mod_le (records - limit - min limit (records - limit)) (2 ^ 32)
  have hplace : records - limit < records := by omega
  have hread : (records - limit - min limit (records - limit)) % 2 ^ 32 < records - limit := by
    omega
  obtain ⟨slots, rfl, hne⟩ := exists_slots_ne version hplace hread
  exact not_returns_backwards h hlimit hmore hne (hall slots rfl)

/-- All index records come in order and once from every file, and nothing is read outside of the
buffer, exactly when the chunks are read as they are asked for and, backwards, there is only one. -/
theorem index_iterator_returns_all_iff (version limit records : Nat) (reverse : Bool) :
    ReturnsAll version limit records reverse ↔ Covers version limit records reverse := by
  unfold Covers
  rcases Nat.eq_zero_or_pos records with rfl | hpos
  · refine iff_of_true (fun slots hslots => ?_) (.inl rfl)
    obtain rfl := List.length_eq_zero_iff.mp hslots
    have hempty : inOrder version [] reverse = [] := by cases reverse <;> rfl
    rw [hempty]
    exact ⟨_, .nil _, by simp [next, new_eq]⟩
  rcases Nat.eq_zero_or_pos limit with rfl | hlimit
  · refine iff_of_false (not_returnsAll_of_no_room hpos reverse) ?_
    cases reverse <;> simp [hpos.ne']
  by_cases hfits : Fits version limit records
  · cases reverse with
    | false =>
        by_cases hstart : (records - 1) / limit * limit < 2 ^ 32
        · exact iff_of_true (returnsAll_of_fits hfits hlimit hstart)
            (.inr ⟨hfits, by simpa using ⟨hlimit, hstart⟩⟩)
        · refine iff_of_false
            (not_returnsAll_of_far hfits hlimit hpos (Nat.le_of_not_lt hstart)) ?_
          rintro (hzero | ⟨-, -, hnear⟩)
          · exact hpos.ne' hzero
          · exact hstart hnear
    | true =>
        by_cases hone : records ≤ limit
        · refine iff_of_true ?_ (.inr ⟨hfits, by simpa using hone⟩)
          rintro slots rfl
          exact returns_backwards hfits hone hpos
        · refine iff_of_false (not_returnsAll_of_chunks hfits hlimit (Nat.lt_of_not_le hone)) ?_
          simp [hpos.ne', hone]
  · refine iff_of_false (not_returnsAll_of_not_fits hfits (by omega) reverse) ?_
    simp [hpos.ne', hfits]

/-- A file with one index record more than a chunk. Backwards the second record is missing and the
first one comes twice. -/
theorem backwards_skips_second :
    ¬ Returns supportedVersion ContainerFile.maxReadIndexRecord
      (zeroSlot :: oneSlot :: List.replicate 99999 zeroSlot) true
      (inOrder supportedVersion (zeroSlot :: oneSlot :: List.replicate 99999 zeroSlot) true) := by
  have hlength : (zeroSlot :: oneSlot :: List.replicate 99999 zeroSlot).length = 100001 := by
    rw [List.length_cons, List.length_cons, List.length_replicate]
  have hfits : Fits supportedVersion ContainerFile.maxReadIndexRecord 100001 :=
    ⟨le_rfl, by decide⟩
  refine not_returns_backwards (hlength ▸ hfits) (by decide) (by rw [hlength]; decide) ?_
  rw [hlength]
  decide

end IndexBlockIterator

end ObjectStorage.InfoFile.IndexIteration
