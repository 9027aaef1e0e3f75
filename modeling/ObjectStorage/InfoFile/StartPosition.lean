import ObjectStorage.InfoFile.Regions
import ObjectStorage.InfoFile.SorterOrder

/-!
Where a listing starts to read the sorted records. Compaction writes every 5000th name into the
data index; a listing reads as many entries of it as there are intervals of unsorted records, and
skips an interval for every entry in front of the first one that is greater than the start pattern.
Names, markers and prefixes have no zero bytes, and counts, which have 32 bits in the source, are
unbounded.
-/

namespace ObjectStorage.InfoFile

open Std Library ObjectStorage.Journal Container.Statistics

/-! ### The data index -/

/-- `DataIndexRecord`. -/
def dataIndexRecord (name : String) : Bytes := (utf8 name).take sizeofDataIndexRecord

/-- The entries that compaction writes for the names, of which `count` have been written before. -/
def dataIndexRecords : Nat → List String → List Bytes
  | _, [] => []
  | count, name :: names =>
      if (count + 1) % dataIndexInterval = 0 then
        dataIndexRecord name :: dataIndexRecords (count + 1) names
      else dataIndexRecords (count + 1) names

theorem getElem?_dataIndexRecords (count : Nat) (names : List String) (j : Nat) :
    (dataIndexRecords count names)[j]? =
      names[(count / dataIndexInterval + j + 1) * dataIndexInterval - 1 - count]?.map
        dataIndexRecord := by
  unfold dataIndexInterval
  induction names generalizing count j with
  | nil => rfl
  | cons name names ih =>
      unfold dataIndexRecords dataIndexInterval
      split
      next hlast =>
        cases j with
        | zero =>
            have hzero : (count / 5000 + 0 + 1) * 5000 - 1 - count = 0 := by omega
            rw [hzero]
            rfl
        | succ j =>
            have hsucc : (count / 5000 + (j + 1) + 1) * 5000 - 1 - count =
                ((count + 1) / 5000 + j + 1) * 5000 - 1 - (count + 1) + 1 := by omega
            rw [hsucc, List.getElem?_cons_succ, List.getElem?_cons_succ, ih]
      next hnot =>
        have hsucc : (count / 5000 + j + 1) * 5000 - 1 - count =
            ((count + 1) / 5000 + j + 1) * 5000 - 1 - (count + 1) + 1 := by omega
        rw [hsucc, List.getElem?_cons_succ, ih]

namespace ContainerFile

def sortedNames (file : ContainerFile) : List String :=
  (file.data.take file.trailer.sortedRecord).map (·.name)

/-- What the data index holds since the last compaction, which alone writes sorted records. -/
def dataIndex (file : ContainerFile) : List Bytes := dataIndexRecords 0 file.sortedNames

/-- Where nothing was written there are zeros, and so an empty name. -/
def readDataIndexBlock (file : ContainerFile) : List Bytes :=
  (List.range (file.trailer.unsortedRecord / dataIndexInterval)).map fun j =>
    file.dataIndex[j]?.getD []

/-! ### The iterator -/

/-- The pattern of a listing: the greater one of marker and prefix. -/
def startPattern (marker namePrefix : Bytes) : Bytes :=
  if namePrefix < marker then marker else namePrefix

/-- The start pattern is not less than the name of the entry. -/
def NotBehind (pattern entry : Bytes) : Prop := ¬ pattern.take 1024 < entry

instance (pattern entry : Bytes) : Decidable (NotBehind pattern entry) :=
  inferInstanceAs (Decidable (¬ _))

/-- How many records `SortedContainerInfoIterator` skips. -/
def skippedRecords (file : ContainerFile) (pattern : Bytes) : Nat :=
  if file.trailer.sortedRecord = 0 ∨ pattern = [] then 0
  else dataIndexInterval * (file.readDataIndexBlock.takeWhile (NotBehind pattern)).length

/-- The places of the records that the iterator yields. -/
def yielded (file : ContainerFile) (pattern : Bytes) : List Nat :=
  List.range' (file.skippedRecords pattern)
    (file.trailer.sortedRecord - file.skippedRecords pattern)

/-- A listing of all records would return the name. -/
def Returned (marker namePrefix : Bytes) (name : String) : Prop :=
  if marker < namePrefix then namePrefix <+: utf8 name else marker < utf8 name

/-- No more records are skipped than there are, and none that is returned. -/
def SkipsWithin (file : ContainerFile) (marker namePrefix : Bytes) : Prop :=
  file.skippedRecords (startPattern marker namePrefix) ≤ file.trailer.sortedRecord ∧
    ∀ i name, file.sortedNames[i]? = some name → Returned marker namePrefix name →
      i ∈ file.yielded (startPattern marker namePrefix)

/-! ### Sorted records are in order -/

variable {getHash : String → String} {file file' : ContainerFile}

structure Ordered (file : ContainerFile) : Prop where
  length : file.data.length = file.trailer.sortedRecord + file.trailer.unsortedRecord
  sorted : KeySorted DataRecord.name (file.data.take file.trailer.sortedRecord)

theorem Ordered.compaction (h : Ordered file) (numRecord : Nat) :
    Ordered (file.compaction getHash numRecord) := by
  let entries := file.data.zip file.readIndex
  have hfst : entries.map (·.1) = file.data :=
    List.map_fst_zip (by rw [h.length, length_readIndex])
  have hsorted : KeySorted (fun e : DataRecord × IndexSlot => e.1.name)
      (entries.take file.trailer.sortedRecord) := by
    have hdata := h.sorted
    rw [← hfst, ← List.map_take, keySorted_map] at hdata
    exact hdata
  have hrecords : KeySorted (fun e : DataRecord × IndexSlot => e.1.name)
      (InfoFileSorter.records (·.1.name) [entries.take file.trailer.sortedRecord,
        sortedMap (·.1.name) (entries.drop file.trailer.sortedRecord)]) := by
    refine InfoFileSorter.keySorted_sorted (fun it hit => ?_) _
    rcases List.mem_pair.mp hit with rfl | rfl
    · exact hsorted
    · exact keySorted_sortedMap _ _
  have hname : (fun e => (upgradeIndex getHash file.trailer.version e).1.name) =
      fun e : DataRecord × IndexSlot => e.1.name := by
    funext e
    unfold upgradeIndex
    split <;> rfl
  have hcompacted : KeySorted DataRecord.name ((file.compacted getHash).map (·.1)) := by
    rw [keySorted_map, compacted, keySorted_map, hname]
    exact hrecords.sublist List.filter_sublist
  refine ⟨by simp [ContainerFile.compaction, storeTrailer], ?_⟩
  exact hcompacted.sublist (List.take_sublist _ _)

theorem Ordered.append (h : Ordered file) (records : RecordList) :
    Ordered (file.append getHash records) := by
  refine ⟨?_, ?_⟩
  · simp [ContainerFile.append, storeTrailer, h.length]
    omega
  · have htake : (file.append getHash records).data.take file.trailer.sortedRecord =
        file.data.take file.trailer.sortedRecord := by
      refine List.take_append_of_le_length ?_
      have hlength := h.length
      omega
    exact htake ▸ h.sorted

theorem Ordered.flushContainer (h : Ordered file) (nodeId : Nat) (unknownStatus : Bool)
    (records : RecordList) :
    Ordered (file.flushContainer getHash nodeId unknownStatus records) := by
  have hprepared : Ordered (file.prepareFlush getHash records.length) := by
    unfold prepareFlush
    split
    · exact h.compaction _
    · exact h
  unfold ContainerFile.flushContainer
  simp only
  split
  · split
    · exact hprepared.compaction 0
    · exact hprepared
  · split
    · exact (hprepared.append _).compaction 0
    · exact hprepared.append _

theorem Ordered.step (operation : Operation) (h : Ordered file)
    (hstep : file.step getHash operation = some file') : Ordered file' := by
  cases operation with
  | flushContainer nodeId unknownStatus records =>
      obtain rfl := Option.some.inj hstep
      exact h.flushContainer nodeId unknownStatus records
  | compaction numRecord =>
      obtain rfl := Option.some.inj hstep
      exact h.compaction numRecord
  | setContainerStat new =>
      simp only [ContainerFile.step, setContainerStat] at hstep
      split at hstep
      · obtain rfl := Option.some.inj hstep
        exact ⟨h.length, h.sorted⟩
      · cases hstep

theorem ordered_addContainer (metadata : Metadata) (offset : JournalOffset) :
    Ordered (addContainer metadata offset) := ⟨rfl, .nil⟩

/-! ### What is skipped -/

theorem getElem?_dataIndex (file : ContainerFile) (j : Nat) :
    file.dataIndex[j]? =
      file.sortedNames[(j + 1) * dataIndexInterval - 1]?.map dataIndexRecord := by
  rw [dataIndex, getElem?_dataIndexRecords, Nat.zero_div, Nat.zero_add, Nat.sub_zero]

theorem Ordered.length_sortedNames (h : Ordered file) :
    file.sortedNames.length = file.trailer.sortedRecord := by
  rw [sortedNames, List.length_map, List.length_take, h.length]
  omega

theorem Ordered.sortKey_le (h : Ordered file) {i i' : Nat} (hle : i ≤ i') {name name' : String}
    (hi : file.sortedNames[i]? = some name) (hi' : file.sortedNames[i']? = some name') :
    sortKey name ≤ sortKey name' := by
  have hpairwise : file.sortedNames.Pairwise fun n n' => sortKey n ≤ sortKey n' :=
    keySorted_map.mpr h.sorted
  rcases Nat.eq_or_lt_of_le hle with rfl | hlt
  · rw [Option.some.inj (hi.symm.trans hi')]
    exact List.le_refl _
  · obtain ⟨hin, rfl⟩ := List.getElem?_eq_some_iff.mp hi
    obtain ⟨hin', rfl⟩ := List.getElem?_eq_some_iff.mp hi'
    exact List.pairwise_iff_getElem.mp hpairwise i i' hin hin' hlt

theorem getElem?_readDataIndexBlock (file : ContainerFile) (j : Nat) :
    file.readDataIndexBlock[j]? =
      if j < file.trailer.unsortedRecord / dataIndexInterval then
        some (file.dataIndex[j]?.getD [])
      else none := by
  rw [readDataIndexBlock, List.getElem?_map]
  split
  next hlt => rw [List.getElem?_range hlt, Option.map_some]
  next hnot => rw [List.getElem?_eq_none (by simpa using hnot), Option.map_none]

/-- The interval of a record is skipped if and only if all entries up to its own are read and not
behind the pattern. -/
theorem lt_length_takeWhile {α : Type} {p : α → Bool} {l : List α} {n : Nat} :
    n < (l.takeWhile p).length ↔ ∀ j ≤ n, ∃ a, l[j]? = some a ∧ p a := by
  induction l generalizing n with
  | nil => simpa using ⟨n, Nat.le_refl n⟩
  | cons a l ih =>
      by_cases ha : p a
      · rw [List.takeWhile_cons_of_pos ha, List.length_cons]
        cases n with
        | zero =>
            refine ⟨fun _ j hj => ?_, fun _ => Nat.succ_pos _⟩
            obtain rfl := Nat.le_zero.mp hj
            exact ⟨a, rfl, ha⟩
        | succ n =>
            rw [Nat.succ_lt_succ_iff, ih]
            constructor
            · intro h j hj
              cases j with
              | zero => exact ⟨a, rfl, ha⟩
              | succ j => exact h j (Nat.le_of_succ_le_succ hj)
            · intro h j hj
              exact h (j + 1) (Nat.succ_le_succ hj)
      · rw [List.takeWhile_cons_of_neg ha]
        refine ⟨fun h => absurd h (Nat.not_lt_zero _), fun h => ?_⟩
        obtain ⟨b, hb, hp⟩ := h 0 (Nat.zero_le _)
        obtain rfl := Option.some.inj hb
        exact absurd hp ha

/-- The record's interval and all in front of it are skipped for the pattern. -/
def Passed (file : ContainerFile) (pattern : Bytes) (i : Nat) : Prop :=
  ∀ j ≤ i / dataIndexInterval, ∃ entry, file.readDataIndexBlock[j]? = some entry ∧
    NotBehind pattern entry

theorem lt_skippedRecords {pattern : Bytes} (hsorted : file.trailer.sortedRecord ≠ 0)
    (hpattern : pattern ≠ []) (i : Nat) :
    i < file.skippedRecords pattern ↔ file.Passed pattern i := by
  have hpassed := lt_length_takeWhile (p := fun entry => decide (NotBehind pattern entry))
    (l := file.readDataIndexBlock) (n := i / dataIndexInterval)
  simp only [decide_eq_true_eq] at hpassed
  rw [Passed, ← hpassed, skippedRecords, if_neg (by simp [hsorted, hpattern])]
  unfold dataIndexInterval
  omega

/-! ### When no record is lost -/

/-- No more entries are read than were written, unless one of those that were written stops the
search. -/
def IndexStops (file : ContainerFile) (pattern : Bytes) : Prop :=
  file.trailer.sortedRecord = 0 ∨ pattern = [] ∨
    file.trailer.unsortedRecord / dataIndexInterval ≤
      file.trailer.sortedRecord / dataIndexInterval ∨
    ∃ entry ∈ file.dataIndex, ¬ NotBehind pattern entry

/-- No interval is passed with a record that is returned and whose name starts like the pattern. -/
def NoneHidden (file : ContainerFile) (marker namePrefix : Bytes) : Prop :=
  ∀ i name, file.sortedNames[i]? = some name → Returned marker namePrefix name →
    sortKey name = (startPattern marker namePrefix).take 256 →
      ¬ file.Passed (startPattern marker namePrefix) i

theorem Ordered.getElem?_dataIndex_isSome (h : Ordered file) (j : Nat) :
    (file.dataIndex[j]?).isSome ↔ j < file.trailer.sortedRecord / dataIndexInterval := by
  rw [getElem?_dataIndex, Option.isSome_map, isSome_getElem?, h.length_sortedNames]
  unfold dataIndexInterval
  omega

theorem startPattern_le {marker namePrefix : Bytes} {name : String}
    (h : Returned marker namePrefix name) : startPattern marker namePrefix ≤ utf8 name := by
  unfold Returned at h
  unfold startPattern
  split at h
  next hless =>
    rw [if_neg fun hgreater => List.lt_irrefl _ (List.lt_trans hless hgreater)]
    obtain ⟨rest, hrest⟩ := h
    rw [← hrest]
    exact List.le_append_left
  next hnot =>
    split
    next => exact List.le_of_lt h
    next hnot' =>
      rw [List.le_antisymm (List.not_lt.mp hnot) (List.not_lt.mp hnot')]
      exact List.le_of_lt h

theorem take_dataIndexRecord (name : String) : (dataIndexRecord name).take 256 = sortKey name := by
  rw [dataIndexRecord, List.take_take]
  rfl

theorem Ordered.sortKey_le_entry (h : Ordered file) {i : Nat} {name : String}
    (hi : file.sortedNames[i]? = some name) {entry : Bytes}
    (hentry : file.dataIndex[i / dataIndexInterval]? = some entry) :
    sortKey name ≤ entry.take 256 := by
  rw [getElem?_dataIndex] at hentry
  obtain ⟨name', hi', rfl⟩ := Option.map_eq_some_iff.mp hentry
  rw [take_dataIndexRecord]
  refine h.sortKey_le ?_ hi hi'
  unfold dataIndexInterval
  omega

theorem NotBehind.take_le {pattern entry : Bytes} (h : NotBehind pattern entry) :
    entry.take 256 ≤ pattern.take 256 := by
  have hcut := take_le_take (List.not_lt.mp h) 256
  rwa [List.take_take] at hcut

theorem Ordered.sortKey_eq_of_notBehind (h : Ordered file) {marker namePrefix : Bytes} {i : Nat}
    {name : String} (hi : file.sortedNames[i]? = some name)
    (hreturned : Returned marker namePrefix name) {entry : Bytes}
    (hentry : file.dataIndex[i / dataIndexInterval]? = some entry)
    (hnot : NotBehind (startPattern marker namePrefix) entry) :
    sortKey name = (startPattern marker namePrefix).take 256 :=
  List.le_antisymm (List.le_trans (h.sortKey_le_entry hi hentry) hnot.take_le)
    (take_le_take (startPattern_le hreturned) 256)

theorem not_empty_key {marker namePrefix : Bytes} {name : String}
    (hpattern : startPattern marker namePrefix = []) (hreturned : Returned marker namePrefix name) :
    sortKey name ≠ [] := by
  intro hkey
  have hname : utf8 name = [] := by
    rcases List.take_eq_nil_iff.mp hkey with hfalse | hnil
    · exact absurd hfalse (by decide)
    · exact hnil
  unfold Returned at hreturned
  unfold startPattern at hpattern
  split at hreturned
  next hless =>
    split at hpattern
    next hgreater => exact List.lt_irrefl _ (List.lt_trans hless hgreater)
    next => exact List.not_lt_nil _ (hpattern ▸ hless)
  next => exact List.not_lt_nil _ (hname ▸ hreturned)

theorem readDataIndexBlock_eq_some {j : Nat} {entry : Bytes} :
    file.readDataIndexBlock[j]? = some entry ↔
      j < file.trailer.unsortedRecord / dataIndexInterval ∧ file.dataIndex[j]?.getD [] = entry := by
  rw [getElem?_readDataIndexBlock]
  split
  next hlt => simp [hlt]
  next hnot => simp [hnot]

/-- The search goes over the end of the entries if and only if nothing stops it. -/
theorem Ordered.passed_sortedRecord (h : Ordered file) {pattern : Bytes}
    (hsorted : file.trailer.sortedRecord ≠ 0) (hpattern : pattern ≠ []) :
    file.Passed pattern file.trailer.sortedRecord ↔ ¬ IndexStops file pattern := by
  constructor
  · rintro hpassed (hzero | hnil | hcount | ⟨entry, hentry, hbehind⟩)
    · exact hsorted hzero
    · exact hpattern hnil
    · obtain ⟨entry, hread, -⟩ := hpassed _ (Nat.le_refl _)
      have hlt := (readDataIndexBlock_eq_some.mp hread).1
      omega
    · obtain ⟨j, hj⟩ := List.getElem?_of_mem hentry
      have hlt := (h.getElem?_dataIndex_isSome j).mp (hj.symm ▸ rfl)
      obtain ⟨entry', hread, hnot⟩ := hpassed j (Nat.le_of_lt hlt)
      have hsame := (readDataIndexBlock_eq_some.mp hread).2
      rw [hj, Option.getD_some] at hsame
      exact hbehind (hsame ▸ hnot)
  · intro hnone j hj
    simp only [IndexStops, not_or, not_exists, not_and, not_not] at hnone
    obtain ⟨-, -, hcount, hentries⟩ := hnone
    refine ⟨_, readDataIndexBlock_eq_some.mpr ⟨by omega, rfl⟩, ?_⟩
    cases hget : file.dataIndex[j]? with
    | none => exact List.not_lt_nil _
    | some entry => exact hentries entry (List.mem_of_getElem? hget)

theorem Ordered.skipsWithin_iff (h : Ordered file) (marker namePrefix : Bytes) :
    SkipsWithin file marker namePrefix ↔
      IndexStops file (startPattern marker namePrefix) ∧ NoneHidden file marker namePrefix := by
  have hlength : ∀ {i name}, file.sortedNames[i]? = some name → i < file.trailer.sortedRecord :=
    fun hi => h.length_sortedNames ▸ (List.getElem?_eq_some_iff.mp hi).1
  by_cases htrivial : file.trailer.sortedRecord = 0 ∨ startPattern marker namePrefix = []
  · have hzero : file.skippedRecords (startPattern marker namePrefix) = 0 := if_pos htrivial
    refine iff_of_true ⟨hzero.symm ▸ Nat.zero_le _, fun i name hi _ => ?_⟩
      ⟨htrivial.elim .inl fun hpattern => .inr (.inl hpattern), fun i name hi hreturned hkey => ?_⟩
    · have hlt := hlength hi
      rw [yielded, List.mem_range'_1, hzero]
      omega
    · have hlt := hlength hi
      have hpattern : startPattern marker namePrefix = [] := htrivial.resolve_left (by omega)
      exact absurd (hkey.trans (by rw [hpattern, List.take_nil])) (not_empty_key hpattern hreturned)
  · obtain ⟨hsorted, hpattern⟩ := not_or.mp htrivial
    have hskip : ∀ i, i < file.skippedRecords (startPattern marker namePrefix) ↔
        file.Passed (startPattern marker namePrefix) i := lt_skippedRecords hsorted hpattern
    have hstops : file.skippedRecords (startPattern marker namePrefix) ≤
        file.trailer.sortedRecord ↔ IndexStops file (startPattern marker namePrefix) := by
      rw [← Nat.not_lt, hskip, h.passed_sortedRecord hsorted hpattern, not_not]
    refine (and_congr_left' hstops).trans (and_congr_right fun hindex => ?_)
    constructor
    · intro hyielded i name hi hreturned _
      have hmem := hyielded i name hi hreturned
      rw [yielded, List.mem_range'_1] at hmem
      rw [← hskip]
      omega
    · intro hhidden i name hi hreturned
      have hlt := hlength hi
      have hle := hstops.mpr hindex
      have hnot : ¬ file.Passed (startPattern marker namePrefix) i := by
        intro hpassed
        -- the whole interval of the record is skipped, so its entry was written
        have hend : i / dataIndexInterval * dataIndexInterval + (dataIndexInterval - 1) <
            file.skippedRecords (startPattern marker namePrefix) := by
          rw [hskip, Passed]
          have hquotient : (i / dataIndexInterval * dataIndexInterval + (dataIndexInterval - 1)) /
              dataIndexInterval = i / dataIndexInterval := by
            unfold dataIndexInterval
            omega
          rw [hquotient]
          exact hpassed
        have hwritten : i / dataIndexInterval < file.trailer.sortedRecord / dataIndexInterval := by
          unfold dataIndexInterval at hend ⊢
          omega
        obtain ⟨entry, hentry⟩ :=
          Option.isSome_iff_exists.mp ((h.getElem?_dataIndex_isSome _).mpr hwritten)
        obtain ⟨entry', hread, hbehind⟩ := hpassed _ (Nat.le_refl _)
        have hsame := (readDataIndexBlock_eq_some.mp hread).2
        rw [hentry, Option.getD_some] at hsame
        subst hsame
        exact hhidden i name hi hreturned
          (h.sortKey_eq_of_notBehind hi hreturned hentry hbehind) hpassed
      rw [← hskip] at hnot
      rw [yielded, List.mem_range'_1]
      omega

/-! ### Short patterns -/

/-- The listing starts at its prefix, and that is the name of an entry that is read. -/
def PrefixIndexed (file : ContainerFile) (marker namePrefix : Bytes) : Prop :=
  marker < namePrefix ∧ ∃ j < file.trailer.unsortedRecord / dataIndexInterval,
    file.dataIndex[j]? = some namePrefix

theorem eq_of_take_eq {bs pattern : Bytes} (hshort : pattern.length < 256)
    (h : bs.take 256 = pattern.take 256) : bs = pattern := by
  rw [List.take_of_length_le hshort.le] at h
  have hlength := congrArg List.length h
  rw [List.length_take] at hlength
  rw [← h, List.take_of_length_le (by omega)]

theorem Ordered.notBehind_of_le (h : Ordered file) {pattern : Bytes} (hshort : pattern.length < 256)
    {j j' : Nat} (hle : j' ≤ j) (hj : file.dataIndex[j]? = some pattern) {entry : Bytes}
    (hj' : file.dataIndex[j']? = some entry) : NotBehind pattern entry := by
  intro hbehind
  rw [getElem?_dataIndex] at hj hj'
  obtain ⟨name, hname, hpattern⟩ := Option.map_eq_some_iff.mp hj
  obtain ⟨name', hname', rfl⟩ := Option.map_eq_some_iff.mp hj'
  have hplaces : (j' + 1) * dataIndexInterval - 1 ≤ (j + 1) * dataIndexInterval - 1 := by
    unfold dataIndexInterval
    omega
  have hkeys : sortKey name' ≤ sortKey name := h.sortKey_le hplaces hname' hname
  rw [List.take_of_length_le (by omega)] at hbehind
  have hle : (dataIndexRecord name').take 256 ≤ pattern.take 256 := by
    rw [take_dataIndexRecord, ← hpattern, take_dataIndexRecord]
    exact hkeys
  have hge := take_le_take (List.le_of_lt hbehind) 256
  have heq : dataIndexRecord name' = pattern := eq_of_take_eq hshort (List.le_antisymm hle hge)
  exact List.lt_irrefl _ (heq ▸ hbehind)

theorem Ordered.noneHidden_iff (h : Ordered file) {marker namePrefix : Bytes}
    (hindex : IndexStops file (startPattern marker namePrefix))
    (hshort : (startPattern marker namePrefix).length < 256) :
    NoneHidden file marker namePrefix ↔ ¬ PrefixIndexed file marker namePrefix := by
  constructor
  · rintro hnone ⟨hless, j, hread, hj⟩
    have hpattern : startPattern marker namePrefix = namePrefix :=
      if_neg fun hgreater => List.lt_irrefl _ (List.lt_trans hless hgreater)
    rw [hpattern] at hshort
    obtain ⟨name, hname, hcut⟩ :=
      Option.map_eq_some_iff.mp ((getElem?_dataIndex file j).symm.trans hj)
    have hbytes : utf8 name = namePrefix := by
      refine eq_of_take_eq hshort ?_
      rw [← hcut, take_dataIndexRecord]
      rfl
    have hreturned : Returned marker namePrefix name := by
      rw [Returned, if_pos hless, hbytes]
    refine hnone _ name hname hreturned ?_ fun j' hj' => ?_
    · rw [hpattern, ← hbytes]
      rfl
    · have hle : j' ≤ j := by
        unfold dataIndexInterval at hj'
        omega
      have hwritten : (file.dataIndex[j']?).isSome := by
        have hlast := (h.getElem?_dataIndex_isSome j).mp (hj.symm ▸ rfl)
        exact (h.getElem?_dataIndex_isSome j').mpr (by omega)
      obtain ⟨entry, hentry⟩ := Option.isSome_iff_exists.mp hwritten
      refine ⟨entry, readDataIndexBlock_eq_some.mpr ⟨by omega, by rw [hentry]; rfl⟩, ?_⟩
      rw [hpattern]
      exact h.notBehind_of_le hshort hle hj hentry
  · intro hnot i name hi hreturned hkey hpassed
    have hbytes : utf8 name = startPattern marker namePrefix := eq_of_take_eq hshort hkey
    have hless : marker < namePrefix := by
      by_contra hge
      unfold startPattern at hbytes
      rw [Returned, if_neg hge] at hreturned
      split at hbytes
      next => exact List.lt_irrefl _ (hbytes ▸ hreturned)
      next hle =>
        rw [hbytes] at hreturned
        exact hge hreturned
    have hpattern : startPattern marker namePrefix = namePrefix :=
      if_neg fun hgreater => List.lt_irrefl _ (List.lt_trans hless hgreater)
    have hsorted : file.trailer.sortedRecord ≠ 0 := by
      have hlt := (List.getElem?_eq_some_iff.mp hi).1
      rw [h.length_sortedNames] at hlt
      omega
    have hwritten : i / dataIndexInterval < file.trailer.sortedRecord / dataIndexInterval := by
      by_contra hend
      have hall : file.Passed (startPattern marker namePrefix) file.trailer.sortedRecord :=
        fun j hj => hpassed j (hj.trans (Nat.le_of_not_lt hend))
      have hne : startPattern marker namePrefix ≠ [] := by
        rw [hpattern]
        intro hnil
        exact List.not_lt_nil _ (hnil ▸ hless)
      exact (h.passed_sortedRecord hsorted hne).mp hall hindex
    obtain ⟨entry, hentry⟩ :=
      Option.isSome_iff_exists.mp ((h.getElem?_dataIndex_isSome _).mpr hwritten)
    obtain ⟨entry', hread, hbehind⟩ := hpassed _ (Nat.le_refl _)
    obtain ⟨hlt, hsame⟩ := readDataIndexBlock_eq_some.mp hread
    rw [hentry, Option.getD_some] at hsame
    subst hsame
    refine hnot ⟨hless, _, hlt, ?_⟩
    -- the entry lies between the record and the pattern, which are the same
    rw [hpattern] at hshort hbytes hbehind
    have hge : namePrefix.take 256 ≤ entry.take 256 := by
      rw [← hbytes]
      exact h.sortKey_le_entry hi hentry
    rw [hentry, eq_of_take_eq hshort (List.le_antisymm hbehind.take_le hge)]

/-! ### Many records -/

theorem exists_of_mem_compacted {e : DataRecord × IndexSlot} (h : e ∈ file.compacted getHash) :
    ∃ r ∈ file.data, r.name = e.1.name := by
  obtain ⟨e', hin, rfl⟩ := List.mem_map.mp h
  obtain ⟨it, hit, hmem⟩ := InfoFileSorter.mem_of_mem_sorted (List.mem_of_mem_filter hin)
  have hentry : e' ∈ file.data.zip file.readIndex := by
    rcases List.mem_pair.mp hit with rfl | rfl
    · exact List.mem_of_mem_take hmem
    · exact List.mem_of_mem_drop (List.mem_reverse.mp
        (List.mem_of_find?_eq_some (mem_sortedMap.mp hmem)))
  refine ⟨e'.1, (List.of_mem_zip hentry).1, ?_⟩
  unfold upgradeIndex
  split <;> rfl

/-- A file with unsorted records only keeps them all in a compaction if none is deleted and no two
names start with the same bytes. -/
theorem length_le_compacted (hsorted : file.trailer.sortedRecord = 0)
    (hversion : file.trailer.version ≠ 0)
    (hlength : file.data.length = file.trailer.unsortedRecord)
    (hdistinct : (file.data.map fun r => sortKey r.name).Nodup)
    (hkept : ∀ r ∈ file.data, r.isDeleted = false) :
    file.data.length ≤ (file.compacted getHash).length := by
  let entryName := fun e : DataRecord × IndexSlot => e.1.name
  let entries := file.data.zip file.readIndex
  have hfst : entries.map (·.1) = file.data :=
    List.map_fst_zip (by rw [length_readIndex, hlength, hsorted, Nat.zero_add])
  have hkeys : (entries.map fun e => sortKey (entryName e)) =
      file.data.map fun r => sortKey r.name := by
    rw [← hfst, List.map_map]
    rfl
  have hiterators : ∀ it ∈ [[], sortedMap entryName entries], KeySorted entryName it := by
    intro it hit
    rcases List.mem_pair.mp hit with rfl | rfl
    · exact .nil
    · exact keySorted_sortedMap _ _
  have hsame : upgradeIndex getHash file.trailer.version = id := by
    funext e
    exact if_neg hversion
  have hcompacted : file.compacted getHash =
      (InfoFileSorter.records entryName [[], sortedMap entryName entries]).filter
        (! ·.1.isDeleted) := by
    rw [compacted, hsame, List.map_id, hsorted]
    rfl
  have hall : (entries.map fun e => sortKey (entryName e)) ⊆
      (file.compacted getHash).map fun e => sortKey (entryName e) := by
    intro key hkey
    obtain ⟨e, he, rfl⟩ := List.mem_map.mp hkey
    -- the last entry of the name is at least in the iterator of the unsorted records
    obtain ⟨e', he'⟩ : ∃ e', entries.reverse.find? (fun r => entryName r = entryName e) = some e' :=
      Option.isSome_iff_exists.mp
        (List.find?_isSome.mpr ⟨e, List.mem_reverse.mpr he, by simp⟩)
    have hname : entryName e' = entryName e := by simpa using List.find?_some he'
    have hin : e' ∈ sortedMap entryName entries := mem_sortedMap.mpr (hname.symm ▸ he')
    have hfind := InfoFileSorter.find_sorted hiterators (Nat.le_refl _) (sortKey (entryName e))
    obtain ⟨last, hlast⟩ : ∃ last, (sortedMap entryName entries).find?
        (fun r => sortKey (entryName r) = sortKey (entryName e)) = some last :=
      Option.isSome_iff_exists.mp (List.find?_isSome.mpr ⟨e', hin, by simp [hname]⟩)
    have hlatest : InfoFileSorter.latest entryName (sortKey (entryName e))
        [[], sortedMap entryName entries] = some last := by
      simp [InfoFileSorter.latest, hlast]
    rw [hlatest] at hfind
    have hmem : last ∈ entries :=
      List.mem_reverse.mp (List.mem_of_find?_eq_some
        (mem_sortedMap.mp (List.mem_of_find?_eq_some hlast)))
    have hlive : last.1.isDeleted = false :=
      hkept last.1 (hfst ▸ List.mem_map_of_mem hmem)
    refine List.mem_map.mpr ⟨last, ?_, by simpa using List.find?_some hlast⟩
    rw [hcompacted]
    exact List.mem_filter.mpr ⟨List.mem_of_find?_eq_some hfind, by simp [hlive]⟩
  have hle := (List.subperm_of_subset (hkeys ▸ hdistinct) hall).length_le
  rwa [hkeys, List.length_map, List.length_map] at hle

theorem flushContainer_of_many {nodeId : Nat} {records : RecordList} (hmany : 5000 ≤ records.length)
    (hnode : (ofLex file.trailer.journalOffset).1 >>> 56 = nodeId)
    (hoffset : ∀ e ∈ records, file.trailer.journalOffset < e.1)
    (hknown : hasUnknown records = false) :
    file.flushContainer getHash nodeId false records =
      (file.compaction getHash records.length).append getHash records := by
  have hprepare : file.prepareFlush getHash records.length =
      file.compaction getHash records.length := by
    refine if_pos (.inr ?_)
    omega
  obtain ⟨e, rest, rfl⟩ : ∃ e rest, records = e :: rest :=
    List.exists_cons_of_length_pos (by omega)
  have hrest : (file.compaction getHash (e :: rest).length).flushRecords getHash nodeId
      false (e :: rest) = e :: rest := by
    have hjournal : (file.compaction getHash (e :: rest).length).trailer.journalOffset =
        file.trailer.journalOffset := rfl
    rw [flushRecords, Container.Statistics.flushContainer, hjournal, if_pos hnode]
    exact List.dropWhile_cons_of_neg (by simpa using hoffset e List.mem_cons_self)
  simp only [ContainerFile.flushContainer]
  rw [hprepare, hrest, if_neg (List.cons_ne_nil _ _), if_neg (by simp [hknown])]

variable (getHash) in
theorem counts_append_compaction (file : ContainerFile) (numRecord : Nat) (records : RecordList) :
    ((file.compaction getHash numRecord).append getHash records).trailer.sortedRecord =
        (file.compacted getHash).length ∧
      ((file.compaction getHash numRecord).append getHash records).trailer.unsortedRecord =
        records.length := by
  simp [ContainerFile.append, ContainerFile.compaction, storeTrailer]

theorem data_append_compaction (file : ContainerFile) (numRecord : Nat) (records : RecordList) :
    ((file.compaction getHash numRecord).append getHash records).data =
      (file.compacted getHash).map (·.1) ++
        records.map fun e => ⟨e.2.name, e.2.size, e.2.deleted⟩ := rfl

/-! ### Where the start position is right -/

/-- No record that the listing returns is in an interval that it skips: for a pattern of less than
256 bytes that is only the one that the prefix names. -/
def KeepsReturned (file : ContainerFile) (marker namePrefix : Bytes) : Prop :=
  if (startPattern marker namePrefix).length < 256 then ¬ PrefixIndexed file marker namePrefix
  else NoneHidden file marker namePrefix

/-- From a new container on, a listing skips no more sorted records than there are and none that it
returns if and only if something stops its search in the data index in time and no interval with a
returned record is passed. -/
theorem start_position_skips_within_iff {metadata : Metadata} {offset : JournalOffset}
    {operations : List Operation}
    (hrun : run (ContainerFile.step getHash)
      (addContainer metadata offset) operations = some file)
    (marker namePrefix : Bytes) :
    SkipsWithin file marker namePrefix ↔
      IndexStops file (startPattern marker namePrefix) ∧ KeepsReturned file marker namePrefix := by
  have hordered : Ordered file := run_preserves (ContainerFile.step getHash)
    (fun _ a _ h hs => h.step a hs) (ordered_addContainer metadata offset) hrun
  rw [hordered.skipsWithin_iff]
  refine and_congr_right fun hindex => ?_
  unfold KeepsReturned
  split
  next hshort => exact hordered.noneHidden_iff hindex hshort
  next => exact Iff.rfl

/-- Uploads of 5000 objects, each named by another character behind the letter `c`. -/
def uploads (offset : Nat) : RecordList :=
  (List.range 5000).map fun i =>
    (toLex (offset, 0), ⟨String.ofList [Char.ofNat (i + 100)], 7, 0, objectAdd⟩)

theorem length_uploads (offset : Nat) : (uploads offset).length = 5000 := by
  rw [uploads, List.length_map, List.length_range]

theorem hasUnknown_uploads (offset : Nat) : hasUnknown (uploads offset) = false := by
  unfold hasUnknown uploads
  rw [List.any_map]
  exact List.any_eq_false.mpr fun i _ => by simp [objectUnknownDelete, objectUnknownAdd, objectAdd]

theorem uploads_offset {offset : Nat} : ∀ e ∈ uploads offset, e.1 = toLex (offset, 0) := by
  intro e he
  obtain ⟨i, -, rfl⟩ := List.mem_map.mp he
  rfl

theorem uploads_added {offset : Nat} : ∀ e ∈ uploads offset, e.2.deleted = objectAdd := by
  intro e he
  obtain ⟨i, -, rfl⟩ := List.mem_map.mp he
  rfl

theorem take_utf8_singleton (c : Char) {n : Nat} (hn : 4 ≤ n) :
    (utf8 (String.ofList [c])).take n = String.utf8EncodeChar c := by
  have hbytes : utf8 (String.ofList [c]) = String.utf8EncodeChar c := by
    rw [utf8_eq_flatMap, String.toList_ofList, List.flatMap_cons, List.flatMap_nil, List.append_nil]
  rw [hbytes]
  apply List.take_of_length_le
  rw [String.length_utf8EncodeChar]
  exact c.utf8Size_le_four.trans hn

theorem sortKey_uploads_nodup (offset : Nat) :
    ((uploads offset).map fun e => sortKey e.2.name).Nodup := by
  have hchar : ∀ i < 5000, (Char.ofNat (i + 100)).val.toNat = i + 100 := by
    intro i hi
    have hvalid : (i + 100).isValidChar := .inl (by omega)
    rw [Char.ofNat, dif_pos hvalid]
    rfl
  have hkeys : ((uploads offset).map fun e => sortKey e.2.name) =
      (List.range 5000).map fun i => String.utf8EncodeChar (Char.ofNat (i + 100)) := by
    rw [uploads, List.map_map]
    exact List.map_congr_left fun i _ => take_utf8_singleton _ (by decide)
  rw [hkeys]
  apply List.pairwise_map.mpr
  refine List.pairwise_lt_range.imp_of_mem fun {i j} hi hj hlt heq => ?_
  have hless : Char.ofNat (i + 100) < Char.ofNat (j + 100) := by
    show (Char.ofNat (i + 100)).val.toNat < (Char.ofNat (j + 100)).val.toNat
    rw [hchar i (List.mem_range.mp hi), hchar j (List.mem_range.mp hj)]
    omega
  have hbytes := utf8EncodeChar_append_lt hless [] []
  rw [List.append_nil, List.append_nil, heq] at hbytes
  exact List.lt_irrefl _ hbytes

variable (getHash) in
theorem exists_flushed_once {records : RecordList} (hlength : records.length = 5000)
    (hfirst : ∀ e ∈ records, e.1 = toLex (1, 0)) (hknown : hasUnknown records = false) : ∃ first,
    run (ContainerFile.step getHash) (addContainer ∅ (toLex (0, 0)))
      [.flushContainer 0 false records] = some first ∧
    first.data = records.map (fun e => ⟨e.2.name, e.2.size, e.2.deleted⟩) ∧
    first.trailer.sortedRecord = 0 ∧ first.trailer.unsortedRecord = 5000 ∧
    first.trailer.version = supportedVersion ∧ first.trailer.journalOffset = toLex (1, 0) := by
  generalize hempty : addContainer ∅ (toLex (0, 0)) = empty
  have hnil : empty.compacted getHash = [] := by
    apply List.eq_nil_of_length_eq_zero
    have hle : (empty.compacted getHash).length ≤ _ := length_compacted_le empty
    rw [← hempty] at hle ⊢
    exact Nat.le_zero.mp hle
  have hflushed : empty.flushContainer getHash 0 false records =
      (empty.compaction getHash records.length).append getHash records := by
    apply flushContainer_of_many hlength.ge _ _ hknown
    · rw [← hempty]
      rfl
    · intro e he
      rw [← hempty, hfirst e he]
      decide
  have hcounts := counts_append_compaction getHash empty records.length records
  rw [hnil] at hcounts
  refine ⟨_, ?_, ?_, hcounts.1, hcounts.2.trans hlength, rfl, ?_⟩
  · rw [← hflushed]
    rfl
  · rw [data_append_compaction, hnil]
    rfl
  · have hne : records ≠ [] := List.ne_nil_of_length_pos (by omega)
    have hlast : records.getLast?.map (·.1) = some (toLex (1, 0)) := by
      rw [List.getLast?_eq_some_getLast hne]
      exact congrArg some (hfirst _ (List.getLast_mem hne))
    show (records.getLast?.map (·.1)).getD _ = _
    rw [hlast]
    rfl

variable (getHash) in
/-- Two flushes of 5000 records each to a new container: those of the first are sorted. -/
theorem exists_flushed_twice {records again : RecordList} (hlength : records.length = 5000)
    (hagain : again.length = 5000) (hfirst : ∀ e ∈ records, e.1 = toLex (1, 0))
    (hsecond : ∀ e ∈ again, e.1 = toLex (2, 0)) (hknown : hasUnknown records = false)
    (hknown' : hasUnknown again = false) (hkept : ∀ e ∈ records, e.2.deleted = objectAdd)
    (hdistinct : (records.map fun e => sortKey e.2.name).Nodup) : ∃ file,
    run (ContainerFile.step getHash) (addContainer ∅ (toLex (0, 0)))
      [.flushContainer 0 false records, .flushContainer 0 false again] = some file ∧
    file.trailer.sortedRecord = 5000 ∧ file.trailer.unsortedRecord = 5000 ∧
    ∀ name ∈ file.sortedNames, ∃ e ∈ records, e.2.name = name := by
  obtain ⟨first, hrun, hdata, hsorted, hunsorted, hversion, hoffset⟩ :=
    exists_flushed_once getHash hlength hfirst hknown
  have hcompacted : (first.compacted getHash).length = 5000 := by
    apply Nat.le_antisymm
    · have hle : (first.compacted getHash).length ≤ _ := length_compacted_le first
      rwa [hsorted, hunsorted] at hle
    · suffices hle : first.data.length ≤ (first.compacted getHash).length by
        rwa [hdata, List.length_map, hlength] at hle
      apply length_le_compacted hsorted
      · rw [hversion]
        decide
      · rw [hdata, List.length_map, hlength, hunsorted]
      · rw [hdata, List.map_map]
        exact hdistinct
      · intro r hr
        rw [hdata] at hr
        obtain ⟨e, he, rfl⟩ := List.mem_map.mp hr
        unfold DataRecord.isDeleted
        simp [hkept e he]
        decide
  obtain ⟨file, hfile⟩ : ∃ file, file = first.flushContainer getHash 0 false again := ⟨_, rfl⟩
  have hsecondfile : file = (first.compaction getHash again.length).append getHash again := by
    rw [hfile]
    apply flushContainer_of_many hagain.ge _ _ hknown'
    · rw [hoffset]
      rfl
    · intro e he
      rw [hoffset, hsecond e he]
      decide
  have hcounts := counts_append_compaction getHash first again.length again
  rw [← hsecondfile, hcompacted, hagain] at hcounts
  refine ⟨file, ?_, hcounts.1, hcounts.2, fun name hname => ?_⟩
  · rw [← List.singleton_append, run_append, hrun, hfile]
    rfl
  · obtain ⟨r, hr, rfl⟩ := List.mem_map.mp hname
    have hin : r ∈ (first.compacted getHash).map (·.1) := by
      rw [hcounts.1, hsecondfile, data_append_compaction,
        List.take_left' (by rw [List.length_map, hcompacted])] at hr
      exact hr
    obtain ⟨e, he, rfl⟩ := List.mem_map.mp hin
    obtain ⟨r', hr', hsame⟩ := exists_of_mem_compacted he
    rw [hdata] at hr'
    obtain ⟨e', he', rfl⟩ := List.mem_map.mp hr'
    exact ⟨e', he', hsame⟩

/-- After two flushes of 5000 uploads one name is in the data index and is read: a listing behind a
letter in front of all names is right, and one of the objects whose names start with that name
skips the object of the name. -/
theorem start_position_skips_within_compacted : ∃ file entry,
    run (ContainerFile.step id) (addContainer ∅ (toLex (0, 0)))
      [.flushContainer 0 false (uploads 1), .flushContainer 0 false (uploads 2)] = some file ∧
    file.dataIndex = [entry] ∧ file.readDataIndexBlock = [entry] ∧
    SkipsWithin file [99] [] ∧ ¬ SkipsWithin file [] entry := by
  obtain ⟨file, hrun, hsorted, hunsorted, hnames⟩ := exists_flushed_twice id
    (length_uploads 1) (length_uploads 2) uploads_offset uploads_offset (hasUnknown_uploads 1)
    (hasUnknown_uploads 2) uploads_added (sortKey_uploads_nodup 1)
  have hordered : Ordered file := run_preserves (ContainerFile.step id)
    (fun _ a _ h hs => h.step a hs) (ordered_addContainer ∅ (toLex (0, 0))) hrun
  have hwritten : ∀ j, (file.dataIndex[j]?).isSome ↔ j < 1 := by
    intro j
    rw [hordered.getElem?_dataIndex_isSome, hsorted]
    rfl
  obtain ⟨entry, hentry⟩ := Option.isSome_iff_exists.mp ((hwritten 0).mpr (by decide))
  have hindex : file.dataIndex = [entry] := by
    apply List.ext_getElem?
    intro j
    cases j with
    | zero => exact hentry
    | succ j =>
      rw [List.getElem?_cons_succ, List.getElem?_nil]
      exact Option.not_isSome_iff_eq_none.mp fun hsome =>
        absurd ((hwritten (j + 1)).mp hsome) (by omega)
  have hread : file.readDataIndexBlock = [entry] := by
    rw [readDataIndexBlock, hunsorted, hindex]
    rfl
  -- the entry is the character of one of the uploads
  obtain ⟨c, hc⟩ : ∃ c : Char, entry = String.utf8EncodeChar c := by
    rw [getElem?_dataIndex] at hentry
    obtain ⟨name, hname, rfl⟩ := Option.map_eq_some_iff.mp hentry
    obtain ⟨e, he, rfl⟩ := hnames name (List.mem_of_getElem? hname)
    obtain ⟨i, -, rfl⟩ := List.mem_map.mp he
    exact ⟨_, take_utf8_singleton _ (by decide)⟩
  have hlength : 0 < entry.length ∧ entry.length ≤ 4 := by
    rw [hc, String.length_utf8EncodeChar]
    exact ⟨c.utf8Size_pos, c.utf8Size_le_four⟩
  have hstops : ∀ pattern, IndexStops file pattern := fun pattern =>
    .inr (.inr (.inl (by rw [hsorted, hunsorted])))
  have hless : [] < entry := by
    obtain ⟨b, rest, rfl⟩ := List.exists_cons_of_length_pos hlength.1
    exact List.nil_lt_cons b rest
  refine ⟨file, entry, hrun, hindex, hread, ?_, ?_⟩
  · apply (start_position_skips_within_iff hrun [99] []).mpr
    refine ⟨hstops _, ?_⟩
    rw [KeepsReturned, if_pos (by decide)]
    rintro ⟨hmarker, -⟩
    exact absurd hmarker (by decide)
  · intro hskips
    obtain ⟨-, hkeeps⟩ := (start_position_skips_within_iff hrun [] entry).mp hskips
    have hpattern : startPattern [] entry = entry := if_neg (List.not_lt_nil _)
    rw [KeepsReturned, hpattern, if_pos (by omega)] at hkeeps
    refine hkeeps ⟨hless, 0, ?_, hentry⟩
    rw [hunsorted]
    decide

/-- One record was compacted, and 5000 changes of an object were flushed since: a listing reads one
entry, none was written, and it skips 5000 records. -/
theorem start_position_skips_past_end :
    ∃ file, run (ContainerFile.step id) (addContainer ∅ (toLex (0, 0)))
        [.flushContainer 0 false [(toLex (1, 0), ⟨"a", 5, 0, objectAdd⟩)],
          .flushContainer 0 false (List.replicate 5000 (toLex (2, 0), ⟨"b", 7, 0, objectAdd⟩))] =
            some file ∧
      ¬ SkipsWithin file [] [97] := by
  obtain ⟨many, hmany⟩ : ∃ records : RecordList,
      records = List.replicate 5000 (toLex (2, 0), ⟨"b", 7, 0, objectAdd⟩) := ⟨_, rfl⟩
  have hlength : many.length = 5000 := by rw [hmany, List.length_replicate]
  rw [← hmany]
  let first := (addContainer ∅ (toLex (0, 0))).flushContainer id 0 false
    [(toLex (1, 0), ⟨"a", 5, 0, objectAdd⟩)]
  let file := first.flushContainer id 0 false many
  have hfile : file = (first.compaction id many.length).append id many := by
    apply flushContainer_of_many hlength.ge
    · show (ofLex first.trailer.journalOffset).1 >>> 56 = 0
      decide +kernel
    · intro e he
      rw [hmany] at he
      rw [List.eq_of_mem_replicate he]
      show first.trailer.journalOffset < toLex (2, 0)
      decide +kernel
    · rw [hmany, hasUnknown, List.any_replicate, if_neg (by decide)]
      decide
  have hone : (first.compacted id).length = 1 := by decide +kernel
  have hordered : Ordered file :=
    ((ordered_addContainer ∅ (toLex (0, 0))).flushContainer 0 false _).flushContainer 0 false _
  refine ⟨file, rfl, fun h => ?_⟩
  obtain ⟨hsorted, hunsorted⟩ : file.trailer.sortedRecord = (first.compacted id).length ∧
      file.trailer.unsortedRecord = many.length :=
    hfile ▸ counts_append_compaction id first many.length many
  rw [hone] at hsorted
  rw [hlength] at hunsorted
  obtain hzero | hnil | hcount | ⟨entry, hentry, -⟩ := ((hordered.skipsWithin_iff [] [97]).mp h).1
  · omega
  · exact absurd hnil (by decide)
  · rw [hsorted, hunsorted] at hcount
    exact absurd hcount (by decide)
  · obtain ⟨j, hj⟩ := List.getElem?_of_mem hentry
    have hlt := (hordered.getElem?_dataIndex_isSome j).mp (hj.symm ▸ rfl)
    rw [hsorted] at hlt
    exact absurd hlt (Nat.not_lt_zero _)

end ContainerFile

end ObjectStorage.InfoFile
