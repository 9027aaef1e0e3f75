import ObjectStorage.InfoFile.LiveObjects
import ObjectStorage.InfoFile.RangeListing

/-!
`get_object_list`: the sorted and the unsorted records of a container's info file and those in
memory, from a marker or a prefix on, one for every group of names that are the same up to a
delimiter. Names are not empty and shorter than 256 bytes; marker, end marker, prefix and delimiter
have no zero bytes.
-/

namespace ObjectStorage.InfoFile

open Std Library InfoFileSorter ObjectStorage.Journal Container.Statistics
open AccountInfo.AccountFile (group nextPath nextPath_iff Selected)

/-! ### Listing -/

/-- `InfoFileRecord`: one of the file or one of the memory. -/
inductive ListedRecord where
  | file (data : DataRecord)
  | memory (record : ObjectRecord)

namespace ListedRecord

/-- What the file has or would have of the record. -/
def data : ListedRecord → DataRecord
  | .file data => data
  | .memory record => dataRecord record

def getName (r : ListedRecord) : String := r.data.name

def isDeleted (r : ListedRecord) : Bool := r.data.isDeleted

/-- A record that the file has is listed as an added one. -/
def getObjectRecord : ListedRecord → ObjectRecord
  | .file data => ⟨data.name, data.size, 0, objectAdd⟩
  | .memory record => record

end ListedRecord

namespace ContainerFile

/-- The records that `SortedContainerInfoIterator` yields, if it does not start behind the last. -/
def sortedIterator (file : ContainerFile) (pattern : Bytes) : Option (List ListedRecord) :=
  if file.skippedRecords pattern ≤ file.trailer.sortedRecord then
    some ((file.sortedData.drop (file.skippedRecords pattern)).map .file)
  else none

def unsortedIterator (file : ContainerFile) : List ListedRecord :=
  sortedMap ListedRecord.getName (file.unsortedData.map .file)

def memoryIterator (memory : List ObjectRecord) : List ListedRecord :=
  sortedMap ListedRecord.getName (memory.map .memory)

/-- The loop over the records, with `prev_path` and the number of records that were listed. -/
def objectLoop (count : Nat) (namePrefix delimiter : Bytes) :
    Bytes → Nat → List ListedRecord → List ListedRecord
  | _, _, [] => []
  | prevPath, listed, record :: rest =>
      if record.isDeleted then objectLoop count namePrefix delimiter prevPath listed rest
      else if count ≠ 0 ∧ count ≤ listed then []
      else if ¬ namePrefix <+: utf8 record.getName then []
      else if delimiter ≠ [] ∧ prevPath ≠ [] ∧ prevPath <+: utf8 record.getName then
        objectLoop count namePrefix delimiter prevPath listed rest
      else
        let path := if delimiter = [] then prevPath
          else nextPath namePrefix delimiter (utf8 record.getName)
        record :: objectLoop count namePrefix delimiter path (listed + 1) rest

def getObjectList (file : ContainerFile) (memory : List ObjectRecord) (count : Nat)
    (marker endMarker namePrefix delimiter : Bytes) : Option (List ObjectRecord) :=
  let pattern := startPattern marker namePrefix
  let isPrefix := decide (marker < namePrefix)
  (file.sortedIterator pattern).map fun sorted =>
    (objectLoop count namePrefix delimiter [] 0
      (InfoFileSorter.listed ListedRecord.getName pattern endMarker isPrefix
        [sorted, file.unsortedIterator, memoryIterator memory])).map ListedRecord.getObjectRecord

/-! ### What is listed -/

/-- The object of a name, in the memory or else in the file. -/
def shown (file : ContainerFile) (memory : List ObjectRecord) (name : String) : Option DataRecord :=
  (((memory.map dataRecord).reverse.find? fun r => r.name = name).or (file.current name)).filter
    (! ·.isDeleted)

end ContainerFile

/-- A count of zero stands for all. -/
def counted {α : Type} (count : Nat) (entries : List α) : List α :=
  if count = 0 then entries else entries.take count

theorem counted_map {α β : Type} (count : Nat) (f : α → β) (entries : List α) :
    counted count (entries.map f) = (counted count entries).map f := by
  unfold counted
  split
  · rfl
  · exact List.map_take.symm

/-- The first objects of their groups, of those asked for, in the order of their names. -/
structure ObjectEntries (live : String → Option DataRecord)
    (marker endMarker namePrefix delimiter : Bytes) (entries : List DataRecord) : Prop where
  sorted : ByName DataRecord.name entries
  mem : ∀ r, r ∈ entries ↔ live r.name = some r ∧
    Selected marker endMarker namePrefix (utf8 r.name) ∧
      ∀ r', live r'.name = some r' → Selected marker endMarker namePrefix (utf8 r'.name) →
        group namePrefix delimiter (utf8 r'.name) = group namePrefix delimiter (utf8 r.name) →
          utf8 r.name ≤ utf8 r'.name

/-! ### The loop -/

namespace ContainerFile

section

variable {namePrefix delimiter : Bytes}

/-- What names have in common that make one entry. -/
abbrev groupOf (namePrefix delimiter : Bytes) (r : ListedRecord) : Bytes :=
  group namePrefix delimiter (utf8 r.getName)

/-- The loop keeps the first live record of every group, until there are enough. -/
theorem objectLoop_eq (count : Nat) {records : List ListedRecord} {prevPath : Bytes}
    (last : Option ListedRecord) (listed : Nat) (hsorted : ByName ListedRecord.getName records)
    (hfits : ∀ r ∈ records, Fits ListedRecord.getName r)
    (hpath : ∀ r ∈ records, namePrefix <+: utf8 r.getName →
      (delimiter ≠ [] ∧ prevPath ≠ [] ∧ prevPath <+: utf8 r.getName ↔
        ∃ a ∈ last, groupOf namePrefix delimiter a = groupOf namePrefix delimiter r)) :
    objectLoop count namePrefix delimiter prevPath listed records =
      let all := groupFirsts (groupOf namePrefix delimiter) last
        ((records.filter (! ·.isDeleted)).takeWhile fun r => namePrefix <+: utf8 r.getName)
      if count = 0 then all else all.take (count - listed) := by
  induction records generalizing prevPath last listed with
  | nil => simp [objectLoop, groupFirsts_nil]
  | cons record rest ih =>
      obtain ⟨hlater, hrest⟩ := List.pairwise_cons.mp hsorted
      obtain ⟨hfit, hfits'⟩ := List.forall_mem_cons.mp hfits
      obtain ⟨hrecord, hpath'⟩ := List.forall_mem_cons.mp hpath
      rw [objectLoop]
      by_cases hdeleted : record.isDeleted = true
      · rw [if_pos hdeleted, List.filter_cons_of_neg (by simp [hdeleted])]
        exact ih last listed hrest hfits' hpath'
      rw [if_neg hdeleted, List.filter_cons_of_pos (by simpa using hdeleted)]
      by_cases hfull : count ≠ 0 ∧ count ≤ listed
      · rw [if_pos hfull]
        simp only
        rw [if_neg hfull.1, Nat.sub_eq_zero_of_le hfull.2, List.take_zero]
      rw [if_neg hfull]
      by_cases hstart : namePrefix <+: utf8 record.getName
      · rw [if_neg (not_not_intro hstart), List.takeWhile_cons_of_pos (by simpa using hstart),
          groupFirsts_cons]
        by_cases hskip : delimiter ≠ [] ∧ prevPath ≠ [] ∧ prevPath <+: utf8 record.getName
        · rw [if_pos hskip, if_pos ((hrecord hstart).mp hskip)]
          exact ih last listed hrest hfits' hpath'
        · rw [if_neg hskip, if_neg fun h => hskip ((hrecord hstart).mpr h)]
          simp only
          rw [ih (some record) (listed + 1) hrest hfits']
          · simp only
            split
            next => rfl
            next hcount =>
              have hsucc : count - listed = count - (listed + 1) + 1 := by omega
              rw [hsucc, List.take_succ_cons]
          -- the new path tells the group of the record
          · intro r hr hhead
            have hne : utf8 record.getName ≠ utf8 r.getName := fun heq =>
              List.lt_irrefl _ (heq ▸ hlater r hr)
            by_cases hdelimiter : delimiter = []
            · subst hdelimiter
              simp only [ne_eq, not_true_eq_false, false_and, Option.mem_def, Option.some.injEq,
                exists_eq_left', false_iff]
              exact fun h => hne (group_injective h)
            · rw [if_neg hdelimiter, and_iff_right hdelimiter,
                nextPath_iff hdelimiter hhead hne hfit.2.le (hfits' r hr).2.le]
              simp
      · rw [if_pos hstart, List.takeWhile_cons_of_neg (by simpa using hstart), groupFirsts_nil]
        simp

/-! ### The records of the iterators -/

theorem find?_map_data (records : List ListedRecord) (n : String) :
    (records.find? fun r => r.getName = n).map ListedRecord.data =
      (records.map ListedRecord.data).find? fun r => r.name = n := by
  rw [List.find?_map]
  rfl

theorem find?_drop {records : List DataRecord} {k : Nat} {n : String}
    (h : ∀ r ∈ records.take k, r.name ≠ n) : ((records.drop k).find? fun r => r.name = n) =
      records.find? fun r => r.name = n := by
  have hnone : ((records.take k).find? fun r => r.name = n) = none :=
    List.find?_eq_none.mpr fun r hr => by simpa using h r hr
  conv_rhs => rw [← List.take_append_drop k records, List.find?_append, hnone, Option.none_or]

/-- The iterators of a listing that skips the given number of sorted records. -/
def iterators (file : ContainerFile) (memory : List ObjectRecord) (skipped : Nat) :
    List (List ListedRecord) :=
  [(file.sortedData.drop skipped).map .file, file.unsortedIterator, memoryIterator memory]

variable {file : ContainerFile} {memory : List ObjectRecord} {skipped : Nat}
  {marker endMarker : Bytes} {r : ListedRecord}

theorem fits_iterators (hdata : ∀ r ∈ file.data, Fits DataRecord.name r)
    (hmemory : ∀ r ∈ memory, Fits ObjectRecord.name r) : ∀ it ∈ file.iterators memory skipped,
      ∀ r ∈ it, Fits ListedRecord.getName r := by
  intro it hit r hr
  simp only [iterators, List.mem_cons, List.not_mem_nil, or_false] at hit
  rcases hit with rfl | rfl | rfl
  · obtain ⟨data, hin, rfl⟩ := List.mem_map.mp hr
    exact hdata data (List.mem_of_mem_take (List.mem_of_mem_drop hin))
  · have hin := List.mem_reverse.mp (List.mem_of_find?_eq_some (mem_sortedMap.mp hr))
    obtain ⟨data, hunsorted, rfl⟩ := List.mem_map.mp hin
    exact hdata data (List.mem_of_mem_drop hunsorted)
  · have hin := List.mem_reverse.mp (List.mem_of_find?_eq_some (mem_sortedMap.mp hr))
    obtain ⟨record, hrecord, rfl⟩ := List.mem_map.mp hin
    exact hmemory record hrecord

theorem Sound.byName_iterators (h : Sound file) :
    ∀ it ∈ file.iterators memory skipped, ByName ListedRecord.getName it := by
  intro it hit
  simp only [iterators, List.mem_cons, List.not_mem_nil, or_false] at hit
  rcases hit with rfl | rfl | rfl
  · apply List.pairwise_map.mpr
    exact h.byName_sorted.drop
  · exact byName_sortedMap _
  · exact byName_sortedMap _

/-- Of a name that is not skipped, the sorter has the record of the memory or that of the file. -/
theorem latestOf_iterators {n : String} (hskip : ∀ r ∈ file.sortedData.take skipped, r.name ≠ n) :
    ((latestOf ListedRecord.getName n (file.iterators memory skipped)).map
      ListedRecord.data).filter (! ·.isDeleted) = file.shown memory n := by
  have hlatest : latestOf ListedRecord.getName n (file.iterators memory skipped) =
      ((memory.map ListedRecord.memory).reverse.find? fun r => r.getName = n).or
        (((file.unsortedData.map ListedRecord.file).reverse.find? fun r => r.getName = n).or
          (((file.sortedData.drop skipped).map ListedRecord.file).find?
            fun r => r.getName = n)) := by
    simp only [latestOf, iterators, List.foldl_cons, List.foldl_nil, Option.or_none,
      unsortedIterator, memoryIterator, find?_sortedMap]
  rw [hlatest, shown, current, Option.map_or, Option.map_or, find?_map_data, find?_map_data,
    find?_map_data, List.map_reverse, List.map_reverse, List.map_map, List.map_map, List.map_map,
    ← find?_drop hskip]
  congr 3
  · congr 2
    exact List.map_id _
  · congr 1
    exact List.map_id _

/-! ### The entries -/

/-- The live records with the prefix. -/
def kept (marker endMarker namePrefix : Bytes) (its : List (List ListedRecord)) :
    List ListedRecord :=
  ((ranged ListedRecord.getName marker endMarker namePrefix its).filter (! ·.isDeleted)).filter
    fun r => namePrefix <+: utf8 r.getName

theorem mem_kept {its : List (List ListedRecord)}
    (hsorted : ∀ it ∈ its, ByName ListedRecord.getName it)
    (hfits : ∀ it ∈ its, ∀ r ∈ it, Fits ListedRecord.getName r) :
    r ∈ kept marker endMarker namePrefix its ↔
      latestOf ListedRecord.getName r.getName its = some r ∧ r.isDeleted = false ∧
        Selected marker endMarker namePrefix (utf8 r.getName) := by
  rw [kept, List.mem_filter, List.mem_filter, decide_eq_true_eq, Bool.not_eq_true', and_right_comm,
    mem_ranged hsorted hfits]
  exact and_right_comm.trans and_assoc

theorem byName_kept {its : List (List ListedRecord)}
    (hsorted : ∀ it ∈ its, ByName ListedRecord.getName it)
    (hfits : ∀ it ∈ its, ∀ r ∈ it, Fits ListedRecord.getName r) :
    ByName ListedRecord.getName (kept marker endMarker namePrefix its) :=
  ((byName_ranged hsorted hfits).filter _).filter _

theorem objectEntries_kept {live : String → Option DataRecord} {its : List (List ListedRecord)}
    (hsorted : ∀ it ∈ its, ByName ListedRecord.getName it)
    (hfits : ∀ it ∈ its, ∀ r ∈ it, Fits ListedRecord.getName r)
    (hlive : ∀ n, Selected marker endMarker namePrefix (utf8 n) →
      ((latestOf ListedRecord.getName n its).map ListedRecord.data).filter (! ·.isDeleted) =
        live n) :
    ObjectEntries live marker endMarker namePrefix delimiter
      ((groupFirsts (groupOf namePrefix delimiter) none
        (kept marker endMarker namePrefix its)).map ListedRecord.data) := by
  have hordered : ByName ListedRecord.getName (kept marker endMarker namePrefix its) :=
    byName_kept hsorted hfits
  have hhead : ∀ r ∈ kept marker endMarker namePrefix its, namePrefix <+: utf8 r.getName :=
    fun r hr => ((mem_kept hsorted hfits).mp hr).2.2.2.2
  -- a live object that is asked for is that of a record that is kept
  have hkept : ∀ d, live d.name = some d ∧ Selected marker endMarker namePrefix (utf8 d.name) ↔
      ∃ r ∈ kept marker endMarker namePrefix its, r.data = d := by
    intro d
    constructor
    · rintro ⟨hd, hselected⟩
      rw [← hlive _ hselected] at hd
      obtain ⟨hd, hkeep⟩ := Option.filter_eq_some_iff.mp hd
      obtain ⟨r, hlatest, rfl⟩ := Option.map_eq_some_iff.mp hd
      have hdata : r.data.isDeleted = false := by simpa using hkeep
      exact ⟨r, (mem_kept hsorted hfits).mpr ⟨hlatest, hdata, hselected⟩, rfl⟩
    · rintro ⟨r, hr, rfl⟩
      obtain ⟨hlatest, hkeep, hselected⟩ := (mem_kept hsorted hfits).mp hr
      refine ⟨?_, hselected⟩
      have hname := hlive r.getName hselected
      rw [hlatest, Option.map_some, Option.filter_some] at hname
      rw [show r.data.name = r.getName from rfl, ← hname]
      have hkeep' : (! r.data.isDeleted) = true := by
        rw [show r.data.isDeleted = false from hkeep]
        rfl
      exact if_pos hkeep'
  have hfirst : ∀ r, r ∈ groupFirsts (groupOf namePrefix delimiter) none
      (kept marker endMarker namePrefix its) ↔ r ∈ kept marker endMarker namePrefix its ∧
        ∀ r' ∈ kept marker endMarker namePrefix its, groupOf namePrefix delimiter r' =
          groupOf namePrefix delimiter r → ¬ utf8 r'.getName < utf8 r.getName := by
    intro r
    apply mem_groupFirsts (fun _ _ hlt => List.lt_asymm hlt) hordered
    intro a ha b hb c hc hlt hlt' hgroup
    exact group_eq_of_lt (hhead a ha) (hhead b hb) (hhead c hc) hlt hlt' hgroup
  refine ⟨?_, fun d => ?_⟩
  · apply List.pairwise_map.mpr
    exact hordered.sublist (groupFirsts_sublist _)
  · rw [List.mem_map]
    constructor
    · rintro ⟨r, hr, rfl⟩
      obtain ⟨hr, hleast⟩ := (hfirst r).mp hr
      obtain ⟨hlive, hselected⟩ := (hkept r.data).mpr ⟨r, hr, rfl⟩
      refine ⟨hlive, hselected, fun d' hlive' hselected' hgroup => ?_⟩
      obtain ⟨r', hr', rfl⟩ := (hkept d').mp ⟨hlive', hselected'⟩
      exact List.not_lt.mp (hleast r' hr' hgroup)
    · rintro ⟨hlive, hselected, hleast⟩
      obtain ⟨r, hr, rfl⟩ := (hkept d).mp ⟨hlive, hselected⟩
      refine ⟨r, (hfirst r).mpr ⟨hr, fun r' hr' hgroup => ?_⟩, rfl⟩
      obtain ⟨hlive', hselected'⟩ := (hkept r'.data).mpr ⟨r', hr', rfl⟩
      exact List.not_lt.mpr (hleast r'.data hlive' hselected' hgroup)

theorem SkipsWithin.not_skipped (h : file.SkipsWithin marker namePrefix) {n : String}
    (hselected : Selected marker endMarker namePrefix (utf8 n)) :
    ∀ r ∈ file.sortedData.take (file.skippedRecords (startPattern marker namePrefix)),
      r.name ≠ n := by
  rintro r hr rfl
  obtain ⟨i, hi⟩ := List.mem_iff_getElem?.mp hr
  have hlt : i < file.skippedRecords (startPattern marker namePrefix) := by
    by_contra hnot
    rw [List.getElem?_eq_none (by rw [List.length_take]; omega)] at hi
    cases hi
  rw [List.getElem?_take_of_lt hlt] at hi
  have hname : file.sortedNames[i]? = some r.name := by
    rw [show file.sortedNames = file.sortedData.map (·.name) from rfl, List.getElem?_map, hi]
    rfl
  have hreturned : Returned marker namePrefix r.name := by
    unfold Returned
    split
    · exact hselected.2.2
    · exact hselected.1
  obtain ⟨hle, -⟩ := List.mem_range'_1.mp (h.2 i r.name hname hreturned)
  omega

/-- A sound file whose iterator does not skip too much is listed with the memory over it. -/
theorem Sound.getObjectList (hsound : Sound file) (hdata : ∀ r ∈ file.data, Fits DataRecord.name r)
    (hmemory : ∀ r ∈ memory, Fits ObjectRecord.name r) (hskip : file.SkipsWithin marker namePrefix)
    (count : Nat) (endMarker delimiter : Bytes) : ∃ records entries,
      file.getObjectList memory count marker endMarker namePrefix delimiter = some records ∧
      ObjectEntries (file.shown memory) marker endMarker namePrefix delimiter entries ∧
      records.map (fun r => (r.name, r.size)) =
        (counted count entries).map fun r => (r.name, r.size) := by
  let pattern := startPattern marker namePrefix
  have hsorted : ∀ it ∈ file.iterators memory (file.skippedRecords pattern),
      ByName ListedRecord.getName it := hsound.byName_iterators
  have hfits : ∀ it ∈ file.iterators memory (file.skippedRecords pattern),
      ∀ r ∈ it, Fits ListedRecord.getName r := fits_iterators hdata hmemory
  let its := file.iterators memory (file.skippedRecords pattern)
  have hloop : objectLoop count namePrefix delimiter [] 0
      (ranged ListedRecord.getName marker endMarker namePrefix its) =
        counted count (groupFirsts (groupOf namePrefix delimiter) none
          (kept marker endMarker namePrefix its)) := by
    rw [objectLoop_eq count none 0 (byName_ranged hsorted hfits)]
    · rw [takeWhile_ranged hsorted hfits]
      rfl
    · exact fun r hr => fits_of_mem_ranged hfits hr
    · simp
  have hentries : ObjectEntries (file.shown memory) marker endMarker namePrefix delimiter
      ((groupFirsts (groupOf namePrefix delimiter) none
        (kept marker endMarker namePrefix its)).map ListedRecord.data) :=
    objectEntries_kept hsorted hfits fun n hn => latestOf_iterators (hskip.not_skipped hn)
  refine ⟨(counted count (groupFirsts (groupOf namePrefix delimiter) none
    (kept marker endMarker namePrefix its))).map ListedRecord.getObjectRecord, _, ?_, hentries, ?_⟩
  · have hstart : file.sortedIterator pattern =
      some ((file.sortedData.drop (file.skippedRecords pattern)).map .file) := if_pos hskip.1
    rw [← hloop]
    simp only [ContainerFile.getObjectList]
    rw [show startPattern marker namePrefix = pattern from rfl, hstart]
    rfl
  · rw [counted_map, List.map_map, List.map_map]
    apply List.map_congr_left
    intro r _
    cases r <;> rfl

/-- A listing of a file that operations have made returns the first entries of its objects with the
memory over them, as many as the count says. -/
theorem object_list_lists {getHash : String → String}
    {metadata : Metadata} {offset : JournalOffset} {operations : List Operation}
    (hnames : ∀ operation ∈ operations, ∀ e ∈ handed operation, Fits ObjectRecord.name e.2)
    (hrun : run (ContainerFile.step getHash)
      (addContainer metadata offset) operations = some file)
    (hmemory : ∀ r ∈ memory, Fits ObjectRecord.name r)
    (hskip : file.SkipsWithin marker namePrefix) (count : Nat) (endMarker delimiter : Bytes) :
    ∃ records entries,
      file.getObjectList memory count marker endMarker namePrefix delimiter = some records ∧
      ObjectEntries (file.shown memory) marker endMarker namePrefix delimiter entries ∧
      records.map (fun r => (r.name, r.size)) =
        (counted count entries).map fun r => (r.name, r.size) := by
  have hfits : ∀ n, (utf8 n ≠ [] ∧ (utf8 n).length < 256) → utf8 n ≠ [] ∧ (utf8 n).length ≤ 256 :=
    fun n hn => ⟨hn.1, hn.2.le⟩
  obtain ⟨hsound, hdata⟩ := sound_of_run hfits hnames hrun
  exact hsound.getObjectList hdata hmemory hskip count endMarker delimiter

theorem skipsWithin_of_few (h : file.trailer.unsortedRecord < dataIndexInterval)
    (marker namePrefix : Bytes) : file.SkipsWithin marker namePrefix := by
  have hnone : file.skippedRecords (startPattern marker namePrefix) = 0 := by
    unfold skippedRecords
    split
    · rfl
    · rw [readDataIndexBlock, Nat.div_eq_of_lt h]
      rfl
  refine ⟨hnone ▸ Nat.zero_le _, fun i n hi _ => ?_⟩
  rw [yielded, hnone, List.mem_range'_1]
  refine ⟨Nat.zero_le i, ?_⟩
  obtain ⟨hlt, -⟩ := List.getElem?_eq_some_iff.mp hi
  rw [sortedNames, List.length_map, List.length_take] at hlt
  omega

/-- One record is in the file, and a later one of the same object in memory. -/
theorem object_list_lists_overwritten : ∃ file,
    run (ContainerFile.step id) (addContainer ∅ (toLex (1 <<< 56, 0)))
      [.flushContainer 1 false [(toLex (1 <<< 56, 10), ⟨"o", 5, 0, objectAdd⟩)]] = some file ∧
    ∃ records entries, file.getObjectList [⟨"o", 7, 5, objectModify⟩] 2 [] [] [] [47] =
        some records ∧
      ObjectEntries (file.shown [⟨"o", 7, 5, objectModify⟩]) [] [] [] [47] entries ∧
      records.map (fun r => (r.name, r.size)) =
        (counted 2 entries).map fun r => (r.name, r.size) := by
  have hname : utf8 "o" ≠ [] ∧ (utf8 "o").length < 256 := by decide +kernel
  have hrun : run (ContainerFile.step id)
      (addContainer ∅ (toLex (1 <<< 56, 0)))
      [.flushContainer 1 false [(toLex (1 <<< 56, 10), ⟨"o", 5, 0, objectAdd⟩)]] = some _ := rfl
  refine ⟨_, hrun, object_list_lists ?_ hrun ?_ (skipsWithin_of_few (by decide) [] []) 2 [] [47]⟩
  · intro operation hoperation e he
    rw [List.mem_singleton.mp hoperation] at he
    rw [List.mem_singleton.mp he]
    exact hname
  · intro r hr
    rw [List.mem_singleton.mp hr]
    exact hname

end

end ContainerFile

end ObjectStorage.InfoFile
