import ObjectStorage.AccountInfo.BlockUpdates
import ObjectStorage.InfoFile.SorterOrder

/-!
The state of a container in the info file of its account, as listing and compaction see it: the last
unsorted record of the container or, if there is none, the sorted one.
-/

namespace ObjectStorage.AccountInfo

open Std Library InfoFile

/-! ### Names and hashes -/

/-- Names of containers that fit into their field, with different hashes. -/
structure Naming (getHash : String → String) (names : Set String) : Prop where
  hash : Set.InjOn getHash names
  length : ∀ name ∈ names, (utf8 name).length ≤ 256

/-- The record is of a container with one of the names. -/
structure Known (getHash : String → String) (names : Set String) (record : ContainerRecord) :
    Prop where
  name : record.name ∈ names
  hash : record.hash = getHash record.name

variable {getHash : String → String} {names : Set String}

theorem Naming.find_name (hnaming : Naming getHash names) {blocks : List ContainerRecord}
    (h : ∀ r ∈ blocks, Known getHash names r) {name : String} (hname : name ∈ names) :
    (blocks.find? fun r => r.name = name) = findHash (getHash name) blocks := by
  induction blocks with
  | nil => rfl
  | cons r blocks ih =>
      obtain ⟨hr, hrest⟩ := List.forall_mem_cons.mp h
      have hiff : r.name = name ↔ r.hash = getHash name := by
        rw [hr.hash, hnaming.hash.eq_iff hr.name hname]
      unfold findHash at ih ⊢
      rw [List.find?_cons, List.find?_cons, ih hrest, decide_eq_decide.mpr hiff]

theorem Naming.sortKey_eq (hnaming : Naming getHash names) {name : String} (hname : name ∈ names) :
    sortKey name = utf8 name := List.take_of_length_le (hnaming.length name hname)

theorem Naming.sortKey_inj (hnaming : Naming getHash names) {name name' : String}
    (hname : name ∈ names) (hname' : name' ∈ names) :
    sortKey name = sortKey name' ↔ name = name' := by
  rw [hnaming.sortKey_eq hname, hnaming.sortKey_eq hname', utf8_injective.eq_iff]

theorem find_name_eq_none {blocks : List ContainerRecord} (h : ∀ r ∈ blocks, Known getHash names r)
    {name : String} (hname : name ∉ names) : (blocks.find? fun r => r.name = name) = none :=
  List.find?_eq_none.mpr fun r hr heq => hname (of_decide_eq_true heq ▸ (h r hr).name)

theorem Naming.find_sortKey (hnaming : Naming getHash names) {blocks : List ContainerRecord}
    (h : ∀ r ∈ blocks, Known getHash names r) {name : String} (hname : name ∈ names) :
    (blocks.find? fun r => sortKey r.name = sortKey name) =
      blocks.find? fun r => r.name = name := by
  induction blocks with
  | nil => rfl
  | cons r blocks ih =>
      obtain ⟨hr, hrest⟩ := List.forall_mem_cons.mp h
      rw [List.find?_cons, List.find?_cons, ih hrest,
        decide_eq_decide.mpr (hnaming.sortKey_inj hr.name hname)]

theorem Naming.strictlySorted_sortedMap (hnaming : Naming getHash names)
    {blocks : List ContainerRecord} (h : ∀ r ∈ blocks, Known getHash names r) :
    StrictlySorted (·.name) (sortedMap (·.name) blocks) := by
  refine (pairwise_sortedMap _ _).imp_of_mem fun {r r'} hr hr' hlt => ?_
  have hknown : ∀ r ∈ sortedMap (·.name) blocks, Known getHash names r := fun r hr =>
    h r (List.mem_reverse.mp (List.mem_of_find?_eq_some (mem_sortedMap.mp hr)))
  rw [hnaming.sortKey_eq (hknown r hr).name, hnaming.sortKey_eq (hknown r' hr').name]
  exact utf8_lt hlt

namespace AccountFile

variable {file : AccountFile}

/-- The record of a container that listing and compaction see. -/
def current (file : AccountFile) (name : String) : Option ContainerRecord :=
  (file.unsorted.reverse.find? fun r => r.name = name).or
    (file.sorted.find? fun r => r.name = name)

/-- The record of a container that is not deleted. -/
def live (file : AccountFile) (name : String) : Option ContainerRecord :=
  (file.current name).filter (! ·.deleted)

/-- The sorted records are in order, and all are of known containers. -/
structure Ordered (getHash : String → String) (names : Set String) (file : AccountFile) : Prop where
  length : file.blocks.length = file.trailer.sortedRecord + file.trailer.unsortedRecord
  sorted : StrictlySorted (·.name) file.sorted
  known : ∀ r ∈ file.blocks, Known getHash names r

theorem Ordered.known_sorted (h : Ordered getHash names file) :
    ∀ r ∈ file.sorted, Known getHash names r := fun r hr => h.known r (List.mem_of_mem_take hr)

theorem Ordered.unsorted_eq (h : Ordered getHash names file) :
    file.unsorted = file.blocks.drop file.trailer.sortedRecord := by
  refine List.take_of_length_le ?_
  rw [List.length_drop, h.length]
  omega

theorem Ordered.known_unsorted (h : Ordered getHash names file) :
    ∀ r ∈ file.unsorted, Known getHash names r := fun r hr =>
  h.known r (List.mem_of_mem_drop (List.mem_of_mem_take hr))

theorem Ordered.length_sorted (h : Ordered getHash names file) :
    file.sorted.length = file.trailer.sortedRecord := by
  rw [AccountFile.sorted, List.length_take, h.length]
  omega

/-- The iterators of compaction and listing. -/
def iterators (file : AccountFile) : List (List ContainerRecord) :=
  [file.sorted, sortedMap (·.name) file.unsorted]

theorem Ordered.strictlySorted (h : Ordered getHash names file) (hnaming : Naming getHash names) :
    ∀ it ∈ file.iterators, StrictlySorted (·.name) it := by
  intro it hit
  rcases List.mem_pair.mp hit with rfl | rfl
  · exact h.sorted
  · exact hnaming.strictlySorted_sortedMap h.known_unsorted

theorem find_sortedMap (blocks : List ContainerRecord) (name : String) :
    ((sortedMap (·.name) blocks).find? fun r => r.name = name) =
      blocks.reverse.find? fun r => r.name = name := by
  cases hfind : blocks.reverse.find? fun r => r.name = name with
  | none =>
      refine List.find?_eq_none.mpr fun r hr heq => ?_
      have hlast := mem_sortedMap.mp hr
      rw [of_decide_eq_true heq, hfind] at hlast
      cases hlast
  | some r =>
      have hname : r.name = name := by simpa using List.find?_some hfind
      have hin : r ∈ sortedMap (·.name) blocks := mem_sortedMap.mpr (by rw [hname]; exact hfind)
      cases hfirst : (sortedMap (·.name) blocks).find? fun r => r.name = name with
      | none => exact absurd hname (by simpa using List.find?_eq_none.mp hfirst r hin)
      | some r' =>
          have hname' : r'.name = name := by simpa using List.find?_some hfirst
          have hlast := mem_sortedMap.mp (List.mem_of_find?_eq_some hfirst)
          rw [hname', hfind] at hlast
          exact hlast.symm

/-- Compaction goes over the current record of every container. -/
theorem Ordered.find_records (h : Ordered getHash names file) (hnaming : Naming getHash names)
    (name : String) : ((InfoFileSorter.records (·.name) file.iterators).find?
      fun r => r.name = name) = file.current name := by
  have hmap : ∀ r ∈ sortedMap (·.name) file.unsorted, Known getHash names r := fun r hr =>
    h.known_unsorted r (List.mem_reverse.mp (List.mem_of_find?_eq_some (mem_sortedMap.mp hr)))
  have hknown : ∀ r ∈ InfoFileSorter.records (·.name) file.iterators, Known getHash names r := by
    intro r hr
    obtain ⟨it, hit, hin⟩ := InfoFileSorter.mem_of_mem_sorted hr
    rcases List.mem_pair.mp hit with rfl | rfl
    · exact h.known_sorted r hin
    · exact hmap r hin
  unfold current
  rw [← find_sortedMap]
  by_cases hname : name ∈ names
  · rw [← hnaming.find_sortKey hknown hname, InfoFileSorter.records, InfoFileSorter.find_sorted
      (fun it hit => (h.strictlySorted hnaming it hit).keySorted) (Nat.le_refl _)]
    simp only [InfoFileSorter.latest, iterators, List.foldl_cons, List.foldl_nil, Option.or_none]
    rw [hnaming.find_sortKey h.known_sorted hname, hnaming.find_sortKey hmap hname]
  · rw [find_name_eq_none hknown hname, find_name_eq_none h.known_sorted hname,
      find_name_eq_none hmap hname, Option.none_or]

/-! ### Compaction keeps the live records -/

theorem compacted_eq (file : AccountFile) : file.compacted =
    (InfoFileSorter.records (·.name) file.iterators).filter (! ·.deleted) := rfl

theorem sorted_compaction (file : AccountFile) : file.compaction.sorted = file.compacted :=
  List.take_length

theorem unsorted_compaction (file : AccountFile) : file.compaction.unsorted = [] := List.take_zero

/-- Of records with different names the first one with a name is the only one. -/
theorem find_filter {blocks : List ContainerRecord} (h : StrictlySorted (·.name) blocks)
    (name : String) (p : ContainerRecord → Bool) :
    ((blocks.filter p).find? fun r => r.name = name) =
      (blocks.find? fun r => r.name = name).filter p := by
  induction blocks with
  | nil => rfl
  | cons r blocks ih =>
      obtain ⟨hless, hrest⟩ := List.pairwise_cons.mp h
      by_cases hname : r.name = name
      · have hnone : ((blocks.filter p).find? fun r => r.name = name) = none := by
          refine List.find?_eq_none.mpr fun r' hr' heq => ?_
          have hlt := hless r' (List.mem_of_mem_filter hr')
          simp only at hlt
          rw [hname, of_decide_eq_true heq] at hlt
          exact List.lt_irrefl _ hlt
        rw [List.find?_cons_of_pos (by simpa using hname)]
        by_cases hp : p r
        · rw [List.filter_cons_of_pos hp, List.find?_cons_of_pos (by simpa using hname),
            Option.filter_some, if_pos hp]
        · rw [List.filter_cons_of_neg hp, hnone, Option.filter_some, if_neg hp]
      · rw [List.find?_cons_of_neg (by simpa using hname), ← ih hrest]
        by_cases hp : p r
        · rw [List.filter_cons_of_pos hp, List.find?_cons_of_neg (by simpa using hname)]
        · rw [List.filter_cons_of_neg hp]

theorem Ordered.strictlySorted_records (h : Ordered getHash names file)
    (hnaming : Naming getHash names) :
    StrictlySorted (·.name) (InfoFileSorter.records (·.name) file.iterators) :=
  InfoFileSorter.strictlySorted_sorted (h.strictlySorted hnaming) _

theorem Ordered.compaction (h : Ordered getHash names file) (hnaming : Naming getHash names) :
    Ordered getHash names file.compaction := by
  refine ⟨rfl, ?_, fun r hr => ?_⟩
  · rw [sorted_compaction]
    exact (h.strictlySorted_records hnaming).filter _
  · obtain ⟨it, hit, hin⟩ := InfoFileSorter.mem_of_mem_sorted (List.mem_of_mem_filter hr)
    rcases List.mem_pair.mp hit with rfl | rfl
    · exact h.known_sorted r hin
    · exact h.known_unsorted r
        (List.mem_reverse.mp (List.mem_of_find?_eq_some (mem_sortedMap.mp hin)))

theorem Ordered.live_compaction (h : Ordered getHash names file) (hnaming : Naming getHash names)
    (name : String) : file.compaction.live name = file.live name := by
  have hcurrent : file.compaction.current name = file.live name := by
    rw [current, unsorted_compaction, sorted_compaction, List.reverse_nil, List.find?_nil,
      Option.none_or, compacted_eq, find_filter (h.strictlySorted_records hnaming),
      h.find_records hnaming, live]
  rw [live, hcurrent, live, Option.filter_filter]
  simp

/-! ### Records that are appended -/

theorem Ordered.sortedRecord_le (h : Ordered getHash names file) :
    file.trailer.sortedRecord ≤ file.blocks.length := h.length ▸ Nat.le_add_right _ _

theorem Ordered.sorted_append (h : Ordered getHash names file) (records : List ContainerRecord) :
    (file.append records).sorted = file.sorted := List.take_append_of_le_length h.sortedRecord_le

theorem Ordered.append (h : Ordered getHash names file) {records : List ContainerRecord}
    (hknown : ∀ r ∈ records, Known getHash names r) :
    Ordered getHash names (file.append records) := by
  refine ⟨?_, ?_, fun r hr => ?_⟩
  · simp [AccountFile.append, h.length]
    omega
  · rw [h.sorted_append]
    exact h.sorted
  · rcases List.mem_append.mp hr with hold | hnew
    · exact h.known r hold
    · exact hknown r hnew

theorem Ordered.current_append (h : Ordered getHash names file) {records : List ContainerRecord}
    (hknown : ∀ r ∈ records, Known getHash names r) (name : String) :
    (file.append records).current name =
      (records.reverse.find? fun r => r.name = name).or (file.current name) := by
  have hunsorted : (file.append records).unsorted = file.unsorted ++ records := by
    rw [(h.append hknown).unsorted_eq, h.unsorted_eq]
    exact List.drop_append_of_le_length h.sortedRecord_le
  rw [current, h.sorted_append, hunsorted, List.reverse_append, List.find?_append, Option.or_assoc]
  rfl

theorem Ordered.prepareAppend (h : Ordered getHash names file) (hnaming : Naming getHash names) :
    Ordered getHash names file.prepareAppend := by
  unfold AccountFile.prepareAppend
  split
  · exact h.compaction hnaming
  · exact h

theorem Ordered.live_prepareAppend (h : Ordered getHash names file)
    (hnaming : Naming getHash names) (name : String) :
    file.prepareAppend.live name = file.live name := by
  unfold AccountFile.prepareAppend
  split
  · exact h.live_compaction hnaming name
  · rfl

theorem Ordered.live_addContainerInternal (h : Ordered getHash names file)
    (hnaming : Naming getHash names) {records : List ContainerRecord}
    (hknown : ∀ r ∈ records, Known getHash names r) (name : String) :
    (file.addContainerInternal records).live name =
      match records.reverse.find? fun r => r.name = name with
      | some r => (some r).filter (! ·.deleted)
      | none => file.live name := by
  rw [addContainerInternal, live, (h.prepareAppend hnaming).current_append hknown]
  split
  next r hr => rw [hr, Option.some_or]
  next hnone =>
    rw [hnone, Option.none_or]
    exact h.live_prepareAppend hnaming name

end AccountFile

end ObjectStorage.AccountInfo
