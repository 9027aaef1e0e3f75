import ObjectStorage.InfoFile.SorterStart
import ObjectStorage.InfoFile.StartPosition
import ObjectStorage.Library.WeightedMap

/-!
The objects of an info file. Of each name the last unsorted record counts or, if there is none, the
sorted one, unless it is that of a deletion. A flush puts its records over the objects, and a
compaction keeps them. Names have at most 256 bytes, which is what the sorter compares, and are not
empty.
-/

namespace ObjectStorage.InfoFile

open Std Library InfoFileSorter ObjectStorage.Journal Container.Statistics

/-! ### Objects -/

/-- What a container holds: the last record of each object by its name. -/
abbrev ObjectMap := FiniteMap String DataRecord

/-- What the info file keeps of the record of an object. -/
def dataRecord (record : ObjectRecord) : DataRecord := ⟨record.name, record.size, record.deleted⟩

namespace ObjectMap

def apply (objects : ObjectMap) (record : DataRecord) : ObjectMap :=
  if record.isDeleted then objects.erase record.name else objects.insert record.name record

/-- The objects after records, one after the other. -/
def replay (objects : ObjectMap) (records : List DataRecord) : ObjectMap :=
  records.foldl apply objects

variable {objects : ObjectMap} {name : String}

theorem lookup_apply (objects : ObjectMap) (record : DataRecord) (name : String) :
    (objects.apply record).lookup name =
      if record.name = name then (some record).filter (! ·.isDeleted)
      else objects.lookup name := by
  unfold apply
  split
  next hdeleted =>
    split
    next hname =>
      subst hname
      rw [AList.lookup_erase, Option.filter_some, hdeleted]
      rfl
    next hne => rw [AList.lookup_erase_ne (Ne.symm hne)]
  next hkept =>
    split
    next hname =>
      subst hname
      rw [AList.lookup_insert, Option.filter_some]
      simp [hkept]
    next hne => rw [AList.lookup_insert_ne (Ne.symm hne)]

theorem lookup_replay (objects : ObjectMap) (records : List DataRecord) (name : String) :
    (objects.replay records).lookup name = (records.reverse.find? fun r => r.name = name).elim
      (objects.lookup name) fun record => (some record).filter (! ·.isDeleted) := by
  induction records using List.reverseRecOn with
  | nil => rfl
  | append_singleton records record ih =>
      rw [replay, List.foldl_append, List.foldl_cons, List.foldl_nil, lookup_apply,
        List.reverse_append, List.reverse_singleton, List.singleton_append, List.find?_cons]
      by_cases hname : record.name = name
      · rw [if_pos hname, decide_eq_true hname]
        rfl
      · rw [if_neg hname, decide_eq_false hname]
        exact ih

end ObjectMap

/-! ### Sorted records -/

namespace InfoFileSorter

variable {ρ : Type} {name : ρ → String}

theorem ByName.nodup {records : List ρ} (h : ByName name records) : (records.map name).Nodup := by
  apply List.pairwise_map.mpr
  apply h.imp
  intro a b hlt heq
  exact List.lt_irrefl _ (heq ▸ hlt)

/-- Of names that are all different, the search finds a record exactly if it is there. -/
theorem find?_eq_some_iff_of_nodup {records : List ρ} (h : (records.map name).Nodup) {n : String}
    {r : ρ} : (records.find? fun r => name r = n) = some r ↔ r ∈ records ∧ name r = n := by
  constructor
  · intro hfind
    exact ⟨List.mem_of_find?_eq_some hfind, by simpa using List.find?_some hfind⟩
  · rintro ⟨hr, hn⟩
    cases hfind : records.find? fun r => name r = n with
    | none => exact absurd (decide_eq_true hn) (List.find?_eq_none.mp hfind r hr)
    | some r' =>
        have hn' : name r' = n := by simpa using List.find?_some hfind
        rw [List.inj_on_of_nodup_map h (List.mem_of_find?_eq_some hfind) hr (hn'.trans hn.symm)]

theorem short_of_mem_sortedMap {records : List ρ} (h : ∀ r ∈ records, Short name r) :
    ∀ r ∈ sortedMap name records, Short name r := fun r hr =>
  h r (List.mem_reverse.mp (List.mem_of_find?_eq_some (mem_sortedMap.mp hr)))

theorem byName_sortedMap (records : List ρ) : ByName name (sortedMap name records) :=
  (pairwise_sortedMap name records).imp utf8_lt

theorem find?_sortedMap (records : List ρ) (n : String) :
    ((sortedMap name records).find? fun r => name r = n) =
      records.reverse.find? fun r => name r = n := by
  apply Option.ext
  intro r
  rw [find?_eq_some_iff_of_nodup (byName_sortedMap records).nodup, mem_sortedMap]
  constructor
  · rintro ⟨hfind, rfl⟩
    exact hfind
  · intro hfind
    have hn : name r = n := by simpa using List.find?_some hfind
    exact ⟨hn ▸ hfind, hn⟩

theorem byName_of_strictlySorted {records : List ρ} (h : StrictlySorted name records)
    (hshort : ∀ r ∈ records, Short name r) : ByName name records := by
  apply h.imp_of_mem
  intro a b ha hb hlt
  rwa [(hshort a ha).sortKey_eq, (hshort b hb).sortKey_eq] at hlt

theorem Short.fromStart {r : ρ} (h : Short name r) : FromStart [] false (utf8 (name r)) := by
  show [] < utf8 (name r)
  cases hname : utf8 (name r) with
  | nil => exact absurd hname h.1
  | cons b bs => exact List.nil_lt_cons b bs

/-- Without a marker the sorter starts with the first records. -/
theorem fromStart_nil (iterators : List (List ρ)) :
    fromStart name [] false iterators = records name iterators := by
  have hstart : iterators.map (start name [] false) = iterators := by
    conv_rhs => rw [← List.map_id iterators]
    apply List.map_congr_left
    intro it _
    rw [start, if_pos rfl, id]
  rw [fromStart, hstart, InfoFileSorter.records]

theorem mem_of_latestOf {iterators : List (List ρ)} {n : String} {r : ρ}
    (h : latestOf name n iterators = some r) : (∃ it ∈ iterators, r ∈ it) ∧ name r = n := by
  induction iterators using List.reverseRecOn with
  | nil => cases h
  | append_singleton iterators iterator ih =>
      rw [latestOf, List.foldl_append, List.foldl_cons, List.foldl_nil] at h
      rcases Option.or_eq_some_iff.mp h with hfind | ⟨-, hbefore⟩
      · exact ⟨⟨iterator, by simp, List.mem_of_find?_eq_some hfind⟩,
          by simpa using List.find?_some hfind⟩
      · obtain ⟨⟨it, hit, hr⟩, hn⟩ := ih hbefore
        exact ⟨⟨it, List.mem_append_left _ hit, hr⟩, hn⟩

theorem mem_records {iterators : List (List ρ)} (hsorted : ∀ it ∈ iterators, ByName name it)
    (hshort : ∀ it ∈ iterators, ∀ r ∈ it, Short name r) {r : ρ} :
    r ∈ records name iterators ↔ latestOf name (name r) iterators = some r := by
  rw [← fromStart_nil]
  constructor
  · intro hr
    have hr' : Short name r := short_of_mem_fromStart hshort hr
    exact (mem_fromStart hsorted hshort hr' hr'.fromStart).mp hr
  · intro hlatest
    obtain ⟨⟨it, hit, hr⟩, -⟩ := mem_of_latestOf hlatest
    have hr' : Short name r := hshort it hit r hr
    exact (mem_fromStart hsorted hshort hr' hr'.fromStart).mpr hlatest

end InfoFileSorter

end ObjectStorage.InfoFile
