import ObjectStorage.InfoFile.ObjectMap

/-!
The objects of a container's info file through its operations. Flushed records are put over the
objects, and compaction keeps them and counts them.
-/

namespace ObjectStorage.InfoFile

open Std Library InfoFileSorter ObjectStorage.Journal Container.Statistics

namespace ContainerFile

def sortedData (file : ContainerFile) : List DataRecord :=
  file.data.take file.trailer.sortedRecord

def unsortedData (file : ContainerFile) : List DataRecord :=
  file.data.drop file.trailer.sortedRecord

/-- The record of a name that compaction and listing see. -/
def current (file : ContainerFile) (name : String) : Option DataRecord :=
  (file.unsortedData.reverse.find? fun r => r.name = name).or
    (file.sortedData.find? fun r => r.name = name)

/-- The record of an object that is not deleted. -/
def live (file : ContainerFile) (name : String) : Option DataRecord :=
  (file.current name).filter (! ·.isDeleted)

/-- The file has these objects. -/
def Represents (file : ContainerFile) (objects : ObjectMap) : Prop :=
  ∀ name, file.live name = objects.lookup name

/-- The sorted records are in order, and the names fit into what the sorter compares. -/
structure Sound (file : ContainerFile) : Prop where
  length : file.data.length = file.trailer.sortedRecord + file.trailer.unsortedRecord
  sorted : StrictlySorted DataRecord.name file.sortedData
  short : ∀ r ∈ file.data, Short DataRecord.name r
  version : file.trailer.version ≠ 0

variable {getHash : String → String} {file file' : ContainerFile}
  {objects : ObjectMap} {name : String} {r : DataRecord}

theorem name_of_current (h : file.current name = some r) : r.name = name := by
  rcases Option.or_eq_some_iff.mp h with hfind | ⟨-, hfind⟩
  · simpa using List.find?_some hfind
  · simpa using List.find?_some hfind

theorem live_eq_some : file.live name = some r ↔
    file.current name = some r ∧ r.isDeleted = false := by
  rw [live, Option.filter_eq_some_iff, Bool.not_eq_true']

theorem name_of_live (h : file.live name = some r) : r.name = name :=
  name_of_current (live_eq_some.mp h).1

theorem Sound.short_sorted (h : Sound file) : ∀ r ∈ file.sortedData, Short DataRecord.name r :=
  fun r hr => h.short r (List.mem_of_mem_take hr)

theorem Sound.short_unsorted (h : Sound file) : ∀ r ∈ file.unsortedData, Short DataRecord.name r :=
  fun r hr => h.short r (List.mem_of_mem_drop hr)

theorem Sound.byName_sorted (h : Sound file) : ByName DataRecord.name file.sortedData :=
  byName_of_strictlySorted h.sorted h.short_sorted

theorem sound_addContainer (metadata : Metadata) (offset : JournalOffset) :
    Sound (addContainer metadata offset) := by
  refine ⟨rfl, .nil, ?_, ?_⟩
  · intro r hr
    cases hr
  · show supportedVersion ≠ 0
    decide

theorem represents_addContainer (metadata : Metadata) (offset : JournalOffset) :
    Represents (addContainer metadata offset) ∅ := fun _ => rfl

/-! ### Flushed records -/

theorem Sound.le_length (h : Sound file) : file.trailer.sortedRecord ≤ file.data.length := by
  rw [h.length]
  exact Nat.le_add_right _ _

theorem Sound.sortedData_append (h : Sound file) (records : RecordList) :
    (file.append getHash records).sortedData = file.sortedData :=
  List.take_append_of_le_length h.le_length

theorem Sound.unsortedData_append (h : Sound file) (records : RecordList) :
    (file.append getHash records).unsortedData =
      file.unsortedData ++ records.map fun e => dataRecord e.2 :=
  List.drop_append_of_le_length h.le_length

theorem Sound.append (h : Sound file) {records : RecordList}
    (hshort : ∀ e ∈ records, Short ObjectRecord.name e.2) :
    Sound (file.append getHash records) := by
  have hordered : ContainerFile.Ordered (file.append getHash records) :=
    ContainerFile.Ordered.append ⟨h.length, h.sorted.keySorted⟩ records
  refine ⟨hordered.length, ?_, ?_, ?_⟩
  · rw [h.sortedData_append]
    exact h.sorted
  · intro r hr
    rcases List.mem_append.mp hr with hold | hnew
    · exact h.short r hold
    · obtain ⟨e, he, rfl⟩ := List.mem_map.mp hnew
      exact hshort e he
  · show supportedVersion ≠ 0
    decide

theorem Sound.live_append (h : Sound file) (records : RecordList) (name : String) :
    (file.append getHash records).live name =
      ((records.map fun e => dataRecord e.2).reverse.find? fun r => r.name = name).elim
        (file.live name) fun record => (some record).filter (! ·.isDeleted) := by
  rw [live, current, h.sortedData_append, h.unsortedData_append, List.reverse_append,
    List.find?_append]
  cases (records.map fun e => dataRecord e.2).reverse.find? fun r => r.name = name with
  | some record => rfl
  | none =>
      rw [Option.none_or]
      rfl

theorem Represents.append (h : Represents file objects) (hsound : Sound file)
    (records : RecordList) : Represents (file.append getHash records)
      (objects.replay (records.map fun e => dataRecord e.2)) := by
  intro name
  rw [hsound.live_append, ObjectMap.lookup_replay, h name]

/-! ### Compaction -/

/-- The records with their index records. -/
def entries (file : ContainerFile) : List (DataRecord × IndexSlot) := file.data.zip file.readIndex

/-- The iterators of compaction. -/
def entryIterators (file : ContainerFile) : List (List (DataRecord × IndexSlot)) :=
  [file.entries.take file.trailer.sortedRecord,
    sortedMap (·.1.name) (file.entries.drop file.trailer.sortedRecord)]

theorem Sound.map_entries (h : Sound file) : file.entries.map (·.1) = file.data :=
  List.map_fst_zip (by rw [h.length, length_readIndex])

theorem Sound.short_entries (h : Sound file) :
    ∀ e ∈ file.entries, Short (fun e : DataRecord × IndexSlot => e.1.name) e := by
  intro e he
  apply h.short e.1
  rw [← h.map_entries]
  exact List.mem_map_of_mem he

theorem Sound.short_entryIterators (h : Sound file) : ∀ it ∈ file.entryIterators, ∀ e ∈ it,
    Short (fun e : DataRecord × IndexSlot => e.1.name) e := by
  intro it hit e he
  rcases List.mem_pair.mp hit with rfl | rfl
  · exact h.short_entries e (List.mem_of_mem_take he)
  · apply short_of_mem_sortedMap _ e he
    exact fun e' he' => h.short_entries e' (List.mem_of_mem_drop he')

theorem Sound.byName_entryIterators (h : Sound file) : ∀ it ∈ file.entryIterators,
    ByName (fun e : DataRecord × IndexSlot => e.1.name) it := by
  intro it hit
  rcases List.mem_pair.mp hit with rfl | rfl
  · have hsorted := h.byName_sorted
    rw [sortedData, ← h.map_entries, ← List.map_take, ByName, List.pairwise_map] at hsorted
    exact hsorted
  · exact byName_sortedMap _

theorem find?_map_fst (es : List (DataRecord × IndexSlot)) (name : String) :
    (es.find? fun e => e.1.name = name).map (·.1) =
      (es.map (·.1)).find? fun r => r.name = name := by
  rw [List.find?_map]
  rfl

theorem Sound.latestOf_entryIterators (h : Sound file) (name : String) :
    (latestOf (fun e : DataRecord × IndexSlot => e.1.name) name file.entryIterators).map (·.1) =
      file.current name := by
  have hlatest : latestOf (fun e : DataRecord × IndexSlot => e.1.name) name file.entryIterators =
      ((file.entries.drop file.trailer.sortedRecord).reverse.find? fun e => e.1.name = name).or
        ((file.entries.take file.trailer.sortedRecord).find? fun e => e.1.name = name) := by
    simp only [latestOf, entryIterators, List.foldl_cons, List.foldl_nil, Option.or_none,
      find?_sortedMap]
  rw [hlatest, Option.map_or, find?_map_fst, find?_map_fst, List.map_reverse, List.map_drop,
    List.map_take, h.map_entries]
  rfl

theorem Sound.map_compacted (h : Sound file) : (file.compacted getHash).map (·.1) =
    ((InfoFileSorter.records (·.1.name) file.entryIterators).filter (! ·.1.isDeleted)).map
      (·.1) := by
  have hsame : upgradeIndex getHash file.trailer.version = id := by
    funext e
    exact if_neg h.version
  rw [compacted, hsame, List.map_id]
  rfl

theorem Sound.mem_compacted (h : Sound file) :
    r ∈ (file.compacted getHash).map (·.1) ↔ file.live r.name = some r := by
  rw [h.map_compacted, live_eq_some]
  constructor
  · intro hr
    obtain ⟨e, he, rfl⟩ := List.mem_map.mp hr
    obtain ⟨he, hkept⟩ := List.mem_filter.mp he
    have hlatest := (mem_records h.byName_entryIterators h.short_entryIterators).mp he
    refine ⟨?_, by simpa using hkept⟩
    rw [← h.latestOf_entryIterators, hlatest]
    rfl
  · rintro ⟨hcurrent, hkept⟩
    rw [← h.latestOf_entryIterators] at hcurrent
    obtain ⟨e, hlatest, rfl⟩ := Option.map_eq_some_iff.mp hcurrent
    apply List.mem_map_of_mem
    exact List.mem_filter.mpr
      ⟨(mem_records h.byName_entryIterators h.short_entryIterators).mpr hlatest,
        by simpa using hkept⟩

theorem Sound.byName_compacted (h : Sound file) :
    ByName DataRecord.name ((file.compacted getHash).map (·.1)) := by
  have hsorted : ByName (fun e : DataRecord × IndexSlot => e.1.name)
      (InfoFileSorter.records (·.1.name) file.entryIterators) := by
    rw [← fromStart_nil]
    exact byName_fromStart h.byName_entryIterators h.short_entryIterators
  rw [h.map_compacted]
  apply List.pairwise_map.mpr
  exact hsorted.filter _

theorem Sound.short_compacted (h : Sound file) (hr : r ∈ (file.compacted getHash).map (·.1)) :
    Short DataRecord.name r := by
  rcases Option.or_eq_some_iff.mp (live_eq_some.mp (h.mem_compacted.mp hr)).1 with
    hfind | ⟨-, hfind⟩
  · exact h.short_unsorted r (List.mem_reverse.mp (List.mem_of_find?_eq_some hfind))
  · exact h.short_sorted r (List.mem_of_find?_eq_some hfind)

theorem sortedData_compaction (file : ContainerFile) (numRecord : Nat) :
    (file.compaction getHash numRecord).sortedData =
      (file.compacted getHash).map (·.1) := by
  apply List.take_of_length_le
  rw [show (file.compaction getHash numRecord).data =
    (file.compacted getHash).map (·.1) from rfl, List.length_map]
  exact Nat.le_refl _

theorem unsortedData_compaction (file : ContainerFile) (numRecord : Nat) :
    (file.compaction getHash numRecord).unsortedData = [] := by
  apply List.drop_of_length_le
  rw [show (file.compaction getHash numRecord).data =
    (file.compacted getHash).map (·.1) from rfl, List.length_map]
  exact Nat.le_refl _

theorem Sound.compaction (h : Sound file) (numRecord : Nat) :
    Sound (file.compaction getHash numRecord) := by
  have hordered : ContainerFile.Ordered (file.compaction getHash numRecord) :=
    ContainerFile.Ordered.compaction ⟨h.length, h.sorted.keySorted⟩ numRecord
  refine ⟨hordered.length, ?_, fun r hr => h.short_compacted hr, ?_⟩
  · rw [sortedData_compaction]
    apply h.byName_compacted.imp_of_mem
    intro a b ha hb hlt
    rwa [(h.short_compacted ha).sortKey_eq, (h.short_compacted hb).sortKey_eq]
  · show supportedVersion ≠ 0
    decide

theorem Sound.live_compaction (h : Sound file) (numRecord : Nat) (name : String) :
    (file.compaction getHash numRecord).live name = file.live name := by
  apply Option.ext
  intro r
  rw [live_eq_some, current, sortedData_compaction, unsortedData_compaction, List.reverse_nil,
    List.find?_nil, Option.none_or, find?_eq_some_iff_of_nodup h.byName_compacted.nodup,
    h.mem_compacted]
  constructor
  · rintro ⟨⟨hlive, rfl⟩, -⟩
    exact hlive
  · intro hlive
    have hname : r.name = name := name_of_live hlive
    exact ⟨⟨hname ▸ hlive, hname⟩, (live_eq_some.mp hlive).2⟩

theorem Represents.compaction (h : Represents file objects) (hsound : Sound file)
    (numRecord : Nat) : Represents (file.compaction getHash numRecord) objects := by
  intro name
  rw [hsound.live_compaction, h name]

/-! ### Operations -/

/-- The records of an operation. -/
def handed : Operation → RecordList
  | .flushContainer _ _ records => records
  | _ => []

theorem dropIndexed_sublist (index : IndexRecord) (seen : List String) (records : RecordList) :
    (dropIndexed getHash index seen records).1.Sublist records := by
  induction records with
  | nil => exact .slnil
  | cons e records ih =>
      rw [dropIndexed]
      split
      · split
        · split
          · exact ih.cons_cons e
          · exact ih.cons e
        · exact List.Sublist.refl _
      · exact ih.cons_cons e

theorem dropAllIndexed_sublist (indexes : List IndexRecord) (seen : List String)
    (records : RecordList) : (dropAllIndexed getHash indexes seen records).Sublist records := by
  induction indexes generalizing seen records with
  | nil => exact List.Sublist.refl _
  | cons index indexes ih =>
      rw [dropAllIndexed]
      exact (ih _ _).trans (dropIndexed_sublist index seen records)

theorem flushRecords_sublist (file : ContainerFile) (nodeId : Nat) (unknownStatus : Bool)
    (records : RecordList) :
    (file.flushRecords getHash nodeId unknownStatus records).Sublist records := by
  unfold flushRecords Container.Statistics.flushContainer
  split_ifs
  · exact (List.dropWhile_suffix _).sublist
  · exact dropAllIndexed_sublist _ _ _
  · exact List.Sublist.refl _

/-- A sound file whose names were there before or are those of the records. -/
structure SoundAfter (file : ContainerFile) (records : RecordList) (file' : ContainerFile) :
    Prop where
  sound : Sound file'
  names : ∀ r ∈ file'.data, (∃ r' ∈ file.data, r'.name = r.name) ∨ ∃ e ∈ records, e.2.name = r.name

variable {records : RecordList}

theorem SoundAfter.compaction (h : SoundAfter file records file') (numRecord : Nat) :
    SoundAfter file records (file'.compaction getHash numRecord) := by
  refine ⟨h.sound.compaction numRecord, fun r hr => h.names r ?_⟩
  rcases Option.or_eq_some_iff.mp (live_eq_some.mp (h.sound.mem_compacted.mp hr)).1 with
    hfind | ⟨-, hfind⟩
  · exact List.mem_of_mem_drop (List.mem_reverse.mp (List.mem_of_find?_eq_some hfind))
  · exact List.mem_of_mem_take (List.mem_of_find?_eq_some hfind)

theorem SoundAfter.append (h : SoundAfter file records file')
    (hshort : ∀ e ∈ records, Short ObjectRecord.name e.2) {new : RecordList}
    (hnew : new.Sublist records) :
    SoundAfter file records (file'.append getHash new) := by
  refine ⟨h.sound.append fun e he => hshort e (hnew.subset he), fun r hr => ?_⟩
  rcases List.mem_append.mp hr with hold | hin
  · exact h.names r hold
  · obtain ⟨e, he, rfl⟩ := List.mem_map.mp hin
    exact .inr ⟨e, hnew.subset he, rfl⟩

theorem Sound.after (h : Sound file) (records : RecordList) : SoundAfter file records file :=
  ⟨h, fun r hr => .inl ⟨r, hr, rfl⟩⟩

theorem Sound.flushContainer (h : Sound file) (nodeId : Nat) (unknownStatus : Bool)
    (hshort : ∀ e ∈ records, Short ObjectRecord.name e.2) : SoundAfter file records
      (file.flushContainer getHash nodeId unknownStatus records) := by
  have hprepared : SoundAfter file records
      (file.prepareFlush getHash records.length) := by
    unfold prepareFlush
    split
    · exact (h.after records).compaction records.length
    · exact h.after records
  unfold ContainerFile.flushContainer
  generalize file.prepareFlush getHash records.length = file₀ at hprepared
  have hleft : (file₀.flushRecords getHash nodeId unknownStatus records).Sublist records :=
    flushRecords_sublist file₀ nodeId unknownStatus records
  simp only
  split
  · split
    · exact hprepared.compaction 0
    · exact hprepared
  · split
    · exact (hprepared.append hshort hleft).compaction 0
    · exact hprepared.append hshort hleft

theorem Sound.step (h : Sound file) {operation : Operation}
    (hshort : ∀ e ∈ handed operation, Short ObjectRecord.name e.2)
    (hstep : file.step getHash operation = some file') :
    SoundAfter file (handed operation) file' := by
  cases operation with
  | flushContainer nodeId unknownStatus records =>
      obtain rfl := Option.some.inj hstep
      exact h.flushContainer nodeId unknownStatus hshort
  | compaction numRecord =>
      obtain rfl := Option.some.inj hstep
      exact (h.after []).compaction numRecord
  | setContainerStat new =>
      simp only [ContainerFile.step, setContainerStat] at hstep
      split at hstep
      next =>
        obtain rfl := Option.some.inj hstep
        have hversion : supportedVersion ≠ 0 := by decide
        exact ⟨⟨h.length, h.sorted, h.short, hversion⟩, (h.after []).names⟩
      next => cases hstep

/-- What names of records have to meet, the names in a file meet that was made by operations. -/
theorem sound_of_run {p : String → Prop} (hp : ∀ n, p n → utf8 n ≠ [] ∧ (utf8 n).length ≤ 256)
    {metadata : Metadata} {offset : JournalOffset} {operations : List Operation}
    (hnames : ∀ operation ∈ operations, ∀ e ∈ handed operation, p e.2.name)
    (hrun : run (ContainerFile.step getHash)
      (addContainer metadata offset) operations = some file) :
    Sound file ∧ ∀ r ∈ file.data, p r.name := by
  have hkept : ∀ (file : ContainerFile) (operation : Operation) (file' : ContainerFile),
      (Sound file ∧ ∀ r ∈ file.data, p r.name) → (∀ e ∈ handed operation, p e.2.name) →
        file.step getHash operation = some file' →
          Sound file' ∧ ∀ r ∈ file'.data, p r.name := by
    rintro file operation file' ⟨hsound, hdata⟩ hop hstep
    have hafter := hsound.step (fun e he => hp _ (hop e he)) hstep
    refine ⟨hafter.sound, fun r hr => ?_⟩
    rcases hafter.names r hr with ⟨r', hr', hname⟩ | ⟨e, he, hname⟩
    · exact hname ▸ hdata r' hr'
    · exact hname ▸ hop e he
  have hstart : Sound (addContainer metadata offset) ∧
      ∀ r ∈ (addContainer metadata offset).data, p r.name :=
    ⟨sound_addContainer metadata offset, fun r hr => by cases hr⟩
  apply run_along_preserves _ hkept hstart _ hrun
  clear hrun
  generalize addContainer metadata offset = file₀
  induction operations generalizing file₀ with
  | nil => trivial
  | cons operation operations ih =>
      obtain ⟨hfirst, hrest⟩ := List.forall_mem_cons.mp hnames
      exact ⟨hfirst, fun file' _ => ih hrest file'⟩

end ContainerFile

end ObjectStorage.InfoFile
