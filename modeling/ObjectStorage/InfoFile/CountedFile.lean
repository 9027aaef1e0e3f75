import ObjectStorage.InfoFile.LiveObjects
import ObjectStorage.Library.EffectOrder

/-!
The statistics in a container's info file: how flushed records change them, and what compaction
counts. Numbers, which have 64 bits in the file, are unbounded.
-/

namespace ObjectStorage.InfoFile

open Std Library InfoFileSorter ObjectStorage.Journal Container.Statistics

/-! ### Statistics -/

/-- `object_count` and `bytes_used` of an info file. -/
abbrev FileStat := Int × Int

/-- What `flush_container` makes of the statistics for a record. -/
def FileStat.count (stat : FileStat) (record : ObjectRecord) : FileStat :=
  if record.deleted = objectAdd then (stat.1 + 1, stat.2 + record.size.toNat)
  else if record.deleted = objectDelete then
    (if 0 < stat.1 then stat.1 - 1 else stat.1,
      if record.size.toNat ≤ stat.2 then stat.2 - record.size.toNat else 0)
  else if record.deleted = objectModify then
    (stat.1, max 0 (stat.2 + (record.size.toNat - record.oldSize.toNat)))
  else stat

namespace ObjectMap

/-- The number of objects and their total size. -/
def stat (objects : ObjectMap) : FileStat :=
  (FiniteMap.weight (fun _ _ => 1) objects, FiniteMap.weight (fun _ r => r.size.toNat) objects)

/-- An object is added that is not there, or one that is there is modified or deleted, and the
record carries its size. -/
def Admits (objects : ObjectMap) (record : ObjectRecord) : Prop :=
  (record.deleted = objectAdd ∧ objects.lookup record.name = none) ∨
  (record.deleted = objectModify ∧
    ∃ r, objects.lookup record.name = some r ∧ r.size = record.oldSize) ∨
  (record.deleted = objectDelete ∧
    ∃ r, objects.lookup record.name = some r ∧ r.size = record.size)

/-- The objects after records of the journal. -/
def ofJournal (records : RecordList) : ObjectMap :=
  ObjectMap.replay ∅ (records.map fun e => dataRecord e.2)

variable {objects : ObjectMap} {record : ObjectRecord}

theorem replay_append (objects : ObjectMap) (records records' : List DataRecord) :
    objects.replay (records ++ records') = (objects.replay records).replay records' :=
  List.foldl_append

theorem ofJournal_append (front records : RecordList) : ofJournal (front ++ records) =
    (ofJournal front).replay (records.map fun e => dataRecord e.2) := by
  rw [ofJournal, List.map_append, replay_append, ofJournal]

theorem stat_insert_of_none {name : String} (h : objects.lookup name = none) (r : DataRecord) :
    stat (objects.insert name r) = (objects.stat.1 + 1, objects.stat.2 + r.size.toNat) := by
  have hcount := FiniteMap.weight_insert (fun _ _ => 1) objects name r
  have hbytes := FiniteMap.weight_insert (fun _ r => r.size.toNat) objects name r
  rw [FiniteMap.weightAt_of_none h] at hcount hbytes
  simp only [stat, Prod.mk.injEq]
  omega

theorem stat_insert_of_some {name : String} {old : DataRecord}
    (h : objects.lookup name = some old) (r : DataRecord) : stat (objects.insert name r) =
      (objects.stat.1, objects.stat.2 + (r.size.toNat - old.size.toNat)) := by
  have hcount := FiniteMap.weight_insert (fun _ _ => 1) objects name r
  have hbytes := FiniteMap.weight_insert (fun _ r => r.size.toNat) objects name r
  rw [FiniteMap.weightAt_of_lookup h] at hcount hbytes
  simp only [stat, Prod.mk.injEq]
  omega

theorem stat_erase_of_some {name : String} {old : DataRecord}
    (h : objects.lookup name = some old) :
    0 < objects.stat.1 ∧ old.size.toNat ≤ objects.stat.2 ∧
      stat (objects.erase name) = (objects.stat.1 - 1, objects.stat.2 - old.size.toNat) := by
  have hcount := FiniteMap.weight_erase (fun _ _ => 1) objects name
  have hbytes := FiniteMap.weight_erase (fun _ r => r.size.toNat) objects name
  rw [FiniteMap.weightAt_of_lookup h] at hcount hbytes
  simp only [stat, Prod.mk.injEq]
  omega

theorem stat_nonneg (objects : ObjectMap) : 0 ≤ objects.stat.2 := Int.natCast_nonneg _

/-- The statistics follow the objects. -/
theorem stat_apply (h : objects.Admits record) :
    objects.stat.count record = (objects.apply (dataRecord record)).stat := by
  rcases h with ⟨hadd, hlookup⟩ | ⟨hmodify, r, hlookup, hsize⟩ | ⟨hdelete, r, hlookup, hsize⟩
  · have hkept : (dataRecord record).isDeleted = false := by
      rw [DataRecord.isDeleted, show (dataRecord record).deleted = objectAdd from hadd]
      rfl
    rw [FileStat.count, if_pos hadd, apply, hkept, if_neg (by decide)]
    exact (stat_insert_of_none hlookup (dataRecord record)).symm
  · have hkept : (dataRecord record).isDeleted = false := by
      rw [DataRecord.isDeleted, show (dataRecord record).deleted = objectModify from hmodify]
      rfl
    rw [FileStat.count, if_neg (by rw [hmodify]; decide), if_neg (by rw [hmodify]; decide),
      if_pos hmodify, apply, hkept, if_neg (by decide)]
    have hstat : stat (objects.insert record.name (dataRecord record)) = (objects.stat.1,
        objects.stat.2 + (record.size.toNat - record.oldSize.toNat)) :=
      hsize ▸ stat_insert_of_some hlookup _
    have hnonneg := stat_nonneg (objects.insert record.name (dataRecord record))
    show _ = stat (objects.insert record.name (dataRecord record))
    rw [hstat] at hnonneg ⊢
    rw [max_eq_right hnonneg]
  · have hdeleted : (dataRecord record).isDeleted = true := by
      rw [DataRecord.isDeleted, show (dataRecord record).deleted = objectDelete from hdelete]
      rfl
    obtain ⟨hpos, hle, hstat⟩ := stat_erase_of_some hlookup
    rw [hsize] at hle hstat
    rw [FileStat.count, if_neg (by rw [hdelete]; decide), if_pos hdelete, if_pos hpos, if_pos hle,
      apply, hdeleted, if_pos rfl]
    exact hstat.symm

/-- The statistics after records that each fit the objects there are. -/
theorem stat_ofJournal {journal : RecordList}
    (h : Preceded (fun front e => (ofJournal front).Admits e.2) journal) {front records back :
      RecordList} (hsplit : journal = front ++ records ++ back) :
    records.foldl (fun stat e => FileStat.count stat e.2) (ofJournal front).stat =
      (ofJournal (front ++ records)).stat := by
  induction records generalizing front with
  | nil => rw [List.append_nil, List.foldl_nil]
  | cons e records ih =>
      have hadmits : (ofJournal front).Admits e.2 := h front e (records ++ back) (by simp [hsplit])
      have hone : (ofJournal (front ++ [e])) = (ofJournal front).apply (dataRecord e.2) := by
        rw [ofJournal_append]
        rfl
      rw [List.foldl_cons, stat_apply hadmits, ← hone, ih (by simp [hsplit]), List.append_assoc]
      rfl

end ObjectMap

/-! ### Files with their statistics -/

/-- An info file with the statistics in its block. -/
structure CountedFile where
  file : ContainerFile
  stat : FileStat

namespace CountedFile

section

variable (getHash : String → String)

/-- What compaction counts. -/
def compactionStat (file : ContainerFile) : FileStat :=
  let sizes : List Nat := (file.compacted getHash).map fun e => e.1.size.toNat
  (sizes.length, sizes.sum)

def addContainer (metadata : Metadata) (offset : JournalOffset) : CountedFile :=
  ⟨ContainerFile.addContainer metadata offset, (0, 0)⟩

def compaction (c : CountedFile) (numRecord : Nat) : CountedFile :=
  ⟨c.file.compaction getHash numRecord, compactionStat getHash c.file⟩

def prepareFlush (c : CountedFile) (numRecord : Nat) : CountedFile :=
  if c.file.trailer.version < supportedVersion ∨
      5000 ≤ c.file.trailer.unsortedRecord + numRecord then
    c.compaction getHash numRecord
  else c

def append (c : CountedFile) (records : RecordList) : CountedFile :=
  ⟨c.file.append getHash records,
    records.foldl (fun stat e => FileStat.count stat e.2) c.stat⟩

/-- `flush_container`. -/
def flushContainer (c : CountedFile) (nodeId : Nat) (unknownStatus : Bool)
    (records : RecordList) : CountedFile :=
  let c := c.prepareFlush getHash records.length
  let records := c.file.flushRecords getHash nodeId unknownStatus records
  if records = [] then
    if unknownStatus ∧ c.file.trailer.unsortedRecord ≠ 0 then c.compaction getHash 0
    else c
  else
    let c := c.append getHash records
    if unknownStatus ∨ ContainerFile.hasUnknown records then c.compaction getHash 0
    else c

/-- The statistics are read and written back when the metadata change. -/
def step (c : CountedFile) : ContainerFile.Operation → Option CountedFile
  | .flushContainer nodeId unknownStatus records =>
      some (c.flushContainer getHash nodeId unknownStatus records)
  | .compaction numRecord => some (c.compaction getHash numRecord)
  | .setContainerStat new => (c.file.setContainerStat new).map (⟨·, c.stat⟩)

end

variable {getHash : String → String} {c c' : CountedFile}

theorem file_prepareFlush (c : CountedFile) (numRecord : Nat) :
    (c.prepareFlush getHash numRecord).file =
      c.file.prepareFlush getHash numRecord := by
  unfold prepareFlush ContainerFile.prepareFlush
  split <;> rfl

theorem step_file {operation : ContainerFile.Operation}
    (h : c.step getHash operation = some c') :
    c.file.step getHash operation = some c'.file := by
  cases operation with
  | flushContainer nodeId unknownStatus records =>
      obtain rfl := Option.some.inj h
      simp only [ContainerFile.step, ContainerFile.flushContainer, flushContainer,
        ← file_prepareFlush]
      split
      · split <;> rfl
      · split <;> rfl
  | compaction numRecord =>
      obtain rfl := Option.some.inj h
      rfl
  | setContainerStat new =>
      obtain ⟨file, hfile, rfl⟩ := Option.map_eq_some_iff.mp h
      exact hfile

end CountedFile
/-! ### Compaction counts the objects -/

section

variable {getHash : String → String} {file : ContainerFile}
  {objects : ObjectMap}

theorem map_compacted_perm (hsound : file.Sound) (h : file.Represents objects) :
    (((file.compacted getHash).map (·.1)).map fun r =>
      (⟨r.name, r⟩ : Sigma fun _ : String => DataRecord)).Perm objects.entries := by
  have hnodup : (((file.compacted getHash).map (·.1)).map DataRecord.name).Nodup :=
    hsound.byName_compacted.nodup
  apply (List.perm_ext_iff_of_nodup ?_ ?_).mpr
  · rintro ⟨name, r⟩
    rw [← AList.mem_lookup_iff, ← h name]
    constructor
    · intro hin
      obtain ⟨r', hr', heq⟩ := List.mem_map.mp hin
      cases heq
      exact hsound.mem_compacted.mp hr'
    · intro hlive
      have hname : r.name = name := ContainerFile.name_of_live hlive
      subst hname
      exact List.mem_map.mpr ⟨r, hsound.mem_compacted.mpr hlive, rfl⟩
  · apply List.Nodup.of_map Sigma.fst
    rw [List.map_map]
    exact hnodup
  · exact List.Nodup.of_map Sigma.fst objects.nodupKeys

theorem compactionStat_eq (hsound : file.Sound) (h : file.Represents objects) :
    CountedFile.compactionStat getHash file = objects.stat := by
  have hperm : (((file.compacted getHash).map (·.1)).map fun r =>
      (⟨r.name, r⟩ : Sigma fun _ : String => DataRecord)).Perm objects.entries :=
    map_compacted_perm hsound h
  apply Prod.ext
  · have hlength := hperm.length_eq
    rw [List.length_map, List.length_map] at hlength
    show (((file.compacted getHash).map fun e => e.1.size.toNat).length : Int) =
      (FiniteMap.weight (fun _ _ => 1) objects : Nat)
    rw [List.length_map, hlength, FiniteMap.weight, List.map_const', List.sum_replicate,
      smul_eq_mul, mul_one]
  · have hsum := (hperm.map fun e => e.2.size.toNat).sum_eq
    rw [List.map_map, List.map_map] at hsum
    show (((file.compacted getHash).map fun e => e.1.size.toNat).sum : Nat) =
      ((FiniteMap.weight (fun _ r => r.size.toNat) objects : Nat) : Int)
    exact congrArg (fun n : Nat => (n : Int)) hsum

end

end ObjectStorage.InfoFile
