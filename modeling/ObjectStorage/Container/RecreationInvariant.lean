import Mathlib
import ObjectStorage.Container.Recreation

/-!
What holds of the container library in every run that keeps the lives of a container apart. The
part of the state that belongs to one path is looked at on its own; journal and batch are shared.
-/

namespace ObjectStorage.Container

open Std Library

/-- All records of a container, the flushed ones first. -/
def SecureObjectRecord.pairs (e : SecureObjectRecord) : RecordList :=
  e.tmpRecordList ++ e.recordList

/-- What the library keeps of one path. -/
structure View where
  container : ContainerState
  entry : Option SecureObjectRecord
  waiting : Option Nat
  flush : Option Flush

def View.held (v : View) : RecordList := (v.entry.map (·.pairs)).getD []

theorem View.mem_held {v : View} {x : Nat × ObjectRecord} :
    x ∈ v.held ↔ ∃ e ∈ v.entry, x ∈ e.pairs := by
  unfold View.held
  cases v.entry <;> simp

/-- What the containers share, as far as their info files depend on it. -/
structure Shared where
  journal : Journal
  ending : List (String × Nat)
  durable : Nat
  added : List ObjectRecord
  unsynced : List (Nat × Nat)

/-- A record that no crash takes away. -/
def Shared.Survives (w : Shared) (r : ObjectRecord) : Prop :=
  r.stop ≤ w.durable ∧ (JournalRecord.object r).Outside w.unsynced

/-- What the containers share while batches are executed. -/
structure Progress where
  journal : Journal
  batch : BatchStage
  lastSyncOffset : Nat
  commits : List Nat

/-- The sync offset of the last batch that is in memory. -/
def Progress.addedOffset (g : Progress) : Nat :=
  match g.batch with
  | .synced _ prevOff _ => prevOff
  | _ => g.lastSyncOffset

/-! ### Invariants of one path -/

structure EntryOk (path : String) (bound : Nat) (e : SecureObjectRecord) : Prop where
  placed : ∀ x ∈ e.pairs,
    x.2.path = path ∧ x.2.start < x.2.stop ∧ x.2.stop ≤ x.1 ∧ x.1 ≤ bound
  sorted : RecordList.Sorted e.pairs
  after : ∀ x ∈ e.tmpRecordList, ∀ y ∈ e.recordList, x.1 ≤ y.2.start

/-- What must reach the info file: records acknowledged in this life, and those that have been
added to memory and will be. -/
def Life.Owes (l : Life) (added : List ObjectRecord) (path : String) (r : ObjectRecord) : Prop :=
  r ∈ l.acknowledged ∨ (r ∈ added ∧ r.path = path)

/-- A record that is not applied is in memory or in the temporary file of a flush, and a recovery
would bring it back. -/
structure Pending (w : Shared) (v : View) (file : InfoFile) (r : ObjectRecord) : Prop where
  kept : w.journal.Kept r
  survives : w.Survives r
  ahead : file.journalOffset ≤ r.start
  ending : ∀ o, (r.path, o) ∈ w.ending → o ≤ r.start
  present : (∃ x ∈ v.held, x.2 = r) ∨ ∃ f ∈ v.flush, f.released = true ∧ r ∈ f.copy.records

structure CopyOk (w : Shared) (path : String) (l : Life) (file : InfoFile) (f : Flush) : Prop where
  records : ∀ r ∈ file.records, r ∈ f.copy.records
  applied : ∀ r ∈ f.copy.records, l.createdAt < r.stop
  offset : file.journalOffset ≤ f.copy.journalOffset
  durable : f.copy.journalOffset ≤ w.durable
  ahead : ∀ r, l.Owes w.added path r → r ∉ f.copy.records →
    f.copy.journalOffset ≤ r.start ∧ f.syncOff ≤ r.start

structure LifeOk (w : Shared) (v : View) (path : String) (l : Life) (file : InfoFile) : Prop where
  createdAt : l.createdAt ≤ w.durable
  offset : file.journalOffset ≤ w.durable
  applied : ∀ r ∈ file.records, l.createdAt < r.stop
  old : ∀ x ∈ v.held, x.2.stop ≤ l.createdAt → x.1 ≤ file.journalOffset
  oldJournal : ∀ r, .object r ∈ w.journal → r.path = path → r.stop ≤ l.createdAt →
    r.stop ≤ file.journalOffset
  owed : ∀ r, l.Owes w.added path r → r.path = path ∧ r.start < r.stop ∧ l.createdAt < r.stop ∧
    (r ∉ file.records → Pending w v file r)
  erasing : v.container.created ≠ 0 → ∀ x ∈ v.held, x.2.stop ≤ l.createdAt
  copy : ∀ f ∈ v.flush, CopyOk w path l file f

structure PathOk (w : Shared) (v : View) (path : String) : Prop where
  entry : ∀ e ∈ v.entry, EntryOk path w.durable e
  waiting : ∀ o ∈ v.waiting,
    (∃ e ∈ v.entry, ∃ x, e.tmpRecordList.getLast? = some x ∧ x.1 = o) ∧
      ∀ f ∈ v.flush, f.released = true
  unreleased : ∀ f ∈ v.flush, f.released = false →
    ∀ e ∈ v.entry, ∀ x ∈ e.tmpRecordList, x.2 ∈ f.copy.records
  life : ∀ l ∈ v.container.life, ∃ file, v.container.infoFile = some file ∧
    LifeOk w v path l file

/-- What holds of a path while the library is not recovering: no offset in memory is behind the
last batch that was added, nor any commit offset behind a record; nothing of the path has been
synced since a creation read its offset; and the batch that is not in memory belongs to this
life. -/
structure RunningAt (g : Progress) (v : View) (path : String) : Prop where
  entry : ∀ e ∈ v.entry, e.lastCommitOffset ≤ g.addedOffset ∧ ∀ x ∈ e.pairs,
    x.1 ≤ g.addedOffset ∧ e.lastCommitOffset ≤ x.2.start ∧ ∀ c ∈ g.commits, c ≤ x.2.start
  syncOff : ∀ f ∈ v.flush, f.syncOff ≤ g.addedOffset
  sampled : ∀ o ∈ v.container.sampled, o ≤ g.lastSyncOffset ∧ (∀ x ∈ v.held, x.1 ≤ o) ∧
    (∀ r, .object r ∈ g.journal → r.path = path → r.stop ≤ o ∨ r ∈ g.batch.unsynced) ∧
    ∀ records prevOff syncOff, g.batch = .synced records prevOff syncOff →
      (∃ r ∈ records, r.path = path) → syncOff ≤ o
  life : ∀ l ∈ v.container.life, ∀ r ∈ g.batch.unadded, r.path = path → l.createdAt < r.stop ∧
    (∀ file ∈ v.container.infoFile, file.journalOffset ≤ r.start) ∧
    ∀ f ∈ v.flush, f.copy.journalOffset ≤ r.start

section

variable {w w' : Shared} {v : View} {path : String} {e : SecureObjectRecord} {bound : Nat}

theorem EntryOk.mono {bound' : Nat} (h : EntryOk path bound e) (hle : bound ≤ bound') :
    EntryOk path bound' e where
  placed x hx := by
    obtain ⟨hpath, hlt, hstop, hbound⟩ := h.placed x hx
    exact ⟨hpath, hlt, hstop, hbound.trans hle⟩
  sorted := h.sorted
  after := h.after

theorem EntryOk.flushed (h : EntryOk path bound e) (hempty : e.tmpRecordList = []) :
    EntryOk path bound { e with tmpRecordList := e.recordList, recordList := [] } := by
  have hpairs : (⟨[], e.recordList, e.lastCommitOffset⟩ : SecureObjectRecord).pairs = e.pairs := by
    simp [SecureObjectRecord.pairs, hempty]
  constructor
  · rw [hpairs]
    exact h.placed
  · rw [hpairs]
    exact h.sorted
  · intro x hx y hy
    simp at hy

theorem EntryOk.sublist {tmp : RecordList} {c : Nat} (h : EntryOk path bound e)
    (hsub : tmp.Sublist e.tmpRecordList) : EntryOk path bound ⟨e.recordList, tmp, c⟩ where
  placed x hx := h.placed x ((hsub.append (List.Sublist.refl _)).subset hx)
  sorted := h.sorted.sublist (hsub.append (List.Sublist.refl _))
  after x hx := h.after x (hsub.subset hx)

theorem EntryOk.tmp_sorted (h : EntryOk path bound e) : RecordList.Sorted e.tmpRecordList :=
  h.sorted.sublist (List.sublist_append_left _ _)

theorem EntryOk.append {syncOff c : Nat} (h : EntryOk path bound e)
    (records : List ObjectRecord) (hbound : bound ≤ syncOff)
    (hrecords : ∀ r ∈ records, r.path = path ∧ r.start < r.stop ∧ r.stop ≤ syncOff ∧
      ∀ x ∈ e.pairs, x.1 ≤ r.start) :
    EntryOk path syncOff ⟨e.recordList ++ records.map (syncOff, ·), e.tmpRecordList, c⟩ := by
  have hpairs : (⟨e.recordList ++ records.map (syncOff, ·), e.tmpRecordList, c⟩ :
      SecureObjectRecord).pairs = e.pairs ++ records.map (syncOff, ·) := by
    simp [SecureObjectRecord.pairs]
  constructor
  · rw [hpairs]
    intro x hx
    rcases List.mem_append.mp hx with hx | hx
    · exact (h.mono hbound).placed x hx
    · obtain ⟨r, hr, rfl⟩ := List.mem_map.mp hx
      obtain ⟨hpath, hlt, hstop, -⟩ := hrecords r hr
      exact ⟨hpath, hlt, hstop, le_rfl⟩
  · rw [hpairs]
    refine List.pairwise_append.mpr ⟨h.sorted, ?_, fun x hx y hy => ?_⟩
    · exact List.pairwise_map.mpr (List.pairwise_of_forall fun _ _ => le_rfl)
    · obtain ⟨r, -, rfl⟩ := List.mem_map.mp hy
      exact (h.placed x hx).2.2.2.trans hbound
  · intro x hx y hy
    rcases List.mem_append.mp hy with hy | hy
    · exact h.after x hx y hy
    · obtain ⟨r, hr, rfl⟩ := List.mem_map.mp hy
      exact (hrecords r hr).2.2.2 x (List.mem_append_left _ hx)

/-- For a path there are no more flushes to end, and the safe part of the journal has grown. -/
structure Shared.Le (w' w : Shared) (path : String) : Prop where
  journal : w'.journal = w.journal
  ending : ∀ o, (path, o) ∈ w'.ending → (path, o) ∈ w.ending
  durable : w.durable ≤ w'.durable
  unsynced : ∀ region ∈ w'.unsynced, region ∈ w.unsynced ∨ w.durable ≤ region.1

theorem Shared.Survives.mono {r : ObjectRecord} (h : w.Survives r) (hle : w'.Le w path) :
    w'.Survives r := by
  refine ⟨h.1.trans hle.durable, fun region hregion => ?_⟩
  rcases hle.unsynced region hregion with hold | hnew
  · exact h.2 region hold
  · exact .inl (h.1.trans hnew)

theorem Pending.mono {file : InfoFile} {r : ObjectRecord} (h : Pending w v file r)
    (hle : w'.Le w r.path) : Pending w' v file r where
  kept := hle.journal ▸ h.kept
  survives := h.survives.mono hle
  ahead := h.ahead
  ending o ho := h.ending o (hle.ending o ho)
  present := h.present

theorem LifeOk.mono {l l' : Life} {file : InfoFile} (h : LifeOk w v path l file)
    (hle : w'.Le w path) (hcreated : l'.createdAt = l.createdAt)
    (howes : ∀ r, l'.Owes w'.added path r → l.Owes w.added path r) :
    LifeOk w' v path l' file where
  createdAt := hcreated ▸ h.createdAt.trans hle.durable
  offset := h.offset.trans hle.durable
  applied := hcreated ▸ h.applied
  old := hcreated ▸ h.old
  oldJournal r hr := hcreated ▸ h.oldJournal r (hle.journal ▸ hr)
  owed r hr := by
    obtain ⟨hpath, hlt, hstop, hpending⟩ := h.owed r (howes r hr)
    refine ⟨hpath, hlt, hcreated ▸ hstop, fun hr => ?_⟩
    exact (hpending hr).mono (hpath ▸ hle)
  erasing := hcreated ▸ h.erasing
  copy f hf := by
    have hcopy := h.copy f hf
    exact ⟨hcopy.records, hcreated ▸ hcopy.applied, hcopy.offset,
      hcopy.durable.trans hle.durable, fun r hr => hcopy.ahead r (howes r hr)⟩

theorem PathOk.mono (h : PathOk w v path) (hle : w'.Le w path)
    (hadded : ∀ r ∈ w'.added, r.path = path → r ∈ w.added) : PathOk w' v path where
  entry e he := (h.entry e he).mono hle.durable
  waiting := h.waiting
  unreleased := h.unreleased
  life l hl := by
    obtain ⟨file, hfile, hlife⟩ := h.life l hl
    exact ⟨file, hfile, hlife.mono hle rfl fun r hr =>
      hr.imp_right fun ⟨hin, hpath⟩ => ⟨hadded r hin hpath, hpath⟩⟩

/-- A journal record behind the safe part changes nothing, if it is no header or marker with an
offset behind a pending record. -/
theorem PathOk.append_journal {j : JournalRecord} (h : PathOk w v path)
    (hstart : w.durable ≤ j.start) (hlt : j.start < j.stop)
    (hcheckpoint : ∀ c start stop, j = .checkpoint c start stop →
      ∀ file r, v.container.infoFile = some file → r.path = path → r ∉ file.records →
        Pending w v file r → c ≤ r.start)
    (hmarker : ∀ q o start stop, j = .endFlush q o start stop → (q, o) ∈ w.ending) :
    PathOk { w with journal := w.journal ++ [j] } v path where
  entry := h.entry
  waiting := h.waiting
  unreleased := h.unreleased
  life l hl := by
    obtain ⟨file, hfile, hlife⟩ := h.life l hl
    refine ⟨file, hfile, { hlife with oldJournal := ?_, owed := ?_, copy := ?_ }⟩
    · intro r hr hpath hstop
      rcases List.mem_append.mp hr with hr | hr
      · exact hlife.oldJournal r hr hpath hstop
      · obtain rfl := List.mem_singleton.mp hr
        have hcreated := hlife.createdAt
        simp only [JournalRecord.start, JournalRecord.stop] at hstart hlt
        omega
    · intro r hr
      obtain ⟨hpath, hlt, hcreated, hpending⟩ := hlife.owed r hr
      refine ⟨hpath, hlt, hcreated, fun hr => ?_⟩
      have hp := hpending hr
      refine ⟨⟨List.mem_append_left _ hp.kept.written, ?_, ?_⟩, hp.survives, hp.ahead, hp.ending,
        hp.present⟩
      · intro c start stop hc
        rcases List.mem_append.mp hc with hc | hc
        · exact hp.kept.commit c start stop hc
        · exact hcheckpoint c start stop (List.mem_singleton.mp hc).symm file r hfile hpath hr hp
      · intro o start stop ho
        rcases List.mem_append.mp ho with ho | ho
        · exact hp.kept.marker o start stop ho
        · exact hp.ending o (hmarker r.path o start stop (List.mem_singleton.mp ho).symm)
    · intro f hf
      have hcopy := hlife.copy f hf
      exact ⟨hcopy.records, hcopy.applied, hcopy.offset, hcopy.durable, hcopy.ahead⟩

end

/-! ### Steps of one path -/

section

variable {w : Shared} {g : Progress} {v v' : View} {path : String} {e : SecureObjectRecord}

theorem held_eq (he : v.entry = some e) : v.held = e.pairs := by
  simp [View.held, he]

/-- Records leave the memory of the path, and each that is pending stays somewhere. -/
theorem LifeOk.shrink {l : Life} {file : InfoFile} (h : LifeOk w v path l file)
    (hheld : ∀ x ∈ v'.held, x ∈ v.held)
    (hcreated : v'.container.created ≠ 0 → v.container.created ≠ 0)
    (hpresent : ∀ r, r.path = path → l.createdAt < r.stop → Pending w v file r →
      (∃ x ∈ v'.held, x.2 = r) ∨ ∃ f ∈ v'.flush, f.released = true ∧ r ∈ f.copy.records)
    (hcopy : ∀ f ∈ v'.flush, CopyOk w path l file f) : LifeOk w v' path l file where
  createdAt := h.createdAt
  offset := h.offset
  applied := h.applied
  old x hx := h.old x (hheld x hx)
  oldJournal := h.oldJournal
  owed r hr := by
    obtain ⟨hpath, hlt, hstop, hpending⟩ := h.owed r hr
    refine ⟨hpath, hlt, hstop, fun hr => ?_⟩
    have hp := hpending hr
    exact ⟨hp.kept, hp.survives, hp.ahead, hp.ending, hpresent r hpath hstop hp⟩
  erasing hne x hx := h.erasing (hcreated hne) x (hheld x hx)
  copy := hcopy

theorem RunningAt.shrink (h : RunningAt g v path) (hcontainer : v'.container = v.container)
    (hflush : v'.flush = v.flush) (hentry : ∀ e' ∈ v'.entry, ∃ e ∈ v.entry,
      (∀ x ∈ e'.pairs, x ∈ e.pairs) ∧ e'.lastCommitOffset ≤ g.addedOffset ∧
        ∀ x ∈ e'.pairs, e'.lastCommitOffset ≤ x.2.start) : RunningAt g v' path where
  entry e' he' := by
    obtain ⟨e, he, hpairs, hcommit, hle⟩ := hentry e' he'
    refine ⟨hcommit, fun x hx => ?_⟩
    obtain ⟨hx', -, hcommits⟩ := (h.entry e he).2 x (hpairs x hx)
    exact ⟨hx', hle x hx, hcommits⟩
  syncOff := hflush ▸ h.syncOff
  sampled o ho := by
    obtain ⟨hsync, hheld, hobjects, hbatch⟩ := h.sampled o (hcontainer ▸ ho)
    refine ⟨hsync, fun x hx => ?_, hobjects, hbatch⟩
    obtain ⟨e', he', hx⟩ := View.mem_held.mp hx
    obtain ⟨e, he, hpairs, -⟩ := hentry e' he'
    exact hheld x (View.mem_held.mpr ⟨e, he, hpairs x hx⟩)
  life := by
    rw [hcontainer, hflush]
    exact h.life

/-! #### A flush takes the records -/

def SecureObjectRecord.flushed (e : SecureObjectRecord) : SecureObjectRecord :=
  { e with tmpRecordList := e.recordList, recordList := e.tmpRecordList }

theorem pairs_flushed (hempty : e.tmpRecordList = []) : e.flushed.pairs = e.pairs := by
  simp [SecureObjectRecord.flushed, SecureObjectRecord.pairs, hempty]

theorem PathOk.getFlushRecords {last : Nat × ObjectRecord} (h : PathOk w v path)
    (he : v.entry = some e) (hempty : e.tmpRecordList = [])
    (hlast : e.recordList.getLast? = some last) (hsafe : ∀ f ∈ v.flush, f.released = true) :
    PathOk w { v with entry := some e.flushed, waiting := some last.1 } path where
  entry e' he' := by
    cases he'
    have hentry := (h.entry e he).flushed hempty
    rwa [SecureObjectRecord.flushed, hempty]
  waiting o ho := by
    cases ho
    exact ⟨⟨e.flushed, rfl, last, hlast, rfl⟩, hsafe⟩
  unreleased f hf hreleased := by
    rw [hsafe f hf] at hreleased
    cases hreleased
  life l hl := by
    obtain ⟨file, hfile, hlife⟩ := h.life l hl
    have hheld : (⟨v.container, some e.flushed, some last.1, v.flush⟩ : View).held = v.held := by
      rw [held_eq rfl, held_eq he, pairs_flushed hempty]
    refine ⟨file, hfile, hlife.shrink (fun x hx => hheld ▸ hx) id (fun r _ _ hp => ?_) hlife.copy⟩
    rw [hheld]
    exact hp.present

theorem RunningAt.getFlushRecords {o : Nat} (h : RunningAt g v path) (he : v.entry = some e)
    (hempty : e.tmpRecordList = []) :
    RunningAt g { v with entry := some e.flushed, waiting := some o } path := by
  refine h.shrink rfl rfl fun e' he' => ?_
  cases he'
  obtain ⟨hcommit, hpairs⟩ := h.entry e he
  rw [pairs_flushed hempty]
  exact ⟨e, he, fun x hx => hx, hcommit, fun x hx => (hpairs x hx).2.1⟩

/-! #### The lock of the path, and the temporary file -/

/-- The entry without the records that the info file has. -/
def SecureObjectRecord.popped (e : SecureObjectRecord) (journalOffset : Nat) :
    SecureObjectRecord :=
  { e with tmpRecordList := e.tmpRecordList.dropWhile fun x => x.1 ≤ journalOffset }

theorem pairs_popped_sublist (e : SecureObjectRecord) (journalOffset : Nat) :
    (e.popped journalOffset).pairs.Sublist e.pairs :=
  (List.dropWhile_sublist _).append (List.Sublist.refl _)

theorem records_append (file : InfoFile) (records : RecordList) :
    (file.append records).records = file.records ++ records.map (·.2) := by
  unfold InfoFile.append
  cases h : records.getLast? with
  | some last => rfl
  | none =>
      rw [List.getLast?_eq_none_iff] at h
      simp [h]

theorem journalOffset_append (file : InfoFile) (records : RecordList) :
    (file.append records).journalOffset = file.journalOffset ∧ records = [] ∨
      ∃ x ∈ records, (file.append records).journalOffset = x.1 := by
  unfold InfoFile.append
  cases h : records.getLast? with
  | some last => exact .inr ⟨last, List.mem_of_getLast? h, rfl⟩
  | none => exact .inl ⟨rfl, List.getLast?_eq_none_iff.mp h⟩

theorem PathOk.flushContainer {file : InfoFile} {o : Nat} (h : PathOk w v path)
    (he : v.entry = some e) (hwaiting : v.waiting = some o) (hflush : v.flush = none)
    (hfile : v.container.infoFile = some file) :
    PathOk w { v with
      entry := some (e.popped file.journalOffset)
      waiting := none
      flush := some ⟨file.append (e.popped file.journalOffset).tmpRecordList, o, false⟩ } path := by
  have hentry := h.entry e he
  have hsub := pairs_popped_sublist e file.journalOffset
  have hrest : ∀ x ∈ (e.popped file.journalOffset).tmpRecordList,
      x ∈ e.tmpRecordList ∧ file.journalOffset < x.1 := fun x hx =>
    (hentry.tmp_sorted.mem_pop).mp hx
  obtain ⟨⟨e', he', last, hlast, rfl⟩, -⟩ := h.waiting o hwaiting
  obtain rfl : e = e' := Option.some.inj (he.symm.trans he')
  have hlastmem := List.mem_of_getLast? hlast
  refine ⟨fun e' he' => ?_, fun o ho => ?_, fun f hf _ e' he' x hx => ?_, fun l hl => ?_⟩
  · cases he'
    exact hentry.sublist (List.dropWhile_sublist _)
  · cases ho
  · cases hf
    cases he'
    rw [records_append]
    exact List.mem_append_right _ (List.mem_map_of_mem hx)
  · obtain ⟨file', hfile', hlife⟩ := h.life l hl
    obtain rfl : file = file' := Option.some.inj (hfile.symm.trans hfile')
    have hpresent : ∀ r, Pending w v file r →
        (∃ x ∈ e.recordList, x.2 = r) ∨ ∃ x ∈ (e.popped file.journalOffset).tmpRecordList,
          x.2 = r := by
      intro r hp
      rcases hp.present with ⟨x, hx, rfl⟩ | ⟨f, hf, -⟩
      · rw [held_eq he] at hx
        have hplaced := hentry.placed x hx
        have hahead := hp.ahead
        rcases List.mem_append.mp hx with hx | hx
        · exact .inr ⟨x, (hentry.tmp_sorted.mem_pop).mpr ⟨hx, by omega⟩, rfl⟩
        · exact .inl ⟨x, hx, rfl⟩
      · rw [hflush] at hf
        cases hf
    refine ⟨file, hfile, hlife.shrink (fun x hx => ?_) id (fun r _ _ hp => ?_) fun f hf => ?_⟩
    · rw [held_eq rfl] at hx
      rw [held_eq he]
      exact hsub.subset hx
    · refine .inl ?_
      rw [held_eq rfl]
      rcases hpresent r hp with ⟨x, hx, hxr⟩ | ⟨x, hx, hxr⟩
      · exact ⟨x, List.mem_append_right _ hx, hxr⟩
      · exact ⟨x, List.mem_append_left _ hx, hxr⟩
    · cases hf
      have hoffset := journalOffset_append file (e.popped file.journalOffset).tmpRecordList
      refine ⟨fun r hr => ?_, fun r hr => ?_, ?_, ?_, fun r hr hnot => ?_⟩
      · rw [records_append]
        exact List.mem_append_left _ hr
      · rw [records_append] at hr
        rcases List.mem_append.mp hr with hr | hr
        · exact hlife.applied r hr
        · obtain ⟨x, hx, rfl⟩ := List.mem_map.mp hr
          obtain ⟨hx, hlt⟩ := hrest x hx
          have hold := hlife.old x (held_eq he ▸ List.mem_append_left _ hx)
          omega
      · rcases hoffset with ⟨heq, -⟩ | ⟨x, hx, heq⟩
        · exact heq.symm.le
        · exact (hrest x hx).2.le.trans heq.symm.le
      · rcases hoffset with ⟨heq, -⟩ | ⟨x, hx, heq⟩
        · exact heq.trans_le hlife.offset
        · exact heq.trans_le (hentry.placed x (List.mem_append_left _ (hrest x hx).1)).2.2.2
      · obtain ⟨-, -, -, hpending⟩ := hlife.owed r hr
        rw [records_append, List.mem_append, not_or] at hnot
        have hp := hpending hnot.1
        rcases hpresent r hp with ⟨y, hy, rfl⟩ | ⟨x, hx, rfl⟩
        · have hsync := hentry.after last hlastmem y hy
          refine ⟨?_, hsync⟩
          rcases hoffset with ⟨heq, -⟩ | ⟨x, hx, heq⟩
          · exact heq.trans_le hp.ahead
          · exact heq.trans_le (hentry.after x (hrest x hx).1 y hy)
        · exact absurd (List.mem_map_of_mem hx) hnot.2

theorem RunningAt.popped (h : RunningAt g v path) (he : v.entry = some e) (journalOffset : Nat) :
    RunningAt g { v with entry := some (e.popped journalOffset), waiting := none } path := by
  refine h.shrink rfl rfl fun e' he' => ?_
  cases he'
  obtain ⟨hcommit, hpairs⟩ := h.entry e he
  have hsub := pairs_popped_sublist e journalOffset
  exact ⟨e, he, fun x hx => hsub.subset hx, hcommit, fun x hx => (hpairs x (hsub.subset hx)).2.1⟩

theorem RunningAt.flushContainer {file : InfoFile} {o : Nat} (hpath : PathOk w v path)
    (h : RunningAt g v path) (hbatch : ∀ r ∈ g.batch.unadded, g.addedOffset ≤ r.start)
    (he : v.entry = some e) (hwaiting : v.waiting = some o)
    (hfile : v.container.infoFile = some file) :
    RunningAt g { v with
      entry := some (e.popped file.journalOffset)
      waiting := none
      flush := some ⟨file.append (e.popped file.journalOffset).tmpRecordList, o, false⟩ } path := by
  obtain ⟨⟨e', he', last, hlast, rfl⟩, -⟩ := hpath.waiting o hwaiting
  obtain rfl : e = e' := Option.some.inj (he.symm.trans he')
  have hpairs := (h.entry e he).2
  have hpopped := h.popped he file.journalOffset
  refine { hpopped with syncOff := fun f hf => ?_, life := fun l hl r hr hrpath => ?_ }
  · cases hf
    exact (hpairs last (List.mem_append_left _ (List.mem_of_getLast? hlast))).1
  · obtain ⟨hcreated, hoffset, -⟩ := h.life l hl r hr hrpath
    refine ⟨hcreated, hoffset, fun f hf => ?_⟩
    cases hf
    rcases journalOffset_append file (e.popped file.journalOffset).tmpRecordList with
      ⟨heq, -⟩ | ⟨x, hx, heq⟩
    · exact heq.trans_le (hoffset file hfile)
    · have hx := (hpairs x (List.mem_append_left _ (List.dropWhile_subset _ hx))).1
      exact heq.trans_le (hx.trans (hbatch r hr))

/-! #### The records are released, and the file is renamed -/

theorem lastCommitOffset_released (e : SecureObjectRecord) (garbage : Nat) :
    (e.releaseFlushRecords garbage).lastCommitOffset = garbage ∧ e.tmpRecordList = [] ∨
      ∃ x ∈ e.tmpRecordList, (e.releaseFlushRecords garbage).lastCommitOffset = x.1 := by
  unfold SecureObjectRecord.releaseFlushRecords
  cases h : e.tmpRecordList.getLast? with
  | some last => exact .inr ⟨last, List.mem_of_getLast? h, rfl⟩
  | none => exact .inl ⟨rfl, List.getLast?_eq_none_iff.mp h⟩

/-- The entry after its flushed records are released; it goes when no records are left. -/
def released (entry : Option SecureObjectRecord) (garbage : Nat) : Option SecureObjectRecord :=
  entry.bind fun e => if e.recordList = [] then none else some (e.releaseFlushRecords garbage)

theorem released_eq_some {entry : Option SecureObjectRecord} {garbage : Nat}
    {e' : SecureObjectRecord} : released entry garbage = some e' ↔
      ∃ e ∈ entry, e.recordList ≠ [] ∧ e' = e.releaseFlushRecords garbage := by
  unfold released
  cases entry with
  | none => simp
  | some e => by_cases hlist : e.recordList = [] <;> simp [hlist, eq_comm]

theorem mem_held_released {garbage : Nat} {waiting : Option Nat} {flush : Option Flush}
    {x : Nat × ObjectRecord} :
    x ∈ (⟨v.container, released v.entry garbage, waiting, flush⟩ : View).held ↔
      ∃ e ∈ v.entry, x ∈ e.recordList := by
  rw [View.mem_held]
  constructor
  · rintro ⟨e', he', hx⟩
    obtain ⟨e, he, -, rfl⟩ := released_eq_some.mp he'
    exact ⟨e, he, hx⟩
  · rintro ⟨e, he, hx⟩
    exact ⟨_, released_eq_some.mpr ⟨e, he, List.ne_nil_of_mem hx, rfl⟩, hx⟩

theorem entryOk_released {garbage : Nat} (h : ∀ e ∈ v.entry, EntryOk path w.durable e) :
    ∀ e' ∈ released v.entry garbage, EntryOk path w.durable e' := by
  intro e' he'
  obtain ⟨e, he, -, rfl⟩ := released_eq_some.mp he'
  exact (h e he).sublist (List.nil_sublist _)

theorem PathOk.releaseFlushRecords {copy : InfoFile} {o garbage : Nat} (h : PathOk w v path)
    (hflush : v.flush = some ⟨copy, o, false⟩) :
    PathOk w { v with
      entry := released v.entry garbage
      flush := some ⟨copy, o, true⟩ } path := by
  refine ⟨entryOk_released h.entry, fun o ho => ?_, fun f hf hfalse => ?_, fun l hl => ?_⟩
  · have := (h.waiting o ho).2 _ hflush
    cases this
  · cases hf
    cases hfalse
  · obtain ⟨file, hfile, hlife⟩ := h.life l hl
    have hcopy := hlife.copy _ hflush
    refine ⟨file, hfile, hlife.shrink (fun x hx => ?_) id (fun r _ _ hp => ?_) fun f hf => ?_⟩
    · obtain ⟨e, he, hx⟩ := mem_held_released.mp hx
      exact View.mem_held.mpr ⟨e, he, List.mem_append_right _ hx⟩
    · rcases hp.present with ⟨x, hx, rfl⟩ | ⟨f, hf, hfreleased, -⟩
      · obtain ⟨e, he, hx⟩ := View.mem_held.mp hx
        rcases List.mem_append.mp hx with hx | hx
        · exact .inr ⟨_, rfl, rfl, h.unreleased _ hflush rfl e he x hx⟩
        · exact .inl ⟨x, mem_held_released.mpr ⟨e, he, hx⟩, rfl⟩
      · rw [hflush] at hf
        cases hf
        cases hfreleased
    · cases hf
      exact ⟨hcopy.records, hcopy.applied, hcopy.offset, hcopy.durable, hcopy.ahead⟩

theorem RunningAt.released {garbage : Nat} (waiting : Option Nat) (hpath : PathOk w v path)
    (h : RunningAt g v path)
    (hharmless : ∀ e ∈ v.entry, e.tmpRecordList = [] → ∀ x ∈ e.recordList, garbage ≤ x.2.start) :
    RunningAt g { v with entry := released v.entry garbage, waiting := waiting } path := by
  refine h.shrink rfl rfl fun e' he' => ?_
  obtain ⟨e, he, hne, rfl⟩ := released_eq_some.mp he'
  have hentry := hpath.entry e he
  have hpairs := (h.entry e he).2
  have hle : ∀ x ∈ e.recordList,
      (e.releaseFlushRecords garbage).lastCommitOffset ≤ x.2.start := fun x hx => by
    rcases lastCommitOffset_released e garbage with ⟨heq, hempty⟩ | ⟨y, hy, heq⟩
    · exact heq.trans_le (hharmless e he hempty x hx)
    · exact heq.trans_le (hentry.after y hy x hx)
  refine ⟨e, he, fun x hx => List.mem_append_right _ hx, ?_, hle⟩
  obtain ⟨x, hx⟩ := List.exists_mem_of_ne_nil _ hne
  have hplaced := hentry.placed x (List.mem_append_right _ hx)
  have := hle x hx
  have := (hpairs x (List.mem_append_right _ hx)).1
  omega

theorem PathOk.releaseMissing {w' : Shared} {garbage : Nat} (h : PathOk w v path)
    (hflush : v.flush = none) (hfile : v.container.infoFile = none)
    (hdurable : w'.durable = w.durable) :
    PathOk w' { v with entry := released v.entry garbage, waiting := none } path := by
  refine ⟨hdurable ▸ entryOk_released h.entry, fun o ho => ?_, fun f hf => ?_, fun l hl => ?_⟩
  · cases ho
  · rw [show v.flush = none from hflush] at hf
    cases hf
  · obtain ⟨file, hfile', -⟩ := h.life l hl
    rw [hfile] at hfile'
    cases hfile'

theorem PathOk.renameTmpFile {copy : InfoFile} {o : Nat} (h : PathOk w v path)
    (hflush : v.flush = some ⟨copy, o, true⟩) :
    PathOk { w with ending := (path, o) :: w.ending }
      { v with container := { v.container with infoFile := some copy }, flush := none } path := by
  refine ⟨h.entry, fun o ho => ?_, fun f hf => ?_, fun l hl => ?_⟩
  · exact ⟨(h.waiting o ho).1, fun f hf => by cases hf⟩
  · cases hf
  · obtain ⟨file, hfile, hlife⟩ := h.life l hl
    have hcopy := hlife.copy _ hflush
    refine ⟨copy, rfl, ?_⟩
    constructor
    · exact hlife.createdAt
    · exact hcopy.durable
    · exact hcopy.applied
    · exact fun x hx hstop => (hlife.old x hx hstop).trans hcopy.offset
    · exact fun r hr hpath hstop => (hlife.oldJournal r hr hpath hstop).trans hcopy.offset
    · intro r hr
      obtain ⟨hpath, hlt, hcreated, hpending⟩ := hlife.owed r hr
      refine ⟨hpath, hlt, hcreated, fun hnot => ?_⟩
      have hp := hpending fun hin => hnot (hcopy.records r hin)
      obtain ⟨hoffset, hsync⟩ := hcopy.ahead r hr hnot
      refine ⟨hp.kept, hp.survives, hoffset, fun o' ho' => ?_, ?_⟩
      · rcases List.mem_cons.mp ho' with heq | ho'
        · cases heq
          exact hsync
        · exact hp.ending o' ho'
      · rcases hp.present with hheld | ⟨f, hf, -, hin⟩
        · exact .inl hheld
        · rw [hflush] at hf
          cases hf
          exact absurd hin hnot
    · exact hlife.erasing
    · exact fun f hf => by cases hf

theorem RunningAt.renameTmpFile {copy : InfoFile} {o : Nat} (h : RunningAt g v path)
    (hflush : v.flush = some ⟨copy, o, true⟩) :
    RunningAt g { v with container := { v.container with infoFile := some copy }, flush := none }
      path where
  entry := h.entry
  syncOff f hf := by cases hf
  sampled := h.sampled
  life l hl r hr hpath := by
    obtain ⟨hcreated, -, hcopy⟩ := h.life l hl r hr hpath
    refine ⟨hcreated, fun file hfile => ?_, fun f hf => by cases hf⟩
    cases hfile
    exact hcopy _ hflush

/-! #### Creations and deletions -/

/-- A creation reads its offset, or has found the file in place. -/
theorem PathOk.setSampled (h : PathOk w v path) (sampled : List Nat) :
    PathOk w { v with container := { v.container with sampled := sampled } } path where
  entry := h.entry
  waiting := h.waiting
  unreleased := h.unreleased
  life l hl := by
    obtain ⟨file, hfile, hlife⟩ := h.life l hl
    exact ⟨file, hfile, hlife.shrink (fun x hx => hx) id (fun r _ _ hp => hp.present) hlife.copy⟩

theorem RunningAt.setSampled {sampled : List Nat} (h : RunningAt g v path)
    (hsampled : ∀ o ∈ sampled, o ∈ v.container.sampled ∨ o = g.lastSyncOffset)
    (hadded : g.addedOffset ≤ g.lastSyncOffset)
    (hobjects : ∀ r, .object r ∈ g.journal → r.stop ≤ g.lastSyncOffset ∨ r ∈ g.batch.unsynced)
    (hbatch : ∀ records prevOff syncOff, g.batch = .synced records prevOff syncOff →
      syncOff = g.lastSyncOffset) :
    RunningAt g { v with container := { v.container with sampled := sampled } } path where
  entry := h.entry
  syncOff := h.syncOff
  sampled o ho := by
    rcases hsampled o ho with ho | rfl
    · exact h.sampled o ho
    · refine ⟨le_rfl, fun x hx => ?_, fun r hr _ => hobjects r hr,
        fun rs prevOff syncOff hb _ => ?_⟩
      · obtain ⟨e, he, hx⟩ := View.mem_held.mp hx
        exact ((h.entry e he).2 x hx).1.trans hadded
      · exact (hbatch rs prevOff syncOff hb).le
  life := h.life

/-- The view of a path after its info file is created with a sampled offset. -/
def View.create (v : View) (offset lastSyncOffset : Nat) : View :=
  { v with container := { v.container with
      infoFile := some ⟨offset, []⟩
      sampled := v.container.sampled.erase offset
      created := v.container.created + 1
      life := some ⟨lastSyncOffset, []⟩ } }

theorem PathOk.addContainer {o : Nat} (h : PathOk w v path) (hrun : RunningAt g v path)
    (ho : o ∈ v.container.sampled) (hflush : v.flush = none)
    (hfresh : ∀ r ∈ w.added, r.path ≠ path) (hjournal : w.journal = g.journal)
    (hdurable : w.durable = g.lastSyncOffset)
    (hunsynced : ∀ r ∈ g.batch.unsynced, g.lastSyncOffset < r.stop) :
    PathOk w (v.create o g.lastSyncOffset) path where
  entry := h.entry
  waiting := h.waiting
  unreleased := h.unreleased
  life l hl := by
    cases hl
    obtain ⟨hsync, hheld, hobjects, -⟩ := hrun.sampled o ho
    refine ⟨⟨o, []⟩, rfl, ?_⟩
    constructor
    · exact hdurable.ge
    · exact hsync.trans hdurable.ge
    · intro r hr
      simp at hr
    · exact fun x hx _ => hheld x hx
    · intro r hr hpath hstop
      rcases hobjects r (hjournal ▸ hr) hpath with hle | hin
      · exact hle
      · have := hunsynced r hin
        simp only at hstop
        omega
    · rintro r (hr | ⟨hr, hpath⟩)
      · simp at hr
      · exact absurd hpath (hfresh r hr)
    · intro _ x hx
      obtain ⟨e, he, hxe⟩ := View.mem_held.mp hx
      exact ((h.entry e he).placed x hxe).2.2.1.trans ((hheld x hx).trans hsync)
    · intro f hf
      rw [show (v.create o g.lastSyncOffset).flush = none from hflush] at hf
      cases hf

theorem RunningAt.addContainer {o : Nat} (h : RunningAt g v path)
    (ho : o ∈ v.container.sampled) (hflush : v.flush = none)
    (hunadded : ∀ r ∈ g.batch.unadded, r.path = path →
      g.lastSyncOffset ≤ r.start ∧ r.start < r.stop) :
    RunningAt g (v.create o g.lastSyncOffset) path where
  entry := h.entry
  syncOff := h.syncOff
  sampled o' ho' := h.sampled o' (List.mem_of_mem_erase ho')
  life l hl r hr hpath := by
    cases hl
    obtain ⟨hle, hlt⟩ := hunadded r hr hpath
    refine ⟨Nat.lt_of_le_of_lt hle hlt, fun file hfile => ?_, fun f hf => ?_⟩
    · cases hfile
      exact (h.sampled o ho).1.trans hle
    · rw [show (v.create o g.lastSyncOffset).flush = none from hflush] at hf
      cases hf

/-- The entry after an attempt to delete it. -/
def deleted (entry : Option SecureObjectRecord) : Option SecureObjectRecord :=
  entry.filter (·.isFlushOngoing)

theorem deleted_eq_some {entry : Option SecureObjectRecord} {e : SecureObjectRecord} :
    deleted entry = some e ↔ entry = some e ∧ e.tmpRecordList ≠ [] := by
  simp [deleted, Option.filter_eq_some_iff, SecureObjectRecord.isFlushOngoing]

theorem PathOk.eraseCreated {n : Nat} (h : PathOk w v path)
    (hcreated : v.container.created = n + 1) : PathOk w { v with
      container := { v.container with created := n }
      entry := deleted v.entry } path where
  entry e he := h.entry e (deleted_eq_some.mp he).1
  waiting o ho := by
    obtain ⟨⟨e, he, x, hx, hxo⟩, hreleased⟩ := h.waiting o ho
    refine ⟨⟨e, deleted_eq_some.mpr ⟨he, fun hempty => ?_⟩, x, hx, hxo⟩, hreleased⟩
    simp [hempty] at hx
  unreleased f hf hfalse e he := h.unreleased f hf hfalse e (deleted_eq_some.mp he).1
  life l hl := by
    obtain ⟨file, hfile, hlife⟩ := h.life l hl
    have hne : v.container.created ≠ 0 := by omega
    refine ⟨file, hfile, hlife.shrink (fun x hx => ?_) (fun _ => hne) (fun r _ hstop hp => ?_)
      hlife.copy⟩
    · obtain ⟨e, he, hx⟩ := View.mem_held.mp hx
      exact View.mem_held.mpr ⟨e, (deleted_eq_some.mp he).1, hx⟩
    · refine .inr (hp.present.resolve_left ?_)
      rintro ⟨x, hx, rfl⟩
      have := hlife.erasing hne x hx
      omega

theorem RunningAt.eraseCreated {n : Nat} (h : RunningAt g v path) :
    RunningAt g { v with
      container := { v.container with created := n }
      entry := deleted v.entry } path := by
  have hshrink : RunningAt g { v with entry := deleted v.entry } path :=
    h.shrink rfl rfl fun e he => by
      have he := (deleted_eq_some.mp he).1
      obtain ⟨hcommit, hpairs⟩ := h.entry e he
      exact ⟨e, he, fun x hx => hx, hcommit, fun x hx => (hpairs x hx).2.1⟩
  exact ⟨hshrink.entry, hshrink.syncOff, hshrink.sampled, hshrink.life⟩

/-- Without a life there is nothing to keep; the entry may only go while it is not flushed. -/
theorem PathOk.endLife {c : ContainerState} {left : Option SecureObjectRecord} (h : PathOk w v path)
    (hlife : c.life = none) (hentry : ∀ e ∈ left, e ∈ v.entry)
    (hkept : ∀ e ∈ v.entry, e.tmpRecordList ≠ [] → e ∈ left) :
    PathOk w ⟨c, left, v.waiting, v.flush⟩ path where
  entry e he := h.entry e (hentry e he)
  waiting o ho := by
    obtain ⟨⟨e, he, x, hx, hxo⟩, hreleased⟩ := h.waiting o ho
    refine ⟨⟨e, hkept e he fun hempty => ?_, x, hx, hxo⟩, hreleased⟩
    simp [hempty] at hx
  unreleased f hf hfalse e he := h.unreleased f hf hfalse e (hentry e he)
  life l hl := by
    rw [show (⟨c, left, v.waiting, v.flush⟩ : View).container.life = none from hlife] at hl
    cases hl

theorem RunningAt.endLife {c : ContainerState} {left : Option SecureObjectRecord}
    (h : RunningAt g v path) (hlife : c.life = none)
    (hsampled : c.sampled = v.container.sampled) (hentry : ∀ e ∈ left, e ∈ v.entry) :
    RunningAt g ⟨c, left, v.waiting, v.flush⟩ path where
  entry e he := h.entry e (hentry e he)
  syncOff := h.syncOff
  sampled o ho := by
    obtain ⟨hsync, hheld, hrest⟩ := h.sampled o (hsampled ▸ ho)
    refine ⟨hsync, fun x hx => ?_, hrest⟩
    obtain ⟨e, he, hx⟩ := View.mem_held.mp hx
    exact hheld x (View.mem_held.mpr ⟨e, hentry e he, hx⟩)
  life l hl := by
    rw [show (⟨c, left, v.waiting, v.flush⟩ : View).container.life = none from hlife] at hl
    cases hl

/-! #### Batches -/

/-- The entry of a path after a batch is added. -/
def addedTo (entry : Option SecureObjectRecord) (records : List ObjectRecord) (path : String)
    (prevOff syncOff : Nat) : Option SecureObjectRecord :=
  if records.any (·.path = path) then
    let s := entry.getD ⟨[], [], prevOff⟩
    some { s with recordList :=
      s.recordList ++ (records.filter (·.path = path)).map (syncOff, ·) }
  else entry

/-- What is known of a batch that has been synced. -/
structure SyncedBatch (w : Shared) (prevOff syncOff : Nat)
    (records : List ObjectRecord) : Prop where
  survives : ∀ r ∈ records, w.Survives r
  records : ∀ r ∈ records, .object r ∈ w.journal ∧ prevOff ≤ r.start ∧ r.start < r.stop ∧
    r.stop ≤ syncOff
  headers : ∀ c start stop, .checkpoint c start stop ∈ w.journal → c ≤ prevOff
  markers : ∀ q o start stop, .endFlush q o start stop ∈ w.journal → o ≤ prevOff
  ending : ∀ e ∈ w.ending, e.2 ≤ prevOff

variable {records : List ObjectRecord} {prevOff syncOff : Nat}

theorem addedTo_of_none (hnone : ∀ r ∈ records, r.path ≠ path)
    (entry : Option SecureObjectRecord) : addedTo entry records path prevOff syncOff = entry := by
  unfold addedTo
  rw [if_neg]
  simpa using hnone

/-- A batch with records of the path puts them behind those that are there. -/
theorem addedTo_of_mem (entry : Option SecureObjectRecord) (prevOff syncOff : Nat)
    {r : ObjectRecord} (hr : r ∈ records)
    (hpath : r.path = path) : ∃ e, addedTo entry records path prevOff syncOff = some e ∧
      e.tmpRecordList = (entry.getD ⟨[], [], prevOff⟩).tmpRecordList ∧
      e.lastCommitOffset = (entry.getD ⟨[], [], prevOff⟩).lastCommitOffset ∧
      e.recordList = (entry.getD ⟨[], [], prevOff⟩).recordList ++
        (records.filter (·.path = path)).map (syncOff, ·) := by
  unfold addedTo
  have hany : records.any (·.path = path) = true :=
    List.any_eq_true.mpr ⟨r, hr, decide_eq_true hpath⟩
  rw [if_pos hany]
  exact ⟨_, rfl, rfl, rfl, rfl⟩

theorem mem_held_addedTo {container : ContainerState} {waiting : Option Nat} {flush : Option Flush}
    {x : Nat × ObjectRecord} :
    x ∈ (⟨container, addedTo v.entry records path prevOff syncOff, waiting, flush⟩ : View).held ↔
      x ∈ v.held ∨ ∃ r ∈ records, r.path = path ∧ x = (syncOff, r) := by
  by_cases hnone : ∀ r ∈ records, r.path ≠ path
  · rw [addedTo_of_none hnone]
    constructor
    · exact .inl
    · rintro (hx | ⟨r, hr, hpath, -⟩)
      · exact hx
      · exact absurd hpath (hnone r hr)
  · obtain ⟨r, hr, hpath⟩ : ∃ r ∈ records, r.path = path := by simpa using hnone
    obtain ⟨e, he, htmp, -, hlist⟩ := addedTo_of_mem v.entry prevOff syncOff hr hpath
    have hheld : v.held = (v.entry.getD ⟨[], [], prevOff⟩).pairs := by
      unfold View.held
      cases v.entry <;> rfl
    rw [he, held_eq rfl, hheld, SecureObjectRecord.pairs, htmp, hlist]
    simp [SecureObjectRecord.pairs, or_assoc, and_assoc, eq_comm]

theorem PathOk.entry_getD (h : PathOk w v path) (prevOff : Nat) :
    EntryOk path w.durable (v.entry.getD ⟨[], [], prevOff⟩) := by
  cases he : v.entry with
  | some e => exact h.entry e he
  | none => exact ⟨by simp [SecureObjectRecord.pairs], List.Pairwise.nil, by simp⟩

theorem RunningAt.entry_getD (h : RunningAt g v path) (hprev : g.addedOffset = prevOff) :
    (v.entry.getD ⟨[], [], prevOff⟩).lastCommitOffset ≤ prevOff ∧
      ∀ x ∈ (v.entry.getD ⟨[], [], prevOff⟩).pairs, x.1 ≤ prevOff := by
  cases he : v.entry with
  | some e =>
      obtain ⟨hcommit, hpairs⟩ := h.entry e he
      exact ⟨hprev ▸ hcommit, fun x hx => hprev ▸ (hpairs x hx).1⟩
  | none => exact ⟨le_rfl, by simp [SecureObjectRecord.pairs]⟩

theorem LifeOk.addEntries {l : Life} {file : InfoFile} (h : LifeOk w v path l file)
    (hrun : RunningAt g v path) (hl : v.container.life = some l)
    (hfile : v.container.infoFile = some file) (hbatch : SyncedBatch w prevOff syncOff records)
    (hg : g.batch = .synced records prevOff syncOff)
    (hsafe : ∀ r ∈ records, r.path = path → v.container.created = 0) :
    LifeOk { w with added := records }
      { v with entry := addedTo v.entry records path prevOff syncOff } path l file := by
  have hnew : ∀ r ∈ records, r.path = path → l.createdAt < r.stop ∧
      file.journalOffset ≤ r.start ∧ ∀ f ∈ v.flush, f.copy.journalOffset ≤ r.start := by
    intro r hr hpath
    obtain ⟨hcreated, hoffset, hcopy⟩ := hrun.life l hl r (by rw [hg]; exact hr) hpath
    exact ⟨hcreated, hoffset file hfile, hcopy⟩
  have hprev : g.addedOffset = prevOff := by simp [Progress.addedOffset, hg]
  constructor
  · exact h.createdAt
  · exact h.offset
  · exact h.applied
  · intro x hx hstop
    rcases mem_held_addedTo.mp hx with hx | ⟨r, hr, hpath, rfl⟩
    · exact h.old x hx hstop
    · have := (hnew r hr hpath).1
      simp only at hstop
      omega
  · exact h.oldJournal
  · rintro r (hr | ⟨hr, hpath⟩)
    · obtain ⟨hpath, hlt, hcreated, hpending⟩ := h.owed r (.inl hr)
      refine ⟨hpath, hlt, hcreated, fun hnot => ?_⟩
      have hp := hpending hnot
      refine ⟨hp.kept, hp.survives, hp.ahead, hp.ending, hp.present.imp_left ?_⟩
      rintro ⟨x, hx, hxr⟩
      exact ⟨x, mem_held_addedTo.mpr (.inl hx), hxr⟩
    · obtain ⟨hwritten, hle, hlt, hstop⟩ := hbatch.records r hr
      obtain ⟨hcreated, hoffset, -⟩ := hnew r hr hpath
      refine ⟨hpath, hlt, hcreated, fun _ => ⟨⟨hwritten, ?_, ?_⟩, ?_, hoffset, ?_, .inl ?_⟩⟩
      · exact fun c start stop hc => (hbatch.headers c start stop hc).trans hle
      · exact fun o start stop ho => (hbatch.markers _ o start stop ho).trans hle
      · exact hbatch.survives r hr
      · exact fun o ho => (hbatch.ending _ ho).trans hle
      · exact ⟨(syncOff, r), mem_held_addedTo.mpr (.inr ⟨r, hr, hpath, rfl⟩), rfl⟩
  · intro hne x hx
    rcases mem_held_addedTo.mp hx with hx | ⟨r, hr, hpath, -⟩
    · exact h.erasing hne x hx
    · exact absurd (hsafe r hr hpath) hne
  · intro f hf
    have hcopy := h.copy f hf
    refine ⟨hcopy.records, hcopy.applied, hcopy.offset, hcopy.durable, ?_⟩
    rintro r (hr | ⟨hr, hpath⟩) hnot
    · exact hcopy.ahead r (.inl hr) hnot
    · obtain ⟨-, hle, -⟩ := hbatch.records r hr
      exact ⟨(hnew r hr hpath).2.2 f hf, (hprev ▸ hrun.syncOff f hf).trans hle⟩

theorem PathOk.addEntries (h : PathOk w v path) (hrun : RunningAt g v path)
    (hbatch : SyncedBatch w prevOff syncOff records)
    (hg : g.batch = .synced records prevOff syncOff) (hdurable : w.durable = syncOff)
    (hsafe : ∀ r ∈ records, r.path = path → v.container.created = 0) :
    PathOk { w with added := records }
      { v with entry := addedTo v.entry records path prevOff syncOff } path := by
  have hlife : ∀ l ∈ v.container.life, ∃ file, v.container.infoFile = some file ∧
      LifeOk { w with added := records }
        { v with entry := addedTo v.entry records path prevOff syncOff } path l file := by
    intro l hl
    obtain ⟨file, hfile, hlife⟩ := h.life l hl
    exact ⟨file, hfile, hlife.addEntries hrun hl hfile hbatch hg hsafe⟩
  by_cases hnone : ∀ r ∈ records, r.path ≠ path
  · have hsame : ({ v with entry := addedTo v.entry records path prevOff syncOff } : View) = v := by
      rw [addedTo_of_none hnone]
    rw [hsame] at hlife ⊢
    exact ⟨h.entry, h.waiting, h.unreleased, hlife⟩
  · obtain ⟨r, hr, hpath⟩ : ∃ r ∈ records, r.path = path := by simpa using hnone
    obtain ⟨e, he, htmp, -, hlist⟩ := addedTo_of_mem v.entry prevOff syncOff hr hpath
    have hprev : g.addedOffset = prevOff := by simp [Progress.addedOffset, hg]
    obtain ⟨-, hpairs⟩ := hrun.entry_getD hprev
    have hentry : EntryOk path syncOff ⟨_, _, e.lastCommitOffset⟩ :=
      (h.entry_getD prevOff).append (records.filter (·.path = path)) hdurable.le
        fun r hr => by
          obtain ⟨hr, hrpath⟩ := List.mem_filter.mp hr
          obtain ⟨-, hle, hlt, hstop⟩ := hbatch.records r hr
          exact ⟨by simpa using hrpath, hlt, hstop, fun x hx => (hpairs x hx).trans hle⟩
    rw [← htmp, ← hlist] at hentry
    refine ⟨fun e' he' => ?_, fun o ho => ?_, fun f hf hfalse e' he' x hx => ?_, hlife⟩
    · obtain rfl : e = e' := Option.some.inj (he.symm.trans he')
      exact hdurable ▸ hentry
    · obtain ⟨⟨e₀, he₀, x, hx, hxo⟩, hreleased⟩ := h.waiting o ho
      refine ⟨⟨e, he, x, ?_, hxo⟩, hreleased⟩
      rw [htmp, show v.entry = some e₀ from he₀]
      exact hx
    · obtain rfl : e = e' := Option.some.inj (he.symm.trans he')
      rw [htmp] at hx
      cases hv : v.entry with
      | some e₀ =>
          rw [hv] at hx
          exact h.unreleased f hf hfalse e₀ hv x hx
      | none =>
          rw [hv] at hx
          simp at hx

theorem RunningAt.addEntries (h : RunningAt g v path)
    (hg : g.batch = .synced records prevOff syncOff) (hsync : syncOff = g.lastSyncOffset)
    (hle : prevOff ≤ syncOff) (hrecords : ∀ r ∈ records, prevOff ≤ r.start)
    (hcommits : ∀ c ∈ g.commits, c ≤ prevOff) :
    RunningAt { g with batch := .added records }
      { v with entry := addedTo v.entry records path prevOff syncOff } path := by
  have hprev : g.addedOffset = prevOff := by simp [Progress.addedOffset, hg]
  have hnow : ({ g with batch := .added records } : Progress).addedOffset = syncOff := hsync.symm
  refine ⟨fun e' he' => ?_, fun f hf => ?_, fun o ho => ?_, fun l hl r hr => ?_⟩
  · rw [hnow]
    by_cases hnone : ∀ r ∈ records, r.path ≠ path
    · simp only [addedTo_of_none hnone] at he'
      obtain ⟨hcommit, hpairs⟩ := h.entry e' he'
      refine ⟨(hprev ▸ hcommit).trans hle, fun x hx => ?_⟩
      obtain ⟨hx, hrest⟩ := hpairs x hx
      exact ⟨(hprev ▸ hx).trans hle, hrest⟩
    · obtain ⟨r, hr, hpath⟩ : ∃ r ∈ records, r.path = path := by simpa using hnone
      obtain ⟨e, he, htmp, hlast, hlist⟩ := addedTo_of_mem v.entry prevOff syncOff hr hpath
      obtain rfl : e = e' := Option.some.inj (he.symm.trans he')
      obtain ⟨hcommit, hpairs⟩ := h.entry_getD hprev
      refine ⟨hlast ▸ hcommit.trans hle, fun x hx => ?_⟩
      have hx' : x ∈ (v.entry.getD ⟨[], [], prevOff⟩).pairs ∨
          ∃ r ∈ records, x = (syncOff, r) := by
        rw [SecureObjectRecord.pairs, htmp, hlist, ← List.append_assoc] at hx
        rcases List.mem_append.mp hx with hx | hx
        · exact .inl hx
        · obtain ⟨r, hr, rfl⟩ := List.mem_map.mp hx
          exact .inr ⟨r, (List.mem_filter.mp hr).1, rfl⟩
      rcases hx' with hx | ⟨r, hr, rfl⟩
      · refine ⟨(hpairs x hx).trans hle, ?_⟩
        cases hv : v.entry with
        | some e₀ =>
            rw [hv] at hx hlast
            exact hlast ▸ ((h.entry e₀ hv).2 x hx).2
        | none =>
            rw [hv] at hx
            simp [SecureObjectRecord.pairs] at hx
      · exact ⟨le_rfl, hlast ▸ hcommit.trans (hrecords r hr),
          fun c hc => (hcommits c hc).trans (hrecords r hr)⟩
  · rw [hnow]
    exact (hprev ▸ h.syncOff f hf).trans hle
  · obtain ⟨hosync, hheld, hobjects, hbatch⟩ := h.sampled o ho
    refine ⟨hosync, fun x hx => ?_, fun r hr hpath => ?_, fun _ _ _ hb => by cases hb⟩
    · rcases mem_held_addedTo.mp hx with hx | ⟨r, hr, hpath, rfl⟩
      · exact hheld x hx
      · exact hbatch records prevOff syncOff hg ⟨r, hr, hpath⟩
    · rcases hobjects r hr hpath with hle | hin
      · exact .inl hle
      · rw [hg] at hin
        simp [BatchStage.unsynced] at hin
  · simp [BatchStage.unadded] at hr

theorem RunningAt.write {record : ObjectRecord} (h : RunningAt g v path) (hpath : PathOk w v path)
    (hg : g.batch = .writing records) (hstart : w.durable ≤ record.start)
    (hlt : record.start < record.stop) :
    RunningAt { g with
      journal := g.journal ++ [.object record]
      batch := .writing (records ++ [record]) } v path := by
  have hadded : g.addedOffset = g.lastSyncOffset := by simp [Progress.addedOffset, hg]
  refine ⟨hadded ▸ h.entry, hadded ▸ h.syncOff, fun o ho => ?_, fun l hl r hr hrpath => ?_⟩
  · obtain ⟨hsync, hheld, hobjects, -⟩ := h.sampled o ho
    refine ⟨hsync, hheld, fun r hr hrpath => ?_, fun _ _ _ hb => by cases hb⟩
    rcases List.mem_append.mp hr with hr | hr
    · rw [hg] at hobjects
      exact (hobjects r hr hrpath).imp_right fun hin => List.mem_append_left _ hin
    · cases List.mem_singleton.mp hr
      exact .inr (List.mem_append_right _ (List.mem_singleton_self _))
  · rcases List.mem_append.mp hr with hr | hr
    · exact h.life l hl r (by rw [hg]; exact hr) hrpath
    · obtain rfl := List.mem_singleton.mp hr
      obtain ⟨file, hfile, hlife⟩ := hpath.life l hl
      refine ⟨Nat.lt_of_le_of_lt (hlife.createdAt.trans hstart) hlt, fun file' hfile' => ?_,
        fun f hf => (hlife.copy f hf).durable.trans hstart⟩
      obtain rfl : file = file' := Option.some.inj (hfile.symm.trans hfile')
      exact hlife.offset.trans hstart

theorem RunningAt.sync {stop : Nat} (h : RunningAt g v path) (hg : g.batch = .writing records)
    (hle : g.lastSyncOffset ≤ stop)
    (hsafe : ∀ r ∈ records, r.path = path → v.container.sampled = []) :
    RunningAt { g with
      batch := .synced records g.lastSyncOffset stop
      lastSyncOffset := stop } v path := by
  have hadded : g.addedOffset = g.lastSyncOffset := by simp [Progress.addedOffset, hg]
  refine ⟨hadded ▸ h.entry, hadded ▸ h.syncOff, fun o ho => ?_, fun l hl r hr hrpath => ?_⟩
  · obtain ⟨hsync, hheld, hobjects, -⟩ := h.sampled o ho
    have hnone : ∀ r ∈ records, r.path ≠ path := fun r hr hrpath => by
      rw [hsafe r hr hrpath] at ho
      simp at ho
    refine ⟨hsync.trans hle, hheld, fun r hr hrpath => ?_, fun rs _ _ hb hin => ?_⟩
    · rcases hobjects r hr hrpath with hle | hin
      · exact .inl hle
      · rw [hg] at hin
        exact absurd hrpath (hnone r hin)
    · cases hb
      obtain ⟨r, hr, hrpath⟩ := hin
      exact absurd hrpath (hnone r hr)
  · exact h.life l hl r (by rw [hg]; exact hr) hrpath

theorem RunningAt.append_journal {j : JournalRecord} (h : RunningAt g v path)
    (hj : ∀ r, j ≠ .object r) : RunningAt { g with journal := g.journal ++ [j] } v path where
  entry := h.entry
  syncOff := h.syncOff
  sampled o ho := by
    obtain ⟨hsync, hheld, hobjects, hbatch⟩ := h.sampled o ho
    refine ⟨hsync, hheld, fun r hr hpath => ?_, hbatch⟩
    rcases List.mem_append.mp hr with hr | hr
    · exact hobjects r hr hpath
    · exact absurd (List.mem_singleton.mp hr).symm (hj r)
  life := h.life

theorem RunningAt.setCommits {commits : List Nat} (h : RunningAt g v path)
    (hcommits : ∀ c ∈ commits, c ∈ g.commits ∨ ∀ e ∈ v.entry, c ≤ e.lastCommitOffset) :
    RunningAt { g with commits := commits } v path where
  entry e he := by
    obtain ⟨hcommit, hpairs⟩ := h.entry e he
    refine ⟨hcommit, fun x hx => ?_⟩
    obtain ⟨hle, hcommitx, hold⟩ := hpairs x hx
    refine ⟨hle, hcommitx, fun c hc => ?_⟩
    rcases hcommits c hc with hc | hc
    · exact hold c hc
    · exact (hc e he).trans hcommitx
  syncOff := h.syncOff
  sampled := h.sampled
  life := h.life

theorem RunningAt.setBatch {batch : BatchStage} {c : ContainerState} (h : RunningAt g v path)
    (hg : g.batch = .added records) (hunadded : batch.unadded = [])
    (hsynced : ∀ rs prevOff syncOff, batch ≠ .synced rs prevOff syncOff)
    (hsampled : c.sampled = v.container.sampled) :
    RunningAt { g with batch := batch } { v with container := c } path := by
  have hadded : ({ g with batch := batch } : Progress).addedOffset = g.addedOffset := by
    unfold Progress.addedOffset
    rw [hg]
    cases batch with
    | synced rs prevOff syncOff => exact absurd rfl (hsynced rs prevOff syncOff)
    | writing rs => rfl
    | added rs => rfl
  refine ⟨hadded ▸ h.entry, hadded ▸ h.syncOff, fun o ho => ?_, fun l hl r hr => ?_⟩
  · obtain ⟨hsync, hheld, hobjects, -⟩ := h.sampled o (hsampled ▸ ho)
    refine ⟨hsync, hheld, fun r hr hpath => ?_, fun rs _ _ hb => absurd hb (hsynced rs _ _)⟩
    rcases hobjects r hr hpath with hle | hin
    · exact .inl hle
    · rw [hg] at hin
      simp [BatchStage.unsynced] at hin
  · rw [show ({ g with batch := batch } : Progress).batch.unadded = [] from hunadded] at hr
    simp at hr

/-- The callback of a record of this life: it was owed before. -/
theorem PathOk.acknowledge {record : ObjectRecord} (h : PathOk w v path)
    (hw : w.added = record :: records) (hrecord : record.path = path) :
    PathOk { w with added := records }
      { v with container := { v.container with
          life := v.container.life.map fun l =>
            { l with acknowledged := record :: l.acknowledged } } } path where
  entry := h.entry
  waiting := h.waiting
  unreleased := h.unreleased
  life l' hl' := by
    obtain ⟨l, hl, rfl⟩ := Option.map_eq_some_iff.mp hl'
    obtain ⟨file, hfile, hlife⟩ := h.life l hl
    have hmono : LifeOk { w with added := records } v path
        { l with acknowledged := record :: l.acknowledged } file := by
      refine hlife.mono ⟨rfl, fun o ho => ho, le_rfl, fun _ => .inl⟩ rfl fun r hr => ?_
      unfold Life.Owes
      rw [hw]
      rcases hr with hr | ⟨hr, hpath⟩
      · rcases List.mem_cons.mp hr with rfl | hr
        · exact .inr ⟨List.mem_cons_self, hrecord⟩
        · exact .inl hr
      · exact .inr ⟨List.mem_cons_of_mem _ hr, hpath⟩
    exact ⟨file, hfile, hmono.shrink (fun x hx => hx) id (fun r _ _ hp => hp.present) hmono.copy⟩

/-! #### Journal files are removed -/

/-- The header that a recovery starts from is behind all that is removed. -/
theorem PathOk.removeOldFiles {oldest : Nat} (h : PathOk w v path)
    (hkept : ∃ c ∈ ((w.journal.filter fun e => oldest ≤ e.start).filterMap
      JournalRecord.commit?).getLast?, oldest ≤ c) :
    PathOk { w with journal := w.journal.filter fun e => oldest ≤ e.start } v path := by
  obtain ⟨c, hc, hle⟩ := hkept
  have hsub : (w.journal.filter fun e => oldest ≤ e.start).Sublist w.journal :=
    List.filter_sublist
  obtain ⟨start, stop, hin⟩ := Journal.exists_checkpoint hc
  have hheader : .checkpoint c start stop ∈ w.journal := hsub.subset hin
  refine ⟨h.entry, h.waiting, h.unreleased, fun l hl => ?_⟩
  obtain ⟨file, hfile, hlife⟩ := h.life l hl
  refine ⟨file, hfile,
    { hlife with oldJournal := fun r hr => ?_, owed := fun r hr => ?_, copy := ?_ }⟩
  · exact hlife.oldJournal r (hsub.subset hr)
  · obtain ⟨hpath, hlt, hcreated, hpending⟩ := hlife.owed r hr
    refine ⟨hpath, hlt, hcreated, fun hnot => ?_⟩
    have hp := hpending hnot
    have hin : oldest ≤ r.start := hle.trans (hp.kept.commit c start stop hheader)
    exact { hp with kept := ⟨List.mem_filter.mpr ⟨hp.kept.written, decide_eq_true hin⟩,
      fun c start stop hc => hp.kept.commit c start stop (hsub.subset hc),
      fun o start stop ho => hp.kept.marker o start stop (hsub.subset ho)⟩ }
  · intro f hf
    have hcopy := hlife.copy f hf
    exact ⟨hcopy.records, hcopy.applied, hcopy.offset, hcopy.durable, hcopy.ahead⟩

theorem RunningAt.removeOldFiles {journal : Journal} (h : RunningAt g v path)
    (hsub : journal ⊆ g.journal) : RunningAt { g with journal := journal } v path where
  entry := h.entry
  syncOff := h.syncOff
  sampled o ho := by
    obtain ⟨hsync, hheld, hobjects, hbatch⟩ := h.sampled o ho
    exact ⟨hsync, hheld, fun r hr => hobjects r (hsub hr), hbatch⟩
  life := h.life

/-! #### A crash, and the end of a recovery -/

/-- What a restart leaves of a path: the info file, and the records that the journal gives back. -/
theorem PathOk.crash {journalEnd : Nat} {lost : List (Nat × Nat)} (h : PathOk w v path)
    (hordered : w.journal.Ordered) (hdurable : w.durable ≤ journalEnd)
    (hlost : ∀ region ∈ lost, ∃ end' ∈ w.unsynced, end'.1 ≤ region.1 ∧ region.2 = end'.2) :
    let journal := w.journal.filter fun e => e.stop ≤ journalEnd ∧ e.Outside lost
    PathOk ⟨journal, [], journalEnd, [], []⟩
      ⟨{ v.container with sampled := [], created := 0, deleting := 0 },
        (Journal.recover journal)[path]?, none, none⟩ path := by
  intro journal
  have hsub : journal.Sublist w.journal := List.filter_sublist
  have hcut : Journal.Ordered journal :=
    ⟨fun e he => hordered.1 e (hsub.subset he), hordered.2.sublist hsub⟩
  have hrecovered : ∀ e, (Journal.recover journal)[path]? = some e → ∀ x ∈ e.pairs,
      x.1 = x.2.stop ∧ x.2.path = path ∧ .object x.2 ∈ journal := by
    intro e he x hx
    obtain ⟨htmp, -, hrecords⟩ := Journal.recover_spec hcut he
    rw [SecureObjectRecord.pairs, htmp, List.nil_append] at hx
    exact hrecords x hx
  refine ⟨fun e he => ?_, fun o ho => ?_, fun f hf => ?_, fun l hl => ?_⟩
  · obtain ⟨htmp, hsorted, -⟩ := Journal.recover_spec hcut he
    refine ⟨fun x hx => ?_, ?_, fun x hx => ?_⟩
    · obtain ⟨hstop, hpath, hin⟩ := hrecovered e he x hx
      have hle : x.2.stop ≤ journalEnd := (of_decide_eq_true (List.mem_filter.mp hin).2).1
      exact ⟨hpath, hcut.1 _ hin, hstop.ge, hstop ▸ hle⟩
    · rwa [SecureObjectRecord.pairs, htmp]
    · rw [htmp] at hx
      simp at hx
  · cases ho
  · cases hf
  · obtain ⟨file, hfile, hlife⟩ := h.life l hl
    refine ⟨file, hfile, ?_⟩
    constructor
    · exact hlife.createdAt.trans hdurable
    · exact hlife.offset.trans hdurable
    · exact hlife.applied
    · intro x hx hstop
      obtain ⟨e, he, hx⟩ := View.mem_held.mp hx
      obtain ⟨heq, hpath, hin⟩ := hrecovered e he x hx
      exact heq ▸ hlife.oldJournal x.2 (hsub.subset hin) hpath hstop
    · exact fun r hr => hlife.oldJournal r (hsub.subset hr)
    · rintro r (hr | ⟨hr, -⟩)
      · obtain ⟨hpath, hlt, hcreated, hpending⟩ := hlife.owed r (.inl hr)
        refine ⟨hpath, hlt, hcreated, fun hnot => ?_⟩
        have hp := hpending hnot
        have hkept : Journal.Kept journal r := by
          refine ⟨List.mem_filter.mpr ⟨hp.kept.written, ?_⟩, ?_, ?_⟩
          · refine decide_eq_true ⟨hp.survives.1.trans hdurable, fun region hregion => ?_⟩
            obtain ⟨end', hend, hstart, hstop⟩ := hlost region hregion
            rw [hstop]
            exact (hp.survives.2 end' hend).imp_left fun hle => hle.trans hstart
          · exact fun c start stop hc => hp.kept.commit c start stop (hsub.subset hc)
          · exact fun o start stop ho => hp.kept.marker o start stop (hsub.subset ho)
        refine ⟨hkept, ⟨hp.survives.1.trans hdurable, fun _ hin => absurd hin (by simp)⟩, hp.ahead,
          by simp, .inl ?_⟩
        obtain ⟨e, he, hin⟩ := Journal.exists_entry_recover hkept hlt
        rw [hpath] at he
        exact ⟨_, View.mem_held.mpr ⟨e, he, List.mem_append_right _ hin⟩, rfl⟩
      · simp at hr
    · intro hne
      exact absurd rfl hne
    · exact fun f hf => by cases hf

/-- When nothing of the path is in memory, all that it owes is in the info file. -/
theorem PathOk.finishRecovery {nextFile : Nat} (h : PathOk w v path) (hentry : v.entry = none)
    (hwaiting : v.waiting = none) (hflush : v.flush = none) (hle : w.durable ≤ nextFile) :
    PathOk ⟨[], w.ending, nextFile, w.added, []⟩ v path := by
  refine ⟨fun e he => ?_, fun o ho => ?_, fun f hf => ?_, fun l hl => ?_⟩
  · rw [hentry] at he
    cases he
  · rw [hwaiting] at ho
    cases ho
  · rw [hflush] at hf
    cases hf
  · obtain ⟨file, hfile, hlife⟩ := h.life l hl
    refine ⟨file, hfile, ⟨hlife.createdAt.trans hle, hlife.offset.trans hle, hlife.applied,
      hlife.old, by simp, fun r hr => ?_, hlife.erasing, fun f hf => ?_⟩⟩
    · obtain ⟨hpath, hlt, hcreated, hpending⟩ := hlife.owed r hr
      refine ⟨hpath, hlt, hcreated, fun hnot => ?_⟩
      rcases (hpending hnot).present with ⟨x, hx, -⟩ | ⟨f, hf, -⟩
      · obtain ⟨e, he, -⟩ := View.mem_held.mp hx
        rw [hentry] at he
        cases he
      · rw [hflush] at hf
        cases hf
    · rw [hflush] at hf
      cases hf

end

end ObjectStorage.Container
