import ObjectStorage.Container.RecreationInvariant

/-!
A container that is created again is kept apart from its former life in every run whose steps meet
the condition; runs that do not are given where it fails.
-/

namespace ObjectStorage.Container

open Std Library

namespace BatchStage

variable {b : BatchStage} {r : ObjectRecord}

theorem unacknowledged_of_inMemory (hr : r ∈ b.inMemory) : r ∈ b.unacknowledged := by
  cases b with
  | writing records => simp [inMemory] at hr
  | synced records prevOff syncOff => simp [inMemory] at hr
  | added records => exact hr

theorem unsynced_or_unacknowledged (hr : r ∈ b.unadded) :
    r ∈ b.unsynced ∨ r ∈ b.unacknowledged := by
  cases b with
  | writing records => exact .inl hr
  | synced records prevOff syncOff => exact .inr hr
  | added records => simp [unadded] at hr

end BatchStage

namespace ContainerLibrary

def shared (s : ContainerLibrary) : Shared :=
  ⟨s.journal, s.ending, s.durable, s.batch.inMemory, s.unsynced⟩

def progress (s : ContainerLibrary) : Progress :=
  ⟨s.journal, s.batch, s.lastSyncOffset, s.lastCommitOffset :: s.computed⟩

def view (s : ContainerLibrary) (path : String) : View :=
  ⟨s.containers path, s.memory[path]?, s.waiting[path]?, s.flushing[path]?⟩

/-- While the library is not recovering, all offsets that are or may become commit offsets are
those of batches in memory, and the records of the journal are synced except for those of the batch
that is being written. -/
structure Running (s : ContainerLibrary) : Prop where
  durable : s.durable = s.lastSyncOffset
  objects : ∀ r, .object r ∈ s.journal → r.stop ≤ s.lastSyncOffset ∨ r ∈ s.batch.unsynced
  unadded : ∀ r ∈ s.batch.unadded, .object r ∈ s.journal ∧ s.progress.addedOffset ≤ r.start
  unacknowledged : ∀ r ∈ s.batch.unacknowledged, s.shared.Survives r
  added_le : s.progress.addedOffset ≤ s.lastSyncOffset
  synced : ∀ records prevOff syncOff, s.batch = .synced records prevOff syncOff →
    syncOff = s.lastSyncOffset
  commits : ∀ c ∈ s.progress.commits, c ≤ s.progress.addedOffset
  committing : ∀ c ∈ s.committing, c ≤ s.progress.addedOffset
  ending : ∀ e ∈ s.ending, e.2 ≤ s.progress.addedOffset
  headers : ∀ c start stop, .checkpoint c start stop ∈ s.journal → c ≤ s.progress.addedOffset
  markers : ∀ q o start stop, .endFlush q o start stop ∈ s.journal → o ≤ s.progress.addedOffset
  paths : ∀ path, RunningAt s.progress (s.view path) path

structure Inv (s : ContainerLibrary) : Prop where
  ordered : s.journal.Ordered
  written : ∀ e ∈ s.journal, e.stop ≤ s.journalEnd
  durable : s.durable ≤ s.journalEnd
  fileKept : s.journal.FileKept s.oldest
  active : s.activeFile ≤ s.journalEnd
  closed : ∀ region ∈ s.unsynced, region.2 ≤ s.activeFile
  paths : ∀ path, PathOk s.shared (s.view path) path
  idle : s.recovering = true → s.batch = .writing [] ∧
    ∀ path, (s.containers path).sampled = [] ∧ (s.containers path).created = 0
  running : s.recovering = false → s.Running

variable {s s' : ContainerLibrary} {path : String}

theorem inv_start (infoFiles : String → Option InfoFile) (offset : Nat) :
    (start infoFiles offset).Inv := by
  have hpath : ∀ path, PathOk (start infoFiles offset).shared
      ((start infoFiles offset).view path) path := fun path => by
    refine ⟨fun e he => ?_, fun o ho => ?_, fun f hf => ?_, fun l hl => ?_⟩
    · simp [view, start] at he
    · simp [view, start] at ho
    · simp [view, start] at hf
    · cases hl
  have hrunning : ∀ path, RunningAt (start infoFiles offset).progress
      ((start infoFiles offset).view path) path := fun path => by
    refine ⟨fun e he => ?_, fun f hf => ?_, fun o ho => ?_, fun l hl => ?_⟩
    · simp [view, start] at he
    · simp [view, start] at hf
    · simp [view, start] at ho
    · cases hl
  refine ⟨⟨by simp [start], List.Pairwise.nil⟩, by simp [start], le_rfl, by simp [start,
    Journal.FileKept], le_rfl, by simp [start], hpath, ?_, fun _ => ?_⟩
  · intro h
    cases h
  · constructor <;> simp [start, BatchStage.unadded, BatchStage.unacknowledged, progress,
      Progress.addedOffset]
    exact hrunning

theorem writeRecord_eq_some {e : JournalRecord} : s.writeRecord e = some s' ↔
    s.journalEnd ≤ e.start ∧ e.start < e.stop ∧
      s' = { s with journal := s.journal ++ [e], journalEnd := e.stop } := by
  unfold writeRecord
  by_cases h : s.journalEnd ≤ e.start ∧ e.start < e.stop
  · simp [h, eq_comm]
  · rw [if_neg h]
    constructor
    · intro hnone
      cases hnone
    · rintro ⟨hle, hlt, -⟩
      exact absurd ⟨hle, hlt⟩ h

theorem Inv.of_path (h : s.Inv) (path : String) {memory : MemoryManager}
    {waiting : TreeMap String Nat} {flushing : TreeMap String Flush} {ending : List (String × Nat)}
    {containers : String → ContainerState}
    (hother : ∀ q, q ≠ path →
      View.mk (containers q) memory[q]? waiting[q]? flushing[q]? = s.view q)
    (hending : ∀ e ∈ ending, e ∈ s.ending ∨ e.1 = path)
    (hpath : PathOk ⟨s.journal, ending, s.durable, s.batch.inMemory, s.unsynced⟩
      ⟨containers path, memory[path]?, waiting[path]?, flushing[path]?⟩ path)
    (hidle : s.recovering = true → (containers path).sampled = [] ∧ (containers path).created = 0)
    (hrun : s.Running → RunningAt s.progress
      ⟨containers path, memory[path]?, waiting[path]?, flushing[path]?⟩ path ∧
        ∀ e ∈ ending, e.2 ≤ s.progress.addedOffset) :
    Inv { s with
      memory := memory
      waiting := waiting
      flushing := flushing
      ending := ending
      containers := containers } where
  ordered := h.ordered
  written := h.written
  durable := h.durable
  fileKept := h.fileKept
  active := h.active
  closed := h.closed
  paths q := by
    by_cases hq : q = path
    · exact hq ▸ hpath
    · have hmono : PathOk ⟨s.journal, ending, s.durable, s.batch.inMemory, s.unsynced⟩
          (s.view q) q :=
        (h.paths q).mono ⟨rfl, fun o ho => (hending _ ho).resolve_right hq, le_rfl, fun _ => .inl⟩
          fun r hr _ => hr
      rw [← hother q hq] at hmono
      exact hmono
  idle hr := by
    obtain ⟨hbatch, hidles⟩ := h.idle hr
    refine ⟨hbatch, fun q => ?_⟩
    by_cases hq : q = path
    · exact hq ▸ hidle hr
    · have hc : containers q = s.containers q := congrArg View.container (hother q hq)
      show (containers q).sampled = [] ∧ (containers q).created = 0
      rw [hc]
      exact hidles q
  running hr := by
    have hrunning := h.running hr
    obtain ⟨hrunpath, hendings⟩ := hrun hrunning
    refine { hrunning with ending := hendings, paths := fun q => ?_ }
    by_cases hq : q = path
    · exact hq ▸ hrunpath
    · have := hrunning.paths q
      rw [← hother q hq] at this
      exact this

/-! ### Flushes -/

theorem Inv.getFlushRecords (h : s.Inv) (hsafe : s.Safe (.getFlushRecords path))
    (hstep : s.step (.getFlushRecords path) = some s') : s'.Inv := by
  simp only [step] at hstep
  split at hstep
  · next records memory hwaiting hget =>
      obtain ⟨e, he, htmp, rfl, rfl⟩ := MemoryManager.getFlushRecords_eq_some.mp hget
      obtain ⟨last, hlast, rfl⟩ := Option.map_eq_some_iff.mp hstep
      have hreleased : ∀ f ∈ (s.view path).flush, f.released = true := fun f hf => by
        by_contra hne
        obtain ⟨e', he', htmp'⟩ := hsafe f hf (by simpa using hne)
        obtain rfl : e = e' := Option.some.inj (he.symm.trans he')
        exact htmp' htmp
      have hflushed : e.flushed = { e with tmpRecordList := e.recordList, recordList := [] } := by
        rw [SecureObjectRecord.flushed, htmp]
      refine h.of_path path (fun q hq => ?_) (fun e he => .inl he) ?_ (fun hr => (h.idle hr).2 path)
        fun hrun => ⟨?_, hrun.ending⟩
      · simp [view, Ne.symm hq]
      · simp only [getElem?_insert_eq, ↓reduceIte, ← hflushed]
        exact (h.paths path).getFlushRecords he htmp hlast hreleased
      · simp only [getElem?_insert_eq, ↓reduceIte, ← hflushed]
        exact (hrun.paths path).getFlushRecords he htmp
  · cases hstep

theorem Inv.flushContainer {garbage : Nat} (h : s.Inv)
    (hstep : s.step (.flushContainer path garbage) = some s') : s'.Inv := by
  simp only [step] at hstep
  split at hstep
  · next syncOff hwaiting hflush =>
      have hpath := h.paths path
      obtain ⟨⟨e, he, last, hlast, rfl⟩, -⟩ := hpath.waiting syncOff hwaiting
      have hidle : s.recovering = true →
          (s.containers path).sampled = [] ∧ (s.containers path).created = 0 :=
        fun hr => (h.idle hr).2 path
      split at hstep
      · next hfile =>
          obtain rfl := Option.some.inj hstep
          have hother : ∀ q, q ≠ path → View.mk (s.containers q)
              (s.memory.releaseFlushRecords path garbage)[q]? (s.waiting.erase path)[q]?
              s.flushing[q]? = s.view q := fun q hq => by
            simp [view, MemoryManager.getElem?_releaseFlushRecords, Ne.symm hq]
          have hentry : (s.memory.releaseFlushRecords path garbage)[path]? =
              released s.memory[path]? garbage := by
            simp [MemoryManager.getElem?_releaseFlushRecords, released]
          refine h.of_path path hother (fun e he => ?_) ?_ hidle fun hrun => ⟨?_, fun e' he' => ?_⟩
          · exact (List.mem_cons.mp he).elim (fun heq => .inr (congrArg Prod.fst heq)) .inl
          · simp only [hentry, getElem?_erase_eq, ↓reduceIte]
            exact hpath.releaseMissing hflush hfile rfl
          · simp only [hentry, getElem?_erase_eq, ↓reduceIte]
            refine (hrun.paths path).released none hpath fun e' he' hempty => ?_
            obtain rfl : e = e' := Option.some.inj (Eq.trans he.symm he')
            simp [hempty] at hlast
          · rcases List.mem_cons.mp he' with rfl | he'
            · exact ((hrun.paths path).entry e he).2 last
                (List.mem_append_left _ (List.mem_of_getLast? hlast)) |>.1
            · exact hrun.ending e' he'
      · next file hfile =>
          rw [MemoryManager.popFlushRecords_of_some he] at hstep
          obtain rfl := Option.some.inj hstep
          refine h.of_path path (fun q hq => ?_) (fun e he => .inl he) ?_ hidle
            fun hrun => ⟨?_, hrun.ending⟩
          · simp [view, Ne.symm hq]
          · simp only [getElem?_insert_eq, getElem?_erase_eq, ↓reduceIte]
            exact hpath.flushContainer he hwaiting hflush hfile
          · simp only [getElem?_insert_eq, getElem?_erase_eq, ↓reduceIte]
            exact (hrun.paths path).flushContainer hpath (fun r hr => (hrun.unadded r hr).2) he
              hwaiting hfile
  · cases hstep

theorem Inv.releaseFlushRecords {garbage : Nat} (h : s.Inv)
    (hsafe : s.Safe (.releaseFlushRecords path garbage))
    (hstep : s.step (.releaseFlushRecords path garbage) = some s') : s'.Inv := by
  simp only [step] at hstep
  split at hstep
  · next copy syncOff hflush =>
      obtain rfl := Option.some.inj hstep
      have hentry : (s.memory.releaseFlushRecords path garbage)[path]? =
          released s.memory[path]? garbage := by
        simp [MemoryManager.getElem?_releaseFlushRecords, released]
      refine h.of_path path (fun q hq => ?_) (fun e he => .inl he) ?_ (fun hr => (h.idle hr).2 path)
        fun hrun => ⟨?_, hrun.ending⟩
      · simp [view, MemoryManager.getElem?_releaseFlushRecords, Ne.symm hq]
      · simp only [hentry, getElem?_insert_eq, ↓reduceIte]
        exact (h.paths path).releaseFlushRecords hflush
      · simp only [hentry, getElem?_insert_eq, ↓reduceIte]
        have hreleased := (hrun.paths path).released (s.waiting[path]?) (h.paths path) hsafe
        refine { hreleased with syncOff := fun f hf => ?_, life := fun l hl r hr hrpath => ?_ }
        · cases hf
          exact (hrun.paths path).syncOff ⟨copy, syncOff, false⟩ hflush
        · obtain ⟨hcreated, hoffset, hcopy⟩ := (hrun.paths path).life l hl r hr hrpath
          refine ⟨hcreated, hoffset, fun f hf => ?_⟩
          cases hf
          exact hcopy ⟨copy, syncOff, false⟩ hflush
  · cases hstep

theorem Inv.renameTmpFile (h : s.Inv) (hstep : s.step (.renameTmpFile path) = some s') :
    s'.Inv := by
  simp only [step] at hstep
  split at hstep
  · next copy syncOff hflush =>
      obtain rfl := Option.some.inj hstep
      refine h.of_path path (fun q hq => ?_) (fun e he => ?_) ?_ (fun hr => ?_)
        fun hrun => ⟨?_, fun e he => ?_⟩
      · simp [view, hq, Ne.symm hq]
      · exact (List.mem_cons.mp he).elim (fun heq => .inr (congrArg Prod.fst heq)) .inl
      · simp only [getElem?_erase_eq, ↓reduceIte, Function.update_self]
        exact (h.paths path).renameTmpFile hflush
      · simpa using (h.idle hr).2 path
      · simp only [getElem?_erase_eq, ↓reduceIte, Function.update_self]
        exact (hrun.paths path).renameTmpFile hflush
      · rcases List.mem_cons.mp he with rfl | he
        · exact (hrun.paths path).syncOff _ hflush
        · exact hrun.ending e he
  · cases hstep

/-! ### Creations and deletions -/

theorem Inv.getLastSyncOffset (h : s.Inv) (hstep : s.step (.getLastSyncOffset path) = some s') :
    s'.Inv := by
  simp only [step] at hstep
  split at hstep
  · cases hstep
  · next hrecovering =>
      obtain rfl := Option.some.inj hstep
      refine h.of_path path (fun q hq => ?_) (fun e he => .inl he) ?_
        (fun hr => absurd hr hrecovering) fun hrun => ⟨?_, hrun.ending⟩
      · simp [view, hq]
      · rw [Function.update_self]
        exact (h.paths path).setSampled _
      · rw [Function.update_self]
        refine (hrun.paths path).setSampled (fun o ho => ?_) hrun.added_le hrun.objects hrun.synced
        exact (List.mem_cons.mp ho).symm

theorem Inv.unsynced_lt (h : s.Inv) (hrun : s.Running) {r : ObjectRecord}
    (hr : r ∈ s.batch.unsynced) :
    .object r ∈ s.journal ∧ s.lastSyncOffset ≤ r.start ∧ r.start < r.stop := by
  cases hbatch : s.batch with
  | writing records =>
      have hunadded : r ∈ s.batch.unadded := by
        rw [hbatch] at hr ⊢
        exact hr
      obtain ⟨hin, hle⟩ := hrun.unadded r hunadded
      have hadded : s.progress.addedOffset = s.lastSyncOffset := by
        simp [progress, Progress.addedOffset, hbatch]
      exact ⟨hin, hadded ▸ hle, h.ordered.1 _ hin⟩
  | synced records prevOff syncOff => simp [hbatch, BatchStage.unsynced] at hr
  | added records => simp [hbatch, BatchStage.unsynced] at hr

theorem Inv.addContainer {offset : Nat} (h : s.Inv) (hsafe : s.Safe (.addContainer path offset))
    (hstep : s.step (.addContainer path offset) = some s') : s'.Inv := by
  simp only [step] at hstep
  split at hstep
  · next hguard =>
      obtain ⟨hsampled, hflush⟩ := hguard
      have hrecovering : s.recovering = false := by
        by_contra hne
        have := ((h.idle (by simpa using hne)).2 path).1
        simp [this] at hsampled
      have hnot : ¬ s.recovering = true := by simp [hrecovering]
      split at hstep
      · next hfile =>
          obtain rfl := Option.some.inj hstep
          have hfresh := hsafe hfile
          refine h.of_path path (fun q hq => ?_) (fun e he => .inl he) ?_
            (fun hr => absurd hr hnot) fun hrun => ⟨?_, hrun.ending⟩
          · simp [view, hq]
          · rw [Function.update_self]
            have hrun := h.running hrecovering
            refine (h.paths path).addContainer (hrun.paths path) hsampled hflush (fun r hr => ?_)
              rfl hrun.durable fun r hr => ?_
            · exact hfresh r (BatchStage.unacknowledged_of_inMemory hr)
            · obtain ⟨-, hle, hlt⟩ := h.unsynced_lt hrun hr
              exact Nat.lt_of_le_of_lt hle hlt
          · rw [Function.update_self]
            refine (hrun.paths path).addContainer hsampled hflush fun r hr hrpath => ?_
            rcases BatchStage.unsynced_or_unacknowledged hr with hr | hr
            · exact (h.unsynced_lt hrun hr).2
            · exact absurd hrpath (hfresh r hr)
      · next file hfile =>
          obtain rfl := Option.some.inj hstep
          refine h.of_path path (fun q hq => ?_) (fun e he => .inl he) ?_
            (fun hr => absurd hr hnot) fun hrun => ⟨?_, hrun.ending⟩
          · simp [view, hq]
          · rw [Function.update_self]
            exact (h.paths path).setSampled _
          · rw [Function.update_self]
            exact (hrun.paths path).setSampled (fun o ho => .inl (List.mem_of_mem_erase ho))
              hrun.added_le hrun.objects hrun.synced
  · cases hstep

theorem Inv.eraseCreated (h : s.Inv) (hstep : s.step (.eraseCreated path) = some s') :
    s'.Inv := by
  simp only [step] at hstep
  split at hstep
  · next n hcreated =>
      obtain rfl := Option.some.inj hstep
      have hentry : (s.memory.deleteContainer path).2[path]? = deleted s.memory[path]? := by
        simp [MemoryManager.getElem?_deleteContainer, deleted]
      refine h.of_path path (fun q hq => ?_) (fun e he => .inl he) ?_ (fun hr => ?_)
        fun hrun => ⟨?_, hrun.ending⟩
      · simp [view, MemoryManager.getElem?_deleteContainer, hq, Ne.symm hq]
      · rw [Function.update_self, hentry]
        exact (h.paths path).eraseCreated hcreated
      · have := ((h.idle hr).2 path).2
        omega
      · rw [Function.update_self, hentry]
        exact (hrun.paths path).eraseCreated
  · cases hstep

theorem Inv.memDelete (h : s.Inv) (hstep : s.step (.memDelete path) = some s') : s'.Inv := by
  simp only [step] at hstep
  split at hstep
  · next hguard =>
      have hnot : ¬ s.recovering = true := by simp [hguard.1]
      split at hstep
      · next memory hdelete =>
          obtain rfl := Option.some.inj hstep
          have hfst : (s.memory.deleteContainer path).1 = true := by rw [hdelete]
          have hsnd : memory = (s.memory.deleteContainer path).2 := by rw [hdelete]
          have hentry : memory[path]? = deleted s.memory[path]? := by
            rw [hsnd]
            simp [MemoryManager.getElem?_deleteContainer, deleted]
          refine h.of_path path (fun q hq => ?_) (fun e he => .inl he) ?_
            (fun hr => absurd hr hnot) fun hrun => ⟨?_, hrun.ending⟩
          · rw [hsnd]
            simp [view, MemoryManager.getElem?_deleteContainer, hq, Ne.symm hq]
          · rw [Function.update_self, hentry]
            refine (h.paths path).endLife rfl (fun e he => (deleted_eq_some.mp he).1)
              fun e he hne => ?_
            exact absurd (MemoryManager.deleteContainer_fst.mp hfst e he) hne
          · rw [Function.update_self, hentry]
            exact (hrun.paths path).endLife rfl rfl fun e he => (deleted_eq_some.mp he).1
      · cases hstep
  · cases hstep

theorem Inv.removeFile (h : s.Inv) (hsafe : s.Safe (.removeFile path))
    (hstep : s.step (.removeFile path) = some s') : s'.Inv := by
  simp only [step] at hstep
  split at hstep
  · next n hdeleting =>
      obtain rfl := Option.some.inj hstep
      refine h.of_path path (fun q hq => ?_) (fun e he => .inl he) ?_ (fun hr => ?_)
        fun hrun => ⟨?_, hrun.ending⟩
      · simp [view, hq]
      · rw [Function.update_self]
        exact (h.paths path).endLife hsafe (fun e he => he) fun e he _ => he
      · rw [Function.update_self]
        exact (h.idle hr).2 path
      · rw [Function.update_self]
        exact (hrun.paths path).endLife hsafe rfl fun e he => he
  · cases hstep

/-! ### Batches -/

theorem Inv.ordered_append (h : s.Inv) {e : JournalRecord} (hstart : s.journalEnd ≤ e.start)
    (hlt : e.start < e.stop) : Journal.Ordered (s.journal ++ [e]) := by
  constructor
  · intro e' he'
    rcases List.mem_append.mp he' with he' | he'
    · exact h.ordered.1 e' he'
    · rw [List.mem_singleton.mp he']
      exact hlt
  · refine List.pairwise_append.mpr ⟨h.ordered.2, List.pairwise_singleton _ _, ?_⟩
    intro e' he' e'' he''
    rw [List.mem_singleton.mp he'']
    exact (h.written e' he').trans hstart

theorem Inv.written_append (h : s.Inv) {e : JournalRecord} (hstart : s.journalEnd ≤ e.start)
    (hlt : e.start < e.stop) : ∀ e' ∈ s.journal ++ [e], e'.stop ≤ e.stop := by
  intro e' he'
  rcases List.mem_append.mp he' with he' | he'
  · exact (h.written e' he').trans (hstart.trans hlt.le)
  · rw [List.mem_singleton.mp he']

/-- Records and markers leave the newest header as it is. -/
theorem fileKept_append {journal : Journal} {oldest : Nat} (h : journal.FileKept oldest)
    {e : JournalRecord} (he : ∀ c ∈ e.commit?, oldest ≤ c) :
    Journal.FileKept (journal ++ [e]) oldest := by
  intro c hc
  rw [List.filterMap_append] at hc
  cases hcommit : e.commit? with
  | none => exact h c (by simpa [hcommit] using hc)
  | some c' =>
      obtain rfl : c' = c := by simpa [hcommit] using hc
      exact he c' hcommit

theorem Inv.write {record : ObjectRecord} (h : s.Inv) (hstep : s.step (.write record) = some s') :
    s'.Inv := by
  simp only [step] at hstep
  split at hstep
  · next records hrecovering hbatch =>
      obtain ⟨s₁, hwrite, rfl⟩ := Option.map_eq_some_iff.mp hstep
      obtain ⟨hstart, hlt, rfl⟩ := writeRecord_eq_some.mp hwrite
      have hrun := h.running hrecovering
      have hmemory : s.batch.inMemory = [] := by rw [hbatch]; rfl
      have hadded : s.progress.addedOffset = s.lastSyncOffset := by
        simp [progress, Progress.addedOffset, hbatch]
      have hdurable : s.durable ≤ record.start := h.durable.trans hstart
      refine ⟨h.ordered_append hstart hlt, h.written_append hstart hlt,
        h.durable.trans (hstart.trans hlt.le), fileKept_append h.fileKept (by simp
          [JournalRecord.commit?]), h.active.trans (hstart.trans hlt.le), h.closed, fun path => ?_,
        fun hr => ?_, fun _ => ?_⟩
      · have hpath : PathOk ⟨s.journal ++ [.object record], s.ending, s.durable,
            s.batch.inMemory, s.unsynced⟩ (s.view path) path :=
          (h.paths path).append_journal hdurable hlt (fun _ _ _ hc => by cases hc)
            fun _ _ _ _ ho => by cases ho
        rw [hmemory] at hpath
        exact hpath
      · simp [hrecovering] at hr
      · refine ⟨hrun.durable, fun r hr => ?_, fun r hr => ?_, fun r hr => ?_, le_rfl,
          (fun _ _ _ hb => by cases hb), hadded ▸ hrun.commits, hadded ▸ hrun.committing,
          hadded ▸ hrun.ending, fun c start stop hc => ?_, fun q o start stop ho => ?_,
          fun path => (hrun.paths path).write (h.paths path) hbatch hdurable hlt⟩
        · rcases List.mem_append.mp hr with hr | hr
          · have := hrun.objects r hr
            rw [hbatch] at this
            exact this.imp_right fun hin => List.mem_append_left _ hin
          · cases List.mem_singleton.mp hr
            exact .inr (List.mem_append_right _ (List.mem_singleton_self _))
        · rcases List.mem_append.mp hr with hr | hr
          · obtain ⟨hin, hle⟩ := hrun.unadded r (by rw [hbatch]; exact hr)
            exact ⟨List.mem_append_left _ hin, hadded ▸ hle⟩
          · rw [List.mem_singleton.mp hr]
            exact ⟨List.mem_append_right _ (List.mem_singleton_self _),
              hrun.durable.ge.trans hdurable⟩
        · simp [BatchStage.unacknowledged] at hr
        · refine hadded ▸ hrun.headers c start stop ?_
          simpa using hc
        · refine hadded ▸ hrun.markers q o start stop ?_
          simpa using ho
  · cases hstep

theorem Inv.sync (h : s.Inv) (hsafe : s.Safe .sync) (hstep : s.step .sync = some s') : s'.Inv := by
  simp only [step] at hstep
  split at hstep
  · next records hrecovering hbatch =>
      obtain rfl := Option.some.inj hstep
      have hrun := h.running hrecovering
      have hmemory : s.batch.inMemory = [] := by rw [hbatch]; rfl
      have hadded : s.progress.addedOffset = s.lastSyncOffset := by
        simp [progress, Progress.addedOffset, hbatch]
      have hle : s.lastSyncOffset ≤ s.journalEnd := hrun.durable.ge.trans h.durable
      refine ⟨h.ordered, h.written, le_rfl, h.fileKept, h.active, h.closed, fun path => ?_,
        fun hr => ?_, fun _ => ?_⟩
      · refine (h.paths path).mono ⟨rfl, fun o ho => ho, h.durable, fun _ => .inl⟩ fun r hr _ => ?_
        have hr : r ∈ ([] : List ObjectRecord) := hr
        simp at hr
      · simp [hrecovering] at hr
      · refine ⟨rfl, fun r hr => .inl (h.written _ hr), fun r hr => ?_, fun r hr => ?_, hle,
          fun _ _ _ hb => ?_, hadded ▸ hrun.commits, hadded ▸ hrun.committing,
          hadded ▸ hrun.ending, hadded ▸ hrun.headers, hadded ▸ hrun.markers, fun path => ?_⟩
        · exact hadded ▸ hrun.unadded r (by rw [hbatch]; exact hr)
        · have hin := (hrun.unadded r (by rw [hbatch]; exact hr)).1
          have hactive := (hsafe r (by rw [hbatch]; exact hr)).2
          exact ⟨h.written _ hin, fun region hregion =>
            .inr ((h.closed region hregion).trans hactive)⟩
        · cases hb
          rfl
        · refine (hrun.paths path).sync hbatch hle fun r hr hpath => ?_
          exact hpath ▸ (hsafe r (by rw [hbatch]; exact hr)).1
  · cases hstep

theorem Inv.addEntries (h : s.Inv) (hsafe : s.Safe .addEntries)
    (hstep : s.step .addEntries = some s') : s'.Inv := by
  simp only [step] at hstep
  split at hstep
  · next records prevOff syncOff hbatch =>
      obtain rfl := Option.some.inj hstep
      have hrecovering : s.recovering = false := by
        by_contra hne
        have := (h.idle (by simpa using hne)).1
        simp [hbatch] at this
      have hrun := h.running hrecovering
      have hadded : s.progress.addedOffset = prevOff := by
        simp [progress, Progress.addedOffset, hbatch]
      have hsync := hrun.synced records prevOff syncOff hbatch
      have hprev : prevOff ≤ s.lastSyncOffset := hadded ▸ hrun.added_le
      have hrecords : ∀ r ∈ records, .object r ∈ s.journal ∧ prevOff ≤ r.start := fun r hr =>
        hadded ▸ hrun.unadded r (by rw [hbatch]; exact hr)
      have hsynced : SyncedBatch s.shared prevOff syncOff records := by
        have hsurvives : ∀ r ∈ records, s.shared.Survives r := fun r hr =>
          hrun.unacknowledged r (by rw [hbatch]; exact hr)
        refine ⟨hsurvives, fun r hr => ?_, hadded ▸ hrun.headers, hadded ▸ hrun.markers,
          hadded ▸ hrun.ending⟩
        obtain ⟨hin, hle⟩ := hrecords r hr
        exact ⟨hin, hle, h.ordered.1 _ hin,
          (hsurvives r hr).1.trans (hrun.durable.trans hsync.symm).le⟩
      have hview : ∀ path, view { s with
          batch := .added records
          memory := s.memory.addEntries records prevOff syncOff } path =
            { s.view path with
              entry := addedTo s.memory[path]? records path prevOff syncOff } := fun path => by
        simp only [view, MemoryManager.getElem?_addEntries, addedTo]
      refine ⟨h.ordered, h.written, h.durable, h.fileKept, h.active, h.closed, fun path => ?_,
        fun hr => ?_, fun _ => ?_⟩
      · rw [hview]
        refine (h.paths path).addEntries (hrun.paths path) hsynced hbatch
          (hrun.durable.trans hsync.symm) fun r hr hpath => ?_
        exact hpath ▸ hsafe r (by rw [hbatch]; exact hr)
      · simp [hrecovering] at hr
      · refine ⟨hrun.durable, fun r hr => ?_, fun r hr => ?_, fun r hr => ?_, le_rfl,
          (fun _ _ _ hb => by cases hb), fun c hc => ?_, fun c hc => ?_, fun e he => ?_,
          fun c start stop hc => ?_, fun q o start stop ho => ?_, fun path => ?_⟩
        · have := hrun.objects r hr
          rw [hbatch] at this
          exact this
        · simp [BatchStage.unadded] at hr
        · exact hrun.unacknowledged r (by rw [hbatch]; exact hr)
        · exact (hrun.commits c hc).trans hrun.added_le
        · exact (hrun.committing c hc).trans hrun.added_le
        · exact (hrun.ending e he).trans hrun.added_le
        · exact (hrun.headers c start stop hc).trans hrun.added_le
        · exact (hrun.markers q o start stop ho).trans hrun.added_le
        · rw [hview]
          exact (hrun.paths path).addEntries hbatch hsync (hsync ▸ hprev)
            (fun r hr => (hrecords r hr).2) (hadded ▸ hrun.commits)
  · cases hstep

theorem Inv.executeCallback (h : s.Inv) (hstep : s.step .executeCallback = some s') : s'.Inv := by
  simp only [step] at hstep
  split at hstep
  · next record records hbatch =>
      obtain rfl := Option.some.inj hstep
      have hrecovering : s.recovering = false := by
        by_contra hne
        have := (h.idle (by simpa using hne)).1
        simp [hbatch] at this
      have hrun := h.running hrecovering
      have hmemory : s.shared.added = record :: records := by
        simp [shared, hbatch, BatchStage.inMemory]
      have hadded : s.progress.addedOffset = s.lastSyncOffset := by
        simp [progress, Progress.addedOffset, hbatch]
      refine ⟨h.ordered, h.written, h.durable, h.fileKept, h.active, h.closed, fun path => ?_,
        fun hr => ?_, fun _ => ?_⟩
      · by_cases hpath : record.path = path
        · subst hpath
          have hacknowledged := (h.paths record.path).acknowledge hmemory rfl
          have hview : view ({ s with batch := .added records }.acknowledge record) record.path =
              { s.view record.path with container := { s.containers record.path with
                  life := (s.containers record.path).life.map fun l =>
                    { l with acknowledged := record :: l.acknowledged } } } := by
            simp [view, ContainerLibrary.acknowledge, setContainer]
          rw [hview]
          exact hacknowledged
        · have hmono : PathOk ⟨s.journal, s.ending, s.durable, records, s.unsynced⟩
              (s.view path) path :=
            (h.paths path).mono ⟨rfl, fun o ho => ho, le_rfl, fun _ => .inl⟩
              fun r hr _ => hmemory ▸ List.mem_cons_of_mem _ hr
          have hview : view ({ s with batch := .added records }.acknowledge record) path =
              s.view path := by
            simp [view, ContainerLibrary.acknowledge, setContainer, Ne.symm hpath]
          rw [hview]
          exact hmono
      · have hr : s.recovering = true := hr
        simp [hrecovering] at hr
      · refine ⟨hrun.durable, fun r hr => ?_, fun r hr => ?_, fun r hr => ?_, le_rfl,
          (fun _ _ _ hb => by cases hb), hadded ▸ hrun.commits, hadded ▸ hrun.committing,
          hadded ▸ hrun.ending, hadded ▸ hrun.headers, hadded ▸ hrun.markers, fun path => ?_⟩
        · have := hrun.objects r hr
          rw [hbatch] at this
          exact this
        · have hr : r ∈ ([] : List ObjectRecord) := hr
          simp at hr
        · exact hrun.unacknowledged r (by rw [hbatch]; exact List.mem_cons_of_mem _ hr)
        · refine (hrun.paths path).setBatch hbatch rfl (fun _ _ _ hb => by cases hb) ?_
          by_cases hpath : record.path = path
          · subst hpath
            simp [ContainerLibrary.acknowledge, setContainer, view]
          · simp [ContainerLibrary.acknowledge, setContainer, view, Ne.symm hpath]
  · cases hstep

theorem Inv.finishBatch (h : s.Inv) (hstep : s.step .finishBatch = some s') : s'.Inv := by
  simp only [step] at hstep
  split at hstep
  · next hbatch =>
      obtain rfl := Option.some.inj hstep
      have hrecovering : s.recovering = false := by
        by_contra hne
        have := (h.idle (by simpa using hne)).1
        simp [hbatch] at this
      have hrun := h.running hrecovering
      have hmemory : s.batch.inMemory = [] := by rw [hbatch]; rfl
      have hadded : s.progress.addedOffset = s.lastSyncOffset := by
        simp [progress, Progress.addedOffset, hbatch]
      refine ⟨h.ordered, h.written, h.durable, h.fileKept, h.active, h.closed, fun path => ?_,
        fun hr => ?_, fun _ => ?_⟩
      · have hpath := h.paths path
        rw [shared, hmemory] at hpath
        exact hpath
      · simp [hrecovering] at hr
      · refine ⟨hrun.durable, fun r hr => ?_, fun r hr => ?_, fun r hr => ?_, le_rfl,
          (fun _ _ _ hb => by cases hb), hadded ▸ hrun.commits, hadded ▸ hrun.committing,
          hadded ▸ hrun.ending, hadded ▸ hrun.headers, hadded ▸ hrun.markers, fun path => ?_⟩
        · have := hrun.objects r hr
          rw [hbatch] at this
          exact this
        · simp [BatchStage.unadded] at hr
        · simp [BatchStage.unacknowledged] at hr
        · exact (hrun.paths path).setBatch hbatch rfl (fun _ _ _ hb => by cases hb) rfl
  · cases hstep

/-! ### The rest of the journal -/

theorem Inv.writeOther {stop : Nat} (h : s.Inv) (hstep : s.step (.writeOther stop) = some s') :
    s'.Inv := by
  simp only [step] at hstep
  split at hstep
  · next hle =>
      obtain rfl := Option.some.inj hstep
      refine ⟨h.ordered, fun e he => (h.written e he).trans hle, h.durable.trans hle, h.fileKept,
        h.active.trans hle, h.closed, h.paths, h.idle, fun hr => ?_⟩
      have hrun := h.running hr
      exact ⟨hrun.durable, hrun.objects, hrun.unadded, hrun.unacknowledged, hrun.added_le,
        hrun.synced, hrun.commits, hrun.committing, hrun.ending, hrun.headers, hrun.markers,
        hrun.paths⟩
  · cases hstep

/-- A file is closed: what is not synced of it may be lost from now on. -/
theorem Inv.rotateFile {nextFile : Nat} (h : s.Inv)
    (hstep : s.step (.rotateFile nextFile) = some s') : s'.Inv := by
  simp only [step] at hstep
  split at hstep
  · next hle =>
      obtain rfl := Option.some.inj hstep
      have hunsynced : ∀ region ∈ (max s.durable s.activeFile, nextFile) :: s.unsynced,
          region ∈ s.unsynced ∨ s.durable ≤ region.1 := by
        intro region hregion
        rcases List.mem_cons.mp hregion with rfl | hregion
        · exact .inr (le_max_left _ _)
        · exact .inl hregion
      refine ⟨h.ordered, fun e he => (h.written e he).trans hle, h.durable.trans hle, h.fileKept,
        le_rfl, fun region hregion => ?_, fun path => ?_, h.idle, fun hr => ?_⟩
      · show region.2 ≤ nextFile
        rcases List.mem_cons.mp hregion with rfl | hregion
        · exact le_rfl
        · exact (h.closed region hregion).trans (h.active.trans hle)
      · exact (h.paths path).mono ⟨rfl, fun o ho => ho, le_rfl, hunsynced⟩ fun r hr _ => hr
      · have hrun := h.running hr
        refine ⟨hrun.durable, hrun.objects, hrun.unadded, fun r hr => ?_, hrun.added_le,
          hrun.synced, hrun.commits, hrun.committing, hrun.ending, hrun.headers, hrun.markers,
          hrun.paths⟩
        exact (hrun.unacknowledged r hr).mono
          (show Shared.Le _ _ r.path from ⟨rfl, fun o ho => ho, le_rfl, hunsynced⟩)
  · cases hstep

theorem Inv.removeOldFiles (h : s.Inv) (hsafe : s.Safe .removeOldFiles)
    (hstep : s.step .removeOldFiles = some s') : s'.Inv := by
  obtain rfl := Option.some.inj hstep
  have hsub : (s.keptJournal s.committedFile).Sublist s.journal := List.filter_sublist
  have hkept : (s.keptJournal s.committedFile).FileKept s.committedFile := by
    obtain ⟨c, hc, hle⟩ := hsafe
    intro c' hc'
    obtain rfl : c = c' := Option.some.inj (hc.symm.trans hc')
    exact hle
  refine ⟨⟨fun e he => h.ordered.1 e (hsub.subset he), h.ordered.2.sublist hsub⟩,
    fun e he => h.written e (hsub.subset he), h.durable, hkept, h.active, h.closed,
    fun path => (h.paths path).removeOldFiles hsafe, h.idle, fun hr => ?_⟩
  have hrun := h.running hr
  refine ⟨hrun.durable, fun r hr => hrun.objects r (hsub.subset hr), fun r hr => ?_,
    hrun.unacknowledged, hrun.added_le, hrun.synced, hrun.commits, hrun.committing, hrun.ending,
    fun c start stop hc => hrun.headers c start stop (hsub.subset hc),
    fun q o start stop ho => hrun.markers q o start stop (hsub.subset ho),
    fun path => (hrun.paths path).removeOldFiles hsub.subset⟩
  -- the header that is left is no further than the batch that is in memory
  obtain ⟨c, hc, hle⟩ := hsafe
  obtain ⟨start, stop, hheader⟩ := Journal.exists_checkpoint hc
  obtain ⟨hin, hadded⟩ := hrun.unadded r hr
  have hbound : c ≤ s.progress.addedOffset := hrun.headers c start stop (hsub.subset hheader)
  exact ⟨List.mem_filter.mpr ⟨hin, decide_eq_true (hle.trans (hbound.trans hadded))⟩, hadded⟩

/-- A header or a marker, with an offset of a batch in memory, goes into the journal. -/
theorem Inv.append (h : s.Inv) {e : JournalRecord} (hstart : s.journalEnd ≤ e.start)
    (hlt : e.start < e.stop) (hobject : ∀ r, e ≠ .object r)
    (hheader : ∀ c start stop, e = .checkpoint c start stop →
      (s.Running → c ≤ s.progress.addedOffset) ∧
      ∀ path file r, (s.view path).container.infoFile = some file → r.path = path →
        r ∉ file.records → Pending s.shared (s.view path) file r → c ≤ r.start)
    (hcommit : ∀ c ∈ e.commit?, s.oldest ≤ c)
    (hmarker : ∀ q o start stop, e = .endFlush q o start stop → (q, o) ∈ s.ending) :
    Inv { s with journal := s.journal ++ [e], journalEnd := e.stop } where
  ordered := h.ordered_append hstart hlt
  written := h.written_append hstart hlt
  durable := h.durable.trans (hstart.trans hlt.le)
  fileKept := fileKept_append h.fileKept hcommit
  active := h.active.trans (hstart.trans hlt.le)
  closed := h.closed
  paths path := (h.paths path).append_journal (h.durable.trans hstart) hlt
    (fun c start stop hc file r => (hheader c start stop hc).2 path file r) hmarker
  idle := h.idle
  running hr := by
    have hrun := h.running hr
    have hmem : ∀ {j}, j ∈ s.journal ++ [e] → j ∈ s.journal ∨ j = e := fun hj =>
      (List.mem_append.mp hj).imp_right List.mem_singleton.mp
    refine ⟨hrun.durable, fun r hr => ?_, fun r hr => ?_, hrun.unacknowledged, hrun.added_le,
      hrun.synced, hrun.commits, hrun.committing, hrun.ending, fun c start stop hc => ?_,
      fun q o start stop ho => ?_, fun path => (hrun.paths path).append_journal hobject⟩
    · exact hrun.objects r ((hmem hr).resolve_right fun heq => hobject r heq.symm)
    · obtain ⟨hin, hle⟩ := hrun.unadded r hr
      exact ⟨List.mem_append_left _ hin, hle⟩
    · rcases hmem hc with hc | hc
      · exact hrun.headers c start stop hc
      · exact (hheader c start stop hc.symm).1 hrun
    · rcases hmem ho with ho | ho
      · exact hrun.markers q o start stop ho
      · exact hrun.ending _ (hmarker q o start stop ho.symm)

theorem Inv.processCheckpoint {start stop : Nat} (h : s.Inv)
    (hsafe : s.Safe (.processCheckpoint start stop))
    (hstep : s.step (.processCheckpoint start stop) = some s') : s'.Inv := by
  simp only [step] at hstep
  obtain ⟨hstart, hlt, rfl⟩ := writeRecord_eq_some.mp hstep
  obtain ⟨hoffset, hreleased, hread⟩ := hsafe
  refine h.append hstart hlt (fun r hr => by cases hr) (fun c _ _ hc => ?_)
    (fun c hc => Option.some.inj hc ▸ hoffset) fun _ _ _ _ ho => by cases ho
  cases hc
  refine ⟨fun hrun => hrun.commits _ List.mem_cons_self,
    fun path file r hfile hpath hnot hp => ?_⟩
  rcases hp.present with ⟨x, hx, rfl⟩ | ⟨f, hf, hreleased', hin⟩
  · obtain ⟨e, he, hx⟩ := View.mem_held.mp hx
    cases hr : s.recovering with
    | false =>
        exact (((h.running hr).paths path).entry e he).2 x hx |>.2.2 _ List.mem_cons_self
    | true =>
        exact hread hr (path, e) (TreeMap.mem_toList_iff_getElem?_eq_some.mpr he) x.2
          (List.mem_map_of_mem hx)
  · have hf' := hreleased'
    have hmem := TreeMap.mem_toList_iff_getElem?_eq_some.mpr hf
    rcases hreleased (path, f) hmem hf' r hin with hle | ⟨file', hfile', hin'⟩
    · exact hle
    · obtain rfl : file = file' := Option.some.inj (Eq.trans hfile.symm hfile')
      exact absurd hin' hnot

theorem Inv.processEndContainerFlush {syncOff start stop : Nat} (h : s.Inv)
    (hstep : s.step (.processEndContainerFlush path syncOff start stop) = some s') : s'.Inv := by
  simp only [step] at hstep
  split at hstep
  · next hin =>
      obtain ⟨s₁, hwrite, rfl⟩ := Option.map_eq_some_iff.mp hstep
      obtain ⟨hstart, hlt, rfl⟩ := writeRecord_eq_some.mp hwrite
      have happend := h.append hstart hlt (fun r hr => by cases hr) (fun c _ _ hc => by cases hc)
        (by simp [JournalRecord.commit?]) fun q o _ _ ho => by
          cases ho
          exact hin
      have hending : ∀ e ∈ s.ending.erase (path, syncOff), e ∈ s.ending := fun e he =>
        List.mem_of_mem_erase he
      refine ⟨happend.ordered, happend.written, happend.durable, happend.fileKept, happend.active,
        happend.closed, fun q => ?_, happend.idle, fun hr => ?_⟩
      · exact (happend.paths q).mono ⟨rfl, fun o ho => hending _ ho, le_rfl, fun _ => .inl⟩
          fun r hr _ => hr
      · have hrun := happend.running hr
        refine { hrun with committing := fun c hc => ?_, ending := fun e he => ?_ }
        · rcases List.mem_cons.mp hc with rfl | hc
          · exact hrun.ending _ hin
          · exact hrun.committing c hc
        · exact hrun.ending e (hending e he)
  · cases hstep

/-! ### The commit offset -/

/-- New candidates for the commit offset, each an old one or no further than any entry. -/
theorem Inv.setCommits (h : s.Inv) {lastCommitOffset : Nat} {committing computed : List Nat}
    (hcommits : ∀ c ∈ lastCommitOffset :: computed, c ∈ s.progress.commits ∨
      ((∀ path, ∀ e ∈ (s.view path).entry, c ≤ e.lastCommitOffset) ∧
        (s.Running → c ≤ s.progress.addedOffset)))
    (hcommitting : ∀ c ∈ committing, c ∈ s.committing) :
    Inv { s with
      lastCommitOffset := lastCommitOffset
      committing := committing
      computed := computed } where
  ordered := h.ordered
  written := h.written
  durable := h.durable
  fileKept := h.fileKept
  active := h.active
  closed := h.closed
  paths := h.paths
  idle := h.idle
  running hr := by
    have hrun := h.running hr
    refine { hrun with
      commits := fun c hc => ?_
      committing := fun c hc => hrun.committing c (hcommitting c hc)
      paths := fun path => (hrun.paths path).setCommits fun c hc => ?_ }
    · exact (hcommits c hc).elim (hrun.commits c) fun hc => hc.2 hrun
    · exact (hcommits c hc).imp_right fun hc => hc.1 path

theorem Inv.getLastCommitOffset {syncOff : Nat} (h : s.Inv)
    (hstep : s.step (.getLastCommitOffset syncOff) = some s') : s'.Inv := by
  simp only [step] at hstep
  split at hstep
  · next hin =>
      obtain rfl := Option.some.inj hstep
      refine h.setCommits (fun c hc => ?_) fun c hc => List.mem_of_mem_erase hc
      rcases List.mem_cons.mp hc with rfl | hc
      · exact .inl List.mem_cons_self
      · rcases List.mem_cons.mp hc with rfl | hc
        · refine .inr ?_
          cases hlast : s.memory.getLastCommitOffset with
          | none =>
              refine ⟨fun path e he => ?_, fun hrun => hrun.committing syncOff hin⟩
              have := MemoryManager.getElem?_of_getLastCommitOffset_none hlast path
              rw [show s.memory[path]? = some e from he] at this
              cases this
          | some c =>
              refine ⟨fun path e he => MemoryManager.getLastCommitOffset_le hlast he,
                fun hrun => ?_⟩
              obtain ⟨path, e, he, rfl⟩ := MemoryManager.exists_of_getLastCommitOffset hlast
              exact ((hrun.paths path).entry e he).1
        · exact .inl (List.mem_cons_of_mem _ hc)
  · cases hstep

theorem Inv.setLastCommitOffset {offset : Nat} (h : s.Inv)
    (hstep : s.step (.setLastCommitOffset offset) = some s') : s'.Inv := by
  simp only [step] at hstep
  split at hstep
  · next hin =>
      obtain rfl := Option.some.inj hstep
      refine h.setCommits (fun c hc => .inl ?_) fun c hc => hc
      rcases List.mem_cons.mp hc with rfl | hc
      · exact List.mem_cons_of_mem _ hin
      · exact List.mem_cons_of_mem _ (List.mem_of_mem_erase hc)
  · cases hstep

/-! ### Crashes -/

theorem Inv.crash {journalEnd newestFile : Nat} {lost : List (Nat × Nat)} (h : s.Inv)
    (hsafe : s.Safe (.crash journalEnd newestFile lost))
    (hstep : s.step (.crash journalEnd newestFile lost) = some s') : s'.Inv := by
  simp only [step] at hstep
  split at hstep
  · next hguard =>
      obtain ⟨hdurable, -, hnewest, -, hlost⟩ := hguard
      obtain rfl := Option.some.inj hstep
      have hsub : (s.survivingJournal journalEnd lost).Sublist s.journal := List.filter_sublist
      have hmemory : (s.survivingJournal journalEnd lost).recoverFiles s.oldest =
          (s.survivingJournal journalEnd lost).recover := if_pos hsafe
      have hactive : (s.files.filter (· ≤ newestFile)).headD 0 ≤ journalEnd := by
        cases hfiles : s.files.filter (· ≤ newestFile) with
        | nil => exact Nat.zero_le _
        | cons file files =>
            have hin : file ∈ s.files.filter (· ≤ newestFile) := by
              rw [hfiles]
              exact List.mem_cons_self
            exact (of_decide_eq_true (List.mem_filter.mp hin).2).trans hnewest
      refine ⟨⟨fun e he => h.ordered.1 e (hsub.subset he), h.ordered.2.sublist hsub⟩,
        fun e he => (of_decide_eq_true (List.mem_filter.mp he).2).1, le_rfl, hsafe, hactive,
        by simp, fun path => ?_, fun _ => ⟨rfl, fun path => ⟨rfl, rfl⟩⟩, fun hr => by cases hr⟩
      have hcrash := (h.paths path).crash h.ordered hdurable hlost
      simp only [view, shared, BatchStage.inMemory, hmemory] at hcrash ⊢
      simpa [survivingJournal] using hcrash
  · cases hstep

theorem Inv.finishRecovery {nextFile : Nat} (h : s.Inv)
    (hstep : s.step (.finishRecovery nextFile) = some s') : s'.Inv := by
  simp only [step] at hstep
  split at hstep
  · next hguard =>
      obtain ⟨hrecovering, hmemory, hwaiting, hflushing, hending, hcommitting, hcomputed, hle⟩ :=
        hguard
      obtain rfl := Option.some.inj hstep
      obtain ⟨hbatch, hcontainers⟩ := h.idle hrecovering
      have hentry := (isEmpty_iff_getElem? s.memory).mp hmemory
      have hwait := (isEmpty_iff_getElem? s.waiting).mp hwaiting
      have hflush := (isEmpty_iff_getElem? s.flushing).mp hflushing
      refine ⟨⟨by simp, List.Pairwise.nil⟩, by simp, le_rfl, by simp [Journal.FileKept], le_rfl,
        by simp, fun path => ?_, (fun hr => by cases hr), fun _ => ?_⟩
      · exact (h.paths path).finishRecovery (hentry path) (hwait path) (hflush path)
          (h.durable.trans hle)
      · have hadded : Progress.addedOffset ⟨[], s.batch, nextFile, nextFile :: s.computed⟩ =
            nextFile := by
          simp [Progress.addedOffset, hbatch]
        constructor
        · rfl
        · simp
        · simp [hbatch, BatchStage.unadded]
        · simp [hbatch, BatchStage.unacknowledged]
        · exact hadded.le
        · simp [hbatch]
        · simp [progress, hcomputed, Progress.addedOffset, hbatch]
        · simp [hcommitting]
        · simp [hending]
        · simp
        · simp
        · intro path
          refine ⟨fun e he => ?_, fun f hf => ?_, fun o ho => ?_, fun l hl r hr => ?_⟩
          · simp [view, hentry path] at he
          · simp [view, hflush path] at hf
          · simp [view, hcontainers path] at ho
          · simp [progress, hbatch, BatchStage.unadded] at hr
  · cases hstep

/-! ### Runs -/

theorem Inv.step {a : LibraryStep} (h : s.Inv) (hsafe : s.Safe a) (hstep : s.step a = some s') :
    s'.Inv := by
  cases a with
  | write record => exact h.write hstep
  | sync => exact h.sync hsafe hstep
  | addEntries => exact h.addEntries hsafe hstep
  | executeCallback => exact h.executeCallback hstep
  | finishBatch => exact h.finishBatch hstep
  | writeOther stop => exact h.writeOther hstep
  | rotateFile nextFile => exact h.rotateFile hstep
  | removeOldFiles => exact h.removeOldFiles hsafe hstep
  | processCheckpoint start stop => exact h.processCheckpoint hsafe hstep
  | getFlushRecords path => exact h.getFlushRecords hsafe hstep
  | flushContainer path garbage => exact h.flushContainer hstep
  | releaseFlushRecords path garbage => exact h.releaseFlushRecords hsafe hstep
  | renameTmpFile path => exact h.renameTmpFile hstep
  | processEndContainerFlush path syncOff start stop => exact h.processEndContainerFlush hstep
  | getLastCommitOffset syncOff => exact h.getLastCommitOffset hstep
  | setLastCommitOffset offset => exact h.setLastCommitOffset hstep
  | getLastSyncOffset path => exact h.getLastSyncOffset hstep
  | addContainer path offset => exact h.addContainer hsafe hstep
  | eraseCreated path => exact h.eraseCreated hstep
  | memDelete path => exact h.memDelete hstep
  | removeFile path => exact h.removeFile hsafe hstep
  | crash journalEnd newestFile lost => exact h.crash hsafe hstep
  | finishRecovery nextFile => exact h.finishRecovery hstep

theorem Inv.isolated (h : s.Inv) : s.Isolated := by
  intro path l hl
  obtain ⟨file, hfile, hlife⟩ := (h.paths path).life l hl
  refine ⟨file, hfile, hlife.applied, fun r hr => ?_⟩
  obtain ⟨hpath, hlt, -, hpending⟩ := hlife.owed r (.inl hr)
  by_cases hin : r ∈ file.records
  · exact .inl hin
  · refine .inr (.inr ?_)
    obtain ⟨e, he, hmem⟩ := Journal.exists_entry_recover (hpending hin).kept hlt
    have hrecovered : s.journal.recoverFiles s.oldest = s.journal.recover := if_pos h.fileKept
    rw [hpath] at he
    rw [hrecovered]
    exact MemoryManager.mem_recordsOf.mpr ⟨e, he, _, List.mem_append_right _ hmem, rfl⟩

/-- Until a step does not meet the condition, a container that is created again is isolated from
its former life, across flushes, crashes and recoveries. -/
theorem run_isolated {infoFiles : String → Option InfoFile} {offset : Nat}
    {as : List LibraryStep} (hsafe : Along step Safe (start infoFiles offset) as)
    (hrun : run step (start infoFiles offset) as = some s) : s.Isolated :=
  (run_along_preserves step (fun _ _ _ h hsafe hstep => h.step hsafe hstep)
    (inv_start infoFiles offset) hsafe hrun).isolated

/-- A container is deleted and created again. Its records are in files of their own, of which the
first is removed; a crash takes the end of the second, where the marker of a flush is, and a record
of the new life is read back from the third. -/
def recreatedSteps (path : String) : List LibraryStep :=
  [.getLastSyncOffset path, .addContainer path 0, .eraseCreated path,
    .write ⟨path, 0, 10⟩, .sync, .addEntries, .executeCallback, .finishBatch,
    .memDelete path, .removeFile path,
    .getLastSyncOffset path, .addContainer path 10, .eraseCreated path,
    .rotateFile 15, .processCheckpoint 15 20, .removeOldFiles,
    .write ⟨path, 20, 30⟩, .sync, .addEntries, .executeCallback, .finishBatch,
    .getFlushRecords path, .flushContainer path 0, .releaseFlushRecords path 0,
    .renameTmpFile path, .processEndContainerFlush path 30 30 35, .getLastCommitOffset 30,
    .setLastCommitOffset 30, .rotateFile 40, .processCheckpoint 40 45, .removeOldFiles,
    .write ⟨path, 45, 55⟩, .sync, .addEntries, .executeCallback, .finishBatch,
    .crash 55 40 [(30, 40)], .getFlushRecords path, .flushContainer path 0,
    .releaseFlushRecords path 0, .renameTmpFile path, .processEndContainerFlush path 55 55 60,
    .getLastCommitOffset 55, .setLastCommitOffset 55, .finishRecovery 60]

theorem run_isolated_recreated : ∃ s, run step (start (fun _ => none) 0) (recreatedSteps "a/c") =
    some s ∧ s.Isolated := by
  have hsome : (run step (start (fun _ => none) 0) (recreatedSteps "a/c")).isSome = true := by
    decide +kernel
  obtain ⟨s, hrun⟩ := Option.isSome_iff_exists.mp hsome
  exact ⟨s, hrun, run_isolated (by decide +kernel) hrun⟩

/-- A record that is added to memory between the creation of the info file and the erasure of the
path is acknowledged and then lost: the marker of the next flush passes it. A record that is synced
between the offset and the file is applied to a file that was created after it. -/
theorem recreated_not_isolated :
    (∃ s, run step (start (fun _ => none) 0)
      [.getLastSyncOffset "a/c", .addContainer "a/c" 0,
        .write ⟨"a/c", 0, 10⟩, .sync, .addEntries, .executeCallback, .finishBatch,
        .eraseCreated "a/c",
        .write ⟨"a/c", 10, 20⟩, .sync, .addEntries, .executeCallback, .finishBatch,
        .getFlushRecords "a/c", .flushContainer "a/c" 0, .releaseFlushRecords "a/c" 0,
        .renameTmpFile "a/c", .processEndContainerFlush "a/c" 20 20 30] = some s ∧
      ¬ s.Isolated) ∧
    ∃ s, run step (start (fun _ => none) 0)
      [.getLastSyncOffset "a/c", .write ⟨"a/c", 0, 10⟩, .sync, .addContainer "a/c" 0,
        .eraseCreated "a/c", .addEntries, .executeCallback, .finishBatch,
        .getFlushRecords "a/c", .flushContainer "a/c" 0, .releaseFlushRecords "a/c" 0,
        .renameTmpFile "a/c"] = some s ∧ ¬ s.Isolated := by
  have hnot : ∀ as, (∃ s ∈ run step (start (fun _ => none) 0) as, ¬ s.IsolatedAt "a/c") →
      ∃ s, run step (start (fun _ => none) 0) as = some s ∧ ¬ s.Isolated := by
    rintro as ⟨s, hrun, hs⟩
    exact ⟨s, hrun, fun h => hs (h "a/c")⟩
  exact ⟨hnot _ (by decide +kernel), hnot _ (by decide +kernel)⟩

end ContainerLibrary

end ObjectStorage.Container
