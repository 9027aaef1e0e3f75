import ObjectStorage.Container.MemoryEntries
import ObjectStorage.Library.Transition

/-!
The threads that flush containers: those of the file writer and the requests of the account updater
for the statistics. Both take the list of a container, hand it to `flush_container`, which takes
records out of it that the info file has already, and release it at the end. What the index has
after a flush is left open.
-/

namespace ObjectStorage.Container.Statistics.Components

open Std Library Statistics ObjectStorage.Journal
  ObjectStorage.Container.Statistics.Components.MemoryManager

/-- What a flush reads of an info file. -/
structure InfoFile where
  journalOffset : JournalOffset
  index : List IndexRecord

/-- Where a thread stands. A request of the updater polls first until no flush goes on, and it
deletes the container from the memory at last if it found no info file. -/
inductive Phase where
  | polling
  | polled
  | asked
  | taken (unknownStatus : Bool)
  | flushed
  | renaming (file? : Option InfoFile)
  | deleting

structure FlushThread where
  path : String
  fromUpdater : Bool
  phase : Phase

/-- The thread has a list that it has not released. -/
def FlushThread.Holds (t : FlushThread) : Prop :=
  match t.phase with
  | .taken _ | .flushed => True
  | _ => False

structure FlushService where
  memory : MemoryManager
  files : String → Option InfoFile
  threads : Nat → Option FlushThread

inductive FlushStep where
  | call (op : Operation)
  | write (i : Nat) (path : String)
  | getContainerStat (i : Nat) (path : String)
  | poll (i : Nat)
  | take (i : Nat)
  | stat (i : Nat) (garbage : JournalOffset)
  | flush (i : Nat) (garbage : JournalOffset)
  | finish (i : Nat) (index : List IndexRecord) (garbage : JournalOffset)
  | rename (i : Nat)
  | delete (i : Nat)
  | setFile (path : String) (file? : Option InfoFile)
  | restart

/-- The step with something else in front of an empty list. -/
def FlushStep.withGarbage (garbage : JournalOffset) : FlushStep → FlushStep
  | .stat i _ => .stat i garbage
  | .flush i _ => .flush i garbage
  | .finish i index _ => .finish i index garbage
  | a => a

/-- Calls that only the threads make. -/
def MemoryManager.Operation.OfThread : Operation → Prop
  | .getFlushRecords .. | .flushContainer .. | .releaseFlushRecords .. => True
  | _ => False

instance (op : Operation) : Decidable op.OfThread :=
  match op with
  | .getFlushRecords .. | .flushContainer .. | .releaseFlushRecords .. => isTrue trivial
  | .addEntries .. | .revertBackContData .. | .deleteContainer .. | .removeEntry ..
  | .getComponentObjectRecords .. | .removeComponents .. | .markUnknownMemory ..
  | .commitRecoveredData .. | .resetInMemoryCount .. | .flushContainers => isFalse fun h => h

namespace FlushService

def start : FlushService := ⟨init, fun _ => none, fun _ => none⟩

def setThread (s : FlushService) (i : Nat) (t? : Option FlushThread) : FlushService :=
  { s with threads := Function.update s.threads i t? }

section

variable (component : String → Int) (getHash : String → String) (nodeId : Nat)

/-- `release_flush_records` of a thread. -/
def release (s : FlushService) (path : String) (garbage : JournalOffset) : FlushService :=
  { s with memory := releaseFlushRecords component s.memory path garbage }

/-- The info file after a flush of the records that were left in the list. -/
def InfoFile.flushed (file : InfoFile) (records : RecordList)
    (index : List IndexRecord) : InfoFile :=
  match records.getLast? with
  | none => { file with index := index }
  | some last => ⟨last.1, index⟩

/-- What a thread does next. An info file that is missing is noticed by the file writer, which
releases the list, and thrown at the updater, which releases the list whether it took one or not.
The writer renames a copy of the file at its end. -/
def advance (s : FlushService) (i : Nat) (t : FlushThread) : FlushStep → Option FlushService
  | .poll _ =>
      match t.phase with
      | .polling =>
          if isFlushRunning component s.memory t.path then some s
          else some (s.setThread i (some { t with phase := .polled }))
      | _ => none
  | .take _ =>
      match t.phase with
      | .polled =>
          let (records?, unknownStatus, m) := getFlushRecords component s.memory t.path false true
          let s := { s with memory := m }
          if unknownStatus ∧ records?.getD [] ≠ [] then
            some (s.setThread i (some { t with phase := .taken true }))
          else some (s.setThread i (some { t with phase := .asked }))
      | _ => none
  | .stat _ garbage =>
      match t.phase with
      | .asked =>
          match s.files t.path with
          | none => some ((s.release component t.path garbage).setThread i
              (some { t with phase := .deleting }))
          | some _ => some (s.setThread i none)
      | _ => none
  | .flush _ garbage =>
      match t.phase with
      | .taken unknownStatus =>
          match s.files t.path with
          | none => some ((s.release component t.path garbage).setThread i
              (if t.fromUpdater then some { t with phase := .deleting } else none))
          | some file =>
              let flush : Flush := ⟨nodeId, unknownStatus, file.journalOffset, file.index⟩
              let m := MemoryManager.flushContainer component getHash s.memory t.path flush
              some ({ s with memory := m }.setThread i (some { t with phase := .flushed }))
      | _ => none
  | .finish _ index garbage =>
      match t.phase with
      | .flushed =>
          let records := ((find component s.memory t.path).map (·.tmpRecordList)).getD []
          let file? := (s.files t.path).map fun file => InfoFile.flushed file records index
          let s := s.release component t.path garbage
          if t.fromUpdater then
            some ({ s with files := Function.update s.files t.path file? }.setThread i none)
          else some (s.setThread i (some { t with phase := .renaming file? }))
      | _ => none
  | .rename _ =>
      match t.phase with
      | .renaming file? =>
          some ({ s with files := Function.update s.files t.path file? }.setThread i none)
      | _ => none
  | .delete _ =>
      match t.phase with
      | .deleting =>
          some ({ s with memory := (deleteContainer component s.memory t.path).2 }.setThread i none)
      | _ => none
  | _ => none

/-- A new thread of the file writer ends at once where it gets no records. Recovery after a restart
reads the journal by `add_entry`, `remove_entry` and `remove_components`. -/
def step (s : FlushService) (a : FlushStep) : Option FlushService :=
  match a with
  | .call op =>
      if op.OfThread then none
      else (MemoryManager.step component getHash s.memory op).map fun m => { s with memory := m }
  | .write i path =>
      if s.threads i = none then
        let (records?, unknownStatus, m) := getFlushRecords component s.memory path false false
        let s := { s with memory := m }
        if records?.getD [] = [] then some s
        else some (s.setThread i (some ⟨path, false, .taken unknownStatus⟩))
      else none
  | .getContainerStat i path =>
      if s.threads i = none then some (s.setThread i (some ⟨path, true, .polling⟩)) else none
  | .setFile path file? => some { s with files := Function.update s.files path file? }
  | .restart => some { s with memory := init, threads := fun _ => none }
  | .poll i | .take i | .stat i _ | .flush i _ | .finish i _ _ | .rename i | .delete i =>
      (s.threads i).bind fun t => advance component getHash nodeId s i t a

end

/-- Where a list is released its last element is there: the container is not in memory, and nothing
is released, or some of its records are being flushed. -/
def LastDefined (component : String → Int) (s : FlushService) (path : String) : Prop :=
  ∀ e, find component s.memory path = some e → e.tmpRecordList ≠ []

/-- The step releases no list without a last element. -/
def ReleasesDefined (component : String → Int) (s : FlushService) : FlushStep → Prop
  | .stat i _ => ∀ t, s.threads i = some t → t.phase = .asked → s.files t.path = none →
      LastDefined component s t.path
  | .flush i _ => ∀ t unknownStatus, s.threads i = some t → t.phase = .taken unknownStatus →
      s.files t.path = none → LastDefined component s t.path
  | .finish i _ _ => ∀ t, s.threads i = some t → t.phase = .flushed →
      LastDefined component s t.path
  | _ => True

/-- The info file does not have all records of a list that is flushed, a request of the updater that
took no list finds no info file missing for a container in memory, and no component or container is
taken out of memory while it is flushed. -/
def Guarded (component : String → Int) (getHash : String → String) (nodeId : Nat)
    (s : FlushService) : FlushStep → Prop
  | .call (.removeComponents components) =>
      ∀ i t, s.threads i = some t → t.Holds → component t.path ∉ components
  | .call (.removeEntry path _) => ∀ i t, s.threads i = some t → t.Holds → t.path ≠ path
  | .stat i _ => ∀ t, s.threads i = some t → t.phase = .asked → s.files t.path = none →
      find component s.memory t.path = none
  | .flush i _ => ∀ t unknownStatus file e, s.threads i = some t → t.phase = .taken unknownStatus →
      s.files t.path = some file → find component s.memory t.path = some e →
      ∃ r ∈ e.tmpRecordList,
        ¬ Flush.Has getHash ⟨nodeId, unknownStatus, file.journalOffset, file.index⟩ r
  | _ => True

end FlushService

/-! ### What keeps a flush running -/

namespace MemoryManager

variable {component : String → Int} {m m' : MemoryManager} {path : String}

theorem isFlushRunning_iff : isFlushRunning component m path = true ↔
    ∃ e, find component m path = some e ∧ e.tmpRecordList ≠ [] := by
  unfold isFlushRunning
  cases find component m path <;> simp

theorem isFlushRunning_of_find (h : isFlushRunning component m path = true)
    (hfind : ∀ e, find component m path = some e →
      ∃ e', find component m' path = some e' ∧ (e.tmpRecordList ≠ [] → e'.tmpRecordList ≠ [])) :
    isFlushRunning component m' path = true := by
  obtain ⟨e, he, hne⟩ := isFlushRunning_iff.mp h
  obtain ⟨e', he', hkept⟩ := hfind e he
  exact isFlushRunning_iff.mpr ⟨e', he', hkept hne⟩

theorem isFlushRunning_of_find_eq (h : isFlushRunning component m path = true)
    (hfind : find component m' path = find component m path) :
    isFlushRunning component m' path = true :=
  isFlushRunning_of_find h fun e he => ⟨e, hfind.trans he, id⟩

theorem isFlushRunning_addRecordInMap (h : isFlushRunning component m path = true)
    (final : FinalObjectRecord) (prevOff syncOff : JournalOffset) (b : Bool) :
    isFlushRunning component (addRecordInMap component m final prevOff syncOff b) path = true := by
  refine isFlushRunning_of_find h fun e he => ?_
  obtain ⟨containers, owned, hmap, hentry⟩ := find_eq_some he
  by_cases hc : component final.path = component path
  · have hinsert : find component (addRecordInMap component m final prevOff syncOff b) path =
        (containers.insert final.path (withRecord containers final prevOff syncOff))[path]? := by
      have hcontainers : (addRecordInMap component m final prevOff syncOff b).memoryMap[
          component path]? = some (containers.insert final.path
            (withRecord containers final prevOff syncOff), owned) := by
        simp [addRecordInMap, hc, hmap]
      exact find_of_getElem? hcontainers
    rw [hinsert, getElem?_insert_eq]
    by_cases hpath : final.path = path
    · refine ⟨_, if_pos hpath, fun hne => ?_⟩
      simpa [withRecord, hpath, hentry, SecureObjectRecord.addRecord] using hne
    · exact ⟨e, (if_neg hpath).trans hentry, id⟩
  · refine ⟨e, ?_, id⟩
    have hother : (addRecordInMap component m final prevOff syncOff b).memoryMap[component path]? =
        m.memoryMap[component path]? := by
      simp only [addRecordInMap, countUp_memoryMap]
      split <;> simp [hc]
    rw [find, hother]
    exact he

theorem isFlushRunning_removeComponents (h : isFlushRunning component m path = true)
    {components : List Int} (hc : component path ∉ components) :
    isFlushRunning component (m.removeComponents components) path = true := by
  refine isFlushRunning_of_find_eq h ?_
  have hmap : (components.foldl (fun map c => map.erase c) m.memoryMap)[component path]? =
      m.memoryMap[component path]? := by
    refine List.foldlRecOn (motive := fun map : MemoryMap =>
      map[component path]? = m.memoryMap[component path]?) components _ rfl ?_
    intro map hmap c hmem
    have hne : c ≠ component path := fun heq => hc (heq ▸ hmem)
    rw [getElem?_erase_eq, if_neg hne, hmap]
  unfold find
  rw [removeComponents, hmap]

theorem isFlushRunning_map (h : isFlushRunning component m path = true)
    {f : Int → ContainerMap × Bool → ContainerMap × Bool} (hf : ∀ c e, (f c e).1 = e.1)
    (hmap : m'.memoryMap = m.memoryMap.map f) : isFlushRunning component m' path = true := by
  refine isFlushRunning_of_find_eq h ?_
  unfold find
  rw [hmap, TreeMap.getElem?_map]
  cases m.memoryMap[component path]? with
  | none => rfl
  | some e =>
      simp only [Option.map_some, Option.bind_some]
      rw [hf]

theorem isFlushRunning_deleteContainer (h : isFlushRunning component m path = true) (q : String) :
    isFlushRunning component (deleteContainer component m q).2 path = true := by
  unfold deleteContainer
  split
  · exact h
  next hq =>
    split
    next hsome =>
      obtain ⟨e, he⟩ := Option.isSome_iff_exists.mp hsome
      refine isFlushRunning_of_find_eq h ?_
      rw [find_eraseContainer he, if_neg]
      rintro rfl
      exact hq h
    next => exact h

theorem isFlushRunning_getFlushRecords (h : isFlushRunning component m path = true) (q : String)
    (unknownStatus requestFromUpdater : Bool) :
    isFlushRunning component
      (getFlushRecords component m q unknownStatus requestFromUpdater).2.2 path = true := by
  unfold getFlushRecords
  split
  · exact h
  next e he =>
    simp only
    have hunknown : ∀ b : Bool, isFlushRunning component
        (if b then { m with unknownFlagSet := m.unknownFlagSet.erase q } else m) path = true := by
      intro b
      cases b <;> exact h
    split
    · exact hunknown _
    · split
      · exact hunknown _
      next hempty =>
        refine isFlushRunning_of_find_eq (hunknown (m.unknownFlagSet.contains q)) ?_
        have hfind : find component (if m.unknownFlagSet.contains q then
            { m with unknownFlagSet := m.unknownFlagSet.erase q } else m) q = some e := by
          split <;> exact he
        rw [find_setContainer hfind, if_neg]
        rintro rfl
        obtain ⟨e', he', hne⟩ := isFlushRunning_iff.mp h
        cases he.symm.trans he'
        simp at hempty
        exact hne hempty

theorem isFlushRunning_releaseFlushRecords (h : isFlushRunning component m path = true) {q : String}
    (hq : path ≠ q) (garbage : JournalOffset) :
    isFlushRunning component (releaseFlushRecords component m q garbage) path = true :=
  isFlushRunning_of_find_eq h ((find_releaseFlushRecords q garbage path).trans (if_neg hq))

theorem isFlushRunning_flushContainer (h : isFlushRunning component m path = true)
    (getHash : String → String) (q : String) (flush : Flush)
    (hkept : path = q → ∀ e, find component m q = some e →
      Statistics.flushContainer getHash flush e.tmpRecordList ≠ []) :
    isFlushRunning component (MemoryManager.flushContainer component getHash m q flush) path =
      true := by
  unfold MemoryManager.flushContainer
  split
  · exact h
  next e he =>
    refine isFlushRunning_of_find h fun e' he' => ?_
    rw [find_setContainer he]
    by_cases hpath : path = q
    · exact ⟨_, if_pos hpath, fun _ => hkept hpath e he⟩
    · exact ⟨e', (if_neg hpath).trans he', id⟩

theorem isFlushRunning_removeEntry (h : isFlushRunning component m path = true) {q : String}
    (hq : path ≠ q) (offset : JournalOffset) :
    isFlushRunning component (removeEntry component m q offset) path = true := by
  unfold removeEntry
  split
  · exact h
  next containers owned hmap =>
    split
    · exact h
    next e he =>
      refine isFlushRunning_of_find_eq h ?_
      rw [find_insert _ _ _ _ rfl]
      split
      next hc =>
        have hfind : find component m path = containers[path]? := find_of_getElem? (hc ▸ hmap)
        rw [hfind]
        split
        · rw [getElem?_erase_eq, if_neg (fun heq => hq heq.symm)]
        · rw [getElem?_insert_eq, if_neg (fun heq => hq heq.symm)]
      next => rfl

theorem getFlushRecords_taken {unknownStatus requestFromUpdater : Bool}
    (h : (getFlushRecords component m path unknownStatus requestFromUpdater).1.getD [] ≠ []) :
    isFlushRunning component m path ≠ true ∧ isFlushRunning component
      (getFlushRecords component m path unknownStatus requestFromUpdater).2.2 path = true := by
  unfold getFlushRecords at h ⊢
  split at h
  · exact absurd rfl h
  next e he =>
    simp only at h ⊢
    split at h
    · exact absurd rfl h
    next hasked =>
      split at h
      · exact absurd rfl h
      next hempty =>
        simp only [Bool.not_eq_true', Bool.not_eq_false] at hempty
        simp only [hasked, hempty, Bool.not_true, Bool.false_eq_true, if_false]
        refine ⟨fun hrunning => ?_, ?_⟩
        · obtain ⟨e', he', hne⟩ := isFlushRunning_iff.mp hrunning
          cases he.symm.trans he'
          exact hne (List.isEmpty_iff.mp hempty)
        · have hfind : find component (if m.unknownFlagSet.contains path then
              { m with unknownFlagSet := m.unknownFlagSet.erase path } else m) path = some e := by
            split <;> exact he
          refine isFlushRunning_iff.mpr ⟨_, (find_setContainer hfind _ path).trans (if_pos rfl), ?_⟩
          rw [SecureObjectRecord.getFlushRecords, if_pos hempty]
          exact h

/-- The calls that are no part of a flush leave the flushes running, save for the removal of what is
flushed. -/
theorem isFlushRunning_step (h : isFlushRunning component m path = true) {getHash : String → String}
    {op : Operation} (hthread : ¬ op.OfThread)
    (hcomponents : ∀ components, op = .removeComponents components → component path ∉ components)
    (hentry : ∀ q offset, op = .removeEntry q offset → path ≠ q)
    (hstep : step component getHash m op = some m') : isFlushRunning component m' path = true := by
  cases op with
  | getFlushRecords path unknownStatus requestFromUpdater => exact absurd trivial hthread
  | flushContainer path flush => exact absurd trivial hthread
  | releaseFlushRecords path garbage => exact absurd trivial hthread
  | addEntries records prevOff syncOff =>
      cases hstep
      refine List.foldlRecOn (motive := fun m => isFlushRunning component m path = true) records _ h
        fun m hm e _ => ?_
      exact List.foldlRecOn (motive := fun m => isFlushRunning component m path = true) e.2 _ hm
        fun m hm final _ => isFlushRunning_addRecordInMap hm _ _ _ _
  | revertBackContData transfer memoryFlag =>
      cases hstep
      refine isFlushRunning_of_find h fun e he => ?_
      rw [find_revertBackContData, he]
      split
      · exact ⟨_, rfl, id⟩
      · exact ⟨e, rfl, id⟩
  | deleteContainer q =>
      cases hstep
      exact isFlushRunning_deleteContainer h q
  | removeEntry q offset =>
      cases hstep
      exact isFlushRunning_removeEntry h (hentry q offset rfl) offset
  | getComponentObjectRecords c requestFromRecovery =>
      cases hstep
      cases hextract : m.extractComponent requestFromRecovery c with
      | none => exact h
      | some taken =>
          refine isFlushRunning_of_find h fun e he => ?_
          rw [Option.map_some, Option.getD_some, find_extractComponent hextract, he]
          split
          · exact ⟨_, rfl, id⟩
          · exact ⟨e, rfl, id⟩
  | removeComponents components =>
      cases hstep
      exact isFlushRunning_removeComponents h (hcomponents components rfl)
  | markUnknownMemory components =>
      cases hstep
      refine isFlushRunning_map h (fun c e => ?_) rfl
      split <;> rfl
  | commitRecoveredData components baseVersionChanged =>
      obtain ⟨⟨ret, m''⟩, hcommit, rfl⟩ := Option.map_eq_some_iff.mp hstep
      unfold MemoryManager.commitRecoveredData at hcommit
      simp only at hcommit
      split at hcommit
      · contradiction
      · cases hcommit
        refine isFlushRunning_map (f := fun c e => (e.1, e.2 || decide (c ∈ components))) h ?_ rfl
        exact fun _ _ => rfl
  | resetInMemoryCount decrementCount =>
      cases hstep
      exact isFlushRunning_of_find_eq h rfl
  | flushContainers =>
      cases hstep
      exact isFlushRunning_of_find_eq h rfl

end MemoryManager

namespace FlushService

variable {component : String → Int} {getHash : String → String} {nodeId : Nat}
  {s s' : FlushService}

/-- Every thread that holds a list holds the one that is being flushed, and no other thread does. -/
structure Inv (component : String → Int) (s : FlushService) : Prop where
  running : ∀ i t, s.threads i = some t → t.Holds →
    isFlushRunning component s.memory t.path = true
  unique : ∀ i j t u, s.threads i = some t → s.threads j = some u → t.Holds → u.Holds →
    t.path = u.path → i = j

theorem inv_restart (files : String → Option InfoFile) :
    Inv component ⟨init, files, fun _ => none⟩ where
  running _ _ ht := nomatch ht
  unique _ _ _ _ ht := nomatch ht

theorem Inv.lastDefined (h : Inv component s) {i : Nat} {t : FlushThread}
    (ht : s.threads i = some t) (hholds : t.Holds) : LastDefined component s t.path := by
  obtain ⟨e, he, hne⟩ := isFlushRunning_iff.mp (h.running i t ht hholds)
  intro e' he'
  cases he.symm.trans he'
  exact hne

/-- One thread goes on, and the lists that the others hold are still being flushed. -/
theorem Inv.setThread (h : Inv component s) {m : MemoryManager} {files : String → Option InfoFile}
    {i : Nat} {t? : Option FlushThread}
    (hothers : ∀ j u, j ≠ i → s.threads j = some u → u.Holds →
      isFlushRunning component m u.path = true)
    (hthis : ∀ t, t? = some t → t.Holds → isFlushRunning component m t.path = true ∧
      ∀ j u, j ≠ i → s.threads j = some u → u.Holds → u.path ≠ t.path) :
    Inv component ⟨m, files, Function.update s.threads i t?⟩ := by
  have hthreads : ∀ j u, Function.update s.threads i t? j = some u →
      (j = i ∧ t? = some u) ∨ (j ≠ i ∧ s.threads j = some u) := by
    intro j u hu
    by_cases hj : j = i
    · subst hj
      rw [Function.update_self] at hu
      exact Or.inl ⟨rfl, hu⟩
    · rw [Function.update_of_ne hj] at hu
      exact Or.inr ⟨hj, hu⟩
  constructor
  · intro j u hu hholds
    rcases hthreads j u hu with ⟨-, ht⟩ | ⟨hj, hu⟩
    · exact (hthis u ht hholds).1
    · exact hothers j u hj hu hholds
  · intro j k u v hu hv huHolds hvHolds hpath
    rcases hthreads j u hu with ⟨hji, ht⟩ | ⟨hj, hu'⟩ <;>
      rcases hthreads k v hv with ⟨hki, ht'⟩ | ⟨hk, hv'⟩
    · exact hji.trans hki.symm
    · exact absurd hpath.symm ((hthis u ht huHolds).2 k v hk hv' hvHolds)
    · exact absurd hpath ((hthis v ht' hvHolds).2 j u hj hu' huHolds)
    · exact h.unique j k u v hu' hv' huHolds hvHolds hpath

theorem Inv.path_ne (h : Inv component s) {i : Nat} {t : FlushThread} (ht : s.threads i = some t)
    (hholds : t.Holds) : ∀ j u, j ≠ i → s.threads j = some u → u.Holds → u.path ≠ t.path :=
  fun j u hj hu huHolds hpath => hj (h.unique j i u t hu ht huHolds hholds hpath)

theorem Inv.keep (h : Inv component s) {m : MemoryManager} {i : Nat} {t? : Option FlushThread}
    (hmemory : ∀ path, isFlushRunning component s.memory path = true →
      isFlushRunning component m path = true)
    (hthis : ∀ t, t? = some t → ¬ t.Holds) (files : String → Option InfoFile) :
    Inv component ⟨m, files, Function.update s.threads i t?⟩ :=
  h.setThread (fun j u _ hu hholds => hmemory u.path (h.running j u hu hholds))
    fun t ht hholds => absurd hholds (hthis t ht)

/-- A thread that has got a list of records is the only one that holds it. -/
theorem Inv.take (h : Inv component s) {path : String} {unknownStatus requestFromUpdater : Bool}
    (htaken : (getFlushRecords component s.memory path unknownStatus
      requestFromUpdater).1.getD [] ≠ []) {i : Nat} {t : FlushThread} (hpath : t.path = path) :
    Inv component ⟨(getFlushRecords component s.memory path unknownStatus requestFromUpdater).2.2,
      s.files, Function.update s.threads i (some t)⟩ := by
  obtain ⟨hidle, hrunning⟩ := getFlushRecords_taken htaken
  refine h.setThread (fun j u _ hu hholds =>
    isFlushRunning_getFlushRecords (h.running j u hu hholds) _ _ _) fun t' ht' _ => ?_
  cases ht'
  rw [hpath]
  refine ⟨hrunning, fun j u _ hu hholds hsame => ?_⟩
  exact hidle (hsame ▸ h.running j u hu hholds)

theorem Inv.release (h : Inv component s) {i : Nat} {t : FlushThread} (ht : s.threads i = some t)
    (hholds : t.Holds) (garbage : JournalOffset) {t? : Option FlushThread}
    (hthis : ∀ t, t? = some t → ¬ t.Holds) (files : String → Option InfoFile) :
    Inv component ⟨releaseFlushRecords component s.memory t.path garbage, files,
      Function.update s.threads i t?⟩ :=
  h.setThread (fun j u hj hu huHolds => isFlushRunning_releaseFlushRecords
      (h.running j u hu huHolds) (h.path_ne ht hholds j u hj hu huHolds) garbage)
    fun t ht hholds => absurd hholds (hthis t ht)

theorem Inv.call (h : Inv component s) {op : Operation} {m : MemoryManager}
    (hthread : ¬ op.OfThread)
    (hguarded : Guarded component getHash nodeId s (.call op))
    (hstep : MemoryManager.step component getHash s.memory op = some m) :
    Inv component { s with memory := m } := by
  refine ⟨fun i t ht hholds => ?_, h.unique⟩
  refine isFlushRunning_step (h.running i t ht hholds) hthread ?_ ?_ hstep
  · rintro components rfl
    exact hguarded i t ht hholds
  · rintro q offset rfl
    exact hguarded i t ht hholds

theorem Inv.advance (h : Inv component s) {i : Nat} {t : FlushThread} (ht : s.threads i = some t)
    {a : FlushStep} (hguarded : Guarded component getHash nodeId s a)
    (hstep : advance component getHash nodeId s i t a = some s')
    (hthread : ∀ j garbage, (a = .stat j garbage ∨ a = .flush j garbage) → j = i) :
    Inv component s' := by
  obtain ⟨path, fromUpdater, phase⟩ := t
  cases a with
  | poll _ =>
      cases phase <;> simp only [FlushService.advance] at hstep <;> try contradiction
      split at hstep
      · cases hstep
        exact h
      · cases hstep
        exact h.keep (fun _ => id) (fun t ht hholds => by cases ht; exact hholds) s.files
  | take _ =>
      cases phase <;> simp only [FlushService.advance] at hstep <;> try contradiction
      split at hstep
      next htaken =>
        cases hstep
        exact h.take htaken.2 rfl
      next =>
        cases hstep
        exact h.keep (fun _ hrunning => isFlushRunning_getFlushRecords hrunning _ _ _)
          (fun t ht hholds => by cases ht; exact hholds) s.files
  | stat j garbage =>
      obtain rfl : j = i := hthread j garbage (Or.inl rfl)
      cases phase <;> simp only [FlushService.advance] at hstep <;> try contradiction
      split at hstep
      next hmissing =>
        cases hstep
        have hnone := hguarded _ ht rfl hmissing
        have hsame : releaseFlushRecords component s.memory path garbage = s.memory := by
          rw [releaseFlushRecords, hnone]
        refine h.keep (fun q hrunning => ?_) (fun t ht hholds => by cases ht; exact hholds) s.files
        show isFlushRunning component (releaseFlushRecords component s.memory path garbage) q = true
        rw [hsame]
        exact hrunning
      next =>
        cases hstep
        exact h.keep (fun _ => id) (fun t ht => by cases ht) s.files
  | flush j garbage =>
      obtain rfl : j = i := hthread j garbage (Or.inr rfl)
      cases phase <;> simp only [FlushService.advance] at hstep <;> try contradiction
      rename_i unknownStatus
      split at hstep
      next hmissing =>
        cases hstep
        refine h.release ht trivial garbage (fun t ht hholds => ?_) s.files
        split at ht
        · cases ht
          exact hholds
        · contradiction
      next file hfile =>
        cases hstep
        have hkept : ∀ e, find component s.memory path = some e → Statistics.flushContainer getHash
            ⟨nodeId, unknownStatus, file.journalOffset, file.index⟩ e.tmpRecordList ≠ [] :=
          fun e he => (flushContainer_ne_nil_iff _ _).mpr
            (hguarded _ unknownStatus file e ht rfl hfile he)
        have hrunning := h.running j _ ht trivial
        have hne := h.path_ne ht trivial
        refine h.setThread (fun k u _ hu hholds => ?_) fun t ht' _ => ?_
        · exact isFlushRunning_flushContainer (h.running k u hu hholds) getHash path _
            fun _ => hkept
        · cases ht'
          exact ⟨isFlushRunning_flushContainer hrunning getHash path _ fun _ => hkept, hne⟩
  | finish _ index garbage =>
      cases phase <;> simp only [FlushService.advance] at hstep <;> try contradiction
      split at hstep
      · cases hstep
        exact h.release ht trivial garbage (fun t ht => by cases ht) _
      · cases hstep
        exact h.release ht trivial garbage (fun t ht hholds => by cases ht; exact hholds) _
  | rename _ =>
      cases phase <;> simp only [FlushService.advance] at hstep <;> try contradiction
      cases hstep
      exact h.keep (fun _ => id) (fun t ht => by cases ht) _
  | delete _ =>
      cases phase <;> simp only [FlushService.advance] at hstep <;> try contradiction
      cases hstep
      exact h.keep (fun _ hrunning => isFlushRunning_deleteContainer hrunning path)
        (fun t ht => by cases ht) s.files
  | _ => simp [FlushService.advance] at hstep

theorem Inv.step (h : Inv component s) {a : FlushStep}
    (hguarded : Guarded component getHash nodeId s a)
    (hstep : step component getHash nodeId s a = some s') : Inv component s' := by
  cases a with
  | call op =>
      simp only [FlushService.step] at hstep
      split at hstep
      · contradiction
      next hthread =>
        obtain ⟨m, hm, rfl⟩ := Option.map_eq_some_iff.mp hstep
        exact h.call hthread hguarded hm
  | write i path =>
      simp only [FlushService.step] at hstep
      split at hstep
      next hfree =>
        split at hstep
        next =>
          cases hstep
          exact ⟨fun j t ht hholds =>
            isFlushRunning_getFlushRecords (h.running j t ht hholds) _ _ _, h.unique⟩
        next htaken =>
          cases hstep
          exact h.take htaken rfl
      next => contradiction
  | getContainerStat i path =>
      simp only [FlushService.step] at hstep
      split at hstep
      · cases hstep
        exact h.keep (fun _ => id) (fun t ht hholds => by cases ht; exact hholds) s.files
      · contradiction
  | setFile path file? =>
      cases hstep
      exact ⟨h.running, h.unique⟩
  | restart =>
      cases hstep
      exact inv_restart s.files
  | poll i =>
      obtain ⟨t, ht, hstep⟩ := Option.bind_eq_some_iff.mp hstep
      exact h.advance ht hguarded hstep (by rintro j garbage (h | h) <;> cases h)
  | take i =>
      obtain ⟨t, ht, hstep⟩ := Option.bind_eq_some_iff.mp hstep
      exact h.advance ht hguarded hstep (by rintro j garbage (h | h) <;> cases h)
  | stat i garbage =>
      obtain ⟨t, ht, hstep⟩ := Option.bind_eq_some_iff.mp hstep
      exact h.advance ht hguarded hstep (by rintro j garbage (h | h) <;> cases h; rfl)
  | flush i garbage =>
      obtain ⟨t, ht, hstep⟩ := Option.bind_eq_some_iff.mp hstep
      exact h.advance ht hguarded hstep (by rintro j garbage (h | h) <;> cases h; rfl)
  | finish i index garbage =>
      obtain ⟨t, ht, hstep⟩ := Option.bind_eq_some_iff.mp hstep
      exact h.advance ht hguarded hstep (by rintro j garbage (h | h) <;> cases h)
  | rename i =>
      obtain ⟨t, ht, hstep⟩ := Option.bind_eq_some_iff.mp hstep
      exact h.advance ht hguarded hstep (by rintro j garbage (h | h) <;> cases h)
  | delete i =>
      obtain ⟨t, ht, hstep⟩ := Option.bind_eq_some_iff.mp hstep
      exact h.advance ht hguarded hstep (by rintro j garbage (h | h) <;> cases h)

theorem Inv.releasesDefined (h : Inv component s) {a : FlushStep}
    (hguarded : Guarded component getHash nodeId s a) : ReleasesDefined component s a := by
  cases a with
  | stat i garbage =>
      intro t ht hphase hmissing e he
      rw [hguarded t ht hphase hmissing] at he
      contradiction
  | flush i garbage =>
      intro t unknownStatus ht hphase _
      exact h.lastDefined ht (by rw [FlushThread.Holds, hphase]; trivial)
  | finish i index garbage =>
      intro t ht hphase
      exact h.lastDefined ht (by rw [FlushThread.Holds, hphase]; trivial)
  | _ => trivial

theorem LastDefined.release_eq {path : String} (h : LastDefined component s path)
    (garbage garbage' : JournalOffset) :
    s.release component path garbage = s.release component path garbage' := by
  unfold FlushService.release releaseFlushRecords
  cases he : find component s.memory path with
  | none => rfl
  | some e =>
      simp only [SecureObjectRecord.releaseFlushRecords]
      cases hlast : e.tmpRecordList.getLast? with
      | none => exact absurd (List.getLast?_eq_none_iff.mp hlast) (h e he)
      | some last => rfl

/-- No garbage gets into the memory. -/
theorem ReleasesDefined.step_eq {a : FlushStep} (h : ReleasesDefined component s a)
    (garbage : JournalOffset) : step component getHash nodeId s (a.withGarbage garbage) =
      step component getHash nodeId s a := by
  cases a with
  | stat i old =>
      refine Option.bind_congr fun t ht => ?_
      obtain ⟨path, fromUpdater, phase⟩ := t
      cases phase <;> simp only [FlushStep.withGarbage, FlushService.advance]
      split
      next hmissing => rw [(h _ ht rfl hmissing).release_eq garbage old]
      next => rfl
  | flush i old =>
      refine Option.bind_congr fun t ht => ?_
      obtain ⟨path, fromUpdater, phase⟩ := t
      cases phase <;> simp only [FlushStep.withGarbage, FlushService.advance]
      split
      next hmissing => rw [(h _ _ ht rfl hmissing).release_eq garbage old]
      next => rfl
  | finish i index old =>
      refine Option.bind_congr fun t ht => ?_
      obtain ⟨path, fromUpdater, phase⟩ := t
      cases phase <;> simp only [FlushStep.withGarbage, FlushService.advance]
      rw [(h _ ht rfl).release_eq garbage old]
  | _ => rfl

end FlushService

open FlushService

/-- In a run whose steps are guarded every list that is released has a last element, and nothing
else gets into the memory in its place. -/
theorem releases_defined (component : String → Int) (getHash : String → String) (nodeId : Nat)
    {steps : List FlushStep}
    (hguarded : Along (FlushService.step component getHash nodeId)
      (Guarded component getHash nodeId) start steps) :
    Along (FlushService.step component getHash nodeId) (fun s a => ReleasesDefined component s a ∧
      ∀ garbage, FlushService.step component getHash nodeId s (a.withGarbage garbage) =
        FlushService.step component getHash nodeId s a) start steps :=
  along_of_invariant _ (fun _ _ _ h hg hstep => h.step hg hstep)
    (fun _ _ h hg => ⟨h.releasesDefined hg, (h.releasesDefined hg).step_eq⟩)
    (inv_restart _) hguarded

/-- A container with an info file gets a record. -/
def firstRecord : List FlushStep :=
  [.setFile "a/b" (some ⟨toLex (0, 0), []⟩),
    .call (.addEntries [(true, [⟨"a/b", ⟨"o", 1, 0, objectAdd⟩⟩])] (toLex (1, 0)) (toLex (1, 50)))]

/-- The record is flushed. -/
theorem releases_defined_flush :
    let steps : List FlushStep := firstRecord ++
      [.write 0 "a/b", .flush 0 (toLex (0, 0)), .finish 0 [] (toLex (0, 0)), .rename 0]
    Along (FlushService.step (fun _ => 5) id 0) (fun s a => ReleasesDefined (fun _ => 5) s a ∧
      ∀ garbage, FlushService.step (fun _ => 5) id 0 s (a.withGarbage garbage) =
        FlushService.step (fun _ => 5) id 0 s a) start steps := by
  refine releases_defined (fun _ => 5) id 0 ⟨trivial, fun s₁ hs₁ => ⟨trivial, fun s₂ hs₂ =>
    ⟨trivial, fun s₃ hs₃ => ⟨?_, fun _ _ => ⟨trivial, fun _ _ => ⟨trivial, fun _ _ => trivial⟩⟩⟩⟩⟩⟩
  cases hs₁
  cases hs₂
  cases hs₃
  intro t unknownStatus file e ht hphase hfile he
  cases ht
  cases hphase
  cases hfile
  cases he
  refine ⟨_, List.mem_cons_self, ?_⟩
  show ¬ toLex (1, 50) ≤ toLex (0, 0)
  decide

/-- The service stops after the info file was renamed. The record comes into the memory again from
the journal, and its flush releases an empty list. -/
theorem recovered_flush_releases_nothing :
    let flush : List FlushStep := [.write 0 "a/b", .flush 0 (toLex (0, 0))]
    ∃ s, run (FlushService.step (fun _ => 5) id 0) start (firstRecord ++ flush ++
        [.finish 0 [] (toLex (0, 0)), .rename 0, .restart,
          .call (.addEntries [(true, [⟨"a/b", ⟨"o", 1, 0, objectAdd⟩⟩])] (toLex (1, 0))
            (toLex (1, 50)))] ++ flush) = some s ∧
      ¬ ReleasesDefined (fun _ => 5) s (.finish 0 [] (toLex (0, 0))) := by
  refine ⟨_, rfl, fun h => ?_⟩
  exact h _ rfl rfl _ rfl rfl

end ObjectStorage.Container.Statistics.Components
