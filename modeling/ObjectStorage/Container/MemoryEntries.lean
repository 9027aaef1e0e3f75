import ObjectStorage.Container.MemoryManager

/-!
What the operations on the memory do to the records of one container and to the flag of one
component, and that every container stays under its own component.
-/

namespace ObjectStorage.Container.Statistics.Components

open Std Library Statistics ObjectStorage.Journal

namespace MemoryManager

variable {component : String → Int} {m m' : MemoryManager}

/-- The flag of a component. -/
def flagOf (m : MemoryManager) (c : Int) : Option Bool := (m.memoryMap[c]?).map (·.2)

/-- The records of a container that wait for a flush. -/
def pending (component : String → Int) (m : MemoryManager) (path : String) : RecordList :=
  ((find component m path).map (·.recordList)).getD []

@[simp] theorem countUp_memoryMap (m : MemoryManager) (memoryFlag : Bool) :
    (m.countUp memoryFlag).memoryMap = m.memoryMap := by
  unfold countUp
  split <;> rfl

@[simp] theorem countDown_memoryMap (m : MemoryManager) (memoryFlag : Bool) (n : Nat) :
    (m.countDown memoryFlag n).memoryMap = m.memoryMap := by
  unfold countDown
  split <;> rfl

@[simp] theorem countUp_count (m : MemoryManager) (memoryFlag : Bool) :
    (m.countUp memoryFlag).count = if memoryFlag then m.count + 1 else m.count := by
  unfold countUp
  split <;> rfl

@[simp] theorem countUp_recoveredCount (m : MemoryManager) (memoryFlag : Bool) :
    (m.countUp memoryFlag).recoveredCount =
      if memoryFlag then m.recoveredCount else m.recoveredCount + 1 := by
  unfold countUp
  split <;> rfl

@[simp] theorem countDown_count (m : MemoryManager) (memoryFlag : Bool) (n : Nat) :
    (m.countDown memoryFlag n).count =
      if memoryFlag then m.count - BitVec.ofNat 32 n else m.count := by
  unfold countDown
  split <;> rfl

@[simp] theorem countDown_recoveredCount (m : MemoryManager) (memoryFlag : Bool) (n : Nat) :
    (m.countDown memoryFlag n).recoveredCount =
      if memoryFlag then m.recoveredCount else m.recoveredCount - BitVec.ofNat 32 n := by
  unfold countDown
  split <;> rfl

theorem find_eq_some {path : String} {e : SecureObjectRecord}
    (h : find component m path = some e) : ∃ containers owned,
      m.memoryMap[component path]? = some (containers, owned) ∧ containers[path]? = some e := by
  obtain ⟨⟨containers, owned⟩, hmap, he⟩ := Option.bind_eq_some_iff.mp h
  exact ⟨containers, owned, hmap, he⟩

theorem find_of_getElem? {path : String} {containers : ContainerMap} {owned : Bool}
    (h : m.memoryMap[component path]? = some (containers, owned)) :
    find component m path = containers[path]? := by
  simp [find, h]

/-! ### One container -/

theorem find_insert (c : Int) (containers : ContainerMap) (owned : Bool) (path : String)
    (h : m'.memoryMap = m.memoryMap.insert c (containers, owned)) : find component m' path =
      if component path = c then containers[path]? else find component m path := by
  unfold find
  rw [h, getElem?_insert_eq]
  split <;> rename_i hc
  · simp [hc]
  · simp [show component path ≠ c from fun h => hc h.symm]

theorem find_setContainer {path : String} {e : SecureObjectRecord}
    (h : find component m path = some e) (e' : SecureObjectRecord) (q : String) :
    find component (setContainer component m path e') q =
      if q = path then some e' else find component m q := by
  obtain ⟨containers, owned, hmap, -⟩ := find_eq_some h
  simp only [setContainer, hmap]
  rw [find_insert _ _ _ _ rfl, getElem?_insert_eq]
  by_cases hq : q = path
  · simp [hq]
  · have hpath : path ≠ q := fun h => hq h.symm
    simp only [hpath, if_false, hq]
    split
    · next hc => rw [find_of_getElem? (hc ▸ hmap)]
    · rfl

theorem find_eraseContainer {path : String} {e : SecureObjectRecord}
    (h : find component m path = some e) (q : String) :
    find component (eraseContainer component m path) q =
      if q = path then none else find component m q := by
  obtain ⟨containers, owned, hmap, -⟩ := find_eq_some h
  have herase : ∀ q, component q = component path →
      (containers.erase path)[q]? = if q = path then none else find component m q := by
    intro q hc
    rw [getElem?_erase_eq, find_of_getElem? (hc ▸ hmap)]
    simp only [eq_comm]
  simp only [eraseContainer, hmap]
  split
  next hempty =>
    by_cases hc : component q = component path
    · have hnone : (containers.erase path)[q]? = none := by
        rw [isEmpty_iff_getElem?] at hempty
        exact hempty q
      rw [← herase q hc, hnone]
      simp [find, hc]
    · have hq : q ≠ path := fun h => hc (h ▸ rfl)
      have hc' : component path ≠ component q := fun h => hc h.symm
      simp [find, hq, hc']
  next =>
    rw [find_insert _ _ _ _ rfl]
    by_cases hc : component q = component path
    · rw [if_pos hc, herase q hc]
    · have hq : q ≠ path := fun h => hc (h ▸ rfl)
      rw [if_neg hc, if_neg hq]

theorem flagOf_addRecordInMap (final : FinalObjectRecord) (prevOff syncOff : JournalOffset)
    (memoryFlag : Bool) (c : Int) :
    (addRecordInMap component m final prevOff syncOff memoryFlag).flagOf c =
      if component final.path = c then some ((m.flagOf c).getD memoryFlag) else m.flagOf c := by
  unfold addRecordInMap flagOf
  simp only [countUp_memoryMap]
  split
  next containers owned hmap =>
    rw [getElem?_insert_eq]
    split
    · next hc => simp [← hc, hmap]
    · rfl
  next hmap =>
    rw [getElem?_insert_eq]
    split
    · next hc => simp [← hc, hmap]
    · rfl

theorem flagOf_setContainer (path : String) (e : SecureObjectRecord) (c : Int) :
    (setContainer component m path e).flagOf c = m.flagOf c := by
  unfold setContainer
  split
  · rfl
  · next containers owned hmap =>
      unfold flagOf
      rw [getElem?_insert_eq]
      split
      · next hc => simp [← hc, hmap]
      · rfl

theorem flagOf_eraseContainer {path : String} {c : Int} {b : Bool}
    (h : (eraseContainer component m path).flagOf c = some b) : m.flagOf c = some b := by
  unfold eraseContainer at h
  split at h
  · exact h
  · next containers owned hmap =>
      unfold flagOf at h ⊢
      simp only at h
      split at h
      · rw [getElem?_erase_eq] at h
        split at h
        · contradiction
        · exact h
      · rw [getElem?_insert_eq] at h
        split at h
        · next hc => simpa [← hc, hmap] using h
        · exact h

/-! ### The end of a flush -/

theorem find_releaseFlushRecords (path : String) (garbage : JournalOffset) (q : String) :
    find component (releaseFlushRecords component m path garbage) q =
      if q = path then
        (find component m path).bind fun e =>
          if e.recordList.isEmpty then none else some (e.releaseFlushRecords garbage)
      else find component m q := by
  unfold releaseFlushRecords
  cases hfind : find component m path with
  | none =>
      by_cases hq : q = path
      · simp [hq, hfind]
      · simp [hq]
  | some e =>
      simp only [Option.bind_some]
      split
      · exact find_eraseContainer hfind q
      · exact find_setContainer hfind _ q

theorem pending_releaseFlushRecords (path : String) (garbage : JournalOffset) (q : String) :
    pending component (releaseFlushRecords component m path garbage) q =
      pending component m q := by
  unfold pending
  rw [find_releaseFlushRecords]
  split
  · next hq =>
      subst hq
      cases hfind : find component m q with
      | none => rfl
      | some e =>
          by_cases hempty : e.recordList = []
          · simp [hempty]
          · simp [hempty, SecureObjectRecord.releaseFlushRecords]
  · rfl

theorem flagOf_releaseFlushRecords {path : String} {garbage : JournalOffset} {c : Int} {b : Bool}
    (h : (releaseFlushRecords component m path garbage).flagOf c = some b) :
    m.flagOf c = some b := by
  unfold releaseFlushRecords at h
  split at h
  · exact h
  · split at h
    · exact flagOf_eraseContainer h
    · rwa [flagOf_setContainer] at h

@[simp] theorem setContainer_count (path : String) (e : SecureObjectRecord) :
    (setContainer component m path e).count = m.count ∧
      (setContainer component m path e).recoveredCount = m.recoveredCount := by
  unfold setContainer
  split <;> exact ⟨rfl, rfl⟩

@[simp] theorem eraseContainer_count (path : String) :
    (eraseContainer component m path).count = m.count ∧
      (eraseContainer component m path).recoveredCount = m.recoveredCount := by
  unfold eraseContainer
  split <;> exact ⟨rfl, rfl⟩

theorem releaseFlushRecords_count (path : String) (garbage : JournalOffset) :
    (releaseFlushRecords component m path garbage).count = m.count ∧
      (releaseFlushRecords component m path garbage).recoveredCount = m.recoveredCount := by
  unfold releaseFlushRecords
  split
  · exact ⟨rfl, rfl⟩
  · split <;> simp

/-! ### Extraction -/

/-- A record as it is handed out. -/
def transferred (requestFromRecovery : Bool) (path : String) (r : JournalOffset × ObjectRecord) :
    TransferObjectRecord :=
  ⟨⟨path, if requestFromRecovery then toUnknown r.2 else r.2⟩, r.1⟩

theorem extractComponent_eq_some {requestFromRecovery : Bool} {c : Int}
    {records : List TransferObjectRecord} {flushed : List String}
    (h : m.extractComponent requestFromRecovery c = some (records, flushed, m')) :
    ∃ containers owned, m.memoryMap[c]? = some (containers, owned) ∧
      records = containers.toList.flatMap (fun e =>
        e.2.recordList.map (transferred requestFromRecovery e.1)) ∧
      m' = { m with
        memoryMap := m.memoryMap.insert c
          (containers.map fun _ (e : SecureObjectRecord) => e.getUnscheduledRecords,
            owned) }.countDown owned
            records.length := by
  obtain ⟨⟨containers, owned⟩, hmap, hrest⟩ := Option.map_eq_some_iff.mp h
  simp only [Prod.mk.injEq] at hrest
  obtain ⟨rfl, -, rfl⟩ := hrest
  exact ⟨containers, owned, hmap, rfl, rfl⟩

theorem find_extractComponent {requestFromRecovery : Bool} {c : Int}
    {records : List TransferObjectRecord} {flushed : List String}
    (h : m.extractComponent requestFromRecovery c = some (records, flushed, m')) (q : String) :
    find component m' q =
      if component q = c then (find component m q).map (·.getUnscheduledRecords)
      else find component m q := by
  obtain ⟨containers, owned, hmap, -, rfl⟩ := extractComponent_eq_some h
  rw [find_insert _ _ _ _ (countDown_memoryMap _ _ _)]
  split
  · next hc => rw [find_of_getElem? (hc ▸ hmap), TreeMap.getElem?_map]
  · rfl

theorem flagOf_extractComponent {requestFromRecovery : Bool} {c : Int}
    {records : List TransferObjectRecord} {flushed : List String}
    (h : m.extractComponent requestFromRecovery c = some (records, flushed, m')) (a : Int) :
    m'.flagOf a = m.flagOf a := by
  obtain ⟨containers, owned, hmap, -, rfl⟩ := extractComponent_eq_some h
  unfold flagOf
  rw [countDown_memoryMap, getElem?_insert_eq]
  split
  · next hc => simp [← hc, hmap]
  · rfl

/-- The records of one container among those that are handed out of its component. -/
theorem filter_extractComponent {requestFromRecovery : Bool} {c : Int}
    {records : List TransferObjectRecord} {flushed : List String}
    (h : m.extractComponent requestFromRecovery c = some (records, flushed, m')) {q : String}
    (hq : component q = c) :
    records.filter (·.final.path = q) =
      (pending component m q).map (transferred requestFromRecovery q) := by
  obtain ⟨containers, owned, hmap, rfl, -⟩ := extractComponent_eq_some h
  rw [pending, find_of_getElem? (hq ▸ hmap), List.filter_flatMap]
  have hfilter : ∀ e : String × SecureObjectRecord,
      (e.2.recordList.map (transferred requestFromRecovery e.1)).filter (·.final.path = q) =
        if e.1 = q then e.2.recordList.map (transferred requestFromRecovery e.1) else [] := by
    intro e
    split <;> rename_i he
    · refine List.filter_eq_self.mpr fun r hr => ?_
      obtain ⟨r, -, rfl⟩ := List.mem_map.mp hr
      simp [transferred, he]
    · refine List.filter_eq_nil_iff.mpr fun r hr => ?_
      obtain ⟨r, -, rfl⟩ := List.mem_map.mp hr
      simp [transferred, he]
  simp only [hfilter]
  rw [flatMap_toList_if_eq]
  cases containers[q]? <;> rfl

/-! ### Putting records back -/

theorem find_revertBackContData (transfer : TransferObjectRecord) (memoryFlag : Bool) (q : String) :
    find component (revertBackContData component m transfer memoryFlag) q =
      if q = transfer.final.path then
        (find component m q).map (·.revertRecord transfer.final.record transfer.offset)
      else find component m q := by
  unfold revertBackContData
  simp only
  cases hmap : m.memoryMap[component transfer.final.path]? with
  | none =>
      simp only
      split
      · next hq => simp [hq, find, hmap]
      · rfl
  | some entry =>
      obtain ⟨containers, owned⟩ := entry
      simp only
      rw [find_insert _ _ _ _ (countUp_memoryMap _ _)]
      by_cases hc : component q = component transfer.final.path
      · rw [if_pos hc, find_of_getElem? (hc ▸ hmap)]
        cases hentry : containers[transfer.final.path]? with
        | none =>
            by_cases hq : q = transfer.final.path
            · simp [hq, hentry]
            · simp [hq]
        | some e =>
            simp only
            rw [getElem?_insert_eq]
            by_cases hq : q = transfer.final.path
            · simp [hq, hentry]
            · simp [hq, show transfer.final.path ≠ q from fun h => hq h.symm]
      · have hq : q ≠ transfer.final.path := fun h => hc (h ▸ rfl)
        rw [if_neg hc, if_neg hq]

theorem flagOf_revertBackContData {transfer : TransferObjectRecord} {memoryFlag : Bool} {c : Int}
    {b : Bool} (h : (revertBackContData component m transfer memoryFlag).flagOf c = some b) :
    ∃ b', m.flagOf c = some b' ∧
      b = if component transfer.final.path = c then memoryFlag else b' := by
  unfold revertBackContData at h
  simp only at h
  split at h
  next hmap =>
    refine ⟨b, h, ?_⟩
    split
    · next hc => simp [flagOf, ← hc, hmap] at h
    · rfl
  next containers owned hmap =>
    rw [flagOf, countUp_memoryMap, getElem?_insert_eq] at h
    split at h
    · next hc =>
        refine ⟨owned, by simp [flagOf, ← hc, hmap], ?_⟩
        rw [if_pos hc]
        exact (Option.some.inj h).symm
    · next hc => exact ⟨b, h, by rw [if_neg hc]⟩

theorem revertBackContData_count {transfer : TransferObjectRecord} (memoryFlag : Bool)
    (h : (m.memoryMap[component transfer.final.path]?).isSome) :
    (revertBackContData component m transfer memoryFlag).count =
        (if memoryFlag then m.count + 1 else m.count) ∧
      (revertBackContData component m transfer memoryFlag).recoveredCount =
        if memoryFlag then m.recoveredCount else m.recoveredCount + 1 := by
  obtain ⟨entry, hmap⟩ := Option.isSome_iff_exists.mp h
  simp [revertBackContData, hmap]

/-! ### Containers stay under their components -/

/-- Every container is in the component of its path. -/
def Keyed (component : String → Int) (m : MemoryManager) : Prop :=
  ∀ (c : Int) containers owned, m.memoryMap[c]? = some (containers, owned) →
    ∀ (path : String) e, containers[path]? = some e → component path = c

theorem keyed_init : Keyed component init := by
  intro c containers owned hmap
  simp [init] at hmap

theorem Keyed.insert (h : Keyed component m) {c : Int} {containers : ContainerMap} {owned : Bool}
    (hcontainers : ∀ (path : String) e, containers[path]? = some e → component path = c)
    (hm' : m'.memoryMap = m.memoryMap.insert c (containers, owned)) : Keyed component m' := by
  intro a containers' owned' hmap path e he
  rw [hm', getElem?_insert_eq] at hmap
  split at hmap
  · next hc =>
      cases hmap
      exact hc ▸ hcontainers path e he
  · exact h a containers' owned' hmap path e he

theorem Keyed.of_memoryMap (h : Keyed component m) (hm' : m'.memoryMap = m.memoryMap) :
    Keyed component m' := by
  unfold Keyed
  rw [hm']
  exact h

/-- Where components are only dropped, or their flags changed. -/
theorem Keyed.of_containers (h : Keyed component m)
    (hsub : ∀ (c : Int) containers owned, m'.memoryMap[c]? = some (containers, owned) →
      ∃ owned, m.memoryMap[c]? = some (containers, owned)) : Keyed component m' := by
  intro c containers owned hmap
  obtain ⟨owned, hmap⟩ := hsub c containers owned hmap
  exact h c containers owned hmap

theorem Keyed.addRecordInMap (h : Keyed component m) (final : FinalObjectRecord)
    (prevOff syncOff : JournalOffset) (memoryFlag : Bool) :
    Keyed component (addRecordInMap component m final prevOff syncOff memoryFlag) := by
  unfold MemoryManager.addRecordInMap
  simp only
  split
  next containers owned hmap =>
    refine h.insert (fun path e he => ?_) (countUp_memoryMap _ _)
    rw [getElem?_insert_eq] at he
    split at he
    · next hpath => rw [← hpath]
    · exact h _ containers owned hmap path e he
  next =>
    refine h.insert (fun path e he => ?_) (countUp_memoryMap _ _)
    rw [getElem?_insert_eq] at he
    split at he
    · next hpath => rw [← hpath]
    · simp at he

theorem Keyed.setContainer (h : Keyed component m) (path : String) (e : SecureObjectRecord) :
    Keyed component (setContainer component m path e) := by
  unfold MemoryManager.setContainer
  split
  · exact h
  · next containers owned hmap =>
      refine h.insert (fun q e' he => ?_) rfl
      rw [getElem?_insert_eq] at he
      split at he
      · next hpath => rw [← hpath]
      · exact h _ containers owned hmap q e' he

theorem Keyed.eraseContainer (h : Keyed component m) (path : String) :
    Keyed component (eraseContainer component m path) := by
  unfold MemoryManager.eraseContainer
  split
  · exact h
  · next containers owned hmap =>
      simp only
      split
      · refine h.of_containers fun c containers' owned' hc => ⟨owned', ?_⟩
        rw [getElem?_erase_eq] at hc
        split at hc
        · contradiction
        · exact hc
      · refine h.insert (fun q e he => ?_) rfl
        rw [getElem?_erase_eq] at he
        split at he
        · contradiction
        · exact h _ containers owned hmap q e he

theorem Keyed.releaseFlushRecords (h : Keyed component m) (path : String)
    (garbage : JournalOffset) :
    Keyed component (releaseFlushRecords component m path garbage) := by
  unfold MemoryManager.releaseFlushRecords
  split
  · exact h
  · split
    · exact h.eraseContainer path
    · exact h.setContainer path _

theorem Keyed.extractComponent (h : Keyed component m) {requestFromRecovery : Bool} {c : Int}
    {records : List TransferObjectRecord} {flushed : List String}
    (hextract : m.extractComponent requestFromRecovery c = some (records, flushed, m')) :
    Keyed component m' := by
  obtain ⟨containers, owned, hmap, -, rfl⟩ := extractComponent_eq_some hextract
  refine h.insert (fun path e he => ?_) (countDown_memoryMap _ _ _)
  rw [TreeMap.getElem?_map] at he
  obtain ⟨e, he, -⟩ := Option.map_eq_some_iff.mp he
  exact h _ containers owned hmap path e he

theorem Keyed.revertBackContData (h : Keyed component m) (transfer : TransferObjectRecord)
    (memoryFlag : Bool) : Keyed component (revertBackContData component m transfer memoryFlag) := by
  unfold MemoryManager.revertBackContData
  simp only
  split
  · exact h
  · next containers owned hmap =>
      refine h.insert (fun path e he => ?_) (countUp_memoryMap _ _)
      split at he
      · rw [getElem?_insert_eq] at he
        split at he
        · next hpath => rw [← hpath]
        · exact h _ containers owned hmap path e he
      · exact h _ containers owned hmap path e he

theorem getElem?_foldl_erase (components : List Int) (map : MemoryMap) (c : Int) {v}
    (h : (components.foldl (fun map c => map.erase c) map)[c]? = some v) : map[c]? = some v := by
  induction components generalizing map with
  | nil => exact h
  | cons a components ih =>
      have hrest := ih _ h
      rw [getElem?_erase_eq] at hrest
      split at hrest
      · contradiction
      · exact hrest

theorem Keyed.step (h : Keyed component m) {getHash : String → String} {op : Operation}
    (hstep : step component getHash m op = some m') : Keyed component m' := by
  cases op with
  | addEntries records prevOff syncOff =>
      cases hstep
      refine List.foldlRecOn records _ h fun m hm e _ => ?_
      exact List.foldlRecOn e.2 _ hm fun m hm final _ => hm.addRecordInMap _ _ _ _
  | revertBackContData transfer memoryFlag =>
      cases hstep
      exact h.revertBackContData _ _
  | getFlushRecords path unknownStatus requestFromUpdater =>
      cases hstep
      unfold MemoryManager.getFlushRecords
      split
      · exact h
      · simp only
        split
        · split <;> exact h.of_memoryMap rfl
        · split
          · split <;> exact h.of_memoryMap rfl
          · refine Keyed.setContainer ?_ _ _
            split <;> exact h.of_memoryMap rfl
  | flushContainer path flush =>
      cases hstep
      unfold MemoryManager.flushContainer
      split
      · exact h
      · exact h.setContainer _ _
  | releaseFlushRecords path garbage =>
      cases hstep
      exact h.releaseFlushRecords _ _
  | deleteContainer path =>
      cases hstep
      unfold MemoryManager.deleteContainer
      split
      · exact h
      · split
        · exact h.eraseContainer path
        · exact h
  | removeEntry path offset =>
      cases hstep
      unfold MemoryManager.removeEntry
      split
      · exact h
      next containers owned hmap =>
        split
        · exact h
        · refine h.insert (fun q e he => ?_) rfl
          split at he
          · rw [getElem?_erase_eq] at he
            split at he
            · contradiction
            · exact h _ containers owned hmap q e he
          · rw [getElem?_insert_eq] at he
            split at he
            · next hpath => rw [← hpath]
            · exact h _ containers owned hmap q e he
  | getComponentObjectRecords c requestFromRecovery =>
      cases hstep
      cases hextract : m.extractComponent requestFromRecovery c with
      | none => exact h
      | some e => exact h.extractComponent hextract
  | removeComponents components =>
      cases hstep
      exact h.of_containers fun c containers owned hc =>
        ⟨owned, getElem?_foldl_erase components _ c hc⟩
  | markUnknownMemory components =>
      cases hstep
      refine h.of_containers fun c containers owned hc => ?_
      rw [MemoryManager.markUnknownMemory, TreeMap.getElem?_map] at hc
      obtain ⟨⟨containers', owned'⟩, hmap, he⟩ := Option.map_eq_some_iff.mp hc
      split at he <;> cases he <;> exact ⟨_, hmap⟩
  | commitRecoveredData components baseVersionChanged =>
      obtain ⟨⟨ret, m''⟩, hcommit, rfl⟩ := Option.map_eq_some_iff.mp hstep
      unfold MemoryManager.commitRecoveredData at hcommit
      simp only at hcommit
      split at hcommit
      · contradiction
      · cases hcommit
        refine h.of_containers fun c containers owned hc => ?_
        rw [TreeMap.getElem?_map] at hc
        obtain ⟨⟨containers', owned'⟩, hmap, he⟩ := Option.map_eq_some_iff.mp hc
        cases he
        exact ⟨_, hmap⟩
  | resetInMemoryCount decrementCount =>
      cases hstep
      exact h.of_memoryMap rfl
  | flushContainers =>
      cases hstep
      exact h.of_memoryMap rfl

end MemoryManager

end ObjectStorage.Container.Statistics.Components
