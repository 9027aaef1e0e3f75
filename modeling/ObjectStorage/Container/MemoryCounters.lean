import ObjectStorage.Container.MemoryEntries
import ObjectStorage.Library.Transition

/-!
The counters of the memory never fall below zero as long as they count the records they are reduced
for. A flush request sets the counter to zero while the records it is for are still in memory.
-/

namespace ObjectStorage.Container.Statistics.Components

open Std Library Statistics ObjectStorage.Journal
  ObjectStorage.Container.Statistics.Components.MemoryManager

/-- The counter that a component's records are taken from. -/
def MemoryManager.counter (m : MemoryManager) (memoryFlag : Bool) : BitVec 32 :=
  if memoryFlag then m.count else m.recoveredCount

/-- A counter is reduced by more than it has. -/
def MemoryManager.Wraps (m : MemoryManager) : Operation → Prop
  | .getComponentObjectRecords c requestFromRecovery =>
      ∃ owned records flushed m', m.flagOf c = some owned ∧
        m.extractComponent requestFromRecovery c = some (records, flushed, m') ∧
        (m.counter owned).toNat < records.length
  | .resetInMemoryCount decrementCount => m.count < decrementCount
  | _ => False

/-- The memory in a run, with how many records of a container were taken off the counter by
`flush_containers` and still wait for their flush. -/
structure CountedMemory where
  memory : MemoryManager
  awaiting : String → Nat

namespace CountedMemory

def start : CountedMemory := ⟨init, fun _ => 0⟩

section

variable (component : String → Int)

/-- What waits for its flush once `flush_containers` is called. -/
def requested (s : CountedMemory) : Operation → String → Nat
  | .flushContainers, path =>
      if s.memory.flagOf (component path) = some true then
        (pending component s.memory path).length
      else s.awaiting path
  | _, path => s.awaiting path

def step (getHash : String → String) (s : CountedMemory) (op : Operation) :
    Option CountedMemory :=
  (MemoryManager.step component getHash s.memory op).map fun m =>
    ⟨m, fun path => min (s.requested component op path) (pending component m path).length⟩

/-- No record of the component waits for a flush. -/
def Idle (m : MemoryManager) (c : Int) : Prop :=
  ∀ path, component path = c → pending component m path = []

/-- How many records of a container its counter has to have. -/
def containerTally (awaiting : String → Nat) (memoryFlag : Bool) (path : String)
    (e : SecureObjectRecord) : Int :=
  ((e.recordList.length - if memoryFlag then awaiting path else 0 : Nat) : Int)

/-- How many records of a component the counter has to have. -/
def componentTally (awaiting : String → Nat) (memoryFlag : Bool) (e : ContainerMap × Bool) : Int :=
  if e.2 = memoryFlag then keyedSum (containerTally awaiting memoryFlag) e.1 else 0

def tally (awaiting : String → Nat) (memoryFlag : Bool) (map : MemoryMap) : Int :=
  keyedSum (fun _ => componentTally awaiting memoryFlag) map

/-- Records come into components with the flag they are counted under, ownership changes only where
no record waits, no component is extracted while a flush that was asked for is still to come, and
the counter is reduced only by what it counts besides. The counters do not overflow. -/
def Counted (s : CountedMemory) : Operation → Prop
  | .addEntries records _ _ =>
      (∀ e ∈ records, ∀ final ∈ e.2,
        (∀ b, s.memory.flagOf (component final.path) = some b → b = e.1) ∧
        ∀ e' ∈ records, ∀ final' ∈ e'.2,
          component final'.path = component final.path → e'.1 = e.1) ∧
      s.memory.count.toNat + (records.map (·.2.length)).sum < 2 ^ 32 ∧
      s.memory.recoveredCount.toNat + (records.map (·.2.length)).sum < 2 ^ 32
  | .revertBackContData transfer memoryFlag =>
      (s.memory.flagOf (component transfer.final.path) = some (! memoryFlag) →
        Idle component s.memory (component transfer.final.path)) ∧
      (s.memory.counter memoryFlag).toNat + 1 < 2 ^ 32
  | .getComponentObjectRecords c _ =>
      s.memory.flagOf c = some true → ∀ path, component path = c → s.awaiting path = 0
  | .markUnknownMemory components =>
      ∀ c, c ∉ components → s.memory.flagOf c = some true → Idle component s.memory c
  | .commitRecoveredData components _ =>
      ∀ c ∈ components, s.memory.flagOf c = some false → Idle component s.memory c
  | .resetInMemoryCount decrementCount =>
      decrementCount.toNat + tally s.awaiting true s.memory.memoryMap ≤ s.memory.count.toNat
  | _ => True

end

variable {component : String → Int} {awaiting : String → Nat} {memoryFlag : Bool}

/-! ### Sums over containers and components -/

section

variable (awaiting : String → Nat) (memoryFlag : Bool)

theorem containerTally_nonneg (path : String) (e : SecureObjectRecord) :
    0 ≤ containerTally awaiting memoryFlag path e := Int.natCast_nonneg _

theorem componentTally_nonneg (e : ContainerMap × Bool) :
    0 ≤ componentTally awaiting memoryFlag e := by
  unfold componentTally
  split
  · exact keyedSum_nonneg (fun path e => containerTally_nonneg awaiting memoryFlag path e) e.1
  · exact Int.le_refl 0

theorem tally_insert (map : MemoryMap) (c : Int) (e : ContainerMap × Bool) :
    tally awaiting memoryFlag (map.insert c e) +
        ((map[c]?).map (componentTally awaiting memoryFlag)).getD 0 =
      tally awaiting memoryFlag map + componentTally awaiting memoryFlag e :=
  keyedSum_insert _ map c e

theorem tally_erase_le (map : MemoryMap) (c : Int) :
    tally awaiting memoryFlag (map.erase c) ≤ tally awaiting memoryFlag map := by
  have herase := keyedSum_erase (fun _ => componentTally awaiting memoryFlag) map c
  have hnonneg : 0 ≤ ((map[c]?).map (componentTally awaiting memoryFlag)).getD 0 := by
    cases map[c]? with
    | none => exact Int.le_refl 0
    | some e => exact componentTally_nonneg awaiting memoryFlag e
  unfold tally
  omega

theorem componentTally_insert_le (owned : Bool) {containers : ContainerMap} {path : String}
    {e : SecureObjectRecord} {n : Nat}
    (h : e.recordList.length ≤ (((containers[path]?).map (·.recordList)).getD []).length + n) :
    componentTally awaiting memoryFlag (containers.insert path e, owned) ≤
      componentTally awaiting memoryFlag (containers, owned) +
        if owned = memoryFlag then (n : Int) else 0 := by
  unfold componentTally
  by_cases howned : owned = memoryFlag
  · rw [if_pos howned, if_pos howned, if_pos howned]
    have hinsert := keyedSum_insert (containerTally awaiting memoryFlag) containers path e
    have hnew : containerTally awaiting memoryFlag path e ≤
        ((containers[path]?).map (containerTally awaiting memoryFlag path)).getD 0 + n := by
      cases hentry : containers[path]? with
      | none =>
          simp only [hentry, Option.map_none, Option.getD_none, List.length_nil] at h ⊢
          unfold containerTally
          omega
      | some old =>
          simp only [hentry, Option.map_some, Option.getD_some] at h ⊢
          unfold containerTally
          omega
    simp only
    omega
  · rw [if_neg howned, if_neg howned, if_neg howned]
    exact Int.le_refl _

theorem componentTally_erase_le (containers : ContainerMap) (path : String) (owned : Bool) :
    componentTally awaiting memoryFlag (containers.erase path, owned) ≤
      componentTally awaiting memoryFlag (containers, owned) := by
  unfold componentTally
  by_cases howned : owned = memoryFlag
  · rw [if_pos howned, if_pos howned]
    have herase := keyedSum_erase (containerTally awaiting memoryFlag) containers path
    have hnonneg :
        0 ≤ ((containers[path]?).map (containerTally awaiting memoryFlag path)).getD 0 := by
      cases containers[path]? with
      | none => exact Int.le_refl 0
      | some e => exact containerTally_nonneg awaiting memoryFlag path e
    simp only
    omega
  · rw [if_neg howned, if_neg howned]

end

/-! ### What the operations do to the sums -/

/-- The counters have what they are to have. -/
def Covered (awaiting : String → Nat) (m : MemoryManager) : Prop :=
  tally awaiting true m.memoryMap ≤ m.count.toNat ∧
    tally awaiting false m.memoryMap ≤ m.recoveredCount.toNat

variable {m m' : MemoryManager}

theorem Covered.shrink (h : Covered awaiting m)
    (hle : ∀ b, tally awaiting b m'.memoryMap ≤ tally awaiting b m.memoryMap)
    (hcount : m'.count = m.count) (hrecovered : m'.recoveredCount = m.recoveredCount) :
    Covered awaiting m' := by
  have htrue := hle true
  have hfalse := hle false
  unfold Covered at h ⊢
  rw [hcount, hrecovered]
  omega

theorem tally_setContainer_le {path : String} {e e' : SecureObjectRecord}
    (hfind : find component m path = some e)
    (hlen : e'.recordList.length ≤ e.recordList.length) :
    tally awaiting memoryFlag (setContainer component m path e').memoryMap ≤
      tally awaiting memoryFlag m.memoryMap := by
  obtain ⟨containers, owned, hmap, he⟩ := find_eq_some hfind
  have hinsert := tally_insert awaiting memoryFlag m.memoryMap
    (component path) (containers.insert path e', owned)
  have hle := componentTally_insert_le awaiting memoryFlag owned (n := 0)
    (show e'.recordList.length ≤ (((containers[path]?).map (·.recordList)).getD []).length + 0 by
      simpa [he])
  simp only [hmap, Option.map_some, Option.getD_some] at hinsert
  simp only [setContainer, hmap]
  split at hle <;> omega

theorem tally_eraseContainer_le (path : String) :
    tally awaiting memoryFlag (eraseContainer component m path).memoryMap ≤
      tally awaiting memoryFlag m.memoryMap := by
  unfold eraseContainer
  split
  · exact Int.le_refl _
  next containers owned hmap =>
    simp only
    split
    · exact tally_erase_le _ _ _ _
    · have hinsert := tally_insert awaiting memoryFlag m.memoryMap
        (component path) (containers.erase path, owned)
      have hle := componentTally_erase_le awaiting memoryFlag containers path owned
      simp only [hmap, Option.map_some, Option.getD_some] at hinsert
      omega

theorem length_withRecord (containers : ContainerMap) (final : FinalObjectRecord)
    (prevOff syncOff : JournalOffset) :
    (withRecord containers final prevOff syncOff).recordList.length ≤
      (((containers[final.path]?).map (·.recordList)).getD []).length + 1 := by
  unfold withRecord
  cases containers[final.path]? <;> simp [SecureObjectRecord.new, SecureObjectRecord.addRecord]

theorem tally_addRecordInMap_le (awaiting : String → Nat) (memoryFlag : Bool)
    {final : FinalObjectRecord} (prevOff syncOff : JournalOffset) {b : Bool}
    (hflag : ∀ b', m.flagOf (component final.path) = some b' → b' = b) :
    tally awaiting memoryFlag (addRecordInMap component m final prevOff syncOff b).memoryMap ≤
      tally awaiting memoryFlag m.memoryMap + if b = memoryFlag then 1 else 0 := by
  have hle : ∀ containers, componentTally awaiting memoryFlag
      (containers.insert final.path (withRecord containers final prevOff syncOff), b) ≤
        componentTally awaiting memoryFlag (containers, b) + if b = memoryFlag then 1 else 0 :=
    fun containers => componentTally_insert_le awaiting memoryFlag b
      (length_withRecord containers final prevOff syncOff)
  unfold addRecordInMap
  simp only [countUp_memoryMap]
  split
  next containers owned hmap =>
    obtain rfl := hflag owned (by simp [flagOf, hmap])
    have hinsert := tally_insert awaiting memoryFlag m.memoryMap (component final.path)
      (containers.insert final.path (withRecord containers final prevOff syncOff), owned)
    rw [hmap, Option.map_some, Option.getD_some] at hinsert
    have hcontainers := hle containers
    omega
  next hmap =>
    have hinsert := tally_insert awaiting memoryFlag m.memoryMap (component final.path)
      ((∅ : ContainerMap).insert final.path (withRecord ∅ final prevOff syncOff), b)
    rw [hmap, Option.map_none, Option.getD_none] at hinsert
    have hcontainers := hle ∅
    have hempty : componentTally awaiting memoryFlag ((∅ : ContainerMap), b) = 0 := by
      unfold componentTally
      split <;> rfl
    omega

theorem componentTally_unscheduled (containers : ContainerMap) (owned : Bool) :
    componentTally awaiting memoryFlag
      (containers.map fun _ (e : SecureObjectRecord) => e.getUnscheduledRecords, owned) = 0 := by
  have hle : componentTally awaiting memoryFlag
      (containers.map fun _ (e : SecureObjectRecord) => e.getUnscheduledRecords, owned) ≤ 0 := by
    unfold componentTally
    split
    · rw [keyedSum_map]
      refine (keyedSum_le (f := fun _ _ => 0) fun path e _ => ?_).trans ?_
      · simp [containerTally, SecureObjectRecord.getUnscheduledRecords]
      · simp [keyedSum]
    · exact Int.le_refl 0
  have hnonneg := componentTally_nonneg awaiting memoryFlag
    (containers.map fun _ (e : SecureObjectRecord) => e.getUnscheduledRecords, owned)
  omega

theorem componentTally_idle (hkeyed : Keyed component m) {c : Int} {containers : ContainerMap}
    {owned : Bool} (hmap : m.memoryMap[c]? = some (containers, owned)) (hidle : Idle component m c)
    (b : Bool) : componentTally awaiting memoryFlag (containers, b) = 0 := by
  have hle : componentTally awaiting memoryFlag (containers, b) ≤ 0 := by
    unfold componentTally
    split
    · refine (keyedSum_le (f := fun _ _ => 0) fun path e he => ?_).trans ?_
      · have hc := hkeyed c containers owned hmap path e he
        have hempty := hidle path hc
        rw [pending, find_of_getElem? (hc ▸ hmap), he] at hempty
        simp only [Option.map_some, Option.getD_some] at hempty
        simp [containerTally, hempty]
      · simp [keyedSum]
    · exact Int.le_refl 0
  have hnonneg := componentTally_nonneg awaiting memoryFlag (containers, b)
  omega

theorem Covered.countUp {b : Bool} (h : Covered awaiting m)
    (hcounts : m'.count = m.count ∧ m'.recoveredCount = m.recoveredCount)
    (hle : ∀ b', tally awaiting b' m'.memoryMap ≤
      tally awaiting b' m.memoryMap + if b = b' then 1 else 0)
    (hroom : (m.counter b).toNat + 1 < 2 ^ 32) : Covered awaiting (m'.countUp b) := by
  have htrue := hle true
  have hfalse := hle false
  unfold Covered at h ⊢
  unfold MemoryManager.counter at hroom
  rw [countUp_memoryMap, countUp_count, countUp_recoveredCount, hcounts.1, hcounts.2]
  cases b <;> simp at hroom htrue hfalse ⊢ <;> omega

theorem Covered.addRecordInMap (h : Covered awaiting m) {final : FinalObjectRecord}
    (prevOff syncOff : JournalOffset) {b : Bool}
    (hflag : ∀ b', m.flagOf (component final.path) = some b' → b' = b)
    (hroom : (m.counter b).toNat + 1 < 2 ^ 32) :
    Covered awaiting (addRecordInMap component m final prevOff syncOff b) :=
  h.countUp ⟨rfl, rfl⟩
    (fun b' => by simpa [MemoryManager.addRecordInMap] using
      tally_addRecordInMap_le awaiting b' prevOff syncOff hflag)
    hroom

theorem counter_addRecordInMap_le (component : String → Int) (final : FinalObjectRecord)
    (prevOff syncOff : JournalOffset) (b b' : Bool) (hroom : (m.counter b').toNat + 1 < 2 ^ 32) :
    ((addRecordInMap component m final prevOff syncOff b).counter b').toNat ≤
      (m.counter b').toNat + 1 := by
  unfold MemoryManager.addRecordInMap MemoryManager.counter at *
  rw [countUp_count, countUp_recoveredCount]
  cases b <;> cases b' <;> simp at hroom ⊢ <;> omega

theorem addEntries_eq_foldl (records : List (Bool × List FinalObjectRecord))
    (prevOff syncOff : JournalOffset) :
    addEntries component m records prevOff syncOff =
      (records.flatMap fun e => e.2.map fun final => (e.1, final)).foldl
        (fun m e => addRecordInMap component m e.2 prevOff syncOff e.1) m := by
  rw [List.foldl_flatMap]
  simp only [List.foldl_map]
  rfl

theorem Covered.addRecords (h : Covered awaiting m) (prevOff syncOff : JournalOffset)
    {entries : List (Bool × FinalObjectRecord)}
    (hflags : ∀ e ∈ entries, (∀ b, m.flagOf (component e.2.path) = some b → b = e.1) ∧
      ∀ e' ∈ entries, component e'.2.path = component e.2.path → e'.1 = e.1)
    (hroom : ∀ b, (m.counter b).toNat + entries.length < 2 ^ 32) :
    Covered awaiting
      (entries.foldl
        (fun m e => MemoryManager.addRecordInMap component m e.2 prevOff syncOff e.1) m) := by
  induction entries generalizing m with
  | nil => exact h
  | cons e entries ih =>
      simp only [List.length_cons] at hroom
      obtain ⟨hflag, hsame⟩ := hflags e (List.mem_cons_self ..)
      have hroom' : ∀ b, (m.counter b).toNat + 1 < 2 ^ 32 := fun b => by
        have hlength := hroom b
        omega
      refine ih (h.addRecordInMap prevOff syncOff hflag (hroom' e.1)) (fun e' he' => ⟨?_, ?_⟩) ?_
      · intro b hb
        rw [flagOf_addRecordInMap] at hb
        split at hb
        next hc =>
          have he : e'.1 = e.1 := hsame e' (List.mem_cons_of_mem e he') hc.symm
          have hb' : (m.flagOf (component e'.2.path)).getD e.1 = b := Option.some.inj hb
          cases hold : m.flagOf (component e'.2.path) with
          | none =>
              rw [hold, Option.getD_none] at hb'
              rw [← hb', he]
          | some b'' =>
              rw [hold, Option.getD_some] at hb'
              rw [← hb']
              exact (hflags e' (List.mem_cons_of_mem e he')).1 b'' hold
        next => exact (hflags e' (List.mem_cons_of_mem e he')).1 b hb
      · intro e'' he''
        exact (hflags e' (List.mem_cons_of_mem e he')).2 e'' (List.mem_cons_of_mem e he'')
      · intro b
        have hle := counter_addRecordInMap_le component e.2 prevOff syncOff e.1 b
          (hroom' b)
        have hlength := hroom b
        simp only
        omega

theorem Covered.addEntries (h : Covered awaiting m)
    {records : List (Bool × List FinalObjectRecord)} (prevOff syncOff : JournalOffset)
    (hflags : ∀ e ∈ records, ∀ final ∈ e.2,
      (∀ b, m.flagOf (component final.path) = some b → b = e.1) ∧
      ∀ e' ∈ records, ∀ final' ∈ e'.2,
        component final'.path = component final.path → e'.1 = e.1)
    (hcount : m.count.toNat + (records.map (·.2.length)).sum < 2 ^ 32)
    (hrecovered : m.recoveredCount.toNat + (records.map (·.2.length)).sum < 2 ^ 32) :
    Covered awaiting (addEntries component m records prevOff syncOff) := by
  rw [addEntries_eq_foldl]
  refine h.addRecords prevOff syncOff (fun e he => ?_) fun b => ?_
  · obtain ⟨entry, hentry, hmem⟩ := List.mem_flatMap.mp he
    obtain ⟨final, hfinal, rfl⟩ := List.mem_map.mp hmem
    refine ⟨(hflags entry hentry final hfinal).1, fun e' he' => ?_⟩
    obtain ⟨entry', hentry', hmem'⟩ := List.mem_flatMap.mp he'
    obtain ⟨final', hfinal', rfl⟩ := List.mem_map.mp hmem'
    exact (hflags entry hentry final hfinal).2 entry' hentry' final' hfinal'
  · rw [List.length_flatMap]
    simp only [List.length_map]
    cases b
    · exact hrecovered
    · exact hcount

theorem Covered.revertBackContData (h : Covered awaiting m) (hkeyed : Keyed component m)
    {transfer : TransferObjectRecord} {b : Bool}
    (hidle : m.flagOf (component transfer.final.path) = some (! b) →
      Idle component m (component transfer.final.path))
    (hroom : (m.counter b).toNat + 1 < 2 ^ 32) :
    Covered awaiting (revertBackContData component m transfer b) := by
  unfold MemoryManager.revertBackContData
  simp only
  split
  · exact h
  next containers owned hmap =>
    refine h.countUp ⟨rfl, rfl⟩ (fun b' => ?_) hroom
    have hold : componentTally awaiting b' (containers, b) ≤
        componentTally awaiting b' (containers, owned) := by
      by_cases howned : owned = b
      · rw [howned]
      · have hflag : m.flagOf (component transfer.final.path) = some (! b) := by
          rw [flagOf, hmap, Option.map_some, Bool.eq_not.mpr howned]
        rw [componentTally_idle hkeyed hmap (hidle hflag) b]
        exact componentTally_nonneg awaiting b' (containers, owned)
    have hnew : ∀ containers', componentTally awaiting b' (containers', b) ≤
          componentTally awaiting b' (containers, b) + (if b = b' then 1 else 0) →
        tally awaiting b' (m.memoryMap.insert (component transfer.final.path) (containers', b)) ≤
          tally awaiting b' m.memoryMap + if b = b' then 1 else 0 := by
      intro containers' hle
      have hinsert := tally_insert awaiting b' m.memoryMap (component transfer.final.path)
        (containers', b)
      rw [hmap, Option.map_some, Option.getD_some] at hinsert
      omega
    simp only
    refine hnew _ ?_
    cases he : containers[transfer.final.path]? with
    | some e =>
        exact componentTally_insert_le awaiting b' b (by simp [he, SecureObjectRecord.revertRecord])
    | none =>
        simp only
        split <;> omega

theorem Covered.setContainer (h : Covered awaiting m) {path : String} {e e' : SecureObjectRecord}
    (hfind : find component m path = some e)
    (hlen : e'.recordList.length ≤ e.recordList.length) :
    Covered awaiting (setContainer component m path e') :=
  h.shrink (fun _ => tally_setContainer_le hfind hlen) (setContainer_count _ _).1
    (setContainer_count _ _).2

theorem Covered.eraseContainer (h : Covered awaiting m) (path : String) :
    Covered awaiting (eraseContainer component m path) :=
  h.shrink (fun _ => tally_eraseContainer_le path) (eraseContainer_count _).1
    (eraseContainer_count _).2

theorem Covered.getFlushRecords (h : Covered awaiting m) (path : String)
    (unknownStatus requestFromUpdater : Bool) :
    Covered awaiting (getFlushRecords component m path unknownStatus requestFromUpdater).2.2 := by
  unfold MemoryManager.getFlushRecords
  split
  · exact h
  next e hfind =>
    simp only
    have hunknown : ∀ b : Bool, Covered awaiting
        (if b then { m with unknownFlagSet := m.unknownFlagSet.erase path } else m) := by
      intro b
      cases b <;> exact h
    split
    · exact hunknown _
    · split
      · exact hunknown _
      · refine (hunknown _).setContainer (e := e) ?_ ?_
        · rw [← hfind]
          split <;> rfl
        · unfold SecureObjectRecord.getFlushRecords
          split
          next hempty => simp [List.isEmpty_iff.mp hempty]
          next => exact Nat.le_refl _

theorem Covered.flushContainer (h : Covered awaiting m) (getHash : String → String) (path : String)
    (flush : Flush) :
    Covered awaiting (MemoryManager.flushContainer component getHash m path flush) := by
  unfold MemoryManager.flushContainer
  split
  · exact h
  next e hfind => exact h.setContainer hfind (Nat.le_refl _)

theorem Covered.releaseFlushRecords (h : Covered awaiting m) (path : String)
    (garbage : JournalOffset) :
    Covered awaiting (releaseFlushRecords component m path garbage) := by
  unfold MemoryManager.releaseFlushRecords
  split
  · exact h
  next e hfind =>
    split
    · exact h.eraseContainer path
    · exact h.setContainer hfind (Nat.le_refl _)

theorem Covered.deleteContainer (h : Covered awaiting m) (path : String) :
    Covered awaiting (deleteContainer component m path).2 := by
  unfold MemoryManager.deleteContainer
  split
  · exact h
  · split
    · exact h.eraseContainer path
    · exact h

theorem Covered.removeEntry (h : Covered awaiting m) (path : String) (offset : JournalOffset) :
    Covered awaiting (removeEntry component m path offset) := by
  unfold MemoryManager.removeEntry
  split
  · exact h
  next containers owned hmap =>
    split
    · exact h
    next e he =>
      refine h.shrink (fun b => ?_) rfl rfl
      simp only
      generalize hc' : (if (e.removeRecord offset).recordList.isEmpty then containers.erase path
        else containers.insert path (e.removeRecord offset)) = containers'
      have hinsert := tally_insert awaiting b m.memoryMap (component path) (containers', owned)
      rw [hmap, Option.map_some, Option.getD_some] at hinsert
      have hle : componentTally awaiting b (containers', owned) ≤
          componentTally awaiting b (containers, owned) := by
        subst hc'
        split
        · exact componentTally_erase_le awaiting b containers path owned
        · have hlen : (e.removeRecord offset).recordList.length ≤
              (((containers[path]?).map (·.recordList)).getD []).length + 0 := by
            rw [he]
            exact (List.dropWhile_sublist _).length_le
          have hcontainers := componentTally_insert_le awaiting b owned hlen
          split at hcontainers <;> omega
      omega

theorem Covered.removeComponents (h : Covered awaiting m) (components : List Int) :
    Covered awaiting (m.removeComponents components) := by
  refine h.shrink (fun b => ?_) rfl rfl
  unfold MemoryManager.removeComponents
  refine List.foldlRecOn (motive := fun map : MemoryMap =>
    tally awaiting b map ≤ tally awaiting b m.memoryMap) components _ (Int.le_refl _) ?_
  intro map hle c _
  exact (tally_erase_le awaiting b map c).trans hle

/-- The components stay, with flags that their idle containers may change. -/
theorem Covered.map (h : Covered awaiting m) (hkeyed : Keyed component m) {f : Int → Bool → Bool}
    (hidle : ∀ c owned, m.flagOf c = some owned → f c owned ≠ owned → Idle component m c)
    (hmap : m'.memoryMap = m.memoryMap.map fun c e => (e.1, f c e.2))
    (hcount : m'.count = m.count) (hrecovered : m'.recoveredCount = m.recoveredCount) :
    Covered awaiting m' := by
  refine h.shrink (fun b => ?_) hcount hrecovered
  rw [hmap, tally, keyedSum_map]
  refine keyedSum_le fun c e he => ?_
  obtain ⟨containers, owned⟩ := e
  by_cases hf : f c owned = owned
  · simp only [hf]
    exact Int.le_refl _
  · have hc := hidle c owned (by simp [flagOf, he]) hf
    exact (componentTally_idle hkeyed he hc (f c owned)).le.trans
      (componentTally_nonneg awaiting b (containers, owned))

theorem length_extracted (containers : ContainerMap)
    (f : String → JournalOffset × ObjectRecord → TransferObjectRecord) :
    ((containers.toList.flatMap fun e => e.2.recordList.map (f e.1)).length : Int) =
      keyedSum (fun _ e => (e.recordList.length : Int)) containers := by
  unfold keyedSum
  induction containers.toList with
  | nil => rfl
  | cons e l ih => simp [← ih]

theorem length_extractComponent_le (hkeyed : Keyed component m) {requestFromRecovery owned : Bool}
    {c : Int} {records : List TransferObjectRecord} {flushed : List String}
    (hextract : m.extractComponent requestFromRecovery c = some (records, flushed, m'))
    (hflag : m.flagOf c = some owned)
    (hawaiting : owned = true → ∀ path, component path = c → awaiting path = 0) :
    tally awaiting owned m'.memoryMap + records.length ≤ tally awaiting owned m.memoryMap ∧
      tally awaiting (! owned) m'.memoryMap ≤ tally awaiting (! owned) m.memoryMap := by
  obtain ⟨containers, owned', hmap, hrecords, rfl⟩ := extractComponent_eq_some hextract
  obtain rfl : owned' = owned := by simpa [flagOf, hmap] using hflag
  have hinsert := fun b => tally_insert awaiting b m.memoryMap c
    (containers.map fun _ (e : SecureObjectRecord) => e.getUnscheduledRecords, owned')
  simp only [hmap, Option.map_some, Option.getD_some, componentTally_unscheduled] at hinsert
  rw [countDown_memoryMap]
  constructor
  · have hlen : (records.length : Int) ≤ componentTally awaiting owned' (containers, owned') := by
      rw [hrecords, length_extracted, componentTally, if_pos rfl]
      refine keyedSum_le fun path e he => ?_
      cases owned' with
      | false => simp [containerTally]
      | true =>
          have hzero := hawaiting rfl path (hkeyed c containers true hmap path e he)
          simp [containerTally, hzero]
    have howned := hinsert owned'
    simp only
    omega
  · have hother := hinsert (! owned')
    have hnonneg := componentTally_nonneg awaiting (! owned') (containers, owned')
    simp only
    omega

theorem tally_le_counter (h : Covered awaiting m) (b : Bool) :
    tally awaiting b m.memoryMap ≤ (m.counter b).toNat := by
  cases b
  · exact h.2
  · exact h.1

theorem tally_nonneg (awaiting : String → Nat) (memoryFlag : Bool) (map : MemoryMap) :
    0 ≤ tally awaiting memoryFlag map :=
  keyedSum_nonneg (fun _ e => componentTally_nonneg awaiting memoryFlag e) map

theorem toNat_sub_ofNat (count : BitVec 32) {n : Nat} (h : n ≤ count.toNat) :
    (count - BitVec.ofNat 32 n).toNat = count.toNat - n := by
  have hlt := count.isLt
  rw [BitVec.toNat_sub, BitVec.toNat_ofNat]
  omega

theorem Covered.extractComponent (h : Covered awaiting m) (hkeyed : Keyed component m)
    {requestFromRecovery : Bool} {c : Int} {records : List TransferObjectRecord}
    {flushed : List String}
    (hextract : m.extractComponent requestFromRecovery c = some (records, flushed, m'))
    (hawaiting : m.flagOf c = some true → ∀ path, component path = c → awaiting path = 0) :
    Covered awaiting m' := by
  obtain ⟨containers, owned, hmap, hrecords, hm'⟩ := extractComponent_eq_some hextract
  have hflag : m.flagOf c = some owned := by simp [flagOf, hmap]
  obtain ⟨hle, hother⟩ := length_extractComponent_le hkeyed hextract hflag
    fun howned => hawaiting (howned ▸ hflag)
  have hcounter := tally_le_counter h owned
  have hnonneg := tally_nonneg awaiting owned m'.memoryMap
  unfold Covered at h ⊢
  unfold MemoryManager.counter at hcounter
  have hcount : m'.count = if owned then m.count - BitVec.ofNat 32 records.length else m.count := by
    rw [hm', countDown_count]
  have hrecovered : m'.recoveredCount =
      if owned then m.recoveredCount else m.recoveredCount - BitVec.ofNat 32 records.length := by
    rw [hm', countDown_recoveredCount]
  rw [hcount, hrecovered]
  cases owned with
  | true =>
      have hsub := toNat_sub_ofNat m.count (n := records.length) (by
        simp only [if_true] at hcounter
        omega)
      simp only [if_true, Bool.not_true] at hcounter hother ⊢
      omega
  | false =>
      have hsub := toNat_sub_ofNat m.recoveredCount (n := records.length) (by
        simp only [Bool.false_eq_true, if_false] at hcounter
        omega)
      simp only [Bool.false_eq_true, if_false, Bool.not_false] at hcounter hother ⊢
      omega

/-! ### Steps and runs -/

structure Inv (component : String → Int) (s : CountedMemory) : Prop where
  keyed : Keyed component s.memory
  covered : Covered s.awaiting s.memory

theorem inv_start : Inv component start where
  keyed := keyed_init
  covered := ⟨Int.le_refl 0, Int.le_refl 0⟩

/-- No more records of a container wait for the flush asked for than are in its list. -/
theorem Covered.awaiting_min (h : Covered awaiting m) (hkeyed : Keyed component m) :
    Covered (fun path => min (awaiting path) (pending component m path).length) m := by
  have hle : ∀ b, tally (fun path => min (awaiting path) (pending component m path).length) b
      m.memoryMap ≤ tally awaiting b m.memoryMap := by
    intro b
    refine keyedSum_le fun c e hmap => ?_
    obtain ⟨containers, owned⟩ := e
    unfold componentTally
    split
    · refine keyedSum_le fun path e he => ?_
      have hc := hkeyed c containers owned hmap path e he
      have hpending : pending component m path = e.recordList := by
        rw [pending, find_of_getElem? (hc ▸ hmap), he]
        rfl
      unfold containerTally
      cases b
      · exact Int.le_refl _
      · simp only [if_true, hpending]
        omega
    · exact Int.le_refl 0
  have htrue := hle true
  have hfalse := hle false
  unfold Covered at h ⊢
  omega

/-- Where a flush of the owned components is asked for, none of their records is counted. -/
theorem Covered.flushContainers {s : CountedMemory} (h : Inv component s) :
    Covered (s.requested component .flushContainers) s.memory.flushContainers.2 := by
  constructor
  · have hle : tally (s.requested component .flushContainers) true s.memory.memoryMap ≤ 0 := by
      refine (keyedSum_le (f := fun _ _ => 0) fun c e hmap => ?_).trans (by simp [keyedSum])
      obtain ⟨containers, owned⟩ := e
      unfold componentTally
      split
      next howned =>
        obtain rfl : owned = true := howned
        refine (keyedSum_le (f := fun _ _ => 0) fun path e he => ?_).trans (by simp [keyedSum])
        have hc := h.keyed c containers true hmap path e he
        have hflag : s.memory.flagOf (component path) = some true := by simp [flagOf, hc, hmap]
        have hpending : pending component s.memory path = e.recordList := by
          rw [pending, find_of_getElem? (hc ▸ hmap), he]
          rfl
        simp [containerTally, requested, hflag, hpending]
      next => exact Int.le_refl 0
    exact hle.trans (Int.natCast_nonneg _)
  · have hsame : tally (s.requested component .flushContainers) false s.memory.memoryMap =
        tally s.awaiting false s.memory.memoryMap := rfl
    exact hsame.le.trans h.covered.2

theorem Covered.resetInMemoryCount (h : Covered awaiting m) {decrementCount : BitVec 32}
    (hle : decrementCount.toNat + tally awaiting true m.memoryMap ≤ m.count.toNat) :
    Covered awaiting (m.resetInMemoryCount decrementCount) := by
  have hnonneg := tally_nonneg awaiting true m.memoryMap
  have hsub : (m.count - decrementCount).toNat = m.count.toNat - decrementCount.toNat :=
    BitVec.toNat_sub_of_le (by
      rw [BitVec.le_def]
      omega)
  refine ⟨?_, h.2⟩
  simp only [MemoryManager.resetInMemoryCount]
  omega

theorem Inv.step {s s' : CountedMemory} (h : Inv component s) {getHash : String → String}
    {op : Operation} (hcounted : s.Counted component op)
    (hstep : s.step component getHash op = some s') : Inv component s' := by
  obtain ⟨m', hm', rfl⟩ := Option.map_eq_some_iff.mp hstep
  have hkeyed := h.keyed.step hm'
  refine ⟨hkeyed, Covered.awaiting_min ?_ hkeyed⟩
  cases op with
  | addEntries records prevOff syncOff =>
      cases hm'
      exact h.covered.addEntries prevOff syncOff hcounted.1 hcounted.2.1 hcounted.2.2
  | revertBackContData transfer memoryFlag =>
      cases hm'
      exact h.covered.revertBackContData h.keyed hcounted.1 hcounted.2
  | getFlushRecords path unknownStatus requestFromUpdater =>
      cases hm'
      exact h.covered.getFlushRecords path unknownStatus requestFromUpdater
  | flushContainer path flush =>
      cases hm'
      exact h.covered.flushContainer getHash path flush
  | releaseFlushRecords path garbage =>
      cases hm'
      exact h.covered.releaseFlushRecords path garbage
  | deleteContainer path =>
      cases hm'
      exact h.covered.deleteContainer path
  | removeEntry path offset =>
      cases hm'
      exact h.covered.removeEntry path offset
  | getComponentObjectRecords c requestFromRecovery =>
      cases hm'
      cases hextract : s.memory.extractComponent requestFromRecovery c with
      | none => exact h.covered
      | some e => exact h.covered.extractComponent h.keyed hextract hcounted
  | removeComponents components =>
      cases hm'
      exact h.covered.removeComponents components
  | markUnknownMemory components =>
      cases hm'
      refine h.covered.map (f := fun c owned => if c ∈ components then owned else false) h.keyed
        (fun c owned hflag hne => ?_) ?_ rfl rfl
      · by_cases hc : c ∈ components
        · simp [hc] at hne
        · refine hcounted c hc ?_
          cases owned
          · simp [hc] at hne
          · exact hflag
      · simp only [MemoryManager.markUnknownMemory]
        congr 1
        funext c e
        split <;> rfl
  | commitRecoveredData components baseVersionChanged =>
      obtain ⟨⟨ret, m''⟩, hcommit, rfl⟩ := Option.map_eq_some_iff.mp hm'
      unfold MemoryManager.commitRecoveredData at hcommit
      simp only at hcommit
      split at hcommit
      · contradiction
      · cases hcommit
        refine h.covered.map (f := fun c owned => owned || decide (c ∈ components)) h.keyed
          (fun c owned hflag hne => ?_) rfl rfl rfl
        cases owned
        · simp only [Bool.false_or, ne_eq, decide_eq_false_iff_not, Decidable.not_not] at hne
          exact hcounted c hne hflag
        · simp at hne
  | resetInMemoryCount decrementCount =>
      cases hm'
      exact h.covered.resetInMemoryCount hcounted
  | flushContainers =>
      cases hm'
      exact Covered.flushContainers h

/-- No counter is reduced by more than it has. -/
theorem Inv.not_wraps {s : CountedMemory} (h : Inv component s) {op : Operation}
    (hcounted : s.Counted component op) : ¬ s.memory.Wraps op := by
  intro hwraps
  cases op with
  | getComponentObjectRecords c requestFromRecovery =>
      obtain ⟨owned, records, flushed, m', hflag, hextract, hlt⟩ := hwraps
      have hle := (length_extractComponent_le h.keyed hextract hflag
        fun howned => hcounted (howned ▸ hflag)).1
      have hcounter := tally_le_counter h.covered owned
      have hnonneg := tally_nonneg s.awaiting owned m'.memoryMap
      omega
  | resetInMemoryCount decrementCount =>
      have hnonneg := tally_nonneg s.awaiting true s.memory.memoryMap
      have hle : decrementCount.toNat + tally s.awaiting true s.memory.memoryMap ≤
        s.memory.count.toNat := hcounted
      have hlt : s.memory.count.toNat < decrementCount.toNat := BitVec.lt_def.mp hwraps
      omega
  | _ => exact hwraps

theorem along_memory {getHash : String → String} {Q : MemoryManager → Operation → Prop}
    {s : CountedMemory} {ops : List Operation}
    (h : Along (step component getHash) (fun s op => Q s.memory op) s ops) :
    Along (MemoryManager.step component getHash) Q s.memory ops := by
  induction ops generalizing s with
  | nil => trivial
  | cons op ops ih =>
      refine ⟨h.1, fun m' hm' => ?_⟩
      exact ih (h.2 _ (by rw [CountedMemory.step, hm', Option.map_some]))

end CountedMemory

open CountedMemory

/-- In a run whose operations keep the counters to the records they count, no counter wraps. -/
theorem counters_never_wrap (component : String → Int) (getHash : String → String)
    {ops : List Operation}
    (hcounted : Along (CountedMemory.step component getHash) (Counted component) start ops) :
    Along (MemoryManager.step component getHash) (fun m op => ¬ m.Wraps op) init ops :=
  along_memory (along_of_invariant _ (fun _ _ _ h hc hstep => h.step hc hstep)
    (fun _ _ h hc => h.not_wraps hc) inv_start hcounted)

/-- A record is extracted, put back and flushed. -/
theorem counters_never_wrap_extraction :
    Along (MemoryManager.step (fun _ => 5) id) (fun m op => ¬ m.Wraps op) init
      [.addEntries [(true, [⟨"a/b", ⟨"o", 1, 0, objectAdd⟩⟩])] (toLex (1, 0)) (toLex (1, 50)),
        .getComponentObjectRecords 5 false,
        .revertBackContData ⟨⟨"a/b", ⟨"o", 1, 0, objectAdd⟩⟩, toLex (1, 50)⟩ true,
        .flushContainers] := by
  refine counters_never_wrap (fun _ => 5) id ⟨⟨?_, by decide, by decide⟩, fun s₁ hs₁ => ?_⟩
  · intro e he final _
    refine ⟨fun b hb => by simp [flagOf, start, init] at hb, fun e' he' _ _ _ => ?_⟩
    rw [List.mem_singleton.mp he, List.mem_singleton.mp he']
  · cases hs₁
    refine ⟨fun _ path _ => Nat.zero_min _, fun s₂ hs₂ => ?_⟩
    cases hs₂
    refine ⟨⟨fun h => absurd h (by decide), by decide⟩, fun s₃ hs₃ => ?_⟩
    exact ⟨trivial, fun _ _ => trivial⟩

/-- A flush request sets the counter to zero while the record is still in memory, and its extraction
reduces it by one more. -/
theorem flushed_count_wraps :
    ∃ m m', run (MemoryManager.step (fun _ => 5) id) init
        [.addEntries [(true, [⟨"a/b", ⟨"o", 1, 0, objectAdd⟩⟩])] (toLex (1, 0)) (toLex (1, 50)),
          .flushContainers] = some m ∧
      m.Wraps (.getComponentObjectRecords 5 false) ∧
      MemoryManager.step (fun _ => 5) id m (.getComponentObjectRecords 5 false) = some m' ∧
      m'.count = 4294967295 := by
  refine ⟨_, _, rfl, ⟨true, _, _, _, rfl, rfl, ?_⟩, rfl, ?_⟩ <;> decide

end ObjectStorage.Container.Statistics.Components
