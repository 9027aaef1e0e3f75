import ObjectStorage.Library.Transition
import ObjectStorage.Transaction.LockDrops

/-!
The operations of the lock manager that hand records out or take one back, in terms of the lookups:
acquire, release, adding records and committing recovered components.
-/

namespace ObjectStorage.Transaction.TransactionLockManager

open Std Library

variable {osdConfig : Bool} {s s' : TransactionLockManager}

/-! ### Acquire -/

/-- The front element of the record's name turns the record down. -/
def frontRejects (s : TransactionLockManager) (record : ActiveRecord) : Bool :=
  match elementsAt s.nameMap record.objectName with
  | [] => false
  | front :: _ => rejects front.operation record.operation

theorem acquireTransactionLock_eq (hn : ListsNonempty s.nameMap) (record : ActiveRecord) :
    s.acquireTransactionLock osdConfig record =
      some (if s.frontRejects record then (-1, s) else s.grant osdConfig record) := by
  unfold acquireTransactionLock frontRejects
  rcases hname : s.nameMap[record.objectName]? with _ | _ | ⟨front, rest⟩
  · simp [elementsAt, hname]
  · exact absurd hname (hn _)
  · simp only [elementsAt, hname, Option.getD_some]
    split <;> rfl

@[simp] theorem withGrantedId_objectName (record : ActiveRecord) :
    (s.withGrantedId record).objectName = record.objectName := rfl

@[simp] theorem withGrantedId_transactionId (record : ActiveRecord) :
    (s.withGrantedId record).transactionId = s.grantedId record := rfl

@[simp] theorem withGrantedId_operation (record : ActiveRecord) :
    (s.withGrantedId record).operation = record.operation := rfl

theorem grant_nameMap (s : TransactionLockManager) (record : ActiveRecord) :
    (s.grant osdConfig record).2.nameMap =
      pushElement s.nameMap record.objectName (s.withGrantedId record).element := by
  unfold grant
  dsimp only
  split <;> rfl

/-- The component already holds the id: only the name index has changed. -/
theorem grant_of_stored {record stored : ActiveRecord}
    (h : recordAt s.memMap (getComponentName osdConfig record.objectName) (s.grantedId record) =
      some stored) :
    (s.grant osdConfig record).1 = -1 ∧ (s.grant osdConfig record).2.memMap = s.memMap ∧
      (s.grant osdConfig record).2.compMap = s.compMap := by
  have hsome : (s.memMap[getComponentName osdConfig record.objectName]?.bind
      (·.1[s.grantedId record]?)).isSome = true := by
    change (recordAt _ _ _).isSome = true
    simp [h]
  unfold grant
  simp [hsome]

theorem grant_of_new {record : ActiveRecord}
    (h : recordAt s.memMap (getComponentName osdConfig record.objectName) (s.grantedId record) =
      none) :
    (s.grant osdConfig record).1 = s.grantedId record ∧
      (s.grant osdConfig record).2.memMap =
        insertRecord s.memMap (getComponentName osdConfig record.objectName)
          (s.withGrantedId record) true ∧
      (s.grant osdConfig record).2.compMap =
        s.compMap.insertIfNew (s.grantedId record)
          (getComponentName osdConfig record.objectName) := by
  have hnone : (s.memMap[getComponentName osdConfig record.objectName]?.bind
      (·.1[s.grantedId record]?)).isSome = false := by
    change (recordAt _ _ _).isSome = false
    simp [h]
  unfold grant
  simp [hnone]

/-! ### Release -/

theorem releaseLockById_of_missing {t : Int} (h : s.findRecord? t = none) :
    s.releaseLockById t = some (false, s) := by
  simp [releaseLockById, h]

theorem releaseLockById_of_found {t c : Int} {r : ActiveRecord} {elements : ElementList}
    (hcomp : s.compMap[t]? = some c) (hr : recordAt s.memMap c t = some r)
    (hn : s.nameMap[r.objectName]? = some elements) :
    s.releaseLockById t = some (true, { s with
      nameMap := eraseElement s.nameMap r.objectName elements t
      memMap := eraseRecord s.memMap c t
      compMap := s.compMap.erase t }) := by
  simp [releaseLockById, findRecord?_eq_some.mpr ⟨hcomp, hr⟩, hn]

/-! ### Commit -/

/-- The records that `commit_recovered_data` registers, in the order in which it does. -/
def recoveredEntries (cs : List Int) (mem : MemMap) : List (Int × ActiveRecord) :=
  mem.toList.flatMap fun e =>
    if e.1 ∈ cs ∧ e.2.2 = false then e.2.1.toList.map fun x => (e.1, x.2) else []

/-- What the loop of `commit_recovered_data` does to the component index. -/
def ownListed (cs : List Int) (mem : MemMap) (e : Int × (RecordMap × Bool)) : MemMap :=
  if e.1 ∈ cs ∧ e.2.2 = false then mem.insert e.1 (e.2.1, true) else mem

def ownComponents (cs : List Int) (mem : MemMap) : MemMap :=
  mem.toList.foldl (ownListed cs) mem

def commitEntries (s : TransactionLockManager) (entries : List (Int × ActiveRecord)) :
    TransactionLockManager :=
  entries.foldl (fun s e => commitRecord e.1 s e.2) s

theorem commitEntries_with_memMap (entries : List (Int × ActiveRecord))
    (s : TransactionLockManager) (mem : MemMap) :
    { s with memMap := mem }.commitEntries entries =
      { s.commitEntries entries with memMap := mem } := by
  induction entries generalizing s with
  | nil => rfl
  | cons e entries ih => exact ih (commitRecord e.1 s e.2)

theorem commitEntries_append (entries entries' : List (Int × ActiveRecord))
    (s : TransactionLockManager) :
    s.commitEntries (entries ++ entries') = (s.commitEntries entries).commitEntries entries' := by
  simp [commitEntries]

/-- An id registered by a commit was registered before or belongs to an entry. -/
theorem commitEntries_compMap {entries : List (Int × ActiveRecord)} {t c : Int}
    (h : (s.commitEntries entries).compMap[t]? = some c) :
    s.compMap[t]? = some c ∨ ∃ r, (c, r) ∈ entries ∧ r.transactionId = t := by
  induction entries generalizing s with
  | nil => exact Or.inl h
  | cons e entries ih =>
      rcases ih h with hold | ⟨r, hr, ht⟩
      · rcases getElem?_insertIfNew_eq_some.mp hold with hold | ⟨-, ht, rfl⟩
        · exact Or.inl hold
        · exact Or.inr ⟨e.2, List.mem_cons_self, ht⟩
      · exact Or.inr ⟨r, List.mem_cons_of_mem _ hr, ht⟩

/-- One round of the loop of `commit_recovered_data` that is defined. -/
def commitListed (cs : List Int) (s : TransactionLockManager) (e : Int × (RecordMap × Bool)) :
    TransactionLockManager :=
  { s.commitEntries
      (if e.1 ∈ cs ∧ e.2.2 = false then e.2.1.toList.map fun x => (e.1, x.2) else []) with
    memMap := ownListed cs s.memMap e }

theorem commitComponent_eq {cs : List Int} {changed : Bool} (e : Int × (RecordMap × Bool))
    (h : changed = true → e.1 ∈ cs) (s : TransactionLockManager) :
    commitComponent cs changed s e = some (commitListed cs s e) := by
  unfold commitComponent commitListed ownListed
  by_cases hcs : e.1 ∈ cs
  · cases hflag : e.2.2 with
    | true => simp [hcs, commitEntries]
    | false =>
        simp only [hcs, if_true, Bool.false_eq_true, if_false, and_self]
        rw [← commitEntries_with_memMap]
        simp [commitEntries, List.foldl_map]
  · have hchanged : changed = false := by
      cases changed with
      | true => exact absurd (h rfl) hcs
      | false => rfl
    simp [hcs, hchanged, commitEntries]

private theorem foldl_commitListed (cs : List Int) (l : List (Int × (RecordMap × Bool)))
    (s : TransactionLockManager) :
    l.foldl (commitListed cs) s =
      { s.commitEntries (l.flatMap fun e =>
          if e.1 ∈ cs ∧ e.2.2 = false then e.2.1.toList.map fun x => (e.1, x.2) else []) with
        memMap := l.foldl (ownListed cs) s.memMap } := by
  induction l generalizing s with
  | nil => rfl
  | cons e l ih =>
      rw [List.foldl_cons, ih, List.flatMap_cons, commitEntries_append]
      unfold commitListed
      rw [commitEntries_with_memMap]
      rfl

/-- `commit_recovered_data` where it is defined: it registers the records of the listed components
that were not owned, and owns them. -/
theorem commitRecoveredData_eq {cs : List Int} {changed : Bool}
    (h : changed = true → ∀ c b, flagAt s.memMap c = some b → c ∈ cs) :
    s.commitRecoveredData cs changed = some
      { s.commitEntries (recoveredEntries cs s.memMap) with
        memMap := ownComponents cs s.memMap } := by
  unfold commitRecoveredData
  rw [foldlM_eq_some_foldl (g := commitListed cs), foldl_commitListed]
  · rfl
  · intro s' e he
    refine commitComponent_eq e (fun hc => h hc e.1 e.2.2 ?_) s'
    simp [flagAt, TreeMap.mem_toList_iff_getElem?_eq_some.mp he]

theorem getElem?_ownComponents (cs : List Int) (mem : MemMap) (c : Int) :
    (ownComponents cs mem)[c]? = mem[c]?.map fun p => (p.1, p.2 || decide (c ∈ cs)) := by
  refine getElem?_foldl_update (f := fun c p => (p.1, p.2 || decide (c ∈ cs))) ?_ mem c
  intro m e he a
  unfold ownListed
  by_cases hcs : e.1 ∈ cs
  · cases hflag : e.2.2 with
    | false => simp [hcs]
    | true =>
        by_cases hea : e.1 = a
        · subst hea
          simp [he, hflag, Prod.ext_iff]
        · simp [hea]
  · by_cases hea : e.1 = a
    · subst hea
      simp [he, hcs]
    · simp [hea, hcs]

theorem recordAt_ownComponents (cs : List Int) (mem : MemMap) (c t : Int) :
    recordAt (ownComponents cs mem) c t = recordAt mem c t := by
  unfold recordAt
  rw [getElem?_ownComponents]
  cases mem[c]? <;> rfl

theorem flagAt_ownComponents (cs : List Int) (mem : MemMap) (c : Int) :
    flagAt (ownComponents cs mem) c = (flagAt mem c).map (· || decide (c ∈ cs)) := by
  unfold flagAt
  rw [getElem?_ownComponents]
  cases mem[c]? <;> rfl

theorem mem_recoveredEntries {cs : List Int} {mem : MemMap} {c : Int} {r : ActiveRecord} :
    (c, r) ∈ recoveredEntries cs mem ↔
      c ∈ cs ∧ flagAt mem c = some false ∧ ∃ t, recordAt mem c t = some r := by
  unfold recoveredEntries
  simp only [List.mem_flatMap, Prod.exists]
  constructor
  · rintro ⟨c', records, b, hmem, hin⟩
    have hc := TreeMap.mem_toList_iff_getElem?_eq_some.mp hmem
    by_cases hlisted : c' ∈ cs ∧ b = false
    · obtain ⟨hcs, rfl⟩ := hlisted
      simp only [hcs, and_self, if_true, List.mem_map, Prod.mk.injEq, Prod.exists] at hin
      obtain ⟨t, r', hr', rfl, rfl⟩ := hin
      exact ⟨hcs, by simp [flagAt, hc], t, (mem_toList_iff_recordAt hc t r').mp hr'⟩
    · simp [hlisted] at hin
  · rintro ⟨hcs, hflag, t, hr⟩
    obtain ⟨⟨records, b⟩, hc, -⟩ := Option.bind_eq_some_iff.mp hr
    have hb : b = false := by simpa [flagAt, hc] using hflag
    subst hb
    refine ⟨c, records, false, TreeMap.mem_toList_iff_getElem?_eq_some.mpr hc, ?_⟩
    simp only [hcs, and_self, if_true, List.mem_map, Prod.mk.injEq, Prod.exists]
    exact ⟨t, r, (mem_toList_iff_recordAt hc t r).mpr hr, trivial, rfl⟩

/-- Recovered records have different ids when no id is stored in two listed components that are
not owned. -/
theorem pairwise_recoveredEntries (cs : List Int) {mem : MemMap} (hkey : KeyedById mem)
    (hcross : ∀ c c' t r r', c ∈ cs → c' ∈ cs → flagAt mem c = some false →
      flagAt mem c' = some false → recordAt mem c t = some r → recordAt mem c' t = some r' →
      c = c') :
    (recoveredEntries cs mem).Pairwise fun e e' => e.2.transactionId ≠ e'.2.transactionId := by
  unfold recoveredEntries
  rw [List.pairwise_flatMap]
  constructor
  · rintro ⟨c, records, b⟩ hmem
    have hc := TreeMap.mem_toList_iff_getElem?_eq_some.mp hmem
    by_cases hlisted : c ∈ cs ∧ b = false
    · simp only [hlisted, and_self, if_true]
      rw [List.pairwise_map]
      apply (pairwise_keys_toList records).imp_of_mem
      rintro ⟨t, r⟩ ⟨t', r'⟩ hr hr' hne heq
      apply hne
      have ht := hkey c t r ((mem_toList_iff_recordAt hc t r).mp hr)
      have ht' := hkey c t' r' ((mem_toList_iff_recordAt hc t' r').mp hr')
      exact ht.symm.trans (heq.trans ht')
    · simp [hlisted]
  · apply (pairwise_keys_toList mem).imp_of_mem
    rintro ⟨c, records, b⟩ ⟨c', records', b'⟩ hmem hmem' hne ⟨d, r⟩ hr ⟨d', r'⟩ hr' heq
    apply hne
    have hc := TreeMap.mem_toList_iff_getElem?_eq_some.mp hmem
    have hc' := TreeMap.mem_toList_iff_getElem?_eq_some.mp hmem'
    by_cases hlisted : c ∈ cs ∧ b = false
    · by_cases hlisted' : c' ∈ cs ∧ b' = false
      · obtain ⟨hcs, rfl⟩ := hlisted
        obtain ⟨hcs', rfl⟩ := hlisted'
        simp only [hcs, hcs', and_self, if_true, List.mem_map, Prod.mk.injEq,
          Prod.exists] at hr hr'
        obtain ⟨t, r, hin, rfl, rfl⟩ := hr
        obtain ⟨t', r', hin', rfl, rfl⟩ := hr'
        have hrec := (mem_toList_iff_recordAt hc t r).mp hin
        have hrec' := (mem_toList_iff_recordAt hc' t' r').mp hin'
        have ht : t = t' := (hkey c t r hrec).symm.trans (heq.trans (hkey c' t' r' hrec'))
        subst ht
        exact hcross c c' t r r' hcs hcs' (by simp [flagAt, hc]) (by simp [flagAt, hc']) hrec
          hrec'
      · simp [hlisted'] at hr'
    · simp [hlisted] at hr

end ObjectStorage.Transaction.TransactionLockManager
