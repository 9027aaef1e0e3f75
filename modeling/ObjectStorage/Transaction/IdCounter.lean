import ObjectStorage.Transaction.JournalReading

/-!
The counter that transaction ids are taken from: what every operation of the lock table, the
recovery of a record and a step of the node do with it.
-/

namespace ObjectStorage.Transaction

open Std Library SharedExclusive Journal

namespace TransactionLockManager

variable {osdConfig : Bool} {s s' : TransactionLockManager}

/-! ### Operations of the lock table -/

theorem setLastTransactionId_id (s : TransactionLockManager) (t : Int) :
    (s.setLastTransactionId t).id = max s.id t := by
  unfold setLastTransactionId
  split
  · simp only
    omega
  · omega

theorem grant_cases {record : ActiveRecord} {v : Int}
    (h : s.grant osdConfig record = (v, s')) :
    (v = -1 ∨ v = s.grantedId record) ∧ s'.id = max s.id (s.grantedId record) := by
  have hraised := s.setLastTransactionId_id (s.grantedId record)
  unfold grant at h
  dsimp only [withGrantedId] at h
  split at h
  · obtain ⟨rfl, rfl⟩ := Prod.mk.inj h
    exact ⟨.inl rfl, hraised⟩
  · obtain ⟨rfl, rfl⟩ := Prod.mk.inj h
    exact ⟨.inr rfl, hraised⟩

theorem acquireLock_cases {record : ActiveRecord} {v : Int}
    (h : s.acquireLock osdConfig record = some (v, s')) :
    ((v = -1 ∨ v = -2) ∧ s'.id = s.id) ∨
      ((v = -1 ∨ v = s.grantedId record) ∧ s'.id = max s.id (s.grantedId record)) := by
  unfold acquireLock acquireTransactionLock at h
  split at h
  · obtain ⟨rfl, rfl⟩ := Prod.mk.inj (Option.some.inj h)
    exact .inl ⟨.inr rfl, rfl⟩
  · split at h
    · exact .inr (grant_cases (Option.some.inj h))
    · cases h
    · split at h
      · obtain ⟨rfl, rfl⟩ := Prod.mk.inj (Option.some.inj h)
        exact .inl ⟨.inl rfl, rfl⟩
      · exact .inr (grant_cases (Option.some.inj h))

theorem acquireLock_id_mono {record : ActiveRecord} {v : Int}
    (h : s.acquireLock osdConfig record = some (v, s')) : s.id ≤ s'.id := by
  rcases acquireLock_cases h with ⟨-, hid⟩ | ⟨-, hid⟩ <;> omega

theorem acquireLock_id_le {record : ActiveRecord} {v bound : Int}
    (h : s.acquireLock osdConfig record = some (v, s')) (hs : s.id ≤ bound)
    (hgranted : s.grantedId record ≤ bound) : s'.id ≤ bound := by
  rcases acquireLock_cases h with ⟨-, hid⟩ | ⟨-, hid⟩ <;> omega

theorem releaseLockById_id {t : Int} {status : Bool}
    (h : s.releaseLockById t = some (status, s')) : s'.id = s.id := by
  unfold releaseLockById at h
  split at h
  · obtain ⟨-, rfl⟩ := Prod.mk.inj (Option.some.inj h)
    rfl
  · split at h
    · cases h
    · obtain ⟨-, rfl⟩ := Prod.mk.inj (Option.some.inj h)
      rfl

theorem foldl_id {α : Type} {f : TransactionLockManager → α → TransactionLockManager}
    (hf : ∀ s a, (f s a).id = s.id) (as : List α) (s : TransactionLockManager) :
    (as.foldl f s).id = s.id := by
  induction as generalizing s with
  | nil => rfl
  | cons a as ih => exact (ih _).trans (hf s a)

theorem addRecordsInMemory_id (s : TransactionLockManager) (entries : List ActiveRecord)
    (flag : Bool) : (s.addRecordsInMemory osdConfig entries flag).id = s.id := by
  refine foldl_id (fun s record => ?_) entries s
  unfold addRecord
  dsimp only
  split <;> rfl

theorem forgetRecord_id (s : TransactionLockManager) (entry : Int × ActiveRecord) :
    (s.forgetRecord entry).id = s.id := rfl

theorem markUnknownMemory_id (s : TransactionLockManager) (components : List Int) :
    (s.markUnknownMemory components).id = s.id := by
  refine foldl_id (fun s entry => ?_) _ s
  unfold markUnknownComponent
  split
  · rfl
  · exact foldl_id forgetRecord_id _ _

theorem commitRecoveredData_id {components : List Int} {changed : Bool}
    (h : s.commitRecoveredData components changed = some s') : s'.id = s.id := by
  have hone : ∀ (entry : Int × (RecordMap × Bool)) (s s' : TransactionLockManager),
      commitComponent components changed s entry = some s' → s'.id = s.id := by
    intro entry s s' hs
    unfold commitComponent at hs
    split at hs
    · split at hs
      · exact Option.some.inj hs ▸ rfl
      · obtain rfl := Option.some.inj hs
        exact foldl_id (f := commitRecord entry.1) (fun _ _ => rfl) _ _
    · split at hs
      · cases hs
      · exact Option.some.inj hs ▸ rfl
  unfold commitRecoveredData at h
  generalize s.memMap.toList = entries at h
  induction entries generalizing s with
  | nil => exact Option.some.inj h ▸ rfl
  | cons entry entries ih =>
      obtain ⟨s₁, hfirst, hrest⟩ := Option.bind_eq_some_iff.mp h
      exact (ih hrest).trans (hone entry s s₁ hfirst)

theorem getComponentTransactionMap_id (s : TransactionLockManager) (components : List Int) :
    (s.getComponentTransactionMap components).2.id = s.id := by
  unfold getComponentTransactionMap
  generalize (∅ : TreeMap Int (List ActiveRecord)) = found
  induction components generalizing s found with
  | nil => rfl
  | cons component components ih =>
      have hone : (extractComponent (found, s) component).2.id = s.id := by
        unfold extractComponent
        split
        · rfl
        · exact foldl_id forgetRecord_id _ s
      rw [List.foldl_cons, ← hone]
      exact ih _ _

/-! ### Calls of the service -/

/-- A call issues the next id, or none; then the counter may have been raised all the same. -/
theorem call_id {c : Call} {record? : Option Record}
    (h : s.call osdConfig c = some (record?, s')) :
    (record?.bind (·.issued?) = some (s.id + 1) ∧ s'.id = s.id + 1) ∨
      (record?.bind (·.issued?) = none ∧ s.id ≤ s'.id ∧ s'.id ≤ s.id + 1) := by
  cases c with
  | addTransaction request lockTime =>
      obtain ⟨⟨id, found⟩, hadd, heq⟩ := Option.map_eq_some_iff.mp h
      obtain rfl : found = (record?, s') := heq
      obtain ⟨⟨v, s₁⟩, hacquire, heq⟩ := Option.map_eq_some_iff.mp hadd
      have hgranted : s.grantedId (request.activeRecord lockTime) = s.id + 1 := by
        simp [grantedId, Request.activeRecord]
      have hmono := acquireLock_id_mono hacquire
      have hle : s₁.id ≤ s.id + 1 := acquireLock_id_le hacquire (by omega) hgranted.le
      simp only at heq
      split at heq
      · obtain ⟨-, rfl, rfl⟩ := heq
        exact .inr ⟨rfl, hmono, hle⟩
      · rename_i hv
        obtain ⟨rfl, rfl, rfl⟩ := heq
        rcases acquireLock_cases hacquire with ⟨hfailed, -⟩ | ⟨hfailed | rfl, hid⟩
        · exact absurd hfailed hv
        · exact absurd (.inl hfailed) hv
        · left
          rw [hgranted] at hid ⊢
          exact ⟨rfl, by omega⟩
  | releaseLock t =>
      obtain ⟨⟨status, found⟩, hrelease, heq⟩ := Option.map_eq_some_iff.mp h
      obtain rfl : found = (record?, s') := heq
      obtain ⟨⟨status', s₁⟩, hrelease', heq⟩ := Option.map_eq_some_iff.mp hrelease
      have hid := releaseLockById_id hrelease'
      simp only at heq
      split at heq
      · obtain ⟨-, rfl, rfl⟩ := heq
        exact .inr ⟨rfl, hid.ge, by omega⟩
      · obtain ⟨-, rfl, rfl⟩ := heq
        exact .inr ⟨rfl, hid.ge, by omega⟩

end TransactionLockManager

/-! ### Recovery -/

/-- The id to which a record raises the counter when it is recovered. -/
def Record.raises? : Record → Option Int
  | .openRecord active => some active.transactionId
  | .snapshotHeaderRecord lastTransactionId _ => some lastTransactionId
  | _ => none

namespace TransactionReadHandler

open TransactionLockManager

variable {osdConfig : Bool} {h h' : TransactionReadHandler} {p : PlacedRecord}

theorem acquire_id_mono {active : ActiveRecord} (hacquire : h.acquire osdConfig active = some h') :
    h.memory.id ≤ h'.memory.id := by
  obtain ⟨⟨v, memory⟩, hlock, rfl⟩ := Option.map_eq_some_iff.mp hacquire
  exact acquireLock_id_mono hlock

theorem acquire_id_le {active : ActiveRecord} {bound : Int}
    (hacquire : h.acquire osdConfig active = some h') (hne : active.transactionId ≠ 0)
    (hh : h.memory.id ≤ bound) (hid : active.transactionId ≤ bound) : h'.memory.id ≤ bound := by
  obtain ⟨⟨v, memory⟩, hlock, rfl⟩ := Option.map_eq_some_iff.mp hacquire
  have hgranted : h.memory.grantedId active = active.transactionId := if_pos hne
  exact acquireLock_id_le hlock hh (hgranted.trans_le hid)

/-- Recovering a record never lowers the counter, and raises it at most to the id of the record. -/
theorem recoverObjects_id (hp : h.recoverObjects osdConfig p = some h') :
    h.memory.id ≤ h'.memory.id ∧ ∀ bound, (∀ active, p.record = .openRecord active →
      active.transactionId ≠ 0) → (∀ id ∈ p.record.raises?, id ≤ bound) → h.memory.id ≤ bound →
        h'.memory.id ≤ bound := by
  obtain ⟨record, offset, size⟩ := p
  unfold recoverObjects at hp
  cases record with
  | snapshotHeaderRecord last version =>
      obtain rfl := Option.some.inj hp
      have hid := h.memory.setLastTransactionId_id last
      refine ⟨by simp only; omega, fun bound _ hraises hh => ?_⟩
      have hlast := hraises last rfl
      simp only
      omega
  | openRecord active =>
      have hacquire : ∀ h₁, h.acquire osdConfig (recoveredRecord active size) = some h₁ →
          h₁.memory = h'.memory → h.memory.id ≤ h'.memory.id ∧ ∀ bound,
            (∀ active', Record.openRecord active = .openRecord active' →
              active'.transactionId ≠ 0) →
            (∀ id ∈ (Record.openRecord active).raises?, id ≤ bound) → h.memory.id ≤ bound →
              h'.memory.id ≤ bound := by
        intro h₁ hacquire hmemory
        rw [← hmemory]
        exact ⟨acquire_id_mono hacquire, fun bound hne hraises hh =>
          acquire_id_le hacquire (hne active rfl) hh (hraises _ rfl)⟩
      simp only at hp
      split at hp
      · split at hp
        · obtain ⟨h₁, hlock, rfl⟩ := Option.map_eq_some_iff.mp hp
          exact hacquire h₁ hlock rfl
        · obtain rfl := Option.some.inj hp
          exact ⟨Int.le_refl _, fun _ _ _ hh => hh⟩
      · exact hacquire h' hp rfl
  | closeRecord t name =>
      obtain ⟨⟨status, memory⟩, hrelease, rfl⟩ := Option.map_eq_some_iff.mp hp
      have hid := releaseLockById_id hrelease
      exact ⟨hid.ge, fun _ _ _ hh => hid.trans_le hh⟩
  | checkpointRecord last ids =>
      obtain rfl := Option.some.inj hp
      exact ⟨Int.le_refl _, fun _ _ _ hh => hh⟩

theorem recoverRecords_id_mono {placed : List PlacedRecord}
    (hrun : h.recoverRecords osdConfig placed = some h') : h.memory.id ≤ h'.memory.id := by
  induction placed generalizing h with
  | nil => exact (Option.some.inj hrun) ▸ Int.le_refl _
  | cons p placed ih =>
      obtain ⟨h₁, hp, hrest⟩ := Option.bind_eq_some_iff.mp hrun
      exact (recoverObjects_id hp).1.trans (ih hrest)

theorem recoverRecords_id_le {placed : List PlacedRecord} {bound : Int}
    (hne : ∀ p ∈ placed, ∀ active, p.record = .openRecord active → active.transactionId ≠ 0)
    (hraises : ∀ p ∈ placed, ∀ id ∈ p.record.raises?, id ≤ bound) (hh : h.memory.id ≤ bound)
    (hrun : h.recoverRecords osdConfig placed = some h') : h'.memory.id ≤ bound := by
  induction placed generalizing h with
  | nil => exact (Option.some.inj hrun) ▸ hh
  | cons p placed ih =>
      obtain ⟨h₁, hp, hrest⟩ := Option.bind_eq_some_iff.mp hrun
      exact ih (fun q hq => hne q (List.mem_cons_of_mem _ hq))
        (fun q hq => hraises q (List.mem_cons_of_mem _ hq))
        ((recoverObjects_id hp).2 bound (hne p List.mem_cons_self)
          (hraises p List.mem_cons_self) hh)
        hrest

end TransactionReadHandler

/-! ### Steps of the node -/

namespace JournalNode

variable {osdConfig : Bool} {stream : ObjectStream} {config : JournalConfig} {nodeId : Nat}
  {node node' : JournalNode} {a : NodeStep}

/-- What a step does with the counter and with the ids issued. -/
inductive CounterStep (osdConfig : Bool) (stream : ObjectStream) (config : JournalConfig)
    (nodeId : Nat) (node node' : JournalNode) : NodeStep → Prop where
  | down {a : NodeStep} (hrunning : node'.running = none) (hissued : node'.issued = node.issued) :
      CounterStep osdConfig stream config nodeId node node' a
  | kept {a : NodeStep} {s s' : JournaledImpl} (hrunning : node.running = some s)
      (hrunning' : node'.running = some s') (hid : s'.memory.id = s.memory.id)
      (hissued : node'.issued = node.issued) :
      CounterStep osdConfig stream config nodeId node node' a
  | called {c : Call} {s s' : JournaledImpl} (hrunning : node.running = some s)
      (hrunning' : node'.running = some s')
      (hid : s.memory.id ≤ s'.memory.id ∧ s'.memory.id ≤ s.memory.id + 1)
      (hissued : node'.issued = node.issued) :
      CounterStep osdConfig stream config nodeId node node' (.call c)
  | issued {c : Call} {s s' : JournaledImpl} (hrunning : node.running = some s)
      (hrunning' : node'.running = some s') (hid : s'.memory.id = s.memory.id + 1)
      (hissued : node'.issued = node.issued ++ [s.memory.id + 1]) :
      CounterStep osdConfig stream config nodeId node node' (.call c)
  | restarted {components : List Int} {memory : TransactionLockManager} {disk : JournalDisk}
      {s' : JournaledImpl} (hrecover : node.recover osdConfig stream config nodeId =
        some (memory, disk)) (hrunning' : node'.running = some s')
      (hid : s'.memory.id = memory.id) (hissued : node'.issued = node.issued) :
      CounterStep osdConfig stream config nodeId node node' (.restart components)

theorem step_counter (h : node.step osdConfig stream config nodeId a = some node') :
    CounterStep osdConfig stream config nodeId node node' a := by
  cases a with
  | call c =>
      obtain ⟨s, hrunning, h⟩ := Option.bind_eq_some_iff.mp h
      obtain ⟨⟨record?, memory⟩, hcall, rfl⟩ := Option.map_eq_some_iff.mp h
      rcases TransactionLockManager.call_id hcall with ⟨hissued, hid⟩ | ⟨hissued, hid⟩
      · exact .issued hrunning rfl hid (by simp only [hissued, Option.toList_some])
      · exact .called hrunning rfl hid (by simp [hissued])
  | extract components =>
      obtain ⟨s, hrunning, rfl⟩ := Option.map_eq_some_iff.mp h
      exact .kept hrunning rfl (TransactionLockManager.getComponentTransactionMap_id _ _) rfl
  | accept records =>
      simp only [step] at h
      split at h
      · cases h
      · obtain ⟨s, hrunning, rfl⟩ := Option.map_eq_some_iff.mp h
        exact .kept hrunning rfl (TransactionLockManager.addRecordsInMemory_id _ _ _) rfl
  | commit components changed =>
      obtain ⟨s, hrunning, h⟩ := Option.bind_eq_some_iff.mp h
      obtain ⟨memory, hcommit, rfl⟩ := Option.map_eq_some_iff.mp h
      exact .kept hrunning rfl (TransactionLockManager.commitRecoveredData_id hcommit) rfl
  | write =>
      obtain ⟨s, hrunning, h⟩ := Option.bind_eq_some_iff.mp h
      obtain ⟨s', hwrite, rfl⟩ := Option.map_eq_some_iff.mp h
      refine .kept hrunning rfl ?_ rfl
      simp only [JournaledImpl.step] at hwrite
      split at hwrite
      · cases hwrite
      · obtain rfl := Option.some.inj hwrite
        rfl
  | crash =>
      obtain ⟨s, -, rfl⟩ := Option.map_eq_some_iff.mp h
      exact .down rfl rfl
  | crashWriting done count =>
      obtain ⟨s, -, h⟩ := Option.bind_eq_some_iff.mp h
      split at h
      · cases h
      · obtain rfl := Option.some.inj h
        exact .down rfl rfl
  | restart components =>
      simp only [step] at h
      split at h
      · cases h
      · obtain ⟨⟨memory, disk⟩, hrecover, rfl⟩ := Option.map_eq_some_iff.mp h
        exact .restarted hrecover rfl (TransactionLockManager.markUnknownMemory_id _ _) rfl
  | crashRestarting components done count =>
      simp only [step] at h
      split at h
      · cases h
      · rename_i hdown
        obtain ⟨⟨memory, disk⟩, hrecover, rfl⟩ := Option.map_eq_some_iff.mp h
        exact .down (by simpa using hdown) rfl

end JournalNode

end ObjectStorage.Transaction
