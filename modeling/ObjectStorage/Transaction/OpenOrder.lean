import ObjectStorage.Library.Transition
import ObjectStorage.Transaction.BulkAcquisition
import ObjectStorage.Transaction.IdCounter

/-!
Ids are handed out under the mutex of the lock table and their open records queued later under
another one. In which order the journal thread finds the ids.
-/

namespace ObjectStorage.Transaction

open Std Library Journal

/-- A call whose records are not queued yet: the records that have their ids, and those whose locks
are still to be acquired. -/
structure OpenJob where
  acquired : List ActiveRecord
  rest : List ActiveRecord

/-- The lock table, the calls on their way to the journal, the open records in its queue, and the id
that `process_write` saw last. Records of other kinds leave that id as it is. -/
structure OpenRecordQueue where
  memory : TransactionLockManager
  jobs : List OpenJob
  queue : List ActiveRecord
  lastTransactionId : Int

/-- `acquireNext` and `push` are the next steps of the call with the given position; `other` is an
operation of the lock table that queues no open record. -/
inductive OpenStep where
  | addTransaction (request : Request) (lockTime : Int)
  | addBulkDelete (transactionEntries : List ActiveRecord)
  | acquireNext (i : Nat)
  | acceptTransactionData (transactionEntries : List ActiveRecord)
  | push (i : Nat)
  | write
  | other (op : Operation)

/-- A lock, with its record under the id that was handed out unless the request was refused. -/
def TransactionLockManager.acquireRecord (osdConfig : Bool) (s : TransactionLockManager)
    (record : ActiveRecord) : Option (Option ActiveRecord × TransactionLockManager) :=
  (s.acquireLock osdConfig record).map fun (id, memory) =>
    if id = -1 ∨ id = -2 then (none, memory)
    else (some { record with transactionId := id }, memory)

namespace OpenRecordQueue

open TransactionLockManager

def start (memory : TransactionLockManager) : OpenRecordQueue := ⟨memory, [], [], 0⟩

/-- The last record of an empty list is read, which is undefined. -/
def step (osdConfig : Bool) (s : OpenRecordQueue) : OpenStep → Option OpenRecordQueue
  | .addTransaction request lockTime =>
      (s.memory.acquireRecord osdConfig (request.activeRecord lockTime)).map
        fun (record?, memory) =>
          { s with memory := memory, jobs := s.jobs ++ record?.toList.map fun r => ⟨[r], []⟩ }
  | .addBulkDelete entries =>
      if s.memory.checkForQueueSize entries.length then some s
      else some { s with jobs := s.jobs ++ [⟨[], entries⟩] }
  | .acquireNext i =>
      match s.jobs[i]? with
      | some ⟨acquired, record :: rest⟩ =>
          (s.memory.acquireRecord osdConfig record).map fun
            | (some granted, memory) =>
                { s with memory := memory, jobs := s.jobs.set i ⟨acquired ++ [granted], rest⟩ }
            | (none, memory) =>
                { s with
                  memory := if acquired = [] then memory
                    else memory.removeBulkDeleteEntry (acquired.map (·.transactionId))
                  jobs := s.jobs.eraseIdx i }
      | _ => none
  | .acceptTransactionData entries =>
      some { s with
        memory := s.memory.addRecordsInMemory osdConfig entries false
        jobs := s.jobs ++ [⟨entries, []⟩] }
  | .push i =>
      match s.jobs[i]? with
      | some ⟨record :: acquired, []⟩ =>
          some { s with jobs := s.jobs.eraseIdx i, queue := s.queue ++ record :: acquired }
      | _ => none
  | .write =>
      match s.queue with
      | [] => none
      | record :: queue =>
          some { s with queue := queue, lastTransactionId := record.transactionId }
  | .other op => (s.memory.step osdConfig op).map fun memory => { s with memory := memory }

/-- The assertion of `process_write`. -/
def AssertionHolds (s : OpenRecordQueue) : OpenStep → Prop
  | .write => ∀ record queue, s.queue = record :: queue →
      s.lastTransactionId < record.transactionId
  | _ => True

/-- The ids that were pushed, as far as they matter: the last one written and those in the queue. -/
def pushedIds (s : OpenRecordQueue) : List Int :=
  s.lastTransactionId :: s.queue.map (·.transactionId)

/-- An id above all that were pushed. -/
def Fresh (s : OpenRecordQueue) (t : Int) : Prop :=
  ∀ id ∈ s.pushedIds, id < t

/-- Ids are handed out above those that were pushed, accepted lists are increasing and above them
too, and no call is overtaken by one with greater ids. -/
def InOrder (s : OpenRecordQueue) : OpenStep → Prop
  | .addTransaction _ _ => s.Fresh (s.memory.id + 1)
  | .acquireNext i => ∀ job ∈ s.jobs[i]?, ∀ record ∈ job.rest.head?,
      s.Fresh (s.memory.grantedId record) ∧
        ∀ r ∈ job.acquired, r.transactionId < s.memory.grantedId record
  | .acceptTransactionData entries =>
      (entries.map (·.transactionId)).Pairwise (· < ·) ∧ ∀ r ∈ entries, s.Fresh r.transactionId
  | .push i => ∀ job ∈ s.jobs[i]?, ∀ other ∈ s.jobs.eraseIdx i,
      ∀ r ∈ job.acquired, ∀ r' ∈ other.acquired, r.transactionId < r'.transactionId
  | _ => True

instance decidableFresh (s : OpenRecordQueue) (t : Int) : Decidable (s.Fresh t) :=
  inferInstanceAs (Decidable (∀ id ∈ s.pushedIds, id < t))

instance decidableInOrder (s : OpenRecordQueue) : (a : OpenStep) → Decidable (s.InOrder a)
  | .addTransaction _ _ => inferInstanceAs (Decidable (s.Fresh (s.memory.id + 1)))
  | .acquireNext i => inferInstanceAs (Decidable (∀ job ∈ s.jobs[i]?, ∀ record ∈ job.rest.head?,
      s.Fresh (s.memory.grantedId record) ∧
        ∀ r ∈ job.acquired, r.transactionId < s.memory.grantedId record))
  | .acceptTransactionData entries =>
      inferInstanceAs (Decidable ((entries.map (·.transactionId)).Pairwise (· < ·) ∧
        ∀ r ∈ entries, s.Fresh r.transactionId))
  | .push i => inferInstanceAs (Decidable (∀ job ∈ s.jobs[i]?, ∀ other ∈ s.jobs.eraseIdx i,
      ∀ r ∈ job.acquired, ∀ r' ∈ other.acquired, r.transactionId < r'.transactionId))
  | .addBulkDelete _ | .write | .other _ => isTrue trivial

variable {osdConfig : Bool} {s s' : OpenRecordQueue}

/-- The pushed ids increase, and so do those of each call that is on its way, above the former. -/
structure Increasing (s : OpenRecordQueue) : Prop where
  pushed : s.pushedIds.Pairwise (· < ·)
  jobs : ∀ job ∈ s.jobs, (job.acquired.map (·.transactionId)).Pairwise (· < ·)
  fresh : ∀ job ∈ s.jobs, ∀ r ∈ job.acquired, s.Fresh r.transactionId

theorem increasing_start (memory : TransactionLockManager) : (start memory).Increasing where
  pushed := by simp [start, pushedIds]
  jobs := by simp [start]
  fresh := by simp [start]

theorem Increasing.assertion (h : s.Increasing) (a : OpenStep) : s.AssertionHolds a := by
  cases a with
  | write =>
      intro record queue hqueue
      have hpushed := h.pushed
      simp only [pushedIds, hqueue, List.map_cons, List.pairwise_cons] at hpushed
      exact hpushed.1 record.transactionId List.mem_cons_self
  | _ => trivial

/-- Other calls, with increasing ids above the pushed ones. -/
theorem Increasing.of_jobs (h : s.Increasing) (hqueue : s'.queue = s.queue)
    (hlast : s'.lastTransactionId = s.lastTransactionId)
    (hjobs : ∀ job ∈ s'.jobs, job ∈ s.jobs ∨
      ((job.acquired.map (·.transactionId)).Pairwise (· < ·) ∧
        ∀ r ∈ job.acquired, s.Fresh r.transactionId)) : s'.Increasing := by
  have hpushed : s'.pushedIds = s.pushedIds := by rw [pushedIds, hqueue, hlast, pushedIds]
  refine ⟨hpushed ▸ h.pushed, fun job hjob => ?_, fun job hjob => ?_⟩
  · rcases hjobs job hjob with hold | ⟨hnew, -⟩
    · exact h.jobs job hold
    · exact hnew
  · unfold Fresh
    rw [hpushed]
    rcases hjobs job hjob with hold | ⟨-, hnew⟩
    · exact h.fresh job hold
    · exact hnew

theorem acquireRecord_id {s s' : TransactionLockManager} {record granted : ActiveRecord}
    (h : s.acquireRecord osdConfig record = some (some granted, s')) :
    granted.transactionId = s.grantedId record := by
  obtain ⟨⟨id, memory⟩, hacquire, heq⟩ := Option.map_eq_some_iff.mp h
  simp only at heq
  split at heq
  · cases heq
  · rename_i hid
    obtain rfl := Option.some.inj (Prod.mk.inj heq).1
    rcases acquireLock_cases hacquire with ⟨hrefused, -⟩ | ⟨hrefused | hid', -⟩
    · exact absurd hrefused hid
    · exact absurd (.inl hrefused) hid
    · exact hid'

theorem Increasing.addTransaction (h : s.Increasing) {request : Request} {lockTime : Int}
    (hsafe : s.InOrder (.addTransaction request lockTime))
    (hstep : s.step osdConfig (.addTransaction request lockTime) = some s') : s'.Increasing := by
  obtain ⟨⟨record?, memory⟩, hacquire, rfl⟩ := Option.map_eq_some_iff.mp hstep
  refine h.of_jobs rfl rfl fun job hjob => ?_
  rcases List.mem_append.mp hjob with hold | hnew
  · exact .inl hold
  · obtain ⟨r, hr, rfl⟩ := List.mem_map.mp hnew
    obtain rfl := Option.mem_toList.mp hr
    have hid : r.transactionId = s.memory.id + 1 := by
      rw [acquireRecord_id hacquire]
      simp [grantedId, Request.activeRecord]
    refine .inr ⟨by simp, fun r' hr' => ?_⟩
    obtain rfl := List.mem_singleton.mp hr'
    exact hid ▸ hsafe

theorem Increasing.acquireNext (h : s.Increasing) {i : Nat} (hsafe : s.InOrder (.acquireNext i))
    (hstep : s.step osdConfig (.acquireNext i) = some s') : s'.Increasing := by
  simp only [step] at hstep
  split at hstep
  · rename_i acquired record rest hjob
    obtain ⟨hfresh, habove⟩ := hsafe _ hjob record rfl
    obtain ⟨⟨granted?, memory⟩, hacquire, heq⟩ := Option.map_eq_some_iff.mp hstep
    cases granted? with
    | none =>
        obtain rfl := heq
        exact h.of_jobs rfl rfl fun job hin => .inl (List.mem_of_mem_eraseIdx hin)
    | some granted =>
        obtain rfl := heq
        have hid := acquireRecord_id hacquire
        have hmem := List.mem_of_getElem? hjob
        refine h.of_jobs rfl rfl fun job hin => ?_
        rcases List.mem_or_eq_of_mem_set hin with hold | rfl
        · exact .inl hold
        · right
          constructor
          · rw [List.map_append, List.pairwise_append]
            refine ⟨h.jobs _ hmem, by simp, fun t ht t' ht' => ?_⟩
            obtain ⟨r, hr, rfl⟩ := List.mem_map.mp ht
            obtain rfl := List.mem_singleton.mp ht'
            exact lt_of_lt_of_eq (habove r hr) hid.symm
          · intro r hr
            rcases List.mem_append.mp hr with hr | hr
            · exact h.fresh _ hmem r hr
            · obtain rfl := List.mem_singleton.mp hr
              exact hid ▸ hfresh
  · cases hstep

theorem Increasing.push (h : s.Increasing) {i : Nat} (hsafe : s.InOrder (.push i))
    (hstep : s.step osdConfig (.push i) = some s') : s'.Increasing := by
  simp only [step] at hstep
  split at hstep
  · rename_i record acquired hjob
    obtain rfl := Option.some.inj hstep
    have hmem := List.mem_of_getElem? hjob
    have hpushed : ∀ {queue : List ActiveRecord}, pushedIds { s with queue := s.queue ++ queue } =
        s.pushedIds ++ queue.map (·.transactionId) := by simp [pushedIds]
    refine ⟨?_, fun job hin => h.jobs job (List.mem_of_mem_eraseIdx hin), fun job hin r hr => ?_⟩
    · refine hpushed.symm ▸ List.pairwise_append.mpr ⟨h.pushed, h.jobs _ hmem, ?_⟩
      intro t ht t' ht'
      obtain ⟨r, hr, rfl⟩ := List.mem_map.mp ht'
      exact h.fresh _ hmem r hr t ht
    · intro t ht
      rcases List.mem_append.mp (hpushed ▸ ht : t ∈ s.pushedIds ++ _) with hold | hnew
      · exact h.fresh job (List.mem_of_mem_eraseIdx hin) r hr t hold
      · obtain ⟨r', hr', rfl⟩ := List.mem_map.mp hnew
        exact hsafe _ hjob job hin r' hr' r hr
  · cases hstep

theorem Increasing.write (h : s.Increasing) (hstep : s.step osdConfig .write = some s') :
    s'.Increasing := by
  simp only [step] at hstep
  split at hstep
  · cases hstep
  · rename_i record queue hqueue
    obtain rfl := Option.some.inj hstep
    have hpushed : s.pushedIds = s.lastTransactionId ::
        pushedIds { s with queue := queue, lastTransactionId := record.transactionId } := by
      simp [pushedIds, hqueue]
    refine ⟨(List.pairwise_cons.mp (hpushed ▸ h.pushed)).2, h.jobs, fun job hjob r hr t ht => ?_⟩
    exact h.fresh job hjob r hr t (hpushed ▸ List.mem_cons_of_mem _ ht)

theorem Increasing.step (h : s.Increasing) {a : OpenStep} (hsafe : s.InOrder a)
    (hstep : s.step osdConfig a = some s') : s'.Increasing := by
  cases a with
  | addTransaction request lockTime => exact h.addTransaction hsafe hstep
  | addBulkDelete entries =>
      simp only [OpenRecordQueue.step] at hstep
      split at hstep
      · exact Option.some.inj hstep ▸ h
      · obtain rfl := Option.some.inj hstep
        refine h.of_jobs rfl rfl fun job hjob => ?_
        rcases List.mem_append.mp hjob with hold | hnew
        · exact .inl hold
        · obtain rfl := List.mem_singleton.mp hnew
          exact .inr ⟨by simp, by simp⟩
  | acquireNext i => exact h.acquireNext hsafe hstep
  | acceptTransactionData entries =>
      obtain rfl := Option.some.inj hstep
      refine h.of_jobs rfl rfl fun job hjob => ?_
      rcases List.mem_append.mp hjob with hold | hnew
      · exact .inl hold
      · obtain rfl := List.mem_singleton.mp hnew
        exact .inr hsafe
  | push i => exact h.push hsafe hstep
  | write => exact h.write hstep
  | other op =>
      obtain ⟨memory, -, rfl⟩ := Option.map_eq_some_iff.mp hstep
      exact h.of_jobs rfl rfl fun _ hjob => .inl hjob

/-- The assertion never fires in a run in which ids are handed out, accepted and pushed in order. -/
theorem assertion_holds_in_order (memory : TransactionLockManager) (steps : List OpenStep)
    (hsteps : Along (step osdConfig) InOrder (start memory) steps) :
    Along (step osdConfig) AssertionHolds (start memory) steps :=
  along_of_invariant _ (fun _ _ _ h hsafe hstep => h.step hsafe hstep) (fun _ a h _ =>
    h.assertion a)
    (increasing_start memory) hsteps

instance decidableAssertionHolds (s : OpenRecordQueue) :
    (a : OpenStep) → Decidable (s.AssertionHolds a)
  | .write =>
      match hqueue : s.queue with
      | [] => isTrue fun record queue h => by simp [hqueue] at h
      | record :: queue =>
          decidable_of_iff (s.lastTransactionId < record.transactionId) (by
            simp only [AssertionHolds, hqueue, List.cons.injEq]
            exact ⟨fun h _ _ heq => heq.1 ▸ h, fun h => h record queue ⟨rfl, rfl⟩⟩)
  | .addTransaction _ _ | .addBulkDelete _ | .acquireNext _ | .acceptTransactionData _ | .push _
  | .other _ => isTrue trivial

/-- A bulk delete and a lock that are pushed in the order of their acquisition, and an accepted lock
with a greater id. -/
theorem assertion_holds_in_order_bulk :
    Along (step false) AssertionHolds (start (.init 1))
      [.addBulkDelete [requestOf .write "BULK_DELETE" 0], .acquireNext 0,
        .addTransaction (.ofLockType "1a/c" "PUT" LockType.write.code "server") 7, .push 0, .write,
        .push 0, .acceptTransactionData [requestOf .write "PUT" (getUniqueId 2 1)], .push 0,
        .write, .write] :=
  assertion_holds_in_order (.init 1) _ (by decide +kernel)

/-- Two clients push their records in the other order; and the ids of another node are accepted
before an id is taken from the counter. -/
theorem assertion_fires :
    ¬ Along (step false) AssertionHolds (start (.init 1))
        [.addTransaction (.ofLockType "1a/b" "PUT" LockType.write.code "server") 7,
          .addTransaction (.ofLockType "1a/c" "PUT" LockType.write.code "server") 7,
          .push 1, .push 0, .write, .write] ∧
      ¬ Along (step false) AssertionHolds (start (.init 1))
        [.acceptTransactionData [requestOf .write "PUT" (getUniqueId 2 1)], .push 0, .write,
          .addTransaction (.ofLockType "1a/c" "PUT" LockType.write.code "server") 7, .push 0,
          .write] := by
  decide +kernel

/-! ### Ids of the counter only -/

theorem removeBulkDeleteEntry_id (s : TransactionLockManager) (ids : List Int) :
    (s.removeBulkDeleteEntry ids).id = s.id := by
  refine foldl_id (fun s t => ?_) ids s
  unfold removeBulkDeleteId
  split
  · rfl
  · split <;> rfl

theorem memoryStep_id_mono {s s' : TransactionLockManager} {op : Operation}
    (h : s.step osdConfig op = some s') : s.id ≤ s'.id := by
  cases op with
  | acquire record =>
      obtain ⟨⟨id, memory⟩, hacquire, rfl⟩ := Option.map_eq_some_iff.mp h
      rw [acquireTransactionLock] at hacquire
      split at hacquire
      · exact (grant_cases (Option.some.inj hacquire)).2 ▸ le_max_left _ _
      · cases hacquire
      · split at hacquire
        · exact (Prod.mk.inj (Option.some.inj hacquire)).2 ▸ le_rfl
        · exact (grant_cases (Option.some.inj hacquire)).2 ▸ le_max_left _ _
  | release t =>
      obtain ⟨⟨status, memory⟩, hrelease, rfl⟩ := Option.map_eq_some_iff.mp h
      exact (releaseLockById_id hrelease).ge
  | removeBulkDelete ids => exact Option.some.inj h ▸ (removeBulkDeleteEntry_id s ids).ge
  | addRecords entries flag => exact Option.some.inj h ▸ (addRecordsInMemory_id s entries flag).ge
  | markUnknown components => exact Option.some.inj h ▸ (markUnknownMemory_id s components).ge
  | commitRecovered components changed => exact (commitRecoveredData_id h).ge
  | extractComponents components =>
      exact Option.some.inj h ▸ (getComponentTransactionMap_id s components).ge

theorem acquireRecord_id_mono {s s' : TransactionLockManager} {record : ActiveRecord}
    {granted? : Option ActiveRecord}
    (h : s.acquireRecord osdConfig record = some (granted?, s')) :
    s.id ≤ s'.id ∧ ∀ granted ∈ granted?, granted.transactionId ≤ s'.id := by
  obtain ⟨⟨id, memory⟩, hacquire, heq⟩ := Option.map_eq_some_iff.mp h
  have hmono := acquireLock_id_mono hacquire
  simp only at heq
  split at heq
  · obtain ⟨rfl, rfl⟩ := Prod.mk.inj heq
    exact ⟨hmono, by simp⟩
  · rename_i hid
    obtain ⟨rfl, rfl⟩ := Prod.mk.inj heq
    refine ⟨hmono, fun granted hgranted => ?_⟩
    obtain rfl := Option.some.inj hgranted
    rcases acquireLock_cases hacquire with ⟨hrefused, -⟩ | ⟨hrefused | rfl, hraised⟩
    · exact absurd hrefused hid
    · exact absurd (.inl hrefused) hid
    · exact hraised ▸ le_max_right _ _

/-- No record carries an id of its own, nothing is accepted, and no call is overtaken by one with
greater ids. -/
def OwnInOrder (s : OpenRecordQueue) : OpenStep → Prop
  | .addBulkDelete entries => ∀ r ∈ entries, r.transactionId = 0
  | .acceptTransactionData _ => False
  | .push i => s.InOrder (.push i)
  | _ => True

/-- All ids come from the counter. -/
structure Issued (s : OpenRecordQueue) : Prop where
  pushed : ∀ id ∈ s.pushedIds, id ≤ s.memory.id
  acquired : ∀ job ∈ s.jobs, ∀ r ∈ job.acquired, r.transactionId ≤ s.memory.id
  rest : ∀ job ∈ s.jobs, ∀ r ∈ job.rest, r.transactionId = 0

theorem Issued.inOrder (h : s.Issued) {a : OpenStep} (hown : s.OwnInOrder a) : s.InOrder a := by
  have hfresh : s.Fresh (s.memory.id + 1) := fun id hid => Int.lt_add_one_iff.mpr (h.pushed id hid)
  cases a with
  | addTransaction request lockTime => exact hfresh
  | acquireNext i =>
      intro job hjob record hrecord
      have hmem := List.mem_of_getElem? hjob
      have hgranted : s.memory.grantedId record = s.memory.id + 1 := by
        simp [grantedId, h.rest _ hmem record (List.mem_of_head? hrecord)]
      rw [hgranted]
      exact ⟨hfresh, fun r hr => Int.lt_add_one_iff.mpr (h.acquired _ hmem r hr)⟩
  | acceptTransactionData entries => exact hown.elim
  | push i => exact hown
  | addBulkDelete entries => trivial
  | write => trivial
  | other op => trivial

/-- A step that queues nothing, and leaves or adds calls with ids of the counter. -/
theorem Issued.of_jobs (h : s.Issued) (hqueue : s'.queue = s.queue)
    (hlast : s'.lastTransactionId = s.lastTransactionId) (hid : s.memory.id ≤ s'.memory.id)
    (hjobs : ∀ job ∈ s'.jobs, job ∈ s.jobs ∨
      ((∀ r ∈ job.acquired, r.transactionId ≤ s'.memory.id) ∧
        ∀ r ∈ job.rest, r.transactionId = 0)) : s'.Issued where
  pushed id hmem := by
    rw [pushedIds, hqueue, hlast] at hmem
    exact (h.pushed id hmem).trans hid
  acquired job hjob r hr := by
    rcases hjobs job hjob with hold | ⟨hnew, -⟩
    · exact (h.acquired job hold r hr).trans hid
    · exact hnew r hr
  rest job hjob r hr := by
    rcases hjobs job hjob with hold | ⟨-, hnew⟩
    · exact h.rest job hold r hr
    · exact hnew r hr

theorem Issued.step (h : s.Issued) {a : OpenStep} (hown : s.OwnInOrder a)
    (hstep : s.step osdConfig a = some s') : s'.Issued := by
  cases a with
  | addTransaction request lockTime =>
      obtain ⟨⟨record?, memory⟩, hacquire, rfl⟩ := Option.map_eq_some_iff.mp hstep
      obtain ⟨hmono, hgranted⟩ := acquireRecord_id_mono hacquire
      refine h.of_jobs rfl rfl hmono fun job hjob => ?_
      rcases List.mem_append.mp hjob with hold | hnew
      · exact .inl hold
      · obtain ⟨r, hr, rfl⟩ := List.mem_map.mp hnew
        refine .inr ⟨fun r' hr' => ?_, by simp⟩
        obtain rfl := List.mem_singleton.mp hr'
        exact hgranted r' (Option.mem_toList.mp hr)
  | addBulkDelete entries =>
      simp only [OpenRecordQueue.step] at hstep
      split at hstep
      · exact Option.some.inj hstep ▸ h
      · obtain rfl := Option.some.inj hstep
        refine h.of_jobs rfl rfl le_rfl fun job hjob => ?_
        rcases List.mem_append.mp hjob with hold | hnew
        · exact .inl hold
        · obtain rfl := List.mem_singleton.mp hnew
          exact .inr ⟨by simp, hown⟩
  | acquireNext i =>
      simp only [OpenRecordQueue.step] at hstep
      split at hstep
      · rename_i acquired record rest hjob
        obtain ⟨⟨granted?, memory⟩, hacquire, heq⟩ := Option.map_eq_some_iff.mp hstep
        obtain ⟨hmono, hgranted⟩ := acquireRecord_id_mono hacquire
        have hmem := List.mem_of_getElem? hjob
        cases granted? with
        | none =>
            obtain rfl := heq
            refine h.of_jobs rfl rfl ?_ fun job hin => .inl (List.mem_of_mem_eraseIdx hin)
            dsimp only
            split
            · exact hmono
            · exact (removeBulkDeleteEntry_id memory _).symm ▸ hmono
        | some granted =>
            obtain rfl := heq
            refine h.of_jobs rfl rfl hmono fun job hin => ?_
            rcases List.mem_or_eq_of_mem_set hin with hold | rfl
            · exact .inl hold
            · refine .inr ⟨fun r hr => ?_, fun r hr => ?_⟩
              · rcases List.mem_append.mp hr with hr | hr
                · exact (h.acquired _ hmem r hr).trans hmono
                · obtain rfl := List.mem_singleton.mp hr
                  exact hgranted r rfl
              · exact h.rest _ hmem r (List.mem_cons_of_mem _ hr)
      · cases hstep
  | acceptTransactionData entries => exact hown.elim
  | push i =>
      simp only [OpenRecordQueue.step] at hstep
      split at hstep
      · rename_i record acquired hjob
        obtain rfl := Option.some.inj hstep
        refine ⟨fun t ht => ?_, fun job hin => h.acquired job (List.mem_of_mem_eraseIdx hin),
          fun job hin => h.rest job (List.mem_of_mem_eraseIdx hin)⟩
        simp only [pushedIds, List.map_append, ← List.cons_append, List.mem_append] at ht
        rcases ht with hold | hnew
        · exact h.pushed t hold
        · obtain ⟨r, hr, rfl⟩ := List.mem_map.mp hnew
          exact h.acquired _ (List.mem_of_getElem? hjob) r hr
      · cases hstep
  | write =>
      simp only [OpenRecordQueue.step] at hstep
      split at hstep
      · cases hstep
      · rename_i record queue hqueue
        obtain rfl := Option.some.inj hstep
        refine ⟨fun t ht => h.pushed t ?_, h.acquired, h.rest⟩
        rw [pushedIds, hqueue]
        exact List.mem_cons_of_mem _ ht
  | other op =>
      obtain ⟨memory, hmemory, rfl⟩ := Option.map_eq_some_iff.mp hstep
      exact h.of_jobs rfl rfl (memoryStep_id_mono hmemory) fun _ hjob => .inl hjob

/-- With ids of the counter only, the order of the pushes is all that the assertion depends on. -/
theorem inOrder_of_own (memory : TransactionLockManager) (hmemory : 0 ≤ memory.id)
    (steps : List OpenStep)
    (hsteps : Along (step osdConfig) OwnInOrder (start memory) steps) :
    Along (step osdConfig) InOrder (start memory) steps := by
  refine along_of_invariant _ (I := Issued) (fun _ _ _ h hown hstep => h.step hown hstep)
    (fun _ _ h hown => h.inOrder hown) ⟨fun id hid => ?_, by simp [start], by simp [start]⟩ hsteps
  obtain rfl : id = 0 := by simpa [start, pushedIds] using hid
  exact hmemory

end OpenRecordQueue

end ObjectStorage.Transaction
