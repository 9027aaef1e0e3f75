import ObjectStorage.Container.RecordMemory
import ObjectStorage.Library.Transition

/-!
Deleting a container while it is flushed or its info file is written. All these calls take the lock
of the path, but the info file is removed after the lock has been given back. A call that has found
the file by then brings it back if it renames a copy to it or opens it for writing.
-/

namespace ObjectStorage.InfoFile

open Std Library Container

/-! ### The steps of the calls -/

/-- Where a call for the path is. It has got records to be flushed. `flush_container` has found the
info file under the lock, has copied it, has written the records into the copy. `add_container` has
found no file and writes a new one. A call that writes the file itself has opened it for reading,
has opened it for writing, has written the compacted file, has renamed it, has opened the file again
for writing; it may have records to release and has a number of compactions to make. A call has
found no file to read, or is done. -/
inductive CallPhase where
  | listed
  | checked
  | copied
  | written
  | creating
  | opening (records : Bool) (compactions : Nat)
  | opened (records : Bool) (compactions : Nat)
  | compacted (records : Bool) (compactions : Nat)
  | renamed (records : Bool) (compactions : Nat)
  | reopened (records : Bool) (compactions : Nat)
  | failed
  | done
deriving DecidableEq

/-- A deletion tries to remove the container from memory, is about to remove the file, and
returns. -/
inductive DeletePhase where
  | waiting
  | emptied
  | returned
deriving DecidableEq

/-- One container path: the memory map, whether the info file exists, and the calls for the path. -/
structure ContainerPath where
  path : String
  memory : MemoryManager
  fileExists : Bool
  calls : List CallPhase
  deletes : List DeletePhase

/-- The call holds the lock of the path. -/
def CallPhase.holdsLock : CallPhase → Bool
  | .listed => false
  | .failed => false
  | .done => false
  | _ => true

/-- The call will rename a file to the info file or open it for writing, which creates it. -/
def CallPhase.restores : CallPhase → Bool
  | .copied => true
  | .written => true
  | .creating => true
  | .opening _ _ => true
  | .opened _ compactions => 0 < compactions
  | .compacted _ _ => true
  | .renamed _ _ => true
  | _ => false

namespace ContainerPath

def start (path : String) (memory : MemoryManager) (fileExists : Bool) : ContainerPath :=
  ⟨path, memory, fileExists, [], []⟩

def isLocked (s : ContainerPath) : Bool := s.calls.any (·.holdsLock)

/-- Steps of the calls by their numbers. A flush pops the records that the file has up to an
offset. `openForReading` is that of `get_container_stat_after_compaction`, which flushes into the
file itself. -/
inductive Action where
  | addContainer
  | moveFile (i : Nat)
  | addEntry (record : ObjectRecord) (prevOff syncOff : Nat)
  | getFlushRecords
  | checkFile (i garbage : Nat)
  | copyFile (i : Nat)
  | writeFile (i journalOffset garbage : Nat)
  | renameFile (i : Nat)
  | setContainerStat
  | openForReading (i compactions : Nat)
  | openForWriting (i : Nat)
  | compact (i : Nat)
  | renameCompacted (i : Nat)
  | reopenForWriting (i : Nat)
  | reopenForReading (i : Nat)
  | finish (i journalOffset garbage : Nat)
  | giveUp (i garbage : Nat)
  | deleteContainer
  | removeMemory (i : Nat)
  | removeFile (i : Nat)
deriving DecidableEq

/-- A call goes on, and the file exists afterwards if it did or the call makes it. -/
def proceed (s : ContainerPath) (i : Nat) (phase : CallPhase) (creates : Bool) : ContainerPath :=
  { s with fileExists := s.fileExists || creates, calls := s.calls.set i phase }

/-- The records that a flush is left with are released. -/
def released (s : ContainerPath) (journalOffset garbage : Nat) : MemoryManager :=
  (s.memory.popFlushRecords s.path journalOffset).2.releaseFlushRecords s.path garbage

/-- A flush whose copy fails aborts the process. -/
def step (s : ContainerPath) : Action → Option ContainerPath
  | .addContainer =>
      if s.isLocked then none
      else if s.fileExists then some { s with calls := s.calls ++ [.opening false 0] }
      else some { s with calls := s.calls ++ [.creating] }
  | .moveFile i =>
      if s.calls[i]? = some .creating then some (s.proceed i .done true) else none
  | .addEntry record prevOff syncOff =>
      if record.path = s.path then
        some { s with memory := s.memory.addRecordInMap record prevOff syncOff }
      else none
  | .getFlushRecords =>
      (s.memory.getFlushRecords s.path).bind fun (records, memory) =>
        if records.isEmpty then some { s with memory := memory }
        else some { s with memory := memory, calls := s.calls ++ [.listed] }
  | .checkFile i garbage =>
      if s.calls[i]? = some .listed ∧ ! s.isLocked then
        if s.fileExists then some (s.proceed i .checked false)
        else some { s with
          memory := s.memory.releaseFlushRecords s.path garbage
          calls := s.calls.set i .done }
      else none
  | .copyFile i =>
      if s.calls[i]? = some .checked ∧ s.fileExists then some (s.proceed i .copied false)
      else none
  | .writeFile i journalOffset garbage =>
      if s.calls[i]? = some .copied then
        some { s with memory := s.released journalOffset garbage, calls := s.calls.set i .written }
      else none
  | .renameFile i =>
      if s.calls[i]? = some .written then some (s.proceed i .done true) else none
  | .setContainerStat =>
      if s.isLocked then none
      else if s.fileExists then some { s with calls := s.calls ++ [.opening false 0] }
      else some s
  | .openForReading i compactions =>
      if s.calls[i]? = some .listed ∧ ! s.isLocked then
        if s.fileExists then some (s.proceed i (.opening true compactions) false)
        else some (s.proceed i .failed false)
      else none
  | .openForWriting i =>
      match s.calls[i]? with
      | some (.opening records n) => some (s.proceed i (.opened records n) true)
      | _ => none
  | .compact i =>
      match s.calls[i]? with
      | some (.opened records (n + 1)) => some (s.proceed i (.compacted records n) false)
      | _ => none
  | .renameCompacted i =>
      match s.calls[i]? with
      | some (.compacted records n) => some (s.proceed i (.renamed records n) true)
      | _ => none
  | .reopenForWriting i =>
      match s.calls[i]? with
      | some (.renamed records n) => some (s.proceed i (.reopened records n) true)
      | _ => none
  | .reopenForReading i =>
      match s.calls[i]? with
      | some (.reopened records n) =>
          some (s.proceed i (if s.fileExists then .opened records n else .failed) false)
      | _ => none
  | .finish i journalOffset garbage =>
      match s.calls[i]? with
      | some (.opened records 0) => some { s with
          memory := if records then s.released journalOffset garbage else s.memory
          calls := s.calls.set i .done }
      | _ => none
  | .giveUp i garbage =>
      if s.calls[i]? = some .failed then
        some { s with
          memory := ((s.memory.releaseFlushRecords s.path garbage).deleteContainer s.path).2
          calls := s.calls.set i .done }
      else none
  | .deleteContainer => some { s with deletes := s.deletes ++ [.waiting] }
  | .removeMemory i =>
      if s.deletes[i]? = some .waiting ∧ ! s.isLocked then
        match s.memory.deleteContainer s.path with
        | (true, memory) => some { s with memory := memory, deletes := s.deletes.set i .emptied }
        | (false, memory) => some { s with memory := memory }
      else none
  | .removeFile i =>
      if s.deletes[i]? = some .emptied then
        some { s with fileExists := false, deletes := s.deletes.set i .returned }
      else none

/-! ### When the file stays removed -/

/-- The file does not exist and no call will bring it back. -/
structure Removed (s : ContainerPath) : Prop where
  absent : s.fileExists = false
  settled : ∀ call ∈ s.calls, ¬ call.restores

variable {s s' t : ContainerPath} {a : Action}

theorem settled_set {calls : List CallPhase} (h : ∀ call ∈ calls, ¬ call.restores) {i : Nat}
    {phase : CallPhase} (hphase : ¬ phase.restores) :
    ∀ call ∈ calls.set i phase, ¬ call.restores := fun call hin =>
  (List.mem_or_eq_of_mem_set hin).elim (h call) fun heq => heq ▸ hphase

theorem settled_phase (h : Removed s) {i : Nat} {phase : CallPhase}
    (hphase : s.calls[i]? = some phase) : ¬ phase.restores :=
  h.settled phase (List.mem_of_getElem? hphase)

theorem Removed.proceed (h : Removed s) {i : Nat} {phase : CallPhase}
    (hphase : ¬ phase.restores) : Removed (s.proceed i phase false) where
  absent := by rw [ContainerPath.proceed, h.absent]; rfl
  settled := settled_set h.settled hphase

/-- Only `add_container` brings the file back. -/
theorem Removed.step (h : Removed s) (ha : a ≠ .addContainer) (hstep : s.step a = some s') :
    Removed s' := by
  have habsent := h.absent
  cases a with
  | addContainer => exact absurd rfl ha
  | moveFile i =>
      simp only [ContainerPath.step] at hstep
      split at hstep
      · next hphase => exact absurd rfl (settled_phase h hphase)
      · cases hstep
  | addEntry record prevOff syncOff =>
      simp only [ContainerPath.step] at hstep
      split at hstep
      · obtain rfl := Option.some.inj hstep
        exact ⟨habsent, h.settled⟩
      · cases hstep
  | getFlushRecords =>
      obtain ⟨⟨records, memory⟩, -, hstep⟩ := Option.bind_eq_some_iff.mp hstep
      simp only at hstep
      split at hstep
      · obtain rfl := Option.some.inj hstep
        exact ⟨habsent, h.settled⟩
      · obtain rfl := Option.some.inj hstep
        refine ⟨habsent, fun call hin =>
          (List.mem_append.mp hin).elim (h.settled call) fun heq => ?_⟩
        rw [List.mem_singleton.mp heq]
        decide
  | checkFile i garbage =>
      simp only [ContainerPath.step, habsent] at hstep
      split at hstep
      · obtain rfl := Option.some.inj hstep
        exact ⟨rfl, settled_set h.settled (by decide)⟩
      · cases hstep
  | copyFile i =>
      simp [ContainerPath.step, habsent] at hstep
  | writeFile i journalOffset garbage =>
      simp only [ContainerPath.step] at hstep
      split at hstep
      · next hphase => exact absurd rfl (settled_phase h hphase)
      · cases hstep
  | renameFile i =>
      simp only [ContainerPath.step] at hstep
      split at hstep
      · next hphase => exact absurd rfl (settled_phase h hphase)
      · cases hstep
  | setContainerStat =>
      simp only [ContainerPath.step, habsent] at hstep
      split at hstep
      · cases hstep
      · obtain rfl := Option.some.inj hstep
        exact h
  | openForReading i compactions =>
      simp only [ContainerPath.step, habsent] at hstep
      split at hstep
      · obtain rfl := Option.some.inj hstep
        exact h.proceed (by decide)
      · cases hstep
  | openForWriting i =>
      simp only [ContainerPath.step] at hstep
      split at hstep
      · next hphase => exact absurd rfl (settled_phase h hphase)
      · cases hstep
  | compact i =>
      simp only [ContainerPath.step] at hstep
      split at hstep
      · next hphase => exact absurd (by simp [CallPhase.restores]) (settled_phase h hphase)
      · cases hstep
  | renameCompacted i =>
      simp only [ContainerPath.step] at hstep
      split at hstep
      · next hphase => exact absurd rfl (settled_phase h hphase)
      · cases hstep
  | reopenForWriting i =>
      simp only [ContainerPath.step] at hstep
      split at hstep
      · next hphase => exact absurd rfl (settled_phase h hphase)
      · cases hstep
  | reopenForReading i =>
      simp only [ContainerPath.step, habsent] at hstep
      split at hstep
      · obtain rfl := Option.some.inj hstep
        exact h.proceed (by simp [CallPhase.restores])
      · cases hstep
  | finish i journalOffset garbage =>
      simp only [ContainerPath.step] at hstep
      split at hstep
      · obtain rfl := Option.some.inj hstep
        exact ⟨habsent, settled_set h.settled (by decide)⟩
      · cases hstep
  | giveUp i garbage =>
      simp only [ContainerPath.step] at hstep
      split at hstep
      · obtain rfl := Option.some.inj hstep
        exact ⟨habsent, settled_set h.settled (by decide)⟩
      · cases hstep
  | deleteContainer =>
      obtain rfl := Option.some.inj hstep
      exact ⟨habsent, h.settled⟩
  | removeMemory i =>
      simp only [ContainerPath.step] at hstep
      split at hstep
      · split at hstep
        · obtain rfl := Option.some.inj hstep
          exact ⟨habsent, h.settled⟩
        · obtain rfl := Option.some.inj hstep
          exact ⟨habsent, h.settled⟩
      · cases hstep
  | removeFile i =>
      simp only [ContainerPath.step] at hstep
      split at hstep
      · obtain rfl := Option.some.inj hstep
        exact ⟨rfl, h.settled⟩
      · cases hstep

theorem Removed.run (h : Removed s) {actions : List Action} (hactions : .addContainer ∉ actions)
    (hrun : run ContainerPath.step s actions = some t) : Removed t := by
  induction actions generalizing s with
  | nil => exact Option.some.inj hrun ▸ h
  | cons a actions ih =>
      obtain ⟨s', hstep, hrest⟩ := Option.bind_eq_some_iff.mp hrun
      have ha : a ≠ .addContainer := fun heq => hactions (heq ▸ List.mem_cons_self)
      exact ih (h.step ha hstep) (fun hin => hactions (List.mem_cons_of_mem _ hin)) hrest

theorem restores_of_step {a : Action} (ha : a ≠ .addContainer) (hstep : s.step a = some s')
    (hexists : s'.fileExists = true) : ∃ actions t, .addContainer ∉ actions ∧
      run ContainerPath.step s actions = some t ∧ t.fileExists = true := by
  refine ⟨[a], s', by simpa using ha.symm, ?_, hexists⟩
  rw [run_cons, hstep]
  rfl

theorem restores_of_steps {a b : Action} (ha : a ≠ .addContainer) (hb : b ≠ .addContainer)
    (hstep : s.step a = some s') (hstep' : s'.step b = some t) (hexists : t.fileExists = true) :
    ∃ actions t, .addContainer ∉ actions ∧
      run ContainerPath.step s actions = some t ∧ t.fileExists = true := by
  refine ⟨[a, b], t, by simp [ha.symm, hb.symm], ?_, hexists⟩
  rw [run_cons, hstep, Option.bind_some, run_cons, hstep']
  rfl

theorem fileExists_proceed (s : ContainerPath) (i : Nat) (phase : CallPhase) :
    (s.proceed i phase true).fileExists = true := Bool.or_true _

/-- A call that will rename a file to the info file or open it for writing can go on until it
has. -/
theorem restores_run {i : Nat} {phase : CallPhase} (hphase : s.calls[i]? = some phase)
    (hrestores : phase.restores) :
    ∃ actions t, .addContainer ∉ actions ∧ run ContainerPath.step s actions = some t ∧
      t.fileExists = true := by
  obtain ⟨hi, -⟩ := List.getElem?_eq_some_iff.mp hphase
  cases phase with
  | copied =>
      have hwrite : s.step (.writeFile i 0 0) = some { s with
          memory := s.released 0 0, calls := s.calls.set i .written } := if_pos hphase
      refine restores_of_steps (a := .writeFile i 0 0) (b := .renameFile i) (by simp) (by simp)
        hwrite (if_pos ?_) (fileExists_proceed _ i .done)
      exact List.getElem?_set_self hi
  | written =>
      exact restores_of_step (a := .renameFile i) (by simp) (if_pos hphase)
        (fileExists_proceed _ i .done)
  | creating =>
      exact restores_of_step (a := .moveFile i) (by simp) (if_pos hphase)
        (fileExists_proceed _ i .done)
  | opening records n =>
      have hopen : s.step (.openForWriting i) = some (s.proceed i (.opened records n) true) := by
        simp only [ContainerPath.step, hphase]
      exact restores_of_step (by simp) hopen (fileExists_proceed _ i _)
  | opened records n =>
      obtain ⟨n, rfl⟩ : ∃ m, n = m + 1 := Nat.exists_eq_succ_of_ne_zero
        (Nat.ne_of_gt (of_decide_eq_true hrestores))
      have hcompact : s.step (.compact i) = some (s.proceed i (.compacted records n) false) := by
        simp only [ContainerPath.step, hphase]
      have hset : (s.proceed i (.compacted records n) false).calls[i]? =
          some (.compacted records n) := List.getElem?_set_self hi
      have hrename : (s.proceed i (.compacted records n) false).step (.renameCompacted i) =
          some
            ((s.proceed i (.compacted records n) false).proceed i (.renamed records n) true) := by
        simp only [ContainerPath.step, hset]
      exact restores_of_steps (by simp) (by simp) hcompact hrename (fileExists_proceed _ i _)
  | compacted records n =>
      have hrename :
          s.step (.renameCompacted i) = some (s.proceed i (.renamed records n) true) := by
        simp only [ContainerPath.step, hphase]
      exact restores_of_step (by simp) hrename (fileExists_proceed _ i _)
  | renamed records n =>
      have hreopen : s.step (.reopenForWriting i) =
          some (s.proceed i (.reopened records n) true) := by
        simp only [ContainerPath.step, hphase]
      exact restores_of_step (by simp) hreopen (fileExists_proceed _ i _)
  | _ => cases hrestores

/-- When a deletion removes the file and returns, the file stays removed until the container is
created again if and only if no call will rename a file to it or open it for writing. -/
theorem removeFile_stays_deleted {i : Nat} (hremove : s.step (.removeFile i) = some s') :
    (∀ actions t, .addContainer ∉ actions → run ContainerPath.step s' actions = some t →
      t.fileExists = false) ↔ ∀ call ∈ s.calls, ¬ call.restores := by
  simp only [ContainerPath.step] at hremove
  split at hremove
  · obtain rfl := Option.some.inj hremove
    constructor
    · intro hstays call hin hrestores
      obtain ⟨j, hj⟩ := List.mem_iff_getElem?.mp hin
      obtain ⟨actions, t, hactions, hrun, hexists⟩ := restores_run
        (s := { s with fileExists := false, deletes := s.deletes.set i .returned }) hj hrestores
      rw [hstays actions t hactions hrun] at hexists
      cases hexists
    · intro hnone actions t hactions hrun
      have hremoved : Removed { s with
          fileExists := false, deletes := s.deletes.set i .returned } := ⟨rfl, hnone⟩
      exact (hremoved.run hactions hrun).absent
  · cases hremove

/-- A record of an object. -/
def record : ObjectRecord := ⟨"1a/b", 0, 100⟩

/-- The file is removed while a record is flushed into it, after it was compacted and opened for
writing again. -/
theorem removeFile_stays_deleted_compacted : ∃ s s',
    run ContainerPath.step (start "1a/b" ∅ true) [.deleteContainer, .removeMemory 0,
      .addEntry record 0 100, .getFlushRecords, .openForReading 0 2, .openForWriting 0, .compact 0,
      .renameCompacted 0, .reopenForWriting 0] = some s ∧ s.step (.removeFile 0) = some s' ∧
    s.calls = [.reopened true 1] ∧
    ∀ actions t, .addContainer ∉ actions → run ContainerPath.step s' actions = some t →
      t.fileExists = false := by
  obtain ⟨s, s', hrun, hremove, hcalls⟩ : ∃ s s',
      run ContainerPath.step (start "1a/b" ∅ true) [.deleteContainer, .removeMemory 0,
        .addEntry record 0 100, .getFlushRecords, .openForReading 0 2, .openForWriting 0,
        .compact 0, .renameCompacted 0, .reopenForWriting 0] = some s ∧
      s.step (.removeFile 0) = some s' ∧
      s.calls = [.reopened true 1] := ⟨_, _, rfl, rfl, rfl⟩
  exact ⟨s, s', hrun, hremove, hcalls,
    (removeFile_stays_deleted hremove).mpr (by simp [hcalls, CallPhase.restores])⟩

/-- A record comes in after the memory has been emptied and is flushed while the file is removed. -/
theorem flush_restores_file : ∃ t,
    run ContainerPath.step (start "1a/b" ∅ true) [.deleteContainer, .removeMemory 0,
      .addEntry record 0 100, .getFlushRecords, .checkFile 0 0, .copyFile 0, .removeFile 0,
      .writeFile 0 0 0, .renameFile 0] = some t ∧
    t.deletes = [.returned] ∧ t.fileExists = true :=
  ⟨_, rfl, rfl, rfl⟩

end ContainerPath

end ObjectStorage.InfoFile
