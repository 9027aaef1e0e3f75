import ObjectStorage.Transaction.CrashRecovery

/-!
Runs of a node with crashes at any point of a write and of a recovery. Recovery rebuilds the locks
that the durable records tell of, unless a crash came while a snapshot was being written: the file
with the first bytes of the snapshot is then the newest one and hides the complete file before it.
-/

namespace ObjectStorage.Transaction

open Std Library SharedExclusive Journal TransactionLockManager JournalDisk

namespace JournalNode

variable {osdConfig : Bool} {stream : ObjectStream} {config : JournalConfig} {nodeId : Nat}
  {node node' : JournalNode} {a : NodeStep}

/-! ### One recovery -/

/-- Recovery rebuilds the locks of the durable records. -/
def RebuildsDurable (osdConfig : Bool) (stream : ObjectStream) (config : JournalConfig)
    (nodeId : Nat) (node : JournalNode) : Prop :=
  ∃ memory disk, node.recover osdConfig stream config nodeId = some (memory, disk) ∧
    Represents osdConfig memory ⟨after ∅ (recordEvents node.disk.durable), ∅⟩

/-- If there is a file to recover, it is read to its end and taken as it is told. -/
def ReadsLatest (stream : ObjectStream) (config : JournalConfig) (node : JournalNode) : Prop :=
  node.latestFile.isSome → Recoverable stream config node.disk

theorem recover_blank (h : Blank node.disk) :
    node.recover osdConfig stream config nodeId = some (.init nodeId, node.disk) := by
  have hnone : node.latestFile = none := by
    rw [latestFile, fileIds, h.latestFileId]
    cases hfile : node.disk.files[0]? with
    | none => rfl
    | some bytes => exact absurd (h.empty 0 bytes hfile).1 (Nat.lt_irrefl 0)
  rw [recover, hnone]

theorem Newest.latestFile {n : Nat} (h : Newest stream node.disk n) :
    node.fileIds.latestFileId = n ∧ node.latestFile = some (node.disk.contents stream) := by
  have hlatest : node.fileIds.latestFileId = n := h.latestFileId.1
  exact ⟨hlatest, by rw [JournalNode.latestFile, hlatest, h.file]⟩

theorem recover_newest {n : Nat} (h : Newest stream node.disk n) (hlawful : stream.Lawful)
    (hpos : 0 < config.checkpointInterval) (hrec : Recoverable stream config node.disk) :
    ∃ memory disk, node.recover osdConfig stream config nodeId = some (memory, disk) ∧
      Represents osdConfig memory ⟨after ∅ (recordEvents node.disk.durable), ∅⟩ ∧
      Newest stream disk n := by
  obtain ⟨hid, hfile⟩ := Newest.latestFile h
  obtain ⟨records, hread, hrecords⟩ := h.readJournal hlawful hpos hrec nodeId
  have hfresh := TransactionRecovery.readJournal_fresh hread
  have hin : ∀ p ∈ records, p.record ∈ node.disk.durable.map (Record.asRead stream) := by
    intro p hp
    rw [← hrecords]
    exact List.mem_map_of_mem hp
  obtain ⟨handler, hrun, hrep, -⟩ := TransactionReadHandler.recoverRecords_coherent
    (h := .init nodeId n) (represents_init nodeId) hrec.coherent.asRead hin hfresh.notBefore
    (TransactionReadHandler.fromRecords_start _)
  rw [hrecords, recordEvents_asRead, Replayed.start,
    Replayed.replay_replayable hrec.replayable] at hrep
  refine ⟨handler.memory, { node.disk with
    files := node.disk.files.insert n (fileBytes (Record.encode stream) node.disk.written)
    torn := if fileBytes (Record.encode stream) node.disk.written = node.disk.contents stream then
      node.disk.torn else none }, ?_, hrep, h.truncate ?_ ?_⟩
  · simp only [recover, hfile, reading, hid, hread, Option.bind_some, hrun, Option.map_some]
  · split
    · rename_i hsame
      exact List.self_eq_append_right.mp hsame
    · rfl
  · split
    · exact h.cut
    · intro record count hnone
      cases hnone

/-- What recovery finds, and that the next file is free for its snapshot. -/
theorem recover_rests (osdConfig : Bool) (nodeId : Nat) (h : Rests stream node.disk)
    (hlawful : stream.Lawful) (hpos : 0 < config.checkpointInterval)
    (hreads : ReadsLatest stream config node) :
    ∃ memory disk, node.recover osdConfig stream config nodeId = some (memory, disk) ∧
      Represents osdConfig memory ⟨after ∅ (recordEvents node.disk.durable), ∅⟩ ∧
      FinishRecovery.Ready stream disk node.fileIds := by
  rcases h with hblank | ⟨n, hnewest⟩
  · have hdurable : node.disk.durable = [] := by
      rw [durable, hblank.written]
      rfl
    have hpositive : 0 < node.fileIds.nextFileId := nextFileId_pos node.disk.files
    have hlatest : node.fileIds.latestFileId = 0 := hblank.latestFileId
    refine ⟨_, _, recover_blank hblank, ?_, .inl hblank, hblank.freeFrom hpositive, by omega⟩
    rw [hdurable]
    exact represents_init nodeId
  · have hrec := hreads (by rw [(Newest.latestFile hnewest).2]; rfl)
    obtain ⟨memory, disk, hrecover, hrep, hnewest'⟩ := recover_newest hnewest hlawful hpos hrec
    obtain ⟨hlatest, hnext⟩ : node.fileIds.latestFileId = n ∧ n < node.fileIds.nextFileId :=
      hnewest.latestFileId
    exact ⟨memory, disk, hrecover, hrep, .inr ⟨n, hnewest'⟩, hnewest'.freeFrom hnext, by omega⟩

/-! ### Runs -/

/-- No crash comes while a snapshot is written, and what a restart recovers is read to its end. -/
def CrashSafe (stream : ObjectStream) (config : JournalConfig) (node : JournalNode) :
    NodeStep → Prop
  | .crashWriting done count =>
      ∀ s ∈ node.running, ¬ CutsSnapshot (s.writeOps stream config) done count
  | .restart _ => ReadsLatest stream config node
  | .crashRestarting _ done count => ReadsLatest stream config node ∧ ¬ (done = 1 ∧ 0 < count)
  | _ => True

/-- The disk is in order for a node that runs or rests. -/
def Consistent (stream : ObjectStream) (node : JournalNode) : Prop :=
  match node.running with
  | none => Rests stream node.disk
  | some s => Runs stream node.disk s

theorem consistent_init : Consistent stream init :=
  .inl ⟨fun m bytes h => by simp [init] at h, rfl, rfl⟩

theorem call_queues {memory memory' : TransactionLockManager} {c : Call} {record? : Option Record}
    (h : memory.call osdConfig c = some (record?, memory')) :
    ∀ record ∈ record?, ¬ record.isSnapshotHeader := by
  cases c with
  | addTransaction request lockTime =>
      obtain ⟨⟨id, found⟩, hadd, heq⟩ := Option.map_eq_some_iff.mp h
      obtain rfl : found = (record?, memory') := heq
      obtain ⟨⟨v, s₁⟩, -, heq⟩ := Option.map_eq_some_iff.mp hadd
      simp only at heq
      split at heq
      · obtain ⟨-, rfl, -⟩ := heq
        simp
      · obtain ⟨-, rfl, -⟩ := heq
        simp [Record.isSnapshotHeader]
  | releaseLock t =>
      obtain ⟨⟨status, found⟩, hrelease, heq⟩ := Option.map_eq_some_iff.mp h
      obtain rfl : found = (record?, memory') := heq
      obtain ⟨⟨status', s₁⟩, -, heq⟩ := Option.map_eq_some_iff.mp hrelease
      simp only at heq
      split at heq
      · obtain ⟨-, rfl, -⟩ := heq
        simp [Record.isSnapshotHeader]
      · obtain ⟨-, rfl, -⟩ := heq
        simp

theorem Runs.queued {disk : JournalDisk} {s : JournaledImpl} (h : Runs stream disk s)
    {records : List Record} (hrecords : ∀ record ∈ records, ¬ record.isSnapshotHeader)
    (memory : TransactionLockManager) :
    Runs stream disk { s with memory := memory, queue := s.queue ++ records } where
  newest := h.newest
  torn := h.torn
  written := h.written
  queue record hin := (List.mem_append.mp hin).elim (h.queue record) (hrecords record)

theorem Consistent.step (h : Consistent stream node) (hlawful : stream.Lawful)
    (hpos : 0 < config.checkpointInterval) (hsafe : CrashSafe stream config node a)
    (hstep : node.step osdConfig stream config nodeId a = some node') :
    Consistent stream node' := by
  cases hrunning : node.running with
  | none =>
      rw [Consistent, hrunning] at h
      cases a with
      | restart components =>
          obtain ⟨memory, disk, hrecover, -, hready⟩ :=
            recover_rests osdConfig nodeId h hlawful hpos hsafe
          simp only [JournalNode.step, hrunning, hrecover] at hstep
          obtain rfl := Option.some.inj hstep
          obtain ⟨hnewest, htorn, hwritten⟩ := hready.applyAll (memory.markUnknownMemory components)
          exact ⟨hnewest, htorn, hwritten, by simp [recovered]⟩
      | crashRestarting components done count =>
          obtain ⟨memory, disk, hrecover, -, hready⟩ :=
            recover_rests osdConfig nodeId h hlawful hpos hsafe.1
          simp only [JournalNode.step, hrunning, hrecover] at hstep
          obtain rfl := Option.some.inj hstep
          rw [Consistent]
          exact hready.crashed hsafe.2
      | _ => simp [JournalNode.step, hrunning] at hstep
  | some s =>
      rw [Consistent, hrunning] at h
      cases a with
      | call c =>
          simp only [JournalNode.step, hrunning, Option.bind_some] at hstep
          obtain ⟨⟨record?, memory⟩, hcall, rfl⟩ := Option.map_eq_some_iff.mp hstep
          exact Runs.queued h (fun record hin =>
            call_queues hcall record (Option.mem_toList.mp hin))
            memory
      | extract components =>
          simp only [JournalNode.step, hrunning, Option.map_some] at hstep
          obtain rfl := Option.some.inj hstep
          exact ⟨h.newest, h.torn, h.written, h.queue⟩
      | accept records =>
          simp only [JournalNode.step, hrunning, Option.map_some] at hstep
          split at hstep
          · cases hstep
          · obtain rfl := Option.some.inj hstep
            refine Runs.queued h (fun record hin => ?_) _
            obtain ⟨active, -, rfl⟩ := List.mem_map.mp hin
            simp [Record.isSnapshotHeader]
      | commit components changed =>
          simp only [JournalNode.step, hrunning, Option.bind_some] at hstep
          obtain ⟨memory, -, rfl⟩ := Option.map_eq_some_iff.mp hstep
          exact ⟨h.newest, h.torn, h.written, h.queue⟩
      | write =>
          simp only [JournalNode.step, hrunning, Option.bind_some] at hstep
          obtain ⟨s', hwrite, rfl⟩ := Option.map_eq_some_iff.mp hstep
          exact h.write hwrite
      | crash =>
          simp only [JournalNode.step, hrunning, Option.map_some] at hstep
          obtain rfl := Option.some.inj hstep
          exact .inr ⟨_, h.newest⟩
      | crashWriting done count =>
          simp only [JournalNode.step, hrunning, Option.bind_some] at hstep
          split at hstep
          · cases hstep
          · rename_i hqueue
            obtain rfl := Option.some.inj hstep
            exact h.crashWriting hqueue (hsafe s hrunning)
      | _ => simp [JournalNode.step, hrunning] at hstep

/-- In every run without a crash while a snapshot is written, a node that does not run rebuilds the
locks of its durable records as long as the file it reads is read to its end. -/
theorem run_rebuilds_durable (hlawful : stream.Lawful) (hpos : 0 < config.checkpointInterval)
    {steps : List NodeStep}
    (hsafe : Along (JournalNode.step osdConfig stream config nodeId) (CrashSafe stream config) init
      steps)
    (hrun : run (JournalNode.step osdConfig stream config nodeId) init steps = some node)
    (hdown : node.running = none) (hreads : ReadsLatest stream config node) :
    RebuildsDurable osdConfig stream config nodeId node := by
  have hconsistent := run_along_preserves (JournalNode.step osdConfig stream config nodeId)
    (fun _ _ _ h hcondition hstep => Consistent.step h hlawful hpos hcondition hstep)
    consistent_init hsafe hrun
  rw [Consistent, hdown] at hconsistent
  obtain ⟨memory, disk, hrecover, hrep, -⟩ :=
    recover_rests osdConfig nodeId hconsistent hlawful hpos hreads
  exact ⟨memory, disk, hrecover, hrep⟩

/-! ### A crash behind the header of a snapshot -/

/-- A file is full with the header and one lock. -/
def rotatingConfig : JournalConfig := ⟨5242880, 200⟩

/-- The second lock starts the next file, and the node crashes when `count` bytes of its snapshot
are written. -/
def cutRotation (count : Nat) : List NodeStep :=
  [.restart [26], .call (.addTransaction (JournaledImpl.lockRequest "1a/b") 7), .write,
    .call (.addTransaction (JournaledImpl.lockRequest "1a/c") 8), .crashWriting 2 count]

set_option maxRecDepth 100000 in
theorem run_cutRotation_nothing : ∃ node,
    run (JournalNode.step false .plain rotatingConfig 1) init (cutRotation 0) = some node ∧
    node.running = none ∧ RebuildsDurable false .plain rotatingConfig 1 node := by
  obtain ⟨node, hrun, hdown, hwritten, htorn⟩ : ∃ node,
      run (JournalNode.step false .plain rotatingConfig 1) init (cutRotation 0) = some node ∧
      node.running = none ∧
      node.disk.written = [.record (.snapshotHeaderRecord 0 1),
        .record (JournaledImpl.lockRecord "1a/b" firstId 7), .padding 35] ∧
      node.disk.torn = none := ⟨_, rfl, rfl, rfl, rfl⟩
  have hevents : recordEvents [.snapshotHeaderRecord 0 1,
      JournaledImpl.lockRecord "1a/b" firstId 7] =
        [.acquired firstId ⟨"1a/b", .exclusive⟩] := rfl
  have hdurable : node.disk.durable = [.snapshotHeaderRecord 0 1,
      JournaledImpl.lockRecord "1a/b" firstId 7] := by
    rw [durable, hwritten]
    rfl
  have hrec : Recoverable .plain rotatingConfig node.disk := by
    constructor
    · rw [contents, hwritten, htorn]
      decide +kernel
    · rw [contents, hwritten, htorn]
      decide +kernel
    · rw [fileEntries, hwritten, htorn]
      decide +kernel
    · rw [fileEntries, contents, hwritten, htorn]
      decide +kernel
    · have hlock : Coherent ([.snapshotHeaderRecord 0 1] ++
          [.openRecord ⟨LockType.write.code, "1a/b", "HEAD", "server", firstId, 7⟩]) :=
        coherent_single (by simp) (by decide) (.inl rfl)
      rwa [hdurable]
    · rw [hdurable, hevents]
      have hempty : ∀ t l, (∅ : Table Int String).lookup t ≠ some l := fun t l h => by simp at h
      exact ⟨⟨Nat.zero_le _, .inl ⟨Finmap.lookup_empty _, fun t l h => absurd h (hempty t l)⟩⟩,
        trivial⟩
  refine ⟨node, hrun, hdown,
    run_rebuilds_durable ObjectStream.plain_lawful (by decide) ?_ hrun hdown
    fun _ => hrec⟩
  refine ⟨fun h => (by cases h), fun _ _ => ⟨trivial, fun _ _ => ⟨trivial, fun _ _ =>
    ⟨trivial, fun _ _ => ⟨fun s _ hcut => ?_, fun _ _ => trivial⟩⟩⟩⟩⟩
  exact absurd hcut.1 (Nat.lt_irrefl 0)

set_option maxRecDepth 100000 in
/-- The file with the header alone hides the lock in the file before it. -/
theorem header_hides_lock : ∃ node,
    run (JournalNode.step false .plain rotatingConfig 1) init (cutRotation 36) = some node ∧
    node.running = none ∧ ¬ RebuildsDurable false .plain rotatingConfig 1 node := by
  obtain ⟨node, hrun, hdown, hwritten, hid, hfile⟩ : ∃ node,
      run (JournalNode.step false .plain rotatingConfig 1) init (cutRotation 36) = some node ∧
      node.running = none ∧
      node.disk.written = [.record (.snapshotHeaderRecord 0 1),
        .record (JournaledImpl.lockRecord "1a/b" firstId 7), .padding 35] ∧
      node.fileIds.latestFileId = 2 ∧
      node.latestFile = some (recordBytes .plain [.snapshotHeaderRecord firstId 1]) :=
    ⟨_, rfl, rfl, rfl, rfl, rfl⟩
  refine ⟨node, hrun, hdown, ?_⟩
  rintro ⟨memory, disk, hrecover, hrep⟩
  have hfirst : FitsInt64 firstId := by decide
  have hread : TransactionRecovery.readJournal .plain rotatingConfig 1 2
      (recordBytes .plain [.snapshotHeaderRecord firstId 1]) = _ :=
    TransactionRecovery.readJournal_records ObjectStream.plain_lawful 1 2 (by decide) hfirst
      (by decide) (by decide +kernel) (by decide +kernel) (by decide +kernel)
  have hmemory : memory = (TransactionLockManager.init 1).setLastTransactionId firstId := by
    simp only [recover, hfile, reading, hid, hread, Option.bind_some] at hrecover
    obtain ⟨handler, hhandler, heq⟩ := Option.map_eq_some_iff.mp hrecover
    obtain rfl := Option.some.inj hhandler
    exact (Prod.mk.inj heq).1.symm
  have hheld : (after ∅ (recordEvents node.disk.durable)).lookup firstId =
      some ⟨"1a/b", .exclusive⟩ := by
    rw [durable, hwritten]
    exact Finmap.lookup_insert _
  have hregistered := hrep.registered firstId
  rw [hheld, hmemory] at hregistered
  cases hregistered

end JournalNode

end ObjectStorage.Transaction
