import ObjectStorage.Transaction.CoherentReplay
import ObjectStorage.Transaction.IdCounter

/-!
Ids issued across restarts. Recovery takes the counter up from the one file it reads, so ids grow as
long as this file still tells of every id issued before. The snapshot that recovery writes carries
the counter of the new write handler, which is zero, and so the next restart may begin anew.
-/

namespace ObjectStorage.Transaction

open Std Library SharedExclusive Journal TransactionLockManager

/-! ### What a reading tells of an id -/

/-- The locks that the records leave when they are replayed. -/
noncomputable def replayed (records : List Record) : Replayed Int String :=
  Replayed.start.replay capacity (recordEvents records)

/-- A lock is not turned down behind these records. -/
def Admits (records : List Record) (active : ActiveRecord) : Prop :=
  (replayed records).held.keys.card ≤ capacity ∧
    ∀ l, active.StandsFor l → ¬ (replayed records).Blocked l

/-- The last checkpoint, a snapshot header or an open record that is not turned down has an id that
is not smaller. -/
inductive Recalls (reading : JournalReading) (id : Int) : Prop where
  | checkpoint (hid : id ≤ reading.handler.memory.id)
  | header {last version : Int} (hid : id ≤ last)
      (hin : .snapshotHeaderRecord last version ∈ reading.records.map (·.record))
  | opened {front back : List Record} {active : ActiveRecord} (hid : id ≤ active.transactionId)
      (hrecords : reading.records.map (·.record) = front ++ .openRecord active :: back)
      (hcoherent : Coherent (front ++ [.openRecord active])) (hadmits : Admits front active)

namespace TransactionReadHandler

variable {osdConfig : Bool} {h h' : TransactionReadHandler} {R : Replayed Int String}

theorem acquire_raises (hrep : Represents osdConfig h.memory R) {active : ActiveRecord}
    {l : Lock String} (hl : active.StandsFor l) (hne : active.transactionId ≠ 0)
    (hroom : R.held.keys.card ≤ capacity) (hfree : ¬ R.Blocked l)
    (hacquire : h.acquire osdConfig active = some h') : active.transactionId ≤ h'.memory.id := by
  obtain ⟨⟨v, memory⟩, hlock, rfl⟩ := Option.map_eq_some_iff.mp hacquire
  have hfull : ¬ h.memory.isFull = true := fun hf => by
    have hcard := hrep.isFull_iff.mp hf
    omega
  have hpass : ¬ h.memory.frontRejects active = true := mt (hrep.frontRejects_iff hl).mp hfree
  rw [acquireLock, if_neg hfull, acquireTransactionLock_eq hrep.nonempty, if_neg hpass,
    Option.some.injEq] at hlock
  have hgranted : h.memory.grantedId active = active.transactionId := if_pos hne
  have hid := (grant_cases hlock).2
  simp only
  omega

theorem recoverRecords_append (front back : List PlacedRecord) :
    h.recoverRecords osdConfig (front ++ back) =
      (h.recoverRecords osdConfig front).bind fun h' => h'.recoverRecords osdConfig back := by
  rw [recoverRecords, List.foldlM_append]
  rfl

theorem recalls_le {nodeId : Nat} {reading : JournalReading} {id : Int}
    (hfresh : TransactionRecovery.JournalReading.Fresh nodeId reading)
    (hrecalls : Recalls reading id)
    (hrun : reading.handler.recoverRecords osdConfig reading.records = some h') :
    id ≤ h'.memory.id := by
  cases hrecalls with
  | checkpoint hid => exact hid.trans (recoverRecords_id_mono hrun)
  | @header last version hid hin =>
      obtain ⟨p, hp, hrecord⟩ := List.mem_map.mp hin
      obtain ⟨front, back, hsplit⟩ := List.append_of_mem hp
      rw [hsplit, recoverRecords_append] at hrun
      obtain ⟨h₁, -, hrun⟩ := Option.bind_eq_some_iff.mp hrun
      obtain ⟨h₂, hstep, hrun⟩ := Option.bind_eq_some_iff.mp hrun
      rw [recoverObjects, hrecord] at hstep
      obtain rfl := Option.some.inj hstep
      have hraised := h₁.memory.setLastTransactionId_id last
      have hmono := recoverRecords_id_mono hrun
      simp only at hmono
      omega
  | @opened front back active hid hrecords hcoherent hadmits =>
      obtain ⟨placed, rest, hsplit, hfront, hrest⟩ := List.map_eq_append_iff.mp hrecords
      obtain ⟨p, behind, rfl, hrecord, -⟩ := List.map_eq_cons_iff.mp hrest
      rw [hsplit, recoverRecords_append] at hrun
      have hsub : ∀ q ∈ placed, q.record ∈ front ++ [.openRecord active] := by
        intro q hq
        rw [← hfront]
        exact List.mem_append_left _ (List.mem_map_of_mem hq)
      have hstart : Represents osdConfig reading.handler.memory Replayed.start := by
        rcases hfresh.memory with hmemory | ⟨last, hmemory⟩
        · rw [hmemory]
          exact represents_init nodeId
        · rw [hmemory]
          exact (represents_init nodeId).setLastTransactionId last
      have hbehind : ∀ q ∈ placed ++ p :: behind,
        ¬ q.offset < reading.handler.lastCheckpointOffset :=
        hsplit ▸ hfresh.notBefore
      obtain ⟨h₁, hplaced, hrep, hcheck⟩ := recoverRecords_coherent hstart hcoherent hsub
        (fun q hq => hbehind q (List.mem_append_left _ hq)) (fromRecords_start _)
      rw [hplaced, Option.bind_some] at hrun
      obtain ⟨h₂, hstep, hrun⟩ := Option.bind_eq_some_iff.mp hrun
      have hopen : .openRecord active ∈ front ++ [.openRecord active] :=
        List.mem_append_right _ List.mem_cons_self
      obtain ⟨hne, hknown⟩ := hcoherent.known active hopen
      obtain ⟨l, -, hl⟩ := Record.event_openRecord hknown
      have hoffset : ¬ p.offset < h₁.lastCheckpointOffset :=
        hcheck ▸ hbehind p (List.mem_append_right _ List.mem_cons_self)
      rw [recoverObjects, hrecord] at hstep
      simp only [if_neg hoffset] at hstep
      rw [hfront] at hrep
      have hl' : (recoveredRecord active p.size).StandsFor l := hl
      have hne' : (recoveredRecord active p.size).transactionId ≠ 0 := hne
      have hraised := acquire_raises hrep hl' hne' hadmits.1 (hadmits.2 l hl) hstep
      exact hid.trans (hraised.trans (recoverRecords_id_mono hrun))

end TransactionReadHandler

/-! ### Runs of a node -/

namespace JournalNode

variable {osdConfig : Bool} {stream : ObjectStream} {config : JournalConfig} {nodeId : Nat}
  {node node' : JournalNode} {a : NodeStep}

/-- What recovery is about to read recalls every id issued so far. -/
def RecallsIssued (stream : ObjectStream) (config : JournalConfig) (nodeId : Nat)
    (node : JournalNode) : NodeStep → Prop
  | .restart _ =>
      match node.latestFile with
      | none => node.issued = []
      | some bytes => ∀ reading, node.reading stream config nodeId bytes = some reading →
          ∀ id ∈ node.issued, Recalls reading id
  | _ => True

/-- The ids issued so far grow, up to the counter. -/
structure Increasing (node : JournalNode) : Prop where
  sorted : node.issued.Pairwise (· < ·)
  below : ∀ s, node.running = some s → ∀ id ∈ node.issued, id ≤ s.memory.id

theorem increasing_init : Increasing init :=
  ⟨.nil, fun _ h => nomatch h⟩

theorem recover_recalls {memory : TransactionLockManager} {disk : JournalDisk}
    {components : List Int}
    (hrecalls : RecallsIssued stream config nodeId node (.restart components))
    (hrecover : node.recover osdConfig stream config nodeId = some (memory, disk)) :
    ∀ id ∈ node.issued, id ≤ memory.id := by
  simp only [RecallsIssued] at hrecalls
  simp only [recover] at hrecover
  cases hfile : node.latestFile with
  | none =>
      rw [hfile] at hrecalls
      simp [hrecalls]
  | some bytes =>
      rw [hfile] at hrecalls hrecover
      obtain ⟨reading, hreading, hrecover⟩ := Option.bind_eq_some_iff.mp hrecover
      obtain ⟨handler, hrun, heq⟩ := Option.map_eq_some_iff.mp hrecover
      obtain ⟨rfl, -⟩ := Prod.mk.inj heq
      intro id hid
      exact TransactionReadHandler.recalls_le (TransactionRecovery.readJournal_fresh hreading)
        (hrecalls reading hreading id hid) hrun

theorem Increasing.step (h : Increasing node)
    (hrecalls : RecallsIssued stream config nodeId node a)
    (hstep : node.step osdConfig stream config nodeId a = some node') : Increasing node' := by
  cases step_counter hstep with
  | down hrunning hissued =>
      exact ⟨hissued ▸ h.sorted, fun s hs => by simp [hrunning] at hs⟩
  | kept hrunning hrunning' hid hissued =>
      refine ⟨hissued ▸ h.sorted, fun s hs id hin => ?_⟩
      obtain rfl := Option.some.inj (hrunning'.symm.trans hs)
      rw [hid]
      exact h.below _ hrunning id (hissued ▸ hin)
  | called hrunning hrunning' hid hissued =>
      refine ⟨hissued ▸ h.sorted, fun s hs id hin => ?_⟩
      obtain rfl := Option.some.inj (hrunning'.symm.trans hs)
      exact (h.below _ hrunning id (hissued ▸ hin)).trans hid.1
  | @issued c s s' hrunning hrunning' hid hissued =>
      have hbelow := h.below s hrunning
      constructor
      · rw [hissued, List.pairwise_append]
        refine ⟨h.sorted, List.pairwise_singleton _ _, fun id hin new hnew => ?_⟩
        have hle := hbelow id hin
        have heq := List.mem_singleton.mp hnew
        omega
      · intro t ht id hin
        obtain rfl := Option.some.inj (hrunning'.symm.trans ht)
        rw [hissued] at hin
        rcases List.mem_append.mp hin with hin | hin
        · have hle := hbelow id hin
          omega
        · have heq := List.mem_singleton.mp hin
          omega
  | restarted hrecover hrunning' hid hissued =>
      refine ⟨hissued ▸ h.sorted, fun s hs id hin => ?_⟩
      obtain rfl := Option.some.inj (hrunning'.symm.trans hs)
      rw [hid]
      exact recover_recalls hrecalls hrecover id (hissued ▸ hin)

/-- Behind records that open nothing every lock is admitted. -/
theorem admits_of_no_events {records : List Record} (h : recordEvents records = [])
    (active : ActiveRecord) : Admits records active := by
  unfold Admits replayed
  rw [h]
  refine ⟨Nat.zero_le _, fun l _ hblocked => ?_⟩
  obtain ⟨t, k, hentry, -⟩ := hblocked
  rcases hentry with hl | hl <;> simp [Replayed.start] at hl

/-- As long as every restart reads a file that recalls the ids issued before it, every id is greater
than all those issued before. -/
theorem run_issues_increasing {steps : List NodeStep}
    (hrecalls : Along (step osdConfig stream config nodeId) (RecallsIssued stream config nodeId)
      init steps)
    (hrun : run (step osdConfig stream config nodeId) init steps = some node) :
    node.issued.Pairwise (· < ·) :=
  (run_along_preserves (step osdConfig stream config nodeId)
    (fun _ _ _ h hcondition hstep => Increasing.step h hcondition hstep) increasing_init hrecalls
    hrun).sorted

/-! ### Two restarts without an open transaction -/

theorem step_restart_of_records (hlawful : stream.Lawful) (hpos : 0 < config.checkpointInterval)
    (hdown : node.running = none) {last : Int} {records : List Record}
    (hlatest : node.latestFile =
      some (recordBytes stream (.snapshotHeaderRecord last 1 :: records)))
    (hlast : FitsInt64 last) (htypes : ∀ record ∈ records, record.FitsTypes)
    (hshort : (recordBytes stream (.snapshotHeaderRecord last 1 :: records)).length ≤
      config.checkpointInterval)
    (htells : Tells (recordBytes stream (.snapshotHeaderRecord last 1 :: records)).length)
    (hfits : JournalReadHandler.BufferState.blank.Fits (Record.encode stream) 0
      (TransactionRecovery.unpadded (.snapshotHeaderRecord last 1 :: records))
      (recordBytes stream (.snapshotHeaderRecord last 1 :: records)).length)
    {handler : TransactionReadHandler}
    (hrun : (TransactionReadHandler.init nodeId node.fileIds.latestFileId).recoverRecords osdConfig
      ((located (Record.encode stream) node.fileIds.latestFileId 0
        (TransactionRecovery.unpadded (.snapshotHeaderRecord last 1 :: records))).map
          (TransactionRecovery.readFound stream)) = some handler) (components : List Int) :
    node.step osdConfig stream config nodeId (.restart components) =
      some { node with
        disk := JournalDisk.applyAll stream { node.disk with
          files := node.disk.files.insert node.fileIds.latestFileId
            (recordBytes stream (.snapshotHeaderRecord last 1 :: records)) }
          (finishRecovery node.fileIds (handler.memory.markUnknownMemory components))
        running := some (recovered config node.fileIds
          (handler.memory.markUnknownMemory components)) } := by
  have hread :=
    TransactionRecovery.readJournal_records hlawful nodeId node.fileIds.latestFileId hpos
    hlast htypes hshort htells hfits
  have hrecover : node.recover osdConfig stream config nodeId = some (handler.memory,
      { node.disk with
        files := node.disk.files.insert node.fileIds.latestFileId
          (recordBytes stream (.snapshotHeaderRecord last 1 :: records)) }) := by
    simp only [recover, hlatest, reading, hread, Option.bind_some, hrun, Option.map_some, if_true]
  simp only [step, hdown, hrecover]
  rfl

/-- A node with these records in its only file. -/
def withFile (fileId : Nat) (records : List Record) (running : Option JournaledImpl)
    (issued : List Int) : JournalNode where
  disk :=
    { files := (∅ : TreeMap Nat Bytes).insert fileId (recordBytes .plain records)
      written := records.map .record
      torn := none }
  running := running
  issued := issued

def shortConfig : JournalConfig := ⟨5242880, 2 ^ 30⟩

def firstId : Int := getUniqueId 1 0 + 1

/-- A lock is taken and given back, and both are journalled. -/
def lockAndRelease : List NodeStep :=
  [.restart [26], .call (.addTransaction (JournaledImpl.lockRequest "1a/b") 7), .write,
    .call (.releaseLock firstId), .write, .crash]

def closedRecords : List Record :=
  [.snapshotHeaderRecord 0 1, JournaledImpl.lockRecord "1a/b" firstId 7,
    .closeRecord firstId "1a/b"]

set_option maxRecDepth 100000 in
theorem run_lockAndRelease : run (step false .plain shortConfig 1) init lockAndRelease =
    some (withFile 1 closedRecords none [firstId]) := rfl

/-- The first restart still finds the id, but the snapshot it writes does not have it. -/
theorem restart_closed : (withFile 1 closedRecords none [firstId]).step false .plain shortConfig 1
    (.restart [26]) = some (withFile 2 [.snapshotHeaderRecord 0 1] (some (recovered shortConfig
      ⟨1, 2, some 1⟩ ((TransactionLockManager.init 1).setLastTransactionId firstId)))
        [firstId]) := by
  have hzero : FitsInt64 0 := by decide
  rw [step_restart_of_records ObjectStream.plain_lawful (by decide) rfl rfl hzero (by decide)
    (by decide +kernel) (by decide +kernel) (by decide +kernel) rfl [26]]
  rfl

theorem restart_empty : (withFile 2 [.snapshotHeaderRecord 0 1] none [firstId]).step false .plain
    shortConfig 1 (.restart [26]) = some (withFile 3 [.snapshotHeaderRecord 0 1]
      (some (recovered shortConfig ⟨2, 3, some 2⟩ (.init 1))) [firstId]) := by
  have hzero : FitsInt64 0 := by decide
  rw [step_restart_of_records ObjectStream.plain_lawful (by decide) rfl rfl hzero (by decide)
    (by decide +kernel) (by decide +kernel) (by decide +kernel) rfl [26]]
  rfl

set_option maxRecDepth 100000 in
theorem run_issues_increasing_once : ∃ node, run (step false .plain shortConfig 1) init
    (lockAndRelease ++ [.restart [26],
      .call (.addTransaction (JournaledImpl.lockRequest "1a/b") 8)]) = some node ∧
    node.issued = [firstId, firstId + 1] ∧ node.issued.Pairwise (· < ·) := by
  have hzero : FitsInt64 0 := by decide
  obtain ⟨node, hrun, hissued⟩ : ∃ node, run (step false .plain shortConfig 1) init
      (lockAndRelease ++ [.restart [26],
        .call (.addTransaction (JournaledImpl.lockRequest "1a/b") 8)]) = some node ∧
      node.issued = [firstId, firstId + 1] := by
    rw [run_append, run_lockAndRelease, Option.bind_some, run_cons, restart_closed,
      Option.bind_some]
    exact ⟨_, rfl, rfl⟩
  refine ⟨node, hrun, hissued, run_issues_increasing ?_ hrun⟩
  rw [along_append]
  refine ⟨⟨rfl, fun _ _ => ⟨trivial, fun _ _ => ⟨trivial, fun _ _ => ⟨trivial, fun _ _ =>
    ⟨trivial, fun _ _ => ⟨trivial, fun _ _ => trivial⟩⟩⟩⟩⟩⟩, fun s hs => ?_⟩
  obtain rfl := Option.some.inj (run_lockAndRelease.symm.trans hs)
  refine ⟨fun reading hreading id hid => ?_, fun _ _ => ⟨trivial, fun _ _ => trivial⟩⟩
  have hread : TransactionRecovery.readJournal .plain shortConfig 1 1
      (recordBytes .plain closedRecords) = _ :=
    TransactionRecovery.readJournal_records ObjectStream.plain_lawful 1 1 (by decide) hzero
      (by decide) (by decide +kernel) (by decide +kernel) (by decide +kernel)
  obtain rfl := Option.some.inj (hread.symm.trans hreading)
  obtain rfl : id = firstId := List.mem_singleton.mp hid
  -- the open record of the lock tells of its id
  have hcoherent : Coherent ([.snapshotHeaderRecord 0 1] ++
      [.openRecord ⟨LockType.write.code, "1a/b", "HEAD", "server", firstId, 0⟩]) :=
    coherent_single (by simp) (by decide) (.inl rfl)
  exact .opened (Int.le_refl _) rfl hcoherent (admits_of_no_events rfl _)

set_option maxRecDepth 100000 in
/-- After two restarts without an open transaction the first id is issued again. -/
theorem restarts_repeat_id : ∃ node, run (step false .plain shortConfig 1) init
    (lockAndRelease ++ [.restart [26], .crash, .restart [26],
      .call (.addTransaction (JournaledImpl.lockRequest "1a/b") 8)]) = some node ∧
    node.issued = [firstId, firstId] ∧ ¬ node.issued.Pairwise (· < ·) := by
  rw [run_append, run_lockAndRelease, Option.bind_some, run_cons, restart_closed, Option.bind_some]
  -- the crash only stops the service
  have hcrash : ∀ running : JournaledImpl,
      (withFile 2 [.snapshotHeaderRecord 0 1] (some running) [firstId]).step
        false .plain shortConfig
        1 .crash = some (withFile 2 [.snapshotHeaderRecord 0 1] none [firstId]) := fun _ => rfl
  rw [run_cons, hcrash, Option.bind_some, run_cons, restart_empty, Option.bind_some]
  exact ⟨_, rfl, rfl, by decide⟩

end JournalNode

end ObjectStorage.Transaction
