import ObjectStorage.Jobs.JobExecutor
import ObjectStorage.Journal.WriteHandler
import ObjectStorage.Library.EffectOrder

/-!
The journal of the container service under its job queue, and which acknowledged records are on
disk. A file that is left at a rotation is closed without being synced, and files in front of the
one with the last commit offset are removed when a new one is started.
-/

namespace ObjectStorage.Jobs

open Library Journal

variable {ρ : Type}

/-! ### Order of the effects -/

/-- The record of a success function has been written and synced before, and been given to the
memory manager behind the sync. -/
def Acknowledged (front : List (Effect ρ)) : Effect ρ → Prop
  | .success record => ∃ a b records c,
      front = a ++ .fsync :: b ++ .addEntries records :: c ∧ .write record ∈ a ∧
        ∃ group ∈ records, record ∈ group.2
  | _ => True

theorem Acknowledged.more {front : List (Effect ρ)} {x : Effect ρ} (more : List (Effect ρ))
    (h : Acknowledged front x) : Acknowledged (more ++ front) x := by
  cases x with
  | success record =>
      obtain ⟨a, b, records, c, rfl, hwrite, hgroup⟩ := h
      exact ⟨more ++ a, b, records, c, by simp, List.mem_append_right _ hwrite, hgroup⟩
  | _ => trivial

theorem mem_recordsOf {tasks : List (Job ρ)} {job : Job ρ} (h : job ∈ tasks) :
    ∃ group ∈ recordsOf true tasks ++ recordsOf false tasks, job.record ∈ group.2 := by
  have hmem : job.record ∈ (tasks.filter (·.memoryFlag = job.memoryFlag)).map (·.record) := by
    apply List.mem_map_of_mem
    simpa using h
  have hgroup : (job.memoryFlag, (tasks.filter (·.memoryFlag = job.memoryFlag)).map (·.record)) ∈
      recordsOf job.memoryFlag tasks := by
    simp only [recordsOf]
    rw [if_pos (List.length_pos_of_mem hmem)]
    exact List.mem_singleton_self _
  refine ⟨(job.memoryFlag, _), ?_, hmem⟩
  cases hflag : job.memoryFlag with
  | true => exact List.mem_append_left _ (hflag ▸ hgroup)
  | false => exact List.mem_append_right _ (hflag ▸ hgroup)

theorem preceded_executeForContainer (tasks : List (Job ρ)) :
    Preceded Acknowledged (executeForContainer tasks) := by
  apply preceded_append
  · intro front x back hl
    have hmem : x ∈ writes tasks ++
        [.setSyncOffset, .fsync, .addEntries (recordsOf true tasks ++ recordsOf false tasks)] := by
      rw [hl]
      exact List.mem_append_right _ List.mem_cons_self
    cases x with
    | success record => simp [writes] at hmem
    | _ => trivial
  · intro front x back hl
    have hmem : x ∈ callbacks tasks := by
      rw [hl]
      exact List.mem_append_right _ List.mem_cons_self
    obtain ⟨job, hjob, rfl⟩ := List.mem_map.mp hmem
    have htask := (List.mem_filter.mp hjob).1
    refine ⟨writes tasks ++ [.setSyncOffset], [], _, front, by simp, ?_, mem_recordsOf htask⟩
    apply List.mem_append_left
    exact List.mem_map.mpr ⟨job, htask, rfl⟩

theorem preceded_batched {σ : Type} {jobs : List (Job ρ)} {q : JobQueue σ ρ}
    (h : JobQueue.Batched executeForContainer jobs q) : Preceded Acknowledged q.effects := by
  obtain ⟨batches, -, -, heffects⟩ := h
  have hall : Preceded Acknowledged (q.effects ++ q.thread.todo) := by
    rw [heffects]
    exact preceded_flatMap (fun more _ _ h => h.more more) fun b _ => preceded_executeForContainer b
  exact hall.of_append

/-- In every run a success function is called for a record that has been written, then synced, then
added to the memory manager. -/
theorem success_acknowledged {σ ι ο : Type} (store : Store σ ρ ι ο) (s : σ)
    (actions : List (Action ρ ι ο)) (q : JobQueue σ ρ)
    (hrun : run (JobQueue.step store executeForContainer) (.init s) actions = some q) :
    Preceded Acknowledged q.effects :=
  preceded_batched ((JobQueue.Batched.init s).run hrun)

/-- A batch of two jobs, of which one has a success function. -/
theorem success_acknowledged_two :
    Preceded Acknowledged [.write 1, .write 2, .setSyncOffset, .fsync,
      .addEntries [(true, [1]), (false, [2])], .success 2] :=
  success_acknowledged JobQueue.plainStore ()
    ([.push [⟨1, true, false⟩, ⟨2, false, true⟩]] ++ List.replicate 8 (.exec ()))
    ⟨[], false, false, .execute [], _, ()⟩ rfl

/-! ### The files -/

/-- A file that the writer has left, with the part of it that was synced. -/
structure LeftFile (ρ : Type) where
  id : Nat
  file : List (Segment ρ)
  synced : Nat

/-- The writer with the synced part of its file, and the files it has left; of these the removed
ones with the last commit offset at their removal. -/
structure JournalFiles (ρ : Type) where
  writer : JournalWriteHandler ρ
  synced : Nat
  left : List (LeftFile ρ)
  removed : List (LeftFile ρ × JournalOffset)
  oldestFileId : Nat
  lastCommitOffset : JournalOffset
  lastSyncOffset : JournalOffset
  /-- `prev_off` of the batch. -/
  prevOff : JournalOffset
  /-- The offsets that `add_entries` was called with. -/
  ranges : List (JournalOffset × JournalOffset)

/-- What the threads that flush containers do: they write markers, and set the last commit
offset. -/
inductive FlushStep (ρ : Type) where
  | write (snapshot : List ρ) (checkpoint record : ρ)
  | setLastCommitOffset (offset : JournalOffset)

namespace JournalFiles

variable (encode : ρ → Bytes) (config : JournalConfig)

/-- `get_current_journal_offset`, for files below 2 GiB, whose offsets fit the `int` of `tell`. -/
def currentOffset (j : JournalFiles ρ) : JournalOffset :=
  toLex (j.writer.activeFileId, (fileBytes encode j.writer.file).length)

/-- Whether a write starts a file. -/
def StartsFile (j : JournalFiles ρ) (record : ρ) : Prop :=
  (fileBytes encode j.writer.file).length = 0 ∨ j.writer.rotates encode config record

instance (j : JournalFiles ρ) (record : ρ) : Decidable (j.StartsFile encode config record) :=
  inferInstanceAs (Decidable (_ ∨ _))

/-- The write itself, given what `process_snapshot` or `process_checkpoint` would write. -/
def append (j : JournalFiles ρ) (snapshot : List ρ) (checkpoint record : ρ) : JournalFiles ρ :=
  let writer := j.writer.write encode config snapshot checkpoint record
  if (fileBytes encode j.writer.file).length = 0 then { j with writer := writer, synced := 0 }
  else if j.writer.rotates encode config record then
    { j with
      writer := writer
      synced := 0
      left := j.left ++ [⟨j.writer.activeFileId, j.writer.file, j.synced⟩] }
  else { j with writer := writer }

/-- The file is removed by `remove_old_files`. -/
def isOld (j : JournalFiles ρ) (f : LeftFile ρ) : Bool :=
  j.oldestFileId ≤ f.id && f.id < (ofLex j.lastCommitOffset).1

def removeOldFiles (j : JournalFiles ρ) : JournalFiles ρ :=
  { j with
    left := j.left.filter fun f => ! j.isOld f
    removed := j.removed ++ (j.left.filter j.isOld).map (·, j.lastCommitOffset)
    oldestFileId := (ofLex j.lastCommitOffset).1 }

/-- `write`. -/
def write (j : JournalFiles ρ) (snapshot : List ρ) (checkpoint record : ρ) : JournalFiles ρ :=
  if j.StartsFile encode config record then
    (j.append encode config snapshot checkpoint record).removeOldFiles
  else j.append encode config snapshot checkpoint record

/-- The effects of the executor, and the steps of the flush threads. -/
def store : Store (JournalFiles ρ) ρ (List ρ × ρ) (FlushStep ρ) where
  apply j e input :=
    match e with
    | .write record => j.write encode config input.1 input.2 record
    | .setSyncOffset =>
        { j with prevOff := j.lastSyncOffset, lastSyncOffset := j.currentOffset encode }
    | .fsync => { j with synced := j.writer.file.length }
    | .addEntries _ => { j with ranges := j.ranges ++ [(j.prevOff, j.lastSyncOffset)] }
    | .success _ => j
  other j o :=
    match o with
    | .write snapshot checkpoint record => j.write encode config snapshot checkpoint record
    | .setLastCommitOffset offset => { j with lastCommitOffset := offset }

/-- The records on disk after a crash. -/
def durable (j : JournalFiles ρ) : List ρ :=
  (j.left.flatMap fun f => fileRecords (f.file.take f.synced)) ++
    fileRecords (j.writer.file.take j.synced)

/-- Those that were on disk in a file that was removed. -/
def gone (j : JournalFiles ρ) : List ρ :=
  j.removed.flatMap fun e => fileRecords (e.1.file.take e.1.synced)

/-- Those that the next sync writes. -/
def unsynced (j : JournalFiles ρ) : List ρ := fileRecords (j.writer.file.drop j.synced)

/-- Those that no sync will write. -/
def lost (j : JournalFiles ρ) : List ρ :=
  (j.left ++ j.removed.map (·.1)).flatMap fun f => fileRecords (f.file.drop f.synced)

/-- A write leaves no file with records that are not synced. -/
def LeavesSynced (j : JournalFiles ρ) (record : ρ) : Prop :=
  0 < (fileBytes encode j.writer.file).length → j.writer.rotates encode config record →
    j.unsynced = []

/-- The record has been synced. -/
def Synced (j : JournalFiles ρ) (record : ρ) : Prop := record ∈ j.durable ∨ record ∈ j.gone

variable {j : JournalFiles ρ}

theorem fileRecords_eq_nil {file : List (Segment ρ)} (h : (fileBytes encode file).length = 0) :
    fileRecords file = [] := by
  apply List.eq_nil_iff_forall_not_mem.mpr
  intro r hr
  obtain ⟨segment, hsegment, hrecord⟩ := List.mem_filterMap.mp hr
  cases segment with
  | record r' =>
      have := length_pos_of_mem encode hsegment
      omega
  | padding count => cases hrecord

theorem fileRecords_take_drop (file : List (Segment ρ)) (n : Nat) :
    fileRecords file = fileRecords (file.take n) ++ fileRecords (file.drop n) := by
  rw [← fileRecords_append, List.take_append_drop]

variable {config} in
theorem write_file {w : JournalWriteHandler ρ} (snapshot : List ρ) (checkpoint record : ρ)
    (hne : (fileBytes encode w.file).length ≠ 0) (hrotates : ¬ w.rotates encode config record) :
    ∃ extra, (w.write encode config snapshot checkpoint record).file =
        w.file ++ (extra ++ [.record record]) ∧
      (w.write encode config snapshot checkpoint record).activeFileId = w.activeFileId := by
  simp only [JournalWriteHandler.write, JournalWriteHandler.prepareFile, if_neg hne,
    if_neg hrotates]
  split
  · exact ⟨_, List.append_assoc _ _ _, rfl⟩
  · exact ⟨[], rfl, rfl⟩

theorem mem_unsynced_of_append {front : List (Segment ρ)} {record : ρ}
    (hfile : j.writer.file = front ++ [.record record]) (hsynced : j.synced ≤ front.length) :
    record ∈ j.unsynced := by
  rw [unsynced, hfile, List.drop_append_of_le_length hsynced, fileRecords_append]
  apply List.mem_append_right
  simp [fileRecords]

/-- What a write does to the records: its own is not synced, the synced ones stay so, and those that
are not stay in the file or are lost with it. -/
structure WriteEffect (encode : ρ → Bytes) (config : JournalConfig) (record : ρ)
    (j j' : JournalFiles ρ) : Prop where
  le : j'.synced ≤ j'.writer.file.length
  new : record ∈ j'.unsynced
  synced : ∀ r, j.Synced r → j'.Synced r
  unsynced : ((∀ r, r ∈ j'.lost ↔ r ∈ j.lost) ∧ (∀ r ∈ j.unsynced, r ∈ j'.unsynced) ∧
      j.LeavesSynced encode config record) ∨
    ((∀ r, r ∈ j'.lost ↔ r ∈ j.lost ∨ r ∈ j.unsynced) ∧
      (j.LeavesSynced encode config record ↔ j.unsynced = []))

theorem append_effect (hsynced : j.synced ≤ j.writer.file.length) (snapshot : List ρ)
    (checkpoint record : ρ) :
    WriteEffect encode config record j (j.append encode config snapshot checkpoint record) := by
  have hlast : ∃ front, (j.writer.write encode config snapshot checkpoint record).file =
      front ++ [.record record] := ⟨_, rfl⟩
  by_cases hempty : (fileBytes encode j.writer.file).length = 0
  · have hj' : j.append encode config snapshot checkpoint record = { j with
        writer := j.writer.write encode config snapshot checkpoint record
        synced := 0 } := if_pos hempty
    obtain ⟨front, hfile⟩ := hlast
    have hnone := fileRecords_eq_nil encode hempty
    have hboth := fileRecords_take_drop j.writer.file j.synced
    rw [hnone] at hboth
    obtain ⟨htake, hdrop⟩ := List.append_eq_nil_iff.mp hboth.symm
    rw [hj']
    refine ⟨Nat.zero_le _, mem_unsynced_of_append hfile (Nat.zero_le _), fun r hr => ?_,
      .inl ⟨fun r => Iff.rfl, ?_, ?_⟩⟩
    · refine hr.imp_left fun hdurable => ?_
      simp only [durable, htake, List.append_nil] at hdurable
      exact List.mem_append_left _ hdurable
    · simp [unsynced, hdrop]
    · intro hpos
      omega
  · by_cases hrotates : j.writer.rotates encode config record
    · have hj' : j.append encode config snapshot checkpoint record = { j with
          writer := j.writer.write encode config snapshot checkpoint record
          synced := 0
          left := j.left ++ [⟨j.writer.activeFileId, j.writer.file, j.synced⟩] } := by
        simp only [append, if_neg hempty, if_pos hrotates]
      obtain ⟨front, hfile⟩ := hlast
      rw [hj']
      refine ⟨Nat.zero_le _, mem_unsynced_of_append hfile (Nat.zero_le _), fun r hr => ?_,
        .inr ⟨fun r => ?_, ?_⟩⟩
      · refine hr.imp_left fun hdurable => ?_
        simpa [durable, fileRecords] using hdurable
      · simp only [lost, unsynced, List.mem_flatMap, List.mem_append, List.mem_singleton]
        constructor
        · rintro ⟨f, (hf | rfl) | hf, hr⟩
          · exact .inl ⟨f, .inl hf, hr⟩
          · exact .inr hr
          · exact .inl ⟨f, .inr hf, hr⟩
        · rintro (⟨f, hf | hf, hr⟩ | hr)
          · exact ⟨f, .inl (.inl hf), hr⟩
          · exact ⟨f, .inr hf, hr⟩
          · exact ⟨_, .inl (.inr rfl), hr⟩
      · exact ⟨fun h => h (Nat.pos_of_ne_zero hempty) hrotates, fun h _ _ => h⟩
    · have hj' : j.append encode config snapshot checkpoint record = { j with
          writer := j.writer.write encode config snapshot checkpoint record } := by
        simp only [append, if_neg hempty, if_neg hrotates]
      obtain ⟨extra, hfile, -⟩ := write_file encode snapshot checkpoint record hempty hrotates
      rw [hj']
      refine ⟨?_, ?_, fun r hr => ?_, .inl ⟨fun r => Iff.rfl, ?_, fun _ h => absurd h hrotates⟩⟩
      · simp only [hfile, List.length_append]
        omega
      · have hsplit : (j.writer.write encode config snapshot checkpoint record).file =
            (j.writer.file ++ extra) ++ [.record record] := by
          rw [hfile, List.append_assoc]
        apply mem_unsynced_of_append hsplit
        rw [List.length_append]
        show j.synced ≤ _
        omega
      · refine hr.imp_left fun hdurable => ?_
        simp only [durable, hfile] at hdurable ⊢
        rwa [List.take_append_of_le_length hsynced]
      · intro r hr
        simp only [unsynced, hfile]
        rw [List.drop_append_of_le_length hsynced, fileRecords_append]
        exact List.mem_append_left _ hr

/-- A removal takes records off the disk, and the others are where they were. -/
theorem mem_removeOldFiles (j : JournalFiles ρ) (r : ρ) :
    (j.Synced r → j.removeOldFiles.Synced r) ∧ (r ∈ j.removeOldFiles.lost ↔ r ∈ j.lost) := by
  have hleft : ∀ f, f ∈ j.left ↔ (f ∈ j.left.filter fun f => ! j.isOld f) ∨
      f ∈ j.left.filter j.isOld := by
    intro f
    simp only [List.mem_filter]
    cases j.isOld f <;> simp
  constructor
  · rintro (hdurable | hgone)
    · rcases List.mem_append.mp hdurable with hin | hin
      · obtain ⟨f, hf, hr⟩ := List.mem_flatMap.mp hin
        rcases (hleft f).mp hf with hkept | hold
        · exact .inl (List.mem_append_left _ (List.mem_flatMap.mpr ⟨f, hkept, hr⟩))
        · refine .inr (List.mem_flatMap.mpr ⟨(f, j.lastCommitOffset), ?_, hr⟩)
          exact List.mem_append_right _ (List.mem_map_of_mem hold)
      · exact .inl (List.mem_append_right _ hin)
    · obtain ⟨e, he, hr⟩ := List.mem_flatMap.mp hgone
      exact .inr (List.mem_flatMap.mpr ⟨e, List.mem_append_left _ he, hr⟩)
  · simp only [lost, removeOldFiles, List.mem_flatMap, List.map_append, List.map_map,
      List.mem_append]
    refine exists_congr fun f => and_congr_left fun _ => ?_
    have hmap : f ∈ (j.left.filter j.isOld).map (Prod.fst ∘ (·, j.lastCommitOffset)) ↔
        f ∈ j.left.filter j.isOld := by simp
    rw [hmap, hleft f]
    tauto

theorem write_effect (hsynced : j.synced ≤ j.writer.file.length) (snapshot : List ρ)
    (checkpoint record : ρ) :
    WriteEffect encode config record j (j.write encode config snapshot checkpoint record) := by
  have happend := append_effect encode config hsynced snapshot checkpoint record
  unfold write
  split
  · have hremove := mem_removeOldFiles (j.append encode config snapshot checkpoint record)
    refine ⟨happend.le, happend.new, fun r hr => (hremove r).1 (happend.synced r hr), ?_⟩
    rcases happend.unsynced with ⟨hlost, hunsynced, hleaves⟩ | ⟨hlost, hleaves⟩
    · exact .inl ⟨fun r => (hremove r).2.trans (hlost r), hunsynced, hleaves⟩
    · exact .inr ⟨fun r => (hremove r).2.trans (hlost r), hleaves⟩
  · exact happend

theorem synced_of_fsync {r : ρ} (h : j.Synced r ∨ r ∈ j.unsynced) :
    ({ j with synced := j.writer.file.length } : JournalFiles ρ).Synced r := by
  simp only [Synced, durable, List.take_length, List.mem_append] at h ⊢
  rcases h with ((hleft | htake) | hgone) | hdrop
  · exact .inl (.inl hleft)
  · refine .inl (.inr ?_)
    rw [fileRecords_take_drop j.writer.file j.synced]
    exact List.mem_append_left _ htake
  · exact .inr hgone
  · refine .inl (.inr ?_)
    rw [fileRecords_take_drop j.writer.file j.synced]
    exact List.mem_append_right _ hdrop

/-- Nothing written gets out of sight. -/
theorem WriteEffect.seen {record : ρ} {j' : JournalFiles ρ}
    (h : WriteEffect encode config record j j') {r : ρ} :
    (j.Synced r ∨ r ∈ j.lost → j'.Synced r ∨ r ∈ j'.lost) ∧
      (r ∈ j.unsynced → r ∈ j'.lost ∨ r ∈ j'.unsynced) := by
  rcases h.unsynced with ⟨hlost, hunsynced, -⟩ | ⟨hlost, -⟩
  · exact ⟨fun hr => hr.imp (h.synced r) (hlost r).mpr, fun hr => .inr (hunsynced r hr)⟩
  · exact ⟨fun hr => hr.imp (h.synced r) fun hin => (hlost r).mpr (.inl hin),
      fun hr => .inl ((hlost r).mpr (.inr hr))⟩

end JournalFiles

/-! ### Runs -/

abbrev ContainerQueue (ρ : Type) := JobQueue (JournalFiles ρ) ρ

abbrev ContainerAction (ρ : Type) := Action ρ (List ρ × ρ) (FlushStep ρ)

section

variable (encode : ρ → Bytes) (config : JournalConfig)

/-- `JournalImpl` with its executor. -/
def containerStep : ContainerQueue ρ → ContainerAction ρ → Option (ContainerQueue ρ) :=
  JobQueue.step (JournalFiles.store encode config) executeForContainer

/-- A step of the queue leaves no file with records that are not synced. -/
def LeavesSynced (q : ContainerQueue ρ) : ContainerAction ρ → Prop
  | .exec _ => ∀ record todo, q.thread = .execute (.write record :: todo) →
      q.store.LeavesSynced encode config record
  | .other (.write _ _ record) => q.store.LeavesSynced encode config record
  | _ => True

variable {encode config} {q q' : ContainerQueue ρ}

/-- The records are where they were. -/
structure SameRecords (j j' : JournalFiles ρ) : Prop where
  writer : j'.writer = j.writer
  synced : j'.synced = j.synced
  left : j'.left = j.left
  removed : j'.removed = j.removed

theorem SameRecords.seen {j j' : JournalFiles ρ} (h : SameRecords j j') (r : ρ) :
    (j'.Synced r ↔ j.Synced r) ∧ j'.lost = j.lost ∧ j'.unsynced = j.unsynced := by
  refine ⟨?_, ?_, ?_⟩
  · simp only [JournalFiles.Synced, JournalFiles.durable, JournalFiles.gone, h.writer, h.synced,
      h.left, h.removed]
  · simp only [JournalFiles.lost, h.left, h.removed]
  · simp only [JournalFiles.unsynced, h.writer, h.synced]

/-- Where the records are that the executor has written, and those that it has synced. -/
structure Placed (q : ContainerQueue ρ) : Prop where
  le : q.store.synced ≤ q.store.writer.file.length
  written : ∀ r, .write r ∈ q.effects →
    (q.store.Synced r ∨ r ∈ q.store.lost) ∨ r ∈ q.store.unsynced
  flushed : ∀ a b r, q.effects = a ++ .fsync :: b → .write r ∈ a →
    q.store.Synced r ∨ r ∈ q.store.lost

theorem Placed.write (h : Placed q) {record : ρ}
    (hwrite : JournalFiles.WriteEffect encode config record q.store q'.store)
    (heffects : q'.effects = q.effects ∨ q'.effects = q.effects ++ [.write record]) :
    Placed q' := by
  have hseen := fun r => JournalFiles.WriteEffect.seen encode config hwrite (r := r)
  refine ⟨hwrite.le, fun r hr => ?_, fun a b r hsplit hr => ?_⟩
  · have hcases : .write r ∈ q.effects ∨ r = record := by
      rcases heffects with heq | heq
      · exact .inl (heq ▸ hr)
      · rw [heq] at hr
        simpa using hr
    rcases hcases with hold | rfl
    · rcases h.written r hold with hsafe | hopen
      · exact .inl ((hseen r).1 hsafe)
      · rcases (hseen r).2 hopen with hlost | hopen
        · exact .inl (.inr hlost)
        · exact .inr hopen
    · exact .inr hwrite.new
  · apply (hseen r).1
    rcases heffects with heq | heq
    · exact h.flushed a b r (heq ▸ hsplit) hr
    · rcases append_singleton_eq (heq ▸ hsplit) with ⟨-, hlast⟩ | ⟨more, hfront⟩
      · cases hlast
      · exact h.flushed a more r hfront hr

theorem Placed.frame (h : Placed q) {e : Effect ρ} (hwrite : ∀ r, e ≠ .write r)
    (hfsync : e ≠ .fsync)
    (heffects : q'.effects = q.effects ++ [e]) (hsame : SameRecords q.store q'.store) :
    Placed q' := by
  refine ⟨by rw [hsame.synced, hsame.writer]; exact h.le, fun r hr => ?_, fun a b r hsplit hr => ?_⟩
  · obtain ⟨hsynced, hlost, hunsynced⟩ := hsame.seen r
    rw [hsynced, hlost, hunsynced]
    rw [heffects] at hr
    rcases List.mem_append.mp hr with hold | hnew
    · exact h.written r hold
    · exact absurd (List.mem_singleton.mp hnew).symm (hwrite r)
  · obtain ⟨hsynced, hlost, -⟩ := hsame.seen r
    rw [hsynced, hlost]
    rcases append_singleton_eq (heffects ▸ hsplit) with ⟨-, hlast⟩ | ⟨more, hfront⟩
    · exact absurd hlast hfsync
    · exact h.flushed a more r hfront hr

theorem Placed.fsync (h : Placed q)
    (hstore : q'.store = { q.store with synced := q.store.writer.file.length })
    (heffects : q'.effects = q.effects ++ [.fsync]) : Placed q' := by
  have hsafe : ∀ r, (q.store.Synced r ∨ r ∈ q.store.lost) ∨ r ∈ q.store.unsynced →
      q'.store.Synced r ∨ r ∈ q'.store.lost := by
    intro r hr
    rw [hstore]
    rcases hr with (hsynced | hlost) | hopen
    · exact .inl (JournalFiles.synced_of_fsync (.inl hsynced))
    · exact .inr hlost
    · exact .inl (JournalFiles.synced_of_fsync (.inr hopen))
  refine ⟨by rw [hstore], fun r hr => .inl (hsafe r ?_), fun a b r hsplit hr => hsafe r ?_⟩
  · rw [heffects] at hr
    exact h.written r (by simpa using hr)
  · rcases append_singleton_eq (heffects ▸ hsplit) with ⟨rfl, -⟩ | ⟨more, hfront⟩
    · exact h.written r hr
    · exact .inl (h.flushed a more r hfront hr)

theorem Placed.of_same (h : Placed q) (heffects : q'.effects = q.effects)
    (hsame : SameRecords q.store q'.store) : Placed q' := by
  refine ⟨by rw [hsame.synced, hsame.writer]; exact h.le, fun r hr => ?_, fun a b r hsplit hr => ?_⟩
  · obtain ⟨hsynced, hlost, hunsynced⟩ := hsame.seen r
    rw [hsynced, hlost, hunsynced]
    exact h.written r (heffects ▸ hr)
  · obtain ⟨hsynced, hlost, -⟩ := hsame.seen r
    rw [hsynced, hlost]
    exact h.flushed a b r (heffects ▸ hsplit) hr

/-- What a step of the queue does to the files: nothing, a write, a sync, or something that leaves
the records where they are. -/
inductive StepCase (encode : ρ → Bytes) (config : JournalConfig) (q q' : ContainerQueue ρ)
    (leaves : Prop) : Prop where
  | same (heffects : q'.effects = q.effects) (hsame : SameRecords q.store q'.store)
      (hleaves : leaves)
  | effect (e : Effect ρ) (hwrite : ∀ r, e ≠ .write r) (hfsync : e ≠ .fsync)
      (heffects : q'.effects = q.effects ++ [e]) (hsame : SameRecords q.store q'.store)
      (hleaves : leaves)
  | write (snapshot : List ρ) (checkpoint record : ρ)
      (hstore : q'.store = q.store.write encode config snapshot checkpoint record)
      (heffects : q'.effects = q.effects ∨ q'.effects = q.effects ++ [.write record])
      (hleaves : leaves ↔ q.store.LeavesSynced encode config record)
  | fsync (hstore : q'.store = { q.store with synced := q.store.writer.file.length })
      (heffects : q'.effects = q.effects ++ [.fsync]) (hleaves : leaves)

theorem leavesSynced_exec {input : List ρ × ρ}
    (h : ∀ record todo, q.thread ≠ .execute (.write record :: todo)) :
    LeavesSynced encode config q (.exec input) := fun record todo hthread =>
  absurd hthread (h record todo)

theorem step_case {a : ContainerAction ρ} (ha : containerStep encode config q a = some q') :
    StepCase encode config q q' (LeavesSynced encode config q a) := by
  by_cases hexec : ∃ input, a = .exec input
  · obtain ⟨input, rfl⟩ := hexec
    rcases JobQueue.exec_cases ha with ⟨thread, rfl, -, htodo⟩ | ⟨hthread, -, rfl⟩ |
      ⟨e, todo, hthread, rfl⟩
    · refine .same rfl ⟨rfl, rfl, rfl, rfl⟩ (leavesSynced_exec fun record todo h => ?_)
      rw [h] at htodo
      cases htodo
    · refine .same rfl ⟨rfl, rfl, rfl, rfl⟩ (leavesSynced_exec fun record todo h => ?_)
      rw [h] at hthread
      cases hthread
    · have hleaves : (∀ r, e ≠ .write r) → LeavesSynced encode config q (.exec input) := by
        intro hwrite
        refine leavesSynced_exec fun record todo' h => ?_
        rw [h] at hthread
        cases hthread
        exact hwrite record rfl
      cases e with
      | write record =>
          refine .write input.1 input.2 record rfl (.inr rfl) ⟨fun h => h record todo hthread, ?_⟩
          intro h record' todo' hthread'
          rw [hthread] at hthread'
          cases hthread'
          exact h
      | fsync => exact .fsync rfl rfl (hleaves (by simp))
      | setSyncOffset =>
          exact .effect .setSyncOffset (by simp) (by simp) rfl ⟨rfl, rfl, rfl, rfl⟩
            (hleaves (by simp))
      | addEntries records =>
          exact .effect (.addEntries records) (by simp) (by simp) rfl ⟨rfl, rfl, rfl, rfl⟩
            (hleaves (by simp))
      | success record =>
          exact .effect (.success record) (by simp) (by simp) rfl ⟨rfl, rfl, rfl, rfl⟩
            (hleaves (by simp))
  · obtain ⟨heffects, -, -, ⟨hother, hstore⟩ | ⟨o, rfl, hstore⟩⟩ :=
      JobQueue.step_frame ha fun input hin => hexec ⟨input, hin⟩
    · refine .same heffects (by rw [hstore]; exact ⟨rfl, rfl, rfl, rfl⟩) ?_
      cases a with
      | exec input => exact absurd ⟨input, rfl⟩ hexec
      | other o => exact absurd rfl (hother o)
      | _ => trivial
    · cases o with
      | write snapshot checkpoint record =>
          exact .write snapshot checkpoint record hstore (.inl heffects) Iff.rfl
      | setLastCommitOffset offset =>
          exact .same heffects (by rw [hstore]; exact ⟨rfl, rfl, rfl, rfl⟩) trivial

theorem Placed.step (h : Placed q) {a : ContainerAction ρ}
    (ha : containerStep encode config q a = some q') : Placed q' := by
  cases step_case ha with
  | same heffects hsame hleaves => exact h.of_same heffects hsame
  | effect e hwrite hfsync heffects hsame hleaves => exact h.frame hwrite hfsync heffects hsame
  | write snapshot checkpoint record hstore heffects hleaves =>
      have hwrite : JournalFiles.WriteEffect encode config record q.store q'.store := by
        rw [hstore]
        exact JournalFiles.write_effect encode config h.le snapshot checkpoint record
      exact h.write hwrite heffects
  | fsync hstore heffects hleaves => exact h.fsync hstore heffects

/-- A step loses records exactly if it leaves a file with records that are not synced, and gets none
back. -/
theorem lost_step (h : Placed q) {a : ContainerAction ρ}
    (ha : containerStep encode config q a = some q') :
    (LeavesSynced encode config q a → ∀ r, r ∈ q'.store.lost ↔ r ∈ q.store.lost) ∧
      (¬ LeavesSynced encode config q a → q'.store.lost ≠ []) ∧
      (q'.store.lost = [] → q.store.lost = []) := by
  have hsame : LeavesSynced encode config q a → q'.store.lost = q.store.lost →
      (LeavesSynced encode config q a → ∀ r, r ∈ q'.store.lost ↔ r ∈ q.store.lost) ∧
        (¬ LeavesSynced encode config q a → q'.store.lost ≠ []) ∧
        (q'.store.lost = [] → q.store.lost = []) := by
    intro hleaves hlost
    rw [hlost]
    exact ⟨fun _ _ => Iff.rfl, fun hnot => absurd hleaves hnot, id⟩
  cases step_case ha with
  | same heffects hrecords hleaves =>
      refine hsame hleaves ?_
      simp only [JournalFiles.lost, hrecords.left, hrecords.removed]
  | effect e hwrite hfsync heffects hrecords hleaves =>
      refine hsame hleaves ?_
      simp only [JournalFiles.lost, hrecords.left, hrecords.removed]
  | fsync hstore heffects hleaves => exact hsame hleaves (by rw [hstore]; rfl)
  | write snapshot checkpoint record hstore heffects hleaves =>
      have hwrite := JournalFiles.write_effect encode config h.le snapshot checkpoint record
      rw [← hstore] at hwrite
      rw [hleaves]
      rcases hwrite.unsynced with ⟨hlost, -, hsynced⟩ | ⟨hlost, hiff⟩
      · refine ⟨fun _ => hlost, fun hnot => absurd hsynced hnot, fun hnil => ?_⟩
        exact List.eq_nil_iff_forall_not_mem.mpr fun r hr => by
          have := (hlost r).mpr hr
          simp [hnil] at this
      · refine ⟨fun hleft r => ?_, fun hnot hnil => ?_, fun hnil => ?_⟩
        · rw [hlost r, hiff.mp hleft]
          simp
        · refine hnot (hiff.mpr (List.eq_nil_iff_forall_not_mem.mpr fun r hr => ?_))
          have := (hlost r).mpr (.inr hr)
          simp [hnil] at this
        · refine List.eq_nil_iff_forall_not_mem.mpr fun r hr => ?_
          have := (hlost r).mpr (.inl hr)
          simp [hnil] at this

theorem lost_run (h : Placed q) {actions : List (ContainerAction ρ)}
    (hrun : run (containerStep encode config) q actions = some q') (hnil : q.store.lost = []) :
    q'.store.lost = [] ↔
      Along (containerStep encode config) (LeavesSynced encode config) q actions := by
  induction actions generalizing q with
  | nil =>
      cases hrun
      exact iff_of_true hnil trivial
  | cons a actions ih =>
      obtain ⟨p, hstep, hrest⟩ := Option.bind_eq_some_iff.mp hrun
      obtain ⟨hkeep, hlose, -⟩ := lost_step h hstep
      by_cases hleaves : LeavesSynced encode config q a
      · have hnone : p.store.lost = [] := List.eq_nil_iff_forall_not_mem.mpr fun r hr => by
          have := (hkeep hleaves r).mp hr
          simp [hnil] at this
        rw [ih (h.step hstep) hrest hnone]
        refine ⟨fun hall => ⟨hleaves, fun p' hp' => ?_⟩, fun hall => hall.2 p hstep⟩
        cases hstep.symm.trans hp'
        exact hall
      · refine iff_of_false (fun hlast => ?_) fun hall => hleaves hall.1
        apply hlose hleaves
        suffices hback : Placed q' ∧ (q'.store.lost = [] → p.store.lost = []) from hback.2 hlast
        refine run_preserves (I := fun q' => Placed q' ∧ (q'.store.lost = [] → p.store.lost = []))
          _ ?_ ⟨h.step hstep, id⟩ hrest
        intro s b s' hs hb
        exact ⟨hs.1.step hb, fun hs' => hs.2 ((lost_step hs.1 hb).2.2 hs')⟩

/-! ### Removed files -/

/-- A file was only removed while the last commit offset, which is one of these, was in a later
one. -/
structure RemovedOld (offsets : JournalOffset → Prop) (j : JournalFiles ρ) : Prop where
  last : offsets j.lastCommitOffset
  removed : ∀ e ∈ j.removed, offsets e.2 ∧ e.1.id < (ofLex e.2).1

theorem RemovedOld.write {offsets : JournalOffset → Prop} {j : JournalFiles ρ}
    (h : RemovedOld offsets j) (snapshot : List ρ) (checkpoint record : ρ) :
    RemovedOld offsets (j.write encode config snapshot checkpoint record) := by
  have happend : (j.append encode config snapshot checkpoint record).lastCommitOffset =
        j.lastCommitOffset ∧
      (j.append encode config snapshot checkpoint record).removed = j.removed := by
    unfold JournalFiles.append
    split
    · exact ⟨rfl, rfl⟩
    · split <;> exact ⟨rfl, rfl⟩
  unfold JournalFiles.write
  generalize j.append encode config snapshot checkpoint record = j' at happend ⊢
  have hold : RemovedOld offsets j' :=
    ⟨happend.1 ▸ h.last, fun e he => h.removed e (happend.2 ▸ he)⟩
  split
  · refine ⟨hold.last, fun e he => ?_⟩
    rcases List.mem_append.mp he with he | he
    · exact hold.removed e he
    · obtain ⟨f, hf, rfl⟩ := List.mem_map.mp he
      have hisOld := (List.mem_filter.mp hf).2
      simp only [JournalFiles.isOld, Bool.and_eq_true, decide_eq_true_eq] at hisOld
      exact ⟨hold.last, hisOld.2⟩
  · exact hold

theorem RemovedOld.step {offsets : JournalOffset → Prop} (h : RemovedOld offsets q.store)
    {a : ContainerAction ρ} (hset : ∀ offset, a = .other (.setLastCommitOffset offset) →
      offsets offset) (ha : containerStep encode config q a = some q') :
    RemovedOld offsets q'.store := by
  by_cases hexec : ∃ input, a = .exec input
  · obtain ⟨input, rfl⟩ := hexec
    rcases JobQueue.exec_cases ha with ⟨thread, rfl, -, -⟩ | ⟨-, -, rfl⟩ | ⟨e, todo, -, rfl⟩
    · exact h
    · exact h
    · cases e with
      | write record => exact h.write input.1 input.2 record
      | _ => exact ⟨h.last, h.removed⟩
  · obtain ⟨-, -, -, ⟨-, hstore⟩ | ⟨o, rfl, hstore⟩⟩ :=
      JobQueue.step_frame ha fun input hin => hexec ⟨input, hin⟩
    · rw [hstore]
      exact h
    · rw [hstore]
      cases o with
      | write snapshot checkpoint record => exact h.write snapshot checkpoint record
      | setLastCommitOffset offset => exact ⟨hset offset rfl, h.removed⟩

/-- Whatever the order of the steps of the requests, the executor and the flush threads: an
acknowledged record is on disk, or was synced in a file that has been removed, or is among the
records of files that were left without a sync. There are such lost records exactly if some write
has left a file with records that were not synced, and files are removed only when the last commit
offset is in a later one. -/
theorem acknowledged_durable (encode : ρ → Bytes) (config : JournalConfig) (j : JournalFiles ρ)
    (hsynced : j.synced ≤ j.writer.file.length) (hlost : j.lost = []) (hremoved : j.removed = [])
    (actions : List (ContainerAction ρ)) (q : ContainerQueue ρ)
    (hrun : run (containerStep encode config) (.init j) actions = some q) :
    (∀ record, .success record ∈ q.effects → record ∈ q.store.durable ∨ record ∈ q.store.gone ∨
      record ∈ q.store.lost) ∧
    (q.store.lost = [] ↔
      Along (containerStep encode config) (LeavesSynced encode config) (.init j) actions) ∧
    ∀ e ∈ q.store.removed, e.1.id < (ofLex e.2).1 ∧
      (e.2 = j.lastCommitOffset ∨ .other (.setLastCommitOffset e.2) ∈ actions) := by
  have hinit : Placed (.init j : ContainerQueue ρ) :=
    ⟨hsynced, by simp [JobQueue.init], by simp [JobQueue.init]⟩
  have hplaced : Placed q := run_preserves _ (fun _ _ _ hs ha => hs.step ha) hinit hrun
  refine ⟨fun record hin => ?_, lost_run hinit hrun hlost, fun e he => ?_⟩
  · obtain ⟨front, back, hsplit⟩ := List.append_of_mem hin
    obtain ⟨a, b, records, c, hfront, hwrite, -⟩ :=
      preceded_batched ((JobQueue.Batched.init j).run hrun) front (.success record) back hsplit
    have hflushed : q.effects =
        a ++ .fsync :: (b ++ .addEntries records :: (c ++ .success record :: back)) := by
      rw [hsplit, hfront]
      simp
    exact or_assoc.mp (hplaced.flushed a _ record hflushed hwrite)
  · let offsets : JournalOffset → Prop := fun offset =>
      offset = j.lastCommitOffset ∨ .other (.setLastCommitOffset offset) ∈ actions
    have hset : Along (containerStep encode config) (fun _ a => ∀ offset,
        a = .other (.setLastCommitOffset offset) → offsets offset) (.init j) actions :=
      along_of_forall _ (fun a ha _ offset heq => .inr (heq ▸ ha)) _
    have hold : RemovedOld offsets q.store := run_along_preserves _
      (I := fun q : ContainerQueue ρ => RemovedOld offsets q.store)
      (fun _ _ _ h hset ha => h.step hset ha)
      ⟨.inl rfl, by simp [JobQueue.init, hremoved]⟩ hset hrun
    obtain ⟨hoffset, hlt⟩ := hold.removed e he
    exact ⟨hlt, hoffset⟩

/-- A journal whose files have room for one record of seventeen bytes. -/
def smallJournal : JournalFiles Nat where
  writer := .openFile ⟨100, 20⟩ 1
  synced := 0
  left := []
  removed := []
  oldestFileId := 1
  lastCommitOffset := toLex (1, 0)
  lastSyncOffset := toLex (1, 0)
  prevOff := toLex (1, 0)
  ranges := []

/-- A batch of two jobs, of which the first one was left without a sync, and two more batches. The
file of the second job is removed. -/
def smallActions : List (ContainerAction Nat) :=
  [Action.push [⟨1, true, true⟩, ⟨2, true, true⟩]] ++ List.replicate 10 (Action.exec ([], 0)) ++
    [Action.push [⟨3, true, true⟩]] ++ List.replicate 7 (Action.exec ([], 0)) ++
    [Action.other (FlushStep.setLastCommitOffset (toLex (3, 0))),
      Action.push [⟨4, true, true⟩]] ++
    List.replicate 8 (Action.exec ([], 0))

theorem acknowledged_durable_small :
    ∃ q, run (containerStep (fun n => [UInt8.ofNat n]) ⟨100, 20⟩) (.init smallJournal)
        smallActions = some q ∧
      [.success 1, .success 2, .success 3, .success 4] ⊆ q.effects ∧ q.store.lost = [1] ∧
      q.store.gone = [2] ∧ q.store.durable = [3, 4] ∧
      (∀ record, .success record ∈ q.effects → record ∈ q.store.durable ∨
        record ∈ q.store.gone ∨ record ∈ q.store.lost) ∧
      ∀ e ∈ q.store.removed, e.1.id < (ofLex e.2).1 := by
  obtain ⟨q, hrun, hsuccess, hlost, hgone, hdurable⟩ :
      ∃ q, run (containerStep (fun n => [UInt8.ofNat n]) ⟨100, 20⟩) (.init smallJournal)
        smallActions = some q ∧
      [.success 1, .success 2, .success 3, .success 4] ⊆ q.effects ∧ q.store.lost = [1] ∧
      q.store.gone = [2] ∧ q.store.durable = [3, 4] := by
    decide +kernel
  obtain ⟨hplaced, -, hold⟩ :=
    acknowledged_durable _ _ smallJournal (by decide) rfl rfl smallActions q hrun
  exact ⟨q, hrun, hsuccess, hlost, hgone, hdurable, hplaced, fun e he => (hold e he).1⟩

end

end ObjectStorage.Jobs
