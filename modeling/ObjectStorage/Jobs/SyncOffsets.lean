import ObjectStorage.Jobs.JournalDurability

/-!
The offsets under which the memory manager gets the records of a batch. They are those of the syncs
of the journal, and leave no gap between one batch and the next.
-/

namespace ObjectStorage.Jobs

open Library Journal

variable {ρ : Type}

/-! ### The order of syncs and entries -/

/-- Whether `last_sync_offset` has been set for entries that are still to be added. -/
def offsetPhase : Bool → Effect ρ → Option Bool
  | false, .setSyncOffset => some true
  | true, .setSyncOffset => none
  | true, .addEntries _ => some false
  | false, .addEntries _ => none
  | phase, _ => some phase

theorem run_offsetPhase_writes (phase : Bool) (tasks : List (Job ρ)) :
    run offsetPhase phase (writes tasks) = some phase := by
  induction tasks with
  | nil => rfl
  | cons job tasks ih => cases phase <;> exact ih

theorem run_offsetPhase_callbacks (phase : Bool) (tasks : List (Job ρ)) :
    run offsetPhase phase (callbacks tasks) = some phase := by
  unfold callbacks
  induction tasks.filter (·.success) with
  | nil => rfl
  | cons job tasks ih => cases phase <;> exact ih

/-- A batch sets the offset once, and then adds its entries once. -/
theorem run_offsetPhase_executeForContainer (tasks : List (Job ρ)) :
    run offsetPhase false (executeForContainer tasks) = some false := by
  rw [executeForContainer, run_append, run_append, run_offsetPhase_writes, Option.bind_some]
  exact run_offsetPhase_callbacks false tasks

/-! ### Ranges -/

/-- Ranges that start where the one before ends. -/
def Contiguous (start : JournalOffset) : List (JournalOffset × JournalOffset) → JournalOffset → Prop
  | [], last => last = start
  | range :: ranges, last => range.1 = start ∧ range.1 ≤ range.2 ∧ Contiguous range.2 ranges last

theorem Contiguous.append {start middle last : JournalOffset}
    {ranges : List (JournalOffset × JournalOffset)} (h : Contiguous start ranges middle)
    (hle : middle ≤ last) : Contiguous start (ranges ++ [(middle, last)]) last := by
  induction ranges generalizing start with
  | nil =>
      cases h
      exact ⟨rfl, hle, rfl⟩
  | cons range ranges ih => exact ⟨h.1, h.2.1, ih h.2.2⟩

section

variable {encode : ρ → Bytes} {config : JournalConfig} {start : JournalOffset}

theorem writer_write (j : JournalFiles ρ) (snapshot : List ρ) (checkpoint record : ρ) :
    (j.write encode config snapshot checkpoint record).writer =
      j.writer.write encode config snapshot checkpoint record := by
  have happend : (j.append encode config snapshot checkpoint record).writer =
      j.writer.write encode config snapshot checkpoint record := by
    unfold JournalFiles.append
    split
    · rfl
    · split <;> rfl
  unfold JournalFiles.write
  split <;> exact happend

theorem currentOffset_write (j : JournalFiles ρ) (snapshot : List ρ) (checkpoint record : ρ) :
    j.currentOffset encode ≤
      (j.write encode config snapshot checkpoint record).currentOffset encode := by
  simp only [JournalFiles.currentOffset, writer_write]
  apply Prod.Lex.toLex_le_toLex.mpr
  by_cases hempty : (fileBytes encode j.writer.file).length = 0
  · right
    refine ⟨?_, by rw [hempty]; exact Nat.zero_le _⟩
    simp [JournalWriteHandler.write, JournalWriteHandler.prepareFile, hempty,
      JournalWriteHandler.startFile]
  · by_cases hrotates : j.writer.rotates encode config record
    · left
      simp [JournalWriteHandler.write, JournalWriteHandler.prepareFile, hempty, hrotates,
        JournalWriteHandler.startFile]
    · obtain ⟨extra, hfile, hid⟩ :=
        JournalFiles.write_file encode snapshot checkpoint record hempty hrotates
      right
      refine ⟨hid.symm, ?_⟩
      rw [hfile, fileBytes_append, List.length_append]
      exact Nat.le_add_right _ _

/-- The ranges added so far, with the one of the batch that is executed in `phase`. -/
structure Ranged (encode : ρ → Bytes) (start : JournalOffset) (phase : Bool) (j : JournalFiles ρ) :
    Prop where
  ranges : Contiguous start j.ranges (if phase then j.prevOff else j.lastSyncOffset)
  prev : phase = true → j.prevOff ≤ j.lastSyncOffset
  last : j.lastSyncOffset ≤ j.currentOffset encode

theorem Ranged.write {phase : Bool} {j : JournalFiles ρ} (h : Ranged encode start phase j)
    (snapshot : List ρ) (checkpoint record : ρ) :
    Ranged encode start phase (j.write encode config snapshot checkpoint record) := by
  have hsame : (j.write encode config snapshot checkpoint record).ranges = j.ranges ∧
      (j.write encode config snapshot checkpoint record).prevOff = j.prevOff ∧
      (j.write encode config snapshot checkpoint record).lastSyncOffset = j.lastSyncOffset := by
    unfold JournalFiles.write JournalFiles.append JournalFiles.removeOldFiles
    split_ifs <;> exact ⟨rfl, rfl, rfl⟩
  obtain ⟨hranges, hprev, hlast⟩ := hsame
  refine ⟨by rw [hranges, hprev, hlast]; exact h.ranges, by rw [hprev, hlast]; exact h.prev, ?_⟩
  rw [hlast]
  exact h.last.trans (currentOffset_write j snapshot checkpoint record)

theorem Ranged.apply {phase phase' : Bool} {j : JournalFiles ρ} (h : Ranged encode start phase j)
    {e : Effect ρ} (he : offsetPhase phase e = some phase') (input : List ρ × ρ) :
    Ranged encode start phase' ((JournalFiles.store encode config).apply j e input) := by
  cases e with
  | write record =>
      have hphase : phase' = phase := by cases phase <;> cases he <;> rfl
      rw [hphase]
      exact h.write input.1 input.2 record
  | setSyncOffset =>
      cases phase with
      | true => cases he
      | false =>
          cases he
          exact ⟨h.ranges, fun _ => h.last, le_rfl⟩
  | fsync =>
      have hphase : phase' = phase := by cases phase <;> cases he <;> rfl
      rw [hphase]
      exact ⟨h.ranges, h.prev, h.last⟩
  | addEntries records =>
      cases phase with
      | false => cases he
      | true =>
          cases he
          refine ⟨Contiguous.append h.ranges (h.prev rfl), ?_, h.last⟩
          intro hfalse
          cases hfalse
  | success record =>
      have hphase : phase' = phase := by cases phase <;> cases he <;> rfl
      rw [hphase]
      exact h

/-- The executor is in a phase that the rest of its batch brings to an end. -/
def InPhase (encode : ρ → Bytes) (start : JournalOffset) (q : ContainerQueue ρ) : Prop :=
  ∃ phase, run offsetPhase phase q.thread.todo = some false ∧ Ranged encode start phase q.store

theorem InPhase.step {q q' : ContainerQueue ρ} (h : InPhase encode start q) {a : ContainerAction ρ}
    (ha : containerStep encode config q a = some q') : InPhase encode start q' := by
  obtain ⟨phase, hphase, hranged⟩ := h
  by_cases hexec : ∃ input, a = .exec input
  · obtain ⟨input, rfl⟩ := hexec
    rcases JobQueue.exec_cases ha with ⟨thread, rfl, hnext, htodo⟩ | ⟨hthread, -, rfl⟩ |
      ⟨e, todo, hthread, rfl⟩
    · exact ⟨phase, by rw [hnext, ← htodo]; exact hphase, hranged⟩
    · rw [hthread] at hphase
      cases hphase
      exact ⟨false, run_offsetPhase_executeForContainer q.tasks, hranged⟩
    · rw [hthread] at hphase
      obtain ⟨phase', he, hrest⟩ := Option.bind_eq_some_iff.mp hphase
      exact ⟨phase', hrest, hranged.apply he input⟩
  · obtain ⟨-, htodo, -, ⟨-, hstore⟩ | ⟨o, -, hstore⟩⟩ :=
      JobQueue.step_frame ha fun input hin => hexec ⟨input, hin⟩
    · exact ⟨phase, by rw [htodo]; exact hphase, by rw [hstore]; exact hranged⟩
    · refine ⟨phase, by rw [htodo]; exact hphase, ?_⟩
      rw [hstore]
      cases o with
      | write snapshot checkpoint record => exact hranged.write snapshot checkpoint record
      | setLastCommitOffset offset => exact ⟨hranged.ranges, hranged.prev, hranged.last⟩

/-- In every run the ranges of offsets that `add_entries` gets start at the first sync offset,
follow one another without a gap and without going back, and end within the journal. -/
theorem ranges_contiguous (encode : ρ → Bytes) (config : JournalConfig) (j : JournalFiles ρ)
    (hranges : j.ranges = []) (hlast : j.lastSyncOffset ≤ j.currentOffset encode)
    (actions : List (ContainerAction ρ)) (q : ContainerQueue ρ)
    (hrun : run (containerStep encode config) (.init j) actions = some q) :
    ∃ last, Contiguous j.lastSyncOffset q.store.ranges last ∧
      last ≤ q.store.currentOffset encode := by
  have hinit : InPhase encode j.lastSyncOffset (.init j : ContainerQueue ρ) := by
    refine ⟨false, rfl, ?_, ?_, hlast⟩
    · show Contiguous j.lastSyncOffset j.ranges j.lastSyncOffset
      rw [hranges]
      rfl
    · intro hfalse
      cases hfalse
  obtain ⟨phase, -, hranged⟩ := run_preserves _ (fun _ _ _ hs ha => hs.step ha) hinit hrun
  refine ⟨_, hranged.ranges, ?_⟩
  cases hphase : phase with
  | true => exact (hranged.prev hphase).trans hranged.last
  | false => exact hranged.last

/-- Three batches over four files, the first of which is left within its batch. -/
theorem ranges_contiguous_small :
    ∃ q, run (containerStep (fun n => [UInt8.ofNat n]) ⟨100, 20⟩) (.init smallJournal)
        smallActions = some q ∧
      q.store.ranges = [(toLex (1, 0), toLex (2, 17)), (toLex (2, 17), toLex (3, 17)),
        (toLex (3, 17), toLex (4, 17))] ∧
      ∃ last, Contiguous smallJournal.lastSyncOffset q.store.ranges last ∧
        last ≤ q.store.currentOffset fun n => [UInt8.ofNat n] := by
  obtain ⟨q, hrun, hranges⟩ : ∃ q,
      run (containerStep (fun n => [UInt8.ofNat n]) ⟨100, 20⟩) (.init smallJournal)
        smallActions = some q ∧
      q.store.ranges = [(toLex (1, 0), toLex (2, 17)), (toLex (2, 17), toLex (3, 17)),
        (toLex (3, 17), toLex (4, 17))] := ⟨_, rfl, by decide +kernel⟩
  exact ⟨q, hrun, hranges,
    ranges_contiguous _ ⟨100, 20⟩ smallJournal rfl (by decide) smallActions q hrun⟩

end

end ObjectStorage.Jobs
