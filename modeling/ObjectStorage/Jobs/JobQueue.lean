import Mathlib
import ObjectStorage.Library.Transition

/-!
The job queue between the threads that serve requests and the thread that writes the journal. Any
number of threads push jobs, one executor takes all waiting jobs as a batch, and the destructor
stops the executor.
-/

namespace ObjectStorage.Jobs

open Library

/-! ### Batches -/

/-- A `WriteJob`, and whether its success function is set. -/
structure Job (ρ : Type) where
  record : ρ
  memoryFlag : Bool
  success : Bool
deriving DecidableEq

/-- What the executor does outside of the queue. -/
inductive Effect (ρ : Type) where
  | write (record : ρ)
  /-- `JournalWriteHandler::sync` sets its offset first. -/
  | setSyncOffset
  /-- It then syncs its file. -/
  | fsync
  | addEntries (records : List (Bool × List ρ))
  | success (record : ρ)
deriving DecidableEq

section

variable {ρ : Type}

def writes (tasks : List (Job ρ)) : List (Effect ρ) := tasks.map fun job => .write job.record

def callbacks (tasks : List (Job ρ)) : List (Effect ρ) :=
  (tasks.filter (·.success)).map fun job => .success job.record

/-- `BatchJob::execute_for_transaction`, and `BatchJob::execute` of the global leader. -/
def executeForTransaction (tasks : List (Job ρ)) : List (Effect ρ) :=
  writes tasks ++ [.setSyncOffset, .fsync] ++ callbacks tasks

/-- The records of one memory flag, if there are any. -/
def recordsOf (memoryFlag : Bool) (tasks : List (Job ρ)) : List (Bool × List ρ) :=
  let records := (tasks.filter (·.memoryFlag = memoryFlag)).map (·.record)
  if 0 < records.length then [(memoryFlag, records)] else []

/-- `BatchJob::execute_for_container`. -/
def executeForContainer (tasks : List (Job ρ)) : List (Effect ρ) :=
  writes tasks ++
    [.setSyncOffset, .fsync, .addEntries (recordsOf true tasks ++ recordsOf false tasks)] ++
    callbacks tasks

end

/-! ### The queue and its threads -/

/-- Where the executor is. -/
inductive Thread (ρ : Type) where
  /-- It is about to call `get_job`. -/
  | lock
  /-- It holds the mutex, in front of the condition of the loop. -/
  | test
  /-- It holds the mutex, and the condition told it to wait. -/
  | wait
  /-- It sleeps on the condition variable. -/
  | waiting
  /-- It has been woken up and is to lock the mutex again. -/
  | woken
  /-- It executes a batch. -/
  | execute (todo : List (Effect ρ))
  | ended
deriving DecidableEq

/-- What the effects act on, with an input for what the code reads elsewhere, and what other threads
do to it. -/
structure Store (σ ρ ι ο : Type) where
  apply : σ → Effect ρ → ι → σ
  other : σ → ο → σ

/-- A `JobQueueMgr` with its executor. `notifying` holds in `stop_queue` after it has set `stop`. -/
structure JobQueue (σ ρ : Type) where
  tasks : List (Job ρ)
  stop : Bool
  notifying : Bool
  thread : Thread ρ
  effects : List (Effect ρ)
  store : σ
deriving DecidableEq

inductive Action (ρ ι ο : Type) where
  /-- `push_job`, which holds the mutex. -/
  | push (jobs : List (Job ρ))
  /-- The first statement of `stop_queue`, which the destructor calls without the mutex. -/
  | setStop
  /-- Its second statement. -/
  | notifyStop
  /-- The next step of the executor. -/
  | exec (input : ι)
  /-- The executor wakes up without a notification. -/
  | spurious
  | other (o : ο)

def Thread.notified {ρ : Type} : Thread ρ → Thread ρ
  | .waiting => .woken
  | thread => thread

def Thread.hasMutex {ρ : Type} : Thread ρ → Bool
  | .test | .wait => true
  | _ => false

def Thread.todo {ρ : Type} : Thread ρ → List (Effect ρ)
  | .execute todo => todo
  | _ => []

namespace JobQueue

variable {σ ρ ι ο : Type} (store : Store σ ρ ι ο) (batch : List (Job ρ) → List (Effect ρ))

def init (s : σ) : JobQueue σ ρ := ⟨[], false, false, .lock, [], s⟩

/-- The executor's loop around `get_job`. It cannot go on while it sleeps, and after its end. -/
def exec (q : JobQueue σ ρ) (input : ι) : Option (JobQueue σ ρ) :=
  match q.thread with
  | .lock => some { q with thread := .test }
  | .test =>
      if q.tasks = [] then some { q with thread := if q.stop then .ended else .wait }
      else some { q with thread := .execute (batch q.tasks), tasks := [] }
  | .wait => some { q with thread := .waiting }
  | .waiting => none
  | .woken => some { q with thread := .test }
  | .execute [] => some { q with thread := .lock }
  | .execute (e :: todo) => some { q with
      thread := .execute todo
      effects := q.effects ++ [e]
      store := store.apply q.store e input }
  | .ended => none

def step (q : JobQueue σ ρ) : Action ρ ι ο → Option (JobQueue σ ρ)
  | .push jobs =>
      if q.thread.hasMutex then none
      else some { q with tasks := q.tasks ++ jobs, thread := q.thread.notified }
  | .setStop => if q.stop then none else some { q with stop := true, notifying := true }
  | .notifyStop =>
      if q.notifying then some { q with notifying := false, thread := q.thread.notified } else none
  | .exec input => q.exec store batch input
  | .spurious =>
      match q.thread with
      | .waiting => some { q with thread := .woken }
      | _ => none
  | .other o => some { q with store := store.other q.store o }

/-- The jobs pushed in a run, in the order in which the pushes got the mutex. -/
def pushed (actions : List (Action ρ ι ο)) : List (Job ρ) :=
  actions.flatMap fun
    | .push jobs => jobs
    | _ => []

/-! ### What a step does -/

variable {store batch} {q q' : JobQueue σ ρ}

@[simp] theorem todo_notified (thread : Thread ρ) : thread.notified.todo = thread.todo := by
  cases thread <;> rfl

/-- The executor goes on without touching the queue, takes the batch, or has one effect. -/
theorem exec_cases {input : ι} (h : q.exec store batch input = some q') :
    (∃ thread, q' = { q with thread := thread } ∧ thread.todo = [] ∧ q.thread.todo = []) ∨
    (q.thread = .test ∧ q.tasks ≠ [] ∧
      q' = { q with thread := .execute (batch q.tasks), tasks := [] }) ∨
    ∃ e todo, q.thread = .execute (e :: todo) ∧
      q' = { q with
        thread := .execute todo
        effects := q.effects ++ [e]
        store := store.apply q.store e input } := by
  unfold exec at h
  split at h
  · rename_i hthread
    exact .inl ⟨.test, (Option.some.inj h).symm, rfl, by rw [hthread]; rfl⟩
  · rename_i hthread
    split at h
    · refine .inl ⟨_, (Option.some.inj h).symm, ?_, by rw [hthread]; rfl⟩
      cases q.stop <;> rfl
    · rename_i htasks
      exact .inr (.inl ⟨hthread, htasks, (Option.some.inj h).symm⟩)
  · rename_i hthread
    exact .inl ⟨.waiting, (Option.some.inj h).symm, rfl, by rw [hthread]; rfl⟩
  · cases h
  · rename_i hthread
    exact .inl ⟨.test, (Option.some.inj h).symm, rfl, by rw [hthread]; rfl⟩
  · rename_i hthread
    exact .inl ⟨.lock, (Option.some.inj h).symm, rfl, by rw [hthread]; rfl⟩
  · rename_i e todo hthread
    exact .inr (.inr ⟨e, todo, hthread, (Option.some.inj h).symm⟩)
  · cases h

theorem step_frame {a : Action ρ ι ο} (h : q.step store batch a = some q')
    (ha : ∀ input, a ≠ .exec input) :
    q'.effects = q.effects ∧ q'.thread.todo = q.thread.todo ∧ q'.tasks = q.tasks ++ pushed [a] ∧
      (((∀ o, a ≠ .other o) ∧ q'.store = q.store) ∨
        ∃ o, a = .other o ∧ q'.store = store.other q.store o) := by
  cases a with
  | push jobs =>
      simp only [step] at h
      split at h
      · cases h
      · cases h
        simp [pushed]
  | setStop =>
      simp only [step] at h
      split at h
      · cases h
      · cases h
        simp [pushed]
  | notifyStop =>
      simp only [step] at h
      split at h
      · cases h
        simp [pushed]
      · cases h
  | exec input => exact absurd rfl (ha input)
  | spurious =>
      simp only [step] at h
      split at h
      · rename_i hthread
        cases h
        simp [pushed, hthread, Thread.todo]
      · cases h
  | other o =>
      cases h
      simp [pushed]

/-! ### Batches one after the other -/

/-- The jobs pushed so far have been taken in batches, but for those in the queue, and the effects
are those of the batches, but for those that the executor still has to do. -/
def Batched (batch : List (Job ρ) → List (Effect ρ)) (jobs : List (Job ρ)) (q : JobQueue σ ρ) :
    Prop :=
  ∃ batches : List (List (Job ρ)), (∀ b ∈ batches, b ≠ []) ∧
    jobs = batches.flatten ++ q.tasks ∧ q.effects ++ q.thread.todo = batches.flatMap batch

theorem Batched.step {jobs : List (Job ρ)} (h : Batched batch jobs q) {a : Action ρ ι ο}
    (ha : q.step store batch a = some q') : Batched batch (jobs ++ pushed [a]) q' := by
  obtain ⟨batches, hne, hjobs, heffects⟩ := h
  by_cases hexec : ∃ input, a = .exec input
  · obtain ⟨input, rfl⟩ := hexec
    have hpushed : pushed [(.exec input : Action ρ ι ο)] = [] := rfl
    rw [hpushed, List.append_nil]
    rcases exec_cases ha with ⟨thread, rfl, hnext, htodo⟩ | ⟨hthread, htasks, rfl⟩ |
      ⟨e, todo, hthread, rfl⟩
    · exact ⟨batches, hne, hjobs, by simpa [hnext, htodo] using heffects⟩
    · refine ⟨batches ++ [q.tasks], ?_, by simp [hjobs], ?_⟩
      · intro b hb
        rcases List.mem_append.mp hb with hold | hnew
        · exact hne b hold
        · rwa [List.mem_singleton.mp hnew]
      · have hnil : q.thread.todo = [] := by rw [hthread]; rfl
        rw [hnil, List.append_nil] at heffects
        simp [Thread.todo, heffects]
    · rw [hthread] at heffects
      exact ⟨batches, hne, hjobs, by simpa [Thread.todo] using heffects⟩
  · obtain ⟨heq, htodo, htasks, -⟩ := step_frame ha fun input h => hexec ⟨input, h⟩
    exact ⟨batches, hne, by rw [hjobs, htasks, List.append_assoc], by rw [heq, htodo, heffects]⟩

theorem Batched.run {jobs : List (Job ρ)} (h : Batched batch jobs q) {actions : List (Action ρ ι ο)}
    (hrun : run (JobQueue.step store batch) q actions = some q') :
    Batched batch (jobs ++ pushed actions) q' := by
  induction actions generalizing q jobs with
  | nil =>
      cases hrun
      simpa [pushed] using h
  | cons a actions ih =>
      obtain ⟨p, hstep, hrest⟩ := Option.bind_eq_some_iff.mp hrun
      have hsplit : pushed (a :: actions) = pushed [a] ++ pushed actions := by
        simp [pushed]
      rw [hsplit, ← List.append_assoc]
      exact ih (h.step hstep) hrest

theorem Batched.init (s : σ) : Batched batch [] (init s : JobQueue σ ρ) := ⟨[], by simp, rfl, rfl⟩

/-- Whatever the order of the steps of all threads, the executor has done the effects of batches one
after the other, up to a point within the last one, and the batches and the queue are the pushed
jobs in their order. -/
theorem run_batched (store : Store σ ρ ι ο) (batch : List (Job ρ) → List (Effect ρ)) (s : σ)
    (actions : List (Action ρ ι ο)) (q : JobQueue σ ρ)
    (h : Library.run (step store batch) (init s) actions = some q) :
    Batched batch (pushed actions) q := by
  simpa using (Batched.init s).run h

/-- Jobs without effects on a store. -/
def plainStore : Store Unit Nat Unit Unit := ⟨fun s _ _ => s, fun s _ => s⟩

/-- A job is pushed while the executor writes the one before. -/
theorem run_batched_two :
    Batched executeForTransaction
      (pushed ([.push [⟨1, true, true⟩], .exec (), .exec (), .push [⟨2, true, false⟩], .exec ()] :
        List (Action Nat Unit Unit)))
      (⟨[⟨2, true, false⟩], false, false, .execute [.setSyncOffset, .fsync, .success 1], [.write 1],
        ()⟩ : JobQueue Unit Nat) :=
  run_batched plainStore executeForTransaction ()
    [.push [⟨1, true, true⟩], .exec (), .exec (), .push [⟨2, true, false⟩], .exec ()] _ rfl

/-! ### Waiting -/

/-- With the mutex or asleep, the executor has no jobs to take. -/
def Attentive (q : JobQueue σ ρ) : Prop :=
  q.thread = .wait ∨ q.thread = .waiting → q.tasks = []

theorem Attentive.step (h : Attentive q) {a : Action ρ ι ο} (ha : q.step store batch a = some q') :
    Attentive q' := by
  cases a with
  | push jobs =>
      simp only [JobQueue.step] at ha
      split at ha
      · cases ha
      · rename_i hmutex
        cases ha
        cases hthread : q.thread <;> simp_all [Attentive, Thread.notified, Thread.hasMutex]
  | setStop =>
      simp only [JobQueue.step] at ha
      split at ha
      · cases ha
      · cases ha
        exact h
  | notifyStop =>
      simp only [JobQueue.step] at ha
      split at ha
      · cases ha
        cases hthread : q.thread <;> simp_all [Attentive, Thread.notified]
      · cases ha
  | exec input =>
      simp only [JobQueue.step, exec] at ha
      cases hthread : q.thread with
      | test =>
          simp only [hthread] at ha
          split at ha
          · rename_i htasks
            cases ha
            exact fun _ => htasks
          · cases ha
            exact fun _ => rfl
      | execute todo =>
          cases todo <;> simp only [hthread] at ha <;> cases ha <;> simp [Attentive]
      | _ => simp_all [Attentive] <;> cases ha <;> simp_all
  | spurious =>
      simp only [JobQueue.step] at ha
      split at ha
      · cases ha
        simp [Attentive]
      · cases ha
  | other o =>
      cases ha
      exact h

end JobQueue

end ObjectStorage.Jobs
