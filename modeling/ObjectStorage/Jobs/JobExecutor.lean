import ObjectStorage.Jobs.JobQueue

/-!
The executor of a job queue gets to every job that is pushed, and comes to its end when it is
stopped, unless it is told so between its look at the queue and its sleep.
-/

namespace ObjectStorage.Jobs.JobQueue

open Library

variable {σ ρ ι ο : Type} {store : Store σ ρ ι ο} {batch : List (Job ρ) → List (Effect ρ)}
  {q q' q'' : JobQueue σ ρ}

/-! ### The executor alone -/

/-- The executor comes from one state to the other while no other thread does anything. -/
def Continues (store : Store σ ρ ι ο) (batch : List (Job ρ) → List (Effect ρ)) (input : ι)
    (q q' : JobQueue σ ρ) : Prop :=
  ∃ n : Nat, run (step store batch) q (List.replicate n (.exec input)) = some q'

variable {input : ι}

theorem Continues.refl (q : JobQueue σ ρ) : Continues store batch input q q := ⟨0, rfl⟩

theorem Continues.trans (h : Continues store batch input q q')
    (h' : Continues store batch input q' q'') : Continues store batch input q q'' := by
  obtain ⟨n, hn⟩ := h
  obtain ⟨m, hm⟩ := h'
  refine ⟨n + m, ?_⟩
  rw [List.replicate_add, run_append, hn, Option.bind_some, hm]

theorem Continues.step (h : q.exec store batch input = some q') :
    Continues store batch input q q' := by
  refine ⟨1, ?_⟩
  show (q.exec store batch input).bind _ = some q'
  rw [h]
  rfl

theorem Continues.of_stuck (h : Continues store batch input q q')
    (hstuck : q.exec store batch input = none) : q' = q := by
  obtain ⟨n, hn⟩ := h
  cases n with
  | zero => exact (Option.some.inj hn).symm
  | succ n =>
      rw [List.replicate_succ, run_cons] at hn
      change (q.exec store batch input).bind _ = some q' at hn
      rw [hstuck] at hn
      cases hn

theorem Continues.of_step (h : Continues store batch input q q'')
    (hstep : q.exec store batch input = some q') :
    q'' = q ∨ Continues store batch input q' q'' := by
  obtain ⟨n, hn⟩ := h
  cases n with
  | zero => exact .inl (Option.some.inj hn).symm
  | succ n =>
      rw [List.replicate_succ, run_cons] at hn
      change (q.exec store batch input).bind _ = some q'' at hn
      rw [hstep] at hn
      exact .inr ⟨n, hn⟩

section

variable (store batch input)

theorem continues_execute (todo : List (Effect ρ)) (q : JobQueue σ ρ)
    (h : q.thread = .execute todo) :
    ∃ q', Continues store batch input q q' ∧ q'.thread = .lock ∧ q'.tasks = q.tasks ∧
      q'.stop = q.stop := by
  induction todo generalizing q with
  | nil =>
      refine ⟨{ q with thread := .lock }, Continues.step ?_, rfl, rfl, rfl⟩
      rw [exec, h]
  | cons e todo ih =>
      obtain ⟨q', hrest, hq'⟩ := ih { q with
        thread := .execute todo
        effects := q.effects ++ [e]
        store := store.apply q.store e input } rfl
      refine ⟨q', Continues.trans (Continues.step ?_) hrest, hq'⟩
      rw [exec, h]

/-- Where the executor ends up: asleep, or at its end if it has still to look at the flag. -/
def settledThread (q : JobQueue σ ρ) : Thread ρ :=
  match q.thread with
  | .wait | .waiting => .waiting
  | _ => if q.stop then .ended else .waiting

theorem continues_empty (h : q.thread = .test) (htasks : q.tasks = []) :
    Continues store batch input q { q with thread := if q.stop then .ended else .waiting } := by
  have htest : q.exec store batch input =
      some { q with thread := if q.stop then .ended else .wait } := by
    rw [exec, h]
    simp [htasks]
  apply Continues.trans (Continues.step htest)
  cases hstop : q.stop with
  | true => exact Continues.refl _
  | false =>
      apply Continues.step
      rfl

theorem continues_test (h : q.thread = .test) :
    ∃ q', Continues store batch input q q' ∧ q'.tasks = [] ∧
      q'.thread = if q.stop then .ended else .waiting := by
  by_cases htasks : q.tasks = []
  · exact ⟨_, continues_empty store batch input h htasks, htasks, rfl⟩
  · have htake : q.exec store batch input =
        some { q with thread := .execute (batch q.tasks), tasks := [] } := by
      rw [exec, h]
      simp [htasks]
    obtain ⟨q₁, hexec, hlock, htasks₁, hstop₁⟩ := continues_execute store batch input
      (batch q.tasks) { q with thread := .execute (batch q.tasks), tasks := [] } rfl
    have htest : q₁.exec store batch input = some { q₁ with thread := .test } := by
      rw [exec, hlock]
    refine ⟨_, ((Continues.step htake).trans hexec).trans
      ((Continues.step htest).trans (continues_empty store batch input rfl htasks₁)), htasks₁, ?_⟩
    simp only [hstop₁]

/-- The executor alone takes and executes all jobs of the queue, and then sleeps, or ends if it has
seen the flag. -/
theorem continues_settled (hattentive : Attentive q) (hended : q.thread ≠ .ended) :
    ∃ q', Continues store batch input q q' ∧ q'.tasks = [] ∧ q'.thread = q.settledThread := by
  cases hthread : q.thread with
  | lock =>
      obtain ⟨q', hrest, htasks, hlast⟩ := continues_test store batch input
        (q := { q with thread := .test }) rfl
      refine ⟨q', Continues.trans (Continues.step ?_) hrest, htasks, ?_⟩
      · rw [exec, hthread]
      · rw [hlast, settledThread, hthread]
  | test =>
      obtain ⟨q', hrest, htasks, hlast⟩ := continues_test store batch input hthread
      refine ⟨q', hrest, htasks, ?_⟩
      rw [hlast, settledThread, hthread]
  | wait =>
      refine ⟨{ q with thread := .waiting }, Continues.step ?_, hattentive (.inl hthread), ?_⟩
      · rw [exec, hthread]
      · rw [settledThread, hthread]
  | waiting =>
      refine ⟨q, Continues.refl q, hattentive (.inr hthread), ?_⟩
      rw [settledThread, hthread]
  | woken =>
      obtain ⟨q', hrest, htasks, hlast⟩ := continues_test store batch input
        (q := { q with thread := .test }) rfl
      refine ⟨q', Continues.trans (Continues.step ?_) hrest, htasks, ?_⟩
      · rw [exec, hthread]
      · rw [hlast, settledThread, hthread]
  | execute todo =>
      obtain ⟨q₁, hexec, hlock, -, hstop⟩ := continues_execute store batch input todo q
        hthread
      obtain ⟨q', hrest, htasks, hlast⟩ := continues_test store batch input
        (q := { q₁ with thread := .test }) rfl
      have hlocked : q₁.exec store batch input = some { q₁ with thread := .test } := by
        rw [exec, hlock]
      refine ⟨q', (hexec.trans (Continues.step hlocked)).trans hrest, htasks, ?_⟩
      rw [hlast, settledThread, hthread]
      simp only [hstop]
  | ended => exact absurd hthread hended

end

/-! ### Reachable states -/

theorem Attentive.run (h : Attentive q) {actions : List (Action ρ ι ο)}
    (hrun : Library.run (JobQueue.step store batch) q actions = some q') : Attentive q' :=
  run_preserves _ (fun _ _ _ hs ha => hs.step ha) h hrun

/-- The flag is set while `stop_queue` is about to notify. -/
theorem stop_of_notifying {s : σ} {actions : List (Action ρ ι ο)}
    (hrun : run (step store batch) (init s) actions = some q) :
    q.notifying = true → q.stop = true := by
  refine run_preserves (I := fun q => q.notifying = true → q.stop = true) _ ?_ (by simp [init]) hrun
  intro p a p' hp ha
  cases a with
  | push jobs =>
      simp only [step] at ha
      split at ha
      · cases ha
      · cases ha
        exact hp
  | setStop =>
      simp only [step] at ha
      split at ha
      · cases ha
      · cases ha
        exact fun _ => rfl
  | notifyStop =>
      simp only [step] at ha
      split at ha
      · cases ha
        intro h
        cases h
      · cases ha
  | exec input =>
      rcases exec_cases ha with ⟨thread, rfl, -⟩ | ⟨-, -, rfl⟩ | ⟨e, todo, -, rfl⟩ <;> exact hp
  | spurious =>
      simp only [step] at ha
      split at ha
      · cases ha
        exact hp
      · cases ha
  | other o =>
      cases ha
      exact hp

/-- In every state that is reached before its end, the executor needs no other thread to execute all
jobs pushed so far, batch after batch in the order of the pushes. -/
theorem pushed_executed (store : Store σ ρ ι ο) (batch : List (Job ρ) → List (Effect ρ)) (s : σ)
    (actions : List (Action ρ ι ο)) (input : ι) (q : JobQueue σ ρ)
    (hrun : run (step store batch) (init s) actions = some q) (hended : q.thread ≠ .ended) :
    ∃ q', Continues store batch input q q' ∧ q'.tasks = [] ∧
      ∃ batches : List (List (Job ρ)), (∀ b ∈ batches, b ≠ []) ∧
        pushed actions = batches.flatten ∧ q'.effects = batches.flatMap batch := by
  have hattentive : Attentive q := Attentive.run (by simp [Attentive, init]) hrun
  obtain ⟨q', ⟨n, hn⟩, htasks, hthread⟩ := continues_settled store batch input hattentive hended
  have hall : run (step store batch) (init s) (actions ++ List.replicate n (.exec input)) =
      some q' := by
    rw [run_append, hrun, Option.bind_some, hn]
  obtain ⟨batches, hne, hjobs, heffects⟩ := (Batched.init s).run hall
  have hpushed : pushed (actions ++ List.replicate n (.exec input)) = pushed actions := by
    simp [pushed, List.flatMap_replicate]
  have htodo : q'.thread.todo = [] := by
    rw [hthread, settledThread]
    split
    · rfl
    · rfl
    · split <;> rfl
  rw [List.nil_append, hpushed, htasks, List.append_nil] at hjobs
  rw [htodo, List.append_nil] at heffects
  exact ⟨q', ⟨n, hn⟩, htasks, batches, hne, hjobs, heffects⟩

/-- Two pushes, the second while the executor has the first batch. -/
theorem pushed_executed_two :
    ∃ q', Continues plainStore executeForTransaction ()
        ⟨[⟨2, true, false⟩], false, false, .execute (executeForTransaction [⟨1, true, true⟩]), [],
          ()⟩ q' ∧ q'.tasks = [] ∧
      ∃ batches : List (List (Job Nat)), (∀ b ∈ batches, b ≠ []) ∧
        pushed ([.push [⟨1, true, true⟩], .exec (), .exec (), .push [⟨2, true, false⟩]] :
          List (Action Nat Unit Unit)) = batches.flatten ∧
        q'.effects = batches.flatMap executeForTransaction :=
  pushed_executed plainStore executeForTransaction ()
    [.push [⟨1, true, true⟩], .exec (), .exec (), .push [⟨2, true, false⟩]] () _ rfl (by decide)

/-- The executor reaches its end after `stop_queue` exactly if it is not notified between its look
at the flag and its sleep: the flag is set and the condition variable notified without the mutex. -/
theorem stop_ends_iff (store : Store σ ρ ι ο) (batch : List (Job ρ) → List (Effect ρ)) (s : σ)
    (actions : List (Action ρ ι ο)) (input : ι) (q q' : JobQueue σ ρ)
    (hrun : run (step store batch) (init s) actions = some q)
    (hstep : q.step store batch (.notifyStop : Action ρ ι ο) = some q') :
    (∃ q'', Continues store batch input q' q'' ∧ q''.thread = .ended) ↔ q.thread ≠ .wait := by
  have hattentive : Attentive q := Attentive.run (by simp [Attentive, init]) hrun
  have hstop := stop_of_notifying hrun
  have hattentive' := hattentive.step hstep
  simp only [step] at hstep
  split at hstep
  · rename_i hnotifying
    cases hstep
    have hset : q.stop = true := hstop hnotifying
    constructor
    · rintro ⟨q'', hcont, hlast⟩ hwait
      have hnext : ({ q with notifying := false, thread := q.thread.notified } :
          JobQueue σ ρ).exec store batch input =
            some { q with notifying := false, thread := .waiting } := by
        rw [exec, hwait]
        rfl
      rcases hcont.of_step hnext with rfl | hrest
      · rw [hwait] at hlast
        cases hlast
      · rw [hrest.of_stuck rfl] at hlast
        cases hlast
    · intro hwait
      by_cases hended : q.thread = .ended
      · refine ⟨_, Continues.refl _, ?_⟩
        rw [hended]
        rfl
      · have hgoing : q.thread.notified ≠ .ended := by
          cases hthread : q.thread <;> simp_all [Thread.notified]
        obtain ⟨q'', hcont, -, hlast⟩ := continues_settled store batch input hattentive' hgoing
        refine ⟨q'', hcont, hlast.trans ?_⟩
        cases hthread : q.thread <;> simp_all [settledThread, Thread.notified]
  · cases hstep

/-- The executor has found the queue empty and the flag unset when it is stopped, and sleeps on. -/
theorem stop_ends_iff_wait :
    (∃ q'', Continues plainStore executeForTransaction () ⟨[], true, false, .wait, [], ()⟩ q'' ∧
        q''.thread = .ended) ↔
      (Thread.wait : Thread Nat) ≠ .wait :=
  stop_ends_iff plainStore executeForTransaction () [.exec (), .exec (), .setStop] ()
    ⟨[], true, true, .wait, [], ()⟩ _ rfl rfl

end ObjectStorage.Jobs.JobQueue
