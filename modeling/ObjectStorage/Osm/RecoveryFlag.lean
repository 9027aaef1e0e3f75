import ObjectStorage.Osm.FailureDetector

/-!
When the failure detector unlocks only what it holds, and when its flag says that a cluster recovery
is in progress only while there is one.
-/

namespace ObjectStorage.Osm.FailureDetector

open Library

namespace Point

/-- The thread sleeps, or an iteration or the thread has ended. -/
def resting : Point → Bool
  | .begin | .iterate | .sleeping120 | .sleeping5 | .closed => true
  | _ => false

/-- `initiate_cluster_recovery` has gone past its first loop. -/
def afterScan : Point → Bool
  | .judging _ | .moving | .sending | .resetting | .setting | .sleeping120 => true
  | _ => false

/-- How often the mutex may be locked. -/
def Allows (depth : Nat) : Point → Prop
  | .loop _ _ => depth = 1
  | .unlocking => depth ≤ 1
  | _ => depth = 0

end Point

namespace Detector

variable (s : Detector)

@[simp] theorem lock_depth : s.lock.depth = s.depth + 1 := rfl
@[simp] theorem lock_misused : s.lock.misused = s.misused := rfl
@[simp] theorem lock_inProgress : s.lock.inProgress = s.inProgress := rfl
@[simp] theorem lock_recovering : s.lock.recovering = s.recovering := rfl
@[simp] theorem lock_point : s.lock.point = s.point := rfl

@[simp] theorem unlock_depth : s.unlock.depth = s.depth - 1 := by
  unfold unlock
  split <;> simp [*]

theorem unlock_of_succ {depth : Nat} (h : s.depth = depth + 1) :
    s.unlock = { s with depth := depth } := by
  rw [unlock, if_neg (by omega), h]
  rfl

theorem unlock_misused (h : s.depth ≠ 0) : s.unlock.misused = s.misused := by
  rw [unlock, if_neg h]

@[simp] theorem unlock_inProgress : s.unlock.inProgress = s.inProgress := by
  unfold unlock
  split <;> rfl

@[simp] theorem unlock_recovering : s.unlock.recovering = s.recovering := by
  unfold unlock
  split <;> rfl

@[simp] theorem setStatus_depth (node : NodeId) (status : NodeStatus) :
    (s.setStatus node status).depth = s.depth := rfl
@[simp] theorem setStatus_misused (node : NodeId) (status : NodeStatus) :
    (s.setStatus node status).misused = s.misused := rfl
@[simp] theorem setStatus_inProgress (node : NodeId) (status : NodeStatus) :
    (s.setStatus node status).inProgress = s.inProgress := rfl
@[simp] theorem setStatus_recovering (node : NodeId) (status : NodeStatus) :
    (s.setStatus node status).recovering = s.recovering := rfl

theorem foldl_setStatus (nodes : List NodeId) (status : NodeStatus) :
    ∃ m, nodes.foldl (fun s node => s.setStatus node status) s = { s with activeNodeMap := m } := by
  induction nodes generalizing s with
  | nil => exact ⟨s.activeNodeMap, rfl⟩
  | cons node nodes ih =>
      obtain ⟨m, hm⟩ := ih (s.setStatus node status)
      exact ⟨m, hm⟩

/-- The fields that the mutex and the flag are about. -/
def SameFlags (s t : Detector) : Prop := t.inProgress = s.inProgress ∧ t.recovering = s.recovering

theorem visit_flags (current : Option NodeId) (count : Nat) (now : Int)
    (stopFile₁ stopFile₂ stopFile₃ : Bool) :
    SameFlags s (s.visit current count now stopFile₁ stopFile₂ stopFile₃) := by
  unfold visit
  split
  · split <;> simp [SameFlags]
  · split
    · split
      · simp [SameFlags]
      · split <;> simp [SameFlags]
    · simp [SameFlags]

/-- One node of the loop, or its end: the mutex is unlocked at most once. -/
theorem visit_lock (hdepth : s.depth = 1) (current : Option NodeId) (count : Nat) (now : Int)
    (stopFile₁ stopFile₂ stopFile₃ : Bool) {t : Detector}
    (ht : t = s.visit current count now stopFile₁ stopFile₂ stopFile₃) :
    t.misused = s.misused ∧ t.point.afterScan = false ∧ t.point.Allows t.depth ∧
      (t.point = .unlocking → t.depth = 1) := by
  have hmisused : s.unlock.misused = s.misused := s.unlock_misused (by omega)
  unfold visit at ht
  split at ht
  · split at ht <;> subst ht <;> simp [Point.afterScan, Point.Allows, hdepth, hmisused]
  · split at ht
    · split at ht
      · subst ht
        simp [Point.afterScan, Point.Allows, hdepth]
      · split at ht <;> subst ht <;> simp [Point.afterScan, Point.Allows, hdepth, hmisused]
    · subst ht
      simp [Point.afterScan, Point.Allows, hdepth]

theorem initiateClusterRecovery_flags (uninitialized : Nat) :
    SameFlags s (s.initiateClusterRecovery uninitialized) := by
  unfold initiateClusterRecovery
  dsimp only
  split <;> simp [SameFlags]

/-- The first loop of `initiate_cluster_recovery` keeps the mutex where it finds a node that
rejoins, and only there. -/
theorem initiateClusterRecovery_lock (hdepth : s.depth = 0) (uninitialized : Nat) {t : Detector}
    (ht : t = s.initiateClusterRecovery uninitialized) :
    t.misused = s.misused ∧ t.point.Allows t.depth ∧
      ((∃ e ∈ s.activeNodeMap, e.2.status = .rejoining) → t.point = .unlocking ∧ t.depth = 1) := by
  have hmap : s.lock.activeNodeMap = s.activeNodeMap := rfl
  unfold initiateClusterRecovery at ht
  dsimp only at ht
  split at ht
  · subst ht
    simp [Point.Allows, hdepth]
  · rename_i hnone
    subst ht
    refine ⟨?_, by simp [Point.Allows, hdepth], fun ⟨e, he, hstatus⟩ => absurd ?_ hnone⟩
    · exact unlock_misused _ (Nat.succ_ne_zero _)
    · rw [hmap, List.any_eq_true]
      exact ⟨e, he, by simpa using hstatus⟩

theorem judge_frame (failedNodeCount : Nat) :
    ∃ unknown failed point, s.judge failedNodeCount =
      { s with unknownStatusNodes := unknown, totallyFailedNodeList := failed, point := point } ∧
      (point = .unlocking ∨ point = .moving ∨ point = .sleeping120) := by
  unfold judge
  split
  · exact ⟨_, _, _, rfl, .inl rfl⟩
  · split
    · exact ⟨s.unknownStatusNodes, s.totallyFailedNodeList, .moving, rfl, .inr (.inl rfl)⟩
    · exact ⟨_, _, _, rfl, .inr (.inr rfl)⟩

/-- The mutex is locked and unlocked again, and only the map is another. -/
theorem moveToTransitionState_eq :
    ∃ m, s.moveToTransitionState = { s with activeNodeMap := m, point := .sending } := by
  obtain ⟨m, hm⟩ := foldl_setStatus s.lock s.lock.unknownStatusNodes .transitionState
  refine ⟨m, ?_⟩
  unfold moveToTransitionState
  dsimp only
  rw [hm, unlock_of_succ _ rfl]
  rfl

theorem resetClusterRecoveryDetails_eq : s.resetClusterRecoveryDetails = s.clearDetails := by
  rw [resetClusterRecoveryDetails, unlock_of_succ _ rfl]
  rfl

/-- The thread unlocks the mutex only while it holds it, and rests without it. -/
def LockSafe : Prop := s.misused = false ∧ (s.point.resting = true → s.depth = 0)

/-- The flag is set only while a cluster recovery runs. -/
def FlagSafe : Prop := s.inProgress = true → s.recovering = true

end Detector

/-- `initiate_cluster_recovery` is called only when a node is about to rejoin, so that it returns
with the mutex. -/
def LockKept (s : Detector) : Event → Prop
  | .scan _ => s.point = .scanning → ∃ e ∈ s.activeNodeMap, e.2.status = .rejoining
  | _ => True

/-- The message to the global leader is sent, and the recovery does not end before the flag is
set. -/
def FlagKept (s : Detector) : Event → Prop
  | .connect delivery => s.point = .sending → delivery = .sent
  | .reset => s.point ≠ .setting
  | _ => True

instance (s : Detector) : (e : Event) → Decidable (LockKept s e)
  | .scan _ =>
    inferInstanceAs (Decidable (s.point = .scanning →
      ∃ e ∈ s.activeNodeMap, e.2.status = .rejoining))
  | .begin _ | .visit _ _ _ _ | .registerStatus _ | .connect _ | .next | .interrupt | .setNode _ _
  | .eraseNode _ | .reset => isTrue trivial

instance (s : Detector) : (e : Event) → Decidable (FlagKept s e)
  | .connect delivery => inferInstanceAs (Decidable (s.point = .sending → delivery = .sent))
  | .reset => inferInstanceAs (Decidable (s.point ≠ .setting))
  | .begin _ | .visit _ _ _ _ | .registerStatus _ | .scan _ | .next | .interrupt | .setNode _ _
  | .eraseNode _ => isTrue trivial

open Detector

theorem step_allows {s s' : Detector} {e : Event} (h : s.point.Allows s.depth)
    (hs' : step s e = some s') : s'.point.Allows s'.depth := by
  cases e with
  | begin now =>
      simp only [step] at hs'
      split at hs' <;> cases hs'
      rename_i hpoint
      rw [hpoint] at h
      exact h
  | visit now stopFile₁ stopFile₂ stopFile₃ =>
      simp only [step] at hs'
      split at hs' <;> cases hs'
      rename_i current healthy hpoint
      rw [hpoint] at h
      exact (s.visit_lock h current healthy now stopFile₁ stopFile₂ stopFile₃ rfl).2.2.1
  | registerStatus reg =>
      simp only [step] at hs'
      split at hs' <;> cases hs'
      rename_i hpoint
      rw [hpoint] at h
      exact h
  | scan uninitialized =>
      simp only [step] at hs'
      split at hs' <;> cases hs'
      rename_i hpoint
      rw [hpoint] at h
      exact (s.initiateClusterRecovery_lock h uninitialized rfl).2.1
  | connect delivery =>
      simp only [step] at hs'
      split at hs'
      · rename_i hpoint
        rw [hpoint] at h
        cases delivery <;> cases hs' <;> exact h
      · cases hs'
  | next =>
      simp only [step, next] at hs'
      split at hs' <;> cases hs' <;> rename_i hpoint <;> rw [hpoint] at h
      · exact congrArg (· + 1) h
      · split <;> exact congrArg (· + 1) h
      · exact h
      · obtain ⟨unknown, failed, point, heq, hcases⟩ := s.judge_frame _
        rw [heq]
        rcases hcases with rfl | rfl | rfl
        · exact Nat.le_of_eq h |>.trans (Nat.zero_le _)
        · exact h
        · exact h
      · obtain ⟨m, heq⟩ := s.moveToTransitionState_eq
        rw [heq]
        exact h
      · rw [resetClusterRecoveryDetails_eq]
        exact h
      · exact Nat.le_of_eq h |>.trans (Nat.zero_le _)
      · exact Nat.le_of_eq h |>.trans (Nat.zero_le _)
      · show s.unlock.depth = 0
        rw [unlock_depth]
        exact Nat.sub_eq_zero_of_le h
      · exact h
  | interrupt =>
      simp only [step] at hs'
      split at hs' <;> cases hs'
      rename_i hpoint
      rcases hpoint with hpoint | hpoint <;> rw [hpoint] at h <;> exact h
  | setNode node record =>
      simp only [step] at hs'
      split at hs' <;> cases hs'
      exact h
  | eraseNode node =>
      simp only [step] at hs'
      split at hs' <;> cases hs'
      exact h
  | reset =>
      simp only [step] at hs'
      split at hs' <;> cases hs'
      exact h

/-- What holds of the mutex as long as every call of `initiate_cluster_recovery` returns with it. -/
structure LockInv (s : Detector) : Prop where
  allows : s.point.Allows s.depth
  misused : s.misused = false
  unlocking : s.point = .unlocking → s.depth = 1
  afterScan : s.point.afterScan = false

theorem step_lockInv {s s' : Detector} {e : Event} (h : LockInv s) (hkept : LockKept s e)
    (hs' : step s e = some s') : LockInv s' := by
  have hallows := step_allows h.allows hs'
  suffices s'.misused = false ∧ (s'.point = .unlocking → s'.depth = 1) ∧
      s'.point.afterScan = false from ⟨hallows, this.1, this.2.1, this.2.2⟩
  cases e with
  | begin now =>
      simp only [step] at hs'
      split at hs' <;> cases hs'
      exact ⟨h.misused, nofun, rfl⟩
  | visit now stopFile₁ stopFile₂ stopFile₃ =>
      simp only [step] at hs'
      split at hs' <;> cases hs'
      rename_i current healthy hpoint
      have hdepth := h.allows
      rw [hpoint] at hdepth
      obtain ⟨hmisused, hafter, -, hunlocking⟩ :=
        s.visit_lock hdepth current healthy now stopFile₁ stopFile₂ stopFile₃ rfl
      exact ⟨hmisused.trans h.misused, hunlocking, hafter⟩
  | registerStatus reg =>
      simp only [step] at hs'
      split at hs' <;> cases hs'
      exact ⟨h.misused, nofun, rfl⟩
  | scan uninitialized =>
      simp only [step] at hs'
      split at hs' <;> cases hs'
      rename_i hpoint
      have hdepth := h.allows
      rw [hpoint] at hdepth
      obtain ⟨hmisused, -, hrejoining⟩ := s.initiateClusterRecovery_lock hdepth uninitialized rfl
      obtain ⟨hunlocking, hone⟩ := hrejoining (hkept hpoint)
      exact ⟨hmisused.trans h.misused, fun _ => hone, by rw [hunlocking]; rfl⟩
  | connect delivery =>
      simp only [step] at hs'
      split at hs'
      · rename_i hpoint
        have hafter := h.afterScan
        rw [hpoint] at hafter
        cases hafter
      · cases hs'
  | next =>
      have hafter := h.afterScan
      have hdepth := h.allows
      simp only [step, next] at hs'
      split at hs' <;> cases hs' <;> rename_i hpoint <;> rw [hpoint] at hafter hdepth
      · exact ⟨h.misused, nofun, rfl⟩
      · split <;> exact ⟨h.misused, nofun, rfl⟩
      · exact ⟨h.misused, nofun, rfl⟩
      · cases hafter
      · cases hafter
      · cases hafter
      · cases hafter
      · cases hafter
      · refine ⟨?_, nofun, rfl⟩
        exact (s.unlock_misused (by rw [h.unlocking hpoint]; decide)).trans h.misused
      · exact ⟨h.misused, nofun, rfl⟩
  | interrupt =>
      simp only [step] at hs'
      split at hs' <;> cases hs'
      exact ⟨h.misused, nofun, rfl⟩
  | setNode node record =>
      simp only [step] at hs'
      split at hs' <;> cases hs'
      exact ⟨h.misused, h.unlocking, h.afterScan⟩
  | eraseNode node =>
      simp only [step] at hs'
      split at hs' <;> cases hs'
      exact ⟨h.misused, h.unlocking, h.afterScan⟩
  | reset =>
      simp only [step] at hs'
      split at hs' <;> cases hs'
      exact ⟨h.misused, h.unlocking, h.afterScan⟩

/-- What holds of the flag as long as it is set after a message that is still being followed. -/
structure FlagInv (s : Detector) : Prop where
  flagSafe : s.FlagSafe
  setting : s.point = .setting → s.recovering = true
  resetting : s.point ≠ .resetting

theorem FlagInv.of_sameFlags {s t : Detector} (h : FlagInv s) (hsame : SameFlags s t)
    (hpoint : t.point ≠ .setting ∧ t.point ≠ .resetting) : FlagInv t where
  flagSafe := fun hflag => hsame.2.trans (h.flagSafe (hsame.1.symm.trans hflag))
  setting := fun hsetting => absurd hsetting hpoint.1
  resetting := hpoint.2

theorem visit_point (s : Detector) (current : Option NodeId) (count : Nat) (now : Int)
    (stopFile₁ stopFile₂ stopFile₃ : Bool) :
    (s.visit current count now stopFile₁ stopFile₂ stopFile₃).point ≠ .setting ∧
      (s.visit current count now stopFile₁ stopFile₂ stopFile₃).point ≠ .resetting := by
  unfold visit
  split
  · split <;> simp
  · split
    · split
      · simp
      · split <;> simp
    · simp

theorem step_flagInv {s s' : Detector} {e : Event} (h : FlagInv s) (hkept : FlagKept s e)
    (hs' : step s e = some s') : FlagInv s' := by
  cases e with
  | begin now =>
      simp only [step] at hs'
      split at hs' <;> cases hs'
      exact h.of_sameFlags ⟨rfl, rfl⟩ ⟨nofun, nofun⟩
  | visit now stopFile₁ stopFile₂ stopFile₃ =>
      simp only [step] at hs'
      split at hs' <;> cases hs'
      exact h.of_sameFlags (s.visit_flags _ _ _ _ _ _) (visit_point s _ _ _ _ _ _)
  | registerStatus reg =>
      simp only [step] at hs'
      split at hs' <;> cases hs'
      exact h.of_sameFlags ⟨rfl, rfl⟩ ⟨nofun, nofun⟩
  | scan uninitialized =>
      simp only [step] at hs'
      split at hs' <;> cases hs'
      refine h.of_sameFlags (s.initiateClusterRecovery_flags _) ?_
      unfold initiateClusterRecovery
      dsimp only
      split <;> simp
  | connect delivery =>
      simp only [step] at hs'
      split at hs'
      · rename_i hpoint
        obtain rfl : delivery = .sent := hkept hpoint
        cases hs'
        exact ⟨fun _ => rfl, fun _ => rfl, nofun⟩
      · cases hs'
  | next =>
      simp only [step, next] at hs'
      split at hs' <;> cases hs' <;> rename_i hpoint
      · exact h.of_sameFlags ⟨rfl, rfl⟩ ⟨nofun, nofun⟩
      · split <;> exact h.of_sameFlags ⟨rfl, rfl⟩ ⟨nofun, nofun⟩
      · exact h.of_sameFlags ⟨rfl, rfl⟩ ⟨nofun, nofun⟩
      · obtain ⟨unknown, failed, point, heq, hcases⟩ := s.judge_frame _
        rw [heq]
        rcases hcases with rfl | rfl | rfl <;> exact h.of_sameFlags ⟨rfl, rfl⟩ ⟨nofun, nofun⟩
      · obtain ⟨m, heq⟩ := s.moveToTransitionState_eq
        rw [heq]
        exact h.of_sameFlags ⟨rfl, rfl⟩ ⟨nofun, nofun⟩
      · exact absurd hpoint h.resetting
      · exact ⟨fun _ => h.setting hpoint, nofun, nofun⟩
      · exact h.of_sameFlags ⟨rfl, rfl⟩ ⟨nofun, nofun⟩
      · exact h.of_sameFlags ⟨s.unlock_inProgress, s.unlock_recovering⟩ ⟨nofun, nofun⟩
      · exact h.of_sameFlags ⟨rfl, rfl⟩ ⟨nofun, nofun⟩
  | interrupt =>
      simp only [step] at hs'
      split at hs' <;> cases hs'
      exact h.of_sameFlags ⟨rfl, rfl⟩ ⟨nofun, nofun⟩
  | setNode node record =>
      simp only [step] at hs'
      split at hs' <;> cases hs'
      exact ⟨h.flagSafe, h.setting, h.resetting⟩
  | eraseNode node =>
      simp only [step] at hs'
      split at hs' <;> cases hs'
      exact ⟨h.flagSafe, h.setting, h.resetting⟩
  | reset =>
      simp only [step] at hs'
      split at hs' <;> cases hs'
      exact ⟨nofun, fun hsetting => absurd hsetting hkept, h.resetting⟩

/-- In every run the thread rests without the mutex; it unlocks only what it holds as long as every
call of `initiate_cluster_recovery` finds a node that rejoins, and the flag is set only while a
cluster recovery runs as long as every message is sent and no recovery ends before the flag is
set. -/
theorem monitor_for_recovery_safe (nodes : List (NodeId × HealthMonitoringRecord))
    {events : List Event} {s : Detector} (hrun : run step (start nodes) events = some s) :
    (s.point.resting = true → s.depth = 0) ∧
      (Along step LockKept (start nodes) events → s.LockSafe) ∧
      (Along step FlagKept (start nodes) events → s.FlagSafe) := by
  have hstart : (start nodes).point.Allows (start nodes).depth := rfl
  have hallows : s.point.Allows s.depth :=
    run_preserves step (I := fun s => s.point.Allows s.depth)
      (fun _ _ _ h hs' => step_allows h hs') hstart hrun
  have hrests : s.point.resting = true → s.depth = 0 := by
    intro hresting
    cases hpoint : s.point <;> rw [hpoint] at hallows hresting <;>
      first | exact hallows | cases hresting
  refine ⟨hrests, fun hkept => ?_, fun hkept => ?_⟩
  · have hstart : LockInv (start nodes) := ⟨rfl, rfl, nofun, rfl⟩
    have hinv := run_along_preserves step (fun _ _ _ h hkept hs' => step_lockInv h hkept hs') hstart
      hkept hrun
    exact ⟨hinv.misused, hrests⟩
  · have hstart : FlagInv (start nodes) := ⟨nofun, nofun, nofun⟩
    exact (run_along_preserves step (fun _ _ _ h hkept hs' => step_flagInv h hkept hs') hstart
      hkept hrun).flagSafe

/-- One node that has failed, from which the file system can be read. -/
def failedNode : List (NodeId × HealthMonitoringRecord) := [(['n'], ⟨0, 1, .failed, true⟩)]

/-- The thread finds no healthy node and calls `initiate_cluster_recovery`. -/
def untilScan : List Event :=
  [.begin 0, .next, .visit 0 false false false, .visit 0 false false false, .next]

theorem monitor_for_recovery_safe_failedNode :
    (∃ s, run step (start failedNode)
        (untilScan ++ [.setNode ['n'] ⟨0, 1, .rejoining, true⟩, .scan 0, .next]) = some s ∧
      s.LockSafe) ∧
    ∃ s, run step (start failedNode)
        (untilScan ++ [.scan 0, .next, .next, .connect .sent, .next]) = some s ∧
      s.FlagSafe := by
  constructor
  · obtain ⟨s, hrun⟩ := Option.isSome_iff_exists.mp (by decide : (run step (start failedNode)
      (untilScan ++ [.setNode ['n'] ⟨0, 1, .rejoining, true⟩, .scan 0, .next])).isSome = true)
    exact ⟨s, hrun, (monitor_for_recovery_safe failedNode hrun).2.1 (by decide)⟩
  · obtain ⟨s, hrun⟩ := Option.isSome_iff_exists.mp (by decide : (run step (start failedNode)
      (untilScan ++ [.scan 0, .next, .next, .connect .sent, .next])).isSome = true)
    exact ⟨s, hrun, (monitor_for_recovery_safe failedNode hrun).2.2 (by decide)⟩

/-- Without a connection the flag is set although nothing was sent, and the mutex is unlocked a
second time. -/
theorem unsent_message_sets_flag :
    ∃ nodes events s, run step (start nodes) events = some s ∧ ¬ s.LockSafe ∧ ¬ s.FlagSafe := by
  have hfinal : (run step (start failedNode)
      (untilScan ++ [.scan 0, .next, .next, .connect .notConnected, .next, .next, .next])).any
      (fun s => s.misused = true ∧ s.inProgress = true ∧ s.recovering = false) = true := by
    decide
  obtain ⟨s, hrun, hs⟩ := (Option.any_eq_true _ _).mp hfinal
  obtain ⟨hmisused, hflag, hnot⟩ := of_decide_eq_true hs
  refine ⟨failedNode, _, s, hrun, fun hlock => ?_, fun hsafe => ?_⟩
  · exact Bool.false_ne_true (hlock.1.symm.trans hmisused)
  · exact Bool.false_ne_true (hnot.symm.trans (hsafe hflag))

end ObjectStorage.Osm.FailureDetector
