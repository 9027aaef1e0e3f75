import ObjectStorage.Library.Transition
import ObjectStorage.Osm.LeaderFile

/-!
The election lock: nodes list, remove and exclusively create lock files whose names carry the
election version, and compare versions partly as numbers and partly as strings.
-/

namespace ObjectStorage.Osm

open Library

/-- The version `k.0-sub` of an election: `k` is the version of the leader information file. -/
structure ElectionVersion where
  leader : Nat
  sub : Nat
deriving DecidableEq, Repr

namespace ElectionVersion

/-- Strictly newer: by leader version, then by sub-version, both as numbers. -/
def Newer (v w : ElectionVersion) : Prop :=
  w.leader < v.leader ∨ w.leader = v.leader ∧ w.sub < v.sub

instance (v w : ElectionVersion) : Decidable (Newer v w) :=
  inferInstanceAs (Decidable (w.leader < v.leader ∨ w.leader = v.leader ∧ w.sub < v.sub))

def digits (n : Nat) : List Char := Nat.toDigits 10 n

/-- The leader version as `atof` reads it into a `float`, by way of a `double`. -/
def leaderFloat (v : ElectionVersion) : Nat := toFloat (roundBits 53 v.leader)

/-- The comparison of `get_lock`: leader versions are compared as floats, sub-versions as
strings. -/
def rejects (existing election : ElectionVersion) : Bool :=
  if existing.leaderFloat > election.leaderFloat then true
  else if existing.leaderFloat = election.leaderFloat then
    ! decide (digits existing.sub < digits election.sub)
  else false

/-- The comparison is that of the numbers: leader versions are told apart by their floats, and
sub-versions stand in the same order as strings. -/
def ComparesAs (existing election : ElectionVersion) : Prop :=
  existing.leaderFloat = election.leaderFloat →
    existing.leader = election.leader ∧
      (digits existing.sub < digits election.sub ↔ existing.sub < election.sub)

instance (existing election : ElectionVersion) : Decidable (ComparesAs existing election) :=
  inferInstanceAs (Decidable (_ → _))

theorem leaderFloat_mono {v w : ElectionVersion} (h : v.leader ≤ w.leader) :
    v.leaderFloat ≤ w.leaderFloat :=
  toFloat_mono (roundBits_mono (by decide) h)

/-- Up to 16777216 the floats tell the leader versions apart. -/
theorem leaderFloat_of_le {v : ElectionVersion} (h : v.leader ≤ 2 ^ 24) :
    v.leaderFloat = v.leader := by
  have hdouble : v.leader < 2 ^ 53 := by omega
  rw [leaderFloat, roundBits_of_lt hdouble, toFloat_of_le h]

example : leaderFloat ⟨16777217, 0⟩ = leaderFloat ⟨16777216, 0⟩ := by decide

/-- There only the order of the sub-versions matters. -/
theorem comparesAs_iff_of_le {existing election : ElectionVersion} (hx : existing.leader ≤ 2 ^ 24)
    (he : election.leader ≤ 2 ^ 24) :
    existing.ComparesAs election ↔ (existing.leader = election.leader →
      (digits existing.sub < digits election.sub ↔ existing.sub < election.sub)) := by
  rw [ComparesAs, leaderFloat_of_le hx, leaderFloat_of_le he]
  exact ⟨fun h heq => (h heq).2, fun h heq => ⟨heq, h heq⟩⟩

end ElectionVersion

/-- Where a node is in `get_lock`, or that it holds the lock it acquired last. -/
inductive LockCall where
  | resting
  | begun (version : ElectionVersion)
  | listed (version : ElectionVersion) (files : List ElectionVersion)
  | waiting (version existing : ElectionVersion)
  | removing (version existing : ElectionVersion)
  | creating (version : ElectionVersion)
  | acquired (version : ElectionVersion)
deriving DecidableEq

/-- A node with an election version takes the lock of a holder away. -/
structure Displacement where
  node : Nat
  version : ElectionVersion
  lock : ElectionVersion
  holder : Nat
deriving DecidableEq

/-- The lock files with the nodes that created them, the calls in progress, and what has happened:
who acquired which version, which locks were removed or overridden by whom, and which version was
rejected in favour of which. -/
structure LockService where
  dir : Directory ElectionVersion Nat
  calls : Nat → LockCall
  acquisitions : List (Nat × ElectionVersion)
  removals : List Displacement
  overrides : List Displacement
  rejections : List (ElectionVersion × ElectionVersion)

inductive LockStep where
  | begin (n : Nat) (version : ElectionVersion)
  | list (n : Nat)
  | removeStale (n : Nat)
  | compare (n : Nat)
  | wake (n : Nat) (hfsNotWritable : Bool)
  | remove (n : Nat)
  | create (n : Nat)
  | release (n : Nat)

namespace LockService

open ElectionVersion

def init : LockService := ⟨.empty fun _ => 0, fun _ => .resting, [], [], [], []⟩

def setCall (s : LockService) (n : Nat) (call : LockCall) : LockService :=
  { s with calls := Function.update s.calls n call }

/-- `remove` of a lock file, which may be gone already. -/
def removeLock (s : LockService) (n : Nat) (version lock : ElectionVersion) : LockService :=
  match s.dir.lookup lock with
  | some i =>
      { s with
        dir := s.dir.unlink lock
        removals := ⟨n, version, lock, s.dir.contents i⟩ :: s.removals }
  | none => s

def reject (s : LockService) (n : Nat) (version existing : ElectionVersion) : LockService :=
  { s with rejections := (version, existing) :: s.rejections }.setCall n .resting

/-- The exclusive creation succeeded: the other lock files there are overridden. -/
def acquire (s : LockService) (n : Nat) (version : ElectionVersion)
    (dir : Directory ElectionVersion Nat) : LockService :=
  { s with
    dir := dir
    acquisitions := (n, version) :: s.acquisitions
    overrides := s.dir.entries.map (fun e : ElectionVersion × Nat =>
      Displacement.mk n version e.1 (s.dir.contents e.2)) ++ s.overrides }.setCall n
        (.acquired version)

def step (s : LockService) : LockStep → Option LockService
  | .begin n version =>
      match s.calls n with
      | .resting | .acquired _ => some (s.setCall n (.begun version))
      | _ => none
  | .list n =>
      match s.calls n with
      | .begun version => some (s.setCall n (.listed version s.dir.names))
      | _ => none
  -- `get_lock_file` keeps the file that was created last
  | .removeStale n =>
      match s.calls n with
      | .listed version (file :: next :: files) =>
          some ((s.removeLock n version file).setCall n (.listed version (next :: files)))
      | _ => none
  | .compare n =>
      match s.calls n with
      | .listed version [] => some (s.setCall n (.creating version))
      | .listed version [existing] =>
          if rejects existing version then some (s.reject n version existing)
          else some (s.setCall n (.waiting version existing))
      | _ => none
  | .wake n hfsNotWritable =>
      match s.calls n with
      | .waiting version existing =>
          some (s.setCall n (if hfsNotWritable then .removing version existing else .resting))
      | _ => none
  | .remove n =>
      match s.calls n with
      | .removing version existing =>
          some ((s.removeLock n version existing).setCall n (.creating version))
      | _ => none
  | .create n =>
      match s.calls n with
      | .creating version =>
          match s.dir.create version n with
          | some dir => some (s.acquire n version dir)
          | none => some (s.reject n version version)
      | _ => none
  | .release n =>
      match s.calls n with
      | .acquired version => some ((s.removeLock n version version).setCall n .resting)
      | _ => none

/-- One node for each version, locks taken away only by their holders or by newer elections, and no
rejection of a newer election in favour of an older lock. -/
structure Respected (s : LockService) : Prop where
  oneNode : ∀ a ∈ s.acquisitions, ∀ b ∈ s.acquisitions, a.2 = b.2 → a.1 = b.1
  displaced : ∀ r ∈ s.removals ++ s.overrides, r.node = r.holder ∨ r.version.Newer r.lock
  rejected : ∀ r ∈ s.rejections, ¬ r.1.Newer r.2

/-- When a step respects the locks: versions that are compared stand in the order of their numbers,
and a lock file is created only if there is none of another version and none of its own version was
removed before. -/
def LockSafe (s : LockService) : LockStep → Prop
  | .compare n =>
      match s.calls n with
      | .listed version [existing] => existing.ComparesAs version
      | _ => True
  | .create n =>
      match s.calls n with
      | .creating version =>
          (∀ lock ∈ s.dir.names, lock = version) ∧ ∀ r ∈ s.removals, r.lock ≠ version
      | _ => True
  | _ => True

instance (s : LockService) (a : LockStep) : Decidable (s.LockSafe a) := by
  unfold LockSafe
  split
  · split <;> infer_instance
  · split <;> infer_instance
  · infer_instance

variable {s s' : LockService} {n : Nat}

/-- One lock file at most, in the hands of the node that acquired its version. -/
structure Guarded (s : LockService) : Prop extends Respected s where
  oneFile : s.dir.entries.length ≤ 1
  listed : ∀ n version files, s.calls n = .listed version files → files.length ≤ 1
  waiting : ∀ n version existing, s.calls n = .waiting version existing → version.Newer existing
  removing : ∀ n version existing, s.calls n = .removing version existing → version.Newer existing
  acquired : ∀ n version, s.calls n = .acquired version → (n, version) ∈ s.acquisitions
  present : ∀ lock i, s.dir.lookup lock = some i → (s.dir.contents i, lock) ∈ s.acquisitions
  accounted : ∀ a ∈ s.acquisitions, a.2 ∈ s.dir.names ∨ ∃ r ∈ s.removals, r.lock = a.2

theorem guarded_init : Guarded init where
  oneNode a ha := by simp [init] at ha
  displaced r hr := by simp [init] at hr
  rejected r hr := by simp [init] at hr
  oneFile := by simp [init, Directory.empty]
  listed n version files h := by simp [init] at h
  waiting n version existing h := by simp [init] at h
  removing n version existing h := by simp [init] at h
  acquired n version h := by simp [init] at h
  present lock i h := by simp [init, Directory.empty, Directory.lookup] at h
  accounted a ha := by simp [init] at ha

@[simp] theorem calls_setCall (s : LockService) (n : Nat) (call : LockCall) (m : Nat) :
    (s.setCall n call).calls m = if m = n then call else s.calls m := by
  simp [setCall, Function.update_apply]

/-- What the place a node has reached in its call says. -/
def CallHolds (s : LockService) (n : Nat) : LockCall → Prop
  | .listed _ files => files.length ≤ 1
  | .waiting version existing => version.Newer existing
  | .removing version existing => version.Newer existing
  | .acquired version => (n, version) ∈ s.acquisitions
  | _ => True

theorem Guarded.callHolds (h : Guarded s) (n : Nat) : s.CallHolds n (s.calls n) := by
  cases hn : s.calls n with
  | listed version files => exact h.listed n version files hn
  | waiting version existing => exact h.waiting n version existing hn
  | removing version existing => exact h.removing n version existing hn
  | acquired version => exact h.acquired n version hn
  | resting => trivial
  | begun version => trivial
  | creating version => trivial

theorem Guarded.ofCalls (hr : Respected s) (hone : s.dir.entries.length ≤ 1)
    (hcalls : ∀ n, s.CallHolds n (s.calls n))
    (hpresent : ∀ lock i, s.dir.lookup lock = some i → (s.dir.contents i, lock) ∈ s.acquisitions)
    (haccounted : ∀ a ∈ s.acquisitions, a.2 ∈ s.dir.names ∨ ∃ r ∈ s.removals, r.lock = a.2) :
    Guarded s where
  toRespected := hr
  oneFile := hone
  listed n version files hn := by simpa only [hn, CallHolds] using hcalls n
  waiting n version existing hn := by simpa only [hn, CallHolds] using hcalls n
  removing n version existing hn := by simpa only [hn, CallHolds] using hcalls n
  acquired n version hn := by simpa only [hn, CallHolds] using hcalls n
  present := hpresent
  accounted := haccounted

theorem Guarded.setCall (h : Guarded s) {call : LockCall} (hcall : s.CallHolds n call) :
    Guarded (s.setCall n call) := by
  refine .ofCalls ⟨h.oneNode, h.displaced, h.rejected⟩ h.oneFile (fun m => ?_) h.present h.accounted
  rw [calls_setCall]
  by_cases hm : m = n
  · subst hm
    rw [if_pos rfl]
    exact hcall
  · rw [if_neg hm]
    exact h.callHolds m

theorem Guarded.removeLock (h : Guarded s) {version lock : ElectionVersion}
    (hright : ∀ i, s.dir.lookup lock = some i →
      n = s.dir.contents i ∨ version.Newer lock) : Guarded (s.removeLock n version lock) := by
  unfold LockService.removeLock
  cases hl : s.dir.lookup lock with
  | none => exact h
  | some i =>
      refine .ofCalls ⟨h.oneNode, fun r hr => ?_, h.rejected⟩ ?_ (fun m => h.callHolds m)
        (fun lock' j hj => ?_) fun a ha => ?_
      · rcases List.mem_cons.mp (List.cons_append ▸ hr) with rfl | hr
        · exact hright i hl
        · exact h.displaced r hr
      · exact Nat.le_trans (List.length_filter_le _ _) h.oneFile
      · rw [Directory.lookup_unlink] at hj
        by_cases heq : lock' = lock
        · simp [heq] at hj
        · rw [if_neg heq] at hj
          exact h.present lock' j hj
      · by_cases heq : a.2 = lock
        · exact .inr ⟨_, List.mem_cons_self, heq.symm⟩
        · rcases h.accounted a ha with hin | ⟨r, hr, hlock⟩
          · obtain ⟨j, hj⟩ := Directory.ext_lookup_mem.mp hin
            refine .inl (Directory.ext_lookup_mem.mpr ⟨j, ?_⟩)
            rw [Directory.lookup_unlink, if_neg heq, hj]
          · exact .inr ⟨r, List.mem_cons_of_mem _ hr, hlock⟩

theorem Guarded.reject (h : Guarded s) {version existing : ElectionVersion}
    (hnot : ¬ version.Newer existing) : Guarded (s.reject n version existing) := by
  have hlog : Guarded { s with rejections := (version, existing) :: s.rejections } := by
    refine .ofCalls ⟨h.oneNode, h.displaced, fun r hr => ?_⟩ h.oneFile (fun m => h.callHolds m)
      h.present h.accounted
    rcases List.mem_cons.mp hr with rfl | hr
    · exact hnot
    · exact h.rejected r hr
  exact hlog.setCall trivial

/-- A lock file created while there was none, for a version that had none before. -/
theorem Guarded.create (h : Guarded s) {version : ElectionVersion}
    {dir : Directory ElectionVersion Nat} (hcreate : s.dir.create version n = some dir)
    (hnone : ∀ lock ∈ s.dir.names, lock = version)
    (hnew : ∀ r ∈ s.removals, r.lock ≠ version) :
    Guarded (s.acquire n version dir) := by
  obtain ⟨hnot, hcontents, -, hentries⟩ := Directory.create_eq_some hcreate
  have hempty : s.dir.entries = [] := by
    cases he : s.dir.entries with
    | nil => rfl
    | cons e es =>
        have hmem : e.1 ∈ s.dir.names := by simp [Directory.names, he]
        exact absurd (hnone e.1 hmem ▸ hmem) hnot
  have hnever : ∀ a ∈ s.acquisitions, a.2 ≠ version := fun a ha heq => by
    rcases h.accounted a ha with hin | ⟨r, hr, hlock⟩
    · exact hnot (heq ▸ hin)
    · exact hnew r hr (hlock.trans heq)
  have hone : dir.entries = [(version, s.dir.nextInode)] := by rw [hentries, hempty]; rfl
  unfold acquire
  refine Guarded.setCall ?_ List.mem_cons_self
  refine .ofCalls ⟨fun a ha b hb hab => ?_, ?_, h.rejected⟩ ?_ (fun m => ?_) (fun lock i hi => ?_)
    fun a ha => ?_
  · rcases List.mem_cons.mp ha with rfl | ha
    · rcases List.mem_cons.mp hb with rfl | hb
      · rfl
      · exact absurd hab.symm (hnever b hb)
    · rcases List.mem_cons.mp hb with rfl | hb
      · exact absurd hab (hnever a ha)
      · exact h.oneNode a ha b hb hab
  · simpa [hempty] using h.displaced
  · simp [hone]
  · have hm := h.callHolds m
    cases hc : s.calls m with
    | acquired version' =>
        rw [hc] at hm
        exact List.mem_cons_of_mem _ hm
    | listed | waiting | removing =>
        rw [hc] at hm
        exact hm
    | resting | begun | creating => trivial
  · have hmem := Directory.lookup_eq_some.mp hi
    rw [hone, List.mem_singleton] at hmem
    obtain ⟨hlock, hi⟩ := Prod.mk.inj hmem
    simp [hlock, hi, hcontents]
  · rcases List.mem_cons.mp ha with rfl | ha
    · exact .inl (by simp [Directory.names, hone])
    · refine .inr ?_
      rcases h.accounted a ha with hin | hr
      · simp [Directory.names, hempty] at hin
      · exact hr

theorem rejects_iff {existing version : ElectionVersion} (h : existing.ComparesAs version) :
    rejects existing version = true ↔ ¬ version.Newer existing := by
  unfold rejects Newer
  rcases Nat.lt_trichotomy version.leaderFloat existing.leaderFloat with hlt | heq | hgt
  · have hleader : version.leader < existing.leader :=
      Nat.lt_of_not_le fun hle => absurd (leaderFloat_mono hle) (Nat.not_le_of_lt hlt)
    rw [if_pos hlt]
    simp only [true_iff]
    omega
  · obtain ⟨hleader, hsub⟩ := h heq.symm
    rw [if_neg (by omega), if_pos heq.symm]
    simp only [Bool.not_eq_true', decide_eq_false_iff_not, hsub]
    omega
  · have hleader : existing.leader < version.leader :=
      Nat.lt_of_not_le fun hle => absurd (leaderFloat_mono hle) (Nat.not_le_of_lt hgt)
    rw [if_neg (by omega), if_neg (by omega)]
    simp only [Bool.false_eq_true, false_iff]
    omega

theorem Guarded.step (h : Guarded s) {a : LockStep} (hsafe : s.LockSafe a)
    (hstep : s.step a = some s') : Guarded s' := by
  cases a with
  | begin n version =>
      simp only [LockService.step] at hstep
      split at hstep
      · exact Option.some.inj hstep ▸ h.setCall trivial
      · exact Option.some.inj hstep ▸ h.setCall trivial
      · cases hstep
  | list n =>
      simp only [LockService.step] at hstep
      split at hstep
      · refine Option.some.inj hstep ▸ h.setCall ?_
        simpa [CallHolds, Directory.names] using h.oneFile
      · cases hstep
  | removeStale n =>
      simp only [LockService.step] at hstep
      split at hstep
      · rename_i version file next files hn
        have hle := h.listed n version _ hn
        simp at hle
      · cases hstep
  | compare n =>
      simp only [LockService.step] at hstep
      split at hstep
      · exact Option.some.inj hstep ▸ h.setCall trivial
      · rename_i version existing hn
        simp only [LockSafe, hn] at hsafe
        have hiff := rejects_iff hsafe
        split at hstep
        · rename_i hreject
          exact Option.some.inj hstep ▸ h.reject (hiff.mp hreject)
        · rename_i hreject
          refine Option.some.inj hstep ▸ h.setCall ?_
          exact Classical.byContradiction fun hnot => hreject (hiff.mpr hnot)
      · cases hstep
  | wake n hfsNotWritable =>
      simp only [LockService.step] at hstep
      split at hstep
      · rename_i version existing hn
        refine Option.some.inj hstep ▸ h.setCall ?_
        cases hfsNotWritable with
        | true => exact h.waiting n version existing hn
        | false => trivial
      · cases hstep
  | remove n =>
      simp only [LockService.step] at hstep
      split at hstep
      · rename_i version existing hn
        have hremove := h.removeLock (n := n) fun i _ => .inr (h.removing n version existing hn)
        exact Option.some.inj hstep ▸ hremove.setCall trivial
      · cases hstep
  | create n =>
      simp only [LockService.step] at hstep
      split at hstep
      · rename_i version hn
        simp only [LockSafe, hn] at hsafe
        obtain ⟨hnone, hnew⟩ := hsafe
        split at hstep
        · rename_i dir hcreate
          exact Option.some.inj hstep ▸ h.create hcreate hnone hnew
        · refine Option.some.inj hstep ▸ h.reject ?_
          unfold Newer
          omega
      · cases hstep
  | release n =>
      simp only [LockService.step] at hstep
      split at hstep
      · rename_i version hn
        have hmine := h.acquired n version hn
        have hremove : Guarded (s.removeLock n version version) := h.removeLock fun i hi =>
          .inl (h.oneNode _ hmine _ (h.present version i hi) rfl)
        exact Option.some.inj hstep ▸ hremove.setCall trivial
      · cases hstep

/-- Over every interleaving of calls by any number of nodes, as long as each step is safe, the locks
are respected. -/
theorem locks_respected {as : List LockStep} (hsafe : Along step LockSafe init as)
    (hrun : run step init as = some s) : Respected s :=
  (run_along_preserves step (fun _ _ _ h ha hstep => Guarded.step h ha hstep) guarded_init hsafe
    hrun).toRespected

/-- A call of `get_lock` that finds no lock file and acquires the lock. -/
def acquires (n : Nat) (version : ElectionVersion) : List LockStep :=
  [.begin n version, .list n, .compare n, .create n]

/-- Two nodes run for one version, of which the second is turned down, runs again with the next
sub-version and takes the lock over; a third one comes with a version that is too old. -/
def contestedSteps : List LockStep :=
  [.begin 0 ⟨5, 0⟩, .begin 1 ⟨5, 0⟩, .list 0, .list 1, .compare 0, .compare 1, .create 0,
    .create 1] ++
  [.begin 1 ⟨5, 1⟩, .list 1, .compare 1, .wake 1 true, .remove 1, .create 1] ++
  [.begin 2 ⟨4, 7⟩, .list 2, .compare 2, .release 0, .release 1]

theorem contestedSteps_safe : Along step LockSafe init contestedSteps := by
  decide +kernel

theorem locks_respected_contested :
    ∃ s, run step init contestedSteps = some s ∧
      s.acquisitions = [(1, ⟨5, 1⟩), (0, ⟨5, 0⟩)] ∧ s.removals.length = 2 ∧
      s.rejections = [(⟨4, 7⟩, ⟨5, 1⟩), (⟨5, 0⟩, ⟨5, 0⟩)] ∧ Respected s :=
  ⟨_, rfl, by decide, by decide, by decide, locks_respected contestedSteps_safe rfl⟩

/-- As strings, sub-version 10 is older than sub-version 9. -/
theorem newer_election_rejected :
    ∃ s, run step init (acquires 0 ⟨5, 9⟩ ++ [.begin 1 ⟨5, 10⟩, .list 1, .compare 1]) = some s ∧
      ¬ Respected s := by
  refine ⟨_, rfl, fun h => ?_⟩
  exact h.rejected (⟨5, 10⟩, ⟨5, 9⟩) (by decide +kernel) (by decide)

end LockService

end ObjectStorage.Osm
