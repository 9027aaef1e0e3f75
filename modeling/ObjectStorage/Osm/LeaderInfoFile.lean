import ObjectStorage.Library.Transition
import ObjectStorage.Osm.LeaderFile

/-!
Who is the global leader: the information file carries the version in its name and the leader in its
contents. A node takes ownership after an election, or starts as leader without one; both rename the
file and rewrite it in separate steps.
-/

namespace ObjectStorage.Osm

open Library

/-- Where a node is in an attempt to become leader. The first five places are those of the
take-ownership message, the next four those of a start without election; the mount is the last step
of both. -/
inductive LeaderAttempt where
  | idle
  | verified (version : Nat)
  | unmounted (version : Nat)
  | matched (version : Nat)
  | renamed (version : Nat)
  | starting
  | found (file : Option Nat)
  | chosen (version : Nat) (created changed : Bool)
  | checked (version : Nat)
  | written (version : Nat)
deriving DecidableEq

/-- The information files, each empty or with the node it names, the attempts in progress, the
versions that nodes succeeded for, the newest first, and the failed attempts, with whether they had
changed a file. -/
structure LeaderService where
  dir : Directory Nat (Option Nat)
  attempts : Nat → LeaderAttempt
  successes : List (Nat × Nat)
  failures : List (Nat × Bool)

inductive LeaderStep where
  | verify (n lockVersion : Nat) (infoVersion : Option Nat)
  | unmount (n : Nat) (unmounted : Bool)
  | matchVersion (n : Nat)
  | rename (n : Nat)
  | start (n : Nat)
  | find (n : Nat) (file : Option Nat)
  | chooseFile (n : Nat)
  | check (n : Nat)
  | write (n : Nat)
  | mount (n : Nat) (mounted : Bool)

namespace LeaderService

def init : LeaderService := ⟨.empty fun _ => none, fun _ => .idle, [], []⟩

def setAttempt (s : LeaderService) (n : Nat) (attempt : LeaderAttempt) : LeaderService :=
  { s with attempts := Function.update s.attempts n attempt }

def fail (s : LeaderService) (n : Nat) (changed : Bool) : LeaderService :=
  { s with failures := (n, changed) :: s.failures }.setAttempt n .idle

def succeed (s : LeaderService) (n version : Nat) : LeaderService :=
  { s with successes := (n, version) :: s.successes }.setAttempt n .idle

/-- The truncating write, which fails if the file is not there. -/
def writeData (s : LeaderService) (n version : Nat) : Option (Directory Nat (Option Nat)) :=
  (s.dir.lookup version).map fun i => s.dir.put i (some n)

def step (s : LeaderService) : LeaderStep → Option LeaderService
  -- `verify_election_pre_conditions`: the newest lock file is about the current version
  | .verify n lockVersion infoVersion =>
      match s.attempts n with
      | .idle =>
          if scanFinds s.dir infoVersion then
            some (if infoVersion = some lockVersion then s.setAttempt n (.verified lockVersion)
              else s.fail n false)
          else none
      | _ => none
  | .unmount n unmounted =>
      match s.attempts n with
      | .verified version =>
          some (if unmounted then s.setAttempt n (.unmounted version) else s.fail n false)
      | _ => none
  | .matchVersion n =>
      match s.attempts n with
      | .unmounted version =>
          some (if version ∈ s.dir.names then s.setAttempt n (.matched version)
            else s.fail n false)
      | _ => none
  | .rename n =>
      match s.attempts n with
      | .matched version =>
          match s.dir.rename version (nextVersion version) with
          | some dir => some ({ s with dir := dir }.setAttempt n (.renamed (nextVersion version)))
          | none => some (s.fail n false)
      | _ => none
  | .start n =>
      match s.attempts n with
      | .idle => some (s.setAttempt n .starting)
      | _ => none
  | .find n file =>
      match s.attempts n with
      | .starting => if scanFinds s.dir file then some (s.setAttempt n (.found file)) else none
      | _ => none
  | .chooseFile n =>
      match s.attempts n with
      | .found file =>
          let (dir, version) := createAndRename s.dir file
          some ({ s with dir := dir }.setAttempt n
            (.chosen version file.isNone (decide (dir.names ≠ s.dir.names))))
      | _ => none
  -- the owner is compared after the rename
  | .check n =>
      match s.attempts n with
      | .chosen version created changed =>
          some (if created ∨ (s.dir.lookup version).bind s.dir.contents = some n
            then s.setAttempt n (.checked version) else s.fail n changed)
      | _ => none
  | .write n =>
      match s.attempts n with
      | .renamed version =>
          match s.writeData n version with
          | some dir => some ({ s with dir := dir }.setAttempt n (.written version))
          | none => some (s.fail n true)
      -- `update_gl_info_file` does not look at the result of its write
      | .checked version =>
          some ({ s with dir := (s.writeData n version).getD s.dir }.setAttempt n
            (.written version))
      | _ => none
  | .mount n mounted =>
      match s.attempts n with
      | .written version => some (if mounted then s.succeed n version else s.fail n true)
      | _ => none

def Quiescent (s : LeaderService) : Prop := ∀ n, s.attempts n = .idle

/-- The information file as it should be after the successes so far: none before the first one,
then one file, whose version counts them and whose contents name the node that succeeded last. -/
def NamesLeader (s : LeaderService) : Prop :=
  match s.successes with
  | [] => s.dir.entries = []
  | (n, version) :: _ => version = s.successes.length ∧
      ∃ i, s.dir.entries = [(version, i)] ∧ s.dir.contents i = some n

/-- One leader for each version, failed attempts that change nothing, and an information file that
names the leader whenever no attempt is in progress. -/
structure OneLeader (s : LeaderService) : Prop where
  versions : (s.successes.map (·.2)).Nodup
  failures : ∀ f ∈ s.failures, f.2 = false
  namesLeader : s.Quiescent → s.NamesLeader

/-- The node has renamed or created the file and has not finished yet. -/
def Updating : LeaderAttempt → Bool
  | .renamed _ | .chosen _ _ _ | .checked _ | .written _ => true
  | _ => false

def NoneUpdating (s : LeaderService) : Prop := ∀ n, Updating (s.attempts n) = false

/-- When a step keeps the leadership: a file is renamed or created only while no other attempt is
updating it, and from a version that a `float` counts up; a start without election renames the file
that it found, which names the node, or creates it while there is none; and no mount fails after the
update. -/
def LeaderSafe (s : LeaderService) : LeaderStep → Prop
  | .rename n => ∀ version, s.attempts n = .matched version → version ∈ s.dir.names →
      s.NoneUpdating ∧ version < 2 ^ 24
  | .chooseFile n => ∀ file, s.attempts n = .found file → s.NoneUpdating ∧
      match file with
      | some version => (s.dir.lookup version).bind s.dir.contents = some n ∧ version < 2 ^ 24
      | none => s.dir.entries = []
  | .mount _ mounted => mounted = true
  | _ => True

variable {s s' : LeaderService} {n : Nat}

/-- The file of an attempt that is updating it: the version after the successes so far, and the node
in its contents from the write on. -/
def AttemptHolds (s : LeaderService) (n : Nat) : LeaderAttempt → Prop
  | .renamed version | .checked version => version = s.successes.length + 1 ∧
      ∃ i, s.dir.entries = [(version, i)]
  | .chosen version created _ => version = s.successes.length + 1 ∧
      ∃ i, s.dir.entries = [(version, i)] ∧ (created ∨ s.dir.contents i = some n)
  | .written version => version = s.successes.length + 1 ∧
      ∃ i, s.dir.entries = [(version, i)] ∧ s.dir.contents i = some n
  | _ => True

theorem attemptHolds_of_not_updating {attempt : LeaderAttempt} (h : Updating attempt = false) :
    s.AttemptHolds n attempt := by
  cases attempt with
  | renamed | chosen | checked | written => cases h
  | idle | verified | unmounted | matched | starting | found => trivial

/-- One attempt at most is updating the file, and otherwise the file names the leader. -/
structure Led (s : LeaderService) : Prop where
  versions : (s.successes.map (·.2)).Nodup
  bounded : ∀ p ∈ s.successes, p.2 ≤ s.successes.length
  failures : ∀ f ∈ s.failures, f.2 = false
  named : s.NoneUpdating → s.NamesLeader
  attempts : ∀ n, s.AttemptHolds n (s.attempts n)
  one : ∀ n m, Updating (s.attempts n) = true → Updating (s.attempts m) = true → n = m

theorem led_init : Led init where
  versions := by simp [init]
  bounded p hp := by simp [init] at hp
  failures f hf := by simp [init] at hf
  named _ := rfl
  attempts _ := trivial
  one n m h := by simp [init, Updating] at h

theorem Led.oneLeader (h : Led s) : OneLeader s where
  versions := h.versions
  failures := h.failures
  namesLeader hidle := h.named fun n => by rw [hidle n]; rfl

theorem attempts_setAttempt (s : LeaderService) (n : Nat) (attempt : LeaderAttempt) (m : Nat) :
    (s.setAttempt n attempt).attempts m = if m = n then attempt else s.attempts m := by
  simp [setAttempt, Function.update_apply]

theorem Led.setAttempt (h : Led s) {attempt : LeaderAttempt}
    (hold : Updating (s.attempts n) = false) (hnew : Updating attempt = false) :
    Led (s.setAttempt n attempt) := by
  have hupdating : ∀ m, Updating ((s.setAttempt n attempt).attempts m) = Updating (s.attempts m) :=
    fun m => by
      rw [attempts_setAttempt]
      by_cases hm : m = n
      · rw [if_pos hm, hnew, hm, hold]
      · rw [if_neg hm]
  refine ⟨h.versions, h.bounded, h.failures, fun hnone => h.named fun m => ?_, fun m => ?_,
    fun m m' hm hm' => h.one m m' ?_ ?_⟩
  · rw [← hupdating]
    exact hnone m
  · rw [attempts_setAttempt]
    by_cases hm : m = n
    · rw [if_pos hm]
      exact attemptHolds_of_not_updating hnew
    · rw [if_neg hm]
      exact h.attempts m
  · rw [← hupdating]
    exact hm
  · rw [← hupdating]
    exact hm'

theorem Led.fail (h : Led s) (hold : Updating (s.attempts n) = false) : Led (s.fail n false) := by
  have hlog : Led { s with failures := (n, false) :: s.failures } := by
    refine ⟨h.versions, h.bounded, fun f hf => ?_, h.named, fun m => h.attempts m, h.one⟩
    rcases List.mem_cons.mp hf with rfl | hf
    · rfl
    · exact h.failures f hf
  exact hlog.setAttempt hold rfl

theorem Led.update (h : Led s) (hsuccesses : s'.successes = s.successes)
    (hfailures : s'.failures = s.failures)
    (hother : ∀ m, m ≠ n → Updating (s'.attempts m) = false)
    (hupdating : Updating (s'.attempts n) = true)
    (hholds : s'.AttemptHolds n (s'.attempts n)) : Led s' := by
  have honly : ∀ m, Updating (s'.attempts m) = true → m = n := fun m hm =>
    Classical.byContradiction fun hne => by
      rw [hother m hne] at hm
      cases hm
  constructor
  · rw [hsuccesses]
    exact h.versions
  · rw [hsuccesses]
    exact h.bounded
  · rw [hfailures]
    exact h.failures
  · intro hnone
    rw [hnone n] at hupdating
    cases hupdating
  · intro m
    by_cases hm : m = n
    · rw [hm]
      exact hholds
    · exact attemptHolds_of_not_updating (hother m hm)
  · intro m m' hm hm'
    rw [honly m hm, honly m' hm']

theorem Led.succeed (h : Led s) {version : Nat} (hn : s.attempts n = .written version) :
    Led (s.succeed n version) := by
  obtain ⟨hversion, i, hentries, hcontents⟩ : s.AttemptHolds n (.written version) :=
    hn ▸ h.attempts n
  have hother : ∀ m, Updating ((s.succeed n version).attempts m) = false := by
    intro m
    rw [LeaderService.succeed, attempts_setAttempt]
    by_cases hm : m = n
    · rw [if_pos hm]
      rfl
    · rw [if_neg hm]
      cases hup : Updating (s.attempts m) with
      | false => rfl
      | true => exact absurd (h.one m n hup (by rw [hn]; rfl)) hm
  constructor
  · refine List.nodup_cons.mpr ⟨fun hin => ?_, h.versions⟩
    obtain ⟨p, hp, heq⟩ := List.mem_map.mp hin
    have hle := h.bounded p hp
    have heq : p.2 = version := heq
    omega
  · intro p hp
    rcases List.mem_cons.mp hp with rfl | hp
    · exact Nat.le_of_eq hversion
    · exact Nat.le_succ_of_le (h.bounded p hp)
  · exact h.failures
  · exact fun _ => ⟨hversion, i, hentries, hcontents⟩
  · exact fun m => attemptHolds_of_not_updating (hother m)
  · intro m m' hm
    rw [hother m] at hm
    cases hm

theorem Led.version_eq (h : Led s) (hnone : s.NoneUpdating) {version i : Nat}
    (hi : s.dir.lookup version = some i) :
    version = s.successes.length ∧ s.dir.entries = [(version, i)] := by
  have hnamed := h.named hnone
  have hmem := Directory.lookup_eq_some.mp hi
  unfold NamesLeader at hnamed
  cases hs : s.successes with
  | nil =>
      rw [hs] at hnamed
      simp [hnamed] at hmem
  | cons p ps =>
      rw [hs] at hnamed
      obtain ⟨hversion, j, hentries, -⟩ := hnamed
      rw [hentries, List.mem_singleton] at hmem
      obtain ⟨rfl, rfl⟩ := Prod.mk.inj hmem
      exact ⟨hversion, hentries⟩

theorem Led.successes_length (h : Led s) (hnone : s.NoneUpdating) (hempty : s.dir.entries = []) :
    s.successes.length = 0 := by
  have hnamed := h.named hnone
  unfold NamesLeader at hnamed
  cases hs : s.successes with
  | nil => rfl
  | cons p ps =>
      rw [hs] at hnamed
      obtain ⟨-, i, hsingle, -⟩ := hnamed
      rw [hempty] at hsingle
      cases hsingle

theorem Led.rename_next (h : Led s) (hnone : s.NoneUpdating) {version i : Nat}
    (hi : s.dir.lookup version = some i) (hcounts : version < 2 ^ 24) :
    nextVersion version = s.successes.length + 1 ∧
      ∃ dir, s.dir.rename version (nextVersion version) = some dir ∧
        dir.entries = [(nextVersion version, i)] ∧ dir.contents = s.dir.contents := by
  obtain ⟨hversion, hentries⟩ := h.version_eq hnone hi
  obtain ⟨dir, hrename, hentries', hcontents, -⟩ :=
    Directory.rename_single (m := nextVersion version) hentries
  exact ⟨(nextVersion_of_lt hcounts).trans (congrArg (· + 1) hversion), dir, hrename, hentries',
    hcontents⟩

/-- Where no other node is updating the file, the node may begin to, or go on. -/
theorem Led.setUpdating (h : Led s) (hothers : ∀ m, m ≠ n → Updating (s.attempts m) = false)
    {dir : Directory Nat (Option Nat)} {attempt : LeaderAttempt}
    (hupdating : Updating attempt = true)
    (hholds : ({ s with dir := dir } : LeaderService).AttemptHolds n attempt) :
    Led ({ s with dir := dir }.setAttempt n attempt) := by
  refine h.update (n := n) rfl rfl (fun m hm => ?_) ?_ ?_
  · rw [attempts_setAttempt, if_neg hm]
    exact hothers m hm
  · rw [attempts_setAttempt, if_pos rfl]
    exact hupdating
  · rw [attempts_setAttempt, if_pos rfl]
    exact hholds

theorem Led.goOn (h : Led s) (hold : Updating (s.attempts n) = true)
    {dir : Directory Nat (Option Nat)} {attempt : LeaderAttempt}
    (hupdating : Updating attempt = true)
    (hholds : ({ s with dir := dir } : LeaderService).AttemptHolds n attempt) :
    Led ({ s with dir := dir }.setAttempt n attempt) := by
  refine h.setUpdating (fun m hm => ?_) hupdating hholds
  cases hup : Updating (s.attempts m) with
  | false => rfl
  | true => exact absurd (h.one m n hup hold) hm

theorem writeData_single {version i : Nat} (hentries : s.dir.entries = [(version, i)]) :
    s.writeData n version = some (s.dir.put i (some n)) := by
  have hlookup : s.dir.lookup version = some i :=
    Directory.lookup_eq_some.mpr (by rw [hentries]; exact List.mem_singleton_self _)
  rw [writeData, hlookup]
  rfl

theorem Led.step (h : Led s) {a : LeaderStep} (hsafe : s.LeaderSafe a)
    (hstep : s.step a = some s') : Led s' := by
  cases a with
  | verify n lockVersion infoVersion =>
      simp only [LeaderService.step] at hstep
      split at hstep
      · rename_i hn
        have hold : Updating (s.attempts n) = false := by rw [hn]; rfl
        split at hstep
        · split at hstep
          · exact Option.some.inj hstep ▸ h.setAttempt hold rfl
          · exact Option.some.inj hstep ▸ h.fail hold
        · cases hstep
      · cases hstep
  | unmount n unmounted =>
      simp only [LeaderService.step] at hstep
      split at hstep
      · rename_i version hn
        have hold : Updating (s.attempts n) = false := by rw [hn]; rfl
        split at hstep
        · exact Option.some.inj hstep ▸ h.setAttempt hold rfl
        · exact Option.some.inj hstep ▸ h.fail hold
      · cases hstep
  | matchVersion n =>
      simp only [LeaderService.step] at hstep
      split at hstep
      · rename_i version hn
        have hold : Updating (s.attempts n) = false := by rw [hn]; rfl
        split at hstep
        · exact Option.some.inj hstep ▸ h.setAttempt hold rfl
        · exact Option.some.inj hstep ▸ h.fail hold
      · cases hstep
  | rename n =>
      simp only [LeaderService.step] at hstep
      split at hstep
      · rename_i version hn
        have hold : Updating (s.attempts n) = false := by rw [hn]; rfl
        split at hstep
        · rename_i dir hrename
          have hmem : version ∈ s.dir.names := Classical.byContradiction fun hnot => by
            rw [Directory.rename_eq_none.mpr hnot] at hrename
            cases hrename
          obtain ⟨hnone, hcounts⟩ := hsafe version hn hmem
          obtain ⟨i, hi⟩ := Directory.ext_lookup_mem.mp hmem
          obtain ⟨hversion, dir', hrename', hentries, -⟩ := h.rename_next hnone hi hcounts
          obtain rfl := Option.some.inj (hrename.symm.trans hrename')
          exact Option.some.inj hstep ▸
            h.setUpdating (fun m _ => hnone m) rfl ⟨hversion, i, hentries⟩
        · exact Option.some.inj hstep ▸ h.fail hold
      · cases hstep
  | start n =>
      simp only [LeaderService.step] at hstep
      split at hstep
      · rename_i hn
        have hold : Updating (s.attempts n) = false := by rw [hn]; rfl
        exact Option.some.inj hstep ▸ h.setAttempt hold rfl
      · cases hstep
  | find n file =>
      simp only [LeaderService.step] at hstep
      split at hstep
      · rename_i hn
        have hold : Updating (s.attempts n) = false := by rw [hn]; rfl
        split at hstep
        · exact Option.some.inj hstep ▸ h.setAttempt hold rfl
        · cases hstep
      · cases hstep
  | chooseFile n =>
      simp only [LeaderService.step] at hstep
      split at hstep
      · rename_i file hn
        obtain ⟨hnone, hfile⟩ := hsafe file hn
        refine Option.some.inj hstep ▸ h.setUpdating (fun m _ => hnone m) rfl ?_
        cases file with
        | none =>
            obtain ⟨hentries, -⟩ := createAndRename_none hfile
            exact ⟨by rw [h.successes_length hnone hfile]; rfl, _, hentries, .inl rfl⟩
        | some version =>
            obtain ⟨howner, hcounts⟩ := hfile
            obtain ⟨i, hi, hcontents⟩ := Option.bind_eq_some_iff.mp howner
            obtain ⟨hversion, dir', hrename, hentries, hcontents'⟩ := h.rename_next hnone hi hcounts
            refine ⟨hversion, i, ?_, .inr ?_⟩
            · simp [createAndRename, hrename, hentries]
            · simp [createAndRename, hrename, hcontents', hcontents]
      · cases hstep
  | check n =>
      simp only [LeaderService.step] at hstep
      split at hstep
      · rename_i version created changed hn
        have hold : Updating (s.attempts n) = true := by rw [hn]; rfl
        obtain ⟨hversion, i, hentries, howner⟩ :
            s.AttemptHolds n (.chosen version created changed) :=
          hn ▸ h.attempts n
        have hlookup : s.dir.lookup version = some i :=
          Directory.lookup_eq_some.mpr (by rw [hentries]; exact List.mem_singleton_self _)
        rw [if_pos (by rw [hlookup]; exact howner)] at hstep
        exact Option.some.inj hstep ▸ h.goOn hold rfl ⟨hversion, i, hentries⟩
      · cases hstep
  | write n =>
      simp only [LeaderService.step] at hstep
      split at hstep
      · rename_i version hn
        have hold : Updating (s.attempts n) = true := by rw [hn]; rfl
        obtain ⟨hversion, i, hentries⟩ : s.AttemptHolds n (.renamed version) := hn ▸ h.attempts n
        rw [writeData_single hentries] at hstep
        exact Option.some.inj hstep ▸ h.goOn hold rfl ⟨hversion, i, hentries, by simp⟩
      · rename_i version hn
        have hold : Updating (s.attempts n) = true := by rw [hn]; rfl
        obtain ⟨hversion, i, hentries⟩ : s.AttemptHolds n (.checked version) := hn ▸ h.attempts n
        rw [writeData_single hentries, Option.getD_some] at hstep
        exact Option.some.inj hstep ▸ h.goOn hold rfl ⟨hversion, i, hentries, by simp⟩
      · cases hstep
  | mount n mounted =>
      obtain rfl : mounted = true := hsafe
      simp only [LeaderService.step] at hstep
      split at hstep
      · rename_i version hn
        exact Option.some.inj hstep ▸ h.succeed hn
      · cases hstep

/-- Over every interleaving of elections and starts without election, as long as each step is safe,
there is one leader for each version and the information file names it. -/
theorem one_leader_per_version {as : List LeaderStep} (hsafe : Along step LeaderSafe init as)
    (hrun : run step init as = some s) : OneLeader s :=
  (run_along_preserves step (fun _ _ _ h ha hstep => Led.step h ha hstep) led_init hsafe
    hrun).oneLeader

/-- The steps of a start without election up to the comparison of the owner. -/
def startsWithout (n : Nat) (file : Option Nat) : List LeaderStep :=
  [.start n, .find n file, .chooseFile n, .check n]

/-- A start without election, then two elections at once, the second of which finds its file
renamed. -/
def contestedSteps : List LeaderStep :=
  startsWithout 0 none ++ [.write 0, .mount 0 true, .verify 1 1 (some 1), .verify 2 1 (some 1),
    .unmount 1 true, .unmount 2 true, .matchVersion 1, .matchVersion 2, .rename 1, .rename 2,
    .write 1, .mount 1 true]

theorem one_leader_per_version_contested :
    ∃ s, run step init contestedSteps = some s ∧ s.successes = [(1, 2), (0, 1)] ∧
      s.failures = [(2, false)] ∧ OneLeader s := by
  have hsafe : Along step LeaderSafe init contestedSteps := by
    refine ⟨trivial, fun _ h => ?_⟩
    cases h
    refine ⟨trivial, fun _ h => ?_⟩
    cases h
    refine ⟨fun file hn => ?_, fun _ h => ?_⟩
    · cases hn
      refine ⟨fun m => ?_, rfl⟩
      rcases m with _ | m <;> rfl
    cases h
    refine ⟨trivial, fun _ h => ?_⟩
    cases h
    refine ⟨trivial, fun _ h => ?_⟩
    cases h
    refine ⟨rfl, fun _ h => ?_⟩
    cases h
    refine ⟨trivial, fun _ h => ?_⟩
    cases h
    refine ⟨trivial, fun _ h => ?_⟩
    cases h
    refine ⟨trivial, fun _ h => ?_⟩
    cases h
    refine ⟨trivial, fun _ h => ?_⟩
    cases h
    refine ⟨trivial, fun _ h => ?_⟩
    cases h
    refine ⟨trivial, fun _ h => ?_⟩
    cases h
    refine ⟨fun version hn _ => ?_, fun _ h => ?_⟩
    · cases hn
      refine ⟨fun m => ?_, by decide⟩
      rcases m with _ | _ | _ | m <;> rfl
    cases h
    refine ⟨fun version hn hmem => ?_, fun _ h => ?_⟩
    · cases hn
      exact absurd hmem (by decide)
    cases h
    refine ⟨trivial, fun _ h => ?_⟩
    cases h
    exact ⟨rfl, fun _ _ => trivial⟩
  exact ⟨_, rfl, rfl, rfl, one_leader_per_version hsafe rfl⟩

/-- A node that is not the leader renames the file on its start, and then finds out. -/
theorem failed_start_renames_file :
    ∃ s, run step init (startsWithout 0 none ++ [.write 0, .mount 0 true] ++
      startsWithout 1 (some 1)) = some s ∧ s.dir.names = [2] ∧ s.successes = [(0, 1)] ∧
      ¬ OneLeader s := by
  refine ⟨_, rfl, by decide, rfl, fun h => ?_⟩
  exact absurd (h.failures (1, true) (by decide)) (by decide)

end LeaderService

end ObjectStorage.Osm
