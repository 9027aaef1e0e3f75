import ObjectStorage.Library.Transition
import ObjectStorage.Osm.LeaderFile

/-!
The version ids that global leaders hand out from the status file. A leader reads the id, truncates
the file, writes the next id and acknowledges it; a new leader renames the file on its start, and a
leader may crash between any two of these steps.
-/

namespace ObjectStorage.Osm

open Library

/-- Where a leader is in `handle_get_version_request`. -/
inductive VersionRequest where
  | idle
  | opened (fd : Option Nat)
  | hasRead (storedId : UInt64)
  | truncated (fd : Option Nat) (versionId : UInt64)
  | written (versionId : UInt64)
deriving DecidableEq

/-- A leader's status file, as the number `k` of the name `osd_global_leader_status_k.0`, what its
directory scan found, and its request in progress. -/
structure StatusLeader where
  statusFile : Option Nat
  scanned : Option (Option Nat)
  request : VersionRequest
deriving DecidableEq

/-- The status files, empty or with eight bytes, the leaders that run, and the acknowledged ids, the
newest first. -/
structure VersionService where
  dir : Directory Nat (Option UInt64)
  leaders : Nat → Option StatusLeader
  acknowledged : List UInt64

inductive VersionStep where
  | start (l : Nat)
  | scan (l : Nat) (found : Option Nat)
  | chooseFile (l : Nat)
  | openRead (l : Nat)
  | read (l : Nat)
  | openTruncate (l : Nat)
  | write (l : Nat)
  | acknowledge (l : Nat)
  | crash (l : Nat)

namespace VersionService

def init : VersionService := ⟨.empty fun _ => none, fun _ => none, []⟩

def setLeader (s : VersionService) (l : Nat) (leader : Option StatusLeader) : VersionService :=
  { s with leaders := Function.update s.leaders l leader }

/-- What `read` leaves in the zeroed buffer: nothing is read from a file that is not open or is
empty. -/
def readStoredId (dir : Directory Nat (Option UInt64)) (fd : Option Nat) : UInt64 :=
  (fd.bind dir.contents).getD 0

def putFile (dir : Directory Nat (Option UInt64)) (fd : Option Nat) (bytes : Option UInt64) :
    Directory Nat (Option UInt64) :=
  match fd with
  | some i => dir.put i bytes
  | none => dir

def step (s : VersionService) : VersionStep → Option VersionService
  | .start l =>
      match s.leaders l with
      | none => some (s.setLeader l (some ⟨none, none, .idle⟩))
      | some _ => none
  | .scan l found =>
      match s.leaders l with
      | some ⟨none, none, request⟩ =>
          if scanFinds s.dir found then some (s.setLeader l (some ⟨none, some found, request⟩))
          else none
      | _ => none
  | .chooseFile l =>
      match s.leaders l with
      | some ⟨none, some found, request⟩ =>
          let (dir, version) := createAndRename s.dir found
          some ({ s with dir := dir }.setLeader l (some ⟨some version, some found, request⟩))
      | _ => none
  | .openRead l =>
      match s.leaders l with
      | some ⟨file, scanned, .idle⟩ =>
          some (s.setLeader l (some ⟨file, scanned, .opened (file.bind s.dir.lookup)⟩))
      | _ => none
  | .read l =>
      match s.leaders l with
      | some ⟨file, scanned, .opened fd⟩ =>
          some (s.setLeader l (some ⟨file, scanned, .hasRead (readStoredId s.dir fd)⟩))
      | _ => none
  | .openTruncate l =>
      match s.leaders l with
      | some ⟨file, scanned, .hasRead storedId⟩ =>
          let fd := file.bind s.dir.lookup
          some ({ s with dir := putFile s.dir fd none }.setLeader l
            (some ⟨file, scanned, .truncated fd (storedId + 1)⟩))
      | _ => none
  | .write l =>
      match s.leaders l with
      | some ⟨file, scanned, .truncated fd versionId⟩ =>
          some ({ s with dir := putFile s.dir fd (some versionId) }.setLeader l
            (some ⟨file, scanned, .written versionId⟩))
      | _ => none
  | .acknowledge l =>
      match s.leaders l with
      | some ⟨file, scanned, .written versionId⟩ =>
          some ({ s with acknowledged := versionId :: s.acknowledged }.setLeader l
            (some ⟨file, scanned, .idle⟩))
      | _ => none
  | .crash l =>
      match s.leaders l with
      | some _ => some (s.setLeader l none)
      | none => none

def requestOf (s : VersionService) (l : Nat) : VersionRequest :=
  ((s.leaders l).map (·.request)).getD .idle

def fileOf (s : VersionService) (l : Nat) : Option Nat := (s.leaders l).bind (·.statusFile)

/-- The id in the status file; an absent or an empty file counts as zero. -/
def storedId (s : VersionService) : UInt64 :=
  readStoredId s.dir (s.dir.entries.head?.map (·.2))

/-- No leader is between its truncating open and its write. -/
def NoneTruncated (s : VersionService) : Prop := ∀ l fd v, s.requestOf l ≠ .truncated fd v

/-- When a step hands out no old version: a crash does not fall between the truncating open and the
write, a file is created only while there is none, a leader opens the file under its current name,
truncates it only if nobody else is rewriting it, it still holds the id that was read and there is a
next id, and acknowledges the id that the file holds. -/
def VersionSafe (s : VersionService) : VersionStep → Prop
  | .chooseFile l => ∀ leader, s.leaders l = some leader → leader.scanned = some none →
      s.dir.entries = []
  | .openTruncate l => (∃ version ∈ s.fileOf l, version ∈ s.dir.names) ∧ s.NoneTruncated ∧
      s.requestOf l = .hasRead s.storedId ∧ s.storedId < s.storedId + 1
  | .acknowledge l => ∃ e, s.dir.entries = [e] ∧ ∃ v, s.dir.contents e.2 = some v ∧
      s.requestOf l = .written v
  | .crash l => ∀ fd v, s.requestOf l ≠ .truncated fd v
  | _ => True

variable {s s' : VersionService} {l : Nat} {n : UInt64}

@[simp] theorem dir_setLeader (s : VersionService) (l : Nat) (leader : Option StatusLeader) :
    (s.setLeader l leader).dir = s.dir := rfl

@[simp] theorem acknowledged_setLeader (s : VersionService) (l : Nat)
    (leader : Option StatusLeader) : (s.setLeader l leader).acknowledged = s.acknowledged := rfl

theorem requestOf_setLeader (s : VersionService) (l : Nat) (leader : Option StatusLeader)
    (l' : Nat) :
    (s.setLeader l leader).requestOf l' =
      if l' = l then (leader.map (·.request)).getD .idle else s.requestOf l' := by
  by_cases h : l' = l
  · simp [requestOf, setLeader, h]
  · simp [requestOf, setLeader, h]

theorem requestOf_eq {leader : StatusLeader} (h : s.leaders l = some leader) :
    s.requestOf l = leader.request := by
  simp [requestOf, h]

/-- There is one status file at most, `n` is the newest id written to it, or read from it by the
leader that has truncated it, and the ids written and not acknowledged yet are old or `n`. -/
structure Counts (s : VersionService) (n : UInt64) : Prop where
  oneFile : s.dir.entries = [] ∨ ∃ e, s.dir.entries = [e]
  stored : s.NoneTruncated → s.storedId = n
  truncated : ∀ l fd v, s.requestOf l = .truncated fd v → v = n + 1 ∧ n < n + 1 ∧
    ∃ e, s.dir.entries = [e] ∧ fd = some e.2 ∧ s.dir.contents e.2 = none
  oneTruncated : ∀ l l' fd fd' v v', s.requestOf l = .truncated fd v →
    s.requestOf l' = .truncated fd' v' → l = l'
  acknowledged_le : ∀ a ∈ s.acknowledged, a ≤ n
  increasing : s.acknowledged.Pairwise (· > ·)
  written_le : ∀ l v, s.requestOf l = .written v → v ≤ n
  written_new : ∀ l, s.requestOf l = .written n → ∀ a ∈ s.acknowledged, a < n
  oneWritten : ∀ l l', s.requestOf l = .written n → s.requestOf l' = .written n → l = l'

theorem counts_init : Counts init 0 where
  oneFile := .inl rfl
  stored _ := rfl
  truncated l fd v h := by simp [init, requestOf] at h
  oneTruncated l l' fd fd' v v' h := by simp [init, requestOf] at h
  acknowledged_le a ha := by simp [init] at ha
  increasing := List.Pairwise.nil
  written_le l v h := by simp [init, requestOf] at h
  written_new l h := by simp [init, requestOf] at h
  oneWritten l l' h := by simp [init, requestOf] at h

/-- Steps that change the request of one leader, which neither is nor was rewriting the file and
has no id to acknowledge. -/
theorem Counts.setRequest (h : Counts s n) (hdir : s'.dir = s.dir)
    (hacked : s'.acknowledged = s.acknowledged)
    (hother : ∀ l', l' ≠ l → s'.requestOf l' = s.requestOf l')
    (hold : ∀ fd v, s.requestOf l ≠ .truncated fd v)
    (hnew : ∀ fd v, s'.requestOf l ≠ .truncated fd v)
    (hwritten : ∀ v, s'.requestOf l ≠ .written v) : Counts s' n := by
  have htruncated : ∀ l' fd v, s'.requestOf l' = .truncated fd v →
      s.requestOf l' = .truncated fd v := fun l' fd v h' => by
    have hne : l' ≠ l := fun heq => hnew fd v (heq ▸ h')
    rw [← hother l' hne, h']
  have hwritten' : ∀ l' v, s'.requestOf l' = .written v → s.requestOf l' = .written v :=
    fun l' v h' => by
      have hne : l' ≠ l := fun heq => hwritten v (heq ▸ h')
      rw [← hother l' hne, h']
  constructor
  · rw [hdir]
    exact h.oneFile
  · intro hnone
    have hid : s'.storedId = s.storedId := by rw [storedId, hdir, storedId]
    rw [hid]
    refine h.stored fun l' fd v h' => ?_
    by_cases hl : l' = l
    · exact hold fd v (hl ▸ h')
    · exact hnone l' fd v ((hother l' hl).trans h')
  · intro l' fd v h'
    rw [hdir]
    exact h.truncated l' fd v (htruncated l' fd v h')
  · exact fun l₁ l₂ fd fd' v v' h₁ h₂ =>
      h.oneTruncated l₁ l₂ fd fd' v v' (htruncated l₁ fd v h₁) (htruncated l₂ fd' v' h₂)
  · rw [hacked]
    exact h.acknowledged_le
  · rw [hacked]
    exact h.increasing
  · exact fun l' v h' => h.written_le l' v (hwritten' l' v h')
  · intro l' h'
    rw [hacked]
    exact h.written_new l' (hwritten' l' n h')
  · exact fun l₁ l₂ h₁ h₂ => h.oneWritten l₁ l₂ (hwritten' l₁ n h₁) (hwritten' l₂ n h₂)

theorem storedId_single {e : Nat × Nat} (he : s.dir.entries = [e]) :
    s.storedId = (s.dir.contents e.2).getD 0 := by
  simp [storedId, he, readStoredId]

theorem storedId_empty (he : s.dir.entries = []) : s.storedId = 0 := by
  simp [storedId, he, readStoredId]

theorem Counts.chooseFile (h : Counts s n) {found : Option Nat}
    (hnone : found = none → s.dir.entries = [])
    (hdir : s'.dir = (createAndRename s.dir found).1)
    (hacked : s'.acknowledged = s.acknowledged)
    (hrequest : ∀ l, s'.requestOf l = s.requestOf l) : Counts s' n := by
  obtain ⟨hsingle, hempty⟩ := createAndRename_spec hnone
  rw [← hdir] at hsingle hempty
  have hone : s'.dir.entries = [] ∨ ∃ e, s'.dir.entries = [e] := by
    rcases h.oneFile with he | ⟨e, he⟩
    · rcases hempty he with he' | ⟨e', he', -⟩
      · exact .inl he'
      · exact .inr ⟨e', he'⟩
    · obtain ⟨version, he', -⟩ := hsingle e he
      exact .inr ⟨_, he'⟩
  have hid : s'.storedId = s.storedId := by
    rcases h.oneFile with he | ⟨e, he⟩
    · rw [storedId_empty he]
      rcases hempty he with he' | ⟨e', he', hcontents⟩
      · rw [storedId_empty he']
      · simp [storedId_single he', hcontents]
    · obtain ⟨version, he', hcontents⟩ := hsingle e he
      rw [storedId_single he, storedId_single he', hcontents]
  constructor
  · exact hone
  · intro hnone'
    rw [hid]
    exact h.stored fun l fd v => hrequest l ▸ hnone' l fd v
  · intro l fd v ht
    obtain ⟨hv, hlt, e, he, hfd, hcontents⟩ := h.truncated l fd v (hrequest l ▸ ht)
    obtain ⟨version, he', hcontents'⟩ := hsingle e he
    exact ⟨hv, hlt, (version, e.2), he', hfd, by rw [hcontents', hcontents]⟩
  · intro l l' fd fd' v v'
    rw [hrequest, hrequest]
    exact h.oneTruncated l l' fd fd' v v'
  · rw [hacked]
    exact h.acknowledged_le
  · rw [hacked]
    exact h.increasing
  · intro l v
    rw [hrequest]
    exact h.written_le l v
  · intro l
    rw [hrequest, hacked]
    exact h.written_new l
  · intro l l'
    rw [hrequest, hrequest]
    exact h.oneWritten l l'

theorem putFile_some (dir : Directory Nat (Option UInt64)) (i : Nat) (bytes : Option UInt64) :
    putFile dir (some i) bytes = dir.put i bytes := rfl

theorem Counts.openTruncate (h : Counts s n) {e : Nat × Nat} (he : s.dir.entries = [e])
    (hnone : s.NoneTruncated) (hnext : n < n + 1) (hdir : s'.dir = s.dir.put e.2 none)
    (hacked : s'.acknowledged = s.acknowledged)
    (hrequest : ∀ l', s'.requestOf l' =
      if l' = l then .truncated (some e.2) (n + 1) else s.requestOf l') : Counts s' n := by
  have hold : ∀ l' v, s'.requestOf l' = .written v → s.requestOf l' = .written v := by
    intro l' v h'
    rw [hrequest] at h'
    by_cases hl : l' = l
    · simp [hl] at h'
    · rwa [if_neg hl] at h'
  have hthis : ∀ l' fd v, s'.requestOf l' = .truncated fd v →
      l' = l ∧ fd = some e.2 ∧ v = n + 1 := by
    intro l' fd v h'
    rw [hrequest] at h'
    by_cases hl : l' = l
    · rw [if_pos hl] at h'
      obtain ⟨rfl, rfl⟩ := VersionRequest.truncated.inj h'
      exact ⟨hl, rfl, rfl⟩
    · rw [if_neg hl] at h'
      exact absurd h' (hnone l' fd v)
  constructor
  · exact .inr ⟨e, by rw [hdir, Directory.entries_put, he]⟩
  · intro hnone'
    have hl := hrequest l
    rw [if_pos rfl] at hl
    exact absurd hl (hnone' l _ _)
  · intro l' fd v h'
    obtain ⟨-, rfl, rfl⟩ := hthis l' fd v h'
    exact ⟨rfl, hnext, e, by rw [hdir, Directory.entries_put, he], rfl, by simp [hdir]⟩
  · intro l₁ l₂ fd fd' v v' h₁ h₂
    rw [(hthis l₁ fd v h₁).1, (hthis l₂ fd' v' h₂).1]
  · rw [hacked]
    exact h.acknowledged_le
  · rw [hacked]
    exact h.increasing
  · exact fun l' v h' => h.written_le l' v (hold l' v h')
  · intro l' h'
    rw [hacked]
    exact h.written_new l' (hold l' n h')
  · exact fun l₁ l₂ h₁ h₂ => h.oneWritten l₁ l₂ (hold l₁ n h₁) (hold l₂ n h₂)

theorem Counts.write (h : Counts s n) {fd : Option Nat} {v : UInt64}
    (ht : s.requestOf l = .truncated fd v) (hdir : s'.dir = putFile s.dir fd (some v))
    (hacked : s'.acknowledged = s.acknowledged)
    (hrequest : ∀ l', s'.requestOf l' = if l' = l then .written v else s.requestOf l') :
    Counts s' v := by
  obtain ⟨rfl, hlt, e, he, rfl, -⟩ := h.truncated l fd v ht
  rw [putFile_some] at hdir
  have hentries : s'.dir.entries = [e] := by rw [hdir, Directory.entries_put, he]
  have hnone : s'.NoneTruncated := by
    intro l' fd' v' h'
    rw [hrequest] at h'
    by_cases hl : l' = l
    · simp [hl] at h'
    · rw [if_neg hl] at h'
      exact hl (h.oneTruncated l' l _ _ _ _ h' ht)
  have hwritten : ∀ l' v', s'.requestOf l' = .written v' →
      l' = l ∧ v' = n + 1 ∨ s.requestOf l' = .written v' ∧ v' < n + 1 := by
    intro l' v' h'
    rw [hrequest] at h'
    by_cases hl : l' = l
    · rw [if_pos hl] at h'
      exact .inl ⟨hl, (VersionRequest.written.inj h').symm⟩
    · rw [if_neg hl] at h'
      exact .inr ⟨h', UInt64.lt_of_le_of_lt (h.written_le l' v' h') hlt⟩
  have hacked_lt : ∀ a ∈ s'.acknowledged, a < n + 1 := fun a ha =>
    UInt64.lt_of_le_of_lt (h.acknowledged_le a (hacked ▸ ha)) hlt
  constructor
  · exact .inr ⟨e, hentries⟩
  · intro _
    simp [storedId_single hentries, hdir]
  · exact fun l' fd' v' h' => absurd h' (hnone l' fd' v')
  · exact fun l₁ l₂ fd₁ fd₂ v₁ v₂ h₁ => absurd h₁ (hnone l₁ fd₁ v₁)
  · exact fun a ha => UInt64.le_of_lt (hacked_lt a ha)
  · rw [hacked]
    exact h.increasing
  · intro l' v' h'
    rcases hwritten l' v' h' with ⟨-, rfl⟩ | ⟨-, hlt'⟩
    · exact UInt64.le_refl _
    · exact UInt64.le_of_lt hlt'
  · exact fun _ _ a ha => hacked_lt a ha
  · intro l₁ l₂ h₁ h₂
    rcases hwritten l₁ _ h₁ with ⟨hl₁, -⟩ | ⟨-, hlt'⟩
    · rcases hwritten l₂ _ h₂ with ⟨hl₂, -⟩ | ⟨-, hlt'⟩
      · rw [hl₁, hl₂]
      · exact absurd hlt' (UInt64.lt_irrefl _)
    · exact absurd hlt' (UInt64.lt_irrefl _)

/-- The acknowledgement of the id that the file holds. -/
theorem Counts.acknowledge (h : Counts s n) (hw : s.requestOf l = .written n)
    (hdir : s'.dir = s.dir) (hacked : s'.acknowledged = n :: s.acknowledged)
    (hrequest : ∀ l', s'.requestOf l' = if l' = l then .idle else s.requestOf l') :
    Counts s' n := by
  have hold : ∀ l', s'.requestOf l' ≠ .idle → l' ≠ l ∧ s'.requestOf l' = s.requestOf l' := by
    intro l' h'
    rw [hrequest] at h' ⊢
    by_cases hl : l' = l
    · simp [hl] at h'
    · exact ⟨hl, if_neg hl⟩
  have hnot : ∀ l', s'.requestOf l' ≠ .written n := by
    intro l' h'
    obtain ⟨hne, heq⟩ := hold l' (by simp [h'])
    exact hne (h.oneWritten l' l (heq ▸ h') hw)
  constructor
  · rw [hdir]
    exact h.oneFile
  · intro hnone
    have hid : s'.storedId = s.storedId := by rw [storedId, hdir, storedId]
    rw [hid]
    refine h.stored fun l' fd v h' => ?_
    have hne : l' ≠ l := by
      rintro rfl
      rw [hw] at h'
      cases h'
    exact hnone l' fd v (by rw [hrequest, if_neg hne, h'])
  · intro l' fd v h'
    rw [hdir]
    exact h.truncated l' fd v ((hold l' (by simp [h'])).2 ▸ h')
  · intro l₁ l₂ fd fd' v v' h₁ h₂
    exact h.oneTruncated l₁ l₂ fd fd' v v' ((hold l₁ (by simp [h₁])).2 ▸ h₁)
      ((hold l₂ (by simp [h₂])).2 ▸ h₂)
  · intro a ha
    rw [hacked] at ha
    rcases List.mem_cons.mp ha with rfl | ha
    · exact UInt64.le_refl _
    · exact h.acknowledged_le a ha
  · rw [hacked]
    exact List.pairwise_cons.mpr ⟨h.written_new l hw, h.increasing⟩
  · exact fun l' v h' => h.written_le l' v ((hold l' (by simp [h'])).2 ▸ h')
  · exact fun l' h' => absurd h' (hnot l')
  · exact fun l₁ _ h₁ => absurd h₁ (hnot l₁)

theorem Counts.setLeader (h : Counts s n) {leader? : Option StatusLeader}
    (hold : ∀ fd v, s.requestOf l ≠ .truncated fd v)
    (hnew : ∀ fd v, (leader?.map (·.request)).getD .idle ≠ .truncated fd v)
    (hwritten : ∀ v, (leader?.map (·.request)).getD .idle ≠ .written v) :
    Counts (s.setLeader l leader?) n := by
  refine h.setRequest (l := l) rfl rfl (fun l' hl => ?_) hold ?_ ?_
  · rw [requestOf_setLeader, if_neg hl]
  · rw [requestOf_setLeader, if_pos rfl]
    exact hnew
  · rw [requestOf_setLeader, if_pos rfl]
    exact hwritten

theorem Counts.sameRequest (h : Counts s n) {leader leader' : StatusLeader}
    (hl : s.leaders l = some leader) (hsame : leader'.request = leader.request) :
    Counts (s.setLeader l (some leader')) n := by
  have hrequest : ∀ l', (s.setLeader l (some leader')).requestOf l' = s.requestOf l' := by
    intro l'
    rw [requestOf_setLeader]
    by_cases hl' : l' = l
    · rw [if_pos hl', hl', requestOf_eq hl, ← hsame]
      rfl
    · rw [if_neg hl']
  have hnone : (s.setLeader l (some leader')).NoneTruncated → s.NoneTruncated := fun hn l' fd v =>
    hrequest l' ▸ hn l' fd v
  exact ⟨h.oneFile, fun hn => h.stored (hnone hn),
    fun l' fd v ht => h.truncated l' fd v (hrequest l' ▸ ht),
    fun l₁ l₂ fd fd' v v' h₁ h₂ => h.oneTruncated l₁ l₂ fd fd' v v' (hrequest l₁ ▸ h₁)
      (hrequest l₂ ▸ h₂),
    h.acknowledged_le, h.increasing, fun l' v hw => h.written_le l' v (hrequest l' ▸ hw),
    fun l' hw => h.written_new l' (hrequest l' ▸ hw),
    fun l₁ l₂ h₁ h₂ => h.oneWritten l₁ l₂ (hrequest l₁ ▸ h₁) (hrequest l₂ ▸ h₂)⟩

theorem Counts.step (h : Counts s n) {a : VersionStep} (hsafe : s.VersionSafe a)
    (hstep : s.step a = some s') : ∃ n', Counts s' n' := by
  cases a with
  | start l =>
      cases hl : s.leaders l with
      | some leader => simp [VersionService.step, hl] at hstep
      | none =>
          obtain rfl : s.setLeader l (some ⟨none, none, .idle⟩) = s' := by
            simpa [VersionService.step, hl] using hstep
          exact ⟨n, h.setLeader (by simp [requestOf, hl]) (by simp) (by simp)⟩
  | scan l found =>
      simp only [VersionService.step] at hstep
      split at hstep
      · rename_i request hl
        split at hstep
        · obtain rfl := Option.some.inj hstep
          exact ⟨n, h.sameRequest hl rfl⟩
        · cases hstep
      · cases hstep
  | chooseFile l =>
      simp only [VersionService.step] at hstep
      split at hstep
      · rename_i found request hl
        obtain rfl := Option.some.inj hstep
        let s₁ : VersionService := { s with dir := (createAndRename s.dir found).1 }
        have hchosen : Counts s₁ n :=
          h.chooseFile (fun hf => hsafe _ hl (by rw [hf])) rfl rfl fun _ => rfl
        exact ⟨n, hchosen.sameRequest (l := l) hl rfl⟩
      · cases hstep
  | openRead l =>
      simp only [VersionService.step] at hstep
      split at hstep
      · rename_i file scanned hl
        obtain rfl := Option.some.inj hstep
        exact ⟨n, h.setLeader (by simp [requestOf_eq hl]) (by simp) (by simp)⟩
      · cases hstep
  | read l =>
      simp only [VersionService.step] at hstep
      split at hstep
      · rename_i file scanned fd hl
        obtain rfl := Option.some.inj hstep
        exact ⟨n, h.setLeader (by simp [requestOf_eq hl]) (by simp) (by simp)⟩
      · cases hstep
  | openTruncate l =>
      obtain ⟨⟨version, hfile, hversion⟩, hnone, hread, hnext⟩ := hsafe
      have hid := h.stored hnone
      rw [hid] at hread hnext
      simp only [VersionService.step] at hstep
      split at hstep
      · rename_i file scanned stored hl
        obtain rfl := Option.some.inj hstep
        obtain rfl : stored = n := by simpa [requestOf_eq hl] using hread
        obtain rfl : file = some version := by simpa [fileOf, hl] using hfile
        obtain ⟨i, hi⟩ := Directory.ext_lookup_mem.mp hversion
        obtain ⟨e, he⟩ : ∃ e, s.dir.entries = [e] := by
          rcases h.oneFile with he | he
          · simp [Directory.names, he] at hversion
          · exact he
        obtain rfl : (version, i) = e := by
          have hmem := Directory.lookup_eq_some.mp hi
          rw [he] at hmem
          simpa using hmem
        refine ⟨stored, h.openTruncate (l := l) he hnone hnext ?_ rfl fun l' => ?_⟩
        · simp [putFile, hi]
        · rw [requestOf_setLeader]
          simp [hi, requestOf]
      · cases hstep
  | write l =>
      simp only [VersionService.step] at hstep
      split at hstep
      · rename_i file scanned fd v hl
        obtain rfl := Option.some.inj hstep
        refine ⟨v, h.write (l := l) (requestOf_eq hl) rfl rfl fun l' => ?_⟩
        rw [requestOf_setLeader]
        simp [requestOf]
      · cases hstep
  | acknowledge l =>
      obtain ⟨e, he, v, hcontents, hw⟩ := hsafe
      have hnone : s.NoneTruncated := fun l' fd v' ht => by
        obtain ⟨-, -, e', he', -, hempty⟩ := h.truncated l' fd v' ht
        obtain rfl : e' = e := by simpa [he] using he'.symm
        rw [hcontents] at hempty
        cases hempty
      have hid : v = n := by
        rw [← h.stored hnone, storedId_single he, hcontents]
        rfl
      subst hid
      simp only [VersionService.step] at hstep
      split at hstep
      · rename_i file scanned v' hl
        obtain rfl := Option.some.inj hstep
        obtain rfl : v' = v := by simpa [requestOf_eq hl] using hw
        refine ⟨v', h.acknowledge (l := l) hw rfl rfl fun l' => ?_⟩
        rw [requestOf_setLeader]
        simp [requestOf]
      · cases hstep
  | crash l =>
      cases hl : s.leaders l with
      | none => simp [VersionService.step, hl] at hstep
      | some leader =>
          obtain rfl : s.setLeader l none = s' := by simpa [VersionService.step, hl] using hstep
          exact ⟨n, h.setLeader hsafe (by simp) (by simp)⟩

/-- Over every run of leaders that start, serve requests and crash, as long as each step is safe,
every acknowledged id is greater than all ids acknowledged before it. -/
theorem acknowledged_increasing {as : List VersionStep} (hsafe : Along step VersionSafe init as)
    (hrun : run step init as = some s) : s.acknowledged.Pairwise (· > ·) := by
  obtain ⟨n, hn⟩ := run_along_preserves step (I := fun s => ∃ n, Counts s n)
    (fun s a s' ⟨n, hn⟩ ha hstep => hn.step ha hstep) ⟨0, counts_init⟩ hsafe hrun
  exact hn.increasing

/-- The start of a leader, up to the choice of its status file. -/
def starts (l : Nat) (found : Option Nat) : List VersionStep :=
  [.start l, .scan l found, .chooseFile l]

/-- One request, from the first open to the acknowledgement. -/
def serves (l : Nat) : List VersionStep :=
  [.openRead l, .read l, .openTruncate l, .write l, .acknowledge l]

@[simp] theorem leaders_setLeader (s : VersionService) (l : Nat) (leader : Option StatusLeader) :
    (s.setLeader l leader).leaders l = leader := by
  simp [setLeader]

theorem NoneTruncated.setLeader (h : s.NoneTruncated) {leader : StatusLeader}
    (hnew : ∀ fd v, leader.request ≠ .truncated fd v) :
    (s.setLeader l (some leader)).NoneTruncated := by
  intro l' fd v
  rw [requestOf_setLeader]
  split_ifs
  · exact hnew fd v
  · exact h l' fd v

/-- A request that a leader serves on the current file without another truncating open in between
is safe. -/
theorem along_serves (version i : Nat) {scanned : Option (Option Nat)}
    (hl : s.leaders l = some ⟨some version, scanned, .idle⟩) (he : s.dir.entries = [(version, i)])
    (hnone : s.NoneTruncated) (hnext : s.storedId < s.storedId + 1) :
    Along step VersionSafe s (serves l) := by
  have hlookup : s.dir.lookup version = some i :=
    Directory.lookup_eq_some.mpr (by rw [he]; exact List.mem_singleton_self _)
  have hid : s.storedId = readStoredId s.dir (some i) := storedId_single he
  refine ⟨trivial, fun s₁ h₁ => ?_⟩
  obtain rfl : s.setLeader l (some ⟨some version, scanned, .opened (some i)⟩) = s₁ := by
    simpa [step, hl, hlookup] using h₁
  refine ⟨trivial, fun s₂ h₂ => ?_⟩
  obtain rfl : (s.setLeader l (some ⟨some version, scanned, .opened (some i)⟩)).setLeader l
      (some ⟨some version, scanned, .hasRead s.storedId⟩) = s₂ := by
    simpa [step, hid] using h₂
  refine ⟨⟨⟨version, by simp [fileOf], by simp [Directory.names, he]⟩, ?_, ?_, hnext⟩,
    fun s₃ h₃ => ?_⟩
  · exact (hnone.setLeader (by simp)).setLeader (by simp)
  · rw [requestOf_setLeader, if_pos rfl]
    rfl
  simp only [step, leaders_setLeader, Option.some.injEq] at h₃
  refine ⟨trivial, fun s₄ h₄ => ?_⟩
  subst h₃
  simp only [step, leaders_setLeader, Option.some.injEq] at h₄
  subst h₄
  refine ⟨⟨(version, i), ?_, s.storedId + 1, ?_, ?_⟩, fun _ _ => trivial⟩
  · simp [hlookup, putFile, he]
  · simp [hlookup, putFile]
  · rw [requestOf_setLeader, if_pos rfl]
    rfl

/-- Two requests of a leader, then one of the leader after it, which has renamed the file while the
old one begins a third. -/
def succeedingSteps : List VersionStep :=
  (starts 0 none ++ serves 0 ++ serves 0) ++ (starts 1 (some 1) ++ [.openRead 0, .read 0]) ++
    serves 1

theorem acknowledged_increasing_two_leaders :
    ∃ s, run step init succeedingSteps = some s ∧ s.acknowledged = [3, 2, 1] ∧
      s.acknowledged.Pairwise (· > ·) := by
  have hsafe : Along step VersionSafe init succeedingSteps := by
    rw [succeedingSteps, along_append, along_append, along_append, along_append]
    refine ⟨⟨⟨⟨?_, fun s h => ?_⟩, fun s h => ?_⟩, fun s h => ?_⟩, fun s h => ?_⟩
    · refine ⟨trivial, fun _ h => ?_⟩
      cases h
      refine ⟨trivial, fun _ h => ?_⟩
      cases h
      exact ⟨fun _ _ _ => rfl, fun _ _ => trivial⟩
    · cases h
      refine along_serves 1 0 rfl rfl (fun l fd v => ?_) (by decide)
      rcases l with _ | l <;> simp [requestOf, init, VersionService.setLeader]
    · cases h
      refine along_serves 1 0 rfl rfl (fun l fd v => ?_) (by decide)
      rcases l with _ | l <;> simp [requestOf, init, VersionService.setLeader]
    · cases h
      refine ⟨trivial, fun _ h => ?_⟩
      cases h
      refine ⟨trivial, fun _ h => ?_⟩
      cases h
      refine ⟨fun _ hl hfound => ?_, fun _ h => ?_⟩
      · cases hl
        cases hfound
      cases h
      refine ⟨trivial, fun _ h => ?_⟩
      cases h
      exact ⟨trivial, fun _ _ => trivial⟩
    · cases h
      refine along_serves 2 0 rfl rfl (fun l fd v => ?_) (by decide)
      rcases l with _ | _ | l <;> simp [requestOf, init, VersionService.setLeader]
  exact ⟨_, rfl, rfl, acknowledged_increasing hsafe rfl⟩

/-- After a crash between the truncating open and the write, the next leader reads zero. -/
theorem crash_while_rewriting_repeats_id :
    ∃ s, run step init (starts 0 none ++ serves 0 ++
      [.openRead 0, .read 0, .openTruncate 0, .crash 0]
      ++ starts 1 (some 1) ++ serves 1) = some s ∧ ¬ s.acknowledged.Pairwise (· > ·) :=
  ⟨_, rfl, by decide⟩

end VersionService

end ObjectStorage.Osm
