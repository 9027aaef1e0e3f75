import Mathlib.Data.List.Basic
import Std.Data.TreeMap
import Std.Data.TreeMap.Lemmas

/-!
The account updater's `AccountInfo` (`handler.py`): the containers of one account, the readers that
HEAD them, and what is left to report.
-/

namespace ObjectStorage.Updater

open Std

abbrev Account := String
abbrev Container := String

/-- What a reader notes of its container: the counts of the answer 204, or the 404. -/
inductive ContainerStat where
  | present (objectCount bytesUsed : Nat)
  | deleted
deriving DecidableEq

/-- The end of `read_container_stat_info`; any other status and any exception is a failure. -/
inductive HeadResult where
  | answered (stat : ContainerStat)
  | failed
deriving DecidableEq

/-- The values of `account_map`. -/
inductive HeadStatus where
  | start | success | fail
deriving DecidableEq

/-- A statistic with the iteration in which it was read. -/
structure Reading where
  stat : ContainerStat
  readAt : Nat
deriving DecidableEq

/-- A reader is completed once it has its `stat_info`. -/
structure ContainerStatReader where
  container : Container
  statInfo : Option Reading := none
deriving DecidableEq

structure AccountInfo where
  accountMap : TreeMap Container HeadStatus := {}
  accUpdateFailed : Bool := false
  containerList : List Container := []
  recordInstance : List ContainerStatReader := []

/-- The loop of `run` that calls `is_container` and `add_container`. -/
def AccountInfo.addContainers (obj : AccountInfo) (containers : List Container) : AccountInfo :=
  { obj with
    containerList := containers.foldl
      (fun list c => if c ∈ list then list else list ++ [c]) obj.containerList }

/-- One round of `get_container_path`. A container that failed gets a second reader. -/
def AccountInfo.addReader (obj : AccountInfo) (c : Container) : AccountInfo :=
  if obj.accountMap[c]? = some .success then obj
  else { obj with
    recordInstance := obj.recordInstance ++ [{ container := c }]
    accountMap := obj.accountMap.insert c .start }

def AccountInfo.getContainerPath (obj : AccountInfo) : AccountInfo :=
  obj.containerList.foldl AccountInfo.addReader obj

/-- The `finally` of a reader that did not succeed. -/
def noteFailure (accountMap : TreeMap Container HeadStatus) (c : Container) :
    TreeMap Container HeadStatus :=
  if accountMap[c]? = none ∨ accountMap[c]? = some .success then accountMap
  else accountMap.insert c .fail

/-- One reader of `execute`, when its thread runs. -/
def runReader (now : Nat) (head : Option HeadResult) (r : ContainerStatReader)
    (accountMap : TreeMap Container HeadStatus) :
    ContainerStatReader × TreeMap Container HeadStatus :=
  if r.statInfo.isSome then (r, accountMap)
  else
    match head with
    | none => (r, accountMap)
    | some (.answered stat) =>
      ({ r with statInfo := some ⟨stat, now⟩ }, accountMap.insert r.container .success)
    | some .failed => (r, noteFailure accountMap r.container)

/-- The threads of `execute`, one result for each reader. -/
def runReaders (now : Nat) (heads : Nat → Option HeadResult) :
    List ContainerStatReader → TreeMap Container HeadStatus →
    List ContainerStatReader × TreeMap Container HeadStatus
  | [], accountMap => ([], accountMap)
  | r :: rest, accountMap =>
    let (r, accountMap) := runReader now (heads 0) r accountMap
    let (rest, accountMap) := runReaders now (fun i => heads (i + 1)) rest accountMap
    (r :: rest, accountMap)

def AccountInfo.execute (obj : AccountInfo) (now : Nat) (heads : Nat → Option HeadResult) :
    AccountInfo :=
  let (readers, accountMap) := runReaders now heads obj.recordInstance obj.accountMap
  { obj with recordInstance := readers, accountMap := accountMap }

/-- The containers of one stat file for the account are added and all HEADs outstanding are made. -/
def AccountInfo.head (obj : AccountInfo) (containers : List Container) (now : Nat)
    (heads : Nat → Option HeadResult) : AccountInfo :=
  ((obj.addContainers containers).getContainerPath).execute now heads

/-- `"fail" in account_map.values()`. -/
def AccountInfo.failing (obj : AccountInfo) : Bool :=
  obj.accountMap.toList.any fun e => e.2 = .fail

theorem AccountInfo.failing_iff {obj : AccountInfo} :
    obj.failing = true ↔ ∃ c : Container, obj.accountMap[c]? = some HeadStatus.fail := by
  rw [AccountInfo.failing, List.any_eq_true]
  constructor
  · rintro ⟨⟨c, status⟩, hin, hfail⟩
    obtain rfl : status = .fail := of_decide_eq_true hfail
    exact ⟨c, TreeMap.mem_toList_iff_getElem?_eq_some.mp hin⟩
  · rintro ⟨c, hc⟩
    exact ⟨(c, .fail), TreeMap.mem_toList_iff_getElem?_eq_some.mpr hc, by simp⟩

section Heads

variable {now : Nat} {heads : Nat → Option HeadResult} {readers : List ContainerStatReader}
  {accountMap : TreeMap Container HeadStatus} {r : ContainerStatReader} {head : Option HeadResult}
  {c : Container}

theorem noteFailure_success {c' : Container} :
    (noteFailure accountMap c')[c]? = some HeadStatus.success ↔ accountMap[c]? = some .success := by
  rw [noteFailure]
  split
  · rfl
  · rename_i hother
    rw [TreeMap.getElem?_insert]
    split
    · rename_i hsame
      rw [LawfulEqCmp.compare_eq_iff_eq.mp hsame] at hother
      exact iff_of_false (by simp) fun h => hother (.inr h)
    · rfl

theorem runReader_success (h : accountMap[c]? = some .success) :
    (runReader now head r accountMap).2[c]? = some .success := by
  unfold runReader
  split
  · exact h
  · split
    · exact h
    · rw [TreeMap.getElem?_insert]
      split
      · rfl
      · exact h
    · exact noteFailure_success.mpr h

theorem runReaders_success (h : accountMap[c]? = some .success) :
    (runReaders now heads readers accountMap).2[c]? = some .success := by
  induction readers generalizing heads accountMap with
  | nil => exact h
  | cons r readers ih => exact ih (runReader_success h)

theorem runReader_read (h : (runReader now head r accountMap).2[c]? = some .success) :
    accountMap[c]? = some .success ∨
      (runReader now head r accountMap).1.container = c ∧
        (runReader now head r accountMap).1.statInfo.isSome := by
  unfold runReader at h ⊢
  split at h
  · exact .inl h
  · rename_i hopen
    rw [if_neg hopen]
    split at h
    · exact .inl h
    · rw [TreeMap.getElem?_insert] at h
      split at h
      · rename_i hsame
        exact .inr ⟨LawfulEqCmp.compare_eq_iff_eq.mp hsame, rfl⟩
      · exact .inl h
    · exact .inl (noteFailure_success.mp h)

theorem runReaders_read (h : (runReaders now heads readers accountMap).2[c]? = some .success) :
    accountMap[c]? = some .success ∨
      ∃ r ∈ (runReaders now heads readers accountMap).1, r.container = c ∧ r.statInfo.isSome := by
  induction readers generalizing heads accountMap with
  | nil => exact .inl h
  | cons r readers ih =>
    rcases ih h with hmap | ⟨r', hr', hread⟩
    · rcases runReader_read hmap with hold | hnew
      · exact .inl hold
      · exact .inr ⟨_, List.mem_cons_self, hnew⟩
    · exact .inr ⟨r', List.mem_cons_of_mem _ hr', hread⟩

theorem mem_runReaders (hr : r ∈ readers) (hread : r.statInfo.isSome) :
    r ∈ (runReaders now heads readers accountMap).1 := by
  induction readers generalizing heads accountMap with
  | nil => cases hr
  | cons r' readers ih =>
    rcases List.mem_cons.mp hr with rfl | hr
    · have hsame : (runReader now (heads 0) r accountMap).1 = r := by
        rw [runReader.eq_def, if_pos hread]
      rw [runReaders]
      simp only [hsame]
      exact List.mem_cons_self
    · exact List.mem_cons_of_mem _ (ih hr)

theorem runReader_readAt {reading : Reading}
    (h : (runReader now head r accountMap).1.statInfo = some reading) :
    r.statInfo = some reading ∨ reading.readAt = now := by
  unfold runReader at h
  split at h
  · exact .inl h
  · split at h
    · exact .inl h
    · obtain rfl := Option.some.inj h
      exact .inr rfl
    · exact .inl h

theorem runReaders_readAt {reading : Reading}
    (hr : r ∈ (runReaders now heads readers accountMap).1) (h : r.statInfo = some reading) :
    (∃ r ∈ readers, r.statInfo = some reading) ∨ reading.readAt = now := by
  induction readers generalizing heads accountMap with
  | nil => cases hr
  | cons r' readers ih =>
    rcases List.mem_cons.mp hr with rfl | hr
    · rcases runReader_readAt h with hold | hnow
      · exact .inl ⟨r', List.mem_cons_self, hold⟩
      · exact .inr hnow
    · rcases ih hr with ⟨r, hr, hold⟩ | hnow
      · exact .inl ⟨r, List.mem_cons_of_mem _ hr, hold⟩
      · exact .inr hnow

/-- The HEAD of the container has an outcome. -/
def Decided (accountMap : TreeMap Container HeadStatus) (c : Container) : Prop :=
  accountMap[c]? = some .success ∨ accountMap[c]? = some .fail

theorem noteFailure_decided {c' : Container} (h : Decided accountMap c) :
    Decided (noteFailure accountMap c') c := by
  rw [noteFailure]
  split
  · exact h
  · rw [Decided, TreeMap.getElem?_insert]
    split
    · exact .inr rfl
    · exact h

theorem runReader_decided (h : Decided accountMap c) :
    Decided (runReader now head r accountMap).2 c := by
  unfold runReader
  split
  · exact h
  · split
    · exact h
    · rw [Decided, TreeMap.getElem?_insert]
      split
      · exact .inl rfl
      · exact h
    · exact noteFailure_decided h

theorem runReaders_decided (h : Decided accountMap c) :
    Decided (runReaders now heads readers accountMap).2 c := by
  induction readers generalizing heads accountMap with
  | nil => exact h
  | cons r readers ih => exact ih (runReader_decided h)

theorem runReader_ne_none (h : accountMap[c]? ≠ none) :
    (runReader now head r accountMap).2[c]? ≠ none := by
  unfold runReader
  split
  · exact h
  · split
    · exact h
    · rw [TreeMap.getElem?_insert]
      split
      · simp
      · exact h
    · simp only [noteFailure]
      split
      · exact h
      · rw [TreeMap.getElem?_insert]
        split
        · simp
        · exact h

theorem runReader_decides {result : HeadResult} (hopen : r.statInfo = none)
    (hmap : accountMap[r.container]? ≠ none) :
    Decided (runReader now (some result) r accountMap).2 r.container := by
  rw [runReader.eq_def, if_neg (by simp [hopen])]
  cases result with
  | answered stat => exact .inl (by simp)
  | failed =>
    simp only [noteFailure]
    split
    · rename_i h
      exact .inl (h.resolve_left hmap)
    · exact .inr (by simp)

theorem runReaders_decides {results : Nat → HeadResult} (hr : r ∈ readers)
    (hopen : r.statInfo = none) (hmap : accountMap[r.container]? ≠ none) :
    Decided (runReaders now (fun i => some (results i)) readers accountMap).2 r.container := by
  induction readers generalizing results accountMap with
  | nil => cases hr
  | cons r' readers ih =>
    rcases List.mem_cons.mp hr with rfl | hr
    · simp only [runReaders]
      exact runReaders_decided (runReader_decides hopen hmap)
    · exact ih hr (runReader_ne_none hmap)

end Heads

namespace AccountInfo

variable {obj : AccountInfo} {containers : List Container} {now : Nat}
  {heads : Nat → Option HeadResult} {c : Container}

theorem mem_addContainers (hc : c ∈ containers ∨ c ∈ obj.containerList) :
    c ∈ (obj.addContainers containers).containerList := by
  obtain ⟨accountMap, failed, list, readers⟩ := obj
  simp only [addContainers] at hc ⊢
  induction containers generalizing list with
  | nil => simpa using hc
  | cons c' containers ih =>
    refine ih _ ?_
    rcases hc with hc | hc
    · rcases List.mem_cons.mp hc with rfl | hc
      · right
        beta_reduce
        split
        · assumption
        · simp
      · exact .inl hc
    · right
      beta_reduce
      split
      · exact hc
      · simp [hc]

/-- What `get_container_path` does to an object: readers without statistics are added, and
containers that did not succeed are started. -/
structure Started (obj obj' : AccountInfo) : Prop where
  success : ∀ c : Container, obj'.accountMap[c]? = some HeadStatus.success ↔
    obj.accountMap[c]? = some HeadStatus.success
  kept : ∀ r ∈ obj.recordInstance, r ∈ obj'.recordInstance
  fresh : ∀ r ∈ obj'.recordInstance, r ∈ obj.recordInstance ∨ r.statInfo = none
  known : ∀ c : Container, obj.accountMap[c]? ≠ none → obj'.accountMap[c]? ≠ none
  flag : obj'.accUpdateFailed = obj.accUpdateFailed

theorem Started.refl : Started obj obj :=
  ⟨fun _ => .rfl, fun _ h => h, fun _ h => .inl h, fun _ h => h, rfl⟩

theorem Started.trans {obj' obj'' : AccountInfo} (h : Started obj obj')
    (h' : Started obj' obj'') : Started obj obj'' where
  success c := (h'.success c).trans (h.success c)
  kept r hr := h'.kept r (h.kept r hr)
  fresh r hr := (h'.fresh r hr).elim (fun hr => h.fresh r hr) .inr
  known c hc := h'.known c (h.known c hc)
  flag := h'.flag.trans h.flag

theorem addReader_started (obj : AccountInfo) (c : Container) : Started obj (obj.addReader c) := by
  rw [addReader]
  split
  · exact .refl
  · rename_i hother
    refine ⟨fun c' => ?_, fun r hr => by simp [hr], fun r hr => ?_, fun c' hc' => ?_, rfl⟩
    · simp only
      rw [TreeMap.getElem?_insert]
      split
      · rename_i hsame
        rw [← LawfulEqCmp.compare_eq_iff_eq.mp hsame]
        exact iff_of_false (by simp) hother
      · rfl
    · rcases List.mem_append.mp hr with hr | hr
      · exact .inl hr
      · rw [List.mem_singleton.mp hr]
        exact .inr rfl
    · simp only
      rw [TreeMap.getElem?_insert]
      split
      · simp
      · exact hc'

/-- The container has succeeded or has a reader that is still to run. -/
def Covered (obj : AccountInfo) (c : Container) : Prop :=
  obj.accountMap[c]? = some HeadStatus.success ∨
    obj.accountMap[c]? ≠ none ∧ { container := c } ∈ obj.recordInstance

theorem addReader_covered (obj : AccountInfo) (c : Container) : (obj.addReader c).Covered c := by
  rw [addReader]
  split
  · exact .inl (by assumption)
  · exact .inr ⟨by simp, by simp⟩

theorem Started.covered {obj' : AccountInfo} (h : Started obj obj') (hc : obj.Covered c) :
    obj'.Covered c := by
  rcases hc with hsuccess | ⟨hknown, hr⟩
  · exact .inl ((h.success c).mpr hsuccess)
  · exact .inr ⟨h.known c hknown, h.kept _ hr⟩

theorem foldl_addReader (obj : AccountInfo) (list : List Container) :
    Started obj (list.foldl addReader obj) ∧
      ∀ c ∈ list, (list.foldl addReader obj).Covered c := by
  induction list generalizing obj with
  | nil => exact ⟨.refl, fun c hc => by cases hc⟩
  | cons c' list ih =>
    obtain ⟨hstarted, hcovered⟩ := ih (obj.addReader c')
    refine ⟨(addReader_started obj c').trans hstarted, fun c hc => ?_⟩
    rcases List.mem_cons.mp hc with rfl | hc
    · exact hstarted.covered (addReader_covered obj c)
    · exact hcovered c hc

/-- The readers are given their statistics and none is lost. -/
theorem head_kept {r : ContainerStatReader} (hr : r ∈ obj.recordInstance)
    (hread : r.statInfo.isSome) : r ∈ (obj.head containers now heads).recordInstance :=
  mem_runReaders ((foldl_addReader (obj.addContainers containers) _).1.kept r hr) hread

theorem head_readAt {r : ContainerStatReader} {reading : Reading}
    (hr : r ∈ (obj.head containers now heads).recordInstance) (h : r.statInfo = some reading) :
    (∃ r ∈ obj.recordInstance, r.statInfo = some reading) ∨ reading.readAt = now := by
  rcases runReaders_readAt hr h with ⟨r', hr', hold⟩ | hnow
  · rcases (foldl_addReader (obj.addContainers containers) _).1.fresh r' hr' with hr' | hnone
    · exact .inl ⟨r', hr', hold⟩
    · rw [hnone] at hold
      cases hold
  · exact .inr hnow

theorem head_read
    (h : (obj.head containers now heads).accountMap[c]? = some HeadStatus.success) :
    obj.accountMap[c]? = some HeadStatus.success ∨
      ∃ r ∈ (obj.head containers now heads).recordInstance,
        r.container = c ∧ r.statInfo.isSome := by
  rcases runReaders_read h with hstart | hnew
  · exact .inl (((foldl_addReader (obj.addContainers containers) _).1.success c).mp hstart)
  · exact .inr hnew

/-- When every thread runs, a container of the file has succeeded or failed. -/
theorem head_decided {results : Nat → HeadResult} (hc : c ∈ containers) :
    Decided (obj.head containers now fun i => some (results i)).accountMap c := by
  rcases (foldl_addReader (obj.addContainers containers) _).2 c (mem_addContainers (.inl hc)) with
    hsuccess | ⟨hknown, hr⟩
  · exact .inl (runReaders_success hsuccess)
  · exact runReaders_decides hr rfl hknown

end AccountInfo

end ObjectStorage.Updater
