import Mathlib.Logic.Function.Basic
import ObjectStorage.Library.Transition
import ObjectStorage.Updater.AccountInfo

/-!
`Updater.run` (`updater.py`): the two passes of an iteration over the stat files that the reader has
loaded, one account at a time, and the stat files handed to the sweeper.
-/

namespace ObjectStorage.Updater

open Library

/-- Component and stat file name. -/
abbrev CompTuple := Nat × String

/-- The contents of a stat file in the reader map, in the order of its dictionary. It was complete
before the iteration `loadedAt` began. -/
structure StatFile where
  compTuple : CompTuple
  accounts : List (Account × List Container)
  loadedAt : Nat
deriving DecidableEq

/-- One container in an update that the account service took. -/
structure Acknowledged where
  account : Account
  container : Container
  reading : Reading
deriving DecidableEq

inductive Pass where
  | idle | first | second | exited
deriving DecidableEq

/-- The file of the current round of a pass: the accounts still to come, the variable
`account_instance`, and whether the round was left by `break`. -/
structure Current where
  statFile : StatFile
  remaining : List (Account × List Container)
  last : Option Account := none
  broken : Bool := false
deriving DecidableEq

structure State where
  iteration : Nat := 0
  updaterMap : List StatFile := []
  otherFileList : List CompTuple := []
  waitList : List Account := []
  accObjectDict : Account → Option AccountInfo := fun _ => none
  pass : Pass := .idle
  todo : List StatFile := []
  file : Option Current := none
  sweeperList : List StatFile := []
  acknowledged : List Acknowledged := []

/-- The account service answers 202, or 404 when it has no such account; all else is a refusal. -/
inductive Answer where
  | accepted | noSuchAccount | refused
deriving DecidableEq

def Answer.updated : Answer → Bool
  | .accepted | .noSuchAccount => true
  | .refused => false

/-- `dispatcher_executer`: all threads run, or an exception leaves some of them unstarted. -/
inductive Dispatch where
  | completes (results : Nat → HeadResult)
  | raises (heads : Nat → Option HeadResult)

def Dispatch.heads : Dispatch → Nat → Option HeadResult
  | .completes results => fun i => some (results i)
  | .raises heads => heads

inductive Event where
  /-- `populate_updater_map` on the files of the reader map with their lock flags, and
  `__updater_get_new_ownership` when a transfer is announced. -/
  | populate (readerMap : List (StatFile × Bool)) (ownership : Option (List Nat))
  /-- `__updater_check_complete_all_event` between two files. -/
  | stop
  | start (f : StatFile)
  /-- One account in the first pass. -/
  | visit (dispatch : Dispatch) (answer : Answer)
  /-- One account in the second pass. -/
  | revisit (answer : Answer)
  /-- The `for`/`else` after the accounts of a file. -/
  | close
  | secondPass
  | sleep

def assign (updaterMap : List StatFile) (f : StatFile) : List StatFile :=
  updaterMap.filter (fun g => g.compTuple ≠ f.compTuple) ++ [f]

namespace State

variable (s : State)

def populate (readerMap : List (StatFile × Bool)) (ownership : Option (List Nat)) : State :=
  let unlocked := (readerMap.filter fun e => !e.2).map Prod.fst
  let updaterMap := unlocked.foldl assign s.updaterMap
  let updaterMap := match ownership with
    | none => updaterMap
    | some owned => updaterMap.filter fun f => f.compTuple.1 ∈ owned
  { s with
    iteration := s.iteration + 1
    updaterMap := updaterMap
    otherFileList := unlocked.map StatFile.compTuple
    waitList := []
    accObjectDict := fun _ => none
    pass := .first
    todo := updaterMap
    file := none }

/-- `_updater_map[comp_tuple].keys()`, or its `KeyError`. -/
def accountsOf (t : CompTuple) : Option (List Account) :=
  (s.updaterMap.find? fun f => f.compTuple = t).map fun f => f.accounts.map Prod.fst

/-- `__other_file`, or its exception when a file is not listed or not in the map. -/
def otherFile (t : CompTuple) : Option (List Account) :=
  if t ∈ s.otherFileList then
    ((s.otherFileList.erase t).mapM s.accountsOf).map List.flatten
  else none

/-- The containers that a report carries. -/
def reportOf (a : Account) (obj : AccountInfo) : List Acknowledged :=
  obj.recordInstance.filterMap fun r => r.statInfo.map fun reading => ⟨a, r.container, reading⟩

/-- `account_update`, and `remove_container` after it. -/
def accountUpdate (a : Account) (obj : AccountInfo) (answer : Answer) : State :=
  if answer.updated then
    { s with
      acknowledged := s.acknowledged ++ reportOf a obj
      accObjectDict := Function.update s.accObjectDict a (some { obj with
        recordInstance := []
        accUpdateFailed := false
        containerList := [] }) }
  else
    { s with
      accObjectDict := Function.update s.accObjectDict a
        (some { obj with accUpdateFailed := true }) }

/-- The body of the first pass for one account. An exception of the dispatcher or of `__other_file`
is logged, and the next account comes. -/
def visit (cur : Current) (a : Account) (containers : List Container)
    (rest : List (Account × List Container)) (dispatch : Dispatch) (answer : Answer) : State :=
  let obj := ((s.accObjectDict a).getD {}).head containers s.iteration dispatch.heads
  let s := { s with accObjectDict := Function.update s.accObjectDict a (some obj) }
  let continued : Current := { cur with remaining := rest, last := some a }
  let left : Current := { cur with last := some a, broken := true }
  match dispatch with
  | .raises _ => { s with file := some continued }
  | .completes _ =>
    if obj.failing then { s with file := some left }
    else
      match s.otherFile cur.statFile.compTuple with
      | none => { s with file := some continued }
      | some accounts =>
        if a ∈ accounts then
          { s with
            waitList := if a ∈ s.waitList then s.waitList else s.waitList ++ [a]
            file := some continued }
        else
          { s.accountUpdate a obj answer with
            file := some (if answer.updated then continued else left) }

/-- The body of the second pass for one account. -/
def revisit (cur : Current) (a : Account) (rest : List (Account × List Container))
    (answer : Answer) : State :=
  let continued : Current := { cur with remaining := rest }
  if a ∈ s.waitList then
    match s.accObjectDict a with
    | none => { s with pass := .exited, file := none }
    | some obj =>
      if answer.updated then
        { s.accountUpdate a obj answer with
          waitList := s.waitList.erase a, file := some continued }
      else { s.accountUpdate a obj answer with file := none }
  else
    match s.accObjectDict a with
    | none => { s with file := some continued }
    | some obj =>
      if obj.failing || obj.accUpdateFailed then { s with file := none }
      else { s with file := some continued }

/-- The loop after the accounts of a file in the first pass: whether it is left by `break`; `none`
for the `KeyError` of an account that has no object. -/
def unfinished (last : Option Account) : List Account → Option Bool
  | [] => some false
  | a :: rest =>
    if a ∈ s.waitList then some true
    else
      match s.accObjectDict a with
      | none => none
      | some obj =>
        if obj.failing || ((last.bind s.accObjectDict).any fun obj => obj.accUpdateFailed) then
          some true
        else unfinished last rest

/-- `create_sweeper_list` and the deletions after it; a file that is not listed ends the process. -/
def retire (f : StatFile) : State :=
  { s with
    sweeperList := s.sweeperList ++ [f]
    updaterMap := s.updaterMap.filter fun g => g.compTuple ≠ f.compTuple
    otherFileList := s.otherFileList.erase f.compTuple
    pass := if f.compTuple ∈ s.otherFileList then s.pass else .exited
    file := none }

def close (cur : Current) : State :=
  match s.unfinished cur.last (cur.statFile.accounts.map Prod.fst) with
  | none => { s with pass := .exited, file := none }
  | some true => { s with file := none }
  | some false => s.retire cur.statFile

end State

def step (s : State) : Event → Option State
  | .populate readerMap ownership =>
    if s.pass = .idle ∧ ∀ e ∈ readerMap, e.1.loadedAt ≤ s.iteration + 1 then
      some (s.populate readerMap ownership)
    else none
  | .stop =>
    if s.pass = .first ∧ s.file = none then some { s with updaterMap := [], todo := [] } else none
  | .start f =>
    if (s.pass = .first ∨ s.pass = .second) ∧ s.file = none ∧ f ∈ s.todo then
      some { s with
        todo := s.todo.erase f
        file := some { statFile := f, remaining := f.accounts } }
    else none
  | .visit dispatch answer =>
    match s.pass, s.file with
    | .first, some ⟨f, (a, containers) :: rest, last, false⟩ =>
      some (s.visit ⟨f, (a, containers) :: rest, last, false⟩ a containers rest dispatch answer)
    | _, _ => none
  | .revisit answer =>
    match s.pass, s.file with
    | .second, some ⟨f, (a, containers) :: rest, last, false⟩ =>
      some (s.revisit ⟨f, (a, containers) :: rest, last, false⟩ a rest answer)
    | _, _ => none
  | .close =>
    match s.pass, s.file with
    | .first, some cur => if cur.broken ∨ cur.remaining = [] then some (s.close cur) else none
    | .second, some cur => if cur.remaining = [] then some (s.retire cur.statFile) else none
    | _, _ => none
  | .secondPass =>
    if s.pass = .first ∧ s.file = none ∧ s.todo = [] then
      some { s with pass := .second, todo := s.updaterMap }
    else none
  | .sleep =>
    if s.pass = .second ∧ s.file = none ∧ s.todo = [] then some { s with pass := .idle } else none

/-- Every container of the file was in an acknowledged update with what was read of it after the
file was loaded. -/
def Reported (s : State) (f : StatFile) : Prop :=
  ∀ p ∈ f.accounts, ∀ c ∈ p.2, ∃ k ∈ s.acknowledged,
    k.account = p.1 ∧ k.container = c ∧ f.loadedAt ≤ k.reading.readAt

/-- Only reported stat files are on the sweeper list. -/
def RetiresReported (s : State) : Prop :=
  ∀ f ∈ s.sweeperList, Reported s f

/-- The container was in an acknowledged update with what was read of it in this iteration. -/
def State.Acked (s : State) (a : Account) (c : Container) : Prop :=
  ∃ k ∈ s.acknowledged, k.account = a ∧ k.container = c ∧ s.iteration ≤ k.reading.readAt

/-- A container that succeeded is in the readers with its statistics, or was reported; readings are
of this iteration. -/
structure Tracked (s : State) (a : Account) (obj : AccountInfo) : Prop where
  success : ∀ c : Container, obj.accountMap[c]? = some HeadStatus.success →
    (∃ r ∈ obj.recordInstance, r.container = c ∧ r.statInfo.isSome) ∨ s.Acked a c
  readAt : ∀ r ∈ obj.recordInstance, ∀ reading, r.statInfo = some reading →
    reading.readAt = s.iteration

/-- Readers left to report wait, or belong to an account that failed. -/
def Settled (s : State) (a : Account) (obj : AccountInfo) : Prop :=
  obj.recordInstance = [] ∨ a ∈ s.waitList ∨ obj.accUpdateFailed = true ∨ obj.failing = true

/-- One of the accounts makes the loop after the file break. -/
def Hindered (s : State) (cur : Current) : Prop :=
  (∃ p ∈ cur.statFile.accounts, ∃ obj, s.accObjectDict p.1 = some obj ∧ obj.failing = true) ∨
    cur.statFile.accounts ≠ [] ∧
      ((cur.last.bind s.accObjectDict).any fun obj => obj.accUpdateFailed) = true

/-- The accounts done with in the current file are reported, or wait for the second pass. -/
def Progress (s : State) (cur : Current) : Prop :=
  (∃ done, cur.statFile.accounts = done ++ cur.remaining ∧
    ∀ p ∈ done, (s.pass = .first ∧ p.1 ∈ s.waitList) ∨ ∀ c ∈ p.2, s.Acked p.1 c) ∧
  (cur.broken = true → Hindered s cur)

structure Sound (s : State) : Prop where
  retired : RetiresReported s
  updaterMap : ∀ f ∈ s.updaterMap, f.loadedAt ≤ s.iteration
  todo : ∀ f ∈ s.todo, f.loadedAt ≤ s.iteration
  file : ∀ cur, s.file = some cur → cur.statFile.loadedAt ≤ s.iteration ∧ Progress s cur
  tracked : ∀ a obj, s.accObjectDict a = some obj → Tracked s a obj
  settled : ∀ a obj, s.accObjectDict a = some obj → Settled s a obj

section Objects

variable {s : State} {a : Account} {obj : AccountInfo} {containers : List Container}
  {heads : Nat → Option HeadResult}

theorem tracked_empty : Tracked s a {} :=
  ⟨fun c hc => by simp at hc, fun r hr => by cases hr⟩

theorem Tracked.head (h : Tracked s a obj) :
    Tracked s a (obj.head containers s.iteration heads) where
  success c hc := by
    rcases AccountInfo.head_read hc with hold | hnew
    · rcases h.success c hold with ⟨r, hr, hrc, hread⟩ | hacked
      · exact .inl ⟨r, AccountInfo.head_kept hr hread, hrc, hread⟩
      · exact .inr hacked
    · exact .inl hnew
  readAt r hr reading hread := by
    rcases AccountInfo.head_readAt hr hread with ⟨r', hr', hread'⟩ | hnow
    · exact h.readAt r' hr' reading hread'
    · exact hnow

theorem Tracked.acked (h : Tracked s a obj) {s' : State} (hiteration : s'.iteration = s.iteration)
    (hacknowledged : s'.acknowledged = s.acknowledged ++ State.reportOf a obj) {c : Container}
    (hc : obj.accountMap[c]? = some HeadStatus.success) : s'.Acked a c := by
  rw [State.Acked, hiteration, hacknowledged]
  rcases h.success c hc with ⟨r, hr, rfl, hread⟩ | ⟨k, hk, hacked⟩
  · obtain ⟨reading, hreading⟩ := Option.isSome_iff_exists.mp hread
    refine ⟨⟨a, r.container, reading⟩, List.mem_append_right _ ?_, rfl, rfl, ?_⟩
    · exact List.mem_filterMap.mpr ⟨r, hr, by simp [hreading]⟩
    · exact Nat.le_of_eq (h.readAt r hr reading hreading).symm
  · exact ⟨k, List.mem_append_left _ hk, hacked⟩

theorem Tracked.reported (h : Tracked s a obj) {s' : State}
    (hiteration : s'.iteration = s.iteration)
    (hacknowledged : s'.acknowledged = s.acknowledged ++ State.reportOf a obj) :
    Tracked s' a
      { obj with recordInstance := [], accUpdateFailed := false, containerList := [] } where
  success _ hc := .inr (h.acked hiteration hacknowledged hc)
  readAt _ hr := by cases hr

end Objects

/-- A step of the same iteration that forgets no acknowledgement. -/
structure Extends (s s' : State) : Prop where
  iteration : s'.iteration = s.iteration
  acknowledged : s.acknowledged ⊆ s'.acknowledged

section Extension

variable {s s' : State} {a : Account} {obj : AccountInfo}

theorem Extends.acked (h : Extends s s') {c : Container} (hc : s.Acked a c) : s'.Acked a c := by
  obtain ⟨k, hk, hacked⟩ := hc
  exact ⟨k, h.acknowledged hk, h.iteration ▸ hacked⟩

theorem Extends.reported (h : Extends s s') {f : StatFile} (hf : Reported s f) :
    Reported s' f := fun p hp c hc => by
  obtain ⟨k, hk, hreported⟩ := hf p hp c hc
  exact ⟨k, h.acknowledged hk, hreported⟩

theorem Extends.tracked (h : Extends s s') (ht : Tracked s a obj) : Tracked s' a obj where
  success c hc := (ht.success c hc).imp id h.acked
  readAt r hr reading hread := h.iteration ▸ ht.readAt r hr reading hread

/-- A step that writes one account object. -/
structure Writes (s s' : State) (a : Account) (obj : AccountInfo) : Prop extends Extends s s' where
  updaterMap : s'.updaterMap = s.updaterMap
  todo : s'.todo = s.todo
  sweeperList : s'.sweeperList = s.sweeperList
  waitList : ∀ b ∈ s.waitList, b ≠ a → b ∈ s'.waitList
  accObjectDict : s'.accObjectDict = Function.update s.accObjectDict a (some obj)

/-- What is left to show after such a step concerns the object and the current file. -/
theorem Sound.writes (h : Sound s) (hw : Writes s s' a obj) (htracked : Tracked s' a obj)
    (hsettled : Settled s' a obj)
    (hfile : ∀ cur, s'.file = some cur → cur.statFile.loadedAt ≤ s'.iteration ∧ Progress s' cur) :
    Sound s' where
  retired f hf := hw.toExtends.reported (h.retired f (hw.sweeperList ▸ hf))
  updaterMap f hf := hw.iteration ▸ h.updaterMap f (hw.updaterMap ▸ hf)
  todo f hf := hw.iteration ▸ h.todo f (hw.todo ▸ hf)
  file := hfile
  tracked b obj' hb := by
    rw [hw.accObjectDict] at hb
    by_cases hab : b = a
    · subst hab
      rw [Function.update_self] at hb
      obtain rfl := Option.some.inj hb
      exact htracked
    · rw [Function.update_of_ne hab] at hb
      exact hw.toExtends.tracked (h.tracked b obj' hb)
  settled b obj' hb := by
    rw [hw.accObjectDict] at hb
    by_cases hab : b = a
    · subst hab
      rw [Function.update_self] at hb
      obtain rfl := Option.some.inj hb
      exact hsettled
    · rw [Function.update_of_ne hab] at hb
      rcases h.settled b obj' hb with hnone | hwait | hother
      · exact .inl hnone
      · exact .inr (.inl (hw.waitList b hwait hab))
      · exact .inr (.inr hother)

theorem Progress.next {f : StatFile} {containers : List Container}
    {rest : List (Account × List Container)} {last last' : Option Account} {broken : Bool}
    (h : Progress s ⟨f, (a, containers) :: rest, last, broken⟩) (he : Extends s s')
    (hwait : s.pass = .first → s'.pass = .first ∧ s.waitList ⊆ s'.waitList)
    (hdone : (s'.pass = .first ∧ a ∈ s'.waitList) ∨ ∀ c ∈ containers, s'.Acked a c) :
    Progress s' ⟨f, rest, last', false⟩ := by
  obtain ⟨⟨done, haccounts, hprefix⟩, -⟩ := h
  refine ⟨⟨done ++ [(a, containers)], by simpa using haccounts, fun p hp => ?_⟩,
    fun hb => by cases hb⟩
  rcases List.mem_append.mp hp with hp | hp
  · rcases hprefix p hp with ⟨hpass, hin⟩ | hacked
    · exact .inl ⟨(hwait hpass).1, (hwait hpass).2 hin⟩
    · exact .inr fun c hc => he.acked (hacked c hc)
  · obtain rfl := List.mem_singleton.mp hp
    exact hdone

theorem Progress.leave {f : StatFile} {remaining : List (Account × List Container)}
    {last last' : Option Account} {broken : Bool}
    (h : Progress s ⟨f, remaining, last, broken⟩) (he : Extends s s')
    (hwait : s.pass = .first → s'.pass = .first ∧ s.waitList ⊆ s'.waitList)
    (hindered : Hindered s' ⟨f, remaining, last', true⟩) :
    Progress s' ⟨f, remaining, last', true⟩ := by
  obtain ⟨⟨done, haccounts, hprefix⟩, -⟩ := h
  refine ⟨⟨done, haccounts, fun p hp => ?_⟩, fun _ => hindered⟩
  rcases hprefix p hp with ⟨hpass, hin⟩ | hacked
  · exact .inl ⟨(hwait hpass).1, (hwait hpass).2 hin⟩
  · exact .inr fun c hc => he.acked (hacked c hc)

end Extension

section Visits

variable {s : State} {f : StatFile} {a : Account} {containers : List Container}
  {rest : List (Account × List Container)} {last : Option Account}

/-- The object of an account, HEADs included, is tracked whether it is new or not. -/
theorem Sound.head (h : Sound s) (heads : Nat → Option HeadResult) :
    Tracked s a (((s.accObjectDict a).getD {}).head containers s.iteration heads) := by
  cases hobj : s.accObjectDict a with
  | none => exact tracked_empty.head
  | some obj => exact (h.tracked a obj hobj).head

theorem success_of_not_failing {obj : AccountInfo} (hfailing : obj.failing = false) {c : Container}
    (hc : Decided obj.accountMap c) : obj.accountMap[c]? = some HeadStatus.success := by
  rcases hc with hsuccess | hfail
  · exact hsuccess
  · have hin : obj.failing = true := AccountInfo.failing_iff.mpr ⟨c, hfail⟩
    rw [hfailing] at hin
    cases hin

theorem Sound.visit (h : Sound s) (hpass : s.pass = .first)
    (hfile : s.file = some ⟨f, (a, containers) :: rest, last, false⟩)
    {results : Nat → HeadResult} {answer : Answer} (hlook : (s.otherFile f.compTuple).isSome) :
    Sound (s.visit ⟨f, (a, containers) :: rest, last, false⟩ a containers rest
      (.completes results) answer) := by
  obtain ⟨hloaded, hprogress⟩ := h.file _ hfile
  obtain ⟨accounts, haccounts⟩ := Option.isSome_iff_exists.mp hlook
  have htracked : Tracked s a (((s.accObjectDict a).getD {}).head containers s.iteration
      fun i => some (results i)) := h.head _
  have hdecided : ∀ c ∈ containers, Decided (((s.accObjectDict a).getD {}).head containers
      s.iteration fun i => some (results i)).accountMap c := fun c hc =>
    AccountInfo.head_decided hc
  have hmem : (a, containers) ∈ f.accounts := by
    obtain ⟨⟨done, hdone, -⟩, -⟩ := hprogress
    simp only at hdone
    simp [hdone]
  simp only [State.visit, Dispatch.heads]
  generalize ((s.accObjectDict a).getD {}).head containers s.iteration
    (fun i => some (results i)) = obj at htracked hdecided
  have hsame : ∀ b ∈ s.waitList, b ∈ s.waitList := fun _ hb => hb
  split
  case isTrue hfailing =>
    -- the HEAD of a container failed
    have hext : Extends s { s with
        accObjectDict := Function.update s.accObjectDict a (some obj)
        file := some ⟨f, (a, containers) :: rest, some a, true⟩ } := ⟨rfl, fun _ hk => hk⟩
    refine h.writes ⟨hext, rfl, rfl, rfl, fun b hb _ => hb, rfl⟩ (hext.tracked htracked)
      (.inr (.inr (.inr hfailing))) fun cur hcur => ?_
    obtain rfl := Option.some.inj hcur
    refine ⟨hloaded, hprogress.leave hext (fun hp => ⟨hp, hsame⟩)
      (.inl ⟨_, hmem, obj, ?_, hfailing⟩)⟩
    exact Function.update_self ..
  case isFalse hfailing =>
    have hsuccess : ∀ c ∈ containers, obj.accountMap[c]? = some HeadStatus.success := fun c hc =>
      success_of_not_failing (by simpa using hfailing) (hdecided c hc)
    have hlooked : ({ s with accObjectDict := Function.update s.accObjectDict a (some obj) } :
        State).otherFile f.compTuple = some accounts := haccounts
    rw [hlooked]
    simp only
    split
    case isTrue hshared =>
      -- another file has the account, which waits
      have hwait : s.waitList ⊆ if a ∈ s.waitList then s.waitList else s.waitList ++ [a] := by
        split
        · exact fun _ hb => hb
        · exact List.subset_append_left _ _
      have hin : a ∈ if a ∈ s.waitList then s.waitList else s.waitList ++ [a] := by
        split
        · assumption
        · simp
      have hext : Extends s { s with
          accObjectDict := Function.update s.accObjectDict a (some obj)
          waitList := if a ∈ s.waitList then s.waitList else s.waitList ++ [a]
          file := some ⟨f, rest, some a, false⟩ } := ⟨rfl, fun _ hk => hk⟩
      refine h.writes ⟨hext, rfl, rfl, rfl, fun b hb _ => hwait hb, rfl⟩
        (hext.tracked htracked) (.inr (.inl hin)) fun cur hcur => ?_
      obtain rfl := Option.some.inj hcur
      exact ⟨hloaded, hprogress.next hext (fun hp => ⟨hp, hwait⟩) (.inl ⟨hpass, hin⟩)⟩
    case isFalse hshared =>
      cases hanswer : answer.updated with
      | true =>
        simp only [State.accountUpdate, hanswer, if_true, Function.update_idem]
        have hext : Extends s { s with
            acknowledged := s.acknowledged ++ State.reportOf a obj
            accObjectDict := Function.update s.accObjectDict a (some { obj with
              recordInstance := [], accUpdateFailed := false, containerList := [] })
            file := some ⟨f, rest, some a, false⟩ } :=
          ⟨rfl, List.subset_append_left _ _⟩
        refine h.writes ⟨hext, rfl, rfl, rfl, fun b hb _ => hb, rfl⟩ (htracked.reported rfl rfl)
          (.inl rfl) fun cur hcur => ?_
        obtain rfl := Option.some.inj hcur
        refine ⟨hloaded, hprogress.next hext (fun hp => ⟨hp, hsame⟩) (.inr fun c hc => ?_)⟩
        exact htracked.acked (by rfl) (by rfl) (hsuccess c hc)
      | false =>
        simp only [State.accountUpdate, hanswer, Bool.false_eq_true, if_false, Function.update_idem]
        have hext : Extends s { s with
            accObjectDict := Function.update s.accObjectDict a
              (some { obj with accUpdateFailed := true })
            file := some ⟨f, (a, containers) :: rest, some a, true⟩ } := ⟨rfl, fun _ hk => hk⟩
        have htracked' : Tracked s a { obj with accUpdateFailed := true } :=
          ⟨htracked.success, htracked.readAt⟩
        refine h.writes ⟨hext, rfl, rfl, rfl, fun b hb _ => hb, rfl⟩ (hext.tracked htracked')
          (.inr (.inr (.inl rfl))) fun cur hcur => ?_
        obtain rfl := Option.some.inj hcur
        refine ⟨hloaded, hprogress.leave hext (fun hp => ⟨hp, hsame⟩) (.inr ⟨?_, ?_⟩)⟩
        · exact List.ne_nil_of_mem hmem
        · simp

end Visits

/-- The round of the second pass ends at this account. -/
def State.stops (s : State) (a : Account) (answer : Answer) : Bool :=
  if a ∈ s.waitList then !answer.updated
  else
    match s.accObjectDict a with
    | none => false
    | some obj => obj.failing || obj.accUpdateFailed

/-- A HEAD of each container has succeeded for the account in this iteration. -/
def State.Succeeded (s : State) (a : Account) (containers : List Container) : Prop :=
  match s.accObjectDict a with
  | none => containers = []
  | some obj => ∀ c ∈ containers, obj.accountMap[c]? = some HeadStatus.success

/-- No exception is swallowed between the HEADs and the update of an account, and the second pass
goes on after an account only when all containers that the file has for it were read. -/
def Condition (s : State) : Event → Prop
  | .visit (.raises _) _ => False
  | .visit (.completes _) _ =>
    ∀ cur ∈ s.file, (s.otherFile cur.statFile.compTuple).isSome
  | .revisit answer =>
    ∀ cur ∈ s.file, ∀ p ∈ cur.remaining.head?, s.stops p.1 answer = true ∨ s.Succeeded p.1 p.2
  | _ => True

section Passes

variable {s : State} {f : StatFile} {a : Account} {containers : List Container}
  {rest : List (Account × List Container)} {last : Option Account} {answer : Answer}

/-- Once its readers are reported, whatever succeeded was acknowledged. -/
theorem Sound.acked_of_settled (h : Sound s) {obj : AccountInfo}
    (hobj : s.accObjectDict a = some obj) (hnone : obj.recordInstance = []) {c : Container}
    (hc : obj.accountMap[c]? = some HeadStatus.success) : s.Acked a c := by
  rcases (h.tracked a obj hobj).success c hc with ⟨r, hr, -⟩ | hacked
  · rw [hnone] at hr
    cases hr
  · exact hacked

/-- A step that keeps the objects and the lists only has to show its current file. -/
theorem Sound.keeps (h : Sound s) {s' : State} (hext : Extends s s')
    (hmap : s'.updaterMap ⊆ s.updaterMap) (htodo : s'.todo ⊆ s.todo ++ s.updaterMap)
    (hwait : s'.waitList = s.waitList) (hobjects : s'.accObjectDict = s.accObjectDict)
    (hsweeper : ∀ g ∈ s'.sweeperList, g ∈ s.sweeperList ∨ Reported s g)
    (hfile : ∀ cur, s'.file = some cur → cur.statFile.loadedAt ≤ s'.iteration ∧ Progress s' cur) :
    Sound s' where
  retired g hg := hext.reported ((hsweeper g hg).elim (h.retired g) id)
  updaterMap g hg := hext.iteration ▸ h.updaterMap g (hmap hg)
  todo g hg := hext.iteration ▸ (List.mem_append.mp (htodo hg)).elim (h.todo g) (h.updaterMap g)
  file := hfile
  tracked a obj hobj := hext.tracked (h.tracked a obj (hobjects ▸ hobj))
  settled a obj hobj := by
    rw [Settled, hwait]
    exact h.settled a obj (hobjects ▸ hobj)

/-- Without a current file only the rest of the state counts. -/
theorem Sound.leave (h : Sound s) (pass : Pass) : Sound { s with pass := pass, file := none } :=
  h.keeps ⟨rfl, fun _ hk => hk⟩ (fun _ hg => hg) (List.subset_append_left _ _) rfl rfl
    (fun _ hg => .inl hg) fun _ hcur => by (cases hcur)

theorem Sound.moves (h : Sound s) {cur : Current} (hloaded : cur.statFile.loadedAt ≤ s.iteration)
    (hprogress : Progress { s with file := some cur } cur) :
    Sound { s with file := some cur } :=
  h.keeps ⟨rfl, fun _ hk => hk⟩ (fun _ hg => hg) (List.subset_append_left _ _) rfl rfl
    (fun _ hg => .inl hg) fun _ hcur => Option.some.inj hcur ▸ ⟨hloaded, hprogress⟩

theorem Sound.revisit (h : Sound s) (hpass : s.pass = .second)
    (hfile : s.file = some ⟨f, (a, containers) :: rest, last, false⟩)
    (hread : s.stops a answer = true ∨ s.Succeeded a containers) :
    Sound (s.revisit ⟨f, (a, containers) :: rest, last, false⟩ a rest answer) := by
  obtain ⟨hloaded, hprogress⟩ := h.file _ hfile
  have hnot : s.pass = .first → False := fun hfirst => by
    rw [hpass] at hfirst
    cases hfirst
  rw [State.revisit]
  by_cases hwaits : a ∈ s.waitList
  · rw [if_pos hwaits]
    simp only [State.stops, if_pos hwaits] at hread
    cases hobj : s.accObjectDict a with
    | none => exact h.leave _
    | some obj =>
      cases hanswer : answer.updated with
      | true =>
        have hsuccess : ∀ c ∈ containers, obj.accountMap[c]? = some HeadStatus.success := by
          simpa [hanswer, State.Succeeded, hobj] using hread
        have htracked := h.tracked a obj hobj
        simp only [State.accountUpdate, hanswer, if_true]
        have hext : Extends s { s with
            acknowledged := s.acknowledged ++ State.reportOf a obj
            accObjectDict := Function.update s.accObjectDict a (some { obj with
              recordInstance := [], accUpdateFailed := false, containerList := [] })
            waitList := s.waitList.erase a
            file := some ⟨f, rest, last, false⟩ } := ⟨rfl, List.subset_append_left _ _⟩
        refine h.writes
          ⟨hext, rfl, rfl, rfl, fun b hb hne => (List.mem_erase_of_ne hne).mpr hb, rfl⟩
          (htracked.reported rfl rfl) (.inl rfl) fun cur hcur => ?_
        obtain rfl := Option.some.inj hcur
        refine ⟨hloaded, hprogress.next hext (fun hp => (hnot hp).elim) (.inr fun c hc => ?_)⟩
        exact htracked.acked (by rfl) (by rfl) (hsuccess c hc)
      | false =>
        simp only [State.accountUpdate, hanswer, Bool.false_eq_true, if_false]
        have hext : Extends s { s with
            accObjectDict := Function.update s.accObjectDict a
              (some { obj with accUpdateFailed := true })
            file := none } := ⟨rfl, fun _ hk => hk⟩
        have htracked : Tracked s a { obj with accUpdateFailed := true } :=
          ⟨(h.tracked a obj hobj).success, (h.tracked a obj hobj).readAt⟩
        exact h.writes ⟨hext, rfl, rfl, rfl, fun b hb _ => hb, rfl⟩ (hext.tracked htracked)
          (.inr (.inr (.inl rfl))) fun cur hcur => by cases hcur
  · rw [if_neg hwaits]
    simp only [State.stops, if_neg hwaits, State.Succeeded] at hread
    cases hobj : s.accObjectDict a with
    | none =>
      -- no object was made for the account
      have hempty : containers = [] := by simpa [hobj] using hread
      have hext : Extends s { s with file := some ⟨f, rest, last, false⟩ } := ⟨rfl, fun _ hk => hk⟩
      refine h.moves hloaded (hprogress.next hext (fun hp => (hnot hp).elim) (.inr fun c hc => ?_))
      rw [hempty] at hc
      cases hc
    | some obj =>
      simp only [hobj] at hread
      simp only
      split
      · exact h.leave _
      case isFalse hon =>
        rw [Bool.or_eq_true, not_or] at hon
        have hsuccess : ∀ c ∈ containers, obj.accountMap[c]? = some HeadStatus.success := by
          simpa [hon] using hread
        have hnone : obj.recordInstance = [] := by
          rcases h.settled a obj hobj with hnone | hwait | hfailed | hfailing
          · exact hnone
          · exact absurd hwait hwaits
          · exact absurd hfailed hon.2
          · exact absurd hfailing hon.1
        have hext : Extends s { s with file := some ⟨f, rest, last, false⟩ } :=
          ⟨rfl, fun _ hk => hk⟩
        refine h.moves hloaded
          (hprogress.next hext (fun hp => (hnot hp).elim) (.inr fun c hc => ?_))
        exact hext.acked (h.acked_of_settled hobj hnone (hsuccess c hc))

theorem Progress.reported {cur : Current} (h : Progress s cur)
    (hloaded : cur.statFile.loadedAt ≤ s.iteration) (hremaining : cur.remaining = [])
    (hwaits : s.pass = .first → ∀ p ∈ cur.statFile.accounts, p.1 ∉ s.waitList) :
    Reported s cur.statFile := by
  obtain ⟨⟨done, haccounts, hprefix⟩, -⟩ := h
  rw [hremaining, List.append_nil] at haccounts
  intro p hp c hc
  rcases hprefix p (haccounts ▸ hp) with ⟨hpass, hin⟩ | hacked
  · exact absurd hin (hwaits hpass p hp)
  · obtain ⟨k, hk, ha, hkc, hread⟩ := hacked c hc
    exact ⟨k, hk, ha, hkc, Nat.le_trans hloaded hread⟩

theorem Sound.retire (h : Sound s) (hf : Reported s f) : Sound (s.retire f) := by
  refine h.keeps ⟨rfl, fun _ hk => hk⟩ (fun _ hg => List.mem_of_mem_filter hg)
    (List.subset_append_left _ _) rfl rfl (fun g hg => ?_) fun _ hcur => by (cases hcur)
  rcases List.mem_append.mp hg with hg | hg
  · exact .inl hg
  · obtain rfl := List.mem_singleton.mp hg
    exact .inr hf

/-- The loop that finds nothing unfinished has seen every account without a failure. -/
theorem unfinished_false {accounts : List Account} (h : s.unfinished last accounts = some false) :
    ∀ a ∈ accounts, a ∉ s.waitList ∧
      (∃ obj, s.accObjectDict a = some obj ∧ obj.failing = false) ∧
      ((last.bind s.accObjectDict).any fun obj => obj.accUpdateFailed) = false := by
  induction accounts with
  | nil => exact fun a ha => by cases ha
  | cons b accounts ih =>
    rw [State.unfinished] at h
    split at h
    · cases h
    · rename_i hwaits
      split at h
      · cases h
      · rename_i obj hobj
        split at h
        · cases h
        · rename_i hgood
          rw [Bool.or_eq_true, not_or, Bool.not_eq_true, Bool.not_eq_true] at hgood
          intro a ha
          rcases List.mem_cons.mp ha with rfl | ha
          · exact ⟨hwaits, ⟨obj, hobj, hgood.1⟩, hgood.2⟩
          · exact ih h a ha

theorem Sound.close (h : Sound s) {cur : Current} (hfile : s.file = some cur)
    (hend : cur.broken = true ∨ cur.remaining = []) : Sound (s.close cur) := by
  obtain ⟨hloaded, hprogress⟩ := h.file cur hfile
  rw [State.close]
  split
  · exact h.leave _
  · exact h.leave _
  · rename_i hunfinished
    have hgood := unfinished_false hunfinished
    have hwaits : ∀ p ∈ cur.statFile.accounts, p.1 ∉ s.waitList := fun p hp =>
      (hgood p.1 (List.mem_map_of_mem hp)).1
    have hbroken : cur.broken = false := by
      by_contra hbroken
      rcases hprogress.2 (by simpa using hbroken) with ⟨p, hp, obj, hobj, hfailing⟩ | ⟨hne, hlast⟩
      · obtain ⟨obj', hobj', hgood'⟩ := (hgood p.1 (List.mem_map_of_mem hp)).2.1
        rw [hobj] at hobj'
        obtain rfl := Option.some.inj hobj'
        rw [hfailing] at hgood'
        cases hgood'
      · obtain ⟨p, rest, hp⟩ := List.exists_cons_of_ne_nil hne
        have hin : p ∈ cur.statFile.accounts := by simp [hp]
        rw [(hgood p.1 (List.mem_map_of_mem hin)).2.2] at hlast
        cases hlast
    have hremaining : cur.remaining = [] := by simpa [hbroken] using hend
    exact h.retire (hprogress.reported hloaded hremaining fun _ => hwaits)

theorem mem_foldl_assign {loaded updaterMap : List StatFile} {g : StatFile}
    (hg : g ∈ loaded.foldl assign updaterMap) : g ∈ updaterMap ∨ g ∈ loaded := by
  induction loaded generalizing updaterMap with
  | nil => exact .inl hg
  | cons f loaded ih =>
    rcases ih hg with hin | hin
    · rcases List.mem_append.mp hin with hin | hin
      · exact .inl (List.mem_of_mem_filter hin)
      · exact .inr (List.mem_singleton.mp hin ▸ List.mem_cons_self)
    · exact .inr (List.mem_cons_of_mem _ hin)

/-- A new iteration begins without objects, after all files of its map were loaded. -/
theorem Sound.populate (h : Sound s) {readerMap : List (StatFile × Bool)}
    (hloaded : ∀ e ∈ readerMap, e.1.loadedAt ≤ s.iteration + 1) (ownership : Option (List Nat)) :
    Sound (s.populate readerMap ownership) := by
  have hmap : ∀ g ∈ (s.populate readerMap ownership).updaterMap, g.loadedAt ≤ s.iteration + 1 := by
    intro g hg
    have hin : g ∈ ((readerMap.filter fun e => !e.2).map Prod.fst).foldl assign s.updaterMap := by
      cases ownership with
      | none => exact hg
      | some owned => exact List.mem_of_mem_filter hg
    rcases mem_foldl_assign hin with hold | hnew
    · exact Nat.le_trans (h.updaterMap g hold) (Nat.le_succ _)
    · obtain ⟨e, he, rfl⟩ := List.mem_map.mp hnew
      exact hloaded e (List.mem_of_mem_filter he)
  exact ⟨h.retired, hmap, hmap, fun _ hcur => by (cases hcur), fun _ _ hobj => by (cases hobj),
    fun _ _ hobj => by (cases hobj)⟩

end Passes

theorem step_sound (s : State) (e : Event) (s' : State) (h : Sound s) (hc : Condition s e)
    (hstep : step s e = some s') : Sound s' := by
  cases e with
  | populate readerMap ownership =>
    simp only [step] at hstep
    split at hstep
    · rename_i hidle
      obtain rfl := Option.some.inj hstep
      exact h.populate hidle.2 ownership
    · cases hstep
  | stop =>
    simp only [step] at hstep
    split at hstep
    · obtain rfl := Option.some.inj hstep
      exact h.keeps ⟨rfl, fun _ hk => hk⟩ (List.nil_subset _) (List.nil_subset _) rfl rfl
        (fun _ hg => .inl hg) fun cur hcur => h.file cur hcur
    · cases hstep
  | start f =>
    simp only [step] at hstep
    split at hstep
    · rename_i hready
      obtain rfl := Option.some.inj hstep
      refine h.keeps ⟨rfl, fun _ hk => hk⟩ (fun _ hg => hg)
        (fun g hg => List.mem_append_left _ (List.mem_of_mem_erase hg)) rfl rfl
        (fun _ hg => .inl hg) fun cur hcur => ?_
      obtain rfl := Option.some.inj hcur
      exact ⟨h.todo f hready.2.2, ⟨[], rfl, fun _ hp => by (cases hp)⟩, fun hb => by (cases hb)⟩
    · cases hstep
  | visit dispatch answer =>
    simp only [step] at hstep
    split at hstep
    · rename_i hpass hfile
      obtain rfl := Option.some.inj hstep
      cases dispatch with
      | completes results =>
        exact h.visit hpass hfile (hc _ hfile)
      | raises heads => exact hc.elim
    · cases hstep
  | revisit answer =>
    simp only [step] at hstep
    split at hstep
    · rename_i hpass hfile
      obtain rfl := Option.some.inj hstep
      exact h.revisit hpass hfile (hc _ hfile _ rfl)
    · cases hstep
  | close =>
    simp only [step] at hstep
    split at hstep
    · rename_i hpass hfile
      split at hstep
      · rename_i hend
        obtain rfl := Option.some.inj hstep
        exact h.close hfile hend
      · cases hstep
    · rename_i cur hpass hfile
      split at hstep
      · rename_i hremaining
        obtain rfl := Option.some.inj hstep
        obtain ⟨hloaded, hprogress⟩ := h.file cur hfile
        refine h.retire (hprogress.reported hloaded hremaining fun hfirst => ?_)
        rw [hpass] at hfirst
        cases hfirst
      · cases hstep
    · cases hstep
  | secondPass =>
    simp only [step] at hstep
    split at hstep
    · rename_i hend
      obtain rfl := Option.some.inj hstep
      exact h.keeps ⟨rfl, fun _ hk => hk⟩ (fun _ hg => hg) (List.subset_append_right _ _) rfl rfl
        (fun _ hg => .inl hg) fun cur hcur => by
          rw [hend.2.1] at hcur
          cases hcur
    · cases hstep
  | sleep =>
    simp only [step] at hstep
    split at hstep
    · rename_i hend
      obtain rfl := Option.some.inj hstep
      exact h.keeps ⟨rfl, fun _ hk => hk⟩ (fun _ hg => hg) (List.subset_append_left _ _) rfl rfl
        (fun _ hg => .inl hg) fun cur hcur => by
          rw [hend.2.1] at hcur
          cases hcur
    · cases hstep

theorem sound_initial : Sound {} :=
  ⟨fun _ hf => by (cases hf), fun _ hf => by (cases hf), fun _ hf => by (cases hf),
    fun _ hcur => by (cases hcur), fun _ _ hobj => by (cases hobj), fun _ _ hobj => by (cases hobj)⟩

/-- In every run whose steps meet the condition, only reported stat files come on the sweeper
list. -/
theorem stat_files_retired_reported (events : List Event) (s : State)
    (hcond : Along step Condition {} events) (hrun : run step {} events = some s) :
    RetiresReported s :=
  (run_along_preserves step step_sound sound_initial hcond hrun).retired

instance (s : State) (a : Account) (containers : List Container) :
    Decidable (s.Succeeded a containers) := by
  unfold State.Succeeded
  split <;> infer_instance

instance (s : State) : DecidablePred (Condition s) := fun e => by
  cases e with
  | visit dispatch answer =>
    cases dispatch with
    | completes results => exact inferInstanceAs (Decidable (∀ cur ∈ s.file, _))
    | raises heads => exact .isFalse id
  | revisit answer => exact inferInstanceAs (Decidable (∀ cur ∈ s.file, _))
  | _ => exact .isTrue trivial

/-- Two stat files of the components 1 and 2 that share an account. -/
def oneContainer : StatFile := ⟨(1, "2015-05-08.06:08:38"), [("acc", ["cont1"])], 1⟩

def otherContainer : StatFile := ⟨(2, "2015-05-08.06:08:39"), [("acc", ["cont2"])], 1⟩

def allPresent : Dispatch := .completes fun _ => .answered (.present 3 300)

/-- Both files wait in the first pass and are retired in the second. -/
def sharedAccountRun : List Event :=
  [.populate [(oneContainer, false), (otherContainer, false)] none,
    .start oneContainer, .visit allPresent .refused, .close,
    .start otherContainer, .visit allPresent .refused, .close,
    .secondPass, .start oneContainer, .revisit .accepted, .close,
    .start otherContainer, .revisit .refused, .close, .sleep]

theorem stat_files_retired_reported_sharedAccount :
    (run step {} sharedAccountRun).map State.sweeperList = some [oneContainer, otherContainer] ∧
      ∀ s, run step {} sharedAccountRun = some s → RetiresReported s :=
  ⟨by decide +kernel, fun s => stat_files_retired_reported sharedAccountRun s (by decide +kernel)⟩

/-- Component 2 goes to another updater, and its file stays in the list of other files. -/
def ownershipRun : List Event :=
  [.populate [(oneContainer, false), (otherContainer, false)] (some [1]),
    .start oneContainer, .visit allPresent .accepted, .close]

/-- The `KeyError` of the file that left is logged, and the file at hand is retired without an
update. -/
theorem stat_file_retired_unreported :
    ¬∀ events s, run step {} events = some s → RetiresReported s := by
  intro hall
  have hrun : (run step {} ownershipRun).map (fun s => (s.sweeperList, s.acknowledged)) =
      some ([oneContainer], []) := by
    decide +kernel
  obtain ⟨s, hs, hlists⟩ := Option.map_eq_some_iff.mp hrun
  rw [Prod.mk.injEq] at hlists
  have hretired : oneContainer ∈ s.sweeperList := by simp [hlists.1]
  obtain ⟨k, hk, -⟩ := hall _ s hs oneContainer hretired ("acc", ["cont1"]) (by decide) "cont1"
    (by decide)
  rw [hlists.2] at hk
  cases hk

end ObjectStorage.Updater
