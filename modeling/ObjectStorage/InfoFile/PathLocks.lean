import ObjectStorage.Library.OrderedMap
import ObjectStorage.Library.Transition

/-!
The locks of the info files by their paths. A mutex is created for the first user of a key, counts
its users, and leaves the map with the last one; its memory is used again once nobody refers to it.
-/

namespace ObjectStorage.InfoFile

open Std Library

/-! ### The lock manager -/

inductive LockMode where
  | shared
  | exclusive
deriving DecidableEq

/-- A user has got the mutex, has locked it, has unlocked it but not yet released the lock, has
released the lock, and has dropped its reference. -/
inductive UsePhase where
  | acquired
  | locked (mode : LockMode)
  | unlocked
  | released
  | dropped
deriving DecidableEq

/-- A call of `get_lock` with the mutex it returned. -/
structure LockUse where
  key : String
  address : Nat
  phase : UsePhase
deriving DecidableEq

/-- The use is counted by the mutex. -/
def LockUse.counted (use : LockUse) : Bool :=
  match use.phase with
  | .acquired => true
  | .locked _ => true
  | .unlocked => true
  | .released => false
  | .dropped => false

/-- The user still refers to the mutex. -/
def LockUse.refers (use : LockUse) : Bool := use.phase ≠ .dropped

structure Mutex where
  key : String
  currentCount : Nat
deriving DecidableEq

/-- The lock manager, the mutexes in memory by their addresses, and all uses so far. -/
structure LockManager where
  lockMap : TreeMap String Nat
  heap : TreeMap Nat Mutex
  uses : List LockUse

namespace LockManager

def init : LockManager := ⟨∅, ∅, []⟩

/-- The map or a user refers to the mutex at the address. -/
def isLive (s : LockManager) (address : Nat) : Bool :=
  s.lockMap.toList.any (·.2 == address) ||
    s.uses.any fun use => use.refers && use.address == address

/-- A new mutex gets an address that is not in use. While the map is full nobody gets a lock. -/
def getLock (lockLimit : Nat) (s : LockManager) (key : String) (address : Nat) :
    Option LockManager :=
  if lockLimit ≤ s.lockMap.size then none
  else
    match s.lockMap[key]? with
    | some found =>
        s.heap[found]?.map fun mutex =>
          { s with
            heap := s.heap.insert found { mutex with currentCount := mutex.currentCount + 1 }
            uses := s.uses ++ [⟨key, found, .acquired⟩] }
    | none =>
        if s.isLive address then none
        else some
          { lockMap := s.lockMap.insert key address
            heap := s.heap.insert address ⟨key, 1⟩
            uses := s.uses ++ [⟨key, address, .acquired⟩] }

/-- `release_lock` of the lock manager. -/
def releaseLock (s : LockManager) (key : String) : LockManager :=
  match s.lockMap[key]? with
  | none => s
  | some address =>
      match s.heap[address]? with
      | none => s
      | some mutex =>
          { s with
            lockMap := if mutex.currentCount - 1 = 0 then s.lockMap.erase key else s.lockMap
            heap := s.heap.insert address { mutex with currentCount := mutex.currentCount - 1 } }

/-- A lock is granted if nobody has locked the mutex or all locks are shared. -/
def grants (s : LockManager) (address : Nat) (mode : LockMode) : Bool :=
  s.uses.all fun use =>
    use.address != address || match use.phase with
      | .locked held => held == .shared && mode == .shared
      | _ => true

def setPhase (s : LockManager) (i : Nat) (use : LockUse) (phase : UsePhase) : LockManager :=
  { s with uses := s.uses.set i { use with phase := phase } }

/-- The steps of the users. `unlock` of a mutex first unlocks the mutex below it and then releases
the lock under the key of the mutex. -/
inductive Action where
  | getLock (key : String) (address : Nat)
  | lock (i : Nat) (mode : LockMode)
  | unlock (i : Nat)
  | releaseLock (i : Nat)
  | drop (i : Nat)
deriving DecidableEq

def step (lockLimit : Nat) (s : LockManager) : Action → Option LockManager
  | .getLock key address => s.getLock lockLimit key address
  | .lock i mode => s.uses[i]?.bind fun use =>
      if use.phase = .acquired ∧ s.grants use.address mode then
        some (s.setPhase i use (.locked mode))
      else none
  | .unlock i => s.uses[i]?.bind fun use =>
      match use.phase with
      | .locked _ => some (s.setPhase i use .unlocked)
      | _ => none
  | .releaseLock i => s.uses[i]?.bind fun use =>
      if use.phase = .unlocked then
        s.heap[use.address]?.map fun mutex => (s.releaseLock mutex.key).setPhase i use .released
      else none
  | .drop i => s.uses[i]?.bind fun use =>
      if use.phase = .released then some (s.setPhase i use .dropped) else none

/-- How many users of a key are counted. -/
def useCount (uses : List LockUse) (key : String) : Nat :=
  uses.countP fun use => use.counted && use.key == key

/-- Every entry has a mutex of its key that counts its users, every counted user has this mutex, and
a mutex that a user refers to stays one of its key. -/
structure Consistent (s : LockManager) : Prop where
  entry : ∀ key address, s.lockMap[key]? = some address →
    s.heap[address]? = some ⟨key, useCount s.uses key⟩ ∧ 0 < useCount s.uses key
  shared : ∀ use ∈ s.uses, use.counted → s.lockMap[use.key]? = some use.address
  kept : ∀ use ∈ s.uses, use.refers → ∃ count, s.heap[use.address]? = some ⟨use.key, count⟩

theorem consistent_init : Consistent init where
  entry _ _ h := by simp [init] at h
  shared _ h := absurd h List.not_mem_nil
  kept _ h := absurd h List.not_mem_nil

variable {lockLimit : Nat} {s s' : LockManager} {a : Action}

/-! ### Getting a lock -/

theorem useCount_append (uses : List LockUse) (use : LockUse) (key : String) :
    useCount (uses ++ [use]) key =
      useCount uses key + if use.counted && use.key == key then 1 else 0 := by
  rw [useCount, useCount, List.countP_append, List.countP_singleton]

theorem not_isLive {address : Nat} (h : ¬ s.isLive address) :
    (∀ key : String, s.lockMap[key]? ≠ some address) ∧
      ∀ use ∈ s.uses, use.refers → use.address ≠ address := by
  simp only [isLive, Bool.or_eq_true, not_or, List.any_eq_true, not_exists, not_and] at h
  refine ⟨fun key hkey => ?_, fun use hin hrefers haddress => ?_⟩
  · have hmem := TreeMap.mem_toList_iff_getElem?_eq_some.mpr hkey
    exact h.1 _ hmem (beq_self_eq_true address)
  · refine h.2 use hin ?_
    simp [hrefers, haddress]

theorem Consistent.key_unique (h : Consistent s) {key key' : String} {address : Nat}
    (hkey : s.lockMap[key]? = some address) (hkey' : s.lockMap[key']? = some address) :
    key = key' := by
  have heq := Option.some.inj ((h.entry key address hkey).1.symm.trans
    (h.entry key' address hkey').1)
  exact congrArg Mutex.key heq

theorem Consistent.getLock_existing (h : Consistent s) {key : String} {found : Nat}
    (hfound : s.lockMap[key]? = some found) :
    Consistent { s with
      heap := s.heap.insert found ⟨key, useCount s.uses key + 1⟩
      uses := s.uses ++ [⟨key, found, .acquired⟩] } := by
  constructor
  · intro key' address hkey'
    obtain ⟨hheap, hpos⟩ := h.entry key' address hkey'
    simp only [getElem?_insert_eq, useCount_append, LockUse.counted, Bool.true_and, beq_iff_eq]
    by_cases hsame : key = key'
    · subst hsame
      obtain rfl := Option.some.inj (hfound.symm.trans hkey')
      rw [if_pos rfl, if_pos rfl]
      exact ⟨rfl, by omega⟩
    · have hne : found ≠ address := fun heq =>
        hsame (h.key_unique (heq ▸ hfound) hkey')
      rw [if_neg hne, if_neg hsame]
      exact ⟨hheap, hpos⟩
  · intro use hin hcounted
    rcases List.mem_append.mp hin with hin | hin
    · exact h.shared use hin hcounted
    · rw [List.mem_singleton.mp hin]
      exact hfound
  · intro use hin hrefers
    simp only [getElem?_insert_eq]
    rcases List.mem_append.mp hin with hin | hin
    · obtain ⟨count, hheap⟩ := h.kept use hin hrefers
      split
      · rename_i heq
        have hentry := (h.entry key found hfound).1
        rw [heq, hheap] at hentry
        have hkey : use.key = key := congrArg Mutex.key (Option.some.inj hentry)
        exact ⟨_, by rw [hkey]⟩
      · exact ⟨count, hheap⟩
    · rw [List.mem_singleton.mp hin, if_pos rfl]
      exact ⟨_, rfl⟩

theorem Consistent.useCount_eq_zero (h : Consistent s) {key : String}
    (hnone : s.lockMap[key]? = none) : useCount s.uses key = 0 := by
  refine List.countP_eq_zero.mpr fun use hin hcounted => ?_
  simp only [Bool.and_eq_true, beq_iff_eq] at hcounted
  obtain ⟨hcounted, rfl⟩ := hcounted
  have hentry := h.shared use hin hcounted
  rw [hnone] at hentry
  cases hentry

theorem Consistent.getLock_new (h : Consistent s) {key : String} {address : Nat}
    (hnone : s.lockMap[key]? = none) (hlive : ¬ s.isLive address) :
    Consistent
      { lockMap := s.lockMap.insert key address
        heap := s.heap.insert address ⟨key, 1⟩
        uses := s.uses ++ [⟨key, address, .acquired⟩] } := by
  obtain ⟨hmap, huses⟩ := not_isLive hlive
  constructor
  · intro key' address' hkey'
    simp only [getElem?_insert_eq, useCount_append, LockUse.counted, Bool.true_and,
      beq_iff_eq] at hkey' ⊢
    by_cases hkey : key = key'
    · subst hkey
      rw [if_pos rfl] at hkey'
      obtain rfl := Option.some.inj hkey'
      rw [if_pos rfl, if_pos rfl, h.useCount_eq_zero hnone]
      exact ⟨rfl, Nat.one_pos⟩
    · rw [if_neg hkey] at hkey'
      have hne : address ≠ address' := fun heq => hmap key' (heq ▸ hkey')
      rw [if_neg hne, if_neg hkey]
      exact h.entry key' address' hkey'
  · intro use hin hcounted
    simp only [getElem?_insert_eq]
    rcases List.mem_append.mp hin with hin | hin
    · have hentry := h.shared use hin hcounted
      have hne : key ≠ use.key := by
        rintro rfl
        rw [hnone] at hentry
        cases hentry
      rw [if_neg hne, hentry]
    · rw [List.mem_singleton.mp hin, if_pos rfl]
  · intro use hin hrefers
    simp only [getElem?_insert_eq]
    rcases List.mem_append.mp hin with hin | hin
    · rw [if_neg (huses use hin hrefers).symm]
      exact h.kept use hin hrefers
    · rw [List.mem_singleton.mp hin, if_pos rfl]
      exact ⟨_, rfl⟩

theorem Consistent.getLock (h : Consistent s) {key : String} {address : Nat}
    (hstep : s.getLock lockLimit key address = some s') : Consistent s' := by
  unfold LockManager.getLock at hstep
  split at hstep
  · cases hstep
  · split at hstep
    · rename_i found hfound
      obtain ⟨mutex, hmutex, rfl⟩ := Option.map_eq_some_iff.mp hstep
      obtain ⟨hheap, -⟩ := h.entry key found hfound
      obtain rfl := Option.some.inj (hmutex.symm.trans hheap)
      exact h.getLock_existing hfound
    · rename_i hnone
      split at hstep
      · cases hstep
      · rename_i hlive
        obtain rfl := Option.some.inj hstep
        exact h.getLock_new hnone hlive

/-! ### Steps of a user -/

theorem useCount_set {uses : List LockUse} {i : Nat} {use : LockUse} (huse : uses[i]? = some use)
    (phase : UsePhase) (key : String) :
    useCount (uses.set i { use with phase := phase }) key +
        (if use.counted && use.key == key then 1 else 0) =
      useCount uses key +
        if LockUse.counted { use with phase := phase } && use.key == key then 1 else 0 := by
  obtain ⟨hi, hget⟩ := List.getElem?_eq_some_iff.mp huse
  simp only [useCount, List.countP_set hi, hget]
  have hle : (if use.counted && use.key == key then 1 else 0) ≤
      uses.countP fun use => use.counted && use.key == key := by
    split
    · rename_i hcounted
      exact List.countP_pos_iff.mpr ⟨use, hget ▸ List.getElem_mem hi, hcounted⟩
    · exact Nat.zero_le _
  omega

theorem mem_set {i : Nat} {use : LockUse} {phase : UsePhase} {other : LockUse}
    (h : other ∈ (s.setPhase i use phase).uses) :
    other ∈ s.uses ∨ other = { use with phase := phase } :=
  List.mem_or_eq_of_mem_set h

/-- A step that leaves a use counted or not counted keeps the mutexes as they are. -/
theorem Consistent.setPhase (h : Consistent s) {i : Nat} {use : LockUse}
    (huse : s.uses[i]? = some use) {phase : UsePhase}
    (hcounted : LockUse.counted { use with phase := phase } = use.counted)
    (hrefers : use.refers) : Consistent (s.setPhase i use phase) := by
  have hin : use ∈ s.uses := List.mem_of_getElem? huse
  have hcount : ∀ key, useCount (s.setPhase i use phase).uses key = useCount s.uses key := by
    intro key
    have hset := useCount_set huse phase key
    rw [hcounted] at hset
    exact Nat.add_right_cancel hset
  refine ⟨fun key address hkey => ?_, fun other hother hc => ?_, fun other hother hr => ?_⟩
  · rw [hcount]
    exact h.entry key address hkey
  · rcases mem_set hother with hother | rfl
    · exact h.shared other hother hc
    · exact h.shared use hin (hcounted.symm.trans hc)
  · rcases mem_set hother with hother | rfl
    · exact h.kept other hother hr
    · exact h.kept use hin hrefers

theorem Consistent.release (h : Consistent s) {i : Nat} {use : LockUse}
    (huse : s.uses[i]? = some use) (hphase : use.phase = .unlocked) {mutex : Mutex}
    (hmutex : s.heap[use.address]? = some mutex) :
    Consistent ((s.releaseLock mutex.key).setPhase i use .released) := by
  have hin : use ∈ s.uses := List.mem_of_getElem? huse
  have hcounted : use.counted := by rw [LockUse.counted, hphase]
  have hmap := h.shared use hin hcounted
  obtain ⟨hheap, hpos⟩ := h.entry use.key use.address hmap
  obtain rfl := Option.some.inj (hmutex.symm.trans hheap)
  have hcount := fun key => useCount_set huse .released key
  have hnot : LockUse.counted { use with phase := .released } = false := rfl
  simp only [hcounted, hnot, Bool.true_and, Bool.false_and, beq_iff_eq, Bool.false_eq_true,
    if_false, Nat.add_zero] at hcount
  simp only [LockManager.releaseLock, hmap, hheap, LockManager.setPhase]
  constructor
  · intro key' address' hkey'
    have hcount' := hcount key'
    simp only [getElem?_insert_eq]
    by_cases hsame : use.key = key'
    · subst hsame
      rw [if_pos rfl] at hcount'
      split at hkey'
      · simp at hkey'
      · obtain rfl := Option.some.inj (hmap.symm.trans hkey')
        rw [if_pos rfl, Option.some.injEq, Mutex.mk.injEq]
        exact ⟨⟨rfl, by omega⟩, by omega⟩
    · rw [if_neg hsame, Nat.add_zero] at hcount'
      have hkey : s.lockMap[key']? = some address' := by
        split at hkey'
        · simpa [hsame] using hkey'
        · exact hkey'
      have hne : use.address ≠ address' := fun heq => hsame (h.key_unique (heq ▸ hmap) hkey)
      rw [if_neg hne, hcount']
      exact h.entry key' address' hkey
  · intro other hother hc
    rcases List.mem_or_eq_of_mem_set hother with hold | rfl
    · have hentry := h.shared other hold hc
      by_cases hsame : use.key = other.key
      · have hcount' := hcount other.key
        rw [if_pos hsame, ← hsame] at hcount'
        -- another user of the key is still counted
        have hpos' : 0 < useCount (s.uses.set i { use with phase := .released }) use.key :=
          List.countP_pos_iff.mpr ⟨other, hother, by simp [hc, hsame]⟩
        rw [if_neg (by omega)]
        exact hentry
      · split
        · simpa [hsame] using hentry
        · exact hentry
    · cases hc
  · intro other hother hr
    simp only [getElem?_insert_eq]
    rcases List.mem_or_eq_of_mem_set hother with hold | rfl
    · obtain ⟨count, hkept⟩ := h.kept other hold hr
      split
      · rename_i heq
        rw [heq, hkept] at hheap
        have hkey : other.key = use.key := congrArg Mutex.key (Option.some.inj hheap)
        exact ⟨_, by rw [hkey]⟩
      · exact ⟨count, hkept⟩
    · rw [if_pos rfl]
      exact ⟨_, rfl⟩

theorem Consistent.step (h : Consistent s) (hstep : s.step lockLimit a = some s') :
    Consistent s' := by
  cases a with
  | getLock key address => exact h.getLock hstep
  | lock i mode =>
      obtain ⟨use, huse, hstep⟩ := Option.bind_eq_some_iff.mp hstep
      split at hstep
      · rename_i hphase
        obtain rfl := Option.some.inj hstep
        exact h.setPhase huse (by simp [LockUse.counted, hphase.1])
          (by simp [LockUse.refers, hphase.1])
      · cases hstep
  | unlock i =>
      obtain ⟨use, huse, hstep⟩ := Option.bind_eq_some_iff.mp hstep
      split at hstep
      · rename_i mode hphase
        obtain rfl := Option.some.inj hstep
        exact h.setPhase huse (by simp [LockUse.counted, hphase]) (by simp [LockUse.refers, hphase])
      · cases hstep
  | releaseLock i =>
      obtain ⟨use, huse, hstep⟩ := Option.bind_eq_some_iff.mp hstep
      split at hstep
      · rename_i hphase
        obtain ⟨mutex, hmutex, rfl⟩ := Option.map_eq_some_iff.mp hstep
        exact h.release huse hphase hmutex
      · cases hstep
  | drop i =>
      obtain ⟨use, huse, hstep⟩ := Option.bind_eq_some_iff.mp hstep
      split at hstep
      · rename_i hphase
        obtain rfl := Option.some.inj hstep
        exact h.setPhase huse (by simp [LockUse.counted, hphase]) (by simp [LockUse.refers, hphase])
      · cases hstep

/-! ### Runs -/

theorem run_consistent {actions : List Action}
    (hrun : run (LockManager.step lockLimit) init actions = some s) : Consistent s :=
  run_preserves (LockManager.step lockLimit) (fun _ _ _ h hstep => Consistent.step h hstep)
    consistent_init hrun

/-- The users of a key that are counted share the mutex of its entry, a mutex that a user refers to
is that of one key, and an entry is there exactly while its count, the number of its users, is
positive. -/
theorem run_shares_mutex {actions : List Action}
    (hrun : run (LockManager.step lockLimit) init actions = some s) :
    (∀ use ∈ s.uses, ∀ other ∈ s.uses, use.counted → other.counted → use.key = other.key →
      use.address = other.address) ∧
    (∀ use ∈ s.uses, ∀ other ∈ s.uses, use.refers → other.refers → use.address = other.address →
      use.key = other.key) ∧
    ∀ key : String, (0 < useCount s.uses key ↔ ∃ address, s.lockMap[key]? = some address) ∧
      ∀ address, s.lockMap[key]? = some address →
        s.heap[address]? = some ⟨key, useCount s.uses key⟩ := by
  have h := run_consistent hrun
  refine ⟨fun use huse other hother hc hc' hkey => ?_, fun use huse other hother hr hr' heq => ?_,
    fun key => ⟨⟨fun hpos => ?_, fun ⟨address, hkey⟩ => (h.entry key address hkey).2⟩,
      fun address hkey => (h.entry key address hkey).1⟩⟩
  · have hentry := h.shared use huse hc
    rw [hkey, h.shared other hother hc'] at hentry
    exact (Option.some.inj hentry).symm
  · obtain ⟨count, hheap⟩ := h.kept use huse hr
    obtain ⟨count', hheap'⟩ := h.kept other hother hr'
    rw [heq, hheap'] at hheap
    exact (congrArg Mutex.key (Option.some.inj hheap)).symm
  · obtain ⟨use, huse, hcounted⟩ := List.countP_pos_iff.mp hpos
    simp only [Bool.and_eq_true, beq_iff_eq] at hcounted
    exact ⟨use.address, hcounted.2 ▸ h.shared use huse hcounted.1⟩

/-- The last user of a key has left, and its mutex is used for the next key. -/
theorem run_shares_mutex_reused : ∃ s, run (LockManager.step 1024) init
    [.getLock "a/b" 0, .getLock "a/b" 1, .lock 0 .shared, .lock 1 .shared, .unlock 0,
      .releaseLock 0, .drop 0, .unlock 1, .releaseLock 1, .drop 1, .getLock "a/c" 0] = some s ∧
    s.lockMap.toList = [("a/c", 0)] ∧
    ∀ key : String, 0 < useCount s.uses key ↔ ∃ address, s.lockMap[key]? = some address := by
  obtain ⟨s, hrun, hmap⟩ : ∃ s, run (LockManager.step 1024) init
      [.getLock "a/b" 0, .getLock "a/b" 1, .lock 0 .shared, .lock 1 .shared, .unlock 0,
        .releaseLock 0, .drop 0, .unlock 1, .releaseLock 1, .drop 1, .getLock "a/c" 0] = some s ∧
      s.lockMap.toList = [("a/c", 0)] := ⟨_, rfl, by decide +kernel⟩
  exact ⟨s, hrun, hmap, fun key => ((run_shares_mutex hrun).2.2 key).1⟩

/-! ### Mutual exclusion -/

/-- Two uses do not have the same mutex locked, unless both locks are shared. -/
def Compatible (use other : LockUse) : Prop :=
  use.address = other.address → ∀ mode mode', use.phase = .locked mode →
    other.phase = .locked mode' →
    mode = .shared ∧ mode' = .shared

def Excludes (s : LockManager) : Prop :=
  ∀ (i j : Nat) (use other : LockUse), i ≠ j → s.uses[i]? = some use → s.uses[j]? = some other →
    Compatible use other

theorem Compatible.symm {use other : LockUse} (h : Compatible use other) : Compatible other use :=
  fun haddress mode mode' hm hm' => (h haddress.symm mode' mode hm' hm).symm

theorem compatible_of_not_locked {use other : LockUse} (h : ∀ mode, use.phase ≠ .locked mode) :
    Compatible use other := fun _ mode _ hm _ => absurd hm (h mode)

theorem Excludes.append (h : Excludes s) {lockMap : TreeMap String Nat} {heap : TreeMap Nat Mutex}
    {use : LockUse} (huse : ∀ mode, use.phase ≠ .locked mode) :
    Excludes ⟨lockMap, heap, s.uses ++ [use]⟩ := by
  intro i j u v hij hu hv
  rw [List.getElem?_append] at hu hv
  split at hu <;> split at hv
  · exact h i j u v hij hu hv
  · rw [List.getElem?_singleton] at hv
    split at hv
    · exact (Option.some.inj hv ▸ compatible_of_not_locked huse).symm
    · cases hv
  · rw [List.getElem?_singleton] at hu
    split at hu
    · exact Option.some.inj hu ▸ compatible_of_not_locked huse
    · cases hu
  · rw [List.getElem?_singleton] at hu hv
    split at hu
    · split at hv
      · omega
      · cases hv
    · cases hu

theorem Excludes.set (h : Excludes s) {i : Nat} {use : LockUse}
    (huse : ∀ (j : Nat) (other : LockUse), i ≠ j → s.uses[j]? = some other → Compatible use other)
    {lockMap : TreeMap String Nat} {heap : TreeMap Nat Mutex} :
    Excludes ⟨lockMap, heap, s.uses.set i use⟩ := by
  intro j k u v hjk hu hv
  rw [List.getElem?_set] at hu hv
  split at hu
  · rename_i hij
    subst hij
    rw [if_neg hjk] at hv
    split at hu
    · obtain rfl := Option.some.inj hu
      exact huse k v hjk hv
    · cases hu
  · rename_i hij
    split at hv
    · rename_i hik
      split at hv
      · obtain rfl := Option.some.inj hv
        exact (huse j u hij hu).symm
      · cases hv
    · exact h j k u v hjk hu hv

theorem grants_compatible {use : LockUse} {mode : LockMode} (h : s.grants use.address mode)
    {j : Nat} {other : LockUse} (hother : s.uses[j]? = some other) :
    Compatible { use with phase := .locked mode } other := by
  intro haddress m m' hm hm'
  have hgrant := List.all_eq_true.mp h other (List.mem_of_getElem? hother)
  have hsame : other.address = use.address := haddress.symm
  obtain rfl : mode = m := UsePhase.locked.inj hm
  simp only [hsame, hm', bne_self_eq_false, Bool.false_or, Bool.and_eq_true, beq_iff_eq] at hgrant
  exact ⟨hgrant.2, hgrant.1⟩

theorem Excludes.step (h : Excludes s) (hstep : s.step lockLimit a = some s') : Excludes s' := by
  cases a with
  | getLock key address =>
      simp only [LockManager.step, LockManager.getLock] at hstep
      split at hstep
      · cases hstep
      · split at hstep
        · obtain ⟨mutex, -, rfl⟩ := Option.map_eq_some_iff.mp hstep
          exact h.append (fun mode hmode => by cases hmode)
        · split at hstep
          · cases hstep
          · obtain rfl := Option.some.inj hstep
            exact h.append (fun mode hmode => by cases hmode)
  | lock i mode =>
      obtain ⟨use, huse, hstep⟩ := Option.bind_eq_some_iff.mp hstep
      split at hstep
      · rename_i hphase
        obtain rfl := Option.some.inj hstep
        exact h.set fun j other _ hother => grants_compatible hphase.2 hother
      · cases hstep
  | unlock i =>
      obtain ⟨use, huse, hstep⟩ := Option.bind_eq_some_iff.mp hstep
      split at hstep
      · obtain rfl := Option.some.inj hstep
        exact h.set fun _ _ _ _ => compatible_of_not_locked fun mode hmode => by cases hmode
      · cases hstep
  | releaseLock i =>
      obtain ⟨use, huse, hstep⟩ := Option.bind_eq_some_iff.mp hstep
      split at hstep
      · obtain ⟨mutex, -, rfl⟩ := Option.map_eq_some_iff.mp hstep
        have huses : (s.releaseLock mutex.key).uses = s.uses := by
          unfold releaseLock
          split
          · rfl
          · split <;> rfl
        rw [LockManager.setPhase, huses]
        exact h.set fun _ _ _ _ => compatible_of_not_locked fun mode hmode => by cases hmode
      · cases hstep
  | drop i =>
      obtain ⟨use, huse, hstep⟩ := Option.bind_eq_some_iff.mp hstep
      split at hstep
      · obtain rfl := Option.some.inj hstep
        exact h.set fun _ _ _ _ => compatible_of_not_locked fun mode hmode => by cases hmode
      · cases hstep

/-- Of two users that have a key locked at the same time, both share it. -/
theorem run_excludes {actions : List Action}
    (hrun : run (LockManager.step lockLimit) init actions = some s) {i j : Nat}
    {use other : LockUse} (hij : i ≠ j) (huse : s.uses[i]? = some use)
    (hother : s.uses[j]? = some other) (hkey : use.key = other.key) {mode mode' : LockMode}
    (hmode : use.phase = .locked mode) (hmode' : other.phase = .locked mode') :
    mode = .shared ∧ mode' = .shared := by
  have hexcludes : Excludes s := run_preserves (LockManager.step lockLimit)
    (fun _ _ _ h hstep => Excludes.step h hstep) (fun i j u v _ hu => by simp [init] at hu) hrun
  have h := run_consistent hrun
  have hentry := h.shared use (List.mem_of_getElem? huse) (by simp [LockUse.counted, hmode])
  have hentry' := h.shared other (List.mem_of_getElem? hother) (by simp [LockUse.counted, hmode'])
  rw [hkey, hentry'] at hentry
  exact hexcludes i j use other hij huse hother
    (Option.some.inj hentry).symm mode mode' hmode hmode'

end LockManager

end ObjectStorage.InfoFile
