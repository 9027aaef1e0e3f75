import Mathlib.Data.Int.Basic
import ObjectStorage.Library.ThreadTable
import ObjectStorage.Library.Transition

/-!
The locks on the objects of one container in the transaction library, the count that the service
keeps of them, and the deletion of the container: requests are split where a library call yields.
-/

namespace ObjectStorage.Service.ContainerDeletion

open Library

/-- A lock in the library: its transaction id and the path of the object. -/
structure Lock where
  transactionId : Int
  objectPath : String
  deriving DecidableEq, Repr

/-- What `delete_container` of the container operations comes back with. -/
inductive DeleteResult
  | internalError
  | notFound
  | other
  | raised
  deriving DecidableEq, Repr

/-- A request on the container behind its last step. -/
inductive Thread
  | lockGranted
  | lockReleased
  | bulkDelete
  | listing
  | deleting
  | accountUpdate
  | waiting
  | done
  deriving DecidableEq, Repr

/-- The entry of the container in `__active_trans_dict`, the locks on its objects, and the
requests. -/
structure State where
  activeTrans : Option (Int × Bool)
  locks : List Lock
  threads : List Thread
  deriving DecidableEq, Repr

/-- The entry after one more lock. -/
def updateInternalMemory : Option (Int × Bool) → Option (Int × Bool)
  | some (count, deletion) => some (count + 1, deletion)
  | none => some (1, false)

/-- Whether `__active_transaction_check` answers with a conflict. -/
def activeTransactionCheck (entry : Option (Int × Bool)) : Bool :=
  match entry with
  | some (_, deletion) => deletion
  | none => false

def revertContChanges (entry : Option (Int × Bool)) : Option (Int × Bool) :=
  entry.map fun value => (value.1, false)

def releaseCount (entry : Option (Int × Bool)) : Option (Int × Bool) :=
  entry.map fun value => (value.1 - 1, value.2)

/-- The entry after recovery, from the locks that the library has. -/
def recoverInternalMemory (locks : List Lock) : Option (Int × Bool) :=
  locks.foldl (fun entry _ => updateInternalMemory entry) none

def State.start (locks : List Lock) : State := ⟨recoverInternalMemory locks, locks, []⟩

inductive Event
  | getLock (granted : Option Lock)
  | lockCounted (i : Nat) (raised : Bool)
  | freeLock (transactionId : Int)
  | freeLocks (objectPath : String)
  | releaseCounted (i : Nat) (raised : Bool)
  | bulkDelete (acquired : List Lock)
  | bulkDeleted (i : Nat) (raised : Bool)
  | putContainer
  | deleteContainer
  | listed (i : Nat) (result : Option DeleteResult)
  | deleted (i : Nat) (result : DeleteResult)
  | finish (i : Nat) (raised : Bool)
  | extractComponent
  | acceptComponent (accepted : List Lock)
  deriving DecidableEq, Repr

namespace State

variable (s : State)

def spawn (t : Thread) : State := { s with threads := s.threads ++ [t] }

def becomes (i : Nat) (t : Thread) : State := { s with threads := s.threads.set i t }

/-- The end of DELETE by what the library says of the deletion. -/
def endDelete (i : Nat) : DeleteResult → State
  | .internalError | .raised =>
      { s with activeTrans := revertContChanges s.activeTrans }.becomes i .done
  | .notFound => { s with activeTrans := none }.becomes i .done
  | .other => { s with activeTrans := none }.becomes i .accountUpdate

end State

/-- The library calls change its locks at once; the request goes on when the journal is written. -/
def step (s : State) : Event → Option State
  | .getLock granted =>
      if activeTransactionCheck s.activeTrans then some (s.spawn .done)
      else
        match granted with
        | none => some (s.spawn .waiting)
        | some lock => some ({ s with locks := s.locks ++ [lock] }.spawn .lockGranted)
  | .lockCounted i raised =>
      if s.threads[i]? = some .lockGranted then
        some ({ s with activeTrans :=
          if raised then s.activeTrans else updateInternalMemory s.activeTrans }.becomes i .done)
      else none
  | .freeLock transactionId =>
      if s.locks.any (·.transactionId = transactionId) then
        some ({ s with locks := s.locks.eraseP (·.transactionId = transactionId) }.spawn
          .lockReleased)
      else some (s.spawn .waiting)
  | .freeLocks objectPath =>
      if s.locks.any (·.objectPath = objectPath) then
        some ({ s with locks := s.locks.filter (·.objectPath ≠ objectPath) }.spawn .lockReleased)
      else some (s.spawn .waiting)
  | .releaseCounted i raised =>
      if s.threads[i]? = some .lockReleased then
        some ({ s with activeTrans :=
          if raised then s.activeTrans else releaseCount s.activeTrans }.becomes i .done)
      else none
  | .bulkDelete acquired => some ({ s with locks := s.locks ++ acquired }.spawn .bulkDelete)
  | .bulkDeleted i raised =>
      if s.threads[i]? = some .bulkDelete then
        some ({ s with activeTrans :=
          if raised then revertContChanges s.activeTrans else s.activeTrans }.becomes i .done)
      else none
  | .putContainer =>
      if activeTransactionCheck s.activeTrans then some (s.spawn .done) else some (s.spawn .waiting)
  | .deleteContainer =>
      let value := s.activeTrans.getD (0, false)
      if value.1 > 0 then some ({ s with activeTrans := some value }.spawn .done)
      else some ({ s with activeTrans := some (value.1, true) }.spawn .listing)
  | .listed i result =>
      if s.threads[i]? = some .listing then
        match result with
        | none => some (s.becomes i .deleting)
        | some result => some (s.endDelete i result)
      else none
  | .deleted i result =>
      if s.threads[i]? = some .deleting then some (s.endDelete i result) else none
  | .finish i raised =>
      if s.threads[i]? = some .accountUpdate then
        some ({ s with activeTrans :=
          if raised then revertContChanges s.activeTrans else s.activeTrans }.becomes i .done)
      else if s.threads[i]? = some .waiting then some (s.becomes i .done)
      else none
  | .extractComponent => some { s with locks := [] }
  | .acceptComponent accepted => some { s with locks := s.locks ++ accepted }

/-- The number of threads at a place. -/
def State.at (s : State) (places : List Thread) : Nat :=
  total (fun t => if t ∈ places then 1 else 0) s.threads

/-- The count kept for the container. -/
def State.count (s : State) : Int := (s.activeTrans.map Prod.fst).getD 0

/-- The count is right when no request is in progress, and the container is not being deleted while
a lock is held. -/
structure DeletionExcludesLocks (s : State) : Prop where
  counted : (∀ t ∈ s.threads, t = .done) → s.count = s.locks.length
  excluded : ∀ t ∈ s.threads, t = .listing ∨ t = .deleting → s.locks = []

/-- A lock is counted after it was granted, and a release when the container has an entry; a release
by name meets one lock; a deletion begins when none is in progress and, if it does not meet a count,
no granted lock is uncounted; a deletion flag is taken back only by the deletion that set it; bulk
deletes and transfers bring no locks and take none away. -/
def KeepsCount (s : State) : Event → Prop
  | .lockCounted _ raised => raised = false
  | .freeLocks objectPath => (s.locks.filter (·.objectPath = objectPath)).length ≤ 1
  | .releaseCounted _ raised => raised = false ∧ s.activeTrans ≠ none
  | .bulkDelete acquired => acquired = []
  | .bulkDeleted _ raised | .finish _ raised => raised = true → s.at [.listing, .deleting] = 0
  | .deleteContainer =>
      s.at [.listing, .deleting] = 0 ∧ (s.count ≤ 0 → s.at [.lockGranted] = 0)
  | .extractComponent => s.locks = []
  | .acceptComponent accepted => accepted = []
  | _ => True

instance (s : State) (e : Event) : Decidable (KeepsCount s e) := by
  unfold KeepsCount
  split <;> infer_instance

/-- The count lags behind the locks by the requests that have not counted yet, and a deletion is
alone. -/
structure Balanced (s : State) : Prop where
  balance : s.count + s.at [.lockGranted] = s.locks.length + s.at [.lockReleased]
  alone : 0 < s.at [.listing, .deleting] → s.at [.listing, .deleting] = 1 ∧ s.locks = [] ∧
    s.at [.lockGranted] = 0 ∧ s.at [.lockReleased] = 0 ∧ s.activeTrans = some (0, true)

section

variable {s : State} {places : List Thread} {i : Nat} {t : Thread}

theorem at_spawn (s : State) (t : Thread) (places : List Thread) :
    (s.spawn t).at places = s.at places + if t ∈ places then 1 else 0 :=
  total_concat ..

theorem at_becomes (ht : s.threads[i]? = some t) (t' : Thread) (places : List Thread) :
    (s.becomes i t').at places + (if t ∈ places then 1 else 0) =
      s.at places + if t' ∈ places then 1 else 0 :=
  total_set (f := fun t => if t ∈ places then 1 else 0) ht t'

theorem at_pos (ht : t ∈ s.threads) (hplace : t ∈ places) : 0 < s.at places := by
  have hle := le_total (f := fun t => if t ∈ places then 1 else 0) ht
  rw [if_pos hplace] at hle
  exact hle

theorem at_eq_zero (h : ∀ t ∈ s.threads, t ∉ places) : s.at places = 0 :=
  total_eq_zero.mpr fun t ht => if_neg (h t ht)

theorem Balanced.excludes (h : Balanced s) : DeletionExcludesLocks s := by
  refine ⟨fun hdone => ?_, fun t ht hdeletes => ?_⟩
  · have hgranted : s.at [.lockGranted] = 0 := at_eq_zero fun t ht => by
      rw [hdone t ht]
      decide
    have hreleased : s.at [.lockReleased] = 0 := at_eq_zero fun t ht => by
      rw [hdone t ht]
      decide
    have hbalance := h.balance
    omega
  · refine (h.alone (at_pos ht ?_)).2.1
    rcases hdeletes with rfl | rfl <;> decide

end

section

variable {s s' : State}

theorem Balanced.of_same (h : Balanced s) (hcount : s'.count = s.count)
    (hlocks : s'.locks = s.locks)
    (hgranted : s'.at [.lockGranted] = s.at [.lockGranted])
    (hreleased : s'.at [.lockReleased] = s.at [.lockReleased])
    (hdeleting : s'.at [.listing, .deleting] = s.at [.listing, .deleting])
    (hentry : 0 < s.at [.listing, .deleting] → s'.activeTrans = s.activeTrans) : Balanced s' := by
  refine ⟨?_, fun hpos => ?_⟩
  · rw [hcount, hlocks, hgranted, hreleased]
    exact h.balance
  · rw [hdeleting] at hpos ⊢
    rw [hlocks, hgranted, hreleased, hentry hpos]
    exact h.alone hpos

theorem Balanced.spawn_idle (h : Balanced s) {t : Thread}
    (ht : t ∉ [Thread.lockGranted, .lockReleased, .listing, .deleting]) : Balanced (s.spawn t) := by
  have hidle : ∀ places ⊆ [Thread.lockGranted, .lockReleased, .listing, .deleting],
      (s.spawn t).at places = s.at places := by
    intro places hsub
    rw [at_spawn, if_neg fun hin => ht (hsub hin)]
    rfl
  exact h.of_same rfl rfl (hidle _ (by decide)) (hidle _ (by decide)) (hidle _ (by decide))
    fun _ => rfl

theorem count_revertContChanges (entry : Option (Int × Bool)) :
    ((revertContChanges entry).map Prod.fst).getD 0 = (entry.map Prod.fst).getD 0 := by
  cases entry <;> rfl

/-- A request that is not tracked ends; the flag may be taken back where nothing is deleted. -/
theorem Balanced.finish_idle (h : Balanced s) {i : Nat} {t : Thread} {raised : Bool}
    (hi : s.threads[i]? = some t)
    (ht : t ∉ [Thread.lockGranted, .lockReleased, .listing, .deleting])
    (hraised : raised = true → s.at [.listing, .deleting] = 0) :
    Balanced ({ s with activeTrans :=
      if raised then revertContChanges s.activeTrans else s.activeTrans }.becomes i .done) := by
  have hidle : ∀ (s : State), s.threads[i]? = some t →
      ∀ places ⊆ [Thread.lockGranted, .lockReleased, .listing, .deleting],
        (s.becomes i .done).at places = s.at places := by
    intro s hi places hsub
    have hmoved := at_becomes hi .done places
    have hdone : Thread.done ∉ places := fun hin => absurd (hsub hin) (by decide)
    rw [if_neg fun hin => ht (hsub hin), if_neg hdone] at hmoved
    exact hmoved
  cases raised with
  | false =>
      exact h.of_same rfl rfl (hidle _ hi _ (by decide)) (hidle _ hi _ (by decide))
        (hidle _ hi _ (by decide)) fun _ => rfl
  | true =>
      refine h.of_same (count_revertContChanges s.activeTrans) rfl (hidle _ hi _ (by decide))
        (hidle _ hi _ (by decide)) (hidle _ hi _ (by decide)) fun hpos => ?_
      rw [hraised rfl] at hpos
      cases hpos

theorem Balanced.endDelete (h : Balanced s) {i : Nat} {t : Thread} (hi : s.threads[i]? = some t)
    (ht : t ∈ [Thread.listing, .deleting]) (result : DeleteResult) :
    Balanced (s.endDelete i result) := by
  obtain ⟨hone, hlocks, hgranted, hreleased, hentry⟩ :=
    h.alone (at_pos (List.mem_of_getElem? hi) ht)
  have hout : t ∉ [Thread.lockGranted] ∧ t ∉ [Thread.lockReleased] := by
    rcases List.mem_cons.mp ht with rfl | ht
    · decide
    · rw [List.mem_singleton.mp ht]
      decide
  -- the new entry has no count, and nothing is tracked any more
  have hend : ∀ (entry : Option (Int × Bool)) (t' : Thread), (entry.map Prod.fst).getD 0 = 0 →
      t' ∉ [Thread.lockGranted, .lockReleased, .listing, .deleting] →
      Balanced ({ s with activeTrans := entry }.becomes i t') := by
    intro entry t' hcount ht'
    have hsub : ∀ places ⊆ [Thread.lockGranted, .lockReleased, .listing, .deleting],
        ({ s with activeTrans := entry }.becomes i t').at places + (if t ∈ places then 1 else 0) =
          s.at places := by
      intro places hsub
      have hmoved := at_becomes (s := { s with activeTrans := entry }) hi t' places
      rw [if_neg fun hin => ht' (hsub hin)] at hmoved
      exact hmoved
    have hg := hsub [.lockGranted] (by decide)
    have hr := hsub [.lockReleased] (by decide)
    have hd := hsub [.listing, .deleting] (by decide)
    rw [if_neg hout.1] at hg
    rw [if_neg hout.2] at hr
    rw [if_pos ht] at hd
    refine ⟨?_, fun hpos => by omega⟩
    have hcount' : ({ s with activeTrans := entry }.becomes i t').count = 0 := hcount
    have hlength : ({ s with activeTrans := entry }.becomes i t').locks.length = 0 := by
      rw [List.length_eq_zero_iff]
      exact hlocks
    omega
  cases result with
  | internalError | raised =>
      exact hend _ .done (by rw [count_revertContChanges, hentry]; rfl) (by decide)
  | notFound => exact hend none .done rfl (by decide)
  | other => exact hend none .accountUpdate rfl (by decide)

end

theorem count_updateInternalMemory (entry : Option (Int × Bool)) :
    ((updateInternalMemory entry).map Prod.fst).getD 0 = (entry.map Prod.fst).getD 0 + 1 := by
  cases entry <;> rfl

theorem count_releaseCount {entry : Option (Int × Bool)} (h : entry ≠ none) :
    ((releaseCount entry).map Prod.fst).getD 0 = (entry.map Prod.fst).getD 0 - 1 := by
  cases entry with
  | none => exact absurd rfl h
  | some value => rfl

section

variable {s s' : State}

theorem Balanced.spawn_locks (h : Balanced s) {t : Thread} {locks : List Lock}
    (hdeleting : s.at [.listing, .deleting] = 0) (ht : t ∉ [Thread.listing, .deleting])
    (hbalance : locks.length + (if t ∈ [Thread.lockReleased] then 1 else 0) =
      s.locks.length + if t ∈ [Thread.lockGranted] then 1 else 0) :
    Balanced ({ s with locks := locks }.spawn t) := by
  have hat := fun places => at_spawn { s with locks := locks } t places
  have hkeep : ∀ places, ({ s with locks := locks } : State).at places = s.at places :=
    fun _ => rfl
  refine ⟨?_, fun hpos => ?_⟩
  · have hcount : ({ s with locks := locks }.spawn t).count = s.count := rfl
    have hlocks : ({ s with locks := locks }.spawn t).locks = locks := rfl
    have hold := h.balance
    rw [hcount, hlocks, hat, hat, hkeep, hkeep]
    omega
  · rw [hat, hkeep, hdeleting, if_neg ht] at hpos
    cases hpos

/-- While a container is being deleted, no lock is granted and none is there to be released. -/
theorem Balanced.deleting_eq_zero (h : Balanced s)
    (hfree : activeTransactionCheck s.activeTrans = false ∨ s.locks ≠ []) :
    s.at [.listing, .deleting] = 0 := by
  by_contra hne
  obtain ⟨-, hlocks, -, -, hentry⟩ := h.alone (Nat.pos_of_ne_zero hne)
  rcases hfree with hcheck | hsome
  · rw [hentry] at hcheck
    cases hcheck
  · exact hsome hlocks

theorem Balanced.count (h : Balanced s) {i : Nat} {t : Thread} {entry : Option (Int × Bool)}
    (hi : s.threads[i]? = some t) (ht : t = .lockGranted ∨ t = .lockReleased)
    (hcount : (entry.map Prod.fst).getD 0 =
      s.count + if t = .lockGranted then 1 else -1) :
    Balanced ({ s with activeTrans := entry }.becomes i .done) := by
  have hmoved := fun places =>
    at_becomes (s := { s with activeTrans := entry }) hi .done places
  have hkeep : ∀ places, ({ s with activeTrans := entry } : State).at places = s.at places :=
    fun _ => rfl
  have hg := hmoved [.lockGranted]
  have hr := hmoved [.lockReleased]
  have hd := hmoved [.listing, .deleting]
  have hold := h.balance
  have hcount' : ({ s with activeTrans := entry }.becomes i .done).count =
      s.count + if t = .lockGranted then 1 else -1 := hcount
  have hlocks : ({ s with activeTrans := entry }.becomes i .done).locks = s.locks := rfl
  have hzero : s.at [.listing, .deleting] = 0 := by
    by_contra hne
    obtain ⟨-, -, hgranted, hreleased, -⟩ := h.alone (Nat.pos_of_ne_zero hne)
    rcases ht with rfl | rfl
    · have hpos : 0 < s.at [.lockGranted] := at_pos (List.mem_of_getElem? hi) (by decide)
      omega
    · have hpos : 0 < s.at [.lockReleased] := at_pos (List.mem_of_getElem? hi) (by decide)
      omega
  rw [hkeep] at hg hr hd
  rcases ht with rfl | rfl
  · rw [if_pos (by decide), if_neg (by decide)] at hg
    rw [if_neg (by decide), if_neg (by decide)] at hr hd
    rw [if_pos rfl] at hcount'
    refine ⟨?_, fun hpos => by omega⟩
    rw [hcount', hlocks]
    omega
  · rw [if_pos (by decide), if_neg (by decide)] at hr
    rw [if_neg (by decide), if_neg (by decide)] at hg hd
    rw [if_neg (by decide)] at hcount'
    refine ⟨?_, fun hpos => by omega⟩
    rw [hcount', hlocks]
    omega

theorem step_balanced {e : Event} (hs : Balanced s) (he : KeepsCount s e) (h : step s e = some s') :
    Balanced s' := by
  cases e with
  | getLock granted =>
      simp only [step] at h
      split at h
      · cases h
        exact hs.spawn_idle (by decide)
      case isFalse hcheck =>
        split at h
        · cases h
          exact hs.spawn_idle (by decide)
        · cases h
          refine hs.spawn_locks (hs.deleting_eq_zero (.inl (Bool.not_eq_true _ ▸ hcheck)))
            (by decide) ?_
          rw [List.length_append, List.length_singleton, if_neg (by decide), if_pos (by decide)]
  | lockCounted i raised =>
      simp only [step] at h
      split at h
      case isTrue hi =>
        cases h
        obtain rfl : raised = false := he
        refine hs.count hi (.inl rfl) ?_
        rw [if_neg Bool.false_ne_true, count_updateInternalMemory, if_pos rfl]
        rfl
      · cases h
  | freeLock transactionId =>
      simp only [step] at h
      split at h
      case isTrue hany =>
        cases h
        obtain ⟨lock, hlock, hid⟩ := List.any_eq_true.mp hany
        have hlength : (s.locks.eraseP (·.transactionId = transactionId)).length =
            s.locks.length - 1 := List.length_eraseP_of_mem hlock hid
        have hpos := List.length_pos_of_mem hlock
        refine hs.spawn_locks (hs.deleting_eq_zero (.inr (List.ne_nil_of_mem hlock)))
          (by decide) ?_
        rw [hlength, if_pos (by decide), if_neg (by decide)]
        omega
      · cases h
        exact hs.spawn_idle (by decide)
  | freeLocks objectPath =>
      simp only [step] at h
      split at h
      case isTrue hany =>
        cases h
        obtain ⟨lock, hlock, hpath⟩ := List.any_eq_true.mp hany
        have hsplit := List.length_eq_length_filter_add (l := s.locks)
          fun lock => decide (lock.objectPath = objectPath)
        have hin : lock ∈ s.locks.filter (·.objectPath = objectPath) :=
          List.mem_filter.mpr ⟨hlock, hpath⟩
        have hpos := List.length_pos_of_mem hin
        have hone : (s.locks.filter (·.objectPath = objectPath)).length ≤ 1 := he
        have hrest : s.locks.filter (fun lock => !decide (lock.objectPath = objectPath)) =
            s.locks.filter (·.objectPath ≠ objectPath) :=
          List.filter_congr fun lock _ => by simp
        rw [hrest] at hsplit
        refine hs.spawn_locks (hs.deleting_eq_zero (.inr (List.ne_nil_of_mem hlock)))
          (by decide) ?_
        rw [if_pos (by decide), if_neg (by decide)]
        omega
      · cases h
        exact hs.spawn_idle (by decide)
  | releaseCounted i raised =>
      simp only [step] at h
      split at h
      case isTrue hi =>
        cases h
        obtain ⟨rfl, hentry⟩ := he
        refine hs.count hi (.inr rfl) ?_
        rw [if_neg Bool.false_ne_true, count_releaseCount hentry, if_neg (by decide)]
        rfl
      · cases h
  | bulkDelete acquired =>
      cases h
      obtain rfl : acquired = [] := he
      rw [List.append_nil]
      exact hs.spawn_idle (by decide)
  | bulkDeleted i raised =>
      simp only [step] at h
      split at h
      case isTrue hi =>
        cases h
        exact hs.finish_idle hi (by decide) he
      · cases h
  | putContainer =>
      simp only [step] at h
      split at h <;> · cases h; exact hs.spawn_idle (by decide)
  | deleteContainer =>
      obtain ⟨hdeleting, hgranted⟩ := he
      have hold := hs.balance
      simp only [step] at h
      have hvalue : (s.activeTrans.getD (0, false)).1 = s.count := by
        rw [State.count]
        cases s.activeTrans <;> rfl
      split at h
      case isTrue hpos =>
        cases h
        have hspawn := at_spawn { s with activeTrans := some (s.activeTrans.getD (0, false)) } .done
        refine hs.of_same hvalue rfl (hspawn _) (hspawn _) (hspawn _) fun hpos => ?_
        rw [hdeleting] at hpos
        cases hpos
      case isFalse hpos =>
        cases h
        have hzero := hgranted (by omega)
        have hcount : s.count = 0 := by omega
        have hlocks : s.locks = [] := List.length_eq_zero_iff.mp (by omega)
        have hspawn := at_spawn
          { s with activeTrans := some ((s.activeTrans.getD (0, false)).1, true) } .listing
        have hg : _ = s.at [.lockGranted] := hspawn [.lockGranted]
        have hr : _ = s.at [.lockReleased] := hspawn [.lockReleased]
        have hd : _ = s.at [.listing, .deleting] + 1 := hspawn [.listing, .deleting]
        rw [hvalue, hcount] at hg hr hd ⊢
        refine ⟨?_, fun _ => ⟨by omega, hlocks, by omega, by omega, rfl⟩⟩
        rw [hg, hr]
        exact hcount ▸ hold
  | listed i result =>
      simp only [step] at h
      split at h
      case isTrue hi =>
        split at h
        · cases h
          have hmoved := fun places => at_becomes hi .deleting places
          have hg := hmoved [.lockGranted]
          have hr := hmoved [.lockReleased]
          have hd := hmoved [.listing, .deleting]
          rw [if_neg (by decide), if_neg (by decide)] at hg hr
          rw [if_pos (by decide), if_pos (by decide)] at hd
          exact hs.of_same rfl rfl hg hr (Nat.add_right_cancel hd) fun _ => rfl
        · cases h
          exact hs.endDelete hi (by decide) _
      · cases h
  | deleted i result =>
      simp only [step] at h
      split at h
      case isTrue hi =>
        cases h
        exact hs.endDelete hi (by decide) _
      · cases h
  | finish i raised =>
      simp only [step] at h
      split at h
      case isTrue hi =>
        cases h
        exact hs.finish_idle hi (by decide) he
      · split at h
        case isTrue hi =>
          cases h
          have hidle : false = true → s.at [.listing, .deleting] = 0 := fun hraised => by
            cases hraised
          exact hs.finish_idle hi (by decide) hidle
        · cases h
  | extractComponent =>
      cases h
      have hlocks : s.locks = [] := he
      rw [← hlocks]
      exact hs
  | acceptComponent accepted =>
      cases h
      obtain rfl : accepted = [] := he
      rw [List.append_nil]
      exact hs

end

theorem start_balanced (locks : List Lock) : Balanced (.start locks) := by
  have hcount : ∀ entry : Option (Int × Bool),
      (((locks.foldl (fun entry _ => updateInternalMemory entry) entry).map Prod.fst).getD 0) =
        (entry.map Prod.fst).getD 0 + locks.length := by
    induction locks with
    | nil => exact fun _ => (Int.add_zero _).symm
    | cons lock locks ih =>
        intro entry
        rw [List.foldl_cons, ih, count_updateInternalMemory, List.length_cons]
        omega
  refine ⟨?_, fun hpos => by cases hpos⟩
  have hstart : (State.start locks).count = locks.length := (hcount none).trans (Int.zero_add _)
  rw [hstart]
  rfl

/-- Along a run whose steps keep the count, deletion and locks exclude each other in every state. -/
theorem deletion_excludes_locks {locks : List Lock} {events : List Event} {s : State}
    (hevents : Along step KeepsCount (.start locks) events)
    (hrun : run step (.start locks) events = some s) : DeletionExcludesLocks s :=
  (run_along_preserves step (fun _ _ _ => step_balanced) (start_balanced locks) hevents
    hrun).excludes

/-- A recovered lock is released, another one is granted and released, and the container is deleted
while a further request for a lock is turned down. -/
def lockedThenDeleted : List Event :=
  [.getLock (some ⟨2, "a/c/o"⟩), .freeLock 1, .releaseCounted 1 false, .lockCounted 0 false,
    .deleteContainer, .freeLocks "a/c/o", .releaseCounted 3 false, .deleteContainer,
    .getLock (some ⟨3, "a/c/p"⟩), .listed 4 none, .deleted 4 .other, .finish 4 false]

theorem deletion_excludes_locks_deleted :
    Along step KeepsCount (.start [⟨1, "a/c/n"⟩]) lockedThenDeleted ∧
      ∃ s, run step (.start [⟨1, "a/c/n"⟩]) lockedThenDeleted = some s ∧
        s.activeTrans = none ∧ DeletionExcludesLocks s := by
  have hevents : Along step KeepsCount (.start [⟨1, "a/c/n"⟩]) lockedThenDeleted := by decide
  exact ⟨hevents, _, rfl, rfl, deletion_excludes_locks hevents rfl⟩

/-- A deletion starts on a granted lock that is not counted; the locks of a bulk delete are not
counted; two read locks of one object are released together and counted as one. -/
theorem deletion_meets_locks :
    (∃ s, run step (.start []) [.getLock (some ⟨1, "a/c/o"⟩), .deleteContainer, .listed 1 none,
      .deleted 1 .other] = some s ∧ s.locks = [⟨1, "a/c/o"⟩] ∧ s.activeTrans = none) ∧
    (∃ s, run step (.start []) [.bulkDelete [⟨1, "a/c/o"⟩], .bulkDeleted 0 false] = some s ∧
      ¬ DeletionExcludesLocks s) ∧
    ∃ s, run step (.start [⟨1, "a/c/o"⟩, ⟨2, "a/c/o"⟩]) [.freeLocks "a/c/o",
      .releaseCounted 0 false] = some s ∧ s.locks = [] ∧ s.count = 1 ∧
        ¬ DeletionExcludesLocks s := by
  refine ⟨⟨_, rfl, rfl, rfl⟩, ⟨_, rfl, fun h => ?_⟩, _, rfl, rfl, rfl, fun h => ?_⟩
  · exact absurd (h.counted (by decide)) (by decide)
  · exact absurd (h.counted (by decide)) (by decide)

end ObjectStorage.Service.ContainerDeletion
