import ObjectStorage.Library.Transition

/-!
The requests of one object, its locks at the container service, and the recovery of these locks. The
recovery takes a lock for stale when the memory of the object server has no transaction of the
object, which is also so between the grant of a lock and its entry in the memory.
-/

namespace ObjectStorage.Objects

open Library

inductive Kind where
  | put
  | post
  | get
  | head
  | delete
deriving DecidableEq

/-- `x-mode` is `w`. -/
def Kind.writes : Kind → Bool
  | .put | .post | .delete => true
  | .get | .head => false

/-- `RECOVER` releases the lock by the name of the object, not by its transaction. -/
def Kind.byName : Kind → Bool
  | .put | .delete => true
  | .post | .get | .head => false

/-- Where a request is. Between `working` and `removing` its transaction is in the memory of the
object server. `cleanup` tells that the temporary files of an upload are still to be removed. -/
inductive Stage where
  | arrived
  | granted
  | working
  | finishing
  | removing
  | releasing (cleanup : Bool)
  | cleaning
  | ended
deriving DecidableEq

/-- The requests by number, the locks that the container service holds, the memory of the object
server, the `RECOVER` messages under way, those that found no transaction in the memory, and the
locks that these released, each with the transaction that was to be recovered. -/
structure ObjectLocks where
  stage : Nat → Stage
  held : List Nat
  memory : List Nat
  messages : List Nat
  recovering : List Nat
  released : List (Nat × Nat)

/-- `change` is a change of a file of the object or an update of the container. `leave` and `drop`
are the ends of a handler that remove the transaction first, `drop` without `FREE_LOCK`; after
`raise` it stays in the memory. `applied` tells whether the container service executes the
message. -/
inductive LockAction where
  | grant (i : Nat)
  | abandon (i : Nat)
  | enter (i : Nat)
  | change (i : Nat)
  | finish (i : Nat)
  | leave (i : Nat) (cleanup : Bool)
  | drop (i : Nat)
  | raise (i : Nat)
  | freeLock (i : Nat) (applied : Bool)
  | remove (i : Nat)
  | clean (i : Nat)
  | conflict (i : Nat)
  | lose (m : Nat)
  | check (m : Nat)
  | giveUp (m : Nat)
  | release (m : Nat) (applied : Bool)
deriving DecidableEq

/-- The requests whose files or container record the step changes. -/
def LockAction.changes : LockAction → Option Nat
  | .change i | .clean i => some i
  | _ => none

namespace ObjectLocks

def start : ObjectLocks := ⟨fun _ => .arrived, [], [], [], [], []⟩

def moveTo (s : ObjectLocks) (i : Nat) (stage : Stage) : ObjectLocks :=
  { s with stage := fun j => if j = i then stage else s.stage j }

/-- `FREE_LOCK` of a transaction, executed or lost. -/
def free (s : ObjectLocks) (i : Nat) (applied : Bool) : ObjectLocks :=
  if applied then { s with held := s.held.erase i } else s

section

variable (kind : Nat → Kind)

/-- The lock of the request goes with those that are held. -/
def Grantable (s : ObjectLocks) (i : Nat) : Prop :=
  s.held = [] ∨ ((kind i).writes = false ∧ ∀ j ∈ s.held, (kind j).writes = false)

instance (s : ObjectLocks) (i : Nat) : Decidable (Grantable kind s i) :=
  inferInstanceAs (Decidable (_ ∨ _))

/-- What `RECOVER` does once it has found no transaction of the object in the memory. -/
def recover (s : ObjectLocks) (m : Nat) (applied : Bool) : ObjectLocks :=
  if ! applied then s
  else if (kind m).byName then
    { s with held := [], released := s.released ++ s.held.map (m, ·) }
  else if m ∈ s.held then
    { s with held := s.held.erase m, released := s.released ++ [(m, m)] }
  else s

def step (s : ObjectLocks) : LockAction → Option ObjectLocks
  | .grant i =>
      if s.stage i = .arrived ∧ Grantable kind s i then
        some ({ s with held := s.held ++ [i] }.moveTo i .granted)
      else none
  | .abandon i => if s.stage i = .granted then some (s.moveTo i .ended) else none
  | .enter i =>
      if s.stage i = .granted then
        some ({ s with memory := s.memory ++ [i] }.moveTo i .working)
      else none
  | .change i => if s.stage i = .working ∧ (kind i).writes then some s else none
  | .finish i => if s.stage i = .working then some (s.moveTo i .finishing) else none
  | .leave i cleanup =>
      if s.stage i = .working ∧ (cleanup → kind i = .put) then
        some ({ s with memory := s.memory.erase i }.moveTo i (.releasing cleanup))
      else none
  | .drop i =>
      if s.stage i = .working then
        some ({ s with memory := s.memory.erase i }.moveTo i .ended)
      else none
  | .raise i => if s.stage i = .working then some (s.moveTo i .ended) else none
  | .freeLock i applied =>
      match s.stage i with
      | .finishing => some ((s.free i applied).moveTo i .removing)
      | .releasing false => some ((s.free i applied).moveTo i .ended)
      | .releasing true => some ((s.free i applied).moveTo i .cleaning)
      | _ => none
  | .remove i =>
      if s.stage i = .removing then
        some ({ s with memory := s.memory.erase i }.moveTo i .ended)
      else none
  | .clean i => if s.stage i = .cleaning then some (s.moveTo i .ended) else none
  | .conflict i =>
      if s.stage i = .arrived ∧ ¬ Grantable kind s i then
        some { s with messages := s.messages ++ s.held }
      else none
  | .lose m => if m ∈ s.messages then some { s with messages := s.messages.erase m } else none
  | .check m =>
      if m ∈ s.messages then
        let s := { s with messages := s.messages.erase m }
        if s.memory ≠ [] then some s else some { s with recovering := s.recovering ++ [m] }
      else none
  | .giveUp m =>
      if m ∈ s.recovering then some { s with recovering := s.recovering.erase m } else none
  | .release m applied =>
      if m ∈ s.recovering then
        some (recover kind { s with recovering := s.recovering.erase m } m applied)
      else none

/-- The request changes no file any more, and its transaction is not in the memory. -/
def Done (s : ObjectLocks) (i : Nat) : Prop := s.stage i = .releasing false ∨ s.stage i = .ended

/-- A request whose lock was released by the recovery changes nothing. -/
def Untouched (s : ObjectLocks) (a : LockAction) : Prop :=
  ∀ i ∈ a.changes, ∀ e ∈ s.released, e.2 ≠ i

instance (s : ObjectLocks) (a : LockAction) : Decidable (s.Untouched a) :=
  inferInstanceAs (Decidable (∀ i ∈ a.changes, _))

/-- `RECOVER` looks into the memory at no time at which the request whose lock it is to release has
not entered its transaction yet, or has still to remove the temporary files of an upload; the lock
of a `PUT` or `DELETE` is still held then, and no other lock is granted until it is released. -/
def Timely (s : ObjectLocks) : LockAction → Prop
  | .grant _ => ∀ m ∈ s.recovering, (kind m).byName = false
  | .check m => s.memory ≠ [] ∨
      ((s.stage m ≠ .granted ∧ s.stage m ≠ .releasing true ∧ s.stage m ≠ .cleaning) ∧
        ((kind m).byName → m ∈ s.held))
  | _ => True

instance (s : ObjectLocks) : (a : LockAction) → Decidable (s.Timely kind a)
  | .grant _ => inferInstanceAs (Decidable (∀ m ∈ s.recovering, (kind m).byName = false))
  | .check _ => inferInstanceAs (Decidable (_ ∨ _))
  | .abandon _ | .enter _ | .change _ | .finish _ | .leave _ _ | .drop _ | .raise _
  | .freeLock _ _ | .remove _ | .clean _ | .conflict _ | .lose _ | .giveUp _ | .release _ _ =>
      isTrue trivial

/-- What every state satisfies of a run whose steps are timely. -/
structure Inv (s : ObjectLocks) : Prop where
  entered : ∀ i, s.stage i = .working ∨ s.stage i = .finishing ∨ s.stage i = .removing →
    i ∈ s.memory
  held : ∀ i ∈ s.held, s.stage i ≠ .arrived
  messages : ∀ m ∈ s.messages, s.stage m ≠ .arrived
  exclusive : ∀ i ∈ s.held, (kind i).writes → ∀ j ∈ s.held, j = i
  recovering : ∀ m ∈ s.recovering, s.Done m
  alone : ∀ m ∈ s.recovering, (kind m).byName → ∀ j ∈ s.held, j = m
  released : ∀ e ∈ s.released, s.Done e.2 ∧ e.1 = e.2

section

variable {kind : Nat → Kind} {s s' : ObjectLocks}

@[simp] theorem moveTo_stage (i : Nat) (stage : Stage) (j : Nat) :
    (s.moveTo i stage).stage j = if j = i then stage else s.stage j := rfl

@[simp] theorem free_stage (i : Nat) (applied : Bool) : (s.free i applied).stage = s.stage := by
  unfold free
  split <;> rfl

@[simp] theorem free_memory (i : Nat) (applied : Bool) :
    (s.free i applied).memory = s.memory := by
  unfold free
  split <;> rfl

theorem start_inv : Inv kind start where
  entered := by simp [start]
  held := by simp [start]
  messages := by simp [start]
  exclusive := by simp [start]
  recovering := by simp [start]
  alone := by simp [start]
  released := by simp [start]

theorem Done.moveTo {i j : Nat} {stage : Stage} (h : s.Done j)
    (hdone : s.Done i → stage = .releasing false ∨ stage = .ended) :
    (s.moveTo i stage).Done j := by
  by_cases hj : j = i
  · subst hj
    simpa [Done] using hdone h
  · simpa [Done, hj] using h

/-- A request goes on, with its transaction in the memory where the new stage has it there. -/
theorem Inv.moveTo (hinv : Inv kind s) {i : Nat} {stage : Stage} (harrived : stage ≠ .arrived)
    (hentered : stage = .working ∨ stage = .finishing ∨ stage = .removing → i ∈ s.memory)
    (hdone : s.Done i → stage = .releasing false ∨ stage = .ended) :
    Inv kind (s.moveTo i stage) where
  entered j hj := by
    by_cases hi : j = i
    · subst hi
      exact hentered (by simpa using hj)
    · exact hinv.entered j (by simpa [hi] using hj)
  held j hj := by
    by_cases hi : j = i
    · simpa [hi] using harrived
    · simpa [hi] using hinv.held j hj
  messages j hj := by
    by_cases hi : j = i
    · simpa [hi] using harrived
    · simpa [hi] using hinv.messages j hj
  exclusive := hinv.exclusive
  recovering m hm := (hinv.recovering m hm).moveTo hdone
  alone := hinv.alone
  released e he := ⟨(hinv.released e he).1.moveTo hdone, (hinv.released e he).2⟩

theorem Inv.shrink (hinv : Inv kind s) {held messages recovering : List Nat}
    (hheld : ∀ i ∈ held, i ∈ s.held) (hmessages : ∀ m ∈ messages, m ∈ s.messages)
    (hrecovering : ∀ m ∈ recovering, m ∈ s.recovering) :
    Inv kind { s with held := held, messages := messages, recovering := recovering } where
  entered := hinv.entered
  held i hi := hinv.held i (hheld i hi)
  messages m hm := hinv.messages m (hmessages m hm)
  exclusive i hi hw j hj := hinv.exclusive i (hheld i hi) hw j (hheld j hj)
  recovering m hm := hinv.recovering m (hrecovering m hm)
  alone m hm hname j hj := hinv.alone m (hrecovering m hm) hname j (hheld j hj)
  released := hinv.released

theorem Inv.free (hinv : Inv kind s) (i : Nat) (applied : Bool) :
    Inv kind (s.free i applied) := by
  unfold ObjectLocks.free
  split
  · exact hinv.shrink (fun _ => List.mem_of_mem_erase) (fun _ h => h) (fun _ h => h)
  · exact hinv

/-- A transaction leaves the memory once its request has gone past the stages that have it there. -/
theorem Inv.forget (hinv : Inv kind s) {i : Nat}
    (hstage : ¬ (s.stage i = .working ∨ s.stage i = .finishing ∨ s.stage i = .removing)) :
    Inv kind { s with memory := s.memory.erase i } where
  entered j hj := (List.mem_erase_of_ne fun (h : j = i) => hstage (h ▸ hj)).mpr (hinv.entered j hj)
  held := hinv.held
  messages := hinv.messages
  exclusive := hinv.exclusive
  recovering := hinv.recovering
  alone := hinv.alone
  released := hinv.released

theorem Inv.enter (hinv : Inv kind s) (i : Nat) :
    Inv kind { s with memory := s.memory ++ [i] } where
  entered j hj := List.mem_append_left _ (hinv.entered j hj)
  held := hinv.held
  messages := hinv.messages
  exclusive := hinv.exclusive
  recovering := hinv.recovering
  alone := hinv.alone
  released := hinv.released

/-- The new lock is alone where it or another one is of a writer. -/
theorem Inv.grant (hinv : Inv kind s) {i : Nat} (harrived : s.stage i = .arrived)
    (hgrant : Grantable kind s i) (htimely : ∀ m ∈ s.recovering, (kind m).byName = false) :
    Inv kind ({ s with held := s.held ++ [i] }.moveTo i .granted) where
  entered j hj := by
    by_cases hi : j = i
    · simp [hi] at hj
    · exact hinv.entered j (by simpa [hi] using hj)
  held j hj := by
    by_cases hi : j = i
    · simp [hi]
    · rw [moveTo_stage, if_neg hi]
      exact hinv.held j ((List.mem_append.mp hj).resolve_right (by simpa using hi))
  messages m hm := by
    by_cases hi : m = i
    · simp [hi]
    · rw [moveTo_stage, if_neg hi]
      exact hinv.messages m hm
  exclusive j hj hw k hk := by
    have hj : j ∈ s.held ++ [i] := hj
    have hk : k ∈ s.held ++ [i] := hk
    rcases hgrant with hnone | ⟨hreads, hothers⟩
    · rw [hnone] at hj hk
      rw [List.mem_singleton.mp hj, List.mem_singleton.mp hk]
    · rcases List.mem_append.mp hj with hold | hnew
      · rw [hothers j hold] at hw
        contradiction
      · rw [List.mem_singleton.mp hnew, hreads] at hw
        contradiction
  recovering m hm := (hinv.recovering m hm).moveTo fun hdone => by
    rcases hdone with hdone | hdone <;> rw [harrived] at hdone <;> contradiction
  alone m hm hname := by
    rw [htimely m hm] at hname
    contradiction
  released e he := by
    refine ⟨(hinv.released e he).1.moveTo fun hdone => ?_, (hinv.released e he).2⟩
    rcases hdone with hdone | hdone <;> rw [harrived] at hdone <;> contradiction

theorem Inv.conflict (hinv : Inv kind s) :
    Inv kind { s with messages := s.messages ++ s.held } where
  entered := hinv.entered
  held := hinv.held
  messages m hm := (List.mem_append.mp hm).elim (hinv.messages m) (hinv.held m)
  exclusive := hinv.exclusive
  recovering := hinv.recovering
  alone := hinv.alone
  released := hinv.released

/-- With no transaction in the memory, a request that is neither before its entry nor in the
cleaning of an upload has done all its changes. -/
theorem Inv.check (hinv : Inv kind s) {m : Nat} (hm : m ∈ s.messages) (hmemory : s.memory = [])
    (hstage : s.stage m ≠ .granted ∧ s.stage m ≠ .releasing true ∧ s.stage m ≠ .cleaning)
    (hheld : (kind m).byName → m ∈ s.held) :
    Inv kind { s with recovering := s.recovering ++ [m] } where
  entered := hinv.entered
  held := hinv.held
  messages := hinv.messages
  exclusive := hinv.exclusive
  recovering k hk := by
    rcases List.mem_append.mp hk with hold | hnew
    · exact hinv.recovering k hold
    · rw [List.mem_singleton.mp hnew]
      have hentered := hinv.entered m
      have harrived := hinv.messages m hm
      simp only [hmemory, List.not_mem_nil, imp_false, not_or] at hentered
      obtain ⟨hgranted, hcleanup, hcleaning⟩ := hstage
      obtain ⟨hworking, hfinishing, hremoving⟩ := hentered
      unfold Done
      match hs : s.stage m with
      | .releasing false => exact .inl rfl
      | .ended => exact .inr rfl
      | .releasing true => exact absurd hs hcleanup
      | .arrived => exact absurd hs harrived
      | .granted => exact absurd hs hgranted
      | .working => exact absurd hs hworking
      | .finishing => exact absurd hs hfinishing
      | .removing => exact absurd hs hremoving
      | .cleaning => exact absurd hs hcleaning
  alone k hk hname j hj := by
    rcases List.mem_append.mp hk with hold | hnew
    · exact hinv.alone k hold hname j hj
    · rw [List.mem_singleton.mp hnew] at hname ⊢
      have hwrites : (kind m).writes := by
        cases hkind : kind m <;> rw [hkind] at hname <;> first | rfl | contradiction
      exact hinv.exclusive m (hheld hname) hwrites j hj
  released := hinv.released

theorem Inv.record (hinv : Inv kind s) {m : Nat} {freed : List Nat} (hdone : s.Done m)
    (hfreed : ∀ j ∈ freed, j = m) :
    Inv kind { s with released := s.released ++ freed.map (m, ·) } where
  entered := hinv.entered
  held := hinv.held
  messages := hinv.messages
  exclusive := hinv.exclusive
  recovering := hinv.recovering
  alone := hinv.alone
  released e he := by
    rcases List.mem_append.mp he with hold | hnew
    · exact hinv.released e hold
    · obtain ⟨j, hj, rfl⟩ := List.mem_map.mp hnew
      cases hfreed j hj
      exact ⟨hdone, rfl⟩

theorem Inv.recover (hinv : Inv kind s) {m : Nat} (hm : m ∈ s.recovering) (applied : Bool) :
    Inv kind (recover kind { s with recovering := s.recovering.erase m } m applied) := by
  have hdone := hinv.recovering m hm
  have hfewer : ∀ k ∈ s.recovering.erase m, k ∈ s.recovering := fun _ => List.mem_of_mem_erase
  unfold ObjectLocks.recover
  split
  · exact hinv.shrink (fun _ h => h) (fun _ h => h) hfewer
  · split
    next hname =>
      exact (hinv.record hdone (hinv.alone m hm hname)).shrink (by simp) (fun _ h => h) hfewer
    next =>
      split
      · have hrecord := hinv.record hdone fun j (hj : j ∈ [m]) => List.mem_singleton.mp hj
        exact hrecord.shrink (fun _ => List.mem_of_mem_erase) (fun _ h => h) hfewer
      · exact hinv.shrink (fun _ h => h) (fun _ h => h) hfewer

theorem Inv.step (hinv : Inv kind s) {a : LockAction} (htimely : Timely kind s a)
    (hstep : step kind s a = some s') : Inv kind s' := by
  cases a with
  | grant i =>
      obtain ⟨⟨harrived, hgrant⟩, h⟩ := Option.ite_none_right_eq_some.mp hstep
      cases h
      exact hinv.grant harrived hgrant htimely
  | abandon i =>
      obtain ⟨hs, h⟩ := Option.ite_none_right_eq_some.mp hstep
      cases h
      exact hinv.moveTo (by simp) (by simp) (by simp)
  | enter i =>
      obtain ⟨hs, h⟩ := Option.ite_none_right_eq_some.mp hstep
      cases h
      exact (hinv.enter i).moveTo (by simp) (by simp) (by simp [Done, hs])
  | change i =>
      obtain ⟨-, h⟩ := Option.ite_none_right_eq_some.mp hstep
      cases h
      exact hinv
  | finish i =>
      obtain ⟨hs, h⟩ := Option.ite_none_right_eq_some.mp hstep
      cases h
      exact hinv.moveTo (by simp) (fun _ => hinv.entered i (.inl hs)) (by simp [Done, hs])
  | leave i cleanup =>
      obtain ⟨⟨hs, -⟩, h⟩ := Option.ite_none_right_eq_some.mp hstep
      cases h
      have hmoved : Inv kind (s.moveTo i (.releasing cleanup)) :=
        hinv.moveTo (by simp) (by simp) (by simp [Done, hs])
      exact hmoved.forget (i := i) (by simp)
  | drop i =>
      obtain ⟨hs, h⟩ := Option.ite_none_right_eq_some.mp hstep
      cases h
      have hmoved : Inv kind (s.moveTo i .ended) := hinv.moveTo (by simp) (by simp) (by simp)
      exact hmoved.forget (i := i) (by simp)
  | raise i =>
      obtain ⟨hs, h⟩ := Option.ite_none_right_eq_some.mp hstep
      cases h
      exact hinv.moveTo (by simp) (by simp) (by simp)
  | freeLock i applied =>
      simp only [ObjectLocks.step] at hstep
      split at hstep
      next hs =>
        cases hstep
        have hmemory : i ∈ (s.free i applied).memory := by
          rw [free_memory]
          exact hinv.entered i (.inr (.inl hs))
        exact (hinv.free i applied).moveTo (by simp) (fun _ => hmemory) (by simp [Done, hs])
      next hs =>
        cases hstep
        exact (hinv.free i applied).moveTo (by simp) (by simp) (by simp)
      next hs =>
        cases hstep
        exact (hinv.free i applied).moveTo (by simp) (by simp) (by simp [Done, hs])
      next => contradiction
  | remove i =>
      obtain ⟨hs, h⟩ := Option.ite_none_right_eq_some.mp hstep
      cases h
      have hmoved : Inv kind (s.moveTo i .ended) := hinv.moveTo (by simp) (by simp) (by simp)
      exact hmoved.forget (i := i) (by simp)
  | clean i =>
      obtain ⟨hs, h⟩ := Option.ite_none_right_eq_some.mp hstep
      cases h
      exact hinv.moveTo (by simp) (by simp) (by simp)
  | conflict i =>
      obtain ⟨-, h⟩ := Option.ite_none_right_eq_some.mp hstep
      cases h
      exact hinv.conflict
  | lose m =>
      obtain ⟨-, h⟩ := Option.ite_none_right_eq_some.mp hstep
      cases h
      exact hinv.shrink (fun _ h => h) (fun _ => List.mem_of_mem_erase) (fun _ h => h)
  | check m =>
      obtain ⟨hm, h⟩ := Option.ite_none_right_eq_some.mp hstep
      have hfewer : ∀ k ∈ s.messages.erase m, k ∈ s.messages := fun _ => List.mem_of_mem_erase
      split at h
      next hmemory =>
        cases h
        exact hinv.shrink (fun _ h => h) hfewer (fun _ h => h)
      next hmemory =>
        cases h
        have hmemory : s.memory = [] := Decidable.not_not.mp hmemory
        obtain ⟨hstage, hheld⟩ := htimely.resolve_left (by simp [hmemory])
        exact (hinv.check hm hmemory hstage hheld).shrink (fun _ h => h) hfewer (fun _ h => h)
  | giveUp m =>
      obtain ⟨-, h⟩ := Option.ite_none_right_eq_some.mp hstep
      cases h
      exact hinv.shrink (fun _ h => h) (fun _ h => h) (fun _ => List.mem_of_mem_erase)
  | release m applied =>
      obtain ⟨hm, h⟩ := Option.ite_none_right_eq_some.mp hstep
      cases h
      exact hinv.recover hm applied

/-- A request that changes a file or the container record is not done. -/
theorem Inv.untouched (hinv : Inv kind s) {a : LockAction}
    (hstep : ObjectLocks.step kind s a = some s') :
    s.Untouched a := by
  intro i hi e he hei
  have hdone := (hinv.released e he).1
  rw [hei] at hdone
  cases a with
  | change j =>
      cases hi
      obtain ⟨⟨hs, -⟩, -⟩ := Option.ite_none_right_eq_some.mp hstep
      simp [Done, hs] at hdone
  | clean j =>
      cases hi
      obtain ⟨hs, -⟩ := Option.ite_none_right_eq_some.mp hstep
      simp [Done, hs] at hdone
  | _ => contradiction

end

end

end ObjectLocks

end ObjectStorage.Objects
