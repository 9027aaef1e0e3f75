import ObjectStorage.Objects.ObjectChanges

/-!
How far the change of an object has got. At most one request or recovery changes an object at a
time, and what it relies on in each of its phases is a mark of the files.
-/

namespace ObjectStorage.Objects

open Library

section

variable {n : Nat} {v₀ : Option Version} {s : ObjectState n} {i : Nat} {k : Fin n}

/-! ### Phases -/

/-- The request may still change the object under its lock. -/
def Progress.holds : Progress → Bool
  | .arrived | .unlinkData .early | .unlinkMeta .early | .forgetting _ | .failed | .ended _
  | .dead => false
  | _ => true

/-- The request removes its temporary files after it has sent `FREE_LOCK`. -/
def Progress.cleans : Progress → Bool
  | .unlinkData .early | .unlinkMeta .early => true
  | _ => false

def Progress.Idle (p : Progress) : Prop := p.holds = false ∧ p.cleans = false

instance (p : Progress) : Decidable p.Idle := inferInstanceAs (Decidable (_ ∧ _))

/-- The data file has been changed for the request. -/
def Progress.done : Progress → Bool
  | .renameMeta | .unlinkData .finalized | .unlinkMeta .finalized | .updating | .deleteMeta
  | .freeing true | .forgetting true | .ended true => true
  | _ => false

/-- The operations that have the phase. -/
def Progress.operation : Progress → Option Operation
  | .removeData | .createData | .removeMeta | .createMeta | .uploading | .writing _ | .renameData
  | .renameMeta | .dropData | .dropMeta | .unlinkData _ | .unlinkMeta _ | .releasing => some .put
  | .deleteData _ | .deleteMeta => some .delete
  | _ => none

def Visit.Idle (visit : Visit) : Prop := visit = .serving ∨ visit = .down

def RecoverStage.Idle (stage : RecoverStage) : Prop := stage = .checking ∨ stage = .ended

instance (visit : Visit) : Decidable visit.Idle := inferInstanceAs (Decidable (_ ∨ _))

instance (stage : RecoverStage) : Decidable stage.Idle := inferInstanceAs (Decidable (_ ∨ _))

namespace ObjectState

def Clear (s : ObjectState n) : Prop := ∀ j, s.tmp j = .none

instance (s : ObjectState n) : Decidable s.Clear := inferInstanceAs (Decidable (∀ _, _))

/-- The files and the record are of one version, or there are none. -/
def Settled (s : ObjectState n) : Prop := s.metadata = s.data.map .whole ∧ s.record = s.data

/-- Nothing is left of the transaction but its lock. -/
def Recoverable (s : ObjectState n) (transaction : Nat) : Prop :=
  s.Clear ∧ s.lock = some transaction ∧ (∀ r ∈ s.requests, r.progress.Idle) ∧
    (∀ j, (s.visits j).Idle) ∧ ∀ c ∈ s.recovers, c.stage.Idle

instance (s : ObjectState n) (transaction : Nat) : Decidable (s.Recoverable transaction) :=
  inferInstanceAs (Decidable (_ ∧ _ ∧ _ ∧ _ ∧ _))

/-- No lock is granted while a server has temporary files of the object; metadata is written whole,
a rename or the removal of the data file does not fail, and `RECOVER` goes on only where nothing is
left of the transaction but its lock. -/
def Regular (s : ObjectState n) : ChangeStep n → Prop
  | .act _ .grant => s.Clear ∧ ∀ r ∈ s.requests, r.progress.cleans = false
  | .act i .fail =>
      ∀ r ∈ s.requests[i]?, r.progress ≠ .renameData ∧ r.progress ≠ .renameMeta ∧
        r.progress ≠ .deleteData true
  | .act _ .failMetadata => False
  | .handle q .next =>
      ∀ c ∈ s.recovers[q]?, c.stage = .checking →
        (∃ r ∈ s.requests, r.server = c.server ∧ r.progress.inMemory) ∨
          s.Recoverable c.transaction
  | _ => True

instance decidableRegular (s : ObjectState n) : (step : ChangeStep n) → Decidable (s.Regular step)
  | .act _ .grant => inferInstanceAs (Decidable (_ ∧ ∀ r ∈ s.requests, r.progress.cleans = false))
  | .act i .fail => inferInstanceAs (Decidable (∀ r ∈ s.requests[i]?, r.progress ≠ .renameData ∧
      r.progress ≠ .renameMeta ∧ r.progress ≠ .deleteData true))
  | .act _ .failMetadata => isFalse id
  | .handle q .next => inferInstanceAs (Decidable (∀ c ∈ s.recovers[q]?, c.stage = .checking →
      (∃ r ∈ s.requests, r.server = c.server ∧ r.progress.inMemory) ∨
        s.Recoverable c.transaction))
  | .act _ .next | .act _ .failWrite | .act _ .writePart | .act _ .returnEarly | .act _ (.update _)
  | .act _ (.free _) | .handle _ .grant | .handle _ .fail | .handle _ .failWrite
  | .handle _ .writePart | .handle _ .failMetadata | .handle _ .returnEarly | .handle _ (.update _)
  | .handle _ (.free _) | .arrive _ _ _ | .crash _ | .visit _ _ | .recover _ _ => isTrue trivial

/-! ### How far a change has got -/

def ClearBut (s : ObjectState n) (k : Fin n) : Prop := ∀ j, j ≠ k → s.tmp j = .none

/-- The data of the last change, or of the start. -/
def outcome (v₀ : Option Version) (s : ObjectState n) : Option Version :=
  match s.changes.getLast? with
  | none => v₀
  | some i => s.requests[i]?.bind fun r => r.written i

/-- The holder of the lock was the last to get it, and no change was made for it. -/
def Pending (s : ObjectState n) (i : Nat) : Prop :=
  s.lock = some i ∧ ∃ earlier, s.grants = earlier ++ [i] ∧ s.changes.Sublist earlier

end ObjectState

/-- How far the change of the lock's holder has got. -/
inductive Mark (n : Nat) where
  | settled
  | torn (k : Fin n) (v : Version)
  | prepared (k : Fin n) (v : Version)
  | renamed (k : Fin n) (v : Version)
  | written (v : Version)
  | removed
  | unrecorded

def Mark.operation : Mark n → Option Operation
  | .settled => none
  | .torn _ _ | .prepared _ _ | .renamed _ _ | .written _ => some .put
  | .removed | .unrecorded => some .delete

/-- The server with temporary files that a change needs. -/
def Mark.server : Mark n → Option (Fin n)
  | .torn k _ | .prepared k _ | .renamed k _ => some k
  | .settled | .written _ | .removed | .unrecorded => none

namespace ObjectState

/-- The files at a mark. -/
def Files (s : ObjectState n) : Mark n → Prop
  | .settled =>
      s.Settled ∧ ∀ j, (s.tmp j).metadata = none ∨ (s.tmp j).metadata = some .empty
  | .torn k v => s.Settled ∧ s.tmp k = ⟨some v, some .torn⟩ ∧ s.ClearBut k
  | .prepared k v => s.Settled ∧ s.tmp k = ⟨some v, some (.whole v)⟩ ∧ s.ClearBut k
  | .renamed k v => s.data = some v ∧ s.tmp k = ⟨none, some (.whole v)⟩ ∧ s.ClearBut k
  | .written v => s.data = some v ∧ s.metadata = some (.whole v) ∧ s.Clear
  | .removed => s.data = none ∧ (∃ v, s.metadata = some (.whole v)) ∧ s.Clear
  | .unrecorded => s.data = none ∧ s.record = none ∧ (∃ v, s.metadata = some (.whole v)) ∧ s.Clear

/-- What holds of the files, the lock and the requests, whoever acts. -/
structure Core (v₀ : Option Version) (s : ObjectState n) (m : Mark n) : Prop where
  files : s.Files m
  free : s.lock = none → m = .settled
  holder : ∀ i, s.lock = some i →
    ∃ r, s.requests[i]? = some r ∧ ∀ o ∈ m.operation, r.operation = o
  pending : ∀ k v, m = .torn k v ∨ m = .prepared k v →
    ∃ i r, s.Pending i ∧ s.requests[i]? = some r ∧ r.operation = .put ∧ v = r.version i
  live : ∀ r ∈ s.requests, r.progress ≠ .dead → s.visits r.server = .serving
  done : ∀ i r, s.requests[i]? = some r → r.progress.done = true → i ∈ s.changes
  operation : ∀ r ∈ s.requests, ∀ o ∈ r.progress.operation, r.operation = o
  known : ∀ i ∈ s.grants, i < s.requests.length
  sublist : s.changes.Sublist s.grants
  data : s.data = s.outcome v₀

end ObjectState

/-- Who can change the object next. -/
inductive Agent (n : Nat) where
  | request (i : Nat)
  | visit (k : Fin n)
  | recover (q : Nat)
deriving DecidableEq

namespace ObjectState

/-- What a request that holds the lock relies on. -/
def Expects (s : ObjectState n) (m : Mark n) (i : Nat) (r : Change n) : Progress → Prop
  | .granted | .reading | .removeData | .createData => m = .settled ∧ s.Clear ∧ s.Pending i
  | .removeMeta | .createMeta =>
      m = .settled ∧ s.tmp r.server = ⟨some (r.version i), none⟩ ∧ s.Pending i
  | .uploading | .writing false | .dropData =>
      m = .settled ∧ s.tmp r.server = ⟨some (r.version i), some .empty⟩ ∧ s.Pending i
  | .writing true => m = .torn r.server (r.version i)
  | .renameData => m = .prepared r.server (r.version i)
  | .renameMeta => m = .renamed r.server (r.version i)
  | .unlinkData .finalized | .unlinkMeta .finalized => m = .written (r.version i)
  | .deleteData found => m = .settled ∧ s.Clear ∧ found = s.data.isSome ∧ s.Pending i
  | .updating =>
      match r.operation with
      | .put => m = .written (r.version i)
      | .delete => m = .removed
  | .deleteMeta => m = .unrecorded
  | _ => m = .settled

/-- What a startup recovery relies on once it has found a whole metadata file. -/
def VisitExpects (m : Mark n) (k : Fin n) : Visit → Prop
  | .renameData v => m = .prepared k v
  | .renameMeta v => m = .renamed k v
  | .updating v => m = .written v
  | .unlocking => m = .settled
  | _ => False

/-- What the handler of `RECOVER` relies on once it has gone on. -/
def RecoverExpects (s : ObjectState n) (m : Mark n) (r : Change n) : RecoverStage → Prop
  | .looking => True
  | .updating v =>
      match r.operation with
      | .put => s.data = some v ∧ s.metadata = some (.whole v)
      | .delete => m = .removed ∨ m = .unrecorded
  | .removing => m = .unrecorded
  | .freeing => m = .settled
  | _ => False

/-- What the agent relies on. -/
def Acts (s : ObjectState n) (m : Mark n) : Agent n → Prop
  | .request i =>
      ∃ r, s.requests[i]? = some r ∧ r.progress.holds = true ∧ s.lock = some i ∧
        s.ClearBut r.server ∧ s.Expects m i r r.progress
  | .visit k => s.ClearBut k ∧ VisitExpects m k (s.visits k)
  | .recover q =>
      ∃ c r, s.recovers[q]? = some c ∧ s.Clear ∧ s.lock = some c.transaction ∧
        s.requests[c.transaction]? = some r ∧ s.RecoverExpects m r c.stage

/-- Everyone else is idle. -/
structure Alone (s : ObjectState n) (a : Agent n) : Prop where
  requests : ∀ i r, s.requests[i]? = some r → a ≠ .request i → r.progress.Idle
  visits : ∀ k, a ≠ .visit k → (s.visits k).Idle
  recovers : ∀ q c, s.recovers[q]? = some c → a ≠ .recover q → c.stage.Idle

structure Busy (s : ObjectState n) (m : Mark n) (a : Agent n) : Prop where
  lock : s.lock ≠ none
  alone : s.Alone a
  acts : s.Acts m a

/-- The files that a startup recovery has found to be of no use. -/
def Sweeps (s : ObjectState n) (k : Fin n) : Prop :=
  match s.visits k with
  | .serving | .down => True
  | .freeing removes | .removeData removes =>
      (s.tmp k).data ≠ none ∧ (s.tmp k).metadata = if removes then some .empty else none
  | .removeMeta => s.tmp k = ⟨none, some .empty⟩
  | _ => False

/-- Nobody has a change to go on with, but a server that is to look at its `tmp` directory. -/
structure Quiet (s : ObjectState n) (m : Mark n) : Prop where
  mark : ∀ k, m.server = some k → s.visits k = .down
  requests : ∀ r ∈ s.requests, r.progress.holds = false
  cleans : ∀ r ∈ s.requests, r.progress.cleans = true → m = .settled
  visits : ∀ k, s.Sweeps k
  recovers : ∀ c ∈ s.recovers, c.stage.Idle

def Inv (v₀ : Option Version) (s : ObjectState n) : Prop :=
  ∃ m, s.Core v₀ m ∧ (s.Quiet m ∨ ∃ a, s.Busy m a)

/-! ### The core -/

variable {m m' : Mark n} {a : Agent n} {r : Change n} {p : Progress}

theorem mem_moveTo {r' : Change n} (h : r' ∈ (s.moveTo i p).requests) :
    r' ∈ s.requests ∨ ∃ r, s.requests[i]? = some r ∧ r' = { r with progress := p } := by
  obtain ⟨j, hj⟩ := List.mem_iff_getElem?.mp h
  simp only [moveTo, List.getElem?_modify] at hj
  obtain ⟨r, hr, rfl⟩ := Option.map_eq_some_iff.mp hj
  by_cases hij : i = j
  · subst hij
    exact .inr ⟨r, hr, if_pos rfl⟩
  · rw [if_neg hij]
    exact .inl (List.mem_of_getElem? hr)

theorem getElem?_moveTo (s : ObjectState n) (i j : Nat) (p : Progress) :
    (s.moveTo i p).requests[j]? =
      s.requests[j]?.map fun r => if i = j then { r with progress := p } else r :=
  List.getElem?_modify ..

theorem getElem?_moveTo_self (hr : s.requests[i]? = some r) :
    (s.moveTo i p).requests[i]? = some { r with progress := p } := by
  rw [getElem?_moveTo, hr, Option.map_some, if_pos rfl]

/-- Phases do not matter to what the requests write. -/
theorem outcome_congr {requests : List (Change n)} (s : ObjectState n)
    (h : ∀ i : Nat, (requests[i]?.bind fun r => Change.written r i) =
      s.requests[i]?.bind fun r => r.written i) :
    outcome v₀ { s with requests } = s.outcome v₀ := by
  unfold outcome
  split
  · rename_i hlast
    rw [hlast]
  · rename_i j hlast
    rw [hlast]
    exact h j

theorem Core.phases {requests : List (Change n)} {visits : Fin n → Visit}
    {recovers : List (RecoverCall n)} (h : s.Core v₀ m)
    (hlength : requests.length = s.requests.length)
    (hsame : ∀ (i : Nat) (r : Change n), requests[i]? = some r → ∃ r₀, s.requests[i]? = some r₀ ∧
      r.operation = r₀.operation ∧ r.server = r₀.server ∧ r.timestamp = r₀.timestamp)
    (hlive : ∀ r ∈ requests, r.progress ≠ .dead → visits r.server = .serving)
    (hdone : ∀ (i : Nat) (r : Change n), requests[i]? = some r → r.progress.done = true →
      i ∈ s.changes)
    (hoperation : ∀ r ∈ requests, ∀ o ∈ r.progress.operation, r.operation = o) :
    Core v₀ { s with requests, visits, recovers } m := by
  have hback : ∀ (i : Nat) r₀, s.requests[i]? = some r₀ → ∃ r : Change n, requests[i]? = some r ∧
      r.operation = r₀.operation ∧ r.timestamp = r₀.timestamp := by
    intro i r₀ hr₀
    have hi : i < requests.length := hlength ▸ (List.getElem?_eq_some_iff.mp hr₀).1
    obtain ⟨r₁, hr₁, hop, -, htime⟩ := hsame i _ (List.getElem?_eq_getElem hi)
    cases hr₀.symm.trans hr₁
    exact ⟨_, List.getElem?_eq_getElem hi, hop, htime⟩
  refine ⟨h.files, h.free, fun i hi => ?_, fun k v hm => ?_, hlive, hdone, hoperation,
    fun i hi => hlength ▸ h.known i hi, h.sublist, ?_⟩
  · obtain ⟨r₀, hr₀, ho⟩ := h.holder i hi
    obtain ⟨r, hr, hop, -⟩ := hback i r₀ hr₀
    exact ⟨r, hr, fun o hmem => hop.trans (ho o hmem)⟩
  · obtain ⟨i, r₀, hpending, hr₀, hput, hv⟩ := h.pending k v hm
    obtain ⟨r, hr, hop, htime⟩ := hback i r₀ hr₀
    refine ⟨i, r, hpending, hr, hop.trans hput, ?_⟩
    rw [hv, Change.version, Change.version, htime]
  · rw [h.data]
    symm
    apply outcome_congr
    intro i
    cases hr : requests[i]? with
    | none =>
        have hi : s.requests.length ≤ i := hlength ▸ List.getElem?_eq_none_iff.mp hr
        rw [List.getElem?_eq_none_iff.mpr hi]
    | some r =>
        obtain ⟨r₀, hr₀, hop, -, htime⟩ := hsame i r hr
        rw [hr₀, Option.bind_some, Option.bind_some, Change.written, Change.written, hop,
          Change.version, Change.version, htime]

theorem Core.moveTo (h : s.Core v₀ m) (hr : s.requests[i]? = some r)
    (hserving : p ≠ .dead → s.visits r.server = .serving) (hdone : p.done = true → i ∈ s.changes)
    (hoperation : ∀ o ∈ p.operation, r.operation = o) : (s.moveTo i p).Core v₀ m := by
  refine h.phases (List.length_modify ..) (fun j r' hr' => ?_) (fun r' hr' => ?_)
    (fun j r' hr' => ?_) fun r' hr' => ?_
  · rw [show (s.requests.modify i _)[j]? = _ from getElem?_moveTo s i j p] at hr'
    obtain ⟨r₀, hr₀, rfl⟩ := Option.map_eq_some_iff.mp hr'
    refine ⟨r₀, hr₀, ?_⟩
    split <;> exact ⟨rfl, rfl, rfl⟩
  · rcases mem_moveTo hr' with hold | ⟨r₀, hr₀, rfl⟩
    · exact h.live r' hold
    · cases hr.symm.trans hr₀
      exact hserving
  · rw [show (s.requests.modify i _)[j]? = _ from getElem?_moveTo s i j p] at hr'
    obtain ⟨r₀, hr₀, rfl⟩ := Option.map_eq_some_iff.mp hr'
    split
    · rename_i hij
      exact hij ▸ hdone
    · exact h.done j r₀ hr₀
  · rcases mem_moveTo hr' with hold | ⟨r₀, hr₀, rfl⟩
    · exact h.operation r' hold
    · cases hr.symm.trans hr₀
      exact hoperation

theorem Core.setStage (h : s.Core v₀ m) (q : Nat) (stage : RecoverStage) :
    (s.setStage q stage).Core v₀ m :=
  h.phases rfl (fun _ r hr => ⟨r, hr, rfl, rfl, rfl⟩) h.live h.done h.operation

/-- A server that has no request under way, or that serves again. -/
theorem Core.setVisit {visit : Visit} (h : s.Core v₀ m)
    (hserving : s.visits k ≠ .serving ∨ visit = .serving) : (s.setVisit k visit).Core v₀ m := by
  refine h.phases rfl (fun _ r hr => ⟨r, hr, rfl, rfl, rfl⟩) (fun r hr hdead => ?_) h.done
    h.operation
  have hlive := h.live r hr hdead
  by_cases hk : r.server = k
  · rcases hserving with hdown | hvisit
    · exact absurd (hk ▸ hlive) hdown
    · exact (if_pos hk).trans hvisit
  · exact (if_neg hk).trans hlive

/-- Steps that change the files, the record or the lock. The data file changes only for the holder
of the lock, and once. -/
theorem Core.change {tmp : Fin n → TmpFiles} {data : Option Version} {metadata : Option MetaFile}
    {record : Option Version} {lock : Option Nat} {changes : List Nat} (h : s.Core v₀ m)
    (hfiles : Files { s with tmp, data, metadata, record, lock, changes } m')
    (hlock : lock = s.lock ∨ lock = none ∧ m' = .settled)
    (hoperation : ∀ o ∈ m'.operation, ∀ i, s.lock = some i → ∀ r, s.requests[i]? = some r →
      r.operation = o)
    (hpending : ∀ k v, m' = .torn k v ∨ m' = .prepared k v →
      ∃ i r, lock = some i ∧ s.Pending i ∧ changes = s.changes ∧ s.requests[i]? = some r ∧
        r.operation = .put ∧ v = r.version i)
    (hdata : (data = s.data ∧ changes = s.changes) ∨
      ∃ i r, s.Pending i ∧ s.requests[i]? = some r ∧ data = r.written i ∧
        changes = s.changes ++ [i])
    (hfree : s.lock = none → m' = .settled) :
    Core v₀ { s with tmp, data, metadata, record, lock, changes } m' := by
  refine ⟨hfiles, fun hnone => ?_, fun i hi => ?_, fun k v hm => ?_, h.live, fun i r hr hd => ?_,
    h.operation, h.known, ?_, ?_⟩
  · rcases hlock with heq | ⟨-, hm⟩
    · exact hfree (heq ▸ hnone)
    · exact hm
  · rcases hlock with heq | ⟨hnone, -⟩
    · obtain ⟨r, hr, -⟩ := h.holder i (heq ▸ hi)
      exact ⟨r, hr, fun o ho => hoperation o ho i (heq ▸ hi) r hr⟩
    · cases hi.symm.trans hnone
  · obtain ⟨i, r, hi, ⟨-, earlier, hgrants, hsub⟩, hchanges, hr, hput, hv⟩ := hpending k v hm
    exact ⟨i, r, ⟨hi, earlier, hgrants, hchanges ▸ hsub⟩, hr, hput, hv⟩
  · have hold := h.done i r hr hd
    rcases hdata with ⟨-, rfl⟩ | ⟨j, -, -, -, -, rfl⟩
    · exact hold
    · exact List.mem_append_left _ hold
  · rcases hdata with ⟨-, rfl⟩ | ⟨i, -, ⟨-, earlier, hgrants, hsub⟩, -, -, rfl⟩
    · exact h.sublist
    · show (s.changes ++ [i]).Sublist s.grants
      rw [hgrants]
      exact hsub.append (List.Sublist.refl _)
  · rcases hdata with ⟨rfl, rfl⟩ | ⟨i, r, -, hr, rfl, rfl⟩
    · exact h.data
    · simp [outcome, hr]

theorem Core.settled (h : s.Core v₀ .settled) : s.Settled := h.files.1

theorem Settled.readMetadata (h : s.Settled) : s.readMetadata = s.data := by
  unfold ObjectState.readMetadata
  rw [h.1]
  cases s.data <;> rfl

/-! ### Who acts -/

theorem Alone.quiet (h : s.Alone a) (hmark : ∀ k, m.server = some k → s.visits k = .down)
    (hrequests : ∀ i, a = .request i → ∀ r, s.requests[i]? = some r →
      r.progress.holds = false ∧ (r.progress.cleans = true → m = .settled))
    (hvisits : ∀ k, a = .visit k → (s.visits k).Idle)
    (hrecovers : ∀ q, a = .recover q → ∀ c, s.recovers[q]? = some c → c.stage.Idle) :
    s.Quiet m := by
  have hall : ∀ r ∈ s.requests,
      r.progress.holds = false ∧ (r.progress.cleans = true → m = .settled) := by
    intro r hr
    obtain ⟨i, hi⟩ := List.mem_iff_getElem?.mp hr
    by_cases ha : a = .request i
    · exact hrequests i ha r hi
    · have hidle := h.requests i r hi ha
      exact ⟨hidle.1, fun hc => absurd (hidle.2.symm.trans hc) (by decide)⟩
  refine ⟨hmark, fun r hr => (hall r hr).1, fun r hr => (hall r hr).2, fun k => ?_, fun c hc => ?_⟩
  · have hidle : (s.visits k).Idle := by
      by_cases ha : a = .visit k
      · exact hvisits k ha
      · exact h.visits k ha
    unfold Sweeps
    rcases hidle with hk | hk <;> simp [hk]
  · obtain ⟨q, hq⟩ := List.mem_iff_getElem?.mp hc
    by_cases ha : a = .recover q
    · exact hrecovers q ha c hq
    · exact h.recovers q c hq ha

theorem Alone.moveTo (h : s.Alone a) (ha : a = .request i ∨ p.Idle) : (s.moveTo i p).Alone a := by
  refine ⟨fun j r hr hne => ?_, h.visits, h.recovers⟩
  rw [getElem?_moveTo] at hr
  obtain ⟨r₀, hr₀, rfl⟩ := Option.map_eq_some_iff.mp hr
  split
  · rename_i hij
    subst hij
    exact ha.resolve_left hne
  · exact h.requests j r₀ hr₀ hne

theorem Alone.setVisit {visit : Visit} (h : s.Alone a) (ha : a = .visit k ∨ visit.Idle) :
    (s.setVisit k visit).Alone a := by
  refine ⟨h.requests, fun j hne => ?_, h.recovers⟩
  show Visit.Idle (if j = k then visit else s.visits j)
  split
  · rename_i hjk
    subst hjk
    exact ha.resolve_left hne
  · exact h.visits j hne

theorem getElem?_setStage (s : ObjectState n) (q j : Nat) (stage : RecoverStage) :
    (s.setStage q stage).recovers[j]? =
      s.recovers[j]?.map fun c => if q = j then { c with stage } else c :=
  List.getElem?_modify ..

theorem Alone.setStage {stage : RecoverStage} {q : Nat} (h : s.Alone a)
    (ha : a = .recover q ∨ stage.Idle) : (s.setStage q stage).Alone a := by
  refine ⟨h.requests, h.visits, fun j c hc hne => ?_⟩
  rw [getElem?_setStage] at hc
  obtain ⟨c₀, hc₀, rfl⟩ := Option.map_eq_some_iff.mp hc
  split
  · rename_i hqj
    subst hqj
    exact ha.resolve_left hne
  · exact h.recovers j c₀ hc₀ hne

/-- Where nobody has anything to go on with, anyone can be the one who acts. -/
theorem Quiet.alone (h : s.Quiet m) (hcleans : ∀ r ∈ s.requests, r.progress.cleans = false)
    (hvisits : ∀ k, a ≠ .visit k → (s.visits k).Idle) : s.Alone a :=
  ⟨fun _ r hr _ => ⟨h.requests r (List.mem_of_getElem? hr), hcleans r (List.mem_of_getElem? hr)⟩,
    hvisits, fun _ c hc _ => h.recovers c (List.mem_of_getElem? hc)⟩

/-- What is left in the `tmp` directory of a server where a sweep goes on. -/
theorem Sweeps.tmp (h : s.Sweeps k) (hidle : ¬ (s.visits k).Idle) :
    s.tmp k ≠ .none ∧ ((s.tmp k).metadata = none ∨ (s.tmp k).metadata = some .empty) := by
  unfold Sweeps at h
  unfold Visit.Idle at hidle
  split at h
  · simp_all
  · simp_all
  · obtain ⟨hdata, hmetadata⟩ := h
    refine ⟨fun hnone => hdata (by rw [hnone]; rfl), ?_⟩
    split at hmetadata <;> simp [hmetadata]
  · obtain ⟨hdata, hmetadata⟩ := h
    refine ⟨fun hnone => hdata (by rw [hnone]; rfl), ?_⟩
    split at hmetadata <;> simp [hmetadata]
  · exact ⟨by rw [h]; decide, .inr (by rw [h])⟩
  · cases h

theorem Files.tmp_of_server (h : s.Files m) (hk : m.server = some k) : s.tmp k ≠ .none := by
  cases m with
  | torn j v | prepared j v | renamed j v =>
      cases hk
      rw [h.2.1]
      nofun
  | settled | written v | removed | unrecorded => cases hk

/-- Files without metadata are left only where no change has begun. -/
theorem Files.settled_of_useless (h : s.Files m) (hleft : s.tmp k ≠ .none)
    (huseless : (s.tmp k).metadata = none ∨ (s.tmp k).metadata = some .empty) : m = .settled := by
  have hother : ∀ j, s.ClearBut j → j = k := fun j hbut =>
    Decidable.byContradiction fun hne => hleft (hbut k fun hkj => hne hkj.symm)
  cases m with
  | settled => rfl
  | torn j v =>
      obtain ⟨-, htmp, hbut⟩ := h
      rw [← hother j hbut, htmp] at huseless
      simp at huseless
  | prepared j v =>
      obtain ⟨-, htmp, hbut⟩ := h
      rw [← hother j hbut, htmp] at huseless
      simp at huseless
  | renamed j v =>
      obtain ⟨-, htmp, hbut⟩ := h
      rw [← hother j hbut, htmp] at huseless
      simp at huseless
  | written v => exact absurd (h.2.2 k) hleft
  | removed => exact absurd (h.2.2 k) hleft
  | unrecorded => exact absurd (h.2.2.2 k) hleft

/-! ### A request -/

/-- The holder of the lock goes on, or it has nothing more to do under the lock. -/
theorem Core.request (h : s.Core v₀ m) (halone : s.Alone (.request i))
    (hr : s.requests[i]? = some r) (hserving : s.visits r.server = .serving)
    (hdone : p.done = true → i ∈ s.changes)
    (hoperation : ∀ o ∈ p.operation, r.operation = o)
    (hnext : p.holds = true ∧ s.lock = some i ∧ s.ClearBut r.server ∧ s.Expects m i r p ∨
      p.holds = false ∧ (p.cleans = true → m = .settled) ∧ m.server = none) :
    Inv v₀ (s.moveTo i p) := by
  refine ⟨m, h.moveTo hr (fun _ => hserving) hdone hoperation, ?_⟩
  have halone' := halone.moveTo (p := p) (.inl rfl)
  rcases hnext with ⟨hp, hlock, hbut, hexpects⟩ | ⟨hp, hcleans, hmark⟩
  · refine .inr ⟨.request i, ?_, halone', _, getElem?_moveTo_self hr, hp, hlock, hbut, hexpects⟩
    show s.lock ≠ none
    rw [hlock]
    exact Option.some_ne_none i
  · refine .inl (halone'.quiet (fun k hk => ?_) (fun j hj r' hr' => ?_) nofun nofun)
    · rw [hmark] at hk
      cases hk
    · cases hj
      cases (getElem?_moveTo_self hr).symm.trans hr'
      exact ⟨hp, hcleans⟩

/-! ### What a statement does to the core -/

variable {f : TmpFiles} {v : Version}

theorem setTmp_self (s : ObjectState n) (k : Fin n) (f : TmpFiles) : (s.setTmp k f).tmp k = f :=
  if_pos rfl

theorem setTmp_of_ne {j : Fin n} (hj : j ≠ k) : (s.setTmp k f).tmp j = s.tmp j := if_neg hj

theorem ClearBut.setTmp (h : s.ClearBut k) (f : TmpFiles) : (s.setTmp k f).ClearBut k :=
  fun j hj => (if_neg hj).trans (h j hj)

theorem ClearBut.clear (h : s.ClearBut k) (hk : s.tmp k = .none) : s.Clear := by
  intro j
  by_cases hj : j = k
  · rw [hj, hk]
  · exact h j hj

theorem ClearBut.clear_setTmp (h : s.ClearBut k) : (s.setTmp k .none).Clear :=
  (h.setTmp _).clear (setTmp_self s k _)

theorem Clear.but (h : s.Clear) (k : Fin n) : s.ClearBut k := fun j _ => h j

/-- Files without metadata come and go. -/
theorem Core.setTmp (h : s.Core v₀ .settled) (hf : f.metadata = none ∨ f.metadata = some .empty) :
    (s.setTmp k f).Core v₀ .settled := by
  apply h.change
  · refine ⟨h.settled, fun j => ?_⟩
    show ((s.setTmp k f).tmp j).metadata = none ∨ ((s.setTmp k f).tmp j).metadata = some .empty
    by_cases hj : j = k
    · rw [hj, setTmp_self]
      exact hf
    · rw [setTmp_of_ne hj]
      exact h.files.2 j
  · exact .inl rfl
  · nofun
  · intro j v hm
    rcases hm with hm | hm <;> cases hm
  · exact .inl ⟨rfl, rfl⟩
  · exact fun _ => rfl

theorem Core.write (h : s.Core v₀ m) (hr : s.requests[i]? = some r) (hput : r.operation = .put)
    (hpending : s.Pending i) (hfiles : (s.setTmp k f).Files m')
    (hm : m' = .torn k (r.version i) ∨ m' = .prepared k (r.version i)) :
    (s.setTmp k f).Core v₀ m' := by
  apply h.change hfiles
  · exact .inl rfl
  · intro o ho j hj r' hr'
    cases hpending.1.symm.trans hj
    cases hr.symm.trans hr'
    rcases hm with rfl | rfl <;> cases ho <;> exact hput
  · intro j v hm'
    have hv : v = r.version i := by
      rcases hm with rfl | rfl <;> rcases hm' with hm' | hm' <;> cases hm' <;> rfl
    exact ⟨i, r, hpending.1, hpending, rfl, hr, hput, hv⟩
  · exact .inl ⟨rfl, rfl⟩
  · intro hnone
    cases hpending.1.symm.trans hnone

theorem Core.renameData (h : s.Core v₀ (.prepared k v)) (hlock : s.lock = some i)
    (hv : v.writer = .put i) :
    Core v₀ { s.setTmp k ⟨none, some (.whole v)⟩ with
      data := some v, changes := s.changes ++ [i] } (.renamed k v) := by
  obtain ⟨j, r, hpending, hr, hput, rfl⟩ := h.pending k v (.inr rfl)
  cases hv
  apply h.change
  · exact ⟨rfl, setTmp_self .., h.files.2.2.setTmp _⟩
  · exact .inl rfl
  · intro o ho j hj r' hr'
    cases ho
    cases hlock.symm.trans hj
    cases hr.symm.trans hr'
    exact hput
  · intro j v hm
    rcases hm with hm | hm <;> cases hm
  · refine .inr ⟨i, r, hpending, hr, ?_, rfl⟩
    rw [Change.written, hput]
  · intro hnone
    cases hlock.symm.trans hnone

theorem Core.renameMeta (h : s.Core v₀ (.renamed k v)) :
    Core v₀ { s.setTmp k .none with metadata := some (.whole v) } (.written v) := by
  apply h.change
  · exact ⟨h.files.1, rfl, h.files.2.2.clear_setTmp⟩
  · exact .inl rfl
  · intro o ho j hj r hr
    obtain ⟨r', hr', hop⟩ := h.holder j hj
    cases hr.symm.trans hr'
    exact hop o ho
  · intro j v hm
    rcases hm with hm | hm <;> cases hm
  · exact .inl ⟨rfl, rfl⟩
  · intro hnone
    cases h.free hnone

/-- Once the container has the version of the files, the object is settled. -/
theorem Core.record (h : s.Core v₀ m) (hdata : s.data = some v)
    (hmetadata : s.metadata = some (.whole v)) (hclear : s.Clear) :
    Core v₀ { s with record := some v } .settled := by
  apply h.change
  · refine ⟨⟨?_, hdata.symm⟩, fun j => .inl ?_⟩
    · show s.metadata = s.data.map .whole
      rw [hmetadata, hdata]
      rfl
    · show (s.tmp j).metadata = none
      rw [hclear j]
      rfl
  · exact .inl rfl
  · nofun
  · intro j v hm
    rcases hm with hm | hm <;> cases hm
  · exact .inl ⟨rfl, rfl⟩
  · exact fun _ => rfl

theorem Core.setRecord (h : s.Core v₀ m) (record : Option Version)
    (hm : (∃ v, m = .written v) ∨ m = .removed) : Core v₀ { s with record } m := by
  apply h.change
  · rcases hm with ⟨v, rfl⟩ | rfl
    · exact h.files
    · exact h.files
  · exact .inl rfl
  · intro o ho j hj r hr
    obtain ⟨r', hr', hop⟩ := h.holder j hj
    cases hr.symm.trans hr'
    exact hop o ho
  · intro j v hm'
    rcases hm with ⟨w, rfl⟩ | rfl <;> rcases hm' with hm' | hm' <;> cases hm'
  · exact .inl ⟨rfl, rfl⟩
  · exact h.free

theorem Core.removeData (h : s.Core v₀ .settled) (hclear : s.Clear) (hpending : s.Pending i)
    (hr : s.requests[i]? = some r) (hdelete : r.operation = .delete) {w : Version}
    (hw : s.data = some w) :
    Core v₀ { s with data := none, changes := s.changes ++ [i] } .removed := by
  apply h.change
  · refine ⟨rfl, ⟨w, ?_⟩, hclear⟩
    show s.metadata = _
    rw [h.settled.1, hw]
    rfl
  · exact .inl rfl
  · intro o ho j hj r' hr'
    cases ho
    cases hpending.1.symm.trans hj
    cases hr.symm.trans hr'
    exact hdelete
  · intro j v hm
    rcases hm with hm | hm <;> cases hm
  · refine .inr ⟨i, r, hpending, hr, ?_, rfl⟩
    rw [Change.written, hdelete]
  · intro hnone
    cases hpending.1.symm.trans hnone

theorem Core.unrecord (h : s.Core v₀ m) (hm : m = .removed ∨ m = .unrecorded) :
    Core v₀ { s with record := none } .unrecorded := by
  have hfiles : s.data = none ∧ (∃ v, s.metadata = some (.whole v)) ∧ s.Clear := by
    rcases hm with rfl | rfl
    · exact h.files
    · exact ⟨h.files.1, h.files.2.2⟩
  have hoperation : m.operation = some .delete := by rcases hm with rfl | rfl <;> rfl
  apply h.change
  · exact ⟨hfiles.1, rfl, hfiles.2⟩
  · exact .inl rfl
  · intro o ho j hj r hr
    obtain ⟨r', hr', hop⟩ := h.holder j hj
    cases hr.symm.trans hr'
    exact hop o (hoperation ▸ ho)
  · intro j v hm'
    rcases hm' with hm' | hm' <;> cases hm'
  · exact .inl ⟨rfl, rfl⟩
  · intro hnone
    rcases hm with rfl | rfl <;> cases h.free hnone

theorem Core.removeMeta (h : s.Core v₀ .unrecorded) :
    Core v₀ { s with metadata := none } .settled := by
  obtain ⟨hdata, hrecord, -, hclear⟩ := h.files
  apply h.change
  · refine ⟨⟨?_, ?_⟩, fun j => .inl ?_⟩
    · show none = s.data.map MetaFile.whole
      rw [hdata]
      rfl
    · show s.record = s.data
      rw [hdata, hrecord]
    · show (s.tmp j).metadata = none
      rw [hclear j]
      rfl
  · exact .inl rfl
  · nofun
  · intro j v hm
    rcases hm with hm | hm <;> cases hm
  · exact .inl ⟨rfl, rfl⟩
  · exact fun _ => rfl

theorem Core.unlock (h : s.Core v₀ .settled) : Core v₀ { s with lock := none } .settled := by
  apply h.change
  · exact h.files
  · exact .inr ⟨rfl, rfl⟩
  · nofun
  · intro j v hm
    rcases hm with hm | hm <;> cases hm
  · exact .inl ⟨rfl, rfl⟩
  · exact fun _ => rfl

theorem Core.freeLock (h : s.Core v₀ .settled) (i : Nat) (applied : Bool) :
    (s.free i applied).Core v₀ .settled := by
  unfold ObjectState.free
  split
  · exact h.unlock
  · exact h

theorem Core.freeByName (h : s.Core v₀ .settled) (applied : Bool) :
    (s.freeByName applied).Core v₀ .settled := by
  unfold ObjectState.freeByName
  split
  · exact h.unlock
  · exact h

end ObjectState

end

end ObjectStorage.Objects
