import ObjectStorage.Objects.SettledObjects

/-!
Recovery after a crash of all servers, with a container service that is up: the startup recovery of
each server, then `RECOVER` for the lock that is left.
-/

namespace ObjectStorage.Objects

open Library

/-- What a startup recovery does next, where every message is answered. -/
def Visit.action : Visit → Option ChangeAction
  | .serving => none
  | .down | .removeData _ | .removeMeta | .renameData _ | .renameMeta _ => some .next
  | .updating _ => some (.update .success)
  | .freeing _ | .unlocking => some (.free true)

def RecoverStage.action : RecoverStage → Option ChangeAction
  | .ended => none
  | .checking | .looking | .removing => some .next
  | .updating _ => some (.update .success)
  | .freeing => some (.free true)

namespace ObjectState

section

variable {n : Nat} {v₀ : Option Version} {s s' : ObjectState n} {k : Fin n} {m : Mark n}

/-- The startup recovery of a server, with fuel for its statements. -/
def restart (s : ObjectState n) (k : Fin n) : Nat → ObjectState n
  | 0 => s
  | fuel + 1 =>
      match (s.visits k).action.bind (s.visit k) with
      | none => s
      | some s' => s'.restart k fuel

/-- The handler of a `RECOVER` call, with fuel for its statements. -/
def handleAll (s : ObjectState n) (q : Nat) : Nat → ObjectState n
  | 0 => s
  | fuel + 1 =>
      match s.recovers[q]?.bind fun c => c.stage.action.bind (s.handle q · c) with
      | none => s
      | some s' => s'.handleAll q fuel

/-- All servers crash and come up again, and one of them recovers the lock. -/
def restartAll (s : ObjectState n) : ObjectState n :=
  (List.finRange n).foldl (fun s k => s.restart k 5) ((List.finRange n).foldl crash s)

def recoverLock (s : ObjectState n) (k : Fin n) : ObjectState n :=
  match s.lock with
  | none => s
  | some transaction =>
      match s.step (.recover k transaction) with
      | none => s
      | some s' => s'.handleAll s.recovers.length 5

/-! ### One server -/

/-- The recovery of a server leaves alone what is not its own. -/
structure Elsewhere (s s' : ObjectState n) (k : Fin n) : Prop where
  tmp : ∀ j, j ≠ k → s'.tmp j = s.tmp j
  visits : ∀ j, j ≠ k → s'.visits j = s.visits j
  requests : s'.requests = s.requests
  recovers : s'.recovers = s.recovers

theorem Elsewhere.refl (s : ObjectState n) (k : Fin n) : Elsewhere s s k :=
  ⟨fun _ _ => rfl, fun _ _ => rfl, rfl, rfl⟩

theorem Elsewhere.trans {s'' : ObjectState n} (h : Elsewhere s s' k) (h' : Elsewhere s' s'' k) :
    Elsewhere s s'' k :=
  ⟨fun j hj => (h'.tmp j hj).trans (h.tmp j hj), fun j hj => (h'.visits j hj).trans (h.visits j hj),
    h'.requests.trans h.requests, h'.recovers.trans h.recovers⟩

/-- The recovery of the server ends, and nothing is left in its `tmp` directory. -/
structure Restarts (s : ObjectState n) (k : Fin n) (fuel : Nat) : Prop where
  serving : (s.restart k fuel).visits k = .serving
  tmp : (s.restart k fuel).tmp k = .none
  elsewhere : Elsewhere s (s.restart k fuel) k

theorem restart_of_serving (h : s.visits k = .serving) (fuel : Nat) : s.restart k fuel = s := by
  cases fuel with
  | zero => rfl
  | succ fuel => simp [restart, h, Visit.action]

theorem Restarts.done (h : s.visits k = .serving) (htmp : s.tmp k = .none) (fuel : Nat) :
    s.Restarts k fuel := by
  have hsame := restart_of_serving h fuel
  exact ⟨by rw [hsame, h], by rw [hsame, htmp], by rw [hsame]; exact .refl s k⟩

theorem restart_add (s : ObjectState n) (k : Fin n) (fuel more : Nat) :
    s.restart k (fuel + more) = (s.restart k fuel).restart k more := by
  induction fuel generalizing s with
  | zero => rw [Nat.zero_add, restart]
  | succ fuel ih =>
      rw [Nat.succ_add, restart, restart]
      split
      · rename_i hnone
        cases more with
        | zero => rfl
        | succ more => rw [restart, hnone]
      · exact ih _

theorem Restarts.mono {fuel fuel' : Nat} (h : s.Restarts k fuel) (hfuel : fuel ≤ fuel') :
    s.Restarts k fuel' := by
  obtain ⟨more, rfl⟩ := Nat.le.dest hfuel
  have hsame : s.restart k (fuel + more) = s.restart k fuel := by
    rw [restart_add, restart_of_serving h.serving]
  exact ⟨hsame ▸ h.serving, hsame ▸ h.tmp, hsame ▸ h.elsewhere⟩

theorem Restarts.step {a : ChangeAction} {fuel : Nat} (h : s'.Restarts k fuel)
    (ha : (s.visits k).action = some a) (hstep : s.visit k a = some s')
    (helsewhere : Elsewhere s s' k) : s.Restarts k (fuel + 1) := by
  have hnext : s.restart k (fuel + 1) = s'.restart k fuel := by
    simp [restart, ha, hstep]
  refine ⟨?_, ?_, ?_⟩
  · rw [hnext]
    exact h.serving
  · rw [hnext]
    exact h.tmp
  · rw [hnext]
    exact helsewhere.trans h.elsewhere

/-- A step that sets the files and the phase of one server, and what belongs to the object. -/
theorem elsewhere_set (s : ObjectState n) (k : Fin n) (f : TmpFiles) (visit : Visit)
    (data : Option Version) (metadata : Option MetaFile) (record : Option Version)
    (lock : Option Nat) (changes : List Nat) :
    Elsewhere s ({ s.setTmp k f with data, metadata, record, lock, changes }.setVisit k visit) k :=
  ⟨fun _ hj => if_neg hj, fun _ hj => if_neg hj, rfl, rfl⟩

theorem elsewhere_setVisit (s : ObjectState n) (k : Fin n) (visit : Visit) :
    Elsewhere s (s.setVisit k visit) k :=
  ⟨fun _ _ => rfl, fun _ hj => if_neg hj, rfl, rfl⟩

theorem elsewhere_freeByName (s : ObjectState n) (k : Fin n) (applied : Bool) (visit : Visit) :
    Elsewhere s ((s.freeByName applied).setVisit k visit) k := by
  unfold ObjectState.freeByName
  split
  · exact ⟨fun _ _ => rfl, fun _ hj => if_neg hj, rfl, rfl⟩
  · exact elsewhere_setVisit s k visit

theorem visits_setVisit (s : ObjectState n) (k : Fin n) (visit : Visit) :
    (s.setVisit k visit).visits k = visit :=
  if_pos rfl

theorem restarts_unlocking (hk : s.visits k = .unlocking) (htmp : s.tmp k = .none) :
    s.Restarts k 1 := by
  have hend : ((s.freeByName true).setVisit k .serving).Restarts k 0 := by
    apply Restarts.done (visits_setVisit ..)
    show (s.freeByName true).tmp k = .none
    rw [freeByName_tmp, htmp]
  apply hend.step (a := .free true)
  · rw [hk]
    rfl
  · simp only [ObjectState.visit, hk]
  · exact elsewhere_freeByName ..

theorem restarts_updating {v : Version} (hk : s.visits k = .updating v) (htmp : s.tmp k = .none) :
    s.Restarts k 2 := by
  have hend : ({ s with record := some v }.setVisit k .unlocking).Restarts k 1 :=
    restarts_unlocking (visits_setVisit ..) htmp
  apply hend.step (a := .update .success)
  · rw [hk]
    rfl
  · simp only [ObjectState.visit, hk]
    rfl
  · exact ⟨fun _ _ => rfl, fun _ hj => if_neg hj, rfl, rfl⟩

theorem restarts_renameMeta {v : Version} {file : MetaFile} (hk : s.visits k = .renameMeta v)
    (htmp : s.tmp k = ⟨none, some file⟩) : s.Restarts k 3 := by
  have hend :
      ({ s.setTmp k .none with metadata := some file }.setVisit k (.updating v)).Restarts k 2 :=
    restarts_updating (visits_setVisit ..) (setTmp_self ..)
  apply hend.step (a := .next)
  · rw [hk]
    rfl
  · simp only [ObjectState.visit, visitNext, hk, htmp]
    rfl
  · exact elsewhere_set ..

theorem restarts_renameData {v w : Version} {file : MetaFile} (hk : s.visits k = .renameData v)
    (htmp : s.tmp k = ⟨some w, some file⟩) : s.Restarts k 4 := by
  have hend : ({ s.setTmp k ⟨none, some file⟩ with
      data := some w, changes := s.changes ++ w.upload }.setVisit k (.renameMeta v)).Restarts k 3 :=
    restarts_renameMeta (visits_setVisit ..) (setTmp_self ..)
  apply hend.step (a := .next)
  · rw [hk]
    rfl
  · simp only [ObjectState.visit, visitNext, hk, htmp]
  · exact elsewhere_set ..

theorem restarts_removeMeta {file : MetaFile} (hk : s.visits k = .removeMeta)
    (htmp : s.tmp k = ⟨none, some file⟩) : s.Restarts k 1 := by
  have hend : ((s.setTmp k .none).setVisit k .serving).Restarts k 0 := by
    apply Restarts.done (visits_setVisit ..)
    exact setTmp_self s k _
  apply hend.step (a := .next)
  · rw [hk]
    rfl
  · simp only [ObjectState.visit, visitNext, hk, htmp]
    rfl
  · exact elsewhere_set ..

theorem restarts_removeData {removes : Bool} {w : Version} (hk : s.visits k = .removeData removes)
    (htmp : s.tmp k = ⟨some w, if removes then some .empty else none⟩) : s.Restarts k 2 := by
  cases removes with
  | true =>
      have hend : ((s.setTmp k ⟨none, some .empty⟩).setVisit k .removeMeta).Restarts k 1 :=
        restarts_removeMeta (visits_setVisit ..) (setTmp_self ..)
      apply hend.step (a := .next)
      · rw [hk]
        rfl
      · simp only [ObjectState.visit, visitNext, hk, htmp]
        rfl
      · exact elsewhere_set ..
  | false =>
      have hend : ((s.setTmp k .none).setVisit k .serving).Restarts k 1 := by
        apply Restarts.done (visits_setVisit ..)
        exact setTmp_self s k _
      apply hend.step (a := .next)
      · rw [hk]
        rfl
      · simp only [ObjectState.visit, visitNext, hk, htmp]
        rfl
      · exact elsewhere_set ..

theorem restarts_freeing {removes : Bool} {w : Version} (hk : s.visits k = .freeing removes)
    (htmp : s.tmp k = ⟨some w, if removes then some .empty else none⟩) : s.Restarts k 3 := by
  have hend : ((s.freeByName true).setVisit k (.removeData removes)).Restarts k 2 := by
    apply restarts_removeData (visits_setVisit ..)
    show (s.freeByName true).tmp k = _
    rw [freeByName_tmp, htmp]
  apply hend.step (a := .free true)
  · rw [hk]
    rfl
  · simp only [ObjectState.visit, hk]
  · exact elsewhere_freeByName ..

/-- Whatever a server finds of the object, it is done with it after five statements. -/
theorem restarts_down (hk : s.visits k = .down) (htorn : (s.tmp k).metadata ≠ some .torn) :
    s.Restarts k 5 := by
  have hself := visits_setVisit s k
  have hlist : ∀ fuel, (s.setVisit k (s.list k)).Restarts k fuel → s.Restarts k (fuel + 1) := by
    intro fuel hend
    apply hend.step (a := .next)
    · rw [hk]
      rfl
    · simp only [ObjectState.visit, visitNext, hk]
    · exact elsewhere_setVisit ..
  apply hlist
  cases htmp : s.tmp k with
  | mk data metadata =>
      have hsame : ∀ visit, (s.setVisit k visit).tmp k = ⟨data, metadata⟩ := fun _ => htmp
      cases data with
      | none =>
          cases metadata with
          | none =>
              rw [show s.list k = .serving by rw [list, htmp]]
              exact .done (hself _) (hsame _) _
          | some file =>
              cases file with
              | empty =>
                  rw [show s.list k = .removeMeta by rw [list, htmp]]
                  exact (restarts_removeMeta (hself _) (hsame _)).mono (by decide)
              | torn => exact absurd (by rw [htmp]) htorn
              | whole v =>
                  rw [show s.list k = .renameMeta v by rw [list, htmp]]
                  exact (restarts_renameMeta (hself _) (hsame _)).mono (by decide)
      | some w =>
          cases metadata with
          | none =>
              rw [show s.list k = .freeing false by rw [list, htmp]]
              exact (restarts_freeing (hself _) (hsame _)).mono (by decide)
          | some file =>
              cases file with
              | empty =>
                  rw [show s.list k = .freeing true by rw [list, htmp]]
                  exact (restarts_freeing (hself _) (hsame _)).mono (by decide)
              | torn => exact absurd (by rw [htmp]) htorn
              | whole v =>
                  rw [show s.list k = .renameData v by rw [list, htmp]]
                  exact restarts_renameData (hself _) (hsame _)

theorem Inv.restart (h : s.Inv v₀) (fuel : Nat) : (s.restart k fuel).Inv v₀ := by
  induction fuel generalizing s with
  | zero => exact h
  | succ fuel ih =>
      rw [ObjectState.restart]
      split
      · exact h
      · rename_i s' hstep
        obtain ⟨action, -, hstep⟩ := Option.bind_eq_some_iff.mp hstep
        exact ih (h.visit hstep)

/-! ### All servers -/

/-- The servers that have crashed. -/
structure Down (s : ObjectState n) (P : Fin n → Prop) : Prop where
  visits : ∀ k, P k → s.visits k = .down
  requests : ∀ r ∈ s.requests, P r.server → r.progress = .dead
  recovers : ∀ c ∈ s.recovers, P c.server → c.stage = .ended

theorem Down.crash {P : Fin n → Prop} (h : s.Down P) (k : Fin n) :
    (s.crash k).Down fun j => j = k ∨ P j := by
  refine ⟨fun j hj => ?_, fun r hr hserver => ?_, fun c hc hserver => ?_⟩
  · show (if j = k then Visit.down else s.visits j) = .down
    split
    · rfl
    · rename_i hjk
      exact h.visits j (hj.resolve_left hjk)
  · obtain ⟨r₀, hr₀, rfl⟩ := List.mem_map.mp hr
    by_cases hk : r₀.server = k
    · rw [if_pos hk]
    · rw [if_neg hk] at hserver ⊢
      exact h.requests r₀ hr₀ (hserver.resolve_left hk)
  · obtain ⟨c₀, hc₀, rfl⟩ := List.mem_map.mp hc
    by_cases hk : c₀.server = k
    · rw [if_pos hk]
    · rw [if_neg hk] at hserver ⊢
      exact h.recovers c₀ hc₀ (hserver.resolve_left hk)

theorem Down.crashes {P : Fin n → Prop} (h : s.Down P) (ks : List (Fin n)) :
    (ks.foldl ObjectState.crash s).Down (fun j => j ∈ ks ∨ P j) ∧
      (ks.foldl ObjectState.crash s).tmp = s.tmp := by
  induction ks generalizing s P with
  | nil => exact ⟨⟨fun j hj => h.visits j (hj.resolve_left nofun),
      fun r hr hj => h.requests r hr (hj.resolve_left nofun),
      fun c hc hj => h.recovers c hc (hj.resolve_left nofun)⟩, rfl⟩
  | cons k ks ih =>
      obtain ⟨hdown, htmp⟩ := ih (h.crash k)
      have hmem : ∀ j, j ∈ k :: ks ∨ P j → j ∈ ks ∨ j = k ∨ P j := by
        rintro j (hj | hj)
        · rcases List.mem_cons.mp hj with rfl | hj
          · exact .inr (.inl rfl)
          · exact .inl hj
        · exact .inr (.inr hj)
      exact ⟨⟨fun j hj => hdown.visits j (hmem j hj),
        fun r hr hj => hdown.requests r hr (hmem _ hj),
        fun c hc hj => hdown.recovers c hc (hmem _ hj)⟩, htmp⟩

theorem Inv.crashes (h : s.Inv v₀) (ks : List (Fin n)) : (ks.foldl ObjectState.crash s).Inv v₀ := by
  induction ks generalizing s with
  | nil => exact h
  | cons k ks ih => exact ih (h.crash k)

/-- The servers that have come up again, and those that have not. -/
structure Coming (s : ObjectState n) (P : Fin n → Prop) : Prop where
  servers : ∀ k, s.visits k = .serving ∧ s.tmp k = .none ∨
    s.visits k = .down ∧ (s.tmp k).metadata ≠ some .torn
  up : ∀ k, P k → s.visits k = .serving
  requests : ∀ r ∈ s.requests, r.progress = .dead
  recovers : ∀ c ∈ s.recovers, c.stage = .ended

theorem Coming.restart {P : Fin n → Prop} (h : s.Coming P) (k : Fin n) :
    (s.restart k 5).Coming fun j => j = k ∨ P j := by
  rcases h.servers k with ⟨hserving, htmp⟩ | ⟨hdown, htorn⟩
  · rw [restart_of_serving hserving]
    refine ⟨h.servers, fun j hj => ?_, h.requests, h.recovers⟩
    rcases hj with rfl | hj
    · exact hserving
    · exact h.up j hj
  · have hend := restarts_down hdown htorn
    refine ⟨fun j => ?_, fun j hj => ?_, ?_, ?_⟩
    · by_cases hjk : j = k
      · subst hjk
        exact .inl ⟨hend.serving, hend.tmp⟩
      · rw [hend.elsewhere.visits j hjk, hend.elsewhere.tmp j hjk]
        exact h.servers j
    · by_cases hjk : j = k
      · subst hjk
        exact hend.serving
      · rw [hend.elsewhere.visits j hjk]
        exact h.up j (hj.resolve_left hjk)
    · rw [hend.elsewhere.requests]
      exact h.requests
    · rw [hend.elsewhere.recovers]
      exact h.recovers

theorem Coming.restarts {P : Fin n → Prop} (h : s.Coming P) (ks : List (Fin n)) :
    (ks.foldl (fun s k => s.restart k 5) s).Coming fun j => j ∈ ks ∨ P j := by
  induction ks generalizing s P with
  | nil => exact ⟨h.servers, fun j hj => h.up j (hj.resolve_left nofun), h.requests, h.recovers⟩
  | cons k ks ih =>
      have hrest := ih (h.restart k)
      refine ⟨hrest.servers, fun j hj => hrest.up j ?_, hrest.requests, hrest.recovers⟩
      rcases hj with hj | hj
      · rcases List.mem_cons.mp hj with rfl | hj
        · exact .inr (.inl rfl)
        · exact .inl hj
      · exact .inr (.inr hj)

theorem Inv.restarts (h : s.Inv v₀) (ks : List (Fin n)) :
    (ks.foldl (fun s k => s.restart k 5) s).Inv v₀ := by
  induction ks generalizing s with
  | nil => exact h
  | cons k ks ih => exact ih (h.restart 5)

theorem coming_restartAll (s : ObjectState n) (htorn : ∀ k, (s.tmp k).metadata ≠ some .torn) :
    s.restartAll.Coming fun _ => True := by
  have hstart : s.Down fun _ => False := ⟨nofun, nofun, nofun⟩
  obtain ⟨hdown, htmp⟩ := hstart.crashes (List.finRange n)
  have hall : ∀ k : Fin n, k ∈ List.finRange n ∨ False := fun k => .inl (List.mem_finRange k)
  have hcoming : ((List.finRange n).foldl ObjectState.crash s).Coming fun _ => False :=
    ⟨fun k => .inr ⟨hdown.visits k (hall k), by rw [htmp]; exact htorn k⟩, nofun,
      fun r hr => hdown.requests r hr (hall _), fun c hc => hdown.recovers c hc (hall _)⟩
  have hup := hcoming.restarts (List.finRange n)
  exact ⟨hup.servers, fun k _ => hup.up k (hall k), hup.requests, hup.recovers⟩

/-! ### The lock that is left -/

/-- The handler of `RECOVER` ends, and the lock is free. -/
structure Frees (v₀ : Option Version) (s : ObjectState n) (q fuel : Nat) : Prop where
  inv : s.Inv v₀ → (s.handleAll q fuel).Inv v₀
  lock : (s.handleAll q fuel).lock = none
  tmp : (s.handleAll q fuel).tmp = s.tmp
  visits : (s.handleAll q fuel).visits = s.visits

theorem Frees.step {q fuel : Nat} {c : RecoverCall n} {a : ChangeAction}
    (h : Frees v₀ s' q fuel) (hc : s.recovers[q]? = some c) (ha : c.stage.action = some a)
    (hstep : s.handle q a c = some s') (hregular : s.Regular (.handle q a))
    (htmp : s'.tmp = s.tmp) (hvisits : s'.visits = s.visits) : Frees v₀ s q (fuel + 1) := by
  have hnext : s.handleAll q (fuel + 1) = s'.handleAll q fuel := by
    simp [handleAll, hc, ha, hstep]
  refine ⟨fun hinv => ?_, ?_, ?_, ?_⟩
  · rw [hnext]
    exact h.inv (hinv.handle hc hregular hstep)
  · rw [hnext, h.lock]
  · rw [hnext, h.tmp, htmp]
  · rw [hnext, h.visits, hvisits]

theorem getElem?_setStage_self {q : Nat} {c : RecoverCall n} (hc : s.recovers[q]? = some c)
    (stage : RecoverStage) : (s.setStage q stage).recovers[q]? = some { c with stage } := by
  rw [getElem?_setStage, hc, Option.map_some, if_pos rfl]

theorem frees_ended {q : Nat} {c : RecoverCall n} (hc : s.recovers[q]? = some c)
    (hstage : c.stage = .ended) (hlock : s.lock = none) (fuel : Nat) : Frees v₀ s q fuel := by
  have hsame : s.handleAll q fuel = s := by
    cases fuel with
    | zero => rfl
    | succ fuel => simp [handleAll, hc, hstage, RecoverStage.action]
  exact ⟨by rw [hsame]; exact id, by rw [hsame, hlock], by rw [hsame], by rw [hsame]⟩

/-- `RECOVER` is only checked at its start. -/
theorem regular_handle {q : Nat} {c : RecoverCall n} (hc : s.recovers[q]? = some c)
    (hstage : c.stage ≠ .checking) : s.Regular (.handle q .next) := by
  intro c' hc' hchecking
  cases hc.symm.trans hc'
  exact absurd hchecking hstage

theorem frees_freeing {q : Nat} {c : RecoverCall n} (hc : s.recovers[q]? = some c)
    (hstage : c.stage = .freeing) (fuel : Nat) : Frees v₀ s q (fuel + 1) := by
  have hend : Frees v₀ ((s.freeByName true).setStage q .ended) q fuel :=
    frees_ended (getElem?_setStage_self (s := s.freeByName true) hc .ended) rfl rfl fuel
  apply hend.step hc (a := .free true)
  · rw [hstage]
    rfl
  · simp only [ObjectState.handle, hstage]
  · trivial
  · rfl
  · rfl

theorem frees_removing {q : Nat} {c : RecoverCall n} (hc : s.recovers[q]? = some c)
    (hstage : c.stage = .removing) {file : MetaFile} (hfile : s.metadata = some file) (fuel : Nat) :
    Frees v₀ s q (fuel + 2) := by
  have hend : Frees v₀ ({ s with metadata := none }.setStage q .freeing) q (fuel + 1) :=
    frees_freeing (getElem?_setStage_self (s := { s with metadata := none }) hc .freeing) rfl fuel
  apply hend.step hc (a := .next)
  · rw [hstage]
    rfl
  · simp only [ObjectState.handle, hstage, hfile]
  · exact regular_handle hc (by rw [hstage]; decide)
  · rfl
  · rfl

theorem frees_updating {q : Nat} {c : RecoverCall n} {v : Version} {r : Change n}
    (hc : s.recovers[q]? = some c) (hstage : c.stage = .updating v)
    (hr : s.requests[c.transaction]? = some r)
    (hfile : r.operation = .delete → ∃ file, s.metadata = some file) (fuel : Nat) :
    Frees v₀ s q (fuel + 3) := by
  cases hop : r.operation with
  | put =>
      have hend : Frees v₀ ({ s with record := some v }.setStage q .freeing) q (fuel + 2) :=
        frees_freeing (getElem?_setStage_self (s := { s with record := some v }) hc .freeing) rfl _
      apply hend.step hc (a := .update .success)
      · rw [hstage]
        rfl
      · simp only [ObjectState.handle, hstage, hr, hop, Option.map_some]
        rfl
      · trivial
      · rfl
      · rfl
  | delete =>
      obtain ⟨file, hfile⟩ := hfile hop
      have hend : Frees v₀ ({ s with record := none }.setStage q .removing) q (fuel + 2) :=
        frees_removing (getElem?_setStage_self (s := { s with record := none }) hc .removing) rfl
          hfile _
      apply hend.step hc (a := .update .success)
      · rw [hstage]
        rfl
      · simp only [ObjectState.handle, hstage, hr, hop, Option.map_some]
        rfl
      · trivial
      · rfl
      · rfl

theorem look_stage (s : ObjectState n) (operation : Operation) :
    (∃ v, s.look operation = .updating v) ∨ s.look operation = .freeing ∨
      s.look operation = .ended := by
  unfold ObjectState.look
  split <;> simp

/-- What `RECOVER` finds lets it go on to the release of the lock. -/
theorem Core.frees_looking {q : Nat} {c : RecoverCall n} (h : s.Core v₀ m) (hclear : s.Clear)
    (hlock : s.lock = some c.transaction) (hc : s.recovers[q]? = some c)
    (hstage : c.stage = .looking) (fuel : Nat) : Frees v₀ s q (fuel + 4) := by
  obtain ⟨r, hr, hoperation⟩ := h.holder _ hlock
  have hlook := h.look hclear hoperation
  have hend : Frees v₀ (s.setStage q (s.look r.operation)) q (fuel + 3) := by
    rcases look_stage s r.operation with ⟨v, hfound⟩ | hfound | hfound
    · rw [hfound] at hlook ⊢
      apply frees_updating (getElem?_setStage_self hc _) rfl hr
      intro hop
      rw [RecoverExpects, hop] at hlook
      rcases hlook with rfl | rfl
      · obtain ⟨-, ⟨w, hw⟩, -⟩ := h.files
        exact ⟨_, hw⟩
      · obtain ⟨-, -, ⟨w, hw⟩, -⟩ := h.files
        exact ⟨_, hw⟩
    · rw [hfound]
      exact frees_freeing (getElem?_setStage_self hc _) rfl _
    · rw [hfound] at hlook
      exact hlook.elim
  apply hend.step hc (a := .next)
  · rw [hstage]
    rfl
  · simp only [ObjectState.handle, hstage, hr, Option.map_some]
  · exact regular_handle hc (by rw [hstage]; decide)
  · rfl
  · rfl

theorem Inv.frees_checking {q : Nat} {c : RecoverCall n} (h : s.Inv v₀)
    (hregular : s.Recoverable c.transaction) (hc : s.recovers[q]? = some c)
    (hstage : c.stage = .checking)
    (hmemory : ¬ ∃ r ∈ s.requests, r.server = c.server ∧ r.progress.inMemory) :
    Frees v₀ s q 5 := by
  obtain ⟨m, hcore, -⟩ := h
  have hlooking : Frees v₀ (s.setStage q .looking) q 4 :=
    (hcore.setStage q .looking).frees_looking (c := { c with stage := .looking }) hregular.1
      hregular.2.1 (getElem?_setStage_self hc _) rfl 0
  apply hlooking.step hc (a := .next)
  · rw [hstage]
    rfl
  · simp only [ObjectState.handle, hstage, if_neg hmemory]
  · intro c' hc' _
    cases hc.symm.trans hc'
    exact .inr hregular
  · rfl
  · rfl

/-- Where all servers are up and nothing runs, `RECOVER` frees the lock that is left. -/
theorem Inv.recoverLock {P : Fin n → Prop} (h : s.Inv v₀) (hup : s.Coming P) (hall : ∀ k, P k)
    (k : Fin n) : (s.recoverLock k).Inv v₀ ∧ (s.recoverLock k).lock = none ∧
      (s.recoverLock k).tmp = s.tmp ∧ (s.recoverLock k).visits = s.visits := by
  have hserving : ∀ j, s.visits j = .serving := fun j => hup.up j (hall j)
  have hclear : s.Clear := fun j => by
    rcases hup.servers j with ⟨-, htmp⟩ | ⟨hdown, -⟩
    · exact htmp
    · cases (hserving j).symm.trans hdown
  unfold ObjectState.recoverLock
  split
  · rename_i hlock
    exact ⟨h, hlock, rfl, rfl⟩
  · rename_i transaction hlock
    rw [ObjectState.step, if_pos (hserving k)]
    have hinv := h.recover k transaction
    have hend := hinv.frees_checking (q := s.recovers.length) (c := ⟨k, transaction, .checking⟩)
      ?_ ?_ rfl ?_
    · exact ⟨hend.inv hinv, hend.lock, hend.tmp, hend.visits⟩
    · refine ⟨hclear, hlock, fun r hr => ?_, fun j => .inl (hserving j), fun c hc => ?_⟩
      · rw [hup.requests r hr]
        exact ⟨rfl, rfl⟩
      · rcases List.mem_append.mp hc with hold | hnew
        · exact .inr (hup.recovers c hold)
        · rw [List.mem_singleton.mp hnew]
          exact .inl rfl
    · simp
    · rintro ⟨r, hr, -, hin⟩
      rw [hup.requests r hr] at hin
      cases hin

/-- Whatever a run has left of an object, a restart of all servers and the recovery of its lock make
it settled and free, with all servers serving and no temporary file left, if no metadata was cut
short. -/
theorem recovery_settles {steps : List (ChangeStep n)} (k : Fin n)
    (hrun : run step (start n v₀) steps = some s) (hregular : Along step Regular (start n v₀) steps)
    (htorn : ∀ k, (s.tmp k).metadata ≠ some .torn) :
    (s.restartAll.recoverLock k).lock = none ∧ (s.restartAll.recoverLock k).Settled ∧
      (s.restartAll.recoverLock k).Clear ∧
      ∀ j, (s.restartAll.recoverLock k).visits j = .serving := by
  have hinv : s.Inv v₀ := run_along_preserves step (I := Inv v₀)
    (fun _ _ _ h hp hstep => h.step hp hstep) (inv_start n v₀) hregular hrun
  have hrestarted : s.restartAll.Inv v₀ := (hinv.crashes _).restarts _
  have hup := coming_restartAll s htorn
  obtain ⟨⟨m, hcore, -⟩, hlock, htmp, hvisits⟩ :=
    hrestarted.recoverLock hup (fun _ => trivial) k
  obtain rfl := hcore.free hlock
  have hserving : ∀ j, s.restartAll.visits j = .serving := fun j => hup.up j trivial
  refine ⟨hlock, hcore.settled, fun j => ?_, fun j => ?_⟩
  · rw [htmp]
    rcases hup.servers j with ⟨-, hnone⟩ | ⟨hdown, -⟩
    · exact hnone
    · cases (hserving j).symm.trans hdown
  · rw [hvisits, hserving]

/-- A crash between the renames of an upload. -/
theorem recovery_settles_upload :
    ∃ s, run step (start 2 none) (uploadSteps 0 1 5) = some s ∧
      (s.restartAll.recoverLock 0).lock = none ∧ (s.restartAll.recoverLock 0).Settled := by
  have hregular : Along step Regular (start 2 none) (uploadSteps 0 1 5) := by decide
  obtain ⟨s, hrun⟩ : ∃ s, run step (start 2 none) (uploadSteps 0 1 5) = some s := ⟨_, rfl⟩
  have htorn : (run step (start 2 none) (uploadSteps 0 1 5)).all
      (fun s => decide (∀ k, (s.tmp k).metadata ≠ some .torn)) = true := by decide
  rw [hrun, Option.all_some, decide_eq_true_eq] at htorn
  obtain ⟨hlock, hsettled, -⟩ := recovery_settles 0 hrun hregular htorn
  exact ⟨s, hrun, hlock, hsettled⟩

end

end ObjectState

end ObjectStorage.Objects
