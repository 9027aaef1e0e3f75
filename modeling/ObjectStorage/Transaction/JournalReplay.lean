import ObjectStorage.Transaction.Journal
import ObjectStorage.Transaction.LockTable

/-!
The journal as a history of the lock table: every call of the service is one event of the table and
queues the record of this event, and recovering records replays their events.
-/

namespace ObjectStorage.Transaction

open Std Library SharedExclusive Journal

/-- The event of the lock table that a record reports. -/
inductive Reports : Record → Event Int String → Prop
  | opened {record : ActiveRecord} {l : Lock String} (h : record.StandsFor l) :
      Reports (.openRecord record) (.acquired record.transactionId l)
  | closed (t : Int) (l : Lock String) : Reports (.closeRecord t l.name) (.released t l)

theorem Request.standsFor (request : Request) : ∃ l : Lock String,
    ∀ time id, ActiveRecord.StandsFor { request.activeRecord time with transactionId := id } l := by
  rcases request.operation_valid with h | h
  · exact ⟨⟨request.objectName, .shared⟩, fun time id => ⟨rfl, h⟩⟩
  · exact ⟨⟨request.objectName, .exclusive⟩, fun time id => ⟨rfl, h⟩⟩

namespace TransactionLockManager

variable {osdConfig : Bool} {s : TransactionLockManager} {R : Replayed Int String}

theorem Represents.setLastTransactionId (h : Represents osdConfig s R) (t : Int) :
    Represents osdConfig (s.setLastTransactionId t) R := by
  unfold TransactionLockManager.setLastTransactionId
  split
  · exact ⟨h.owned, h.stored, h.present, h.registered, h.nonempty, h.listed, h.uniform⟩
  · exact h

theorem Represents.getNameForId_eq (h : Represents osdConfig s R) {t : Int} {l : Lock String}
    (hl : R.held.lookup t = some l) : s.getNameForId t = l.name := by
  obtain ⟨r, hr⟩ := h.present t l hl
  obtain ⟨-, -, k, hk, hstands⟩ := h.stored _ t r hr
  obtain rfl := Option.some.inj (hl.symm.trans hk)
  have hcomp : s.compMap[t]? = some (getComponentName osdConfig l.name) := by
    rw [h.registered, hl]
    rfl
  have hfind := findRecord?_eq_some.mpr ⟨hcomp, hr⟩
  simp only [getNameForId, hfind]
  exact hstands.1

/-- The service has had the history of calls and locks that the events tell. -/
structure Serves (osdConfig : Bool) (s : TransactionLockManager)
    (es : List (Event Int String)) : Prop where
  represents : Represents osdConfig s ⟨after ∅ es, ∅⟩
  legal : Legal ∅ es
  nodup : (acquiredIds es).Nodup
  ids : ∀ t ∈ acquiredIds es, 0 < t ∧ t ≤ s.id
  id_nonneg : 0 ≤ s.id
  roomy : Replayed.Roomy capacity ∅ es

variable {es : List (Event Int String)}

theorem serves_init (nodeId : Nat) : Serves osdConfig (init nodeId) [] where
  represents := represents_init nodeId
  legal := trivial
  nodup := List.nodup_nil
  ids t ht := by simp [acquiredIds] at ht
  id_nonneg := Int.natCast_nonneg _
  roomy := trivial

theorem Serves.freshIds (h : Serves osdConfig s es) : FreshIds ∅ es :=
  ⟨h.nodup, fun t _ => Finmap.lookup_empty t⟩

theorem Serves.lookup_fresh (h : Serves osdConfig s es) :
    (after ∅ es).lookup (s.id + 1) = none := by
  cases hl : (after ∅ es).lookup (s.id + 1) with
  | none => rfl
  | some l =>
      rcases lookup_after hl with hnone | hin
      · simp at hnone
      · have hle := (h.ids _ (mem_acquiredIds hin)).2
        omega

theorem Serves.extend (h : Serves osdConfig s es) {s' : TransactionLockManager}
    {e : Event Int String} (hallowed : Allowed (after ∅ es) e)
    (hrep : Represents osdConfig s' ⟨SharedExclusive.apply (after ∅ es) e, ∅⟩)
    (hid : s.id ≤ s'.id) (hids : ∀ t ∈ acquiredIds [e], s.id < t ∧ t ≤ s'.id)
    (hroom : Replayed.Roomy capacity (after ∅ es) [e]) : Serves osdConfig s' (es ++ [e]) where
  represents := by
    rw [after_append]
    exact hrep
  legal := (legal_append ∅ es [e]).mpr ⟨h.legal, hallowed, trivial⟩
  nodup := by
    rw [acquiredIds_append, List.nodup_append]
    refine ⟨h.nodup, ?_, fun a ha b hb => ?_⟩
    · cases e <;> simp [acquiredIds]
    · have hle := (h.ids a ha).2
      have hlt := (hids b hb).1
      omega
  ids t ht := by
    rw [acquiredIds_append, List.mem_append] at ht
    have hnonneg := h.id_nonneg
    rcases ht with ht | ht
    · have hold := h.ids t ht
      omega
    · have hnew := hids t ht
      omega
  id_nonneg := h.id_nonneg.trans hid
  roomy := (Replayed.roomy_append ∅ es [e]).mpr ⟨h.roomy, hroom⟩

/-- The event that a call is in a table: a release of a lock that is held, or possibly an
acquisition. -/
def Yields (L : Table Int String) : Call → Option (Event Int String) → Prop
  | .addTransaction _ _, e? => ∀ t l, e? ≠ some (.released t l)
  | .releaseLock t, e? => e? = (L.lookup t).map (.released t)

theorem Serves.addTransaction (h : Serves osdConfig s es) (request : Request) (lockTime : Int) :
    ∃ id record? e? s', s.addTransaction osdConfig request lockTime = some (id, record?, s') ∧
      Option.Rel Reports record? e? ∧ (∀ t l, e? ≠ some (.released t l)) ∧
      Serves osdConfig s' (es ++ e?.toList) := by
  obtain ⟨l, hl⟩ := request.standsFor
  have hstands : (request.activeRecord lockTime).StandsFor l := hl lockTime 0
  have hgranted : s.grantedId (request.activeRecord lockTime) = s.id + 1 := by
    simp [grantedId, Request.activeRecord]
  have hquiet : Serves osdConfig s (es ++ (none : Option (Event Int String)).toList) := by
    simpa using h
  by_cases hfull : capacity < (after ∅ es).keys.card
  · have hacquire := h.represents.acquire_full (request.activeRecord lockTime) hfull
    exact ⟨-2, none, none, s, by simp [TransactionLockManager.addTransaction, hacquire],
      .none, by simp, hquiet⟩
  · have hroom : (after ∅ es).keys.card ≤ capacity := by omega
    by_cases hblocked : (⟨after ∅ es, ∅⟩ : Replayed Int String).Blocked l
    · have hacquire := h.represents.acquire_blocked hstands hroom hblocked
      exact ⟨-1, none, none, s, by simp [TransactionLockManager.addTransaction, hacquire],
        .none, by simp, hquiet⟩
    · have hnew := h.lookup_fresh
      obtain ⟨s', hacquire, hrep, hid⟩ := h.represents.acquire_new hstands hroom hblocked
        (hgranted ▸ hnew)
      rw [hgranted] at hacquire hrep hid
      have hs' : s'.id = s.id + 1 := by
        rw [hid]
        simp [TransactionLockManager.setLastTransactionId]
      have hnonneg := h.id_nonneg
      refine ⟨s.id + 1, _, some (.acquired (s.id + 1) l), s', ?_,
        .some (.opened (hl lockTime (s.id + 1))), by simp, ?_⟩
      · have hret : ¬(s.id + 1 = -1 ∨ s.id + 1 = -2) := by omega
        simp only [TransactionLockManager.addTransaction, hacquire, Option.map_some, hret, if_false]
      · refine h.extend ⟨hnew, fun t k hk hconf => hblocked ⟨t, k, Or.inl hk, hconf⟩⟩ hrep
          (by omega) (fun t ht => ?_) ⟨hroom, trivial⟩
        have ht' : t = s.id + 1 := by simpa [acquiredIds] using ht
        omega

theorem Serves.releaseLock (h : Serves osdConfig s es) (t : Int) :
    ∃ status record? e? s', s.releaseLock t = some (status, record?, s') ∧
      Option.Rel Reports record? e? ∧ e? = ((after ∅ es).lookup t).map (.released t) ∧
      Serves osdConfig s' (es ++ e?.toList) := by
  cases hheld : (after ∅ es).lookup t with
  | none =>
      obtain ⟨s', hrelease, hrep, hid⟩ := h.represents.release t ⟨"", .shared⟩
      have hnot : t ∉ after ∅ es := Finmap.lookup_eq_none.mp hheld
      have hsame : (after ∅ es).erase t = after ∅ es := by
        apply Finmap.ext_lookup
        intro t'
        rw [lookup_erase_eq]
        split
        · rename_i ht
          rw [← ht, hheld]
        · rfl
      rw [Replayed.apply_released, hsame] at hrep
      refine ⟨false, none, none, s', by
        simp [TransactionLockManager.releaseLock, hrelease, hnot], .none, rfl, ?_⟩
      simp only [Option.toList_none, List.append_nil]
      exact ⟨hrep, h.legal, h.nodup, by rw [hid]; exact h.ids, by rw [hid]; exact h.id_nonneg,
        h.roomy⟩
  | some l =>
      obtain ⟨s', hrelease, hrep, hid⟩ := h.represents.release t l
      have hin : t ∈ after ∅ es := Finmap.mem_of_lookup_eq_some hheld
      refine ⟨true, some (.closeRecord t l.name), some (.released t l), s', ?_,
        .some (.closed t l), rfl, h.extend hheld hrep hid.ge (fun t ht => ?_) trivial⟩
      · simp [TransactionLockManager.releaseLock, hrelease, hin,
          h.represents.getNameForId_eq hheld]
      · simp [acquiredIds] at ht

/-- Every call is at most one event of the table, and queues the record of this event. -/
theorem Serves.call (h : Serves osdConfig s es) (c : Call) :
    ∃ record? e? s', s.call osdConfig c = some (record?, s') ∧ Option.Rel Reports record? e? ∧
      Yields (after ∅ es) c e? ∧ Serves osdConfig s' (es ++ e?.toList) := by
  cases c with
  | addTransaction request lockTime =>
      obtain ⟨id, record?, e?, s', hcall, hreport, hyields, hserves⟩ :=
        h.addTransaction request lockTime
      exact ⟨record?, e?, s', by simp [TransactionLockManager.call, hcall], hreport, hyields,
        hserves⟩
  | releaseLock t =>
      obtain ⟨status, record?, e?, s', hcall, hreport, hyields, hserves⟩ := h.releaseLock t
      exact ⟨record?, e?, s', by simp [TransactionLockManager.call, hcall], hreport, hyields,
        hserves⟩

end TransactionLockManager

namespace TransactionReadHandler

open TransactionLockManager

variable {osdConfig : Bool} {R : Replayed Int String}

theorem recoverObjects_represents {h : TransactionReadHandler}
    (hrep : Represents osdConfig h.memory R) {placed : PlacedRecord} {e : Event Int String}
    (hreports : Reports placed.record e) (hoffset : ¬ placed.offset < h.lastCheckpointOffset)
    (hid : ∀ t ∈ acquiredIds [e], t ≠ 0)
    (hsame : ∀ t l, e = .acquired t l → ∀ k, R.Entry t k → k = l) :
    ∃ h', h.recoverObjects osdConfig placed = some h' ∧
      Represents osdConfig h'.memory (R.apply capacity e) ∧
      h'.lastCheckpointOffset = h.lastCheckpointOffset := by
  obtain ⟨record, offset, size⟩ := placed
  cases hreports with
  | @opened record l hl =>
      have hstands : (recoveredRecord record size).StandsFor l := hl
      have hgranted : h.memory.grantedId (recoveredRecord record size) = record.transactionId :=
        if_pos (hid _ List.mem_cons_self)
      obtain ⟨v, s', hacquire, hrep'⟩ := hrep.acquire hstands
        (by rw [hgranted]; exact hsame _ l rfl)
      rw [hgranted] at hrep'
      exact ⟨{ h with memory := s' }, by
        simp [recoverObjects, TransactionReadHandler.acquire, hoffset, hacquire], hrep', rfl⟩
  | closed t l =>
      obtain ⟨s', hrelease, hrep', -⟩ := hrep.release t l
      exact ⟨{ h with memory := s' }, by simp [recoverObjects, hrelease], hrep', rfl⟩

theorem recoverRecords_represents {h : TransactionReadHandler}
    (hrep : Represents osdConfig h.memory R) {placed : List PlacedRecord}
    {es history : List (Event Int String)}
    (hreports : List.Forall₂ Reports (placed.map (·.record)) es)
    (hoffset : ∀ p ∈ placed, ¬ p.offset < h.lastCheckpointOffset)
    (hnodup : (acquiredIds history).Nodup) (hid : ∀ t ∈ acquiredIds history, t ≠ 0)
    (hfrom : ∀ t l, .acquired t l ∈ es → .acquired t l ∈ history)
    (hentry : ∀ t l, R.Entry t l → .acquired t l ∈ history) :
    ∃ h', h.recoverRecords osdConfig placed = some h' ∧
      Represents osdConfig h'.memory (R.replay capacity es) ∧
      h'.lastCheckpointOffset = h.lastCheckpointOffset := by
  induction placed generalizing h R es with
  | nil =>
      cases hreports
      exact ⟨h, rfl, hrep, rfl⟩
  | cons p placed ih =>
      cases hreports with
      | @cons _ e _ es hp hrest =>
          have hpid : ∀ t ∈ acquiredIds [e], t ≠ 0 := by
            cases e with
            | acquired t l =>
                intro t' ht'
                obtain rfl : t' = t := by simpa [acquiredIds] using ht'
                exact hid _ (mem_acquiredIds (hfrom _ l List.mem_cons_self))
            | released t l => simp [acquiredIds]
          obtain ⟨h₁, hstep, hrep₁, hcheck₁⟩ := recoverObjects_represents hrep hp
            (hoffset p List.mem_cons_self) hpid fun t l heq k hk =>
              acquired_unique hnodup (hentry t k hk) (hfrom t l (heq ▸ List.mem_cons_self))
          obtain ⟨h', hrun, hrep', hcheck'⟩ := ih hrep₁ hrest
            (fun q hq => hcheck₁ ▸ hoffset q (List.mem_cons_of_mem _ hq))
            (fun t l ht => hfrom t l (List.mem_cons_of_mem _ ht)) fun t l ht => by
              rcases Replayed.entry_apply ht with hold | rfl
              · exact hentry t l hold
              · exact hfrom t l List.mem_cons_self
          exact ⟨h', by simpa [recoverRecords, hstep] using hrun, hrep', hcheck'.trans hcheck₁⟩

end TransactionReadHandler

end ObjectStorage.Transaction
