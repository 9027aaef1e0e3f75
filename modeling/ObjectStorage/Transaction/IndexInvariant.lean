import ObjectStorage.Transaction.IndexAgreement

/-!
The steps of the lock manager that keep its indexes in agreement, and the runs made of them.
-/

namespace ObjectStorage.Transaction

open Std Library

namespace TransactionLockManager

variable {osdConfig : Bool} {s s' : TransactionLockManager}

/-- The invariant of the lock manager. -/
structure Consistent (osdConfig : Bool) (s : TransactionLockManager) : Prop where
  agree : s.Agree
  nonempty : ListsNonempty s.nameMap
  placed : Placed osdConfig s.memMap

theorem consistent_init (nodeId : Nat) : Consistent osdConfig (init nodeId) where
  agree := by
    constructor
    · intro t c
      simp [init, ownedAt, flagAt]
    · rintro n e ⟨c, r, hr, -⟩
      simp [init, ownedAt, flagAt] at hr
    · intro n e _
      simp [init, elementsAt]
  nonempty n := by simp [init]
  placed c t r hr := by simp [init, recordAt] at hr

/-- The condition under which a call keeps the indexes in agreement.

An acquire must be turned down by the front of its name, or get an id that is not registered in a
component that is not left unowned. Bulk removal must take every owned record of a name it clears.
Records added as owned need new, distinct ids and components that are not left unowned; records
added without ownership must not enter an owned component. Components that are given up must not
store an id registered for another one. Recovered records need new ids, and a change of the base
version needs every component in the list. -/
def IndexSafe (osdConfig : Bool) (s : TransactionLockManager) : Operation → Prop
  | .acquire record =>
      s.frontRejects record ∨
        (s.compMap[s.grantedId record]? = none ∧
          flagAt s.memMap (getComponentName osdConfig record.objectName) ≠ some false)
  | .release _ => True
  | .removeBulkDelete ids =>
      ∀ t ∈ ids, ∀ c r, s.BulkRegistered c t → recordAt s.memMap c t = some r →
        ∀ c' t' r', ownedAt s.memMap c' t' = some r' → r'.objectName = r.objectName →
          t' ∈ ids ∧ r'.requestMethod = "BULK_DELETE"
  | .addRecords entries true =>
      entries.Pairwise (fun r r' => r.transactionId ≠ r'.transactionId) ∧
        ∀ r ∈ entries, s.compMap[r.transactionId]? = none ∧
          flagAt s.memMap (getComponentName osdConfig r.objectName) ≠ some false
  | .addRecords entries false =>
      ∀ r ∈ entries, flagAt s.memMap (getComponentName osdConfig r.objectName) = some true →
        ∃ r', recordAt s.memMap (getComponentName osdConfig r.objectName) r.transactionId =
          some r'
  | .markUnknown components =>
      ∀ c t r c', c ∉ components → recordAt s.memMap c t = some r → s.compMap[t]? = some c' →
        c' ∉ components
  | .commitRecovered components changed =>
      (changed = true → ∀ c b, flagAt s.memMap c = some b → c ∈ components) ∧
        ∀ c ∈ components, flagAt s.memMap c = some false → ∀ t r, recordAt s.memMap c t = some r →
          s.compMap[t]? = none ∧
            ∀ c' ∈ components, flagAt s.memMap c' = some false →
              ∀ r', recordAt s.memMap c' t = some r' → c = c'
  | .extractComponents components =>
      ∀ c t r c', c ∈ components → recordAt s.memMap c t = some r → s.compMap[t]? = some c' →
        c' ∈ components

/-- Registering one record with a new id in a component that is not left unowned. -/
theorem Consistent.insert (h : Consistent osdConfig s) {r : ActiveRecord}
    (hnew : s.compMap[r.transactionId]? = none)
    (hflag : flagAt s.memMap (getComponentName osdConfig r.objectName) ≠ some false)
    (hnames : s'.nameMap = pushElement s.nameMap r.objectName r.element)
    (hmem : s'.memMap =
      insertRecord s.memMap (getComponentName osdConfig r.objectName) r true)
    (hcomp : s'.compMap =
      s.compMap.insertIfNew r.transactionId (getComponentName osdConfig r.objectName)) :
    Consistent osdConfig s' := by
  have hrec := recordAt_eq_none_of_not_owned hflag (h.agree.owned_eq_none hnew _)
  refine ⟨h.agree.add (c := getComponentName osdConfig r.objectName) (r := r) hnew ?_ ?_ ?_, ?_,
    ?_⟩
  · intro c t
    rw [hmem, ownedAt_insertRecord hflag hrec]
  · intro t
    rw [hcomp, getElem?_insertIfNew_eq]
    by_cases ht : r.transactionId = t
    · subst ht
      simp [hnew]
    · simp [ht]
  · intro n
    rw [hnames, elementsAt_pushElement]
  · rw [hnames]
    exact listsNonempty_pushElement h.nonempty _ _
  · rw [hmem]
    exact placed_insertRecord h.placed r true

theorem Consistent.acquire (h : Consistent osdConfig s) {record : ActiveRecord}
    (hsafe : s.IndexSafe osdConfig (.acquire record)) :
    ∃ s', s.step osdConfig (.acquire record) = some s' ∧ Consistent osdConfig s' := by
  simp only [step, acquireTransactionLock_eq h.nonempty, Option.map_some, Option.some.injEq,
    exists_eq_left']
  by_cases hfront : s.frontRejects record = true
  · rw [if_pos hfront]
    exact h
  · rw [if_neg hfront]
    obtain ⟨hnew, hflag⟩ := hsafe.resolve_left hfront
    have hrec := recordAt_eq_none_of_not_owned hflag (h.agree.owned_eq_none hnew _)
    obtain ⟨-, hmem, hcomp⟩ := grant_of_new hrec
    exact h.insert (r := s.withGrantedId record) hnew hflag (grant_nameMap s record) hmem hcomp

theorem Consistent.release (h : Consistent osdConfig s) (t : Int) :
    ∃ s', s.step osdConfig (.release t) = some s' ∧ Consistent osdConfig s' := by
  cases hfind : s.findRecord? t with
  | none => exact ⟨s, by simp [step, releaseLockById_of_missing hfind], h⟩
  | some found =>
      obtain ⟨c, r⟩ := found
      obtain ⟨hcomp, hr⟩ := findRecord?_eq_some.mp hfind
      obtain ⟨r', hr'⟩ := (h.agree.registered t c).mp hcomp
      obtain rfl := Option.some.inj (hr.symm.trans (recordAt_of_ownedAt hr'))
      have hkey := (h.placed c t r hr).1
      have hlisted := (h.agree.listed_iff r.objectName r.element).mpr
        ⟨c, r, by rw [← hr', ← hkey]; rfl, rfl, rfl⟩
      cases hname : s.nameMap[r.objectName]? with
      | none => simp [elementsAt, hname] at hlisted
      | some elements =>
          refine ⟨_, by rw [step, releaseLockById_of_found hcomp hr hname]; rfl, ?_, ?_, ?_⟩
          · refine h.agree.remove hr' hkey (ownedAt_eraseRecord s.memMap c t) ?_ ?_
            · intro t'
              simp
            · intro n
              rw [elementsAt_eraseElement hname]
              simp [elementsAt, hname]
          · exact listsNonempty_eraseElement h.nonempty _ _ _
          · exact placed_eraseRecord h.placed c t

/-- An operation that drops places is safe when ids and names are not shared with what stays. -/
theorem Consistent.drop {removed : Int → Int → Prop} (h : Consistent osdConfig s)
    (hdrop : Drops removed s s')
    (hids : ∀ c t r c', removed c t → recordAt s.memMap c t = some r →
      s.compMap[t]? = some c' → removed c' t)
    (hnames : ∀ c t r c' t' r', removed c t → recordAt s.memMap c t = some r →
      ownedAt s.memMap c' t' = some r' → r'.objectName = r.objectName → removed c' t') :
    Consistent osdConfig s' where
  agree := IndexesAgree.drop h.agree hdrop hids hnames
  nonempty := hdrop.nonempty h.nonempty
  placed c t r hr := h.placed c t r (hdrop.record_of hr)

theorem Consistent.removeBulkDelete (h : Consistent osdConfig s) {ids : List Int}
    (hsafe : s.IndexSafe osdConfig (.removeBulkDelete ids)) :
    Consistent osdConfig (s.removeBulkDeleteEntry ids) := by
  refine h.drop (removeBulkDeleteEntry_drops s ids) ?_ ?_
  · rintro c t r c' ⟨ht, hreg⟩ hr hcomp
    obtain rfl := Option.some.inj (hreg.1.symm.trans hcomp)
    exact ⟨ht, hreg⟩
  · rintro c t r c' t' r' ⟨ht, hreg⟩ hr hr' hname
    obtain ⟨ht', hbulk⟩ := hsafe t ht c r hreg hr c' t' r' hr' hname
    exact ⟨ht', (h.agree.registered t' c').mpr ⟨r', hr'⟩, r', recordAt_of_ownedAt hr', hbulk⟩

theorem Consistent.markUnknown (h : Consistent osdConfig s) {components : List Int}
    (hsafe : s.IndexSafe osdConfig (.markUnknown components)) :
    Consistent osdConfig (s.markUnknownMemory components) := by
  refine h.drop (markUnknownMemory_drops s components) hsafe ?_
  intro c t r c' t' r' hc hr hr' hname
  rwa [h.placed.same_component hr (recordAt_of_ownedAt hr') hname]

theorem Consistent.extractComponents (h : Consistent osdConfig s) {components : List Int}
    (hsafe : s.IndexSafe osdConfig (.extractComponents components)) :
    Consistent osdConfig (s.getComponentTransactionMap components).2 := by
  refine h.drop (getComponentTransactionMap_drops h.placed.keyedById components) hsafe ?_
  intro c t r c' t' r' hc hr hr' hname
  rwa [h.placed.same_component hr (recordAt_of_ownedAt hr') hname]

theorem Consistent.addOwned (h : Consistent osdConfig s) {entries : List ActiveRecord}
    (hsafe : s.IndexSafe osdConfig (.addRecords entries true)) :
    Consistent osdConfig (s.addRecordsInMemory osdConfig entries true) := by
  unfold addRecordsInMemory
  induction entries generalizing s with
  | nil => exact h
  | cons r entries ih =>
      obtain ⟨hdistinct, hnew⟩ := hsafe
      obtain ⟨hne, hdistinct⟩ := List.pairwise_cons.mp hdistinct
      obtain ⟨hr, hflag⟩ := hnew r List.mem_cons_self
      refine ih (h.insert (r := r) hr hflag rfl rfl rfl) ⟨hdistinct, fun r' hr' => ?_⟩
      obtain ⟨hid, hcomp⟩ := hnew r' (List.mem_cons_of_mem _ hr')
      constructor
      · simp only [addRecord, if_true, getElem?_insertIfNew_eq, hne r' hr', if_false]
        exact hid
      · simp only [addRecord, if_true, flagAt_insertRecord]
        by_cases hcc : getComponentName osdConfig r.objectName =
            getComponentName osdConfig r'.objectName
        · cases hf : flagAt s.memMap (getComponentName osdConfig r.objectName) with
          | none => simp [hcc]
          | some b => cases b <;> simp_all
        · simpa [hcc] using hcomp

theorem Consistent.addUnowned (h : Consistent osdConfig s) {entries : List ActiveRecord}
    (hsafe : s.IndexSafe osdConfig (.addRecords entries false)) :
    Consistent osdConfig (s.addRecordsInMemory osdConfig entries false) := by
  unfold addRecordsInMemory
  induction entries generalizing s with
  | nil => exact h
  | cons r entries ih =>
      have hr := hsafe r List.mem_cons_self
      have howned := ownedAt_insertRecord_unowned hr
      have hfirst : Consistent osdConfig (addRecord osdConfig false s r) := by
        refine ⟨?_, h.nonempty, placed_insertRecord h.placed r false⟩
        have hsame : ownedAt (addRecord osdConfig false s r).memMap = ownedAt s.memMap := by
          funext c t
          exact howned c t
        change IndexesAgree (ownedAt (addRecord osdConfig false s r).memMap) _ _
        rw [hsame]
        exact h.agree
      refine ih hfirst fun r' hr' hflag => ?_
      have hold : flagAt s.memMap (getComponentName osdConfig r'.objectName) = some true := by
        simp only [addRecord, Bool.false_eq_true, if_false, flagAt_insertRecord] at hflag
        by_cases hcc : getComponentName osdConfig r.objectName =
            getComponentName osdConfig r'.objectName
        · rw [if_pos hcc, hcc] at hflag
          cases hf : flagAt s.memMap (getComponentName osdConfig r'.objectName) with
          | none => simp [hf] at hflag
          | some b => simpa [hf] using hflag
        · simpa [hcc] using hflag
      obtain ⟨stored, hstored⟩ := hsafe r' (List.mem_cons_of_mem _ hr') hold
      have hkept : ownedAt s.memMap (getComponentName osdConfig r'.objectName) r'.transactionId =
          some stored := ownedAt_eq_some.mpr ⟨hold, hstored⟩
      rw [← howned] at hkept
      exact ⟨stored, recordAt_of_ownedAt hkept⟩

theorem Consistent.commitRecovered (h : Consistent osdConfig s) {components : List Int}
    {changed : Bool} (hsafe : s.IndexSafe osdConfig (.commitRecovered components changed)) :
    ∃ s', s.step osdConfig (.commitRecovered components changed) = some s' ∧
      Consistent osdConfig s' := by
  obtain ⟨hlisted, hfresh⟩ := hsafe
  refine ⟨_, commitRecoveredData_eq hlisted, ?_⟩
  have hkey := h.placed.keyedById
  have hdistinct := pairwise_recoveredEntries components hkey
    fun c c' t r r' hc hc' hf hf' hr hr' => (hfresh c hc hf t r hr).2 c' hc' hf' r' hr'
  have hnew : ∀ e ∈ recoveredEntries components s.memMap,
      s.compMap[e.2.transactionId]? = none := by
    rintro ⟨c, r⟩ he
    obtain ⟨hc, hf, t, hr⟩ := mem_recoveredEntries.mp he
    have ht := hkey c t r hr
    subst ht
    exact (hfresh c hc hf _ r hr).1
  obtain ⟨hagree, hnonempty⟩ := h.agree.commitEntries h.nonempty hdistinct hnew
  refine ⟨?_, hnonempty, fun c t r hr => ?_⟩
  · have hsame : (recoveredEntries components s.memMap).foldl IndexesAgree.extend
        (ownedAt s.memMap) = ownedAt (ownComponents components s.memMap) := by
      funext c t
      unfold ownedAt
      rw [recordAt_ownComponents, flagAt_ownComponents]
      by_cases hentry : ∃ r, (c, r) ∈ recoveredEntries components s.memMap ∧ r.transactionId = t
      · obtain ⟨r, he, rfl⟩ := hentry
        rw [IndexesAgree.foldl_extend_of_mem hdistinct he]
        obtain ⟨hc, hf, t, hr⟩ := mem_recoveredEntries.mp he
        have ht := hkey c t r hr
        subst ht
        simp [hf, hc, hr]
      · rw [IndexesAgree.foldl_extend_of_not_mem]
        · cases hf : flagAt s.memMap c with
          | none => simp
          | some b =>
              cases b with
              | true => simp
              | false =>
                  by_cases hc : c ∈ components
                  · have hnone : recordAt s.memMap c t = none := by
                      cases hr : recordAt s.memMap c t with
                      | none => rfl
                      | some r =>
                          exact absurd ⟨r, mem_recoveredEntries.mpr ⟨hc, hf, t, hr⟩,
                            hkey c t r hr⟩ hentry
                    simp [hnone]
                  · simp [hc]
        · rintro ⟨d, r⟩ he ⟨rfl, ht⟩
          exact hentry ⟨r, he, ht⟩
    change IndexesAgree (ownedAt (ownComponents components s.memMap)) _ _
    rw [← hsame]
    exact hagree
  · exact h.placed c t r (by rwa [recordAt_ownComponents] at hr)

theorem Consistent.step (h : Consistent osdConfig s) {op : Operation}
    (hsafe : s.IndexSafe osdConfig op) :
    ∃ s', s.step osdConfig op = some s' ∧ Consistent osdConfig s' := by
  cases op with
  | acquire record => exact h.acquire hsafe
  | release t => exact h.release t
  | removeBulkDelete ids => exact ⟨_, rfl, h.removeBulkDelete hsafe⟩
  | addRecords entries flag =>
      cases flag with
      | true => exact ⟨_, rfl, h.addOwned hsafe⟩
      | false => exact ⟨_, rfl, h.addUnowned hsafe⟩
  | markUnknown components => exact ⟨_, rfl, h.markUnknown hsafe⟩
  | commitRecovered components changed => exact h.commitRecovered hsafe
  | extractComponents components => exact ⟨_, rfl, h.extractComponents hsafe⟩

/-- In every run of safe steps from the empty manager the indexes agree. -/
theorem safeRun_indexes_agree (osdConfig : Bool) (nodeId : Nat) (ops : List Operation)
    (hops : Along (TransactionLockManager.step osdConfig) (IndexSafe osdConfig) (init nodeId)
      ops) :
    ∃ s, run (TransactionLockManager.step osdConfig) (init nodeId) ops = some s ∧ s.Agree := by
  obtain ⟨s, hs, hinv⟩ := run_invariant (TransactionLockManager.step osdConfig)
    (I := Consistent osdConfig) (fun _ _ hI hsafe => hI.step hsafe) (consistent_init nodeId) hops
  exact ⟨s, hs, hinv.agree⟩

theorem not_agree_of_stale_element {n : String} {e : TransactionIdElement}
    (hlisted : e ∈ elementsAt s.nameMap n) (hnone : s.compMap[e.transactionId]? = none) :
    ¬ s.Agree := by
  intro hagree
  obtain ⟨c, r, hr, -⟩ := (IndexesAgree.listed_iff hagree n e).mp hlisted
  rw [IndexesAgree.owned_eq_none hagree hnone c] at hr
  exact absurd hr (by simp)

/-- A `GET` lock on an object of component 26. -/
def readRequest (transactionId : Int) : ActiveRecord :=
  ⟨LockType.read.code, "1a/b", "GET", "obj", transactionId, 0⟩

theorem safeRun_indexes_agree_shared_reads :
    ∃ s, run (TransactionLockManager.step false) (init 1)
      [.acquire (readRequest 0), .acquire (readRequest 0), .release (getUniqueId 1 0 + 1)] =
        some s ∧ s.Agree := by
  apply safeRun_indexes_agree
  refine ⟨Or.inr (by decide), fun s' hs' => ?_⟩
  obtain rfl := Option.some.inj hs'
  exact ⟨Or.inr (by decide), fun _ _ => ⟨trivial, fun _ _ => trivial⟩⟩

/-- An id that is acquired twice is turned down the second time with its element left in the name
index; after its release the name stays locked by an id that no index by id knows. -/
theorem duplicateAcquire_leaves_stale_element :
    ∃ s, run (TransactionLockManager.step false) (init 1)
      [.acquire (readRequest 7), .acquire (readRequest 7), .release 7] = some s ∧
        elementsAt s.nameMap "1a/b" = [⟨7, LockType.read.code⟩] ∧ s.compMap[(7 : Int)]? = none ∧
        ¬ s.Agree := by
  refine ⟨_, rfl, by decide, by decide, ?_⟩
  exact not_agree_of_stale_element (n := "1a/b") (e := ⟨7, LockType.read.code⟩) (by decide)
    (by decide)

end TransactionLockManager

end ObjectStorage.Transaction
