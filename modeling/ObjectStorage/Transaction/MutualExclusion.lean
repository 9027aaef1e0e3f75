import ObjectStorage.Transaction.LockGrants

/-!
Mutual exclusion of the lock manager. A conflict is tested against the front of a name's list only,
so the invariant behind it speaks of whole lists: every holder that counts is listed under its name,
and no list mixes a `WRITE` with anything else.
-/

namespace ObjectStorage.Transaction

open Std Library

/-- No `WRITE` holder in an owned component shares its name with another holder. -/
def TransactionLockManager.MutuallyExclusive (s : TransactionLockManager) : Prop :=
  ∀ c t r c' t' r', ownedAt s.memMap c t = some r → ownedAt s.memMap c' t' = some r' →
    r'.objectName = r.objectName → r.operation = LockType.write.code → (c, t) ≠ (c', t') →
      r'.operation ≠ LockType.read.code ∧ r'.operation ≠ LockType.write.code

/-- The two modes that `acquire_transaction_lock` tells apart. -/
def SharedOrExclusive (operation : Int) : Prop :=
  operation = LockType.read.code ∨ operation = LockType.write.code

instance (operation : Int) : Decidable (SharedOrExclusive operation) :=
  inferInstanceAs (Decidable (_ ∨ _))

/-- Two different elements that one name must not list together. -/
def Conflicting (x y : TransactionIdElement) : Prop :=
  x ≠ y ∧ (x.operation = LockType.write.code ∨ y.operation = LockType.write.code)

instance (x y : TransactionIdElement) : Decidable (Conflicting x y) :=
  inferInstanceAs (Decidable (_ ∧ _))

theorem Conflicting.symm {x y : TransactionIdElement} (h : Conflicting x y) : Conflicting y x :=
  ⟨h.1.symm, h.2.symm⟩

theorem not_conflicting_self (x : TransactionIdElement) : ¬ Conflicting x x :=
  fun h => h.1 rfl

theorem eq_of_not_conflicting {x y : TransactionIdElement} (h : ¬ Conflicting x y)
    (hx : SharedOrExclusive x.operation) (hy : SharedOrExclusive y.operation)
    (hid : x.transactionId = y.transactionId) : x = y := by
  by_cases hxy : x = y
  · exact hxy
  · have hmodes := not_or.mp (mt (fun hw => (⟨hxy, hw⟩ : Conflicting x y)) h)
    have hop : x.operation = y.operation :=
      (hx.resolve_right hmodes.1).trans (hy.resolve_right hmodes.2).symm
    cases x
    cases y
    simp_all

/-- A list of readers, or copies of one element. -/
structure Compatible (l : ElementList) : Prop where
  modes : ∀ x ∈ l, SharedOrExclusive x.operation
  pairs : ∀ x ∈ l, ∀ y ∈ l, ¬ Conflicting x y

namespace Compatible

theorem nil : Compatible [] := ⟨by simp, by simp⟩

theorem of_subset {l l' : ElementList} (h : Compatible l) (hsub : ∀ x ∈ l', x ∈ l) :
    Compatible l' :=
  ⟨fun x hx => h.modes x (hsub x hx), fun x hx y hy => h.pairs x (hsub x hx) y (hsub y hy)⟩

theorem concat {l : ElementList} (h : Compatible l) {e : TransactionIdElement}
    (he : SharedOrExclusive e.operation) (hl : ∀ x ∈ l, ¬ Conflicting x e) :
    Compatible (l ++ [e]) := by
  constructor
  · intro x hx
    rcases List.mem_append.mp hx with hx | hx
    · exact h.modes x hx
    · rw [List.mem_singleton.mp hx]
      exact he
  · intro x hx y hy
    rcases List.mem_append.mp hx with hx | hx
    · rcases List.mem_append.mp hy with hy | hy
      · exact h.pairs x hx y hy
      · rw [List.mem_singleton.mp hy]
        exact hl x hx
    · rw [List.mem_singleton.mp hx]
      rcases List.mem_append.mp hy with hy | hy
      · exact fun hc => hl y hy hc.symm
      · rw [List.mem_singleton.mp hy]
        exact not_conflicting_self e

/-- The test against the front element is a test against the whole list. -/
theorem of_front {front : TransactionIdElement} {rest : ElementList}
    (h : Compatible (front :: rest)) {e : TransactionIdElement}
    (he : SharedOrExclusive e.operation)
    (hpass : TransactionLockManager.rejects front.operation e.operation = false) :
    ∀ x ∈ front :: rest, ¬ Conflicting x e := by
  have hfront := h.modes front List.mem_cons_self
  have hread : front.operation = LockType.read.code ∧ e.operation = LockType.read.code := by
    rcases hfront with hf | hf <;> rcases he with he | he <;>
      simp_all [TransactionLockManager.rejects, LockType.code]
  rintro x hx ⟨hne, hwrite⟩
  have hcode : LockType.read.code ≠ LockType.write.code := by decide
  rcases hwrite with hx' | he'
  · have hxf : front ≠ x := by
      rintro rfl
      exact hcode (hread.1.symm.trans hx')
    exact h.pairs front List.mem_cons_self x hx ⟨hxf, Or.inr hx'⟩
  · exact hcode (hread.2.symm.trans he')

end Compatible

namespace TransactionLockManager

variable {osdConfig : Bool} {s s' : TransactionLockManager}

/-- A stored record that counts as a holder: its component is owned, or its id is registered. -/
def Active (s : TransactionLockManager) (c t : Int) (r : ActiveRecord) : Prop :=
  recordAt s.memMap c t = some r ∧ (flagAt s.memMap c = some true ∨ s.compMap[t]? = some c)

structure Guarded (osdConfig : Bool) (s : TransactionLockManager) : Prop where
  placed : Placed osdConfig s.memMap
  nonempty : ListsNonempty s.nameMap
  stored : ∀ t c, s.compMap[t]? = some c → ∃ r, recordAt s.memMap c t = some r
  listed : ∀ c t r, s.Active c t r → r.element ∈ elementsAt s.nameMap r.objectName
  compatible : ∀ n, Compatible (elementsAt s.nameMap n)

theorem guarded_init (nodeId : Nat) : Guarded osdConfig (init nodeId) where
  placed c t r hr := by simp [init, recordAt] at hr
  nonempty n := by simp [init]
  stored t c h := by simp [init] at h
  listed c t r h := by simp [Active, init, recordAt] at h
  compatible n := by simpa [init, elementsAt] using Compatible.nil

theorem Guarded.mutuallyExclusive (h : Guarded osdConfig s) : s.MutuallyExclusive := by
  intro c t r c' t' r' hr hr' hname hwrite hne
  have hplace := h.placed c t r (recordAt_of_ownedAt hr)
  have hplace' := h.placed c' t' r' (recordAt_of_ownedAt hr')
  have hc : c = c' := by rw [← hplace.2, ← hplace'.2, hname]
  have hlisted := h.listed c t r ⟨recordAt_of_ownedAt hr, Or.inl (ownedAt_eq_some.mp hr).1⟩
  have hlisted' := h.listed c' t' r' ⟨recordAt_of_ownedAt hr', Or.inl (ownedAt_eq_some.mp hr').1⟩
  rw [hname] at hlisted'
  refine absurd ⟨fun heq => hne ?_, Or.inl hwrite⟩
    ((h.compatible r.objectName).pairs _ hlisted _ hlisted')
  have hid : r.transactionId = r'.transactionId := congrArg (·.transactionId) heq
  rw [hc, ← hplace.1, ← hplace'.1, hid]

/-- The condition under which a call keeps mutual exclusion.

Granted and recovered records must be `READ` or `WRITE` locks. Bulk removal must take every holder
of a name it clears. Records added as owned must not conflict with each other or with the elements
listed under their name, and must agree with an unregistered record that an unowned component
already stores under their id. Records added without ownership must not enter an owned component.
Recovered records must not conflict with each other or with the elements listed, and a change of
the base version needs every component in the list. -/
def TakeoverSafe (osdConfig : Bool) (s : TransactionLockManager) : Operation → Prop
  | .acquire record => SharedOrExclusive record.operation
  | .release _ => True
  | .removeBulkDelete ids =>
      ∀ t ∈ ids, ∀ c r, s.BulkRegistered c t → recordAt s.memMap c t = some r →
        ∀ t' r', s.Active c t' r' → r'.objectName = r.objectName →
          t' ∈ ids ∧ s.BulkRegistered c t'
  | .addRecords entries true =>
      (∀ r ∈ entries, ∀ r' ∈ entries, r.objectName = r'.objectName →
        ¬ Conflicting r.element r'.element) ∧
      ∀ r ∈ entries, SharedOrExclusive r.operation ∧
        (∀ x ∈ elementsAt s.nameMap r.objectName, ¬ Conflicting x r.element) ∧
        ∀ r', flagAt s.memMap (getComponentName osdConfig r.objectName) = some false →
          s.compMap[r.transactionId]? = none →
          recordAt s.memMap (getComponentName osdConfig r.objectName) r.transactionId = some r' →
          r'.objectName = r.objectName ∧ r'.operation = r.operation
  | .addRecords entries false =>
      ∀ r ∈ entries, flagAt s.memMap (getComponentName osdConfig r.objectName) = some true →
        ∃ r', recordAt s.memMap (getComponentName osdConfig r.objectName) r.transactionId =
          some r'
  | .markUnknown _ => True
  | .commitRecovered components changed =>
      (changed = true → ∀ c b, flagAt s.memMap c = some b → c ∈ components) ∧
        ∀ c ∈ components, flagAt s.memMap c = some false → ∀ t r, recordAt s.memMap c t = some r →
          SharedOrExclusive r.operation ∧
          (∀ x ∈ elementsAt s.nameMap r.objectName, ¬ Conflicting x r.element) ∧
          ∀ t' r', recordAt s.memMap c t' = some r' → r'.objectName = r.objectName →
            ¬ Conflicting r'.element r.element
  | .extractComponents _ => True

/-- Enrolling a record: it is listed under its name, stored in its component unless its id is stored
already, and registered unless its id is registered already. -/
theorem Guarded.enroll (h : Guarded osdConfig s) {r : ActiveRecord}
    (hmode : SharedOrExclusive r.operation)
    (hpass : ∀ x ∈ elementsAt s.nameMap r.objectName, ¬ Conflicting x r.element)
    (hstored : ∀ r', flagAt s.memMap (getComponentName osdConfig r.objectName) = some false →
      s.compMap[r.transactionId]? = none →
      recordAt s.memMap (getComponentName osdConfig r.objectName) r.transactionId = some r' →
      r'.objectName = r.objectName ∧ r'.operation = r.operation)
    (hnames : s'.nameMap = pushElement s.nameMap r.objectName r.element)
    (hmem : s'.memMap =
      insertRecord s.memMap (getComponentName osdConfig r.objectName) r true)
    (hcomp : s'.compMap =
      s.compMap.insertIfNew r.transactionId (getComponentName osdConfig r.objectName)) :
    Guarded osdConfig s' := by
  have hlists : ∀ n, elementsAt s'.nameMap n =
      if r.objectName = n then elementsAt s.nameMap r.objectName ++ [r.element]
      else elementsAt s.nameMap n := fun n => by rw [hnames, elementsAt_pushElement]
  have hgrow : ∀ n, ∀ x ∈ elementsAt s.nameMap n, x ∈ elementsAt s'.nameMap n := by
    intro n x hx
    rw [hlists]
    by_cases hn : r.objectName = n
    · subst hn
      simp [hx]
    · simpa [hn] using hx
  have hself : r.element ∈ elementsAt s'.nameMap r.objectName := by
    rw [hlists, if_pos rfl]
    simp
  have hreg : ∀ t c, s'.compMap[t]? = some c ↔ s.compMap[t]? = some c ∨
      (s.compMap[t]? = none ∧ r.transactionId = t ∧
        getComponentName osdConfig r.objectName = c) := by
    intro t c
    rw [hcomp, getElem?_insertIfNew_eq_some]
  refine ⟨?_, ?_, fun t c hc => ?_, fun c t r' hactive => ?_, fun n => ?_⟩
  · rw [hmem]
    exact placed_insertRecord h.placed r true
  · rw [hnames]
    exact listsNonempty_pushElement h.nonempty _ _
  · rw [hmem, recordAt_insertRecord]
    by_cases hct : getComponentName osdConfig r.objectName = c ∧ r.transactionId = t
    · exact ⟨_, if_pos hct⟩
    · rw [if_neg hct]
      rcases (hreg t c).mp hc with hold | ⟨-, ht, hc'⟩
      · exact h.stored t c hold
      · exact absurd ⟨hc', ht⟩ hct
  · obtain ⟨hr', hcount⟩ := hactive
    rw [hmem, recordAt_insertRecord] at hr'
    rw [hmem, flagAt_insertRecord, hreg] at hcount
    by_cases hct : getComponentName osdConfig r.objectName = c ∧ r.transactionId = t
    · obtain ⟨rfl, rfl⟩ := hct
      rw [if_pos ⟨rfl, rfl⟩] at hr'
      cases hold : recordAt s.memMap (getComponentName osdConfig r.objectName)
          r.transactionId with
      | none =>
          rw [hold] at hr'
          obtain rfl := Option.some.inj hr'
          exact hself
      | some old =>
          rw [hold] at hr'
          have hr'' : old = r' := Option.some.inj hr'
          subst hr''
          obtain ⟨b, hb⟩ := flagAt_isSome_of_recordAt hold
          rw [hb, if_pos rfl] at hcount
          rcases hcount with hflag | hcount | ⟨hnone, -⟩
          · refine hgrow _ _ (h.listed _ _ old ⟨hold, Or.inl ?_⟩)
            rw [hb]
            simpa using hflag
          · exact hgrow _ _ (h.listed _ _ old ⟨hold, Or.inr hcount⟩)
          · cases b with
            | true => exact hgrow _ _ (h.listed _ _ old ⟨hold, Or.inl hb⟩)
            | false =>
                obtain ⟨hname, hop⟩ := hstored old hb hnone hold
                have helement : old.element = r.element := by
                  simp [ActiveRecord.element, hop, (h.placed _ _ old hold).1]
                rw [helement, hname]
                exact hself
    · rw [if_neg hct] at hr'
      refine hgrow _ _ (h.listed c t r' ⟨hr', ?_⟩)
      rcases hcount with hflag | hcount | ⟨-, ht, hc⟩
      · left
        by_cases hc : getComponentName osdConfig r.objectName = c
        · obtain ⟨b, hb⟩ := flagAt_isSome_of_recordAt hr'
          rw [if_pos hc, hc, hb] at hflag
          rw [hb]
          simpa using hflag
        · rwa [if_neg hc] at hflag
      · exact Or.inr hcount
      · exact absurd ⟨hc, ht⟩ hct
  · rw [hlists]
    by_cases hn : r.objectName = n
    · rw [if_pos hn]
      exact (h.compatible _).concat hmode hpass
    · rw [if_neg hn]
      exact h.compatible n

/-- Listing one more compatible element changes no holder. -/
theorem Guarded.push (h : Guarded osdConfig s) {n : String} {e : TransactionIdElement}
    (hmode : SharedOrExclusive e.operation)
    (hpass : ∀ x ∈ elementsAt s.nameMap n, ¬ Conflicting x e)
    (hnames : s'.nameMap = pushElement s.nameMap n e) (hmem : s'.memMap = s.memMap)
    (hcomp : s'.compMap = s.compMap) : Guarded osdConfig s' := by
  refine ⟨hmem ▸ h.placed, ?_, by rw [hmem, hcomp]; exact h.stored, fun c t r hactive => ?_,
    fun n' => ?_⟩
  · rw [hnames]
    exact listsNonempty_pushElement h.nonempty _ _
  · have hold := h.listed c t r (by rwa [Active, hmem, hcomp] at hactive)
    rw [hnames, elementsAt_pushElement]
    by_cases hn : n = r.objectName
    · subst hn
      simp [hold]
    · simpa [hn] using hold
  · rw [hnames, elementsAt_pushElement]
    by_cases hn : n = n'
    · rw [if_pos hn]
      exact (h.compatible _).concat hmode hpass
    · rw [if_neg hn]
      exact h.compatible n'

theorem Guarded.acquire (h : Guarded osdConfig s) {record : ActiveRecord}
    (hmode : SharedOrExclusive record.operation) :
    ∃ s', s.step osdConfig (.acquire record) = some s' ∧ Guarded osdConfig s' := by
  simp only [step, acquireTransactionLock_eq h.nonempty, Option.map_some, Option.some.injEq,
    exists_eq_left']
  by_cases hfront : s.frontRejects record = true
  · rw [if_pos hfront]
    exact h
  · rw [if_neg hfront]
    have hpass : ∀ x ∈ elementsAt s.nameMap record.objectName,
        ¬ Conflicting x (s.withGrantedId record).element := by
      unfold frontRejects at hfront
      cases hl : elementsAt s.nameMap record.objectName with
      | nil => simp
      | cons front rest =>
          rw [hl, Bool.not_eq_true] at hfront
          exact (hl ▸ h.compatible record.objectName).of_front hmode hfront
    cases hold : recordAt s.memMap (getComponentName osdConfig record.objectName)
        (s.grantedId record) with
    | some stored =>
        obtain ⟨-, hmem, hcomp⟩ := grant_of_stored hold
        exact h.push hmode hpass (grant_nameMap s record) hmem hcomp
    | none =>
        obtain ⟨-, hmem, hcomp⟩ := grant_of_new hold
        refine h.enroll (r := s.withGrantedId record) hmode hpass (fun r' _ _ hr' => ?_)
          (grant_nameMap s record) hmem hcomp
        rw [withGrantedId_objectName, withGrantedId_transactionId, hold] at hr'
        exact absurd hr' (by simp)

theorem Guarded.release (h : Guarded osdConfig s) (t : Int) :
    ∃ s', s.step osdConfig (.release t) = some s' ∧ Guarded osdConfig s' := by
  cases hfind : s.findRecord? t with
  | none => exact ⟨s, by simp [step, releaseLockById_of_missing hfind], h⟩
  | some found =>
      obtain ⟨c, r⟩ := found
      obtain ⟨hcomp, hr⟩ := findRecord?_eq_some.mp hfind
      have hlisted := h.listed c t r ⟨hr, Or.inr hcomp⟩
      cases hname : s.nameMap[r.objectName]? with
      | none => simp [elementsAt, hname] at hlisted
      | some elements =>
          have hlists := elementsAt_eraseElement hname t
          have hsub : ∀ n, ∀ x ∈ elementsAt (eraseElement s.nameMap r.objectName elements t) n,
              x ∈ elementsAt s.nameMap n := by
            intro n x hx
            rw [hlists] at hx
            by_cases hn : r.objectName = n
            · subst hn
              rw [if_pos rfl] at hx
              simpa [elementsAt, hname] using List.mem_of_mem_eraseP hx
            · rwa [if_neg hn] at hx
          refine ⟨_, by rw [step, releaseLockById_of_found hcomp hr hname]; rfl,
            placed_eraseRecord h.placed c t, listsNonempty_eraseElement h.nonempty _ _ _,
            fun t' c' hc' => ?_, fun c' t' r' hactive => ?_,
            fun n => (h.compatible n).of_subset (hsub n)⟩
          · rw [getElem?_erase_eq] at hc'
            by_cases ht : t = t'
            · simp [ht] at hc'
            · rw [if_neg ht] at hc'
              rw [recordAt_eraseRecord, if_neg fun hct => ht hct.2]
              exact h.stored t' c' hc'
          · obtain ⟨hr', hcount⟩ := hactive
            have hflag := flagAt_eraseRecord_of_recordAt hr'
            rw [recordAt_eraseRecord] at hr'
            by_cases hct : c = c' ∧ t = t'
            · simp [hct] at hr'
            · rw [if_neg hct] at hr'
              have hold : r'.element ∈ elementsAt s.nameMap r'.objectName := by
                refine h.listed c' t' r' ⟨hr', ?_⟩
                rcases hcount with hf | hreg
                · exact Or.inl (hflag.symm.trans hf)
                · right
                  rw [getElem?_erase_eq] at hreg
                  by_cases ht : t = t'
                  · simp [ht] at hreg
                  · rwa [if_neg ht] at hreg
              change r'.element ∈ elementsAt (eraseElement _ _ _ _) _
              rw [hlists]
              by_cases hn : r.objectName = r'.objectName
              · have hc : c = c' := by
                  rw [← (h.placed c t r hr).2, ← (h.placed c' t' r' hr').2, hn]
                have ht : r'.element.transactionId ≠ t := by
                  intro heq
                  exact hct ⟨hc, heq.symm.trans (h.placed c' t' r' hr').1⟩
                rw [if_pos hn, List.mem_eraseP_of_neg (by simpa using ht)]
                simpa [elementsAt, hname, ← hn] using hold
              · rw [if_neg hn]
                exact hold

/-- An operation that drops places is safe when every holder of a name that it clears is dropped. -/
theorem Guarded.drop {removed : Int → Int → Prop} (h : Guarded osdConfig s)
    (hdrop : Drops removed s s')
    (hnames : ∀ c t r c' t' r', removed c t → recordAt s.memMap c t = some r →
      s.Active c' t' r' → r'.objectName = r.objectName → removed c' t') :
    Guarded osdConfig s' := by
  have hlists : ∀ n, ∀ x ∈ elementsAt s'.nameMap n, x ∈ elementsAt s.nameMap n := by
    intro n x hx
    by_cases hgone : ∃ c t r, removed c t ∧ recordAt s.memMap c t = some r ∧ r.objectName = n
    · obtain ⟨c, t, r, hc, hr, rfl⟩ := hgone
      simp [hdrop.names_removed hc hr] at hx
    · rwa [hdrop.names_kept fun c t r hc hr hname => hgone ⟨c, t, r, hc, hr, hname⟩] at hx
  refine ⟨fun c t r hr => h.placed c t r (hdrop.record_of hr), hdrop.nonempty h.nonempty,
    fun t c hc => ?_, fun c t r hactive => ?_, fun n => (h.compatible n).of_subset (hlists n)⟩
  · obtain ⟨hold, hnone⟩ := hdrop.comp_of hc
    obtain ⟨r, hr⟩ := h.stored t c hold
    have hkept : ¬ removed c t := fun hgone => by simp [hnone c hgone] at hr
    exact ⟨r, (hdrop.record_kept hkept).trans hr⟩
  · obtain ⟨hr', hcount⟩ := hactive
    have hr := hdrop.record_of hr'
    have hkept : s.Active c t r ∧ ¬ removed c t := by
      rcases hcount with hflag | hreg
      · have howned : ownedAt s'.memMap c t = some r := ownedAt_eq_some.mpr ⟨hflag, hr'⟩
        have hgone : ¬ removed c t := fun hgone => by
          simp [hdrop.owned_removed hgone] at howned
        rw [hdrop.owned_kept hgone] at howned
        exact ⟨⟨hr, Or.inl (ownedAt_eq_some.mp howned).1⟩, hgone⟩
      · obtain ⟨hold, hnone⟩ := hdrop.comp_of hreg
        exact ⟨⟨hr, Or.inr hold⟩, fun hgone => by simp [hnone c hgone] at hr⟩
    rw [hdrop.names_kept]
    · exact h.listed c t r hkept.1
    · intro c' t' r' hc' hr'' hname
      exact hkept.2 (hnames c' t' r' c t r hc' hr'' hkept.1 hname.symm)

theorem Guarded.removeBulkDelete (h : Guarded osdConfig s) {ids : List Int}
    (hsafe : s.TakeoverSafe osdConfig (.removeBulkDelete ids)) :
    Guarded osdConfig (s.removeBulkDeleteEntry ids) := by
  refine h.drop (removeBulkDeleteEntry_drops s ids) ?_
  rintro c t r c' t' r' ⟨ht, hreg⟩ hr hactive hname
  obtain rfl := h.placed.same_component hr hactive.1 hname
  exact hsafe t ht c' r hreg hr t' r' hactive hname

theorem Guarded.markUnknown (h : Guarded osdConfig s) (components : List Int) :
    Guarded osdConfig (s.markUnknownMemory components) := by
  refine h.drop (markUnknownMemory_drops s components) ?_
  intro c t r c' t' r' hc hr hactive hname
  rwa [h.placed.same_component hr hactive.1 hname]

theorem Guarded.extractComponents (h : Guarded osdConfig s) (components : List Int) :
    Guarded osdConfig (s.getComponentTransactionMap components).2 := by
  refine h.drop (getComponentTransactionMap_drops h.placed.keyedById components) ?_
  intro c t r c' t' r' hc hr hactive hname
  rwa [h.placed.same_component hr hactive.1 hname]

theorem Guarded.addOwned (h : Guarded osdConfig s) {entries : List ActiveRecord}
    (hsafe : s.TakeoverSafe osdConfig (.addRecords entries true)) :
    Guarded osdConfig (s.addRecordsInMemory osdConfig entries true) := by
  unfold addRecordsInMemory
  induction entries generalizing s with
  | nil => exact h
  | cons r entries ih =>
      obtain ⟨hpairs, hentries⟩ := hsafe
      obtain ⟨hmode, hpass, hstored⟩ := hentries r List.mem_cons_self
      have hfirst : Guarded osdConfig (addRecord osdConfig true s r) :=
        h.enroll hmode hpass hstored rfl rfl rfl
      refine ih hfirst ⟨fun e he e' he' => hpairs e (List.mem_cons_of_mem _ he) e'
        (List.mem_cons_of_mem _ he'), fun r' hr' => ?_⟩
      obtain ⟨hmode', hpass', hstored'⟩ := hentries r' (List.mem_cons_of_mem _ hr')
      refine ⟨hmode', fun x hx => ?_, fun old hflag hnone hold => ?_⟩
      · simp only [addRecord, if_true, elementsAt_pushElement] at hx
        by_cases hn : r.objectName = r'.objectName
        · rw [if_pos hn, hn] at hx
          rcases List.mem_append.mp hx with hx | hx
          · exact hpass' x hx
          · rw [List.mem_singleton.mp hx]
            exact hpairs r List.mem_cons_self r' (List.mem_cons_of_mem _ hr') hn
        · rw [if_neg hn] at hx
          exact hpass' x hx
      · simp only [addRecord, if_true, flagAt_insertRecord, recordAt_insertRecord] at hflag hold
        have hreg : s.compMap[r'.transactionId]? = none ∧
            r.transactionId ≠ r'.transactionId := by
          simp only [addRecord, if_true, getElem?_insertIfNew_eq] at hnone
          by_cases ht : r.transactionId = r'.transactionId
          · simp [ht] at hnone
          · exact ⟨by simpa [ht] using hnone, ht⟩
        rw [if_neg fun hct => hreg.2 hct.2] at hold
        refine hstored' old ?_ hreg.1 hold
        by_cases hc : getComponentName osdConfig r.objectName =
            getComponentName osdConfig r'.objectName
        · obtain ⟨b, hb⟩ := flagAt_isSome_of_recordAt hold
          rw [if_pos hc, hc, hb] at hflag
          rw [hb]
          simpa using hflag
        · rwa [if_neg hc] at hflag

theorem Guarded.addUnowned (h : Guarded osdConfig s) {entries : List ActiveRecord}
    (hsafe : s.TakeoverSafe osdConfig (.addRecords entries false)) :
    Guarded osdConfig (s.addRecordsInMemory osdConfig entries false) := by
  unfold addRecordsInMemory
  induction entries generalizing s with
  | nil => exact h
  | cons r entries ih =>
      have hr := hsafe r List.mem_cons_self
      have hflag : ∀ c, flagAt (addRecord osdConfig false s r).memMap c = some true →
          flagAt s.memMap c = some true := by
        intro c hc
        simp only [addRecord, Bool.false_eq_true, if_false, flagAt_insertRecord] at hc
        by_cases hcc : getComponentName osdConfig r.objectName = c
        · rw [if_pos hcc, hcc] at hc
          cases hf : flagAt s.memMap c with
          | none => simp [hf] at hc
          | some b => simpa [hf] using hc
        · rwa [if_neg hcc] at hc
      have hkept : ∀ c t r', recordAt s.memMap c t = some r' →
          recordAt (addRecord osdConfig false s r).memMap c t = some r' := by
        intro c t r' hr'
        simp only [addRecord, Bool.false_eq_true, if_false, recordAt_insertRecord]
        by_cases hct : getComponentName osdConfig r.objectName = c ∧ r.transactionId = t
        · rw [if_pos hct, hct.1, hr']
          rfl
        · rw [if_neg hct, hr']
      have hfirst : Guarded osdConfig (addRecord osdConfig false s r) := by
        refine ⟨placed_insertRecord h.placed r false, h.nonempty, fun t c hc => ?_,
          fun c t r' hactive => h.listed c t r' ?_, h.compatible⟩
        · obtain ⟨r', hr'⟩ := h.stored t c hc
          exact ⟨r', hkept c t r' hr'⟩
        · obtain ⟨hr', hcount⟩ := hactive
          have hcount' : flagAt s.memMap c = some true ∨ s.compMap[t]? = some c :=
            hcount.imp (hflag c) fun hreg => hreg
          refine ⟨?_, hcount'⟩
          have hstored : ∃ old, recordAt s.memMap c t = some old := by
            cases hold : recordAt s.memMap c t with
            | some old => exact ⟨old, rfl⟩
            | none =>
                rcases hcount' with hf | hreg
                · simp only [addRecord, Bool.false_eq_true, if_false,
                    recordAt_insertRecord] at hr'
                  by_cases hct : getComponentName osdConfig r.objectName = c ∧
                      r.transactionId = t
                  · obtain ⟨rfl, rfl⟩ := hct
                    obtain ⟨old, hold'⟩ := hr hf
                    simp [hold] at hold'
                  · simp [hct, hold] at hr'
                · simpa [hold] using h.stored t c hreg
          obtain ⟨old, hold⟩ := hstored
          rw [hold, ← hr', hkept c t old hold]
      refine ih hfirst fun r' hr' hf => ?_
      obtain ⟨old, hold⟩ := hsafe r' (List.mem_cons_of_mem _ hr') (hflag _ hf)
      exact ⟨old, hkept _ _ _ hold⟩

/-- Recovered entries that conflict neither with what is listed nor with each other end up listed,
in lists that stay compatible. -/
private theorem commitEntries_lists (entries : List (Int × ActiveRecord))
    (hnonempty : ListsNonempty s.nameMap) (hlists : ∀ n, Compatible (elementsAt s.nameMap n))
    (hmodes : ∀ e ∈ entries, SharedOrExclusive e.2.operation)
    (hpass : ∀ e ∈ entries, ∀ x ∈ elementsAt s.nameMap e.2.objectName,
      ¬ Conflicting x e.2.element)
    (hpairs : ∀ e ∈ entries, ∀ e' ∈ entries, e.2.objectName = e'.2.objectName →
      ¬ Conflicting e.2.element e'.2.element) :
    ListsNonempty (s.commitEntries entries).nameMap ∧
      (∀ n, Compatible (elementsAt (s.commitEntries entries).nameMap n)) ∧
      (∀ n, ∀ x ∈ elementsAt s.nameMap n,
        x ∈ elementsAt (s.commitEntries entries).nameMap n) ∧
      ∀ e ∈ entries, e.2.element ∈ elementsAt (s.commitEntries entries).nameMap
        e.2.objectName := by
  induction entries generalizing s with
  | nil => exact ⟨hnonempty, hlists, fun n x hx => hx, by simp⟩
  | cons e entries ih =>
      have hmode := hmodes e List.mem_cons_self
      have hcompatible := (hlists e.2.objectName).concat hmode (hpass e List.mem_cons_self)
      -- an element with the entry's id is the entry's element, so skipping it loses nothing
      have hpushed : ∃ l, (∀ n, elementsAt (commitRecord e.1 s e.2).nameMap n =
          if e.2.objectName = n then l else elementsAt s.nameMap n) ∧
          (∀ x ∈ l, x ∈ elementsAt s.nameMap e.2.objectName ++ [e.2.element]) ∧
          (∀ x ∈ elementsAt s.nameMap e.2.objectName ++ [e.2.element], x ∈ l) := by
        refine ⟨_, fun n => elementsAt_pushRecovered hnonempty _ _ n, ?_, ?_⟩
        · intro x hx
          split at hx
          · exact List.mem_append.mpr (Or.inl hx)
          · exact hx
        · intro x hx
          split
          · rename_i hany
            obtain ⟨y, hy, hid⟩ := List.any_eq_true.mp hany
            have hye := eq_of_not_conflicting (hpass e List.mem_cons_self y hy)
              ((hlists _).modes y hy) hmode (by simpa using hid)
            rcases List.mem_append.mp hx with hx | hx
            · exact hx
            · rw [List.mem_singleton.mp hx, ← hye]
              exact hy
          · exact hx
      obtain ⟨l, hl, hsub, hsup⟩ := hpushed
      have hgrow : ∀ n, ∀ x ∈ elementsAt s.nameMap n,
          x ∈ elementsAt (commitRecord e.1 s e.2).nameMap n := by
        intro n x hx
        rw [hl]
        by_cases hn : e.2.objectName = n
        · subst hn
          rw [if_pos rfl]
          exact hsup x (List.mem_append.mpr (Or.inl hx))
        · rwa [if_neg hn]
      obtain ⟨hnonempty', hlists', hgrow', hlisted'⟩ := ih (s := commitRecord e.1 s e.2)
        (listsNonempty_pushRecovered hnonempty _ _)
        (fun n => by
          rw [hl]
          by_cases hn : e.2.objectName = n
          · rw [if_pos hn]
            exact hcompatible.of_subset hsub
          · rw [if_neg hn]
            exact hlists n)
        (fun e' he' => hmodes e' (List.mem_cons_of_mem _ he'))
        (fun e' he' x hx => by
          rw [hl] at hx
          by_cases hn : e.2.objectName = e'.2.objectName
          · rw [if_pos hn] at hx
            rcases List.mem_append.mp (hsub x hx) with hx | hx
            · exact hpass e' (List.mem_cons_of_mem _ he') x (hn ▸ hx)
            · rw [List.mem_singleton.mp hx]
              exact hpairs e List.mem_cons_self e' (List.mem_cons_of_mem _ he') hn
          · rw [if_neg hn] at hx
            exact hpass e' (List.mem_cons_of_mem _ he') x hx)
        (fun e' he' e'' he'' => hpairs e' (List.mem_cons_of_mem _ he') e''
          (List.mem_cons_of_mem _ he''))
      refine ⟨hnonempty', hlists', fun n x hx => hgrow' n x (hgrow n x hx), fun e' he' => ?_⟩
      rcases List.mem_cons.mp he' with rfl | he'
      · apply hgrow'
        rw [hl, if_pos rfl]
        exact hsup _ (List.mem_append.mpr (Or.inr (List.mem_singleton.mpr rfl)))
      · exact hlisted' e' he'

theorem Guarded.commitRecovered (h : Guarded osdConfig s) {components : List Int}
    {changed : Bool} (hsafe : s.TakeoverSafe osdConfig (.commitRecovered components changed)) :
    ∃ s', s.step osdConfig (.commitRecovered components changed) = some s' ∧
      Guarded osdConfig s' := by
  obtain ⟨hall, hrecords⟩ := hsafe
  refine ⟨_, commitRecoveredData_eq hall, ?_⟩
  have hentry : ∀ e ∈ recoveredEntries components s.memMap, e.1 ∈ components ∧
      flagAt s.memMap e.1 = some false ∧
        recordAt s.memMap e.1 e.2.transactionId = some e.2 := by
    rintro ⟨c, r⟩ he
    obtain ⟨hc, hf, t, hr⟩ := mem_recoveredEntries.mp he
    have ht := (h.placed c t r hr).1
    subst ht
    exact ⟨hc, hf, hr⟩
  obtain ⟨hnonempty, hlists, hgrow, hlisted⟩ := commitEntries_lists
    (recoveredEntries components s.memMap) h.nonempty h.compatible
    (fun e he => by
      obtain ⟨hc, hf, hr⟩ := hentry e he
      exact (hrecords e.1 hc hf _ e.2 hr).1)
    (fun e he => by
      obtain ⟨hc, hf, hr⟩ := hentry e he
      exact (hrecords e.1 hc hf _ e.2 hr).2.1)
    (fun e he e' he' hname => by
      obtain ⟨-, -, hr⟩ := hentry e he
      obtain ⟨hc', hf', hr'⟩ := hentry e' he'
      have hcc := h.placed.same_component hr' hr hname
      exact (hrecords e'.1 hc' hf' _ e'.2 hr').2.2 _ e.2 (hcc ▸ hr) hname)
  refine ⟨fun c t r hr => h.placed c t r (by rwa [recordAt_ownComponents] at hr), hnonempty,
    fun t c hc => ?_, fun c t r hactive => ?_, hlists⟩
  · rw [recordAt_ownComponents]
    rcases commitEntries_compMap hc with hold | ⟨r, he, rfl⟩
    · exact h.stored t c hold
    · exact ⟨r, (hentry (c, r) he).2.2⟩
  · obtain ⟨hr, hcount⟩ := hactive
    rw [recordAt_ownComponents] at hr
    have hkey := (h.placed c t r hr).1
    rcases hcount with hflag | hreg
    · rw [flagAt_ownComponents] at hflag
      cases hf : flagAt s.memMap c with
      | none => simp [hf] at hflag
      | some b =>
          cases b with
          | true => exact hgrow _ _ (h.listed c t r ⟨hr, Or.inl hf⟩)
          | false =>
              have hc : c ∈ components := by simpa [hf] using hflag
              exact hlisted (c, r) (mem_recoveredEntries.mpr ⟨hc, hf, t, hr⟩)
    · rcases commitEntries_compMap hreg with hold | ⟨r', he, ht⟩
      · exact hgrow _ _ (h.listed c t r ⟨hr, Or.inr hold⟩)
      · have hr' := (hentry (c, r') he).2.2
        rw [ht, hr] at hr'
        obtain rfl := Option.some.inj hr'
        exact hlisted (c, r) he

/-- A safe step is defined and keeps every holder guarded by the list of its name. -/
theorem Guarded.step (h : Guarded osdConfig s) {op : Operation}
    (hsafe : s.TakeoverSafe osdConfig op) :
    ∃ s', s.step osdConfig op = some s' ∧ Guarded osdConfig s' := by
  cases op with
  | acquire record => exact h.acquire hsafe
  | release t => exact h.release t
  | removeBulkDelete ids => exact ⟨_, rfl, h.removeBulkDelete hsafe⟩
  | addRecords entries flag =>
      cases flag with
      | true => exact ⟨_, rfl, h.addOwned hsafe⟩
      | false => exact ⟨_, rfl, h.addUnowned hsafe⟩
  | markUnknown components => exact ⟨_, rfl, h.markUnknown components⟩
  | commitRecovered components changed => exact h.commitRecovered hsafe
  | extractComponents components => exact ⟨_, rfl, h.extractComponents components⟩

/-- In every run of safe steps from the empty manager mutual exclusion holds. -/
theorem safeRun_mutually_exclusive (osdConfig : Bool) (nodeId : Nat) (ops : List Operation)
    (hops : Along (TransactionLockManager.step osdConfig) (TakeoverSafe osdConfig)
      (init nodeId) ops) :
    ∃ s, run (TransactionLockManager.step osdConfig) (init nodeId) ops = some s ∧
      s.MutuallyExclusive := by
  obtain ⟨s, hs, hinv⟩ := run_invariant (TransactionLockManager.step osdConfig)
    (I := Guarded osdConfig) (fun _ _ hI hsafe => hI.step hsafe) (guarded_init nodeId) hops
  exact ⟨s, hs, hinv.mutuallyExclusive⟩

/-- A `PUT` lock on an object of component 26. -/
def writeRequest (transactionId : Int) : ActiveRecord :=
  ⟨LockType.write.code, "1a/b", "PUT", "obj", transactionId, 0⟩

theorem safeRun_mutually_exclusive_writes :
    ∃ s, run (TransactionLockManager.step false) (init 1)
      [.acquire (writeRequest 0), .acquire (writeRequest 0), .release (getUniqueId 1 0 + 1)] =
        some s ∧ s.MutuallyExclusive := by
  apply safeRun_mutually_exclusive
  exact ⟨Or.inr rfl, fun _ _ => ⟨Or.inr rfl, fun _ _ => ⟨trivial, fun _ _ => trivial⟩⟩⟩

/-- A recovered `WRITE` lock is stored in a component that is not owned yet, a client acquires the
same name, and the commit of the component makes both of them holders. -/
theorem commitRecovered_two_writers :
    ∃ s, run (TransactionLockManager.step false) (init 1)
      [.addRecords [writeRequest 5] false, .acquire (writeRequest 0),
        .commitRecovered [26] false] = some s ∧ ¬ s.MutuallyExclusive := by
  refine ⟨_, rfl, fun hexclusive => ?_⟩
  have hpair := hexclusive 26 5 (writeRequest 5) 26 (getUniqueId 1 0 + 1)
    (writeRequest (getUniqueId 1 0 + 1)) (by decide) (by decide) rfl rfl (by decide)
  exact hpair.2 rfl

end TransactionLockManager

end ObjectStorage.Transaction
