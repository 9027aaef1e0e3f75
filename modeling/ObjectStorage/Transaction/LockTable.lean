import ObjectStorage.Library.SnapshotReplay
import ObjectStorage.Transaction.LockGrants

/-!
The lock manager as a table of shared and exclusive locks: which table a state of the manager stands
for, and that acquire and release act on it as the table's own operations do.
-/

namespace ObjectStorage.Transaction

open Std Library SharedExclusive

/-- The operation code of a mode. -/
def modeCode : Mode → Int
  | .shared => LockType.read.code
  | .exclusive => LockType.write.code

theorem modeCode_injective {m m' : Mode} (h : modeCode m = modeCode m') : m = m' := by
  cases m <;> cases m' <;> simp_all [modeCode, LockType.code]

/-- The lock that a record asks for or holds. -/
def ActiveRecord.StandsFor (r : ActiveRecord) (l : Lock String) : Prop :=
  r.objectName = l.name ∧ r.operation = modeCode l.mode

/-- The table lists the element under the name. -/
def lists (L : Table Int String) (n : String) (e : TransactionIdElement) : Bool :=
  match L.lookup e.transactionId with
  | some l => l.name == n && modeCode l.mode == e.operation
  | none => false

theorem lists_iff {L : Table Int String} {n : String} {e : TransactionIdElement} :
    lists L n e = true ↔ ∃ l, L.lookup e.transactionId = some l ∧ l.name = n ∧
      modeCode l.mode = e.operation := by
  unfold lists
  cases L.lookup e.transactionId <;> simp

namespace TransactionLockManager

/-- The largest number of locks at which another one is still granted. -/
def capacity : ℕ := 1000000

/-- The state stands for the locks held, all of them in owned components, with second entries in the
name index for the locks in `extra`. -/
structure Represents (osdConfig : Bool) (s : TransactionLockManager)
    (R : Replayed Int String) : Prop where
  owned : ∀ c b, flagAt s.memMap c = some b → b = true
  stored : ∀ c t r, recordAt s.memMap c t = some r →
    r.transactionId = t ∧ getComponentName osdConfig r.objectName = c ∧
      ∃ l, R.held.lookup t = some l ∧ r.StandsFor l
  present : ∀ t l, R.held.lookup t = some l →
    ∃ r, recordAt s.memMap (getComponentName osdConfig l.name) t = some r
  registered : ∀ t, s.compMap[t]? =
    (R.held.lookup t).map fun l => getComponentName osdConfig l.name
  nonempty : ListsNonempty s.nameMap
  listed : ∀ n e, ∃ m, (elementsAt s.nameMap n).count e = (lists R.held n e).toNat + m ∧
    (0 < m ↔ lists R.extra n e = true)
  uniform : R.Uniform

variable {osdConfig : Bool} {s s' : TransactionLockManager} {R : Replayed Int String}

theorem represents_init (nodeId : Nat) : Represents osdConfig (init nodeId) Replayed.start where
  owned c b h := by simp [init, flagAt] at h
  stored c t r h := by simp [init, recordAt] at h
  present t l h := by simp [Replayed.start] at h
  registered t := by simp [init, Replayed.start]
  nonempty n := by simp [init]
  listed n e := ⟨0, by simp [init, elementsAt, lists, Replayed.start],
    by simp [lists, Replayed.start]⟩
  uniform := Replayed.uniform_start

theorem Represents.mem_elementsAt (h : Represents osdConfig s R) {n : String}
    {e : TransactionIdElement} : e ∈ elementsAt s.nameMap n ↔
      ∃ l, R.Entry e.transactionId l ∧ l.name = n ∧ modeCode l.mode = e.operation := by
  obtain ⟨m, hcount, hm⟩ := h.listed n e
  rw [← List.count_pos_iff, hcount]
  constructor
  · intro hpos
    by_cases hheld : lists R.held n e = true
    · obtain ⟨l, hl, hname⟩ := lists_iff.mp hheld
      exact ⟨l, Or.inl hl, hname⟩
    · obtain ⟨l, hl, hname⟩ := lists_iff.mp (hm.mp (by simp_all))
      exact ⟨l, Or.inr hl, hname⟩
  · rintro ⟨l, hl | hl, hname⟩
    · have hheld : lists R.held n e = true := lists_iff.mpr ⟨l, hl, hname⟩
      rw [hheld, Bool.toNat_true]
      omega
    · have hextra := hm.mpr (lists_iff.mpr ⟨l, hl, hname⟩)
      omega

/-- The size of `comp_map` is the number of locks held. -/
theorem Represents.size_compMap (h : Represents osdConfig s R) :
    s.compMap.size = R.held.keys.card := by
  have hnodup : s.compMap.keys.Nodup :=
    s.compMap.distinct_keys.imp fun hne heq => hne (LawfulEqCmp.compare_eq_iff_eq.mpr heq)
  have hkeys : s.compMap.keys.toFinset = R.held.keys := by
    ext t
    rw [List.mem_toFinset, TreeMap.mem_keys, mem_iff_exists_getElem?, h.registered,
      Finmap.mem_keys, Finmap.mem_iff]
    simp
  rw [← hkeys, List.toFinset_card_of_nodup hnodup, TreeMap.length_keys]

theorem Represents.isFull_iff (h : Represents osdConfig s R) :
    s.isFull = true ↔ capacity < R.held.keys.card := by
  simp [isFull, h.size_compMap, capacity]

theorem rejects_modeCode (m m' : Mode) :
    rejects (modeCode m) (modeCode m') = true ↔ m = .exclusive ∨ m' = .exclusive := by
  cases m <;> cases m' <;> decide

/-- The front of a name's list turns down exactly the requests that an entry conflicts with. -/
theorem Represents.frontRejects_iff (h : Represents osdConfig s R) {record : ActiveRecord}
    {l : Lock String} (hl : record.StandsFor l) : s.frontRejects record = true ↔ R.Blocked l := by
  obtain ⟨hname, hop⟩ := hl
  unfold frontRejects
  cases hlist : elementsAt s.nameMap record.objectName with
  | nil =>
      simp only [Bool.false_eq_true, false_iff]
      rintro ⟨t, k, hk, hconf⟩
      have hmem : (⟨t, modeCode k.mode⟩ : TransactionIdElement) ∈
          elementsAt s.nameMap record.objectName :=
        h.mem_elementsAt.mpr ⟨k, hk, hconf.1.trans hname.symm, rfl⟩
      simp [hlist] at hmem
  | cons front rest =>
      obtain ⟨f, hf, hfname, hfop⟩ := h.mem_elementsAt.mp
        (hlist ▸ List.mem_cons_self : front ∈ elementsAt s.nameMap record.objectName)
      have hflname : f.name = l.name := hfname.trans hname
      simp only [← hfop, hop, rejects_modeCode]
      constructor
      · intro hmodes
        exact ⟨front.transactionId, f, hf, hflname, hmodes⟩
      · rintro ⟨t, k, hk, hconf⟩
        rcases hconf.2 with hkm | hlm
        · rcases h.uniform _ _ _ _ hf hk with ⟨-, rfl⟩ | hnot
          · exact Or.inl hkm
          · exact absurd ⟨hflname.trans hconf.1.symm, Or.inr hkm⟩ hnot
        · exact Or.inr hlm

/-- What the name index lists after one more element, as a fact about tables. -/
theorem count_pushElement {n n' : String} {x e : TransactionIdElement} :
    (elementsAt (pushElement s.nameMap n x) n').count e =
      (elementsAt s.nameMap n').count e + if n = n' ∧ x = e then 1 else 0 := by
  rw [elementsAt_pushElement]
  by_cases hn : n = n'
  · subst hn
    by_cases hx : x = e
    · simp [hx]
    · simp [hx]
  · simp [hn]

theorem lists_insert {L : Table Int String} {t : Int} {l : Lock String}
    (hold : ∀ k, L.lookup t = some k → k = l) (n : String) (e : TransactionIdElement) :
    lists (L.insert t l) n e = true ↔
      lists L n e = true ∨
        (l.name = n ∧ (⟨t, modeCode l.mode⟩ : TransactionIdElement) = e) := by
  rw [lists_iff, lists_iff]
  by_cases ht : t = e.transactionId
  · subst ht
    constructor
    · rintro ⟨k, hk, hname, hop⟩
      rw [lookup_insert_eq, if_pos rfl] at hk
      obtain rfl := Option.some.inj hk
      exact Or.inr ⟨hname, by cases e; simp_all⟩
    · rintro (⟨k, hk, hname, hop⟩ | ⟨hname, heq⟩)
      · rw [hold k hk] at hname hop
        exact ⟨l, by simp, hname, hop⟩
      · exact ⟨l, by simp, hname, congrArg (·.operation) heq⟩
  · have hne : (⟨t, modeCode l.mode⟩ : TransactionIdElement) ≠ e := fun heq =>
      ht (congrArg (·.transactionId) heq)
    simp [ht, hne]

theorem Represents.acquire_new (h : Represents osdConfig s R) {record : ActiveRecord}
    {l : Lock String} (hl : record.StandsFor l) (hroom : R.held.keys.card ≤ capacity)
    (hfree : ¬ R.Blocked l) (hnew : R.held.lookup (s.grantedId record) = none) :
    ∃ s', s.acquireLock osdConfig record = some (s.grantedId record, s') ∧
      Represents osdConfig s' ⟨R.held.insert (s.grantedId record) l, R.extra⟩ ∧
      s'.id = (s.setLastTransactionId (s.grantedId record)).id := by
  have hfull : ¬ s.isFull = true := fun hf => by
    have := h.isFull_iff.mp hf
    omega
  have hpass : ¬ s.frontRejects record = true := mt (h.frontRejects_iff hl).mp hfree
  have hrec : recordAt s.memMap (getComponentName osdConfig record.objectName)
      (s.grantedId record) = none := by
    cases hr : recordAt s.memMap (getComponentName osdConfig record.objectName)
        (s.grantedId record) with
    | none => rfl
    | some r =>
        obtain ⟨-, -, k, hk, -⟩ := h.stored _ _ r hr
        simp [hnew] at hk
  obtain ⟨hval, hmem, hcomp⟩ := grant_of_new hrec
  refine ⟨(s.grant osdConfig record).2, ?_, ?_, ?_⟩
  · rw [acquireLock, if_neg hfull, acquireTransactionLock_eq h.nonempty, if_neg hpass, ← hval]
  · have hc : getComponentName osdConfig l.name = getComponentName osdConfig record.objectName := by
      rw [hl.1]
    refine ⟨fun c b hb => ?_, fun c t r hr => ?_, fun t k hk => ?_, fun t => ?_, ?_, fun n e => ?_,
      h.uniform.of_entries hfree fun s k => Replayed.entry_insert_held⟩
    · rw [hmem, flagAt_insertRecord] at hb
      by_cases hcc : getComponentName osdConfig record.objectName = c
      · rw [if_pos hcc] at hb
        cases hf : flagAt s.memMap (getComponentName osdConfig record.objectName) with
        | none => simpa [hf] using hb.symm
        | some b' =>
            have hb' := h.owned _ b' hf
            simpa [hf, hb'] using hb.symm
      · rw [if_neg hcc] at hb
        exact h.owned c b hb
    · rw [hmem, recordAt_insertRecord] at hr
      by_cases hct : getComponentName osdConfig record.objectName = c ∧
          (s.withGrantedId record).transactionId = t
      · obtain ⟨rfl, rfl⟩ := hct
        rw [if_pos ⟨rfl, rfl⟩, withGrantedId_transactionId, hrec] at hr
        obtain rfl := Option.some.inj hr
        exact ⟨rfl, rfl, l, by simp, hl⟩
      · rw [if_neg hct] at hr
        obtain ⟨hid, hcomp', k, hk, hstands⟩ := h.stored c t r hr
        refine ⟨hid, hcomp', k, ?_, hstands⟩
        have hne : s.grantedId record ≠ t := by
          rintro rfl
          simp [hnew] at hk
        simpa [hne] using hk
    · rw [hmem, recordAt_insertRecord]
      rw [lookup_insert_eq] at hk
      by_cases ht : s.grantedId record = t
      · rw [if_pos ht] at hk
        obtain rfl := Option.some.inj hk
        exact ⟨_, if_pos ⟨hc.symm, ht⟩⟩
      · rw [if_neg ht] at hk
        obtain ⟨r, hr⟩ := h.present t k hk
        refine ⟨r, ?_⟩
        rw [if_neg fun hct => ht hct.2, hr]
    · rw [hcomp, getElem?_insertIfNew_eq]
      by_cases ht : s.grantedId record = t
      · have hnone : s.compMap[t]? = none := by rw [h.registered, ← ht, hnew]; rfl
        simp [ht, hnone, hc]
      · simp only [ht, if_false, lookup_insert_eq]
        exact h.registered t
    · rw [grant_nameMap]
      exact listsNonempty_pushElement h.nonempty _ _
    · obtain ⟨m, hcount, hm⟩ := h.listed n e
      refine ⟨m, ?_, hm⟩
      have hx : (s.withGrantedId record).element =
          (⟨s.grantedId record, modeCode l.mode⟩ : TransactionIdElement) := by
        simp [ActiveRecord.element, hl.2]
      rw [grant_nameMap, count_pushElement, hcount, hx, hl.1]
      have hiff := lists_insert (L := R.held) (t := s.grantedId record) (l := l)
        (fun k hk => by simp [hnew] at hk) n e
      by_cases hxe : l.name = n ∧ (⟨s.grantedId record, modeCode l.mode⟩ :
          TransactionIdElement) = e
      · have hold : lists R.held n e = false := by
          cases ho : lists R.held n e with
          | false => rfl
          | true =>
              obtain ⟨k, hk, -⟩ := lists_iff.mp ho
              rw [← hxe.2, hnew] at hk
              simp at hk
        rw [if_pos hxe, hold, hiff.mpr (Or.inr hxe)]
        simp only [Bool.toNat_false, Bool.toNat_true]
        omega
      · have hsame : lists (R.held.insert (s.grantedId record) l) n e = lists R.held n e := by
          rw [Bool.eq_iff_iff, hiff]
          exact or_iff_left hxe
        rw [if_neg hxe, hsame]
        rfl
  · unfold grant
    dsimp only
    split <;> rfl

/-- A request that is not turned down but has the id of a lock it repeats is listed once more. -/
theorem Represents.acquire_again (h : Represents osdConfig s R) {record : ActiveRecord}
    {l : Lock String} (hl : record.StandsFor l) (hroom : R.held.keys.card ≤ capacity)
    (hfree : ¬ R.Blocked l) (hheld : R.held.lookup (s.grantedId record) = some l)
    (hextra : ∀ k, R.extra.lookup (s.grantedId record) = some k → k = l) :
    ∃ s', s.acquireLock osdConfig record = some (-1, s') ∧
      Represents osdConfig s' ⟨R.held, R.extra.insert (s.grantedId record) l⟩ := by
  have hfull : ¬ s.isFull = true := fun hf => by
    have := h.isFull_iff.mp hf
    omega
  have hpass : ¬ s.frontRejects record = true := mt (h.frontRejects_iff hl).mp hfree
  obtain ⟨r, hr⟩ := h.present _ l hheld
  rw [← hl.1] at hr
  obtain ⟨hval, hmem, hcomp⟩ := grant_of_stored hr
  refine ⟨(s.grant osdConfig record).2, ?_, ?_⟩
  · rw [acquireLock, if_neg hfull, acquireTransactionLock_eq h.nonempty, if_neg hpass, ← hval]
  · refine ⟨hmem ▸ h.owned, hmem ▸ h.stored, hmem ▸ h.present, hcomp ▸ h.registered, ?_,
      fun n e => ?_, h.uniform.of_entries hfree fun s k => Replayed.entry_insert_extra⟩
    · rw [grant_nameMap]
      exact listsNonempty_pushElement h.nonempty _ _
    · obtain ⟨m, hcount, hm⟩ := h.listed n e
      have hx : (s.withGrantedId record).element =
          (⟨s.grantedId record, modeCode l.mode⟩ : TransactionIdElement) := by
        simp [ActiveRecord.element, hl.2]
      refine ⟨m + if l.name = n ∧ (⟨s.grantedId record, modeCode l.mode⟩ :
        TransactionIdElement) = e then 1 else 0, ?_, ?_⟩
      · rw [grant_nameMap, count_pushElement, hcount, hx, hl.1, Nat.add_assoc]
      · rw [lists_insert hextra, ← hm]
        split
        · rename_i hxe
          exact ⟨fun _ => Or.inr hxe, fun _ => by omega⟩
        · rename_i hxe
          rw [or_iff_left hxe]
          simp

theorem Represents.acquire_full (h : Represents osdConfig s R) (record : ActiveRecord)
    (hfull : capacity < R.held.keys.card) : s.acquireLock osdConfig record = some (-2, s) := by
  rw [acquireLock, if_pos (h.isFull_iff.mpr hfull)]

theorem Represents.acquire_blocked (h : Represents osdConfig s R) {record : ActiveRecord}
    {l : Lock String} (hl : record.StandsFor l) (hroom : R.held.keys.card ≤ capacity)
    (hblocked : R.Blocked l) : s.acquireLock osdConfig record = some (-1, s) := by
  have hfull : ¬ s.isFull = true := fun hf => by
    have := h.isFull_iff.mp hf
    omega
  rw [acquireLock, if_neg hfull, acquireTransactionLock_eq h.nonempty,
    if_pos ((h.frontRejects_iff hl).mpr hblocked)]

/-- `acquire_lock` refines the acquisition of the table. -/
theorem Represents.acquire (h : Represents osdConfig s R) {record : ActiveRecord}
    {l : Lock String} (hl : record.StandsFor l)
    (hsame : ∀ k, R.Entry (s.grantedId record) k → k = l) :
    ∃ v s', s.acquireLock osdConfig record = some (v, s') ∧
      Represents osdConfig s' (R.apply capacity (.acquired (s.grantedId record) l)) := by
  by_cases hfull : capacity < R.held.keys.card
  · rw [Replayed.apply_acquired_skipped (Or.inl hfull)]
    exact ⟨-2, s, h.acquire_full record hfull, h⟩
  · have hroom : R.held.keys.card ≤ capacity := by omega
    by_cases hblocked : R.Blocked l
    · rw [Replayed.apply_acquired_skipped (Or.inr hblocked)]
      exact ⟨-1, s, h.acquire_blocked hl hroom hblocked, h⟩
    · cases hheld : R.held.lookup (s.grantedId record) with
      | none =>
          rw [Replayed.apply_acquired_new hroom hblocked (Finmap.lookup_eq_none.mp hheld)]
          obtain ⟨s', hs', hrep, -⟩ := h.acquire_new hl hroom hblocked hheld
          exact ⟨_, s', hs', hrep⟩
      | some k =>
          rw [Replayed.apply_acquired_again hroom hblocked (Finmap.mem_of_lookup_eq_some hheld)]
          rw [hsame k (Or.inl hheld)] at hheld
          obtain ⟨s', hs', hrep⟩ := h.acquire_again hl hroom hblocked hheld
            fun k' hk' => hsame k' (Or.inr hk')
          exact ⟨-1, s', hs', hrep⟩

/-- `release_lock_by_id` refines the release of the table. -/
theorem Represents.release (h : Represents osdConfig s R) (t : Int) (l : Lock String) :
    ∃ s', s.releaseLockById t = some (decide (t ∈ R.held), s') ∧
      Represents osdConfig s' (R.apply capacity (.released t l)) ∧ s'.id = s.id := by
  rw [Replayed.apply_released]
  cases hheld : R.held.lookup t with
  | none =>
      have hnot : t ∉ R.held := Finmap.lookup_eq_none.mp hheld
      have hsame : R.held.erase t = R.held := by
        apply Finmap.ext_lookup
        intro t'
        rw [lookup_erase_eq]
        by_cases ht : t = t'
        · rw [if_pos ht, ← ht, hheld]
        · rw [if_neg ht]
      have hfind : s.findRecord? t = none := by
        have hcomp : s.compMap[t]? = none := by rw [h.registered, hheld]; rfl
        cases hf : s.findRecord? t with
        | none => rfl
        | some found =>
            have hreg := (findRecord?_eq_some.mp (show s.findRecord? t =
              some (found.1, found.2) from hf)).1
            simp [hcomp] at hreg
      refine ⟨s, ?_, ?_, rfl⟩
      · rw [releaseLockById_of_missing hfind]
        simp [hnot]
      · rw [hsame]
        exact h
  | some k =>
      have hin : t ∈ R.held := Finmap.mem_of_lookup_eq_some hheld
      obtain ⟨r, hr⟩ := h.present t k hheld
      obtain ⟨hid, -, k', hk', hstands⟩ := h.stored _ t r hr
      obtain rfl := Option.some.inj (hheld.symm.trans hk')
      have hcomp : s.compMap[t]? = some (getComponentName osdConfig k.name) := by
        rw [h.registered, hheld]
        rfl
      have hx : r.element = (⟨t, modeCode k.mode⟩ : TransactionIdElement) := by
        simp [ActiveRecord.element, hid, hstands.2]
      have hxmem : r.element ∈ elementsAt s.nameMap r.objectName :=
        h.mem_elementsAt.mpr ⟨k, Or.inl (by rw [hx]; exact hheld), hstands.1.symm, by rw [hx]⟩
      cases hname : s.nameMap[r.objectName]? with
      | none => simp [elementsAt, hname] at hxmem
      | some elements =>
          have helements : elementsAt s.nameMap r.objectName = elements := by
            simp [elementsAt, hname]
          have honly : ∀ e ∈ elements, e.transactionId = r.element.transactionId →
              e = r.element := by
            intro e he hte
            rw [hx] at hte
            rw [← helements] at he
            obtain ⟨f, hf, hfname, hfop⟩ := h.mem_elementsAt.mp he
            have hmode : f.mode = k.mode := by
              rcases h.uniform _ _ _ _ hf (Or.inl hheld) with ⟨-, rfl⟩ | hnot
              · rfl
              · obtain ⟨hf', hk'⟩ := Lock.shared_of_not_conflicts hnot (hfname.trans hstands.1)
                rw [hf', hk']
            rw [hx]
            cases e
            simp_all
          refine ⟨{ s with
            nameMap := eraseElement s.nameMap r.objectName elements t
            memMap := eraseRecord s.memMap (getComponentName osdConfig k.name) t
            compMap := s.compMap.erase t }, ?_, ⟨fun c b hb => ?_, fun c t' r' hr' => ?_,
            fun t' f hf => ?_, fun t' => ?_, listsNonempty_eraseElement h.nonempty _ _ _,
            fun n e => ?_, fun a f a' f' hf hf' => h.uniform a f a' f'
              (Replayed.entry_erase_held hf) (Replayed.entry_erase_held hf')⟩, rfl⟩
          · rw [releaseLockById_of_found hcomp hr hname]
            simp [hin]
          · simp only [eraseRecord] at hb
            cases hmem : s.memMap[getComponentName osdConfig k.name]? with
            | none =>
                rw [hmem] at hb
                exact h.owned c b hb
            | some p =>
                obtain ⟨records, owned⟩ := p
                have howned := h.owned (getComponentName osdConfig k.name) owned
                  (by simp [flagAt, hmem])
                rw [hmem] at hb
                dsimp only at hb
                split at hb
                · rw [flagAt_erase] at hb
                  split at hb
                  · simp at hb
                  · exact h.owned c b hb
                · rw [flagAt_insert] at hb
                  split at hb
                  · exact (Option.some.inj hb).symm.trans howned
                  · exact h.owned c b hb
          · rw [recordAt_eraseRecord] at hr'
            by_cases hct : getComponentName osdConfig k.name = c ∧ t = t'
            · simp [hct] at hr'
            · rw [if_neg hct] at hr'
              obtain ⟨hid', hc', f, hf, hstands'⟩ := h.stored c t' r' hr'
              refine ⟨hid', hc', f, ?_, hstands'⟩
              have hne : t ≠ t' := by
                rintro rfl
                obtain rfl := Option.some.inj (hheld.symm.trans hf)
                exact hct ⟨by rw [← hc', hstands'.1], rfl⟩
              simpa [hne] using hf
          · rw [lookup_erase_eq] at hf
            by_cases ht : t = t'
            · simp [ht] at hf
            · obtain ⟨r', hr'⟩ := h.present t' f (by simpa [ht] using hf)
              refine ⟨r', ?_⟩
              rw [recordAt_eraseRecord, if_neg fun hct => ht hct.2, hr']
          · rw [getElem?_erase_eq, lookup_erase_eq]
            by_cases ht : t = t'
            · simp [ht]
            · simp only [ht, if_false]
              exact h.registered t'
          · obtain ⟨m, hcount, hm⟩ := h.listed n e
            refine ⟨m, ?_, hm⟩
            rw [elementsAt_eraseElement hname]
            have herase : elements.eraseP (·.transactionId == t) = elements.erase r.element := by
              have hte : r.element.transactionId = t := hid
              rw [← hte]
              exact eraseP_id_eq_erase honly
            have hheldn : lists R.held n e = true ↔ (t = e.transactionId →
                (r.objectName = n ∧ e = r.element)) ∧ lists R.held n e = true := by
              constructor
              · intro hl
                refine ⟨fun hte => ?_, hl⟩
                obtain ⟨f, hf, hfname, hfop⟩ := lists_iff.mp hl
                obtain rfl := Option.some.inj (hheld.symm.trans (hte ▸ hf))
                refine ⟨hstands.1.trans hfname, ?_⟩
                rw [hx]
                cases e
                simp_all
              · exact And.right
            have herased : lists (R.held.erase t) n e =
                (lists R.held n e && !decide (t = e.transactionId)) := by
              unfold lists
              rw [lookup_erase_eq]
              by_cases hte : t = e.transactionId
              · simp [hte]
              · simp [hte]
            rw [herased]
            by_cases hn : r.objectName = n
            · subst hn
              rw [if_pos rfl, herase]
              rw [helements] at hcount
              by_cases hex : e = r.element
              · subst hex
                have hte : t = r.element.transactionId := hid.symm
                have hl : lists R.held r.objectName r.element = true :=
                  lists_iff.mpr ⟨k, hte ▸ hheld, hstands.1.symm, by rw [hx]⟩
                rw [List.count_erase_self, hcount, hl]
                simp [hte]
              · rw [List.count_erase_of_ne hex, hcount]
                by_cases hte : t = e.transactionId
                · have hl : lists R.held r.objectName e = false := by
                    cases hb : lists R.held r.objectName e with
                    | false => rfl
                    | true => exact absurd ((hheldn.mp hb).1 hte).2 hex
                  simp [hl]
                · simp [hte]
            · rw [if_neg hn, hcount]
              by_cases hte : t = e.transactionId
              · have hl : lists R.held n e = false := by
                  cases hb : lists R.held n e with
                  | false => rfl
                    | true => exact absurd ((hheldn.mp hb).1 hte).1 hn
                simp [hl]
              · simp [hte]

end TransactionLockManager

end ObjectStorage.Transaction
