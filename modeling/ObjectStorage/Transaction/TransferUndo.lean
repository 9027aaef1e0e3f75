import ObjectStorage.Transaction.BulkAcquisition
import ObjectStorage.Transaction.IndexInvariant

/-!
The locks of some components are extracted for a transfer and given back when it fails: which states
the manager comes back to.
-/

namespace ObjectStorage.Transaction

open Std Library

namespace TransactionLockManager

variable {osdConfig : Bool} {s s' : TransactionLockManager}

/-! ### States that are reached -/

/-- Every record is in the component of its name, and nothing empty is kept. -/
structure Regular (osdConfig : Bool) (s : TransactionLockManager) : Prop where
  placed : Placed osdConfig s.memMap
  nonempty : ListsNonempty s.nameMap
  inhabited : ∀ c b, flagAt s.memMap c = some b → ∃ t r, recordAt s.memMap c t = some r

/-- A memory with the records of another and no more components keeps what makes it regular. -/
theorem Regular.of_memMap (h : Regular osdConfig s) (hnames : ListsNonempty s'.nameMap)
    (hrecords : ∀ c t r, recordAt s'.memMap c t = some r → recordAt s.memMap c t = some r)
    (hflags : ∀ c b, flagAt s'.memMap c = some b → (∀ t, recordAt s'.memMap c t = none) →
      ∃ b', flagAt s.memMap c = some b' ∧ ∀ t, recordAt s.memMap c t = none) :
    Regular osdConfig s' where
  placed c t r hr := h.placed c t r (hrecords c t r hr)
  nonempty := hnames
  inhabited c b hb := by
    by_contra hnone
    simp only [not_exists] at hnone
    obtain ⟨b', hb', hempty⟩ := hflags c b hb fun t =>
      Option.eq_none_iff_forall_ne_some.mpr (hnone t)
    obtain ⟨t, r, hr⟩ := h.inhabited c b' hb'
    rw [hempty] at hr
    cases hr

theorem regular_init (nodeId : Nat) : Regular osdConfig (init nodeId) where
  placed c t r h := by simp [init, recordAt] at h
  nonempty n := by simp [init]
  inhabited c b h := by simp [init, flagAt] at h

theorem Regular.insert (h : Regular osdConfig s) (r : ActiveRecord) (flag : Bool)
    (hmem : s'.memMap =
      insertRecord s.memMap (getComponentName osdConfig r.objectName) r flag)
    (hnames : ListsNonempty s'.nameMap) : Regular osdConfig s' where
  placed := hmem ▸ placed_insertRecord h.placed r flag
  nonempty := hnames
  inhabited c b hb := by
    rw [hmem] at hb ⊢
    by_cases hc : getComponentName osdConfig r.objectName = c
    · exact ⟨r.transactionId, _, by rw [recordAt_insertRecord, if_pos ⟨hc, rfl⟩]⟩
    · rw [flagAt_insertRecord, if_neg hc] at hb
      obtain ⟨t, r', hr'⟩ := h.inhabited c b hb
      exact ⟨t, r', by rw [recordAt_insertRecord, if_neg fun hct => hc hct.1, hr']⟩

theorem Regular.acquire (h : Regular osdConfig s) {record : ActiveRecord} {r : Int}
    (hstep : s.acquireTransactionLock osdConfig record = some (r, s')) : Regular osdConfig s' := by
  rw [acquireTransactionLock_eq h.nonempty] at hstep
  split at hstep
  · obtain ⟨-, rfl⟩ := Prod.mk.inj (Option.some.inj hstep)
    exact h
  · obtain ⟨r₁, s₁, hgrant⟩ : ∃ r₁ s₁, s.grant osdConfig record = (r₁, s₁) := ⟨_, _, rfl⟩
    have hnames : s₁.nameMap = pushElement s.nameMap record.objectName
        (s.withGrantedId record).element := by
      rw [← grant_nameMap s record, hgrant]
    have hnonempty : ListsNonempty s₁.nameMap :=
      hnames ▸ listsNonempty_pushElement h.nonempty _ _
    rw [hgrant] at hstep
    obtain ⟨-, rfl⟩ := Prod.mk.inj (Option.some.inj hstep)
    cases hstored : recordAt s.memMap (getComponentName osdConfig record.objectName)
        (s.grantedId record) with
    | some stored =>
        obtain ⟨-, hmem, -⟩ := grant_of_stored hstored
        rw [hgrant] at hmem
        have hmem : s₁.memMap = s.memMap := hmem
        exact ⟨hmem ▸ h.placed, hnonempty, hmem ▸ h.inhabited⟩
    | none =>
        obtain ⟨-, hmem, -⟩ := grant_of_new hstored
        rw [hgrant] at hmem
        exact h.insert (s.withGrantedId record) true hmem hnonempty

theorem Regular.release (h : Regular osdConfig s) {t : Int} {r : Bool}
    (hstep : s.releaseLockById t = some (r, s')) : Regular osdConfig s' := by
  unfold releaseLockById at hstep
  split at hstep
  · obtain ⟨-, rfl⟩ := Prod.mk.inj (Option.some.inj hstep)
    exact h
  · split at hstep
    · cases hstep
    · obtain ⟨-, rfl⟩ := Prod.mk.inj (Option.some.inj hstep)
      refine h.of_memMap (listsNonempty_eraseElement h.nonempty _ _ _) (fun c t' r' hr' => ?_)
        fun c b hb hempty => ⟨b, empty_of_eraseRecord hb hempty⟩
      simp only [recordAt_eraseRecord] at hr'
      split at hr'
      · cases hr'
      · exact hr'

theorem Regular.removeBulkDelete (h : Regular osdConfig s) (ids : List Int) :
    Regular osdConfig (s.removeBulkDeleteEntry ids) := by
  induction ids generalizing s with
  | nil => exact h
  | cons id ids ih =>
      refine ih (s := s.removeBulkDeleteId id) ?_
      have hdrops := removeBulkDeleteId_drops s id
      refine h.of_memMap (hdrops.nonempty h.nonempty) (fun c t r => hdrops.record_of)
        fun c b hb hempty => ?_
      unfold removeBulkDeleteId at hb hempty
      split at hb
      · simp only [*] at hempty
        exact ⟨b, hb, hempty⟩
      · split at hb
        · simp only [*, if_true] at hempty
          exact ⟨b, empty_of_eraseRecord hb hempty⟩
        · simp only [*, if_false] at hempty
          exact ⟨b, hb, hempty⟩

theorem Regular.addRecords (h : Regular osdConfig s) (entries : List ActiveRecord) (flag : Bool) :
    Regular osdConfig (s.addRecordsInMemory osdConfig entries flag) := by
  induction entries generalizing s with
  | nil => exact h
  | cons r entries ih =>
      refine ih (s := s.addRecord osdConfig flag r) ?_
      refine h.insert r flag ?_ ?_
      · unfold addRecord
        dsimp only
        split <;> rfl
      · unfold addRecord
        dsimp only
        split
        · exact listsNonempty_pushElement h.nonempty _ _
        · exact h.nonempty

theorem memMap_markUnknownMemory (s : TransactionLockManager) (cs : List Int) (c : Int) :
    (s.markUnknownMemory cs).memMap[c]? =
      s.memMap[c]?.map fun p => (p.1, p.2 && decide (c ∈ cs)) := by
  have hfold : ∀ (l : List (Int × (RecordMap × Bool))) (s : TransactionLockManager),
      (l.foldl (markUnknownComponent cs) s).memMap =
        l.foldl (fun mem e => if e.1 ∈ cs then mem else mem.insert e.1 (e.2.1, false))
          s.memMap := by
    intro l
    induction l with
    | nil => exact fun _ => rfl
    | cons e l ih =>
        intro s
        rw [List.foldl_cons, List.foldl_cons, ih]
        congr 1
        unfold markUnknownComponent
        by_cases hcs : e.1 ∈ cs <;> simp [hcs, foldl_forgetRecord]
  rw [markUnknownMemory, hfold]
  refine getElem?_foldl_update (f := fun c p => (p.1, p.2 && decide (c ∈ cs))) ?_ s.memMap c
  intro m e he a
  by_cases hcs : e.1 ∈ cs
  · by_cases hea : e.1 = a
    · subst hea
      simp [he, hcs]
    · simp [hea, hcs]
  · rw [if_neg hcs, getElem?_insert_eq]
    by_cases hea : e.1 = a
    · subst hea
      simp [hcs]
    · simp [hea]

theorem Regular.markUnknown (h : Regular osdConfig s) (cs : List Int) :
    Regular osdConfig (s.markUnknownMemory cs) := by
  have hdrops := markUnknownMemory_drops s cs
  refine h.of_memMap (hdrops.nonempty h.nonempty) (fun c t r => hdrops.record_of)
    fun c b hb hempty => ?_
  rw [flagAt, memMap_markUnknownMemory] at hb
  simp only [recordAt, memMap_markUnknownMemory] at hempty
  cases hc : s.memMap[c]? with
  | none => simp [hc] at hb
  | some p =>
      simp only [hc, Option.map_some, Option.bind_some] at hempty
      exact ⟨p.2, by simp [flagAt, hc], fun t => by simpa [recordAt, hc] using hempty t⟩

theorem listsNonempty_commitEntries (entries : List (Int × ActiveRecord))
    (h : ListsNonempty s.nameMap) : ListsNonempty (s.commitEntries entries).nameMap := by
  induction entries generalizing s with
  | nil => exact h
  | cons e entries ih =>
      exact ih (s := commitRecord e.1 s e.2) (listsNonempty_pushRecovered h _ _)

/-- Where the commit is defined, a changed base version finds no component outside the list. -/
theorem listed_of_commitRecoveredData {cs : List Int} {changed : Bool}
    (h : s.commitRecoveredData cs changed = some s') (hchanged : changed = true) :
    ∀ c b, flagAt s.memMap c = some b → c ∈ cs := by
  have hfold : ∀ (l : List (Int × (RecordMap × Bool))) (s : TransactionLockManager),
      l.foldlM (commitComponent cs changed) s = some s' → ∀ e ∈ l, e.1 ∈ cs := by
    intro l
    induction l with
    | nil => simp
    | cons e l ih =>
        intro s hs e' he'
        obtain ⟨s₁, hfirst, hrest⟩ := Option.bind_eq_some_iff.mp hs
        rcases List.mem_cons.mp he' with rfl | hin
        · unfold commitComponent at hfirst
          by_contra hcs
          simp [hcs, hchanged] at hfirst
        · exact ih s₁ hrest e' hin
  intro c b hb
  obtain ⟨p, hp, rfl⟩ := Option.map_eq_some_iff.mp hb
  exact hfold _ s h (c, p) (TreeMap.mem_toList_iff_getElem?_eq_some.mpr hp)

theorem Regular.commitRecovered (h : Regular osdConfig s) {cs : List Int} {changed : Bool}
    (hstep : s.commitRecoveredData cs changed = some s') : Regular osdConfig s' := by
  rw [commitRecoveredData_eq (listed_of_commitRecoveredData hstep)] at hstep
  obtain rfl := Option.some.inj hstep
  refine h.of_memMap (listsNonempty_commitEntries _ h.nonempty) (fun c t r hr => ?_)
    fun c b hb hempty => ?_
  · rwa [recordAt_ownComponents] at hr
  · simp only [recordAt_ownComponents, flagAt_ownComponents] at hb hempty
    obtain ⟨b', hb', -⟩ := Option.map_eq_some_iff.mp hb
    exact ⟨b', hb', hempty⟩

/-! ### Extraction -/

/-- The records that are handed out for a component. -/
def handedOut (mem : MemMap) (c : Int) : Option (List ActiveRecord) :=
  match mem[c]? with
  | none => none
  | some (records, _) => if records.isEmpty then none else some (records.toList.map (·.2))

theorem memMap_extractComponent (acc : TreeMap Int (List ActiveRecord) × TransactionLockManager)
    (c c' : Int) :
    (extractComponent acc c).2.memMap[c']? = if c = c' then none else acc.2.memMap[c']? := by
  unfold extractComponent
  cases hc : acc.2.memMap[c]? with
  | none =>
      by_cases hcc : c = c'
      · subst hcc
        simp [hc]
      · simp [hcc]
  | some p => simp [foldl_forgetRecord]

theorem extracted_extractComponent (acc : TreeMap Int (List ActiveRecord) × TransactionLockManager)
    (c c' : Int) (hacc : ∀ c : Int, acc.1[c]? ≠ none → acc.2.memMap[c]? = none) :
    (extractComponent acc c).1[c']? =
      (acc.1[c']?).or (if c = c' then handedOut acc.2.memMap c else none) := by
  unfold extractComponent handedOut
  cases hc : acc.2.memMap[c]? with
  | none => simp
  | some p =>
      have hnone : acc.1[c]? = none := by
        by_contra hsome
        rw [hacc c hsome] at hc
        cases hc
      obtain ⟨records, b⟩ := p
      by_cases hempty : records.isEmpty
      · simp [hempty]
      · by_cases hcc : c = c'
        · subst hcc
          simp [hempty, hnone]
        · simp [hempty, hcc]

theorem getComponentTransactionMap_lookup (s : TransactionLockManager) (cs : List Int) (c : Int) :
    (s.getComponentTransactionMap cs).1[c]? = (if c ∈ cs then handedOut s.memMap c else none) ∧
      (s.getComponentTransactionMap cs).2.memMap[c]? = if c ∈ cs then none else s.memMap[c]? := by
  have hfold : ∀ (cs : List Int) (acc : TreeMap Int (List ActiveRecord) × TransactionLockManager),
      (∀ c : Int, acc.1[c]? ≠ none → acc.2.memMap[c]? = none) → ∀ c : Int,
        (cs.foldl extractComponent acc).1[c]? =
          (acc.1[c]?).or (if c ∈ cs then handedOut acc.2.memMap c else none) ∧
        (cs.foldl extractComponent acc).2.memMap[c]? =
          if c ∈ cs then none else acc.2.memMap[c]? := by
    intro cs
    induction cs with
    | nil => simp
    | cons d cs ih =>
        intro acc hacc c
        have hmem := memMap_extractComponent acc d
        have hextracted := fun c => extracted_extractComponent acc d c hacc
        obtain ⟨hfst, hsnd⟩ := ih (extractComponent acc d) (fun c hc => by
          rw [hmem]
          split
          · rfl
          · rename_i hne
            rw [hextracted, if_neg hne, Option.or_none] at hc
            exact hacc c hc) c
        have hhanded : handedOut (extractComponent acc d).2.memMap c =
            if d = c then none else handedOut acc.2.memMap c := by
          unfold handedOut
          rw [hmem]
          by_cases hdc : d = c <;> simp [hdc]
        rw [List.foldl_cons, hfst, hsnd, hextracted, hhanded, hmem]
        by_cases hdc : d = c
        · subst hdc
          simp
        · simp [hdc, Ne.symm hdc]
  have hfst := hfold cs (∅, s) (by simp) c
  simpa [getComponentTransactionMap] using hfst

theorem Regular.extract (h : Regular osdConfig s) (cs : List Int) :
    Regular osdConfig (s.getComponentTransactionMap cs).2 := by
  have hdrops := getComponentTransactionMap_drops h.placed.keyedById cs
  refine h.of_memMap (hdrops.nonempty h.nonempty) (fun c t r => hdrops.record_of)
    fun c b hb hempty => ?_
  have hmem := (getComponentTransactionMap_lookup s cs c).2
  simp only [flagAt, recordAt, hmem] at hb hempty
  split at hb
  · simp at hb
  · rename_i hcs
    simp only [if_neg hcs] at hempty
    exact ⟨b, hb, hempty⟩

theorem Regular.step (h : Regular osdConfig s) {op : Operation}
    (hstep : s.step osdConfig op = some s') : Regular osdConfig s' := by
  cases op with
  | acquire record =>
      obtain ⟨p, hp, rfl⟩ := Option.map_eq_some_iff.mp hstep
      exact h.acquire hp
  | release id =>
      obtain ⟨p, hp, rfl⟩ := Option.map_eq_some_iff.mp hstep
      exact h.release hp
  | removeBulkDelete ids => exact Option.some.inj hstep ▸ h.removeBulkDelete ids
  | addRecords entries flag => exact Option.some.inj hstep ▸ h.addRecords entries flag
  | markUnknown components => exact Option.some.inj hstep ▸ h.markUnknown components
  | commitRecovered components changed => exact h.commitRecovered hstep
  | extractComponents components => exact Option.some.inj hstep ▸ h.extract components

theorem run_regular {nodeId : Nat} {ops : List Operation}
    (hrun : run (TransactionLockManager.step osdConfig) (init nodeId) ops = some s) :
    Regular osdConfig s :=
  run_preserves _ (fun _ _ _ h hstep => h.step hstep) (regular_init nodeId) hrun

/-! ### Giving back -/

/-- `TransactionImpl::revert_back_trans_data`. -/
def revertBackTransData (osdConfig : Bool) (s : TransactionLockManager)
    (transactionEntries : List ActiveRecord) (memoryFlag : Bool) : TransactionLockManager :=
  s.addRecordsInMemory osdConfig transactionEntries memoryFlag

/-- What was extracted from a state is given back, one component after the other, with the flag that
the component had. -/
def revertAll (osdConfig : Bool) (former : TransactionLockManager) (s : TransactionLockManager)
    (extracted : List (Int × List ActiveRecord)) : TransactionLockManager :=
  extracted.foldl (fun s e =>
    s.revertBackTransData osdConfig e.2 ((flagAt former.memMap e.1).getD false)) s

/-- The three maps are the same, the lists of the names as sets. -/
structure SameSets (s s' : TransactionLockManager) : Prop where
  flags : ∀ c, flagAt s'.memMap c = flagAt s.memMap c
  records : ∀ c t, recordAt s'.memMap c t = recordAt s.memMap c t
  comps : ∀ t : Int, s'.compMap[t]? = s.compMap[t]?
  keys : ∀ n : String, s'.nameMap[n]? = none ↔ s.nameMap[n]? = none
  listed : ∀ n e, e ∈ elementsAt s'.nameMap n ↔ e ∈ elementsAt s.nameMap n

/-- Extracting the components and giving all of it back, in any order of the components, leads back
to the state. -/
def UndoRestores (osdConfig : Bool) (s : TransactionLockManager) (cs : List Int) : Prop :=
  ∀ extracted, extracted.Perm (s.getComponentTransactionMap cs).1.toList →
    SameSets s (revertAll osdConfig s (s.getComponentTransactionMap cs).2 extracted)

/-- The records of the owned components are those that the other maps know, and the records of the
others are not known to them. -/
structure Restorable (s : TransactionLockManager) (cs : List Int) : Prop where
  registered : ∀ c ∈ cs, ∀ t r, ownedAt s.memMap c t = some r → s.compMap[t]? = some c
  listed : ∀ c ∈ cs, ∀ t r, ownedAt s.memMap c t = some r →
    ∀ e, e ∈ elementsAt s.nameMap r.objectName ↔
      ∃ t' r', recordAt s.memMap c t' = some r' ∧ r'.objectName = r.objectName ∧ r'.element = e
  unregistered : ∀ c ∈ cs, flagAt s.memMap c = some false → ∀ t r,
    recordAt s.memMap c t = some r →
      s.compMap[t]? = none ∨ ∃ c' ∈ cs, ∃ r', ownedAt s.memMap c' t = some r'
  unlisted : ∀ c ∈ cs, flagAt s.memMap c = some false → ∀ t r,
    recordAt s.memMap c t = some r → elementsAt s.nameMap r.objectName = []

/-- The entries one by one, each with its flag. -/
def addAll (osdConfig : Bool) (s : TransactionLockManager) (adds : List (Bool × ActiveRecord)) :
    TransactionLockManager :=
  adds.foldl (fun s a => addRecord osdConfig a.1 s a.2) s

theorem revertAll_eq (former : TransactionLockManager) (extracted : List (Int × List ActiveRecord))
    (s : TransactionLockManager) :
    revertAll osdConfig former s extracted = s.addAll osdConfig (extracted.flatMap fun e =>
      e.2.map fun r => ((flagAt former.memMap e.1).getD false, r)) := by
  induction extracted generalizing s with
  | nil => rfl
  | cons e extracted ih =>
      rw [List.flatMap_cons, addAll, List.foldl_append, List.foldl_map]
      exact ih _

theorem memMap_addRecord (flag : Bool) (s : TransactionLockManager) (r : ActiveRecord) :
    (addRecord osdConfig flag s r).memMap =
      insertRecord s.memMap (getComponentName osdConfig r.objectName) r flag := by
  unfold addRecord
  dsimp only
  split <;> rfl

theorem recordAt_addAll (adds : List (Bool × ActiveRecord)) (s : TransactionLockManager)
    (c t : Int) :
    recordAt (s.addAll osdConfig adds).memMap c t = (recordAt s.memMap c t).or
      ((adds.find? fun a => getComponentName osdConfig a.2.objectName = c ∧
        a.2.transactionId = t).map (·.2)) := by
  induction adds generalizing s with
  | nil => simp [addAll]
  | cons a adds ih =>
      refine (ih _).trans ?_
      rw [memMap_addRecord, recordAt_insertRecord, List.find?_cons]
      by_cases hct : getComponentName osdConfig a.2.objectName = c ∧ a.2.transactionId = t
      · obtain ⟨rfl, rfl⟩ := hct
        cases recordAt s.memMap (getComponentName osdConfig a.2.objectName) a.2.transactionId <;>
          simp
      · simp [hct]

theorem flagAt_addAll (adds : List (Bool × ActiveRecord)) (s : TransactionLockManager) (c : Int) :
    flagAt (s.addAll osdConfig adds).memMap c = (flagAt s.memMap c).or
      ((adds.find? fun a => getComponentName osdConfig a.2.objectName = c).map (·.1)) := by
  induction adds generalizing s with
  | nil => simp [addAll]
  | cons a adds ih =>
      refine (ih _).trans ?_
      rw [memMap_addRecord, flagAt_insertRecord, List.find?_cons]
      by_cases hc : getComponentName osdConfig a.2.objectName = c
      · subst hc
        cases flagAt s.memMap (getComponentName osdConfig a.2.objectName) <;> simp
      · simp [hc]

theorem compMap_addAll (adds : List (Bool × ActiveRecord)) (s : TransactionLockManager)
    (t : Int) :
    (s.addAll osdConfig adds).compMap[t]? = (s.compMap[t]?).or
      ((adds.find? fun a => a.1 ∧ a.2.transactionId = t).map fun a =>
        getComponentName osdConfig a.2.objectName) := by
  induction adds generalizing s with
  | nil => simp [addAll]
  | cons a adds ih =>
      refine (ih _).trans ?_
      rw [List.find?_cons]
      unfold addRecord
      by_cases hflag : a.1
      · by_cases ht : a.2.transactionId = t
        · subst ht
          simp only [hflag, if_true, getElem?_insertIfNew_eq, true_and, decide_true,
            Option.map_some]
          cases s.compMap[a.2.transactionId]? <;> simp
        · simp [hflag, ht]
      · simp [hflag]

theorem elementsAt_addAll (adds : List (Bool × ActiveRecord)) (s : TransactionLockManager)
    (n : String) :
    elementsAt (s.addAll osdConfig adds).nameMap n = elementsAt s.nameMap n ++
      (adds.filter fun a => a.1 ∧ a.2.objectName = n).map (·.2.element) := by
  induction adds generalizing s with
  | nil => simp [addAll]
  | cons a adds ih =>
      refine (ih _).trans ?_
      rw [List.filter_cons]
      unfold addRecord
      by_cases hflag : a.1
      · by_cases hn : a.2.objectName = n
        · subst hn
          simp [hflag, elementsAt_pushElement]
        · simp [hflag, hn, elementsAt_pushElement]
      · simp [hflag]

theorem Regular.addAll (h : Regular osdConfig s) (adds : List (Bool × ActiveRecord)) :
    Regular osdConfig (s.addAll osdConfig adds) := by
  induction adds generalizing s with
  | nil => exact h
  | cons a adds ih => exact ih (h.addRecords [a.2] a.1)

theorem mem_extracted {cs : List Int} {extracted : List (Int × List ActiveRecord)}
    (hperm : extracted.Perm (s.getComponentTransactionMap cs).1.toList) (c : Int)
    (records : List ActiveRecord) :
    (c, records) ∈ extracted ↔ c ∈ cs ∧ handedOut s.memMap c = some records := by
  rw [hperm.mem_iff, TreeMap.mem_toList_iff_getElem?_eq_some,
    (getComponentTransactionMap_lookup s cs c).1]
  by_cases hcs : c ∈ cs <;> simp [hcs]

theorem mem_handedOut (h : Regular osdConfig s) {c : Int} {records : List ActiveRecord}
    (hc : handedOut s.memMap c = some records) (r : ActiveRecord) :
    r ∈ records ↔ recordAt s.memMap c r.transactionId = some r := by
  unfold handedOut at hc
  cases hmem : s.memMap[c]? with
  | none => simp [hmem] at hc
  | some p =>
      simp only [hmem] at hc
      split at hc
      · cases hc
      · obtain rfl := Option.some.inj hc
        constructor
        · intro hr
          obtain ⟨e, he, rfl⟩ := List.mem_map.mp hr
          have hrecord := (mem_toList_iff_recordAt hmem e.1 e.2).mp he
          rw [h.placed.keyedById c e.1 e.2 hrecord]
          exact hrecord
        · intro hr
          exact List.mem_map.mpr ⟨_, (mem_toList_iff_recordAt hmem _ _).mpr hr, rfl⟩

theorem handedOut_of_recordAt {c t : Int} {r : ActiveRecord} (hr : recordAt s.memMap c t = some r) :
    ∃ records, handedOut s.memMap c = some records := by
  obtain ⟨p, hp, ht⟩ := Option.bind_eq_some_iff.mp hr
  have hne : p.1.isEmpty = false := by
    rw [Bool.eq_false_iff]
    intro hempty
    have hnone := (isEmpty_iff_getElem? p.1).mp hempty t
    rw [hnone] at ht
    cases ht
  exact ⟨p.1.toList.map (·.2), by simp [handedOut, hp, hne]⟩

/-- What is given back: the records of the components, with the flags that these had. -/
theorem mem_flatMap_extracted (h : Regular osdConfig s) {cs : List Int}
    {extracted : List (Int × List ActiveRecord)}
    (hperm : extracted.Perm (s.getComponentTransactionMap cs).1.toList) {a : Bool × ActiveRecord} :
    a ∈ extracted.flatMap (fun e => e.2.map fun r => ((flagAt s.memMap e.1).getD false, r)) ↔
      getComponentName osdConfig a.2.objectName ∈ cs ∧
        recordAt s.memMap (getComponentName osdConfig a.2.objectName) a.2.transactionId =
          some a.2 ∧ flagAt s.memMap (getComponentName osdConfig a.2.objectName) = some a.1 := by
  simp only [List.mem_flatMap, List.mem_map]
  constructor
  · rintro ⟨⟨c, records⟩, he, r, hr, rfl⟩
    obtain ⟨hcs, hc⟩ := (mem_extracted hperm c records).mp he
    have hrecord := (mem_handedOut h hc r).mp hr
    obtain ⟨-, rfl⟩ := h.placed c _ r hrecord
    obtain ⟨b, hb⟩ := flagAt_isSome_of_recordAt hrecord
    exact ⟨hcs, hrecord, by simp [hb]⟩
  · rintro ⟨hcs, hrecord, hflag⟩
    obtain ⟨records, hhand⟩ := handedOut_of_recordAt hrecord
    exact ⟨⟨_, records⟩, (mem_extracted hperm _ _).mpr ⟨hcs, hhand⟩, a.2,
      (mem_handedOut h hhand _).mpr hrecord, by simp [hflag]⟩

theorem map_find?_eq_some {α β : Type} {p : α → Bool} {f : α → β} {l : List α} {v : β}
    (hex : ∃ a ∈ l, p a = true) (hall : ∀ a ∈ l, p a = true → f a = v) :
    (l.find? p).map f = some v := by
  cases hfind : l.find? p with
  | none =>
      obtain ⟨a, ha, hp⟩ := hex
      exact absurd hp (List.find?_eq_none.mp hfind a ha)
  | some a => exact congrArg some (hall a (List.mem_of_find?_eq_some hfind) (List.find?_some hfind))


section

variable {cs : List Int} {extracted : List (Int × List ActiveRecord)}

/-- The maps of a state after the extraction and the return of everything, in terms of the state
before. -/
theorem sameSets_of_restorable (h : Regular osdConfig s) (hrestorable : Restorable s cs)
    (hperm : extracted.Perm (s.getComponentTransactionMap cs).1.toList) :
    SameSets s (revertAll osdConfig s (s.getComponentTransactionMap cs).2 extracted) := by
  have hdrops := getComponentTransactionMap_drops h.placed.keyedById cs
  have hmem := fun c => (getComponentTransactionMap_lookup s cs c).2
  have hadds := fun a => mem_flatMap_extracted h hperm (a := a)
  have hregular := (h.extract cs).addAll (extracted.flatMap fun e =>
    e.2.map fun r => ((flagAt s.memMap e.1).getD false, r))
  rw [revertAll_eq]
  generalize extracted.flatMap (fun e =>
    e.2.map fun r => ((flagAt s.memMap e.1).getD false, r)) = adds at hadds hregular ⊢
  have hlisted : ∀ n e, e ∈ elementsAt ((s.getComponentTransactionMap cs).2.addAll osdConfig
      adds).nameMap n ↔ e ∈ elementsAt s.nameMap n := by
    intro n e
    rw [elementsAt_addAll, List.mem_append]
    by_cases hn : ∃ c ∈ cs, ∃ t r, recordAt s.memMap c t = some r ∧ r.objectName = n
    · obtain ⟨c, hc, t, r, hr, rfl⟩ := hn
      obtain ⟨rfl, rfl⟩ := h.placed c t r hr
      rw [hdrops.names_removed hc hr]
      simp only [List.not_mem_nil, false_or, List.mem_map, List.mem_filter, decide_eq_true_eq]
      obtain ⟨b, hb⟩ := flagAt_isSome_of_recordAt hr
      cases b with
      | true =>
          rw [hrestorable.listed _ hc _ r (ownedAt_eq_some.mpr ⟨hb, hr⟩)]
          constructor
          · rintro ⟨a, ⟨ha, hflag, hname⟩, rfl⟩
            obtain ⟨-, hrecord, -⟩ := (hadds a).mp ha
            rw [hname] at hrecord
            exact ⟨_, a.2, hrecord, hname, rfl⟩
          · rintro ⟨t', r', hr', hname, rfl⟩
            obtain ⟨rfl, hcomp⟩ := h.placed _ _ _ hr'
            exact ⟨(true, r'), ⟨(hadds _).mpr ⟨hcomp ▸ hc, hcomp ▸ hr', hcomp ▸ hb⟩, rfl, hname⟩,
              rfl⟩
      | false =>
          rw [hrestorable.unlisted _ hc hb _ r hr]
          simp only [List.not_mem_nil, iff_false]
          rintro ⟨a, ⟨ha, hflag, hname⟩, -⟩
          obtain ⟨-, -, hother⟩ := (hadds a).mp ha
          rw [hname, hb, hflag] at hother
          cases hother
    · rw [hdrops.names_kept fun c t r hc hr hname => hn ⟨c, hc, t, r, hr, hname⟩, or_iff_left]
      intro hin
      obtain ⟨a, ha, -⟩ := List.mem_map.mp hin
      obtain ⟨ha, hkind⟩ := List.mem_filter.mp ha
      obtain ⟨hc, hr, -⟩ := (hadds a).mp ha
      exact hn ⟨_, hc, _, _, hr, (of_decide_eq_true hkind).2⟩
  refine ⟨fun c => ?_, fun c t => ?_, fun t => ?_, fun n => ?_, hlisted⟩
  · rw [flagAt_addAll]
    by_cases hc : c ∈ cs
    · have hgone : flagAt (s.getComponentTransactionMap cs).2.memMap c = none := by
        simp [flagAt, hmem, hc]
      rw [hgone, Option.none_or]
      cases hb : flagAt s.memMap c with
      | none =>
          rw [Option.map_eq_none_iff, List.find?_eq_none]
          intro a ha hcomp
          obtain ⟨-, -, hflag⟩ := (hadds a).mp ha
          rw [of_decide_eq_true hcomp, hb] at hflag
          cases hflag
      | some b =>
          obtain ⟨t, r, hr⟩ := h.inhabited c b hb
          obtain ⟨rfl, rfl⟩ := h.placed c t r hr
          refine map_find?_eq_some ⟨(b, r), (hadds _).mpr ⟨hc, hr, hb⟩, by simp⟩
            fun a ha hcomp => ?_
          obtain ⟨-, -, hflag⟩ := (hadds a).mp ha
          rw [of_decide_eq_true hcomp, hb] at hflag
          exact (Option.some.inj hflag).symm
    · have hkept : flagAt (s.getComponentTransactionMap cs).2.memMap c = flagAt s.memMap c := by
        simp [flagAt, hmem, hc]
      have hnone : adds.find? (fun a => getComponentName osdConfig a.2.objectName = c) = none :=
        List.find?_eq_none.mpr fun a ha hcomp =>
          hc (of_decide_eq_true hcomp ▸ ((hadds a).mp ha).1)
      rw [hkept, hnone, Option.map_none, Option.or_none]
  · rw [recordAt_addAll]
    by_cases hc : c ∈ cs
    · have hgone : recordAt (s.getComponentTransactionMap cs).2.memMap c t = none := by
        simp [recordAt, hmem, hc]
      rw [hgone, Option.none_or]
      cases hr : recordAt s.memMap c t with
      | none =>
          rw [Option.map_eq_none_iff, List.find?_eq_none]
          intro a ha hplace
          obtain ⟨-, hrecord, -⟩ := (hadds a).mp ha
          obtain ⟨hcomp, ht⟩ := of_decide_eq_true hplace
          rw [hcomp, ht, hr] at hrecord
          cases hrecord
      | some r =>
          obtain ⟨rfl, rfl⟩ := h.placed c t r hr
          obtain ⟨b, hb⟩ := flagAt_isSome_of_recordAt hr
          refine map_find?_eq_some ⟨(b, r), (hadds _).mpr ⟨hc, hr, hb⟩, by simp⟩
            fun a ha hplace => ?_
          obtain ⟨-, hrecord, -⟩ := (hadds a).mp ha
          obtain ⟨hcomp, ht⟩ := of_decide_eq_true hplace
          rw [hcomp, ht, hr] at hrecord
          exact (Option.some.inj hrecord).symm
    · have hkept : recordAt (s.getComponentTransactionMap cs).2.memMap c t =
          recordAt s.memMap c t := by
        simp [recordAt, hmem, hc]
      have hnone : adds.find? (fun a => getComponentName osdConfig a.2.objectName = c ∧
          a.2.transactionId = t) = none :=
        List.find?_eq_none.mpr fun a ha hplace =>
          hc ((of_decide_eq_true hplace).1 ▸ ((hadds a).mp ha).1)
      rw [hkept, hnone, Option.map_none, Option.or_none]
  · rw [compMap_addAll]
    by_cases ht : ∃ c ∈ cs, ∃ r, recordAt s.memMap c t = some r
    · obtain ⟨c, hc, r, hr⟩ := ht
      rw [hdrops.comp_removed hc hr, Option.none_or]
      cases hfind : adds.find? (fun a => a.1 ∧ a.2.transactionId = t) with
      | some a =>
          have hkind := List.find?_some hfind
          simp only [decide_eq_true_eq] at hkind
          obtain ⟨hflag, rfl⟩ := hkind
          obtain ⟨hcomp, hrecord, howned⟩ := (hadds a).mp (List.mem_of_find?_eq_some hfind)
          rw [hrestorable.registered _ hcomp _ a.2
            (ownedAt_eq_some.mpr ⟨hflag ▸ howned, hrecord⟩)]
          rfl
      | none =>
          have hunowned : ∀ c' ∈ cs, ∀ r', ownedAt s.memMap c' t ≠ some r' := by
            intro c' hc' r' hr'
            obtain ⟨hflag, hrecord⟩ := ownedAt_eq_some.mp hr'
            obtain ⟨rfl, rfl⟩ := h.placed c' t r' hrecord
            exact List.find?_eq_none.mp hfind (true, r')
              ((hadds _).mpr ⟨hc', hrecord, hflag⟩) (by simp)
          obtain ⟨b, hb⟩ := flagAt_isSome_of_recordAt hr
          cases b with
          | true => exact absurd (ownedAt_eq_some.mpr ⟨hb, hr⟩) (hunowned c hc r)
          | false =>
              rcases hrestorable.unregistered c hc hb t r hr with hnone | ⟨c', hc', r', hr'⟩
              · exact hnone.symm
              · exact absurd hr' (hunowned c' hc' r')
    · have hnone : adds.find? (fun a => a.1 ∧ a.2.transactionId = t) = none :=
        List.find?_eq_none.mpr fun a ha hkind => by
          obtain ⟨hc, hrecord, -⟩ := (hadds a).mp ha
          exact ht ⟨_, hc, a.2, (of_decide_eq_true hkind).2 ▸ hrecord⟩
      rw [hdrops.comp_kept, hnone, Option.map_none, Option.or_none]
      intro c hc
      exact Option.eq_none_iff_forall_ne_some.mpr fun r hr => ht ⟨c, hc, r, hr⟩
  · have hkey : ∀ {names : NameMap}, ListsNonempty names →
        (names[n]? = none ↔ ∀ e, e ∉ elementsAt names n) := by
      intro names hnonempty
      rw [← List.eq_nil_iff_forall_not_mem, elementsAt]
      cases hn : names[n]? with
      | none => simp
      | some l =>
          simp only [reduceCtorEq, Option.getD_some, false_iff]
          rintro rfl
          exact hnonempty n hn
    rw [hkey hregular.nonempty, hkey h.nonempty]
    simp only [hlisted]

theorem restorable_of_undoRestores (h : Regular osdConfig s)
    (hrestores : UndoRestores osdConfig s cs) : Restorable s cs := by
  have hdrops := getComponentTransactionMap_drops h.placed.keyedById cs
  have hsame := hrestores _ (.refl _)
  have hadds := fun a : Bool × ActiveRecord =>
    mem_flatMap_extracted h (.refl (s.getComponentTransactionMap cs).1.toList) (a := a)
  rw [revertAll_eq] at hsame
  generalize ((s.getComponentTransactionMap cs).1.toList).flatMap (fun e =>
    e.2.map fun r => ((flagAt s.memMap e.1).getD false, r)) = adds at hsame hadds
  have hlisted : ∀ c ∈ cs, ∀ t r, recordAt s.memMap c t = some r →
      ∀ e, e ∈ elementsAt s.nameMap r.objectName ↔
        ∃ a ∈ adds, a.1 = true ∧ a.2.objectName = r.objectName ∧ a.2.element = e := by
    intro c hc t r hr e
    rw [← hsame.listed, elementsAt_addAll, hdrops.names_removed hc hr]
    simp only [List.nil_append, List.mem_map, List.mem_filter, decide_eq_true_eq, and_assoc]
  refine ⟨fun c hc t r hr => ?_, fun c hc t r hr e => ?_, fun c hc hflag t r hr => ?_,
    fun c hc hflag t r hr => ?_⟩
  · obtain ⟨hflag, hrecord⟩ := ownedAt_eq_some.mp hr
    obtain ⟨rfl, rfl⟩ := h.placed c t r hrecord
    obtain ⟨records, hhand⟩ := handedOut_of_recordAt hrecord
    -- an order in which the component comes back before the others
    have hfirst := List.perm_cons_erase ((mem_extracted (.refl _) _ records).mpr ⟨hc, hhand⟩)
    have hhit : ((records.map fun r' => ((flagAt s.memMap
        (getComponentName osdConfig r.objectName)).getD false, r')).find?
          fun a => a.1 ∧ a.2.transactionId = r.transactionId).map
            (fun a => getComponentName osdConfig a.2.objectName) =
          some (getComponentName osdConfig r.objectName) := by
      refine map_find?_eq_some ⟨(true, r), ?_, by simp⟩ fun a ha _ => ?_
      · simpa [hflag] using (mem_handedOut h hhand r).mpr hrecord
      · obtain ⟨r', hr', rfl⟩ := List.mem_map.mp ha
        exact (h.placed _ _ _ ((mem_handedOut h hhand r').mp hr')).2
    have hcomps := (hrestores _ hfirst.symm).comps r.transactionId
    rw [revertAll_eq, compMap_addAll, hdrops.comp_removed hc hrecord, Option.none_or,
      List.flatMap_cons, List.find?_append, Option.map_or, hhit, Option.some_or] at hcomps
    exact hcomps.symm
  · obtain ⟨hflag, hrecord⟩ := ownedAt_eq_some.mp hr
    obtain ⟨rfl, rfl⟩ := h.placed c t r hrecord
    rw [hlisted _ hc _ r hrecord]
    constructor
    · rintro ⟨a, ha, -, hname, rfl⟩
      obtain ⟨-, hrecord', -⟩ := (hadds a).mp ha
      rw [hname] at hrecord'
      exact ⟨_, a.2, hrecord', hname, rfl⟩
    · rintro ⟨t', r', hr', hname, rfl⟩
      obtain ⟨rfl, hcomp⟩ := h.placed _ _ _ hr'
      exact ⟨(true, r'), (hadds _).mpr ⟨hcomp ▸ hc, hcomp ▸ hr', hcomp ▸ hflag⟩, rfl, hname, rfl⟩
  · have hcomps := hsame.comps t
    rw [compMap_addAll, hdrops.comp_removed hc hr, Option.none_or] at hcomps
    cases hfind : adds.find? (fun a => a.1 ∧ a.2.transactionId = t) with
    | none =>
        rw [hfind] at hcomps
        exact .inl hcomps.symm
    | some a =>
        have hkind := List.find?_some hfind
        simp only [decide_eq_true_eq] at hkind
        obtain ⟨howned, rfl⟩ := hkind
        obtain ⟨hcomp, hrecord, hflag'⟩ := (hadds a).mp (List.mem_of_find?_eq_some hfind)
        exact .inr ⟨_, hcomp, a.2, ownedAt_eq_some.mpr ⟨howned ▸ hflag', hrecord⟩⟩
  · rw [List.eq_nil_iff_forall_not_mem]
    intro e he
    obtain ⟨a, ha, howned, hname, -⟩ := (hlisted c hc t r hr e).mp he
    obtain ⟨-, -, hflag'⟩ := (hadds a).mp ha
    obtain ⟨-, rfl⟩ := h.placed c t r hr
    rw [hname, hflag, howned] at hflag'
    cases hflag'

/-- Where the maps agree on the owned components, every list of such components can be undone. -/
theorem Consistent.restorable (h : Consistent osdConfig s)
    (howned : ∀ c ∈ cs, flagAt s.memMap c ≠ some false) : Restorable s cs where
  registered c _ t r hr := (h.agree.registered t c).mpr ⟨r, hr⟩
  listed c _ t r hr e := by
    rw [IndexesAgree.listed_iff h.agree]
    obtain ⟨hflag, hrecord⟩ := ownedAt_eq_some.mp hr
    constructor
    · rintro ⟨c', r', hr', hoperation, hname⟩
      have hrecord' := recordAt_of_ownedAt hr'
      obtain rfl := h.placed.same_component hrecord' hrecord hname.symm
      obtain ⟨hid, -⟩ := h.placed c _ r' hrecord'
      refine ⟨_, r', hrecord', hname, ?_⟩
      rw [ActiveRecord.element, hid, hoperation]
    · rintro ⟨t', r', hr', hname, rfl⟩
      obtain ⟨rfl, -⟩ := h.placed c t' r' hr'
      exact ⟨c, r', ownedAt_eq_some.mpr ⟨hflag, hr'⟩, rfl, hname⟩
  unregistered c hc hflag := absurd hflag (howned c hc)
  unlisted c hc hflag := absurd hflag (howned c hc)

theorem undoRestores_iff_of_regular (h : Regular osdConfig s) :
    UndoRestores osdConfig s cs ↔ Restorable s cs :=
  ⟨restorable_of_undoRestores h, fun hrestorable _ hperm =>
    sameSets_of_restorable h hrestorable hperm⟩

/-- A transfer of components that is undone leads back to the state from which it started exactly
where the owned components are known to the other maps, and the others are not. -/
theorem undo_restores_iff {nodeId : Nat} {ops : List Operation}
    (hrun : run (TransactionLockManager.step osdConfig) (init nodeId) ops = some s) :
    UndoRestores osdConfig s cs ↔ Restorable s cs :=
  undoRestores_iff_of_regular (run_regular hrun)

theorem undo_restores_iff_owned : ∃ s,
    run (step false) (init 1) [.acquire (requestOf .write "PUT" 5)] = some s ∧
      Restorable s [26] ∧ UndoRestores false s [26] := by
  obtain ⟨s, hstep, hs⟩ : ∃ s, step false (init 1) (.acquire (requestOf .write "PUT" 5)) = some s ∧
      Consistent false s := (consistent_init 1).acquire (.inr (by decide))
  have hrun : run (step false) (init 1) [.acquire (requestOf .write "PUT" 5)] = some s := by
    simp [run, hstep]
  have hrestorable : Restorable s [26] := hs.restorable fun c hc hflag => by
    obtain rfl := List.mem_singleton.mp hc
    obtain rfl := Option.some.inj hstep
    exact absurd hflag (by decide)
  exact ⟨s, hrun, hrestorable, (undo_restores_iff hrun).mpr hrestorable⟩

/-- A lock that was taken in a component that is not owned comes back without its name and id. -/
theorem undo_loses_lock : ∃ s,
    run (step false) (init 1) [.addRecords [requestOf .write "PUT" 5] false,
      .acquire { requestOf .write "PUT" 0 with objectName := "1a/c" }] = some s ∧
      ¬ UndoRestores false s [26] := by
  refine ⟨_, rfl, fun hrestores => ?_⟩
  exact absurd ((hrestores _ (.refl _)).keys "1a/c") (by decide)

end

end TransactionLockManager

end ObjectStorage.Transaction
