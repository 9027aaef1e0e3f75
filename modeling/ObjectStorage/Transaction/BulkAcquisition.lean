import Mathlib.Data.List.Nodup
import ObjectStorage.Transaction.LockGrants

/-!
The locks of a bulk delete are acquired one after the other and given back when one of them is
refused. What a refused acquisition, of one lock or of a list, leaves in the indexes.
-/

namespace ObjectStorage.Transaction

open Std Library

namespace TransactionLockManager

/-! ### The operation -/

def checkForQueueSize (s : TransactionLockManager) (size : Nat) : Bool :=
  s.memMap.size + size > 1000000

/-- The loop of `add_bulk_delete_transaction`. A record has the time that is set once its lock is
acquired. -/
def acquireAll (osdConfig : Bool) (s : TransactionLockManager) (bulkTransactionIds : List Int) :
    List ActiveRecord → Option (Int × TransactionLockManager)
  | [] => some (0, s)
  | record :: rest =>
      match s.acquireLock osdConfig record with
      | none => none
      | some (id, s') =>
          if id = -1 ∨ id = -2 then
            some (id, if bulkTransactionIds = [] then s'
              else s'.removeBulkDeleteEntry bulkTransactionIds)
          else s'.acquireAll osdConfig (bulkTransactionIds ++ [id]) rest

/-- `queued` tells whether the journal takes the records. The last record of an empty list is read,
which is undefined. -/
def addBulkDeleteTransaction (osdConfig : Bool) (s : TransactionLockManager)
    (entries : List ActiveRecord) (queued : Bool) : Option (Int × TransactionLockManager) :=
  if s.checkForQueueSize entries.length then some (-2, s)
  else
    (s.acquireAll osdConfig [] entries).bind fun (id, s') =>
      if id ≠ 0 then some (id, s')
      else if entries = [] then none
      else if queued then some (0, s')
      else some (-3, s')

/-- The three maps hold the same. -/
structure SameMaps (s s' : TransactionLockManager) : Prop where
  names : ∀ n : String, s'.nameMap[n]? = s.nameMap[n]?
  flags : ∀ c, flagAt s'.memMap c = flagAt s.memMap c
  records : ∀ c t, recordAt s'.memMap c t = recordAt s.memMap c t
  comps : ∀ t : Int, s'.compMap[t]? = s.compMap[t]?

variable {osdConfig : Bool} {s s' : TransactionLockManager}

theorem SameMaps.refl (s : TransactionLockManager) : SameMaps s s :=
  ⟨fun _ => rfl, fun _ => rfl, fun _ _ => rfl, fun _ => rfl⟩

/-! ### Bulk removal in terms of the lookups -/

theorem BulkRegistered.of_removeBulkDeleteId {c t id : Int}
    (h : (s.removeBulkDeleteId id).BulkRegistered c t) : s.BulkRegistered c t := by
  have hdrops := removeBulkDeleteId_drops s id
  obtain ⟨hcomp, r, hr, hbulk⟩ := h
  exact ⟨(hdrops.comp_of hcomp).1, r, hdrops.record_of hr, hbulk⟩

theorem removeBulkDeleteId_of_registered {c t : Int} {r : ActiveRecord}
    (h : s.BulkRegistered c t) (hr : recordAt s.memMap c t = some r) :
    s.removeBulkDeleteId t = { s with
      nameMap := s.nameMap.erase r.objectName
      memMap := eraseRecord s.memMap c t
      compMap := s.compMap.erase t } := by
  obtain ⟨hcomp, r', hr', hbulk⟩ := h
  obtain rfl := Option.some.inj (hr.symm.trans hr')
  simp [removeBulkDeleteId, findRecord?_eq_some.mpr ⟨hcomp, hr⟩, hbulk]

theorem removeBulkDeleteId_cases (s : TransactionLockManager) (id : Int) :
    s.removeBulkDeleteId id = s ∨
      ∃ c r, s.BulkRegistered c id ∧ recordAt s.memMap c id = some r := by
  unfold removeBulkDeleteId
  cases hfind : s.findRecord? id with
  | none => exact .inl rfl
  | some found =>
      obtain ⟨hcomp, hrec⟩ := findRecord?_eq_some.mp hfind
      by_cases hbulk : found.2.requestMethod = "BULK_DELETE"
      · exact .inr ⟨found.1, found.2, ⟨hcomp, found.2, hrec, hbulk⟩, hrec⟩
      · exact .inl (by simp [hbulk])

theorem removeBulkDeleteId_other {c t id : Int} (h : s.BulkRegistered c t) (hid : t ≠ id) :
    (s.removeBulkDeleteId id).BulkRegistered c t ∧
      recordAt (s.removeBulkDeleteId id).memMap c t = recordAt s.memMap c t := by
  have hdrops := removeBulkDeleteId_drops s id
  have hkept := hdrops.record_kept (c := c) (t := t) fun hc => hid hc.1
  refine ⟨⟨?_, ?_⟩, hkept⟩
  · rw [hdrops.comp_kept fun d hd => absurd hd.1 hid]
    exact h.1
  · rw [hkept]
    exact h.2

theorem nameMap_removeBulkDeleteEntry_of_not {ids : List Int} {n : String}
    (h : ∀ c, ∀ t ∈ ids, ∀ r, s.BulkRegistered c t → recordAt s.memMap c t = some r →
      r.objectName ≠ n) :
    (s.removeBulkDeleteEntry ids).nameMap[n]? = s.nameMap[n]? := by
  induction ids generalizing s with
  | nil => rfl
  | cons id ids ih =>
      have hrest : ((s.removeBulkDeleteId id).removeBulkDeleteEntry ids).nameMap[n]? =
          (s.removeBulkDeleteId id).nameMap[n]? := by
        refine ih fun c t ht r hreg hr => ?_
        exact h c t (List.mem_cons_of_mem _ ht) r hreg.of_removeBulkDeleteId
          ((removeBulkDeleteId_drops s id).record_of hr)
      refine hrest.trans ?_
      rcases removeBulkDeleteId_cases s id with hsame | ⟨c, r, hreg, hr⟩
      · rw [hsame]
      · rw [removeBulkDeleteId_of_registered hreg hr, getElem?_erase_eq,
          if_neg (h c id List.mem_cons_self r hreg hr)]

theorem nameMap_removeBulkDeleteEntry_of_none {n : String} (h : s.nameMap[n]? = none)
    (ids : List Int) : (s.removeBulkDeleteEntry ids).nameMap[n]? = none := by
  induction ids generalizing s with
  | nil => exact h
  | cons id ids ih =>
      have hnext : (s.removeBulkDeleteId id).nameMap[n]? = none := by
        rcases removeBulkDeleteId_cases s id with hsame | ⟨c, r, hreg, hr⟩
        · rw [hsame, h]
        · rw [removeBulkDeleteId_of_registered hreg hr, getElem?_erase_eq, h, ite_self]
      exact ih hnext

theorem nameMap_removeBulkDeleteEntry {ids : List Int} {c t : Int} {r : ActiveRecord}
    (ht : t ∈ ids) (hreg : s.BulkRegistered c t) (hr : recordAt s.memMap c t = some r) :
    (s.removeBulkDeleteEntry ids).nameMap[r.objectName]? = none := by
  induction ids generalizing s with
  | nil => cases ht
  | cons id ids ih =>
      by_cases hid : t = id
      · subst hid
        have hnext : (s.removeBulkDeleteId t).nameMap[r.objectName]? = none := by
          rw [removeBulkDeleteId_of_registered hreg hr, getElem?_erase_eq, if_pos rfl]
        exact nameMap_removeBulkDeleteEntry_of_none hnext ids
      · obtain ⟨hreg', hkept⟩ := removeBulkDeleteId_other hreg hid
        exact ih ((List.mem_cons.mp ht).resolve_left hid) hreg' (hkept.trans hr)

theorem recordAt_removeBulkDeleteEntry {ids : List Int} {c t : Int} (ht : t ∈ ids)
    (hreg : s.BulkRegistered c t) : recordAt (s.removeBulkDeleteEntry ids).memMap c t = none := by
  induction ids generalizing s with
  | nil => cases ht
  | cons id ids ih =>
      by_cases hid : t = id
      · subst hid
        obtain ⟨hcomp, r, hr, hbulk⟩ := hreg
        have hgone : recordAt (s.removeBulkDeleteId t).memMap c t = none := by
          rw [removeBulkDeleteId_of_registered ⟨hcomp, r, hr, hbulk⟩ hr, recordAt_eraseRecord,
            if_pos ⟨rfl, rfl⟩]
        by_contra hleft
        obtain ⟨r', hr'⟩ := Option.ne_none_iff_exists'.mp hleft
        have hold := (removeBulkDeleteEntry_drops (s.removeBulkDeleteId t) ids).record_of hr'
        rw [hgone] at hold
        cases hold
      · exact ih ((List.mem_cons.mp ht).resolve_left hid) (removeBulkDeleteId_other hreg hid).1

theorem empty_of_eraseRecord {mem : MemMap} {c c' id : Int} {b : Bool}
    (hflag : flagAt (eraseRecord mem c id) c' = some b)
    (hempty : ∀ t, recordAt (eraseRecord mem c id) c' t = none) :
    flagAt mem c' = some b ∧ ∀ t, recordAt mem c' t = none := by
  unfold eraseRecord at hflag hempty
  cases hc : mem[c]? with
  | none =>
      simp only [hc] at hflag hempty
      exact ⟨hflag, hempty⟩
  | some p =>
      obtain ⟨records, owned⟩ := p
      simp only [hc] at hflag hempty
      by_cases hcc : c = c'
      · subst hcc
        by_cases hgone : (records.erase id).isEmpty
        · simp [hgone, flagAt_erase] at hflag
        · refine absurd ((isEmpty_iff_getElem? (records.erase id)).mpr fun t => ?_) hgone
          have hnone := hempty t
          rw [if_neg hgone, recordAt_insert, if_pos rfl] at hnone
          exact hnone
      · by_cases hgone : (records.erase id).isEmpty
        · simp only [if_pos hgone, flagAt_erase, recordAt_erase, if_neg hcc] at hflag hempty
          exact ⟨hflag, hempty⟩
        · simp only [if_neg hgone, flagAt_insert, recordAt_insert, if_neg hcc] at hflag hempty
          exact ⟨hflag, hempty⟩

theorem empty_of_removeBulkDeleteEntry {ids : List Int} {c : Int} {b : Bool}
    (hflag : flagAt (s.removeBulkDeleteEntry ids).memMap c = some b)
    (hempty : ∀ t, recordAt (s.removeBulkDeleteEntry ids).memMap c t = none) :
    flagAt s.memMap c = some b ∧ ∀ t, recordAt s.memMap c t = none := by
  induction ids generalizing s with
  | nil => exact ⟨hflag, hempty⟩
  | cons id ids ih =>
      obtain ⟨hflag', hempty'⟩ := ih (s := s.removeBulkDeleteId id) hflag hempty
      rcases removeBulkDeleteId_cases s id with hsame | ⟨d, r, hreg, hr⟩
      · rw [hsame] at hflag' hempty'
        exact ⟨hflag', hempty'⟩
      · rw [removeBulkDeleteId_of_registered hreg hr] at hflag' hempty'
        exact empty_of_eraseRecord hflag' hempty'

theorem flagAt_removeBulkDeleteEntry {ids : List Int} {c t : Int} {r : ActiveRecord}
    (h : recordAt (s.removeBulkDeleteEntry ids).memMap c t = some r) :
    flagAt (s.removeBulkDeleteEntry ids).memMap c = flagAt s.memMap c := by
  induction ids generalizing s with
  | nil => rfl
  | cons id ids ih =>
      refine (ih (s := s.removeBulkDeleteId id) h).trans ?_
      have hnext := (removeBulkDeleteEntry_drops (s.removeBulkDeleteId id) ids).record_of h
      rcases removeBulkDeleteId_cases s id with hsame | ⟨d, r', hreg, hr⟩
      · rw [hsame]
      · rw [removeBulkDeleteId_of_registered hreg hr] at hnext ⊢
        exact flagAt_eraseRecord_of_recordAt hnext

theorem flagAt_removeBulkDeleteEntry_of_not {ids : List Int} {c : Int}
    (h : ∀ t ∈ ids, ¬ s.BulkRegistered c t) :
    flagAt (s.removeBulkDeleteEntry ids).memMap c = flagAt s.memMap c := by
  induction ids generalizing s with
  | nil => rfl
  | cons id ids ih =>
      refine (ih (s := s.removeBulkDeleteId id) fun t ht hreg => ?_).trans ?_
      · exact h t (List.mem_cons_of_mem _ ht) hreg.of_removeBulkDeleteId
      · rcases removeBulkDeleteId_cases s id with hsame | ⟨d, r, hreg, hr⟩
        · rw [hsame]
        · have hne : d ≠ c := by
            rintro rfl
            exact h id List.mem_cons_self hreg
          rw [removeBulkDeleteId_of_registered hreg hr]
          unfold eraseRecord
          split
          · split
            · rw [flagAt_erase, if_neg hne]
            · rw [flagAt_insert, if_neg hne]
          · rfl

/-! ### Granting one lock after the other -/

/-- The state has what the first state had, and the granted records. -/
structure Holding (osdConfig : Bool) (s₀ : TransactionLockManager) (granted : List ActiveRecord)
    (s : TransactionLockManager) : Prop where
  records : ∀ c t r, recordAt s.memMap c t = some r ↔ recordAt s₀.memMap c t = some r ∨
    r ∈ granted ∧ getComponentName osdConfig r.objectName = c ∧ r.transactionId = t
  fresh : ∀ g ∈ granted,
    recordAt s₀.memMap (getComponentName osdConfig g.objectName) g.transactionId = none
  flagKept : ∀ c, (∀ g ∈ granted, getComponentName osdConfig g.objectName ≠ c) →
    flagAt s.memMap c = flagAt s₀.memMap c
  flagOld : ∀ c b, flagAt s₀.memMap c = some b → flagAt s.memMap c = some b
  compOld : ∀ (t : Int) c, s₀.compMap[t]? = some c → s.compMap[t]? = some c
  compNew : ∀ t : Int, s₀.compMap[t]? = none → (∀ g ∈ granted, g.transactionId ≠ t) →
    s.compMap[t]? = none
  compGranted : ∀ g ∈ granted, s₀.compMap[g.transactionId]? = none →
    ∃ g' ∈ granted, g'.transactionId = g.transactionId ∧
      s.compMap[g.transactionId]? = some (getComponentName osdConfig g'.objectName)
  names : ∀ n : String, (∀ g ∈ granted, g.objectName ≠ n) → s.nameMap[n]? = s₀.nameMap[n]?
  ids : ∀ g ∈ granted, ¬ (g.transactionId = -1 ∨ g.transactionId = -2)
  places : granted.Pairwise fun g g' =>
    ¬ (getComponentName osdConfig g.objectName = getComponentName osdConfig g'.objectName ∧
      g.transactionId = g'.transactionId)

variable {s₀ : TransactionLockManager} {granted : List ActiveRecord} {record : ActiveRecord}

theorem Holding.start (osdConfig : Bool) (s₀ : TransactionLockManager) :
    Holding osdConfig s₀ [] s₀ where
  records c t r := by simp
  fresh := by simp
  flagKept _ _ := rfl
  flagOld _ _ h := h
  compOld _ _ h := h
  compNew _ h _ := h
  compGranted := by simp
  names _ _ := rfl
  ids := by simp
  places := .nil

theorem Holding.grant (record : ActiveRecord) (h : Holding osdConfig s₀ granted s)
    (hnew : recordAt s.memMap (getComponentName osdConfig record.objectName)
      (s.grantedId record) = none)
    (hid : ¬ (s.grantedId record = -1 ∨ s.grantedId record = -2)) :
    Holding osdConfig s₀ (granted ++ [s.withGrantedId record])
      (s.grant osdConfig record).2 := by
  obtain ⟨-, hmem, hcomp⟩ := grant_of_new hnew
  have hfresh : recordAt s₀.memMap (getComponentName osdConfig record.objectName)
      (s.grantedId record) = none := by
    by_contra hold
    obtain ⟨r, hr⟩ := Option.ne_none_iff_exists'.mp hold
    rw [(h.records _ _ r).mpr (.inl hr)] at hnew
    cases hnew
  refine ⟨fun c t r => ?_, fun g hg => ?_, fun c hc => ?_, fun c b hb => ?_, fun t c ht => ?_,
    fun t ht hall => ?_, fun g hg ht => ?_, fun n hn => ?_, fun g hg => ?_,
    List.pairwise_append.mpr ⟨h.places, List.pairwise_singleton .., fun g hg g' hg' hplace => ?_⟩⟩
  · rw [hmem, recordAt_insertRecord, withGrantedId_transactionId]
    by_cases hct : getComponentName osdConfig record.objectName = c ∧ s.grantedId record = t
    · obtain ⟨rfl, rfl⟩ := hct
      rw [if_pos ⟨rfl, rfl⟩]
      rw [hnew, hfresh]
      constructor
      · intro heq
        obtain rfl := Option.some.inj heq
        exact .inr ⟨by simp, rfl, rfl⟩
      · rintro (hold | ⟨hin, hc, ht⟩)
        · cases hold
        · rcases List.mem_append.mp hin with hin | hin
          · have hthere := (h.records _ _ r).mpr (.inr ⟨hin, hc, ht⟩)
            rw [hnew] at hthere
            cases hthere
          · exact congrArg some (List.mem_singleton.mp hin).symm
    · rw [if_neg hct, h.records]
      simp only [List.mem_append, List.mem_singleton]
      constructor
      · rintro (hold | ⟨hin, hplaced⟩)
        · exact .inl hold
        · exact .inr ⟨.inl hin, hplaced⟩
      · rintro (hold | ⟨hin | rfl, hplaced⟩)
        · exact .inl hold
        · exact .inr ⟨hin, hplaced⟩
        · exact absurd hplaced hct
  · rcases List.mem_append.mp hg with hg | hg
    · exact h.fresh g hg
    · rw [List.mem_singleton.mp hg]
      exact hfresh
  · have hne : getComponentName osdConfig record.objectName ≠ c :=
      hc (s.withGrantedId record) (by simp)
    rw [hmem, flagAt_insertRecord, if_neg hne]
    exact h.flagKept c fun g hg => hc g (List.mem_append_left _ hg)
  · have hold := h.flagOld c b hb
    rw [hmem, flagAt_insertRecord]
    split
    · rename_i hcc
      rw [hcc, hold]
      rfl
    · exact hold
  · have hold := h.compOld t c ht
    rw [hcomp, getElem?_insertIfNew_eq, hold]
    simp
  · have hne : s.grantedId record ≠ t := hall (s.withGrantedId record) (by simp)
    rw [hcomp, getElem?_insertIfNew_eq]
    have hold := h.compNew t ht fun g hg => hall g (List.mem_append_left _ hg)
    simp [hne, hold]
  · rw [hcomp, getElem?_insertIfNew_eq]
    rcases List.mem_append.mp hg with hg | hg
    · obtain ⟨g', hg', hsame, hreg⟩ := h.compGranted g hg ht
      exact ⟨g', List.mem_append_left _ hg', hsame, by simp [hreg]⟩
    · rw [List.mem_singleton.mp hg, withGrantedId_transactionId] at ht ⊢
      by_cases hold : ∃ g' ∈ granted, g'.transactionId = s.grantedId record
      · obtain ⟨g', hg', heq⟩ := hold
        obtain ⟨g'', hg'', hsame, hreg⟩ := h.compGranted g' hg' (heq ▸ ht)
        exact ⟨g'', List.mem_append_left _ hg'', hsame.trans heq, by simp [heq ▸ hreg]⟩
      · have hnone := h.compNew _ ht fun g' hg' heq => hold ⟨g', hg', heq⟩
        exact ⟨s.withGrantedId record, by simp, rfl, by simp [hnone]⟩
  · have hne : record.objectName ≠ n := hn (s.withGrantedId record) (by simp)
    rw [grant_nameMap, pushElement, getElem?_insert_eq, if_neg hne]
    exact h.names n fun g hg => hn g (List.mem_append_left _ hg)
  · rcases List.mem_append.mp hg with hg | hg
    · exact h.ids g hg
    · rw [List.mem_singleton.mp hg]
      exact hid
  · obtain rfl := List.mem_singleton.mp hg'
    have hthere := (h.records _ _ g).mpr (.inr ⟨hg, hplace⟩)
    rw [withGrantedId_objectName, withGrantedId_transactionId, hnew] at hthere
    cases hthere

/-! ### Giving the locks back -/

/-- The component is not there, or has a record. -/
def HasRecords (mem : MemMap) (c : Int) : Prop :=
  flagAt mem c = none ∨ ∃ t r, recordAt mem c t = some r

/-- The removal takes back what the grants of the records have done to the table. -/
structure Undoable (osdConfig : Bool) (s₀ : TransactionLockManager)
    (granted : List ActiveRecord) : Prop where
  method : ∀ g ∈ granted, g.requestMethod = "BULK_DELETE"
  unlisted : ∀ g ∈ granted, s₀.nameMap[g.objectName]? = none
  unregistered : ∀ g ∈ granted, s₀.compMap[g.transactionId]? = none
  inhabited : ∀ g ∈ granted, HasRecords s₀.memMap (getComponentName osdConfig g.objectName)
  distinct : (granted.map (·.transactionId)).Nodup

theorem Holding.bulkRegistered (h : Holding osdConfig s₀ granted s)
    (hundo : Undoable osdConfig s₀ granted) {g : ActiveRecord} (hg : g ∈ granted) :
    s.BulkRegistered (getComponentName osdConfig g.objectName) g.transactionId ∧
      recordAt s.memMap (getComponentName osdConfig g.objectName) g.transactionId = some g := by
  have hrecord := (h.records _ _ g).mpr (.inr ⟨hg, rfl, rfl⟩)
  obtain ⟨g', hg', hsame, hreg⟩ := h.compGranted g hg (hundo.unregistered g hg)
  obtain rfl := List.inj_on_of_nodup_map hundo.distinct hg' hg hsame
  exact ⟨⟨hreg, g', hrecord, hundo.method g' hg⟩, hrecord⟩

theorem Holding.of_bulkRegistered (h : Holding osdConfig s₀ granted s)
    (hundo : Undoable osdConfig s₀ granted) {c t : Int}
    (ht : t ∈ granted.map (·.transactionId)) (hreg : s.BulkRegistered c t) :
    ∃ g ∈ granted, g.transactionId = t ∧ getComponentName osdConfig g.objectName = c := by
  obtain ⟨g, hg, rfl⟩ := List.mem_map.mp ht
  obtain ⟨⟨hcomp, -⟩, -⟩ := h.bulkRegistered hundo hg
  exact ⟨g, hg, rfl, Option.some.inj (hcomp.symm.trans hreg.1)⟩

/-- What is removed is exactly what was granted, if that can be undone. -/
theorem Holding.sameMaps (h : Holding osdConfig s₀ granted s)
    (hundo : Undoable osdConfig s₀ granted) {s₁ : TransactionLockManager}
    (hmem : s₁.memMap = s.memMap) (hcomp : s₁.compMap = s.compMap)
    (hnames : ∀ n : String, (∀ g ∈ granted, g.objectName ≠ n) →
      s₁.nameMap[n]? = s₀.nameMap[n]?) :
    SameMaps s₀ (s₁.removeBulkDeleteEntry (granted.map (·.transactionId))) := by
  have hreg : ∀ {c t}, s₁.BulkRegistered c t ↔ s.BulkRegistered c t := by
    simp only [BulkRegistered, hmem, hcomp, implies_true]
  have hdrops := removeBulkDeleteEntry_drops s₁ (granted.map (·.transactionId))
  have hgone : ∀ g ∈ granted, g.transactionId ∈ granted.map (·.transactionId) ∧
      s₁.BulkRegistered (getComponentName osdConfig g.objectName) g.transactionId := fun g hg =>
    ⟨List.mem_map_of_mem hg, hreg.mpr (h.bulkRegistered hundo hg).1⟩
  have hrecords : ∀ c t, recordAt (s₁.removeBulkDeleteEntry
      (granted.map (·.transactionId))).memMap c t = recordAt s₀.memMap c t := by
    intro c t
    by_cases hct : ∃ g ∈ granted, getComponentName osdConfig g.objectName = c ∧ g.transactionId = t
    · obtain ⟨g, hg, rfl, rfl⟩ := hct
      rw [h.fresh g hg]
      exact recordAt_removeBulkDeleteEntry (hgone g hg).1 (hgone g hg).2
    · rw [hdrops.record_kept, hmem]
      · apply Option.ext
        intro r
        rw [h.records]
        exact or_iff_left fun ⟨hin, hc, ht⟩ => hct ⟨r, hin, hc, ht⟩
      · rintro ⟨ht, hr⟩
        obtain ⟨g, hg, hid, hc⟩ := h.of_bulkRegistered hundo ht (hreg.mp hr)
        exact hct ⟨g, hg, hc, hid⟩
  refine ⟨fun n => ?_, fun c => ?_, hrecords, fun t => ?_⟩
  · by_cases hn : ∃ g ∈ granted, g.objectName = n
    · obtain ⟨g, hg, rfl⟩ := hn
      rw [hundo.unlisted g hg]
      exact nameMap_removeBulkDeleteEntry (hgone g hg).1 (hgone g hg).2
        (hmem ▸ (h.bulkRegistered hundo hg).2)
    · rw [nameMap_removeBulkDeleteEntry_of_not, hnames n fun g hg hname => hn ⟨g, hg, hname⟩]
      intro c t ht r hr hrecord hname
      obtain ⟨g, hg, rfl, rfl⟩ := h.of_bulkRegistered hundo ht (hreg.mp hr)
      rw [hmem, (h.bulkRegistered hundo hg).2] at hrecord
      exact hn ⟨g, hg, Option.some.inj hrecord ▸ hname⟩
  · by_cases hc : ∃ g ∈ granted, getComponentName osdConfig g.objectName = c
    · obtain ⟨g, hg, rfl⟩ := hc
      rcases hundo.inhabited g hg with hnone | ⟨t, r, hr⟩
      · rw [hnone]
        by_contra hleft
        obtain ⟨b, hb⟩ := Option.ne_none_iff_exists'.mp hleft
        obtain ⟨-, hempty⟩ := empty_of_removeBulkDeleteEntry hb fun t => by
          rw [hrecords, recordAt_eq_none_of_flagAt hnone]
        have hthere := (h.bulkRegistered hundo hg).2
        rw [← hmem, hempty] at hthere
        cases hthere
      · rw [flagAt_removeBulkDeleteEntry ((hrecords _ t).trans hr), hmem]
        obtain ⟨b, hb⟩ := flagAt_isSome_of_recordAt hr
        rw [hb]
        exact h.flagOld _ b hb
    · rw [flagAt_removeBulkDeleteEntry_of_not, hmem, h.flagKept c fun g hg heq => hc ⟨g, hg, heq⟩]
      intro t ht hr
      obtain ⟨g, hg, -, heq⟩ := h.of_bulkRegistered hundo ht (hreg.mp hr)
      exact hc ⟨g, hg, heq⟩
  · by_cases ht : ∃ g ∈ granted, g.transactionId = t
    · obtain ⟨g, hg, rfl⟩ := ht
      rw [hundo.unregistered g hg]
      exact hdrops.comp_removed (hgone g hg) (hmem ▸ (h.bulkRegistered hundo hg).2)
    · rw [hdrops.comp_kept, hcomp]
      · cases hold : s₀.compMap[t]? with
        | none => exact h.compNew t hold fun g hg heq => ht ⟨g, hg, heq⟩
        | some c => exact h.compOld t c hold
      · rintro c ⟨hin, -⟩
        obtain ⟨g, hg, heq⟩ := List.mem_map.mp hin
        exact absurd ⟨g, hg, heq⟩ ht

/-- If the table is as before, the grants could be undone. -/
theorem Holding.undoable (h : Holding osdConfig s₀ granted s)
    {s₁ : TransactionLockManager} (hmem : s₁.memMap = s.memMap)
    (hsame : SameMaps s₀ (s₁.removeBulkDeleteEntry (granted.map (·.transactionId)))) :
    Undoable osdConfig s₀ granted := by
  have hdrops := removeBulkDeleteEntry_drops s₁ (granted.map (·.transactionId))
  have hthere : ∀ g ∈ granted,
      recordAt s₁.memMap (getComponentName osdConfig g.objectName) g.transactionId =
        some g := fun g hg => by
    rw [hmem, h.records]
    exact .inr ⟨hg, rfl, rfl⟩
  have hgone : ∀ g ∈ granted, g.transactionId ∈ granted.map (·.transactionId) ∧
      s₁.BulkRegistered (getComponentName osdConfig g.objectName) g.transactionId := by
    intro g hg
    by_contra hkept
    have hrecord := hsame.records (getComponentName osdConfig g.objectName) g.transactionId
    rw [hdrops.record_kept hkept, hthere g hg, h.fresh g hg] at hrecord
    cases hrecord
  refine ⟨fun g hg => ?_, fun g hg => ?_, fun g hg => ?_, fun g hg => ?_, ?_⟩
  · obtain ⟨-, -, r, hr, hbulk⟩ := hgone g hg
    obtain rfl := Option.some.inj ((hthere g hg).symm.trans hr)
    exact hbulk
  · rw [← hsame.names]
    exact nameMap_removeBulkDeleteEntry (hgone g hg).1 (hgone g hg).2 (hthere g hg)
  · rw [← hsame.comps]
    exact hdrops.comp_removed (hgone g hg) (hthere g hg)
  · by_contra hempty
    simp only [HasRecords, not_or, not_exists] at hempty
    obtain ⟨hflag, hnone⟩ := hempty
    obtain ⟨b, hb⟩ := Option.ne_none_iff_exists'.mp hflag
    obtain ⟨-, hbefore⟩ := empty_of_removeBulkDeleteEntry ((hsame.flags _).trans hb) fun t => by
      rw [hsame.records]
      exact Option.eq_none_iff_forall_ne_some.mpr fun r => hnone t r
    have hrecord := hthere g hg
    rw [hbefore] at hrecord
    cases hrecord
  · refine List.pairwise_map.mpr (h.places.imp_of_mem fun {g g'} hg hg' hne hid => hne ⟨?_, hid⟩)
    have hreg := (hgone g hg).2.1
    rw [hid, (hgone g' hg').2.1] at hreg
    exact (Option.some.inj hreg).symm

/-! ### What a refusal leaves -/

theorem acquireLock_of_full (record : ActiveRecord) (h : s.isFull = true) :
    s.acquireLock osdConfig record = some (-2, s) := by
  simp [acquireLock, h]

theorem acquireLock_of_emptyList (h : s.isFull = false)
    (hn : s.nameMap[record.objectName]? = some []) : s.acquireLock osdConfig record = none := by
  simp [acquireLock, h, acquireTransactionLock, hn]

theorem acquireLock_eq (osdConfig : Bool) (h : s.isFull = false)
    (hn : s.nameMap[record.objectName]? ≠ some []) :
    s.acquireLock osdConfig record =
      some (if s.frontRejects record then (-1, s) else s.grant osdConfig record) := by
  rw [acquireLock, h]
  unfold acquireTransactionLock frontRejects elementsAt
  rcases hname : s.nameMap[record.objectName]? with _ | _ | ⟨front, rest⟩
  · simp
  · exact absurd hname hn
  · simp only [Bool.false_eq_true, if_false, Option.getD_some]
    split <;> rfl

/-- An element is appended to the name although the lock is refused. -/
theorem nameMap_grant_ne (osdConfig : Bool) (s : TransactionLockManager)
    (record : ActiveRecord) :
    (s.grant osdConfig record).2.nameMap[record.objectName]? ≠ s.nameMap[record.objectName]? := by
  rw [grant_nameMap, pushElement, getElem?_insert_eq, if_pos rfl]
  cases s.nameMap[record.objectName]? with
  | none => simp
  | some elements => simp

/-- A request that is refused changes nothing, unless the component has its id already or the id is
a result of a refusal. -/
def AcquireClean (osdConfig : Bool) (s : TransactionLockManager) (record : ActiveRecord) : Prop :=
  s.isFull = true ∨ s.nameMap[record.objectName]? ≠ some [] ∧
    (s.frontRejects record = true ∨
      recordAt s.memMap (getComponentName osdConfig record.objectName) (s.grantedId record) = none ∧
        ¬ (s.grantedId record = -1 ∨ s.grantedId record = -2))

theorem acquire_clean_iff (osdConfig : Bool) (s : TransactionLockManager) (record : ActiveRecord) :
    (∃ r s', s.acquireLock osdConfig record = some (r, s') ∧
      (r = -1 ∨ r = -2 → SameMaps s s' ∧ s'.id = s.id)) ↔ AcquireClean osdConfig s record := by
  unfold AcquireClean
  by_cases hfull : s.isFull = true
  · rw [acquireLock_of_full record hfull]
    exact iff_of_true ⟨-2, s, rfl, fun _ => ⟨.refl s, rfl⟩⟩ (.inl hfull)
  rw [or_iff_right hfull]
  rw [Bool.not_eq_true] at hfull
  by_cases hn : s.nameMap[record.objectName]? = some []
  · rw [acquireLock_of_emptyList hfull hn]
    exact iff_of_false (by simp) fun h => h.1 hn
  rw [acquireLock_eq osdConfig hfull hn, and_iff_right hn]
  by_cases hreject : s.frontRejects record = true
  · rw [if_pos hreject]
    exact iff_of_true ⟨-1, s, rfl, fun _ => ⟨.refl s, rfl⟩⟩ (.inl hreject)
  rw [if_neg hreject, or_iff_right hreject]
  have hname := nameMap_grant_ne osdConfig s record
  obtain ⟨r₁, s₁, hgrant⟩ : ∃ r₁ s₁, s.grant osdConfig record = (r₁, s₁) := ⟨_, _, rfl⟩
  rw [hgrant] at hname ⊢
  cases hstored : recordAt s.memMap (getComponentName osdConfig record.objectName)
      (s.grantedId record) with
  | some stored =>
      obtain ⟨hvalue, -⟩ := grant_of_stored hstored
      rw [hgrant] at hvalue
      refine iff_of_false ?_ (by simp)
      rintro ⟨r, s', heq, hclean⟩
      obtain ⟨rfl, rfl⟩ := Prod.mk.inj (Option.some.inj heq)
      exact hname ((hclean (.inl hvalue)).1.names record.objectName)
  | none =>
      obtain ⟨hvalue, hmem, -⟩ := grant_of_new hstored
      rw [hgrant] at hvalue hmem
      have hvalue : r₁ = s.grantedId record := hvalue
      constructor
      · rintro ⟨r, s', heq, hclean⟩
        obtain ⟨rfl, rfl⟩ := Prod.mk.inj (Option.some.inj heq)
        refine ⟨rfl, fun hid => ?_⟩
        have hrecord := (hclean (hvalue ▸ hid)).1.records
          (getComponentName osdConfig record.objectName) (s.grantedId record)
        rw [hmem, recordAt_insertRecord, if_pos ⟨rfl, rfl⟩, hstored] at hrecord
        cases hrecord
      · rintro ⟨-, hid⟩
        exact ⟨r₁, s₁, rfl, fun hrefused => absurd (hvalue ▸ hrefused) hid⟩

/-- `s₀` is the table before the call, and the granted records are those of the entries before. All
entries are granted and the journal takes them, or the grants can be undone and the refusal of the
next entry leaves nothing that is not removed with them. -/
def BulkClean (osdConfig : Bool) (s₀ : TransactionLockManager) (queued : Bool)
    (s : TransactionLockManager) (granted : List ActiveRecord) : List ActiveRecord → Prop
  | [] => granted ≠ [] ∧ queued = true
  | record :: rest =>
      if s.isFull then Undoable osdConfig s₀ granted
      else if s.nameMap[record.objectName]? = some [] then False
      else if s.frontRejects record then Undoable osdConfig s₀ granted
      else if (recordAt s.memMap (getComponentName osdConfig record.objectName)
          (s.grantedId record)).isSome then
        Undoable osdConfig s₀ granted ∧ ∃ g ∈ granted, g.objectName = record.objectName
      else if s.grantedId record = -1 ∨ s.grantedId record = -2 then False
      else BulkClean osdConfig s₀ queued (s.grant osdConfig record).2
        (granted ++ [s.withGrantedId record]) rest

theorem rollback_eq (s : TransactionLockManager) (ids : List Int) :
    (if ids = [] then s else s.removeBulkDeleteEntry ids) = s.removeBulkDeleteEntry ids := by
  split
  · rename_i h
    rw [h]
    rfl
  · rfl

/-- The call from the entry on that comes after the granted ones. -/
theorem Holding.clean_iff (h : Holding osdConfig s₀ granted s) {entries rest : List ActiveRecord}
    (hlength : entries.length = granted.length + rest.length) (queued : Bool) :
    (∃ r s', ((s.acquireAll osdConfig (granted.map (·.transactionId)) rest).bind fun (id, s') =>
        if id ≠ 0 then some (id, s')
        else if entries = [] then none
        else if queued then some (0, s')
        else some (-3, s')) = some (r, s') ∧ (r ≠ 0 → SameMaps s₀ s')) ↔
      BulkClean osdConfig s₀ queued s granted rest := by
  have hclean : SameMaps s₀ (s.removeBulkDeleteEntry (granted.map (·.transactionId))) ↔
      Undoable osdConfig s₀ granted :=
    ⟨h.undoable rfl, fun hundo => h.sameMaps hundo rfl rfl h.names⟩
  induction rest generalizing s granted with
  | nil =>
      have hempty : entries = [] ↔ granted = [] := by
        rw [← List.length_eq_zero_iff, hlength, ← List.length_eq_zero_iff]
        rfl
      simp only [acquireAll, Option.bind_some, ne_eq, not_true_eq_false, if_false, BulkClean,
        hempty]
      by_cases hnil : granted = []
      · simp [hnil]
      · cases queued with
        | true => simp [hnil]
        | false =>
            simp only [hnil, if_false, Bool.false_eq_true, and_false, iff_false]
            rintro ⟨r, s', heq, hsame⟩
            obtain ⟨rfl, rfl⟩ := Prod.mk.inj (Option.some.inj heq)
            obtain ⟨g, hg⟩ := List.exists_mem_of_ne_nil _ hnil
            have hthere := (h.records _ _ g).mpr (.inr ⟨hg, rfl, rfl⟩)
            rw [(hsame (by decide)).records, h.fresh g hg] at hthere
            cases hthere
  | cons record rest ih =>
      have hrefused : ∀ (id : Int) (s₁ : TransactionLockManager), id = -1 ∨ id = -2 →
          s.acquireLock osdConfig record = some (id, s₁) →
          ((∃ r s', ((s.acquireAll osdConfig (granted.map (·.transactionId))
              (record :: rest)).bind fun (id, s') =>
            if id ≠ 0 then some (id, s')
            else if entries = [] then none
            else if queued then some (0, s')
            else some (-3, s')) = some (r, s') ∧ (r ≠ 0 → SameMaps s₀ s')) ↔
          SameMaps s₀ (s₁.removeBulkDeleteEntry (granted.map (·.transactionId)))) := by
        intro id s₁ hid hacquire
        have hne : id ≠ 0 := by
          rcases hid with rfl | rfl <;> decide
        simp only [acquireAll, hacquire, if_pos hid, rollback_eq, Option.bind_some, if_pos hne]
        constructor
        · rintro ⟨r, s', heq, hsame⟩
          obtain ⟨rfl, rfl⟩ := Prod.mk.inj (Option.some.inj heq)
          exact hsame hne
        · exact fun hsame => ⟨_, _, rfl, fun _ => hsame⟩
      rw [BulkClean]
      by_cases hfull : s.isFull = true
      · rw [if_pos hfull, hrefused _ _ (.inr rfl) (acquireLock_of_full record hfull)]
        exact hclean
      rw [if_neg hfull]
      rw [Bool.not_eq_true] at hfull
      by_cases hn : s.nameMap[record.objectName]? = some []
      · rw [if_pos hn, acquireAll, acquireLock_of_emptyList hfull hn]
        simp
      rw [if_neg hn]
      have hacquire := acquireLock_eq osdConfig hfull hn
      by_cases hreject : s.frontRejects record = true
      · rw [if_pos hreject] at hacquire ⊢
        rw [hrefused _ _ (.inl rfl) hacquire]
        exact hclean
      rw [if_neg hreject] at hacquire ⊢
      have hname := nameMap_grant_ne osdConfig s record
      have hnames : (s.grant osdConfig record).2.nameMap = _ := grant_nameMap s record
      have hgranted := h.grant record
      obtain ⟨r₁, s₁, hgrant⟩ : ∃ r₁ s₁, s.grant osdConfig record = (r₁, s₁) := ⟨_, _, rfl⟩
      rw [hgrant] at hacquire hname hnames hgranted ⊢
      cases hstored : recordAt s.memMap (getComponentName osdConfig record.objectName)
          (s.grantedId record) with
      | some stored =>
          obtain ⟨hvalue, hmem, hcomp⟩ := grant_of_stored hstored
          rw [hgrant] at hvalue hmem hcomp
          rw [hrefused _ _ (.inl hvalue) hacquire, Option.isSome_some, if_pos rfl]
          constructor
          · intro hsame
            have hundo := h.undoable hmem hsame
            refine ⟨hundo, ?_⟩
            by_contra hnone
            refine hname ?_
            rw [h.names _ fun g hg hname => hnone ⟨g, hg, hname⟩, ← hsame.names,
              nameMap_removeBulkDeleteEntry_of_not]
            intro c t ht r hreg hrecord heq
            have hreg' : s.BulkRegistered c t := by
              rw [BulkRegistered, hmem, hcomp] at hreg
              exact hreg
            obtain ⟨g, hg, rfl, rfl⟩ := h.of_bulkRegistered hundo ht hreg'
            rw [hmem, (h.bulkRegistered hundo hg).2] at hrecord
            exact hnone ⟨g, hg, Option.some.inj hrecord ▸ heq⟩
          · rintro ⟨hundo, g, hg, hname⟩
            refine h.sameMaps hundo hmem hcomp fun n hall => ?_
            have hne : record.objectName ≠ n := hname ▸ hall g hg
            rw [hnames, pushElement, getElem?_insert_eq, if_neg hne]
            exact h.names n hall
      | none =>
          obtain ⟨hvalue, hmem, -⟩ := grant_of_new hstored
          rw [hgrant] at hvalue hmem
          have hvalue : r₁ = s.grantedId record := hvalue
          rw [Option.isSome_none, if_neg (by simp)]
          by_cases hid : s.grantedId record = -1 ∨ s.grantedId record = -2
          · rw [if_pos hid, hrefused _ _ (hvalue ▸ hid) hacquire, iff_false]
            intro hsame
            have hkept := (removeBulkDeleteEntry_drops s₁
              (granted.map (·.transactionId))).record_kept
              (c := getComponentName osdConfig record.objectName) (t := s.grantedId record)
              fun hreg => by
                obtain ⟨g, hg, heq⟩ := List.mem_map.mp hreg.1
                exact h.ids g hg (heq ▸ hid)
            rw [hsame.records, hmem, recordAt_insertRecord, if_pos ⟨rfl, rfl⟩, hstored] at hkept
            have hthere := (h.records _ _ _).mpr (.inl hkept)
            rw [hstored] at hthere
            cases hthere
          · rw [if_neg hid]
            have hnext := hgranted hstored hid
            have hall : s.acquireAll osdConfig (granted.map (·.transactionId)) (record :: rest) =
                s₁.acquireAll osdConfig
                  ((granted ++ [s.withGrantedId record]).map (·.transactionId)) rest := by
              rw [acquireAll, hacquire]
              simp only [hvalue, if_neg hid, List.map_append, List.map_cons, List.map_nil,
                withGrantedId_transactionId]
            rw [hall]
            refine ih hnext (by simp [hlength]; omega) ⟨hnext.undoable rfl, fun hundo =>
              hnext.sameMaps hundo rfl rfl hnext.names⟩

theorem bulk_clean_iff (osdConfig : Bool) (s : TransactionLockManager)
    (entries : List ActiveRecord) (queued : Bool) :
    (∃ r s', s.addBulkDeleteTransaction osdConfig entries queued = some (r, s') ∧
      (r ≠ 0 → SameMaps s s')) ↔
      s.checkForQueueSize entries.length = true ∨ BulkClean osdConfig s queued s [] entries := by
  rw [addBulkDeleteTransaction]
  by_cases hsize : s.checkForQueueSize entries.length = true
  · rw [if_pos hsize]
    exact iff_of_true ⟨-2, s, rfl, fun _ => .refl s⟩ (.inl hsize)
  · rw [if_neg hsize, or_iff_right hsize]
    exact (Holding.start osdConfig s).clean_iff (by simp) queued

/-- A refused request leaves the three maps and the counter as they are. -/
def RefusalLeaves (osdConfig : Bool) (s : TransactionLockManager) (record : ActiveRecord) : Prop :=
  ∃ r s', s.acquireLock osdConfig record = some (r, s') ∧
    (r = -1 ∨ r = -2 → SameMaps s s' ∧ s'.id = s.id)

/-- A bulk acquisition that fails leaves the lock table as it was. -/
def BulkFailureLeaves (osdConfig : Bool) (s : TransactionLockManager) (entries : List ActiveRecord)
    (queued : Bool) : Prop :=
  ∃ r s', s.addBulkDeleteTransaction osdConfig entries queued = some (r, s') ∧
    (r ≠ 0 → SameMaps s s')

/-- Exactly when a failed acquisition has no effect. -/
theorem failed_acquisition_iff (osdConfig : Bool) (s : TransactionLockManager)
    (record : ActiveRecord) (entries : List ActiveRecord) (queued : Bool) :
    (RefusalLeaves osdConfig s record ↔ AcquireClean osdConfig s record) ∧
      (BulkFailureLeaves osdConfig s entries queued ↔
        s.checkForQueueSize entries.length = true ∨ BulkClean osdConfig s queued s [] entries) :=
  ⟨acquire_clean_iff osdConfig s record, bulk_clean_iff osdConfig s entries queued⟩

/-- A request on an object of component 26. -/
def requestOf (lockType : LockType) (requestMethod : String) (transactionId : Int) :
    ActiveRecord :=
  ⟨lockType.code, "1a/b", requestMethod, "obj", transactionId, 0⟩

/-- A request with the id of a lock is refused and listed once more; and the refusal of the second
lock of a list takes the name from a reader that was there before. -/
theorem failed_acquisition_leaves_traces : ∃ s,
    run (step false) (init 1) [.acquire (requestOf .read "GET" 7)] = some s ∧
      ¬ RefusalLeaves false s (requestOf .read "GET" 7) ∧
      ¬ BulkFailureLeaves false s
        [requestOf .read "BULK_DELETE" 0, requestOf .write "BULK_DELETE" 0] true := by
  refine ⟨_, rfl, ?_, ?_⟩
  · rw [RefusalLeaves, acquire_clean_iff]
    unfold AcquireClean
    decide
  · rintro ⟨r, s', heq, hsame⟩
    have hvalue := congrArg (Option.map fun p => (p.1, p.2.nameMap["1a/b"]?)) heq
    obtain ⟨hr, hgone⟩ := Prod.mk.inj (Option.some.inj (Eq.trans (by decide) hvalue :
      some ((-1 : Int), (none : Option ElementList)) = some (r, s'.nameMap["1a/b"]?)))
    have hkept := (hsame (hr ▸ by decide)).names "1a/b"
    rw [← hgone] at hkept
    exact absurd hkept (by decide)

end TransactionLockManager

end ObjectStorage.Transaction
