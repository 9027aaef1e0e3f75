import ObjectStorage.Transaction.LockViews

/-!
The operations of the lock manager that give records up, in terms of the lookups in its indexes:
bulk removal, marking components unknown and extracting components.
-/

namespace ObjectStorage.Transaction.TransactionLockManager

open Std Library

variable {osdConfig : Bool} {s s' s'' : TransactionLockManager}

@[simp] theorem setLastTransactionId_memMap (s : TransactionLockManager) (t : Int) :
    (s.setLastTransactionId t).memMap = s.memMap := by
  unfold setLastTransactionId
  split <;> rfl

@[simp] theorem setLastTransactionId_compMap (s : TransactionLockManager) (t : Int) :
    (s.setLastTransactionId t).compMap = s.compMap := by
  unfold setLastTransactionId
  split <;> rfl

theorem findRecord?_eq_some {t c : Int} {r : ActiveRecord} :
    s.findRecord? t = some (c, r) ↔ s.compMap[t]? = some c ∧ recordAt s.memMap c t = some r := by
  unfold findRecord? recordAt
  cases hc : s.compMap[t]? with
  | none => simp
  | some d =>
      cases hd : s.memMap[d]? with
      | none =>
          simp only [Option.bind_eq_bind, Option.bind_some, hd, Option.bind_none, reduceCtorEq,
            Option.some.injEq, false_iff, not_and]
          rintro rfl
          simp [hd]
      | some p =>
          cases hr : p.1[t]? with
          | none =>
              simp only [Option.bind_eq_bind, Option.bind_some, hd, hr, Option.bind_none,
                reduceCtorEq, Option.some.injEq, false_iff, not_and]
              rintro rfl
              simp [hd, hr]
          | some r' =>
              simp only [Option.bind_eq_bind, Option.bind_some, hd, hr, Option.pure_def,
                Option.some.injEq, Prod.mk.injEq]
              constructor
              · rintro ⟨rfl, rfl⟩
                simp [hd, hr]
              · rintro ⟨rfl, h⟩
                simpa [hd, hr] using h

/-! ### Records given up -/

/-- The records at the places in `removed` leave the owned components, and with them go their ids
and everything listed under their names. -/
structure Drops (removed : Int → Int → Prop) (s s' : TransactionLockManager) : Prop where
  record_of : ∀ {c t r}, recordAt s'.memMap c t = some r → recordAt s.memMap c t = some r
  record_kept : ∀ {c t}, ¬ removed c t → recordAt s'.memMap c t = recordAt s.memMap c t
  owned_kept : ∀ {c t}, ¬ removed c t → ownedAt s'.memMap c t = ownedAt s.memMap c t
  owned_removed : ∀ {c t}, removed c t → ownedAt s'.memMap c t = none
  comp_kept : ∀ {t}, (∀ c, removed c t → recordAt s.memMap c t = none) →
    s'.compMap[t]? = s.compMap[t]?
  comp_removed : ∀ {c t r}, removed c t → recordAt s.memMap c t = some r → s'.compMap[t]? = none
  names_kept : ∀ {n}, (∀ c t r, removed c t → recordAt s.memMap c t = some r →
    r.objectName ≠ n) → elementsAt s'.nameMap n = elementsAt s.nameMap n
  names_removed : ∀ {c t r}, removed c t → recordAt s.memMap c t = some r →
    elementsAt s'.nameMap r.objectName = []
  nonempty : ListsNonempty s.nameMap → ListsNonempty s'.nameMap

theorem Drops.refl (s : TransactionLockManager) : Drops (fun _ _ => False) s s where
  record_of h := h
  record_kept _ := rfl
  owned_kept _ := rfl
  owned_removed h := h.elim
  comp_kept _ := rfl
  comp_removed h := h.elim
  names_kept _ := rfl
  names_removed h := h.elim
  nonempty h := h

theorem Drops.comp_eq_none {removed : Int → Int → Prop} (h : Drops removed s s') {t : Int}
    (ht : s.compMap[t]? = none) : s'.compMap[t]? = none := by
  by_cases hex : ∃ c r, removed c t ∧ recordAt s.memMap c t = some r
  · obtain ⟨c, r, hc, hr⟩ := hex
    exact h.comp_removed hc hr
  · rw [h.comp_kept, ht]
    intro c hc
    cases hr : recordAt s.memMap c t with
    | none => rfl
    | some r => exact absurd ⟨c, r, hc, hr⟩ hex

/-- What is still registered was registered before, and nothing stored under its id is dropped. -/
theorem Drops.comp_of {removed : Int → Int → Prop} (h : Drops removed s s') {t c : Int}
    (ht : s'.compMap[t]? = some c) :
    s.compMap[t]? = some c ∧ ∀ c', removed c' t → recordAt s.memMap c' t = none := by
  have hnone : ∀ c', removed c' t → recordAt s.memMap c' t = none := by
    intro c' hc'
    cases hr : recordAt s.memMap c' t with
    | none => rfl
    | some r => simp [h.comp_removed hc' hr] at ht
  exact ⟨(h.comp_kept hnone).symm.trans ht, hnone⟩

theorem Drops.names_eq_nil {removed : Int → Int → Prop} (h : Drops removed s s') {n : String}
    (hn : elementsAt s.nameMap n = []) : elementsAt s'.nameMap n = [] := by
  by_cases hex : ∃ c t r, removed c t ∧ recordAt s.memMap c t = some r ∧ r.objectName = n
  · obtain ⟨c, t, r, hc, hr, rfl⟩ := hex
    exact h.names_removed hc hr
  · rw [h.names_kept, hn]
    intro c t r hc hr hname
    exact hex ⟨c, t, r, hc, hr, hname⟩

theorem Drops.trans {R R' : Int → Int → Prop} (h : Drops R s s') (h' : Drops R' s' s'') :
    Drops (fun c t => R c t ∨ R' c t) s s'' where
  record_of hr := h.record_of (h'.record_of hr)
  record_kept hn := by
    obtain ⟨hR, hR'⟩ := not_or.mp hn
    rw [h'.record_kept hR', h.record_kept hR]
  owned_kept hn := by
    obtain ⟨hR, hR'⟩ := not_or.mp hn
    rw [h'.owned_kept hR', h.owned_kept hR]
  owned_removed {c t} hc := by
    by_cases hR' : R' c t
    · exact h'.owned_removed hR'
    · rw [h'.owned_kept hR', h.owned_removed (hc.resolve_right hR')]
  comp_kept {t} hnone := by
    rw [h'.comp_kept, h.comp_kept fun c hc => hnone c (Or.inl hc)]
    intro c hc
    cases hr : recordAt s'.memMap c t with
    | none => rfl
    | some r => simpa [h.record_of hr] using hnone c (Or.inr hc)
  comp_removed {c t r} hc hr := by
    by_cases hR : R c t
    · exact h'.comp_eq_none (h.comp_removed hR hr)
    · exact h'.comp_removed (hc.resolve_left hR) ((h.record_kept hR).trans hr)
  names_kept {n} hne := by
    rw [h'.names_kept fun c t r hc hr => hne c t r (Or.inr hc) (h.record_of hr),
      h.names_kept fun c t r hc => hne c t r (Or.inl hc)]
  names_removed {c t r} hc hr := by
    by_cases hR : R c t
    · exact h'.names_eq_nil (h.names_removed hR hr)
    · exact h'.names_removed (hc.resolve_left hR) ((h.record_kept hR).trans hr)
  nonempty hn := h'.nonempty (h.nonempty hn)

/-- Places that store no record may be added to the removed ones or left out. -/
theorem Drops.congr {R R' : Int → Int → Prop} (h : Drops R s s')
    (hiff : ∀ c t r, recordAt s.memMap c t = some r → (R c t ↔ R' c t)) : Drops R' s s' where
  record_of := h.record_of
  record_kept {c t} hc := by
    cases hr : recordAt s.memMap c t with
    | some r => rw [h.record_kept (mt (hiff c t r hr).mp hc), hr]
    | none =>
        cases hr' : recordAt s'.memMap c t with
        | none => rfl
        | some r => simpa [hr] using h.record_of hr'
  owned_kept {c t} hc := by
    cases hr : recordAt s.memMap c t with
    | some r => exact h.owned_kept (mt (hiff c t r hr).mp hc)
    | none =>
        have hr' : recordAt s'.memMap c t = none := by
          cases hr' : recordAt s'.memMap c t with
          | none => rfl
          | some r => simpa [hr] using h.record_of hr'
        simp [ownedAt, hr, hr']
  owned_removed {c t} hc := by
    cases hr : recordAt s.memMap c t with
    | some r => exact h.owned_removed ((hiff c t r hr).mpr hc)
    | none =>
        cases ho : ownedAt s'.memMap c t with
        | none => rfl
        | some r => simpa [hr] using h.record_of (recordAt_of_ownedAt ho)
  comp_kept {t} hnone := by
    apply h.comp_kept
    intro c hc
    cases hr : recordAt s.memMap c t with
    | none => rfl
    | some r => simpa [hr] using hnone c ((hiff c t r hr).mp hc)
  comp_removed {c t r} hc hr := h.comp_removed ((hiff c t r hr).mpr hc) hr
  names_kept {n} hne := h.names_kept fun c t r hc hr => hne c t r ((hiff c t r hr).mp hc) hr
  names_removed {c t r} hc hr := h.names_removed ((hiff c t r hr).mpr hc) hr
  nonempty := h.nonempty

/-! ### Bulk removal -/

/-- An id registered for a stored record of the bulk delete kind. -/
def BulkRegistered (s : TransactionLockManager) (c t : Int) : Prop :=
  s.compMap[t]? = some c ∧
    ∃ r, recordAt s.memMap c t = some r ∧ r.requestMethod = "BULK_DELETE"

theorem removeBulkDeleteId_drops (s : TransactionLockManager) (id : Int) :
    Drops (fun c t => t = id ∧ s.BulkRegistered c t) s (s.removeBulkDeleteId id) := by
  unfold removeBulkDeleteId
  cases hfind : s.findRecord? id with
  | none =>
      refine (Drops.refl s).congr fun c t r hr => ⟨False.elim, ?_⟩
      rintro ⟨rfl, hcomp, -⟩
      simpa [hfind] using findRecord?_eq_some.mpr ⟨hcomp, hr⟩
  | some found =>
      obtain ⟨d, record⟩ := found
      obtain ⟨hcomp, hrec⟩ := findRecord?_eq_some.mp hfind
      by_cases hbulk : record.requestMethod = "BULK_DELETE"
      · have hplace : ∀ {c t}, (t = id ∧ s.BulkRegistered c t) ↔ d = c ∧ id = t := by
          intro c t
          constructor
          · rintro ⟨rfl, hc, -⟩
            exact ⟨Option.some.inj (hcomp.symm.trans hc), rfl⟩
          · rintro ⟨rfl, rfl⟩
            exact ⟨rfl, hcomp, record, hrec, hbulk⟩
        simp only [hbulk, if_true]
        exact {
          record_of := fun {c t r} hr => by
            rw [recordAt_eraseRecord] at hr
            by_cases hct : d = c ∧ id = t
            · simp [hct] at hr
            · rwa [if_neg hct] at hr
          record_kept := fun {c t} hc => by
            rw [recordAt_eraseRecord, if_neg (mt hplace.mpr hc)]
          owned_kept := fun {c t} hc => by
            rw [ownedAt_eraseRecord, if_neg (mt hplace.mpr hc)]
          owned_removed := fun {c t} hc => by
            rw [ownedAt_eraseRecord, if_pos (hplace.mp hc)]
          comp_kept := fun {t} hnone => by
            have hne : id ≠ t := by
              rintro rfl
              simpa [hrec] using hnone d (hplace.mpr ⟨rfl, rfl⟩)
            simp [hne]
          comp_removed := fun {c t r} hc _ => by
            simp [(hplace.mp hc).2]
          names_kept := fun {n} hne => by
            have hn := hne d id record (hplace.mpr ⟨rfl, rfl⟩) hrec
            rw [elementsAt_erase, if_neg hn]
          names_removed := fun {c t r} hc hr => by
            obtain ⟨rfl, rfl⟩ := hplace.mp hc
            obtain rfl := Option.some.inj (hrec.symm.trans hr)
            rw [elementsAt_erase, if_pos rfl]
          nonempty := fun hn => listsNonempty_erase hn _ }
      · simp only [hbulk, if_false]
        refine (Drops.refl s).congr fun c t r hr => ⟨False.elim, ?_⟩
        rintro ⟨rfl, hc, r', hr', hb⟩
        obtain rfl := Option.some.inj (hcomp.symm.trans hc)
        obtain rfl := Option.some.inj (hrec.symm.trans hr')
        exact hbulk hb

theorem removeBulkDeleteEntry_drops (s : TransactionLockManager) (ids : List Int) :
    Drops (fun c t => t ∈ ids ∧ s.BulkRegistered c t) s (s.removeBulkDeleteEntry ids) := by
  induction ids generalizing s with
  | nil => exact (Drops.refl s).congr fun c t r _ => by simp
  | cons id ids ih =>
      have hfirst := removeBulkDeleteId_drops s id
      refine (hfirst.trans (ih (s.removeBulkDeleteId id))).congr fun c t r hr => ?_
      by_cases hR : t = id ∧ s.BulkRegistered c t
      · exact ⟨fun _ => ⟨by simp [hR.1], hR.2⟩, fun _ => Or.inl hR⟩
      · have hsame : (s.removeBulkDeleteId id).BulkRegistered c t ↔ s.BulkRegistered c t := by
          unfold BulkRegistered
          rw [hfirst.record_kept hR]
          constructor
          · rintro ⟨hcomp, hbulk⟩
            exact ⟨(hfirst.comp_of hcomp).1, hbulk⟩
          · rintro ⟨hcomp, hbulk⟩
            refine ⟨?_, hbulk⟩
            rw [hfirst.comp_kept, hcomp]
            rintro e ⟨rfl, he⟩
            obtain rfl := Option.some.inj (hcomp.symm.trans he.1)
            exact absurd ⟨rfl, he⟩ hR
        rw [hsame]
        constructor
        · rintro (hfalse | ⟨ht, hreg⟩)
          · exact absurd hfalse hR
          · exact ⟨List.mem_cons_of_mem _ ht, hreg⟩
        · rintro ⟨ht, hreg⟩
          rcases List.mem_cons.mp ht with rfl | ht
          · exact absurd ⟨rfl, hreg⟩ hR
          · exact Or.inr ⟨ht, hreg⟩

/-! ### Whole components given up -/

theorem foldl_forgetRecord (entries : List (Int × ActiveRecord)) (s : TransactionLockManager) :
    entries.foldl forgetRecord s = { s with
      nameMap := eraseKeys s.nameMap (entries.map (·.2.objectName))
      compMap := eraseKeys s.compMap (entries.map (·.1)) } := by
  induction entries generalizing s with
  | nil => rfl
  | cons e entries ih =>
      rw [List.foldl_cons, ih]
      rfl

/-- A component is dropped when the entries forgotten are those it stores and it is no longer
owned, whether its records stay or go. -/
theorem drops_component {c : Int} {entries : List (Int × ActiveRecord)}
    (hentries : ∀ t r, (t, r) ∈ entries ↔ recordAt s.memMap c t = some r)
    (hs' : s' = { entries.foldl forgetRecord s with memMap := s'.memMap })
    (hrecord : ∀ c' t r, recordAt s'.memMap c' t = some r → recordAt s.memMap c' t = some r)
    (hkept : ∀ c' t, c' ≠ c → recordAt s'.memMap c' t = recordAt s.memMap c' t ∧
      ownedAt s'.memMap c' t = ownedAt s.memMap c' t)
    (hgone : ∀ t, ownedAt s'.memMap c t = none) : Drops (fun c' _ => c' = c) s s' := by
  have hnames : s'.nameMap = eraseKeys s.nameMap (entries.map (·.2.objectName)) := by
    rw [hs', foldl_forgetRecord]
  have hcomps : s'.compMap = eraseKeys s.compMap (entries.map (·.1)) := by
    rw [hs', foldl_forgetRecord]
  exact {
    record_of := fun {c' t r} hr => hrecord c' t r hr
    record_kept := fun {c' t} hc => (hkept c' t hc).1
    owned_kept := fun {c' t} hc => (hkept c' t hc).2
    owned_removed := fun {c' t} hc => hc ▸ hgone t
    comp_kept := fun {t} hnone => by
      have hnotin : t ∉ entries.map (·.1) := by
        intro hin
        obtain ⟨⟨t', r⟩, he, rfl⟩ := List.mem_map.mp hin
        simpa [(hentries t' r).mp he] using hnone c rfl
      rw [hcomps, getElem?_eraseKeys, if_neg hnotin]
    comp_removed := fun {c' t r} hc hr => by
      subst hc
      have hin : t ∈ entries.map (·.1) := List.mem_map_of_mem ((hentries t r).mpr hr)
      rw [hcomps, getElem?_eraseKeys, if_pos hin]
    names_kept := fun {n} hne => by
      have hnotin : n ∉ entries.map (·.2.objectName) := by
        intro hin
        obtain ⟨⟨t, r⟩, he, rfl⟩ := List.mem_map.mp hin
        exact hne c t r rfl ((hentries t r).mp he) rfl
      rw [hnames, elementsAt_eraseKeys, if_neg hnotin]
    names_removed := fun {c' t r} hc hr => by
      subst hc
      have hin : r.objectName ∈ entries.map (·.2.objectName) :=
        List.mem_map.mpr ⟨(t, r), (hentries t r).mpr hr, rfl⟩
      rw [hnames, elementsAt_eraseKeys, if_pos hin]
    nonempty := fun hn => hnames ▸ listsNonempty_eraseKeys hn _ }

theorem markUnknownComponent_drops {c : Int} {records : RecordMap} {b : Bool} (cs : List Int)
    (hc : s.memMap[c]? = some (records, b)) (b' : Bool) :
    Drops (fun c' _ => c' = c ∧ c ∉ cs) s (s.markUnknownComponent cs (c, records, b')) := by
  unfold markUnknownComponent
  by_cases hcs : c ∈ cs
  · simp only [hcs, if_true, not_true, and_false]
    exact Drops.refl s
  · simp only [hcs, if_false, not_false_eq_true, and_true]
    apply drops_component (mem_toList_iff_recordAt hc)
    · rw [foldl_forgetRecord, foldl_forgetRecord]
    · intro c' t r hr
      rw [foldl_forgetRecord, recordAt_insert] at hr
      by_cases hcc : c = c'
      · subst hcc
        simpa [recordAt, hc] using hr
      · simpa [hcc] using hr
    · intro c' t hne
      have hcc : c ≠ c' := hne.symm
      rw [foldl_forgetRecord]
      simp [ownedAt, recordAt_insert, flagAt_insert, hcc]
    · intro t
      rw [foldl_forgetRecord]
      simp [ownedAt, flagAt_insert]

theorem markUnknownComponent_memMap (cs : List Int) (s : TransactionLockManager)
    (e : Int × (RecordMap × Bool)) (c : Int) (records : RecordMap)
    (hc : ∃ b, s.memMap[c]? = some (records, b)) (he : c = e.1 → records = e.2.1) :
    ∃ b, (s.markUnknownComponent cs e).memMap[c]? = some (records, b) := by
  unfold markUnknownComponent
  by_cases hcs : e.1 ∈ cs
  · simpa [hcs] using hc
  · simp only [hcs, if_false, foldl_forgetRecord, getElem?_insert_eq]
    by_cases hce : e.1 = c
    · rw [if_pos hce, he hce.symm]
      exact ⟨false, rfl⟩
    · rw [if_neg hce]
      exact hc

private theorem foldl_markUnknownComponent_drops (cs : List Int)
    (l : List (Int × (RecordMap × Bool))) (s : TransactionLockManager)
    (hl : ∀ e ∈ l, ∃ b, s.memMap[e.1]? = some (e.2.1, b))
    (hfun : ∀ e ∈ l, ∀ e' ∈ l, e.1 = e'.1 → e.2.1 = e'.2.1) :
    Drops (fun c _ => c ∉ cs ∧ c ∈ l.map (·.1)) s (l.foldl (markUnknownComponent cs) s) := by
  induction l generalizing s with
  | nil => exact (Drops.refl s).congr fun c t r _ => by simp
  | cons e l ih =>
      obtain ⟨b, hb⟩ := hl e List.mem_cons_self
      have hfirst := markUnknownComponent_drops cs hb e.2.2
      have hrest := ih (s.markUnknownComponent cs e)
        (fun e' he' => markUnknownComponent_memMap cs s e e'.1 e'.2.1
          (hl e' (List.mem_cons_of_mem _ he'))
          (hfun e' (List.mem_cons_of_mem _ he') e List.mem_cons_self))
        (fun e' he' e'' he'' => hfun e' (List.mem_cons_of_mem _ he') e''
          (List.mem_cons_of_mem _ he''))
      refine (hfirst.trans hrest).congr fun c t r _ => ?_
      rw [List.map_cons, List.mem_cons]
      constructor
      · rintro (⟨rfl, hcs⟩ | ⟨hcs, hin⟩)
        · exact ⟨hcs, Or.inl rfl⟩
        · exact ⟨hcs, Or.inr hin⟩
      · rintro ⟨hcs, rfl | hin⟩
        · exact Or.inl ⟨rfl, hcs⟩
        · exact Or.inr ⟨hcs, hin⟩

/-- `mark_unknown_memory` gives up every component outside the list. -/
theorem markUnknownMemory_drops (s : TransactionLockManager) (cs : List Int) :
    Drops (fun c _ => c ∉ cs) s (s.markUnknownMemory cs) := by
  have hlookup : ∀ e ∈ s.memMap.toList, s.memMap[e.1]? = some e.2 := fun e he =>
    TreeMap.mem_toList_iff_getElem?_eq_some.mp he
  have hfold := foldl_markUnknownComponent_drops cs s.memMap.toList s
    (fun e he => ⟨e.2.2, hlookup e he⟩)
    (fun e he e' he' heq => by
      have h := hlookup e he
      rw [heq, hlookup e' he'] at h
      rw [Option.some.inj h])
  refine hfold.congr fun c t r hr => ⟨And.left, fun hcs => ⟨hcs, ?_⟩⟩
  obtain ⟨p, hp, -⟩ := Option.bind_eq_some_iff.mp hr
  exact List.mem_map.mpr ⟨(c, p), TreeMap.mem_toList_iff_getElem?_eq_some.mpr hp, rfl⟩

theorem extractComponent_drops (hkey : KeyedById s.memMap)
    (acc : TreeMap Int (List ActiveRecord)) (c : Int) :
    Drops (fun c' _ => c' = c) s (extractComponent (acc, s) c).2 := by
  unfold extractComponent
  cases hc : s.memMap[c]? with
  | none =>
      dsimp only
      refine (Drops.refl s).congr fun c' t r hr => ⟨False.elim, ?_⟩
      rintro rfl
      simp [recordAt, hc] at hr
  | some p =>
      obtain ⟨records, b⟩ := p
      dsimp only
      have hlist : records.toList.map (fun e => (e.2.transactionId, e.2)) = records.toList := by
        have hid : ∀ e ∈ records.toList, (e.2.transactionId, e.2) = e := fun e he => by
          have hr := (mem_toList_iff_recordAt hc e.1 e.2).mp he
          simp [hkey c e.1 e.2 hr]
        exact (List.map_congr_left hid).trans (List.map_id' _)
      rw [hlist]
      apply drops_component (mem_toList_iff_recordAt hc)
      · rfl
      · intro c' t r hr
        rw [foldl_forgetRecord, recordAt_erase] at hr
        by_cases hcc : c = c'
        · simp [hcc] at hr
        · simpa [hcc] using hr
      · intro c' t hne
        have hcc : c ≠ c' := hne.symm
        rw [foldl_forgetRecord]
        simp [ownedAt, recordAt_erase, flagAt_erase, hcc]
      · intro t
        rw [foldl_forgetRecord]
        simp [ownedAt, flagAt_erase]

theorem Drops.keyedById {removed : Int → Int → Prop} (h : Drops removed s s')
    (hkey : KeyedById s.memMap) : KeyedById s'.memMap :=
  fun c t r hr => hkey c t r (h.record_of hr)

/-- `get_component_transaction_map` gives up every component of the list. -/
theorem getComponentTransactionMap_drops (hkey : KeyedById s.memMap) (cs : List Int) :
    Drops (fun c _ => c ∈ cs) s (s.getComponentTransactionMap cs).2 := by
  unfold getComponentTransactionMap
  generalize (∅ : TreeMap Int (List ActiveRecord)) = acc
  induction cs generalizing s acc with
  | nil => exact (Drops.refl s).congr fun c t r _ => by simp
  | cons c cs ih =>
      have hfirst := extractComponent_drops hkey acc c
      rw [List.foldl_cons]
      generalize hnext : extractComponent (acc, s) c = next at hfirst
      exact (hfirst.trans (ih (hfirst.keyedById hkey) next.1)).congr fun c' t r _ => by
        rw [List.mem_cons]

end ObjectStorage.Transaction.TransactionLockManager
