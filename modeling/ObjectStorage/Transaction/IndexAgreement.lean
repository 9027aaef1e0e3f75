import ObjectStorage.Transaction.LockGrants

/-!
Agreement of the three indexes of the lock manager: when an operation keeps it, and that it holds
in every state of a run whose steps do.
-/

namespace ObjectStorage.Transaction

open Std Library

/-- Some owned component contains a record with this id, operation and name. -/
def Held (owned : Int → Int → Option ActiveRecord) (n : String) (e : TransactionIdElement) :
    Prop :=
  ∃ c r, owned c e.transactionId = some r ∧ r.operation = e.operation ∧ r.objectName = n

/-- The indexes by id and by name list exactly the records of the owned components. -/
structure IndexesAgree (owned : Int → Int → Option ActiveRecord) (comp : Int → Option Int)
    (elems : String → ElementList) : Prop where
  registered : ∀ t c, comp t = some c ↔ ∃ r, owned c t = some r
  listed_once : ∀ n e, Held owned n e → (elems n).count e = 1
  listed_only : ∀ n e, ¬ Held owned n e → e ∉ elems n

def TransactionLockManager.Agree (s : TransactionLockManager) : Prop :=
  IndexesAgree (ownedAt s.memMap) (s.compMap[·]?) (elementsAt s.nameMap)

namespace IndexesAgree

variable {owned owned' : Int → Int → Option ActiveRecord} {comp comp' : Int → Option Int}
  {elems elems' : String → ElementList}

theorem listed_iff (h : IndexesAgree owned comp elems) (n : String) (e : TransactionIdElement) :
    e ∈ elems n ↔ Held owned n e := by
  constructor
  · intro hmem
    exact Classical.byContradiction fun hheld => h.listed_only n e hheld hmem
  · intro hheld
    exact List.count_pos_iff.mp (by rw [h.listed_once n e hheld]; exact Nat.one_pos)

theorem owned_unique (h : IndexesAgree owned comp elems) {c c' t : Int} {r r' : ActiveRecord}
    (hr : owned c t = some r) (hr' : owned c' t = some r') : c = c' ∧ r = r' := by
  have hc := (h.registered t c).mpr ⟨r, hr⟩
  have hc' := (h.registered t c').mpr ⟨r', hr'⟩
  obtain rfl := Option.some.inj (hc.symm.trans hc')
  exact ⟨rfl, Option.some.inj (hr.symm.trans hr')⟩

theorem owned_eq_none (h : IndexesAgree owned comp elems) {t : Int} (ht : comp t = none)
    (c : Int) : owned c t = none := by
  cases hr : owned c t with
  | none => rfl
  | some r => simpa [ht] using (h.registered t c).mpr ⟨r, hr⟩

/-- Registering a record under an id that no owned component contains. -/
theorem add (h : IndexesAgree owned comp elems) {c : Int} {r : ActiveRecord}
    (hnew : comp r.transactionId = none)
    (howned : ∀ c' t, owned' c' t =
      if c = c' ∧ r.transactionId = t then some r else owned c' t)
    (hcomp : ∀ t, comp' t = if r.transactionId = t then some c else comp t)
    (helems : ∀ n, elems' n =
      if r.objectName = n then elems r.objectName ++ [r.element] else elems n) :
    IndexesAgree owned' comp' elems' := by
  have hnone := h.owned_eq_none hnew
  have hheld : ∀ n e, Held owned' n e ↔ Held owned n e ∨ (r.element = e ∧ r.objectName = n) := by
    intro n e
    constructor
    · rintro ⟨c', r', hr', hop, hname⟩
      rw [howned] at hr'
      by_cases hct : c = c' ∧ r.transactionId = e.transactionId
      · obtain rfl := Option.some.inj ((if_pos hct).symm.trans hr')
        refine Or.inr ⟨?_, hname⟩
        cases e
        simp_all [ActiveRecord.element]
      · exact Or.inl ⟨c', r', by simpa [hct] using hr', hop, hname⟩
    · rintro (⟨c', r', hr', hop, hname⟩ | ⟨rfl, hname⟩)
      · refine ⟨c', r', ?_, hop, hname⟩
        have hct : ¬(c = c' ∧ r.transactionId = e.transactionId) := by
          rintro ⟨rfl, ht⟩
          simp [← ht, hnone] at hr'
        rw [howned, if_neg hct, hr']
      · exact ⟨c, r, by simp [howned, ActiveRecord.element], rfl, hname⟩
  have hfresh : ∀ n, ¬ Held owned n r.element := by
    rintro n ⟨c', r', hr', -, -⟩
    simp [ActiveRecord.element, hnone] at hr'
  constructor
  · intro t c'
    rw [hcomp]
    by_cases ht : r.transactionId = t
    · subst ht
      simp only [if_true, Option.some.injEq, howned, and_true, hnone]
      by_cases hcc : c = c' <;> simp [hcc]
    · simp only [ht, if_false, howned, and_false]
      exact h.registered t c'
  · intro n e he
    rw [helems]
    rcases (hheld n e).mp he with hold | ⟨rfl, rfl⟩
    · have hne : r.element ≠ e := by
        rintro rfl
        exact hfresh n hold
      by_cases hn : r.objectName = n
      · subst hn
        simp [h.listed_once _ e hold, hne]
      · simp [hn, h.listed_once n e hold]
    · have hzero : (elems r.objectName).count r.element = 0 :=
        List.count_eq_zero.mpr (h.listed_only _ _ (hfresh _))
      simp [hzero]
  · intro n e he
    obtain ⟨hold, hne⟩ := not_or.mp (mt (hheld n e).mpr he)
    rw [helems]
    by_cases hn : r.objectName = n
    · subst hn
      have hre : e ≠ r.element := fun heq => hne ⟨heq.symm, rfl⟩
      simp [h.listed_only _ e hold, hre]
    · simpa [hn] using h.listed_only n e hold

theorem remove (h : IndexesAgree owned comp elems) {c t : Int} {r : ActiveRecord}
    (hr : owned c t = some r) (hkey : r.transactionId = t)
    (howned : ∀ c' t', owned' c' t' = if c = c' ∧ t = t' then none else owned c' t')
    (hcomp : ∀ t', comp' t' = if t = t' then none else comp t')
    (helems : ∀ n, elems' n =
      if r.objectName = n then (elems r.objectName).eraseP (·.transactionId == t) else elems n) :
    IndexesAgree owned' comp' elems' := by
  have hheld : ∀ n e, Held owned' n e ↔ Held owned n e ∧ e.transactionId ≠ t := by
    intro n e
    constructor
    · rintro ⟨c', r', hr', hop, hname⟩
      rw [howned] at hr'
      by_cases hct : c = c' ∧ t = e.transactionId
      · simp [hct] at hr'
      · rw [if_neg hct] at hr'
        refine ⟨⟨c', r', hr', hop, hname⟩, fun ht => hct ⟨?_, ht.symm⟩⟩
        exact (h.owned_unique hr (ht ▸ hr')).1
    · rintro ⟨⟨c', r', hr', hop, hname⟩, ht⟩
      refine ⟨c', r', ?_, hop, hname⟩
      rw [howned, if_neg fun hct => ht hct.2.symm, hr']
  have herase : elems' r.objectName = (elems r.objectName).erase r.element := by
    rw [helems, if_pos rfl, ← hkey]
    apply eraseP_id_eq_erase (x := r.element)
    intro e he hid
    obtain ⟨c', r', hr', hop, -⟩ := (h.listed_iff _ e).mp he
    have hid' : e.transactionId = t := hid.trans hkey
    obtain ⟨rfl, rfl⟩ := h.owned_unique hr (hid' ▸ hr')
    cases e
    simp_all [ActiveRecord.element]
  have hself : (elems r.objectName).count r.element = 1 :=
    h.listed_once _ _ ⟨c, r, by rw [← hr, ← hkey]; rfl, rfl, rfl⟩
  constructor
  · intro t' c'
    rw [hcomp]
    by_cases ht : t = t'
    · subst ht
      simp only [if_true, reduceCtorEq, false_iff, not_exists]
      intro r' hr'
      rw [howned] at hr'
      by_cases hcc : c = c'
      · simp [hcc] at hr'
      · exact hcc (h.owned_unique hr (by simpa [hcc] using hr')).1
    · simp only [ht, if_false, howned, and_false]
      exact h.registered t' c'
  · intro n e he
    obtain ⟨hold, ht⟩ := (hheld n e).mp he
    by_cases hn : r.objectName = n
    · subst hn
      have hne : e ≠ r.element := by
        rintro rfl
        exact ht hkey
      rw [herase, List.count_erase_of_ne hne, h.listed_once _ e hold]
    · rw [helems, if_neg hn, h.listed_once n e hold]
  · intro n e he
    by_cases hn : r.objectName = n
    · subst hn
      rw [herase]
      by_cases heq : e = r.element
      · subst heq
        rw [← List.count_eq_zero, List.count_erase_self, hself]
      · rw [List.mem_erase_of_ne heq]
        apply h.listed_only
        intro hold
        refine he ((hheld _ e).mpr ⟨hold, fun ht => heq ?_⟩)
        obtain ⟨c', r', hr', hop, -⟩ := hold
        obtain ⟨rfl, rfl⟩ := h.owned_unique hr (ht ▸ hr')
        cases e
        simp_all [ActiveRecord.element]
    · rw [helems, if_neg hn]
      apply h.listed_only
      intro hold
      refine he ((hheld n e).mpr ⟨hold, fun ht => hn ?_⟩)
      obtain ⟨c', r', hr', -, hname⟩ := hold
      obtain ⟨rfl, rfl⟩ := h.owned_unique hr (ht ▸ hr')
      exact hname

/-- Records given up together with their ids and names, when no other owned record shares an id or
a name with them. -/
theorem drop {removed : Int → Int → Prop} {s s' : TransactionLockManager} (h : s.Agree)
    (hdrop : TransactionLockManager.Drops removed s s')
    (hids : ∀ c t r c', removed c t → recordAt s.memMap c t = some r →
      s.compMap[t]? = some c' → removed c' t)
    (hnames : ∀ c t r c' t' r', removed c t → recordAt s.memMap c t = some r →
      ownedAt s.memMap c' t' = some r' → r'.objectName = r.objectName → removed c' t') :
    s'.Agree := by
  have howned : ∀ c t r, ownedAt s'.memMap c t = some r ↔
      ownedAt s.memMap c t = some r ∧ ¬ removed c t := by
    intro c t r
    by_cases hc : removed c t
    · simp [hdrop.owned_removed hc, hc]
    · simp [hdrop.owned_kept hc, hc]
  have hlist : ∀ n, (∃ e, Held (ownedAt s'.memMap) n e) →
      elementsAt s'.nameMap n = elementsAt s.nameMap n := by
    rintro n ⟨e, c, r, hr, -, rfl⟩
    obtain ⟨hr, hkept⟩ := (howned _ _ _).mp hr
    apply hdrop.names_kept
    intro c' t' r' hc' hr' hname
    exact hkept (hnames c' t' r' c _ r hc' hr' hr hname.symm)
  constructor
  · intro t c
    simp only [howned]
    constructor
    · intro ht
      have hkept : ∀ c', removed c' t → recordAt s.memMap c' t = none := by
        intro c' hc'
        cases hr' : recordAt s.memMap c' t with
        | none => rfl
        | some r' => simp [hdrop.comp_removed hc' hr'] at ht
      rw [hdrop.comp_kept hkept] at ht
      obtain ⟨r, hr⟩ := (h.registered t c).mp ht
      refine ⟨r, hr, fun hc => ?_⟩
      simpa [recordAt_of_ownedAt hr] using hkept c hc
    · rintro ⟨r, hr, hc⟩
      have ht := (h.registered t c).mpr ⟨r, hr⟩
      rw [hdrop.comp_kept, ht]
      intro c' hc'
      cases hr' : recordAt s.memMap c' t with
      | none => rfl
      | some r' => exact absurd (hids c' t r' c hc' hr' ht) hc
  · intro n e he
    rw [hlist n ⟨e, he⟩]
    obtain ⟨c, r, hr, hop, hname⟩ := he
    exact h.listed_once n e ⟨c, r, ((howned _ _ _).mp hr).1, hop, hname⟩
  · intro n e he hmem
    by_cases hgone : ∃ c t r, removed c t ∧ recordAt s.memMap c t = some r ∧ r.objectName = n
    · obtain ⟨c, t, r, hc, hr, rfl⟩ := hgone
      simp [hdrop.names_removed hc hr] at hmem
    · rw [hdrop.names_kept fun c t r hc hr hname => hgone ⟨c, t, r, hc, hr, hname⟩] at hmem
      obtain ⟨c, r, hr, hop, hname⟩ := (h.listed_iff n e).mp hmem
      refine he ⟨c, r, (howned _ _ _).mpr ⟨hr, fun hc => ?_⟩, hop, hname⟩
      exact hgone ⟨c, _, r, hc, recordAt_of_ownedAt hr, hname⟩

/-- One more record on top of the owned ones. -/
def extend (owned : Int → Int → Option ActiveRecord) (e : Int × ActiveRecord) :
    Int → Int → Option ActiveRecord :=
  fun c t => if e.1 = c ∧ e.2.transactionId = t then some e.2 else owned c t

theorem foldl_extend_of_not_mem {entries : List (Int × ActiveRecord)} {c t : Int}
    (hnot : ∀ e ∈ entries, ¬(e.1 = c ∧ e.2.transactionId = t)) :
    entries.foldl extend owned c t = owned c t := by
  induction entries generalizing owned with
  | nil => rfl
  | cons e entries ih =>
      rw [List.foldl_cons, ih fun e' he' => hnot e' (List.mem_cons_of_mem _ he')]
      exact if_neg (hnot e List.mem_cons_self)

theorem foldl_extend_of_mem {entries : List (Int × ActiveRecord)}
    (hdistinct : entries.Pairwise fun e e' => e.2.transactionId ≠ e'.2.transactionId)
    {e : Int × ActiveRecord} (he : e ∈ entries) :
    entries.foldl extend owned e.1 e.2.transactionId = some e.2 := by
  induction entries generalizing owned with
  | nil => simp at he
  | cons a entries ih =>
      obtain ⟨hne, hdistinct⟩ := List.pairwise_cons.mp hdistinct
      rw [List.foldl_cons]
      rcases List.mem_cons.mp he with rfl | he
      · rw [foldl_extend_of_not_mem fun e' he' heq => hne e' he' heq.2.symm]
        simp [extend]
      · exact ih hdistinct he

theorem commitEntries {s : TransactionLockManager} {entries : List (Int × ActiveRecord)}
    (h : IndexesAgree owned (s.compMap[·]?) (elementsAt s.nameMap))
    (hn : ListsNonempty s.nameMap)
    (hdistinct : entries.Pairwise fun e e' => e.2.transactionId ≠ e'.2.transactionId)
    (hnew : ∀ e ∈ entries, s.compMap[e.2.transactionId]? = none) :
    IndexesAgree (entries.foldl extend owned) ((s.commitEntries entries).compMap[·]?)
        (elementsAt (s.commitEntries entries).nameMap) ∧
      ListsNonempty (s.commitEntries entries).nameMap := by
  induction entries generalizing s owned with
  | nil => exact ⟨h, hn⟩
  | cons e entries ih =>
      obtain ⟨hne, hdistinct⟩ := List.pairwise_cons.mp hdistinct
      have he := hnew e List.mem_cons_self
      have hfresh : ¬ (elementsAt s.nameMap e.2.objectName).any
          (·.transactionId == e.2.element.transactionId) := by
        simp only [List.any_eq_true, beq_iff_eq, not_exists, not_and]
        intro x hx hid
        obtain ⟨c, r, hr, -, -⟩ := (h.listed_iff _ x).mp hx
        rw [hid] at hr
        simp [ActiveRecord.element, h.owned_eq_none he c] at hr
      apply ih (s := TransactionLockManager.commitRecord e.1 s e.2)
      · refine h.add (c := e.1) (r := e.2) he (fun c t => rfl) (fun t => ?_) fun n => ?_
        · simp only [TransactionLockManager.commitRecord, getElem?_insertIfNew_eq]
          by_cases ht : e.2.transactionId = t
          · subst ht
            simp [he]
          · simp [ht]
        · simp only [TransactionLockManager.commitRecord, elementsAt_pushRecovered hn,
            if_neg hfresh]
      · exact listsNonempty_pushRecovered hn _ _
      · exact hdistinct
      · intro e' he'
        simp only [TransactionLockManager.commitRecord, getElem?_insertIfNew_eq, hne e' he',
          if_false]
        exact hnew e' (List.mem_cons_of_mem _ he')

end IndexesAgree

end ObjectStorage.Transaction
