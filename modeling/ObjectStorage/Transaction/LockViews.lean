import ObjectStorage.Library.OrderedMap
import ObjectStorage.Transaction.LockManager

/-!
Lookups in the indexes of the lock manager, and what each operation does to them. The proofs about
the manager see its maps through these lookups only.
-/

namespace ObjectStorage.Transaction

open Std Library

/-- The record a component stores under an id, owned or not. -/
def recordAt (mem : MemMap) (component id : Int) : Option ActiveRecord :=
  mem[component]?.bind (·.1[id]?)

def flagAt (mem : MemMap) (component : Int) : Option Bool :=
  mem[component]?.map (·.2)

/-- The record an owned component stores under an id. -/
def ownedAt (mem : MemMap) (component id : Int) : Option ActiveRecord :=
  if flagAt mem component = some true then recordAt mem component id else none

def elementsAt (names : NameMap) (name : String) : ElementList :=
  names[name]?.getD []

theorem ownedAt_eq_some {mem : MemMap} {c t : Int} {r : ActiveRecord} :
    ownedAt mem c t = some r ↔ flagAt mem c = some true ∧ recordAt mem c t = some r := by
  simp [ownedAt]

theorem recordAt_of_ownedAt {mem : MemMap} {c t : Int} {r : ActiveRecord}
    (h : ownedAt mem c t = some r) : recordAt mem c t = some r :=
  (ownedAt_eq_some.mp h).2

theorem flagAt_isSome_of_recordAt {mem : MemMap} {c t : Int} {r : ActiveRecord}
    (h : recordAt mem c t = some r) : ∃ b, flagAt mem c = some b := by
  obtain ⟨p, hp, -⟩ := Option.bind_eq_some_iff.mp h
  exact ⟨p.2, by simp [flagAt, hp]⟩

theorem recordAt_eq_none_of_flagAt {mem : MemMap} {c : Int} (h : flagAt mem c = none) (t : Int) :
    recordAt mem c t = none := by
  have hc : mem[c]? = none := by simpa [flagAt] using h
  simp [recordAt, hc]

theorem recordAt_eq_none_of_not_owned {mem : MemMap} {c t : Int}
    (hflag : flagAt mem c ≠ some false) (h : ownedAt mem c t = none) :
    recordAt mem c t = none := by
  cases hf : flagAt mem c with
  | none => exact recordAt_eq_none_of_flagAt hf t
  | some b =>
      cases b with
      | false => exact absurd hf hflag
      | true => simpa [ownedAt, hf] using h

/-! ### The component index -/

/-- Every record is stored under its own id. -/
def KeyedById (mem : MemMap) : Prop :=
  ∀ c t r, recordAt mem c t = some r → r.transactionId = t

theorem mem_toList_iff_recordAt {mem : MemMap} {c : Int} {records : RecordMap} {b : Bool}
    (hc : mem[c]? = some (records, b)) (t : Int) (r : ActiveRecord) :
    (t, r) ∈ records.toList ↔ recordAt mem c t = some r := by
  rw [TreeMap.mem_toList_iff_getElem?_eq_some, recordAt, hc]
  rfl

theorem flagAt_insertRecord (mem : MemMap) (c : Int) (r : ActiveRecord) (flag : Bool) (c' : Int) :
    flagAt (insertRecord mem c r flag) c' =
      if c = c' then some ((flagAt mem c).getD flag) else flagAt mem c' := by
  unfold insertRecord flagAt
  cases hc : mem[c]? with
  | none => by_cases hcc : c = c' <;> simp [hcc]
  | some p => by_cases hcc : c = c' <;> simp [hcc]

theorem recordAt_insertRecord (mem : MemMap) (c : Int) (r : ActiveRecord) (flag : Bool)
    (c' t : Int) :
    recordAt (insertRecord mem c r flag) c' t =
      if c = c' ∧ r.transactionId = t then some ((recordAt mem c t).getD r)
      else recordAt mem c' t := by
  unfold insertRecord
  cases hc : mem[c]? with
  | none =>
      by_cases hcc : c = c'
      · subst hcc
        by_cases ht : r.transactionId = t <;>
          simp only [recordAt, getElem?_insert_eq, getElem?_insertIfNew_eq, hc, ht, if_true,
            if_false, true_and, Option.bind_some, Option.bind_none, TreeMap.getElem?_emptyc]
      · simp [recordAt, hcc]
  | some p =>
      by_cases hcc : c = c'
      · subst hcc
        by_cases ht : r.transactionId = t <;>
          simp only [recordAt, getElem?_insert_eq, getElem?_insertIfNew_eq, hc, ht, if_true,
            if_false, true_and, Option.bind_some]
      · simp [recordAt, hcc]

theorem ownedAt_insertRecord {mem : MemMap} {c : Int} {r : ActiveRecord}
    (hflag : flagAt mem c ≠ some false) (hnew : recordAt mem c r.transactionId = none)
    (c' t : Int) :
    ownedAt (insertRecord mem c r true) c' t =
      if c = c' ∧ r.transactionId = t then some r else ownedAt mem c' t := by
  have hc : (flagAt mem c).getD true = true := by
    cases hf : flagAt mem c with
    | none => rfl
    | some b => cases b <;> simp_all
  unfold ownedAt
  rw [flagAt_insertRecord, recordAt_insertRecord, hc]
  by_cases hcc : c = c'
  · subst hcc
    by_cases ht : r.transactionId = t
    · subst ht
      simp [hnew]
    · by_cases hf : flagAt mem c = some true
      · simp [ht, hf]
      · have hnone : flagAt mem c = none := by
          cases hf' : flagAt mem c with
          | none => rfl
          | some b => cases b <;> simp_all
        simp [ht, hnone, recordAt_eq_none_of_flagAt hnone]
  · simp [hcc]

/-- Inserting without ownership into a component that is not owned, or that has the id already. -/
theorem ownedAt_insertRecord_unowned {mem : MemMap} {c : Int} {r : ActiveRecord}
    (hstored : flagAt mem c = some true → ∃ r', recordAt mem c r.transactionId = some r')
    (c' t : Int) : ownedAt (insertRecord mem c r false) c' t = ownedAt mem c' t := by
  unfold ownedAt
  rw [flagAt_insertRecord, recordAt_insertRecord]
  by_cases hcc : c = c'
  · subst hcc
    cases hf : flagAt mem c with
    | none => simp
    | some b =>
        cases b with
        | false => simp
        | true =>
            obtain ⟨r', hr'⟩ := hstored hf
            by_cases ht : r.transactionId = t
            · subst ht
              simp [hr']
            · simp [ht]
  · simp [hcc]

theorem recordAt_insert (mem : MemMap) (c : Int) (p : RecordMap × Bool) (c' t : Int) :
    recordAt (mem.insert c p) c' t = if c = c' then p.1[t]? else recordAt mem c' t := by
  by_cases hcc : c = c' <;> simp [recordAt, hcc]

theorem flagAt_insert (mem : MemMap) (c : Int) (p : RecordMap × Bool) (c' : Int) :
    flagAt (mem.insert c p) c' = if c = c' then some p.2 else flagAt mem c' := by
  by_cases hcc : c = c' <;> simp [flagAt, hcc]

theorem recordAt_erase (mem : MemMap) (c c' t : Int) :
    recordAt (mem.erase c) c' t = if c = c' then none else recordAt mem c' t := by
  by_cases hcc : c = c' <;> simp [recordAt, hcc]

theorem flagAt_erase (mem : MemMap) (c c' : Int) :
    flagAt (mem.erase c) c' = if c = c' then none else flagAt mem c' := by
  by_cases hcc : c = c' <;> simp [flagAt, hcc]

theorem recordAt_eraseRecord (mem : MemMap) (c id c' t : Int) :
    recordAt (eraseRecord mem c id) c' t =
      if c = c' ∧ id = t then none else recordAt mem c' t := by
  unfold eraseRecord
  cases hc : mem[c]? with
  | none =>
      by_cases hcc : c = c'
      · subst hcc
        simp [recordAt, hc]
      · simp [hcc]
  | some p =>
      obtain ⟨records, owned⟩ := p
      by_cases hcc : c = c'
      · subst hcc
        have hrec : recordAt mem c t = records[t]? := by simp [recordAt, hc]
        have hlookup := getElem?_erase_eq records id t
        by_cases hempty : (records.erase id).isEmpty
        · have hnone := (isEmpty_iff_getElem? (records.erase id)).mp hempty t
          simp only [if_pos hempty, recordAt_erase, if_true, true_and, hrec]
          exact hnone.symm.trans hlookup
        · simp only [if_neg hempty, recordAt_insert, if_true, true_and, hrec]
          exact hlookup
      · by_cases hempty : (records.erase id).isEmpty
        · simp only [if_pos hempty, recordAt_erase, hcc, if_false, false_and]
        · simp only [if_neg hempty, recordAt_insert, hcc, if_false, false_and]

/-- Erasing a record changes no flag, except that an emptied component disappears. -/
theorem flagAt_eraseRecord_of_recordAt {mem : MemMap} {c id c' t : Int} {r : ActiveRecord}
    (h : recordAt (eraseRecord mem c id) c' t = some r) :
    flagAt (eraseRecord mem c id) c' = flagAt mem c' := by
  revert h
  unfold eraseRecord
  cases hc : mem[c]? with
  | none => intro _; rfl
  | some p =>
      obtain ⟨records, owned⟩ := p
      by_cases hcc : c = c'
      · subst hcc
        by_cases hempty : (records.erase id).isEmpty
        · intro h
          simp only [if_pos hempty, recordAt_erase, if_true, reduceCtorEq] at h
        · intro _
          simp only [if_neg hempty, flagAt_insert, if_true]
          simp [flagAt, hc]
      · intro _
        by_cases hempty : (records.erase id).isEmpty
        · simp only [if_pos hempty, flagAt_erase, hcc, if_false]
        · simp only [if_neg hempty, flagAt_insert, hcc, if_false]

theorem ownedAt_eraseRecord (mem : MemMap) (c id c' t : Int) :
    ownedAt (eraseRecord mem c id) c' t =
      if c = c' ∧ id = t then none else ownedAt mem c' t := by
  have hrec := recordAt_eraseRecord mem c id c' t
  cases hr : recordAt (eraseRecord mem c id) c' t with
  | some r =>
      have hflag := flagAt_eraseRecord_of_recordAt hr
      unfold ownedAt
      rw [hflag, hrec]
      by_cases hct : c = c' ∧ id = t <;> simp [hct]
  | none =>
      rw [hr] at hrec
      unfold ownedAt
      rw [hr]
      by_cases hct : c = c' ∧ id = t
      · simp [hct]
      · have hnone : recordAt mem c' t = none := by simpa [hct] using hrec.symm
        simp [hct, hnone]

/-- Every record is stored under its own id, in the component its name belongs to. -/
def Placed (osdConfig : Bool) (mem : MemMap) : Prop :=
  ∀ c t r, recordAt mem c t = some r →
    r.transactionId = t ∧ getComponentName osdConfig r.objectName = c

theorem Placed.keyedById {osdConfig : Bool} {mem : MemMap} (h : Placed osdConfig mem) :
    KeyedById mem :=
  fun c t r hr => (h c t r hr).1

/-- Records of one name are in one component, so giving up whole components separates names. -/
theorem Placed.same_component {osdConfig : Bool} {mem : MemMap} (h : Placed osdConfig mem)
    {c t c' t' : Int} {r r' : ActiveRecord} (hr : recordAt mem c t = some r)
    (hr' : recordAt mem c' t' = some r') (hname : r'.objectName = r.objectName) : c' = c := by
  rw [← (h c t r hr).2, ← (h c' t' r' hr').2, hname]

theorem placed_insertRecord {osdConfig : Bool} {mem : MemMap} (h : Placed osdConfig mem)
    (r : ActiveRecord) (flag : Bool) :
    Placed osdConfig (insertRecord mem (getComponentName osdConfig r.objectName) r flag) := by
  intro c t r' hr'
  rw [recordAt_insertRecord] at hr'
  by_cases hct : getComponentName osdConfig r.objectName = c ∧ r.transactionId = t
  · rw [if_pos hct] at hr'
    cases hold : recordAt mem (getComponentName osdConfig r.objectName) t with
    | none =>
        rw [hold] at hr'
        obtain rfl := Option.some.inj hr'
        exact ⟨hct.2, hct.1⟩
    | some old =>
        rw [hold] at hr'
        obtain rfl := Option.some.inj hr'
        exact hct.1 ▸ h _ t _ hold
  · rw [if_neg hct] at hr'
    exact h c t r' hr'

theorem placed_eraseRecord {osdConfig : Bool} {mem : MemMap} (h : Placed osdConfig mem)
    (c t : Int) : Placed osdConfig (eraseRecord mem c t) := by
  intro c' t' r hr
  rw [recordAt_eraseRecord] at hr
  by_cases hct : c = c' ∧ t = t'
  · simp [hct] at hr
  · exact h c' t' r (by simpa [hct] using hr)

/-! ### The name index -/

/-- No name is kept with an empty list. -/
def ListsNonempty (names : NameMap) : Prop :=
  ∀ n : String, names[n]? ≠ some []

theorem elementsAt_pushElement (names : NameMap) (n : String) (e : TransactionIdElement)
    (n' : String) :
    elementsAt (pushElement names n e) n' =
      if n = n' then elementsAt names n ++ [e] else elementsAt names n' := by
  by_cases hn : n = n' <;> simp [elementsAt, pushElement, hn]

theorem listsNonempty_pushElement {names : NameMap} (h : ListsNonempty names) (n : String)
    (e : TransactionIdElement) : ListsNonempty (pushElement names n e) := by
  intro n'
  by_cases hn : n = n'
  · simp [pushElement, hn]
  · simpa [pushElement, hn] using h n'

theorem elementsAt_erase (names : NameMap) (n n' : String) :
    elementsAt (names.erase n) n' = if n = n' then [] else elementsAt names n' := by
  by_cases hn : n = n' <;> simp [elementsAt, hn]

theorem listsNonempty_erase {names : NameMap} (h : ListsNonempty names) (n : String) :
    ListsNonempty (names.erase n) := by
  intro n'
  by_cases hn : n = n'
  · simp [hn]
  · simpa [hn] using h n'

theorem elementsAt_eraseElement {names : NameMap} {n : String} {elements : ElementList}
    (hn : names[n]? = some elements) (id : Int) (n' : String) :
    elementsAt (eraseElement names n elements id) n' =
      if n = n' then elements.eraseP (·.transactionId == id) else elementsAt names n' := by
  unfold eraseElement
  by_cases hany : elements.any (·.transactionId == id)
  · by_cases hempty : (elements.eraseP (·.transactionId == id)).isEmpty
    · by_cases hnn : n = n'
      · simp [hany, elementsAt, hnn, List.isEmpty_iff.mp hempty]
      · simp [hany, hempty, elementsAt, hnn]
    · by_cases hnn : n = n' <;> simp [hany, hempty, elementsAt, hnn]
  · by_cases hnn : n = n'
    · subst hnn
      have hkeep : elements.eraseP (·.transactionId == id) = elements :=
        List.eraseP_of_forall_not (by simpa using hany)
      simp [hany, elementsAt, hn, hkeep]
    · simp [hany, hnn]

theorem listsNonempty_eraseElement {names : NameMap} (h : ListsNonempty names) (n : String)
    (elements : ElementList) (id : Int) :
    ListsNonempty (eraseElement names n elements id) := by
  intro n'
  unfold eraseElement
  by_cases hany : elements.any (·.transactionId == id)
  · by_cases hempty : (elements.eraseP (·.transactionId == id)).isEmpty
    · simpa [hany, hempty] using listsNonempty_erase h n n'
    · by_cases hnn : n = n'
      · have hrest : elements.eraseP (·.transactionId == id) ≠ [] := by
          simpa only [List.isEmpty_iff] using hempty
        simp only [hany, hempty, if_true, if_false, Bool.false_eq_true, getElem?_insert_eq, hnn]
        exact fun heq => hrest (Option.some.inj heq)
      · simpa [hany, hempty, hnn] using h n'
  · simpa [hany] using h n'

theorem eraseP_id_eq_erase {l : ElementList} {x : TransactionIdElement}
    (h : ∀ e ∈ l, e.transactionId = x.transactionId → e = x) :
    l.eraseP (·.transactionId == x.transactionId) = l.erase x := by
  induction l with
  | nil => rfl
  | cons a l ih =>
      by_cases ha : a = x
      · simp [ha]
      · have hid : a.transactionId ≠ x.transactionId := fun heq =>
          ha (h a List.mem_cons_self heq)
        rw [List.eraseP_cons_of_neg (by simpa using hid), List.erase_cons_tail (by simpa using ha)]
        rw [ih fun e he => h e (List.mem_cons_of_mem _ he)]

theorem elementsAt_pushRecovered {names : NameMap} (h : ListsNonempty names) (n : String)
    (e : TransactionIdElement) (n' : String) :
    elementsAt (pushRecovered names n e) n' =
      if n = n' then
        if (elementsAt names n).any (·.transactionId == e.transactionId) then elementsAt names n
        else elementsAt names n ++ [e]
      else elementsAt names n' := by
  unfold pushRecovered
  rcases hn : names[n]? with _ | _ | ⟨a, l⟩
  · by_cases hnn : n = n'
    · subst hnn
      simp [elementsAt, hn]
    · simp [elementsAt, hnn]
  · exact absurd hn (h n)
  · have hl : elementsAt names n = a :: l := by simp [elementsAt, hn]
    rw [hl]
    by_cases hany : (a :: l).any (·.transactionId == e.transactionId)
    · by_cases hnn : n = n'
      · subst hnn
        simp [hany, hl]
      · simp [hany, hnn]
    · by_cases hnn : n = n' <;> simp [hany, elementsAt, hnn]

theorem listsNonempty_pushRecovered {names : NameMap} (h : ListsNonempty names) (n : String)
    (e : TransactionIdElement) : ListsNonempty (pushRecovered names n e) := by
  intro n'
  unfold pushRecovered
  rcases hn : names[n]? with _ | _ | ⟨a, l⟩
  · by_cases hnn : n = n'
    · simp [hnn]
    · simpa [hnn] using h n'
  · exact h n'
  · by_cases hany : (a :: l).any (·.transactionId == e.transactionId)
    · simpa [hany] using h n'
    · by_cases hnn : n = n'
      · simp [hany, hnn]
      · simpa [hany, hnn] using h n'

theorem elementsAt_eraseKeys (names : NameMap) (ns : List String) (n : String) :
    elementsAt (eraseKeys names ns) n = if n ∈ ns then [] else elementsAt names n := by
  by_cases hn : n ∈ ns <;> simp [elementsAt, hn]

theorem listsNonempty_eraseKeys {names : NameMap} (h : ListsNonempty names) (ns : List String) :
    ListsNonempty (eraseKeys names ns) := by
  intro n
  by_cases hn : n ∈ ns
  · simp [hn]
  · simpa [hn] using h n

end ObjectStorage.Transaction
