import ObjectStorage.Library.Transition
import ObjectStorage.Transaction.JournalReplay

/-!
Recovery from a journal file that starts with a snapshot. The snapshot is taken of a lock table that
may be ahead of the journal, so the file repeats what the snapshot covers already.
-/

namespace ObjectStorage.Transaction

open Std Library SharedExclusive Journal

/-- The lock of a record whose operation is a read or a write. -/
def ActiveRecord.lock (record : ActiveRecord) : Lock String :=
  ⟨record.objectName, if record.operation = LockType.read.code then .shared else .exclusive⟩

theorem ActiveRecord.StandsFor.lock_eq {record : ActiveRecord} {l : Lock String}
    (h : record.StandsFor l) : record.lock = l := by
  obtain ⟨name, mode⟩ := l
  obtain ⟨hname, hop⟩ := h
  have hname : record.objectName = name := hname
  cases mode <;> simp_all [ActiveRecord.lock, modeCode, LockType.code]

theorem mem_memoryRecords {mem : MemMap} {r : ActiveRecord} :
    r ∈ memoryRecords mem ↔ ∃ c t, recordAt mem c t = some r := by
  rw [memoryRecords, List.mem_flatMap]
  constructor
  · rintro ⟨p, hp, hr⟩
    obtain ⟨e, he, rfl⟩ := List.mem_map.mp hr
    have hp := TreeMap.mem_toList_iff_getElem?_eq_some.mp hp
    exact ⟨p.1, e.1, (mem_toList_iff_recordAt hp e.1 e.2).mp he⟩
  · rintro ⟨c, t, hr⟩
    obtain ⟨p, hp, hr⟩ := Option.bind_eq_some_iff.mp hr
    exact ⟨(c, p), TreeMap.mem_toList_iff_getElem?_eq_some.mpr hp,
      List.mem_map.mpr ⟨(t, r), TreeMap.mem_toList_iff_getElem?_eq_some.mpr hr, rfl⟩⟩

namespace TransactionLockManager

/-! ### Which locks a manager holds -/

/-- The lock is stored in an owned component. -/
def Holds (s : TransactionLockManager) (id : Int) (name : String) (operation : Int) : Prop :=
  ∃ c r, ownedAt s.memMap c id = some r ∧ r.objectName = name ∧ r.operation = operation

/-- The lock is listed under its name, where later requests meet it. -/
def ListsLock (s : TransactionLockManager) (id : Int) (name : String) (operation : Int) : Prop :=
  ⟨id, operation⟩ ∈ elementsAt s.nameMap name

instance (s : TransactionLockManager) (id : Int) (name : String) (operation : Int) :
    Decidable (s.ListsLock id name operation) :=
  inferInstanceAs (Decidable (_ ∈ _))

structure SameLocks (s s' : TransactionLockManager) : Prop where
  holds : ∀ id name operation, s.Holds id name operation ↔ s'.Holds id name operation
  lists : ∀ id name operation, s.ListsLock id name operation ↔ s'.ListsLock id name operation

variable {osdConfig : Bool} {s s' : TransactionLockManager} {R : Replayed Int String}

theorem Represents.holds_iff (h : Represents osdConfig s R) {t : Int} {n : String} {o : Int} :
    s.Holds t n o ↔ ∃ l, R.held.lookup t = some l ∧ l.name = n ∧ modeCode l.mode = o := by
  constructor
  · rintro ⟨c, r, hr, rfl, rfl⟩
    obtain ⟨-, -, l, hl, hname, hop⟩ := h.stored c t r (recordAt_of_ownedAt hr)
    exact ⟨l, hl, hname.symm, hop.symm⟩
  · rintro ⟨l, hl, rfl, rfl⟩
    obtain ⟨r, hr⟩ := h.present t l hl
    obtain ⟨-, -, k, hk, hname, hop⟩ := h.stored _ t r hr
    obtain rfl := Option.some.inj (hl.symm.trans hk)
    obtain ⟨b, hb⟩ := flagAt_isSome_of_recordAt hr
    obtain rfl := h.owned _ b hb
    exact ⟨_, r, ownedAt_eq_some.mpr ⟨hb, hr⟩, hname, hop⟩

theorem Represents.lists_iff (h : Represents osdConfig s R) {t : Int} {n : String} {o : Int} :
    s.ListsLock t n o ↔ ∃ l, R.Entry t l ∧ l.name = n ∧ modeCode l.mode = o :=
  h.mem_elementsAt

/-- Two managers of one table hold the same locks if second entries are of locks held. -/
theorem Represents.sameLocks {L X : Table Int String} (h : Represents osdConfig s ⟨L, X⟩)
    (h' : Represents osdConfig s' ⟨L, ∅⟩) (hX : ∀ t l, X.lookup t = some l → L.lookup t = some l) :
    SameLocks s s' where
  holds t n o := by rw [h.holds_iff, h'.holds_iff]
  lists t n o := by
    rw [h.lists_iff, h'.lists_iff]
    constructor
    · rintro ⟨l, hl | hl, hname⟩
      · exact ⟨l, Or.inl hl, hname⟩
      · exact ⟨l, Or.inl (hX t l hl), hname⟩
    · rintro ⟨l, hl | hl, hname⟩
      · exact ⟨l, Or.inl hl, hname⟩
      · simp at hl

/-! ### The snapshot as a history -/

def snapshotEvents (mem : MemMap) : List (Event Int String) :=
  ((memoryRecords mem).map fun r => (r.transactionId, r.lock)).map fun x => .acquired x.1 x.2

theorem Represents.mem_snapshot (h : Represents osdConfig s R) {t : Int} {l : Lock String} :
    (t, l) ∈ (memoryRecords s.memMap).map (fun r => (r.transactionId, r.lock)) ↔
      R.held.lookup t = some l := by
  rw [List.mem_map]
  constructor
  · rintro ⟨r, hr, heq⟩
    obtain ⟨c, t', hr⟩ := mem_memoryRecords.mp hr
    obtain ⟨hid, -, k, hk, hstands⟩ := h.stored c t' r hr
    obtain ⟨rfl, rfl⟩ := Prod.mk.inj heq
    rw [hid, hstands.lock_eq, hk]
  · intro hl
    obtain ⟨r, hr⟩ := h.present t l hl
    obtain ⟨hid, -, k, hk, hstands⟩ := h.stored _ t r hr
    obtain rfl := Option.some.inj (hl.symm.trans hk)
    exact ⟨r, mem_memoryRecords.mpr ⟨_, t, hr⟩, by rw [hid, hstands.lock_eq]⟩

theorem Represents.nodup_snapshot (h : Represents osdConfig s R) :
    ((memoryRecords s.memMap).map (·.transactionId)).Nodup := by
  rw [List.Nodup, List.pairwise_map, memoryRecords, List.pairwise_flatMap]
  constructor
  · rintro ⟨c, records, b⟩ hc
    rw [List.pairwise_map]
    refine (pairwise_keys_toList records).imp_of_mem fun {e e'} he he' hne => ?_
    have hc := TreeMap.mem_toList_iff_getElem?_eq_some.mp hc
    have hid := (h.stored c e.1 e.2 ((mem_toList_iff_recordAt hc e.1 e.2).mp he)).1
    have hid' := (h.stored c e'.1 e'.2 ((mem_toList_iff_recordAt hc e'.1 e'.2).mp he')).1
    rw [hid, hid']
    exact hne
  · refine (pairwise_keys_toList s.memMap).imp_of_mem fun {p p'} hp hp' hne r hr r' hr' heq => ?_
    have hp := TreeMap.mem_toList_iff_getElem?_eq_some.mp hp
    have hp' := TreeMap.mem_toList_iff_getElem?_eq_some.mp hp'
    obtain ⟨e, he, rfl⟩ := List.mem_map.mp hr
    obtain ⟨e', he', rfl⟩ := List.mem_map.mp hr'
    obtain ⟨hid, hc, l, hl, hstands⟩ :=
      h.stored p.1 e.1 e.2 ((mem_toList_iff_recordAt hp e.1 e.2).mp he)
    obtain ⟨hid', hc', l', hl', hstands'⟩ :=
      h.stored p'.1 e'.1 e'.2 ((mem_toList_iff_recordAt hp' e'.1 e'.2).mp he')
    rw [hid, hid'] at heq
    rw [heq] at hl
    obtain rfl := Option.some.inj (hl.symm.trans hl')
    exact hne (by rw [← hc, ← hc', hstands.1, hstands'.1])

theorem Represents.reports_snapshot (h : Represents osdConfig s R) :
    List.Forall₂ Reports ((memoryRecords s.memMap).map .openRecord) (snapshotEvents s.memMap) := by
  unfold snapshotEvents
  rw [List.map_map, List.forall₂_map_left_iff, List.forall₂_map_right_iff, List.forall₂_same]
  intro r hr
  obtain ⟨c, t, hr⟩ := mem_memoryRecords.mp hr
  obtain ⟨-, -, l, -, hstands⟩ := h.stored c t r hr
  show Reports (.openRecord r) (.acquired r.transactionId r.lock)
  rw [hstands.lock_eq]
  exact .opened hstands

theorem Serves.acquired_of_snapshot {es : List (Event Int String)} (h : Serves osdConfig s es)
    {t : Int} {l : Lock String} (hin : .acquired t l ∈ snapshotEvents s.memMap) :
    .acquired t l ∈ es := by
  obtain ⟨⟨t', l'⟩, hx, heq⟩ := List.mem_map.mp hin
  obtain ⟨rfl, rfl⟩ := Event.acquired.inj heq
  rcases lookup_after (h.represents.mem_snapshot.mp hx) with hnone | hacquired
  · simp at hnone
  · exact hacquired

theorem Represents.replay_snapshotEvents {L : Table Int String}
    (h : Represents osdConfig s ⟨L, ∅⟩) (hexcl : Exclusive L)
    (hcard : L.keys.card ≤ capacity + 1) :
    (Replayed.start : Replayed Int String).replay capacity (snapshotEvents s.memMap) = ⟨L, ∅⟩ := by
  have hids : ((memoryRecords s.memMap).map fun r => (r.transactionId, r.lock)).map (·.1) =
      (memoryRecords s.memMap).map (·.transactionId) := by
    rw [List.map_map]
    rfl
  have hnodup : (((memoryRecords s.memMap).map fun r => (r.transactionId, r.lock)).map
      (·.1)).Nodup := hids ▸ h.nodup_snapshot
  have htable : ((memoryRecords s.memMap).map fun r => (r.transactionId, r.lock)).foldl
      (fun L x => L.insert x.1 x.2) ∅ = L := by
    apply Finmap.ext_lookup
    intro t
    ext l
    rw [lookup_foldl_insert hnodup, h.mem_snapshot]
    simp
  have hkeys : L.keys = ((memoryRecords s.memMap).map (·.transactionId)).toFinset := by
    ext t
    rw [Finmap.mem_keys, Finmap.mem_iff, List.mem_toFinset, ← hids, List.mem_map]
    constructor
    · rintro ⟨l, hl⟩
      exact ⟨(t, l), h.mem_snapshot.mpr hl, rfl⟩
    · rintro ⟨⟨t, l⟩, hl, rfl⟩
      exact ⟨l, h.mem_snapshot.mp hl⟩
  have hlength : (memoryRecords s.memMap).length = L.keys.card := by
    rw [hkeys, List.toFinset_card_of_nodup h.nodup_snapshot, List.length_map]
  have hpairs : ((memoryRecords s.memMap).map fun r => (r.transactionId, r.lock)).Pairwise
      fun x y => ¬ x.2.Conflicts y.2 := by
    refine (List.pairwise_map.mp hnodup).imp_of_mem fun {x y} hx hy hne => ?_
    exact hexcl x.1 x.2 y.1 y.2 (h.mem_snapshot.mp hx) (h.mem_snapshot.mp hy) hne
  calc (⟨∅, ∅⟩ : Replayed Int String).replay capacity (snapshotEvents s.memMap)
      = ⟨_, ∅⟩ := Replayed.replay_snapshot hnodup (fun x _ => Finmap.lookup_empty x.1)
          (fun x _ t k hk => by simp at hk) hpairs (by simpa [hlength] using hcard)
    _ = ⟨L, ∅⟩ := by rw [htable]

end TransactionLockManager

/-! ### Runs of the service -/

theorem forall₂_toList {record? : Option Record} {e? : Option (Event Int String)}
    (h : Option.Rel Reports record? e?) : List.Forall₂ Reports record?.toList e?.toList := by
  cases h with
  | none => exact .nil
  | some hr => exact .cons hr .nil

theorem Reports.exists_open {records : List Record} {es : List (Event Int String)}
    (h : List.Forall₂ Reports records es) {t : Int} {l : Lock String} :
    .acquired t l ∈ es ↔
      ∃ record, .openRecord record ∈ records ∧ record.transactionId = t ∧ record.StandsFor l := by
  induction h with
  | nil => simp
  | @cons r e records es hr hrest ih =>
      simp only [List.mem_cons, ih]
      constructor
      · rintro (rfl | ⟨record, hin, hrecord⟩)
        · cases hr with
          | opened hl => exact ⟨_, Or.inl rfl, rfl, hl⟩
        · exact ⟨record, Or.inr hin, hrecord⟩
      · rintro ⟨record, rfl | hin, rfl, hl⟩
        · cases hr with
          | opened hl' => exact Or.inl (by rw [← hl.lock_eq, ← hl'.lock_eq])
        · exact Or.inr ⟨record, hin, rfl, hl⟩

namespace TransactionImpl

open TransactionLockManager

variable {osdConfig : Bool} {s s' : TransactionImpl} {es : List (Event Int String)}

theorem step_call (h : Serves osdConfig s.memory es) {c : Call}
    (hstep : s.step osdConfig (.call c) = some s') :
    ∃ record? e?, Option.Rel Reports record? e? ∧ Yields (after ∅ es) c e? ∧
      Serves osdConfig s'.memory (es ++ e?.toList) ∧ s'.queue = s.queue ++ record?.toList ∧
      s'.writer = s.writer := by
  obtain ⟨record?, e?, memory, hcall, hreport, hyields, hserves⟩ := h.call c
  obtain rfl : { s with memory := memory, queue := s.queue ++ record?.toList } = s' := by
    simpa [step, hcall] using hstep
  exact ⟨record?, e?, hreport, hyields, hserves, rfl, rfl⟩

theorem step_write {rotate : Bool} (hstep : s.step osdConfig (.write rotate) = some s') :
    ∃ record, s.queue = record :: s'.queue ∧ s'.memory = s.memory ∧
      s'.writer.file = (if s.writer.file.isEmpty ∨ rotate then
        s.writer.snapshotRecords s.memory.memMap else s.writer.file) ++ [record] := by
  unfold step at hstep
  cases hqueue : s.queue with
  | nil => simp [hqueue] at hstep
  | cons record queue =>
      simp only [hqueue, Option.some.injEq] at hstep
      subst hstep
      refine ⟨record, rfl, rfl, ?_⟩
      by_cases hnew : s.writer.file.isEmpty ∨ rotate
      · simp only [hnew, if_true]
        rfl
      · simp only [hnew, if_false]
        rfl

/-- At any time the queue holds the records of the last events. -/
theorem run_serves {nodeId : Nat} {before : List ServiceStep}
    (hrun : run (step osdConfig) (init nodeId) before = some s) :
    ∃ written queued, Serves osdConfig s.memory (written ++ queued) ∧
      List.Forall₂ Reports s.queue queued := by
  refine run_preserves (I := fun s => ∃ written queued,
    Serves osdConfig s.memory (written ++ queued) ∧ List.Forall₂ Reports s.queue queued)
    (step osdConfig) ?_ ⟨[], [], serves_init nodeId, .nil⟩ hrun
  rintro s a s' ⟨written, queued, hserves, hqueue⟩ hstep
  cases a with
  | call c =>
      obtain ⟨record?, e?, hreport, -, hserves', hqueue', -⟩ := step_call hserves hstep
      refine ⟨written, queued ++ e?.toList, by rwa [← List.append_assoc], ?_⟩
      rw [hqueue']
      exact List.rel_append hqueue (forall₂_toList hreport)
  | write rotate =>
      obtain ⟨record, hhead, hmemory, -⟩ := step_write hstep
      rw [hhead] at hqueue
      cases hqueue with
      | @cons _ e _ rest hr hrest =>
          exact ⟨written ++ [e], rest, by simpa [hmemory] using hserves, hrest⟩

/-- As long as no file is started, the file and the queue grow by the records of the calls. -/
theorem run_serves_later {later : List ServiceStep} (h : Serves osdConfig s.memory es)
    (hfile : s.writer.file ≠ []) (hlater : .write true ∉ later)
    (hrun : run (step osdConfig) s later = some s') :
    ∃ es' records, List.Forall₂ Reports records es' ∧ Serves osdConfig s'.memory (es ++ es') ∧
      s'.writer.file ++ s'.queue = s.writer.file ++ s.queue ++ records ∧
      (∀ t l, .released t l ∈ es' → .call (.releaseLock t) ∈ later) ∧
      (∀ t l, (after ∅ es).lookup t = some l → .call (.releaseLock t) ∈ later →
        .released t l ∈ es') := by
  induction later generalizing s es with
  | nil =>
      obtain rfl : s = s' := Option.some.inj hrun
      exact ⟨[], [], .nil, by simpa using h, by simp, by simp, by simp⟩
  | cons a later ih =>
      obtain ⟨s₁, hstep, hrest⟩ := Option.bind_eq_some_iff.mp hrun
      have hlater' : .write true ∉ later := fun hin => hlater (List.mem_cons_of_mem _ hin)
      cases a with
      | call c =>
          obtain ⟨record?, e?, hreport, hyields, hserves, hqueue, hwriter⟩ := step_call h hstep
          obtain ⟨es', records, hreports, hserves', hgrow, hcalled, hreleased⟩ :=
            ih hserves (hwriter ▸ hfile) hlater' hrest
          refine ⟨e?.toList ++ es', record?.toList ++ records,
            List.rel_append (forall₂_toList hreport) hreports, by rwa [← List.append_assoc], ?_,
            fun t l hin => ?_, fun t l hl hin => ?_⟩
          · rw [hgrow, hqueue, hwriter]
            simp
          · rcases List.mem_append.mp hin with hin | hin
            · have he? : e? = some (.released t l) := Option.mem_toList.mp hin
              cases c with
              | addTransaction request lockTime => exact absurd he? (hyields t l)
              | releaseLock t' =>
                  obtain ⟨k, -, heq⟩ := Option.map_eq_some_iff.mp (hyields.symm.trans he?)
                  rw [(Event.released.inj heq).1]
                  exact List.mem_cons_self
            · exact List.mem_cons_of_mem _ (hcalled t l hin)
          · rcases List.mem_cons.mp hin with heq | hin
            · obtain rfl : .releaseLock t = c := ServiceStep.call.inj heq
              have he? : e? = some (.released t l) := hyields.trans (by rw [hl]; rfl)
              exact List.mem_append_left _ (Option.mem_toList.mpr he?)
            · have hlegal := ((legal_append ∅ es e?.toList).mp hserves.legal).2
              rcases lookup_after_of_held hlegal hl with hheld | hgone
              · exact List.mem_append_right _ (hreleased t l (by rwa [after_append]) hin)
              · exact List.mem_append_left _ hgone
      | write rotate =>
          obtain ⟨record, hhead, hmemory, hwritten⟩ := step_write hstep
          have hrotate : rotate = false := by
            cases rotate with
            | false => rfl
            | true => exact absurd List.mem_cons_self hlater
          have hold : ¬(s.writer.file.isEmpty ∨ rotate) := by simp [hfile, hrotate]
          rw [if_neg hold] at hwritten
          obtain ⟨es', records, hreports, hserves', hgrow, hcalled, hreleased⟩ :=
            ih (hmemory ▸ h) (by simp [hwritten]) hlater' hrest
          refine ⟨es', records, hreports, hserves', ?_,
            fun t l hin => List.mem_cons_of_mem _ (hcalled t l hin), fun t l hl hin => ?_⟩
          · rw [hgrow, hwritten, hhead]
            simp
          · rcases List.mem_cons.mp hin with heq | hin
            · simp at heq
            · exact hreleased t l hl hin

end TransactionImpl

/-! ### Recovering the file -/

theorem layOut_record (serializedSize : Record → Nat) (fileId offset : Nat)
    (records : List Record) :
    (layOut serializedSize fileId offset records).map (·.record) = records := by
  induction records generalizing offset with
  | nil => rfl
  | cons record records ih => simp [layOut, ih]

theorem not_before_start (serializedSize : Record → Nat) (fileId offset : Nat)
    (records : List Record) :
    ∀ p ∈ layOut serializedSize fileId offset records, ¬ p.offset < toLex (fileId, 0) := by
  induction records generalizing offset with
  | nil => simp [layOut]
  | cons record records ih =>
      intro p hp
      rcases List.mem_cons.mp hp with rfl | hp
      · simp [Prod.Lex.toLex_lt_toLex]
      · exact ih _ p hp

namespace TransactionReadHandler

open TransactionLockManager

variable {osdConfig : Bool}

/-- The file holds the snapshot of a table, the records queued at the snapshot and later ones.
Second entries are left for the shared locks of the snapshot whose open records come again. -/
theorem recoverRecords_snapshot {s : TransactionLockManager} {L : Table Int String}
    {written queued es' : List (Event Int String)} {queue records : List Record}
    (hserves : Serves osdConfig s (written ++ queued)) (hL : after ∅ (written ++ queued) = L)
    (hqueue : List.Forall₂ Reports queue queued) (hrecords : List.Forall₂ Reports records es')
    {live : TransactionLockManager} (hlive : Serves osdConfig live (written ++ queued ++ es'))
    (w : TransactionWriteHandler) (nodeId fileId : Nat) (serializedSize : Record → Nat) :
    ∃ h X, (init nodeId fileId).recoverRecords osdConfig (layOut serializedSize fileId 0
        (w.snapshotRecords s.memMap ++ (queue ++ records))) = some h ∧
      Represents osdConfig h.memory ((⟨L, X⟩ : Replayed Int String).replay capacity es') ∧
      (∀ t l, X.lookup t = some l →
        L.lookup t = some l ∧ l.mode = .shared ∧ .acquired t l ∈ queued) ∧
      (s.compMap.size + queue.length ≤ capacity → ∀ t l, .acquired t l ∈ queued →
        L.lookup t = some l → l.mode = .shared → t ∈ X) := by
  have hrep : Represents osdConfig s ⟨L, ∅⟩ := hL ▸ hserves.represents
  have hexcl : Exclusive L := hL ▸ exclusive_empty.after hserves.legal
  have hcard : L.keys.card ≤ capacity + 1 :=
    hL ▸ Replayed.card_after_le hserves.roomy (by simp)
  -- the replay of the table: the snapshot, the records it covers, and the later ones
  have hsnapshot := hrep.replay_snapshotEvents hexcl hcard
  obtain ⟨hwritten, hqueued⟩ := (legal_append ∅ written queued).mp hserves.legal
  have hfresh : FreshIds (after ∅ written) queued := by
    have hnodup := hserves.nodup
    rw [acquiredIds_append, List.nodup_append] at hnodup
    refine ⟨hnodup.2.1, fun t ht => ?_⟩
    cases hl : (after ∅ written).lookup t with
    | none => rfl
    | some l =>
        rcases lookup_after hl with hnone | hin
        · simp at hnone
        · exact absurd rfl (hnodup.2.2 t (mem_acquiredIds hin) t ht)
  have hcovers : Replayed.Covers L (after ∅ written) ⟨L, ∅⟩ :=
    ⟨fun t l hl => hl, fun t l hl => Or.inl hl, fun t l hl => by simp at hl⟩
  obtain ⟨hheld, hextra, hagain⟩ := hcovers.replay capacity hexcl hqueued hfresh
    (by rw [← after_append, hL])
  have hreplay : (Replayed.start : Replayed Int String).replay capacity
      (snapshotEvents s.memMap ++ (queued ++ es')) =
      (⟨L, ((⟨L, ∅⟩ : Replayed Int String).replay capacity queued).extra⟩ :
        Replayed Int String).replay capacity es' := by
    have hmiddle : (⟨L, ∅⟩ : Replayed Int String).replay capacity queued =
        ⟨L, ((⟨L, ∅⟩ : Replayed Int String).replay capacity queued).extra⟩ := by
      rw [Replayed.mk.injEq]
      exact ⟨hheld, rfl⟩
    rw [Replayed.replay_append, hsnapshot, Replayed.replay_append]
    exact congrArg (fun R => Replayed.replay capacity R es') hmiddle
  -- the same for the records
  have hreports : List.Forall₂ Reports
      ((memoryRecords s.memMap).map .openRecord ++ (queue ++ records))
      (snapshotEvents s.memMap ++ (queued ++ es')) :=
    List.rel_append hrep.reports_snapshot (List.rel_append hqueue hrecords)
  have hfrom : ∀ t l, .acquired t l ∈ snapshotEvents s.memMap ++ (queued ++ es') →
      .acquired t l ∈ written ++ queued ++ es' := by
    intro t l hin
    rcases List.mem_append.mp hin with hin | hin
    · exact List.mem_append_left _ (hserves.acquired_of_snapshot hin)
    · rw [List.append_assoc]
      exact List.mem_append_right _ hin
  have hids : ∀ t ∈ acquiredIds (written ++ queued ++ es'), t ≠ 0 := fun t ht =>
    (hlive.ids t ht).1.ne'
  obtain ⟨h, hrun, hrep', -⟩ := recoverRecords_represents (h := { init nodeId fileId with
      memory := (TransactionLockManager.init nodeId).setLastTransactionId w.lastTransactionId })
    ((represents_init nodeId).setLastTransactionId _)
    (by rw [layOut_record]; exact hreports)
    (not_before_start serializedSize fileId
      (0 + serializedSize (.snapshotHeaderRecord w.lastTransactionId 1)) _)
    hlive.nodup hids hfrom (fun t l hentry => by rcases hentry with hl | hl <;>
      simp [Replayed.start] at hl)
  refine ⟨h, ((⟨L, ∅⟩ : Replayed Int String).replay capacity queued).extra, hrun,
    hreplay ▸ hrep', fun t l hl => ?_, fun hroom t l hin hl hmode => ?_⟩
  · rcases hextra t l hl with hnone | hof
    · simp at hnone
    · exact hof
  · refine hagain ?_ t l hin hl hmode
    rw [hrep.size_compMap, hqueue.length_eq] at hroom
    exact hroom

end TransactionReadHandler

namespace TransactionImpl

open TransactionLockManager TransactionReadHandler

/-- A read lock is held when the snapshot is taken, its open record is still queued then, and the
lock is released afterwards. -/
def ReopensShared (s : TransactionImpl) (later : List ServiceStep) : Prop :=
  ∃ record, .openRecord record ∈ s.queue ∧ record.operation = LockType.read.code ∧
    record.transactionId ∈ s.memory.compMap ∧
    .call (.releaseLock record.transactionId) ∈ later

/-- Recovery from the last file of a run, once the queue is written, finds the locks that the
service holds unless a shared lock was opened again and released. Below the limit of the lock table
it does so only then. -/
theorem run_recovers_same_locks (osdConfig : Bool) (nodeId nodeId' fileId : Nat)
    (serializedSize : Record → Nat) {before later : List ServiceStep} {s s' : TransactionImpl}
    (hbefore : run (step osdConfig) (init nodeId) before = some s)
    (hlater : .write true ∉ later)
    (hrun : run (step osdConfig) s (.write true :: later) = some s') (hqueue : s'.queue = []) :
    ∃ h, (TransactionReadHandler.init nodeId' fileId).recoverRecords osdConfig
        (layOut serializedSize fileId 0 s'.writer.file) = some h ∧
      (¬ ReopensShared s later → SameLocks h.memory s'.memory) ∧
      (s.memory.compMap.size + s.queue.length ≤ capacity →
        SameLocks h.memory s'.memory → ¬ ReopensShared s later) := by
  obtain ⟨written, queued, hserves, hreports⟩ := run_serves hbefore
  obtain ⟨s₁, hwrite, hrest⟩ := Option.bind_eq_some_iff.mp hrun
  obtain ⟨record, hhead, hmemory, hfile⟩ := step_write hwrite
  rw [if_pos (Or.inr rfl)] at hfile
  obtain ⟨es', records, hrecords, hserves', hgrow, hcalled, hreleased⟩ :=
    run_serves_later (hmemory ▸ hserves) (by simp [hfile]) hlater hrest
  have hwhole : s'.writer.file =
      s.writer.snapshotRecords s.memory.memMap ++ (s.queue ++ records) := by
    rw [hqueue, hfile, List.append_nil] at hgrow
    rw [hgrow, hhead]
    simp
  obtain ⟨h, X, hrecover, hrep, hX, hagain⟩ := recoverRecords_snapshot hserves rfl hreports
    hrecords hserves' s.writer nodeId' fileId serializedSize
  have hafter := after_append ∅ (written ++ queued) es'
  have hlegal := (legal_append ∅ (written ++ queued) es').mp hserves'.legal
  have hroomy := (Replayed.roomy_append ∅ (written ++ queued) es').mp hserves'.roomy
  have hfresh := hserves'.freshIds
  refine ⟨h, hwhole ▸ hrecover, fun hsafe => ?_, ?_⟩
  · -- no lock with a second entry is released, so the replay follows the history
    have hkept : ∀ t l, X.lookup t = some l → ∀ l', .released t l' ∉ es' := by
      intro t l hl l' hin
      obtain ⟨hheld, hmode, hopen⟩ := hX t l hl
      obtain ⟨record, hrecord, rfl, hstands⟩ := (Reports.exists_open hreports).mp hopen
      refine hsafe ⟨record, hrecord, by simpa [hmode, modeCode] using hstands.2, ?_,
        hcalled _ l' hin⟩
      rw [mem_iff_exists_getElem?, hserves.represents.registered, hheld]
      exact ⟨_, rfl⟩
    have hfollow := Replayed.replay_follows (R := ⟨after ∅ (written ++ queued), X⟩) hlegal.2
      hroomy.2 fun t l hl => ⟨(hX t l hl).1, hkept t l hl⟩
    rw [hfollow, ← hafter] at hrep
    refine hrep.sameLocks hserves'.represents fun t l hl => ?_
    rw [hafter]
    exact (lookup_after_of_held hlegal.2 (hX t l hl).1).resolve_right (hkept t l hl l)
  · rintro hroom hsame ⟨record, hrecord, hread, hheld, hcall⟩
    obtain ⟨l, hstands⟩ : ∃ l, record.StandsFor l :=
      ⟨⟨record.objectName, .shared⟩, rfl, hread⟩
    have hmode : l.mode = .shared := modeCode_injective (hstands.2.symm.trans hread)
    have hopen : .acquired record.transactionId l ∈ queued :=
      (Reports.exists_open hreports).mpr ⟨record, hrecord, rfl, hstands⟩
    have hL : (after ∅ (written ++ queued)).lookup record.transactionId = some l := by
      rw [mem_iff_exists_getElem?, hserves.represents.registered] at hheld
      obtain ⟨c, hc⟩ := hheld
      obtain ⟨k, hk, -⟩ := Option.map_eq_some_iff.mp hc
      rcases lookup_after hk with hnone | hin
      · simp at hnone
      · rw [acquired_unique hserves.nodup (List.mem_append_right _ hopen) hin]
        exact hk
    have hgone := hreleased _ l hL hcall
    have hsecond : record.transactionId ∈
        ((⟨after ∅ (written ++ queued), X⟩ : Replayed Int String).replay capacity es').extra :=
      Replayed.extra_persists (hagain hroom _ l hopen hL hmode) es'
    obtain ⟨k, hk⟩ := Finmap.mem_iff.mp hsecond
    have hlist : h.memory.ListsLock record.transactionId k.name (modeCode k.mode) :=
      hrep.lists_iff.mpr ⟨k, Or.inr hk, rfl, rfl⟩
    obtain ⟨k', hk' | hk', -⟩ := hserves'.represents.lists_iff.mp ((hsame.lists _ _ _).mp hlist)
    · have hnone := lookup_after_released hfresh hserves'.legal
        (List.mem_append_right (written ++ queued) hgone)
      exact absurd (hnone.symm.trans hk') (by simp)
    · simp at hk'

/-- A request for an object of component 26. -/
def lockRequest (lockType : LockType) : Request :=
  .ofLockType "1a/b" "HEAD" lockType.code "server"

theorem run_recovers_same_locks_write : ∃ s s' h,
    run (step false) (init 1) [.call (.addTransaction (lockRequest .write) 7)] = some s ∧
      run (step false) s [.write true, .call (.releaseLock (getUniqueId 1 0 + 1)),
        .write false] = some s' ∧
      (TransactionReadHandler.init 1 3).recoverRecords false
        (layOut (fun _ => 200) 3 0 s'.writer.file) = some h ∧ SameLocks h.memory s'.memory := by
  obtain ⟨h, hrun, hsafe, -⟩ := run_recovers_same_locks false 1 1 3 (fun _ => 200)
    (show run (step false) (init 1) [.call (.addTransaction (lockRequest .write) 7)] = some _
      from rfl)
    (by decide)
    (show run (step false) _ [.write true, .call (.releaseLock (getUniqueId 1 0 + 1)),
      .write false] = some _ from rfl) rfl
  refine ⟨_, _, h, rfl, rfl, hrun, hsafe ?_⟩
  rintro ⟨record, hrecord, hread, -⟩
  obtain rfl := Record.openRecord.inj (List.mem_singleton.mp hrecord)
  exact absurd hread (by decide)

/-- The first record of a file repeats the lock that the snapshot in front of it has already. After
its release nothing is held, but recovery lists the name as locked. -/
theorem reopened_read_stays_listed : ∃ s s' h,
    run (step false) (init 1) [.call (.addTransaction (lockRequest .read) 7)] = some s ∧
      run (step false) s [.write true, .call (.releaseLock (getUniqueId 1 0 + 1)),
        .write false] = some s' ∧ s'.queue = [] ∧
      (TransactionReadHandler.init 1 3).recoverRecords false
        (layOut (fun _ => 200) 3 0 s'.writer.file) = some h ∧
      s'.memory.nameMap.isEmpty ∧
      h.memory.ListsLock (getUniqueId 1 0 + 1) "1a/b" LockType.read.code ∧
      ¬ SameLocks h.memory s'.memory := by
  refine ⟨_, _, _, rfl, rfl, rfl, rfl, by decide, by decide, fun hsame => ?_⟩
  have hlists := (hsame.lists (getUniqueId 1 0 + 1) "1a/b" LockType.read.code).mp (by decide)
  exact absurd hlists (by decide)

end TransactionImpl

end ObjectStorage.Transaction
