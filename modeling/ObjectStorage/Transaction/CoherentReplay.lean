import ObjectStorage.Transaction.JournalReplay

/-!
Replay of any records in which an id stands for one lock, with snapshot headers and checkpoints
among them: the lock table that recovery builds is the replay of the events that the records report.
-/

namespace ObjectStorage.Transaction

open Std Library SharedExclusive Journal TransactionLockManager

/-- The event that a record reports, if it reports one. -/
def Record.event? : Record → Option (Event Int String)
  | .openRecord active =>
      if active.operation = LockType.write.code then
        some (.acquired active.transactionId ⟨active.objectName, .exclusive⟩)
      else if active.operation = LockType.read.code then
        some (.acquired active.transactionId ⟨active.objectName, .shared⟩)
      else none
  | .closeRecord transactionId objectName => some (.released transactionId ⟨objectName, .shared⟩)
  | _ => none

def recordEvents (records : List Record) : List (Event Int String) :=
  records.filterMap Record.event?

/-- Every open record has an id and a known type of lock, and an id is that of one lock. -/
structure Coherent (records : List Record) : Prop where
  known : ∀ active, .openRecord active ∈ records → active.transactionId ≠ 0 ∧
    (active.operation = LockType.write.code ∨ active.operation = LockType.read.code)
  single : ∀ active active', .openRecord active ∈ records → .openRecord active' ∈ records →
    active.transactionId = active'.transactionId →
      active.objectName = active'.objectName ∧ active.operation = active'.operation

theorem coherent_single {front : List Record} {active : ActiveRecord}
    (hfront : ∀ active, .openRecord active ∉ front) (hne : active.transactionId ≠ 0)
    (hoperation : active.operation = LockType.write.code ∨
      active.operation = LockType.read.code) : Coherent (front ++ [.openRecord active]) := by
  have honly : ∀ active', .openRecord active' ∈ front ++ [.openRecord active] →
      active' = active := by
    intro active' hin
    rcases List.mem_append.mp hin with hin | hin
    · exact absurd hin (hfront active')
    · exact Record.openRecord.inj (List.mem_singleton.mp hin)
  constructor
  · intro active' hin
    rw [honly active' hin]
    exact ⟨hne, hoperation⟩
  · intro active₁ active₂ hin₁ hin₂ _
    rw [honly active₁ hin₁, honly active₂ hin₂]
    exact ⟨rfl, rfl⟩

theorem Record.reports_of_event {record : Record} {e : Event Int String}
    (h : record.event? = some e) : Reports record e := by
  cases record with
  | openRecord active =>
      simp only [Record.event?] at h
      split at h
      · obtain rfl := Option.some.inj h
        exact .opened ⟨rfl, by assumption⟩
      · split at h
        · obtain rfl := Option.some.inj h
          exact .opened ⟨rfl, by assumption⟩
        · cases h
  | closeRecord t name =>
      obtain rfl := Option.some.inj h
      exact .closed t ⟨name, .shared⟩
  | _ => cases h

theorem Record.event_openRecord {active : ActiveRecord}
    (h : active.operation = LockType.write.code ∨ active.operation = LockType.read.code) :
    ∃ l, (Record.openRecord active).event? = some (.acquired active.transactionId l) ∧
      active.StandsFor l := by
  by_cases hwrite : active.operation = LockType.write.code
  · exact ⟨⟨active.objectName, .exclusive⟩, by rw [Record.event?, if_pos hwrite], rfl, hwrite⟩
  · have hread := h.resolve_left hwrite
    exact ⟨⟨active.objectName, .shared⟩, by rw [Record.event?, if_neg hwrite, if_pos hread], rfl,
      hread⟩

theorem ActiveRecord.StandsFor.eq {active active' : ActiveRecord} {l l' : Lock String}
    (h : active.StandsFor l) (h' : active'.StandsFor l')
    (hname : active.objectName = active'.objectName)
    (hoperation : active.operation = active'.operation) : l = l' := by
  obtain ⟨n, m⟩ := l
  obtain ⟨n', m'⟩ := l'
  have hn : n = n' := h.1.symm.trans (hname.trans h'.1)
  have hm : m = m' := modeCode_injective (h.2.symm.trans (hoperation.trans h'.2))
  rw [hn, hm]

namespace TransactionReadHandler

variable {osdConfig : Bool} {h : TransactionReadHandler} {R : Replayed Int String}

/-- The locks listed so far come from open records. -/
def FromRecords (R : Replayed Int String) (records : List Record) : Prop :=
  ∀ t l, R.Entry t l → ∃ active, .openRecord active ∈ records ∧ active.transactionId = t ∧
    active.StandsFor l

theorem fromRecords_start (records : List Record) : FromRecords .start records := by
  intro t l hentry
  rcases hentry with hl | hl <;> simp [Replayed.start] at hl

theorem recoverObjects_coherent (hrep : Represents osdConfig h.memory R) {p : PlacedRecord}
    {records : List Record} (hcoherent : Coherent records) (hp : p.record ∈ records)
    (hoffset : ¬ p.offset < h.lastCheckpointOffset) (hfrom : FromRecords R records) :
    ∃ h' R', h.recoverObjects osdConfig p = some h' ∧ Represents osdConfig h'.memory R' ∧
      R' = R.replay capacity p.record.event?.toList ∧ FromRecords R' records ∧
      h'.lastCheckpointOffset = h.lastCheckpointOffset := by
  cases hevent : p.record.event? with
  | none =>
      obtain ⟨record, offset, size⟩ := p
      cases record with
      | openRecord active =>
          obtain ⟨l, hl, -⟩ := Record.event_openRecord (hcoherent.known active hp).2
          rw [hl] at hevent
          cases hevent
      | closeRecord t name => cases hevent
      | checkpointRecord last ids => exact ⟨h, R, rfl, hrep, rfl, hfrom, rfl⟩
      | snapshotHeaderRecord last version =>
          exact ⟨_, R, rfl, hrep.setLastTransactionId last, rfl, hfrom, rfl⟩
  | some e =>
      have hreports := Record.reports_of_event hevent
      have hopened : ∀ t l, e = .acquired t l → ∃ active, .openRecord active ∈ records ∧
          active.transactionId = t ∧ active.StandsFor l := by
        intro t l he
        subst he
        cases hrecord : p.record with
        | openRecord active =>
            rw [hrecord] at hreports hp
            cases hreports with
            | opened hl => exact ⟨active, hp, rfl, hl⟩
        | _ =>
            rw [hrecord] at hreports
            cases hreports
      obtain ⟨h', hstep, hrep', hcheck⟩ := recoverObjects_represents hrep hreports hoffset
        (fun t ht => by
          cases e with
          | released t' l => simp [acquiredIds] at ht
          | acquired t' l =>
              obtain rfl : t = t' := by simpa [acquiredIds] using ht
              obtain ⟨active, hin, rfl, -⟩ := hopened t l rfl
              exact (hcoherent.known active hin).1)
        (fun t l he k hk => by
          obtain ⟨active, hin, hid, hl⟩ := hopened t l he
          obtain ⟨active', hin', hid', hk'⟩ := hfrom t k hk
          obtain ⟨hname, hoperation⟩ := hcoherent.single active' active hin' hin
            (hid'.trans hid.symm)
          exact hk'.eq hl hname hoperation)
      refine ⟨h', _, hstep, hrep', rfl, fun t l hentry => ?_, hcheck⟩
      rcases Replayed.entry_apply hentry with hold | rfl
      · exact hfrom t l hold
      · exact hopened t l rfl

theorem recoverRecords_coherent (hrep : Represents osdConfig h.memory R)
    {placed : List PlacedRecord} {records : List Record} (hcoherent : Coherent records)
    (hplaced : ∀ p ∈ placed, p.record ∈ records)
    (hoffset : ∀ p ∈ placed, ¬ p.offset < h.lastCheckpointOffset)
    (hfrom : FromRecords R records) :
    ∃ h', h.recoverRecords osdConfig placed = some h' ∧
      Represents osdConfig h'.memory
        (R.replay capacity (recordEvents (placed.map (·.record)))) ∧
      h'.lastCheckpointOffset = h.lastCheckpointOffset := by
  induction placed generalizing h R with
  | nil => exact ⟨h, rfl, hrep, rfl⟩
  | cons p placed ih =>
      obtain ⟨h₁, R₁, hstep, hrep₁, rfl, hfrom₁, hcheck₁⟩ := recoverObjects_coherent hrep hcoherent
        (hplaced p List.mem_cons_self) (hoffset p List.mem_cons_self) hfrom
      obtain ⟨h', hrun, hrep', hcheck'⟩ := ih hrep₁
        (fun q hq => hplaced q (List.mem_cons_of_mem _ hq))
        (fun q hq => hcheck₁ ▸ hoffset q (List.mem_cons_of_mem _ hq)) hfrom₁
      refine ⟨h', by simpa [recoverRecords, hstep] using hrun, ?_, hcheck'.trans hcheck₁⟩
      have hevents : recordEvents ((p :: placed).map (·.record)) =
          p.record.event?.toList ++ recordEvents (placed.map (·.record)) := by
        rw [recordEvents, List.map_cons, List.filterMap_cons]
        cases p.record.event? <;> rfl
      rwa [hevents, Replayed.replay_append]

end TransactionReadHandler

end ObjectStorage.Transaction
