import ObjectStorage.Container.MemoryManager
import ObjectStorage.Transaction.TransferUndo

/-!
The commit of recovered components, which the lock table and the memory of the container library
both do at the end of a transfer. The lock table asks whether a component is listed before it asks
whether it is owned.
-/

namespace ObjectStorage.Container.Statistics.Components

open Std Library Transaction TransactionLockManager Statistics

/-- What the commit is to make of a component. -/
def committed {ρ : Type} (components : List Int) (baseVersionChanged : Bool) (c : Int)
    (e : ρ × Bool) : Option (ρ × Bool) :=
  if e.2 then some e
  else if c ∈ components then some (e.1, true)
  else if baseVersionChanged then none
  else some e

variable {components : List Int} {changed : Bool}

theorem committed_eq {ρ : Type} {c : Int} {e : ρ × Bool}
    (h : changed = true → e.2 = false → c ∈ components) :
    committed components changed c e = some (e.1, e.2 || decide (c ∈ components)) := by
  obtain ⟨records, owned⟩ := e
  unfold committed
  cases owned with
  | true => rfl
  | false =>
      by_cases hc : c ∈ components
      · simp [hc]
      · cases changed with
        | true => exact absurd (h rfl rfl) hc
        | false => simp [hc]

/-- The lock table's commit does so if and only if a changed base version finds no component outside
the list, owned or not. -/
theorem lockTable_commit_iff (s : TransactionLockManager) :
    (∃ s', s.commitRecoveredData components changed = some s' ∧
        ∀ c : Int, s'.memMap[c]? = (s.memMap[c]?).bind (committed components changed c)) ↔
      (changed = true → ∀ (c : Int) e, s.memMap[c]? = some e → c ∈ components) := by
  constructor
  · rintro ⟨s', hcommit, -⟩ hchanged c e he
    refine listed_of_commitRecoveredData hcommit hchanged c e.2 ?_
    simp [flagAt, he]
  · intro hlisted
    refine ⟨_, commitRecoveredData_eq fun hchanged c b hb => ?_, fun c => ?_⟩
    · obtain ⟨e, he, -⟩ := Option.map_eq_some_iff.mp hb
      exact hlisted hchanged c e he
    · rw [getElem?_ownComponents]
      cases he : s.memMap[c]? with
      | none => rfl
      | some e => exact (committed_eq fun hchanged _ => hlisted hchanged c e he).symm

/-- The commit of the memory does so if and only if a changed base version finds no recovered
component outside the list. -/
theorem memory_commit_iff (m : MemoryManager) :
    (∃ ret m', m.commitRecoveredData components changed = some (ret, m') ∧
        ∀ c : Int, m'.memoryMap[c]? = (m.memoryMap[c]?).bind (committed components changed c)) ↔
      (changed = true → ∀ (c : Int) e, m.memoryMap[c]? = some e → e.2 = false →
        c ∈ components) := by
  constructor
  · rintro ⟨ret, m', hcommit, -⟩ hchanged c e he howned
    by_contra hc
    have hany : ((m.memoryMap.toList.filter fun e => ! e.2.2).any fun e => e.1 ∉ components) := by
      refine List.any_eq_true.mpr ⟨(c, e), List.mem_filter.mpr ⟨?_, by simp [howned]⟩, by simp [hc]⟩
      exact TreeMap.mem_toList_iff_getElem?_eq_some.mpr he
    simp only [MemoryManager.commitRecoveredData, hchanged, hany, Bool.and_self, if_true] at hcommit
    contradiction
  · intro hlisted
    have hnone : ¬ (changed && (m.memoryMap.toList.filter fun e => ! e.2.2).any fun e =>
        e.1 ∉ components) := by
      rw [Bool.and_eq_true, not_and, List.any_eq_true]
      rintro hchanged ⟨⟨c, e⟩, hin, hc⟩
      obtain ⟨hin, howned⟩ := List.mem_filter.mp hin
      have he := TreeMap.mem_toList_iff_getElem?_eq_some.mp hin
      exact of_decide_eq_true hc (hlisted hchanged c e he (by simpa using howned))
    refine ⟨_, _, if_neg hnone, fun c => ?_⟩
    rw [TreeMap.getElem?_map]
    cases he : m.memoryMap[c]? with
    | none => rfl
    | some e => exact (committed_eq fun hchanged => hlisted hchanged c e he).symm

/-- Both commits leave owned components alone, own the listed recovered ones and drop the other
recovered ones if and only if a changed base version finds no component outside the list in the lock
table and no recovered one in the memory. -/
theorem commit_leaves_owned_iff (s : TransactionLockManager) (m : MemoryManager)
    (components : List Int) (changed : Bool) :
    ((∃ s', s.commitRecoveredData components changed = some s' ∧
        ∀ c : Int, s'.memMap[c]? = (s.memMap[c]?).bind (committed components changed c)) ∧
      ∃ ret m', m.commitRecoveredData components changed = some (ret, m') ∧
        ∀ c : Int, m'.memoryMap[c]? = (m.memoryMap[c]?).bind (committed components changed c)) ↔
    (changed = true → (∀ (c : Int) e, s.memMap[c]? = some e → c ∈ components) ∧
      ∀ (c : Int) e, m.memoryMap[c]? = some e → e.2 = false → c ∈ components) := by
  rw [lockTable_commit_iff, memory_commit_iff, ← forall_and]

/-- Component 5 is owned, with a lock and a pending record, and not listed. -/
theorem commit_erases_owned :
    let record : ActiveRecord := ⟨1, "a/b/c", "PUT", "n", 7, 0⟩
    let s : TransactionLockManager :=
      ⟨8, (∅ : NameMap).insert "a/b/c" [record.element],
        (∅ : MemMap).insert 5 ((∅ : RecordMap).insert 7 record, true), (∅ : CompMap).insert 7 5⟩
    let e : SecureObjectRecord := .new ⟨"c", 1, 0, objectAdd⟩ (toLex (1, 0)) (toLex (1, 50))
    let m : MemoryManager :=
      ⟨(∅ : MemoryMap).insert 5 ((∅ : ContainerMap).insert "a/b" e, true), ∅, 1, 0⟩
    (∃ c : Int, ∃ e, s.memMap[c]? = some e ∧ e.2 = true) ∧
    ¬ (∃ s', s.commitRecoveredData [] true = some s' ∧
        ∀ c : Int, s'.memMap[c]? = (s.memMap[c]?).bind (committed [] true c)) ∧
    ∃ ret m', m.commitRecoveredData [] true = some (ret, m') ∧
      ∀ c : Int, m'.memoryMap[c]? = (m.memoryMap[c]?).bind (committed [] true c) := by
  refine ⟨⟨5, _, TreeMap.getElem?_insert_self, rfl⟩, ?_, ?_⟩
  · rw [lockTable_commit_iff]
    intro h
    simpa using h rfl 5 _ (TreeMap.getElem?_insert_self)
  · rw [memory_commit_iff]
    rintro - c e he howned
    rw [getElem?_insert_eq] at he
    split at he
    · cases he
      contradiction
    · simp at he

end ObjectStorage.Container.Statistics.Components
