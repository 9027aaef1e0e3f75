import ObjectStorage.Journal.Framing
import ObjectStorage.Library.OrderedMap

/-!
`InfoFileSorter`: the records of several iterators in the order of their names. Of the records with
the same name at the fronts of the iterators only that of the last iterator is returned. Names are
not empty, as an empty name would be returned again and again.
-/

namespace ObjectStorage.InfoFile

open Std Library Journal

variable {ρ : Type}

/-- What names are compared by: their first 256 bytes. -/
def sortKey (name : String) : Bytes := name.toUTF8.toList.take 256

namespace InfoFileSorter

variable (name : ρ → String)

/-- The record with the least name, of the last iterator that has one. -/
def choose (iterators : List (List ρ)) : Option ρ :=
  iterators.foldl (fun best iterator =>
    match best, iterator.head? with
    | best, none => best
    | none, some record => some record
    | some target, some record =>
        if sortKey (name target) < sortKey (name record) then some target else some record) none

/-- The iterators whose next record has the name go on. -/
def advance (target : ρ) (iterators : List (List ρ)) : List (List ρ) :=
  iterators.map fun
    | [] => []
    | record :: rest =>
        if sortKey (name target) = sortKey (name record) then rest else record :: rest

/-- The records that `next` returns. -/
def sorted : Nat → List (List ρ) → List ρ
  | 0, _ => []
  | fuel + 1, iterators =>
      match choose name iterators with
      | none => []
      | some record => record :: sorted fuel (advance name record iterators)

def total (iterators : List (List ρ)) : Nat := (iterators.map List.length).sum

def records (iterators : List (List ρ)) : List ρ := sorted name (total iterators) iterators

theorem length_sorted_le (fuel : Nat) (iterators : List (List ρ)) :
    (sorted name fuel iterators).length ≤ fuel := by
  induction fuel generalizing iterators with
  | zero => exact Nat.le_refl 0
  | succ fuel ih =>
      rw [sorted]
      split
      · exact Nat.zero_le _
      · exact Nat.succ_le_succ (ih _)

theorem length_records_le (iterators : List (List ρ)) :
    (records name iterators).length ≤ total iterators := length_sorted_le name _ _

end InfoFileSorter

/-! ### Unsorted records -/

/-- The records in the order of their names; of records with one name the last is kept. -/
def sortedMap (name : ρ → String) (records : List ρ) : List ρ :=
  ((records.foldl (fun map record => map.insert (name record) record)
    (∅ : TreeMap String ρ)).toList).map (·.2)

theorem length_sortedMap_le (name : ρ → String) (records : List ρ) :
    (sortedMap name records).length ≤ records.length := by
  have hsize : ∀ map : TreeMap String ρ,
      (records.foldl (fun map record => map.insert (name record) record) map).size ≤
        map.size + records.length := by
    induction records with
    | nil => exact fun map => Nat.le_refl _
    | cons record records ih =>
        intro map
        have hrest := ih (map.insert (name record) record)
        have hinsert := TreeMap.size_insert_le (t := map) (k := name record) (v := record)
        rw [List.foldl_cons, List.length_cons]
        omega
  rw [sortedMap, List.length_map, TreeMap.length_toList]
  have hstart := hsize ∅
  have hempty : (∅ : TreeMap String ρ).size = 0 := TreeMap.size_emptyc
  omega

end ObjectStorage.InfoFile
