import Mathlib.Data.List.Basic
import Mathlib.Tactic.Common

/-!
Vectors whose iterators are checked. Erasing an element outdates all iterators of the vector but the
one that is returned, and an iterator that is outdated or out of range cannot be used.
-/

namespace ObjectStorage.Library

structure VectorIterator where
  position : Nat
  erasures : Nat
deriving DecidableEq

structure CheckedVector (α : Type) where
  items : List α
  erasures : Nat
deriving DecidableEq

namespace CheckedVector

variable {α : Type}

def first (v : CheckedVector α) : VectorIterator := ⟨0, v.erasures⟩

/-- Whether the iterator is at the end. -/
def atEnd? (v : CheckedVector α) (it : VectorIterator) : Option Bool :=
  if it.erasures = v.erasures ∧ it.position ≤ v.items.length then
    some (decide (it.position = v.items.length))
  else none

def get? (v : CheckedVector α) (it : VectorIterator) : Option α :=
  if it.erasures = v.erasures then v.items[it.position]? else none

def next? (v : CheckedVector α) (it : VectorIterator) : Option VectorIterator :=
  (v.get? it).map fun _ => { it with position := it.position + 1 }

/-- The vector without the element, and the iterator behind it. -/
def erase? (v : CheckedVector α) (it : VectorIterator) :
    Option (CheckedVector α × VectorIterator) :=
  (v.get? it).map fun _ =>
    (⟨v.items.eraseIdx it.position, v.erasures + 1⟩, ⟨it.position, v.erasures + 1⟩)

/-- The iterator can be used and has these elements in front of it and from it on. -/
structure Splits (v : CheckedVector α) (it : VectorIterator) (done left : List α) : Prop where
  items : v.items = done ++ left
  position : it.position = done.length
  erasures : it.erasures = v.erasures

variable {v : CheckedVector α} {it : VectorIterator} {done left : List α} {x : α}

theorem splits_first (v : CheckedVector α) : v.Splits v.first [] v.items := ⟨rfl, rfl, rfl⟩

theorem Splits.atEnd (h : v.Splits it done left) : v.atEnd? it = some left.isEmpty := by
  have hlength : v.items.length = done.length + left.length := by rw [h.items, List.length_append]
  unfold atEnd?
  rw [if_pos ⟨h.erasures, by rw [h.position, hlength]; omega⟩, h.position, hlength]
  cases left <;> simp

theorem Splits.get (h : v.Splits it done (x :: left)) : v.get? it = some x := by
  unfold get?
  rw [if_pos h.erasures, h.items, h.position]
  simp

theorem Splits.next (h : v.Splits it done (x :: left)) :
    ∃ it', v.next? it = some it' ∧ v.Splits it' (done ++ [x]) left := by
  refine ⟨{ it with position := it.position + 1 }, by simp [next?, h.get], ?_⟩
  exact ⟨by simp [h.items], by simp [h.position], h.erasures⟩

theorem Splits.erase (h : v.Splits it done (x :: left)) :
    ∃ v' it', v.erase? it = some (v', it') ∧ v'.Splits it' done left := by
  refine ⟨⟨v.items.eraseIdx it.position, v.erasures + 1⟩, ⟨it.position, v.erasures + 1⟩,
    by simp [erase?, h.get], ?_⟩
  exact ⟨by simp [h.items, h.position, List.eraseIdx_append_of_length_le], h.position, rfl⟩

end CheckedVector

end ObjectStorage.Library
