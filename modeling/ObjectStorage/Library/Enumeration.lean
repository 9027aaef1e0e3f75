import Mathlib.Data.List.Basic
import Mathlib.Tactic.Common

/-!
Iterators that are called until they have no more values. A call is undefined, or gives the next
value and the state behind it, or tells the end.
-/

namespace ObjectStorage.Library

variable {σ α : Type} (next : σ → Option (Option (α × σ)))

/-- These values come one after the other. -/
inductive Emits : σ → List α → σ → Prop
  | nil (s : σ) : Emits s [] s
  | cons {s s' t : σ} {a : α} {as : List α} (h : next s = some (some (a, s')))
      (hrest : Emits s' as t) : Emits s (a :: as) t

/-- These values come one after the other, and from then on only the end. -/
def Drains (s : σ) (as : List α) : Prop := ∃ t, Emits next s as t ∧ next t = some none

variable {next} {s t u : σ} {a : α} {as bs : List α}

theorem Emits.append (h : Emits next s as t) (h' : Emits next t bs u) :
    Emits next s (as ++ bs) u := by
  induction h with
  | nil s => exact h'
  | cons hnext _ ih => exact .cons hnext (ih h')

theorem Emits.concat (h : Emits next s as t) (h' : next t = some (some (a, u))) :
    Emits next s (as ++ [a]) u := h.append (.cons h' (.nil u))

/-- What has come is the start of all that comes. -/
theorem Drains.of_emits (h : Drains next s bs) (h' : Emits next s as t) :
    ∃ cs, bs = as ++ cs ∧ Drains next t cs := by
  induction h' generalizing bs with
  | nil s => exact ⟨bs, rfl, h⟩
  | cons hnext _ ih =>
      obtain ⟨t', hemits, hend⟩ := h
      cases hemits with
      | nil => simp [hnext] at hend
      | cons hnext' hrest =>
          rw [hnext] at hnext'
          obtain ⟨rfl, rfl⟩ := Prod.ext_iff.mp (Option.some.inj (Option.some.inj hnext'))
          obtain ⟨cs, rfl, hcs⟩ := ih ⟨t', hrest, hend⟩
          exact ⟨cs, rfl, hcs⟩

theorem Drains.next_ne_none (h : Drains next s as) : next s ≠ none := by
  obtain ⟨t, hemits, hend⟩ := h
  cases hemits with
  | nil => simp [hend]
  | cons hnext => simp [hnext]

theorem emits_range {state : Nat → σ} {value : Nat → α} {n : Nat}
    (h : ∀ k < n, next (state k) = some (some (value k, state (k + 1)))) :
    Emits next (state 0) ((List.range n).map value) (state n) := by
  induction n with
  | zero => exact .nil _
  | succ n ih =>
      rw [List.range_succ, List.map_append]
      exact (ih fun k hk => h k (Nat.lt_succ_of_lt hk)).concat (h n (Nat.lt_succ_self n))

end ObjectStorage.Library
