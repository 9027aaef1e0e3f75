import Mathlib

/-!
A table of threads that only grows: a thread is named by its position, and changes by being set.
Quantities of the threads are added over the table.
-/

namespace ObjectStorage.Library

section

variable {τ : Type*} (f : τ → Nat)

/-- The sum of a quantity over all threads. -/
def total (ts : List τ) : Nat := (ts.map f).sum

@[simp] theorem total_nil : total f [] = 0 := rfl

@[simp] theorem total_cons (t : τ) (ts : List τ) : total f (t :: ts) = f t + total f ts := by
  rw [total, List.map_cons, List.sum_cons, total]

@[simp] theorem total_concat (ts : List τ) (t : τ) : total f (ts ++ [t]) = total f ts + f t := by
  rw [total, List.map_append, List.sum_append, total, List.map_singleton, List.sum_singleton]

variable {f}

theorem total_set {ts : List τ} {i : Nat} {t : τ} (ht : ts[i]? = some t) (t' : τ) :
    total f (ts.set i t') + f t = total f ts + f t' := by
  induction ts generalizing i with
  | nil => cases ht
  | cons u ts ih =>
      cases i with
      | zero =>
          obtain rfl : u = t := Option.some.inj ht
          rw [List.set_cons_zero, total_cons, total_cons]
          omega
      | succ i =>
          have hrest := ih ht
          rw [List.set_cons_succ, total_cons, total_cons]
          omega

theorem total_set_eq {ts : List τ} {i : Nat} {t t' : τ} (ht : ts[i]? = some t)
    (heq : f t' = f t) : total f (ts.set i t') = total f ts := by
  have hset := total_set (f := f) ht t'
  omega

theorem le_total {ts : List τ} {t : τ} (ht : t ∈ ts) : f t ≤ total f ts := by
  obtain ⟨i, hi⟩ := List.mem_iff_getElem?.mp ht
  induction ts generalizing i with
  | nil => cases ht
  | cons u ts ih =>
      rw [total_cons]
      rcases List.mem_cons.mp ht with rfl | ht
      · omega
      · obtain ⟨j, hj⟩ := List.mem_iff_getElem?.mp ht
        have hrest := ih ht j hj
        omega

theorem total_eq_zero {ts : List τ} : total f ts = 0 ↔ ∀ t ∈ ts, f t = 0 := by
  induction ts with
  | nil => simp
  | cons t ts ih =>
      rw [total_cons, Nat.add_eq_zero_iff, ih, List.forall_mem_cons]

theorem exists_of_total_pos {ts : List τ} (h : 0 < total f ts) : ∃ t ∈ ts, 0 < f t := by
  by_contra hnone
  have hzero : total f ts = 0 := total_eq_zero.mpr fun t ht => by
    by_contra hne
    exact hnone ⟨t, ht, Nat.pos_of_ne_zero hne⟩
  omega

theorem add_le_total {ts : List τ} {i j : Nat} {t u : τ} (hij : i ≠ j) (ht : ts[i]? = some t)
    (hu : ts[j]? = some u) : f t + f u ≤ total f ts := by
  induction ts generalizing i j with
  | nil => cases ht
  | cons v ts ih =>
      rw [total_cons]
      cases i with
      | zero =>
          cases j with
          | zero => exact absurd rfl hij
          | succ j =>
              obtain rfl : v = t := Option.some.inj ht
              have htail : ts[j]? = some u := hu
              have hle := le_total (f := f) (List.mem_of_getElem? htail)
              omega
      | succ i =>
          cases j with
          | zero =>
              obtain rfl : v = u := Option.some.inj hu
              have htail : ts[i]? = some t := ht
              have hle := le_total (f := f) (List.mem_of_getElem? htail)
              omega
          | succ j =>
              have hrest := ih (fun heq => hij (congrArg Nat.succ heq)) ht hu
              omega

end

end ObjectStorage.Library
