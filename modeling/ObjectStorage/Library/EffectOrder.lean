import Mathlib

/-!
Sequences of effects made of shorter ones, and what comes in front of an effect.
-/

namespace ObjectStorage.Library

section

variable {α β : Type}

/-- `P` holds of each member and the list in front of it. -/
def Preceded (P : List α → α → Prop) (l : List α) : Prop :=
  ∀ front x back, l = front ++ x :: back → P front x

theorem Preceded.of_append {P : List α → α → Prop} {l back : List α}
    (h : Preceded P (l ++ back)) : Preceded P l := by
  intro front x rest hl
  apply h front x (rest ++ back)
  rw [hl, List.append_assoc, List.cons_append]

theorem preceded_append {P : List α → α → Prop} {l l' : List α} (h : Preceded P l)
    (h' : ∀ front x back, l' = front ++ x :: back → P (l ++ front) x) : Preceded P (l ++ l') := by
  intro front x back hl
  rcases List.append_eq_append_iff.mp hl with ⟨more, rfl, hrest⟩ | ⟨more, hcut, hrest⟩
  · exact h' more x back hrest
  · cases more with
    | nil =>
        rw [List.append_nil] at hcut
        have hfirst := h' [] x back hrest.symm
        rwa [List.append_nil, hcut] at hfirst
    | cons y more =>
        rw [List.cons_append, List.cons.injEq] at hrest
        obtain ⟨rfl, -⟩ := hrest
        exact h front x more hcut

/-- A condition that more in front does not break holds in a list of lists if it does in each. -/
theorem preceded_flatMap {P : List α → α → Prop}
    (hmono : ∀ more front x, P front x → P (more ++ front) x) {f : β → List α} {bs : List β}
    (h : ∀ b ∈ bs, Preceded P (f b)) : Preceded P (bs.flatMap f) := by
  induction bs with
  | nil =>
      intro front x back hl
      simp at hl
  | cons b bs ih =>
      rw [List.flatMap_cons]
      apply preceded_append (h b List.mem_cons_self)
      intro front x back hrest
      apply hmono
      exact ih (fun b' hb' => h b' (List.mem_cons_of_mem _ hb')) front x back hrest

/-- A member of a list that has grown at its end is the new one or was there. -/
theorem append_singleton_eq {l front back : List α} {x y : α}
    (h : l ++ [y] = front ++ x :: back) :
    (l = front ∧ y = x) ∨ ∃ more, l = front ++ x :: more := by
  rcases List.eq_nil_or_concat back with rfl | ⟨more, z, rfl⟩
  · obtain ⟨hl, hy⟩ := List.append_inj' h rfl
    exact .inl ⟨hl, List.singleton_inj.mp hy⟩
  · refine .inr ⟨more, ?_⟩
    rw [List.concat_eq_append, ← List.cons_append, ← List.append_assoc] at h
    exact (List.append_inj' h rfl).1

end

end ObjectStorage.Library
