import Mathlib.Logic.Function.Basic

/-!
Slots that are marked as reserved, and users that hold one slot each or none. The marks are right
when the reserved slots are those that are held, each by one user.
-/

namespace ObjectStorage.Library

section

variable {ι κ : Type} {reserved reserved' : κ → Prop} {held held' : ι → Option κ} {i : ι} {k : κ}

structure ReservedExactly (reserved : κ → Prop) (held : ι → Option κ) : Prop where
  iff_held : ∀ k, reserved k ↔ ∃ i, held i = some k
  unique : ∀ i j k, held i = some k → held j = some k → i = j

theorem ReservedExactly.empty (hreserved : ∀ k, ¬ reserved k) (hheld : ∀ i, held i = none) :
    ReservedExactly reserved held where
  iff_held k := by simp [hreserved k, hheld]
  unique i j k hi := by simp [hheld] at hi

theorem ReservedExactly.congr (h : ReservedExactly reserved held)
    (hreserved : ∀ k, reserved' k ↔ reserved k) (hheld : ∀ i, held' i = held i) :
    ReservedExactly reserved' held' := by
  obtain rfl : held' = held := funext hheld
  exact ⟨fun k => (hreserved k).trans (h.iff_held k), h.unique⟩

theorem ReservedExactly.reserve (h : ReservedExactly reserved held) (hfree : ¬ reserved k)
    (hi : held i = none) (hreserved : ∀ k', reserved' k' ↔ reserved k' ∨ k' = k)
    (hself : held' i = some k) (hothers : ∀ j, j ≠ i → held' j = held j) :
    ReservedExactly reserved' held' where
  iff_held k' := by
    rw [hreserved, h.iff_held]
    constructor
    · rintro (⟨j, hj⟩ | rfl)
      · refine ⟨j, ?_⟩
        have hne : j ≠ i := by
          rintro rfl
          rw [hi] at hj
          cases hj
        rw [hothers j hne, hj]
      · exact ⟨i, hself⟩
    · rintro ⟨j, hj⟩
      by_cases hji : j = i
      · subst hji
        exact .inr (Option.some.inj (hj.symm.trans hself))
      · exact .inl ⟨j, by rw [← hothers j hji, hj]⟩
  unique j j' k' hj hj' := by
    have hother : ∀ l, l ≠ i → held' l ≠ some k := fun l hl hk => by
      rw [hothers l hl] at hk
      exact hfree ((h.iff_held k).mpr ⟨l, hk⟩)
    by_cases hji : j = i
    · subst hji
      obtain rfl := Option.some.inj (hj.symm.trans hself)
      by_contra hne
      exact hother j' (fun heq => hne heq.symm) hj'
    · by_cases hji' : j' = i
      · subst hji'
        obtain rfl := Option.some.inj (hj'.symm.trans hself)
        exact absurd hj (hother j hji)
      · rw [hothers j hji] at hj
        rw [hothers j' hji'] at hj'
        exact h.unique j j' k' hj hj'

theorem ReservedExactly.release (h : ReservedExactly reserved held) (hi : held i = some k)
    (hreserved : ∀ k', reserved' k' ↔ reserved k' ∧ k' ≠ k) (hself : held' i = none)
    (hothers : ∀ j, j ≠ i → held' j = held j) : ReservedExactly reserved' held' where
  iff_held k' := by
    rw [hreserved, h.iff_held]
    constructor
    · rintro ⟨⟨j, hj⟩, hne⟩
      refine ⟨j, ?_⟩
      have hji : j ≠ i := by
        rintro rfl
        exact hne (Option.some.inj (hj.symm.trans hi))
      rw [hothers j hji, hj]
    · rintro ⟨j, hj⟩
      have hji : j ≠ i := by
        rintro rfl
        rw [hself] at hj
        cases hj
      rw [hothers j hji] at hj
      refine ⟨⟨j, hj⟩, ?_⟩
      rintro rfl
      exact hji (h.unique j i k' hj hi)
  unique j j' k' hj hj' := by
    have hne : ∀ l, held' l = some k' → l ≠ i := by
      rintro l hl rfl
      rw [hself] at hl
      cases hl
    rw [hothers j (hne j hj)] at hj
    rw [hothers j' (hne j' hj')] at hj'
    exact h.unique j j' k' hj hj'

end

end ObjectStorage.Library
