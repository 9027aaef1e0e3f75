import Mathlib.Data.List.Basic
import Mathlib.Tactic.Common

/-!
Lists of entries with keys, and what is left of them when of every key the first entries are taken
out as long as they satisfy a condition.
-/

namespace ObjectStorage.Library

variable {α κ : Type} [DecidableEq κ] (key : α → κ) (p : α → Bool)

/-- The keys in `kept` have an entry that was kept already. -/
def dropLeading (kept : List κ) : List α → List α
  | [] => []
  | e :: l =>
      if key e ∉ kept ∧ p e then dropLeading kept l else e :: dropLeading (key e :: kept) l

/-- What is taken out. -/
def takeLeading (kept : List κ) : List α → List α
  | [] => []
  | e :: l =>
      if key e ∉ kept ∧ p e then e :: takeLeading kept l else takeLeading (key e :: kept) l

variable {key p} {kept : List κ} {e : α} {l done new : List α}

theorem takeLeading_append_dropLeading_perm (kept : List κ) (l : List α) :
    (takeLeading key p kept l ++ dropLeading key p kept l).Perm l := by
  induction l generalizing kept with
  | nil => exact .nil
  | cons e l ih =>
      unfold takeLeading dropLeading
      split
      · exact (ih kept).cons e
      · exact List.perm_middle.trans ((ih (key e :: kept)).cons e)

theorem dropLeading_cons_of_drop (hkey : key e ∉ kept) (hp : p e) :
    dropLeading key p kept (e :: l) = dropLeading key p kept l := if_pos ⟨hkey, hp⟩

theorem dropLeading_cons_of_keep (h : key e ∈ kept ∨ ¬ p e) :
    dropLeading key p kept (e :: l) = e :: dropLeading key p (key e :: kept) l := by
  refine if_neg fun hdrop => ?_
  rcases h with hkey | hp
  · exact hdrop.1 hkey
  · exact hp hdrop.2

/-- The condition only matters for keys of which nothing was kept. -/
theorem dropLeading_congr {q : α → Bool} (h : ∀ e ∈ l, key e ∉ kept → p e = q e) :
    dropLeading key p kept l = dropLeading key q kept l := by
  induction l generalizing kept with
  | nil => rfl
  | cons e l ih =>
      have hrest : ∀ kept', kept ⊆ kept' →
          dropLeading key p kept' l = dropLeading key q kept' l := by
        intro kept' hsub
        exact ih fun e' he' hkey => h e' (List.mem_cons_of_mem e he') fun hmem => hkey (hsub hmem)
      by_cases hkey : key e ∈ kept
      · rw [dropLeading_cons_of_keep (.inl hkey), dropLeading_cons_of_keep (.inl hkey),
          hrest _ (List.subset_cons_self _ _)]
      · have hpq := h e List.mem_cons_self hkey
        cases hp : p e with
        | true =>
            rw [dropLeading_cons_of_drop hkey hp, dropLeading_cons_of_drop hkey (hpq ▸ hp),
              hrest kept (List.Subset.refl kept)]
        | false =>
            have hq : ¬ q e := by simp [← hpq, hp]
            rw [dropLeading_cons_of_keep (.inr (by simp [hp])), dropLeading_cons_of_keep (.inr hq),
              hrest _ (List.subset_cons_self _ _)]

theorem filter_dropLeading (k : κ) :
    (dropLeading key p kept l).filter (key · = k) =
      if k ∈ kept then l.filter (key · = k) else (l.filter (key · = k)).dropWhile p := by
  induction l generalizing kept with
  | nil => simp [dropLeading]
  | cons e l ih =>
      by_cases hdrop : key e ∉ kept ∧ p e
      · rw [dropLeading_cons_of_drop hdrop.1 hdrop.2, ih]
        by_cases hk : key e = k
        · rw [if_neg (hk ▸ hdrop.1), if_neg (hk ▸ hdrop.1), List.filter_cons_of_pos (by simp [hk]),
            List.dropWhile_cons_of_pos hdrop.2]
        · rw [List.filter_cons_of_neg (by simp [hk])]
      · rw [dropLeading_cons_of_keep (by tauto)]
        by_cases hk : key e = k
        · rw [List.filter_cons_of_pos (by simp [hk]), ih, if_pos (hk ▸ List.mem_cons_self),
            List.filter_cons_of_pos (by simp [hk])]
          split_ifs with hmem
          · rfl
          · have hp : ¬ p e := fun hp => hdrop ⟨hk ▸ hmem, hp⟩
            rw [List.dropWhile_cons_of_neg hp]
        · rw [List.filter_cons_of_neg (by simp [hk]), ih, List.filter_cons_of_neg (by simp [hk])]
          simp [Ne.symm hk]

theorem dropWhile_append_eq_iff (p : α → Bool) (done new : List α) :
    (done ++ new).dropWhile p = new ↔ (∀ e ∈ done, p e) ∧ ∀ e, new.head? = some e → ¬ p e := by
  induction done with
  | nil =>
      cases new with
      | nil => simp
      | cons e new =>
          rw [List.nil_append]
          cases hp : p e with
          | true =>
              have hshort := (List.dropWhile_suffix p (l := new)).length_le
              simp only [List.dropWhile_cons_of_pos hp]
              refine ⟨fun heq => ?_, fun h => absurd hp (h.2 e rfl)⟩
              rw [heq, List.length_cons] at hshort
              omega
          | false => simp [List.dropWhile_cons_of_neg, hp]
  | cons e done ih =>
      rw [List.cons_append]
      cases hp : p e with
      | true => rw [List.dropWhile_cons_of_pos hp, ih, List.forall_mem_cons, and_iff_right hp]
      | false =>
          rw [List.dropWhile_cons_of_neg (by simp [hp])]
          refine ⟨fun heq => ?_, fun h => ?_⟩
          · have hlength := congrArg List.length heq
            simp only [List.length_cons, List.length_append] at hlength
            omega
          · have hhead := h.1 e List.mem_cons_self
            simp [hp] at hhead

theorem dropLeading_eq_self
    (h : ∀ k e, k ∉ kept → l.find? (key · = k) = some e → ¬ p e) :
    dropLeading key p kept l = l := by
  induction l generalizing kept with
  | nil => rfl
  | cons e l ih =>
      have hkeep : key e ∈ kept ∨ ¬ p e := by
        by_cases hkey : key e ∈ kept
        · exact .inl hkey
        · exact .inr (h (key e) e hkey (List.find?_cons_of_pos (by simp)))
      rw [dropLeading_cons_of_keep hkeep, ih]
      intro k e' hk hfind
      have hne : key e ≠ k := fun heq => hk (heq ▸ List.mem_cons_self)
      refine h k e' (fun hmem => hk (List.mem_cons_of_mem _ hmem)) ?_
      rw [List.find?_cons_of_neg (by simp [hne]), hfind]

/-- Exactly the front part of a list is taken out if and only if all its entries satisfy the
condition and of every key the first entry behind it does not. -/
theorem dropLeading_append_eq_iff :
    dropLeading key p [] (done ++ new) = new ↔
      (∀ e ∈ done, p e) ∧
        ∀ e ∈ new, new.find? (fun e' => key e' = key e) = some e → ¬ p e := by
  constructor
  · intro heq
    have hparts : ∀ k, (∀ e ∈ done.filter (key · = k), p e) ∧
        ∀ e, (new.filter (key · = k)).head? = some e → ¬ p e := by
      intro k
      have hkey := congrArg (List.filter (key · = k)) heq
      rw [filter_dropLeading, if_neg List.not_mem_nil, List.filter_append] at hkey
      exact (dropWhile_append_eq_iff p _ _).mp hkey
    refine ⟨fun e he => (hparts (key e)).1 e (List.mem_filter.mpr ⟨he, by simp⟩), ?_⟩
    intro e _ hfind
    exact (hparts (key e)).2 e (List.head?_filter ▸ hfind)
  · rintro ⟨hdone, hnew⟩
    induction done with
    | nil =>
        refine dropLeading_eq_self fun k e _ hfind => ?_
        have hk : key e = k := by simpa using List.find?_some hfind
        exact hnew e (List.mem_of_find?_eq_some hfind) (hk ▸ hfind)
    | cons e done ih =>
        rw [List.cons_append, dropLeading_cons_of_drop List.not_mem_nil
          (hdone e List.mem_cons_self)]
        exact ih fun e' he' => hdone e' (List.mem_cons_of_mem e he')

end ObjectStorage.Library
