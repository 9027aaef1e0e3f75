import Mathlib.Data.List.Basic

/-!
Prefixes in the lexicographic order of lists: what lies between two lists with a prefix has it, too.
The part of a list up to the first occurrence of a delimiter tells the lists apart that are listed
together.
-/

namespace ObjectStorage.Library

section

variable {α : Type} [LT α] [LE α] [Std.IsLinearOrder α] [Std.LawfulOrderLT α]

theorem isPrefix_of_between {p a b c : List α} (hab : a ≤ b) (hbc : b ≤ c) (ha : p <+: a)
    (hc : p <+: c) : p <+: b := by
  induction p generalizing a b c with
  | nil => exact List.nil_prefix
  | cons x p ih =>
      obtain ⟨a', rfl⟩ := ha
      obtain ⟨c', rfl⟩ := hc
      cases b with
      | nil => exact absurd hab (by simp)
      | cons y b =>
          rw [List.cons_append, List.cons_le_cons_iff] at hab hbc
          rcases hab with hxy | ⟨rfl, hab⟩
          · rcases hbc with hyx | ⟨rfl, -⟩
            · exact absurd (Std.lt_trans hxy hyx) Std.lt_irrefl
            · exact absurd hxy Std.lt_irrefl
          · rcases hbc with hxx | ⟨-, hbc⟩
            · exact absurd hxx Std.lt_irrefl
            · exact List.cons_prefix_cons.mpr
                ⟨rfl, ih hab hbc (List.prefix_append _ _) (List.prefix_append _ _)⟩

end

section

variable {α : Type} [DecidableEq α] {delimiter : List α}

/-- The part of a list up to the end of the first delimiter. -/
def pathFrom (delimiter : List α) : List α → Option (List α)
  | [] => none
  | a :: rest =>
      if delimiter <+: a :: rest then some delimiter
      else (pathFrom delimiter rest).map (a :: ·)

theorem pathFrom_isPrefix {s path : List α} (h : pathFrom delimiter s = some path) :
    path <+: s := by
  induction s generalizing path with
  | nil => cases h
  | cons a s ih =>
      rw [pathFrom] at h
      split at h
      next hfirst => exact Option.some.inj h ▸ hfirst
      next =>
        obtain ⟨path', hpath', rfl⟩ := Option.map_eq_some_iff.mp h
        exact List.cons_prefix_cons.mpr ⟨rfl, ih hpath'⟩

theorem length_le_of_pathFrom {s path : List α} (h : pathFrom delimiter s = some path) :
    delimiter.length ≤ path.length := by
  induction s generalizing path with
  | nil => cases h
  | cons a s ih =>
      rw [pathFrom] at h
      split at h
      next => exact Nat.le_of_eq (congrArg List.length (Option.some.inj h))
      next =>
        obtain ⟨path', hpath', rfl⟩ := Option.map_eq_some_iff.mp h
        exact Nat.le_succ_of_le (ih hpath')

theorem pathFrom_of_isPrefix (hdelimiter : delimiter ≠ []) {s s' path : List α}
    (h : pathFrom delimiter s = some path) (hs' : path <+: s') :
    pathFrom delimiter s' = some path := by
  induction s generalizing path s' with
  | nil => cases h
  | cons a s ih =>
      have hwhole := pathFrom_isPrefix h
      have hlength := length_le_of_pathFrom h
      rw [pathFrom] at h
      split at h
      next =>
        obtain rfl := Option.some.inj h
        cases s' with
        | nil => exact absurd (List.prefix_nil.mp hs') hdelimiter
        | cons b s' => rw [pathFrom, if_pos hs']
      next hnot =>
        obtain ⟨path', hpath', rfl⟩ := Option.map_eq_some_iff.mp h
        cases s' with
        | nil => exact absurd (List.prefix_nil.mp hs') (List.cons_ne_nil _ _)
        | cons b s' =>
            obtain ⟨rfl, hrest⟩ := List.cons_prefix_cons.mp hs'
            -- a delimiter at the front of `s'` would lie within the path
            have hnot' : ¬ delimiter <+: a :: s' := fun hfirst =>
              hnot ((List.prefix_of_prefix_length_le hfirst hs' hlength).trans hwhole)
            rw [pathFrom, if_neg hnot', ih hpath' hrest, Option.map_some]

end

/-! ### Sorted lists -/

section

variable {ρ : Type} {R : ρ → ρ → Prop}

/-- Ordered lists with the same elements are the same. -/
theorem eq_of_pairwise_of_mem_iff (hirrefl : ∀ a, ¬ R a a) (hasymm : ∀ a b, R a b → ¬ R b a)
    {l l' : List ρ} (h : l.Pairwise R) (h' : l'.Pairwise R) (hmem : ∀ a, a ∈ l ↔ a ∈ l') :
    l = l' := by
  have hne : ∀ a b, R a b → a ≠ b := fun a b hab heq => hirrefl b (heq ▸ hab)
  have hnodup : ∀ {l : List ρ}, l.Pairwise R → l.Nodup := fun hl => hl.imp fun {a b} => hne a b
  have hperm : l.Perm l' := (List.perm_ext_iff_of_nodup (hnodup h) (hnodup h')).mpr hmem
  exact hperm.eq_of_pairwise (fun a b _ _ hab hba => absurd hba (hasymm a b hab)) h h'

/-- Elements that hold of a condition which no later element has after one without it. -/
theorem takeWhile_eq_filter {p : ρ → Bool} {l : List ρ} (h : l.Pairwise fun a b => p b → p a) :
    l.takeWhile p = l.filter p := by
  induction l with
  | nil => rfl
  | cons a l ih =>
      obtain ⟨hfirst, hrest⟩ := List.pairwise_cons.mp h
      by_cases ha : p a
      · rw [List.takeWhile_cons_of_pos ha, List.filter_cons_of_pos ha, ih hrest]
      · rw [List.takeWhile_cons_of_neg ha, List.filter_cons_of_neg ha]
        exact (List.filter_eq_nil_iff.mpr fun b hb hpb => ha (hfirst b hb hpb)).symm

theorem take_filter_eq_take_iff {p : ρ → Bool} {l : List ρ} {n : Nat} :
    (l.filter p).take n = l.take n ↔ ∀ a ∈ l.take n, p a := by
  constructor
  · intro h a ha
    rw [← h] at ha
    exact (List.mem_filter.mp (List.mem_of_mem_take ha)).2
  · intro h
    have hfirst : (l.take n).filter p = l.take n := List.filter_eq_self.mpr h
    have hsplit : l.filter p = l.take n ++ (l.drop n).filter p := by
      conv_lhs => rw [← List.take_append_drop n l, List.filter_append, hfirst]
    by_cases hn : n ≤ l.length
    · rw [hsplit, List.take_left' (List.length_take_of_le hn)]
    · have hall : l.take n = l := List.take_of_length_le (Nat.le_of_not_le hn)
      rw [hall] at hfirst ⊢
      rw [hfirst, hall]

/-- Elements in front that are dropped anyway may be left out. -/
theorem dropWhile_drop {p : ρ → Bool} {l : List ρ} {n : Nat} (h : ∀ a ∈ l.take n, p a) :
    (l.drop n).dropWhile p = l.dropWhile p := by
  induction n generalizing l with
  | zero => rfl
  | succ n ih =>
      cases l with
      | nil => rfl
      | cons a l =>
          rw [List.take_succ_cons] at h
          obtain ⟨ha, hrest⟩ := List.forall_mem_cons.mp h
          rw [List.drop_succ_cons, List.dropWhile_cons_of_pos ha, ih hrest]

end

end ObjectStorage.Library
