import Mathlib.Data.List.Infix

/-!
Splitting a list at every occurrence of a separator, from left to right: what the parts are, when
the parts of a joined list are what was joined, and that a prefix has no more parts.
-/

namespace ObjectStorage.Library

variable {α : Type} {sep : List α}

/-! ### Separators -/

/-- No separator starts inside the list, also where one follows. -/
def Free (sep cs : List α) : Prop :=
  ∀ us vs, us ++ vs = cs → vs ≠ [] → ¬ sep <+: vs ++ sep

theorem Free.tail {c : α} {cs : List α} (h : Free sep (c :: cs)) : Free sep cs :=
  fun us vs heq => h (c :: us) vs (by rw [List.cons_append, heq])

theorem free_singleton {c : α} {cs : List α} (h : c ∉ cs) : Free [c] cs := by
  rintro us vs rfl hvs hstarts
  obtain ⟨v, vs, rfl⟩ := List.exists_cons_of_ne_nil hvs
  obtain ⟨rfl, -⟩ := List.cons_prefix_cons.mp hstarts
  simp at h

/-- An element outside the separator cuts its occurrences off. -/
theorem not_infix_append_cons {e : α} (he : e ∉ sep) {us vs : List α} (hus : ¬ sep <:+: us)
    (hvs : ¬ sep <:+: vs) : ¬ sep <:+: us ++ e :: vs := by
  rintro ⟨xs, ys, heq⟩
  rw [List.append_assoc] at heq
  rcases List.append_eq_append_iff.mp heq with ⟨as, rfl, hrest⟩ | ⟨bs, rfl, hrest⟩
  · rcases List.append_eq_append_iff.mp hrest with ⟨as', rfl, -⟩ | ⟨bs, rfl, hbs⟩
    · exact hus ⟨xs, as', by simp⟩
    · cases bs with
      | nil => exact hus ⟨xs, [], by simp⟩
      | cons b bs =>
          obtain rfl := (List.cons.inj hbs).1
          simp at he
  · cases bs with
    | nil =>
        cases sep with
        | nil => exact hus ⟨us, [], by simp⟩
        | cons b bs =>
            obtain rfl := (List.cons.inj hrest).1
            simp at he
    | cons b bs =>
        obtain ⟨-, rfl⟩ := List.cons.inj hrest
        exact hvs ⟨bs, ys, by simp⟩

theorem free_append_singleton {e : α} (he : e ∉ sep) {us : List α} (hus : ¬ sep <:+: us) :
    Free sep (us ++ [e]) := by
  intro xs vs heq hvs hstarts
  obtain ⟨ws, v, rfl⟩ := List.eq_nil_or_concat vs |>.resolve_left hvs
  rw [List.concat_eq_append] at heq hstarts
  rw [← List.append_assoc] at heq
  obtain ⟨rfl, hv⟩ := List.append_inj' heq rfl
  obtain rfl := List.singleton_inj.mp hv
  rw [List.append_assoc] at hstarts
  obtain ⟨ys, hys⟩ := hstarts
  rcases List.append_eq_append_iff.mp hys with ⟨as, rfl, -⟩ | ⟨bs, rfl, hbs⟩
  · exact hus ⟨xs, as, by simp⟩
  · cases bs with
    | nil => exact hus ⟨xs, [], by simp⟩
    | cons b bs =>
        obtain rfl := (List.cons.inj hbs).1
        simp at he

/-- Separators in front of parts are separators behind what precedes them. -/
theorem append_flatMap_sep (cs : List α) (parts : List (List α)) (last : List α) :
    cs ++ (parts ++ [last]).flatMap (sep ++ ·) = (cs :: parts).flatMap (· ++ sep) ++ last := by
  induction parts generalizing cs with
  | nil => simp
  | cons part parts ih =>
      have hrest := ih part
      rw [List.flatMap_cons] at hrest ⊢
      rw [List.cons_append, List.flatMap_cons, List.append_assoc sep, hrest]
      simp

/-! ### Splitting -/

variable [DecidableEq α]

/-- `skip` counts the elements of a separator that are still to be passed over. -/
def splitFrom (sep : List α) : Nat → List α → List (List α)
  | _, [] => [[]]
  | skip + 1, _ :: cs => splitFrom sep skip cs
  | 0, c :: cs =>
      if sep <+: c :: cs then [] :: splitFrom sep (sep.length - 1) cs
      else (splitFrom sep 0 cs).modifyHead (c :: ·)

def split (sep cs : List α) : List (List α) := splitFrom sep 0 cs

theorem split_nil : split sep [] = [[]] := rfl

theorem split_cons_of_not_starts {c : α} {cs : List α} (h : ¬ sep <+: c :: cs) :
    split sep (c :: cs) = (split sep cs).modifyHead (c :: ·) := if_neg h

theorem splitFrom_length_append (ds cs : List α) :
    splitFrom sep ds.length (ds ++ cs) = split sep cs := by
  induction ds with
  | nil => rfl
  | cons d ds ih => exact ih

theorem split_sep_append (hsep : sep ≠ []) (cs : List α) :
    split sep (sep ++ cs) = [] :: split sep cs := by
  obtain ⟨d, ds, rfl⟩ := List.exists_cons_of_ne_nil hsep
  have hstarts : (d :: ds) <+: d :: (ds ++ cs) := List.prefix_append (d :: ds) cs
  exact (if_pos hstarts).trans (congrArg ([] :: ·) (splitFrom_length_append ds cs))

theorem split_append_sep (hsep : sep ≠ []) {cs : List α} (h : Free sep cs) (ds : List α) :
    split sep (cs ++ sep ++ ds) = cs :: split sep ds := by
  induction cs with
  | nil => exact split_sep_append hsep ds
  | cons c cs ih =>
      have hnot : ¬ sep <+: c :: (cs ++ sep ++ ds) := by
        intro hstarts
        refine h [] (c :: cs) rfl (by simp) ?_
        refine List.prefix_of_prefix_length_le hstarts
          (⟨ds, by simp⟩ : c :: cs ++ sep <+: _) ?_
        simp
        omega
      rw [List.cons_append, List.cons_append, split_cons_of_not_starts hnot, ih h.tail]
      rfl

theorem split_of_not_within {cs : List α} (h : ¬ sep <:+: cs) : split sep cs = [cs] := by
  induction cs with
  | nil => rfl
  | cons c cs ih =>
      rw [split_cons_of_not_starts fun hstarts => h hstarts.isInfix,
        ih fun hwithin => h (hwithin.trans (List.suffix_cons c cs).isInfix)]
      rfl

theorem split_flatMap_append (hsep : sep ≠ []) {parts : List (List α)}
    (h : ∀ part ∈ parts, Free sep part) (cs : List α) :
    split sep (parts.flatMap (· ++ sep) ++ cs) = parts ++ split sep cs := by
  induction parts with
  | nil => rfl
  | cons part parts ih =>
      rw [List.flatMap_cons, List.append_assoc, split_append_sep hsep (h part (by simp)),
        ih fun part' hpart' => h part' (List.mem_cons_of_mem _ hpart')]
      rfl

/-! ### What the parts are -/

theorem exists_split_cons (sep cs : List α) : ∃ part parts, split sep cs = part :: parts ∧
    part <+: cs := by
  induction cs with
  | nil => exact ⟨[], [], rfl, List.prefix_rfl⟩
  | cons c cs ih =>
      by_cases h : sep <+: c :: cs
      · exact ⟨[], _, if_pos h, List.nil_prefix⟩
      · obtain ⟨part, parts, heq, hstarts⟩ := ih
        refine ⟨c :: part, parts, ?_, List.cons_prefix_cons.mpr ⟨rfl, hstarts⟩⟩
        rw [split_cons_of_not_starts h, heq]
        rfl

/-- The induction that follows the parts from left to right. -/
theorem split_induction (hsep : sep ≠ []) {motive : List α → Prop} (nil : motive [])
    (skip : ∀ c cs, ¬ sep <+: c :: cs → motive cs → motive (c :: cs))
    (part : ∀ cs, motive cs → motive (sep ++ cs)) (cs : List α) : motive cs := by
  induction hlength : cs.length using Nat.strong_induction_on generalizing cs with
  | _ n ih =>
      cases cs with
      | nil => exact nil
      | cons c cs =>
          by_cases h : sep <+: c :: cs
          · obtain ⟨ds, hds⟩ := h
            have hpos := List.length_pos_of_ne_nil hsep
            rw [← hds] at hlength ⊢
            rw [List.length_append] at hlength
            exact part ds (ih ds.length (by omega) ds rfl)
          · exact skip c cs h (ih cs.length (by simp at hlength; omega) cs rfl)

theorem infix_of_mem_split (hsep : sep ≠ []) {cs part : List α} (h : part ∈ split sep cs) :
    part <:+: cs ∧ ¬ sep <:+: part := by
  induction cs using split_induction hsep generalizing part with
  | nil =>
      obtain rfl := List.mem_singleton.mp h
      exact ⟨List.infix_rfl, fun hwithin => hsep (List.infix_nil.mp hwithin)⟩
  | skip c cs hnot ih =>
      obtain ⟨first, parts, heq, hstarts⟩ := exists_split_cons sep cs
      rw [split_cons_of_not_starts hnot, heq, List.modifyHead_cons] at h
      rw [heq] at ih
      rcases List.mem_cons.mp h with rfl | hin
      · refine ⟨(List.cons_prefix_cons.mpr ⟨rfl, hstarts⟩).isInfix, fun hwithin => ?_⟩
        rcases List.infix_cons_iff.mp hwithin with hstart | hlater
        · exact hnot (hstart.trans (List.cons_prefix_cons.mpr ⟨rfl, hstarts⟩))
        · exact (ih List.mem_cons_self).2 hlater
      · obtain ⟨hwithin, hfree⟩ := ih (List.mem_cons_of_mem _ hin)
        exact ⟨hwithin.trans (List.suffix_cons c cs).isInfix, hfree⟩
  | part cs ih =>
      rw [split_sep_append hsep] at h
      rcases List.mem_cons.mp h with rfl | hin
      · exact ⟨List.nil_infix, fun hwithin => hsep (List.infix_nil.mp hwithin)⟩
      · obtain ⟨hwithin, hfree⟩ := ih hin
        exact ⟨hwithin.trans (List.suffix_append sep cs).isInfix, hfree⟩

theorem split_of_length_lt {cs : List α} (h : cs.length < sep.length) : split sep cs = [cs] :=
  split_of_not_within fun hwithin => absurd hwithin.length_le (by omega)

theorem length_split_le (hsep : sep ≠ []) (cs ds : List α) :
    (split sep cs).length ≤ (split sep (cs ++ ds)).length := by
  induction cs using split_induction hsep with
  | nil =>
      obtain ⟨part, parts, heq, -⟩ := exists_split_cons sep ([] ++ ds)
      rw [heq]
      simp [split_nil]
  | skip c cs hnot ih =>
      rw [split_cons_of_not_starts hnot, List.length_modifyHead]
      by_cases hlong : sep <+: c :: (cs ++ ds)
      · -- the separator reaches beyond the prefix
        have hlt : cs.length < sep.length := by
          by_contra hle
          refine hnot (List.prefix_of_prefix_length_le hlong (List.prefix_append (c :: cs) ds) ?_)
          simp
          omega
        obtain ⟨es, hes⟩ := hlong
        rw [split_of_length_lt hlt, List.cons_append, ← hes, split_sep_append hsep]
        simp
      · rw [List.cons_append, split_cons_of_not_starts hlong, List.length_modifyHead]
        exact ih
  | part cs ih =>
      rw [List.append_assoc, split_sep_append hsep, split_sep_append hsep]
      exact Nat.succ_le_succ ih

/-- The parts of a list that is split at one element are the list without it. -/
theorem flatten_split_singleton (c : α) (cs : List α) :
    (split [c] cs).flatten = cs.filter (· ≠ c) := by
  induction cs with
  | nil => rfl
  | cons d cs ih =>
      by_cases hcd : c = d
      · subst hcd
        have hsplit := split_sep_append (by simp : [c] ≠ []) cs
        rw [List.singleton_append] at hsplit
        simp [hsplit, ih]
      · obtain ⟨part, parts, heq, -⟩ := exists_split_cons [c] cs
        rw [split_cons_of_not_starts (by simp [List.cons_prefix_cons, hcd]), heq]
        rw [heq] at ih
        rw [List.filter_cons_of_pos (by simpa using Ne.symm hcd), ← ih]
        rfl

end ObjectStorage.Library
