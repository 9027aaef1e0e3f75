import Mathlib

/-!
The first members of the groups of an ordered list whose groups stand together.
-/

namespace ObjectStorage.Library

section

variable {α γ : Type} [DecidableEq γ] (group : α → γ)

/-- The members of a list that are kept behind one that has been kept, if there is one: each whose
group is not that of the member kept before it. -/
def groupFirsts : Option α → List α → List α
  | none, l => l.destutter fun a b => group a ≠ group b
  | some a, l => (l.destutter' (fun a b => group a ≠ group b) a).tail

variable {group} {lt : α → α → Prop} {a x : α} {l : List α}

theorem destutter'_eq_cons (a : α) (l : List α) :
    l.destutter' (fun a b => group a ≠ group b) a = a :: groupFirsts group (some a) l := by
  induction l generalizing a with
  | nil => rfl
  | cons b l ih =>
    by_cases h : group a = group b
    · rw [groupFirsts, List.destutter'_cons_neg (h := fun hne => hne h), ih a]
      rfl
    · rw [groupFirsts, List.destutter'_cons_pos (h := h), ih b]
      rfl

theorem groupFirsts_nil (last : Option α) : groupFirsts group last [] = [] := by
  cases last <;> rfl

theorem groupFirsts_cons (last : Option α) (b : α) (l : List α) : groupFirsts group last (b :: l) =
    if ∃ a ∈ last, group a = group b then groupFirsts group last l
    else b :: groupFirsts group (some b) l := by
  cases last with
  | none =>
    rw [if_neg (by simp)]
    exact destutter'_eq_cons b l
  | some a =>
    by_cases h : group a = group b
    · rw [if_pos ⟨a, rfl, h⟩, groupFirsts, List.destutter'_cons_neg (h := fun hne => hne h)]
      rfl
    · rw [if_neg (by simpa using h), groupFirsts, List.destutter'_cons_pos (h := h)]
      exact destutter'_eq_cons b l

theorem groupFirsts_sublist (l : List α) : (groupFirsts group none l).Sublist l :=
  l.destutter_sublist _

theorem mem_destutter'_iff (hasymm : ∀ a b, lt a b → ¬ lt b a) (hsorted : (a :: l).Pairwise lt)
    (hconvex : ∀ b ∈ a :: l, ∀ c ∈ a :: l, ∀ d ∈ a :: l, lt b c → lt c d → group b = group d →
      group b = group c) :
    x ∈ l.destutter' (fun a b => group a ≠ group b) a ↔
      x ∈ a :: l ∧ ∀ y ∈ a :: l, group y = group x → ¬ lt y x := by
  induction l generalizing a with
  | nil =>
    simp only [List.destutter'_nil, List.mem_singleton, forall_eq]
    constructor
    · rintro rfl
      exact ⟨rfl, fun _ h => hasymm x x h h⟩
    · exact fun h => h.1
  | cons b l ih =>
    obtain ⟨ha, hrest⟩ := List.pairwise_cons.mp hsorted
    obtain ⟨hb, hl⟩ := List.pairwise_cons.mp hrest
    by_cases hab : group a = group b
    · -- the second member goes, and the first one still stands for the group
      have hsorted' : (a :: l).Pairwise lt :=
        List.pairwise_cons.mpr ⟨fun y hy => ha y (List.mem_cons_of_mem _ hy), hl⟩
      have hsub : ∀ y ∈ a :: l, y ∈ a :: b :: l := by
        intro y hy
        rcases List.mem_cons.mp hy with rfl | hy
        · exact List.mem_cons_self
        · exact List.mem_cons_of_mem _ (List.mem_cons_of_mem _ hy)
      rw [List.destutter'_cons_neg (h := fun h => h hab), ih hsorted' fun b hb c hc d hd =>
        hconvex b (hsub b hb) c (hsub c hc) d (hsub d hd)]
      constructor
      · rintro ⟨hx, hfirst⟩
        refine ⟨hsub x hx, fun y hy hgroup hlt => ?_⟩
        rcases List.mem_cons.mp hy with rfl | hy
        · exact hfirst y List.mem_cons_self hgroup hlt
        rcases List.mem_cons.mp hy with rfl | hy
        · have hnot := hfirst a List.mem_cons_self (hab.trans hgroup)
          rcases List.mem_cons.mp hx with rfl | hx
          · exact hasymm _ _ hlt (ha y List.mem_cons_self)
          · exact hnot (ha x (List.mem_cons_of_mem _ hx))
        · exact hfirst y (List.mem_cons_of_mem _ hy) hgroup hlt
      · rintro ⟨hx, hfirst⟩
        refine ⟨?_, fun y hy => hfirst y (hsub y hy)⟩
        rcases List.mem_cons.mp hx with rfl | hx
        · exact List.mem_cons_self
        rcases List.mem_cons.mp hx with rfl | hx
        · exact absurd (ha x List.mem_cons_self) (hfirst a List.mem_cons_self hab)
        · exact List.mem_cons_of_mem _ hx
    · have hother : ∀ y ∈ b :: l, group a ≠ group y := by
        intro y hy hgroup
        rcases List.mem_cons.mp hy with rfl | hin
        · exact hab hgroup
        · exact hab (hconvex a List.mem_cons_self b (by simp) y (List.mem_cons_of_mem _ hy)
            (ha b List.mem_cons_self) (hb y hin) hgroup)
      rw [List.destutter'_cons_pos (h := hab), List.mem_cons, ih hrest fun b hb c hc d hd =>
        hconvex b (List.mem_cons_of_mem _ hb) c (List.mem_cons_of_mem _ hc) d
          (List.mem_cons_of_mem _ hd)]
      constructor
      · rintro (rfl | ⟨hx, hfirst⟩)
        · refine ⟨List.mem_cons_self, fun y hy _ hlt => ?_⟩
          rcases List.mem_cons.mp hy with rfl | hy
          · exact hasymm _ _ hlt hlt
          · exact hasymm _ _ hlt (ha y hy)
        · refine ⟨List.mem_cons_of_mem _ hx, fun y hy hgroup => ?_⟩
          rcases List.mem_cons.mp hy with rfl | hy
          · exact absurd hgroup (hother x hx)
          · exact hfirst y hy hgroup
      · rintro ⟨hx, hfirst⟩
        rcases List.mem_cons.mp hx with rfl | hx
        · exact .inl rfl
        · exact .inr ⟨hx, fun y hy => hfirst y (List.mem_cons_of_mem _ hy)⟩

/-- Of an ordered list whose groups stand together, the member kept of a group is its first. -/
theorem mem_groupFirsts (hasymm : ∀ a b, lt a b → ¬ lt b a) (hsorted : l.Pairwise lt)
    (hconvex : ∀ a ∈ l, ∀ b ∈ l, ∀ c ∈ l, lt a b → lt b c → group a = group c →
      group a = group b) :
    x ∈ groupFirsts group none l ↔ x ∈ l ∧ ∀ y ∈ l, group y = group x → ¬ lt y x := by
  cases l with
  | nil => simp [groupFirsts]
  | cons a l => exact mem_destutter'_iff hasymm hsorted hconvex

end

end ObjectStorage.Library
