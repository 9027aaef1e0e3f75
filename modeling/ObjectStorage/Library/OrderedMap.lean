import Mathlib.Algebra.BigOperators.Group.List.Basic
import Mathlib.Algebra.Ring.Int.Defs
import Std.Data.TreeMap
import Std.Data.TreeMap.Lemmas

/-!
Lookups after the bulk updates that ordered maps go through in iterator loops: erasing a list of
keys, and inserting a list of bindings that keeps what is already there.
-/

namespace ObjectStorage.Library

open Std

section

variable {κ ν : Type} [Ord κ]

/-- Erasing a list of keys one after the other. -/
def eraseKeys (m : TreeMap κ ν) (ks : List κ) : TreeMap κ ν :=
  ks.foldl (fun m k => m.erase k) m

private theorem getElem?_foldl_update_aux [DecidableEq κ] {step : TreeMap κ ν → κ × ν → TreeMap κ ν}
    {f : κ → ν → ν}
    (hstep : ∀ m e, m[e.1]? = some e.2 → ∀ a, (step m e)[a]? =
      if e.1 = a then some (f e.1 e.2) else m[a]?)
    (l : List (κ × ν)) (m : TreeMap κ ν) (hdistinct : l.Pairwise fun e e' => e.1 ≠ e'.1)
    (hmem : ∀ e ∈ l, m[e.1]? = some e.2) (a : κ) :
    (l.foldl step m)[a]? = if a ∈ l.map (·.1) then m[a]?.map (f a) else m[a]? := by
  induction l generalizing m with
  | nil => simp
  | cons e l ih =>
      obtain ⟨hne, hdistinct⟩ := List.pairwise_cons.mp hdistinct
      have he := hstep m e (hmem e List.mem_cons_self)
      have hrest : ∀ e' ∈ l, (step m e)[e'.1]? = some e'.2 := fun e' he' => by
        rw [he, if_neg (hne e' he')]
        exact hmem e' (List.mem_cons_of_mem _ he')
      rw [List.foldl_cons, ih (step m e) hdistinct hrest, he]
      by_cases hea : e.1 = a
      · subst hea
        have hnotin : e.1 ∉ l.map (·.1) := fun hin => by
          obtain ⟨e', he', heq⟩ := List.mem_map.mp hin
          exact hne e' he' heq.symm
        rw [if_neg hnotin, if_pos rfl, hmem e List.mem_cons_self]
        simp
      · have hae : a ≠ e.1 := fun h => hea h.symm
        simp only [List.map_cons, List.mem_cons, hea, hae, if_false, false_or]

end

section

variable {κ ν : Type} [Ord κ] [TransOrd κ] [LawfulEqOrd κ] [DecidableEq κ]

@[simp] theorem getElem?_insert_eq (m : TreeMap κ ν) (k a : κ) (v : ν) :
    (m.insert k v)[a]? = if k = a then some v else m[a]? := by
  simp [TreeMap.getElem?_insert]

@[simp] theorem getElem?_erase_eq (m : TreeMap κ ν) (k a : κ) :
    (m.erase k)[a]? = if k = a then none else m[a]? := by
  simp [TreeMap.getElem?_erase]

@[simp] theorem getElem?_insertIfNew_eq (m : TreeMap κ ν) (k a : κ) (v : ν) :
    (m.insertIfNew k v)[a]? = if k = a then some (m[a]?.getD v) else m[a]? := by
  rw [TreeMap.getElem?_insertIfNew]
  by_cases hka : k = a
  · subst hka
    by_cases hmem : k ∈ m
    · simp [hmem]
    · simp [hmem]
  · simp [hka]

theorem getElem?_insertIfNew_eq_some {m : TreeMap κ ν} {k a : κ} {v w : ν} :
    (m.insertIfNew k v)[a]? = some w ↔ m[a]? = some w ∨ (m[a]? = none ∧ k = a ∧ v = w) := by
  rw [getElem?_insertIfNew_eq]
  by_cases hka : k = a <;> cases hma : m[a]? <;> simp [hka]

@[simp] theorem getElem?_eraseKeys (m : TreeMap κ ν) (ks : List κ) (a : κ) :
    (eraseKeys m ks)[a]? = if a ∈ ks then none else m[a]? := by
  induction ks generalizing m with
  | nil => simp [eraseKeys]
  | cons k ks ih =>
      have hfold : eraseKeys m (k :: ks) = eraseKeys (m.erase k) ks := rfl
      rw [hfold, ih, getElem?_erase_eq]
      by_cases hka : k = a
      · simp [hka]
      · have hak : a ≠ k := fun h => hka h.symm
        simp [hka, hak]

end

section

variable {κ ν : Type} [Ord κ] [TransOrd κ]

theorem mem_iff_exists_getElem? (m : TreeMap κ ν) (a : κ) :
    a ∈ m ↔ ∃ v, m[a]? = some v := by
  rw [TreeMap.mem_iff_isSome_getElem?, Option.isSome_iff_exists]

theorem isEmpty_iff_getElem? (m : TreeMap κ ν) :
    m.isEmpty ↔ ∀ a : κ, m[a]? = none := by
  rw [TreeMap.isEmpty_iff_forall_not_mem]
  constructor
  · intro h a
    exact TreeMap.getElem?_eq_none (h a)
  · intro h a hmem
    obtain ⟨v, hv⟩ := (mem_iff_exists_getElem? m a).mp hmem
    simp [h a] at hv

end

section

variable {κ ν : Type} [Ord κ] [TransOrd κ] [LawfulEqOrd κ] [DecidableEq κ]

omit [DecidableEq κ] in
theorem pairwise_keys_toList (m : TreeMap κ ν) :
    m.toList.Pairwise fun e e' => e.1 ≠ e'.1 :=
  m.distinct_keys_toList.imp fun hne heq => hne (LawfulEqCmp.compare_eq_iff_eq.mpr heq)

/-- Of a loop over all bindings, the part for one key. -/
theorem flatMap_toList_if_eq {β : Type} (m : TreeMap κ ν) (k : κ) (f : κ × ν → List β) :
    (m.toList.flatMap fun e => if e.1 = k then f e else []) =
      (m[k]?.map fun v => f (k, v)).getD [] := by
  have hall : ∀ l : List (κ × ν), (l.Pairwise fun e e' => e.1 ≠ e'.1) →
      (l.flatMap fun e => if e.1 = k then f e else []) =
        ((l.find? fun e => decide (e.1 = k)).map f).getD [] := by
    intro l hl
    induction l with
    | nil => rfl
    | cons e l ih =>
        obtain ⟨hne, hl⟩ := List.pairwise_cons.mp hl
        by_cases he : e.1 = k
        · have hrest : (l.flatMap fun e => if e.1 = k then f e else []) = [] := by
            refine List.flatMap_eq_nil_iff.mpr fun e' he' => if_neg fun hk => ?_
            exact hne e' he' (he.trans hk.symm)
          simp [he, hrest]
        · simp [he, ih hl]
  rw [hall _ (pairwise_keys_toList m)]
  cases hk : m[k]? with
  | none =>
      have hnone : (m.toList.find? fun e => decide (e.1 = k)) = none := by
        refine List.find?_eq_none.mpr fun e he hek => ?_
        have hget := TreeMap.mem_toList_iff_getElem?_eq_some.mp he
        rw [of_decide_eq_true hek, hk] at hget
        contradiction
      simp [hnone]
  | some v =>
      have hin : (k, v) ∈ m.toList := TreeMap.mem_toList_iff_getElem?_eq_some.mpr hk
      obtain ⟨e, he⟩ := Option.isSome_iff_exists.mp
        (List.find?_isSome (p := fun e => decide (e.1 = k)) |>.mpr ⟨(k, v), hin, by simp⟩)
      have hek : e.1 = k := by simpa using List.find?_some he
      have hget := TreeMap.mem_toList_iff_getElem?_eq_some.mp (List.mem_of_find?_eq_some he)
      rw [hek, hk] at hget
      obtain ⟨a, w⟩ := e
      simp only at hek hget
      rw [he, Option.map_some, hek, Option.some.inj hget]
      rfl

/-- A loop over all bindings of a map that replaces the value of each key it visits. -/
theorem getElem?_foldl_update {step : TreeMap κ ν → κ × ν → TreeMap κ ν} {f : κ → ν → ν}
    (hstep : ∀ m e, m[e.1]? = some e.2 → ∀ a, (step m e)[a]? =
      if e.1 = a then some (f e.1 e.2) else m[a]?)
    (m : TreeMap κ ν) (a : κ) : (m.toList.foldl step m)[a]? = m[a]?.map (f a) := by
  rw [getElem?_foldl_update_aux hstep m.toList m (pairwise_keys_toList m)
    (fun e he => TreeMap.mem_toList_iff_getElem?_eq_some.mp he) a]
  by_cases ha : a ∈ m.toList.map (·.1)
  · rw [if_pos ha]
  · cases hma : m[a]? with
    | none => simp
    | some v =>
        exact absurd (List.mem_map_of_mem (TreeMap.mem_toList_iff_getElem?_eq_some.mpr hma)) ha

end

section

variable {κ ν : Type} [Ord κ] [TransOrd κ] [LawfulEqOrd κ] [DecidableEq κ]

/-- The sum of a measure of all values. -/
def sumOf (f : ν → Int) (m : TreeMap κ ν) : Int := (m.toList.map fun e => f e.2).sum

omit [DecidableEq κ] in
theorem nodup_toList (m : TreeMap κ ν) : m.toList.Nodup :=
  (pairwise_keys_toList m).imp fun hne heq => hne (congrArg Prod.fst heq)

private theorem toList_perm_split (m : TreeMap κ ν) (k : κ) :
    m.toList.Perm (m[k]?.toList.map (k, ·) ++ m.toList.filter fun e => e.1 ≠ k) := by
  refine (List.perm_ext_iff_of_nodup (nodup_toList m) ?_).mpr fun e => ?_
  · refine List.nodup_append.mpr ⟨?_, (nodup_toList m).filter _, fun e he e' he' => ?_⟩
    · cases m[k]? <;> simp
    · obtain ⟨v, -, rfl⟩ := List.mem_map.mp he
      rintro rfl
      simpa using (List.mem_filter.mp he').2
  · obtain ⟨a, v⟩ := e
    rw [List.mem_append, List.mem_filter, TreeMap.mem_toList_iff_getElem?_eq_some]
    by_cases hak : a = k
    · subst hak
      simp
    · have hka : k ≠ a := fun h => hak h.symm
      simp [hak, hka]

theorem sumOf_update (f : ν → Int) {m m' : TreeMap κ ν} (k : κ)
    (h : ∀ a, a ≠ k → m'[a]? = m[a]?) :
    sumOf f m' + (m[k]?.map f).getD 0 = sumOf f m + (m'[k]?.map f).getD 0 := by
  have hsplit : ∀ m : TreeMap κ ν, sumOf f m = (m[k]?.map f).getD 0 +
      ((m.toList.filter fun e => e.1 ≠ k).map fun e => f e.2).sum := by
    intro m
    rw [sumOf, ((toList_perm_split m k).map _).sum_eq, List.map_append, List.sum_append]
    cases m[k]? <;> simp
  have hrest : (m'.toList.filter fun e => e.1 ≠ k).Perm
      (m.toList.filter fun e => e.1 ≠ k) := by
    refine (List.perm_ext_iff_of_nodup ((nodup_toList m').filter _)
      ((nodup_toList m).filter _)).mpr fun e => ?_
    obtain ⟨a, v⟩ := e
    simp only [List.mem_filter, TreeMap.mem_toList_iff_getElem?_eq_some, decide_eq_true_eq]
    by_cases hak : a = k
    · simp [hak]
    · simp [h a hak]
  rw [hsplit m, hsplit m', (hrest.map _).sum_eq]
  omega

/-- The sum of a measure of all bindings. -/
def keyedSum (f : κ → ν → Int) (m : TreeMap κ ν) : Int := (m.toList.map fun e => f e.1 e.2).sum

omit [TransOrd κ] [LawfulEqOrd κ] [DecidableEq κ] in
theorem keyedSum_eq (f : κ → ν → Int) (m : TreeMap κ ν) : keyedSum f m = sumOf id (m.map f) := by
  simp [keyedSum, sumOf, TreeMap.toList_map, Function.comp_def]

theorem keyedSum_insert (f : κ → ν → Int) (m : TreeMap κ ν) (k : κ) (v : ν) :
    keyedSum f (m.insert k v) + (m[k]?.map (f k)).getD 0 = keyedSum f m + f k v := by
  have hothers : ∀ a, a ≠ k → ((m.insert k v).map f)[a]? = (m.map f)[a]? := fun a ha => by
    simp [show k ≠ a from fun h => ha h.symm]
  have hupdate := sumOf_update id k hothers
  rw [keyedSum_eq, keyedSum_eq]
  simpa using hupdate

theorem keyedSum_erase (f : κ → ν → Int) (m : TreeMap κ ν) (k : κ) :
    keyedSum f (m.erase k) + (m[k]?.map (f k)).getD 0 = keyedSum f m := by
  have hothers : ∀ a, a ≠ k → ((m.erase k).map f)[a]? = (m.map f)[a]? := fun a ha => by
    simp [show k ≠ a from fun h => ha h.symm]
  have hupdate := sumOf_update id k hothers
  rw [keyedSum_eq, keyedSum_eq]
  simpa using hupdate

omit [DecidableEq κ] in
theorem keyedSum_le {f g : κ → ν → Int} {m : TreeMap κ ν}
    (h : ∀ (k : κ) v, m[k]? = some v → g k v ≤ f k v) : keyedSum g m ≤ keyedSum f m := by
  have hall : ∀ l : List (κ × ν), (∀ e ∈ l, g e.1 e.2 ≤ f e.1 e.2) →
      (l.map fun e => g e.1 e.2).sum ≤ (l.map fun e => f e.1 e.2).sum := by
    intro l hl
    induction l with
    | nil => exact Int.le_refl 0
    | cons e l ih =>
        have hhead := hl e List.mem_cons_self
        have htail := ih fun e' he' => hl e' (List.mem_cons_of_mem _ he')
        simp only [List.map_cons, List.sum_cons]
        omega
  exact hall _ fun e he => h e.1 e.2 (TreeMap.mem_toList_iff_getElem?_eq_some.mp he)

omit [TransOrd κ] [LawfulEqOrd κ] [DecidableEq κ] in
theorem keyedSum_map {ν' : Type} (f : κ → ν' → Int) (m : TreeMap κ ν) (u : κ → ν → ν') :
    keyedSum f (m.map u) = keyedSum (fun k v => f k (u k v)) m := by
  simp [keyedSum, TreeMap.toList_map, Function.comp_def]

omit [TransOrd κ] [LawfulEqOrd κ] [DecidableEq κ] in
theorem keyedSum_nonneg {f : κ → ν → Int} (h : ∀ k v, 0 ≤ f k v) (m : TreeMap κ ν) :
    0 ≤ keyedSum f m := by
  have hall : ∀ l : List (κ × ν), 0 ≤ (l.map fun e => f e.1 e.2).sum := by
    intro l
    induction l with
    | nil => exact Int.le_refl 0
    | cons e l ih =>
        have hhead := h e.1 e.2
        simp only [List.map_cons, List.sum_cons]
        omega
  exact hall m.toList

end

section

variable {κ ν : Type} [Ord κ] [TransOrd κ] [LawfulEqOrd κ]

/-- The order of the bindings of a map. -/
def keyLE (e e' : κ × ν) : Bool := (compare e.1 e'.1).isLE

omit [LawfulEqOrd κ] in
theorem pairwise_keyLE_toList (m : TreeMap κ ν) : m.toList.Pairwise fun e e' => keyLE e e' :=
  m.ordered_keys_toList.imp fun hlt => by
    rw [keyLE, hlt]
    rfl

/-- The bindings of a map are two sorted lists merged if they are the members of these. -/
theorem toList_eq_merge {m : TreeMap κ ν} {l l' : List (κ × ν)}
    (hl : l.Pairwise fun e e' => keyLE e e') (hl' : l'.Pairwise fun e e' => keyLE e e')
    (hnodup : (l ++ l').Nodup) (h : ∀ e, e ∈ m.toList ↔ e ∈ l ++ l') :
    m.toList = l.merge l' keyLE := by
  have hmerge : (l.merge l' keyLE).Perm (l ++ l') := List.merge_perm_append keyLE
  have htrans : ∀ a b c : κ × ν, keyLE a b → keyLE b c → keyLE a c :=
    fun a b c hab hbc => TransCmp.isLE_trans hab hbc
  have htotal : ∀ a b : κ × ν, keyLE a b || keyLE b a := by
    intro a b
    unfold keyLE
    rw [(OrientedCmp.eq_swap : compare b.1 a.1 = (compare a.1 b.1).swap)]
    cases compare a.1 b.1 <;> rfl
  have hperm : m.toList.Perm (l.merge l' keyLE) :=
    ((List.perm_ext_iff_of_nodup (nodup_toList m) hnodup).mpr h).trans hmerge.symm
  refine hperm.eq_of_pairwise (fun a b ha hb hab hba => ?_) (pairwise_keyLE_toList m)
    (List.pairwise_merge htrans htotal l l' hl hl')
  have hcompare : compare a.1 b.1 = .eq := OrientedCmp.isLE_antisymm hab hba
  have hkey : a.1 = b.1 := LawfulEqCmp.eq_of_compare hcompare
  have hfirst := TreeMap.mem_toList_iff_getElem?_eq_some.mp ha
  have hsecond := TreeMap.mem_toList_iff_getElem?_eq_some.mp (hperm.mem_iff.mpr hb)
  rw [← hkey, hfirst] at hsecond
  exact Prod.ext hkey (Option.some.inj hsecond)

end

section

variable {σ β : Type}

/-- A loop in a state with failure whose every step succeeds is the loop without failure. -/
theorem foldlM_eq_some_foldl {f : σ → β → Option σ} {g : σ → β → σ} (l : List β)
    (h : ∀ s, ∀ b ∈ l, f s b = some (g s b)) (s : σ) : l.foldlM f s = some (l.foldl g s) := by
  induction l generalizing s with
  | nil => rfl
  | cons b l ih =>
      rw [List.foldlM_cons, h s b List.mem_cons_self]
      exact ih (fun s b' hb' => h s b' (List.mem_cons_of_mem _ hb')) (g s b)

end

end ObjectStorage.Library
