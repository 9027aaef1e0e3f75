import Mathlib.Algebra.Order.BigOperators.Group.List
import Mathlib.Data.List.Induction
import Mathlib.Data.List.Sort
import ObjectStorage.InfoFile.Sorter
import ObjectStorage.Library.Utf8Order

/-!
What `InfoFileSorter` returns. From iterators in order it returns the records in order, and the
first record of a name that it returns is that of the last iterator that has one.
-/

namespace ObjectStorage.InfoFile

open Std Library Journal

variable {ρ : Type} {name : ρ → String}

/-- The records stand in the order of the first bytes of their names. -/
def KeySorted (name : ρ → String) (records : List ρ) : Prop :=
  records.Pairwise fun r r' => sortKey (name r) ≤ sortKey (name r')

/-- No two of the names have the same first bytes. -/
def StrictlySorted (name : ρ → String) (records : List ρ) : Prop :=
  records.Pairwise fun r r' => sortKey (name r) < sortKey (name r')

theorem StrictlySorted.keySorted {records : List ρ} (h : StrictlySorted name records) :
    KeySorted name records := h.imp List.le_of_lt

theorem keySorted_map {σ : Type} {f : σ → ρ} {records : List σ} :
    KeySorted name (records.map f) ↔ KeySorted (fun r => name (f r)) records := List.pairwise_map

namespace InfoFileSorter

/-- The record with the key that the last iterator has. -/
def latest (name : ρ → String) (key : Bytes) (iterators : List (List ρ)) : Option ρ :=
  iterators.foldl (fun best iterator =>
    (iterator.find? fun r => sortKey (name r) = key).or best) none

variable {iterators : List (List ρ)} {r : ρ}

theorem latest_append (key : Bytes) (iterators : List (List ρ)) (iterator : List ρ) :
    latest name key (iterators ++ [iterator]) =
      (iterator.find? fun r => sortKey (name r) = key).or (latest name key iterators) := by
  simp [latest]

theorem choose_append (iterators : List (List ρ)) (iterator : List ρ) :
    choose name (iterators ++ [iterator]) =
      match choose name iterators, iterator.head? with
      | best, none => best
      | none, some record => some record
      | some target, some record =>
          if sortKey (name target) < sortKey (name record) then some target else some record :=
  List.foldl_append

theorem choose_eq_none : choose name iterators = none ↔ ∀ it ∈ iterators, it = [] := by
  induction iterators using List.reverseRecOn with
  | nil => simp [choose]
  | append_singleton iterators iterator ih =>
      rw [choose_append]
      cases iterator with
      | nil =>
          rw [List.head?_nil, ih]
          simp only [List.mem_append, List.mem_singleton]
          exact ⟨fun h it hit => hit.elim (h it) id, fun h it hit => h it (.inl hit)⟩
      | cons record rest =>
          cases choose name iterators with
          | none => simp
          | some target =>
              simp only [List.head?_cons]
              split <;> simp

/-- The chosen record is at the front of an iterator, and none there comes before it. -/
theorem choose_spec (h : choose name iterators = some r) :
    (∃ it ∈ iterators, it.head? = some r) ∧
      ∀ it ∈ iterators, ∀ r' ∈ it.head?, sortKey (name r) ≤ sortKey (name r') := by
  induction iterators using List.reverseRecOn generalizing r with
  | nil => cases h
  | append_singleton iterators iterator ih =>
      rw [choose_append] at h
      cases iterator with
      | nil =>
          obtain ⟨⟨it, hit, hhead⟩, hleast⟩ := ih h
          refine ⟨⟨it, List.mem_append_left _ hit, hhead⟩, fun it' hit' r' hr' => ?_⟩
          rcases List.mem_append.mp hit' with hold | hnew
          · exact hleast it' hold r' hr'
          · rw [List.mem_singleton.mp hnew] at hr'
            cases hr'
      | cons record rest =>
          have hlast : record :: rest ∈ iterators ++ [record :: rest] := by simp
          cases hbest : choose name iterators with
          | none =>
              rw [hbest] at h
              obtain rfl := Option.some.inj h
              refine ⟨⟨_, hlast, rfl⟩, fun it' hit' r' hr' => ?_⟩
              rcases List.mem_append.mp hit' with hold | hnew
              · rw [choose_eq_none.mp hbest it' hold] at hr'
                cases hr'
              · rw [List.mem_singleton.mp hnew] at hr'
                obtain rfl := Option.some.inj hr'
                exact List.le_refl _
          | some target =>
              rw [hbest] at h
              obtain ⟨⟨it, hit, hhead⟩, hleast⟩ := ih hbest
              simp only [List.head?_cons] at h
              split at h
              next hlt =>
                obtain rfl := Option.some.inj h
                refine ⟨⟨it, List.mem_append_left _ hit, hhead⟩, fun it' hit' r' hr' => ?_⟩
                rcases List.mem_append.mp hit' with hold | hnew
                · exact hleast it' hold r' hr'
                · rw [List.mem_singleton.mp hnew] at hr'
                  obtain rfl := Option.some.inj hr'
                  exact List.le_of_lt hlt
              next hnot =>
                obtain rfl := Option.some.inj h
                refine ⟨⟨_, hlast, rfl⟩, fun it' hit' r' hr' => ?_⟩
                rcases List.mem_append.mp hit' with hold | hnew
                · exact List.le_trans (List.not_lt.mp hnot) (hleast it' hold r' hr')
                · rw [List.mem_singleton.mp hnew] at hr'
                  obtain rfl := Option.some.inj hr'
                  exact List.le_refl _

/-- The chosen record comes before all records that are still to be returned. -/
theorem choose_le (hsorted : ∀ it ∈ iterators, KeySorted name it)
    (h : choose name iterators = some r) {it : List ρ} (hit : it ∈ iterators) {r' : ρ}
    (hr' : r' ∈ it) : sortKey (name r) ≤ sortKey (name r') := by
  have hleast := (choose_spec h).2 it hit
  have hit' := hsorted it hit
  cases it with
  | nil => cases hr'
  | cons record rest =>
      have hhead : sortKey (name r) ≤ sortKey (name record) := hleast record rfl
      rcases List.mem_cons.mp hr' with rfl | hrest
      · exact hhead
      · exact List.le_trans hhead (List.rel_of_pairwise_cons hit' hrest)

/-- Of the records with the least key that of the last iterator is chosen. -/
theorem latest_choose (hsorted : ∀ it ∈ iterators, KeySorted name it)
    (h : choose name iterators = some r) : latest name (sortKey (name r)) iterators = some r := by
  induction iterators using List.reverseRecOn generalizing r with
  | nil => cases h
  | append_singleton iterators iterator ih =>
      have hbefore : ∀ it ∈ iterators, KeySorted name it := fun it hit =>
        hsorted it (List.mem_append_left _ hit)
      have hnew : KeySorted name iterator := hsorted iterator (by simp)
      rw [choose_append] at h
      rw [latest_append]
      cases iterator with
      | nil => simpa using ih hbefore h
      | cons record rest =>
          cases hbest : choose name iterators with
          | none =>
              rw [hbest] at h
              obtain rfl := Option.some.inj h
              simp
          | some target =>
              rw [hbest] at h
              simp only [List.head?_cons] at h
              split at h
              next hlt =>
                obtain rfl := Option.some.inj h
                have hnone : (record :: rest).find?
                    (fun r => sortKey (name r) = sortKey (name target)) = none := by
                  refine List.find?_eq_none.mpr fun r' hr' => ?_
                  have hle : sortKey (name record) ≤ sortKey (name r') := by
                    rcases List.mem_cons.mp hr' with rfl | hrest
                    · exact List.le_refl _
                    · exact List.rel_of_pairwise_cons hnew hrest
                  intro heq
                  rw [of_decide_eq_true heq] at hle
                  exact hle hlt
                rw [hnone, Option.none_or]
                exact ih hbefore hbest
              next =>
                obtain rfl := Option.some.inj h
                simp

/-! ### Going on -/

theorem mem_advance {target : ρ} {it' : List ρ} (h : it' ∈ advance name target iterators) :
    ∃ it ∈ iterators, it' = it ∨ ∃ record, it = record :: it' ∧
      sortKey (name target) = sortKey (name record) := by
  obtain ⟨it, hit, rfl⟩ := List.mem_map.mp h
  refine ⟨it, hit, ?_⟩
  cases it with
  | nil => exact .inl rfl
  | cons record rest =>
      by_cases hkey : sortKey (name target) = sortKey (name record)
      · exact .inr ⟨record, by simp [hkey], hkey⟩
      · exact .inl (if_neg hkey)

theorem pairwise_advance {R : ρ → ρ → Prop} (hsorted : ∀ it ∈ iterators, it.Pairwise R)
    (target : ρ) : ∀ it ∈ advance name target iterators, it.Pairwise R := by
  intro it' hit'
  obtain ⟨it, hit, rfl | ⟨record, rfl, -⟩⟩ := mem_advance hit'
  · exact hsorted _ hit
  · exact (hsorted _ hit).of_cons

theorem mem_of_mem_advance {target : ρ} {it' : List ρ} (h : it' ∈ advance name target iterators)
    {r' : ρ} (hr' : r' ∈ it') : ∃ it ∈ iterators, r' ∈ it := by
  obtain ⟨it, hit, rfl | ⟨record, rfl, -⟩⟩ := mem_advance h
  · exact ⟨_, hit, hr'⟩
  · exact ⟨_, hit, List.mem_cons_of_mem _ hr'⟩

theorem total_advance_le (name : ρ → String) (target : ρ) (iterators : List (List ρ)) :
    total (advance name target iterators) ≤ total iterators := by
  induction iterators with
  | nil => exact Nat.le_refl _
  | cons iterator iterators ih =>
      simp only [total, advance, List.map_cons, List.sum_cons] at ih ⊢
      refine Nat.add_le_add ?_ ih
      cases iterator with
      | nil => exact Nat.le_refl _
      | cons record rest =>
          simp only
          split
          · exact Nat.le_succ _
          · exact Nat.le_refl _

theorem total_advance_lt (name : ρ → String) {target : ρ}
    (h : ∃ it ∈ iterators, it.head? = some target) :
    total (advance name target iterators) < total iterators := by
  obtain ⟨it, hit, hhead⟩ := h
  obtain ⟨before, after, rfl⟩ := List.append_of_mem hit
  obtain ⟨rest, rfl⟩ := List.head?_eq_some_iff.mp hhead
  have hbefore := total_advance_le name target before
  have hafter := total_advance_le name target after
  simp only [total, advance, List.map_append, List.map_cons, List.sum_append, List.sum_cons,
    if_true, List.length_cons] at hbefore hafter ⊢
  omega

theorem latest_advance {target : ρ} {key : Bytes} (hkey : sortKey (name target) ≠ key)
    (iterators : List (List ρ)) :
    latest name key (advance name target iterators) = latest name key iterators := by
  induction iterators using List.reverseRecOn with
  | nil => rfl
  | append_singleton iterators iterator ih =>
      have hsplit : advance name target (iterators ++ [iterator]) =
          advance name target iterators ++ advance name target [iterator] := List.map_append
      have hfind : ∀ it', advance name target [iterator] = [it'] →
          (it'.find? fun r => sortKey (name r) = key) =
            iterator.find? fun r => sortKey (name r) = key := by
        intro it' hit'
        obtain ⟨it, hit, rfl | ⟨record, rfl, heq⟩⟩ :=
          mem_advance (hit'.symm ▸ List.mem_singleton_self it')
        · rw [List.mem_singleton.mp hit]
        · rw [← List.mem_singleton.mp hit, List.find?_cons_of_neg]
          simpa using heq ▸ hkey
      obtain ⟨it', hit'⟩ : ∃ it', advance name target [iterator] = [it'] := ⟨_, rfl⟩
      rw [hsplit, hit', latest_append, latest_append, ih, hfind it' hit']

/-! ### What is returned -/

theorem mem_of_mem_sorted {fuel : Nat} {r' : ρ} (h : r' ∈ sorted name fuel iterators) :
    ∃ it ∈ iterators, r' ∈ it := by
  induction fuel generalizing iterators with
  | zero => cases h
  | succ fuel ih =>
      rw [sorted] at h
      split at h
      next => cases h
      next record hchoose =>
        rcases List.mem_cons.mp h with rfl | hrest
        · obtain ⟨it, hit, hhead⟩ := (choose_spec hchoose).1
          exact ⟨it, hit, List.mem_of_mem_head? hhead⟩
        · obtain ⟨it', hit', hr'⟩ := ih hrest
          exact mem_of_mem_advance hit' hr'

theorem keySorted_sorted (hsorted : ∀ it ∈ iterators, KeySorted name it) (fuel : Nat) :
    KeySorted name (sorted name fuel iterators) := by
  induction fuel generalizing iterators with
  | zero => exact .nil
  | succ fuel ih =>
      rw [sorted]
      split
      next => exact .nil
      next record hchoose =>
        refine .cons (fun r' hr' => ?_) (ih (pairwise_advance hsorted record))
        obtain ⟨it', hit', hin⟩ := mem_of_mem_sorted hr'
        obtain ⟨it, hit, hin⟩ := mem_of_mem_advance hit' hin
        exact choose_le hsorted hchoose hit hin

/-- The records that are left when a record is returned have other keys. -/
theorem lt_of_mem_advance (hsorted : ∀ it ∈ iterators, StrictlySorted name it)
    (hchoose : choose name iterators = some r) {it' : List ρ}
    (hit' : it' ∈ advance name r iterators) {r' : ρ} (hr' : r' ∈ it') :
    sortKey (name r) < sortKey (name r') := by
  have hweak : ∀ it ∈ iterators, KeySorted name it := fun it hit => (hsorted it hit).keySorted
  obtain ⟨it, hit, rfl⟩ := List.mem_map.mp hit'
  have hit'' := hsorted it hit
  cases it with
  | nil => cases hr'
  | cons record rest =>
      have hhead : sortKey (name r) ≤ sortKey (name record) :=
        choose_le hweak hchoose hit List.mem_cons_self
      simp only at hr'
      split at hr'
      next heq =>
        rw [heq]
        exact List.rel_of_pairwise_cons hit'' hr'
      next hne =>
        have hlt : sortKey (name r) < sortKey (name record) := by
          by_contra hnot
          exact hne (List.le_antisymm hhead (List.not_lt.mp hnot))
        rcases List.mem_cons.mp hr' with rfl | hrest
        · exact hlt
        · exact List.lt_trans hlt (List.rel_of_pairwise_cons hit'' hrest)

theorem strictlySorted_sorted (hsorted : ∀ it ∈ iterators, StrictlySorted name it) (fuel : Nat) :
    StrictlySorted name (sorted name fuel iterators) := by
  induction fuel generalizing iterators with
  | zero => exact .nil
  | succ fuel ih =>
      rw [sorted]
      split
      next => exact .nil
      next record hchoose =>
        refine .cons (fun r' hr' => ?_) (ih (pairwise_advance hsorted record))
        obtain ⟨it', hit', hin⟩ := mem_of_mem_sorted hr'
        exact lt_of_mem_advance hsorted hchoose hit' hin

/-- The first record of a key that is returned is that of the last iterator. -/
theorem find_sorted (hsorted : ∀ it ∈ iterators, KeySorted name it) {fuel : Nat}
    (hfuel : total iterators ≤ fuel) (key : Bytes) :
    ((sorted name fuel iterators).find? fun r => sortKey (name r) = key) =
      latest name key iterators := by
  have hempty : ∀ its : List (List ρ), (∀ it ∈ its, it = []) → latest name key its = none := by
    intro its hits
    induction its using List.reverseRecOn with
    | nil => rfl
    | append_singleton its it ih =>
        rw [latest_append, hits it (by simp), ih fun it' h' => hits it' (List.mem_append_left _ h')]
        rfl
  induction fuel generalizing iterators with
  | zero =>
      refine (hempty iterators fun it hit => List.eq_nil_of_length_eq_zero ?_).symm
      have hle : it.length ≤ total iterators :=
        List.le_sum_of_mem (List.mem_map.mpr ⟨it, hit, rfl⟩)
      omega
  | succ fuel ih =>
      rw [sorted]
      split
      next hchoose => exact (hempty iterators (choose_eq_none.mp hchoose)).symm
      next record hchoose =>
        by_cases hkey : sortKey (name record) = key
        · rw [List.find?_cons_of_pos (by simpa using hkey), ← hkey, latest_choose hsorted hchoose]
        · rw [List.find?_cons_of_neg (by simpa using hkey), ← latest_advance hkey iterators]
          refine ih (pairwise_advance hsorted record) ?_
          have hlt := total_advance_lt name (choose_spec hchoose).1
          omega

/-! ### Records with the same names -/

section

variable {σ : Type} {f : σ → ρ} {name' : σ → String}

theorem choose_map (hname : ∀ r, name (f r) = name' r) (iterators : List (List σ)) :
    choose name (iterators.map (List.map f)) = (choose name' iterators).map f := by
  induction iterators using List.reverseRecOn with
  | nil => rfl
  | append_singleton iterators iterator ih =>
    rw [List.map_append, List.map_singleton, choose_append, choose_append, ih]
    cases choose name' iterators with
    | none => cases iterator <;> rfl
    | some target =>
      cases iterator with
      | nil => rfl
      | cons record rest =>
        simp only [Option.map_some, List.map_cons, List.head?_cons, hname]
        split <;> rfl

theorem advance_map (hname : ∀ r, name (f r) = name' r) (target : σ)
    (iterators : List (List σ)) : advance name (f target) (iterators.map (List.map f)) =
      (advance name' target iterators).map (List.map f) := by
  unfold advance
  rw [List.map_map, List.map_map]
  apply List.map_congr_left
  intro iterator _
  cases iterator with
  | nil => rfl
  | cons record rest =>
    simp only [Function.comp_apply, List.map_cons, hname]
    split <;> rfl

theorem sorted_map (hname : ∀ r, name (f r) = name' r) (fuel : Nat)
    (iterators : List (List σ)) : sorted name fuel (iterators.map (List.map f)) =
      (sorted name' fuel iterators).map f := by
  induction fuel generalizing iterators with
  | zero => rfl
  | succ fuel ih =>
    rw [sorted, sorted, choose_map hname]
    cases choose name' iterators with
    | none => rfl
    | some record =>
      rw [Option.map_some, List.map_cons]
      dsimp only
      rw [advance_map hname, ih]

theorem records_map (hname : ∀ r, name (f r) = name' r) (iterators : List (List σ)) :
    records name (iterators.map (List.map f)) = (records name' iterators).map f := by
  have htotal : total (iterators.map (List.map f)) = total iterators := by
    unfold total
    rw [List.map_map]
    exact congrArg List.sum (List.map_congr_left fun it _ => List.length_map f)
  rw [records, records, htotal, sorted_map hname]

end

end InfoFileSorter

/-! ### Unsorted records -/

theorem getElem?_foldl_insert (name : ρ → String) (records : List ρ) (map : TreeMap String ρ)
    (k : String) : (records.foldl (fun map record => map.insert (name record) record) map)[k]? =
      (records.reverse.find? fun r => name r = k).or map[k]? := by
  induction records generalizing map with
  | nil => rfl
  | cons record records ih =>
      rw [List.foldl_cons, ih, List.reverse_cons, List.find?_append, TreeMap.getElem?_insert,
        Option.or_assoc]
      congr 1
      by_cases hk : name record = k
      · simp [hk]
      · simp [hk]

theorem mem_sortedMap {records : List ρ} {r : ρ} :
    r ∈ sortedMap name records ↔
      records.reverse.find? (fun r' => name r' = name r) = some r := by
  have hget := getElem?_foldl_insert name records ∅
  unfold sortedMap
  constructor
  · intro h
    obtain ⟨⟨k, r'⟩, hin, rfl⟩ := List.mem_map.mp h
    have hk := TreeMap.mem_toList_iff_getElem?_eq_some.mp hin
    rw [hget] at hk
    have hk : (records.reverse.find? fun r => name r = k) = some r' := by simpa using hk
    have hname : name r' = k := by simpa using List.find?_some hk
    rw [hname]
    exact hk
  · intro h
    refine List.mem_map.mpr ⟨(name r, r), TreeMap.mem_toList_iff_getElem?_eq_some.mpr ?_, rfl⟩
    rw [hget, h]
    rfl

theorem pairwise_sortedMap (name : ρ → String) (records : List ρ) :
    (sortedMap name records).Pairwise fun r r' => name r < name r' := by
  have hget := getElem?_foldl_insert name records ∅
  unfold sortedMap
  rw [List.pairwise_map]
  refine TreeMap.ordered_keys_toList.imp_of_mem fun {a b} ha hb hlt => ?_
  have hname : ∀ e ∈ (records.foldl (fun map record => map.insert (name record) record)
      (∅ : TreeMap String ρ)).toList, name e.2 = e.1 := by
    intro e he
    have hk := TreeMap.mem_toList_iff_getElem?_eq_some.mp he
    rw [hget] at hk
    have hk : (records.reverse.find? fun r => name r = e.1) = some e.2 := by simpa using hk
    simpa using List.find?_some hk
  rw [hname a ha, hname b hb]
  exact compareOfLessAndEq_eq_lt.mp hlt

theorem sortedMap_map {σ : Type} {f : σ → ρ} {name' : σ → String}
    (hname : ∀ r, name (f r) = name' r) (records : List σ) :
    sortedMap name (records.map f) = (sortedMap name' records).map f := by
  have hmap : ((sortedMap name' records).map f).Pairwise fun r r' => name r < name r' := by
    apply List.pairwise_map.mpr
    simpa only [hname] using pairwise_sortedMap name' records
  let _ : Std.Irrefl fun r r' : ρ => name r < name r' := ⟨fun r => String.lt_irrefl (name r)⟩
  let _ : Std.Antisymm fun r r' : ρ => name r < name r' :=
    ⟨fun r r' h h' => absurd h' (String.lt_asymm h)⟩
  refine (pairwise_sortedMap name (records.map f)).eq_of_mem_iff hmap fun r => ?_
  have hfind : ∀ n : String, ((records.map f).reverse.find? fun r' => name r' = n) =
      (records.reverse.find? fun r' => name' r' = n).map f := by
    intro n
    rw [← List.map_reverse, List.find?_map]
    simp only [Function.comp_def, hname]
  rw [mem_sortedMap, hfind]
  constructor
  · intro h
    obtain ⟨r', hr', rfl⟩ := Option.map_eq_some_iff.mp h
    apply List.mem_map_of_mem
    rw [mem_sortedMap, ← hname r']
    exact hr'
  · intro h
    obtain ⟨r', hr', rfl⟩ := List.mem_map.mp h
    rw [hname, mem_sortedMap.mp hr']
    rfl

theorem keySorted_sortedMap (name : ρ → String) (records : List ρ) :
    KeySorted name (sortedMap name records) :=
  (pairwise_sortedMap name records).imp fun hlt => take_le_take (List.le_of_lt (utf8_lt hlt)) 256

end ObjectStorage.InfoFile
