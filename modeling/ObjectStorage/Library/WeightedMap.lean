import Mathlib

/-!
The total weight of the entries of a finite map, and how it moves when an entry is put in, taken
out or given another value.
-/

namespace ObjectStorage.Library

section

variable {κ ν : Type} [DecidableEq κ]

/-- Finite maps, with one value for each key. -/
abbrev FiniteMap (κ ν : Type) : Type := AList fun _ : κ => ν

namespace FiniteMap

def weight (w : κ → ν → Nat) (m : FiniteMap κ ν) : Nat := (m.entries.map fun e => w e.1 e.2).sum

/-- The weight of one key, which is nothing where the map does not have it. -/
def weightAt (w : κ → ν → Nat) (m : FiniteMap κ ν) (k : κ) : Nat := (m.lookup k).elim 0 (w k)

variable {w w' : κ → ν → Nat} {m : FiniteMap κ ν} {k k' : κ} {v : ν}

theorem weightAt_of_lookup (h : m.lookup k = some v) : weightAt w m k = w k v := by
  rw [weightAt, h]
  rfl

theorem weightAt_of_none (h : m.lookup k = none) : weightAt w m k = 0 := by
  rw [weightAt, h]
  rfl

omit [DecidableEq κ] in
@[simp] theorem weight_empty : weight w (∅ : FiniteMap κ ν) = 0 := rfl

theorem weight_erase (w : κ → ν → Nat) (m : FiniteMap κ ν) (k : κ) :
    weight w (m.erase k) + weightAt w m k = weight w m := by
  by_cases hk : k ∈ m
  · obtain ⟨v, l₁, l₂, hnot, hentries, herase⟩ := List.exists_of_kerase (AList.mem_keys.mp hk)
    have hlookup : m.lookup k = some v :=
      (AList.mem_lookup_iff).mpr (by rw [hentries]; simp)
    have hrest : (m.erase k).entries = l₁ ++ l₂ := herase
    rw [weightAt_of_lookup hlookup, weight, weight, hrest, hentries]
    simp only [List.map_append, List.map_cons, List.sum_append, List.sum_cons]
    omega
  · have hrest : (m.erase k).entries = m.entries := List.kerase_of_notMem_keys hk
    rw [weightAt_of_none (AList.lookup_eq_none.mpr hk), weight, weight, hrest, Nat.add_zero]

theorem weight_insert (w : κ → ν → Nat) (m : FiniteMap κ ν) (k : κ) (v : ν) :
    weight w (m.insert k v) + weightAt w m k = weight w m + w k v := by
  have hentries : (m.insert k v).entries = ⟨k, v⟩ :: (m.erase k).entries := AList.entries_insert
  have herase := weight_erase w m k
  have hcons : weight w (m.insert k v) = w k v + weight w (m.erase k) := by
    rw [weight, hentries, List.map_cons, List.sum_cons, weight]
  omega

theorem lookup_of_mem_entries {e : Sigma fun _ : κ => ν} (h : e ∈ m.entries) :
    m.lookup e.1 = some e.2 :=
  AList.mem_lookup_iff.mpr h

theorem weight_congr (h : ∀ k v, m.lookup k = some v → w k v = w' k v) :
    weight w m = weight w' m := by
  rw [weight, weight]
  congr 1
  exact List.map_congr_left fun e he => h e.1 e.2 (lookup_of_mem_entries he)

/-- Weights that agree on all entries but that of `k` differ by what they differ there. -/
theorem weight_congr_except (w w' : κ → ν → Nat) (hk : m.lookup k = some v)
    (h : ∀ k' v', k' ≠ k → m.lookup k' = some v' → w k' v' = w' k' v') :
    weight w m + w' k v = weight w' m + w k v := by
  have herase : weight w (m.erase k) = weight w' (m.erase k) := by
    refine weight_congr fun k' v' hlookup => ?_
    have hne : k' ≠ k := by
      rintro rfl
      rw [AList.lookup_erase] at hlookup
      cases hlookup
    exact h k' v' hne (by rwa [AList.lookup_erase_ne hne] at hlookup)
  have hw := weight_erase w m k
  have hw' := weight_erase w' m k
  rw [weightAt_of_lookup hk] at hw hw'
  omega

theorem sum_weightAt_of_perm {ks : List κ} (h : ks.Perm m.keys) :
    (ks.map (weightAt w m)).sum = weight w m := by
  have hkeys : m.keys = m.entries.map Sigma.fst := rfl
  rw [(h.map _).sum_eq, weight, hkeys, List.map_map]
  congr 1
  exact List.map_congr_left fun e he => weightAt_of_lookup (lookup_of_mem_entries he)

@[simp] theorem weightAt_insert_self : weightAt w (m.insert k v) k = w k v :=
  weightAt_of_lookup (AList.lookup_insert m)

theorem weightAt_insert_ne (h : k' ≠ k) : weightAt w (m.insert k v) k' = weightAt w m k' := by
  rw [weightAt, AList.lookup_insert_ne h, weightAt]

omit [DecidableEq κ] in
theorem sum_map_add_one {f g : κ → Nat} {ks : List κ} (hnodup : ks.Nodup) (hmem : k ∈ ks)
    (hself : g k = f k + 1) (hother : ∀ k', k' ≠ k → g k' = f k') :
    (ks.map g).sum = (ks.map f).sum + 1 := by
  induction ks with
  | nil => cases hmem
  | cons a ks ih =>
      obtain ⟨hnot, hnodup⟩ := List.nodup_cons.mp hnodup
      rw [List.map_cons, List.map_cons, List.sum_cons, List.sum_cons]
      rcases List.mem_cons.mp hmem with rfl | hin
      · have hrest : ks.map g = ks.map f := by
          refine List.map_congr_left fun b hb => hother b ?_
          rintro rfl
          exact hnot hb
        rw [hself, hrest]
        omega
      · have hne : a ≠ k := by
          rintro rfl
          exact hnot hin
        rw [hother a hne, ih hnodup hin]
        omega

end FiniteMap

end

end ObjectStorage.Library
