import Mathlib.Data.List.Nodup
import Mathlib.Logic.Function.Basic

/-!
A directory of regular files: names bound to inodes, in the order of their creation, and the
contents of every inode, which an open file still reaches after its name has changed.
-/

namespace ObjectStorage.Library

structure Directory (ν κ : Type) where
  entries : List (ν × Nat)
  contents : Nat → κ
  nextInode : Nat
  names_nodup : (entries.map (·.1)).Nodup
  inodes_nodup : (entries.map (·.2)).Nodup
  inodes_lt : ∀ e ∈ entries, e.2 < nextInode

namespace Directory

variable {ν κ : Type} [DecidableEq ν]

def empty (contents : Nat → κ) : Directory ν κ := ⟨[], contents, 0, by simp, by simp, by simp⟩

def names (d : Directory ν κ) : List ν := d.entries.map (·.1)

/-- The inode that opening a name gives. -/
def lookup (d : Directory ν κ) (n : ν) : Option Nat :=
  (d.entries.find? fun e => e.1 = n).map (·.2)

variable {d d' : Directory ν κ} {n n' : ν} {i j : Nat}

theorem lookup_eq_some : d.lookup n = some i ↔ (n, i) ∈ d.entries := by
  constructor
  · intro h
    obtain ⟨e, he, rfl⟩ := Option.map_eq_some_iff.mp h
    have hn : e.1 = n := by simpa using List.find?_some he
    exact hn ▸ List.mem_of_find?_eq_some he
  · intro h
    cases hf : d.entries.find? fun e => e.1 = n with
    | none => simpa using List.find?_eq_none.mp hf _ h
    | some e =>
        have hn : e.1 = n := by simpa using List.find?_some hf
        have heq := List.inj_on_of_nodup_map d.names_nodup (List.mem_of_find?_eq_some hf) h hn
        rw [lookup, hf, heq]
        rfl

theorem lookup_eq_none : d.lookup n = none ↔ n ∉ d.names := by
  rw [lookup, Option.map_eq_none_iff, List.find?_eq_none, names, List.mem_map]
  constructor
  · rintro h ⟨e, he, hn⟩
    exact h e he (by simpa using hn)
  · intro h e he hn
    exact h ⟨e, he, by simpa using hn⟩

theorem ext_lookup_mem : n ∈ d.names ↔ ∃ i, d.lookup n = some i := by
  have hnone : d.lookup n = none ↔ n ∉ d.names := lookup_eq_none
  cases h : d.lookup n with
  | none => simpa using hnone.mp h
  | some i =>
      have hmem : n ∈ d.names := Classical.byContradiction fun hn => by
        rw [hnone.mpr hn] at h
        cases h
      simpa using hmem

/-- Overwrites the contents of an open file. -/
def put (d : Directory ν κ) (i : Nat) (c : κ) : Directory ν κ :=
  { d with contents := Function.update d.contents i c }

omit [DecidableEq ν] in
@[simp] theorem entries_put (d : Directory ν κ) (i : Nat) (c : κ) :
    (d.put i c).entries = d.entries := rfl

@[simp] theorem lookup_put (d : Directory ν κ) (i : Nat) (c : κ) (n : ν) :
    (d.put i c).lookup n = d.lookup n := rfl

omit [DecidableEq ν] in
@[simp] theorem contents_put (d : Directory ν κ) (i : Nat) (c : κ) :
    (d.put i c).contents = Function.update d.contents i c := rfl

/-- Creates a file that must not exist yet: `O_CREAT | O_EXCL`. -/
def create (d : Directory ν κ) (n : ν) (c : κ) : Option (Directory ν κ) :=
  if h : n ∈ d.names then none
  else some
    { entries := d.entries ++ [(n, d.nextInode)]
      contents := Function.update d.contents d.nextInode c
      nextInode := d.nextInode + 1
      names_nodup := by
        rw [List.map_append, List.nodup_append]
        refine ⟨d.names_nodup, by simp, fun a ha b hb => ?_⟩
        obtain rfl : b = n := by simpa using hb
        rintro rfl
        exact h ha
      inodes_nodup := by
        rw [List.map_append, List.nodup_append]
        refine ⟨d.inodes_nodup, by simp, fun a ha b hb => ?_⟩
        obtain ⟨e, he, rfl⟩ := List.mem_map.mp ha
        obtain rfl : b = d.nextInode := by simpa using hb
        exact Nat.ne_of_lt (d.inodes_lt e he)
      inodes_lt := fun e he => by
        rcases List.mem_append.mp he with he | he
        · exact Nat.lt_succ_of_lt (d.inodes_lt e he)
        · obtain rfl : e = (n, d.nextInode) := by simpa using he
          exact Nat.lt_succ_self _ }

/-- Removes a name; the inode stays reachable for whoever has it open. -/
def unlink (d : Directory ν κ) (n : ν) : Directory ν κ where
  entries := d.entries.filter fun e => e.1 ≠ n
  contents := d.contents
  nextInode := d.nextInode
  names_nodup := d.names_nodup.sublist (List.filter_sublist.map _)
  inodes_nodup := d.inodes_nodup.sublist (List.filter_sublist.map _)
  inodes_lt e he := d.inodes_lt e (List.mem_of_mem_filter he)

theorem lookup_unlink (d : Directory ν κ) (n m : ν) :
    (d.unlink n).lookup m = if m = n then none else d.lookup m := by
  by_cases h : m = n
  · rw [if_pos h, lookup_eq_none]
    simp [names, unlink, h]
  · rw [if_neg h]
    cases hl : d.lookup m with
    | none =>
        rw [lookup_eq_none] at hl ⊢
        exact fun hm => hl ((List.filter_sublist.map _).subset hm)
    | some i =>
        rw [lookup_eq_some] at hl ⊢
        exact List.mem_filter.mpr ⟨hl, by simpa using h⟩

/-- The entry of one name under another name, which then has no other entry. -/
def renameEntry (d : Directory ν κ) (n m : ν) : Directory ν κ where
  entries := (d.unlink m).entries.map fun e => if e.1 = n then (m, e.2) else e
  contents := d.contents
  nextInode := d.nextInode
  names_nodup := by
    have hm : m ∉ (d.unlink m).entries.map (·.1) := by simp [unlink]
    rw [List.map_map]
    refine ((d.unlink m).names_nodup.of_map _).map_on ?_
    intro a ha b hb hab
    have hinj := List.inj_on_of_nodup_map (d.unlink m).names_nodup ha hb
    simp only [Function.comp_apply] at hab
    by_cases han : a.1 = n
    · by_cases hbn : b.1 = n
      · exact hinj (han.trans hbn.symm)
      · simp only [han, hbn, if_true, if_false] at hab
        exact absurd (List.mem_map.mpr ⟨b, hb, hab.symm⟩) hm
    · by_cases hbn : b.1 = n
      · simp only [han, hbn, if_true, if_false] at hab
        exact absurd (List.mem_map.mpr ⟨a, ha, hab⟩) hm
      · simp only [han, hbn, if_false] at hab
        exact hinj hab
  inodes_nodup := by
    have hsame : ((d.unlink m).entries.map fun e => if e.1 = n then (m, e.2) else e).map (·.2) =
        (d.unlink m).entries.map (·.2) := by
      rw [List.map_map]
      refine List.map_congr_left fun e _ => ?_
      by_cases he : e.1 = n <;> simp [he]
    rw [hsame]
    exact (d.unlink m).inodes_nodup
  inodes_lt e he := by
    obtain ⟨e', he', rfl⟩ := List.mem_map.mp he
    have hlt := (d.unlink m).inodes_lt e' he'
    by_cases hn : e'.1 = n
    · rw [if_pos hn]
      exact hlt
    · rw [if_neg hn]
      exact hlt

/-- Gives a file another name, in place of any file of that name. -/
def rename (d : Directory ν κ) (n m : ν) : Option (Directory ν κ) :=
  if n ∈ d.names then some (if n = m then d else d.renameEntry n m) else none

theorem create_eq_some {c : κ} (h : d.create n c = some d') :
    n ∉ d.names ∧ d'.contents = Function.update d.contents d.nextInode c ∧
      d'.nextInode = d.nextInode + 1 ∧ d'.entries = d.entries ++ [(n, d.nextInode)] := by
  unfold create at h
  by_cases hn : n ∈ d.names
  · simp [hn] at h
  · rw [dif_neg hn] at h
    obtain rfl := Option.some.inj h
    exact ⟨hn, rfl, rfl, rfl⟩

theorem create_eq_none {c : κ} : d.create n c = none ↔ n ∈ d.names := by
  unfold create
  by_cases hn : n ∈ d.names <;> simp [hn]

theorem rename_eq_none {m : ν} : d.rename n m = none ↔ n ∉ d.names := by
  by_cases hn : n ∈ d.names <;> simp [rename, hn]

theorem rename_single {m : ν} (hd : d.entries = [(n, i)]) :
    ∃ d', d.rename n m = some d' ∧ d'.entries = [(m, i)] ∧ d'.contents = d.contents ∧
      d'.nextInode = d.nextInode := by
  have hn : n ∈ d.names := by simp [names, hd]
  by_cases h : n = m
  · exact ⟨d, by rw [rename, if_pos hn, if_pos h], h ▸ hd, rfl, rfl⟩
  · refine ⟨d.renameEntry n m, by rw [rename, if_pos hn, if_neg h], ?_, rfl, rfl⟩
    simp [renameEntry, unlink, hd, h]

end Directory

end ObjectStorage.Library
