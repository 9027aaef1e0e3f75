import ObjectStorage.Library.Directory
import ObjectStorage.Library.FloatRounding

/-!
The files whose names carry the leader version: a name `pattern_k.0` is the number `k`. A new leader
looks for such a file and gives it the next version, or creates the first one. Versions are read
into a `float` and counted up in it.
-/

namespace ObjectStorage.Osm

open Library

/-- The `float` nearest to a whole number, where 2 ^ 128 stands for infinity. -/
def toFloat (n : Nat) : Nat := min (roundBits 24 n) (2 ^ 128)

/-- `new_gl_version`: one is added in a `double`. -/
def nextVersion (version : Nat) : Nat := toFloat (roundBits 53 (toFloat version + 1))

theorem toFloat_mono {m n : Nat} (h : m ≤ n) : toFloat m ≤ toFloat n :=
  min_le_min_right _ (roundBits_mono (by decide) h)

theorem toFloat_of_le {n : Nat} (h : n ≤ 2 ^ 24) : toFloat n = n := by
  rcases h.lt_or_eq with hlt | rfl
  · rw [toFloat, roundBits_of_lt hlt]
    omega
  · decide

/-- Up to 16777216 the versions are counted. -/
theorem nextVersion_of_lt {version : Nat} (h : version < 2 ^ 24) :
    nextVersion version = version + 1 := by
  have hdouble : version + 1 < 2 ^ 53 := by omega
  rw [nextVersion, toFloat_of_le h.le, roundBits_of_lt hdouble, toFloat_of_le h]

example : nextVersion 16777216 = 16777216 := by decide

section

variable {κ : Type}

/-- The directory scan stops at any one of the files. -/
def scanFinds (dir : Directory Nat (Option κ)) : Option Nat → Bool
  | some version => version ∈ dir.names
  | none => dir.names.isEmpty

/-- `create_and_rename_GL_specific_file` after its scan: the rename, or the creation of an empty
file if the scan found none. The results of the rename and of the exclusive creation are not looked
at. -/
def createAndRename (dir : Directory Nat (Option κ)) :
    Option Nat → Directory Nat (Option κ) × Nat
  | some version => ((dir.rename version (nextVersion version)).getD dir, nextVersion version)
  | none => ((dir.create 1 none).getD dir, 1)

theorem createAndRename_none {dir : Directory Nat (Option κ)} (hempty : dir.entries = []) :
    (createAndRename dir none).1.entries = [(1, dir.nextInode)] ∧
      (createAndRename dir none).1.contents dir.nextInode = none := by
  cases hcreate : dir.create 1 none with
  | none =>
      rw [Directory.create_eq_none] at hcreate
      simp [Directory.names, hempty] at hcreate
  | some dir' =>
      obtain ⟨-, hcontents, -, hentries⟩ := Directory.create_eq_some hcreate
      exact ⟨by simp [createAndRename, hcreate, hentries, hempty],
        by simp [createAndRename, hcreate, hcontents]⟩

/-- A rename of the one file keeps it, and a file is created only while there is none. -/
theorem createAndRename_spec {dir : Directory Nat (Option κ)} {found : Option Nat}
    (hnone : found = none → dir.entries = []) :
    (∀ e, dir.entries = [e] → ∃ version, (createAndRename dir found).1.entries = [(version, e.2)] ∧
      (createAndRename dir found).1.contents = dir.contents) ∧
    (dir.entries = [] → (createAndRename dir found).1.entries = [] ∨
      ∃ e, (createAndRename dir found).1.entries = [e] ∧
        (createAndRename dir found).1.contents e.2 = none) := by
  cases found with
  | none =>
      have hempty := hnone rfl
      refine ⟨fun e he => by simp [hempty] at he, fun _ => .inr ?_⟩
      obtain ⟨hentries, hcontents⟩ := createAndRename_none hempty
      exact ⟨_, hentries, hcontents⟩
  | some version =>
      refine ⟨fun e he => ?_, fun hempty => .inl ?_⟩
      · obtain ⟨k, i⟩ := e
        by_cases hk : k = version
        · subst hk
          obtain ⟨dir', hrename, hentries, hcontents, -⟩ :=
            Directory.rename_single (m := nextVersion k) he
          exact ⟨nextVersion k, by simp [createAndRename, hrename, hentries],
            by simp [createAndRename, hrename, hcontents]⟩
        · have hnot : version ∉ dir.names := by
            simpa [Directory.names, he] using fun h : version = k => hk h.symm
          have hrename : dir.rename version (nextVersion version) = none :=
            Directory.rename_eq_none.mpr hnot
          exact ⟨k, by simp [createAndRename, hrename, he], by simp [createAndRename, hrename]⟩
      · have hrename : dir.rename version (nextVersion version) = none :=
          Directory.rename_eq_none.mpr (by simp [Directory.names, hempty])
        simp [createAndRename, hrename, hempty]

end

end ObjectStorage.Osm
