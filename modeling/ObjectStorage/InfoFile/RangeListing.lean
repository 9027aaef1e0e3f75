import ObjectStorage.AccountInfo.Listing
import ObjectStorage.InfoFile.ObjectMap
import ObjectStorage.Library.GroupFirsts

/-!
What the sorter returns for a listing with a marker, an end marker and a prefix, for records of any
kind whose names are not empty and shorter than what the sorter compares.
-/

namespace ObjectStorage.InfoFile

open Std Library Journal AccountInfo.AccountFile

namespace InfoFileSorter

section

variable {ρ : Type} {name : ρ → String} {iterators : List (List ρ)} {r : ρ}
  {marker endMarker namePrefix delimiter : Bytes}

/-- The name is not empty and ends in front of the last byte that is compared. -/
def Fits (name : ρ → String) (r : ρ) : Prop :=
  utf8 (name r) ≠ [] ∧ (utf8 (name r)).length < 256

theorem Fits.short (h : Fits name r) : Short name r := ⟨h.1, h.2.le⟩

/-- The records from the start on. -/
def rangeFrom (name : ρ → String) (marker namePrefix : Bytes) (iterators : List (List ρ)) :
    List ρ :=
  fromStart name (ContainerFile.startPattern marker namePrefix) (decide (marker < namePrefix))
    iterators

/-- The records that the sorter returns for a listing. -/
def ranged (name : ρ → String) (marker endMarker namePrefix : Bytes) (iterators : List (List ρ)) :
    List ρ :=
  listed name (ContainerFile.startPattern marker namePrefix) endMarker
    (decide (marker < namePrefix)) iterators

section

variable (hsorted : ∀ it ∈ iterators, ByName name it)
  (hfits : ∀ it ∈ iterators, ∀ r ∈ it, Fits name r)

include hfits in
theorem fits_of_mem_rangeFrom (hr : r ∈ rangeFrom name marker namePrefix iterators) :
    Fits name r := by
  obtain ⟨it', hit', hr⟩ := mem_of_mem_sorted hr
  obtain ⟨it, hit, rfl⟩ := List.mem_map.mp hit'
  exact hfits it hit r ((start_sublist _ _ it).subset hr)

include hsorted hfits

theorem byName_rangeFrom : ByName name (rangeFrom name marker namePrefix iterators) :=
  byName_fromStart hsorted fun it hit r hr => (hfits it hit r hr).short

theorem lt_of_mem_rangeFrom (hr : r ∈ rangeFrom name marker namePrefix iterators) :
    marker < utf8 (name r) ∧ namePrefix ≤ utf8 (name r) :=
  behind_marker (le_of_mem_fromStart hsorted (fun it hit r hr => (hfits it hit r hr).short) hr)

theorem ranged_eq : ranged name marker endMarker namePrefix iterators =
    (rangeFrom name marker namePrefix iterators).filter
      fun r => BeforeEnd endMarker (utf8 (name r)) := by
  have hkey : ∀ r ∈ rangeFrom name marker namePrefix iterators, sortKey (name r) = utf8 (name r) :=
    fun r hr => (fits_of_mem_rangeFrom hfits hr).short.sortKey_eq
  have hlisted : ranged name marker endMarker namePrefix iterators =
      (rangeFrom name marker namePrefix iterators).takeWhile
        fun r => BeforeEnd endMarker (sortKey (name r)) := listed_eq endMarker
  rw [hlisted]
  exact takeWhile_beforeEnd (byName_rangeFrom hsorted hfits) hkey endMarker

theorem byName_ranged : ByName name (ranged name marker endMarker namePrefix iterators) := by
  rw [ranged_eq hsorted hfits]
  exact (byName_rangeFrom hsorted hfits).filter _

omit hsorted in
theorem fits_of_mem_ranged (hr : r ∈ ranged name marker endMarker namePrefix iterators) :
    Fits name r := by
  have hlisted : ranged name marker endMarker namePrefix iterators =
      (rangeFrom name marker namePrefix iterators).takeWhile
        fun r => BeforeEnd endMarker (sortKey (name r)) := listed_eq endMarker
  rw [hlisted] at hr
  exact fits_of_mem_rangeFrom hfits ((List.takeWhile_sublist _).subset hr)

/-- With the prefix, they are the latest records of the names that are asked for. -/
theorem mem_ranged : r ∈ ranged name marker endMarker namePrefix iterators ∧
    namePrefix <+: utf8 (name r) ↔ latestOf name (name r) iterators = some r ∧
      Selected marker endMarker namePrefix (utf8 (name r)) := by
  have hshort : ∀ it ∈ iterators, ∀ r ∈ it, Short name r := fun it hit r hr =>
    (hfits it hit r hr).short
  rw [ranged_eq hsorted hfits, List.mem_filter, decide_eq_true_eq]
  constructor
  · rintro ⟨⟨hr, hend⟩, hhead⟩
    have hfit : Fits name r := fits_of_mem_rangeFrom hfits hr
    have hmarker : marker < utf8 (name r) := (lt_of_mem_rangeFrom hsorted hfits hr).1
    exact ⟨(mem_fromStart hsorted hshort hfit.short (fromStart_of_marker hmarker hhead)).mp hr,
      hmarker, ((beforeEnd_iff hfit.2.le).mp hend).1, hhead⟩
  · rintro ⟨hlatest, hmarker, hend, hhead⟩
    obtain ⟨⟨it, hit, hr⟩, -⟩ := mem_of_latestOf hlatest
    have hfit : Fits name r := hfits it hit r hr
    have hcut : ¬ CutOff endMarker (utf8 (name r)) := by
      rintro ⟨hlong, heq⟩
      have hlength := hfit.2
      rw [heq, List.length_take] at hlength
      omega
    refine ⟨⟨?_, (beforeEnd_iff hfit.2.le).mpr ⟨hend, hcut⟩⟩, hhead⟩
    exact (mem_fromStart hsorted hshort hfit.short (fromStart_of_marker hmarker hhead)).mpr hlatest

/-- The records with the prefix come first, whichever others are left out. -/
theorem takeWhile_ranged (p : ρ → Bool) :
    ((ranged name marker endMarker namePrefix iterators).filter p).takeWhile
        (fun r => namePrefix <+: utf8 (name r)) =
      ((ranged name marker endMarker namePrefix iterators).filter p).filter
        fun r => namePrefix <+: utf8 (name r) := by
  apply takeWhile_eq_filter
  apply ((byName_ranged hsorted hfits).filter p).imp_of_mem
  intro a b ha _ hlt hhead
  have hin := List.mem_of_mem_filter ha
  rw [ranged_eq hsorted hfits] at hin
  have hle := (lt_of_mem_rangeFrom hsorted hfits (List.mem_of_mem_filter hin)).2
  exact decide_eq_true (isPrefix_of_between hle (List.le_of_lt hlt) (List.prefix_refl _)
    (of_decide_eq_true hhead))

end

/-! ### Groups -/

theorem group_injective {n n' : Bytes} (h : group namePrefix [] n = group namePrefix [] n') :
    n = n' := by
  simpa [group] using h

theorem group_eq_of_lt {n b n' : Bytes} (hn : namePrefix <+: n) (hb : namePrefix <+: b)
    (hn' : namePrefix <+: n') (hlt : n < b) (hlt' : b < n')
    (h : group namePrefix delimiter n = group namePrefix delimiter n') :
    group namePrefix delimiter n = group namePrefix delimiter b := by
  by_cases hdelimiter : delimiter = []
  · subst hdelimiter
    have hlt'' : n < n' := List.lt_trans hlt hlt'
    rw [group_injective h] at hlt''
    exact absurd hlt'' (List.lt_irrefl _)
  · exact group_eq_of_between hdelimiter hn hb hn' hlt hlt' h

end

end InfoFileSorter

end ObjectStorage.InfoFile
