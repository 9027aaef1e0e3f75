import Mathlib.Data.List.Nodup
import Mathlib.Data.List.TakeWhile
import ObjectStorage.InfoFile.SorterOrder
import ObjectStorage.Library.PrefixOrder

/-!
`InfoFileSorter` with a marker and an end marker: where it starts in each of its iterators and where
it ends. Names have at most 256 bytes here, which is what the sorter compares; they are not empty
and, like the markers, have no zero bytes.
-/

namespace ObjectStorage.InfoFile

open Std Library Journal

variable {ρ : Type}

namespace InfoFileSorter

section

variable (name : ρ → String)

/-- The first bytes of the name, as many as the marker has, are less than the marker. -/
def Behind (marker : Bytes) (record : ρ) : Prop :=
  (utf8 (name record)).take marker.length < marker

instance (marker : Bytes) (record : ρ) : Decidable (Behind name marker record) :=
  inferInstanceAs (Decidable (_ < _))

/-- The constructor goes over the record. -/
def Skips (marker : Bytes) (isPrefix : Bool) (record : ρ) : Prop :=
  if isPrefix then ¬ marker <+: utf8 (name record) else Behind name marker record

instance (marker : Bytes) (isPrefix : Bool) (record : ρ) :
    Decidable (Skips name marker isPrefix record) :=
  inferInstanceAs (Decidable (if isPrefix then ¬ marker <+: utf8 (name record)
    else Behind name marker record))

/-- The records of an iterator from the place on where the constructor leaves it. -/
def start (marker : Bytes) (isPrefix : Bool) (iterator : List ρ) : List ρ :=
  if marker = [] then iterator
  else
    match iterator.dropWhile (Skips name marker isPrefix) with
    | [] => []
    | record :: rest =>
        if ! isPrefix ∧ utf8 (name record) = marker then rest else record :: rest

/-- The records that `next` returns in front of the end marker. -/
def sortedUntil (endMarker : Bytes) : Nat → List (List ρ) → List ρ
  | 0, _ => []
  | fuel + 1, iterators =>
      match choose name iterators with
      | none => []
      | some record =>
          if endMarker ≠ [] ∧ endMarker.take 256 ≤ sortKey (name record) then []
          else record :: sortedUntil endMarker fuel (advance name record iterators)

def listed (marker endMarker : Bytes) (isPrefix : Bool) (iterators : List (List ρ)) : List ρ :=
  let started := iterators.map (start name marker isPrefix)
  sortedUntil name endMarker (total started) started

end

variable {name : ρ → String}

/-- The bytes come before what `next` compares of the end marker. -/
def BeforeEnd (endMarker bytes : Bytes) : Prop := endMarker = [] ∨ bytes < endMarker.take 256

instance (endMarker bytes : Bytes) : Decidable (BeforeEnd endMarker bytes) :=
  inferInstanceAs (Decidable (_ ∨ _))

theorem not_beforeEnd {endMarker bytes : Bytes} :
    ¬ BeforeEnd endMarker bytes ↔ endMarker ≠ [] ∧ endMarker.take 256 ≤ bytes := by
  rw [BeforeEnd, not_or, List.not_lt]

theorem sortedUntil_eq (endMarker : Bytes) (fuel : Nat) (iterators : List (List ρ)) :
    sortedUntil name endMarker fuel iterators = (sorted name fuel iterators).takeWhile
      fun r => BeforeEnd endMarker (sortKey (name r)) := by
  induction fuel generalizing iterators with
  | zero => rfl
  | succ fuel ih =>
      rw [sortedUntil, sorted]
      cases choose name iterators with
      | none => rfl
      | some record =>
          simp only
          split
          next hend =>
            rw [List.takeWhile_cons_of_neg (by simpa using not_beforeEnd.mpr hend)]
          next hend =>
            rw [← not_beforeEnd, not_not] at hend
            rw [List.takeWhile_cons_of_pos (by simpa using hend), ih]

/-! ### Where an iterator starts -/

variable {marker : Bytes} {isPrefix : Bool} {iterator : List ρ} {r : ρ}

theorem start_sublist (marker : Bytes) (isPrefix : Bool) (iterator : List ρ) :
    (start name marker isPrefix iterator).Sublist iterator := by
  unfold start
  split
  next => exact List.Sublist.refl _
  next =>
    have hrest := List.dropWhile_sublist (Skips name marker isPrefix) (l := iterator)
    split
    next => exact List.nil_sublist _
    next record rest hdrop =>
      rw [hdrop] at hrest
      split
      next => exact (List.sublist_cons_self _ _).trans hrest
      next => exact hrest

/-- A name that the listing is about, as far as the start is concerned. -/
def FromStart (marker : Bytes) (isPrefix : Bool) (bytes : Bytes) : Prop :=
  if isPrefix then marker <+: bytes else marker < bytes

theorem FromStart.not_skips (h : FromStart marker isPrefix (utf8 (name r))) :
    ¬ Skips name marker isPrefix r := by
  unfold FromStart at h
  unfold Skips
  cases isPrefix with
  | true => exact not_not_intro h
  | false =>
      intro hbehind
      have hle := take_le_take (List.le_of_lt h) marker.length
      rw [List.take_length] at hle
      exact hle hbehind

theorem mem_start (hin : r ∈ iterator) (h : FromStart marker isPrefix (utf8 (name r))) :
    r ∈ start name marker isPrefix iterator := by
  have hkept : r ∈ iterator.dropWhile (Skips name marker isPrefix) := by
    have hsplit := List.takeWhile_append_dropWhile
      (p := fun r => decide (Skips name marker isPrefix r)) (l := iterator)
    rw [← hsplit] at hin
    refine (List.mem_append.mp hin).resolve_left fun hfirst => h.not_skips ?_
    simpa using List.mem_takeWhile_imp hfirst
  unfold start
  split
  next => exact hin
  next =>
    split
    next hdrop => rw [hdrop] at hkept; cases hkept
    next record rest hdrop =>
      rw [hdrop] at hkept
      split
      next hmarker =>
        refine (List.mem_cons.mp hkept).resolve_left fun heq => ?_
        obtain ⟨hmode, hname⟩ := hmarker
        cases isPrefix with
        | true => cases hmode
        | false => exact List.lt_irrefl _ (hname ▸ heq ▸ h)
      next => exact hkept

/-- The names are in order. -/
def ByName (name : ρ → String) (records : List ρ) : Prop :=
  records.Pairwise fun r r' => utf8 (name r) < utf8 (name r')

theorem ByName.eq_of_name (h : ByName name iterator) {r' : ρ} (hr : r ∈ iterator)
    (hr' : r' ∈ iterator) (hname : name r = name r') : r = r' := by
  have hne : ∀ a b, utf8 (name a) < utf8 (name b) → name a ≠ name b := fun a b hlt heq =>
    List.lt_irrefl _ (heq ▸ hlt)
  have hnodup : (iterator.map name).Nodup := List.pairwise_map.mpr (h.imp fun {a b} => hne a b)
  exact List.inj_on_of_nodup_map hnodup hr hr' hname

theorem ByName.eq_of_mem_iff {records records' : List ρ} (h : ByName name records)
    (h' : ByName name records') (hmem : ∀ r, r ∈ records ↔ r ∈ records') : records = records' :=
  eq_of_pairwise_of_mem_iff (fun r => List.lt_irrefl (utf8 (name r))) (fun _ _ => List.lt_asymm)
    h h' hmem

theorem le_of_not_skips (h : ¬ Skips name marker isPrefix r) : marker ≤ utf8 (name r) := by
  unfold Skips at h
  cases isPrefix with
  | true =>
      obtain ⟨rest, hrest⟩ := not_not.mp h
      rw [← hrest]
      exact List.le_append_left
  | false =>
      have hle : marker ≤ (utf8 (name r)).take marker.length := List.not_lt.mp h
      refine List.le_trans hle ?_
      conv_rhs => rw [← List.take_append_drop marker.length (utf8 (name r))]
      exact List.le_append_left

theorem le_of_mem_start (hsorted : ByName name iterator)
    (hnonempty : ∀ r ∈ iterator, utf8 (name r) ≠ []) (h : r ∈ start name marker isPrefix iterator) :
    if isPrefix then marker ≤ utf8 (name r) else marker < utf8 (name r) := by
  unfold start at h
  split at h
  next hmarker =>
    cases isPrefix with
    | true => exact hmarker ▸ List.nil_le _
    | false =>
        have hne := hnonempty r h
        cases hname : utf8 (name r) with
        | nil => exact absurd hname hne
        | cons b bs => exact hmarker ▸ List.nil_lt_cons ..
  next =>
    split at h
    next => cases h
    next record rest hdrop =>
      have hfirst : ¬ Skips name marker isPrefix record := by
        have hhead := List.head?_dropWhile_not
          (fun r => decide (Skips name marker isPrefix r)) iterator
        rw [hdrop] at hhead
        simpa using hhead
      have hle := le_of_not_skips hfirst
      have hpairwise : ByName name (record :: rest) :=
        hdrop ▸ hsorted.sublist (List.dropWhile_sublist _)
      have hlater : ∀ r' ∈ rest, marker < utf8 (name r') := fun r' hr' =>
        List.lt_of_le_of_lt hle (List.rel_of_pairwise_cons hpairwise hr')
      split at h
      next hmarker =>
        cases isPrefix with
        | true => exact List.le_of_lt (hlater r h)
        | false => exact hlater r h
      next hnot =>
        rcases List.mem_cons.mp h with rfl | hr'
        · cases isPrefix with
          | true => exact hle
          | false =>
              have hne : utf8 (name r) ≠ marker := fun heq => hnot ⟨rfl, heq⟩
              show marker < utf8 (name r)
              by_contra hge
              exact hne (List.le_antisymm (List.not_lt.mp hge) hle)
        · cases isPrefix with
          | true => exact List.le_of_lt (hlater r hr')
          | false => exact hlater r hr'

/-- The start loses no record of a name that the listing is about. -/
theorem find_start (hsorted : ByName name iterator) {n : String}
    (h : FromStart marker isPrefix (utf8 n)) :
    ((start name marker isPrefix iterator).find? fun r => name r = n) =
      iterator.find? fun r => name r = n := by
  have hsub : (start name marker isPrefix iterator).Sublist iterator :=
    start_sublist marker isPrefix iterator
  cases hfind : iterator.find? fun r => name r = n with
  | none =>
      refine List.find?_eq_none.mpr fun r hr => ?_
      exact List.find?_eq_none.mp hfind r (hsub.subset hr)
  | some r =>
      have hname : name r = n := by simpa using List.find?_some hfind
      have hin : r ∈ start name marker isPrefix iterator :=
        mem_start (List.mem_of_find?_eq_some hfind) (hname.symm ▸ h)
      cases hfirst : (start name marker isPrefix iterator).find? fun r => name r = n with
      | none => exact absurd (decide_eq_true hname) (List.find?_eq_none.mp hfirst r hin)
      | some r' =>
          have hname' : name r' = n := by simpa using List.find?_some hfirst
          exact congrArg some (hsorted.eq_of_name (hsub.subset (List.mem_of_find?_eq_some hfirst))
            (List.mem_of_find?_eq_some hfind) (hname'.trans hname.symm))

/-! ### What is listed -/

/-- The record of the name that the last iterator has. -/
def latestOf (name : ρ → String) (n : String) (iterators : List (List ρ)) : Option ρ :=
  iterators.foldl (fun best iterator => (iterator.find? fun r => name r = n).or best) none

/-- The names fit into what the sorter compares and are not empty. -/
def Short (name : ρ → String) (r : ρ) : Prop :=
  utf8 (name r) ≠ [] ∧ (utf8 (name r)).length ≤ 256

theorem Short.sortKey_eq (h : Short name r) : sortKey (name r) = utf8 (name r) :=
  List.take_of_length_le h.2

theorem find_sortKey (hshort : ∀ r ∈ iterator, Short name r) {r : ρ} (hr : Short name r) :
    (iterator.find? fun r' => sortKey (name r') = sortKey (name r)) =
      iterator.find? fun r' => name r' = name r := by
  induction iterator with
  | nil => rfl
  | cons r' rest ih =>
      obtain ⟨hr', hrest⟩ := List.forall_mem_cons.mp hshort
      have hiff : sortKey (name r') = sortKey (name r) ↔ name r' = name r := by
        rw [hr'.sortKey_eq, hr.sortKey_eq, utf8_injective.eq_iff]
      rw [List.find?_cons, List.find?_cons, ih hrest, decide_eq_decide.mpr hiff]

theorem latest_start {iterators : List (List ρ)} (hsorted : ∀ it ∈ iterators, ByName name it)
    (hshort : ∀ it ∈ iterators, ∀ r ∈ it, Short name r) {r : ρ} (hr : Short name r)
    (h : FromStart marker isPrefix (utf8 (name r))) :
    latest name (sortKey (name r)) (iterators.map (start name marker isPrefix)) =
      latestOf name (name r) iterators := by
  have hstart : ∀ it ∈ iterators, ((start name marker isPrefix it).find?
      fun r' => sortKey (name r') = sortKey (name r)) = it.find? fun r' => name r' = name r := by
    intro it hit
    rw [find_sortKey (fun r' hr' => hshort it hit r'
      ((start_sublist marker isPrefix it).subset hr')) hr, find_start (hsorted it hit) h]
  unfold latest latestOf
  rw [List.foldl_map]
  exact List.foldl_ext _ _ _ fun best it hit => by rw [hstart it hit]

variable {iterators : List (List ρ)}

/-- The records that are returned, but for the end marker. -/
def fromStart (name : ρ → String) (marker : Bytes) (isPrefix : Bool) (iterators : List (List ρ)) :
    List ρ :=
  sorted name (total (iterators.map (start name marker isPrefix)))
    (iterators.map (start name marker isPrefix))

theorem short_of_mem_fromStart (hshort : ∀ it ∈ iterators, ∀ r ∈ it, Short name r)
    (h : r ∈ fromStart name marker isPrefix iterators) : Short name r := by
  obtain ⟨it', hit', hr⟩ := mem_of_mem_sorted h
  obtain ⟨it, hit, rfl⟩ := List.mem_map.mp hit'
  exact hshort it hit r ((start_sublist marker isPrefix it).subset hr)

theorem strictlySorted_start (hsorted : ∀ it ∈ iterators, ByName name it)
    (hshort : ∀ it ∈ iterators, ∀ r ∈ it, Short name r) :
    ∀ it ∈ iterators.map (start name marker isPrefix), StrictlySorted name it := by
  intro it' hit'
  obtain ⟨it, hit, rfl⟩ := List.mem_map.mp hit'
  have hsub : (start name marker isPrefix it).Sublist it := start_sublist marker isPrefix it
  refine ((hsorted it hit).sublist hsub).imp_of_mem fun {a b} ha hb hlt => ?_
  rw [(hshort it hit a (hsub.subset ha)).sortKey_eq, (hshort it hit b (hsub.subset hb)).sortKey_eq]
  exact hlt

theorem byName_fromStart (hsorted : ∀ it ∈ iterators, ByName name it)
    (hshort : ∀ it ∈ iterators, ∀ r ∈ it, Short name r) :
    ByName name (fromStart name marker isPrefix iterators) := by
  have hstrict : StrictlySorted name (fromStart name marker isPrefix iterators) :=
    strictlySorted_sorted (strictlySorted_start hsorted hshort) _
  refine hstrict.imp_of_mem fun {a b} ha hb hlt => ?_
  rwa [(short_of_mem_fromStart hshort ha).sortKey_eq,
    (short_of_mem_fromStart hshort hb).sortKey_eq] at hlt

theorem le_of_mem_fromStart (hsorted : ∀ it ∈ iterators, ByName name it)
    (hshort : ∀ it ∈ iterators, ∀ r ∈ it, Short name r)
    (h : r ∈ fromStart name marker isPrefix iterators) :
    if isPrefix then marker ≤ utf8 (name r) else marker < utf8 (name r) := by
  obtain ⟨it', hit', hr⟩ := mem_of_mem_sorted h
  obtain ⟨it, hit, rfl⟩ := List.mem_map.mp hit'
  exact le_of_mem_start (hsorted it hit) (fun r' hr' => (hshort it hit r' hr').1) hr

/-- Of the names that the listing is about the records of the last iterators are returned. -/
theorem mem_fromStart (hsorted : ∀ it ∈ iterators, ByName name it)
    (hshort : ∀ it ∈ iterators, ∀ r ∈ it, Short name r) (hr : Short name r)
    (h : FromStart marker isPrefix (utf8 (name r))) :
    r ∈ fromStart name marker isPrefix iterators ↔ latestOf name (name r) iterators = some r := by
  have hstarted : ∀ it ∈ iterators.map (start name marker isPrefix), StrictlySorted name it :=
    strictlySorted_start hsorted hshort
  have hbyName : ByName name (fromStart name marker isPrefix iterators) :=
    byName_fromStart hsorted hshort
  have hfind : ((fromStart name marker isPrefix iterators).find?
      fun r' => sortKey (name r') = sortKey (name r)) = latestOf name (name r) iterators := by
    rw [fromStart, find_sorted (fun it hit => (hstarted it hit).keySorted) (Nat.le_refl _),
      latest_start hsorted hshort hr h]
  rw [find_sortKey (fun r' hr' => short_of_mem_fromStart hshort hr') hr] at hfind
  rw [← hfind]
  constructor
  · intro hin
    cases hfirst : (fromStart name marker isPrefix iterators).find? fun r' => name r' = name r with
    | none => exact absurd (decide_eq_true rfl) (List.find?_eq_none.mp hfirst r hin)
    | some r' =>
        have hname : name r' = name r := by simpa using List.find?_some hfirst
        rw [hbyName.eq_of_name (List.mem_of_find?_eq_some hfirst) hin hname]
  · exact List.mem_of_find?_eq_some

theorem listed_eq (endMarker : Bytes) : listed name marker endMarker isPrefix iterators =
    (fromStart name marker isPrefix iterators).takeWhile
      fun r => BeforeEnd endMarker (sortKey (name r)) := sortedUntil_eq ..

theorem takeWhile_beforeEnd {l : List ρ} (hsorted : ByName name l)
    (hkey : ∀ r ∈ l, sortKey (name r) = utf8 (name r)) (endMarker : Bytes) :
    l.takeWhile (fun r => BeforeEnd endMarker (sortKey (name r))) =
      l.filter fun r => BeforeEnd endMarker (utf8 (name r)) := by
  rw [takeWhile_eq_filter]
  · apply List.filter_congr
    intro r hr
    rw [hkey r hr]
  · apply hsorted.imp_of_mem
    intro a b ha hb hlt hbefore
    rw [hkey b hb] at hbefore
    rw [hkey a ha]
    rcases of_decide_eq_true hbefore with hnil | hless
    · exact decide_eq_true (.inl hnil)
    · exact decide_eq_true (.inr (List.lt_trans hlt hless))

/-! ### The start of a listing with a marker and a prefix -/

variable {namePrefix n : Bytes}

theorem fromStart_of_marker (hmarker : marker < n) (hhead : namePrefix <+: n) :
    FromStart (if namePrefix < marker then marker else namePrefix)
      (decide (marker < namePrefix)) n := by
  by_cases hmode : marker < namePrefix
  · rw [decide_eq_true hmode, if_neg (List.not_lt.mpr (List.le_of_lt hmode))]
    exact hhead
  · rw [decide_eq_false hmode]
    by_cases hless : namePrefix < marker
    · rw [if_pos hless]
      exact hmarker
    · rw [if_neg hless, List.le_antisymm (List.not_lt.mp hmode) (List.not_lt.mp hless)]
      exact hmarker

theorem behind_marker
    (h : if decide (marker < namePrefix) then
      (if namePrefix < marker then marker else namePrefix) ≤ n
      else (if namePrefix < marker then marker else namePrefix) < n) :
    marker < n ∧ namePrefix ≤ n := by
  by_cases hmode : marker < namePrefix
  · rw [decide_eq_true hmode, if_pos rfl, if_neg (List.not_lt.mpr (List.le_of_lt hmode))] at h
    exact ⟨Std.lt_of_lt_of_le hmode h, h⟩
  · rw [decide_eq_false hmode, if_neg (by decide)] at h
    have hle : namePrefix ≤ marker := List.not_lt.mp hmode
    by_cases hless : namePrefix < marker
    · rw [if_pos hless] at h
      exact ⟨h, List.le_of_lt (List.lt_of_le_of_lt hle h)⟩
    · rw [if_neg hless] at h
      exact ⟨List.lt_of_le_of_lt (List.not_lt.mp hless) h, List.le_of_lt h⟩

end InfoFileSorter

end ObjectStorage.InfoFile
