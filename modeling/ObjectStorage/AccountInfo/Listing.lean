import ObjectStorage.AccountInfo.ContainerUpdate
import ObjectStorage.InfoFile.SorterStart

/-!
`list_container`: the sorted and the unsorted records of an account from a marker or a prefix on,
one for every group of names that are the same up to a delimiter. Marker, end marker, prefix and
delimiter have no zero bytes.
-/

namespace ObjectStorage.AccountInfo

open Std Library InfoFile InfoFileSorter ObjectStorage.Journal

namespace AccountFile

/-! ### Listing -/

/-- The records that `SortedAccountInfoIterator` yields: it reads on until a record is not behind
the pattern or none is left, and goes back by one record. -/
def sortedIterator (file : AccountFile) (pattern : Bytes) : List ContainerRecord :=
  if pattern = [] then file.sorted
  else file.sorted.drop (min
    (file.sorted.takeWhile (Behind ContainerRecord.name pattern)).length (file.sorted.length - 1))

/-- `prev_path` after a name: the name up to the end of the first delimiter behind the prefix, and
nothing if the name ends before; of a name that fills the field no end is seen. -/
def nextPath (namePrefix delimiter name : Bytes) : Bytes :=
  match pathFrom delimiter (name.drop namePrefix.length) with
  | some path => namePrefix ++ path
  | none => if name.length < 256 then [] else name.take 256

/-- The loop over the records, with `prev_path` and the number of records that were listed. -/
def listLoop (count : Nat) (namePrefix delimiter : Bytes) :
    Bytes → Nat → List ContainerRecord → List ContainerRecord
  | _, _, [] => []
  | prevPath, listed, record :: rest =>
      if count ≠ 0 ∧ count ≤ listed then []
      else if ¬ namePrefix <+: utf8 record.name then []
      else if delimiter ≠ [] ∧ prevPath ≠ [] ∧ prevPath <+: utf8 record.name then
        listLoop count namePrefix delimiter prevPath listed rest
      else
        let path := if delimiter = [] then prevPath
          else nextPath namePrefix delimiter (utf8 record.name)
        if record.deleted then listLoop count namePrefix delimiter path listed rest
        else record :: listLoop count namePrefix delimiter path (listed + 1) rest

def listContainer (file : AccountFile) (count : Nat)
    (marker endMarker namePrefix delimiter : Bytes) : List ContainerRecord :=
  let pattern := if namePrefix < marker then marker else namePrefix
  let isPrefix := decide (marker < namePrefix)
  listLoop count namePrefix delimiter [] 0
    (InfoFileSorter.listed ContainerRecord.name pattern endMarker isPrefix
      [file.sortedIterator pattern, sortedMap (·.name) file.unsorted])

/-! ### What is listed -/

/-- The name is one of those that are asked for. -/
def Selected (marker endMarker namePrefix name : Bytes) : Prop :=
  marker < name ∧ (endMarker = [] ∨ name < endMarker) ∧ namePrefix <+: name

/-- What names have in common that make one entry. -/
def group (namePrefix delimiter name : Bytes) : Bytes :=
  if delimiter = [] then name
  else
    match pathFrom delimiter (name.drop namePrefix.length) with
    | some path => namePrefix ++ path
    | none => name

/-- The record is the first live one of its group. -/
def Entry (file : AccountFile) (marker endMarker namePrefix delimiter : Bytes)
    (r : ContainerRecord) : Prop :=
  file.live r.name = some r ∧ Selected marker endMarker namePrefix (utf8 r.name) ∧
    ∀ r', file.live r'.name = some r' → Selected marker endMarker namePrefix (utf8 r'.name) →
      group namePrefix delimiter (utf8 r'.name) = group namePrefix delimiter (utf8 r.name) →
        utf8 r.name ≤ utf8 r'.name

/-- The entries in the order of their names. -/
structure Entries (file : AccountFile) (marker endMarker namePrefix delimiter : Bytes)
    (entries : List ContainerRecord) : Prop where
  sorted : ByName ContainerRecord.name entries
  mem : ∀ r, r ∈ entries ↔ Entry file marker endMarker namePrefix delimiter r

/-- A count of zero stands for all. -/
def limited (count : Nat) (entries : List ContainerRecord) : List ContainerRecord :=
  if count = 0 then entries else entries.take count

/-- The sorter compares the first bytes of the end marker only, and they are the name. -/
def CutOff (endMarker name : Bytes) : Prop := 256 < endMarker.length ∧ name = endMarker.take 256

/-- No deleted container of its group is in front of the record, and it does not have the name that
is left of the end marker. -/
def Shown (file : AccountFile) (marker endMarker namePrefix delimiter : Bytes)
    (r : ContainerRecord) : Prop :=
  (∀ r', file.current r'.name = some r' → r'.deleted = true →
    Selected marker endMarker namePrefix (utf8 r'.name) →
      group namePrefix delimiter (utf8 r'.name) = group namePrefix delimiter (utf8 r.name) →
        utf8 r.name < utf8 r'.name) ∧
  ¬ CutOff endMarker (utf8 r.name)

/-! ### Groups -/

section

variable {namePrefix delimiter n n' : Bytes}

theorem group_of_path {path : Bytes} (hdelimiter : delimiter ≠ [])
    (h : pathFrom delimiter (n.drop namePrefix.length) = some path) :
    group namePrefix delimiter n = namePrefix ++ path := by
  rw [group, if_neg hdelimiter, h]

theorem group_of_no_path (h : pathFrom delimiter (n.drop namePrefix.length) = none) :
    group namePrefix delimiter n = n := by
  rw [group, h]
  exact ite_self n

theorem path_isPrefix {path : Bytes} (hn : namePrefix <+: n)
    (h : pathFrom delimiter (n.drop namePrefix.length) = some path) : namePrefix ++ path <+: n := by
  obtain ⟨rest, rfl⟩ := hn
  rw [List.drop_left] at h
  exact (List.prefix_append_right_inj _).mpr (pathFrom_isPrefix h)

theorem path_of_isPrefix {path : Bytes} (hdelimiter : delimiter ≠ [])
    (h : pathFrom delimiter (n.drop namePrefix.length) = some path)
    (hn' : namePrefix ++ path <+: n') :
    pathFrom delimiter (n'.drop namePrefix.length) = some path := by
  obtain ⟨rest, rfl⟩ := hn'
  refine pathFrom_of_isPrefix hdelimiter h ?_
  rw [List.append_assoc, List.drop_left]
  exact List.prefix_append path rest

/-- Two names are in one group when they have the same path behind the prefix. -/
theorem group_eq_iff (hdelimiter : delimiter ≠ []) (hn' : namePrefix <+: n') (hne : n ≠ n') :
    group namePrefix delimiter n = group namePrefix delimiter n' ↔
      ∃ path, pathFrom delimiter (n.drop namePrefix.length) = some path ∧
        namePrefix ++ path <+: n' := by
  constructor
  · intro h
    cases hpath : pathFrom delimiter (n.drop namePrefix.length) with
    | some path =>
        refine ⟨path, rfl, ?_⟩
        rw [group_of_path hdelimiter hpath] at h
        cases hpath' : pathFrom delimiter (n'.drop namePrefix.length) with
        | some path' =>
            rw [h, group_of_path hdelimiter hpath']
            exact path_isPrefix hn' hpath'
        | none =>
            rw [h, group_of_no_path hpath']
    | none =>
        rw [group_of_no_path hpath] at h
        cases hpath' : pathFrom delimiter (n'.drop namePrefix.length) with
        | some path' =>
            -- the first name would be the path of the second one, which has a path itself
            rw [group_of_path hdelimiter hpath'] at h
            have hsome : pathFrom delimiter (n.drop namePrefix.length) = some path' :=
              path_of_isPrefix hdelimiter hpath' (by rw [h])
            rw [hpath] at hsome
            cases hsome
        | none => exact absurd (h.trans (group_of_no_path hpath')) hne
  · rintro ⟨path, hpath, hin⟩
    rw [group_of_path hdelimiter hpath,
      group_of_path hdelimiter (path_of_isPrefix hdelimiter hpath hin)]

theorem group_eq_of_between {b : Bytes} (hdelimiter : delimiter ≠ []) (hn : namePrefix <+: n)
    (hb : namePrefix <+: b) (hn' : namePrefix <+: n') (hlt : n < b) (hlt' : b < n')
    (h : group namePrefix delimiter n = group namePrefix delimiter n') :
    group namePrefix delimiter n = group namePrefix delimiter b := by
  have hne : n ≠ n' := fun heq => List.lt_irrefl _ (List.lt_trans hlt (heq ▸ hlt'))
  obtain ⟨path, hpath, hin⟩ := (group_eq_iff hdelimiter hn' hne).mp h
  refine (group_eq_iff hdelimiter hb fun heq => List.lt_irrefl _ (heq ▸ hlt)).mpr
    ⟨path, hpath, ?_⟩
  exact isPrefix_of_between (List.le_of_lt hlt) (List.le_of_lt hlt') (path_isPrefix hn hpath) hin

theorem nextPath_iff (hdelimiter : delimiter ≠ []) (hn' : namePrefix <+: n')
    (hne : n ≠ n') (hlength : n.length ≤ 256) (hlength' : n'.length ≤ 256) :
    nextPath namePrefix delimiter n ≠ [] ∧ nextPath namePrefix delimiter n <+: n' ↔
      group namePrefix delimiter n = group namePrefix delimiter n' := by
  rw [group_eq_iff hdelimiter hn' hne]
  cases hpath : pathFrom delimiter (n.drop namePrefix.length) with
  | some path =>
      have hne : namePrefix ++ path ≠ [] := fun hnil => by
        have hlong := length_le_of_pathFrom hpath
        rw [(List.append_eq_nil_iff.mp hnil).2] at hlong
        exact hdelimiter (List.length_eq_zero_iff.mp (Nat.le_zero.mp hlong))
      simp only [nextPath, hpath, Option.some.injEq, exists_eq_left']
      exact ⟨fun h => h.2, fun h => ⟨hne, h⟩⟩
  | none =>
      simp only [nextPath, hpath, reduceCtorEq, false_and, exists_false, iff_false, not_and]
      split
      next => exact fun hnil => absurd rfl hnil
      next hfull =>
        intro _ hin
        rw [List.take_of_length_le hlength] at hin
        exact hne (hin.eq_of_length_le (by omega))

end

/-! ### The loop -/

/-- The records that the loop takes of those with the prefix, however many there are. -/
def picked (namePrefix delimiter : Bytes) : Bytes → List ContainerRecord → List ContainerRecord
  | _, [] => []
  | prevPath, record :: rest =>
      if delimiter ≠ [] ∧ prevPath ≠ [] ∧ prevPath <+: utf8 record.name then
        picked namePrefix delimiter prevPath rest
      else
        let path := if delimiter = [] then prevPath
          else nextPath namePrefix delimiter (utf8 record.name)
        if record.deleted then picked namePrefix delimiter path rest
        else record :: picked namePrefix delimiter path rest

/-- The record comes first in its group. -/
def First (namePrefix delimiter : Bytes) (records : List ContainerRecord) (r : ContainerRecord) :
    Prop :=
  ∀ r' ∈ records, group namePrefix delimiter (utf8 r'.name) =
    group namePrefix delimiter (utf8 r.name) → utf8 r.name ≤ utf8 r'.name

instance (namePrefix delimiter : Bytes) (records : List ContainerRecord) (r : ContainerRecord) :
    Decidable (First namePrefix delimiter records r) :=
  inferInstanceAs (Decidable (∀ r' ∈ records, group namePrefix delimiter (utf8 r'.name) =
    group namePrefix delimiter (utf8 r.name) → utf8 r.name ≤ utf8 r'.name))

section

variable {namePrefix delimiter : Bytes}

theorem listLoop_eq (count : Nat) (prevPath : Bytes) (listed : Nat)
    (records : List ContainerRecord) : listLoop count namePrefix delimiter prevPath listed records =
      let all := picked namePrefix delimiter prevPath
        (records.takeWhile fun r => namePrefix <+: utf8 r.name)
      if count = 0 then all else all.take (count - listed) := by
  induction records generalizing prevPath listed with
  | nil => simp [listLoop, picked]
  | cons record rest ih =>
      rw [listLoop]
      by_cases hfull : count ≠ 0 ∧ count ≤ listed
      · rw [if_pos hfull]
        simp only
        rw [if_neg hfull.1, Nat.sub_eq_zero_of_le hfull.2, List.take_zero]
      rw [if_neg hfull]
      by_cases hstart : namePrefix <+: utf8 record.name
      · rw [if_neg (not_not_intro hstart), List.takeWhile_cons_of_pos (by simpa using hstart),
          picked]
        by_cases hskip : delimiter ≠ [] ∧ prevPath ≠ [] ∧ prevPath <+: utf8 record.name
        · rw [if_pos hskip, if_pos hskip]
          exact ih prevPath listed
        rw [if_neg hskip, if_neg hskip]
        simp only
        by_cases hdeleted : record.deleted = true
        · rw [if_pos hdeleted, if_pos hdeleted]
          exact ih _ listed
        rw [if_neg hdeleted, if_neg hdeleted, ih]
        simp only
        split
        next => rfl
        next hcount =>
          have hsucc : count - listed = count - (listed + 1) + 1 := by omega
          rw [hsucc, List.take_succ_cons]
      · rw [if_pos hstart, List.takeWhile_cons_of_neg (by simpa using hstart), picked]
        simp

theorem picked_nil (prevPath : Bytes) (records : List ContainerRecord) :
    picked namePrefix [] prevPath records = records.filter (! ·.deleted) := by
  induction records with
  | nil => rfl
  | cons record rest ih =>
      rw [picked, if_neg fun h => h.1 rfl]
      simp only [if_pos]
      cases hdeleted : record.deleted with
      | true => rw [if_pos rfl, ih, List.filter_cons_of_neg (by simp [hdeleted])]
      | false => rw [if_neg (by decide), ih, List.filter_cons_of_pos (by simp [hdeleted])]

/-- `prev_path` tells the groups of the records that are gone over. -/
theorem picked_append (hdelimiter : delimiter ≠ []) {before rest : List ContainerRecord}
    {prevPath : Bytes} (hsorted : ByName ContainerRecord.name (before ++ rest))
    (hstart : ∀ r ∈ before ++ rest, namePrefix <+: utf8 r.name)
    (hlength : ∀ r ∈ before ++ rest, (utf8 r.name).length ≤ 256)
    (hpath : ∀ r ∈ rest, prevPath ≠ [] ∧ prevPath <+: utf8 r.name ↔ ∃ r' ∈ before,
      group namePrefix delimiter (utf8 r'.name) = group namePrefix delimiter (utf8 r.name)) :
    picked namePrefix delimiter prevPath rest = rest.filter
      fun r => ! r.deleted && First namePrefix delimiter (before ++ rest) r := by
  induction rest generalizing before prevPath with
  | nil => rfl
  | cons record rest ih =>
      obtain ⟨hrecord, hrest⟩ := List.forall_mem_cons.mp hpath
      have hmove : before ++ record :: rest = before ++ [record] ++ rest :=
        List.append_cons before record rest
      have hin : record ∈ before ++ record :: rest := by simp
      obtain ⟨-, hlater, hcross⟩ := List.pairwise_append.mp hsorted
      have hbefore : ∀ r ∈ before, utf8 r.name < utf8 record.name := fun r hr =>
        hcross r hr record List.mem_cons_self
      have hafter : ∀ r ∈ rest, utf8 record.name < utf8 r.name := fun r hr =>
        List.rel_of_pairwise_cons hlater hr
      rw [hmove] at hsorted hstart hlength
      rw [picked]
      by_cases hskip : prevPath ≠ [] ∧ prevPath <+: utf8 record.name
      · obtain ⟨r', hr', hgroup⟩ := hrecord.mp hskip
        have hnot : ¬ First namePrefix delimiter (before ++ record :: rest) record := fun hfirst =>
          List.not_lt.mpr (hfirst r' (List.mem_append_left _ hr') hgroup) (hbefore r' hr')
        have hpath' : ∀ r ∈ rest, prevPath ≠ [] ∧ prevPath <+: utf8 r.name ↔
            ∃ r' ∈ before ++ [record], group namePrefix delimiter (utf8 r'.name) =
              group namePrefix delimiter (utf8 r.name) := by
          intro r hr
          rw [hrest r hr]
          constructor
          · rintro ⟨b, hb, hsame⟩
            exact ⟨b, List.mem_append_left _ hb, hsame⟩
          · rintro ⟨b, hb, hsame⟩
            rcases List.mem_append.mp hb with hb | hb
            · exact ⟨b, hb, hsame⟩
            · obtain rfl := List.mem_singleton.mp hb
              exact ⟨r', hr', hgroup.trans hsame⟩
        rw [if_pos ⟨hdelimiter, hskip⟩, ih hsorted hstart hlength hpath',
          List.filter_cons_of_neg (by simp [hnot]), hmove]
      · have hnone : ∀ r' ∈ before, group namePrefix delimiter (utf8 r'.name) ≠
            group namePrefix delimiter (utf8 record.name) := fun r' hr' hgroup =>
          hskip (hrecord.mpr ⟨r', hr', hgroup⟩)
        have hfirst : First namePrefix delimiter (before ++ record :: rest) record := by
          intro r' hr' hgroup
          rcases List.mem_append.mp hr' with hr' | hr'
          · exact absurd hgroup (hnone r' hr')
          · rcases List.mem_cons.mp hr' with rfl | hr'
            · exact List.le_refl _
            · exact List.le_of_lt (hafter r' hr')
        have hpath' : ∀ r ∈ rest, nextPath namePrefix delimiter (utf8 record.name) ≠ [] ∧
            nextPath namePrefix delimiter (utf8 record.name) <+: utf8 r.name ↔
              ∃ r' ∈ before ++ [record], group namePrefix delimiter (utf8 r'.name) =
                group namePrefix delimiter (utf8 r.name) := by
          intro r hr
          have hmem : r ∈ before ++ [record] ++ rest := List.mem_append_right _ hr
          have hmem' : record ∈ before ++ [record] ++ rest := hmove ▸ hin
          have hne : utf8 record.name ≠ utf8 r.name := fun heq =>
            List.lt_irrefl _ (heq ▸ hafter r hr)
          rw [nextPath_iff hdelimiter (hstart r hmem) hne (hlength _ hmem') (hlength _ hmem)]
          constructor
          · exact fun hsame => ⟨record, by simp, hsame⟩
          · rintro ⟨b, hb, hsame⟩
            rcases List.mem_append.mp hb with hb | hb
            · have hb' : b ∈ before ++ [record] ++ rest := by simp [hb]
              exact absurd (group_eq_of_between hdelimiter (hstart b hb') (hstart _ hmem')
                (hstart r hmem) (hbefore b hb) (hafter r hr) hsame) (hnone b hb)
            · rwa [List.mem_singleton.mp hb] at hsame
        rw [if_neg fun h => hskip h.2]
        simp only [if_neg hdelimiter]
        rw [ih hsorted hstart hlength hpath', ← hmove]
        cases hdeleted : record.deleted with
        | true => rw [if_pos rfl, List.filter_cons_of_neg (by simp [hdeleted])]
        | false => rw [if_neg (by decide), List.filter_cons_of_pos (by simp [hdeleted, hfirst])]

theorem picked_eq {records : List ContainerRecord} (hsorted : ByName ContainerRecord.name records)
    (hstart : ∀ r ∈ records, namePrefix <+: utf8 r.name)
    (hlength : ∀ r ∈ records, (utf8 r.name).length ≤ 256) :
    picked namePrefix delimiter [] records = records.filter
      fun r => ! r.deleted && First namePrefix delimiter records r := by
  by_cases hdelimiter : delimiter = []
  · subst hdelimiter
    rw [picked_nil]
    refine List.filter_congr fun r _ => ?_
    have hfirst : First namePrefix [] records r := fun r' _ hgroup => by
      simp only [group, if_pos] at hgroup
      rw [hgroup]
      exact List.le_refl _
    simp [hfirst]
  · have hpicked : picked namePrefix delimiter [] records = records.filter
        fun r => ! r.deleted && First namePrefix delimiter ([] ++ records) r :=
      picked_append hdelimiter hsorted hstart hlength fun r _ => by simp
    exact hpicked

end

/-! ### The end marker -/

theorem lt_iff_take {n bytes : Bytes} (hlength : n.length ≤ 256) :
    n < bytes ↔ n < bytes.take 256 ∨ 256 < bytes.length ∧ n = bytes.take 256 := by
  have hcut : bytes.take 256 ≤ bytes := by
    conv_rhs => rw [← List.take_append_drop 256 bytes]
    exact List.le_append_left
  constructor
  · intro h
    have hle := take_le_take (List.le_of_lt h) 256
    rw [List.take_of_length_le hlength] at hle
    by_cases heq : n = bytes.take 256
    · refine .inr ⟨?_, heq⟩
      by_contra hshort
      rw [List.take_of_length_le (Nat.le_of_not_lt hshort)] at heq
      exact List.lt_irrefl _ (heq ▸ h)
    · refine .inl ?_
      by_contra hnot
      exact heq (List.le_antisymm hle (List.not_lt.mp hnot))
  · rintro (h | ⟨hlong, rfl⟩)
    · exact Std.lt_of_lt_of_le h hcut
    · by_contra hnot
      have heq : bytes.take 256 = bytes := List.le_antisymm hcut (List.not_lt.mp hnot)
      have hlen := congrArg List.length heq
      rw [List.length_take] at hlen
      omega

theorem beforeEnd_iff {endMarker n : Bytes} (hlength : n.length ≤ 256) :
    BeforeEnd endMarker n ↔ (endMarker = [] ∨ n < endMarker) ∧ ¬ CutOff endMarker n := by
  have hless : n < endMarker ↔ n < endMarker.take 256 ∨ CutOff endMarker n := lt_iff_take hlength
  rw [BeforeEnd, hless]
  constructor
  · rintro (rfl | h)
    · exact ⟨.inl rfl, fun hcut => absurd hcut.1 (by simp)⟩
    · exact ⟨.inr (.inl h), fun hcut => List.lt_irrefl _ (hcut.2 ▸ h)⟩
  · rintro ⟨h | h | h, hnot⟩
    · exact .inl h
    · exact .inr h
    · exact absurd h hnot

/-! ### The records that are gone over -/

theorem skips_of_behind {marker : Bytes} {r : ContainerRecord}
    (h : Behind ContainerRecord.name marker r) (isPrefix : Bool) :
    Skips ContainerRecord.name marker isPrefix r := by
  cases isPrefix with
  | false => exact h
  | true =>
      intro hin
      have hless : (utf8 r.name).take marker.length < marker := h
      rw [← List.prefix_iff_eq_take.mp hin] at hless
      exact List.lt_irrefl _ hless

/-- The sorted records that the iterator leaves out are those that the sorter goes over anyway. -/
theorem start_sortedIterator (file : AccountFile) (pattern : Bytes) (isPrefix : Bool) :
    start ContainerRecord.name pattern isPrefix (file.sortedIterator pattern) =
      start ContainerRecord.name pattern isPrefix file.sorted := by
  unfold sortedIterator
  split
  next => rfl
  next hpattern =>
    unfold start
    rw [if_neg hpattern, if_neg hpattern, dropWhile_drop]
    intro r hr
    have hbehind := (List.take_prefix_take_left (Nat.min_le_left _ _)).subset hr
    rw [← List.prefix_iff_eq_take.mp <| List.takeWhile_prefix _] at hbehind
    have hr' : Behind ContainerRecord.name pattern r := by
      simpa using List.mem_takeWhile_imp hbehind
    exact decide_eq_true (skips_of_behind hr' isPrefix)

theorem listed_sortedIterator (file : AccountFile) (pattern endMarker : Bytes) (isPrefix : Bool) :
    InfoFileSorter.listed ContainerRecord.name pattern endMarker isPrefix
      [file.sortedIterator pattern, sortedMap (·.name) file.unsorted] =
        InfoFileSorter.listed ContainerRecord.name pattern endMarker isPrefix file.iterators := by
  have hstart : [file.sortedIterator pattern, sortedMap (·.name) file.unsorted].map
      (start ContainerRecord.name pattern isPrefix) =
        file.iterators.map (start ContainerRecord.name pattern isPrefix) := by
    simp only [iterators, List.map_cons, start_sortedIterator]
  unfold InfoFileSorter.listed
  rw [hstart]

section

variable {getHash : String → String} {names : Set String} {file : AccountFile}

theorem Ordered.known_iterators (h : Ordered getHash names file) :
    ∀ it ∈ file.iterators, ∀ r ∈ it, Known getHash names r := by
  intro it hit r hr
  rcases List.mem_pair.mp hit with rfl | rfl
  · exact h.known_sorted r hr
  · exact h.known_unsorted r
      (List.mem_reverse.mp (List.mem_of_find?_eq_some (mem_sortedMap.mp hr)))

theorem short_of_known (hnaming : Naming getHash names) (hnonempty : "" ∉ names)
    {r : ContainerRecord} (hr : Known getHash names r) : Short ContainerRecord.name r := by
  refine ⟨fun hnil => hnonempty ?_, hnaming.length _ hr.name⟩
  have hempty : utf8 r.name = utf8 "" := hnil.trans (by decide +kernel)
  exact utf8_injective hempty ▸ hr.name

theorem Ordered.short (h : Ordered getHash names file) (hnaming : Naming getHash names)
    (hnonempty : "" ∉ names) : ∀ it ∈ file.iterators, ∀ r ∈ it, Short ContainerRecord.name r :=
  fun it hit r hr => short_of_known hnaming hnonempty (h.known_iterators it hit r hr)

theorem Ordered.byName (h : Ordered getHash names file) (hnaming : Naming getHash names) :
    ∀ it ∈ file.iterators, ByName ContainerRecord.name it := by
  intro it hit
  refine (h.strictlySorted hnaming it hit).imp_of_mem fun {r r'} hr hr' hlt => ?_
  rwa [hnaming.sortKey_eq (h.known_iterators it hit r hr).name,
    hnaming.sortKey_eq (h.known_iterators it hit r' hr').name] at hlt

theorem Ordered.known_current (h : Ordered getHash names file) {name : String} {r : ContainerRecord}
    (hcurrent : file.current name = some r) : Known getHash names r := by
  rcases Option.or_eq_some_iff.mp hcurrent with hfind | ⟨-, hfind⟩
  · exact h.known_unsorted r (List.mem_reverse.mp (List.mem_of_find?_eq_some hfind))
  · exact h.known_sorted r (List.mem_of_find?_eq_some hfind)

theorem latestOf_iterators (file : AccountFile) (name : String) :
    latestOf ContainerRecord.name name file.iterators = file.current name := by
  simp only [latestOf, iterators, List.foldl_cons, List.foldl_nil, Option.or_none,
    find_sortedMap, current]

/-- The records that the sorter returns if there is no end marker. -/
def merged (file : AccountFile) (marker namePrefix : Bytes) : List ContainerRecord :=
  fromStart ContainerRecord.name (if namePrefix < marker then marker else namePrefix)
    (decide (marker < namePrefix)) file.iterators

/-- The records that the loop comes to. -/
def within (file : AccountFile) (marker endMarker namePrefix : Bytes) : List ContainerRecord :=
  ((file.merged marker namePrefix).takeWhile fun r =>
    BeforeEnd endMarker (sortKey r.name)).takeWhile fun r => namePrefix <+: utf8 r.name

variable {count : Nat} {marker endMarker namePrefix delimiter : Bytes} {r : ContainerRecord}

theorem listContainer_eq : file.listContainer count marker endMarker namePrefix delimiter =
    limited count (picked namePrefix delimiter [] (file.within marker endMarker namePrefix)) := by
  unfold listContainer
  simp only
  rw [listed_sortedIterator, listed_eq, listLoop_eq]
  rfl

theorem Ordered.mem_merged (h : Ordered getHash names file) (hnaming : Naming getHash names)
    (hnonempty : "" ∉ names) (hr : Known getHash names r)
    (hselected : Selected marker endMarker namePrefix (utf8 r.name)) :
    r ∈ file.merged marker namePrefix ↔ file.current r.name = some r := by
  rw [← latestOf_iterators]
  exact mem_fromStart (h.byName hnaming) (h.short hnaming hnonempty)
    (short_of_known hnaming hnonempty hr) (fromStart_of_marker hselected.1 hselected.2.2)

theorem Ordered.le_of_mem_merged (h : Ordered getHash names file) (hnaming : Naming getHash names)
    (hnonempty : "" ∉ names) (hr : r ∈ file.merged marker namePrefix) :
    marker < utf8 r.name ∧ namePrefix ≤ utf8 r.name :=
  behind_marker (le_of_mem_fromStart (h.byName hnaming) (h.short hnaming hnonempty) hr)

theorem Ordered.mem_of_mem_merged (h : Ordered getHash names file)
    (hr : r ∈ file.merged marker namePrefix) : Known getHash names r := by
  obtain ⟨it', hit', hr⟩ := mem_of_mem_sorted hr
  obtain ⟨it, hit, rfl⟩ := List.mem_map.mp hit'
  exact h.known_iterators it hit r ((start_sublist _ _ it).subset hr)

theorem Ordered.byName_merged (h : Ordered getHash names file) (hnaming : Naming getHash names)
    (hnonempty : "" ∉ names) : ByName ContainerRecord.name (file.merged marker namePrefix) :=
  byName_fromStart (h.byName hnaming) (h.short hnaming hnonempty)

theorem Ordered.within_eq (h : Ordered getHash names file) (hnaming : Naming getHash names)
    (hnonempty : "" ∉ names) : file.within marker endMarker namePrefix =
      ((file.merged marker namePrefix).filter fun r => BeforeEnd endMarker (utf8 r.name)).filter
        fun r => namePrefix <+: utf8 r.name := by
  have hsorted : ByName ContainerRecord.name (file.merged marker namePrefix) :=
    h.byName_merged hnaming hnonempty
  have hkey : ∀ r ∈ file.merged marker namePrefix, sortKey r.name = utf8 r.name := fun r hr =>
    hnaming.sortKey_eq (h.mem_of_mem_merged hr).name
  have hend : (file.merged marker namePrefix).takeWhile
      (fun r => BeforeEnd endMarker (sortKey r.name)) =
        (file.merged marker namePrefix).filter fun r => BeforeEnd endMarker (utf8 r.name) :=
    takeWhile_beforeEnd hsorted hkey endMarker
  unfold within
  rw [hend]
  refine takeWhile_eq_filter ?_
  refine (hsorted.filter _).imp_of_mem fun {a b} ha _ hlt hstart => ?_
  have hle := (h.le_of_mem_merged hnaming hnonempty (List.mem_of_mem_filter ha)).2
  exact decide_eq_true (isPrefix_of_between hle (List.le_of_lt hlt) (List.prefix_refl _)
    (of_decide_eq_true hstart))

theorem Ordered.mem_within (h : Ordered getHash names file) (hnaming : Naming getHash names)
    (hnonempty : "" ∉ names) : r ∈ file.within marker endMarker namePrefix ↔
      file.current r.name = some r ∧ Selected marker endMarker namePrefix (utf8 r.name) ∧
        ¬ CutOff endMarker (utf8 r.name) := by
  rw [h.within_eq hnaming hnonempty, List.mem_filter, List.mem_filter, decide_eq_true_eq,
    decide_eq_true_eq]
  constructor
  · rintro ⟨⟨hin, hend⟩, hstart⟩
    have hknown : Known getHash names r := h.mem_of_mem_merged hin
    obtain ⟨hend, hcut⟩ := (beforeEnd_iff (hnaming.length _ hknown.name)).mp hend
    have hselected : Selected marker endMarker namePrefix (utf8 r.name) :=
      ⟨(h.le_of_mem_merged hnaming hnonempty hin).1, hend, hstart⟩
    exact ⟨(h.mem_merged hnaming hnonempty hknown hselected).mp hin, hselected, hcut⟩
  · rintro ⟨hcurrent, hselected, hcut⟩
    have hknown : Known getHash names r := h.known_current hcurrent
    exact ⟨⟨(h.mem_merged hnaming hnonempty hknown hselected).mpr hcurrent,
      (beforeEnd_iff (hnaming.length _ hknown.name)).mpr ⟨hselected.2.1, hcut⟩⟩, hselected.2.2⟩

/-! ### What the listing returns -/

theorem Entries.unique {entries entries' : List ContainerRecord}
    (h : Entries file marker endMarker namePrefix delimiter entries)
    (h' : Entries file marker endMarker namePrefix delimiter entries') : entries = entries' :=
  h.sorted.eq_of_mem_iff h'.sorted fun r => (h.mem r).trans (h'.mem r).symm

theorem Ordered.exists_entries (h : Ordered getHash names file) (hnaming : Naming getHash names)
    (hnonempty : "" ∉ names) (marker endMarker namePrefix delimiter : Bytes) :
    ∃ entries, Entries file marker endMarker namePrefix delimiter entries := by
  classical
  refine ⟨(file.merged marker namePrefix).filter
    fun r => Entry file marker endMarker namePrefix delimiter r, ?_, fun r => ?_⟩
  · have hsorted : ByName ContainerRecord.name (file.merged marker namePrefix) :=
      h.byName_merged hnaming hnonempty
    exact hsorted.filter _
  · rw [List.mem_filter, decide_eq_true_eq, and_iff_right_iff_imp]
    rintro ⟨hlive, hselected, -⟩
    have hcurrent : file.current r.name = some r := (Option.filter_eq_some_iff.mp hlive).1
    exact (h.mem_merged hnaming hnonempty (h.known_current hcurrent) hselected).mpr hcurrent

open Classical in
/-- The loop takes the entries with no deleted container in front of them. -/
theorem Ordered.picked_within (h : Ordered getHash names file) (hnaming : Naming getHash names)
    (hnonempty : "" ∉ names) {entries : List ContainerRecord}
    (hentries : Entries file marker endMarker namePrefix delimiter entries) :
    picked namePrefix delimiter [] (file.within marker endMarker namePrefix) =
      entries.filter fun r => Shown file marker endMarker namePrefix delimiter r := by
  have hmem : ∀ r, r ∈ file.within marker endMarker namePrefix ↔ file.current r.name = some r ∧
      Selected marker endMarker namePrefix (utf8 r.name) ∧ ¬ CutOff endMarker (utf8 r.name) :=
    fun r => h.mem_within hnaming hnonempty
  have hsorted : ByName ContainerRecord.name (file.within marker endMarker namePrefix) := by
    rw [h.within_eq hnaming hnonempty]
    exact ((h.byName_merged hnaming hnonempty).filter _).filter _
  have hlength : ∀ r ∈ file.within marker endMarker namePrefix, (utf8 r.name).length ≤ 256 :=
    fun r hr => hnaming.length _ (h.known_current ((hmem r).mp hr).1).name
  -- what the end marker cuts off comes last
  have hlast : ∀ r ∈ file.within marker endMarker namePrefix, ∀ r' : ContainerRecord,
      CutOff endMarker (utf8 r'.name) → utf8 r.name < utf8 r'.name := by
    intro r hr r' hcut
    have hend := (beforeEnd_iff (hlength r hr)).mpr
      ⟨((hmem r).mp hr).2.1.2.1, ((hmem r).mp hr).2.2⟩
    rw [hcut.2]
    exact hend.resolve_left fun hnil => absurd hcut.1 (by simp [hnil])
  rw [picked_eq hsorted (fun r hr => ((hmem r).mp hr).2.1.2.2) hlength]
  have hpicked : ByName ContainerRecord.name ((file.within marker endMarker namePrefix).filter
      fun r => ! r.deleted &&
        First namePrefix delimiter (file.within marker endMarker namePrefix) r) := hsorted.filter _
  refine hpicked.eq_of_mem_iff (hentries.sorted.filter _) fun r => ?_
  rw [List.mem_filter, List.mem_filter, hentries.mem, Bool.and_eq_true, decide_eq_true_eq,
    decide_eq_true_eq, Bool.not_eq_true']
  constructor
  · rintro ⟨hr, hdeleted, hfirst⟩
    obtain ⟨hcurrent, hselected, hcut⟩ := (hmem r).mp hr
    have hle : ∀ r', file.current r'.name = some r' →
        Selected marker endMarker namePrefix (utf8 r'.name) →
          group namePrefix delimiter (utf8 r'.name) = group namePrefix delimiter (utf8 r.name) →
            utf8 r.name ≤ utf8 r'.name := by
      intro r' hcurrent' hselected' hgroup
      by_cases hcut' : CutOff endMarker (utf8 r'.name)
      · exact List.le_of_lt (hlast r hr r' hcut')
      · exact hfirst r' ((hmem r').mpr ⟨hcurrent', hselected', hcut'⟩) hgroup
    refine ⟨⟨?_, hselected, fun r' hlive' => hle r' (Option.filter_eq_some_iff.mp hlive').1⟩,
      fun r' hcurrent' hdeleted' hselected' hgroup => ?_, hcut⟩
    · exact Option.filter_eq_some_iff.mpr ⟨hcurrent, by simp [hdeleted]⟩
    · by_contra hnot
      have heq : utf8 r'.name = utf8 r.name :=
        List.le_antisymm (List.not_lt.mp hnot) (hle r' hcurrent' hselected' hgroup)
      rw [utf8_injective heq, hcurrent] at hcurrent'
      rw [Option.some.inj hcurrent', hdeleted'] at hdeleted
      cases hdeleted
  · rintro ⟨⟨hlive, hselected, hfirst⟩, hshown, hcut⟩
    obtain ⟨hcurrent, hdeleted⟩ := Option.filter_eq_some_iff.mp hlive
    refine ⟨(hmem r).mpr ⟨hcurrent, hselected, hcut⟩, by simpa using hdeleted, ?_⟩
    intro r' hr' hgroup
    obtain ⟨hcurrent', hselected', -⟩ := (hmem r').mp hr'
    cases hdeleted' : r'.deleted with
    | true => exact List.le_of_lt (hshown r' hcurrent' hdeleted' hselected' hgroup)
    | false =>
        exact hfirst r' (Option.filter_eq_some_iff.mpr ⟨hcurrent', by simp [hdeleted']⟩)
          hselected' hgroup

theorem limited_filter_iff {p : ContainerRecord → Bool} {entries : List ContainerRecord} :
    limited count (entries.filter p) = limited count entries ↔
      ∀ r ∈ limited count entries, p r := by
  unfold limited
  split
  next => exact List.filter_eq_self
  next => exact take_filter_eq_take_iff

/-- In every file of an account, the listing returns the first entries of the containers asked for,
as many as the count says, if and only if none of them has a deleted container of its group in front
of it or is the name that the end marker is cut off to. -/
theorem list_container_lists_iff (hnaming : Naming getHash names) (hnonempty : "" ∉ names)
    {stat : AccountStat} {operations : List Operation}
    (halong : Along AccountFile.step (Admitted getHash names) (createAccount stat) operations)
    (hrun : run AccountFile.step (createAccount stat) operations = some file)
    (count : Nat) (marker endMarker namePrefix delimiter : Bytes) :
    (∃ entries, Entries file marker endMarker namePrefix delimiter entries ∧
      file.listContainer count marker endMarker namePrefix delimiter = limited count entries) ↔
        ∀ entries, Entries file marker endMarker namePrefix delimiter entries →
          ∀ r ∈ limited count entries, Shown file marker endMarker namePrefix delimiter r := by
  classical
  have hordered := (run_ordered hnaming halong hrun).2
  obtain ⟨entries, hentries⟩ :=
    hordered.exists_entries hnaming hnonempty marker endMarker namePrefix delimiter
  have hlist : file.listContainer count marker endMarker namePrefix delimiter =
      limited count entries ↔
        ∀ r ∈ limited count entries, Shown file marker endMarker namePrefix delimiter r := by
    rw [listContainer_eq, hordered.picked_within hnaming hnonempty hentries, limited_filter_iff]
    simp
  constructor
  · rintro ⟨entries', hentries', hlisted⟩ entries'' hentries''
    rw [← hentries.unique hentries'']
    rw [← hentries.unique hentries'] at hlisted
    exact hlist.mp hlisted
  · exact fun hshown => ⟨entries, hentries, hlist.mpr (hshown entries hentries)⟩

end


/-! ### A deleted container in front of a live one -/

/-- Two containers with one path are added, and the first one is deleted. -/
def firstDeleted : List Operation :=
  [.addContainer ⟨"a/1", "a/1", 1, 1, false⟩, .addContainer ⟨"a/2", "a/2", 2, 2, false⟩,
    .deleteContainer ⟨"a/1", "a/1", 1, 1, false⟩]

theorem naming_slash : Naming id {name | name ∈ ["a/1", "a/2"]} where
  hash := fun _ _ _ _ h => h
  length := by
    show ∀ name ∈ ["a/1", "a/2"], (utf8 name).length ≤ 256
    decide +kernel

theorem along_firstDeleted : Along AccountFile.step (Admitted id {name | name ∈ ["a/1", "a/2"]})
    (createAccount .zero) firstDeleted := by
  have hpassed : ∀ record : ContainerRecord, record.name ∈ ["a/1", "a/2"] →
      record.hash = record.name →
        ∀ r ∈ [record], Known id {name | name ∈ ["a/1", "a/2"]} r := fun record hname hhash r hr =>
    List.mem_singleton.mp hr ▸ ⟨hname, hhash⟩
  exact ⟨⟨trivial, hpassed _ (by simp) rfl⟩, fun _ _ => ⟨⟨trivial, hpassed _ (by simp) rfl⟩,
    fun _ _ => ⟨⟨trivial, hpassed _ (by simp) rfl⟩, fun _ _ => trivial⟩⟩⟩

theorem list_container_lists_slash :
    ∃ file, run AccountFile.step (createAccount .zero) firstDeleted = some file ∧
      ((∃ entries, Entries file [] [] [] [47] entries ∧
        file.listContainer 1 [] [] [] [47] = limited 1 entries) ↔
          ∀ entries, Entries file [] [] [] [47] entries →
            ∀ r ∈ limited 1 entries, Shown file [] [] [] [47] r) := by
  obtain ⟨file, hrun⟩ : ∃ file,
      run AccountFile.step (createAccount .zero) firstDeleted = some file := ⟨_, rfl⟩
  exact ⟨file, hrun, list_container_lists_iff naming_slash (by simp) along_firstDeleted hrun
    1 [] [] [] [47]⟩

/-- With the delimiter `/` the deleted container hides the live one, and nothing is listed. -/
theorem list_container_hides_live :
    ∃ file, run AccountFile.step (createAccount .zero) firstDeleted = some file ∧
      file.live "a/2" = some ⟨"a/2", "a/2", 2, 2, false⟩ ∧
      file.listContainer 0 [] [] [] [47] = [] ∧
      ¬ ∃ entries, Entries file [] [] [] [47] entries ∧
        file.listContainer 0 [] [] [] [47] = limited 0 entries := by
  obtain ⟨file, hrun, hlive, hlisted, hblocks⟩ : ∃ file,
      run AccountFile.step (createAccount .zero) firstDeleted = some file ∧
        file.live "a/2" = some ⟨"a/2", "a/2", 2, 2, false⟩ ∧
        file.listContainer 0 [] [] [] [47] = [] ∧
        ∀ r ∈ file.unsorted ++ file.sorted, r.deleted = false → utf8 "a/2" ≤ utf8 r.name :=
    ⟨_, rfl, by decide +kernel⟩
  refine ⟨file, hrun, hlive, hlisted, fun ⟨entries, hentries, heq⟩ => ?_⟩
  have hentry : Entry file [] [] [] [47] ⟨"a/2", "a/2", 2, 2, false⟩ := by
    refine ⟨hlive, ⟨by decide +kernel, .inl rfl, List.nil_prefix⟩, fun r' hlive' _ _ => ?_⟩
    obtain ⟨hcurrent, hdeleted⟩ := Option.filter_eq_some_iff.mp hlive'
    refine hblocks r' ?_ (by simpa using hdeleted)
    rcases Option.or_eq_some_iff.mp hcurrent with hfind | ⟨-, hfind⟩
    · exact List.mem_append_left _ (List.mem_reverse.mp (List.mem_of_find?_eq_some hfind))
    · exact List.mem_append_right _ (List.mem_of_find?_eq_some hfind)
  have hin := (hentries.mem _).mpr hentry
  rw [hlisted] at heq
  have hnone : entries = [] := heq.symm
  rw [hnone] at hin
  cases hin

end AccountFile

end ObjectStorage.AccountInfo
