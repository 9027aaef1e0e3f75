import ObjectStorage.AccountInfo.AccountRegions
import ObjectStorage.AccountInfo.ContainerState

/-!
An update of a list leaves every container of the list in the given state and the others as they
are, unless the list contradicts itself, does not fit into the file, or has a container whose last
unsorted record is deleted and whose sorted record is not: then the sorted record is updated, which
nobody sees.
-/

namespace ObjectStorage.AccountInfo

open Std Library InfoFile

variable {getHash : String → String} {names : Set String}

namespace AccountFile

variable {file : AccountFile} {records : List ContainerRecord}

/-! ### Updates in place -/

theorem known_of_keys {blocks blocks' : List ContainerRecord}
    (hkeys : blocks'.map (·.key) = blocks.map (·.key))
    (h : ∀ r ∈ blocks, Known getHash names r) : ∀ r ∈ blocks', Known getHash names r := by
  intro r hr
  have hin : r.key ∈ blocks.map (·.key) := hkeys ▸ List.mem_map_of_mem hr
  obtain ⟨r₀, hr₀, hkey⟩ := List.mem_map.mp hin
  have hname : r₀.name = r.name := congrArg Prod.fst hkey
  have hhash : r₀.hash = r.hash := congrArg Prod.snd hkey
  exact ⟨hname ▸ (h r₀ hr₀).name, hhash ▸ hname ▸ (h r₀ hr₀).hash⟩

theorem strictlySorted_of_keys {blocks blocks' : List ContainerRecord}
    (hkeys : blocks'.map (·.key) = blocks.map (·.key)) (h : StrictlySorted (·.name) blocks) :
    StrictlySorted (·.name) blocks' := by
  have hpairs : ∀ l : List ContainerRecord, StrictlySorted (·.name) l ↔
      (l.map (·.key)).Pairwise fun k k' => sortKey k.1 < sortKey k'.1 := by
    intro l
    rw [List.pairwise_map]
    rfl
  rw [hpairs, hkeys, ← hpairs]
  exact h

/-- The records of the list that no unsorted record is updated by. -/
def leftUnsorted (file : AccountFile) (records : List ContainerRecord) : List ContainerRecord :=
  (updateUnsorted file.unsorted records).2

/-- The update of the sorted part. -/
def sortedUpdate (file : AccountFile) (records : List ContainerRecord) : SortedUpdate :=
  updateSorted maxReadNonStaticRecord file.trailer.sortedRecord 0 file.sorted
    (file.leftUnsorted records)

theorem left_subset (file : AccountFile) (records : List ContainerRecord) :
    (file.sortedUpdate records).records ⊆ records :=
  List.Subset.trans (updateSorted_keys maxReadNonStaticRecord file.trailer.sortedRecord 0
    file.sorted (file.leftUnsorted records)).2 (updateBlocks_keys file.unsorted.reverse records).2

theorem updateUnsorted_keys (blocks records : List ContainerRecord) :
    (updateUnsorted blocks records).1.map (·.key) = blocks.map (·.key) := by
  have hkeys := (updateBlocks_keys blocks.reverse records).1
  rw [updateUnsorted, List.map_reverse, hkeys, List.map_reverse, List.reverse_reverse]

theorem Ordered.updateExisting_blocks (h : Ordered getHash names file)
    (records : List ContainerRecord) :
    (file.updateExisting records).1.sorted = (file.sortedUpdate records).blocks ∧
      (file.updateExisting records).1.unsorted = (updateUnsorted file.unsorted records).1 := by
  have hsorted := congrArg List.length
    (updateSorted_keys maxReadNonStaticRecord file.trailer.sortedRecord 0 file.sorted
      (file.leftUnsorted records)).1
  have hunsorted := congrArg List.length (updateUnsorted_keys file.unsorted records)
  rw [List.length_map, List.length_map] at hsorted hunsorted
  have hlength : (file.sortedUpdate records).blocks.length = file.trailer.sortedRecord :=
    hsorted.trans h.length_sorted
  have hrest : (updateUnsorted file.unsorted records).1.length ≤ file.trailer.unsortedRecord := by
    rw [hunsorted]
    exact List.length_take_le _ _
  constructor
  · exact List.take_left' hlength
  · show (((file.sortedUpdate records).blocks ++ (updateUnsorted file.unsorted records).1).drop
      file.trailer.sortedRecord).take file.trailer.unsortedRecord = _
    rw [List.drop_left' hlength, List.take_of_length_le hrest]

theorem Ordered.updateExisting (h : Ordered getHash names file)
    (records : List ContainerRecord) :
    Ordered getHash names (file.updateExisting records).1 := by
  obtain ⟨hsorted, hunsorted⟩ := h.updateExisting_blocks records
  have hkeys := (updateSorted_keys maxReadNonStaticRecord file.trailer.sortedRecord 0 file.sorted
    (file.leftUnsorted records)).1
  have hkeys' := updateUnsorted_keys file.unsorted records
  refine ⟨?_, ?_, fun r hr => ?_⟩
  · have hlength := congrArg List.length hkeys
    have hlength' := congrArg List.length hkeys'
    rw [List.length_map, List.length_map] at hlength hlength'
    have hall := h.length
    have hshort := h.length_sorted
    have hdrop := congrArg List.length h.unsorted_eq
    rw [List.length_drop] at hdrop
    simp only [AccountFile.updateExisting, List.length_append]
    rw [leftUnsorted] at hlength
    omega
  · rw [hsorted]
    exact strictlySorted_of_keys hkeys h.sorted
  · rcases List.mem_append.mp hr with hin | hin
    · exact known_of_keys hkeys h.known_sorted r hin
    · exact known_of_keys hkeys' h.known_unsorted r hin

/-- The last unsorted record of the container is deleted, and its sorted record is not. -/
def Shadowed (file : AccountFile) (r : ContainerRecord) : Prop :=
  r.deleted = false ∧
    (∃ t, (file.unsorted.reverse.find? fun t => t.name = r.name) = some t ∧ t.deleted = true) ∧
    ∃ t, (file.sorted.find? fun t => t.name = r.name) = some t ∧ t.deleted = false

theorem Ordered.current_eq (h : Ordered getHash names file) (hnaming : Naming getHash names)
    {name : String} (hname : name ∈ names) : file.current name =
      (findHash (getHash name) file.unsorted.reverse).or (findHash (getHash name) file.sorted) := by
  have hreverse : ∀ t ∈ file.unsorted.reverse, Known getHash names t := fun t ht =>
    h.known_unsorted t (List.mem_reverse.mp ht)
  rw [current, hnaming.find_name hreverse hname, hnaming.find_name h.known_sorted hname]

theorem Ordered.shadowed_iff (h : Ordered getHash names file) (hnaming : Naming getHash names)
    {r : ContainerRecord} (hr : Known getHash names r) : file.Shadowed r ↔
      r.deleted = false ∧ (∃ t, findHash r.hash file.unsorted.reverse = some t ∧ t.deleted = true) ∧
        ∃ t, findHash r.hash file.sorted = some t ∧ t.deleted = false := by
  have hreverse : ∀ t ∈ file.unsorted.reverse, Known getHash names t := fun t ht =>
    h.known_unsorted t (List.mem_reverse.mp ht)
  rw [Shadowed, hnaming.find_name hreverse hr.name, hnaming.find_name h.known_sorted hr.name,
    hr.hash]

theorem Ordered.nodup_hash (h : Ordered getHash names file) (hnaming : Naming getHash names) :
    (file.sorted.map (·.hash)).Nodup := by
  refine List.pairwise_map.mpr (h.sorted.imp_of_mem fun {a b} ha hb hlt heq => ?_)
  have hka := h.known_sorted a ha
  have hkb := h.known_sorted b hb
  rw [hka.hash, hkb.hash] at heq
  simp only [hnaming.hash hka.name hkb.name heq] at hlt
  exact List.lt_irrefl _ hlt

theorem Ordered.applied (h : Ordered getHash names file) (hnaming : Naming getHash names)
    (hagree : Agreeing records) :
    Applied file.unsorted.reverse (updateUnsorted file.unsorted records).1.reverse records
      (file.leftUnsorted records) ∧
    Applied file.sorted (file.sortedUpdate records).blocks (file.leftUnsorted records)
      (file.sortedUpdate records).records := by
  have hU := applied_updateBlocks file.unsorted.reverse hagree
  have hpos : 0 < maxReadNonStaticRecord := by decide
  have hS := applied_updateSorted hpos 0 h.length_sorted.le (h.nodup_hash hnaming)
    (hagree.subset hU.subset)
  rw [← List.reverse_reverse (updateBlocks file.unsorted.reverse records).1] at hU
  exact ⟨hU, hS⟩

/-- What an update in place does to a record of the list: it becomes the state of its container, or
it is left and its container is not live, or it is lost in the sorted part. -/
theorem Ordered.updateExisting_cases (h : Ordered getHash names file)
    (hnaming : Naming getHash names) (hknown : ∀ r ∈ records, Known getHash names r)
    (hagree : Agreeing records) {r : ContainerRecord} (hr : r ∈ records) :
    (∃ t, (file.updateExisting records).1.current r.name = some t ∧ Carries r t ∧
      (∀ r' ∈ (file.sortedUpdate records).records, r'.hash ≠ r.hash) ∧ ¬ file.Shadowed r) ∨
    (r ∈ (file.sortedUpdate records).records ∧
      (file.updateExisting records).1.live r.name = none ∧ ¬ file.Shadowed r) ∨
    (file.Shadowed r ∧ (file.updateExisting records).1.live r.name = none ∧
      ∀ r' ∈ (file.sortedUpdate records).records, r'.hash ≠ r.hash) := by
  have hkr := hknown r hr
  obtain ⟨hsorted, hunsorted⟩ := h.updateExisting_blocks records
  obtain ⟨hU, hS⟩ := h.applied hnaming hagree
  have hcurrent := (h.updateExisting records).current_eq hnaming hkr.name
  rw [hsorted, hunsorted, ← hkr.hash] at hcurrent
  have hrefuses : ∀ t, ¬ Accepts r t → r.deleted = false ∧ t.deleted = true := by
    intro t hnot
    unfold Accepts at hnot
    cases hd : r.deleted <;> cases ht : t.deleted <;> simp_all
  have hnotlive : ∀ t, (file.updateExisting records).1.current r.name = some t → t.deleted = true →
      (file.updateExisting records).1.live r.name = none := by
    intro t ht hdeleted
    rw [live, ht, Option.filter_some, if_neg (by simp [hdeleted])]
  rw [h.shadowed_iff hnaming hkr]
  cases hu : findHash r.hash file.unsorted.reverse with
  | some t =>
      by_cases haccepts : Accepts r t
      · obtain ⟨hleft, t', ht', hcarries⟩ := hU.accepted r hr t hu haccepts
        refine .inl ⟨t', by rw [hcurrent, ht', Option.some_or], hcarries,
          fun r' hr' => hleft r' (hS.subset hr'), ?_⟩
        rintro ⟨hlive, ⟨t₀, ht₀, hdeleted⟩, -⟩
        obtain rfl := Option.some.inj ht₀
        rcases haccepts with hd | hd
        · rw [hlive] at hd
          cases hd
        · rw [hdeleted] at hd
          cases hd
      · obtain ⟨hlive, hdeleted⟩ := hrefuses t haccepts
        obtain ⟨hin, hsame⟩ := hU.refused r hr fun t₀ ht₀ => by
          rw [hu] at ht₀
          exact Option.some.inj ht₀ ▸ haccepts
        rw [hsame, hu, Option.some_or] at hcurrent
        have hnone := hnotlive t hcurrent hdeleted
        by_cases hsorted' : ∃ s, findHash r.hash file.sorted = some s ∧ s.deleted = false
        · obtain ⟨s, hs, hslive⟩ := hsorted'
          obtain ⟨hleft, -⟩ := hS.accepted r hin s hs (.inr hslive)
          exact .inr (.inr ⟨⟨hlive, ⟨t, rfl, hdeleted⟩, s, hs, hslive⟩, hnone, hleft⟩)
        · refine .inr (.inl ⟨(hS.refused r hin fun s hs haccepts' => ?_).1, hnone,
            fun hshadowed => hsorted' hshadowed.2.2⟩)
          rcases haccepts' with hd | hd
          · rw [hlive] at hd
            cases hd
          · exact hsorted' ⟨s, hs, hd⟩
  | none =>
      obtain ⟨hin, hsame⟩ := hU.refused r hr fun t ht => by
        rw [hu] at ht
        cases ht
      rw [hsame, hu, Option.none_or] at hcurrent
      have hnot : ¬ (r.deleted = false ∧ (∃ t, (none : Option ContainerRecord) = some t ∧
          t.deleted = true) ∧ ∃ t, findHash r.hash file.sorted = some t ∧ t.deleted = false) := by
        rintro ⟨-, ⟨t, ht, -⟩, -⟩
        cases ht
      by_cases haccepted : ∃ s, findHash r.hash file.sorted = some s ∧ Accepts r s
      · obtain ⟨s, hs, haccepts⟩ := haccepted
        obtain ⟨hleft, t', ht', hcarries⟩ := hS.accepted r hin s hs haccepts
        exact .inl ⟨t', by rw [hcurrent, ht'], hcarries, hleft, hnot⟩
      · obtain ⟨hin', hsame'⟩ := hS.refused r hin fun s hs haccepts => haccepted ⟨s, hs, haccepts⟩
        refine .inr (.inl ⟨hin', ?_, hnot⟩)
        cases hs : findHash r.hash file.sorted with
        | none => rw [live, hcurrent, hsame', hs, Option.filter_none]
        | some s =>
            refine hnotlive s (by rw [hcurrent, hsame', hs]) ?_
            exact (hrefuses s fun haccepts => haccepted ⟨s, hs, haccepts⟩).2

/-! ### Updates of lists -/

theorem live_updateContainer (h : Ordered getHash names file) (hnaming : Naming getHash names)
    (hknown : ∀ r ∈ records, Known getHash names r) (name : String) :
    (file.updateContainer records).live name =
      (((file.sortedUpdate records).records.filter (! ·.deleted)).reverse.find?
        fun r => r.name = name).or ((file.updateExisting records).1.live name) := by
  have hrest : (file.updateExisting records).2 =
      (file.sortedUpdate records).records.filter (! ·.deleted) := rfl
  unfold updateContainer
  simp only
  rw [← hrest]
  split
  next hnil => rw [hnil, List.reverse_nil, List.find?_nil, Option.none_or]
  next =>
    have hleft : ∀ r ∈ (file.updateExisting records).2, Known getHash names r := fun r hr =>
      hknown r (left_subset file records (List.mem_of_mem_filter hr))
    rw [(h.updateExisting records).live_addContainerInternal hnaming hleft]
    split
    next r hr =>
      have hlive : r.deleted = false := by
        have hin : r ∈ (file.sortedUpdate records).records.filter (! ·.deleted) :=
          hrest ▸ List.mem_reverse.mp (List.mem_of_find?_eq_some hr)
        have hkept := (List.mem_filter.mp hin).2
        simpa using hkept
      rw [hr, Option.some_or, Option.filter_some, if_pos (by simp [hlive])]
    next hnone => rw [hnone, Option.none_or]

theorem Ordered.current_updateExisting (h : Ordered getHash names file)
    (hnaming : Naming getHash names) (hknown : ∀ r ∈ records, Known getHash names r)
    (hagree : Agreeing records) {name : String} (hother : ∀ r ∈ records, r.name ≠ name) :
    (file.updateExisting records).1.current name = file.current name := by
  have hupdated := h.updateExisting records
  obtain ⟨hsorted, hunsorted⟩ := h.updateExisting_blocks records
  obtain ⟨hU, hS⟩ := h.applied hnaming hagree
  by_cases hname : name ∈ names
  · have hhash : ∀ r ∈ records, r.hash ≠ getHash name := fun r hr heq =>
      hother r hr (hnaming.hash (hknown r hr).name hname ((hknown r hr).hash ▸ heq))
    rw [hupdated.current_eq hnaming hname, h.current_eq hnaming hname, hsorted, hunsorted,
      hU.others _ hhash, hS.others _ fun r hr => hhash r (hU.subset hr)]
  · have hnone : ∀ f : AccountFile, Ordered getHash names f → f.current name = none := by
      intro f hf
      rw [current,
        find_name_eq_none (fun t ht => hf.known_unsorted t (List.mem_reverse.mp ht)) hname,
        find_name_eq_none hf.known_sorted hname, Option.none_or]
    rw [hnone _ hupdated, hnone _ h]

/-- The update leaves the file in one piece, the containers of the list in the given states and the
others as they are. -/
structure Updated (file : AccountFile) (records : List ContainerRecord) (file' : AccountFile) :
    Prop where
  kept : RegionsKept file'
  live : ∀ r ∈ records, r.deleted = false → ∃ t, file'.live r.name = some t ∧
    t.objectCount = r.objectCount ∧ t.bytesUsed = r.bytesUsed
  deleted : ∀ r ∈ records, r.deleted = true → file'.live r.name = none
  others : ∀ name, (∀ r ∈ records, r.name ≠ name) → file'.live name = file.live name

theorem Regular.kept_iff (h : Regular file) (records : List ContainerRecord) :
    RegionsKept (file.updateContainer records) ↔
      NewContainersFit file (.updateContainer records) := by
  have hstep : file.step (.updateContainer records) = some (file.updateContainer records) := rfl
  rw [← h.updateContainer_iff]
  exact ⟨fun hkept => h.of_regionsKept hstep hkept, fun hregular => hregular.regionsKept⟩

/-- A list by which the file can be updated does not contradict itself. -/
theorem Updated.agreeing {file' : AccountFile} (h : Updated file records file')
    (hsame : ∀ r ∈ records, ∀ r' ∈ records, r.hash = r'.hash → r.name = r'.name) :
    Agreeing records := by
  intro r hr r' hr' hhash
  have hname := hsame r hr r' hr' hhash
  cases hd : r.deleted with
  | false =>
      obtain ⟨t, ht, hcount, hbytes⟩ := h.live r hr hd
      cases hd' : r'.deleted with
      | true =>
          rw [hname, h.deleted r' hr' hd'] at ht
          cases ht
      | false =>
          obtain ⟨t', ht', hcount', hbytes'⟩ := h.live r' hr' hd'
          rw [← hname, ht] at ht'
          obtain rfl := Option.some.inj ht'
          exact ⟨by rw [hd, hd'], fun _ => ⟨hcount'.symm.trans hcount, hbytes'.symm.trans hbytes⟩⟩
  | true =>
      have hnone := h.deleted r hr hd
      cases hd' : r'.deleted with
      | true => exact ⟨by rw [hd, hd'], fun hlive => by rw [hd] at hlive; cases hlive⟩
      | false =>
          obtain ⟨t, ht, -⟩ := h.live r' hr' hd'
          rw [← hname, hnone] at ht
          cases ht

theorem Ordered.updated_iff (h : Ordered getHash names file) (hregular : Regular file)
    (hnaming : Naming getHash names) (hknown : ∀ r ∈ records, Known getHash names r) :
    Updated file records (file.updateContainer records) ↔
      NewContainersFit file (.updateContainer records) ∧ Agreeing records ∧
        ∀ r ∈ records, ¬ file.Shadowed r := by
  have hfinal := live_updateContainer h hnaming hknown
  have hsubset : ∀ r' ∈ ((file.sortedUpdate records).records.filter (! ·.deleted)).reverse,
      r' ∈ (file.sortedUpdate records).records ∧ r' ∈ records ∧ r'.deleted = false := by
    intro r' hr'
    obtain ⟨hin, hlive⟩ := List.mem_filter.mp (List.mem_reverse.mp hr')
    exact ⟨hin, left_subset file records hin, by simpa using hlive⟩
  have hsame : ∀ r ∈ records, ∀ r' ∈ records, r.hash = r'.hash ↔ r.name = r'.name := by
    intro r hr r' hr'
    rw [(hknown r hr).hash, (hknown r' hr').hash,
      hnaming.hash.eq_iff (hknown r hr).name (hknown r' hr').name]
  -- when no record of the container is left, its record in place decides
  have hinplace : ∀ r ∈ records, (∀ r' ∈ (file.sortedUpdate records).records, r'.hash ≠ r.hash) →
      (file.updateContainer records).live r.name = (file.updateExisting records).1.live r.name := by
    intro r hr hnone
    rw [hfinal, List.find?_eq_none.mpr, Option.none_or]
    intro r' hr' heq
    obtain ⟨hin, hlisted, -⟩ := hsubset r' hr'
    exact hnone r' hin ((hsame r' hlisted r hr).mpr (of_decide_eq_true heq))
  constructor
  · intro hup
    have hagree := hup.agreeing fun r hr r' hr' => (hsame r hr r' hr').mp
    refine ⟨(hregular.kept_iff records).mp hup.kept, hagree, fun r hr hshadowed => ?_⟩
    obtain ⟨t, ht, -⟩ := hup.live r hr hshadowed.1
    rcases h.updateExisting_cases hnaming hknown hagree hr with
      ⟨-, -, -, -, hnot⟩ | ⟨-, -, hnot⟩ | ⟨-, hnone, hleft⟩
    · exact hnot hshadowed
    · exact hnot hshadowed
    · rw [hinplace r hr hleft, hnone] at ht
      cases ht
  · rintro ⟨hfit, hagree, hvisible⟩
    refine ⟨(hregular.kept_iff records).mpr hfit, fun r hr hlive => ?_, fun r hr hdeleted => ?_,
      fun name hother => ?_⟩
    · rcases h.updateExisting_cases hnaming hknown hagree hr with
        ⟨t, ht, hcarries, hleft, -⟩ | ⟨hin, hnone, -⟩ | ⟨hshadowed, -⟩
      · refine ⟨t, ?_, hcarries.values hlive⟩
        rw [hinplace r hr hleft, AccountFile.live, ht, Option.filter_some,
          if_pos (by simp [hcarries.deleted, hlive])]
      · cases hfind : ((file.sortedUpdate records).records.filter (! ·.deleted)).reverse.find?
            fun r' => r'.name = r.name with
        | none =>
            have hin' : r ∈ ((file.sortedUpdate records).records.filter (! ·.deleted)).reverse :=
              List.mem_reverse.mpr (List.mem_filter.mpr ⟨hin, by simp [hlive]⟩)
            exact absurd (decide_eq_true rfl) (List.find?_eq_none.mp hfind r hin')
        | some r' =>
            have hname : r'.name = r.name := by simpa using List.find?_some hfind
            obtain ⟨-, hlisted, -⟩ := hsubset r' (List.mem_of_find?_eq_some hfind)
            refine ⟨r', by rw [hfinal, hfind, Option.some_or], ?_⟩
            exact (hagree r hr r' hlisted ((hsame r hr r' hlisted).mpr hname.symm)).values hlive
      · exact absurd hshadowed (hvisible r hr)
    · rcases h.updateExisting_cases hnaming hknown hagree hr with
        ⟨t, ht, hcarries, hleft, -⟩ | ⟨-, hnone, -⟩ | ⟨hshadowed, -⟩
      · rw [hinplace r hr hleft, AccountFile.live, ht, Option.filter_some,
          if_neg (by simp [hcarries.deleted, hdeleted])]
      · rw [hfinal, hnone, Option.or_none]
        refine List.find?_eq_none.mpr fun r' hr' heq => ?_
        obtain ⟨-, hlisted, hlive⟩ := hsubset r' hr'
        have hname : r'.name = r.name := of_decide_eq_true heq
        have hcarries := hagree r hr r' hlisted ((hsame r hr r' hlisted).mpr hname.symm)
        rw [hcarries.deleted, hdeleted] at hlive
        cases hlive
      · rw [hshadowed.1] at hdeleted
        cases hdeleted
    · rw [hfinal, List.find?_eq_none.mpr, Option.none_or, AccountFile.live, AccountFile.live,
        h.current_updateExisting hnaming hknown hagree hother]
      intro r' hr' heq
      exact hother r' (hsubset r' hr').2.1 (of_decide_eq_true heq)

/-! ### Runs -/

/-- The records that an operation is called with. -/
def Operation.passed : Operation → List ContainerRecord
  | .addContainer record => [record]
  | .deleteContainer record => [record]
  | .updateContainer records => records
  | .compaction => []

/-- The operation is about known containers, and what it adds fits into the file. -/
def Admitted (getHash : String → String) (names : Set String) (file : AccountFile)
    (operation : Operation) : Prop :=
  NewContainersFit file operation ∧ ∀ r ∈ operation.passed, Known getHash names r

theorem ordered_createAccount (stat : AccountStat) :
    Ordered getHash names (createAccount stat) :=
  ⟨rfl, .nil, fun _ hr => absurd hr List.not_mem_nil⟩

theorem Ordered.updateContainer (h : Ordered getHash names file) (hnaming : Naming getHash names)
    (hknown : ∀ r ∈ records, Known getHash names r) :
    Ordered getHash names (file.updateContainer records) := by
  have hupdated := h.updateExisting records
  unfold AccountFile.updateContainer
  simp only
  split
  next => exact hupdated
  next =>
    refine (hupdated.prepareAppend hnaming).append fun r hr => ?_
    exact hknown r (left_subset file records (List.mem_of_mem_filter hr))

theorem Ordered.step (h : Ordered getHash names file) (hnaming : Naming getHash names)
    {operation : Operation} (hknown : ∀ r ∈ operation.passed, Known getHash names r)
    {file' : AccountFile} (hstep : file.step operation = some file') :
    Ordered getHash names file' := by
  cases operation with
  | addContainer record =>
      obtain rfl := Option.some.inj hstep
      exact (h.prepareAppend hnaming).append hknown
  | deleteContainer record =>
      obtain rfl := Option.some.inj hstep
      refine h.updateContainer hnaming fun r hr => ?_
      obtain ⟨hname, hhash⟩ := hknown record (List.mem_singleton_self _)
      obtain rfl := List.mem_singleton.mp hr
      exact ⟨hname, hhash⟩
  | updateContainer records =>
      obtain rfl := Option.some.inj hstep
      exact h.updateContainer hnaming hknown
  | compaction =>
      obtain rfl := Option.some.inj hstep
      exact h.compaction hnaming

theorem run_ordered (hnaming : Naming getHash names) {stat : AccountStat}
    {operations : List Operation}
    (halong : Along AccountFile.step (Admitted getHash names) (createAccount stat) operations)
    (hrun : run AccountFile.step (createAccount stat) operations = some file) :
    Regular file ∧ Ordered getHash names file := by
  have hstep : ∀ s operation s', Regular s ∧ Ordered getHash names s →
      Admitted getHash names s operation → s.step operation = some s' →
        Regular s' ∧ Ordered getHash names s' := fun s operation s' h hadmitted hstep =>
    ⟨(h.1.step_iff operation).mp hadmitted.1 s' hstep, h.2.step hnaming hadmitted.2 hstep⟩
  exact run_along_preserves AccountFile.step hstep
    ⟨regular_createAccount stat, ordered_createAccount stat⟩ halong hrun

/-- In every file of an account an update of a list leaves the containers of the list in the given
states and the others as they are if and only if the new ones fit into the file, the list does not
contradict itself, and no live container of the list has a sorted record behind a deleted unsorted
one. -/
theorem update_container_updates_iff (hnaming : Naming getHash names) {stat : AccountStat}
    {operations : List Operation}
    (halong : Along AccountFile.step (Admitted getHash names) (createAccount stat) operations)
    (hrun : run AccountFile.step (createAccount stat) operations = some file)
    (hknown : ∀ r ∈ records, Known getHash names r) :
    Updated file records (file.updateContainer records) ↔
      NewContainersFit file (.updateContainer records) ∧ Agreeing records ∧
        ∀ r ∈ records, ¬ file.Shadowed r := by
  obtain ⟨hregular, hordered⟩ := run_ordered hnaming halong hrun
  exact hordered.updated_iff hregular hnaming hknown

/-- A container is added, compacted, added again and deleted, which marks its unsorted record. -/
def deletedTwice : List Operation :=
  let record : ContainerRecord := ⟨"c", "c", 1, 1, false⟩
  [.addContainer record, .compaction, .addContainer record, .deleteContainer record]

theorem naming_id : Naming id {name | name ∈ ["a", "c"]} where
  hash := fun _ _ _ _ h => h
  length := by
    show ∀ name ∈ ["a", "c"], (utf8 name).length ≤ 256
    decide +kernel

theorem along_deletedTwice : Along AccountFile.step (Admitted id {name | name ∈ ["a", "c"]})
    (createAccount .zero) deletedTwice := by
  have hknown : Known id {name | name ∈ ["a", "c"]} ⟨"c", "c", 1, 1, false⟩ :=
    ⟨by simp, rfl⟩
  have hpassed : ∀ r ∈ [(⟨"c", "c", 1, 1, false⟩ : ContainerRecord)],
      Known id {name | name ∈ ["a", "c"]} r := fun r hr => List.mem_singleton.mp hr ▸ hknown
  exact ⟨⟨trivial, hpassed⟩, fun _ _ => ⟨⟨trivial, fun _ hr => absurd hr List.not_mem_nil⟩,
    fun _ _ => ⟨⟨trivial, hpassed⟩, fun _ _ => ⟨⟨trivial, hpassed⟩, fun _ _ => trivial⟩⟩⟩⟩

theorem update_container_updates_other :
    ∃ file, run AccountFile.step (createAccount .zero) deletedTwice = some file ∧
      (Updated file [⟨"a", "a", 2, 3, false⟩] (file.updateContainer [⟨"a", "a", 2, 3, false⟩]) ↔
        NewContainersFit file (.updateContainer [⟨"a", "a", 2, 3, false⟩]) ∧
          Agreeing [⟨"a", "a", 2, 3, false⟩] ∧
            ∀ r ∈ ([⟨"a", "a", 2, 3, false⟩] : List ContainerRecord), ¬ file.Shadowed r) := by
  obtain ⟨file, hrun⟩ : ∃ file,
      run AccountFile.step (createAccount .zero) deletedTwice = some file := ⟨_, rfl⟩
  refine ⟨file, hrun, update_container_updates_iff naming_id along_deletedTwice hrun fun r hr => ?_⟩
  obtain rfl := List.mem_singleton.mp hr
  exact ⟨by simp, rfl⟩

/-- The container is created again with two objects: its sorted record is updated, and it is still
deleted for everyone who reads the file. -/
theorem update_container_stays_deleted :
    ∃ file, run AccountFile.step (createAccount .zero) deletedTwice = some file ∧
      (file.updateContainer [⟨"c", "c", 2, 5, false⟩]).live "c" = none ∧
      ¬ Updated file [⟨"c", "c", 2, 5, false⟩]
        (file.updateContainer [⟨"c", "c", 2, 5, false⟩]) := by
  obtain ⟨file, hrun, hlive⟩ : ∃ file,
      run AccountFile.step (createAccount .zero) deletedTwice = some file ∧
        (file.updateContainer [⟨"c", "c", 2, 5, false⟩]).live "c" = none :=
    ⟨_, rfl, by decide +kernel⟩
  refine ⟨file, hrun, hlive, fun hup => ?_⟩
  obtain ⟨t, ht, -⟩ := hup.live ⟨"c", "c", 2, 5, false⟩ (List.mem_singleton_self _) rfl
  rw [hlive] at ht
  cases ht

end AccountFile

end ObjectStorage.AccountInfo
