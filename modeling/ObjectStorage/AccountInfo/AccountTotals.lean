import ObjectStorage.AccountInfo.ContainerUpdate

/-!
The statistics of an account against the containers that are live in its file. Deletions, updates
and compactions count the file anew; adding a container that is live counts it twice until then.
-/

namespace ObjectStorage.AccountInfo

open Std Library InfoFile

variable {getHash : String → String} {names : Set String}

/-! ### Sums over containers -/

def total (records : List ContainerRecord) : AccountStat :=
  records.foldl AccountStat.add .zero

instance : RightCommutative AccountStat.add where
  right_comm stat r r' := by
    simp only [AccountStat.add, AccountStat.mk.injEq, true_and]
    exact ⟨add_right_comm .., add_right_comm ..⟩

theorem foldl_total (records rest : List ContainerRecord) :
    rest.foldl AccountStat.add (total records) = total (records ++ rest) :=
  (List.foldl_append ..).symm

theorem total_perm {records records' : List ContainerRecord} (h : records.Perm records') :
    total records = total records' :=
  h.foldl_eq _

/-- The records are those of the containers that have one, each once. -/
structure Represents (live : String → Option ContainerRecord) (records : List ContainerRecord) :
    Prop where
  name : ∀ name t, live name = some t → t.name = name
  nodup : (records.map (·.name)).Nodup
  mem : ∀ t, t ∈ records ↔ live t.name = some t

theorem Represents.perm {live : String → Option ContainerRecord}
    {records records' : List ContainerRecord} (h : Represents live records)
    (h' : Represents live records') : records.Perm records' := by
  apply (List.perm_ext_iff_of_nodup h.nodup.of_map h'.nodup.of_map).mpr
  intro t
  rw [h.mem, h'.mem]

theorem find_iff_mem (field : ContainerRecord → String) {blocks : List ContainerRecord}
    (h : (blocks.map field).Nodup) (t : ContainerRecord) :
    (blocks.find? fun r => field r = field t) = some t ↔ t ∈ blocks := by
  constructor
  · exact List.mem_of_find?_eq_some
  · intro ht
    cases hfind : blocks.find? fun r => field r = field t with
    | none => exact absurd (decide_eq_true rfl) (List.find?_eq_none.mp hfind t ht)
    | some r =>
        have hfield : field r = field t := by simpa using List.find?_some hfind
        rw [List.inj_on_of_nodup_map h (List.mem_of_find?_eq_some hfind) ht hfield]

theorem nodup_filter_append (field : ContainerRecord → String) (p : ContainerRecord → Bool)
    {r : ContainerRecord} {rest : List ContainerRecord} (hrest : (rest.map field).Nodup)
    (hne : ∀ t ∈ rest, field t ≠ field r) : (([r].filter p ++ rest).map field).Nodup := by
  rw [List.map_append, List.nodup_append]
  refine ⟨(List.nodup_singleton (field r)).sublist (List.filter_sublist.map _), hrest, ?_⟩
  intro a ha b hb heq
  obtain ⟨t, ht, rfl⟩ := List.mem_map.mp ha
  obtain ⟨t', ht', rfl⟩ := List.mem_map.mp hb
  rw [List.mem_singleton.mp (List.mem_of_mem_filter ht)] at heq
  exact hne t' ht' heq.symm

/-! ### Containers that are added -/

/-- The containers after a record has been appended. -/
def added (live : String → Option ContainerRecord) (r : ContainerRecord) :
    String → Option ContainerRecord :=
  fun name => if r.name = name then (some r).filter (! ·.deleted) else live name

/-- What is counted of records that are appended and is not live afterwards: the records they
replace, and those that are deleted themselves. -/
def replaced (live : String → Option ContainerRecord) :
    List ContainerRecord → List ContainerRecord
  | [] => []
  | r :: records =>
      (live r.name).toList ++ [r].filter (·.deleted) ++ replaced (added live r) records

theorem foldl_added (live : String → Option ContainerRecord) (records : List ContainerRecord)
    (name : String) : records.foldl added live name =
      (records.reverse.find? fun r => r.name = name).elim (live name)
        fun r => (some r).filter (! ·.deleted) := by
  induction records using List.reverseRecOn with
  | nil => rfl
  | append_singleton records r ih =>
      rw [List.foldl_append, List.foldl_cons, List.foldl_nil, List.reverse_append,
        List.reverse_singleton, List.singleton_append, added]
      by_cases hname : r.name = name
      · rw [if_pos hname, List.find?_cons_of_pos (by simpa using hname), Option.elim_some]
      · rw [if_neg hname, List.find?_cons_of_neg (by simpa using hname), ih]

theorem Represents.split {live : String → Option ContainerRecord} {records : List ContainerRecord}
    (h : Represents live records) (name : String) :
    records.Perm ((live name).toList ++ records.filter fun t => t.name ≠ name) := by
  have hrest : (records.filter fun t => t.name ≠ name).Nodup := h.nodup.of_map.filter _
  have hone : (live name).toList.Nodup := by
    cases live name <;> simp
  apply (List.perm_ext_iff_of_nodup h.nodup.of_map (hone.append hrest ?_)).mpr
  · intro t
    rw [List.mem_append, Option.mem_toList, List.mem_filter, decide_eq_true_eq, h.mem]
    constructor
    · intro ht
      by_cases hname : t.name = name
      · exact .inl (hname ▸ ht)
      · exact .inr ⟨ht, hname⟩
    · rintro (ht | ⟨ht, -⟩)
      · rw [h.name name t ht]
        exact ht
      · exact ht
  · intro t ht ht'
    have hne := (List.mem_filter.mp ht').2
    rw [h.name name t (Option.mem_toList.mp ht)] at hne
    simp at hne

theorem Represents.added {live : String → Option ContainerRecord} {records : List ContainerRecord}
    (h : Represents live records) (r : ContainerRecord) :
    Represents (AccountInfo.added live r)
      ([r].filter (! ·.deleted) ++ records.filter fun t => t.name ≠ r.name) := by
  refine ⟨fun name t ht => ?_, ?_, fun t => ?_⟩
  · unfold AccountInfo.added at ht
    split at ht
    · rename_i hr
      obtain rfl := Option.some.inj (Option.eq_some_of_filter_eq_some ht)
      exact hr
    · exact h.name name t ht
  · apply nodup_filter_append
    · exact h.nodup.sublist (List.filter_sublist.map _)
    · intro t ht
      simpa using (List.mem_filter.mp ht).2
  · rw [List.mem_append, List.mem_filter, List.mem_filter, List.mem_singleton, h.mem,
      AccountInfo.added]
    by_cases hr : r.name = t.name
    · rw [if_pos hr, Option.filter_eq_some_iff, Option.some.injEq]
      constructor
      · rintro (⟨rfl, hlive⟩ | ⟨-, hne⟩)
        · exact ⟨rfl, hlive⟩
        · simp [hr] at hne
      · rintro ⟨rfl, hlive⟩
        exact .inl ⟨rfl, hlive⟩
    · rw [if_neg hr]
      constructor
      · rintro (⟨rfl, -⟩ | ⟨ht, -⟩)
        · exact absurd rfl hr
        · exact ht
      · exact fun ht => .inr ⟨ht, by simpa using Ne.symm hr⟩

/-- Appended records go to the live ones and to the replaced ones. -/
theorem Represents.perm_replaced {live : String → Option ContainerRecord}
    {base : List ContainerRecord} (h : Represents live base) (records : List ContainerRecord) :
    ∃ base', Represents (records.foldl AccountInfo.added live) base' ∧
      (base ++ records).Perm (base' ++ replaced live records) := by
  induction records generalizing live base with
  | nil => exact ⟨base, h, .refl _⟩
  | cons r records ih =>
      obtain ⟨base', hbase', hperm⟩ := ih (h.added r)
      refine ⟨base', hbase', ?_⟩
      rw [List.perm_iff_count] at hperm ⊢
      intro t
      have hsplit := (h.split r.name).count_eq t
      have hrest := hperm t
      have hone : [r].count t =
          ([r].filter (! ·.deleted)).count t + ([r].filter (·.deleted)).count t := by
        cases hdeleted : r.deleted <;> simp [hdeleted]
      show (base ++ ([r] ++ records)).count t = (base' ++ ((live r.name).toList ++
        [r].filter (·.deleted) ++ replaced (AccountInfo.added live r) records)).count t
      simp only [List.count_append] at hsplit hrest ⊢
      omega

theorem replaced_eq_nil {live : String → Option ContainerRecord} {records : List ContainerRecord}
    (hdeleted : ∀ r ∈ records, r.deleted = false) (hlive : ∀ r ∈ records, live r.name = none)
    (hnodup : (records.map (·.name)).Nodup) : replaced live records = [] := by
  induction records generalizing live with
  | nil => rfl
  | cons r records ih =>
      rw [List.forall_mem_cons] at hdeleted hlive
      obtain ⟨hnot, hrest⟩ := List.nodup_cons.mp hnodup
      rw [replaced, hlive.1, ih hdeleted.2 (fun r' hr' => ?_) hrest]
      · simp [hdeleted.1]
      · have hne : r.name ≠ r'.name := fun heq =>
          hnot (List.mem_map.mpr ⟨r', hr', heq.symm⟩)
        rw [added, if_neg hne]
        exact hlive.2 r' hr'

namespace AccountFile

variable {file : AccountFile} {records extra : List ContainerRecord}

/-! ### Compaction counts the live containers -/

theorem name_of_live {name : String} {t : ContainerRecord} (h : file.live name = some t) :
    t.name = name := by
  have hcurrent : file.current name = some t := Option.eq_some_of_filter_eq_some h
  rcases Option.or_eq_some_iff.mp hcurrent with hunsorted | ⟨-, hsorted⟩
  · simpa using List.find?_some hunsorted
  · simpa using List.find?_some hsorted

theorem Ordered.represents_compacted (h : Ordered getHash names file)
    (hnaming : Naming getHash names) : Represents file.live file.compacted := by
  have hsorted : StrictlySorted (·.name) file.compacted :=
    (h.strictlySorted_records hnaming).filter _
  have hnodup : (file.compacted.map (·.name)).Nodup := by
    apply List.pairwise_map.mpr
    apply hsorted.imp
    intro r r' hlt heq
    simp only [heq] at hlt
    exact List.lt_irrefl _ hlt
  refine ⟨fun _ _ => name_of_live, hnodup, fun t => ?_⟩
  rw [← find_iff_mem (·.name) hnodup t, compacted_eq,
    find_filter (h.strictlySorted_records hnaming), h.find_records hnaming, live]

/-- The statistics are those of the live containers and of further records. -/
def Counts (file : AccountFile) (extra : List ContainerRecord) : Prop :=
  file.stat = total (file.compacted ++ extra)

theorem Ordered.counts (h : Ordered getHash names file) (hnaming : Naming getHash names)
    {base : List ContainerRecord} (hbase : Represents file.live base)
    (hstat : file.stat = total (base ++ extra)) : Counts file extra := by
  rw [Counts, hstat]
  exact total_perm ((hbase.perm (h.represents_compacted hnaming)).append_right extra)

theorem Ordered.counts_compaction (h : Ordered getHash names file)
    (hnaming : Naming getHash names) : Counts file.compaction [] := by
  have hlive : file.compaction.live = file.live := funext (h.live_compaction hnaming)
  have hbase : Represents file.compaction.live file.compacted := by
    rw [hlive]
    exact h.represents_compacted hnaming
  apply (h.compaction hnaming).counts hnaming hbase
  rw [List.append_nil]
  rfl

/-! ### An update counts anew -/

/-- What the count of the unsorted records, from the last one on, comes to. -/
structure Tallied (blocks : List ContainerRecord) (hashSet : List String) (start : AccountStat)
    (records : List ContainerRecord) : Prop where
  stat : (unsortedStat blocks (start, hashSet)).1 = records.foldl AccountStat.add start
  seen : ∀ hash, hash ∈ (unsortedStat blocks (start, hashSet)).2 ↔
    hash ∈ hashSet ∨ findHash hash blocks ≠ none
  nodup : (records.map (·.hash)).Nodup
  mem : ∀ t, t ∈ records ↔
    t.hash ∉ hashSet ∧ findHash t.hash blocks = some t ∧ t.deleted = false

theorem findHash_cons (hash : String) (record : ContainerRecord) (blocks : List ContainerRecord) :
    findHash hash (record :: blocks) =
      if record.hash = hash then some record else findHash hash blocks := by
  by_cases hhash : record.hash = hash
  · rw [if_pos hhash, findHash, List.find?_cons_of_pos (by simpa using hhash)]
  · rw [if_neg hhash, findHash, List.find?_cons_of_neg (by simpa using hhash), findHash]

theorem tallied (blocks : List ContainerRecord) (hashSet : List String) (start : AccountStat) :
    ∃ records, Tallied blocks hashSet start records := by
  induction blocks generalizing hashSet start with
  | nil => exact ⟨[], rfl, fun hash => by simp [unsortedStat, findHash], .nil, by simp [findHash]⟩
  | cons record blocks ih =>
      by_cases hin : record.hash ∈ hashSet
      · obtain ⟨records, htallied⟩ := ih hashSet start
        refine ⟨records, ?_, fun hash => ?_, htallied.nodup, fun t => ?_⟩
        · rw [unsortedStat, if_pos hin, htallied.stat]
        · rw [unsortedStat, if_pos hin, htallied.seen, findHash_cons]
          split
          · rename_i hhash
            simp [← hhash, hin]
          · rfl
        · rw [htallied.mem, findHash_cons]
          split
          · rename_i hhash
            simp [← hhash, hin]
          · rfl
      · obtain ⟨records, htallied⟩ := ih (record.hash :: hashSet)
          (if record.deleted then start else start.add record)
        have hnot : ∀ t ∈ records, t.hash ≠ record.hash := fun t ht heq =>
          ((htallied.mem t).mp ht).1 (heq ▸ List.mem_cons_self)
        refine ⟨[record].filter (! ·.deleted) ++ records, ?_, fun hash => ?_, ?_, fun t => ?_⟩
        · rw [unsortedStat, if_neg hin, htallied.stat, List.foldl_append]
          cases hdeleted : record.deleted <;> simp [hdeleted]
        · rw [unsortedStat, if_neg hin, htallied.seen, findHash_cons, List.mem_cons]
          by_cases hhash : record.hash = hash
          · simp [hhash]
          · simp [hhash, Ne.symm hhash]
        · exact nodup_filter_append (·.hash) _ htallied.nodup hnot
        · rw [List.mem_append, htallied.mem, findHash_cons, List.mem_cons, List.mem_filter,
            List.mem_singleton]
          by_cases hhash : record.hash = t.hash
          · rw [if_pos hhash, Option.some.injEq]
            constructor
            · rintro (⟨rfl, hdeleted⟩ | ⟨hnot', -⟩)
              · exact ⟨hin, rfl, by simpa using hdeleted⟩
              · exact absurd (.inl hhash.symm) hnot'
            · rintro ⟨-, rfl, hdeleted⟩
              exact .inl ⟨rfl, by simpa using hdeleted⟩
          · rw [if_neg hhash]
            constructor
            · rintro (⟨rfl, -⟩ | ⟨hnot', hfound⟩)
              · exact absurd rfl hhash
              · exact ⟨fun h => hnot' (.inr h), hfound⟩
            · rintro ⟨hnot', hfound⟩
              exact .inr ⟨fun h => h.elim (fun h => hhash h.symm) hnot', hfound⟩

/-- The sorted records that an update counts. -/
def countedSorted (file : AccountFile) : List ContainerRecord :=
  file.sorted.filter fun record =>
    record.hash ∉ (unsortedStat file.unsorted.reverse (.zero, [])).2 ∧ ! record.deleted

theorem Tallied.mem_countedSorted {counted : List ContainerRecord}
    (h : Tallied file.unsorted.reverse [] .zero counted) (t : ContainerRecord) :
    t ∈ file.countedSorted ↔ t ∈ file.sorted ∧
      findHash t.hash file.unsorted.reverse = none ∧ t.deleted = false := by
  rw [countedSorted, List.mem_filter, decide_eq_true_eq, h.seen]
  simp

theorem Ordered.live_iff (h : Ordered getHash names file) (hnaming : Naming getHash names)
    {t : ContainerRecord} (ht : Known getHash names t) : file.live t.name = some t ↔
      (findHash t.hash file.unsorted.reverse).or (findHash t.hash file.sorted) = some t ∧
        t.deleted = false := by
  rw [ht.hash, ← h.current_eq hnaming ht.name, live, Option.filter_eq_some_iff]
  simp

theorem Ordered.represents_tallied (h : Ordered getHash names file)
    (hnaming : Naming getHash names) {counted : List ContainerRecord}
    (htallied : Tallied file.unsorted.reverse [] .zero counted) :
    Represents file.live (counted ++ file.countedSorted) := by
  have hsorted : ∀ t, findHash t.hash file.sorted = some t ↔ t ∈ file.sorted :=
    find_iff_mem (·.hash) (h.nodup_hash hnaming)
  have hunsorted : ∀ t, findHash t.hash file.unsorted.reverse = some t → Known getHash names t :=
    fun t ht => h.known_unsorted t (List.mem_reverse.mp (List.mem_of_find?_eq_some ht))
  refine ⟨fun _ _ => name_of_live, ?_, fun t => ?_⟩
  · have hnodup : ((counted ++ file.countedSorted).map (·.hash)).Nodup := by
      rw [List.map_append, List.nodup_append]
      refine ⟨htallied.nodup, (h.nodup_hash hnaming).sublist (List.filter_sublist.map _), ?_⟩
      intro a ha b hb heq
      obtain ⟨t, ht, rfl⟩ := List.mem_map.mp ha
      obtain ⟨t', ht', rfl⟩ := List.mem_map.mp hb
      have hfound := ((htallied.mem t).mp ht).2.1
      rw [heq, ((htallied.mem_countedSorted t').mp ht').2.1] at hfound
      cases hfound
    have hhash : ∀ t ∈ counted ++ file.countedSorted, t.hash = getHash t.name := by
      intro t ht
      rcases List.mem_append.mp ht with hin | hin
      · exact (hunsorted t ((htallied.mem t).mp hin).2.1).hash
      · exact (h.known_sorted t (List.mem_of_mem_filter hin)).hash
    rw [List.map_congr_left hhash] at hnodup
    apply List.Nodup.of_map getHash
    rw [List.map_map]
    exact hnodup
  · rw [List.mem_append, htallied.mem, htallied.mem_countedSorted]
    constructor
    · rintro (⟨-, hfound, hdeleted⟩ | ⟨hin, hnone, hdeleted⟩)
      · exact (h.live_iff hnaming (hunsorted t hfound)).mpr
          ⟨by rw [hfound, Option.some_or], hdeleted⟩
      · exact (h.live_iff hnaming (h.known_sorted t hin)).mpr
          ⟨by rw [hnone, Option.none_or, hsorted]; exact hin, hdeleted⟩
    · intro hfound
      have hcurrent : file.current t.name = some t := Option.eq_some_of_filter_eq_some hfound
      have hknown : Known getHash names t := by
        rcases Option.or_eq_some_iff.mp hcurrent with hu | ⟨-, hs⟩
        · exact h.known_unsorted t (List.mem_reverse.mp (List.mem_of_find?_eq_some hu))
        · exact h.known_sorted t (List.mem_of_find?_eq_some hs)
      obtain ⟨hor, hdeleted⟩ := (h.live_iff hnaming hknown).mp hfound
      rcases Option.or_eq_some_iff.mp hor with hu | ⟨hnone, hs⟩
      · exact .inl ⟨List.not_mem_nil, hu, hdeleted⟩
      · exact .inr ⟨(hsorted t).mp hs, hnone, hdeleted⟩

theorem Ordered.counts_updateExisting (h : Ordered getHash names file)
    (hnaming : Naming getHash names) (records : List ContainerRecord) :
    Counts (file.updateExisting records).1 [] := by
  have hupdated := h.updateExisting records
  obtain ⟨hsorted, hunsorted⟩ := h.updateExisting_blocks records
  obtain ⟨counted, htallied⟩ :=
    tallied (file.updateExisting records).1.unsorted.reverse [] .zero
  apply hupdated.counts hnaming (hupdated.represents_tallied hnaming htallied)
  rw [List.append_nil, ← foldl_total, total, ← htallied.stat, countedSorted, hsorted, hunsorted]
  rfl

/-! ### Records that an update leaves -/

theorem updateBlocks_sublist (blocks records : List ContainerRecord) :
    (updateBlocks blocks records).2.Sublist records := by
  induction records generalizing blocks with
  | nil => exact .slnil
  | cons source records ih =>
      rw [updateBlocks]
      cases updateFirst source blocks with
      | none => exact (ih blocks).cons_cons source
      | some blocks' => exact (ih blocks').cons source

theorem updateSorted_sublist (limit fuel start : Nat) (blocks records : List ContainerRecord) :
    (updateSorted limit fuel start blocks records).records.Sublist records := by
  induction fuel generalizing start blocks records with
  | zero => exact .refl _
  | succ fuel ih =>
      rw [updateSorted]
      split
      · exact .refl _
      · exact (ih _ _ _).trans (updateBlocks_sublist _ _)

theorem updateBlocks_deleted {hash : String} {blocks : List ContainerRecord}
    (records : List ContainerRecord)
    (h : ∀ t, findHash hash blocks = some t → t.deleted = true) :
    ∀ t, findHash hash (updateBlocks blocks records).1 = some t → t.deleted = true := by
  induction records generalizing blocks with
  | nil => exact h
  | cons source records ih =>
      rw [updateBlocks]
      cases hfirst : updateFirst source blocks with
      | none => exact ih h
      | some blocks' =>
          obtain ⟨⟨t₀, t', ht₀, haccepts, ht', hcarries⟩, hothers, -⟩ := updateFirst_eq_some hfirst
          apply ih
          intro t ht
          by_cases hhash : hash = source.hash
          · subst hhash
            cases ht'.symm.trans ht
            rw [hcarries.deleted]
            rcases haccepts with hsource | hlive
            · exact hsource
            · rw [h t₀ ht₀] at hlive
              cases hlive
          · rw [hothers hash hhash] at ht
            exact h t ht

theorem updateBlocks_left {blocks : List ContainerRecord} {r : ContainerRecord}
    (hr : r ∈ (updateBlocks blocks records).2) :
    ∀ t, findHash r.hash (updateBlocks blocks records).1 = some t → t.deleted = true := by
  induction records generalizing blocks with
  | nil => cases hr
  | cons source records ih =>
      rw [updateBlocks] at hr ⊢
      cases hfirst : updateFirst source blocks with
      | none =>
          rw [hfirst] at hr
          rcases List.mem_cons.mp hr with rfl | hin
          · apply updateBlocks_deleted
            intro t ht
            have hnot := updateFirst_eq_none hfirst ht
            exact Bool.eq_true_of_not_eq_false fun hf => hnot (.inr hf)
          · exact ih hin
      | some blocks' =>
          rw [hfirst] at hr
          exact ih hr

theorem updateSorted_left {limit : Nat} (hlimit : 0 < limit) {fuel : Nat} (start : Nat)
    {blocks : List ContainerRecord} (hfuel : blocks.length ≤ fuel) {r : ContainerRecord}
    (hr : r ∈ (updateSorted limit fuel start blocks records).records) :
    ∀ t, findHash r.hash (updateSorted limit fuel start blocks records).blocks = some t →
      t.deleted = true := by
  induction fuel generalizing start blocks records with
  | zero =>
      obtain rfl := List.eq_nil_of_length_eq_zero (Nat.le_zero.mp hfuel)
      intro t ht
      cases ht
  | succ fuel ih =>
      rw [updateSorted] at hr ⊢
      split at hr
      next hempty =>
        rw [if_pos hempty]
        intro t ht
        cases ht
      next hne =>
        rw [if_neg hne]
        have hshort : (blocks.drop limit).length ≤ fuel := by
          have hpos := List.length_pos_iff.mpr hne
          rw [List.length_drop]
          omega
        intro t ht
        simp only [findHash_append] at ht
        rcases Option.or_eq_some_iff.mp ht with hpiece | ⟨-, hrest⟩
        · exact updateBlocks_left ((updateSorted_sublist _ _ _ _ _).subset hr) t hpiece
        · exact ih _ hshort hr t hrest

theorem left_deleted (file : AccountFile) {r : ContainerRecord}
    (hr : r ∈ (file.updateExisting records).2) : r.deleted = false := by
  simpa using (List.mem_filter.mp hr).2

theorem Ordered.left_not_live (h : Ordered getHash names file) (hnaming : Naming getHash names)
    (hknown : ∀ r ∈ records, Known getHash names r) {r : ContainerRecord}
    (hr : r ∈ (file.updateExisting records).2) :
    (file.updateExisting records).1.live r.name = none := by
  have hleft : r ∈ (file.sortedUpdate records).records := List.mem_of_mem_filter hr
  have hk := hknown r (left_subset file records hleft)
  have hpos : 0 < maxReadNonStaticRecord := by decide
  obtain ⟨hsorted, hunsorted⟩ := h.updateExisting_blocks records
  have hcurrent := (h.updateExisting records).current_eq hnaming hk.name
  rw [hsorted, hunsorted, ← hk.hash, updateUnsorted, List.reverse_reverse] at hcurrent
  cases hfound : (file.updateExisting records).1.current r.name with
  | none => rw [live, hfound, Option.filter_none]
  | some t =>
      have hgone : t.deleted = true := by
        rw [hcurrent] at hfound
        rcases Option.or_eq_some_iff.mp hfound with hu | ⟨-, hs⟩
        · exact updateBlocks_left ((updateSorted_sublist _ _ _ _ _).subset hleft) t hu
        · exact updateSorted_left hpos 0 h.length_sorted.le hleft t hs
      rw [live, hfound, Option.filter_some, if_neg (by simp [hgone])]

/-! ### Every operation -/

theorem Ordered.counts_prepareAppend (h : Ordered getHash names file)
    (hnaming : Naming getHash names) (hcounts : Counts file extra) :
    Counts file.prepareAppend
      (if maxUnsortedRecord ≤ file.trailer.unsortedRecord then [] else extra) := by
  unfold AccountFile.prepareAppend
  split
  · exact h.counts_compaction hnaming
  · exact hcounts

theorem Ordered.counts_addContainerInternal (h : Ordered getHash names file)
    (hnaming : Naming getHash names) (hknown : ∀ r ∈ records, Known getHash names r)
    (hcounts : Counts file.prepareAppend extra) :
    Counts (file.addContainerInternal records) (extra ++ replaced file.live records) := by
  have hbefore := h.prepareAppend hnaming
  have hsame : file.prepareAppend.live = file.live := funext (h.live_prepareAppend hnaming)
  have hbase := hbefore.represents_compacted hnaming
  rw [hsame] at hbase
  obtain ⟨base, hadded, hperm⟩ := hbase.perm_replaced records
  have hlive : (file.addContainerInternal records).live = records.foldl added file.live := by
    funext name
    rw [foldl_added, h.live_addContainerInternal hnaming hknown]
    cases records.reverse.find? fun r => r.name = name <;> rfl
  rw [← hlive] at hadded
  apply (hbefore.append hknown).counts hnaming hadded
  have hstat : file.prepareAppend.stat = total (file.prepareAppend.compacted ++ extra) := hcounts
  show records.foldl AccountStat.add file.prepareAppend.stat = _
  rw [hstat, foldl_total]
  apply total_perm
  rw [List.perm_iff_count] at hperm ⊢
  intro t
  have hcount := hperm t
  simp only [List.count_append] at hcount ⊢
  omega

theorem Ordered.counts_updateContainer (h : Ordered getHash names file)
    (hnaming : Naming getHash names) (hknown : ∀ r ∈ records, Known getHash names r) :
    Counts (file.updateContainer records)
      (replaced (file.updateExisting records).1.live (file.updateExisting records).2) := by
  have hupdated := h.updateExisting records
  have hcounts := h.counts_updateExisting hnaming records
  unfold AccountFile.updateContainer
  simp only
  split
  next hnil =>
    rw [hnil]
    exact hcounts
  next =>
    have hprepared := hupdated.counts_prepareAppend hnaming hcounts
    rw [ite_self] at hprepared
    apply hupdated.counts_addContainerInternal hnaming _ hprepared
    intro r hr
    exact hknown r (left_subset file records (List.mem_of_mem_filter hr))

theorem Ordered.counts_distinct (h : Ordered getHash names file)
    (hnaming : Naming getHash names) (hknown : ∀ r ∈ records, Known getHash names r)
    (hnodup : ((records.filter (! ·.deleted)).map (·.name)).Nodup) :
    Counts (file.updateContainer records) [] := by
  have hcounts := h.counts_updateContainer hnaming hknown
  have hsublist : (file.updateExisting records).2.Sublist (records.filter (! ·.deleted)) :=
    ((updateSorted_sublist _ _ _ _ _).trans (updateBlocks_sublist _ _)).filter _
  rw [replaced_eq_nil (fun r hr => left_deleted file hr)
    (fun r hr => h.left_not_live hnaming hknown hr) (hnodup.sublist (hsublist.map _))] at hcounts
  exact hcounts

/-- What the statistics have beyond the live containers after an operation. -/
def excess (file : AccountFile) (before : List ContainerRecord) :
    Operation → List ContainerRecord
  | .addContainer record =>
      (if maxUnsortedRecord ≤ file.trailer.unsortedRecord then [] else before) ++
        replaced file.live [record]
  | .updateContainer records =>
      replaced (file.updateExisting records).1.live (file.updateExisting records).2
  | .deleteContainer _ | .compaction => []

/-- A step of a file beside what its statistics have too much. -/
def countedStep (state : AccountFile × List ContainerRecord) (operation : Operation) :
    Option (AccountFile × List ContainerRecord) :=
  (state.1.step operation).map fun file => (file, state.1.excess state.2 operation)

theorem Ordered.counts_step (h : Ordered getHash names file) (hnaming : Naming getHash names)
    {operation : Operation} (hknown : ∀ r ∈ operation.passed, Known getHash names r)
    (hcounts : Counts file extra) {file' : AccountFile}
    (hstep : file.step operation = some file') :
    Counts file' (file.excess extra operation) := by
  cases operation with
  | addContainer record =>
      obtain rfl := Option.some.inj hstep
      exact h.counts_addContainerInternal hnaming hknown (h.counts_prepareAppend hnaming hcounts)
  | deleteContainer record =>
      obtain rfl := Option.some.inj hstep
      apply h.counts_distinct hnaming
      · intro r hr
        obtain ⟨hname, hhash⟩ := hknown record (List.mem_singleton_self _)
        obtain rfl := List.mem_singleton.mp hr
        exact ⟨hname, hhash⟩
      · exact .nil
  | updateContainer records =>
      obtain rfl := Option.some.inj hstep
      exact h.counts_updateContainer hnaming hknown
  | compaction =>
      obtain rfl := Option.some.inj hstep
      exact h.counts_compaction hnaming

/-- In every file of an account the statistics are the sums over the live containers and over the
records that were live when their container was added again, since the file was last counted. An
update whose list has no live container twice counts it. -/
theorem stat_counts_live (hnaming : Naming getHash names) {operations : List Operation}
    (halong : Along countedStep (fun state => Admitted getHash names state.1)
      (createAccount .zero, []) operations)
    (hrun : run countedStep (createAccount .zero, []) operations = some (file, extra)) :
    Represents file.live file.compacted ∧ Counts file extra ∧
      ∀ records, Admitted getHash names file (.updateContainer records) →
        ((records.filter (! ·.deleted)).map (·.name)).Nodup →
          Counts (file.updateContainer records) [] := by
  have hpreserves : ∀ state operation state', Ordered getHash names state.1 ∧
      Counts state.1 state.2 → Admitted getHash names state.1 operation →
        countedStep state operation = some state' →
          Ordered getHash names state'.1 ∧ Counts state'.1 state'.2 := by
    intro state operation state' hstate hadmitted hstep
    obtain ⟨file', hfile, rfl⟩ := Option.map_eq_some_iff.mp hstep
    exact ⟨hstate.1.step hnaming hadmitted.2 hfile,
      hstate.1.counts_step hnaming hadmitted.2 hstate.2 hfile⟩
  obtain ⟨hordered, hcounts⟩ := run_along_preserves countedStep hpreserves
    (s := (createAccount .zero, [])) ⟨ordered_createAccount _, rfl⟩ halong hrun
  exact ⟨hordered.represents_compacted hnaming, hcounts, fun records hadmitted hnodup =>
    hordered.counts_distinct hnaming hadmitted.2 hnodup⟩

/-- A container is added, compacted and added again. -/
def addedTwice : List Operation :=
  let record : ContainerRecord := ⟨"c", "c", 1, 1, false⟩
  [.addContainer record, .compaction, .addContainer record]

theorem stat_counts_live_twice :
    ∃ file, run countedStep (createAccount .zero, []) addedTwice =
        some (file, [⟨"c", "c", 1, 1, false⟩]) ∧
      Represents file.live file.compacted ∧ Counts file [⟨"c", "c", 1, 1, false⟩] ∧
        file.stat = ⟨2, 2, 2⟩ := by
  have hpassed : ∀ r ∈ [(⟨"c", "c", 1, 1, false⟩ : ContainerRecord)],
      Known id {name | name ∈ ["a", "c"]} r := fun r hr =>
    List.mem_singleton.mp hr ▸ ⟨by simp, rfl⟩
  have halong : Along countedStep (fun state => Admitted id {name | name ∈ ["a", "c"]} state.1)
      (createAccount .zero, []) addedTwice :=
    ⟨⟨trivial, hpassed⟩, fun _ _ => ⟨⟨trivial, fun _ hr => absurd hr List.not_mem_nil⟩,
      fun _ _ => ⟨⟨trivial, hpassed⟩, fun _ _ => trivial⟩⟩⟩
  obtain ⟨state, hrun⟩ : ∃ state, run countedStep (createAccount .zero, []) addedTwice =
      some state := ⟨_, rfl⟩
  have hend : (run countedStep (createAccount .zero, []) addedTwice).map
      (fun state => (state.2, state.1.stat)) =
        some ([⟨"c", "c", 1, 1, false⟩], ⟨2, 2, 2⟩) := by decide +kernel
  rw [hrun, Option.map_some, Option.some.injEq, Prod.mk.injEq] at hend
  obtain ⟨file, extra⟩ := state
  obtain ⟨rfl, hstat⟩ := hend
  obtain ⟨hlive, hcounts, -⟩ := stat_counts_live naming_id halong hrun
  exact ⟨file, hrun, hlive, hcounts, hstat⟩

end AccountFile

end ObjectStorage.AccountInfo
