import ObjectStorage.AccountInfo.AccountFile

/-!
What an update of blocks by a list of records changes. A record is used up by the first block of its
container that accepts it, and is left for the blocks behind else.
-/

namespace ObjectStorage.AccountInfo

/-! ### Records of a container -/

/-- The first record with the hash. -/
def findHash (hash : String) (blocks : List ContainerRecord) : Option ContainerRecord :=
  blocks.find? fun record => record.hash = hash

theorem findHash_append (hash : String) (blocks rest : List ContainerRecord) :
    findHash hash (blocks ++ rest) = (findHash hash blocks).or (findHash hash rest) :=
  List.find?_append

theorem hash_of_findHash {hash : String} {blocks : List ContainerRecord} {t : ContainerRecord}
    (h : findHash hash blocks = some t) : t.hash = hash := by
  simpa using List.find?_some h

/-- The name and the hash of a record. -/
def ContainerRecord.key (record : ContainerRecord) : String × String := (record.name, record.hash)

/-- The target has the values of the source. Those of deleted records do not matter. -/
structure Carries (source target : ContainerRecord) : Prop where
  deleted : target.deleted = source.deleted
  values : source.deleted = false →
    target.objectCount = source.objectCount ∧ target.bytesUsed = source.bytesUsed

theorem Carries.trans {r r' r'' : ContainerRecord} (h : Carries r r') (h' : Carries r' r'') :
    Carries r r'' where
  deleted := h'.deleted.trans h.deleted
  values hlive := by
    obtain ⟨hcount, hbytes⟩ := h.values hlive
    obtain ⟨hcount', hbytes'⟩ := h'.values (h.deleted.trans hlive)
    exact ⟨hcount'.trans hcount, hbytes'.trans hbytes⟩

/-- The list does not give one container different states. -/
def Agreeing (records : List ContainerRecord) : Prop :=
  ∀ r ∈ records, ∀ r' ∈ records, r.hash = r'.hash → Carries r r'

theorem Agreeing.subset {records left : List ContainerRecord} (h : Agreeing records)
    (hleft : left ⊆ records) : Agreeing left := fun r hr r' hr' => h r (hleft hr) r' (hleft hr')

/-- A deleted record is only updated by a deletion. -/
def Accepts (source target : ContainerRecord) : Prop := source.deleted ∨ target.deleted = false

namespace AccountFile

theorem updateRecord_eq_some {source target target' : ContainerRecord}
    (h : updateRecord source target = some target') :
    Accepts source target ∧ Carries source target' ∧ target'.key = target.key := by
  unfold updateRecord at h
  split at h
  next => cases h
  next hnot =>
    obtain rfl := Option.some.inj h
    refine ⟨?_, ⟨rfl, fun _ => ⟨rfl, rfl⟩⟩, rfl⟩
    unfold Accepts
    cases hs : source.deleted <;> cases ht : target.deleted <;> simp_all

theorem updateRecord_eq_none {source target : ContainerRecord}
    (h : updateRecord source target = none) : ¬ Accepts source target := by
  unfold updateRecord at h
  unfold Accepts
  split at h
  next hrefused =>
    cases hs : source.deleted <;> cases ht : target.deleted <;> simp_all
  next => cases h

/-! ### Updating blocks -/

theorem updateFirst_eq_none {source : ContainerRecord} {blocks : List ContainerRecord}
    (h : updateFirst source blocks = none) {t : ContainerRecord}
    (ht : findHash source.hash blocks = some t) : ¬ Accepts source t := by
  induction blocks with
  | nil => cases ht
  | cons target blocks ih =>
      rw [updateFirst] at h
      split at h
      next hhash =>
        rw [findHash, List.find?_cons_of_pos (by simpa using hhash)] at ht
        obtain rfl := Option.some.inj ht
        exact updateRecord_eq_none (Option.map_eq_none_iff.mp h)
      next hhash =>
        rw [findHash, List.find?_cons_of_neg (by simpa using hhash)] at ht
        exact ih (Option.map_eq_none_iff.mp h) ht

theorem updateFirst_eq_some {source : ContainerRecord} {blocks blocks' : List ContainerRecord}
    (h : updateFirst source blocks = some blocks') :
    (∃ t t', findHash source.hash blocks = some t ∧ Accepts source t ∧
      findHash source.hash blocks' = some t' ∧ Carries source t') ∧
      (∀ hash ≠ source.hash, findHash hash blocks' = findHash hash blocks) ∧
      blocks'.map (·.key) = blocks.map (·.key) := by
  induction blocks generalizing blocks' with
  | nil => cases h
  | cons target blocks ih =>
      rw [updateFirst] at h
      split at h
      next hhash =>
        obtain ⟨target', htarget, rfl⟩ := Option.map_eq_some_iff.mp h
        obtain ⟨haccepts, hcarries, hkey⟩ := updateRecord_eq_some htarget
        have hhash' : target'.hash = source.hash := (congrArg Prod.snd hkey).trans hhash
        refine ⟨⟨target, target', ?_, haccepts, ?_, hcarries⟩, fun hash hne => ?_, ?_⟩
        · exact List.find?_cons_of_pos (by simpa using hhash)
        · exact List.find?_cons_of_pos (by simpa using hhash')
        · rw [findHash, findHash, List.find?_cons_of_neg (by simpa [hhash'] using hne.symm),
            List.find?_cons_of_neg (by simpa [hhash] using hne.symm)]
        · rw [List.map_cons, List.map_cons, hkey]
      next hhash =>
        obtain ⟨rest, hrest, rfl⟩ := Option.map_eq_some_iff.mp h
        obtain ⟨⟨t, t', ht, haccepts, ht', hcarries⟩, hothers, hkeys⟩ := ih hrest
        refine ⟨⟨t, t', ?_, haccepts, ?_, hcarries⟩, fun hash hne => ?_, ?_⟩
        · rw [findHash, List.find?_cons_of_neg (by simpa using hhash)]
          exact ht
        · rw [findHash, List.find?_cons_of_neg (by simpa using hhash)]
          exact ht'
        · have hsame := hothers hash hne
          unfold findHash at hsame ⊢
          rw [List.find?_cons, List.find?_cons, hsame]
        · rw [List.map_cons, List.map_cons, hkeys]

theorem updateBlocks_keys (blocks records : List ContainerRecord) :
    (updateBlocks blocks records).1.map (·.key) = blocks.map (·.key) ∧
      (updateBlocks blocks records).2 ⊆ records := by
  induction records generalizing blocks with
  | nil => exact ⟨rfl, List.Subset.refl _⟩
  | cons source records ih =>
      rw [updateBlocks]
      cases hfirst : updateFirst source blocks with
      | none => exact ⟨(ih blocks).1, List.cons_subset_cons _ (ih blocks).2⟩
      | some blocks₁ =>
          obtain ⟨-, -, hkeys⟩ := updateFirst_eq_some hfirst
          obtain ⟨hkeys', hsubset⟩ := ih blocks₁
          exact ⟨hkeys'.trans hkeys, List.subset_cons_of_subset _ hsubset⟩

theorem updateSorted_keys (limit fuel start : Nat) (blocks records : List ContainerRecord) :
    (updateSorted limit fuel start blocks records).blocks.map (·.key) = blocks.map (·.key) ∧
      (updateSorted limit fuel start blocks records).records ⊆ records := by
  induction fuel generalizing start blocks records with
  | zero => exact ⟨rfl, List.Subset.refl _⟩
  | succ fuel ih =>
      rw [updateSorted]
      split
      next hempty => exact ⟨by rw [hempty], List.Subset.refl _⟩
      next =>
        obtain ⟨hkeys, hsubset⟩ := updateBlocks_keys (blocks.take limit) records
        obtain ⟨hkeys', hsubset'⟩ := ih (start + (blocks.take limit).length) (blocks.drop limit)
          (updateBlocks (blocks.take limit) records).2
        refine ⟨?_, List.Subset.trans hsubset' hsubset⟩
        rw [List.map_append, hkeys, hkeys', ← List.map_append, List.take_append_drop]

/-- What an update of blocks by records comes to: a record is used up if the first block of its
container accepts it, and left else. -/
structure Applied (blocks blocks' records left : List ContainerRecord) : Prop where
  subset : left ⊆ records
  others : ∀ hash, (∀ r ∈ records, r.hash ≠ hash) → findHash hash blocks' = findHash hash blocks
  accepted : ∀ r ∈ records, ∀ t, findHash r.hash blocks = some t → Accepts r t →
    (∀ r' ∈ left, r'.hash ≠ r.hash) ∧ ∃ t', findHash r.hash blocks' = some t' ∧ Carries r t'
  refused : ∀ r ∈ records, (∀ t, findHash r.hash blocks = some t → ¬ Accepts r t) →
    r ∈ left ∧ findHash r.hash blocks' = findHash r.hash blocks

theorem applied_updateBlocks (blocks : List ContainerRecord) {records : List ContainerRecord}
    (hagree : Agreeing records) :
    Applied blocks (updateBlocks blocks records).1 records (updateBlocks blocks records).2 := by
  induction records generalizing blocks with
  | nil => exact ⟨List.Subset.refl _, fun _ _ => rfl, by simp, by simp⟩
  | cons source records ih =>
      have hrest : Agreeing records := fun r hr r' hr' =>
        hagree r (List.mem_cons_of_mem _ hr) r' (List.mem_cons_of_mem _ hr')
      have hsame : ∀ r ∈ records, source.hash = r.hash → ∀ t, Accepts r t ↔ Accepts source t := by
        intro r hr hhash t
        have hdeleted :=
          (hagree source List.mem_cons_self r (List.mem_cons_of_mem _ hr) hhash).deleted
        rw [Accepts, Accepts, hdeleted]
      rw [updateBlocks]
      cases hfirst : updateFirst source blocks with
      | none =>
          have happlied := ih blocks hrest
          have hsource : ∀ t, findHash source.hash blocks = some t → ¬ Accepts source t :=
            fun t => updateFirst_eq_none hfirst
          refine ⟨List.cons_subset_cons _ happlied.subset, fun hash hne => ?_, ?_, ?_⟩
          · exact happlied.others hash fun r hr => hne r (List.mem_cons_of_mem _ hr)
          · intro r hr t ht haccepts
            rcases List.mem_cons.mp hr with rfl | hr
            · exact absurd haccepts (hsource t ht)
            · have hne : source.hash ≠ r.hash := fun hhash =>
                hsource t (hhash ▸ ht) ((hsame r hr hhash t).mp haccepts)
              obtain ⟨hleft, hcarries⟩ := happlied.accepted r hr t ht haccepts
              exact ⟨List.forall_mem_cons.mpr ⟨hne, hleft⟩, hcarries⟩
          · intro r hr hrefused
            rcases List.mem_cons.mp hr with rfl | hr
            · refine ⟨List.mem_cons_self, ?_⟩
              by_cases hother : ∃ r' ∈ records, r.hash = r'.hash
              · obtain ⟨r', hr', hhash⟩ := hother
                rw [hhash]
                refine (happlied.refused r' hr' fun t ht haccepts => ?_).2
                exact hrefused t (hhash ▸ ht) ((hsame r' hr' hhash t).mp haccepts)
              · exact happlied.others r.hash fun r' hr' hhash => hother ⟨r', hr', hhash.symm⟩
            · obtain ⟨hleft, hfind⟩ := happlied.refused r hr hrefused
              exact ⟨List.mem_cons_of_mem _ hleft, hfind⟩
      | some blocks₁ =>
          have happlied := ih blocks₁ hrest
          obtain ⟨⟨t, t₁, ht, haccepts, ht₁, hcarries⟩, hothers, -⟩ := updateFirst_eq_some hfirst
          refine ⟨fun r hr => List.mem_cons_of_mem _ (happlied.subset hr), fun hash hne => ?_, ?_,
            ?_⟩
          · have hsource := hne source List.mem_cons_self
            rw [happlied.others hash fun r hr => hne r (List.mem_cons_of_mem _ hr),
              hothers hash hsource.symm]
          · -- a later record of the same container updates the block again
            have hagain : ∀ r ∈ records, source.hash = r.hash →
                (∀ r' ∈ (updateBlocks blocks₁ records).2, r'.hash ≠ r.hash) ∧
                  ∃ t', findHash r.hash (updateBlocks blocks₁ records).1 = some t' ∧
                    Carries r t' := by
              intro r hr hhash
              refine happlied.accepted r hr t₁ (hhash ▸ ht₁) ?_
              have hdeleted := (hagree source List.mem_cons_self r (List.mem_cons_of_mem _ hr)
                hhash).deleted
              rw [Accepts, hcarries.deleted, hdeleted]
              cases source.deleted <;> simp
            intro r hr t' ht' haccepts'
            rcases List.mem_cons.mp hr with rfl | hr
            · by_cases hother : ∃ r' ∈ records, r.hash = r'.hash
              · obtain ⟨r', hr', hhash⟩ := hother
                obtain ⟨hleft, t'', ht'', hcarries'⟩ := hagain r' hr' hhash
                rw [← hhash] at hleft ht''
                exact ⟨hleft, t'', ht'', (hagree r List.mem_cons_self r'
                  (List.mem_cons_of_mem _ hr') hhash).trans hcarries'⟩
              · have hnone : ∀ r' ∈ records, r'.hash ≠ r.hash := fun r' hr' hhash =>
                  hother ⟨r', hr', hhash.symm⟩
                refine ⟨fun r' hr' => hnone r' (happlied.subset hr'), t₁, ?_, hcarries⟩
                rw [happlied.others r.hash hnone, ht₁]
            · by_cases hhash : source.hash = r.hash
              · exact hagain r hr hhash
              · rw [← hothers r.hash (Ne.symm hhash)] at ht'
                exact happlied.accepted r hr t' ht' haccepts'
          · intro r hr hrefused
            by_cases hhash : source.hash = r.hash
            · rcases List.mem_cons.mp hr with rfl | hr
              · exact absurd haccepts (hrefused t ht)
              · exact absurd ((hsame r hr hhash t).mpr haccepts) (hrefused t (hhash ▸ ht))
            · have hr : r ∈ records := by
                rcases List.mem_cons.mp hr with rfl | hr
                · exact absurd rfl hhash
                · exact hr
              rw [← hothers r.hash (Ne.symm hhash)] at hrefused ⊢
              exact happlied.refused r hr hrefused

theorem Applied.append {blocks blocks' rest rest' records left left' : List ContainerRecord}
    (h : Applied blocks blocks' records left) (h' : Applied rest rest' left left')
    (hdistinct : ∀ a ∈ blocks, ∀ b ∈ rest, a.hash ≠ b.hash) :
    Applied (blocks ++ rest) (blocks' ++ rest') records left' where
  subset := List.Subset.trans h'.subset h.subset
  others hash hne := by
    rw [findHash_append, findHash_append, h.others hash hne,
      h'.others hash fun r hr => hne r (h.subset hr)]
  accepted r hr t ht haccepts := by
    rw [findHash_append] at ht ⊢
    cases hb : findHash r.hash blocks with
    | some b =>
        rw [hb, Option.some_or] at ht
        obtain rfl := Option.some.inj ht
        obtain ⟨hleft, t', ht', hcarries⟩ := h.accepted r hr b hb haccepts
        exact ⟨fun r' hr' => hleft r' (h'.subset hr'), t', by rw [ht', Option.some_or], hcarries⟩
    | none =>
        rw [hb, Option.none_or] at ht
        obtain ⟨hin, hsame⟩ := h.refused r hr fun t ht => by rw [hb] at ht; cases ht
        rw [hsame, hb, Option.none_or]
        exact h'.accepted r hin t ht haccepts
  refused r hr hrefused := by
    rw [findHash_append] at hrefused
    rw [findHash_append, findHash_append]
    cases hb : findHash r.hash blocks with
    | some b =>
        rw [hb, Option.some_or] at hrefused
        obtain ⟨hin, hsame⟩ := h.refused r hr (by rw [hb]; exact hrefused)
        have hnone : findHash r.hash rest = none := by
          refine List.find?_eq_none.mpr fun r' hr' hhash => ?_
          have hbin : b ∈ blocks := List.mem_of_find?_eq_some hb
          exact hdistinct b hbin r' hr' ((hash_of_findHash hb).trans (of_decide_eq_true hhash).symm)
        obtain ⟨hin', -⟩ := h'.refused r hin fun t ht => by rw [hnone] at ht; cases ht
        exact ⟨hin', by rw [hsame, hb, Option.some_or, Option.some_or]⟩
    | none =>
        rw [hb, Option.none_or] at hrefused
        obtain ⟨hin, hsame⟩ := h.refused r hr fun t ht => by rw [hb] at ht; cases ht
        obtain ⟨hin', hsame'⟩ := h'.refused r hin hrefused
        exact ⟨hin', by rw [hsame, hb, Option.none_or, Option.none_or, hsame']⟩

theorem applied_updateSorted {limit : Nat} (hlimit : 0 < limit) {fuel : Nat} (start : Nat)
    {blocks records : List ContainerRecord} (hfuel : blocks.length ≤ fuel)
    (hdistinct : (blocks.map (·.hash)).Nodup) (hagree : Agreeing records) :
    Applied blocks (updateSorted limit fuel start blocks records).blocks records
      (updateSorted limit fuel start blocks records).records := by
  have hnil : ∀ records, Applied [] [] records records := fun _ =>
    ⟨List.Subset.refl _, fun _ _ => rfl, fun _ _ _ ht => (nomatch ht), fun _ hr _ => ⟨hr, rfl⟩⟩
  induction fuel generalizing start blocks records with
  | zero =>
      obtain rfl := List.eq_nil_of_length_eq_zero (Nat.le_zero.mp hfuel)
      exact hnil records
  | succ fuel ih =>
      rw [updateSorted]
      split
      next hempty =>
        rw [hempty]
        exact hnil records
      next hne =>
        have hpiece := applied_updateBlocks (blocks.take limit) hagree
        have hshort : (blocks.drop limit).length ≤ fuel := by
          have hpos := List.length_pos_iff.mpr hne
          rw [List.length_drop]
          omega
        have hsplit := List.take_append_drop limit blocks
        rw [← hsplit, List.map_append, List.nodup_append] at hdistinct
        obtain ⟨-, hdrop, hapart⟩ := hdistinct
        have hagree' := hagree.subset hpiece.subset
        have hrest := ih (start + (blocks.take limit).length) hshort hdrop hagree'
        have happlied := hpiece.append hrest fun a ha b hb =>
          hapart a.hash (List.mem_map_of_mem ha) b.hash (List.mem_map_of_mem hb)
        rw [hsplit] at happlied
        exact happlied

end AccountFile

end ObjectStorage.AccountInfo
