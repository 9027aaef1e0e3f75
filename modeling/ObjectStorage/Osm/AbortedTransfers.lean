import ObjectStorage.Osm.PlanExecution

/-!
A new plan for a source whose transfers were aborted: what is planned for its components, what the
shares are computed from, and what becomes of the plans of the other sources.
-/

namespace ObjectStorage.Osm

open Std Library

namespace ComponentMapManager

/-- Transfers and plans are about components of the service, and no component is planned twice. -/
structure Consistent (m : ComponentMapManager) (service : String) : Prop where
  transfers : InRange (m.componentCount service) (m.transfersFor service)
  plans : InRange (m.componentCount service) (m.plannedFor service)
  once : ((m.plannedFor service).map (·.1)).Nodup

/-- How many components a service owns. -/
def owned (m : ComponentMapManager) (service id : String) : Nat :=
  (List.range (m.componentCount service)).countP fun c : Nat => m.ownerId service c = some id

/-- How many components a service has when the plans are executed. -/
def booked (m : ComponentMapManager) (service : String) (plans : Transfers) (id : String) : Int :=
  m.owned service id - (plans.countP fun p => m.ownerId service p.1 = some id) +
    plans.countP fun p => p.2.serviceId = id

end ComponentMapManager

namespace ComponentBalancer

/-! ### The steps of the function -/

/-- The internal basic map that the shares are computed from, and the manager at that time. -/
def newBalancingMap (b : ComponentBalancer) (m : ComponentMapManager) (service : String)
    (plannedComponents : Transfers) : InternalBasicMap × ComponentMapManager :=
  let origPlanned := m.plannedFor service
  let m := plannedComponents.foldl (removePlanned service) m
  b.mergePlannedIntoInternalBasicMap service origPlanned
    (mergeTransientIntoInternalBasicMap m service (prepareInternalBasicMap m service)) m

/-- The balancer that the shares are computed with. -/
def withoutServices (b : ComponentBalancer) : ComponentBalancer :=
  { b with
    listOfServicesForAddition := []
    listOfServicesForDeletion := []
    listOfServicesForRecovery := []
    healthyNodeList := sortUnique b.healthyNodeList }

section

variable {b : ComponentBalancer} {m m' : ComponentMapManager} {service source : String}
  {aborted : Transfers}

theorem getNewBalancingForSource_eq (b : ComponentBalancer) (m : ComponentMapManager)
    (service source : String) (aborted : Transfers) :
    b.getNewBalancingForSource m service source aborted =
      let merged := b.newBalancingMap m service aborted
      match b.withoutServices.balanceComponents service merged.1 merged.2 with
      | none => ([], b.withoutServices, merged.2)
      | some shares =>
          let r := b.withoutServices.transferComponents service merged.1
            { shares with sources := shares.sources.filter (·.serviceId = source) } merged.2
          (r.1[source]?.getD [], b.withoutServices, r.2) := rfl

/-! ### The planned map -/

theorem foldl_removePlanned (hnodup : ((m.plannedFor service).map (·.1)).Nodup) :
    m.PlanChanged (aborted.foldl (removePlanned service) m) ∧
      ∀ s, (aborted.foldl (removePlanned service) m).plannedFor s =
        if service = s then (m.plannedFor service).filter fun p => p.1 ∉ aborted.map (·.1)
        else m.plannedFor s := by
  induction aborted generalizing m with
  | nil =>
      refine ⟨.refl m, fun s => ?_⟩
      by_cases hs : service = s <;> simp [hs]
  | cons e aborted ih =>
      have hremoved := ComponentMapManager.plannedFor_remove hnodup e.1
      have hleft : (((removePlanned service m e).plannedFor service).map (·.1)).Nodup := by
        rw [removePlanned, hremoved, if_pos rfl]
        exact hnodup.sublist (List.filter_sublist.map _)
      obtain ⟨hchanged, hplanned⟩ := ih hleft
      refine ⟨(ComponentMapManager.PlanChanged.remove m service e.1).trans hchanged, fun s => ?_⟩
      rw [List.foldl_cons, hplanned, removePlanned, hremoved, hremoved, if_pos rfl]
      by_cases hs : service = s
      · rw [if_pos hs, if_pos hs, List.filter_filter]
        refine List.filter_congr fun p _ => ?_
        rw [← Bool.decide_and, decide_eq_decide, List.map_cons, List.mem_cons, not_or]
        exact and_comm
      · rw [if_neg hs, if_neg hs, if_neg hs]

/-- What the map and the plans are when the shares are computed. -/
structure NewMap (b : ComponentBalancer) (m : ComponentMapManager) (service : String)
    (aborted : Transfers) (map : InternalBasicMap) (m₁ : ComponentMapManager) : Prop where
  lists : ListsOwners map (unplanned (m.ownerId service)
    (b.keptPlans service (m.ownerId service) (m.plannedFor service)))
  counts : ∀ id, counted map id = m.booked service
    (b.keptPlans service (m.ownerId service) (m.plannedFor service)) id
  planned : ∀ s, m₁.plannedFor s = if service = s then
    (b.keptPlans service (m.ownerId service) (m.plannedFor service)).filter
      fun p => p.1 ∉ aborted.map (·.1)
    else m.plannedFor s


theorem ownerId_ne_none {c : Int} (hlow : 0 ≤ c) (hhigh : c < m.componentCount service) :
    m.ownerId service c ≠ none := by
  have hlt : c.toNat < ((m.basicOwners service).getD []).length := by
    rw [ComponentMapManager.componentCount] at hhigh
    omega
  have hbasic : m.basicOwnerId service c ≠ none := by
    simp [ComponentMapManager.basicOwnerId, hlow, hlt]
  rw [ComponentMapManager.ownerId]
  exact fun hnone => hbasic (Option.or_eq_none_iff.mp hnone).2

/-- The components that a service owns, as many as are listed there before the plans are merged. -/
theorem length_listed {map : InternalBasicMap}
    (hrange : InRange (m.componentCount service) (m.transfersFor service))
    (h : ListsOwners map (m.ownerId service)) (id : String) :
    (listed map id).length = m.owned service id := by
  have hperm : (listed map id).Perm (((List.range (m.componentCount service)).filter
      fun c : Nat => m.ownerId service c = some id).map Int.ofNat) := by
    refine (List.perm_ext_iff_of_nodup (h.nodup id)
      ((List.nodup_range.filter _).map fun a b hab => Int.ofNat.inj hab)).mpr fun c => ?_
    rw [h.mem, List.mem_map]
    constructor
    · intro hc
      obtain ⟨hlow, hhigh⟩ := ownerId_inRange hrange (c := c) (by simp [hc])
      refine ⟨c.toNat, List.mem_filter.mpr ⟨List.mem_range.mpr (by omega), ?_⟩, by simp [hlow]⟩
      simpa [Int.toNat_of_nonneg hlow] using hc
    · rintro ⟨n, hn, rfl⟩
      simpa using (List.mem_filter.mp hn).2
  rw [hperm.length_eq, List.length_map, ← List.countP_eq_length_filter,
    ComponentMapManager.owned]

theorem length_listed_unplanned {map map' : InternalBasicMap} {owner : Int → Option String}
    {kept : Transfers} (h : ListsOwners map owner) (h' : ListsOwners map' (unplanned owner kept))
    (honce : (kept.map (·.1)).Nodup) (id : String) :
    (listed map id).length =
      (listed map' id).length + kept.countP fun p => owner p.1 = some id := by
  have honce' : ((kept.filter fun p => owner p.1 = some id).map (·.1)).Nodup :=
    honce.sublist (List.filter_sublist.map _)
  have hperm : (listed map id).Perm
      (listed map' id ++ (kept.filter fun p => owner p.1 = some id).map (·.1)) := by
    refine (List.perm_ext_iff_of_nodup (h.nodup id) (List.nodup_append.mpr
      ⟨h'.nodup id, honce', fun c hc c' hc' heq => ?_⟩)).mpr fun c => ?_
    · obtain ⟨p, hp, rfl⟩ := List.mem_map.mp hc'
      have hin : p.1 ∈ kept.map (·.1) := List.mem_map_of_mem (List.mem_of_mem_filter hp)
      rw [h'.mem, heq, unplanned, if_pos hin] at hc
      cases hc
    · rw [h.mem, List.mem_append, h'.mem]
      by_cases hc : c ∈ kept.map (·.1)
      · rw [unplanned, if_pos hc, List.mem_map]
        obtain ⟨p, hp, rfl⟩ := List.mem_map.mp hc
        constructor
        · exact fun howner => .inr ⟨p, List.mem_filter.mpr ⟨hp, by simpa using howner⟩, rfl⟩
        · rintro (hnone | ⟨q, hq, heq⟩)
          · cases hnone
          · rw [← heq]
            simpa using (List.mem_filter.mp hq).2
      · rw [unplanned, if_neg hc, List.mem_map]
        constructor
        · exact .inl
        · rintro (howner | ⟨q, hq, rfl⟩)
          · exact howner
          · exact absurd (List.mem_map_of_mem (List.mem_of_mem_filter hq)) hc
  rw [hperm.length_eq, List.length_append, List.length_map, ← List.countP_eq_length_filter]

theorem newMap (h : m.Consistent service) (b : ComponentBalancer) (aborted : Transfers) :
    NewMap b m service aborted (b.newBalancingMap m service aborted).1
      (b.newBalancingMap m service aborted).2 := by
  let m' := aborted.foldl (removePlanned service) m
  obtain ⟨hchanged, hplanned⟩ : m.PlanChanged m' ∧ ∀ s, m'.plannedFor s =
      if service = s then (m.plannedFor service).filter fun p => p.1 ∉ aborted.map (·.1)
      else m.plannedFor s := foldl_removePlanned h.once
  have howner : m'.ownerId = m.ownerId := hchanged.ownerId
  have hcount : m'.componentCount = m.componentCount := by
    funext s
    rw [ComponentMapManager.componentCount, ComponentMapManager.componentCount,
      hchanged.basicOwners]
  have hrange : InRange (m'.componentCount service) (m'.transfersFor service) := by
    rw [hcount, hchanged.transfersFor]
    exact h.transfers
  have hprepared := prepared_merged hrange
  rw [howner] at hprepared
  have honce : ((m'.plannedFor service).map (·.1)).Nodup := by
    rw [hplanned, if_pos rfl]
    exact h.once.sublist (List.filter_sublist.map _)
  have hmerged : PlannedMerged b service (m.ownerId service) (m.plannedFor service)
      (mergeTransientIntoInternalBasicMap m' service (prepareInternalBasicMap m' service)) m'
      (b.newBalancingMap m service aborted) := plannedMerged hprepared.lists h.once honce
  have hkept : ((b.keptPlans service (m.ownerId service) (m.plannedFor service)).map
      (·.1)).Nodup := h.once.sublist (List.filter_sublist.map _)
  refine ⟨hmerged.lists, fun id => ?_, fun s => ?_⟩
  · have hcounts := hmerged.counts id
    have hlength := length_listed_unplanned hprepared.lists hmerged.lists hkept id
    have hbefore := hprepared.counts id
    have howned := length_listed h.transfers hprepared.lists id
    have hdestinations : (b.keptPlans service (m.ownerId service) (m.plannedFor service)).countP
        (fun p => (m.ownerId service p.1).isSome ∧ p.2.serviceId = id) =
          (b.keptPlans service (m.ownerId service) (m.plannedFor service)).countP
            fun p => p.2.serviceId = id := by
      refine List.countP_congr fun p hp => ?_
      obtain ⟨hlow, hhigh⟩ := h.plans p (List.mem_of_mem_filter hp)
      simp [Option.isSome_iff_ne_none, ownerId_ne_none hlow hhigh]
    rw [hdestinations] at hcounts
    rw [ComponentMapManager.booked]
    omega
  · rw [hmerged.planned, hplanned, hplanned, if_pos rfl]
    by_cases hs : service = s
    · rw [if_pos hs, if_pos hs, keptPlans, List.filter_filter, List.filter_filter]
      refine List.filter_congr fun p hp => ?_
      have hwithdrawn : p.1 ∈ (b.withdrawnPlans service (m.ownerId service)
          (m.plannedFor service)).map (·.1) ↔ b.Withdrawn service (m.ownerId service) p := by
        constructor
        · intro hin
          obtain ⟨q, hq, heq⟩ := List.mem_map.mp hin
          obtain ⟨hq, hw⟩ := List.mem_filter.mp hq
          rw [← List.inj_on_of_nodup_map h.once hq hp heq]
          simpa using hw
        · exact fun hw => List.mem_map_of_mem (List.mem_filter.mpr ⟨hp, by simpa using hw⟩)
      rw [← Bool.decide_and, ← Bool.decide_and, decide_eq_decide, hwithdrawn]
      exact and_comm
    · rw [if_neg hs, if_neg hs, if_neg hs]

/-! ### The plan -/

theorem transferWhile_append (source destination : Share) (list : List Int) :
    (transferWhile source destination list).1 ++ (transferWhile source destination list).2.1 =
      list := by
  induction list generalizing source destination with
  | nil => rfl
  | cons c list ih =>
      unfold transferWhile
      split
      · exact congrArg (c :: ·) (ih _ _)
      · rfl

theorem transferFrom_append (records : List NodeInfoFileRecord) (source : Share)
    (list : List Int) (destinations : List Share) :
    (transferFrom records source list destinations).1.map (·.1) ++
      (transferFrom records source list destinations).2.1 = list := by
  induction destinations generalizing source list with
  | nil => rfl
  | cons d ds ih =>
      have hwhile := transferWhile_append source d list
      unfold transferFrom
      split
      · rfl
      · split
        · exact ih source list
        · simp only [List.map_append, List.map_map, List.append_assoc, ih]
          simpa [Function.comp_def] using hwhile

/-- The plan is for components listed at the source, and is added to what is planned. -/
structure PlannedFrom (m : ComponentMapManager) (service source : String) (map : InternalBasicMap)
    (plan : Transfers) (m' : ComponentMapManager) : Prop where
  listed : (plan.map (·.1)).Sublist (ComponentBalancer.listed map source)
  planned : ∀ s, m'.plannedFor s =
    if service = s then m.plannedFor service ++ plan else m.plannedFor s

theorem PlannedFrom.nil (map : InternalBasicMap) (h : ∀ s, m'.plannedFor s = m.plannedFor s) :
    PlannedFrom m service source map [] m' where
  listed := List.nil_sublist _
  planned s := by
    by_cases hs : service = s
    · simp [hs, h]
    · simp [hs, h]

theorem plannedFrom_transferAll (records : List NodeInfoFileRecord) {s : Share}
    (hs : s.serviceId = source) (destinations : List Share) (map : InternalBasicMap) :
    PlannedFrom m service source map
      ((transferAll records service [s] destinations map (∅, m)).1[source]?.getD [])
      (transferAll records service [s] destinations map (∅, m)).2 := by
  subst hs
  unfold transferAll
  split
  next => exact .nil map fun _ => rfl
  next list count hget =>
    split
    next => exact .nil map fun _ => rfl
    next =>
      have happend := transferFrom_append records s list destinations
      generalize transferFrom records s list destinations = r at happend
      obtain ⟨moved, left, destinations'⟩ := r
      have hlisted : ComponentBalancer.listed map s.serviceId = list := by
        simp [ComponentBalancer.listed, hget]
      have hplan : (if moved = [] then (∅ : InternalPlannedMap) else
          (∅ : InternalPlannedMap).insert s.serviceId
            ((∅ : InternalPlannedMap)[s.serviceId]?.getD [] ++ moved))[s.serviceId]?.getD [] =
              moved := by
        by_cases hnone : moved = []
        · simp [hnone]
        · simp [hnone]
      simp only [transferAll]
      rw [hplan]
      refine ⟨?_, (ComponentMapManager.foldl_addPlanned service moved m).2⟩
      rw [hlisted, ← happend]
      exact List.sublist_append_left _ _

theorem plannedFor_firstComponents (records : List NodeInfoFileRecord) (destinations : List Share)
    (acc : List ComponentInfoRecord × ComponentMapManager) (s : String) :
    (destinations.foldl (firstComponents records service) acc).2.plannedFor s =
      acc.2.plannedFor s := by
  induction destinations generalizing acc with
  | nil => rfl
  | cons d ds ih =>
      rw [List.foldl_cons, ih]
      unfold firstComponents ComponentMapManager.writeInComponentFile
      simp only
      split
      · rfl
      · rfl

theorem plannedFrom_transferComponents (b : ComponentBalancer) {shares : Shares}
    (hdistinct : (shares.sources.map (·.serviceId)).Nodup) (map : InternalBasicMap) :
    let r := b.transferComponents service map
      { shares with sources := shares.sources.filter (·.serviceId = source) } m
    PlannedFrom m service source map (r.1[source]?.getD []) r.2 := by
  have hids : ∀ s ∈ shares.sources.filter (·.serviceId = source), s.serviceId = source :=
    fun s hs => by simpa using (List.mem_filter.mp hs).2
  have hfiltered : ((shares.sources.filter (·.serviceId = source)).map (·.serviceId)).Nodup :=
    hdistinct.sublist (List.filter_sublist.map _)
  unfold transferComponents
  generalize shares.sources.filter (·.serviceId = source) = sources at hids hfiltered
  match sources with
  | [] =>
      simp only
      split
      · exact .nil map fun s => plannedFor_firstComponents _ _ _ s
      · exact .nil map fun s => rfl
  | [s] =>
      rw [if_neg fun h => List.cons_ne_nil s [] h.2]
      exact plannedFrom_transferAll _ (hids s List.mem_cons_self) _ map
  | s :: s' :: rest =>
      have hsame : s.serviceId = s'.serviceId := by
        rw [hids s List.mem_cons_self, hids s' (List.mem_cons_of_mem s List.mem_cons_self)]
      simp [hsame] at hfiltered

theorem plannedFrom_getNewBalancingForSource (b : ComponentBalancer) (m : ComponentMapManager)
    (service source : String) (aborted : Transfers) :
    PlannedFrom (b.newBalancingMap m service aborted).2 service source
      (b.newBalancingMap m service aborted).1
      (b.getNewBalancingForSource m service source aborted).1
      (b.getNewBalancingForSource m service source aborted).2.2 := by
  rw [getNewBalancingForSource_eq]
  simp only
  split
  next => exact .nil _ fun _ => rfl
  next shares hbalance =>
    refine plannedFrom_transferComponents b.withoutServices ?_ _
    rw [← (balanceComponents_eq_some hbalance).1]
    refine (allShares_from _ _ _ _).distinct.nodup ?_
    rw [TreeMap.map_fst_toList_eq_keys]
    exact TreeMap.nodup_keys

/-! ### Plans that are still booked -/

/-- Plans that are given up change no count if and only if they lead back to where they start. -/
theorem booked_filter_iff {plans : Transfers} {p : Int × ComponentInfoRecord → Bool}
    (hsource : ∀ e ∈ plans, p e = false → m.ownerId service e.1 = some source) :
    (∀ id, m.booked service plans id = m.booked service (plans.filter p) id) ↔
      ∀ e ∈ plans, p e = false → e.2.serviceId = source := by
  let gone := plans.filter fun e => ! p e
  have hgone : ∀ e, e ∈ gone ↔ e ∈ plans ∧ p e = false := fun e => by
    rw [List.mem_filter, Bool.not_eq_true']
  have hsplit : ∀ q : Int × ComponentInfoRecord → Bool,
      plans.countP q = (plans.filter p).countP q + gone.countP q := fun q =>
    List.countP_eq_countP_filter_add plans q p
  have hcounts : (∀ id, m.booked service plans id = m.booked service (plans.filter p) id) ↔
      ∀ id, (gone.countP fun e => m.ownerId service e.1 = some id) =
        gone.countP fun e => e.2.serviceId = id := by
    refine forall_congr' fun id => ?_
    have hfrom := hsplit fun e => m.ownerId service e.1 = some id
    have hto := hsplit fun e => e.2.serviceId = id
    unfold ComponentMapManager.booked
    omega
  rw [hcounts]
  constructor
  · intro hsame e he hp
    have hall : (gone.countP fun e => m.ownerId service e.1 = some source) = gone.length :=
      List.countP_eq_length.mpr fun e he => by
        simpa using hsource e ((hgone e).mp he).1 ((hgone e).mp he).2
    rw [hsame] at hall
    simpa using List.countP_eq_length.mp hall e ((hgone e).mpr ⟨he, hp⟩)
  · intro hback id
    refine List.countP_congr fun e he => ?_
    obtain ⟨hin, hp⟩ := (hgone e).mp he
    simp [hsource e hin hp, hback e hin hp]

/-- The new plan is for components of the source that have no other plan, the shares are computed
with what is planned besides, and the plans of the other sources stay. -/
structure ReplansSource (b : ComponentBalancer) (m : ComponentMapManager) (service source : String)
    (aborted : Transfers) : Prop where
  owned : ∀ e ∈ (b.getNewBalancingForSource m service source aborted).1,
    m.ownerId service e.1 = some source
  once : ((b.getNewBalancingForSource m service source aborted).1.map (·.1)).Nodup
  only : ∀ e ∈ (b.getNewBalancingForSource m service source aborted).1,
    ∀ p ∈ (b.getNewBalancingForSource m service source aborted).2.2.plannedFor service,
      p.1 = e.1 → p = e
  removed : ∀ p ∈ (b.newBalancingMap m service aborted).2.plannedFor service,
    p.1 ∉ aborted.map (·.1)
  shares : ∀ id, counted (b.newBalancingMap m service aborted).1 id =
    m.booked service ((b.newBalancingMap m service aborted).2.plannedFor service) id
  others : ((b.getNewBalancingForSource m service source aborted).2.2.plannedFor service).filter
      (fun p => m.ownerId service p.1 ≠ some source) =
    (m.plannedFor service).filter fun p => m.ownerId service p.1 ≠ some source
  otherTypes : ∀ s, service ≠ s →
    (b.getNewBalancingForSource m service source aborted).2.2.plannedFor s = m.plannedFor s

/-- A new plan for a source does what it should if and only if every plan of an aborted component is
withdrawn when the plans are merged, or leads back to the source, and no plan of another source is
withdrawn. -/
theorem replans_source_iff (h : m.Consistent service)
    (haborted : ∀ e ∈ aborted, m.ownerId service e.1 = some source) (b : ComponentBalancer) :
    ReplansSource b m service source aborted ↔
      (∀ p ∈ m.plannedFor service, p.1 ∈ aborted.map (·.1) →
        b.Withdrawn service (m.ownerId service) p ∨ p.2.serviceId = source) ∧
      ∀ p ∈ m.plannedFor service, m.ownerId service p.1 ≠ some source →
        ¬ b.Withdrawn service (m.ownerId service) p := by
  have hmap := newMap h b aborted
  have hplan := plannedFrom_getNewBalancingForSource b m service source aborted
  let kept := b.keptPlans service (m.ownerId service) (m.plannedFor service)
  have hkept : ∀ p, p ∈ kept ↔
      p ∈ m.plannedFor service ∧ ¬ b.Withdrawn service (m.ownerId service) p := fun p => by
    simp [kept, keptPlans]
  have hleft : (b.newBalancingMap m service aborted).2.plannedFor service =
      kept.filter fun p => p.1 ∉ aborted.map (·.1) := by
    rw [hmap.planned, if_pos rfl]
  have hsource : ∀ p ∈ kept, decide (p.1 ∉ aborted.map (·.1)) = false →
      m.ownerId service p.1 = some source := fun p _ hp => by
    obtain ⟨e, he, heq⟩ := List.mem_map.mp (not_not.mp (of_decide_eq_false hp))
    rw [← heq]
    exact haborted e he
  have hshares : (∀ id, counted (b.newBalancingMap m service aborted).1 id =
      m.booked service ((b.newBalancingMap m service aborted).2.plannedFor service) id) ↔
        ∀ p ∈ m.plannedFor service, p.1 ∈ aborted.map (·.1) →
          b.Withdrawn service (m.ownerId service) p ∨ p.2.serviceId = source := by
    simp only [hmap.counts, hleft]
    rw [booked_filter_iff hsource]
    constructor
    · intro hback p hp hin
      by_cases hw : b.Withdrawn service (m.ownerId service) p
      · exact .inl hw
      · exact .inr (hback p ((hkept p).mpr ⟨hp, hw⟩) (by simpa using hin))
    · intro hback p hp hin
      obtain ⟨hplanned, hw⟩ := (hkept p).mp hp
      exact (hback p hplanned (by simpa using hin)).resolve_left hw
  -- what is listed at the source is the source's and is not planned
  have hlisted : ∀ e ∈ (b.getNewBalancingForSource m service source aborted).1,
      e.1 ∉ kept.map (·.1) ∧ m.ownerId service e.1 = some source := fun e he => by
    have hin := hplan.listed.subset (List.mem_map_of_mem he)
    rw [hmap.lists.mem, unplanned] at hin
    split at hin
    · cases hin
    · exact ⟨‹_›, hin⟩
  have hothers :
      ((b.getNewBalancingForSource m service source aborted).2.2.plannedFor service).filter
      (fun p => m.ownerId service p.1 ≠ some source) =
        (m.plannedFor service).filter (fun p => m.ownerId service p.1 ≠ some source) ↔
      ∀ p ∈ m.plannedFor service, m.ownerId service p.1 ≠ some source →
        ¬ b.Withdrawn service (m.ownerId service) p := by
    have hnone : (b.getNewBalancingForSource m service source aborted).1.filter
        (fun p => m.ownerId service p.1 ≠ some source) = [] :=
      List.filter_eq_nil_iff.mpr fun e he => by simp [(hlisted e he).2]
    have hfilter : (kept.filter fun p => p.1 ∉ aborted.map (·.1)).filter
        (fun p => m.ownerId service p.1 ≠ some source) =
          ((m.plannedFor service).filter fun p => m.ownerId service p.1 ≠ some source).filter
            fun p => ¬ b.Withdrawn service (m.ownerId service) p := by
      simp only [kept, keptPlans, List.filter_filter]
      refine List.filter_congr fun p _ => ?_
      simp only [← Bool.decide_and, decide_eq_decide]
      constructor
      · exact fun hp => ⟨hp.2.2, hp.1⟩
      · refine fun hp => ⟨hp.2, fun hin => hp.2 ?_, hp.1⟩
        obtain ⟨e, he, heq⟩ := List.mem_map.mp hin
        rw [← heq]
        exact haborted e he
    rw [hplan.planned, if_pos rfl, hleft, List.filter_append, hnone, List.append_nil, hfilter,
      List.filter_eq_self]
    simp only [List.mem_filter, decide_eq_true_eq, and_imp]
  constructor
  · exact fun hreplans => ⟨hshares.mp hreplans.shares, hothers.mp hreplans.others⟩
  · rintro ⟨hback, hkeeps⟩
    exact
      { owned := fun e he => (hlisted e he).2
        once := (hmap.lists.nodup source).sublist hplan.listed
        only := fun e he p hp heq => by
          have honce := (hmap.lists.nodup source).sublist hplan.listed
          rw [hplan.planned, if_pos rfl, hleft] at hp
          rcases List.mem_append.mp hp with hp | hp
          · have hin := List.mem_map_of_mem (f := (·.1)) (List.mem_of_mem_filter hp)
            exact absurd (heq ▸ hin) (hlisted e he).1
          · exact List.inj_on_of_nodup_map honce hp he heq
        removed := fun p hp => by
          rw [hleft] at hp
          simpa using (List.mem_filter.mp hp).2
        shares := hshares.mpr hback
        others := hothers.mpr hkeeps
        otherTypes := fun s hs => by
          rw [hplan.planned, if_neg hs, hmap.planned, if_neg hs] }

end

/-! ### An aborted transfer to a healthy node -/

/-- Two healthy nodes; a third one has failed and is recovered. -/
def nodeRecovered : ComponentBalancer :=
  { twoHealthyNodes with
    recoveredNodeList := ["node3"]
    totalNoOfComponents := 4 }

/-- Four components of one owner, of which the first is planned to go to the other one. -/
def firstPlanned : ComponentMapManager :=
  { ownedByOne with
    basicMap := .ofList
      [(containerService, (List.replicate 4 ComponentMapManager.oneOwner, (1 : Rat)))]
    plannedMap := .ofList [(containerService, [((0 : Int), ComponentMapManager.otherOwner)])] }

/-- What the first node was to transfer; the plan for the failed node is gone already. -/
def twoAborted : Transfers :=
  [(0, ComponentMapManager.otherOwner), (1, ComponentMapManager.thirdOwner)]

theorem consistent_firstPlanned : firstPlanned.Consistent containerService :=
  ⟨by decide +kernel, by decide +kernel, by decide +kernel⟩

theorem owned_twoAborted : ∀ e ∈ twoAborted,
    firstPlanned.ownerId containerService e.1 = some "node1_container-server" := by
  decide +kernel

theorem replans_source_two :
    ReplansSource nodeRecovered firstPlanned containerService "node1_container-server" twoAborted ↔
      (∀ p ∈ firstPlanned.plannedFor containerService, p.1 ∈ twoAborted.map (·.1) →
        nodeRecovered.Withdrawn containerService (firstPlanned.ownerId containerService) p ∨
          p.2.serviceId = "node1_container-server") ∧
      ∀ p ∈ firstPlanned.plannedFor containerService,
        firstPlanned.ownerId containerService p.1 ≠ some "node1_container-server" →
          ¬ nodeRecovered.Withdrawn containerService (firstPlanned.ownerId containerService) p :=
  replans_source_iff consistent_firstPlanned owned_twoAborted nodeRecovered

/-- The first component is counted at the second node, though its transfer is no longer planned: one
component is planned where two are over, and the first one is in no plan. -/
theorem aborted_component_stays_booked :
    ((nodeRecovered.getNewBalancingForSource firstPlanned containerService
        "node1_container-server" twoAborted).1.map fun e => (e.1, e.2.serviceId)) =
      [(1, "node2_container-server")] ∧
    counted (nodeRecovered.newBalancingMap firstPlanned containerService twoAborted).1
      "node1_container-server" = 3 ∧
    firstPlanned.owned containerService "node1_container-server" = 4 ∧
    (nodeRecovered.newBalancingMap firstPlanned containerService twoAborted).2.plannedFor
      containerService = [] ∧
    ¬ ReplansSource nodeRecovered firstPlanned containerService "node1_container-server"
      twoAborted := by
  have hplan : ((nodeRecovered.getNewBalancingForSource firstPlanned containerService
      "node1_container-server" twoAborted).1.map fun e => (e.1, e.2.serviceId)) =
        [(1, "node2_container-server")] := by decide +kernel
  have hcounted : counted (nodeRecovered.newBalancingMap firstPlanned containerService
      twoAborted).1 "node1_container-server" = 3 := by decide +kernel
  have howned : firstPlanned.owned containerService "node1_container-server" = 4 := by
    decide +kernel
  have hleft : (nodeRecovered.newBalancingMap firstPlanned containerService
      twoAborted).2.plannedFor containerService = [] := by decide +kernel
  refine ⟨hplan, hcounted, howned, hleft, fun hreplans => ?_⟩
  have hshares := hreplans.shares "node1_container-server"
  rw [hcounted, hleft, ComponentMapManager.booked, howned] at hshares
  cases hshares

end ComponentBalancer

end ObjectStorage.Osm
