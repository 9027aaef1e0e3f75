import ObjectStorage.Osm.Rebalancing

/-!
The plan of the balancer is executed, and the balancer runs again with no change of the members:
the components that are over go by the places of the services, which may have changed.
-/

namespace ObjectStorage.Osm

open Std Library

namespace ComponentMapManager

variable {m m' : ComponentMapManager} {service : String}

/-- Every planned transfer of the service is made and reported, and the maps are merged. -/
def executePlans (m : ComponentMapManager) (service : String) : Option ComponentMapManager :=
  (m.updateTransientMap service (m.plannedFor service)).2.mergeBasicAndTransientMap

/-- How many components a service owns in the global map. -/
def componentsOf (m : ComponentMapManager) (service id : String) : Nat :=
  ((m.owners service).getD []).countP fun o => o.serviceId = id

theorem filled_updateTransientMap (h : m.Filled) (service : String) (transferred : Transfers) :
    (m.updateTransientMap service transferred).2.Filled := by
  have hpush : ∀ (m : ComponentMapManager) e, m.Filled → (m.pushTransferred service e).Filled :=
    fun m e hm => by
      unfold pushTransferred
      split <;> exact hm
  have hraise : ∀ m : ComponentMapManager, m.Filled → (m.raiseVersions service).Filled :=
    fun m hm => by
      unfold raiseVersions
      split <;> exact hm
  have hloop : ∀ (es : Transfers) (acc : ComponentMapManager × Transfers), acc.1.Filled →
      (es.foldl (transferComponent service) acc).1.Filled := by
    intro es
    induction es with
    | nil => exact fun acc hacc => hacc
    | cons e es ih =>
        intro acc hacc
        refine ih _ ?_
        have hremoved := (PlanChanged.remove acc.1 service e.1).filled hacc
        simp only [transferComponent]
        split
        · exact hpush _ e hremoved
        · exact hremoved
  unfold updateTransientMap
  split
  · exact hraise _ (hloop transferred (m, []) h)
  · exact h

theorem foldl_addPlanned (service : String) (es : Transfers) (m : ComponentMapManager) :
    PlanChanged m (es.foldl (ComponentBalancer.addPlanned service) m) ∧
      ∀ s, (es.foldl (ComponentBalancer.addPlanned service) m).plannedFor s =
        if service = s then m.plannedFor service ++ es else m.plannedFor s := by
  induction es generalizing m with
  | nil =>
      refine ⟨.refl m, fun s => ?_⟩
      by_cases hs : service = s <;> simp [hs]
  | cons e es ih =>
      obtain ⟨hchanged, hplanned⟩ := ih (ComponentBalancer.addPlanned service m e)
      refine ⟨(PlanChanged.add m service e.1 e.2).trans hchanged, fun s => ?_⟩
      rw [List.foldl_cons, hplanned, ComponentBalancer.addPlanned, plannedFor_add, plannedFor_add]
      by_cases hs : service = s
      · simp [hs]
      · simp [hs]

theorem PlanChanged.basicOwners (h : PlanChanged m m') : m'.basicOwners = m.basicOwners := by
  obtain ⟨⟨planned, rfl⟩, -⟩ := h
  rfl

theorem PlanChanged.transfersFor (h : PlanChanged m m') : m'.transfersFor = m.transfersFor := by
  obtain ⟨⟨planned, rfl⟩, -⟩ := h
  rfl

/-- What the execution of the plans of a service leaves behind. -/
structure Executed (m : ComponentMapManager) (service : String) (m' : ComponentMapManager) :
    Prop where
  unplanned : m'.isGlobalPlannedEmpty service = true
  transfersFor : ∀ s, m'.transfersFor s = []
  basicOwners : ∀ s, m'.basicOwners s = m'.owners s
  ownerId : m'.ownerId service = fun c =>
    ((lastAt (m.plannedFor service) c).map (·.serviceId)).or (m.ownerId service c)
  componentCount : m'.componentCount service = m.componentCount service

theorem executePlans_spec (hservice : service ∈ mergedServices) (hfilled : m.Filled)
    (hrange : m.TransfersInRange)
    {basic : Owners} (hbasic : m.basicOwners service = some basic)
    (hplanned : InRange basic.length (m.plannedFor service)) :
    ∃ m', m.executePlans service = some m' ∧ Executed m service m' := by
  obtain ⟨status, m₁, hupdate, ht⟩ := m.updateTransientMap_spec service (m.plannedFor service)
  rw [settle_self] at ht hupdate
  have hfilled₁ : m₁.Filled := by
    have hm₁ := m.filled_updateTransientMap hfilled service (m.plannedFor service)
    rwa [hupdate] at hm₁
  have hbasic₁ : ∀ s, m₁.basicOwners s = m.basicOwners s := fun s => by
    simp [ComponentMapManager.basicOwners, ht.basicMap]
  have hrange₁ : m₁.TransfersInRange := fun s hs owners howners => by
    rw [hbasic₁] at howners
    rw [ht.transfersFor]
    by_cases hserv : service = s
    · subst hserv
      obtain rfl := Option.some.inj (hbasic.symm.trans howners)
      rw [if_pos rfl]
      intro e he
      rcases List.mem_append.mp he with he | he
      · exact hrange service hs _ hbasic e he
      · exact hplanned e he
    · rw [if_neg hserv]
      exact hrange s hs owners howners
  obtain ⟨m', hmerge, hmerged, -, howners⟩ := merge_owners hrange₁
  have hplannedFor : m'.plannedFor service = [] := by
    have hfirst := ht.plannedFor service
    rw [if_pos rfl] at hfirst
    simpa [plannedFor, hmerged.plannedMap] using hfirst
  have htransfers : ∀ s, m'.transfersFor s = [] := fun s => by
    simp [ComponentMapManager.transfersFor, hmerged.transientMap]
  -- the owners that the merge has put into the basic map
  have hover := (owners_spec hrange₁ service).1 hservice
  have htransfersFor := ht.transfersFor service
  rw [if_pos rfl] at htransfersFor
  rw [hbasic₁, hbasic, htransfersFor] at hover
  obtain ⟨ys, hys, hsome⟩ := Option.map_eq_some_iff.mp hover
  have hbasic' : m'.basicOwners service = some ys := (howners service).2.trans hsome.symm
  have hlength := overlay_length hys
  have hinrange := overlay_isSome.mp ⟨ys, hys⟩
  refine ⟨m', by rw [executePlans, hupdate, hmerge], ?_, htransfers, fun s => ?_, ?_, ?_⟩
  · refine (isGlobalPlannedEmpty_iff ?_ service).mpr hplannedFor
    exact fun s => by
      rw [hmerged.plannedMap]
      exact hfilled₁ s
  · rw [(howners s).2, (howners s).1]
  · funext c
    have hlast : ((lastAt (m.plannedFor service) c).map (·.serviceId)).or (m.ownerId service c) =
        ((lastAt (m.transfersFor service ++ m.plannedFor service) c).map (·.serviceId)).or
          (m.basicOwnerId service c) := by
      rw [lastAt_append, ComponentMapManager.ownerId]
      cases lastAt (m.plannedFor service) c <;> simp
    rw [hlast, ComponentMapManager.ownerId, htransfers, lastAt_nil, Option.map_none,
      Option.none_or, basicOwnerId, basicOwnerId, hbasic', hbasic, Option.getD_some,
      Option.getD_some]
    by_cases hc : 0 ≤ c ∧ c < basic.length
    · have hnat : c.toNat < basic.length := by omega
      have hcast : (c.toNat : Int) = c := Int.toNat_of_nonneg hc.1
      have hget := overlay_getElem? hys hnat
      rw [hcast] at hget
      rw [if_pos hc.1, if_pos hc.1, hget]
      cases lastAt (m.transfersFor service ++ m.plannedFor service) c <;> simp
    · have hnone : lastAt (m.transfersFor service ++ m.plannedFor service) c = none := by
        rw [lastAt_eq_none]
        rintro hin
        obtain ⟨e, he, rfl⟩ := List.mem_map.mp hin
        exact hc (hinrange e he)
      rw [hnone, Option.map_none, Option.none_or]
      by_cases hlow : 0 ≤ c
      · have hout : basic.length ≤ c.toNat := by omega
        rw [if_pos hlow, if_pos hlow, List.getElem?_eq_none hout,
          List.getElem?_eq_none (hlength ▸ hout)]
      · rw [if_neg hlow, if_neg hlow]
  · rw [componentCount, componentCount, hbasic', hbasic, Option.getD_some, Option.getD_some,
      hlength]

end ComponentMapManager

namespace ComponentBalancer

section

variable {m : ComponentMapManager} {service : String} {map : InternalBasicMap}

private theorem counted_foldl_zipIdx (owners : Owners) (n : Nat) (map : InternalBasicMap)
    (id : String) :
    counted ((owners.zipIdx n).foldl (fun map (owner, component) =>
        addEntryInInternalBasicMap map component owner.serviceId) map) id =
      counted map id + owners.countP fun o => o.serviceId = id := by
  induction owners generalizing n map with
  | nil => simp
  | cons o owners ih =>
      rw [List.zipIdx_cons, List.foldl_cons, ih, counted_addEntry, List.countP_cons]
      by_cases hid : o.serviceId = id
      · simp [hid]
        omega
      · simp [hid]

theorem counted_prepare (m : ComponentMapManager) (service id : String) :
    counted (prepareInternalBasicMap m service) id =
      ((m.basicOwners service).getD []).countP fun o => o.serviceId = id := by
  unfold prepareInternalBasicMap ComponentMapManager.basicOwners
  cases h : m.basicMap[service]? with
  | none => simp [counted]
  | some entry =>
      simp only [Option.map_some, Option.getD_some]
      rw [counted_foldl_zipIdx]
      simp [counted]

private theorem mem_foldl_zipIdx (owners : Owners) (n : Nat) (map : InternalBasicMap)
    (id : String) :
    id ∈ (owners.zipIdx n).foldl (fun map (owner, component) =>
        addEntryInInternalBasicMap map component owner.serviceId) map ↔
      id ∈ map ∨ ∃ o ∈ owners, o.serviceId = id := by
  induction owners generalizing n map with
  | nil => simp
  | cons o owners ih =>
      rw [List.zipIdx_cons, List.foldl_cons, ih, mem_addEntry]
      simp only [List.mem_cons, exists_eq_or_imp]
      tauto

theorem counted_prepare_pos {id : String} (h : id ∈ prepareInternalBasicMap m service) :
    0 < counted (prepareInternalBasicMap m service) id := by
  rw [counted_prepare]
  unfold prepareInternalBasicMap at h
  unfold ComponentMapManager.basicOwners
  cases hb : m.basicMap[service]? with
  | none => simp [hb] at h
  | some entry =>
      simp only [hb] at h
      obtain hnone | ⟨o, ho, hid⟩ := (mem_foldl_zipIdx _ _ _ _).mp h
      · simp at hnone
      · have hpos : 0 < entry.1.countP fun o => o.serviceId = id :=
          List.countP_pos_iff.mpr ⟨o, ho, by simpa using hid⟩
        simpa using hpos

end

section

variable {b b' : ComponentBalancer} {ids : List String}

/-- What a change of the node lists leaves alone. -/
structure SameServices (b b' : ComponentBalancer) : Prop where
  addition : b'.listOfServicesForAddition = b.listOfServicesForAddition
  deletion : b'.listOfServicesForDeletion = b.listOfServicesForDeletion
  recovery : b'.listOfServicesForRecovery = b.listOfServicesForRecovery
  total : b'.totalNoOfComponents = b.totalNoOfComponents

theorem SameServices.trans {b'' : ComponentBalancer} (h : SameServices b b')
    (h' : SameServices b' b'') : SameServices b b'' :=
  ⟨h'.addition.trans h.addition, h'.deletion.trans h.deletion, h'.recovery.trans h.recovery,
    h'.total.trans h.total⟩

theorem foldl_addNode (ids : List String) (h : b.healthyNodeList.Nodup) :
    SameServices b (ids.foldl addNode b) ∧ (ids.foldl addNode b).healthyNodeList.Nodup := by
  induction ids generalizing b with
  | nil => exact ⟨⟨rfl, rfl, rfl, rfl⟩, h⟩
  | cons id ids ih =>
      have hnodup : (b.addNode id).healthyNodeList.Nodup := by
        simp only [addNode, pushNew]
        split
        · exact h
        · rename_i hnew
          exact List.nodup_append.mpr ⟨h, by simp, fun a ha c hc heq =>
            hnew (List.mem_singleton.mp hc ▸ heq ▸ ha)⟩
      obtain ⟨hsame, hrest⟩ := ih hnodup
      have hadd : SameServices b (b.addNode id) := ⟨rfl, rfl, rfl, rfl⟩
      exact ⟨hadd.trans hsame, hrest⟩

theorem foldl_retireNode (ids : List String) (h : b.healthyNodeList.Nodup) :
    SameServices b (ids.foldl retireNode b) ∧
      (ids.foldl retireNode b).healthyNodeList.Sublist b.healthyNodeList ∧
      ∀ id ∈ ids, getNodeId id ∉ (ids.foldl retireNode b).healthyNodeList := by
  induction ids generalizing b with
  | nil => exact ⟨⟨rfl, rfl, rfl, rfl⟩, .refl _, fun id hid => nomatch hid⟩
  | cons id ids ih =>
      have hsub : (b.retireNode id).healthyNodeList.Sublist b.healthyNodeList := List.erase_sublist
      obtain ⟨hsame, hrest, hgone⟩ := ih (h.sublist hsub)
      have hretire : SameServices b (b.retireNode id) := ⟨rfl, rfl, rfl, rfl⟩
      refine ⟨hretire.trans hsame, hrest.trans hsub, fun id' hid' => ?_⟩
      rcases List.mem_cons.mp hid' with rfl | hid'
      · exact fun hin => (h.mem_erase_iff.mp (hrest.subset hin)).1 rfl
      · exact hgone id' hid'

/-- The nodes of the services that are deleted or recovered do not count as healthy. -/
theorem soundNodes_withServices (h : b.healthyNodeList.Nodup) {service : String}
    (hnamed : '_' ∉ service.toList) (records : List NodeInfoFileRecord)
    (nodeAddition nodeDeletion nodeRecovery : List String) :
    SoundNodes (b.withServices records nodeAddition nodeDeletion nodeRecovery) service ∧
      (b.withServices records nodeAddition nodeDeletion nodeRecovery).totalNoOfComponents =
        b.totalNoOfComponents ∧
      (b.withServices records nodeAddition nodeDeletion
        nodeRecovery).listOfServicesForAddition = sortUnique nodeAddition := by
  let b₀ : ComponentBalancer := { b with
    listOfServicesForAddition := sortUnique nodeAddition
    listOfServicesForDeletion := sortUnique nodeDeletion
    listOfServicesForRecovery := sortUnique nodeRecovery
    nodeInfoFileRecords :=
      if nodeAddition = [] then b.nodeInfoFileRecords else b.nodeInfoFileRecords ++ records }
  obtain ⟨hsame₁, hnodup₁⟩ := foldl_addNode (b := b₀) b₀.listOfServicesForAddition h
  generalize hb₁ : b₀.listOfServicesForAddition.foldl addNode b₀ = b₁ at hsame₁ hnodup₁
  obtain ⟨hsame₂, hsub₂, hgone₂⟩ := foldl_retireNode b₁.listOfServicesForDeletion hnodup₁
  generalize hb₂ : b₁.listOfServicesForDeletion.foldl retireNode b₁ = b₂ at hsame₂ hsub₂ hgone₂
  obtain ⟨hsame₃, hsub₃, hgone₃⟩ :=
    foldl_retireNode b₂.listOfServicesForRecovery (hnodup₁.sublist hsub₂)
  generalize hb₃ : b₂.listOfServicesForRecovery.foldl retireNode b₂ = b₃ at hsame₃ hsub₃ hgone₃
  have hwith : b.withServices records nodeAddition nodeDeletion nodeRecovery = { b₃ with
      unhealthyNodeList := sortUnique b₃.unhealthyNodeList
      healthyNodeList := sortUnique b₃.healthyNodeList } := by
    rw [← hb₃, ← hb₂, ← hb₁]
    rfl
  rw [hwith]
  refine ⟨⟨nodup_sortUnique _, hnamed, fun node hnode hretired => ?_⟩,
    ((hsame₁.trans hsame₂).trans hsame₃).total, ((hsame₁.trans hsame₂).trans hsame₃).addition⟩
  have hnode₃ := mem_sortUnique.mp hnode
  rcases hretired with hretired | hretired
  · have hgone := hgone₃ (getServiceId node service) (hsame₃.recovery ▸ hretired)
    rw [getNodeId_getServiceId hnamed] at hgone
    exact hgone hnode₃
  · have hdeletion : getServiceId node service ∈ b₁.listOfServicesForDeletion := by
      have hsame := hsame₃.deletion.trans hsame₂.deletion
      exact hsame ▸ hretired
    have hgone := hgone₂ _ hdeletion
    rw [getNodeId_getServiceId hnamed] at hgone
    exact hgone (hsub₃.subset hnode₃)

end

section

variable {b : ComponentBalancer} {service : String} {map : InternalBasicMap}
  {m : ComponentMapManager} {owner : Int → Option String}

theorem Planning.transferComponents_isEmpty (h : Planning b service map owner m)
    (hnodes : b.healthyNodeList ≠ []) :
    (b.transferComponents service map (b.allShares service map m) m).1.isEmpty = true ↔
      ∀ s ∈ (b.allShares service map m).sources, s.current = s.expected := by
  have hroomy : Roomy map (b.allShares service map m) := (h.roomy hnodes).2
  unfold transferComponents
  split
  · rename_i hfirst
    simp [hfirst.2]
  · rw [(transferAll_eq b.nodeInfoFileRecords service (fun s hs => by
        obtain ⟨hin, -, hle, -⟩ := hroomy.known s hs
        exact ⟨hin, hle⟩) hroomy.distinct hroomy.within ∅ m).2,
      hroomy.moves_eq_nil_iff h.prepared]
    simp

/-- With no service deleted or recovered, only the services over their share give away. -/
theorem Planning.isEmpty_iff_shares (h : Planning b service map owner m)
    (hnodes : b.healthyNodeList ≠ []) (hretired : ∀ id, ¬ b.Retired id) :
    (b.transferComponents service map (b.allShares service map m) m).1.isEmpty = true ↔
      ∀ k id, (b.shareOrder service map)[k]? = some id → counted map id ≤
        shareAt (b.totalNoOfComponents.tdiv b.healthyNodeList.length)
          (b.totalNoOfComponents.tmod b.healthyNodeList.length) k := by
  have hshares : SharesEq b service map true (b.allShares service map m) :=
    h.unplanned ▸ allShares_eq h.total_nonneg
  have hnone : b.retiredShares map.toList = [] := by
    rw [retiredShares, List.map_eq_nil_iff, List.filter_eq_nil_iff]
    exact fun e _ => by simpa using hretired e.1
  have hsources : ∀ s, s ∈ (b.allShares service map m).sources ↔
      s ∈ b.allAssigned service map ∧ s.expected < s.current := fun s => by
    rw [hshares.sources.mem_iff, hnone, List.nil_append, if_pos rfl, exceeding, List.mem_filter,
      decide_eq_true_eq]
  rw [h.transferComponents_isEmpty hnodes]
  constructor
  · intro hall k id hk
    have hget := @getElem?_allAssigned b service map h.additions k
    rw [hk, Option.map_some] at hget
    refine Int.not_lt.mp fun hlt => ?_
    have heq := hall _ ((hsources _).mpr ⟨List.mem_of_getElem? hget, hlt⟩)
    simp only at heq
    omega
  · intro hall s hs
    obtain ⟨hs, hlt⟩ := (hsources s).mp hs
    obtain ⟨k, hk⟩ := List.mem_iff_getElem?.mp hs
    rw [getElem?_allAssigned h.additions] at hk
    obtain ⟨id, hid, rfl⟩ := Option.map_eq_some_iff.mp hk
    have hle := hall k id hid
    simp only at hlt
    omega

end

section

variable {b : ComponentBalancer} {service : String} {m : ComponentMapManager}

/-- The order of the shares when the balancer runs with no change of the members: the healthy
services with components come first. -/
def nextShareOrder (b : ComponentBalancer) (m : ComponentMapManager) (service : String) :
    List String :=
  (b.withServices [] [] [] []).shareOrder service (prepareInternalBasicMap m service)

theorem sortUnique_nil : sortUnique [] = [] :=
  List.eq_nil_iff_forall_not_mem.mpr fun x hx => by simpa using mem_sortUnique.mp hx

theorem withServices_none (b : ComponentBalancer) (records : List NodeInfoFileRecord) :
    b.withServices records [] [] [] = { b with
      listOfServicesForAddition := []
      listOfServicesForDeletion := []
      listOfServicesForRecovery := []
      unhealthyNodeList := sortUnique b.unhealthyNodeList
      healthyNodeList := sortUnique b.healthyNodeList } := by
  simp [withServices, sortUnique_nil]

/-- Nothing of the service type is planned or waits to be merged, and every healthy service has at
most its share of an earlier run. -/
structure Rested (b : ComponentBalancer) (m : ComponentMapManager) (service : String)
    (order : List String) : Prop where
  named : '_' ∉ service.toList
  nodes : b.healthyNodeList ≠ []
  nodup : b.healthyNodeList.Nodup
  unplanned : m.isGlobalPlannedEmpty service = true
  transfersFor : m.transfersFor service = []
  basicOwners : m.basicOwners service = m.owners service
  total : b.totalNoOfComponents = m.componentCount service
  shares : ∀ id ∈ b.healthyServices service, ∃ k, order[k]? = some id ∧
    (m.componentsOf service id : Int) ≤
      shareAt (b.totalNoOfComponents.tdiv b.healthyNodeList.length)
        (b.totalNoOfComponents.tmod b.healthyNodeList.length) k

theorem Rested.planning {order : List String} (h : Rested b m service order)
    (records : List NodeInfoFileRecord) :
    Planning (b.withServices records [] [] []) service (prepareInternalBasicMap m service)
      (m.ownerId service) m where
  nodes := (soundNodes_withServices h.nodup h.named records [] [] []).1
  additions := by
    rw [withServices_none]
    exact fun id hid => nomatch hid
  prepared := by
    have hprepared := prepared_prepare m service
    have howner : m.ownerId service = m.basicOwnerId service := by
      funext c
      simp [ComponentMapManager.ownerId, h.transfersFor]
    rw [withServices_none, howner]
    simpa [h.total] using hprepared
  unplanned := h.unplanned

/-- `balanced_components_per_node` of a balancer run. -/
def balancedComponentsPerNode (b : ComponentBalancer) : Int :=
  b.totalNoOfComponents.tdiv b.healthyNodeList.length

/-- `unbalanced_components`: so many services get one component more. -/
def unbalancedComponents (b : ComponentBalancer) : Int :=
  b.totalNoOfComponents.tmod b.healthyNodeList.length

/-- The balancer with which a run shares the components out. -/
def planningBalancer (b : ComponentBalancer) (m : ComponentMapManager) (service : String)
    (records : List NodeInfoFileRecord) (nodeAddition nodeDeletion nodeRecovery : List String) :
    ComponentBalancer :=
  let map := mergeTransientIntoInternalBasicMap m service (prepareInternalBasicMap m service)
  let b := b.withServices records nodeAddition nodeDeletion nodeRecovery
  { b with
    listOfServicesForAddition := b.listOfServicesForAddition.filter (· ∉ map) }

theorem getNewPlannedMap_unplanned (b : ComponentBalancer) (records : List NodeInfoFileRecord)
    (nodeAddition nodeDeletion nodeRecovery : List String) (h : m.plannedFor service = []) :
    b.getNewPlannedMap m records service nodeAddition nodeDeletion nodeRecovery =
      let map := mergeTransientIntoInternalBasicMap m service (prepareInternalBasicMap m service)
      let b := b.planningBalancer m service records nodeAddition nodeDeletion nodeRecovery
      match b.balanceComponents service map m with
      | none => (none, b, m)
      | some shares =>
          (some (b.transferComponents service map shares m).1, b,
            (b.transferComponents service map shares m).2) := by
  rw [getNewPlannedMap, h]
  rfl

variable {order : List String}

/-- The places of the next run: what a service has there fits into its share if it is no more than
all get, or if the service is one of the first. -/
theorem Rested.places_iff (h : Rested b m service order)
    (hle : ∀ id ∈ b.healthyServices service,
      (m.componentsOf service id : Int) ≤ b.balancedComponentsPerNode + 1) :
    (∀ k id, (b.nextShareOrder m service)[k]? = some id → (m.componentsOf service id : Int) ≤
        shareAt b.balancedComponentsPerNode b.unbalancedComponents k) ↔
      ∀ id ∈ b.healthyServices service,
        (m.componentsOf service id : Int) ≤ b.balancedComponentsPerNode ∨
          id ∈ (b.nextShareOrder m service).take b.unbalancedComponents.toNat := by
  have hplanning := h.planning []
  have hhealthy : ∀ id, id ∈ b.nextShareOrder m service ↔ id ∈ b.healthyServices service := by
    intro id
    have hsame : id ∈ (b.withServices [] [] [] []).healthyServices service ↔
        id ∈ b.healthyServices service := by
      simp [healthyServices, withServices_none]
    rw [← hsame]
    refine ⟨fun hid => ?_, fun hid => hplanning.nodes.mem_shareOrder hid _⟩
    rcases List.mem_append.mp hid with hid | hid
    · have hgets := of_decide_eq_true (List.mem_filter.mp hid).2
      exact (List.mem_filter.mp hgets.2).1
    · rw [newHealthyServices, mem_sortUnique, List.mem_append] at hid
      rcases hid with hid | hid
      · exact (List.mem_filter.mp hid).1
      · rw [withServices_none] at hid
        cases hid
  constructor
  · intro hall id hid
    obtain ⟨k, hk⟩ := List.mem_iff_getElem?.mp ((hhealthy id).mpr hid)
    have hshare := hall k id hk
    by_cases hfirst : k < b.unbalancedComponents.toNat
    · right
      rw [List.mem_iff_getElem?]
      exact ⟨k, by rw [List.getElem?_take, if_pos hfirst, hk]⟩
    · left
      have hlast : ¬ (k : Int) < b.unbalancedComponents := by omega
      rwa [shareAt, if_neg hlast] at hshare
  · intro hall k id hk
    have hid := (hhealthy id).mp (List.mem_of_getElem? hk)
    have hmost := hle id hid
    unfold shareAt
    split
    · exact hmost
    · rename_i hlast
      refine (hall id hid).resolve_right fun hin => ?_
      obtain ⟨j, hj⟩ := List.mem_iff_getElem?.mp hin
      rw [List.getElem?_take] at hj
      split at hj
      · rename_i hfirst
        have hlt := (List.getElem?_eq_some_iff.mp hk).1
        have hjk :=
          (List.getElem?_inj hlt (nodup_shareOrder hplanning.additions)).mp (hk.trans hj.symm)
        omega
      · cases hj

/-- With fewer components than services, those that have one come first again. -/
theorem Rested.places_of_fewer (h : Rested b m service order)
    (hper : b.balancedComponentsPerNode = 0) (hrest : 0 ≤ b.unbalancedComponents) :
    ∀ id ∈ b.healthyServices service,
      (m.componentsOf service id : Int) ≤ b.balancedComponentsPerNode ∨
        id ∈ (b.nextShareOrder m service).take b.unbalancedComponents.toNat := by
  intro id hid
  rw [hper]
  by_cases hzero : m.componentsOf service id = 0
  · exact .inl (by omega)
  right
  have hplanning := h.planning []
  let b' := b.withServices [] [] [] []
  let map := prepareInternalBasicMap m service
  let olds := map.keys.filter (b'.GetsShare (b'.existingHealthyServices service map))
  have hcount : ∀ id, counted map id = m.componentsOf service id := fun id => by
    rw [counted_prepare, h.basicOwners]
    rfl
  have hsame : ∀ id, id ∈ b'.healthyServices service ↔ id ∈ b.healthyServices service := by
    intro id
    simp [b', healthyServices, withServices_none]
  -- the services that have a component are among the first of the earlier run
  have hfirst : ∀ id ∈ olds, id ∈ order.take b.unbalancedComponents.toNat := by
    intro id hid
    obtain ⟨hkey, hgets⟩ := List.mem_filter.mp hid
    have hpos := counted_prepare_pos (TreeMap.mem_keys.mp hkey)
    have hhealthy := (hsame id).mp (List.mem_filter.mp (of_decide_eq_true hgets).2).1
    obtain ⟨k, hk, hle⟩ := h.shares id hhealthy
    change _ ≤ shareAt b.balancedComponentsPerNode b.unbalancedComponents k at hle
    have hlt : (k : Int) < b.unbalancedComponents := by
      rw [hcount id] at hpos
      rw [hper, shareAt] at hle
      split at hle
      · assumption
      · omega
    rw [List.mem_iff_getElem?]
    exact ⟨k, by rw [List.getElem?_take, if_pos (by omega), hk]⟩
  have hnodup : olds.Nodup := map.nodup_keys.filter _
  have hlength : olds.length ≤ b.unbalancedComponents.toNat :=
    (List.subperm_of_subset hnodup hfirst).length_le.trans (List.length_take_le _ _)
  have hold : id ∈ olds := by
    have hmap : id ∈ map := by
      by_contra hout
      have hnone := hcount id
      rw [counted, TreeMap.getElem?_eq_none hout] at hnone
      simp only [Option.map_none, Option.getD_none] at hnone
      omega
    have horder := hplanning.nodes.mem_shareOrder ((hsame id).mpr hid) map
    refine (List.mem_append.mp horder).resolve_right fun hnew => ?_
    exact newHealthyServices_not_mem hplanning.additions hnew hmap
  have hsplit : b.nextShareOrder m service = olds ++ b'.newHealthyServices service map := rfl
  rw [hsplit, List.take_append, List.take_of_length_le hlength]
  exact List.mem_append_left _ hold

/-- When the members do not change, the next plan is empty exactly when the services with one
component more are again the first ones. -/
theorem Rested.nextPlan (h : Rested b m service order) (records : List NodeInfoFileRecord) :
    ∃ plan b' m', b.getNewPlannedMap m records service [] [] [] = (some plan, b', m') ∧
      (∀ id ∈ b.healthyServices service,
        (m.componentsOf service id : Int) ≤ b.balancedComponentsPerNode + 1) ∧
      (plan.isEmpty = true ↔ ∀ id ∈ b.healthyServices service,
        (m.componentsOf service id : Int) ≤ b.balancedComponentsPerNode ∨
          id ∈ (b.nextShareOrder m service).take b.unbalancedComponents.toNat) ∧
      (b.balancedComponentsPerNode = 0 ∨ b.unbalancedComponents = 0 → plan.isEmpty = true) := by
  have hplanning := h.planning records
  let b' := b.withServices records [] [] []
  let map := prepareInternalBasicMap m service
  have hlength : b'.healthyNodeList.length = b.healthyNodeList.length := by
    simpa [b', withServices_none] using (sortUnique_perm h.nodup).length_eq
  have hnodes : b'.healthyNodeList ≠ [] := fun hnil => h.nodes (by
    rw [hnil] at hlength
    exact List.length_eq_zero_iff.mp hlength.symm)
  have htotal : b'.totalNoOfComponents = b.totalNoOfComponents := by simp [b', withServices_none]
  have hper : b'.totalNoOfComponents.tdiv b'.healthyNodeList.length =
      b.balancedComponentsPerNode := by rw [htotal, hlength, balancedComponentsPerNode]
  have hrest : b'.totalNoOfComponents.tmod b'.healthyNodeList.length =
      b.unbalancedComponents := by rw [htotal, hlength, unbalancedComponents]
  have hrest_nonneg : 0 ≤ b.unbalancedComponents := by
    rw [← hrest]
    exact Int.tmod_nonneg _ hplanning.total_nonneg
  -- the run has shares, and plans with them
  have hplannedFor : m.plannedFor service = [] := by
    have hnone := h.unplanned
    rw [ComponentMapManager.isGlobalPlannedEmpty, Option.isNone_iff_eq_none] at hnone
    simp [ComponentMapManager.plannedFor, hnone]
  have hmap : mergeTransientIntoInternalBasicMap m service (prepareInternalBasicMap m service) =
      map := by
    rw [mergeTransientIntoInternalBasicMap, h.transfersFor]
    rfl
  have hbalance : b'.balanceComponents service map m = some (b'.allShares service map m) := by
    have hzero : (b'.allShares service map m).unbalanced = 0 := (hplanning.roomy hnodes).1
    rw [balanceComponents_eq]
    simp [hnodes, hzero]
  have hb' : b.planningBalancer m service records [] [] [] = b' := by
    simp [planningBalancer, b', withServices_none]
  have hrun := getNewPlannedMap_unplanned b records [] [] [] hplannedFor
  simp only [hmap, hb', hbalance] at hrun
  have hmost : ∀ id ∈ b.healthyServices service,
      (m.componentsOf service id : Int) ≤ b.balancedComponentsPerNode + 1 := by
    intro id hid
    obtain ⟨k, -, hle⟩ := h.shares id hid
    refine hle.trans ?_
    change shareAt b.balancedComponentsPerNode _ k ≤ _
    unfold shareAt
    split <;> omega
  have hretired : ∀ id, ¬ b'.Retired id := fun id hr => by
    rw [Retired] at hr
    simp [b', withServices_none] at hr
  have hempty := hplanning.isEmpty_iff_shares hnodes hretired
  have horder : b'.shareOrder service map = b.nextShareOrder m service := by
    simp only [b', nextShareOrder, withServices_none]
    rfl
  rw [hper, hrest, horder] at hempty
  have hcount : ∀ id, counted map id = m.componentsOf service id := fun id => by
    rw [counted_prepare, h.basicOwners]
    rfl
  simp only [map, hcount] at hempty
  rw [h.places_iff hmost] at hempty
  refine ⟨_, _, _, hrun, hmost, hempty, ?_⟩
  rintro (hzero | hzero)
  · exact hempty.mpr (h.places_of_fewer hzero hrest_nonneg)
  · refine hempty.mpr fun id hid => .inl ?_
    obtain ⟨k, -, hle⟩ := h.shares id hid
    change _ ≤ shareAt b.balancedComponentsPerNode b.unbalancedComponents k at hle
    have hlast : ¬ (k : Int) < b.unbalancedComponents := by omega
    rwa [shareAt, if_neg hlast] at hle

end

section

variable {b b₁ : ComponentBalancer} {service : String} {m m₁ : ComponentMapManager}
  {records : List NodeInfoFileRecord} {nodeAddition nodeDeletion nodeRecovery : List String}
  {plan : InternalPlannedMap}

theorem ownerId_inRange (hrange : InRange (m.componentCount service) (m.transfersFor service))
    {c : Int} (h : m.ownerId service c ≠ none) : 0 ≤ c ∧ c < m.componentCount service := by
  rw [ComponentMapManager.ownerId] at h
  cases hlast : lastAt (m.transfersFor service) c with
  | some o => exact hrange _ (lastAt_mem hlast)
  | none =>
      rw [hlast, Option.map_none, Option.none_or, ComponentMapManager.basicOwnerId] at h
      split at h
      · rename_i hlow
        refine ⟨hlow, ?_⟩
        rw [ComponentMapManager.componentCount]
        by_contra hout
        rw [List.getElem?_eq_none (by omega)] at h
        exact h rfl
      · exact absurd rfl h

theorem getNewPlannedMap_eq_some (hunplanned : m.plannedFor service = [])
    (hfirst : b.getNewPlannedMap m records service nodeAddition nodeDeletion nodeRecovery =
      (some plan, b₁, m₁)) :
    let map := mergeTransientIntoInternalBasicMap m service (prepareInternalBasicMap m service)
    b₁ = b.planningBalancer m service records nodeAddition nodeDeletion nodeRecovery ∧
      b₁.healthyNodeList ≠ [] ∧
      (plan, m₁) = b₁.transferComponents service map (b₁.allShares service map m) m := by
  intro map
  rw [getNewPlannedMap_unplanned b records nodeAddition nodeDeletion nodeRecovery hunplanned]
    at hfirst
  simp only at hfirst
  split at hfirst
  · cases (Prod.mk.inj hfirst).1
  · rename_i shares hbalance
    obtain ⟨hplan, hrest⟩ := Prod.mk.inj hfirst
    obtain ⟨hb, hm⟩ := Prod.mk.inj hrest
    obtain ⟨hshares, hnodes⟩ := balanceComponents_eq_some hbalance
    rw [← hb]
    refine ⟨rfl, hnodes, ?_⟩
    rw [hshares, ← hm, ← Option.some.inj hplan]

theorem planning_planningBalancer (hservice : service ∈ mergedServices)
    (hnodup : b.healthyNodeList.Nodup) (hfilled : m.Filled) (hunplanned : m.plannedFor service = [])
    (hrange : InRange (m.componentCount service) (m.transfersFor service))
    (htotal : b.totalNoOfComponents = m.componentCount service)
    (records : List NodeInfoFileRecord) (nodeAddition nodeDeletion nodeRecovery : List String) :
    Planning (b.planningBalancer m service records nodeAddition nodeDeletion nodeRecovery) service
      (mergeTransientIntoInternalBasicMap m service (prepareInternalBasicMap m service))
      (m.ownerId service) m := by
  obtain ⟨hnodes, hsame, -⟩ := soundNodes_withServices hnodup
    (underscore_not_mem_of_mergedServices hservice) records nodeAddition nodeDeletion nodeRecovery
  refine ⟨⟨hnodes.nodup, hnodes.named, hnodes.notRetired⟩, fun id hid => ?_, ?_, ?_⟩
  · have hnew := (List.mem_filter (p := (· ∉ mergeTransientIntoInternalBasicMap m service
      (prepareInternalBasicMap m service))).mp hid).2
    exact of_decide_eq_true hnew
  · have hprepared := prepared_merged hrange
    rwa [← htotal, ← hsame] at hprepared
  · exact (ComponentMapManager.isGlobalPlannedEmpty_iff hfilled service).mpr hunplanned

/-- A plan of a service type that has its components can be executed, and leaves every healthy
service with at most its share. -/
theorem rested_of_plan (hservice : service ∈ mergedServices) (hnodup : b.healthyNodeList.Nodup)
    (hfilled : m.Filled) (hunplanned : m.plannedFor service = []) (hrange : m.TransfersInRange)
    (htotal : b.totalNoOfComponents = m.componentCount service)
    (hpos : 0 < m.componentCount service)
    (hfirst : b.getNewPlannedMap m records service nodeAddition nodeDeletion nodeRecovery =
      (some plan, b₁, m₁)) :
    ∃ m₂ order, m₁.executePlans service = some m₂ ∧ Rested b₁ m₂ service order := by
  let map := mergeTransientIntoInternalBasicMap m service (prepareInternalBasicMap m service)
  obtain ⟨basic, hbasic⟩ : ∃ basic, m.basicOwners service = some basic := by
    rw [ComponentMapManager.componentCount] at hpos
    cases hb : m.basicOwners service with
    | some basic => exact ⟨basic, rfl⟩
    | none => simp [hb] at hpos
  have hcount : m.componentCount service = basic.length := by
    rw [ComponentMapManager.componentCount, hbasic, Option.getD_some]
  have hinrange : InRange (m.componentCount service) (m.transfersFor service) := by
    rw [hcount]
    exact hrange service hservice basic hbasic
  obtain ⟨hb₁, hnodes, htransfer⟩ := getNewPlannedMap_eq_some hunplanned hfirst
  have hplanning : Planning b₁ service map (m.ownerId service) m := hb₁ ▸
    planning_planningBalancer hservice hnodup hfilled hunplanned hinrange htotal records
      nodeAddition nodeDeletion nodeRecovery
  have hroomy : Roomy map (b₁.allShares service map m) := (hplanning.roomy hnodes).2
  let planned : Transfers := (moves map (b₁.allShares service map m).sources
    (b₁.allShares service map m).destinations).map (plannedAt b₁.nodeInfoFileRecords)
  have howned : ∀ e ∈ planned, m.ownerId service e.1 ≠ none := fun e he => by
    obtain ⟨e', he', rfl⟩ := List.mem_map.mp he
    exact hroomy.owned_of_moves hplanning.prepared (List.mem_map.mpr ⟨e', he', rfl⟩)
  -- some service owns the first component
  have hfull : ¬ (map.isEmpty = true ∧ (b₁.allShares service map m).sources = []) := by
    rintro ⟨hempty, -⟩
    have htotalCount := hplanning.prepared.total
    have hnone : totalCount map = 0 := by
      rw [totalCount, sumOf, List.isEmpty_iff.mp (TreeMap.isEmpty_toList.trans hempty)]
      rfl
    have hb₁total : b₁.totalNoOfComponents = b.totalNoOfComponents := by
      rw [hb₁]
      exact (soundNodes_withServices hnodup (underscore_not_mem_of_mergedServices hservice) records
        nodeAddition nodeDeletion nodeRecovery).2.1
    omega
  have hm₁ : m₁ = planned.foldl (addPlanned service) m := by
    have hsnd := congrArg Prod.snd htransfer
    rw [transferComponents, if_neg hfull, (transferAll_eq b₁.nodeInfoFileRecords service
      (fun s hs => by
        obtain ⟨hin, -, hle, -⟩ := hroomy.known s hs
        exact ⟨hin, hle⟩) hroomy.distinct hroomy.within ∅ m).1] at hsnd
    exact hsnd
  obtain ⟨hchanged, hplannedFor⟩ := ComponentMapManager.foldl_addPlanned service planned m
  rw [← hm₁] at hchanged
  rw [← hm₁] at hplannedFor
  have hplanned : m₁.plannedFor service = planned := by
    rw [hplannedFor, if_pos rfl, hunplanned, List.nil_append]
  have hrange₁ : m₁.TransfersInRange := fun s hs owners howners => by
    rw [hchanged.basicOwners] at howners
    rw [hchanged.transfersFor]
    exact hrange s hs owners howners
  have hbasic₁ : m₁.basicOwners service = some basic := by rw [hchanged.basicOwners, hbasic]
  obtain ⟨m₂, hexecute, hexecuted⟩ := m₁.executePlans_spec hservice (hchanged.filled hfilled)
    hrange₁ hbasic₁ (by
      rw [hplanned, ← hcount]
      exact fun e he => ownerId_inRange hinrange (howned e he))
  refine ⟨m₂, b₁.shareOrder service map, hexecute, ?_⟩
  have hcount₁ : m₁.componentCount service = m.componentCount service := by
    rw [ComponentMapManager.componentCount, hchanged.basicOwners,
      ComponentMapManager.componentCount]
  refine ⟨hplanning.nodes.named, hnodes, hplanning.nodes.nodup, hexecuted.unplanned,
    hexecuted.transfersFor service, hexecuted.basicOwners service, ?_, fun id hid => ?_⟩
  · have htotalCount := hplanning.prepared.total
    rw [hexecuted.componentCount, hcount₁, ← htotalCount]
    exact (prepared_merged hinrange).total
  · obtain ⟨k, hk⟩ := List.mem_iff_getElem?.mp (hplanning.nodes.mem_shareOrder hid map)
    refine ⟨k, hk, ?_⟩
    have hle := hplanning.counted_executed_le hnodes b₁.nodeInfoFileRecords hk
    have hexecutedMap := prepared_foldl_transfers hplanning.prepared howned
    have hnext : Prepared (prepareInternalBasicMap m₂ service) (fun c =>
        ((lastAt planned c).map (·.serviceId)).or (m.ownerId service c))
          (m₂.componentCount service) := by
      have hprepared := prepared_prepare m₂ service
      have howner : m₂.basicOwnerId service = m₂.ownerId service := by
        funext c
        simp [ComponentMapManager.ownerId, hexecuted.transfersFor]
      rw [howner, hexecuted.ownerId, hplanned, hchanged.ownerId] at hprepared
      exact hprepared
    have hcounted : counted (prepareInternalBasicMap m₂ service) id =
        m₂.componentsOf service id := by
      rw [counted_prepare, hexecuted.basicOwners]
      rfl
    rw [← hcounted, hnext.counted_eq hexecutedMap id]
    exact hle

/-- The owners that the first services of the type get. -/
def firstOwners (records : List NodeInfoFileRecord) (destinations : List Share) : Owners :=
  destinations.flatMap fun d => List.replicate (d.expected - d.current).toNat
    (getServiceInfo records d.serviceId)

theorem firstOwners_cons (records : List NodeInfoFileRecord) (d : Share)
    (destinations : List Share) :
    firstOwners records (d :: destinations) = List.replicate (d.expected - d.current).toNat
      (getServiceInfo records d.serviceId) ++ firstOwners records destinations := rfl

theorem countP_firstOwners (records : List NodeInfoFileRecord) (destinations : List Share)
    (id : String) : (firstOwners records destinations).countP (fun o => o.serviceId = id) =
      roomFor id (rooms destinations) := by
  induction destinations with
  | nil => rfl
  | cons d destinations ih =>
      have hid : (getServiceInfo records d.serviceId).serviceId = d.serviceId := rfl
      rw [firstOwners_cons, List.countP_append, List.countP_replicate, ih, hid]
      simp [Share.room, rooms]

theorem length_firstOwners (records : List NodeInfoFileRecord) {destinations : List Share}
    (h : ∀ d ∈ destinations, d.current ≤ d.expected) :
    ((firstOwners records destinations).length : Int) = room destinations := by
  rw [← totalRoom_rooms h]
  induction destinations with
  | nil => rfl
  | cons d destinations ih =>
      have hrest := ih fun d' hd' => h d' (List.mem_cons_of_mem d hd')
      rw [firstOwners_cons, List.length_append, List.length_replicate]
      simp only [rooms, List.map_cons, totalRoom_cons, Share.room] at hrest ⊢
      push_cast
      omega

/-- The first services of the type write their components into the basic map. -/
theorem foldl_firstComponents (records : List NodeInfoFileRecord) (service : String)
    (destinations : List Share) (acc : Owners × ComponentMapManager) :
    let r := destinations.foldl (firstComponents records service) acc
    r.1 = acc.1 ++ firstOwners records destinations ∧
      r.2.transientMap = acc.2.transientMap ∧ r.2.plannedMap = acc.2.plannedMap ∧
      ∀ s, r.2.basicOwners s = if service = s ∧ destinations ≠ [] then some r.1
        else acc.2.basicOwners s := by
  induction destinations generalizing acc with
  | nil => simp [firstOwners]
  | cons d destinations ih =>
      obtain ⟨howners, htransient, hplanned, hbasic⟩ := ih (firstComponents records service acc d)
      have hwrite : ∀ m : ComponentMapManager, (m.writeInComponentFile service).transientMap =
          m.transientMap ∧ (m.writeInComponentFile service).plannedMap = m.plannedMap ∧
            (m.writeInComponentFile service).basicMap = m.basicMap := fun m => by
        unfold ComponentMapManager.writeInComponentFile
        split <;> exact ⟨rfl, rfl, rfl⟩
      obtain ⟨hwt, hwp, hwb⟩ := hwrite (prepareBasicMap acc.2 service
        (firstComponents records service acc d).1)
      refine ⟨?_, htransient.trans hwt, hplanned.trans hwp, fun s => ?_⟩
      · rw [List.foldl_cons, howners, firstOwners_cons, firstComponents, List.append_assoc]
      · rw [List.foldl_cons, hbasic s]
        by_cases hs : service = s
        · subst hs
          by_cases hnil : destinations = []
          · subst hnil
            have hfirst : (firstComponents records service acc d).2.basicOwners service =
                some (firstComponents records service acc d).1 := by
              rw [ComponentMapManager.basicOwners]
              change ((prepareBasicMap acc.2 service (firstComponents records service
                acc d).1).writeInComponentFile service).basicMap[service]?.map (·.1) = _
              rw [hwb, prepareBasicMap]
              simp
            simpa using hfirst
          · simp [hnil]
        · have hsame : (firstComponents records service acc d).2.basicOwners s =
              acc.2.basicOwners s := by
            rw [ComponentMapManager.basicOwners]
            change ((prepareBasicMap acc.2 service (firstComponents records service
              acc d).1).writeInComponentFile service).basicMap[s]?.map (·.1) = _
            rw [hwb, prepareBasicMap, ComponentMapManager.basicOwners]
            simp [hs]
          simp [hs, hsame]

/-- What the first services of the type own is what the balancer would give them. -/
theorem rested_of_first (hservice : service ∈ mergedServices) (hnodup : b.healthyNodeList.Nodup)
    (hfilled : m.Filled) (hunplanned : m.plannedFor service = []) (hrange : m.TransfersInRange)
    (hnone : m.componentCount service = 0) (htransfers : m.transfersFor service = [])
    (htotal : 0 ≤ b.totalNoOfComponents)
    (hfirst : b.getNewPlannedMap m records service nodeAddition nodeDeletion nodeRecovery =
      (some plan, b₁, m₁))
    (hadditions : ∀ id ∈ nodeAddition, id ∈ b₁.healthyServices service) :
    ∃ m₂ order, m₁.executePlans service = some m₂ ∧ Rested b₁ m₂ service order := by
  have hmap : mergeTransientIntoInternalBasicMap m service (prepareInternalBasicMap m service) =
      ∅ := by
    rw [mergeTransientIntoInternalBasicMap, htransfers, prepareInternalBasicMap]
    rw [ComponentMapManager.componentCount, ComponentMapManager.basicOwners] at hnone
    cases hb : m.basicMap[service]? with
    | none => rfl
    | some entry =>
        rw [hb] at hnone
        simp only [Option.map_some, Option.getD_some, List.length_eq_zero_iff] at hnone
        simp [hnone]
  obtain ⟨hb₁, hnodes, htransfer⟩ := getNewPlannedMap_eq_some hunplanned hfirst
  rw [hmap] at htransfer
  obtain ⟨hsound, hsame, haddition⟩ := soundNodes_withServices hnodup
    (underscore_not_mem_of_mergedServices hservice) records nodeAddition nodeDeletion nodeRecovery
  have hnodes₁ : SoundNodes b₁ service := hb₁ ▸ ⟨hsound.nodup, hsound.named, hsound.notRetired⟩
  have htotal₁ : b₁.totalNoOfComponents = b.totalNoOfComponents := by
    rw [hb₁]
    exact hsame
  have hadditions₁ : b₁.AdditionsNew ∅ := fun id _ => by simp
  have hhealthy : HealthyServices b₁ service ∅ :=
    ⟨hnodes₁.nodup, hnodes₁.named, hnodes₁.notRetired, fun id hid => ⟨by simp, by
      rw [hb₁] at hid
      have hin := (List.mem_filter (p := (· ∉ mergeTransientIntoInternalBasicMap m service
        (prepareInternalBasicMap m service))).mp hid).1
      rw [haddition] at hin
      exact hadditions id (mem_sortUnique.mp hin)⟩⟩
  let shares := b₁.allShares service ∅ m
  let news := b₁.newHealthyServices service ∅
  have horder : b₁.shareOrder service ∅ = news := by
    rw [shareOrder]
    simp [news]
  have hlength : news.length = b₁.healthyNodeList.length := by
    have hcount := length_shareOrder.trans hhealthy.countP_add_length
    rwa [horder] at hcount
  -- every service is a destination and has its share as room
  have hper : 0 ≤ b₁.totalNoOfComponents.tdiv b₁.healthyNodeList.length :=
    Int.tdiv_nonneg (htotal₁ ▸ htotal) (Int.natCast_nonneg _)
  have hrest : 0 ≤ b₁.totalNoOfComponents.tmod b₁.healthyNodeList.length :=
    Int.tmod_nonneg _ (htotal₁ ▸ htotal)
  have hdestinations : shares.sources = [] ∧ shares.destinations =
      assigned (b₁.totalNoOfComponents.tdiv b₁.healthyNodeList.length)
        (b₁.totalNoOfComponents.tmod b₁.healthyNodeList.length) 0 (newcomers news) := by
    have hstart := (Dealt.init b₁ [] true
      (b₁.totalNoOfComponents.tdiv b₁.healthyNodeList.length) hrest).unbalanced
    obtain ⟨-, hsources, hdest⟩ := foldl_shareNew
      (b₁.totalNoOfComponents.tdiv b₁.healthyNodeList.length) hstart news
    exact ⟨hsources, hdest⟩
  have hwithin : ∀ d ∈ shares.destinations, d.current ≤ d.expected := by
    rw [hdestinations.2]
    exact assigned_newcomers_le hper 0 news
  have hnotnil : shares.destinations ≠ [] := by
    intro hnil
    have hzero := congrArg List.length (congrArg (List.map (·.serviceId))
      (hdestinations.2.symm.trans hnil))
    rw [map_serviceId_assigned, newcomers] at hzero
    simp only [List.map_map, List.length_map, List.map_nil, List.length_nil, hlength,
      List.length_eq_zero_iff] at hzero
    exact hnodes hzero
  have hm₁ : m₁ = (shares.destinations.foldl
      (firstComponents b₁.nodeInfoFileRecords service) ([], m)).2 := by
    have hsnd := congrArg Prod.snd htransfer
    rw [transferComponents, if_pos ⟨by simp, hdestinations.1⟩] at hsnd
    exact hsnd
  obtain ⟨howners, htransient, hplannedMap, hbasic⟩ := foldl_firstComponents
    b₁.nodeInfoFileRecords service shares.destinations ([], m)
  rw [howners, ← hm₁] at hbasic
  rw [← hm₁] at htransient hplannedMap
  rw [List.nil_append] at hbasic
  have hbasic₁ : m₁.basicOwners service =
      some (firstOwners b₁.nodeInfoFileRecords shares.destinations) := by
    rw [hbasic, if_pos ⟨rfl, hnotnil⟩]
  have hplanned₁ : m₁.plannedFor service = [] := by
    rw [ComponentMapManager.plannedFor, hplannedMap]
    exact hunplanned
  have htransfers₁ : ∀ s, m₁.transfersFor s = m.transfersFor s := fun s => by
    rw [ComponentMapManager.transfersFor, htransient]
    rfl
  obtain ⟨m₂, hexecute, hexecuted⟩ := m₁.executePlans_spec hservice
    (fun s => by
      rw [hplannedMap]
      exact hfilled s)
    (fun s hs owners hs' => by
      rw [htransfers₁]
      by_cases hserv : service = s
      · subst hserv
        rw [htransfers]
        exact fun e he => absurd he List.not_mem_nil
      · rw [hbasic, if_neg fun h => hserv h.1] at hs'
        exact hrange s hs owners hs') hbasic₁
    (by
      rw [hplanned₁]
      exact fun e he => absurd he List.not_mem_nil)
  have hcount₁ : (m₁.componentCount service : Int) = b₁.totalNoOfComponents := by
    have hsum := sum_expected_assigned (b₁.totalNoOfComponents.tdiv b₁.healthyNodeList.length)
      (b₁.totalNoOfComponents.tmod b₁.healthyNodeList.length) 0 (newcomers news)
    have hpos : 0 < (b₁.healthyNodeList.length : Int) := by
      have := List.length_pos_iff.mpr hnodes
      omega
    have hlt := Int.tmod_lt_of_pos b₁.totalNoOfComponents hpos
    have hdiv := Int.mul_tdiv_add_tmod b₁.totalNoOfComponents b₁.healthyNodeList.length
    have hroom : room shares.destinations =
        ((assigned (b₁.totalNoOfComponents.tdiv b₁.healthyNodeList.length)
          (b₁.totalNoOfComponents.tmod b₁.healthyNodeList.length) 0
            (newcomers news)).map (·.expected)).sum := by
      rw [hdestinations.2, room]
      refine congrArg List.sum (List.map_congr_left fun d hd => ?_)
      have hzero := current_of_newcomers hd
      omega
    rw [ComponentMapManager.componentCount, hbasic₁, Option.getD_some,
      length_firstOwners b₁.nodeInfoFileRecords hwithin, hroom, hsum]
    simp only [newcomers, List.length_map, hlength]
    rw [Int.mul_comm] at hdiv
    push_cast
    omega
  refine ⟨m₂, news, hexecute, hnodes₁.named, hnodes, hnodes₁.nodup, hexecuted.unplanned,
    hexecuted.transfersFor service, hexecuted.basicOwners service, ?_, fun id hid => ?_⟩
  · rw [hexecuted.componentCount, hcount₁]
  · have hin := hnodes₁.mem_shareOrder hid ∅
    rw [horder] at hin
    obtain ⟨k, hk⟩ := List.mem_iff_getElem?.mp hin
    refine ⟨k, hk, ?_⟩
    have hsameOwner : m₂.basicOwnerId service = m₁.basicOwnerId service := by
      have howner := hexecuted.ownerId
      rw [hplanned₁] at howner
      funext c
      have hc := congrFun howner c
      simpa [ComponentMapManager.ownerId, hexecuted.transfersFor, htransfers₁, htransfers] using hc
    have hcounted := Prepared.counted_eq (hsameOwner ▸ prepared_prepare m₂ service)
      (prepared_prepare m₁ service) id
    rw [counted_prepare, counted_prepare, hexecuted.basicOwners, hbasic₁, Option.getD_some,
      countP_firstOwners, hdestinations.2] at hcounted
    have hget : (assigned (b₁.totalNoOfComponents.tdiv b₁.healthyNodeList.length)
        (b₁.totalNoOfComponents.tmod b₁.healthyNodeList.length) 0 (newcomers news))[k]? =
          some ⟨id, 0, shareAt (b₁.totalNoOfComponents.tdiv b₁.healthyNodeList.length)
            (b₁.totalNoOfComponents.tmod b₁.healthyNodeList.length) k⟩ := by
      rw [getElem?_assigned, newcomers, List.getElem?_map, hk]
      simp
    have hids : (rooms (assigned (b₁.totalNoOfComponents.tdiv b₁.healthyNodeList.length)
        (b₁.totalNoOfComponents.tmod b₁.healthyNodeList.length) 0 (newcomers news))).map (·.1) =
          news := by
      have hassigned : (assigned (b₁.totalNoOfComponents.tdiv b₁.healthyNodeList.length)
          (b₁.totalNoOfComponents.tmod b₁.healthyNodeList.length) 0 (newcomers news)).map
            (·.serviceId) = (newcomers news).map (·.1) := map_serviceId_assigned
      rw [newcomers, List.map_map] at hassigned
      rw [rooms, List.map_map]
      exact hassigned.trans (List.map_id _)
    have hnodupIds : ((rooms (assigned (b₁.totalNoOfComponents.tdiv b₁.healthyNodeList.length)
        (b₁.totalNoOfComponents.tmod b₁.healthyNodeList.length) 0 (newcomers news))).map
          (·.1)).Nodup := by
      rw [hids]
      exact nodup_sortUnique _
    have hroom := roomFor_of_mem hnodupIds
      (List.mem_map_of_mem (List.mem_of_getElem? hget))
    simp only at hroom
    rw [hroom, Share.room] at hcounted
    have hnonneg : 0 ≤ shareAt (b₁.totalNoOfComponents.tdiv b₁.healthyNodeList.length)
      (b₁.totalNoOfComponents.tmod b₁.healthyNodeList.length) k := shareAt_nonneg hper
    rw [ComponentMapManager.componentsOf]
    simp only [Int.sub_zero] at hcounted
    omega

/-- The service type has all its components, or it has none and its first services get them now. -/
def Supplied (b : ComponentBalancer) (m : ComponentMapManager) (service : String)
    (nodeAddition : List String) (healthy : List String) : Prop :=
  (0 < m.componentCount service ∧ b.totalNoOfComponents = m.componentCount service) ∨
    (m.componentCount service = 0 ∧ m.transfersFor service = [] ∧ 0 ≤ b.totalNoOfComponents ∧
      ∀ id ∈ nodeAddition, id ∈ healthy)

/-- After a plan that is made when nothing is outstanding has been executed, no healthy service has
more than its share, and the balancer plans again exactly when a service with one component more is
not one of the first in its new order; never when the components divide evenly or are fewer than
the services. -/
theorem executed_plan_next_plan (hservice : service ∈ mergedServices)
    (hnodup : b.healthyNodeList.Nodup) (hfilled : m.Filled) (hunplanned : m.plannedFor service = [])
    (hrange : m.TransfersInRange)
    (hfirst : b.getNewPlannedMap m records service nodeAddition nodeDeletion nodeRecovery =
      (some plan, b₁, m₁))
    (hsupplied : Supplied b m service nodeAddition (b₁.healthyServices service))
    (records' : List NodeInfoFileRecord) :
    ∃ m₂ plan' b' m', m₁.executePlans service = some m₂ ∧
      b₁.getNewPlannedMap m₂ records' service [] [] [] = (some plan', b', m') ∧
      (∀ id ∈ b₁.healthyServices service,
        (m₂.componentsOf service id : Int) ≤ b₁.balancedComponentsPerNode + 1) ∧
      (plan'.isEmpty = true ↔ ∀ id ∈ b₁.healthyServices service,
        (m₂.componentsOf service id : Int) ≤ b₁.balancedComponentsPerNode ∨
          id ∈ (b₁.nextShareOrder m₂ service).take b₁.unbalancedComponents.toNat) ∧
      (b₁.balancedComponentsPerNode = 0 ∨ b₁.unbalancedComponents = 0 → plan'.isEmpty = true) := by
  obtain ⟨m₂, order, hexecute, hrested⟩ : ∃ m₂ order, m₁.executePlans service = some m₂ ∧
      Rested b₁ m₂ service order := by
    rcases hsupplied with ⟨hpos, htotal⟩ | ⟨hnone, htransfers, htotal, hadditions⟩
    · exact rested_of_plan hservice hnodup hfilled hunplanned hrange htotal hpos hfirst
    · exact rested_of_first hservice hnodup hfilled hunplanned hrange hnone htransfers htotal hfirst
        hadditions
  obtain ⟨plan', b', m', hrun, hresult⟩ := hrested.nextPlan records'
  exact ⟨m₂, plan', b', m', hexecute, hrun, hresult⟩

/-- The plan of a run, if it makes one, and the plan of the next run after it is executed. -/
def nextPlanEmpty (b : ComponentBalancer) (m : ComponentMapManager) (service : String)
    (nodeAddition : List String) : Option Bool :=
  let r := b.getNewPlannedMap m [] service nodeAddition [] []
  r.1.bind fun _ => (r.2.2.executePlans service).bind fun m₂ =>
    (r.2.1.getNewPlannedMap m₂ [] service [] [] []).1.map (·.isEmpty)

end

/-- A balancer that has shared the components out to one node. -/
def oneHealthyNode : ComponentBalancer :=
  { twoHealthyNodes with
    healthyNodeList := ["node2"]
    totalNoOfComponents := 3 }

/-- Three container components of one owner. -/
def ownedByOne : ComponentMapManager where
  basicMap := .ofList
    [(containerService, (List.replicate 3 ComponentMapManager.otherOwner, (1 : Rat)))]
  transientMap := ∅
  plannedMap := ∅
  globalMapVersion := 1
  transientMapVersion := 0
  componentInfoFiles := ∅

/-- The run that adds a third node, whose name comes after the others. -/
def thirdNodeAdded : Option InternalPlannedMap × ComponentBalancer × ComponentMapManager :=
  oneHealthyNode.getNewPlannedMap ownedByOne [] containerService ["node3_container-server"] [] []

theorem executed_plan_next_plan_third_node :
    ∃ m₂ plan' b' m', thirdNodeAdded.2.2.executePlans containerService = some m₂ ∧
      thirdNodeAdded.2.1.getNewPlannedMap m₂ [] containerService [] [] [] =
        (some plan', b', m') ∧
      (∀ id ∈ thirdNodeAdded.2.1.healthyServices containerService,
        (m₂.componentsOf containerService id : Int) ≤
          thirdNodeAdded.2.1.balancedComponentsPerNode + 1) ∧
      (plan'.isEmpty = true ↔ ∀ id ∈ thirdNodeAdded.2.1.healthyServices containerService,
        (m₂.componentsOf containerService id : Int) ≤
            thirdNodeAdded.2.1.balancedComponentsPerNode ∨
          id ∈ (thirdNodeAdded.2.1.nextShareOrder m₂ containerService).take
            thirdNodeAdded.2.1.unbalancedComponents.toNat) ∧
      (thirdNodeAdded.2.1.balancedComponentsPerNode = 0 ∨
        thirdNodeAdded.2.1.unbalancedComponents = 0 → plan'.isEmpty = true) := by
  have hsome : thirdNodeAdded.1.isSome = true := by decide +kernel
  obtain ⟨plan, hplan⟩ := Option.isSome_iff_exists.mp hsome
  have hfirst : oneHealthyNode.getNewPlannedMap ownedByOne [] containerService
      ["node3_container-server"] [] [] =
        (some plan, thirdNodeAdded.2.1, thirdNodeAdded.2.2) := by
    change thirdNodeAdded = _
    rw [← hplan]
  exact executed_plan_next_plan (by decide) (by decide) (fun s => by simp [ownedByOne])
    (by decide +kernel)
    (fun s _ basic _ => by simp [ownedByOne, ComponentMapManager.transfersFor, InRange]) hfirst
    (.inl (by decide +kernel)) []

/-- Six container components of one owner, three of them planned to go to the other one. -/
def threePlanned : ComponentMapManager :=
  { ownedByOne with
    basicMap := .ofList
      [(containerService, (List.replicate 6 ComponentMapManager.otherOwner, (1 : Rat)))]
    plannedMap := .ofList [(containerService,
      [((0 : Int), ComponentMapManager.oneOwner), (1, ComponentMapManager.oneOwner),
        (2, ComponentMapManager.oneOwner)])] }

/-- The component that is over goes to a service whose name comes first, as soon as it has
components; and while a plan is outstanding, services over their share are not sources. -/
theorem rebalancing_after_addition :
    oneHealthyNode.nextPlanEmpty ownedByOne containerService ["node1_container-server"] =
        some false ∧
      { twoHealthyNodes with totalNoOfComponents := 6 }.nextPlanEmpty threePlanned containerService
        ["node3_container-server"] = some false := by
  decide +kernel

end ComponentBalancer

end ObjectStorage.Osm
