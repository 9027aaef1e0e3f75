import Mathlib.Algebra.BigOperators.Group.List.Basic
import Mathlib.Algebra.Order.Ring.Int
import Mathlib.Tactic.Linarith
import Mathlib.Tactic.Ring
import ObjectStorage.Osm.InternalMap

/-!
The shares of the services: what the balancer hands out is what there is, so the destinations have
room for what the sources have to give away.
-/

namespace ObjectStorage.Osm

open Std Library

section

variable {service : String}

theorem toList_getServiceId (nodeId service : String) :
    (getServiceId nodeId service).toList = nodeId.toList ++ '_' :: service.toList := by
  simp [getServiceId]

private theorem takeWhile_reverse_getServiceId (h : '_' ∉ service.toList) (nodeId : String) :
    (getServiceId nodeId service).toList.reverse.takeWhile (· ≠ '_') = service.toList.reverse ∧
      (getServiceId nodeId service).toList.reverse.dropWhile (· ≠ '_') =
        '_' :: nodeId.toList.reverse := by
  have hall : ∀ c ∈ service.toList.reverse, decide (c ≠ '_') = true := fun c hc => by
    simpa using fun heq : c = '_' => h (heq ▸ List.mem_reverse.mp hc)
  rw [toList_getServiceId, List.reverse_append, List.reverse_cons, List.append_assoc]
  constructor
  · rw [List.takeWhile_append_of_pos hall]
    simp
  · rw [List.dropWhile_append_of_pos hall]
    simp

@[simp] theorem getServiceName_getServiceId (h : '_' ∉ service.toList) (nodeId : String) :
    getServiceName (getServiceId nodeId service) = service := by
  rw [getServiceName, (takeWhile_reverse_getServiceId h nodeId).1, List.reverse_reverse,
    String.ofList_toList]

@[simp] theorem getNodeId_getServiceId (h : '_' ∉ service.toList) (nodeId : String) :
    getNodeId (getServiceId nodeId service) = nodeId := by
  have hmem : '_' ∈ (getServiceId nodeId service).toList := by simp [toList_getServiceId]
  rw [getNodeId, if_pos hmem, (takeWhile_reverse_getServiceId h nodeId).2]
  simp [String.ofList_toList]

theorem getServiceId_injective (h : '_' ∉ service.toList) :
    Function.Injective (getServiceId · service) := fun n n' heq => by
  rw [← getNodeId_getServiceId h n, ← getNodeId_getServiceId h n']
  exact congrArg getNodeId heq

theorem underscore_not_mem_of_mergedServices (h : service ∈ mergedServices) :
    '_' ∉ service.toList := by
  revert service
  decide +kernel

@[simp] theorem mem_sortUnique {xs : List String} {x : String} : x ∈ sortUnique xs ↔ x ∈ xs := by
  simp [sortUnique, TreeSet.mem_toList, TreeSet.mem_ofList]

theorem nodup_sortUnique (xs : List String) : (sortUnique xs).Nodup := by
  have hdistinct := (TreeSet.ofList xs : TreeSet String).distinct_toList
  exact hdistinct.imp fun hne heq => hne (LawfulEqCmp.compare_eq_iff_eq.mpr heq)

theorem sortUnique_perm {xs : List String} (h : xs.Nodup) : (sortUnique xs).Perm xs :=
  (List.perm_ext_iff_of_nodup (nodup_sortUnique xs) h).mpr fun _ => mem_sortUnique

end

namespace ComponentBalancer

/-- What the sources have to give away. -/
def demand (sources : List Share) : Int := (sources.map fun s => s.current - s.expected).sum

/-- What the destinations are short of. -/
def room (destinations : List Share) : Int :=
  (destinations.map fun d => d.expected - d.current).sum

@[simp] theorem demand_append (xs : List Share) (s : Share) :
    demand (xs ++ [s]) = demand xs + (s.current - s.expected) := by simp [demand]

@[simp] theorem room_append (xs : List Share) (d : Share) :
    room (xs ++ [d]) = room xs + (d.expected - d.current) := by simp [room]

/-- What is known when `n` healthy services have got their share and the services so far have
`counted` components. -/
structure Sharing (perNode rest counted : Int) (n : Nat) (acc : Shares) : Prop where
  unbalanced : acc.unbalanced = max (rest - n) 0
  balance : demand acc.sources + (perNode * n + (rest - acc.unbalanced)) ≤
    room acc.destinations + counted
  sources : ∀ s ∈ acc.sources, 0 ≤ s.expected ∧ s.expected ≤ s.current
  destinations : ∀ d ∈ acc.destinations, d.current ≤ d.expected

section

variable {b : ComponentBalancer} {healthy : List String} {plannedEmpty : Bool}
  {perNode rest counted : Int} {n : Nat} {acc : Shares} {e : String × List Int × Int}

theorem Sharing.init (perNode : Int) (hrest : 0 ≤ rest) :
    Sharing perNode rest 0 0 ⟨rest, [], []⟩ where
  unbalanced := by simp [hrest]
  balance := by simp [demand, room]
  sources s hs := by simp at hs
  destinations d hd := by simp at hd

theorem Sharing.expected_rest (h : Sharing perNode rest counted n acc) :
    acc.rest = max (rest - (n + 1 : Nat)) 0 ∧
      acc.expected perNode = perNode + (acc.unbalanced - acc.rest) := by
  have hunbalanced := h.unbalanced
  unfold Shares.rest Shares.expected
  by_cases hpos : acc.unbalanced > 0
  · rw [if_pos hpos, if_pos hpos]
    constructor
    · push_cast
      omega
    · ring
  · rw [if_neg hpos, if_neg hpos]
    constructor
    · push_cast
      omega
    · ring

theorem expected_nonneg (hperNode : 0 ≤ perNode) (acc : Shares) : 0 ≤ acc.expected perNode := by
  unfold Shares.expected
  split <;> omega

theorem Sharing.next (h : Sharing perNode rest counted n acc) {acc' : Shares} {c : Int}
    (hunbalanced : acc'.unbalanced = acc.rest)
    (hbalance : demand acc'.sources - demand acc.sources + acc.expected perNode ≤
      room acc'.destinations - room acc.destinations + c)
    (hsources : ∀ s ∈ acc'.sources, 0 ≤ s.expected ∧ s.expected ≤ s.current)
    (hdestinations : ∀ d ∈ acc'.destinations, d.current ≤ d.expected) :
    Sharing perNode rest (counted + c) (n + 1) acc' where
  unbalanced := hunbalanced.trans h.expected_rest.1
  balance := by
    have hexpected := h.expected_rest.2
    have hold := h.balance
    have hmul : perNode * (n + 1 : Nat) = perNode * n + perNode := by
      push_cast
      ring
    rw [hunbalanced, hmul]
    linarith
  sources := hsources
  destinations := hdestinations

private theorem forall_mem_append {P : Share → Prop} {xs : List Share} {s : Share}
    (h : ∀ x ∈ xs, P x) (hs : P s) : ∀ x ∈ xs ++ [s], P x := fun x hx => by
  rcases List.mem_append.mp hx with hx | hx
  · exact h x hx
  · exact List.mem_singleton.mp hx ▸ hs

/-- The services that get a share: healthy, in the map, and not deleted or recovered. -/
def GetsShare (b : ComponentBalancer) (existing : List String) (id : String) : Prop :=
  ¬ b.Retired id ∧ id ∈ existing

instance (b : ComponentBalancer) (existing : List String) : DecidablePred (b.GetsShare existing) :=
  fun id => inferInstanceAs (Decidable (¬ b.Retired id ∧ id ∈ existing))

theorem Sharing.existing (h : Sharing perNode rest counted n acc) (hperNode : 0 ≤ perNode)
    (he : 0 ≤ e.2.2) (healthy : List String) (plannedEmpty : Bool) :
    Sharing perNode rest (counted + e.2.2) (n + if b.GetsShare healthy e.1 then 1 else 0)
      (b.shareExisting healthy plannedEmpty perNode acc e) := by
  obtain ⟨id, list, current⟩ := e
  have hnonneg := expected_nonneg hperNode acc
  unfold shareExisting
  by_cases hretired : id ∈ b.listOfServicesForDeletion ∨ id ∈ b.listOfServicesForRecovery
  · have hnot : ¬ b.GetsShare healthy id := fun hgets => hgets.1 hretired.symm
    rw [if_neg hnot, Nat.add_zero]
    simp only [hretired, if_true]
    exact
      { unbalanced := h.unbalanced
        balance := by
          have hold := h.balance
          rw [demand_append]
          simp only
          omega
        sources := forall_mem_append h.sources ⟨le_rfl, he⟩
        destinations := h.destinations }
  simp only [hretired, if_false]
  by_cases hin : id ∈ healthy
  · have hgets : b.GetsShare healthy id := ⟨fun hr => hretired hr.symm, hin⟩
    rw [if_pos hgets, if_pos hin]
    by_cases hmore : current > acc.expected perNode
    · rw [if_pos hmore]
      cases plannedEmpty with
      | true =>
          refine h.next rfl ?_ (forall_mem_append h.sources ⟨hnonneg, hmore.le⟩) h.destinations
          simp
      | false =>
          refine h.next rfl ?_ h.sources h.destinations
          simp
          omega
    · rw [if_neg hmore]
      by_cases hless : current < acc.expected perNode
      · rw [if_pos hless]
        refine h.next rfl ?_ h.sources (forall_mem_append h.destinations hless.le)
        simp
      · rw [if_neg hless]
        refine h.next rfl ?_ h.sources h.destinations
        simp
        omega
  · have hnot : ¬ b.GetsShare healthy id := fun hgets => hin hgets.2
    rw [if_neg hnot, if_neg hin, Nat.add_zero]
    exact
      { unbalanced := h.unbalanced
        balance := by
          have hold := h.balance
          simp only at he ⊢
          omega
        sources := h.sources
        destinations := h.destinations }

theorem Sharing.new (h : Sharing perNode rest counted n acc) (hperNode : 0 ≤ perNode)
    (id : String) : Sharing perNode rest counted (n + 1) (shareNew perNode acc id) := by
  have hshare : demand (shareNew perNode acc id).sources - demand acc.sources +
      acc.expected perNode ≤ room (shareNew perNode acc id).destinations -
        room acc.destinations + 0 := by simp [shareNew]
  have hnext := h.next rfl hshare h.sources
    (forall_mem_append h.destinations (expected_nonneg hperNode acc))
  simpa using hnext

theorem Sharing.foldl_existing (h : Sharing perNode rest counted n acc) (hperNode : 0 ≤ perNode)
    {es : List (String × List Int × Int)} (hes : ∀ e ∈ es, 0 ≤ e.2.2) :
    Sharing perNode rest (counted + (es.map fun e => e.2.2).sum)
      (n + es.countP fun e => b.GetsShare healthy e.1)
      (es.foldl (b.shareExisting healthy plannedEmpty perNode) acc) := by
  induction es generalizing acc counted n with
  | nil => simpa using h
  | cons e es ih =>
      have hrest := ih
        (h.existing (b := b) hperNode (hes e List.mem_cons_self) healthy plannedEmpty)
        fun e' he' => hes e' (List.mem_cons_of_mem _ he')
      have hcount : n + (e :: es).countP (fun e => b.GetsShare healthy e.1) =
          n + (if b.GetsShare healthy e.1 then 1 else 0) +
            es.countP fun e => b.GetsShare healthy e.1 := by
        by_cases hgets : b.GetsShare healthy e.1
        · simp [hgets]
          omega
        · simp [hgets]
      rw [hcount, List.map_cons, List.sum_cons, ← Int.add_assoc]
      exact hrest

theorem Sharing.foldl_new (h : Sharing perNode rest counted n acc) (hperNode : 0 ≤ perNode)
    (ids : List String) :
    Sharing perNode rest counted (n + ids.length) (ids.foldl (shareNew perNode) acc) := by
  induction ids generalizing acc n with
  | nil => simpa using h
  | cons id ids ih =>
      have hrest := ih (h.new hperNode id)
      rw [List.length_cons, Nat.add_comm ids.length 1, ← Nat.add_assoc]
      exact hrest

/-- Where the sources and destinations come from: the services `es` of the map, and `news`. -/
structure SharesFrom (b : ComponentBalancer) (healthy : List String) (plannedEmpty : Bool)
    (es : List (String × List Int × Int)) (news : List String) (acc : Shares) : Prop where
  sources : ∀ s ∈ acc.sources, ∃ e ∈ es, s.serviceId = e.1 ∧ s.current = e.2.2 ∧
    (b.Retired e.1 ∨ (plannedEmpty = true ∧ b.GetsShare healthy e.1))
  retired : ∀ e ∈ es, b.Retired e.1 → ⟨e.1, e.2.2, 0⟩ ∈ acc.sources
  distinct : (acc.sources.map (·.serviceId)).Sublist (es.map (·.1))
  destinations : ∀ d ∈ acc.destinations,
    (∃ e ∈ es, d.serviceId = e.1 ∧ b.GetsShare healthy e.1) ∨ d.serviceId ∈ news

theorem SharesFrom.init (b : ComponentBalancer) (healthy : List String) (plannedEmpty : Bool)
    (rest : Int) : SharesFrom b healthy plannedEmpty [] [] ⟨rest, [], []⟩ where
  sources s hs := by simp at hs
  retired e he := by simp at he
  distinct := by simp
  destinations d hd := by simp at hd

section

variable {es : List (String × List Int × Int)} {news : List String}

/-- A service of the map that becomes a source or does not get a share to fill. -/
private theorem SharesFrom.more (h : SharesFrom b healthy plannedEmpty es news acc) {acc' : Shares}
    (hsources : acc'.sources = acc.sources ∨ ∃ expected,
      acc'.sources = acc.sources ++ [⟨e.1, e.2.2, expected⟩] ∧
      (b.Retired e.1 ∨ (plannedEmpty = true ∧ b.GetsShare healthy e.1)))
    (hretired : b.Retired e.1 → ⟨e.1, e.2.2, 0⟩ ∈ acc'.sources)
    (hdestinations : ∀ d ∈ acc'.destinations, d ∈ acc.destinations ∨
      (d.serviceId = e.1 ∧ b.GetsShare healthy e.1)) :
    SharesFrom b healthy plannedEmpty (es ++ [e]) news acc' where
  sources s hs := by
    have hold : s ∈ acc.sources → ∃ e' ∈ es ++ [e], s.serviceId = e'.1 ∧ s.current = e'.2.2 ∧
        (b.Retired e'.1 ∨ (plannedEmpty = true ∧ b.GetsShare healthy e'.1)) := fun hs => by
      obtain ⟨e', he', hfrom⟩ := h.sources s hs
      exact ⟨e', List.mem_append_left _ he', hfrom⟩
    rcases hsources with hsame | ⟨expected, happend, hkind⟩
    · exact hold (hsame ▸ hs)
    · rw [happend] at hs
      rcases List.mem_append.mp hs with hs | hs
      · exact hold hs
      · obtain rfl := List.mem_singleton.mp hs
        exact ⟨e, by simp, rfl, rfl, hkind⟩
  retired e' he' hr := by
    rcases List.mem_append.mp he' with he' | he'
    · rcases hsources with hsame | ⟨expected, happend, -⟩
      · rw [hsame]
        exact h.retired e' he' hr
      · rw [happend]
        exact List.mem_append_left _ (h.retired e' he' hr)
    · obtain rfl := List.mem_singleton.mp he'
      exact hretired hr
  distinct := by
    rw [List.map_append]
    rcases hsources with hsame | ⟨expected, happend, -⟩
    · rw [hsame]
      exact h.distinct.trans (List.sublist_append_left _ _)
    · rw [happend, List.map_append]
      exact h.distinct.append (List.Sublist.refl _)
  destinations d hd := by
    rcases hdestinations d hd with hd | ⟨hid, hgets⟩
    · rcases h.destinations d hd with ⟨e', he', hfrom⟩ | hnew
      · exact .inl ⟨e', List.mem_append_left _ he', hfrom⟩
      · exact .inr hnew
    · exact .inl ⟨e, by simp, hid, hgets⟩

theorem SharesFrom.existing (h : SharesFrom b healthy plannedEmpty es news acc) (perNode : Int)
    (e : String × List Int × Int) : SharesFrom b healthy plannedEmpty (es ++ [e]) news
      (b.shareExisting healthy plannedEmpty perNode acc e) := by
  obtain ⟨id, list, current⟩ := e
  unfold shareExisting
  by_cases hretired : id ∈ b.listOfServicesForDeletion ∨ id ∈ b.listOfServicesForRecovery
  · simp only [hretired, if_true]
    exact h.more (.inr ⟨0, rfl, .inl hretired.symm⟩) (fun _ => by simp) fun d hd => .inl hd
  have hnot : ¬ b.Retired id := fun hr => hretired hr.symm
  simp only [hretired, if_false]
  by_cases hin : id ∈ healthy
  · have hgets : b.GetsShare healthy id := ⟨hnot, hin⟩
    rw [if_pos hin]
    by_cases hmore : current > acc.expected perNode
    · rw [if_pos hmore]
      cases plannedEmpty with
      | true =>
          exact h.more (.inr ⟨_, rfl, .inr ⟨rfl, hgets⟩⟩) (fun hr => absurd hr hnot)
            fun d hd => .inl hd
      | false => exact h.more (.inl rfl) (fun hr => absurd hr hnot) fun d hd => .inl hd
    · rw [if_neg hmore]
      by_cases hless : current < acc.expected perNode
      · rw [if_pos hless]
        refine h.more (.inl rfl) (fun hr => absurd hr hnot) fun d hd => ?_
        rcases List.mem_append.mp hd with hd | hd
        · exact .inl hd
        · exact .inr ⟨by rw [List.mem_singleton.mp hd], hgets⟩
      · rw [if_neg hless]
        exact h.more (.inl rfl) (fun hr => absurd hr hnot) fun d hd => .inl hd
  · rw [if_neg hin]
    exact h.more (.inl rfl) (fun hr => absurd hr hnot) fun d hd => .inl hd

theorem SharesFrom.foldl_existing (h : SharesFrom b healthy plannedEmpty es news acc)
    (perNode : Int) (rest : List (String × List Int × Int)) :
    SharesFrom b healthy plannedEmpty (es ++ rest) news
      (rest.foldl (b.shareExisting healthy plannedEmpty perNode) acc) := by
  induction rest generalizing acc es with
  | nil => simpa using h
  | cons e rest ih =>
      have hrest := ih (h.existing perNode e)
      rwa [List.append_assoc] at hrest

theorem SharesFrom.foldl_new (h : SharesFrom b healthy plannedEmpty es news acc) (perNode : Int)
    (ids : List String) : SharesFrom b healthy plannedEmpty es (news ++ ids)
      (ids.foldl (shareNew perNode) acc) := by
  induction ids generalizing acc news with
  | nil => simpa using h
  | cons id ids ih =>
      have hnext : SharesFrom b healthy plannedEmpty es (news ++ [id])
          (shareNew perNode acc id) :=
        { sources := h.sources
          retired := h.retired
          distinct := h.distinct
          destinations := fun d hd => by
            rcases List.mem_append.mp hd with hd | hd
            · exact (h.destinations d hd).imp_right (List.mem_append_left _)
            · obtain rfl := List.mem_singleton.mp hd
              exact .inr (by simp) }
      have hrest := ih hnext
      rwa [List.append_assoc] at hrest

end

end

section

variable {b : ComponentBalancer} {service : String} {map : InternalBasicMap}
  {m : ComponentMapManager} {shares : Shares}

/-- The healthy nodes are told apart by their services of the type, none of which is deleted or
recovered, and the services that are added are among them. -/
structure HealthyServices (b : ComponentBalancer) (service : String) (map : InternalBasicMap) :
    Prop where
  nodup : b.healthyNodeList.Nodup
  named : '_' ∉ service.toList
  notRetired : ∀ node ∈ b.healthyNodeList, ¬ b.Retired (getServiceId node service)
  additions : ∀ id ∈ b.listOfServicesForAddition,
    id ∉ map ∧ id ∈ b.healthyNodeList.map (getServiceId · service)

theorem HealthyServices.countP_add_length (h : HealthyServices b service map) :
    (map.toList.countP fun e => b.GetsShare (b.existingHealthyServices service map) e.1) +
      (b.newHealthyServices service map).length = b.healthyNodeList.length := by
  let ids := b.healthyNodeList.map (getServiceId · service)
  have hids : ids.Nodup := List.Pairwise.map _ (fun _ _ hne heq =>
    hne (getServiceId_injective h.named heq)) h.nodup
  have hexisting : (map.toList.countP fun e =>
      b.GetsShare (b.existingHealthyServices service map) e.1) =
        (ids.filter (· ∈ map)).length := by
    have hkeys : (map.toList.countP fun e =>
        b.GetsShare (b.existingHealthyServices service map) e.1) =
          (map.keys.filter fun id => b.GetsShare (b.existingHealthyServices service map) id).length
        := by
      rw [← TreeMap.map_fst_toList_eq_keys, ← List.countP_eq_length_filter, List.countP_map]
      rfl
    rw [hkeys]
    refine List.Perm.length_eq ((List.perm_ext_iff_of_nodup
      (map.nodup_keys.filter _) (hids.filter _)).mpr fun id => ?_)
    simp only [List.mem_filter, TreeMap.mem_keys, decide_eq_true_eq, GetsShare,
      existingHealthyServices]
    constructor
    · rintro ⟨-, -, hin⟩
      exact hin
    · rintro ⟨hid, hmap⟩
      obtain ⟨node, hnode, rfl⟩ := List.mem_map.mp hid
      exact ⟨hmap, h.notRetired node hnode, hid, hmap⟩
  have hnew : (b.newHealthyServices service map).length = (ids.filter (· ∉ map)).length := by
    refine List.Perm.length_eq ((List.perm_ext_iff_of_nodup
      (nodup_sortUnique _) (hids.filter _)).mpr fun id => ?_)
    rw [mem_sortUnique, List.mem_append]
    refine ⟨fun hin => hin.elim (fun h => h) fun hadd => ?_, .inl⟩
    obtain ⟨hmap, hid⟩ := h.additions id hadd
    exact List.mem_filter.mpr ⟨hid, by simpa using hmap⟩
  rw [hexisting, hnew]
  have hsplit := List.length_eq_length_filter_add (l := ids) (· ∈ map)
  have hnot : (fun id => ! decide (id ∈ map)) = fun id => decide (id ∉ map) := by
    funext id
    simp
  rw [hnot, List.length_map] at hsplit
  exact hsplit.symm

/-- What `balance_components` computes before it looks whether all components are shared out. -/
def allShares (b : ComponentBalancer) (service : String) (map : InternalBasicMap)
    (m : ComponentMapManager) : Shares :=
  let nodes : Int := b.healthyNodeList.length
  let perNode := b.totalNoOfComponents.tdiv nodes
  (b.newHealthyServices service map).foldl (shareNew perNode)
    (map.toList.foldl (b.shareExisting (b.existingHealthyServices service map)
      (m.isGlobalPlannedEmpty service) perNode) ⟨b.totalNoOfComponents.tmod nodes, [], []⟩)

theorem balanceComponents_eq (b : ComponentBalancer) (service : String) (map : InternalBasicMap)
    (m : ComponentMapManager) : b.balanceComponents service map m =
      if b.healthyNodeList = [] ∨ (b.allShares service map m).unbalanced ≠ 0 then none
      else some (b.allShares service map m) := by
  unfold balanceComponents allShares
  by_cases hempty : b.healthyNodeList = []
  · simp [hempty]
  · have hlength : ¬ ((b.healthyNodeList.length : Int) = 0) := by simpa using hempty
    simp only [hlength, hempty, if_false, false_or]

theorem allShares_from (b : ComponentBalancer) (service : String) (map : InternalBasicMap)
    (m : ComponentMapManager) : SharesFrom b (b.existingHealthyServices service map)
      (m.isGlobalPlannedEmpty service) map.toList (b.newHealthyServices service map)
      (b.allShares service map m) := by
  have hfrom := ((SharesFrom.init b (b.existingHealthyServices service map)
    (m.isGlobalPlannedEmpty service)
      (b.totalNoOfComponents.tmod b.healthyNodeList.length)).foldl_existing
      (b.totalNoOfComponents.tdiv b.healthyNodeList.length) map.toList).foldl_new
      (b.totalNoOfComponents.tdiv b.healthyNodeList.length) (b.newHealthyServices service map)
  simpa [allShares] using hfrom

theorem allShares_sharing (hcounts : ∀ id ∈ map, 0 ≤ counted map id)
    (htotal : 0 ≤ b.totalNoOfComponents) :
    Sharing (b.totalNoOfComponents.tdiv b.healthyNodeList.length)
      (b.totalNoOfComponents.tmod b.healthyNodeList.length) (totalCount map)
      ((map.toList.countP fun e => b.GetsShare (b.existingHealthyServices service map) e.1) +
        (b.newHealthyServices service map).length) (b.allShares service map m) := by
  have hper : 0 ≤ b.totalNoOfComponents.tdiv b.healthyNodeList.length :=
    Int.tdiv_nonneg htotal (Int.natCast_nonneg _)
  have hrest : 0 ≤ b.totalNoOfComponents.tmod b.healthyNodeList.length :=
    Int.tmod_nonneg _ htotal
  have hes : ∀ e ∈ map.toList, 0 ≤ e.2.2 := fun e he => by
    have hget := TreeMap.mem_toList_iff_getElem?_eq_some.mp he
    have hcount := hcounts e.1 ((mem_iff_exists_getElem? map e.1).mpr ⟨e.2, hget⟩)
    simpa [counted, hget] using hcount
  have hexisting : Sharing _ _ (0 + (map.toList.map fun e => e.2.2).sum)
      (0 + map.toList.countP fun e => b.GetsShare (b.existingHealthyServices service map) e.1)
      (map.toList.foldl (b.shareExisting (b.existingHealthyServices service map)
        (m.isGlobalPlannedEmpty service) _) _) :=
    (Sharing.init (b.totalNoOfComponents.tdiv b.healthyNodeList.length)
      hrest).foldl_existing hper hes
  have hsharing := hexisting.foldl_new hper (b.newHealthyServices service map)
  simpa [allShares, totalCount, sumOf] using hsharing

/-- With a healthy node left, all components are shared out, and the destinations have room for
what the sources give away. -/
theorem balanceComponents_isSome (h : HealthyServices b service map)
    (hcounts : ∀ id ∈ map, 0 ≤ counted map id) (htotal : 0 ≤ b.totalNoOfComponents)
    (hnodes : b.healthyNodeList ≠ []) :
    b.balanceComponents service map m = some (b.allShares service map m) ∧
      demand (b.allShares service map m).sources + b.totalNoOfComponents ≤
        room (b.allShares service map m).destinations + totalCount map := by
  have hsharing : Sharing _ _ _ _ (b.allShares service map m) := allShares_sharing hcounts htotal
  rw [h.countP_add_length] at hsharing
  have hpos : 0 < (b.healthyNodeList.length : Int) := by
    have := List.length_pos_iff.mpr hnodes
    omega
  have hlt := Int.tmod_lt_of_pos b.totalNoOfComponents hpos
  have hzero : (b.allShares service map m).unbalanced = 0 := by
    rw [hsharing.unbalanced]
    omega
  refine ⟨by rw [balanceComponents_eq]; simp [hnodes, hzero], ?_⟩
  have hbalance := hsharing.balance
  have hdiv := Int.mul_tdiv_add_tmod b.totalNoOfComponents b.healthyNodeList.length
  rw [hzero, Int.mul_comm] at hbalance
  linarith

theorem balanceComponents_eq_some (hbalance : b.balanceComponents service map m = some shares) :
    b.allShares service map m = shares ∧ b.healthyNodeList ≠ [] := by
  rw [balanceComponents_eq] at hbalance
  split at hbalance
  · cases hbalance
  · rename_i hnot
    exact ⟨Option.some.inj hbalance, fun h => hnot (.inl h)⟩

end

end ComponentBalancer

end ObjectStorage.Osm
