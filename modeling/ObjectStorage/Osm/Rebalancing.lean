import Mathlib.Algebra.Order.BigOperators.Group.List
import Mathlib.Data.List.Nodup
import ObjectStorage.Osm.ShareOrder

/-!
What a plan of the balancer changes when it is executed, and what the balancer plans after that.
-/

namespace ObjectStorage.Osm

open Std Library

namespace ComponentBalancer

theorem Prepared.counted_eq {map map' : InternalBasicMap} {owner : Int → Option String}
    {total total' : Int} (h : Prepared map owner total) (h' : Prepared map' owner total')
    (id : String) : counted map id = counted map' id := by
  have hperm : (listed map id).Perm (listed map' id) :=
    (List.perm_ext_iff_of_nodup (h.lists.nodup id) (h'.lists.nodup id)).mpr fun c => by
      rw [h.lists.mem, h'.lists.mem]
  rw [h.counts, h'.counts, hperm.length_eq]

section

variable {map : InternalBasicMap} {owner : Int → Option String} {total : Int}

/-- Transfers of different components change the counts of their sources and destinations. -/
theorem counted_foldl_transfers {es : Transfers} (h : Prepared map owner total)
    (howned : ∀ e ∈ es, owner e.1 ≠ none) (hes : (es.map (·.1)).Nodup) (id : String) :
    counted (es.foldl (fun map (component, owner) =>
        addEntryInInternalBasicMap (removeValueFromInternalBasicMap map component) component
          owner.serviceId) map) id =
      counted map id - (es.countP fun e => owner e.1 = some id) +
        es.countP fun e => e.2.serviceId = id := by
  induction es generalizing map owner with
  | nil => simp
  | cons e es ih =>
      obtain ⟨o, ho⟩ := Option.ne_none_iff_exists'.mp (howned e List.mem_cons_self)
      obtain ⟨hfresh, hes⟩ := List.nodup_cons.mp hes
      have hother : ∀ e' ∈ es, Function.update owner e.1 (some e.2.serviceId) e'.1 = owner e'.1 :=
        fun e' he' => Function.update_of_ne
          (fun heq => hfresh (List.mem_map.mpr ⟨e', he', heq⟩)) _ _
      have hcount : (es.countP fun e' =>
          Function.update owner e.1 (some e.2.serviceId) e'.1 = some id) =
            es.countP fun e' => owner e'.1 = some id :=
        List.countP_congr fun e' he' => by rw [hother e' he']
      have hrest := ih (h.move ho e.2.serviceId) (fun e' he' => by
        rw [hother e' he']
        exact howned e' (List.mem_cons_of_mem e he')) hes
      have hlisted : e.1 ∈ listed map id ↔ o = id := by
        rw [h.lists.mem, ho, Option.some.injEq]
      rw [hcount, counted_addEntry, counted_removeValue, counted_removeValue] at hrest
      rw [List.foldl_cons, hrest, List.countP_cons, List.countP_cons, ho]
      simp only [hlisted, Option.some.injEq]
      by_cases hd : e.2.serviceId = id
      · subst hd
        by_cases ho' : o = e.2.serviceId
        · simp [h.lists.mem, ho, ho']
          omega
        · simp [h.lists.mem, ho, ho']
          omega
      · by_cases ho' : o = id
        · simp [hd, ho']
          omega
        · simp [hd, ho']

end

section

variable {b : ComponentBalancer} {map : InternalBasicMap} {sources destinations : List Share}

theorem totalItems_le_demand (map : InternalBasicMap)
    (h : ∀ s ∈ sources, s.expected ≤ s.current) :
    (totalItems (sourceItems map sources) : Int) ≤ demand sources := by
  induction sources with
  | nil => exact Int.le_refl 0
  | cons s sources ih =>
      have hfirst := h s List.mem_cons_self
      have hrest := ih fun s' hs' => h s' (List.mem_cons_of_mem s hs')
      have htake : ((listed map s.serviceId).take s.surplus).length ≤ s.surplus :=
        List.length_take_le _ _
      have hsurplus : (s.surplus : Int) = s.current - s.expected := by
        rw [Share.surplus]
        omega
      simp only [sourceItems, demand, List.map_cons, List.sum_cons, totalItems_cons] at hrest ⊢
      push_cast
      omega

theorem totalRoom_rooms (h : ∀ d ∈ destinations, d.current ≤ d.expected) :
    (totalRoom (rooms destinations) : Int) = room destinations := by
  induction destinations with
  | nil => rfl
  | cons d destinations ih =>
      have hfirst := h d List.mem_cons_self
      have hrest := ih fun d' hd' => h d' (List.mem_cons_of_mem d hd')
      simp only [rooms, room, List.map_cons, List.sum_cons, totalRoom_cons, Share.room] at hrest ⊢
      push_cast
      omega

/-- The destinations have room for what the sources have to give away. -/
structure Roomy (map : InternalBasicMap) (shares : Shares) : Prop where
  known : ∀ s ∈ shares.sources, s.serviceId ∈ map ∧ 0 ≤ s.expected ∧ s.expected ≤ s.current ∧
    s.current = counted map s.serviceId
  distinct : (shares.sources.map (·.serviceId)).Nodup
  within : ∀ d ∈ shares.destinations, d.current ≤ d.expected
  room : demand shares.sources ≤ room shares.destinations

variable {shares : Shares} {owner : Int → Option String} {total : Int}

theorem Roomy.fits (h : Roomy map shares) :
    totalItems (sourceItems map shares.sources) ≤ totalRoom (rooms shares.destinations) := by
  have hitems := totalItems_le_demand map fun s hs => (h.known s hs).2.2.1
  have hrooms := totalRoom_rooms h.within
  have hroom := h.room
  omega

theorem Roomy.map_fst_moves (h : Roomy map shares) :
    (moves map shares.sources shares.destinations).map (·.1) =
      shares.sources.flatMap fun s => (listed map s.serviceId).take s.surplus := by
  rw [moves, fillAll_keys h.fits, sourceItems, List.flatMap_map]

theorem Roomy.length_items (h : Roomy map shares) (hmap : Prepared map owner total) {s : Share}
    (hs : s ∈ shares.sources) : ((listed map s.serviceId).take s.surplus).length = s.surplus := by
  obtain ⟨-, hexpected, -, hcurrent⟩ := h.known s hs
  have hcounts := hmap.counts s.serviceId
  rw [List.length_take, Share.surplus]
  omega

theorem Roomy.nodup_moves (h : Roomy map shares) (hmap : Prepared map owner total) :
    ((moves map shares.sources shares.destinations).map (·.1)).Nodup := by
  rw [h.map_fst_moves, List.nodup_flatMap]
  refine ⟨fun s _ => (hmap.lists.nodup s.serviceId).sublist (List.take_sublist _ _), ?_⟩
  have hdistinct := List.pairwise_map.mp h.distinct
  refine hdistinct.imp fun hne c hc hc' => hne ?_
  exact hmap.lists.once c _ _ (List.mem_of_mem_take hc) (List.mem_of_mem_take hc')

theorem Roomy.owned_of_moves (h : Roomy map shares) (hmap : Prepared map owner total) {c : Int}
    (hc : c ∈ (moves map shares.sources shares.destinations).map (·.1)) : owner c ≠ none := by
  rw [h.map_fst_moves] at hc
  obtain ⟨s, -, hs⟩ := List.mem_flatMap.mp hc
  rw [(hmap.lists.mem s.serviceId c).mp (List.mem_of_mem_take hs)]
  exact Option.some_ne_none _

theorem Roomy.moves_eq_nil_iff (h : Roomy map shares) (hmap : Prepared map owner total) :
    moves map shares.sources shares.destinations = [] ↔
      ∀ s ∈ shares.sources, s.current = s.expected := by
  rw [← List.map_eq_nil_iff (f := (·.1)), h.map_fst_moves, List.flatMap_eq_nil_iff]
  refine forall₂_congr fun s hs => ?_
  obtain ⟨-, -, hle, -⟩ := h.known s hs
  rw [← List.length_eq_zero_iff, h.length_items hmap hs, Share.surplus]
  omega

/-- Every source has given away what it had too much of. -/
theorem Roomy.surplus_le_countP (h : Roomy map shares) (hmap : Prepared map owner total) {s : Share}
    (hs : s ∈ shares.sources) :
    s.surplus ≤ (moves map shares.sources shares.destinations).countP
      fun e => owner e.1 = some s.serviceId := by
  have hkeys : ((moves map shares.sources shares.destinations).countP
      fun e => owner e.1 = some s.serviceId) =
        ((moves map shares.sources shares.destinations).map (·.1)).countP
          fun c => owner c = some s.serviceId := by
    rw [List.countP_map]
    rfl
  have hall : ((listed map s.serviceId).take s.surplus).countP
      (fun c => owner c = some s.serviceId) = s.surplus := by
    rw [List.countP_eq_length.mpr fun c hc => by
      simpa using (hmap.lists.mem s.serviceId c).mp (List.mem_of_mem_take hc),
      h.length_items hmap hs]
  have hsub : ((listed map s.serviceId).take s.surplus).Sublist
      (shares.sources.flatMap fun s => (listed map s.serviceId).take s.surplus) := by
    rw [List.flatMap_def]
    exact List.sublist_flatten_of_mem (List.mem_map.mpr ⟨s, hs, rfl⟩)
  rw [hkeys, h.map_fst_moves]
  exact hall.ge.trans (hsub.countP_le)

end

section

variable {b : ComponentBalancer} {service : String} {map : InternalBasicMap}
  {m : ComponentMapManager} {owner : Int → Option String}

/-- The healthy nodes are told apart by their services of the type, none of which is deleted or
recovered. -/
structure SoundNodes (b : ComponentBalancer) (service : String) : Prop where
  nodup : b.healthyNodeList.Nodup
  named : '_' ∉ service.toList
  notRetired : ∀ node ∈ b.healthyNodeList, ¬ b.Retired (getServiceId node service)

/-- The services of the type at the healthy nodes. -/
def healthyServices (b : ComponentBalancer) (service : String) : List String :=
  b.healthyNodeList.map (getServiceId · service)

theorem SoundNodes.nodup_healthyServices (h : SoundNodes b service) :
    (b.healthyServices service).Nodup :=
  List.Pairwise.map _ (fun _ _ hne heq => hne (getServiceId_injective h.named heq)) h.nodup

theorem SoundNodes.mem_shareOrder (h : SoundNodes b service) {id : String}
    (hid : id ∈ b.healthyServices service) (map : InternalBasicMap) :
    id ∈ b.shareOrder service map := by
  rw [shareOrder, List.mem_append]
  by_cases hmap : id ∈ map
  · obtain ⟨node, hnode, rfl⟩ := List.mem_map.mp hid
    have hexisting : getServiceId node service ∈ b.existingHealthyServices service map :=
      List.mem_filter.mpr ⟨hid, by simpa using hmap⟩
    have hgets : b.GetsShare (b.existingHealthyServices service map) (getServiceId node service) :=
      ⟨h.notRetired node hnode, hexisting⟩
    exact .inl (List.mem_filter.mpr ⟨TreeMap.mem_keys.mpr hmap, by simpa using hgets⟩)
  · refine .inr (mem_sortUnique.mpr (List.mem_append_left _ ?_))
    exact List.mem_filter.mpr ⟨hid, by simpa using hmap⟩

theorem SoundNodes.length_le (h : SoundNodes b service) (map : InternalBasicMap) :
    b.healthyNodeList.length ≤ (b.shareOrder service map).length := by
  have hlength : (b.healthyServices service).length = b.healthyNodeList.length := List.length_map _
  rw [← hlength]
  exact (List.subperm_of_subset h.nodup_healthyServices
    fun id hid => h.mem_shareOrder hid map).length_le

theorem length_shareOrder : (b.shareOrder service map).length =
    (map.toList.countP fun e => b.GetsShare (b.existingHealthyServices service map) e.1) +
      (b.newHealthyServices service map).length := by
  rw [shareOrder, List.length_append, ← TreeMap.map_fst_toList_eq_keys,
    ← List.countP_eq_length_filter, List.countP_map]
  rfl

/-- The plan is for all components of the service type, and none is planned yet. -/
structure Planning (b : ComponentBalancer) (service : String) (map : InternalBasicMap)
    (owner : Int → Option String) (m : ComponentMapManager) : Prop where
  nodes : SoundNodes b service
  additions : b.AdditionsNew map
  prepared : Prepared map owner b.totalNoOfComponents
  unplanned : m.isGlobalPlannedEmpty service = true

theorem Planning.total_nonneg (h : Planning b service map owner m) : 0 ≤ b.totalNoOfComponents := by
  rw [← h.prepared.total, totalCount, sumOf]
  refine List.sum_nonneg fun n hn => ?_
  obtain ⟨e, he, rfl⟩ := List.mem_map.mp hn
  have hget := TreeMap.mem_toList_iff_getElem?_eq_some.mp he
  have hcount := h.prepared.counts e.1
  simp only [counted, hget, Option.map_some, Option.getD_some] at hcount
  omega

theorem Planning.sharing (h : Planning b service map owner m) :
    Sharing (b.totalNoOfComponents.tdiv b.healthyNodeList.length)
      (b.totalNoOfComponents.tmod b.healthyNodeList.length) (totalCount map)
      (b.shareOrder service map).length (b.allShares service map m) := by
  rw [length_shareOrder]
  refine allShares_sharing (fun id _ => ?_) h.total_nonneg
  have hcount := h.prepared.counts id
  omega

theorem Planning.roomy (h : Planning b service map owner m) (hnodes : b.healthyNodeList ≠ [])  :
    (b.allShares service map m).unbalanced = 0 ∧ Roomy map (b.allShares service map m) := by
  have hfrom := allShares_from b service map m
  have hsharing := h.sharing
  have hper : 0 ≤ b.totalNoOfComponents.tdiv b.healthyNodeList.length :=
    Int.tdiv_nonneg h.total_nonneg (Int.natCast_nonneg _)
  have hpos : 0 < (b.healthyNodeList.length : Int) := by
    have := List.length_pos_iff.mpr hnodes
    omega
  have hlt := Int.tmod_lt_of_pos b.totalNoOfComponents hpos
  have hlength : (b.healthyNodeList.length : Int) ≤ (b.shareOrder service map).length := by
    exact_mod_cast h.nodes.length_le map
  have hzero : (b.allShares service map m).unbalanced = 0 := by
    rw [hsharing.unbalanced]
    omega
  refine ⟨hzero, fun s hs => ?_, hfrom.distinct.nodup ?_, hsharing.destinations, ?_⟩
  · obtain ⟨e, he, hid, hcurrent, -⟩ := hfrom.sources s hs
    have hget := TreeMap.mem_toList_iff_getElem?_eq_some.mp he
    obtain ⟨hexpected, hle⟩ := hsharing.sources s hs
    rw [hid]
    exact ⟨(mem_iff_exists_getElem? map e.1).mpr ⟨e.2, hget⟩, hexpected, hle,
      by simp [counted, hget, hcurrent]⟩
  · rw [TreeMap.map_fst_toList_eq_keys]
    exact map.nodup_keys
  · have hbalance := hsharing.balance
    have hdiv := Int.mul_tdiv_add_tmod b.totalNoOfComponents b.healthyNodeList.length
    have hmul := Int.mul_le_mul_of_nonneg_left hlength hper
    rw [hzero, h.prepared.total] at hbalance
    rw [Int.mul_comm] at hdiv
    linarith

/-- No service has more than its share once the plan is executed. -/
theorem Planning.counted_executed_le (h : Planning b service map owner m)
    (hnodes : b.healthyNodeList ≠ []) (records : List NodeInfoFileRecord) {k : Nat} {id : String}
    (hk : (b.shareOrder service map)[k]? = some id) :
    counted (((moves map (b.allShares service map m).sources
        (b.allShares service map m).destinations).map (plannedAt records)).foldl
          (fun map (component, owner) => addEntryInInternalBasicMap
            (removeValueFromInternalBasicMap map component) component owner.serviceId) map) id ≤
      shareAt (b.totalNoOfComponents.tdiv b.healthyNodeList.length)
        (b.totalNoOfComponents.tmod b.healthyNodeList.length) k := by
  let shares := b.allShares service map m
  let entry : Share := ⟨id, counted map id,
    shareAt (b.totalNoOfComponents.tdiv b.healthyNodeList.length)
      (b.totalNoOfComponents.tmod b.healthyNodeList.length) k⟩
  have hroomy : Roomy map shares := (h.roomy hnodes).2
  have hshares : SharesEq b service map true shares := h.unplanned ▸ allShares_eq h.total_nonneg
  have hget : (b.allAssigned service map)[k]? = some entry := by
    rw [getElem?_allAssigned h.additions, hk, Option.map_some]
  have hentry : entry ∈ b.allAssigned service map := List.mem_of_getElem? hget
  -- what the service gets is what it has room for
  have hto : (moves map shares.sources shares.destinations).countP (fun e => e.2 = id) ≤
      entry.room := by
    have hnodup : ((rooms (b.allAssigned service map)).map (·.1)).Nodup := by
      rw [rooms, List.map_map]
      exact (map_serviceId_allAssigned h.additions).symm ▸ nodup_shareOrder h.additions
    have hmem : (entry.serviceId, entry.room) ∈ rooms (b.allAssigned service map) :=
      List.mem_map.mpr ⟨entry, hentry, rfl⟩
    have hle := countP_fillAll_le (sourceItems map shares.sources) (rooms shares.destinations) id
    rw [hshares.roomFor, roomFor_of_mem hnodup hmem] at hle
    exact hle
  have howned : ∀ e ∈ (moves map shares.sources shares.destinations).map (plannedAt records),
      owner e.1 ≠ none := fun e he => by
    obtain ⟨e', he', rfl⟩ := List.mem_map.mp he
    exact hroomy.owned_of_moves h.prepared (List.mem_map.mpr ⟨e', he', rfl⟩)
  have hkeys : (((moves map shares.sources shares.destinations).map
      (plannedAt records)).map (·.1)).Nodup := by
    rw [List.map_map]
    exact hroomy.nodup_moves h.prepared
  have hcounted := counted_foldl_transfers h.prepared howned hkeys id
  rw [hcounted, List.countP_map, List.countP_map]
  change counted map id - ((moves map shares.sources shares.destinations).countP
    (fun e => owner e.1 = some id) : Nat) + ((moves map shares.sources shares.destinations).countP
      (fun e => e.2 = id) : Nat) ≤ entry.expected
  by_cases hmore : entry.expected < entry.current
  · have hsource : entry ∈ shares.sources := by
      refine hshares.sources.mem_iff.mpr (List.mem_append_right _ ?_)
      rw [if_pos rfl, exceeding]
      exact List.mem_filter.mpr ⟨hentry, by simpa using hmore⟩
    have hgone := hroomy.surplus_le_countP h.prepared hsource
    simp only [Share.room, Share.surplus, entry] at hto hgone hmore ⊢
    omega
  · simp only [Share.room, entry] at hto hmore ⊢
    omega

end

end ComponentBalancer

end ObjectStorage.Osm
