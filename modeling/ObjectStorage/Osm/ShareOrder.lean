import ObjectStorage.Osm.BalancingShares
import ObjectStorage.Osm.ComponentTransfers

/-!
The shares of `balance_components` in the order in which the services get them: the services of the
internal basic map first, in the order of their ids, and then the new ones. The first services of
this order get the components that are over.
-/

namespace ObjectStorage.Osm

open Std Library

namespace ComponentBalancer

/-- The share of the service at a place of the order. -/
def shareAt (perNode rest : Int) (k : Nat) : Int :=
  if (k : Int) < rest then perNode + 1 else perNode

/-- The shares of services one after the other, given what they have. -/
def assigned (perNode rest : Int) (k : Nat) : List (String × Int) → List Share
  | [] => []
  | (id, current) :: es =>
      ⟨id, current, shareAt perNode rest k⟩ :: assigned perNode rest (k + 1) es

section

variable {perNode rest : Int} {k : Nat} {es : List (String × Int)}

theorem assigned_append (perNode rest : Int) (k : Nat) (es es' : List (String × Int)) :
    assigned perNode rest k (es ++ es') =
      assigned perNode rest k es ++ assigned perNode rest (k + es.length) es' := by
  induction es generalizing k with
  | nil => simp [assigned]
  | cons e es ih =>
      rw [List.cons_append, assigned, assigned, ih, List.length_cons, List.cons_append]
      congr 3
      omega

@[simp] theorem map_serviceId_assigned :
    (assigned perNode rest k es).map (·.serviceId) = es.map (·.1) := by
  induction es generalizing k with
  | nil => rfl
  | cons e es ih => simp [assigned, ih]

/-- All shares together: the same for each, and one more for each of the first. -/
theorem sum_expected_assigned (perNode rest : Int) (k : Nat) (es : List (String × Int)) :
    ((assigned perNode rest k es).map (·.expected)).sum =
      perNode * es.length + (max (rest - k) 0 - max (rest - (k + es.length : Nat)) 0) := by
  induction es generalizing k with
  | nil => simp [assigned]
  | cons e es ih =>
      have hmul : perNode * ((es.length + 1 : Nat) : Int) = perNode * es.length + perNode := by
        push_cast
        ring
      simp only [assigned, List.map_cons, List.sum_cons, ih, List.length_cons, hmul]
      unfold shareAt
      split <;> push_cast <;> omega

theorem getElem?_assigned (i : Nat) : (assigned perNode rest k es)[i]? =
    es[i]?.map fun e => ⟨e.1, e.2, shareAt perNode rest (k + i)⟩ := by
  induction es generalizing k i with
  | nil => simp [assigned]
  | cons e es ih =>
      cases i with
      | zero => simp [assigned]
      | succ i =>
          rw [assigned, List.getElem?_cons_succ, List.getElem?_cons_succ, ih, Nat.add_right_comm]
          rfl

theorem shareAt_nonneg (hperNode : 0 ≤ perNode) : 0 ≤ shareAt perNode rest k := by
  unfold shareAt
  split <;> omega

end

/-- The shares that are more than is there. -/
def lacking (shares : List Share) : List Share := shares.filter fun s => s.current < s.expected

/-- The shares that are less than is there. -/
def exceeding (shares : List Share) : List Share := shares.filter fun s => s.expected < s.current

section

variable {b : ComponentBalancer} {healthy : List String} {plannedEmpty : Bool}
  {perNode rest : Int} {acc : Shares} {es : List (String × List Int × Int)}

/-- The services of the map that get a share, and what they have. -/
def given (b : ComponentBalancer) (healthy : List String) (es : List (String × List Int × Int)) :
    List (String × Int) :=
  (es.filter fun e => b.GetsShare healthy e.1).map fun e => (e.1, e.2.2)

/-- The services of the map that are to give all they have. -/
def retiredShares (b : ComponentBalancer) (es : List (String × List Int × Int)) : List Share :=
  (es.filter fun e => b.Retired e.1).map fun e => ⟨e.1, e.2.2, 0⟩

/-- What the loop over the services of the map has computed. -/
structure Dealt (b : ComponentBalancer) (healthy : List String) (plannedEmpty : Bool)
    (perNode rest : Int) (es : List (String × List Int × Int)) (acc : Shares) : Prop where
  unbalanced : acc.unbalanced = max (rest - (b.given healthy es).length) 0
  sources : acc.sources.Perm (b.retiredShares es ++
    if plannedEmpty then exceeding (assigned perNode rest 0 (b.given healthy es)) else [])
  destinations : acc.destinations = lacking (assigned perNode rest 0 (b.given healthy es))

theorem Dealt.init (b : ComponentBalancer) (healthy : List String) (plannedEmpty : Bool)
    (perNode : Int) (hrest : 0 ≤ rest) :
    Dealt b healthy plannedEmpty perNode rest [] ⟨rest, [], []⟩ where
  unbalanced := by simp [given, hrest]
  sources := by cases plannedEmpty <;> simp [retiredShares, given, assigned, exceeding]
  destinations := rfl

/-- The share of the next service is that of its place. -/
theorem expected_of_unbalanced (perNode : Int) {n : Nat} (h : acc.unbalanced = max (rest - n) 0) :
    acc.expected perNode = shareAt perNode rest n ∧ acc.rest = max (rest - (n + 1 : Nat)) 0 := by
  unfold Shares.expected Shares.rest shareAt
  by_cases hlt : (n : Int) < rest
  · have hpos : acc.unbalanced > 0 := by omega
    rw [if_pos hlt, if_pos hpos, if_pos hpos]
    refine ⟨rfl, ?_⟩
    push_cast
    omega
  · have hzero : ¬ acc.unbalanced > 0 := by omega
    rw [if_neg hlt, if_neg hzero, if_neg hzero]
    refine ⟨rfl, ?_⟩
    push_cast
    omega

theorem lacking_concat (shares : List Share) (s : Share) :
    lacking (shares ++ [s]) = lacking shares ++ if s.current < s.expected then [s] else [] := by
  by_cases h : s.current < s.expected <;> simp [lacking, h]

theorem exceeding_concat (shares : List Share) (s : Share) :
    exceeding (shares ++ [s]) = exceeding shares ++ if s.expected < s.current then [s] else [] := by
  by_cases h : s.expected < s.current <;> simp [exceeding, h]

theorem Dealt.existing (h : Dealt b healthy plannedEmpty perNode rest es acc)
    (e : String × List Int × Int) : Dealt b healthy plannedEmpty perNode rest (es ++ [e])
      (b.shareExisting healthy plannedEmpty perNode acc e) := by
  obtain ⟨id, list, current⟩ := e
  unfold shareExisting
  by_cases hretired : id ∈ b.listOfServicesForDeletion ∨ id ∈ b.listOfServicesForRecovery
  · have hr : b.Retired id := hretired.symm
    have hgiven : b.given healthy (es ++ [(id, list, current)]) = b.given healthy es := by
      simp [given, GetsShare, hr]
    have hshares : b.retiredShares (es ++ [(id, list, current)]) =
        b.retiredShares es ++ [⟨id, current, 0⟩] := by simp [retiredShares, hr]
    simp only [hretired, if_true]
    refine ⟨hgiven ▸ h.unbalanced, ?_, hgiven ▸ h.destinations⟩
    rw [hgiven, hshares, List.append_assoc]
    exact (h.sources.append_right _).trans (by
      rw [List.append_assoc]
      exact (List.perm_append_comm).append_left _)
  have hr : ¬ b.Retired id := fun hr => hretired hr.symm
  have hshares : b.retiredShares (es ++ [(id, list, current)]) = b.retiredShares es := by
    simp [retiredShares, hr]
  simp only [hretired, if_false]
  by_cases hin : id ∈ healthy
  · have hgiven : b.given healthy (es ++ [(id, list, current)]) =
        b.given healthy es ++ [(id, current)] := by simp [given, GetsShare, hr, hin]
    obtain ⟨hexpected, hrest⟩ := expected_of_unbalanced perNode h.unbalanced
    have hassigned : assigned perNode rest 0 (b.given healthy es ++ [(id, current)]) =
        assigned perNode rest 0 (b.given healthy es) ++ [⟨id, current, acc.expected perNode⟩] := by
      rw [assigned_append, hexpected, Nat.zero_add]
      rfl
    have hunbalanced : acc.rest =
        max (rest - (b.given healthy es ++ [(id, current)]).length) 0 := by
      rw [hrest, List.length_append, List.length_singleton]
    have hlacking := lacking_concat (assigned perNode rest 0 (b.given healthy es))
      ⟨id, current, acc.expected perNode⟩
    have hexceeding := exceeding_concat (assigned perNode rest 0 (b.given healthy es))
      ⟨id, current, acc.expected perNode⟩
    rw [if_pos hin]
    rcases Int.lt_trichotomy current (acc.expected perNode) with hlt | heq | hgt
    · have hnot : ¬ current > acc.expected perNode := by omega
      rw [if_neg hnot, if_pos hlt]
      refine ⟨hgiven ▸ hunbalanced, ?_, ?_⟩
      · rw [hgiven, hshares, hassigned, hexceeding, if_neg hnot, List.append_nil]
        exact h.sources
      · rw [hgiven, hassigned, hlacking, if_pos hlt, ← h.destinations]
    · have hnot : ¬ current > acc.expected perNode := by omega
      have hnot' : ¬ current < acc.expected perNode := by omega
      rw [if_neg hnot, if_neg hnot']
      refine ⟨hgiven ▸ hunbalanced, ?_, ?_⟩
      · rw [hgiven, hshares, hassigned, hexceeding, if_neg hnot, List.append_nil]
        exact h.sources
      · rw [hgiven, hassigned, hlacking, if_neg hnot', List.append_nil]
        exact h.destinations
    · have hnot : ¬ current < acc.expected perNode := by omega
      rw [if_pos hgt]
      refine ⟨hgiven ▸ hunbalanced, ?_, ?_⟩
      · rw [hgiven, hshares, hassigned, hexceeding, if_pos hgt]
        cases plannedEmpty with
        | true =>
            rw [if_pos rfl, if_pos rfl, ← List.append_assoc]
            exact h.sources.append_right _
        | false => exact h.sources
      · rw [hgiven, hassigned, hlacking, if_neg hnot, List.append_nil]
        exact h.destinations
  · have hgiven : b.given healthy (es ++ [(id, list, current)]) = b.given healthy es := by
      simp [given, GetsShare, hin]
    rw [if_neg hin]
    exact ⟨hgiven ▸ h.unbalanced, by rw [hgiven, hshares]; exact h.sources,
      hgiven ▸ h.destinations⟩

theorem Dealt.foldl_existing (h : Dealt b healthy plannedEmpty perNode rest es acc)
    (es' : List (String × List Int × Int)) :
    Dealt b healthy plannedEmpty perNode rest (es ++ es')
      (es'.foldl (b.shareExisting healthy plannedEmpty perNode) acc) := by
  induction es' generalizing es acc with
  | nil => simpa using h
  | cons e es' ih =>
      have hrest := ih (h.existing e)
      rwa [List.append_assoc] at hrest

/-- The new services have nothing yet. -/
def newcomers (ids : List String) : List (String × Int) := ids.map fun id => (id, 0)

theorem foldl_shareNew (perNode : Int) {n : Nat} (h : acc.unbalanced = max (rest - n) 0)
    (ids : List String) :
    (ids.foldl (shareNew perNode) acc).unbalanced = max (rest - (n + ids.length : Nat)) 0 ∧
      (ids.foldl (shareNew perNode) acc).sources = acc.sources ∧
      (ids.foldl (shareNew perNode) acc).destinations =
        acc.destinations ++ assigned perNode rest n (newcomers ids) := by
  induction ids generalizing acc n with
  | nil => exact ⟨h, rfl, (List.append_nil _).symm⟩
  | cons id ids ih =>
      obtain ⟨hexpected, hrest⟩ := expected_of_unbalanced perNode h
      obtain ⟨hunbalanced, hsources, hdestinations⟩ := @ih (shareNew perNode acc id) (n + 1) hrest
      refine ⟨?_, hsources, ?_⟩
      · rw [List.length_cons, Nat.add_comm ids.length 1, ← Nat.add_assoc]
        exact hunbalanced
      · rw [List.foldl_cons, hdestinations, shareNew, hexpected, List.append_assoc]
        rfl

/-- The share of each service in the order of `balance_components`. -/
def allAssigned (b : ComponentBalancer) (service : String) (map : InternalBasicMap) :
    List Share :=
  assigned (b.totalNoOfComponents.tdiv b.healthyNodeList.length)
    (b.totalNoOfComponents.tmod b.healthyNodeList.length) 0
    (b.given (b.existingHealthyServices service map) map.toList ++
      newcomers (b.newHealthyServices service map))

end

section

variable {b : ComponentBalancer} {service : String} {map : InternalBasicMap}
  {m : ComponentMapManager}

theorem roomFor_append (id : String) (xs ys : List Share) :
    roomFor id (rooms (xs ++ ys)) = roomFor id (rooms xs) + roomFor id (rooms ys) := by
  simp [roomFor, rooms]

theorem roomFor_lacking (id : String) (shares : List Share) :
    roomFor id (rooms (lacking shares)) = roomFor id (rooms shares) := by
  induction shares with
  | nil => rfl
  | cons s shares ih =>
      by_cases h : s.current < s.expected
      · have hcons : lacking (s :: shares) = s :: lacking shares := by simp [lacking, h]
        rw [hcons, rooms, rooms, List.map_cons, List.map_cons, roomFor_cons, roomFor_cons]
        exact congrArg _ ih
      · have hcons : lacking (s :: shares) = lacking shares := by simp [lacking, h]
        have hroom : s.room = 0 := by
          simp only [Share.room]
          omega
        rw [hcons, ih]
        simp [rooms, hroom]

theorem assigned_newcomers_le {perNode rest : Int} (hperNode : 0 ≤ perNode) (k : Nat)
    (ids : List String) :
    ∀ s ∈ assigned perNode rest k (newcomers ids), s.current ≤ s.expected := by
  induction ids generalizing k with
  | nil => exact fun s hs => nomatch hs
  | cons id ids ih =>
      intro s hs
      rcases List.mem_cons.mp hs with rfl | hs
      · exact shareAt_nonneg hperNode
      · exact ih (k + 1) s hs

theorem current_of_newcomers {perNode rest : Int} {k : Nat} {ids : List String} {s : Share}
    (hs : s ∈ assigned perNode rest k (newcomers ids)) : s.current = 0 := by
  induction ids generalizing k with
  | nil => exact nomatch hs
  | cons id ids ih =>
      rcases List.mem_cons.mp hs with rfl | hs
      · rfl
      · exact ih hs

/-- The sources and destinations of `balance_components`: the shares that differ from what is
there. A new service stays a destination when it has no room. -/
structure SharesEq (b : ComponentBalancer) (service : String) (map : InternalBasicMap)
    (plannedEmpty : Bool) (shares : Shares) : Prop where
  sources : shares.sources.Perm (b.retiredShares map.toList ++
    if plannedEmpty then exceeding (b.allAssigned service map) else [])
  within : ∀ d ∈ shares.destinations, d.current ≤ d.expected
  roomFor : ∀ id, roomFor id (rooms shares.destinations) =
    Library.roomFor id (rooms (b.allAssigned service map))

theorem allShares_eq (htotal : 0 ≤ b.totalNoOfComponents) :
    SharesEq b service map (m.isGlobalPlannedEmpty service) (b.allShares service map m) := by
  let perNode := b.totalNoOfComponents.tdiv b.healthyNodeList.length
  let rest := b.totalNoOfComponents.tmod b.healthyNodeList.length
  let olds := b.given (b.existingHealthyServices service map) map.toList
  let news := b.newHealthyServices service map
  have hdealt := (Dealt.init b (b.existingHealthyServices service map)
    (m.isGlobalPlannedEmpty service) perNode
    (Int.tmod_nonneg (b.healthyNodeList.length : Int) htotal)).foldl_existing map.toList
  rw [List.nil_append] at hdealt
  obtain ⟨-, hsources, hdestinations⟩ := foldl_shareNew perNode hdealt.unbalanced news
  have hnew : ∀ s ∈ assigned perNode rest olds.length (newcomers news), s.current ≤ s.expected :=
    assigned_newcomers_le (Int.tdiv_nonneg htotal (Int.natCast_nonneg _)) olds.length news
  have hall : b.allAssigned service map =
      assigned perNode rest 0 olds ++ assigned perNode rest olds.length (newcomers news) := by
    rw [allAssigned, assigned_append, Nat.zero_add]
  have hnone : exceeding (assigned perNode rest olds.length (newcomers news)) = [] :=
    List.filter_eq_nil_iff.mpr fun s hs => by simpa using hnew s hs
  unfold allShares
  refine ⟨?_, ?_, fun id => ?_⟩
  · rw [hsources, hall, exceeding, List.filter_append, ← exceeding, ← exceeding, hnone,
      List.append_nil]
    exact hdealt.sources
  · rw [hdestinations, hdealt.destinations]
    intro d hd
    rcases List.mem_append.mp hd with hd | hd
    · exact (of_decide_eq_true (List.mem_filter.mp hd).2 : d.current < d.expected).le
    · exact hnew d hd
  · rw [hdestinations, hdealt.destinations, roomFor_append, roomFor_lacking, hall, roomFor_append]

/-- The order in which the services get their shares. -/
def shareOrder (b : ComponentBalancer) (service : String) (map : InternalBasicMap) : List String :=
  map.keys.filter (b.GetsShare (b.existingHealthyServices service map)) ++
    b.newHealthyServices service map

/-- The services that are added have no place in the map. -/
def AdditionsNew (b : ComponentBalancer) (map : InternalBasicMap) : Prop :=
  ∀ id ∈ b.listOfServicesForAddition, id ∉ map

theorem newHealthyServices_not_mem (h : b.AdditionsNew map) {id : String}
    (hid : id ∈ b.newHealthyServices service map) : id ∉ map := by
  rw [newHealthyServices, mem_sortUnique, List.mem_append] at hid
  rcases hid with hid | hid
  · simpa using (List.mem_filter.mp hid).2
  · exact h id hid

theorem nodup_shareOrder (h : b.AdditionsNew map) : (b.shareOrder service map).Nodup := by
  refine List.nodup_append.mpr ⟨map.nodup_keys.filter _, nodup_sortUnique _, ?_⟩
  rintro id hid _ hid' rfl
  exact newHealthyServices_not_mem h hid' (TreeMap.mem_keys.mp (List.mem_filter.mp hid).1)

theorem given_append_newcomers (h : b.AdditionsNew map) :
    b.given (b.existingHealthyServices service map) map.toList ++
        newcomers (b.newHealthyServices service map) =
      (b.shareOrder service map).map fun id => (id, counted map id) := by
  rw [shareOrder, List.map_append]
  congr 1
  · rw [given, ← TreeMap.map_fst_toList_eq_keys, List.filter_map, List.map_map]
    refine List.map_congr_left fun e he => ?_
    have hget := TreeMap.mem_toList_iff_getElem?_eq_some.mp (List.mem_filter.mp he).1
    simp [counted, hget]
  · refine List.map_congr_left fun id hid => ?_
    simp [counted, TreeMap.getElem?_eq_none (newHealthyServices_not_mem h hid)]

theorem getElem?_allAssigned (h : b.AdditionsNew map) (k : Nat) :
    (b.allAssigned service map)[k]? = (b.shareOrder service map)[k]?.map fun id =>
      ⟨id, counted map id, shareAt (b.totalNoOfComponents.tdiv b.healthyNodeList.length)
        (b.totalNoOfComponents.tmod b.healthyNodeList.length) k⟩ := by
  rw [allAssigned, given_append_newcomers h, getElem?_assigned, List.getElem?_map, Option.map_map,
    Nat.zero_add]
  rfl

theorem map_serviceId_allAssigned (h : b.AdditionsNew map) :
    (b.allAssigned service map).map (·.serviceId) = b.shareOrder service map := by
  rw [allAssigned, given_append_newcomers h, map_serviceId_assigned, List.map_map]
  exact List.map_id _

end

end ComponentBalancer

end ObjectStorage.Osm
