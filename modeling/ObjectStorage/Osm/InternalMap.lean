import Mathlib.Logic.Function.Basic
import ObjectStorage.Osm.Balancing

/-!
The internal basic map of the balancer lists each component at its owner, once; merging the planned
map takes the planned components off the lists and drops the plans that are to be made again.
-/

namespace ObjectStorage.Osm

open Std Library

namespace ComponentBalancer

def listed (map : InternalBasicMap) (id : String) : List Int := (map[id]?.map (·.1)).getD []

def counted (map : InternalBasicMap) (id : String) : Int := (map[id]?.map (·.2)).getD 0

def totalCount (map : InternalBasicMap) : Int := sumOf (fun e : List Int × Int => e.2) map

/-- Each component is listed at its owner, once, and nowhere else. -/
structure ListsOwners (map : InternalBasicMap) (owner : Int → Option String) : Prop where
  nodup : ∀ id, (listed map id).Nodup
  mem : ∀ id c, c ∈ listed map id ↔ owner c = some id

section

variable {map map' : InternalBasicMap} {owner : Int → Option String} {c : Int} {id : String}

theorem listed_of_not_mem (h : id ∉ map) : listed map id = [] := by
  simp [listed, TreeMap.getElem?_eq_none h]

theorem mem_of_listed (h : c ∈ listed map id) : id ∈ map := by
  by_contra hid
  simp [listed_of_not_mem hid] at h

theorem getElem?_listed (h : c ∈ listed map id) :
    map[id]? = some (listed map id, counted map id) := by
  obtain ⟨v, hv⟩ := (mem_iff_exists_getElem? map id).mp (mem_of_listed h)
  simp [listed, counted, hv]

theorem totalCount_update (map map' : InternalBasicMap) (k : String)
    (h : ∀ a, a ≠ k → map'[a]? = map[a]?) :
    totalCount map' + counted map k = totalCount map + counted map' k :=
  sumOf_update (fun e : List Int × Int => e.2) k h

@[simp] theorem listed_addEntry (map : InternalBasicMap) (c : Int) (id id' : String) :
    listed (addEntryInInternalBasicMap map c id) id' =
      if id = id' then listed map id ++ [c] else listed map id' := by
  unfold addEntryInInternalBasicMap listed
  cases h : map[id]? with
  | none => by_cases hid : id = id' <;> simp [hid]
  | some e => by_cases hid : id = id' <;> simp [hid]

@[simp] theorem counted_addEntry (map : InternalBasicMap) (c : Int) (id id' : String) :
    counted (addEntryInInternalBasicMap map c id) id' =
      if id = id' then counted map id + 1 else counted map id' := by
  unfold addEntryInInternalBasicMap counted
  cases h : map[id]? with
  | none => by_cases hid : id = id' <;> simp [hid]
  | some e => by_cases hid : id = id' <;> simp [hid]

@[simp] theorem mem_addEntry (map : InternalBasicMap) (c : Int) (id id' : String) :
    id' ∈ addEntryInInternalBasicMap map c id ↔ id = id' ∨ id' ∈ map := by
  unfold addEntryInInternalBasicMap
  split <;> simp [TreeMap.mem_insert]

theorem totalCount_addEntry (map : InternalBasicMap) (c : Int) (id : String) :
    totalCount (addEntryInInternalBasicMap map c id) = totalCount map + 1 := by
  have hsum := totalCount_update map (addEntryInInternalBasicMap map c id) id fun a ha => by
      have hne : id ≠ a := fun h => ha h.symm
      unfold addEntryInInternalBasicMap
      split <;> simp [hne]
  rw [counted_addEntry, if_pos rfl] at hsum
  omega

theorem getElem?_removeValue (map : InternalBasicMap) (c : Int) (id : String) :
    (removeValueFromInternalBasicMap map c)[id]? = map[id]?.map fun e =>
      if c ∈ e.1 then (e.1.erase c, e.2 - 1) else e := by
  simp [removeValueFromInternalBasicMap]

@[simp] theorem listed_removeValue (map : InternalBasicMap) (c : Int) (id : String) :
    listed (removeValueFromInternalBasicMap map c) id = (listed map id).erase c := by
  unfold listed
  rw [getElem?_removeValue]
  cases map[id]? with
  | none => simp
  | some e =>
      by_cases hc : c ∈ e.1
      · simp [hc]
      · simp [hc, List.erase_of_not_mem hc]

@[simp] theorem counted_removeValue (map : InternalBasicMap) (c : Int) (id : String) :
    counted (removeValueFromInternalBasicMap map c) id =
      counted map id - if c ∈ listed map id then 1 else 0 := by
  unfold counted listed
  rw [getElem?_removeValue]
  cases map[id]? with
  | none => simp
  | some e => by_cases hc : c ∈ e.1 <;> simp [hc]

theorem ListsOwners.empty : ListsOwners ∅ fun _ => none where
  nodup id := by simp [listed]
  mem id c := by simp [listed]

theorem ListsOwners.add (h : ListsOwners map owner) (hc : owner c = none) (id : String) :
    ListsOwners (addEntryInInternalBasicMap map c id) (Function.update owner c (some id)) where
  nodup id' := by
    rw [listed_addEntry]
    by_cases hid : id = id'
    · rw [if_pos hid, List.nodup_append]
      refine ⟨h.nodup id, by simp, fun a ha b hb => ?_⟩
      obtain rfl : b = c := by simpa using hb
      rintro rfl
      rw [(h.mem id a).mp ha] at hc
      cases hc
    · rw [if_neg hid]
      exact h.nodup id'
  mem id' a := by
    rw [listed_addEntry]
    by_cases hac : a = c
    · subst hac
      have hnot : ∀ s, a ∉ listed map s := fun s hs => by
        rw [(h.mem s a).mp hs] at hc
        cases hc
      by_cases hid : id = id'
      · simp [hid]
      · simp [hid, hnot]
    · rw [Function.update_of_ne hac, ← h.mem]
      by_cases hid : id = id'
      · simp [hid, hac]
      · simp [hid]

theorem ListsOwners.remove (h : ListsOwners map owner) (c : Int) :
    ListsOwners (removeValueFromInternalBasicMap map c) (Function.update owner c none) where
  nodup id := by
    rw [listed_removeValue]
    exact (h.nodup id).erase c
  mem id a := by
    rw [listed_removeValue, (h.nodup id).mem_erase_iff]
    by_cases hac : a = c
    · simp [hac]
    · rw [Function.update_of_ne hac, h.mem]
      simp [hac]

theorem ListsOwners.totalCount_remove (h : ListsOwners map owner) {o : String}
    (hc : owner c = some o) :
    totalCount (removeValueFromInternalBasicMap map c) = totalCount map - 1 := by
  have hmem := (h.mem o c).mpr hc
  have hsum := totalCount_update map (removeValueFromInternalBasicMap map c) o fun a ha => by
      rw [getElem?_removeValue]
      cases hma : map[a]? with
      | none => rfl
      | some e =>
          have hnot : c ∉ e.1 := fun hin => by
            have hin : c ∈ listed map a := by simpa [listed, hma] using hin
            rw [(h.mem a c).mp hin] at hc
            exact ha (Option.some.inj hc)
          simp [hnot]
  rw [counted_removeValue, if_pos hmem] at hsum
  omega

end

end ComponentBalancer

namespace ComponentMapManager

/-- How many components a service type has. -/
def componentCount (m : ComponentMapManager) (service : String) : Nat :=
  ((m.basicOwners service).getD []).length

def basicOwnerId (m : ComponentMapManager) (service : String) (c : Int) : Option String :=
  if 0 ≤ c then ((m.basicOwners service).getD [])[c.toNat]?.map (·.serviceId) else none

/-- The service that owns a component in the global map: the basic map overlaid by the transient
one. -/
def ownerId (m : ComponentMapManager) (service : String) (c : Int) : Option String :=
  ((lastAt (m.transfersFor service) c).map (·.serviceId)).or (m.basicOwnerId service c)

/-- No service type has an empty list in the planned map. -/
def Filled (m : ComponentMapManager) : Prop := ∀ service : String, m.plannedMap[service]? ≠ some []

/-- A step of planning changes the planned map only, and leaves no empty list in it. -/
structure PlanChanged (m m' : ComponentMapManager) : Prop where
  same : ∃ planned, m' = { m with plannedMap := planned }
  filled : m.Filled → m'.Filled

variable {m m' m'' : ComponentMapManager}

theorem PlanChanged.refl (m : ComponentMapManager) : PlanChanged m m := ⟨⟨m.plannedMap, rfl⟩, id⟩

theorem PlanChanged.trans (h : PlanChanged m m') (h' : PlanChanged m' m'') : PlanChanged m m'' := by
  obtain ⟨⟨planned, rfl⟩, hfilled⟩ := h
  obtain ⟨⟨planned', rfl⟩, hfilled'⟩ := h'
  exact ⟨⟨planned', rfl⟩, hfilled' ∘ hfilled⟩

theorem PlanChanged.ownerId (h : PlanChanged m m') : m'.ownerId = m.ownerId := by
  obtain ⟨⟨planned, rfl⟩, -⟩ := h
  rfl

theorem PlanChanged.remove (m : ComponentMapManager) (service : String) (c : Int) :
    PlanChanged m (m.removeEntryFromGlobalPlannedMap service c).2 := by
  unfold removeEntryFromGlobalPlannedMap
  cases h : m.plannedMap[service]? with
  | none => exact .refl m
  | some entries =>
      refine ⟨⟨_, rfl⟩, fun hfilled s => ?_⟩
      by_cases hempty : entries.eraseP (fun e => decide (e.1 = c)) = []
      · by_cases hs : service = s
        · simp [hs, hempty]
        · simpa [hs, hempty] using hfilled s
      · by_cases hs : service = s
        · simp [hs, hempty]
        · simpa [hs, hempty] using hfilled s

theorem PlanChanged.add (m : ComponentMapManager) (service : String) (c : Int)
    (record : ComponentInfoRecord) :
    PlanChanged m (m.addEntryInGlobalPlannedMap service c record) := by
  unfold addEntryInGlobalPlannedMap
  split
  · refine ⟨⟨_, rfl⟩, fun hfilled s => ?_⟩
    by_cases hs : service = s
    · simp [hs]
    · simpa [hs] using hfilled s
  · refine ⟨⟨_, rfl⟩, fun hfilled s => ?_⟩
    by_cases hs : service = s
    · simp [hs]
    · simpa [hs] using hfilled s

/-- With one plan for each component, a removal takes the plan of its component away. -/
theorem plannedFor_remove (hnodup : ((m.plannedFor service).map (·.1)).Nodup) (c : Int)
    (s : String) : (m.removeEntryFromGlobalPlannedMap service c).2.plannedFor s =
      if service = s then (m.plannedFor service).filter (fun p => p.1 ≠ c)
      else m.plannedFor s := by
  obtain ⟨planned, hremove, hplanned⟩ := m.remove_spec service c
  rw [hremove, hplanned]
  by_cases hs : service = s
  · rw [if_pos hs, if_pos hs]
    exact eraseP_eq_filter hnodup c
  · rw [if_neg hs, if_neg hs]

theorem isGlobalPlannedEmpty_iff (h : m.Filled) (service : String) :
    m.isGlobalPlannedEmpty service ↔ m.plannedFor service = [] := by
  have hfilled := h service
  unfold isGlobalPlannedEmpty plannedFor
  cases hp : m.plannedMap[service]? with
  | none => simp
  | some entries =>
      rw [hp] at hfilled
      simpa using fun hempty => hfilled (congrArg some hempty)

end ComponentMapManager

namespace ComponentBalancer

section

variable {m : ComponentMapManager} {service : String} {map : InternalBasicMap}
  {owner : Int → Option String}

/-- The internal basic map lists every owned component, and counts no other. -/
structure Prepared (map : InternalBasicMap) (owner : Int → Option String) (total : Int) : Prop where
  lists : ListsOwners map owner
  counts : ∀ id, counted map id = (listed map id).length
  total : totalCount map = total

theorem Prepared.empty : Prepared ∅ (fun _ => none) 0 where
  lists := .empty
  counts id := by simp [counted, listed]
  total := rfl

theorem Prepared.add {total c : Int} (h : Prepared map owner total) (hc : owner c = none)
    (id : String) :
    Prepared (addEntryInInternalBasicMap map c id) (Function.update owner c (some id))
      (total + 1) where
  lists := h.lists.add hc id
  counts id' := by
    by_cases hid : id = id'
    · simp [hid, h.counts]
    · simp [hid, h.counts]
  total := by rw [totalCount_addEntry, h.total]

theorem Prepared.move {total c : Int} {o : String} (h : Prepared map owner total)
    (hc : owner c = some o) (id : String) :
    Prepared (addEntryInInternalBasicMap (removeValueFromInternalBasicMap map c) c id)
      (Function.update owner c (some id)) total := by
  have hremoved : Prepared (removeValueFromInternalBasicMap map c) (Function.update owner c none)
      (total - 1) :=
    { lists := h.lists.remove c
      counts := fun s => by
        rw [counted_removeValue, listed_removeValue, h.counts]
        by_cases hs : c ∈ listed map s
        · have hpos := List.length_pos_of_mem hs
          rw [if_pos hs, List.length_erase_of_mem hs]
          omega
        · simp [hs, List.erase_of_not_mem hs]
      total := by rw [h.lists.totalCount_remove hc, h.total] }
  have hadded := hremoved.add (c := c) (Function.update_self c none owner) id
  rwa [Function.update_idem, Int.sub_add_cancel] at hadded

private theorem prepared_foldl_zipIdx (owners : Owners) (n : Nat) {total : Int}
    (h : Prepared map owner total) (hfree : ∀ c : Int, n ≤ c → owner c = none) :
    Prepared ((owners.zipIdx n).foldl (fun map (owner, component) =>
        addEntryInInternalBasicMap map component owner.serviceId) map)
      (fun c => if n ≤ c then owners[(c - n).toNat]?.map (·.serviceId) else owner c)
      (total + owners.length) := by
  induction owners generalizing n map owner total with
  | nil =>
      have howner : (fun c : Int => if n ≤ c then ([] : Owners)[(c - n).toNat]?.map (·.serviceId)
          else owner c) = owner := by
        funext c
        by_cases hc : (n : Int) ≤ c
        · simp [hc, hfree c hc]
        · simp [hc]
      rw [howner]
      simpa using h
  | cons o owners ih =>
      have hstep := ih (n + 1) (h.add (hfree n le_rfl) o.serviceId) fun c hc => by
        have hne : c ≠ n := by omega
        rw [Function.update_of_ne hne, hfree c (by omega)]
      have howner : (fun c : Int => if n ≤ c then (o :: owners)[(c - n).toNat]?.map (·.serviceId)
          else owner c) = fun c : Int => if ((n + 1 : Nat) : Int) ≤ c then
            owners[(c - (n + 1 : Nat)).toNat]?.map (·.serviceId)
          else Function.update owner (n : Int) (some o.serviceId) c := by
        funext c
        by_cases hcn : c = n
        · subst hcn
          simp
        · by_cases hle : (n : Int) ≤ c
          · have hle' : ((n + 1 : Nat) : Int) ≤ c := by omega
            have hnat : (c - n).toNat = (c - (n + 1 : Nat)).toNat + 1 := by omega
            rw [if_pos hle, if_pos hle', hnat, List.getElem?_cons_succ]
          · have hle' : ¬ ((n + 1 : Nat) : Int) ≤ c := by omega
            rw [if_neg hle, if_neg hle', Function.update_of_ne hcn]
      have htotal : total + ((o :: owners).length : Int) = total + 1 + (owners.length : Int) := by
        rw [List.length_cons]
        omega
      rw [howner, htotal]
      exact hstep

theorem prepared_prepare (m : ComponentMapManager) (service : String) :
    Prepared (prepareInternalBasicMap m service) (m.basicOwnerId service)
      (m.componentCount service) := by
  cases hb : m.basicMap[service]? with
  | none =>
      have howner : m.basicOwnerId service = fun _ => none := by
        funext c
        simp [ComponentMapManager.basicOwnerId, ComponentMapManager.basicOwners, hb]
      simp only [prepareInternalBasicMap, hb, howner, ComponentMapManager.componentCount,
        ComponentMapManager.basicOwners]
      exact .empty
  | some entry =>
      obtain ⟨owners, version⟩ := entry
      have hfold := prepared_foldl_zipIdx owners 0 .empty fun _ _ => rfl
      have howner : m.basicOwnerId service = fun c : Int =>
          if ((0 : Nat) : Int) ≤ c then owners[(c - (0 : Nat)).toNat]?.map (·.serviceId)
          else none := by
        funext c
        simp [ComponentMapManager.basicOwnerId, ComponentMapManager.basicOwners, hb]
      simp only [prepareInternalBasicMap, hb, howner, ComponentMapManager.componentCount,
        ComponentMapManager.basicOwners]
      simpa using hfold

theorem prepared_foldl_transfers {es : Transfers} {total : Int} (h : Prepared map owner total)
    (howned : ∀ e ∈ es, owner e.1 ≠ none) :
    Prepared (es.foldl (fun map (component, owner) =>
        addEntryInInternalBasicMap (removeValueFromInternalBasicMap map component) component
          owner.serviceId) map)
      (fun c => ((lastAt es c).map (·.serviceId)).or (owner c)) total := by
  induction es generalizing map owner with
  | nil => simpa using h
  | cons e es ih =>
      obtain ⟨o, ho⟩ := Option.ne_none_iff_exists'.mp (howned e List.mem_cons_self)
      have hrest := ih (h.move ho e.2.serviceId) fun e' he' => by
        by_cases hee : e'.1 = e.1
        · simp [hee]
        · rw [Function.update_of_ne hee]
          exact howned e' (List.mem_cons_of_mem _ he')
      have howner : (fun c => ((lastAt (e :: es) c).map (·.serviceId)).or (owner c)) =
          fun c => ((lastAt es c).map (·.serviceId)).or
            (Function.update owner e.1 (some e.2.serviceId) c) := by
        funext c
        have hcons : e :: es = [e] ++ es := rfl
        rw [hcons, lastAt_append, lastAt_singleton]
        by_cases hc : c = e.1
        · subst hc
          cases lastAt es e.1 <;> simp
        · have hne : e.1 ≠ c := fun h => hc h.symm
          cases lastAt es c <;> simp [hne, hc]
      rw [howner]
      exact hrest

theorem prepared_merged
    (hrange : InRange (m.componentCount service) (m.transfersFor service)) :
    Prepared (mergeTransientIntoInternalBasicMap m service (prepareInternalBasicMap m service))
      (m.ownerId service) (m.componentCount service) :=
  prepared_foldl_transfers (prepared_prepare m service) fun e he => by
    obtain ⟨hlow, hhigh⟩ := hrange e he
    have hlt : e.1.toNat < ((m.basicOwners service).getD []).length := by
      rw [ComponentMapManager.componentCount] at hhigh
      omega
    simp [ComponentMapManager.basicOwnerId, hlow, hlt]

end

section

variable {m m' : ComponentMapManager} {service : String} {map : InternalBasicMap}
  {owner : Int → Option String} {b : ComponentBalancer} {p : Int × ComponentInfoRecord}

/-- A service that is deleted or recovered by the current plan. -/
def Retired (b : ComponentBalancer) (id : String) : Prop :=
  id ∈ b.listOfServicesForRecovery ∨ id ∈ b.listOfServicesForDeletion

instance (b : ComponentBalancer) : DecidablePred b.Retired := fun id =>
  inferInstanceAs (Decidable (id ∈ b.listOfServicesForRecovery ∨
    id ∈ b.listOfServicesForDeletion))

def unhealthyServices (b : ComponentBalancer) (service : String) : List String :=
  b.unhealthyNodeList.map (getServiceId · service)

/-- A planned transfer that is to be made anew: its destination is not healthy, or its source is
deleted or recovered by the current plan. -/
def Withdrawn (b : ComponentBalancer) (service : String) (owner : Int → Option String)
    (p : Int × ComponentInfoRecord) : Prop :=
  p.2.serviceId ∈ b.unhealthyServices service ∨ ∃ o ∈ owner p.1, b.Retired o

instance (b : ComponentBalancer) (service : String) (owner : Int → Option String) :
    DecidablePred (b.Withdrawn service owner) := fun p =>
  inferInstanceAs (Decidable (p.2.serviceId ∈ b.unhealthyServices service ∨
    ∃ o ∈ owner p.1, b.Retired o))

@[simp] theorem listed_addService (map : InternalBasicMap) (id id' : String) :
    listed (addService map id) id' = listed map id' := by
  unfold listed addService
  rw [getElem?_insertIfNew_eq]
  by_cases hid : id = id'
  · cases h : map[id']? <;> simp [hid]
  · simp [hid]

@[simp] theorem counted_addService (map : InternalBasicMap) (id id' : String) :
    counted (addService map id) id' = counted map id' := by
  unfold counted addService
  rw [getElem?_insertIfNew_eq]
  by_cases hid : id = id'
  · cases h : map[id']? <;> simp [hid]
  · simp [hid]

@[simp] theorem mem_addService (map : InternalBasicMap) (id id' : String) :
    id' ∈ addService map id ↔ id = id' ∨ id' ∈ map := by
  simp [addService, TreeMap.mem_insertIfNew]

theorem totalCount_addService (map : InternalBasicMap) (id : String) :
    totalCount (addService map id) = totalCount map := by
  have hsum := totalCount_update map (addService map id) id fun a ha => by
    have hne : id ≠ a := fun h => ha h.symm
    simp [addService, hne]
  rw [counted_addService] at hsum
  omega

/-- The component leaves the list of its owner and is counted at its destination. -/
def moveCount (map : InternalBasicMap) (c : Int) (owner destination : String) : InternalBasicMap :=
  ((addService map destination).insert owner ((listed map owner).erase c, counted map owner - 1))
    |>.modify destination fun (list, count) => (list, count + 1)

theorem getElem?_modify_eq (map : InternalBasicMap) (k a : String)
    (f : List Int × Int → List Int × Int) :
    (map.modify k f)[a]? = if k = a then map[a]?.map f else map[a]? := by
  rw [TreeMap.getElem?_modify]
  by_cases hka : k = a
  · simp [hka]
  · simp [hka]

@[simp] theorem listed_moveCount (map : InternalBasicMap) (c : Int) (o d id : String) :
    listed (moveCount map c o d) id =
      if o = id then (listed map o).erase c else listed map id := by
  have hadd := listed_addService map d id
  unfold listed at hadd
  unfold moveCount
  rw [listed, getElem?_modify_eq, getElem?_insert_eq]
  by_cases ho : o = id
  · by_cases hd : d = id <;> simp [ho, hd]
  · rw [if_neg ho, if_neg ho]
    by_cases hd : d = id
    · rw [if_pos hd, Option.map_map]
      exact hadd
    · rw [if_neg hd]
      exact hadd

@[simp] theorem mem_moveCount (map : InternalBasicMap) (c : Int) (o d id : String) :
    id ∈ moveCount map c o d ↔ o = id ∨ d = id ∨ id ∈ map := by
  simp [moveCount, TreeMap.mem_modify, TreeMap.mem_insert]

theorem counted_moveCount (map : InternalBasicMap) (c : Int) (o d id : String) :
    counted (moveCount map c o d) id =
      counted map id - (if o = id then 1 else 0) + if d = id then 1 else 0 := by
  have hadd := counted_addService map d id
  have hmem : d = id → id ∈ addService map d := fun h => (mem_addService map d id).mpr (.inl h)
  unfold counted at hadd
  unfold moveCount
  rw [counted, getElem?_modify_eq, getElem?_insert_eq]
  by_cases ho : o = id
  · subst ho
    by_cases hd : d = o <;> simp [hd]
  · rw [if_neg ho, if_neg ho]
    by_cases hd : d = id
    · obtain ⟨v, hv⟩ := (mem_iff_exists_getElem? _ _).mp (hmem hd)
      rw [hv] at hadd
      rw [if_pos hd, if_pos hd, hv, counted, ← hadd]
      simp
    · rw [if_neg hd, if_neg hd, hadd, counted]
      omega

theorem totalCount_moveCount (map : InternalBasicMap) (c : Int) (o d : String) :
    totalCount (moveCount map c o d) = totalCount map := by
  let map₁ := addService map d
  let map₂ := map₁.insert o ((listed map o).erase c, counted map o - 1)
  have hinsert := totalCount_update map₁ map₂ o fun a ha => by
    have hne : o ≠ a := fun h => ha h.symm
    simp [map₂, hne]
  have hmodify := totalCount_update map₂ (moveCount map c o d) d fun a ha => by
    have hne : d ≠ a := fun h => ha h.symm
    simp [moveCount, map₂, map₁, getElem?_modify_eq, hne]
  have ho : counted map₂ o = counted map₁ o - 1 := by
    rw [counted_addService]
    simp [map₂, counted]
  have hd : counted (moveCount map c o d) d = counted map₂ d + 1 := by
    have hmem : d ∈ map₂ := by simp [map₂, map₁, TreeMap.mem_insert]
    obtain ⟨v, hv⟩ := (mem_iff_exists_getElem? _ _).mp hmem
    have hmove : (moveCount map c o d)[d]? = map₂[d]?.map fun e => (e.1, e.2 + 1) := by
      rw [moveCount, getElem?_modify_eq, if_pos rfl]
    rw [counted, hmove, counted, hv]
    rfl
  have hsame : totalCount map₁ = totalCount map := totalCount_addService map d
  omega

theorem mergePlannedAt_of_not_listed {acc : InternalBasicMap × ComponentMapManager} {k : String}
    (h : p.1 ∉ listed acc.1 k) : b.mergePlannedAt service p acc k = acc := by
  unfold mergePlannedAt
  cases hk : acc.1[k]? with
  | none => rfl
  | some e =>
      have hnot : p.1 ∉ e.1 := by simpa [listed, hk] using h
      simp [hnot]

theorem mergePlannedAt_of_listed {k : String} (h : p.1 ∈ listed map k) (m : ComponentMapManager) :
    b.mergePlannedAt service p (map, m) k =
      if b.Retired k then (addService map p.2.serviceId,
        (m.removeEntryFromGlobalPlannedMap service p.1).2)
      else (moveCount map p.1 k p.2.serviceId, m) := by
  unfold mergePlannedAt
  rw [getElem?_listed h]
  by_cases hretired : b.Retired k
  · have hin : k ∈ b.listOfServicesForRecovery ∨ k ∈ b.listOfServicesForDeletion := hretired
    simp [h, hretired, hin]
  · have hout : ¬ (k ∈ b.listOfServicesForRecovery ∨ k ∈ b.listOfServicesForDeletion) := hretired
    simp [h, hretired, hout, moveCount]

/-- The loop over the services acts at the owner of the planned component, if it has one. -/
theorem foldl_mergePlannedAt (h : ListsOwners map owner) (m : ComponentMapManager) :
    map.keys.foldl (b.mergePlannedAt service p) (map, m) =
      match owner p.1 with
      | none => (map, m)
      | some o => b.mergePlannedAt service p (map, m) o := by
  have hskip : ∀ (keys : List String) (acc : InternalBasicMap × ComponentMapManager),
      (∀ k ∈ keys, p.1 ∉ listed acc.1 k) →
        keys.foldl (b.mergePlannedAt service p) acc = acc := by
    intro keys acc hkeys
    induction keys with
    | nil => rfl
    | cons k keys ih =>
        rw [List.foldl_cons, mergePlannedAt_of_not_listed (hkeys k List.mem_cons_self)]
        exact ih fun k' hk' => hkeys k' (List.mem_cons_of_mem _ hk')
  cases ho : owner p.1 with
  | none =>
      refine hskip _ _ fun k _ hk => ?_
      rw [(h.mem k p.1).mp hk] at ho
      cases ho
  | some o =>
      have hlisted := (h.mem o p.1).mpr ho
      have hother : ∀ k, k ≠ o → p.1 ∉ listed map k := fun k hk hin => by
        rw [(h.mem k p.1).mp hin] at ho
        exact hk (Option.some.inj ho)
      obtain ⟨before, after, hkeys⟩ :=
        List.append_of_mem (TreeMap.mem_keys.mpr (mem_of_listed hlisted))
      have hnodup := map.nodup_keys
      rw [hkeys, List.nodup_append] at hnodup
      obtain ⟨-, hafter, hbefore⟩ := hnodup
      rw [hkeys, List.foldl_append, List.foldl_cons, hskip before (map, m) fun k hk =>
        hother k (hbefore k hk o List.mem_cons_self)]
      refine hskip after _ fun k hk => ?_
      have hko : k ≠ o := fun heq => (List.nodup_cons.mp hafter).1 (heq ▸ hk)
      rw [mergePlannedAt_of_listed hlisted]
      by_cases hretired : b.Retired o
      · simpa [hretired] using hother k hko
      · simpa [hretired, hko.symm] using hother k hko

def keptPlans (b : ComponentBalancer) (service : String) (owner : Int → Option String)
    (es : Transfers) : Transfers :=
  es.filter fun p => ¬ b.Withdrawn service owner p

def withdrawnPlans (b : ComponentBalancer) (service : String) (owner : Int → Option String)
    (es : Transfers) : Transfers :=
  es.filter (b.Withdrawn service owner)

/-- The owners of the components that can be planned when some are planned already. -/
def unplanned (owner : Int → Option String) (kept : Transfers) (c : Int) : Option String :=
  if c ∈ kept.map (·.1) then none else owner c

/-- What `merge_planned_into_internal_basic_map` makes of the map and of the global planned map. -/
structure PlannedMerged (b : ComponentBalancer) (service : String) (owner : Int → Option String)
    (es : Transfers) (map : InternalBasicMap) (m : ComponentMapManager)
    (r : InternalBasicMap × ComponentMapManager) : Prop where
  lists : ListsOwners r.1 (unplanned owner (b.keptPlans service owner es))
  counts : ∀ id, counted r.1 id + (listed map id).length =
    counted map id + (listed r.1 id).length + (b.keptPlans service owner es).countP
      fun p => (owner p.1).isSome ∧ p.2.serviceId = id
  total : totalCount r.1 = totalCount map
  mem : ∀ id ∈ r.1, id ∈ map ∨ ∃ p ∈ es, p.2.serviceId = id
  keeps : ∀ id ∈ map, id ∈ r.1
  changed : m.PlanChanged r.2
  planned : ∀ s, r.2.plannedFor s =
    if service = s then (m.plannedFor service).filter fun q =>
      q.1 ∉ (b.withdrawnPlans service owner es).map (·.1)
    else m.plannedFor s

theorem withdrawn_congr {owner owner' : Int → Option String} (h : owner' p.1 = owner p.1) :
    b.Withdrawn service owner' p ↔ b.Withdrawn service owner p := by
  rw [Withdrawn, Withdrawn, h]

theorem PlannedMerged.nil (h : ListsOwners map owner) (m : ComponentMapManager) :
    PlannedMerged b service owner [] map m (map, m) where
  lists := h
  counts id := by simp [keptPlans]
  total := rfl
  mem id hid := .inl hid
  keeps id hid := hid
  changed := .refl m
  planned s := by
    by_cases hs : service = s
    · simp [hs, withdrawnPlans]
    · simp [hs]

/-- The plan for one component is kept or withdrawn. -/
theorem plannedMerged_entry (h : ListsOwners map owner)
    (hnodup : ((m.plannedFor service).map (·.1)).Nodup) :
    PlannedMerged b service owner [p] map m (b.mergePlannedEntry service (map, m) p) := by
  have hlists : ∀ es : Transfers, (∀ q ∈ es, owner q.1 = none) →
      unplanned owner es = owner := fun es hes => by
    funext c
    unfold unplanned
    by_cases hc : c ∈ es.map (·.1)
    · obtain ⟨q, hq, rfl⟩ := List.mem_map.mp hc
      rw [if_pos hc, hes q hq]
    · rw [if_neg hc]
  have hremoved : ∀ s, (m.removeEntryFromGlobalPlannedMap service p.1).2.plannedFor s =
      if service = s then (m.plannedFor service).filter
        (fun q => q.1 ∉ [p].map (·.1)) else m.plannedFor s := fun s => by
    rw [ComponentMapManager.plannedFor_remove hnodup]
    simp
  unfold mergePlannedEntry
  by_cases hunhealthy : p.2.serviceId ∈ b.unhealthyServices service
  · have hwithdrawn : b.Withdrawn service owner p := .inl hunhealthy
    rw [unhealthyServices] at hunhealthy
    rw [if_pos hunhealthy]
    exact
      { lists := by simpa [keptPlans, hwithdrawn, hlists] using h
        counts := fun id => by simp [keptPlans, hwithdrawn]
        total := rfl
        mem := fun id hid => .inl hid
        keeps := fun id hid => hid
        changed := .remove m service p.1
        planned := by simpa [withdrawnPlans, hwithdrawn] using hremoved }
  have hhealthy : p.2.serviceId ∉ b.unhealthyNodeList.map (getServiceId · service) := hunhealthy
  rw [if_neg hhealthy, foldl_mergePlannedAt h]
  cases ho : owner p.1 with
  | none =>
      have hkept : ¬ b.Withdrawn service owner p := by
        rintro (hin | ⟨o, hin, -⟩)
        · exact hunhealthy hin
        · rw [ho] at hin
          cases hin
      exact
        { lists := by simpa [keptPlans, hkept, hlists, ho] using h
          counts := fun id => by simp [keptPlans, hkept, ho]
          total := rfl
          mem := fun id hid => .inl hid
          keeps := fun id hid => hid
          changed := .refl m
          planned := by simp [withdrawnPlans, hkept] }
  | some o =>
      have hlisted := (h.mem o p.1).mpr ho
      change PlannedMerged b service owner [p] map m (b.mergePlannedAt service p (map, m) o)
      rw [mergePlannedAt_of_listed hlisted]
      by_cases hretired : b.Retired o
      · have hwithdrawn : b.Withdrawn service owner p := .inr ⟨o, ho, hretired⟩
        rw [if_pos hretired]
        exact
          { lists := by
              have hkept : b.keptPlans service owner [p] = [] := by simp [keptPlans, hwithdrawn]
              rw [hkept, hlists [] (fun q hq => nomatch hq)]
              exact ⟨fun id => by simpa using h.nodup id, fun id c => by simpa using h.mem id c⟩
            counts := fun id => by simp [keptPlans, hwithdrawn]
            total := totalCount_addService map _
            mem := fun id hid => ((mem_addService map _ id).mp hid).elim
              (fun heq => .inr ⟨p, List.mem_cons_self, heq⟩) .inl
            keeps := fun id hid => (mem_addService map _ id).mpr (.inr hid)
            changed := .remove m service p.1
            planned := by simpa [withdrawnPlans, hwithdrawn] using hremoved }
      · have hkept : ¬ b.Withdrawn service owner p := by
          rintro (hin | ⟨o', hin, hretired'⟩)
          · exact hunhealthy hin
          · obtain rfl := Option.some.inj (ho.symm.trans hin)
            exact hretired hretired'
        have hplans : b.keptPlans service owner [p] = [p] := by simp [keptPlans, hkept]
        rw [if_neg hretired]
        exact
          { lists := by
              rw [hplans]
              refine ⟨fun id => ?_, fun id c => ?_⟩
              · by_cases hid : o = id
                · simpa [hid] using (h.nodup id).erase p.1
                · simpa [hid] using h.nodup id
              · rw [listed_moveCount, unplanned]
                by_cases hc : c = p.1
                · subst hc
                  by_cases hid : o = id
                  · simp [hid, (h.nodup id).mem_erase_iff]
                  · simp [hid, h.mem, ho]
                · by_cases hid : o = id
                  · simp [hid, (h.nodup id).mem_erase_iff, hc, h.mem]
                  · simp [hid, hc, h.mem]
            counts := fun id => by
              have hpos := List.length_pos_of_mem hlisted
              rw [hplans, counted_moveCount, listed_moveCount]
              by_cases hid : o = id
              · subst hid
                by_cases hd : p.2.serviceId = o
                · simp [ho, hd, List.length_erase_of_mem hlisted]
                  omega
                · simp [ho, hd, List.length_erase_of_mem hlisted]
                  omega
              · by_cases hd : p.2.serviceId = id
                · simp [ho, hd, hid]
                  omega
                · simp [ho, hd, hid]
            total := totalCount_moveCount map _ _ _
            mem := fun id hid => by
              rcases (mem_moveCount map _ _ _ id).mp hid with heq | heq | hin
              · exact .inl (heq ▸ mem_of_listed hlisted)
              · exact .inr ⟨p, List.mem_cons_self, heq⟩
              · exact .inl hin
            keeps := fun id hid => (mem_moveCount map _ _ _ id).mpr (.inr (.inr hid))
            changed := .refl m
            planned := by simp [withdrawnPlans, hkept] }

theorem unplanned_of_ne {kept : Transfers} {c : Int} (h : c ∉ kept.map (·.1)) :
    unplanned owner kept c = owner c := if_neg h

theorem PlannedMerged.cons {es : Transfers} {r₁ r : InternalBasicMap × ComponentMapManager}
    (hp : p.1 ∉ es.map (·.1)) (h₁ : PlannedMerged b service owner [p] map m r₁)
    (h : PlannedMerged b service (unplanned owner (b.keptPlans service owner [p])) es r₁.1 r₁.2 r) :
    PlannedMerged b service owner (p :: es) map m r := by
  let owner₁ := unplanned owner (b.keptPlans service owner [p])
  have hsame : ∀ q ∈ es, owner₁ q.1 = owner q.1 := fun q hq => unplanned_of_ne fun hin => by
    obtain ⟨q', hq', heq⟩ := List.mem_map.mp hin
    obtain rfl := List.mem_singleton.mp (List.mem_filter.mp hq').1
    exact hp (List.mem_map.mpr ⟨q, hq, heq.symm⟩)
  have hwithdrawn : ∀ q ∈ es, (b.Withdrawn service owner₁ q ↔ b.Withdrawn service owner q) :=
    fun q hq => withdrawn_congr (hsame q hq)
  have hkept : b.keptPlans service owner₁ es = b.keptPlans service owner es :=
    List.filter_congr fun q hq => by simp [hwithdrawn q hq]
  have hgone : b.withdrawnPlans service owner₁ es = b.withdrawnPlans service owner es :=
    List.filter_congr fun q hq => by simp [hwithdrawn q hq]
  have hkeptCons : b.keptPlans service owner (p :: es) =
      b.keptPlans service owner [p] ++ b.keptPlans service owner es :=
    List.filter_append [p] es
  have hgoneCons : b.withdrawnPlans service owner (p :: es) =
      b.withdrawnPlans service owner [p] ++ b.withdrawnPlans service owner es :=
    List.filter_append [p] es
  exact
    { lists := by
        have howner : unplanned owner₁ (b.keptPlans service owner₁ es) =
            unplanned owner (b.keptPlans service owner (p :: es)) := by
          funext c
          rw [hkept, hkeptCons]
          by_cases hc : c ∈ (b.keptPlans service owner es).map (·.1)
          · simp only [unplanned, List.map_append, List.mem_append, hc, or_true, if_true]
          · simp only [owner₁, unplanned, List.map_append, List.mem_append, hc, or_false, if_false]
        rw [← howner]
        exact h.lists
      counts := fun id => by
        have hcount : (b.keptPlans service owner es).countP
            (fun q => (owner₁ q.1).isSome ∧ q.2.serviceId = id) =
            (b.keptPlans service owner es).countP
              fun q => (owner q.1).isSome ∧ q.2.serviceId = id :=
          List.countP_congr fun q hq => by rw [hsame q (List.mem_filter.mp hq).1]
        have hfirst := h₁.counts id
        have hrest := h.counts id
        rw [hkept, hcount] at hrest
        rw [hkeptCons, List.countP_append]
        omega
      total := h.total.trans h₁.total
      mem := fun id hid => by
        rcases h.mem id hid with hid | ⟨q, hq, heq⟩
        · rcases h₁.mem id hid with hid | ⟨q, hq, heq⟩
          · exact .inl hid
          · exact .inr ⟨q, List.mem_cons.mpr (.inl (List.mem_singleton.mp hq)), heq⟩
        · exact .inr ⟨q, List.mem_cons_of_mem p hq, heq⟩
      keeps := fun id hid => h.keeps id (h₁.keeps id hid)
      changed := h₁.changed.trans h.changed
      planned := fun s => by
        rw [h.planned, h₁.planned, h₁.planned, if_pos rfl, hgone, hgoneCons]
        by_cases hs : service = s
        · rw [if_pos hs, if_pos hs, List.filter_filter]
          refine List.filter_congr fun q _ => ?_
          simp only [List.map_append, List.mem_append, not_or, Bool.decide_and]
          exact Bool.and_comm _ _
        · rw [if_neg hs, if_neg hs, if_neg hs] }

/-- `merge_planned_into_internal_basic_map`, when each component is planned once. -/
theorem plannedMerged (h : ListsOwners map owner) {es : Transfers} (hes : (es.map (·.1)).Nodup)
    (hnodup : ((m.plannedFor service).map (·.1)).Nodup) :
    PlannedMerged b service owner es map m
      (b.mergePlannedIntoInternalBasicMap service es map m) := by
  induction es generalizing map owner m with
  | nil => exact .nil h m
  | cons p es ih =>
      rw [List.map_cons, List.nodup_cons] at hes
      have hfirst := plannedMerged_entry (b := b) (p := p) h hnodup
      refine hfirst.cons hes.1 (ih hfirst.lists hes.2 ?_)
      rw [hfirst.planned, if_pos rfl]
      exact hnodup.sublist (List.filter_sublist.map _)

/-- A component is listed at one service at most, each service counts at least what it lists, and
the counts make up the number of components. -/
structure Bookkept (map : InternalBasicMap) (total : Int) : Prop where
  nodup : ∀ id, (listed map id).Nodup
  once : ∀ c id id', c ∈ listed map id → c ∈ listed map id' → id = id'
  counts : ∀ id, ((listed map id).length : Int) ≤ counted map id
  total : totalCount map = total

theorem ListsOwners.once (h : ListsOwners map owner) (c : Int) (id id' : String)
    (hid : c ∈ listed map id) (hid' : c ∈ listed map id') : id = id' := by
  rw [h.mem] at hid hid'
  exact Option.some.inj (hid.symm.trans hid')

theorem Prepared.bookkept {total : Int} (h : Prepared map owner total) : Bookkept map total where
  nodup := h.lists.nodup
  once := h.lists.once
  counts id := (h.counts id).ge
  total := h.total

/-- A kept plan stays counted, at its destination, when its component leaves the list. -/
theorem PlannedMerged.bookkept {es : Transfers} {r : InternalBasicMap × ComponentMapManager}
    {total : Int} (h : PlannedMerged b service owner es map m r) (hmap : Prepared map owner total) :
    Bookkept r.1 total where
  nodup := h.lists.nodup
  once := h.lists.once
  counts id := by
    have hcount := h.counts id
    have hbefore := hmap.counts id
    omega
  total := h.total.trans hmap.total

/-- The three passes that make the internal basic map of a service keep its books. -/
theorem internalBasicMap_bookkept (b : ComponentBalancer) (m m' : ComponentMapManager)
    (service : String) (es : Transfers)
    (hrange : InRange (m.componentCount service) (m.transfersFor service))
    (hes : (es.map (·.1)).Nodup) (hplanned : ((m'.plannedFor service).map (·.1)).Nodup) :
    let prepared := prepareInternalBasicMap m service
    let transferred := mergeTransientIntoInternalBasicMap m service prepared
    Bookkept prepared (m.componentCount service) ∧
      Bookkept transferred (m.componentCount service) ∧
      Bookkept (b.mergePlannedIntoInternalBasicMap service es transferred m').1
        (m.componentCount service) := by
  intro prepared transferred
  have htransferred : Prepared transferred (m.ownerId service) (m.componentCount service) :=
    prepared_merged hrange
  have hmerged := plannedMerged (b := b) htransferred.lists hes hplanned
  exact ⟨(prepared_prepare m service).bookkept, htransferred.bookkept,
    hmerged.bookkept htransferred⟩

def twoHealthyNodes : ComponentBalancer where
  healthyNodeList := ["node1", "node2"]
  unhealthyNodeList := []
  recoveredNodeList := []
  listOfServicesForAddition := []
  listOfServicesForDeletion := []
  listOfServicesForRecovery := []
  nodeInfoFileRecords := []
  nodeRecoveryDestMap := ∅
  totalNoOfComponents := 2

/-- One component has been transferred to the other owner, and the second is planned. -/
def oneMoreTransfer : ComponentMapManager :=
  { ComponentMapManager.withTransfers [(0, ComponentMapManager.otherOwner)] with
    plannedMap := .ofList [(containerService, [((1 : Int), ComponentMapManager.otherOwner)])] }

theorem internalBasicMap_bookkept_transfers :
    Bookkept (twoHealthyNodes.mergePlannedIntoInternalBasicMap containerService
        (oneMoreTransfer.plannedFor containerService)
        (mergeTransientIntoInternalBasicMap oneMoreTransfer containerService
          (prepareInternalBasicMap oneMoreTransfer containerService)) oneMoreTransfer).1
      (oneMoreTransfer.componentCount containerService) :=
  (internalBasicMap_bookkept twoHealthyNodes oneMoreTransfer oneMoreTransfer containerService
    (oneMoreTransfer.plannedFor containerService) (by decide +kernel) (by decide +kernel)
    (by decide +kernel)).2.2

end

end ComponentBalancer

end ObjectStorage.Osm
