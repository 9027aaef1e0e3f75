import ObjectStorage.Osm.InternalMap

/-!
The loops of `transfer_components` hand out the components of the sources as the greedy allocation
does: each source gives what it has too much of, each destination takes what it has room for.
-/

namespace ObjectStorage.Osm

open Std Library

/-- What a source gives away, if it has as many components listed. -/
def Share.surplus (s : Share) : Nat := (s.current - s.expected).toNat

def Share.room (d : Share) : Nat := (d.expected - d.current).toNat

namespace ComponentBalancer

def rooms (destinations : List Share) : List (String × Nat) :=
  destinations.map fun d => (d.serviceId, d.room)

/-- The plan of a component, once its destination is known. -/
def plannedAt (records : List NodeInfoFileRecord) (e : Int × String) : Int × ComponentInfoRecord :=
  (e.1, getServiceInfo records e.2)

section

variable {source destination : Share} {list : List Int}

theorem transferWhile_eq (hs : source.expected ≤ source.current)
    (hd : destination.current ≤ destination.expected) (list : List Int) :
    transferWhile source destination list =
      (list.take (min source.surplus destination.room),
        list.drop (min source.surplus destination.room),
        { source with
          current := source.current - min (min source.surplus destination.room) list.length },
        { destination with
          current := destination.current +
            min (min source.surplus destination.room) list.length }) := by
  induction list generalizing source destination with
  | nil => simp [transferWhile]
  | cons c list ih =>
      unfold transferWhile
      by_cases hboth : source.current ≠ source.expected ∧ destination.current ≠ destination.expected
      · rw [if_pos hboth, ih (by simp only; omega) (by simp only; omega)]
        have hk : min source.surplus destination.room =
            min ({ source with current := source.current - 1 } : Share).surplus
              ({ destination with current := destination.current + 1 } : Share).room + 1 := by
          simp only [Share.surplus, Share.room]
          omega
        rw [hk]
        simp only [List.take_succ_cons, List.drop_succ_cons, List.length_cons]
        refine Prod.ext rfl (Prod.ext rfl (Prod.ext ?_ ?_))
        · simp only [Share.mk.injEq, and_true, true_and]
          omega
        · simp only [Share.mk.injEq, and_true, true_and]
          omega
      · rw [if_neg hboth]
        have hk : min source.surplus destination.room = 0 := by
          simp only [Share.surplus, Share.room]
          omega
        simp [hk]

/-- What the loop over the destinations of one source makes of the list and of the destinations. -/
structure TransferredFrom (records : List NodeInfoFileRecord) (source : Share) (list : List Int)
    (destinations : List Share) (r : Transfers × List Int × List Share) : Prop where
  moved : r.1 = (fill (list.take source.surplus) (rooms destinations)).moved.map
    (plannedAt records)
  left : r.2.1 = list.drop r.1.length
  rooms : ComponentBalancer.rooms r.2.2 =
    (fill (list.take source.surplus) (ComponentBalancer.rooms destinations)).rooms
  within : ∀ d ∈ r.2.2, d.current ≤ d.expected

theorem transferredFrom (records : List NodeInfoFileRecord)
    (hs : source.expected ≤ source.current) (list : List Int) {destinations : List Share}
    (hd : ∀ d ∈ destinations, d.current ≤ d.expected) :
    TransferredFrom records source list destinations
      (transferFrom records source list destinations) := by
  induction destinations generalizing source list with
  | nil => exact ⟨rfl, rfl, rfl, hd⟩
  | cons d ds ih =>
      have hds : ∀ d ∈ ds, d.current ≤ d.expected :=
        fun d' hd' => hd d' (List.mem_cons_of_mem d hd')
      have hroom := hd d List.mem_cons_self
      unfold transferFrom
      by_cases hsource : source.current = source.expected
      · have hsurplus : source.surplus = 0 := by simp [Share.surplus, hsource]
        rw [if_pos hsource]
        exact ⟨by simp [hsurplus], by simp, by simp [hsurplus], hd⟩
      rw [if_neg hsource]
      by_cases hfull : d.current = d.expected
      · have hzero : d.room = 0 := by simp [Share.room, hfull]
        have hrest := ih hs list hds
        rw [if_pos hfull]
        refine ⟨?_, hrest.left, ?_, ?_⟩
        · simpa [rooms, fill, hzero] using hrest.moved
        · simpa [rooms, fill, hzero] using hrest.rooms
        · exact fun d' hd' => (List.mem_cons.mp hd').elim (fun heq => heq ▸ hroom) (hrest.within d')
      · rw [if_neg hfull, transferWhile_eq hs hroom]
        -- the items that are left for the other destinations
        let k := min source.surplus d.room
        have hk : k ≤ source.surplus ∧ k ≤ d.room := ⟨Nat.min_le_left _ _, Nat.min_le_right _ _⟩
        let source' : Share := { source with current := source.current - min k list.length }
        have hs' : source'.expected ≤ source'.current := by
          simp only [source', k, Share.surplus]
          omega
        have hsurplus : source'.surplus = source.surplus - min k list.length := by
          simp only [source', Share.surplus]
          omega
        have htake : (list.take source.surplus).take d.room = list.take k := by
          rw [List.take_take, Nat.min_comm]
        have hitems : (list.drop k).take source'.surplus =
            (list.take source.surplus).drop d.room := by
          rw [hsurplus, List.drop_take]
          by_cases hlong : k ≤ list.length
          · rw [Nat.min_eq_left hlong]
            rcases Nat.le_total d.room source.surplus with hle | hle
            · have hkr : k = d.room := Nat.min_eq_right hle
              rw [hkr]
            · have hks : k = source.surplus := Nat.min_eq_left hle
              rw [hks, Nat.sub_self, List.take_zero, Nat.sub_eq_zero_of_le hle, List.take_zero]
          · have hdrop : list.drop k = [] := List.drop_of_length_le (by omega)
            have hdrop' : list.drop d.room = [] := List.drop_of_length_le (by omega)
            rw [hdrop, hdrop', List.take_nil, List.take_nil]
        have hrest := ih hs' (list.drop k) hds
        refine ⟨?_, ?_, ?_, ?_⟩
        · have hmoved := hrest.moved
          rw [hitems] at hmoved
          simp only [rooms, List.map_cons, fill, List.map_append, List.map_map, htake]
          exact congrArg _ hmoved
        · have hlength : ∀ n, list.drop (k + n) = list.drop (min k list.length + n) := fun n => by
            rcases Nat.le_total k list.length with hle | hle
            · rw [Nat.min_eq_left hle]
            · rw [List.drop_of_length_le (by omega), List.drop_of_length_le (by omega)]
          simp only [List.length_append, List.length_map, List.length_take]
          rw [hrest.left, List.drop_drop]
          exact hlength _
        · have hrooms := hrest.rooms
          rw [hitems] at hrooms
          simp only [rooms, List.map_cons, fill]
          refine List.cons_eq_cons.mpr ⟨?_, hrooms⟩
          simp only [Share.room, Prod.mk.injEq, true_and, List.length_take]
          simp only [Share.surplus]
          omega
        · intro d' hd'
          rcases List.mem_cons.mp hd' with rfl | hd'
          · simp only [Share.room]
            omega
          · exact hrest.within d' hd'

/-- What each source gives away: the first of its components. -/
def sourceItems (map : InternalBasicMap) (sources : List Share) : List (String × List Int) :=
  sources.map fun s => (s.serviceId, (listed map s.serviceId).take s.surplus)

/-- The components that move, each with its destination. -/
def moves (map : InternalBasicMap) (sources destinations : List Share) : List (Int × String) :=
  (fillAll (sourceItems map sources) (rooms destinations)).1.flatMap (·.2)

theorem listed_insert_of_ne (map : InternalBasicMap) {k id : String} (h : k ≠ id)
    (v : List Int × Int) : listed (map.insert k v) id = listed map id := by
  simp [listed, h]

theorem sourceItems_insert (map : InternalBasicMap) {sources : List Share} {k : String}
    (h : k ∉ sources.map (·.serviceId)) (v : List Int × Int) :
    sourceItems (map.insert k v) sources = sourceItems map sources := by
  refine List.map_congr_left fun s hs => ?_
  have hne : k ≠ s.serviceId := by
    rintro rfl
    exact h (List.mem_map.mpr ⟨s, hs, rfl⟩)
  rw [listed_insert_of_ne map hne v]

/-- `transfer_components` plans the greedy allocation of what the sources give away. -/
theorem transferAll_eq (records : List NodeInfoFileRecord) (service : String)
    {sources destinations : List Share} {map : InternalBasicMap}
    (hsources : ∀ s ∈ sources, s.serviceId ∈ map ∧ s.expected ≤ s.current)
    (hdistinct : (sources.map (·.serviceId)).Nodup)
    (hdestinations : ∀ d ∈ destinations, d.current ≤ d.expected)
    (plan : InternalPlannedMap) (m : ComponentMapManager) :
    (transferAll records service sources destinations map (plan, m)).2 =
        ((moves map sources destinations).map (plannedAt records)).foldl (addPlanned service) m ∧
      ((transferAll records service sources destinations map (plan, m)).1.isEmpty = true ↔
        plan.isEmpty = true ∧ moves map sources destinations = []) := by
  induction sources generalizing destinations map plan m with
  | nil => simp [transferAll, moves, sourceItems, fillAll]
  | cons source sources ih =>
      rw [List.map_cons, List.nodup_cons] at hdistinct
      have hrest : ∀ s ∈ sources, s.serviceId ∈ map ∧ s.expected ≤ s.current := fun s hs =>
        hsources s (List.mem_cons_of_mem source hs)
      obtain ⟨hin, hsource⟩ := hsources source List.mem_cons_self
      obtain ⟨⟨list, count⟩, hget⟩ := (mem_iff_exists_getElem? map source.serviceId).mp hin
      have hlisted : listed map source.serviceId = list := by simp [listed, hget]
      have hmoves : ∀ rest, moves map (source :: sources) rest =
          (fill (list.take source.surplus) (rooms rest)).moved ++
            (fillAll (sourceItems map sources)
              (fill (list.take source.surplus) (rooms rest)).rooms).1.flatMap (·.2) := by
        intro rest
        simp only [moves, sourceItems, List.map_cons, fillAll, List.flatMap_cons, hlisted]
      unfold transferAll
      simp only [hget]
      by_cases hskip : list = [] ∨ source.current = source.expected
      · have hitems : list.take source.surplus = [] := by
          rcases hskip with rfl | heq
          · exact List.take_nil
          · simp [Share.surplus, heq]
        rw [if_pos hskip, hmoves, hitems, fill_nil, List.nil_append]
        exact ih hrest hdistinct.2 hdestinations plan m
      · rw [if_neg hskip]
        have hfrom := transferredFrom records hsource list hdestinations
        generalize transferFrom records source list destinations = r at hfrom
        obtain ⟨moved, left, destinations'⟩ := r
        have hmap : ∀ s ∈ sources, s.serviceId ∈ map.insert source.serviceId
            (left, count - moved.length) ∧ s.expected ≤ s.current := fun s hs =>
          ⟨by simp [TreeMap.mem_insert, (hrest s hs).1], (hrest s hs).2⟩
        have hmoved := hfrom.moved
        have hrooms := hfrom.rooms
        simp only at hmoved hrooms ⊢
        have hnext := ih hmap hdistinct.2 hfrom.within
          (if moved = [] then plan
            else plan.insert source.serviceId (plan[source.serviceId]?.getD [] ++ moved))
          (moved.foldl (addPlanned service) m)
        rw [moves, sourceItems_insert map hdistinct.1, hrooms] at hnext
        rw [hmoves, hnext.1, hnext.2, hmoved, List.map_append, List.foldl_append,
          List.append_eq_nil_iff]
        refine ⟨rfl, ?_⟩
        by_cases hnone : (fill (list.take source.surplus) (rooms destinations)).moved = []
        · simp [hnone]
        · simp [hnone]

end

end ComponentBalancer

end ObjectStorage.Osm
