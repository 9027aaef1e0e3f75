import ObjectStorage.Library.CheckedVector
import ObjectStorage.Osm.StateChange

/-!
The loops of `remove_from_planned_map` over the planned and the moved components of a recovery
record. Both vectors are changed while iterators go through them.
-/

namespace ObjectStorage.Osm

open Library

/-- The heads of the two loops, and the end of the body of the outer one. -/
inductive RemovalPhase where
  | outer | inner | increment | done
deriving DecidableEq

/-- The local variables of `remove_from_planned_map`. -/
structure RemovalLoop where
  plannedMap : CheckedVector (Int × ComponentInfoRecord)
  movedComponents : CheckedVector (Int × ComponentInfoRecord)
  it1 : VectorIterator
  it2 : VectorIterator
  incrementVec : Bool
  phase : RemovalPhase
deriving DecidableEq

namespace RemovalLoop

def start (planned moved : Transfers) : RemovalLoop :=
  let plannedMap := ⟨planned, 0⟩
  let movedComponents := ⟨moved, 0⟩
  ⟨plannedMap, movedComponents, plannedMap.first, movedComponents.first, true, .outer⟩

/-- From one loop head to the next one. A use of an iterator that is outdated or at the end is
undefined. -/
def step (s : RemovalLoop) : Option RemovalLoop :=
  match s.phase with
  | .outer => (s.plannedMap.atEnd? s.it1).map fun atEnd =>
      if atEnd then { s with phase := .done }
      else { s with it2 := s.movedComponents.first, phase := .inner }
  | .inner => (s.movedComponents.atEnd? s.it2).bind fun atEnd =>
      if atEnd then some { s with phase := .increment }
      else (s.plannedMap.get? s.it1).bind fun planned =>
        (s.movedComponents.get? s.it2).bind fun moved =>
          if planned = moved then
            (s.plannedMap.erase? s.it1).bind fun (plannedMap, it1) =>
              (s.movedComponents.erase? s.it2).map fun (movedComponents, it2) =>
                ⟨plannedMap, movedComponents, it1, it2, false, .increment⟩
          else (s.movedComponents.next? s.it2).map fun it2 => { s with it2 := it2 }
  | .increment =>
      if s.incrementVec then
        (s.plannedMap.next? s.it1).map fun it1 => { s with it1 := it1, phase := .outer }
      else some { s with incrementVec := true, phase := .outer }
  | .done => some s

/-- The state after this many steps. -/
def steps : Nat → RemovalLoop → Option RemovalLoop
  | 0, s => some s
  | n + 1, s => s.step.bind (steps n)

theorem steps_add (m n : Nat) (s : RemovalLoop) :
    steps (m + n) s = (steps m s).bind (steps n) := by
  induction m generalizing s with
  | zero => simp [steps]
  | succ m ih =>
      rw [Nat.succ_add, steps, steps, Option.bind_assoc]
      congr 1
      funext s'
      exact ih s'

/-- The loops come from one state to the other. -/
def Reaches (s t : RemovalLoop) : Prop := ∃ n, steps n s = some t

variable {s t u : RemovalLoop} {planned moved seen : Transfers} {p : Int × ComponentInfoRecord}

theorem Reaches.trans (h : Reaches s t) (h' : Reaches t u) : Reaches s u := by
  obtain ⟨m, hm⟩ := h
  obtain ⟨n, hn⟩ := h'
  exact ⟨m + n, by rw [steps_add, hm]; exact hn⟩

theorem Reaches.of_step (h : s.step = some t) : Reaches s t := ⟨1, by simp [steps, h]⟩

/-- At a head of the outer loop: which planned components have been looked at and stay, which are
still ahead, and which moved components are left. -/
structure AtOuter (s : RemovalLoop) (kept planned moved : Transfers) : Prop where
  planned : s.plannedMap.Splits s.it1 kept planned
  moved : s.movedComponents.items = moved
  incrementVec : s.incrementVec = true
  phase : s.phase = .outer

/-- At a head of the inner loop: the moved components in front of the iterator are others than the
planned one. -/
structure AtInner (s : RemovalLoop) (kept : Transfers) (p : Int × ComponentInfoRecord)
    (planned seen moved : Transfers) : Prop where
  planned : s.plannedMap.Splits s.it1 kept (p :: planned)
  moved : s.movedComponents.Splits s.it2 seen moved
  notMem : p ∉ seen
  incrementVec : s.incrementVec = true
  phase : s.phase = .inner

variable {kept : Transfers}

theorem AtOuter.enter (h : s.AtOuter kept (p :: planned) moved) :
    ∃ t, s.Reaches t ∧ t.AtInner kept p planned [] moved := by
  refine ⟨{ s with it2 := s.movedComponents.first, phase := .inner }, .of_step ?_, h.planned, ?_,
    List.not_mem_nil, h.incrementVec, rfl⟩
  · simp [step, h.phase, h.planned.atEnd]
  · exact h.moved ▸ CheckedVector.splits_first _

theorem AtInner.keep (h : s.AtInner kept p planned seen []) :
    ∃ t, s.Reaches t ∧ t.AtOuter (kept ++ [p]) planned seen := by
  obtain ⟨it1, hnext, hsplits⟩ := h.planned.next
  have hleave : s.step = some { s with phase := .increment } := by
    simp [step, h.phase, h.moved.atEnd]
  refine ⟨{ s with it1 := it1, phase := .outer }, (Reaches.of_step hleave).trans (.of_step ?_),
    hsplits, ?_, h.incrementVec, rfl⟩
  · simp [step, h.incrementVec, hnext]
  · rw [h.moved.items, List.append_nil]

theorem AtInner.remove (h : s.AtInner kept p planned seen (p :: moved)) :
    ∃ t, s.Reaches t ∧ t.AtOuter kept planned (seen ++ moved) := by
  obtain ⟨plannedMap, it1, herase, hsplits⟩ := h.planned.erase
  obtain ⟨movedComponents, it2, herase', hsplits'⟩ := h.moved.erase
  have hbreak : s.step = some ⟨plannedMap, movedComponents, it1, it2, false, .increment⟩ := by
    simp [step, h.phase, h.moved.atEnd, h.planned.get, h.moved.get, herase, herase']
  refine ⟨⟨plannedMap, movedComponents, it1, it2, true, .outer⟩,
    (Reaches.of_step hbreak).trans (.of_step ?_), hsplits, hsplits'.items, rfl, rfl⟩
  simp [step]

theorem AtInner.next {q : Int × ComponentInfoRecord}
    (h : s.AtInner kept p planned seen (q :: moved)) (hne : p ≠ q) :
    ∃ t, s.Reaches t ∧ t.AtInner kept p planned (seen ++ [q]) moved := by
  obtain ⟨it2, hnext, hsplits⟩ := h.moved.next
  refine ⟨{ s with it2 := it2 }, .of_step ?_, h.planned, hsplits, ?_, h.incrementVec, h.phase⟩
  · simp [step, h.phase, h.moved.atEnd, h.planned.get, h.moved.get, hne, hnext]
  · simp [h.notMem, hne]

/-- The inner loop takes the planned component and the first equal moved one away, if there is
one. -/
theorem AtInner.finish (h : s.AtInner kept p planned seen moved) :
    ∃ t, s.Reaches t ∧ if p ∈ moved then t.AtOuter kept planned (seen ++ moved.erase p)
      else t.AtOuter (kept ++ [p]) planned (seen ++ moved) := by
  induction moved generalizing s seen with
  | nil => simpa using h.keep
  | cons q moved ih =>
      by_cases hpq : p = q
      · subst hpq
        simpa using h.remove
      · obtain ⟨t, hreach, ht⟩ := h.next hpq
        obtain ⟨u, hreach', hu⟩ := ih ht
        refine ⟨u, hreach.trans hreach', ?_⟩
        have herase : (q :: moved).erase p = q :: moved.erase p := by
          simp [Ne.symm hpq]
        simpa [hpq, herase] using hu

/-- The outer loop ends with the planned components that `removeFromPlannedMap` leaves. -/
theorem AtOuter.finish (h : s.AtOuter kept planned moved) :
    ∃ t, s.Reaches t ∧ t.phase = .done ∧
      t.plannedMap.items = kept ++ removeFromPlannedMap planned moved := by
  induction planned generalizing s kept moved with
  | nil =>
      refine ⟨{ s with phase := .done }, .of_step ?_, rfl, h.planned.items⟩
      simp [step, h.phase, h.planned.atEnd]
  | cons p planned ih =>
      obtain ⟨t, henter, ht⟩ := h.enter
      obtain ⟨u, hinner, hu⟩ := ht.finish
      rw [removeFromPlannedMap]
      by_cases hp : p ∈ moved
      · rw [if_pos hp, List.nil_append] at hu
        obtain ⟨v, houter, hdone, hitems⟩ := ih hu
        exact ⟨v, henter.trans (hinner.trans houter), hdone, by rw [if_pos hp, hitems]⟩
      · rw [if_neg hp, List.nil_append] at hu
        obtain ⟨v, houter, hdone, hitems⟩ := ih hu
        exact ⟨v, henter.trans (hinner.trans houter), hdone, by simp [hp, hitems]⟩

theorem steps_done (h : s.phase = .done) (n : Nat) : steps n s = some s := by
  induction n with
  | zero => rfl
  | succ n ih => simp [steps, step, h, ih]

end RemovalLoop

theorem removeFromPlannedMap_eq_diff (planned moved : Transfers) :
    removeFromPlannedMap planned moved = planned.diff moved := by
  induction planned generalizing moved with
  | nil => simp [removeFromPlannedMap]
  | cons p planned ih => simp [removeFromPlannedMap, List.cons_diff, ih]

theorem count_removeFromPlannedMap (planned moved : Transfers) (c : Int × ComponentInfoRecord) :
    (removeFromPlannedMap planned moved).count c = planned.count c - moved.count c := by
  rw [removeFromPlannedMap_eq_diff]
  induction moved generalizing planned with
  | nil => simp
  | cons q moved ih =>
      rw [List.diff_cons, ih, List.count_erase, List.count_cons]
      by_cases hq : q = c <;> simp [hq]
      omega

theorem removeFromPlannedMap_sublist (planned moved : Transfers) :
    (removeFromPlannedMap planned moved).Sublist planned :=
  removeFromPlannedMap_eq_diff planned moved ▸ List.diff_sublist planned moved

/-- All planned components that were moved are gone exactly when none of them was planned more often
than it is reported. -/
theorem removeFromPlannedMap_eq_filter_iff (planned moved : Transfers) :
    removeFromPlannedMap planned moved = planned.filter (· ∉ moved) ↔
      ∀ c ∈ moved, planned.count c ≤ moved.count c := by
  constructor
  · intro h c hc
    have hcount := count_removeFromPlannedMap planned moved c
    rw [h, List.count_eq_zero.mpr (by simp [hc])] at hcount
    omega
  · intro h
    have hcount : ∀ c, (removeFromPlannedMap planned moved).count c =
        (planned.filter (· ∉ moved)).count c := by
      intro c
      rw [count_removeFromPlannedMap]
      by_cases hc : c ∈ moved
      · rw [List.count_eq_zero.mpr (by simp [hc] : c ∉ planned.filter (· ∉ moved))]
        exact Nat.sub_eq_zero_of_le (h c hc)
      · rw [List.count_eq_zero.mpr hc, List.count_filter (by simp [hc])]
        rfl
    have hkept : ∀ c ∈ removeFromPlannedMap planned moved, decide (c ∉ moved) = true := by
      intro c hc
      have hpos := List.count_pos_iff.mpr hc
      rw [hcount] at hpos
      exact (List.mem_filter.mp (List.count_pos_iff.mp hpos)).2
    have hsub := (removeFromPlannedMap_sublist planned moved).filter fun c => decide (c ∉ moved)
    rw [List.filter_eq_self.mpr hkept] at hsub
    exact hsub.eq_of_length (List.perm_iff_count.mpr hcount).length_eq

/-- The loops end without a use of an erased iterator and leave the planned components, in their
order, without the first one that is equal for every moved component. -/
theorem remove_from_planned_map_terminates (planned moved : Transfers) :
    ∃ n t, (∀ m ≥ n, RemovalLoop.steps m (.start planned moved) = some t) ∧ t.phase = .done ∧
      t.plannedMap.items = planned.diff moved ∧ t.plannedMap.items.Sublist planned ∧
      (∀ c, t.plannedMap.items.count c = planned.count c - moved.count c) ∧
      (t.plannedMap.items = planned.filter (· ∉ moved) ↔
        ∀ c ∈ moved, planned.count c ≤ moved.count c) := by
  have hstart : (RemovalLoop.start planned moved).AtOuter [] planned moved :=
    ⟨CheckedVector.splits_first _, rfl, rfl, rfl⟩
  obtain ⟨t, ⟨n, hn⟩, hdone, hitems⟩ := hstart.finish
  rw [List.nil_append] at hitems
  refine ⟨n, t, fun m hm => ?_, hdone, ?_, ?_, fun c => ?_, ?_⟩
  · obtain ⟨k, rfl⟩ := Nat.exists_eq_add_of_le hm
    rw [RemovalLoop.steps_add, hn, Option.bind_some, RemovalLoop.steps_done hdone]
  · exact hitems.trans (removeFromPlannedMap_eq_diff planned moved)
  · exact hitems ▸ removeFromPlannedMap_sublist planned moved
  · exact hitems ▸ count_removeFromPlannedMap planned moved c
  · exact hitems ▸ removeFromPlannedMap_eq_filter_iff planned moved

/-- A component that is planned twice and reported once stays planned. -/
theorem planned_twice_stays :
    let c : Int × ComponentInfoRecord := (7, ⟨"node1_container-server", "10.0.0.1", 61007⟩)
    ((RemovalLoop.steps 8 (.start [c, c] [c])).map fun t => (t.phase, t.plannedMap.items)) =
        some (.done, [c]) ∧
      [c, c].filter (· ∉ [c]) = [] := by
  decide

end ObjectStorage.Osm
