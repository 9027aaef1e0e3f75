import ObjectStorage.Osm.PlannedTransfers

/-!
Which entries of the planned map `update_transient_map` and `remove_entry_from_global_planned_map`
look at. A planned list that becomes empty is erased together with its key, but both functions go on
with the iterator that the key was found with, or not found with.
-/

namespace ObjectStorage.Osm

open Std Library

/-- An iterator without an entry behind it that is dereferenced. -/
inductive MissingEntry where
  | plannedEnd | plannedErased | transientEnd
deriving DecidableEq

namespace ComponentMapManager

/-- `remove_entry_from_global_planned_map` asks at the end whether the list it has found is empty,
also where it has found none. -/
def removeEntryChecked (m : ComponentMapManager) (service : String) (component : Int) :
    Except MissingEntry (Bool × ComponentMapManager) :=
  match m.plannedMap[service]? with
  | some _ => .ok (m.removeEntryFromGlobalPlannedMap service component)
  | none => .error .plannedEnd

/-- The loop body of `update_transient_map`. -/
def transferComponentChecked (service : String) (acc : ComponentMapManager × Transfers)
    (e : Int × ComponentInfoRecord) : Except MissingEntry (ComponentMapManager × Transfers) :=
  (acc.1.removeEntryChecked service e.1).map fun (status, m) =>
    if status then (m.pushTransferred service e, acc.2 ++ [e]) else (m, acc.2)

/-- The sizes that are logged behind the loop are those of the planned list found in front of it and
of the transient list. -/
def logSizes (m : ComponentMapManager) (service : String) : Except MissingEntry Unit :=
  if m.plannedMap[service]?.isNone then .error .plannedErased
  else if m.transientMap[service]?.isNone then .error .transientEnd
  else .ok ()

def updateTransientMapChecked (m : ComponentMapManager) (service : String)
    (transferred : Transfers) : Except MissingEntry ((Transfers × Bool) × ComponentMapManager) :=
  match m.plannedMap[service]? with
  | some _ =>
      (transferred.foldlM (transferComponentChecked service) (m, [])).bind fun (m, actual) =>
        let m := m.raiseVersions service
        (m.logSizes service).map fun _ =>
          ((actual, ! decide (actual.length < transferred.length)), m)
  | none => .ok (m.updateTransientMap service transferred)

variable {m : ComponentMapManager} {service : String}

/-! ### Where nothing is missing, the functions do what they do without the checks -/

theorem transferComponentChecked_ok {acc acc' : ComponentMapManager × Transfers}
    {e : Int × ComponentInfoRecord} (h : transferComponentChecked service acc e = .ok acc') :
    acc' = transferComponent service acc e := by
  unfold transferComponentChecked removeEntryChecked at h
  cases hp : acc.1.plannedMap[service]? with
  | none =>
      rw [hp] at h
      cases h
  | some entries =>
      rw [hp] at h
      exact (Except.ok.inj h).symm

theorem foldlM_transferComponentChecked_ok {transferred : Transfers}
    {acc acc' : ComponentMapManager × Transfers}
    (h : transferred.foldlM (transferComponentChecked service) acc = .ok acc') :
    acc' = transferred.foldl (transferComponent service) acc := by
  induction transferred generalizing acc with
  | nil => exact (Except.ok.inj h).symm
  | cons e transferred ih =>
      rw [List.foldlM_cons] at h
      cases hstep : transferComponentChecked service acc e with
      | error missing =>
          rw [hstep] at h
          cases h
      | ok acc₁ =>
          rw [hstep] at h
          rw [List.foldl_cons, ← transferComponentChecked_ok hstep]
          exact ih h

theorem updateTransientMapChecked_ok {transferred : Transfers}
    {result : (Transfers × Bool) × ComponentMapManager}
    (h : m.updateTransientMapChecked service transferred = .ok result) :
    result = m.updateTransientMap service transferred := by
  unfold updateTransientMapChecked at h
  unfold updateTransientMap
  cases hp : m.plannedMap[service]? with
  | none =>
      rw [hp] at h
      simpa [updateTransientMap, hp] using (Except.ok.inj h).symm
  | some entries =>
      rw [hp] at h
      cases hloop : transferred.foldlM (transferComponentChecked service) (m, []) with
      | error missing =>
          simp only [hloop] at h
          cases h
      | ok acc =>
          simp only [hloop, Except.bind] at h
          rw [← foldlM_transferComponentChecked_ok hloop]
          cases hlog : (acc.1.raiseVersions service).logSizes service with
          | error missing =>
              rw [hlog] at h
              cases h
          | ok u =>
              rw [hlog] at h
              exact (Except.ok.inj h).symm

/-! ### Which entries are missing -/

/-- Nothing is reported, or a component of the service stays planned. -/
def Leaves (m : ComponentMapManager) (service : String) (reported : Transfers) : Prop :=
  ∀ planned ∈ m.plannedMap[service]?,
    reported = [] ∨ (planned.map (·.1)).diff (reported.map (·.1)) ≠ []

@[simp] theorem plannedMap_pushTransferred (m : ComponentMapManager) (service : String)
    (e : Int × ComponentInfoRecord) : (m.pushTransferred service e).plannedMap = m.plannedMap := by
  unfold pushTransferred
  split <;> rfl

@[simp] theorem plannedMap_raiseVersions (m : ComponentMapManager) (service : String) :
    (m.raiseVersions service).plannedMap = m.plannedMap := by
  unfold raiseVersions
  split <;> rfl

theorem map_eraseP_number (planned : Transfers) (c : Int) :
    (planned.eraseP fun p => p.1 = c).map (·.1) = (planned.map (·.1)).erase c := by
  induction planned with
  | nil => rfl
  | cons p planned ih =>
      by_cases hp : p.1 = c
      · simp [hp]
      · simp [hp, ih]

/-- A planned list loses the reported component, and its key when it becomes empty. -/
theorem transferComponentChecked_spec {planned : Transfers}
    (hp : m.plannedMap[service]? = some planned) (actual : Transfers)
    (e : Int × ComponentInfoRecord) :
    ∃ acc, transferComponentChecked service (m, actual) e = .ok acc ∧
      acc.1.plannedMap[service]? = if planned.eraseP (fun p => p.1 = e.1) = [] then none
        else some (planned.eraseP fun p => p.1 = e.1) := by
  have hremove : (m.removeEntryFromGlobalPlannedMap service e.1).2.plannedMap[service]? =
      if planned.eraseP (fun p => p.1 = e.1) = [] then none
      else some (planned.eraseP fun p => p.1 = e.1) := by
    by_cases hempty : planned.eraseP (fun p => p.1 = e.1) = [] <;>
      simp [removeEntryFromGlobalPlannedMap, hp, hempty]
  refine ⟨transferComponent service (m, actual) e, ?_, ?_⟩
  · simp [transferComponentChecked, removeEntryChecked, hp, Except.map, transferComponent]
  · rw [← hremove]
    cases hstatus : (m.removeEntryFromGlobalPlannedMap service e.1).1 <;>
      simp [transferComponent, hstatus]

/-- The loop looks for a list that is gone as soon as a component is reported behind the one that
emptied the list. -/
theorem foldlM_transferComponentChecked (transferred : Transfers) {planned : Transfers}
    (hp : m.plannedMap[service]? = some planned) (actual : Transfers) :
    (¬ m.Leaves service transferred.dropLast →
      transferred.foldlM (transferComponentChecked service) (m, actual) = .error .plannedEnd) ∧
    (m.Leaves service transferred.dropLast →
      ∃ acc, transferred.foldlM (transferComponentChecked service) (m, actual) = .ok acc ∧
        (acc.1.plannedMap[service]?.isSome ↔ m.Leaves service transferred)) := by
  induction transferred generalizing m planned actual with
  | nil =>
      refine ⟨fun h => absurd (fun _ _ => .inl rfl) h, fun _ => ⟨(m, actual), rfl, ?_⟩⟩
      simp [hp, Leaves]
  | cons e transferred ih =>
      obtain ⟨acc, hstep, hacc⟩ := transferComponentChecked_spec hp actual e
      have hloop : (e :: transferred).foldlM (transferComponentChecked service) (m, actual) =
          transferred.foldlM (transferComponentChecked service) acc := by
        rw [List.foldlM_cons, hstep]
        rfl
      have hnumbers := map_eraseP_number planned e.1
      by_cases hempty : planned.eraseP (fun p => p.1 = e.1) = []
      · rw [if_pos hempty] at hacc
        rw [hempty, List.map_nil] at hnumbers
        have hgone : ∀ rs, ¬ m.Leaves service (e :: rs) := by
          intro rs h
          simpa [← hnumbers] using h planned hp
        cases transferred with
        | nil =>
            refine ⟨fun h => absurd (fun _ _ => .inl rfl) h, fun _ => ⟨acc, hloop, ?_⟩⟩
            simp [hacc, hgone []]
        | cons e' transferred =>
            refine ⟨fun _ => ?_, fun h => absurd h (hgone _)⟩
            rw [hloop, List.foldlM_cons]
            simp only [transferComponentChecked, removeEntryChecked, hacc]
            rfl
      · rw [if_neg hempty] at hacc
        have hleaves : ∀ rs, m.Leaves service (e :: rs) ↔ acc.1.Leaves service rs := by
          intro rs
          have hne : (planned.map (·.1)).erase e.1 ≠ [] := by
            rw [← hnumbers]
            simpa using hempty
          simp only [Leaves, hp, hacc, Option.mem_some_iff, forall_eq', hnumbers, List.map_cons,
            List.diff_cons, List.cons_ne_nil, false_or]
          refine ⟨.inr, fun h => ?_⟩
          rcases h with rfl | h
          · simpa using hne
          · exact h
        obtain ⟨hmissing, hok⟩ := ih (m := acc.1) hacc acc.2
        rw [hloop, hleaves]
        cases transferred with
        | nil =>
            refine ⟨fun h => absurd (fun _ _ => .inl rfl) h, fun _ => ⟨acc, rfl, ?_⟩⟩
            simp [hacc, Leaves]
        | cons e' transferred =>
            rw [List.dropLast_cons_cons, hleaves]
            exact ⟨hmissing, hok⟩

theorem Leaves.dropLast {transferred : Transfers} (h : m.Leaves service transferred) :
    m.Leaves service transferred.dropLast := by
  intro planned hp
  rcases h planned hp with rfl | hleft
  · exact .inl rfl
  · refine .inr fun hnil => ?_
    rcases List.eq_nil_or_concat' transferred with rfl | ⟨rs, e, rfl⟩
    · exact hleft hnil
    · rw [List.dropLast_concat] at hnil
      simp [hnil] at hleft

/-- The three ends of `update_transient_map`, by what is left of the planned list. -/
theorem updateTransientMapChecked_cases (m : ComponentMapManager) (service : String)
    (transferred : Transfers) :
    (m.Leaves service transferred ∧
      m.updateTransientMapChecked service transferred ≠ .error .plannedEnd ∧
      m.updateTransientMapChecked service transferred ≠ .error .plannedErased) ∨
    (m.Leaves service transferred.dropLast ∧ ¬ m.Leaves service transferred ∧
      m.updateTransientMapChecked service transferred = .error .plannedErased) ∨
    (¬ m.Leaves service transferred.dropLast ∧
      m.updateTransientMapChecked service transferred = .error .plannedEnd) := by
  cases hp : m.plannedMap[service]? with
  | none =>
      have hresult : m.updateTransientMapChecked service transferred =
          .ok (m.updateTransientMap service transferred) := by
        simp [updateTransientMapChecked, hp]
      exact .inl ⟨by simp [Leaves, hp], by simp [hresult], by simp [hresult]⟩
  | some planned =>
      obtain ⟨hmissing, hok⟩ := foldlM_transferComponentChecked transferred hp []
      by_cases hlast : m.Leaves service transferred.dropLast
      · obtain ⟨acc, hloop, hkey⟩ := hok hlast
        have hresult : m.updateTransientMapChecked service transferred =
            ((acc.1.raiseVersions service).logSizes service).map fun _ =>
              ((acc.2, ! decide (acc.2.length < transferred.length)),
                acc.1.raiseVersions service) := by
          simp only [updateTransientMapChecked, hp, hloop]
          rfl
        by_cases hleft : m.Leaves service transferred
        · obtain ⟨left, hkey⟩ := Option.isSome_iff_exists.mp (hkey.mpr hleft)
          refine .inl ⟨hleft, ?_⟩
          rw [hresult, logSizes, plannedMap_raiseVersions, hkey]
          cases (acc.1.raiseVersions service).transientMap[service]? <;> simp [Except.map]
        · have hgone : acc.1.plannedMap[service]?.isNone := by
            simpa using fun h => hleft (hkey.mp h)
          refine .inr (.inl ⟨hlast, hleft, ?_⟩)
          rw [hresult, logSizes, plannedMap_raiseVersions, if_pos hgone]
          rfl
      · refine .inr (.inr ⟨hlast, ?_⟩)
        simp only [updateTransientMapChecked, hp, hmissing hlast]
        rfl

/-- The end iterator of the planned map is dereferenced when a component is reported behind the one
that emptied the planned list, and an erased entry when the reported components empty it. -/
theorem update_transient_map_dereferences_iff (m : ComponentMapManager) (service : String)
    (transferred : Transfers) :
    (m.updateTransientMapChecked service transferred ≠ .error .plannedEnd ↔
        m.Leaves service transferred.dropLast) ∧
      (m.updateTransientMapChecked service transferred ≠ .error .plannedEnd ∧
        m.updateTransientMapChecked service transferred ≠ .error .plannedErased ↔
          m.Leaves service transferred) ∧
      ∀ component, m.removeEntryChecked service component ≠ .error .plannedEnd ↔
        service ∈ m.plannedMap := by
  have hcases := m.updateTransientMapChecked_cases service transferred
  refine ⟨?_, ?_, fun component => ?_⟩
  · rcases hcases with ⟨hleft, hend, -⟩ | ⟨hlast, -, herased⟩ | ⟨hlast, hend⟩
    · exact ⟨fun _ => hleft.dropLast, fun _ => hend⟩
    · exact ⟨fun _ => hlast, fun _ => by simp [herased]⟩
    · exact ⟨fun h => absurd hend h, fun h => absurd h hlast⟩
  · rcases hcases with ⟨hleft, hneither⟩ | ⟨-, hleft, herased⟩ | ⟨hlast, hend⟩
    · exact ⟨fun _ => hleft, fun _ => hneither⟩
    · exact ⟨fun h => absurd herased h.2, fun h => absurd h hleft⟩
    · exact ⟨fun h => absurd hend h.1, fun h => absurd h.dropLast hlast⟩
  · rw [← TreeMap.isSome_getElem?_iff_mem]
    unfold removeEntryChecked
    cases m.plannedMap[service]? <;> simp

def plannedOnce : ComponentMapManager where
  basicMap := ∅
  transientMap := ∅
  plannedMap := (∅ : TreeMap String Transfers).insert containerService
    [(1, ⟨"node2_container-server", "10.0.0.2", 61007⟩)]
  globalMapVersion := 1
  transientMapVersion := 0
  componentInfoFiles := ∅

/-- A source reports its only planned component and one more. -/
theorem reports_one_more_than_planned :
    plannedOnce.updateTransientMapChecked containerService
      [(1, ⟨"node2_container-server", "10.0.0.2", 61007⟩),
        (2, ⟨"node2_container-server", "10.0.0.2", 61007⟩)] = .error .plannedEnd := by
  have hplanned : plannedOnce.plannedMap[containerService]? =
      some [(1, ⟨"node2_container-server", "10.0.0.2", 61007⟩)] := by
    simp [plannedOnce]
  rcases plannedOnce.updateTransientMapChecked_cases containerService
    [(1, ⟨"node2_container-server", "10.0.0.2", 61007⟩),
      (2, ⟨"node2_container-server", "10.0.0.2", 61007⟩)] with h | ⟨h, -⟩ | h
  · simpa using h.1.dropLast _ hplanned
  · simpa using h _ hplanned
  · exact h.2

end ComponentMapManager

end ObjectStorage.Osm
