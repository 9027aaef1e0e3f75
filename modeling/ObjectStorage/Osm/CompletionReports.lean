import ObjectStorage.Osm.StateChange

/-!
What `check_if_recovery_completed_for_this_node` reports and removes, against the entries that
belong to the node.
-/

namespace ObjectStorage.Osm

open Std Library

/-- The status that a node whose state change is complete is reported with. -/
inductive CompletionStatus where
  | recovered | nodeStopped
deriving DecidableEq

namespace StateChangeManager

variable (s : StateChangeManager) (nodeName : String) (operation : StateChangeOperation)

/-- The call of `change_status_in_monitoring_component`, if it is made. -/
def completionReport : Option CompletionStatus :=
  if (s.entriesOfNode nodeName operation).all fun e => e.2.status = doneStatus operation then
    some (if operation = .nodeRecovery then .recovered else .nodeStopped)
  else none

/-- The entries of the services of the node itself. -/
def ownEntries : List (String × StateChangeInitiatorMap) :=
  s.stateMap.toList.filter fun e => getNodeId e.1 = nodeName ∧ e.2.operation = operation

/-- A report comes when all entries of the node are done and there is one, and only entries of the
node and the operation go. -/
structure ReportsOwnEntries : Prop where
  reported : (s.completionReport nodeName operation).isSome →
    s.ownEntries nodeName operation ≠ [] ∧
      ∀ e ∈ s.ownEntries nodeName operation, e.2.status = doneStatus operation
  removed : ∀ e ∈ s.stateMap.toList,
    (s.checkIfRecoveryCompletedForThisNode nodeName operation).stateMap[e.1]? = none →
      e ∈ s.ownEntries nodeName operation

/-- An entry with the name of the node in its service id is not done, or all of them belong to the
node and there is one. -/
def MatchesOwnEntries : Prop :=
  (∃ e ∈ s.entriesOfNode nodeName operation, e.2.status ≠ doneStatus operation) ∨
    (s.entriesOfNode nodeName operation ≠ [] ∧
      ∀ e ∈ s.entriesOfNode nodeName operation, getNodeId e.1 = nodeName)

instance : Decidable (s.MatchesOwnEntries nodeName operation) :=
  inferInstanceAs (Decidable (_ ∨ _))

/-- The name of a node is part of the ids of its services. -/
theorem getNodeId_infix (serviceId : String) :
    (getNodeId serviceId).toList <:+: serviceId.toList := by
  rw [getNodeId]
  split
  · rw [String.toList_ofList]
    have hsuffix : (serviceId.toList.reverse.dropWhile (· ≠ '_')).drop 1 <:+
        serviceId.toList.reverse :=
      (List.drop_suffix _ _).trans (List.dropWhile_suffix _)
    have hprefix := List.reverse_prefix.mpr hsuffix
    rw [List.reverse_reverse] at hprefix
    exact hprefix.isInfix
  · exact List.infix_rfl

variable {s nodeName operation}

theorem mem_entriesOfNode {e : String × StateChangeInitiatorMap} :
    e ∈ s.entriesOfNode nodeName operation ↔
      e ∈ s.stateMap.toList ∧ nodeName.toList <:+: e.1.toList ∧ e.2.operation = operation := by
  rw [entriesOfNode, List.mem_filter, decide_eq_true_eq]

theorem mem_ownEntries {e : String × StateChangeInitiatorMap} :
    e ∈ s.ownEntries nodeName operation ↔
      e ∈ s.stateMap.toList ∧ getNodeId e.1 = nodeName ∧ e.2.operation = operation := by
  rw [ownEntries, List.mem_filter, decide_eq_true_eq]

theorem mem_entriesOfNode_of_own {e : String × StateChangeInitiatorMap}
    (h : e ∈ s.ownEntries nodeName operation) : e ∈ s.entriesOfNode nodeName operation := by
  obtain ⟨hin, rfl, hoperation⟩ := mem_ownEntries.mp h
  exact mem_entriesOfNode.mpr ⟨hin, getNodeId_infix e.1, hoperation⟩

theorem checkIfRecoveryCompletedForThisNode_eq (s : StateChangeManager) (nodeName : String)
    (operation : StateChangeOperation) (id : String) :
    (s.checkIfRecoveryCompletedForThisNode nodeName operation).stateMap[id]? =
      if (s.completionReport nodeName operation).isSome ∧
          id ∈ (s.entriesOfNode nodeName operation).map (·.1) then none
      else s.stateMap[id]? := by
  rw [checkIfRecoveryCompletedForThisNode, completionReport]
  split
  · rw [Option.isSome_some]
    simp only [true_and]
    exact getElem?_eraseKeys ..
  · simp

/-- Reports and removals are right exactly if the match by the name is. -/
theorem reportsOwnEntries_iff (s : StateChangeManager) (nodeName : String)
    (operation : StateChangeOperation) :
    s.ReportsOwnEntries nodeName operation ↔ s.MatchesOwnEntries nodeName operation := by
  have hreport : (s.completionReport nodeName operation).isSome ↔
      ∀ e ∈ s.entriesOfNode nodeName operation, e.2.status = doneStatus operation := by
    rw [completionReport]
    split
    case isTrue hall => simpa using hall
    case isFalse hall => simpa using hall
  constructor
  · intro h
    by_cases hdone : ∀ e ∈ s.entriesOfNode nodeName operation, e.2.status = doneStatus operation
    · obtain ⟨hne, -⟩ := h.reported (hreport.mpr hdone)
      obtain ⟨own, hown⟩ := List.exists_mem_of_ne_nil _ hne
      refine .inr ⟨List.ne_nil_of_mem (mem_entriesOfNode_of_own hown), fun e he => ?_⟩
      refine (mem_ownEntries.mp (h.removed e (mem_entriesOfNode.mp he).1 ?_)).2.1
      rw [checkIfRecoveryCompletedForThisNode_eq, if_pos]
      exact ⟨hreport.mpr hdone, List.mem_map_of_mem he⟩
    · obtain ⟨e, he, hopen⟩ : ∃ e ∈ s.entriesOfNode nodeName operation,
          e.2.status ≠ doneStatus operation := by
        by_contra hnone
        exact hdone fun e he => by_contra fun hopen => hnone ⟨e, he, hopen⟩
      exact .inl ⟨e, he, hopen⟩
  · rintro (⟨e, he, hopen⟩ | ⟨hne, hmatch⟩)
    · have hnone : ¬ (s.completionReport nodeName operation).isSome := fun hsome =>
        hopen (hreport.mp hsome e he)
      refine ⟨fun hsome => absurd hsome hnone, fun e he hgone => ?_⟩
      rw [checkIfRecoveryCompletedForThisNode_eq, if_neg fun h => hnone h.1,
        TreeMap.mem_toList_iff_getElem?_eq_some.mp he] at hgone
      cases hgone
    · have hown : ∀ e ∈ s.entriesOfNode nodeName operation,
          e ∈ s.ownEntries nodeName operation := by
        intro e he
        obtain ⟨hin, -, hoperation⟩ := mem_entriesOfNode.mp he
        exact mem_ownEntries.mpr ⟨hin, hmatch e he, hoperation⟩
      refine ⟨fun hsome => ⟨?_, fun e he => ?_⟩, fun e he hgone => ?_⟩
      · obtain ⟨e, he⟩ := List.exists_mem_of_ne_nil _ hne
        exact List.ne_nil_of_mem (hown e he)
      · exact hreport.mp hsome e (mem_entriesOfNode_of_own he)
      · rw [checkIfRecoveryCompletedForThisNode_eq] at hgone
        split at hgone
        case isTrue hremoved =>
          obtain ⟨e', he', hid⟩ := List.mem_map.mp hremoved.2
          have hin := TreeMap.mem_toList_iff_getElem?_eq_some.mp he
          have hin' := TreeMap.mem_toList_iff_getElem?_eq_some.mp (mem_entriesOfNode.mp he').1
          rw [hid, hin] at hin'
          have heq : e' = e := Prod.ext hid (Option.some.inj hin').symm
          exact heq ▸ hown e' he'
        · rw [TreeMap.mem_toList_iff_getElem?_eq_some.mp he] at hgone
          cases hgone

/-- A leader without components. -/
def noNodes : StateChangeManager where
  maps :=
    { basicMap := ∅
      transientMap := ∅
      plannedMap := ∅
      globalMapVersion := 1
      transientMapVersion := 1 / 10000
      componentInfoFiles := ∅ }
  balancer :=
    { healthyNodeList := []
      unhealthyNodeList := []
      recoveredNodeList := []
      listOfServicesForAddition := []
      listOfServicesForDeletion := []
      listOfServicesForRecovery := []
      nodeInfoFileRecords := []
      nodeRecoveryDestMap := ∅
      totalNoOfComponents := 0 }
  stateMap := ∅
  pass := .start

/-- The recovery processes of the services of a node begin and end. -/
def recoveries (nodeId : String) : List StateChangeEvent :=
  [containerService, accountService, objectService, accountUpdater].flatMap fun service =>
    [.startMonitoring (getServiceId nodeId service) 5, .endMonitoring (getServiceId nodeId service)]

/-- Two nodes are recovered, the name of one is part of the name of the other. -/
def bothRecovered : List StateChangeEvent :=
  [.addEntry "HN0101_61014" .nodeRecovery, .addEntry "KHN0101_61014" .nodeRecovery] ++
    recoveries "HN0101_61014" ++ recoveries "KHN0101_61014" ++ [.scan [] []]

/-- The first report takes the entries of both nodes, and the second has none. -/
theorem bothRecovered_reports : ∃ s, run step noNodes bothRecovered = some s ∧
    ¬ s.ReportsOwnEntries "HN0101_61014" .nodeRecovery ∧
    ¬ (s.checkIfRecoveryCompletedForThisNode "HN0101_61014" .nodeRecovery).ReportsOwnEntries
      "KHN0101_61014" .nodeRecovery := by
  obtain ⟨s, hrun, hs⟩ := (Option.any_eq_true _ _).mp
    (by decide +kernel : (run step noNodes bothRecovered).any (fun s =>
      let t := s.checkIfRecoveryCompletedForThisNode "HN0101_61014" .nodeRecovery
      s.stateMap["KHN0101_61014_account-server"]?.isSome &&
        t.stateMap["KHN0101_61014_account-server"]?.isNone &&
        (t.completionReport "KHN0101_61014" .nodeRecovery).isSome &&
        (t.ownEntries "KHN0101_61014" .nodeRecovery).isEmpty) = true)
  simp only [Bool.and_eq_true, Option.isNone_iff_eq_none, List.isEmpty_iff] at hs
  obtain ⟨⟨⟨hthere, hgone⟩, hreport⟩, hnone⟩ := hs
  obtain ⟨e, he⟩ := Option.isSome_iff_exists.mp hthere
  refine ⟨s, hrun, fun h => ?_, fun h => (h.reported hreport).1 hnone⟩
  have hown := h.removed _ (TreeMap.mem_toList_iff_getElem?_eq_some.mpr he) hgone
  have hnode : getNodeId "KHN0101_61014_account-server" = "HN0101_61014" :=
    (mem_ownEntries.mp hown).2.1
  exact absurd hnode (by decide)

end StateChangeManager

end ObjectStorage.Osm
