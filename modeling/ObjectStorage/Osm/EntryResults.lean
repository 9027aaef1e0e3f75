import ObjectStorage.Osm.NodeEntries

/-!
What `add_entry_in_map` and `prepare_and_add_entry` return, against what becomes of the single
records. A record that is inserted leaves the result as it is, and one that meets an entry replaces
it.
-/

namespace ObjectStorage.Osm

open Std Library

/-- A record that is added: service, operation and status. -/
abbrev NewRecord := String × StateChangeOperation × StateChangeStatus

/-- What becomes of a record that is added. -/
inductive Acceptance where
  | inserted | turned | present | refused
deriving DecidableEq

def Acceptance.of (r : NewRecord) : Option StateChangeInitiatorMap → Acceptance
  | none => .inserted
  | some e =>
      if (e.operation = .componentBalancing ∨ e.operation = .nodeAddition ∨
          e.operation = .nodeDeletion) ∧ r.2.1 = .nodeRecovery then .turned
      else if e.operation = r.2.1 then .present
      else .refused

/-- The result after a record. -/
def Acceptance.returned (retValue : Bool) : Acceptance → Bool
  | .inserted => retValue
  | .turned | .present => true
  | .refused => false

namespace StateChangeManager

/-- The loop body of `add_entry_in_map` with its result. -/
def addRecordResult (acc : (TreeMap String StateChangeInitiatorMap × Bool) × Bool) (r : NewRecord) :
    (TreeMap String StateChangeInitiatorMap × Bool) × Bool :=
  (addRecord acc.1 r, (Acceptance.of r acc.1.1[r.1]?).returned acc.2)

/-- `add_entry_in_map`. The proxy that is closed is that of the node of the last record. -/
def addEntriesInMap (s : StateChangeManager) (records : List NewRecord) :
    Bool × StateChangeManager :=
  let ((stateMap, forceChange), retValue) :=
    records.foldl addRecordResult ((s.stateMap, false), true)
  let nodeId := (records.getLast?.map fun r => getNodeId r.1).getD ""
  (retValue, { s with stateMap := if forceChange then closeProxy stateMap nodeId else stateMap })

/-- `check_and_add_entry_in_map`. -/
def checkAndAddEntries (s : StateChangeManager) (records : List NewRecord)
    (operation : StateChangeOperation) : Bool × StateChangeManager :=
  if operation = .nodeDeletion ∧ ¬ records.all fun r => s.stateMap[r.1]?.isNone then (false, s)
  else s.addEntriesInMap records

/-- The records of `prepare_and_add_entry`. -/
def newRecords (nodeId : String) (services : List String) (operation : StateChangeOperation)
    (status : StateChangeStatus) : List NewRecord :=
  services.map fun service => (getServiceId nodeId service, operation, status)

/-- `prepare_and_add_entry` with its result. -/
def prepareAndAddEntries (s : StateChangeManager) (nodeId : String) :
    StateChangeOperation → Bool × StateChangeManager
  | .nodeRecovery => s.checkAndAddEntries (newRecords nodeId
      [containerService, accountService, objectService, accountUpdater] .nodeRecovery
      .recoveryNew) .nodeRecovery
  | .nodeAddition => s.checkAndAddEntries (newRecords nodeId
      [containerService, accountService, objectService, accountUpdater] .nodeAddition
      .naNew) .nodeAddition
  | .nodeDeletion =>
      s.checkAndAddEntries (newRecords nodeId nodeServices .nodeDeletion .ndNew) .nodeDeletion
  | .componentBalancing => (false, s)

/-- What becomes of the records, each in the table that those in front of it have left. -/
def acceptances (stateMap : TreeMap String StateChangeInitiatorMap) :
    List NewRecord → List Acceptance
  | [] => []
  | r :: records => Acceptance.of r stateMap[r.1]? ::
      acceptances (addRecord (stateMap, false) r).1 records

variable {s : StateChangeManager} {stateMap : TreeMap String StateChangeInitiatorMap}
  {records : List NewRecord} {r : NewRecord}

/-! ### The table is that of the functions without a result -/

theorem addRecord_fst (stateMap : TreeMap String StateChangeInitiatorMap) (force : Bool)
    (r : NewRecord) :
    (addRecord (stateMap, force) r).1 = (addRecord (stateMap, false) r).1 := by
  unfold addRecord
  cases stateMap[r.1]? with
  | none => rfl
  | some e =>
      dsimp only
      split <;> rfl

theorem foldl_addRecordResult (stateMap : TreeMap String StateChangeInitiatorMap)
    (force retValue : Bool) (records : List NewRecord) :
    records.foldl addRecordResult ((stateMap, force), retValue) =
      (records.foldl addRecord (stateMap, force),
        (acceptances stateMap records).foldl Acceptance.returned retValue) := by
  induction records generalizing stateMap force retValue with
  | nil => rfl
  | cons r records ih =>
      rw [List.foldl_cons, addRecordResult, List.foldl_cons, acceptances, List.foldl_cons]
      rcases hadd : addRecord (stateMap, force) r with ⟨stateMap', force'⟩
      have hfst := addRecord_fst stateMap force r
      rw [hadd] at hfst
      rw [ih, ← hfst]

theorem addEntriesInMap_fst (s : StateChangeManager) (records : List NewRecord) :
    (s.addEntriesInMap records).1 =
      (acceptances s.stateMap records).foldl Acceptance.returned true := by
  rw [addEntriesInMap, foldl_addRecordResult]

/-- The records of a node are added as `addEntryInMap` adds them. -/
theorem addEntriesInMap_newRecords (s : StateChangeManager) (nodeId : String)
    (services : List String) (hne : services ≠ []) (hservices : services ⊆ nodeServices)
    (operation : StateChangeOperation) (status : StateChangeStatus) :
    (s.addEntriesInMap (newRecords nodeId services operation status)).2 =
      s.addEntryInMap nodeId services operation status := by
  have hnode : ((newRecords nodeId services operation status).getLast?.map
      fun r => getNodeId r.1).getD "" = nodeId := by
    obtain ⟨front, service, rfl⟩ := List.eq_nil_or_concat' services |>.resolve_left hne
    simp [newRecords, getNodeId_of_service (hservices (by simp : service ∈ front ++ [service]))]
  rw [addEntriesInMap, foldl_addRecordResult, hnode, addEntryInMap]
  simp only [newRecords, List.foldl_map]

theorem all_newRecords (s : StateChangeManager) (nodeId : String) (operation : StateChangeOperation)
    (status : StateChangeStatus) :
    ((newRecords nodeId nodeServices operation status).all fun r => s.stateMap[r.1]?.isNone) =
      s.checkIfNodeCanBeRetired nodeId := by
  simp only [newRecords, List.all_map]
  rfl

theorem prepareAndAddEntries_snd (s : StateChangeManager) (nodeId : String)
    (operation : StateChangeOperation) :
    (s.prepareAndAddEntries nodeId operation).2 = s.prepareAndAddEntry nodeId operation := by
  have hadded := s.addEntriesInMap_newRecords nodeId
    [containerService, accountService, objectService, accountUpdater] (by simp)
    (by simp [nodeServices])
  cases operation with
  | componentBalancing => rfl
  | nodeRecovery => exact hadded .nodeRecovery .recoveryNew
  | nodeAddition => exact hadded .nodeAddition .naNew
  | nodeDeletion =>
      by_cases hretire : s.checkIfNodeCanBeRetired nodeId = true
      · rw [prepareAndAddEntries, checkAndAddEntries, if_neg (by simp [all_newRecords, hretire])]
        exact (s.addEntriesInMap_newRecords nodeId nodeServices (by simp [nodeServices])
          (List.Subset.refl _) _ _).trans (if_pos hretire).symm
      · rw [prepareAndAddEntries, checkAndAddEntries,
          if_pos ⟨rfl, by simp [all_newRecords, hretire]⟩]
        exact (prepareAndAddEntry_deletion hretire).symm

/-! ### The result and the records -/

/-- The result tells whether all records were accepted, and if not, nothing has changed. -/
def AllOrNothing (s : StateChangeManager) (outcomes : List Acceptance)
    (result : Bool × StateChangeManager) : Prop :=
  (result.1 = true ↔ .refused ∉ outcomes) ∧ (result.1 = false → result.2 = s)

/-- No record is refused, or none changes the table and the last one is refused. -/
def Unmixed (outcomes : List Acceptance) : Prop :=
  .refused ∉ outcomes ∨
    (∀ a ∈ outcomes, a = .present ∨ a = .refused) ∧ outcomes.getLast? = some .refused

instance (outcomes : List Acceptance) : Decidable (Unmixed outcomes) :=
  inferInstanceAs (Decidable (_ ∨ _))

theorem foldl_returned_of_accepted {outcomes : List Acceptance} (h : .refused ∉ outcomes) :
    outcomes.foldl Acceptance.returned true = true := by
  induction outcomes with
  | nil => rfl
  | cons a outcomes ih =>
      rw [List.mem_cons, not_or] at h
      rw [List.foldl_cons]
      cases a with
      | refused => exact absurd rfl h.1
      | inserted | turned | present => exact ih h.2

theorem foldl_returned_concat {a : Acceptance} (ha : a = .present ∨ a = .refused)
    (retValue : Bool) (front : List Acceptance) :
    (front ++ [a]).foldl Acceptance.returned retValue = decide (a = .present) := by
  rw [List.foldl_append]
  rcases ha with rfl | rfl <;> rfl

theorem addRecord_of_unchanged (force : Bool)
    (h : Acceptance.of r stateMap[r.1]? = .present ∨ Acceptance.of r stateMap[r.1]? = .refused) :
    addRecord (stateMap, force) r = (stateMap, force) := by
  unfold addRecord
  cases he : stateMap[r.1]? with
  | none => simp [Acceptance.of, he] at h
  | some e =>
      dsimp only
      split_ifs with hturned
      · simp [Acceptance.of, he, hturned] at h
      · rfl

theorem foldl_addRecord_of_unchanged (force : Bool)
    (h : ∀ a ∈ acceptances stateMap records, a = .present ∨ a = .refused) :
    records.foldl addRecord (stateMap, force) = (stateMap, force) := by
  induction records generalizing force with
  | nil => rfl
  | cons r records ih =>
      rw [acceptances] at h
      have hr := h _ List.mem_cons_self
      have hrest : ∀ a ∈ acceptances stateMap records, a = .present ∨ a = .refused := by
        intro a ha
        refine h a (List.mem_cons_of_mem _ ?_)
        rwa [addRecord_of_unchanged false hr]
      rw [List.foldl_cons, addRecord_of_unchanged force hr, ih force hrest]

/-- An entry counts more when it is about a recovery. -/
def weight : Option StateChangeInitiatorMap → Nat
  | none => 0
  | some e => if e.operation = .nodeRecovery then 2 else 1

theorem weight_addRecord_le (force : Bool) (r : NewRecord) (k : String) :
    weight stateMap[k]? ≤ weight (addRecord (stateMap, force) r).1[k]? := by
  unfold addRecord
  cases he : stateMap[r.1]? with
  | none =>
      by_cases hk : r.1 = k
      · simp [← hk, he, weight]
      · simp [hk]
  | some e =>
      dsimp only
      split_ifs with hturned
      · by_cases hk : r.1 = k
        · rw [← hk, he]
          simp only [weight, getElem?_insert_eq, if_true]
          split_ifs <;> omega
        · simp [hk]
      · exact le_rfl

theorem weight_addRecord_lt (force : Bool)
    (h : ¬ (Acceptance.of r stateMap[r.1]? = .present ∨
      Acceptance.of r stateMap[r.1]? = .refused)) :
    weight stateMap[r.1]? < weight (addRecord (stateMap, force) r).1[r.1]? := by
  unfold addRecord
  cases he : stateMap[r.1]? with
  | none => simp [weight]; split_ifs <;> omega
  | some e =>
      dsimp only
      split_ifs with hturned
      · have hother : e.operation ≠ .nodeRecovery := by
          rintro hsame
          simp [hsame] at hturned
        simp [weight, hother]
      · simp only [Acceptance.of, he, if_neg hturned] at h
        split_ifs at h <;> simp at h

theorem weight_foldl_addRecord_le (force : Bool) (records : List NewRecord) (k : String) :
    weight stateMap[k]? ≤ weight (records.foldl addRecord (stateMap, force)).1[k]? := by
  induction records generalizing stateMap force with
  | nil => exact le_rfl
  | cons r records ih =>
      exact (weight_addRecord_le force r k).trans (ih (addRecord (stateMap, force) r).2)

theorem weight_closeProxy_le (nodeId k : String) :
    weight stateMap[k]? ≤ weight (closeProxy stateMap nodeId)[k]? := by
  unfold closeProxy
  cases he : stateMap[getServiceId nodeId proxyService]? with
  | none => exact le_rfl
  | some e =>
      dsimp only
      split_ifs with hdeletion
      · by_cases hk : getServiceId nodeId proxyService = k
        · rw [← hk, he]
          simp [weight, hdeletion]
        · simp [hk]
      · exact le_rfl

theorem foldl_addRecord_changes (force : Bool)
    (h : ¬ ∀ a ∈ acceptances stateMap records, a = .present ∨ a = .refused) :
    ∃ k : String, weight stateMap[k]? <
      weight (records.foldl addRecord (stateMap, force)).1[k]? := by
  induction records generalizing stateMap force with
  | nil => simp [acceptances] at h
  | cons r records ih =>
      rw [acceptances, List.forall_mem_cons, not_and_or] at h
      rcases h with hr | hrest
      · exact ⟨r.1, (weight_addRecord_lt force hr).trans_le
          (weight_foldl_addRecord_le _ records r.1)⟩
      · rw [← addRecord_fst stateMap force r] at hrest
        obtain ⟨k, hk⟩ := ih (addRecord (stateMap, force) r).2 hrest
        exact ⟨k, (weight_addRecord_le force r k).trans_lt hk⟩

theorem addEntriesInMap_eq_iff (s : StateChangeManager) (records : List NewRecord) :
    (s.addEntriesInMap records).2 = s ↔
      ∀ a ∈ acceptances s.stateMap records, a = .present ∨ a = .refused := by
  rw [addEntriesInMap, foldl_addRecordResult]
  constructor
  · intro hsame
    by_contra h
    obtain ⟨k, hk⟩ := foldl_addRecord_changes false h
    have hstate := congrArg (fun s : StateChangeManager => weight s.stateMap[k]?) hsame
    dsimp only at hstate
    split at hstate
    · exact absurd hstate (hk.trans_le (weight_closeProxy_le _ k)).ne'
    · exact absurd hstate hk.ne'
  · intro h
    simp [foldl_addRecord_of_unchanged false h]

/-- `add_entry_in_map` is all or nothing exactly for the records that are not mixed. -/
theorem allOrNothing_addEntriesInMap_iff (s : StateChangeManager) (records : List NewRecord) :
    s.AllOrNothing (acceptances s.stateMap records) (s.addEntriesInMap records) ↔
      Unmixed (acceptances s.stateMap records) := by
  unfold AllOrNothing Unmixed
  rw [addEntriesInMap_fst, addEntriesInMap_eq_iff]
  generalize acceptances s.stateMap records = outcomes
  by_cases hrefused : .refused ∈ outcomes
  · simp only [hrefused, not_true_eq_false, iff_false, false_or, Bool.not_eq_true]
    constructor
    · rintro ⟨hfalse, hunchanged⟩
      refine ⟨hunchanged hfalse, ?_⟩
      rcases List.eq_nil_or_concat' outcomes with rfl | ⟨front, a, rfl⟩
      · simp at hrefused
      · have ha := hunchanged hfalse a (by simp)
        rw [foldl_returned_concat ha] at hfalse
        rcases ha with rfl | rfl
        · simp at hfalse
        · simp
    · rintro ⟨hunchanged, hlast⟩
      obtain ⟨front, rfl⟩ := List.getLast?_eq_some_iff.mp hlast
      exact ⟨foldl_returned_concat (.inr rfl) true front, fun _ => hunchanged⟩
  · simp [hrefused, foldl_returned_of_accepted hrefused]

/-- What becomes of the services of a node: the check in front of a deletion refuses all of them,
and there is nothing to do for another operation. -/
def prepareAcceptances (s : StateChangeManager) (nodeId : String) :
    StateChangeOperation → List Acceptance
  | .nodeRecovery => acceptances s.stateMap (newRecords nodeId
      [containerService, accountService, objectService, accountUpdater] .nodeRecovery .recoveryNew)
  | .nodeAddition => acceptances s.stateMap (newRecords nodeId
      [containerService, accountService, objectService, accountUpdater] .nodeAddition .naNew)
  | .nodeDeletion =>
      if s.checkIfNodeCanBeRetired nodeId then
        acceptances s.stateMap (newRecords nodeId nodeServices .nodeDeletion .ndNew)
      else nodeServices.map fun _ => .refused
  | .componentBalancing => [.refused]

theorem allOrNothing_refused {outcomes : List Acceptance} (h : .refused ∈ outcomes) :
    s.AllOrNothing outcomes (false, s) := by
  simp [AllOrNothing, h]

theorem refused_not_mem_recovery (h : ∀ r ∈ records, r.2.1 = .nodeRecovery) :
    .refused ∉ acceptances stateMap records := by
  induction records generalizing stateMap with
  | nil => simp [acceptances]
  | cons r records ih =>
      have hr := h r List.mem_cons_self
      rw [acceptances, List.mem_cons, not_or]
      refine ⟨?_, ih fun r' hr' => h r' (List.mem_cons_of_mem _ hr')⟩
      cases stateMap[r.1]? with
      | none => simp [Acceptance.of]
      | some e => cases hop : e.operation <;> simp [Acceptance.of, hr, hop]

theorem refused_not_mem_of_absent {operation : StateChangeOperation}
    (hoperation : ∀ r ∈ records, r.2.1 = operation)
    (h : ∀ r ∈ records, ∀ e, stateMap[r.1]? = some e → e.operation = operation) :
    .refused ∉ acceptances stateMap records := by
  induction records generalizing stateMap with
  | nil => simp [acceptances]
  | cons r records ih =>
      have hr := hoperation r List.mem_cons_self
      have hfront := h r List.mem_cons_self
      rw [acceptances, List.mem_cons, not_or]
      refine ⟨?_, ih (fun r' hr' => hoperation r' (List.mem_cons_of_mem _ hr'))
        fun r' hr' e' he' => ?_⟩
      · cases he : stateMap[r.1]? with
        | none => simp [Acceptance.of]
        | some e => cases hop : operation <;> simp [Acceptance.of, hr, hfront e he, hop]
      · have hrest := h r' (List.mem_cons_of_mem _ hr')
        cases he : stateMap[r.1]? with
        | none =>
            simp only [addRecord, he, getElem?_insert_eq] at he'
            split_ifs at he' with hk
            · obtain rfl := Option.some.inj he'
              exact hr
            · exact hrest e' he'
        | some e =>
            simp only [addRecord, he, hr, hfront e he] at he'
            split_ifs at he' with hturned
            · cases operation <;> simp at hturned
            · exact hrest e' he'

theorem unmixed_prepareAcceptances (s : StateChangeManager) (nodeId : String)
    {operation : StateChangeOperation} (h : operation ≠ .nodeAddition) :
    Unmixed (s.prepareAcceptances nodeId operation) := by
  cases operation with
  | nodeAddition => exact absurd rfl h
  | componentBalancing => exact .inr ⟨by simp [prepareAcceptances], rfl⟩
  | nodeRecovery => exact .inl (refused_not_mem_recovery (by simp [newRecords]))
  | nodeDeletion =>
      unfold prepareAcceptances
      split_ifs with hretire
      · have hoperation : ∀ r ∈ newRecords nodeId nodeServices .nodeDeletion .ndNew,
            r.2.1 = .nodeDeletion := by simp [newRecords]
        refine .inl (refused_not_mem_of_absent hoperation fun r hr e he => ?_)
        obtain ⟨service, hservice, rfl⟩ := List.mem_map.mp hr
        have hnone := List.all_eq_true.mp hretire service hservice
        rw [he] at hnone
        cases hnone
      · exact .inr ⟨by simp, by simp [nodeServices]⟩

theorem allOrNothing_prepareAndAddEntries_iff (s : StateChangeManager) (nodeId : String)
    (operation : StateChangeOperation) :
    s.AllOrNothing (s.prepareAcceptances nodeId operation)
        (s.prepareAndAddEntries nodeId operation) ↔
      Unmixed (s.prepareAcceptances nodeId operation) := by
  cases operation with
  | nodeRecovery | nodeAddition => exact allOrNothing_addEntriesInMap_iff s _
  | componentBalancing =>
      exact iff_of_true (allOrNothing_refused (by simp [prepareAcceptances]))
        (s.unmixed_prepareAcceptances nodeId (by simp))
  | nodeDeletion =>
      by_cases hretire : s.checkIfNodeCanBeRetired nodeId = true
      · rw [prepareAcceptances, if_pos hretire, prepareAndAddEntries, checkAndAddEntries,
          if_neg (by simp [all_newRecords, hretire])]
        exact allOrNothing_addEntriesInMap_iff s _
      · refine iff_of_true ?_ (s.unmixed_prepareAcceptances nodeId (by simp))
        rw [prepareAcceptances, if_neg hretire, prepareAndAddEntries, checkAndAddEntries,
          if_pos ⟨rfl, by simp [all_newRecords, hretire]⟩]
        exact allOrNothing_refused (by simp [nodeServices])

/-- Both functions are all or nothing for records that are not mixed, and only for these. Those of
`prepare_and_add_entry` can be mixed for an addition alone. -/
theorem add_entries_all_or_nothing (s : StateChangeManager) :
    (∀ records, s.AllOrNothing (acceptances s.stateMap records) (s.addEntriesInMap records) ↔
      Unmixed (acceptances s.stateMap records)) ∧
    ∀ nodeId operation,
      (s.AllOrNothing (s.prepareAcceptances nodeId operation)
          (s.prepareAndAddEntries nodeId operation) ↔
        Unmixed (s.prepareAcceptances nodeId operation)) ∧
      (operation ≠ .nodeAddition → Unmixed (s.prepareAcceptances nodeId operation)) :=
  ⟨s.allOrNothing_addEntriesInMap_iff, fun nodeId operation =>
    ⟨s.allOrNothing_prepareAndAddEntries_iff nodeId operation,
      s.unmixed_prepareAcceptances nodeId⟩⟩

def tableOf (entries : List (String × StateChangeInitiatorMap)) : StateChangeManager where
  maps := ⟨∅, ∅, ∅, 1, 0, ∅⟩
  balancer := ⟨[], [], [], [], [], [], [], ∅, 0⟩
  stateMap := TreeMap.ofList entries
  pass := .start

/-- A node is added whose container service is still being recovered. Behind an entry for the
account service the addition succeeds, and without one it fails after it has added the other
services. -/
theorem mixed_addition :
    let recovering := tableOf [("n_container-server", .fresh .nodeRecovery .recoveryNew)]
    let added := tableOf [("n_container-server", .fresh .nodeRecovery .recoveryNew),
      ("n_account-server", .fresh .nodeAddition .naNew)]
    ((added.prepareAndAddEntries "n" .nodeAddition).1 = true ∧
      .refused ∈ added.prepareAcceptances "n" .nodeAddition) ∧
    (recovering.prepareAndAddEntries "n" .nodeAddition).1 = false ∧
      (recovering.prepareAndAddEntries "n" .nodeAddition).2 ≠ recovering := by
  intro recovering added
  have hadded : added.prepareAcceptances "n" .nodeAddition =
      [.refused, .present, .inserted, .inserted] := by decide +kernel
  have hrecovering : recovering.prepareAcceptances "n" .nodeAddition =
      [.refused, .inserted, .inserted, .inserted] := by decide +kernel
  refine ⟨⟨?_, by simp [hadded]⟩, ?_, fun hsame => ?_⟩
  · exact (addEntriesInMap_fst added _).trans
      (congrArg (List.foldl Acceptance.returned true) hadded)
  · exact (addEntriesInMap_fst recovering _).trans
      (congrArg (List.foldl Acceptance.returned true) hrecovering)
  · have hprepare : recovering.prepareAndAddEntries "n" .nodeAddition =
        recovering.addEntriesInMap (newRecords "n"
          [containerService, accountService, objectService, accountUpdater] .nodeAddition
          .naNew) := rfl
    rw [hprepare, addEntriesInMap_eq_iff] at hsame
    change ∀ a ∈ recovering.prepareAcceptances "n" .nodeAddition, _ at hsame
    simp [hrecovering] at hsame

end StateChangeManager

end ObjectStorage.Osm
