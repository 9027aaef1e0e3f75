import ObjectStorage.Osm.BalancingShares
import ObjectStorage.Osm.StateChange

/-!
How the threads of the state table change its entries: an entry keeps its operation once it is about
a recovery or a deletion, only new entries are about an addition, and a node becomes healthy only
through a service that is being added.
-/

namespace ObjectStorage.Osm

open Std Library

/-- The statuses of a service that is added or balanced. -/
def StateChangeStatus.adding : StateChangeStatus → Bool
  | .naNew | .naCompleted | .balancingNew | .balancingPlanned | .balancingInProgress
  | .balancingCompleted | .balancingAborted | .balancingFailed | .balancingReschedule => true
  | _ => false

/-- How an entry changes in the table; only a scan closes a recovery. -/
structure EntryStep (scanning : Prop) (e e' : StateChangeInitiatorMap) : Prop where
  operation : e'.operation = e.operation ∨ e.operation ≠ .nodeRecovery ∧
    e.operation ≠ .nodeDeletion ∧ e'.operation = .componentBalancing
  added : e'.status = .naNew → e.status = .naNew
  deleted : e.operation = .nodeDeletion → e'.status.adding = true → e.status.adding = true
  closed : ¬ scanning → e'.status = .recoveryClosed → e.status = .recoveryClosed

/-- How the table changes; only balancings appear in it. -/
structure TableStep (scanning : Prop)
    (stateMap stateMap' : TreeMap String StateChangeInitiatorMap) : Prop where
  entry : ∀ (id : String) e, stateMap[id]? = some e →
    ∃ e', stateMap'[id]? = some e' ∧ EntryStep scanning e e'
  fresh : ∀ (id : String) e', stateMap'[id]? = some e' → stateMap[id]? = none →
    e'.operation = .componentBalancing ∧ e'.status ≠ .naNew

section

variable {scanning : Prop} {e e' e'' : StateChangeInitiatorMap} {id : String}
  {stateMap stateMap' stateMap'' : TreeMap String StateChangeInitiatorMap}

theorem EntryStep.same (hoperation : e'.operation = e.operation) (hstatus : e'.status = e.status) :
    EntryStep scanning e e' :=
  ⟨.inl hoperation, fun h => hstatus ▸ h, fun _ h => hstatus ▸ h, fun _ h => hstatus ▸ h⟩

theorem EntryStep.move (hoperation : e'.operation = e.operation)
    (hadding : e'.status.adding = false) (hclosed : e'.status ≠ .recoveryClosed) :
    EntryStep scanning e e' := by
  refine ⟨.inl hoperation, fun h => ?_, fun _ h => ?_, fun _ h => absurd h hclosed⟩
  · rw [h] at hadding
    cases hadding
  · rw [hadding] at h
    cases h

/-- A change between two statuses that are about an addition. -/
theorem EntryStep.add (hoperation : e'.operation = e.operation) (hadding : e.status.adding = true)
    (hnew : e'.status ≠ .naNew) (hclosed : e'.status ≠ .recoveryClosed) : EntryStep scanning e e' :=
  ⟨.inl hoperation, fun h => absurd h hnew, fun _ _ => hadding, fun _ h => absurd h hclosed⟩

theorem EntryStep.trans (h : EntryStep scanning e e') (h' : EntryStep scanning e' e'') :
    EntryStep scanning e e'' where
  operation := by
    rcases h.operation with hop | ⟨hrec, hdel, hop⟩
    · rcases h'.operation with hop' | ⟨hrec', hdel', hop'⟩
      · exact .inl (hop'.trans hop)
      · rw [hop] at hrec' hdel'
        exact .inr ⟨hrec', hdel', hop'⟩
    · rcases h'.operation with hop' | ⟨-, -, hop'⟩
      · exact .inr ⟨hrec, hdel, hop'.trans hop⟩
      · exact .inr ⟨hrec, hdel, hop'⟩
  added hnew := h.added (h'.added hnew)
  deleted hdel hadding := by
    have hop : e'.operation = .nodeDeletion := by
      rcases h.operation with hop | ⟨-, hne, -⟩
      · rw [hop, hdel]
      · exact absurd hdel hne
    exact h.deleted hdel (h'.deleted hop hadding)
  closed hscan hclosed := h.closed hscan (h'.closed hscan hclosed)

/-- Recoveries and deletions are what they were. -/
theorem EntryStep.operation_iff (h : EntryStep scanning e e') {operation : StateChangeOperation}
    (hoperation : operation = .nodeRecovery ∨ operation = .nodeDeletion) :
    e'.operation = operation ↔ e.operation = operation := by
  rcases h.operation with hop | ⟨hrec, hdel, hop⟩
  · rw [hop]
  · refine iff_of_false (fun heq => ?_) fun heq => ?_
    · rw [hop] at heq
      rcases hoperation with rfl | rfl <;> cases heq
    · rcases hoperation with rfl | rfl
      · exact hrec heq
      · exact hdel heq

theorem TableStep.refl : TableStep scanning stateMap stateMap :=
  ⟨fun _ e he => ⟨e, he, .same rfl rfl⟩, fun id e' he' hnone => by rw [hnone] at he'; cases he'⟩

theorem TableStep.trans (h : TableStep scanning stateMap stateMap')
    (h' : TableStep scanning stateMap' stateMap'') : TableStep scanning stateMap stateMap'' where
  entry id e he := by
    obtain ⟨e', he', hstep⟩ := h.entry id e he
    obtain ⟨e'', he'', hstep'⟩ := h'.entry id e' he'
    exact ⟨e'', he'', hstep.trans hstep'⟩
  fresh id e'' he'' hnone := by
    cases he' : stateMap'[id]? with
    | none => exact h'.fresh id e'' he'' he'
    | some e' =>
        obtain ⟨hop, hnew⟩ := h.fresh id e' he' hnone
        obtain ⟨e₁, he₁, hstep⟩ := h'.entry id e' he'
        obtain rfl := Option.some.inj (he''.symm.trans he₁)
        refine ⟨?_, fun hstatus => hnew (hstep.added hstatus)⟩
        rcases hstep.operation with hop' | ⟨-, -, hop'⟩
        · exact hop'.trans hop
        · exact hop'

theorem TableStep.update (he : stateMap[id]? = some e) (h : EntryStep scanning e e') :
    TableStep scanning stateMap (stateMap.insert id e') where
  entry a e₁ he₁ := by
    rw [getElem?_insert_eq]
    by_cases hid : id = a
    · subst hid
      obtain rfl := Option.some.inj (he.symm.trans he₁)
      exact ⟨e', if_pos rfl, h⟩
    · exact ⟨e₁, by rw [if_neg hid, he₁], .same rfl rfl⟩
  fresh a e₁ he₁ hnone := by
    rw [getElem?_insert_eq] at he₁
    by_cases hid : id = a
    · subst hid
      rw [hnone] at he
      cases he
    · rw [if_neg hid, hnone] at he₁
      cases he₁

theorem TableStep.insertFresh (hnone : stateMap[id]? = none)
    (hoperation : e'.operation = .componentBalancing) (hstatus : e'.status ≠ .naNew) :
    TableStep scanning stateMap (stateMap.insert id e') where
  entry a e₁ he₁ := by
    rw [getElem?_insert_eq]
    by_cases hid : id = a
    · subst hid
      rw [hnone] at he₁
      cases he₁
    · exact ⟨e₁, by rw [if_neg hid, he₁], .same rfl rfl⟩
  fresh a e₁ he₁ hnone' := by
    rw [getElem?_insert_eq] at he₁
    by_cases hid : id = a
    · rw [if_pos hid] at he₁
      exact Option.some.inj he₁ ▸ ⟨hoperation, hstatus⟩
    · rw [if_neg hid, hnone'] at he₁
      cases he₁

theorem TableStep.foldl {α : Type}
    {f : TreeMap String StateChangeInitiatorMap → α → TreeMap String StateChangeInitiatorMap}
    {as : List α} {P : TreeMap String StateChangeInitiatorMap → Prop}
    (hkeep : ∀ m m', P m → TableStep scanning m m' → P m')
    (hstep : ∀ m, P m → ∀ a ∈ as, TableStep scanning m (f m a)) (hstart : P stateMap) :
    TableStep scanning stateMap (as.foldl f stateMap) := by
  induction as generalizing stateMap with
  | nil => exact .refl
  | cons a as ih =>
      have hfirst := hstep stateMap hstart a List.mem_cons_self
      exact hfirst.trans (ih (fun m hm a' ha' => hstep m hm a' (List.mem_cons_of_mem _ ha'))
        (hkeep _ _ hstart hfirst))

end

namespace ComponentBalancer

variable {b : ComponentBalancer} {node : String}

theorem mem_foldl_addNode {ids : List String} :
    node ∈ (ids.foldl addNode b).healthyNodeList →
      node ∈ b.healthyNodeList ∨ ∃ id ∈ ids, getNodeId id = node := by
  induction ids generalizing b with
  | nil => exact .inl
  | cons id ids ih =>
      intro h
      rcases ih h with hin | ⟨id', hid', heq⟩
      · simp only [addNode, pushNew] at hin
        split at hin
        · exact .inl hin
        · rcases List.mem_append.mp hin with hin | hin
          · exact .inl hin
          · exact .inr ⟨id, List.mem_cons_self, (List.mem_singleton.mp hin).symm⟩
      · exact .inr ⟨id', List.mem_cons_of_mem _ hid', heq⟩

theorem mem_foldl_retireNode {ids : List String} :
    node ∈ (ids.foldl retireNode b).healthyNodeList → node ∈ b.healthyNodeList := by
  induction ids generalizing b with
  | nil => exact id
  | cons id ids ih => exact fun h => List.mem_of_mem_erase (ih h)

/-- A plan makes only nodes healthy whose services are being added. -/
theorem mem_healthyNodeList_getNewPlannedMap {m : ComponentMapManager}
    {records : List NodeInfoFileRecord} {service : String}
    {nodeAddition nodeDeletion nodeRecovery : List String}
    (h : node ∈ (b.getNewPlannedMap m records service nodeAddition nodeDeletion
      nodeRecovery).2.1.healthyNodeList) :
    node ∈ b.healthyNodeList ∨ ∃ id ∈ nodeAddition, getNodeId id = node := by
  have hwith : node ∈ (b.withServices records nodeAddition nodeDeletion
      nodeRecovery).healthyNodeList := by
    simp only [getNewPlannedMap] at h
    split at h <;> exact h
  simp only [withServices, mem_sortUnique] at hwith
  rcases mem_foldl_addNode (mem_foldl_retireNode (mem_foldl_retireNode hwith)) with
    hin | ⟨id, hid, heq⟩
  · exact .inl hin
  · exact .inr ⟨id, mem_sortUnique.mp hid, heq⟩

theorem mem_healthyNodeList_getNewBalancingForSource {m : ComponentMapManager}
    {service source : String} {plannedComponents : Transfers}
    (h : node ∈ (b.getNewBalancingForSource m service source
      plannedComponents).2.1.healthyNodeList) : node ∈ b.healthyNodeList := by
  simp only [getNewBalancingForSource] at h
  split at h <;> exact mem_sortUnique.mp h

theorem healthyNodeList_getTargetNodeForRecovery (b : ComponentBalancer) (serviceId : String) :
    (b.getTargetNodeForRecovery serviceId).2.healthyNodeList = b.healthyNodeList := by
  simp only [getTargetNodeForRecovery]
  split <;> rfl

theorem healthyNodeList_updateRecoveryDestMap (b : ComponentBalancer) (node service : String) :
    (b.updateRecoveryDestMap node service).healthyNodeList = b.healthyNodeList := by
  simp only [updateRecoveryDestMap]
  split
  · split <;> rfl
  · rfl

end ComponentBalancer

namespace StateChangeManager

/-- A step of the table outside the scan. -/
structure Quiet (s s' : StateChangeManager) : Prop where
  table : TableStep False s.stateMap s'.stateMap
  naList : s'.pass.naList = s.pass.naList
  healthy : ∀ node ∈ s'.balancer.healthyNodeList,
    node ∈ s.balancer.healthyNodeList ∨ ∃ id ∈ s.pass.naList, getNodeId id = node
  phase : s.pass.phase = .deleting → s'.pass.phase = .deleting

variable {s s' s'' : StateChangeManager} {id : String} {e e' : StateChangeInitiatorMap}

theorem Quiet.refl (s : StateChangeManager) : Quiet s s :=
  ⟨.refl, rfl, fun _ h => .inl h, fun h => h⟩

theorem Quiet.trans (h : Quiet s s') (h' : Quiet s' s'') : Quiet s s'' where
  table := h.table.trans h'.table
  naList := h'.naList.trans h.naList
  healthy node hnode := by
    rcases h'.healthy node hnode with hin | ⟨id, hid, heq⟩
    · exact h.healthy node hin
    · exact .inr ⟨id, h.naList ▸ hid, heq⟩
  phase hphase := h'.phase (h.phase hphase)

theorem Quiet.setEntry (he : s.stateMap[id]? = some e) (h : EntryStep False e e') :
    Quiet s (s.setEntry id e') := ⟨.update he h, rfl, fun _ h => .inl h, fun h => h⟩

theorem quiet_startMonitoring (s : StateChangeManager) (id : String) (fd : Int) :
    Quiet s (s.startMonitoring id fd) := by
  unfold startMonitoring
  cases he : s.stateMap[id]? with
  | none => exact .refl s
  | some e => exact .setEntry he (.move rfl rfl (by simp))

theorem quiet_updatePlannedComponents (s : StateChangeManager) (id : String)
    (transferred : Transfers) : Quiet s (s.updatePlannedComponents id transferred) := by
  unfold updatePlannedComponents
  cases he : s.stateMap[id]? with
  | none => exact .refl s
  | some e => exact ⟨.update he (.same rfl rfl), rfl, fun _ h => .inl h, fun h => h⟩

theorem quiet_setFd (s : StateChangeManager) (id : String) (fd : Int) :
    Quiet s (s.setFd id fd) := by
  unfold setFd
  cases he : s.stateMap[id]? with
  | none => exact .refl s
  | some e => exact .setEntry he (.same rfl rfl)

theorem quiet_firstFinalStat (s : StateChangeManager) (id : String) (fd : Int) :
    Quiet s (s.firstFinalStat id fd) := by
  unfold firstFinalStat
  cases he : s.stateMap[id]? with
  | none => exact .refl s
  | some e =>
      simp only
      split
      · exact .setEntry he (.move rfl rfl (by simp))
      · exact .setEntry he (.same rfl rfl)

theorem endMonitoringStatus_step (e : StateChangeInitiatorMap) :
    EntryStep False e { e with status := endMonitoringStatus e } := by
  obtain ⟨operation, status, node, planned, fd, balancing⟩ := e
  refine ⟨.inl rfl, ?_, ?_, fun _ => ?_⟩ <;> cases operation <;>
    simp only [endMonitoringStatus] <;> grind [StateChangeStatus.adding]

theorem quiet_handleEndMonitoring (s : StateChangeManager) (id : String) :
    Quiet s (s.handleEndMonitoring id) := by
  unfold handleEndMonitoring
  cases he : s.stateMap[id]? with
  | none => exact .refl s
  | some e => exact .setEntry he (endMonitoringStatus_step e)

theorem transferReplied_step (e : StateChangeInitiatorMap) (reply : TransferReply) :
    EntryStep False e (transferReplied e reply) := by
  obtain ⟨operation, status, node, planned, fd, balancing⟩ := e
  refine ⟨.inl ?_, ?_, ?_, fun _ => ?_⟩ <;> cases reply <;> cases operation <;>
    simp only [transferReplied] <;> grind [StateChangeStatus.adding]

theorem quiet_transferReply (s : StateChangeManager) (id : String) (reply : TransferReply) :
    Quiet s (s.transferReply id reply) := by
  unfold transferReply
  cases he : s.stateMap[id]? with
  | none => exact .refl s
  | some e => exact .setEntry he (transferReplied_step e reply)

theorem quiet_blockReply (s : StateChangeManager) (id : String) (blocked : Bool) :
    Quiet s (s.blockReply id blocked) := by
  unfold blockReply
  cases he : s.stateMap[id]? with
  | none => exact .refl s
  | some e =>
      simp only
      split_ifs
      · exact .setEntry he (.move rfl rfl (by simp))
      · exact .refl s
      · exact .setEntry he (.move rfl rfl (by simp))
      · exact .setEntry he (.same rfl rfl)
      · exact .refl s

theorem replan_step (scanning : Prop) (e' : StateChangeInitiatorMap) (he : s.stateMap[id]? = some e)
    (hadding : e.status.adding = true) (hoperation : e'.operation = e.operation) :
    TableStep scanning s.stateMap (s.replan id e').stateMap ∧ (s.replan id e').pass = s.pass ∧
      ∀ node ∈ (s.replan id e').balancer.healthyNodeList, node ∈ s.balancer.healthyNodeList := by
  simp only [replan]
  split
  · refine ⟨.update he (.add hoperation hadding ?_ ?_), rfl, fun node hnode =>
      ComponentBalancer.mem_healthyNodeList_getNewBalancingForSource hnode⟩
    · simp only
      split_ifs <;> simp
    · simp only
      split_ifs <;> simp
  · exact ⟨.update he (.add hoperation hadding (by simp) (by simp)), rfl, fun _ h => h⟩

theorem quiet_runEntry (s : StateChangeManager) (id : String) : Quiet s (s.runEntry id) := by
  unfold runEntry
  cases he : s.stateMap[id]? with
  | none => exact .refl s
  | some e =>
      simp only
      split
      · split_ifs
        · exact .setEntry he (.move rfl rfl (by simp))
        · refine ⟨.update he (.move rfl rfl (by simp)), rfl, fun node hnode => .inl ?_, fun h => h⟩
          exact ComponentBalancer.healthyNodeList_updateRecoveryDestMap s.balancer _ _ ▸ hnode
      · refine .setEntry he (.move rfl ?_ ?_)
        · simp only
          split_ifs <;> rfl
        · simp only
          split_ifs <;> simp
      · rename_i hstatus
        refine .setEntry he (.add rfl (by rw [hstatus]; rfl) ?_ ?_)
        · simp only
          split_ifs <;> simp
        · simp only
          split_ifs <;> simp
      · rename_i hstatus
        obtain ⟨htable, hpass, hhealthy⟩ := replan_step False
          { e with fd := -1 } he (by rw [hstatus]; rfl) rfl
        exact ⟨htable, by rw [hpass], fun node hnode => .inl (hhealthy node hnode),
          fun h => by rw [hpass]; exact h⟩
      · exact .refl s

theorem quiet_monitorEntries (ids : List String) (s : StateChangeManager) :
    Quiet s (ids.foldl runEntry s) := by
  induction ids generalizing s with
  | nil => exact .refl s
  | cons id ids ih => exact (quiet_runEntry s id).trans (ih (s.runEntry id))

/-- The services that are being added are not about a deletion. -/
def NoneDeleted (stateMap : TreeMap String StateChangeInitiatorMap) (ids : List String) : Prop :=
  ∀ id ∈ ids, ∀ e, stateMap[id]? = some e → e.operation ≠ .nodeDeletion

theorem NoneDeleted.step {scanning : Prop}
    {stateMap stateMap' : TreeMap String StateChangeInitiatorMap} {ids : List String}
    (h : NoneDeleted stateMap ids)
    (hstep : TableStep scanning stateMap stateMap') : NoneDeleted stateMap' ids := by
  intro id hid e' he' hdel
  cases he : stateMap[id]? with
  | none =>
      rw [(hstep.fresh id e' he' he).1] at hdel
      cases hdel
  | some e =>
      obtain ⟨e₁, he₁, hentry⟩ := hstep.entry id e he
      obtain rfl := Option.some.inj (he'.symm.trans he₁)
      exact h id hid e he ((hentry.operation_iff (.inr rfl)).mp hdel)

theorem setNewPlan_step (acc : PlanLists) (p : String × Transfers) :
    TableStep False acc.stateMap (setNewPlan acc p).stateMap ∧
      ∀ id ∈ (setNewPlan acc p).naList, id ∈ acc.naList := by
  unfold setNewPlan
  cases he : acc.stateMap[p.1]? with
  | none => exact ⟨.insertFresh he rfl (by simp [StateChangeInitiatorMap.fresh]), fun _ h => h⟩
  | some e =>
      simp only
      split
      · exact ⟨.update he (.move rfl rfl (by simp)), fun _ h => h⟩
      · exact ⟨.update he (.move rfl rfl (by simp)), fun _ h => h⟩
      · rename_i hdel hrec
        refine ⟨.update he ⟨.inr ⟨hrec, hdel, rfl⟩, by simp, fun h => absurd h hdel, by simp⟩, ?_⟩
        exact fun _ h => List.mem_of_mem_filter h

theorem setStatus_step {stateMap : TreeMap String StateChangeInitiatorMap}
    (h : NoneDeleted stateMap [id]) :
    TableStep False stateMap (setStatus stateMap id .naCompleted) := by
  unfold setStatus
  cases he : stateMap[id]? with
  | none => exact .refl
  | some e =>
      exact .update he ⟨.inl rfl, by simp, fun hdel =>
        absurd hdel (h id List.mem_cons_self e he), by simp⟩

theorem completeUnplanned_step {stateMap : TreeMap String StateChangeInitiatorMap}
    {status : StateChangeStatus} (hadding : status.adding = false)
    (hclosed : status ≠ .recoveryClosed) (id : String) :
    TableStep False stateMap (completeUnplanned status stateMap id) := by
  unfold completeUnplanned
  cases he : stateMap[id]? with
  | none => exact .refl
  | some e =>
      simp only
      split
      · exact .update he (.move rfl hadding hclosed)
      · exact .refl

theorem modifySciMapForNewPlan_step (s : StateChangeManager) (newPlannedMap : InternalPlannedMap)
    {naList : List String} (ndList recList : List String) (h : NoneDeleted s.stateMap naList) :
    TableStep False s.stateMap
      (s.modifySciMapForNewPlan newPlannedMap naList ndList recList).stateMap := by
  have hfold : ∀ (ps : List (String × Transfers)) (acc : PlanLists),
      TableStep False acc.stateMap (ps.foldl setNewPlan acc).stateMap ∧
        ∀ id ∈ (ps.foldl setNewPlan acc).naList, id ∈ acc.naList := by
    intro ps
    induction ps with
    | nil => exact fun acc => ⟨.refl, fun _ h => h⟩
    | cons p ps ih =>
        intro acc
        obtain ⟨hfirst, hids⟩ := setNewPlan_step acc p
        obtain ⟨hrest, hids'⟩ := ih (setNewPlan acc p)
        exact ⟨hfirst.trans hrest, fun id hid => hids id (hids' id hid)⟩
  obtain ⟨hplan, hids⟩ := hfold newPlannedMap.toList ⟨s.stateMap, naList, ndList, recList⟩
  simp only [modifySciMapForNewPlan]
  generalize newPlannedMap.toList.foldl setNewPlan ⟨s.stateMap, naList, ndList, recList⟩ = acc
    at hplan hids ⊢
  have hadded : TableStep False acc.stateMap
      (acc.naList.foldl (fun stateMap id => setStatus stateMap id .naCompleted) acc.stateMap) := by
    refine .foldl (P := fun m => NoneDeleted m naList) (fun m m' hm hstep => hm.step hstep)
      (fun m hm id hid => setStatus_step fun id' hid' => ?_) (h.step hplan)
    rw [List.mem_singleton.mp hid']
    exact hm id (hids id hid)
  have hcomplete : ∀ (status : StateChangeStatus) (ids : List String)
      (m : TreeMap String StateChangeInitiatorMap), status.adding = false →
      status ≠ .recoveryClosed → TableStep False m (ids.foldl (completeUnplanned status) m) :=
    fun status ids m hadding hclosed => .foldl (P := fun _ => True) (fun _ _ _ _ => trivial)
      (fun m _ id _ => completeUnplanned_step hadding hclosed id) trivial
  exact hplan.trans (hadded.trans ((hcomplete .recoveryCompleted _ _ rfl (by simp)).trans
    (hcomplete .ndCompleted _ _ rfl (by simp))))

theorem quiet_planService (s : StateChangeManager) (records : List NodeInfoFileRecord)
    (service : String) (h : NoneDeleted s.stateMap s.pass.naList) :
    Quiet s (s.planService records service) := by
  have hsome : NoneDeleted s.stateMap (ofService service s.pass.naList) := fun id hid =>
    h id (List.mem_of_mem_filter hid)
  have hhealthy : ∀ node ∈ (s.balancer.getNewPlannedMap s.maps records service
      (ofService service s.pass.naList) (ofService service s.pass.ndList)
      (ofService service s.pass.recList)).2.1.healthyNodeList,
      node ∈ s.balancer.healthyNodeList ∨ ∃ id ∈ s.pass.naList, getNodeId id = node := by
    intro node hnode
    rcases ComponentBalancer.mem_healthyNodeList_getNewPlannedMap hnode with hin | ⟨id, hid, heq⟩
    · exact .inl hin
    · exact .inr ⟨id, List.mem_of_mem_filter hid, heq⟩
  simp only [planService]
  split
  · exact .refl s
  · generalize s.balancer.getNewPlannedMap s.maps records service (ofService service s.pass.naList)
      (ofService service s.pass.ndList) (ofService service s.pass.recList) = planned at hhealthy ⊢
    obtain ⟨plan?, balancer, maps⟩ := planned
    cases plan? with
    | some plan =>
        exact ⟨modifySciMapForNewPlan_step _ _ _ _ hsome, rfl, hhealthy, fun h => h⟩
    | none => exact ⟨.refl, rfl, hhealthy, fun h => h⟩

/-- What the lists of a pass say of the entries: a listed service is new, and a service entry to be
deleted is done. -/
structure Listing (s : StateChangeManager) : Prop where
  listed : ∀ id ∈ s.pass.naList, getServiceName id ∈ mergedServices ∧
    ∃ e, s.stateMap[id]? = some e ∧ e.status = .naNew
  pending : ∀ (key : String) operation, s.pass.serviceEntryToBeDeleted[key]? = some operation →
    operation ≠ .nodeRecovery → operation ≠ .nodeDeletion →
      ∃ e, s.stateMap[key]? = some e ∧ (e.status = .naCompleted ∨ e.status = .balancingCompleted)

/-- The lists of a pass say nothing of an entry with this status. -/
def Unlisted (id : String) (status : StateChangeStatus) : Prop :=
  ¬ (status = .naNew ∧ getServiceName id ∈ mergedServices) ∧ status ≠ .naCompleted ∧
    status ≠ .balancingCompleted

theorem unlisted {status : StateChangeStatus} (hstatus : e.status = status)
    (h : status ≠ .naNew ∧ status ≠ .naCompleted ∧ status ≠ .balancingCompleted) (id : String) :
    Unlisted id e.status :=
  hstatus ▸ ⟨fun hnew => h.1 hnew.1, h.2⟩

/-- A part of the scan. -/
structure Scans (s s' : StateChangeManager) : Prop where
  table : TableStep True s.stateMap s'.stateMap
  healthy : s'.balancer.healthyNodeList ⊆ s.balancer.healthyNodeList
  listing : s.Listing → s'.Listing

theorem Scans.refl (s : StateChangeManager) : Scans s s := ⟨.refl, fun _ h => h, id⟩

theorem Scans.trans (h : Scans s s') (h' : Scans s' s'') : Scans s s'' :=
  ⟨h.table.trans h'.table, fun _ hnode => h.healthy (h'.healthy hnode),
    fun hlisting => h'.listing (h.listing hlisting)⟩

theorem Listing.update (h : s.Listing) (he : s.stateMap[id]? = some e)
    (hunlisted : Unlisted id e.status)
    (hmap : ∀ a, a ≠ id → s'.stateMap[a]? = s.stateMap[a]?)
    (hna : s'.pass.naList = s.pass.naList)
    (hdel : s'.pass.serviceEntryToBeDeleted = s.pass.serviceEntryToBeDeleted) : s'.Listing where
  listed a ha := by
    obtain ⟨hservice, e₁, he₁, hnew⟩ := h.listed a (hna ▸ ha)
    refine ⟨hservice, e₁, ?_, hnew⟩
    rw [hmap a, he₁]
    rintro rfl
    obtain rfl := Option.some.inj (he.symm.trans he₁)
    exact hunlisted.1 ⟨hnew, hservice⟩
  pending a operation ha hrec hdeletion := by
    obtain ⟨e₁, he₁, hdone⟩ := h.pending a operation (hdel ▸ ha) hrec hdeletion
    refine ⟨e₁, ?_, hdone⟩
    rw [hmap a, he₁]
    rintro rfl
    obtain rfl := Option.some.inj (he.symm.trans he₁)
    exact hdone.elim hunlisted.2.1 hunlisted.2.2

/-- The entry that is scanned changes, and what the lists say of others does not. -/
theorem Scans.setEntry {s₁ : StateChangeManager} (he : s.stateMap[id]? = some e)
    (hmap : s₁.stateMap = s.stateMap) (hna : s₁.pass.naList = s.pass.naList)
    (hdel : s₁.pass.serviceEntryToBeDeleted = s.pass.serviceEntryToBeDeleted)
    (hhealthy : s₁.balancer.healthyNodeList = s.balancer.healthyNodeList)
    (hunlisted : Unlisted id e.status) (hstep : EntryStep True e e') :
    Scans s (s₁.setEntry id e') where
  table := by
    simp only [StateChangeManager.setEntry, hmap]
    exact .update he hstep
  healthy := fun node hnode => hhealthy ▸ hnode
  listing h := h.update he hunlisted (fun a hne => by
    simp only [StateChangeManager.setEntry, hmap, getElem?_insert_eq]
    exact if_neg fun heq => hne heq.symm) hna hdel

/-- A service entry that is done, or a node, is written down to be deleted. -/
theorem scans_toBeDeleted {key : String} {operation : StateChangeOperation}
    (h : (operation = .nodeRecovery ∨ operation = .nodeDeletion) ∨
      ∃ e, s.stateMap[key]? = some e ∧ (e.status = .naCompleted ∨ e.status = .balancingCompleted)) :
    Scans s (s.toBeDeleted key operation) where
  table := .refl
  healthy := fun _ h => h
  listing hlisting :=
    { listed := hlisting.listed
      pending := fun a operation' ha hrec hdel => by
        rcases getElem?_insertIfNew_eq_some.mp ha with hold | ⟨-, rfl, rfl⟩
        · exact hlisting.pending a operation' hold hrec hdel
        · exact h.resolve_left fun hop => hop.elim hrec hdel }

theorem scans_scanRecoveryNew (he : s.stateMap[id]? = some e) (hstatus : e.status = .recoveryNew) :
    Scans s (s.scanRecoveryNew id e) := by
  have hunlisted := unlisted hstatus (by decide) id
  have hhealthy := s.balancer.healthyNodeList_getTargetNodeForRecovery id
  simp only [scanRecoveryNew]
  cases htarget : s.balancer.getTargetNodeForRecovery id with
  | mk found b =>
      rw [htarget] at hhealthy
      cases found with
      | none => exact .refl s
      | some node =>
          simp only
          split_ifs
          · exact .setEntry he rfl rfl rfl hhealthy hunlisted (.same rfl rfl)
          · exact .setEntry he rfl rfl rfl hhealthy hunlisted (.move rfl rfl (by simp))
          · exact .setEntry he rfl rfl rfl hhealthy hunlisted
              ⟨.inl rfl, by simp, by simp [StateChangeStatus.adding], fun h => absurd trivial h⟩
          · exact .setEntry he rfl rfl rfl hhealthy hunlisted (.same rfl rfl)

theorem scans_scanEntry (expired mounted : List String) (s : StateChangeManager) (id : String) :
    Scans s (scanEntry expired mounted s id) := by
  unfold scanEntry
  cases he : s.stateMap[id]? with
  | none => exact .refl s
  | some e =>
      have hset : ∀ e', Unlisted id e.status → EntryStep True e e' → Scans s (s.setEntry id e') :=
        fun e' hunlisted hstep => .setEntry he rfl rfl rfl rfl hunlisted hstep
      simp only
      split
      · rename_i hstatus
        split_ifs with hmerged hobject
        · refine ⟨.refl, fun _ h => h, fun h => ⟨fun a ha => ?_, h.pending⟩⟩
          rcases List.mem_append.mp ha with ha | ha
          · exact h.listed a ha
          · obtain rfl := List.mem_singleton.mp ha
            exact ⟨hmerged, e, he, hstatus⟩
        · refine hset _ ⟨fun h => hmerged h.2, by simp [hstatus], by simp [hstatus]⟩
            (.add rfl (by rw [hstatus]; rfl) (by simp) (by simp))
        · exact .refl s
      · rename_i hstatus
        exact scans_toBeDeleted (.inr ⟨e, he, .inl hstatus⟩)
      · rename_i hstatus
        have hunlisted := unlisted hstatus (by decide) id
        split_ifs
        · exact .setEntry he rfl rfl rfl rfl hunlisted (.same rfl rfl)
        · exact hset _ hunlisted (.move rfl rfl (by simp))
        · exact hset _ hunlisted (.same rfl rfl)
      · rename_i hstatus
        have hunlisted := unlisted hstatus (by decide) id
        exact .setEntry he rfl rfl rfl rfl hunlisted (.same rfl rfl)
      · exact scans_toBeDeleted (.inl (.inr rfl))
      · rename_i hstatus
        have hunlisted := unlisted hstatus (by decide) id
        exact hset _ hunlisted (.move rfl rfl (by simp))
      · rename_i hstatus
        have hunlisted := unlisted hstatus (by decide) id
        exact .setEntry he rfl rfl rfl rfl hunlisted
          (.add rfl (by rw [hstatus]; rfl) (by simp) (by simp))
      · rename_i hstatus
        have hunlisted := unlisted hstatus (by decide) id
        exact .setEntry he rfl rfl rfl rfl hunlisted (.same rfl rfl)
      · rename_i hstatus
        exact scans_toBeDeleted (.inr ⟨e, he, .inr hstatus⟩)
      · rename_i hstatus
        have hunlisted := unlisted hstatus (by decide) id
        split_ifs
        · exact hset _ hunlisted (.add rfl (by rw [hstatus]; rfl) (by simp) (by simp))
        · exact .refl s
      · rename_i hstatus
        have hunlisted := unlisted hstatus (by decide) id
        obtain ⟨htable, hpass, hhealthy⟩ := replan_step True e he
          (by rw [hstatus]; rfl) rfl
        refine ⟨htable, fun node hnode => hhealthy node hnode, fun h => h.update he hunlisted
          (fun a hne => ?_) (by rw [hpass]) (by rw [hpass])⟩
        simp only [replan]
        split
        · exact (getElem?_insert_eq _ _ _ _).trans (if_neg fun heq => hne heq.symm)
        · exact (getElem?_insert_eq _ _ _ _).trans (if_neg fun heq => hne heq.symm)
      · rename_i hstatus
        exact scans_scanRecoveryNew he hstatus
      · rename_i hstatus
        have hunlisted := unlisted hstatus (by decide) id
        split_ifs
        · exact .setEntry he rfl rfl rfl
            (ComponentBalancer.healthyNodeList_updateRecoveryDestMap s.balancer _ _) hunlisted
            (.move rfl rfl (by simp))
        · exact hset _ hunlisted (.same rfl rfl)
      · rename_i hstatus
        have hunlisted := unlisted hstatus (by decide) id
        split_ifs
        · exact hset _ hunlisted (.move rfl rfl (by simp))
        · exact .refl s
      · rename_i hstatus
        have hunlisted := unlisted hstatus (by decide) id
        exact .setEntry he rfl rfl rfl
          (ComponentBalancer.healthyNodeList_updateRecoveryDestMap s.balancer _ _) hunlisted
          (.move rfl rfl (by simp))
      · rename_i hstatus
        have hunlisted := unlisted hstatus (by decide) id
        split_ifs
        · exact .refl s
        · have hdest : Scans s (s.updateDest id e) := ⟨.refl, fun node hnode =>
            ComponentBalancer.healthyNodeList_updateRecoveryDestMap s.balancer _ _ ▸ hnode,
            fun h => ⟨h.listed, h.pending⟩⟩
          refine hdest.trans ((scans_toBeDeleted (.inl (.inl rfl))).trans
            (.setEntry he rfl rfl rfl rfl hunlisted ⟨.inl rfl, by simp, ?_, by simp⟩))
          simp [StateChangeStatus.adding]
      · exact .refl s

theorem scans_scan {expired mounted : List String} (h : s.scan expired mounted = some s') :
    TableStep True s.stateMap s'.stateMap ∧
      s'.balancer.healthyNodeList ⊆ s.balancer.healthyNodeList ∧ s'.Listing := by
  have hfold : ∀ (ids : List String) (s : StateChangeManager),
      Scans s (ids.foldl (scanEntry expired mounted) s) := by
    intro ids
    induction ids with
    | nil => exact fun s => .refl s
    | cons id ids ih => exact fun s => (scans_scanEntry expired mounted s id).trans (ih _)
  unfold scan at h
  obtain ⟨maps, -, rfl⟩ := Option.map_eq_some_iff.mp h
  have hscans := hfold s.stateMap.keys { s with maps := maps, pass := .start }
  refine ⟨hscans.table, hscans.healthy, ?_⟩
  have hlisting := hscans.listing ⟨by simp [MonitorPass.start], by simp [MonitorPass.start]⟩
  exact ⟨hlisting.listed, hlisting.pending⟩

/-- The services that a state change of a node is entered for. -/
def nodeServices : List String :=
  [containerService, accountService, objectService, accountUpdater, proxyService]

theorem underscore_not_mem_of_nodeServices {service : String} (h : service ∈ nodeServices) :
    '_' ∉ service.toList := by
  simp only [nodeServices, List.mem_cons, List.not_mem_nil, or_false] at h
  rcases h with rfl | rfl | rfl | rfl | rfl <;> decide

/-- What a record of `add_entry_in_map` makes of the entry of its service. -/
def recorded (operation : StateChangeOperation) (status : StateChangeStatus) :
    Option StateChangeInitiatorMap → StateChangeInitiatorMap
  | none => .fresh operation status
  | some e =>
      if (e.operation = .componentBalancing ∨ e.operation = .nodeAddition ∨
          e.operation = .nodeDeletion) ∧ operation = .nodeRecovery then
        { e with operation := .nodeRecovery, status := .recoveryNew, balancingPlanned := false }
      else e

theorem recorded_recorded (operation : StateChangeOperation) (status : StateChangeStatus)
    (e? : Option StateChangeInitiatorMap) :
    recorded operation status (some (recorded operation status e?)) =
      recorded operation status e? := by
  cases e? with
  | none =>
      simp only [recorded, StateChangeInitiatorMap.fresh]
      grind
  | some e =>
      simp only [recorded]
      grind

theorem addRecord_lookup (acc : TreeMap String StateChangeInitiatorMap × Bool)
    (r : String × StateChangeOperation × StateChangeStatus) (id : String) :
    (addRecord acc r).1[id]? =
      if r.1 = id then some (recorded r.2.1 r.2.2 acc.1[id]?) else acc.1[id]? := by
  unfold addRecord
  cases he : acc.1[r.1]? with
  | none =>
      simp only [getElem?_insert_eq]
      by_cases hid : r.1 = id
      · rw [if_pos hid, if_pos hid, ← hid, he]
        rfl
      · rw [if_neg hid, if_neg hid]
  | some e =>
      by_cases hid : r.1 = id
      · rw [if_pos hid, ← hid, he]
        simp only [recorded]
        split
        · simp only [getElem?_insert_eq, if_pos]
        · exact he
      · rw [if_neg hid]
        simp only
        split
        · simp only [getElem?_insert_eq, if_neg hid]
        · rfl

theorem foldl_addRecord_lookup (nodeId : String) (services : List String)
    (operation : StateChangeOperation) (status : StateChangeStatus)
    (acc : TreeMap String StateChangeInitiatorMap × Bool) (id : String) :
    (services.foldl (fun acc service =>
      addRecord acc (getServiceId nodeId service, operation, status)) acc).1[id]? =
      if id ∈ services.map (getServiceId nodeId) then some (recorded operation status acc.1[id]?)
      else acc.1[id]? := by
  induction services generalizing acc with
  | nil => simp
  | cons service services ih =>
      rw [List.foldl_cons, ih, addRecord_lookup]
      by_cases hid : getServiceId nodeId service = id
      · subst hid
        rw [if_pos rfl, recorded_recorded, ite_self]
        simp
      · rw [if_neg hid]
        simp only [List.map_cons, List.mem_cons]
        by_cases hrest : id ∈ services.map (getServiceId nodeId)
        · rw [if_pos hrest, if_pos (.inr hrest)]
        · rw [if_neg hrest, if_neg fun h => h.elim (fun heq => hid heq.symm) hrest]

theorem addRecord_force (acc : TreeMap String StateChangeInitiatorMap × Bool)
    (r : String × StateChangeOperation × StateChangeStatus) :
    (addRecord acc r).2 = acc.2 ∨ (addRecord acc r).2 = true ∧ r.2.1 = .nodeRecovery := by
  unfold addRecord
  split
  · exact .inl rfl
  · split
    · rename_i hchange
      exact .inr ⟨rfl, hchange.2⟩
    · exact .inl rfl

theorem foldl_addRecord_force (nodeId : String) (services : List String)
    (operation : StateChangeOperation) (status : StateChangeStatus)
    (acc : TreeMap String StateChangeInitiatorMap × Bool) :
    (services.foldl (fun acc service =>
        addRecord acc (getServiceId nodeId service, operation, status)) acc).2 = acc.2 ∨
      (services.foldl (fun acc service =>
        addRecord acc (getServiceId nodeId service, operation, status)) acc).2 = true ∧
        operation = .nodeRecovery := by
  induction services generalizing acc with
  | nil => exact .inl rfl
  | cons service services ih =>
      rw [List.foldl_cons]
      rcases ih (addRecord acc (getServiceId nodeId service, operation, status)) with heq | hforce
      · rw [heq]
        exact addRecord_force acc _
      · exact .inr hforce

theorem closeProxy_lookup (stateMap : TreeMap String StateChangeInitiatorMap) (nodeId id : String) :
    (closeProxy stateMap nodeId)[id]? = stateMap[id]? ∨
      id = getServiceId nodeId proxyService ∧ ∃ e, stateMap[id]? = some e ∧
        e.operation = .nodeDeletion ∧ (closeProxy stateMap nodeId)[id]? =
          some { e with operation := .nodeRecovery, status := .recoveryClosed } := by
  unfold closeProxy
  cases he : stateMap[getServiceId nodeId proxyService]? with
  | none => exact .inl rfl
  | some e =>
      simp only
      split
      · rename_i hop
        simp only [getElem?_insert_eq]
        by_cases hid : getServiceId nodeId proxyService = id
        · subst hid
          exact .inr ⟨rfl, e, he, hop, if_pos rfl⟩
        · exact .inl (if_neg hid)
      · exact .inl rfl

/-- The status of an entry that is new in the table. -/
def entryStatus : StateChangeOperation → StateChangeStatus
  | .nodeAddition => .naNew
  | .nodeDeletion => .ndNew
  | .nodeRecovery => .recoveryNew
  | .componentBalancing => .balancingNew

/-- The entries of one state change of a node. -/
structure Enters (nodeId : String) (operation : StateChangeOperation) (s s' : StateChangeManager) :
    Prop where
  others : ∀ id : String, getNodeId id ≠ nodeId → s'.stateMap[id]? = s.stateMap[id]?
  entry : ∀ (id : String) e, s.stateMap[id]? = some e → ∃ e', s'.stateMap[id]? = some e' ∧
    (e' = e ∨ operation = .nodeRecovery ∧
      (∃ service ∈ nodeServices, id = getServiceId nodeId service) ∧ e'.operation = .nodeRecovery ∧
        (e'.status = .recoveryNew ∨ e.operation = .nodeDeletion ∧ e'.status = .recoveryClosed))
  fresh : ∀ (id : String) e', s'.stateMap[id]? = some e' → s.stateMap[id]? = none →
    e'.operation = operation ∧ e'.status = entryStatus operation ∧
      ∃ service ∈ nodeServices, id = getServiceId nodeId service
  pass : s'.pass = s.pass
  balancer : s'.balancer = s.balancer

theorem Enters.refl (nodeId : String) (operation : StateChangeOperation) (s : StateChangeManager) :
    Enters nodeId operation s s where
  others _ _ := rfl
  entry _ e he := ⟨e, he, .inl rfl⟩
  fresh id e' he' hnone := by
    rw [hnone] at he'
    cases he'
  pass := rfl
  balancer := rfl

theorem getNodeId_of_service {nodeId service : String} (h : service ∈ nodeServices) :
    getNodeId (getServiceId nodeId service) = nodeId :=
  getNodeId_getServiceId (underscore_not_mem_of_nodeServices h) nodeId

theorem enters_addEntryInMap (s : StateChangeManager) (nodeId : String) {services : List String}
    (operation : StateChangeOperation) (hservices : services ⊆ nodeServices) :
    Enters nodeId operation s
      (s.addEntryInMap nodeId services operation (entryStatus operation)) := by
  have hids : ∀ id ∈ services.map (getServiceId nodeId),
      ∃ service ∈ nodeServices, id = getServiceId nodeId service := by
    intro id hid
    obtain ⟨service, hservice, rfl⟩ := List.mem_map.mp hid
    exact ⟨service, hservices hservice, rfl⟩
  have hlookup := foldl_addRecord_lookup nodeId services operation (entryStatus operation)
    (s.stateMap, false)
  have hforce := foldl_addRecord_force nodeId services operation (entryStatus operation)
    (s.stateMap, false)
  have hadd : s.addEntryInMap nodeId services operation (entryStatus operation) =
      let acc := services.foldl (fun acc service =>
        addRecord acc (getServiceId nodeId service, operation, entryStatus operation))
        (s.stateMap, false)
      { s with stateMap := if acc.2 then closeProxy acc.1 nodeId else acc.1 } := rfl
  rw [hadd]
  generalize services.foldl (fun acc service => addRecord acc
    (getServiceId nodeId service, operation, entryStatus operation)) (s.stateMap, false) = acc
    at hlookup hforce ⊢
  -- the proxy is closed only by a recovery
  have hfinal : ∀ id : String,
      (if acc.2 then closeProxy acc.1 nodeId else acc.1)[id]? = acc.1[id]? ∨
      id = getServiceId nodeId proxyService ∧ operation = .nodeRecovery ∧ ∃ e,
        acc.1[id]? = some e ∧ e.operation = .nodeDeletion ∧
          (if acc.2 then closeProxy acc.1 nodeId else acc.1)[id]? =
            some { e with operation := .nodeRecovery, status := .recoveryClosed } := by
    intro id
    split
    · rename_i htrue
      have hop : operation = .nodeRecovery := by
        rcases hforce with hfalse | ⟨-, hop⟩
        · rw [htrue] at hfalse
          cases hfalse
        · exact hop
      exact (closeProxy_lookup acc.1 nodeId id).imp_right fun ⟨hid, e, h⟩ => ⟨hid, hop, e, h⟩
    · exact .inl rfl
  have hproxy : ∃ service ∈ nodeServices,
      getServiceId nodeId proxyService = getServiceId nodeId service :=
    ⟨proxyService, by simp [nodeServices], rfl⟩
  refine ⟨fun id hid => ?_, fun id e he => ?_, fun id e' he' hnone => ?_, rfl, rfl⟩
  · have hnot : id ∉ services.map (getServiceId nodeId) := fun hin => by
      obtain ⟨service, hservice, rfl⟩ := hids id hin
      exact hid (getNodeId_of_service hservice)
    rcases hfinal id with heq | ⟨rfl, -⟩
    · exact heq.trans ((hlookup id).trans (if_neg hnot))
    · exact absurd (getNodeId_of_service (by simp [nodeServices])) hid
  · rcases hfinal id with heq | ⟨rfl, hop, e₁, he₁, hdel, heq⟩
    · dsimp only
      rw [heq, hlookup]
      split
      · rename_i hid
        refine ⟨_, rfl, ?_⟩
        rw [he]
        simp only [recorded]
        split
        · rename_i hchange
          exact .inr ⟨hchange.2, hids id hid, rfl, .inl rfl⟩
        · exact .inl rfl
      · exact ⟨e, he, .inl rfl⟩
    · refine ⟨_, heq, .inr ⟨hop, hproxy, rfl, .inr ⟨?_, rfl⟩⟩⟩
      rw [hlookup] at he₁
      split at he₁
      · obtain rfl := Option.some.inj he₁
        rw [he] at hdel
        simp only [recorded] at hdel
        split at hdel
        · cases hdel
        · exact hdel
      · obtain rfl := Option.some.inj (he.symm.trans he₁)
        exact hdel
  · rcases hfinal id with heq | ⟨rfl, hop, e₁, he₁, hdel, -⟩
    · dsimp only at he'
      rw [heq, hlookup] at he'
      split at he'
      · rename_i hid
        rw [hnone] at he'
        obtain rfl := Option.some.inj he'
        exact ⟨rfl, rfl, hids id hid⟩
      · rw [hnone] at he'
        cases he'
    · rw [hlookup] at he₁
      split at he₁
      · rw [hnone] at he₁
        obtain rfl := Option.some.inj he₁
        rw [hop] at hdel
        cases hdel
      · rw [hnone] at he₁
        cases he₁

theorem enters_prepareAndAddEntry (s : StateChangeManager) (nodeId : String)
    (operation : StateChangeOperation) :
    Enters nodeId operation s (s.prepareAndAddEntry nodeId operation) := by
  have hfour : [containerService, accountService, objectService, accountUpdater] ⊆
      nodeServices := by
    simp [nodeServices]
  cases operation with
  | nodeRecovery => exact enters_addEntryInMap s nodeId .nodeRecovery hfour
  | nodeAddition => exact enters_addEntryInMap s nodeId .nodeAddition hfour
  | nodeDeletion =>
      simp only [prepareAndAddEntry]
      split
      · exact enters_addEntryInMap s nodeId .nodeDeletion fun _ h => h
      · exact .refl ..
  | componentBalancing => exact .refl ..

theorem recorded_recovery (e? : Option StateChangeInitiatorMap) :
    (recorded .nodeRecovery .recoveryNew e?).operation = .nodeRecovery := by
  cases e? with
  | none => rfl
  | some e =>
      simp only [recorded]
      cases hop : e.operation <;> simp [hop]

/-- The entries of a recovery of a node with a service that is being deleted close its proxy. -/
theorem addRecord_forces (acc : TreeMap String StateChangeInitiatorMap × Bool) (nodeId : String)
    (services : List String) (service : String) (e : StateChangeInitiatorMap)
    (he : acc.1[getServiceId nodeId service]? = some e) (hdel : e.operation = .nodeDeletion) :
    ((service :: services).foldl (fun acc service =>
      addRecord acc (getServiceId nodeId service, .nodeRecovery, .recoveryNew)) acc).2 = true := by
  have hfirst : (addRecord acc (getServiceId nodeId service, .nodeRecovery, .recoveryNew)).2 =
      true := by
    simp [addRecord, he, hdel]
  rw [List.foldl_cons]
  rcases foldl_addRecord_force nodeId services .nodeRecovery .recoveryNew
    (addRecord acc (getServiceId nodeId service, .nodeRecovery, .recoveryNew)) with heq | ⟨htrue, -⟩
  · exact heq.trans hfirst
  · exact htrue

/-- After the entries of a recovery no service of the node is being deleted, if the entries of a
deletion are those of the services of a node, and that of the proxy is not alone. -/
theorem not_deleted_of_recovery (s : StateChangeManager) {nodeId : String}
    (hids : ∀ (id : String) e, s.stateMap[id]? = some e → e.operation = .nodeDeletion →
      getNodeId id = nodeId → ∃ service ∈ nodeServices, id = getServiceId nodeId service)
    (hproxy : ∀ e, s.stateMap[getServiceId nodeId proxyService]? = some e →
      e.operation = .nodeDeletion →
        ∃ e', s.stateMap[getServiceId nodeId containerService]? = some e' ∧
          e'.operation = .nodeDeletion) {id : String} {e' : StateChangeInitiatorMap}
    (he' : (s.prepareAndAddEntry nodeId .nodeRecovery).stateMap[id]? = some e')
    (hid : getNodeId id = nodeId) : e'.operation ≠ .nodeDeletion := by
  intro hdel
  have hlookup := foldl_addRecord_lookup nodeId
    [containerService, accountService, objectService, accountUpdater] .nodeRecovery .recoveryNew
    (s.stateMap, false)
  have hforces := addRecord_forces (s.stateMap, false) nodeId
    [accountService, objectService, accountUpdater] containerService
  simp only [prepareAndAddEntry, addEntryInMap] at he'
  generalize [containerService, accountService, objectService, accountUpdater].foldl
    (fun acc service => addRecord acc (getServiceId nodeId service, .nodeRecovery, .recoveryNew))
    (s.stateMap, false) = acc at hlookup hforces he'
  -- the entry is one that the records have not touched
  have hacc : acc.1[id]? = some e' := by
    split at he'
    · rcases closeProxy_lookup acc.1 nodeId id with heq | ⟨-, e, -, -, heq⟩
      · exact heq ▸ he'
      · rw [heq] at he'
        obtain rfl := Option.some.inj he'
        cases hdel
    · exact he'
  rw [hlookup] at hacc
  split at hacc
  · obtain rfl := Option.some.inj hacc
    rw [recorded_recovery] at hdel
    cases hdel
  · rename_i hnot
    obtain ⟨service, hservice, rfl⟩ := hids id e' hacc hdel hid
    have hproxyService : service = proxyService := by
      simp only [nodeServices, List.mem_cons, List.not_mem_nil, or_false] at hservice
      by_contra hne
      exact hnot (List.mem_map_of_mem (by simp_all))
    subst hproxyService
    obtain ⟨e, he, hcontainer⟩ := hproxy e' hacc hdel
    rw [if_pos (hforces e he hcontainer)] at he'
    have hsame : acc.1[getServiceId nodeId proxyService]? = some e' := by
      rw [hlookup, if_neg hnot]
      exact hacc
    simp only [closeProxy, hsame, if_pos hdel, getElem?_insert_eq] at he'
    rw [if_pos trivial] at he'
    rw [← Option.some.inj he'] at hdel
    cases hdel

/-- The events of the table other than the scan and the ends of state changes. -/
theorem quiet_step {event : StateChangeEvent} (hstep : s.step event = some s')
    (hentry : ∀ node operation, event ≠ .addEntry node operation)
    (hscan : ∀ expired mounted, event ≠ .scan expired mounted) (hdelete : event ≠ .deleteEntries)
    (h : NoneDeleted s.stateMap s.pass.naList) : Quiet s s' := by
  cases event with
  | addEntry node operation => exact absurd rfl (hentry node operation)
  | scan expired mounted => exact absurd rfl (hscan expired mounted)
  | deleteEntries => exact absurd rfl hdelete
  | startMonitoring id fd => exact Option.some.inj hstep ▸ quiet_startMonitoring s id fd
  | firstCompTransferInfo id transferred fd =>
      exact Option.some.inj hstep ▸
        (quiet_updatePlannedComponents s id transferred).trans (quiet_setFd _ id fd)
  | compTransferInfo id transferred =>
      exact Option.some.inj hstep ▸ quiet_updatePlannedComponents s id transferred
  | firstFinalStat id fd => exact Option.some.inj hstep ▸ quiet_firstFinalStat s id fd
  | endMonitoring id => exact Option.some.inj hstep ▸ quiet_handleEndMonitoring s id
  | transferReply id reply => exact Option.some.inj hstep ▸ quiet_transferReply s id reply
  | blockReply id blocked => exact Option.some.inj hstep ▸ quiet_blockReply s id blocked
  | monitorEntries => exact Option.some.inj hstep ▸ quiet_monitorEntries _ s
  | plan records =>
      simp only [StateChangeManager.step] at hstep
      split at hstep
      · rename_i service rest hphase
        obtain rfl := Option.some.inj hstep
        have hplan := quiet_planService s records service h
        exact ⟨hplan.table, hplan.naList, hplan.healthy, fun h => by rw [hphase] at h; cases h⟩
      · cases hstep

end StateChangeManager

end ObjectStorage.Osm
