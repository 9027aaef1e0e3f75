import Mathlib.Data.List.Infix
import ObjectStorage.Osm.Balancing

/-!
The state change table of the global leader: one entry for each service that is added, deleted,
recovered or balanced, the thread that plans for the entries, and the messages that move them on.
-/

namespace ObjectStorage.Osm

open Std Library

inductive StateChangeOperation where
  | nodeAddition | nodeDeletion | nodeRecovery | componentBalancing
deriving DecidableEq

inductive StateChangeStatus where
  | naNew | naCompleted
  | balancingNew | balancingPlanned | balancingInProgress | balancingCompleted | balancingAborted
  | balancingFailed | balancingReschedule
  | recoveryNew | recoveryPlanned | recoveryInProgress | recoveryCompleted | recoveryClosed
  | recoveryFailed | recoveryAborted | recoveryInterrupted
  | ndNew | ndCompleted | ndPlanned | ndFailed | ndAborted | ndInProgress
deriving DecidableEq

def proxyService : String := "proxy-server"

/-- An entry of the table together with its recovery record. -/
structure StateChangeInitiatorMap where
  operation : StateChangeOperation
  status : StateChangeStatus
  destinationNode : String
  plannedMap : Transfers
  fd : Int
  balancingPlanned : Bool
deriving DecidableEq

/-- The entry of a new recovery record. -/
def StateChangeInitiatorMap.fresh (operation : StateChangeOperation) (status : StateChangeStatus) :
    StateChangeInitiatorMap :=
  ⟨operation, status, "", [], -1, false⟩

/-- `remove_from_planned_map`: every moved component takes one equal plan with it. -/
def removeFromPlannedMap : Transfers → Transfers → Transfers
  | [], _ => []
  | p :: planned, moved =>
      if p ∈ moved then removeFromPlannedMap planned (moved.erase p)
      else p :: removeFromPlannedMap planned moved

/-- Where the thread of `monitor_table` stands in its loop. -/
inductive MonitorPhase where
  | scanning
  | deleting
  | planning (services : List String)
deriving DecidableEq

/-- The local variables of `monitor_table`. Its lists for accounts, containers and updaters are
kept in one, and told apart by the names of the services. -/
structure MonitorPass where
  phase : MonitorPhase
  naList : List String
  ndList : List String
  recList : List String
  serviceEntryToBeDeleted : TreeMap String StateChangeOperation
  balancingOngoingNa : Bool
  balancingOngoingNd : Bool

def MonitorPass.start : MonitorPass := ⟨.scanning, [], [], [], ∅, false, false⟩

structure StateChangeManager where
  maps : ComponentMapManager
  balancer : ComponentBalancer
  stateMap : TreeMap String StateChangeInitiatorMap
  pass : MonitorPass

namespace StateChangeManager

def setEntry (s : StateChangeManager) (serviceId : String) (e : StateChangeInitiatorMap) :
    StateChangeManager :=
  { s with stateMap := s.stateMap.insert serviceId e }

def updateDest (s : StateChangeManager) (serviceId : String) (e : StateChangeInitiatorMap) :
    StateChangeManager :=
  let service := getServiceName serviceId
  { s with balancer := s.balancer.updateRecoveryDestMap e.destinationNode service }

/-- The records of `add_entry_in_map`; whether one of them has turned an entry to recovery. -/
def addRecord (acc : TreeMap String StateChangeInitiatorMap × Bool)
    (r : String × StateChangeOperation × StateChangeStatus) :
    TreeMap String StateChangeInitiatorMap × Bool :=
  match acc.1[r.1]? with
  | none => (acc.1.insert r.1 (.fresh r.2.1 r.2.2), acc.2)
  | some e =>
      if (e.operation = .componentBalancing ∨ e.operation = .nodeAddition ∨
          e.operation = .nodeDeletion) ∧ r.2.1 = .nodeRecovery then
        (acc.1.insert r.1 { e with
          operation := .nodeRecovery, status := .recoveryNew, balancingPlanned := false }, true)
      else acc

def closeProxy (stateMap : TreeMap String StateChangeInitiatorMap) (nodeId : String) :
    TreeMap String StateChangeInitiatorMap :=
  match stateMap[getServiceId nodeId proxyService]? with
  | some e =>
      if e.operation = .nodeDeletion then
        stateMap.insert (getServiceId nodeId proxyService)
          { e with operation := .nodeRecovery, status := .recoveryClosed }
      else stateMap
  | none => stateMap

/-- `add_entry_in_map` with all records of one node. -/
def addEntryInMap (s : StateChangeManager) (nodeId : String) (services : List String)
    (operation : StateChangeOperation) (status : StateChangeStatus) : StateChangeManager :=
  let (stateMap, forceChange) := services.foldl (fun acc service =>
    addRecord acc (getServiceId nodeId service, operation, status)) (s.stateMap, false)
  { s with stateMap := if forceChange then closeProxy stateMap nodeId else stateMap }

/-- `prepare_and_add_entry`, with the check of `check_and_add_entry_in_map` for a deletion. -/
def prepareAndAddEntry (s : StateChangeManager) (nodeId : String) :
    StateChangeOperation → StateChangeManager
  | .nodeRecovery => s.addEntryInMap nodeId
      [containerService, accountService, objectService, accountUpdater] .nodeRecovery .recoveryNew
  | .nodeAddition => s.addEntryInMap nodeId
      [containerService, accountService, objectService, accountUpdater] .nodeAddition .naNew
  | .nodeDeletion =>
      let services := [containerService, accountService, objectService, accountUpdater,
        proxyService]
      if services.all fun service => s.stateMap[getServiceId nodeId service]?.isNone then
        s.addEntryInMap nodeId services .nodeDeletion .ndNew
      else s
  | .componentBalancing => s

/-- `RECV_PROC_START_MONITORING` in `update_map`. -/
def startMonitoring (s : StateChangeManager) (serviceId : String) (fd : Int) :
    StateChangeManager :=
  match s.stateMap[serviceId]? with
  | some e => s.setEntry serviceId { e with status := .recoveryInProgress, fd := fd }
  | none => s

/-- `update_planned_components`. -/
def updatePlannedComponents (s : StateChangeManager) (serviceId : String)
    (intermediateState : Transfers) : StateChangeManager :=
  match s.stateMap[serviceId]? with
  | some e =>
      let ((actual, _), maps) :=
        s.maps.updateTransientMap (getServiceName serviceId) intermediateState
      { s with maps := maps }.setEntry serviceId
        { e with plannedMap := removeFromPlannedMap e.plannedMap actual }
  | none => s

def setFd (s : StateChangeManager) (serviceId : String) (fd : Int) : StateChangeManager :=
  match s.stateMap[serviceId]? with
  | some e => s.setEntry serviceId { e with fd := fd }
  | none => s

/-- `COMP_TRANSFER_INFO` in `update_map`. -/
def firstCompTransferInfo (s : StateChangeManager) (serviceId : String) (transferred : Transfers)
    (fd : Int) : StateChangeManager :=
  (s.updatePlannedComponents serviceId transferred).setFd serviceId fd

/-- `COMP_TRANSFER_FINAL_STAT` in `update_map`. -/
def firstFinalStat (s : StateChangeManager) (serviceId : String) (fd : Int) : StateChangeManager :=
  match s.stateMap[serviceId]? with
  | some e =>
      if e.plannedMap ≠ [] ∧ e.operation = .nodeRecovery then
        s.setEntry serviceId { e with status := .recoveryAborted, fd := fd }
      else s.setEntry serviceId { e with fd := fd }
  | none => s

def endMonitoringStatus (e : StateChangeInitiatorMap) : StateChangeStatus :=
  if e.plannedMap = [] then
    match e.operation with
    | .componentBalancing => .balancingCompleted
    | .nodeRecovery => .recoveryCompleted
    | .nodeDeletion => .ndCompleted
    | .nodeAddition => e.status
  else
    match e.operation with
    | .componentBalancing => .balancingAborted
    | .nodeRecovery => .recoveryAborted
    | .nodeDeletion => .ndAborted
    | .nodeAddition => e.status

def handleEndMonitoring (s : StateChangeManager) (serviceId : String) : StateChangeManager :=
  match s.stateMap[serviceId]? with
  | some e => s.setEntry serviceId { e with status := endMonitoringStatus e }
  | none => s

/-- The end of the request that `start_component_transfer` sends. -/
inductive TransferReply where
  | notConnected | failed | succeeded | noService | exception
deriving DecidableEq

def transferReplied (e : StateChangeInitiatorMap) : TransferReply → StateChangeInitiatorMap
  | .notConnected =>
      if e.fd < 0 ∧ e.operation = .componentBalancing then
        { e with status := .balancingPlanned, balancingPlanned := false }
      else if e.fd < 0 ∧ e.operation = .nodeDeletion then
        { e with status := .ndPlanned, balancingPlanned := false }
      else { e with balancingPlanned := false }
  | .failed =>
      match e.operation with
      | .componentBalancing =>
          if e.plannedMap = [] then { e with status := .balancingCompleted }
          else { e with status := .balancingPlanned, balancingPlanned := false }
      | .nodeDeletion =>
          if e.plannedMap = [] then { e with status := .ndCompleted }
          else if e.fd < 0 then { e with status := .ndPlanned, balancingPlanned := false }
          else { e with status := .ndFailed, balancingPlanned := false }
      | _ => e
  | .succeeded =>
      match e.operation with
      | .componentBalancing =>
          if e.plannedMap = [] then { e with status := .balancingCompleted }
          else if e.fd < 0 then { e with status := .balancingReschedule, balancingPlanned := false }
          else if e.fd > 0 then { e with status := .balancingAborted, balancingPlanned := false }
          else e
      | .nodeDeletion =>
          if e.plannedMap = [] then { e with status := .ndCompleted }
          else { e with status := .ndAborted }
      | _ => e
  | .noService => { e with balancingPlanned := false }
  | .exception =>
      if e.status = .balancingPlanned then { e with balancingPlanned := false } else e

def transferReply (s : StateChangeManager) (serviceId : String) (reply : TransferReply) :
    StateChangeManager :=
  match s.stateMap[serviceId]? with
  | some e => s.setEntry serviceId (transferReplied e reply)
  | none => s

/-- The end of the request that `block_service_request` sends. -/
def blockReply (s : StateChangeManager) (serviceId : String) (blocked : Bool) :
    StateChangeManager :=
  match s.stateMap[serviceId]? with
  | some e =>
      if getServiceName serviceId = proxyService ∨ getServiceName serviceId = objectService then
        if blocked then
          if e.operation = .nodeDeletion then s.setEntry serviceId { e with status := .ndCompleted }
          else s
        else if e.operation = .nodeDeletion then
          s.setEntry serviceId { e with status := .ndPlanned, balancingPlanned := false }
        else s.setEntry serviceId { e with balancingPlanned := false }
      else s
  | none => s

/-- A new plan for the rest of an aborted balancing, if one of its destinations is not healthy. -/
def replan (s : StateChangeManager) (serviceId : String) (e : StateChangeInitiatorMap) :
    StateChangeManager :=
  let e := { e with balancingPlanned := false }
  if s.balancer.checkIfNodesAlreadyRecovered (e.plannedMap.map (·.2.serviceId)) then
    let (plan, balancer, maps) := s.balancer.getNewBalancingForSource s.maps
      (getServiceName serviceId) serviceId e.plannedMap
    { s with balancer := balancer, maps := maps }.setEntry serviceId { e with
      plannedMap := plan
      status := if plan = [] then .balancingCompleted else .balancingNew }
  else s.setEntry serviceId { e with status := .balancingPlanned }

def toBeDeleted (s : StateChangeManager) (key : String) (operation : StateChangeOperation) :
    StateChangeManager :=
  let deleted := s.pass.serviceEntryToBeDeleted.insertIfNew key operation
  { s with pass := { s.pass with serviceEntryToBeDeleted := deleted } }

/-- `RECOVERY_NEW` in `monitor_table`. -/
def scanRecoveryNew (s : StateChangeManager) (serviceId : String) (e : StateChangeInitiatorMap) :
    StateChangeManager :=
  match s.balancer.getTargetNodeForRecovery serviceId with
  | (none, _) => s
  | (some destination, balancer) =>
      let service := getServiceName serviceId
      let e := { e with destinationNode := destination }
      let s := { s with balancer := balancer }
      if service ∈ mergedServices then
        { s with pass := { s.pass with recList := s.pass.recList ++ [serviceId] } }.setEntry
          serviceId e
      else if service = objectService then
        s.setEntry serviceId { e with status := .recoveryPlanned }
      else if service = proxyService then s.setEntry serviceId { e with status := .recoveryClosed }
      else s.setEntry serviceId e

/-- The body of the loop of `monitor_table` over the entries: which have timed out and which
journal file systems cannot be unmounted is given. -/
def scanEntry (expired mounted : List String) (s : StateChangeManager) (serviceId : String) :
    StateChangeManager :=
  match s.stateMap[serviceId]? with
  | none => s
  | some e =>
      let service := getServiceName serviceId
      match e.status with
      | .naNew =>
          if service ∈ mergedServices then
            { s with pass := { s.pass with naList := s.pass.naList ++ [serviceId] } }
          else if service = objectService then
            s.setEntry serviceId { e with status := .naCompleted }
          else s
      | .naCompleted => s.toBeDeleted serviceId .nodeAddition
      | .ndNew =>
          let e := { e with balancingPlanned := false }
          if service ∈ mergedServices then
            { s with pass := { s.pass with ndList := s.pass.ndList ++ [serviceId] } }.setEntry
              serviceId e
          else if service = objectService ∨ service = proxyService then
            s.setEntry serviceId { e with status := .ndPlanned }
          else s.setEntry serviceId e
      | .ndPlanned =>
          { s with pass := { s.pass with balancingOngoingNd := true } }.setEntry serviceId
            { e with balancingPlanned := true }
      | .ndCompleted => s.toBeDeleted (getNodeId serviceId) .nodeDeletion
      | .ndAborted => s.setEntry serviceId { e with status := .ndNew }
      | .balancingNew =>
          { s with pass := { s.pass with balancingOngoingNa := true } }.setEntry serviceId
            { e with status := .balancingPlanned }
      | .balancingPlanned =>
          { s with pass := { s.pass with balancingOngoingNa := true } }.setEntry serviceId
            { e with balancingPlanned := true }
      | .balancingCompleted => s.toBeDeleted serviceId .componentBalancing
      | .balancingFailed =>
          if e.fd < 0 then s.setEntry serviceId { e with status := .balancingPlanned } else s
      | .balancingReschedule => s.replan serviceId e
      | .recoveryNew => s.scanRecoveryNew serviceId e
      | .recoveryPlanned =>
          if serviceId ∈ expired ∧ e.balancingPlanned then
            (s.updateDest serviceId e).setEntry serviceId
              { e with status := .recoveryNew, balancingPlanned := false }
          else s.setEntry serviceId { e with balancingPlanned := true }
      | .recoveryInProgress =>
          if serviceId ∈ expired ∧ ¬ (service = containerService ∧ serviceId ∈ mounted) then
            s.setEntry serviceId { e with status := .recoveryFailed }
          else s
      | .recoveryAborted =>
          (s.updateDest serviceId e).setEntry serviceId { e with status := .recoveryNew }
      | .recoveryCompleted =>
          if service = containerService ∧ serviceId ∈ mounted then s
          else ((s.updateDest serviceId e).toBeDeleted (getNodeId serviceId)
            .nodeRecovery).setEntry serviceId { e with status := .recoveryClosed }
      | _ => s

/-- The first part of a pass of `monitor_table`: the merge of the maps when no state change is left,
and the loop over the entries. -/
def scan (s : StateChangeManager) (expired mounted : List String) : Option StateChangeManager :=
  let merged := if s.stateMap.isEmpty ∧ ¬ s.maps.transientMap.isEmpty then
    s.maps.mergeBasicAndTransientMap else some s.maps
  merged.map fun maps =>
    let s := { s with maps := maps, pass := .start }
    let s := s.stateMap.keys.foldl (scanEntry expired mounted) s
    { s with pass := { s.pass with phase := .deleting } }

/-- The status in which all entries of a node are done. -/
def doneStatus : StateChangeOperation → StateChangeStatus
  | .nodeRecovery => .recoveryClosed
  | _ => .ndCompleted

/-- The entries that `check_if_recovery_completed_for_this_node` takes for those of the node: the
name of the node may stand anywhere in the service id. -/
def entriesOfNode (s : StateChangeManager) (nodeName : String) (operation : StateChangeOperation) :
    List (String × StateChangeInitiatorMap) :=
  s.stateMap.toList.filter fun e =>
    nodeName.toList <:+: e.1.toList ∧ e.2.operation = operation

def checkIfRecoveryCompletedForThisNode (s : StateChangeManager) (nodeName : String)
    (operation : StateChangeOperation) : StateChangeManager :=
  let entries := s.entriesOfNode nodeName operation
  if entries.all fun e => e.2.status = doneStatus operation then
    { s with
      stateMap := eraseKeys s.stateMap (entries.map (·.1))
      balancer := s.balancer.removeEntryFromUnhealthyNodeList nodeName }
  else s

def deleteEntry (s : StateChangeManager) (e : String × StateChangeOperation) :
    StateChangeManager :=
  match e.2 with
  | .nodeRecovery | .nodeDeletion => s.checkIfRecoveryCompletedForThisNode e.1 e.2
  | _ => { s with stateMap := s.stateMap.erase e.1 }

/-- The second part of a pass: the entries that are done go, and the lists of a kind that is being
balanced are dropped. -/
def deleteEntries (s : StateChangeManager) : StateChangeManager :=
  let s := s.pass.serviceEntryToBeDeleted.toList.foldl deleteEntry s
  { s with pass := { s.pass with
    phase := .planning [accountService, containerService, accountUpdater]
    naList := if s.pass.balancingOngoingNa then [] else s.pass.naList
    ndList := if s.pass.balancingOngoingNd then [] else s.pass.ndList } }

/-- The lists of services that still need a status after the loop over the new plan. -/
structure PlanLists where
  stateMap : TreeMap String StateChangeInitiatorMap
  naList : List String
  ndList : List String
  recList : List String

/-- The body of the loop of `modify_sci_map_for_new_plan` over the new plan. -/
def setNewPlan (acc : PlanLists) (p : String × Transfers) : PlanLists :=
  match acc.stateMap[p.1]? with
  | some e =>
      let e := { e with plannedMap := p.2, balancingPlanned := false }
      match e.operation with
      | .nodeDeletion =>
          { acc with
            stateMap := acc.stateMap.insert p.1 { e with status := .ndPlanned }
            ndList := acc.ndList.filter (· ≠ p.1) }
      | .nodeRecovery =>
          { acc with
            stateMap := acc.stateMap.insert p.1 { e with status := .recoveryPlanned }
            recList := acc.recList.filter (· ≠ p.1) }
      | _ =>
          { acc with
            stateMap := acc.stateMap.insert p.1
              { e with operation := .componentBalancing, status := .balancingNew }
            naList := acc.naList.filter (· ≠ p.1) }
  | none =>
      let e := StateChangeInitiatorMap.fresh .componentBalancing .balancingNew
      { acc with stateMap := acc.stateMap.insert p.1 { e with plannedMap := p.2 } }

def setStatus (stateMap : TreeMap String StateChangeInitiatorMap) (serviceId : String)
    (status : StateChangeStatus) : TreeMap String StateChangeInitiatorMap :=
  match stateMap[serviceId]? with
  | some e => stateMap.insert serviceId { e with status := status }
  | none => stateMap

/-- A service without a plan has nothing to move. -/
def completeUnplanned (status : StateChangeStatus)
    (stateMap : TreeMap String StateChangeInitiatorMap) (serviceId : String) :
    TreeMap String StateChangeInitiatorMap :=
  match stateMap[serviceId]? with
  | some e =>
      if e.plannedMap = [] then stateMap.insert serviceId { e with status := status } else stateMap
  | none => stateMap

def modifySciMapForNewPlan (s : StateChangeManager) (newPlannedMap : InternalPlannedMap)
    (naList ndList recList : List String) : StateChangeManager :=
  let acc := newPlannedMap.toList.foldl setNewPlan ⟨s.stateMap, naList, ndList, recList⟩
  let stateMap := acc.naList.foldl
    (fun stateMap id => setStatus stateMap id .naCompleted) acc.stateMap
  let stateMap := acc.recList.foldl (completeUnplanned .recoveryCompleted) stateMap
  let stateMap := acc.ndList.foldl (completeUnplanned .ndCompleted) stateMap
  { s with stateMap := stateMap }

def ofService (service : String) (ids : List String) : List String :=
  ids.filter fun id => getServiceName id = service

/-- The plan of one service type at the end of a pass. -/
def planService (s : StateChangeManager) (records : List NodeInfoFileRecord) (service : String) :
    StateChangeManager :=
  let naList := ofService service s.pass.naList
  let ndList := ofService service s.pass.ndList
  let recList := ofService service s.pass.recList
  if naList = [] ∧ ndList = [] ∧ recList = [] then s
  else
    let (plan?, balancer, maps) :=
      s.balancer.getNewPlannedMap s.maps records service naList ndList recList
    let s := { s with balancer := balancer, maps := maps }
    match plan? with
    | some plan => s.modifySciMapForNewPlan plan naList ndList recList
    | none => s

/-- The body of the loop of the monitoring thread over the entries. -/
def runEntry (s : StateChangeManager) (serviceId : String) : StateChangeManager :=
  match s.stateMap[serviceId]? with
  | none => s
  | some e =>
      match e.status with
      | .recoveryFailed =>
          if e.plannedMap = [] then
            s.setEntry serviceId { e with fd := -1, status := .recoveryCompleted }
          else (s.updateDest serviceId e).setEntry serviceId
            { e with fd := -1, status := .recoveryNew }
      | .ndFailed =>
          s.setEntry serviceId { e with
            fd := -1, status := if e.plannedMap = [] then .ndCompleted else .ndPlanned }
      | .balancingFailed =>
          s.setEntry serviceId { e with
            fd := -1, balancingPlanned := false
            status := if e.plannedMap = [] then .balancingCompleted else .balancingPlanned }
      | .balancingAborted => s.replan serviceId { e with fd := -1 }
      | _ => s

/-- What the threads of the global leader do to the table. -/
inductive StateChangeEvent where
  | addEntry (nodeId : String) (operation : StateChangeOperation)
  | startMonitoring (serviceId : String) (fd : Int)
  | firstCompTransferInfo (serviceId : String) (transferred : Transfers) (fd : Int)
  | compTransferInfo (serviceId : String) (transferred : Transfers)
  | firstFinalStat (serviceId : String) (fd : Int)
  | endMonitoring (serviceId : String)
  | transferReply (serviceId : String) (reply : TransferReply)
  | blockReply (serviceId : String) (blocked : Bool)
  | scan (expired mounted : List String)
  | deleteEntries
  | plan (records : List NodeInfoFileRecord)
  | monitorEntries

/-- One event; a pass of `monitor_table` takes its parts in order, with other threads between
them. -/
def step (s : StateChangeManager) : StateChangeEvent → Option StateChangeManager
  | .addEntry nodeId operation => some (s.prepareAndAddEntry nodeId operation)
  | .startMonitoring serviceId fd => some (s.startMonitoring serviceId fd)
  | .firstCompTransferInfo serviceId transferred fd =>
      some (s.firstCompTransferInfo serviceId transferred fd)
  | .compTransferInfo serviceId transferred =>
    some (s.updatePlannedComponents serviceId transferred)
  | .firstFinalStat serviceId fd => some (s.firstFinalStat serviceId fd)
  | .endMonitoring serviceId => some (s.handleEndMonitoring serviceId)
  | .transferReply serviceId reply => some (s.transferReply serviceId reply)
  | .blockReply serviceId blocked => some (s.blockReply serviceId blocked)
  | .scan expired mounted =>
      match s.pass.phase with
      | .scanning => s.scan expired mounted
      | _ => none
  | .deleteEntries =>
      match s.pass.phase with
      | .deleting => some s.deleteEntries
      | _ => none
  | .plan records =>
      match s.pass.phase with
      | .planning (service :: rest) =>
          let s := s.planService records service
          some { s with pass := { s.pass with
            phase := if rest = [] then .scanning else .planning rest } }
      | _ => none
  | .monitorEntries => some (s.stateMap.keys.foldl runEntry s)

end StateChangeManager

end ObjectStorage.Osm
