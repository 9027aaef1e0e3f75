import Std.Data.TreeSet
import Std.Data.TreeSet.Lemmas
import ObjectStorage.Library.Allocation
import ObjectStorage.Osm.InfoRecords
import ObjectStorage.Osm.PlannedTransfers

/-!
The component balancer of the global leader: it computes the share of each healthy service, and
plans transfers from the services that are deleted, have failed or own too much.
-/

namespace ObjectStorage.Osm

open Std Library

/-- `get_service_name`: what follows the last underscore of a service id. -/
def getServiceName (serviceId : String) : String :=
  String.ofList (serviceId.toList.reverse.takeWhile (· ≠ '_')).reverse

/-- `get_node_id` and `get_node_name`: what stands before the last underscore, or all of it. -/
def getNodeId (serviceId : String) : String :=
  if '_' ∈ serviceId.toList then
    String.ofList ((serviceId.toList.reverse.dropWhile (· ≠ '_')).drop 1).reverse
  else serviceId

def getServiceId (nodeId service : String) : String := nodeId ++ "_" ++ service

/-- `sort` and `erase(unique)` of a vector. -/
def sortUnique (xs : List String) : List String := (TreeSet.ofList xs).toList

/-- `push_back` of what `find` does not find. -/
def pushNew (xs : List String) (x : String) : List String := if x ∈ xs then xs else xs ++ [x]

/-- The components listed at a service, and how many it has or is planned to have. -/
abbrev InternalBasicMap := TreeMap String (List Int × Int)

abbrev InternalPlannedMap := TreeMap String Transfers

/-- What `balance_components` says of a service: how many components it has, and how many it is
expected to have. -/
structure Share where
  serviceId : String
  current : Int
  expected : Int
deriving DecidableEq

structure ComponentBalancer where
  healthyNodeList : List String
  unhealthyNodeList : List String
  recoveredNodeList : List String
  listOfServicesForAddition : List String
  listOfServicesForDeletion : List String
  listOfServicesForRecovery : List String
  nodeInfoFileRecords : List NodeInfoFileRecord
  nodeRecoveryDestMap : TreeMap String (List String)
  totalNoOfComponents : Int

/-- `get_service_info` from the records of the node info file; the last record of the node wins. -/
def getServiceInfo (records : List NodeInfoFileRecord) (serviceId : String) : ComponentInfoRecord :=
  let service := getServiceName serviceId
  let (ip, port) := records.foldl (fun (found : String × Int) r =>
    if r.nodeId = getNodeId serviceId then
      (r.nodeIp,
        if service = containerService then r.containerServicePort.toInt
        else if service = accountService then r.accountServicePort.toInt
        else if service = accountUpdater then r.accountUpdaterServicePort.toInt
        else found.2)
    else found) ("", -1)
  ⟨serviceId, ip, port⟩

namespace ComponentBalancer

def removeValueFromInternalBasicMap (map : InternalBasicMap) (component : Int) : InternalBasicMap :=
  map.map fun _ (list, count) =>
    if component ∈ list then (list.erase component, count - 1) else (list, count)

def addEntryInInternalBasicMap (map : InternalBasicMap) (component : Int) (serviceId : String) :
    InternalBasicMap :=
  match map[serviceId]? with
  | some (list, count) => map.insert serviceId (list ++ [component], count + 1)
  | none => map.insert serviceId ([component], 1)

def prepareInternalBasicMap (m : ComponentMapManager) (service : String) : InternalBasicMap :=
  match m.basicMap[service]? with
  | some (owners, _) => owners.zipIdx.foldl (fun map (owner, component) =>
      addEntryInInternalBasicMap map component owner.serviceId) ∅
  | none => ∅

def mergeTransientIntoInternalBasicMap (m : ComponentMapManager) (service : String)
    (map : InternalBasicMap) : InternalBasicMap :=
  (m.transfersFor service).foldl (fun map (component, owner) =>
    addEntryInInternalBasicMap (removeValueFromInternalBasicMap map component) component
      owner.serviceId) map

/-- A service that is planned to get its first component. -/
def addService (map : InternalBasicMap) (serviceId : String) : InternalBasicMap :=
  map.insertIfNew serviceId ([], 0)

/-- The loop of `merge_planned_into_internal_basic_map` over the services, for one planned
component. Services that it adds on the way have no components. -/
def mergePlannedAt (b : ComponentBalancer) (service : String) (planned : Int × ComponentInfoRecord)
    (acc : InternalBasicMap × ComponentMapManager) (owner : String) :
    InternalBasicMap × ComponentMapManager :=
  match acc.1[owner]? with
  | some (list, count) =>
      if planned.1 ∈ list then
        if owner ∈ b.listOfServicesForRecovery ∨ owner ∈ b.listOfServicesForDeletion then
          (addService acc.1 planned.2.serviceId,
            (acc.2.removeEntryFromGlobalPlannedMap service planned.1).2)
        else
          let map := (addService acc.1 planned.2.serviceId).insert owner
            (list.erase planned.1, count - 1)
          (map.modify planned.2.serviceId fun (list, count) => (list, count + 1), acc.2)
      else acc
  | none => acc

def mergePlannedEntry (b : ComponentBalancer) (service : String)
    (acc : InternalBasicMap × ComponentMapManager) (planned : Int × ComponentInfoRecord) :
    InternalBasicMap × ComponentMapManager :=
  if planned.2.serviceId ∈ b.unhealthyNodeList.map (getServiceId · service) then
    (acc.1, (acc.2.removeEntryFromGlobalPlannedMap service planned.1).2)
  else acc.1.keys.foldl (b.mergePlannedAt service planned) acc

/-- The planned map is a copy made earlier: the loop removes entries from the manager's own. -/
def mergePlannedIntoInternalBasicMap (b : ComponentBalancer) (service : String)
    (origPlanned : Transfers) (map : InternalBasicMap) (m : ComponentMapManager) :
    InternalBasicMap × ComponentMapManager :=
  origPlanned.foldl (b.mergePlannedEntry service) (map, m)

/-- The shares given so far, and the components that are over when all get the same. -/
structure Shares where
  unbalanced : Int
  sources : List Share
  destinations : List Share

def Shares.expected (acc : Shares) (perNode : Int) : Int :=
  if acc.unbalanced > 0 then perNode + 1 else perNode

def Shares.rest (acc : Shares) : Int :=
  if acc.unbalanced > 0 then acc.unbalanced - 1 else acc.unbalanced

/-- The part of `balance_components` for a service of the internal basic map. -/
def shareExisting (b : ComponentBalancer) (existing : List String) (plannedEmpty : Bool)
    (perNode : Int) (acc : Shares) (e : String × List Int × Int) : Shares :=
  let (serviceId, _, current) := e
  if serviceId ∈ b.listOfServicesForDeletion ∨ serviceId ∈ b.listOfServicesForRecovery then
    { acc with sources := acc.sources ++ [⟨serviceId, current, 0⟩] }
  else if serviceId ∈ existing then
    let share : Share := ⟨serviceId, current, acc.expected perNode⟩
    if share.current > share.expected then
      { acc with
        unbalanced := acc.rest
        sources := if plannedEmpty then acc.sources ++ [share] else acc.sources }
    else if share.current < share.expected then
      { acc with unbalanced := acc.rest, destinations := acc.destinations ++ [share] }
    else { acc with unbalanced := acc.rest }
  else acc

def shareNew (perNode : Int) (acc : Shares) (serviceId : String) : Shares :=
  { acc with
    unbalanced := acc.rest
    destinations := acc.destinations ++ [⟨serviceId, 0, acc.expected perNode⟩] }

/-- The healthy services that have a place in the internal basic map. -/
def existingHealthyServices (b : ComponentBalancer) (service : String) (map : InternalBasicMap) :
    List String :=
  (b.healthyNodeList.map (getServiceId · service)).filter (· ∈ map)

def newHealthyServices (b : ComponentBalancer) (service : String) (map : InternalBasicMap) :
    List String :=
  sortUnique ((b.healthyNodeList.map (getServiceId · service)).filter (· ∉ map) ++
    b.listOfServicesForAddition)

/-- The shares, or nothing when there is no healthy node or not all components are shared out. -/
def balanceComponents (b : ComponentBalancer) (service : String) (map : InternalBasicMap)
    (m : ComponentMapManager) : Option Shares :=
  let nodes : Int := b.healthyNodeList.length
  if nodes = 0 then none
  else
    let perNode := b.totalNoOfComponents.tdiv nodes
    let acc := map.toList.foldl (b.shareExisting (b.existingHealthyServices service map)
      (m.isGlobalPlannedEmpty service) perNode) ⟨b.totalNoOfComponents.tmod nodes, [], []⟩
    let acc := (b.newHealthyServices service map).foldl (shareNew perNode) acc
    if acc.unbalanced ≠ 0 then none else some acc

/-- The `while` loop of `transfer_components` for a source and a destination: the components that
move, those that are left, and what it makes of the two shares. -/
def transferWhile (source destination : Share) : List Int → List Int × List Int × Share × Share
  | [] => ([], [], source, destination)
  | component :: list =>
      if source.current ≠ source.expected ∧ destination.current ≠ destination.expected then
        let rest := transferWhile { source with current := source.current - 1 }
          { destination with current := destination.current + 1 } list
        (component :: rest.1, rest.2)
      else ([], component :: list, source, destination)

/-- The loop of `transfer_components` over the destinations of one source. -/
def transferFrom (records : List NodeInfoFileRecord) (source : Share) (list : List Int) :
    List Share → Transfers × List Int × List Share
  | [] => ([], list, [])
  | destination :: destinations =>
      if source.current = source.expected then ([], list, destination :: destinations)
      else if destination.current = destination.expected then
        let rest := transferFrom records source list destinations
        (rest.1, rest.2.1, destination :: rest.2.2)
      else
        let (moved, left, source, after) := transferWhile source destination list
        let rest := transferFrom records source left destinations
        (moved.map (·, getServiceInfo records destination.serviceId) ++ rest.1, rest.2.1,
          after :: rest.2.2)

def addPlanned (service : String) (m : ComponentMapManager) (e : Int × ComponentInfoRecord) :
    ComponentMapManager :=
  m.addEntryInGlobalPlannedMap service e.1 e.2

/-- The loop of `transfer_components` over the sources. -/
def transferAll (records : List NodeInfoFileRecord) (service : String) :
    List Share → List Share → InternalBasicMap → InternalPlannedMap × ComponentMapManager →
      InternalPlannedMap × ComponentMapManager
  | [], _, _, acc => acc
  | source :: sources, destinations, map, (plan, m) =>
      match map[source.serviceId]? with
      | none => (plan, m)
      | some (list, count) =>
          if list = [] ∨ source.current = source.expected then
            transferAll records service sources destinations map (plan, m)
          else
            let (moved, left, destinations) := transferFrom records source list destinations
            transferAll records service sources destinations
              (map.insert source.serviceId (left, count - moved.length))
              (if moved = [] then plan
                else plan.insert source.serviceId (plan[source.serviceId]?.getD [] ++ moved),
              moved.foldl (addPlanned service) m)

def prepareBasicMap (m : ComponentMapManager) (service : String)
    (records : List ComponentInfoRecord) : ComponentMapManager :=
  { m with
    basicMap := m.basicMap.insert service (records, 1 / 10)
    globalMapVersion := m.globalMapVersion + 1 }

/-- The first services of the cluster share out the components among themselves. -/
def firstComponents (records : List NodeInfoFileRecord) (service : String)
    (acc : List ComponentInfoRecord × ComponentMapManager) (destination : Share) :
    List ComponentInfoRecord × ComponentMapManager :=
  let owners := acc.1 ++ List.replicate (destination.expected - destination.current).toNat
    (getServiceInfo records destination.serviceId)
  (owners, (prepareBasicMap acc.2 service owners).writeInComponentFile service)

def transferComponents (b : ComponentBalancer) (service : String) (map : InternalBasicMap)
    (shares : Shares) (m : ComponentMapManager) : InternalPlannedMap × ComponentMapManager :=
  if map.isEmpty ∧ shares.sources = [] then
    (∅, (shares.destinations.foldl (firstComponents b.nodeInfoFileRecords service) ([], m)).2)
  else
    transferAll b.nodeInfoFileRecords service shares.sources shares.destinations map (∅, m)

def addNode (b : ComponentBalancer) (serviceId : String) : ComponentBalancer :=
  { b with
    unhealthyNodeList := b.unhealthyNodeList.erase (getNodeId serviceId)
    recoveredNodeList := b.recoveredNodeList.erase (getNodeId serviceId)
    healthyNodeList := pushNew b.healthyNodeList (getNodeId serviceId) }

/-- The node of a service that is deleted or has failed. -/
def retireNode (b : ComponentBalancer) (serviceId : String) : ComponentBalancer :=
  { b with
    unhealthyNodeList := pushNew b.unhealthyNodeList (getNodeId serviceId)
    healthyNodeList := b.healthyNodeList.erase (getNodeId serviceId) }

/-- The node lists that `get_new_planned_map` works with, after the services it is given. -/
def withServices (b : ComponentBalancer) (records : List NodeInfoFileRecord)
    (nodeAddition nodeDeletion nodeRecovery : List String) : ComponentBalancer :=
  let b := { b with
    listOfServicesForAddition := sortUnique nodeAddition
    listOfServicesForDeletion := sortUnique nodeDeletion
    listOfServicesForRecovery := sortUnique nodeRecovery
    nodeInfoFileRecords :=
      if nodeAddition = [] then b.nodeInfoFileRecords else b.nodeInfoFileRecords ++ records }
  let b := b.listOfServicesForAddition.foldl addNode b
  let b := b.listOfServicesForDeletion.foldl retireNode b
  let b := b.listOfServicesForRecovery.foldl retireNode b
  { b with
    unhealthyNodeList := sortUnique b.unhealthyNodeList
    healthyNodeList := sortUnique b.healthyNodeList }

/-- `get_new_planned_map`: the plan of each source, if the components can be balanced. The records
are those of the node info file. -/
def getNewPlannedMap (b : ComponentBalancer) (m : ComponentMapManager)
    (records : List NodeInfoFileRecord) (service : String)
    (nodeAddition nodeDeletion nodeRecovery : List String) :
    Option InternalPlannedMap × ComponentBalancer × ComponentMapManager :=
  let b := b.withServices records nodeAddition nodeDeletion nodeRecovery
  let map := mergeTransientIntoInternalBasicMap m service (prepareInternalBasicMap m service)
  let (map, m) := b.mergePlannedIntoInternalBasicMap service (m.plannedFor service) map m
  let b := { b with
    listOfServicesForAddition := b.listOfServicesForAddition.filter (· ∉ map) }
  match b.balanceComponents service map m with
  | none => (none, b, m)
  | some shares =>
      let (plan, m) := b.transferComponents service map shares m
      (some plan, b, m)

/-- `check_if_nodes_already_recovered`. -/
def checkIfNodesAlreadyRecovered (b : ComponentBalancer) (services : List String) : Bool :=
  services.any fun serviceId =>
    getNodeId serviceId ∈ b.unhealthyNodeList ∨ getNodeId serviceId ∈ b.recoveredNodeList

def removePlanned (service : String) (m : ComponentMapManager) (e : Int × ComponentInfoRecord) :
    ComponentMapManager :=
  (m.removeEntryFromGlobalPlannedMap service e.1).2

/-- A new plan for one source. The lists of services are still those of the last
`get_new_planned_map` when the planned map is merged, and are cleared after that. -/
def getNewBalancingForSource (b : ComponentBalancer) (m : ComponentMapManager) (service : String)
    (source : String) (plannedComponents : Transfers) :
    Transfers × ComponentBalancer × ComponentMapManager :=
  let origPlanned := m.plannedFor service
  let m := plannedComponents.foldl (removePlanned service) m
  let map := mergeTransientIntoInternalBasicMap m service (prepareInternalBasicMap m service)
  let (map, m) := b.mergePlannedIntoInternalBasicMap service origPlanned map m
  let b := { b with
    listOfServicesForAddition := []
    listOfServicesForDeletion := []
    listOfServicesForRecovery := []
    healthyNodeList := sortUnique b.healthyNodeList }
  match b.balanceComponents service map m with
  | none => ([], b, m)
  | some shares =>
      let shares := { shares with sources := shares.sources.filter (·.serviceId = source) }
      let (plan, m) := b.transferComponents service map shares m
      (plan[source]?.getD [], b, m)

/-- The first healthy node, other than the service's own, that hosts no recovery of its kind. -/
def getTargetNodeForRecovery (b : ComponentBalancer) (serviceId : String) :
    Option String × ComponentBalancer :=
  let service := getServiceName serviceId
  let candidates := b.healthyNodeList.filter (· ≠ getNodeId serviceId)
  match candidates.find? fun node => service ∉ (b.nodeRecoveryDestMap[node]?.getD []) with
  | some node =>
      let services := b.nodeRecoveryDestMap[node]?.getD [] ++ [service]
      (some node, { b with nodeRecoveryDestMap := b.nodeRecoveryDestMap.insert node services })
  | none => (none, b)

def updateRecoveryDestMap (b : ComponentBalancer) (node service : String) : ComponentBalancer :=
  match b.nodeRecoveryDestMap[node]? with
  | some services =>
      if service ∈ services then
        let left := services.filter (· ≠ service)
        { b with nodeRecoveryDestMap :=
            if left = [] then b.nodeRecoveryDestMap.erase node
            else b.nodeRecoveryDestMap.insert node left }
      else b
  | none => b

def removeEntryFromUnhealthyNodeList (b : ComponentBalancer) (node : String) : ComponentBalancer :=
  { b with
    unhealthyNodeList := b.unhealthyNodeList.filter (· ≠ node)
    recoveredNodeList := sortUnique (b.recoveredNodeList ++ [node]) }

end ComponentBalancer

end ObjectStorage.Osm
