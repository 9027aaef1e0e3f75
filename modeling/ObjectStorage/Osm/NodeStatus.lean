import ObjectStorage.Library.Transition
import ObjectStorage.Osm.CompletionReports

/-!
The status that the global leader keeps of each node, and the threads that write it: the handler of
state change messages, the monitor of the heartbeats, the thread of the state table that reports
completions, and the threads that let nodes rejoin. Each takes its steps between those of the
others.
-/

namespace ObjectStorage.Osm

open Std Library

/-- `NodeStatusEnum`. -/
inductive NodeStatus where
  | running | stopping | stop | registered | failed | recovered | retiring | retired | nodeStopping
  | invalidNode | new | retiringFailed | retiredRecovered | inLocalNodeRec | nodeStopped
  | transitionState | rejoining
deriving DecidableEq

inductive NodeMessage where
  | nodeFailover | nodeStop | nodeRetire
deriving DecidableEq

/-- Where the handler stands with a message: the status was read, or the state change is entered. -/
inductive HandlerPoint where
  | failover (status : NodeStatus)
  | failoverEntry
  | stop (status : NodeStatus)
  | stopEntry
  | retire (status : NodeStatus)
  | retireStatus
deriving DecidableEq

/-- A node that `monitor_for_recovery` has found without heartbeats. -/
structure ExpiredNode where
  node : String
  status : NodeStatus
  entered : Bool
deriving DecidableEq

/-- What `check_if_recovery_completed_for_this_node` has found, before it erases the entries. -/
structure Completion where
  node : String
  operation : StateChangeOperation
  status : CompletionStatus
  serviceIds : List String
  reported : Bool
deriving DecidableEq

inductive RejoinPoint where
  | checked | asked | registered
deriving DecidableEq

def CompletionStatus.nodeStatus : CompletionStatus → NodeStatus
  | .recovered => .recovered
  | .nodeStopped => .nodeStopped

/-- `change_status_in_monitoring_component` replaces the status for a node that is retiring. -/
def statusAfter (current status : NodeStatus) : NodeStatus :=
  if current = .retiringFailed ∧ status = .recovered then .retiredRecovered
  else if current = .retiring ∧ status = .nodeStopped then .retired
  else status

namespace StateChangeManager

/-- `check_if_node_can_be_retired`. -/
def checkIfNodeCanBeRetired (s : StateChangeManager) (nodeId : String) : Bool :=
  [containerService, accountService, objectService, accountUpdater, proxyService].all fun service =>
    s.stateMap[getServiceId nodeId service]?.isNone

/-- The end of the loop over the entries to be deleted. -/
def endDeletions (s : StateChangeManager) : StateChangeManager :=
  { s with pass := { s.pass with
    phase := .planning [accountService, containerService, accountUpdater]
    naList := if s.pass.balancingOngoingNa then [] else s.pass.naList
    ndList := if s.pass.balancingOngoingNd then [] else s.pass.ndList } }

end StateChangeManager

structure LeaderThreads where
  states : StateChangeManager
  activeNodeMap : TreeMap String NodeStatus
  handler : Option (String × HandlerPoint)
  expired : Option ExpiredNode
  rejoins : List (String × RejoinPoint)
  deleting : List (String × StateChangeOperation)
  completion : Option Completion

namespace LeaderThreads

def getNodeStatus (s : LeaderThreads) (node : String) : NodeStatus :=
  s.activeNodeMap[node]?.getD .invalidNode

def changeStatusInMemory (s : LeaderThreads) (node : String)
    (status : NodeStatus) : LeaderThreads :=
  match s.activeNodeMap[node]? with
  | some _ => { s with activeNodeMap := s.activeNodeMap.insert node status }
  | none => s

/-- The node info file is written first. -/
def changeStatusInMonitoringComponent (s : LeaderThreads) (node : String) (status : NodeStatus)
    (wrote : Bool) : LeaderThreads × Bool :=
  match s.activeNodeMap[node]? with
  | some current =>
      if wrote then
        ({ s with activeNodeMap := s.activeNodeMap.insert node (statusAfter current status) }, true)
      else (s, false)
  | none => (s, false)

def prepareAndAddEntry (s : LeaderThreads) (node : String) (operation : StateChangeOperation) :
    LeaderThreads :=
  { s with states := s.states.prepareAndAddEntry node operation }

/-- A message comes to the handler, which reads the status of the node first. -/
def receive (s : LeaderThreads) (message : NodeMessage) (node : String) : Option LeaderThreads :=
  if s.handler.isSome then none
  else
    let status := s.getNodeStatus node
    some { s with handler := some (node, match message with
      | .nodeFailover => .failover status
      | .nodeStop => .stop status
      | .nodeRetire => .retire status) }

/-- The next step of the handler. -/
def handle (s : LeaderThreads) (wrote : Bool) : Option LeaderThreads :=
  match s.handler with
  | none => none
  | some (node, .failover status) =>
      if status = .retired ∨ status = .retiredRecovered ∨ status = .invalidNode then
        some { s with handler := none }
      else
        let next := if status = .retiring then .retiringFailed else .failed
        some { (s.changeStatusInMonitoringComponent node next wrote).1 with
          handler := some (node, .failoverEntry) }
  | some (node, .failoverEntry) =>
      some { s.prepareAndAddEntry node .nodeRecovery with handler := none }
  | some (node, .stop status) =>
      if status = .registered then
        some { (s.changeStatusInMonitoringComponent node .nodeStopping wrote).1 with
          handler := some (node, .stopEntry) }
      else some { s with handler := none }
  | some (node, .stopEntry) =>
      some { s.prepareAndAddEntry node .nodeDeletion with handler := none }
  | some (node, .retire status) =>
      if status = .retired ∨ status = .retiredRecovered ∨ status = .invalidNode ∨
          status = .failed then
        some { s with handler := none }
      else if status = .recovered then
        some { (s.changeStatusInMonitoringComponent node .retiredRecovered wrote).1 with
          handler := none }
      else if s.states.checkIfNodeCanBeRetired node then
        some { s.prepareAndAddEntry node .nodeDeletion with handler := some (node, .retireStatus) }
      else some { s with handler := none }
  | some (node, .retireStatus) =>
      some { (s.changeStatusInMonitoringComponent node .retiring wrote).1 with handler := none }

/-- `monitor_for_recovery` finds a node whose last heartbeat is too old. -/
def expire (s : LeaderThreads) (node : String) : Option LeaderThreads :=
  let status := s.getNodeStatus node
  if s.expired.isSome ∨ node ∉ s.activeNodeMap ∨ status = .failed ∨ status = .recovered ∨
      status = .rejoining ∨ status = .retired ∨ status = .nodeStopped then none
  else
    let next := if status = .retiring then .retiringFailed else .failed
    some { s with expired := some ⟨node, next, false⟩ }

/-- The entries of `register_status`. -/
def enterExpired (s : LeaderThreads) : Option LeaderThreads :=
  match s.expired with
  | some e =>
      if e.entered then none
      else some { s.prepareAndAddEntry e.node .nodeRecovery with
        expired := some { e with entered := true } }
  | none => none

/-- The end of `register_status`, and the status in memory. -/
def setExpired (s : LeaderThreads) (wrote : Bool) : Option LeaderThreads :=
  match s.expired with
  | some e =>
      if e.entered then
        some { (if wrote then s.changeStatusInMemory e.node e.status else s) with expired := none }
      else none
  | none => none

/-- A request for a rejoin that passes the check. -/
def rejoin (s : LeaderThreads) (node : String) : Option LeaderThreads :=
  if s.getNodeStatus node = .recovered ∨ s.getNodeStatus node = .nodeStopped then
    some { s with rejoins := s.rejoins ++ [(node, .checked)] }
  else none

/-- The address of the request is compared with the node info file. -/
def markRejoining (s : LeaderThreads) (i : Nat) (matched : Bool) : Option LeaderThreads :=
  match s.rejoins[i]? with
  | some (node, .checked) =>
      if matched then
        some { s.changeStatusInMemory node .rejoining with
          rejoins := s.rejoins.set i (node, .asked) }
      else some { s with rejoins := s.rejoins.eraseIdx i }
  | _ => none

/-- The local leader of the node accepts, or does not, or is not reached. -/
def rejoinReply (s : LeaderThreads) (i : Nat) (accepted wrote : Bool) : Option LeaderThreads :=
  match s.rejoins[i]? with
  | some (node, .asked) =>
      let (registered, success) := s.changeStatusInMonitoringComponent node .registered wrote
      if accepted ∧ success then
        some { registered with rejoins := s.rejoins.set i (node, .registered) }
      else
        some { s.changeStatusInMemory node .recovered with rejoins := s.rejoins.eraseIdx i }
  | _ => none

def enterRejoined (s : LeaderThreads) (i : Nat) : Option LeaderThreads :=
  match s.rejoins[i]? with
  | some (node, .registered) =>
      some { s.prepareAndAddEntry node .nodeAddition with rejoins := s.rejoins.eraseIdx i }
  | _ => none

/-- The next step of the loop over the entries to be deleted, up to the report of a completion. -/
def deleteNext (s : LeaderThreads) : Option LeaderThreads :=
  match s.states.pass.phase, s.completion, s.deleting with
  | .deleting, none, (key, operation) :: rest =>
      match operation with
      | .nodeRecovery | .nodeDeletion =>
          match s.states.completionReport key operation with
          | some status =>
              let serviceIds := (s.states.entriesOfNode key operation).map (·.1)
              some { s with
                deleting := rest
                completion := some ⟨key, operation, status, serviceIds, false⟩ }
          | none => some { s with deleting := rest }
      | _ =>
          some { s with
            deleting := rest
            states := { s.states with stateMap := s.states.stateMap.erase key } }
  | _, _, _ => none

def reportCompletion (s : LeaderThreads) (wrote : Bool) : Option LeaderThreads :=
  match s.completion with
  | some c =>
      if c.reported then none
      else
        some { (s.changeStatusInMonitoringComponent c.node c.status.nodeStatus wrote).1 with
          completion := some { c with reported := true } }
  | none => none

def eraseCompleted (s : LeaderThreads) : Option LeaderThreads :=
  match s.completion with
  | some c =>
      if c.reported then
        some { s with
          completion := none
          states := { s.states with
            stateMap := eraseKeys s.states.stateMap c.serviceIds
            balancer := s.states.balancer.removeEntryFromUnhealthyNodeList c.node } }
      else none
  | none => none

def deletionsDone (s : LeaderThreads) : Option LeaderThreads :=
  match s.states.pass.phase, s.completion, s.deleting with
  | .deleting, none, [] => some { s with states := s.states.endDeletions }
  | _, _, _ => none

/-- The other events of the state table. -/
def table (s : LeaderThreads) (e : StateChangeManager.StateChangeEvent) :
    Option LeaderThreads :=
  match e with
  | .addEntry _ _ | .deleteEntries => none
  | .scan _ _ =>
      (s.states.step e).map fun states =>
        { s with states := states, deleting := states.pass.serviceEntryToBeDeleted.toList }
  | _ => (s.states.step e).map fun states => { s with states := states }

inductive Event where
  | receive (message : NodeMessage) (node : String)
  | handle (wrote : Bool)
  | expire (node : String)
  | enterExpired
  | setExpired (wrote : Bool)
  | rejoin (node : String)
  | markRejoining (i : Nat) (matched : Bool)
  | rejoinReply (i : Nat) (accepted wrote : Bool)
  | enterRejoined (i : Nat)
  | table (e : StateChangeManager.StateChangeEvent)
  | deleteNext
  | reportCompletion (wrote : Bool)
  | eraseCompleted
  | deletionsDone

/-- One step of one thread. Whether the node info file is written is given. -/
def step (s : LeaderThreads) : Event → Option LeaderThreads
  | .receive message node => s.receive message node
  | .handle wrote => s.handle wrote
  | .expire node => s.expire node
  | .enterExpired => s.enterExpired
  | .setExpired wrote => s.setExpired wrote
  | .rejoin node => s.rejoin node
  | .markRejoining i matched => s.markRejoining i matched
  | .rejoinReply i accepted wrote => s.rejoinReply i accepted wrote
  | .enterRejoined i => s.enterRejoined i
  | .table e => s.table e
  | .deleteNext => s.deleteNext
  | .reportCompletion wrote => s.reportCompletion wrote
  | .eraseCompleted => s.eraseCompleted
  | .deletionsDone => s.deletionsDone

/-- The nodes of `get_nodes_status` that are recovered, or retired, when a leader starts. -/
def nodesFailed (statuses : TreeMap String NodeStatus) : List String :=
  (statuses.toList.filter fun e =>
    e.2 = .failed ∨ e.2 = .retiringFailed ∨ e.2 = .nodeStopping).map (·.1)

def nodesRetired (statuses : TreeMap String NodeStatus) : List String :=
  (statuses.toList.filter fun e => e.2 = .retiring).map (·.1)

/-- A plan of the first balancing, with the services that are retired and that have failed. -/
structure FirstPlan where
  newPlannedMap : InternalPlannedMap
  servicesRetired : List String
  servicesFailed : List String

def modifyForFirstPlan (m : StateChangeManager) (p : FirstPlan) : StateChangeManager :=
  m.modifySciMapForNewPlan p.newPlannedMap [] p.servicesRetired p.servicesFailed

/-- The leader when its threads start: the statuses are those of the node info file, and the maps,
the balancer and the plans are what the first balancing of the cluster leaves. -/
def start (statuses : TreeMap String NodeStatus) (maps : ComponentMapManager)
    (balancer : ComponentBalancer) (plans : List FirstPlan) : LeaderThreads where
  states :=
    let m : StateChangeManager := ⟨maps, balancer, ∅, .start⟩
    let m := (nodesFailed statuses).foldl (fun m node => m.prepareAndAddEntry node .nodeRecovery) m
    let m := (nodesRetired statuses).foldl (fun m node => m.prepareAndAddEntry node .nodeDeletion) m
    plans.foldl modifyForFirstPlan m
  activeNodeMap := statuses
  handler := none
  expired := none
  rejoins := []
  deleting := []
  completion := none

open StateChangeManager

theorem changeStatusInMonitoringComponent_eq (s : LeaderThreads) (node : String)
    (status : NodeStatus) (wrote : Bool) :
    (s.changeStatusInMonitoringComponent node status wrote).1 = { s with
      activeNodeMap :=
        (s.changeStatusInMonitoringComponent node status wrote).1.activeNodeMap } := by
  unfold changeStatusInMonitoringComponent
  split
  · split <;> rfl
  · rfl

/-- The steps in which the thread of the table deletes the next entry. -/
def deletionSteps (s : LeaderThreads) (wrote : Bool) : List Event :=
  match s.deleting.head? with
  | some (key, operation) =>
      if (operation = .nodeRecovery ∨ operation = .nodeDeletion) ∧
          (s.states.completionReport key operation).isSome then
        [.deleteNext, .reportCompletion wrote, .eraseCompleted]
      else [.deleteNext]
  | none => []

/-- Where no other thread comes between, the steps do what the table does with one entry. -/
theorem run_deletionSteps {s : LeaderThreads} {d : String × StateChangeOperation}
    {rest : List (String × StateChangeOperation)} (hphase : s.states.pass.phase = .deleting)
    (hnone : s.completion = none) (hdeleting : s.deleting = d :: rest) (wrote : Bool) :
    ∃ s', run step s (s.deletionSteps wrote) = some s' ∧ s'.states = s.states.deleteEntry d ∧
      s'.completion = none ∧ s'.deleting = rest := by
  obtain ⟨key, operation⟩ := d
  have hreported : ∀ status, s.states.completionReport key operation = some status →
      ({ s.states with
        stateMap := eraseKeys s.states.stateMap ((s.states.entriesOfNode key operation).map (·.1))
        balancer := s.states.balancer.removeEntryFromUnhealthyNodeList key } :
          StateChangeManager) =
        s.states.checkIfRecoveryCompletedForThisNode key operation := by
    intro status hreport
    rw [completionReport] at hreport
    rw [checkIfRecoveryCompletedForThisNode]
    split at hreport
    · rw [if_pos ‹_›]
    · cases hreport
  have hunreported : s.states.completionReport key operation = none →
      s.states.checkIfRecoveryCompletedForThisNode key operation = s.states := by
    intro hreport
    rw [completionReport] at hreport
    rw [checkIfRecoveryCompletedForThisNode]
    split at hreport
    · cases hreport
    · rw [if_neg ‹_›]
  by_cases hoperation : operation = .nodeRecovery ∨ operation = .nodeDeletion
  · have hentry : s.states.deleteEntry (key, operation) =
        s.states.checkIfRecoveryCompletedForThisNode key operation := by
      rcases hoperation with rfl | rfl <;> rfl
    rw [hentry]
    cases hreport : s.states.completionReport key operation with
    | some status =>
        have hnext : s.deleteNext = some { s with
            deleting := rest
            completion := some ⟨key, operation, status,
              (s.states.entriesOfNode key operation).map (·.1), false⟩ } := by
          rcases hoperation with rfl | rfl <;>
            simp only [deleteNext, hphase, hnone, hdeleting, hreport]
        simp only [deletionSteps, hdeleting, List.head?_cons, hreport, Option.isSome_some, and_true,
          if_pos hoperation, run_cons, run_nil, step, hnext, Option.bind_some, reportCompletion,
          Bool.false_eq_true, if_false, eraseCompleted, if_true]
        refine ⟨_, rfl, ?_, rfl, ?_⟩
        · rw [changeStatusInMonitoringComponent_eq]
          exact hreported status hreport
        · rw [changeStatusInMonitoringComponent_eq]
    | none =>
        have hnext : s.deleteNext = some { s with deleting := rest } := by
          rcases hoperation with rfl | rfl <;>
            simp only [deleteNext, hphase, hnone, hdeleting, hreport]
        refine ⟨{ s with deleting := rest }, ?_, (hunreported hreport).symm, hnone, rfl⟩
        simp [deletionSteps, hdeleting, hreport, step, hnext]
  · simp only [not_or] at hoperation
    have hnext : s.deleteNext = some { s with
        deleting := rest
        states := { s.states with stateMap := s.states.stateMap.erase key } } := by
      cases operation with
      | nodeRecovery => exact absurd rfl hoperation.1
      | nodeDeletion => exact absurd rfl hoperation.2
      | nodeAddition | componentBalancing => simp only [deleteNext, hphase, hnone, hdeleting]
    have hentry : s.states.deleteEntry (key, operation) =
        { s.states with stateMap := s.states.stateMap.erase key } := by
      cases operation with
      | nodeRecovery => exact absurd rfl hoperation.1
      | nodeDeletion => exact absurd rfl hoperation.2
      | nodeAddition | componentBalancing => rfl
    refine ⟨{ s with
      deleting := rest
      states := { s.states with stateMap := s.states.stateMap.erase key } }, ?_, hentry.symm, hnone,
      rfl⟩
    simp [deletionSteps, hdeleting, hoperation, step, hnext]

theorem pass_deleteEntry (m : StateChangeManager) (d : String × StateChangeOperation) :
    (m.deleteEntry d).pass = m.pass := by
  have hcheck : ∀ operation,
      (m.checkIfRecoveryCompletedForThisNode d.1 operation).pass = m.pass := by
    intro operation
    rw [checkIfRecoveryCompletedForThisNode]
    split <;> rfl
  unfold deleteEntry
  split
  · exact hcheck _
  · exact hcheck _
  · rfl

/-- The uninterrupted steps over all entries do what the table does with them. -/
theorem run_deleteEntries {s : LeaderThreads} (hphase : s.states.pass.phase = .deleting)
    (hnone : s.completion = none)
    (hdeleting : s.deleting = s.states.pass.serviceEntryToBeDeleted.toList) :
    ∃ events s', run step s events = some s' ∧ s'.states = s.states.deleteEntries := by
  have hloop : ∀ (ds : List (String × StateChangeOperation)) (s : LeaderThreads),
      s.states.pass.phase = .deleting → s.completion = none → s.deleting = ds →
      ∃ events s', run step s events = some s' ∧ s'.states = ds.foldl deleteEntry s.states ∧
        s'.completion = none ∧ s'.deleting = [] := by
    intro ds
    induction ds with
    | nil => exact fun s _ hnone hdeleting => ⟨[], s, rfl, rfl, hnone, hdeleting⟩
    | cons d ds ih =>
        intro s hphase hnone hdeleting
        obtain ⟨s₁, hrun₁, hstates₁, hnone₁, hdeleting₁⟩ :=
          run_deletionSteps hphase hnone hdeleting true
        obtain ⟨events, s₂, hrun₂, hstates₂, hnone₂, hdeleting₂⟩ :=
          ih s₁ (by rw [hstates₁, pass_deleteEntry, hphase]) hnone₁ hdeleting₁
        refine ⟨s.deletionSteps true ++ events, s₂, ?_, ?_, hnone₂, hdeleting₂⟩
        · rw [run_append, hrun₁, Option.bind_some, hrun₂]
        · rw [hstates₂, hstates₁, List.foldl_cons]
  obtain ⟨events, s', hrun, hstates, hnone', hdeleting'⟩ := hloop _ s hphase hnone hdeleting
  have hkept : ∀ (ds : List (String × StateChangeOperation)) (m : StateChangeManager),
      (ds.foldl deleteEntry m).pass = m.pass := by
    intro ds
    induction ds with
    | nil => exact fun _ => rfl
    | cons d ds ih => exact fun m => (ih _).trans (pass_deleteEntry m d)
  refine ⟨events ++ [.deletionsDone], { s' with states := s'.states.endDeletions }, ?_, ?_⟩
  · rw [run_append, hrun, Option.bind_some]
    have hphase' : s'.states.pass.phase = .deleting := by rw [hstates, hkept, hphase]
    simp only [run_cons, run_nil, step, deletionsDone, hphase', hnone', hdeleting',
      Option.bind_some]
  · simp only [hstates]
    rfl

end LeaderThreads

end ObjectStorage.Osm
