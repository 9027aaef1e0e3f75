import Mathlib
import ObjectStorage.Library.Transition
import ObjectStorage.Osm.NodeStatus

/-!
The thread of the global leader that looks for failed nodes (`monitoring.cpp`): the monitoring mutex
that it locks and unlocks by hand, and the flag that a cluster recovery is in progress. Other
threads change the node map while the thread does not hold the mutex.
-/

namespace ObjectStorage.Osm.FailureDetector

open Library

abbrev NodeId := List Char

structure HealthMonitoringRecord where
  lastUpdatedTime : Int
  timeout : Int
  status : NodeStatus
  /-- `NOT_READABILITY` in the record. -/
  readable : Bool
deriving DecidableEq

/-- What comes of the message to the global leader itself. -/
inductive Delivery where
  | notConnected | failed | sent
deriving DecidableEq

/-- The statement that comes next. The loop over the nodes knows the node it was at and the healthy
nodes it has counted. -/
inductive Point where
  | begin
  | iterate
  | loop (current : Option NodeId) (healthy : Nat)
  | registering (node : NodeId) (status : NodeStatus) (healthy : Nat)
  | registered (node : NodeId) (status : NodeStatus) (reg : Bool) (healthy : Nat)
  | counting
  /-- The start of `initiate_cluster_recovery`. -/
  | scanning
  | judging (failedNodeCount : Nat)
  | moving
  | sending
  | resetting
  | setting
  | sleeping120
  /-- The last `mtx.unlock()` of an iteration. -/
  | unlocking
  | sleeping5
  | closed
deriving DecidableEq

/-- `depth` counts the locks that the thread holds of the recursive mutex. `misused` says that it
has unlocked the mutex without one, and `recovering` that a message to start a cluster recovery was
sent and nothing was reset since. -/
structure Detector where
  activeNodeMap : List (NodeId × HealthMonitoringRecord)
  depth : Nat := 0
  misused : Bool := false
  identificationCount : Nat := 0
  inProgress : Bool := false
  recovering : Bool := false
  systemStop : Bool := false
  unknownStatusNodes : List NodeId := []
  totallyFailedNodeList : List NodeId := []
  stoppingNodes : List NodeId := []
  point : Point := .begin

/-- What is not the thread's own doing: times, the answers of the file system and of the calls it
makes, and the other threads. The stop file is looked up to three times for a node. -/
inductive Event where
  | begin (now : Int)
  | visit (now : Int) (stopFile₁ stopFile₂ stopFile₃ : Bool)
  | registerStatus (reg : Bool)
  | scan (uninitialized : Nat)
  | connect (delivery : Delivery)
  | next
  | interrupt
  | setNode (node : NodeId) (record : HealthMonitoringRecord)
  | eraseNode (node : NodeId)
  | reset
deriving DecidableEq

/-- The entries of a `std::map` with another value for a key, or a new key in its place. -/
def setEntry (m : List (NodeId × HealthMonitoringRecord)) (node : NodeId)
    (record : HealthMonitoringRecord) : List (NodeId × HealthMonitoringRecord) :=
  m.takeWhile (fun e => e.1 < node) ++ (node, record) :: m.dropWhile (fun e => e.1 ≤ node)

namespace Detector

variable (s : Detector)

def lock : Detector := { s with depth := s.depth + 1 }

/-- An unlock of a mutex that the thread does not hold does nothing to it. -/
def unlock : Detector :=
  if s.depth = 0 then { s with misused := true } else { s with depth := s.depth - 1 }

/-- Where the iterator of the loop goes next. -/
def nextNode (current : Option NodeId) : Option (NodeId × HealthMonitoringRecord) :=
  s.activeNodeMap.find? fun e => current.all fun c => c < e.1

def setStatus (node : NodeId) (status : NodeStatus) : Detector :=
  { s with
    activeNodeMap := s.activeNodeMap.map fun e =>
      if e.1 = node then (e.1, { e.2 with status := status }) else e }

/-- The records that may be set as failed. -/
def expired (now : Int) (r : HealthMonitoringRecord) : Bool :=
  r.timeout < now - r.lastUpdatedTime ∧ r.status ≠ .failed ∧ r.status ≠ .recovered ∧
    r.status ≠ .rejoining ∧ r.status ≠ .retired ∧ r.status ≠ .nodeStopped ∧ s.inProgress = false

def healthy (r : HealthMonitoringRecord) : Bool :=
  r.status = .registered ∨ r.status = .transitionState ∨ r.status = .rejoining

/-- The body of the loop of `monitor_for_recovery` for one node, and its end. -/
def visit (current : Option NodeId) (count : Nat) (now : Int)
    (stopFile₁ stopFile₂ stopFile₃ : Bool) : Detector :=
  match s.nextNode current with
  | none =>
    if count = 0 ∧ s.activeNodeMap ≠ [] then { s.unlock with point := .counting }
    else { s with point := .unlocking }
  | some (node, r) =>
    if s.expired now r then
      if !s.systemStop && stopFile₁ then
        { s with systemStop := true, point := .loop (some node) count }
      else if !s.systemStop && !stopFile₂ then
        let status := if r.status = .retiring then .retiringFailed else .failed
        { s.unlock with point := .registering node status count }
      else
        { s with
          systemStop := if stopFile₃ then s.systemStop else false
          point := .loop (some node) count }
    else { s with point := .loop (some node) (if healthy r then count + 1 else count) }

/-- The body of `reset_cluster_recovery_details`. -/
def clearDetails : Detector :=
  { s with
    identificationCount := 0
    inProgress := false
    recovering := false
    activeNodeMap := s.activeNodeMap.map fun e =>
      if e.1 ∈ s.unknownStatusNodes ∧ e.2.status = .transitionState then
        (e.1, { e.2 with status := .failed })
      else e
    unknownStatusNodes := []
    stoppingNodes := []
    totallyFailedNodeList := [] }

def resetClusterRecoveryDetails : Detector := s.lock.clearDetails.unlock

/-- A record that the loop of `initiate_cluster_recovery` counts as failed. -/
def countsAsFailed (r : HealthMonitoringRecord) : Bool :=
  r.status = .failed ∨ r.status = .recovered ∨ r.status = .nodeStopping

/-- `failed_node_count` starts with what is in its place: a `size_t` is never set before. -/
def initiateClusterRecovery (uninitialized : Nat) : Detector :=
  let s := s.lock
  if s.activeNodeMap.any fun e => e.2.status = .rejoining then
    -- a node is rejoining: return without an unlock
    { s with totallyFailedNodeList := [], unknownStatusNodes := [], point := .unlocking }
  else
    let failed := s.activeNodeMap.filter fun e => countsAsFailed e.2
    let (readable, unreadable) := failed.partition fun e => e.2.readable
    let s := { s with
      unknownStatusNodes := s.unknownStatusNodes ++ readable.map Prod.fst
      totallyFailedNodeList := s.totallyFailedNodeList ++ unreadable.map Prod.fst }
    { s.unlock with point := .judging ((uninitialized + failed.length) % 2 ^ 64) }

/-- After the loop. -/
def judge (failedNodeCount : Nat) : Detector :=
  if s.unknownStatusNodes = [] then
    { s with totallyFailedNodeList := [], unknownStatusNodes := [], point := .unlocking }
  else if s.unknownStatusNodes.length = failedNodeCount ∨ 1 < s.identificationCount then
    { s with point := .moving }
  else
    { s with totallyFailedNodeList := [], unknownStatusNodes := [], point := .sleeping120 }

def moveToTransitionState : Detector :=
  let s := s.lock
  let s := s.unknownStatusNodes.foldl (fun s node => s.setStatus node .transitionState) s
  { s.unlock with point := .sending }

/-- The steps of the thread that nothing from outside decides. -/
def next : Option Detector :=
  match s.point with
  | .iterate => some { s.lock with point := .loop none 0 }
  | .registered node status reg healthy =>
    let s := s.lock
    some { (if reg then s.setStatus node status else s) with point := .loop (some node) healthy }
  | .counting =>
    some { s with identificationCount := s.identificationCount + 1, point := .scanning }
  | .judging failedNodeCount => some (s.judge failedNodeCount)
  | .moving => some s.moveToTransitionState
  | .resetting => some { s.resetClusterRecoveryDetails with point := .setting }
  | .setting =>
    some { s with identificationCount := 0, inProgress := true, point := .unlocking }
  | .sleeping120 => some { s with point := .unlocking }
  | .unlocking => some { s.unlock with point := .sleeping5 }
  | .sleeping5 => some { s with point := .iterate }
  | _ => none

/-- The node whose record the thread refers to while it does not hold the mutex. -/
def referred : Option NodeId :=
  match s.point with
  | .registering node _ _ | .registered node _ _ _ => some node
  | _ => none

end Detector

def step (s : Detector) : Event → Option Detector
  | .begin now =>
    if s.point = .begin then
      some { s with
        activeNodeMap := s.activeNodeMap.map fun e => (e.1, { e.2 with lastUpdatedTime := now })
        point := .iterate }
    else none
  | .visit now stopFile₁ stopFile₂ stopFile₃ =>
    match s.point with
    | .loop current healthy => some (s.visit current healthy now stopFile₁ stopFile₂ stopFile₃)
    | _ => none
  | .registerStatus reg =>
    match s.point with
    | .registering node status healthy =>
      some { s with point := .registered node status reg healthy }
    | _ => none
  | .scan uninitialized =>
    if s.point = .scanning then some (s.initiateClusterRecovery uninitialized) else none
  | .connect delivery =>
    if s.point = .sending then
      match delivery with
      | .notConnected => some { s with point := .resetting }
      | .failed => some { s with point := .setting }
      | .sent => some { s with recovering := true, point := .setting }
    else none
  | .next => s.next
  | .interrupt =>
    if s.point = .sleeping5 ∨ s.point = .sleeping120 then some { s with point := .closed } else none
  -- the other threads take the mutex themselves
  | .setNode node record =>
    if s.depth = 0 then some { s with activeNodeMap := setEntry s.activeNodeMap node record }
    else none
  | .eraseNode node =>
    -- the iterator of the loop stays valid as long as its node is there
    if s.depth = 0 ∧ s.referred ≠ some node then
      some { s with activeNodeMap := s.activeNodeMap.filter fun e => e.1 ≠ node }
    else none
  | .reset => if s.depth = 0 then some s.clearDetails else none

/-- The thread starts with a map of nodes. -/
def start (nodes : List (NodeId × HealthMonitoringRecord)) : Detector := { activeNodeMap := nodes }

end ObjectStorage.Osm.FailureDetector
