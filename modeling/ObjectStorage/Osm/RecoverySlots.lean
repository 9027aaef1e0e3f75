import ObjectStorage.Library.Reservation
import ObjectStorage.Osm.BalancingShares
import ObjectStorage.Osm.StateChange

/-!
The recovery destination map marks the nodes on which recoveries of a kind of service run. An entry
of the table uses its destination while its recovery runs there; the events that come between two
scans keep what is used, or give it back.
-/

namespace ObjectStorage.Osm

open Std Library

namespace ComponentBalancer

variable {b b' : ComponentBalancer} {serviceId node : String}

/-- The kind of service is marked at the node. -/
def Reserved (b : ComponentBalancer) (slot : String × String) : Prop :=
  slot.2 ∈ b.nodeRecoveryDestMap[slot.1]?.getD []

instance (b : ComponentBalancer) : DecidablePred b.Reserved :=
  fun slot => inferInstanceAs (Decidable (slot.2 ∈ b.nodeRecoveryDestMap[slot.1]?.getD []))

theorem reserved_congr (h : b'.nodeRecoveryDestMap = b.nodeRecoveryDestMap)
    (slot : String × String) : b'.Reserved slot ↔ b.Reserved slot := by
  rw [Reserved, Reserved, h]

theorem reserved_updateRecoveryDestMap (b : ComponentBalancer) (node service : String)
    (slot : String × String) : (b.updateRecoveryDestMap node service).Reserved slot ↔
      b.Reserved slot ∧ slot ≠ (node, service) := by
  obtain ⟨node', service'⟩ := slot
  unfold updateRecoveryDestMap Reserved
  cases hnode : b.nodeRecoveryDestMap[node]? with
  | none =>
      refine ⟨fun h => ⟨h, ?_⟩, fun h => h.1⟩
      rintro heq
      obtain ⟨rfl, rfl⟩ := Prod.mk.inj heq
      simp [hnode] at h
  | some services =>
      by_cases hservice : service ∈ services
      · by_cases hnn : node = node'
        · subst hnn
          by_cases hleft : services.filter (· ≠ service) = []
          · have hall : ∀ s ∈ services, s = service := by simpa using hleft
            simp only [hservice, hleft, if_true, getElem?_erase_eq, hnode]
            simpa using hall service'
          · simp only [hservice, hleft, if_true, if_false, getElem?_insert_eq, hnode]
            simp
        · have hne : ¬ node' = node := fun h => hnn h.symm
          by_cases hleft : services.filter (· ≠ service) = []
          · simp only [hservice, hleft, if_true, getElem?_erase_eq, hnn, if_false]
            simp [hne]
          · simp only [hservice, hleft, if_true, getElem?_insert_eq, hnn, if_false]
            simp [hne]
      · simp only [hservice, if_false]
        refine ⟨fun h => ⟨h, ?_⟩, fun h => h.1⟩
        rintro heq
        obtain ⟨rfl, rfl⟩ := Prod.mk.inj heq
        simp only [hnode, Option.getD_some] at h
        exact hservice h

theorem reserved_getTargetNodeForRecovery
    (h : b.getTargetNodeForRecovery serviceId = (some node, b')) :
    ¬ b.Reserved (node, getServiceName serviceId) ∧
      ∀ slot, b'.Reserved slot ↔ b.Reserved slot ∨ slot = (node, getServiceName serviceId) := by
  unfold getTargetNodeForRecovery at h
  simp only at h
  split at h
  · rename_i found hfound
    obtain ⟨hnode, rfl⟩ := Prod.mk.inj h
    obtain rfl := Option.some.inj hnode
    have hfree := List.find?_some hfound
    simp only [decide_eq_true_eq] at hfree
    refine ⟨hfree, fun slot => ?_⟩
    obtain ⟨node', service'⟩ := slot
    simp only [Reserved, getElem?_insert_eq]
    by_cases hnn : found = node'
    · subst hnn
      simp
    · have hne : ¬ node' = found := fun heq => hnn heq.symm
      simp [hnn, hne]
  · cases h

/-- No destination is found only when the other healthy nodes are all marked. -/
theorem getTargetNodeForRecovery_none (h : (b.getTargetNodeForRecovery serviceId).1 = none)
    (hnode : node ∈ b.healthyNodeList) (hother : node ≠ getNodeId serviceId) :
    b.Reserved (node, getServiceName serviceId) := by
  unfold getTargetNodeForRecovery at h
  simp only at h
  split at h
  · cases h
  · rename_i hnone
    rw [List.find?_eq_none] at hnone
    have hmarked := hnone node (List.mem_filter.mpr ⟨hnode, by simpa using hother⟩)
    rw [Reserved]
    simpa using hmarked

theorem nodeRecoveryDestMap_withServices (b : ComponentBalancer) (records : List NodeInfoFileRecord)
    (nodeAddition nodeDeletion nodeRecovery : List String) :
    (b.withServices records nodeAddition nodeDeletion nodeRecovery).nodeRecoveryDestMap =
      b.nodeRecoveryDestMap := by
  have hadd : ∀ (ids : List String) (b : ComponentBalancer),
      (ids.foldl addNode b).nodeRecoveryDestMap = b.nodeRecoveryDestMap := by
    intro ids
    induction ids with
    | nil => exact fun b => rfl
    | cons id ids ih => exact fun b => ih (b.addNode id)
  have hretire : ∀ (ids : List String) (b : ComponentBalancer),
      (ids.foldl retireNode b).nodeRecoveryDestMap = b.nodeRecoveryDestMap := by
    intro ids
    induction ids with
    | nil => exact fun b => rfl
    | cons id ids ih => exact fun b => ih (b.retireNode id)
  simp only [withServices, hretire, hadd]

theorem nodeRecoveryDestMap_getNewPlannedMap (b : ComponentBalancer) (m : ComponentMapManager)
    (records : List NodeInfoFileRecord) (service : String)
    (nodeAddition nodeDeletion nodeRecovery : List String) :
    (b.getNewPlannedMap m records service nodeAddition nodeDeletion
      nodeRecovery).2.1.nodeRecoveryDestMap = b.nodeRecoveryDestMap := by
  have hwith := b.nodeRecoveryDestMap_withServices records nodeAddition nodeDeletion nodeRecovery
  simp only [getNewPlannedMap]
  split <;> exact hwith

theorem nodeRecoveryDestMap_getNewBalancingForSource (b : ComponentBalancer)
    (m : ComponentMapManager) (service source : String) (plannedComponents : Transfers) :
    (b.getNewBalancingForSource m service source plannedComponents).2.1.nodeRecoveryDestMap =
      b.nodeRecoveryDestMap := by
  simp only [getNewBalancingForSource]
  split <;> rfl

end ComponentBalancer

/-- The statuses of a recovery that runs at its destination, or is to be cleaned up there. -/
def StateChangeStatus.usesDestination : StateChangeStatus → Bool
  | .recoveryPlanned | .recoveryInProgress | .recoveryFailed | .recoveryAborted
  | .recoveryCompleted => true
  | _ => false

/-- A status that concerns no recovery. -/
def StateChangeStatus.Unrelated (status : StateChangeStatus) : Prop :=
  status.usesDestination = false ∧ status ≠ .recoveryNew

instance : DecidablePred StateChangeStatus.Unrelated :=
  fun _ => inferInstanceAs (Decidable (_ ∧ _))

/-- The services that are recovered. -/
def recoveredServices : List String :=
  [containerService, accountService, objectService, accountUpdater]

theorem underscore_not_mem_of_recoveredServices {service : String}
    (h : service ∈ recoveredServices) : '_' ∉ service.toList := by
  simp only [recoveredServices, List.mem_cons, List.not_mem_nil, or_false] at h
  rcases h with rfl | rfl | rfl | rfl <;> decide

theorem eq_objectService {service : String} (h : service ∈ recoveredServices)
    (hmerged : service ∉ mergedServices) : service = objectService := by
  simp only [recoveredServices, mergedServices, List.mem_cons, List.not_mem_nil, or_false,
    not_or] at h hmerged
  obtain ⟨hcontainer, haccount, hupdater⟩ := hmerged
  rcases h with heq | heq | heq | heq
  · exact absurd heq hcontainer
  · exact absurd heq haccount
  · exact heq
  · exact absurd heq hupdater

namespace MonitorPass

/-- The entry uses its destination: a new recovery does while its plan is being made. -/
def Uses (pass : MonitorPass) (serviceId : String) (e : StateChangeInitiatorMap) : Prop :=
  e.status.usesDestination = true ∨ e.status = .recoveryNew ∧ serviceId ∈ pass.recList

instance (pass : MonitorPass) (serviceId : String) : DecidablePred (pass.Uses serviceId) :=
  fun _ => inferInstanceAs (Decidable (_ ∨ _))

/-- What the entry of a service uses, as a node and a kind of service. -/
def slot (pass : MonitorPass) (serviceId : String) : Option StateChangeInitiatorMap →
    Option (String × String)
  | some e => if pass.Uses serviceId e then some (e.destinationNode, getServiceName serviceId)
      else none
  | none => none

/-- The pass has taken the entry for one that is not recovered. -/
def Passed (pass : MonitorPass) (serviceId : String) : Prop :=
  serviceId ∈ pass.naList ∨ serviceId ∈ pass.ndList ∨
    ∃ operation, pass.serviceEntryToBeDeleted[serviceId]? = some operation ∧
      operation ≠ .nodeRecovery ∧ operation ≠ .nodeDeletion

structure EntryOk (pass : MonitorPass) (serviceId : String) (e : StateChangeInitiatorMap) :
    Prop where
  kind : ¬ e.status.Unrelated →
    e.operation = .nodeRecovery ∧ getServiceName serviceId ∈ recoveredServices
  listed : serviceId ∈ pass.recList → pass.Uses serviceId e ∧ e.status ≠ .recoveryFailed
  passed : pass.Passed serviceId → ¬ pass.Uses serviceId e

/-- All entries are right, and every service of the list of recoveries has one. -/
structure TableOk (pass : MonitorPass) (stateMap : TreeMap String StateChangeInitiatorMap) :
    Prop where
  entry : ∀ id e, stateMap[id]? = some e → pass.EntryOk id e
  present : ∀ id ∈ pass.recList, stateMap[id]? ≠ none

section

variable {pass : MonitorPass} {id : String} {e e' : StateChangeInitiatorMap}
  {stateMap stateMap' stateMap'' : TreeMap String StateChangeInitiatorMap}

theorem Uses.related (h : pass.Uses id e) : ¬ e.status.Unrelated := fun hunrelated =>
  h.elim (fun huses => by rw [hunrelated.1] at huses; cases huses) fun hnew => hunrelated.2 hnew.1

theorem slot_some : pass.slot id (some e) =
    if pass.Uses id e then some (e.destinationNode, getServiceName id) else none := rfl

/-- How an entry changes while its recovery keeps what it uses. -/
inductive KeepsUse (pass : MonitorPass) (id : String) (e e' : StateChangeInitiatorMap) : Prop
  | same (status : e'.status = e.status) (operation : e'.operation = e.operation)
      (destination : e'.destinationNode = e.destinationNode)
  | running (uses : pass.Uses id e) (status : e'.status.usesDestination = true)
      (failed : id ∈ pass.recList → e'.status ≠ .recoveryFailed)
      (operation : e'.operation = e.operation)
      (destination : e'.destinationNode = e.destinationNode)
  | other (unused : ¬ pass.Uses id e) (status : e'.status.usesDestination = false)
      (kind : e'.status = .recoveryNew →
        e'.operation = .nodeRecovery ∧ getServiceName id ∈ recoveredServices)

theorem KeepsUse.entryOk (h : pass.KeepsUse id e e') (hok : pass.EntryOk id e) :
    pass.EntryOk id e' ∧ pass.slot id (some e') = pass.slot id (some e) := by
  cases h with
  | same hstatus hoperation hdestination =>
      have hiff : pass.Uses id e' ↔ pass.Uses id e := by rw [Uses, Uses, hstatus]
      refine ⟨⟨?_, ?_, ?_⟩, ?_⟩
      · rw [hstatus, hoperation]
        exact hok.kind
      · rw [hiff, hstatus]
        exact hok.listed
      · rw [hiff]
        exact hok.passed
      · simp only [slot_some, hiff, hdestination]
  | running huses hstatus hfailed hoperation hdestination =>
      have huses' : pass.Uses id e' := .inl hstatus
      refine ⟨⟨fun _ => ?_, fun hin => ⟨huses', hfailed hin⟩, fun hpassed => ?_⟩, ?_⟩
      · rw [hoperation]
        exact hok.kind huses.related
      · exact absurd huses (hok.passed hpassed)
      · rw [slot_some, slot_some, if_pos huses, if_pos huses', hdestination]
  | other hunused hstatus hkind =>
      have hunlisted : id ∉ pass.recList := fun hin => hunused (hok.listed hin).1
      have hunused' : ¬ pass.Uses id e' := by simp [Uses, hstatus, hunlisted]
      refine ⟨⟨fun h => hkind ?_, fun hin => absurd hin hunlisted, fun _ => hunused'⟩, ?_⟩
      · by_contra hne
        exact h ⟨hstatus, hne⟩
      rw [slot_some, slot_some, if_neg hunused, if_neg hunused']

theorem EntryOk.not_uses (hok : pass.EntryOk id e) (h : e.operation ≠ .nodeRecovery) :
    ¬ pass.Uses id e := fun huses => h (hok.kind huses.related).1

theorem KeepsUse.unrelated (hok : pass.EntryOk id e) (hoperation : e.operation ≠ .nodeRecovery)
    (h : e'.status.Unrelated) : pass.KeepsUse id e e' :=
  .other (hok.not_uses hoperation) h.1 fun hnew => absurd hnew h.2

/-- A change of the table after which the entries are right and use what they used. -/
structure Kept (pass : MonitorPass) (stateMap stateMap' : TreeMap String StateChangeInitiatorMap) :
    Prop where
  ok : pass.TableOk stateMap'
  slots : ∀ id, pass.slot id stateMap'[id]? = pass.slot id stateMap[id]?

theorem Kept.refl (h : pass.TableOk stateMap) : pass.Kept stateMap stateMap := ⟨h, fun _ => rfl⟩

theorem Kept.trans (h : pass.Kept stateMap stateMap') (h' : pass.Kept stateMap' stateMap'') :
    pass.Kept stateMap stateMap'' :=
  ⟨h'.ok, fun id => (h'.slots id).trans (h.slots id)⟩

theorem Kept.insert (h : pass.TableOk stateMap) (hok : pass.EntryOk id e')
    (hslot : pass.slot id (some e') = pass.slot id stateMap[id]?) :
    pass.Kept stateMap (stateMap.insert id e') where
  ok :=
    { entry := fun a e ha => by
        rw [getElem?_insert_eq] at ha
        by_cases hid : id = a
        · rw [if_pos hid] at ha
          exact Option.some.inj ha ▸ hid ▸ hok
        · rw [if_neg hid] at ha
          exact h.entry a e ha
      present := fun a ha => by
        rw [getElem?_insert_eq]
        by_cases hid : id = a
        · simp [hid]
        · rw [if_neg hid]
          exact h.present a ha }
  slots a := by
    rw [getElem?_insert_eq]
    by_cases hid : id = a
    · rw [if_pos hid, ← hid, hslot]
    · rw [if_neg hid]

theorem Kept.update (h : pass.TableOk stateMap) (he : stateMap[id]? = some e)
    (hkeeps : pass.KeepsUse id e e') : pass.Kept stateMap (stateMap.insert id e') := by
  obtain ⟨hok, hslot⟩ := hkeeps.entryOk (h.entry id e he)
  exact .insert h hok (by rw [hslot, he])

theorem Kept.erase (h : pass.TableOk stateMap)
    (hmap : ∀ id, stateMap'[id]? = stateMap[id]? ∨
      stateMap'[id]? = none ∧ pass.slot id stateMap[id]? = none) :
    pass.Kept stateMap stateMap' where
  ok :=
    { entry := fun a e ha => by
        rcases hmap a with heq | ⟨hnone, -⟩
        · exact h.entry a e (heq ▸ ha)
        · rw [hnone] at ha
          cases ha
      present := fun a ha => by
        rcases hmap a with heq | ⟨-, hslot⟩
        · rw [heq]
          exact h.present a ha
        · obtain ⟨e, he⟩ := Option.ne_none_iff_exists'.mp (h.present a ha)
          rw [he, slot_some, if_pos ((h.entry a e he).listed ha).1] at hslot
          cases hslot }
  slots a := by
    rcases hmap a with heq | ⟨hnone, hslot⟩
    · rw [heq]
    · rw [hnone, hslot]
      rfl

theorem Kept.fresh (h : pass.TableOk stateMap) (hnone : stateMap[id]? = none)
    (hstatus : e'.status.usesDestination = false)
    (hkind : e'.status = .recoveryNew →
      e'.operation = .nodeRecovery ∧ getServiceName id ∈ recoveredServices) :
    pass.Kept stateMap (stateMap.insert id e') := by
  have hunlisted : id ∉ pass.recList := fun hin => h.present id hin hnone
  have hunused : ¬ pass.Uses id e' := by simp [Uses, hstatus, hunlisted]
  refine .insert h ⟨fun hrelated => hkind ?_, fun hin => absurd hin hunlisted,
    fun _ => hunused⟩ ?_
  · by_contra hne
    exact hrelated ⟨hstatus, hne⟩
  rw [slot_some, if_neg hunused, hnone]
  rfl

end

end MonitorPass

/-- The kind of service that a pass plans for next. -/
def MonitorPhase.nextService : MonitorPhase → Option String
  | .planning (service :: _) => some service
  | _ => none

namespace StateChangeManager

open MonitorPass

variable {s s' : StateChangeManager} {id : String} {e e' : StateChangeInitiatorMap}

/-- What the recovery of a service uses. -/
def destination (s : StateChangeManager) (serviceId : String) : Option (String × String) :=
  s.pass.slot serviceId s.stateMap[serviceId]?

structure Inv (s : StateChangeManager) : Prop where
  table : s.pass.TableOk s.stateMap
  exact : ReservedExactly s.balancer.Reserved s.destination

theorem Inv.kept (h : Inv s) (hkept : s.pass.Kept s.stateMap s'.stateMap) (hpass : s'.pass = s.pass)
    (hdest : s'.balancer.nodeRecoveryDestMap = s.balancer.nodeRecoveryDestMap) : Inv s' where
  table := hpass ▸ hkept.ok
  exact := h.exact.congr (ComponentBalancer.reserved_congr hdest) fun id => by
    rw [destination, destination, hpass, hkept.slots]

theorem Inv.setEntry (h : Inv s) (he : s.stateMap[id]? = some e)
    (hkeeps : s.pass.KeepsUse id e e') : Inv (s.setEntry id e') :=
  h.kept (.update h.table he hkeeps) rfl rfl

/-- The lists of a pass may change as long as the entries keep what they use. -/
theorem Inv.repass (h : Inv s) {pass : MonitorPass} (hrec : pass.recList = s.pass.recList)
    (hpassed : ∀ id e, s.stateMap[id]? = some e → pass.Passed id →
      s.pass.Passed id ∨ ¬ s.pass.Uses id e) : Inv { s with pass := pass } := by
  have huses : ∀ id e, pass.Uses id e ↔ s.pass.Uses id e := fun id e => by rw [Uses, Uses, hrec]
  refine ⟨⟨fun id e he => ?_, fun id hid => h.table.present id (hrec ▸ hid)⟩, h.exact.congr
    (fun _ => Iff.rfl) fun id => ?_⟩
  · have hok := h.table.entry id e he
    refine ⟨hok.kind, ?_, fun hp => ?_⟩
    · rw [huses, hrec]
      exact hok.listed
    · rw [huses]
      rcases hpassed id e he hp with hold | hnot
      · exact hok.passed hold
      · exact hnot
  · unfold destination slot
    simp only [huses]

theorem endMonitoringStatus_cases (e : StateChangeInitiatorMap) :
    e.operation = .nodeRecovery ∧
        (endMonitoringStatus e = .recoveryCompleted ∨ endMonitoringStatus e = .recoveryAborted) ∨
      endMonitoringStatus e = e.status ∨
      e.operation ≠ .nodeRecovery ∧ (endMonitoringStatus e).Unrelated := by
  unfold endMonitoringStatus
  split <;> cases e.operation <;>
    simp [StateChangeStatus.Unrelated, StateChangeStatus.usesDestination]

theorem transferReplied_cases (e : StateChangeInitiatorMap) (reply : TransferReply) :
    (transferReplied e reply).operation = e.operation ∧
      (transferReplied e reply).destinationNode = e.destinationNode ∧
      ((transferReplied e reply).status = e.status ∨
        e.operation ≠ .nodeRecovery ∧ (transferReplied e reply).status.Unrelated) := by
  obtain ⟨operation, status, node, planned, fd, balancing⟩ := e
  cases reply <;> cases operation <;> simp only [transferReplied] <;>
    grind [StateChangeStatus.Unrelated, StateChangeStatus.usesDestination]

theorem uses_of_destination (he : s.stateMap[id]? = some e) (h : s.destination id ≠ none) :
    s.pass.Uses id e := by
  by_contra hnot
  exact h (by rw [destination, he, slot_some, if_neg hnot])

theorem inv_startMonitoring (h : Inv s) (fd : Int)
    (huses : id ∈ s.stateMap → s.destination id ≠ none) : Inv (s.startMonitoring id fd) := by
  unfold startMonitoring
  cases he : s.stateMap[id]? with
  | none => exact h
  | some e =>
      have hin : id ∈ s.stateMap := (mem_iff_exists_getElem? _ _).mpr ⟨e, he⟩
      exact h.setEntry he
        (.running (uses_of_destination he (huses hin)) rfl (by simp) rfl rfl)

theorem inv_updatePlannedComponents (h : Inv s) (id : String) (transferred : Transfers) :
    Inv (s.updatePlannedComponents id transferred) := by
  unfold updatePlannedComponents
  cases he : s.stateMap[id]? with
  | none => exact h
  | some e => exact h.kept (.update h.table he (.same rfl rfl rfl)) rfl rfl

theorem inv_setFd (h : Inv s) (id : String) (fd : Int) : Inv (s.setFd id fd) := by
  unfold setFd
  cases he : s.stateMap[id]? with
  | none => exact h
  | some e => exact h.setEntry he (.same rfl rfl rfl)

theorem inv_firstFinalStat (h : Inv s) (fd : Int)
    (huses : ∀ e, s.stateMap[id]? = some e → e.operation = .nodeRecovery → e.plannedMap ≠ [] →
      s.destination id ≠ none) : Inv (s.firstFinalStat id fd) := by
  unfold firstFinalStat
  cases he : s.stateMap[id]? with
  | none => exact h
  | some e =>
      by_cases haborted : e.plannedMap ≠ [] ∧ e.operation = .nodeRecovery
      · have hdest := huses e he haborted.2 haborted.1
        simp only [if_pos haborted]
        exact h.setEntry he (.running (uses_of_destination he hdest) rfl (by simp) rfl rfl)
      · simp only [if_neg haborted]
        exact h.setEntry he (.same rfl rfl rfl)

theorem inv_handleEndMonitoring (h : Inv s)
    (huses : ∀ e, s.stateMap[id]? = some e → e.operation = .nodeRecovery →
      s.destination id ≠ none) : Inv (s.handleEndMonitoring id) := by
  unfold handleEndMonitoring
  cases he : s.stateMap[id]? with
  | none => exact h
  | some e =>
      refine h.setEntry he ?_
      rcases endMonitoringStatus_cases e with ⟨hop, hstatus⟩ | hsame | ⟨hop, hunrelated⟩
      · refine .running (uses_of_destination he (huses e he hop)) ?_ ?_ rfl rfl
        · rcases hstatus with hstatus | hstatus <;>
            simp [hstatus, StateChangeStatus.usesDestination]
        · rcases hstatus with hstatus | hstatus <;> simp [hstatus]
      · exact .same hsame rfl rfl
      · exact .unrelated (h.table.entry id e he) hop hunrelated

theorem inv_transferReply (h : Inv s) (id : String) (reply : TransferReply) :
    Inv (s.transferReply id reply) := by
  unfold transferReply
  cases he : s.stateMap[id]? with
  | none => exact h
  | some e =>
      obtain ⟨hop, hdest, hstatus | ⟨hrec, hunrelated⟩⟩ := transferReplied_cases e reply
      · exact h.setEntry he (.same hstatus hop hdest)
      · exact h.setEntry he (.unrelated (h.table.entry id e he) hrec hunrelated)

theorem inv_blockReply (h : Inv s) (id : String) (blocked : Bool) :
    Inv (s.blockReply id blocked) := by
  unfold blockReply
  cases he : s.stateMap[id]? with
  | none => exact h
  | some e =>
      have hdeletion : ∀ e', e.operation = .nodeDeletion → e'.status.Unrelated →
          Inv (s.setEntry id e') := fun e' hop hunrelated =>
        h.setEntry he (.unrelated (h.table.entry id e he) (by simp [hop]) hunrelated)
      simp only
      split_ifs with hservice hblocked hop hop
      · exact hdeletion _ hop ⟨rfl, by simp⟩
      · exact h
      · exact hdeletion _ hop ⟨rfl, by simp⟩
      · exact h.setEntry he (.same rfl rfl rfl)
      · exact h

theorem kept_addRecord {pass : MonitorPass}
    {acc : TreeMap String StateChangeInitiatorMap × Bool} (h : pass.TableOk acc.1)
    {r : String × StateChangeOperation × StateChangeStatus}
    (hstatus : r.2.2.usesDestination = false)
    (hnew : r.2.2 = .recoveryNew → r.2.1 = .nodeRecovery)
    (hkind : r.2.1 = .nodeRecovery → getServiceName r.1 ∈ recoveredServices) :
    pass.Kept acc.1 (addRecord acc r).1 := by
  unfold addRecord
  cases he : acc.1[r.1]? with
  | none => exact .fresh h he hstatus fun hstart => ⟨hnew hstart, hkind (hnew hstart)⟩
  | some e =>
      by_cases hchange : (e.operation = .componentBalancing ∨ e.operation = .nodeAddition ∨
          e.operation = .nodeDeletion) ∧ r.2.1 = .nodeRecovery
      · have hop : e.operation ≠ .nodeRecovery := fun hop => by simp [hop] at hchange
        simp only [if_pos hchange]
        exact .update h he (.other ((h.entry _ e he).not_uses hop) rfl
          fun _ => ⟨rfl, hkind hchange.2⟩)
      · simp only [if_neg hchange]
        exact .refl h

theorem kept_closeProxy {pass : MonitorPass} {stateMap : TreeMap String StateChangeInitiatorMap}
    (h : pass.TableOk stateMap) (nodeId : String) :
    pass.Kept stateMap (closeProxy stateMap nodeId) := by
  unfold closeProxy
  cases he : stateMap[getServiceId nodeId proxyService]? with
  | none => exact .refl h
  | some e =>
      by_cases hop : e.operation = .nodeDeletion
      · simp only [if_pos hop]
        exact .update h he (.other ((h.entry _ e he).not_uses (by simp [hop])) rfl
          fun hnew => by simp at hnew)
      · simp only [if_neg hop]
        exact .refl h

theorem inv_addEntryInMap (h : Inv s) (nodeId : String) (services : List String)
    {operation : StateChangeOperation} {status : StateChangeStatus}
    (hstatus : status.usesDestination = false)
    (hnew : status = .recoveryNew → operation = .nodeRecovery)
    (hkind : operation = .nodeRecovery → ∀ service ∈ services, service ∈ recoveredServices) :
    Inv (s.addEntryInMap nodeId services operation status) := by
  have hfold : ∀ acc : TreeMap String StateChangeInitiatorMap × Bool,
      s.pass.Kept s.stateMap acc.1 → s.pass.Kept s.stateMap (services.foldl (fun acc service =>
        addRecord acc (getServiceId nodeId service, operation, status)) acc).1 := by
    induction services with
    | nil => exact fun acc hacc => hacc
    | cons service services ih =>
        intro acc hacc
        refine ih (fun hop a ha => hkind hop a (List.mem_cons_of_mem _ ha)) _
          (hacc.trans (kept_addRecord hacc.ok hstatus hnew fun hop => ?_))
        have hservice := hkind hop service List.mem_cons_self
        rw [getServiceName_getServiceId (underscore_not_mem_of_recoveredServices hservice)]
        exact hservice
  have hkept := hfold (s.stateMap, false) (.refl h.table)
  refine h.kept ?_ rfl rfl
  simp only [addEntryInMap]
  split
  · exact hkept.trans (kept_closeProxy hkept.ok nodeId)
  · exact hkept

theorem inv_prepareAndAddEntry (h : Inv s) (nodeId : String) (operation : StateChangeOperation) :
    Inv (s.prepareAndAddEntry nodeId operation) := by
  cases operation with
  | nodeAddition =>
      simp only [prepareAndAddEntry]
      exact inv_addEntryInMap h nodeId _ (by rfl) (by simp) (by simp)
  | nodeDeletion =>
      simp only [prepareAndAddEntry]
      split
      · exact inv_addEntryInMap h nodeId _ (by rfl) (by simp) (by simp)
      · exact h
  | nodeRecovery =>
      simp only [prepareAndAddEntry]
      exact inv_addEntryInMap h nodeId _ (by rfl) (by simp) fun _ service hs => hs
  | componentBalancing => exact h

theorem Inv.release (h : Inv s) (he : s.stateMap[id]? = some e) (huses : s.pass.Uses id e)
    (hunlisted : id ∉ s.pass.recList) (hstatus : e'.status.usesDestination = false)
    (hoperation : e'.operation = e.operation) : Inv ((s.updateDest id e).setEntry id e') := by
  have hok := h.table.entry id e he
  have hunused : ¬ s.pass.Uses id e' := by simp [Uses, hstatus, hunlisted]
  have hmap : ∀ a, ((s.updateDest id e).setEntry id e').stateMap[a]? =
      if id = a then some e' else s.stateMap[a]? := fun a => getElem?_insert_eq _ _ _ _
  refine ⟨⟨fun a e₁ ha => ?_, fun a ha => ?_⟩, h.exact.release (i := id)
    (k := (e.destinationNode, getServiceName id)) ?_
    (s.balancer.reserved_updateRecoveryDestMap e.destinationNode (getServiceName id)) ?_ ?_⟩
  · rw [hmap] at ha
    by_cases hid : id = a
    · rw [if_pos hid] at ha
      obtain rfl := Option.some.inj ha
      subst hid
      exact ⟨fun _ => hoperation ▸ hok.kind huses.related, fun hin => absurd hin hunlisted,
        fun _ => hunused⟩
    · rw [if_neg hid] at ha
      exact h.table.entry a e₁ ha
  · rw [hmap]
    by_cases hid : id = a
    · simp [hid]
    · rw [if_neg hid]
      exact h.table.present a ha
  · rw [destination, he, slot_some, if_pos huses]
  · rw [destination, hmap, if_pos rfl]
    exact if_neg hunused
  · intro a ha
    rw [destination, hmap, if_neg fun hid => ha hid.symm]
    rfl

theorem inv_replan (h : Inv s) (he : s.stateMap[id]? = some e) (hunused : ¬ s.pass.Uses id e)
    (e₀ : StateChangeInitiatorMap) : Inv (s.replan id e₀) := by
  have hother : ∀ e', e'.status.Unrelated → s.pass.Kept s.stateMap (s.stateMap.insert id e') :=
    fun e' hunrelated => .update h.table he (.other hunused hunrelated.1
      fun hnew => absurd hnew hunrelated.2)
  simp only [replan]
  split
  · refine h.kept (hother _ ?_) rfl
      (s.balancer.nodeRecoveryDestMap_getNewBalancingForSource s.maps _ _ _)
    simp only
    split_ifs
    · exact ⟨rfl, by simp⟩
    · exact ⟨rfl, by simp⟩
  · exact h.setEntry he (.other hunused rfl fun hnew => by simp at hnew)

theorem inv_runEntry (h : Inv s) (id : String) : Inv (s.runEntry id) := by
  unfold runEntry
  cases he : s.stateMap[id]? with
  | none => exact h
  | some e =>
      have hok := h.table.entry id e he
      have hunused : e.status.Unrelated → ¬ s.pass.Uses id e := fun hunrelated => by
        rintro (huses | ⟨hnew, -⟩)
        · rw [hunrelated.1] at huses
          cases huses
        · exact hunrelated.2 hnew
      simp only
      split
      · rename_i hstatus
        have huses : s.pass.Uses id e := .inl (by rw [hstatus]; rfl)
        split_ifs with hplanned
        · exact h.setEntry he (.running huses (by rfl) (by simp) (by rfl) (by rfl))
        · exact h.release he huses (fun hin => (hok.listed hin).2 hstatus) (by rfl) (by rfl)
      · rename_i hstatus
        refine h.setEntry he (.other (hunused (by rw [hstatus]; exact ⟨rfl, by simp⟩)) ?_ ?_)
        · simp only
          split_ifs <;> rfl
        · intro hnew
          simp only at hnew
          split_ifs at hnew
      · rename_i hstatus
        refine h.setEntry he (.other (hunused (by rw [hstatus]; exact ⟨rfl, by simp⟩)) ?_ ?_)
        · simp only
          split_ifs <;> rfl
        · intro hnew
          simp only at hnew
          split_ifs at hnew
      · rename_i hstatus
        exact inv_replan h he (hunused (by rw [hstatus]; exact ⟨rfl, by simp⟩)) _
      · exact h

theorem inv_monitorEntries (h : Inv s) (ids : List String) : Inv (ids.foldl runEntry s) := by
  induction ids generalizing s with
  | nil => exact h
  | cons id ids ih => exact ih (inv_runEntry h id)

theorem inv_checkIfRecoveryCompletedForThisNode (h : Inv s) (nodeName : String)
    (operation : StateChangeOperation) :
    Inv (s.checkIfRecoveryCompletedForThisNode nodeName operation) := by
  simp only [checkIfRecoveryCompletedForThisNode]
  split
  · rename_i hdone
    refine h.kept (.erase h.table fun id => ?_) rfl rfl
    simp only [getElem?_eraseKeys]
    by_cases hid : id ∈ (s.entriesOfNode nodeName operation).map (·.1)
    · obtain ⟨⟨_, e⟩, hmem, rfl⟩ := List.mem_map.mp hid
      have hget : s.stateMap[_]? = some e :=
        TreeMap.mem_toList_iff_getElem?_eq_some.mp (List.mem_filter.mp hmem).1
      have hstatus : e.status = doneStatus operation := by
        simpa using List.all_eq_true.mp hdone _ hmem
      refine .inr ⟨if_pos hid, ?_⟩
      rw [hget, slot_some, if_neg]
      rintro (huses | ⟨hnew, -⟩)
      · rw [hstatus] at huses
        cases operation <;> cases huses
      · rw [hstatus] at hnew
        cases operation <;> cases hnew
    · exact .inl (if_neg hid)
  · exact h

theorem inv_deleteEntry (h : Inv s) {d : String × StateChangeOperation}
    (hd : s.pass.serviceEntryToBeDeleted[d.1]? = some d.2) : Inv (s.deleteEntry d) := by
  unfold deleteEntry
  split
  · exact inv_checkIfRecoveryCompletedForThisNode h _ _
  · exact inv_checkIfRecoveryCompletedForThisNode h _ _
  · rename_i hrec hdel
    have hpassed : s.pass.Passed d.1 := .inr (.inr ⟨d.2, hd, hrec, hdel⟩)
    refine h.kept (.erase h.table fun id => ?_) rfl rfl
    simp only [getElem?_erase_eq]
    by_cases hid : d.1 = id
    · subst hid
      refine .inr ⟨if_pos rfl, ?_⟩
      cases he : s.stateMap[d.1]? with
      | none => rfl
      | some e => rw [slot_some, if_neg ((h.table.entry _ e he).passed hpassed)]
    · exact .inl (if_neg hid)

theorem pass_deleteEntry (s : StateChangeManager) (d : String × StateChangeOperation) :
    (s.deleteEntry d).pass = s.pass := by
  have hcheck : ∀ node operation,
      (s.checkIfRecoveryCompletedForThisNode node operation).pass = s.pass := by
    intro node operation
    simp only [checkIfRecoveryCompletedForThisNode]
    split <;> rfl
  unfold deleteEntry
  split
  · exact hcheck _ _
  · exact hcheck _ _
  · rfl

theorem inv_deleteEntries (h : Inv s) : Inv s.deleteEntries := by
  have hfold : ∀ (ds : List (String × StateChangeOperation)) (s : StateChangeManager), Inv s →
      (∀ d ∈ ds, s.pass.serviceEntryToBeDeleted[d.1]? = some d.2) →
        Inv (ds.foldl deleteEntry s) := by
    intro ds
    induction ds with
    | nil => exact fun s hs _ => hs
    | cons d ds ih =>
        intro s hs hds
        refine ih (s.deleteEntry d) (inv_deleteEntry hs (hds d List.mem_cons_self)) fun d' hd' => ?_
        rw [pass_deleteEntry]
        exact hds d' (List.mem_cons_of_mem d hd')
  have hdeleted := hfold s.pass.serviceEntryToBeDeleted.toList s h fun d hd =>
    TreeMap.mem_toList_iff_getElem?_eq_some.mp hd
  unfold deleteEntries
  refine hdeleted.repass rfl fun id e _ hpassed => .inl ?_
  rcases hpassed with hna | hnd | hdel
  · refine .inl ?_
    simp only at hna
    split at hna
    · cases hna
    · exact hna
  · refine .inr (.inl ?_)
    simp only at hnd
    split at hnd
    · cases hnd
    · exact hnd
  · exact .inr (.inr hdel)

end StateChangeManager

end ObjectStorage.Osm
