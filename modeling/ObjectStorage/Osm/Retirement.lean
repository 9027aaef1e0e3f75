import ObjectStorage.Library.Transition
import ObjectStorage.Osm.NodeEntries

/-!
A node that is retiring ends as retired as long as its failures are not taken for those of a member
of the cluster, and the threads that work on it do not overlap.
-/

namespace ObjectStorage.Osm

open Std Library

namespace NodeStatus

/-- The statuses of a node that is retiring. -/
def Retiring (status : NodeStatus) : Prop := status = .retiring ∨ status = .retiringFailed

/-- The statuses that a retiring node may have from then on. -/
def AsRetired (status : NodeStatus) : Prop :=
  status = .retiring ∨ status = .retiringFailed ∨ status = .retired ∨ status = .retiredRecovered

instance : DecidablePred Retiring := fun _ => inferInstanceAs (Decidable (_ ∨ _))

instance : DecidablePred AsRetired := fun _ => inferInstanceAs (Decidable (_ ∨ _))

theorem Retiring.asRetired {status : NodeStatus} (h : status.Retiring) : status.AsRetired :=
  h.imp_right .inl

end NodeStatus

namespace LeaderThreads

open StateChangeManager

/-- The nodes that a thread is working on. -/
def workers (s : LeaderThreads) : List String :=
  s.handler.toList.map (·.1) ++ (s.expired.toList.map (·.node) ++
    (s.completion.toList.map (·.node) ++ s.rejoins.map (·.1)))

/-- Work on one node does not overlap, a node that has failed while it was retiring does not fail
again, the node info file takes the status of a node that is retiring, and a completion is told from
the entries of the node itself. -/
def Condition (s : LeaderThreads) : Event → Prop
  | .receive message node => node ∉ s.workers ∧
      (message = .nodeFailover → s.getNodeStatus node ≠ .retiringFailed)
  | .handle wrote => ∀ w ∈ s.handler, w.2 = .failover .retiring ∨
      w.2 = .retireStatus ∧ s.getNodeStatus w.1 = .retiringFailed → wrote = true
  | .expire node => node ∉ s.workers ∧ s.getNodeStatus node ≠ .retiringFailed ∧
      s.getNodeStatus node ≠ .retiredRecovered
  | .setExpired wrote => ∀ t ∈ s.expired, t.status = .retiringFailed → wrote = true
  | .rejoin node => node ∉ s.workers
  | .deleteNext => ∀ d ∈ s.deleting.head?, d.2 = .nodeRecovery ∨ d.2 = .nodeDeletion →
      d.1 ∉ s.workers ∧ s.states.MatchesOwnEntries d.1 d.2
  | _ => True

/-- The node is followed, or retiring. -/
def Tracked (T : String → Prop) (s : LeaderThreads) (node : String) : Prop :=
  T node ∨ (s.getNodeStatus node).Retiring

/-- The entries of a node that is retiring fit its status, but for those of a thread at work. -/
structure Settled (s : LeaderThreads) (node : String) : Prop where
  status : (s.getNodeStatus node).AsRetired
  unadded : s.states.Unadded node
  recovery : s.states.NoneOf node .nodeRecovery ∨ s.getNodeStatus node = .retiringFailed ∨
    (∃ t, s.expired = some t ∧ t.node = node ∧ t.entered = true) ∨
      ∃ c, s.completion = some c ∧ c.node = node ∧ c.reported = true
  deletion : s.states.NoneOf node .nodeDeletion ∨ s.getNodeStatus node = .retiring ∨
    s.handler = some (node, .failoverEntry) ∨ s.handler = some (node, .retireStatus) ∨
      ∃ c, s.completion = some c ∧ c.node = node ∧ c.reported = true

def HandlerOk (T : String → Prop) (s : LeaderThreads) (node : String) : HandlerPoint → Prop
  | .failover status => status = s.getNodeStatus node ∧ status ≠ .retiringFailed
  | .failoverEntry => Tracked T s node → s.getNodeStatus node = .retiringFailed
  | .stop status => status = s.getNodeStatus node
  | .stopEntry => ¬ Tracked T s node
  | .retire status => status = s.getNodeStatus node
  | .retireStatus => s.states.NoneOf node .nodeRecovery ∧ s.states.Unadded node ∧
      (Tracked T s node → (s.getNodeStatus node).Retiring)

structure ExpiredOk (T : String → Prop) (s : LeaderThreads) (t : ExpiredNode) : Prop where
  status : t.status = .retiringFailed ∨ t.status = .failed
  retiring : t.status = .retiringFailed → s.getNodeStatus t.node = .retiring ∧
    (t.entered = true → s.states.NoneOf t.node .nodeDeletion)
  other : t.status = .failed → ¬ Tracked T s t.node

structure CompletionOk (T : String → Prop) (s : LeaderThreads) (c : Completion) : Prop where
  kind : c.operation = .nodeRecovery ∧ c.status = .recovered ∨
    c.operation = .nodeDeletion ∧ c.status = .nodeStopped
  matched : ∀ id ∈ c.serviceIds, getNodeId id = c.node ∧
    ∃ e, s.states.stateMap[id]? = some e ∧ e.operation = c.operation
  own : ∀ (id : String) e, getNodeId id = c.node → s.states.stateMap[id]? = some e →
    e.operation = c.operation → id ∈ c.serviceIds
  free : ∀ id ∈ c.serviceIds, id ∉ s.states.pass.naList ∧
    ∀ d ∈ s.deleting, d.2 ≠ .nodeRecovery → d.2 ≠ .nodeDeletion → d.1 ≠ id
  unreported : c.reported = false → Tracked T s c.node →
    c.operation = .nodeRecovery ∧ s.getNodeStatus c.node = .retiringFailed ∨
      c.operation = .nodeDeletion ∧ s.getNodeStatus c.node = .retiring
  other : Tracked T s c.node → ∀ operation, Completing operation → operation ≠ c.operation →
    s.states.NoneOf c.node operation

/-- What holds of a node and the thread that works on it. -/
structure NodeOk (T : String → Prop) (s : LeaderThreads) (node : String) : Prop where
  handler : ∀ point, s.handler = some (node, point) → HandlerOk T s node point
  expired : ∀ t, s.expired = some t → t.node = node → ExpiredOk T s t
  completion : ∀ c, s.completion = some c → c.node = node → CompletionOk T s c
  rejoins : ∀ point, (node, point) ∈ s.rejoins → ¬ Tracked T s node
  settled : Tracked T s node → Settled s node

structure Inv (T : String → Prop) (s : LeaderThreads) : Prop where
  table : s.states.WellFormed s.deleting
  phase : s.completion ≠ none → s.states.pass.phase = .deleting
  apart : s.workers.Nodup
  node : ∀ node, NodeOk T s node

/-- A step that is about other nodes. -/
structure Frame (s s' : LeaderThreads) (node : String) : Prop where
  status : s'.getNodeStatus node = s.getNodeStatus node
  unadded : s.states.Unadded node → s'.states.Unadded node
  entered : NoneEntered s.states s'.states node
  kept : s'.completion = none ∨ NoneEntered s'.states s.states node ∧
    s'.states.pass.naList = s.states.pass.naList ∧ s'.deleting ⊆ s.deleting
  handler : ∀ point, s'.handler = some (node, point) ↔ s.handler = some (node, point)
  expired : ∀ t, t.node = node → (s'.expired = some t ↔ s.expired = some t)
  completion : ∀ c, c.node = node → (s'.completion = some c ↔ s.completion = some c)
  rejoins : ∀ point, (node, point) ∈ s'.rejoins → (node, point) ∈ s.rejoins

section

variable {T : String → Prop} {s s' : LeaderThreads} {node : String}

theorem Frame.tracked (h : Frame s s' node) : Tracked T s' node ↔ Tracked T s node := by
  rw [Tracked, Tracked, h.status]

theorem Frame.noneOf (h : Frame s s' node) {operation : StateChangeOperation}
    (hoperation : Completing operation) (hnone : s.states.NoneOf node operation) :
    s'.states.NoneOf node operation := h.entered.noneOf hoperation hnone

theorem NodeOk.frame (h : NodeOk T s node) (hframe : Frame s s' node) : NodeOk T s' node where
  handler point hpoint := by
    have hok := h.handler point ((hframe.handler point).mp hpoint)
    cases point with
    | failover status => exact ⟨hframe.status ▸ hok.1, hok.2⟩
    | failoverEntry => exact fun ht => hframe.status ▸ hok (hframe.tracked.mp ht)
    | stop status => exact Eq.trans hok hframe.status.symm
    | stopEntry => exact fun ht => hok (hframe.tracked.mp ht)
    | retire status => exact Eq.trans hok hframe.status.symm
    | retireStatus =>
        exact ⟨hframe.noneOf (.inl rfl) hok.1, hframe.unadded hok.2.1,
          fun ht => hframe.status ▸ hok.2.2 (hframe.tracked.mp ht)⟩
  expired t ht hnode := by
    subst hnode
    have hok := h.expired t ((hframe.expired t rfl).mp ht) rfl
    exact ⟨hok.status, fun hst => ⟨hframe.status ▸ (hok.retiring hst).1, fun hentered =>
      hframe.noneOf (.inr rfl) ((hok.retiring hst).2 hentered)⟩,
      fun hst ht => hok.other hst (hframe.tracked.mp ht)⟩
  completion c hc hnode := by
    subst hnode
    have hok := h.completion c ((hframe.completion c rfl).mp hc) rfl
    obtain ⟨hkept, hna, hdeleting⟩ := hframe.kept.resolve_left (by simp [hc])
    have hcompleting : Completing c.operation := hok.kind.imp And.left And.left
    refine ⟨hok.kind, fun id hid => ?_, fun id e' hid he' hop => ?_, fun id hid => ?_,
      fun hr ht => ?_, fun ht operation hoperation hne => ?_⟩
    · obtain ⟨hid', e, he, hop⟩ := hok.matched id hid
      exact ⟨hid', hkept _ hcompleting id e hid' he hop⟩
    · obtain ⟨e, he, hop⟩ := hframe.entered _ hcompleting id e' hid he' hop
      exact hok.own id e hid he hop
    · obtain ⟨hnot, hfree⟩ := hok.free id hid
      exact ⟨hna ▸ hnot, fun d hd => hfree d (hdeleting hd)⟩
    · rw [hframe.status]
      exact hok.unreported hr (hframe.tracked.mp ht)
    · exact hframe.noneOf hoperation (hok.other (hframe.tracked.mp ht) operation hoperation hne)
  rejoins point hpoint ht := h.rejoins point (hframe.rejoins point hpoint) (hframe.tracked.mp ht)
  settled ht := by
    have hsettled := h.settled (hframe.tracked.mp ht)
    have hreported : (∃ c, s.completion = some c ∧ c.node = node ∧ c.reported = true) →
        ∃ c, s'.completion = some c ∧ c.node = node ∧ c.reported = true := fun ⟨c, hc, hnode, hr⟩ =>
      ⟨c, (hframe.completion c hnode).mpr hc, hnode, hr⟩
    refine ⟨hframe.status ▸ hsettled.status, hframe.unadded hsettled.unadded, ?_, ?_⟩
    · rw [hframe.status]
      refine hsettled.recovery.imp (hframe.noneOf (.inl rfl)) (Or.imp_right (Or.imp ?_ hreported))
      exact fun ⟨t, ht, hnode, hentered⟩ => ⟨t, (hframe.expired t hnode).mpr ht, hnode, hentered⟩
    · rw [hframe.status, hframe.handler, hframe.handler]
      exact hsettled.deletion.imp (hframe.noneOf (.inr rfl))
        (Or.imp_right (Or.imp_right (Or.imp_right hreported)))

end

/-- What a step does to the table keeps what is said of the entries of the node. -/
structure TableFrame (m m' : StateChangeManager) (node : String) : Prop where
  unadded : m.Unadded node → m'.Unadded node
  entered : NoneEntered m m' node
  kept : NoneEntered m' m node
  naList : m'.pass.naList = m.pass.naList

/-- The threads that work on the node are the same. -/
structure OtherThreads (s s' : LeaderThreads) (node : String) : Prop where
  handler : ∀ point, s'.handler = some (node, point) ↔ s.handler = some (node, point)
  expired : ∀ t, t.node = node → (s'.expired = some t ↔ s.expired = some t)
  completion : ∀ c, c.node = node → (s'.completion = some c ↔ s.completion = some c)
  rejoins : ∀ point, (node, point) ∈ s'.rejoins → (node, point) ∈ s.rejoins

section

variable {T : String → Prop} {s s' : LeaderThreads} {node worked : String}

theorem TableFrame.refl (m : StateChangeManager) (node : String) : TableFrame m m node :=
  ⟨fun h => h, noneEntered_of_eq fun _ _ => rfl, noneEntered_of_eq fun _ _ => rfl, rfl⟩

theorem TableFrame.enters {m m' : StateChangeManager} {operation : StateChangeOperation}
    (h : Enters worked operation m m') (hne : node ≠ worked) : TableFrame m m' node :=
  ⟨fun hadd => h.unadded hadd (.inl hne), (h.noneEntered hne).1, (h.noneEntered hne).2,
    by rw [h.pass]⟩

theorem TableFrame.quiet {m m' : StateChangeManager} (h : Quiet m m') (node : String) :
    TableFrame m m' node :=
  ⟨fun hadd => hadd.quiet h, (noneEntered_of_step h.table node).1,
    (noneEntered_of_step h.table node).2, h.naList⟩

theorem Frame.of_table (htable : TableFrame s.states s'.states node)
    (hthreads : OtherThreads s s' node) (hdeleting : s'.deleting ⊆ s.deleting)
    (hstatus : s'.getNodeStatus node = s.getNodeStatus node) : Frame s s' node where
  status := hstatus
  unadded := htable.unadded
  entered := htable.entered
  kept := .inr ⟨htable.kept, htable.naList, hdeleting⟩
  handler := hthreads.handler
  expired := hthreads.expired
  completion := hthreads.completion
  rejoins := hthreads.rejoins

theorem OtherThreads.of_handler (worked : String) (hs : ∀ w, s.handler = some w → w.1 = worked)
    (hs' : ∀ w, s'.handler = some w → w.1 = worked) (hexpired : s'.expired = s.expired)
    (hcompletion : s'.completion = s.completion) (hrejoins : s'.rejoins = s.rejoins)
    (hne : node ≠ worked) : OtherThreads s s' node where
  handler point := iff_of_false (fun h => hne (hs' _ h)) fun h => hne (hs _ h)
  expired _ _ := by rw [hexpired]
  completion _ _ := by rw [hcompletion]
  rejoins _ := by rw [hrejoins]; exact id

theorem OtherThreads.of_expired (worked : String) (hs : ∀ t, s.expired = some t → t.node = worked)
    (hs' : ∀ t, s'.expired = some t → t.node = worked) (hhandler : s'.handler = s.handler)
    (hcompletion : s'.completion = s.completion) (hrejoins : s'.rejoins = s.rejoins)
    (hne : node ≠ worked) : OtherThreads s s' node where
  handler _ := by rw [hhandler]
  expired t ht := iff_of_false (fun h => hne (ht.symm.trans (hs' t h)))
    fun h => hne (ht.symm.trans (hs t h))
  completion _ _ := by rw [hcompletion]
  rejoins _ := by rw [hrejoins]; exact id

theorem OtherThreads.of_completion (worked : String)
    (hs : ∀ c, s.completion = some c → c.node = worked)
    (hs' : ∀ c, s'.completion = some c → c.node = worked) (hhandler : s'.handler = s.handler)
    (hexpired : s'.expired = s.expired) (hrejoins : s'.rejoins = s.rejoins)
    (hne : node ≠ worked) : OtherThreads s s' node where
  handler _ := by rw [hhandler]
  expired _ _ := by rw [hexpired]
  completion c hc := iff_of_false (fun h => hne (hc.symm.trans (hs' c h)))
    fun h => hne (hc.symm.trans (hs c h))
  rejoins _ := by rw [hrejoins]; exact id

theorem Inv.of_work (worked : String) (h : Inv T s) (htable : s'.states.WellFormed s'.deleting)
    (hphase : s'.completion ≠ none → s'.states.pass.phase = .deleting) (hapart : s'.workers.Nodup)
    (hframe : ∀ node, node ≠ worked → Frame s s' node) (hworked : NodeOk T s' worked) :
    Inv T s' where
  table := htable
  phase := hphase
  apart := hapart
  node node := by
    by_cases hnode : node = worked
    · exact hnode ▸ hworked
    · exact (h.node node).frame (hframe node hnode)

theorem mem_workers : node ∈ s.workers ↔ (∃ point, s.handler = some (node, point)) ∨
    (∃ t, s.expired = some t ∧ t.node = node) ∨
      (∃ c, s.completion = some c ∧ c.node = node) ∨ ∃ point, (node, point) ∈ s.rejoins := by
  simp [workers]

theorem workers_of_handler {point : HandlerPoint} (h : s.handler = some (node, point)) :
    s.workers = node :: (s.expired.toList.map (·.node) ++
      (s.completion.toList.map (·.node) ++ s.rejoins.map (·.1))) := by
  simp [workers, h]

theorem handler_alone (h : s.workers.Nodup) {point : HandlerPoint}
    (hhandler : s.handler = some (node, point)) :
    (∀ t, s.expired = some t → t.node ≠ node) ∧ (∀ c, s.completion = some c → c.node ≠ node) ∧
      ∀ point, (node, point) ∉ s.rejoins := by
  rw [workers_of_handler hhandler, List.nodup_cons] at h
  refine ⟨fun t ht hnode => h.1 ?_, fun c hc hnode => h.1 ?_, fun point hpoint => h.1 ?_⟩
  · simp [ht, hnode]
  · simp [hc, hnode]
  · simp only [List.mem_append, List.mem_map]
    exact .inr (.inr ⟨_, hpoint, rfl⟩)

theorem expired_alone (h : s.workers.Nodup) {t : ExpiredNode} (ht : s.expired = some t) :
    (∀ point, s.handler ≠ some (t.node, point)) ∧
      (∀ c, s.completion = some c → c.node ≠ t.node) ∧
      ∀ point, (t.node, point) ∉ s.rejoins := by
  have hperm : s.workers.Perm (t.node :: (s.handler.toList.map (·.1) ++
      (s.completion.toList.map (·.node) ++ s.rejoins.map (·.1)))) := by
    simp only [workers, ht, Option.toList_some, List.map_cons, List.map_nil, List.singleton_append]
    exact List.perm_middle
  rw [hperm.nodup_iff, List.nodup_cons] at h
  refine ⟨fun point hpoint => h.1 ?_, fun c hc hnode => h.1 ?_, fun point hpoint => h.1 ?_⟩
  · simp [hpoint]
  · simp [hc, hnode]
  · simp only [List.mem_append, List.mem_map]
    exact .inr (.inr ⟨_, hpoint, rfl⟩)

theorem completion_alone (h : s.workers.Nodup) {c : Completion} (hc : s.completion = some c) :
    (∀ point, s.handler ≠ some (c.node, point)) ∧
      (∀ t, s.expired = some t → t.node ≠ c.node) ∧
      ∀ point, (c.node, point) ∉ s.rejoins := by
  have hperm : s.workers.Perm (c.node :: (s.handler.toList.map (·.1) ++
      (s.expired.toList.map (·.node) ++ s.rejoins.map (·.1)))) := by
    simp only [workers, hc, Option.toList_some, List.map_cons, List.map_nil, List.singleton_append]
    rw [← List.append_assoc, ← List.append_assoc]
    exact List.perm_middle
  rw [hperm.nodup_iff, List.nodup_cons] at h
  refine ⟨fun point hpoint => h.1 ?_, fun t ht hnode => h.1 ?_, fun point hpoint => h.1 ?_⟩
  · simp [hpoint]
  · simp [ht, hnode]
  · simp only [List.mem_append, List.mem_map]
    exact .inr (.inr ⟨_, hpoint, rfl⟩)

theorem rejoin_alone (h : s.workers.Nodup) {point : RejoinPoint} (hr : (node, point) ∈ s.rejoins) :
    (∀ point, s.handler ≠ some (node, point)) ∧ (∀ t, s.expired = some t → t.node ≠ node) ∧
      ∀ c, s.completion = some c → c.node ≠ node := by
  have hmem : node ∈ s.rejoins.map (·.1) := List.mem_map.mpr ⟨_, hr, rfl⟩
  have hdisjoint : ∀ a ∈ s.handler.toList.map (·.1) ++ (s.expired.toList.map (·.node) ++
      s.completion.toList.map (·.node)), a ≠ node := by
    have happend : s.workers = (s.handler.toList.map (·.1) ++ (s.expired.toList.map (·.node) ++
        s.completion.toList.map (·.node))) ++ s.rejoins.map (·.1) := by
      simp [workers]
    rw [happend, List.nodup_append] at h
    exact fun a ha => h.2.2 a ha node hmem
  refine ⟨fun point hpoint => hdisjoint node ?_ rfl, fun t ht hnode => hdisjoint t.node ?_ hnode,
    fun c hc hnode => hdisjoint c.node ?_ hnode⟩
  · simp [hpoint]
  · simp [ht]
  · simp [hc]

theorem apart_of_sublist (h : s.workers.Nodup)
    (hhandler : (s'.handler.toList.map (·.1)).Sublist (s.handler.toList.map (·.1)))
    (hexpired : (s'.expired.toList.map (·.node)).Sublist (s.expired.toList.map (·.node)))
    (hcompletion : (s'.completion.toList.map (·.node)).Sublist (s.completion.toList.map (·.node)))
    (hrejoins : (s'.rejoins.map (·.1)).Sublist (s.rejoins.map (·.1))) : s'.workers.Nodup :=
  h.sublist (hhandler.append (hexpired.append (hcompletion.append hrejoins)))

end

section

variable {T : String → Prop} {s s' : LeaderThreads} {node : String}

theorem not_tracked (h : Inv T s) (hstatus : ¬ (s.getNodeStatus node).AsRetired) :
    ¬ Tracked T s node := fun ht => hstatus ((h.node node).settled ht).status

theorem getNodeStatus_other (s : LeaderThreads) {node other : String} (status : NodeStatus)
    (wrote : Bool) (hne : other ≠ node) :
    (s.changeStatusInMonitoringComponent node status wrote).1.getNodeStatus other =
      s.getNodeStatus other := by
  unfold changeStatusInMonitoringComponent
  split
  · split
    · simp only [getNodeStatus, getElem?_insert_eq, if_neg hne.symm]
    · rfl
  · rfl

theorem getNodeStatus_changed (s : LeaderThreads) (node : String) (status : NodeStatus)
    (wrote : Bool) :
    (s.changeStatusInMonitoringComponent node status wrote).1.getNodeStatus node =
        statusAfter (s.getNodeStatus node) status ∨
      (wrote = true → s.getNodeStatus node = .invalidNode) ∧
        (s.changeStatusInMonitoringComponent node status wrote).1.getNodeStatus node =
          s.getNodeStatus node := by
  unfold changeStatusInMonitoringComponent
  cases hcurrent : s.activeNodeMap[node]? with
  | none => exact .inr ⟨fun _ => by rw [getNodeStatus, hcurrent]; rfl, rfl⟩
  | some current =>
      cases wrote with
      | true => exact .inl (by simp [getNodeStatus, hcurrent])
      | false => exact .inr ⟨fun h => (by cases h), rfl⟩

theorem changeStatusInMemory_eq (s : LeaderThreads) (node : String) (status : NodeStatus) :
    s.changeStatusInMemory node status = { s with
      activeNodeMap := (s.changeStatusInMemory node status).activeNodeMap } := by
  unfold changeStatusInMemory
  split <;> rfl

theorem getNodeStatus_otherInMemory (s : LeaderThreads) {node other : String}
    (status : NodeStatus) (hne : other ≠ node) :
    (s.changeStatusInMemory node status).getNodeStatus other = s.getNodeStatus other := by
  unfold changeStatusInMemory
  split
  · simp only [getNodeStatus, getElem?_insert_eq, if_neg hne.symm]
  · rfl

theorem getNodeStatus_changedInMemory (s : LeaderThreads) (node : String) (status : NodeStatus) :
    (s.changeStatusInMemory node status).getNodeStatus node = status ∨
      s.getNodeStatus node = .invalidNode ∧
        (s.changeStatusInMemory node status).getNodeStatus node = s.getNodeStatus node := by
  unfold changeStatusInMemory
  cases hcurrent : s.activeNodeMap[node]? with
  | none => exact .inr ⟨by rw [getNodeStatus, hcurrent]; rfl, rfl⟩
  | some current => exact .inl (by simp [getNodeStatus])

theorem Inv.of_handler {point : HandlerPoint} (h : Inv T s) (hs : s.handler = some (node, point))
    (hs' : ∀ w, s'.handler = some w → w.1 = node) (hexpired : s'.expired = s.expired)
    (hcompletion : s'.completion = s.completion) (hrejoins : s'.rejoins = s.rejoins)
    (hdeleting : s'.deleting = s.deleting) (hpass : s'.states.pass = s.states.pass)
    (htable : s'.states.WellFormed s.deleting)
    (hframe : ∀ other, other ≠ node → TableFrame s.states s'.states other)
    (hstatus : ∀ other, other ≠ node → s'.getNodeStatus other = s.getNodeStatus other)
    (hok : ∀ point, s'.handler = some (node, point) → HandlerOk T s' node point)
    (hsettled : Tracked T s' node → Settled s' node) : Inv T s' := by
  obtain ⟨hnoexpired, hnocompletion, hnorejoin⟩ := handler_alone h.apart hs
  refine h.of_work node (hdeleting ▸ htable) (hcompletion ▸ hpass ▸ h.phase) ?_
    (fun other hne => .of_table (hframe other hne) ?_ (by simp [hdeleting]) (hstatus other hne))
    ⟨hok, fun t ht hnode => ?_, fun c hc hnode => ?_, fun point hpoint => ?_, hsettled⟩
  · refine apart_of_sublist h.apart ?_ (by rw [hexpired]) (by rw [hcompletion]) (by rw [hrejoins])
    rw [hs]
    cases hnew : s'.handler with
    | none => simp
    | some w => simp [hs' w hnew]
  · exact .of_handler _ (fun w hw => by rw [hs] at hw; exact (Option.some.inj hw) ▸ rfl) hs'
      hexpired hcompletion hrejoins hne
  · exact absurd hnode (hnoexpired t (hexpired ▸ ht))
  · exact absurd hnode (hnocompletion c (hcompletion ▸ hc))
  · exact absurd (hrejoins ▸ hpoint) (hnorejoin point)

/-- What is settled stays so when the handler leaves a point where it has entered nothing. -/
theorem Settled.of_handler (h : Settled s node) {point : HandlerPoint}
    (hs : s.handler = some (node, point))
    (hpoint : point ≠ .failoverEntry ∧ point ≠ .retireStatus) (hstates : s'.states = s.states)
    (hexpired : s'.expired = s.expired) (hcompletion : s'.completion = s.completion)
    (hstatus : s'.getNodeStatus node = s.getNodeStatus node) : Settled s' node where
  status := hstatus ▸ h.status
  unadded := hstates ▸ h.unadded
  recovery := by
    rw [hstates, hexpired, hcompletion, hstatus]
    exact h.recovery
  deletion := by
    rw [hstates, hcompletion, hstatus]
    refine h.deletion.imp_right (Or.imp_right ?_)
    rintro (heq | heq | hreported)
    · rw [hs] at heq
      exact absurd (Prod.mk.inj (Option.some.inj heq)).2 hpoint.1
    · rw [hs] at heq
      exact absurd (Prod.mk.inj (Option.some.inj heq)).2 hpoint.2
    · exact .inr (.inr hreported)

end

section

variable {T : String → Prop} {s s' : LeaderThreads} {node : String}

theorem inv_receive (h : Inv T s) {message : NodeMessage}
    (hcond : Condition s (.receive message node)) (hstep : s.receive message node = some s') :
    Inv T s' := by
  obtain ⟨hidle, hfailed⟩ := hcond
  unfold receive at hstep
  split at hstep
  · cases hstep
  rename_i hnone
  rw [Bool.not_eq_true, Option.isSome_eq_false_iff, Option.isNone_iff_eq_none] at hnone
  obtain rfl := Option.some.inj hstep
  have hnew : node ∉ s.workers := hidle
  rw [mem_workers] at hidle
  refine h.of_work node h.table h.phase ?_ (fun other hne => .of_table (.refl _ _)
    (.of_handler node (by simp [hnone]) (by simp) rfl rfl rfl hne) (fun _ h => h) rfl)
    ⟨fun point hpoint => ?_, fun t ht hnode => ?_, fun c hc hnode => ?_, fun point hpoint => ?_,
      fun ht => ?_⟩
  · have hworkers : ∀ point, LeaderThreads.workers { s with handler := some (node, point) } =
        node :: s.workers := fun point => by simp [workers, hnone]
    rw [hworkers]
    exact List.nodup_cons.mpr ⟨hnew, h.apart⟩
  · obtain rfl := (Prod.mk.inj (Option.some.inj hpoint)).2
    cases message with
    | nodeFailover => exact ⟨rfl, hfailed rfl⟩
    | nodeStop => exact rfl
    | nodeRetire => exact rfl
  · exact absurd (.inr (.inl ⟨t, ht, hnode⟩)) hidle
  · exact absurd (.inr (.inr (.inl ⟨c, hc, hnode⟩))) hidle
  · exact absurd (.inr (.inr (.inr ⟨point, hpoint⟩))) hidle
  · have hold := (h.node node).settled ht
    refine ⟨hold.status, hold.unadded, hold.recovery, hold.deletion.imp_right (Or.imp_right ?_)⟩
    rintro (heq | heq | hreported)
    · rw [hnone] at heq
      cases heq
    · rw [hnone] at heq
      cases heq
    · exact .inr (.inr hreported)

/-- The handler is done with the message and has changed nothing since it read the status. -/
theorem Inv.dismiss {point : HandlerPoint} (h : Inv T s) (hs : s.handler = some (node, point))
    (hpoint : point ≠ .failoverEntry ∧ point ≠ .retireStatus) :
    Inv T { s with handler := none } :=
  h.of_handler hs (by simp) rfl rfl rfl rfl rfl h.table (fun _ _ => .refl _ _) (fun _ _ => rfl)
    (by simp) fun ht => ((h.node node).settled ht).of_handler hs hpoint rfl rfl rfl rfl

theorem Inv.changeStatus {point : HandlerPoint} (h : Inv T s) (hs : s.handler = some (node, point))
    (status : NodeStatus) (wrote : Bool) {next : Option (String × HandlerPoint)}
    (hnext : ∀ w, next = some w → w.1 = node)
    (hok : ∀ t : LeaderThreads, t.states = s.states → t.expired = s.expired →
      t.completion = s.completion → t.handler = next →
      (t.getNodeStatus node = statusAfter (s.getNodeStatus node) status ∨
        (wrote = true → s.getNodeStatus node = .invalidNode) ∧
          t.getNodeStatus node = s.getNodeStatus node) →
      (∀ point, next = some (node, point) → HandlerOk T t node point) ∧
        (Tracked T t node → Settled t node)) :
    Inv T { (s.changeStatusInMonitoringComponent node status wrote).1 with handler := next } := by
  have hself := getNodeStatus_changed s node status wrote
  have hother := fun other (hne : other ≠ node) => getNodeStatus_other s status wrote hne
  rw [changeStatusInMonitoringComponent_eq] at hself hother ⊢
  obtain ⟨hpoint, hsettled⟩ := hok { s with
    activeNodeMap := (s.changeStatusInMonitoringComponent node status wrote).1.activeNodeMap
    handler := next } rfl rfl rfl rfl hself
  exact h.of_handler hs hnext rfl rfl rfl rfl rfl h.table (fun _ _ => .refl _ _) hother hpoint
    hsettled

theorem statusAfter_retiringFailed (current : NodeStatus) :
    statusAfter current .retiringFailed = .retiringFailed := by
  simp [statusAfter]

theorem inv_handle_failover {status : NodeStatus} {wrote : Bool} (h : Inv T s)
    (hs : s.handler = some (node, .failover status)) (hcond : Condition s (.handle wrote))
    (hstep : s.handle wrote = some s') : Inv T s' := by
  obtain ⟨rfl, hfailed⟩ := (h.node node).handler _ hs
  simp only [handle, hs] at hstep
  split at hstep
  · exact Option.some.inj hstep ▸ h.dismiss hs (by simp)
  rename_i hmember
  obtain rfl := Option.some.inj hstep
  simp only [not_or] at hmember
  refine h.changeStatus hs _ wrote (by simp) fun t hstates hexpired hcompletion hnext hstatus => ?_
  -- a node that is followed is retiring, and has failed now
  have hretiring : Tracked T t node → s.getNodeStatus node = .retiring ∧
      t.getNodeStatus node = .retiringFailed := by
    intro ht
    have hold : s.getNodeStatus node = .retiring := by
      by_contra hne
      have hnot : ¬ (s.getNodeStatus node).AsRetired := by
        rintro (heq | heq | heq | heq)
        · exact hne heq
        · exact hfailed heq
        · exact hmember.1 heq
        · exact hmember.2.1 heq
      rw [if_neg hne] at hstatus
      rcases ht with ht | ht
      · exact not_tracked h hnot (.inl ht)
      · rcases hstatus with hstatus | ⟨-, hstatus⟩
        · rw [hstatus] at ht
          simp [statusAfter, NodeStatus.Retiring] at ht
        · rw [hstatus] at ht
          exact hnot ht.asRetired
    refine ⟨hold, ?_⟩
    have hwrote : wrote = true := hcond _ hs (.inl (by rw [hold]))
    rw [if_pos hold, statusAfter_retiringFailed] at hstatus
    exact hstatus.resolve_right fun hsame => hmember.2.2 (hsame.1 hwrote)
  refine ⟨fun point hpoint => ?_, fun ht => ?_⟩
  · obtain rfl := (Prod.mk.inj (Option.some.inj hpoint)).2
    exact fun ht => (hretiring ht).2
  · obtain ⟨hold, hnew⟩ := hretiring ht
    have hsettled := (h.node node).settled (.inr (.inl hold))
    exact ⟨.inr (.inl hnew), hstates ▸ hsettled.unadded, .inr (.inl hnew),
      .inr (.inr (.inl hnext))⟩

theorem inv_handle_failoverEntry {wrote : Bool} (h : Inv T s)
    (hs : s.handler = some (node, .failoverEntry)) (hstep : s.handle wrote = some s') :
    Inv T s' := by
  simp only [handle, hs] at hstep
  obtain rfl := Option.some.inj hstep
  have henters := enters_prepareAndAddEntry s.states node .nodeRecovery
  refine h.of_handler hs (by simp) rfl rfl rfl rfl henters.pass
    (h.table.prepareAndAddEntry node .nodeRecovery)
    (fun other hne => .enters henters hne) (fun _ _ => rfl) (by simp) fun ht => ?_
  have hstatus : s.getNodeStatus node = .retiringFailed := (h.node node).handler _ hs ht
  have hsettled := (h.node node).settled ht
  exact ⟨hsettled.status, henters.unadded hsettled.unadded (.inr (by simp)), .inr (.inl hstatus),
    .inl (h.table.noneDeleted_of_recovery node)⟩

theorem inv_handle_stop {status : NodeStatus} {wrote : Bool} (h : Inv T s)
    (hs : s.handler = some (node, .stop status)) (hstep : s.handle wrote = some s') : Inv T s' := by
  have hread : status = s.getNodeStatus node := (h.node node).handler _ hs
  simp only [handle, hs] at hstep
  split at hstep
  · rename_i hregistered
    obtain rfl := Option.some.inj hstep
    rw [hread] at hregistered
    refine h.changeStatus hs _ wrote (by simp) fun t _ _ _ _ hstatus => ?_
    have hnot : ¬ Tracked T t node := by
      rintro (ht | ht)
      · exact not_tracked h (by rw [hregistered]; decide) (.inl ht)
      · rw [hregistered] at hstatus
        rcases hstatus with hstatus | ⟨-, hstatus⟩ <;> rw [hstatus] at ht <;> revert ht <;> decide
    refine ⟨fun point hpoint => ?_, fun ht => absurd ht hnot⟩
    obtain rfl := (Prod.mk.inj (Option.some.inj hpoint)).2
    exact hnot
  · exact Option.some.inj hstep ▸ h.dismiss hs (by simp)

theorem inv_handle_stopEntry {wrote : Bool} (h : Inv T s) (hs : s.handler = some (node, .stopEntry))
    (hstep : s.handle wrote = some s') : Inv T s' := by
  have hnot : ¬ Tracked T s node := (h.node node).handler _ hs
  simp only [handle, hs] at hstep
  obtain rfl := Option.some.inj hstep
  have henters := enters_prepareAndAddEntry s.states node .nodeDeletion
  exact h.of_handler hs (by simp) rfl rfl rfl rfl henters.pass
    (h.table.prepareAndAddEntry node .nodeDeletion) (fun other hne => .enters henters hne)
    (fun _ _ => rfl) (by simp) fun ht => absurd ht hnot

theorem inv_enterRetirement {status : NodeStatus} (h : Inv T s)
    (hs : s.handler = some (node, .retire status))
    (hmember : status ≠ .retired ∧ status ≠ .retiredRecovered)
    (hretire : s.states.checkIfNodeCanBeRetired node = true) :
    Inv T { s.prepareAndAddEntry node .nodeDeletion with
      handler := some (node, .retireStatus) } := by
  obtain rfl : status = s.getNodeStatus node := (h.node node).handler _ hs
  have henters := enters_prepareAndAddEntry s.states node .nodeDeletion
  have habsent : ∀ id, getNodeId id = node → OfNode id → s.states.stateMap[id]? = none := by
    rintro id rfl ⟨service, hservice, hid⟩
    rw [hid]
    simpa using List.all_eq_true.mp hretire service hservice
  have hrecovery : (s.states.prepareAndAddEntry node .nodeDeletion).NoneOf node .nodeRecovery := by
    intro id e' he' hid hop
    cases he : s.states.stateMap[id]? with
    | none =>
        rw [(henters.fresh id e' he' he).1] at hop
        cases hop
    | some e =>
        obtain ⟨e₁, he₁, hsame⟩ := henters.entry id e he
        obtain rfl := Option.some.inj (he'.symm.trans he₁)
        obtain rfl := hsame.resolve_right (by simp)
        rw [habsent id hid (h.table.ids id e' he (.inl hop))] at he
        cases he
  have hunadded : s.states.Unadded node := by
    refine ⟨fun id hin hid => ?_, fun id e he hid hnew => ?_⟩
    · obtain ⟨⟨e, he, -⟩, hofNode⟩ := h.table.listed id hin
      rw [habsent id hid hofNode] at he
      cases he
    · rw [habsent id hid (h.table.ids id e he (.inr (.inr hnew)))] at he
      cases he
  have hunadded' := henters.unadded hunadded (.inr (by simp))
  refine h.of_handler hs (by simp) rfl rfl rfl rfl henters.pass
    (h.table.prepareAndAddEntry node .nodeDeletion) (fun other hne => .enters henters hne)
    (fun _ _ => rfl) (fun point hpoint => ?_) fun ht =>
      ⟨((h.node node).settled ht).status, hunadded', .inl hrecovery, .inr (.inr (.inr (.inl rfl)))⟩
  obtain rfl := (Prod.mk.inj (Option.some.inj hpoint)).2
  refine ⟨hrecovery, hunadded', fun ht => ?_⟩
  rcases ((h.node node).settled ht).status with heq | heq | heq | heq
  · exact .inl heq
  · exact .inr heq
  · exact absurd heq hmember.1
  · exact absurd heq hmember.2

theorem inv_handle_retire {status : NodeStatus} {wrote : Bool} (h : Inv T s)
    (hs : s.handler = some (node, .retire status)) (hstep : s.handle wrote = some s') :
    Inv T s' := by
  have hread : status = s.getNodeStatus node := (h.node node).handler _ hs
  simp only [handle, hs] at hstep
  split_ifs at hstep with hended hrecovered hretire
  · exact Option.some.inj hstep ▸ h.dismiss hs (by simp)
  · obtain rfl := Option.some.inj hstep
    rw [hread] at hrecovered
    refine h.changeStatus hs _ wrote (by simp) fun t _ _ _ _ hstatus => ⟨by simp, fun ht => ?_⟩
    exfalso
    rcases ht with ht | ht
    · exact not_tracked h (by rw [hrecovered]; decide) (.inl ht)
    · rw [hrecovered] at hstatus
      rcases hstatus with hstatus | ⟨-, hstatus⟩ <;> rw [hstatus] at ht <;> revert ht <;> decide
  · obtain rfl := Option.some.inj hstep
    exact inv_enterRetirement h hs ⟨fun heq => hended (.inl heq), fun heq =>
      hended (.inr (.inl heq))⟩ hretire
  · exact Option.some.inj hstep ▸ h.dismiss hs (by simp)

theorem statusAfter_retiring (current : NodeStatus) :
    statusAfter current .retiring = .retiring := by
  simp [statusAfter]

theorem inv_handle_retireStatus {wrote : Bool} (h : Inv T s)
    (hs : s.handler = some (node, .retireStatus)) (hcond : Condition s (.handle wrote))
    (hstep : s.handle wrote = some s') : Inv T s' := by
  obtain ⟨hrecovery, hunadded, hretiring⟩ := (h.node node).handler _ hs
  simp only [handle, hs] at hstep
  obtain rfl := Option.some.inj hstep
  refine h.changeStatus hs _ wrote (by simp) fun t hstates hexpired hcompletion _ hstatus =>
    ⟨by simp, fun ht => ?_⟩
  have hnew : t.getNodeStatus node = .retiring := by
    rw [statusAfter_retiring] at hstatus
    rcases hstatus with hstatus | ⟨hwrote, hsame⟩
    · exact hstatus
    · have hold : Tracked T s node := by rwa [Tracked, hsame] at ht
      rcases hretiring hold with heq | heq
      · exact hsame.trans heq
      · have hinvalid := hwrote (hcond _ hs (.inr ⟨rfl, heq⟩))
        rw [heq] at hinvalid
        cases hinvalid
  exact ⟨.inl hnew, hstates ▸ hunadded, .inl (hstates ▸ hrecovery), .inr (.inl hnew)⟩

theorem inv_handle (h : Inv T s) {wrote : Bool} (hcond : Condition s (.handle wrote))
    (hstep : s.handle wrote = some s') : Inv T s' := by
  cases hs : s.handler with
  | none =>
      simp only [handle, hs] at hstep
      cases hstep
  | some w =>
      obtain ⟨node, point⟩ := w
      cases point with
      | failover status => exact inv_handle_failover h hs hcond hstep
      | failoverEntry => exact inv_handle_failoverEntry h hs hstep
      | stop status => exact inv_handle_stop h hs hstep
      | stopEntry => exact inv_handle_stopEntry h hs hstep
      | retire status => exact inv_handle_retire h hs hstep
      | retireStatus => exact inv_handle_retireStatus h hs hcond hstep

end

section

variable {T : String → Prop} {s s' : LeaderThreads} {node : String}

theorem inv_expire (h : Inv T s) (hcond : Condition s (.expire node))
    (hstep : s.expire node = some s') : Inv T s' := by
  obtain ⟨hidle, hfailed, hrecovered⟩ := hcond
  simp only [expire] at hstep
  split at hstep
  · cases hstep
  rename_i hguard
  simp only [not_or, Bool.not_eq_true, Option.isSome_eq_false_iff,
    Option.isNone_iff_eq_none] at hguard
  obtain ⟨hnone, -, -, -, -, hretired, -⟩ := hguard
  obtain rfl := Option.some.inj hstep
  have hnew : node ∉ s.workers := hidle
  rw [mem_workers] at hidle
  refine h.of_work node h.table h.phase ?_ (fun other hne => .of_table (.refl _ _)
    (.of_expired node (by simp [hnone]) (by simp) rfl rfl rfl hne) (fun _ h => h) rfl)
    ⟨fun point hpoint => ?_, fun t ht hnode => ?_, fun c hc hnode => ?_, fun point hpoint => ?_,
      fun ht => ?_⟩
  · have hperm : ∀ t : ExpiredNode, t.node = node →
        (LeaderThreads.workers { s with expired := some t }).Perm (node :: s.workers) := by
      intro t ht
      simp only [workers, hnone, Option.toList_some, Option.toList_none, List.map_cons,
        List.map_nil, List.singleton_append, List.nil_append, ht]
      exact List.perm_middle
    exact (hperm _ rfl).nodup_iff.mpr (List.nodup_cons.mpr ⟨hnew, h.apart⟩)
  · exact absurd (.inl ⟨point, hpoint⟩) hidle
  · obtain rfl := Option.some.inj ht
    by_cases hretiring : s.getNodeStatus node = .retiring
    · simp only [if_pos hretiring]
      exact ⟨.inl rfl, fun _ => ⟨hretiring, by simp⟩, by simp⟩
    · simp only [if_neg hretiring]
      have hnot : ¬ Tracked T s node := by
        refine not_tracked h ?_
        rintro (heq | heq | heq | heq)
        · exact hretiring heq
        · exact hfailed heq
        · exact hretired heq
        · exact hrecovered heq
      exact ⟨.inr rfl, by simp, fun _ => hnot⟩
  · exact absurd (.inr (.inr (.inl ⟨c, hc, hnode⟩))) hidle
  · exact absurd (.inr (.inr (.inr ⟨point, hpoint⟩))) hidle
  · have hold := (h.node node).settled ht
    refine ⟨hold.status, hold.unadded, hold.recovery.imp_right (Or.imp_right ?_), hold.deletion⟩
    rintro (⟨t, ht, -⟩ | hreported)
    · rw [hnone] at ht
      cases ht
    · exact .inr hreported

theorem Inv.of_expired {t : ExpiredNode} (h : Inv T s) (hs : s.expired = some t)
    (hs' : ∀ t', s'.expired = some t' → t'.node = t.node) (hhandler : s'.handler = s.handler)
    (hcompletion : s'.completion = s.completion) (hrejoins : s'.rejoins = s.rejoins)
    (hdeleting : s'.deleting = s.deleting) (hpass : s'.states.pass = s.states.pass)
    (htable : s'.states.WellFormed s.deleting)
    (hframe : ∀ other, other ≠ t.node → TableFrame s.states s'.states other)
    (hstatus : ∀ other, other ≠ t.node → s'.getNodeStatus other = s.getNodeStatus other)
    (hok : ∀ t', s'.expired = some t' → ExpiredOk T s' t')
    (hsettled : Tracked T s' t.node → Settled s' t.node) : Inv T s' := by
  obtain ⟨hnohandler, hnocompletion, hnorejoin⟩ := expired_alone h.apart hs
  refine h.of_work t.node (hdeleting ▸ htable) (hcompletion ▸ hpass ▸ h.phase) ?_
    (fun other hne => .of_table (hframe other hne) ?_ (by simp [hdeleting]) (hstatus other hne))
    ⟨fun point hpoint => ?_, fun t' ht' _ => hok t' ht', fun c hc hnode => ?_,
      fun point hpoint => ?_, hsettled⟩
  · refine apart_of_sublist h.apart (by rw [hhandler]) ?_ (by rw [hcompletion]) (by rw [hrejoins])
    rw [hs]
    cases hnew : s'.expired with
    | none => simp
    | some t' => simp [hs' t' hnew]
  · exact .of_expired _ (fun t' ht' => by rw [hs] at ht'; exact (Option.some.inj ht') ▸ rfl) hs'
      hhandler hcompletion hrejoins hne
  · exact absurd (hhandler ▸ hpoint) (hnohandler point)
  · exact absurd hnode (hnocompletion c (hcompletion ▸ hc))
  · exact absurd (hrejoins ▸ hpoint) (hnorejoin point)

theorem inv_enterExpired (h : Inv T s) (hstep : s.enterExpired = some s') : Inv T s' := by
  unfold enterExpired at hstep
  cases hs : s.expired with
  | none =>
      simp only [hs] at hstep
      cases hstep
  | some t =>
      simp only [hs] at hstep
      split at hstep
      · cases hstep
      obtain rfl := Option.some.inj hstep
      have hok := (h.node t.node).expired t hs rfl
      have henters := enters_prepareAndAddEntry s.states t.node .nodeRecovery
      have hdeletion := h.table.noneDeleted_of_recovery t.node
      refine h.of_expired hs (by simp) rfl rfl rfl rfl henters.pass
        (h.table.prepareAndAddEntry t.node .nodeRecovery) (fun other hne => .enters henters hne)
        (fun _ _ => rfl) (fun t' ht' => ?_) fun ht => ?_
      · obtain rfl := Option.some.inj ht'
        exact ⟨hok.status, fun hst => ⟨(hok.retiring hst).1, fun _ => hdeletion⟩, hok.other⟩
      · have hsettled := (h.node t.node).settled ht
        exact ⟨hsettled.status, henters.unadded hsettled.unadded (.inr (by simp)),
          .inr (.inr (.inl ⟨_, rfl, rfl, rfl⟩)), .inl hdeletion⟩

theorem inv_setExpired (h : Inv T s) {wrote : Bool} (hcond : Condition s (.setExpired wrote))
    (hstep : s.setExpired wrote = some s') : Inv T s' := by
  unfold setExpired at hstep
  cases hs : s.expired with
  | none =>
      simp only [hs] at hstep
      cases hstep
  | some t =>
      simp only [hs] at hstep
      split at hstep
      case isFalse => cases hstep
      rename_i hentered
      obtain rfl := Option.some.inj hstep
      have hok := (h.node t.node).expired t hs rfl
      cases wrote with
      | true =>
          have hself := getNodeStatus_changedInMemory s t.node t.status
          have hother := fun other (hne : other ≠ t.node) =>
            getNodeStatus_otherInMemory s t.status hne
          simp only [if_true]
          rw [changeStatusInMemory_eq] at hself hother ⊢
          refine h.of_expired hs (by simp) rfl rfl rfl rfl rfl h.table (fun _ _ => .refl _ _)
            hother (by simp) fun ht => ?_
          rcases hok.status with hst | hst
          · obtain ⟨hold, hdeletion⟩ := hok.retiring hst
            have hnew := hself.resolve_right fun hsame => by
              rw [hold] at hsame
              cases hsame.1
            have hsettled := (h.node t.node).settled (.inr (.inl hold))
            exact ⟨.inr (.inl (hnew.trans hst)), hsettled.unadded, .inr (.inl (hnew.trans hst)),
              .inl (hdeletion hentered)⟩
          · exfalso
            rcases ht with ht | ht
            · exact hok.other hst (.inl ht)
            · rcases hself with hself | ⟨-, hself⟩
              · have hretiring : NodeStatus.failed.Retiring := by
                  rw [← hst, ← hself]
                  exact ht
                exact absurd hretiring (by decide)
              · exact hok.other hst (.inr (hself ▸ ht))
      | false =>
          simp only [Bool.false_eq_true, if_false]
          refine h.of_expired hs (by simp) rfl rfl rfl rfl rfl h.table (fun _ _ => .refl _ _)
            (fun _ _ => rfl) (by simp) fun ht => ?_
          rcases hok.status with hst | hst
          · exact absurd (hcond t hs hst) (by simp)
          · exact absurd ht (hok.other hst)

end

section

variable {T : String → Prop} {s s' : LeaderThreads} {node : String}

theorem inv_rejoin (h : Inv T s) (hcond : Condition s (.rejoin node))
    (hstep : s.rejoin node = some s') : Inv T s' := by
  have hidle : node ∉ s.workers := hcond
  unfold rejoin at hstep
  split at hstep
  case isFalse => cases hstep
  rename_i hstatus
  obtain rfl := Option.some.inj hstep
  have hnot : ¬ Tracked T s node := by
    refine not_tracked h ?_
    rcases hstatus with hstatus | hstatus <;> rw [hstatus] <;> decide
  rw [mem_workers] at hidle
  refine h.of_work node h.table h.phase ?_ (fun other hne => .of_table (.refl _ _)
    ⟨fun _ => Iff.rfl, fun _ _ => Iff.rfl, fun _ _ => Iff.rfl, fun point hpoint => ?_⟩
    (fun _ h => h) rfl)
    ⟨fun point hpoint => ?_, fun t ht hnode => ?_, fun c hc hnode => ?_, fun _ _ => hnot,
      fun ht => absurd ht hnot⟩
  · have happend : LeaderThreads.workers { s with rejoins := s.rejoins ++ [(node, .checked)] } =
        s.workers ++ [node] := by
      simp [workers]
    rw [happend]
    exact List.nodup_append.mpr ⟨h.apart, by simp, fun a ha b hb heq =>
      hcond (List.mem_singleton.mp hb ▸ heq ▸ ha)⟩
  · rcases List.mem_append.mp hpoint with hin | hin
    · exact hin
    · exact absurd (Prod.mk.inj (List.mem_singleton.mp hin)).1 hne
  · exact absurd (.inl ⟨point, hpoint⟩) hidle
  · exact absurd (.inr (.inl ⟨t, ht, hnode⟩)) hidle
  · exact absurd (.inr (.inr (.inl ⟨c, hc, hnode⟩))) hidle

theorem Inv.of_rejoin {point : RejoinPoint} (h : Inv T s) (hs : (node, point) ∈ s.rejoins)
    (hhandler : s'.handler = s.handler) (hexpired : s'.expired = s.expired)
    (hcompletion : s'.completion = s.completion) (hdeleting : s'.deleting = s.deleting)
    (hpass : s'.states.pass = s.states.pass) (htable : s'.states.WellFormed s.deleting)
    (hframe : ∀ other, other ≠ node → TableFrame s.states s'.states other)
    (hstatus : ∀ other, other ≠ node → s'.getNodeStatus other = s.getNodeStatus other)
    (hsublist : (s'.rejoins.map (·.1)).Sublist (s.rejoins.map (·.1)))
    (hothers : ∀ r ∈ s'.rejoins, r.1 ≠ node → r ∈ s.rejoins) (hnot : ¬ Tracked T s' node) :
    Inv T s' := by
  obtain ⟨hnohandler, hnoexpired, hnocompletion⟩ := rejoin_alone h.apart hs
  refine h.of_work node (hdeleting ▸ htable) (hcompletion ▸ hpass ▸ h.phase)
    (apart_of_sublist h.apart (by rw [hhandler]) (by rw [hexpired]) (by rw [hcompletion]) hsublist)
    (fun other hne => .of_table (hframe other hne) ?_ (by simp [hdeleting]) (hstatus other hne))
    ⟨fun point hpoint => ?_, fun t ht hnode => ?_, fun c hc hnode => ?_, fun _ _ => hnot,
      fun ht => absurd ht hnot⟩
  · exact ⟨fun _ => by rw [hhandler], fun _ _ => by rw [hexpired], fun _ _ => by rw [hcompletion],
      fun point hpoint => hothers _ hpoint hne⟩
  · exact absurd (hhandler ▸ hpoint) (hnohandler point)
  · exact absurd hnode (hnoexpired t (hexpired ▸ ht))
  · exact absurd hnode (hnocompletion c (hcompletion ▸ hc))

theorem map_set_fst {rejoins : List (String × RejoinPoint)} {i : Nat} {point : RejoinPoint}
    (h : rejoins[i]? = some (node, point)) (next : RejoinPoint) :
    (rejoins.set i (node, next)).map (·.1) = rejoins.map (·.1) := by
  apply List.ext_getElem?
  intro j
  by_cases hij : i = j
  · subst hij
    obtain ⟨hlt, heq⟩ := List.getElem?_eq_some_iff.mp h
    simp [hlt, heq]
  · simp [hij]

theorem mem_set_other {rejoins : List (String × RejoinPoint)} {i : Nat} {next : RejoinPoint} :
    ∀ r ∈ rejoins.set i (node, next), r.1 ≠ node → r ∈ rejoins := fun _ hr hne =>
  (List.mem_or_eq_of_mem_set hr).resolve_right fun heq => hne (heq ▸ rfl)

theorem Inv.rejoinInMemory {point : RejoinPoint} {i : Nat} (h : Inv T s)
    (hs : s.rejoins[i]? = some (node, point)) {status : NodeStatus} (hstatus : ¬ status.Retiring)
    {rejoins : List (String × RejoinPoint)}
    (hsublist : (rejoins.map (·.1)).Sublist (s.rejoins.map (·.1)))
    (hothers : ∀ r ∈ rejoins, r.1 ≠ node → r ∈ s.rejoins) :
    Inv T { s.changeStatusInMemory node status with rejoins := rejoins } := by
  have hmem := List.mem_of_getElem? hs
  have hself := getNodeStatus_changedInMemory s node status
  have hother := fun other (hne : other ≠ node) => getNodeStatus_otherInMemory s status hne
  rw [changeStatusInMemory_eq] at hself hother ⊢
  refine h.of_rejoin hmem rfl rfl rfl rfl rfl h.table (fun _ _ => .refl _ _) hother hsublist hothers
    ?_
  rintro (ht | ht)
  · exact (h.node node).rejoins point hmem (.inl ht)
  · rcases hself with hself | ⟨-, hself⟩
    · refine hstatus ?_
      rw [← hself]
      exact ht
    · exact (h.node node).rejoins point hmem (.inr (hself ▸ ht))

theorem inv_markRejoining (h : Inv T s) {i : Nat} {matched : Bool}
    (hstep : s.markRejoining i matched = some s') : Inv T s' := by
  unfold markRejoining at hstep
  split at hstep
  case h_2 => cases hstep
  rename_i node hs
  split at hstep
  · obtain rfl := Option.some.inj hstep
    exact h.rejoinInMemory hs (by decide) (by rw [map_set_fst hs]) mem_set_other
  · obtain rfl := Option.some.inj hstep
    have hmem := List.mem_of_getElem? hs
    exact h.of_rejoin hmem rfl rfl rfl rfl rfl h.table (fun _ _ => .refl _ _) (fun _ _ => rfl)
      ((List.eraseIdx_sublist _ _).map _) (fun r hr _ => List.mem_of_mem_eraseIdx hr)
      ((h.node node).rejoins _ hmem)

theorem inv_rejoinReply (h : Inv T s) {i : Nat} {accepted wrote : Bool}
    (hstep : s.rejoinReply i accepted wrote = some s') : Inv T s' := by
  unfold rejoinReply at hstep
  split at hstep
  case h_2 => cases hstep
  rename_i node hs
  have hmem := List.mem_of_getElem? hs
  have hnot := (h.node node).rejoins _ hmem
  simp only at hstep
  split at hstep
  · obtain rfl := Option.some.inj hstep
    have hself := getNodeStatus_changed s node .registered wrote
    have hother := fun other (hne : other ≠ node) => getNodeStatus_other s .registered wrote hne
    rw [changeStatusInMonitoringComponent_eq] at hself hother ⊢
    refine h.of_rejoin hmem rfl rfl rfl rfl rfl h.table (fun _ _ => .refl _ _) hother
      (by rw [map_set_fst hs]) mem_set_other ?_
    rintro (ht | ht)
    · exact hnot (.inl ht)
    · rcases hself with hself | ⟨-, hself⟩
      · have hregistered : NodeStatus.registered.Retiring := by
          have hafter : statusAfter (s.getNodeStatus node) .registered = .registered := by
            simp [statusAfter]
          rw [← hafter, ← hself]
          exact ht
        exact absurd hregistered (by decide)
      · exact hnot (.inr (hself ▸ ht))
  · obtain rfl := Option.some.inj hstep
    exact h.rejoinInMemory hs (by decide) ((List.eraseIdx_sublist _ _).map _)
      fun r hr _ => List.mem_of_mem_eraseIdx hr

theorem inv_enterRejoined (h : Inv T s) {i : Nat} (hstep : s.enterRejoined i = some s') :
    Inv T s' := by
  unfold enterRejoined at hstep
  split at hstep
  case h_2 => cases hstep
  rename_i node hs
  obtain rfl := Option.some.inj hstep
  have hmem := List.mem_of_getElem? hs
  have henters := enters_prepareAndAddEntry s.states node .nodeAddition
  exact h.of_rejoin hmem rfl rfl rfl rfl henters.pass
    (h.table.prepareAndAddEntry node .nodeAddition) (fun other hne => .enters henters hne)
    (fun _ _ => rfl) ((List.eraseIdx_sublist _ _).map _)
    (fun r hr _ => List.mem_of_mem_eraseIdx hr) ((h.node node).rejoins _ hmem)

end

section

variable {T : String → Prop} {s s' : LeaderThreads} {node : String}

theorem Inv.of_quiet (h : Inv T s) {states : StateChangeManager}
    (hquiet : Quiet s.states states) : Inv T { s with states := states } where
  table := h.table.quiet hquiet
  phase hc := hquiet.phase (h.phase hc)
  apart := h.apart
  node node := (h.node node).frame (.of_table (.quiet hquiet node)
    ⟨fun _ => Iff.rfl, fun _ _ => Iff.rfl, fun _ _ => Iff.rfl, fun _ h => h⟩ (fun _ h => h) rfl)

theorem inv_scan (h : Inv T s) {expired mounted : List String} {states : StateChangeManager}
    (hphase : s.states.pass.phase = .scanning)
    (hscan : s.states.scan expired mounted = some states) :
    Inv T { s with
      states := states
      deleting := states.pass.serviceEntryToBeDeleted.toList } := by
  have hcompletion : s.completion = none := by
    by_contra hc
    rw [h.phase hc] at hphase
    cases hphase
  obtain ⟨htable, -, -⟩ := scans_scan hscan
  refine ⟨h.table.scan hscan, fun hc => absurd hcompletion hc, h.apart, fun node =>
    (h.node node).frame ⟨rfl, fun hadd => hadd.scan hscan, (noneEntered_of_step htable node).1,
      .inl hcompletion, fun _ => Iff.rfl, fun _ _ => Iff.rfl, fun _ _ => Iff.rfl, fun _ h => h⟩⟩

theorem inv_table (h : Inv T s) {event : StateChangeEvent} (hstep : s.table event = some s') :
    Inv T s' := by
  cases event with
  | addEntry | deleteEntries => cases hstep
  | scan expired mounted =>
      obtain ⟨states, hscan, rfl⟩ := Option.map_eq_some_iff.mp hstep
      simp only [StateChangeManager.step] at hscan
      split at hscan
      · exact inv_scan h ‹_› hscan
      · cases hscan
  | _ =>
      simp only [table] at hstep
      obtain ⟨states, hstates, rfl⟩ := Option.map_eq_some_iff.mp hstep
      exact h.of_quiet (quiet_step hstates (by simp) (by simp) (by simp) h.table.noneDeleted)

theorem Settled.idle (h : Settled s node) (hidle : node ∉ s.workers) :
    (s.states.NoneOf node .nodeRecovery ∨ s.getNodeStatus node = .retiringFailed) ∧
      (s.states.NoneOf node .nodeDeletion ∨ s.getNodeStatus node = .retiring) := by
  rw [mem_workers] at hidle
  simp only [not_or] at hidle
  obtain ⟨hnohandler, hnoexpired, hnocompletion, -⟩ := hidle
  have hunreported : ¬ ∃ c, s.completion = some c ∧ c.node = node ∧ c.reported = true :=
    fun ⟨c, hc, hnode, _⟩ => hnocompletion ⟨c, hc, hnode⟩
  refine ⟨h.recovery.imp_right fun hrest => ?_, h.deletion.imp_right fun hrest => ?_⟩
  · rcases hrest with hst | ⟨t, ht, hnode, -⟩ | hreported
    · exact hst
    · exact absurd ⟨t, ht, hnode⟩ hnoexpired
    · exact absurd hreported hunreported
  · rcases hrest with hst | hpoint | hpoint | hreported
    · exact hst
    · exact absurd ⟨_, hpoint⟩ hnohandler
    · exact absurd ⟨_, hpoint⟩ hnohandler
    · exact absurd hreported hunreported

theorem completionOk_of_report {operation : StateChangeOperation} {status : CompletionStatus}
    {rest : List (String × StateChangeOperation)} (h : Inv T s)
    (hdeleting : rest.Sublist s.deleting) (hoperation : Completing operation)
    (hidle : node ∉ s.workers) (hmatches : s.states.MatchesOwnEntries node operation)
    (hreport : s.states.completionReport node operation = some status) :
    CompletionOk T
      { s with
        deleting := rest
        completion := some ⟨node, operation, status,
          (s.states.entriesOfNode node operation).map (·.1), false⟩ }
      ⟨node, operation, status, (s.states.entriesOfNode node operation).map (·.1), false⟩ := by
  unfold completionReport at hreport
  split at hreport
  case isFalse => cases hreport
  rename_i hall
  have hdone : ∀ e ∈ s.states.entriesOfNode node operation, e.2.status = doneStatus operation :=
    fun e he => by simpa using List.all_eq_true.mp hall e he
  obtain ⟨hne, hown⟩ := hmatches.resolve_left fun ⟨e, he, hopen⟩ => hopen (hdone e he)
  have hclosed : ∀ id ∈ (s.states.entriesOfNode node operation).map (·.1), ¬ s.states.Open id := by
    rintro id hid ⟨e, he, hdel, hrec⟩
    obtain ⟨⟨id', e'⟩, hin, rfl⟩ := List.mem_map.mp hid
    obtain ⟨he', -, hop⟩ := mem_entriesOfNode.mp hin
    obtain rfl := Option.some.inj (he.symm.trans (TreeMap.mem_toList_iff_getElem?_eq_some.mp he'))
    rcases hoperation with rfl | rfl
    · exact hrec hop (hdone _ hin)
    · exact hdel hop
  -- a node with entries of the operation that no thread works on has the status that fits it
  have hfits : Tracked T s node →
      operation = .nodeRecovery ∧ s.getNodeStatus node = .retiringFailed ∨
        operation = .nodeDeletion ∧ s.getNodeStatus node = .retiring := by
    intro ht
    obtain ⟨e, he⟩ := List.exists_mem_of_ne_nil _ hne
    obtain ⟨hin, -, hop⟩ := mem_entriesOfNode.mp he
    have hthere : ¬ s.states.NoneOf node operation := fun hnone =>
      hnone e.1 e.2 (TreeMap.mem_toList_iff_getElem?_eq_some.mp hin) (hown e he) hop
    obtain ⟨hrecovery, hdeletion⟩ := ((h.node node).settled ht).idle hidle
    rcases hoperation with rfl | rfl
    · exact .inl ⟨rfl, hrecovery.resolve_left hthere⟩
    · exact .inr ⟨rfl, hdeletion.resolve_left hthere⟩
  refine ⟨?_, fun id hid => ?_, fun id e hid he hop => ?_, fun id hid => ⟨fun hin => ?_, ?_⟩,
    fun _ ht => hfits ht, fun ht other hother hne => ?_⟩
  · obtain rfl := Option.some.inj hreport
    rcases hoperation with rfl | rfl
    · exact .inl ⟨rfl, rfl⟩
    · exact .inr ⟨rfl, rfl⟩
  · obtain ⟨e, he, rfl⟩ := List.mem_map.mp hid
    obtain ⟨hin, -, hop⟩ := mem_entriesOfNode.mp he
    exact ⟨hown e he, e.2, TreeMap.mem_toList_iff_getElem?_eq_some.mp hin, hop⟩
  · have hin := TreeMap.mem_toList_iff_getElem?_eq_some.mpr he
    exact List.mem_map_of_mem (mem_entriesOfNode_of_own (mem_ownEntries.mpr ⟨hin, hid, hop⟩))
  · exact hclosed id hid (h.table.listed id hin).1
  · rintro d hd hrec hdel rfl
    exact hclosed d.1 hid (h.table.pending d (hdeleting.subset hd) hrec hdel).1
  · obtain ⟨hrecovery, hdeletion⟩ := ((h.node node).settled ht).idle hidle
    rcases hfits ht with ⟨rfl, hst⟩ | ⟨rfl, hst⟩
    · obtain rfl := hother.resolve_left hne
      exact hdeletion.resolve_right (by simp [hst])
    · obtain rfl := hother.resolve_right hne
      exact hrecovery.resolve_right (by simp [hst])

theorem Inv.skip (h : Inv T s) {rest : List (String × StateChangeOperation)}
    (hrest : rest.Sublist s.deleting) : Inv T { s with deleting := rest } where
  table := h.table.sublist hrest
  phase := h.phase
  apart := h.apart
  node node := (h.node node).frame (.of_table (.refl _ _)
    ⟨fun _ => Iff.rfl, fun _ _ => Iff.rfl, fun _ _ => Iff.rfl, fun _ h => h⟩ hrest.subset rfl)

theorem Inv.complete {operation : StateChangeOperation} {status : CompletionStatus}
    {rest : List (String × StateChangeOperation)} (h : Inv T s)
    (hphase : s.states.pass.phase = .deleting) (hnone : s.completion = none)
    (hrest : rest.Sublist s.deleting) (hoperation : Completing operation)
    (hidle : node ∉ s.workers) (hmatches : s.states.MatchesOwnEntries node operation)
    (hreport : s.states.completionReport node operation = some status) :
    Inv T { s with
      deleting := rest
      completion := some ⟨node, operation, status,
        (s.states.entriesOfNode node operation).map (·.1), false⟩ } := by
  have hok := completionOk_of_report h hrest hoperation hidle hmatches hreport
  have hnew : node ∉ s.workers := hidle
  rw [mem_workers] at hidle
  refine h.of_work node (h.table.sublist hrest) (fun _ => hphase) ?_
    (fun other hne => .of_table (.refl _ _)
      (.of_completion node (by simp [hnone]) (by simp) rfl rfl rfl hne)
      hrest.subset rfl)
    ⟨fun point hpoint => absurd (.inl ⟨point, hpoint⟩) hidle,
      fun t ht hnode => absurd (.inr (.inl ⟨t, ht, hnode⟩)) hidle,
      fun c hc _ => Option.some.inj hc ▸ hok,
      fun point hpoint => absurd (.inr (.inr (.inr ⟨point, hpoint⟩))) hidle, fun ht => ?_⟩
  · have hperm : ∀ c : Completion, c.node = node → (LeaderThreads.workers { s with
        deleting := rest
        completion := some c }).Perm (node :: s.workers) := by
      intro c hc
      simp only [workers, hnone, Option.toList_some, Option.toList_none, List.map_cons,
        List.map_nil, List.singleton_append, List.nil_append, hc]
      rw [← List.append_assoc, ← List.append_assoc]
      exact List.perm_middle
    exact (hperm _ rfl).nodup_iff.mpr (List.nodup_cons.mpr ⟨hnew, h.apart⟩)
  · have hold := (h.node node).settled ht
    obtain ⟨hrecovery, hdeletion⟩ := hold.idle hnew
    exact ⟨hold.status, hold.unadded, hrecovery.imp_right .inl, hdeletion.imp_right .inl⟩

theorem Inv.eraseEntry {key : String} {operation : StateChangeOperation}
    {rest : List (String × StateChangeOperation)} (h : Inv T s) (hnone : s.completion = none)
    (hdeleting : s.deleting = (key, operation) :: rest) (hoperation : ¬ Completing operation) :
    Inv T { s with
      deleting := rest
      states := { s.states with stateMap := s.states.stateMap.erase key } } := by
  simp only [Completing, not_or] at hoperation
  obtain ⟨⟨e', he', hnot, -⟩, hlisted⟩ := h.table.pending (key, operation)
    (by rw [hdeleting]; exact List.mem_cons_self ..) hoperation.1 hoperation.2
  have hmap : ∀ id : String, (s.states.stateMap.erase key)[id]? =
      if id ∈ [key] then none else s.states.stateMap[id]? := by
    intro id
    rw [getElem?_erase_eq]
    simp only [List.mem_singleton, eq_comm]
  have hdistinct := h.table.distinct
  rw [hdeleting, List.map_cons, List.nodup_cons] at hdistinct
  refine ⟨h.table.erase hmap rfl (fun id hid hkey => ?_) (fun d hd _ _ hkey => ?_)
    (hdeleting ▸ List.sublist_cons_self ..) (fun node e hkey he hdel => ?_),
    fun hc => absurd hnone hc, h.apart, fun node =>
      (h.node node).frame ⟨rfl, fun hadd => hadd.erase hmap (fun _ h => h),
        noneEntered_of_erase hmap node, .inl hnone, fun _ => Iff.rfl, fun _ _ => Iff.rfl,
        fun _ _ => Iff.rfl, fun _ h => h⟩⟩
  · exact hlisted (List.mem_singleton.mp hkey ▸ hid)
  · exact hdistinct.1 (List.mem_map.mpr ⟨d, hd, List.mem_singleton.mp hkey⟩)
  · rw [List.mem_singleton.mp hkey] at he
    exact absurd hdel (Option.some.inj (he'.symm.trans he) ▸ hnot)

theorem inv_deleteNext (h : Inv T s) (hcond : Condition s .deleteNext)
    (hstep : s.deleteNext = some s') : Inv T s' := by
  unfold deleteNext at hstep
  split at hstep
  case h_2 => cases hstep
  rename_i key operation rest hphase hnone hdeleting
  have hrest : rest.Sublist s.deleting := hdeleting ▸ List.sublist_cons_self ..
  have hcheck := hcond (key, operation) (by rw [hdeleting]; rfl)
  split at hstep
  · obtain ⟨hidle, hmatches⟩ := hcheck (.inl rfl)
    split at hstep
    · exact Option.some.inj hstep ▸ h.complete hphase hnone hrest (.inl rfl) hidle hmatches ‹_›
    · exact Option.some.inj hstep ▸ h.skip hrest
  · obtain ⟨hidle, hmatches⟩ := hcheck (.inr rfl)
    split at hstep
    · exact Option.some.inj hstep ▸ h.complete hphase hnone hrest (.inr rfl) hidle hmatches ‹_›
    · exact Option.some.inj hstep ▸ h.skip hrest
  · rename_i hrecovery hdeletion
    exact Option.some.inj hstep ▸ h.eraseEntry hnone hdeleting
      fun hoperation => hoperation.elim hrecovery hdeletion

/-- A completion that is reported leaves the node as retired if it was retiring. -/
theorem inv_reportCompletion (h : Inv T s) {wrote : Bool}
    (hstep : s.reportCompletion wrote = some s') : Inv T s' := by
  unfold reportCompletion at hstep
  split at hstep
  case h_2 => cases hstep
  rename_i c hc
  split at hstep
  · cases hstep
  rename_i hunreported
  rw [Bool.not_eq_true] at hunreported
  obtain rfl := Option.some.inj hstep
  have hok := (h.node c.node).completion c hc rfl
  have hself := getNodeStatus_changed s c.node c.status.nodeStatus wrote
  have hother := fun other (hne : other ≠ c.node) =>
    getNodeStatus_other s c.status.nodeStatus wrote hne
  obtain ⟨hnohandler, hnoexpired, hnorejoin⟩ := completion_alone h.apart hc
  rw [changeStatusInMonitoringComponent_eq] at hself hother ⊢
  generalize (s.changeStatusInMonitoringComponent c.node c.status.nodeStatus wrote).1.activeNodeMap
    = activeNodeMap at hself hother ⊢
  generalize ht' : ({ s with activeNodeMap := activeNodeMap } : LeaderThreads).getNodeStatus c.node
    = after at hself
  have hnotRetiring : ¬ (statusAfter (s.getNodeStatus c.node) c.status.nodeStatus).Retiring := by
    rcases hok.kind with ⟨-, hst⟩ | ⟨-, hst⟩ <;> rw [hst] <;>
      generalize s.getNodeStatus c.node = status <;> cases status <;> decide
  have htracked : ∀ {s'' : LeaderThreads}, s''.getNodeStatus c.node = after →
      Tracked T s'' c.node → Tracked T s c.node := by
    rintro s'' hst (ht | ht)
    · exact .inl ht
    · rw [hst] at ht
      rcases hself with hself | ⟨-, hself⟩
      · exact absurd (hself ▸ ht) hnotRetiring
      · exact .inr (hself ▸ ht)
  refine h.of_work c.node h.table (fun _ => h.phase (by simp [hc])) ?_
    (fun other hne => .of_table (.refl _ _) (.of_completion c.node
      (fun c' hc' => by rw [hc] at hc'; exact Option.some.inj hc' ▸ rfl)
      (fun c' hc' => Option.some.inj hc' ▸ rfl) rfl rfl rfl hne) (fun _ h => h) (hother other hne))
    ⟨fun point hpoint => absurd hpoint (hnohandler point),
      fun t ht hnode => absurd hnode (hnoexpired t ht), fun c' hc' _ => ?_,
      fun point hpoint => absurd hpoint (hnorejoin point), fun ht => ?_⟩
  · refine apart_of_sublist h.apart (.refl _) (.refl _) ?_ (.refl _)
    rw [hc]
    exact .refl _
  · obtain rfl := Option.some.inj hc'
    exact ⟨hok.kind, hok.matched, hok.own, hok.free, by simp, fun ht => hok.other (htracked ht' ht)⟩
  · have hold := htracked ht' ht
    have hsettled := (h.node c.node).settled hold
    refine ⟨?_, hsettled.unadded, .inr (.inr (.inr ⟨_, rfl, rfl, rfl⟩)),
      .inr (.inr (.inr (.inr ⟨_, rfl, rfl, rfl⟩)))⟩
    change NodeStatus.AsRetired (LeaderThreads.getNodeStatus { s with
      activeNodeMap := activeNodeMap } c.node)
    rw [ht']
    rcases hself with hself | ⟨-, hself⟩
    · rw [hself]
      rcases hok.unreported hunreported hold with ⟨hop, hst⟩ | ⟨hop, hst⟩
      · obtain ⟨-, hstatus⟩ := hok.kind.resolve_right (by simp [hop])
        rw [hst, hstatus]
        decide
      · obtain ⟨-, hstatus⟩ := hok.kind.resolve_left (by simp [hop])
        rw [hst, hstatus]
        decide
    · exact hself ▸ hsettled.status

theorem inv_eraseCompleted (h : Inv T s) (hstep : s.eraseCompleted = some s') : Inv T s' := by
  unfold eraseCompleted at hstep
  split at hstep
  case h_2 => cases hstep
  rename_i c hc
  split at hstep
  case isFalse => cases hstep
  obtain rfl := Option.some.inj hstep
  have hok := (h.node c.node).completion c hc rfl
  obtain ⟨hnohandler, hnoexpired, hnorejoin⟩ := completion_alone h.apart hc
  have hmap : ∀ id : String, (eraseKeys s.states.stateMap c.serviceIds)[id]? =
      if id ∈ c.serviceIds then none else s.states.stateMap[id]? := fun id =>
    getElem?_eraseKeys ..
  have htable : StateChangeManager.WellFormed { s.states with
      stateMap := eraseKeys s.states.stateMap c.serviceIds
      balancer := s.states.balancer.removeEntryFromUnhealthyNodeList c.node } s.deleting :=
    h.table.erase hmap rfl
    (fun id hid hin => (hok.free id hin).1 hid)
    (fun d hd hrec hdel hin => (hok.free d.1 hin).2 d hd hrec hdel rfl) (.refl _)
    (fun node e hin he hdel e' he' hdel' => by
      obtain ⟨hid, e₁, he₁, hop⟩ := hok.matched _ hin
      refine hok.own _ e' ?_ he' ?_
      · rw [getNodeId_of_service (by simp [nodeServices])] at hid ⊢
        exact hid
      · rw [hdel', ← hop, ← Option.some.inj (he.symm.trans he₁), hdel])
  refine h.of_work c.node htable (fun hne => absurd rfl hne) ?_
    (fun other hne => ⟨rfl, fun hadd => hadd.erase hmap (fun _ h => h),
      noneEntered_of_erase hmap other, .inl rfl, fun _ => Iff.rfl, fun _ _ => Iff.rfl,
      fun c' hc' => iff_of_false (by simp) fun hc'' => hne ?_, fun _ h => h⟩)
    ⟨fun point hpoint => absurd hpoint (hnohandler point),
      fun t ht hnode => absurd hnode (hnoexpired t ht), by simp,
      fun point hpoint => absurd hpoint (hnorejoin point), fun ht => ?_⟩
  · exact apart_of_sublist h.apart (.refl _) (.refl _) (by simp) (.refl _)
  · rw [hc] at hc''
    rw [← hc', ← Option.some.inj hc'']
  · have hsettled := (h.node c.node).settled ht
    have hnone : ∀ operation, Completing operation → StateChangeManager.NoneOf { s.states with
        stateMap := eraseKeys s.states.stateMap c.serviceIds
        balancer := s.states.balancer.removeEntryFromUnhealthyNodeList c.node } c.node
        operation := by
      intro operation hoperation
      by_cases heq : operation = c.operation
      · intro id e he hid hop
        rw [hmap] at he
        split at he
        · cases he
        · exact absurd (hok.own id e hid he (hop.trans heq)) ‹_›
      · exact (noneEntered_of_erase hmap c.node).noneOf hoperation (hok.other ht _ hoperation heq)
    exact ⟨hsettled.status, hsettled.unadded.erase hmap (fun _ h => h), .inl (hnone _ (.inl rfl)),
      .inl (hnone _ (.inr rfl))⟩

theorem inv_deletionsDone (h : Inv T s) (hstep : s.deletionsDone = some s') : Inv T s' := by
  unfold deletionsDone at hstep
  split at hstep
  case h_2 => cases hstep
  rename_i hphase hnone hdeleting
  obtain rfl := Option.some.inj hstep
  have hlist : s.states.endDeletions.pass.naList ⊆ s.states.pass.naList := by
    simp only [endDeletions]
    split
    · exact List.nil_subset _
    · exact fun _ h => h
  have htable : s.states.endDeletions.WellFormed s.deleting := {
    h.table with
    listed := fun id hid => h.table.listed id (hlist hid)
    pending := by simp [hdeleting] }
  exact ⟨htable, fun hc => absurd hnone hc, h.apart, fun node => (h.node node).frame
    ⟨rfl, fun hadd => ⟨fun id hid => hadd.list id (hlist hid), hadd.entries⟩,
      noneEntered_of_eq fun _ _ => rfl, .inl hnone, fun _ => Iff.rfl, fun _ _ => Iff.rfl,
      fun _ _ => Iff.rfl, fun _ h => h⟩⟩

theorem inv_step {event : Event} (h : Inv T s) (hcond : Condition s event)
    (hstep : s.step event = some s') : Inv T s' := by
  cases event with
  | receive message node => exact inv_receive h hcond hstep
  | handle wrote => exact inv_handle h hcond hstep
  | expire node => exact inv_expire h hcond hstep
  | enterExpired => exact inv_enterExpired h hstep
  | setExpired wrote => exact inv_setExpired h hcond hstep
  | rejoin node => exact inv_rejoin h hcond hstep
  | markRejoining i matched => exact inv_markRejoining h hstep
  | rejoinReply i accepted wrote => exact inv_rejoinReply h hstep
  | enterRejoined i => exact inv_enterRejoined h hstep
  | table event => exact inv_table h hstep
  | deleteNext => exact inv_deleteNext h hcond hstep
  | reportCompletion wrote => exact inv_reportCompletion h hstep
  | eraseCompleted => exact inv_eraseCompleted h hstep
  | deletionsDone => exact inv_deletionsDone h hstep

end

section

variable {T : String → Prop} {s s' : LeaderThreads} {node : String}

@[simp] theorem states_changeStatusInMonitoringComponent (s : LeaderThreads) (node : String)
    (status : NodeStatus) (wrote : Bool) :
    (s.changeStatusInMonitoringComponent node status wrote).1.states = s.states := by
  rw [changeStatusInMonitoringComponent_eq]

@[simp] theorem states_changeStatusInMemory (s : LeaderThreads) (node : String)
    (status : NodeStatus) : (s.changeStatusInMemory node status).states = s.states := by
  rw [changeStatusInMemory_eq]

@[simp] theorem balancer_prepareAndAddEntry (s : LeaderThreads) (node : String)
    (operation : StateChangeOperation) :
    (s.prepareAndAddEntry node operation).states.balancer = s.states.balancer :=
  (enters_prepareAndAddEntry s.states node operation).balancer

/-- Only the plans of the table make a node eligible. -/
theorem balancer_step {event : Event} (hstep : s.step event = some s')
    (htable : ∀ e, event ≠ .table e) :
    s'.states.balancer.healthyNodeList = s.states.balancer.healthyNodeList := by
  cases event with
  | receive message node =>
      simp only [step, receive] at hstep
      split at hstep
      · cases hstep
      · exact Option.some.inj hstep ▸ rfl
  | handle wrote =>
      simp only [step, handle] at hstep
      split at hstep
      · cases hstep
      · split at hstep <;> exact Option.some.inj hstep ▸ by simp
      · exact Option.some.inj hstep ▸ by simp
      · split at hstep <;> exact Option.some.inj hstep ▸ by simp
      · exact Option.some.inj hstep ▸ by simp
      · split at hstep
        · exact Option.some.inj hstep ▸ rfl
        · split at hstep
          · exact Option.some.inj hstep ▸ by simp
          · split at hstep <;> exact Option.some.inj hstep ▸ by simp
      · exact Option.some.inj hstep ▸ by simp
  | expire node =>
      simp only [step, expire] at hstep
      split at hstep
      · cases hstep
      · exact Option.some.inj hstep ▸ rfl
  | enterExpired =>
      simp only [step, enterExpired] at hstep
      split at hstep
      · split at hstep
        · cases hstep
        · exact Option.some.inj hstep ▸ by simp
      · cases hstep
  | setExpired wrote =>
      simp only [step, setExpired] at hstep
      split at hstep
      · split at hstep
        · exact Option.some.inj hstep ▸ by cases wrote <;> simp
        · cases hstep
      · cases hstep
  | rejoin node =>
      simp only [step, rejoin] at hstep
      split at hstep
      · exact Option.some.inj hstep ▸ rfl
      · cases hstep
  | markRejoining i matched =>
      simp only [step, markRejoining] at hstep
      split at hstep
      · split at hstep <;> exact Option.some.inj hstep ▸ by simp
      · cases hstep
  | rejoinReply i accepted wrote =>
      simp only [step, rejoinReply] at hstep
      split at hstep
      · split at hstep <;> exact Option.some.inj hstep ▸ by simp
      · cases hstep
  | enterRejoined i =>
      simp only [step, enterRejoined] at hstep
      split at hstep
      · exact Option.some.inj hstep ▸ by simp
      · cases hstep
  | table e => exact absurd rfl (htable e)
  | deleteNext =>
      simp only [step, deleteNext] at hstep
      split at hstep
      · split at hstep
        · split at hstep <;> exact Option.some.inj hstep ▸ rfl
        · split at hstep <;> exact Option.some.inj hstep ▸ rfl
        · exact Option.some.inj hstep ▸ rfl
      · cases hstep
  | reportCompletion wrote =>
      simp only [step, reportCompletion] at hstep
      split at hstep
      · split at hstep
        · cases hstep
        · exact Option.some.inj hstep ▸ by simp
      · cases hstep
  | eraseCompleted =>
      simp only [step, eraseCompleted] at hstep
      split at hstep
      · split at hstep
        · exact Option.some.inj hstep ▸ rfl
        · cases hstep
      · cases hstep
  | deletionsDone =>
      simp only [step, deletionsDone] at hstep
      split at hstep
      · exact Option.some.inj hstep ▸ rfl
      · cases hstep

/-- A node that is retiring does not become eligible again. -/
theorem healthy_step (h : Inv T s) (ht : Tracked T s node) {event : Event}
    (hstep : s.step event = some s') (hnode : node ∈ s'.states.balancer.healthyNodeList) :
    node ∈ s.states.balancer.healthyNodeList := by
  have hquiet : ∀ {states : StateChangeManager}, Quiet s.states states →
      node ∈ states.balancer.healthyNodeList → node ∈ s.states.balancer.healthyNodeList := by
    intro states hquiet hin
    rcases hquiet.healthy node hin with hin | ⟨id, hid, hsame⟩
    · exact hin
    · exact absurd hsame (((h.node node).settled ht).unadded.list id hid)
  by_cases htable : ∃ e, event = .table e
  · obtain ⟨e, rfl⟩ := htable
    have hstep : s.table e = some s' := hstep
    cases e with
    | addEntry | deleteEntries => cases hstep
    | scan expired mounted =>
        obtain ⟨states, hscan, rfl⟩ := Option.map_eq_some_iff.mp hstep
        simp only [StateChangeManager.step] at hscan
        split at hscan
        · obtain ⟨-, hhealthy, -⟩ := scans_scan hscan
          exact hhealthy hnode
        · cases hscan
    | _ =>
        simp only [table] at hstep
        obtain ⟨states, hstates, rfl⟩ := Option.map_eq_some_iff.mp hstep
        exact hquiet (quiet_step hstates (by simp) (by simp) (by simp) h.table.noneDeleted) hnode
  · exact balancer_step hstep (fun e he => htable ⟨e, he⟩) ▸ hnode

theorem Inv.follow (h : Inv (fun _ => False) s) (hretiring : (s.getNodeStatus node).Retiring) :
    Inv (fun other => other = node) s := by
  have hsame : ∀ other, Tracked (fun other => other = node) s other →
      Tracked (fun _ => False) s other := by
    rintro other (rfl | ht)
    · exact .inr hretiring
    · exact .inr ht
  refine ⟨h.table, h.phase, h.apart, fun other => ?_⟩
  have hok := h.node other
  refine ⟨fun point hpoint => ?_, fun t ht hnode => ?_, fun c hc hnode => ?_,
    fun point hpoint ht => hok.rejoins point hpoint (hsame other ht),
    fun ht => hok.settled (hsame other ht)⟩
  · have hold := hok.handler point hpoint
    cases point with
    | failover status | stop status | retire status => exact hold
    | failoverEntry => exact fun ht => hold (hsame other ht)
    | stopEntry => exact fun ht => hold (hsame other ht)
    | retireStatus => exact ⟨hold.1, hold.2.1, fun ht => hold.2.2 (hsame other ht)⟩
  · have hold := hok.expired t ht hnode
    exact ⟨hold.status, hold.retiring, fun hst ht => hold.other hst (hsame _ ht)⟩
  · have hold := hok.completion c hc hnode
    exact ⟨hold.kind, hold.matched, hold.own, hold.free,
      fun hr ht => hold.unreported hr (hsame _ ht), fun ht => hold.other (hsame _ ht)⟩

end

section

variable {statuses : TreeMap String NodeStatus} {m : StateChangeManager}

/-- The table of a leader that starts: each node that is being recovered or retired is entered as
its status says. -/
structure FirstTable (statuses : TreeMap String NodeStatus) (m : StateChangeManager) : Prop where
  table : m.WellFormed []
  recovery : ∀ (id : String) e, m.stateMap[id]? = some e → e.operation = .nodeRecovery →
    statuses[getNodeId id]? ≠ some .retiring
  deletion : ∀ (id : String) e, m.stateMap[id]? = some e → e.operation = .nodeDeletion →
    statuses[getNodeId id]? = some .retiring
  unadded : ∀ node, m.Unadded node

theorem FirstTable.prepareAndAddEntry (h : FirstTable statuses m) {node : String}
    {operation : StateChangeOperation}
    (hoperation : operation = .nodeRecovery ∧ statuses[node]? ≠ some .retiring ∨
      operation = .nodeDeletion ∧ statuses[node]? = some .retiring) :
    FirstTable statuses (m.prepareAndAddEntry node operation) := by
  have henters := enters_prepareAndAddEntry m node operation
  refine ⟨h.table.prepareAndAddEntry node operation, fun id e' he' hop => ?_,
    fun id e' he' hop => ?_, fun other => henters.unadded (h.unadded other) (.inr ?_)⟩
  · by_cases hid : getNodeId id = node
    · rcases hoperation with ⟨-, hst⟩ | ⟨rfl, -⟩
      · exact hid ▸ hst
      · cases he : m.stateMap[id]? with
        | none =>
            rw [(henters.fresh id e' he' he).1] at hop
            cases hop
        | some e =>
            obtain ⟨e₁, he₁, hsame⟩ := henters.entry id e he
            obtain rfl := Option.some.inj (he'.symm.trans he₁)
            exact h.recovery id e' (hsame.resolve_right (by simp) ▸ he) hop
    · exact h.recovery id e' (henters.others id hid ▸ he') hop
  · by_cases hid : getNodeId id = node
    · rcases hoperation with ⟨rfl, -⟩ | ⟨-, hst⟩
      · exact absurd hop (h.table.noneDeleted_of_recovery node id e' he' hid)
      · exact hid ▸ hst
    · exact h.deletion id e' (henters.others id hid ▸ he') hop
  · rcases hoperation with ⟨rfl, -⟩ | ⟨rfl, -⟩ <;> simp

theorem FirstTable.foldl_prepareAndAddEntry (h : FirstTable statuses m)
    (operation : StateChangeOperation) {nodes : List String}
    (hnodes : ∀ node ∈ nodes, operation = .nodeRecovery ∧ statuses[node]? ≠ some .retiring ∨
      operation = .nodeDeletion ∧ statuses[node]? = some .retiring) :
    FirstTable statuses (nodes.foldl (fun m node => m.prepareAndAddEntry node operation) m) := by
  induction nodes generalizing m with
  | nil => exact h
  | cons node nodes ih =>
      exact ih (h.prepareAndAddEntry (hnodes node List.mem_cons_self))
        fun other hother => hnodes other (List.mem_cons_of_mem _ hother)

theorem FirstTable.modifyForFirstPlan (h : FirstTable statuses m) (p : FirstPlan) :
    FirstTable statuses (modifyForFirstPlan m p) := by
  have hquiet : Quiet m (LeaderThreads.modifyForFirstPlan m p) :=
    ⟨modifySciMapForNewPlan_step m p.newPlannedMap p.servicesRetired p.servicesFailed
      (fun _ hid => by cases hid), rfl, fun _ h => .inl h, fun h => h⟩
  refine ⟨h.table.quiet hquiet, fun id e' he' hop => ?_, fun id e' he' hop => ?_,
    fun other => (h.unadded other).quiet hquiet⟩
  · obtain ⟨e, he, hop⟩ := (noneEntered_of_step hquiet.table (getNodeId id)).1 _ (.inl rfl) id e'
      rfl he' hop
    exact h.recovery id e he hop
  · obtain ⟨e, he, hop⟩ := (noneEntered_of_step hquiet.table (getNodeId id)).1 _ (.inr rfl) id e'
      rfl he' hop
    exact h.deletion id e he hop

theorem FirstTable.foldl_modifyForFirstPlan (h : FirstTable statuses m)
    (plans : List FirstPlan) :
    FirstTable statuses (plans.foldl LeaderThreads.modifyForFirstPlan m) := by
  induction plans generalizing m with
  | nil => exact h
  | cons p plans ih => exact ih (h.modifyForFirstPlan p)

theorem status_of_nodesFailed {node : String} (h : node ∈ nodesFailed statuses) :
    statuses[node]? ≠ some .retiring := by
  obtain ⟨e, he, rfl⟩ := List.mem_map.mp h
  obtain ⟨hlist, hfailed⟩ := List.mem_filter.mp he
  rw [TreeMap.mem_toList_iff_getElem?_eq_some.mp hlist]
  intro hretiring
  simp [Option.some.inj hretiring] at hfailed

theorem status_of_nodesRetired {node : String} (h : node ∈ nodesRetired statuses) :
    statuses[node]? = some .retiring := by
  obtain ⟨e, he, rfl⟩ := List.mem_map.mp h
  obtain ⟨hlist, hretired⟩ := List.mem_filter.mp he
  rw [TreeMap.mem_toList_iff_getElem?_eq_some.mp hlist, of_decide_eq_true hretired]

theorem firstTable_start (statuses : TreeMap String NodeStatus) (maps : ComponentMapManager)
    (balancer : ComponentBalancer) (plans : List FirstPlan) :
    FirstTable statuses (start statuses maps balancer plans).states := by
  have hempty : FirstTable statuses ⟨maps, balancer, ∅, .start⟩ := by
    refine ⟨⟨?_, ?_, ?_, ?_, ?_, ?_⟩, ?_, ?_, fun node => ⟨?_, ?_⟩⟩ <;> simp [MonitorPass.start]
  have hfailed := hempty.foldl_prepareAndAddEntry .nodeRecovery fun node hnode =>
    .inl ⟨rfl, status_of_nodesFailed hnode⟩
  have hretired := hfailed.foldl_prepareAndAddEntry .nodeDeletion fun node hnode =>
    .inr ⟨rfl, status_of_nodesRetired hnode⟩
  exact hretired.foldl_modifyForFirstPlan plans

theorem inv_start (statuses : TreeMap String NodeStatus) (maps : ComponentMapManager)
    (balancer : ComponentBalancer) (plans : List FirstPlan) :
    Inv (fun _ => False) (start statuses maps balancer plans) := by
  have hfirst := firstTable_start statuses maps balancer plans
  refine ⟨hfirst.table, fun h => absurd rfl h, List.nodup_nil, fun node => ⟨?_, ?_, ?_, ?_, ?_⟩⟩
  · exact fun _ h => by cases h
  · exact fun _ h => by cases h
  · exact fun _ h => by cases h
  · exact fun _ h => by cases h
  rintro (hfalse | hretiring)
  · exact hfalse.elim
  have hstatus : ∀ status, (start statuses maps balancer plans).getNodeStatus node = status →
      status ≠ .invalidNode → statuses[node]? = some status := by
    intro status hst hvalid
    have hget : statuses[node]?.getD .invalidNode = status := hst
    cases hlookup : statuses[node]? with
    | none =>
        rw [hlookup] at hget
        exact absurd hget.symm hvalid
    | some current =>
        rw [hlookup] at hget
        exact congrArg some hget
  refine ⟨hretiring.asRetired, hfirst.unadded node, ?_, ?_⟩
  · rcases hretiring with hst | hst
    · exact .inl fun id e he hid hop =>
        hfirst.recovery id e he hop (hid ▸ hstatus _ hst (by simp))
    · exact .inr (.inl hst)
  · rcases hretiring with hst | hst
    · exact .inr (.inl hst)
    · refine .inl fun id e he hid hop => ?_
      have hretired := hfirst.deletion id e he hop
      rw [hid, hstatus _ hst (by simp)] at hretired
      cases hretired

end

/-- Once a node is retiring it keeps a status of a retired node, and if it is not eligible for
components it does not become so again. -/
def RetirementFinal (s : LeaderThreads) (events : List Event) (node : String) : Prop :=
  ∀ pre mid post : List Event, events = pre ++ (mid ++ post) → ∀ s₁ s₂ s₃,
    run step s pre = some s₁ → run step s₁ mid = some s₂ → run step s₂ post = some s₃ →
      (s₁.getNodeStatus node).Retiring →
        (s₂.getNodeStatus node).AsRetired ∧
          (node ∉ s₂.states.balancer.healthyNodeList → node ∉ s₃.states.balancer.healthyNodeList)

/-- Retirement is final in every run whose steps all meet the condition. -/
theorem retirement_final (statuses : TreeMap String NodeStatus) (maps : ComponentMapManager)
    (balancer : ComponentBalancer) (plans : List FirstPlan) (events : List Event) (node : String)
    (h : Along step Condition (start statuses maps balancer plans) events) :
    RetirementFinal (start statuses maps balancer plans) events node := by
  rintro pre mid post rfl s₁ s₂ s₃ hpre hmid hpost hretiring
  obtain ⟨halong, hrest⟩ := (along_append step _ _ _).mp h
  obtain ⟨halongMid, hrestMid⟩ := (along_append step _ _ _).mp (hrest s₁ hpre)
  have hstart := inv_start statuses maps balancer plans
  have hinv₁ : Inv (fun other => other = node) s₁ :=
    (run_along_preserves (I := Inv fun _ => False) step (fun _ _ _ h hc hs => inv_step h hc hs)
      hstart halong hpre).follow hretiring
  have hinv₂ : Inv (fun other => other = node) s₂ :=
    run_along_preserves step (fun _ _ _ h hc hs => inv_step h hc hs) hinv₁ halongMid hmid
  refine ⟨((hinv₂.node node).settled (.inl rfl)).status, fun hnot => ?_⟩
  have hkept := run_along_preserves
    (I := fun s => Inv (fun other => other = node) s ∧
      node ∉ s.states.balancer.healthyNodeList) step
    (fun _ _ _ h hc hs => ⟨inv_step h.1 hc hs,
      fun hin => h.2 (healthy_step h.1 (.inl rfl) hs hin)⟩) ⟨hinv₂, hnot⟩ (hrestMid s₂ hmid) hpost
  exact hkept.2

instance (s : LeaderThreads) : (event : Event) → Decidable (Condition s event)
  | .receive _ _ => inferInstanceAs (Decidable (_ ∧ _))
  | .handle _ => inferInstanceAs (Decidable (∀ w ∈ s.handler, _))
  | .expire _ => inferInstanceAs (Decidable (_ ∧ _))
  | .setExpired _ => inferInstanceAs (Decidable (∀ t ∈ s.expired, _))
  | .rejoin _ => inferInstanceAs (Decidable (_ ∉ _))
  | .deleteNext => inferInstanceAs (Decidable (∀ d ∈ s.deleting.head?, _))
  | .enterExpired | .markRejoining _ _ | .rejoinReply _ _ _ | .enterRejoined _ | .table _
  | .reportCompletion _ | .eraseCompleted | .deletionsDone => isTrue trivial

/-- A leader of one node, which is a member of the cluster. -/
def oneNode : LeaderThreads :=
  start (TreeMap.ofList [("HN0101_61014", NodeStatus.registered)]) noNodes.maps noNodes.balancer []

/-- The node is retired and its heartbeats stop. -/
def retiredAndExpired : List Event :=
  [.receive .nodeRetire "HN0101_61014", .handle true, .handle true, .expire "HN0101_61014",
    .enterExpired, .setExpired true]

/-- The recovery of the node goes through. -/
def recoveryCompletes : List Event :=
  (recoveries "HN0101_61014").map .table ++
    [.table (.scan [] []), .deleteNext, .reportCompletion true, .eraseCompleted, .deletionsDone]

theorem retirement_final_oneNode :
    (∃ s, run step oneNode (retiredAndExpired ++ recoveryCompletes) = some s ∧
      s.getNodeStatus "HN0101_61014" = .retiredRecovered) ∧
    RetirementFinal oneNode (retiredAndExpired ++ recoveryCompletes) "HN0101_61014" := by
  refine ⟨?_, retirement_final _ _ _ _ _ _ (by decide +kernel)⟩
  obtain ⟨s, hrun, hs⟩ := (Option.any_eq_true _ _).mp
    (by decide +kernel : (run step oneNode (retiredAndExpired ++ recoveryCompletes)).any
      (fun s => s.getNodeStatus "HN0101_61014" = .retiredRecovered) = true)
  exact ⟨s, hrun, of_decide_eq_true hs⟩

/-- The heartbeats of a retiring node time out twice: the second time the node has failed like a
member of the cluster, so it is recovered and may rejoin. -/
theorem retirement_not_final : ¬ RetirementFinal oneNode
    (retiredAndExpired ++ ([.expire "HN0101_61014", .enterExpired, .setExpired true] ++
      recoveryCompletes ++ [.rejoin "HN0101_61014", .markRejoining 0 true,
        .rejoinReply 0 true true, .enterRejoined 0]) ++ []) "HN0101_61014" := by
  intro hfinal
  obtain ⟨s₁, hpre, hretiring⟩ := (Option.any_eq_true _ _).mp
    (by decide +kernel : (run step oneNode retiredAndExpired).any
      (fun s => s.getNodeStatus "HN0101_61014" = .retiringFailed) = true)
  obtain ⟨s₂, hrun, hregistered⟩ := (Option.any_eq_true _ _).mp
    (by decide +kernel : (run step oneNode (retiredAndExpired ++
      ([.expire "HN0101_61014", .enterExpired, .setExpired true] ++ recoveryCompletes ++
        [.rejoin "HN0101_61014", .markRejoining 0 true, .rejoinReply 0 true true,
          .enterRejoined 0]))).any (fun s => s.getNodeStatus "HN0101_61014" = .registered) = true)
  rw [run_append, hpre, Option.bind_some] at hrun
  obtain ⟨has, -⟩ := hfinal _ _ [] (by rw [List.append_assoc]) s₁ s₂ s₂ hpre hrun rfl
    (.inr (of_decide_eq_true hretiring))
  rw [of_decide_eq_true hregistered] at has
  exact absurd has (by decide)

end LeaderThreads

end ObjectStorage.Osm
