import Mathlib.Logic.Function.Basic
import ObjectStorage.Transaction.IssuedIds

/-!
Nodes that hand transactions to each other. Every node takes its ids from a range of its own, which
its counter leaves only when the range is used up or when recovery reads an id of a later node, in a
record that was accepted from it or in a checkpoint or header behind such a record.
-/

namespace ObjectStorage.Transaction

open Std Library Journal TransactionLockManager

/-! ### Ranges -/

/-- How many ids a node has. -/
def rangeSize : Int := 2 ^ 55

theorem getUniqueId_zero (nodeId : Nat) : getUniqueId nodeId 0 = nodeId * rangeSize := by
  rw [getUniqueId, Nat.and_zero, Nat.zero_or, Nat.shiftLeft_eq]
  rfl

/-- The id belongs to the node, whose range starts with an id that is never issued. -/
def InRange (nodeId : Nat) (id : Int) : Prop :=
  nodeId * rangeSize ≤ id ∧ id < (nodeId + 1) * rangeSize

theorem InRange.shiftRight_eq {nodeId : Nat} {id : Int} (h : InRange nodeId id) :
    id >>> (55 : Nat) = nodeId := by
  obtain ⟨hlow, hhigh⟩ := h
  rw [Int.shiftRight_eq_div_pow]
  unfold rangeSize at hlow hhigh
  omega

/-! ### The nodes -/

/-- The nodes by their ids, and the records that nodes have given up so far. -/
structure Cluster where
  nodes : Nat → JournalNode
  extracted : List ActiveRecord

/-- The records that a step of a node gives up, component by component. -/
def JournalNode.givesUp (node : JournalNode) : NodeStep → List ActiveRecord
  | .extract componentNames =>
      match node.running with
      | none => []
      | some s => (s.memory.getComponentTransactionMap componentNames).1.toList.flatMap (·.2)
  | _ => []

/-- The records that a step accepts. -/
def NodeStep.accepted : NodeStep → List ActiveRecord
  | .accept records => records
  | _ => []

namespace Cluster

def init : Cluster := ⟨fun _ => .init, []⟩

variable (osdConfig : Bool) (stream : ObjectStream) (config : JournalConfig)

/-- A step of one node. It accepts only records that some node has given up. -/
def step (c : Cluster) (action : Nat × NodeStep) : Option Cluster :=
  if ∀ record ∈ action.2.accepted, record ∈ c.extracted then
    ((c.nodes action.1).step osdConfig stream config action.1 action.2).map fun node =>
      { nodes := Function.update c.nodes action.1 node
        extracted := c.extracted ++ (c.nodes action.1).givesUp action.2 }
  else none

end Cluster

/-! ### Counters stay in their ranges -/

namespace JournalNode

variable {osdConfig : Bool} {stream : ObjectStream} {config : JournalConfig} {nodeId : Nat}
  {node node' : JournalNode} {a : NodeStep}

/-- A call leaves room in the range, and recovery reads no id behind the range. -/
def KeepsRange (stream : ObjectStream) (config : JournalConfig) (nodeId : Nat)
    (node : JournalNode) : NodeStep → Prop
  | .call _ => ∀ s ∈ node.running, s.memory.id + 1 < (nodeId + 1) * rangeSize
  | .restart _ => ∀ bytes ∈ node.latestFile, ∀ reading ∈ node.reading stream config nodeId bytes,
      reading.handler.memory.id < (nodeId + 1) * rangeSize ∧
        ∀ p ∈ reading.records, (∀ id ∈ p.record.issued?, id ≠ 0) ∧
          ∀ id ∈ p.record.raises?, id < (nodeId + 1) * rangeSize
  | _ => True

instance decidableKeepsRange (stream : ObjectStream) (config : JournalConfig) (nodeId : Nat)
    (node : JournalNode) : (a : NodeStep) → Decidable (node.KeepsRange stream config nodeId a)
  | .call _ => inferInstanceAs (Decidable (∀ s ∈ node.running, _))
  | .restart _ => inferInstanceAs (Decidable (∀ bytes ∈ node.latestFile,
      ∀ reading ∈ node.reading stream config nodeId bytes, _ ∧ ∀ p ∈ reading.records, _))
  | .extract _ => isTrue trivial
  | .accept _ => isTrue trivial
  | .commit _ _ => isTrue trivial
  | .write => isTrue trivial
  | .crash => isTrue trivial
  | .crashWriting _ _ => isTrue trivial
  | .crashRestarting _ _ _ => isTrue trivial

/-- The counter and the ids issued are in the range of the node. -/
structure Ranged (nodeId : Nat) (node : JournalNode) : Prop where
  counter : ∀ s, node.running = some s → InRange nodeId s.memory.id
  issued : ∀ id ∈ node.issued, InRange nodeId id

theorem ranged_init (nodeId : Nat) : Ranged nodeId init :=
  ⟨fun _ h => (nomatch h), fun _ h => absurd h List.not_mem_nil⟩

theorem recover_inRange {memory : TransactionLockManager} {disk : JournalDisk}
    {components : List Int} (hkeeps : KeepsRange stream config nodeId node (.restart components))
    (hrecover : node.recover osdConfig stream config nodeId = some (memory, disk)) :
    InRange nodeId memory.id := by
  have hfirst := getUniqueId_zero nodeId
  have hpos : (0 : Int) < rangeSize := by decide
  have hnext : ((nodeId : Int) + 1) * rangeSize = nodeId * rangeSize + rangeSize := by
    rw [Int.add_mul, Int.one_mul]
  simp only [recover] at hrecover
  cases hfile : node.latestFile with
  | none =>
      rw [hfile] at hrecover
      obtain ⟨rfl, -⟩ := Prod.mk.inj (Option.some.inj hrecover)
      have hid : (TransactionLockManager.init nodeId).id = getUniqueId nodeId 0 := rfl
      exact ⟨by omega, by omega⟩
  | some bytes =>
      rw [hfile] at hrecover
      obtain ⟨reading, hreading, hrecover⟩ := Option.bind_eq_some_iff.mp hrecover
      obtain ⟨handler, hrun, heq⟩ := Option.map_eq_some_iff.mp hrecover
      obtain ⟨rfl, -⟩ := Prod.mk.inj heq
      obtain ⟨hcheckpoint, hrecords⟩ := hkeeps bytes hfile reading hreading
      have hstart : getUniqueId nodeId 0 ≤ reading.handler.memory.id := by
        rcases (TransactionRecovery.readJournal_fresh hreading).memory with
          hmemory | ⟨last, hmemory⟩
        · rw [hmemory]
          exact Int.le_refl _
        · rw [hmemory, setLastTransactionId_id]
          exact Int.le_max_left _ _
      have hmono := TransactionReadHandler.recoverRecords_id_mono hrun
      have hle := TransactionReadHandler.recoverRecords_id_le
        (fun p hp active hactive => (hrecords p hp).1 active.transactionId (by rw [hactive]; rfl))
        (fun p hp id hid => Int.le_sub_one_of_lt ((hrecords p hp).2 id hid))
        (Int.le_sub_one_of_lt hcheckpoint) hrun
      exact ⟨by omega, by omega⟩

theorem Ranged.step (h : Ranged nodeId node) (hkeeps : KeepsRange stream config nodeId node a)
    (hstep : node.step osdConfig stream config nodeId a = some node') : Ranged nodeId node' := by
  cases step_counter hstep with
  | down hrunning hissued =>
      exact ⟨fun s hs => by simp [hrunning] at hs, hissued ▸ h.issued⟩
  | kept hrunning hrunning' hid hissued =>
      refine ⟨fun s hs => ?_, hissued ▸ h.issued⟩
      obtain rfl := Option.some.inj (hrunning'.symm.trans hs)
      exact hid ▸ h.counter _ hrunning
  | called hrunning hrunning' hid hissued =>
      refine ⟨fun s hs => ?_, hissued ▸ h.issued⟩
      obtain rfl := Option.some.inj (hrunning'.symm.trans hs)
      have hcounter := h.counter _ hrunning
      have hroom := hkeeps _ hrunning
      exact ⟨hcounter.1.trans hid.1, hid.2.trans_lt hroom⟩
  | @issued c s s' hrunning hrunning' hid hissued =>
      have hcounter := h.counter _ hrunning
      have hroom := hkeeps _ hrunning
      have hnew : InRange nodeId (s.memory.id + 1) := ⟨by have := hcounter.1; omega, hroom⟩
      refine ⟨fun t ht => ?_, fun id hin => ?_⟩
      · obtain rfl := Option.some.inj (hrunning'.symm.trans ht)
        exact hid ▸ hnew
      · rw [hissued] at hin
        rcases List.mem_append.mp hin with hin | hin
        · exact h.issued id hin
        · exact List.mem_singleton.mp hin ▸ hnew
  | restarted hrecover hrunning' hid hissued =>
      refine ⟨fun s hs => ?_, hissued ▸ h.issued⟩
      obtain rfl := Option.some.inj (hrunning'.symm.trans hs)
      exact hid ▸ recover_inRange hkeeps hrecover

end JournalNode

namespace Cluster

variable {osdConfig : Bool} {stream : ObjectStream} {config : JournalConfig} {c c' : Cluster}

/-- The condition of the node that takes the step. -/
def KeepsRanges (stream : ObjectStream) (config : JournalConfig) (c : Cluster)
    (action : Nat × NodeStep) : Prop :=
  (c.nodes action.1).KeepsRange stream config action.1 action.2

theorem step_ranged {action : Nat × NodeStep} (h : ∀ n, JournalNode.Ranged n (c.nodes n))
    (hkeeps : KeepsRanges stream config c action)
    (hstep : c.step osdConfig stream config action = some c') :
    ∀ n, JournalNode.Ranged n (c'.nodes n) := by
  obtain ⟨nodeId, a⟩ := action
  unfold step at hstep
  split at hstep
  · obtain ⟨node, hnode, rfl⟩ := Option.map_eq_some_iff.mp hstep
    intro n
    show JournalNode.Ranged n (Function.update c.nodes nodeId node n)
    by_cases hn : n = nodeId
    · subst hn
      rw [Function.update_self]
      exact (h n).step hkeeps hnode
    · rw [Function.update_of_ne hn]
      exact h n
  · cases hstep

instance (stream : ObjectStream) (config : JournalConfig) (c : Cluster) (action : Nat × NodeStep) :
    Decidable (KeepsRanges stream config c action) :=
  inferInstanceAs (Decidable ((c.nodes action.1).KeepsRange stream config action.1 action.2))

/-- As long as no node uses its range up and no restart reads an id of a later node, every id issued
belongs to the node that issued it, and so no two nodes issue the same id. -/
theorem run_issues_in_ranges {actions : List (Nat × NodeStep)}
    (hkeeps : Along (step osdConfig stream config) (KeepsRanges stream config) init actions)
    (hrun : run (step osdConfig stream config) init actions = some c) :
    (∀ n, ∀ id ∈ (c.nodes n).issued, id >>> (55 : Nat) = n) ∧
      ∀ n m id, id ∈ (c.nodes n).issued → id ∈ (c.nodes m).issued → n = m := by
  have hranged := run_along_preserves (step osdConfig stream config)
    (fun _ _ _ h hcondition hstep => step_ranged h hcondition hstep)
    JournalNode.ranged_init hkeeps hrun
  have hnode : ∀ n, ∀ id ∈ (c.nodes n).issued, id >>> (55 : Nat) = n := fun n id hid =>
    ((hranged n).issued id hid).shiftRight_eq
  refine ⟨hnode, fun n m id hn hm => ?_⟩
  have heq := (hnode n id hn).symm.trans (hnode m id hm)
  exact Int.ofNat.inj heq

/-! ### An id of the other node -/

theorem step_node {nodeId : Nat} {a : NodeStep} {node node' : JournalNode}
    (hnode : c.nodes nodeId = node)
    (hstep : node.step osdConfig stream config nodeId a = some node')
    (haccepted : a.accepted = []) :
    ∃ c', c.step osdConfig stream config (nodeId, a) = some c' ∧ c'.nodes nodeId = node' ∧
      ∀ n, n ≠ nodeId → c'.nodes n = c.nodes n := by
  subst hnode
  refine ⟨⟨Function.update c.nodes nodeId node', c.extracted ++ (c.nodes nodeId).givesUp a⟩, ?_,
    Function.update_self _ _ _, fun n hn => Function.update_of_ne hn _ _⟩
  simp [step, haccepted, hstep]

/-- The record of the first lock of node 2. -/
def lentRecord : ActiveRecord := ⟨LockType.write.code, "1a/b", "HEAD", "server",
  getUniqueId 2 0 + 1, 7⟩

/-- Node 2 locks an object and gives the record up, node 1 accepts it and writes it to its
journal. -/
def lend : List (Nat × NodeStep) :=
  [(2, .restart [26]), (2, .call (.addTransaction (JournaledImpl.lockRequest "1a/b") 7)),
    (2, .extract [26]), (1, .restart [26]), (1, .accept [lentRecord]), (1, .write), (1, .crash)]

set_option maxRecDepth 100000 in
theorem run_lend : ∃ c, run (step false .plain JournalNode.shortConfig) init lend = some c ∧
    c.nodes 1 = JournalNode.withFile 1 [.snapshotHeaderRecord 0 1, .openRecord lentRecord] none [] ∧
    ∃ node, (c.nodes 2).step false .plain JournalNode.shortConfig 2
        (.call (.addTransaction (JournaledImpl.lockRequest "1a/d") 9)) = some node ∧
      node.issued = [getUniqueId 2 0 + 1, getUniqueId 2 0 + 2] :=
  ⟨_, rfl, rfl, _, rfl, rfl⟩

set_option maxRecDepth 100000 in
theorem run_issues_in_ranges_lend : ∃ c, run (step false .plain JournalNode.shortConfig) init
    (lend ++ [(2, .call (.addTransaction (JournaledImpl.lockRequest "1a/d") 9))]) = some c ∧
    (c.nodes 2).issued = [getUniqueId 2 0 + 1, getUniqueId 2 0 + 2] ∧
    (∀ n, ∀ id ∈ (c.nodes n).issued, id >>> (55 : Nat) = n) ∧
      ∀ n m id, id ∈ (c.nodes n).issued → id ∈ (c.nodes m).issued → n = m := by
  obtain ⟨c, hrun, hissued⟩ : ∃ c, run (step false .plain JournalNode.shortConfig) init
      (lend ++ [(2, .call (.addTransaction (JournaledImpl.lockRequest "1a/d") 9))]) = some c ∧
      (c.nodes 2).issued = [getUniqueId 2 0 + 1, getUniqueId 2 0 + 2] := ⟨_, rfl, rfl⟩
  exact ⟨c, hrun, hissued, run_issues_in_ranges (by decide +kernel) hrun⟩

/-- The restart of node 1 takes its counter into the range of node 2. -/
theorem restart_lent : ∃ node, (JournalNode.withFile 1 [.snapshotHeaderRecord 0 1,
      .openRecord lentRecord] none []).step false .plain JournalNode.shortConfig 1 (.restart [26]) =
        some node ∧
    ∃ node', node.step false .plain JournalNode.shortConfig 1
        (.call (.addTransaction (JournaledImpl.lockRequest "1a/c") 8)) = some node' ∧
      node'.issued = [getUniqueId 2 0 + 2] := by
  have hzero : FitsInt64 0 := by decide
  rw [JournalNode.step_restart_of_records ObjectStream.plain_lawful (by decide) rfl rfl hzero
    (by decide) (by decide +kernel) (by decide +kernel) (by decide +kernel) rfl [26]]
  exact ⟨_, rfl, _, rfl, rfl⟩

/-- Node 1 issues an id of node 2, and node 2 issues the same id. -/
theorem nodes_issue_same_id : ∃ c, run (step false .plain JournalNode.shortConfig) init
    (lend ++ [(1, .restart [26]), (1, .call (.addTransaction (JournaledImpl.lockRequest "1a/c") 8)),
      (2, .call (.addTransaction (JournaledImpl.lockRequest "1a/d") 9))]) = some c ∧
    ¬ (∀ n, ∀ id ∈ (c.nodes n).issued, id >>> (55 : Nat) = n) ∧
      ∃ id, id ∈ (c.nodes 1).issued ∧ id ∈ (c.nodes 2).issued := by
  obtain ⟨c, hlend, hone, node₂, htwo, hissued₂⟩ := run_lend
  obtain ⟨node₁, hrestart, node₁', hcall, hissued₁⟩ := restart_lent
  obtain ⟨c₁, hstep₁, hone₁, hothers₁⟩ := step_node hone hrestart rfl
  obtain ⟨c₂, hstep₂, hone₂, hothers₂⟩ := step_node hone₁ hcall rfl
  have hsame : c₂.nodes 2 = c.nodes 2 := by rw [hothers₂ 2 (by decide), hothers₁ 2 (by decide)]
  obtain ⟨c', hstep₃, htwo', hothers₃⟩ := step_node hsame htwo rfl
  have hone' : c'.nodes 1 = node₁' := by rw [hothers₃ 1 (by decide), hone₂]
  have hrun : run (step false .plain JournalNode.shortConfig) init (lend ++ [(1, .restart [26]),
      (1, .call (.addTransaction (JournaledImpl.lockRequest "1a/c") 8)),
      (2, .call (.addTransaction (JournaledImpl.lockRequest "1a/d") 9))]) = some c' := by
    rw [run_append, hlend, Option.bind_some, run_cons, hstep₁, Option.bind_some, run_cons, hstep₂,
      Option.bind_some, run_cons, hstep₃, Option.bind_some, run_nil]
  have hin₁ : getUniqueId 2 0 + 2 ∈ (c'.nodes 1).issued := by
    rw [hone', hissued₁]
    exact List.mem_cons_self
  have hin₂ : getUniqueId 2 0 + 2 ∈ (c'.nodes 2).issued := by
    rw [htwo', hissued₂]
    decide
  refine ⟨c', hrun, fun hall => ?_, getUniqueId 2 0 + 2, hin₁, hin₂⟩
  exact absurd (hall 1 _ hin₁) (by decide)

end Cluster

end ObjectStorage.Transaction
