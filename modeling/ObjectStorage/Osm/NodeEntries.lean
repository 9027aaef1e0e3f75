import ObjectStorage.Osm.NodeStatus
import ObjectStorage.Osm.TableChanges

/-!
What holds of the entries of the state table in every run, and which of the entries of a node are
kept out of it by the steps of the threads.
-/

namespace ObjectStorage.Osm

open Std Library

namespace StateChangeManager

/-- An entry that is neither about a deletion nor a recovery that is done. -/
def Open (s : StateChangeManager) (id : String) : Prop :=
  ∃ e, s.stateMap[id]? = some e ∧ e.operation ≠ .nodeDeletion ∧
    (e.operation = .nodeRecovery → e.status ≠ .recoveryClosed)

/-- The id is that of a service which state changes of its node are entered for. -/
def OfNode (id : String) : Prop :=
  ∃ service ∈ nodeServices, id = getServiceId (getNodeId id) service

/-- The table together with the entries that are still to be deleted. -/
structure WellFormed (s : StateChangeManager) (deleting : List (String × StateChangeOperation)) :
    Prop where
  deletion : ∀ (id : String) e, s.stateMap[id]? = some e → e.operation = .nodeDeletion →
    e.status.adding = false
  ids : ∀ (id : String) e, s.stateMap[id]? = some e →
    e.operation = .nodeRecovery ∨ e.operation = .nodeDeletion ∨ e.status = .naNew → OfNode id
  proxy : ∀ node e, s.stateMap[getServiceId node proxyService]? = some e →
    e.operation = .nodeDeletion → ∃ e', s.stateMap[getServiceId node containerService]? = some e' ∧
      e'.operation = .nodeDeletion
  listed : ∀ id ∈ s.pass.naList, s.Open id ∧ OfNode id
  pending : ∀ d ∈ deleting, d.2 ≠ .nodeRecovery → d.2 ≠ .nodeDeletion →
    s.Open d.1 ∧ d.1 ∉ s.pass.naList
  distinct : (deleting.map (·.1)).Nodup

/-- The node has no entries of the operation. -/
def NoneOf (s : StateChangeManager) (node : String) (operation : StateChangeOperation) : Prop :=
  ∀ (id : String) e, s.stateMap[id]? = some e → getNodeId id = node → e.operation ≠ operation

/-- No service of the node is being added. -/
structure Unadded (s : StateChangeManager) (node : String) : Prop where
  list : ∀ id ∈ s.pass.naList, getNodeId id ≠ node
  entries : ∀ (id : String) e, s.stateMap[id]? = some e → getNodeId id = node → e.status ≠ .naNew

/-- The operations that complete with a report about the node. -/
def Completing (operation : StateChangeOperation) : Prop :=
  operation = .nodeRecovery ∨ operation = .nodeDeletion

/-- Every entry of the node about a recovery or a deletion was there. -/
def NoneEntered (s s' : StateChangeManager) (node : String) : Prop :=
  ∀ operation, Completing operation → ∀ (id : String) e', getNodeId id = node →
    s'.stateMap[id]? = some e' → e'.operation = operation →
      ∃ e, s.stateMap[id]? = some e ∧ e.operation = operation

variable {s s' : StateChangeManager} {deleting : List (String × StateChangeOperation)}
  {node nodeId id : String} {operation : StateChangeOperation}

theorem NoneEntered.noneOf (h : NoneEntered s s' node) (hoperation : Completing operation)
    (hnone : s.NoneOf node operation) : s'.NoneOf node operation := by
  intro id e' he' hid hop
  obtain ⟨e, he, hop⟩ := h operation hoperation id e' hid he' hop
  exact hnone id e he hid hop

theorem noneEntered_of_step {scanning : Prop} (h : TableStep scanning s.stateMap s'.stateMap)
    (node : String) : NoneEntered s s' node ∧ NoneEntered s' s node := by
  constructor
  · intro operation hoperation id e' _ he' hop
    cases he : s.stateMap[id]? with
    | none =>
        rw [(h.fresh id e' he' he).1] at hop
        rcases hoperation with rfl | rfl <;> cases hop
    | some e =>
        obtain ⟨e₁, he₁, hstep⟩ := h.entry id e he
        obtain rfl := Option.some.inj (he'.symm.trans he₁)
        exact ⟨e, rfl, (hstep.operation_iff hoperation).mp hop⟩
  · intro operation hoperation id e _ he hop
    obtain ⟨e', he', hstep⟩ := h.entry id e he
    exact ⟨e', he', (hstep.operation_iff hoperation).mpr hop⟩

theorem Open.step (h : s.Open id) (hstep : TableStep False s.stateMap s'.stateMap) :
    s'.Open id := by
  obtain ⟨e, he, hdel, hrec⟩ := h
  obtain ⟨e', he', hentry⟩ := hstep.entry id e he
  refine ⟨e', he', fun hop => hdel ((hentry.operation_iff (.inr rfl)).mp hop),
    fun hop hclosed => ?_⟩
  exact hrec ((hentry.operation_iff (.inl rfl)).mp hop) (hentry.closed not_false hclosed)

theorem WellFormed.entries {scanning : Prop} (h : s.WellFormed deleting)
    (hstep : TableStep scanning s.stateMap s'.stateMap) :
    (∀ (id : String) e, s'.stateMap[id]? = some e → e.operation = .nodeDeletion →
      e.status.adding = false) ∧
    (∀ (id : String) e, s'.stateMap[id]? = some e →
      e.operation = .nodeRecovery ∨ e.operation = .nodeDeletion ∨ e.status = .naNew → OfNode id) ∧
    ∀ node e, s'.stateMap[getServiceId node proxyService]? = some e →
      e.operation = .nodeDeletion →
        ∃ e', s'.stateMap[getServiceId node containerService]? = some e' ∧
          e'.operation = .nodeDeletion := by
  obtain ⟨hback, hforth⟩ : (∀ node, NoneEntered s s' node) ∧ ∀ node, NoneEntered s' s node :=
    ⟨fun node => (noneEntered_of_step hstep node).1, fun node => (noneEntered_of_step hstep node).2⟩
  refine ⟨fun id e' he' hdel => ?_, fun id e' he' hkind => ?_, fun node e' he' hdel => ?_⟩
  · obtain ⟨e, he, hop⟩ := hback _ _ (.inr rfl) id e' rfl he' hdel
    obtain ⟨e₁, he₁, hentry⟩ := hstep.entry id e he
    obtain rfl := Option.some.inj (he'.symm.trans he₁)
    by_contra hadding
    rw [Bool.not_eq_false] at hadding
    have hold := hentry.deleted hop hadding
    rw [h.deletion id e he hop] at hold
    cases hold
  · cases he : s.stateMap[id]? with
    | none =>
        obtain ⟨hop, hstatus⟩ := hstep.fresh id e' he' he
        rcases hkind with hrec | hdel | hnew
        · rw [hop] at hrec
          cases hrec
        · rw [hop] at hdel
          cases hdel
        · exact absurd hnew hstatus
    | some e =>
        obtain ⟨e₁, he₁, hentry⟩ := hstep.entry id e he
        obtain rfl := Option.some.inj (he'.symm.trans he₁)
        refine h.ids id e he ?_
        exact hkind.imp (hentry.operation_iff (.inl rfl)).mp
          (Or.imp (hentry.operation_iff (.inr rfl)).mp hentry.added)
  · obtain ⟨e, he, hop⟩ := hback _ _ (.inr rfl) _ e' rfl he' hdel
    obtain ⟨e₁, he₁, hop₁⟩ := h.proxy node e he hop
    exact hforth _ _ (.inr rfl) _ e₁ rfl he₁ hop₁

theorem WellFormed.quiet (h : s.WellFormed deleting) (hquiet : Quiet s s') :
    s'.WellFormed deleting := by
  obtain ⟨hdeletion, hids, hproxy⟩ := h.entries hquiet.table
  refine ⟨hdeletion, hids, hproxy, ?_, ?_, ?_⟩
  · rw [hquiet.naList]
    exact fun id hid => (h.listed id hid).imp_left fun hopen => hopen.step hquiet.table
  · rw [hquiet.naList]
    exact fun d hd hrec hdel => (h.pending d hd hrec hdel).imp_left fun hopen =>
      hopen.step hquiet.table
  · exact h.distinct

theorem WellFormed.noneDeleted (h : s.WellFormed deleting) :
    NoneDeleted s.stateMap s.pass.naList := by
  intro id hid e he
  obtain ⟨e₁, he₁, hdel, -⟩ := (h.listed id hid).1
  exact Option.some.inj (he.symm.trans he₁) ▸ hdel

theorem WellFormed.sublist {deleting' : List (String × StateChangeOperation)}
    (h : s.WellFormed deleting) (hdeleting : deleting'.Sublist deleting) :
    s.WellFormed deleting' :=
  { h with
    pending := fun d hd => h.pending d (hdeleting.subset hd)
    distinct := h.distinct.sublist (hdeleting.map _) }

theorem WellFormed.scan {expired mounted : List String} (h : s.WellFormed deleting)
    (hscan : s.scan expired mounted = some s') :
    s'.WellFormed s'.pass.serviceEntryToBeDeleted.toList := by
  obtain ⟨htable, -, hlisting⟩ := scans_scan hscan
  obtain ⟨hdeletion, hids, hproxy⟩ := h.entries htable
  -- the statuses of what the scan lists are those of an addition that is not closed
  have hopen : ∀ (id : String) e, s'.stateMap[id]? = some e → e.status.adding = true →
      s'.Open id := by
    intro id e he hadding
    refine ⟨e, he, fun hdel => ?_, fun _ hclosed => ?_⟩
    · rw [hdeletion id e he hdel] at hadding
      cases hadding
    · rw [hclosed] at hadding
      cases hadding
  refine ⟨hdeletion, hids, hproxy, fun id hid => ?_, fun d hd hrec hdel => ?_, ?_⟩
  · obtain ⟨-, e, he, hnew⟩ := hlisting.listed id hid
    exact ⟨hopen id e he (by rw [hnew]; rfl), hids id e he (.inr (.inr hnew))⟩
  · obtain ⟨e, he, hdone⟩ := hlisting.pending d.1 d.2
      (TreeMap.mem_toList_iff_getElem?_eq_some.mp hd) hrec hdel
    refine ⟨hopen d.1 e he (by rcases hdone with hdone | hdone <;> rw [hdone] <;> rfl),
      fun hin => ?_⟩
    obtain ⟨-, e', he', hnew⟩ := hlisting.listed d.1 hin
    obtain rfl := Option.some.inj (he.symm.trans he')
    rw [hnew] at hdone
    rcases hdone with hdone | hdone <;> cases hdone
  · exact List.pairwise_map.mpr (s'.pass.serviceEntryToBeDeleted.distinct_keys_toList.imp
      fun hne heq => hne (LawfulEqCmp.compare_eq_iff_eq.mpr heq))

theorem Unadded.quiet (h : s.Unadded node) (hquiet : Quiet s s') : s'.Unadded node := by
  refine ⟨hquiet.naList ▸ h.list, fun id e' he' hid hnew => ?_⟩
  cases he : s.stateMap[id]? with
  | none => exact (hquiet.table.fresh id e' he' he).2 hnew
  | some e =>
      obtain ⟨e₁, he₁, hentry⟩ := hquiet.table.entry id e he
      obtain rfl := Option.some.inj (he'.symm.trans he₁)
      exact h.entries id e he hid (hentry.added hnew)

theorem Unadded.scan {expired mounted : List String} (h : s.Unadded node)
    (hscan : s.scan expired mounted = some s') : s'.Unadded node := by
  obtain ⟨htable, -, hlisting⟩ := scans_scan hscan
  have hentries : ∀ (id : String) e, s'.stateMap[id]? = some e → getNodeId id = node →
      e.status ≠ .naNew := by
    intro id e' he' hid hnew
    cases he : s.stateMap[id]? with
    | none => exact (htable.fresh id e' he' he).2 hnew
    | some e =>
        obtain ⟨e₁, he₁, hentry⟩ := htable.entry id e he
        obtain rfl := Option.some.inj (he'.symm.trans he₁)
        exact h.entries id e he hid (hentry.added hnew)
  refine ⟨fun id hid heq => ?_, hentries⟩
  obtain ⟨-, e, he, hnew⟩ := hlisting.listed id hid
  exact hentries id e he heq hnew

theorem entered_deletion (h : s.checkIfNodeCanBeRetired nodeId = true) {service : String}
    (hservice : service ∈ nodeServices) :
    ∃ e, (s.prepareAndAddEntry nodeId .nodeDeletion).stateMap[getServiceId nodeId service]? =
      some e ∧ e.operation = .nodeDeletion := by
  have hnone : s.stateMap[getServiceId nodeId service]? = none := by
    simpa using List.all_eq_true.mp h service hservice
  have hadd : s.prepareAndAddEntry nodeId .nodeDeletion =
      s.addEntryInMap nodeId nodeServices .nodeDeletion .ndNew := if_pos h
  have hlookup := foldl_addRecord_lookup nodeId nodeServices .nodeDeletion .ndNew
    (s.stateMap, false)
  have hforce := foldl_addRecord_force nodeId nodeServices .nodeDeletion .ndNew
    (s.stateMap, false)
  rw [hadd]
  simp only [addEntryInMap]
  generalize nodeServices.foldl (fun acc service => addRecord acc
    (getServiceId nodeId service, .nodeDeletion, .ndNew)) (s.stateMap, false) = acc
    at hlookup hforce ⊢
  have hfalse : acc.2 = false := hforce.resolve_right (by simp)
  rw [hfalse, if_neg (by simp), hlookup, if_pos (List.mem_map_of_mem hservice), hnone]
  exact ⟨_, rfl, rfl⟩

theorem prepareAndAddEntry_deletion (h : s.checkIfNodeCanBeRetired nodeId ≠ true) :
    s.prepareAndAddEntry nodeId .nodeDeletion = s := if_neg h

theorem noneEntered_of_eq
    (h : ∀ id : String, getNodeId id = node → s'.stateMap[id]? = s.stateMap[id]?) :
    NoneEntered s s' node := fun _ _ id e' hid he' hop => ⟨e', h id hid ▸ he', hop⟩

theorem Enters.noneEntered (h : Enters nodeId operation s s') (hne : node ≠ nodeId) :
    NoneEntered s s' node ∧ NoneEntered s' s node := by
  have hsame : ∀ id : String, getNodeId id = node → s'.stateMap[id]? = s.stateMap[id]? :=
    fun id hid => h.others id (hid ▸ hne)
  exact ⟨noneEntered_of_eq hsame, noneEntered_of_eq fun id hid => (hsame id hid).symm⟩

theorem Enters.unadded (h : Enters nodeId operation s s') (hadd : s.Unadded node)
    (hother : node ≠ nodeId ∨ operation ≠ .nodeAddition) : s'.Unadded node := by
  refine ⟨h.pass ▸ hadd.list, fun id e' he' hid hnew => ?_⟩
  cases he : s.stateMap[id]? with
  | none =>
      obtain ⟨-, hstatus, service, hservice, rfl⟩ := h.fresh id e' he' he
      rw [getNodeId_of_service hservice] at hid
      rw [hstatus] at hnew
      rcases hother with hne | hop
      · exact hne hid.symm
      · cases operation <;> first | exact hop rfl | cases hnew
  | some e =>
      obtain ⟨e₁, he₁, hsame | ⟨-, -, -, hstatus⟩⟩ := h.entry id e he
      all_goals obtain rfl := Option.some.inj (he'.symm.trans he₁)
      · exact hadd.entries id e he hid (hsame ▸ hnew)
      · rw [hnew] at hstatus
        rcases hstatus with hstatus | ⟨-, hstatus⟩ <;> cases hstatus

theorem Enters.open (h : Enters nodeId operation s s') (hopen : s.Open id) : s'.Open id := by
  obtain ⟨e, he, hdel, hrec⟩ := hopen
  obtain ⟨e', he', rfl | ⟨-, -, hop, hstatus⟩⟩ := h.entry id e he
  · exact ⟨e', he', hdel, hrec⟩
  · refine ⟨e', he', by simp [hop], fun _ hclosed => ?_⟩
    rw [hclosed] at hstatus
    rcases hstatus with hstatus | ⟨hold, -⟩
    · cases hstatus
    · exact hdel hold

theorem WellFormed.prepareAndAddEntry (h : s.WellFormed deleting) (nodeId : String)
    (operation : StateChangeOperation) :
    (s.prepareAndAddEntry nodeId operation).WellFormed deleting := by
  have henters := enters_prepareAndAddEntry s nodeId operation
  refine ⟨fun id e' he' hdel => ?_, fun id e' he' hkind => ?_, fun node e' he' hdel => ?_, ?_, ?_,
    h.distinct⟩
  · cases he : s.stateMap[id]? with
    | none =>
        obtain ⟨hop, hstatus, -⟩ := henters.fresh id e' he' he
        rw [hstatus, ← hop, hdel]
        rfl
    | some e =>
        obtain ⟨e₁, he₁, hsame | ⟨-, -, hop, -⟩⟩ := henters.entry id e he
        all_goals obtain rfl := Option.some.inj (he'.symm.trans he₁)
        · exact h.deletion id e' (hsame ▸ he) hdel
        · rw [hop] at hdel
          cases hdel
  · cases he : s.stateMap[id]? with
    | none =>
        obtain ⟨-, -, service, hservice, rfl⟩ := henters.fresh id e' he' he
        exact ⟨service, hservice, by rw [getNodeId_of_service hservice]⟩
    | some e =>
        obtain ⟨e₁, he₁, hsame | ⟨-, ⟨service, hservice, rfl⟩, -⟩⟩ := henters.entry id e he
        all_goals obtain rfl := Option.some.inj (he'.symm.trans he₁)
        · exact h.ids id e' (hsame ▸ he) hkind
        · exact ⟨service, hservice, by rw [getNodeId_of_service hservice]⟩
  · have hself : ∀ service ∈ nodeServices, getNodeId (getServiceId node service) = node :=
      fun service hservice => getNodeId_of_service hservice
    by_cases hne : node = nodeId
    · subst hne
      cases operation with
      | nodeRecovery =>
          refine absurd hdel (not_deleted_of_recovery s (fun id e he hop hid => ?_)
            (fun e => h.proxy node e) he' (hself proxyService (by simp [nodeServices])))
          exact hid ▸ h.ids id e he (.inr (.inl hop))
      | nodeDeletion =>
          by_cases hretire : s.checkIfNodeCanBeRetired node = true
          · exact entered_deletion hretire (by simp [nodeServices])
          · rw [prepareAndAddEntry_deletion hretire] at he' ⊢
            exact h.proxy node e' he' hdel
      | nodeAddition =>
          cases he : s.stateMap[getServiceId node proxyService]? with
          | none =>
              rw [(henters.fresh _ e' he' he).1] at hdel
              cases hdel
          | some e =>
              obtain ⟨e₁, he₁, hsame⟩ := henters.entry _ e he
              obtain rfl := Option.some.inj (he'.symm.trans he₁)
              obtain rfl := hsame.resolve_right (by simp)
              obtain ⟨e₂, he₂, hop⟩ := h.proxy node e' he hdel
              obtain ⟨e₃, he₃, hsame'⟩ := henters.entry _ e₂ he₂
              exact ⟨e₃, he₃, hsame'.resolve_right (by simp) ▸ hop⟩
      | componentBalancing => exact h.proxy node e' he' hdel
    · rw [henters.others _ (by rw [hself _ (by simp [nodeServices])]; exact hne)] at he' ⊢
      exact h.proxy node e' he' hdel
  · rw [henters.pass]
    exact fun id hid => (h.listed id hid).imp_left henters.open
  · rw [henters.pass]
    exact fun d hd hrec hdel => (h.pending d hd hrec hdel).imp_left henters.open

theorem WellFormed.noneDeleted_of_recovery (h : s.WellFormed deleting) (nodeId : String) :
    (s.prepareAndAddEntry nodeId .nodeRecovery).NoneOf nodeId .nodeDeletion :=
  fun _ _ he hid => not_deleted_of_recovery s
    (fun a e ha hop hnode => hnode ▸ h.ids a e ha (.inr (.inl hop))) (fun e => h.proxy nodeId e) he
    hid

theorem WellFormed.erase {ids : List String} {deleting' : List (String × StateChangeOperation)}
    (h : s.WellFormed deleting)
    (hmap : ∀ id : String, s'.stateMap[id]? = if id ∈ ids then none else s.stateMap[id]?)
    (hna : s'.pass.naList = s.pass.naList) (hlisted : ∀ id ∈ s.pass.naList, id ∉ ids)
    (hpending : ∀ d ∈ deleting', d.2 ≠ .nodeRecovery → d.2 ≠ .nodeDeletion → d.1 ∉ ids)
    (hdeleting : deleting'.Sublist deleting)
    (hproxy : ∀ node e, getServiceId node containerService ∈ ids →
      s.stateMap[getServiceId node containerService]? = some e → e.operation = .nodeDeletion →
        ∀ e', s.stateMap[getServiceId node proxyService]? = some e' →
          e'.operation = .nodeDeletion → getServiceId node proxyService ∈ ids) :
    s'.WellFormed deleting' := by
  have hold : ∀ {id : String} {e}, s'.stateMap[id]? = some e →
      id ∉ ids ∧ s.stateMap[id]? = some e := by
    intro id e he
    rw [hmap] at he
    split at he
    · cases he
    · exact ⟨‹_›, he⟩
  have hopen : ∀ id : String, id ∉ ids → s.Open id → s'.Open id := fun id hid ⟨e, he, h⟩ =>
    ⟨e, by rw [hmap, if_neg hid, he], h⟩
  refine ⟨fun id e he => h.deletion id e (hold he).2, fun id e he => h.ids id e (hold he).2,
    fun node e he hdel => ?_, ?_, ?_, h.distinct.sublist (hdeleting.map _)⟩
  · obtain ⟨hin, he⟩ := hold he
    obtain ⟨e', he', hdel'⟩ := h.proxy node e he hdel
    refine ⟨e', ?_, hdel'⟩
    rw [hmap, if_neg, he']
    exact fun hcontainer => hin (hproxy node e' hcontainer he' hdel' e he hdel)
  · rw [hna]
    exact fun id hid => (h.listed id hid).imp_left (hopen id (hlisted id hid))
  · rw [hna]
    intro d hd hrec hdel
    exact (h.pending d (hdeleting.subset hd) hrec hdel).imp_left
      (hopen d.1 (hpending d hd hrec hdel))

theorem noneEntered_of_erase {ids : List String}
    (hmap : ∀ id : String, s'.stateMap[id]? = if id ∈ ids then none else s.stateMap[id]?)
    (node : String) : NoneEntered s s' node := by
  intro operation _ id e' _ he' hop
  rw [hmap] at he'
  split at he'
  · cases he'
  · exact ⟨e', he', hop⟩

theorem Unadded.erase {ids : List String} (h : s.Unadded node)
    (hmap : ∀ id : String, s'.stateMap[id]? = if id ∈ ids then none else s.stateMap[id]?)
    (hna : s'.pass.naList ⊆ s.pass.naList) : s'.Unadded node := by
  refine ⟨fun id hid => h.list id (hna hid), fun id e he => ?_⟩
  rw [hmap] at he
  split at he
  · cases he
  · exact h.entries id e he

end StateChangeManager

end ObjectStorage.Osm
