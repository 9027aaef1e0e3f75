import ObjectStorage.Library.Transition
import ObjectStorage.Osm.RecoverySlots

/-!
The scan of the table reserves a destination for every new recovery, and the plans that follow it
start the recoveries. Over a run the map marks the destinations in use if every recovery that is
scanned is planned, and only those are.
-/

namespace ObjectStorage.Osm

open Std Library

namespace StateChangeManager

open MonitorPass

variable {s s' : StateChangeManager} {id : String} {e e' : StateChangeInitiatorMap}

/-- The pass has not come to the entry yet. -/
def Fresh (pass : MonitorPass) (serviceId : String) : Prop :=
  serviceId ∉ pass.recList ∧ ¬ pass.Passed serviceId

/-- The scan of one entry leaves the others to be scanned. -/
structure Scanned (s s' : StateChangeManager) (id : String) : Prop where
  inv : Inv s'
  fresh : ∀ id', id' ≠ id → Fresh s.pass id' → Fresh s'.pass id'

theorem Scanned.refl (h : Inv s) (id : String) : Scanned s s id := ⟨h, fun _ _ hfresh => hfresh⟩

theorem Scanned.of_pass (h : Inv s') (hpass : s'.pass = s.pass) : Scanned s s' id :=
  ⟨h, fun _ _ hfresh => hpass ▸ hfresh⟩

/-- The pass writes down an entry that uses nothing. -/
theorem Scanned.repass (h : Inv s) {pass : MonitorPass} (he : s.stateMap[id]? = some e)
    (hrec : pass.recList = s.pass.recList) (hunused : ¬ s.pass.Uses id e)
    (hpassed : ∀ id', pass.Passed id' → s.pass.Passed id' ∨ id' = id) :
    Scanned s { s with pass := pass } id where
  inv := h.repass hrec fun id' e' he' hp => by
    rcases hpassed id' hp with hold | rfl
    · exact .inl hold
    · obtain rfl := Option.some.inj (he.symm.trans he')
      exact .inr hunused
  fresh id' hne hfresh :=
    ⟨hrec ▸ hfresh.1, fun hp => (hpassed id' hp).elim hfresh.2 fun heq => hne heq⟩

theorem Scanned.flag (h : Inv s) (pass : MonitorPass) (hrec : pass.recList = s.pass.recList)
    (hpassed : ∀ id', pass.Passed id' ↔ s.pass.Passed id') (id : String) :
    Scanned s { s with pass := pass } id where
  inv := h.repass hrec fun id' _ _ hp => .inl ((hpassed id').mp hp)
  fresh id' _ hfresh := ⟨hrec ▸ hfresh.1, fun hp => hfresh.2 ((hpassed id').mp hp)⟩

theorem Scanned.setEntry (h : Scanned s s' id) (he : s'.stateMap[id]? = some e)
    (hkeeps : s'.pass.KeepsUse id e e') : Scanned s (s'.setEntry id e') id :=
  ⟨h.inv.setEntry he hkeeps, h.fresh⟩

theorem passed_toBeDeleted {key : String} {operation : StateChangeOperation}
    (hp : (s.toBeDeleted key operation).pass.Passed id) : s.pass.Passed id ∨
      id = key ∧ operation ≠ .nodeRecovery ∧ operation ≠ .nodeDeletion := by
  rcases hp with hna | hnd | ⟨op, hget, hrec, hdel⟩
  · exact .inl (.inl hna)
  · exact .inl (.inr (.inl hnd))
  · rcases getElem?_insertIfNew_eq_some.mp hget with hold | ⟨-, rfl, rfl⟩
    · exact .inl (.inr (.inr ⟨op, hold, hrec, hdel⟩))
    · exact .inr ⟨rfl, hrec, hdel⟩

theorem Scanned.toBeDeleted (h : Scanned s s' id) (he : s'.stateMap[id]? = some e)
    {key : String} {operation : StateChangeOperation}
    (hkey : (operation = .nodeRecovery ∨ operation = .nodeDeletion) ∨
      key = id ∧ ¬ s'.pass.Uses id e) : Scanned s (s'.toBeDeleted key operation) id where
  inv := h.inv.repass rfl fun id' e' he' hp => by
    rcases passed_toBeDeleted (s := s') hp with hold | ⟨rfl, hrec, hdel⟩
    · exact .inl hold
    · obtain ⟨rfl, hunused⟩ := hkey.resolve_left fun hop => hop.elim hrec hdel
      obtain rfl := Option.some.inj (he.symm.trans he')
      exact .inr hunused
  fresh id' hne hfresh := by
    refine ⟨(h.fresh id' hne hfresh).1, fun hp => ?_⟩
    rcases passed_toBeDeleted (s := s') hp with hold | ⟨rfl, hrec, hdel⟩
    · exact (h.fresh id' hne hfresh).2 hold
    · exact hne (hkey.resolve_left fun hop => hop.elim hrec hdel).1

theorem Inv.reserve (h : Inv s) (he : s.stateMap[id]? = some e) (hfresh : Fresh s.pass id)
    (hrelated : ¬ e.status.Unrelated) {node : String} {b : ComponentBalancer}
    (htarget : s.balancer.getTargetNodeForRecovery id = (some node, b)) (pass : MonitorPass)
    (e' : StateChangeInitiatorMap)
    (hrec : ∀ id', id' ≠ id → (id' ∈ pass.recList ↔ id' ∈ s.pass.recList))
    (hpassed : ∀ id', pass.Passed id' ↔ s.pass.Passed id') (huses : pass.Uses id e')
    (hoperation : e'.operation = e.operation) (hdest : e'.destinationNode = node)
    (hfailed : e'.status ≠ .recoveryFailed) (hunused : ¬ s.pass.Uses id e) :
    Inv { s with
      balancer := b, pass := pass, stateMap := s.stateMap.insert id e' } := by
  have hok := h.table.entry id e he
  have hothers : ∀ id', id' ≠ id → ∀ e, pass.Uses id' e ↔ s.pass.Uses id' e := fun id' hne e => by
    rw [Uses, Uses, hrec id' hne]
  obtain ⟨hfree, hreserved⟩ := ComponentBalancer.reserved_getTargetNodeForRecovery htarget
  refine ⟨⟨fun a e₁ ha => ?_, fun a ha => ?_⟩, h.exact.reserve hfree (i := id) ?_ hreserved ?_ ?_⟩
  · simp only [getElem?_insert_eq] at ha
    by_cases hid : id = a
    · rw [if_pos hid] at ha
      obtain rfl := Option.some.inj ha
      subst hid
      exact ⟨fun _ => hoperation ▸ hok.kind hrelated, fun _ => ⟨huses, hfailed⟩,
        fun hp => absurd ((hpassed id).mp hp) hfresh.2⟩
    · rw [if_neg hid] at ha
      have hne : a ≠ id := fun heq => hid heq.symm
      have hold := h.table.entry a e₁ ha
      refine ⟨hold.kind, ?_, ?_⟩
      · rw [hothers a hne, hrec a hne]
        exact hold.listed
      · rw [hothers a hne, hpassed]
        exact hold.passed
  · simp only [getElem?_insert_eq]
    by_cases hid : id = a
    · simp [hid]
    · rw [if_neg hid]
      exact h.table.present a ((hrec a fun heq => hid heq.symm).mp ha)
  · rw [destination, he, slot_some, if_neg hunused]
  · simp only [destination, getElem?_insert_eq, if_pos]
    rw [slot_some, if_pos huses, hdest]
  · intro a hne
    have hid : ¬ id = a := fun heq => hne heq.symm
    simp only [destination, getElem?_insert_eq, if_neg hid]
    cases s.stateMap[a]? with
    | none => rfl
    | some e₁ => simp only [slot_some, hothers a hne]

theorem scanned_scanRecoveryNew (h : Inv s) (he : s.stateMap[id]? = some e)
    (hfresh : Fresh s.pass id) (hstatus : e.status = .recoveryNew) :
    Scanned s (s.scanRecoveryNew id e) id := by
  have hrelated : ¬ e.status.Unrelated := fun hunrelated => hunrelated.2 hstatus
  have hunused : ¬ s.pass.Uses id e := by
    rintro (huses | ⟨-, hin⟩)
    · rw [hstatus] at huses
      cases huses
    · exact hfresh.1 hin
  have hkind := (h.table.entry id e he).kind hrelated
  simp only [scanRecoveryNew]
  cases htarget : s.balancer.getTargetNodeForRecovery id with
  | mk found b =>
      cases found with
      | none => exact .refl h id
      | some node =>
          simp only
          split_ifs with hmerged hobject
          · have hinv := h.reserve he hfresh hrelated htarget
              { s.pass with recList := s.pass.recList ++ [id] } { e with destinationNode := node }
              (fun id' hne => by simp [hne]) (fun _ => Iff.rfl) (.inr ⟨hstatus, by simp⟩) rfl rfl
              (by simp [hstatus]) hunused
            exact ⟨hinv, fun id' hne hnext => ⟨by simpa [setEntry, hne] using hnext.1, hnext.2⟩⟩
          · have hinv := h.reserve he hfresh hrelated htarget s.pass
              { e with destinationNode := node, status := .recoveryPlanned }
              (fun _ _ => Iff.rfl) (fun _ => Iff.rfl) (.inl rfl) rfl rfl (by simp) hunused
            exact ⟨hinv, fun _ _ hnext => hnext⟩
          all_goals exact absurd (eq_objectService hkind.2 hmerged) hobject

theorem scanned_scanEntry (h : Inv s) (expired mounted : List String) (hfresh : Fresh s.pass id) :
    Scanned s (scanEntry expired mounted s id) id := by
  unfold scanEntry
  cases he : s.stateMap[id]? with
  | none => exact .refl h id
  | some e =>
      have hok := h.table.entry id e he
      have hset : ∀ e', e.status.Unrelated → e'.status.Unrelated →
          Scanned s (s.setEntry id e') id := fun e' hold hnew =>
        (Scanned.refl h id).setEntry he
          (.other (fun huses => huses.related hold) hnew.1 fun heq => absurd heq hnew.2)
      have hsame : ∀ e', e'.status = e.status → e'.operation = e.operation →
          e'.destinationNode = e.destinationNode → Scanned s (s.setEntry id e') id :=
        fun e' hstatus hop hdest => (Scanned.refl h id).setEntry he (.same hstatus hop hdest)
      have hrelease : ∀ e', s.pass.Uses id e → e'.status.usesDestination = false →
          e'.operation = e.operation → Scanned s ((s.updateDest id e).setEntry id e') id :=
        fun e' huses hstatus hop => .of_pass (h.release he huses hfresh.1 hstatus hop) rfl
      simp only
      split
      · -- the lists of services to be added
        rename_i hstatus
        have hold : e.status.Unrelated := by rw [hstatus]; decide
        split_ifs
        · refine .repass h he rfl (fun huses => huses.related hold) fun id' hp => ?_
          rcases hp with hna | hnd | hdel
          · rcases List.mem_append.mp hna with hin | hin
            · exact .inl (.inl hin)
            · exact .inr (List.mem_singleton.mp hin)
          · exact .inl (.inr (.inl hnd))
          · exact .inl (.inr (.inr hdel))
        · exact hset _ hold ⟨rfl, by simp⟩
        · exact .refl h id
      · rename_i hstatus
        have hold : e.status.Unrelated := by rw [hstatus]; decide
        exact (Scanned.refl h id).toBeDeleted he (.inr ⟨rfl, fun huses => huses.related hold⟩)
      · -- the lists of services to be deleted
        rename_i hstatus
        have hold : e.status.Unrelated := by rw [hstatus]; decide
        split_ifs
        · have hpass : Scanned s
              { s with pass := { s.pass with ndList := s.pass.ndList ++ [id] } } id :=
            .repass h he rfl (fun huses => huses.related hold) fun id' hp => by
              rcases hp with hna | hnd | hdel
              · exact .inl (.inl hna)
              · rcases List.mem_append.mp hnd with hin | hin
                · exact .inl (.inr (.inl hin))
                · exact .inr (List.mem_singleton.mp hin)
              · exact .inl (.inr (.inr hdel))
          exact hpass.setEntry he (.same rfl rfl rfl)
        · exact hset _ hold ⟨rfl, by simp⟩
        · exact hsame _ rfl rfl rfl
      · have hpass := Scanned.flag h { s.pass with balancingOngoingNd := true } rfl
          (fun _ => Iff.rfl) id
        exact hpass.setEntry he (.same rfl rfl rfl)
      · exact (Scanned.refl h id).toBeDeleted he (.inl (.inr rfl))
      · rename_i hstatus
        exact hset _ (by rw [hstatus]; decide) ⟨rfl, by simp⟩
      · rename_i hstatus
        have hold : e.status.Unrelated := by rw [hstatus]; decide
        have hpass := Scanned.flag h { s.pass with balancingOngoingNa := true } rfl
          (fun _ => Iff.rfl) id
        exact hpass.setEntry he
          (.other (fun huses => huses.related hold) rfl fun heq => by simp at heq)
      · have hpass := Scanned.flag h { s.pass with balancingOngoingNa := true } rfl
          (fun _ => Iff.rfl) id
        exact hpass.setEntry he (.same rfl rfl rfl)
      · rename_i hstatus
        have hold : e.status.Unrelated := by rw [hstatus]; decide
        exact (Scanned.refl h id).toBeDeleted he (.inr ⟨rfl, fun huses => huses.related hold⟩)
      · rename_i hstatus
        split_ifs
        · exact hset _ (by rw [hstatus]; decide) ⟨rfl, by simp⟩
        · exact .refl h id
      · rename_i hstatus
        have hold : e.status.Unrelated := by rw [hstatus]; decide
        refine .of_pass (inv_replan h he (fun huses => huses.related hold) e) ?_
        simp only [replan]
        split <;> rfl
      · rename_i hstatus
        exact scanned_scanRecoveryNew h he hfresh hstatus
      · rename_i hstatus
        split_ifs
        · exact hrelease _ (.inl (by rw [hstatus]; rfl)) rfl rfl
        · exact hsame _ rfl rfl rfl
      · rename_i hstatus
        have huses : s.pass.Uses id e := .inl (by rw [hstatus]; rfl)
        split_ifs
        · exact (Scanned.refl h id).setEntry he
            (.running huses rfl (fun hin => absurd hin hfresh.1) rfl rfl)
        · exact .refl h id
      · rename_i hstatus
        exact hrelease _ (.inl (by rw [hstatus]; rfl)) rfl rfl
      · rename_i hstatus
        split_ifs
        · exact .refl h id
        · have hclosed := hrelease { e with status := .recoveryClosed }
            (.inl (by rw [hstatus]; rfl)) rfl rfl
          exact hclosed.toBeDeleted (getElem?_insert_eq _ _ _ _ |>.trans (if_pos rfl))
            (.inl (.inl rfl))
      · exact .refl h id

theorem Inv.start (h : Inv s)
    (hplanned : ∀ id ∈ s.pass.recList, s.stateMap[id]?.map (·.status) ≠ some .recoveryNew)
    (maps : ComponentMapManager) : Inv { s with maps := maps, pass := .start } := by
  have huses : ∀ id e, s.stateMap[id]? = some e →
      (MonitorPass.start.Uses id e ↔ s.pass.Uses id e) := fun id e he => by
    have hunlisted : id ∉ MonitorPass.start.recList := List.not_mem_nil
    constructor
    · rintro (hrunning | ⟨-, hin⟩)
      · exact .inl hrunning
      · exact absurd hin hunlisted
    · rintro (hrunning | ⟨hnew, hin⟩)
      · exact .inl hrunning
      · exact absurd (by rw [he, Option.map_some, hnew]) (hplanned id hin)
  refine ⟨⟨fun id e he => ⟨(h.table.entry id e he).kind, (fun hin => nomatch hin),
    fun hp => ?_⟩, (fun id hin => nomatch hin)⟩, h.exact.congr (fun _ => Iff.rfl) fun id => ?_⟩
  · rcases hp with hin | hin | ⟨op, hget, -, -⟩
    · cases hin
    · cases hin
    · simp [MonitorPass.start] at hget
  · simp only [destination]
    cases he : s.stateMap[id]? with
    | none => rfl
    | some e => simp only [slot_some, huses id e he]

theorem inv_foldl_scanEntry (expired mounted : List String) (ids : List String) (h : Inv s)
    (hnodup : ids.Nodup) (hfresh : ∀ id ∈ ids, Fresh s.pass id) :
    Inv (ids.foldl (scanEntry expired mounted) s) := by
  induction ids generalizing s with
  | nil => exact h
  | cons id ids ih =>
      rw [List.nodup_cons] at hnodup
      have hscanned := scanned_scanEntry h expired mounted (hfresh id List.mem_cons_self)
      refine ih hscanned.inv hnodup.2 fun id' hid' => hscanned.fresh id' ?_
        (hfresh id' (List.mem_cons_of_mem id hid'))
      rintro rfl
      exact hnodup.1 hid'

theorem inv_scan (h : Inv s) (expired mounted : List String)
    (hplanned : ∀ id ∈ s.pass.recList, s.stateMap[id]?.map (·.status) ≠ some .recoveryNew)
    (hscan : s.scan expired mounted = some s') : Inv s' := by
  obtain ⟨maps, -, rfl⟩ := Option.map_eq_some_iff.mp hscan
  have hfold := inv_foldl_scanEntry expired mounted s.stateMap.keys (h.start hplanned maps)
    s.stateMap.nodup_keys fun id _ => by
      refine ⟨List.not_mem_nil, ?_⟩
      rintro (hin | hin | ⟨op, hget, -, -⟩)
      · cases hin
      · cases hin
      · simp [MonitorPass.start] at hget
  exact hfold.repass rfl fun id e _ hp => .inl hp

/-- The entries and the lists while a new plan is written into the table. -/
structure PlanOk (pass : MonitorPass) (sources : List String)
    (stateMap : TreeMap String StateChangeInitiatorMap) (acc : PlanLists) : Prop where
  kept : pass.Kept stateMap acc.stateMap
  naList : ∀ id ∈ acc.naList, pass.Passed id
  ndList : ∀ id ∈ acc.ndList, pass.Passed id
  recList : ∀ id ∈ acc.recList, id ∈ pass.recList
  sources : ∀ id ∈ sources, ∀ e, acc.stateMap[id]? = some e → e.operation = .nodeRecovery →
    pass.Uses id e

theorem PlanOk.insert {pass : MonitorPass} {sources : List String}
    {stateMap : TreeMap String StateChangeInitiatorMap} {acc acc' : PlanLists}
    (h : PlanOk pass sources stateMap acc)
    (hkept : pass.Kept acc.stateMap (acc.stateMap.insert id e'))
    (huses : e'.operation = .nodeRecovery → pass.Uses id e')
    (hmap : acc'.stateMap = acc.stateMap.insert id e') (hna : ∀ id ∈ acc'.naList, id ∈ acc.naList)
    (hnd : ∀ id ∈ acc'.ndList, id ∈ acc.ndList) (hrec : ∀ id ∈ acc'.recList, id ∈ acc.recList) :
    PlanOk pass sources stateMap acc' where
  kept := hmap ▸ h.kept.trans hkept
  naList a ha := h.naList a (hna a ha)
  ndList a ha := h.ndList a (hnd a ha)
  recList a ha := h.recList a (hrec a ha)
  sources a ha e₁ he₁ hop := by
    rw [hmap, getElem?_insert_eq] at he₁
    by_cases hid : id = a
    · rw [if_pos hid] at he₁
      obtain rfl := Option.some.inj he₁
      exact hid ▸ huses hop
    · rw [if_neg hid] at he₁
      exact h.sources a ha e₁ he₁ hop

theorem PlanOk.setNewPlan {pass : MonitorPass} {sources : List String}
    {stateMap : TreeMap String StateChangeInitiatorMap} {acc : PlanLists}
    (h : PlanOk pass sources stateMap acc) {p : String × Transfers} (hp : p.1 ∈ sources) :
    PlanOk pass sources stateMap (setNewPlan acc p) := by
  have hfilter : ∀ ids : List String, ∀ id ∈ ids.filter (· ≠ p.1), id ∈ ids :=
    fun ids id hid => (List.mem_filter.mp hid).1
  have htable := h.kept.ok
  unfold StateChangeManager.setNewPlan
  cases he : acc.stateMap[p.1]? with
  | none =>
      refine h.insert (.fresh htable he (by rfl) (by simp [StateChangeInitiatorMap.fresh]))
        (by simp [StateChangeInitiatorMap.fresh]) rfl (fun _ h => h) (fun _ h => h) (fun _ h => h)
  | some e =>
      have hok := htable.entry p.1 e he
      simp only
      split
      · rename_i hop
        have hunused := hok.not_uses (by rw [hop]; simp)
        exact h.insert (.update htable he (.other hunused (by rfl) (by simp))) (by simp [hop]) rfl
          (fun _ h => h) (hfilter _) (fun _ h => h)
      · rename_i hop
        have huses := h.sources p.1 hp e he hop
        exact h.insert (.update htable he (.running huses (by rfl) (by simp) (by rfl) (by rfl)))
          (fun _ => .inl (by rfl)) rfl (fun _ h => h) (fun _ h => h) (hfilter _)
      · rename_i hdel hrec
        have hunused := hok.not_uses hrec
        exact h.insert (.update htable he (.other hunused (by rfl) (by simp))) (by simp) rfl
          (hfilter _) (fun _ h => h) (fun _ h => h)

theorem kept_foldl {pass : MonitorPass} {stateMap : TreeMap String StateChangeInitiatorMap}
    {f : TreeMap String StateChangeInitiatorMap → String → TreeMap String StateChangeInitiatorMap}
    {ids : List String} (hkept : ∀ map, pass.TableOk map → ∀ id ∈ ids, pass.Kept map (f map id))
    (h : pass.TableOk stateMap) : pass.Kept stateMap (ids.foldl f stateMap) := by
  induction ids generalizing stateMap with
  | nil => exact .refl h
  | cons id ids ih =>
      have hfirst := hkept stateMap h id List.mem_cons_self
      exact hfirst.trans (ih (fun map hmap a ha => hkept map hmap a (List.mem_cons_of_mem id ha))
        hfirst.ok)

theorem kept_modifySciMapForNewPlan (h : Inv s) {plan : InternalPlannedMap}
    {naList ndList recList : List String} (hna : ∀ id ∈ naList, s.pass.Passed id)
    (hnd : ∀ id ∈ ndList, s.pass.Passed id) (hrec : ∀ id ∈ recList, id ∈ s.pass.recList)
    (hplan : ∀ id ∈ plan.keys, ∀ e, s.stateMap[id]? = some e → e.operation = .nodeRecovery →
      s.pass.Uses id e) :
    s.pass.Kept s.stateMap (s.modifySciMapForNewPlan plan naList ndList recList).stateMap := by
  have hfold : ∀ (ps : List (String × Transfers)) (acc : PlanLists),
      (∀ p ∈ ps, p.1 ∈ plan.keys) → PlanOk s.pass plan.keys s.stateMap acc →
        PlanOk s.pass plan.keys s.stateMap (ps.foldl StateChangeManager.setNewPlan acc) := by
    intro ps
    induction ps with
    | nil => exact fun acc _ hacc => hacc
    | cons p ps ih =>
        intro acc hps hacc
        exact ih _ (fun q hq => hps q (List.mem_cons_of_mem p hq))
          (hacc.setNewPlan (hps p List.mem_cons_self))
  have hset := hfold plan.toList ⟨s.stateMap, naList, ndList, recList⟩
    (fun p hp => by
      rw [← TreeMap.map_fst_toList_eq_keys]
      exact List.mem_map_of_mem hp)
    ⟨.refl h.table, hna, hnd, hrec, hplan⟩
  have hstatus : ∀ map, s.pass.TableOk map → ∀ id, s.pass.Passed id → ∀ status,
      StateChangeStatus.Unrelated status → s.pass.Kept map (setStatus map id status) := by
    intro map hmap id hpassed status hunrelated
    unfold setStatus
    cases he : map[id]? with
    | none => exact .refl hmap
    | some e => exact .update hmap he (.other ((hmap.entry id e he).passed hpassed) hunrelated.1
        fun heq => absurd heq hunrelated.2)
  have hcomplete : ∀ map, s.pass.TableOk map → ∀ id status,
      (s.pass.Passed id ∧ status.Unrelated ∨ id ∈ s.pass.recList ∧ status = .recoveryCompleted) →
        s.pass.Kept map (completeUnplanned status map id) := by
    intro map hmap id status hid
    unfold completeUnplanned
    cases he : map[id]? with
    | none => exact .refl hmap
    | some e =>
        have hok := hmap.entry id e he
        simp only
        split
        · rcases hid with ⟨hpassed, hunrelated⟩ | ⟨hin, rfl⟩
          · exact .update hmap he (.other (hok.passed hpassed) hunrelated.1
              fun heq => absurd heq hunrelated.2)
          · exact .update hmap he
              (.running (hok.listed hin).1 (by rfl) (by simp) (by rfl) (by rfl))
        · exact .refl hmap
  have hna' := kept_foldl (fun map hmap id hid =>
    hstatus map hmap id (hset.naList id hid) .naCompleted (by decide)) hset.kept.ok
  have hrec' := kept_foldl (fun map hmap id hid =>
    hcomplete map hmap id .recoveryCompleted (.inr ⟨hset.recList id hid, rfl⟩)) hna'.ok
  have hnd' := kept_foldl (fun map hmap id hid =>
    hcomplete map hmap id .ndCompleted (.inl ⟨hset.ndList id hid, by decide⟩)) hrec'.ok
  exact hset.kept.trans (hna'.trans (hrec'.trans hnd'))

/-- The plan that `planService` makes, if the pass has services to plan for. -/
def newPlan (s : StateChangeManager) (records : List NodeInfoFileRecord) (service : String) :
    Option InternalPlannedMap :=
  let naList := ofService service s.pass.naList
  let ndList := ofService service s.pass.ndList
  let recList := ofService service s.pass.recList
  if naList = [] ∧ ndList = [] ∧ recList = [] then none
  else (s.balancer.getNewPlannedMap s.maps records service naList ndList recList).1

theorem inv_planService (h : Inv s) (records : List NodeInfoFileRecord) (service : String)
    (hplan : ∀ plan ∈ s.newPlan records service, ∀ id ∈ plan.keys, ∀ e, s.stateMap[id]? = some e →
      e.operation = .nodeRecovery → s.destination id ≠ none) :
    Inv (s.planService records service) := by
  have hsub : ∀ ids : List String, ∀ id ∈ ofService service ids, id ∈ ids := fun ids id hid =>
    (List.mem_filter.mp hid).1
  simp only [planService]
  split
  · exact h
  · rename_i hlists
    have hdest := s.balancer.nodeRecoveryDestMap_getNewPlannedMap s.maps records service
      (ofService service s.pass.naList) (ofService service s.pass.ndList)
      (ofService service s.pass.recList)
    generalize hr : s.balancer.getNewPlannedMap s.maps records service
      (ofService service s.pass.naList) (ofService service s.pass.ndList)
      (ofService service s.pass.recList) = r at hdest
    obtain ⟨plan?, b, maps⟩ := r
    have hplanned : Inv { s with balancer := b, maps := maps } := h.kept (.refl h.table) rfl hdest
    cases plan? with
    | none => exact hplanned
    | some plan =>
        have hnew : s.newPlan records service = some plan := by
          rw [newPlan, if_neg hlists, hr]
        exact hplanned.kept (kept_modifySciMapForNewPlan hplanned
          (fun id hid => .inl (hsub _ id hid)) (fun id hid => .inr (.inl (hsub _ id hid))) (hsub _)
          fun id hid e he hop => uses_of_destination he (hplan plan hnew id hid e he hop)) rfl rfl

/-- The leader has just started: no state change is known and no recovery runs. -/
structure Started (s : StateChangeManager) : Prop where
  stateMap : s.stateMap = ∅
  nodeRecoveryDestMap : s.balancer.nodeRecoveryDestMap = ∅
  pass : s.pass = .start

theorem Started.inv (h : Started s) : Inv s where
  table :=
    { entry := fun id e he => by simp [h.stateMap] at he
      present := fun id hin => by
        rw [h.pass] at hin
        cases hin }
  exact := .empty (fun slot => by simp [ComponentBalancer.Reserved, h.nodeRecoveryDestMap])
    fun id => by simp [destination, h.stateMap, slot]

/-- The map marks the destinations that are in use, each for one recovery, and no destination is
found only when the other healthy nodes are in use. -/
structure DestinationsRight (s : StateChangeManager) : Prop where
  marked : ∀ slot, s.balancer.Reserved slot ↔ ∃ id, s.destination id = some slot
  once : ∀ id id' slot, s.destination id = some slot → s.destination id' = some slot → id = id'
  noNode : ∀ id, (s.balancer.getTargetNodeForRecovery id).1 = none →
    ∀ node ∈ s.balancer.healthyNodeList, node ≠ getNodeId id →
      ∃ id', s.destination id' = some (node, getServiceName id)

theorem Inv.destinationsRight (h : Inv s) : DestinationsRight s where
  marked := h.exact.iff_held
  once := h.exact.unique
  noNode _ hnone _ hnode hother := (h.exact.iff_held _).mp
    (ComponentBalancer.getTargetNodeForRecovery_none hnone hnode hother)

/-- A scan comes when every recovery of the last pass has been planned, a plan names only recoveries
that have a destination, and recovery processes report to recoveries that have one. -/
def KeepsDestinations (s : StateChangeManager) : StateChangeEvent → Prop
  | .scan _ _ => ∀ id ∈ s.pass.recList, s.stateMap[id]?.map (·.status) ≠ some .recoveryNew
  | .plan records => ∀ service ∈ s.pass.phase.nextService,
      ∀ plan ∈ s.newPlan records service, ∀ id ∈ plan.keys, ∀ e ∈ s.stateMap[id]?,
        e.operation = .nodeRecovery → s.destination id ≠ none
  | .startMonitoring id _ => id ∈ s.stateMap → s.destination id ≠ none
  | .firstFinalStat id _ => ∀ e ∈ s.stateMap[id]?, e.operation = .nodeRecovery →
      e.plannedMap ≠ [] → s.destination id ≠ none
  | .endMonitoring id => ∀ e ∈ s.stateMap[id]?, e.operation = .nodeRecovery →
      s.destination id ≠ none
  | _ => True

instance (s : StateChangeManager) : DecidablePred s.KeepsDestinations
  | .scan _ _ => inferInstanceAs (Decidable (∀ id ∈ s.pass.recList, _))
  | .plan _ => inferInstanceAs (Decidable (∀ service ∈ s.pass.phase.nextService, _))
  | .startMonitoring id _ => inferInstanceAs (Decidable (id ∈ s.stateMap → _))
  | .firstFinalStat id _ => inferInstanceAs (Decidable (∀ e ∈ s.stateMap[id]?, _))
  | .endMonitoring id => inferInstanceAs (Decidable (∀ e ∈ s.stateMap[id]?, _))
  | .addEntry _ _ | .firstCompTransferInfo _ _ _ | .compTransferInfo _ _ | .transferReply _ _
  | .blockReply _ _ | .deleteEntries | .monitorEntries => isTrue trivial

theorem inv_step (s : StateChangeManager) (event : StateChangeEvent) (s' : StateChangeManager)
    (h : Inv s) (hkeeps : s.KeepsDestinations event) (hstep : step s event = some s') : Inv s' := by
  cases event with
  | addEntry nodeId operation =>
      exact Option.some.inj hstep ▸ inv_prepareAndAddEntry h nodeId operation
  | startMonitoring id fd => exact Option.some.inj hstep ▸ inv_startMonitoring h fd hkeeps
  | firstCompTransferInfo id transferred fd =>
      exact Option.some.inj hstep ▸ inv_setFd (inv_updatePlannedComponents h id transferred) id fd
  | compTransferInfo id transferred =>
      exact Option.some.inj hstep ▸ inv_updatePlannedComponents h id transferred
  | firstFinalStat id fd => exact Option.some.inj hstep ▸ inv_firstFinalStat h fd hkeeps
  | endMonitoring id => exact Option.some.inj hstep ▸ inv_handleEndMonitoring h hkeeps
  | transferReply id reply => exact Option.some.inj hstep ▸ inv_transferReply h id reply
  | blockReply id blocked => exact Option.some.inj hstep ▸ inv_blockReply h id blocked
  | monitorEntries => exact Option.some.inj hstep ▸ inv_monitorEntries h _
  | scan expired mounted =>
      simp only [step] at hstep
      split at hstep
      · exact inv_scan h expired mounted hkeeps hstep
      · cases hstep
  | deleteEntries =>
      simp only [step] at hstep
      split at hstep
      · exact Option.some.inj hstep ▸ inv_deleteEntries h
      · cases hstep
  | plan records =>
      simp only [step] at hstep
      split at hstep
      · rename_i service rest hphase
        have hplanned := inv_planService h records service fun plan hplan id hid e he hop =>
          hkeeps service (by rw [hphase]; rfl) plan hplan id hid e he hop
        exact Option.some.inj hstep ▸ hplanned.repass rfl fun id e _ hp => .inl hp
      · cases hstep

/-- Over every run of the leader whose steps keep the destinations, the destination map is right. -/
theorem run_destinationsRight {t : StateChangeManager} {events : List StateChangeEvent}
    (hstart : Started s) (hkeeps : Along step KeepsDestinations s events)
    (hrun : run step s events = some t) : DestinationsRight t :=
  (run_along_preserves step inv_step hstart.inv hkeeps hrun).destinationsRight

/-- Two nodes share the container components. -/
def twoNodes : StateChangeManager where
  maps :=
    { basicMap := .ofList [(containerService, (([⟨"a_container-server", "10.0.0.1", 61006⟩,
        ⟨"b_container-server", "10.0.0.2", 61006⟩] : Owners), (1 : Rat)))]
      transientMap := ∅
      plannedMap := ∅
      globalMapVersion := 1
      transientMapVersion := 1 / 10000
      componentInfoFiles := ∅ }
  balancer :=
    { healthyNodeList := ["a", "b"]
      unhealthyNodeList := []
      recoveredNodeList := []
      listOfServicesForAddition := []
      listOfServicesForDeletion := []
      listOfServicesForRecovery := []
      nodeInfoFileRecords := []
      nodeRecoveryDestMap := ∅
      totalNoOfComponents := 2 }
  stateMap := ∅
  pass := .start

/-- A pass of the monitoring thread. -/
def onePass : List StateChangeEvent :=
  [.scan [] [], .deleteEntries, .plan [], .plan [], .plan []]

theorem run_destinationsRight_recovery : ∃ t, run step twoNodes (.addEntry "a" .nodeRecovery ::
    onePass ++ [.scan [] [], .startMonitoring "a_container-server" 5]) = some t ∧
      DestinationsRight t := by
  obtain ⟨t, ht⟩ := Option.isSome_iff_exists.mp
    (by decide +kernel : (run step twoNodes (.addEntry "a" .nodeRecovery ::
      onePass ++ [.scan [] [], .startMonitoring "a_container-server" 5])).isSome = true)
  exact ⟨t, ht, run_destinationsRight ⟨rfl, rfl, rfl⟩ (by decide +kernel) ht⟩

/-- Both nodes fail, no plan can be made, and a third node comes. The destinations that were found
before the plan stay marked. -/
def bothNodesFail : List StateChangeEvent :=
  [.addEntry "a" .nodeRecovery, .addEntry "b" .nodeRecovery] ++ onePass ++
    [.addEntry "c" .nodeAddition] ++ onePass ++ onePass

theorem destination_eq_some {slot : String × String} (h : s.destination id = some slot) :
    ∃ e, s.stateMap[id]? = some e ∧ e.destinationNode = slot.1 ∧ getServiceName id = slot.2 := by
  unfold destination at h
  cases he : s.stateMap[id]? with
  | none =>
      rw [he] at h
      cases h
  | some e =>
      rw [he, slot_some] at h
      split at h
      · obtain rfl := Option.some.inj h
        exact ⟨e, rfl, rfl, rfl⟩
      · cases h

/-- The state is one in which container recoveries are marked at the node, and none uses it. -/
def leaked (node : String) (t : StateChangeManager) : Bool :=
  decide (t.balancer.Reserved (node, containerService)) && t.stateMap.toList.all fun e =>
    decide (getServiceName e.1 = containerService → e.2.destinationNode ≠ node)

theorem bothNodesFail_leaks : ∃ t, run step twoNodes bothNodesFail = some t ∧
    ¬ DestinationsRight t := by
  obtain ⟨t, ht, hleaked⟩ := (Option.any_eq_true _ _).mp
    (by decide +kernel : (run step twoNodes bothNodesFail).any (leaked "b") = true)
  obtain ⟨hmarked, hunused⟩ := Bool.and_eq_true_iff.mp hleaked
  refine ⟨t, ht, fun hright => ?_⟩
  obtain ⟨id, hid⟩ := (hright.marked ("b", containerService)).mp (of_decide_eq_true hmarked)
  obtain ⟨e, he, hnode, hservice⟩ := destination_eq_some hid
  have hother := List.all_eq_true.mp hunused _ (TreeMap.mem_toList_iff_getElem?_eq_some.mpr he)
  exact of_decide_eq_true hother hservice hnode

end StateChangeManager

end ObjectStorage.Osm
