import ObjectStorage.Objects.ChangeSteps

/-!
An object whose lock is free is settled: its two files and its record in the container are of one
version, whatever requests, crashes and recoveries came before.
-/

namespace ObjectStorage.Objects

open Library

namespace ObjectState

section

variable {n : Nat} {v₀ : Option Version} {s : ObjectState n} {i : Nat} {k : Fin n} {m m' : Mark n}
  {a : Agent n} {r : Change n} {p : Progress} {f : TmpFiles}

/-! ### Startup recovery -/

/-- The recovery of a server goes on with the change it has found, or is over. -/
theorem Core.visits {visit : Visit} (h : s.Core v₀ m) (halone : s.Alone (.visit k))
    (hdown : s.visits k ≠ .serving) (hnext : visit.Idle ∧ m.server = none ∨
      s.lock ≠ none ∧ s.ClearBut k ∧ VisitExpects m k visit) : (s.setVisit k visit).Inv v₀ := by
  refine ⟨m, h.setVisit (.inl hdown), ?_⟩
  have halone' : (s.setVisit k visit).Alone (.visit k) := halone.setVisit (.inl rfl)
  have hself : (s.setVisit k visit).visits k = visit := if_pos rfl
  rcases hnext with ⟨hidle, hmark⟩ | ⟨hlock, hbut, hacts⟩
  · refine .inl (halone'.quiet (fun j hj => ?_) nofun (fun j hj => ?_) nofun)
    · rw [hmark] at hj
      cases hj
    · cases hj
      rw [hself]
      exact hidle
  · refine .inr ⟨.visit k, hlock, halone', hbut, ?_⟩
    rw [hself]
    exact hacts

theorem freeByName_visits (s : ObjectState n) (applied : Bool) :
    (s.freeByName applied).visits = s.visits := by
  unfold ObjectState.freeByName
  split <;> rfl

theorem freeByName_tmp (s : ObjectState n) (applied : Bool) :
    (s.freeByName applied).tmp = s.tmp := by
  unfold ObjectState.freeByName
  split <;> rfl

theorem Alone.freeByName (h : s.Alone a) (applied : Bool) : (s.freeByName applied).Alone a := by
  unfold ObjectState.freeByName
  split
  · exact h.files
  · exact h

theorem Core.visit {s' : ObjectState n} {action : ChangeAction} (h : s.Core v₀ m)
    (hbusy : s.Busy m (.visit k)) (hstep : s.visit k action = some s') : s'.Inv v₀ := by
  obtain ⟨hbut, hacts⟩ := hbusy.acts
  have halone := hbusy.alone
  have hlock := hbusy.lock
  have hdown : s.visits k ≠ .serving := fun hq => by
    rw [hq] at hacts
    exact hacts
  unfold ObjectState.visit at hstep
  split at hstep
  · unfold ObjectState.visitNext at hstep
    split at hstep
    case h_4 v hq =>
      rw [hq] at hacts
      obtain rfl : m = .prepared k v := hacts
      obtain ⟨i, r, hpending, hr, -, rfl⟩ := h.pending k v (.inr rfl)
      simp only [h.files.2.1, Option.some.injEq] at hstep
      subst hstep
      exact (h.renameData hpending.1 rfl).visits halone.files hdown
        (.inr ⟨hlock, hbut.setTmp _, rfl⟩)
    case h_5 v hq =>
      rw [hq] at hacts
      obtain rfl : m = .renamed k v := hacts
      simp only [h.files.2.1, Option.some.injEq] at hstep
      subst hstep
      exact h.renameMeta.visits halone.files hdown (.inr ⟨hlock, hbut.setTmp _, rfl⟩)
    all_goals
      first
        | contradiction
        | rename_i hq
          rw [hq] at hacts
          exact hacts.elim
  · rename_i hq
    rw [hq] at hacts
    exact hacts.elim
  · rename_i answer v hq
    rw [hq] at hacts
    obtain rfl : m = .written v := hacts
    cases hstep
    cases answer with
    | success =>
        have hcore := h.record h.files.1 h.files.2.1 h.files.2.2
        exact hcore.visits halone.files hdown (.inr ⟨hlock, hbut, rfl⟩)
    | redirect => exact h.visits halone hdown (.inl ⟨.inl rfl, rfl⟩)
    | failure applied =>
        cases applied with
        | true =>
            have hcore := h.record h.files.1 h.files.2.1 h.files.2.2
            exact hcore.visits halone.files hdown (.inl ⟨.inl rfl, rfl⟩)
        | false => exact h.visits halone hdown (.inl ⟨.inl rfl, rfl⟩)
  · rename_i applied hq
    rw [hq] at hacts
    obtain rfl : m = .settled := hacts
    cases hstep
    apply (h.freeByName applied).visits (halone.freeByName applied)
    · rw [freeByName_visits]
      exact hdown
    · exact .inl ⟨.inl rfl, rfl⟩
  · cases hstep

/-- Metadata that was written whole tells how far the change has got. -/
theorem Files.of_whole {v : Version} (h : s.Files m) (htmp : (s.tmp k).metadata = some (.whole v)) :
    ((s.tmp k).data ≠ none → m = .prepared k v) ∧ ((s.tmp k).data = none → m = .renamed k v) := by
  have hsame : ∀ j, s.ClearBut j → j = k := fun j hbut => Decidable.byContradiction fun hne => by
    rw [hbut k fun hkj => hne hkj.symm] at htmp
    cases htmp
  have hclear : ¬ s.Clear := fun hclear => by
    rw [hclear k] at htmp
    cases htmp
  cases m with
  | settled => rcases h.2 k with hnone | hempty <;> simp_all
  | torn j w =>
      obtain rfl := hsame j h.2.2
      rw [h.2.1] at htmp
      cases htmp
  | prepared j w =>
      obtain rfl := hsame j h.2.2
      rw [h.2.1] at htmp ⊢
      cases htmp
      exact ⟨fun _ => rfl, nofun⟩
  | renamed j w =>
      obtain rfl := hsame j h.2.2
      rw [h.2.1] at htmp ⊢
      cases htmp
      exact ⟨fun hne => absurd rfl hne, fun _ => rfl⟩
  | written w => exact absurd h.2.2 hclear
  | removed => exact absurd h.2.2 hclear
  | unrecorded => exact absurd h.2.2.2 hclear

/-- A server that comes up looks at its `tmp` directory. -/
theorem Core.list (h : s.Core v₀ m) (hquiet : s.Quiet m) (hk : s.visits k = .down) :
    (s.setVisit k (s.list k)).Inv v₀ := by
  have hdown : s.visits k ≠ .serving := by rw [hk]; decide
  have hself : ∀ visit, (s.setVisit k visit).visits k = visit := fun _ => if_pos rfl
  have hsweeps : ∀ visit, (m.server = some k → visit = .down) → (s.setVisit k visit).Sweeps k →
      (s.setVisit k visit).Inv v₀ := fun visit hm hv =>
    ⟨m, h.setVisit (.inl hdown), .inl (hquiet.setVisit hm hv)⟩
  have huseless : s.tmp k ≠ .none →
      (s.tmp k).metadata = none ∨ (s.tmp k).metadata = some .empty → ∀ visit, m.server = some k →
      visit = Visit.down := fun hleft hmetadata visit hserver => by
    rw [h.files.settled_of_useless hleft hmetadata] at hserver
    cases hserver
  -- a whole metadata file makes the recovery the one who acts
  have hwhole : m ≠ .settled → s.ClearBut k → s.lock ≠ none ∧ s.Alone (.visit k) := by
    intro hm hbut
    refine ⟨fun hnone => hm (h.free hnone), hquiet.alone (fun r hr => ?_) fun j hj => ?_⟩
    · exact Bool.eq_false_iff.mpr fun hc => hm (hquiet.cleans r hr hc)
    · have hjk : j ≠ k := fun hjk => hj (hjk ▸ rfl)
      exact Decidable.byContradiction fun hidle => ((hquiet.visits j).tmp hidle).1 (hbut j hjk)
  unfold ObjectState.list
  split
  · rename_i htmp
    apply hsweeps
    · exact fun hserver => absurd htmp (h.files.tmp_of_server hserver)
    · rw [Sweeps, hself]
      trivial
  · rename_i w htmp
    apply hsweeps
    · exact huseless (fun hnone => by rw [htmp] at hnone; cases hnone) (.inl (by rw [htmp])) _
    · rw [Sweeps, hself]
      show (s.tmp k).data ≠ none ∧ (s.tmp k).metadata = none
      rw [htmp]
      exact ⟨Option.some_ne_none w, rfl⟩
  · rename_i w htmp
    apply hsweeps
    · exact huseless (fun hnone => by rw [htmp] at hnone; cases hnone) (.inr (by rw [htmp])) _
    · rw [Sweeps, hself]
      show (s.tmp k).data ≠ none ∧ (s.tmp k).metadata = some .empty
      rw [htmp]
      exact ⟨Option.some_ne_none w, rfl⟩
  · rename_i htmp
    apply hsweeps
    · exact huseless (fun hnone => by rw [htmp] at hnone; cases hnone) (.inr (by rw [htmp])) _
    · rw [Sweeps, hself]
      exact htmp
  · apply hsweeps
    · exact fun _ => rfl
    · rw [Sweeps, hself]
      trivial
  · rename_i w v htmp
    have hdata : (s.tmp k).data ≠ none := by
      rw [htmp]
      exact Option.some_ne_none w
    have hm := (h.files.of_whole (by rw [htmp])).1 hdata
    subst hm
    obtain ⟨hlock, halone⟩ := hwhole (fun hm => by cases hm) h.files.2.2
    exact h.visits halone hdown (.inr ⟨hlock, h.files.2.2, rfl⟩)
  · rename_i v htmp
    have hm := (h.files.of_whole (by rw [htmp])).2 (by rw [htmp])
    subst hm
    obtain ⟨hlock, halone⟩ := hwhole (fun hm => by cases hm) h.files.2.2
    exact h.visits halone hdown (.inr ⟨hlock, h.files.2.2, rfl⟩)

theorem Core.sweep {s' : ObjectState n} {action : ChangeAction} (h : s.Core v₀ m)
    (hquiet : s.Quiet m) (hidle : ¬ (s.visits k).Idle) (hstep : s.visit k action = some s') :
    s'.Inv v₀ := by
  have hk := hquiet.visits k
  obtain ⟨hleft, huseless⟩ := hk.tmp hidle
  obtain rfl := h.files.settled_of_useless hleft huseless
  have hdown : s.visits k ≠ .serving := fun hserving => hidle (.inl hserving)
  have hvisit : ∀ f visit, ((s.setTmp k f).setVisit k visit).visits k = visit := fun _ _ =>
    if_pos rfl
  have htmp : ∀ f visit, ((s.setTmp k f).setVisit k visit).tmp k = f := fun _ _ => if_pos rfl
  unfold Sweeps at hk
  unfold ObjectState.visit at hstep
  split at hstep
  · unfold ObjectState.visitNext at hstep
    split at hstep
    · rename_i hq
      exact absurd (.inr hq) hidle
    · rename_i removes hq
      rw [hq] at hk
      cases hdata : (s.tmp k).data with
      | none => exact absurd hdata hk.1
      | some w =>
        simp only [hdata, Option.some.injEq] at hstep
        subst hstep
        have hcore := h.setTmp (k := k) (f := ⟨none, (s.tmp k).metadata⟩) (h.files.2 k)
        refine ⟨_, hcore.setVisit (.inl hdown), .inl (hquiet.sweep nofun ?_)⟩
        rw [Sweeps, hvisit, htmp]
        cases removes with
        | true => exact congrArg _ hk.2
        | false => trivial
    · rename_i hq
      rw [hq] at hk
      rw [hk] at hstep
      cases hstep
      refine ⟨_, (h.setTmp (.inl rfl)).setVisit (.inl hdown), .inl (hquiet.sweep nofun ?_)⟩
      rw [Sweeps, hvisit]
      trivial
    all_goals
      rename_i hq
      rw [hq] at hk
      contradiction
  · rename_i applied removes hq
    rw [hq] at hk
    cases hstep
    refine ⟨_, (h.freeByName applied).setVisit (.inl ?_),
      .inl ((hquiet.freeByName applied).setVisit nofun ?_)⟩
    · rw [freeByName_visits]
      exact hdown
    · rw [Sweeps, show ((s.freeByName applied).setVisit k (.removeData removes)).visits k = _ from
        if_pos rfl]
      show ((s.freeByName applied).tmp k).data ≠ none ∧ ((s.freeByName applied).tmp k).metadata = _
      rw [freeByName_tmp]
      exact hk
  all_goals
    first
      | contradiction
      | rename_i hq
        rw [hq] at hk
        exact hk.elim

theorem Inv.visit {s' : ObjectState n} {action : ChangeAction} (h : s.Inv v₀)
    (hstep : s.visit k action = some s') : s'.Inv v₀ := by
  obtain ⟨m, hcore, hagent⟩ := h
  by_cases hidle : (s.visits k).Idle
  · -- only a server that is down has a step
    have hstep : s.visits k = .down ∧ s' = s.setVisit k (s.list k) := by
      unfold ObjectState.visit at hstep
      rcases hidle with hk | hk
      · split at hstep <;> simp_all [ObjectState.visitNext]
      · split at hstep <;> simp_all [ObjectState.visitNext]
    obtain ⟨hk, rfl⟩ := hstep
    rcases hagent with hquiet | ⟨a, hbusy⟩
    · exact hcore.list hquiet hk
    · have ha : a ≠ .visit k := hbusy.ne_visit (.inr hk)
      have hdown : s.visits k ≠ .serving := by rw [hk]; nofun
      have hlist : s.list k = .serving := by
        rw [ObjectState.list, hbusy.tmp hcore ha hdown]
        rfl
      rw [hlist]
      exact ⟨m, hcore.setVisit (.inr rfl), .inr ⟨a, hbusy.lock,
        hbusy.alone.setVisit (.inr (.inl rfl)), hbusy.acts.setVisit ha⟩⟩
  · rcases hagent with hquiet | ⟨a, hbusy⟩
    · exact hcore.sweep hquiet hidle hstep
    · have ha : a = .visit k := Decidable.byContradiction fun ha => hidle (hbusy.alone.visits k ha)
      subst ha
      exact hcore.visit hbusy hstep

/-! ### `RECOVER` -/

/-- The handler of `RECOVER` goes on, or is over. -/
theorem Core.recovers {q : Nat} {c : RecoverCall n} {stage : RecoverStage} (h : s.Core v₀ m)
    (halone : s.Alone (.recover q)) (hc : s.recovers[q]? = some c) (hclear : s.Clear)
    (hnext : stage.Idle ∨ s.lock = some c.transaction ∧
      ∃ r, s.requests[c.transaction]? = some r ∧ s.RecoverExpects m r stage) :
    (s.setStage q stage).Inv v₀ := by
  refine ⟨m, h.setStage q stage, ?_⟩
  have halone' : (s.setStage q stage).Alone (.recover q) := halone.setStage (.inl rfl)
  have hself : (s.setStage q stage).recovers[q]? = some { c with stage } := by
    rw [getElem?_setStage, hc, Option.map_some, if_pos rfl]
  rcases hnext with hidle | ⟨hlock, r, hr, hacts⟩
  · refine .inl (halone'.quiet (fun j hj => ?_) nofun nofun fun j hj c' hc' => ?_)
    · exact absurd (hclear j) (h.files.tmp_of_server hj)
    · cases hj
      cases hself.symm.trans hc'
      exact hidle
  · refine .inr ⟨.recover q, ?_, halone', _, r, hself, hclear, hlock, hr, hacts⟩
    show s.lock ≠ none
    rw [hlock]
    exact Option.some_ne_none _

/-- What `RECOVER` finds is what the change of the lock's holder has left. -/
theorem Core.look (h : s.Core v₀ m) (hclear : s.Clear)
    (hoperation : ∀ o ∈ m.operation, r.operation = o) :
    s.RecoverExpects m r (s.look r.operation) := by
  have hleft : ∀ k f, f ≠ TmpFiles.none → s.tmp k ≠ f := fun k f hf htmp =>
    hf (htmp.symm.trans (hclear k))
  have hfiles := h.files
  cases m with
  | settled =>
      have hmetadata := hfiles.1.1
      cases hdata : s.data with
      | none =>
          rw [hdata] at hmetadata
          cases hop : r.operation <;> simp [ObjectState.look, RecoverExpects, hdata, hmetadata]
      | some v =>
          rw [hdata] at hmetadata
          cases hop : r.operation <;> simp [ObjectState.look, RecoverExpects, hop, hdata, hmetadata]
  | torn k v => exact absurd hfiles.2.1 (hleft k _ (by simp [TmpFiles.none]))
  | prepared k v => exact absurd hfiles.2.1 (hleft k _ (by simp [TmpFiles.none]))
  | renamed k v => exact absurd hfiles.2.1 (hleft k _ (by simp [TmpFiles.none]))
  | written v =>
      have hop := hoperation .put rfl
      simp [ObjectState.look, RecoverExpects, hop, hfiles.1, hfiles.2.1]
  | removed =>
      obtain ⟨hdata, ⟨v, hmetadata⟩, -⟩ := hfiles
      have hop := hoperation .delete rfl
      simp [ObjectState.look, RecoverExpects, hop, hdata, hmetadata]
  | unrecorded =>
      obtain ⟨hdata, -, ⟨v, hmetadata⟩, -⟩ := hfiles
      have hop := hoperation .delete rfl
      simp [ObjectState.look, RecoverExpects, hop, hdata, hmetadata]

theorem update_cases (s : ObjectState n) (answer : Answer) (record : Option Version) :
    s.update answer record = { s with record } ∨ s.update answer record = s := by
  unfold ObjectState.update
  split
  · exact .inl rfl
  · exact .inr rfl

/-- The handler of `RECOVER` that acts. -/
theorem Core.handle {q : Nat} {c : RecoverCall n} {s' : ObjectState n} {action : ChangeAction}
    (h : s.Core v₀ m) (hbusy : s.Busy m (.recover q)) (hc : s.recovers[q]? = some c)
    (hstep : s.handle q action c = some s') : s'.Inv v₀ := by
  obtain ⟨c', r, hc', hclear, hlock, hr, hstage⟩ := hbusy.acts
  cases hc.symm.trans hc'
  have halone := hbusy.alone
  unfold ObjectState.handle at hstep
  split at hstep
  · rename_i hq
    rw [hq] at hstage
    exact hstage.elim
  · rw [hr] at hstep
    cases hstep
    obtain ⟨r', hr', hoperation⟩ := h.holder _ hlock
    cases hr.symm.trans hr'
    exact h.recovers halone hc hclear (.inr ⟨hlock, r, hr, h.look hclear hoperation⟩)
  · rename_i answer v hq
    rw [hq] at hstage
    cases hop : r.operation with
    | put =>
        simp only [hr, hop, Option.map_some, Option.some.injEq] at hstep
        subst hstep
        rw [RecoverExpects, hop] at hstage
        have hrecord := h.record hstage.1 hstage.2 hclear
        by_cases hanswer : answer = .success
        · rw [if_pos hanswer, hanswer]
          exact hrecord.recovers halone.files hc hclear (.inr ⟨hlock, r, hr, rfl⟩)
        · rw [if_neg hanswer]
          rcases update_cases s answer (some v) with heq | heq
          · rw [heq]
            exact hrecord.recovers halone.files hc hclear (.inl (.inr rfl))
          · rw [heq]
            exact h.recovers halone hc hclear (.inl (.inr rfl))
    | delete =>
        simp only [hr, hop, Option.map_some, Option.some.injEq] at hstep
        subst hstep
        rw [RecoverExpects, hop] at hstage
        have hrecord := h.unrecord hstage
        by_cases hanswer : answer = .success
        · rw [if_pos hanswer, hanswer]
          exact hrecord.recovers halone.files hc hclear (.inr ⟨hlock, r, hr, rfl⟩)
        · rw [if_neg hanswer]
          rcases update_cases s answer none with heq | heq
          · rw [heq]
            exact hrecord.recovers halone.files hc hclear (.inl (.inr rfl))
          · rw [heq]
            exact h.recovers halone hc hclear (.inl (.inr rfl))
  · rename_i hq
    rw [hq] at hstage
    obtain rfl : m = .unrecorded := hstage
    obtain ⟨-, -, ⟨w, hw⟩, -⟩ := h.files
    simp only [hw, Option.some.injEq] at hstep
    subst hstep
    exact h.removeMeta.recovers halone.files hc hclear (.inr ⟨hlock, r, hr, rfl⟩)
  · rename_i applied hq
    rw [hq] at hstage
    obtain rfl : m = .settled := hstage
    cases hstep
    apply (h.freeByName applied).recovers (halone.freeByName applied) (c := c)
    · unfold ObjectState.freeByName
      split <;> exact hc
    · rw [Clear, freeByName_tmp]
      exact hclear
    · exact .inl (.inr rfl)
  · cases hstep

/-- The steps of the handlers of `RECOVER`. -/
theorem Inv.handle {q : Nat} {c : RecoverCall n} {s' : ObjectState n} {action : ChangeAction}
    (h : s.Inv v₀) (hc : s.recovers[q]? = some c) (hregular : s.Regular (.handle q action))
    (hstep : s.handle q action c = some s') : s'.Inv v₀ := by
  obtain ⟨m, hcore, hagent⟩ := h
  by_cases hidle : c.stage.Idle
  · have hchecking : action = .next ∧ c.stage = .checking := by
      unfold ObjectState.handle at hstep
      rcases hidle with hq | hq <;> split at hstep <;> simp_all
    obtain ⟨rfl, hq⟩ := hchecking
    simp only [ObjectState.handle, hq] at hstep
    split at hstep
    · cases hstep
      refine ⟨m, hcore.setStage q .ended, ?_⟩
      rcases hagent with hquiet | ⟨a, hbusy⟩
      · exact .inl (hquiet.setStage (.inr rfl))
      · exact .inr ⟨a, hbusy.lock, hbusy.alone.setStage (.inr (.inr rfl)),
          hbusy.acts.setStage (hbusy.ne_recover hc (.inl hq))⟩
    · rename_i hmemory
      cases hstep
      obtain ⟨hclear, hlock, hrequests, hvisits, hrecovers⟩ :=
        (hregular c hc hq).resolve_left hmemory
      obtain ⟨r, hr, -⟩ := hcore.holder _ hlock
      have halone : s.Alone (.recover q) :=
        ⟨fun i r hr _ => hrequests r (List.mem_of_getElem? hr), fun k _ => hvisits k,
          fun j c hc _ => hrecovers c (List.mem_of_getElem? hc)⟩
      exact hcore.recovers halone hc hclear (.inr ⟨hlock, r, hr, trivial⟩)
  · rcases hagent with hquiet | ⟨a, hbusy⟩
    · exact absurd (hquiet.recovers c (List.mem_of_getElem? hc)) hidle
    · have ha : a = .recover q := Decidable.byContradiction fun ha =>
        hidle (hbusy.alone.recovers q c hc ha)
      subst ha
      exact hcore.handle hbusy hc hstep

/-! ### Crashes and arrivals -/

theorem getElem?_crash (s : ObjectState n) (k : Fin n) (i : Nat) :
    (s.crash k).requests[i]? =
      s.requests[i]?.map fun r => if r.server = k then { r with progress := .dead } else r :=
  List.getElem?_map ..

theorem Core.crash (h : s.Core v₀ m) (k : Fin n) : (s.crash k).Core v₀ m := by
  refine h.phases (List.length_map ..) (fun i r hr => ?_) (fun r hr hdead => ?_)
    (fun i r hr hd => ?_) fun r hr o ho => ?_
  · rw [show (s.requests.map _)[i]? = _ from getElem?_crash s k i] at hr
    obtain ⟨r₀, hr₀, rfl⟩ := Option.map_eq_some_iff.mp hr
    refine ⟨r₀, hr₀, ?_⟩
    split <;> exact ⟨rfl, rfl, rfl⟩
  · obtain ⟨r₀, hr₀, rfl⟩ := List.mem_map.mp hr
    split at hdead
    · exact absurd rfl hdead
    · rename_i hk
      rw [if_neg hk]
      exact (if_neg hk).trans (h.live r₀ hr₀ hdead)
  · rw [show (s.requests.map _)[i]? = _ from getElem?_crash s k i] at hr
    obtain ⟨r₀, hr₀, rfl⟩ := Option.map_eq_some_iff.mp hr
    split at hd
    · cases hd
    · exact h.done i r₀ hr₀ hd
  · obtain ⟨r₀, hr₀, rfl⟩ := List.mem_map.mp hr
    split at ho
    · cases ho
    · rename_i hk
      rw [if_neg hk]
      exact h.operation r₀ hr₀ o ho

theorem getElem?_crash_recovers (s : ObjectState n) (k : Fin n) (q : Nat) :
    (s.crash k).recovers[q]? =
      s.recovers[q]?.map fun c => if c.server = k then { c with stage := .ended } else c :=
  List.getElem?_map ..

theorem Alone.crash (h : s.Alone a) (k : Fin n) : (s.crash k).Alone a := by
  refine ⟨fun i r hr ha => ?_, fun j ha => ?_, fun q c hc ha => ?_⟩
  · rw [getElem?_crash] at hr
    obtain ⟨r₀, hr₀, rfl⟩ := Option.map_eq_some_iff.mp hr
    split
    · exact ⟨rfl, rfl⟩
    · exact h.requests i r₀ hr₀ ha
  · by_cases hj : j = k
    · exact .inr (if_pos hj)
    · show Visit.Idle (if j = k then .down else s.visits j)
      rw [if_neg hj]
      exact h.visits j ha
  · rw [getElem?_crash_recovers] at hc
    obtain ⟨c₀, hc₀, rfl⟩ := Option.map_eq_some_iff.mp hc
    split
    · exact .inr rfl
    · exact h.recovers q c₀ hc₀ ha

/-- Where the one who acts ends, the others have nothing to go on with. -/
theorem Busy.crash (h : s.Busy m a) (hcore : s.Core v₀ m) (k : Fin n) :
    (s.crash k).Quiet m ∨ (s.crash k).Busy m a := by
  have halone := h.alone.crash k
  -- the server that the change needs is the one that has crashed
  have hmark : s.ClearBut k → ∀ j, m.server = some j → (s.crash k).visits j = .down :=
    fun hbut j hj => if_pos (Decidable.byContradiction fun hjk =>
      hcore.files.tmp_of_server hj (hbut j hjk))
  cases a with
  | request i =>
      obtain ⟨r, hr, hacts⟩ := h.acts
      by_cases hk : r.server = k
      · refine .inl (halone.quiet (hmark (hk ▸ hacts.2.2.1)) (fun j hj r' hr' => ?_) nofun nofun)
        cases hj
        rw [getElem?_crash, hr, Option.map_some, if_pos hk] at hr'
        cases hr'
        exact ⟨rfl, nofun⟩
      · refine .inr ⟨h.lock, halone, r, ?_, hacts⟩
        rw [getElem?_crash, hr, Option.map_some, if_neg hk]
  | visit j =>
      by_cases hj : j = k
      · refine .inl (halone.quiet (hmark (hj ▸ h.acts.1)) nofun (fun j' hj' => ?_) nofun)
        cases hj'
        exact .inr (if_pos hj)
      · refine .inr ⟨h.lock, halone, h.acts.1, ?_⟩
        rw [show (s.crash k).visits j = s.visits j from if_neg hj]
        exact h.acts.2
  | recover q =>
      obtain ⟨c, r, hc, hclear, hlock, hr, hstage⟩ := h.acts
      by_cases hk : c.server = k
      · refine .inl (halone.quiet (hmark (hclear.but k)) nofun nofun fun j hj c' hc' => ?_)
        cases hj
        rw [getElem?_crash_recovers, hc, Option.map_some, if_pos hk] at hc'
        cases hc'
        exact .inr rfl
      · refine .inr ⟨h.lock, halone, c,
          if r.server = k then { r with progress := .dead } else r, ?_, hclear, hlock, ?_, ?_⟩
        · rw [getElem?_crash_recovers, hc, Option.map_some, if_neg hk]
        · rw [getElem?_crash, hr, Option.map_some]
        · by_cases hr : r.server = k
          · rw [if_pos hr]
            exact hstage
          · rw [if_neg hr]
            exact hstage

theorem Quiet.crash (h : s.Quiet m) (k : Fin n) : (s.crash k).Quiet m := by
  have hrequest : ∀ r ∈ (s.crash k).requests,
      r.progress = .dead ∨ r.server ≠ k ∧ r ∈ s.requests := by
    intro r hr
    obtain ⟨r₀, hr₀, rfl⟩ := List.mem_map.mp hr
    split
    · exact .inl rfl
    · rename_i hk
      exact .inr ⟨hk, hr₀⟩
  have hrecover : ∀ c ∈ (s.crash k).recovers, c.stage = .ended ∨ c.server ≠ k ∧ c ∈ s.recovers := by
    intro c hc
    obtain ⟨c₀, hc₀, rfl⟩ := List.mem_map.mp hc
    split
    · exact .inl rfl
    · rename_i hk
      exact .inr ⟨hk, hc₀⟩
  have hself : (s.crash k).visits k = .down := if_pos rfl
  have hother : ∀ j, j ≠ k → (s.crash k).visits j = s.visits j := fun j hj => if_neg hj
  refine ⟨fun j hj => ?_, fun r hr => ?_, fun r hr hc => ?_, fun j => ?_, fun c hc => ?_⟩
  · by_cases hjk : j = k
    · rw [hjk, hself]
    · rw [hother j hjk, h.mark j hj]
  · rcases hrequest r hr with hdead | ⟨-, hold⟩
    · rw [hdead]
      rfl
    · exact h.requests r hold
  · rcases hrequest r hr with hdead | ⟨-, hold⟩
    · rw [hdead] at hc
      cases hc
    · exact h.cleans r hold hc
  · by_cases hj : j = k
    · rw [hj, Sweeps, hself]
      trivial
    · have hold := h.visits j
      unfold Sweeps at hold ⊢
      rw [hother j hj]
      exact hold
  · rcases hrecover c hc with hended | ⟨-, hold⟩
    · exact .inr hended
    · exact h.recovers c hold

theorem Inv.crash (h : s.Inv v₀) (k : Fin n) : (s.crash k).Inv v₀ := by
  obtain ⟨m, hcore, hagent⟩ := h
  refine ⟨m, hcore.crash k, ?_⟩
  rcases hagent with hquiet | ⟨a, hbusy⟩
  · exact .inl (hquiet.crash k)
  · rcases hbusy.crash hcore k with hquiet | hbusy
    · exact .inl hquiet
    · exact .inr ⟨a, hbusy⟩

theorem Inv.arrive (h : s.Inv v₀) (hserving : s.visits k = .serving) (operation : Operation)
    (timestamp : Nat) :
    Inv v₀ { s with requests := s.requests ++ [⟨operation, k, timestamp, .arrived⟩] } := by
  obtain ⟨m, hcore, hagent⟩ := h
  have hold : ∀ (i : Nat) r, s.requests[i]? = some r →
      (s.requests ++ [⟨operation, k, timestamp, .arrived⟩])[i]? = some r := fun i r hr => by
    rw [List.getElem?_append_left (List.getElem?_eq_some_iff.mp hr).1]
    exact hr
  have hmem : ∀ r ∈ s.requests ++ [⟨operation, k, timestamp, .arrived⟩],
      r ∈ s.requests ∨ r = ⟨operation, k, timestamp, .arrived⟩ := fun r hr =>
    (List.mem_append.mp hr).imp id List.mem_singleton.mp
  have hnew : ∀ (i : Nat) r, (s.requests ++ [⟨operation, k, timestamp, .arrived⟩])[i]? = some r →
      s.requests[i]? = some r ∨ r = ⟨operation, k, timestamp, .arrived⟩ := fun i r hr => by
    rw [List.getElem?_append] at hr
    split at hr
    · exact .inl hr
    · exact .inr (List.mem_singleton.mp (List.mem_of_getElem? hr))
  refine ⟨m, ⟨hcore.files, hcore.free, fun i hi => ?_, fun j v hm => ?_, fun r hr hdead => ?_,
    fun i r hr hd => ?_, fun r hr o ho => ?_, fun i hi => ?_, hcore.sublist, ?_⟩, ?_⟩
  · obtain ⟨r, hr, ho⟩ := hcore.holder i hi
    exact ⟨r, hold i r hr, ho⟩
  · obtain ⟨i, r, hpending, hr, hrest⟩ := hcore.pending j v hm
    exact ⟨i, r, hpending, hold i r hr, hrest⟩
  · rcases hmem r hr with hr | rfl
    · exact hcore.live r hr hdead
    · exact hserving
  · rcases hnew i r hr with hr | rfl
    · exact hcore.done i r hr hd
    · cases hd
  · rcases hmem r hr with hr | rfl
    · exact hcore.operation r hr o ho
    · cases ho
  · rw [List.length_append]
    exact Nat.lt_add_right _ (hcore.known i hi)
  · refine hcore.data.trans ?_
    unfold outcome
    split
    · rename_i hlast
      rw [show _ = none from hlast]
    · rename_i i hlast
      have hi := hcore.known i (hcore.sublist.subset (List.mem_of_getLast? hlast))
      rw [show _ = some i from hlast]
      show _ = ((s.requests ++ [_])[i]?).bind _
      rw [List.getElem?_append_left hi]
  · rcases hagent with hquiet | ⟨a, hbusy⟩
    · refine .inl ⟨hquiet.mark, fun r hr => ?_, fun r hr hc => ?_, hquiet.visits, hquiet.recovers⟩
      · rcases hmem r hr with hr | rfl
        · exact hquiet.requests r hr
        · rfl
      · rcases hmem r hr with hr | rfl
        · exact hquiet.cleans r hr hc
        · cases hc
    · refine .inr ⟨a, hbusy.lock,
        ⟨fun i r hr ha => ?_, hbusy.alone.visits, hbusy.alone.recovers⟩, ?_⟩
      · rcases hnew i r hr with hr | rfl
        · exact hbusy.alone.requests i r hr ha
        · exact ⟨rfl, rfl⟩
      · have hacts := hbusy.acts
        cases a with
        | request i =>
            obtain ⟨r, hr, hrest⟩ := hacts
            exact ⟨r, hold i r hr, hrest⟩
        | visit j => exact hacts
        | recover q =>
            obtain ⟨c, r, hc, hclear, hlock, hr, hstage⟩ := hacts
            exact ⟨c, r, hc, hclear, hlock, hold _ r hr, hstage⟩

theorem Inv.recover (h : s.Inv v₀) (k : Fin n) (transaction : Nat) :
    Inv v₀ { s with recovers := s.recovers ++ [⟨k, transaction, .checking⟩] } := by
  obtain ⟨m, hcore, hagent⟩ := h
  refine ⟨m, hcore.phases rfl (fun _ r hr => ⟨r, hr, rfl, rfl, rfl⟩) hcore.live hcore.done
    hcore.operation, ?_⟩
  rcases hagent with hquiet | ⟨a, hbusy⟩
  · refine .inl ⟨hquiet.mark, hquiet.requests, hquiet.cleans, hquiet.visits, fun c hc => ?_⟩
    rcases List.mem_append.mp hc with hc | hc
    · exact hquiet.recovers c hc
    · rw [List.mem_singleton.mp hc]
      exact .inl rfl
  · refine .inr ⟨a, hbusy.lock, ⟨hbusy.alone.requests, hbusy.alone.visits, fun q c hc ha => ?_⟩, ?_⟩
    · show c.stage.Idle
      have hc : (s.recovers ++ [⟨k, transaction, .checking⟩])[q]? = some c := hc
      rw [List.getElem?_append] at hc
      split at hc
      · exact hbusy.alone.recovers q c hc ha
      · rw [List.mem_singleton.mp (List.mem_of_getElem? hc)]
        exact .inl rfl
    · have hacts := hbusy.acts
      cases a with
      | request i => exact hacts
      | visit j => exact hacts
      | recover q =>
          obtain ⟨c, r, hc, hrest⟩ := hacts
          refine ⟨c, r, ?_, hrest⟩
          show (s.recovers ++ [_])[q]? = some c
          rw [List.getElem?_append_left (List.getElem?_eq_some_iff.mp hc).1]
          exact hc

theorem Inv.step {s' : ObjectState n} {step : ChangeStep n} (h : s.Inv v₀)
    (hregular : s.Regular step) (hstep : s.step step = some s') : s'.Inv v₀ := by
  cases step with
  | arrive operation server timestamp =>
      simp only [ObjectState.step] at hstep
      split at hstep
      · rename_i hserving
        exact Option.some.inj hstep ▸ h.arrive hserving operation timestamp
      · cases hstep
  | act i action =>
      obtain ⟨r, hr, hstep⟩ := Option.bind_eq_some_iff.mp hstep
      exact h.act hr hregular hstep
  | crash k => exact Option.some.inj hstep ▸ h.crash k
  | visit k action => exact h.visit hstep
  | recover k transaction =>
      simp only [ObjectState.step] at hstep
      split at hstep
      · exact Option.some.inj hstep ▸ h.recover k transaction
      · cases hstep
  | handle q action =>
      obtain ⟨c, hc, hstep⟩ := Option.bind_eq_some_iff.mp hstep
      exact h.handle hc hregular hstep

theorem inv_start (n : Nat) (v₀ : Option Version) : (start n v₀).Inv v₀ := by
  refine ⟨.settled, ⟨⟨⟨rfl, rfl⟩, fun _ => .inl rfl⟩, fun _ => rfl, nofun, fun k v hm => ?_, nofun,
    nofun, nofun, nofun, List.Sublist.refl _, rfl⟩,
    .inl ⟨nofun, nofun, nofun, fun k => trivial, nofun⟩⟩
  rcases hm with hm | hm <;> cases hm

/-- In every run in which locks are granted and recovered only where the temporary files of earlier
requests are gone, and metadata is written whole and moved, an object that is not locked is settled,
and at the version of the last change. The changes are made in the order in which the locks were
granted, and a request that is answered as done is among them. -/
theorem unlocked_settled {steps : List (ChangeStep n)} (hrun : run step (start n v₀) steps = some s)
    (hregular : Along step Regular (start n v₀) steps) :
    (s.lock = none → s.Settled) ∧ s.data = s.outcome v₀ ∧ s.changes.Sublist s.grants ∧
      ∀ i r, s.requests[i]? = some r → r.progress = .ended true → i ∈ s.changes := by
  obtain ⟨m, hcore, -⟩ := run_along_preserves step (I := Inv v₀)
    (fun _ _ _ h hp hstep => h.step hp hstep) (inv_start n v₀) hregular hrun
  refine ⟨fun hlock => ?_, hcore.data, hcore.sublist, fun i r hr hover => ?_⟩
  · obtain rfl := hcore.free hlock
    exact hcore.settled
  · exact hcore.done i r hr (by rw [hover]; rfl)

/-- The steps of an upload up to the rename of its data file. -/
def uploadSteps (i : Nat) (k : Fin n) (timestamp : Nat) : List (ChangeStep n) :=
  .arrive .put k timestamp :: .act i .grant :: List.replicate 9 (.act i .next)

/-- Two servers. The first one crashes between the renames of an upload, its startup recovery learns
nothing of the container update, and the second server recovers the lock. -/
def recoveredSteps : List (ChangeStep 2) :=
  uploadSteps 0 0 1 ++ ([.crash 0, .visit 0 .next, .visit 0 .next,
    .visit 0 (.update (.failure true)), .recover 1 0, .handle 0 .next, .handle 0 .next,
    .handle 0 (.update .success), .handle 0 (.free true)] : List (ChangeStep 2))

/-- A recovered upload, and a DELETE of the object. -/
def deletedSteps : List (ChangeStep 2) :=
  recoveredSteps ++ ([.arrive .delete 1 2, .act 1 .grant, .act 1 .next, .act 1 .next,
    .act 1 .next, .act 1 (.update .success), .act 1 .next, .act 1 (.free true), .act 1 .next] :
      List (ChangeStep 2))

theorem unlocked_settled_deleted : ∃ s, run step (start 2 none) deletedSteps = some s ∧
    s.lock = none ∧ s.Settled ∧ s.data = none ∧ s.changes = [0, 1] := by
  have hregular : Along step Regular (start 2 none) deletedSteps := by decide
  obtain ⟨s, hrun⟩ : ∃ s, run step (start 2 none) deletedSteps = some s := ⟨_, rfl⟩
  have hend : (run step (start 2 none) deletedSteps).map (fun s => (s.lock, s.data, s.changes)) =
      some (none, none, [0, 1]) := by decide
  rw [hrun, Option.map_some, Option.some.injEq, Prod.mk.injEq, Prod.mk.injEq] at hend
  obtain ⟨hlock, hdata, hchanges⟩ := hend
  exact ⟨s, hrun, hlock, (unlocked_settled hrun hregular).1 hlock, hdata, hchanges⟩

/-- Where `RECOVER` frees the lock of an upload whose temporary files are still there, the startup
recovery of their server puts them over an upload that came later. -/
example : (run step (start 2 none) ((uploadSteps 0 0 1).dropLast ++
    ([.crash 0, .recover 1 0, .handle 0 .next, .handle 0 .next, .handle 0 (.free true)] :
      List (ChangeStep 2)) ++ uploadSteps 1 1 2 ++
    ([.act 1 .next, .act 1 .next, .act 1 (.update .success), .act 1 (.free true), .act 1 .next,
      .visit 0 .next, .visit 0 .next, .visit 0 .next, .visit 0 (.update .success),
      .visit 0 (.free true)] : List (ChangeStep 2)))).map
        (fun s => (s.lock, s.data, s.grants, s.changes)) =
    some (none, some ⟨.put 0, 1⟩, [0, 1], [1, 0]) := by decide

end

end ObjectState

end ObjectStorage.Objects
