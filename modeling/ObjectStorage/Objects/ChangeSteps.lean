import ObjectStorage.Objects.ChangeMarks

/-!
What a step of a request does to the mark of the object.
-/

namespace ObjectStorage.Objects

open Library

namespace ObjectState

section

variable {n : Nat} {v₀ : Option Version} {s : ObjectState n} {i : Nat} {k : Fin n} {m m' : Mark n}
  {a : Agent n} {r : Change n} {p : Progress} {f : TmpFiles}

/-! ### The steps of a request -/

theorem Alone.files {tmp : Fin n → TmpFiles} {data : Option Version} {metadata : Option MetaFile}
    {record : Option Version} {lock : Option Nat} {changes : List Nat} (h : s.Alone a) :
    Alone { s with tmp, data, metadata, record, lock, changes } a :=
  ⟨h.requests, h.visits, h.recovers⟩

theorem setTmp_eq (h : s.tmp k = f) : s.setTmp k f = s := by
  have htmp : (fun j => if j = k then f else s.tmp j) = s.tmp := by
    funext j
    split
    · rename_i hj
      rw [hj, h]
    · rfl
  rw [ObjectState.setTmp, htmp]

theorem Core.writing {part : Bool} (h : s.Core v₀ m) (hlock : s.lock = some i)
    (hexpects : s.Expects m i r (.writing part)) :
    ∃ file, s.tmp r.server = ⟨some (r.version i), some file⟩ ∧ s.Settled ∧ s.Pending i := by
  cases part with
  | false =>
      obtain ⟨rfl, htmp, hpending⟩ := hexpects
      exact ⟨_, htmp, h.settled, hpending⟩
  | true =>
      obtain rfl : m = .torn r.server (r.version i) := hexpects
      obtain ⟨j, -, hpending, -⟩ := h.pending _ _ (.inl rfl)
      cases hlock.symm.trans hpending.1
      exact ⟨_, h.files.2.1, h.files.1, hpending⟩

theorem Alone.free (h : s.Alone a) (i : Nat) (applied : Bool) : (s.free i applied).Alone a := by
  unfold ObjectState.free
  split
  · exact h.files
  · exact h

theorem free_requests (s : ObjectState n) (i : Nat) (applied : Bool) :
    (s.free i applied).requests = s.requests := by
  unfold ObjectState.free
  split <;> rfl

theorem Core.requestFrees (h : s.Core v₀ .settled) (halone : s.Alone (.request i))
    (hr : s.requests[i]? = some r) (hserving : s.visits r.server = .serving) (applied : Bool)
    (hp : p.holds = false) (hdone : p.done = true → i ∈ s.changes)
    (hoperation : ∀ o ∈ p.operation, r.operation = o) :
    ((s.free i applied).moveTo i p).Inv v₀ := by
  apply (h.freeLock i applied).request (halone.free i applied)
  · rw [free_requests]
    exact hr
  · unfold ObjectState.free
    split <;> exact hserving
  · unfold ObjectState.free
    split <;> exact hdone
  · exact hoperation
  · exact .inr ⟨hp, fun _ => rfl, rfl⟩

theorem Core.next {s' : ObjectState n} (h : s.Core v₀ m) (halone : s.Alone (.request i))
    (hr : s.requests[i]? = some r) (hp : r.progress.holds = true) (hlock : s.lock = some i)
    (hbut : s.ClearBut r.server) (hexpects : s.Expects m i r r.progress)
    (hstep : s.next i r = some s') : s'.Inv v₀ := by
  have hmem := List.mem_of_getElem? hr
  have hserving : s.visits r.server = .serving :=
    h.live r hmem fun hdead => by rw [hdead] at hp; cases hp
  have hoperation := h.operation r hmem
  have hdone := h.done i r hr
  cases hq : r.progress with
  | granted =>
      simp only [ObjectState.next, hq, Option.some.injEq] at hstep
      rw [hq] at hexpects
      obtain ⟨rfl, hclear, hpending⟩ := hexpects
      subst hstep
      exact h.request halone hr hserving nofun nofun
        (.inl ⟨rfl, hlock, hbut, rfl, hclear, hpending⟩)
  | reading =>
      simp only [ObjectState.next, hq] at hstep
      rw [hq] at hexpects
      obtain ⟨rfl, hclear, hpending⟩ := hexpects
      have hfreeing : (s.moveTo i (.freeing false)).Inv v₀ :=
        h.request halone hr hserving nofun nofun (.inl ⟨rfl, hlock, hbut, rfl⟩)
      cases hop : r.operation with
      | put =>
          simp only [hop] at hstep
          split at hstep
          · exact Option.some.inj hstep ▸ hfreeing
          · cases hstep
            exact h.request halone hr hserving nofun (fun o ho => by cases ho; exact hop)
              (.inl ⟨rfl, hlock, hbut, rfl, hclear, hpending⟩)
      | delete =>
          have hread := h.settled.readMetadata
          have hdelete : ∀ found, found = s.data.isSome →
              (s.moveTo i (.deleteData found)).Inv v₀ := fun found hfound =>
            h.request halone hr hserving nofun (fun o ho => by cases ho; exact hop)
              (.inl ⟨rfl, hlock, hbut, rfl, hclear, hfound, hpending⟩)
          simp only [hop] at hstep
          split at hstep
          · rename_i hnone
            cases hstep
            exact hdelete false (by rw [← hread, hnone]; rfl)
          · rename_i w hsome
            split at hstep
            · cases hstep
              exact hdelete true (by rw [← hread, hsome]; rfl)
            · exact Option.some.inj hstep ▸ hfreeing
  | removeData =>
      simp only [ObjectState.next, hq, Option.some.injEq] at hstep
      rw [hq] at hexpects hoperation
      obtain ⟨rfl, hclear, hpending⟩ := hexpects
      subst hstep
      rw [hclear r.server]
      exact (h.setTmp (.inl rfl)).request halone.files hr hserving nofun hoperation
        (.inl ⟨rfl, hlock, hbut.setTmp _, rfl, hbut.clear_setTmp, hpending⟩)
  | createData =>
      simp only [ObjectState.next, hq, Option.some.injEq] at hstep
      rw [hq] at hexpects hoperation
      obtain ⟨rfl, hclear, hpending⟩ := hexpects
      subst hstep
      rw [hclear r.server]
      exact (h.setTmp (.inl rfl)).request halone.files hr hserving nofun hoperation
        (.inl ⟨rfl, hlock, hbut.setTmp _, rfl, setTmp_self .., hpending⟩)
  | removeMeta =>
      simp only [ObjectState.next, hq, Option.some.injEq] at hstep
      rw [hq] at hexpects hoperation
      obtain ⟨rfl, htmp, hpending⟩ := hexpects
      subst hstep
      rw [htmp]
      exact (h.setTmp (.inl rfl)).request halone.files hr hserving nofun hoperation
        (.inl ⟨rfl, hlock, hbut.setTmp _, rfl, setTmp_self .., hpending⟩)
  | createMeta =>
      simp only [ObjectState.next, hq, Option.some.injEq] at hstep
      rw [hq] at hexpects hoperation
      obtain ⟨rfl, htmp, hpending⟩ := hexpects
      subst hstep
      rw [htmp]
      exact (h.setTmp (.inr rfl)).request halone.files hr hserving nofun hoperation
        (.inl ⟨rfl, hlock, hbut.setTmp _, rfl, setTmp_self .., hpending⟩)
  | uploading =>
      simp only [ObjectState.next, hq, Option.some.injEq] at hstep
      rw [hq] at hexpects hoperation
      subst hstep
      exact h.request halone hr hserving nofun hoperation (.inl ⟨rfl, hlock, hbut, hexpects⟩)
  | writing part =>
      simp only [ObjectState.next, hq, Option.some.injEq] at hstep
      rw [hq] at hexpects hoperation
      subst hstep
      have hput := hoperation .put rfl
      obtain ⟨file, htmp, hsettled, hpending⟩ := h.writing hlock hexpects
      rw [htmp]
      have hcore : (s.setTmp r.server _).Core v₀ (.prepared r.server (r.version i)) :=
        h.write hr hput hpending ⟨hsettled, setTmp_self .., hbut.setTmp _⟩ (.inr rfl)
      exact hcore.request halone.files hr hserving nofun hoperation
        (.inl ⟨rfl, hlock, hbut.setTmp _, rfl⟩)
  | renameData =>
      rw [hq] at hexpects hoperation
      obtain rfl : m = .prepared r.server (r.version i) := hexpects
      simp only [ObjectState.next, hq, h.files.2.1, Option.some.injEq] at hstep
      subst hstep
      exact (h.renameData hlock rfl).request halone.files hr hserving
        (fun _ => List.mem_append_right _ List.mem_cons_self) hoperation
        (.inl ⟨rfl, hlock, hbut.setTmp _, rfl⟩)
  | renameMeta =>
      rw [hq] at hexpects hoperation hdone
      obtain rfl : m = .renamed r.server (r.version i) := hexpects
      simp only [ObjectState.next, hq, h.files.2.1, Option.some.injEq] at hstep
      subst hstep
      exact h.renameMeta.request halone.files hr hserving (fun _ => hdone rfl) hoperation
        (.inl ⟨rfl, hlock, hbut.setTmp _, rfl⟩)
  | dropData =>
      simp only [ObjectState.next, hq, Option.some.injEq] at hstep
      rw [hq] at hexpects hoperation
      obtain ⟨rfl, htmp, -⟩ := hexpects
      subst hstep
      rw [htmp]
      exact (h.setTmp (.inr rfl)).request halone.files hr hserving nofun hoperation
        (.inl ⟨rfl, hlock, hbut.setTmp _, rfl⟩)
  | dropMeta =>
      simp only [ObjectState.next, hq, Option.some.injEq] at hstep
      rw [hq] at hexpects hoperation
      obtain rfl : m = .settled := hexpects
      subst hstep
      exact (h.setTmp (.inl rfl)).request halone.files hr hserving nofun hoperation
        (.inl ⟨rfl, hlock, hbut.setTmp _, rfl⟩)
  | unlinkData how =>
      simp only [ObjectState.next, hq] at hstep
      rw [hq] at hexpects hoperation hdone
      cases how with
      | early =>
          rw [hq] at hp
          cases hp
      | raised =>
          obtain rfl : m = .settled := hexpects
          split at hstep
          · cases hstep
            exact h.request (p := .raising) halone hr hserving nofun nofun
              (.inl ⟨rfl, hlock, hbut, rfl⟩)
          · cases hstep
            have hcore := h.setTmp (k := r.server) (f := ⟨none, (s.tmp r.server).metadata⟩)
              (h.files.2 r.server)
            exact hcore.request halone.files hr hserving nofun hoperation
              (.inl ⟨rfl, hlock, hbut.setTmp _, rfl⟩)
      | finalized =>
          obtain rfl : m = .written (r.version i) := hexpects
          rw [if_pos (by rw [h.files.2.2]; rfl)] at hstep
          cases hstep
          refine h.request (p := .updating) halone hr hserving (fun _ => hdone rfl) nofun
            (.inl ⟨rfl, hlock, hbut, ?_⟩)
          rw [Expects, hoperation .put rfl]
  | unlinkMeta how =>
      simp only [ObjectState.next, hq, Option.some.injEq] at hstep
      rw [hq] at hexpects hoperation hdone
      subst hstep
      cases how with
      | early =>
          rw [hq] at hp
          cases hp
      | raised =>
          obtain rfl : m = .settled := hexpects
          exact (h.setTmp (.inl rfl)).request (p := .raising) halone.files hr hserving nofun nofun
             (.inl ⟨rfl, hlock, hbut.setTmp _, rfl⟩)
      | finalized =>
          obtain rfl : m = .written (r.version i) := hexpects
          have htmp := h.files.2.2 r.server
          rw [setTmp_eq (by rw [htmp]; rfl)]
          refine h.request (p := .updating) halone hr hserving (fun _ => hdone rfl) nofun
            (.inl ⟨rfl, hlock, hbut, ?_⟩)
          rw [Expects, hoperation .put rfl]
  | deleteData found =>
      rw [hq] at hexpects hoperation
      obtain ⟨rfl, hclear, rfl, hpending⟩ := hexpects
      simp only [ObjectState.next, hq] at hstep
      split at hstep
      · rename_i hnone
        cases hstep
        rw [hnone]
        exact h.request halone hr hserving nofun nofun (.inl ⟨rfl, hlock, hbut, rfl⟩)
      · rename_i w hw
        have hfound : s.data.isSome = true := by rw [hw]; rfl
        rw [if_pos hfound] at hstep
        cases hstep
        refine (h.removeData hclear hpending hr (hoperation .delete rfl) hw).request
          (p := .updating) halone.files hr
          hserving (fun _ => List.mem_append_right _ List.mem_cons_self) nofun
          (.inl ⟨rfl, hlock, hbut, ?_⟩)
        rw [Expects, hoperation .delete rfl]
  | deleteMeta =>
      rw [hq] at hexpects hoperation hdone
      obtain rfl : m = .unrecorded := hexpects
      obtain ⟨-, -, ⟨w, hw⟩, -⟩ := h.files
      simp only [ObjectState.next, hq, hw, Option.some.injEq] at hstep
      subst hstep
      exact h.removeMeta.request halone.files hr hserving (fun _ => hdone rfl) nofun
        (.inl ⟨rfl, hlock, hbut, rfl⟩)
  | updating => simp [ObjectState.next, hq] at hstep
  | releasing => simp [ObjectState.next, hq] at hstep
  | raising => simp [ObjectState.next, hq] at hstep
  | freeing done => simp [ObjectState.next, hq] at hstep
  | arrived => simp [ObjectState.next, hq] at hstep
  | forgetting done => rw [hq] at hp; cases hp
  | failed => rw [hq] at hp; cases hp
  | ended done => rw [hq] at hp; cases hp
  | dead => rw [hq] at hp; cases hp

/-- What the request that holds the lock does, with the failures that the condition allows. -/
theorem Core.act {s' : ObjectState n} {action : ChangeAction} (h : s.Core v₀ m)
    (halone : s.Alone (.request i)) (hr : s.requests[i]? = some r) (hp : r.progress.holds = true)
    (hlock : s.lock = some i) (hbut : s.ClearBut r.server)
    (hexpects : s.Expects m i r r.progress) (hregular : s.Regular (.act i action))
    (hstep : s.act i action r = some s') : s'.Inv v₀ := by
  have hmem := List.mem_of_getElem? hr
  have hserving : s.visits r.server = .serving :=
    h.live r hmem fun hdead => by rw [hdead] at hp; cases hp
  have hoperation := h.operation r hmem
  have hdone := h.done i r hr
  unfold ObjectState.act at hstep
  split at hstep
  case h_1 hq => rw [hq] at hp; cases hp
  case h_2 hq => rw [hq] at hp; cases hp
  case h_3 hq =>
    rw [hq] at hexpects
    obtain ⟨rfl, -⟩ := hexpects
    cases hstep
    exact h.request halone hr hserving nofun nofun (.inr ⟨rfl, nofun, rfl⟩)
  case h_4 => exact h.next halone hr hp hlock hbut hexpects hstep
  case h_5 hq =>
    rw [hq] at hexpects
    obtain ⟨rfl, -⟩ := hexpects
    split at hstep
    · cases hstep
      exact h.request halone hr hserving nofun nofun (.inr ⟨rfl, nofun, rfl⟩)
    · cases hstep
      exact h.request halone hr hserving nofun nofun (.inl ⟨rfl, hlock, hbut, rfl⟩)
  iterate 4
    rename_i hq
    rw [hq] at hexpects
    cases hstep
    exact h.request halone hr hserving nofun nofun (.inl ⟨rfl, hlock, hbut, hexpects.1⟩)
  · rename_i hq
    rw [hq] at hexpects hoperation
    cases hstep
    exact h.request halone hr hserving nofun hoperation (.inl ⟨rfl, hlock, hbut, hexpects.1⟩)
  · rename_i hq
    exact absurd hq (hregular r hr).1
  · rename_i hq
    exact absurd hq (hregular r hr).2.1
  · rename_i hq
    rw [hq] at hexpects hoperation
    cases hstep
    exact h.request halone hr hserving nofun hoperation (.inl ⟨rfl, hlock, hbut, hexpects⟩)
  · rename_i hq
    rw [hq] at hexpects hoperation
    cases hstep
    exact h.request halone hr hserving nofun hoperation (.inl ⟨rfl, hlock, hbut, hexpects.1⟩)
  · rename_i part hq
    rw [hq] at hexpects hoperation
    obtain ⟨file, htmp, hsettled, hpending⟩ := h.writing hlock hexpects
    cases hstep
    rw [htmp]
    have hcore : (s.setTmp r.server _).Core v₀ (.torn r.server (r.version i)) :=
      h.write hr (hoperation .put rfl) hpending
        ⟨hsettled, setTmp_self .., hbut.setTmp _⟩ (.inl rfl)
    exact hcore.request halone.files hr hserving nofun hoperation
      (.inl ⟨rfl, hlock, hbut.setTmp _, rfl⟩)
  · exact hregular.elim
  · rename_i applied hq
    rw [hq] at hexpects hoperation
    obtain rfl : m = .settled := hexpects
    cases hstep
    exact h.requestFrees halone hr hserving applied rfl nofun hoperation
  · rename_i applied hq
    rw [hq] at hexpects
    obtain rfl : m = .settled := hexpects
    cases hstep
    exact h.requestFrees halone hr hserving applied rfl nofun nofun
  · rename_i found hq
    rw [hq] at hexpects
    obtain ⟨rfl, -⟩ := hexpects
    cases hstep
    cases found with
    | true => exact absurd hq (hregular r hr).2.2
    | false => exact h.request halone hr hserving nofun nofun (.inl ⟨rfl, hlock, hbut, rfl⟩)
  · rename_i answer hq
    rw [hq] at hexpects hdone
    have hwritten : (∃ v, m = .written v) ∨ m = .removed := by
      cases hop : r.operation with
      | put =>
          rw [Expects, hop] at hexpects
          exact .inl ⟨_, hexpects⟩
      | delete =>
          rw [Expects, hop] at hexpects
          exact .inr hexpects
    have hupdated : ∀ record, Core v₀ { s with record } m := fun record =>
      h.setRecord record hwritten
    have hmark : m.server = none := by rcases hwritten with ⟨v, rfl⟩ | rfl <;> rfl
    split at hstep
    · cases hstep
      refine ⟨m, h, .inr ⟨.request i, ?_, halone, r, hr, hp, hlock, hbut, hq ▸ hexpects⟩⟩
      rw [ObjectState.update, if_neg (by decide), hlock]
      exact Option.some_ne_none i
    · rename_i applied
      cases hstep
      unfold ObjectState.update
      have hnone : ∀ o ∈ (Progress.ended true).operation, r.operation = o := fun o ho => by cases ho
      have hcleans : (Progress.ended true).cleans = true → m = .settled := fun hc => by cases hc
      split
      · exact (hupdated _).request halone.files hr hserving (fun _ => hdone rfl) hnone
          (.inr ⟨rfl, hcleans, hmark⟩)
      · exact h.request halone hr hserving (fun _ => hdone rfl) hnone (.inr ⟨rfl, hcleans, hmark⟩)
    · rename_i hop
      rw [Expects, hop] at hexpects
      cases hexpects
      cases hstep
      rw [Change.written, hop]
      have hcore := h.record h.files.1 h.files.2.1 h.files.2.2
      exact hcore.request halone.files hr hserving (fun _ => hdone rfl) (fun o ho => by cases ho)
        (.inl ⟨rfl, hlock, hbut, rfl⟩)
    · rename_i hop
      rw [Expects, hop] at hexpects
      cases hexpects
      cases hstep
      rw [Change.written, hop]
      exact (h.unrecord (.inl rfl)).request halone.files hr hserving (fun _ => hdone rfl)
        (fun o ho => by cases ho; exact hop) (.inl ⟨rfl, hlock, hbut, rfl⟩)
  · rename_i hq
    rw [hq] at hexpects hdone
    obtain rfl : m = .unrecorded := hexpects
    cases hstep
    have hcleans : (Progress.ended true).cleans = true → Mark.unrecorded (n := n) = .settled :=
      fun hc => by cases hc
    exact h.request halone hr hserving (fun _ => hdone rfl) (fun o ho => by cases ho)
      (.inr ⟨rfl, hcleans, rfl⟩)
  · rename_i applied done hq
    rw [hq] at hexpects hdone
    obtain rfl : m = .settled := hexpects
    cases hstep
    apply h.requestFrees halone hr hserving applied rfl
    · cases done with
      | true => exact fun _ => hdone rfl
      | false => exact fun hd => by cases hd
    · exact fun o ho => by cases ho
  · cases hstep

/-! ### Steps of those who are not the agent -/

theorem setVisit_eq {visit : Visit} (h : s.visits k = visit) :
    (s.setTmp k f).setVisit k visit = s.setTmp k f := by
  have hvisits : (fun j => if j = k then visit else s.visits j) = s.visits := by
    funext j
    split
    · rename_i hj
      rw [hj, h]
    · rfl
  rw [ObjectState.setVisit]
  show { s.setTmp k f with visits := fun j => if j = k then visit else s.visits j } = _
  rw [hvisits]
  rfl

theorem Quiet.moveTo (h : s.Quiet m) (hp : p.holds = false)
    (hcleans : p.cleans = true → m = .settled) : (s.moveTo i p).Quiet m := by
  refine ⟨h.mark, fun r hr => ?_, fun r hr => ?_, h.visits, h.recovers⟩
  · rcases mem_moveTo hr with hold | ⟨r₀, -, rfl⟩
    · exact h.requests r hold
    · exact hp
  · rcases mem_moveTo hr with hold | ⟨r₀, -, rfl⟩
    · exact h.cleans r hold
    · exact hcleans

theorem Quiet.sweep {visit : Visit} (h : s.Quiet m) (hmark : m.server = some k → visit = .down)
    (hk : ((s.setTmp k f).setVisit k visit).Sweeps k) :
    ((s.setTmp k f).setVisit k visit).Quiet m := by
  refine ⟨fun j hj => ?_, h.requests, h.cleans, fun j => ?_, h.recovers⟩
  · by_cases hjk : j = k
    · exact (if_pos hjk).trans (hmark (hjk ▸ hj))
    · exact (if_neg hjk).trans (h.mark j hj)
  by_cases hjk : j = k
  · exact hjk ▸ hk
  · have hj := h.visits j
    unfold Sweeps at hj ⊢
    rw [show ((s.setTmp k f).setVisit k visit).visits j = s.visits j from if_neg hjk,
      show ((s.setTmp k f).setVisit k visit).tmp j = s.tmp j from if_neg hjk]
    exact hj

theorem Quiet.setVisit {visit : Visit} (h : s.Quiet m) (hmark : m.server = some k → visit = .down)
    (hk : (s.setVisit k visit).Sweeps k) : (s.setVisit k visit).Quiet m := by
  have hsweep := h.sweep (f := s.tmp k) hmark
  rw [setTmp_eq rfl] at hsweep
  exact hsweep hk

theorem Quiet.setTmp (h : s.Quiet m) (hserving : s.visits k = .serving) (f : TmpFiles) :
    (s.setTmp k f).Quiet m := by
  have hsweep : ((s.setTmp k f).setVisit k .serving).Quiet m :=
    h.sweep (fun hk => absurd (hserving.symm.trans (h.mark k hk)) nofun)
      (by simp [Sweeps, ObjectState.setVisit])
  rw [setVisit_eq hserving] at hsweep
  exact hsweep

theorem Quiet.freeByName (h : s.Quiet m) (applied : Bool) : (s.freeByName applied).Quiet m := by
  unfold ObjectState.freeByName
  split
  · exact ⟨h.mark, h.requests, h.cleans, h.visits, h.recovers⟩
  · exact h

theorem Quiet.setStage {stage : RecoverStage} {q : Nat} (h : s.Quiet m) (hstage : stage.Idle) :
    (s.setStage q stage).Quiet m := by
  refine ⟨h.mark, h.requests, h.cleans, h.visits, fun c hc => ?_⟩
  obtain ⟨j, hj⟩ := List.mem_iff_getElem?.mp hc
  rw [getElem?_setStage] at hj
  obtain ⟨c₀, hc₀, rfl⟩ := Option.map_eq_some_iff.mp hj
  split
  · exact hstage
  · exact h.recovers c₀ (List.mem_of_getElem? hc₀)

theorem Acts.moveTo (h : s.Acts m a) (ha : a ≠ .request i) : (s.moveTo i p).Acts m a := by
  cases a with
  | request j =>
      obtain ⟨r, hr, hrest⟩ := h
      have hij : i ≠ j := fun hij => ha (hij ▸ rfl)
      refine ⟨r, ?_, hrest⟩
      rw [getElem?_moveTo, hr, Option.map_some, if_neg hij]
  | visit k => exact h
  | recover q =>
      obtain ⟨c, r, hc, hclear, hlock, hr, hstage⟩ := h
      by_cases hi : i = c.transaction
      · refine ⟨c, { r with progress := p }, hc, hclear, hlock, ?_, hstage⟩
        rw [getElem?_moveTo, hr, Option.map_some, if_pos hi]
      · refine ⟨c, r, hc, hclear, hlock, ?_, hstage⟩
        rw [getElem?_moveTo, hr, Option.map_some, if_neg hi]

theorem Acts.setVisit {visit : Visit} (h : s.Acts m a) (ha : a ≠ .visit k) :
    (s.setVisit k visit).Acts m a := by
  cases a with
  | request j => exact h
  | visit j =>
      have hjk : j ≠ k := fun hjk => ha (hjk ▸ rfl)
      refine ⟨h.1, ?_⟩
      rw [show (s.setVisit k visit).visits j = s.visits j from if_neg hjk]
      exact h.2
  | recover q => exact h

theorem Acts.setStage {stage : RecoverStage} {q : Nat} (h : s.Acts m a) (ha : a ≠ .recover q) :
    (s.setStage q stage).Acts m a := by
  cases a with
  | request j => exact h
  | visit j => exact h
  | recover j =>
      obtain ⟨c, r, hc, hrest⟩ := h
      have hqj : q ≠ j := fun hqj => ha (hqj ▸ rfl)
      refine ⟨c, r, ?_, hrest⟩
      rw [getElem?_setStage, hc, Option.map_some, if_neg hqj]

theorem Busy.ne_request (h : s.Busy m a) (hr : s.requests[i]? = some r)
    (hp : r.progress.holds = false) : a ≠ .request i := by
  rintro rfl
  obtain ⟨r', hr', hholds, -⟩ := h.acts
  cases hr.symm.trans hr'
  exact absurd (hp.symm.trans hholds) (by decide)

theorem Busy.ne_visit (h : s.Busy m a) (hk : (s.visits k).Idle) : a ≠ .visit k := by
  rintro rfl
  obtain ⟨-, hacts⟩ := h.acts
  rcases hk with hk | hk <;> rw [hk] at hacts <;> exact hacts

theorem Busy.ne_recover {q : Nat} {c : RecoverCall n} (h : s.Busy m a)
    (hc : s.recovers[q]? = some c) (hidle : c.stage.Idle) : a ≠ .recover q := by
  rintro rfl
  obtain ⟨c', r, hc', -, -, -, hstage⟩ := h.acts
  cases hc.symm.trans hc'
  rcases hidle with hidle | hidle <;> rw [hidle] at hstage <;> exact hstage

/-- A server that is not serving has no temporary files while another one acts. -/
theorem Busy.tmp (h : s.Busy m a) (hcore : s.Core v₀ m) (ha : a ≠ .visit k)
    (hk : s.visits k ≠ .serving) : s.tmp k = .none := by
  have hacts := h.acts
  cases a with
  | request i =>
      obtain ⟨r, hr, hholds, -, hbut, -⟩ := hacts
      apply hbut
      rintro rfl
      apply hk
      apply hcore.live r (List.mem_of_getElem? hr)
      intro hdead
      rw [hdead] at hholds
      cases hholds
  | visit j => exact hacts.1 k fun hkj => ha (hkj ▸ rfl)
  | recover q =>
      obtain ⟨c, r, -, hclear, -⟩ := hacts
      exact hclear k

theorem Inv.moveIdle (h : s.Inv v₀) (hr : s.requests[i]? = some r) (hidle : r.progress.Idle)
    (hp : p.Idle) (hdead : r.progress ≠ .dead) (hdone : p.done = true → r.progress.done = true)
    (hoperation : p.operation = none) : (s.moveTo i p).Inv v₀ := by
  obtain ⟨m, hcore, hagent⟩ := h
  refine ⟨m, hcore.moveTo hr (fun _ => hcore.live r (List.mem_of_getElem? hr) hdead)
    (fun hd => hcore.done i r hr (hdone hd)) (fun o ho => by rw [hoperation] at ho; cases ho), ?_⟩
  rcases hagent with hquiet | ⟨a, hbusy⟩
  · exact .inl (hquiet.moveTo hp.1 fun hc => absurd (hp.2.symm.trans hc) (by decide))
  · exact .inr ⟨a, hbusy.lock, hbusy.alone.moveTo (.inr hp),
      hbusy.acts.moveTo (hbusy.ne_request hr hidle.1)⟩

theorem Core.grant (h : s.Core v₀ m) (hr : s.requests[i]? = some r) (hlock : s.lock = none) :
    Core v₀ { s with lock := some i, grants := s.grants ++ [i] } .settled := by
  obtain rfl := h.free hlock
  refine ⟨h.files, nofun, fun j hj => ?_, fun k v hm => ?_, h.live, h.done, h.operation,
    fun j hj => ?_, ?_, h.data⟩
  · cases hj
    exact ⟨r, hr, nofun⟩
  · rcases hm with hm | hm <;> cases hm
  · rcases List.mem_append.mp hj with hold | hnew
    · exact h.known j hold
    · cases List.mem_singleton.mp hnew
      exact (List.getElem?_eq_some_iff.mp hr).1
  · exact h.sublist.trans (List.sublist_append_left ..)

theorem Quiet.visits_idle (h : s.Quiet m) (hclear : s.Clear) (k : Fin n) : (s.visits k).Idle :=
  Decidable.byContradiction fun hidle => ((h.visits k).tmp hidle).1 (hclear k)

theorem Inv.grant (h : s.Inv v₀) (hr : s.requests[i]? = some r) (hp : r.progress = .arrived)
    (hlock : s.lock = none) (hregular : s.Regular (.act i .grant)) :
    ({ s with lock := some i, grants := s.grants ++ [i] }.moveTo i .granted).Inv v₀ := by
  obtain ⟨hclear, hcleans⟩ := hregular
  obtain ⟨m, hcore, hquiet | ⟨a, hbusy⟩⟩ := h
  · have halone : s.Alone (.request i) :=
      hquiet.alone hcleans fun k _ => hquiet.visits_idle hclear k
    apply (hcore.grant hr hlock).request ⟨halone.requests, halone.visits, halone.recovers⟩ hr
    · exact hcore.live r (List.mem_of_getElem? hr) (by rw [hp]; decide)
    · nofun
    · nofun
    · exact .inl ⟨rfl, rfl, hclear.but _, rfl, hclear, rfl, _, rfl, hcore.sublist⟩
  · exact absurd hlock hbusy.lock

/-- A request that returned early removes its files. -/
theorem Inv.clean {s' : ObjectState n} (h : s.Inv v₀) (hr : s.requests[i]? = some r)
    (hp : r.progress.cleans = true) (hstep : s.next i r = some s') : s'.Inv v₀ := by
  have hmem := List.mem_of_getElem? hr
  have hholds : r.progress.holds = false := by
    unfold Progress.cleans at hp
    split at hp
    · simp [*, Progress.holds]
    · simp [*, Progress.holds]
    · cases hp
  obtain ⟨m, hcore, hquiet | ⟨a, hbusy⟩⟩ := h
  · obtain rfl := hquiet.cleans r hmem hp
    have hserving : s.visits r.server = .serving :=
      hcore.live r hmem fun hdead => by rw [hdead] at hp; cases hp
    have hoperation := hcore.operation r hmem
    have hmove : ∀ (f : TmpFiles) p, (f.metadata = none ∨ f.metadata = some .empty) →
        p.holds = false → p.done = false → (∀ o ∈ p.operation, r.operation = o) →
        ((s.setTmp r.server f).moveTo i p).Inv v₀ := fun f p hf hp hd ho =>
      ⟨_, (hcore.setTmp hf).moveTo hr (fun _ => hserving)
        (fun hdone => absurd (hd.symm.trans hdone) (by decide)) ho,
        .inl ((hquiet.setTmp hserving f).moveTo hp fun _ => rfl)⟩
    unfold Progress.cleans at hp
    split at hp
    · rename_i hq
      rw [hq] at hoperation
      simp only [ObjectState.next, hq] at hstep
      split at hstep
      · rename_i hnone
        cases hstep
        have hsame := hmove (s.tmp r.server) (.ended false) (hcore.files.2 r.server) rfl rfl nofun
        rw [setTmp_eq rfl] at hsame
        exact hsame
      · cases hstep
        exact hmove _ _ (hcore.files.2 r.server) rfl rfl hoperation
    · rename_i hq
      simp only [ObjectState.next, hq, Option.some.injEq] at hstep
      subst hstep
      exact hmove _ (.ended false) (.inl rfl) rfl rfl nofun
    · cases hp
  · have hidle := hbusy.alone.requests i r hr (hbusy.ne_request hr hholds)
    exact absurd (hidle.2.symm.trans hp) (by decide)

theorem Inv.act {s' : ObjectState n} {action : ChangeAction} (h : s.Inv v₀)
    (hr : s.requests[i]? = some r) (hregular : s.Regular (.act i action))
    (hstep : s.act i action r = some s') : s'.Inv v₀ := by
  by_cases hholds : r.progress.holds = true
  · obtain ⟨m, hcore, hquiet | ⟨a, hbusy⟩⟩ := h
    · exact absurd ((hquiet.requests r (List.mem_of_getElem? hr)).symm.trans hholds) (by decide)
    · by_cases ha : a = .request i
      · subst ha
        obtain ⟨r', hr', -, hlock, hbut, hexpects⟩ := hbusy.acts
        cases hr.symm.trans hr'
        exact hcore.act hbusy.alone hr hholds hlock hbut hexpects hregular hstep
      · exact absurd ((hbusy.alone.requests i r hr ha).1.symm.trans hholds) (by decide)
  · have hholds := Bool.eq_false_iff.mpr hholds
    by_cases hcleans : r.progress.cleans = true
    · cases hq : r.progress <;> rw [hq] at hcleans <;> try cases hcleans
      all_goals
        cases action with
        | next => exact h.clean hr (hq ▸ hcleans) hstep
        | _ => simp [ObjectState.act, hq] at hstep
    · have hidle : r.progress.Idle := ⟨hholds, Bool.eq_false_iff.mpr hcleans⟩
      have hnot : ∀ q, r.progress = q → ¬ q.Idle → False := fun q hq hne => hne (hq ▸ hidle)
      unfold ObjectState.act at hstep
      split at hstep
      · rename_i hq
        split at hstep
        · rename_i hlock
          cases hstep
          exact h.grant hr hq hlock hregular
        · cases hstep
      · rename_i hq
        cases hstep
        exact h.moveIdle hr hidle ⟨rfl, rfl⟩ (by rw [hq]; decide) nofun rfl
      · rename_i hq
        exact (hnot _ hq (by decide)).elim
      · cases hq : r.progress with
        | forgetting done =>
            simp only [ObjectState.next, hq, Option.some.injEq] at hstep
            subst hstep
            refine h.moveIdle hr hidle ⟨rfl, rfl⟩ (by rw [hq]; nofun) (fun hd => ?_) rfl
            rw [hq]
            cases done with
            | true => rfl
            | false => cases hd
        | arrived => simp [ObjectState.next, hq] at hstep
        | failed => simp [ObjectState.next, hq] at hstep
        | ended done => simp [ObjectState.next, hq] at hstep
        | dead => simp [ObjectState.next, hq] at hstep
        | unlinkData how => cases how <;> exact (hnot _ hq (by decide)).elim
        | unlinkMeta how => cases how <;> exact (hnot _ hq (by decide)).elim
        | _ => exact (hnot _ hq (by simp [Progress.Idle, Progress.holds])).elim
      · rename_i hq
        exact (hnot _ hq (by decide)).elim
      all_goals
        first
          | cases hstep; done
          | rename_i hq
            exact (hnot _ hq (by simp [Progress.Idle, Progress.holds])).elim

end

end ObjectState

end ObjectStorage.Objects
