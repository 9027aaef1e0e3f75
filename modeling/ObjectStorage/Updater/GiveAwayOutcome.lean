import Mathlib.Data.List.Count
import ObjectStorage.Updater.GiveAway

/-!
What a service still owns after it has given components away.
-/

namespace ObjectStorage.Updater.GiveAway

open Library

namespace Sender

/-- The components that the thread has marked as given away. -/
def Passed (w : Sender) (comp : Component) : Prop :=
  match w.point with
  | .marking done _ => comp ∈ done
  | .confirming | .ended true => comp ∈ w.comps
  | _ => False

/-- The destination has accepted, and the global leader has acknowledged the report. -/
def Through (w : Sender) : Prop := w.accepted = true ∧ w.acknowledged = true

instance (w : Sender) (comp : Component) : Decidable (w.Passed comp) := by
  unfold Passed
  split <;> infer_instance

end Sender

namespace Handler

variable (s : Handler)

/-- The components of the transfer map. -/
def listed : List Component := s.senders.flatMap Sender.comps

/-- The service has what it had but for the components marked as given away, and only what was
accepted and acknowledged is marked. -/
def AllOrNothing (before : List Component) : Prop :=
  (∀ comp, comp ∈ s.owned ↔ comp ∈ before ∧ (comp, true) ∉ s.finalTransferStatusList) ∧
    ∀ w ∈ s.senders, ∀ comp ∈ w.comps, (comp, true) ∈ s.finalTransferStatusList → w.Through

/-- Every component of the map that the service owned, no more often than it is listed, got through
to a destination, and where two destinations list a component, one got through only if the other
did. -/
structure GotThrough (before : List Component) : Prop where
  owned : ∀ comp ∈ before, comp ∈ s.listed →
    ((∃ w ∈ s.senders, w.Passed comp) ↔ before.count comp ≤ s.listed.count comp)
  shared : ∀ (i j : Nat) (w w' : Sender) (comp : Component), s.senders[i]? = some w →
    s.senders[j]? = some w' → i ≠ j → comp ∈ w.comps → w'.Passed comp → w.Through

end Handler

/-- A sender reports only what was accepted, and marks only what was acknowledged. -/
def Sender.Ok (w : Sender) : Prop :=
  match w.point with
  | .reporting _ => w.accepted = true
  | .marking done rest => done ++ rest = w.comps ∧ w.Through
  | .confirming | .ended true => w.Through
  | _ => True

theorem Sender.Ok.through {w : Sender} (h : w.Ok) {comp : Component} (hpassed : w.Passed comp) :
    w.Through := by
  unfold Sender.Ok at h
  unfold Sender.Passed at hpassed
  split at hpassed
  · rename_i hpoint
    rw [hpoint] at h
    exact h.2
  · rename_i hpoint
    rw [hpoint] at h
    exact h
  · rename_i hpoint
    rw [hpoint] at h
    exact h
  · exact hpassed.elim

theorem Sender.Ok.mem_comps {w : Sender} (h : w.Ok) {comp : Component}
    (hpassed : w.Passed comp) : comp ∈ w.comps := by
  unfold Sender.Ok at h
  unfold Sender.Passed at hpassed
  split at hpassed
  · rename_i hpoint
    rw [hpoint] at h
    exact h.1 ▸ List.mem_append_left _ hpassed
  · exact hpassed
  · exact hpassed
  · exact hpassed.elim

/-- Both references stay at one list object, which has lost what the map lists. -/
structure Inv (before : List Component) (s : Handler) : Prop where
  lists : s.lists = [before.diff s.listed]
  ownershipList : s.ownershipList = 0
  oldOwnershipList : s.oldOwnershipList = 0
  status : s.finalTransferStatusList.map Prod.fst = s.listed
  marked : ∀ comp, (comp, true) ∈ s.finalTransferStatusList ↔
    ∃ w ∈ s.senders, w.Passed comp
  senders : ∀ w ∈ s.senders, w.Ok

theorem Inv.mem_listed {before : List Component} {s : Handler} (h : Inv before s)
    {w : Sender} (hw : w ∈ s.senders) {comp : Component} (hpassed : w.Passed comp) :
    comp ∈ s.listed :=
  List.mem_flatMap.mpr ⟨w, hw, (h.senders w hw).mem_comps hpassed⟩

/-- Where everything listed is gone from the list object, being marked is what decides. -/
theorem Inv.allOrNothing_iff {before : List Component} {s : Handler} (h : Inv before s) :
    s.AllOrNothing before ↔ s.GotThrough before := by
  have howned : s.owned = before.diff s.listed := by
    rw [Handler.owned, h.lists, h.ownershipList]
    rfl
  have hmem : ∀ comp, comp ∈ s.owned ↔ s.listed.count comp < before.count comp := by
    intro comp
    rw [howned, ← List.count_pos_iff, List.count_diff]
    omega
  constructor
  · rintro ⟨hlist, hthrough⟩
    refine ⟨fun comp hbefore hlisted => ?_, fun i j w w' comp hw hw' _ hcomp hpassed => ?_⟩
    · have hiff := hlist comp
      rw [hmem, h.marked] at hiff
      by_cases hpassed : ∃ w ∈ s.senders, w.Passed comp
      · simp only [hpassed, not_true_eq_false, and_false, iff_false, not_lt] at hiff
        simp [hpassed, hiff]
      · simp only [hpassed, not_false_eq_true, and_true, hbefore, iff_true] at hiff
        simp only [hpassed, false_iff]
        omega
    · exact hthrough w (List.mem_of_getElem? hw) comp hcomp
        ((h.marked comp).mpr ⟨w', List.mem_of_getElem? hw', hpassed⟩)
  · intro hgot
    refine ⟨fun comp => ?_, fun w hw comp hcomp hmarked => ?_⟩
    · rw [hmem, h.marked]
      by_cases hbefore : comp ∈ before
      · by_cases hlisted : comp ∈ s.listed
        · have hiff := hgot.owned comp hbefore hlisted
          rw [hiff]
          simp only [hbefore, true_and]
          omega
        · have hnot : ¬ ∃ w ∈ s.senders, w.Passed comp := fun ⟨w, hw, hpassed⟩ =>
            hlisted (h.mem_listed hw hpassed)
          have hpos := List.count_pos_iff.mpr hbefore
          have hzero := List.count_eq_zero.mpr hlisted
          simp only [hnot, not_false_eq_true, and_true, hbefore, iff_true]
          omega
      · have hzero := List.count_eq_zero.mpr hbefore
        simp only [hbefore, false_and, iff_false]
        omega
    · obtain ⟨w', hw', hpassed⟩ := (h.marked comp).mp hmarked
      obtain ⟨i, hi⟩ := List.mem_iff_getElem?.mp hw
      obtain ⟨j, hj⟩ := List.mem_iff_getElem?.mp hw'
      by_cases hij : i = j
      · subst hij
        obtain rfl : w = w' := Option.some.inj (hi.symm.trans hj)
        exact (h.senders w hw).through hpassed
      · exact hgot.shared i j w w' comp hi hj hij hcomp hpassed

theorem start_inv (before : List Component) : Inv before (start before) where
  lists := rfl
  ownershipList := rfl
  oldOwnershipList := rfl
  status := rfl
  marked := by simp [start]
  senders := by simp [start]

theorem Inv.congr {before : List Component} {s s' : Handler} (h : Inv before s)
    (hlists : s'.lists = s.lists) (hownership : s'.ownershipList = s.ownershipList)
    (hold : s'.oldOwnershipList = s.oldOwnershipList)
    (hstatus : s'.finalTransferStatusList = s.finalTransferStatusList)
    (hsenders : s'.senders = s.senders) : Inv before s' := by
  have hlisted : s'.listed = s.listed := by rw [Handler.listed, hsenders, Handler.listed]
  exact
    { lists := by rw [hlists, hlisted]; exact h.lists
      ownershipList := hownership.trans h.ownershipList
      oldOwnershipList := hold.trans h.oldOwnershipList
      status := by rw [hstatus, hlisted]; exact h.status
      marked := by rw [hstatus, hsenders]; exact h.marked
      senders := by rw [hsenders]; exact h.senders }

theorem Inv.setCheck {before : List Component} {s : Handler} (h : Inv before s) (i : Nat)
    (c : Check) : Inv before (s.setCheck i c) :=
  h.congr rfl rfl rfl rfl rfl

/-- The rollback sets the reference to the list object that it refers to already. -/
theorem Inv.restoreOwnership {before : List Component} {s : Handler} (h : Inv before s) :
    Inv before s.restoreOwnership :=
  h.congr rfl (h.oldOwnershipList.trans h.ownershipList.symm) rfl rfl rfl

theorem listed_setSender {s : Handler} {i : Nat} {w w' : Sender} (hw : s.senders[i]? = some w)
    (hcomps : w'.comps = w.comps) : (s.setSender i w').listed = s.listed := by
  obtain ⟨hi, rfl⟩ := List.getElem?_eq_some_iff.mp hw
  have hmap : (s.senders.set i w').map Sender.comps = s.senders.map Sender.comps := by
    rw [List.map_set, hcomps, ← List.getElem_map Sender.comps (h := by simpa using hi)]
    exact List.set_getElem_self _
  rw [Handler.listed, Handler.listed, List.flatMap_def, List.flatMap_def]
  exact congrArg List.flatten hmap

/-- Some thread is through with a component: the one that was changed, or another. -/
theorem exists_passed_set {l : List Sender} {i : Nat} {w : Sender} (hw : l[i]? = some w)
    (w' : Sender) (comp : Component) :
    (∃ v ∈ l.set i w', v.Passed comp) ↔
      w'.Passed comp ∨ ∃ j v, j ≠ i ∧ l[j]? = some v ∧ v.Passed comp := by
  have hi : i < l.length := (List.getElem?_eq_some_iff.mp hw).1
  constructor
  · rintro ⟨v, hv, hpassed⟩
    obtain ⟨j, hj⟩ := List.mem_iff_getElem?.mp hv
    by_cases hij : i = j
    · subst hij
      rw [List.getElem?_set_self hi] at hj
      exact .inl (Option.some.inj hj ▸ hpassed)
    · rw [List.getElem?_set_ne hij] at hj
      exact .inr ⟨j, v, fun h => hij h.symm, hj, hpassed⟩
  · rintro (hpassed | ⟨j, v, hij, hj, hpassed⟩)
    · exact ⟨w', List.mem_set hi _, hpassed⟩
    · refine ⟨v, List.mem_of_getElem? (i := j) ?_, hpassed⟩
      rw [List.getElem?_set_ne fun h => hij h.symm]
      exact hj

theorem exists_passed {l : List Sender} {i : Nat} {w : Sender} (hw : l[i]? = some w)
    (comp : Component) :
    (∃ v ∈ l, v.Passed comp) ↔
      w.Passed comp ∨ ∃ j v, j ≠ i ∧ l[j]? = some v ∧ v.Passed comp := by
  have hself : l.set i w = l := by
    obtain ⟨hi, rfl⟩ := List.getElem?_eq_some_iff.mp hw
    exact List.set_getElem_self hi
  have h := exists_passed_set hw w comp
  rwa [hself] at h

theorem Inv.setSender {before : List Component} {s : Handler} (h : Inv before s) {i : Nat}
    {w w' : Sender} (hw : s.senders[i]? = some w) (hcomps : w'.comps = w.comps)
    (hpassed : ∀ comp, w'.Passed comp ↔ w.Passed comp) (hok : w'.Ok) :
    Inv before (s.setSender i w') := by
  have hlisted := listed_setSender hw hcomps
  exact
    { lists := by rw [hlisted]; exact h.lists
      ownershipList := h.ownershipList
      oldOwnershipList := h.oldOwnershipList
      status := by rw [hlisted]; exact h.status
      marked := fun comp => by
        have hafter := exists_passed_set hw w' comp
        rw [hpassed, ← exists_passed hw comp] at hafter
        exact (h.marked comp).trans hafter.symm
      senders := fun v hv => by
        rcases List.mem_or_eq_of_mem_set hv with hv | rfl
        · exact h.senders v hv
        · exact hok }

theorem Inv.mark {before : List Component} {s : Handler} (h : Inv before s) {i : Nat} {w : Sender}
    (hw : s.senders[i]? = some w) {done rest : List Component} {comp : Component}
    (hpoint : w.point = .marking done (comp :: rest)) :
    Inv before ((s.updateFinalTransferStatus comp).setSender i
      { w with point := .marking (done ++ [comp]) rest }) := by
  have hok := h.senders w (List.mem_of_getElem? hw)
  simp only [Sender.Ok, hpoint] at hok
  set w' : Sender := { w with point := .marking (done ++ [comp]) rest } with hw'
  have hlisted : ((s.updateFinalTransferStatus comp).setSender i w').listed = s.listed :=
    listed_setSender (s := s) hw rfl
  have hpassed : ∀ c, w'.Passed c ↔ w.Passed c ∨ c = comp := by
    intro c
    simp [Sender.Passed, hw', hpoint]
  have hcomp : comp ∈ s.listed :=
    List.mem_flatMap.mpr ⟨w, List.mem_of_getElem? hw, hok.1 ▸ by simp⟩
  exact
    { lists := by rw [hlisted]; exact h.lists
      ownershipList := h.ownershipList
      oldOwnershipList := h.oldOwnershipList
      status := by
        rw [hlisted, ← h.status]
        show (s.finalTransferStatusList.map _).map Prod.fst = _
        rw [List.map_map]
        refine List.map_congr_left fun e _ => ?_
        by_cases he : e.1 = comp <;> simp [he]
      marked := fun c => by
        have hafter := exists_passed_set hw w' c
        rw [hpassed, or_right_comm, ← exists_passed hw c] at hafter
        refine Iff.trans ?_ hafter.symm
        rw [← h.marked c]
        show (c, true) ∈ s.finalTransferStatusList.map _ ↔ _
        rw [List.mem_map]
        constructor
        · rintro ⟨e, he, heq⟩
          by_cases hec : e.1 = comp
          · rw [if_pos hec] at heq
            exact .inr (congrArg Prod.fst heq).symm
          · rw [if_neg hec] at heq
            exact .inl (heq ▸ he)
        · rintro (hmem | rfl)
          · refine ⟨(c, true), hmem, ?_⟩
            by_cases hc : c = comp <;> simp [hc]
          · rw [← h.status] at hcomp
            obtain ⟨e, he, heq⟩ := List.mem_map.mp hcomp
            exact ⟨e, he, by rw [if_pos heq]⟩
      senders := fun v hv => by
        rcases List.mem_or_eq_of_mem_set hv with hv | rfl
        · exact h.senders v hv
        · simp only [Sender.Ok, hw']
          exact ⟨by rw [← hok.1]; simp, hok.2⟩ }

/-- The components leave the list object when the request is read, and every entry says `False`. -/
theorem receive_inv {before : List Component} {s : Handler} (h : Inv before s)
    (hsenders : s.senders = []) (transferComponentMap : Option (List (List Component))) :
    Inv before (s.receive transferComponentMap) := by
  match transferComponentMap with
  | none => exact h.congr rfl rfl rfl rfl rfl
  | some [] => exact h.congr rfl rfl rfl rfl rfl
  | some (comps :: rest) =>
      set t := s.receive (some (comps :: rest)) with ht
      have hempty : s.listed = [] := by rw [Handler.listed, hsenders]; rfl
      have hbefore : s.lists = [before] := by rw [h.lists, hempty]; rfl
      have hnew : t.senders = (comps :: rest).map fun comps => { comps := comps } := rfl
      have hstatus : t.finalTransferStatusList =
          (comps :: rest).flatten.map fun comp => (comp, false) := rfl
      have hlists : t.lists = s.lists.modify s.ownershipList fun l =>
          l.diff (comps :: rest).flatten := rfl
      have hlisted : t.listed = (comps :: rest).flatten := by
        rw [Handler.listed, hnew, List.flatMap_def, List.map_map]
        exact congrArg List.flatten (List.map_id _)
      exact
        { lists := by rw [hlists, hlisted, hbefore, h.ownershipList]; rfl
          ownershipList := h.ownershipList
          oldOwnershipList := h.ownershipList
          status := by
            rw [hstatus, hlisted, List.map_map]
            exact List.map_id _
          marked := fun comp => by
            rw [hstatus, hnew]
            constructor
            · intro hmem
              obtain ⟨c, -, heq⟩ := List.mem_map.mp hmem
              cases heq
            · rintro ⟨w, hw, hpassed⟩
              obtain ⟨comps, -, rfl⟩ := List.mem_map.mp hw
              exact hpassed.elim
          senders := fun w hw => by
            rw [hnew] at hw
            obtain ⟨comps, -, rfl⟩ := List.mem_map.mp hw
            trivial }

/-- The map is read once, and the threads are started in the order of the destinations. -/
structure Phase (s : Handler) : Prop where
  receiving : s.main = .receiving → s.senders = []
  created : ∀ started, s.main = .starting started → ∀ j w, started ≤ j →
    s.senders[j]? = some w → w.point = .created

theorem mainStep_inv {before : List Component} {s s' : Handler} (h : Inv before s)
    (hphase : Phase s) (hs' : s.mainStep = some s') : Inv before s' := by
  unfold Handler.mainStep at hs'
  split at hs'
  · rename_i started hmain
    split at hs' <;> cases hs'
    · rename_i w hw
      have hcreated := hphase.created started hmain started w (Nat.le_refl _) hw
      have hnone : ∀ comp, ¬ w.Passed comp := fun comp => by simp [Sender.Passed, hcreated]
      have hstarted : Inv before (s.setSender started { w with point := .connecting }) :=
        h.setSender hw rfl (fun comp => iff_of_false id (hnone comp)) trivial
      exact hstarted.congr rfl rfl rfl rfl rfl
    · exact h.congr rfl rfl rfl rfl rfl
  · split at hs' <;> cases hs'
    exact h.congr rfl rfl rfl rfl rfl
  · split at hs' <;> cases hs'
    · exact h.restoreOwnership.congr rfl rfl rfl rfl rfl
    · exact h.congr rfl rfl rfl rfl rfl
    · exact h.congr rfl rfl rfl rfl rfl
  · cases hs'
    exact h.congr rfl rfl rfl rfl rfl
  · cases hs'
    exact h.restoreOwnership.congr rfl rfl rfl rfl rfl
  · cases hs'

theorem checkerStep_inv {before : List Component} {s s' : Handler} (h : Inv before s)
    (hs' : s.checkerStep = some s') : Inv before s' := by
  unfold Handler.checkerStep at hs'
  split at hs'
  · cases hs'
    exact h.congr rfl rfl rfl rfl rfl
  · cases hs'
    exact h.congr rfl rfl rfl rfl rfl
  · split at hs' <;> cases hs' <;> exact h.congr rfl rfl rfl rfl rfl
  · cases hs'

/-- A sender between two points at which it has marked nothing. -/
theorem Inv.move {before : List Component} {s : Handler} (h : Inv before s) {i : Nat} {w : Sender}
    (hw : s.senders[i]? = some w) (hnone : ∀ comp, ¬ w.Passed comp) {w' : Sender}
    (hcomps : w'.comps = w.comps) (hnone' : ∀ comp, ¬ w'.Passed comp) (hok : w'.Ok) :
    Inv before (s.setSender i w') :=
  h.setSender hw hcomps (fun comp => iff_of_false (hnone' comp) (hnone comp)) hok

theorem connect_inv {before : List Component} {s : Handler} (h : Inv before s) {i : Nat}
    {w : Sender} (hw : s.senders[i]? = some w) (hpoint : w.point = .connecting) (answer : Answer) :
    Inv before (s.connect i w answer) := by
  have hnone : ∀ comp, ¬ w.Passed comp := fun comp => by simp [Sender.Passed, hpoint]
  cases answer with
  | «continue» => exact h.move hw hnone rfl (fun _ => id) trivial
  | success => exact h.move hw hnone rfl (fun _ => id) trivial
  | insufficientStorage => exact (h.setCheck i _).move hw hnone rfl (fun _ => id) trivial
  | other => exact h.move hw hnone rfl (fun _ => id) trivial
  | raised => exact (h.setCheck i _).move hw hnone rfl (fun _ => id) trivial

theorem send_inv {before : List Component} {s : Handler} (h : Inv before s) {i : Nat}
    {w : Sender} (hw : s.senders[i]? = some w) {answered : Bool}
    (hpoint : w.point = .sending answered) (raised : Bool) :
    Inv before (s.send i w answered raised) := by
  have hnone : ∀ comp, ¬ w.Passed comp := fun comp => by simp [Sender.Passed, hpoint]
  cases raised with
  | false => exact h.move hw hnone rfl (fun _ => id) trivial
  | true => exact (h.setCheck i _).move hw hnone rfl (fun _ => id) trivial

theorem respond_inv {before : List Component} {s : Handler} (h : Inv before s) {i : Nat}
    {w : Sender} (hw : s.senders[i]? = some w) {answered : Bool}
    (hpoint : w.point = .responding answered) (success : Option Bool) :
    Inv before (s.respond i w answered success) := by
  have hnone : ∀ comp, ¬ w.Passed comp := fun comp => by simp [Sender.Passed, hpoint]
  unfold Handler.respond
  split
  · exact h.move hw hnone rfl (fun _ => id) rfl
  · match success with
    | none => exact (h.setCheck i _).move hw hnone rfl (fun _ => id) trivial
    | some true => exact h.move hw hnone rfl (fun _ => id) rfl
    | some false => exact h.move hw hnone rfl (fun _ => id) trivial

theorem report_inv {before : List Component} {s : Handler} (h : Inv before s) {i : Nat}
    {w : Sender} (hw : s.senders[i]? = some w) {attempts : Nat}
    (hpoint : w.point = .reporting attempts) (report : Report) :
    Inv before (s.report i w attempts report) := by
  have hnone : ∀ comp, ¬ w.Passed comp := fun comp => by simp [Sender.Passed, hpoint]
  have haccepted : w.accepted = true := by
    have hok := h.senders w (List.mem_of_getElem? hw)
    simpa only [Sender.Ok, hpoint] using hok
  cases report with
  | noConnection => exact h.move hw hnone rfl (fun _ => id) trivial
  | raised => exact h.move hw hnone rfl (fun _ => id) trivial
  | refused =>
      simp only [Handler.report]
      split
      · exact h.move hw hnone rfl (fun _ => id) haccepted
      · exact (h.setCheck i _).move hw hnone rfl (fun _ => id) trivial
  | acknowledged =>
      refine h.move hw hnone rfl (fun comp hpassed => ?_) ⟨rfl, haccepted, rfl⟩
      exact List.not_mem_nil hpassed

theorem senderStep_inv {before : List Component} {s s' : Handler} (h : Inv before s) {i : Nat}
    {w : Sender} (hw : s.senders[i]? = some w) (hs' : s.senderStep i w = some s') :
    Inv before s' := by
  have hok := h.senders w (List.mem_of_getElem? hw)
  unfold Handler.senderStep at hs'
  split at hs' <;> cases hs' <;> rename_i hpoint
  · refine (h.setCheck i _).move hw (fun comp => ?_) rfl (fun _ => id) trivial
    simp [Sender.Passed, hpoint]
  · exact h.mark hw hpoint
  · simp only [Sender.Ok, hpoint, List.append_nil] at hok
    refine h.setSender hw rfl (fun comp => ?_) hok.2
    simp [Sender.Passed, hpoint, hok.1]
  · simp only [Sender.Ok, hpoint] at hok
    refine (h.setCheck i _).setSender hw rfl (fun comp => ?_) hok
    simp [Sender.Passed, hpoint]

/-- A step of a sender: it was started before, and the thread of the request stays where it is. -/
def SenderMoves (s s' : Handler) (i : Nat) : Prop :=
  s'.main = s.main ∧ ∃ w w', s.senders[i]? = some w ∧ w.point ≠ .created ∧
    s'.senders = s.senders.set i w'

theorem SenderMoves.phase {s s' : Handler} {i : Nat} (h : SenderMoves s s' i) (hphase : Phase s) :
    Phase s' := by
  obtain ⟨hmain, w, w', hw, hpoint, hsenders⟩ := h
  refine ⟨fun hreceiving => ?_, fun started hstarting j v hj hv => ?_⟩
  · rw [hphase.receiving (hmain ▸ hreceiving)] at hw
    cases hw
  · rw [hmain] at hstarting
    have hne : i ≠ j := by
      rintro rfl
      exact hpoint (hphase.created started hstarting i w hj hw)
    rw [hsenders, List.getElem?_set_ne hne] at hv
    exact hphase.created started hstarting j v hj hv

theorem connect_moves {s : Handler} {i : Nat} {w : Sender} (hw : s.senders[i]? = some w)
    (hpoint : w.point ≠ .created) (answer : Answer) : SenderMoves s (s.connect i w answer) i := by
  cases answer <;> exact ⟨rfl, w, _, hw, hpoint, rfl⟩

theorem send_moves {s : Handler} {i : Nat} {w : Sender} (hw : s.senders[i]? = some w)
    (hpoint : w.point ≠ .created) (answered raised : Bool) :
    SenderMoves s (s.send i w answered raised) i := by
  cases raised <;> exact ⟨rfl, w, _, hw, hpoint, rfl⟩

theorem respond_moves {s : Handler} {i : Nat} {w : Sender} (hw : s.senders[i]? = some w)
    (hpoint : w.point ≠ .created) (answered : Bool) (success : Option Bool) :
    SenderMoves s (s.respond i w answered success) i := by
  unfold Handler.respond
  split
  · exact ⟨rfl, w, _, hw, hpoint, rfl⟩
  · split <;> exact ⟨rfl, w, _, hw, hpoint, rfl⟩

theorem report_moves {s : Handler} {i : Nat} {w : Sender} (hw : s.senders[i]? = some w)
    (hpoint : w.point ≠ .created) (attempts : Nat) (report : Report) :
    SenderMoves s (s.report i w attempts report) i := by
  cases report with
  | refused =>
      simp only [Handler.report]
      split <;> exact ⟨rfl, w, _, hw, hpoint, rfl⟩
  | noConnection => exact ⟨rfl, w, _, hw, hpoint, rfl⟩
  | raised => exact ⟨rfl, w, _, hw, hpoint, rfl⟩
  | acknowledged => exact ⟨rfl, w, _, hw, hpoint, rfl⟩

theorem senderStep_moves {s s' : Handler} {i : Nat} {w : Sender} (hw : s.senders[i]? = some w)
    (hs' : s.senderStep i w = some s') : SenderMoves s s' i := by
  unfold Handler.senderStep at hs'
  split at hs' <;> cases hs' <;> rename_i hpoint <;>
    exact ⟨rfl, w, _, hw, by rw [hpoint]; nofun, rfl⟩

theorem Phase.of_main {s : Handler} (hreceiving : s.main ≠ .receiving)
    (hstarting : ∀ started, s.main ≠ .starting started) : Phase s :=
  ⟨fun h => absurd h hreceiving, fun started h => absurd h (hstarting started)⟩

theorem mainStep_phase {s s' : Handler} (hphase : Phase s) (hs' : s.mainStep = some s') :
    Phase s' := by
  unfold Handler.mainStep at hs'
  split at hs'
  · rename_i started hmain
    split at hs' <;> cases hs'
    · refine ⟨nofun, fun started' hstarting j w hj hw => ?_⟩
      obtain rfl : started + 1 = started' := MainPoint.starting.inj hstarting
      refine hphase.created started hmain j w (by omega) ?_
      rw [← hw]
      exact (List.getElem?_set_ne (by omega)).symm
    · exact .of_main nofun nofun
  · split at hs' <;> cases hs'
    exact .of_main nofun nofun
  · split at hs' <;> cases hs' <;> exact .of_main nofun nofun
  · cases hs'
    exact .of_main nofun nofun
  · cases hs'
    exact .of_main nofun nofun
  · cases hs'

theorem receive_phase (s : Handler) (transferComponentMap : Option (List (List Component))) :
    Phase (s.receive transferComponentMap) := by
  match transferComponentMap with
  | none => exact .of_main nofun nofun
  | some [] => exact .of_main nofun nofun
  | some (comps :: rest) =>
      refine ⟨nofun, fun started hstarting j w hj hw => ?_⟩
      obtain ⟨comps, -, rfl⟩ := List.mem_map.mp (List.mem_of_getElem? hw)
      rfl

theorem checkerStep_phase {s s' : Handler} (hphase : Phase s) (hs' : s.checkerStep = some s') :
    Phase s' := by
  unfold Handler.checkerStep at hs'
  split at hs'
  · cases hs'
    exact ⟨hphase.receiving, hphase.created⟩
  · cases hs'
    exact ⟨hphase.receiving, hphase.created⟩
  · split at hs' <;> cases hs' <;> exact ⟨hphase.receiving, hphase.created⟩
  · cases hs'

theorem step_inv {before : List Component} {s s' : Handler} {e : Event}
    (h : Inv before s ∧ Phase s) (hs' : step s e = some s') : Inv before s' ∧ Phase s' := by
  obtain ⟨hinv, hphase⟩ := h
  cases e with
  | receive transferComponentMap =>
      simp only [step] at hs'
      split at hs' <;> cases hs'
      rename_i hmain
      exact ⟨receive_inv hinv (hphase.receiving hmain) _, receive_phase s _⟩
  | main => exact ⟨mainStep_inv hinv hphase hs', mainStep_phase hphase hs'⟩
  | joinTimeout =>
      simp only [step] at hs'
      split at hs' <;> cases hs'
      exact ⟨hinv.congr rfl rfl rfl rfl rfl, .of_main nofun nofun⟩
  | queue empty =>
      simp only [step] at hs'
      split at hs'
      · split at hs'
        · cases hs'
          exact ⟨hinv.congr rfl rfl rfl rfl rfl, .of_main nofun nofun⟩
        · split at hs' <;> cases hs' <;>
            exact ⟨hinv.congr rfl rfl rfl rfl rfl, .of_main nofun nofun⟩
      · cases hs'
  | write raised =>
      simp only [step] at hs'
      split at hs'
      · split at hs' <;> cases hs' <;>
          exact ⟨hinv.congr rfl rfl rfl rfl rfl, .of_main nofun nofun⟩
      · cases hs'
  | checker => exact ⟨checkerStep_inv hinv hs', checkerStep_phase hphase hs'⟩
  | connect i answer =>
      obtain ⟨w, hw, hs'⟩ := Option.bind_eq_some_iff.mp hs'
      split at hs' <;> cases hs'
      rename_i hpoint
      exact ⟨connect_inv hinv hw hpoint answer,
        (connect_moves hw (by rw [hpoint]; nofun) answer).phase hphase⟩
  | send i raised =>
      obtain ⟨w, hw, hs'⟩ := Option.bind_eq_some_iff.mp hs'
      split at hs' <;> cases hs'
      rename_i hpoint
      exact ⟨send_inv hinv hw hpoint raised,
        (send_moves hw (by rw [hpoint]; nofun) _ raised).phase hphase⟩
  | respond i success =>
      obtain ⟨w, hw, hs'⟩ := Option.bind_eq_some_iff.mp hs'
      split at hs' <;> cases hs'
      rename_i hpoint
      exact ⟨respond_inv hinv hw hpoint success,
        (respond_moves hw (by rw [hpoint]; nofun) _ success).phase hphase⟩
  | report i report =>
      obtain ⟨w, hw, hs'⟩ := Option.bind_eq_some_iff.mp hs'
      split at hs' <;> cases hs'
      rename_i hpoint
      exact ⟨report_inv hinv hw hpoint report,
        (report_moves hw (by rw [hpoint]; nofun) _ report).phase hphase⟩
  | sender i =>
      obtain ⟨w, hw, hs'⟩ := Option.bind_eq_some_iff.mp hs'
      exact ⟨senderStep_inv hinv hw hs', (senderStep_moves hw hs').phase hphase⟩

/-- Destination 0 gets component 1, accepts it and is reported. -/
def accepted : List Event :=
  [.receive (some [[1]]), .main, .main, .connect 0 .continue, .send 0 false,
    .respond 0 (some true), .report 0 .acknowledged, .sender 0, .sender 0, .sender 0, .checker,
    .checker, .checker, .checker, .main, .main, .main, .main]

/-- Destination 0 gets component 1 and refuses the connection. -/
def refused : List Event :=
  [.receive (some [[1]]), .main, .main, .connect 0 .raised, .checker, .checker, .checker,
    .checker, .main, .main, .main]

/-- The four threads of the service have seen the change, and the answer is sent. -/
def answers : List Event :=
  [.queue false, .queue false, .queue false, .queue false, .write false]

/-- At the end of the request, and at any time before, the service has given its components away
all or nothing exactly if every one that it owned got through. -/
theorem do_TRANSFER_COMPONENTS_all_or_nothing_iff (before : List Component) {events : List Event}
    {s : Handler} (hrun : run step (start before) events = some s) :
    s.AllOrNothing before ↔ s.GotThrough before := by
  have hstart : Inv before (start before) ∧ Phase (start before) :=
    ⟨start_inv before, fun _ => rfl, nofun⟩
  exact (run_preserves step (fun _ _ _ h hs' => step_inv h hs') hstart hrun).1.allOrNothing_iff

theorem do_TRANSFER_COMPONENTS_all_or_nothing_accepted :
    ∃ s, run step (start [1, 2]) (accepted ++ answers) = some s ∧ s.main = .ended 200 ∧
      s.AllOrNothing [1, 2] := by
  have hfinal : (run step (start [1, 2]) (accepted ++ answers)).any (fun s =>
      s.main = .ended 200 ∧ s.senders = [⟨[1], .ended true, true, true⟩]) = true := by
    decide
  obtain ⟨s, hrun, hs⟩ := (Option.any_eq_true _ _).mp hfinal
  obtain ⟨hmain, hsenders⟩ := of_decide_eq_true hs
  refine ⟨s, hrun, hmain, (do_TRANSFER_COMPONENTS_all_or_nothing_iff [1, 2] hrun).mpr ⟨?_, ?_⟩⟩
  · intro comp _ hlisted
    rw [Handler.listed, hsenders] at hlisted ⊢
    obtain rfl : comp = 1 := by simpa using hlisted
    simp [Sender.Passed]
  · intro i j w w' comp hw hw' hij
    rw [hsenders] at hw hw'
    have hi := (List.getElem?_eq_some_iff.mp hw).1
    have hj := (List.getElem?_eq_some_iff.mp hw').1
    simp only [List.length_singleton] at hi hj
    omega

/-- The component that was refused is owned by nobody: the list kept for the rollback is the list it
was taken out of. -/
theorem refused_component_stays_lost :
    ∃ before events s, run step (start before) events = some s ∧ s.main = .ended 200 ∧
      ¬ s.AllOrNothing before := by
  have hfinal : (run step (start [1, 2]) (refused ++ answers)).any (fun s =>
      s.main = .ended 200 ∧ s.owned = [2] ∧ s.finalTransferStatusList = [(1, false)]) = true := by
    decide
  obtain ⟨s, hrun, hs⟩ := (Option.any_eq_true _ _).mp hfinal
  obtain ⟨hmain, howned, hstatus⟩ := of_decide_eq_true hs
  refine ⟨[1, 2], refused ++ answers, s, hrun, hmain, fun hall => ?_⟩
  have hlost := hall.1 1
  rw [howned, hstatus] at hlost
  exact absurd (hlost.mpr (by simp)) (by simp)

end ObjectStorage.Updater.GiveAway
