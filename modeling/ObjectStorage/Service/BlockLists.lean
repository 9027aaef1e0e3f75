import Mathlib.Data.List.Count
import ObjectStorage.Service.ComponentBlocking

/-!
The block lists against the transfers and accepts in progress: what each step of a transfer
releases, and the runs along which both lists are exact.
-/

namespace ObjectStorage.Service

open Library

/-- What a step of a transfer takes from the block list. -/
inductive Release
  | all
  | own
  | nothing
  deriving DecidableEq, Repr

def TransferEvent.release : TransferEvent → Release
  | .noConnection | .refused _ => .all
  | .unanswered _ | .reported _ => .own
  | _ => .nothing

def Release.apply (comps blocked : List Int) : Release → List Int
  | .all => []
  | .own => comps.foldl List.erase blocked
  | .nothing => blocked

/-- The components whose transfer is over with the step. -/
def Transfer.leaving (t : Transfer) : TransferEvent → List Int
  | .noConnection | .ended => t.targets.flatten
  | .refused target | .unanswered target | .transactionRefused target =>
      (t.targets[target]?).getD []
  | .reported _ => t.listOfTuple.headD []
  | .notifyFailed => t.listOfTuple.flatten
  | _ => []

section

variable {ls : List (List Int)} {k : Nat} {l : List Int} (a : Int)

theorem count_flatten_eraseIdx (h : ls[k]? = some l) :
    ls.flatten.count a = (ls.eraseIdx k).flatten.count a + l.count a := by
  induction ls generalizing k with
  | nil => cases h
  | cons m ls ih =>
      cases k with
      | zero =>
          obtain rfl : m = l := Option.some.inj h
          rw [List.eraseIdx_cons_zero, List.flatten_cons, List.count_append]
          omega
      | succ k =>
          have hrest := ih h
          rw [List.eraseIdx_cons_succ, List.flatten_cons, List.flatten_cons, List.count_append,
            List.count_append]
          omega

theorem count_foldl_erase (comps blocked : List Int) :
    (comps.foldl List.erase blocked).count a = blocked.count a - comps.count a := by
  induction comps generalizing blocked with
  | nil => rfl
  | cons b comps ih =>
      rw [List.foldl_cons, ih, List.count_erase, List.count_cons]
      omega

end

section

variable {c c' : ContainerController} {t t' : Transfer}

/-- A list is in no list of components, so nothing waits for other transfers. -/
theorem waitForTransfers_eq (c : ContainerController) (t : Transfer) :
    c.waitForTransfers t = c.blockComponents t := by
  rw [ContainerController.waitForTransfers, if_neg]
  simp

theorem waitForRequests_spec (h : c.waitForRequests t = (c', t')) :
    c' = c ∧ t'.pending = t.pending ∧ t'.phase ≠ .waitingForTransfers := by
  rw [ContainerController.waitForRequests] at h
  split at h <;> · cases h; exact ⟨rfl, rfl, by simp⟩

theorem transferComponents_spec {compTransferMap : List (List Int)}
    (h : c.transferComponents compTransferMap = (c', t')) :
    c' = { c with blockedComponentList := c.blockedComponentList ++ compTransferMap.flatten } ∧
      t'.pending = compTransferMap.flatten ∧ t'.phase ≠ .waitingForTransfers := by
  rw [ContainerController.transferComponents] at h
  split at h
  case isTrue hempty =>
    cases h
    subst hempty
    exact ⟨by simp, rfl, by simp⟩
  · rw [waitForTransfers_eq, ite_self, ContainerController.blockComponents] at h
    obtain ⟨hc, hpending, hphase⟩ := waitForRequests_spec h
    exact ⟨hc, by rw [hpending]; simp [Transfer.pending], hphase⟩

theorem transferStep_spec {e : TransferEvent} (h : transferStep c t e = some (c', t'))
    (hphase : t.phase ≠ .waitingForTransfers) :
    c'.compRequestDict = c.compRequestDict ∧
      c'.globalMapMajorVersion = c.globalMapMajorVersion ∧
      c'.acceptCompBlockList = c.acceptCompBlockList ∧
      c'.blockedComponentList = e.release.apply (t.leaving e) c.blockedComponentList ∧
      (∀ a, t.pending.count a = t'.pending.count a + (t.leaving e).count a) ∧
      t'.phase ≠ .waitingForTransfers := by
  have hnil : ∀ a, t.pending.count a = t.pending.count a + ([] : List Int).count a := fun _ => rfl
  cases e with
  | wake =>
      cases hp : t.phase with
      | waitingForTransfers => exact absurd hp hphase
      | waitingForRequests =>
          simp only [transferStep, hp, Option.some.injEq] at h
          obtain ⟨rfl, hpending, hphase'⟩ := waitForRequests_spec h
          exact ⟨rfl, rfl, rfl, rfl, fun a => by rw [hpending]; rfl, hphase'⟩
      | connecting | containerData | transactionData | ended =>
          simp [transferStep, hp] at h
  | extract | containerDataSent =>
      simp only [transferStep] at h
      split at h
      · cases h
        exact ⟨rfl, rfl, rfl, rfl, hnil, by simp⟩
      · cases h
  | noConnection | ended =>
      simp only [transferStep] at h
      split at h
      · cases h
        refine ⟨rfl, rfl, rfl, rfl, fun a => ?_, by simp⟩
        simp only [Transfer.pending, Transfer.leaving, List.count_append, List.flatten_nil,
          List.count_nil]
        omega
      · cases h
  | refused target | transactionRefused target =>
      simp only [transferStep] at h
      split at h
      case isTrue hguard =>
        cases h
        refine ⟨rfl, rfl, rfl, rfl, fun a => ?_, hphase⟩
        obtain ⟨comps, htarget⟩ : ∃ comps, t.targets[target]? = some comps :=
          ⟨_, List.getElem?_eq_getElem hguard.2⟩
        have hcount := count_flatten_eraseIdx a htarget
        simp only [Transfer.pending, Transfer.leaving, List.count_append, htarget,
          Option.getD_some]
        omega
      · cases h
  | unanswered target =>
      simp only [transferStep] at h
      split at h
      · obtain ⟨comps, hcomps, heq⟩ := Option.map_eq_some_iff.mp h
        cases heq
        have hcount := fun a => count_flatten_eraseIdx a hcomps
        refine ⟨rfl, rfl, rfl, ?_, fun a => ?_, hphase⟩
        · rw [Transfer.leaving, hcomps]
          rfl
        · have hcount := hcount a
          simp only [Transfer.pending, Transfer.leaving, List.count_append, hcomps,
            Option.getD_some]
          omega
      · cases h
  | accepted target =>
      simp only [transferStep] at h
      split at h
      · obtain ⟨comps, hcomps, heq⟩ := Option.map_eq_some_iff.mp h
        cases heq
        refine ⟨rfl, rfl, rfl, rfl, fun a => ?_, hphase⟩
        have hcount := count_flatten_eraseIdx a hcomps
        simp only [Transfer.pending, Transfer.leaving, List.count_append, List.flatten_append,
          List.flatten_singleton, List.count_nil]
        omega
      · cases h
  | reported version =>
      simp only [transferStep] at h
      split at h
      case h_1 li rest _ hli =>
        cases h
        refine ⟨rfl, rfl, rfl, ?_, fun a => ?_, hphase⟩
        · simp only [Transfer.leaving, hli]
          rfl
        · simp only [Transfer.pending, Transfer.leaving, List.count_append, hli,
            List.flatten_cons, List.headD_cons]
          omega
      · cases h
  | notifyFailed =>
      simp only [transferStep] at h
      split at h
      · cases h
        refine ⟨rfl, rfl, rfl, rfl, fun a => ?_, hphase⟩
        simp only [Transfer.pending, Transfer.leaving, List.count_append, List.flatten_nil,
          List.count_nil]
        omega
      · cases h

end

theorem length_leaving {t t' : Transfer} {e : TransferEvent}
    (h : ∀ a, t.pending.count a = t'.pending.count a + (t.leaving e).count a) :
    t.pending.length = t'.pending.length + (t.leaving e).length := by
  have hperm : t.pending.Perm (t'.pending ++ t.leaving e) := List.perm_iff_count.mpr fun a => by
    rw [List.count_append, h a]
  rw [hperm.length_eq, List.length_append]

/-- Each list holds a component exactly while a transfer or an accept of it is in progress. -/
structure BlockListsExact (s : ServiceState) : Prop where
  transfers : ∀ a, a ∈ s.controller.blockedComponentList ↔ ∃ t ∈ s.transfers, a ∈ t.pending
  accepts : ∀ a, a ∈ s.controller.acceptCompBlockList ↔ ∃ comps ∈ s.accepts, a ∈ comps

/-- The lists hold each component once for each time it is in progress. -/
structure BlocksCounted (s : ServiceState) : Prop where
  started : ∀ t ∈ s.transfers, t.phase ≠ .waitingForTransfers
  blocked : ∀ a, s.controller.blockedComponentList.count a =
    total (fun t : Transfer => t.pending.count a) s.transfers
  accepting : ∀ a, s.controller.acceptCompBlockList.count a = total (List.count a) s.accepts

theorem BlocksCounted.exact {s : ServiceState} (h : BlocksCounted s) : BlockListsExact s := by
  refine ⟨fun a => ?_, fun a => ?_⟩
  · rw [← List.count_pos_iff, h.blocked a]
    refine ⟨fun hpos => ?_, fun ⟨t, ht, ha⟩ => ?_⟩
    · obtain ⟨t, ht, hcount⟩ := exists_of_total_pos hpos
      exact ⟨t, ht, List.count_pos_iff.mp hcount⟩
    · have hle := le_total (f := fun t : Transfer => t.pending.count a) ht
      have hpos := List.count_pos_iff.mpr ha
      omega
  · rw [← List.count_pos_iff, h.accepting a]
    refine ⟨fun hpos => ?_, fun ⟨comps, hcomps, ha⟩ => ?_⟩
    · obtain ⟨comps, hcomps, hcount⟩ := exists_of_total_pos hpos
      exact ⟨comps, hcomps, List.count_pos_iff.mp hcount⟩
    · have hle := le_total (f := List.count a) hcomps
      have hpos := List.count_pos_iff.mpr ha
      omega

/-- The number of components of the transfers in progress. -/
def transferring (s : ServiceState) : Nat :=
  total (fun t : Transfer => t.pending.length) s.transfers

/-- The whole list of the transfers is cleared only when nothing else is being transferred, and a
transfer gives up components only where it takes them from the list; an accept answers only when no
other accept has listed components, and raises only when it has not. -/
def ReleasesOwn (s : ServiceState) : ServiceEvent → Prop
  | .request _ (.globalMap (some version)) =>
      majorVersion version > s.controller.globalMapMajorVersion → transferring s = 0
  | .transfer i e => ∀ t ∈ s.transfers[i]?,
      (e.release = .all → transferring s = (t.leaving e).length) ∧
      (e.release = .nothing → t.leaving e = [])
  | .acceptAnswered i => total List.length s.accepts = ((s.accepts[i]?).getD []).length
  | .acceptRaised i => (s.accepts[i]?).getD [] = []
  | _ => True

instance (s : ServiceState) : (e : ServiceEvent) → Decidable (ReleasesOwn s e) := by
  intro e
  unfold ReleasesOwn
  split <;> infer_instance

section

variable (c : ContainerController) (r : Request)

theorem enter_eq : ∃ dict, c.enter r = { c with compRequestDict := dict } := by
  rw [ContainerController.enter]
  split
  · exact ⟨_, rfl⟩
  · exact ⟨_, rfl⟩

theorem leave_eq : ∃ dict, c.leave r = { c with compRequestDict := dict } := by
  rw [ContainerController.leave]
  split
  · exact ⟨_, rfl⟩
  · exact ⟨_, rfl⟩

theorem call_eq : ∃ dict, (c.call r).1 = { c with compRequestDict := dict } := by
  rw [ContainerController.call]
  split
  · exact enter_eq c _
  · exact ⟨_, rfl⟩
  · exact leave_eq c r

variable {c} {c' : ContainerController} {state state' : RequestState} {e : RequestEvent}

theorem requestStep_blocks (h : requestStep c state e = some (c', state')) :
    c'.acceptCompBlockList = c.acceptCompBlockList ∧
      (c'.blockedComponentList = c.blockedComponentList ∨
        ∃ version, e = .globalMap (some version) ∧
          majorVersion version > c.globalMapMajorVersion ∧ c'.blockedComponentList = []) := by
  have hleave : ∀ r, (c.leave r).acceptCompBlockList = c.acceptCompBlockList ∧
      (c.leave r).blockedComponentList = c.blockedComponentList := by
    intro r
    obtain ⟨dict, heq⟩ := leave_eq c r
    rw [heq]
    exact ⟨rfl, rfl⟩
  unfold requestStep at h
  split at h
  · cases h
    exact ⟨rfl, .inl rfl⟩
  case h_2 r blockRequest version =>
    cases h
    rw [ContainerController.updateGlobalMap]
    split
    case isTrue hmajor => exact ⟨rfl, .inr ⟨version, rfl, hmajor, rfl⟩⟩
    · exact ⟨rfl, .inl rfl⟩
  · cases h
    exact ⟨(hleave _).1, .inl (hleave _).2⟩
  case h_4 r blockRequest ok =>
    split at h
    · cases h
      exact ⟨(hleave _).1, .inl (hleave _).2⟩
    · cases h
      obtain ⟨dict, heq⟩ := enter_eq c r
      rw [heq]
      exact ⟨rfl, .inl rfl⟩
  · cases h
    exact ⟨(hleave _).1, .inl (hleave _).2⟩
  · cases h

end

theorem count_eq_zero_of_transferring {ts : List Transfer}
    (h : total (fun t : Transfer => t.pending.length) ts = 0) (a : Int) :
    total (fun t : Transfer => t.pending.count a) ts = 0 := by
  refine total_eq_zero.mpr fun t ht => ?_
  have hempty : t.pending = [] := List.length_eq_zero_iff.mp (total_eq_zero.mp h t ht)
  rw [hempty, List.count_nil]

theorem step_counted {s s' : ServiceState} {e : ServiceEvent} (hs : BlocksCounted s)
    (he : ReleasesOwn s e) (h : step s e = some s') : BlocksCounted s' := by
  cases e with
  | call r =>
      obtain ⟨dict, heq⟩ := call_eq s.controller r
      simp only [step, heq, Option.some.injEq] at h
      subst h
      exact ⟨hs.started, hs.blocked, hs.accepting⟩
  | request i e =>
      obtain ⟨state, hstate, h⟩ := Option.bind_eq_some_iff.mp h
      obtain ⟨⟨c, state'⟩, hstep, h⟩ := Option.bind_eq_some_iff.mp h
      cases h
      obtain ⟨haccept, hsame | ⟨version, rfl, hmajor, hclear⟩⟩ := requestStep_blocks hstep
      · exact ⟨hs.started, fun a => by rw [hsame]; exact hs.blocked a,
          fun a => by rw [haccept]; exact hs.accepting a⟩
      · refine ⟨hs.started, fun a => ?_, fun a => by rw [haccept]; exact hs.accepting a⟩
        rw [hclear, count_eq_zero_of_transferring (he hmajor) a]
        rfl
  | transferComponents compTransferMap =>
      obtain ⟨c, t, heq⟩ : ∃ c t, s.controller.transferComponents compTransferMap = (c, t) :=
        ⟨_, _, rfl⟩
      obtain ⟨rfl, hpending, hphase⟩ := transferComponents_spec heq
      simp only [step, heq, Option.some.injEq] at h
      subst h
      refine ⟨fun u hu => ?_, fun a => ?_, hs.accepting⟩
      · rcases List.mem_append.mp hu with hu | hu
        · exact hs.started u hu
        · rw [List.mem_singleton.mp hu]
          exact hphase
      · rw [total_concat, ← hs.blocked a, hpending, List.count_append]
  | transfer i e =>
      obtain ⟨t, ht, h⟩ := Option.bind_eq_some_iff.mp h
      obtain ⟨⟨c, t'⟩, hstep, h⟩ := Option.bind_eq_some_iff.mp h
      cases h
      have hmem := List.mem_of_getElem? ht
      obtain ⟨-, -, haccept, hblocked, hcount, hphase⟩ :=
        transferStep_spec hstep (hs.started t hmem)
      refine ⟨fun u hu => ?_, fun a => ?_, fun a => by rw [haccept]; exact hs.accepting a⟩
      · rcases List.mem_or_eq_of_mem_set hu with hu | rfl
        · exact hs.started u hu
        · exact hphase
      · obtain ⟨hall, hnothing⟩ := he t ht
        have hset := total_set (f := fun t : Transfer => t.pending.count a) ht t'
        have hle := le_total (f := fun t : Transfer => t.pending.count a) hmem
        have hs' := hs.blocked a
        have hleave := hcount a
        simp only at hset hle ⊢
        rw [hblocked]
        cases hrelease : e.release with
        | all =>
            have hlength := length_leaving hcount
            have hlengths := total_set (f := fun t : Transfer => t.pending.length) ht t'
            have hzero := hall hrelease
            rw [transferring] at hzero
            have hrest :
                total (fun t : Transfer => t.pending.length) (s.transfers.set i t') = 0 := by
              omega
            rw [count_eq_zero_of_transferring hrest a]
            rfl
        | own =>
            rw [Release.apply, count_foldl_erase]
            omega
        | nothing =>
            rw [hnothing hrelease, List.count_nil] at hleave
            rw [Release.apply]
            omega
  | acceptComponents componentList =>
      simp only [step, Option.some.injEq] at h
      subst h
      exact ⟨hs.started, hs.blocked, fun a => by
        rw [total_concat, List.count_append, hs.accepting a]⟩
  | acceptAnswered i =>
      simp only [step] at h
      split at h
      case isTrue hi =>
        cases h
        obtain ⟨comps, hcomps⟩ : ∃ comps, s.accepts[i]? = some comps :=
          ⟨_, List.getElem?_eq_getElem hi⟩
        refine ⟨hs.started, hs.blocked, fun a => ?_⟩
        have hset := total_set (f := List.length) hcomps ([] : List Int)
        rw [ReleasesOwn, hcomps, Option.getD_some] at he
        have hzero : total List.length (s.accepts.set i []) = 0 := by
          rw [List.length_nil] at hset
          omega
        refine Eq.symm (total_eq_zero.mpr fun l hl => ?_)
        rw [List.length_eq_zero_iff.mp (total_eq_zero.mp hzero l hl), List.count_nil]
      · cases h
  | acceptRaised i =>
      simp only [step] at h
      split at h
      case isTrue hi =>
        cases h
        obtain ⟨comps, hcomps⟩ : ∃ comps, s.accepts[i]? = some comps :=
          ⟨_, List.getElem?_eq_getElem hi⟩
        rw [ReleasesOwn, hcomps, Option.getD_some] at he
        subst he
        refine ⟨hs.started, hs.blocked, fun a => ?_⟩
        rw [total_set_eq hcomps rfl]
        exact hs.accepting a
      · cases h

theorem start_counted (version : Int) : BlocksCounted (.start version) :=
  ⟨fun _ ht => (nomatch ht), fun _ => rfl, fun _ => rfl⟩

/-- Along a run whose steps release what they own, both lists are exact in every state. -/
theorem block_lists_exact {version : Int} {events : List ServiceEvent} {s : ServiceState}
    (hevents : Along step ReleasesOwn (.start version) events)
    (hrun : run step (.start version) events = some s) : BlockListsExact s :=
  (run_along_preserves step (fun _ _ _ => step_counted) (start_counted version) hevents hrun).exact

/-- One destination does not answer, the other takes its components over, and an accept of other
components comes and goes meanwhile. -/
def partlyReported : List ServiceEvent :=
  [.transferComponents [[5], [7, 8]], .transfer 0 .extract, .acceptComponents [3],
    .transfer 0 (.unanswered 0), .transfer 0 .containerDataSent, .transfer 0 (.accepted 0),
    .acceptAnswered 0, .transfer 0 (.reported none), .transfer 0 .ended]

theorem block_lists_exact_partly_reported :
    Along step ReleasesOwn (.start 3000000) partlyReported ∧
      ∃ s, run step (.start 3000000) partlyReported = some s ∧ BlockListsExact s := by
  have hevents : Along step ReleasesOwn (.start 3000000) partlyReported := by decide
  exact ⟨hevents, _, rfl, block_lists_exact hevents rfl⟩

/-- The first accept to be answered unblocks the components of the other, and a transfer that raises
leaves its components blocked. -/
theorem block_lists_not_exact :
    (∃ s, run step (.start 3000000) [.acceptComponents [1], .acceptComponents [2],
        .acceptAnswered 0] = some s ∧ ¬ BlockListsExact s) ∧
      ∃ s, run step (.start 3000000) [.transferComponents [[5]], .transfer 0 .extract,
        .transfer 0 .ended] = some s ∧ ¬ BlockListsExact s := by
  refine ⟨⟨_, rfl, fun h => ?_⟩, _, rfl, fun h => ?_⟩
  · exact List.not_mem_nil ((h.accepts 2).mpr ⟨[2], by decide, by decide⟩)
  · obtain ⟨t, ht, hmem⟩ := (h.transfers 5).mp (by decide)
    obtain rfl := List.mem_singleton.mp ht
    exact absurd hmem (by decide)

end ObjectStorage.Service
