import ObjectStorage.Service.BlockLists

/-!
Requests and transfers of the same component: the count of the requests that are executing, and the
runs along which neither a request nor another transfer meets a component that is being transferred.
-/

namespace ObjectStorage.Service

open Library Routing
open Transaction (hexDigit? isStreamSpace)

section

theorem isHexDigit_of_isDigit {c : Char} (h : c.isDigit = true) : isHexDigit c = true := by
  rw [Char.isDigit, Bool.and_eq_true, decide_eq_true_eq, decide_eq_true_eq] at h
  rw [isHexDigit, hexDigit?, if_pos (by exact h)]
  rfl

theorem dropWhile_of_forall {p : Char → Bool} {cs : List Char} (h : ∀ c ∈ cs, p c = false) :
    cs.dropWhile p = cs := by
  cases cs with
  | nil => rfl
  | cons c cs =>
      rw [List.dropWhile_cons, h c List.mem_cons_self]
      rfl

theorem pythonInt_toString (n : Int) : pythonInt (toString n) = some n := by
  have hdigits : ∀ (k : Nat), ∀ c ∈ Nat.toDigits 10 k, c.isDigit = true := fun k c hc =>
    Nat.isDigit_of_mem_toDigits (by decide) (by decide) hc
  have hall : ∀ k : Nat, Nat.toDigits 10 k ≠ [] ∧ (Nat.toDigits 10 k).all Char.isDigit = true :=
    fun k => ⟨Nat.toDigits_ne_nil, List.all_eq_true.mpr (hdigits k)⟩
  have hspace : ∀ (k : Nat), ∀ c ∈ Nat.toDigits 10 k, isStreamSpace c = false := fun k c hc =>
    not_isStreamSpace_of_isHexDigit (isHexDigit_of_isDigit (hdigits k c hc))
  have hstrip : ∀ cs : List Char, (∀ c ∈ cs, isStreamSpace c = false) →
      ((cs.dropWhile isStreamSpace).reverse.dropWhile isStreamSpace).reverse = cs := by
    intro cs hcs
    rw [dropWhile_of_forall hcs, dropWhile_of_forall fun c hc => hcs c (List.mem_reverse.mp hc),
      List.reverse_reverse]
  rw [Int.toString_eq_repr]
  cases n with
  | ofNat k =>
      have hlist : (Int.repr (Int.ofNat k)).toList = Nat.toDigits 10 k := Nat.toList_repr
      rw [pythonInt, hlist, hstrip _ (hspace k),
        takeSign_digits fun c hc => isHexDigit_of_isDigit (hdigits k c hc)]
      simp only
      rw [if_pos (hall k), Nat.ofDigitChars_ten_toDigits]
      rfl
  | negSucc k =>
      have hlist : (Int.repr (Int.negSucc k)).toList = '-' :: Nat.toDigits 10 (k + 1) := by
        rw [Int.repr, String.toList_append, Nat.toList_repr]
        rfl
      have hspaces : ∀ c ∈ '-' :: Nat.toDigits 10 (k + 1), isStreamSpace c = false :=
        List.forall_mem_cons.mpr ⟨by decide, hspace (k + 1)⟩
      rw [pythonInt, hlist, hstrip _ hspaces, takeSign]
      simp only
      rw [if_pos (hall (k + 1)), Nat.ofDigitChars_ten_toDigits]
      rfl

theorem toString_inj {m n : Int} : toString m = toString n ↔ m = n := by
  refine ⟨fun h => ?_, congrArg toString⟩
  have hread := pythonInt_toString m
  rw [h, pythonInt_toString] at hread
  exact (Option.some.inj hread).symm

end

/-- The request is sent with the number of the component it works on. -/
def Request.Named (r : Request) : Prop := r.componentNumber = some (toString r.component)

instance : DecidablePred Request.Named := fun r =>
  inferInstanceAs (Decidable (r.componentNumber = some (toString r.component)))

theorem Request.Named.header {r : Request} (h : r.Named) :
    r.header = some (toString r.component) := by
  have hne : toString r.component ≠ "" := fun hempty => by
    have hread := pythonInt_toString r.component
    rw [hempty] at hread
    cases hread
  rw [Request.header, h, Option.filter_some, if_pos (by simpa using hne)]

/-- An entry of the dictionary of counts. -/
def countEntry (n : Nat) : Option Int := if n = 0 then none else some n

section

variable {dict : Value → Option Int} {comp v : Value} {n : Nat}

theorem addition_self (h : dict comp = countEntry n) :
    additionInCompRequestDict dict comp comp = countEntry (n + 1) := by
  rw [additionInCompRequestDict, h]
  cases n with
  | zero => exact Function.update_self ..
  | succ n => exact Function.update_self ..

theorem addition_of_ne (h : v ≠ comp) : additionInCompRequestDict dict comp v = dict v := by
  rw [additionInCompRequestDict]
  cases dict comp with
  | none => exact Function.update_of_ne h ..
  | some n => exact Function.update_of_ne h ..

theorem deletion_self (h : dict comp = countEntry (n + 1)) :
    deletionInCompRequestDict dict comp comp = countEntry n := by
  rw [deletionInCompRequestDict, h]
  cases n with
  | zero => exact Function.update_self ..
  | succ n =>
      have hentry : countEntry (n + 1 + 1) = some ((n : Int) + 1 + 1) := rfl
      rw [hentry]
      simp only
      rw [if_neg (by omega), Function.update_self]
      exact congrArg some (by omega)

theorem deletion_of_ne (h : v ≠ comp) : deletionInCompRequestDict dict comp v = dict v := by
  rw [deletionInCompRequestDict]
  cases dict comp with
  | none => rfl
  | some n =>
      simp only
      split <;> exact Function.update_of_ne h ..

theorem deletion_absent (h : dict comp = none) : deletionInCompRequestDict dict comp = dict := by
  rw [deletionInCompRequestDict, h]

end

/-- Whether a request on the component is executing. -/
def executingOn (a : Int) : RequestState → Nat
  | .executing r => if r.component = a then 1 else 0
  | _ => 0

@[simp] theorem executingOn_executing (a : Int) (r : Request) :
    executingOn a (.executing r) = if r.component = a then 1 else 0 := rfl

/-- The dictionary holds these counts. -/
def CountsRequests (c : ContainerController) (count : Int → Nat) : Prop :=
  ∀ a, c.compRequestDict (.str (toString a)) = countEntry (count a)

section

variable {c : ContainerController} {r : Request} {count : Int → Nat}

theorem value_str_ne {a b : Int} (h : a ≠ b) : Value.str (toString a) ≠ .str (toString b) :=
  fun heq => h (toString_inj.mp (Value.str.inj heq))

theorem enter_counts (hr : r.Named) (h : CountsRequests c count) :
    CountsRequests (c.enter r) fun a => count a + executingOn a (.executing r) := by
  intro a
  rw [ContainerController.enter, hr.header]
  simp only [executingOn_executing]
  by_cases ha : r.component = a
  · subst ha
    rw [if_pos rfl]
    exact addition_self (h _)
  · rw [if_neg ha]
    exact (addition_of_ne (value_str_ne (Ne.symm ha))).trans (h a)

theorem leave_counts (hr : r.Named)
    (h : CountsRequests c fun a => count a + executingOn a (.executing r)) :
    CountsRequests (c.leave r) count := by
  intro a
  have ha' := h a
  simp only [executingOn_executing] at ha'
  rw [ContainerController.leave, hr.header]
  by_cases ha : r.component = a
  · subst ha
    rw [if_pos rfl] at ha'
    exact deletion_self ha'
  · rw [if_neg ha] at ha'
    exact (deletion_of_ne (value_str_ne (Ne.symm ha))).trans ha'

/-- A request that did not enter does no harm where none is executing. -/
theorem leave_absent (hr : r.Named) (h : CountsRequests c count) (hzero : count r.component = 0) :
    c.leave r = c := by
  have hnone : c.compRequestDict (.str (toString r.component)) = none := by
    rw [h, hzero]
    rfl
  rw [ContainerController.leave, hr.header]
  simp only [deletion_absent hnone]

theorem dispatch_cases {state : RequestState} (h : c.dispatch r = some state) :
    (state = .executing r ∧ (r.Named → r.component ∉ c.blockedComponentList)) ∨
      ∃ blockRequest, state = .loadingMap r blockRequest := by
  rw [ContainerController.dispatch] at h
  split at h
  · cases h
  case h_2 mapVersion _ =>
    split at h
    · cases h
    · simp only at h
      generalize (if mapVersion ≠ -versionUnit then c.checkMapVersion mapVersion else 0) =
        mapStatus at h
      split at h
      · cases h
      case h_2 blockRequest hblock =>
        split at h
        · cases h
        · split at h
          · exact .inr ⟨_, (Option.some.inj h).symm⟩
          · split at h
            · cases h
            case isFalse hfree =>
              refine .inl ⟨(Option.some.inj h).symm, fun hr hin => hfree ?_⟩
              rw [hr.header, Option.elim_some, ContainerController.checkBlockStatus,
                pythonInt_toString, Option.map_some] at hblock
              rw [← Option.some.inj hblock]
              exact decide_eq_true (.inl hin)

end

/-- The number of requests on a component that are executing. -/
def executing (s : ServiceState) (a : Int) : Nat := total (executingOn a) s.requests

/-- The counts are right, no request is executing on a component that is being transferred, and no
two transfers have a component in common. -/
structure ComponentsExcluded (s : ServiceState) : Prop where
  counted : ∀ a, (s.controller.compRequestDict (.str (toString a))).getD 0 = executing s a
  drained : ∀ t ∈ s.transfers, ∀ a ∈ t.pending, executing s a = 0
  alone : ∀ (i j : Nat) (t u : Transfer), i ≠ j → s.transfers[i]? = some t →
    s.transfers[j]? = some u →
    ∀ a ∈ t.pending, a ∉ u.pending

def RequestState.Named : RequestState → Prop
  | .loadingMap r _ | .committing r _ | .executing r => r.Named
  | .done => True

/-- Whether the transfer handles the component. -/
def handles (a : Int) (t : Transfer) : Nat := if a ∈ t.pending then 1 else 0

structure KeptApart (s : ServiceState) : Prop where
  started : ∀ t ∈ s.transfers, t.phase ≠ .waitingForTransfers
  named : ∀ state ∈ s.requests, state.Named
  counted : CountsRequests s.controller (executing s)
  blocked : ∀ a, total (fun t : Transfer => t.pending.count a) s.transfers ≤
    s.controller.blockedComponentList.count a
  drained : ∀ t ∈ s.transfers, ∀ a ∈ t.pending, executing s a = 0
  alone : ∀ a, total (handles a) s.transfers ≤ 1

theorem KeptApart.excluded {s : ServiceState} (h : KeptApart s) : ComponentsExcluded s := by
  refine ⟨fun a => ?_, h.drained, fun i j t u hij ht hu a hat hau => ?_⟩
  · rw [h.counted a, countEntry]
    split
    case isTrue hzero => rw [hzero]; rfl
    · rfl
  · have hle := h.alone a
    have hadd := add_le_total (f := handles a) hij ht hu
    simp only [handles, if_pos hat, if_pos hau] at hadd
    omega

/-- A request that raises or is answered without its method finds none executing on its component;
one that has waited for the map finds no transfer. -/
def RequestMeetsNone (s : ServiceState) : RequestState → RequestEvent → Prop
  | .loadingMap _ _, .globalMap (some version) =>
      majorVersion version > s.controller.globalMapMajorVersion → transferring s = 0
  | .loadingMap r _, .globalMapRaised => executing s r.component = 0
  | .committing r blockRequest, .committed ok =>
      if !ok || blockRequest then executing s r.component = 0
      else ∀ t ∈ s.transfers, r.component ∉ t.pending
  | _, _ => True

/-- Requests name their component, and one that is answered at once finds none executing on it. A
transfer begins when no request is executing on its components and no other transfer has them. The
whole list is cleared only when nothing else is being transferred. -/
def MeetsNoOther (s : ServiceState) : ServiceEvent → Prop
  | .call r => r.Named ∧ (s.controller.dispatch r = none → executing s r.component = 0)
  | .request i e => ∀ state ∈ s.requests[i]?, RequestMeetsNone s state e
  | .transferComponents compTransferMap => ∀ a ∈ compTransferMap.flatten,
      executing s a = 0 ∧ ∀ t ∈ s.transfers, a ∉ t.pending
  | .transfer i e => ∀ t ∈ s.transfers[i]?,
      e.release = .all → transferring s = (t.leaving e).length
  | _ => True

instance (s : ServiceState) (state : RequestState) (e : RequestEvent) :
    Decidable (RequestMeetsNone s state e) := by
  unfold RequestMeetsNone
  split <;> infer_instance

instance (s : ServiceState) : (e : ServiceEvent) → Decidable (MeetsNoOther s e)
  | .call r =>
    inferInstanceAs
      (Decidable (r.Named ∧ (s.controller.dispatch r = none → executing s r.component = 0)))
  | .request i e =>
    inferInstanceAs (Decidable (∀ state ∈ s.requests[i]?, RequestMeetsNone s state e))
  | .transferComponents compTransferMap =>
    inferInstanceAs (Decidable (∀ a ∈ compTransferMap.flatten,
      executing s a = 0 ∧ ∀ t ∈ s.transfers, a ∉ t.pending))
  | .transfer i e =>
    inferInstanceAs (Decidable (∀ t ∈ s.transfers[i]?,
      e.release = .all → transferring s = (t.leaving e).length))
  | .acceptComponents _ | .acceptAnswered _ | .acceptRaised _ => inferInstanceAs (Decidable True)

section

variable {s : ServiceState}

/-- What a new thread or a changed thread leaves of the invariant, the counts apart. -/
theorem requests_keptApart {c : ContainerController} {requests : List RequestState}
    (hs : KeptApart s) (hnamed : ∀ state ∈ requests, state.Named)
    (hcounted : CountsRequests c fun a => total (executingOn a) requests)
    (hblocked : ∀ a, total (fun t : Transfer => t.pending.count a) s.transfers ≤
      c.blockedComponentList.count a)
    (hdrained : ∀ t ∈ s.transfers, ∀ a ∈ t.pending, total (executingOn a) requests = 0) :
    KeptApart { s with controller := c, requests := requests } :=
  ⟨hs.started, hnamed, hcounted, hblocked, hdrained, hs.alone⟩

theorem count_pos_of_pending (hs : KeptApart s) {t : Transfer} (ht : t ∈ s.transfers) {a : Int}
    (ha : a ∈ t.pending) : a ∈ s.controller.blockedComponentList := by
  have hle := le_total (f := fun t : Transfer => t.pending.count a) ht
  have hpos := List.count_pos_iff.mpr ha
  have hblocked := hs.blocked a
  exact List.count_pos_iff.mp (by omega)

/-- A new request that enters is not on a blocked component. -/
theorem call_keptApart {r : Request} (hs : KeptApart s) (hr : MeetsNoOther s (.call r)) :
    KeptApart { s with
      controller := (s.controller.call r).1
      requests := s.requests ++ [(s.controller.call r).2] } := by
  have hadded : ∀ state : RequestState, state.Named → ∀ u ∈ s.requests ++ [state], u.Named := by
    intro state hstate u hu
    rcases List.mem_append.mp hu with hu | hu
    · exact hs.named u hu
    · rw [List.mem_singleton.mp hu]
      exact hstate
  have hidle : ∀ state : RequestState, (∀ a, executingOn a state = 0) →
      (fun a => total (executingOn a) (s.requests ++ [state])) = executing s := by
    intro state hstate
    funext a
    rw [total_concat, hstate a]
    rfl
  rw [ContainerController.call]
  split
  case h_1 r' hdispatch =>
    obtain ⟨heq, hfree⟩ | ⟨blockRequest, heq⟩ := dispatch_cases hdispatch
    · cases heq
      obtain ⟨dict, hc⟩ := enter_eq s.controller r
      refine requests_keptApart hs (hadded _ hr.1) ?_ (by rw [hc]; exact hs.blocked) ?_
      · simp only [total_concat]
        exact enter_counts hr.1 hs.counted
      · intro t ht a ha
        have hne : r.component ≠ a := fun heq =>
          hfree hr.1 (heq ▸ count_pos_of_pending hs ht ha)
        rw [total_concat, executingOn_executing, if_neg hne]
        exact hs.drained t ht a ha
    · cases heq
  case h_2 state hexecuting hdispatch =>
    obtain ⟨heq, -⟩ | ⟨blockRequest, heq⟩ := dispatch_cases hdispatch
    · exact absurd heq (hexecuting r)
    · subst heq
      have hsame := hidle (.loadingMap r blockRequest) fun _ => rfl
      refine requests_keptApart hs (hadded _ hr.1) (hsame ▸ hs.counted) hs.blocked
        fun t ht a ha => ?_
      exact (congrFun hsame a).trans (hs.drained t ht a ha)
  case h_3 hdispatch =>
    have hsame := hidle .done fun _ => rfl
    rw [leave_absent hr.1 hs.counted (hr.2 hdispatch)]
    exact requests_keptApart hs (hadded .done trivial) (hsame ▸ hs.counted) hs.blocked
      fun t ht a ha => (congrFun hsame a).trans (hs.drained t ht a ha)

theorem requestStep_keptApart {i : Nat} {state state' : RequestState} {e : RequestEvent}
    {c : ContainerController} (hs : KeptApart s) (hstate : s.requests[i]? = some state)
    (he : RequestMeetsNone s state e) (h : requestStep s.controller state e = some (c, state')) :
    KeptApart { s with controller := c, requests := s.requests.set i state' } := by
  have hnamed := hs.named state (List.mem_of_getElem? hstate)
  have hset : ∀ u : RequestState, u.Named → ∀ v ∈ s.requests.set i u, v.Named := by
    intro u hu v hv
    rcases List.mem_or_eq_of_mem_set hv with hv | rfl
    · exact hs.named v hv
    · exact hu
  have hidle : ∀ u : RequestState, (∀ a, executingOn a u = executingOn a state) →
      (fun a => total (executingOn a) (s.requests.set i u)) = executing s := by
    intro u hu
    funext a
    exact total_set_eq hstate (hu a)
  -- a request that does not execute before or after the step changes no count
  have hkeep : ∀ (u : RequestState) (c : ContainerController), u.Named →
      (∀ a, executingOn a u = executingOn a state) →
      c.compRequestDict = s.controller.compRequestDict →
      (∀ a, total (fun t : Transfer => t.pending.count a) s.transfers ≤
        c.blockedComponentList.count a) →
      KeptApart { s with controller := c, requests := s.requests.set i u } := by
    intro u c hu hexec hdict hblocked
    have hsame := hidle u hexec
    refine requests_keptApart hs (hset u hu) ?_ hblocked
      fun t ht a ha => (congrFun hsame a).trans (hs.drained t ht a ha)
    rw [hsame, CountsRequests, hdict]
    exact hs.counted
  unfold requestStep at h
  split at h
  · cases h
    exact hkeep .done s.controller trivial (fun _ => rfl) rfl hs.blocked
  case h_2 r blockRequest version =>
    cases h
    have hdict : (s.controller.updateGlobalMap version).compRequestDict =
        s.controller.compRequestDict := by
      rw [ContainerController.updateGlobalMap]
      split <;> rfl
    refine hkeep (.committing r blockRequest) _ hnamed (fun _ => rfl) hdict fun a => ?_
    rw [ContainerController.updateGlobalMap]
    split
    case isTrue hmajor =>
      rw [count_eq_zero_of_transferring (he hmajor) a]
      exact Nat.zero_le _
    · exact hs.blocked a
  case h_3 r blockRequest =>
    cases h
    rw [leave_absent hnamed hs.counted he]
    exact hkeep .done s.controller trivial (fun _ => rfl) rfl hs.blocked
  case h_4 r blockRequest ok =>
    rw [RequestMeetsNone] at he
    split at h
    case isTrue hleave =>
      cases h
      rw [if_pos hleave] at he
      rw [leave_absent hnamed hs.counted he]
      exact hkeep .done s.controller trivial (fun _ => rfl) rfl hs.blocked
    case isFalse henter =>
      cases h
      rw [if_neg henter] at he
      have hmore : (fun a => total (executingOn a) (s.requests.set i (.executing r))) =
          fun a => executing s a + executingOn a (.executing r) := by
        funext a
        exact total_set (f := executingOn a) hstate (.executing r)
      obtain ⟨dict, hc⟩ := enter_eq s.controller r
      refine requests_keptApart hs (hset _ hnamed) ?_ (by rw [hc]; exact hs.blocked) ?_
      · rw [hmore]
        exact enter_counts hnamed hs.counted
      · intro t ht a ha
        have hne : r.component ≠ a := fun heq => he t ht (heq ▸ ha)
        rw [congrFun hmore a, executingOn_executing, if_neg hne]
        exact hs.drained t ht a ha
  case h_5 r =>
    cases h
    have hless : ∀ a, total (executingOn a) (s.requests.set i .done) +
        executingOn a (.executing r) = executing s a := fun a =>
      total_set (f := executingOn a) hstate .done
    obtain ⟨dict, hc⟩ := leave_eq s.controller r
    refine requests_keptApart hs (hset .done trivial) ?_ (by rw [hc]; exact hs.blocked) ?_
    · refine leave_counts hnamed ?_
      rw [funext hless]
      exact hs.counted
    · intro t ht a ha
      have hzero := hs.drained t ht a ha
      have hsum := hless a
      omega
  · cases h

end

section

variable {s : ServiceState}

theorem handles_eq_zero {a : Int} {t : Transfer} : handles a t = 0 ↔ a ∉ t.pending := by
  rw [handles]
  split
  case isTrue hin => exact ⟨fun h => absurd h Nat.one_ne_zero, fun h => absurd hin h⟩
  case isFalse hout => exact ⟨fun _ => hout, fun _ => rfl⟩

theorem transferComponents_keptApart {compTransferMap : List (List Int)} {t : Transfer}
    {c : ContainerController} (hs : KeptApart s)
    (hfree : MeetsNoOther s (.transferComponents compTransferMap))
    (h : s.controller.transferComponents compTransferMap = (c, t)) :
    KeptApart { s with controller := c, transfers := s.transfers ++ [t] } := by
  obtain ⟨rfl, hpending, hphase⟩ := transferComponents_spec h
  refine ⟨fun u hu => ?_, hs.named, hs.counted, fun a => ?_, fun u hu a ha => ?_, fun a => ?_⟩
  · rcases List.mem_append.mp hu with hu | hu
    · exact hs.started u hu
    · rw [List.mem_singleton.mp hu]
      exact hphase
  · have hblocked := hs.blocked a
    rw [total_concat, hpending, List.count_append]
    omega
  · rcases List.mem_append.mp hu with hu | hu
    · exact hs.drained u hu a ha
    · rw [List.mem_singleton.mp hu, hpending] at ha
      exact (hfree a ha).1
  · rw [total_concat]
    by_cases ha : a ∈ t.pending
    · have hzero : total (handles a) s.transfers = 0 :=
        total_eq_zero.mpr fun u hu => handles_eq_zero.mpr ((hfree a (hpending ▸ ha)).2 u hu)
      rw [hzero, handles, if_pos ha]
    · rw [handles_eq_zero.mpr ha]
      exact hs.alone a

theorem transferStep_keptApart {i : Nat} {t t' : Transfer} {e : TransferEvent}
    {c : ContainerController} (hs : KeptApart s) (ht : s.transfers[i]? = some t)
    (he : e.release = .all → transferring s = (t.leaving e).length)
    (h : transferStep s.controller t e = some (c, t')) :
    KeptApart { s with controller := c, transfers := s.transfers.set i t' } := by
  have hmem := List.mem_of_getElem? ht
  obtain ⟨hdict, -, -, hblocked, hcount, hphase⟩ := transferStep_spec h (hs.started t hmem)
  have hsub : ∀ a ∈ t'.pending, a ∈ t.pending := by
    intro a ha
    have hpos := List.count_pos_iff.mpr ha
    have hsplit := hcount a
    exact List.count_pos_iff.mp (by omega)
  refine ⟨fun u hu => ?_, hs.named, fun a => ?_, fun a => ?_, fun u hu a ha => ?_, fun a => ?_⟩
  · rcases List.mem_or_eq_of_mem_set hu with hu | rfl
    · exact hs.started u hu
    · exact hphase
  · rw [hdict]
    exact hs.counted a
  · have hset := total_set (f := fun t : Transfer => t.pending.count a) ht t'
    have hold := hs.blocked a
    have hleave := hcount a
    simp only at hset ⊢
    rw [hblocked]
    cases hrelease : e.release with
    | all =>
        have hlength := length_leaving hcount
        have hlengths := total_set (f := fun t : Transfer => t.pending.length) ht t'
        have hzero := he hrelease
        rw [transferring] at hzero
        have hrest : total (fun t : Transfer => t.pending.length) (s.transfers.set i t') = 0 := by
          omega
        rw [count_eq_zero_of_transferring hrest a]
        exact Nat.zero_le _
    | own =>
        rw [Release.apply, count_foldl_erase]
        omega
    | nothing =>
        rw [Release.apply]
        omega
  · rcases List.mem_or_eq_of_mem_set hu with hu | rfl
    · exact hs.drained u hu a ha
    · exact hs.drained t hmem a (hsub a ha)
  · have hset := total_set (f := handles a) ht t'
    have hold := hs.alone a
    have hle : handles a t' ≤ handles a t := by
      by_cases ha : a ∈ t'.pending
      · rw [handles, handles, if_pos ha, if_pos (hsub a ha)]
      · rw [handles_eq_zero.mpr ha]
        exact Nat.zero_le _
    simp only at hset ⊢
    omega

end

theorem step_keptApart {s s' : ServiceState} {e : ServiceEvent} (hs : KeptApart s)
    (he : MeetsNoOther s e) (h : step s e = some s') : KeptApart s' := by
  cases e with
  | call r =>
      simp only [step, Option.some.injEq] at h
      subst h
      exact call_keptApart hs he
  | request i e =>
      obtain ⟨state, hstate, h⟩ := Option.bind_eq_some_iff.mp h
      obtain ⟨⟨c, state'⟩, hstep, h⟩ := Option.bind_eq_some_iff.mp h
      cases h
      exact requestStep_keptApart hs hstate (he state hstate) hstep
  | transferComponents compTransferMap =>
      obtain ⟨c, t, heq⟩ : ∃ c t, s.controller.transferComponents compTransferMap = (c, t) :=
        ⟨_, _, rfl⟩
      simp only [step, heq, Option.some.injEq] at h
      subst h
      exact transferComponents_keptApart hs he heq
  | transfer i e =>
      obtain ⟨t, ht, h⟩ := Option.bind_eq_some_iff.mp h
      obtain ⟨⟨c, t'⟩, hstep, h⟩ := Option.bind_eq_some_iff.mp h
      cases h
      exact transferStep_keptApart hs ht (he t ht) hstep
  | acceptComponents componentList =>
      cases h
      exact ⟨hs.started, hs.named, hs.counted, hs.blocked, hs.drained, hs.alone⟩
  | acceptAnswered i | acceptRaised i =>
      simp only [step] at h
      split at h
      · cases h
        exact ⟨hs.started, hs.named, hs.counted, hs.blocked, hs.drained, hs.alone⟩
      · cases h

theorem start_keptApart (version : Int) : KeptApart (.start version) :=
  ⟨fun _ ht => (nomatch ht), fun _ hu => (nomatch hu), fun _ => rfl, fun _ => Nat.le_refl _,
    fun _ ht => (nomatch ht), fun _ => Nat.zero_le _⟩

/-- Along a run whose requests and transfers do not meet, requests are counted and excluded from
what is being transferred in every state. -/
theorem components_excluded {version : Int} {events : List ServiceEvent} {s : ServiceState}
    (hevents : Along step MeetsNoOther (.start version) events)
    (hrun : run step (.start version) events = some s) : ComponentsExcluded s :=
  (run_along_preserves step (fun _ _ _ => step_keptApart) (start_keptApart version) hevents
    hrun).excluded

/-- A request on a component, with the version of the map it was routed by. -/
def requestOn (component : Int) (componentNumber : String) (mapVersion : Int) : Request :=
  ⟨true, some mapVersion, true, some componentNumber, component⟩

/-- A request comes while another component is being transferred, and one more comes for the map to
be loaded. -/
def requestBesideTransfer : List ServiceEvent :=
  [.transferComponents [[5]], .call (requestOn 7 "7" 3000000), .transfer 0 .extract,
    .call (requestOn 8 "8" 3100000), .request 1 (.globalMap (some 3100000)),
    .request 1 (.committed true), .request 0 .finish, .transfer 0 .containerDataSent,
    .transfer 0 (.accepted 0), .transfer 0 (.reported (some 3200000)), .transfer 0 .ended]

theorem components_excluded_beside_transfer :
    Along step MeetsNoOther (.start 3000000) requestBesideTransfer ∧
      ∃ s, run step (.start 3000000) requestBesideTransfer = some s ∧ ComponentsExcluded s := by
  have hevents : Along step MeetsNoOther (.start 3000000) requestBesideTransfer := by decide
  exact ⟨hevents, _, rfl, components_excluded hevents rfl⟩

/-- A request refused for its map takes away the count of the one that is executing; components are
extracted under an executing request; two transfers have the same component. -/
theorem components_not_excluded :
    (∃ s, run step (.start 3000000) [.call (requestOn 5 "5" 3000000),
        .call (requestOn 5 "5" 2000000)] = some s ∧
      executing s 5 = 1 ∧ s.controller.compRequestDict (.str (toString (5 : Int))) = none) ∧
    (∃ s t, run step (.start 3000000) [.call (requestOn 5 "5" 3000000),
        .transferComponents [[5]], .transfer 0 .extract] = some s ∧
      s.transfers = [t] ∧ t.phase = .containerData ∧ 5 ∈ t.pending ∧ executing s 5 = 1) ∧
    ∃ s t u, run step (.start 3000000) [.transferComponents [[5]], .transferComponents [[5]],
        .transfer 0 .extract, .transfer 1 .extract] = some s ∧
      s.transfers = [t, u] ∧ 5 ∈ t.pending ∧ 5 ∈ u.pending :=
  ⟨⟨_, rfl, by decide, by decide⟩, ⟨_, _, rfl, rfl, rfl, by decide, by decide⟩,
    _, _, _, rfl, rfl, by decide, by decide⟩

end ObjectStorage.Service
