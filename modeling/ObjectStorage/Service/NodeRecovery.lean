import Mathlib.Data.List.Basic
import Mathlib.Data.List.Dedup
import Mathlib.Data.List.Perm.Basic

/-!
Recovery of a failed container node (`container_recovery.py`): the two phases that hand over the
entries of its journals, what is reported of them, and whether the journals are cleaned.
-/

namespace ObjectStorage.Service.NodeRecovery

/-- `ip:port` of a container service. -/
abbrev Address := String
abbrev Component := Nat

/-- The destinations from the global leader as `_get_map_restructure` keys them. A component is
planned for one destination. -/
structure DestinationMap where
  addresses : List Address
  components : Address → List Component
  addresses_nodup : addresses.Nodup
  components_once : ∀ a ∈ addresses, ∀ b ∈ addresses, ∀ c ∈ components a, c ∈ components b → a = b

/-- What comes of the request to one destination in one phase. -/
inductive Outcome where
  | noMapVersion | noConnection | failedSend | noResponse
  | answered (status : Nat)
deriving DecidableEq

/-- `_connect_put_node` exits without a map version, `_send_file` never leaves its loop once the
connection failed, and no tuple comes out of `get_conn_response` after an exception. -/
def Outcome.stops : Outcome → Bool
  | .noMapVersion | .failedSend | .noResponse => true
  | .noConnection | .answered _ => false

def Outcome.status : Outcome → Option Nat
  | .answered status => some status
  | _ => none

/-- The outcomes of one phase, and the order in which the responses arrive. -/
structure Phase (m : DestinationMap) where
  outcome : Address → Outcome
  arrival : List Address
  arrival_perm : arrival.Perm m.addresses

/-- The module's global variables. -/
structure Globals where
  listToGl : List (Component × Address) := []
  finalStatus : Bool := true
  finalRecoveryStatusList : List (Component × Bool) := []
  cleanJournalFlag : Bool := true
deriving DecidableEq

/-- What the process has done when it ends: the list it queued for the leader, the final status
list it sent, and whether it cleaned the journals. -/
structure Report where
  reported : List (Component × Address) := []
  finalStatusList : Option (List (Component × Bool)) := none
  cleaned : Bool := false
deriving DecidableEq

variable {m : DestinationMap}

def Phase.responses (phase : Phase m) (nodes : List Address) : List (Address × Nat) :=
  (phase.arrival.filter fun a => a ∈ nodes).filterMap fun a =>
    (phase.outcome a).status.map fun status => (a, status)

/-- `list_to_gl` and the local `obj_id`, which is unbound before the first success. -/
abbrev Noted := List (Component × Address) × Option Address

/-- The loop over the components of a destination in `_get_put_responses`. -/
def noteComponents (address : Address) (status : Nat) : List Component → Noted → Option Noted
  | [], noted => some noted
  | c :: rest, (listToGl, objId) =>
    if status = 200 then
      noteComponents address status rest (listToGl ++ [(c, address)], some address)
    else
      match objId with
      | none => none
      | some obj => noteComponents address status rest (listToGl.erase (c, obj), some obj)

def noteResponse (m : DestinationMap) (noted : Noted) (response : Address × Nat) : Option Noted :=
  noteComponents response.1 response.2 (m.components response.1) noted

/-- The entries that one call appends to `final_recovery_status_list`. -/
def statusEntries (m : DestinationMap) (sent : List Address) : List (Component × Bool) :=
  m.addresses.flatMap fun a => (m.components a).map fun c => (c, decide (a ∈ sent))

/-- `_get_put_responses`, with the destinations that answered. -/
def getPutResponses (phase : Phase m) (nodes : List Address) (g : Globals) :
    Option (Globals × List Address) := do
  let (listToGl, _) ← (phase.responses nodes).foldlM (noteResponse m) (g.listToGl, none)
  let sent := (phase.responses nodes).map Prod.fst
  let allSent := (statusEntries m sent).all Prod.snd
  some ({ listToGl := listToGl
          finalStatus := g.finalStatus && allSent
          finalRecoveryStatusList := g.finalRecoveryStatusList ++ statusEntries m sent
          cleanJournalFlag := g.cleanJournalFlag && allSent }, sent)

/-- `recovery_container` on a nonempty node list; `none` when the process goes no further. -/
def recoveryContainer (phase : Phase m) (nodes : List Address) (g : Globals) :
    Option (Globals × List Address) :=
  if nodes.any fun a => (phase.outcome a).stops then none else getPutResponses phase nodes g

/-- `start_recovery` and the cleaning after it. The second phase goes to the destinations that
answered the first, and its end queues the list. -/
def startRecovery (m : DestinationMap) (first second : Phase m) (acknowledged : Bool) : Report :=
  if m.addresses = [] then { finalStatusList := some [] }
  else
    match recoveryContainer first m.addresses {} with
    | none => {}
    | some (g, sent) =>
      if sent = [] then { finalStatusList := some g.finalRecoveryStatusList }
      else
        match recoveryContainer second sent g with
        | none => {}
        | some (g, _) =>
          -- an empty list is taken for no list, so that no report has to be acknowledged
          if g.listToGl.dedup = [] ∨ acknowledged then
            { reported := g.listToGl.dedup
              finalStatusList := some g.finalRecoveryStatusList
              cleaned := g.cleanJournalFlag }
          else { reported := g.listToGl.dedup }

/-- Both phases were answered with 200. -/
def HandedOver (first second : Phase m) (a : Address) : Prop :=
  first.outcome a = .answered 200 ∧ second.outcome a = .answered 200

instance (first second : Phase m) (a : Address) : Decidable (HandedOver first second a) :=
  inferInstanceAs (Decidable (_ ∧ _))

/-- Only what was handed over is reported or marked, and the journals are cleaned only when all
of it was. -/
structure ReportsHandedOver (first second : Phase m) (r : Report) : Prop where
  reported : ∀ a ∈ m.addresses, ∀ c ∈ m.components a, ∀ dest, (c, dest) ∈ r.reported →
    HandedOver first second a
  marked : ∀ l, r.finalStatusList = some l → ∀ a ∈ m.addresses, ∀ c ∈ m.components a,
    (c, true) ∈ l → HandedOver first second a
  cleaned : r.cleaned → ∀ a ∈ m.addresses, m.components a ≠ [] → HandedOver first second a


variable {phase first second : Phase m} {nodes : List Address} {a : Address}

theorem mem_responses {r : Address × Nat} :
    r ∈ phase.responses nodes ↔
      r.1 ∈ m.addresses ∧ r.1 ∈ nodes ∧ phase.outcome r.1 = .answered r.2 := by
  obtain ⟨a, status⟩ := r
  have hmem : a ∈ phase.arrival ↔ a ∈ m.addresses := phase.arrival_perm.mem_iff
  have hstatus : (phase.outcome a).status = some status ↔ phase.outcome a = .answered status := by
    cases phase.outcome a <;> simp [Outcome.status]
  simp only [Phase.responses, List.mem_filterMap, List.mem_filter, decide_eq_true_eq,
    Option.map_eq_some_iff, Prod.mk.injEq]
  constructor
  · rintro ⟨a', ⟨harrival, hnode⟩, status', hs, rfl, rfl⟩
    exact ⟨phase.arrival_perm.mem_iff.mp harrival, hnode, by
      cases h : phase.outcome a' <;> simp_all [Outcome.status]⟩
  · rintro ⟨haddress, hnode, hs⟩
    exact ⟨a, ⟨hmem.mpr haddress, hnode⟩, status, hstatus.mpr hs, rfl, rfl⟩

/-- The destinations that answered, in the order of their responses. -/
def Phase.sent (phase : Phase m) (nodes : List Address) : List Address :=
  (phase.responses nodes).map Prod.fst

theorem mem_sent : a ∈ phase.sent nodes ↔
    a ∈ m.addresses ∧ a ∈ nodes ∧ (phase.outcome a).status.isSome := by
  rw [Phase.sent, List.mem_map]
  constructor
  · rintro ⟨r, hr, rfl⟩
    obtain ⟨haddress, hnode, houtcome⟩ := mem_responses.mp hr
    exact ⟨haddress, hnode, by rw [houtcome]; rfl⟩
  · rintro ⟨haddress, hnode, hanswered⟩
    obtain ⟨status, hstatus⟩ : ∃ status, phase.outcome a = .answered status := by
      cases h : phase.outcome a <;> simp_all [Outcome.status]
    exact ⟨(a, status), mem_responses.mpr ⟨haddress, hnode, hstatus⟩, rfl⟩

/-- The entries of the destinations that answered with 200. -/
def accepted (m : DestinationMap) (responses : List (Address × Nat)) : List (Component × Address) :=
  (responses.filter fun r => r.2 = 200).flatMap fun r => (m.components r.1).map fun c => (c, r.1)

theorem mem_accepted {responses : List (Address × Nat)} {e : Component × Address} :
    e ∈ accepted m responses ↔ (e.2, 200) ∈ responses ∧ e.1 ∈ m.components e.2 := by
  obtain ⟨c, a⟩ := e
  simp only [accepted, List.mem_flatMap, List.mem_filter, decide_eq_true_eq, List.mem_map,
    Prod.mk.injEq]
  constructor
  · rintro ⟨⟨a', status⟩, ⟨hr, rfl⟩, c', hc, rfl, rfl⟩
    exact ⟨hr, hc⟩
  · rintro ⟨hr, hc⟩
    exact ⟨(a, 200), ⟨hr, rfl⟩, c, hc, rfl, rfl⟩

theorem noteComponents_success (cs : List Component) (listToGl : List (Component × Address))
    (objId : Option Address) :
    noteComponents a 200 cs (listToGl, objId) =
      some (listToGl ++ cs.map fun c => (c, a), if cs = [] then objId else some a) := by
  induction cs generalizing listToGl objId with
  | nil => simp [noteComponents]
  | cons c cs ih =>
    rw [noteComponents.eq_def]
    simp only [if_pos, ih]
    simp

/-- With `obj_id` left by another destination nothing is found to be removed. -/
theorem noteComponents_failure {status : Nat} (hstatus : status ≠ 200) {b : Address}
    (cs : List Component) {listToGl : List (Component × Address)}
    (habsent : ∀ c ∈ cs, (c, b) ∉ listToGl) :
    noteComponents a status cs (listToGl, some b) = some (listToGl, some b) := by
  induction cs with
  | nil => rfl
  | cons c cs ih =>
    rw [noteComponents, if_neg hstatus]
    rw [List.erase_of_not_mem (habsent c List.mem_cons_self)]
    exact ih fun c' hc' => habsent c' (List.mem_cons_of_mem _ hc')

/-- Every entry names a component of its destination. -/
def Placed (m : DestinationMap) (listToGl : List (Component × Address)) : Prop :=
  ∀ e ∈ listToGl, e.2 ∈ m.addresses ∧ e.1 ∈ m.components e.2

theorem Placed.accept {listToGl : List (Component × Address)} (h : Placed m listToGl)
    (ha : a ∈ m.addresses) : Placed m (listToGl ++ (m.components a).map fun c => (c, a)) := by
  intro e he
  rcases List.mem_append.mp he with he | he
  · exact h e he
  · obtain ⟨c, hc, rfl⟩ := List.mem_map.mp he
    exact ⟨ha, hc⟩

/-- The first destination with components to answer did not answer with 200. -/
def FirstRefused (m : DestinationMap) (responses : List (Address × Nat)) : Prop :=
  ∃ r, responses.find? (fun r => m.components r.1 ≠ []) = some r ∧ r.2 ≠ 200

section Responses

variable {outcome : Address → Outcome} {responses : List (Address × Nat)}
  {listToGl : List (Component × Address)}

/-- Once `obj_id` names a destination that answered with 200, no response ends the process and
none takes an entry away. -/
theorem noteResponses_bound
    (hresponses : ∀ r ∈ responses, r.1 ∈ m.addresses ∧ outcome r.1 = .answered r.2)
    (hplaced : Placed m listToGl) {b : Address} (hb : b ∈ m.addresses)
    (hok : outcome b = .answered 200) :
    ∃ objId, responses.foldlM (noteResponse m) (listToGl, some b) =
      some (listToGl ++ accepted m responses, objId) := by
  induction responses generalizing listToGl b with
  | nil => exact ⟨some b, by simp [accepted]⟩
  | cons r responses ih =>
    obtain ⟨a, status⟩ := r
    obtain ⟨⟨ha, houtcome⟩, hrest⟩ := List.forall_mem_cons.mp hresponses
    rw [List.foldlM_cons, noteResponse]
    by_cases hstatus : status = 200
    · subst hstatus
      rw [noteComponents_success]
      by_cases hnone : m.components a = []
      · obtain ⟨objId, hrun⟩ := ih hrest hplaced hb hok
        exact ⟨objId, by simpa [hnone, accepted] using hrun⟩
      · obtain ⟨objId, hrun⟩ := ih hrest (hplaced.accept ha) ha houtcome
        exact ⟨objId, by simpa [hnone, accepted] using hrun⟩
    · have habsent : ∀ c ∈ m.components a, (c, b) ∉ listToGl := by
        intro c hc hin
        have hsame := m.components_once a ha b hb c hc (hplaced _ hin).2
        rw [hsame, hok] at houtcome
        exact hstatus (Outcome.answered.inj houtcome).symm
      rw [noteComponents_failure hstatus _ habsent]
      obtain ⟨objId, hrun⟩ := ih hrest hplaced hb hok
      exact ⟨objId, by simpa [hstatus, accepted] using hrun⟩

/-- With `obj_id` unbound, the first response that concerns a component decides. -/
theorem noteResponses_unbound
    (hresponses : ∀ r ∈ responses, r.1 ∈ m.addresses ∧ outcome r.1 = .answered r.2)
    (hplaced : Placed m listToGl) :
    (FirstRefused m responses →
      responses.foldlM (noteResponse m) (listToGl, none) = none) ∧
    (¬FirstRefused m responses →
      ∃ objId, responses.foldlM (noteResponse m) (listToGl, none) =
        some (listToGl ++ accepted m responses, objId)) := by
  induction responses with
  | nil => exact ⟨fun ⟨r, hr, _⟩ => by simp at hr, fun _ => ⟨none, by simp [accepted]⟩⟩
  | cons r responses ih =>
    obtain ⟨a, status⟩ := r
    obtain ⟨⟨ha, houtcome⟩, hrest⟩ := List.forall_mem_cons.mp hresponses
    rw [List.foldlM_cons, noteResponse]
    by_cases hnone : m.components a = []
    · have hsame : FirstRefused m ((a, status) :: responses) ↔ FirstRefused m responses := by
        simp [FirstRefused, hnone]
      have haccepted : accepted m ((a, status) :: responses) = accepted m responses := by
        by_cases hstatus : status = 200 <;> simp [accepted, hstatus, hnone]
      rw [hsame, haccepted]
      simpa [hnone, noteComponents] using ih hrest
    · have hfirst : FirstRefused m ((a, status) :: responses) ↔ status ≠ 200 := by
        simp [FirstRefused, hnone]
      rw [hfirst]
      refine ⟨fun hstatus => ?_, fun hstatus => ?_⟩
      · obtain ⟨c, cs, hcs⟩ := List.exists_cons_of_ne_nil hnone
        simp [hcs, noteComponents, hstatus]
      · rw [not_not] at hstatus
        subst hstatus
        obtain ⟨objId, hrun⟩ := noteResponses_bound hrest (hplaced.accept ha) ha houtcome
        rw [noteComponents_success]
        exact ⟨objId, by simpa [hnone, accepted] using hrun⟩

theorem components_nil_of_accepted_nil (hfirst : ¬FirstRefused m responses)
    (hnone : accepted m responses = []) : ∀ r ∈ responses, m.components r.1 = [] := by
  by_contra h
  push Not at h
  obtain ⟨r, hr, hcs⟩ := h
  obtain ⟨r', hfind⟩ : ∃ r', responses.find? (fun r => m.components r.1 ≠ []) = some r' := by
    rw [← Option.isSome_iff_exists, List.find?_isSome]
    exact ⟨r, hr, by simpa using hcs⟩
  have hmem := List.mem_of_find?_eq_some hfind
  have hcs' : m.components r'.1 ≠ [] := by simpa using List.find?_some hfind
  have hok : r'.2 = 200 := by
    by_contra hstatus
    exact hfirst ⟨r', hfind, hstatus⟩
  obtain ⟨c, rest, hc⟩ := List.exists_cons_of_ne_nil hcs'
  have hin : (c, r'.1) ∈ accepted m responses :=
    mem_accepted.mpr ⟨by rw [← hok]; exact hmem, by simp [hc]⟩
  rw [hnone] at hin
  cases hin

end Responses


/-- The phase ends the process: no version, a send that fails, a timeout, or a first response that
is refused. -/
def Phase.Stops (phase : Phase m) (nodes : List Address) : Prop :=
  (∃ a ∈ nodes, (phase.outcome a).stops) ∨ FirstRefused m (phase.responses nodes)

theorem mem_statusEntries {sent : List Address} {c : Component} :
    (c, true) ∈ statusEntries m sent ↔ ∃ a ∈ m.addresses, c ∈ m.components a ∧ a ∈ sent := by
  simp only [statusEntries, List.mem_flatMap, List.mem_map, Prod.mk.injEq, decide_eq_true_eq]
  constructor
  · rintro ⟨a, ha, c', hc, rfl, hsent⟩
    exact ⟨a, ha, hc, hsent⟩
  · rintro ⟨a, ha, hc, hsent⟩
    exact ⟨a, ha, c, hc, rfl, hsent⟩

theorem sent_of_all_statusEntries {sent : List Address}
    (h : (statusEntries m sent).all Prod.snd = true) (ha : a ∈ m.addresses)
    (hcs : m.components a ≠ []) : a ∈ sent := by
  obtain ⟨c, cs, hc⟩ := List.exists_cons_of_ne_nil hcs
  have hin : (c, decide (a ∈ sent)) ∈ statusEntries m sent :=
    List.mem_flatMap.mpr ⟨a, ha, List.mem_map.mpr ⟨c, by simp [hc], rfl⟩⟩
  exact of_decide_eq_true (List.all_eq_true.mp h _ hin)

section Phases

variable {g : Globals}

theorem recoveryContainer_stops (hplaced : Placed m g.listToGl) (h : phase.Stops nodes) :
    recoveryContainer phase nodes g = none := by
  rw [recoveryContainer]
  rcases h with hstops | hrefused
  · rw [if_pos (List.any_eq_true.mpr hstops)]
  · split
    · rfl
    · have hresponses : ∀ r ∈ phase.responses nodes,
          r.1 ∈ m.addresses ∧ phase.outcome r.1 = .answered r.2 := fun r hr =>
        ⟨(mem_responses.mp hr).1, (mem_responses.mp hr).2.2⟩
      simp [getPutResponses, (noteResponses_unbound hresponses hplaced).1 hrefused]

/-- A phase that completes adds what was accepted and one status for each component. -/
theorem recoveryContainer_completes (hplaced : Placed m g.listToGl) (h : ¬phase.Stops nodes) :
    recoveryContainer phase nodes g = some
      ({ listToGl := g.listToGl ++ accepted m (phase.responses nodes)
         finalStatus := g.finalStatus && (statusEntries m (phase.sent nodes)).all Prod.snd
         finalRecoveryStatusList :=
           g.finalRecoveryStatusList ++ statusEntries m (phase.sent nodes)
         cleanJournalFlag := g.cleanJournalFlag &&
           (statusEntries m (phase.sent nodes)).all Prod.snd }, phase.sent nodes) := by
  obtain ⟨hstops, hrefused⟩ := not_or.mp h
  have hresponses : ∀ r ∈ phase.responses nodes,
      r.1 ∈ m.addresses ∧ phase.outcome r.1 = .answered r.2 := fun r hr =>
    ⟨(mem_responses.mp hr).1, (mem_responses.mp hr).2.2⟩
  obtain ⟨objId, hrun⟩ := (noteResponses_unbound hresponses hplaced).2 hrefused
  rw [recoveryContainer, if_neg fun hany => hstops (List.any_eq_true.mp hany)]
  simp [getPutResponses, hrun, Phase.sent]

theorem placed_accepted : Placed m (accepted m (phase.responses nodes)) := fun _ he =>
  ⟨(mem_responses.mp (mem_accepted.mp he).1).1, (mem_accepted.mp he).2⟩

end Phases

/-- Every destination with components that answered the first phase answered both with 200. -/
def AnsweredHandedOver (first second : Phase m) : Prop :=
  ∀ a ∈ m.addresses, m.components a ≠ [] → (first.outcome a).status.isSome →
    HandedOver first second a

/-- Every destination with components whose entries one phase accepted answered both with 200. -/
def AcceptedHandedOver (first second : Phase m) : Prop :=
  ∀ a ∈ m.addresses, m.components a ≠ [] →
    first.outcome a = .answered 200 ∨
      (first.outcome a).status.isSome ∧ second.outcome a = .answered 200 →
    HandedOver first second a

/-- When both phases complete, what is reported and marked is read off the responses. -/
theorem startRecovery_completes (hne : m.addresses ≠ []) (hfirst : ¬first.Stops m.addresses)
    (hsent : first.sent m.addresses ≠ [])
    (hsecond : ¬second.Stops (first.sent m.addresses)) (acknowledged : Bool) :
    startRecovery m first second acknowledged =
      let value := (accepted m (first.responses m.addresses) ++
        accepted m (second.responses (first.sent m.addresses))).dedup
      if value = [] ∨ acknowledged then
        { reported := value
          finalStatusList := some (statusEntries m (first.sent m.addresses) ++
            statusEntries m (second.sent (first.sent m.addresses)))
          cleaned := (statusEntries m (first.sent m.addresses)).all Prod.snd &&
            (statusEntries m (second.sent (first.sent m.addresses))).all Prod.snd }
      else { reported := value } := by
  have hempty : Placed m ({} : Globals).listToGl := fun _ he => by cases he
  rw [startRecovery, if_neg hne, recoveryContainer_completes hempty hfirst]
  simp only [if_neg hsent]
  rw [recoveryContainer_completes (by simpa using placed_accepted) hsecond]
  simp

theorem startRecovery_first_stops (h : first.Stops m.addresses) (hne : m.addresses ≠ [])
    (acknowledged : Bool) : startRecovery m first second acknowledged = {} := by
  have hempty : Placed m ({} : Globals).listToGl := fun _ he => by cases he
  rw [startRecovery, if_neg hne, recoveryContainer_stops hempty h]

theorem startRecovery_second_stops (hne : m.addresses ≠ []) (hfirst : ¬first.Stops m.addresses)
    (hsent : first.sent m.addresses ≠ []) (h : second.Stops (first.sent m.addresses))
    (acknowledged : Bool) : startRecovery m first second acknowledged = {} := by
  have hempty : Placed m ({} : Globals).listToGl := fun _ he => by cases he
  rw [startRecovery, if_neg hne, recoveryContainer_completes hempty hfirst]
  simp only [if_neg hsent]
  rw [recoveryContainer_stops (by simpa using placed_accepted) h]

theorem startRecovery_none_sent (hne : m.addresses ≠ []) (hfirst : ¬first.Stops m.addresses)
    (hsent : first.sent m.addresses = []) (acknowledged : Bool) :
    startRecovery m first second acknowledged =
      { finalStatusList := some (statusEntries m []) } := by
  have hempty : Placed m ({} : Globals).listToGl := fun _ he => by cases he
  rw [startRecovery, if_neg hne, recoveryContainer_completes hempty hfirst]
  simp [hsent]

/-- A process that ended early has reported nothing. -/
theorem reportsHandedOver_empty : ReportsHandedOver first second {} where
  reported _ _ _ _ _ h := by cases h
  marked _ h := by cases h
  cleaned h := by cases h


theorem not_mem_statusEntries_nil {c : Component} : (c, true) ∉ statusEntries m [] := fun h => by
  obtain ⟨a, -, -, hsent⟩ := mem_statusEntries.mp h
  cases hsent

theorem mem_accepted_phases {e : Component × Address} :
    e ∈ accepted m (first.responses m.addresses) ++
        accepted m (second.responses (first.sent m.addresses)) ↔
      e.2 ∈ m.addresses ∧ e.1 ∈ m.components e.2 ∧
        (first.outcome e.2 = .answered 200 ∨
          (first.outcome e.2).status.isSome ∧ second.outcome e.2 = .answered 200) := by
  rw [List.mem_append, mem_accepted, mem_accepted, mem_responses, mem_responses, mem_sent]
  tauto

theorem AnsweredHandedOver.accepted (h : AnsweredHandedOver first second) :
    AcceptedHandedOver first second := by
  intro a ha hcs hor
  refine h a ha hcs ?_
  rcases hor with hok | ⟨hanswered, -⟩
  · rw [hok]
    rfl
  · exact hanswered

/-- Nothing accepted in a first phase that completed means that no component was asked for. -/
theorem answeredHandedOver_of_accepted_nil (hfirst : ¬first.Stops m.addresses)
    (hnone : NodeRecovery.accepted m (first.responses m.addresses) = []) :
    AnsweredHandedOver first second := by
  intro a ha hcs hanswered
  have hsent : a ∈ first.sent m.addresses := mem_sent.mpr ⟨ha, ha, hanswered⟩
  obtain ⟨r, hr, rfl⟩ := List.mem_map.mp hsent
  exact absurd (components_nil_of_accepted_nil (not_or.mp hfirst).2 hnone r hr) hcs

theorem AcceptedHandedOver.reported (h : AcceptedHandedOver first second) :
    ∀ a ∈ m.addresses, ∀ c ∈ m.components a, ∀ dest,
      (c, dest) ∈ (NodeRecovery.accepted m (first.responses m.addresses) ++
        NodeRecovery.accepted m (second.responses (first.sent m.addresses))).dedup →
      HandedOver first second a := by
  intro a ha c hc dest hin
  obtain ⟨hdest, hcdest, hor⟩ := mem_accepted_phases.mp (List.mem_dedup.mp hin)
  obtain rfl := m.components_once dest hdest a ha c hcdest hc
  exact h dest hdest (List.ne_nil_of_mem hcdest) hor

/-- With the final status list sent, everything that was answered counts. -/
theorem reportsHandedOver_sent :
    ReportsHandedOver first second
      { reported := (NodeRecovery.accepted m (first.responses m.addresses) ++
          NodeRecovery.accepted m (second.responses (first.sent m.addresses))).dedup
        finalStatusList := some (statusEntries m (first.sent m.addresses) ++
          statusEntries m (second.sent (first.sent m.addresses)))
        cleaned := (statusEntries m (first.sent m.addresses)).all Prod.snd &&
          (statusEntries m (second.sent (first.sent m.addresses))).all Prod.snd } ↔
      AnsweredHandedOver first second := by
  constructor
  · intro h a ha hcs hanswered
    obtain ⟨c, cs, hc⟩ := List.exists_cons_of_ne_nil hcs
    have hin : c ∈ m.components a := by simp [hc]
    refine h.marked _ rfl a ha c hin (List.mem_append_left _ ?_)
    exact mem_statusEntries.mpr ⟨a, ha, hin, mem_sent.mpr ⟨ha, ha, hanswered⟩⟩
  · intro hall
    refine ⟨hall.accepted.reported, ?_, ?_⟩
    · intro l hl a ha c hc hin
      obtain rfl := Option.some.inj hl
      have hanswered : a ∈ first.sent m.addresses := by
        rcases List.mem_append.mp hin with hin | hin
        · obtain ⟨a', ha', hc', hsent'⟩ := mem_statusEntries.mp hin
          obtain rfl := m.components_once a' ha' a ha c hc' hc
          exact hsent'
        · obtain ⟨a', ha', hc', hsent'⟩ := mem_statusEntries.mp hin
          obtain rfl := m.components_once a' ha' a ha c hc' hc
          exact (mem_sent.mp hsent').2.1
      exact hall a ha (List.ne_nil_of_mem hc) (mem_sent.mp hanswered).2.2
    · intro hcleaned a ha hcs
      have hclean := (Bool.and_eq_true _ _).mp hcleaned
      have hin := sent_of_all_statusEntries hclean.1 ha hcs
      exact hall a ha hcs (mem_sent.mp hin).2.2

/-- When the leader takes no report the process exits before the final status list. -/
theorem reportsHandedOver_refused :
    ReportsHandedOver first second
      { reported := (NodeRecovery.accepted m (first.responses m.addresses) ++
          NodeRecovery.accepted m (second.responses (first.sent m.addresses))).dedup } ↔
      AcceptedHandedOver first second := by
  constructor
  · intro h a ha hcs hor
    obtain ⟨c, cs, hc⟩ := List.exists_cons_of_ne_nil hcs
    have hin : c ∈ m.components a := by simp [hc]
    refine h.reported a ha c hin a (List.mem_dedup.mpr ?_)
    exact mem_accepted_phases.mpr ⟨ha, hin, hor⟩
  · intro haccepted
    refine ⟨haccepted.reported, ?_, ?_⟩
    · intro _ hl
      cases hl
    · intro hcleaned
      cases hcleaned

theorem reportsHandedOver_none_sent (hsent : first.sent m.addresses = []) :
    AnsweredHandedOver first second ∧
      ReportsHandedOver first second { finalStatusList := some (statusEntries m []) } := by
  constructor
  · intro a ha _ hanswered
    have hin : a ∈ first.sent m.addresses := mem_sent.mpr ⟨ha, ha, hanswered⟩
    rw [hsent] at hin
    cases hin
  · refine ⟨?_, ?_, ?_⟩
    · intro _ _ _ _ _ hin
      cases hin
    · intro l hl _ _ c _ hin
      obtain rfl := Option.some.inj hl
      exact absurd hin not_mem_statusEntries_nil
    · intro hcleaned
      cases hcleaned

/-- Recovery reports only what was handed over exactly when it ends early, when everything that was
answered at all was handed over, or when the leader takes no report and everything accepted in one
phase was handed over. -/
theorem recovery_reports_handed_over (m : DestinationMap) (first second : Phase m)
    (acknowledged : Bool) :
    ReportsHandedOver first second (startRecovery m first second acknowledged) ↔
      first.Stops m.addresses ∨ second.Stops (first.sent m.addresses) ∨
        AnsweredHandedOver first second ∨
        acknowledged = false ∧ AcceptedHandedOver first second := by
  by_cases hne : m.addresses = []
  · have hreport : startRecovery m first second acknowledged =
        { finalStatusList := some (statusEntries m []) } := by
      rw [startRecovery, if_pos hne, statusEntries, hne]
      rfl
    have hsent : first.sent m.addresses = [] := by
      rw [hne]
      simp [Phase.sent, Phase.responses]
    obtain ⟨hall, hreports⟩ : AnsweredHandedOver first second ∧ _ :=
      reportsHandedOver_none_sent hsent
    rw [hreport]
    exact iff_of_true hreports (.inr (.inr (.inl hall)))
  by_cases hfirst : first.Stops m.addresses
  · rw [startRecovery_first_stops hfirst hne]
    exact iff_of_true reportsHandedOver_empty (.inl hfirst)
  by_cases hsent : first.sent m.addresses = []
  · obtain ⟨hall, hreports⟩ : AnsweredHandedOver first second ∧ _ :=
      reportsHandedOver_none_sent hsent
    rw [startRecovery_none_sent hne hfirst hsent]
    exact iff_of_true hreports (.inr (.inr (.inl hall)))
  by_cases hsecond : second.Stops (first.sent m.addresses)
  · rw [startRecovery_second_stops hne hfirst hsent hsecond]
    exact iff_of_true reportsHandedOver_empty (.inr (.inl hsecond))
  rw [startRecovery_completes hne hfirst hsent hsecond]
  simp only [hfirst, hsecond, false_or]
  split
  case isTrue hvalue =>
    rw [reportsHandedOver_sent]
    refine ⟨.inl, fun h => ?_⟩
    rcases h with hall | ⟨hrefused, -⟩
    · exact hall
    · have hnone : (NodeRecovery.accepted m (first.responses m.addresses) ++
          NodeRecovery.accepted m (second.responses (first.sent m.addresses))).dedup = [] := by
        simpa [hrefused] using hvalue
      rw [List.dedup_eq_nil, List.append_eq_nil_iff] at hnone
      exact answeredHandedOver_of_accepted_nil hfirst hnone.1
  case isFalse hvalue =>
    rw [reportsHandedOver_refused]
    have hrefused : acknowledged = false := by simpa using (not_or.mp hvalue).2
    refine ⟨fun h => .inr ⟨hrefused, h⟩, fun h => ?_⟩
    rcases h with hall | ⟨-, haccepted⟩
    · exact hall.accepted
    · exact haccepted

/-- Two destinations with one component each. -/
def twoDestinations : DestinationMap where
  addresses := ["10.0.0.1:61007", "10.0.0.2:61007"]
  components a := if a = "10.0.0.1:61007" then [1] else if a = "10.0.0.2:61007" then [2] else []
  addresses_nodup := by decide
  components_once := by decide

/-- Both destinations answer, the second one with the given status. -/
def bothAnswer (status : Nat) : Phase twoDestinations where
  outcome a := if a = "10.0.0.1:61007" then .answered 200 else .answered status
  arrival := ["10.0.0.1:61007", "10.0.0.2:61007"]
  arrival_perm := .refl _

/-- The second destination refuses the transaction data of its component. The component is
reported and marked, and the journals are cleaned. -/
theorem recovery_reports_refused :
    startRecovery twoDestinations (bothAnswer 200) (bothAnswer 500) true =
        { reported := [(2, "10.0.0.2:61007"), (1, "10.0.0.1:61007")]
          finalStatusList := some [(1, true), (2, true), (1, true), (2, true)]
          cleaned := true } ∧
      ¬ReportsHandedOver (bothAnswer 200) (bothAnswer 500)
        (startRecovery twoDestinations (bothAnswer 200) (bothAnswer 500) true) := by
  have hrun : startRecovery twoDestinations (bothAnswer 200) (bothAnswer 500) true =
      { reported := [(2, "10.0.0.2:61007"), (1, "10.0.0.1:61007")]
        finalStatusList := some [(1, true), (2, true), (1, true), (2, true)]
        cleaned := true } := by
    decide +kernel
  refine ⟨hrun, fun h => ?_⟩
  have hhanded := h.cleaned (by rw [hrun]) "10.0.0.2:61007" (by decide) (by decide)
  exact absurd hhanded.2 (by decide)

end ObjectStorage.Service.NodeRecovery
