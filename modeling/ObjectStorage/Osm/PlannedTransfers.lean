import ObjectStorage.Library.Transition
import ObjectStorage.Osm.ComponentMap

/-!
Runs of planning, reported transfers and merges: which component is owned by whom, and which
transfers are still planned.
-/

namespace ObjectStorage.Osm

open Std Library

namespace ComponentMapManager

def addEntryInGlobalPlannedMap (m : ComponentMapManager) (service : String) (component : Int)
    (record : ComponentInfoRecord) : ComponentMapManager :=
  match m.plannedMap[service]? with
  | some entries =>
      { m with plannedMap := m.plannedMap.insert service (entries ++ [(component, record)]) }
  | none => { m with plannedMap := m.plannedMap.insert service [(component, record)] }

/-- Erases the first entry for the component, whatever its destination. -/
def removeEntryFromGlobalPlannedMap (m : ComponentMapManager) (service : String)
    (component : Int) : Bool × ComponentMapManager :=
  match m.plannedMap[service]? with
  | some entries =>
      let left := entries.eraseP fun e => e.1 = component
      (entries.any fun e => e.1 = component, { m with
        plannedMap := if left.isEmpty then m.plannedMap.erase service
          else m.plannedMap.insert service left })
  -- the source compares two words behind the map here and erases nothing
  | none => (false, m)

def isGlobalPlannedEmpty (m : ComponentMapManager) (service : String) : Bool :=
  m.plannedMap[service]?.isNone

def pushTransferred (m : ComponentMapManager) (service : String)
    (e : Int × ComponentInfoRecord) : ComponentMapManager :=
  match m.transientMap[service]? with
  | some (entries, version) =>
      { m with transientMap := m.transientMap.insert service (entries ++ [e], version) }
  | none => { m with transientMap := m.transientMap.insert service ([e], 0) }

/-- The loop body of `update_transient_map`. -/
def transferComponent (service : String) (acc : ComponentMapManager × Transfers)
    (e : Int × ComponentInfoRecord) : ComponentMapManager × Transfers :=
  let (status, m) := acc.1.removeEntryFromGlobalPlannedMap service e.1
  if status then (m.pushTransferred service e, acc.2 ++ [e]) else (m, acc.2)

def raiseVersions (m : ComponentMapManager) (service : String) : ComponentMapManager :=
  match m.transientMap[service]? with
  | some (entries, version) =>
      { m with
        transientMap := m.transientMap.insert service (entries, version + 1 / 10)
        transientMapVersion := m.transientMapVersion + 1 / 10000 }
  | none => m

def updateTransientMap (m : ComponentMapManager) (service : String) (transferred : Transfers) :
    (Transfers × Bool) × ComponentMapManager :=
  match m.plannedMap[service]? with
  | some _ =>
      let (m, actual) := transferred.foldl (transferComponent service) (m, [])
      ((actual, ! decide (actual.length < transferred.length)), m.raiseVersions service)
  | none => (([], ! decide (0 < transferred.length)), m)

def plannedFor (m : ComponentMapManager) (service : String) : Transfers :=
  m.plannedMap[service]?.getD []

def transfersFor (m : ComponentMapManager) (service : String) : Transfers :=
  (m.transientMap[service]?.map (·.1)).getD []

/-- The owner of a component of a service in the global map. -/
def owner (m : ComponentMapManager) (service : String) (component : Nat) :
    Option ComponentInfoRecord :=
  m.getGlobalMap.bind fun g => g.1[service]?.bind fun entry => entry.1[component]?

variable {m m' : ComponentMapManager} {service : String}

@[simp] theorem plannedFor_add (m : ComponentMapManager) (service : String) (component : Int)
    (record : ComponentInfoRecord) (s : String) :
    (m.addEntryInGlobalPlannedMap service component record).plannedFor s =
      if service = s then m.plannedFor service ++ [(component, record)] else m.plannedFor s := by
  unfold addEntryInGlobalPlannedMap plannedFor
  cases h : m.plannedMap[service]? with
  | none => by_cases hs : service = s <;> simp [hs]
  | some entries => by_cases hs : service = s <;> simp [hs]

@[simp] theorem basicMap_add (m : ComponentMapManager) (service : String) (component : Int)
    (record : ComponentInfoRecord) :
    (m.addEntryInGlobalPlannedMap service component record).basicMap = m.basicMap := by
  unfold addEntryInGlobalPlannedMap
  split <;> rfl

@[simp] theorem getGlobalMap_add (m : ComponentMapManager) (service : String) (component : Int)
    (record : ComponentInfoRecord) :
    (m.addEntryInGlobalPlannedMap service component record).getGlobalMap = m.getGlobalMap := by
  unfold addEntryInGlobalPlannedMap
  split <;> rfl

theorem remove_spec (m : ComponentMapManager) (service : String) (component : Int) :
    ∃ planned, m.removeEntryFromGlobalPlannedMap service component =
        (decide (component ∈ (m.plannedFor service).map (·.1)), { m with plannedMap := planned }) ∧
      ∀ s, ({ m with plannedMap := planned } : ComponentMapManager).plannedFor s =
        if service = s then (m.plannedFor service).eraseP fun e => e.1 = component
        else m.plannedFor s := by
  unfold removeEntryFromGlobalPlannedMap plannedFor
  cases h : m.plannedMap[service]? with
  | none =>
      refine ⟨m.plannedMap, by simp, fun s => ?_⟩
      by_cases hs : service = s
      · simp [← hs, h]
      · simp [hs]
  | some entries =>
      refine ⟨_, Prod.ext ?_ rfl, fun s => ?_⟩
      · simp [List.any_eq]
      · by_cases hempty : entries.eraseP (fun e => decide (e.1 = component)) = []
        · by_cases hs : service = s <;> simp [hs, hempty]
        · by_cases hs : service = s <;> simp [hs, hempty]

/-- What reports of transfers change: entries leave the plan of the service, and the transfers
that were planned are added to its transient entries. -/
structure Transferred (m : ComponentMapManager) (service : String) (left settled : Transfers)
    (m' : ComponentMapManager) : Prop where
  basicMap : m'.basicMap = m.basicMap
  componentInfoFiles : m'.componentInfoFiles = m.componentInfoFiles
  globalMapVersion : m'.globalMapVersion = m.globalMapVersion
  plannedFor : ∀ s, m'.plannedFor s = if service = s then left else m.plannedFor s
  transfersFor : ∀ s, m'.transfersFor s =
    if service = s then m.transfersFor service ++ settled else m.transfersFor s

theorem Transferred.refl (m : ComponentMapManager) (service : String) :
    Transferred m service (m.plannedFor service) [] m where
  basicMap := rfl
  componentInfoFiles := rfl
  globalMapVersion := rfl
  plannedFor s := by
    by_cases hs : service = s
    · simp [hs]
    · simp [hs]
  transfersFor s := by
    by_cases hs : service = s
    · simp [hs]
    · simp [hs]

theorem Transferred.trans {m m₁ m₂ : ComponentMapManager}
    {left₁ left₂ settled₁ settled₂ : Transfers}
    (h₁ : Transferred m service left₁ settled₁ m₁)
    (h₂ : Transferred m₁ service left₂ settled₂ m₂) :
    Transferred m service left₂ (settled₁ ++ settled₂) m₂ where
  basicMap := h₂.basicMap.trans h₁.basicMap
  componentInfoFiles := h₂.componentInfoFiles.trans h₁.componentInfoFiles
  globalMapVersion := h₂.globalMapVersion.trans h₁.globalMapVersion
  plannedFor s := by
    rw [h₂.plannedFor, h₁.plannedFor]
    by_cases hs : service = s <;> simp [hs]
  transfersFor s := by
    rw [h₂.transfersFor, h₁.transfersFor, h₁.transfersFor]
    by_cases hs : service = s <;> simp [hs]

theorem Transferred.push (m : ComponentMapManager) (service : String)
    (e : Int × ComponentInfoRecord) :
    Transferred m service (m.plannedFor service) [e] (m.pushTransferred service e) := by
  have hplanned : ∀ s, m.plannedFor s =
      if service = s then m.plannedFor service else m.plannedFor s :=
    (Transferred.refl m service).plannedFor
  unfold pushTransferred
  rcases ht : m.transientMap[service]? with _ | ⟨entries, version⟩
  · refine ⟨rfl, rfl, rfl, hplanned, fun s => ?_⟩
    by_cases hs : service = s
    · subst hs
      simp [ComponentMapManager.transfersFor, ht]
    · simp [ComponentMapManager.transfersFor, hs]
  · refine ⟨rfl, rfl, rfl, hplanned, fun s => ?_⟩
    by_cases hs : service = s
    · subst hs
      simp [ComponentMapManager.transfersFor, ht]
    · simp [ComponentMapManager.transfersFor, hs]

theorem Transferred.raise (m : ComponentMapManager) (service : String) :
    Transferred m service (m.plannedFor service) [] (m.raiseVersions service) := by
  have hrefl := Transferred.refl m service
  unfold raiseVersions
  rcases ht : m.transientMap[service]? with _ | ⟨entries, version⟩
  · exact hrefl
  · refine ⟨rfl, rfl, rfl, hrefl.plannedFor, fun s => ?_⟩
    by_cases hs : service = s
    · subst hs
      simp [ComponentMapManager.transfersFor, ht]
    · simp [ComponentMapManager.transfersFor, hs]

theorem transferComponent_spec (m : ComponentMapManager) (service : String) (actual : Transfers)
    (e : Int × ComponentInfoRecord) :
    ∃ m', transferComponent service (m, actual) e =
        (m', actual ++ if e.1 ∈ (m.plannedFor service).map (·.1) then [e] else []) ∧
      Transferred m service ((m.plannedFor service).eraseP fun p => p.1 = e.1)
        (if e.1 ∈ (m.plannedFor service).map (·.1) then [e] else []) m' := by
  obtain ⟨planned, hremove, hplanned⟩ := m.remove_spec service e.1
  let m₁ : ComponentMapManager := { m with plannedMap := planned }
  have hm₁ : Transferred m service ((m.plannedFor service).eraseP fun p => p.1 = e.1) [] m₁ :=
    ⟨rfl, rfl, rfl, hplanned, (Transferred.refl m service).transfersFor⟩
  by_cases he : e.1 ∈ (m.plannedFor service).map (·.1)
  · refine ⟨m₁.pushTransferred service e, by simp [transferComponent, hremove, he, m₁], ?_⟩
    have hpush := hm₁.trans (.push m₁ service e)
    rw [hm₁.plannedFor, if_pos rfl] at hpush
    rw [if_pos he]
    exact hpush
  · rw [if_neg he]
    exact ⟨m₁, by simp [transferComponent, hremove, he, m₁], hm₁⟩

theorem foldl_transferComponent (m : ComponentMapManager) (service : String)
    (transferred actual : Transfers) :
    ∃ m', transferred.foldl (transferComponent service) (m, actual) =
        (m', actual ++ (settle (m.plannedFor service) transferred).2) ∧
      Transferred m service (settle (m.plannedFor service) transferred).1
        (settle (m.plannedFor service) transferred).2 m' := by
  induction transferred generalizing m actual with
  | nil => exact ⟨m, by simp [settle], .refl m service⟩
  | cons e transferred ih =>
      obtain ⟨m₁, hstep, hm₁⟩ := m.transferComponent_spec service actual e
      obtain ⟨m', hrest, hm'⟩ := ih m₁
        (actual ++ if e.1 ∈ (m.plannedFor service).map (·.1) then [e] else [])
      rw [List.foldl_cons, hstep, hrest]
      have hplanned : m₁.plannedFor service =
          (m.plannedFor service).eraseP fun p => p.1 = e.1 := by
        rw [hm₁.plannedFor, if_pos rfl]
      rw [hplanned] at hm' ⊢
      by_cases he : e.1 ∈ (m.plannedFor service).map (·.1)
      · have hsettle : settle (m.plannedFor service) (e :: transferred) =
            ((settle ((m.plannedFor service).eraseP fun p => p.1 = e.1) transferred).1,
              e :: (settle ((m.plannedFor service).eraseP fun p => p.1 = e.1) transferred).2) := by
          simp [settle, he]
        rw [if_pos he] at hm₁ ⊢
        rw [hsettle]
        exact ⟨m', by simp, hm₁.trans hm'⟩
      · have hkeep : ((m.plannedFor service).eraseP fun p => p.1 = e.1) = m.plannedFor service :=
          List.eraseP_of_forall_not fun p hp => by
            simpa using fun heq => he (List.mem_map.mpr ⟨p, hp, heq⟩)
        have hsettle : settle (m.plannedFor service) (e :: transferred) =
            settle (m.plannedFor service) transferred := by
          simp [settle, he]
        rw [hkeep] at hm'
        rw [if_neg he] at hm₁ ⊢
        rw [hsettle, hkeep]
        exact ⟨m', by simp, hm₁.trans hm'⟩

/-- The transfers that `update_transient_map` accepts are the reports that settle a planned entry
of the service. -/
theorem updateTransientMap_spec (m : ComponentMapManager) (service : String)
    (transferred : Transfers) :
    ∃ status m', m.updateTransientMap service transferred =
        (((settle (m.plannedFor service) transferred).2, status), m') ∧
      Transferred m service (settle (m.plannedFor service) transferred).1
        (settle (m.plannedFor service) transferred).2 m' := by
  cases hp : m.plannedMap[service]? with
  | none =>
      have hempty : m.plannedFor service = [] := by simp [plannedFor, hp]
      have hsettle : ∀ rs : Transfers, settle ([] : Transfers) rs = ([], []) := by
        intro rs
        induction rs with
        | nil => rfl
        | cons r rs ih => simpa [settle] using ih
      refine ⟨_, m, by simp only [updateTransientMap, hp, hempty, hsettle]; rfl, ?_⟩
      have hrefl := Transferred.refl m service
      rw [hempty] at hrefl ⊢
      rwa [hsettle]
  | some entries =>
      obtain ⟨m₁, hloop, hm₁⟩ := m.foldl_transferComponent service transferred []
      have hraise := hm₁.trans (.raise m₁ service)
      rw [hm₁.plannedFor, if_pos rfl, List.append_nil] at hraise
      exact ⟨_, _, by simp only [updateTransientMap, hp, hloop, List.nil_append]; rfl, hraise⟩

def basicOwners (m : ComponentMapManager) (service : String) : Option Owners :=
  m.basicMap[service]?.map (·.1)

/-- The owners of a service in the global map. -/
def owners (m : ComponentMapManager) (service : String) : Option Owners :=
  m.getGlobalMap.bind fun g => g.1[service]?.map (·.1)

/-- The transfers of a service over its basic owners, if it has any. -/
def overlaid (basic? : Option Owners) (transfers : Transfers) : Option (Option Owners) :=
  match basic? with
  | some basic => (overlay basic transfers).map some
  | none => some none

theorem globalEntry_owners (basic? : Option (Owners × Rat)) (entries? : Option (Transfers × Rat)) :
    (globalEntry basic? entries?).map (Option.map (·.1)) =
      overlaid (basic?.map (·.1)) ((entries?.map (·.1)).getD []) := by
  rcases basic? with _ | ⟨basic, version⟩
  · simp [globalEntry, overlaid]
  rcases entries? with _ | ⟨entries, increment⟩
  · simp [globalEntry, overlaid]
  · cases h : overlay basic entries <;> simp [globalEntry, overlaid, h]

/-- Every transfer of a merged service is about one of its components. -/
def TransfersInRange (m : ComponentMapManager) : Prop :=
  ∀ s ∈ mergedServices, ∀ basic ∈ m.basicOwners s, InRange basic.length (m.transfersFor s)

theorem overlaid_eq_none {basic? : Option Owners} {transfers : Transfers} :
    overlaid basic? transfers = none ↔
      ∃ basic ∈ basic?, ¬ InRange basic.length transfers := by
  cases basic? with
  | none => simp [overlaid]
  | some basic =>
      have hiff : (∃ ys, overlay basic transfers = some ys) ↔ InRange basic.length transfers :=
        overlay_isSome
      cases h : overlay basic transfers with
      | none =>
          have hnot : ¬ InRange basic.length transfers := fun hr => by
            obtain ⟨ys, hys⟩ := hiff.mpr hr
            rw [h] at hys
            cases hys
          simp [overlaid, h, hnot]
      | some ys => simp [overlaid, h, hiff.mp ⟨ys, h⟩]

theorem getGlobalMap_ne_none : m.getGlobalMap ≠ none ↔ m.TransfersInRange := by
  constructor
  · intro h s hs basic hbasic
    obtain ⟨⟨g, v⟩, hg⟩ := Option.ne_none_iff_exists'.mp h
    have hentry := (getGlobalMap_eq_some hg).1 s hs
    have hover := globalEntry_owners m.basicMap[s]? m.transientMap[s]?
    rw [hentry, Option.map_some] at hover
    refine Classical.byContradiction fun hnot => ?_
    have hnone := overlaid_eq_none.mpr ⟨basic, hbasic, hnot⟩
    exact Option.some_ne_none _ (hover.trans hnone)
  · intro h
    obtain ⟨g, hg⟩ := m.getGlobalMap_isSome fun s hs hnone => by
      have hover := globalEntry_owners m.basicMap[s]? m.transientMap[s]?
      rw [hnone, Option.map_none] at hover
      obtain ⟨basic, hbasic, hnot⟩ := overlaid_eq_none.mp hover.symm
      exact hnot (h s hs basic hbasic)
    rw [hg]
    exact Option.some_ne_none _

theorem owners_spec (h : m.TransfersInRange) (s : String) :
    (s ∈ mergedServices → overlaid (m.basicOwners s) (m.transfersFor s) = some (m.owners s)) ∧
      (s ∉ mergedServices → m.owners s = m.basicOwners s) := by
  obtain ⟨⟨g, v⟩, hg⟩ := Option.ne_none_iff_exists'.mp (getGlobalMap_ne_none.mpr h)
  have howners : m.owners s = g[s]?.map (·.1) := by simp [owners, hg]
  obtain ⟨hin, hout⟩ := getGlobalMap_eq_some hg
  rw [howners]
  refine ⟨fun hs => ?_, fun hs => ?_⟩
  · have hover := globalEntry_owners m.basicMap[s]? m.transientMap[s]?
    rw [hin s hs, Option.map_some] at hover
    exact hover.symm
  · rw [hout s hs, basicOwners]

theorem owner_eq (m : ComponentMapManager) (s : String) (c : Nat) :
    m.owner s c = (m.owners s).bind fun os => os[c]? := by
  unfold owner owners
  cases m.getGlobalMap with
  | none => rfl
  | some g => cases h : g.1[s]? <;> simp [h]

theorem length_owners (h : m.TransfersInRange) (s : String) :
    (m.owners s).map (·.length) = (m.basicOwners s).map (·.length) := by
  obtain ⟨hin, hout⟩ := owners_spec h s
  by_cases hs : s ∈ mergedServices
  · have hover := hin hs
    cases hb : m.basicOwners s with
    | none =>
        rw [hb] at hover
        simp [← Option.some.inj hover]
    | some basic =>
        rw [hb] at hover
        obtain ⟨ys, hys, hsome⟩ := Option.map_eq_some_iff.mp hover
        simp [← hsome, overlay_length hys]
  · rw [hout hs]

/-- A report gives the settled components to their reported destinations and no other. -/
theorem Transferred.owner {left settled : Transfers} (ht : Transferred m service left settled m')
    (h : m.TransfersInRange) (h' : m'.TransfersInRange) {s : String} {c : Nat}
    (hchange : m'.owner s c ≠ m.owner s c) :
    s = service ∧ ∃ d, lastAt settled c = some d ∧ m'.owner s c = some d := by
  have hbasic : m'.basicOwners s = m.basicOwners s := by
    simp [ComponentMapManager.basicOwners, ht.basicMap]
  obtain ⟨hin, hout⟩ := owners_spec h s
  obtain ⟨hin', hout'⟩ := owners_spec h' s
  rw [owner_eq, owner_eq] at hchange
  rw [owner_eq]
  by_cases hs : s ∈ mergedServices
  · have hover := hin hs
    have hover' := hin' hs
    rw [hbasic, ht.transfersFor] at hover'
    by_cases hserv : service = s
    · subst hserv
      refine ⟨rfl, ?_⟩
      rw [if_pos rfl] at hover'
      cases hb : m.basicOwners service with
      | none =>
          rw [hb] at hover hover'
          exact absurd (by rw [← Option.some.inj hover, ← Option.some.inj hover']) hchange
      | some basic =>
          rw [hb] at hover hover'
          obtain ⟨ys, hys, hsome⟩ := Option.map_eq_some_iff.mp hover
          obtain ⟨ys', hys', hsome'⟩ := Option.map_eq_some_iff.mp hover'
          rw [overlay_append, hys, Option.bind_some] at hys'
          rw [← hsome, ← hsome'] at hchange
          rw [← hsome']
          have hlen := overlay_length hys'
          by_cases hc : c < ys.length
          · have hget := overlay_getElem? hys' hc
            cases hlast : lastAt settled c with
            | none =>
                rw [hlast, Option.none_or] at hget
                exact absurd hget hchange
            | some d =>
                rw [hlast] at hget
                exact ⟨d, rfl, hget⟩
          · have hnone : ys[c]? = none := by simpa using hc
            have hnone' : ys'[c]? = none := by simpa [hlen] using hc
            exact absurd (hnone'.trans hnone.symm) hchange
    · rw [if_neg hserv] at hover'
      rw [Option.some.inj (hover.symm.trans hover')] at hchange
      exact absurd rfl hchange
  · rw [hout hs, hout' hs, hbasic] at hchange
    exact absurd rfl hchange

/-- A transfer is planned, transfers of a service are reported, or the maps are merged. -/
inductive PlanStep where
  | plan (service : String) (component : Int) (record : ComponentInfoRecord)
  | report (service : String) (transferred : Transfers)
  | merge

def planStep (m : ComponentMapManager) : PlanStep → Option ComponentMapManager
  | .plan service component record =>
      some (m.addEntryInGlobalPlannedMap service component record)
  | .report service transferred => some (m.updateTransientMap service transferred).2
  | .merge => m.mergeBasicAndTransientMap

/-- A plan is for a component of the service that has no plan yet, and the first report for a
planned component names the planned destination. -/
def PlanSafe (m : ComponentMapManager) : PlanStep → Prop
  | .plan service component _ =>
      component ∉ (m.plannedFor service).map (·.1) ∧
      ∃ basic ∈ m.basicOwners service, 0 ≤ component ∧ component < basic.length
  | .report service transferred => ∀ e ∈ m.plannedFor service,
      ∀ r ∈ transferred.find? (fun r => r.1 = e.1), r = e
  | .merge => True

instance (m : ComponentMapManager) : DecidablePred m.PlanSafe
  | .plan service component _ => inferInstanceAs (Decidable
      (component ∉ (m.plannedFor service).map (·.1) ∧
        ∃ basic ∈ m.basicOwners service, 0 ≤ component ∧ component < basic.length))
  | .report service transferred => inferInstanceAs (Decidable
      (∀ e ∈ m.plannedFor service, ∀ r ∈ transferred.find? (fun r => r.1 = e.1), r = e))
  | .merge => .isTrue trivial

/-- Every component has exactly one owner: the global map gives each service a list of owners, one
for each of its components. -/
def EachOwned (m₀ m : ComponentMapManager) : Prop :=
  m.getGlobalMap ≠ none ∧
    ∀ s, (m.owners s).map (·.length) = (m₀.basicOwners s).map (·.length)

def PlannedOnce (m : ComponentMapManager) : Prop :=
  ∀ s, ((m.plannedFor s).map (·.1)).Nodup

/-- A component changes owner when a reported transfer is the planned one, which leaves the plan. -/
def ChangesAsPlanned (m : ComponentMapManager) (a : PlanStep) (m' : ComponentMapManager) : Prop :=
  ∀ (s : String) (c : Nat), m'.owner s c ≠ m.owner s c →
    ∃ transferred d, a = .report s transferred ∧ ((c : Int), d) ∈ transferred ∧
      ((c : Int), d) ∈ m.plannedFor s ∧ m'.owner s c = some d ∧
      (c : Int) ∉ (m'.plannedFor s).map (·.1)

/-- The plans and the transfers are about components of their services, one plan for each. -/
structure Planned (m₀ m : ComponentMapManager) : Prop where
  sameLengths : ∀ s, (m.basicOwners s).map (·.length) = (m₀.basicOwners s).map (·.length)
  once : m.PlannedOnce
  inRange : ∀ s, ∀ basic ∈ m.basicOwners s, InRange basic.length (m.plannedFor s)
  transfersInRange : m.TransfersInRange

variable {m₀ : ComponentMapManager}

theorem planned_init (hplanned : m₀.plannedMap = ∅) (hdefined : m₀.getGlobalMap ≠ none) :
    Planned m₀ m₀ where
  sameLengths _ := rfl
  once s := by simp [plannedFor, hplanned]
  inRange s basic _ := by simp [plannedFor, hplanned, InRange]
  transfersInRange := getGlobalMap_ne_none.mp hdefined

theorem Planned.eachOwned (h : Planned m₀ m) : EachOwned m₀ m :=
  ⟨getGlobalMap_ne_none.mpr h.transfersInRange, fun s => by
    rw [length_owners h.transfersInRange, h.sameLengths]⟩

theorem Planned.plan (h : Planned m₀ m) {component : Int} {record : ComponentInfoRecord}
    (hsafe : m.PlanSafe (.plan service component record)) :
    Planned m₀ (m.addEntryInGlobalPlannedMap service component record) where
  sameLengths s := by simpa [basicOwners] using h.sameLengths s
  once s := by
    rw [plannedFor_add]
    by_cases hs : service = s
    · rw [if_pos hs, List.map_append, List.nodup_append]
      refine ⟨h.once service, by simp, fun a ha b hb => ?_⟩
      obtain rfl : b = component := by simpa using hb
      rintro rfl
      exact hsafe.1 ha
    · rw [if_neg hs]
      exact h.once s
  inRange s basic hbasic := by
    have hbasic : basic ∈ m.basicOwners s := by simpa [basicOwners] using hbasic
    rw [plannedFor_add]
    by_cases hs : service = s
    · subst hs
      obtain ⟨-, basic', hbasic', hrange⟩ := hsafe
      obtain rfl := Option.some.inj (hbasic'.symm.trans hbasic)
      rw [if_pos rfl]
      intro e he
      rcases List.mem_append.mp he with he | he
      · exact h.inRange service _ hbasic e he
      · obtain rfl := List.mem_singleton.mp he
        exact hrange
    · rw [if_neg hs]
      exact h.inRange s basic hbasic
  transfersInRange := by
    rw [← getGlobalMap_ne_none, getGlobalMap_add, getGlobalMap_ne_none]
    exact h.transfersInRange

theorem Planned.report (h : Planned m₀ m) {transferred : Transfers}
    (ht : Transferred m service (settle (m.plannedFor service) transferred).1
      (settle (m.plannedFor service) transferred).2 m') : Planned m₀ m' where
  sameLengths s := by simpa [basicOwners, ht.basicMap] using h.sameLengths s
  once s := by
    rw [ht.plannedFor]
    by_cases hs : service = s
    · rw [if_pos hs]
      exact (h.once service).sublist ((settle_left_sublist _ _).map _)
    · rw [if_neg hs]
      exact h.once s
  inRange s basic hbasic := by
    have hbasic : basic ∈ m.basicOwners s := by simpa [basicOwners, ht.basicMap] using hbasic
    rw [ht.plannedFor]
    by_cases hs : service = s
    · subst hs
      rw [if_pos rfl]
      exact fun e he => h.inRange service basic hbasic e ((settle_left_sublist _ _).subset he)
    · rw [if_neg hs]
      exact h.inRange s basic hbasic
  transfersInRange s hs basic hbasic := by
    have hbasic : basic ∈ m.basicOwners s := by simpa [basicOwners, ht.basicMap] using hbasic
    rw [ht.transfersFor]
    by_cases hserv : service = s
    · subst hserv
      rw [if_pos rfl]
      intro e he
      rcases List.mem_append.mp he with he | he
      · exact h.transfersInRange service hs basic hbasic e he
      · obtain ⟨p, hp, heq⟩ := List.mem_map.mp (mem_settled (h.once service) he).1
        have hrange := h.inRange service basic hbasic p hp
        rwa [heq] at hrange
    · rw [if_neg hserv]
      exact h.transfersInRange s hs basic hbasic

theorem merge_owners (h : m.TransfersInRange) :
    ∃ m', m.mergeBasicAndTransientMap = some m' ∧ Merged m m' ∧ m'.TransfersInRange ∧
      ∀ s, m'.owners s = m.owners s ∧ m'.basicOwners s = m.owners s := by
  obtain ⟨⟨g, v⟩, hg⟩ := Option.ne_none_iff_exists'.mp (getGlobalMap_ne_none.mpr h)
  obtain ⟨m', g', hmerge, hm', hg', hsame, -⟩ := merge_of_getGlobalMap hg
  obtain ⟨g₁, hg₁, hbasic⟩ := hm'.getGlobalMap
  obtain ⟨rfl, -⟩ := Prod.ext_iff.mp (Option.some.inj (hg'.symm.trans hg₁))
  exact ⟨m', hmerge, hm', getGlobalMap_ne_none.mp (hg' ▸ Option.some_ne_none _), fun s =>
    ⟨by simp [owners, hg, hg', hsame s], by simp [basicOwners, owners, ← hbasic, hg, hsame s]⟩⟩

theorem Planned.merge (h : Planned m₀ m) :
    ∃ m', m.mergeBasicAndTransientMap = some m' ∧ Planned m₀ m' ∧
      ∀ s, m'.owners s = m.owners s := by
  obtain ⟨m', hmerge, hm', hrange, howners⟩ := merge_owners h.transfersInRange
  have hlength : ∀ s, (m'.basicOwners s).map (·.length) = (m.basicOwners s).map (·.length) :=
    fun s => by rw [(howners s).2, length_owners h.transfersInRange]
  have hplanned : ∀ s, m'.plannedFor s = m.plannedFor s := fun s => by
    simp [plannedFor, hm'.plannedMap]
  refine ⟨m', hmerge, ⟨fun s => (hlength s).trans (h.sameLengths s), fun s => ?_,
    fun s basic hb => ?_, hrange⟩, fun s => (howners s).1⟩
  · rw [hplanned]
    exact h.once s
  · have hmap := (hlength s).symm
    rw [hb, Option.map_some] at hmap
    obtain ⟨basic', hb', hlen⟩ := Option.map_eq_some_iff.mp hmap
    rw [hplanned, ← hlen]
    exact h.inRange s basic' hb'

theorem Planned.step (h : Planned m₀ m) {a : PlanStep} (hsafe : m.PlanSafe a) :
    ∃ m', m.planStep a = some m' ∧ Planned m₀ m' ∧ ChangesAsPlanned m a m' := by
  cases a with
  | plan service component record =>
      refine ⟨_, rfl, h.plan hsafe, fun s c hchange => absurd ?_ hchange⟩
      simp [owner]
  | report service transferred =>
      obtain ⟨status, m', hupdate, ht⟩ := m.updateTransientMap_spec service transferred
      have hm' : Planned m₀ m' := h.report ht
      refine ⟨m', by rw [planStep, hupdate], hm', fun s c hchange => ?_⟩
      obtain ⟨rfl, d, hlast, howner⟩ := ht.owner h.transfersInRange hm'.transfersInRange hchange
      have hsettled := lastAt_mem hlast
      obtain ⟨hkey, hfind, hgone⟩ := mem_settled (h.once s) hsettled
      obtain ⟨e, he, hec⟩ := List.mem_map.mp hkey
      have hmatch : ((c : Int), d) = e := hsafe e he _ (by rw [hec]; exact hfind)
      refine ⟨transferred, d, rfl, (settled_sublist _ _).subset hsettled, hmatch ▸ he, howner, ?_⟩
      rw [ht.plannedFor, if_pos rfl]
      exact hgone
  | merge =>
      obtain ⟨m', hmerge, hm', howners⟩ := h.merge
      refine ⟨m', hmerge, hm', fun s c hchange => absurd ?_ hchange⟩
      rw [owner_eq, owner_eq, howners]

/-- Over every run of planning, reports that name the planned destinations, and merges: each
component has one owner and at most one plan, and changes owner only as planned. -/
theorem run_changes_owners_as_planned (hplanned : m₀.plannedMap = ∅)
    (hdefined : m₀.getGlobalMap ≠ none) {as : List PlanStep}
    (hsafe : Along planStep PlanSafe m₀ as) :
    ∃ m, run planStep m₀ as = some m ∧ EachOwned m₀ m ∧ m.PlannedOnce ∧
      ∀ a, m.PlanSafe a → ∃ m', m.planStep a = some m' ∧ ChangesAsPlanned m a m' := by
  obtain ⟨m, hrun, hm⟩ := run_invariant planStep (fun m a (hm : Planned m₀ m) ha => by
    obtain ⟨m', hstep, hm', -⟩ := hm.step ha
    exact ⟨m', hstep, hm'⟩) (planned_init hplanned hdefined) hsafe
  refine ⟨m, hrun, hm.eachOwned, hm.once, fun a ha => ?_⟩
  obtain ⟨m', hstep, -, hchanges⟩ := hm.step ha
  exact ⟨m', hstep, hchanges⟩

/-- Two container components of one owner, nothing transferred or planned. -/
def settled : ComponentMapManager :=
  { withTransfers [] with transientMap := ∅, transientMapVersion := 0 }

theorem run_changes_owners_planned_report :
    ∃ m, run planStep settled [.plan containerService 0 otherOwner,
        .report containerService [(0, otherOwner)]] = some m ∧
      EachOwned settled m ∧ m.PlannedOnce ∧
      ∀ a, m.PlanSafe a → ∃ m', m.planStep a = some m' ∧ ChangesAsPlanned m a m' :=
  run_changes_owners_as_planned rfl (by decide +kernel) (by
    refine ⟨by decide +kernel, fun s' hs' => ?_⟩
    obtain rfl := Option.some.inj hs'
    exact ⟨by decide +kernel, fun _ _ => trivial⟩)

def thirdOwner : ComponentInfoRecord := ⟨"node3_container-server", "10.0.0.3", 61006⟩

/-- A report of a transfer to a destination that is not the planned one changes the owner. -/
theorem stale_report_changes_owner :
    ∃ m m', run planStep settled [.plan containerService 0 otherOwner] = some m ∧
      m.planStep (.report containerService [(0, thirdOwner)]) = some m' ∧
      ¬ ChangesAsPlanned m (.report containerService [(0, thirdOwner)]) m' := by
  refine ⟨_, _, rfl, rfl, fun hchanges => ?_⟩
  obtain ⟨transferred, d, ha, hmem, hplanned, -⟩ := hchanges containerService 0 (by decide +kernel)
  obtain ⟨-, rfl⟩ := PlanStep.report.inj ha
  obtain rfl : d = thirdOwner := by simpa using hmem
  exact absurd hplanned (by decide +kernel)

end ComponentMapManager

end ObjectStorage.Osm
