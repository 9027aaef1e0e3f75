import Mathlib.Algebra.Order.Field.Rat
import Mathlib.Tactic.Linarith
import Mathlib.Tactic.Ring
import ObjectStorage.Library.OrderedMap
import ObjectStorage.Library.Overlay

/-!
The component map manager of the global leader: who owns each component of a service, as a basic
map, a transient map of the transfers made since the last merge, and a map of planned transfers.
Versions are exact rationals.
-/

namespace ObjectStorage.Osm

open Std Library

structure ComponentInfoRecord where
  serviceId : String
  serviceIp : String
  servicePort : Int
deriving DecidableEq, Repr

/-- The record that a component info file holds. -/
structure CompleteComponentRecord where
  serviceInfoObjList : List ComponentInfoRecord
  serviceVersion : Rat
  glVersion : Rat
deriving DecidableEq

abbrev Owners := List ComponentInfoRecord

abbrev Transfers := List (Int × ComponentInfoRecord)

structure ComponentMapManager where
  basicMap : TreeMap String (Owners × Rat)
  transientMap : TreeMap String (Transfers × Rat)
  plannedMap : TreeMap String Transfers
  globalMapVersion : Rat
  transientMapVersion : Rat
  componentInfoFiles : TreeMap String CompleteComponentRecord

def containerService : String := "container-server"
def accountService : String := "account-server"
def accountUpdater : String := "account-updater-server"
def objectService : String := "object-server"

/-- The services that `get_global_map` and `merge_basic_and_transient_map` go through. -/
def mergedServices : List String := [containerService, accountService, accountUpdater]

theorem nodup_mergedServices : mergedServices.Nodup := by decide

namespace ComponentMapManager

/-- The part of `get_global_map` for one service: the transient entries over a copy of the basic
map. -/
def overlayService (m : ComponentMapManager) (copy : TreeMap String (Owners × Rat))
    (service : String) : Option (TreeMap String (Owners × Rat)) :=
  match copy[service]?, m.transientMap[service]? with
  | some (basic, version), some (entries, increment) =>
      (overlay basic entries).map fun owners => copy.insert service (owners, version + increment)
  | _, _ => some copy

def getGlobalMap (m : ComponentMapManager) : Option (TreeMap String (Owners × Rat) × Rat) :=
  (mergedServices.foldlM m.overlayService m.basicMap).map fun copy =>
    (copy, m.globalMapVersion + m.transientMapVersion)

def writeInComponentFile (m : ComponentMapManager) (service : String) : ComponentMapManager :=
  match m.basicMap[service]? with
  | some (owners, version) =>
      { m with componentInfoFiles :=
          m.componentInfoFiles.insert service ⟨owners, version, m.globalMapVersion.ceil⟩ }
  | none => m

/-- The part of `merge_basic_and_transient_map` for one service. The version increment stands
inside the loop over the entries. -/
def mergeService (m : ComponentMapManager) (service : String) : Option ComponentMapManager :=
  match m.basicMap[service]?, m.transientMap[service]? with
  | some (basic, version), some (entries, increment) =>
      (entries.foldlM (fun merged e =>
        (setAt merged.1 e.1 e.2).map fun owners => (owners, merged.2 + increment))
        (basic, version)).map fun merged =>
          { m with basicMap := m.basicMap.insert service merged }.writeInComponentFile service
  | _, _ => some m

def mergeBasicAndTransientMap (m : ComponentMapManager) : Option ComponentMapManager :=
  (mergedServices.foldlM mergeService
    { m with globalMapVersion := (m.globalMapVersion + m.transientMapVersion).ceil }).map
      fun merged => { merged with transientMap := ∅, transientMapVersion := 0 }

/-- What the global map says of a service, from what the two maps say of it. -/
def globalEntry : Option (Owners × Rat) → Option (Transfers × Rat) → Option (Option (Owners × Rat))
  | some (basic, version), some (entries, increment) =>
      (overlay basic entries).map fun owners => some (owners, version + increment)
  | basic?, _ => some basic?

/-- What the basic map and the component info file say of a service after a merge. -/
def mergedPart (glVersion : Rat) :
    Option (Owners × Rat) × Option CompleteComponentRecord → Option (Transfers × Rat) →
      Option (Option (Owners × Rat) × Option CompleteComponentRecord)
  | (some (basic, version), _), some (entries, increment) =>
      (overlay basic entries).map fun owners =>
        (some (owners, version + entries.length * increment),
          some ⟨owners, version + entries.length * increment, glVersion.ceil⟩)
  | part, _ => some part

variable {m m' : ComponentMapManager}

theorem overlayService_spec (m : ComponentMapManager) (copy : TreeMap String (Owners × Rat))
    (service : String) :
    UpdatesKey m.overlayService (fun copy s => copy[s]?) (fun _ => True)
      (fun s entry => globalEntry entry m.transientMap[s]?) copy service := by
  rcases hc : copy[service]? with _ | ⟨basic, version⟩
  · exact .skip trivial (by simp [globalEntry, hc]) (by simp [overlayService, hc])
  rcases ht : m.transientMap[service]? with _ | ⟨entries, increment⟩
  · exact .skip trivial (by simp [globalEntry, hc, ht]) (by simp [overlayService, hc, ht])
  cases ho : overlay basic entries with
  | none => exact .inl ⟨by simp [globalEntry, hc, ht, ho], by simp [overlayService, hc, ht, ho]⟩
  | some owners =>
      refine .inr ⟨some (owners, version + increment),
        copy.insert service (owners, version + increment), ?_, ?_, trivial, fun a => ?_⟩
      · simp [globalEntry, hc, ht, ho]
      · simp [overlayService, hc, ht, ho]
      · exact getElem?_insert_eq copy service a _

theorem getGlobalMap_eq_some {g : TreeMap String (Owners × Rat)} {v : Rat}
    (h : m.getGlobalMap = some (g, v)) :
    (∀ s ∈ mergedServices, globalEntry m.basicMap[s]? m.transientMap[s]? = some g[s]?) ∧
      ∀ s ∉ mergedServices, g[s]? = m.basicMap[s]? := by
  obtain ⟨copy, hcopy, heq⟩ := Option.map_eq_some_iff.mp h
  obtain rfl : copy = g := congrArg Prod.fst heq
  rcases foldlM_distinct_keys (fun copy s _ => m.overlayService_spec copy s)
    nodup_mergedServices trivial
    with ⟨hnone, -⟩ | ⟨copy', hsome, -, hin, hout⟩
  · rw [hcopy] at hnone
    cases hnone
  · obtain rfl := Option.some.inj (hcopy.symm.trans hsome)
    exact ⟨hin, hout⟩

theorem getGlobalMap_isSome (m : ComponentMapManager) (h : ∀ s ∈ mergedServices,
    globalEntry m.basicMap[s]? m.transientMap[s]? ≠ none) :
    ∃ g, m.getGlobalMap = some (g, m.globalMapVersion + m.transientMapVersion) := by
  rcases foldlM_distinct_keys (fun copy s _ => m.overlayService_spec copy s)
    nodup_mergedServices trivial
    with ⟨-, k, hk, hnone⟩ | ⟨copy', hsome, -⟩
  · exact absurd hnone (h k hk)
  · exact ⟨copy', by rw [getGlobalMap, hsome]; rfl⟩

theorem foldlM_setAt_version (entries : Transfers) (increment : Rat) (basic : Owners)
    (version : Rat) :
    entries.foldlM (fun merged e =>
      (setAt merged.1 e.1 e.2).map fun owners => (owners, merged.2 + increment)) (basic, version) =
      (overlay basic entries).map fun owners =>
        (owners, version + entries.length * increment) := by
  induction entries generalizing basic version with
  | nil => simp
  | cons e entries ih =>
      rw [List.foldlM_cons, overlay_cons]
      cases setAt basic e.1 e.2 with
      | none => rfl
      | some owners =>
          have hsum : version + increment + entries.length * increment =
              version + (entries.length + 1 : Nat) * increment := by
            push_cast
            ring
          simpa [hsum] using ih owners (version + increment)

/-- What a merge leaves alone while it goes through the services. -/
structure SameOutsideMerge (m m' : ComponentMapManager) : Prop where
  transientMap : m'.transientMap = m.transientMap
  plannedMap : m'.plannedMap = m.plannedMap
  globalMapVersion : m'.globalMapVersion = m.globalMapVersion

theorem mergeService_spec (m₀ m : ComponentMapManager) (service : String)
    (h : SameOutsideMerge m₀ m) :
    UpdatesKey mergeService (fun m s => (m.basicMap[s]?, m.componentInfoFiles[s]?))
      (SameOutsideMerge m₀)
      (fun s part => mergedPart m₀.globalMapVersion part m₀.transientMap[s]?) m service := by
  have ht := h.transientMap
  rcases hb : m.basicMap[service]? with _ | ⟨basic, version⟩
  · exact .skip h (by simp [mergedPart, hb]) (by simp [mergeService, hb])
  rcases he : m₀.transientMap[service]? with _ | ⟨entries, increment⟩
  · exact .skip h (by simp [mergedPart, hb, he]) (by simp [mergeService, hb, ht, he])
  cases ho : overlay basic entries with
  | none =>
      refine .inl ⟨by simp [mergedPart, hb, he, ho], ?_⟩
      simp [mergeService, hb, ht, he, foldlM_setAt_version, ho]
  | some owners =>
      let merged : Owners × Rat := (owners, version + entries.length * increment)
      refine .inr ⟨(some merged, some ⟨merged.1, merged.2, m₀.globalMapVersion.ceil⟩),
        { m with basicMap := m.basicMap.insert service merged }.writeInComponentFile service,
        ?_, ?_, ?_, fun a => ?_⟩
      · simp [mergedPart, hb, he, ho, merged]
      · simp [mergeService, hb, ht, he, foldlM_setAt_version, ho, merged]
      · constructor <;> simp [writeInComponentFile, h.transientMap, h.plannedMap,
          h.globalMapVersion]
      · by_cases ha : service = a
        · simp [writeInComponentFile, ha, h.globalMapVersion]
        · simp [writeInComponentFile, ha]

/-- The state of a merge when it starts to go through the services. -/
def ceiled (m : ComponentMapManager) : ComponentMapManager :=
  { m with globalMapVersion := (m.globalMapVersion + m.transientMapVersion).ceil }

/-- What a merge leaves behind. -/
structure Merged (m m' : ComponentMapManager) : Prop where
  plannedMap : m'.plannedMap = m.plannedMap
  transientMap : m'.transientMap = ∅
  transientMapVersion : m'.transientMapVersion = 0
  globalMapVersion : m'.globalMapVersion = m.ceiled.globalMapVersion
  merges : ∀ s ∈ mergedServices, mergedPart m.ceiled.globalMapVersion
    (m.basicMap[s]?, m.componentInfoFiles[s]?) m.transientMap[s]? =
      some (m'.basicMap[s]?, m'.componentInfoFiles[s]?)
  keeps : ∀ s ∉ mergedServices, m'.basicMap[s]? = m.basicMap[s]? ∧
    m'.componentInfoFiles[s]? = m.componentInfoFiles[s]?

theorem mergeBasicAndTransientMap_spec (m : ComponentMapManager) :
    (m.mergeBasicAndTransientMap = none ∧ ∃ s ∈ mergedServices,
      mergedPart m.ceiled.globalMapVersion (m.basicMap[s]?, m.componentInfoFiles[s]?)
        m.transientMap[s]? = none) ∨
    ∃ m', m.mergeBasicAndTransientMap = some m' ∧ Merged m m' := by
  have hloop := foldlM_distinct_keys (fun m₁ s h => mergeService_spec m.ceiled m₁ s h)
    nodup_mergedServices (⟨rfl, rfl, rfl⟩ : SameOutsideMerge m.ceiled m.ceiled)
  rcases hloop with ⟨hnone, s, hs, hpart⟩ | ⟨m', hsome, hsame, hin, hout⟩
  · exact .inl ⟨Option.map_eq_none_iff.mpr hnone, s, hs, hpart⟩
  · refine .inr ⟨{ m' with transientMap := ∅, transientMapVersion := 0 },
      Option.map_eq_some_iff.mpr ⟨m', hsome, rfl⟩,
      hsame.plannedMap, rfl, rfl, hsame.globalMapVersion, hin, fun s hs => ?_⟩
    exact Prod.ext_iff.mp (hout s hs)

/-- The two loops over the entries of a service agree on the owners. -/
theorem mergedPart_of_globalEntry (glVersion : Rat) (file? : Option CompleteComponentRecord)
    {basic? entry? : Option (Owners × Rat)} {entries? : Option (Transfers × Rat)}
    (h : globalEntry basic? entries? = some entry?) :
    ∃ merged? file'?, mergedPart glVersion (basic?, file?) entries? = some (merged?, file'?) ∧
      merged?.map (·.1) = entry?.map (·.1) ∧
      (merged? = entry? ↔ ∀ basic ∈ basic?, ∀ entries ∈ entries?,
        entries.1.length = 1 ∨ entries.2 = 0) := by
  rcases basic? with _ | ⟨basic, version⟩
  · obtain rfl := Option.some.inj h
    exact ⟨none, file?, rfl, rfl, by simp⟩
  rcases entries? with _ | ⟨entries, increment⟩
  · obtain rfl := Option.some.inj h
    exact ⟨some (basic, version), file?, rfl, rfl, by simp⟩
  obtain ⟨owners, ho, rfl⟩ := Option.map_eq_some_iff.mp h
  refine ⟨some (owners, version + entries.length * increment),
    some ⟨owners, version + entries.length * increment, glVersion.ceil⟩, ?_, rfl, ?_⟩
  · rw [mergedPart, ho]
    rfl
  · have hiff : (entries.length : Rat) * increment = increment ↔
        entries.length = 1 ∨ increment = 0 := by
      by_cases h0 : increment = 0
      · simp [h0]
      · simp [h0]
    simp [hiff]

/-- The global map is the same before and after a merge. -/
def MergeInvisible (m : ComponentMapManager) : Prop :=
  ∃ g v m' g' v', m.getGlobalMap = some (g, v) ∧ m.mergeBasicAndTransientMap = some m' ∧
    m'.getGlobalMap = some (g', v') ∧ ∀ s : String, g'[s]? = g[s]?

/-- Every service that is merged has one transfer, or transfers without a version increment. -/
def IncrementsOnce (m : ComponentMapManager) : Prop :=
  ∀ s ∈ mergedServices, ∀ basic ∈ m.basicMap[s]?, ∀ entries ∈ m.transientMap[s]?,
    entries.1.length = 1 ∨ entries.2 = 0

instance (m : ComponentMapManager) : Decidable m.IncrementsOnce :=
  inferInstanceAs (Decidable (∀ s ∈ mergedServices, ∀ basic ∈ m.basicMap[s]?,
    ∀ entries ∈ m.transientMap[s]?, entries.1.length = 1 ∨ entries.2 = 0))

theorem Merged.getGlobalMap (h : Merged m m') :
    ∃ g', m'.getGlobalMap = some (g', m'.globalMapVersion) ∧
      ∀ s : String, g'[s]? = m'.basicMap[s]? := by
  have hentry : ∀ s : String, globalEntry m'.basicMap[s]? m'.transientMap[s]? =
    some m'.basicMap[s]? := by
    intro s
    rw [h.transientMap]
    cases m'.basicMap[s]? <;> simp [globalEntry]
  obtain ⟨g', hg'⟩ := m'.getGlobalMap_isSome fun s _ => by
    rw [hentry s]
    exact Option.some_ne_none _
  rw [h.transientMapVersion, add_zero] at hg'
  obtain ⟨hin, hout⟩ := getGlobalMap_eq_some hg'
  refine ⟨g', hg', fun s => ?_⟩
  by_cases hs : s ∈ mergedServices
  · exact (Option.some.inj ((hentry s).symm.trans (hin s hs))).symm
  · exact hout s hs

/-- A merge is defined where the global map is, keeps all owners, and keeps the version of each
service that has its increment added once. -/
theorem merge_of_getGlobalMap {g : TreeMap String (Owners × Rat)} {v : Rat}
    (hg : m.getGlobalMap = some (g, v)) :
    ∃ m' g', m.mergeBasicAndTransientMap = some m' ∧ Merged m m' ∧
      m'.getGlobalMap = some (g', m'.globalMapVersion) ∧
      (∀ s : String, g'[s]?.map (·.1) = g[s]?.map (·.1)) ∧
      ((∀ s : String, g'[s]? = g[s]?) ↔ m.IncrementsOnce) := by
  obtain ⟨hin, hout⟩ := getGlobalMap_eq_some hg
  rcases m.mergeBasicAndTransientMap_spec with ⟨-, s, hs, hnone⟩ | ⟨m', hmerge, hm'⟩
  · obtain ⟨_, _, hpart, -⟩ := mergedPart_of_globalEntry
      m.ceiled.globalMapVersion m.componentInfoFiles[s]? (hin s hs)
    rw [hpart] at hnone
    cases hnone
  obtain ⟨g', hg', hbasic⟩ := hm'.getGlobalMap
  have hpart : ∀ s ∈ mergedServices, m'.basicMap[s]?.map (·.1) = g[s]?.map (·.1) ∧
      (m'.basicMap[s]? = g[s]? ↔ ∀ basic ∈ m.basicMap[s]?, ∀ entries ∈ m.transientMap[s]?,
        entries.1.length = 1 ∨ entries.2 = 0) := by
    intro s hs
    obtain ⟨_, _, hpart, howners, hversion⟩ := mergedPart_of_globalEntry
      m.ceiled.globalMapVersion m.componentInfoFiles[s]? (hin s hs)
    obtain ⟨rfl, -⟩ := Prod.ext_iff.mp (Option.some.inj ((hm'.merges s hs).symm.trans hpart))
    exact ⟨howners, hversion⟩
  refine ⟨m', g', hmerge, hm', hg', fun s => ?_, fun hsame s hs => ?_, fun honce s => ?_⟩
  · rw [hbasic]
    by_cases hs : s ∈ mergedServices
    · exact (hpart s hs).1
    · rw [(hm'.keeps s hs).1, hout s hs]
  · exact (hpart s hs).2.mp (by rw [← hbasic, hsame])
  · rw [hbasic]
    by_cases hs : s ∈ mergedServices
    · exact (hpart s hs).2.mpr (honce s hs)
    · rw [(hm'.keeps s hs).1, hout s hs]

/-- A merge leaves the global map as it was exactly when no version increment is added twice. -/
theorem mergeInvisible_iff (hdefined : m.getGlobalMap ≠ none) :
    m.MergeInvisible ↔ m.IncrementsOnce := by
  obtain ⟨⟨g, v⟩, hg⟩ := Option.ne_none_iff_exists'.mp hdefined
  obtain ⟨m', g', hmerge, -, hg', -, hiff⟩ := merge_of_getGlobalMap hg
  constructor
  · rintro ⟨g₀, v₀, m₀, g₁, v₁, hg₀, hmerge₀, hg₁, hsame⟩
    obtain ⟨rfl, -⟩ := Prod.ext_iff.mp (Option.some.inj (hg.symm.trans hg₀))
    obtain rfl := Option.some.inj (hmerge.symm.trans hmerge₀)
    obtain ⟨rfl, -⟩ := Prod.ext_iff.mp (Option.some.inj (hg'.symm.trans hg₁))
    exact hiff.mp hsame
  · exact fun honce => ⟨g, v, m', g', _, hg, hmerge, hg', hiff.mpr honce⟩

def oneOwner : ComponentInfoRecord := ⟨"node1_container-server", "10.0.0.1", 61006⟩
def otherOwner : ComponentInfoRecord := ⟨"node2_container-server", "10.0.0.2", 61006⟩

/-- Two container components of one owner, and transfers to the other owner. -/
def withTransfers (transfers : Transfers) : ComponentMapManager where
  basicMap := .ofList [(containerService, ([oneOwner, oneOwner], (1 : Rat)))]
  transientMap := .ofList [(containerService, (transfers, (1 / 10 : Rat)))]
  plannedMap := ∅
  globalMapVersion := 1
  transientMapVersion := 1 / 10000
  componentInfoFiles := ∅

theorem mergeInvisible_one_transfer : (withTransfers [(0, otherOwner)]).MergeInvisible :=
  (mergeInvisible_iff (by decide +kernel)).mpr (by decide +kernel)

/-- Two transfers of a service add its version increment twice. -/
theorem merge_visible_two_transfers :
    ¬ (withTransfers [(0, otherOwner), (1, otherOwner)]).MergeInvisible := by
  rintro ⟨g, v, m', g', v', hg, hmerge, hg', hsame⟩
  have hbefore : ((withTransfers [(0, otherOwner), (1, otherOwner)]).getGlobalMap.bind
      fun g => g.1[containerService]?.map (·.2)) = some (11 / 10) := by decide +kernel
  have hafter : (((withTransfers [(0, otherOwner), (1, otherOwner)]).mergeBasicAndTransientMap.bind
      getGlobalMap).bind fun g => g.1[containerService]?.map (·.2)) = some (12 / 10) := by
    decide +kernel
  simp only [hg, hmerge, hg', Option.bind_some, hsame] at hbefore hafter
  rw [hbefore] at hafter
  exact absurd hafter (by decide +kernel)

end ComponentMapManager

end ObjectStorage.Osm
