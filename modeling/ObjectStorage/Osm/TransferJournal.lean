import ObjectStorage.Osm.PlannedTransfers

/-!
The journal of the global leader. A thread that handles a report of transfers updates the transient
map, copies the whole transient list of the service into a record, queues it behind the records that
it has prepared in the same pass, and acknowledges the report once the record is written. Files
rotate without a snapshot, and after a restart the newest file is replayed over the component info
files.
-/

namespace ObjectStorage.Osm

open Std Library

/-- `covers`, which is not part of the record, counts the transfers of the service that had been
made when the record was prepared. -/
structure TransientMapRecord where
  serviceName : String
  entries : Transfers
  version : Rat
  covers : Nat
deriving DecidableEq

/-- Where a thread is in the handling of a report: `reached` counts the transfers of the service
that had been made after its own, `complete` says whether all that it reports were planned. -/
inductive ReportStage where
  | idle
  | updated (serviceName : String) (reached : Nat) (complete : Bool)
  | prepared (serviceName : String) (reached : Nat) (complete : Bool)
  | waiting (serviceName : String) (reached : Nat) (complete : Bool)
  | written (serviceName : String) (reached : Nat) (complete : Bool)
deriving DecidableEq

/-- The maps, the queue of the journal with the threads that are notified, the journal files,
whether `rotate_file` has opened a new one and the older ones are still there, the threads, and the
vector `node_rec_records` of each thread. The last fields keep what has happened: the transfers made
of each service, the records written, and the acknowledged reports. -/
structure GlobalLeader where
  map : ComponentMapManager
  queue : List (Option Nat × TransientMapRecord)
  activeFile : List TransientMapRecord
  oldFiles : List (List TransientMapRecord)
  rotated : Bool
  reports : Nat → ReportStage
  nodeRecRecords : Nat → List TransientMapRecord
  made : String → Transfers
  writtenRecords : List TransientMapRecord
  acknowledged : List (String × Nat)

/-- Records of other kinds carry no owners and are left out; a file may rotate for one of them. A
pass of the state-change message thread is one message, a pass of the monitor thread all messages
that it finds. -/
inductive TransferStep where
  | plan (service : String) (component : Int) (record : ComponentInfoRecord)
  | beginPass (l : Nat)
  | updateTransientMap (l : Nat) (service : String) (transferred : Transfers)
  | prepareTransientRecord (l : Nat)
  | addEntryInJournal (l : Nat)
  | rotateFile
  | removeOldFiles
  | write
  | sendAck (l : Nat)
  | merge
  | newJournal

namespace ComponentMapManager

/-! ### Recovery -/

def updateTransientMapDuringRecovery (m : ComponentMapManager) (service : String)
    (transferred : Transfers) : ComponentMapManager :=
  match m.transientMap[service]? with
  | some (_, version) =>
      { m with transientMap := m.transientMap.insert service (transferred, version) }
  | none => { m with transientMap := m.transientMap.insert service (transferred, 0) }

def setTransientMapVersion (m : ComponentMapManager) (version : Rat) : ComponentMapManager :=
  if m.transientMapVersion < version then { m with transientMapVersion := version } else m

/-- `recover_objects` for a transient map record. -/
def recoverObjects (m : ComponentMapManager) (record : TransientMapRecord) : ComponentMapManager :=
  (m.updateTransientMapDuringRecovery record.serviceName record.entries).setTransientMapVersion
    record.version

def recoverComponentsForService (m : ComponentMapManager) (service : String) :
    ComponentMapManager :=
  match m.componentInfoFiles[service]? with
  | some file =>
      { m with
        basicMap := m.basicMap.insertIfNew service (file.serviceInfoObjList, file.serviceVersion)
        globalMapVersion := max m.globalMapVersion file.glVersion }
  | none => m

/-- The maps of a new process. -/
def atStart (componentInfoFiles : TreeMap String CompleteComponentRecord) : ComponentMapManager :=
  ⟨∅, ∅, ∅, 1, 0, componentInfoFiles⟩

/-- `start_recovery`: the replay of the newest journal file, the component info files, and the
merge. -/
def startRecovery (componentInfoFiles : TreeMap String CompleteComponentRecord)
    (journalFile : List TransientMapRecord) : Option ComponentMapManager :=
  (mergedServices.foldl recoverComponentsForService
    (journalFile.foldl recoverObjects (atStart componentInfoFiles))).mergeBasicAndTransientMap

/-- The owners in the component info file of a service. -/
def fileOwners (m : ComponentMapManager) (service : String) : Option Owners :=
  m.componentInfoFiles[service]?.map (·.serviceInfoObjList)

/-- What a journal file says of a service: its last record replaces those before it. -/
def replayed (journalFile : List TransientMapRecord) (service : String) :
    Option TransientMapRecord :=
  journalFile.findRev? fun r => r.serviceName = service

variable {m m' : ComponentMapManager}

theorem replayed_append (rs rs' : List TransientMapRecord) (service : String) :
    replayed (rs ++ rs') service = (replayed rs' service).or (replayed rs service) := by
  simp [replayed, List.findRev?_eq_find?_reverse]

theorem replayed_eq_none {rs : List TransientMapRecord} {service : String}
    (h : replayed rs service = none) : ∀ r ∈ rs, r.serviceName ≠ service := by
  rw [replayed, List.findRev?_eq_find?_reverse, List.find?_eq_none] at h
  exact fun r hr => by simpa using h r (by simpa using hr)

theorem replayed_eq_some {rs : List TransientMapRecord} {service : String} {r : TransientMapRecord}
    (h : replayed rs service = some r) : r.serviceName = service ∧ ∃ before after,
      rs = before ++ r :: after ∧ ∀ r' ∈ after, r'.serviceName ≠ service := by
  rw [replayed, List.findRev?_eq_find?_reverse] at h
  obtain ⟨hservice, after, before, hsplit, hnot⟩ := List.find?_eq_some_iff_append.mp h
  refine ⟨by simpa using hservice, before.reverse, after.reverse, ?_, fun r' hr' => ?_⟩
  · rw [← List.reverse_inj, hsplit]
    simp
  · simpa using hnot r' (by simpa using hr')

theorem replayed_mem {rs : List TransientMapRecord} {service : String} {r : TransientMapRecord}
    (h : replayed rs service = some r) : r ∈ rs := by
  obtain ⟨-, before, after, rfl, -⟩ := replayed_eq_some h
  exact List.mem_append_right _ List.mem_cons_self

theorem recoverObjects_spec (m : ComponentMapManager) (record : TransientMapRecord) :
    (m.recoverObjects record).basicMap = m.basicMap ∧
      (m.recoverObjects record).componentInfoFiles = m.componentInfoFiles ∧
      ∀ s, (m.recoverObjects record).transfersFor s =
        if record.serviceName = s then record.entries else m.transfersFor s := by
  unfold recoverObjects setTransientMapVersion updateTransientMapDuringRecovery transfersFor
  refine ⟨?_, ?_, fun s => ?_⟩
  · split <;> split <;> rfl
  · split <;> split <;> rfl
  · by_cases hs : record.serviceName = s <;> split <;> split <;> simp [hs]

theorem foldl_recoverObjects (rs : List TransientMapRecord) (m : ComponentMapManager) :
    (rs.foldl recoverObjects m).basicMap = m.basicMap ∧
      (rs.foldl recoverObjects m).componentInfoFiles = m.componentInfoFiles ∧
      ∀ s, (rs.foldl recoverObjects m).transfersFor s =
        ((replayed rs s).map (·.entries)).getD (m.transfersFor s) := by
  induction rs generalizing m with
  | nil => exact ⟨rfl, rfl, fun s => rfl⟩
  | cons r rs ih =>
      obtain ⟨hbasic, hfiles, htransfers⟩ := m.recoverObjects_spec r
      obtain ⟨hbasic', hfiles', htransfers'⟩ := ih (m.recoverObjects r)
      refine ⟨hbasic'.trans hbasic, hfiles'.trans hfiles, fun s => ?_⟩
      have hcons : r :: rs = [r] ++ rs := rfl
      rw [List.foldl_cons, htransfers', htransfers, hcons, replayed_append]
      cases replayed rs s with
      | some r' => rfl
      | none => by_cases hs : r.serviceName = s <;> simp [replayed, hs]

theorem recoverComponentsForService_spec (m : ComponentMapManager) (service : String) :
    (m.recoverComponentsForService service).componentInfoFiles = m.componentInfoFiles ∧
      (m.recoverComponentsForService service).transientMap = m.transientMap ∧
      ∀ s, (m.recoverComponentsForService service).basicOwners s =
        if service = s then (m.basicOwners s).or (m.fileOwners s) else m.basicOwners s := by
  unfold recoverComponentsForService basicOwners fileOwners
  refine ⟨?_, ?_, fun s => ?_⟩
  · split <;> rfl
  · split <;> rfl
  · by_cases hs : service = s
    · subst hs
      cases m.componentInfoFiles[service]? with
      | none => simp
      | some file =>
          simp only
          rw [if_pos trivial, getElem?_insertIfNew_eq, if_pos rfl]
          cases m.basicMap[service]? <;> rfl
    · split <;> simp [hs]

theorem foldl_recoverComponentsForService (ks : List String) (m : ComponentMapManager) :
    (ks.foldl recoverComponentsForService m).componentInfoFiles = m.componentInfoFiles ∧
      (ks.foldl recoverComponentsForService m).transientMap = m.transientMap ∧
      ∀ s, (ks.foldl recoverComponentsForService m).basicOwners s =
        if s ∈ ks then (m.basicOwners s).or (m.fileOwners s) else m.basicOwners s := by
  induction ks generalizing m with
  | nil => exact ⟨rfl, rfl, fun s => by simp⟩
  | cons k ks ih =>
      obtain ⟨hfiles, htransient, hbasic⟩ := m.recoverComponentsForService_spec k
      obtain ⟨hfiles', htransient', hbasic'⟩ := ih (m.recoverComponentsForService k)
      refine ⟨hfiles'.trans hfiles, htransient'.trans htransient, fun s => ?_⟩
      have hfile : (m.recoverComponentsForService k).fileOwners s = m.fileOwners s := by
        rw [fileOwners, hfiles, fileOwners]
      rw [List.foldl_cons, hbasic', hfile, hbasic]
      by_cases hk : k = s
      · subst hk
        cases m.basicOwners k <;> simp
      · have hks : ¬ s = k := fun h => hk h.symm
        simp [hk, hks]

theorem recovered_spec (files : TreeMap String CompleteComponentRecord)
    (journalFile : List TransientMapRecord) :
    ∃ m : ComponentMapManager, m.mergeBasicAndTransientMap = startRecovery files journalFile ∧
      m.componentInfoFiles = files ∧
      (∀ s ∈ mergedServices, m.basicOwners s = files[s]?.map (·.serviceInfoObjList)) ∧
      ∀ s, m.transfersFor s = ((replayed journalFile s).map (·.entries)).getD [] := by
  obtain ⟨hbasic, hfiles, htransfers⟩ := foldl_recoverObjects journalFile (atStart files)
  obtain ⟨hfiles', htransient, hbasic'⟩ := foldl_recoverComponentsForService mergedServices
    (journalFile.foldl recoverObjects (atStart files))
  refine ⟨_, rfl, hfiles'.trans hfiles, fun s hs => ?_, fun s => ?_⟩
  · have hempty : (journalFile.foldl recoverObjects (atStart files)).basicOwners s = none := by
      rw [basicOwners, hbasic]
      simp [atStart]
    rw [hbasic', if_pos hs, hempty, Option.none_or, fileOwners, hfiles]
    rfl
  · rw [transfersFor, htransient]
    exact htransfers s

/-- After a merge the component info files hold the owners of the basic map, if they did before. -/
theorem Merged.fileOwners (h : Merged m m') {s : String} (hs : s ∈ mergedServices)
    (hsame : m.fileOwners s = m.basicOwners s) : m'.fileOwners s = m'.basicOwners s := by
  have hpart := h.merges s hs
  unfold ComponentMapManager.fileOwners basicOwners at *
  rcases hb : m.basicMap[s]? with _ | ⟨basic, version⟩
  · rw [hb] at hpart hsame
    obtain ⟨hbasic, hfile⟩ := Prod.ext_iff.mp (Option.some.inj hpart)
    simp only at hbasic hfile
    rw [← hbasic, ← hfile, hsame]
  rcases ht : m.transientMap[s]? with _ | ⟨entries, increment⟩
  · rw [hb, ht] at hpart
    rw [hb] at hsame
    obtain ⟨hbasic, hfile⟩ := Prod.ext_iff.mp (Option.some.inj hpart)
    simp only at hbasic hfile
    rw [← hbasic, ← hfile, hsame]
  · rw [hb, ht, mergedPart] at hpart
    obtain ⟨owners, -, heq⟩ := Option.map_eq_some_iff.mp hpart
    obtain ⟨hbasic, hfile⟩ := Prod.ext_iff.mp heq
    simp only at hbasic hfile
    rw [← hbasic, ← hfile]
    rfl

end ComponentMapManager

namespace GlobalLeader

/-- A leader that has recovered, with an empty journal. -/
def start (componentInfoFiles : TreeMap String CompleteComponentRecord)
    (journalFile : List TransientMapRecord) : Option GlobalLeader :=
  (ComponentMapManager.startRecovery componentInfoFiles journalFile).map fun m =>
    ⟨m, [], [], [], false, fun _ => .idle, fun _ => [], fun _ => [], [], []⟩

def setReport (g : GlobalLeader) (l : Nat) (stage : ReportStage) : GlobalLeader :=
  { g with reports := Function.update g.reports l stage }

/-- `JournalLibrary::add_entry_in_journal`: the last record is queued with the callback. -/
def addEntryInJournal (l : Nat) (records : List TransientMapRecord) :
    List (Option Nat × TransientMapRecord) :=
  records.dropLast.map (fun r => (none, r)) ++ records.getLast?.toList.map fun r => (some l, r)

def step (g : GlobalLeader) : TransferStep → Option GlobalLeader
  | .plan service component record =>
      some { g with map := g.map.addEntryInGlobalPlannedMap service component record }
  | .beginPass l =>
      match g.reports l with
      | .idle => some { g with nodeRecRecords := Function.update g.nodeRecRecords l [] }
      | _ => none
  | .updateTransientMap l service transferred =>
      match g.reports l with
      | .idle =>
          let ((actual, complete), map) := g.map.updateTransientMap service transferred
          let made := g.made service ++ actual
          some ({ g with map := map, made := Function.update g.made service made }.setReport l
            (.updated service made.length complete))
      | _ => none
  | .prepareTransientRecord l =>
      match g.reports l with
      | .updated service reached complete =>
          let record : TransientMapRecord := ⟨service, g.map.transfersFor service,
            g.map.transientMapVersion, (g.made service).length⟩
          some ({ g with
            nodeRecRecords :=
              Function.update g.nodeRecRecords l (g.nodeRecRecords l ++ [record]) }.setReport l
                (.prepared service reached complete))
      | _ => none
  | .addEntryInJournal l =>
      match g.reports l with
      | .prepared service reached complete =>
          some ({ g with
            queue := g.queue ++ addEntryInJournal l (g.nodeRecRecords l) }.setReport l
              (.waiting service reached complete))
      | _ => none
  | .rotateFile =>
      if g.rotated then none
      else some { g with activeFile := [], oldFiles := g.activeFile :: g.oldFiles, rotated := true }
  | .removeOldFiles => if g.rotated then some { g with oldFiles := [], rotated := false } else none
  | .write =>
      match g.rotated, g.queue with
      | false, (none, record) :: queue =>
          some { g with
            queue := queue
            activeFile := g.activeFile ++ [record]
            writtenRecords := g.writtenRecords ++ [record] }
      | false, (some l, record) :: queue =>
          match g.reports l with
          | .waiting service reached complete =>
              some ({ g with
                queue := queue
                activeFile := g.activeFile ++ [record]
                writtenRecords := g.writtenRecords ++ [record] }.setReport l
                  (.written service reached complete))
          | _ => none
      | _, _ => none
  | .sendAck l =>
      match g.reports l with
      | .written service reached complete =>
          if complete then
            g.map.getGlobalMap.map fun _ =>
              { g with acknowledged := (service, reached) :: g.acknowledged }.setReport l .idle
          else some (g.setReport l .idle)
      | _ => none
  | .merge => g.map.mergeBasicAndTransientMap.map fun map => { g with map := map }
  | .newJournal => some { g with activeFile := [], oldFiles := [] }

/-- The newest journal file that is not empty. -/
def newestFile (g : GlobalLeader) : List TransientMapRecord :=
  ((g.activeFile :: g.oldFiles).find? fun file => ! file.isEmpty).getD []

def recover (g : GlobalLeader) : Option ComponentMapManager :=
  ComponentMapManager.startRecovery g.map.componentInfoFiles g.newestFile

/-- A restart gives a global map with the owners that acknowledged reports name, except for
components that were transferred again after the report. -/
def OwnersRecovered (g : GlobalLeader) : Prop :=
  ∃ m ∈ g.recover, ∀ a ∈ g.acknowledged, ∀ e ∈ (g.made a.1).take a.2,
    lastAt ((g.made a.1).take a.2) e.1 = some e.2 → (∀ e' ∈ (g.made a.1).drop a.2, e'.1 ≠ e.1) →
      m.owner a.1 e.1.toNat = some e.2

instance (g : GlobalLeader) : Decidable g.OwnersRecovered :=
  inferInstanceAs (Decidable (∃ m ∈ g.recover, ∀ a ∈ g.acknowledged, ∀ e ∈ (g.made a.1).take a.2,
    lastAt ((g.made a.1).take a.2) e.1 = some e.2 → (∀ e' ∈ (g.made a.1).drop a.2, e'.1 ≠ e.1) →
      m.owner a.1 e.1.toNat = some e.2))

/-- How many of the transfers of a service are in the basic map. -/
def merged (g : GlobalLeader) (service : String) : Nat :=
  (g.made service).length - (g.map.transfersFor service).length

/-- Nothing in the journal is needed: every record was prepared before the last merge. -/
def JournalMerged (g : GlobalLeader) : Prop :=
  ∀ r ∈ g.newestFile, r.covers ≤ g.merged r.serviceName

instance (g : GlobalLeader) : Decidable g.JournalMerged :=
  inferInstanceAs (Decidable (∀ r ∈ g.newestFile, _))

/-- When a step loses no owner: reports are about components of a service that is merged, records
are queued only if none of their services that cover more were queued before, and journal files are
removed only if nothing in them is needed. -/
def Safe (g : GlobalLeader) : TransferStep → Prop
  | .updateTransientMap _ service transferred => service ∈ mergedServices ∧
      ∃ basic ∈ g.map.basicOwners service, InRange basic.length transferred
  | .addEntryInJournal l => ∀ r ∈ g.writtenRecords ++ g.queue.map (·.2),
      ∀ r' ∈ g.nodeRecRecords l, r.serviceName = r'.serviceName → r.covers ≤ r'.covers
  | .removeOldFiles => g.JournalMerged
  | .newJournal => g.JournalMerged
  | _ => True

instance (g : GlobalLeader) : DecidablePred g.Safe
  | .updateTransientMap _ service transferred => inferInstanceAs (Decidable
      (service ∈ mergedServices ∧ ∃ basic ∈ g.map.basicOwners service,
        InRange basic.length transferred))
  | .addEntryInJournal l => inferInstanceAs (Decidable
      (∀ r ∈ g.writtenRecords ++ g.queue.map (·.2), ∀ r' ∈ g.nodeRecRecords l, _))
  | .removeOldFiles => inferInstanceAs (Decidable g.JournalMerged)
  | .newJournal => inferInstanceAs (Decidable g.JournalMerged)
  | .plan _ _ _ => isTrue trivial
  | .beginPass _ => isTrue trivial
  | .prepareTransientRecord _ => isTrue trivial
  | .rotateFile => isTrue trivial
  | .write => isTrue trivial
  | .sendAck _ => isTrue trivial
  | .merge => isTrue trivial

/-! ### What the journal keeps -/

variable {g g' : GlobalLeader} {l : Nat}

/-- The record holds the transfers of its service up to those it covers, except for some that are
merged. -/
def Snapshot (g : GlobalLeader) (r : TransientMapRecord) : Prop :=
  ∃ f ≤ g.merged r.serviceName, f ≤ r.covers ∧ r.covers ≤ (g.made r.serviceName).length ∧
    r.entries = ((g.made r.serviceName).take r.covers).drop f

/-- A written record covers the first `n` transfers of the service. -/
def Reaches (g : GlobalLeader) (service : String) (n : Nat) : Prop :=
  ∃ r ∈ g.writtenRecords, r.serviceName = service ∧ n ≤ r.covers

def StageOk (g : GlobalLeader) (records : List TransientMapRecord) : ReportStage → Prop
  | .idle => True
  | .updated service reached _ => reached ≤ (g.made service).length
  | .prepared service reached _ => ∃ record ∈ records.getLast?,
      record.serviceName = service ∧ reached ≤ record.covers
  | .waiting _ _ _ => True
  | .written service reached _ => g.Reaches service reached

/-- The basic map and the component info files have the owners after the merged transfers, and the
transient map has the other transfers. -/
structure MapsOk (g : GlobalLeader) : Prop where
  known : ∀ s, g.made s ≠ [] → s ∈ mergedServices ∧ (g.map.basicOwners s).isSome
  files : ∀ s ∈ mergedServices, g.map.fileOwners s = g.map.basicOwners s
  basic : ∀ s ∈ mergedServices, ∀ basic ∈ g.map.basicOwners s, InRange basic.length (g.made s) ∧
    ∃ initial, overlay initial ((g.made s).take (g.merged s)) = some basic
  transient : ∀ s, (g.made s).drop (g.merged s) = g.map.transfersFor s

/-- Records are prepared, queued and written in the order of what they cover, and records that are
written and no longer in the newest file cover only merged transfers. -/
structure JournalOk (g : GlobalLeader) : Prop where
  stages : ∀ l, g.StageOk (g.nodeRecRecords l) (g.reports l)
  prepared : ∀ l, ∀ r ∈ g.nodeRecRecords l, g.Snapshot r
  passOrder : ∀ l, (g.nodeRecRecords l).Pairwise fun r r' =>
    r.serviceName = r'.serviceName → r.covers ≤ r'.covers
  queued : ∀ e ∈ g.queue, g.Snapshot e.2 ∧ ∀ l ∈ e.1,
    ∃ n complete, g.reports l = .waiting e.2.serviceName n complete ∧ n ≤ e.2.covers
  once : (g.queue.filterMap (·.1)).Nodup
  written : ∀ r ∈ g.writtenRecords, g.Snapshot r
  acknowledged : ∀ a ∈ g.acknowledged, g.Reaches a.1 a.2
  order : (g.writtenRecords ++ g.queue.map (·.2)).Pairwise fun r r' =>
    r.serviceName = r'.serviceName → r.covers ≤ r'.covers
  newest : ∃ lost, g.writtenRecords = lost ++ g.newestFile ∧
    ∀ r ∈ lost, r.covers ≤ g.merged r.serviceName
  oldFiles : g.rotated = false → g.oldFiles = []
  activeFile : g.rotated = true → g.activeFile = []

theorem merged_le (g : GlobalLeader) (s : String) : g.merged s ≤ (g.made s).length :=
  Nat.sub_le _ _

/-- Transfers are made and merged. -/
structure Grows (g g' : GlobalLeader) : Prop where
  made : ∀ s, ∃ more, g'.made s = g.made s ++ more
  merged : ∀ s, g.merged s ≤ g'.merged s

theorem Snapshot.grow {r : TransientMapRecord} (h : g.Snapshot r) (hgrow : Grows g g') :
    g'.Snapshot r := by
  obtain ⟨f, hf, hfr, hcovers, hentries⟩ := h
  obtain ⟨more, hmore⟩ := hgrow.made r.serviceName
  refine ⟨f, Nat.le_trans hf (hgrow.merged _), hfr, ?_, ?_⟩
  · rw [hmore, List.length_append]
    omega
  · rw [hmore, List.take_append_of_le_length hcovers, hentries]

theorem StageOk.grow {stage : ReportStage} {records : List TransientMapRecord}
    (h : g.StageOk records stage) (hgrow : Grows g g')
    (hwritten : g'.writtenRecords = g.writtenRecords) : g'.StageOk records stage := by
  cases stage with
  | idle => trivial
  | updated service reached complete =>
      obtain ⟨more, hmore⟩ := hgrow.made service
      have hreached : reached ≤ (g.made service).length := h
      show reached ≤ (g'.made service).length
      rw [hmore, List.length_append]
      omega
  | prepared service reached complete => exact h
  | waiting service reached complete => trivial
  | written service reached complete =>
      show g'.Reaches service reached
      rw [Reaches, hwritten]
      exact h

/-- Steps that leave the queue, the threads and the written records as they are. -/
theorem JournalOk.keep (h : JournalOk g) (hgrow : Grows g g')
    (hwritten : g'.writtenRecords = g.writtenRecords) (hqueue : g'.queue = g.queue)
    (hreports : g'.reports = g.reports) (hrecords : g'.nodeRecRecords = g.nodeRecRecords)
    (hacked : g'.acknowledged = g.acknowledged)
    (hnewest : ∃ lost, g'.writtenRecords = lost ++ g'.newestFile ∧
      ∀ r ∈ lost, r.covers ≤ g'.merged r.serviceName)
    (hold : g'.rotated = false → g'.oldFiles = [])
    (hactive : g'.rotated = true → g'.activeFile = []) : JournalOk g' := by
  refine ⟨?_, ?_, ?_, ?_, ?_, ?_, fun a ha => ?_, ?_, hnewest, hold, hactive⟩
  · rw [hreports, hrecords]
    exact fun l => (h.stages l).grow hgrow hwritten
  · rw [hrecords]
    exact fun l r hr => (h.prepared l r hr).grow hgrow
  · rw [hrecords]
    exact h.passOrder
  · rw [hqueue, hreports]
    exact fun e he => ⟨(h.queued e he).1.grow hgrow, (h.queued e he).2⟩
  · rw [hqueue]
    exact h.once
  · rw [hwritten]
    exact fun r hr => (h.written r hr).grow hgrow
  · rw [hacked] at ha
    rw [Reaches, hwritten]
    exact h.acknowledged a ha
  · rw [hwritten, hqueue]
    exact h.order

theorem JournalOk.grow (h : JournalOk g) {map : ComponentMapManager} {made : String → Transfers}
    (hgrow : Grows g { g with map := map, made := made }) :
    JournalOk { g with map := map, made := made } := by
  obtain ⟨lost, heq, hlost⟩ := h.newest
  exact h.keep hgrow rfl rfl rfl rfl rfl
    ⟨lost, heq, fun r hr => Nat.le_trans (hlost r hr) (hgrow.merged _)⟩ h.oldFiles h.activeFile

theorem JournalOk.not_queued (h : JournalOk g)
    (hold : ∀ s n complete, g.reports l ≠ .waiting s n complete) :
    l ∉ g.queue.filterMap (·.1) := by
  intro hin
  obtain ⟨e, he, hl⟩ := List.mem_filterMap.mp hin
  obtain ⟨n, complete, hwaiting, -⟩ := (h.queued e he).2 l hl
  exact hold _ _ _ hwaiting

theorem JournalOk.setReport (h : JournalOk g) {stage : ReportStage}
    (hold : l ∉ g.queue.filterMap (·.1))
    (hnew : g.StageOk (g.nodeRecRecords l) stage) : JournalOk (g.setReport l stage) where
  stages l' := by
    by_cases hl : l' = l
    · subst hl
      have hstage : (g.setReport l' stage).reports l' = stage := Function.update_self ..
      rw [hstage]
      cases stage <;> exact hnew
    · have hstage : (g.setReport l stage).reports l' = g.reports l' := Function.update_of_ne hl ..
      rw [hstage]
      have hl' := h.stages l'
      cases hr : g.reports l' <;> rw [hr] at hl' <;> exact hl'
  prepared := h.prepared
  passOrder := h.passOrder
  queued e he := by
    obtain ⟨hsnap, hwaits⟩ := h.queued e he
    refine ⟨hsnap, fun l' hl' => ?_⟩
    obtain ⟨n, complete, hwaiting, hn⟩ := hwaits l' hl'
    have hne : l' ≠ l := fun heq => hold (List.mem_filterMap.mpr ⟨e, he, heq ▸ hl'⟩)
    exact ⟨n, complete, (Function.update_of_ne hne ..).trans hwaiting, hn⟩
  once := h.once
  written := h.written
  acknowledged := h.acknowledged
  order := h.order
  newest := h.newest
  oldFiles := h.oldFiles
  activeFile := h.activeFile

theorem stage_updated (g : GlobalLeader) (records : List TransientMapRecord) (service : String)
    (complete : Bool) : g.StageOk records (.updated service (g.made service).length complete) :=
  Nat.le_refl _

/-- A thread that has nothing prepared for the journal fills or clears its vector. -/
theorem JournalOk.setRecords (h : JournalOk g) (records : List TransientMapRecord)
    (hstage : ∀ s n complete, g.reports l ≠ .prepared s n complete)
    (hsnap : ∀ r ∈ records, g.Snapshot r)
    (horder : records.Pairwise fun r r' => r.serviceName = r'.serviceName → r.covers ≤ r'.covers) :
    JournalOk { g with nodeRecRecords := Function.update g.nodeRecRecords l records } := by
  refine ⟨fun l' => ?_, fun l' r hr => ?_, fun l' => ?_, h.queued, h.once, h.written,
    h.acknowledged, h.order, h.newest, h.oldFiles, h.activeFile⟩
  · have hok := h.stages l'
    by_cases hl : l' = l
    · subst hl
      cases hr : g.reports l' with
      | prepared s n complete => exact absurd hr (hstage s n complete)
      | idle | updated | waiting | written =>
          rw [hr] at hok
          exact hok
    · simp only [Function.update_of_ne hl]
      exact hok
  · by_cases hl : l' = l
    · subst hl
      simp only [Function.update_self] at hr
      exact hsnap r hr
    · simp only [Function.update_of_ne hl] at hr
      exact h.prepared l' r hr
  · by_cases hl : l' = l
    · subst hl
      simp only [Function.update_self]
      exact horder
    · simp only [Function.update_of_ne hl]
      exact h.passOrder l'

/-! ### The maps -/

theorem MapsOk.same (h : MapsOk g) (hmade : g'.made = g.made) (hmap : g'.map = g.map) :
    MapsOk g' := by
  have hmerged : ∀ s, g'.merged s = g.merged s := fun s => by rw [merged, hmade, hmap, merged]
  refine ⟨?_, ?_, fun s => ?_, fun s => ?_⟩
  · rw [hmade, hmap]
    exact h.known
  · rw [hmap]
    exact h.files
  · rw [hmade, hmap, hmerged]
    exact h.basic s
  · rw [hmade, hmap, hmerged]
    exact h.transient s

theorem MapsOk.inRange (h : MapsOk g) : g.map.TransfersInRange := by
  intro s hs basic hbasic e he
  rw [← h.transient] at he
  exact (h.basic s hs basic hbasic).1 e (List.mem_of_mem_drop he)

/-- Transfers of components that the services have are added to the transient lists. -/
theorem MapsOk.transfer (h : MapsOk g) (more : String → Transfers)
    (hmade : ∀ s, g'.made s = g.made s ++ more s)
    (htransfers : ∀ s, g'.map.transfersFor s = g.map.transfersFor s ++ more s)
    (hbasic : ∀ s, g'.map.basicOwners s = g.map.basicOwners s)
    (hfiles : ∀ s, g'.map.fileOwners s = g.map.fileOwners s)
    (hrange : ∀ s, more s ≠ [] → s ∈ mergedServices ∧
      ∃ basic ∈ g.map.basicOwners s, InRange basic.length (more s)) :
    MapsOk g' ∧ Grows g g' := by
  have hmerged : ∀ s, g'.merged s = g.merged s := fun s => by
    rw [merged, hmade, htransfers, List.length_append, List.length_append,
      Nat.add_sub_add_right, merged]
  have htake : ∀ s, (g'.made s).take (g'.merged s) = (g.made s).take (g.merged s) := fun s => by
    rw [hmerged, hmade, List.take_append_of_le_length (g.merged_le s)]
  refine ⟨⟨fun s hs => ?_, fun s hs => ?_, fun s hs basic hb => ?_, fun s => ?_⟩,
    ⟨fun s => ⟨more s, hmade s⟩, fun s => Nat.le_of_eq (hmerged s).symm⟩⟩
  · rw [hbasic]
    by_cases hold : g.made s = []
    · obtain ⟨hin, basic, hb, -⟩ := hrange s fun hmore => hs (by rw [hmade, hold, hmore]; rfl)
      exact ⟨hin, by rw [hb]; rfl⟩
    · exact h.known s hold
  · rw [hfiles, hbasic, h.files s hs]
  · rw [hbasic] at hb
    obtain ⟨hmade', initial, hinitial⟩ := h.basic s hs basic hb
    refine ⟨?_, initial, by rw [htake, hinitial]⟩
    intro e he
    rw [hmade] at he
    rcases List.mem_append.mp he with he | he
    · exact hmade' e he
    · obtain ⟨-, basic', hb', hin⟩ := hrange s (List.ne_nil_of_mem he)
      obtain rfl := Option.some.inj (hb.symm.trans hb')
      exact hin e he
  · rw [hmerged, hmade, List.drop_append_of_le_length (g.merged_le s), h.transient, htransfers]

theorem MapsOk.plan (h : MapsOk g) (service : String) (component : Int)
    (record : ComponentInfoRecord) :
    MapsOk { g with map := g.map.addEntryInGlobalPlannedMap service component record } ∧
      Grows g { g with map := g.map.addEntryInGlobalPlannedMap service component record } := by
  refine h.transfer (fun _ => []) (by simp) (fun s => ?_) (fun s => ?_) (fun s => ?_)
    (fun s hs => absurd rfl hs)
  · simp only [List.append_nil, ComponentMapManager.addEntryInGlobalPlannedMap]
    split <;> rfl
  · simp [ComponentMapManager.basicOwners]
  · simp only [ComponentMapManager.fileOwners, ComponentMapManager.addEntryInGlobalPlannedMap]
    split <;> rfl

theorem MapsOk.update (h : MapsOk g) {service : String} {left settled transferred : Transfers}
    {map : ComponentMapManager}
    (ht : ComponentMapManager.Transferred g.map service left settled map)
    (hsub : settled.Sublist transferred)
    (hsafe : service ∈ mergedServices ∧ ∃ basic ∈ g.map.basicOwners service,
      InRange basic.length transferred) :
    MapsOk { g with
      map := map
      made := Function.update g.made service (g.made service ++ settled) } ∧
      Grows g { g with
        map := map, made := Function.update g.made service (g.made service ++ settled) } := by
  refine h.transfer (fun s => if service = s then settled else []) (fun s => ?_) (fun s => ?_)
    (fun s => ?_) (fun s => ?_) (fun s hs => ?_)
  · by_cases hs : service = s
    · subst hs
      simp
    · have hs' : s ≠ service := fun heq => hs heq.symm
      simp [hs, hs']
  · rw [ht.transfersFor]
    by_cases hs : service = s <;> simp [hs]
  · simp [ComponentMapManager.basicOwners, ht.basicMap]
  · simp [ComponentMapManager.fileOwners, ht.componentInfoFiles]
  · by_cases heq : service = s
    · subst heq
      obtain ⟨hin, basic, hb, hrange⟩ := hsafe
      rw [if_pos rfl]
      exact ⟨hin, basic, hb, fun e he => hrange e (hsub.subset he)⟩
    · rw [if_neg heq] at hs
      exact absurd rfl hs

theorem MapsOk.merge (h : MapsOk g) {map : ComponentMapManager}
    (hmerge : g.map.mergeBasicAndTransientMap = some map) :
    MapsOk { g with map := map } ∧ Grows g { g with map := map } := by
  obtain ⟨map', hmerge', hm, -, howners⟩ := ComponentMapManager.merge_owners h.inRange
  obtain rfl := Option.some.inj (hmerge.symm.trans hmerge')
  have hnone : ∀ s, map.transfersFor s = [] := fun s => by
    simp [ComponentMapManager.transfersFor, hm.transientMap]
  have hall : ∀ s, merged { g with map := map } s = (g.made s).length := fun s => by
    simp [merged, hnone]
  have hlength : ∀ s, (map.basicOwners s).map (·.length) = (g.map.basicOwners s).map (·.length) :=
    fun s => by rw [(howners s).2, ComponentMapManager.length_owners h.inRange]
  refine ⟨⟨fun s hs => ?_, fun s hs => hm.fileOwners hs (h.files s hs), fun s hs basic hb => ?_,
    fun s => ?_⟩, ⟨fun s => ⟨[], (List.append_nil _).symm⟩, fun s => ?_⟩⟩
  · obtain ⟨hin, hsome⟩ := h.known s hs
    obtain ⟨basic, hb⟩ := Option.isSome_iff_exists.mp hsome
    have hmap := hlength s
    rw [hb, Option.map_some] at hmap
    obtain ⟨basic', hb', -⟩ := Option.map_eq_some_iff.mp hmap
    exact ⟨hin, by rw [hb']; rfl⟩
  · have hover := (ComponentMapManager.owners_spec h.inRange s).1 hs
    rw [← (howners s).2, hb] at hover
    cases hold : g.map.basicOwners s with
    | none =>
        rw [hold] at hover
        cases Option.some.inj hover
    | some old =>
        rw [hold] at hover
        obtain ⟨ys, hys, hsome⟩ := Option.map_eq_some_iff.mp hover
        obtain rfl := Option.some.inj hsome
        obtain ⟨hrange, initial, hinitial⟩ := h.basic s hs old hold
        refine ⟨by rwa [overlay_length hys], initial, ?_⟩
        have hmade : (g.made s).take (g.made s).length =
            (g.made s).take (g.merged s) ++ g.map.transfersFor s := by
          rw [← h.transient, List.take_append_drop, List.take_length]
        rw [hall, hmade, overlay_append, hinitial, Option.bind_some, hys]
  · rw [hall, List.drop_length, hnone]
  · rw [hall]
    exact g.merged_le s

theorem start_ok {files : TreeMap String CompleteComponentRecord}
    {journalFile : List TransientMapRecord} (hstart : start files journalFile = some g) :
    MapsOk g ∧ JournalOk g := by
  obtain ⟨map, hmap, rfl⟩ := Option.map_eq_some_iff.mp hstart
  obtain ⟨m, hmerge, hfiles, hbasic, -⟩ := ComponentMapManager.recovered_spec files journalFile
  rcases m.mergeBasicAndTransientMap_spec with ⟨hnone, -⟩ | ⟨map', hmerge', hm⟩
  · rw [hmerge, hmap] at hnone
    cases hnone
  obtain rfl := Option.some.inj ((hmap.symm.trans hmerge.symm).trans hmerge')
  have hnone : ∀ s, map.transfersFor s = [] := fun s => by
    simp [ComponentMapManager.transfersFor, hm.transientMap]
  refine ⟨⟨fun s hs => absurd rfl hs, fun s hs => hm.fileOwners hs ?_, fun s hs basic hb => ?_,
    fun s => by simp [hnone]⟩, ?_⟩
  · rw [hbasic s hs, ComponentMapManager.fileOwners, hfiles]
  · exact ⟨fun e he => absurd he (by simp), basic, by simp⟩
  · exact ⟨fun _ => trivial, fun _ _ hr => absurd hr (by simp), fun _ => List.Pairwise.nil,
      fun _ he => absurd he (by simp), List.nodup_nil,
      fun _ hr => absurd hr (by simp), fun _ ha => absurd ha (by simp), List.Pairwise.nil,
      ⟨[], rfl, fun _ hr => absurd hr (by simp)⟩, fun _ => rfl, fun h => by cases h⟩

/-- A record of the whole transient list covers all transfers made so far. -/
theorem snapshot_now (h : MapsOk g) (service : String) (version : Rat) :
    g.Snapshot ⟨service, g.map.transfersFor service, version, (g.made service).length⟩ :=
  ⟨g.merged service, Nat.le_refl _, g.merged_le service, Nat.le_refl _, by
    rw [List.take_length, h.transient]⟩

theorem Snapshot.covers_le {r : TransientMapRecord} (h : g.Snapshot r) :
    r.covers ≤ (g.made r.serviceName).length := by
  obtain ⟨-, -, -, hcovers, -⟩ := h
  exact hcovers

theorem JournalOk.prepare (hm : MapsOk g) (h : JournalOk g) {service : String} {reached : Nat}
    {complete : Bool} (hl : g.reports l = .updated service reached complete) (version : Rat) :
    JournalOk ({ g with
      nodeRecRecords := Function.update g.nodeRecRecords l (g.nodeRecRecords l ++
        [TransientMapRecord.mk service (g.map.transfersFor service) version
          (g.made service).length]) }.setReport l (.prepared service reached complete)) := by
  have hnew := snapshot_now hm service version
  have hreached : reached ≤ (g.made service).length := by
    simpa [StageOk, hl] using h.stages l
  have hrecords := h.setRecords (l := l)
    (g.nodeRecRecords l ++
      [⟨service, g.map.transfersFor service, version, (g.made service).length⟩])
    (fun s n c hr => by rw [hl] at hr; cases hr) (fun r hr => ?_) ?_
  · refine hrecords.setReport (h.not_queued fun s n c hr => ?_) ?_
    · rw [hl] at hr
      cases hr
    · simp [StageOk, hreached]
  · rcases List.mem_append.mp hr with hr | hr
    · exact h.prepared l r hr
    · obtain rfl := List.mem_singleton.mp hr
      exact hnew
  · refine List.pairwise_append.mpr
      ⟨h.passOrder l, List.pairwise_singleton .., fun r hr r' hr' => ?_⟩
    obtain rfl := List.mem_singleton.mp hr'
    rintro rfl
    exact (h.prepared l r hr).covers_le

theorem map_snd_addEntryInJournal (l : Nat) (records : List TransientMapRecord) :
    (addEntryInJournal l records).map (·.2) = records := by
  rcases List.eq_nil_or_concat' records with rfl | ⟨front, last, rfl⟩
  · rfl
  · simp [addEntryInJournal, Function.comp_def]

theorem filterMap_fst_addEntryInJournal (l : Nat) (records : List TransientMapRecord) :
    (addEntryInJournal l records).filterMap (·.1) = records.getLast?.toList.map fun _ => l := by
  simp only [addEntryInJournal, List.filterMap_append, List.filterMap_map, Function.comp_def]
  simp

theorem JournalOk.push (h : JournalOk g) {service : String} {reached : Nat} {complete : Bool}
    (hl : g.reports l = .prepared service reached complete)
    (hsafe : ∀ r ∈ g.writtenRecords ++ g.queue.map (·.2), ∀ r' ∈ g.nodeRecRecords l,
      r.serviceName = r'.serviceName → r.covers ≤ r'.covers) :
    JournalOk ({ g with
      queue := g.queue ++ addEntryInJournal l (g.nodeRecRecords l) }.setReport l
        (.waiting service reached complete)) where
  stages l' := by
    by_cases hl' : l' = l
    · subst hl'
      simp [GlobalLeader.setReport, StageOk]
    · have hstage : ({ g with
          queue := g.queue ++ addEntryInJournal l (g.nodeRecRecords l) }.setReport l
            (.waiting service reached complete)).reports l' = g.reports l' :=
        Function.update_of_ne hl' ..
      rw [hstage]
      have hok := h.stages l'
      cases hr : g.reports l' <;> rw [hr] at hok <;> exact hok
  prepared := h.prepared
  passOrder := h.passOrder
  queued e he := by
    obtain ⟨record, hlast, hservice, hreached⟩ : ∃ record ∈ (g.nodeRecRecords l).getLast?,
        record.serviceName = service ∧ reached ≤ record.covers := by
      simpa [StageOk, hl] using h.stages l
    rcases List.mem_append.mp he with he | he
    · obtain ⟨hsnap, hwaits⟩ := h.queued e he
      refine ⟨hsnap, fun l' hl' => ?_⟩
      obtain ⟨n, complete', hwaiting, hn⟩ := hwaits l' hl'
      have hne : l' ≠ l := fun heq => by
        rw [heq, hl] at hwaiting
        cases hwaiting
      exact ⟨n, complete', (Function.update_of_ne hne ..).trans hwaiting, hn⟩
    · have hin : e.2 ∈ g.nodeRecRecords l := by
        rw [← map_snd_addEntryInJournal l (g.nodeRecRecords l)]
        exact List.mem_map_of_mem he
      refine ⟨h.prepared l e.2 hin, fun l' hl' => ?_⟩
      rw [addEntryInJournal, Option.mem_def.mp hlast] at he
      rcases List.mem_append.mp he with he | he
      · obtain ⟨r, -, rfl⟩ := List.mem_map.mp he
        cases hl'
      · obtain rfl : e = (some l, record) := by simpa using he
        obtain rfl := Option.some.inj hl'
        exact ⟨reached, complete, by simp [GlobalLeader.setReport, hservice], hreached⟩
  once := by
    have hnotin := h.not_queued (l := l) fun s n c hr => by
      rw [hl] at hr
      cases hr
    simp only [GlobalLeader.setReport, List.filterMap_append, filterMap_fst_addEntryInJournal]
    refine List.nodup_append.mpr ⟨h.once, ?_, fun a ha b hb => ?_⟩
    · cases (g.nodeRecRecords l).getLast? <;> simp
    · obtain ⟨-, -, rfl⟩ := List.mem_map.mp hb
      rintro rfl
      exact hnotin ha
  written := h.written
  acknowledged := h.acknowledged
  order := by
    simp only [GlobalLeader.setReport, List.map_append, map_snd_addEntryInJournal]
    rw [← List.append_assoc]
    exact List.pairwise_append.mpr ⟨h.order, h.passOrder l, hsafe⟩
  newest := h.newest
  oldFiles := h.oldFiles
  activeFile := h.activeFile

theorem newestFile_single (hold : g.oldFiles = []) : g.newestFile = g.activeFile := by
  rw [newestFile, hold]
  cases h : g.activeFile <;> simp

theorem Reaches.written {s : String} {n : Nat} (h : g.Reaches s n)
    (hwritten : ∀ r ∈ g.writtenRecords, r ∈ g'.writtenRecords) : g'.Reaches s n := by
  obtain ⟨r, hr, hservice, hn⟩ := h
  exact ⟨r, hwritten r hr, hservice, hn⟩

theorem JournalOk.writeRecord (h : JournalOk g) {notified : Option Nat}
    {record : TransientMapRecord} {queue : List (Option Nat × TransientMapRecord)}
    (hrotated : g.rotated = false) (hqueue : g.queue = (notified, record) :: queue) :
    JournalOk { g with
      queue := queue
      activeFile := g.activeFile ++ [record]
      writtenRecords := g.writtenRecords ++ [record] } := by
  have hhead : (notified, record) ∈ g.queue := hqueue ▸ List.mem_cons_self
  have htail : ∀ e ∈ queue, e ∈ g.queue := fun e he => hqueue ▸ List.mem_cons_of_mem _ he
  have hold := h.oldFiles hrotated
  have hkept : ∀ r ∈ g.writtenRecords, r ∈ g.writtenRecords ++ [record] := fun r hr =>
    List.mem_append_left _ hr
  constructor
  · intro l'
    have hok := h.stages l'
    cases hr : g.reports l' <;> rw [hr] at hok <;>
      first | exact hok | exact hok.written hkept
  · exact h.prepared
  · exact h.passOrder
  · exact fun e he => h.queued e (htail e he)
  · have honce := h.once
    rw [hqueue, List.filterMap_cons] at honce
    split at honce
    · exact honce
    · exact honce.of_cons
  · intro r hr
    rcases List.mem_append.mp hr with hr | hr
    · exact h.written r hr
    · obtain rfl := List.mem_singleton.mp hr
      exact (h.queued _ hhead).1
  · exact fun a ha => (h.acknowledged a ha).written hkept
  · have horder := h.order
    rw [hqueue, List.map_cons, ← List.singleton_append, ← List.append_assoc] at horder
    exact horder
  · obtain ⟨lost, heq, hlost⟩ := h.newest
    refine ⟨lost, ?_, hlost⟩
    rw [newestFile_single hold] at heq
    show g.writtenRecords ++ [record] = lost ++ newestFile { g with
      queue := queue
      activeFile := g.activeFile ++ [record]
      writtenRecords := g.writtenRecords ++ [record] }
    rw [newestFile_single (by exact hold), heq, List.append_assoc]
  · exact fun _ => hold
  · intro hr
    simp [hrotated] at hr

theorem JournalOk.write (h : JournalOk g) {service : String} {reached : Nat} {complete : Bool}
    {record : TransientMapRecord} {queue : List (Option Nat × TransientMapRecord)}
    (hrotated : g.rotated = false) (hqueue : g.queue = (some l, record) :: queue)
    (hl : g.reports l = .waiting service reached complete) :
    JournalOk ({ g with
      queue := queue
      activeFile := g.activeFile ++ [record]
      writtenRecords := g.writtenRecords ++ [record] }.setReport l
        (.written service reached complete)) := by
  have hhead : (some l, record) ∈ g.queue := hqueue ▸ List.mem_cons_self
  obtain ⟨n, complete', hwaiting, hn⟩ := (h.queued _ hhead).2 l rfl
  obtain ⟨rfl, rfl, rfl⟩ := ReportStage.waiting.inj (hl.symm.trans hwaiting)
  have honce := h.once
  rw [hqueue, List.filterMap_cons] at honce
  have hnotin := (List.nodup_cons.mp honce).1
  exact (h.writeRecord hrotated hqueue).setReport hnotin ⟨record, by simp, rfl, hn⟩

theorem Grows.refl (g : GlobalLeader) : Grows g g :=
  ⟨fun _ => ⟨[], (List.append_nil _).symm⟩, fun _ => Nat.le_refl _⟩

theorem JournalOk.rotate (h : JournalOk g) (hrotated : g.rotated = false) :
    JournalOk { g with
      activeFile := [], oldFiles := g.activeFile :: g.oldFiles, rotated := true } := by
  obtain ⟨lost, heq, hlost⟩ := h.newest
  refine h.keep ⟨(Grows.refl g).made, (Grows.refl g).merged⟩ rfl rfl rfl rfl rfl ⟨lost, ?_, hlost⟩
    (fun h => by cases h) fun _ => rfl
  rw [heq, newestFile_single (h.oldFiles hrotated), newestFile]
  cases g.activeFile <;> simp [h.oldFiles hrotated]

theorem JournalOk.remove (h : JournalOk g) (hmerged : g.JournalMerged) {rotated : Bool} :
    JournalOk { g with activeFile := [], oldFiles := [], rotated := rotated } := by
  obtain ⟨lost, heq, hlost⟩ := h.newest
  refine h.keep ⟨(Grows.refl g).made, (Grows.refl g).merged⟩ rfl rfl rfl rfl rfl
    ⟨g.writtenRecords, (List.append_nil _).symm, fun r hr => ?_⟩ (fun _ => rfl) fun _ => rfl
  rw [heq] at hr
  rcases List.mem_append.mp hr with hr | hr
  · exact hlost r hr
  · exact hmerged r hr

theorem step_ok (hm : MapsOk g) (hj : JournalOk g) {a : TransferStep} (hsafe : g.Safe a)
    (hstep : g.step a = some g') : MapsOk g' ∧ JournalOk g' := by
  cases a with
  | plan service component record =>
      obtain rfl := Option.some.inj hstep
      obtain ⟨hm', hgrow⟩ := hm.plan service component record
      exact ⟨hm', hj.grow hgrow⟩
  | beginPass l =>
      simp only [step] at hstep
      split at hstep
      · rename_i hl
        obtain rfl := Option.some.inj hstep
        exact ⟨hm.same rfl rfl, hj.setRecords [] (fun s n c h => by rw [hl] at h; cases h) (by simp)
          List.Pairwise.nil⟩
      · cases hstep
  | updateTransientMap l service transferred =>
      obtain ⟨complete, map, hupdate, ht⟩ := g.map.updateTransientMap_spec service transferred
      simp only [step] at hstep
      split at hstep
      · rename_i hl
        rw [hupdate] at hstep
        obtain rfl := Option.some.inj hstep
        obtain ⟨hm', hgrow⟩ := hm.update ht (settled_sublist _ _) hsafe
        have hj' := (hj.grow hgrow).setReport (l := l)
          (hj.not_queued fun s n c h => by rw [hl] at h; cases h)
          (stage_updated _ _ service complete)
        simp only [Function.update_self] at hj'
        exact ⟨hm'.same rfl rfl, hj'⟩
      · cases hstep
  | prepareTransientRecord l =>
      simp only [step] at hstep
      split at hstep
      · rename_i service reached complete hl
        obtain rfl := Option.some.inj hstep
        exact ⟨hm.same rfl rfl, hj.prepare hm hl _⟩
      · cases hstep
  | addEntryInJournal l =>
      simp only [step] at hstep
      split at hstep
      · rename_i service reached complete hl
        obtain rfl := Option.some.inj hstep
        exact ⟨hm.same rfl rfl, hj.push hl hsafe⟩
      · cases hstep
  | rotateFile =>
      simp only [step] at hstep
      split at hstep
      · cases hstep
      · rename_i hrotated
        obtain rfl := Option.some.inj hstep
        exact ⟨hm.same rfl rfl, hj.rotate (by simpa using hrotated)⟩
  | removeOldFiles =>
      simp only [step] at hstep
      split at hstep
      · rename_i hrotated
        obtain rfl := Option.some.inj hstep
        have hremoved : JournalOk { g with activeFile := [], oldFiles := [], rotated := false } :=
          hj.remove hsafe
        rw [← hj.activeFile hrotated] at hremoved
        exact ⟨hm.same rfl rfl, hremoved⟩
      · cases hstep
  | write =>
      simp only [step] at hstep
      split at hstep
      · rename_i record queue hrotated hqueue
        obtain rfl := Option.some.inj hstep
        exact ⟨hm.same rfl rfl, hj.writeRecord hrotated hqueue⟩
      · rename_i l record queue hrotated hqueue
        split at hstep
        · rename_i service reached complete hl
          obtain rfl := Option.some.inj hstep
          exact ⟨hm.same rfl rfl, hj.write hrotated hqueue hl⟩
        · cases hstep
      · cases hstep
  | sendAck l =>
      simp only [step] at hstep
      split at hstep
      · rename_i service reached complete hl
        have hreaches : g.Reaches service reached := by simpa [StageOk, hl] using hj.stages l
        have hidle : JournalOk (g.setReport l .idle) :=
          hj.setReport (hj.not_queued fun s n c h => by rw [hl] at h; cases h) trivial
        split at hstep
        · obtain ⟨_, -, rfl⟩ := Option.map_eq_some_iff.mp hstep
          refine ⟨hm.same rfl rfl, { hidle with acknowledged := fun a ha => ?_ }⟩
          rcases List.mem_cons.mp ha with rfl | ha
          · exact hreaches
          · exact hj.acknowledged a ha
        · obtain rfl := Option.some.inj hstep
          exact ⟨hm.same rfl rfl, hidle⟩
      · cases hstep
  | merge =>
      obtain ⟨map, hmerge, rfl⟩ := Option.map_eq_some_iff.mp hstep
      obtain ⟨hm', hgrow⟩ := hm.merge hmerge
      exact ⟨hm', hj.grow hgrow⟩
  | newJournal =>
      obtain rfl := Option.some.inj hstep
      exact ⟨hm.same rfl rfl, hj.remove hsafe⟩

/-! ### Restarts -/

/-- The last record of a service in the newest file covers all written ones; without one, all that
are written cover merged transfers only. -/
theorem JournalOk.replayed (h : JournalOk g) {s : String} {n : Nat} (hreaches : g.Reaches s n) :
    match ComponentMapManager.replayed g.newestFile s with
    | some r => g.Snapshot r ∧ r.serviceName = s ∧ n ≤ r.covers
    | none => n ≤ g.merged s := by
  obtain ⟨r₀, hr₀, rfl, hn⟩ := hreaches
  obtain ⟨lost, heq, hlost⟩ := h.newest
  have horder := (List.pairwise_append.mp h.order).1
  rw [heq] at hr₀ horder
  cases hlast : ComponentMapManager.replayed g.newestFile r₀.serviceName with
  | none =>
      rcases List.mem_append.mp hr₀ with hr₀ | hr₀
      · exact Nat.le_trans hn (hlost r₀ hr₀)
      · exact absurd rfl (ComponentMapManager.replayed_eq_none hlast r₀ hr₀)
  | some r =>
      have hr := ComponentMapManager.replayed_mem hlast
      obtain ⟨hservice, before, after, hsplit, hafter⟩ :=
        ComponentMapManager.replayed_eq_some hlast
      refine ⟨h.written r (by rw [heq]; exact List.mem_append_right _ hr), hservice,
        Nat.le_trans hn ?_⟩
      rw [hsplit, ← List.append_assoc] at hr₀ horder
      rcases List.mem_append.mp hr₀ with hr₀ | hr₀
      · exact (List.pairwise_append.mp horder).2.2 r₀ hr₀ r List.mem_cons_self hservice.symm
      · rcases List.mem_cons.mp hr₀ with rfl | hr₀
        · exact Nat.le_refl _
        · exact absurd rfl (hafter r₀ hr₀)

theorem ownersRecovered (hm : MapsOk g) (hj : JournalOk g) : g.OwnersRecovered := by
  obtain ⟨m, hmerge, -, hbasic, htransfers⟩ :=
    ComponentMapManager.recovered_spec g.map.componentInfoFiles g.newestFile
  have hsame : ∀ s ∈ mergedServices, m.basicOwners s = g.map.basicOwners s := fun s hs => by
    rw [hbasic s hs, ← hm.files s hs, ComponentMapManager.fileOwners]
  -- what is replayed for a service is a part of its transfers
  have hpart : ∀ s, ∃ f u, f ≤ g.merged s ∧ f ≤ u ∧
      m.transfersFor s = ((g.made s).take u).drop f ∧
      ∀ n, g.Reaches s n → n ≤ u ∨ (n ≤ g.merged s ∧ m.transfersFor s = []) := by
    intro s
    rw [htransfers]
    cases hlast : ComponentMapManager.replayed g.newestFile s with
    | none =>
        refine ⟨0, 0, Nat.zero_le _, Nat.le_refl _, by simp, fun n hn => .inr ⟨?_, rfl⟩⟩
        simpa [hlast] using hj.replayed hn
    | some r =>
        have hr := ComponentMapManager.replayed_mem hlast
        obtain ⟨rfl, -⟩ := ComponentMapManager.replayed_eq_some hlast
        obtain ⟨lost, heq, -⟩ := hj.newest
        obtain ⟨f, hf, hfu, -, hentries⟩ :=
          hj.written r (by rw [heq]; exact List.mem_append_right _ hr)
        refine ⟨f, r.covers, hf, hfu, hentries, fun n hn => .inl ?_⟩
        have hreplayed := hj.replayed hn
        rw [hlast] at hreplayed
        exact hreplayed.2.2
  have hrange : m.TransfersInRange := by
    intro s hs basic hb e he
    obtain ⟨f, u, -, -, heq, -⟩ := hpart s
    rw [heq] at he
    exact (hm.basic s hs basic (hsame s hs ▸ hb)).1 e
      (List.mem_of_mem_take (List.mem_of_mem_drop he))
  obtain ⟨m', hmerge', -, -, howners⟩ := ComponentMapManager.merge_owners hrange
  refine ⟨m', hmerge.symm.trans hmerge', ?_⟩
  rintro ⟨s, n⟩ ha ⟨c, o⟩ he hlast hrest
  have hmade : g.made s ≠ [] := List.ne_nil_of_mem (List.mem_of_mem_take he)
  obtain ⟨hs, hsome⟩ := hm.known s hmade
  obtain ⟨basic, hb⟩ := Option.isSome_iff_exists.mp hsome
  obtain ⟨hin, initial, hinitial⟩ := hm.basic s hs basic hb
  obtain ⟨hc, hlt⟩ := hin _ (List.mem_of_mem_take he)
  obtain ⟨i, rfl⟩ := Int.eq_ofNat_of_zero_le hc
  have hi : i < basic.length := by simpa using hlt
  have hover := (ComponentMapManager.owners_spec hrange s).1 hs
  rw [hsame s hs, hb] at hover
  obtain ⟨ys, hys, hsome⟩ := Option.map_eq_some_iff.mp hover
  -- the recovered owner is decided by the replayed part, and behind it by the merged transfers
  have howner : m'.owner s i = (lastAt (m.transfersFor s) i).or
      ((lastAt ((g.made s).take (g.merged s)) i).or initial[i]?) := by
    rw [ComponentMapManager.owner_eq, (howners s).1, ← hsome, Option.bind_some,
      overlay_getElem? hys hi, overlay_getElem? hinitial (by rwa [← overlay_length hinitial])]
  obtain ⟨f, u, hf, hfu, heq, hreach⟩ := hpart s
  have hdecided : (lastAt (m.transfersFor s) i).or (lastAt ((g.made s).take (g.merged s)) i) =
      some o := by
    rcases hreach n (hj.acknowledged (s, n) ha) with hn | ⟨hn, hempty⟩
    · rw [heq]
      exact lastAt_part_or_take hf hfu hn hlast hrest
    · rw [hempty, lastAt_nil, Option.none_or]
      exact lastAt_take_of_le hn hlast hrest
  show m'.owner s i = some o
  rw [howner, ← Option.or_assoc, hdecided, Option.some_or]

open ComponentMapManager in
/-- Two container components and one account component. -/
def twoServices : TreeMap String CompleteComponentRecord :=
  ((∅ : TreeMap String CompleteComponentRecord).insert containerService
    ⟨[oneOwner, oneOwner], 1, 2⟩).insert accountService ⟨[thirdOwner], 1, 2⟩

/-- A transfer that is planned and reported, up to the queueing of its record. -/
def reportTransfer (l : Nat) (service : String) (e : Int × ComponentInfoRecord) :
    List TransferStep :=
  [.plan service e.1 e.2, .updateTransientMap l service [e], .prepareTransientRecord l,
    .addEntryInJournal l]

open ComponentMapManager in
/-- A container component is transferred, merged, and the file rotates for an account component of
the same pass, with which the record of the first transfer is queued again. -/
def rotationAfterMerge : List TransferStep :=
  .beginPass 0 :: reportTransfer 0 containerService (0, otherOwner) ++
    [.write, .sendAck 0, .merge, .rotateFile] ++
    reportTransfer 0 accountService (0, oneOwner) ++ [.removeOldFiles, .write, .write, .sendAck 0]

end GlobalLeader

end ObjectStorage.Osm
