import Mathlib.Logic.Function.Basic
import Mathlib.Data.Int.Basic
import ObjectStorage.Library.ThreadTable
import ObjectStorage.Library.Transition
import ObjectStorage.Routing.ComponentNumber

/-!
The container service between requests on components and transfers of components: the count of the
requests of each component, the two block lists, and the green threads of requests, transfers and
accepts.
-/

namespace ObjectStorage.Service

open Library Routing
open Transaction (hexDigit? isStreamSpace)

/-- A Python value, as dictionaries and lists compare it. -/
inductive Value
  | int (n : Int)
  | str (s : String)
  | list (ns : List Int)
  deriving DecidableEq, Repr

/-- `int(s)`, which raises `ValueError` for anything but digits. -/
def pythonInt (s : String) : Option Int :=
  let cs := ((s.toList.dropWhile isStreamSpace).reverse.dropWhile isStreamSpace).reverse
  let (negative, digits) := takeSign cs
  if digits ≠ [] ∧ digits.all Char.isDigit then
    let value : Int := Nat.ofDigitChars 10 digits 0
    some (if negative then -value else value)
  else none

/-- Versions of the global map are counted in millionths. -/
def versionUnit : Int := 1000000

def floatComp (a b : Int) : Int :=
  let scale := if a ≠ 0 ∧ 0 ≠ b then max a.natAbs b.natAbs else versionUnit.natAbs
  if (a - b).natAbs * 10 ^ 8 ≤ scale then 0 else a - b

def majorVersion (version : Int) : Int := version.tdiv versionUnit

def additionInCompRequestDict (dict : Value → Option Int) (comp : Value) : Value → Option Int :=
  match dict comp with
  | none => Function.update dict comp (some 1)
  | some n => Function.update dict comp (some (n + 1))

/-- A component that is not a key raises `KeyError`, which is caught. -/
def deletionInCompRequestDict (dict : Value → Option Int) (comp : Value) : Value → Option Int :=
  match dict comp with
  | none => dict
  | some n =>
      if n - 1 = 0 then Function.update dict comp none
      else Function.update dict comp (some (n - 1))

def searchInCompRequestDict (dict : Value → Option Int) (comps : List Value) : Bool :=
  comps.any fun comp => (dict comp).isSome

structure ContainerController where
  globalMapVersion : Int
  globalMapMajorVersion : Int
  compRequestDict : Value → Option Int
  blockedComponentList : List Int
  acceptCompBlockList : List Int

/-- What `__call__` reads of a request, and the component its container belongs to. -/
structure Request where
  validPath : Bool
  mapVersion : Option Int
  publicMethod : Bool
  componentNumber : Option String
  component : Int
  deriving DecidableEq, Repr

/-- The component number that is counted and checked, if it is given. -/
def Request.header (r : Request) : Option String := r.componentNumber.filter (· ≠ "")

inductive RequestState
  | loadingMap (r : Request) (blockRequest : Bool)
  | committing (r : Request) (blockRequest : Bool)
  | executing (r : Request)
  | done
  deriving DecidableEq, Repr

namespace ContainerController

variable (c : ContainerController)

def checkBlockStatus (componentName : String) : Option Bool :=
  (pythonInt componentName).map fun n =>
    decide (n ∈ c.blockedComponentList ∨ n ∈ c.acceptCompBlockList)

def cleanBlockComponentList : ContainerController := { c with blockedComponentList := [] }

def checkMapVersion (mapVersion : Int) : Nat :=
  let mapDiff := floatComp c.globalMapVersion mapVersion
  if mapDiff > 0 then 1 else if mapDiff < 0 then 2 else 0

/-- The request starts its method. -/
def enter (r : Request) : ContainerController :=
  match r.header with
  | none => c
  | some name =>
      { c with compRequestDict := additionInCompRequestDict c.compRequestDict (.str name) }

/-- The end of `__call__`, reached by all requests that do not return before it. -/
def leave (r : Request) : ContainerController :=
  match r.header with
  | none => c
  | some name =>
      { c with compRequestDict := deletionInCompRequestDict c.compRequestDict (.str name) }

/-- The new global map; a new major version cleans the block list of the transfers. -/
def updateGlobalMap (version : Int) : ContainerController :=
  if majorVersion version > c.globalMapMajorVersion then
    { c.cleanBlockComponentList with
      globalMapVersion := version, globalMapMajorVersion := majorVersion version }
  else { c with globalMapVersion := version }

/-- What becomes of a request before any call yields; `none` is an answer without the method. -/
def dispatch (r : Request) : Option RequestState :=
  match r.mapVersion with
  | none => none
  | some mapVersion =>
      if !r.validPath || mapVersion = 0 || !r.publicMethod then none
      else
        let mapStatus := if mapVersion ≠ -versionUnit then c.checkMapVersion mapVersion else 0
        match r.header.elim (some false) c.checkBlockStatus with
        | none => none
        | some blockRequest =>
            if mapStatus = 1 then none
            else if mapStatus = 2 then some (.loadingMap r blockRequest)
            else if blockRequest then none
            else some (.executing r)

/-- `__call__` up to the first call that yields. -/
def call (r : Request) : ContainerController × RequestState :=
  match c.dispatch r with
  | some (.executing r) => (c.enter r, .executing r)
  | some state => (c, state)
  | none => (c.leave r, .done)

end ContainerController

inductive RequestEvent
  | globalMap (version : Option Int)
  | globalMapRaised
  | committed (ok : Bool)
  | finish
  deriving DecidableEq, Repr

/-- The rest of `__call__`. A global map that cannot be loaded returns past the end of it. -/
def requestStep (c : ContainerController) :
    RequestState → RequestEvent → Option (ContainerController × RequestState)
  | .loadingMap _ _, .globalMap none => some (c, .done)
  | .loadingMap r blockRequest, .globalMap (some version) =>
      some (c.updateGlobalMap version, .committing r blockRequest)
  | .loadingMap r _, .globalMapRaised => some (c.leave r, .done)
  | .committing r blockRequest, .committed ok =>
      if !ok || blockRequest then some (c.leave r, .done) else some (c.enter r, .executing r)
  | .executing r, .finish => some (c.leave r, .done)
  | _, _ => none

inductive TransferPhase
  | waitingForTransfers
  | waitingForRequests
  | connecting
  | containerData
  | transactionData
  | ended
  deriving DecidableEq, Repr

/-- A request TRANSFER_COMPONENTS with its thread that reports: the components of each destination
as received, those of the destinations still in the map, and those queued for the report. -/
structure Transfer where
  compTransferMap : List (List Int)
  phase : TransferPhase
  targets : List (List Int)
  listOfTuple : List (List Int)
  reporting : Bool
  deriving DecidableEq, Repr

/-- The components that are being transferred and not yet reported. -/
def Transfer.pending (t : Transfer) : List Int := t.targets.flatten ++ t.listOfTuple.flatten

namespace ContainerController

variable (c : ContainerController) (t : Transfer)

def waitForRequests : ContainerController × Transfer :=
  if searchInCompRequestDict c.compRequestDict (c.blockedComponentList.map .int) then
    (c, { t with phase := .waitingForRequests })
  else (c, { t with phase := .connecting })

def blockComponents : ContainerController × Transfer :=
  { c with blockedComponentList := c.blockedComponentList ++
    t.compTransferMap.flatten }.waitForRequests
    { t with targets := t.compTransferMap }

/-- `val in self.__blocked_component_list` for the values of the map, which are lists. -/
def waitForTransfers : ContainerController × Transfer :=
  if t.compTransferMap.any fun val => Value.list val ∈ c.blockedComponentList.map .int then
    (c, { t with phase := .waitingForTransfers })
  else c.blockComponents t

def transferComponents (compTransferMap : List (List Int)) : ContainerController × Transfer :=
  if compTransferMap = [] then (c, ⟨[], .ended, [], [], false⟩)
  else if 0 < c.blockedComponentList.length then
    c.waitForTransfers ⟨compTransferMap, .waitingForTransfers, [], [], true⟩
  else c.blockComponents ⟨compTransferMap, .waitingForTransfers, [], [], true⟩

end ContainerController

inductive TransferEvent
  | wake
  | extract
  | noConnection
  | refused (target : Nat)
  | unanswered (target : Nat)
  | containerDataSent
  | accepted (target : Nat)
  | transactionRefused (target : Nat)
  | reported (version : Option Int)
  | notifyFailed
  | ended
  deriving DecidableEq, Repr

/-- The steps of a transfer as far as they concern the block list. The maps of the destinations are
attributes that overlapping transfers share, so what comes after an answer is left open. -/
def transferStep (c : ContainerController) (t : Transfer) :
    TransferEvent → Option (ContainerController × Transfer)
  | .wake =>
      match t.phase with
      | .waitingForTransfers => some (c.waitForTransfers t)
      | .waitingForRequests => some (c.waitForRequests t)
      | _ => none
  | .extract =>
      if t.phase = .connecting then some (c, { t with phase := .containerData }) else none
  | .noConnection =>
      if t.phase = .containerData then
        some (c.cleanBlockComponentList, { t with phase := .ended, targets := [] })
      else none
  | .refused target =>
      if t.phase = .containerData ∧ target < t.targets.length then
        some (c.cleanBlockComponentList, { t with targets := t.targets.eraseIdx target })
      else none
  | .unanswered target =>
      if t.phase = .containerData then
        (t.targets[target]?).map fun comps =>
          ({ c with blockedComponentList := comps.foldl List.erase c.blockedComponentList },
            { t with targets := t.targets.eraseIdx target })
      else none
  | .containerDataSent =>
      if t.phase = .containerData then some (c, { t with phase := .transactionData }) else none
  | .accepted target =>
      if t.phase = .transactionData then
        (t.targets[target]?).map fun comps =>
          (c, { t with
            targets := t.targets.eraseIdx target
            listOfTuple := t.listOfTuple ++ [comps] })
      else none
  | .transactionRefused target =>
      if t.phase = .transactionData ∧ target < t.targets.length then
        some (c, { t with targets := t.targets.eraseIdx target })
      else none
  | .reported version =>
      match t.reporting, t.listOfTuple with
      | true, li :: rest =>
          some ({ c with
            globalMapVersion := version.getD c.globalMapVersion
            blockedComponentList := li.foldl List.erase c.blockedComponentList },
              { t with listOfTuple := rest })
      | _, _ => none
  | .notifyFailed =>
      if t.reporting then some (c, { t with listOfTuple := [], reporting := false }) else none
  | .ended =>
      if t.phase ≠ .ended then some (c, { t with phase := .ended, targets := [] }) else none

/-- The service and its green threads. An accept is the components it has listed. -/
structure ServiceState where
  controller : ContainerController
  requests : List RequestState
  transfers : List Transfer
  accepts : List (List Int)

inductive ServiceEvent
  | call (r : Request)
  | request (i : Nat) (e : RequestEvent)
  | transferComponents (compTransferMap : List (List Int))
  | transfer (i : Nat) (e : TransferEvent)
  | acceptComponents (componentList : List Int)
  | acceptAnswered (i : Nat)
  | acceptRaised (i : Nat)
  deriving DecidableEq, Repr

def step (s : ServiceState) : ServiceEvent → Option ServiceState
  | .call r =>
      let (c, state) := s.controller.call r
      some { s with controller := c, requests := s.requests ++ [state] }
  | .request i e => do
      let state ← s.requests[i]?
      let (c, state) ← requestStep s.controller state e
      some { s with controller := c, requests := s.requests.set i state }
  | .transferComponents compTransferMap =>
      let (c, t) := s.controller.transferComponents compTransferMap
      some { s with controller := c, transfers := s.transfers ++ [t] }
  | .transfer i e => do
      let t ← s.transfers[i]?
      let (c, t) ← transferStep s.controller t e
      some { s with controller := c, transfers := s.transfers.set i t }
  | .acceptComponents componentList =>
      some { s with
        controller := { s.controller with
          acceptCompBlockList := s.controller.acceptCompBlockList ++ componentList }
        accepts := s.accepts ++ [componentList] }
  | .acceptAnswered i =>
      if i < s.accepts.length then
        some { s with
          controller := { s.controller with acceptCompBlockList := [] }
          accepts := s.accepts.set i [] }
      else none
  | .acceptRaised i =>
      if i < s.accepts.length then some { s with accepts := s.accepts.set i [] } else none

/-- The service before the first request. -/
def ServiceState.start (version : Int) : ServiceState :=
  ⟨⟨version, majorVersion version, fun _ => none, [], []⟩, [], [], []⟩

end ObjectStorage.Service
