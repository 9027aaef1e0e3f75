import Mathlib.Data.List.Basic
import ObjectStorage.Library.Transition
import ObjectStorage.Library.WeightedMap

/-!
`do_TRANSFER_COMPONENTS` of the account updater (`server.py`): the thread of the request, one sender
thread for each destination, and the thread that waits for their end. What the destinations and the
global leader answer, and how long each thread takes, is given.
-/

namespace ObjectStorage.Updater.GiveAway

open Library

abbrev Component := Int

/-- The first answer of a destination. -/
inductive Answer where
  | continue | success | insufficientStorage | other
  | raised
deriving DecidableEq

/-- One attempt to report to the global leader. Without a connection there is nothing to close, and
the thread ends with an exception. -/
inductive Report where
  | noConnection | raised | refused | acknowledged
deriving DecidableEq

/-- Where a sender is in `send_accept_component_request`. -/
inductive SenderPoint where
  | created
  | connecting
  | sending (answered : Bool)
  | responding (answered : Bool)
  | unsuccessful
  | reporting (attempts : Nat)
  /-- `update_final_transfer_status`, with the components it is through with. -/
  | marking (done rest : List Component)
  | confirming
  | ended (reported : Bool)
deriving DecidableEq

/-- A sender and the components of its destination. `accepted` and `acknowledged` say what the
destination and the global leader have answered. -/
structure Sender where
  comps : List Component
  point : SenderPoint := .created
  accepted : Bool := false
  acknowledged : Bool := false
deriving DecidableEq

/-- The values of `check_transfer_component_map`. -/
inductive Check where
  | pending | completed | failed
deriving DecidableEq

inductive Checker where
  | created
  | head
  | items (rest : List (Nat × Check))
  | ended
deriving DecidableEq

inductive MainPoint where
  | receiving
  | starting (started : Nat)
  | joining
  | deciding (index : Nat)
  | answering
  | queueing (received : Nat)
  | writing
  | raising
  | ended (status : Nat)
deriving DecidableEq

/-- `lists` are the list objects, and the ownership lists are references to them. A destination is
the place of its sender. -/
structure Handler where
  lists : List (List Component)
  ownershipList : Nat := 0
  oldOwnershipList : Nat := 0
  transferEvent : Bool := false
  deletedCompList : List Component := []
  finalTransferStatusList : List (Component × Bool) := []
  finalStatus : Bool := false
  checkTransferComponentMap : FiniteMap Nat Check := ∅
  senders : List Sender := []
  checker : Checker := .created
  main : MainPoint := .receiving
  /-- The body of the answer. -/
  body : List (Component × Bool) × Bool := ([], false)

inductive Event where
  /-- The message, or none if it cannot be read. -/
  | receive (transferComponentMap : Option (List (List Component)))
  | main
  | joinTimeout
  | queue (empty : Bool)
  | write (raised : Bool)
  | checker
  | connect (i : Nat) (answer : Answer)
  | send (i : Nat) (raised : Bool)
  /-- The final answer of the destination, if there is one. -/
  | respond (i : Nat) (success : Option Bool)
  | report (i : Nat) (report : Report)
  | sender (i : Nat)
deriving DecidableEq

def retryCount : Nat := 3

namespace Handler

variable (s : Handler)

/-- The list that `get_ownershipList` gives. -/
def owned : List Component := s.lists.getD s.ownershipList []

def setCheck (i : Nat) (c : Check) : Handler :=
  { s with checkTransferComponentMap := s.checkTransferComponentMap.insert i c }

def setSender (i : Nat) (w : Sender) : Handler := { s with senders := s.senders.set i w }

/-- The components are taken out of the list object itself, and the reference to it is what is kept
for a rollback. -/
def deleteSelfOwnership : Handler :=
  let currentOwnershipList := s.ownershipList
  { s with
    oldOwnershipList := currentOwnershipList
    lists := s.lists.modify currentOwnershipList fun l => l.diff s.deletedCompList
    ownershipList := currentOwnershipList }

/-- The request up to the first thread. -/
def receive : Option (List (List Component)) → Handler
  | none => { s with main := .ended 500 }
  | some [] => { s with body := ([], true), main := .ended 200 }
  | some (comps :: rest) =>
    let transferComponentMap := comps :: rest
    let s := { s with
      deletedCompList := transferComponentMap.flatten
      finalTransferStatusList := transferComponentMap.flatten.map fun comp => (comp, false)
      checkTransferComponentMap :=
        (List.range transferComponentMap.length).foldl (fun m i => m.insert i Check.pending) ∅
      senders := transferComponentMap.map fun comps => { comps := comps } }
    { s.deleteSelfOwnership with transferEvent := true, main := .starting 0 }

/-- `self.msg.set_ownershipList(self.old_ownership_list)`. -/
def restoreOwnership : Handler := { s with ownershipList := s.oldOwnershipList }

/-- The next statement of the thread of the request. -/
def mainStep : Option Handler :=
  match s.main with
  | .starting started =>
    match s.senders[started]? with
    | some w =>
      some { s.setSender started { w with point := .connecting } with
        main := .starting (started + 1) }
    | none => some { s with checker := .head, main := .joining }
  | .joining => if s.checker = .ended then some { s with main := .deciding 0 } else none
  | .deciding index =>
    match s.finalTransferStatusList[index]? with
    | some (_, false) => some { s.restoreOwnership with main := .answering }
    | some (_, true) => some { s with main := .deciding (index + 1) }
    | none =>
      -- `else` of the loop, which an empty list does not come to
      some { s with
        finalStatus := s.finalStatus || !s.finalTransferStatusList.isEmpty
        main := .answering }
  | .answering =>
    some { s with body := (s.finalTransferStatusList, s.finalStatus), main := .queueing 0 }
  | .raising => some { s.restoreOwnership with transferEvent := false, main := .ended 500 }
  | _ => none

/-- `check_component_transfer_completion`. -/
def checkerStep : Option Handler :=
  match s.checker with
  | .head =>
    some { s with
      checker :=
        if s.checkTransferComponentMap.keys = [] then .ended
        else .items (s.checkTransferComponentMap.entries.map fun e => (e.1, e.2)) }
  | .items [] => some { s with checker := .head }
  | .items ((i, value) :: rest) =>
    if value = .completed ∨ value = .failed then
      some { s with
        checkTransferComponentMap := s.checkTransferComponentMap.erase i, checker := .items rest }
    else some { s with checker := .items rest }
  | _ => none

/-- All entries of a component get the status `True`. -/
def updateFinalTransferStatus (comp : Component) : Handler :=
  { s with
    finalTransferStatusList := s.finalTransferStatusList.map fun e =>
      if e.1 = comp then (comp, true) else e }

/-- What a sender does next, with the answer it gets. -/
def connect (i : Nat) (w : Sender) : Answer → Handler
  | .continue => s.setSender i { w with point := .sending false }
  | .success => s.setSender i { w with point := .sending true }
  | .insufficientStorage | .raised =>
    (s.setCheck i .failed).setSender i { w with point := .ended false }
  -- no branch is for another status, and the map keeps its value
  | .other => s.setSender i { w with point := .ended false }

def send (i : Nat) (w : Sender) (answered raised : Bool) : Handler :=
  if raised then (s.setCheck i .failed).setSender i { w with point := .ended false }
  else s.setSender i { w with point := .responding answered }

/-- A destination that has answered before the list was sent is not asked again. -/
def respond (i : Nat) (w : Sender) (answered : Bool) (success : Option Bool) : Handler :=
  if answered then s.setSender i { w with accepted := true, point := .reporting 0 }
  else
    match success with
    | none => (s.setCheck i .failed).setSender i { w with point := .unsuccessful }
    | some true => s.setSender i { w with accepted := true, point := .reporting 0 }
    | some false => s.setSender i { w with point := .unsuccessful }

def report (i : Nat) (w : Sender) (attempts : Nat) : Report → Handler
  | .noConnection | .raised => s.setSender i { w with point := .ended false }
  | .refused =>
    if attempts + 1 < retryCount then s.setSender i { w with point := .reporting (attempts + 1) }
    else (s.setCheck i .failed).setSender i { w with point := .ended false }
  | .acknowledged => s.setSender i { w with acknowledged := true, point := .marking [] w.comps }

def senderStep (i : Nat) (w : Sender) : Option Handler :=
  match w.point with
  | .unsuccessful => some ((s.setCheck i .failed).setSender i { w with point := .ended false })
  | .marking done (comp :: rest) =>
    some ((s.updateFinalTransferStatus comp).setSender i
      { w with point := .marking (done ++ [comp]) rest })
  | .marking _ [] => some (s.setSender i { w with point := .confirming })
  | .confirming => some ((s.setCheck i .completed).setSender i { w with point := .ended true })
  | _ => none

end Handler

def step (s : Handler) : Event → Option Handler
  | .receive transferComponentMap =>
    if s.main = .receiving then some (s.receive transferComponentMap) else none
  | .main => s.mainStep
  | .joinTimeout => if s.main = .joining then some { s with main := .deciding 0 } else none
  | .queue empty =>
    match s.main with
    | .queueing received =>
      if empty then some { s with main := .raising }
      else if received + 1 = 4 then some { s with main := .writing }
      else some { s with main := .queueing (received + 1) }
    | _ => none
  | .write raised =>
    if s.main = .writing then
      if raised then some { s with main := .raising }
      else some { s with transferEvent := false, main := .ended 200 }
    else none
  | .checker => s.checkerStep
  | .connect i answer =>
    (s.senders[i]?).bind fun w =>
      match w.point with
      | .connecting => some (s.connect i w answer)
      | _ => none
  | .send i raised =>
    (s.senders[i]?).bind fun w =>
      match w.point with
      | .sending answered => some (s.send i w answered raised)
      | _ => none
  | .respond i success =>
    (s.senders[i]?).bind fun w =>
      match w.point with
      | .responding answered => some (s.respond i w answered success)
      | _ => none
  | .report i report =>
    (s.senders[i]?).bind fun w =>
      match w.point with
      | .reporting attempts => some (s.report i w attempts report)
      | _ => none
  | .sender i => (s.senders[i]?).bind fun w => s.senderStep i w

/-- A request comes to a service that owns the components of `before`. -/
def start (before : List Component) : Handler := { lists := [before] }

end ObjectStorage.Updater.GiveAway
