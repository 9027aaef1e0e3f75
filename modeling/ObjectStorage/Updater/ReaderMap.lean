import Mathlib.Logic.Function.Basic
import ObjectStorage.Library.Transition
import ObjectStorage.Library.WeightedMap

/-!
The reader map of the account updater (`monitor.py`) and its count of container names, under the
steps of the reader (`reader.py`), of the sweeper (`containerSweeper.py`) and of the threads that
change the ownership list.
-/

namespace ObjectStorage.Updater.ReaderMap

open Library

abbrev Component := Int
abbrev Text := List Char

/-- The container names of one stat file for each account. -/
abbrev Accounts := FiniteMap Text (List Text)

/-- A component's dictionary. A stat object is its own key, whatever the name of its file. -/
abbrev StatDict := FiniteMap Nat Accounts

def maxContainerEntries : Int := 1000

/-- One field `account/container` of a stat file. -/
structure Record where
  component : Component
  statObj : Nat
  account : Text
  container : Text
deriving DecidableEq

/-- Where the reader is. `giving` has the keys that `__reader_get_new_ownership` still looks at. -/
inductive Reader where
  | top
  | giving (keys : List Component)
  | entries
  | checking (component : Component) (statObj : Nat)
  | reading (component : Component) (statObj : Nat)
  | ensureComponent (r : Record)
  | ensureStatObj (r : Record)
  | ensureAccount (r : Record)
  | append (r : Record)
  | increment (r : Record)
  /-- `incrementContainer` has read the count. -/
  | incrementing (r : Record) (loaded : Int)
  | stopped
deriving DecidableEq

/-- One entry of the sweeper list, its place there and the keys of the component's dictionary that
are still to be looked at. -/
structure Task where
  index : Nat
  component : Component
  statFile : Text
  objs : List Nat
deriving DecidableEq

/-- A stat object being taken out: the dictionary it was found in and the accounts whose names are
still to be counted. -/
structure Removal where
  task : Task
  obj : Nat
  dict : Nat
  accounts : List Text
deriving DecidableEq

inductive Sweeper where
  | idle
  | next (index : Nat)
  | objects (t : Task)
  | removing (r : Removal)
  | counted (r : Removal) (counter : Nat)
  /-- `decrementContainerCount` has read the count. -/
  | decrementing (r : Removal) (counter : Nat) (loaded : Int)
  | components (index : Nat) (items : List (Component × Nat))
  /-- The value was empty when the sweeper looked at it. -/
  | popping (index : Nat) (component : Component) (items : List (Component × Nat))
deriving DecidableEq

/-- `readerMap` has a reference for each component; `dicts` are the dictionaries themselves, also
those no longer in the map. -/
structure State where
  count : Int := 0
  readerMap : FiniteMap Component Nat := ∅
  dicts : Nat → StatDict := fun _ => ∅
  nextDict : Nat := 0
  statFiles : List Text := []
  ownership : List Int := []
  transferEvent : Bool := false
  putQueueFlag : Bool := false
  sweeperList : List (Component × Text) := []
  reader : Reader := .top
  sweeper : Sweeper := .idle

/-- The order of the keys of a dictionary is not given: an event has it. -/
inductive Event where
  | setOwnership (ownership : List Int)
  | setTransferEvent (value : Bool)
  | createSweeperList (entry : Component × Text)
  | readerCompleteAll
  | readerGetNewOwnership (keys : List Component)
  | readerOpen (component : Component) (statFile : Text)
  | readerRecord (account container : Text)
  | readerEndFile
  | readerEndEntries
  /-- An exception of the file or of a field without an account. -/
  | readerFails
  | readerStep
  | sweeperStart
  | sweeperTake (objs : List Nat)
  | sweeperObject (accounts : List Text)
  | sweeperComponents (items : List (Component × Nat))
  | sweeperStep
  | sweeperFails
deriving DecidableEq

def namesOf (a : Accounts) : Nat := a.weight fun _ names => names.length

def namesUnder (d : StatDict) : Nat := d.weight fun _ a => namesOf a

namespace State

variable (s : State)

def getContainerCount : Int := s.count

/-- The names stored in the map. -/
def stored : Nat := s.readerMap.weight fun _ d => namesUnder (s.dicts d)

/-- `self._reader_map[component][statObj]`, with the dictionary it is in. -/
def accountsOf (component : Component) (obj : Nat) : Option (Nat × Accounts) :=
  (s.readerMap.lookup component).bind fun d => ((s.dicts d).lookup obj).map fun a => (d, a)

def setAccounts (d obj : Nat) (a : Accounts) : State :=
  { s with dicts := Function.update s.dicts d ((s.dicts d).insert obj a) }

/-- The names that a dictionary has for a stat object and an account. -/
def listLength (d obj : Nat) (account : Text) : Nat :=
  ((s.dicts d).lookup obj).elim 0 fun a => a.weightAt (fun _ names => names.length) account

/-- An exception in the loop of `__perform_reader_operation`. -/
def readerRaise : State := { s with reader := .top }

/-- An exception in the loop of `__perform_container_sweeping_task`. -/
def sweeperRaise : State := { s with sweeperList := [], sweeper := .idle }

/-- The reader's next statement where nothing is left to choose. -/
def readerStep : Option State :=
  match s.reader with
  | .giving [] => some { s with putQueueFlag := true, reader := .entries }
  | .giving (key :: keys) =>
    if key ∈ s.ownership then some { s with reader := .giving keys }
    else if key ∈ s.readerMap then
      some { s with readerMap := s.readerMap.erase key, reader := .giving keys }
    else some s.readerRaise
  | .checking component obj =>
    if maxContainerEntries < s.getContainerCount then some s
    else some { s with reader := .reading component obj }
  | .ensureComponent r =>
    if r.component ∈ s.readerMap then some { s with reader := .ensureStatObj r }
    else
      some { s with
        readerMap := s.readerMap.insert r.component s.nextDict
        dicts := Function.update s.dicts s.nextDict ∅
        nextDict := s.nextDict + 1
        reader := .ensureStatObj r }
  | .ensureStatObj r =>
    match s.readerMap.lookup r.component with
    | none => some s.readerRaise
    | some d =>
      if r.statObj ∈ s.dicts d then some { s with reader := .ensureAccount r }
      else some { s.setAccounts d r.statObj ∅ with reader := .ensureAccount r }
  | .ensureAccount r =>
    match s.accountsOf r.component r.statObj with
    | none => some s.readerRaise
    | some (d, a) =>
      if r.account ∈ a then some { s with reader := .append r }
      else some { s.setAccounts d r.statObj (a.insert r.account []) with reader := .append r }
  | .append r =>
    match s.accountsOf r.component r.statObj with
    | none => some s.readerRaise
    | some (d, a) =>
      match a.lookup r.account with
      | none => some s.readerRaise
      | some names =>
        some { s.setAccounts d r.statObj (a.insert r.account (names ++ [r.container])) with
          reader := .increment r }
  | .increment r => some { s with reader := .incrementing r s.count }
  | .incrementing r loaded =>
    some { s with count := loaded + 1, reader := .reading r.component r.statObj }
  | _ => none

/-- The sweeper's next statement where nothing is left to choose. -/
def sweeperStep : Option State :=
  match s.sweeper with
  | .next index =>
    if s.sweeperList.length ≤ index then some { s with sweeperList := [], sweeper := .idle }
    else none
  | .removing r =>
    match r.accounts with
    | account :: accounts =>
      some { s with
        sweeper := .counted { r with accounts := accounts } (s.listLength r.dict r.obj account) }
    | [] =>
      match s.readerMap.lookup r.task.component with
      | none => some s.sweeperRaise
      | some d =>
        if r.obj ∈ s.dicts d then
          some { s with
            dicts := Function.update s.dicts d ((s.dicts d).erase r.obj)
            sweeper := .objects r.task }
        else some s.sweeperRaise
  | .counted r counter => some { s with sweeper := .decrementing r counter s.count }
  | .decrementing r counter loaded =>
    some { s with count := loaded - counter, sweeper := .removing r }
  | .components index [] => some { s with sweeper := .next (index + 1) }
  | .components index ((component, d) :: items) =>
    if (s.dicts d).keys = [] then some { s with sweeper := .popping index component items }
    else some { s with sweeper := .components index items }
  | .popping index component items =>
    if component ∈ s.readerMap then
      some { s with
        readerMap := s.readerMap.erase component, sweeper := .components index items }
    else some s.sweeperRaise
  | _ => none

/-- The next entry of the sweeper list, with the keys of its component's dictionary. -/
def sweeperTake (objs : List Nat) : Option State :=
  match s.sweeper with
  | .next index =>
    (s.sweeperList[index]?).bind fun entry =>
      match s.readerMap.lookup entry.1 with
      | none =>
        if objs = [] then some { s with sweeper := .objects ⟨index, entry.1, entry.2, []⟩ }
        else none
      | some d =>
        if objs.Perm (s.dicts d).keys then
          some { s with sweeper := .objects ⟨index, entry.1, entry.2, objs⟩ }
        else none
  | _ => none

/-- The next stat object. If it is of the file to be removed, its accounts are taken as a list. -/
def sweeperObject (accounts : List Text) : Option State :=
  match s.sweeper with
  | .objects ⟨index, component, statFile, obj :: objs⟩ =>
    if s.statFiles[obj]? = some statFile then
      match s.accountsOf component obj with
      | none => some s.sweeperRaise
      | some (d, a) =>
        if accounts.Perm a.keys then
          some { s with
            sweeper := .removing ⟨⟨index, component, statFile, objs⟩, obj, d, accounts⟩ }
        else none
    else some { s with sweeper := .objects ⟨index, component, statFile, objs⟩ }
  | _ => none

/-- After the last stat object, `self._reader_map.items()`. -/
def sweeperComponents (items : List (Component × Nat)) : Option State :=
  match s.sweeper with
  | .objects ⟨index, _, _, []⟩ =>
    if items.Perm (s.readerMap.entries.map fun e => (e.1, e.2)) then
      some { s with sweeper := .components index items }
    else none
  | _ => none

end State

def step (s : State) : Event → Option State
  | .setOwnership ownership => some { s with ownership := ownership }
  | .setTransferEvent value => some { s with transferEvent := value }
  | .createSweeperList entry => some { s with sweeperList := s.sweeperList ++ [entry] }
  | .readerCompleteAll =>
    -- the attribute of the reader is another map from here on, and the thread ends
    if s.reader = .top then some { s with reader := .stopped } else none
  | .readerGetNewOwnership keys =>
    if s.reader = .top then
      if s.transferEvent && !s.putQueueFlag then
        if keys.Perm s.readerMap.keys then some { s with reader := .giving keys } else none
      else
        some { s with
          putQueueFlag := s.transferEvent && s.putQueueFlag
          reader := .entries }
    else none
  | .readerOpen component statFile =>
    if s.reader = .entries then
      some { s with
        statFiles := s.statFiles ++ [statFile]
        reader := .checking component s.statFiles.length }
    else none
  | .readerRecord account container =>
    match s.reader with
    | .reading component obj =>
      some { s with reader := .ensureComponent ⟨component, obj, account, container⟩ }
    | _ => none
  | .readerEndFile =>
    match s.reader with
    | .reading _ _ => some { s with reader := .entries }
    | _ => none
  | .readerEndEntries => if s.reader = .entries then some { s with reader := .top } else none
  | .readerFails =>
    match s.reader with
    | .reading _ _ | .entries => some s.readerRaise
    | _ => none
  | .readerStep => s.readerStep
  | .sweeperStart => if s.sweeper = .idle then some { s with sweeper := .next 0 } else none
  | .sweeperTake objs => s.sweeperTake objs
  | .sweeperObject accounts => s.sweeperObject accounts
  | .sweeperComponents items => s.sweeperComponents items
  | .sweeperStep => s.sweeperStep
  | .sweeperFails =>
    -- `os.unlink` or the walker map
    match s.sweeper with
    | .next _ | .components _ _ => some s.sweeperRaise
    | _ => none

def start : State := {}

end ObjectStorage.Updater.ReaderMap
