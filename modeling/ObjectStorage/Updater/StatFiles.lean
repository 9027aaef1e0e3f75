import Mathlib
import ObjectStorage.Library.Transition

/-!
The stat files of the container service (`updater_info.cpp`) and the account updater's walker,
reader, updater and sweeper on them, interleaved step by step.
-/

namespace ObjectStorage.Updater.StatFiles

open Library

abbrev Component := Int
abbrev Text := List Char

instance lawfulBEqText : LawfulBEq Text := inferInstance

/-- Component and creation second; the file name is the second as a date. -/
abbrev Key := Component × Nat

/-- `max_updater_list_size` and `updater_timeout` of the container service,
`max_files_stored_in_cache`, `max_update_files` and `updaterfile_expire_delta_time` of the
updater. -/
structure Config where
  maxContHashListSize : Nat
  timeout : Nat
  maxFilesStoredInCache : Nat
  maxUpdateFiles : Nat
  expireDeltaTime : Nat

/-- An inode: it keeps its records after its name is gone. -/
structure File where
  component : Component
  name : Nat
  records : List Text
  mtime : Nat
  linked : Bool
deriving DecidableEq

def File.key (f : File) : Key := (f.component, f.name)

/-- Each record is written with a comma behind it. -/
def bytes (records : List Text) : Text := records.flatMap fun r => r ++ [',']

/-- `UpdaterPointerManager`: the file it has open and the names it has written there. -/
structure UpdaterPointerManager where
  file : Nat
  contHashList : List Text := []
  creationTime : Nat
deriving DecidableEq

/-- A name given to `write_in_file`, and how many names the reader had taken before. -/
structure Passed where
  component : Component
  name : Text
  readBefore : Nat
deriving DecidableEq

/-- The file the reader has open. `shown` says that its stat object is in the reader map. -/
structure Reading where
  key : Key
  file : Nat
  offset : Nat := 0
  shown : Bool := false
deriving DecidableEq

/-- `now` counts milliseconds. `entry` is what the reader has fetched from the walker map and not
opened yet. `readerMap` has the unlocked stat objects that were read to the end, `passed` the names
given to `write_in_file` and `readLog` those the reader took, each with its file. -/
structure State where
  now : Nat := 0
  files : List File := []
  updaterMap : Component → Option UpdaterPointerManager := fun _ => none
  passed : List Passed := []
  oldStatFiles : List Key := []
  walkerMap : List Key := []
  entry : Option Key := none
  reading : Option Reading := none
  readerMap : List Key := []
  readLog : List (Key × Text) := []
  statMap : List Key := []
  sweeperList : List Key := []

inductive Event where
  | tick (milliseconds : Nat)
  /-- `write_in_file`, with the paths that `MemoryManager` has for the component. -/
  | write (component : Component) (path : Text) (inMemory : List Text)
  /-- One round of `updater_map_lookup`. -/
  | lookup (component : Component) (inMemory : List Text)
  | checkForUpdaterFile (component : Component)
  | removeComponentRecords (component : Component)
  /-- The files of a component in the order of their times, ties in any order. -/
  | walkOld (component : Component) (listing : List Nat)
  | walkSingle (component : Component)
  | walkEmpty (key : Key)
  | walkSelect (keys : List Key)
  /-- The reader's loop gets its next entry, and may wait before it opens the file. -/
  | readEntry (key : Key)
  | readOpen
  | readChunk
  /-- `populate_updater_map` of the updater. -/
  | populate
  | retire (key : Key)
  | sweep (key : Key)

/-- `get_container_name`: the third path component from the end and the last one. -/
def getContainerName (contPath : Text) : Text :=
  if 2 ≤ contPath.count '/' then
    let results := (contPath.splitOn '/').reverse
    results.getD 2 [] ++ '/' :: results.getD 0 []
  else [' ']

/-- `data.split(',')[:-1]`. -/
def fields : Text → Text → List Text
  | _, [] => []
  | acc, c :: rest => if c = ',' then acc :: fields [] rest else fields (acc ++ [c]) rest

def MAX_CHUNK_SIZE : Nat := 66000

/-- What `os.unlink` does to a file of the directory. -/
def unlink (key : Key) (f : File) : File :=
  if f.key = key then { f with linked := false } else f

namespace State

variable (conf : Config) (s : State)

def second : Nat := s.now / 1000

/-- `create_new_file` opens the file of this second, which may be there already. -/
def createNewFile (component : Component) : State :=
  match s.files.findIdx? fun f => f.linked && f.key = (component, s.second) with
  | some i =>
    { s with
      updaterMap := Function.update s.updaterMap component
        (some { file := i, creationTime := s.second }) }
  | none =>
    { s with
      files := s.files ++ [⟨component, s.second, [], s.now, true⟩]
      updaterMap := Function.update s.updaterMap component
        (some { file := s.files.length, creationTime := s.second }) }

/-- A name that is not in `cont_hash_list` is added to it and written. -/
def writeName (component : Component) (name : Text) : State :=
  match s.updaterMap component with
  | none => s
  | some mgr =>
    if name ∈ mgr.contHashList then s
    else
      { s with
        files := s.files.modify mgr.file fun f =>
          { f with records := f.records ++ [name], mtime := s.now }
        updaterMap := Function.update s.updaterMap component
          (some { mgr with contHashList := mgr.contHashList ++ [name] }) }

/-- `rotate_updater_file`: `dump_mem_in_file`, a new file and an empty list. -/
def rotateUpdaterFile (component : Component) (inMemory : List Text) : State :=
  (inMemory.foldl (fun s path => s.writeName component (getContainerName path)) s).createNewFile
    component

def ensureManager (component : Component) : State :=
  if (s.updaterMap component).isNone then s.createNewFile component else s

/-- The list of names written is full. -/
def listFull (component : Component) : Bool :=
  (s.updaterMap component).any fun mgr => conf.maxContHashListSize ≤ mgr.contHashList.length

def writeInFile (component : Component) (contPath : Text) (inMemory : List Text) : State :=
  let s := s.ensureManager component
  let name := getContainerName contPath
  if name = [' '] then s
  else
    let s := if s.listFull conf component then s.rotateUpdaterFile component inMemory else s
    let s := s.writeName component name
    { s with passed := s.passed ++ [⟨component, name, s.readLog.length⟩] }

/-- The indices of the files that a listing of the component's directory gives. -/
def listed (component : Component) : List Nat :=
  (List.range s.files.length).filter fun i =>
    (s.files[i]?).any fun f => f.linked && f.component = component

def mtimeOf (i : Nat) : Nat := ((s.files[i]?).map File.mtime).getD 0

def keysOf (indices : List Nat) : List Key :=
  indices.filterMap fun i => (s.files[i]?).map File.key

/-- The file that has this name in its directory. -/
def lookupName (key : Key) : Option Nat :=
  s.files.findIdx? fun f => f.linked && f.key = key

/-- The reader's loop body for one chunk. A field that is not an account and a container raises an
exception, and the stat object stays locked. -/
def readChunk (rd : Reading) (f : File) : State :=
  let chunk := ((bytes f.records).drop rd.offset).take MAX_CHUNK_SIZE
  if chunk = [] then
    { s with
      reading := none
      readerMap := if rd.shown then s.readerMap ++ [rd.key] else s.readerMap }
  else
    let data := fields [] chunk
    let good := data.takeWhile fun d => d.count '/' = 1
    { s with
      readLog := s.readLog ++ good.map fun d => (rd.key, d)
      reading := if good = data then
          some { rd with
            offset := rd.offset + chunk.length
            shown := rd.shown || !data.isEmpty }
        else none }

/-- The sweeper removes the file and its stat objects. -/
def sweep (key : Key) : State :=
  { s with
    files := s.files.map (unlink key)
    readerMap := s.readerMap.filter fun k => k ≠ key
    reading := s.reading.map fun rd => if rd.key = key then { rd with shown := false } else rd
    walkerMap := s.walkerMap.erase key
    sweeperList := s.sweeperList.erase key }

end State

def step (conf : Config) (s : State) : Event → Option State
  | .tick milliseconds => some { s with now := s.now + milliseconds }
  | .write component path inMemory => some (s.writeInFile conf component path inMemory)
  | .lookup component inMemory =>
    (s.updaterMap component).bind fun mgr =>
      if mgr.creationTime + conf.timeout ≤ s.second then
        some (s.rotateUpdaterFile component inMemory)
      else none
  | .checkForUpdaterFile component => some (s.ensureManager component)
  | .removeComponentRecords component =>
    some { s with updaterMap := Function.update s.updaterMap component none }
  | .walkOld component listing =>
    -- all but the newest, up to the size of the cache
    if listing.Perm (s.listed component) ∧
        listing.Pairwise fun i j => s.mtimeOf i ≤ s.mtimeOf j then
      some { s with
        oldStatFiles := s.oldStatFiles ++
          s.keysOf (listing.dropLast.take conf.maxFilesStoredInCache) }
    else none
  | .walkSingle component =>
    match s.keysOf (s.listed component) with
    | [key] =>
      if key.2 + conf.expireDeltaTime < s.second then
        some { s with oldStatFiles := s.oldStatFiles ++ [key] }
      else none
    | _ => none
  | .walkEmpty key =>
    if key ∈ s.oldStatFiles ∧
        ((s.lookupName key).bind fun i => s.files[i]?).any fun f => f.records.isEmpty then
      some { s with
        oldStatFiles := s.oldStatFiles.filter fun k => k ≠ key
        sweeperList := s.sweeperList ++ [key] }
    else none
  | .walkSelect keys =>
    if (∀ key ∈ keys, key ∈ s.oldStatFiles) ∧ keys.length ≤ conf.maxUpdateFiles then
      some { s with
        walkerMap := keys
        oldStatFiles := s.oldStatFiles.filter fun k => k ∉ keys }
    else none
  | .readEntry key =>
    if s.reading = none ∧ s.entry = none ∧ key ∈ s.walkerMap then some { s with entry := some key }
    else none
  | .readOpen =>
    -- a file that is gone is passed over
    s.entry.map fun key =>
      { s with
        entry := none
        reading := (s.lookupName key).map fun i => { key := key, file := i } }
  | .readChunk =>
    s.reading.bind fun rd => (s.files[rd.file]?).map fun f => s.readChunk rd f
  | .populate =>
    some { s with
      statMap := s.statMap ++ s.readerMap ++
        (s.reading.toList.filter Reading.shown).map Reading.key }
  | .retire key =>
    if key ∈ s.statMap then
      some { s with
        statMap := s.statMap.filter fun k => k ≠ key
        sweeperList := s.sweeperList ++ [key] }
    else none
  | .sweep key => if key ∈ s.sweeperList then some (s.sweep key) else none

/-- Every name passed to `write_in_file` is in a stat file that exists, or the reader has read it
from a file since. -/
def NoneForgotten (s : State) : Prop :=
  ∀ p ∈ s.passed,
    (∃ f ∈ s.files, f.linked = true ∧ f.component = p.component ∧ p.name ∈ f.records) ∨
      ∃ e ∈ s.readLog.drop p.readBefore, e.1.1 = p.component ∧ e.2 = p.name

end ObjectStorage.Updater.StatFiles
