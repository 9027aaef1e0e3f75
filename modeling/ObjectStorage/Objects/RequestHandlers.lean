import ObjectStorage.Objects.LockManager

/-!
The request handlers of the object server from the grant of their lock to their end: what they do to
the memory of transactions for every outcome of what they call.
-/

namespace ObjectStorage.Objects

open Library Library.Block

/-- What another request does to the memory. -/
inductive ManagerOp where
  | add (path id : String)
  | delete (path id : String)
  deriving DecidableEq, Repr

def ManagerOp.entry : ManagerOp → String × String
  | add path id | delete path id => (path, id)

/-- The hash of the object of a request and the transaction that was granted to it. -/
structure Entry where
  path : String
  id : String
  path_ne : path ≠ ""
  id_ne : id ≠ ""

/-- A call of a request: what comes of it, and what other requests do until it ends. The
transactions of other requests are others. -/
structure Call (entry : Entry) (α : Type) where
  result : Except Raised α
  meanwhile : List ManagerOp
  foreign : ∀ op ∈ meanwhile, op.entry ≠ (entry.path, entry.id)

namespace LockManager

variable (m : LockManager)

def Has (entry : Entry) : Prop := m.Holds entry.path entry.id

instance (entry : Entry) : Decidable (m.Has entry) :=
  inferInstanceAs (Decidable (m.Holds entry.path entry.id))

def apply : ManagerOp → LockManager
  | .add path id => (m.add path id).toOption.getD m
  | .delete path id => (m.delete path id).toOption.getD m

def including (entry : Entry) : LockManager := m.apply (.add entry.path entry.id)

def without (entry : Entry) : LockManager := m.apply (.delete entry.path entry.id)

end LockManager

/-- The memory after the call. -/
def Call.after {entry : Entry} {α : Type} (c : Call entry α) (m : LockManager) : LockManager :=
  c.meanwhile.foldl LockManager.apply m

def Call.Gives {entry : Entry} {α : Type} (c : Call entry α) (a : α) : Prop := c.result = .ok a

def Call.Raises {entry : Entry} {α : Type} (c : Call entry α) (e : Raised) : Prop :=
  c.result = .error e

@[simp] theorem Call.gives_iff {entry : Entry} {α : Type} {c : Call entry α} {a : α} :
    c.Gives a ↔ c.result = .ok a := Iff.rfl

@[simp] theorem Call.raises_iff {entry : Entry} {α : Type} {c : Call entry α} {e : Raised} :
    c.Raises e ↔ c.result = .error e := Iff.rfl

/-- The classes of the responses. -/
inductive Response where
  | ok
  | created
  | accepted
  | noContent
  | notModified
  | notFound
  | requestTimeout
  | conflict
  | preconditionFailed
  | unprocessableEntity
  | clientDisconnect
  | serverError
  | insufficientStorage
  deriving DecidableEq, Repr

/-- A part of a request handler. -/
abbrev Handler := Block LockManager Raised Response

namespace Handler

variable {entry : Entry} {α : Type}

def call (c : Call entry α) : Handler α := fun m =>
  match c.result with
  | .ok a => (.next a, c.after m)
  | .error e => (.raised e, c.after m)

/-- `self.__lock_obj.add`. -/
def addTransId (entry : Entry) : Handler Unit := fun m =>
  match m.add entry.path entry.id with
  | .ok m' => (.next (), m')
  | .error e => (.raised e, m)

/-- `self.__lock_obj.delete`. -/
def deleteTransId (entry : Entry) : Handler Unit := fun m =>
  match m.delete entry.path entry.id with
  | .ok m' => (.next (), m')
  | .error e => (.raised e, m)

/-- An `except Exception` clause. -/
def exceptException (clause : Raised → Handler α) (e : Raised) : Option (Handler α) :=
  if e.isException then some (clause e) else none

/-- `remove_trans_id`. -/
def removeTransId (entry : Entry) : Handler Unit :=
  attempt (deleteTransId entry) (exceptException fun _ => pure ())

/-- `release_lock`. Its `except` clause takes a `Timeout` as well. -/
def releaseLock (freeLock : Call entry Unit) : Handler Unit :=
  attempt (call freeLock) fun _ => some (pure ())

/-- The entry of a request in the memory once the lock is granted. -/
def enter (freeLock : Call entry Unit) : Handler Unit :=
  attempt (addTransId entry) (exceptException fun _ => do
    releaseLock freeLock
    returning .serverError)

/-- How the handlers leave before their end. -/
def leave (freeLock : Call entry Unit) : Handler Unit := do
  removeTransId entry
  releaseLock freeLock

/-- The end of each handler. -/
def finish (freeLock : Call entry Unit) : Handler Unit := do
  releaseLock freeLock
  removeTransId entry

/-- `metadata[key]`, of which only the failure matters here. -/
def item (metadata : Metadata) (key : String) : Handler Unit :=
  if valueOf metadata key = none then raising .keyError else pure ()

/-- `POST`: what it calls. -/
structure PostCalls (entry : Entry) where
  timestamp : String
  readMetadata : Call entry Metadata
  writeMetadata : Call entry Unit
  freeLock : Call entry Unit

def post (c : PostCalls entry) : Handler Response := do
  enter c.freeLock
  let origMetadata ← attempt (call c.readMetadata) (exceptException fun e => do
    leave c.freeLock
    if e.isNotExist then returning .notFound else raising e)
  if ¬ below ((valueOf origMetadata "X-Timestamp").getD "0") c.timestamp then
    leave c.freeLock
    returning .conflict
  attempt (call c.writeMetadata) (exceptException fun e => do
    leave c.freeLock
    raising e)
  finish c.freeLock
  pure .accepted

/-- `HEAD`: what it calls, the building of the response included. -/
structure HeadCalls (entry : Entry) where
  readMetadata : Call entry Metadata
  response : Call entry Unit
  freeLock : Call entry Unit

def head (c : HeadCalls entry) : Handler Response := do
  enter c.freeLock
  let metadata ← attempt (call c.readMetadata) (exceptException fun e => do
    leave c.freeLock
    if e.isNotExist ∨ e = .diskFileQuarantined then returning .notFound else raising e)
  item metadata "ETag"
  item metadata "X-Timestamp"
  item metadata "Content-Length"
  call c.response
  finish c.freeLock
  pure .ok

/-- `GET`: what it calls. `times` converts the timestamp of the object, and the two dates are those
of the request. -/
structure GetCalls (entry : Entry) where
  openFile : Call entry Metadata
  times : Call entry Int
  ifUnmodifiedSince : Call entry (Option Int)
  ifModifiedSince : Call entry (Option Int)
  response : Call entry Unit
  closeFile : Call entry Unit
  leaveLock : Call entry Unit
  freeLock : Call entry Unit

/-- The block of `disk_file.open()`. -/
def openBlock (c : GetCalls entry) (metadata : Metadata) : Handler Response := do
  item metadata "Content-Length"
  item metadata "X-Timestamp"
  let modified ← call c.times
  let unmodifiedSince ← call c.ifUnmodifiedSince
  if unmodifiedSince.any (· < modified) then
    leave c.leaveLock
    returning .preconditionFailed
  let modifiedSince ← call c.ifModifiedSince
  if modifiedSince.any (modified ≤ ·) then
    leave c.leaveLock
    returning .notModified
  item metadata "ETag"
  call c.response
  pure .ok

def get (c : GetCalls entry) : Handler Response := do
  enter c.freeLock
  let resp ← attempt
    (do
      let metadata ← call c.openFile
      within (openBlock c metadata) (call c.closeFile))
    fun e =>
      if e.isNotExist then some (pure .notFound)
      else exceptException (fun e => do leave c.freeLock; raising e) e
  finish c.freeLock
  pure resp

/-- What `container_update` returns. -/
inductive UpdateResult where
  | done
  | failed
  | redirect
  deriving DecidableEq, Repr

/-- What one pass of the loop around `container_update` calls. `host` tells whether a host is
found. -/
structure Round (entry : Entry) where
  containerUpdate : Call entry UpdateResult
  globalMap : Call entry Unit
  host : Call entry Bool

/-- The loop around `container_update`: the passes that are left, what they call, and the response
of a request whose update fails. `done` is what follows an update. -/
def updates (entry : Entry) (failed : Response) (done : Handler Unit) :
    Nat → (Nat → Round entry) → Handler Unit
  | 0, _ => pure ()
  | left + 1, rounds => do
      let ret ← call (rounds 0).containerUpdate
      -- in the last pass a redirection is a failure
      match if ret = .redirect ∧ left = 0 then .failed else ret with
      | .failed =>
          attempt (do deleteTransId entry; returning failed) (exceptException fun _ => pure ())
      | .redirect => do
          attempt (call (rounds 0).globalMap) fun e =>
            if e = .valueError then some (do deleteTransId entry; returning failed) else none
          attempt
            (do
              let found ← call (rounds 0).host
              if ¬ found then
                deleteTransId entry
                returning failed)
            (exceptException fun _ => do deleteTransId entry; returning failed)
          updates entry failed done left fun k => rounds (k + 1)
      | .done => done

/-- `PUT`: its headers and what it calls. -/
structure PutCalls (entry : Entry) where
  timestamp : String
  messageLength : Option Nat
  etag : Option String
  contentType : Option String
  retryCount : Int
  readMetadata : Call entry Metadata
  create : Call entry Unit
  initHash : Call entry Unit
  upload : Call entry Nat
  hash : Call entry String
  put : Call entry Unit
  closeFiles : Call entry Unit
  rounds : Nat → Round entry
  leaveLock : Call entry Unit
  freeLock : Call entry Unit

def wrongSize (c : PutCalls entry) (uploadSize : Nat) : Bool :=
  c.messageLength.any (· ≠ uploadSize)

def wrongEtag (c : PutCalls entry) (etag : String) : Bool := c.etag.any (·.toLower ≠ etag)

/-- The object is not older than the request. -/
def conflicts (c : PutCalls entry) (origMetadata : Metadata) : Bool :=
  (valueOf origMetadata "X-Timestamp").any fun t => t ≠ "" ∧ ¬ below t c.timestamp

/-- The block of `disk_file.create()`. -/
def uploadBlock (c : PutCalls entry) : Handler Unit := do
  call c.initHash
  let uploadSize ← attempt (call c.upload) fun e =>
    if e = .chunkReadTimeout then some (do leave c.leaveLock; returning .requestTimeout) else none
  if wrongSize c uploadSize then
    leave c.leaveLock
    returning .clientDisconnect
  let etag ← call c.hash
  if wrongEtag c etag then
    leave c.leaveLock
    returning .unprocessableEntity
  if c.contentType = none then raising .keyError
  call c.put

/-- `PUT` once the object is stored. -/
def reportPut (c : PutCalls entry) (origMetadata : Metadata) : Handler Response := do
  if origMetadata ≠ [] then
    item origMetadata "Content-Length"
  updates entry .created (pure ()) (c.retryCount + 1).toNat c.rounds
  finish c.freeLock
  pure .created

/-- `PUT` once the metadata of the old object is read. -/
def putObject (c : PutCalls entry) (origMetadata : Metadata) : Handler Response := do
  if conflicts c origMetadata then
    finish c.freeLock
    returning .conflict
  attempt
    (do
      call c.create
      within (uploadBlock c) (call c.closeFiles))
    (exceptException fun e => do
      leave c.freeLock
      if e = .diskFileNoSpace then returning .insufficientStorage else raising e)
  reportPut c origMetadata

def put (c : PutCalls entry) : Handler Response := do
  enter c.freeLock
  let origMetadata ← attempt (call c.readMetadata) fun e =>
    if e.isNotExist ∨ e = .diskFileQuarantined then some (pure []) else none
  putObject c origMetadata

/-- `DELETE`: what it calls. The removals tell whether they succeed. -/
structure DeleteCalls (entry : Entry) where
  timestamp : String
  retryCount : Int
  readMetadata : Call entry Metadata
  deleteData : Call entry Bool
  deleteMeta : Call entry Bool
  rounds : Nat → Round entry
  freeLock : Call entry Unit

/-- The object is older than the request. The timestamp of an object without one is the number 0,
which is below every string. -/
def older (origTimestamp : Option String) (timestamp : String) : Bool :=
  origTimestamp.all (below · timestamp)

/-- The timestamp and the metadata that `DELETE` takes for an object that it cannot read. -/
def unreadable : Raised → Option (Option String × Metadata)
  | .diskFileExpired metadata => some (valueOf metadata "X-Timestamp", metadata)
  | .diskFileDeleted metadata => some (valueOf metadata "X-Timestamp", [])
  | .diskFileNotExist | .diskFileQuarantined => some (none, [])
  | _ => none

/-- What `DELETE` reads of the object: its timestamp, its metadata and the response. -/
def readForDelete (c : DeleteCalls entry) : Handler (Option String × Metadata × Response) :=
  attempt
    (do
      let origMetadata ← call c.readMetadata
      let origTimestamp := valueOf origMetadata "X-Timestamp"
      pure (origTimestamp, origMetadata,
        if older origTimestamp c.timestamp then .noContent else .conflict))
    fun e =>
      match unreadable e with
      | some (origTimestamp, origMetadata) => some (pure (origTimestamp, origMetadata, .notFound))
      | none => exceptException (fun e => do leave c.freeLock; raising e) e

/-- What follows the update of the container. -/
def removeMeta (c : DeleteCalls entry) : Handler Unit := do
  let removed ← call c.deleteMeta
  if ¬ removed then
    attempt (do deleteTransId entry; returning .accepted) (exceptException fun _ => pure ())

def removeObject (c : DeleteCalls entry) (origMetadata : Metadata) : Handler Unit := do
  let removed ← call c.deleteData
  if removed then
    item origMetadata "Content-Length"
    updates entry .accepted (removeMeta c) (c.retryCount + 1).toNat c.rounds

def delete (c : DeleteCalls entry) : Handler Response := do
  enter c.freeLock
  let (origTimestamp, origMetadata, response) ← readForDelete c
  if older origTimestamp c.timestamp then
    removeObject c origMetadata
  finish c.freeLock
  pure response

/-- A request that is granted its lock. -/
inductive Request (entry : Entry) where
  | put (c : PutCalls entry)
  | post (c : PostCalls entry)
  | get (c : GetCalls entry)
  | head (c : HeadCalls entry)
  | delete (c : DeleteCalls entry)

def handle : Request entry → Handler Response
  | .put c => put c
  | .post c => post c
  | .get c => get c
  | .head c => head c
  | .delete c => delete c

end Handler

end ObjectStorage.Objects
