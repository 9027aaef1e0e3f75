import ObjectStorage.Objects.Uploads

/-!
One object under PUT and DELETE on several object servers, with crashes of the servers, their
startup recovery and `RECOVER` for the locks that are left. A container update takes effect in the
step that sends it or never, and so does the release of a lock.
-/

namespace ObjectStorage.Objects

open Library

/-- Who wrote a file, and the `X-Timestamp` of its metadata. -/
structure Version where
  writer : Writer
  timestamp : Nat
deriving DecidableEq

/-- A metadata file as created, cut short, or with the whole pickle. -/
inductive MetaFile where
  | empty
  | torn
  | whole (v : Version)
deriving DecidableEq

/-- The two files of the object in the `tmp` directory of a server. -/
structure TmpFiles where
  data : Option Version
  metadata : Option MetaFile
deriving DecidableEq

def TmpFiles.none : TmpFiles := ⟨.none, .none⟩

inductive Operation where
  | put
  | delete
deriving DecidableEq

/-- What comes of a container update: an answer of success, one of 301 or 307, or none of them,
with or without the update. -/
inductive Answer where
  | success
  | redirect
  | failure (applied : Bool)
deriving DecidableEq

def Answer.applied : Answer → Bool
  | .success => true
  | .redirect => false
  | .failure applied => applied

/-- What a request does next. `releasing` and `raising` are the ends of a failed upload, with the
clean-up after or before them; after `failed` its transaction stays in the memory of the server.
`done` tells that the answer is 201 or, for a DELETE, 204 or 202. -/
inductive Progress where
  | arrived
  | granted
  | reading
  | removeData
  | createData
  | removeMeta
  | createMeta
  | uploading
  | writing (part : Bool)
  | renameData
  | renameMeta
  | dropData
  | dropMeta
  | unlinkData (how : Leaving)
  | unlinkMeta (how : Leaving)
  | releasing
  | raising
  | deleteData (found : Bool)
  | updating
  | deleteMeta
  | freeing (done : Bool)
  | forgetting (done : Bool)
  | failed
  | ended (done : Bool)
  | dead
deriving DecidableEq

/-- The transaction of the request is in the memory of its server. -/
def Progress.inMemory : Progress → Bool
  | .arrived | .granted | .unlinkData .early | .unlinkMeta .early | .releasing | .raising | .ended _
  | .dead => false
  | _ => true

/-- A server as the recovery of the object's files sees it. `down` is also a recovery that stopped;
`removes` tells that the metadata file is to be removed too. -/
inductive Visit where
  | serving
  | down
  | freeing (removes : Bool)
  | removeData (removes : Bool)
  | removeMeta
  | renameData (v : Version)
  | renameMeta (v : Version)
  | updating (v : Version)
  | unlocking
deriving DecidableEq

/-- What the handler of `RECOVER` does next. -/
inductive RecoverStage where
  | checking
  | looking
  | updating (v : Version)
  | removing
  | freeing
  | ended
deriving DecidableEq

/-- What a request, a recovery or the handler of `RECOVER` can do. `next` is the next statement, the
others are the branches; `applied` tells whether the container service frees the lock. -/
inductive ChangeAction where
  | grant
  | next
  | fail
  | failWrite
  | writePart
  | failMetadata
  | returnEarly
  | update (answer : Answer)
  | free (applied : Bool)
deriving DecidableEq

section

variable {n : Nat}

structure Change (n : Nat) where
  operation : Operation
  server : Fin n
  timestamp : Nat
  progress : Progress
deriving DecidableEq

/-- `RECOVER` at a server, for the transaction of a lock. -/
structure RecoverCall (n : Nat) where
  server : Fin n
  transaction : Nat
  stage : RecoverStage
deriving DecidableEq

/-- The temporary files of each server, the two files of the object and its record in the container,
the transaction that holds its lock, and what runs. `grants` and `changes` are the requests in the
order in which they got the lock and in which the data file was changed for them. -/
structure ObjectState (n : Nat) where
  tmp : Fin n → TmpFiles
  data : Option Version
  metadata : Option MetaFile
  record : Option Version
  lock : Option Nat
  visits : Fin n → Visit
  requests : List (Change n)
  recovers : List (RecoverCall n)
  grants : List Nat
  changes : List Nat

inductive ChangeStep (n : Nat) where
  | arrive (operation : Operation) (server : Fin n) (timestamp : Nat)
  | act (i : Nat) (a : ChangeAction)
  | crash (k : Fin n)
  | visit (k : Fin n) (a : ChangeAction)
  | recover (k : Fin n) (transaction : Nat)
  | handle (q : Nat) (a : ChangeAction)
deriving DecidableEq

/-- What a PUT writes, and nothing for a DELETE. -/
def Change.version (r : Change n) (i : Nat) : Version := ⟨.put i, r.timestamp⟩

def Change.written (r : Change n) (i : Nat) : Option Version :=
  match r.operation with
  | .put => some (r.version i)
  | .delete => none

/-- The request whose upload a version is. -/
def Version.upload (v : Version) : List Nat :=
  match v.writer with
  | .put i => [i]
  | .earlier => []

namespace ObjectState

/-- An object, or none, that no request has changed yet. -/
def start (n : Nat) (v : Option Version) : ObjectState n where
  tmp _ := .none
  data := v
  metadata := v.map .whole
  record := v
  lock := none
  visits _ := .serving
  requests := []
  recovers := []
  grants := []
  changes := []

def setTmp (s : ObjectState n) (k : Fin n) (f : TmpFiles) : ObjectState n :=
  { s with tmp := fun j => if j = k then f else s.tmp j }

def setVisit (s : ObjectState n) (k : Fin n) (visit : Visit) : ObjectState n :=
  { s with visits := fun j => if j = k then visit else s.visits j }

def moveTo (s : ObjectState n) (i : Nat) (progress : Progress) : ObjectState n :=
  { s with requests := s.requests.modify i fun r => { r with progress } }

def setStage (s : ObjectState n) (q : Nat) (stage : RecoverStage) : ObjectState n :=
  { s with recovers := s.recovers.modify q fun c => { c with stage } }

/-- `FREE_LOCK` of a transaction. -/
def free (s : ObjectState n) (i : Nat) (applied : Bool) : ObjectState n :=
  if applied ∧ s.lock = some i then { s with lock := none } else s

/-- `FREE_LOCKS` of the object, whoever holds its lock. -/
def freeByName (s : ObjectState n) (applied : Bool) : ObjectState n :=
  if applied then { s with lock := none } else s

def update (s : ObjectState n) (answer : Answer) (record : Option Version) : ObjectState n :=
  if answer.applied then { s with record } else s

/-- `disk_file.read_metadata()`: nothing where a file is missing or the metadata cannot be read. -/
def readMetadata (s : ObjectState n) : Option Version :=
  match s.data, s.metadata with
  | some _, some (.whole v) => some v
  | _, _ => none

/-! ### A request -/

/-- The next statement of a request. -/
def next (s : ObjectState n) (i : Nat) (r : Change n) : Option (ObjectState n) :=
  let tmp := s.tmp r.server
  match r.progress with
  | .granted => some (s.moveTo i .reading)
  | .reading =>
      match r.operation with
      | .put =>
          if s.readMetadata.any (r.timestamp ≤ ·.timestamp) then some (s.moveTo i (.freeing false))
          else some (s.moveTo i .removeData)
      | .delete =>
          match s.readMetadata with
          | none => some (s.moveTo i (.deleteData false))
          | some v =>
              if v.timestamp < r.timestamp then some (s.moveTo i (.deleteData true))
              else some (s.moveTo i (.freeing false))
  | .removeData => some ((s.setTmp r.server { tmp with data := none }).moveTo i .createData)
  | .createData =>
      some ((s.setTmp r.server { tmp with data := some (r.version i) }).moveTo i .removeMeta)
  | .removeMeta => some ((s.setTmp r.server { tmp with metadata := none }).moveTo i .createMeta)
  | .createMeta =>
      some ((s.setTmp r.server { tmp with metadata := some .empty }).moveTo i .uploading)
  | .uploading => some (s.moveTo i (.writing false))
  | .writing _ =>
      some ((s.setTmp r.server
        { tmp with metadata := tmp.metadata.map fun _ => .whole (r.version i) }).moveTo i
          .renameData)
  | .renameData =>
      match tmp.data with
      | some v =>
          some ({ s.setTmp r.server { tmp with data := none } with
            data := some v, changes := s.changes ++ [i] }.moveTo i .renameMeta)
      | none => some (s.moveTo i (.unlinkData .raised))
  | .renameMeta =>
      match tmp.metadata with
      | some file =>
          some ({ s.setTmp r.server { tmp with metadata := none } with
            metadata := some file }.moveTo i (.unlinkData .finalized))
      | none => some (s.moveTo i (.unlinkData .raised))
  | .dropData => some ((s.setTmp r.server { tmp with data := none }).moveTo i .dropMeta)
  | .dropMeta =>
      some ((s.setTmp r.server { tmp with metadata := none }).moveTo i (.unlinkData .raised))
  | .unlinkData how =>
      -- one `try` for both files: the second one stays when the first is not there
      if tmp.data = none then some (s.moveTo i (left how))
      else some ((s.setTmp r.server { tmp with data := none }).moveTo i (.unlinkMeta how))
  | .unlinkMeta how =>
      some ((s.setTmp r.server { tmp with metadata := none }).moveTo i (left how))
  | .deleteData found =>
      match s.data with
      | none => some (s.moveTo i (.freeing found))
      | some _ =>
          -- without metadata there is no `Content-Length` to send
          some ({ s with data := none, changes := s.changes ++ [i] }.moveTo i
            (if found then .updating else .failed))
  | .deleteMeta =>
      match s.metadata with
      | none => some (s.moveTo i (.ended true))
      | some _ => some ({ s with metadata := none }.moveTo i (.freeing true))
  | .forgetting done => some (s.moveTo i (.ended done))
  | .arrived | .releasing | .raising | .updating | .freeing _ | .failed | .ended _ | .dead => none
where
  left : Leaving → Progress
    | .early => .ended false
    | .raised => .raising
    | .finalized => .updating

/-- What a request does, with the failures of its statements. -/
def act (s : ObjectState n) (i : Nat) (a : ChangeAction) (r : Change n) :
    Option (ObjectState n) :=
  match a, r.progress with
  | .grant, .arrived =>
      if s.lock = none then
        some ({ s with lock := some i, grants := s.grants ++ [i] }.moveTo i .granted)
      else none
  -- no lock, or a lock whose grant the request does not learn of
  | .fail, .arrived | .fail, .granted => some (s.moveTo i (.ended false))
  | .next, _ => s.next i r
  | .fail, .reading =>
      match r.operation with
      | .put => some (s.moveTo i .failed)
      | .delete => some (s.moveTo i .raising)
  | .fail, .removeData | .fail, .createData | .fail, .removeMeta | .fail, .createMeta =>
      some (s.moveTo i .raising)
  | .fail, .uploading | .fail, .renameData | .fail, .renameMeta =>
      some (s.moveTo i (.unlinkData .raised))
  | .failWrite, .uploading => some (s.moveTo i .dropData)
  | .returnEarly, .uploading => some (s.moveTo i .releasing)
  | .writePart, .writing _ =>
      let tmp := s.tmp r.server
      some ((s.setTmp r.server { tmp with metadata := tmp.metadata.map fun _ => .torn }).moveTo i
        (.writing true))
  -- an `OSError` in `write_metadata` is passed over
  | .failMetadata, .writing _ => some (s.moveTo i .renameData)
  | .free applied, .releasing => some ((s.free i applied).moveTo i (.unlinkData .early))
  | .free applied, .raising => some ((s.free i applied).moveTo i (.ended false))
  | .fail, .deleteData found => some (s.moveTo i (.freeing found))
  | .update answer, .updating =>
      let s := s.update answer (r.written i)
      match answer, r.operation with
      | .redirect, _ => some s
      | .failure _, _ => some (s.moveTo i (.ended true))
      | .success, .put => some (s.moveTo i (.freeing true))
      | .success, .delete => some (s.moveTo i .deleteMeta)
  | .fail, .deleteMeta => some (s.moveTo i (.ended true))
  | .free applied, .freeing done => some ((s.free i applied).moveTo i (.forgetting done))
  | _, _ => none

/-! ### Startup recovery -/

/-- What the recovery of a `tmp` directory finds of the object. -/
def list (s : ObjectState n) (k : Fin n) : Visit :=
  match s.tmp k with
  | ⟨none, none⟩ => .serving
  | ⟨some _, none⟩ => .freeing false
  | ⟨some _, some .empty⟩ => .freeing true
  | ⟨none, some .empty⟩ => .removeMeta
  -- `pickle.loads` raises, and the server does not start
  | ⟨_, some .torn⟩ => .down
  | ⟨some _, some (.whole v)⟩ => .renameData v
  | ⟨none, some (.whole v)⟩ => .renameMeta v

/-- The next statement of the recovery of the object's files. -/
def visitNext (s : ObjectState n) (k : Fin n) : Option (ObjectState n) :=
  let tmp := s.tmp k
  match s.visits k with
  | .down => some (s.setVisit k (s.list k))
  | .removeData removes =>
      match tmp.data with
      | some _ =>
          some ((s.setTmp k { tmp with data := none }).setVisit k
            (if removes then .removeMeta else .serving))
      | none => some (s.setVisit k .down)
  | .removeMeta =>
      match tmp.metadata with
      | some _ => some ((s.setTmp k { tmp with metadata := none }).setVisit k .serving)
      | none => some (s.setVisit k .down)
  | .renameData v =>
      match tmp.data with
      | some w =>
          some ({ s.setTmp k { tmp with data := none } with
            data := some w, changes := s.changes ++ w.upload }.setVisit k (.renameMeta v))
      | none => some (s.setVisit k .down)
  | .renameMeta v =>
      match tmp.metadata with
      | some file =>
          some ({ s.setTmp k { tmp with metadata := none } with
            metadata := some file }.setVisit k (.updating v))
      | none => some (s.setVisit k .down)
  | .serving | .freeing _ | .updating _ | .unlocking => none

/-- What the recovery of the object's files does. An update that fails leaves the lock. -/
def visit (s : ObjectState n) (k : Fin n) (a : ChangeAction) : Option (ObjectState n) :=
  match a, s.visits k with
  | .next, _ => s.visitNext k
  | .free applied, .freeing removes =>
      some ((s.freeByName applied).setVisit k (.removeData removes))
  | .update answer, .updating v =>
      some ((s.update answer (some v)).setVisit k
        (if answer = .success then .unlocking else .serving))
  | .free applied, .unlocking => some ((s.freeByName applied).setVisit k .serving)
  | _, _ => none

/-! ### `RECOVER` -/

/-- `recover_put_request` and `recover_delete_request` up to the first message. -/
def look (s : ObjectState n) (operation : Operation) : RecoverStage :=
  match operation, s.data, s.metadata with
  | .put, some _, some (.whole v) => .updating v
  | .put, some _, some _ => .ended
  | .put, _, _ => .freeing
  | .delete, some _, some _ => .freeing
  | .delete, none, some (.whole v) => .updating v
  | .delete, none, some _ => .ended
  | .delete, _, none => .freeing

/-- What the handler of `RECOVER` does. -/
def handle (s : ObjectState n) (q : Nat) (a : ChangeAction) (c : RecoverCall n) :
    Option (ObjectState n) :=
  match a, c.stage with
  | .next, .checking =>
      if ∃ r ∈ s.requests, r.server = c.server ∧ r.progress.inMemory then
        some (s.setStage q .ended)
      else some (s.setStage q .looking)
  | .next, .looking =>
      s.requests[c.transaction]?.map fun r => s.setStage q (s.look r.operation)
  | .update answer, .updating v =>
      s.requests[c.transaction]?.map fun r =>
        match r.operation with
        | .put =>
            (s.update answer (some v)).setStage q (if answer = .success then .freeing else .ended)
        | .delete =>
            (s.update answer none).setStage q (if answer = .success then .removing else .ended)
  | .next, .removing =>
      match s.metadata with
      | some _ => some ({ s with metadata := none }.setStage q .freeing)
      | none => some (s.setStage q .ended)
  | .free applied, .freeing => some ((s.freeByName applied).setStage q .ended)
  | _, _ => none

/-- A crash ends all that runs on a server. -/
def crash (s : ObjectState n) (k : Fin n) : ObjectState n :=
  { s.setVisit k .down with
    requests := s.requests.map fun r => if r.server = k then { r with progress := .dead } else r
    recovers := s.recovers.map fun c => if c.server = k then { c with stage := .ended } else c }

def step (s : ObjectState n) : ChangeStep n → Option (ObjectState n)
  | .arrive operation server timestamp =>
      if s.visits server = .serving then
        some { s with requests := s.requests ++ [⟨operation, server, timestamp, .arrived⟩] }
      else none
  | .act i a => s.requests[i]?.bind (s.act i a)
  | .crash k => some (s.crash k)
  | .visit k a => s.visit k a
  | .recover k transaction =>
      if s.visits k = .serving then
        some { s with recovers := s.recovers ++ [⟨k, transaction, .checking⟩] }
      else none
  | .handle q a => s.recovers[q]?.bind (s.handle q a)

end ObjectState

end

end ObjectStorage.Objects
