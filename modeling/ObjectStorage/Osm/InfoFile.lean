import ObjectStorage.Library.Transition
import ObjectStorage.Osm.InfoRecords

/-!
The handlers of the node and component info files. Records are added in place, and rewritten into a
temporary file that is renamed; a crash may fall between any two of the file operations. The files
of the account, container and account-updater services hold one record, and are only replaced.
-/

namespace ObjectStorage.Osm

open Journal Library

/-- `node` is the node info file, `object` the component info file of the object services, and
`distributed` that of one of the other services. -/
inductive InfoFileType where
  | node
  | object
  | distributed
deriving DecidableEq

/-- An info file, its temporary file, and the `readbuff` of the write handler, which stays from call
to call. -/
structure InfoFile where
  infoFile : Option Bytes
  tempFile : Option Bytes
  readbuff : Bytes
deriving DecidableEq

/-- A call of a write handler. An update of a node changes the status in its record, one of an
object service puts another record in its place; a component handler adds one record at a time. -/
inductive InfoCall (ρ : Type) where
  | addRecord (records : List ρ)
  | updateRecord (id : String) (change : ρ → ρ)
  | deleteRecord (id : String)

inductive Target where
  | info
  | temp
deriving DecidableEq

inductive FileOp where
  | openAppend (target : Target)
  | openCreate
  | write (target : Target) (bytes : Bytes)
  | rename
deriving DecidableEq

inductive Outcome where
  | returned (status : Bool)
  | thrown
deriving DecidableEq

/-- The file operations of a call, how it ends, and the `readbuff` it leaves. -/
structure Plan where
  ops : List FileOp
  outcome : Outcome
  readbuff : Bytes
deriving DecidableEq

namespace InfoFile

def init : InfoFile := ⟨none, none, []⟩

/-- A missing file counts as an empty one. -/
def fileBytes (s : InfoFile) : Target → Bytes
  | .info => s.infoFile.getD []
  | .temp => s.tempFile.getD []

def put (s : InfoFile) : Target → Bytes → InfoFile
  | .info, bytes => { s with infoFile := some bytes }
  | .temp, bytes => { s with tempFile := some bytes }

/-- A rename without a temporary file fails. -/
def exec (s : InfoFile) : FileOp → InfoFile
  | .openAppend target => s.put target (s.fileBytes target)
  | .openCreate => s.put .temp []
  | .write target bytes => s.put target (s.fileBytes target ++ bytes)
  | .rename =>
      match s.tempFile with
      | some bytes => { s with infoFile := some bytes, tempFile := none }
      | none => s

def runOps (s : InfoFile) (ops : List FileOp) : InfoFile := ops.foldl exec s

section

variable {ρ : Type} (codec : RecordCodec ρ) (key : ρ → String) (type : InfoFileType)

/-! ### Reading -/

/-- What a new read handler finds; in a missing file it finds nothing. -/
def readRecords (s : InfoFile) : Option (List ρ) :=
  match s.infoFile with
  | none => some []
  | some file => (codec.scanChunk (RecordCodec.loadChunk [] file)).map (·.1)

def listNodeIds (s : InfoFile) : Option (List String) := (s.readRecords codec).map (·.map key)

def getRecordFromId (s : InfoFile) (id : String) : Option (Option ρ) :=
  (s.readRecords codec).map (·.find? (key · = id))

/-- The record of a distributed service is the last one. -/
def recovered (rs : List ρ) : List ρ :=
  match type with
  | .distributed => rs.getLast?.toList
  | _ => rs

def recoverRecord (s : InfoFile) : Option (List ρ) := (s.readRecords codec).map (recovered type)

/-! ### Writing -/

def maxFileLength : Int := 10487560

/-- When `add` finds space behind this offset. -/
def HasSpace (offset : Nat) (r : ρ) : Prop :=
  offset = 0 ∨ (codec.serializedSize r : Int) ≤ maxFileLength - offset

instance (offset : Nat) (r : ρ) : Decidable (HasSpace codec offset r) :=
  inferInstanceAs (Decidable (_ ∨ _))

/-- `add` for one record after another, until there is no space for one. -/
def addAll (target : Target) : Nat → List ρ → List FileOp × Bool
  | _, [] => ([], true)
  | offset, r :: rs =>
      if HasSpace codec offset r then
        let (ops, status) := addAll target (offset + codec.serializedSize r) rs
        (.write target (codec.frame r) :: ops, status)
      else ([], false)

/-- `delete_update_helper` for one record after another; a record without space is left out. -/
def copyAll : Nat → List ρ → List FileOp
  | _, [] => []
  | offset, r :: rs =>
      if HasSpace codec offset r then
        .openAppend .temp :: .write .temp (codec.frame r) ::
          copyAll (offset + codec.serializedSize r) rs
      else .openAppend .temp :: copyAll offset rs

def updated (id : String) (change : ρ → ρ) (r : ρ) : ρ := if key r = id then change r else r

/-- The end of a rewrite. -/
def thenRename (s : InfoFile) (ops : List FileOp) (status : Bool) (readbuff : Bytes) : Plan :=
  ⟨ops ++ [.rename], if (s.runOps ops).tempFile.isSome then .returned status else .thrown, readbuff⟩

/-- `NodeInfoFileWriteHandler::add_record`, and `ComponentInfoFileWriteHandler::add_record` for the
object services. -/
def addInPlace (s : InfoFile) (rs : List ρ) : Plan :=
  let (ops, status) := addAll codec .info (s.fileBytes .info).length rs
  ⟨.openAppend .info :: ops, .returned status, s.readbuff⟩

/-- `ComponentInfoFileWriteHandler::add_record` for the other services. -/
def addByRename (s : InfoFile) (rs : List ρ) : Plan :=
  let (ops, status) := addAll codec .temp (s.fileBytes .temp).length rs
  if status then s.thenRename (.openAppend .temp :: ops) true s.readbuff
  else ⟨.openAppend .temp :: ops, .returned false, s.readbuff⟩

/-- The loop of `update_record` over the records in `readbuff`. An invalid record is an exception,
which the update of a node does not catch. -/
def rewriteUpdated (s : InfoFile) (file : Bytes) (id : String) (change : ρ → ρ) : Option Plan :=
  let readbuff := RecordCodec.loadChunk s.readbuff file
  (codec.scanChunk readbuff).map fun (rs, invalid) =>
    let ops := copyAll codec (s.fileBytes .temp).length (rs.map (updated key id change))
    if invalid ∧ type = .node then ⟨ops, .thrown, readbuff⟩ else s.thenRename ops true readbuff

/-- The loop of `delete_record`, which tries a record for which there is no space again and again;
`opening` is how it opens the temporary file. -/
def rewriteWithout (s : InfoFile) (file : Bytes) (id : String) (opening : FileOp)
    (status : List ρ → Bool) : Option Plan :=
  let readbuff := RecordCodec.loadChunk s.readbuff file
  (codec.scanChunk readbuff).bind fun (rs, _) =>
    let (ops, added) := addAll codec .temp ((s.exec opening).fileBytes .temp).length
      (rs.filter (key · ≠ id))
    if added then some (s.thenRename (opening :: ops) (status rs) readbuff) else none

def nothingDone (s : InfoFile) : Plan := ⟨[], .returned false, s.readbuff⟩

/-- The update and the deletion of a node first look for it with a new read handler, those of an
object service do not. A call that does not end, or reads behind its buffer, has no plan. -/
def plan (s : InfoFile) : InfoCall ρ → Option Plan
  | .addRecord rs =>
      match type with
      | .distributed => some (s.addByRename codec rs)
      | _ => some (s.addInPlace codec rs)
  | .updateRecord id change =>
      match type, s.infoFile with
      | .node, some file =>
          (s.listNodeIds codec key).bind fun ids =>
            if id ∈ ids then s.rewriteUpdated codec key .node file id change
            else some s.nothingDone
      | .object, some file => s.rewriteUpdated codec key .object file id change
      | _, _ => some s.nothingDone
  | .deleteRecord id =>
      match type, s.infoFile with
      | .node, some file =>
          (s.listNodeIds codec key).bind fun ids =>
            if id ∈ ids then
              s.rewriteWithout codec key file id (.openAppend .temp) fun _ => true
            else some s.nothingDone
      | .object, some file =>
          s.rewriteWithout codec key file id .openCreate fun rs => rs.any (key · = id)
      | _, _ => some s.nothingDone

/-- A call, or its first operations before a crash, which also ends the write handler. -/
def step (s : InfoFile) (call : InfoCall ρ × Option Nat) : Option InfoFile :=
  (s.plan codec key type call.1).map fun p =>
    match call.2 with
    | none => { s.runOps p.ops with readbuff := p.readbuff }
    | some k => { s.runOps (p.ops.take k) with readbuff := [] }

/-! ### The list of records -/

/-- What a call does to the list of records. -/
def applyCall : InfoCall ρ → List ρ → List ρ
  | .addRecord rs, records => if type = .distributed then rs else records ++ rs
  | .updateRecord id change, records =>
      if type = .distributed then records else records.map (updated key id change)
  | .deleteRecord id, records =>
      if type = .distributed then records else records.filter (key · ≠ id)

/-- What calls make of a list of records if one that a crash interrupts happens or does not. -/
def Applied : List (InfoCall ρ × Option Nat) → List ρ → List ρ → Prop
  | [], records, records' => records' = records
  | (call, crash) :: calls, records, records' =>
      Applied calls (applyCall key type call records) records' ∨
        crash ≠ none ∧ Applied calls records records'

instance decidableApplied [DecidableEq ρ] : (calls : List (InfoCall ρ × Option Nat)) →
    (records records' : List ρ) → Decidable (Applied key type calls records records')
  | [], records, records' => inferInstanceAs (Decidable (records' = records))
  | (call, crash) :: calls, records, records' =>
      have := decidableApplied calls (applyCall key type call records) records'
      have := decidableApplied calls records records'
      inferInstanceAs (Decidable (_ ∨ crash ≠ none ∧ _))

/-- The records in the file. -/
def records (s : InfoFile) : List ρ := (s.readRecords codec).getD []

/-- A reader loads these bytes at once, with the size that ends them. -/
def FitsChunk (length : Nat) : Prop := length + startSize ≤ maxReadChunkSize

instance (length : Nat) : Decidable (FitsChunk length) := inferInstanceAs (Decidable (_ ≤ _))

/-- Nothing is left in the temporary file, and nothing in `readbuff` behind the end of the file. -/
def Clean (s : InfoFile) : Prop :=
  s.fileBytes .temp = [] ∧ s.readbuff.length ≤ (s.fileBytes .info).length

instance (s : InfoFile) : Decidable s.Clean := inferInstanceAs (Decidable (_ ∧ _))

/-- When the files stay a list of records: what is written fits in one chunk, a rewrite starts from
an empty temporary file and with no old bytes in `readbuff`, and a crash does not fall between the
records of one call. The deletion of an object service truncates the temporary file, and the calls
that find nothing to rewrite do not touch it. -/
def Safe (s : InfoFile) : InfoCall ρ × Option Nat → Prop
  | (.addRecord rs, crash) =>
      match type with
      | .node => FitsChunk (s.fileBytes .info ++ codec.frames rs).length ∧
          ∀ k ∈ crash, k ≤ 1 ∨ rs.length < k
      | .object => rs.length = 1 ∧ FitsChunk (s.fileBytes .info ++ codec.frames rs).length
      | .distributed => rs.length = 1 ∧ FitsChunk (s.fileBytes .temp ++ codec.frames rs).length
  | (.updateRecord id change, _) =>
      match type, s.infoFile with
      | .node, some _ => (∃ r ∈ s.records codec, key r = id) →
          s.Clean ∧ FitsChunk (codec.frames ((s.records codec).map (updated key id change))).length
      | .object, some _ =>
          s.Clean ∧ FitsChunk (codec.frames ((s.records codec).map (updated key id change))).length
      | _, _ => True
  | (.deleteRecord id, _) =>
      match type, s.infoFile with
      | .node, some _ => (∃ r ∈ s.records codec, key r = id) → s.Clean
      | .object, some _ => s.readbuff.length ≤ (s.fileBytes .info).length
      | _, _ => True

instance decidableSafe (s : InfoFile) : (call : InfoCall ρ × Option Nat) →
    Decidable (s.Safe codec key type call)
  | (.addRecord _, _) =>
      match type with
      | .node => inferInstanceAs (Decidable (FitsChunk _ ∧ ∀ k ∈ _, _))
      | .object => inferInstanceAs (Decidable (_ = 1 ∧ FitsChunk _))
      | .distributed => inferInstanceAs (Decidable (_ = 1 ∧ FitsChunk _))
  | (.updateRecord _ _, _) =>
      match type, s with
      | .node, ⟨some _, _, _⟩ => inferInstanceAs (Decidable ((∃ r ∈ _, _ = _) → Clean _ ∧ _))
      | .object, ⟨some _, _, _⟩ => inferInstanceAs (Decidable (Clean _ ∧ FitsChunk _))
      | .node, ⟨none, _, _⟩ => isTrue trivial
      | .object, ⟨none, _, _⟩ => isTrue trivial
      | .distributed, ⟨_, _, _⟩ => isTrue trivial
  | (.deleteRecord _, _) =>
      match type, s with
      | .node, ⟨some _, _, _⟩ => inferInstanceAs (Decidable ((∃ r ∈ _, _ = _) → Clean _))
      | .object, ⟨some _, _, _⟩ => inferInstanceAs (Decidable (_ ≤ _))
      | .node, ⟨none, _, _⟩ => isTrue trivial
      | .object, ⟨none, _, _⟩ => isTrue trivial
      | .distributed, ⟨_, _, _⟩ => isTrue trivial

/-! ### The operations of a call -/

variable {codec key type} {s : InfoFile} {rs rs' old : List ρ} {target : Target}
  {ops : List FileOp} {n : Nat} {bytes : Bytes}

@[simp] theorem fileBytes_put (s : InfoFile) (target : Target) (bytes : Bytes) :
    (s.put target bytes).fileBytes target = bytes := by
  cases target <;> rfl

@[simp] theorem put_put (s : InfoFile) (target : Target) (bytes bytes' : Bytes) :
    (s.put target bytes).put target bytes' = s.put target bytes' := by
  cases target <;> rfl

@[simp] theorem infoFile_put_temp (s : InfoFile) (bytes : Bytes) :
    (s.put .temp bytes).infoFile = s.infoFile := rfl

@[simp] theorem tempFile_put_temp (s : InfoFile) (bytes : Bytes) :
    (s.put .temp bytes).tempFile = some bytes := rfl

@[simp] theorem runOps_nil (s : InfoFile) : s.runOps [] = s := rfl

@[simp] theorem runOps_cons (s : InfoFile) (op : FileOp) (ops : List FileOp) :
    s.runOps (op :: ops) = (s.exec op).runOps ops := rfl

theorem runOps_append (s : InfoFile) (ops ops' : List FileOp) :
    s.runOps (ops ++ ops') = (s.runOps ops).runOps ops' :=
  List.foldl_append

/-- The writes of records with space for all of them. -/
def writes (codec : RecordCodec ρ) (target : Target) (rs : List ρ) : List FileOp :=
  rs.map fun r => .write target (codec.frame r)

/-- The operations of an update with space for all records. -/
def copies (codec : RecordCodec ρ) (rs : List ρ) : List FileOp :=
  rs.flatMap fun r => [.openAppend .temp, .write .temp (codec.frame r)]

theorem addAll_eq (h : ((n + (codec.frames rs).length : Nat) : Int) ≤ maxFileLength) :
    addAll codec target n rs = (writes codec target rs, true) := by
  induction rs generalizing n with
  | nil => rfl
  | cons r rs ih =>
      rw [RecordCodec.frames_cons, List.length_append, RecordCodec.length_frame] at h
      have hspace : HasSpace codec n r := .inr (by omega)
      rw [addAll, if_pos hspace, ih (by omega)]
      rfl

theorem copyAll_eq (h : ((n + (codec.frames rs).length : Nat) : Int) ≤ maxFileLength) :
    copyAll codec n rs = copies codec rs := by
  induction rs generalizing n with
  | nil => rfl
  | cons r rs ih =>
      rw [RecordCodec.frames_cons, List.length_append, RecordCodec.length_frame] at h
      have hspace : HasSpace codec n r := .inr (by omega)
      rw [copyAll, if_pos hspace, ih (by omega)]
      rfl

theorem runOps_writes : (s.put target bytes).runOps (writes codec target rs) =
    s.put target (bytes ++ codec.frames rs) := by
  induction rs generalizing bytes with
  | nil => simp [writes]
  | cons r rs ih =>
      have hrest : (s.put target (bytes ++ codec.frame r)).runOps (writes codec target rs) =
          s.put target (bytes ++ codec.frame r ++ codec.frames rs) := ih
      simpa [writes, exec] using hrest

theorem runOps_copies : (s.put .temp bytes).runOps (copies codec rs) =
    s.put .temp (bytes ++ codec.frames rs) := by
  induction rs generalizing bytes with
  | nil => simp [copies]
  | cons r rs ih =>
      have hrest : (s.put .temp (bytes ++ codec.frame r)).runOps (copies codec rs) =
          s.put .temp (bytes ++ codec.frame r ++ codec.frames rs) := ih
      simpa [copies, exec] using hrest

theorem runOps_copies_cons (r : ρ) : s.runOps (copies codec (r :: rs)) =
    s.put .temp (s.fileBytes .temp ++ codec.frames (r :: rs)) := by
  rw [← runOps_copies]
  simp [copies, exec]

theorem exec_rename (h : s.tempFile = some bytes) :
    s.exec .rename = { s with infoFile := some bytes, tempFile := none } := by
  simp [exec, h]

/-- An operation on the temporary file that leaves whole records there. -/
def TempOp (codec : RecordCodec ρ) : FileOp → Prop
  | .openAppend target => target = .temp
  | .openCreate => True
  | .write target bytes => target = .temp ∧ ∃ r, bytes = codec.frame r
  | .rename => False

theorem tempOp_of_mem_writes {op : FileOp} (h : op ∈ writes codec .temp rs) : TempOp codec op := by
  obtain ⟨r, -, rfl⟩ := List.mem_map.mp h
  exact ⟨rfl, r, rfl⟩

theorem tempOp_of_mem_copies {op : FileOp} (h : op ∈ copies codec rs) : TempOp codec op := by
  obtain ⟨r, -, hop⟩ := List.mem_flatMap.mp h
  simp only [List.mem_cons, List.not_mem_nil, or_false] at hop
  rcases hop with rfl | rfl
  · rfl
  · exact ⟨rfl, r, rfl⟩

theorem runOps_tempOps (hops : ∀ op ∈ ops, TempOp codec op)
    (htemp : ∃ old, s.fileBytes .temp = codec.frames old) :
    (s.runOps ops).infoFile = s.infoFile ∧
      ∃ old, (s.runOps ops).fileBytes .temp = codec.frames old := by
  induction ops generalizing s with
  | nil => exact ⟨rfl, htemp⟩
  | cons op ops ih =>
      have hop := hops op List.mem_cons_self
      have hrest := fun op hin => hops op (List.mem_cons_of_mem _ hin)
      cases op with
      | openAppend target =>
          obtain rfl : target = .temp := hop
          exact ih hrest (by simpa [exec] using htemp)
      | openCreate => exact ih hrest ⟨[], by simp [exec]⟩
      | write target bytes =>
          obtain ⟨rfl, r, rfl⟩ := hop
          obtain ⟨old, hold⟩ := htemp
          exact ih hrest ⟨old ++ [r], by simp [exec, hold]⟩
      | rename => exact hop.elim

/-! ### The files hold lists of records -/

/-- The file and the temporary file are whole records, and a reader that loads one chunk of the file
finds these. -/
def Holds (codec : RecordCodec ρ) (type : InfoFileType) (s : InfoFile) (L : List ρ) : Prop :=
  ∃ current old, s.fileBytes .info = codec.frames current ∧ s.fileBytes .temp = codec.frames old ∧
    FitsChunk (codec.frames current).length ∧ recovered type current = L

variable {L L' : List ρ}

theorem frames_eq_nil (h : codec.frames rs = []) : rs = [] := by
  have hcount := codec.length_mul_le rs
  rw [h] at hcount
  exact List.length_eq_zero_iff.mp (by simpa [startSize] using hcount)

theorem holds_init : Holds codec type init (recovered type []) :=
  ⟨[], [], rfl, rfl, (by decide : FitsChunk 0), rfl⟩

theorem readRecords_eq (hinfo : s.fileBytes .info = codec.frames rs)
    (hfits : FitsChunk (codec.frames rs).length) : s.readRecords codec = some rs := by
  rw [readRecords]
  cases hfile : s.infoFile with
  | none =>
      have hnil : codec.frames rs = [] := by simpa [fileBytes, hfile] using hinfo.symm
      rw [frames_eq_nil hnil]
  | some file =>
      obtain rfl : file = codec.frames rs := by simpa [fileBytes, hfile] using hinfo
      simp only
      rw [RecordCodec.loadChunk_eq (Nat.zero_le _) (Nat.le_of_add_right_le hfits),
        RecordCodec.scanChunk_frames hfits, Option.map_some]

/-- After a call, or after its first operations if a crash interrupts it, the records are those from
before the call or those that the call leaves. -/
def HoldsAfter (codec : RecordCodec ρ) (type : InfoFileType) (s : InfoFile) (ops : List FileOp)
    (crash : Option Nat) (L L' : List ρ) : Prop :=
  match crash with
  | none => Holds codec type (s.runOps ops) L'
  | some k => Holds codec type (s.runOps (ops.take k)) L' ∨
      Holds codec type (s.runOps (ops.take k)) L

variable {crash : Option Nat}

theorem Holds.nothingDone (h : Holds codec type s L) :
    HoldsAfter codec type s s.nothingDone.ops crash L L := by
  cases crash with
  | none => exact h
  | some k => exact .inl (by simpa [InfoFile.nothingDone] using h)

theorem Holds.rewrite (h : Holds codec type s L) (hops : ∀ op ∈ ops, TempOp codec op)
    (hresult : (s.runOps ops).tempFile = some (codec.frames rs))
    (hfits : FitsChunk (codec.frames rs).length) (hL' : recovered type rs = L') :
    HoldsAfter codec type s (ops ++ [.rename]) crash L L' := by
  obtain ⟨current, old, hinfo, htemp, hcurrent, hL⟩ := h
  have hdone : Holds codec type (s.runOps (ops ++ [.rename])) L' := by
    rw [runOps_append, runOps_cons, exec_rename hresult]
    exact ⟨rs, [], rfl, rfl, hfits, hL'⟩
  have hbefore : ∀ k, Holds codec type (s.runOps (ops.take k)) L := by
    intro k
    have hprefix : ∀ op ∈ ops.take k, TempOp codec op := fun op hin =>
      hops op (List.mem_of_mem_take hin)
    obtain ⟨hfile, old', htemp'⟩ := runOps_tempOps hprefix ⟨old, htemp⟩
    refine ⟨current, old', ?_, htemp', hcurrent, hL⟩
    rw [fileBytes, hfile]
    exact hinfo
  cases crash with
  | none => exact hdone
  | some k =>
      by_cases hk : k ≤ ops.length
      · refine .inr ?_
        rw [List.take_append_of_le_length hk]
        exact hbefore k
      · refine .inl ?_
        rw [List.take_of_length_le (by simp; omega)]
        exact hdone

theorem space_of_fits (h : FitsChunk n) : ((n : Nat) : Int) ≤ maxFileLength := by
  simp only [FitsChunk, startSize, maxReadChunkSize] at h
  simp only [maxFileLength]
  omega

theorem Holds.addInPlace (htype : type ≠ .distributed) (h : Holds codec type s L)
    (hfits : FitsChunk (s.fileBytes .info ++ codec.frames rs).length)
    (hcrash : ∀ k ∈ crash, k ≤ 1 ∨ rs.length < k) :
    HoldsAfter codec type s (s.addInPlace codec rs).ops crash L (L ++ rs) := by
  obtain ⟨current, old, hinfo, htemp, hcurrent, rfl⟩ := h
  have hsame : ∀ rs : List ρ, recovered type rs = rs := by
    cases type with
    | node => exact fun _ => rfl
    | object => exact fun _ => rfl
    | distributed => exact absurd rfl htype
  have hops : (s.addInPlace codec rs).ops = .openAppend .info :: writes codec .info rs := by
    rw [List.length_append] at hfits
    rw [InfoFile.addInPlace, addAll_eq (space_of_fits hfits)]
  have hlength : (writes codec .info rs).length = rs.length := List.length_map _
  have hopened : Holds codec type (s.runOps [.openAppend .info]) (recovered type current) :=
    ⟨current, old, by simpa [exec] using hinfo, htemp, hcurrent, rfl⟩
  have hdone : Holds codec type (s.runOps (.openAppend .info :: writes codec .info rs))
      (recovered type current ++ rs) := by
    rw [runOps_cons, exec, runOps_writes, hinfo, ← RecordCodec.frames_append]
    rw [hinfo, ← RecordCodec.frames_append] at hfits
    exact ⟨current ++ rs, old, fileBytes_put _ _ _, htemp, hfits, by rw [hsame, hsame]⟩
  rw [hops]
  cases crash with
  | none => exact hdone
  | some k =>
      rcases hcrash k rfl with hk | hk
      · refine .inr ?_
        rcases Nat.le_one_iff_eq_zero_or_eq_one.mp hk with rfl | rfl
        · exact ⟨current, old, hinfo, htemp, hcurrent, rfl⟩
        · exact hopened
      · refine .inl ?_
        rw [List.take_of_length_le (by rw [List.length_cons, hlength]; omega)]
        exact hdone

/-- The one record of a distributed service, added behind what the temporary file holds. -/
theorem Holds.addByRename (h : Holds codec .distributed s L) (hone : rs.length = 1)
    (hfits : FitsChunk (s.fileBytes .temp ++ codec.frames rs).length) :
    HoldsAfter codec .distributed s (s.addByRename codec rs).ops crash L rs := by
  obtain ⟨r, rfl⟩ := List.length_eq_one_iff.mp hone
  obtain ⟨current, old, hinfo, htemp, hcurrent, hL⟩ := h
  have hadded : addAll codec .temp (s.fileBytes .temp).length [r] =
      (writes codec .temp [r], true) := by
    rw [List.length_append] at hfits
    exact addAll_eq (space_of_fits hfits)
  have hops : (s.addByRename codec [r]).ops =
      (.openAppend .temp :: writes codec .temp [r]) ++ [.rename] := by
    rw [InfoFile.addByRename, hadded]
    rfl
  have hlast : recovered .distributed (old ++ [r]) = [r] := by simp [recovered]
  rw [hops]
  rw [htemp, ← RecordCodec.frames_append] at hfits
  refine Holds.rewrite ⟨current, old, hinfo, htemp, hcurrent, hL⟩ ?_ ?_ hfits hlast
  · intro op hop
    rcases List.mem_cons.mp hop with rfl | hop
    · rfl
    · exact tempOp_of_mem_writes hop
  · rw [runOps_cons, exec, runOps_writes, htemp, ← RecordCodec.frames_append]
    rfl

theorem recovered_of_ne (htype : type ≠ .distributed) (rs : List ρ) : recovered type rs = rs := by
  cases type with
  | node => rfl
  | object => rfl
  | distributed => exact absurd rfl htype

/-- A handler whose `readbuff` holds nothing behind the end of the file finds its records. -/
theorem scanChunk_readbuff {file : Bytes} (hfile : s.infoFile = some file)
    (hinfo : s.fileBytes .info = codec.frames rs) (hfits : FitsChunk (codec.frames rs).length)
    (hbuffer : s.readbuff.length ≤ (s.fileBytes .info).length) :
    codec.scanChunk (RecordCodec.loadChunk s.readbuff file) = some (rs, false) := by
  obtain rfl : file = codec.frames rs := by simpa [fileBytes, hfile] using hinfo
  rw [RecordCodec.loadChunk_eq (by rwa [hinfo] at hbuffer) (Nat.le_of_add_right_le hfits),
    RecordCodec.scanChunk_frames hfits]

theorem Holds.rewriteUpdated {file : Bytes} {id : String} {change : ρ → ρ}
    (htype : type ≠ .distributed) (hfile : s.infoFile = some file)
    (hinfo : s.fileBytes .info = codec.frames rs) (hcurrent : FitsChunk (codec.frames rs).length)
    (hclean : s.Clean)
    (hfits : FitsChunk (codec.frames (rs.map (updated key id change))).length) :
    ∃ p, s.rewriteUpdated codec key type file id change = some p ∧
      HoldsAfter codec type s p.ops crash rs (rs.map (updated key id change)) := by
  have hL := recovered_of_ne htype (rs.map (updated key id change))
  have hholds : Holds codec type s rs :=
    ⟨rs, [], hinfo, hclean.1, hcurrent, recovered_of_ne htype rs⟩
  have hcopies : copyAll codec (s.fileBytes .temp).length (rs.map (updated key id change)) =
      copies codec (rs.map (updated key id change)) := by
    rw [hclean.1]
    exact copyAll_eq (by simpa using space_of_fits hfits)
  refine ⟨s.thenRename (copies codec (rs.map (updated key id change))) true
    (RecordCodec.loadChunk s.readbuff file), ?_, ?_⟩
  · rw [InfoFile.rewriteUpdated, scanChunk_readbuff hfile hinfo hcurrent hclean.2]
    simp [hcopies]
  cases rs with
  | nil =>
      -- the rename finds an empty temporary file or none
      have hsame : ∀ ops : List FileOp, ops = [] ∨ ops = [.rename] →
          Holds codec type (s.runOps ops) [] := by
        intro ops hops
        rcases hops with rfl | rfl
        · exact hholds
        · cases htemp : s.tempFile with
          | none => simpa [exec, htemp] using hholds
          | some bytes =>
              obtain rfl : bytes = [] := by simpa [fileBytes, htemp] using hclean.1
              rw [runOps_cons, exec_rename htemp]
              exact ⟨[], [], rfl, rfl, hcurrent, recovered_of_ne htype []⟩
      cases crash with
      | none => exact hsame _ (.inr rfl)
      | some k =>
          refine .inl (hsame _ ?_)
          cases k with
          | zero => exact .inl rfl
          | succ k => exact .inr (List.take_of_length_le (by simp [thenRename, copies]))
  | cons r rs =>
      refine hholds.rewrite (fun op => tempOp_of_mem_copies) ?_ hfits hL
      rw [List.map_cons, runOps_copies_cons, hclean.1]
      rfl

theorem frames_filter_le (p : ρ → Bool) (rs : List ρ) :
    (codec.frames (rs.filter p)).length ≤ (codec.frames rs).length := by
  induction rs with
  | nil => exact Nat.le_refl _
  | cons r rs ih =>
      rw [List.filter_cons]
      split <;> simp only [RecordCodec.frames_cons, List.length_append] <;> omega

/-- A deletion starts with an empty temporary file, which it opens or creates. -/
theorem Holds.rewriteWithout {file : Bytes} {id : String} {opening : FileOp}
    {status : List ρ → Bool} (htype : type ≠ .distributed) (hfile : s.infoFile = some file)
    (hinfo : s.fileBytes .info = codec.frames rs) (hcurrent : FitsChunk (codec.frames rs).length)
    (htemp : s.fileBytes .temp = codec.frames old)
    (hbuffer : s.readbuff.length ≤ (s.fileBytes .info).length) (hopening : TempOp codec opening)
    (hopened : s.exec opening = s.put .temp []) :
    ∃ p, s.rewriteWithout codec key file id opening status = some p ∧
      HoldsAfter codec type s p.ops crash rs (rs.filter (key · ≠ id)) := by
  have hL := recovered_of_ne htype (rs.filter (key · ≠ id))
  have hfits : FitsChunk (codec.frames (rs.filter (key · ≠ id))).length :=
    Nat.le_trans (Nat.add_le_add_right (frames_filter_le _ rs) _) hcurrent
  have hadded : addAll codec .temp ((s.exec opening).fileBytes .temp).length
      (rs.filter (key · ≠ id)) = (writes codec .temp (rs.filter (key · ≠ id)), true) := by
    rw [hopened, fileBytes_put]
    exact addAll_eq (by simpa using space_of_fits hfits)
  refine ⟨s.thenRename (opening :: writes codec .temp (rs.filter (key · ≠ id))) (status rs)
    (RecordCodec.loadChunk s.readbuff file), ?_, ?_⟩
  · rw [InfoFile.rewriteWithout, scanChunk_readbuff hfile hinfo hcurrent hbuffer]
    simp only [Option.bind_some, hadded, if_true]
  refine Holds.rewrite ⟨rs, old, hinfo, htemp, hcurrent, recovered_of_ne htype rs⟩ ?_ ?_ hfits hL
  · intro op hop
    rcases List.mem_cons.mp hop with rfl | hop
    · exact hopening
    · exact tempOp_of_mem_writes hop
  · rw [runOps_cons, hopened, runOps_writes]
    rfl

theorem applyCall_updateRecord_of_not {id : String} {change : ρ → ρ}
    (hid : ¬ ∃ r ∈ rs, key r = id) : applyCall key type (.updateRecord id change) rs = rs := by
  have hsame : rs.map (updated key id change) = rs :=
    (List.map_congr_left fun r hr => if_neg fun hkey => hid ⟨r, hr, hkey⟩).trans (List.map_id rs)
  rw [applyCall, hsame, ite_self]

theorem applyCall_deleteRecord_of_not {id : String} (hid : ¬ ∃ r ∈ rs, key r = id) :
    applyCall key type (.deleteRecord id) rs = rs := by
  have hsame : rs.filter (key · ≠ id) = rs :=
    List.filter_eq_self.mpr fun r hr => decide_eq_true fun hkey => hid ⟨r, hr, hkey⟩
  rw [applyCall, hsame, ite_self]

/-- A safe call ends and does to the list what it should, or nothing if a crash interrupts it. -/
theorem Holds.plan {call : InfoCall ρ × Option Nat} (h : Holds codec type s L)
    (hsafe : s.Safe codec key type call) : ∃ p, s.plan codec key type call.1 = some p ∧
      HoldsAfter codec type s p.ops call.2 L (applyCall key type call.1 L) := by
  obtain ⟨call, crash⟩ := call
  obtain ⟨current, old, hinfo, htemp, hcurrent, rfl⟩ := id h
  have hread : s.readRecords codec = some current := readRecords_eq hinfo hcurrent
  have hrecords : s.records codec = current := by rw [records, hread, Option.getD_some]
  have hids : s.listNodeIds codec key = some (current.map key) := by
    rw [listNodeIds, hread, Option.map_some]
  have hmissing : s.infoFile = none → current = [] := fun hfile => by
    have hnil : codec.frames current = [] := by simpa [fileBytes, hfile] using hinfo.symm
    exact frames_eq_nil hnil
  have hnode : InfoFileType.node ≠ .distributed := by decide
  have hobject : InfoFileType.object ≠ .distributed := by decide
  cases call with
  | addRecord rs =>
      cases type with
      | node => exact ⟨_, rfl, h.addInPlace hnode hsafe.1 hsafe.2⟩
      | object =>
          refine ⟨_, rfl, h.addInPlace hobject hsafe.2 fun k _ => ?_⟩
          have hone : rs.length = 1 := hsafe.1
          omega
      | distributed => exact ⟨_, rfl, h.addByRename hsafe.1 hsafe.2⟩
  | updateRecord id change =>
      cases type with
      | distributed => exact ⟨_, rfl, h.nothingDone⟩
      | object =>
          cases hfile : s.infoFile with
          | none =>
              rw [hmissing hfile] at h ⊢
              exact ⟨s.nothingDone, by simp [InfoFile.plan, hfile], h.nothingDone⟩
          | some file =>
              obtain ⟨hclean, hfits⟩ : s.Clean ∧
                  FitsChunk (codec.frames (current.map (updated key id change))).length := by
                simpa only [Safe, hfile, hrecords] using hsafe
              obtain ⟨p, hp, hafter⟩ := Holds.rewriteUpdated hobject hfile hinfo
                hcurrent hclean hfits
              exact ⟨p, by simpa [InfoFile.plan, hfile] using hp, hafter⟩
      | node =>
          cases hfile : s.infoFile with
          | none =>
              rw [hmissing hfile] at h ⊢
              exact ⟨s.nothingDone, by simp [InfoFile.plan, hfile], h.nothingDone⟩
          | some file =>
              by_cases hid : ∃ r ∈ current, key r = id
              · obtain ⟨hclean, hfits⟩ : s.Clean ∧
                    FitsChunk (codec.frames (current.map (updated key id change))).length := by
                  simp only [Safe, hfile, hrecords] at hsafe
                  exact hsafe hid
                obtain ⟨p, hp, hafter⟩ := Holds.rewriteUpdated hnode hfile
                  hinfo hcurrent hclean hfits
                refine ⟨p, ?_, hafter⟩
                simp only [InfoFile.plan, hfile, hids, Option.bind_some]
                rw [if_pos (List.mem_map.mpr hid)]
                exact hp
              · refine ⟨s.nothingDone, ?_, ?_⟩
                · simp only [InfoFile.plan, hfile, hids, Option.bind_some]
                  rw [if_neg fun hin => hid (List.mem_map.mp hin)]
                · have hkept : applyCall key .node (.updateRecord id change) current = current :=
                    applyCall_updateRecord_of_not hid
                  exact hkept.symm ▸ h.nothingDone
  | deleteRecord id =>
      cases type with
      | distributed => exact ⟨_, rfl, h.nothingDone⟩
      | object =>
          cases hfile : s.infoFile with
          | none =>
              rw [hmissing hfile] at h ⊢
              exact ⟨s.nothingDone, by simp [InfoFile.plan, hfile], h.nothingDone⟩
          | some file =>
              have hbuffer : s.readbuff.length ≤ (s.fileBytes .info).length := by
                simpa only [Safe, hfile] using hsafe
              have hopening : TempOp codec .openCreate := trivial
              obtain ⟨p, hp, hafter⟩ := Holds.rewriteWithout hobject hfile
                hinfo hcurrent htemp hbuffer hopening rfl
              exact ⟨p, by simpa only [InfoFile.plan, hfile] using hp, hafter⟩
      | node =>
          cases hfile : s.infoFile with
          | none =>
              rw [hmissing hfile] at h ⊢
              exact ⟨s.nothingDone, by simp [InfoFile.plan, hfile], h.nothingDone⟩
          | some file =>
              by_cases hid : ∃ r ∈ current, key r = id
              · have hclean : s.Clean := by
                  simp only [Safe, hfile, hrecords] at hsafe
                  exact hsafe hid
                have hopening : TempOp codec (.openAppend .temp) := rfl
                have hopened : s.exec (.openAppend .temp) = s.put .temp [] := by
                  rw [exec, hclean.1]
                obtain ⟨p, hp, hafter⟩ := Holds.rewriteWithout hnode hfile
                  hinfo hcurrent htemp hclean.2 hopening hopened
                refine ⟨p, ?_, hafter⟩
                simp only [InfoFile.plan, hfile, hids, Option.bind_some]
                rw [if_pos (List.mem_map.mpr hid)]
                exact hp
              · refine ⟨s.nothingDone, ?_, ?_⟩
                · simp only [InfoFile.plan, hfile, hids, Option.bind_some]
                  rw [if_neg fun hin => hid (List.mem_map.mp hin)]
                · have hkept : applyCall key .node (.deleteRecord id) current = current :=
                    applyCall_deleteRecord_of_not hid
                  exact hkept.symm ▸ h.nothingDone

theorem Holds.step {call : InfoCall ρ × Option Nat} (h : Holds codec type s L)
    (hsafe : s.Safe codec key type call) : ∃ s', s.step codec key type call = some s' ∧
      (Holds codec type s' (applyCall key type call.1 L) ∨
        call.2 ≠ none ∧ Holds codec type s' L) := by
  obtain ⟨p, hp, hafter⟩ := h.plan hsafe
  obtain ⟨call, crash⟩ := call
  cases crash with
  | none =>
      exact ⟨{ s.runOps p.ops with readbuff := p.readbuff }, by simp [InfoFile.step, hp],
        .inl hafter⟩
  | some k =>
      refine ⟨{ s.runOps (p.ops.take k) with readbuff := [] }, by simp [InfoFile.step, hp], ?_⟩
      rcases hafter with hdone | hlost
      · exact .inl hdone
      · exact .inr ⟨by simp, hlost⟩

theorem Holds.run {calls : List (InfoCall ρ × Option Nat)} (h : Holds codec type s L)
    (hsafe : Along (InfoFile.step codec key type) (Safe codec key type) s calls) :
    ∃ s' L', Library.run (InfoFile.step codec key type) s calls = some s' ∧
      Applied key type calls L L' ∧ Holds codec type s' L' := by
  induction calls generalizing s L with
  | nil => exact ⟨s, L, rfl, rfl, h⟩
  | cons call calls ih =>
      obtain ⟨s', hs', hafter⟩ := h.step hsafe.1
      rcases hafter with hdone | ⟨hcrash, hlost⟩
      · obtain ⟨t, L', hrun, happlied, ht⟩ := ih hdone (hsafe.2 s' hs')
        exact ⟨t, L', by rw [run_cons, hs', Option.bind_some, hrun], .inl happlied, ht⟩
      · obtain ⟨t, L', hrun, happlied, ht⟩ := ih hlost (hsafe.2 s' hs')
        exact ⟨t, L', by rw [run_cons, hs', Option.bind_some, hrun], .inr ⟨hcrash, happlied⟩, ht⟩

theorem Holds.readers (h : Holds codec type s L) : s.recoverRecord codec type = some L ∧
    (type = .node → s.listNodeIds codec key = some (L.map key) ∧
      ∀ id, s.getRecordFromId codec key id = some (L.find? (key · = id))) := by
  obtain ⟨current, old, hinfo, htemp, hcurrent, rfl⟩ := h
  have hread : s.readRecords codec = some current := readRecords_eq hinfo hcurrent
  refine ⟨by rw [recoverRecord, hread, Option.map_some], ?_⟩
  rintro rfl
  exact ⟨by rw [listNodeIds, hread, Option.map_some]; rfl,
    fun id => by rw [getRecordFromId, hread, Option.map_some]; rfl⟩

/-- Every call of the run ends, and the readers find the list of records that the calls make, each
interrupted one having happened or not. -/
def RunRefines (codec : RecordCodec ρ) (key : ρ → String) (type : InfoFileType)
    (calls : List (InfoCall ρ × Option Nat)) : Prop :=
  ∃ s L, Library.run (InfoFile.step codec key type) init calls = some s ∧
    Applied key type calls [] L ∧ s.recoverRecord codec type = some L ∧
    (type = .node → s.listNodeIds codec key = some (L.map key) ∧
      ∀ id, s.getRecordFromId codec key id = some (L.find? (key · = id)))

/-- The info files refine a list of records over every run of safe calls and crashes. -/
theorem info_file_refines {calls : List (InfoCall ρ × Option Nat)}
    (hsafe : Along (InfoFile.step codec key type) (Safe codec key type) init calls) :
    RunRefines codec key type calls := by
  have hinit : Holds codec type init [] := by
    have hnil : (recovered type [] : List ρ) = [] := by cases type <;> rfl
    exact hnil ▸ holds_init
  obtain ⟨s, L, hrun, happlied, hholds⟩ := hinit.run hsafe
  exact ⟨s, L, hrun, happlied, hholds.readers⟩

end

/-! ### Runs -/

def plainNodeInfoCodec : RecordCodec NodeInfoFileRecord :=
  nodeInfoCodec Transaction.ObjectStream.plain Transaction.ObjectStream.plain_lawful

def plainComponentInfoCodec :
    RecordCodec { r : ComponentInfoRecord // Transaction.FitsInt r.servicePort } :=
  componentInfoCodec Transaction.ObjectStream.plain Transaction.ObjectStream.plain_lawful

def nodeRecord (nodeId : String) : NodeInfoFileRecord :=
  ⟨nodeId, "10.0.0.1", 60123, 61006, 61007, 61008, 61009, 61005, 0⟩

def objectRecord (serviceId : String) :
    { r : ComponentInfoRecord // Transaction.FitsInt r.servicePort } :=
  ⟨⟨serviceId, "10.0.0.1", 61008⟩, (by decide : Transaction.FitsInt 61008)⟩

/-- An update that a crash interrupts before its first record is copied, and a deletion after it. -/
theorem info_file_refines_interrupted :
    RunRefines plainNodeInfoCodec (·.nodeId) .node
        [(.addRecord [nodeRecord "a", nodeRecord "b"], none),
          (.updateRecord "a" (·.setNodeStatus 1), some 1), (.deleteRecord "b", none)] ∧
      RunRefines plainComponentInfoCodec (·.val.serviceId) .object
        [(.addRecord [objectRecord "a"], none), (.deleteRecord "a", some 1),
          (.addRecord [objectRecord "b"], none), (.deleteRecord "a", none)] :=
  ⟨info_file_refines (by decide +kernel), info_file_refines (by decide +kernel)⟩

/-- A handler that deletes the last record and then updates another one: `readbuff` still holds the
deleted record, and the update copies it. -/
def deleteThenUpdate : List (InfoCall NodeInfoFileRecord × Option Nat) :=
  [(.addRecord [nodeRecord "a", nodeRecord "b"], none), (.deleteRecord "b", none),
    (.updateRecord "a" (·.setNodeStatus 1), none)]

theorem update_restores_deleted_record : ∃ L,
    (Library.run (InfoFile.step plainNodeInfoCodec (·.nodeId) .node) init deleteThenUpdate).bind
        (recoverRecord plainNodeInfoCodec .node) = some L ∧
      ¬ Applied (·.nodeId) .node deleteThenUpdate [] L :=
  ⟨[(nodeRecord "a").setNodeStatus 1, nodeRecord "b"], by decide +kernel, by decide +kernel⟩

end InfoFile

end ObjectStorage.Osm
