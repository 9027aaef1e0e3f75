import ObjectStorage.Osm.ComponentMap
import ObjectStorage.Transaction.RecordCodec

/-!
The records of the node and component info files: eight bytes with the size, then the record. A
handler loads one chunk of the file into a zeroed buffer and takes records from it until the size is
not positive.
-/

namespace ObjectStorage.Osm

open Journal Transaction

/-- `MAX_READ_CHUNK_SIZE`. -/
def maxReadChunkSize : Nat := 65536

/-- `START_SIZE`. -/
def startSize : Nat := 8

/-- `serialize_record` and `deserialize_record` for one type of records. -/
structure RecordCodec (ρ : Type) where
  serialize : ρ → Bytes
  deserialize : Bytes → Option ρ
  deserialize_serialize : ∀ r, deserialize (serialize r) = some r

namespace RecordCodec

variable {ρ : Type} (codec : RecordCodec ρ)

/-- `get_osm_info_file_serialized_size`. -/
def serializedSize (r : ρ) : Nat := (codec.serialize r).length + startSize

/-- `osm_info_file_serialize`. -/
def frame (r : ρ) : Bytes := leBytes startSize (codec.serializedSize r) ++ codec.serialize r

def frames (rs : List ρ) : Bytes := rs.flatMap codec.frame

/-- Bytes of a buffer that is zero past the ones given. -/
def window (n : Nat) (buffer : Bytes) : Bytes :=
  buffer.take n ++ List.replicate (n - buffer.length) 0

/-- What stands at the read pointer. -/
inductive NextRecord (ρ : Type) where
  | last
  | invalid
  | record (r : ρ) (size : Nat)

/-- `get_osm_info_file_record_size` and `osm_info_file_deserialize` with `room` bytes left in the
buffer; nothing is known of what lies behind it. -/
def getNextRecord (room : Nat) (buffer : Bytes) : Option (NextRecord ρ) :=
  if room < startSize then none
  else
    let size := asInt64 (leValue (window startSize buffer))
    if size ≤ 0 then some .last
    else if size < startSize ∨ room < size then none
    else
      match codec.deserialize (window (size.toNat - startSize) (buffer.drop startSize)) with
      | none => some .invalid
      | some r => some (.record r size.toNat)

/-- The records of a buffer, and whether an invalid one ended them. -/
def scan : Nat → Nat → Bytes → Option (List ρ × Bool)
  | 0, _, _ => none
  | fuel + 1, room, buffer =>
      match codec.getNextRecord room buffer with
      | none => none
      | some .last => some ([], false)
      | some .invalid => some ([], true)
      | some (.record r size) =>
          (scan fuel (room - size) (buffer.drop size)).map fun (rs, invalid) => (r :: rs, invalid)

/-- One read into a buffer that keeps what the read does not reach. -/
def loadChunk (buffer file : Bytes) : Bytes :=
  file.take maxReadChunkSize ++ buffer.drop file.length

def scanChunk (buffer : Bytes) : Option (List ρ × Bool) :=
  codec.scan (maxReadChunkSize / startSize + 1) maxReadChunkSize buffer

variable {codec} {r : ρ} {rs : List ρ} {n m : Nat} {bs rest : Bytes}

@[simp] theorem length_frame (r : ρ) : (codec.frame r).length = codec.serializedSize r := by
  simp [frame, serializedSize, Nat.add_comm]

@[simp] theorem frames_nil : codec.frames [] = [] := rfl

@[simp] theorem frames_cons (r : ρ) (rs : List ρ) :
    codec.frames (r :: rs) = codec.frame r ++ codec.frames rs := rfl

@[simp] theorem frames_append (rs rs' : List ρ) :
    codec.frames (rs ++ rs') = codec.frames rs ++ codec.frames rs' :=
  List.flatMap_append

theorem startSize_le_serializedSize (codec : RecordCodec ρ) (r : ρ) :
    startSize ≤ codec.serializedSize r :=
  Nat.le_add_left _ _

theorem window_append (h : bs.length = n) : window n (bs ++ rest) = bs := by
  have hzero : n - (bs ++ rest).length = 0 := by
    rw [List.length_append]
    omega
  rw [window, hzero, List.take_left' h, List.replicate_zero, List.append_nil]

theorem length_mul_le (codec : RecordCodec ρ) (rs : List ρ) :
    rs.length * startSize ≤ (codec.frames rs).length := by
  induction rs with
  | nil => simp
  | cons r rs ih =>
      have hr := codec.startSize_le_serializedSize r
      rw [frames_cons, List.length_append, length_frame, List.length_cons, Nat.succ_mul]
      omega

theorem size_frame (h : codec.serializedSize r < 2 ^ 63) :
    asInt64 (leValue (window startSize (codec.frame r ++ rest))) = codec.serializedSize r := by
  have hsize : codec.serializedSize r < 256 ^ startSize :=
    Nat.lt_of_lt_of_le h (by decide)
  rw [frame, List.append_assoc, window_append (length_leBytes _ _), leValue_leBytes,
    Nat.mod_eq_of_lt hsize, asInt64, if_pos h]

theorem getNextRecord_frame (hroom : codec.serializedSize r ≤ m) (hsize : m < 2 ^ 63) :
    codec.getNextRecord m (codec.frame r ++ rest) =
      some (.record r (codec.serializedSize r)) := by
  have hstart := codec.startSize_le_serializedSize r
  have hpos : 0 < startSize := by decide
  have hvalue : asInt64 (leValue (window startSize (codec.frame r ++ rest))) =
      codec.serializedSize r := size_frame (Nat.lt_of_le_of_lt hroom hsize)
  have hbody : window (codec.serializedSize r - startSize)
      ((codec.frame r ++ rest).drop startSize) = codec.serialize r := by
    rw [frame, List.append_assoc, List.drop_left' (length_leBytes _ _)]
    exact window_append (by simp [serializedSize])
  rw [getNextRecord, if_neg (by omega)]
  simp only [hvalue]
  rw [if_neg (by omega), if_neg (by omega), Int.toNat_natCast, hbody,
    codec.deserialize_serialize]

theorem getNextRecord_nil (hroom : startSize ≤ m) : codec.getNextRecord m [] = some .last := by
  have hzero : asInt64 (leValue (window startSize [])) = 0 := by decide
  rw [getNextRecord, if_neg (by omega)]
  simp only [hzero]
  rw [if_pos (Int.le_refl 0)]

/-- The records of a file are found again if eight bytes are left behind them. -/
theorem scan_frames (hfuel : rs.length < n) (hroom : (codec.frames rs).length + startSize ≤ m)
    (hsize : m < 2 ^ 63) : codec.scan n m (codec.frames rs) = some (rs, false) := by
  induction rs generalizing n m with
  | nil =>
      cases n with
      | zero => simp at hfuel
      | succ n =>
          rw [frames_nil] at hroom ⊢
          simp only [scan]
          rw [getNextRecord_nil (by simpa using hroom)]
  | cons r rs ih =>
      cases n with
      | zero => simp at hfuel
      | succ n =>
          rw [frames_cons, List.length_append, length_frame] at hroom
          rw [List.length_cons] at hfuel
          simp only [scan]
          rw [frames_cons, getNextRecord_frame (by omega) hsize]
          simp only
          rw [List.drop_left' (length_frame r),
            ih (n := n) (by omega) (m := m - codec.serializedSize r) (by omega) (by omega),
            Option.map_some]

theorem scanChunk_frames (hfits : (codec.frames rs).length + startSize ≤ maxReadChunkSize) :
    codec.scanChunk (codec.frames rs) = some (rs, false) := by
  have hcount := codec.length_mul_le rs
  have hdiv : rs.length < maxReadChunkSize / startSize + 1 := by
    simp only [startSize, maxReadChunkSize] at *
    omega
  exact scan_frames hdiv hfits (by decide)

/-- A buffer that holds nothing past the end of the file shows the file. -/
theorem loadChunk_eq {buffer file : Bytes} (hbuffer : buffer.length ≤ file.length)
    (hfile : file.length ≤ maxReadChunkSize) : loadChunk buffer file = file := by
  rw [loadChunk, List.take_of_length_le hfile, List.drop_eq_nil_of_le hbuffer, List.append_nil]

end RecordCodec

/-! ### The records -/

/-- `NODE_INFO_FILE_RECORD` and `COMPONENT_INFO_RECORD`. -/
def nodeInfoFileRecordType : Int := 22

def componentInfoRecordType : Int := 24

structure NodeInfoFileRecord where
  nodeId : String
  nodeIp : String
  localLeaderPort : Int32
  accountServicePort : Int32
  containerServicePort : Int32
  objectServicePort : Int32
  accountUpdaterServicePort : Int32
  proxyPort : Int32
  nodeStatus : Int32
deriving DecidableEq

def NodeInfoFileRecord.setNodeStatus (r : NodeInfoFileRecord) (nodeStatus : Int32) :
    NodeInfoFileRecord :=
  { r with nodeStatus := nodeStatus }

def putInt32 (stream : ObjectStream) (n : Int32) : Bytes := stream.putInt n.toInt

def getInt32 (stream : ObjectStream) (bs : Bytes) : Option (Int32 × Bytes) :=
  (stream.getInt bs).map fun (n, rest) => (Int32.ofInt n, rest)

def NodeInfoFileRecord.encode (stream : ObjectStream) (r : NodeInfoFileRecord) : Bytes :=
  stream.putInt nodeInfoFileRecordType ++ (stream.putString r.nodeId ++
    (stream.putString r.nodeIp ++ (putInt32 stream r.localLeaderPort ++
      (putInt32 stream r.accountServicePort ++ (putInt32 stream r.containerServicePort ++
        (putInt32 stream r.objectServicePort ++ (putInt32 stream r.accountUpdaterServicePort ++
          (putInt32 stream r.proxyPort ++ putInt32 stream r.nodeStatus))))))))

def NodeInfoFileRecord.decode (stream : ObjectStream) (buffer : Bytes) :
    Option NodeInfoFileRecord := do
  let (type, rest) ← stream.getInt buffer
  if type = nodeInfoFileRecordType then
    let (nodeId, rest) ← stream.getString rest
    let (nodeIp, rest) ← stream.getString rest
    let (localLeaderPort, rest) ← getInt32 stream rest
    let (accountServicePort, rest) ← getInt32 stream rest
    let (containerServicePort, rest) ← getInt32 stream rest
    let (objectServicePort, rest) ← getInt32 stream rest
    let (accountUpdaterServicePort, rest) ← getInt32 stream rest
    let (proxyPort, rest) ← getInt32 stream rest
    let (nodeStatus, _) ← getInt32 stream rest
    return ⟨nodeId, nodeIp, localLeaderPort, accountServicePort, containerServicePort,
      objectServicePort, accountUpdaterServicePort, proxyPort, nodeStatus⟩
  else none

theorem fitsInt_toInt (n : Int32) : FitsInt n.toInt := by
  have hlow := Int32.minValue_le_toInt n
  have hhigh := Int32.toInt_le n
  have hmin : Int32.minValue.toInt = -2 ^ 31 := by decide
  have hmax : Int32.maxValue.toInt = 2 ^ 31 - 1 := by decide
  exact ⟨by omega, by omega⟩

theorem getInt32_putInt32 {stream : ObjectStream} (hlawful : stream.Lawful) (n : Int32)
    (rest : Bytes) : getInt32 stream (putInt32 stream n ++ rest) = some (n, rest) := by
  rw [getInt32, putInt32, hlawful.int _ _ (fitsInt_toInt n)]
  simp

theorem getInt32_last {stream : ObjectStream} (hlawful : stream.Lawful) (n : Int32) :
    getInt32 stream (putInt32 stream n) = some (n, []) := by
  simpa using getInt32_putInt32 hlawful n []

def nodeInfoCodec (stream : ObjectStream) (hlawful : stream.Lawful) :
    RecordCodec NodeInfoFileRecord where
  serialize := NodeInfoFileRecord.encode stream
  deserialize := NodeInfoFileRecord.decode stream
  deserialize_serialize r := by
    have htype : FitsInt nodeInfoFileRecordType := by decide
    simp only [NodeInfoFileRecord.decode, NodeInfoFileRecord.encode, hlawful.int _ _ htype,
      hlawful.string, getInt32_putInt32 hlawful, getInt32_last hlawful, Option.bind_eq_bind,
      Option.bind_some, if_true]
    rfl

def ComponentInfoRecord.encode (stream : ObjectStream) (r : ComponentInfoRecord) : Bytes :=
  stream.putInt componentInfoRecordType ++ (stream.putString r.serviceId ++
    (stream.putString r.serviceIp ++ stream.putInt r.servicePort))

def ComponentInfoRecord.decode (stream : ObjectStream) (buffer : Bytes) :
    Option { r : ComponentInfoRecord // FitsInt r.servicePort } := do
  let (type, rest) ← stream.getInt buffer
  if type = componentInfoRecordType then
    let (serviceId, rest) ← stream.getString rest
    let (serviceIp, rest) ← stream.getString rest
    let (servicePort, _) ← stream.getInt rest
    if h : FitsInt servicePort then return ⟨⟨serviceId, serviceIp, servicePort⟩, h⟩ else none
  else none

def componentInfoCodec (stream : ObjectStream) (hlawful : stream.Lawful) :
    RecordCodec { r : ComponentInfoRecord // FitsInt r.servicePort } where
  serialize r := r.val.encode stream
  deserialize := ComponentInfoRecord.decode stream
  deserialize_serialize r := by
    have htype : FitsInt componentInfoRecordType := by decide
    have hport : stream.getInt (stream.putInt r.val.servicePort) =
        some (r.val.servicePort, []) := by
      simpa using hlawful.int _ [] r.property
    simp only [ComponentInfoRecord.decode, ComponentInfoRecord.encode, hlawful.int _ _ htype,
      hlawful.string, hport, Option.bind_eq_bind, Option.bind_some, if_true, dif_pos r.property]
    rfl

end ObjectStorage.Osm
