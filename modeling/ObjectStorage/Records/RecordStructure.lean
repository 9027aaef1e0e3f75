import ObjectStorage.Library.Codec
import ObjectStorage.Osm.InfoRecords

/-!
All record types of the journals and info files: `xserialize` of each, one description for both
directions as in the source, the type switch of `deserialize_record`, and the two framings of
`Serializor`. A float is known by its bits.
-/

namespace ObjectStorage.Records

open Journal Library Transaction

/-- `cool::ObjectIoStream` for all types that the records have. -/
structure ObjectStream extends Transaction.ObjectStream where
  uint32 : Codec UInt32
  uint64 : Codec UInt64
  float : Codec UInt32
  journalOffset : Codec (UInt64 × Int64)
  stringVector : Codec (List String)
  int32List : Codec (List Int32)
  stringMap : Codec (List (String × String))

structure ObjectStream.Lawful (stream : ObjectStream) : Prop where
  base : stream.toObjectStream.Lawful
  uint32 : stream.uint32.Lawful
  uint64 : stream.uint64.Lawful
  float : stream.float.Lawful
  journalOffset : stream.journalOffset.Lawful
  stringVector : stream.stringVector.Lawful
  int32List : stream.int32List.Lawful
  stringMap : stream.stringMap.Lawful

namespace ObjectStream

variable (stream : ObjectStream)

def string : Codec String := ⟨stream.putString, stream.getString⟩

def int32 : Codec Int32 := ⟨Osm.putInt32 stream.toObjectStream, Osm.getInt32 stream.toObjectStream⟩

def int64 : Codec Int64 where
  put n := stream.putInt64 n.toInt
  get bs := (stream.getInt64 bs).map fun (n, rest) => (Int64.ofInt n, rest)

/-- The port of a service, for which other modules have an integer. -/
def port : Codec { n : Int // FitsInt n } where
  put n := stream.putInt n.val
  get bs := (stream.getInt bs).bind fun (n, rest) =>
    if h : FitsInt n then some (⟨n, h⟩, rest) else none

end ObjectStream

/-! ### Records of the container journal -/

structure ContainerStartFlushMarker where
  path : String
  reserved : UInt32
  version : UInt32
deriving DecidableEq

def ContainerStartFlushMarker.xserialize (s : ObjectStream) : Codec ContainerStartFlushMarker :=
  (s.string.seq (s.uint32.seq s.uint32)).imap
    (fun (path, reserved, version) => ⟨path, reserved, version⟩)
    fun r => (r.path, r.reserved, r.version)

structure ContainerEndFlushMarker where
  path : String
  lastCommitOffset : UInt64 × Int64
deriving DecidableEq

def ContainerEndFlushMarker.xserialize (s : ObjectStream) : Codec ContainerEndFlushMarker :=
  (s.string.seq s.journalOffset).imap (fun (path, offset) => ⟨path, offset⟩)
    fun r => (r.path, r.lastCommitOffset)

/-- `row_id` does not go into a journal. -/
structure ObjectRecord where
  name : String
  deleted : UInt64
  createdAt : String
  size : UInt64
  contentType : String
  etag : String
  oldSize : UInt64
deriving DecidableEq

def ObjectRecord.xserialize (s : ObjectStream) : Codec ObjectRecord :=
  (s.string.seq (s.uint64.seq (s.string.seq (s.uint64.seq (s.string.seq
    (s.string.seq s.uint64)))))).imap
    (fun (name, deleted, createdAt, size, contentType, etag, oldSize) =>
      ⟨name, deleted, createdAt, size, contentType, etag, oldSize⟩)
    fun r => (r.name, r.deleted, r.createdAt, r.size, r.contentType, r.etag, r.oldSize)

structure FinalObjectRecord where
  path : String
  objRecord : ObjectRecord
deriving DecidableEq

def FinalObjectRecord.xserialize (s : ObjectStream) : Codec FinalObjectRecord :=
  (s.string.seq (ObjectRecord.xserialize s)).imap (fun (path, record) => ⟨path, record⟩)
    fun r => (r.path, r.objRecord)

structure ContainerStat where
  account : String
  container : String
  createdAt : String
  putTimestamp : String
  deleteTimestamp : String
  objectCount : Int64
  bytesUsed : Int64
  hash : String
  id : String
  status : String
  statusChangedAt : String
  metadata : List (String × String)
deriving DecidableEq

def ContainerStat.xserialize (s : ObjectStream) : Codec ContainerStat :=
  (s.string.seq (s.string.seq (s.string.seq (s.string.seq (s.string.seq (s.int64.seq
    (s.int64.seq (s.string.seq (s.string.seq (s.string.seq (s.string.seq
      s.stringMap))))))))))).imap
    (fun (account, container, createdAt, putTimestamp, deleteTimestamp, objectCount, bytesUsed,
        hash, id, status, statusChangedAt, metadata) =>
      ⟨account, container, createdAt, putTimestamp, deleteTimestamp, objectCount, bytesUsed, hash,
        id, status, statusChangedAt, metadata⟩)
    fun r => (r.account, r.container, r.createdAt, r.putTimestamp, r.deleteTimestamp,
      r.objectCount, r.bytesUsed, r.hash, r.id, r.status, r.statusChangedAt, r.metadata)

/-! ### Records of the cluster -/

structure RingRecord where
  fsList : List String
  accountLevelDirList : List String
  containerLevelDirList : List String
  objectLevelDirList : List String
deriving DecidableEq

def RingRecord.xserialize (s : ObjectStream) : Codec RingRecord :=
  (s.stringVector.seq (s.stringVector.seq (s.stringVector.seq s.stringVector))).imap
    (fun (fs, account, container, object) => ⟨fs, account, container, object⟩)
    fun r => (r.fsList, r.accountLevelDirList, r.containerLevelDirList, r.objectLevelDirList)

abbrev ComponentInfoRecord := { r : Osm.ComponentInfoRecord // FitsInt r.servicePort }

def ComponentInfoRecord.xserialize (s : ObjectStream) : Codec ComponentInfoRecord :=
  (s.string.seq (s.string.seq s.port)).imap
    (fun (id, ip, port) => ⟨⟨id, ip, port.val⟩, port.property⟩)
    fun r => (r.val.serviceId, r.val.serviceIp, ⟨r.val.servicePort, r.property⟩)

/-- `total_comp_count` is the size of the list as an `int32_t`. -/
structure CompleteComponentRecord where
  compObjList : List ComponentInfoRecord
  serviceVersion : UInt32
  versionInStr : String
deriving DecidableEq

def CompleteComponentRecord.xserialize (s : ObjectStream) : Codec CompleteComponentRecord :=
  ((Codec.counted s.int32 (ComponentInfoRecord.xserialize s)).seq (s.float.seq s.string)).imap
    (fun (list, version, text) => ⟨list, version, text⟩)
    fun r => (r.compObjList, r.serviceVersion, r.versionInStr)

structure ServiceComponentCouple where
  component : Int32
  compInfoObj : ComponentInfoRecord
deriving DecidableEq

def ServiceComponentCouple.xserialize (s : ObjectStream) : Codec ServiceComponentCouple :=
  (s.int32.seq (ComponentInfoRecord.xserialize s)).imap (fun (component, info) => ⟨component, info⟩)
    fun r => (r.component, r.compInfoObj)

/-- `comp_count` is the size of the list as an `int32_t`. -/
structure TransientMapRecord where
  servCompList : List ServiceComponentCouple
  versionInStr : String
  serviceType : Int32
deriving DecidableEq

def TransientMapRecord.xserialize (s : ObjectStream) : Codec TransientMapRecord :=
  ((Codec.counted s.int32 (ServiceComponentCouple.xserialize s)).seq (s.string.seq s.int32)).imap
    (fun (list, text, type) => ⟨list, text, type⟩)
    fun r => (r.servCompList, r.versionInStr, r.serviceType)

structure ElectionRecord where
  nodeId : String
  connectionCount : Int32
deriving DecidableEq

def ElectionRecord.xserialize (s : ObjectStream) : Codec ElectionRecord :=
  (s.string.seq s.int32).imap (fun (nodeId, count) => ⟨nodeId, count⟩)
    fun r => (r.nodeId, r.connectionCount)

structure GLMountInfoRecord where
  failedNode : String
  destinationNode : String
deriving DecidableEq

def GLMountInfoRecord.xserialize (s : ObjectStream) : Codec GLMountInfoRecord :=
  (s.string.seq s.string).imap (fun (failed, destination) => ⟨failed, destination⟩)
    fun r => (r.failedNode, r.destinationNode)

/-! ### The type switch -/

/-- The types that `deserialize_record` knows, with numbers in the ranges of their types. -/
inductive Record where
  | transaction (record : { r : Transaction.Record // r.FitsTypes })
  | containerStat (record : ContainerStat)
  | finalObject (record : FinalObjectRecord)
  | object (record : ObjectRecord)
  | snapshotHeader (lastCommitOffset : UInt64 × Int64)
  | checkpointHeader (lastCommitOffset : UInt64 × Int64)
  | containerStartFlush (record : ContainerStartFlushMarker)
  | containerEndFlush (record : ContainerEndFlushMarker)
  | nodeInfoFile (record : Osm.NodeInfoFileRecord)
  | ring (record : RingRecord)
  | componentInfo (record : ComponentInfoRecord)
  | completeComponent (record : CompleteComponentRecord)
  | transientMap (record : TransientMapRecord)
  | glMountInfo (record : GLMountInfoRecord)
  | election (record : ElectionRecord)
  | acceptComponents (compList : List Int32)
deriving DecidableEq

def SNAPSHOT_CONTAINER_JOURNAL : Int := 1
def CHECKPOINT_CONTAINER_JOURNAL : Int := 2
def CONTAINER_START_FLUSH : Int := 3
def CONTAINER_END_FLUSH : Int := 4
def ACCEPT_COMPONENTS_MARKER : Int := 5
def CONTAINER_STAT : Int := 15
def OBJECT_RECORD : Int := 16
def FINAL_OBJECT_RECORD : Int := 21
def RING_RECORD : Int := 23
def TRANSIENT_MAP : Int := 34
def COMPLETE_COMPONENT_RECORD : Int := 35
def ELECTION_RECORD : Int := 36
def GL_MOUNT_INFO_RECORD : Int := 37

/-- `serialize_record`. -/
def serializeRecord (s : ObjectStream) : Record → Bytes
  | .transaction r => r.val.encode s.toObjectStream
  | .containerStat r => s.putInt CONTAINER_STAT ++ (ContainerStat.xserialize s).put r
  | .finalObject r => s.putInt FINAL_OBJECT_RECORD ++ (FinalObjectRecord.xserialize s).put r
  | .object r => s.putInt OBJECT_RECORD ++ (ObjectRecord.xserialize s).put r
  | .snapshotHeader offset => s.putInt SNAPSHOT_CONTAINER_JOURNAL ++ s.journalOffset.put offset
  | .checkpointHeader offset => s.putInt CHECKPOINT_CONTAINER_JOURNAL ++ s.journalOffset.put offset
  | .containerStartFlush r =>
      s.putInt CONTAINER_START_FLUSH ++ (ContainerStartFlushMarker.xserialize s).put r
  | .containerEndFlush r =>
      s.putInt CONTAINER_END_FLUSH ++ (ContainerEndFlushMarker.xserialize s).put r
  | .nodeInfoFile r => r.encode s.toObjectStream
  | .ring r => s.putInt RING_RECORD ++ (RingRecord.xserialize s).put r
  | .componentInfo r => r.val.encode s.toObjectStream
  | .completeComponent r =>
      s.putInt COMPLETE_COMPONENT_RECORD ++ (CompleteComponentRecord.xserialize s).put r
  | .transientMap r => s.putInt TRANSIENT_MAP ++ (TransientMapRecord.xserialize s).put r
  | .glMountInfo r => s.putInt GL_MOUNT_INFO_RECORD ++ (GLMountInfoRecord.xserialize s).put r
  | .election r => s.putInt ELECTION_RECORD ++ (ElectionRecord.xserialize s).put r
  | .acceptComponents list => s.putInt ACCEPT_COMPONENTS_MARKER ++ s.int32List.put list

/-- The default constructor of an open record leaves the time as it finds it. -/
def leaveTime (unset : { n : Int // FitsInt64 n }) : Transaction.Record → Transaction.Record
  | .openRecord active => .openRecord { active with time := unset.val }
  | record => record

/-- The types of the transaction journal. -/
def readTransaction (s : ObjectStream) (unset : { n : Int // FitsInt64 n }) (buffer : Bytes) :
    Option Record :=
  (Transaction.Record.decode s.toObjectStream buffer).bind fun record =>
    let record := if buffer.length < 174 then leaveTime unset record else record
    if h : record.FitsTypes then some (.transaction ⟨record, h⟩) else none

/-- The other types, behind the type. -/
def readBody (s : ObjectStream) (type : Int) (rest : Bytes) : Option Record :=
  if type = CONTAINER_STAT then ((ContainerStat.xserialize s).get rest).map (.containerStat ·.1)
  else if type = FINAL_OBJECT_RECORD then
    ((FinalObjectRecord.xserialize s).get rest).map (.finalObject ·.1)
  else if type = OBJECT_RECORD then ((ObjectRecord.xserialize s).get rest).map (.object ·.1)
  else if type = SNAPSHOT_CONTAINER_JOURNAL then
    (s.journalOffset.get rest).map (.snapshotHeader ·.1)
  else if type = CHECKPOINT_CONTAINER_JOURNAL then
    (s.journalOffset.get rest).map (.checkpointHeader ·.1)
  else if type = CONTAINER_START_FLUSH then
    ((ContainerStartFlushMarker.xserialize s).get rest).map (.containerStartFlush ·.1)
  else if type = CONTAINER_END_FLUSH then
    ((ContainerEndFlushMarker.xserialize s).get rest).map (.containerEndFlush ·.1)
  else if type = RING_RECORD then ((RingRecord.xserialize s).get rest).map (.ring ·.1)
  else if type = COMPLETE_COMPONENT_RECORD then
    ((CompleteComponentRecord.xserialize s).get rest).map (.completeComponent ·.1)
  else if type = TRANSIENT_MAP then
    ((TransientMapRecord.xserialize s).get rest).map (.transientMap ·.1)
  else if type = GL_MOUNT_INFO_RECORD then
    ((GLMountInfoRecord.xserialize s).get rest).map (.glMountInfo ·.1)
  else if type = ELECTION_RECORD then ((ElectionRecord.xserialize s).get rest).map (.election ·.1)
  else if type = ACCEPT_COMPONENTS_MARKER then (s.int32List.get rest).map (.acceptComponents ·.1)
  else none

/-- `deserialize_record`. -/
def deserializeRecord (s : ObjectStream) (unset : { n : Int // FitsInt64 n }) (buffer : Bytes) :
    Option Record :=
  (s.getInt buffer).bind fun (type, rest) =>
    if type = Transaction.Record.OPEN_RECORD ∨ type = Transaction.Record.CLOSE_RECORD ∨
        type = Transaction.Record.SNAPSHOT_HEADER_RECORD ∨
        type = Transaction.Record.CHECKPOINT_RECORD then
      readTransaction s unset buffer
    else if type = Osm.nodeInfoFileRecordType then
      (Osm.NodeInfoFileRecord.decode s.toObjectStream buffer).map .nodeInfoFile
    else if type = Osm.componentInfoRecordType then
      (Osm.ComponentInfoRecord.decode s.toObjectStream buffer).map .componentInfo
    else readBody s type rest

/-! ### Framing -/

/-- `get_serialized_size` of the serializor. -/
def getSerializedSize (s : ObjectStream) (r : Record) : Nat := frameSize (serializeRecord s r)

def serialize (s : ObjectStream) (r : Record) : Bytes := frame (serializeRecord s r)

def deserialize (s : ObjectStream) (unset : { n : Int // FitsInt64 n }) (buff : Bytes)
    (size : Int) : Option Record :=
  (payload? buff size.toNat).bind (deserializeRecord s unset)

def getOsmInfoFileSerializedSize (s : ObjectStream) (r : Record) : Nat :=
  (serializeRecord s r).length + Osm.startSize

def osmInfoFileSerialize (s : ObjectStream) (r : Record) : Bytes :=
  leBytes Osm.startSize (getOsmInfoFileSerializedSize s r) ++ serializeRecord s r

def getOsmInfoFileRecordSize (buff : Bytes) : Int := asInt64 (leValue (buff.take Osm.startSize))

def osmInfoFileDeserialize (s : ObjectStream) (unset : { n : Int // FitsInt64 n }) (buff : Bytes)
    (size : Int) : Option Record :=
  deserializeRecord s unset ((buff.take size.toNat).drop Osm.startSize)

/-! ### What is read back -/

/-- The sizes that are read are those announced, and both framings give the record back, whatever
an unset field holds. -/
structure RoundTrips (s : ObjectStream) (r : Record) : Prop where
  journal_size : recordSize (serialize s r) = getSerializedSize s r
  journal : ∀ unset, deserialize s unset (serialize s r) (recordSize (serialize s r)) = some r
  infoFile_size : getOsmInfoFileRecordSize (osmInfoFileSerialize s r) =
    getOsmInfoFileSerializedSize s r
  infoFile : ∀ unset, osmInfoFileDeserialize s unset (osmInfoFileSerialize s r)
    (getOsmInfoFileRecordSize (osmInfoFileSerialize s r)) = some r

/-- An open record is not taken for one of the old layout, and the lists of maps can be counted by
an `int32_t`. -/
def Survives (s : ObjectStream) : Record → Prop
  | .transaction ⟨.openRecord active, _⟩ =>
      174 ≤ (Transaction.Record.encode s.toObjectStream (.openRecord active)).length
  | .completeComponent r => r.compObjList.length < 2 ^ 31
  | .transientMap r => r.servCompList.length < 2 ^ 31
  | _ => True

end ObjectStorage.Records
