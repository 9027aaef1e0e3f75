import ObjectStorage.Records.RecordStructure

/-!
Which records come back from their bytes: all but open records that are taken for old ones and maps
that are too long for their count.
-/

namespace ObjectStorage.Records

open Journal Library Transaction

variable {s : ObjectStream}

/-! ### Fields -/

namespace ObjectStream.Lawful

theorem string (h : s.Lawful) : s.string.Lawful := h.base.string

theorem int32 (h : s.Lawful) : s.int32.Lawful := Osm.getInt32_putInt32 h.base

theorem int64 (h : s.Lawful) : s.int64.Lawful := by
  intro n rest
  have hfits : FitsInt64 n.toInt := by
    have hlow := Int64.minValue_le_toInt n
    have hhigh := Int64.toInt_le n
    have hmin : Int64.minValue.toInt = -2 ^ 63 := by decide
    have hmax : Int64.maxValue.toInt = 2 ^ 63 - 1 := by decide
    exact ⟨by omega, by omega⟩
  simp only [ObjectStream.int64]
  rw [h.base.int64 _ _ hfits]
  simp

theorem port (h : s.Lawful) : s.port.Lawful := by
  intro n rest
  simp only [ObjectStream.port]
  rw [h.base.int _ _ n.property, Option.bind_some, dif_pos n.property]

end ObjectStream.Lawful

/-! ### Records -/

section

variable (h : s.Lawful)

include h

theorem containerStartFlushMarker_lawful : (ContainerStartFlushMarker.xserialize s).Lawful :=
  (h.string.seq (h.uint32.seq h.uint32)).imap fun _ => rfl

theorem containerEndFlushMarker_lawful : (ContainerEndFlushMarker.xserialize s).Lawful :=
  (h.string.seq h.journalOffset).imap fun _ => rfl

theorem objectRecord_lawful : (ObjectRecord.xserialize s).Lawful :=
  (h.string.seq (h.uint64.seq (h.string.seq (h.uint64.seq (h.string.seq
    (h.string.seq h.uint64)))))).imap fun _ => rfl

theorem finalObjectRecord_lawful : (FinalObjectRecord.xserialize s).Lawful :=
  (h.string.seq (objectRecord_lawful h)).imap fun _ => rfl

theorem containerStat_lawful : (ContainerStat.xserialize s).Lawful :=
  (h.string.seq (h.string.seq (h.string.seq (h.string.seq (h.string.seq (h.int64.seq
    (h.int64.seq (h.string.seq (h.string.seq (h.string.seq (h.string.seq
      h.stringMap))))))))))).imap fun _ => rfl

theorem ringRecord_lawful : (RingRecord.xserialize s).Lawful :=
  (h.stringVector.seq (h.stringVector.seq (h.stringVector.seq h.stringVector))).imap fun _ => rfl

theorem componentInfoRecord_lawful : (ComponentInfoRecord.xserialize s).Lawful :=
  (h.string.seq (h.string.seq h.port)).imap fun _ => rfl

theorem serviceComponentCouple_lawful : (ServiceComponentCouple.xserialize s).Lawful :=
  (h.int32.seq (componentInfoRecord_lawful h)).imap fun _ => rfl

theorem electionRecord_lawful : (ElectionRecord.xserialize s).Lawful :=
  (h.string.seq h.int32).imap fun _ => rfl

theorem glMountInfoRecord_lawful : (GLMountInfoRecord.xserialize s).Lawful :=
  (h.string.seq h.string).imap fun _ => rfl

theorem completeComponentRecord_roundTrips {r : CompleteComponentRecord}
    (hlength : r.compObjList.length < 2 ^ 31) :
    (CompleteComponentRecord.xserialize s).RoundTrips r := by
  have hlist : (Codec.counted s.int32 (ComponentInfoRecord.xserialize s)).RoundTrips
      r.compObjList :=
    Codec.counted_roundTrips h.int32 (fun a _ => componentInfoRecord_lawful h a) hlength
  have hrest := (h.float.seq h.string) (r.serviceVersion, r.versionInStr)
  exact Codec.RoundTrips.imap (b := r) (hlist.seq hrest) rfl

theorem transientMapRecord_roundTrips {r : TransientMapRecord}
    (hlength : r.servCompList.length < 2 ^ 31) :
    (TransientMapRecord.xserialize s).RoundTrips r := by
  have hlist : (Codec.counted s.int32 (ServiceComponentCouple.xserialize s)).RoundTrips
      r.servCompList :=
    Codec.counted_roundTrips h.int32 (fun a _ => serviceComponentCouple_lawful h a) hlength
  have hrest := (h.string.seq h.int32) (r.versionInStr, r.serviceType)
  exact Codec.RoundTrips.imap (b := r) (hlist.seq hrest) rfl

end

/-- A list that comes back with a map was counted. -/
theorem length_of_completeComponent_get {bs rest : Bytes} {r : CompleteComponentRecord}
    (h : (CompleteComponentRecord.xserialize s).get bs = some (r, rest)) :
    r.compObjList.length < 2 ^ 31 := by
  obtain ⟨x, hx, rfl⟩ := Codec.imap_get_eq_some h
  obtain ⟨⟨_, hlist⟩, _⟩ := Codec.seq_get_eq_some hx
  exact Codec.length_of_counted_get hlist

theorem length_of_transientMap_get {bs rest : Bytes} {r : TransientMapRecord}
    (h : (TransientMapRecord.xserialize s).get bs = some (r, rest)) :
    r.servCompList.length < 2 ^ 31 := by
  obtain ⟨x, hx, rfl⟩ := Codec.imap_get_eq_some h
  obtain ⟨⟨_, hlist⟩, _⟩ := Codec.seq_get_eq_some hx
  exact Codec.length_of_counted_get hlist

/-! ### The type switch -/

/-- Behind a type of the second half of the switch comes its body. -/
theorem deserializeRecord_body (h : s.Lawful) (unset : { n : Int // FitsInt64 n }) {type : Int}
    (hfits : FitsInt type) (body : Bytes)
    (hother : type ∉ [Transaction.Record.OPEN_RECORD, Transaction.Record.CLOSE_RECORD,
      Transaction.Record.SNAPSHOT_HEADER_RECORD, Transaction.Record.CHECKPOINT_RECORD,
      Osm.nodeInfoFileRecordType, Osm.componentInfoRecordType]) :
    deserializeRecord s unset (s.putInt type ++ body) = readBody s type body := by
  simp only [List.mem_cons, List.not_mem_nil, or_false, not_or] at hother
  obtain ⟨hopen, hclose, hsnapshot, hcheckpoint, hnode, hcomponent⟩ := hother
  unfold deserializeRecord
  rw [h.base.int _ _ hfits, Option.bind_some]
  simp only [hopen, hclose, hsnapshot, hcheckpoint, hnode, hcomponent, or_false, if_false]

theorem deserializeRecord_of_body (h : s.Lawful) {type : Int} (hfits : FitsInt type) {α : Type}
    {c : Codec α} {a : α} {make : α → Record}
    (hother : type ∉ [Transaction.Record.OPEN_RECORD, Transaction.Record.CLOSE_RECORD,
      Transaction.Record.SNAPSHOT_HEADER_RECORD, Transaction.Record.CHECKPOINT_RECORD,
      Osm.nodeInfoFileRecordType, Osm.componentInfoRecordType])
    (hread : ∀ rest, readBody s type rest = (c.get rest).map (make ·.1)) (hc : c.RoundTrips a)
    (unset : { n : Int // FitsInt64 n }) :
    deserializeRecord s unset (s.putInt type ++ c.put a) = some (make a) := by
  rw [deserializeRecord_body h unset hfits _ hother, hread, hc.get_put, Option.map_some]

theorem getInt_encode (h : s.Lawful) (r : Transaction.Record) : ∃ type rest,
    s.getInt (r.encode s.toObjectStream) = some (type, rest) ∧
    (type = Transaction.Record.OPEN_RECORD ∨ type = Transaction.Record.CLOSE_RECORD ∨
      type = Transaction.Record.SNAPSHOT_HEADER_RECORD ∨
      type = Transaction.Record.CHECKPOINT_RECORD) := by
  cases r with
  | openRecord active => exact ⟨_, _, h.base.int _ _ (by decide), .inl rfl⟩
  | closeRecord id name => exact ⟨_, _, h.base.int _ _ (by decide), .inr (.inl rfl)⟩
  | checkpointRecord last ids => exact ⟨_, _, h.base.int _ _ (by decide), .inr (.inr (.inr rfl))⟩
  | snapshotHeaderRecord last version =>
      exact ⟨_, _, h.base.int _ _ (by decide), .inr (.inr (.inl rfl))⟩

/-- What is read of a transaction record: the record, but for the time of a short open record. -/
theorem deserializeRecord_transaction (h : s.Lawful) (unset : { n : Int // FitsInt64 n })
    (r : { r : Transaction.Record // r.FitsTypes }) :
    deserializeRecord s unset (serializeRecord s (.transaction r)) =
      readTransaction s unset (r.val.encode s.toObjectStream) := by
  obtain ⟨type, rest, hget, htype⟩ := getInt_encode h r.val
  unfold deserializeRecord
  rw [serializeRecord, hget, Option.bind_some]
  exact if_pos htype

/-- A transaction record as it is read. -/
def asRead (s : ObjectStream) (unset : { n : Int // FitsInt64 n }) (r : Transaction.Record) :
    Transaction.Record :=
  if (r.encode s.toObjectStream).length < 174 then
    leaveTime unset (Transaction.Record.asRead s.toObjectStream r)
  else Transaction.Record.asRead s.toObjectStream r

theorem readTransaction_encode (h : s.Lawful) (unset : { n : Int // FitsInt64 n })
    (r : { r : Transaction.Record // r.FitsTypes }) :
    readTransaction s unset (r.val.encode s.toObjectStream) = some (.transaction r) ↔
      asRead s unset r.val = r.val := by
  unfold readTransaction
  rw [Transaction.Record.decode_encode h.base r.property, Option.bind_some]
  show (if hread : (asRead s unset r.val).FitsTypes then
    some (Record.transaction ⟨asRead s unset r.val, hread⟩) else none) = _ ↔ _
  generalize asRead s unset r.val = read
  by_cases hfits : read.FitsTypes
  · rw [dif_pos hfits, Option.some.injEq, Record.transaction.injEq, Subtype.ext_iff]
  · rw [dif_neg hfits]
    exact iff_of_false (by simp) fun hsame => hfits (hsame ▸ r.property)

theorem transaction_iff_survives (h : s.Lawful) (r : { r : Transaction.Record // r.FitsTypes }) :
    (∀ unset, deserializeRecord s unset (serializeRecord s (.transaction r)) =
      some (.transaction r)) ↔ Survives s (.transaction r) := by
  have hread : ∀ unset, deserializeRecord s unset (serializeRecord s (.transaction r)) =
      some (.transaction r) ↔ asRead s unset r.val = r.val := fun unset => by
    rw [deserializeRecord_transaction h unset r, readTransaction_encode h unset r]
  obtain ⟨record, hfits⟩ := r
  cases record with
  | openRecord active =>
      by_cases hshort : (Transaction.Record.encode s.toObjectStream
          (.openRecord active)).length < 174
      · refine iff_of_false (fun hall => ?_) (Nat.not_le.mpr hshort)
        -- an unset field may hold another time
        have htime : ∃ n : { n : Int // FitsInt64 n }, n.val ≠ active.time := by
          by_cases hzero : active.time = 0
          · exact ⟨⟨1, by decide⟩, by rw [hzero]; decide⟩
          · exact ⟨⟨0, by decide⟩, fun h => hzero h.symm⟩
        obtain ⟨unset, hunset⟩ := htime
        have hsame := (hread unset).mp (hall unset)
        simp only [asRead, if_pos hshort, Transaction.Record.asRead, leaveTime,
          Transaction.Record.openRecord.injEq] at hsame
        exact hunset (congrArg (·.time) hsame)
      · refine iff_of_true (fun unset => (hread unset).mpr ?_) (Nat.not_lt.mp hshort)
        simp only [asRead, if_neg hshort, Transaction.Record.asRead]
  | closeRecord id name =>
      exact iff_of_true (fun unset => (hread unset).mpr (ite_self _)) trivial
  | checkpointRecord last ids =>
      exact iff_of_true (fun unset => (hread unset).mpr (ite_self _)) trivial
  | snapshotHeaderRecord last version =>
      exact iff_of_true (fun unset => (hread unset).mpr (ite_self _)) trivial

theorem deserializeRecord_nodeInfo (h : s.Lawful) (unset : { n : Int // FitsInt64 n })
    (r : Osm.NodeInfoFileRecord) :
    deserializeRecord s unset (r.encode s.toObjectStream) = some (.nodeInfoFile r) := by
  have htype : s.getInt (r.encode s.toObjectStream) = some (Osm.nodeInfoFileRecordType, _) :=
    h.base.int _ _ (by decide)
  have hdecode := (Osm.nodeInfoCodec s.toObjectStream h.base).deserialize_serialize r
  unfold deserializeRecord
  rw [htype, Option.bind_some]
  exact congrArg (Option.map Record.nodeInfoFile) hdecode

theorem deserializeRecord_componentInfo (h : s.Lawful) (unset : { n : Int // FitsInt64 n })
    (r : ComponentInfoRecord) :
    deserializeRecord s unset (r.val.encode s.toObjectStream) = some (.componentInfo r) := by
  have htype : s.getInt (r.val.encode s.toObjectStream) =
      some (Osm.componentInfoRecordType, _) := h.base.int _ _ (by decide)
  have hdecode := (Osm.componentInfoCodec s.toObjectStream h.base).deserialize_serialize r
  unfold deserializeRecord
  rw [htype, Option.bind_some]
  exact congrArg (Option.map Record.componentInfo) hdecode

/-- What `deserialize_record` gives back is decided by the record. -/
theorem deserializeRecord_iff_survives (h : s.Lawful) (r : Record) :
    (∀ unset, deserializeRecord s unset (serializeRecord s r) = some r) ↔ Survives s r := by
  cases r with
  | transaction r => exact transaction_iff_survives h r
  | containerStat r =>
      exact iff_of_true (deserializeRecord_of_body h (by decide) (by decide) (fun _ => rfl)
        (containerStat_lawful h r)) trivial
  | finalObject r =>
      exact iff_of_true (deserializeRecord_of_body h (by decide) (by decide) (fun _ => rfl)
        (finalObjectRecord_lawful h r)) trivial
  | object r =>
      exact iff_of_true (deserializeRecord_of_body h (by decide) (by decide) (fun _ => rfl)
        (objectRecord_lawful h r)) trivial
  | snapshotHeader offset =>
      exact iff_of_true (deserializeRecord_of_body h (by decide) (by decide) (fun _ => rfl)
        (h.journalOffset offset)) trivial
  | checkpointHeader offset =>
      exact iff_of_true (deserializeRecord_of_body h (by decide) (by decide) (fun _ => rfl)
        (h.journalOffset offset)) trivial
  | containerStartFlush r =>
      exact iff_of_true (deserializeRecord_of_body h (by decide) (by decide) (fun _ => rfl)
        (containerStartFlushMarker_lawful h r)) trivial
  | containerEndFlush r =>
      exact iff_of_true (deserializeRecord_of_body h (by decide) (by decide) (fun _ => rfl)
        (containerEndFlushMarker_lawful h r)) trivial
  | nodeInfoFile r =>
      exact iff_of_true (fun unset => deserializeRecord_nodeInfo h unset r) trivial
  | ring r =>
      exact iff_of_true (deserializeRecord_of_body h (by decide) (by decide) (fun _ => rfl)
        (ringRecord_lawful h r)) trivial
  | componentInfo r =>
      exact iff_of_true (fun unset => deserializeRecord_componentInfo h unset r) trivial
  | completeComponent r =>
      refine ⟨fun hall => ?_, fun hlength => deserializeRecord_of_body h (by decide) (by decide)
        (fun _ => rfl) (completeComponentRecord_roundTrips h hlength)⟩
      have hread := hall ⟨0, by decide⟩
      rw [serializeRecord, deserializeRecord_body h _ (by decide) _ (by decide)] at hread
      obtain ⟨x, hget, hx⟩ := Option.map_eq_some_iff.mp hread
      cases hx
      exact length_of_completeComponent_get hget
  | transientMap r =>
      refine ⟨fun hall => ?_, fun hlength => deserializeRecord_of_body h (by decide) (by decide)
        (fun _ => rfl) (transientMapRecord_roundTrips h hlength)⟩
      have hread := hall ⟨0, by decide⟩
      rw [serializeRecord, deserializeRecord_body h _ (by decide) _ (by decide)] at hread
      obtain ⟨x, hget, hx⟩ := Option.map_eq_some_iff.mp hread
      cases hx
      exact length_of_transientMap_get hget
  | glMountInfo r =>
      exact iff_of_true (deserializeRecord_of_body h (by decide) (by decide) (fun _ => rfl)
        (glMountInfoRecord_lawful h r)) trivial
  | election r =>
      exact iff_of_true (deserializeRecord_of_body h (by decide) (by decide) (fun _ => rfl)
        (electionRecord_lawful h r)) trivial
  | acceptComponents list =>
      exact iff_of_true (deserializeRecord_of_body h (by decide) (by decide) (fun _ => rfl)
        (h.int32List list)) trivial

/-! ### Framing -/

theorem recordSize_serialize {r : Record} (hsize : getSerializedSize s r < 2 ^ 63) :
    recordSize (serialize s r) = getSerializedSize s r :=
  recordSize_of_take hsize rfl

theorem getOsmInfoFileRecordSize_osmInfoFileSerialize {r : Record}
    (hsize : getSerializedSize s r < 2 ^ 63) :
    getOsmInfoFileRecordSize (osmInfoFileSerialize s r) = getOsmInfoFileSerializedSize s r := by
  have hsmall : getOsmInfoFileSerializedSize s r < 2 ^ 63 := by
    unfold getSerializedSize frameSize headerSize footerSize at hsize
    unfold getOsmInfoFileSerializedSize Osm.startSize
    omega
  have hvalue : getOsmInfoFileSerializedSize s r < 256 ^ Osm.startSize :=
    hsmall.trans_le (by decide)
  rw [getOsmInfoFileRecordSize, osmInfoFileSerialize, List.take_left' (length_leBytes _ _),
    leValue_leBytes, Nat.mod_eq_of_lt hvalue, asInt64, if_pos hsmall]

theorem deserialize_serialize (unset : { n : Int // FitsInt64 n }) (r : Record) :
    deserialize s unset (serialize s r) (getSerializedSize s r) =
      deserializeRecord s unset (serializeRecord s r) := by
  have hpayload : payload? (serialize s r) (frameSize (serializeRecord s r)) =
      some (serializeRecord s r) :=
    payload?_of_take (List.take_of_length_le (length_frame _).le)
  rw [deserialize, Int.toNat_natCast, getSerializedSize, hpayload, Option.bind_some]

theorem osmInfoFileDeserialize_serialize (unset : { n : Int // FitsInt64 n }) (r : Record) :
    osmInfoFileDeserialize s unset (osmInfoFileSerialize s r) (getOsmInfoFileSerializedSize s r) =
      deserializeRecord s unset (serializeRecord s r) := by
  have hlength : (osmInfoFileSerialize s r).length = getOsmInfoFileSerializedSize s r := by
    simp [osmInfoFileSerialize, getOsmInfoFileSerializedSize, Nat.add_comm]
  rw [osmInfoFileDeserialize, Int.toNat_natCast, List.take_of_length_le hlength.le,
    osmInfoFileSerialize, List.drop_left' (length_leBytes _ _)]

/-- A record whose bytes have a size comes back exactly if it survives. -/
theorem roundTrips_iff_survives (h : s.Lawful) {r : Record}
    (hsize : getSerializedSize s r < 2 ^ 63) : RoundTrips s r ↔ Survives s r := by
  have hjournal := recordSize_serialize hsize
  have hinfo := getOsmInfoFileRecordSize_osmInfoFileSerialize hsize
  rw [← deserializeRecord_iff_survives h r]
  constructor
  · intro hr unset
    rw [← deserialize_serialize, ← hjournal]
    exact hr.journal unset
  · intro hall
    refine ⟨hjournal, fun unset => ?_, hinfo, fun unset => ?_⟩
    · rw [hjournal, deserialize_serialize]
      exact hall unset
    · rw [hinfo, osmInfoFileDeserialize_serialize]
      exact hall unset

/-! ### A stream -/

namespace ObjectStream

/-- Items as in the lists of the plain stream. -/
def items {α : Type} (c : Codec α) : Codec (List α) where
  put := Transaction.ObjectStream.putItems c.put
  get bs := Transaction.ObjectStream.getItems c.get (bs.length + 1) bs

theorem items_lawful {α : Type} {c : Codec α} (hc : c.Lawful) : (items c).Lawful := by
  intro l rest
  have hfuel : l.length < ((items c).put l).length :=
    Transaction.ObjectStream.length_le_putItems c.put l
  exact Transaction.ObjectStream.getItems_putItems (fun a _ rest => hc a rest)
    (by rw [List.length_append]; omega) rest

def word32 : Codec UInt32 where
  put n := leBytes 4 n.toNat
  get bs := if bs.length < 4 then none
    else some (UInt32.ofNat (leValue (bs.take 4)), bs.drop 4)

def word64 : Codec UInt64 where
  put n := leBytes 8 n.toNat
  get bs := if bs.length < 8 then none
    else some (UInt64.ofNat (leValue (bs.take 8)), bs.drop 8)

theorem word32_lawful : word32.Lawful := by
  intro n rest
  have hlength : ¬ (leBytes 4 n.toNat ++ rest).length < 4 := by simp
  have hvalue : leValue (leBytes 4 n.toNat) = n.toNat := by
    rw [leValue_leBytes]
    exact Nat.mod_eq_of_lt n.toNat_lt
  simp only [word32]
  rw [if_neg hlength, List.take_left' (length_leBytes _ _), List.drop_left' (length_leBytes _ _),
    hvalue, UInt32.ofNat_toNat]

theorem word64_lawful : word64.Lawful := by
  intro n rest
  have hlength : ¬ (leBytes 8 n.toNat ++ rest).length < 8 := by simp
  have hvalue : leValue (leBytes 8 n.toNat) = n.toNat := by
    rw [leValue_leBytes]
    exact Nat.mod_eq_of_lt n.toNat_lt
  simp only [word64]
  rw [if_neg hlength, List.take_left' (length_leBytes _ _), List.drop_left' (length_leBytes _ _),
    hvalue, UInt64.ofNat_toNat]

def signed64 : Codec Int64 := word64.imap UInt64.toInt64 Int64.toUInt64

def plainString : Codec String :=
  ⟨Transaction.ObjectStream.plain.putString, Transaction.ObjectStream.plain.getString⟩

def plainInt32 : Codec Int32 := word32.imap UInt32.toInt32 Int32.toUInt32

/-- The plain stream with words of fixed width and lists of items. -/
def plain : ObjectStream where
  toObjectStream := Transaction.ObjectStream.plain
  uint32 := word32
  uint64 := word64
  float := word32
  journalOffset := word64.seq signed64
  stringVector := items plainString
  int32List := items plainInt32
  stringMap := items (plainString.seq plainString)

theorem plain_lawful : plain.Lawful where
  base := Transaction.ObjectStream.plain_lawful
  uint32 := word32_lawful
  uint64 := word64_lawful
  float := word32_lawful
  journalOffset := word64_lawful.seq (word64_lawful.imap fun n => by simp)
  stringVector := items_lawful Transaction.ObjectStream.plain_lawful.string
  int32List := items_lawful (word32_lawful.imap fun n => by simp)
  stringMap := items_lawful (Codec.Lawful.seq Transaction.ObjectStream.plain_lawful.string
    Transaction.ObjectStream.plain_lawful.string)

end ObjectStream

/-- A component file with two owners. -/
def twoOwners : Record :=
  .completeComponent ⟨[⟨⟨"n1_61006_account-server", "10.0.0.1", 61006⟩, by decide⟩,
    ⟨⟨"n2_61006_account-server", "10.0.0.2", 61006⟩, by decide⟩], 0x3f800000, "3"⟩

theorem roundTrips_twoOwners : RoundTrips ObjectStream.plain twoOwners :=
  (roundTrips_iff_survives ObjectStream.plain_lawful (by decide +kernel)).mpr
    (show 2 < 2 ^ 31 by decide)

/-- An open record with a short name. -/
def shortOpen : Record :=
  .transaction ⟨.openRecord ⟨2, "a/c/o", "PUT", "61014", 7, 1700000000⟩, by decide⟩

/-- It is read as a record of the old layout, which has no time. -/
theorem short_open_loses_time :
    getSerializedSize ObjectStream.plain shortOpen < 2 ^ 63 ∧
    ¬ RoundTrips ObjectStream.plain shortOpen :=
  ⟨by decide +kernel, fun h => absurd (h.journal ⟨0, by decide⟩) (by decide +kernel)⟩

end ObjectStorage.Records
