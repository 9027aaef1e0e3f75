import ObjectStorage.Transaction.Journal

/-!
The bytes of transaction records: `xserialize` of each type over the primitives of the serialization
library, and `deserialize_record`, which takes a short open record for one of the old layout.
-/

namespace ObjectStorage.Transaction

open Journal

/-- `cool::ObjectIoStream` without type checking: what it appends for a value, and how it reads a
value from the front. -/
structure ObjectStream where
  putInt : Int → Bytes
  getInt : Bytes → Option (Int × Bytes)
  putInt64 : Int → Bytes
  getInt64 : Bytes → Option (Int × Bytes)
  putString : String → Bytes
  getString : Bytes → Option (String × Bytes)
  putInt64List : List Int → Bytes
  getInt64List : Bytes → Option (List Int × Bytes)

def FitsInt (n : Int) : Prop := -2 ^ 31 ≤ n ∧ n < 2 ^ 31

def FitsInt64 (n : Int) : Prop := -2 ^ 63 ≤ n ∧ n < 2 ^ 63

instance (n : Int) : Decidable (FitsInt n) := inferInstanceAs (Decidable (_ ∧ _))

instance (n : Int) : Decidable (FitsInt64 n) := inferInstanceAs (Decidable (_ ∧ _))

/-- Values are read back as they were written, and numbers have a fixed width. -/
structure ObjectStream.Lawful (stream : ObjectStream) : Prop where
  int : ∀ n rest, FitsInt n → stream.getInt (stream.putInt n ++ rest) = some (n, rest)
  int64 : ∀ n rest, FitsInt64 n → stream.getInt64 (stream.putInt64 n ++ rest) = some (n, rest)
  string : ∀ s rest, stream.getString (stream.putString s ++ rest) = some (s, rest)
  int64List : ∀ ns rest, (∀ n ∈ ns, FitsInt64 n) →
    stream.getInt64List (stream.putInt64List ns ++ rest) = some (ns, rest)
  length_int : ∀ n, (stream.putInt n).length = 4
  length_int64 : ∀ n, (stream.putInt64 n).length = 8

namespace Record

def OPEN_RECORD : Int := 11
def CLOSE_RECORD : Int := 12
def CHECKPOINT_RECORD : Int := 13
def SNAPSHOT_HEADER_RECORD : Int := 14

/-- `serialize_record`: the type and the fields. An open record ends with its version, which is one,
and an unused word. -/
def encode (stream : ObjectStream) : Record → Bytes
  | .openRecord active =>
      stream.putInt OPEN_RECORD ++ (stream.putString active.objectName ++
        (stream.putString active.requestMethod ++ (stream.putInt64 active.transactionId ++
          (stream.putInt active.operation ++ (stream.putString active.objectId ++
            (stream.putInt64 active.time ++ (stream.putInt64 1 ++ stream.putInt64 0)))))))
  | .closeRecord transactionId objectName =>
      stream.putInt CLOSE_RECORD ++ (stream.putString objectName ++ stream.putInt64 transactionId)
  | .checkpointRecord lastTransactionId idList =>
      stream.putInt CHECKPOINT_RECORD ++ (stream.putInt64 lastTransactionId ++
        stream.putInt64List idList)
  | .snapshotHeaderRecord lastTransactionId journalVersion =>
      stream.putInt SNAPSHOT_HEADER_RECORD ++ (stream.putInt64 lastTransactionId ++
        stream.putInt64 journalVersion)

/-- `deserialize_record` for the types of this journal. The old layout leaves the time unset, and
nobody reads it; a snapshot header without a version has version zero. -/
def decode (stream : ObjectStream) (buffer : Bytes) : Option Record := do
  let (type, rest) ← stream.getInt buffer
  if type = OPEN_RECORD then
    let (objectName, rest) ← stream.getString rest
    let (requestMethod, rest) ← stream.getString rest
    let (transactionId, rest) ← stream.getInt64 rest
    let (operation, rest) ← stream.getInt rest
    let (objectId, rest) ← stream.getString rest
    if buffer.length < 174 then
      return .openRecord ⟨operation, objectName, requestMethod, objectId, transactionId, 0⟩
    else
      let (time, rest) ← stream.getInt64 rest
      let (_, rest) ← stream.getInt64 rest
      let (_, _) ← stream.getInt64 rest
      return .openRecord ⟨operation, objectName, requestMethod, objectId, transactionId, time⟩
  else if type = CLOSE_RECORD then
    let (objectName, rest) ← stream.getString rest
    let (transactionId, _) ← stream.getInt64 rest
    return .closeRecord transactionId objectName
  else if type = CHECKPOINT_RECORD then
    let (lastTransactionId, rest) ← stream.getInt64 rest
    let (idList, _) ← stream.getInt64List rest
    return .checkpointRecord lastTransactionId idList
  else if type = SNAPSHOT_HEADER_RECORD then
    let (lastTransactionId, rest) ← stream.getInt64 rest
    match stream.getInt64 rest with
    | some (journalVersion, _) => return .snapshotHeaderRecord lastTransactionId journalVersion
    | none => return .snapshotHeaderRecord lastTransactionId 0
  else none

/-- The numbers of the record are within the ranges of their types. -/
def FitsTypes : Record → Prop
  | .openRecord active => FitsInt64 active.transactionId ∧ FitsInt active.operation ∧
      FitsInt64 active.time
  | .closeRecord transactionId _ => FitsInt64 transactionId
  | .checkpointRecord lastTransactionId idList =>
      FitsInt64 lastTransactionId ∧ ∀ id ∈ idList, FitsInt64 id
  | .snapshotHeaderRecord lastTransactionId journalVersion =>
      FitsInt64 lastTransactionId ∧ FitsInt64 journalVersion

instance : DecidablePred FitsTypes
  | .openRecord _ => inferInstanceAs (Decidable (_ ∧ _ ∧ _))
  | .closeRecord _ _ => inferInstanceAs (Decidable (FitsInt64 _))
  | .checkpointRecord _ _ => inferInstanceAs (Decidable (_ ∧ _))
  | .snapshotHeaderRecord _ _ => inferInstanceAs (Decidable (_ ∧ _))

/-- A record as it is read: a short open record loses its time. -/
def asRead (stream : ObjectStream) : Record → Record
  | .openRecord active =>
      if (encode stream (.openRecord active)).length < 174 then
        .openRecord { active with time := 0 }
      else .openRecord active
  | record => record

variable {stream : ObjectStream}

theorem getInt64_last (hlawful : stream.Lawful) {n : Int} (hn : FitsInt64 n) :
    stream.getInt64 (stream.putInt64 n) = some (n, []) := by
  simpa using hlawful.int64 n [] hn

theorem getInt64List_last (hlawful : stream.Lawful) {ns : List Int} (hns : ∀ n ∈ ns, FitsInt64 n) :
    stream.getInt64List (stream.putInt64List ns) = some (ns, []) := by
  simpa using hlawful.int64List ns [] hns

theorem decode_encode (hlawful : stream.Lawful) {record : Record} (hfits : record.FitsTypes) :
    decode stream (encode stream record) = some (asRead stream record) := by
  have hopen : FitsInt OPEN_RECORD := by decide
  have hclose : FitsInt CLOSE_RECORD := by decide
  have hcheckpoint : FitsInt CHECKPOINT_RECORD := by decide
  have hsnapshot : FitsInt SNAPSHOT_HEADER_RECORD := by decide
  have hone : FitsInt64 1 := by decide
  have hzero : FitsInt64 0 := by decide
  cases record with
  | openRecord active =>
      obtain ⟨hid, hoperation, htime⟩ := hfits
      unfold decode asRead
      by_cases hshort : (encode stream (.openRecord active)).length < 174
      · simp only [hshort, if_true]
        simp only [encode, hlawful.int _ _ hopen, hlawful.string, hlawful.int64 _ _ hid,
          hlawful.int _ _ hoperation, Option.bind_eq_bind, Option.bind_some, if_true]
        rfl
      · simp only [hshort, if_false]
        simp only [encode, hlawful.int _ _ hopen, hlawful.string, hlawful.int64 _ _ hid,
          hlawful.int _ _ hoperation, hlawful.int64 _ _ htime, hlawful.int64 _ _ hone,
          getInt64_last hlawful hzero, Option.bind_eq_bind, Option.bind_some, if_true]
        rfl
  | closeRecord transactionId objectName =>
      have hne : ¬ CLOSE_RECORD = OPEN_RECORD := by decide
      simp only [decode, encode, asRead, hlawful.int _ _ hclose, hlawful.string,
        getInt64_last hlawful hfits, Option.bind_eq_bind, Option.bind_some, hne, if_false, if_true]
      rfl
  | checkpointRecord lastTransactionId idList =>
      obtain ⟨hlast, hids⟩ := hfits
      have hne : ¬ CHECKPOINT_RECORD = OPEN_RECORD := by decide
      have hne' : ¬ CHECKPOINT_RECORD = CLOSE_RECORD := by decide
      simp only [decode, encode, asRead, hlawful.int _ _ hcheckpoint, hlawful.int64 _ _ hlast,
        getInt64List_last hlawful hids, Option.bind_eq_bind, Option.bind_some, hne, hne', if_false,
        if_true]
      rfl
  | snapshotHeaderRecord lastTransactionId journalVersion =>
      obtain ⟨hlast, hversion⟩ := hfits
      have hne : ¬ SNAPSHOT_HEADER_RECORD = OPEN_RECORD := by decide
      have hne' : ¬ SNAPSHOT_HEADER_RECORD = CLOSE_RECORD := by decide
      have hne'' : ¬ SNAPSHOT_HEADER_RECORD = CHECKPOINT_RECORD := by decide
      simp only [decode, encode, asRead, hlawful.int _ _ hsnapshot, hlawful.int64 _ _ hlast,
        getInt64_last hlawful hversion, Option.bind_eq_bind, Option.bind_some, hne, hne', hne'',
        if_false, if_true]
      rfl

theorem length_encode_header (hlawful : stream.Lawful) (lastTransactionId journalVersion : Int) :
    (encode stream (.snapshotHeaderRecord lastTransactionId journalVersion)).length = 20 := by
  simp [encode, hlawful.length_int, hlawful.length_int64]

end Record

/-! ### A stream -/

namespace ObjectStream

def putSigned (width : Nat) (n : Int) : Bytes := leBytes width (n % 256 ^ width).toNat

def getSigned (width : Nat) (bs : Bytes) : Option (Int × Bytes) :=
  if bs.length < width then none
  else
    let n : Int := leValue (bs.take width)
    some (if 2 * n < 256 ^ width then n else n - 256 ^ width, bs.drop width)

variable {α : Type}

/-- Every item follows a one, and the list ends with a zero. -/
def putItems (put : α → Bytes) : List α → Bytes
  | [] => [0]
  | item :: items => 1 :: put item ++ putItems put items

def getItems (get : Bytes → Option (α × Bytes)) : Nat → Bytes → Option (List α × Bytes)
  | 0, _ => none
  | _, [] => none
  | fuel + 1, b :: bs =>
      if b = 0 then some ([], bs)
      else do
        let (item, bs) ← get bs
        let (items, bs) ← getItems get fuel bs
        return (item :: items, bs)

/-- Two's complement in four or eight bytes, and lists of items. -/
def plain : ObjectStream where
  putInt := putSigned 4
  getInt := getSigned 4
  putInt64 := putSigned 8
  getInt64 := getSigned 8
  putString s := putItems (fun c => leBytes 4 c.toNat) s.toList
  getString bs := (getItems (fun bs => if bs.length < 4 then none
    else some (Char.ofNat (leValue (bs.take 4)), bs.drop 4)) (bs.length + 1) bs).map fun (cs, bs) =>
      (String.ofList cs, bs)
  putInt64List := putItems (putSigned 8)
  getInt64List bs := getItems (getSigned 8) (bs.length + 1) bs

theorem getSigned_putSigned (width : Nat) {n : Int} (hlow : -256 ^ width ≤ 2 * n)
    (hhigh : 2 * n < 256 ^ width) (rest : Bytes) :
    getSigned width (putSigned width n ++ rest) = some (n, rest) := by
  have hpos : (0 : Int) < 256 ^ width := Int.pow_pos (by decide)
  have hlength : (putSigned width n).length = width := length_leBytes _ _
  have hnot : ¬ (putSigned width n ++ rest).length < width := by
    rw [List.length_append, hlength]
    omega
  have htake : (putSigned width n ++ rest).take width = putSigned width n :=
    List.take_left' hlength
  have hdrop : (putSigned width n ++ rest).drop width = rest :=
    List.drop_left' hlength
  have hmod : 0 ≤ n % 256 ^ width := Int.emod_nonneg _ hpos.ne'
  have hvalue : ((leValue (putSigned width n) : Nat) : Int) = n % 256 ^ width := by
    have hlt : (n % 256 ^ width).toNat < 256 ^ width := by
      have hlt := Int.emod_lt_of_pos n hpos
      have hcast : ((256 ^ width : Nat) : Int) = 256 ^ width := Int.natCast_pow 256 width
      omega
    rw [putSigned, leValue_leBytes, Nat.mod_eq_of_lt hlt, Int.toNat_of_nonneg hmod]
  rw [getSigned, if_neg hnot, htake, hdrop, hvalue]
  by_cases hn : 0 ≤ n
  · have hsame : n % 256 ^ width = n := Int.emod_eq_of_lt hn (by omega)
    simp only [hsame, if_pos hhigh]
  · have hwrapped : n % 256 ^ width = n + 256 ^ width := by
      rw [← Int.add_emod_right, Int.emod_eq_of_lt (by omega) (by omega)]
    simp only [hwrapped]
    rw [if_neg (by omega), Int.add_sub_cancel]

theorem getItems_putItems {put : α → Bytes} {get : Bytes → Option (α × Bytes)} {items : List α}
    (hget : ∀ item ∈ items, ∀ rest, get (put item ++ rest) = some (item, rest)) {n : Nat}
    (hfuel : items.length < n) (rest : Bytes) :
    getItems get n (putItems put items ++ rest) = some (items, rest) := by
  induction items generalizing n with
  | nil =>
      cases n with
      | zero => simp at hfuel
      | succ n => rfl
  | cons item items ih =>
      cases n with
      | zero => simp at hfuel
      | succ n =>
          have hone : ¬ (1 : UInt8) = 0 := by decide
          have hrest := ih (fun item hin => hget item (List.mem_cons_of_mem _ hin)) (n := n)
            (by simpa using hfuel)
          simp only [putItems, List.cons_append, List.append_assoc, getItems, if_neg hone,
            hget item List.mem_cons_self, hrest, Option.bind_eq_bind, Option.bind_some]
          rfl

theorem length_le_putItems (put : α → Bytes) (items : List α) :
    items.length < (putItems put items).length := by
  induction items with
  | nil => simp [putItems]
  | cons item items ih =>
      simp only [putItems, List.length_append, List.length_cons]
      omega

theorem plain_lawful : plain.Lawful where
  int n rest hn := by
    obtain ⟨hlow, hhigh⟩ := hn
    exact getSigned_putSigned 4 (by omega) (by omega) rest
  int64 n rest hn := by
    obtain ⟨hlow, hhigh⟩ := hn
    exact getSigned_putSigned 8 (by omega) (by omega) rest
  string s rest := by
    have hfuel := length_le_putItems (fun c : Char => leBytes 4 c.toNat) s.toList
    simp only [plain]
    rw [getItems_putItems (fun c _ rest => ?_) (by rw [List.length_append]; omega),
      Option.map_some, String.ofList_toList]
    have hchar : c.toNat < 256 ^ 4 := by
      have := c.val.toNat_lt
      exact this
    have hcode : leValue (leBytes 4 c.toNat) = c.toNat := by
      rw [leValue_leBytes, Nat.mod_eq_of_lt hchar]
    simp [hcode]
  int64List ns rest hns := by
    have hfuel := length_le_putItems (putSigned 8) ns
    simp only [plain]
    refine getItems_putItems (fun n hn rest => ?_) (by rw [List.length_append]; omega) rest
    obtain ⟨hlow, hhigh⟩ := hns n hn
    exact getSigned_putSigned 8 (by omega) (by omega) rest
  length_int _ := length_leBytes _ _
  length_int64 _ := length_leBytes _ _

end ObjectStream

end ObjectStorage.Transaction
