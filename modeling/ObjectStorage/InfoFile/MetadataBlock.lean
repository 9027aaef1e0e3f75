import ObjectStorage.InfoFile.StatBlock
import ObjectStorage.Library.OrderedMap
import ObjectStorage.Library.Transition
import ObjectStorage.Records.RecordRoundTrip

/-!
The metadata of the requests that create a container or set its statistics, and the statistics block
they are written to: which of them are read back.
-/

namespace ObjectStorage.InfoFile

open Std Library ObjectStorage.Journal ContainerFile TrailerStatBlockWriter

namespace MetadataBlock

variable (stringMap : Codec (List (String × String)))

/-- The metadata of `create_trailer_and_stat`, which reads them whatever their length says. -/
def createStat (block : Bytes) : Option (List (String × String)) :=
  (stringMap.get (block.drop metadataStart)).map (·.1)

/-- The bytes that the serialized metadata are copied to. -/
def copied (metadata : Metadata) : Set Nat :=
  Set.Ico metadataStart (metadataStart + (stringMap.put metadata.toList).length)

/-- The field of the metadata. -/
def field : Set Nat := Set.Ico (sizeofStatBlock - metaDataLength) sizeofStatBlock

/-- The copy stays in the field, and the block is read back with the same metadata. -/
structure Stored (metadata : Metadata) : Prop where
  within : copied stringMap metadata ⊆ field
  readBack : ∀ stat trailer,
    createStat stringMap (getWritableBlock stringMap stat trailer metadata) = some metadata.toList

inductive Request where
  | addContainer (metadata : Metadata)
  | setContainerStat (new : Metadata)

/-- The metadata that are written for a request, if it is accepted. -/
def accepted (metadata : Metadata) : Request → Option Metadata
  | .addContainer metadata => some metadata
  | .setContainerStat new =>
      let metadata := updateMetadata metadata new
      if metadataAllowed metadata then some metadata else none

/-- The entries that a request asks for, by key: those of the state before that it does not name,
and those that it gives a value. -/
def entriesAfter (metadata : Metadata) : Request → List (String × String)
  | .addContainer metadata => metadata.toList
  | .setContainerStat new =>
      (metadata.toList.filter fun e => e.1 ∉ new).merge (new.toList.filter fun e => e.2 ≠ "") keyLE

/-- The entries that a request asks for leave room for their length in the field of the metadata, as
far as the limits do not refuse them. -/
def LeavesRoom (stringMap : Codec (List (String × String))) (metadata : Metadata) :
    Request → Prop
  | .addContainer new => (stringMap.put new.toList).length ≤ 30712
  | .setContainerStat new =>
      let entries := entriesAfter metadata (.setContainerStat new)
      entriesAllowed entries → (stringMap.put entries).length ≤ 30712

/-- A request that is refused leaves the file as it is. -/
def step (metadata : Metadata) (request : Request) : Option Metadata :=
  some ((accepted metadata request).getD metadata)

variable {stringMap}

theorem createStat_getWritableBlock (hlawful : stringMap.Lawful) {metadata : Metadata}
    (hfits : (stringMap.put metadata.toList).length + sizeofMetadataLength ≤ metaDataLength)
    (stat : StatFields) (trailer : TrailerFields) :
    createStat stringMap (getWritableBlock stringMap stat trailer metadata) =
      some metadata.toList := by
  have hsizes : sizeofStatBlock = 31408 ∧ metaDataLength = 30720 ∧ sizeofTrailer = 88 ∧
      sizeofReserved = 16 ∧ sizeofMetadataLength = 8 ∧ metadataStart = 696 := by decide
  obtain ⟨hblock, hfield, htrailer, hreserved, hlength, hstart⟩ := hsizes
  have hstat := stat.length_eq
  generalize hserialized : stringMap.put metadata.toList = serialized at hfits
  let buffer := stat.bytes ++ List.replicate (metaDataLength + sizeofTrailer) (0 : UInt8)
  let counted := writeAt buffer (leBytes 8 serialized.length) (sizeofStatBlock - metaDataLength)
  have hbuffer : buffer.length = 31496 := by
    rw [List.length_append, List.length_replicate]
    omega
  have hcounted : counted.length = 31496 :=
    (JournalReadHandler.length_writeAt (by rw [length_leBytes]; omega)).trans hbuffer
  have hwritten : (writeAt counted serialized metadataStart).length = 31496 :=
    (JournalReadHandler.length_writeAt (by omega)).trans hcounted
  have hcopy : ((getWritableBlock stringMap stat trailer metadata).drop metadataStart).take
      serialized.length = serialized := by
    have hbefore := take_drop_writeAt_of_le (writeAt counted serialized metadataStart)
      trailer.bytes (i := sizeofStatBlock + sizeofReserved) (j := metadataStart)
      (n := serialized.length) (by omega) (by omega)
    have hat := take_drop_writeAt counted serialized (i := metadataStart) (by omega)
    rw [getWritableBlock, hserialized]
    exact hbefore.trans hat
  have hsplit := List.take_append_drop serialized.length
    ((getWritableBlock stringMap stat trailer metadata).drop metadataStart)
  rw [hcopy] at hsplit
  rw [createStat, ← hsplit, ← hserialized, hlawful metadata.toList]
  rfl

/-- The metadata are kept if and only if their serialization leaves room for its length. -/
theorem stored_iff (hlawful : stringMap.Lawful) (metadata : Metadata) :
    Stored stringMap metadata ↔
      (stringMap.put metadata.toList).length + sizeofMetadataLength ≤ metaDataLength := by
  constructor
  · intro h
    by_contra hlong
    have hlast := h.within (a := metadataStart + ((stringMap.put metadata.toList).length - 1))
    unfold copied field metadataStart at hlast
    rw [Set.mem_Ico, Set.mem_Ico] at hlast
    unfold sizeofStatBlock sizeofMetadataLength metaDataLength at *
    omega
  · intro hfits
    refine ⟨Set.Ico_subset_Ico ?_ ?_, createStat_getWritableBlock hlawful hfits⟩
    · exact Nat.le_add_right _ _
    · unfold metadataStart sizeofStatBlock sizeofMetadataLength metaDataLength at *
      omega

theorem getElem?_foldl_update (l : List (String × String))
    (hl : l.Pairwise fun e e' => e.1 ≠ e'.1) (metadata : Metadata) (k : String) :
    (l.foldl (fun metadata e =>
        if e.2 = "" then metadata.erase e.1 else metadata.insert e.1 e.2) metadata)[k]? =
      match l.find? (·.1 = k) with
      | none => metadata[k]?
      | some e => if e.2 = "" then none else some e.2 := by
  induction l generalizing metadata with
  | nil => rfl
  | cons e l ih =>
      obtain ⟨hne, hl⟩ := List.pairwise_cons.mp hl
      rw [List.foldl_cons, ih hl]
      by_cases hk : e.1 = k
      · have hrest : l.find? (·.1 = k) = none :=
          List.find?_eq_none.mpr fun e' he' hk' =>
            hne e' he' (hk.trans (of_decide_eq_true hk').symm)
        rw [hrest, List.find?_cons_of_pos (by simpa using hk)]
        dsimp only
        split <;> simp [hk]
      · rw [List.find?_cons_of_neg (by simpa using hk)]
        split
        · split <;> simp [hk]
        · rfl

theorem getElem?_updateMetadata (metadata new : Metadata) (k : String) :
    (updateMetadata metadata new)[k]? =
      match new[k]? with
      | none => metadata[k]?
      | some v => if v = "" then none else some v := by
  rw [updateMetadata, getElem?_foldl_update _ (pairwise_keys_toList new)]
  cases hfind : new.toList.find? (·.1 = k) with
  | none =>
      have hnone : new[k]? = none := by
        by_contra hsome
        obtain ⟨v, hv⟩ := Option.ne_none_iff_exists'.mp hsome
        have hin := TreeMap.mem_toList_iff_getElem?_eq_some.mpr hv
        simpa using List.find?_eq_none.mp hfind _ hin
      rw [hnone]
  | some e =>
      have hk : e.1 = k := by simpa using List.find?_some hfind
      have hget := TreeMap.mem_toList_iff_getElem?_eq_some.mp (List.mem_of_find?_eq_some hfind)
      rw [hk] at hget
      rw [hget]

theorem toList_updateMetadata (metadata new : Metadata) :
    (updateMetadata metadata new).toList = entriesAfter metadata (.setContainerStat new) := by
  have hsorted : ∀ (m : Metadata) (p : String × String → Bool),
      (m.toList.filter p).Pairwise fun e e' => keyLE e e' :=
    fun m p => (pairwise_keyLE_toList m).filter p
  refine toList_eq_merge (hsorted _ _) (hsorted _ _) ?_ fun e => ?_
  · refine List.nodup_append.mpr ⟨(nodup_toList _).filter _, (nodup_toList _).filter _, ?_⟩
    rintro e he e' he' rfl
    have hnew := TreeMap.mem_toList_iff_getElem?_eq_some.mp (List.mem_filter.mp he').1
    refine absurd ?_ (by simpa using (List.mem_filter.mp he).2 : e.1 ∉ new)
    exact (mem_iff_exists_getElem? new e.1).mpr ⟨_, hnew⟩
  · rw [TreeMap.mem_toList_iff_getElem?_eq_some, getElem?_updateMetadata, List.mem_append,
      List.mem_filter, List.mem_filter, TreeMap.mem_toList_iff_getElem?_eq_some,
      TreeMap.mem_toList_iff_getElem?_eq_some]
    have hmem := mem_iff_exists_getElem? new e.1
    cases hnew : new[e.1]? with
    | none => simp [hmem, hnew]
    | some v =>
        by_cases hv : v = ""
        · simp [hmem, hnew, hv]
        · simp only [hmem, hnew, if_neg hv, Option.some.injEq]
          constructor
          · rintro rfl
            simp [hv]
          · rintro (⟨-, hno⟩ | ⟨heq, -⟩)
            · exact absurd (hmem.mpr ⟨v, hnew⟩) (of_decide_eq_true hno)
            · exact heq

/-- In a series of requests every accepted map is kept if and only if each request, in the state it
comes to, asks for entries that leave room. -/
theorem requests_stored_iff (hlawful : stringMap.Lawful) (metadata : Metadata)
    (requests : List Request) :
    Along step (fun m r => ∀ m', accepted m r = some m' → Stored stringMap m') metadata requests ↔
      Along step (LeavesRoom stringMap) metadata requests := by
  have hsame : ∀ m : Metadata, Stored stringMap m ↔ (stringMap.put m.toList).length ≤ 30712 := by
    intro m
    rw [stored_iff hlawful]
    unfold sizeofMetadataLength metaDataLength
    omega
  have hstep : (fun m r => ∀ m', accepted m r = some m' → Stored stringMap m') =
      LeavesRoom stringMap := by
    funext m r
    cases r with
    | addContainer new => simp [accepted, LeavesRoom, hsame]
    | setContainerStat new =>
        simp only [accepted, LeavesRoom, ← toList_updateMetadata]
        refine propext ⟨fun h hallowed => (hsame _).mp (h _ (if_pos hallowed)), fun h m' hm' => ?_⟩
        obtain ⟨hallowed, hm'⟩ := Option.ite_none_right_eq_some.mp hm'
        exact Option.some.inj hm' ▸ (hsame _).mpr (h hallowed)
  rw [hstep]

/-- A container is added with one entry, and another one is put. -/
theorem requests_stored_entries :
    Along step
      (fun m r => ∀ m', accepted m r = some m' → Stored Records.ObjectStream.plain.stringMap m')
      ∅ [.addContainer ((∅ : Metadata).insert "m-a" "1"),
        .setContainerStat ((∅ : Metadata).insert "m-b" "2")] := by
  refine (requests_stored_iff Records.ObjectStream.plain_lawful.stringMap ∅ _).mpr
    ⟨?_, fun s₁ hs₁ => ⟨?_, fun _ _ => trivial⟩⟩
  · show _ ≤ 30712
    decide
  · cases hs₁
    intro _
    rw [← toList_updateMetadata]
    decide

/-- The metadata of an entry whose key none of the limits is for. -/
def otherMetadata (value : String) : Metadata := (∅ : Metadata).insert "x" value

theorem metadataAllowed_otherMetadata {value : String} (hne : value ≠ "") :
    updateMetadata ∅ (otherMetadata value) = otherMetadata value ∧
      metadataAllowed (otherMetadata value) := by
  have htoList : (otherMetadata value).toList = [("x", value)] := rfl
  have hprefixes : (["m-", "r-", "w-", "sm-"].map fun p => "x".startsWith p) =
      [false, false, false, false] := by decide +kernel
  simp only [List.map_cons, List.map_nil, List.cons.injEq, and_true] at hprefixes
  obtain ⟨hm, hr, hw, hsm⟩ := hprefixes
  refine ⟨?_, ?_⟩
  · rw [updateMetadata, htoList]
    simp only [List.foldl_cons, List.foldl_nil, if_neg hne]
    rfl
  · simp [metadataAllowed, entriesAllowed, entriesLength, htoList, hm, hr, hw, hsm]

theorem utf8ByteSize_replicate (n : Nat) :
    (String.ofList (List.replicate n 'a')).utf8ByteSize = n := by
  induction n with
  | zero => rfl
  | succ n ih =>
      have hone : 'a'.utf8Size = 1 := rfl
      rw [List.replicate_succ, String.ofList_cons, String.utf8ByteSize_append, ih,
        String.utf8ByteSize_singleton, hone, Nat.add_comm]

/-- One entry of 30720 bytes is taken by either request, whatever its serialization adds: a
container is added with any metadata, and a key without one of the known beginnings counts for no
limit. -/
theorem requests_overrun :
    ¬ ∃ stringMap : Codec (List (String × String)), stringMap.Lawful ∧
      (∀ entries, (entries.map fun e => e.1.utf8ByteSize + e.2.utf8ByteSize).sum ≤
        (stringMap.put entries).length) ∧
      ((∀ metadata m', accepted ∅ (.addContainer metadata) = some m' → Stored stringMap m') ∨
        ∀ new m', accepted ∅ (.setContainerStat new) = some m' → Stored stringMap m') := by
  rintro ⟨stringMap, hlawful, hsize, hstored⟩
  obtain ⟨value, hvalue, hne⟩ : ∃ value : String, value.utf8ByteSize = 30720 ∧ value ≠ "" := by
    refine ⟨_, utf8ByteSize_replicate 30720, fun hempty => ?_⟩
    have hlength := utf8ByteSize_replicate 30720
    rw [hempty] at hlength
    exact absurd hlength (by decide)
  have hkept : Stored stringMap (otherMetadata value) := by
    obtain ⟨hupdate, hallowed⟩ := metadataAllowed_otherMetadata hne
    rcases hstored with hadd | hset
    · exact hadd (otherMetadata value) _ rfl
    · refine hset (otherMetadata value) _ ?_
      rw [accepted]
      simp only [hupdate]
      exact if_pos hallowed
  have hfits := (stored_iff hlawful _).mp hkept
  have htotal := hsize (otherMetadata value).toList
  have htoList : (otherMetadata value).toList = [("x", value)] := rfl
  rw [htoList] at hfits htotal
  simp only [List.map_cons, List.map_nil, List.sum_cons, List.sum_nil, hvalue] at htotal
  unfold sizeofMetadataLength metaDataLength at hfits
  omega

end MetadataBlock

end ObjectStorage.InfoFile
