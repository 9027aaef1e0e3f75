import ObjectStorage.InfoFile.ContainerFile
import ObjectStorage.Journal.ReadLayout
import ObjectStorage.Library.Codec

/-!
The statistics block with the trailer behind it, as `TrailerStatBlockWriter` puts it together in
memory. The metadata are copied into their field at the end of the statistics behind their length,
however long they are; then the fields of the trailer are set. How maps are serialized is a
parameter.
-/

namespace ObjectStorage.InfoFile

open Library ObjectStorage.Journal ContainerFile

/-- The first fields of the trailer, `reserved`, are not written. -/
def sizeofReserved : Nat := 16

/-- The fields of `StatBlock_` in front of the metadata. -/
structure StatFields where
  bytes : Bytes
  length_eq : bytes.length = sizeofStatBlock - metaDataLength

/-- The fields of `Trailer_` that are written. -/
structure TrailerFields where
  bytes : Bytes
  length_eq : bytes.length = sizeofTrailer - sizeofReserved

namespace TrailerStatBlockWriter

variable (stringMap : Codec (List (String × String)))

/-- Where the serialized metadata begin. -/
def metadataStart : Nat := sizeofStatBlock - metaDataLength + sizeofMetadataLength

/-- `TrailerStatBlockWriter::get_writable_block`. Bytes that are copied past the end of the buffer
make it longer. -/
def getWritableBlock (stat : StatFields) (trailer : TrailerFields) (metadata : Metadata) : Bytes :=
  let serialized := stringMap.put metadata.toList
  let buffer := stat.bytes ++ List.replicate (metaDataLength + sizeofTrailer) 0
  let buffer := writeAt buffer (leBytes 8 serialized.length) (sizeofStatBlock - metaDataLength)
  let buffer := writeAt buffer serialized metadataStart
  writeAt buffer trailer.bytes (sizeofStatBlock + sizeofReserved)

/-- What `write_file` gets of it: as many bytes as the statistics block and the trailer have. -/
def writtenBlock (stat : StatFields) (trailer : TrailerFields) (metadata : Metadata) : Bytes :=
  (getWritableBlock stringMap stat trailer metadata).take (sizeofStatBlock + sizeofTrailer)

theorem take_drop_writeAt (bs data : Bytes) {i : Nat} (h : i ≤ bs.length) :
    ((writeAt bs data i).drop i).take data.length = data := by
  have hi : (bs.take i).length = i := by
    rw [List.length_take]
    omega
  rw [writeAt, List.append_assoc, List.drop_left' hi, List.take_left]

theorem take_drop_writeAt_of_le (bs data : Bytes) {i j n : Nat} (hj : j + n ≤ i)
    (hi : i ≤ bs.length) : ((writeAt bs data i).drop j).take n = (bs.drop j).take n := by
  have hlength : (bs.take i).length = i := by
    rw [List.length_take]
    omega
  rw [writeAt, List.append_assoc, List.drop_append_of_le_length (by omega),
    List.take_append_of_le_length (by rw [List.length_drop]; omega), List.drop_take, List.take_take,
    Nat.min_eq_left (by omega)]

theorem length_le_writeAt (bs data : Bytes) {i : Nat} (h : i ≤ bs.length) :
    bs.length ≤ (writeAt bs data i).length := by
  simp only [writeAt, List.length_append, List.length_take, List.length_drop]
  omega

/-- The fields of the statistics and of the trailer are in the block that is written, whatever the
metadata: what is copied too far is either covered by the trailer again or not written. -/
structure KeepsFields (block : Bytes) (stat : StatFields) (trailer : TrailerFields) : Prop where
  length_eq : block.length = sizeofStatBlock + sizeofTrailer
  stat_eq : block.take (sizeofStatBlock - metaDataLength) = stat.bytes
  trailer_eq : block.drop (sizeofStatBlock + sizeofReserved) = trailer.bytes

theorem writtenBlock_keepsFields (stat : StatFields) (trailer : TrailerFields)
    (metadata : Metadata) : KeepsFields (writtenBlock stringMap stat trailer metadata) stat
      trailer := by
  have hsizes : sizeofStatBlock = 31408 ∧ metaDataLength = 30720 ∧ sizeofTrailer = 88 ∧
      sizeofReserved = 16 ∧ metadataStart = 696 := by decide
  obtain ⟨hblock, hfield, htrailer, hreserved, hstart⟩ := hsizes
  have hstat := stat.length_eq
  have hlast := trailer.length_eq
  let serialized := stringMap.put metadata.toList
  let buffer := stat.bytes ++ List.replicate (metaDataLength + sizeofTrailer) (0 : UInt8)
  let counted := writeAt buffer (leBytes 8 serialized.length) (sizeofStatBlock - metaDataLength)
  let copied := writeAt counted serialized metadataStart
  have hbuffer : buffer.length = 31496 := by
    rw [List.length_append, List.length_replicate]
    omega
  have hcounted : buffer.length ≤ counted.length := length_le_writeAt _ _ (by omega)
  have hcopied : counted.length ≤ copied.length := length_le_writeAt _ _ (by omega)
  have hwritten : copied.length ≤ (writeAt copied trailer.bytes 31424).length :=
    length_le_writeAt _ _ (by omega)
  have hunfold : writtenBlock stringMap stat trailer metadata =
      (writeAt copied trailer.bytes 31424).take 31496 := by
    rw [writtenBlock, getWritableBlock, hblock, htrailer, hreserved]
    rfl
  constructor
  · rw [hunfold, List.length_take]
    omega
  · have hfirst : ((writeAt copied trailer.bytes 31424).drop 0).take 688 =
        (buffer.drop 0).take 688 := by
      calc ((writeAt copied trailer.bytes 31424).drop 0).take 688
          = (copied.drop 0).take 688 := take_drop_writeAt_of_le _ _ (by omega) (by omega)
        _ = (counted.drop 0).take 688 := take_drop_writeAt_of_le _ _ (by omega) (by omega)
        _ = (buffer.drop 0).take 688 := take_drop_writeAt_of_le _ _ (by omega) (by omega)
    rw [hunfold, List.take_take, Nat.min_eq_left (by omega), hblock, hfield]
    rw [List.drop_zero, List.drop_zero] at hfirst
    rw [hfirst, List.take_append_of_le_length (by omega)]
    exact List.take_of_length_le (by omega)
  · have hat := take_drop_writeAt copied trailer.bytes (i := 31424) (by omega)
    rw [hunfold, hblock, hreserved, List.drop_take]
    rwa [show trailer.bytes.length = 31496 - 31424 by omega] at hat

end TrailerStatBlockWriter

end ObjectStorage.InfoFile
