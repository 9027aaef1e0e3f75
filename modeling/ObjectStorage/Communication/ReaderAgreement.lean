import ObjectStorage.Communication.MessageStream

/-!
The python services and the library write the same packets, and their readers take the same message
from the same bytes.
-/

namespace ObjectStorage.Communication

open Journal (leBytes leValue length_leBytes)

theorem packInt_toInt (type : UInt32) : packInt type.toInt32.toInt = leBytes 4 type.toNat := by
  have htype : type.toInt32.toInt = (type.toBitVec).toInt := rfl
  have hnat : type.toNat = type.toBitVec.toNat := rfl
  have hlt := type.toBitVec.isLt
  rw [packInt, htype, hnat, BitVec.toInt_eq_toNat_cond]
  congr 1
  split <;> omega

/-- Below 2 GiB the library sends what the python services send. -/
theorem packetize_eq_packet (message : Bytes) (type : UInt32) (h : message.length < 2 ^ 31) :
    packetize message type = packet (type.toInt32.toInt, message) := by
  have hsize : (UInt32.ofNat message.length).toNat = message.length := by
    rw [UInt32.toNat_ofNat']
    omega
  have hlength : packInt message.length = leBytes 4 message.length := by
    rw [packInt]
    congr 1
  simp only [packetize]
  rw [hsize, List.take_length, packet, packInt_toInt, hlength]

/-- The header in the first bytes, as both readers see it. -/
theorem deSerialize_take (stream : Bytes) (h : BANNER_SIZE ≤ stream.length) :
    HeaderMessage.deSerialize (stream.take BANNER_SIZE) =
      if verifyHeaders (stream.take BANNER_SIZE) then
        some ⟨unpackInt ((stream.drop 5).take 4), unpackInt ((stream.drop 9).take 4)⟩
      else none := by
  have htype : ((stream.take BANNER_SIZE).drop 5).take 4 = (stream.drop 5).take 4 := by
    rw [List.drop_take, List.take_take]
    rfl
  have hsize : (stream.take BANNER_SIZE).drop 9 = (stream.drop 9).take 4 := List.drop_take
  rw [HeaderMessage.deSerialize, List.length_take_of_le h, if_neg (not_not.mpr rfl), htype, hsize]
  by_cases hbanner : (stream.take BANNER_SIZE).take 5 = banner <;> simp [verifyHeaders, hbanner]

/-- On the same bytes, whose length field is below 2 GiB, `get_message_object` of the python
services has the message, the bad header or the early end that the library has. -/
theorem getMessageObject_getMsg {M : Type} (io : IoType)
    (errDeSerialize : Bytes → Except String String)
    (deSerialize : Bytes → Except String M) (conn : Connection) (stream : Bytes)
    (h : conn.Holds stream [.closed]) (hsize : leValue ((stream.drop 9).take 4) < 2 ^ 31) :
    match getMsg stream with
    | (.ok (type, payload), rest) => ∃ conn', getMessageObject io errDeSerialize deSerialize conn =
        some (interpret errDeSerialize deSerialize type.toInt32.toInt payload, conn') ∧
          conn'.Holds rest [.closed]
    | (.error .INVALID_HEADER, rest) => ∃ conn',
        getMessageObject io errDeSerialize deSerialize conn =
          some ((corruptedHeader, none), conn') ∧ conn'.Holds rest [.closed]
    | (.error .CONNECTION_ISSUE, _) => ∃ conn',
        getMessageObject io errDeSerialize deSerialize conn = some ((readError, none), conn') := by
  have hwait := recvWait_of_closed io h
  by_cases hheader : stream.length < BANNER_SIZE
  · rw [getMsg, if_pos hheader]
    obtain ⟨conn₁, hread₁, -⟩ := h.read_closed (n := BANNER_SIZE) hheader
    exact ⟨conn₁, by simp [getMessageObject, hwait, hread₁]⟩
  · have hle := not_lt.mp hheader
    obtain ⟨conn₁, hread₁, hholds₁⟩ := h.read (n := BANNER_SIZE) hle
    have hfields := deSerialize_take stream hle
    rw [getMsg, if_neg hheader]
    by_cases hbanner : verifyHeaders (stream.take BANNER_SIZE)
    · rw [hbanner] at hfields
      have hunpack : unpackInt ((stream.drop 9).take 4) = leValue ((stream.drop 9).take 4) := by
        simp only [unpackInt, hsize, ↓reduceIte]
      rw [if_pos rfl, hunpack] at hfields
      have htype : (UInt32.ofNat (leValue ((stream.drop 5).take 4))).toInt32.toInt =
          unpackInt ((stream.drop 5).take 4) := by
        apply toInt_toInt32_leValue
        apply List.length_take_of_le
        rw [List.length_drop]
        unfold BANNER_SIZE at hle
        omega
      simp only [hbanner, Bool.not_true, Bool.false_eq_true, ↓reduceIte]
      by_cases hshort : (stream.drop BANNER_SIZE).length < leValue ((stream.drop 9).take 4)
      · obtain ⟨conn₂, hread₂, -⟩ := hholds₁.read_closed hshort
        rw [if_pos hshort]
        exact ⟨conn₂, by simp [getMessageObject, hwait, hread₁, hfields, hread₂]⟩
      · obtain ⟨conn₂, hread₂, hholds₂⟩ := hholds₁.read (not_lt.mp hshort)
        rw [if_neg hshort]
        refine ⟨conn₂, ?_, hholds₂⟩
        rw [htype]
        simp [getMessageObject, hwait, hread₁, hfields, hread₂]
    · rw [if_neg hbanner] at hfields
      simp only [hbanner, Bool.not_false, ↓reduceIte]
      exact ⟨conn₁, by simp [getMessageObject, hwait, hread₁, hfields], hholds₁⟩

/-- A connection in two pieces, with a message and a byte behind it. -/
theorem getMessageObject_getMsg_two :
    leValue (((packet (9, [7, 7]) ++ [1]).drop 9).take 4) < 2 ^ 31 ∧
    ∃ conn', getMessageObject .socketIo (fun _ => .ok "failed") (fun bytes => .ok bytes.length)
        ⟨[], [.chunk ((packet (9, [7, 7])).take 4), .chunk ((packet (9, [7, 7])).drop 4 ++ [1]),
          .closed]⟩ =
      some ((⟨.success, ""⟩, some 2), conn') ∧ conn'.Holds [1] [.closed] :=
  ⟨by decide, getMessageObject_getMsg .socketIo (fun _ => .ok "failed")
    (fun bytes => .ok bytes.length) _ (packet (9, [7, 7]) ++ [1])
    ⟨[(packet (9, [7, 7])).take 4, (packet (9, [7, 7])).drop 4 ++ [1]], rfl, by decide, by decide⟩
    (by decide)⟩

end ObjectStorage.Communication
