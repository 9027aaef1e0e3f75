import ObjectStorage.Communication.Connection
import ObjectStorage.Journal.Framing

/-!
Messages on a connection: the header in front of a message, `MessageFormatManager` of the python
services, and `Protocol` with `MessageFormatHandler` of the library.
-/

namespace ObjectStorage.Communication

open Journal (leBytes leValue length_leBytes leValue_leBytes)

/-! ### The header -/

/-- `OSD01`. -/
def banner : Bytes := [79, 83, 68, 48, 49]

def BANNER_SIZE : Nat := 13

/-- The range of an `int32_t`. -/
def FitsInt32 (n : Int) : Prop := -2 ^ 31 ≤ n ∧ n < 2 ^ 31

instance decidableFitsInt32 (n : Int) : Decidable (FitsInt32 n) :=
  inferInstanceAs (Decidable (_ ∧ _))

/-- `struct.pack("<i", n)` of a number in the range. -/
def packInt (n : Int) : Bytes := leBytes 4 (n % 2 ^ 32).toNat

def unpackInt (bytes : Bytes) : Int :=
  let n := leValue bytes
  if n < 2 ^ 31 then n else n - 2 ^ 32

structure HeaderMessage where
  messageType : Int
  messageSize : Int
deriving DecidableEq

/-- `HeaderMessage.serialize`. `struct.pack` raises where a number is out of its range. -/
def HeaderMessage.serialize (h : HeaderMessage) : Option Bytes :=
  if FitsInt32 h.messageType ∧ FitsInt32 h.messageSize then
    some (banner ++ packInt h.messageType ++ packInt h.messageSize)
  else none

/-- `HeaderMessage.de_serialize` of a string that is not empty. It raises where `struct.unpack`
does or the banner is another one. -/
def HeaderMessage.deSerialize (msgStr : Bytes) : Option HeaderMessage :=
  if msgStr.length ≠ BANNER_SIZE then none
  else if msgStr.take 5 ≠ banner then none
  else some ⟨unpackInt ((msgStr.drop 5).take 4), unpackInt (msgStr.drop 9)⟩

/-! ### The python services -/

inductive IoType where
  | eventIo
  | socketIo
deriving DecidableEq

/-- The codes of `Resp` that the message handler returns on a connection. -/
inductive Resp where
  | success
  | networkTimeout
  | invalidSocket
  | socketReadError
  | noneBytes
  | corruptedHeader
  | corruptedMessage
  | serverError
deriving DecidableEq

structure Status where
  code : Resp
  message : String
deriving DecidableEq

/-- `recv_wait`: an `EventIo` does not wait, and a `SocketIo` polls its socket. -/
def Connection.recvWait (conn : Connection) : IoType → Bool
  | .eventIo => true
  | .socketIo => conn.recvs ≠ []

/-- `typeEnums.ERROR_MSG`. -/
def ERROR_MSG : Int := 255

section

variable {M : Type}

/-- What `get_message_object` makes of the bytes of a message: the message object is filled, or
stays as it is. The type is compared with that of an error only. `errDeSerialize` gives the text of
an `ErrMessage`, and both parsers the text of their exception. -/
def interpret (errDeSerialize : Bytes → Except String String)
    (deSerialize : Bytes → Except String M) (messageType : Int) (dataString : Bytes) :
    Status × Option M :=
  if dataString = [] then (⟨.noneBytes, "Nothing to de-serialize"⟩, none)
  else if messageType = ERROR_MSG then
    match errDeSerialize dataString with
    | .ok message => (⟨.serverError, message⟩, none)
    | .error ex => (⟨.corruptedMessage, ex⟩, none)
  else
    match deSerialize dataString with
    | .ok message => (⟨.success, ""⟩, some message)
    | .error ex => (⟨.corruptedMessage, ex⟩, none)

def readError : Status := ⟨.socketReadError, "Could not read from socket"⟩

def corruptedHeader : Status := ⟨.corruptedHeader, ""⟩

/-- `MessageFormatManager.get_message_object` on an open connection. It has no result where `recv`
never returns. -/
def getMessageObject (io : IoType) (errDeSerialize : Bytes → Except String String)
    (deSerialize : Bytes → Except String M) (conn : Connection) :
    Option ((Status × Option M) × Connection) :=
  if conn.recvWait io then
    (conn.read BANNER_SIZE).bind fun (header?, conn) =>
      match header? with
      | none => some ((readError, none), conn)
      | some dataString =>
          match HeaderMessage.deSerialize dataString with
          | none => some ((corruptedHeader, none), conn)
          | some msgHdr =>
              (conn.read msgHdr.messageSize).map fun (data?, conn) =>
                match data? with
                | none => ((readError, none), conn)
                | some dataString =>
                    (interpret errDeSerialize deSerialize msgHdr.messageType dataString, conn)
  else some ((⟨.networkTimeout, "Timeout occured while receving message"⟩, none), conn)

end

/-- How `send_message_object` ends. -/
inductive SendEnd where
  | status (s : Status)
  | serializationException
  /-- `struct.error` of the header, which nothing catches. -/
  | structError
deriving DecidableEq

/-- `MessageFormatManager.send_message_object` of a serialized message, or of one that cannot be
serialized: how it ends, and the bytes on the wire. -/
def sendMessageObject (write : Bytes → List SendResult → Option Written) (messageType : Int)
    (messageString : Option Bytes) (sends : List SendResult) :
    Option (SendEnd × Bytes × List SendResult) :=
  match messageString with
  | none => some (.serializationException, [], sends)
  | some messageString =>
      match HeaderMessage.serialize ⟨messageType, messageString.length⟩ with
      | none => some (.structError, [], sends)
      | some msgHdr =>
          (write (msgHdr ++ messageString) sends).map fun w =>
            match w.ending with
            | .complete => (.status ⟨.success, "Message sent Successfully"⟩, w.wire, w.sends)
            | .socketSentException => (.status ⟨.invalidSocket, ""⟩, w.wire, w.sends)

/-! ### The library -/

/-- `Protocol::packetize`, with the length that `std::string::size` becomes as a `uint32_t`. -/
def packetize (message : Bytes) (type : UInt32) : Bytes :=
  let size := UInt32.ofNat message.length
  banner ++ leBytes 4 type.toNat ++ leBytes 4 size.toNat ++ message.take size.toNat

/-- `Protocol::verify_headers`. -/
def verifyHeaders (headerString : Bytes) : Bool := headerString.take 5 = banner

inductive ReadFailure where
  | CONNECTION_ISSUE
  | INVALID_HEADER
deriving DecidableEq

/-- `MessageFormatHandler::get_message_object` without a timeout, on what the peer sends before it
closes: `boost::asio::read` takes as many bytes as asked for, or all there are and fails with
`eof`. -/
def getMsg (stream : Bytes) : Except ReadFailure (UInt32 × Bytes) × Bytes :=
  if stream.length < BANNER_SIZE then (.error .CONNECTION_ISSUE, [])
  else if !verifyHeaders (stream.take BANNER_SIZE) then
    (.error .INVALID_HEADER, stream.drop BANNER_SIZE)
  else
    let type := leValue ((stream.drop 5).take 4)
    let size := leValue ((stream.drop 9).take 4)
    let payload := stream.drop BANNER_SIZE
    if payload.length < size then (.error .CONNECTION_ISSUE, [])
    else (.ok (UInt32.ofNat type, payload.take size), payload.drop size)

/-! ### Packets -/

@[simp] theorem length_packInt (n : Int) : (packInt n).length = 4 := length_leBytes 4 _

theorem unpackInt_packInt {n : Int} (h : FitsInt32 n) : unpackInt (packInt n) = n := by
  unfold FitsInt32 at h
  have hvalue : (leValue (packInt n) : Int) = n % 2 ^ 32 := by
    rw [packInt, leValue_leBytes]
    omega
  simp only [unpackInt]
  split <;> omega

theorem leValue_lt (bytes : Bytes) : leValue bytes < 256 ^ bytes.length := by
  induction bytes with
  | nil => simp [leValue]
  | cons b bytes ih =>
      have := b.toNat_lt
      rw [leValue, List.length_cons, Nat.pow_succ]
      omega

/-- The library has the type as a `uint32_t`. -/
theorem toInt_toInt32_leValue {bytes : Bytes} (h : bytes.length = 4) :
    (UInt32.ofNat (leValue bytes)).toInt32.toInt = unpackInt bytes := by
  have hlt := leValue_lt bytes
  rw [h] at hlt
  have hlt : leValue bytes < 2 ^ 32 := hlt
  change (BitVec.ofNat 32 (leValue bytes)).toInt = unpackInt bytes
  rw [BitVec.toInt_eq_toNat_cond, BitVec.toNat_ofNat, Nat.mod_eq_of_lt hlt]
  simp only [unpackInt]
  split <;> split <;> omega

structure Sendable (m : Int × Bytes) : Prop where
  type : FitsInt32 m.1
  size : m.2.length < 2 ^ 31

/-- The header and the message behind it. -/
def packet (m : Int × Bytes) : Bytes :=
  banner ++ packInt m.1 ++ packInt m.2.length ++ m.2

@[simp] theorem length_packet (m : Int × Bytes) : (packet m).length = 13 + m.2.length := by
  simp [packet, banner]
  omega

theorem serialize_eq_some_iff {messageType : Int} {messageString header : Bytes} :
    HeaderMessage.serialize ⟨messageType, messageString.length⟩ = some header ↔
      Sendable (messageType, messageString) ∧
        header ++ messageString = packet (messageType, messageString) := by
  have hsize : FitsInt32 messageString.length ↔ messageString.length < 2 ^ 31 := by
    unfold FitsInt32
    omega
  rw [HeaderMessage.serialize, Option.ite_none_right_eq_some]
  constructor
  · rintro ⟨⟨htype, hlength⟩, hheader⟩
    rw [← Option.some.inj hheader]
    exact ⟨⟨htype, hsize.mp hlength⟩, rfl⟩
  · rintro ⟨hsend, hpacket⟩
    exact ⟨⟨hsend.type, hsize.mpr hsend.size⟩,
      congrArg some (List.append_cancel_right hpacket).symm⟩

end ObjectStorage.Communication
