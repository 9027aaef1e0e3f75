import ObjectStorage.Communication.MessageFormat

/-!
Messages sent one after the other on a connection are received one after the other, however the
connection cuts their bytes, up to the message in which it ends.
-/

namespace ObjectStorage.Communication

open Journal (leValue)

variable {M : Type} (io : IoType) (errDeSerialize : Bytes → Except String String)
  (deSerialize : Bytes → Except String M) {conn : Connection} {ending : List RecvResult}

/-! ### One message -/

theorem packet_eq (m : Int × Bytes) :
    packet m = (banner ++ (packInt m.1 ++ packInt m.2.length)) ++ m.2 := by
  simp [packet]

/-- The fields of a header in front of other bytes. -/
theorem deSerialize_packet {m : Int × Bytes} (h : Sendable m) (rest : Bytes) :
    HeaderMessage.deSerialize ((packet m ++ rest).take BANNER_SIZE) = some ⟨m.1, m.2.length⟩ := by
  have hsize : FitsInt32 m.2.length := by
    have := h.size
    unfold FitsInt32
    omega
  have hheader : (packet m ++ rest).take BANNER_SIZE =
      banner ++ (packInt m.1 ++ packInt m.2.length) := by
    rw [packet_eq, List.append_assoc]
    apply List.take_left'
    simp [banner, BANNER_SIZE]
  have htype : ((banner ++ (packInt m.1 ++ packInt m.2.length)).drop 5).take 4 = packInt m.1 := by
    rw [List.drop_left' (by rfl), List.take_left' (length_packInt _)]
  have hlength : (banner ++ (packInt m.1 ++ packInt m.2.length)).drop 9 = packInt m.2.length := by
    rw [← List.append_assoc]
    apply List.drop_left'
    simp [banner]
  rw [hheader, HeaderMessage.deSerialize, if_neg (by simp [banner, BANNER_SIZE]),
    if_neg (by simp [List.take_left' (show banner.length = 5 from rfl)]), htype, hlength,
    unpackInt_packInt h.type, unpackInt_packInt hsize]

/-- Connections that are not found silent by `recv_wait`. -/
theorem recvWait_of_closed {bytes : Bytes} (h : conn.Holds bytes [.closed]) :
    conn.recvWait io = true := by
  obtain ⟨chunks, hrecvs, -, -⟩ := h
  cases io with
  | eventIo => rfl
  | socketIo => simp [Connection.recvWait, hrecvs]

/-- A message in front is received, and nothing behind it is touched. -/
theorem getMessageObject_packet {m : Int × Bytes} (hm : Sendable m) {rest : Bytes}
    (h : conn.Holds (packet m ++ rest) ending) (hwait : conn.recvWait io = true) :
    ∃ conn', getMessageObject io errDeSerialize deSerialize conn =
        some (interpret errDeSerialize deSerialize m.1 m.2, conn') ∧ conn'.Holds rest ending := by
  obtain ⟨conn₁, hread₁, hholds₁⟩ := h.read (n := BANNER_SIZE) (by simp [BANNER_SIZE]; omega)
  have hbody : (packet m ++ rest).drop BANNER_SIZE = m.2 ++ rest := by
    rw [packet_eq, List.append_assoc]
    apply List.drop_left'
    simp [banner, BANNER_SIZE]
  rw [hbody] at hholds₁
  obtain ⟨conn₂, hread₂, hholds₂⟩ := hholds₁.read (n := m.2.length) (by simp)
  rw [List.take_left] at hread₂
  rw [List.drop_left] at hholds₂
  exact ⟨conn₂, by simp [getMessageObject, hwait, hread₁, deSerialize_packet hm, hread₂], hholds₂⟩

theorem getMessageObject_short {m : Int × Bytes} (hm : Sendable m) {n : Nat}
    (hn : n < (packet m).length) (h : conn.Holds ((packet m).take n) [.closed]) :
    ∃ conn', getMessageObject io errDeSerialize deSerialize conn =
      some ((readError, none), conn') := by
  have hwait := recvWait_of_closed io h
  have hlength : ((packet m).take n).length = n := List.length_take_of_le hn.le
  by_cases hheader : n < BANNER_SIZE
  · obtain ⟨conn₁, hread₁, -⟩ := h.read_closed (n := BANNER_SIZE) (by rw [hlength]; exact hheader)
    exact ⟨conn₁, by simp [getMessageObject, hwait, hread₁]⟩
  · have hle := not_lt.mp hheader
    obtain ⟨conn₁, hread₁, hholds₁⟩ := h.read (n := BANNER_SIZE) (by rw [hlength]; exact hle)
    have hfields := deSerialize_packet hm []
    rw [List.append_nil, ← Nat.min_eq_left hle, ← List.take_take] at hfields
    obtain ⟨conn₂, hread₂, -⟩ := hholds₁.read_closed (n := m.2.length) (by
      rw [List.length_drop, hlength]
      simp only [length_packet, BANNER_SIZE] at hn hle ⊢
      omega)
    exact ⟨conn₂, by simp [getMessageObject, hwait, hread₁, hfields, hread₂]⟩

/-! ### Many messages -/

/-- `send_message_object` of messages one after the other. -/
def sendMessages (write : Bytes → List SendResult → Option Written) :
    List (Int × Bytes) → List SendResult → Option (List SendEnd × Bytes × List SendResult)
  | [], sends => some ([], [], sends)
  | m :: messages, sends =>
      (sendMessageObject write m.1 (some m.2) sends).bind fun (ending, wire, sends) =>
        (sendMessages write messages sends).map fun (endings, wires, sends) =>
          (ending :: endings, wire ++ wires, sends)

/-- `get_message_object` into message objects one after the other. -/
def getMessages (io : IoType) (errDeSerialize : Bytes → Except String String) :
    List (Bytes → Except String M) → Connection → Option (List (Status × Option M) × Connection)
  | [], conn => some ([], conn)
  | deSerialize :: calls, conn =>
      (getMessageObject io errDeSerialize deSerialize conn).bind fun (result, conn) =>
        (getMessages io errDeSerialize calls conn).map fun (results, conn) =>
          (result :: results, conn)

/-- How many of the messages are in the first bytes as a whole. -/
def wholeMessages (n : Nat) : List (Int × Bytes) → Nat
  | [] => 0
  | m :: messages =>
      if (packet m).length ≤ n then wholeMessages (n - (packet m).length) messages + 1 else 0

def sent : SendEnd := .status ⟨.success, "Message sent Successfully"⟩

/-- A message that counts as sent is on the wire, or a part of it is missing there. -/
theorem sendMessageObject_wire {messageType : Int} {message wire : Bytes}
    {sends rest : List SendResult}
    (h : sendMessageObject SocketIo.write messageType (some message) sends =
      some (sent, wire, rest)) :
    Sendable (messageType, message) ∧ ∃ used, sends = used ++ rest ∧
      (.raised ∉ used → wire = packet (messageType, message)) ∧
      (.raised ∈ used → wire.length < (packet (messageType, message)).length) := by
  simp only [sendMessageObject] at h
  split at h
  · cases h
  · rename_i header hserialize
    obtain ⟨hsendable, hpacket⟩ := serialize_eq_some_iff.mp hserialize
    obtain ⟨w, hwrite, hend⟩ := Option.map_eq_some_iff.mp h
    split at hend
    · rename_i hcomplete
      cases hend
      obtain ⟨used, hused, hexact, hless⟩ := writeLoop_drop hwrite hcomplete
      rw [hpacket] at hexact hless
      exact ⟨hsendable, used, hused, fun hno => by simpa using hexact hno,
        fun hin => by simpa using hless hin⟩
    · cases hend

/-- Messages that all count as sent are on the wire one behind the other exactly if no `send`
raised. -/
theorem sendMessages_wire {messages : List (Int × Bytes)} {endings : List SendEnd} {wire : Bytes}
    {sends rest : List SendResult}
    (h : sendMessages SocketIo.write messages sends = some (endings, wire, rest))
    (hsent : ∀ e ∈ endings, e = sent) :
    (∀ m ∈ messages, Sendable m) ∧ ∃ used, sends = used ++ rest ∧
      (.raised ∉ used → wire = messages.flatMap packet) ∧
      (.raised ∈ used → wire.length < (messages.flatMap packet).length) := by
  induction messages generalizing sends endings wire with
  | nil =>
      cases h
      exact ⟨by simp, [], rfl, by simp, by simp⟩
  | cons m messages ih =>
      obtain ⟨⟨ending, first, sends'⟩, hfirst, h⟩ := Option.bind_eq_some_iff.mp h
      obtain ⟨⟨others, wires, sends''⟩, hothers, h⟩ := Option.map_eq_some_iff.mp h
      cases h
      obtain ⟨messageType, message⟩ := m
      rw [hsent ending List.mem_cons_self] at hfirst
      obtain ⟨hm, used, rfl, hexact, hless⟩ := sendMessageObject_wire hfirst
      obtain ⟨hms, used', rfl, hexact', hless'⟩ :=
        ih hothers fun e he => hsent e (List.mem_cons_of_mem _ he)
      have hle : first.length ≤ (packet (messageType, message)).length := by
        by_cases hin : .raised ∈ used
        · exact (hless hin).le
        · rw [hexact hin]
      have hle' : wires.length ≤ (messages.flatMap packet).length := by
        by_cases hin : .raised ∈ used'
        · exact (hless' hin).le
        · rw [hexact' hin]
      refine ⟨?_, used ++ used', (List.append_assoc ..).symm, fun hno => ?_, fun hin => ?_⟩
      · intro m' hm'
        rcases List.mem_cons.mp hm' with rfl | hin
        · exact hm
        · exact hms m' hin
      · rw [List.mem_append, not_or] at hno
        rw [List.flatMap_cons, hexact hno.1, hexact' hno.2]
      · rw [List.flatMap_cons, List.length_append, List.length_append]
        rcases List.mem_append.mp hin with hin | hin
        · have : first.length < (packet (messageType, message)).length := hless hin
          omega
        · have := hless' hin
          omega

/-- Whole messages are received in their order, each into its message object, and the bytes behind
them stay. -/
theorem getMessages_flatMap {messages : List (Int × Bytes)} (hms : ∀ m ∈ messages, Sendable m)
    {calls : List (Bytes → Except String M)} (hcalls : calls.length = messages.length)
    {rest : Bytes} (h : conn.Holds (messages.flatMap packet ++ rest) [.closed]) :
    ∃ conn', getMessages io errDeSerialize calls conn =
        some (calls.zipWith (fun call m => interpret errDeSerialize call m.1 m.2) messages, conn') ∧
      conn'.Holds rest [.closed] := by
  induction messages generalizing calls conn with
  | nil =>
      cases List.length_eq_zero_iff.mp hcalls
      exact ⟨conn, rfl, h⟩
  | cons m messages ih =>
      obtain ⟨call, calls, rfl⟩ := List.exists_cons_of_length_eq_add_one hcalls
      rw [List.flatMap_cons, List.append_assoc] at h
      obtain ⟨conn₁, hget, hholds⟩ := getMessageObject_packet io errDeSerialize call
        (hms m List.mem_cons_self) h (recvWait_of_closed io h)
      obtain ⟨conn₂, hgets, hrest⟩ := ih (fun m' hm' => hms m' (List.mem_cons_of_mem _ hm'))
        (Nat.succ.inj hcalls) hholds
      exact ⟨conn₂, by simp [getMessages, hget, hgets], hrest⟩

/-- The first bytes of messages one behind the other are whole messages and a part of the next. -/
theorem take_flatMap_packet (n : Nat) (messages : List (Int × Bytes)) :
    ∃ rest, (messages.flatMap packet).take n =
        (messages.take (wholeMessages n messages)).flatMap packet ++ rest ∧
      (rest = [] ∨ ∃ m ∈ messages, ∃ k < (packet m).length, rest = (packet m).take k) := by
  induction messages generalizing n with
  | nil => exact ⟨[], by simp [wholeMessages], .inl rfl⟩
  | cons m messages ih =>
      rw [wholeMessages, List.flatMap_cons]
      split
      · rename_i hle
        obtain ⟨rest, htake, hrest⟩ := ih (n - (packet m).length)
        refine ⟨rest, ?_, hrest.imp_right ?_⟩
        · rw [List.take_append, List.take_of_length_le hle, htake, List.take_succ_cons,
            List.flatMap_cons, List.append_assoc]
        · rintro ⟨m', hm', hpart⟩
          exact ⟨m', List.mem_cons_of_mem _ hm', hpart⟩
      · rename_i hle
        refine ⟨(packet m).take n, ?_, .inr ⟨m, List.mem_cons_self, n, not_le.mp hle, rfl⟩⟩
        rw [List.take_append_of_le_length (not_le.mp hle).le]
        rfl

theorem getMessageObject_end {rest : Bytes} (h : conn.Holds rest [.closed])
    (hrest : rest = [] ∨ ∃ m : Int × Bytes, Sendable m ∧ ∃ k < (packet m).length,
      rest = (packet m).take k) :
    ∃ conn', getMessageObject io errDeSerialize deSerialize conn =
      some ((readError, none), conn') := by
  rcases hrest with rfl | ⟨m, hm, k, hk, rfl⟩
  · apply getMessageObject_short io errDeSerialize deSerialize (m := (0, [])) (n := 0)
      ⟨by decide, by decide⟩ (by simp)
    simpa using h
  · exact getMessageObject_short io errDeSerialize deSerialize hm hk h

/-- Messages sent on a `SocketIo` whose `send` never raises: when the peer has got any first part of
the bytes, in any pieces, it receives the messages that are whole in it, in their order, and then a
read error. -/
theorem getMessages_sendMessages (messages : List (Int × Bytes)) (used rest : List SendResult)
    (endings : List SendEnd) (wire : Bytes)
    (hsend : sendMessages SocketIo.write messages (used ++ rest) = some (endings, wire, rest))
    (hsent : ∀ e ∈ endings, e = sent) (hsends : .raised ∉ used) (n : Nat)
    (hholds : conn.Holds (wire.take n) [.closed]) (calls : List (Bytes → Except String M))
    (hcalls : calls.length = messages.length) :
    let whole := wholeMessages n messages
    ∃ conn', getMessages io errDeSerialize (calls.take whole) conn =
        some ((calls.take whole).zipWith (fun call m => interpret errDeSerialize call m.1 m.2)
          (messages.take whole), conn') ∧
      ∃ conn'', getMessageObject io errDeSerialize deSerialize conn' =
        some ((readError, none), conn'') := by
  intro whole
  obtain ⟨hms, used', hused, hexact, -⟩ := sendMessages_wire hsend hsent
  obtain rfl := List.append_cancel_right hused
  rw [hexact hsends] at hholds
  obtain ⟨part, htake, hpart⟩ := take_flatMap_packet n messages
  rw [htake] at hholds
  obtain ⟨conn', hgets, hleft⟩ := getMessages_flatMap io errDeSerialize
    (fun m hm => hms m (List.mem_of_mem_take hm))
    (show (calls.take whole).length = (messages.take whole).length by simp [hcalls]) hholds
  refine ⟨conn', hgets,
    getMessageObject_end io errDeSerialize deSerialize hleft (hpart.imp_right ?_)⟩
  rintro ⟨m, hm, hshort⟩
  exact ⟨m, hms m hm, hshort⟩

/-- Two messages sent in pieces, of which the second ends within its header. -/
theorem getMessages_sendMessages_two :
    ∃ conn', getMessages .socketIo (fun _ => .ok "failed") [fun bytes => .ok bytes.length]
        ⟨[], [.chunk ((packet (9, [7, 7])).take 4), .chunk ((packet (9, [7, 7])).drop 4 ++ banner),
          .closed]⟩ = some ([(⟨.success, ""⟩, some 2)], conn') ∧
      ∃ conn'', getMessageObject .socketIo (fun _ => .ok "failed")
        (fun bytes => .ok bytes.length) conn' = some ((readError, none), conn'') :=
  getMessages_sendMessages .socketIo (fun _ => .ok "failed") (fun bytes => .ok bytes.length)
    [(9, [7, 7]), (255, [1])] [.accepted 6, .accepted 20, .accepted 14] [] [sent, sent]
    (packet (9, [7, 7]) ++ packet (255, [1])) (by decide) (by decide) (by decide) 20
    ⟨[(packet (9, [7, 7])).take 4, (packet (9, [7, 7])).drop 4 ++ banner], rfl, by decide,
      by decide⟩
    [fun bytes => .ok bytes.length, fun bytes => .ok bytes.length] rfl

end ObjectStorage.Communication
