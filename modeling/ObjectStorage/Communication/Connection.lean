import Mathlib

/-!
The byte streams under the messages of the services: `EventIo` and `SocketIo` write to a socket that
may take a part of what it is given, and read from one that hands over what has arrived.
-/

namespace ObjectStorage.Communication

abbrev Bytes := List UInt8

/-! ### Writing -/

/-- What one `send` of a socket does. -/
inductive SendResult where
  /-- It takes at most this many bytes. -/
  | accepted (count : Nat)
  /-- It raises `socket.timeout` or `socket.error`, which `write` logs. -/
  | raised
deriving DecidableEq

/-- How a `write` ends. -/
inductive WriteEnd where
  | complete
  | socketSentException
deriving DecidableEq

structure Written where
  ending : WriteEnd
  /-- The bytes that the socket has taken. -/
  wire : Bytes
  /-- The `send` results that are left. -/
  sends : List SendResult
deriving DecidableEq

/-- The loop of `write`. `sent` keeps its value where `send` raises. The loop has no result where
`send` never returns. -/
def writeLoop (size : Nat) (argument : Nat → Bytes) (sent totalSent : Nat) (wire : Bytes) :
    List SendResult → Option Written
  | [] => if totalSent < size then none else some ⟨.complete, wire, []⟩
  | result :: sends =>
      if totalSent < size then
        match result with
        | .accepted count =>
            let taken := min count (argument totalSent).length
            let wire := wire ++ (argument totalSent).take taken
            if taken = 0 then some ⟨.socketSentException, wire, sends⟩
            else writeLoop size argument taken (totalSent + taken) wire sends
        | .raised =>
            if sent = 0 then some ⟨.socketSentException, wire, sends⟩
            else writeLoop size argument sent (totalSent + sent) wire sends
      else some ⟨.complete, wire, result :: sends⟩

/-- `SocketIo.write`, which sends `data[total_sent:]`. -/
def SocketIo.write (data : Bytes) (sends : List SendResult) : Option Written :=
  writeLoop data.length (fun totalSent => data.drop totalSent) 0 0 [] sends

/-- `EventIo.write`, which sends `data`. -/
def EventIo.write (data : Bytes) (sends : List SendResult) : Option Written :=
  writeLoop data.length (fun _ => data) 0 0 [] sends

theorem writeLoop_of_le {size : Nat} {argument : Nat → Bytes} {sent totalSent : Nat} {wire : Bytes}
    {sends : List SendResult} (h : size ≤ totalSent) :
    writeLoop size argument sent totalSent wire sends = some ⟨.complete, wire, sends⟩ := by
  cases sends <;> simp [writeLoop, not_lt.mpr h]

/-- From `totalSent` on all bytes go out, or fewer if a `send` raises. -/
theorem writeLoop_drop {data : Bytes} {sent totalSent : Nat} {wire : Bytes}
    {sends : List SendResult} {w : Written}
    (h : writeLoop data.length (fun totalSent => data.drop totalSent) sent totalSent wire sends =
      some w) (hcomplete : w.ending = .complete) :
    ∃ used, sends = used ++ w.sends ∧
      (.raised ∉ used → w.wire = wire ++ data.drop totalSent) ∧
      (.raised ∈ used → w.wire.length < wire.length + (data.length - totalSent)) := by
  induction sends generalizing sent totalSent wire with
  | nil =>
      unfold writeLoop at h
      split at h
      · cases h
      · rename_i hdone
        cases h
        exact ⟨[], rfl, fun _ => by simp [List.drop_eq_nil_of_le (not_lt.mp hdone)], by simp⟩
  | cons result sends ih =>
      unfold writeLoop at h
      split at h
      · rename_i hmore
        cases result with
        | accepted count =>
            simp only at h
            split at h
            · cases h
              cases hcomplete
            · rename_i hsome
              have hpos : 0 < min count (data.drop totalSent).length := Nat.pos_of_ne_zero hsome
              have hlength : (data.drop totalSent).length = data.length - totalSent :=
                List.length_drop
              obtain ⟨used, hused, hexact, hless⟩ := ih h
              refine ⟨.accepted count :: used, by rw [hused, List.cons_append], fun hno => ?_,
                fun hin => ?_⟩
              · rw [hexact (fun hin => hno (List.mem_cons_of_mem _ hin)), List.append_assoc,
                  ← List.drop_drop, List.take_append_drop]
              · have hrest := hless ((List.mem_cons.mp hin).resolve_left (by simp))
                rw [List.length_append, List.length_take] at hrest
                omega
        | raised =>
            simp only at h
            split at h
            · cases h
              cases hcomplete
            · obtain ⟨used, hused, hexact, hless⟩ := ih h
              refine ⟨.raised :: used, by rw [hused, List.cons_append],
                fun hno => absurd List.mem_cons_self hno, fun _ => ?_⟩
              by_cases hin : .raised ∈ used
              · have := hless hin
                omega
              · rw [hexact hin, List.length_append, List.length_drop]
                omega
      · rename_i hdone
        cases h
        exact ⟨[], rfl, fun _ => by simp [List.drop_eq_nil_of_le (not_lt.mp hdone)], by simp⟩

/-- A completed `SocketIo.write` has sent the data exactly if no `send` raised: the bytes that the
`send` before took are counted again, and as many are left out. -/
theorem SocketIo.write_none_raised_iff (data wire : Bytes) (used sends : List SendResult)
    (h : SocketIo.write data (used ++ sends) = some ⟨.complete, wire, sends⟩) :
    wire = data ↔ .raised ∉ used := by
  obtain ⟨used', hused, hexact, hless⟩ := writeLoop_drop h rfl
  obtain rfl := List.append_cancel_right hused
  refine ⟨fun hwire hin => ?_, fun hno => by simpa using hexact hno⟩
  have := hless hin
  rw [hwire] at this
  simp at this

/-- The write of two bytes is complete with one of them sent. -/
theorem SocketIo.write_none_raised_iff_two :
    SocketIo.write [1, 2] [.accepted 1, .raised] = some ⟨.complete, [1], []⟩ ∧
    (([1] : Bytes) = [1, 2] ↔ .raised ∉ [SendResult.accepted 1, .raised]) :=
  ⟨by decide, SocketIo.write_none_raised_iff [1, 2] [1] [.accepted 1, .raised] [] (by decide)⟩

/-- Behind what has gone out, `EventIo` starts with the first byte again. -/
theorem writeLoop_const {data : Bytes} {sent totalSent : Nat} {wire : Bytes}
    {sends : List SendResult} {w : Written}
    (h : writeLoop data.length (fun _ => data) sent totalSent wire sends = some w) :
    ∃ tail, w.wire = wire ++ tail ∧ (tail = [] ∨ tail.head? = data.head?) := by
  induction sends generalizing sent totalSent wire with
  | nil =>
      unfold writeLoop at h
      split at h
      · cases h
      · cases h
        exact ⟨[], by simp, .inl rfl⟩
  | cons result sends ih =>
      unfold writeLoop at h
      split at h
      · cases result with
        | accepted count =>
            simp only at h
            split at h
            · rename_i hnone
              cases h
              exact ⟨_, rfl, .inl (by simp [hnone])⟩
            · rename_i hsome
              obtain ⟨tail, htail, -⟩ := ih h
              refine ⟨data.take (min count data.length) ++ tail, by rw [htail, List.append_assoc],
                .inr ?_⟩
              rw [List.head?_append, List.head?_take, if_neg hsome]
              cases data with
              | nil => simp at hsome
              | cons b data => rfl
        | raised =>
            simp only at h
            split at h
            · cases h
              exact ⟨[], by simp, .inl rfl⟩
            · exact ih h
      · cases h
        exact ⟨[], by simp, .inl rfl⟩

/-- A completed `EventIo.write` has sent the data exactly if its first `send` took all of it, where
the byte behind what that took is not the first byte of the data once more. -/
theorem EventIo.write_first_whole_iff (data wire : Bytes) (count : Nat)
    (sends rest : List SendResult) (hbyte : data[count]? ≠ data.head?)
    (h : EventIo.write data (.accepted count :: sends) = some ⟨.complete, wire, rest⟩) :
    wire = data ↔ data.length ≤ count := by
  have hne : 0 < data.length := by
    cases data with
    | nil => simp at hbyte
    | cons b data => simp
  unfold EventIo.write at h
  rw [writeLoop, if_pos hne] at h
  simp only [List.nil_append, Nat.zero_add] at h
  split at h
  · cases h
  · by_cases hle : data.length ≤ count
    · rw [Nat.min_eq_right hle, writeLoop_of_le le_rfl, List.take_length] at h
      cases h
      exact iff_of_true rfl hle
    · refine iff_of_false (fun hwire => hbyte ?_) hle
      obtain ⟨tail, htail, hhead⟩ := writeLoop_const h
      rw [Nat.min_eq_left (not_le.mp hle).le] at htail
      have hdrop : data.drop count = tail := by
        rw [show data = data.take count ++ tail from hwire.symm.trans htail,
          List.drop_left' (List.length_take_of_le (not_le.mp hle).le)]
      rw [← List.head?_drop, hdrop]
      refine hhead.resolve_left fun hnil => hle ?_
      exact List.drop_eq_nil_iff.mp (hdrop.trans hnil)

/-- A `send` that took one byte, and one that sent the first byte again. -/
theorem EventIo.write_first_whole_iff_two :
    EventIo.write [1, 2] [.accepted 1, .accepted 1] = some ⟨.complete, [1, 1], []⟩ ∧
    (([1, 1] : Bytes) = [1, 2] ↔ ([1, 2] : Bytes).length ≤ 1) :=
  ⟨by decide,
    EventIo.write_first_whole_iff [1, 2] [1, 1] 1 [.accepted 1] [] (by decide) (by decide)⟩

/-! ### Reading -/

/-- What one `recv` of a socket does. -/
inductive RecvResult where
  /-- It returns the bytes that have arrived. -/
  | chunk (bytes : Bytes)
  /-- The peer has closed the connection: it returns nothing, now and later. -/
  | closed
  /-- It raises `socket.error`. -/
  | raised
deriving DecidableEq

/-- A connection: the bytes read ahead, and what the coming `recv` calls do. Past the list nothing
arrives. -/
structure Connection where
  dataBytes : Bytes
  recvs : List RecvResult
deriving DecidableEq

/-- The loop of `read`: more is received until `size` bytes are there. It fails where `recv` raises
or returns nothing, and has no result where `recv` never returns. -/
def fill (size : Int) (dataBytes : Bytes) : List RecvResult → Option (Bool × Connection)
  | [] => if dataBytes.length < size then none else some (true, ⟨dataBytes, []⟩)
  | result :: recvs =>
      if dataBytes.length < size then
        match result with
        | .chunk bytes =>
            if bytes = [] then some (false, ⟨dataBytes, recvs⟩)
            else fill size (dataBytes ++ bytes) recvs
        | .closed => some (false, ⟨dataBytes, .closed :: recvs⟩)
        | .raised => some (false, ⟨dataBytes, recvs⟩)
      else some (true, ⟨dataBytes, result :: recvs⟩)

/-- Where `size` cuts the bytes. A negative one counts from their end. -/
def cut (size : Int) (bytes : Bytes) : Nat :=
  if size < 0 then bytes.length - size.natAbs else size.toNat

/-- `read` of both classes: the bytes, or nothing where it raises `SocketReadException`. -/
def Connection.read (conn : Connection) (size : Int) : Option (Option Bytes × Connection) :=
  (fill size conn.dataBytes conn.recvs).map fun (filled, conn) =>
    if filled then
      let at_ := cut size conn.dataBytes
      (some (conn.dataBytes.take at_), { conn with dataBytes := conn.dataBytes.drop at_ })
    else (none, conn)

/-- These bytes are still to be read, those that have not been received in pieces, and then come
other results of `recv` or none. -/
def Connection.Holds (conn : Connection) (bytes : Bytes) (ending : List RecvResult) : Prop :=
  ∃ chunks : List Bytes, conn.recvs = chunks.map .chunk ++ ending ∧ (∀ c ∈ chunks, c ≠ []) ∧
    bytes = conn.dataBytes ++ chunks.flatten

/-- Where enough bytes are still to come, the loop ends with as many, and none is lost. -/
theorem fill_of_le {size : Int} {dataBytes : Bytes} {chunks : List Bytes}
    (ending : List RecvResult) (hchunks : ∀ c ∈ chunks, c ≠ [])
    (hsize : size ≤ (dataBytes ++ chunks.flatten).length) :
    ∃ conn, fill size dataBytes (chunks.map .chunk ++ ending) = some (true, conn) ∧
      size ≤ conn.dataBytes.length ∧ conn.Holds (dataBytes ++ chunks.flatten) ending := by
  induction chunks generalizing dataBytes with
  | nil =>
      have hlength : ¬ ((dataBytes.length : Int) < size) := by simpa using hsize
      refine ⟨⟨dataBytes, ending⟩, ?_, not_lt.mp hlength, [], by simp, by simp, rfl⟩
      cases ending <;> simp [fill, hlength]
  | cons c chunks ih =>
      rw [List.map_cons, List.cons_append, fill]
      by_cases hlength : (dataBytes.length : Int) < size
      · rw [if_pos hlength]
        have hc : c ≠ [] := hchunks c List.mem_cons_self
        simp only [hc, ↓reduceIte]
        rw [List.flatten_cons, ← List.append_assoc] at hsize ⊢
        exact ih (fun c' hc' => hchunks c' (List.mem_cons_of_mem _ hc')) hsize
      · exact ⟨_, if_neg hlength, not_lt.mp hlength, c :: chunks, rfl, hchunks, rfl⟩

/-- Where the connection ends before, the loop fails with all of the bytes received. -/
theorem fill_of_lt {size : Int} {dataBytes : Bytes} {chunks : List Bytes}
    (hchunks : ∀ c ∈ chunks, c ≠ []) (hsize : (dataBytes ++ chunks.flatten).length < size) :
    fill size dataBytes (chunks.map .chunk ++ [.closed]) =
      some (false, ⟨dataBytes ++ chunks.flatten, [.closed]⟩) := by
  induction chunks generalizing dataBytes with
  | nil =>
      have hlength : (dataBytes.length : Int) < size := by simpa using hsize
      simp [fill, hlength]
  | cons c chunks ih =>
      have hlength : (dataBytes.length : Int) < size := by
        rw [List.length_append] at hsize
        omega
      have hc : c ≠ [] := hchunks c List.mem_cons_self
      rw [List.map_cons, List.cons_append, fill, if_pos hlength]
      simp only [hc, ↓reduceIte]
      rw [List.flatten_cons, ← List.append_assoc] at hsize ⊢
      exact ih (fun c' hc' => hchunks c' (List.mem_cons_of_mem _ hc')) hsize

theorem Connection.Holds.read {conn : Connection} {bytes : Bytes} {ending : List RecvResult}
    (h : conn.Holds bytes ending) {n : Nat} (hn : n ≤ bytes.length) :
    ∃ conn', conn.read n = some (some (bytes.take n), conn') ∧
      conn'.Holds (bytes.drop n) ending := by
  obtain ⟨chunks, hrecvs, hchunks, rfl⟩ := h
  obtain ⟨filled, hfill, hlength, rest, hrest, hpieces, hbytes⟩ :=
    fill_of_le ending hchunks (show (n : Int) ≤ _ by exact_mod_cast hn)
  have hle : n ≤ filled.dataBytes.length := by exact_mod_cast hlength
  have hcut : cut n filled.dataBytes = n := by simp [cut]
  refine ⟨{ filled with dataBytes := filled.dataBytes.drop n }, ?_, rest, hrest, hpieces, ?_⟩
  · rw [Connection.read, hrecvs, hfill, Option.map_some]
    simp only [↓reduceIte, hcut, hbytes]
    rw [List.take_append_of_le_length hle]
  · rw [hbytes, List.drop_append_of_le_length hle]

/-- No bytes are made up where the peer closes too early. -/
theorem Connection.Holds.read_closed {conn : Connection} {bytes : Bytes}
    (h : conn.Holds bytes [.closed]) {n : Nat} (hn : bytes.length < n) :
    ∃ conn', conn.read n = some (none, conn') ∧ conn'.Holds bytes [.closed] := by
  obtain ⟨chunks, hrecvs, hchunks, rfl⟩ := h
  refine ⟨⟨conn.dataBytes ++ chunks.flatten, [.closed]⟩, ?_, [], rfl, by simp, by simp⟩
  rw [Connection.read, hrecvs, fill_of_lt hchunks (by exact_mod_cast hn), Option.map_some]
  rfl

end ObjectStorage.Communication
