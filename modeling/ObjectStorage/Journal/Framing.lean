import Mathlib.Algebra.Order.Ring.Nat
import Mathlib.Data.Prod.Lex

/-!
The bytes of a journal: positions in its numbered files, and the frame that `Serializor` puts around
a record, with its markers and its length.
-/

namespace ObjectStorage.Journal

/-- A file id and an offset in that file, compared as `std::pair` compares them. -/
abbrev JournalOffset := Nat ×ₗ Nat

abbrev Bytes := List UInt8

/-! ### Numbers -/

/-- The low bytes of a number, the lowest first. -/
def leBytes : Nat → Nat → Bytes
  | 0, _ => []
  | width + 1, n => UInt8.ofNat n :: leBytes width (n / 256)

def leValue : Bytes → Nat
  | [] => 0
  | b :: bs => b.toNat + 256 * leValue bs

@[simp] theorem length_leBytes (width n : Nat) : (leBytes width n).length = width := by
  induction width generalizing n with
  | zero => rfl
  | succ width ih => simp [leBytes, ih]

theorem leValue_leBytes (width n : Nat) : leValue (leBytes width n) = n % 256 ^ width := by
  induction width generalizing n with
  | zero => simp [leBytes, leValue, Nat.mod_one]
  | succ width ih =>
      rw [leBytes, leValue, ih, Nat.pow_succ', Nat.mod_mul]
      simp [UInt8.toNat_ofNat']

/-- Eight bytes read as an `int64_t`. -/
def asInt64 (n : Nat) : Int :=
  if n < 2 ^ 63 then n else n - 2 ^ 64

/-! ### Frames -/

/-- `####`. -/
def startMarker : Bytes := [35, 35, 35, 35]

/-- `&&&&`. -/
def endMarker : Bytes := [38, 38, 38, 38]

/-- The byte `$` between records. -/
def padding : UInt8 := 36

def headerSize : Nat := 12

def footerSize : Nat := 4

/-- The size announced for a record of this payload. -/
def frameSize (payload : Bytes) : Nat := payload.length + headerSize + footerSize

/-- `Serializor::serialize`. -/
def frame (payload : Bytes) : Bytes :=
  startMarker ++ leBytes 8 (frameSize payload) ++ payload ++ endMarker

/-- `Deserializor::get_record_size`. -/
def recordSize (buffer : Bytes) : Int :=
  if buffer.take 4 = startMarker then asInt64 (leValue ((buffer.drop 4).take 8)) else -1

/-- The payload of a frame of the given size, if its end marker is there. -/
def payload? (buffer : Bytes) (size : Nat) : Option Bytes :=
  if ((buffer.take size).drop (size - footerSize)) = endMarker then
    some ((buffer.take (size - footerSize)).drop headerSize)
  else none

@[simp] theorem length_frame (payload : Bytes) : (frame payload).length = frameSize payload := by
  simp [frame, startMarker, endMarker, frameSize, headerSize, footerSize]
  omega

theorem headerSize_add_footerSize_le (payload : Bytes) : 16 ≤ frameSize payload := by
  unfold frameSize headerSize footerSize
  omega

theorem frame_eq_cons (payload : Bytes) : ∃ bs, frame payload = 35 :: bs := ⟨_, rfl⟩

theorem recordSize_of_take {payload buffer : Bytes} (hsize : frameSize payload < 2 ^ 63)
    (h : buffer.take headerSize = (frame payload).take headerSize) :
    recordSize buffer = frameSize payload := by
  have hfour : buffer.take 4 = startMarker := by
    have hcut := congrArg (List.take 4) h
    rw [List.take_take, List.take_take] at hcut
    exact hcut
  have height : (buffer.drop 4).take 8 = leBytes 8 (frameSize payload) := by
    have hcut := congrArg (List.drop 4) h
    rw [List.drop_take, List.drop_take] at hcut
    exact hcut
  have hvalue : leValue (leBytes 8 (frameSize payload)) = frameSize payload := by
    rw [leValue_leBytes]
    exact Nat.mod_eq_of_lt (hsize.trans_le (by decide))
  rw [recordSize, if_pos hfour, height, hvalue, asInt64, if_pos hsize]

theorem payload?_of_take {payload buffer : Bytes}
    (h : buffer.take (frameSize payload) = frame payload) :
    payload? buffer (frameSize payload) = some payload := by
  have hend : (frame payload).drop (frameSize payload - footerSize) = endMarker := by
    have hlength : frameSize payload - footerSize =
        (startMarker ++ leBytes 8 (frameSize payload) ++ payload).length := by
      simp [frameSize, startMarker, headerSize, footerSize]
      omega
    rw [frame, hlength, List.drop_left]
  have hbody : ((frame payload).take (frameSize payload - footerSize)).drop headerSize =
      payload := by
    have hlength : frameSize payload - footerSize =
        (startMarker ++ leBytes 8 (frameSize payload) ++ payload).length := by
      simp [frameSize, startMarker, headerSize, footerSize]
      omega
    have hheader : headerSize = (startMarker ++ leBytes 8 (frameSize payload)).length := by
      simp [headerSize, startMarker]
    rw [frame, hlength, List.take_left]
    nth_rewrite 1 [hheader]
    rw [List.drop_left]
  have htake : buffer.take (frameSize payload - footerSize) =
      (frame payload).take (frameSize payload - footerSize) := by
    rw [← h, List.take_take, Nat.min_eq_left (Nat.sub_le _ _)]
  rw [payload?, h, if_pos hend, htake, hbody]

end ObjectStorage.Journal
