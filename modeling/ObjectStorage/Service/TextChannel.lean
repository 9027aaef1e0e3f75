import ObjectStorage.Library.Splitting
import ObjectStorage.Service.RequestExclusion
import ObjectStorage.Transaction.LockViews

/-!
The text channel on which the transaction library sends its locks to the container service: the two
texts it writes, and the reader that takes them from a socket in pieces.
-/

namespace ObjectStorage.Service

open Std Library Routing Transaction

/-- A `char` for each byte. -/
abbrev Text := List Char

/-! ### Sending -/

/-- What is sent of a lock: the id under which the record is kept, and fields of the record. -/
structure SentLock where
  transactionId : Text
  objectName : Text
  objectId : Text
  requestMethod : Text
  time : Int
deriving DecidableEq

def number (n : Int) : Text := (toString n).toList

def separator : Text := ['$', '$', '$', '$']
def recordEnd : Text := ['#', '#', '#', '#']
def streamEnd : Text := ['&', '&', '&', '&']

def SentLock.head (lock : SentLock) : List Text :=
  [lock.transactionId, lock.objectName, lock.objectId, lock.requestMethod]

def SentLock.item (lock : SentLock) : Text :=
  lock.head.flatMap (· ++ [',']) ++ number lock.time ++ recordEnd

/-- The locks of the owned components, in the order of the maps. -/
def sentLocks (s : TransactionLockManager) : List SentLock :=
  s.memMap.toList.flatMap fun (_, records, owned) =>
    if owned then records.toList.map fun (transId, record) =>
      ⟨number transId, record.objectName.toList, record.objectId.toList,
        record.requestMethod.toList, record.time⟩
    else []

/-- The length of a body in front of it. -/
def withLength (body : Text) : Text := number body.length ++ body

def lockStream (locks : List SentLock) : Text :=
  let mapStr := locks.flatMap fun lock => separator ++ lock.item
  withLength ((if mapStr = [] then separator else mapStr) ++ streamEnd)

def getTransactionMapInString (s : TransactionLockManager) : Text := lockStream (sentLocks s)

/-- `get_bulk_delete_obj_list`, whatever the flags of the components. -/
def getBulkDeleteObjList (s : TransactionLockManager) : List Text :=
  s.memMap.toList.flatMap fun (_, records, _) =>
    (records.toList.filter fun e => e.2.requestMethod = "BULK_DELETE").map (·.2.objectName.toList)

def nameStream (names : List Text) : Text :=
  withLength (separator ++ names.flatMap (· ++ [':']) ++ separator)

def getBulkDeleteObjListInString (s : TransactionLockManager) : Text :=
  nameStream (getBulkDeleteObjList s)

/-! ### Receiving -/

/-- How the loop over `recv` ends: never, by `ValueError`, by the length of empty data, or with the
data. -/
inductive Received where
  | waits
  | failed
  | empty
  | data (totalData : Text)
deriving DecidableEq

/-- `int` of what precedes the separator in the first piece. -/
def announced (data : Text) : Option Int :=
  pythonInt (String.ofList ((split separator data).headD []))

/-- The loop after the first piece. A socket that the sender has closed gives empty pieces for
ever. -/
def receiveLoop (totalData : Text) (length : Int) : List Text → Received
  | [] => if length ≤ 0 then .data totalData else .waits
  | data :: pieces =>
      if length ≤ 0 then .data totalData
      else receiveLoop (totalData ++ data) (length - data.length) pieces

/-- The loop of `__get_data_recover` and `__process_bulk_delete_request`. -/
def receive : List Text → Received
  | [] => .failed
  | data :: pieces =>
      match announced data with
      | none => .failed
      | some length =>
          if length = 8 then .empty else receiveLoop data (length - data.length) pieces

/-- `float` of a time; the texts that come up here are numbers without fraction, or none. -/
def readTime (text : Text) : Option Int := pythonInt (String.ofList text)

/-- The fields of an item, unless one is missing or the time is no number. -/
def readItem (item : Text) : Option SentLock :=
  match split [','] item with
  | transId :: fullPath :: objServId :: operation :: recordTime :: _ =>
      (readTime ((split recordEnd recordTime).headD [])).map fun time =>
        ⟨transId, fullPath, objServId, operation, time⟩
  | _ => none

/-- The items that the loop of `recover_object_expired_id` goes through until one raises. -/
def readItems : List Text → List SentLock
  | [] => []
  | item :: items =>
      match readItem item with
      | none => []
      | some lock => lock :: readItems items

/-- The locks that `recover_object_expired_id` is given. -/
def receivedLocks : Received → List SentLock
  | .data totalData => readItems ((split separator totalData).drop 1)
  | _ => []

def maxExpTime : Int := 900

/-- Whether the object service is called for a lock, which is skipped while it has not expired and
when it is one of a bulk delete. -/
def SentLock.isDue (timeNow : Int) (lock : SentLock) : Bool :=
  ¬ timeNow - lock.time < maxExpTime ∧ lock.requestMethod ≠ "BULK_DELETE".toList

/-- What `recover_object_expired_id` does: the locks it goes through, and which of them it passes
on. -/
def handledLocks (timeNow : Int) (received : Received) : List (SentLock × Bool) :=
  (receivedLocks received).map fun lock => (lock, lock.isDue timeNow)

/-- The names in the list for the object service, which leaves the empty ones out. -/
def receivedNames : Received → List Text
  | .data totalData =>
      (((split separator totalData).drop 1).flatMap (split [':'])).filter (· ≠ [])
  | _ => []

/-! ### Numbers in the text -/

theorem isHexDigit_of_mem_toDigits {k : Nat} {c : Char} (hc : c ∈ Nat.toDigits 10 k) :
    c.isDigit = true := Nat.isDigit_of_mem_toDigits (by decide) (by decide) hc

theorem not_isStreamSpace_of_isDigit {c : Char} (h : c.isDigit = true) :
    isStreamSpace c = false := not_isStreamSpace_of_isHexDigit (isHexDigit_of_isDigit h)

theorem pythonInt_of_not_space {cs : Text} (h : ∀ c ∈ cs, isStreamSpace c = false) :
    pythonInt (String.ofList cs) =
      if (takeSign cs).2 ≠ [] ∧ (takeSign cs).2.all Char.isDigit = true then
        some (if (takeSign cs).1 = true then -(Nat.ofDigitChars 10 (takeSign cs).2 0 : Int)
          else (Nat.ofDigitChars 10 (takeSign cs).2 0 : Int))
      else none := by
  rw [pythonInt, String.toList_ofList, dropWhile_of_forall h,
    dropWhile_of_forall fun c hc => h c (List.mem_reverse.mp hc), List.reverse_reverse]

theorem pythonInt_digits {ds : Text} (h : ∀ c ∈ ds, c.isDigit = true) :
    pythonInt (String.ofList ds) =
      if ds = [] then none else some (Nat.ofDigitChars 10 ds 0 : Int) := by
  rw [pythonInt_of_not_space fun c hc => not_isStreamSpace_of_isDigit (h c hc),
    takeSign_digits fun c hc => isHexDigit_of_isDigit (h c hc)]
  by_cases hds : ds = []
  · simp [hds]
  · simp [hds, List.all_eq_true.mpr h]

theorem pythonInt_minus_digits {ds : Text} (h : ∀ c ∈ ds, c.isDigit = true) :
    pythonInt (String.ofList ('-' :: ds)) =
      if ds = [] then none else some (-(Nat.ofDigitChars 10 ds 0 : Int)) := by
  rw [pythonInt_of_not_space (List.forall_mem_cons.mpr ⟨by decide, fun c hc =>
    not_isStreamSpace_of_isDigit (h c hc)⟩), takeSign]
  by_cases hds : ds = []
  · simp [hds]
  · simp [hds, List.all_eq_true.mpr h]

theorem number_ofNat (k : Nat) : number (k : Int) = Nat.toDigits 10 k := by
  rw [number, Int.toString_eq_repr]
  exact Nat.toList_repr

theorem number_negSucc (k : Nat) : number (Int.negSucc k) = '-' :: Nat.toDigits 10 (k + 1) := by
  rw [number, Int.toString_eq_repr, Int.repr, String.toList_append, Nat.toList_repr]
  rfl

theorem mem_number {n : Int} {c : Char} (hc : c ∈ number n) : c.isDigit = true ∨ c = '-' := by
  cases n with
  | ofNat k => exact .inl (isHexDigit_of_mem_toDigits (number_ofNat k ▸ hc))
  | negSucc k =>
      rw [number_negSucc] at hc
      rcases List.mem_cons.mp hc with rfl | hc
      · exact .inr rfl
      · exact .inl (isHexDigit_of_mem_toDigits hc)

theorem not_mem_number {n : Int} {c : Char} (hc : c.isDigit = false) (hminus : c ≠ '-') :
    c ∉ number n := fun hmem => by
  rcases mem_number hmem with hdigit | heq
  · simp [hc] at hdigit
  · exact hminus heq

theorem number_ne_nil (n : Int) : number n ≠ [] := by
  cases n with
  | ofNat k =>
      intro h
      exact Nat.toDigits_ne_nil ((number_ofNat k).symm.trans h)
  | negSucc k => simp [number_negSucc]

/-- The digits that a number starts with have its value only when they are all. -/
theorem prefix_eq_toDigits {ds : Text} {k : Nat} (hstarts : ds <+: Nat.toDigits 10 k)
    (hne : ds ≠ []) (hvalue : Nat.ofDigitChars 10 ds 0 = k) : ds = Nat.toDigits 10 k := by
  obtain ⟨es, hes⟩ := hstarts
  have hwhole : Nat.ofDigitChars 10 (ds ++ es) 0 = k := by
    rw [hes]
    exact Nat.ofDigitChars_ten_toDigits
  rw [Nat.ofDigitChars_append, hvalue, Nat.ofDigitChars_eq_ofDigitChars_zero] at hwhole
  cases es with
  | nil => simpa using hes
  | cons e es =>
      have hk : k = 0 := by
        have hpow : 10 ^ 1 ≤ 10 ^ (e :: es).length :=
          Nat.pow_le_pow_right (by decide) (by simp)
        have hmul := Nat.mul_le_mul_right k hpow
        omega
      subst hk
      have hlength := congrArg List.length hes
      have hpos := List.length_pos_of_ne_nil hne
      have hzero : (Nat.toDigits 10 0).length = 1 := rfl
      simp only [List.length_append, List.length_cons, hzero] at hlength
      omega

theorem readTime_number (n : Int) : readTime (number n) = some n := by
  rw [readTime, number, String.ofList_toList]
  exact pythonInt_toString n

theorem eq_number_of_readTime {text : Text} {n : Int} (hstarts : text <+: number n)
    (h : readTime text = some n) : text = number n := by
  rw [readTime] at h
  cases n with
  | ofNat k =>
      have hnumber : number (Int.ofNat k) = Nat.toDigits 10 k := number_ofNat k
      rw [hnumber] at hstarts ⊢
      rw [pythonInt_digits fun c hc => isHexDigit_of_mem_toDigits (hstarts.subset hc)] at h
      split at h
      · cases h
      · exact prefix_eq_toDigits hstarts ‹_› (by simpa using h)
  | negSucc k =>
      rw [number_negSucc] at hstarts ⊢
      cases text with
      | nil =>
          have hnone : pythonInt (String.ofList []) = none := by decide
          rw [hnone] at h
          cases h
      | cons c ds =>
          obtain ⟨rfl, hds⟩ := List.cons_prefix_cons.mp hstarts
          rw [pythonInt_minus_digits fun c hc => isHexDigit_of_mem_toDigits (hds.subset hc)] at h
          split at h
          · cases h
          · exact congrArg _ (prefix_eq_toDigits hds ‹_› (by
              have := Option.some.inj h
              omega))

/-- A text with another character at its end is no number. -/
theorem readTime_concat {text : Text} {c : Char} (hne : text ≠ [])
    (hspace : ∀ d ∈ text ++ [c], isStreamSpace d = false) (hdigit : c.isDigit = false) :
    readTime (text ++ [c]) = none := by
  have hmem : c ∈ (takeSign (text ++ [c])).2 := by
    obtain ⟨d, ds, rfl⟩ := List.exists_cons_of_ne_nil hne
    rw [List.cons_append]
    unfold takeSign
    split
    · rename_i heq
      obtain ⟨-, rfl⟩ := List.cons.inj heq
      simp
    · rename_i heq
      obtain ⟨-, rfl⟩ := List.cons.inj heq
      simp
    · simp
  rw [readTime, pythonInt_of_not_space hspace, if_neg]
  rintro ⟨-, hall⟩
  have hdig := List.all_eq_true.mp hall c hmem
  simp [hdigit] at hdig

/-! ### Items -/

/-- No field of the lock contains what separates fields or locks. -/
def SentLock.Plain (lock : SentLock) : Prop :=
  ∀ field ∈ lock.head, ',' ∉ field ∧ ¬ separator <:+: field

theorem not_separator_within {text : Text} (h : '$' ∉ text) : ¬ separator <:+: text :=
  fun hwithin => h (hwithin.subset (by simp [separator]))

theorem not_infix_number_append (n : Int) {text : Text} (htext : ¬ separator <:+: text) :
    ¬ separator <:+: number n ++ text := by
  obtain ⟨digits, digit, heq⟩ := List.eq_nil_or_concat (number n) |>.resolve_left
    (number_ne_nil n)
  have hnot : '$' ∉ number n := not_mem_number (by decide) (by decide)
  rw [List.concat_eq_append] at heq
  rw [heq] at hnot ⊢
  rw [List.append_assoc, List.singleton_append]
  refine not_infix_append_cons (fun hmem => ?_)
    (not_separator_within fun hmem => hnot (by simp [hmem])) htext
  have hdollar : digit = '$' := by simpa [separator] using hmem
  simp [hdollar] at hnot

theorem free_number (n : Int) : Free separator (number n) := by
  obtain ⟨digits, digit, heq⟩ := List.eq_nil_or_concat (number n) |>.resolve_left
    (number_ne_nil n)
  have hnot : '$' ∉ number n := not_mem_number (by decide) (by decide)
  rw [List.concat_eq_append] at heq
  rw [heq] at hnot ⊢
  refine free_append_singleton (fun hmem => ?_)
    (not_separator_within fun hmem => hnot (by simp [hmem]))
  have hdollar : digit = '$' := by simpa [separator] using hmem
  simp [hdollar] at hnot

theorem not_infix_flatMap {fields : List Text} (h : ∀ field ∈ fields, ¬ separator <:+: field)
    {text : Text} (htext : ¬ separator <:+: text) :
    ¬ separator <:+: fields.flatMap (· ++ [',']) ++ text := by
  induction fields with
  | nil => exact htext
  | cons field fields ih =>
      have hfield := h field List.mem_cons_self
      have hrest := ih fun field' hfield' => h field' (List.mem_cons_of_mem _ hfield')
      simpa using not_infix_append_cons (by decide) hfield hrest

theorem item_concat (lock : SentLock) :
    lock.item =
      lock.head.flatMap (· ++ [',']) ++ (number lock.time ++ ['#', '#', '#']) ++ ['#'] := by
  simp [SentLock.item, recordEnd]

theorem SentLock.Plain.not_within {lock : SentLock} (h : lock.Plain) :
    ¬ separator <:+: lock.head.flatMap (· ++ [',']) ++ (number lock.time ++ ['#', '#', '#']) := by
  refine not_infix_flatMap (fun field hfield => (h field hfield).2) (not_separator_within ?_)
  have hnot : '$' ∉ number lock.time := not_mem_number (by decide) (by decide)
  simp [hnot]

theorem SentLock.Plain.free {lock : SentLock} (h : lock.Plain) : Free separator lock.item :=
  item_concat lock ▸ free_append_singleton (by decide) h.not_within

theorem SentLock.Plain.not_infix_append {lock : SentLock} (h : lock.Plain) {text : Text}
    (htext : ¬ separator <:+: text) : ¬ separator <:+: lock.item ++ text := by
  rw [item_concat, List.append_assoc, List.singleton_append]
  exact not_infix_append_cons (by decide) h.not_within htext

theorem readItem_head {lock : SentLock} (h : lock.Plain) {text : Text} (htext : ',' ∉ text) :
    readItem (lock.head.flatMap (· ++ [',']) ++ text) =
      (readTime ((split recordEnd text).headD [])).map fun time => { lock with time := time } := by
  have hsplit : split [','] (lock.head.flatMap (· ++ [',']) ++ text) = lock.head ++ [text] := by
    rw [split_flatMap_append (by simp) fun field hfield => free_singleton (h field hfield).1,
      split_of_not_within fun hwithin => htext (hwithin.subset List.mem_cons_self)]
  rw [readItem, hsplit]
  rfl

theorem split_recordEnd_number (n : Int) {text : Text} (htext : ¬ recordEnd <:+: text) :
    split recordEnd (number n ++ text) = [number n ++ text] := by
  obtain ⟨digits, digit, heq⟩ := List.eq_nil_or_concat (number n) |>.resolve_left
    (number_ne_nil n)
  have hnot : '#' ∉ number n := not_mem_number (by decide) (by decide)
  rw [List.concat_eq_append] at heq
  rw [heq] at hnot ⊢
  refine split_of_not_within ?_
  rw [List.append_assoc, List.singleton_append]
  refine not_infix_append_cons (fun hmem => ?_) (fun hwithin => ?_) htext
  · have hhash : digit = '#' := by simpa [recordEnd] using hmem
    simp [hhash] at hnot
  · have hmem : '#' ∈ digits := hwithin.subset (by simp [recordEnd])
    simp [hmem] at hnot

theorem readItem_item {lock : SentLock} (h : lock.Plain) {text : Text} (htext : ',' ∉ text) :
    readItem (lock.item ++ text) = some lock := by
  have hcomma : ',' ∉ number lock.time := not_mem_number (by decide) (by decide)
  have hfree : Free recordEnd (number lock.time) := by
    intro us vs heq hvs hstarts
    obtain ⟨v, vs, rfl⟩ := List.exists_cons_of_ne_nil hvs
    obtain ⟨hhash, -⟩ := List.cons_prefix_cons.mp hstarts
    have hnot : '#' ∉ number lock.time := not_mem_number (by decide) (by decide)
    exact hnot (heq ▸ hhash ▸ by simp)
  rw [SentLock.item, List.append_assoc, List.append_assoc, ← List.append_assoc (number _),
    readItem_head h (by simp [hcomma, htext, recordEnd]),
    split_append_sep (by simp [recordEnd]) hfree]
  simp [readTime_number]

theorem readItem_unmarked {lock : SentLock} (h : lock.Plain) :
    readItem (lock.head.flatMap (· ++ [',']) ++ number lock.time) = some lock := by
  have hcomma : ',' ∉ number lock.time := not_mem_number (by decide) (by decide)
  have hsplit := split_recordEnd_number lock.time (by decide : ¬ recordEnd <:+: ([] : Text))
  rw [List.append_nil] at hsplit
  rw [readItem_head h hcomma, hsplit]
  simp [readTime_number]

theorem readItem_of_few_fields {text : Text} (h : (split [','] text).length ≤ 4) :
    readItem text = none := by
  unfold readItem
  split
  · rename_i heq
    rw [heq] at h
    simp only [List.length_cons] at h
    omega
  · rfl

/-- A part of the last field and of the marks is read as the time only up to a mark. -/
theorem readTime_part {n : Int} {k : Nat} :
    readTime ((split recordEnd ((number n ++ (recordEnd ++ streamEnd)).take k)).headD []) = some n →
      k = (number n).length ∨ (number n).length + 4 ≤ k := by
  intro h
  have hnot : '#' ∉ number n := not_mem_number (by decide) (by decide)
  rw [List.take_append] at h
  by_cases hshort : k ≤ (number n).length
  · have hsplit : split recordEnd ((number n).take k) = [(number n).take k] :=
      split_of_not_within fun hwithin =>
        hnot (List.mem_of_mem_take (hwithin.subset (by simp [recordEnd])))
    rw [Nat.sub_eq_zero_of_le hshort, List.take_zero, List.append_nil, hsplit] at h
    have hwhole := congrArg List.length (eq_number_of_readTime (List.take_prefix k _) h)
    rw [List.length_take] at hwhole
    omega
  · by_cases hmark : (number n).length + 4 ≤ k
    · exact .inr hmark
    · -- one to three characters of the mark
      exfalso
      have hmarks : ∃ text : Text, ¬ recordEnd <:+: text ++ ['#'] ∧ (∀ c ∈ text, c = '#') ∧
          (recordEnd ++ streamEnd).take (k - (number n).length) = text ++ ['#'] := by
        have hk : k - (number n).length = 1 ∨ k - (number n).length = 2 ∨
            k - (number n).length = 3 := by omega
        rcases hk with hk | hk | hk <;> rw [hk]
        · exact ⟨[], by decide, by simp, by decide⟩
        · exact ⟨['#'], by decide, by simp, by decide⟩
        · exact ⟨['#', '#'], by decide, by simp, by decide⟩
      obtain ⟨text, hwithin, hall, heq⟩ := hmarks
      rw [List.take_of_length_le (by omega), heq, split_recordEnd_number n hwithin] at h
      simp only [List.headD_cons, ← List.append_assoc] at h
      rw [readTime_concat (by simp [number_ne_nil]) ?_ (by decide)] at h
      · cases h
      · intro d hd
        rcases List.mem_append.mp hd with hd | hd
        · rcases List.mem_append.mp hd with hd | hd
          · rcases mem_number hd with hdigit | rfl
            · exact not_isStreamSpace_of_isDigit hdigit
            · decide
          · rw [hall d hd]
            decide
        · obtain rfl := List.mem_singleton.mp hd
          decide

/-- A part of the item of a lock and of the mark of the stream is read as the lock exactly when it
has all of the item, or lacks just the mark of the item. -/
theorem readItem_take {lock : SentLock} (h : lock.Plain) (k : Nat) :
    readItem ((lock.item ++ streamEnd).take k) = some lock ↔
      lock.item.length ≤ k ∨ k + 4 = lock.item.length := by
  have hlength : lock.item.length = (lock.head.flatMap (· ++ [','])).length +
      (number lock.time).length + 4 := by
    simp [SentLock.item, recordEnd]
    omega
  have htext : lock.item ++ streamEnd = lock.head.flatMap (· ++ [',']) ++
      (number lock.time ++ (recordEnd ++ streamEnd)) := by
    simp [SentLock.item]
  constructor
  · intro hread
    by_cases hhead : k < (lock.head.flatMap (· ++ [','])).length
    · -- the comma before the time is missing
      exfalso
      obtain ⟨id, name, objectId, method, time⟩ := lock
      have hshape : SentLock.head ⟨id, name, objectId, method, time⟩ =
          [id, name, objectId] ++ [method] := rfl
      have hstarts : ((⟨id, name, objectId, method, time⟩ : SentLock).item ++ streamEnd).take k <+:
          [id, name, objectId].flatMap (· ++ [',']) ++ method := by
        refine List.prefix_of_prefix_length_le (List.take_prefix k _) ?_ ?_
        · rw [htext, hshape]
          exact ⟨',' :: (number time ++ (recordEnd ++ streamEnd)), by simp⟩
        · rw [hshape] at hhead
          simp only [List.flatMap_append, List.length_append, List.flatMap_singleton,
            List.length_cons, List.length_nil] at hhead
          simp only [List.length_take, List.length_append]
          omega
      obtain ⟨rest, hrest⟩ := hstarts
      have hle := length_split_le (by simp : [','] ≠ [])
        (((⟨id, name, objectId, method, time⟩ : SentLock).item ++ streamEnd).take k) rest
      rw [hrest, split_flatMap_append (by simp) fun field hfield =>
          free_singleton (h field (hshape ▸ List.mem_append_left _ hfield)).1,
        split_of_not_within fun hwithin => (h method (by simp [SentLock.head])).1
          (hwithin.subset List.mem_cons_self)] at hle
      rw [readItem_of_few_fields hle] at hread
      cases hread
    · rw [htext, List.take_append, List.take_of_length_le (Nat.le_of_not_lt hhead)] at hread
      have hcomma : ',' ∉ number lock.time ++ (recordEnd ++ streamEnd) := by
        have hnot : ',' ∉ number lock.time := not_mem_number (by decide) (by decide)
        simp [hnot, recordEnd, streamEnd]
      rw [readItem_head h fun hmem => hcomma (List.mem_of_mem_take hmem)] at hread
      obtain ⟨time, htime, heq⟩ := Option.map_eq_some_iff.mp hread
      have hsame : time = lock.time := congrArg SentLock.time heq
      rw [hsame] at htime
      have hpart := readTime_part htime
      omega
  · rintro (hwhole | hunmarked)
    · rw [List.take_append, List.take_of_length_le hwhole]
      exact readItem_item h fun hmem => absurd (List.mem_of_mem_take hmem) (by decide)
    · have htake : (lock.item ++ streamEnd).take k =
          lock.head.flatMap (· ++ [',']) ++ number lock.time := by
        rw [htext, ← List.append_assoc]
        refine List.take_left' ?_
        rw [List.length_append]
        omega
      rw [htake]
      exact readItem_unmarked h

/-! ### The stream of the locks -/

theorem separator_ne_nil : separator ≠ [] := by simp [separator]

theorem plain_of_readItem {item : Text} {lock : SentLock} (hitem : ¬ separator <:+: item)
    (h : readItem item = some lock) : lock.Plain := by
  unfold readItem at h
  split at h
  · rename_i id name objectId method time rest heq
    obtain ⟨t, -, rfl⟩ := Option.map_eq_some_iff.mp h
    intro field hfield
    have hmem : field ∈ split [','] item := by
      rw [heq]
      exact List.mem_append_left (time :: rest) hfield
    obtain ⟨hwithin, hcomma⟩ := infix_of_mem_split (by simp) hmem
    refine ⟨fun hin => hcomma ?_, fun hsep => hitem (hsep.trans hwithin)⟩
    obtain ⟨us, vs, rfl⟩ := List.append_of_mem hin
    exact ⟨us, vs, by simp⟩
  · cases h

theorem exists_of_mem_readItems {items : List Text} {lock : SentLock}
    (h : lock ∈ readItems items) : ∃ item ∈ items, readItem item = some lock := by
  induction items with
  | nil => cases h
  | cons item items ih =>
      unfold readItems at h
      split at h
      · cases h
      · rcases List.mem_cons.mp h with rfl | hin
        · exact ⟨item, List.mem_cons_self, ‹_›⟩
        · obtain ⟨item', hitem', hread⟩ := ih hin
          exact ⟨item', List.mem_cons_of_mem _ hitem', hread⟩

theorem length_readItems_le (items : List Text) : (readItems items).length ≤ items.length := by
  induction items with
  | nil => exact Nat.le_refl _
  | cons item items ih =>
      unfold readItems
      split
      · simp
      · exact Nat.succ_le_succ ih

theorem readItems_append {locks : List SentLock} (h : ∀ lock ∈ locks, lock.Plain)
    (items : List Text) :
    readItems (locks.map (·.item) ++ items) = locks ++ readItems items := by
  induction locks with
  | nil => rfl
  | cons lock locks ih =>
      have hread := readItem_item (h lock List.mem_cons_self) (by simp : ',' ∉ ([] : Text))
      rw [List.append_nil] at hread
      rw [List.map_cons, List.cons_append, readItems, hread,
        ih fun lock' hlock' => h lock' (List.mem_cons_of_mem _ hlock')]
      rfl

/-- What is in front of the last lock and its separator. -/
def lockFront (locks : List SentLock) (length : Nat) : Text :=
  number length ++ locks.flatMap fun lock => separator ++ lock.item

theorem lockStream_concat (locks : List SentLock) (last : SentLock) :
    ∃ length : Nat, lockStream (locks ++ [last]) =
      lockFront locks length ++ (separator ++ (last.item ++ streamEnd)) := by
  have hne : (locks ++ [last]).flatMap (fun lock => separator ++ lock.item) ≠ [] := by
    simp [separator]
  refine ⟨((locks ++ [last]).flatMap (fun lock => separator ++ lock.item) ++ streamEnd).length, ?_⟩
  rw [lockStream, if_neg hne, withLength, lockFront]
  simp

theorem lockFront_eq (locks : List SentLock) (length : Nat) (text : Text) :
    lockFront locks length ++ (separator ++ text) =
      (number length :: locks.map (·.item)).flatMap (· ++ separator) ++ text := by
  rw [← append_flatMap_sep, lockFront]
  simp [List.flatMap_map]

theorem length_split_lockFront {locks : List SentLock} (h : ∀ lock ∈ locks, lock.Plain)
    (length : Nat) :
    (split separator (lockFront locks length ++ ['$', '$', '$'])).length = locks.length + 1 := by
  rcases List.eq_nil_or_concat locks with rfl | ⟨init, last, rfl⟩
  · have hfront : lockFront [] length ++ ['$', '$', '$'] = number length ++ ['$', '$', '$'] := by
      simp [lockFront]
    have hwithin := not_infix_number_append length
      (by decide : ¬ separator <:+: ['$', '$', '$'])
    rw [hfront, split_of_not_within hwithin]
    rfl
  · rw [List.concat_eq_append] at h ⊢
    have hfront : lockFront (init ++ [last]) length ++ ['$', '$', '$'] =
        lockFront init length ++ (separator ++ (last.item ++ ['$', '$', '$'])) := by
      simp [lockFront]
    rw [hfront, lockFront_eq, split_flatMap_append separator_ne_nil,
      split_of_not_within ((h last (by simp)).not_infix_append (by decide))]
    · simp
    · intro part hpart
      rcases List.mem_cons.mp hpart with rfl | hpart
      · exact free_number _
      · obtain ⟨lock, hlock, rfl⟩ := List.mem_map.mp hpart
        exact (h lock (List.mem_append_left _ hlock)).free

/-- The locks that are read of a part of the stream are the ones that were sent exactly when no
field contains a separator, and nothing but the mark of the stream, or both marks, is missing. -/
theorem receivedLocks_take {locks : List SentLock} (hne : locks ≠ []) {b : Nat}
    (hb : b ≤ (lockStream locks).length) :
    receivedLocks (.data ((lockStream locks).take b)) = locks ↔
      (∀ lock ∈ locks, lock.Plain) ∧
        ((lockStream locks).length ≤ b + 4 ∨ (lockStream locks).length = b + 8) := by
  obtain ⟨init, last, rfl⟩ := (List.eq_nil_or_concat locks).resolve_left hne
  rw [List.concat_eq_append] at hb ⊢
  obtain ⟨length, hstream⟩ := lockStream_concat init last
  rw [hstream] at hb ⊢
  have hclean : receivedLocks (.data ((lockFront init length ++
      (separator ++ (last.item ++ streamEnd))).take b)) = init ++ [last] →
      ∀ lock ∈ init ++ [last], lock.Plain := by
    intro hread lock hlock
    rw [← hread] at hlock
    obtain ⟨item, hitem, hlock⟩ := exists_of_mem_readItems hlock
    exact plain_of_readItem (infix_of_mem_split separator_ne_nil (List.mem_of_mem_drop hitem)).2
      hlock
  suffices hiff : (∀ lock ∈ init ++ [last], lock.Plain) → (receivedLocks (.data
      ((lockFront init length ++ (separator ++ (last.item ++ streamEnd))).take b)) =
        init ++ [last] ↔
      ((lockFront init length ++ (separator ++ (last.item ++ streamEnd))).length ≤ b + 4 ∨
        (lockFront init length ++ (separator ++ (last.item ++ streamEnd))).length = b + 8)) by
    exact ⟨fun h => ⟨hclean h, (hiff (hclean h)).mp h⟩, fun h => (hiff h.1).mpr h.2⟩
  intro hplain
  have hlength : (lockFront init length ++ (separator ++ (last.item ++ streamEnd))).length =
      (lockFront init length).length + 4 + last.item.length + 4 := by
    simp [separator, streamEnd]
    omega
  have hitem : 4 ≤ last.item.length := by
    simp only [SentLock.item, recordEnd, List.length_append, List.length_cons]
    omega
  by_cases hb' : b < (lockFront init length).length + 4
  · -- the last lock has not begun
    have hstarts : (lockFront init length ++ (separator ++ (last.item ++ streamEnd))).take b <+:
        lockFront init length ++ ['$', '$', '$'] := by
      refine List.prefix_of_prefix_length_le (List.take_prefix b _)
        ⟨'$' :: (last.item ++ streamEnd), by simp [separator]⟩ ?_
      simp only [List.length_take, List.length_append, List.length_cons, List.length_nil]
      omega
    obtain ⟨rest, hrest⟩ := hstarts
    have hfew := length_split_le separator_ne_nil
      ((lockFront init length ++ (separator ++ (last.item ++ streamEnd))).take b) rest
    rw [hrest, length_split_lockFront fun lock hlock =>
      hplain lock (List.mem_append_left _ hlock)] at hfew
    refine iff_of_false (fun hread => ?_) (by omega)
    have hmany := congrArg List.length hread
    have hle := length_readItems_le ((split separator ((lockFront init length ++
      (separator ++ (last.item ++ streamEnd))).take b)).drop 1)
    rw [List.length_drop] at hle
    rw [receivedLocks] at hmany
    rw [hmany, List.length_append, List.length_singleton] at hle
    omega
  · obtain ⟨k, rfl⟩ := Nat.exists_eq_add_of_le (Nat.le_of_not_lt hb')
    have htake : (lockFront init length ++ (separator ++ (last.item ++ streamEnd))).take
        ((lockFront init length).length + 4 + k) =
        lockFront init length ++ (separator ++ (last.item ++ streamEnd).take k) := by
      have hsep : separator.length = 4 := rfl
      rw [Nat.add_assoc, List.take_length_add_append, ← hsep, List.take_length_add_append]
    have hwithin : ¬ separator <:+: (last.item ++ streamEnd).take k := fun hwithin =>
      (hplain last (by simp)).not_infix_append (by decide : ¬ separator <:+: streamEnd)
        (hwithin.trans (List.take_prefix k _).isInfix)
    have hread : receivedLocks (.data (lockFront init length ++
        (separator ++ (last.item ++ streamEnd).take k))) =
        init ++ readItems [(last.item ++ streamEnd).take k] := by
      rw [receivedLocks, lockFront_eq, split_flatMap_append separator_ne_nil,
        split_of_not_within hwithin]
      · exact readItems_append (fun lock hlock => hplain lock (List.mem_append_left _ hlock)) _
      · intro part hpart
        rcases List.mem_cons.mp hpart with rfl | hpart
        · exact free_number _
        · obtain ⟨lock, hlock, rfl⟩ := List.mem_map.mp hpart
          exact (hplain lock (List.mem_append_left _ hlock)).free
    have hlast : readItems [(last.item ++ streamEnd).take k] = [last] ↔
        readItem ((last.item ++ streamEnd).take k) = some last := by
      unfold readItems
      split
      · simp [*]
      · simp [*, readItems]
    rw [htake, hread, List.append_right_inj, hlast, readItem_take (hplain last (by simp)), hlength]
    omega

/-! ### The stream of the names -/

/-- A name that is neither empty nor contains what separates names. -/
def PlainName (name : Text) : Prop :=
  name ≠ [] ∧ ':' ∉ name ∧ ¬ separator <:+: name

theorem not_infix_names {names : List Text} (h : ∀ name ∈ names, PlainName name) {text : Text}
    (htext : ¬ separator <:+: text) :
    ¬ separator <:+: names.flatMap (· ++ [':']) ++ text := by
  induction names with
  | nil => exact htext
  | cons name names ih =>
      have hrest := ih fun name' hname' => h name' (List.mem_cons_of_mem _ hname')
      simpa using not_infix_append_cons (by decide) (h name List.mem_cons_self).2.2 hrest

/-- The parts between the colons, of what comes before the separator at the end. -/
def namesOf (text : Text) : List Text := (split [':'] text).filter (· ≠ [])

theorem namesOf_append {names : List Text} (h : ∀ name ∈ names, PlainName name) (text : Text) :
    namesOf (names.flatMap (· ++ [':']) ++ text) = names ++ namesOf text := by
  rw [namesOf, split_flatMap_append (by simp) fun name hname => free_singleton (h name hname).2.1,
    List.filter_append, List.filter_eq_self.mpr fun name hname => by simpa using (h name hname).1]
  rfl

theorem flatten_namesOf (text : Text) : (namesOf text).flatten = text.filter (· ≠ ':') := by
  rw [← flatten_split_singleton, namesOf]
  induction split [':'] text with
  | nil => rfl
  | cons part parts ih =>
      rw [List.filter_cons]
      split
      · simp [← ih]
      · rename_i hempty
        obtain rfl : part = [] := by simpa using hempty
        simpa using ih

theorem plainName_of_mem_namesOf {text name : Text} (htext : ¬ separator <:+: text)
    (h : name ∈ namesOf text) : PlainName name := by
  obtain ⟨hmem, hne⟩ := List.mem_filter.mp h
  obtain ⟨hwithin, hcolon⟩ := infix_of_mem_split (by simp) hmem
  refine ⟨by simpa using hne, fun hin => hcolon ?_, fun hsep => htext (hsep.trans hwithin)⟩
  obtain ⟨us, vs, rfl⟩ := List.append_of_mem hin
  exact ⟨us, vs, by simp⟩

theorem receivedNames_data (totalData : Text) :
    receivedNames (.data totalData) =
      ((split separator totalData).drop 1).flatMap namesOf := by
  rw [receivedNames, List.filter_flatMap]
  rfl

/-- A part of the names and the separator behind them gives all names exactly when nothing, the
separator, or the separator and the last colon is missing. -/
theorem namesOf_take {names : List Text} (hne : names ≠ []) (h : ∀ name ∈ names, PlainName name)
    {k : Nat} (hk : k ≤ (names.flatMap (· ++ [':'])).length + 4) :
    (split separator ((names.flatMap (· ++ [':']) ++ separator).take k)).flatMap namesOf = names ↔
      (names.flatMap (· ++ [':'])).length = k + 1 ∨ (names.flatMap (· ++ [':'])).length = k ∨
        (names.flatMap (· ++ [':'])).length + 4 = k := by
  have hall : namesOf (names.flatMap (· ++ [':'])) = names := by
    have happ := namesOf_append h []
    rw [List.append_nil] at happ
    rw [happ]
    exact List.append_nil names
  by_cases hwhole : k = (names.flatMap (· ++ [':'])).length + 4
  · have hfree : Free separator (names.flatMap (· ++ [':'])) := by
      obtain ⟨init, last, rfl⟩ := (List.eq_nil_or_concat names).resolve_left hne
      rw [List.concat_eq_append] at h ⊢
      have hwithin := not_infix_names (fun name hname => h name (List.mem_append_left _ hname))
        (h last (by simp)).2.2
      simpa using free_append_singleton (by decide) hwithin
    have hsplit := split_append_sep separator_ne_nil hfree []
    rw [List.append_nil] at hsplit
    rw [List.take_of_length_le (by simp [hwhole, separator]), hsplit]
    refine iff_of_true ?_ (.inr (.inr hwhole.symm))
    rw [List.flatMap_cons, hall]
    exact List.append_nil names
  · -- no second separator
    have hwithin : ¬ separator <:+: (names.flatMap (· ++ [':']) ++ separator).take k := by
      have hthree : ¬ separator <:+: names.flatMap (· ++ [':']) ++ ['$', '$', '$'] :=
        not_infix_names h (by decide)
      refine fun hwithin => hthree (hwithin.trans (List.IsPrefix.isInfix ?_))
      refine List.prefix_of_prefix_length_le (List.take_prefix k _)
        ⟨['$'], by simp [separator]⟩ ?_
      simp only [List.length_take, List.length_append, List.length_cons, List.length_nil]
      omega
    rw [split_of_not_within hwithin, List.flatMap_singleton]
    obtain ⟨init, last, hconcat⟩ := (List.eq_nil_or_concat names).resolve_left hne
    rw [List.concat_eq_append] at hconcat
    have hinit : ∀ name ∈ init, PlainName name :=
      fun name hname => h name (by simp [hconcat, hname])
    obtain ⟨hnonempty, hcolon, -⟩ := h last (by simp [hconcat])
    have hjoined : names.flatMap (· ++ [':']) = (init.flatMap (· ++ [':']) ++ last) ++ [':'] := by
      simp [hconcat]
    have hbare : namesOf (init.flatMap (· ++ [':']) ++ last) = names := by
      have hsingle : namesOf last = [last] := by
        rw [namesOf, split_of_not_within fun hin => hcolon (hin.subset List.mem_cons_self)]
        simp [hnonempty]
      rw [namesOf_append hinit, hsingle, hconcat]
    constructor
    · intro hread
      have hcount : ((names.flatMap (· ++ [':']) ++ separator).take k).filter (· ≠ ':') =
          (names.flatMap (· ++ [':'])).filter (· ≠ ':') := by
        rw [← flatten_namesOf, ← flatten_namesOf, hread, hall]
      replace hcount := congrArg List.length hcount
      rw [List.take_append, List.filter_append, List.length_append] at hcount
      by_cases hlong : (names.flatMap (· ++ [':'])).length < k
      · -- a part of the separator is read as a name
        exfalso
        rw [List.take_of_length_le (Nat.le_of_lt hlong)] at hcount
        obtain ⟨j, hj⟩ := Nat.exists_eq_add_of_lt hlong
        have hdollar : '$' ∈ (separator.take (k - (names.flatMap (· ++ [':'])).length)).filter
            (· ≠ ':') := by
          rw [show k - (names.flatMap (· ++ [':'])).length = j + 1 by omega]
          simp [separator]
        have hpos := List.length_pos_of_mem hdollar
        omega
      · rw [Nat.sub_eq_zero_of_le (Nat.le_of_not_lt hlong), List.take_zero] at hcount
        by_contra hmissing
        -- the last character of the last name is missing
        have hsplit := congrArg List.length (congrArg (List.filter (· ≠ ':'))
          (List.take_append_drop k (names.flatMap (· ++ [':']))))
        rw [List.filter_append, List.length_append] at hsplit
        obtain ⟨front, c, rfl⟩ := (List.eq_nil_or_concat last).resolve_left hnonempty
        rw [List.concat_eq_append] at hcolon hjoined
        have hc : c ∈ ((names.flatMap (· ++ [':'])).drop k).filter (· ≠ ':') := by
          refine List.mem_filter.mpr ⟨?_, by
            have hne : c ≠ ':' := fun heq => hcolon (by simp [heq])
            simpa using hne⟩
          have hlength := congrArg List.length hjoined
          rw [List.length_append, List.length_singleton, List.length_append, List.length_append,
            List.length_singleton] at hlength
          rw [hjoined, ← List.append_assoc, List.append_assoc _ [c], List.drop_append_of_le_length
            (by simp only [List.length_append]; omega)]
          simp
        have hpos := List.length_pos_of_mem hc
        simp only [List.filter_nil, List.length_nil] at hcount
        omega
    · intro hk'
      have hlength := congrArg List.length hjoined
      rw [List.length_append, List.length_singleton] at hlength
      rcases hk' with hk' | hk' | hk'
      · have htake : (names.flatMap (· ++ [':']) ++ separator).take k =
            init.flatMap (· ++ [':']) ++ last := by
          rw [hjoined, List.append_assoc]
          exact List.take_left' (by omega)
        rw [htake, hbare]
      · rw [List.take_left' hk', hall]
      · exact absurd hk'.symm hwhole

theorem receivedNames_take {names : List Text} (hne : names ≠ []) {b : Nat}
    (hb : b ≤ (nameStream names).length) :
    receivedNames (.data ((nameStream names).take b)) = names ↔
      (∀ name ∈ names, PlainName name) ∧ ((nameStream names).length = b ∨
        (nameStream names).length = b + 4 ∨ (nameStream names).length = b + 5) := by
  obtain ⟨length, hstream⟩ : ∃ length : Nat, nameStream names =
      number length ++ (separator ++ (names.flatMap (· ++ [':']) ++ separator)) :=
    ⟨_, by rw [nameStream, withLength, List.append_assoc separator]⟩
  rw [hstream] at hb ⊢
  have hclean : receivedNames (.data ((number length ++
      (separator ++ (names.flatMap (· ++ [':']) ++ separator))).take b)) = names →
        ∀ name ∈ names, PlainName name := by
    intro hread name hname
    rw [← hread, receivedNames_data] at hname
    obtain ⟨part, hpart, hname⟩ := List.mem_flatMap.mp hname
    exact plainName_of_mem_namesOf
      (infix_of_mem_split separator_ne_nil (List.mem_of_mem_drop hpart)).2 hname
  have hlength : (number length ++
      (separator ++ (names.flatMap (· ++ [':']) ++ separator))).length =
      (number length).length + 4 + (names.flatMap (· ++ [':'])).length + 4 := by
    simp only [separator, List.length_append, List.length_cons, List.length_nil]
    omega
  by_cases hb' : b < (number length).length + 4
  · -- the first name has not begun
    have hthree := not_infix_number_append length
      (by decide : ¬ separator <:+: ['$', '$', '$'])
    have hwithin : ¬ separator <:+: (number length ++
        (separator ++ (names.flatMap (· ++ [':']) ++ separator))).take b := by
      refine fun hwithin => hthree (hwithin.trans (List.IsPrefix.isInfix ?_))
      refine List.prefix_of_prefix_length_le (List.take_prefix b _)
        ⟨'$' :: (names.flatMap (· ++ [':']) ++ separator), by simp [separator]⟩ ?_
      simp only [List.length_take, List.length_append, List.length_cons, List.length_nil]
      omega
    rw [receivedNames_data, split_of_not_within hwithin]
    refine iff_of_false (fun hread => hne hread.symm) ?_
    rintro ⟨-, hmissing⟩
    obtain ⟨name, names, rfl⟩ := List.exists_cons_of_ne_nil hne
    have hpos : 0 < ((name :: names).flatMap (· ++ [':'])).length := by
      rw [List.flatMap_cons, List.length_append, List.length_append, List.length_singleton]
      omega
    omega
  · obtain ⟨k, rfl⟩ := Nat.exists_eq_add_of_le (Nat.le_of_not_lt hb')
    have htake : (number length ++ (separator ++ (names.flatMap (· ++ [':']) ++ separator))).take
        ((number length).length + 4 + k) = number length ++ separator ++
          (names.flatMap (· ++ [':']) ++ separator).take k := by
      have hsep : separator.length = 4 := rfl
      rw [Nat.add_assoc, List.take_length_add_append, ← hsep, List.take_length_add_append,
        List.append_assoc]
    have hread : receivedNames (.data ((number length ++
        (separator ++ (names.flatMap (· ++ [':']) ++ separator))).take
          ((number length).length + 4 + k))) =
        (split separator ((names.flatMap (· ++ [':']) ++ separator).take k)).flatMap namesOf := by
      rw [htake, receivedNames_data, split_append_sep separator_ne_nil (free_number length)]
      rfl
    have hiff := fun hplain => namesOf_take hne hplain (k := k) (by omega)
    constructor
    · intro hnames
      have hplain := hclean hnames
      refine ⟨hplain, ?_⟩
      have hmissing := (hiff hplain).mp (hread ▸ hnames)
      omega
    · rintro ⟨hplain, hmissing⟩
      rw [hread]
      exact (hiff hplain).mpr (by omega)

/-! ### The pieces -/

/-- The numbers of bytes after which a piece ends, when `start` bytes come before. -/
def pieceEnds (start : Nat) : List Text → List Nat
  | [] => []
  | data :: pieces => (start + data.length) :: pieceEnds (start + data.length) pieces

/-- The first end of a piece at or after `length` bytes. -/
def firstEnd (length : Int) (pieces : List Text) : Option Nat :=
  (pieceEnds 0 pieces).find? fun b : Nat => length ≤ (b : Int)

theorem receiveLoop_eq (length : Int) (pieces : List Text) (totalData : Text) :
    receiveLoop totalData (length - totalData.length) pieces =
      match (totalData.length :: pieceEnds totalData.length pieces).find?
        fun b : Nat => length ≤ (b : Int) with
      | some b => .data ((totalData ++ pieces.flatten).take b)
      | none => .waits := by
  induction pieces generalizing totalData with
  | nil =>
      by_cases hlength : length ≤ totalData.length
      · simp [receiveLoop, pieceEnds, hlength]
      · have hnot : ¬ length - totalData.length ≤ 0 := by omega
        simp [receiveLoop, pieceEnds, hlength, hnot]
  | cons data pieces ih =>
      by_cases hlength : length ≤ totalData.length
      · have hle : length - totalData.length ≤ 0 := by omega
        simp [receiveLoop, hlength, hle]
      · have hnot : ¬ length - totalData.length ≤ 0 := by omega
        have hnext := ih (totalData ++ data)
        rw [List.length_append] at hnext
        rw [receiveLoop, if_neg hnot, List.find?_cons_of_neg (by simpa using hlength), pieceEnds,
          List.flatten_cons, ← List.append_assoc, ← hnext]
        congr 1
        push_cast
        omega

theorem receive_cons (data : Text) (pieces : List Text) :
    receive (data :: pieces) =
      match announced data with
      | none => .failed
      | some length =>
          if length = 8 then .empty
          else
            match firstEnd length (data :: pieces) with
            | some b => .data ((data :: pieces).flatten.take b)
            | none => .waits := by
  rw [receive]
  cases announced data with
  | none => rfl
  | some length =>
      dsimp only
      rw [receiveLoop_eq, firstEnd, pieceEnds, Nat.zero_add, List.flatten_cons]

theorem mem_pieceEnds_le {start b : Nat} {pieces : List Text} (h : b ∈ pieceEnds start pieces) :
    b ≤ start + pieces.flatten.length := by
  induction pieces generalizing start with
  | nil => cases h
  | cons data pieces ih =>
      rw [List.flatten_cons, List.length_append]
      rcases List.mem_cons.mp h with rfl | hin
      · omega
      · have hle := ih hin
        omega

theorem last_mem_pieceEnds {start : Nat} {pieces : List Text} (h : pieces ≠ []) :
    start + pieces.flatten.length ∈ pieceEnds start pieces := by
  induction pieces generalizing start with
  | nil => exact absurd rfl h
  | cons data pieces ih =>
      rw [List.flatten_cons, List.length_append, ← Nat.add_assoc]
      by_cases hpieces : pieces = []
      · subst hpieces
        simp [pieceEnds]
      · exact List.mem_cons_of_mem _ (ih hpieces)

theorem firstEnd_le {length : Int} {pieces : List Text} {b : Nat}
    (h : firstEnd length pieces = some b) : b ≤ pieces.flatten.length := by
  have hle := mem_pieceEnds_le (List.mem_of_find?_eq_some h)
  omega

theorem firstEnd_eq_none {length : Int} {pieces : List Text} (h : pieces ≠ []) :
    firstEnd length pieces = none ↔ pieces.flatten.length < length := by
  rw [firstEnd, List.find?_eq_none]
  constructor
  · intro hall
    have hlast := hall _ (last_mem_pieceEnds h)
    simp only [decide_eq_true_eq, Nat.zero_add] at hlast
    omega
  · intro hlt b hb
    have hle := mem_pieceEnds_le hb
    simp only [decide_eq_true_eq]
    omega

/-- The number that the first piece shows. -/
def Announces (pieces : List Text) (length : Int) : Prop :=
  ∃ data ∈ pieces.head?, announced data = some length

/-- The reader does not wait for more than is sent. -/
def Satisfiable (pieces : List Text) : Prop :=
  ∀ length, Announces pieces length → length = 8 ∨ length ≤ pieces.flatten.length

/-- The first end of a piece at or after the number that the first piece shows. -/
def StopsAt (pieces : List Text) (b : Nat) : Prop :=
  ∃ length, Announces pieces length ∧ length ≠ 8 ∧ firstEnd length pieces = some b

/-- What is read of a stream in pieces, for a reading that finds nothing without data. -/
theorem arrive_iff {α : Type} {read : Received → List α} (hfailed : read .failed = [])
    (hempty : read .empty = []) {values : List α} (hne : values ≠ []) {stream : Text}
    (hstream : stream ≠ []) {good : Nat → Prop}
    (hgood : ∀ b ≤ stream.length, read (.data (stream.take b)) = values ↔ good b)
    (pieces : List Text) :
    (receive pieces ≠ .waits ∧ (pieces.flatten = stream → read (receive pieces) = values)) ↔
      Satisfiable pieces ∧ (pieces.flatten = stream → ∃ b, StopsAt pieces b ∧ good b) := by
  cases pieces with
  | nil =>
      refine iff_of_true ⟨by simp [receive], fun heq => absurd heq.symm hstream⟩
        ⟨fun length hlength => ?_, fun heq => absurd heq.symm hstream⟩
      obtain ⟨data, hdata, -⟩ := hlength
      cases hdata
  | cons data pieces =>
      have hannounces : ∀ length, Announces (data :: pieces) length ↔
          announced data = some length := by simp [Announces]
      rw [receive_cons]
      simp only [Satisfiable, StopsAt, hannounces]
      cases announced data with
      | none => simp [hfailed, hne.symm]
      | some length =>
          by_cases h8 : length = 8
          · simp [h8, hempty, hne.symm]
          · simp only [h8, if_false, Option.some.injEq, forall_eq', exists_eq_left', false_or,
              ne_eq, not_false_eq_true, true_and]
            cases hend : firstEnd length (data :: pieces) with
            | none =>
                have hlt := (firstEnd_eq_none (by simp)).mp hend
                exact iff_of_false (fun h => h.1 rfl) fun h => absurd h.1 (by omega)
            | some b =>
                have hle : length ≤ (data :: pieces).flatten.length := by
                  by_contra hlt
                  rw [(firstEnd_eq_none (by simp)).mpr (by omega)] at hend
                  cases hend
                simp only [reduceCtorEq, not_false_eq_true, true_and, hle, Option.some.injEq,
                  exists_eq_left']
                constructor
                · intro hread heq
                  exact (hgood b (heq ▸ firstEnd_le hend)).mp (heq ▸ hread heq)
                · intro hb heq
                  rw [heq]
                  exact (hgood b (heq ▸ firstEnd_le hend)).mpr (hb heq)

/-- A stream of which the pieces are the beginning or all, as `recv(1024)` returns them. -/
structure Cut (stream : Text) (pieces : List Text) : Prop where
  sizes : ∀ data ∈ pieces, 1 ≤ data.length ∧ data.length ≤ 1024
  sent : pieces.flatten <+: stream

/-- The reader of the locks comes to an end, and goes through all locks when all was sent. -/
def LocksArrive (s : TransactionLockManager) (pieces : List Text) : Prop :=
  receive pieces ≠ .waits ∧ (pieces.flatten = getTransactionMapInString s →
    ∀ timeNow, handledLocks timeNow (receive pieces) =
      (sentLocks s).map fun lock => (lock, lock.isDue timeNow))

def NamesArrive (s : TransactionLockManager) (pieces : List Text) : Prop :=
  receive pieces ≠ .waits ∧ (pieces.flatten = getBulkDeleteObjListInString s →
    receivedNames (receive pieces) = getBulkDeleteObjList s)

theorem handledLocks_eq_iff {received : Received} {locks : List SentLock} :
    (∀ timeNow, handledLocks timeNow received =
      locks.map fun lock => (lock, lock.isDue timeNow)) ↔ receivedLocks received = locks := by
  constructor
  · intro h
    have hfst := congrArg (List.map Prod.fst) (h 0)
    simpa [handledLocks, Function.comp_def] using hfst
  · intro h timeNow
    rw [handledLocks, h]

theorem receive_of_empty {stream : Text} {pieces : List Text} (hcut : Cut stream pieces)
    (h : ∀ data, data <+: stream → data ≠ [] → announced data = none ∨ announced data = some 8) :
    receive pieces = .failed ∨ receive pieces = .empty := by
  cases pieces with
  | nil => exact .inl rfl
  | cons data pieces =>
      have hstarts : data <+: stream := (List.prefix_append data pieces.flatten).trans hcut.sent
      have hne : data ≠ [] := List.ne_nil_of_length_pos (hcut.sizes data List.mem_cons_self).1
      rw [receive_cons]
      rcases h data hstarts hne with hnone | hsome
      · exact .inl (by rw [hnone])
      · exact .inr (by rw [hsome]; rfl)

theorem announced_front {stream : Text} (hlength : stream.length = 9)
    (h : ∀ k, k < 10 → 0 < k →
      announced (stream.take k) = none ∨ announced (stream.take k) = some 8) :
    ∀ data, data <+: stream → data ≠ [] → announced data = none ∨ announced data = some 8 := by
  intro data hstarts hne
  rw [List.prefix_iff_eq_take.mp hstarts]
  refine h _ ?_ (List.length_pos_of_ne_nil hne)
  have hle := hstarts.length_le
  omega

/-- Exactly when the locks and the names that are sent arrive. -/
theorem text_channel_iff (s : TransactionLockManager) (pieces : List Text) :
    (Cut (getTransactionMapInString s) pieces → (LocksArrive s pieces ↔ sentLocks s = [] ∨
      Satisfiable pieces ∧ (pieces.flatten = getTransactionMapInString s →
        ∃ b, StopsAt pieces b ∧ (∀ lock ∈ sentLocks s, lock.Plain) ∧
          ((getTransactionMapInString s).length ≤ b + 4 ∨
            (getTransactionMapInString s).length = b + 8)))) ∧
    (Cut (getBulkDeleteObjListInString s) pieces →
      (NamesArrive s pieces ↔ getBulkDeleteObjList s = [] ∨
        Satisfiable pieces ∧ (pieces.flatten = getBulkDeleteObjListInString s →
          ∃ b, StopsAt pieces b ∧ (∀ name ∈ getBulkDeleteObjList s, PlainName name) ∧
            ((getBulkDeleteObjListInString s).length = b ∨
              (getBulkDeleteObjListInString s).length = b + 4 ∨
              (getBulkDeleteObjListInString s).length = b + 5)))) := by
  constructor
  · intro hcut
    unfold LocksArrive
    simp only [handledLocks_eq_iff]
    unfold getTransactionMapInString at hcut ⊢
    generalize sentLocks s = locks at hcut ⊢
    by_cases hlocks : locks = []
    · subst hlocks
      refine iff_of_true ?_ (.inl rfl)
      rcases receive_of_empty hcut (announced_front (by decide) (by decide)) with h | h <;>
        simp [h, receivedLocks]
    · rw [or_iff_right hlocks]
      refine arrive_iff rfl rfl hlocks ?_ (fun b hb => receivedLocks_take hlocks hb) pieces
      simp [lockStream, withLength, streamEnd]
  · intro hcut
    unfold NamesArrive
    unfold getBulkDeleteObjListInString at hcut ⊢
    generalize getBulkDeleteObjList s = names at hcut ⊢
    by_cases hnames : names = []
    · subst hnames
      refine iff_of_true ?_ (.inl rfl)
      rcases receive_of_empty hcut (announced_front (by decide) (by decide)) with h | h <;>
        simp [h, receivedNames]
    · rw [or_iff_right hnames]
      refine arrive_iff rfl rfl hnames ?_ (fun b hb => receivedNames_take hnames hb) pieces
      simp [nameStream, withLength, separator]

/-- A lock of a request and one of a bulk delete. -/
def twoLocks : TransactionLockManager :=
  (TransactionLockManager.init 1).addRecordsInMemory false
    [⟨1, "1a/b", "PUT", "obj", 5, 0⟩, ⟨1, "1a/c", "BULK_DELETE", "obj", 6, 0⟩] true

def twoLocksText : Text :=
  "60$$$$5,1a/b,obj,PUT,0####$$$$6,1a/c,obj,BULK_DELETE,0####&&&&".toList

def oneNameText : Text := "13$$$$1a/c:$$$$".toList

theorem twoLocks_text : getTransactionMapInString twoLocks = twoLocksText := by decide +kernel

theorem oneName_text : getBulkDeleteObjListInString twoLocks = oneNameText := by decide +kernel

theorem announces_cons {data : Text} {pieces : List Text} {length : Int} :
    Announces (data :: pieces) length ↔ announced data = some length := by simp [Announces]

theorem text_channel_iff_twoLocks :
    LocksArrive twoLocks [twoLocksText.take 20, twoLocksText.drop 20] ∧
      NamesArrive twoLocks [oneNameText] := by
  have hlocks : Cut (getTransactionMapInString twoLocks)
      [twoLocksText.take 20, twoLocksText.drop 20] :=
    twoLocks_text ▸ ⟨by decide, by decide⟩
  have hnames : Cut (getBulkDeleteObjListInString twoLocks) [oneNameText] :=
    oneName_text ▸ ⟨by decide, by decide⟩
  refine ⟨((text_channel_iff twoLocks _).1 hlocks).mpr (.inr ⟨fun length h => ?_, fun _ =>
    ⟨62, ⟨60, announces_cons.mpr (by decide), by decide, by decide⟩, ?_, ?_⟩⟩),
    ((text_channel_iff twoLocks _).2 hnames).mpr (.inr ⟨fun length h => ?_, fun _ =>
    ⟨15, ⟨13, announces_cons.mpr (by decide), by decide, by decide⟩, ?_, ?_⟩⟩)⟩
  · have hshown : announced (twoLocksText.take 20) = some 60 := by decide
    obtain rfl := Option.some.inj ((announces_cons.mp h).symm.trans hshown)
    decide
  · have hall : sentLocks twoLocks = [⟨['5'], "1a/b".toList, "obj".toList, "PUT".toList, 0⟩,
        ⟨['6'], "1a/c".toList, "obj".toList, "BULK_DELETE".toList, 0⟩] := by decide +kernel
    rw [hall]
    unfold SentLock.Plain
    decide
  · rw [twoLocks_text]
    decide
  · have hshown : announced oneNameText = some 13 := by decide
    obtain rfl := Option.some.inj ((announces_cons.mp h).symm.trans hshown)
    decide
  · have hall : getBulkDeleteObjList twoLocks = ["1a/c".toList] := by decide +kernel
    rw [hall]
    unfold PlainName
    decide
  · rw [oneName_text]
    decide

/-- A sender that closes early keeps the reader waiting; a number that is cut is taken for the whole
number; and a piece that ends just before the end of the stream ends the loop. -/
theorem text_channel_loses :
    (Cut (getTransactionMapInString twoLocks) [twoLocksText.take 20] ∧
      ¬ LocksArrive twoLocks [twoLocksText.take 20]) ∧
    (Cut (getTransactionMapInString twoLocks)
        [twoLocksText.take 1, (twoLocksText.drop 1).take 19, twoLocksText.drop 20] ∧
      ¬ LocksArrive twoLocks
        [twoLocksText.take 1, (twoLocksText.drop 1).take 19, twoLocksText.drop 20]) ∧
    (Cut (getBulkDeleteObjListInString twoLocks) [oneNameText.take 14, oneNameText.drop 14] ∧
      ¬ NamesArrive twoLocks [oneNameText.take 14, oneNameText.drop 14]) := by
  refine ⟨⟨twoLocks_text ▸ ⟨by decide, by decide⟩, fun h => h.1 (by decide)⟩,
    ⟨twoLocks_text ▸ ⟨by decide, by decide⟩, fun h => ?_⟩,
    ⟨oneName_text ▸ ⟨by decide, by decide⟩, fun h => ?_⟩⟩
  · have hread := h.2 (twoLocks_text ▸ by decide) 0
    have hlength := congrArg List.length hread
    exact absurd hlength (by decide +kernel)
  · have hread := h.2 (oneName_text ▸ by decide)
    have hlength := congrArg List.length hread
    exact absurd hlength (by decide +kernel)

end ObjectStorage.Service
