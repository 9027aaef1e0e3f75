import ObjectStorage.InfoFile.ContainerFile
import ObjectStorage.Library.LeadingRuns

/-!
The flush of another node's records. The offsets of two nodes cannot be compared, so the records
that the file has already are told by the index: of every object the first records are taken out as
long as they have the state of its latest entry.
-/

namespace ObjectStorage.InfoFile

open Std Library ObjectStorage.Journal Container.Statistics

/-! ### The index read backwards -/

namespace ContainerFile.IndexBlockIterator

theorem toList_eq_reverse {limit : Nat} {records : List IndexSlot} {fuel index : Nat}
    (hindex : index ≤ records.length) (hfuel : index < fuel) :
    toList limit records fuel ⟨index, records, index⟩ = (records.take index).reverse := by
  induction fuel generalizing index with
  | zero => exact absurd hfuel (Nat.not_lt_zero _)
  | succ fuel ih =>
      match index with
      | 0 => simp [toList, next]
      | 1 =>
          obtain ⟨slot, rest, rfl⟩ := List.exists_cons_of_length_pos hindex
          have hdone : toList limit (slot :: rest) fuel ⟨0, [], 0⟩ = [] := by
            cases fuel <;> simp [toList, next]
          simp [toList, next, readIndexRecords, hdone]
      | index + 2 =>
          have hget : records[index + 1]? = some records[index + 1] :=
            List.getElem?_eq_getElem (Nat.lt_of_succ_le hindex)
          have hnext : next limit records ⟨index + 2, records, index + 2⟩ =
              some (records[index + 1], ⟨index + 1, records, index + 1⟩) := by
            simp [next, hget]
          rw [toList, hnext]
          simp only
          rw [ih (Nat.le_of_succ_le hindex) (Nat.lt_of_succ_lt_succ hfuel),
            List.take_succ_eq_append_getElem (Nat.lt_of_succ_le hindex), List.reverse_append]
          rfl

end ContainerFile.IndexBlockIterator

namespace ContainerFile

theorem indexBackwards_eq_reverse {records : List IndexSlot}
    (h : records.length ≤ maxReadIndexRecord) : indexBackwards records = records.reverse := by
  have hread : IndexBlockIterator.readIndexRecords maxReadIndexRecord records records.length =
      ⟨records.length, records, records.length⟩ := by
    simp [IndexBlockIterator.readIndexRecords, Nat.min_eq_right h]
  rw [indexBackwards, hread, IndexBlockIterator.toList_eq_reverse le_rfl (Nat.lt_succ_self _),
    List.take_length]

end ContainerFile

/-! ### What is taken out -/

variable {getHash : String → String}

/-- The state of an object in the entry of the index that is read first. -/
def latestState (index : List IndexRecord) (hash : String) : Option Nat :=
  (index.find? (·.hash = hash)).map (·.fileState)

/-- The object has this state. -/
def inState (getHash : String → String) (state : String → Option Nat)
    (e : JournalOffset × ObjectRecord) : Bool :=
  state (getHash e.2.name) = some e.2.deleted

def unseenState (index : List IndexRecord) (seen : List String) (hash : String) : Option Nat :=
  if hash ∈ seen then none else latestState index hash

abbrev hashOf (getHash : String → String) (e : JournalOffset × ObjectRecord) : String :=
  getHash e.2.name

theorem dropIndexed_of_mem {index : IndexRecord} {seen : List String} (h : index.hash ∈ seen)
    (l : RecordList) : dropIndexed getHash index seen l = (l, seen) := by
  induction l with
  | nil => rfl
  | cons e l ih => simp [dropIndexed, ih, h]

/-- The entry of the index takes out the first records of its object that have its state. -/
theorem dropLeading_dropIndexed {index : IndexRecord} {seen kept : List String}
    {state state' : String → Option Nat} (hseen : index.hash ∉ seen) (hkept : index.hash ∉ kept)
    (hentry : state' index.hash = some index.fileState)
    (hsame : ∀ hash ≠ index.hash, state' hash = state hash) (l : RecordList)
    (hleft : index.hash ∈ (dropIndexed getHash index seen l).2 → state index.hash = none) :
    dropLeading (hashOf getHash) (inState getHash state) kept (dropIndexed getHash index seen l).1 =
      dropLeading (hashOf getHash) (inState getHash state') kept l := by
  induction l generalizing kept with
  | nil => rfl
  | cons e l ih =>
      rw [dropIndexed] at hleft ⊢
      by_cases hhash : getHash e.2.name = index.hash
      · have hkept' : hashOf getHash e ∉ kept := by
          rw [hashOf, hhash]
          exact hkept
        rw [if_pos hhash] at hleft ⊢
        by_cases hstate : e.2.deleted = index.fileState
        · have hdrop : inState getHash state' e := by simp [inState, hhash, hentry, hstate]
          rw [if_pos hstate, if_neg hseen] at hleft ⊢
          rw [dropLeading_cons_of_drop hkept' hdrop]
          exact ih hkept hleft
        · have hkeep' : ¬ inState getHash state' e := by
            simp [inState, hhash, hentry, Ne.symm hstate]
          rw [if_neg hstate, if_neg hseen] at hleft ⊢
          have hnone := hleft List.mem_cons_self
          have hkeep : ¬ inState getHash state e := by simp [inState, hhash, hnone]
          rw [dropLeading_cons_of_keep (.inr hkeep), dropLeading_cons_of_keep (.inr hkeep')]
          refine congrArg (e :: ·) (dropLeading_congr fun e' _ hnew => ?_)
          have hne : getHash e'.2.name ≠ index.hash := fun heq =>
            hnew (List.mem_cons.mpr (.inl (heq.trans hhash.symm)))
          simp only [inState, hsame _ hne]
      · rw [if_neg hhash] at hleft ⊢
        have hsame' : inState getHash state e = inState getHash state' e := by
          simp only [inState, hsame _ hhash]
        by_cases hdrop : hashOf getHash e ∉ kept ∧ inState getHash state e
        · rw [dropLeading_cons_of_drop hdrop.1 hdrop.2,
            dropLeading_cons_of_drop hdrop.1 (hsame' ▸ hdrop.2)]
          exact ih hkept hleft
        · have hkeep : hashOf getHash e ∈ kept ∨ ¬ inState getHash state e := by tauto
          have hkept' : index.hash ∉ hashOf getHash e :: kept := by
            simp [hkept, Ne.symm hhash]
          rw [dropLeading_cons_of_keep hkeep, dropLeading_cons_of_keep (hsame' ▸ hkeep),
            ih hkept' hleft]

/-- Of every object the first records are taken out that have the state of its latest entry. -/
theorem dropAllIndexed_eq (index : List IndexRecord) (seen : List String) (l : RecordList) :
    dropAllIndexed getHash index seen l =
      dropLeading (hashOf getHash) (inState getHash (unseenState index seen)) [] l := by
  induction index generalizing seen l with
  | nil =>
      have hnone : ∀ hash, unseenState [] seen hash = none := by
        intro hash
        simp [unseenState, latestState]
      refine (dropLeading_eq_self fun hash e _ _ => ?_).symm
      simp [inState, hnone]
  | cons entry index ih =>
      rw [dropAllIndexed, ih]
      by_cases hseen : entry.hash ∈ seen
      · have hstate : unseenState (entry :: index) seen = unseenState index seen := by
          funext hash
          by_cases hhash : entry.hash = hash
          · simp [unseenState, ← hhash, hseen]
          · simp [unseenState, latestState, hhash]
        rw [dropIndexed_of_mem hseen, hstate]
      · have hsame : ∀ hash ≠ entry.hash, unseenState (entry :: index) seen hash =
            unseenState index (dropIndexed getHash entry seen l).2 hash := by
          intro hash hne
          have hmem : hash ∈ (dropIndexed getHash entry seen l).2 ↔ hash ∈ seen := by
            rcases dropIndexed_seen entry seen l with h | h
            · rw [h]
            · simp [h, hne]
          simp [unseenState, latestState, hmem, Ne.symm hne]
        refine dropLeading_dropIndexed hseen List.not_mem_nil ?_ hsame l fun hleft => if_pos hleft
        simp [unseenState, latestState, hseen]

/-! ### Takeover -/

namespace ContainerFile

variable {file : ContainerFile} {nodeId : Nat}
  {done new : RecordList}

/-- The state of an object in its latest entry of the index. -/
def indexState (file : ContainerFile) : String → Option Nat :=
  latestState ((indexBackwards file.readIndex).map IndexSlot.toIndexRecord)

/-- The records in the file have the state of the latest entry of their objects, and the first
record of an object that is not in the file has another state. -/
structure ToldApart (getHash : String → String) (state : String → Option Nat)
    (done new : RecordList) : Prop where
  done : ∀ e ∈ done, state (getHash e.2.name) = some e.2.deleted
  new : ∀ e ∈ new, new.find? (fun e' => getHash e'.2.name = getHash e.2.name) = some e →
    state (getHash e.2.name) ≠ some e.2.deleted

theorem flushRecords_eq
    (hnode : (ofLex file.trailer.journalOffset).1 >>> 56 ≠ nodeId) (records : RecordList) :
    file.flushRecords getHash nodeId false records =
      dropLeading (hashOf getHash) (inState getHash file.indexState) [] records := by
  have hstate : unseenState ((indexBackwards file.readIndex).map IndexSlot.toIndexRecord) [] =
      file.indexState := by
    funext hash
    simp [unseenState, indexState]
  rw [flushRecords, Container.Statistics.flushContainer, if_neg hnode]
  simp only [Bool.not_false, if_true]
  rw [dropAllIndexed_eq, hstate]

theorem flushRecords_append_iff
    (hnode : (ofLex file.trailer.journalOffset).1 >>> 56 ≠ nodeId) :
    file.flushRecords getHash nodeId false (done ++ new) = new ↔
      ToldApart getHash file.indexState done new := by
  rw [flushRecords_eq hnode, dropLeading_append_eq_iff]
  constructor
  · rintro ⟨hdone, hnew⟩
    exact ⟨fun e he => by simpa [inState] using hdone e he,
      fun e he hfind => by simpa [inState] using hnew e he hfind⟩
  · rintro ⟨hdone, hnew⟩
    exact ⟨fun e he => by simpa [inState] using hdone e he,
      fun e he hfind => by simpa [inState] using hnew e he hfind⟩

theorem prepareFlush_journalOffset (file : ContainerFile) (numRecord : Nat) :
    (file.prepareFlush getHash numRecord).trailer.journalOffset =
      file.trailer.journalOffset := by
  unfold prepareFlush
  split <;> rfl

/-- When another node flushes the records of a failed one, of which those in `done` are in the file,
it takes out exactly these if and only if the index tells them apart from the others. -/
theorem takeover_iff (hnode : (ofLex file.trailer.journalOffset).1 >>> 56 ≠ nodeId) :
    (file.prepareFlush getHash (done ++ new).length).flushRecords getHash nodeId false
        (done ++ new) = new ↔
      ToldApart getHash
        (file.prepareFlush getHash (done ++ new).length).indexState done new := by
  refine flushRecords_append_iff ?_
  rw [prepareFlush_journalOffset]
  exact hnode

def addition : JournalOffset × ObjectRecord := (toLex (1 <<< 56, 10), ⟨"o", 5, 0, objectAdd⟩)

def modification : JournalOffset × ObjectRecord :=
  (toLex (1 <<< 56, 20), ⟨"o", 7, 5, objectModify⟩)

def secondModification : JournalOffset × ObjectRecord :=
  (toLex (1 <<< 56, 30), ⟨"o", 9, 7, objectModify⟩)

def deletion : JournalOffset × ObjectRecord := (toLex (1 <<< 56, 30), ⟨"o", 7, 7, objectDelete⟩)

/-- The file of node 1 after an object was added and modified. -/
def modifiedFile : ContainerFile :=
  (addContainer ∅ (toLex (1 <<< 56, 0))).flushContainer id 1 false
    [addition, modification]

/-- The modification is taken out and the deletion that follows it is kept. -/
theorem takeover_deletion :
    (modifiedFile.prepareFlush id ([modification] ++ [deletion]).length).flushRecords
      id 2
      false ([modification] ++ [deletion]) = [deletion] :=
  (takeover_iff (by decide +kernel)).mpr ⟨by decide +kernel, by decide +kernel⟩

/-- A second modification is lost, since the file has the first one. -/
theorem takeover_modification :
    modifiedFile.data.map (·.size) = [5, 7] ∧
      (modifiedFile.prepareFlush id
        ([modification] ++ [secondModification]).length).flushRecords id 2 false
          ([modification] ++ [secondModification]) = [] ∧
      (modifiedFile.flushContainer id 2 false
        ([modification] ++ [secondModification])).data.map (·.size) = [5, 7] := by
  refine ⟨rfl, by decide +kernel, by decide +kernel⟩

end ContainerFile

end ObjectStorage.InfoFile
