import ObjectStorage.Library.Exits
import ObjectStorage.Library.OrderedMap

/-!
The memory in which the object server keeps the transactions of the requests it executes, and the
calls of a request, during which other requests use the memory.
-/

namespace ObjectStorage.Objects

open Std Library Library.Block

/-- The metadata of an object. -/
abbrev Metadata := List (String × String)

/-- `metadata.get(key)`. -/
def valueOf (metadata : Metadata) (key : String) : Option String := metadata.lookup key

/-- The order of strings, by the characters. -/
def below (s t : String) : Bool :=
  List.lex (s.toList.map Char.toNat) (t.toList.map Char.toNat) fun a b => decide (a < b)

/-- The exceptions that the clauses of the request handlers tell apart. -/
inductive Raised where
  | diskFileNotExist
  | diskFileDeleted (metadata : Metadata)
  | diskFileExpired (metadata : Metadata)
  | diskFileQuarantined
  | diskFileCollision
  | diskFileNoSpace
  | valueError
  | keyError
  | otherException
  | chunkReadTimeout
  | timeout
  deriving DecidableEq, Repr

namespace Raised

/-- `except Exception`. A `Timeout` is no `Exception`. -/
def isException : Raised → Bool
  | chunkReadTimeout | timeout => false
  | _ => true

/-- `except DiskFileNotExist`, with the classes derived from it. -/
def isNotExist : Raised → Bool
  | diskFileNotExist | diskFileDeleted _ | diskFileExpired _ => true
  | _ => false

end Raised

/-- The transactions of an object are a list without repetition that is never empty. -/
def Listed (ids : List String) : Prop := ids ≠ [] ∧ ids.Nodup

theorem listed_singleton (id : String) : Listed [id] := ⟨by simp, by simp⟩

theorem Listed.append {ids : List String} (h : Listed ids) {id : String} (hid : id ∉ ids) :
    Listed (ids ++ [id]) := by
  refine ⟨by simp, List.nodup_append.mpr ⟨h.2, by simp, ?_⟩⟩
  rintro id' hmem other hother rfl
  obtain rfl := List.mem_singleton.mp hother
  exact hid hmem

theorem Listed.erase {ids : List String} (h : Listed ids) {id : String}
    (hne : ids.erase id ≠ []) : Listed (ids.erase id) := ⟨hne, h.2.erase id⟩

/-- `LockManager`: the transactions by object. -/
structure LockManager where
  objDict : TreeMap String (List String)
  listed : ∀ (path : String) (ids : List String), objDict[path]? = some ids → Listed ids

namespace LockManager

def empty : LockManager := ⟨∅, by simp⟩

def update (m : LockManager) (path : String) (ids : List String) (h : Listed ids) :
    LockManager where
  objDict := m.objDict.insert path ids
  listed path' ids' hids' := by
    rw [getElem?_insert_eq] at hids'
    split at hids'
    · exact Option.some.inj hids' ▸ h
    · exact m.listed path' ids' hids'

def erase (m : LockManager) (path : String) : LockManager where
  objDict := m.objDict.erase path
  listed path' ids' hids' := by
    rw [getElem?_erase_eq] at hids'
    split at hids'
    · cases hids'
    · exact m.listed path' ids' hids'

/-- `add`. -/
def add (m : LockManager) (path id : String) : Except Raised LockManager :=
  if path = "" ∨ id = "" then .error .valueError
  else
    match h : m.objDict[path]? with
    | some ids =>
        if hid : id ∈ ids then .ok m
        else .ok (m.update path (ids ++ [id]) ((m.listed path ids h).append hid))
    | none => .ok (m.update path [id] (listed_singleton id))

/-- `delete`. -/
def delete (m : LockManager) (path id : String) : Except Raised LockManager :=
  match h : m.objDict[path]? with
  | some ids =>
      if id ∈ ids then
        if hids : ids.erase id = [] then .ok (m.erase path)
        else .ok (m.update path (ids.erase id) ((m.listed path ids h).erase hids))
      else .error .keyError
  | none => .error .keyError

/-- `is_exists`. -/
def isExists (m : LockManager) (path : String) : Bool := m.objDict.contains path

/-- The transaction is in the memory, under the object. -/
def Holds (m : LockManager) (path id : String) : Prop :=
  ∃ ids, m.objDict[path]? = some ids ∧ id ∈ ids

instance (m : LockManager) (path id : String) : Decidable (m.Holds path id) :=
  match h : m.objDict[path]? with
  | some ids => decidable_of_iff (id ∈ ids) (by simp [Holds, h])
  | none => isFalse (by simp [Holds, h])

@[simp] theorem not_holds_empty (path id : String) : ¬ empty.Holds path id := by
  simp [Holds, empty]

theorem isExists_iff (m : LockManager) (path : String) :
    m.isExists path = true ↔ ∃ id, m.Holds path id := by
  rw [isExists, TreeMap.contains_iff_mem, mem_iff_exists_getElem?]
  constructor
  · rintro ⟨ids, hids⟩
    obtain ⟨id, rest, rfl⟩ := List.exists_cons_of_ne_nil (m.listed path ids hids).1
    exact ⟨id, _, hids, List.mem_cons_self⟩
  · rintro ⟨id, ids, hids, -⟩
    exact ⟨ids, hids⟩

theorem holds_update (m : LockManager) {path : String} {ids : List String} (h : Listed ids)
    (path' id' : String) : (m.update path ids h).Holds path' id' ↔
      if path = path' then id' ∈ ids else m.Holds path' id' := by
  simp only [Holds, update, getElem?_insert_eq]
  split
  · simp
  · rfl

theorem holds_erase (m : LockManager) (path path' id' : String) :
    (m.erase path).Holds path' id' ↔ path ≠ path' ∧ m.Holds path' id' := by
  simp only [Holds, erase, getElem?_erase_eq]
  split
  · simp_all
  · simp_all

theorem add_spec (m : LockManager) {path id : String} (hpath : path ≠ "") (hid : id ≠ "") :
    ∃ m', m.add path id = .ok m' ∧
      ∀ path' id', m'.Holds path' id' ↔ m.Holds path' id' ∨ (path = path' ∧ id = id') := by
  rw [add, if_neg (by simp [hpath, hid])]
  split
  · next ids hids =>
      split
      · next hmem =>
          refine ⟨m, rfl, fun path' id' => ⟨.inl, ?_⟩⟩
          rintro (h | ⟨rfl, rfl⟩)
          · exact h
          · exact ⟨ids, hids, hmem⟩
      · refine ⟨_, rfl, fun path' id' => ?_⟩
        rw [holds_update]
        split
        · next heq =>
            subst heq
            simp [Holds, hids, eq_comm]
        · next hne => simp [hne]
  · next hids =>
      refine ⟨_, rfl, fun path' id' => ?_⟩
      rw [holds_update]
      split
      · next heq =>
          subst heq
          simp [Holds, hids, eq_comm]
      · next hne => simp [hne]

theorem delete_spec (m : LockManager) {path id : String} (h : m.Holds path id) :
    ∃ m', m.delete path id = .ok m' ∧
      ∀ path' id', m'.Holds path' id' ↔ m.Holds path' id' ∧ ¬ (path = path' ∧ id = id') := by
  obtain ⟨ids, hids, hmem⟩ := h
  have hnodup := (m.listed path ids hids).2
  rw [delete]
  split
  · next ids' hids' =>
      obtain rfl := Option.some.inj (hids'.symm.trans hids)
      rw [if_pos hmem]
      split
      · next hnil =>
          refine ⟨_, rfl, fun path' id' => ?_⟩
          have hsingle : ∀ id', id' ∈ ids' → id = id' := fun id' hid' => by
            by_contra hne
            have hstays := (List.mem_erase_of_ne (Ne.symm hne)).mpr hid'
            simp [hnil] at hstays
          rw [holds_erase]
          constructor
          · rintro ⟨hne, hholds⟩
            exact ⟨hholds, fun heq => hne heq.1⟩
          · rintro ⟨hholds, hnot⟩
            refine ⟨?_, hholds⟩
            rintro rfl
            obtain ⟨ids, hids, hid'⟩ := hholds
            obtain rfl := Option.some.inj (hids'.symm.trans hids)
            exact hnot ⟨rfl, hsingle id' hid'⟩
      · refine ⟨_, rfl, fun path' id' => ?_⟩
        rw [holds_update]
        split
        · next heq =>
            subst heq
            simp [Holds, hids', hnodup.mem_erase_iff, eq_comm, and_comm]
        · next hne => simp [hne]
  · next hnone => simp [hids] at hnone

theorem delete_of_not_holds (m : LockManager) {path id : String} (h : ¬ m.Holds path id) :
    m.delete path id = .error .keyError := by
  rw [delete]
  split
  · next ids hids =>
      rw [if_neg fun hmem => h ⟨ids, hids, hmem⟩]
  · rfl

end LockManager

end ObjectStorage.Objects
