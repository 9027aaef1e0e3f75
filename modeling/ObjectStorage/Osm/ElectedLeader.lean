import Mathlib.Data.List.Induction
import Mathlib.Data.List.Pairwise
import Mathlib.Data.List.Sort
import ObjectStorage.Osm.ElectionSlots
import ObjectStorage.Records.RecordRoundTrip

/-!
The greatest participant is elected exactly if the election file fits into the buffer and the
records into their slots.
-/

namespace ObjectStorage.Osm.ElectionSlots

open Journal Library Transaction

variable {s : Records.ObjectStream} {unset : { n : Int // FitsInt64 n }}

/-! ### One slot -/

theorem electionRecord_eq (s : Records.ObjectStream) (id : String) :
    electionRecord s id = s.putInt Records.ELECTION_RECORD ++
      (Records.ElectionRecord.xserialize s).put ⟨id, DEFAULT_CONNECTIVITY_COUNT⟩ := rfl

theorem getInt_electionRecord (hs : s.Lawful) (rest : Bytes) :
    s.getInt (s.putInt Records.ELECTION_RECORD ++ rest) = some (Records.ELECTION_RECORD, rest) :=
  hs.base.int _ _ (by decide)

theorem deserialize_electionType (hs : s.Lawful) (body : Bytes) :
    deserialize s unset (s.putInt Records.ELECTION_RECORD ++ body) =
      match (Records.ElectionRecord.xserialize s).get body with
      | some (r, _) => .record (.election r)
      | none => .raised := by
  have hknown : Records.ELECTION_RECORD ∈ knownTypes := by decide
  have hbody : Records.readBody s Records.ELECTION_RECORD body =
      ((Records.ElectionRecord.xserialize s).get body).map (Records.Record.election ·.1) := rfl
  have hread : Records.deserializeRecord s unset (s.putInt Records.ELECTION_RECORD ++ body) =
      ((Records.ElectionRecord.xserialize s).get body).map (Records.Record.election ·.1) := by
    rw [Records.deserializeRecord_body hs unset (by decide) body (by decide), hbody]
  unfold deserialize
  rw [getInt_electionRecord hs body]
  simp only [if_pos hknown, hread]
  cases (Records.ElectionRecord.xserialize s).get body <;> rfl

/-- A record is read whatever follows it in its slot. -/
theorem deserialize_electionRecord (hs : s.Lawful) (id : String) (rest : Bytes) :
    deserialize s unset (electionRecord s id ++ rest) =
      .record (.election ⟨id, DEFAULT_CONNECTIVITY_COUNT⟩) := by
  rw [electionRecord_eq, List.append_assoc, deserialize_electionType hs,
    Records.electionRecord_lawful hs _ rest]

theorem electionRecord_endsShort (hs : s.Lawful) (hend : RaisesAtEnd s)
    (r : Records.ElectionRecord) : (Records.ElectionRecord.xserialize s).EndsShort r := by
  have hcount : s.int32.EndsShort r.connectionCount := by
    intro bs hfront hne
    have hnone := hend.int _ bs (fitsInt_toInt r.connectionCount) hfront hne
    show Osm.getInt32 s.toObjectStream bs = none
    rw [Osm.getInt32, hnone, Option.map_none]
  have hid : s.string.EndsShort r.nodeId := hend.string r.nodeId
  exact Codec.EndsShort.imap (hid.seq (hs.string r.nodeId) hcount)

theorem deserialize_short (hs : s.Lawful) (hend : RaisesAtEnd s) {id : String} {bs : Bytes}
    (hfront : bs <+: electionRecord s id) (hne : bs ≠ electionRecord s id) :
    deserialize s unset bs = .raised := by
  rw [electionRecord_eq] at hfront hne
  rcases Codec.prefix_append_cases hfront with ⟨hshort, hlt⟩ | ⟨body, rfl, hbody⟩
  · have hnone := hend.int Records.ELECTION_RECORD bs (by decide) hshort hlt
    rw [deserialize, hnone]
  · have hlt : body ≠ (Records.ElectionRecord.xserialize s).put ⟨id, DEFAULT_CONNECTIVITY_COUNT⟩ :=
      fun h => hne (h ▸ rfl)
    rw [deserialize_electionType hs body, electionRecord_endsShort hs hend _ body hbody hlt]

/-! ### The file -/

variable {ids order written : List String} {file : Bytes}

theorem length_sorted (ids : List String) : (sorted ids).length = ids.length :=
  List.length_mergeSort ids

theorem mem_sorted {id : String} : id ∈ sorted ids ↔ id ∈ ids := List.mem_mergeSort

theorem idxOf_lt {id : String} (h : id ∈ ids) : (sorted ids).idxOf id < ids.length := by
  rw [← length_sorted ids]
  exact List.idxOf_lt_length_of_mem (mem_sorted.mpr h)

theorem participate_of_mem {id : String} (h : id ∈ ids) : participate s ids file id =
    some (overwrite 0 file ((sorted ids).idxOf id * ELECTION_RECORD_SIZE)
      (electionRecord s id)) := by
  have hindex : findIndex (sorted ids) id = (sorted ids).idxOf id := if_pos (mem_sorted.mpr h)
  unfold participate
  rw [hindex]
  exact if_neg (by unfold ELECTION_RECORD_SIZE; omega)

/-- The index -1 of an absent node gives an offset in front of the file. -/
theorem participate_of_not_mem {id : String} (h : id ∉ ids) : participate s ids file id = none := by
  have hindex : findIndex (sorted ids) id = -1 := if_neg (mt mem_sorted.mp h)
  unfold participate
  rw [hindex]
  exact if_pos (by decide)

theorem mem_participants {id : String} :
    id ∈ participants ids order ↔ id ∈ order ∧ id ∈ ids := by
  simp [participants]

/-- Those of `written` have their slots, and the other slots are as they were filled. -/
structure Holds (s : Records.ObjectStream) (ids written : List String) (file : Bytes) : Prop where
  length : file.length = ids.length * ELECTION_RECORD_SIZE
  records : ∀ id ∈ participants ids written,
    electionRecord s id <+: slotAt ELECTION_RECORD_SIZE file ((sorted ids).idxOf id)
  empty : ∀ j < ids.length, (∀ id ∈ participants ids written, (sorted ids).idxOf id ≠ j) →
    slotAt ELECTION_RECORD_SIZE file j = List.replicate ELECTION_RECORD_SIZE 0

theorem holds_filled (s : Records.ObjectStream) (ids : List String) :
    Holds s ids [] (List.replicate (ids.length * ELECTION_RECORD_SIZE) 0) where
  length := List.length_replicate
  records id hid := by simp [participants] at hid
  empty j hj _ := by
    have hle : (j + 1) * ELECTION_RECORD_SIZE ≤ ids.length * ELECTION_RECORD_SIZE :=
      Nat.mul_le_mul_right _ hj
    have hsucc : (j + 1) * ELECTION_RECORD_SIZE = j * ELECTION_RECORD_SIZE + ELECTION_RECORD_SIZE :=
      Nat.succ_mul _ _
    rw [slotAt, List.drop_replicate, List.take_replicate]
    congr 1
    omega

theorem Holds.participate (h : Holds s ids written file) (id : String)
    (hlength : id ∈ ids → (electionRecord s id).length ≤ ELECTION_RECORD_SIZE) :
    Holds s ids (written ++ [id]) ((participate s ids file id).getD file) := by
  by_cases hid : id ∈ ids
  · have hshort := hlength hid
    have hlt := idxOf_lt hid
    have hslot : ((sorted ids).idxOf id + 1) * ELECTION_RECORD_SIZE ≤ file.length := by
      rw [h.length]
      exact Nat.mul_le_mul_right _ hlt
    have hsucc : ((sorted ids).idxOf id + 1) * ELECTION_RECORD_SIZE =
        (sorted ids).idxOf id * ELECTION_RECORD_SIZE + ELECTION_RECORD_SIZE := Nat.succ_mul _ _
    have hmem : ∀ other, other ∈ participants ids (written ++ [id]) ↔
        other ∈ participants ids written ∨ other = id := by
      intro other
      simp only [mem_participants, List.mem_append, List.mem_singleton]
      exact ⟨fun h => h.1.imp (⟨·, h.2⟩) (·), fun h => h.elim (fun h => ⟨.inl h.1, h.2⟩)
        fun h => ⟨.inr h, h ▸ hid⟩⟩
    rw [participate_of_mem hid, Option.getD_some]
    refine ⟨?_, fun other hother => ?_, fun j hj hfree => ?_⟩
    · rw [length_overwrite (by omega), h.length]
    · by_cases hsame : other = id
      · subst hsame
        rw [slotAt_overwrite_self hslot hshort]
        exact List.prefix_append _ _
      · have hother' := ((hmem other).mp hother).resolve_right hsame
        have hne : (sorted ids).idxOf other ≠ (sorted ids).idxOf id := fun heq =>
          hsame ((List.idxOf_inj (mem_sorted.mpr (mem_participants.mp hother').2)).mp heq)
        rw [slotAt_overwrite_ne hslot hshort hne]
        exact h.records other hother'
    · have hne : j ≠ (sorted ids).idxOf id := (hfree id ((hmem id).mpr (.inr rfl))).symm
      rw [slotAt_overwrite_ne hslot hshort hne]
      exact h.empty j hj fun other hother => hfree other ((hmem other).mpr (.inl hother))
  · have hsame : participants ids (written ++ [id]) = participants ids written := by
      simp [participants, hid]
    rw [participate_of_not_mem hid, Option.getD_none]
    exact ⟨h.length, by rw [hsame]; exact h.records, by rw [hsame]; exact h.empty⟩

theorem holds_electionFile (hfits : Fits s ids order) :
    ∃ file, electionFile s ids order = some file ∧ Holds s ids order file := by
  have hcreate : createElectionFile (ids.length * ELECTION_RECORD_SIZE) =
      some (List.replicate (ids.length * ELECTION_RECORD_SIZE) 0) := if_neg (not_lt.mpr hfits.1)
  refine ⟨_, by rw [electionFile, hcreate, Option.map_some], ?_⟩
  have hshort : ∀ id ∈ order, id ∈ ids → (electionRecord s id).length ≤ ELECTION_RECORD_SIZE :=
    fun id hid hin => hfits.2 id (mem_participants.mpr ⟨hid, hin⟩)
  clear hfits
  induction order using List.reverseRecOn with
  | nil => exact holds_filled s ids
  | append_singleton order id ih =>
      rw [List.foldl_append]
      exact (ih fun id hid => hshort id (List.mem_append_left _ hid)).participate id
        (hshort id (List.mem_append_right _ (List.mem_singleton_self id)))

/-! ### The leader -/

theorem mapM_eq_some_iff {α β : Type} {f : α → Option β} {l : List α} {found : List β} :
    l.mapM f = some found ↔ l.map f = found.map some := by
  induction l generalizing found with
  | nil => cases found <;> simp
  | cons a l ih =>
      rw [List.mapM_cons]
      cases ha : f a with
      | none => cases found <;> simp [ha]
      | some b => cases hl : l.mapM f <;> cases found <;> simp [ha, hl, ← ih]

theorem getLast?_mergeSort {l : List String} (hl : l ≠ []) :
    ∃ leader, (l.mergeSort (· ≤ ·)).getLast? = some leader ∧ IsGreatest { id | id ∈ l } leader := by
  have hne : l.mergeSort (· ≤ ·) ≠ [] := by
    rwa [← List.length_pos_iff, List.length_mergeSort, List.length_pos_iff]
  refine ⟨_, List.getLast?_eq_some_getLast hne, ?_, fun id hid => ?_⟩
  · exact List.mem_mergeSort.mp (List.getLast_mem hne)
  · exact (List.pairwise_mergeSort' (· ≤ ·) l).rel_getLast (List.mem_mergeSort.mpr hid)

/-- What `getGL` reads is what stands in the slots of the file. -/
theorem getGL_eq_some_iff {leader : String} :
    getGL s unset ELECTION_RECORD_SIZE (ids.length * ELECTION_RECORD_SIZE) file = some leader ↔
      (file.take bufferSize).length = ids.length * ELECTION_RECORD_SIZE ∧
      ∃ found : List (Option String),
        ((List.range ids.length).map fun j =>
          (deserialize s unset (slotAt ELECTION_RECORD_SIZE file j)).nodeId) = found.map some ∧
        ((found.filterMap id).mergeSort (· ≤ ·)).getLast? = some leader := by
  have hcount : (ids.length * ELECTION_RECORD_SIZE + ELECTION_RECORD_SIZE - 1) /
      ELECTION_RECORD_SIZE = ids.length := by
    unfold ELECTION_RECORD_SIZE
    omega
  simp only [getGL, hcount]
  by_cases hread : (file.take bufferSize).length = ids.length * ELECTION_RECORD_SIZE
  · have hslots : ((List.range ids.length).map fun j => (deserialize s unset
        (slotAt ELECTION_RECORD_SIZE (file.take bufferSize ++ List.replicate (bufferSize -
          (file.take bufferSize).length) 0) j)).nodeId) =
        (List.range ids.length).map fun j =>
          (deserialize s unset (slotAt ELECTION_RECORD_SIZE file j)).nodeId := by
      refine List.map_congr_left fun j hj => ?_
      have hle : (j + 1) * ELECTION_RECORD_SIZE ≤ (file.take bufferSize).length := by
        rw [hread]
        exact Nat.mul_le_mul_right _ (List.mem_range.mp hj)
      rw [slotAt_of_isPrefix (List.prefix_append _ _) hle,
        slotAt_of_isPrefix (List.take_prefix bufferSize file) hle]
    rw [if_neg (not_not.mpr hread), Option.bind_eq_some_iff]
    simp only [mapM_eq_some_iff]
    rw [hslots]
    exact (and_iff_right hread).symm
  · rw [if_pos hread]
    exact iff_of_false nofun fun h => hread h.1

/-- Who has written into a slot. -/
def writer (ids written : List String) (j : Nat) : Option String :=
  (participants ids written).find? fun id => (sorted ids).idxOf id = j

theorem writer_eq_some_iff {id : String} {j : Nat} :
    writer ids written j = some id ↔
      id ∈ participants ids written ∧ (sorted ids).idxOf id = j := by
  unfold writer
  constructor
  · intro h
    exact ⟨List.mem_of_find?_eq_some h, by simpa using List.find?_some h⟩
  · rintro ⟨hid, hj⟩
    cases hfind : (participants ids written).find? fun id => (sorted ids).idxOf id = j with
    | none => exact absurd (List.find?_eq_none.mp hfind id hid) (by simpa using hj)
    | some other =>
        have hother : (sorted ids).idxOf other = j := by simpa using List.find?_some hfind
        have hsame := hj.trans hother.symm
        have hin := mem_sorted.mpr (mem_participants.mp hid).2
        rw [(List.idxOf_inj hin).mp hsame]

theorem Holds.nodeId (hs : s.Lawful)
    (hzero : deserialize s unset (List.replicate ELECTION_RECORD_SIZE 0) = .null)
    (h : Holds s ids written file) {j : Nat} (hj : j < ids.length) :
    (deserialize s unset (slotAt ELECTION_RECORD_SIZE file j)).nodeId =
      some (writer ids written j) := by
  cases hwriter : writer ids written j with
  | none =>
      have hfree : ∀ id ∈ participants ids written, (sorted ids).idxOf id ≠ j := by
        intro id hid hsame
        rw [writer_eq_some_iff.mpr ⟨hid, hsame⟩] at hwriter
        cases hwriter
      rw [h.empty j hj hfree, hzero]
      rfl
  | some id =>
      obtain ⟨hid, rfl⟩ := writer_eq_some_iff.mp hwriter
      obtain ⟨rest, hrest⟩ := h.records id hid
      rw [← hrest, deserialize_electionRecord hs]
      rfl

theorem mem_writers {id : String} :
    id ∈ (List.range ids.length).filterMap (writer ids written) ↔
      id ∈ participants ids written := by
  rw [List.mem_filterMap]
  constructor
  · rintro ⟨j, _, hj⟩
    exact (writer_eq_some_iff.mp hj).1
  · intro hid
    exact ⟨_, List.mem_range.mpr (idxOf_lt (mem_participants.mp hid).2),
      writer_eq_some_iff.mpr ⟨hid, rfl⟩⟩

theorem elects_of_fits (hs : s.Lawful)
    (hzero : deserialize s unset (List.replicate ELECTION_RECORD_SIZE 0) = .null)
    (hsome : participants ids order ≠ []) (hfits : Fits s ids order) :
    Elects s unset ids order := by
  obtain ⟨file, hfile, h⟩ := holds_electionFile hfits
  have hwriters : (List.range ids.length).filterMap (writer ids order) ≠ [] := by
    obtain ⟨id, hid⟩ := List.exists_mem_of_ne_nil _ hsome
    exact List.ne_nil_of_mem (mem_writers.mpr hid)
  obtain ⟨leader, hlast, hgreatest⟩ := getLast?_mergeSort hwriters
  refine ⟨file, hfile, fun id hid => ?_, leader, ?_, ?_⟩
  · have hfront : electionRecord s id <+:
        file.drop ((sorted ids).idxOf id * ELECTION_RECORD_SIZE) :=
      (h.records id hid).trans (List.take_prefix _ _)
    exact (List.prefix_iff_eq_take.mp hfront).symm
  · refine getGL_eq_some_iff.mpr ⟨?_, (List.range ids.length).map (writer ids order), ?_, ?_⟩
    · have hsize := hfits.1
      rw [List.length_take, h.length]
      omega
    · rw [List.map_map]
      exact List.map_congr_left fun j hj => h.nodeId hs hzero (List.mem_range.mp hj)
    · rw [List.filterMap_map]
      exact hlast
  · simpa only [mem_writers] using hgreatest

theorem fits_of_elects (hs : s.Lawful) (hend : RaisesAtEnd s) (h : Elects s unset ids order) :
    Fits s ids order := by
  obtain ⟨file, hfile, hrecords, leader, hleader, -⟩ := h
  refine ⟨?_, fun id hid => ?_⟩
  · by_contra hlarge
    have hcreate : createElectionFile (ids.length * ELECTION_RECORD_SIZE) = none :=
      if_pos (not_le.mp hlarge)
    rw [electionFile, hcreate] at hfile
    cases hfile
  · by_contra hlong
    obtain ⟨-, found, hfound, -⟩ := getGL_eq_some_iff.mp hleader
    -- the slot ends within the record
    have hslot : slotAt ELECTION_RECORD_SIZE file ((sorted ids).idxOf id) =
        (electionRecord s id).take ELECTION_RECORD_SIZE := by
      rw [← hrecords id hid, recordAt, List.take_take, Nat.min_eq_left (by omega), slotAt]
    have hraised : deserialize s unset (slotAt ELECTION_RECORD_SIZE file
        ((sorted ids).idxOf id)) = .raised := by
      rw [hslot]
      refine deserialize_short hs hend (List.take_prefix _ _) fun hsame => hlong ?_
      rw [← hsame]
      exact List.length_take_le _ _
    have hin := idxOf_lt (mem_participants.mp hid).2
    have hread := List.mem_map_of_mem (f := fun j =>
      (deserialize s unset (slotAt ELECTION_RECORD_SIZE file j)).nodeId) (List.mem_range.mpr hin)
    rw [hfound] at hread
    obtain ⟨_, _, heq⟩ := List.mem_map.mp hread
    rw [hraised] at heq
    cases heq

/-! ### The plain stream -/

open Records.ObjectStream (plain plain_lawful)
open Transaction.ObjectStream (putItems getItems)

theorem length_lt_of_isPrefix {α : Type} {bs whole : List α} (h : bs <+: whole) (hne : bs ≠ whole) :
    bs.length < whole.length :=
  lt_of_le_of_ne h.length_le fun hlength => hne (h.eq_of_length hlength)

theorem getItems_short {α : Type} {c : Codec α} (hc : c.Lawful) (hend : ∀ a, c.EndsShort a)
    {l : List α} {bs : Bytes} (hfront : bs <+: putItems c.put l) (hne : bs ≠ putItems c.put l)
    (n : Nat) : getItems c.get n bs = none := by
  induction l generalizing bs n with
  | nil =>
      have hlength := length_lt_of_isPrefix hfront hne
      obtain rfl : bs = [] := by simpa [putItems] using hlength
      cases n <;> rfl
  | cons a l ih =>
      cases n with
      | zero => rfl
      | succ n =>
          rw [putItems, List.cons_append] at hfront hne
          cases bs with
          | nil => rfl
          | cons b bs =>
              obtain ⟨rfl, hrest⟩ := List.cons_prefix_cons.mp hfront
              have hne : bs ≠ c.put a ++ putItems c.put l := fun h => hne (h ▸ rfl)
              have hone : ¬ (1 : UInt8) = 0 := by decide
              rcases Codec.prefix_append_cases hrest with ⟨hshort, hlt⟩ | ⟨body, rfl, hbody⟩
              · simp [getItems, hone, hend a bs hshort hlt]
              · have hlt : body ≠ putItems c.put l := fun h => hne (h ▸ rfl)
                simp [getItems, hone, hc a body, ih hbody hlt n]

/-- A character of a string. -/
def character : Codec Char where
  put c := leBytes 4 c.toNat
  get bs := if bs.length < 4 then none else some (Char.ofNat (leValue (bs.take 4)), bs.drop 4)

theorem character_lawful : character.Lawful := by
  intro c rest
  have hnot : ¬ (leBytes 4 c.toNat ++ rest).length < 4 := by simp
  have hvalue : leValue (leBytes 4 c.toNat) = c.toNat := by
    rw [leValue_leBytes]
    exact Nat.mod_eq_of_lt c.val.toNat_lt
  simp only [character]
  rw [if_neg hnot, List.take_left' (length_leBytes _ _), List.drop_left' (length_leBytes _ _),
    hvalue, Char.ofNat_toNat]

theorem character_endsShort (c : Char) : character.EndsShort c := by
  intro bs hfront hne
  have hlength := length_lt_of_isPrefix hfront hne
  have hfour : (character.put c).length = 4 := length_leBytes _ _
  rw [hfour] at hlength
  exact if_pos hlength

theorem plain_raisesAtEnd : RaisesAtEnd plain where
  int n bs _ hfront hne := by
    have hlength := length_lt_of_isPrefix hfront hne
    have hfour : (plain.putInt n).length = 4 := length_leBytes _ _
    rw [hfour] at hlength
    exact if_pos hlength
  string text bs hfront hne := by
    have hnone := getItems_short character_lawful character_endsShort (l := text.toList)
      hfront hne (bs.length + 1)
    exact congrArg (Option.map _) hnone

/-- At the end of an election the greatest participant is elected, with no record damaged by
another, exactly if the file and the records fit. -/
theorem elects_iff_fits (hs : s.Lawful) (hend : RaisesAtEnd s)
    (hzero : deserialize s unset (List.replicate ELECTION_RECORD_SIZE 0) = .null)
    (hsome : participants ids order ≠ []) : Elects s unset ids order ↔ Fits s ids order :=
  ⟨fits_of_elects hs hend, elects_of_fits hs hzero hsome⟩

theorem elects_two_nodes :
    Elects plain ⟨0, by decide⟩ ["n2", "n1", "n3"] ["n2", "n1", "n7"] :=
  (elects_iff_fits plain_lawful plain_raisesAtEnd (by decide) (by decide)).mpr
    ⟨by decide, by decide⟩

/-- With a name of the usual length, a node alone writes more than its slot, and nobody is
elected. -/
theorem long_id_not_elected : ¬ ∀ (s : Records.ObjectStream) (unset : { n : Int // FitsInt64 n })
    (ids order : List String), s.Lawful → RaisesAtEnd s →
    deserialize s unset (List.replicate ELECTION_RECORD_SIZE 0) = .null →
    participants ids order ≠ [] → Elects s unset ids order := by
  intro hall
  have hfits := fits_of_elects plain_lawful plain_raisesAtEnd
    (hall plain ⟨0, by decide⟩ ["storage-node-0001.site-a_61014"]
      ["storage-node-0001.site-a_61014"] plain_lawful plain_raisesAtEnd (by decide)
      (by decide +kernel))
  exact absurd (hfits.2 "storage-node-0001.site-a_61014" (by decide +kernel)) (by decide +kernel)

end ObjectStorage.Osm.ElectionSlots
