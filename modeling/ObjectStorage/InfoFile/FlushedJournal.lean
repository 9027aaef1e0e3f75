import ObjectStorage.InfoFile.CountedFile

/-!
The journal of a container and its info file. However the records are cut into flushes, and however
often they are handed to a flush again after a crash, the file has the objects after the records up
to the offset in its trailer, and the statistics count these objects.
-/

namespace ObjectStorage.InfoFile

open Std Library InfoFileSorter ObjectStorage.Journal Container.Statistics

/-! ### Flushes of one journal -/

/-- The records of a container, each with the offset behind it in the journal. -/
structure OwnJournal (journal : RecordList) : Prop where
  increasing : journal.Pairwise fun e e' => e.1 < e'.1
  short : ∀ e ∈ journal, Short ObjectRecord.name e.2

/-- Every record fits the objects that there are after those in front of it. -/
def Admitted (journal : RecordList) : Prop :=
  Preceded (fun front e => (ObjectMap.ofJournal front).Admits e.2) journal

/-- The records up to an offset. -/
def upTo (journal : RecordList) (offset : JournalOffset) : RecordList :=
  journal.filter fun e => e.1 ≤ offset

/-- A record with its own offset in the journal and the one that it is marked with in memory.
Records that are synchronized together are marked with the offset behind the last of them, those
that are read again with their own. -/
structure MarkedRecord where
  own : JournalOffset
  mark : JournalOffset
  record : ObjectRecord

namespace MarkedRecord

def journaled (p : MarkedRecord) : JournalOffset × ObjectRecord := (p.own, p.record)

def inMemory (p : MarkedRecord) : JournalOffset × ObjectRecord := (p.mark, p.record)

end MarkedRecord

/-- How a piece of the journal is marked while the file is written up to the offset, with the
records that come after the piece. -/
structure Marked (nodeId : Nat) (offset : JournalOffset) (back : RecordList)
    (piece : List MarkedRecord) : Prop where
  increasing : piece.Pairwise fun p p' => p.mark ≤ p'.mark
  node : ∀ p ∈ piece, (ofLex p.mark).1 >>> 56 = nodeId
  own_le : ∀ p ∈ piece, p.own ≤ p.mark
  written : ∀ p ∈ piece, p.own ≤ offset → p.mark ≤ offset
  before : ∀ p ∈ piece, ∀ e ∈ back, p.mark < e.1

/-- A flush of this node is given a piece of the journal, in front of which everything has been
flushed. -/
def FlushesNext (nodeId : Nat) (journal : RecordList) (c : CountedFile) :
    ContainerFile.Operation → Prop
  | .flushContainer node _ records => node = nodeId ∧ ∃ front piece back,
      journal = front ++ piece.map MarkedRecord.journaled ++ back ∧
      records = piece.map MarkedRecord.inMemory ∧
      (∀ e ∈ front, e.1 ≤ c.file.trailer.journalOffset) ∧
      Marked nodeId c.file.trailer.journalOffset back piece
  | _ => True

/-- The file has the objects after the records up to its offset, and counts them. -/
structure Applied (nodeId : Nat) (journal : RecordList) (c : CountedFile) : Prop where
  sound : c.file.Sound
  node : (ofLex c.file.trailer.journalOffset).1 >>> 56 = nodeId
  objects : c.file.Represents (.ofJournal (upTo journal c.file.trailer.journalOffset))
  stat : Admitted journal →
    c.stat = (ObjectMap.ofJournal (upTo journal c.file.trailer.journalOffset)).stat

theorem upTo_eq {journal front back : RecordList} {offset : JournalOffset}
    (hsplit : journal = front ++ back) (hfront : ∀ e ∈ front, e.1 ≤ offset)
    (hback : ∀ e ∈ back, offset < e.1) : upTo journal offset = front := by
  rw [upTo, hsplit, List.filter_append, List.filter_eq_self.mpr, List.filter_eq_nil_iff.mpr,
    List.append_nil]
  · intro e he
    simpa using hback e he
  · intro e he
    simpa using hfront e he

/-! ### Runs -/

section

variable {getHash : String → String} {nodeId : Nat}
  {journal : RecordList} {c c' : CountedFile}

theorem Applied.compaction (h : Applied nodeId journal c) (numRecord : Nat) :
    Applied nodeId journal (c.compaction getHash numRecord) :=
  ⟨h.sound.compaction numRecord, h.node, h.objects.compaction h.sound numRecord,
    fun _ => compactionStat_eq h.sound h.objects⟩

theorem Applied.prepareFlush (h : Applied nodeId journal c) (numRecord : Nat) :
    Applied nodeId journal (c.prepareFlush getHash numRecord) := by
  unfold CountedFile.prepareFlush
  split
  · exact h.compaction numRecord
  · exact h

theorem journalOffset_prepareFlush (c : CountedFile) (numRecord : Nat) :
    (c.prepareFlush getHash numRecord).file.trailer.journalOffset =
      c.file.trailer.journalOffset := by
  unfold CountedFile.prepareFlush
  split <;> rfl

theorem dropWhile_le_eq {α : Type} (f : α → JournalOffset) (l : List α) (offset : JournalOffset) :
    ∃ old new, l = old ++ new ∧ (l.dropWhile fun e => f e ≤ offset) = new ∧
      (∀ e ∈ old, f e ≤ offset) ∧ ∀ e ∈ new.head?, offset < f e := by
  refine ⟨l.takeWhile fun e => f e ≤ offset, l.dropWhile fun e => f e ≤ offset,
    (List.takeWhile_append_dropWhile).symm, rfl, ?_, ?_⟩
  · intro e he
    simpa using List.mem_takeWhile_imp he
  · intro e he
    have hhead := List.head?_dropWhile_not (fun e => decide (f e ≤ offset)) l
    rw [Option.mem_def.mp he] at hhead
    simpa using hhead

/-- All that follow a member behind the offset are behind it. -/
theorem lt_of_head_lt {α : Type} {f : α → JournalOffset} {l : List α} {offset : JournalOffset}
    (hordered : l.Pairwise fun e e' => f e ≤ f e') (hhead : ∀ e ∈ l.head?, offset < f e) {e : α}
    (he : e ∈ l) : offset < f e := by
  cases l with
  | nil => cases he
  | cons first rest =>
    have hfirst : offset < f first := hhead first rfl
    rcases List.mem_cons.mp he with rfl | hin
    · exact hfirst
    · exact hfirst.trans_le (List.rel_of_pairwise_cons hordered hin)

theorem journalOffset_append (c : CountedFile) {records : RecordList} (hne : records ≠ []) :
    (c.append getHash records).file.trailer.journalOffset =
      (records.getLast hne).1 := by
  show (records.getLast?.map (·.1)).getD c.file.trailer.journalOffset = _
  rw [List.getLast?_eq_some_getLast hne]
  rfl

theorem le_journalOffset_append (c : CountedFile) {records : RecordList}
    (hincreasing : records.Pairwise fun e e' => e.1 ≤ e'.1) {e : JournalOffset × ObjectRecord}
    (he : e ∈ records) :
    e.1 ≤ (c.append getHash records).file.trailer.journalOffset := by
  rw [journalOffset_append c (List.ne_nil_of_mem he)]
  exact hincreasing.rel_getLast_of_rel_getLast_getLast he le_rfl

theorem pairwise_inMemory {piece : List MarkedRecord}
    (h : piece.Pairwise fun p p' => p.mark ≤ p'.mark) :
    (piece.map MarkedRecord.inMemory).Pairwise fun e e' => e.1 ≤ e'.1 :=
  List.pairwise_map.mpr h

theorem dropWhile_inMemory (piece : List MarkedRecord) (offset : JournalOffset) :
    ((piece.map MarkedRecord.inMemory).dropWhile fun e => e.1 ≤ offset) =
      (piece.dropWhile fun p => p.mark ≤ offset).map MarkedRecord.inMemory :=
  List.dropWhile_map ..

theorem foldl_count (piece : List MarkedRecord) (stat : FileStat) :
    (piece.map MarkedRecord.inMemory).foldl (fun stat e => FileStat.count stat e.2) stat =
      (piece.map MarkedRecord.journaled).foldl (fun stat e => FileStat.count stat e.2) stat := by
  rw [List.foldl_map, List.foldl_map]
  rfl

/-- Records that follow those in the file are put over its objects. -/
theorem Applied.append (hjournal : OwnJournal journal) (h : Applied nodeId journal c)
    {front back : RecordList} {new : List MarkedRecord}
    (hsplit : journal = front ++ new.map MarkedRecord.journaled ++ back) (hne : new ≠ [])
    (hfront : ∀ e ∈ front, e.1 ≤ c.file.trailer.journalOffset)
    (hmarked : Marked nodeId c.file.trailer.journalOffset back new)
    (hnew : ∀ p ∈ new, c.file.trailer.journalOffset < p.own) : Applied nodeId journal
      (c.append getHash (new.map MarkedRecord.inMemory)) := by
  let c' := c.append getHash (new.map MarkedRecord.inMemory)
  have hne' : new.map MarkedRecord.inMemory ≠ [] := by simpa using hne
  have hmem : ∀ p ∈ new, p.journaled ∈ journal := fun p hp => by
    rw [hsplit]
    exact List.mem_append_left _ (List.mem_append_right _ (List.mem_map_of_mem hp))
  -- the offset of the file is the mark of the last record
  obtain ⟨last, hlast, hoffset⟩ : ∃ p ∈ new, c'.file.trailer.journalOffset = p.mark := by
    obtain ⟨p, hp, heq⟩ := List.mem_map.mp (List.getLast_mem hne')
    refine ⟨p, hp, ?_⟩
    rw [show c'.file.trailer.journalOffset = _ from journalOffset_append c hne', ← heq]
    rfl
  have hle : ∀ p ∈ new, p.mark ≤ c'.file.trailer.journalOffset := fun p hp =>
    le_journalOffset_append c (pairwise_inMemory hmarked.increasing)
      (List.mem_map_of_mem (f := MarkedRecord.inMemory) hp)
  have hforward : c.file.trailer.journalOffset < c'.file.trailer.journalOffset := by
    rw [hoffset]
    exact (hnew last hlast).trans_le (hmarked.own_le last hlast)
  have hold : upTo journal c.file.trailer.journalOffset = front := by
    have hrest : journal = front ++ (new.map MarkedRecord.journaled ++ back) := by
      rw [hsplit, List.append_assoc]
    apply upTo_eq hrest hfront
    intro e he
    rcases List.mem_append.mp he with hin | hin
    · obtain ⟨p, hp, rfl⟩ := List.mem_map.mp hin
      exact hnew p hp
    · refine hforward.trans ?_
      rw [hoffset]
      exact hmarked.before last hlast e hin
  have hall : upTo journal c'.file.trailer.journalOffset =
      front ++ new.map MarkedRecord.journaled := by
    apply upTo_eq hsplit
    · intro e he
      rcases List.mem_append.mp he with hin | hin
      · exact (hfront e hin).trans hforward.le
      · obtain ⟨p, hp, rfl⟩ := List.mem_map.mp hin
        exact (hmarked.own_le p hp).trans (hle p hp)
    · intro e he
      rw [hoffset]
      exact hmarked.before last hlast e he
  have hdata : (new.map MarkedRecord.journaled).map (fun e => dataRecord e.2) =
      (new.map MarkedRecord.inMemory).map fun e => dataRecord e.2 := by
    rw [List.map_map, List.map_map]
    rfl
  have hshort : ∀ e ∈ new.map MarkedRecord.inMemory, Short ObjectRecord.name e.2 := by
    intro e he
    obtain ⟨p, hp, rfl⟩ := List.mem_map.mp he
    exact hjournal.short p.journaled (hmem p hp)
  refine ⟨h.sound.append hshort, ?_, ?_, fun hadmitted => ?_⟩
  · rw [show (c.append getHash _).file.trailer.journalOffset = _ from hoffset]
    exact hmarked.node last hlast
  · show (c.append getHash _).file.Represents
      (.ofJournal (upTo journal c'.file.trailer.journalOffset))
    rw [hall, ObjectMap.ofJournal_append, hdata, ← hold]
    exact h.objects.append h.sound _
  · show (c.append getHash _).stat =
      (ObjectMap.ofJournal (upTo journal c'.file.trailer.journalOffset)).stat
    rw [hall, ← ObjectMap.stat_ofJournal hadmitted hsplit, ← hold, ← h.stat hadmitted,
      ← foldl_count]
    rfl

theorem flushRecords_own {file : ContainerFile} (unknownStatus : Bool) (records : RecordList)
    (hnode : (ofLex file.trailer.journalOffset).1 >>> 56 = nodeId) :
    file.flushRecords getHash nodeId unknownStatus records =
      records.dropWhile fun e => e.1 ≤ file.trailer.journalOffset := by
  rw [ContainerFile.flushRecords, Container.Statistics.flushContainer, if_pos hnode]

/-- What operations leave: the journal applied up to the offset there was or that of one of their
records, and none of these is behind it. -/
structure Advanced (nodeId : Nat) (journal records : RecordList) (offset : JournalOffset)
    (c : CountedFile) : Prop where
  applied : Applied nodeId journal c
  offset_le : offset ≤ c.file.trailer.journalOffset
  records_le : ∀ e ∈ records, e.1 ≤ c.file.trailer.journalOffset
  reached : c.file.trailer.journalOffset = offset ∨
    ∃ e ∈ records, c.file.trailer.journalOffset = e.1

theorem Advanced.compaction {records : RecordList} {offset : JournalOffset}
    (h : Advanced nodeId journal records offset c) (numRecord : Nat) :
    Advanced nodeId journal records offset (c.compaction getHash numRecord) :=
  ⟨h.applied.compaction numRecord, h.offset_le, h.records_le, h.reached⟩

theorem Marked.of_append {offset : JournalOffset} {back : RecordList} {old new : List MarkedRecord}
    (h : Marked nodeId offset back (old ++ new)) : Marked nodeId offset back new where
  increasing := (List.pairwise_append.mp h.increasing).2.1
  node := fun p hp => h.node p (List.mem_append_right _ hp)
  own_le := fun p hp => h.own_le p (List.mem_append_right _ hp)
  written := fun p hp => h.written p (List.mem_append_right _ hp)
  before := fun p hp => h.before p (List.mem_append_right _ hp)

/-- A flush that repeats records leaves them out, and the others follow those in the file. -/
theorem Applied.flushContainer (hjournal : OwnJournal journal) (h : Applied nodeId journal c)
    (unknownStatus : Bool) {front back : RecordList} {piece : List MarkedRecord}
    (hsplit : journal = front ++ piece.map MarkedRecord.journaled ++ back)
    (hfront : ∀ e ∈ front, e.1 ≤ c.file.trailer.journalOffset)
    (hmarked : Marked nodeId c.file.trailer.journalOffset back piece) :
    Advanced nodeId journal (piece.map MarkedRecord.inMemory) c.file.trailer.journalOffset
      (c.flushContainer getHash nodeId unknownStatus
        (piece.map MarkedRecord.inMemory)) := by
  generalize hlength : (piece.map MarkedRecord.inMemory).length = length
  have hprepared : Applied nodeId journal (c.prepareFlush getHash length) :=
    h.prepareFlush length
  have hoffset : (c.prepareFlush getHash length).file.trailer.journalOffset =
    c.file.trailer.journalOffset := journalOffset_prepareFlush c length
  unfold CountedFile.flushContainer
  rw [hlength]
  generalize c.prepareFlush getHash length = c₀ at hprepared hoffset
  rw [← hoffset] at hfront hmarked ⊢
  simp only [flushRecords_own unknownStatus _ hprepared.node]
  obtain ⟨old, new, rfl, hdrop, hold, hnew⟩ :=
    dropWhile_le_eq MarkedRecord.mark piece c₀.file.trailer.journalOffset
  rw [dropWhile_inMemory, hdrop]
  have hmarks : ∀ e ∈ old.map MarkedRecord.inMemory, e.1 ≤ c₀.file.trailer.journalOffset := by
    intro e he
    obtain ⟨p, hp, rfl⟩ := List.mem_map.mp he
    exact hold p hp
  rw [List.map_append]
  split
  next hempty =>
    have hsame : Advanced nodeId journal (old.map MarkedRecord.inMemory ++
        new.map MarkedRecord.inMemory) c₀.file.trailer.journalOffset c₀ := by
      refine ⟨hprepared, le_rfl, ?_, .inl rfl⟩
      rwa [hempty, List.append_nil]
    split
    · exact hsame.compaction 0
    · exact hsame
  next hne =>
    have hnew' : new ≠ [] := by simpa using hne
    have hmarked' : Marked nodeId c₀.file.trailer.journalOffset back new := hmarked.of_append
    have hmark : ∀ p ∈ new, c₀.file.trailer.journalOffset < p.mark := fun p hp =>
      lt_of_head_lt hmarked'.increasing hnew hp
    have hown : ∀ p ∈ new, c₀.file.trailer.journalOffset < p.own := fun p hp =>
      lt_of_not_ge fun hle => (hmark p hp).not_ge (hmarked'.written p hp hle)
    have hrest : journal = front ++ old.map MarkedRecord.journaled ++
        new.map MarkedRecord.journaled ++ back := by
      rw [hsplit, List.map_append, ← List.append_assoc]
    have hbefore : ∀ e ∈ front ++ old.map MarkedRecord.journaled,
        e.1 ≤ c₀.file.trailer.journalOffset := by
      intro e he
      rcases List.mem_append.mp he with hin | hin
      · exact hfront e hin
      · obtain ⟨p, hp, rfl⟩ := List.mem_map.mp hin
        exact (hmarked.own_le p (List.mem_append_left _ hp)).trans (hold p hp)
    have hle : ∀ e ∈ new.map MarkedRecord.inMemory, e.1 ≤ (c₀.append getHash
        (new.map MarkedRecord.inMemory)).file.trailer.journalOffset := fun e he =>
      le_journalOffset_append c₀ (pairwise_inMemory hmarked'.increasing) he
    have hforward : c₀.file.trailer.journalOffset ≤ (c₀.append getHash
        (new.map MarkedRecord.inMemory)).file.trailer.journalOffset := by
      obtain ⟨p, hp⟩ := List.exists_mem_of_ne_nil new hnew'
      exact (hmark p hp).le.trans (hle p.inMemory (List.mem_map_of_mem hp))
    have hadvanced : Advanced nodeId journal (old.map MarkedRecord.inMemory ++
        new.map MarkedRecord.inMemory) c₀.file.trailer.journalOffset
          (c₀.append getHash (new.map MarkedRecord.inMemory)) := by
      refine ⟨hprepared.append hjournal hrest hnew' hbefore hmarked' hown, hforward,
        fun e he => ?_, .inr ⟨_, List.mem_append_right _ (List.getLast_mem hne),
          journalOffset_append c₀ hne⟩⟩
      rcases List.mem_append.mp he with hin | hin
      · exact (hmarks e hin).trans hforward
      · exact hle e hin
    split
    · exact hadvanced.compaction 0
    · exact hadvanced

theorem Applied.step (hjournal : OwnJournal journal) (h : Applied nodeId journal c)
    {operation : ContainerFile.Operation} (hnext : FlushesNext nodeId journal c operation)
    (hstep : c.step getHash operation = some c') :
    Advanced nodeId journal (ContainerFile.handed operation) c.file.trailer.journalOffset c' := by
  cases operation with
  | flushContainer node unknownStatus records =>
      obtain rfl := Option.some.inj hstep
      obtain ⟨rfl, front, piece, back, hsplit, rfl, hfront, hmarked⟩ := hnext
      exact h.flushContainer hjournal unknownStatus hsplit hfront hmarked
  | compaction numRecord =>
      obtain rfl := Option.some.inj hstep
      exact ⟨h.compaction numRecord, le_rfl, fun e he => (by cases he), .inl rfl⟩
  | setContainerStat new =>
      obtain ⟨file, hfile, rfl⟩ := Option.map_eq_some_iff.mp hstep
      simp only [ContainerFile.setContainerStat] at hfile
      split at hfile
      next =>
        obtain rfl := Option.some.inj hfile
        have hversion : supportedVersion ≠ 0 := by decide
        exact ⟨⟨⟨h.sound.length, h.sound.sorted, h.sound.short, hversion⟩, h.node, h.objects,
          h.stat⟩, le_rfl, fun e he => (by cases he), .inl rfl⟩
      next => cases hfile

/-- Along a run the journal stays applied, up to an offset that every record handed to a flush has
reached. -/
theorem Applied.run (hjournal : OwnJournal journal) (h : Applied nodeId journal c)
    {operations : List ContainerFile.Operation}
    (hnext : Along (CountedFile.step getHash) (FlushesNext nodeId journal) c
      operations)
    (hrun : Library.run (CountedFile.step getHash) c operations = some c') :
    Advanced nodeId journal (operations.flatMap ContainerFile.handed)
      c.file.trailer.journalOffset c' := by
  induction operations generalizing c with
  | nil =>
      obtain rfl := Option.some.inj hrun
      exact ⟨h, le_rfl, fun e he => (by cases he), .inl rfl⟩
  | cons operation operations ih =>
      obtain ⟨c₁, hstep, hrest⟩ := Option.bind_eq_some_iff.mp hrun
      have hone := h.step hjournal hnext.1 hstep
      have hall := ih hone.applied (hnext.2 c₁ hstep) hrest
      rw [List.flatMap_cons]
      refine ⟨hall.applied, hone.offset_le.trans hall.offset_le, fun e he => ?_, ?_⟩
      · rcases List.mem_append.mp he with hin | hin
        · exact (hone.records_le e hin).trans hall.offset_le
        · exact hall.records_le e hin
      · rcases hall.reached with hsame | ⟨e, he, hoffset⟩
        · rcases hone.reached with hstart | ⟨e, he, hoffset⟩
          · exact .inl (hsame.trans hstart)
          · exact .inr ⟨e, List.mem_append_left _ he, hsame.trans hoffset⟩
        · exact .inr ⟨e, List.mem_append_right _ he, hoffset⟩

theorem applied_addContainer {offset : JournalOffset} (metadata : Metadata)
    (hnode : (ofLex offset).1 >>> 56 = nodeId) (hoffset : ∀ e ∈ journal, offset < e.1) :
    Applied nodeId journal (.addContainer metadata offset) := by
  have hnone : upTo journal offset = [] := by
    apply List.filter_eq_nil_iff.mpr
    intro e he
    simpa using hoffset e he
  refine ⟨ContainerFile.sound_addContainer metadata offset, hnode, ?_, ?_⟩
  · show ContainerFile.Represents _ (.ofJournal (upTo journal offset))
    rw [hnone]
    exact ContainerFile.represents_addContainer metadata offset
  · intro _
    show (0, 0) = (ObjectMap.ofJournal (upTo journal offset)).stat
    rw [hnone]
    rfl

/-- The file has the records of the journal up to its offset, each once, and among them every record
handed to a flush. If each of them fits the objects that were there, the statistics count what the
file has, as a compaction does. -/
theorem flushes_once (hjournal : OwnJournal journal) {metadata : Metadata}
    {offset : JournalOffset} (hnode : (ofLex offset).1 >>> 56 = nodeId)
    (hoffset : ∀ e ∈ journal, offset < e.1) {operations : List ContainerFile.Operation}
    (hnext : Along (CountedFile.step getHash) (FlushesNext nodeId journal)
      (.addContainer metadata offset) operations)
    (hrun : run (CountedFile.step getHash)
      (.addContainer metadata offset) operations = some c) :
    (∀ e ∈ operations.flatMap ContainerFile.handed, e.1 ≤ c.file.trailer.journalOffset) ∧
      c.file.Represents (.ofJournal (upTo journal c.file.trailer.journalOffset)) ∧
      (Admitted journal →
        c.stat = (ObjectMap.ofJournal (upTo journal c.file.trailer.journalOffset)).stat ∧
          CountedFile.compactionStat getHash c.file = c.stat) := by
  obtain ⟨happlied, -, hhanded, -⟩ :=
    (applied_addContainer metadata hnode hoffset).run hjournal hnext hrun
  refine ⟨hhanded, happlied.objects, fun hadmitted => ?_⟩
  have hstat := happlied.stat hadmitted
  exact ⟨hstat, (compactionStat_eq happlied.sound happlied.objects).trans hstat.symm⟩

end

section

def upload : JournalOffset × ObjectRecord := (toLex (1 <<< 56, 10), ⟨"o", 5, 0, objectAdd⟩)

def overwrite : JournalOffset × ObjectRecord := (toLex (1 <<< 56, 20), ⟨"o", 7, 5, objectModify⟩)

theorem ownJournal_overwrite : OwnJournal [upload, overwrite] where
  increasing := by decide
  short := by
    intro e he
    rcases List.mem_pair.mp he with rfl | rfl <;> exact ⟨by decide +kernel, by decide +kernel⟩

theorem admitted_overwrite : Admitted [upload, overwrite] := by
  intro front e back hsplit
  rcases front with _ | ⟨e', _ | ⟨e'', front⟩⟩
  · obtain ⟨rfl, -⟩ := List.cons.inj hsplit
    exact .inl ⟨rfl, rfl⟩
  · obtain ⟨rfl, hrest⟩ := List.cons.inj hsplit
    obtain ⟨rfl, -⟩ := List.cons.inj hrest
    exact .inr (.inl ⟨rfl, _, rfl, rfl⟩)
  · obtain ⟨-, hrest⟩ := List.cons.inj hsplit
    obtain ⟨-, hrest⟩ := List.cons.inj hrest
    cases front <;> cases hrest

/-- Two records that are synchronized together are flushed, and handed to a flush again after they
have been read from the journal. -/
theorem flushes_once_overwrite : ∃ c, run (CountedFile.step id)
    (.addContainer ∅ (toLex (1 <<< 56, 0)))
    [.flushContainer 1 false [(overwrite.1, upload.2), overwrite], .compaction 0,
      .flushContainer 1 false [upload, overwrite]] = some c ∧
    (∀ e ∈ [(overwrite.1, upload.2), overwrite, upload, overwrite],
      e.1 ≤ c.file.trailer.journalOffset) ∧
      c.file.Represents (.ofJournal (upTo [upload, overwrite] c.file.trailer.journalOffset)) ∧
      c.stat = (ObjectMap.ofJournal (upTo [upload, overwrite] c.file.trailer.journalOffset)).stat ∧
      CountedFile.compactionStat id c.file = c.stat := by
  have hnext : Along (CountedFile.step id) (FlushesNext 1 [upload, overwrite])
      (.addContainer ∅ (toLex (1 <<< 56, 0)))
      [.flushContainer 1 false [(overwrite.1, upload.2), overwrite], .compaction 0,
        .flushContainer 1 false [upload, overwrite]] := by
    refine ⟨⟨rfl, [], [⟨upload.1, overwrite.1, upload.2⟩, ⟨overwrite.1, overwrite.1, overwrite.2⟩],
      [], rfl, rfl, by simp, by decide, by decide, by decide, by decide, by simp⟩, fun _ _ => ?_⟩
    refine ⟨trivial, fun _ _ => ⟨?_, fun _ _ => trivial⟩⟩
    exact ⟨rfl, [], [⟨upload.1, upload.1, upload.2⟩, ⟨overwrite.1, overwrite.1, overwrite.2⟩], [],
      rfl, rfl, by simp, by decide, by decide, by decide, by simp, by simp⟩
  refine ⟨_, rfl, ?_⟩
  obtain ⟨hhanded, hobjects, hstat⟩ :=
    flushes_once ownJournal_overwrite (by decide) (by decide) hnext rfl
  exact ⟨hhanded, hobjects, hstat admitted_overwrite⟩

end

end ObjectStorage.InfoFile
