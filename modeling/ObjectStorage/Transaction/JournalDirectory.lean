import ObjectStorage.Transaction.NodeJournal

/-!
The journal directory through the changes of a write or a recovery: which file is the newest one
with contents, what these contents are, and that a crash leaves them as they were or as they become,
unless it cuts a snapshot.
-/

namespace ObjectStorage.Transaction

open Std Library Journal

namespace JournalDisk

variable {stream : ObjectStream} {disk : JournalDisk} {n m : Nat}

/-- The bytes of a record that was cut. -/
def tornBytes (stream : ObjectStream) : Option (Record × Nat) → Bytes
  | none => []
  | some (record, count) => (frame (Record.encode stream record)).take count

/-- What has been written, with what a cut record has left. -/
def contents (stream : ObjectStream) (disk : JournalDisk) : Bytes :=
  fileBytes (Record.encode stream) disk.written ++ tornBytes stream disk.torn

/-- Nothing has been written yet. -/
structure Blank (disk : JournalDisk) : Prop where
  empty : ∀ m bytes, disk.files[m]? = some bytes → 0 < m ∧ bytes = []
  written : disk.written = []
  torn : disk.torn = none

/-- `n` is the newest file that is not empty, and has what was written. -/
structure Newest (stream : ObjectStream) (disk : JournalDisk) (n : Nat) : Prop where
  positive : ∀ m bytes, disk.files[m]? = some bytes → 0 < m
  newer : ∀ m bytes, disk.files[m]? = some bytes → n < m → bytes = []
  file : disk.files[n]? = some (disk.contents stream)
  header : ∃ last rest, disk.written = .record (.snapshotHeaderRecord last 1) :: rest
  cut : ∀ record count, disk.torn = some (record, count) →
    count < frameSize (Record.encode stream record)

/-- What is left when the node does not run. -/
def Rests (stream : ObjectStream) (disk : JournalDisk) : Prop :=
  Blank disk ∨ ∃ n, Newest stream disk n

theorem Newest.contents_ne_nil (h : Newest stream disk n) : disk.contents stream ≠ [] := by
  obtain ⟨last, rest, hwritten⟩ := h.header
  have hin : .record (.snapshotHeaderRecord last 1) ∈ disk.written :=
    hwritten ▸ List.mem_cons_self
  have hpos := length_pos_of_mem (Record.encode stream) hin
  intro hnil
  have hlength := congrArg List.length hnil
  rw [contents, List.length_append, List.length_nil] at hlength
  omega

/-! ### The files found -/

theorem visit_le (ids : JournalFileIds) (entry : Nat × Bytes) :
    ids.latestFileId ≤ (ids.visit entry).latestFileId ∧
      ids.nextFileId ≤ (ids.visit entry).nextFileId := by
  unfold JournalFileIds.visit
  dsimp only
  split <;> omega

theorem foldl_visit_le (entries : List (Nat × Bytes)) (ids : JournalFileIds) :
    ids.latestFileId ≤ (entries.foldl JournalFileIds.visit ids).latestFileId ∧
      ids.nextFileId ≤ (entries.foldl JournalFileIds.visit ids).nextFileId := by
  induction entries generalizing ids with
  | nil => exact ⟨Nat.le_refl _, Nat.le_refl _⟩
  | cons entry entries ih =>
      have hone := visit_le ids entry
      have hrest := ih (ids.visit entry)
      exact ⟨hone.1.trans hrest.1, hone.2.trans hrest.2⟩

/-- Files with contents are not newer than the latest, and the next id is behind them. -/
theorem foldl_visit_mem {entries : List (Nat × Bytes)} (ids : JournalFileIds) {entry : Nat × Bytes}
    (hin : entry ∈ entries) (hne : entry.2 ≠ []) :
    entry.1 ≤ (entries.foldl JournalFileIds.visit ids).latestFileId ∧
      entry.1 < (entries.foldl JournalFileIds.visit ids).nextFileId := by
  induction entries generalizing ids with
  | nil => cases hin
  | cons first entries ih =>
      rcases List.mem_cons.mp hin with rfl | hin
      · have hfull : entry.2.isEmpty = false := by simpa using hne
        have hrest := foldl_visit_le entries (ids.visit entry)
        have hvisit : entry.1 ≤ (ids.visit entry).latestFileId ∧
            entry.1 < (ids.visit entry).nextFileId := by
          simp only [JournalFileIds.visit, hfull, Bool.false_eq_true, if_false]
          omega
        exact ⟨hvisit.1.trans hrest.1, hvisit.2.trans_le hrest.2⟩
      · exact ih _ hin

theorem foldl_visit_latest (entries : List (Nat × Bytes)) (ids : JournalFileIds) :
    (entries.foldl JournalFileIds.visit ids).latestFileId = ids.latestFileId ∨
      ∃ entry ∈ entries, entry.2 ≠ [] ∧
        (entries.foldl JournalFileIds.visit ids).latestFileId = entry.1 := by
  induction entries generalizing ids with
  | nil => exact .inl rfl
  | cons first entries ih =>
      rcases ih (ids.visit first) with hsame | ⟨entry, hin, hne, hlatest⟩
      · by_cases hfull : first.2 = []
        · left
          rw [List.foldl_cons, hsame]
          simp [JournalFileIds.visit, hfull]
        · have hvisit : (ids.visit first).latestFileId = max ids.latestFileId first.1 := by
            simp [JournalFileIds.visit, hfull]
          rw [List.foldl_cons, hsame, hvisit]
          by_cases hle : first.1 ≤ ids.latestFileId
          · exact .inl (by omega)
          · exact .inr ⟨first, List.mem_cons_self, hfull, by omega⟩
      · exact .inr ⟨entry, List.mem_cons_of_mem _ hin, hne, hlatest⟩

theorem Newest.latestFileId (h : Newest stream disk n) :
    (findLatestJournalFile disk.files).latestFileId = n ∧
      n < (findLatestJournalFile disk.files).nextFileId := by
  have hfile := TreeMap.mem_toList_iff_getElem?_eq_some.mpr h.file
  obtain ⟨hle, hnext⟩ := foldl_visit_mem ⟨0, 1, none⟩ hfile h.contents_ne_nil
  refine ⟨Nat.le_antisymm ?_ hle, hnext⟩
  rcases foldl_visit_latest disk.files.toList ⟨0, 1, none⟩ with hzero | ⟨entry, hin, hne, hlatest⟩
  · exact hzero.trans_le (Nat.zero_le n)
  · have hentry := TreeMap.mem_toList_iff_getElem?_eq_some.mp hin
    refine hlatest.trans_le (Nat.le_of_not_lt fun hlt => hne ?_)
    exact h.newer _ _ hentry hlt

theorem Blank.latestFileId (h : Blank disk) :
    (findLatestJournalFile disk.files).latestFileId = 0 := by
  rcases foldl_visit_latest disk.files.toList ⟨0, 1, none⟩ with hzero | ⟨entry, hin, hne, -⟩
  · exact hzero
  · exact absurd (h.empty _ _ (TreeMap.mem_toList_iff_getElem?_eq_some.mp hin)).2 hne

theorem nextFileId_pos (files : TreeMap Nat Bytes) : 0 < (findLatestJournalFile files).nextFileId :=
  (foldl_visit_le files.toList ⟨0, 1, none⟩).2

theorem mem_cleaned {ids : JournalFileIds} (h : m ∈ ids.cleaned) : m ≤ ids.latestFileId := by
  unfold JournalFileIds.cleaned at h
  split at h
  · cases h
  · rw [List.mem_range'_1] at h
    omega

/-! ### One change -/

theorem contents_append (disk : JournalDisk) (htorn : disk.torn = none)
    (file : List (Segment Record)) (stream : ObjectStream) :
    contents stream { disk with written := disk.written ++ file } =
      disk.contents stream ++ fileBytes (Record.encode stream) file := by
  simp [contents, htorn, tornBytes, fileBytes_append]

theorem Newest.append (h : Newest stream disk n) {disk' : JournalDisk} {bytes : Bytes}
    (hfiles : disk'.files = (disk.appendBytes n bytes).files)
    (hcontents : disk'.contents stream = disk.contents stream ++ bytes)
    (hwritten : ∃ rest, disk'.written = disk.written ++ rest)
    (hcut : ∀ record count, disk'.torn = some (record, count) →
      count < frameSize (Record.encode stream record)) : Newest stream disk' n where
  positive m old hm := by
    rw [hfiles, appendBytes, getElem?_insert_eq] at hm
    split at hm
    · rename_i hn
      exact hn ▸ h.positive n _ h.file
    · exact h.positive m old hm
  newer m old hm hlt := by
    rw [hfiles, appendBytes, getElem?_insert_eq, if_neg hlt.ne] at hm
    exact h.newer m old hm hlt
  file := by
    rw [hfiles, appendBytes, getElem?_insert_eq, if_pos rfl, h.file, hcontents]
    rfl
  header := by
    obtain ⟨last, rest, hheader⟩ := h.header
    obtain ⟨more, hmore⟩ := hwritten
    exact ⟨last, rest ++ more, by rw [hmore, hheader]; rfl⟩
  cut := hcut

theorem Newest.pad (h : Newest stream disk n) (htorn : disk.torn = none) (count : Nat) :
    Newest stream (disk.apply stream (.pad n count)) n := by
  refine h.append rfl ?_ ⟨_, rfl⟩ h.cut
  have hpadding : fileBytes (Record.encode stream) [.padding count] =
      List.replicate count padding := by
    simp [fileBytes, Segment.bytes]
  rw [← hpadding, ← contents_append disk htorn]
  rfl

theorem Newest.store (h : Newest stream disk n) (htorn : disk.torn = none) {record : Record}
    (hrecord : ¬ record.isSnapshotHeader) :
    Newest stream (disk.apply stream (.store n [record])) n := by
  have hnot : ¬ isSnapshot [record] = true := hrecord
  rw [apply, if_neg hnot]
  refine h.append rfl ?_ ⟨_, rfl⟩ h.cut
  rw [recordBytes, ← contents_append disk htorn]
  rfl

theorem Newest.tearRecord (h : Newest stream disk n) (htorn : disk.torn = none) {record : Record}
    (hrecord : ¬ record.isSnapshotHeader) (count : Nat) :
    Newest stream (disk.tear stream count (.store n [record])) n := by
  have hnot : ¬ isSnapshot [record] = true := hrecord
  rw [tear]
  split
  · exact h.store htorn hrecord
  · rename_i hshort
    refine h.append rfl ?_ ⟨[], (List.append_nil _).symm⟩ fun r k htorn' => ?_
    · simp [contents, htorn, tornBytes, recordBytes, fileBytes, Segment.bytes, appendBytes]
    · obtain ⟨rfl, rfl⟩ := Prod.mk.inj (Option.some.inj htorn')
      simpa [recordBytes, fileBytes, Segment.bytes] using hshort

theorem Newest.create (h : Newest stream disk n) (hm : 0 < m) :
    Newest stream (disk.apply stream (.create m)) n where
  positive k old hk := by
    rcases getElem?_insertIfNew_eq_some.mp hk with hk | ⟨-, rfl, -⟩
    · exact h.positive k old hk
    · exact hm
  newer k old hk hlt := by
    rcases getElem?_insertIfNew_eq_some.mp hk with hk | ⟨-, -, rfl⟩
    · exact h.newer k old hk hlt
    · rfl
  file := getElem?_insertIfNew_eq_some.mpr (.inl h.file)
  header := h.header
  cut := h.cut

theorem Blank.create (h : Blank disk) (hm : 0 < m) : Blank (disk.apply stream (.create m)) where
  empty k old hk := by
    rcases getElem?_insertIfNew_eq_some.mp hk with hk | ⟨-, rfl, rfl⟩
    · exact h.empty k old hk
    · exact ⟨hm, rfl⟩
  written := h.written
  torn := h.torn

theorem Newest.remove (h : Newest stream disk n) (hm : m ≠ n) :
    Newest stream (disk.apply stream (.remove m)) n := by
  have hsub : ∀ (k : Nat) (old : Bytes), (disk.files.erase m)[k]? = some old →
      disk.files[k]? = some old := by
    intro k old hk
    rw [getElem?_erase_eq] at hk
    split at hk
    · cases hk
    · exact hk
  exact
    { positive := fun k old hk => h.positive k old (hsub k old hk)
      newer := fun k old hk => h.newer k old (hsub k old hk)
      file := by
        rw [apply, getElem?_erase_eq, if_neg hm]
        exact h.file
      header := h.header
      cut := h.cut }

/-- No file with contents has this id or a larger one. -/
def FreeFrom (disk : JournalDisk) (m : Nat) : Prop :=
  0 < m ∧ (∀ k bytes, disk.files[k]? = some bytes → 0 < k) ∧
    ∀ k bytes, disk.files[k]? = some bytes → m ≤ k → bytes = []

theorem Newest.freeFrom (h : Newest stream disk n) (hm : n < m) : FreeFrom disk m :=
  ⟨by omega, h.positive, fun k bytes hk hle => h.newer k bytes hk (by omega)⟩

theorem Blank.freeFrom (h : Blank disk) (hm : 0 < m) : FreeFrom disk m :=
  ⟨hm, fun k bytes hk => (h.empty k bytes hk).1, fun k bytes hk _ => (h.empty k bytes hk).2⟩

/-- A complete snapshot in a new file is what is recovered from then on. -/
theorem FreeFrom.snapshot (h : FreeFrom disk m) {last : Int} {records : List Record} :
    Newest stream (disk.apply stream (.store m (.snapshotHeaderRecord last 1 :: records))) m := by
  obtain ⟨hpos, hpositive, hfree⟩ := h
  have hsnapshot : isSnapshot (.snapshotHeaderRecord last 1 :: records) = true := rfl
  have hold : disk.files[m]?.getD [] = [] := by
    cases hfile : disk.files[m]? with
    | none => rfl
    | some bytes => exact hfree m bytes hfile (Nat.le_refl m)
  rw [apply, if_pos hsnapshot]
  constructor
  · intro k old hk
    simp only [appendBytes, getElem?_insert_eq] at hk
    split at hk
    · rename_i hmk
      exact hmk ▸ hpos
    · exact hpositive k old hk
  · intro k old hk hlt
    simp only [appendBytes, getElem?_insert_eq, if_neg hlt.ne] at hk
    exact hfree k old hk hlt.le
  · simp [appendBytes, hold, contents, tornBytes, recordBytes]
  · exact ⟨last, _, rfl⟩
  · intro record count hcut
    cases hcut

/-- As long as no byte of a snapshot is written the file for it stays empty. -/
theorem tear_snapshot (disk : JournalDisk) {last : Int} {records : List Record} :
    disk.tear stream 0 (.store m (.snapshotHeaderRecord last 1 :: records)) =
      disk.appendBytes m [] := by
  have hpos : ¬ (recordBytes stream (.snapshotHeaderRecord last 1 :: records)).length ≤ 0 := by
    have hin : .record (.snapshotHeaderRecord last 1) ∈
        (Record.snapshotHeaderRecord last 1 :: records).map Segment.record := List.mem_cons_self
    have hlength := length_pos_of_mem (Record.encode stream) hin
    exact Nat.not_le.mpr hlength
  have hsnapshot : isSnapshot (.snapshotHeaderRecord last 1 :: records) = true := rfl
  rw [tear, if_neg hpos, if_pos hsnapshot]
  rfl

theorem appendNothing_files {k : Nat} {bytes : Bytes}
    (hk : (disk.appendBytes m []).files[k]? = some bytes) :
    disk.files[k]? = some bytes ∨ k = m ∧ bytes = [] := by
  simp only [appendBytes, getElem?_insert_eq] at hk
  split at hk
  · rename_i hmk
    subst hmk
    have hbytes := Option.some.inj hk
    rw [List.append_nil] at hbytes
    cases hfile : disk.files[m]? with
    | none => exact .inr ⟨rfl, by rw [← hbytes, hfile]; rfl⟩
    | some old => exact .inl (by rw [← hbytes, hfile]; rfl)
  · exact .inl hk

theorem Newest.appendNothing (h : Newest stream disk n) (hm : n < m) :
    Newest stream (disk.appendBytes m []) n where
  positive k old hk := by
    rcases appendNothing_files hk with hk | ⟨rfl, -⟩
    · exact h.positive k old hk
    · omega
  newer k old hk hlt := by
    rcases appendNothing_files hk with hk | ⟨-, rfl⟩
    · exact h.newer k old hk hlt
    · rfl
  file := by
    simp only [appendBytes, getElem?_insert_eq, if_neg hm.ne']
    exact h.file
  header := h.header
  cut := h.cut

theorem Blank.appendNothing (h : Blank disk) (hm : 0 < m) : Blank (disk.appendBytes m []) where
  empty k old hk := by
    rcases appendNothing_files hk with hk | ⟨rfl, rfl⟩
    · exact h.empty k old hk
    · exact ⟨hm, rfl⟩
  written := h.written
  torn := h.torn

/-! ### Changes one after the other -/

theorem applyAll_cons (op : DiskOp) (ops : List DiskOp) :
    disk.applyAll stream (op :: ops) = (disk.apply stream op).applyAll stream ops := rfl

theorem crashed_zero (op : DiskOp) (ops : List DiskOp) (count : Nat) :
    disk.crashed stream (op :: ops) 0 count = disk.tear stream count op := rfl

theorem crashed_succ (op : DiskOp) (ops : List DiskOp) (done count : Nat) :
    disk.crashed stream (op :: ops) (done + 1) count =
      (disk.apply stream op).crashed stream ops done count := by
  simp only [crashed, List.getElem?_cons_succ, List.take_succ_cons, applyAll_cons]

/-- The crash comes while a snapshot is written. -/
def CutsSnapshot (ops : List DiskOp) (done count : Nat) : Prop :=
  0 < count ∧ ∃ fileId records, ops[done]? = some (.store fileId records) ∧ isSnapshot records

/-- Changes that lead from the newest file `n` to the newest file `n'`. -/
inductive Chain : Nat → List DiskOp → Nat → Prop where
  | done {n : Nat} : Chain n [] n
  | create {n m n' : Nat} {ops : List DiskOp} (hm : 0 < m) (hrest : Chain n ops n') :
      Chain n (.create m :: ops) n'
  | pad {n n' count : Nat} {ops : List DiskOp} (hrest : Chain n ops n') :
      Chain n (.pad n count :: ops) n'
  | store {n n' : Nat} {record : Record} {ops : List DiskOp} (hrecord : ¬ record.isSnapshotHeader)
      (hrest : Chain n ops n') : Chain n (.store n [record] :: ops) n'
  | snapshot {n m n' : Nat} {last : Int} {records : List Record} {ops : List DiskOp} (hm : n < m)
      (hrest : Chain m ops n') :
      Chain n (.store m (.snapshotHeaderRecord last 1 :: records) :: ops) n'
  | remove {n m n' : Nat} {ops : List DiskOp} (hm : m ≠ n) (hrest : Chain n ops n') :
      Chain n (.remove m :: ops) n'

variable {n' : Nat} {ops : List DiskOp}

theorem Chain.removes {ids : List Nat} (hids : ∀ m ∈ ids, m ≠ n) (hrest : Chain n ops n') :
    Chain n (ids.map .remove ++ ops) n' := by
  induction ids with
  | nil => exact hrest
  | cons m ids ih =>
      exact .remove (hids m List.mem_cons_self) (ih fun k hk => hids k (List.mem_cons_of_mem _ hk))

theorem Chain.applyAll (h : Chain n ops n') (hdisk : Newest stream disk n)
    (htorn : disk.torn = none) :
    Newest stream (disk.applyAll stream ops) n' ∧ (disk.applyAll stream ops).torn = none := by
  induction h generalizing disk with
  | done => exact ⟨hdisk, htorn⟩
  | create hm _ ih => exact ih (hdisk.create hm) htorn
  | pad _ ih => exact ih (hdisk.pad htorn _) htorn
  | @store n n' record ops hrecord _ ih =>
      have hnot : ¬ isSnapshot [record] = true := hrecord
      refine ih (hdisk.store htorn hrecord) ?_
      rw [apply, if_neg hnot]
      exact htorn
  | snapshot hm _ ih => exact ih (hdisk.freeFrom hm).snapshot rfl
  | remove hm _ ih => exact ih (hdisk.remove hm) htorn

/-- Wherever the crash comes, unless it cuts a snapshot, it leaves the newest file in order. -/
theorem Chain.crashed (h : Chain n ops n') (hdisk : Newest stream disk n) (htorn : disk.torn = none)
    {done count : Nat} (hcut : ¬ CutsSnapshot ops done count) :
    ∃ k, Newest stream (disk.crashed stream ops done count) k := by
  have hnext : ∀ {op : DiskOp} {ops : List DiskOp} {done : Nat},
      ¬ CutsSnapshot (op :: ops) (done + 1) count → ¬ CutsSnapshot ops done count :=
    fun hnot => hnot
  induction h generalizing disk done with
  | done => exact ⟨_, hdisk⟩
  | create hm _ ih =>
      cases done with
      | zero => exact ⟨_, hdisk⟩
      | succ done =>
          rw [crashed_succ]
          exact ih (hdisk.create hm) htorn (hnext hcut)
  | pad _ ih =>
      cases done with
      | zero => exact ⟨_, hdisk.pad htorn _⟩
      | succ done =>
          rw [crashed_succ]
          exact ih (hdisk.pad htorn _) htorn (hnext hcut)
  | @store n n' record ops hrecord _ ih =>
      have hnot : ¬ isSnapshot [record] = true := hrecord
      cases done with
      | zero => exact ⟨_, hdisk.tearRecord htorn hrecord _⟩
      | succ done =>
          rw [crashed_succ]
          refine ih (hdisk.store htorn hrecord) ?_ (hnext hcut)
          rw [apply, if_neg hnot]
          exact htorn
  | @snapshot n m n' last records ops hm _ ih =>
      cases done with
      | zero =>
          obtain rfl : count = 0 := by
            refine Nat.eq_zero_of_not_pos fun hpos => hcut ⟨hpos, m, _, rfl, rfl⟩
          rw [crashed_zero, tear_snapshot]
          exact ⟨_, hdisk.appendNothing hm⟩
      | succ done =>
          rw [crashed_succ]
          exact ih (hdisk.freeFrom hm).snapshot rfl (hnext hcut)
  | remove hm _ ih =>
      cases done with
      | zero => exact ⟨_, hdisk⟩
      | succ done =>
          rw [crashed_succ]
          exact ih (hdisk.remove hm) htorn (hnext hcut)

end JournalDisk

end ObjectStorage.Transaction
