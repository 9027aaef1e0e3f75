import ObjectStorage.Updater.StatFiles

/-!
No name is forgotten while the updater takes only files that the container service has left, in
whole names and to their end.
-/

namespace ObjectStorage.Updater.StatFiles

open Library

section Text

@[simp] theorem bytes_nil : bytes [] = [] := rfl

@[simp] theorem bytes_cons (r : Text) (records : List Text) :
    bytes (r :: records) = r ++ ',' :: bytes records := by
  simp [bytes]

theorem bytes_append (records records' : List Text) :
    bytes (records ++ records') = bytes records ++ bytes records' := by
  simp [bytes]

theorem fields_append {r : Text} (h : ',' ∉ r) (acc rest : Text) :
    fields acc (r ++ ',' :: rest) = (acc ++ r) :: fields [] rest := by
  induction r generalizing acc with
  | nil => simp [fields]
  | cons c r ih =>
    obtain ⟨hc, hr⟩ := not_or.mp (mt List.mem_cons.mpr h)
    rw [List.cons_append, fields, if_neg (Ne.symm hc), ih hr]
    simp

theorem fields_bytes {records : List Text} (h : ∀ r ∈ records, ',' ∉ r) :
    fields [] (bytes records) = records := by
  induction records with
  | nil => rfl
  | cons r records ih =>
    rw [bytes_cons, fields_append (h r List.mem_cons_self), List.nil_append,
      ih fun r' hr' => h r' (List.mem_cons_of_mem _ hr')]

theorem take_bytes {records : List Text} (h : ∀ r ∈ records, ',' ∉ r) (n : Nat)
    (hend : ∀ c ∈ ((bytes records).take n).getLast?, c = ',') :
    ∃ k, (bytes records).take n = bytes (records.take k) := by
  induction records generalizing n with
  | nil => exact ⟨0, by simp⟩
  | cons r records ih =>
    obtain ⟨hr, hrest⟩ := List.forall_mem_cons.mp h
    rw [bytes_cons] at hend ⊢
    by_cases hn : n ≤ r.length
    · -- the chunk ends inside the first record
      rw [List.take_append_of_le_length hn] at hend ⊢
      cases hlast : (r.take n).getLast? with
      | none =>
        rw [List.getLast?_eq_none_iff] at hlast
        exact ⟨0, by simp [hlast]⟩
      | some c =>
        obtain rfl := hend c hlast
        exact absurd (List.mem_of_mem_take (List.mem_of_getLast? hlast)) hr
    · obtain ⟨m, rfl⟩ : ∃ m, n = r.length + (m + 1) := ⟨n - r.length - 1, by omega⟩
      rw [List.take_length_add_append, List.take_succ_cons] at hend ⊢
      have hend' : ∀ c ∈ ((bytes records).take m).getLast?, c = ',' := by
        intro c hc
        refine hend c ?_
        rw [Option.mem_def] at hc ⊢
        simp [List.getLast?_append, List.getLast?_cons, hc]
      obtain ⟨k, hk⟩ := ih hrest m hend'
      exact ⟨k + 1, by rw [hk, List.take_succ_cons, bytes_cons]⟩

end Text

namespace State

/-- The file that the container service has open for a component. -/
def openFile (s : State) (component : Component) : Option File :=
  (s.updaterMap component).bind fun mgr => s.files[mgr.file]?

/-- No file has the name that a new file would get, except the one that is open. -/
def Fresh (s : State) (component : Component) : Prop :=
  ∀ f ∈ s.files, f.key = (component, s.second) → s.openFile component = some f

/-- The file of this name is not open. -/
def NotOpen (s : State) (key : Key) : Prop :=
  ∀ f ∈ s.openFile key.1, f.key ≠ key

/-- There is a file of this name, and it is not open. -/
def Closed (s : State) (key : Key) : Prop :=
  (∃ f ∈ s.files, f.key = key) ∧ s.NotOpen key

/-- The reader has read every record of the file. -/
def AllRead (s : State) (key : Key) : Prop :=
  ∀ f ∈ s.files, f.key = key → ∀ r ∈ f.records, (key, r) ∈ s.readLog

/-- The names of files that the updater has got hold of. -/
def taken (s : State) : List Key :=
  s.oldStatFiles ++ s.walkerMap ++ (s.reading.map Reading.key).toList ++ s.readerMap ++ s.statMap ++
    s.sweeperList ++ s.entry.toList ++ s.readLog.map Prod.fst

/-- The names of files that count as read. -/
def finished (s : State) : List Key :=
  s.readerMap ++ s.statMap ++ s.sweeperList

end State

/-- The reader stands behind records that it has read. -/
def ReadingSound (s : State) (rd : Reading) : Prop :=
  ∃ f, s.files[rd.file]? = some f ∧ f.key = rd.key ∧
    ∃ done rest, f.records = done ++ rest ∧ rd.offset = (bytes done).length ∧
      ∀ r ∈ done, (rd.key, r) ∈ s.readLog

/-- The container service has an existing file open, with every name of its list. -/
def ManagerSound (s : State) (component : Component) (mgr : UpdaterPointerManager) : Prop :=
  ∃ f, s.files[mgr.file]? = some f ∧ f.component = component ∧ f.linked = true ∧
    ∀ r ∈ mgr.contHashList, r ∈ f.records

/-- The name is in a file of which nothing had been read when it was passed. -/
def PassedSound (s : State) (p : Passed) : Prop :=
  p.readBefore ≤ s.readLog.length ∧ ∃ f ∈ s.files, f.component = p.component ∧
    p.name ∈ f.records ∧ ∀ e ∈ s.readLog.take p.readBefore, e.1 ≠ f.key

structure Sound (s : State) : Prop where
  keys_nodup : (s.files.map File.key).Nodup
  commaFree : ∀ f ∈ s.files, ∀ r ∈ f.records, ',' ∉ r
  managers : ∀ component mgr, s.updaterMap component = some mgr → ManagerSound s component mgr
  closed : ∀ key ∈ s.taken, s.Closed key
  read : ∀ key ∈ s.finished, s.AllRead key
  reading : ∀ rd, s.reading = some rd → ReadingSound s rd
  unlinked : ∀ f ∈ s.files, f.linked = false → ∀ r ∈ f.records, (f.key, r) ∈ s.readLog
  passed : ∀ p ∈ s.passed, PassedSound s p

/-- What was passed is in some file, and what is in a removed file was read. -/
theorem Sound.noneForgotten {s : State} (h : Sound s) : NoneForgotten s := by
  intro p hp
  obtain ⟨-, f, hf, hcomponent, hr, hbefore⟩ := h.passed p hp
  cases hlinked : f.linked with
  | true => exact .inl ⟨f, hf, hlinked, hcomponent, hr⟩
  | false =>
    right
    have hread := h.unlinked f hf hlinked p.name hr
    rw [← List.take_append_drop p.readBefore s.readLog] at hread
    refine ⟨(f.key, p.name), (List.mem_append.mp hread).resolve_left ?_, hcomponent, rfl⟩
    exact fun hin => hbefore _ hin rfl

section Files

variable {s s' : State} {key : Key} {component : Component} {f : File} {i : Nat}

theorem index_unique (h : (s.files.map File.key).Nodup) {i j : Nat} {f g : File}
    (hi : s.files[i]? = some f) (hj : s.files[j]? = some g) (hkey : f.key = g.key) : i = j := by
  have hlt : i < (s.files.map File.key).length := by
    rw [List.length_map]
    exact (List.getElem?_eq_some_iff.mp hi).1
  refine (List.getElem?_inj hlt h).mp ?_
  rw [List.getElem?_map, List.getElem?_map, hi, hj, Option.map_some, Option.map_some, hkey]

theorem file_unique (h : (s.files.map File.key).Nodup) {f g : File} (hf : f ∈ s.files)
    (hg : g ∈ s.files) (hkey : f.key = g.key) : f = g := by
  obtain ⟨i, hi⟩ := List.mem_iff_getElem?.mp hf
  obtain ⟨j, hj⟩ := List.mem_iff_getElem?.mp hg
  obtain rfl := index_unique h hi hj hkey
  exact Option.some.inj (hi.symm.trans hj)

/-- What the container service does to the files: they keep their places, names and records, and
one that is not open is not touched. -/
structure Writes (s s' : State) : Prop where
  now : s'.now = s.now
  passed : s'.passed = s.passed
  taken : s'.taken = s.taken
  finished : s'.finished = s.finished
  reading : s'.reading = s.reading
  readLog : s'.readLog = s.readLog
  closed : ∀ key, s.Closed key → s'.Closed key
  kept : ∀ (i : Nat) (f : File), s.files[i]? = some f →
    ∃ f', s'.files[i]? = some f' ∧ f'.key = f.key ∧
      (∀ r ∈ f.records, r ∈ f'.records) ∧ (s.NotOpen f.key → f' = f)
  unlinked : ∀ f' ∈ s'.files, f'.linked = false → f' ∈ s.files

theorem Writes.refl (s : State) : Writes s s where
  now := rfl
  passed := rfl
  taken := rfl
  finished := rfl
  reading := rfl
  readLog := rfl
  closed _ h := h
  kept _ f hf := ⟨f, hf, rfl, fun _ hr => hr, fun _ => rfl⟩
  unlinked _ hf _ := hf

theorem Writes.trans {s'' : State} (h : Writes s s') (h' : Writes s' s'') : Writes s s'' where
  now := h'.now.trans h.now
  passed := h'.passed.trans h.passed
  taken := h'.taken.trans h.taken
  finished := h'.finished.trans h.finished
  reading := h'.reading.trans h.reading
  readLog := h'.readLog.trans h.readLog
  closed key hk := h'.closed key (h.closed key hk)
  kept i f hf := by
    obtain ⟨f', hf', hkey, hrecords, hsame⟩ := h.kept i f hf
    obtain ⟨f'', hf'', hkey', hrecords', hsame'⟩ := h'.kept i f' hf'
    refine ⟨f'', hf'', hkey'.trans hkey, fun r hr => hrecords' r (hrecords r hr), fun hopen => ?_⟩
    have hclosed : s.Closed f.key := ⟨⟨f, List.mem_of_getElem? hf, rfl⟩, hopen⟩
    rw [← hsame hopen]
    exact hsame' (hkey ▸ (h.closed _ hclosed).2)
  unlinked f hf hlinked := h.unlinked f (h'.unlinked f hf hlinked) hlinked

theorem Writes.mem_of_closed (h : Writes s s') (hnodup : (s'.files.map File.key).Nodup)
    (hkey : s.Closed key) (hf : f ∈ s'.files) (hfkey : f.key = key) : f ∈ s.files := by
  obtain ⟨⟨g, hg, rfl⟩, hopen⟩ := hkey
  obtain ⟨i, hi⟩ := List.mem_iff_getElem?.mp hg
  obtain ⟨g', hg', hgkey, -, hsame⟩ := h.kept i g hi
  have hin : g' ∈ s'.files := List.mem_of_getElem? hg'
  rw [file_unique hnodup hf hin (hfkey.trans hgkey.symm), hsame hopen]
  exact hg

theorem Sound.writes (h : Sound s) (hw : Writes s s') (hnodup : (s'.files.map File.key).Nodup)
    (hcommas : ∀ f ∈ s'.files, ∀ r ∈ f.records, ',' ∉ r)
    (hmanagers : ∀ component mgr, s'.updaterMap component = some mgr →
      ManagerSound s' component mgr) : Sound s' where
  keys_nodup := hnodup
  commaFree := hcommas
  managers := hmanagers
  closed key hkey := hw.closed key (h.closed key (hw.taken ▸ hkey))
  read key hkey f hf hfkey r hr := by
    have hfinished : key ∈ s.finished := hw.finished ▸ hkey
    have htaken : key ∈ s.taken := by
      simp only [State.finished, State.taken, List.mem_append] at hfinished ⊢
      tauto
    rw [hw.readLog]
    exact h.read key hfinished f (hw.mem_of_closed hnodup (h.closed key htaken) hf hfkey) hfkey r hr
  reading rd hrd := by
    rw [hw.reading] at hrd
    obtain ⟨f, hf, hkey, done, rest, hrecords, hoffset, hread⟩ := h.reading rd hrd
    obtain ⟨f', hf', hkey', -, hsame⟩ := hw.kept rd.file f hf
    have htaken : rd.key ∈ s.taken := by simp [State.taken, hrd]
    obtain rfl := hsame (hkey ▸ (h.closed _ htaken).2)
    exact ⟨f', hf', hkey, done, rest, hrecords, hoffset, by rwa [hw.readLog]⟩
  unlinked f hf hlinked := by
    rw [hw.readLog]
    exact h.unlinked f (hw.unlinked f hf hlinked) hlinked
  passed p hp := by
    obtain ⟨hle, f, hf, hcomponent, hr, hbefore⟩ := h.passed p (hw.passed ▸ hp)
    obtain ⟨i, hi⟩ := List.mem_iff_getElem?.mp hf
    obtain ⟨f', hf', hkey, hrecords, -⟩ := hw.kept i f hi
    rw [PassedSound, hw.readLog]
    refine ⟨hle, f', List.mem_of_getElem? hf', (congrArg Prod.fst hkey).trans hcomponent,
      hrecords _ hr, ?_⟩
    rwa [hkey]

end Files

section Writer

variable {s : State} {component : Component} {name : Text}

/-- A file that `createNewFile` finds is the one that is open. -/
theorem Sound.fresh_manager (h : Sound s) (hfresh : s.Fresh component) {i : Nat} {f : File}
    (hi : s.files[i]? = some f) (hkey : f.key = (component, s.second)) :
    ∃ mgr, s.updaterMap component = some mgr ∧ mgr.file = i ∧ f.linked = true := by
  have hopen := hfresh f (List.mem_of_getElem? hi) hkey
  obtain ⟨mgr, hmgr, hfile⟩ := Option.bind_eq_some_iff.mp hopen
  obtain ⟨g, hg, -, hlinked, -⟩ := h.managers component mgr hmgr
  obtain rfl := Option.some.inj (hfile.symm.trans hg)
  exact ⟨mgr, hmgr, index_unique h.keys_nodup hfile hi rfl, hlinked⟩

theorem openFile_of_manager {mgr : UpdaterPointerManager} (h : s.updaterMap component = some mgr) :
    s.openFile component = s.files[mgr.file]? := by
  rw [State.openFile, h, Option.bind_some]

/-- A manager whose file another manager of the component had opens the same file. -/
theorem writes_reopen {i : Nat} (time : Nat) {mgr : UpdaterPointerManager}
    (hmgr : s.updaterMap component = some mgr) (hi : mgr.file = i) :
    Writes s { s with
      updaterMap := Function.update s.updaterMap component
        (some { file := i, creationTime := time }) } where
  now := rfl
  passed := rfl
  taken := rfl
  finished := rfl
  reading := rfl
  readLog := rfl
  closed key hkey := by
    refine ⟨hkey.1, fun f hf => ?_⟩
    by_cases hsame : key.1 = component
    · refine hkey.2 f ?_
      rw [hsame] at hf ⊢
      rw [openFile_of_manager hmgr, hi]
      simpa [State.openFile] using hf
    · refine hkey.2 f ?_
      simpa [State.openFile, Function.update_of_ne hsame] using hf
  kept _ f hf := ⟨f, hf, rfl, fun _ hr => hr, fun _ => rfl⟩
  unlinked _ hf _ := hf

/-- Without a file of this second, one is made that is in nobody's hands. -/
theorem writes_new (hnone : ∀ f ∈ s.files, f.key ≠ (component, s.second))
    (hmanagers : ∀ c mgr, s.updaterMap c = some mgr → ManagerSound s c mgr) :
    Writes s { s with
      files := s.files ++ [⟨component, s.second, [], s.now, true⟩]
      updaterMap := Function.update s.updaterMap component
        (some { file := s.files.length, creationTime := s.second }) } where
  now := rfl
  passed := rfl
  taken := rfl
  finished := rfl
  reading := rfl
  readLog := rfl
  closed key hkey := by
    obtain ⟨⟨f, hf, rfl⟩, hopen⟩ := hkey
    refine ⟨⟨f, List.mem_append_left _ hf, rfl⟩, fun g hg => ?_⟩
    by_cases hsame : f.key.1 = component
    · have hnew : (⟨component, s.second, [], s.now, true⟩ : File) = g := by
        simpa [State.openFile, hsame] using hg
      rw [← hnew]
      exact (hnone f hf).symm
    · refine hopen g ?_
      rw [Option.mem_def, State.openFile, Option.bind_eq_some_iff] at hg ⊢
      obtain ⟨mgr, hmgr, hfile⟩ := hg
      dsimp only at hmgr hfile
      rw [Function.update_of_ne hsame] at hmgr
      obtain ⟨g', hg', -⟩ := hmanagers _ mgr hmgr
      refine ⟨mgr, hmgr, ?_⟩
      rwa [List.getElem?_append_left (List.getElem?_eq_some_iff.mp hg').1] at hfile
  kept i f hf := by
    refine ⟨f, ?_, rfl, fun _ hr => hr, fun _ => rfl⟩
    rw [List.getElem?_append_left (List.getElem?_eq_some_iff.mp hf).1]
    exact hf
  unlinked f hf hlinked := by
    rcases List.mem_append.mp hf with hf | hf
    · exact hf
    · obtain rfl := List.mem_singleton.mp hf
      cases hlinked

theorem Sound.createNewFile (h : Sound s) (hfresh : s.Fresh component) :
    Sound (s.createNewFile component) ∧ Writes s (s.createNewFile component) := by
  rw [State.createNewFile]
  split
  case h_1 i hfind =>
    obtain ⟨hlt, hp, -⟩ := List.findIdx?_eq_some_iff_getElem.mp hfind
    have hi : s.files[i]? = some s.files[i] := List.getElem?_eq_getElem hlt
    simp only [Bool.and_eq_true, decide_eq_true_eq] at hp
    obtain ⟨mgr, hmgr, hfile, hlinked⟩ := h.fresh_manager hfresh hi hp.2
    have hw := writes_reopen (s := s) s.second hmgr hfile
    refine ⟨h.writes hw h.keys_nodup h.commaFree fun c m hm => ?_, hw⟩
    dsimp only at hm
    by_cases hsame : c = component
    · subst hsame
      rw [Function.update_self] at hm
      obtain rfl := Option.some.inj hm
      exact ⟨_, hi, congrArg Prod.fst hp.2, hlinked, fun _ hr => by (cases hr)⟩
    · rw [Function.update_of_ne hsame] at hm
      exact h.managers c m hm
  case h_2 hfind =>
    have hnone : ∀ f ∈ s.files, f.key ≠ (component, s.second) := by
      intro f hf hkey
      obtain ⟨i, hi⟩ := List.mem_iff_getElem?.mp hf
      obtain ⟨-, -, -, hlinked⟩ := h.fresh_manager hfresh hi hkey
      have hother := List.findIdx?_eq_none_iff.mp hfind f hf
      simp [hlinked, hkey] at hother
    have hw := writes_new hnone h.managers
    refine ⟨h.writes hw ?_ ?_ fun c m hm => ?_, hw⟩
    · rw [List.map_append, List.nodup_append]
      refine ⟨h.keys_nodup, by simp, fun key hkey key' hkey' => ?_⟩
      obtain ⟨f, hf, rfl⟩ := List.mem_map.mp hkey
      obtain rfl := List.mem_singleton.mp hkey'
      exact hnone f hf
    · intro f hf r hr
      rcases List.mem_append.mp hf with hf | hf
      · exact h.commaFree f hf r hr
      · obtain rfl := List.mem_singleton.mp hf
        cases hr
    · dsimp only at hm
      by_cases hsame : c = component
      · subst hsame
        rw [Function.update_self] at hm
        obtain rfl := Option.some.inj hm
        exact ⟨_, List.getElem?_concat_length, rfl, rfl, fun _ hr => by (cases hr)⟩
      · rw [Function.update_of_ne hsame] at hm
        obtain ⟨f, hf, hrest⟩ := h.managers c m hm
        refine ⟨f, ?_, hrest⟩
        simp only
        rw [List.getElem?_append_left (List.getElem?_eq_some_iff.mp hf).1]
        exact hf

/-- The files after a name was written to the file `i`. -/
theorem getElem?_modify_records (name : Text) {i j : Nat} {f : File} (hf : s.files[j]? = some f) :
    (s.files.modify i fun f => { f with records := f.records ++ [name], mtime := s.now })[j]? =
      some (if i = j then { f with records := f.records ++ [name], mtime := s.now } else f) := by
  rw [List.getElem?_modify, hf]
  split <;> rfl

theorem mem_modify_records {i : Nat} {f' : File}
    (hf' : f' ∈ s.files.modify i fun f =>
      { f with records := f.records ++ [name], mtime := s.now }) :
    ∃ f ∈ s.files, f'.key = f.key ∧ f'.linked = f.linked ∧ (f' = f ∨ s.files[i]? = some f) ∧
      ∀ r ∈ f'.records, r ∈ f.records ∨ r = name := by
  obtain ⟨j, hj⟩ := List.mem_iff_getElem?.mp hf'
  rw [List.getElem?_modify, Option.map_eq_map, Option.map_eq_some_iff] at hj
  obtain ⟨f, hf, rfl⟩ := hj
  refine ⟨f, List.mem_of_getElem? hf, ?_⟩
  split
  · rename_i hij
    subst hij
    exact ⟨rfl, rfl, .inr hf, fun r hr => by simpa using hr⟩
  · exact ⟨rfl, rfl, .inl rfl, fun r hr => .inl hr⟩

theorem map_key_modify {i : Nat} :
    (s.files.modify i fun f =>
      { f with records := f.records ++ [name], mtime := s.now }).map File.key =
      s.files.map File.key := by
  refine List.ext_getElem? fun j => ?_
  rw [List.getElem?_map, List.getElem?_map, List.getElem?_modify]
  cases s.files[j]? with
  | none => rfl
  | some f =>
    simp only [Option.map_eq_map, Option.map_some]
    split <;> rfl

theorem Sound.writes_name (h : Sound s) (name : Text) {mgr : UpdaterPointerManager}
    (mgr' : UpdaterPointerManager) {f : File} (hmgr : s.updaterMap component = some mgr)
    (hf : s.files[mgr.file]? = some f)
    (hcomponent : f.component = component) (hlinked : f.linked = true)
    (hfile : mgr'.file = mgr.file) :
    Writes s { s with
      files := s.files.modify mgr.file fun f =>
        { f with records := f.records ++ [name], mtime := s.now }
      updaterMap := Function.update s.updaterMap component (some mgr') } where
  now := rfl
  passed := rfl
  taken := rfl
  finished := rfl
  reading := rfl
  readLog := rfl
  closed key hkey := by
    obtain ⟨⟨g, hg, rfl⟩, hopen⟩ := hkey
    obtain ⟨j, hj⟩ := List.mem_iff_getElem?.mp hg
    refine ⟨⟨_, List.mem_of_getElem? (getElem?_modify_records name hj), by split <;> rfl⟩,
      fun g' hg' => ?_⟩
    rw [Option.mem_def, State.openFile, Option.bind_eq_some_iff] at hg'
    obtain ⟨m, hm, hg'⟩ := hg'
    dsimp only at hm hg'
    by_cases hsame : g.key.1 = component
    · rw [hsame, Function.update_self] at hm
      obtain rfl := Option.some.inj hm
      rw [hfile, getElem?_modify_records name hf, if_pos rfl] at hg'
      obtain rfl := Option.some.inj hg'
      refine hopen f ?_
      rw [hsame, openFile_of_manager hmgr]
      exact hf
    · rw [Function.update_of_ne hsame] at hm
      obtain ⟨f', hf', -⟩ := h.managers _ m hm
      rw [getElem?_modify_records name hf'] at hg'
      obtain rfl := Option.some.inj hg'
      have hother : f'.key ≠ g.key := hopen f' (by rw [openFile_of_manager hm]; exact hf')
      split
      · exact hother
      · exact hother
  kept i g hg := by
    refine ⟨_, getElem?_modify_records name hg, by split <;> rfl, fun r hr => ?_, fun hopen => ?_⟩
    · split
      · exact List.mem_append_left _ hr
      · exact hr
    · split
      · rename_i hi
        subst hi
        obtain rfl := Option.some.inj (hf.symm.trans hg)
        have hin : f ∈ s.openFile f.key.1 := by
          rw [show f.key.1 = component from hcomponent, openFile_of_manager hmgr]
          exact hf
        exact absurd rfl (hopen f hin)
      · rfl
  unlinked g' hg' hgone := by
    obtain ⟨g, hg, -, hlink, hsame | hopen, -⟩ := mem_modify_records hg'
    · exact hsame ▸ hg
    · obtain rfl := Option.some.inj (hf.symm.trans hopen)
      rw [hlink, hlinked] at hgone
      cases hgone

theorem Sound.writeName (h : Sound s) (component : Component) (hcomma : ',' ∉ name) :
    Sound (s.writeName component name) ∧ Writes s (s.writeName component name) ∧
      ((s.updaterMap component).isSome →
        ∃ f ∈ (s.writeName component name).openFile component, f.component = component ∧
          name ∈ f.records) := by
  rw [State.writeName]
  split
  case h_1 hnone => exact ⟨h, .refl s, fun hsome => by simp [hnone] at hsome⟩
  case h_2 mgr hmgr =>
    obtain ⟨f, hf, hcomponent, hlinked, hlist⟩ := h.managers component mgr hmgr
    split
    · rename_i hin
      refine ⟨h, .refl s, fun _ => ⟨f, ?_, hcomponent, hlist name hin⟩⟩
      rw [openFile_of_manager hmgr]
      exact hf
    · have hw := h.writes_name name { mgr with contHashList := mgr.contHashList ++ [name] } hmgr hf
        hcomponent hlinked rfl
      have hnew := getElem?_modify_records (i := mgr.file) name hf
      rw [if_pos rfl] at hnew
      refine ⟨h.writes hw ?_ ?_ fun c m hm => ?_, hw, fun _ => ?_⟩
      · rw [map_key_modify]
        exact h.keys_nodup
      · intro g' hg' r hr
        obtain ⟨g, hg, -, -, -, hrecords⟩ := mem_modify_records hg'
        rcases hrecords r hr with hr | rfl
        · exact h.commaFree g hg r hr
        · exact hcomma
      · dsimp only at hm
        by_cases hsame : c = component
        · subst hsame
          rw [Function.update_self] at hm
          obtain rfl := Option.some.inj hm
          refine ⟨_, hnew, hcomponent, hlinked, fun r hr => ?_⟩
          rcases List.mem_append.mp hr with hr | hr
          · exact List.mem_append_left _ (hlist r hr)
          · exact List.mem_append_right _ hr
        · rw [Function.update_of_ne hsame] at hm
          obtain ⟨g, hg, hgc, hgl, hglist⟩ := h.managers c m hm
          refine ⟨_, getElem?_modify_records name hg, ?_, ?_, fun r hr => ?_⟩
          · split <;> exact hgc
          · split <;> exact hgl
          · split
            · exact List.mem_append_left _ (hglist r hr)
            · exact hglist r hr
      · refine ⟨{ f with records := f.records ++ [name], mtime := s.now }, ?_, hcomponent,
          List.mem_append_right _ List.mem_cons_self⟩
        rw [openFile_of_manager (Function.update_self ..)]
        exact hnew

theorem Sound.fresh_of_open (h : Sound s) {f : File} (hopen : s.openFile component = some f)
    (hkey : f.key = (component, s.second)) : s.Fresh component := by
  intro g hg hgkey
  obtain ⟨mgr, -, hfile⟩ := Option.bind_eq_some_iff.mp hopen
  rw [hopen, file_unique h.keys_nodup hg (List.mem_of_getElem? hfile) (hgkey.trans hkey.symm)]

theorem createNewFile_open (s : State) (component : Component) :
    ∃ f, (s.createNewFile component).openFile component = some f ∧
      f.key = (component, s.second) := by
  rw [State.createNewFile]
  split
  case h_1 i hfind =>
    obtain ⟨hlt, hp, -⟩ := List.findIdx?_eq_some_iff_getElem.mp hfind
    simp only [Bool.and_eq_true, decide_eq_true_eq] at hp
    exact ⟨s.files[i], by simp [State.openFile], hp.2⟩
  case h_2 =>
    refine ⟨⟨component, s.second, [], s.now, true⟩, ?_, rfl⟩
    simp [State.openFile]

theorem Sound.createNewFile_fresh (h : Sound s) (hfresh : s.Fresh component) :
    (s.createNewFile component).Fresh component := by
  obtain ⟨hsound, hw⟩ := h.createNewFile hfresh
  obtain ⟨f, hopen, hkey⟩ := createNewFile_open s component
  refine hsound.fresh_of_open hopen ?_
  rw [hkey, State.second, State.second, hw.now]

theorem isSome_of_open {f : File} (hopen : s.openFile component = some f) :
    (s.updaterMap component).isSome := by
  obtain ⟨mgr, hmgr, -⟩ := Option.bind_eq_some_iff.mp hopen
  rw [hmgr]
  rfl

theorem Sound.writeName_fresh (h : Sound s) (hcomma : ',' ∉ name) (hfresh : s.Fresh component) :
    (s.writeName component name).Fresh component := by
  obtain ⟨hsound, hw, -⟩ := h.writeName component hcomma
  cases hmgr : s.updaterMap component with
  | none =>
    rw [State.writeName, hmgr]
    exact hfresh
  | some mgr =>
    by_cases hin : name ∈ mgr.contHashList
    · simp only [State.writeName, hmgr, if_pos hin]
      exact hfresh
    · intro f' hf' hkey
      obtain ⟨g, hg, hgkey, -⟩ : ∃ g ∈ s.files, f'.key = g.key ∧ True := by
        simp only [State.writeName, hmgr, if_neg hin] at hf'
        obtain ⟨g, hg, hgkey, -⟩ := mem_modify_records hf'
        exact ⟨g, hg, hgkey, trivial⟩
      have hsecond : (s.writeName component name).second = s.second := by
        rw [State.second, State.second, hw.now]
      rw [hsecond] at hkey
      have hopen := hfresh g hg (hgkey.symm.trans hkey)
      rw [openFile_of_manager hmgr] at hopen
      obtain ⟨g', hg', hgkey', -⟩ := hw.kept mgr.file g hopen
      have hopen' : (s.writeName component name).openFile component = some g' := by
        simp only [State.writeName, hmgr, if_neg hin] at hg' ⊢
        simpa [State.openFile] using hg'
      rw [hopen', file_unique hsound.keys_nodup hf' (List.mem_of_getElem? hg')
        (hgkey.trans hgkey'.symm)]

theorem Sound.rotateUpdaterFile (h : Sound s) {inMemory : List Text}
    (hcommas : ∀ path ∈ inMemory, ',' ∉ getContainerName path) (hfresh : s.Fresh component) :
    Sound (s.rotateUpdaterFile component inMemory) ∧
      Writes s (s.rotateUpdaterFile component inMemory) := by
  rw [State.rotateUpdaterFile]
  induction inMemory generalizing s with
  | nil => exact h.createNewFile hfresh
  | cons path inMemory ih =>
    obtain ⟨hpath, hrest⟩ := List.forall_mem_cons.mp hcommas
    obtain ⟨hsound, hw, -⟩ := h.writeName component hpath
    obtain ⟨hsound', hw'⟩ := ih hsound hrest (h.writeName_fresh hpath hfresh)
    exact ⟨hsound', hw.trans hw'⟩

theorem rotateUpdaterFile_isSome (s : State) (component : Component) (inMemory : List Text) :
    ((s.rotateUpdaterFile component inMemory).updaterMap component).isSome := by
  obtain ⟨f, hopen, -⟩ := createNewFile_open
    (inMemory.foldl (fun s path => s.writeName component (getContainerName path)) s) component
  exact isSome_of_open hopen

theorem Sound.ensureManager (h : Sound s)
    (hfresh : (s.updaterMap component).isNone → s.Fresh component) :
    Sound (s.ensureManager component) ∧ Writes s (s.ensureManager component) := by
  rw [State.ensureManager]
  split
  · exact h.createNewFile (hfresh (by assumption))
  · exact ⟨h, .refl s⟩

theorem ensureManager_isSome (s : State) (component : Component) :
    ((s.ensureManager component).updaterMap component).isSome := by
  rw [State.ensureManager]
  split
  · obtain ⟨f, hopen, -⟩ := createNewFile_open s component
    exact isSome_of_open hopen
  · rename_i hsome
    rwa [Option.isNone_iff_eq_none, ← ne_eq, Option.ne_none_iff_isSome] at hsome

/-- A name passed is in the open file afterwards, of which the updater has read nothing. -/
theorem Sound.pass (h : Sound s)
    (hf : ∃ f ∈ s.openFile component, f.component = component ∧ name ∈ f.records) :
    Sound { s with passed := s.passed ++ [⟨component, name, s.readLog.length⟩] } where
  keys_nodup := h.keys_nodup
  commaFree := h.commaFree
  managers := h.managers
  closed := h.closed
  read := h.read
  reading := h.reading
  unlinked := h.unlinked
  passed p hp := by
    rcases List.mem_append.mp hp with hp | hp
    · exact h.passed p hp
    · obtain rfl := List.mem_singleton.mp hp
      obtain ⟨f, hopen, hcomponent, hr⟩ := hf
      obtain ⟨mgr, -, hfile⟩ := Option.bind_eq_some_iff.mp hopen
      refine ⟨le_rfl, f, List.mem_of_getElem? hfile, hcomponent, hr, fun e he hkey => ?_⟩
      have htaken : e.1 ∈ s.taken :=
        List.mem_append_right _ (List.mem_map_of_mem (List.mem_of_mem_take he))
      rw [hkey] at htaken
      refine (h.closed f.key htaken).2 f ?_ rfl
      rw [show f.key.1 = component from hcomponent]
      exact hopen

theorem Sound.writeInFile (h : Sound s) {conf : Config} {contPath : Text} {inMemory : List Text}
    (hcomma : ',' ∉ getContainerName contPath)
    (hcommas : ∀ path ∈ inMemory, ',' ∉ getContainerName path)
    (hfresh : (s.updaterMap component).isNone ∨ s.listFull conf component = true →
      s.Fresh component) :
    Sound (s.writeInFile conf component contPath inMemory) := by
  obtain ⟨hsound, -⟩ := h.ensureManager fun hnone => hfresh (.inl hnone)
  have hsome := ensureManager_isSome s component
  have hfresh' : (s.ensureManager component).listFull conf component = true →
      (s.ensureManager component).Fresh component := by
    rw [State.ensureManager]
    split
    · rename_i hnone
      exact fun _ => h.createNewFile_fresh (hfresh (.inl hnone))
    · exact fun hfull => hfresh (.inr hfull)
  simp only [State.writeInFile]
  split
  · exact hsound
  · split
    · rename_i hfull
      obtain ⟨hrotated, -⟩ := hsound.rotateUpdaterFile hcommas (hfresh' hfull)
      obtain ⟨hwritten, -, hin⟩ := hrotated.writeName component hcomma
      exact hwritten.pass (hin (rotateUpdaterFile_isSome _ component inMemory))
    · obtain ⟨hwritten, -, hin⟩ := hsound.writeName component hcomma
      exact hwritten.pass (hin hsome)

end Writer

section Updater

variable {s s' : State} {key : Key}

theorem mem_taken : key ∈ s.taken ↔ key ∈ s.oldStatFiles ∨ key ∈ s.walkerMap ∨
    (∃ rd, s.reading = some rd ∧ rd.key = key) ∨ key ∈ s.readerMap ∨ key ∈ s.statMap ∨
      key ∈ s.sweeperList ∨ s.entry = some key ∨ ∃ e ∈ s.readLog, e.1 = key := by
  simp only [State.taken, List.mem_append, Option.mem_toList, Option.map_eq_some_iff, List.mem_map,
    or_assoc]

theorem mem_finished : key ∈ s.finished ↔
    key ∈ s.readerMap ∨ key ∈ s.statMap ∨ key ∈ s.sweeperList := by
  simp only [State.finished, List.mem_append, or_assoc]

theorem Sound.updater (h : Sound s) (hfiles : s'.files = s.files)
    (hmap : s'.updaterMap = s.updaterMap) (hpassed : s'.passed = s.passed)
    (hlog : s.readLog <+: s'.readLog) (htaken : ∀ key ∈ s'.taken, s.Closed key)
    (hfinished : ∀ key ∈ s'.finished, s'.AllRead key)
    (hreading : ∀ rd, s'.reading = some rd → ReadingSound s' rd) : Sound s' where
  keys_nodup := hfiles ▸ h.keys_nodup
  commaFree := hfiles ▸ h.commaFree
  managers component mgr hmgr := by
    obtain ⟨f, hf, hrest⟩ := h.managers component mgr (hmap ▸ hmgr)
    exact ⟨f, hfiles ▸ hf, hrest⟩
  closed key hkey := by
    obtain ⟨⟨f, hf, hfkey⟩, hopen⟩ := htaken key hkey
    refine ⟨⟨f, hfiles ▸ hf, hfkey⟩, fun g hg => hopen g ?_⟩
    rw [State.openFile, hfiles, hmap] at hg
    exact hg
  read := hfinished
  reading := hreading
  unlinked f hf hlinked r hr := hlog.subset (h.unlinked f (hfiles ▸ hf) hlinked r hr)
  passed p hp := by
    obtain ⟨hle, hin⟩ := h.passed p (hpassed ▸ hp)
    obtain ⟨more, hmore⟩ := hlog
    rw [PassedSound, hfiles, ← hmore, List.take_append_of_le_length hle, List.length_append]
    exact ⟨by omega, hin⟩

theorem mem_keysOf {indices : List Nat} (h : key ∈ s.keysOf indices) :
    ∃ f ∈ s.files, f.key = key := by
  obtain ⟨i, -, hi⟩ := List.mem_filterMap.mp h
  obtain ⟨f, hf, hfkey⟩ := Option.map_eq_some_iff.mp hi
  exact ⟨f, List.mem_of_getElem? hf, hfkey⟩

theorem lookupName_spec {i : Nat} (h : s.lookupName key = some i) :
    ∃ f, s.files[i]? = some f ∧ f.key = key := by
  obtain ⟨hlt, hp, -⟩ := List.findIdx?_eq_some_iff_getElem.mp h
  simp only [Bool.and_eq_true, decide_eq_true_eq] at hp
  exact ⟨s.files[i], List.getElem?_eq_getElem hlt, hp.2⟩

theorem length_bytes_eq_zero {records : List Text} (h : (bytes records).length = 0) :
    records = [] := by
  cases records with
  | nil => rfl
  | cons r records => simp at h

theorem Sound.allRead_of_end (h : Sound s) {rd : Reading} {f : File}
    (hrd : s.reading = some rd) (hf : s.files[rd.file]? = some f)
    (hend : (bytes f.records).length ≤ rd.offset) : s.AllRead rd.key := by
  obtain ⟨g, hg, hkey, done, rest, hrecords, hoffset, hread⟩ := h.reading rd hrd
  obtain rfl := Option.some.inj (hf.symm.trans hg)
  have hrest : rest = [] := by
    rw [hrecords, bytes_append, List.length_append] at hend
    exact length_bytes_eq_zero (by omega)
  intro f' hf' hkey' r hr
  rw [file_unique h.keys_nodup hf' (List.mem_of_getElem? hf) (hkey'.trans hkey.symm), hrecords,
    hrest, List.append_nil] at hr
  exact hread r hr

theorem Sound.reading_closed (h : Sound s) {rd : Reading} (hrd : s.reading = some rd) :
    s.Closed rd.key :=
  h.closed rd.key (by simp [State.taken, hrd])

theorem AllRead.mono (h : s.AllRead key) (hfiles : s'.files = s.files)
    (hlog : s.readLog ⊆ s'.readLog) : s'.AllRead key := fun f hf hkey r hr =>
  hlog (h f (hfiles ▸ hf) hkey r hr)

/-- A step that takes no new key and reads nothing. -/
theorem Sound.regroup (h : Sound s) (hfiles : s'.files = s.files)
    (hmap : s'.updaterMap = s.updaterMap) (hpassed : s'.passed = s.passed)
    (hlog : s'.readLog = s.readLog) (htaken : ∀ key ∈ s'.taken, key ∈ s.taken)
    (hfinished : ∀ key ∈ s'.finished, s.AllRead key)
    (hreading : ∀ rd, s'.reading = some rd → ReadingSound s' rd) : Sound s' :=
  h.updater hfiles hmap hpassed (hlog ▸ List.prefix_rfl)
    (fun key hkey => h.closed key (htaken key hkey))
    (fun key hkey => AllRead.mono (hfinished key hkey) hfiles (hlog ▸ List.Subset.refl _)) hreading

theorem Sound.readChunk (h : Sound s) {rd : Reading} {f : File} (hrd : s.reading = some rd)
    (hf : s.files[rd.file]? = some f)
    (hwhole : ∀ c ∈ (((bytes f.records).drop rd.offset).take MAX_CHUNK_SIZE).getLast?, c = ',') :
    Sound (s.readChunk rd f) := by
  rw [State.readChunk]
  split
  case isTrue hchunk =>
    have hread : s.AllRead rd.key := by
      refine h.allRead_of_end hrd hf ?_
      rw [List.take_eq_nil_iff] at hchunk
      exact List.drop_eq_nil_iff.mp (hchunk.resolve_left (by decide))
    have hshown : ∀ key, key ∈ (if rd.shown then s.readerMap ++ [rd.key] else s.readerMap) →
        key ∈ s.readerMap ∨ key = rd.key := by
      intro key hkey
      split at hkey
      · simpa using hkey
      · exact .inl hkey
    refine h.regroup rfl rfl rfl rfl (fun key hkey => ?_) (fun key hkey => ?_)
      fun rd hrd => by cases hrd
    · have hold := hshown key
      have htaken : key = rd.key → key ∈ (s.reading.map Reading.key).toList := by
        rintro rfl
        simp [hrd]
      simp only [State.taken, List.mem_append, Option.map_none, Option.toList_none,
        List.not_mem_nil] at hkey ⊢
      tauto
    · by_cases hsame : key = rd.key
      · exact hsame ▸ hread
      · have hold := hshown key
        refine h.read key (mem_finished.mpr ?_)
        rw [mem_finished] at hkey
        tauto
  case isFalse hchunk =>
    obtain ⟨g, hg, hkey, done, rest, hrecords, hoffset, hread⟩ := h.reading rd hrd
    obtain rfl := Option.some.inj (hf.symm.trans hg)
    have hdrop : (bytes f.records).drop rd.offset = bytes rest := by
      rw [hrecords, bytes_append, hoffset, List.drop_left]
    have hcommas : ∀ r ∈ rest, ',' ∉ r := fun r hr =>
      h.commaFree f (List.mem_of_getElem? hf) r (by simp [hrecords, hr])
    rw [hdrop] at hwhole ⊢
    obtain ⟨k, hk⟩ := take_bytes hcommas MAX_CHUNK_SIZE hwhole
    rw [hk, fields_bytes fun r hr => hcommas r (List.mem_of_mem_take hr)]
    have hlog : s.readLog <+: s.readLog ++
        ((rest.take k).takeWhile fun d => d.count '/' = 1).map fun d => (rd.key, d) :=
      List.prefix_append _ _
    refine h.updater rfl rfl rfl hlog (fun key hkey => ?_) (fun key hkey => ?_) fun rd' hrd' => ?_
    · refine h.closed key (mem_taken.mpr ?_)
      rcases mem_taken.mp hkey with
        hin | hin | ⟨rd', hrd', rfl⟩ | hin | hin | hin | hin | ⟨e, he, rfl⟩
      · exact .inl hin
      · exact .inr (.inl hin)
      · dsimp only at hrd'
        split at hrd'
        · obtain rfl := Option.some.inj hrd'
          exact .inr (.inr (.inl ⟨rd, hrd, rfl⟩))
        · cases hrd'
      · exact .inr (.inr (.inr (.inl hin)))
      · exact .inr (.inr (.inr (.inr (.inl hin))))
      · exact .inr (.inr (.inr (.inr (.inr (.inl hin)))))
      · exact .inr (.inr (.inr (.inr (.inr (.inr (.inl hin))))))
      · rcases List.mem_append.mp he with hold | hnew
        · exact .inr (.inr (.inr (.inr (.inr (.inr (.inr ⟨e, hold, rfl⟩))))))
        · obtain ⟨d, -, rfl⟩ := List.mem_map.mp hnew
          exact .inr (.inr (.inl ⟨rd, hrd, rfl⟩))
    · exact AllRead.mono (h.read key hkey) rfl hlog.subset
    · dsimp only at hrd'
      split at hrd'
      · rename_i hgood
        obtain rfl := Option.some.inj hrd'
        refine ⟨f, hf, hkey, done ++ rest.take k, rest.drop k, ?_, ?_, fun r hr => ?_⟩
        · rw [List.append_assoc, List.take_append_drop, hrecords]
        · rw [bytes_append, List.length_append, hoffset]
        · rcases List.mem_append.mp hr with hr | hr
          · exact hlog.subset (hread r hr)
          · refine List.mem_append_right _ (List.mem_map.mpr ⟨r, ?_, rfl⟩)
            rw [hgood]
            exact hr
      · cases hrd'

theorem Sound.remove (h : Sound s) (component : Component) :
    Sound { s with updaterMap := Function.update s.updaterMap component none } := by
  have hopen : ∀ key, s.NotOpen key → State.NotOpen
      { s with updaterMap := Function.update s.updaterMap component none } key := by
    intro key hkey f hf
    by_cases hsame : key.1 = component
    · simp [State.openFile, hsame] at hf
    · refine hkey f ?_
      simpa [State.openFile, Function.update_of_ne hsame] using hf
  have hw : Writes s { s with updaterMap := Function.update s.updaterMap component none } :=
    ⟨rfl, rfl, rfl, rfl, rfl, rfl, fun key hkey => ⟨hkey.1, hopen key hkey.2⟩,
      fun _ f hf => ⟨f, hf, rfl, fun _ hr => hr, fun _ => rfl⟩, fun _ hf _ => hf⟩
  refine h.writes hw h.keys_nodup h.commaFree fun c m hm => ?_
  by_cases hsame : c = component
  · simp [hsame] at hm
  · dsimp only at hm
    rw [Function.update_of_ne hsame] at hm
    exact h.managers c m hm

theorem Sound.take (h : Sound s) {keys : List Key} (hclosed : ∀ key ∈ keys, s.Closed key) :
    Sound { s with oldStatFiles := s.oldStatFiles ++ keys } := by
  refine h.updater rfl rfl rfl List.prefix_rfl (fun key hkey => ?_)
    (fun key hkey => AllRead.mono (h.read key hkey) rfl fun _ hp => hp) h.reading
  rcases mem_taken.mp hkey with hin | hin
  · rcases List.mem_append.mp hin with hin | hin
    · exact h.closed key (mem_taken.mpr (.inl hin))
    · exact hclosed key hin
  · exact h.closed key (mem_taken.mpr (.inr hin))

theorem Sound.discard (h : Sound s) (hkey : key ∈ s.taken) (hread : s.AllRead key)
    {oldStatFiles statMap : List Key} (hold : oldStatFiles ⊆ s.oldStatFiles)
    (hstat : statMap ⊆ s.statMap) :
    Sound { s with
      oldStatFiles := oldStatFiles
      statMap := statMap
      sweeperList := s.sweeperList ++ [key] } := by
  refine h.regroup rfl rfl rfl rfl (fun k hk => ?_) (fun k hk => ?_) h.reading
  · by_cases hsame : k = key
    · exact hsame ▸ hkey
    · rw [mem_taken] at hk ⊢
      simp only [List.mem_append, List.mem_singleton, hsame, or_false] at hk
      exact hk.imp (@hold k) (.imp id (.imp id (.imp id (.imp (@hstat k) id))))
  · by_cases hsame : k = key
    · exact hsame ▸ hread
    · refine h.read k (mem_finished.mpr ?_)
      rw [mem_finished] at hk
      simp only [List.mem_append, List.mem_singleton, hsame, or_false] at hk
      have hstat' := @hstat k
      tauto

theorem Sound.readOpen (h : Sound s) (hentry : s.entry = some key) :
    Sound { s with
      entry := none
      reading := (s.lookupName key).map fun i => { key := key, file := i } } := by
  refine h.regroup rfl rfl rfl rfl (fun key' hkey => ?_) h.read fun rd hrd => ?_
  · have hopened : key' ∈ (((s.lookupName key).map fun i =>
        ({ key := key, file := i } : Reading)).map Reading.key).toList → key' ∈ s.entry.toList := by
      intro hin
      obtain ⟨rd, hrd, rfl⟩ := Option.map_eq_some_iff.mp (Option.mem_toList.mp hin)
      obtain ⟨i, -, rfl⟩ := Option.map_eq_some_iff.mp hrd
      exact Option.mem_toList.mpr hentry
    simp only [State.taken, List.mem_append, Option.toList_none, List.not_mem_nil] at hkey ⊢
    tauto
  · obtain ⟨i, hi, rfl⟩ := Option.map_eq_some_iff.mp hrd
    obtain ⟨f, hf, hfkey⟩ := lookupName_spec hi
    exact ⟨f, hf, hfkey, [], f.records, rfl, rfl, fun _ hr => by (cases hr)⟩

theorem Sound.populate (h : Sound s)
    (hend : ∀ rd ∈ s.reading, rd.shown = true → ∀ f ∈ s.files[rd.file]?,
      (bytes f.records).length ≤ rd.offset) :
    Sound { s with
      statMap := s.statMap ++ s.readerMap ++
        (s.reading.toList.filter Reading.shown).map Reading.key } := by
  have hshown : ∀ key ∈ (s.reading.toList.filter Reading.shown).map Reading.key,
      ∃ rd, s.reading = some rd ∧ rd.key = key ∧ rd.shown = true := by
    intro key hkey
    obtain ⟨rd, hin, rfl⟩ := List.mem_map.mp hkey
    obtain ⟨hrd, hshown⟩ := List.mem_filter.mp hin
    exact ⟨rd, Option.mem_toList.mp hrd, rfl, hshown⟩
  refine h.regroup rfl rfl rfl rfl (fun key hkey => ?_) (fun key hkey => ?_) h.reading
  · have hread : key ∈ (s.reading.toList.filter Reading.shown).map Reading.key →
        key ∈ (s.reading.map Reading.key).toList := by
      intro hin
      obtain ⟨rd, hrd, rfl, -⟩ := hshown key hin
      simp [hrd]
    simp only [State.taken, List.mem_append] at hkey ⊢
    tauto
  · rw [mem_finished, List.mem_append, List.mem_append] at hkey
    by_cases hin : key ∈ (s.reading.toList.filter Reading.shown).map Reading.key
    · obtain ⟨rd, hrd, rfl, hon⟩ := hshown key hin
      obtain ⟨f, hf, -⟩ := h.reading rd hrd
      exact h.allRead_of_end hrd hf (hend rd hrd hon f hf)
    · refine h.read key (mem_finished.mpr ?_)
      tauto

@[simp] theorem unlink_key (key : Key) (f : File) : (unlink key f).key = f.key := by
  rw [unlink]
  split <;> rfl

@[simp] theorem unlink_component (key : Key) (f : File) :
    (unlink key f).component = f.component := by
  rw [unlink]
  split <;> rfl

@[simp] theorem unlink_records (key : Key) (f : File) : (unlink key f).records = f.records := by
  rw [unlink]
  split <;> rfl

theorem sweep_files (s : State) (key : Key) : (s.sweep key).files = s.files.map (unlink key) := rfl

theorem sweep_taken {k : Key} (h : k ∈ (s.sweep key).taken) : k ∈ s.taken := by
  rw [mem_taken] at h ⊢
  rcases h with hin | hin | ⟨rd, hrd, rfl⟩ | hin | hin | hin
  · exact .inl hin
  · exact .inr (.inl (List.mem_of_mem_erase hin))
  · obtain ⟨rd', hrd', rfl⟩ := Option.map_eq_some_iff.mp hrd
    refine .inr (.inr (.inl ⟨rd', hrd', ?_⟩))
    split <;> rfl
  · exact .inr (.inr (.inr (.inl (List.mem_of_mem_filter hin))))
  · exact .inr (.inr (.inr (.inr (.inl hin))))
  · rcases hin with hin | hin
    · exact .inr (.inr (.inr (.inr (.inr (.inl (List.mem_of_mem_erase hin))))))
    · exact .inr (.inr (.inr (.inr (.inr (.inr hin)))))

theorem sweep_finished {k : Key} (h : k ∈ (s.sweep key).finished) : k ∈ s.finished := by
  rw [mem_finished] at h ⊢
  rcases h with hin | hin | hin
  · exact .inl (List.mem_of_mem_filter hin)
  · exact .inr (.inl hin)
  · exact .inr (.inr (List.mem_of_mem_erase hin))

theorem sweep_openFile (s : State) (key : Key) (component : Component) :
    (s.sweep key).openFile component = (s.openFile component).map (unlink key) := by
  rw [State.openFile, State.openFile, sweep_files]
  cases hmgr : s.updaterMap component with
  | none => simp [State.sweep, hmgr]
  | some mgr => simp [State.sweep, hmgr]

theorem Sound.sweep (h : Sound s) (hkey : key ∈ s.sweeperList) : Sound (s.sweep key) where
  keys_nodup := by
    rw [sweep_files, List.map_map]
    have hsame : File.key ∘ unlink key = File.key := funext (unlink_key key)
    rw [hsame]
    exact h.keys_nodup
  commaFree f' hf' := by
    obtain ⟨f, hf, rfl⟩ := List.mem_map.mp hf'
    rw [unlink_records]
    exact h.commaFree f hf
  managers component mgr hmgr := by
    replace hmgr : s.updaterMap component = some mgr := hmgr
    obtain ⟨f, hf, hcomponent, hlinked, hlist⟩ := h.managers component mgr hmgr
    have hclosed : s.Closed key := h.closed key (by simp [mem_taken, hkey])
    have hother : f.key ≠ key := by
      intro hsame
      refine hclosed.2 f ?_ hsame
      have hsome : key.1 = component := by
        rw [← hsame]
        exact hcomponent
      rw [hsome, openFile_of_manager hmgr]
      exact hf
    refine ⟨f, ?_, hcomponent, hlinked, hlist⟩
    rw [sweep_files, List.getElem?_map, hf, Option.map_some, unlink, if_neg hother]
  closed k hk := by
    obtain ⟨⟨f, hf, hfkey⟩, hopen⟩ := h.closed k (sweep_taken hk)
    refine ⟨⟨unlink key f, List.mem_map_of_mem hf, (unlink_key key f).trans hfkey⟩, fun g hg => ?_⟩
    rw [sweep_openFile] at hg
    obtain ⟨g', hg', rfl⟩ := Option.map_eq_some_iff.mp hg
    rw [unlink_key]
    exact hopen g' hg'
  read k hk f' hf' hfkey r hr := by
    obtain ⟨f, hf, rfl⟩ := List.mem_map.mp hf'
    exact h.read k (sweep_finished hk) f hf ((unlink_key key f).symm.trans hfkey) r
      (unlink_records key f ▸ hr)
  reading rd hrd := by
    obtain ⟨rd', hrd', rfl⟩ := Option.map_eq_some_iff.mp hrd
    obtain ⟨f, hf, hfkey, hdone⟩ := h.reading rd' hrd'
    have hunlinked : (s.sweep key).files[rd'.file]? = some (unlink key f) := by
      rw [sweep_files, List.getElem?_map, hf, Option.map_some]
    split
    · exact ⟨_, hunlinked, (unlink_key key f).trans hfkey, (unlink_records key f).symm ▸ hdone⟩
    · exact ⟨_, hunlinked, (unlink_key key f).trans hfkey, (unlink_records key f).symm ▸ hdone⟩
  unlinked f' hf' hlinked r hr := by
    obtain ⟨f, hf, rfl⟩ := List.mem_map.mp hf'
    rw [unlink_records] at hr
    rw [unlink_key]
    by_cases hsame : f.key = key
    · have hread : s.AllRead key := h.read key (by simp [mem_finished, hkey])
      have hin := hread f hf hsame r hr
      rwa [← hsame] at hin
    · rw [unlink, if_neg hsame] at hlinked
      exact h.unlinked f hf hlinked r hr
  passed p hp := by
    obtain ⟨hle, f, hf, hcomponent, hr, hbefore⟩ := h.passed p hp
    exact ⟨hle, unlink key f, List.mem_map_of_mem hf, (unlink_component key f).trans hcomponent,
      (unlink_records key f).symm ▸ hr, (unlink_key key f).symm ▸ hbefore⟩

end Updater

/-- The container service writes whole names to files that are its own, the walker takes none that
is open, and the updater takes no file that is partly read. -/
def Condition (conf : Config) (s : State) : Event → Prop
  | .write component path inMemory =>
    ',' ∉ getContainerName path ∧ (∀ path ∈ inMemory, ',' ∉ getContainerName path) ∧
      ((s.updaterMap component).isNone ∨ s.listFull conf component = true → s.Fresh component)
  | .lookup component inMemory =>
    (∀ path ∈ inMemory, ',' ∉ getContainerName path) ∧ s.Fresh component
  | .checkForUpdaterFile component => (s.updaterMap component).isNone → s.Fresh component
  | .walkOld _ listing =>
    ∀ key ∈ s.keysOf (listing.dropLast.take conf.maxFilesStoredInCache), s.NotOpen key
  | .walkSingle component => ∀ key ∈ s.keysOf (s.listed component), s.NotOpen key
  | .readChunk =>
    ∀ rd ∈ s.reading, ∀ f ∈ s.files[rd.file]?,
      ∀ c ∈ (((bytes f.records).drop rd.offset).take MAX_CHUNK_SIZE).getLast?, c = ','
  | .populate =>
    ∀ rd ∈ s.reading, rd.shown = true → ∀ f ∈ s.files[rd.file]?,
      (bytes f.records).length ≤ rd.offset
  | _ => True

theorem step_sound (conf : Config) (s : State) (e : Event) (s' : State) (h : Sound s)
    (hc : Condition conf s e) (hstep : step conf s e = some s') : Sound s' := by
  cases e with
  | tick milliseconds =>
    obtain rfl := Option.some.inj hstep
    exact h.regroup rfl rfl rfl rfl (fun _ hkey => hkey) h.read h.reading
  | write component path inMemory =>
    obtain rfl := Option.some.inj hstep
    exact h.writeInFile hc.1 hc.2.1 hc.2.2
  | lookup component inMemory =>
    obtain ⟨mgr, -, hstep⟩ := Option.bind_eq_some_iff.mp hstep
    split at hstep
    · obtain rfl := Option.some.inj hstep
      exact (h.rotateUpdaterFile hc.1 hc.2).1
    · cases hstep
  | checkForUpdaterFile component =>
    obtain rfl := Option.some.inj hstep
    exact (h.ensureManager hc).1
  | removeComponentRecords component =>
    obtain rfl := Option.some.inj hstep
    exact h.remove component
  | walkOld component listing =>
    simp only [step] at hstep
    split at hstep
    · obtain rfl := Option.some.inj hstep
      exact h.take fun key hkey => ⟨mem_keysOf hkey, hc key hkey⟩
    · cases hstep
  | walkSingle component =>
    simp only [step] at hstep
    split at hstep
    · rename_i key hkeys
      split at hstep
      · obtain rfl := Option.some.inj hstep
        have hkey : key ∈ s.keysOf (s.listed component) := by simp [hkeys]
        refine h.take fun key' hkey' => ?_
        obtain rfl := List.mem_singleton.mp hkey'
        exact ⟨mem_keysOf hkey, hc key' hkey⟩
      · cases hstep
    · cases hstep
  | walkEmpty key =>
    simp only [step] at hstep
    split at hstep
    · rename_i hempty
      obtain rfl := Option.some.inj hstep
      obtain ⟨f, hf, hnone⟩ := (Option.any_eq_true _ _).mp hempty.2
      obtain ⟨i, hi, hfi⟩ := Option.bind_eq_some_iff.mp hf
      obtain ⟨g, hg, hgkey⟩ := lookupName_spec hi
      obtain rfl := Option.some.inj (hfi.symm.trans hg)
      refine h.discard (mem_taken.mpr (.inl hempty.1)) (fun f' hf' hkey' r hr => ?_)
        (fun _ hk => List.mem_of_mem_filter hk) fun _ hk => hk
      rw [file_unique h.keys_nodup hf' (List.mem_of_getElem? hfi) (hkey'.trans hgkey.symm),
        List.isEmpty_iff.mp hnone] at hr
      cases hr
    · cases hstep
  | walkSelect keys =>
    simp only [step] at hstep
    split at hstep
    · rename_i hkeys
      obtain rfl := Option.some.inj hstep
      refine h.regroup rfl rfl rfl rfl (fun key hkey => mem_taken.mpr ?_) h.read h.reading
      rcases mem_taken.mp hkey with hin | hin | hin
      · exact .inl (List.mem_of_mem_filter hin)
      · exact .inl (hkeys.1 key hin)
      · exact .inr (.inr hin)
    · cases hstep
  | readEntry key =>
    simp only [step] at hstep
    split at hstep
    · rename_i hready
      obtain rfl := Option.some.inj hstep
      refine h.regroup rfl rfl rfl rfl (fun key' hkey => ?_) h.read h.reading
      have hentry : key' = key → key' ∈ s.walkerMap := fun hsame => hsame ▸ hready.2.2
      simp only [State.taken, List.mem_append, Option.toList_some, List.mem_singleton] at hkey ⊢
      tauto
    · cases hstep
  | readOpen =>
    obtain ⟨key, hentry, rfl⟩ := Option.map_eq_some_iff.mp hstep
    exact h.readOpen hentry
  | readChunk =>
    obtain ⟨rd, hrd, hstep⟩ := Option.bind_eq_some_iff.mp hstep
    obtain ⟨f, hf, rfl⟩ := Option.map_eq_some_iff.mp hstep
    exact h.readChunk hrd hf (hc rd hrd f hf)
  | populate =>
    obtain rfl := Option.some.inj hstep
    exact h.populate hc
  | retire key =>
    simp only [step] at hstep
    split at hstep
    · rename_i hin
      obtain rfl := Option.some.inj hstep
      exact h.discard (mem_taken.mpr (.inr (.inr (.inr (.inr (.inl hin))))))
        (h.read key (mem_finished.mpr (.inr (.inl hin)))) (fun _ hk => hk)
        fun _ hk => List.mem_of_mem_filter hk
    · cases hstep
  | sweep key =>
    simp only [step] at hstep
    split at hstep
    · rename_i hin
      obtain rfl := Option.some.inj hstep
      exact h.sweep hin
    · cases hstep

theorem sound_initial : Sound {} where
  keys_nodup := .nil
  commaFree _ hf := by cases hf
  managers _ _ hmgr := by cases hmgr
  closed _ hkey := by cases hkey
  read _ hkey := by cases hkey
  reading _ hrd := by cases hrd
  unlinked _ hf := by cases hf
  passed _ hp := by cases hp

/-- In every run whose steps meet the condition, no name is forgotten. -/
theorem no_container_forgotten (conf : Config) (events : List Event) (s : State)
    (hcond : Along (step conf) (Condition conf) {} events)
    (hrun : run (step conf) {} events = some s) : NoneForgotten s :=
  (run_along_preserves (step conf) (step_sound conf) sound_initial hcond hrun).noneForgotten

instance (s : State) (component : Component) : Decidable (s.Fresh component) :=
  inferInstanceAs (Decidable (∀ f ∈ s.files, _))

instance (s : State) (key : Key) : Decidable (s.NotOpen key) :=
  inferInstanceAs (Decidable (∀ f ∈ s.openFile key.1, _))

/-- Only the character itself is looked at. -/
instance decidableForallSeparator (c? : Option Char) : Decidable (∀ c ∈ c?, c = ',') :=
  Option.decidableForallMem c?

instance (conf : Config) (s : State) : DecidablePred (Condition conf s) := fun e => by
  cases e <;> simp only [Condition] <;> infer_instance

/-- The defaults of both sides. -/
def defaults : Config where
  maxContHashListSize := 10
  timeout := 3600
  maxFilesStoredInCache := 100
  maxUpdateFiles := 10
  expireDeltaTime := 1020

/-- The first file is rotated by the timer before the updater takes it. -/
def rotatedRun : List Event :=
  [.write 1 "/fs/acc/dir/cont1".toList [], .tick 3600000, .lookup 1 [], .walkOld 1 [0, 1],
    .walkSelect [(1, 0)], .readEntry (1, 0), .readOpen, .readChunk, .readChunk, .populate,
    .retire (1, 0), .sweep (1, 0), .write 1 "/fs/acc/dir/cont2".toList []]

theorem no_container_forgotten_rotated :
    (run (step defaults) {} rotatedRun).map (fun s => s.files.map File.linked) =
        some [false, true] ∧
      ∀ s, run (step defaults) {} rotatedRun = some s → NoneForgotten s :=
  ⟨by decide +kernel,
    fun s => no_container_forgotten defaults rotatedRun s (by decide +kernel)⟩

/-- The only file of the component expires for the updater while the container service has it
open. -/
def expiredRun : List Event :=
  [.write 1 "/fs/acc/dir/cont1".toList [], .tick 1021000, .walkSingle 1, .walkSelect [(1, 0)],
    .readEntry (1, 0), .readOpen, .readChunk, .readChunk, .populate, .retire (1, 0), .sweep (1, 0),
    .write 1 "/fs/acc/dir/cont2".toList []]

/-- The second name is written to a file that no longer exists. -/
theorem container_forgotten :
    ¬∀ events s, run (step defaults) {} events = some s → NoneForgotten s := by
  intro hall
  have hrun : (run (step defaults) {} expiredRun).map
      (fun s => (s.passed[1]?, s.files.map File.linked, s.readLog.length)) =
      some (some ⟨1, "acc/cont2".toList, 1⟩, [false], 1) := by
    decide +kernel
  obtain ⟨s, hs, hlists⟩ := Option.map_eq_some_iff.mp hrun
  simp only [Prod.mk.injEq] at hlists
  have hin : (⟨1, "acc/cont2".toList, 1⟩ : Passed) ∈ s.passed := List.mem_of_getElem? hlists.1
  rcases hall _ s hs _ hin with ⟨f, hf, hlinked, -⟩ | ⟨e, hread, -⟩
  · have hgone : f.linked ∈ [false] := by
      rw [← hlists.2.1]
      exact List.mem_map_of_mem hf
    rw [hlinked] at hgone
    cases List.mem_singleton.mp hgone
  · rw [List.drop_of_length_le (Nat.le_of_eq hlists.2.2)] at hread
    cases hread

end ObjectStorage.Updater.StatFiles
