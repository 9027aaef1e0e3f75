import ObjectStorage.Objects.RequestHandlers

/-!
Which requests leave their transaction in the memory of the object server. Such a request ends by an
exception that is raised between the entry of the transaction and the end of the handler, where no
clause removes it.
-/

namespace ObjectStorage.Objects

open Library Library.Block Handler

variable {entry : Entry} {α : Type}

namespace LockManager

variable (m : LockManager)

theorem holds_apply {op : ManagerOp} {path id : String} (h : op.entry ≠ (path, id)) :
    (m.apply op).Holds path id ↔ m.Holds path id := by
  cases op with
  | add path' id' =>
      by_cases hempty : path' = "" ∨ id' = ""
      · simp [apply, add, hempty, Except.toOption]
      · obtain ⟨hpath, hid⟩ := not_or.mp hempty
        obtain ⟨m', heq, hholds⟩ := m.add_spec hpath hid
        have hne : ¬ (path' = path ∧ id' = id) := fun hsame => h (Prod.ext hsame.1 hsame.2)
        simp [apply, heq, Except.toOption, hholds, hne]
  | delete path' id' =>
      by_cases hin : m.Holds path' id'
      · obtain ⟨m', heq, hholds⟩ := m.delete_spec hin
        have hne : ¬ (path' = path ∧ id' = id) := fun hsame => h (Prod.ext hsame.1 hsame.2)
        simp [apply, heq, Except.toOption, hholds, hne]
      · simp [apply, m.delete_of_not_holds hin, Except.toOption]

@[simp] theorem has_after (c : Call entry α) : (c.after m).Has entry ↔ m.Has entry := by
  obtain ⟨result, meanwhile, foreign⟩ := c
  simp only [Call.after]
  induction meanwhile generalizing m with
  | nil => rfl
  | cons op ops ih =>
      have hrest := ih (m.apply op) fun op' hop' => foreign op' (List.mem_cons_of_mem _ hop')
      exact hrest.trans (m.holds_apply (foreign op List.mem_cons_self))

theorem add_including (entry : Entry) :
    m.add entry.path entry.id = .ok (m.including entry) := by
  obtain ⟨m', heq, -⟩ := m.add_spec entry.path_ne entry.id_ne
  simp [including, apply, heq, Except.toOption]

@[simp] theorem has_including (entry : Entry) : (m.including entry).Has entry := by
  obtain ⟨m', heq, hholds⟩ := m.add_spec entry.path_ne entry.id_ne
  obtain rfl := Except.ok.inj (heq.symm.trans (m.add_including entry))
  exact (hholds _ _).mpr (.inr ⟨rfl, rfl⟩)

theorem delete_without {entry : Entry} (h : m.Has entry) :
    m.delete entry.path entry.id = .ok (m.without entry) := by
  obtain ⟨m', heq, -⟩ := m.delete_spec h
  simp [without, apply, heq, Except.toOption]

theorem without_of_absent {entry : Entry} (h : ¬ m.Has entry) : m.without entry = m := by
  simp [without, apply, m.delete_of_not_holds h, Except.toOption]

@[simp] theorem not_has_without (entry : Entry) : ¬ (m.without entry).Has entry := by
  by_cases h : m.Has entry
  · obtain ⟨m', heq, hholds⟩ := m.delete_spec h
    obtain rfl := Except.ok.inj (heq.symm.trans (m.delete_without h))
    exact fun hin => ((hholds _ _).mp hin).2 ⟨rfl, rfl⟩
  · rwa [m.without_of_absent h]

end LockManager

namespace Handler

section

variable {m : LockManager} {β : Type} {Q : Exit Raised Response α → LockManager → Prop}
  {R : Exit Raised Response Unit → LockManager → Prop}

@[simp] theorem ends_call {c : Call entry α} : Ends (call c) Q m ↔
    match c.result with
    | .ok a => Q (.next a) (c.after m)
    | .error e => Q (.raised e) (c.after m) := by
  simp only [Ends, call]
  cases c.result <;> rfl

@[simp] theorem ends_deleteTransId : Ends (deleteTransId entry) R m ↔
    if m.Has entry then R (.next ()) (m.without entry) else R (.raised .keyError) m := by
  by_cases h : m.Has entry
  · simp [Ends, deleteTransId, m.delete_without h, h]
  · simp [Ends, deleteTransId, m.delete_of_not_holds h, h]

@[simp] theorem ends_removeTransId :
    Ends (removeTransId entry) R m ↔ R (.next ()) (m.without entry) := by
  by_cases h : m.Has entry
  · simp [removeTransId, h]
  · simp [removeTransId, h, exceptException, Raised.isException, m.without_of_absent h]

@[simp] theorem ends_releaseLock {c : Call entry Unit} :
    Ends (releaseLock c) R m ↔ R (.next ()) (c.after m) := by
  cases h : c.result <;> simp [releaseLock, h]

@[simp] theorem ends_item {metadata : Metadata} {key : String} :
    Ends (item metadata key) R m ↔
      if valueOf metadata key = none then R (.raised .keyError) m else R (.next ()) m := by
  simp only [item]
  split <;> rfl

@[simp] theorem ends_enter {c : Call entry Unit} :
    Ends (enter c) R m ↔ R (.next ()) (m.including entry) := by
  simp [enter, Ends, attempt, addTransId, m.add_including]

end

/-- The block ends with the entry removed. -/
def Absent (entry : Entry) (b : Handler α) (m : LockManager) : Prop :=
  Ends b (fun _ m' => ¬ m'.Has entry) m

/-- `POST` leaks its transaction when a call of the disk file raises no `Exception`. -/
def PostCalls.Leaks (c : PostCalls entry) : Prop :=
  ∃ e, e.isException = false ∧ (c.readMetadata.Raises e ∨
    ∃ metadata, c.readMetadata.Gives metadata ∧
      below ((valueOf metadata "X-Timestamp").getD "0") c.timestamp = true ∧
      c.writeMetadata.Raises e)

/-- `HEAD` leaks its transaction also when it cannot build the response. -/
def HeadCalls.Leaks (c : HeadCalls entry) : Prop :=
  (∃ e, e.isException = false ∧ c.readMetadata.Raises e) ∨
    ∃ metadata, c.readMetadata.Gives metadata ∧
      ((∃ key ∈ ["ETag", "X-Timestamp", "Content-Length"], valueOf metadata key = none) ∨
        ∃ e, c.response.Raises e)

/-- A call in the block of `disk_file.open()` raises the exception, after the calls before it
returned. -/
def GetCalls.Fails (c : GetCalls entry) (metadata : Metadata) (e : Raised) : Prop :=
  valueOf metadata "Content-Length" ≠ none ∧ valueOf metadata "X-Timestamp" ≠ none ∧
    (c.times.Raises e ∨ ∃ modified, c.times.Gives modified ∧
      (c.ifUnmodifiedSince.Raises e ∨
        ∃ unmodifiedSince, c.ifUnmodifiedSince.Gives unmodifiedSince ∧
          unmodifiedSince.any (· < modified) = false ∧
          (c.ifModifiedSince.Raises e ∨
            ∃ modifiedSince, c.ifModifiedSince.Gives modifiedSince ∧
              modifiedSince.any (modified ≤ ·) = false ∧
              valueOf metadata "ETag" ≠ none ∧ c.response.Raises e)))

/-- The block is left by one of the preconditions of the request. -/
def GetCalls.LeavesEarly (c : GetCalls entry) (metadata : Metadata) : Prop :=
  valueOf metadata "Content-Length" ≠ none ∧ valueOf metadata "X-Timestamp" ≠ none ∧
    ∃ modified, c.times.Gives modified ∧
      ∃ unmodifiedSince, c.ifUnmodifiedSince.Gives unmodifiedSince ∧
        (unmodifiedSince.any (· < modified) = true ∨
          ∃ modifiedSince, c.ifModifiedSince.Gives modifiedSince ∧
            modifiedSince.any (modified ≤ ·) = true)

/-- `GET` leaks its transaction when no `Exception` is raised in the block, or by closing the
file. -/
def GetCalls.Leaks (c : GetCalls entry) : Prop :=
  ∃ e, e.isException = false ∧ (c.openFile.Raises e ∨
    ∃ metadata, c.openFile.Gives metadata ∧
      ((c.closeFile.Raises e ∧ ¬ c.LeavesEarly metadata) ∨
        (c.closeFile.Gives () ∧ c.Fails metadata e)))

@[simp] theorem getD_exceptException {clause : Raised → Handler α} {e : Raised} {h : Handler α} :
    (exceptException clause e).getD h = if e.isException then clause e else h := by
  simp only [exceptException]
  split <;> rfl

theorem absent_post {c : PostCalls entry} {m : LockManager} :
    Absent entry (post c) m ↔ ¬ c.Leaks := by
  cases hread : c.readMetadata.result with
  | error e =>
      cases he : e.isException
      · simp [Absent, post, PostCalls.Leaks, hread, he]
      · cases hnot : e.isNotExist
        · simp [Absent, post, PostCalls.Leaks, hread, he, hnot, leave]
        · simp [Absent, post, PostCalls.Leaks, hread, he, hnot, leave]
  | ok metadata =>
      cases hnewer : below ((valueOf metadata "X-Timestamp").getD "0") c.timestamp
      · simp [Absent, post, PostCalls.Leaks, hread, hnewer, leave]
      · cases hwrite : c.writeMetadata.result with
        | error e =>
            cases he : e.isException
            · simp [Absent, post, PostCalls.Leaks, hread, hnewer, hwrite, he]
            · simp [Absent, post, PostCalls.Leaks, hread, hnewer, hwrite, he, leave]
        | ok _ =>
            simp [Absent, post, PostCalls.Leaks, hread, hnewer, hwrite, finish]

theorem absent_head {c : HeadCalls entry} {m : LockManager} :
    Absent entry (head c) m ↔ ¬ c.Leaks := by
  cases hread : c.readMetadata.result with
  | error e =>
      cases he : e.isException
      · simp [Absent, head, HeadCalls.Leaks, hread, he]
      · by_cases hnot : e.isNotExist ∨ e = .diskFileQuarantined
        · simp [Absent, head, HeadCalls.Leaks, hread, he, hnot, leave]
        · simp [Absent, head, HeadCalls.Leaks, hread, he, hnot, leave]
  | ok metadata =>
      cases hetag : valueOf metadata "ETag" <;>
        cases htime : valueOf metadata "X-Timestamp" <;>
        cases hlength : valueOf metadata "Content-Length" <;>
        cases hresponse : c.response.result <;>
        simp [Absent, head, HeadCalls.Leaks, hread, hetag, htime, hlength, hresponse, finish]

theorem Raised.isException_of_isNotExist {e : Raised} (h : e.isNotExist = true) :
    e.isException = true := by
  cases e <;> first | rfl | cases h

/-- How the block of `disk_file.open()` ends. -/
theorem openBlock_spec (c : GetCalls entry) (metadata : Metadata) {m : LockManager}
    (hm : m.Has entry) :
    Ends (openBlock c metadata) (fun ended s =>
      match ended with
      | .next _ => s.Has entry ∧ ¬ c.LeavesEarly metadata ∧ ∀ e, ¬ c.Fails metadata e
      | .returned _ => ¬ s.Has entry ∧ c.LeavesEarly metadata ∧ ∀ e, ¬ c.Fails metadata e
      | .raised e => s.Has entry ∧ ¬ c.LeavesEarly metadata ∧
          ∀ e', e'.isException = false → (c.Fails metadata e' ↔ e = e')) m := by
  have hkey : ∀ e, e.isException = false → ¬ Raised.keyError = e := by
    rintro e he rfl
    cases he
  cases hlength : valueOf metadata "Content-Length" with
  | none => simpa [openBlock, GetCalls.Fails, GetCalls.LeavesEarly, hlength, hm] using hkey
  | some _ =>
  cases htime : valueOf metadata "X-Timestamp" with
  | none => simpa [openBlock, GetCalls.Fails, GetCalls.LeavesEarly, hlength, htime, hm] using hkey
  | some _ =>
  cases htimes : c.times.result with
  | error e => simp [openBlock, GetCalls.Fails, GetCalls.LeavesEarly, hlength, htime, htimes, hm]
  | ok modified =>
  cases hunmodified : c.ifUnmodifiedSince.result with
  | error e =>
      simp [openBlock, GetCalls.Fails, GetCalls.LeavesEarly, hlength, htime, htimes, hunmodified,
        hm]
  | ok unmodifiedSince =>
  cases hchanged : unmodifiedSince.any (· < modified)
  · cases hmodified : c.ifModifiedSince.result with
    | error e =>
        simp [openBlock, GetCalls.Fails, GetCalls.LeavesEarly, hlength, htime, htimes,
          hunmodified, hchanged, hmodified, hm]
    | ok modifiedSince =>
        cases hold : modifiedSince.any (modified ≤ ·)
        · cases hetag : valueOf metadata "ETag" with
          | none =>
              simpa [openBlock, GetCalls.Fails, GetCalls.LeavesEarly, hlength, htime, htimes,
                hunmodified, hchanged, hmodified, hold, hetag, hm] using hkey
          | some _ =>
              cases hresponse : c.response.result <;>
                simp [openBlock, GetCalls.Fails, GetCalls.LeavesEarly, hlength, htime, htimes,
                  hunmodified, hchanged, hmodified, hold, hetag, hresponse, hm]
        · simp [openBlock, GetCalls.Fails, GetCalls.LeavesEarly, hlength, htime, htimes,
            hunmodified, hchanged, hmodified, hold, leave]
  · simp [openBlock, GetCalls.Fails, GetCalls.LeavesEarly, hlength, htime, htimes, hunmodified,
      hchanged, leave]

theorem Raised.ne_of_isException {e e' : Raised} (h : e.isException = true)
    (h' : e'.isException = false) : e ≠ e' := by
  rintro rfl
  cases h.symm.trans h'

theorem absent_get {c : GetCalls entry} {m : LockManager} :
    Absent entry (get c) m ↔ ¬ c.Leaks := by
  cases hopen : c.openFile.result with
  | error e =>
      cases hnot : e.isNotExist
      · cases he : e.isException
        · simp [Absent, get, GetCalls.Leaks, hopen, he, hnot]
        · simp [Absent, get, GetCalls.Leaks, hopen, he, hnot, leave]
      · simp [Absent, get, GetCalls.Leaks, hopen, hnot, Raised.isException_of_isNotExist hnot,
          finish]
  | ok metadata =>
      have hspec := openBlock_spec c metadata
        (by simp : (c.openFile.after (m.including entry)).Has entry)
      simp only [Absent, get, ends_bind, ends_enter, ends_attempt, ends_call, hopen, ends_within]
      rw [Ends] at hspec ⊢
      generalize openBlock c metadata (c.openFile.after (m.including entry)) = block at hspec ⊢
      obtain ⟨ended, s⟩ := block
      cases hclose : c.closeFile.result with
      | error e =>
          -- the exception of the context replaces what the block ended with
          cases hnot : e.isNotExist
          · cases he : e.isException
            · cases ended with
              | next r =>
                  obtain ⟨hhas, hearly, -⟩ := hspec
                  simp [GetCalls.Leaks, hopen, hclose, he, hnot, hhas, hearly]
              | returned r =>
                  obtain ⟨hhas, hearly, -⟩ := hspec
                  simp [GetCalls.Leaks, hopen, hclose, he, hnot, hhas, hearly]
              | raised e' =>
                  obtain ⟨hhas, hearly, -⟩ := hspec
                  simp [GetCalls.Leaks, hopen, hclose, he, hnot, hhas, hearly]
            · simp [GetCalls.Leaks, hopen, hclose, he, hnot, leave]
          · simp [GetCalls.Leaks, hopen, hclose, hnot, Raised.isException_of_isNotExist hnot,
              finish]
      | ok _ =>
          cases ended with
          | next r =>
              obtain ⟨-, -, hfails⟩ := hspec
              simp [GetCalls.Leaks, hopen, hclose, hfails, finish]
          | returned r =>
              obtain ⟨hhas, -, hfails⟩ := hspec
              simp [GetCalls.Leaks, hopen, hclose, hfails, hhas]
          | raised e =>
              obtain ⟨hhas, -, hfails⟩ := hspec
              cases he : e.isException
              · have hleaks : c.Leaks :=
                  ⟨e, he, .inr ⟨metadata, hopen, .inr ⟨hclose, (hfails e he).mpr rfl⟩⟩⟩
                cases hnot : e.isNotExist
                · simp [hnot, he, hhas, hleaks]
                · cases (Raised.isException_of_isNotExist hnot).symm.trans he
              · have hkept : ¬ c.Leaks := by
                  rintro ⟨e', he', hraises | ⟨metadata', hgives, ⟨hraises, -⟩ | ⟨-, hfail⟩⟩⟩
                  · cases hraises.symm.trans hopen
                  · cases hraises.symm.trans hclose
                  · obtain rfl := Except.ok.inj (hgives.symm.trans hopen)
                    exact Raised.ne_of_isException he he' ((hfails e' he').mp hfail)
                cases hnot : e.isNotExist
                · simp [hnot, he, hkept, leave]
                · simp [hnot, hkept, finish]

/-- The pass goes on to the next one. -/
def Round.Redirects (r : Round entry) : Prop :=
  r.containerUpdate.Gives .redirect ∧ r.globalMap.Gives () ∧ r.host.Gives true

/-- The pass raises what no clause takes. `last` tells the last pass, and `Fails` what follows an
update. -/
def Round.Leaks (r : Round entry) (last Fails : Prop) : Prop :=
  (∃ e, r.containerUpdate.Raises e) ∨ (r.containerUpdate.Gives .done ∧ Fails) ∨
    (¬ last ∧ r.containerUpdate.Gives .redirect ∧
      ((∃ e, e ≠ .valueError ∧ r.globalMap.Raises e) ∨
        (r.globalMap.Gives () ∧ ∃ e, e.isException = false ∧ r.host.Raises e)))

/-- One of the passes leaks, after passes that are redirected. -/
def UpdatesLeak (passes : Nat) (rounds : Nat → Round entry) (Fails : Prop) : Prop :=
  ∃ k < passes, (∀ j < k, (rounds j).Redirects) ∧ (rounds k).Leaks (k + 1 = passes) Fails

theorem updatesLeak_succ {left : Nat} {rounds : Nat → Round entry} {Fails : Prop} :
    UpdatesLeak (left + 1) rounds Fails ↔ (rounds 0).Leaks (left = 0) Fails ∨
      ((rounds 0).Redirects ∧ UpdatesLeak left (fun k => rounds (k + 1)) Fails) := by
  constructor
  · rintro ⟨k, hk, hbefore, hleaks⟩
    cases k with
    | zero => exact .inl (by simpa [eq_comm] using hleaks)
    | succ k =>
        refine .inr ⟨hbefore 0 (by omega), k, by omega, fun j hj => hbefore (j + 1) (by omega), ?_⟩
        simpa using hleaks
  · rintro (hleaks | ⟨hfirst, k, hk, hbefore, hleaks⟩)
    · exact ⟨0, by omega, fun j hj => by omega, by simpa [eq_comm] using hleaks⟩
    · refine ⟨k + 1, by omega, fun j hj => ?_, by simpa using hleaks⟩
      cases j with
      | zero => exact hfirst
      | succ j => exact hbefore j (by omega)

theorem absent_updates {done : Handler Unit} {rest : Handler Response}
    {Fails : Prop} (hrest : ∀ s : LockManager, s.Has entry → Absent entry rest s)
    (hdone : ∀ s : LockManager, s.Has entry →
      (Absent entry (done >>= fun _ => rest) s ↔ ¬ Fails)) (failed : Response) (left : Nat)
    (rounds : Nat → Round entry) {m : LockManager} (hm : m.Has entry) :
    Absent entry (updates entry failed done left rounds >>= fun _ => rest) m ↔
      ¬ UpdatesLeak left rounds Fails := by
  induction left generalizing rounds m with
  | zero =>
      refine iff_of_true (hrest m hm) ?_
      rintro ⟨k, hk, -⟩
      omega
  | succ left ih =>
      rw [updatesLeak_succ]
      cases hupdate : (rounds 0).containerUpdate.result with
      | error e => simp [Absent, updates, Round.Leaks, hupdate, hm]
      | ok ret =>
          cases ret with
          | done =>
              have hafter := hdone ((rounds 0).containerUpdate.after m) (by simpa using hm)
              simp only [Absent, ends_bind] at hafter
              simp [Absent, updates, Round.Leaks, Round.Redirects, hupdate, hafter]
          | failed => simp [Absent, updates, Round.Leaks, Round.Redirects, hupdate, hm]
          | redirect =>
              by_cases hlast : left = 0
              · subst hlast
                have hnone : ¬ UpdatesLeak 0 (fun k => rounds (k + 1)) Fails := by
                  rintro ⟨k, hk, -⟩
                  omega
                simp [Absent, updates, Round.Leaks, hupdate, hm, hnone]
              · cases hmap : (rounds 0).globalMap.result with
                | error e =>
                    by_cases he : e = .valueError
                    · simp [Absent, updates, Round.Leaks, Round.Redirects, hupdate, hlast, hmap,
                        he, hm]
                    · simp [Absent, updates, Round.Leaks, Round.Redirects, hupdate, hlast, hmap,
                        he, hm]
                | ok _ =>
                    cases hhost : (rounds 0).host.result with
                    | error e =>
                        cases he : e.isException
                        · simp [Absent, updates, Round.Leaks, Round.Redirects, hupdate, hlast,
                            hmap, hhost, he, hm]
                        · simp [Absent, updates, Round.Leaks, Round.Redirects, hupdate, hlast,
                            hmap, hhost, he]
                    | ok found =>
                        cases found
                        · simp [Absent, updates, Round.Leaks, Round.Redirects, hupdate, hlast,
                            hmap, hhost, hm]
                        · have hnext := ih (fun k => rounds (k + 1))
                            (m := (rounds 0).host.after ((rounds 0).globalMap.after
                              ((rounds 0).containerUpdate.after m))) (by simpa using hm)
                          simp only [Absent, ends_bind] at hnext
                          simp [Absent, updates, Round.Leaks, Round.Redirects, hupdate, hlast,
                            hmap, hhost, hnext]

/-- The values that are read of the object. Missing and quarantined objects have none. -/
def PutCalls.Reads (c : PutCalls entry) (metadata : Metadata) : Prop :=
  c.readMetadata.Gives metadata ∨
    (metadata = [] ∧ ∃ e, c.readMetadata.Raises e ∧
      (e.isNotExist = true ∨ e = .diskFileQuarantined))

/-- A call in the block of `disk_file.create()` raises the exception, after those before it
returned, and the block is not left early. -/
def PutCalls.Fails (c : PutCalls entry) (e : Raised) : Prop :=
  c.initHash.Raises e ∨ (c.initHash.Gives () ∧
    ((c.upload.Raises e ∧ e ≠ .chunkReadTimeout) ∨
      ∃ size, c.upload.Gives size ∧ wrongSize c size = false ∧
        (c.hash.Raises e ∨
          ∃ etag, c.hash.Gives etag ∧ wrongEtag c etag = false ∧
            ((c.contentType = none ∧ .keyError = e) ∨
              (c.contentType ≠ none ∧ c.put.Raises e)))))

/-- The block is executed to its end. -/
def PutCalls.Passes (c : PutCalls entry) : Prop :=
  c.initHash.Gives () ∧ ∃ size, c.upload.Gives size ∧
    wrongSize c size = false ∧ ∃ etag, c.hash.Gives etag ∧
      wrongEtag c etag = false ∧ c.contentType ≠ none ∧ c.put.Gives ()

/-- The block, its entry or its exit raises no `Exception` while the transaction is in the
memory. -/
def PutCalls.UploadLeaks (c : PutCalls entry) : Prop :=
  ∃ e, e.isException = false ∧ (c.create.Raises e ∨ (c.create.Gives () ∧
    ((c.closeFiles.Raises e ∧ (c.Passes ∨ ∃ e', c.Fails e')) ∨
      (c.closeFiles.Gives () ∧ c.Fails e))))

/-- After the upload, `PUT` leaks when the length of the old object is missing, and when the update
of the container raises an exception. -/
def PutCalls.ReportLeaks (c : PutCalls entry) (metadata : Metadata) : Prop :=
  (metadata ≠ [] ∧ valueOf metadata "Content-Length" = none) ∨
    UpdatesLeak (c.retryCount + 1).toNat c.rounds False

/-- Once the metadata is read, `PUT` leaks also when no `Exception` is raised during the upload. -/
def PutCalls.StoreLeaks (c : PutCalls entry) (metadata : Metadata) : Prop :=
  conflicts c metadata = false ∧
    (c.UploadLeaks ∨
      (c.create.Gives () ∧ c.Passes ∧ c.closeFiles.Gives () ∧ c.ReportLeaks metadata))

/-- `PUT` leaks its transaction also when the metadata cannot be read for another reason than that
there is no object. -/
def PutCalls.Leaks (c : PutCalls entry) : Prop :=
  (∃ e, c.readMetadata.Raises e ∧ e.isNotExist = false ∧ e ≠ .diskFileQuarantined) ∨
    ∃ metadata, c.Reads metadata ∧ c.StoreLeaks metadata

/-- How the block of `disk_file.create()` ends. -/
theorem uploadBlock_spec (c : PutCalls entry) {m : LockManager} (hm : m.Has entry) :
    Ends (uploadBlock c) (fun ended s =>
      match ended with
      | .next _ => s.Has entry ∧ c.Passes ∧ ∀ e, ¬ c.Fails e
      | .returned _ => ¬ s.Has entry ∧ ¬ c.Passes ∧ ∀ e, ¬ c.Fails e
      | .raised e => s.Has entry ∧ ¬ c.Passes ∧ ∀ e', c.Fails e' ↔ e = e') m := by
  cases hinit : c.initHash.result with
  | error e => simp [uploadBlock, PutCalls.Passes, PutCalls.Fails, hinit, hm]
  | ok _ =>
  cases hupload : c.upload.result with
  | error e =>
      by_cases he : e = .chunkReadTimeout
      · simp [uploadBlock, PutCalls.Passes, PutCalls.Fails, hinit, hupload, he, leave]
      · simp [uploadBlock, PutCalls.Passes, PutCalls.Fails, hinit, hupload, he, hm]
  | ok size =>
  cases hsize : wrongSize c size
  · cases hhash : c.hash.result with
    | error e =>
        simp [uploadBlock, PutCalls.Passes, PutCalls.Fails, hinit, hupload, hsize, hhash, hm]
    | ok etag =>
        cases hetag : wrongEtag c etag
        · cases htype : c.contentType with
          | none =>
              simp [uploadBlock, PutCalls.Passes, PutCalls.Fails, hinit, hupload, hsize, hhash,
                hetag, htype, hm]
          | some _ =>
              cases hput : c.put.result <;>
                simp [uploadBlock, PutCalls.Passes, PutCalls.Fails, hinit, hupload, hsize, hhash,
                  hetag, htype, hput, hm]
        · simp [uploadBlock, PutCalls.Passes, PutCalls.Fails, hinit, hupload, hsize, hhash,
            hetag, leave]
  · simp [uploadBlock, PutCalls.Passes, PutCalls.Fails, hinit, hupload, hsize, leave]

theorem absent_reportPut (c : PutCalls entry) (metadata : Metadata) {m : LockManager}
    (hm : m.Has entry) : Absent entry (reportPut c metadata) m ↔ ¬ c.ReportLeaks metadata := by
  have hrest : ∀ s : LockManager, s.Has entry →
      Absent entry (do finish c.freeLock; pure Response.created) s := by
    simp [Absent, finish]
  have hdone : ∀ s : LockManager, s.Has entry → (Absent entry
      ((pure () : Handler Unit) >>= fun _ => do finish c.freeLock; pure Response.created) s ↔
        ¬ False) := by
    simp [Absent, finish]
  have hupdates := absent_updates hrest hdone .created (c.retryCount + 1).toNat c.rounds hm
  simp only [Absent, ends_bind, ends_pure] at hupdates
  by_cases hempty : metadata = []
  · simp [Absent, reportPut, PutCalls.ReportLeaks, hempty, hupdates]
  · cases hlength : valueOf metadata "Content-Length" with
    | none => simp [Absent, reportPut, PutCalls.ReportLeaks, hempty, hlength, hm]
    | some _ => simp [Absent, reportPut, PutCalls.ReportLeaks, hempty, hlength, hupdates]

theorem absent_putObject {c : PutCalls entry} {metadata : Metadata} {m : LockManager}
    (hm : m.Has entry) : Absent entry (putObject c metadata) m ↔ ¬ c.StoreLeaks metadata := by
  cases hconflict : conflicts c metadata
  · cases hcreate : c.create.result with
    | error e =>
        cases he : e.isException
        · simp [Absent, putObject, PutCalls.StoreLeaks, PutCalls.UploadLeaks, hconflict, hcreate,
            he, hm]
        · by_cases hspace : e = .diskFileNoSpace
          · simp [Absent, putObject, PutCalls.StoreLeaks, PutCalls.UploadLeaks, hconflict, hcreate,
              hspace, leave, Raised.isException]
          · simp [Absent, putObject, PutCalls.StoreLeaks, PutCalls.UploadLeaks, hconflict, hcreate,
              he, hspace, leave]
    | ok _ =>
        have hspec := uploadBlock_spec c (by simpa using hm : (c.create.after m).Has entry)
        simp only [Absent, putObject, hconflict, Bool.false_eq_true, if_false, ends_bind,
          ends_attempt, ends_call, hcreate, ends_within]
        rw [Ends] at hspec ⊢
        generalize uploadBlock c (c.create.after m) = block at hspec ⊢
        obtain ⟨ended, s⟩ := block
        cases hclose : c.closeFiles.result with
        | error e =>
            cases he : e.isException
            · cases ended with
              | next _ =>
                  obtain ⟨hhas, hpasses, -⟩ := hspec
                  simp [PutCalls.StoreLeaks, PutCalls.UploadLeaks, hconflict, hcreate, hclose, he,
                    hhas, hpasses]
              | returned r =>
                  obtain ⟨hhas, hpasses, hfails⟩ := hspec
                  simp [PutCalls.StoreLeaks, PutCalls.UploadLeaks, hconflict, hcreate, hclose, he,
                    hhas, hpasses, hfails]
              | raised e' =>
                  obtain ⟨hhas, hpasses, hfails⟩ := hspec
                  simp [PutCalls.StoreLeaks, PutCalls.UploadLeaks, hconflict, hcreate, hclose, he,
                    hhas, hpasses, hfails]
            · by_cases hspace : e = .diskFileNoSpace
              · simp [PutCalls.StoreLeaks, PutCalls.UploadLeaks, hconflict, hcreate, hclose,
                  hspace, leave, Raised.isException]
              · simp [PutCalls.StoreLeaks, PutCalls.UploadLeaks, hconflict, hcreate, hclose, he,
                  hspace, leave]
        | ok _ =>
            cases ended with
            | next _ =>
                obtain ⟨hhas, hpasses, hfails⟩ := hspec
                have hreport := absent_reportPut c metadata
                  (by simpa using hhas : (c.closeFiles.after s).Has entry)
                simp only [Absent] at hreport
                simp [PutCalls.StoreLeaks, PutCalls.UploadLeaks, hconflict, hcreate, hclose,
                  hpasses, hfails, hreport]
            | returned r =>
                obtain ⟨hhas, hpasses, hfails⟩ := hspec
                simp [PutCalls.StoreLeaks, PutCalls.UploadLeaks, hconflict, hcreate, hclose,
                  hhas, hpasses, hfails]
            | raised e =>
                obtain ⟨hhas, hpasses, hfails⟩ := hspec
                cases he : e.isException
                · simp [PutCalls.StoreLeaks, PutCalls.UploadLeaks, hconflict, hcreate, hclose,
                    hhas, hpasses, hfails, he]
                · by_cases hspace : e = .diskFileNoSpace
                  · simp [PutCalls.StoreLeaks, PutCalls.UploadLeaks, hconflict, hcreate, hclose,
                      hpasses, hfails, hspace, leave, Raised.isException]
                  · simp [PutCalls.StoreLeaks, PutCalls.UploadLeaks, hconflict, hcreate, hclose,
                      hpasses, hfails, he, hspace, leave]
  · simp [Absent, putObject, PutCalls.StoreLeaks, hconflict, finish]

theorem absent_put {c : PutCalls entry} {m : LockManager} :
    Absent entry (put c) m ↔ ¬ c.Leaks := by
  have hobject : ∀ metadata, Ends (putObject c metadata) (fun _ s => ¬ s.Has entry)
      (c.readMetadata.after (m.including entry)) ↔ ¬ c.StoreLeaks metadata := fun metadata =>
    absent_putObject (by simp)
  cases hread : c.readMetadata.result with
  | error e =>
      by_cases hnone : e.isNotExist = true ∨ e = .diskFileQuarantined
      · have hnot : e.isNotExist = false → e = .diskFileQuarantined := fun hfalse =>
          hnone.resolve_left (by simp [hfalse])
        simp only [Absent, put, PutCalls.Leaks, PutCalls.Reads]
        simpa [hread, hnone, hobject] using fun _ => hnot
      · obtain ⟨hexist, hquarantined⟩ := not_or.mp hnone
        simp [Absent, put, PutCalls.Leaks, PutCalls.Reads, hread, hexist, hquarantined]
  | ok metadata => simp [Absent, put, PutCalls.Leaks, PutCalls.Reads, hread, hobject]

/-- The values that are read of the object. -/
def DeleteCalls.Reads (c : DeleteCalls entry) (origTimestamp : Option String)
    (metadata : Metadata) : Prop :=
  (c.readMetadata.Gives metadata ∧ valueOf metadata "X-Timestamp" = origTimestamp) ∨
    ∃ e, c.readMetadata.Raises e ∧ unreadable e = some (origTimestamp, metadata)

/-- The removal leaks when removing a file raises an exception, when the length of the object is
missing, and when the update of the container raises an exception. -/
def DeleteCalls.RemoveLeaks (c : DeleteCalls entry) (metadata : Metadata) : Prop :=
  (∃ e, c.deleteData.Raises e) ∨
    (c.deleteData.Gives true ∧
      (valueOf metadata "Content-Length" = none ∨
        UpdatesLeak (c.retryCount + 1).toNat c.rounds (∃ e, c.deleteMeta.Raises e)))

/-- `DELETE` leaks its transaction also when reading the metadata raises no `Exception`. -/
def DeleteCalls.Leaks (c : DeleteCalls entry) : Prop :=
  (∃ e, e.isException = false ∧ c.readMetadata.Raises e) ∨
    ∃ origTimestamp metadata, c.Reads origTimestamp metadata ∧
      older origTimestamp c.timestamp = true ∧ c.RemoveLeaks metadata

theorem absent_removeObject {c : DeleteCalls entry} {metadata : Metadata} {r : Response}
    {m : LockManager} (hm : m.Has entry) :
    Absent entry (removeObject c metadata >>= fun _ => do finish c.freeLock; pure r) m ↔
      ¬ c.RemoveLeaks metadata := by
  cases hdata : c.deleteData.result with
  | error e => simp [Absent, removeObject, DeleteCalls.RemoveLeaks, hdata, hm]
  | ok removed =>
      cases removed
      · simp [Absent, removeObject, DeleteCalls.RemoveLeaks, hdata, finish]
      · cases hlength : valueOf metadata "Content-Length" with
        | none => simp [Absent, removeObject, DeleteCalls.RemoveLeaks, hdata, hlength, hm]
        | some _ =>
            have hdone : ∀ s : LockManager, s.Has entry →
                (Absent entry (removeMeta c >>= fun _ => do finish c.freeLock; pure r) s ↔
                  ¬ ∃ e, c.deleteMeta.Raises e) := by
              intro s hs
              cases hmeta : c.deleteMeta.result with
              | error e => simp [Absent, removeMeta, hmeta, hs]
              | ok removed => cases removed <;> simp [Absent, removeMeta, hmeta, finish, hs]
            have hupdates := absent_updates (fun s _ => by simp [Absent, finish]) hdone
              .accepted (c.retryCount + 1).toNat c.rounds
              (by simpa using hm : (c.deleteData.after m).Has entry)
            simp only [Absent, ends_bind, ends_pure] at hupdates
            simp [Absent, removeObject, DeleteCalls.RemoveLeaks, hdata, hlength, hupdates]

theorem Raised.isException_of_unreadable {e : Raised} {read : Option String × Metadata}
    (h : unreadable e = some read) : e.isException = true := by
  cases e <;> first | rfl | cases h

theorem absent_delete {c : DeleteCalls entry} {m : LockManager} :
    Absent entry (delete c) m ↔ ¬ c.Leaks := by
  have hremove : ∀ metadata, Absent entry (removeObject c metadata >>= fun _ => do
      finish c.freeLock; pure Response.notFound) (c.readMetadata.after (m.including entry)) ↔
        ¬ c.RemoveLeaks metadata := fun metadata => absent_removeObject (by simp)
  simp only [Absent, ends_bind, ends_pure] at hremove
  cases hread : c.readMetadata.result with
  | error e =>
      cases hvalues : unreadable e with
      | none =>
          cases he : e.isException
          · simp [Absent, delete, readForDelete, DeleteCalls.Leaks, DeleteCalls.Reads, hread,
              hvalues, he]
          · simp [Absent, delete, readForDelete, DeleteCalls.Leaks, DeleteCalls.Reads, hread,
              hvalues, he, leave]
      | some read =>
          obtain ⟨origTimestamp, metadata⟩ := read
          have he := Raised.isException_of_unreadable hvalues
          cases holder : older origTimestamp c.timestamp
          · simp [Absent, delete, readForDelete, DeleteCalls.Leaks, DeleteCalls.Reads, hread,
              hvalues, he, holder, finish]
          · simp [Absent, delete, readForDelete, DeleteCalls.Leaks, DeleteCalls.Reads, hread,
              hvalues, he, holder, hremove]
  | ok metadata =>
      cases holder : older (valueOf metadata "X-Timestamp") c.timestamp
      · simp [Absent, delete, readForDelete, DeleteCalls.Leaks, DeleteCalls.Reads, hread,
          holder, finish]
      · simp [Absent, delete, readForDelete, DeleteCalls.Leaks, DeleteCalls.Reads, hread,
          holder, hremove]

/-- The request raises, while its transaction is in the memory, what no clause takes. -/
def Request.Leaks : Request entry → Prop
  | .put c => c.Leaks
  | .post c => c.Leaks
  | .get c => c.Leaks
  | .head c => c.Leaks
  | .delete c => c.Leaks

theorem absent_handle (request : Request entry) (m : LockManager) :
    Absent entry (handle request) m ↔ ¬ request.Leaks := by
  cases request with
  | put c => exact absent_put
  | post c => exact absent_post
  | get c => exact absent_get
  | head c => exact absent_head
  | delete c => exact absent_delete

/-- However a request ends, its transaction is removed from the memory exactly when the request does
not leak it. -/
theorem transaction_removed_iff (request : Request entry) (m : LockManager) :
    ¬ (handle request m).2.Holds entry.path entry.id ↔ ¬ request.Leaks := absent_handle request m

/-- A granted lock. -/
def granted : Entry := ⟨"a/c/o", "7", by decide, by decide⟩

/-- A call during which no other request is executed. -/
def quiet (result : Except Raised α) : Call granted α := ⟨result, [], by simp⟩

/-- A pass of the loop around the update of the container. -/
def updated : Round granted where
  containerUpdate := quiet (.ok .done)
  globalMap := quiet (.ok ())
  host := quiet (.ok true)

/-- The metadata file of the object names another object. -/
def putOverCollision : PutCalls granted where
  timestamp := "2.0"
  messageLength := some 3
  etag := none
  contentType := some "text/plain"
  retryCount := 3
  readMetadata := quiet (.error .diskFileCollision)
  create := quiet (.ok ())
  initHash := quiet (.ok ())
  upload := quiet (.ok 3)
  hash := quiet (.ok "900150983cd24fb0d6963f7d28e17f72")
  put := quiet (.ok ())
  closeFiles := quiet (.ok ())
  rounds _ := updated
  leaveLock := quiet (.ok ())
  freeLock := quiet (.ok ())

/-- The data file of the object does not have the length that the metadata gives. -/
def deleteQuarantined : DeleteCalls granted where
  timestamp := "2.0"
  retryCount := 3
  readMetadata := quiet (.error .diskFileQuarantined)
  deleteData := quiet (.ok true)
  deleteMeta := quiet (.ok true)
  rounds _ := updated
  freeLock := quiet (.ok ())

theorem holds_of_leaks {request : Request granted} (hleaks : request.Leaks) :
    (handle request .empty).2.Holds granted.path granted.id ∧
      (handle request .empty).2.isExists granted.path = true := by
  have hholds : (handle request .empty).2.Holds granted.path granted.id :=
    not_not.mp fun habsent => (absent_handle request .empty).mp habsent hleaks
  exact ⟨hholds, (LockManager.isExists_iff _ _).mpr ⟨_, hholds⟩⟩

/-- Both requests leave their transaction, so that no recovery of the object is executed. -/
theorem transaction_leaked :
    ((handle (.put putOverCollision) .empty).2.Holds granted.path granted.id ∧
      (handle (.put putOverCollision) .empty).2.isExists granted.path = true) ∧
    (handle (.delete deleteQuarantined) .empty).2.Holds granted.path granted.id ∧
      (handle (.delete deleteQuarantined) .empty).2.isExists granted.path = true :=
  ⟨holds_of_leaks (show (Request.put putOverCollision).Leaks from
      .inl ⟨.diskFileCollision, rfl, rfl, by decide⟩),
    holds_of_leaks (show (Request.delete deleteQuarantined).Leaks from
      .inr ⟨none, [], .inr ⟨.diskFileQuarantined, rfl, rfl⟩, rfl, .inr ⟨rfl, .inl rfl⟩⟩)⟩

end Handler

end ObjectStorage.Objects
