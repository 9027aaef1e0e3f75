import ObjectStorage.Library.Transition

/-!
Uploads of one object. The names of the two temporary files depend on the object alone, and where a
request returns early its lock is released before the files are removed.
-/

namespace ObjectStorage.Objects

open Library

/-- Who wrote a file: a request before the run, or the request at a position of it. -/
inductive Writer where
  | earlier
  | put (i : Nat)
deriving DecidableEq

/-- How the block of `disk_file.create()` is left: by a return after `FREE_LOCK`, by an exception,
or after `writer.put`. -/
inductive Leaving where
  | early
  | raised
  | finalized
deriving DecidableEq

/-- What a request does next. The clean-up is `unlinkData` and `unlinkMeta`; a failed write drops
the files before. -/
inductive Phase where
  | arrived
  | locked
  | removeData
  | createData
  | removeMeta
  | createMeta
  | uploading
  | dropData
  | dropMeta
  | releasing
  | renameData
  | renameMeta
  | unlinkData (how : Leaving)
  | unlinkMeta (how : Leaving)
  | leaving (how : Leaving)
  | ended (created : Bool)
deriving DecidableEq

/-- The lock of the object, the two temporary and the two target files, the requests, and for each
second rename the request and the writers of the target files at that moment. -/
structure Uploads where
  lock : Option Nat
  tmpData : Option Writer
  tmpMeta : Option Writer
  data : Option Writer
  metadata : Option Writer
  puts : List Phase
  finalized : List (Nat × Option Writer × Option Writer)

/-- `next` is the next statement of a request, and the others are the branches it can take.
`released` tells whether the container service frees the lock, `created` whether the answer is
201. -/
inductive Action where
  | grant
  | next
  | conflict (released : Bool)
  | fail
  | failWrite
  | returnEarly
  | freeLock (released : Bool)
  | leave (released created : Bool)
deriving DecidableEq

/-- The clean-up of the temporary data file. -/
def Phase.removesData : Phase → Bool
  | .dropData | .unlinkData _ => true
  | _ => false

def Phase.removesMeta : Phase → Bool
  | .dropMeta | .unlinkMeta _ => true
  | _ => false

inductive UploadStep where
  | arrive
  | act (i : Nat) (a : Action)
deriving DecidableEq

namespace Uploads

def start (tmpData tmpMeta data metadata : Bool) : Uploads :=
  let file (present : Bool) := if present then some Writer.earlier else none
  ⟨none, file tmpData, file tmpMeta, file data, file metadata, [], []⟩

def moveTo (s : Uploads) (i : Nat) (phase : Phase) : Uploads :=
  { s with puts := s.puts.set i phase }

/-- The container service frees the lock that the request holds, or the message is lost. -/
def free (s : Uploads) (i : Nat) (released : Bool) : Uploads :=
  if released ∧ s.lock = some i then { s with lock := none } else s

/-- The next statement of a request. -/
def next (s : Uploads) (i : Nat) : Phase → Option Uploads
  | .locked => some (s.moveTo i .removeData)
  | .removeData => some ({ s with tmpData := none }.moveTo i .createData)
  | .createData =>
      if s.tmpData = none then some ({ s with tmpData := some (.put i) }.moveTo i .removeMeta)
      else some (s.moveTo i (.leaving .raised))
  | .removeMeta => some ({ s with tmpMeta := none }.moveTo i .createMeta)
  | .createMeta =>
      if s.tmpMeta = none then some ({ s with tmpMeta := some (.put i) }.moveTo i .uploading)
      else some (s.moveTo i (.leaving .raised))
  | .uploading => some (s.moveTo i .renameData)
  | .renameData =>
      match s.tmpData with
      | some w => some ({ s with tmpData := none, data := some w }.moveTo i .renameMeta)
      | none => some (s.moveTo i (.unlinkData .raised))
  | .renameMeta =>
      match s.tmpMeta with
      | some w =>
          some ({ s with
            tmpMeta := none
            metadata := some w
            finalized := s.finalized ++ [(i, s.data, some w)] }.moveTo i (.unlinkData .finalized))
      | none => some (s.moveTo i (.unlinkData .raised))
  | .dropData => some ({ s with tmpData := none }.moveTo i .dropMeta)
  | .dropMeta => some ({ s with tmpMeta := none }.moveTo i (.unlinkData .raised))
  | .unlinkData how =>
      -- one `try` for both files: the second one stays when the first is not there
      if s.tmpData = none then some (s.moveTo i (.leaving how))
      else some ({ s with tmpData := none }.moveTo i (.unlinkMeta how))
  | .unlinkMeta how => some ({ s with tmpMeta := none }.moveTo i (.leaving how))
  | _ => none

def act (s : Uploads) (i : Nat) : Action → Phase → Option Uploads
  | .grant, .arrived =>
      if s.lock = none then some ({ s with lock := some i }.moveTo i .locked) else none
  | .next, phase => s.next i phase
  | .conflict released, .locked => some ((s.free i released).moveTo i (.ended false))
  | .fail, .locked => some (s.moveTo i (.ended false))
  | .fail, .removeData | .fail, .createData | .fail, .removeMeta | .fail, .createMeta =>
      some (s.moveTo i (.leaving .raised))
  | .fail, .uploading | .fail, .renameData | .fail, .renameMeta =>
      some (s.moveTo i (.unlinkData .raised))
  | .failWrite, .uploading => some (s.moveTo i .dropData)
  | .returnEarly, .uploading => some (s.moveTo i .releasing)
  | .freeLock released, .releasing => some ((s.free i released).moveTo i (.unlinkData .early))
  | .leave _ _, .leaving .early => some (s.moveTo i (.ended false))
  | .leave released _, .leaving .raised => some ((s.free i released).moveTo i (.ended false))
  | .leave released created, .leaving .finalized =>
      some ((s.free i released).moveTo i (.ended created))
  | _, _ => none

def step (s : Uploads) : UploadStep → Option Uploads
  | .arrive => some { s with puts := s.puts ++ [.arrived] }
  | .act i a => s.puts[i]?.bind (s.act i a)

/-- A request that removes a temporary file in its clean-up wrote it. -/
def CleansOwn (s : Uploads) : UploadStep → Prop
  | .act i .next =>
      ∀ phase ∈ s.puts[i]?, (phase.removesData → ∀ w ∈ s.tmpData, w = .put i) ∧
        (phase.removesMeta → ∀ w ∈ s.tmpMeta, w = .put i)
  | _ => True

instance decidableCleansOwn (s : Uploads) : (a : UploadStep) → Decidable (s.CleansOwn a)
  | .act i .next => inferInstanceAs (Decidable (∀ phase ∈ s.puts[i]?,
      (phase.removesData → ∀ w ∈ s.tmpData, w = .put i) ∧
        (phase.removesMeta → ∀ w ∈ s.tmpMeta, w = .put i)))
  | .arrive | .act _ .grant | .act _ (.conflict _) | .act _ .fail | .act _ .failWrite
  | .act _ .returnEarly | .act _ (.freeLock _) | .act _ (.leave _ _) => isTrue trivial

/-- At each second rename both target files are those of the request, and a request that was
answered 201 had its second rename. -/
structure CreatedOwn (s : Uploads) : Prop where
  own : ∀ e ∈ s.finalized, e.2 = (some (.put e.1), some (.put e.1))
  created : ∀ i, s.puts[i]? = some (.ended true) → ∃ e ∈ s.finalized, e.1 = i

/-- A temporary file is created only while no request that released its lock has to remove it. -/
def Clear (s : Uploads) : UploadStep → Prop
  | .act i .next =>
      (s.puts[i]? = some .createData → .unlinkData .early ∉ s.puts) ∧
      (s.puts[i]? = some .createMeta →
        .unlinkData .early ∉ s.puts ∧ .unlinkMeta .early ∉ s.puts)
  | _ => True

instance decidableClear (s : Uploads) : (a : UploadStep) → Decidable (s.Clear a)
  | .act i .next => inferInstanceAs (Decidable (
      (s.puts[i]? = some .createData → .unlinkData .early ∉ s.puts) ∧
      (s.puts[i]? = some .createMeta →
        .unlinkData .early ∉ s.puts ∧ .unlinkMeta .early ∉ s.puts)))
  | .arrive | .act _ .grant | .act _ (.conflict _) | .act _ .fail | .act _ .failWrite
  | .act _ .returnEarly | .act _ (.freeLock _) | .act _ (.leave _ _) => isTrue trivial

end Uploads

/-! ### What a phase relies on -/

namespace Phase

/-- The request has not sent `FREE_LOCK` yet. -/
def holds : Phase → Bool
  | .arrived | .unlinkData .early | .unlinkMeta .early | .leaving .early | .ended _ => false
  | _ => true

/-- The temporary data file is the one of the request, if there is one. `early` tells whether this
is also required after the lock was released. -/
def ownsData (early : Bool) : Phase → Bool
  | .createData | .removeMeta | .createMeta | .uploading | .dropData | .dropMeta | .releasing
  | .renameData | .renameMeta | .unlinkData .raised | .unlinkData .finalized => true
  | .unlinkData .early => early
  | _ => false

def ownsMeta (early : Bool) : Phase → Bool
  | .createMeta | .uploading | .dropData | .dropMeta | .releasing | .renameData | .renameMeta
  | .unlinkData .raised | .unlinkData .finalized | .unlinkMeta .raised | .unlinkMeta .finalized =>
      true
  | .unlinkData .early | .unlinkMeta .early => early
  | _ => false

def renamed : Phase → Bool
  | .unlinkData .finalized | .unlinkMeta .finalized | .leaving .finalized | .ended true => true
  | _ => false

theorem ownsData_of_removesData {phase : Phase} (h : phase.removesData = true) :
    phase.ownsData true = true := by
  cases phase with
  | dropData => rfl
  | unlinkData how => cases how <;> rfl
  | _ => cases h

theorem ownsMeta_of_removesMeta {phase : Phase} (h : phase.removesMeta = true) :
    phase.ownsMeta true = true := by
  cases phase with
  | dropMeta => rfl
  | unlinkMeta how => cases how <;> rfl
  | _ => cases h

theorem holds_of_ownsData {phase : Phase} (h : phase.ownsData false = true) :
    phase.holds = true := by
  cases phase with
  | unlinkData how => cases how <;> first | rfl | cases h
  | _ => first | rfl | cases h

theorem holds_of_ownsMeta {phase : Phase} (h : phase.ownsMeta false = true) :
    phase.holds = true := by
  cases phase with
  | unlinkData how => cases how <;> first | rfl | cases h
  | unlinkMeta how => cases how <;> first | rfl | cases h
  | _ => first | rfl | cases h

end Phase

namespace Uploads

variable {early : Bool} {s s' : Uploads} {i j : Nat} {phase : Phase}

/-- What the files and the lock are for a request in a phase. -/
structure Own (early : Bool) (s : Uploads) (i : Nat) (phase : Phase) : Prop where
  lock : phase.holds → s.lock = some i
  tmpData : phase.ownsData early → ∀ w ∈ s.tmpData, w = .put i
  tmpMeta : phase.ownsMeta early → ∀ w ∈ s.tmpMeta, w = .put i
  data : phase = .renameMeta → s.data = some (.put i)
  renamed : phase.renamed → ∃ e ∈ s.finalized, e.1 = i

structure Owned (early : Bool) (s : Uploads) : Prop where
  puts : ∀ i phase, s.puts[i]? = some phase → Own early s i phase
  finalized : ∀ e ∈ s.finalized, e.2 = (some (.put e.1), some (.put e.1))

/-- What a step of request `i` may do to the files that the others rely on. -/
structure Harmless (early : Bool) (i : Nat) (s s' : Uploads) : Prop where
  lock : ∀ j ≠ i, s.lock = some j → s'.lock = some j
  tmpData : s'.tmpData = s.tmpData ∨ s'.tmpData = none ∨
    (s.lock = some i ∧ (early = true → .unlinkData .early ∉ s.puts))
  tmpMeta : s'.tmpMeta = s.tmpMeta ∨ s'.tmpMeta = none ∨
    (s.lock = some i ∧ (early = true → .unlinkData .early ∉ s.puts ∧ .unlinkMeta .early ∉ s.puts))
  data : s'.data = s.data ∨ s.lock = some i
  finalized : ∀ e ∈ s.finalized, e ∈ s'.finalized

theorem Own.other (h : Own early s j phase) (hphase : s.puts[j]? = some phase) (hij : j ≠ i)
    (hstep : Harmless early i s s') : Own early s' j phase := by
  have hmem := List.mem_of_getElem? hphase
  have hfree : s.lock = some i → ¬ phase.holds = true := by
    intro hlock hholds
    rw [h.lock hholds] at hlock
    exact hij (Option.some.inj hlock)
  refine ⟨fun hholds => hstep.lock j hij (h.lock hholds), fun howns w hw => ?_,
    fun howns w hw => ?_, fun hrename => ?_, fun hrenamed => ?_⟩
  · rcases hstep.tmpData with heq | hnone | ⟨hlock, hclear⟩
    · exact h.tmpData howns w (heq ▸ hw)
    · rw [hnone] at hw
      cases hw
    · cases early with
      | false => exact absurd (Phase.holds_of_ownsData howns) (hfree hlock)
      | true =>
          exfalso
          by_cases hearly : phase = .unlinkData .early
          · exact hclear rfl (hearly ▸ hmem)
          · refine hfree hlock (Phase.holds_of_ownsData ?_)
            unfold Phase.ownsData at howns ⊢
            split at howns <;> simp_all
  · rcases hstep.tmpMeta with heq | hnone | ⟨hlock, hclear⟩
    · exact h.tmpMeta howns w (heq ▸ hw)
    · rw [hnone] at hw
      cases hw
    · cases early with
      | false => exact absurd (Phase.holds_of_ownsMeta howns) (hfree hlock)
      | true =>
          exfalso
          by_cases hearly : phase = .unlinkData .early ∨ phase = .unlinkMeta .early
          · rcases hearly with rfl | rfl
            · exact (hclear rfl).1 hmem
            · exact (hclear rfl).2 hmem
          · refine hfree hlock (Phase.holds_of_ownsMeta ?_)
            unfold Phase.ownsMeta at howns ⊢
            split at howns <;> simp_all
  · rcases hstep.data with heq | hlock
    · rw [heq]
      exact h.data hrename
    · exact absurd (by rw [hrename]; rfl) (hfree hlock)
  · obtain ⟨e, he, hi⟩ := h.renamed hrenamed
    exact ⟨e, hstep.finalized e he, hi⟩

/-- A step of request `i` into a phase, in terms of what it does to the files. -/
theorem Owned.moveTo {next : Phase} (h : s.Owned early) (hstep : Harmless early i s s')
    (hputs : s'.puts = s.puts) (hnew : ∀ e ∈ s'.finalized,
      e ∈ s.finalized ∨ e.2 = (some (.put e.1), some (.put e.1)))
    (hown : Own early s' i next) : (s'.moveTo i next).Owned early where
  puts j phase hphase := by
    have hphase : (s.puts.set i next)[j]? = some phase := hputs ▸ hphase
    by_cases hij : i = j
    · subst hij
      rw [List.getElem?_set_self'] at hphase
      obtain ⟨_, -, rfl⟩ := Option.map_eq_some_iff.mp hphase
      exact ⟨hown.lock, hown.tmpData, hown.tmpMeta, hown.data, hown.renamed⟩
    · rw [List.getElem?_set_ne hij] at hphase
      have hother := (h.puts j phase hphase).other hphase (Ne.symm hij) hstep
      exact ⟨hother.lock, hother.tmpData, hother.tmpMeta, hother.data, hother.renamed⟩
  finalized e he := by
    rcases hnew e he with hold | hnew
    · exact h.finalized e hold
    · exact hnew

theorem Harmless.refl (early : Bool) (i : Nat) (s : Uploads) : Harmless early i s s :=
  ⟨fun _ _ h => h, .inl rfl, .inl rfl, .inl rfl, fun _ h => h⟩

theorem Harmless.free (early : Bool) (i : Nat) (s : Uploads) (released : Bool) :
    Harmless early i s (s.free i released) := by
  unfold Uploads.free
  split
  · rename_i hlock
    exact ⟨fun j hij hj => absurd (Option.some.inj (hj.symm.trans hlock.2)) hij, .inl rfl,
      .inl rfl, .inl rfl, fun _ h => h⟩
  · exact .refl early i s

theorem Own.move {next : Phase} (h : Own early s i phase)
    (hholds : next.holds → phase.holds) (hdata : next.ownsData early → phase.ownsData early)
    (hmeta : next.ownsMeta early → phase.ownsMeta early) (hrename : next ≠ .renameMeta)
    (hrenamed : next.renamed → phase.renamed) : Own early s i next :=
  ⟨fun hn => h.lock (hholds hn), fun hn => h.tmpData (hdata hn), fun hn => h.tmpMeta (hmeta hn),
    fun hn => absurd hn hrename, fun hn => h.renamed (hrenamed hn)⟩

/-- A request that gives the lock away, and does not rely on it any more. -/
theorem Own.free {next : Phase} (h : Own early s i phase) (released : Bool)
    (hholds : next.holds = false) (hdata : next.ownsData early → phase.ownsData early)
    (hmeta : next.ownsMeta early → phase.ownsMeta early) (hrename : next ≠ .renameMeta)
    (hrenamed : next.renamed → phase.renamed) : Own early (s.free i released) i next := by
  have hmove : Own early { s with lock := (s.free i released).lock } i next :=
    ⟨fun hn => absurd hn (by simp [hholds]), fun hn => h.tmpData (hdata hn),
      fun hn => h.tmpMeta (hmeta hn), fun hn => absurd hn hrename,
      fun hn => h.renamed (hrenamed hn)⟩
  unfold Uploads.free at hmove ⊢
  split
  · simpa [*] using hmove
  · simpa [*] using hmove

theorem Owned.move {next : Phase} (h : s.Owned early) (hphase : s.puts[i]? = some phase)
    (hown : Own early s i phase → Own early s i next) : (s.moveTo i next).Owned early :=
  h.moveTo (.refl early i s) rfl (fun _ he => .inl he) (hown (h.puts i phase hphase))

theorem Owned.moveFree {next : Phase} (h : s.Owned early) (hphase : s.puts[i]? = some phase)
    (released : Bool)
    (hown : Own early s i phase → Own early (s.free i released) i next) :
    ((s.free i released).moveTo i next).Owned early := by
  refine h.moveTo (.free early i s released) ?_ (fun e he => .inl ?_) (hown (h.puts i phase hphase))
  · unfold Uploads.free
    split <;> rfl
  · unfold Uploads.free at he
    split at he <;> exact he

theorem Owned.grant (h : s.Owned early) (hlock : s.lock = none) :
    ({ s with lock := some i }.moveTo i .locked).Owned early := by
  refine h.moveTo ⟨fun j _ hj => ?_, .inl rfl, .inl rfl, .inl rfl, fun _ he => he⟩ rfl
    (fun _ he => .inl he) ⟨fun _ => rfl, nofun, nofun, nofun, nofun⟩
  rw [hlock] at hj
  cases hj

theorem Owned.next (h : s.Owned early) (hphase : s.puts[i]? = some phase)
    (hclear : early = true → s.Clear (.act i .next)) (hstep : s.next i phase = some s') :
    s'.Owned early := by
  have hi := h.puts i phase hphase
  cases phase with
  | locked =>
      obtain rfl := Option.some.inj hstep
      exact h.move hphase fun ho => ho.move (fun _ => rfl) nofun nofun nofun nofun
  | removeData =>
      obtain rfl := Option.some.inj hstep
      exact h.moveTo ⟨fun _ _ hj => hj, .inr (.inl rfl), .inl rfl, .inl rfl, fun _ he => he⟩ rfl
        (fun _ he => .inl he) ⟨fun _ => hi.lock rfl, nofun, nofun, nofun, nofun⟩
  | createData =>
      simp only [Uploads.next] at hstep
      split at hstep
      · obtain rfl := Option.some.inj hstep
        refine h.moveTo ⟨fun _ _ hj => hj, .inr (.inr ⟨hi.lock rfl, fun hearly => ?_⟩), .inl rfl,
          .inl rfl, fun _ he => he⟩ rfl (fun _ he => .inl he)
          ⟨fun _ => hi.lock rfl, fun _ w hw => ?_, nofun, nofun, nofun⟩
        · exact (hclear hearly).1 hphase
        · exact (Option.some.inj hw).symm
      · obtain rfl := Option.some.inj hstep
        exact h.move hphase fun ho => ho.move (fun _ => rfl) nofun nofun nofun nofun
  | removeMeta =>
      obtain rfl := Option.some.inj hstep
      exact h.moveTo ⟨fun _ _ hj => hj, .inl rfl, .inr (.inl rfl), .inl rfl, fun _ he => he⟩ rfl
        (fun _ he => .inl he) ⟨fun _ => hi.lock rfl, fun _ => hi.tmpData rfl, nofun, nofun, nofun⟩
  | createMeta =>
      simp only [Uploads.next] at hstep
      split at hstep
      · obtain rfl := Option.some.inj hstep
        refine h.moveTo ⟨fun _ _ hj => hj, .inl rfl, .inr (.inr ⟨hi.lock rfl, fun hearly => ?_⟩),
          .inl rfl, fun _ he => he⟩ rfl (fun _ he => .inl he)
          ⟨fun _ => hi.lock rfl, fun _ => hi.tmpData rfl, fun _ w hw => ?_, nofun, nofun⟩
        · exact (hclear hearly).2 hphase
        · exact (Option.some.inj hw).symm
      · obtain rfl := Option.some.inj hstep
        exact h.move hphase fun ho => ho.move (fun _ => rfl) nofun nofun nofun nofun
  | uploading =>
      obtain rfl := Option.some.inj hstep
      exact h.move hphase fun ho =>
        ho.move (fun _ => rfl) (fun _ => rfl) (fun _ => rfl) nofun nofun
  | dropData =>
      obtain rfl := Option.some.inj hstep
      exact h.moveTo ⟨fun _ _ hj => hj, .inr (.inl rfl), .inl rfl, .inl rfl, fun _ he => he⟩ rfl
        (fun _ he => .inl he) ⟨fun _ => hi.lock rfl, nofun, fun _ => hi.tmpMeta rfl, nofun, nofun⟩
  | dropMeta =>
      obtain rfl := Option.some.inj hstep
      exact h.moveTo ⟨fun _ _ hj => hj, .inl rfl, .inr (.inl rfl), .inl rfl, fun _ he => he⟩ rfl
        (fun _ he => .inl he) ⟨fun _ => hi.lock rfl, fun _ => hi.tmpData rfl, nofun, nofun, nofun⟩
  | renameData =>
      simp only [Uploads.next] at hstep
      split at hstep
      · rename_i w hw
        obtain rfl := Option.some.inj hstep
        refine h.moveTo ⟨fun _ _ hj => hj, .inr (.inl rfl), .inl rfl, .inr (hi.lock rfl),
          fun _ he => he⟩ rfl (fun _ he => .inl he)
          ⟨fun _ => hi.lock rfl, nofun, fun _ => hi.tmpMeta rfl, fun _ => ?_, nofun⟩
        exact congrArg some (hi.tmpData rfl w hw)
      · obtain rfl := Option.some.inj hstep
        exact h.move hphase fun ho =>
          ho.move (fun _ => rfl) (fun _ => rfl) (fun _ => rfl) nofun nofun
  | renameMeta =>
      simp only [Uploads.next] at hstep
      split at hstep
      · rename_i w hw
        obtain rfl := Option.some.inj hstep
        have hown : (s.data, some w) = (some (.put i), some (.put i)) := by
          rw [hi.data rfl, hi.tmpMeta rfl w hw]
        refine h.moveTo ⟨fun _ _ hj => hj, .inl rfl, .inr (.inl rfl), .inl rfl, fun _ he => ?_⟩ rfl
          (fun e he => ?_) ⟨fun _ => hi.lock rfl, fun _ => hi.tmpData rfl, nofun, nofun,
            fun _ => ⟨_, List.mem_append_right _ List.mem_cons_self, rfl⟩⟩
        · exact List.mem_append_left _ he
        · rcases List.mem_append.mp he with hold | hnew
          · exact .inl hold
          · obtain rfl := List.mem_singleton.mp hnew
            exact .inr hown
      · obtain rfl := Option.some.inj hstep
        exact h.move hphase fun ho =>
          ho.move (fun _ => rfl) (fun _ => rfl) (fun _ => rfl) nofun nofun
  | unlinkData how =>
      simp only [Uploads.next] at hstep
      split at hstep
      · obtain rfl := Option.some.inj hstep
        exact h.move hphase fun ho => by
          refine ho.move ?_ nofun nofun nofun ?_ <;> cases how <;> exact id
      · obtain rfl := Option.some.inj hstep
        refine h.moveTo ⟨fun _ _ hj => hj, .inr (.inl rfl), .inl rfl, .inl rfl, fun _ he => he⟩ rfl
          (fun _ he => .inl he) ⟨?_, nofun, ?_, nofun, ?_⟩
        · cases how <;> exact hi.lock
        · cases how <;> exact hi.tmpMeta
        · cases how <;> exact hi.renamed
  | unlinkMeta how =>
      obtain rfl := Option.some.inj hstep
      refine h.moveTo ⟨fun _ _ hj => hj, .inl rfl, .inr (.inl rfl), .inl rfl, fun _ he => he⟩ rfl
        (fun _ he => .inl he) ⟨?_, nofun, nofun, nofun, ?_⟩
      · cases how <;> exact hi.lock
      · cases how <;> exact hi.renamed
  | arrived => cases hstep
  | releasing => cases hstep
  | leaving how => cases hstep
  | ended created => cases hstep

theorem Owned.act (h : s.Owned early) {a : Action} (hphase : s.puts[i]? = some phase)
    (hclear : early = true → s.Clear (.act i a)) (hstep : s.act i a phase = some s') :
    s'.Owned early := by
  unfold Uploads.act at hstep
  split at hstep
  · split at hstep
    · rename_i hlock
      exact Option.some.inj hstep ▸ h.grant hlock
    · cases hstep
  · exact h.next hphase hclear hstep
  · exact Option.some.inj hstep ▸ h.moveFree hphase _ fun ho =>
      ho.free _ rfl nofun nofun nofun nofun
  · exact Option.some.inj hstep ▸ h.move hphase fun ho => ho.move nofun nofun nofun nofun nofun
  iterate 4
    exact Option.some.inj hstep ▸ h.move hphase fun ho =>
      ho.move (fun _ => rfl) nofun nofun nofun nofun
  iterate 5
    exact Option.some.inj hstep ▸ h.move hphase fun ho =>
      ho.move (fun _ => rfl) (fun _ => rfl) (fun _ => rfl) nofun nofun
  · exact Option.some.inj hstep ▸ h.moveFree hphase _ fun ho =>
      ho.free _ rfl (fun _ => rfl) (fun _ => rfl) nofun nofun
  · exact Option.some.inj hstep ▸ h.move hphase fun ho => ho.move nofun nofun nofun nofun nofun
  · exact Option.some.inj hstep ▸ h.moveFree hphase _ fun ho =>
      ho.free _ rfl nofun nofun nofun nofun
  · exact Option.some.inj hstep ▸ h.moveFree hphase _ fun ho =>
      ho.free _ rfl nofun nofun nofun fun _ => rfl
  · cases hstep

theorem Owned.step (h : s.Owned early) {a : UploadStep} (hclear : early = true → s.Clear a)
    (hstep : s.step a = some s') : s'.Owned early := by
  cases a with
  | act i a =>
      obtain ⟨phase, hphase, hstep⟩ := Option.bind_eq_some_iff.mp hstep
      exact h.act hphase hclear hstep
  | arrive =>
      obtain rfl := Option.some.inj hstep
      refine ⟨fun i phase hphase => ?_, h.finalized⟩
      have hphase : (s.puts ++ [.arrived])[i]? = some phase := hphase
      by_cases hi : i < s.puts.length
      · rw [List.getElem?_append_left hi] at hphase
        have ho := h.puts i phase hphase
        exact ⟨ho.lock, ho.tmpData, ho.tmpMeta, ho.data, ho.renamed⟩
      · rw [List.getElem?_append_right (Nat.le_of_not_lt hi)] at hphase
        obtain rfl := List.mem_singleton.mp (List.mem_of_getElem? hphase)
        exact ⟨nofun, nofun, nofun, nofun, nofun⟩

theorem owned_start (early tmpData tmpMeta data metadata : Bool) :
    (start tmpData tmpMeta data metadata).Owned early :=
  ⟨by simp [start], by simp [start]⟩

theorem Owned.cleansOwn (h : s.Owned true) (a : UploadStep) : s.CleansOwn a := by
  cases a with
  | arrive => trivial
  | act i a =>
      cases a with
      | next =>
          intro phase hphase
          have hi := h.puts i phase hphase
          exact ⟨fun hremoves => hi.tmpData (Phase.ownsData_of_removesData hremoves),
            fun hremoves => hi.tmpMeta (Phase.ownsMeta_of_removesMeta hremoves)⟩
      | _ => trivial

/-- In every run, a request that is answered 201 had both target files at its second rename. -/
theorem createdOwn_of_run {tmpData tmpMeta data metadata : Bool} {steps : List UploadStep}
    (hrun : run step (start tmpData tmpMeta data metadata) steps = some s) : s.CreatedOwn := by
  have howned : s.Owned false := run_preserves _ (I := Owned false)
    (fun _ _ _ h hstep => h.step nofun hstep) (owned_start ..) hrun
  exact ⟨howned.finalized, fun i hi => (howned.puts i _ hi).renamed rfl⟩

/-- Uploads do not damage each other in a run in which no temporary file is created while a request
that released its lock is still to remove it. -/
theorem uploads_independent {tmpData tmpMeta data metadata : Bool} {steps : List UploadStep}
    (hsteps : Along step Clear (start tmpData tmpMeta data metadata) steps) :
    Along step CleansOwn (start tmpData tmpMeta data metadata) steps ∧
      ∀ s, run step (start tmpData tmpMeta data metadata) steps = some s → s.CreatedOwn :=
  ⟨along_of_invariant _ (I := Owned true) (fun _ _ _ h hsafe hstep => h.step (fun _ => hsafe) hstep)
    (fun _ a h _ => h.cleansOwn a) (owned_start ..) hsteps, fun _ hrun => createdOwn_of_run hrun⟩

/-- The steps of a request from its arrival to the block of `disk_file.create()`. -/
def createSteps (i : Nat) : List UploadStep :=
  .arrive :: .act i .grant :: List.replicate 5 (.act i .next)

/-- A request that returns early, and another one that comes after its clean-up. -/
theorem uploads_independent_two :
    Along step CleansOwn (start false false true true) (createSteps 0 ++ [.act 0 .returnEarly,
        .act 0 (.freeLock true), .act 0 .next, .act 0 .next] ++ createSteps 1 ++
        [.act 1 .next, .act 1 .next, .act 1 .next, .act 1 .next, .act 1 (.leave true true)]) ∧
      ∀ s, run step (start false false true true) (createSteps 0 ++ [.act 0 .returnEarly,
        .act 0 (.freeLock true), .act 0 .next, .act 0 .next] ++ createSteps 1 ++
        [.act 1 .next, .act 1 .next, .act 1 .next, .act 1 .next, .act 1 (.leave true true)]) =
        some s → s.CreatedOwn :=
  uploads_independent (by decide)

/-- The request that returned early removes the files of the next one, whose rename then fails. -/
theorem early_return_removes_others :
    ¬ Along step CleansOwn (start false false true true) (createSteps 0 ++ [.act 0 .returnEarly,
        .act 0 (.freeLock true)] ++ createSteps 1 ++ [.act 0 .next, .act 0 .next, .act 1 .next,
        .act 1 .next]) ∧
      ∃ s, run step (start false false true true) (createSteps 0 ++ [.act 0 .returnEarly,
        .act 0 (.freeLock true)] ++ createSteps 1 ++ [.act 0 .next, .act 0 .next, .act 1 .next,
        .act 1 .next]) = some s ∧ s.puts[1]? = some (.unlinkData .raised) :=
  ⟨by decide, _, rfl, rfl⟩

end Uploads

end ObjectStorage.Objects
