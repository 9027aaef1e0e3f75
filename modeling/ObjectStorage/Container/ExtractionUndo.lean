import ObjectStorage.Container.MemoryEntries
import ObjectStorage.Library.Transition

/-!
A transfer of components that is undone: the records are extracted component by component, which
waits until no container of the component is being flushed any more, and are then put back one by
one. Flushes end during the waiting and afterwards.
-/

namespace ObjectStorage.Container.Statistics.Components

open Std Library Statistics ObjectStorage.Journal
  ObjectStorage.Container.Statistics.Components.MemoryManager

/-- `toRevert` is there once the extraction has returned. The extracted records are handed on as a
dictionary, whose order is not fixed; here it is the order of the components. -/
structure Transfer where
  memory : MemoryManager
  todo : List Int
  waiting : List String
  extracted : List (Int × List TransferObjectRecord)
  toRevert : Option (List (TransferObjectRecord × Bool))

inductive TransferStep where
  | extract
  | release (path : String) (garbage : JournalOffset)
  | handBack
  | revert

namespace Transfer

def start (m : MemoryManager) (components : List Int) : Transfer := ⟨m, components, [], [], none⟩

/-- The records taken out and not put back. -/
def outstanding (t : Transfer) : List TransferObjectRecord :=
  match t.toRevert with
  | none => t.extracted.flatMap (·.2)
  | some l => l.map (·.1)

/-- `std::map::insert`. -/
def insertExtracted (t : Transfer) (c : Int) (records : List TransferObjectRecord) :
    List (Int × List TransferObjectRecord) :=
  if t.extracted.any (·.1 = c) then t.extracted else t.extracted ++ [(c, records)]

section

variable (component : String → Int) (former : Int → Bool)

/-- No container that the extraction waits for is in memory any more. -/
def settled (t : Transfer) : Bool := t.waiting.all fun path => (find component t.memory path).isNone

/-- The mutex is free for the end of a flush while the extraction waits, and after it. -/
def step (t : Transfer) : TransferStep → Option Transfer
  | .extract =>
      match t.toRevert, t.todo with
      | none, c :: cs =>
          if settled component t then
            match t.memory.extractComponent false c with
            | none => some { t with todo := cs, waiting := [] }
            | some (records, flushed, m) =>
                some ⟨m, cs, flushed, t.insertExtracted c records, none⟩
          else none
      | _, _ => none
  | .release path garbage =>
      if t.waiting ≠ [] ∨ t.toRevert.isSome then
        some { t with memory := releaseFlushRecords component t.memory path garbage }
      else none
  | .handBack =>
      if t.toRevert.isNone ∧ t.todo = [] ∧ settled component t then
        some { t with
          waiting := []
          toRevert := some (t.extracted.flatMap fun e => e.2.map (·, former e.1)) }
      else none
  | .revert =>
      match t.toRevert with
      | some ((transfer, memoryFlag) :: rest) =>
          some { t with
            memory := revertBackContData component t.memory transfer memoryFlag
            toRevert := some rest }
      | _ => none

/-- The flush that ends is not that of a container whose records are all taken out. -/
def Undisturbed (t : Transfer) : TransferStep → Prop
  | .release path _ =>
      (∃ transfer ∈ t.outstanding, transfer.final.path = path) →
        pending component t.memory path ≠ []
  | _ => True

/-- The records that wait for a flush, the counters and the flags are those from before. -/
structure Restored (s m : MemoryManager) : Prop where
  pending : ∀ path, pending component m path = pending component s path
  count : m.count = s.count
  recoveredCount : m.recoveredCount = s.recoveredCount
  flags : ∀ c b, m.flagOf c = some b → s.flagOf c = some b

/-- The records of one container among those taken out. -/
def outstandingOf (t : Transfer) (path : String) : RecordList :=
  (t.outstanding.filter (·.final.path = path)).map fun transfer =>
    (transfer.offset, transfer.final.record)

/-- How many of them are to be counted with owned or with recovered components. -/
def countedAs (t : Transfer) (memoryFlag : Bool) : Nat :=
  t.outstanding.countP fun transfer => former (component transfer.final.path) = memoryFlag

end

variable {component : String → Int}

/-- The former flag of a component. -/
def formerFlag (s : MemoryManager) (c : Int) : Bool := (s.flagOf c).getD true

/-- What holds as long as no flush of an emptied container ends. -/
structure Inv (component : String → Int) (s : MemoryManager) (t : Transfer) : Prop where
  keyed : Keyed component t.memory
  records : ∀ path,
    MemoryManager.pending component t.memory path ++ t.outstandingOf path = pending component s path
  present : ∀ transfer ∈ t.outstanding, (find component t.memory transfer.final.path).isSome
  placed : ∀ e ∈ t.extracted, ∀ transfer ∈ e.2, component transfer.final.path = e.1
  emptied : t.toRevert = none → ∀ e ∈ t.extracted, ∀ path, component path = e.1 →
    pending component t.memory path = []
  flags : ∀ c b, t.memory.flagOf c = some b → s.flagOf c = some b
  reverting : ∀ l, t.toRevert = some l → ∀ e ∈ l,
    e.2 = formerFlag s (component e.1.final.path)
  count : t.memory.count + BitVec.ofNat 32 (t.countedAs component (formerFlag s) true) = s.count
  recoveredCount : t.memory.recoveredCount +
    BitVec.ofNat 32 (t.countedAs component (formerFlag s) false) = s.recoveredCount

variable {s : MemoryManager} {t t' : Transfer}

theorem inv_start (hkeyed : Keyed component s) (components : List Int) :
    Inv component s (start s components) where
  keyed := hkeyed
  records path := by simp [start, outstandingOf, outstanding]
  present := by simp [start, outstanding]
  placed := by simp [start]
  emptied := by simp [start]
  flags _ _ h := h
  reverting := by simp [start]
  count := by simp [start, countedAs, outstanding]
  recoveredCount := by simp [start, countedAs, outstanding]

theorem Inv.restored (h : Inv component s t) (hdone : t.toRevert = some []) :
    Restored component s t.memory where
  pending path := by simpa [outstandingOf, outstanding, hdone] using h.records path
  count := by simpa [countedAs, outstanding, hdone] using h.count
  recoveredCount := by simpa [countedAs, outstanding, hdone] using h.recoveredCount
  flags := h.flags

/-! ### One step -/

theorem mem_extractComponent (hkeyed : Keyed component t.memory) {c : Int}
    {records : List TransferObjectRecord} {flushed : List String} {m : MemoryManager}
    (h : t.memory.extractComponent false c = some (records, flushed, m))
    {transfer : TransferObjectRecord} (hin : transfer ∈ records) :
    component transfer.final.path = c ∧
      pending component t.memory transfer.final.path ≠ [] := by
  obtain ⟨containers, owned, hmap, rfl, -⟩ := extractComponent_eq_some h
  obtain ⟨⟨path, e⟩, he, hr⟩ := List.mem_flatMap.mp hin
  obtain ⟨r, hlisted, rfl⟩ := List.mem_map.mp hr
  have he := TreeMap.mem_toList_iff_getElem?_eq_some.mp he
  have hc : component path = c := hkeyed c containers owned hmap path e he
  refine ⟨hc, ?_⟩
  rw [pending, show (transferred false path r).final.path = path from rfl,
    find_of_getElem? (hc ▸ hmap), he]
  exact List.ne_nil_of_mem hlisted

theorem outstanding_extract {c : Int} {records : List TransferObjectRecord}
    (hempty : ∀ e ∈ t.extracted, e.1 = c → records = []) :
    (t.insertExtracted c records).flatMap (·.2) = t.extracted.flatMap (·.2) ++ records := by
  unfold insertExtracted
  split
  next hany =>
    obtain ⟨e, he, hc⟩ := List.any_eq_true.mp hany
    simp [hempty e he (of_decide_eq_true hc)]
  next => simp

/-- The records of the next component go from the memory to the outstanding ones. -/
theorem Inv.extract (h : Inv component s t) (hphase : t.toRevert = none) {c : Int} {cs : List Int}
    {records : List TransferObjectRecord} {flushed : List String} {m : MemoryManager}
    (hextract : t.memory.extractComponent false c = some (records, flushed, m)) :
    Inv component s ⟨m, cs, flushed, t.insertExtracted c records, none⟩ := by
  have hplaced : ∀ transfer ∈ records, component transfer.final.path = c ∧
      pending component t.memory transfer.final.path ≠ [] := fun _ hin =>
    mem_extractComponent h.keyed hextract hin
  have hempty : ∀ e ∈ t.extracted, e.1 = c → records = [] := by
    intro e he hc
    refine List.eq_nil_iff_forall_not_mem.mpr fun transfer hin => ?_
    obtain ⟨hcomponent, hpending⟩ := hplaced transfer hin
    exact hpending (h.emptied hphase e he _ (hcomponent.trans hc.symm))
  have hfind : ∀ q, find component m q =
      if component q = c then (find component t.memory q).map (·.getUnscheduledRecords)
      else find component t.memory q := find_extractComponent hextract
  have hout : t.outstanding = t.extracted.flatMap (·.2) := by
    unfold outstanding
    rw [hphase]
  have hout' : outstanding ⟨m, cs, flushed, t.insertExtracted c records, none⟩ =
      t.outstanding ++ records := by
    rw [hout]
    exact outstanding_extract hempty
  have hpending : ∀ path, pending component m path =
      if component path = c then [] else pending component t.memory path := by
    intro path
    rw [pending, hfind]
    split
    · cases find component t.memory path <;> rfl
    · rfl
  have hmem : ∀ e ∈ t.insertExtracted c records, e ∈ t.extracted ∨ e = (c, records) := by
    intro e he
    unfold insertExtracted at he
    split at he
    · exact .inl he
    · simpa using he
  obtain ⟨containers, owned, hmap, -, hm⟩ := extractComponent_eq_some hextract
  have hflag : formerFlag s c = owned := by
    rw [formerFlag, h.flags c owned (by simp [flagOf, hmap]), Option.getD_some]
  have hcounted : ∀ memoryFlag : Bool,
      countedAs component (formerFlag s) ⟨m, cs, flushed, t.insertExtracted c records, none⟩
        memoryFlag = t.countedAs component (formerFlag s) memoryFlag +
          if owned = memoryFlag then records.length else 0 := by
    intro memoryFlag
    rw [countedAs, countedAs, hout', List.countP_append]
    congr 1
    split <;> rename_i howned
    · exact List.countP_eq_length.mpr fun transfer hin => by
        simp [(hplaced transfer hin).1, hflag, howned]
    · exact List.countP_eq_zero.mpr fun transfer hin => by
        simp [(hplaced transfer hin).1, hflag, howned]
  refine ⟨h.keyed.extractComponent hextract, fun path => ?_, fun transfer hin => ?_,
    fun e he transfer hin => ?_, fun _ e he path hc => ?_, fun a b hab => ?_, by simp, ?_, ?_⟩
  · have hold := h.records path
    rw [outstandingOf, hout', List.filter_append, List.map_append, hpending]
    by_cases hc : component path = c
    · have htaken : (records.filter (·.final.path = path)).map (fun transfer =>
          (transfer.offset, transfer.final.record)) = pending component t.memory path := by
        rw [filter_extractComponent hextract hc, List.map_map]
        exact List.map_id'' (fun _ => rfl) _
      rw [if_pos hc, List.nil_append, htaken, ← hold]
      by_cases hne : pending component t.memory path = []
      · rw [hne, List.append_nil, List.nil_append, outstandingOf]
      · have hnone : t.outstanding.filter (·.final.path = path) = [] :=
          List.filter_eq_nil_iff.mpr fun transfer hin hpath => by
            rw [hout] at hin
            obtain ⟨e, he, hin⟩ := List.mem_flatMap.mp hin
            have hcomponent := h.placed e he transfer hin
            rw [of_decide_eq_true hpath] at hcomponent
            exact hne (h.emptied hphase e he path hcomponent)
        rw [outstandingOf, hnone, List.map_nil, List.nil_append, List.append_nil]
    · have hnone : records.filter (·.final.path = path) = [] :=
        List.filter_eq_nil_iff.mpr fun transfer hin => by
          have hcomponent := (hplaced transfer hin).1
          simpa using fun hpath : transfer.final.path = path => hc (hpath ▸ hcomponent)
      rw [if_neg hc, hnone, List.map_nil, List.append_nil]
      exact hold
  · rw [hout', List.mem_append] at hin
    rw [hfind]
    have hpresent : (find component t.memory transfer.final.path).isSome := by
      rcases hin with hin | hin
      · exact h.present transfer hin
      · have hne := (hplaced transfer hin).2
        cases hf : find component t.memory transfer.final.path with
        | none => simp [pending, hf] at hne
        | some e => rfl
    split
    · simpa using hpresent
    · exact hpresent
  · rcases hmem e he with hold | rfl
    · exact h.placed e hold transfer hin
    · exact (hplaced transfer hin).1
  · rw [hpending]
    split
    · rfl
    · rcases hmem e he with hold | rfl
      · exact h.emptied hphase e hold path hc
      · contradiction
  · exact h.flags a b (by rwa [flagOf_extractComponent hextract] at hab)
  · rw [hcounted, hm, countDown_count, ← h.count]
    cases owned with
    | true =>
        rw [if_pos rfl, if_pos rfl, BitVec.ofNat_add]
        abel
    | false => simp
  · rw [hcounted, hm, countDown_recoveredCount, ← h.recoveredCount]
    cases owned with
    | true => simp
    | false =>
        simp only [Bool.false_eq_true, if_false, if_true, BitVec.ofNat_add]
        abel

/-- The end of a flush that leaves the entry of every container with outstanding records. -/
theorem Inv.release (h : Inv component s t) {path : String} {garbage : JournalOffset}
    (hundisturbed : t.Undisturbed component (.release path garbage)) :
    Inv component s
      { t with memory := releaseFlushRecords component t.memory path garbage } := by
  obtain ⟨hcount, hrecovered⟩ :
      (releaseFlushRecords component t.memory path garbage).count = t.memory.count ∧
        (releaseFlushRecords component t.memory path garbage).recoveredCount =
          t.memory.recoveredCount := releaseFlushRecords_count path garbage
  refine ⟨h.keyed.releaseFlushRecords path garbage, fun q => ?_, fun transfer hin => ?_, h.placed,
    fun hphase e he q hc => ?_, fun c b hcb => h.flags c b (flagOf_releaseFlushRecords hcb),
    h.reverting, ?_, ?_⟩
  · rw [pending_releaseFlushRecords]
    exact h.records q
  · rw [find_releaseFlushRecords]
    split
    · next hq =>
        have hne := hundisturbed ⟨transfer, hin, hq⟩
        cases hfind : find component t.memory path with
        | none => simp [pending, hfind] at hne
        | some e =>
            have hlist : e.recordList ≠ [] := by simpa [pending, hfind] using hne
            simp [hlist]
    · exact h.present transfer hin
  · rw [pending_releaseFlushRecords]
    exact h.emptied hphase e he q hc
  · rw [hcount]
    exact h.count
  · rw [hrecovered]
    exact h.recoveredCount

/-- The extraction returns what was outstanding, each record with the flag of its component. -/
theorem Inv.handBack (h : Inv component s t) (hphase : t.toRevert = none) :
    Inv component s { t with
      waiting := []
      toRevert := some (t.extracted.flatMap fun e => e.2.map (·, formerFlag s e.1)) } := by
  have hout : outstanding { t with
      waiting := []
      toRevert := some (t.extracted.flatMap fun e => e.2.map (·, formerFlag s e.1)) } =
        t.outstanding := by
    simp [outstanding, hphase, List.map_flatMap, Function.comp_def]
  refine ⟨h.keyed, fun path => ?_, fun transfer hin => ?_, h.placed, by simp, h.flags,
    fun l hl e he => ?_, ?_, ?_⟩
  · rw [outstandingOf, hout]
    exact h.records path
  · exact h.present transfer (hout ▸ hin)
  · cases hl
    obtain ⟨e', he', he⟩ := List.mem_flatMap.mp he
    obtain ⟨transfer, hin, rfl⟩ := List.mem_map.mp he
    rw [h.placed e' he' transfer hin]
  · rw [countedAs, hout]
    exact h.count
  · rw [countedAs, hout]
    exact h.recoveredCount

theorem Inv.revert (h : Inv component s t) {transfer : TransferObjectRecord} {memoryFlag : Bool}
    {rest : List (TransferObjectRecord × Bool)}
    (hrest : t.toRevert = some ((transfer, memoryFlag) :: rest)) :
    Inv component s { t with
      memory := revertBackContData component t.memory transfer memoryFlag
      toRevert := some rest } := by
  have hflag : memoryFlag = formerFlag s (component transfer.final.path) :=
    h.reverting _ hrest (transfer, memoryFlag) List.mem_cons_self
  have hout : t.outstanding = transfer :: rest.map (·.1) := by simp [outstanding, hrest]
  have hpresent := h.present transfer (by simp [hout])
  obtain ⟨e, hfind⟩ := Option.isSome_iff_exists.mp hpresent
  obtain ⟨containers, owned, hmap, -⟩ := find_eq_some hfind
  obtain ⟨hcount, hrecovered⟩ :
      (revertBackContData component t.memory transfer memoryFlag).count =
          (if memoryFlag then t.memory.count + 1 else t.memory.count) ∧
        (revertBackContData component t.memory transfer memoryFlag).recoveredCount =
          if memoryFlag then t.memory.recoveredCount else t.memory.recoveredCount + 1 :=
    revertBackContData_count memoryFlag (by simp [hmap])
  have hfindAll : ∀ q,
    find component (revertBackContData component t.memory transfer memoryFlag) q =
      if q = transfer.final.path then
        (find component t.memory q).map (·.revertRecord transfer.final.record transfer.offset)
      else find component t.memory q := find_revertBackContData transfer memoryFlag
  have hcounted : ∀ b : Bool, t.countedAs component (formerFlag s) b =
      (rest.map (·.1)).countP (fun transfer => formerFlag s (component transfer.final.path) = b) +
        if memoryFlag = b then 1 else 0 := by
    intro b
    rw [countedAs, hout, List.countP_cons, ← hflag]
    simp
  refine ⟨h.keyed.revertBackContData transfer memoryFlag, fun path => ?_, fun other hin => ?_,
    h.placed, by simp, fun c b hcb => ?_, fun l hl e he => ?_, ?_, ?_⟩
  · have hold := h.records path
    rw [outstandingOf, hout] at hold
    rw [pending, hfindAll]
    by_cases hpath : path = transfer.final.path
    · rw [if_pos hpath, hpath, hfind]
      rw [hpath, pending, hfind] at hold
      simpa [outstandingOf, outstanding, SecureObjectRecord.revertRecord] using hold
    · rw [if_neg hpath]
      have hother : transfer.final.path ≠ path := fun h => hpath h.symm
      simpa [outstandingOf, outstanding, hother, pending] using hold
  · have hsome := h.present other (by rw [hout]; exact List.mem_cons_of_mem _ hin)
    rw [hfindAll]
    split
    · simpa using hsome
    · exact hsome
  · obtain ⟨b', hb', rfl⟩ := flagOf_revertBackContData hcb
    have hold := h.flags c b' hb'
    split
    · next hc => rw [hflag, hc, formerFlag, hold, Option.getD_some]
    · exact hold
  · cases hl
    exact h.reverting _ hrest e (List.mem_cons_of_mem _ he)
  · rw [hcount, ← h.count, hcounted true]
    cases memoryFlag with
    | true =>
        rw [if_pos rfl, if_pos rfl, BitVec.ofNat_add, BitVec.add_assoc,
          BitVec.add_comm (BitVec.ofNat 32 _)]
        rfl
    | false => simp [countedAs, outstanding]
  · rw [hrecovered, ← h.recoveredCount, hcounted false]
    cases memoryFlag with
    | true => simp [countedAs, outstanding]
    | false =>
        rw [if_neg Bool.false_ne_true, if_pos rfl, BitVec.ofNat_add, BitVec.add_assoc,
          BitVec.add_comm (BitVec.ofNat 32 _)]
        rfl

theorem Inv.step (h : Inv component s t) {a : TransferStep}
    (hundisturbed : t.Undisturbed component a)
    (hstep : Transfer.step component (formerFlag s) t a = some t') : Inv component s t' := by
  cases a with
  | extract =>
      simp only [Transfer.step] at hstep
      split at hstep
      next c cs hphase _ =>
        split at hstep
        · split at hstep
          next =>
            cases hstep
            exact ⟨h.keyed, h.records, h.present, h.placed, h.emptied, h.flags, h.reverting,
              h.count, h.recoveredCount⟩
          next records flushed m hextract =>
            cases hstep
            exact h.extract hphase hextract
        · contradiction
      next => contradiction
  | release path garbage =>
      obtain ⟨-, hsome⟩ := Option.ite_none_right_eq_some.mp hstep
      cases hsome
      exact h.release hundisturbed
  | handBack =>
      obtain ⟨⟨hphase, -⟩, hsome⟩ := Option.ite_none_right_eq_some.mp hstep
      cases hsome
      exact h.handBack (Option.isNone_iff_eq_none.mp hphase)
  | revert =>
      simp only [Transfer.step] at hstep
      split at hstep
      next transfer memoryFlag rest hrest =>
        cases hstep
        exact h.revert hrest
      next => contradiction

/-- No step brings back the entry of a container. -/
theorem find_step_eq_none {former : Int → Bool} {a : TransferStep} {path : String}
    (hnone : find component t.memory path = none)
    (hstep : Transfer.step component former t a = some t') :
    find component t'.memory path = none := by
  cases a with
  | extract =>
      simp only [Transfer.step] at hstep
      split at hstep
      next =>
        split at hstep
        · split at hstep
          next => cases hstep; exact hnone
          next records flushed m hextract =>
            cases hstep
            simp [find_extractComponent hextract, hnone]
        · contradiction
      next => contradiction
  | release q garbage =>
      obtain ⟨-, hsome⟩ := Option.ite_none_right_eq_some.mp hstep
      cases hsome
      rw [find_releaseFlushRecords]
      split
      · next hq => rw [← hq, hnone, Option.bind_none]
      · exact hnone
  | handBack =>
      obtain ⟨-, hsome⟩ := Option.ite_none_right_eq_some.mp hstep
      cases hsome
      exact hnone
  | revert =>
      simp only [Transfer.step] at hstep
      split at hstep
      next =>
        cases hstep
        simp [find_revertBackContData, hnone]
      next => contradiction

/-- The end of a flush of an emptied container erases its entry. -/
theorem Inv.lost (h : Inv component s t) {a : TransferStep}
    (hdisturbed : ¬ t.Undisturbed component a)
    (hstep : Transfer.step component (formerFlag s) t a = some t') :
    ∃ path, pending component s path ≠ [] ∧ find component t'.memory path = none := by
  cases a with
  | release path garbage =>
      obtain ⟨-, hsome⟩ := Option.ite_none_right_eq_some.mp hstep
      cases hsome
      simp only [Undisturbed, ne_eq, not_forall, Decidable.not_not] at hdisturbed
      obtain ⟨⟨transfer, hin, hpath⟩, hempty⟩ := hdisturbed
      refine ⟨path, ?_, ?_⟩
      · rw [← h.records path, hempty, List.nil_append, outstandingOf]
        have hfilter : transfer ∈ t.outstanding.filter (·.final.path = path) :=
          List.mem_filter.mpr ⟨hin, by simpa using hpath⟩
        simpa using List.ne_nil_of_mem hfilter
      · rw [find_releaseFlushRecords, if_pos rfl]
        cases hfind : find component t.memory path with
        | none => rfl
        | some e =>
            have hlist : e.recordList = [] := by simpa [pending, hfind] using hempty
            simp [hlist]
  | _ => exact absurd trivial hdisturbed

theorem find_run_eq_none {former : Int → Bool} {path : String} {steps : List TransferStep}
    (hnone : find component t.memory path = none)
    (hrun : run (Transfer.step component former) t steps = some t') :
    find component t'.memory path = none :=
  run_preserves _ (fun _ _ _ hnone hstep => find_step_eq_none hnone hstep) hnone hrun

theorem Inv.restored_iff (h : Inv component s t) {steps : List TransferStep}
    (hrun : run (Transfer.step component (formerFlag s)) t steps = some t')
    (hdone : t'.toRevert = some []) :
    Restored component s t'.memory ↔
      Along (Transfer.step component (formerFlag s)) (Undisturbed component) t steps := by
  induction steps generalizing t with
  | nil =>
      cases hrun
      exact ⟨fun _ => trivial, fun _ => h.restored hdone⟩
  | cons a steps ih =>
      obtain ⟨t₁, hstep, hrest⟩ := Option.bind_eq_some_iff.mp hrun
      by_cases hundisturbed : t.Undisturbed component a
      · rw [ih (h.step hundisturbed hstep) hrest]
        refine ⟨fun halong => ⟨hundisturbed, fun t₂ ht₂ => ?_⟩, fun halong => halong.2 t₁ hstep⟩
        cases hstep.symm.trans ht₂
        exact halong
      · obtain ⟨path, hpending, hnone⟩ := h.lost hundisturbed hstep
        refine ⟨fun hrestored => ?_, fun halong => absurd halong.1 hundisturbed⟩
        have hempty := hrestored.pending path
        rw [pending, find_run_eq_none hnone hrest] at hempty
        exact absurd hempty.symm hpending

end Transfer

/-- A transfer from a state that is reached puts everything back if and only if no flush of a
container ends between the extraction of the container's records and the return of the first of
them. -/
theorem extraction_undone_iff (component : String → Int) (getHash : String → String)
    {operations : List Operation} {s : MemoryManager}
    (hreach : run (MemoryManager.step component getHash) init operations = some s)
    (components : List Int) {steps : List TransferStep} {t : Transfer}
    (hrun : run (Transfer.step component (Transfer.formerFlag s)) (.start s components) steps =
      some t)
    (hdone : t.toRevert = some []) :
    Transfer.Restored component s t.memory ↔
      Along (Transfer.step component (Transfer.formerFlag s)) (Transfer.Undisturbed component)
        (.start s components) steps :=
  (Transfer.inv_start (run_preserves _ (fun _ _ _ h hstep => h.step hstep) keyed_init hreach)
    components).restored_iff hrun hdone

def pendingAndFlushed : List Operation :=
  [.addEntries [(true, [⟨"a/b", ⟨"o", 1, 0, objectAdd⟩⟩])] (toLex (1, 0)) (toLex (1, 50)),
    .addEntries [(true, [⟨"a/c", ⟨"o", 1, 0, objectAdd⟩⟩])] (toLex (1, 50)) (toLex (1, 90)),
    .getFlushRecords "a/c" false false]

def transferSteps : List TransferStep :=
  [.extract, .release "a/c" (toLex (0, 0)), .handBack, .revert]

/-- A flush of another container of the component ends while the extraction waits for it. -/
theorem extraction_undone_waiting :
    let component := fun _ => 5
    ∃ s t, run (MemoryManager.step component id) init pendingAndFlushed = some s ∧
      run (Transfer.step component (Transfer.formerFlag s)) (.start s [5]) transferSteps = some t ∧
      t.toRevert = some [] ∧ Transfer.Restored component s t.memory := by
  intro component
  obtain ⟨s, hs⟩ : ∃ s, run (MemoryManager.step component id) init pendingAndFlushed = some s :=
    ⟨_, rfl⟩
  obtain ⟨t, ht⟩ : ∃ t, run (Transfer.step component (Transfer.formerFlag s)) (.start s [5])
      transferSteps = some t := by
    cases hs
    exact ⟨_, rfl⟩
  have hdone : t.toRevert = some [] := by
    cases hs
    cases ht
    rfl
  refine ⟨s, t, hs, ht, hdone, (extraction_undone_iff component id hs [5] ht hdone).mpr ?_⟩
  refine ⟨trivial, fun t₁ ht₁ => ⟨?_, fun _ _ =>
    ⟨trivial, fun _ _ => ⟨trivial, fun _ _ => trivial⟩⟩⟩⟩
  cases hs
  cases ht₁
  refine fun hout => absurd hout ?_
  decide

/-- The flush of a container that has got another record since ends while the extraction waits for
it: the record is lost, and the counter stays short of it. -/
theorem extraction_undo_loses :
    let component := fun _ => 5
    let entry (name : String) : List (Bool × List FinalObjectRecord) :=
      [(true, [⟨"a/b", ⟨name, 1, 0, objectAdd⟩⟩])]
    ∃ s t, run (MemoryManager.step component id) init
        [.addEntries (entry "o") (toLex (1, 0)) (toLex (1, 50)),
          .getFlushRecords "a/b" false false,
          .addEntries (entry "p") (toLex (1, 50)) (toLex (1, 90))] = some s ∧
      run (Transfer.step component (Transfer.formerFlag s)) (.start s [5])
        [.extract, .release "a/b" (toLex (0, 0)), .handBack, .revert] = some t ∧
      t.toRevert = some [] ∧ ¬ Transfer.Restored component s t.memory := by
  refine ⟨_, _, rfl, rfl, rfl, fun h => ?_⟩
  have hcount := h.count
  revert hcount
  decide

end ObjectStorage.Container.Statistics.Components
