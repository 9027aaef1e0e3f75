import ObjectStorage.Library.Transition
import ObjectStorage.Transaction.SnapshotRecovery

/-!
Clients update the lock table and push the records of these updates in two steps, so the journal may
have the records in another order than the table had the updates.
-/

namespace ObjectStorage.Transaction

open Std Library SharedExclusive Journal

/-- The lock table, the records whose push is still to come in the order of their updates, and the
journal queue. -/
structure ConcurrentImpl where
  memory : TransactionLockManager
  pending : List Record
  queue : List Record

/-- A client updates the lock table, or the client with the given pending record pushes it. -/
inductive ClientStep where
  | update (c : Call)
  | push (i : Nat)

def Record.isOpen : Record → Bool
  | .openRecord _ => true
  | _ => false

def Record.isClose : Record → Bool
  | .closeRecord _ _ => true
  | _ => false

theorem Reports.close_mem {records : List Record} {es : List (Event Int String)}
    (h : List.Forall₂ Reports records es) {t : Int} {l : Lock String}
    (hin : .released t l ∈ es) : .closeRecord t l.name ∈ records := by
  induction h with
  | nil => simp at hin
  | cons hr _ ih =>
      rcases List.mem_cons.mp hin with rfl | hin
      · cases hr
        exact List.mem_cons_self
      · exact List.mem_cons_of_mem _ (ih hin)

theorem Reports.count {records : List Record} {es : List (Event Int String)}
    (h : List.Forall₂ Reports records es) :
    records.countP Record.isOpen = (acquiredIds es).length ∧
      records.countP Record.isClose = releases es := by
  induction h with
  | nil => exact ⟨rfl, rfl⟩
  | cons hr _ ih =>
      cases hr with
      | opened => simpa [List.countP_cons, acquiredIds, releases, Record.isOpen, Record.isClose]
          using ih
      | closed => simpa [List.countP_cons, acquiredIds, releases, Record.isOpen, Record.isClose]
          using ih

namespace ConcurrentImpl

open TransactionLockManager
open TransactionImpl (lockRequest)

def init (nodeId : Nat) : ConcurrentImpl := ⟨.init nodeId, [], []⟩

def step (osdConfig : Bool) (s : ConcurrentImpl) : ClientStep → Option ConcurrentImpl
  | .update c => (s.memory.call osdConfig c).map fun (record?, memory) =>
      { s with memory := memory, pending := s.pending ++ record?.toList }
  | .push i => s.pending[i]?.map fun record =>
      { s with pending := s.pending.eraseIdx i, queue := s.queue ++ [record] }

/-- When a record may go in front of the pending records of earlier updates: an open record if none
of these closes a lock that conflicts with it, and the queue does not fill the lock table; a close
record if none of them opens its lock. -/
def MayOvertake (queue front : List Record) : Record → Prop
  | .openRecord active =>
      queue.countP Record.isOpen ≤ capacity + queue.countP Record.isClose ∧
      ∀ record, .openRecord record ∈ queue ++ front →
        .closeRecord record.transactionId record.objectName ∈ front →
        ¬ (record.objectName = active.objectName ∧
          (record.operation = LockType.write.code ∨ active.operation = LockType.write.code))
  | .closeRecord transactionId _ =>
      ∀ record, .openRecord record ∈ front → record.transactionId ≠ transactionId
  | _ => False

def PushSafe (s : ConcurrentImpl) : ClientStep → Prop
  | .update _ => True
  | .push i => ∃ record, s.pending[i]? = some record ∧
      MayOvertake s.queue (s.pending.take i) record

variable {osdConfig : Bool} {s : ConcurrentImpl}

/-- The queue followed by the pending records is a history of the lock table. -/
structure Reordered (osdConfig : Bool) (s : ConcurrentImpl)
    (es queued pending : List (Event Int String)) : Prop where
  serves : Serves osdConfig s.memory es
  queue_reports : List.Forall₂ Reports s.queue queued
  pending_reports : List.Forall₂ Reports s.pending pending
  legal : Legal ∅ (queued ++ pending)
  same : after ∅ (queued ++ pending) = after ∅ es
  perm : (queued ++ pending).Perm es
  roomy : Replayed.Roomy capacity ∅ queued

theorem acquiredIds_perm {es es' : List (Event Int String)} (h : es.Perm es') :
    (acquiredIds es).Perm (acquiredIds es') := by
  induction h with
  | nil => exact .refl _
  | cons e _ ih => cases e <;> simp [acquiredIds, ih]
  | swap e e' es => cases e <;> cases e' <;> simp [acquiredIds, List.Perm.swap]
  | trans _ _ ih ih' => exact ih.trans ih'

theorem Reordered.nodup {es queued pending : List (Event Int String)}
    (h : Reordered osdConfig s es queued pending) : (acquiredIds (queued ++ pending)).Nodup :=
  (acquiredIds_perm h.perm).nodup_iff.mpr h.serves.nodup

theorem Reordered.update {es queued pending : List (Event Int String)}
    (h : Reordered osdConfig s es queued pending) (c : Call) :
    ∃ s' e?, s.step osdConfig (.update c) = some s' ∧
      Reordered osdConfig s' (es ++ Option.toList e?) queued (pending ++ e?.toList) := by
  obtain ⟨record?, e?, memory, hcall, hreport, -, hserves⟩ := h.serves.call c
  have hnew := ((legal_append ∅ es e?.toList).mp hserves.legal).2
  refine ⟨{ s with memory := memory, pending := s.pending ++ record?.toList }, e?, ?_, hserves,
    h.queue_reports, List.rel_append h.pending_reports (forall₂_toList hreport), ?_, ?_, ?_,
    h.roomy⟩
  · simp [step, hcall]
  · rw [← List.append_assoc, legal_append]
    exact ⟨h.legal, h.same ▸ hnew⟩
  · rw [← List.append_assoc, after_append, h.same, after_append]
  · rw [← List.append_assoc]
    exact h.perm.append_right _

/-- The events of a record that may overtake are independent of those in front of it. -/
theorem Reordered.independent {es queued front back : List (Event Int String)}
    {e : Event Int String} {frontRecords : List Record} {record : Record}
    (h : Reordered osdConfig s es queued (front ++ e :: back))
    (hfront : List.Forall₂ Reports frontRecords front) (hr : Reports record e)
    (hsafe : MayOvertake s.queue frontRecords record) : ∀ a ∈ front, Independent a e := by
  intro a ha
  have hlegal := h.legal
  have hnodup := h.nodup
  rw [← List.append_assoc] at hlegal hnodup
  cases hr with
  | @opened active l hl =>
      cases a with
      | acquired t k => trivial
      | released t k =>
          refine ⟨released_ne_acquired hlegal hnodup (List.mem_append_right _ ha), fun hconf => ?_⟩
          obtain ⟨before, after', hsplit⟩ := List.append_of_mem ha
          have hheld : (after ∅ (queued ++ before)).lookup t = some k := by
            have hprefix := ((legal_append ∅ _ _).mp hlegal).1
            rw [hsplit, ← List.append_assoc, legal_append] at hprefix
            exact hprefix.2.1
          have hopen : .acquired t k ∈ queued ++ front := by
            rcases lookup_after hheld with hnone | hin
            · simp at hnone
            · rw [hsplit, ← List.append_assoc]
              exact List.mem_append_left _ hin
          obtain ⟨opener, hopener, rfl, hstands⟩ := (Reports.exists_open
            (List.rel_append h.queue_reports hfront)).mp hopen
          have hclose := Reports.close_mem hfront ha
          rw [← hstands.1] at hclose
          refine hsafe.2 opener hopener hclose ⟨?_, ?_⟩
          · rw [hstands.1, hl.1]
            exact hconf.1
          · exact hconf.2.imp (fun hm => by rw [hstands.2, hm]; rfl)
              fun hm => by rw [hl.2, hm]; rfl
  | closed t l =>
      cases a with
      | released t' k => trivial
      | acquired t' k =>
          obtain ⟨opener, hopener, rfl, -⟩ := (Reports.exists_open hfront).mp ha
          exact hsafe opener hopener

theorem Reordered.push {es queued pending : List (Event Int String)}
    (h : Reordered osdConfig s es queued pending) {i : Nat} (hsafe : PushSafe s (.push i)) :
    ∃ s' queued' pending', s.step osdConfig (.push i) = some s' ∧
      Reordered osdConfig s' es queued' pending' := by
  obtain ⟨record, hrecord, hsafe⟩ := hsafe
  obtain ⟨hi, heq⟩ := List.getElem?_eq_some_iff.mp hrecord
  have hfront := List.forall₂_take i h.pending_reports
  have hdrop := List.forall₂_drop i h.pending_reports
  rw [← List.getElem_cons_drop hi, heq] at hdrop
  have hpending := (List.take_append_drop i pending).symm
  generalize pending.take i = front at hfront hpending
  generalize pending.drop i = rest at hdrop hpending
  cases hdrop with
  | @cons _ e _ back hr hback =>
      subst hpending
      have hlegal := (legal_append ∅ queued _).mp h.legal
      obtain ⟨hmoved, hafter⟩ := legal_move_front hlegal.2 (h.independent hfront hr hsafe)
      refine ⟨{ s with pending := s.pending.eraseIdx i, queue := s.queue ++ [record] },
        queued ++ [e], front ++ back, by rw [step, hrecord]; rfl, h.serves,
        List.rel_append h.queue_reports (.cons hr .nil), ?_, ?_, ?_, ?_, ?_⟩
      · rw [List.eraseIdx_eq_take_drop_succ]
        exact List.rel_append hfront hback
      · rw [List.append_assoc, legal_append]
        exact ⟨hlegal.1, hmoved⟩
      · rw [← h.same, List.append_assoc, after_append ∅ queued (front ++ e :: back), ← hafter]
        exact after_append ∅ queued _
      · rw [List.append_assoc]
        have hmiddle : (e :: (front ++ back)).Perm (front ++ e :: back) := List.perm_middle.symm
        exact (hmiddle.append_left queued).trans h.perm
      · rw [Replayed.roomy_append]
        refine ⟨h.roomy, ?_⟩
        cases hr with
        | opened hl =>
            obtain ⟨hopens, hcloses⟩ := Reports.count h.queue_reports
            have hcount := card_after_add_releases hlegal.1
            have hroom := hsafe.1
            rw [Finmap.keys_empty, Finset.card_empty] at hcount
            exact ⟨by omega, trivial⟩
        | closed => trivial

/-- In every run whose pushes are safe, the queue replays to the locks held once all calls have
finished. -/
theorem safeRun_replays_live_locks (osdConfig : Bool) (nodeId nodeId' fileId : Nat)
    (serializedSize : Record → Nat) (steps : List ClientStep)
    (hsteps : Along (step osdConfig) PushSafe (init nodeId) steps) :
    ∃ s, run (step osdConfig) (init nodeId) steps = some s ∧ (s.pending = [] →
      ∃ h, (TransactionReadHandler.init nodeId' fileId).recoverRecords osdConfig
        (layOut serializedSize fileId 0 s.queue) = some h ∧ SameLocks h.memory s.memory) := by
  have hinit : ∃ es queued pending, Reordered osdConfig (init nodeId) es queued pending :=
    ⟨[], [], [], serves_init nodeId, .nil, .nil, trivial, rfl, .refl _, trivial⟩
  have hstep : ∀ s a, (∃ es queued pending, Reordered osdConfig s es queued pending) →
      PushSafe s a → ∃ s', step osdConfig s a = some s' ∧
        ∃ es queued pending, Reordered osdConfig s' es queued pending := by
    rintro s a ⟨es, queued, pending, hs⟩ hsafe
    cases a with
    | update c =>
        obtain ⟨s', e?, hstep, hs'⟩ := hs.update c
        exact ⟨s', hstep, _, _, _, hs'⟩
    | push i =>
        obtain ⟨s', queued', pending', hstep, hs'⟩ := hs.push hsafe
        exact ⟨s', hstep, _, _, _, hs'⟩
  obtain ⟨s, hrun, es, queued, pending, hs⟩ := run_invariant (step osdConfig) hstep hinit hsteps
  refine ⟨s, hrun, fun hdone => ?_⟩
  have hpending := hs.pending_reports
  rw [hdone, List.forall₂_nil_left_iff] at hpending
  subst hpending
  have hids : ∀ t ∈ acquiredIds queued, t ≠ 0 := by
    intro t ht
    have hin := (acquiredIds_perm hs.perm).mem_iff.mp (by simpa using ht)
    exact (hs.serves.ids t hin).1.ne'
  have hlegal := hs.legal
  have hnodup := hs.nodup
  have hsame := hs.same
  rw [List.append_nil] at hlegal hnodup hsame
  obtain ⟨h, hrecover, hrep, -⟩ := TransactionReadHandler.recoverRecords_represents
    (h := .init nodeId' fileId) (represents_init nodeId')
    (by rw [layOut_record]; exact hs.queue_reports)
    (not_before_start serializedSize fileId 0 s.queue) hnodup hids (fun t l hin => hin)
    (fun t l hentry => by rcases hentry with hl | hl <;> simp [Replayed.start] at hl)
  rw [Replayed.replay_legal hlegal hs.roomy, hsame] at hrep
  exact ⟨h, hrecover, hrep.sameLocks hs.serves.represents fun t l hl => by simp at hl⟩

/-- A client has released its lock when another one locks another object, whose record gets in front
of the record of the release. -/
theorem safeRun_replays_live_locks_two_clients : ∃ s h,
    run (step false) (init 1) [.update (.addTransaction (lockRequest .write) 7), .push 0,
      .update (.releaseLock (getUniqueId 1 0 + 1)),
      .update (.addTransaction (.ofLockType "1a/c" "HEAD" LockType.write.code "server") 8),
      .push 1, .push 0] = some s ∧
    s.memory.ListsLock (getUniqueId 1 0 + 2) "1a/c" LockType.write.code ∧
    (TransactionReadHandler.init 1 3).recoverRecords false (layOut (fun _ => 200) 3 0 s.queue) =
      some h ∧ SameLocks h.memory s.memory := by
  have hsafe : Along (step false) PushSafe (init 1)
      [.update (.addTransaction (lockRequest .write) 7), .push 0,
        .update (.releaseLock (getUniqueId 1 0 + 1)),
        .update (.addTransaction (.ofLockType "1a/c" "HEAD" LockType.write.code "server") 8),
        .push 1, .push 0] := by
    refine ⟨trivial, fun s hs => ?_⟩
    obtain rfl := Option.some.inj hs
    refine ⟨⟨_, rfl, by decide, fun record _ hin => by simp at hin⟩, fun s hs => ?_⟩
    obtain rfl := Option.some.inj hs
    refine ⟨trivial, fun s hs => ?_⟩
    obtain rfl := Option.some.inj hs
    refine ⟨trivial, fun s hs => ?_⟩
    obtain rfl := Option.some.inj hs
    refine ⟨⟨_, rfl, by decide, fun record hopen _ hconf => ?_⟩, fun s hs => ?_⟩
    · -- the one lock that was opened is of the other object
      obtain rfl : record = _ := Record.openRecord.inj (List.mem_singleton.mp
        ((List.mem_append.mp hopen).resolve_right fun hin => by
          cases List.mem_singleton.mp hin))
      exact absurd hconf.1 (by decide)
    · obtain rfl := Option.some.inj hs
      exact ⟨⟨_, rfl, fun record hin => by simp at hin⟩, fun _ _ => trivial⟩
  obtain ⟨s, hrun, hdone⟩ := safeRun_replays_live_locks false 1 1 3 (fun _ => 200) _ hsafe
  obtain rfl := Option.some.inj hrun
  obtain ⟨h, hh, hsame⟩ := hdone rfl
  exact ⟨_, h, rfl, by unfold ListsLock; decide, hh, hsame⟩

/-- Between a release and the push of its record another client locks the name and pushes first. The
replay turns this lock down, as the name is still locked by the record to come. -/
theorem overtaken_release_loses_lock : ∃ s h,
    run (step false) (init 1) [.update (.addTransaction (lockRequest .write) 7), .push 0,
      .update (.releaseLock (getUniqueId 1 0 + 1)),
      .update (.addTransaction (lockRequest .write) 8), .push 1, .push 0] = some s ∧
    s.pending = [] ∧
    (TransactionReadHandler.init 1 3).recoverRecords false (layOut (fun _ => 200) 3 0 s.queue) =
      some h ∧ ¬ SameLocks h.memory s.memory := by
  have hlost : ∃ s h,
      run (step false) (init 1) [.update (.addTransaction (lockRequest .write) 7), .push 0,
        .update (.releaseLock (getUniqueId 1 0 + 1)),
        .update (.addTransaction (lockRequest .write) 8), .push 1, .push 0] = some s ∧
      s.pending = [] ∧
      (TransactionReadHandler.init 1 3).recoverRecords false
        (layOut (fun _ => 200) 3 0 s.queue) = some h ∧
      s.memory.ListsLock (getUniqueId 1 0 + 2) "1a/b" LockType.write.code ∧
      ¬ h.memory.ListsLock (getUniqueId 1 0 + 2) "1a/b" LockType.write.code :=
    ⟨_, _, rfl, rfl, rfl, by unfold ListsLock; decide, by unfold ListsLock; decide⟩
  obtain ⟨s, h, hrun, hdone, hh, hlive, hnot⟩ := hlost
  exact ⟨s, h, hrun, hdone, hh, fun hsame => hnot ((hsame.lists _ _ _).mpr hlive)⟩

end ConcurrentImpl

end ObjectStorage.Transaction
