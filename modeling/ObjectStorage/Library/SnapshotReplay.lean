import ObjectStorage.Library.SharedExclusive

/-!
Replay of lock histories into a table that lists locks by name. A lock that is acquired again under
its own id is not stored twice, but a shared one leaves a second entry in the list of its name, and
no release takes that entry away. The table also turns acquisitions down when it holds more than
`limit` locks.
-/

namespace ObjectStorage.Library.SharedExclusive

open Finmap

variable {ι ν : Type} [DecidableEq ι]

/-- The locks stored, and the ids with a second entry. -/
structure Replayed (ι ν : Type) where
  held : Table ι ν
  extra : Table ι ν

namespace Replayed

/-- The replay into an empty table starts here. -/
def start : Replayed ι ν := ⟨∅, ∅⟩

/-- The locks that the lists of names mention. -/
def Entry (R : Replayed ι ν) (t : ι) (l : Lock ν) : Prop :=
  R.held.lookup t = some l ∨ R.extra.lookup t = some l

def Blocked (R : Replayed ι ν) (l : Lock ν) : Prop :=
  ∃ t l', R.Entry t l' ∧ l'.Conflicts l

open Classical in
noncomputable def apply (limit : ℕ) (R : Replayed ι ν) : Event ι ν → Replayed ι ν
  | .acquired t l =>
      if limit < R.held.keys.card ∨ R.Blocked l then R
      else if t ∈ R.held then { R with extra := R.extra.insert t l }
      else { R with held := R.held.insert t l }
  | .released t _ => { R with held := R.held.erase t }

noncomputable def replay (limit : ℕ) (R : Replayed ι ν) (es : List (Event ι ν)) : Replayed ι ν :=
  es.foldl (apply limit) R

variable {limit : ℕ} {R : Replayed ι ν}

@[simp] theorem replay_nil (limit : ℕ) (R : Replayed ι ν) : R.replay limit [] = R := rfl

@[simp] theorem replay_cons (limit : ℕ) (R : Replayed ι ν) (e : Event ι ν)
    (es : List (Event ι ν)) : R.replay limit (e :: es) = (R.apply limit e).replay limit es := rfl

theorem replay_append (limit : ℕ) (R : Replayed ι ν) (es es' : List (Event ι ν)) :
    R.replay limit (es ++ es') = (R.replay limit es).replay limit es' := by
  simp [replay]

@[simp] theorem apply_released (t : ι) (l : Lock ν) :
    R.apply limit (.released t l) = { R with held := R.held.erase t } := rfl

/-- An acquisition is turned down, or it adds a second entry, or it adds a lock. -/
theorem apply_acquired_cases (limit : ℕ) (R : Replayed ι ν) (t : ι) (l : Lock ν) :
    R.apply limit (.acquired t l) = R ∨
      R.apply limit (.acquired t l) = { R with extra := R.extra.insert t l } ∨
      R.apply limit (.acquired t l) = { R with held := R.held.insert t l } := by
  by_cases hskip : limit < R.held.keys.card ∨ R.Blocked l
  · exact Or.inl (if_pos hskip)
  · right
    by_cases ht : t ∈ R.held
    · left
      simp [apply, hskip, ht]
    · right
      simp [apply, hskip, ht]

theorem apply_acquired_skipped {t : ι} {l : Lock ν}
    (h : limit < R.held.keys.card ∨ R.Blocked l) : R.apply limit (.acquired t l) = R :=
  if_pos h

theorem apply_acquired_again {t : ι} {l : Lock ν} (hroom : R.held.keys.card ≤ limit)
    (hfree : ¬ R.Blocked l) (ht : t ∈ R.held) :
    R.apply limit (.acquired t l) = { R with extra := R.extra.insert t l } := by
  have hgo : ¬(limit < R.held.keys.card ∨ R.Blocked l) := not_or.mpr ⟨by omega, hfree⟩
  simp [apply, hgo, ht]

theorem apply_acquired_new {t : ι} {l : Lock ν} (hroom : R.held.keys.card ≤ limit)
    (hfree : ¬ R.Blocked l) (ht : t ∉ R.held) :
    R.apply limit (.acquired t l) = { R with held := R.held.insert t l } := by
  have hgo : ¬(limit < R.held.keys.card ∨ R.Blocked l) := not_or.mpr ⟨by omega, hfree⟩
  simp [apply, hgo, ht]

theorem card_keys_insert_le (L : Table ι ν) (t : ι) (l : Lock ν) :
    (L.insert t l).keys.card ≤ L.keys.card + 1 := by
  have hsub : (L.insert t l).keys ⊆ Insert.insert t L.keys := by
    intro s hs
    rw [Finmap.mem_keys, Finmap.mem_insert] at hs
    rw [Finset.mem_insert, Finmap.mem_keys]
    exact hs
  exact (Finset.card_le_card hsub).trans (Finset.card_insert_le _ _)

theorem card_held_apply_le (limit : ℕ) (R : Replayed ι ν) (e : Event ι ν) :
    (R.apply limit e).held.keys.card ≤ R.held.keys.card + 1 := by
  cases e with
  | acquired t l =>
      rcases apply_acquired_cases limit R t l with h | h | h <;> rw [h]
      · exact Nat.le_succ _
      · exact Nat.le_succ _
      · exact card_keys_insert_le _ _ _
  | released t l =>
      rw [apply_released, Finmap.keys_erase]
      exact (Finset.card_erase_le).trans (Nat.le_succ _)

/-- No step forgets a second entry. -/
theorem extra_persists {t : ι} (h : t ∈ R.extra) (es : List (Event ι ν)) :
    t ∈ (R.replay limit es).extra := by
  induction es generalizing R with
  | nil => exact h
  | cons e es ih =>
      apply ih
      cases e with
      | acquired s k =>
          rcases apply_acquired_cases limit R s k with heq | heq | heq <;> rw [heq]
          · exact h
          · exact Finmap.mem_insert.mpr (Or.inr h)
          · exact h
      | released s k => exact h

/-- Entries that conflict are copies of one entry. -/
def Uniform (R : Replayed ι ν) : Prop :=
  ∀ t l t' l', R.Entry t l → R.Entry t' l' → (t = t' ∧ l = l') ∨ ¬ l.Conflicts l'

theorem uniform_start : (start : Replayed ι ν).Uniform := by
  rintro t l t' l' (h | h) <;> simp [start] at h

theorem Uniform.of_entries {R' : Replayed ι ν} (h : R.Uniform) {t : ι} {l : Lock ν}
    (hfree : ¬ R.Blocked l)
    (hentries : ∀ s k, R'.Entry s k → R.Entry s k ∨ (s = t ∧ k = l)) : R'.Uniform := by
  intro s k s' k' hs hs'
  rcases hentries s k hs with hold | ⟨rfl, rfl⟩
  · rcases hentries s' k' hs' with hold' | ⟨rfl, rfl⟩
    · exact h s k s' k' hold hold'
    · exact Or.inr fun hc => hfree ⟨s, k, hold, hc⟩
  · rcases hentries s' k' hs' with hold' | ⟨rfl, rfl⟩
    · exact Or.inr fun hc => hfree ⟨s', k', hold', hc.symm⟩
    · exact Or.inl ⟨rfl, rfl⟩

theorem entry_insert_held {t s : ι} {l k : Lock ν}
    (h : (⟨R.held.insert t l, R.extra⟩ : Replayed ι ν).Entry s k) :
    R.Entry s k ∨ (s = t ∧ k = l) := by
  rcases h with h | h
  · rw [lookup_insert_eq] at h
    by_cases hs : t = s
    · rw [if_pos hs] at h
      exact Or.inr ⟨hs.symm, (Option.some.inj h).symm⟩
    · exact Or.inl (Or.inl (by simpa [hs] using h))
  · exact Or.inl (Or.inr h)

theorem entry_insert_extra {t s : ι} {l k : Lock ν}
    (h : (⟨R.held, R.extra.insert t l⟩ : Replayed ι ν).Entry s k) :
    R.Entry s k ∨ (s = t ∧ k = l) := by
  rcases h with h | h
  · exact Or.inl (Or.inl h)
  · rw [lookup_insert_eq] at h
    by_cases hs : t = s
    · rw [if_pos hs] at h
      exact Or.inr ⟨hs.symm, (Option.some.inj h).symm⟩
    · exact Or.inl (Or.inr (by simpa [hs] using h))

theorem entry_erase_held {t s : ι} {k : Lock ν}
    (h : (⟨R.held.erase t, R.extra⟩ : Replayed ι ν).Entry s k) : R.Entry s k := by
  rcases h with h | h
  · rw [lookup_erase_eq] at h
    by_cases hs : t = s
    · simp [hs] at h
    · exact Or.inl (by simpa [hs] using h)
  · exact Or.inr h

theorem entry_apply {e : Event ι ν} {s : ι} {k : Lock ν} (h : (R.apply limit e).Entry s k) :
    R.Entry s k ∨ e = .acquired s k := by
  cases e with
  | acquired t l =>
      rcases apply_acquired_cases limit R t l with heq | heq | heq <;> rw [heq] at h
      · exact Or.inl h
      · exact (entry_insert_extra h).imp_right fun ⟨hs, hk⟩ => by rw [hs, hk]
      · exact (entry_insert_held h).imp_right fun ⟨hs, hk⟩ => by rw [hs, hk]
  | released t l => exact Or.inl (entry_erase_held h)

/-! ### Replaying a legal history from the start -/

/-- Every acquisition of the history meets a table with room. -/
def Roomy (limit : ℕ) (L : Table ι ν) : List (Event ι ν) → Prop
  | [] => True
  | .acquired t l :: es => L.keys.card ≤ limit ∧ Roomy limit (L.insert t l) es
  | .released t _ :: es => Roomy limit (L.erase t) es

theorem roomy_append (L : Table ι ν) (es es' : List (Event ι ν)) :
    Roomy limit L (es ++ es') ↔
      Roomy limit L es ∧ Roomy limit (SharedExclusive.after L es) es' := by
  induction es generalizing L with
  | nil => simp [Roomy]
  | cons e es ih => cases e <;> simp [Roomy, ih, SharedExclusive.apply, and_assoc]

theorem card_after_le {L : Table ι ν} {es : List (Event ι ν)} (hroom : Roomy limit L es)
    (hL : L.keys.card ≤ limit + 1) : (SharedExclusive.after L es).keys.card ≤ limit + 1 := by
  induction es generalizing L with
  | nil => exact hL
  | cons e es ih =>
      cases e with
      | acquired t l =>
          have hcard := card_keys_insert_le L t l
          have hle := hroom.1
          exact ih hroom.2 (hcard.trans (by omega))
      | released t l =>
          have hcard : (L.erase t).keys.card ≤ L.keys.card := by
            rw [Finmap.keys_erase]
            exact Finset.card_erase_le
          exact ih hroom (hcard.trans hL)

/-- Second entries of locks that stay held change nothing: the replay follows the history. -/
theorem replay_follows {es : List (Event ι ν)} (hlegal : Legal R.held es)
    (hroom : Roomy limit R.held es)
    (hbacked : ∀ t l, R.extra.lookup t = some l →
      R.held.lookup t = some l ∧ ∀ l', Event.released t l' ∉ es) :
    R.replay limit es = ⟨after R.held es, R.extra⟩ := by
  induction es generalizing R with
  | nil => rfl
  | cons e es ih =>
      obtain ⟨he, hrest⟩ := hlegal
      cases e with
      | acquired t l =>
          have hfree : ¬ R.Blocked l := by
            rintro ⟨s, k, hk | hk, hconf⟩
            · exact he.2 s k hk hconf
            · exact he.2 s k (hbacked s k hk).1 hconf
          have ht : t ∉ R.held := Finmap.lookup_eq_none.mp he.1
          rw [replay_cons, apply_acquired_new hroom.1 hfree ht]
          refine ih (R := ⟨R.held.insert t l, R.extra⟩) hrest hroom.2 fun s k hk => ?_
          obtain ⟨hs, hnot⟩ := hbacked s k hk
          have hne : t ≠ s := by
            rintro rfl
            simp [he.1] at hs
          exact ⟨by simpa [hne] using hs, fun l' hin => hnot l' (List.mem_cons_of_mem _ hin)⟩
      | released t l =>
          rw [replay_cons, apply_released]
          refine ih (R := ⟨R.held.erase t, R.extra⟩) hrest hroom fun s k hk => ?_
          obtain ⟨hs, hnot⟩ := hbacked s k hk
          have hne : t ≠ s := by
            rintro rfl
            exact hnot l List.mem_cons_self
          exact ⟨by simpa [hne] using hs, fun l' hin => hnot l' (List.mem_cons_of_mem _ hin)⟩

theorem replay_legal {es : List (Event ι ν)} (hlegal : Legal ∅ es) (hroom : Roomy limit ∅ es) :
    (start : Replayed ι ν).replay limit es = ⟨after ∅ es, ∅⟩ :=
  replay_follows hlegal hroom fun t l h => by simp [start] at h

/-- The event is taken as it is told: an acquisition finds room and no conflicting lock, or repeats
an exclusive lock, which the lock itself turns down. -/
def Takes (limit : ℕ) (L : Table ι ν) : Event ι ν → Prop
  | .acquired t l => L.keys.card ≤ limit ∧
      (Allowed L (.acquired t l) ∨ L.lookup t = some l ∧ l.mode = .exclusive)
  | .released _ _ => True

/-- Every event is taken as it is told. -/
def Replayable (limit : ℕ) (L : Table ι ν) : List (Event ι ν) → Prop
  | [] => True
  | e :: es => Takes limit L e ∧ Replayable limit (SharedExclusive.apply L e) es

theorem apply_takes {L : Table ι ν} {e : Event ι ν} (h : Takes limit L e) :
    (⟨L, ∅⟩ : Replayed ι ν).apply limit e = ⟨SharedExclusive.apply L e, ∅⟩ := by
  have hentry : ∀ {t l}, (⟨L, ∅⟩ : Replayed ι ν).Entry t l → L.lookup t = some l := by
    rintro t l (hl | hl)
    · exact hl
    · simp at hl
  cases e with
  | acquired t l =>
      obtain ⟨hroom, ⟨hnew, hfree⟩ | ⟨hheld, hmode⟩⟩ := h
      · refine apply_acquired_new hroom ?_ (Finmap.lookup_eq_none.mp hnew)
        rintro ⟨s, k, hk, hconf⟩
        exact hfree s k (hentry hk) hconf
      · have hblocked : (⟨L, ∅⟩ : Replayed ι ν).Blocked l :=
          ⟨t, l, .inl hheld, rfl, .inl hmode⟩
        have hsame : SharedExclusive.apply L (.acquired t l) = L := by
          apply Finmap.ext_lookup
          intro s
          rw [SharedExclusive.apply, lookup_insert_eq]
          split
          · rename_i hs
            rw [← hs, hheld]
          · rfl
        rw [apply_acquired_skipped (Or.inr hblocked), hsame]
  | released t l => rfl

theorem replay_replayable {L : Table ι ν} {es : List (Event ι ν)} (h : Replayable limit L es) :
    (⟨L, ∅⟩ : Replayed ι ν).replay limit es = ⟨after L es, ∅⟩ := by
  induction es generalizing L with
  | nil => rfl
  | cons e es ih =>
      rw [replay_cons, apply_takes h.1]
      exact ih h.2

/-! ### Replaying what a snapshot already covers -/

/-- Where the replay of the covered records stands: the locks of the snapshot are held, what else is
held is held at this point of the history, and second entries belong to shared locks of the
snapshot. -/
structure Covers (L₁ K : Table ι ν) (R : Replayed ι ν) : Prop where
  kept : ∀ t l, L₁.lookup t = some l → R.held.lookup t = some l
  held_of : ∀ t l, R.held.lookup t = some l →
    L₁.lookup t = some l ∨ (L₁.lookup t = none ∧ K.lookup t = some l)
  extra_of : ∀ t l, R.extra.lookup t = some l → L₁.lookup t = some l ∧ l.mode = .shared

theorem Covers.not_blocked {L₁ K : Table ι ν} (h : Covers L₁ K R) (hexcl : Exclusive L₁)
    {t : ι} {l : Lock ν} (hfree : Free K l) (ht : L₁.lookup t = some l) (hmode : l.mode = .shared) :
    ¬ R.Blocked l := by
  rintro ⟨s, k, hk, hconf⟩
  by_cases hs : s = t
  · subst hs
    have hkl : k = l := by
      rcases hk with hk | hk
      · exact Option.some.inj (hk.symm.trans (h.kept s l ht))
      · exact Option.some.inj ((h.extra_of s k hk).1.symm.trans ht)
    subst hkl
    rcases hconf.2 with hm | hm <;> simp [hmode] at hm
  · rcases hk with hk | hk
    · rcases h.held_of s k hk with hk | ⟨-, hk⟩
      · exact hexcl s k t l hk ht hs hconf
      · exact hfree s k hk hconf
    · exact hexcl s k t l (h.extra_of s k hk).1 ht hs hconf

/-- One covered record: a lock of the snapshot that is acquired again gets a second entry exactly
when it is shared and there is room. -/
theorem Covers.acquired (limit : ℕ) {L₁ K : Table ι ν} (h : Covers L₁ K R) (hexcl : Exclusive L₁)
    {t : ι} {l : Lock ν} (hnew : K.lookup t = none) (hfree : Free K l)
    (hsame : ∀ k, L₁.lookup t = some k → k = l) :
    Covers L₁ (K.insert t l) (R.apply limit (.acquired t l)) ∧
      (∀ s k, (R.apply limit (.acquired t l)).extra.lookup s = some k →
        R.extra.lookup s = some k ∨ (s = t ∧ k = l)) ∧
      (R.held.keys.card ≤ limit → L₁.lookup t = some l → l.mode = .shared →
        t ∈ (R.apply limit (.acquired t l)).extra) := by
  have hgrow : ∀ s k, K.lookup s = some k → (K.insert t l).lookup s = some k := by
    intro s k hk
    have hne : t ≠ s := by
      rintro rfl
      simp [hnew] at hk
    simpa [hne] using hk
  have hstay : Covers L₁ (K.insert t l) R :=
    ⟨h.kept, fun s k hk => (h.held_of s k hk).imp_right fun hk' => ⟨hk'.1, hgrow s k hk'.2⟩,
      h.extra_of⟩
  by_cases hskip : limit < R.held.keys.card ∨ R.Blocked l
  · rw [apply_acquired_skipped hskip]
    refine ⟨hstay, fun s k hk => Or.inl hk, fun hroom ht hmode => ?_⟩
    rcases hskip with hfull | hblocked
    · omega
    · exact absurd hblocked (h.not_blocked hexcl hfree ht hmode)
  · obtain ⟨hroom, hfree'⟩ := not_or.mp hskip
    have hroom' : R.held.keys.card ≤ limit := by omega
    by_cases ht : t ∈ R.held
    · rw [apply_acquired_again hroom' hfree' ht]
      obtain ⟨k, hk⟩ := Finmap.mem_iff.mp ht
      have hL₁ : L₁.lookup t = some l := by
        rcases h.held_of t k hk with hk' | ⟨-, hk'⟩
        · rwa [hsame k hk'] at hk'
        · simp [hnew] at hk'
      have hmode : l.mode = .shared :=
        (Lock.shared_of_not_conflicts (fun hc => hfree' ⟨t, l, Or.inl (h.kept t l hL₁), hc⟩)
          rfl).1
      refine ⟨⟨h.kept, hstay.held_of, fun s k' hk' => ?_⟩, fun s k' hk' => ?_,
        fun _ _ _ => Finmap.mem_insert.mpr (Or.inl rfl)⟩
      · rw [lookup_insert_eq] at hk'
        by_cases hs : t = s
        · rw [if_pos hs] at hk'
          obtain rfl := Option.some.inj hk'
          exact ⟨hs ▸ hL₁, hmode⟩
        · exact h.extra_of s k' (by simpa [hs] using hk')
      · rw [lookup_insert_eq] at hk'
        by_cases hs : t = s
        · rw [if_pos hs] at hk'
          exact Or.inr ⟨hs.symm, (Option.some.inj hk').symm⟩
        · exact Or.inl (by simpa [hs] using hk')
    · rw [apply_acquired_new hroom' hfree' ht]
      have hnone : L₁.lookup t = none := by
        cases hk : L₁.lookup t with
        | none => rfl
        | some k => exact absurd (Finmap.mem_of_lookup_eq_some (h.kept t k hk)) ht
      refine ⟨⟨fun s k hk => ?_, fun s k hk => ?_, h.extra_of⟩, fun s k hk => Or.inl hk,
        fun _ hL₁ => absurd hL₁ (by simp [hnone])⟩
      · have hne : t ≠ s := by
          rintro rfl
          simp [hnone] at hk
        simpa [hne] using h.kept s k hk
      · rw [lookup_insert_eq] at hk
        by_cases hs : t = s
        · rw [if_pos hs] at hk
          subst hs
          exact Or.inr ⟨hnone, by simpa using hk⟩
        · rw [if_neg hs] at hk
          exact hstay.held_of s k hk

theorem Covers.released (limit : ℕ) {L₁ K : Table ι ν} (h : Covers L₁ K R) {t : ι} (l : Lock ν)
    (hgone : L₁.lookup t = none) :
    Covers L₁ (K.erase t) (R.apply limit (.released t l)) := by
  refine ⟨fun s k hk => ?_, fun s k hk => ?_, h.extra_of⟩
  · have hne : t ≠ s := by
      rintro rfl
      simp [hgone] at hk
    simpa [hne] using h.kept s k hk
  · rw [apply_released, lookup_erase_eq] at hk
    by_cases hs : t = s
    · simp [hs] at hk
    · rw [if_neg hs] at hk
      simpa [hs] using h.held_of s k hk

/-- Replaying the records that lead to the snapshot on top of it leaves exactly the locks of the
snapshot, with second entries for the shared ones among those acquired. -/
theorem Covers.replay (limit : ℕ) {L₁ K : Table ι ν} (h : Covers L₁ K R) (hexcl : Exclusive L₁)
    {es : List (Event ι ν)} (hlegal : Legal K es) (hfresh : FreshIds K es)
    (hafter : after K es = L₁) :
    (R.replay limit es).held = L₁ ∧
      (∀ t l, (R.replay limit es).extra.lookup t = some l → R.extra.lookup t = some l ∨
        (L₁.lookup t = some l ∧ l.mode = .shared ∧ Event.acquired t l ∈ es)) ∧
      (R.held.keys.card + es.length ≤ limit → ∀ t l, Event.acquired t l ∈ es →
        L₁.lookup t = some l → l.mode = .shared → t ∈ (R.replay limit es).extra) := by
  induction es generalizing K R with
  | nil =>
      refine ⟨Finmap.ext_lookup fun t => ?_, fun t l hl => Or.inl hl, by simp⟩
      cases ht : L₁.lookup t with
      | some l => exact h.kept t l ht
      | none =>
          cases hr : R.held.lookup t with
          | none => exact hr
          | some l =>
              rcases h.held_of t l hr with hl | ⟨-, hl⟩
              · simp [ht] at hl
              · rw [← hafter, after_nil, hl] at ht
                simp at ht
  | cons e es ih =>
      obtain ⟨he, hrest⟩ := hlegal
      cases e with
      | acquired t l =>
          have hsame : ∀ k, L₁.lookup t = some k → k = l := by
            intro k hk
            rw [← hafter] at hk
            rcases lookup_after hk with hold | hin
            · simp [he.1] at hold
            · rcases List.mem_cons.mp hin with heq | hin
              · exact (Event.acquired.inj heq).2
              · exact absurd (mem_acquiredIds hin) (List.nodup_cons.mp hfresh.1).1
          obtain ⟨hstep, hextra, hsecond⟩ := h.acquired limit hexcl he.1 he.2 hsame
          obtain ⟨hheld, hof, hall⟩ := ih hstep hrest hfresh.tail hafter
          refine ⟨hheld, fun s k hk => ?_, fun hcap s k hin hL₁ hmode => ?_⟩
          · rcases hof s k hk with hk | ⟨hL₁, hmode, hin⟩
            · rcases hextra s k hk with hk' | ⟨rfl, rfl⟩
              · exact Or.inl hk'
              · obtain ⟨hL₁, hmode⟩ := hstep.extra_of s k hk
                exact Or.inr ⟨hL₁, hmode, List.mem_cons_self⟩
            · exact Or.inr ⟨hL₁, hmode, List.mem_cons_of_mem _ hin⟩
          · rw [List.length_cons] at hcap
            rcases List.mem_cons.mp hin with heq | hin
            · obtain ⟨rfl, rfl⟩ := Event.acquired.inj heq
              exact extra_persists (hsecond (by omega) hL₁ hmode) es
            · have hcard := card_held_apply_le limit R (.acquired t l)
              exact hall (by omega) s k hin hL₁ hmode
      | released t l =>
          have hgone : L₁.lookup t = none := by
            rw [← hafter]
            exact lookup_after_released hfresh ⟨he, hrest⟩ List.mem_cons_self
          obtain ⟨hheld, hof, hall⟩ := ih (h.released limit l hgone) hrest
            hfresh.tail hafter
          refine ⟨hheld, fun s k hk => ?_, fun hcap s k hin hL₁ hmode => ?_⟩
          · rcases hof s k hk with hk | ⟨hL₁, hmode, hin⟩
            · exact Or.inl hk
            · exact Or.inr ⟨hL₁, hmode, List.mem_cons_of_mem _ hin⟩
          · rw [List.length_cons] at hcap
            have hcard := card_held_apply_le limit R (.released t l)
            rcases List.mem_cons.mp hin with heq | hin
            · simp at heq
            · exact hall (by omega) s k hin hL₁ hmode

theorem replay_snapshot {xs : List (ι × Lock ν)} {L : Table ι ν}
    (hnodup : (xs.map (·.1)).Nodup) (hnew : ∀ x ∈ xs, L.lookup x.1 = none)
    (hfree : ∀ x ∈ xs, Free L x.2)
    (hpairs : xs.Pairwise fun x y => ¬ x.2.Conflicts y.2)
    (hroom : L.keys.card + xs.length ≤ limit + 1) :
    (⟨L, ∅⟩ : Replayed ι ν).replay limit (xs.map fun x => .acquired x.1 x.2) =
      ⟨xs.foldl (fun L x => L.insert x.1 x.2) L, ∅⟩ := by
  induction xs generalizing L with
  | nil => rfl
  | cons x xs ih =>
      obtain ⟨hx, hnodup⟩ := List.nodup_cons.mp hnodup
      obtain ⟨hxy, hpairs⟩ := List.pairwise_cons.mp hpairs
      rw [List.length_cons] at hroom
      have hunblocked : ¬ (⟨L, ∅⟩ : Replayed ι ν).Blocked x.2 := by
        rintro ⟨s, k, hk | hk, hconf⟩
        · exact hfree x List.mem_cons_self s k hk hconf
        · simp at hk
      have hnotin : x.1 ∉ L := Finmap.lookup_eq_none.mp (hnew x List.mem_cons_self)
      rw [List.map_cons, replay_cons, apply_acquired_new (by simp only; omega) hunblocked hnotin,
        List.foldl_cons]
      have hcard := card_keys_insert_le L x.1 x.2
      refine ih hnodup (fun y hy => ?_) (fun y hy s k hk => ?_) hpairs (by simp only; omega)
      · have hne : x.1 ≠ y.1 := fun heq => hx (List.mem_map.mpr ⟨y, hy, heq.symm⟩)
        simpa [hne] using hnew y (List.mem_cons_of_mem _ hy)
      · rw [lookup_insert_eq] at hk
        by_cases hs : x.1 = s
        · rw [if_pos hs] at hk
          obtain rfl := Option.some.inj hk
          exact hxy y hy
        · rw [if_neg hs] at hk
          exact hfree y (List.mem_cons_of_mem _ hy) s k hk

end Replayed

end ObjectStorage.Library.SharedExclusive
