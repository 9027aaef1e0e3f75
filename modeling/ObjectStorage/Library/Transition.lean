/-!
Runs of a deterministic transition system whose steps may be undefined, conditions required along a
run, and the induction that carries an invariant from one step to every state reached.
-/

namespace ObjectStorage.Library

section

variable {σ α : Type} (step : σ → α → Option σ)

/-- The state after a list of actions, if every step is defined. -/
def run (s : σ) : List α → Option σ
  | [] => some s
  | a :: as => (step s a).bind fun s' => run s' as

/-- `P` holds of every action of the list in the state it is applied to. -/
def Along (P : σ → α → Prop) (s : σ) : List α → Prop
  | [] => True
  | a :: as => P s a ∧ ∀ s', step s a = some s' → Along P s' as

@[simp] theorem run_nil (s : σ) : run step s [] = some s := rfl

@[simp] theorem run_cons (s : σ) (a : α) (as : List α) :
    run step s (a :: as) = (step s a).bind fun s' => run step s' as := rfl

theorem run_append (s : σ) (as bs : List α) :
    run step s (as ++ bs) = (run step s as).bind fun s' => run step s' bs := by
  induction as generalizing s with
  | nil => simp
  | cons a as ih =>
      simp only [List.cons_append, run_cons, Option.bind_assoc]
      congr 1
      funext s'
      exact ih s'

theorem along_append {P : σ → α → Prop} (s : σ) (as bs : List α) :
    Along step P s (as ++ bs) ↔
      Along step P s as ∧ ∀ s', run step s as = some s' → Along step P s' bs := by
  induction as generalizing s with
  | nil =>
      refine ⟨fun h => ⟨trivial, fun s' hs' => Option.some.inj hs' ▸ h⟩, fun h => h.2 s rfl⟩
  | cons a as ih =>
      simp only [List.cons_append, Along, ih, run_cons]
      constructor
      · rintro ⟨ha, hrest⟩
        refine ⟨⟨ha, fun s' hs' => (hrest s' hs').1⟩, fun t ht => ?_⟩
        obtain ⟨s', hs', hrun⟩ := Option.bind_eq_some_iff.mp ht
        exact (hrest s' hs').2 t hrun
      · rintro ⟨⟨ha, hrest⟩, hlast⟩
        refine ⟨ha, fun s' hs' => ⟨hrest s' hs', fun t ht => hlast t ?_⟩⟩
        rw [hs', Option.bind_some]
        exact ht

instance decidableAlong {P : σ → α → Prop} [∀ s a, Decidable (P s a)] (s : σ) :
    (as : List α) → Decidable (Along step P s as)
  | [] => isTrue trivial
  | a :: as =>
      match h : step s a with
      | none => decidable_of_iff (P s a) (by simp [Along, h])
      | some s' =>
          have : Decidable (Along step P s' as) := decidableAlong s' as
          decidable_of_iff (P s a ∧ Along step P s' as) (by simp [Along, h])

theorem along_of_forall {P : σ → α → Prop} {as : List α} (h : ∀ a ∈ as, ∀ s, P s a) (s : σ) :
    Along step P s as := by
  induction as generalizing s with
  | nil => trivial
  | cons a as ih =>
      exact ⟨h a List.mem_cons_self s,
        fun s' _ => ih (fun b hb => h b (List.mem_cons_of_mem a hb)) s'⟩

/-- An invariant kept by every step that meets the condition holds at the end of the run. -/
theorem run_invariant {I : σ → Prop} {P : σ → α → Prop}
    (hstep : ∀ s a, I s → P s a → ∃ s', step s a = some s' ∧ I s')
    {s : σ} (hs : I s) {as : List α} (has : Along step P s as) :
    ∃ s', run step s as = some s' ∧ I s' := by
  induction as generalizing s with
  | nil => exact ⟨s, rfl, hs⟩
  | cons a as ih =>
      obtain ⟨s', hstep', hs'⟩ := hstep s a hs has.1
      obtain ⟨t, hrun, ht⟩ := ih hs' (has.2 s' hstep')
      exact ⟨t, by simpa [hstep'] using hrun, ht⟩

/-- An invariant of the defined steps that meet the condition holds at the end of every defined run
whose steps all meet it. -/
theorem run_along_preserves {I : σ → Prop} {P : σ → α → Prop}
    (hstep : ∀ s a s', I s → P s a → step s a = some s' → I s')
    {s t : σ} (hs : I s) {as : List α} (has : Along step P s as) (hrun : run step s as = some t) :
    I t := by
  induction as generalizing s with
  | nil => exact (Option.some.inj hrun) ▸ hs
  | cons a as ih =>
      obtain ⟨s', hs', hrest⟩ := Option.bind_eq_some_iff.mp hrun
      exact ih (hstep s a s' hs has.1 hs') (has.2 s' hs') hrest

/-- A condition that implies another one under an invariant it keeps does so along a run. -/
theorem along_of_invariant {I : σ → Prop} {P Q : σ → α → Prop}
    (hstep : ∀ s a s', I s → P s a → step s a = some s' → I s')
    (himp : ∀ s a, I s → P s a → Q s a) {s : σ} (hs : I s) {as : List α}
    (has : Along step P s as) : Along step Q s as := by
  induction as generalizing s with
  | nil => trivial
  | cons a as ih =>
      exact ⟨himp s a hs has.1, fun s' hs' => ih (hstep s a s' hs has.1 hs') (has.2 s' hs')⟩

/-- A condition that the defined steps imply under an invariant they keep holds along a defined
run. -/
theorem along_of_defined {I : σ → Prop} {P Q : σ → α → Prop}
    (hstep : ∀ s a s', I s → P s a → step s a = some s' → I s')
    (himp : ∀ s a s', I s → P s a → step s a = some s' → Q s a) {s t : σ} (hs : I s) {as : List α}
    (has : Along step P s as) (hrun : run step s as = some t) : Along step Q s as := by
  induction as generalizing s with
  | nil => trivial
  | cons a as ih =>
      obtain ⟨s', hs', hrest⟩ := Option.bind_eq_some_iff.mp hrun
      refine ⟨himp s a s' hs has.1 hs', fun u hu => ?_⟩
      cases hs'.symm.trans hu
      exact ih (hstep s a s' hs has.1 hs') (has.2 s' hs') hrest

/-- An invariant of all defined steps holds at the end of every defined run. -/
theorem run_preserves {I : σ → Prop}
    (hstep : ∀ s a s', I s → step s a = some s' → I s')
    {s t : σ} {as : List α} (hs : I s) (hrun : run step s as = some t) : I t := by
  induction as generalizing s with
  | nil => exact (Option.some.inj hrun) ▸ hs
  | cons a as ih =>
      obtain ⟨s', hs', hrest⟩ := Option.bind_eq_some_iff.mp hrun
      exact ih (hstep s a s' hs hs') hrest

/-- Where a step keeps a property exactly if it meets the condition, all states of a run have the
property exactly if all steps meet the condition. -/
theorem prefixes_iff_along {I : σ → Prop} {P : σ → α → Prop}
    (hstep : ∀ s a, I s → (P s a ↔ ∀ s', step s a = some s' → I s')) {s : σ} (hs : I s)
    (as : List α) :
    (∀ n t, run step s (as.take n) = some t → I t) ↔ Along step P s as := by
  induction as generalizing s with
  | nil =>
      refine ⟨fun _ => trivial, fun _ n t hrun => ?_⟩
      rw [List.take_nil] at hrun
      exact Option.some.inj hrun ▸ hs
  | cons a as ih =>
      constructor
      · intro hall
        have hnext : ∀ s', step s a = some s' → I s' := fun s' hs' =>
          hall 1 s' (by simp [hs'])
        refine ⟨(hstep s a hs).mpr hnext, fun s' hs' => (ih (hnext s' hs')).mp fun n t hrun => ?_⟩
        exact hall (n + 1) t (by simpa [hs'] using hrun)
      · intro halong n t hrun
        cases n with
        | zero => exact Option.some.inj hrun ▸ hs
        | succ n =>
            obtain ⟨s', hs', hrest⟩ := Option.bind_eq_some_iff.mp hrun
            exact (ih ((hstep s a hs).mp halong.1 s' hs')).mpr (halong.2 s' hs') n t hrest

/-- A property that makes an invariant hold after the next step holds in all states of a run exactly
if the invariant does. -/
theorem prefixes_strengthen {I Q : σ → Prop} (hweak : ∀ s, I s → Q s)
    (hstep : ∀ s a s', I s → step s a = some s' → Q s' → I s') {s : σ} (hs : I s) (as : List α) :
    (∀ n t, run step s (as.take n) = some t → Q t) ↔
      ∀ n t, run step s (as.take n) = some t → I t := by
  refine ⟨fun hall => ?_, fun hall n t hrun => hweak t (hall n t hrun)⟩
  induction as generalizing s with
  | nil =>
      intro n t hrun
      rw [List.take_nil] at hrun
      exact Option.some.inj hrun ▸ hs
  | cons a as ih =>
      intro n t hrun
      cases n with
      | zero => exact Option.some.inj hrun ▸ hs
      | succ n =>
          obtain ⟨s', hs', hrest⟩ := Option.bind_eq_some_iff.mp hrun
          have hnext : I s' := hstep s a s' hs hs' (hall 1 s' (by simp [hs']))
          refine ih hnext (fun m u hu => hall (m + 1) u ?_) n t hrest
          simpa [hs'] using hu

end

end ObjectStorage.Library
