import Mathlib.Data.Finmap

/-!
Tables of shared and exclusive locks, the histories that a lock table can produce, and which
reorderings of such a history are harmless.
-/

namespace ObjectStorage.Library.SharedExclusive

inductive Mode where
  | shared
  | exclusive
deriving DecidableEq

structure Lock (ν : Type) where
  name : ν
  mode : Mode

/-- Two locks on one name, at least one of them exclusive. -/
def Lock.Conflicts {ν : Type} (l l' : Lock ν) : Prop :=
  l.name = l'.name ∧ (l.mode = .exclusive ∨ l'.mode = .exclusive)

theorem Lock.Conflicts.symm {ν : Type} {l l' : Lock ν} (h : l.Conflicts l') : l'.Conflicts l :=
  ⟨h.1.symm, h.2.symm⟩

theorem Lock.shared_of_not_conflicts {ν : Type} {l l' : Lock ν} (h : ¬ l.Conflicts l')
    (hname : l.name = l'.name) : l.mode = .shared ∧ l'.mode = .shared := by
  have hmodes := not_or.mp fun hm => h ⟨hname, hm⟩
  constructor
  · cases hm : l.mode with
    | shared => rfl
    | exclusive => exact absurd hm hmodes.1
  · cases hm : l'.mode with
    | shared => rfl
    | exclusive => exact absurd hm hmodes.2

section

variable {ι ν : Type} [DecidableEq ι]

/-- The locks held, by the id of their holder. -/
abbrev Table (ι ν : Type) := Finmap fun _ : ι => Lock ν

inductive Event (ι ν : Type) where
  | acquired (id : ι) (lock : Lock ν)
  | released (id : ι) (lock : Lock ν)

@[simp] theorem lookup_insert_eq (L : Table ι ν) (t t' : ι) (l : Lock ν) :
    (L.insert t l).lookup t' = if t = t' then some l else L.lookup t' := by
  by_cases h : t = t'
  · subst h
    simp
  · rw [if_neg h, Finmap.lookup_insert_of_ne _ (Ne.symm h)]

@[simp] theorem lookup_erase_eq (L : Table ι ν) (t t' : ι) :
    (L.erase t).lookup t' = if t = t' then none else L.lookup t' := by
  by_cases h : t = t'
  · subst h
    simp
  · rw [if_neg h, Finmap.lookup_erase_ne (Ne.symm h)]

/-- No lock of the table conflicts with the lock. -/
def Free (L : Table ι ν) (lock : Lock ν) : Prop :=
  ∀ t l, L.lookup t = some l → ¬ l.Conflicts lock

def Allowed (L : Table ι ν) : Event ι ν → Prop
  | .acquired t l => L.lookup t = none ∧ Free L l
  | .released t l => L.lookup t = some l

def apply (L : Table ι ν) : Event ι ν → Table ι ν
  | .acquired t l => L.insert t l
  | .released t _ => L.erase t

def after (L : Table ι ν) (es : List (Event ι ν)) : Table ι ν :=
  es.foldl apply L

/-- A history that a lock table can produce. -/
def Legal (L : Table ι ν) : List (Event ι ν) → Prop
  | [] => True
  | e :: es => Allowed L e ∧ Legal (apply L e) es

@[simp] theorem after_nil (L : Table ι ν) : after L [] = L := rfl

@[simp] theorem after_cons (L : Table ι ν) (e : Event ι ν) (es : List (Event ι ν)) :
    after L (e :: es) = after (apply L e) es := rfl

theorem after_append (L : Table ι ν) (es es' : List (Event ι ν)) :
    after L (es ++ es') = after (after L es) es' := by
  simp [after]

theorem legal_append (L : Table ι ν) (es es' : List (Event ι ν)) :
    Legal L (es ++ es') ↔ Legal L es ∧ Legal (after L es) es' := by
  induction es generalizing L with
  | nil => simp [Legal]
  | cons e es ih => simp [Legal, ih, and_assoc]

/-- No two locks of the table conflict. -/
def Exclusive (L : Table ι ν) : Prop :=
  ∀ t l t' l', L.lookup t = some l → L.lookup t' = some l' → t ≠ t' → ¬ l.Conflicts l'

theorem exclusive_empty : Exclusive (∅ : Table ι ν) := by
  intro t l t' l' ht
  simp at ht

theorem Exclusive.apply {L : Table ι ν} (h : Exclusive L) {e : Event ι ν} (he : Allowed L e) :
    Exclusive (apply L e) := by
  intro t l t' l' ht ht' hne
  cases e with
  | acquired s k =>
      simp only [SharedExclusive.apply, lookup_insert_eq] at ht ht'
      by_cases hs : s = t
      · rw [if_pos hs] at ht
        rw [if_neg fun hs' => hne (hs.symm.trans hs')] at ht'
        obtain rfl := Option.some.inj ht
        exact fun hc => he.2 t' l' ht' hc.symm
      · rw [if_neg hs] at ht
        by_cases hs' : s = t'
        · rw [if_pos hs'] at ht'
          obtain rfl := Option.some.inj ht'
          exact he.2 t l ht
        · rw [if_neg hs'] at ht'
          exact h t l t' l' ht ht' hne
  | released s k =>
      simp only [SharedExclusive.apply, lookup_erase_eq] at ht ht'
      by_cases hs : s = t
      · simp [hs] at ht
      · by_cases hs' : s = t'
        · simp [hs'] at ht'
        · exact h t l t' l' (by simpa [hs] using ht) (by simpa [hs'] using ht') hne

theorem Exclusive.after {L : Table ι ν} (h : Exclusive L) {es : List (Event ι ν)}
    (hes : Legal L es) : Exclusive (after L es) := by
  induction es generalizing L with
  | nil => exact h
  | cons e es ih => exact ih (h.apply hes.1) hes.2

theorem lookup_foldl_insert {xs : List (ι × Lock ν)} (hnodup : (xs.map (·.1)).Nodup)
    (L : Table ι ν) (t : ι) (l : Lock ν) :
    (xs.foldl (fun L x => L.insert x.1 x.2) L).lookup t = some l ↔
      (t, l) ∈ xs ∨ (t ∉ xs.map (·.1) ∧ L.lookup t = some l) := by
  induction xs generalizing L with
  | nil => simp
  | cons x xs ih =>
      obtain ⟨hx, hnodup⟩ := List.nodup_cons.mp hnodup
      rw [List.foldl_cons, ih hnodup, lookup_insert_eq]
      by_cases ht : x.1 = t
      · subst ht
        have hnot : (x.1, l) ∉ xs := fun h => hx (List.mem_map_of_mem (f := (·.1)) h)
        constructor
        · rintro (hin | ⟨-, hl⟩)
          · exact absurd hin hnot
          · rw [if_pos rfl] at hl
            obtain rfl := Option.some.inj hl
            exact Or.inl List.mem_cons_self
        · rintro (hin | ⟨hnone, -⟩)
          · rcases List.mem_cons.mp hin with heq | hin
            · exact Or.inr ⟨hx, by rw [if_pos rfl, ← heq]⟩
            · exact absurd hin hnot
          · exact absurd List.mem_cons_self hnone
      · have hne : (t, l) ≠ x := fun heq => ht (heq ▸ rfl)
        have hne' : t ≠ x.1 := fun heq => ht heq.symm
        simp [ht, hne, hne']

/-! ### Ids used once -/

/-- The ids that a history acquires. -/
def acquiredIds : List (Event ι ν) → List ι
  | [] => []
  | .acquired t _ :: es => t :: acquiredIds es
  | .released _ _ :: es => acquiredIds es

/-- Every id is acquired at most once, and not while the table has it already. -/
def FreshIds (L : Table ι ν) (es : List (Event ι ν)) : Prop :=
  (acquiredIds es).Nodup ∧ ∀ t ∈ acquiredIds es, L.lookup t = none

omit [DecidableEq ι] in
theorem acquiredIds_append (es es' : List (Event ι ν)) :
    acquiredIds (es ++ es') = acquiredIds es ++ acquiredIds es' := by
  induction es with
  | nil => rfl
  | cons e es ih => cases e <;> simp [acquiredIds, ih]

omit [DecidableEq ι] in
theorem mem_acquiredIds {es : List (Event ι ν)} {t : ι} {l : Lock ν}
    (h : Event.acquired t l ∈ es) : t ∈ acquiredIds es := by
  induction es with
  | nil => simp at h
  | cons e es ih =>
      rcases List.mem_cons.mp h with rfl | hin
      · simp [acquiredIds]
      · cases e <;> simp [acquiredIds, ih hin]

omit [DecidableEq ι] in
/-- With ids used once, an id stands for one lock. -/
theorem acquired_unique {es : List (Event ι ν)} (h : (acquiredIds es).Nodup) {t : ι}
    {l l' : Lock ν} (hl : Event.acquired t l ∈ es) (hl' : Event.acquired t l' ∈ es) : l = l' := by
  induction es with
  | nil => simp at hl
  | cons e es ih =>
      rcases List.mem_cons.mp hl with rfl | hin
      · rcases List.mem_cons.mp hl' with heq | hin'
        · exact (Event.acquired.inj heq).2.symm
        · exact absurd (mem_acquiredIds hin') (List.nodup_cons.mp h).1
      · rcases List.mem_cons.mp hl' with rfl | hin'
        · exact absurd (mem_acquiredIds hin) (List.nodup_cons.mp h).1
        · cases e with
          | acquired s k => exact ih (List.nodup_cons.mp h).2 hin hin'
          | released s k => exact ih h hin hin'

theorem FreshIds.tail {L : Table ι ν} {e : Event ι ν} {es : List (Event ι ν)}
    (h : FreshIds L (e :: es)) : FreshIds (apply L e) es := by
  obtain ⟨hnodup, hnone⟩ := h
  cases e with
  | acquired t l =>
      obtain ⟨ht, hnodup⟩ := List.nodup_cons.mp hnodup
      refine ⟨hnodup, fun s hs => ?_⟩
      have hne : t ≠ s := fun heq => ht (heq ▸ hs)
      simpa [apply, hne] using hnone s (List.mem_cons_of_mem _ hs)
  | released t l =>
      refine ⟨hnodup, fun s hs => ?_⟩
      simp only [apply, lookup_erase_eq]
      split
      · rfl
      · exact hnone s hs

/-- A lock that a history leaves behind was there before or was acquired by it. -/
theorem lookup_after {L : Table ι ν} {es : List (Event ι ν)} {t : ι} {l : Lock ν}
    (h : (after L es).lookup t = some l) :
    L.lookup t = some l ∨ Event.acquired t l ∈ es := by
  induction es generalizing L with
  | nil => exact Or.inl h
  | cons e es ih =>
      rcases ih h with hold | hin
      · cases e with
        | acquired s k =>
            simp only [apply, lookup_insert_eq] at hold
            by_cases hs : s = t
            · rw [if_pos hs] at hold
              obtain rfl := Option.some.inj hold
              exact Or.inr (by simp [hs])
            · exact Or.inl (by simpa [hs] using hold)
        | released s k =>
            simp only [apply, lookup_erase_eq] at hold
            by_cases hs : s = t
            · simp [hs] at hold
            · exact Or.inl (by simpa [hs] using hold)
      · exact Or.inr (List.mem_cons_of_mem _ hin)

theorem lookup_after_of_held {L : Table ι ν} {es : List (Event ι ν)} (hlegal : Legal L es) {t : ι}
    {l : Lock ν} (hl : L.lookup t = some l) :
    (after L es).lookup t = some l ∨ Event.released t l ∈ es := by
  induction es generalizing L with
  | nil => exact Or.inl hl
  | cons e es ih =>
      obtain ⟨he, hlegal⟩ := hlegal
      have hstep : (apply L e).lookup t = some l ∨ e = .released t l := by
        cases e with
        | acquired s k =>
            have hne : s ≠ t := by
              rintro rfl
              simp [he.1] at hl
            exact Or.inl (by simpa [apply, hne] using hl)
        | released s k =>
            by_cases hs : s = t
            · subst hs
              obtain rfl := Option.some.inj (hl.symm.trans he)
              exact Or.inr rfl
            · exact Or.inl (by simpa [apply, hs] using hl)
      rcases hstep with hheld | rfl
      · exact (ih hlegal hheld).imp_right (List.mem_cons_of_mem _)
      · exact Or.inr List.mem_cons_self

theorem lookup_after_released {L : Table ι ν} {es : List (Event ι ν)} {t : ι} {l : Lock ν}
    (hfresh : FreshIds L es) (hlegal : Legal L es) (h : Event.released t l ∈ es) :
    (after L es).lookup t = none := by
  induction es generalizing L with
  | nil => simp at h
  | cons e es ih =>
      rcases List.mem_cons.mp h with rfl | h
      · cases hfin : (after (apply L (.released t l)) es).lookup t with
        | none => exact hfin
        | some k =>
            rcases lookup_after hfin with hold | hin
            · simp [apply] at hold
            · have hnone := hfresh.2 t (mem_acquiredIds (List.mem_cons_of_mem _ hin))
              have hsome : L.lookup t = some l := hlegal.1
              simp [hnone] at hsome
      · exact ih hfresh.tail hlegal.2 h

theorem released_ne_acquired {es es' : List (Event ι ν)} {t s : ι} {l k : Lock ν}
    (hlegal : Legal ∅ (es ++ .acquired s k :: es'))
    (hnodup : (acquiredIds (es ++ .acquired s k :: es')).Nodup)
    (h : Event.released t l ∈ es) : t ≠ s := by
  rintro rfl
  obtain ⟨front, back, rfl⟩ := List.append_of_mem h
  have hheld := ((legal_append ∅ _ _).mp ((legal_append ∅ _ _).mp hlegal).1).2.1
  rcases lookup_after hheld with hnone | hin
  · simp at hnone
  · rw [acquiredIds_append, List.nodup_append] at hnodup
    exact hnodup.2.2 t (mem_acquiredIds (List.mem_append_left _ hin)) t (by simp [acquiredIds]) rfl

/-- How often a history releases a lock. -/
def releases : List (Event ι ν) → ℕ
  | [] => 0
  | .acquired _ _ :: es => releases es
  | .released _ _ :: es => releases es + 1

/-- A history leaves as many locks as it acquires more than it releases. -/
theorem card_after_add_releases {L : Table ι ν} {es : List (Event ι ν)} (h : Legal L es) :
    (after L es).keys.card + releases es = L.keys.card + (acquiredIds es).length := by
  induction es generalizing L with
  | nil => rfl
  | cons e es ih =>
      have hrest := ih h.2
      cases e with
      | acquired t l =>
          have hnot : t ∉ L.keys := fun hin =>
            Finmap.lookup_eq_none.mp h.1.1 (Finmap.mem_keys.mp hin)
          have hkeys : (L.insert t l).keys = Insert.insert t L.keys := by
            ext s
            rw [Finmap.mem_keys, Finmap.mem_insert, Finset.mem_insert, Finmap.mem_keys]
          have hcard : (L.insert t l).keys.card = L.keys.card + 1 := by
            rw [hkeys, Finset.card_insert_of_notMem hnot]
          simp only [after_cons, apply, releases, acquiredIds, List.length_cons] at hrest ⊢
          omega
      | released t l =>
          have hin : t ∈ L.keys := Finmap.mem_keys.mpr (Finmap.mem_of_lookup_eq_some h.1)
          have hcard : (L.erase t).keys.card + 1 = L.keys.card := by
            rw [Finmap.keys_erase, Finset.card_erase_add_one hin]
          simp only [after_cons, apply, releases, acquiredIds] at hrest ⊢
          omega

/-! ### Reordering -/

/-- The second event may be moved in front of the first. -/
def Independent : Event ι ν → Event ι ν → Prop
  | .acquired t _, .released t' _ => t ≠ t'
  | .released t l, .acquired t' l' => t ≠ t' ∧ ¬ l.Conflicts l'
  | _, _ => True

theorem legal_swap {L : Table ι ν} {e e' : Event ι ν} (h : Legal L [e, e'])
    (hind : Independent e e') :
    Legal L [e', e] ∧ apply (apply L e') e = apply (apply L e) e' := by
  obtain ⟨he, he', -⟩ := h
  cases e with
  | acquired t l =>
      obtain ⟨ht, hfree⟩ := he
      cases e' with
      | acquired t' l' =>
          obtain ⟨ht', hfree'⟩ := he'
          have hne : t ≠ t' := by
            rintro rfl
            simp [apply] at ht'
          simp only [apply, lookup_insert_eq, hne, if_false] at ht'
          refine ⟨⟨⟨ht', fun s k hk => ?_⟩, ⟨?_, fun s k hk => ?_⟩, trivial⟩, ?_⟩
          · apply hfree' s k
            have hs : t ≠ s := by
              rintro rfl
              simp [ht] at hk
            simpa [apply, hs] using hk
          · simp [apply, hne.symm, ht]
          · simp only [apply, lookup_insert_eq] at hk
            by_cases hs : t' = s
            · rw [if_pos hs] at hk
              obtain rfl := Option.some.inj hk
              exact fun hc => hfree' t l (by simp [apply]) hc.symm
            · rw [if_neg hs] at hk
              exact hfree s k hk
          · exact (Finmap.insert_insert_of_ne L hne).symm
      | released t' l' =>
          have hne : t ≠ t' := hind
          have ht' : L.lookup t' = some l' := by simpa [Allowed, apply, hne] using he'
          refine ⟨⟨ht', ⟨?_, fun s k hk => ?_⟩, trivial⟩, ?_⟩
          · simp [apply, ht]
          · simp only [apply, lookup_erase_eq] at hk
            by_cases hs : t' = s
            · simp [hs] at hk
            · exact hfree s k (by simpa [hs] using hk)
          · apply Finmap.ext_lookup
            intro s
            by_cases hs : t = s
            · have hs' : ¬ t' = s := fun h => hne (hs.trans h.symm)
              simp [apply, hs, hs']
            · simp [apply, hs]
  | released t l =>
      have ht : L.lookup t = some l := he
      cases e' with
      | acquired t' l' =>
          obtain ⟨hne, hconf⟩ := hind
          obtain ⟨ht', hfree'⟩ := he'
          simp only [apply, lookup_erase_eq, hne, if_false] at ht'
          refine ⟨⟨⟨ht', fun s k hk => ?_⟩, ?_, trivial⟩, ?_⟩
          · by_cases hs : t = s
            · subst hs
              obtain rfl := Option.some.inj (ht.symm.trans hk)
              exact hconf
            · exact hfree' s k (by simpa [apply, hs] using hk)
          · simp [Allowed, apply, hne.symm, ht]
          · apply Finmap.ext_lookup
            intro s
            by_cases hs : t' = s
            · have hs' : ¬ t = s := fun h => hne (h.trans hs.symm)
              simp [apply, hs, hs']
            · simp [apply, hs]
      | released t' l' =>
          have hne : t ≠ t' := by
            rintro rfl
            simp [Allowed, apply] at he'
          have ht' : L.lookup t' = some l' := by simpa [Allowed, apply, hne] using he'
          refine ⟨⟨ht', ?_, trivial⟩, Finmap.erase_erase⟩
          simp [Allowed, apply, hne.symm, ht]

/-- An event that is independent of everything in front of it may come first. -/
theorem legal_move_front {L : Table ι ν} {front back : List (Event ι ν)} {e : Event ι ν}
    (h : Legal L (front ++ e :: back)) (hind : ∀ a ∈ front, Independent a e) :
    Legal L (e :: (front ++ back)) ∧
      after L (e :: (front ++ back)) = after L (front ++ e :: back) := by
  induction front generalizing L with
  | nil => exact ⟨h, rfl⟩
  | cons a front ih =>
      obtain ⟨ha, hrest⟩ := h
      obtain ⟨hmoved, hafter⟩ := ih hrest fun b hb => hind b (List.mem_cons_of_mem _ hb)
      obtain ⟨he, htail⟩ := hmoved
      obtain ⟨⟨he', ha', -⟩, hcomm⟩ := legal_swap ⟨ha, he, trivial⟩ (hind a List.mem_cons_self)
      refine ⟨⟨he', ha', ?_⟩, ?_⟩
      · rw [hcomm]
        exact htail
      · rw [List.cons_append, after_cons, after_cons, hcomm]
        exact hafter

end

end ObjectStorage.Library.SharedExclusive
