/-!
A list patched by indexed replacements that are applied in order, plans settled by reports, and
loops that update one key at a time.
-/

namespace ObjectStorage.Library

section

variable {α : Type}

/-- `xs[i] = a` of a vector without bounds checks: undefined outside the vector. -/
def setAt (xs : List α) (i : Int) (a : α) : Option (List α) :=
  if 0 ≤ i ∧ i < xs.length then some (xs.set i.toNat a) else none

/-- The replacements of `es`, each over the result of those before it. -/
def overlay (xs : List α) (es : List (Int × α)) : Option (List α) :=
  es.foldlM (fun xs e => setAt xs e.1 e.2) xs

/-- The last replacement for an index. -/
def lastAt (es : List (Int × α)) (i : Int) : Option α :=
  (es.findRev? fun e => e.1 = i).map (·.2)

@[simp] theorem overlay_nil (xs : List α) : overlay xs [] = some xs := rfl

theorem overlay_append (xs : List α) (es es' : List (Int × α)) :
    overlay xs (es ++ es') = (overlay xs es).bind fun ys => overlay ys es' := by
  simp only [overlay, List.foldlM_append]
  rfl

theorem overlay_cons (xs : List α) (e : Int × α) (es : List (Int × α)) :
    overlay xs (e :: es) = (setAt xs e.1 e.2).bind fun ys => overlay ys es := rfl

@[simp] theorem lastAt_nil (i : Int) : lastAt ([] : List (Int × α)) i = none := rfl

theorem lastAt_append (es es' : List (Int × α)) (i : Int) :
    lastAt (es ++ es') i = (lastAt es' i).or (lastAt es i) := by
  simp only [lastAt, List.findRev?_eq_find?_reverse, List.reverse_append, List.find?_append]
  cases es'.reverse.find? fun e => e.1 = i <;> rfl

@[simp] theorem lastAt_singleton (e : Int × α) (i : Int) :
    lastAt [e] i = if e.1 = i then some e.2 else none := by
  by_cases h : e.1 = i <;> simp [lastAt, List.findRev?_eq_find?_reverse, h]

theorem setAt_eq_some {xs ys : List α} {i : Int} {a : α} :
    setAt xs i a = some ys ↔ (0 ≤ i ∧ i < xs.length) ∧ xs.set i.toNat a = ys := by
  unfold setAt
  by_cases h : 0 ≤ i ∧ i < xs.length
  · simp [h]
  · simp [h]

/-- Every index of `es` lies in a list of length `n`. -/
def InRange (n : Nat) (es : List (Int × α)) : Prop := ∀ e ∈ es, 0 ≤ e.1 ∧ e.1 < n

instance (n : Nat) (es : List (Int × α)) : Decidable (InRange n es) :=
  inferInstanceAs (Decidable (∀ e ∈ es, _))

theorem overlay_length {xs ys : List α} {es : List (Int × α)} (h : overlay xs es = some ys) :
    ys.length = xs.length := by
  induction es generalizing xs with
  | nil => simp_all
  | cons e es ih =>
      obtain ⟨zs, hz, hrest⟩ := Option.bind_eq_some_iff.mp (overlay_cons xs e es ▸ h)
      obtain ⟨-, rfl⟩ := setAt_eq_some.mp hz
      rw [ih hrest, List.length_set]

theorem overlay_isSome {xs : List α} {es : List (Int × α)} :
    (∃ ys, overlay xs es = some ys) ↔ InRange xs.length es := by
  induction es generalizing xs with
  | nil => simp [InRange]
  | cons e es ih =>
      by_cases he : 0 ≤ e.1 ∧ e.1 < xs.length
      · have hz : setAt xs e.1 e.2 = some (xs.set e.1.toNat e.2) := setAt_eq_some.mpr ⟨he, rfl⟩
        rw [overlay_cons, hz, Option.bind_some, ih]
        simp [InRange, he]
      · have hz : setAt xs e.1 e.2 = none := if_neg he
        simp [overlay_cons, hz, InRange, he]

/-- Where the patched list differs, the last replacement decides. -/
theorem overlay_getElem? {xs ys : List α} {es : List (Int × α)} (h : overlay xs es = some ys)
    {i : Nat} (hi : i < xs.length) : ys[i]? = (lastAt es i).or xs[i]? := by
  induction es generalizing xs with
  | nil =>
      obtain rfl := Option.some.inj h
      simp
  | cons e es ih =>
      obtain ⟨zs, hz, hrest⟩ := Option.bind_eq_some_iff.mp (overlay_cons xs e es ▸ h)
      obtain ⟨he, rfl⟩ := setAt_eq_some.mp hz
      have hcons : e :: es = [e] ++ es := rfl
      rw [ih hrest (by simpa using hi), hcons, lastAt_append, Option.or_assoc, lastAt_singleton]
      congr 1
      by_cases hei : e.1 = i
      · have hnat : e.1.toNat = i := by omega
        simp [hei, hi]
      · have hnat : e.1.toNat ≠ i := by omega
        simp [hei, List.getElem?_set_ne hnat]

theorem lastAt_mem {es : List (Int × α)} {i : Int} {a : α} (h : lastAt es i = some a) :
    (i, a) ∈ es := by
  obtain ⟨e, he, rfl⟩ := Option.map_eq_some_iff.mp h
  rw [List.findRev?_eq_find?_reverse] at he
  have hi : e.1 = i := by simpa using List.find?_some he
  have hmem : e ∈ es := by simpa using List.mem_of_find?_eq_some he
  simpa [← hi] using hmem

theorem lastAt_eq_none {es : List (Int × α)} {i : Int} :
    lastAt es i = none ↔ i ∉ es.map (·.1) := by
  simp only [lastAt, List.findRev?_eq_find?_reverse, Option.map_eq_none_iff,
    List.find?_eq_none, List.mem_reverse, decide_eq_true_eq, List.mem_map, not_exists, not_and]

/-- A replacement that nothing after the first `n` touches stays the last one. -/
theorem lastAt_take_of_le {es : List (Int × α)} {n k : Nat} {i : Int} {a : α} (hnk : n ≤ k)
    (h : lastAt (es.take n) i = some a) (hrest : ∀ e ∈ es.drop n, e.1 ≠ i) :
    lastAt (es.take k) i = some a := by
  obtain ⟨j, rfl⟩ := Nat.exists_eq_add_of_le hnk
  have hnone : lastAt ((es.drop n).take j) i = none := by
    rw [lastAt_eq_none]
    rintro hmem
    obtain ⟨e, he, hei⟩ := List.mem_map.mp hmem
    exact hrest e (List.mem_of_mem_take he) hei
  rw [List.take_add, lastAt_append, hnone, h, Option.none_or]

/-- A later part of the replacements, from at most `k` on, over the first `k`: what the first `n`
say of an index stays, if the part reaches to `n` and nothing behind `n` touches the index. -/
theorem lastAt_part_or_take {es : List (Int × α)} {f k n u : Nat} {i : Int} {a : α} (hfk : f ≤ k)
    (hfu : f ≤ u) (hnu : n ≤ u) (h : lastAt (es.take n) i = some a)
    (hrest : ∀ e ∈ es.drop n, e.1 ≠ i) :
    (lastAt ((es.take u).drop f) i).or (lastAt (es.take k) i) = some a := by
  have hu := lastAt_take_of_le hnu h hrest
  have hsplit : es.take u = es.take f ++ (es.take u).drop f := by
    have hcut := List.take_append_drop f (es.take u)
    rwa [List.take_take, Nat.min_eq_left hfu, eq_comm] at hcut
  rw [hsplit, lastAt_append] at hu
  cases hpart : lastAt ((es.take u).drop f) i with
  | some b =>
      rw [hpart] at hu
      exact hu
  | none =>
      rw [hpart, Option.none_or] at hu
      rw [Option.none_or]
      by_cases hk : n ≤ k
      · exact lastAt_take_of_le hk h hrest
      -- the first `k` reach less far than the part, so they add nothing for the index
      obtain ⟨j, rfl⟩ := Nat.exists_eq_add_of_le hfk
      have hnone : lastAt ((es.drop f).take j) i = none := by
        rw [lastAt_eq_none] at hpart ⊢
        intro hmem
        obtain ⟨e, he, hei⟩ := List.mem_map.mp hmem
        refine hpart (List.mem_map.mpr ⟨e, ?_, hei⟩)
        rw [List.drop_take]
        exact (List.take_subset_take_left _ (by omega)) he
      rw [List.take_add, lastAt_append, hnone, Option.none_or, hu]

end

section

variable {κ α : Type} [DecidableEq κ]

/-- Planned entries settled by reports for the same key: the entries left, and the reports that
found one. -/
def settle : List (κ × α) → List (κ × α) → List (κ × α) × List (κ × α)
  | planned, [] => (planned, [])
  | planned, r :: rs =>
      if r.1 ∈ planned.map (·.1) then
        let (left, settled) := settle (planned.eraseP fun e => e.1 = r.1) rs
        (left, r :: settled)
      else settle planned rs

theorem settle_left_sublist (planned rs : List (κ × α)) :
    (settle planned rs).1.Sublist planned := by
  induction rs generalizing planned with
  | nil => exact .refl _
  | cons r rs ih =>
      by_cases h : r.1 ∈ planned.map (·.1)
      · simpa [settle, h] using (ih _).trans List.eraseP_sublist
      · simpa [settle, h] using ih planned

theorem settled_sublist (planned rs : List (κ × α)) : (settle planned rs).2.Sublist rs := by
  induction rs generalizing planned with
  | nil => exact .refl _
  | cons r rs ih =>
      by_cases h : r.1 ∈ planned.map (·.1)
      · simpa [settle, h] using (ih _).cons_cons r
      · simpa [settle, h] using (ih planned).cons r

/-- A plan that is reported as it was made is settled as a whole. -/
theorem settle_self {es : List (κ × α)} : settle es es = ([], es) := by
  induction es with
  | nil => rfl
  | cons e es ih => simp [settle, ih]

theorem mem_keys_eraseP {planned : List (κ × α)} (hnodup : (planned.map (·.1)).Nodup) (k c : κ) :
    c ∈ (planned.eraseP fun e => e.1 = k).map (·.1) ↔ c ≠ k ∧ c ∈ planned.map (·.1) := by
  induction planned with
  | nil => simp
  | cons e planned ih =>
      obtain ⟨he, hnodup⟩ := List.nodup_cons.mp hnodup
      by_cases hek : e.1 = k
      · subst hek
        rw [List.eraseP_cons_of_pos (by simp)]
        constructor
        · intro hc
          refine ⟨?_, List.mem_cons_of_mem _ hc⟩
          rintro rfl
          exact he hc
        · rintro ⟨hne, hc⟩
          exact (List.mem_cons.mp hc).resolve_left hne
      · rw [List.eraseP_cons_of_neg (by simpa using hek), List.map_cons, List.mem_cons,
          List.map_cons, List.mem_cons, ih hnodup]
        constructor
        · rintro (rfl | ⟨hne, hc⟩)
          · exact ⟨hek, .inl rfl⟩
          · exact ⟨hne, .inr hc⟩
        · rintro ⟨hne, rfl | hc⟩
          · exact .inl rfl
          · exact .inr ⟨hne, hc⟩

theorem eraseP_eq_filter {es : List (κ × α)} (h : (es.map (·.1)).Nodup) (k : κ) :
    es.eraseP (fun e => e.1 = k) = es.filter fun e => e.1 ≠ k := by
  induction es with
  | nil => rfl
  | cons e es ih =>
      rw [List.map_cons, List.nodup_cons] at h
      by_cases hei : e.1 = k
      · have hrest : ∀ e' ∈ es, e'.1 ≠ k := fun e' he' heq =>
          h.1 (List.mem_map.mpr ⟨e', he', heq.trans hei.symm⟩)
        have hkeep : es.filter (fun e => e.1 ≠ k) = es :=
          List.filter_eq_self.mpr fun e' he' => by simpa using hrest e' he'
        simpa [hei] using hkeep.symm
      · simp [hei, ih h.2]

theorem nodup_keys_eraseP {planned : List (κ × α)} (hnodup : (planned.map (·.1)).Nodup) (k : κ) :
    ((planned.eraseP fun e => e.1 = k).map (·.1)).Nodup :=
  hnodup.sublist (List.eraseP_sublist.map _)

/-- A report settles an entry when it is the first one for the key of an entry. -/
theorem mem_settled {planned : List (κ × α)} (hnodup : (planned.map (·.1)).Nodup)
    {rs : List (κ × α)} {r : κ × α} (hr : r ∈ (settle planned rs).2) :
    r.1 ∈ planned.map (·.1) ∧ rs.find? (fun r' => r'.1 = r.1) = some r ∧
      r.1 ∉ (settle planned rs).1.map (·.1) := by
  induction rs generalizing planned with
  | nil => simp [settle] at hr
  | cons r' rs ih =>
      by_cases h : r'.1 ∈ planned.map (·.1)
      · have hsettle : settle planned (r' :: rs) =
            ((settle (planned.eraseP fun e => e.1 = r'.1) rs).1,
              r' :: (settle (planned.eraseP fun e => e.1 = r'.1) rs).2) := by
          simp [settle, h]
        rw [hsettle] at hr ⊢
        rcases List.mem_cons.mp hr with rfl | hr
        · refine ⟨h, by simp, fun hin => ?_⟩
          have hleft := ((settle_left_sublist _ rs).map (·.1)).subset hin
          exact ((mem_keys_eraseP hnodup _ _).mp hleft).1 rfl
        · obtain ⟨hkey, hfind, hgone⟩ := ih (nodup_keys_eraseP hnodup _) hr
          obtain ⟨hne, hkey⟩ := (mem_keys_eraseP hnodup _ _).mp hkey
          refine ⟨hkey, ?_, hgone⟩
          rw [List.find?_cons_of_neg (by simpa using hne.symm), hfind]
      · have hsettle : settle planned (r' :: rs) = settle planned rs := by simp [settle, h]
        rw [hsettle] at hr ⊢
        obtain ⟨hkey, hfind, hgone⟩ := ih hnodup hr
        have hne : ¬ r'.1 = r.1 := fun heq => h (heq ▸ hkey)
        exact ⟨hkey, by rw [List.find?_cons_of_neg (by simpa using hne), hfind], hgone⟩

end

section

variable {σ κ β : Type} [DecidableEq κ]

/-- One step of a loop over keys: undefined where `f` is, and otherwise the part of its key becomes
what `f` makes of it. -/
def UpdatesKey (step : σ → κ → Option σ) (view : σ → κ → β) (I : σ → Prop) (f : κ → β → Option β)
    (s : σ) (k : κ) : Prop :=
  (f k (view s k) = none ∧ step s k = none) ∨
    ∃ b s', f k (view s k) = some b ∧ step s k = some s' ∧ I s' ∧
      ∀ a, view s' a = if k = a then b else view s a

theorem UpdatesKey.skip {step : σ → κ → Option σ} {view : σ → κ → β} {I : σ → Prop}
    {f : κ → β → Option β} {s : σ} {k : κ} (hs : I s) (hf : f k (view s k) = some (view s k))
    (hstep : step s k = some s) : UpdatesKey step view I f s k := by
  refine .inr ⟨view s k, s, hf, hstep, hs, fun a => ?_⟩
  by_cases ha : k = a
  · simp [ha]
  · simp [ha]

/-- A loop over distinct keys that updates the part of each key and nothing else. -/
theorem foldlM_distinct_keys {step : σ → κ → Option σ} {view : σ → κ → β} {I : σ → Prop}
    {f : κ → β → Option β} (hstep : ∀ s k, I s → UpdatesKey step view I f s k)
    {ks : List κ} (hks : ks.Nodup) {s : σ} (hs : I s) :
    (ks.foldlM step s = none ∧ ∃ k ∈ ks, f k (view s k) = none) ∨
      ∃ s', ks.foldlM step s = some s' ∧ I s' ∧
        (∀ k ∈ ks, f k (view s k) = some (view s' k)) ∧ ∀ a ∉ ks, view s' a = view s a := by
  induction ks generalizing s with
  | nil => exact .inr ⟨s, rfl, hs, by simp, fun _ _ => rfl⟩
  | cons k ks ih =>
      obtain ⟨hk, hks⟩ := List.nodup_cons.mp hks
      rw [List.foldlM_cons]
      rcases hstep s k hs with ⟨hf, hnone⟩ | ⟨b, s₁, hf, hsome, hs₁, hview⟩
      · exact .inl ⟨by rw [hnone]; rfl, k, List.mem_cons_self, hf⟩
      have hsame : ∀ a ∈ ks, view s₁ a = view s a := fun a ha => by
        have hne : k ≠ a := fun h => hk (h ▸ ha)
        rw [hview, if_neg hne]
      have hbind : (step s k >>= fun s' => ks.foldlM step s') = ks.foldlM step s₁ := by
        rw [hsome]
        rfl
      rw [hbind]
      rcases ih hks hs₁ with ⟨hnone, k', hk', hf'⟩ | ⟨s', hrun, hs', hin, hout⟩
      · exact .inl ⟨hnone, k', List.mem_cons_of_mem _ hk', hsame k' hk' ▸ hf'⟩
      · refine .inr ⟨s', hrun, hs', fun a ha => ?_, fun a ha => ?_⟩
        · rcases List.mem_cons.mp ha with rfl | ha
          · rw [hf, hout a hk, hview, if_pos rfl]
          · rw [← hsame a ha, hin a ha]
        · have hne : k ≠ a := fun h => ha (h ▸ List.mem_cons_self)
          rw [hout a fun h => ha (List.mem_cons_of_mem _ h), hview, if_neg hne]

end

end ObjectStorage.Library
