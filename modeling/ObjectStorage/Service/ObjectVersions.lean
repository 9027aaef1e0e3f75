import ObjectStorage.Library.Transition

/-!
The version ids of objects that a container service hands out: a major version from the global
leader and a subversion that the service counts.
-/

namespace ObjectStorage.Service

open Library

/-- The two counters of the service, its blocked calls of `get_object_gl_version` with the answer
that is on its way to each, the version that the global leader gave last, and the pairs that were
handed out, in their order. `none` as a major version is Python's `None`. -/
structure ObjectVersions where
  objectMajorVersionX : Option Nat
  objectSubversionY : Nat
  calls : List (Option Nat)
  given : Nat
  issued : List (Option Nat × Nat)

/-- Requests and what happens to the blocked call at a position. A version in a header is `none`
where the handler fails before the comparison. -/
inductive VersionStep where
  | head
  | acceptContData (reqObjectGlVersion : Option Int)
  | acceptTransData (reqObjectGlVersion : Option Int)
  | answer (i : Nat) (version : Nat)
  | receive (i : Nat)
  | giveUp (i : Nat)
  | interrupt (i : Nat)

namespace ObjectVersions

/-- The service after its own call of the global leader, which may have failed. -/
def start (objectMajorVersionX : Option Nat) (given : Nat) : ObjectVersions :=
  ⟨objectMajorVersionX, 0, [], given, []⟩

/-- `req_object_gl_version > self._object_major_version_x`; every number is above `None`. -/
def isNewer (s : ObjectVersions) (reqObjectGlVersion : Option Int) : Bool :=
  match reqObjectGlVersion, s.objectMajorVersionX with
  | none, _ => false
  | some _, none => true
  | some version, some x => x < version

/-- The blocked call returns, and the handler resets the subversion. -/
def returned (s : ObjectVersions) (i : Nat) (version : Option Nat) : ObjectVersions :=
  { s with objectMajorVersionX := version, objectSubversionY := 0, calls := s.calls.eraseIdx i }

/-- The leader answers a call with a version above all it gave before, also a call that is repeated
because the answer was lost. -/
def step (s : ObjectVersions) : VersionStep → Option ObjectVersions
  | .head =>
      let y := s.objectSubversionY + 1
      some { s with objectSubversionY := y, issued := s.issued ++ [(s.objectMajorVersionX, y)] }
  | .acceptContData version =>
      if s.isNewer version then some { s with calls := s.calls ++ [none] } else some s
  | .acceptTransData version =>
      -- the call of the leader is commented out here, the reset is not
      if s.isNewer version then some { s with objectSubversionY := 0 } else some s
  | .answer i version =>
      if i < s.calls.length ∧ s.given < version then
        some { s with calls := s.calls.set i (some version), given := version }
      else none
  | .receive i =>
      match s.calls[i]? with
      | some (some version) => some (s.returned i (some version))
      | _ => none
  | .giveUp i => if i < s.calls.length then some (s.returned i none) else none
  | .interrupt i =>
      if i < s.calls.length then some { s with calls := s.calls.eraseIdx i } else none

/-- Both are numbers, and the first pair is the smaller one. -/
def Below : Option Nat × Nat → Option Nat × Nat → Prop
  | (some x, y), (some x', y') => x < x' ∨ x = x' ∧ y < y'
  | _, _ => False

instance decidableBelow : (p q : Option Nat × Nat) → Decidable (Below p q)
  | (some x, y), (some x', y') => inferInstanceAs (Decidable (x < x' ∨ x = x' ∧ y < y'))
  | (none, _), _ => isFalse id
  | (some _, _), (none, _) => isFalse id

/-- The pairs that were handed out are numbers and increase. -/
structure NeverRepeat (s : ObjectVersions) : Prop where
  numbers : ∀ p ∈ s.issued, p.1 ≠ none
  increase : s.issued.Pairwise Below

/-- A pair is handed out only under a known major version, an answer that comes in is above all
major versions used so far, and the subversion is reset without one only before its first use. -/
def InOrder (s : ObjectVersions) : VersionStep → Prop
  | .head => s.objectMajorVersionX ≠ none
  | .receive i => ∀ answer ∈ s.calls[i]?, ∀ version ∈ answer,
      ∀ p ∈ s.issued, ∀ x ∈ p.1, x < version
  | .acceptTransData version => s.isNewer version → ∀ p ∈ s.issued, p.1 ≠ s.objectMajorVersionX
  | _ => True

instance decidableInOrder (s : ObjectVersions) : (a : VersionStep) → Decidable (s.InOrder a)
  | .head => inferInstanceAs (Decidable (s.objectMajorVersionX ≠ none))
  | .receive i => inferInstanceAs (Decidable (∀ answer ∈ s.calls[i]?, ∀ version ∈ answer,
      ∀ p ∈ s.issued, ∀ x ∈ p.1, x < version))
  | .acceptTransData version => inferInstanceAs (Decidable (s.isNewer version →
      ∀ p ∈ s.issued, p.1 ≠ s.objectMajorVersionX))
  | .acceptContData _ | .answer _ _ | .giveUp _ | .interrupt _ => isTrue trivial

variable {s s' : ObjectVersions}

/-- What was handed out is below what is handed out next. -/
structure Ahead (s : ObjectVersions) : Prop extends NeverRepeat s where
  next : ∀ p ∈ s.issued, ∀ x ∈ p.1, ∀ x' ∈ s.objectMajorVersionX,
    x < x' ∨ x = x' ∧ p.2 ≤ s.objectSubversionY

theorem ahead_start (x : Option Nat) (given : Nat) : (start x given).Ahead where
  numbers := by simp [start]
  increase := by simp [start]
  next := by simp [start]

theorem Ahead.head (h : s.Ahead) (hsafe : s.InOrder .head) (hstep : s.step .head = some s') :
    s'.Ahead := by
  obtain rfl := Option.some.inj hstep
  obtain ⟨x, hx⟩ := Option.ne_none_iff_exists'.mp hsafe
  refine ⟨⟨?_, ?_⟩, ?_⟩
  · intro p hp
    rcases List.mem_append.mp hp with hold | hnew
    · exact h.numbers p hold
    · obtain rfl := List.mem_singleton.mp hnew
      exact hsafe
  · refine List.pairwise_append.mpr ⟨h.increase, by simp, fun p hp q hq => ?_⟩
    obtain rfl := List.mem_singleton.mp hq
    obtain ⟨x', hx'⟩ := Option.ne_none_iff_exists'.mp (h.numbers p hp)
    obtain ⟨_, y⟩ := p
    obtain rfl := hx'
    rw [hx]
    rcases h.next _ hp x' rfl x hx with hlt | ⟨heq, hle⟩
    · exact .inl hlt
    · exact .inr ⟨heq, Nat.lt_succ_of_le hle⟩
  · intro p hp x₁ hx₁ x₂ hx₂
    rcases List.mem_append.mp hp with hold | hnew
    · rcases h.next p hold x₁ hx₁ x₂ hx₂ with hlt | ⟨heq, hle⟩
      · exact .inl hlt
      · exact .inr ⟨heq, Nat.le_succ_of_le hle⟩
    · obtain rfl := List.mem_singleton.mp hnew
      exact .inr ⟨Option.some.inj (hx₁.symm.trans hx₂), Nat.le_refl _⟩

/-- Steps that hand out nothing, and after which the next pair is still above all. -/
theorem Ahead.of_issued (h : s.Ahead) (hissued : s'.issued = s.issued)
    (hnext : ∀ p ∈ s.issued, ∀ x ∈ p.1, ∀ x' ∈ s'.objectMajorVersionX,
      x < x' ∨ x = x' ∧ p.2 ≤ s'.objectSubversionY) : s'.Ahead :=
  ⟨⟨hissued ▸ h.numbers, hissued ▸ h.increase⟩, hissued ▸ hnext⟩

theorem Ahead.acceptTransData (h : s.Ahead) {version : Option Int}
    (hsafe : s.InOrder (.acceptTransData version))
    (hstep : s.step (.acceptTransData version) = some s') : s'.Ahead := by
  simp only [ObjectVersions.step] at hstep
  split at hstep
  · rename_i hnewer
    obtain rfl := Option.some.inj hstep
    refine h.of_issued rfl fun p hp x hx x' hx' => ?_
    rcases h.next p hp x hx x' hx' with hlt | ⟨rfl, -⟩
    · exact .inl hlt
    · exact absurd (hx.trans hx'.symm) (hsafe hnewer p hp)
  · exact Option.some.inj hstep ▸ h

theorem Ahead.receive (h : s.Ahead) {i : Nat} (hsafe : s.InOrder (.receive i))
    (hstep : s.step (.receive i) = some s') : s'.Ahead := by
  simp only [ObjectVersions.step] at hstep
  split at hstep
  · rename_i version hcall
    obtain rfl := Option.some.inj hstep
    refine h.of_issued rfl fun p hp x hx x' hx' => ?_
    obtain rfl : version = x' := Option.some.inj hx'
    exact .inl (hsafe _ hcall version rfl p hp x hx)
  · cases hstep

theorem Ahead.step (h : s.Ahead) {a : VersionStep} (hsafe : s.InOrder a)
    (hstep : s.step a = some s') : s'.Ahead := by
  cases a with
  | head => exact h.head hsafe hstep
  | acceptTransData version => exact h.acceptTransData hsafe hstep
  | receive i => exact h.receive hsafe hstep
  | acceptContData version =>
      simp only [ObjectVersions.step] at hstep
      split at hstep
      · exact Option.some.inj hstep ▸ h.of_issued rfl h.next
      · exact Option.some.inj hstep ▸ h
  | answer i version =>
      simp only [ObjectVersions.step] at hstep
      split at hstep
      · exact Option.some.inj hstep ▸ h.of_issued rfl h.next
      · cases hstep
  | giveUp i =>
      simp only [ObjectVersions.step] at hstep
      split at hstep
      · exact Option.some.inj hstep ▸ h.of_issued rfl fun _ _ _ _ _ hx' => nomatch hx'
      · cases hstep
  | interrupt i =>
      simp only [ObjectVersions.step] at hstep
      split at hstep
      · exact Option.some.inj hstep ▸ h.of_issued rfl h.next
      · cases hstep

/-- No version id is handed out twice in a run that keeps the counters in order. -/
theorem versions_never_repeat {x : Option Nat} {given : Nat} {steps : List VersionStep}
    (hsteps : Along step InOrder (start x given) steps)
    (hrun : run step (start x given) steps = some s) : s.NeverRepeat :=
  (run_along_preserves _ (fun _ _ _ h hsafe hstep => h.step hsafe hstep) (ahead_start x given)
    hsteps hrun).toNeverRepeat

theorem versions_never_repeat_heads : ∃ s,
    run step (start (some 3) 3) [.head, .head, .acceptContData (some 4), .answer 0 4, .head,
      .receive 0, .head] = some s ∧ s.NeverRepeat := by
  have hsteps : Along step InOrder (start (some 3) 3) [.head, .head, .acceptContData (some 4),
      .answer 0 4, .head, .receive 0, .head] := by decide
  exact ⟨_, rfl, versions_never_repeat hsteps rfl⟩

/-- The reset without a call repeats a pair; answers that overtake each other lead back to a smaller
version; and a version that is not obtained is no number. -/
theorem versions_repeat :
    (∃ s, run step (start (some 3) 3) [.head, .acceptTransData (some 4), .head] = some s ∧
      s.issued = [(some 3, 1), (some 3, 1)] ∧ ¬ s.NeverRepeat) ∧
    (∃ s, run step (start (some 3) 3) [.acceptContData (some 4), .acceptContData (some 4),
        .answer 0 4, .answer 1 5, .receive 1, .head, .receive 0, .head] = some s ∧
      s.issued = [(some 5, 1), (some 4, 1)] ∧ ¬ s.NeverRepeat) ∧
    ∃ s, run step (start (some 3) 3) [.acceptContData (some 4), .giveUp 0, .head] = some s ∧
      s.issued = [(none, 1)] ∧ ¬ s.NeverRepeat :=
  ⟨⟨_, rfl, rfl, fun h => absurd h.increase (by decide)⟩,
    ⟨_, rfl, rfl, fun h => absurd h.increase (by decide)⟩,
    ⟨_, rfl, rfl, fun h => h.numbers (none, 1) (by decide) rfl⟩⟩

/-! ### One blocked call at a time -/

/-- As `InOrder`, but of the answers it is only required that no two calls are blocked at once. -/
def Sequential (s : ObjectVersions) : VersionStep → Prop
  | .acceptContData version => s.isNewer version → s.calls = []
  | .receive _ => True
  | a => s.InOrder a

/-- The leader is not behind any version in use, and an answer on its way is above them. -/
structure Behind (s : ObjectVersions) : Prop where
  single : s.calls.length ≤ 1
  major : ∀ x ∈ s.objectMajorVersionX, x ≤ s.given
  issued : ∀ p ∈ s.issued, ∀ x ∈ p.1, x ≤ s.given
  answers : ∀ answer ∈ s.calls, ∀ version ∈ answer, version ≤ s.given ∧
    (∀ x ∈ s.objectMajorVersionX, x < version) ∧ ∀ p ∈ s.issued, ∀ x ∈ p.1, x < version

theorem behind_start {x : Option Nat} {given : Nat} (hx : ∀ y ∈ x, y ≤ given) :
    (start x given).Behind :=
  ⟨by simp [start], hx, by simp [start], by simp [start]⟩

theorem Behind.inOrder (h : s.Behind) {a : VersionStep} (hsafe : s.Sequential a) :
    s.InOrder a := by
  cases a with
  | receive i =>
      intro answer hanswer version hversion
      exact (h.answers answer (List.mem_of_getElem? hanswer) version hversion).2.2
  | acceptContData version => trivial
  | _ => exact hsafe

theorem Behind.eraseIdx (h : s.Behind) {i : Nat} (hi : i < s.calls.length) :
    s.calls.eraseIdx i = [] := by
  rw [← List.length_eq_zero_iff, List.length_eraseIdx_of_lt hi]
  have hsingle := h.single
  omega

/-- The only call returns with a version that the leader gave, or without one. -/
theorem Behind.returned (h : s.Behind) {i : Nat} (hi : i < s.calls.length) {version : Option Nat}
    (hversion : ∀ x ∈ version, x ≤ s.given) : (s.returned i version).Behind where
  single := by simp [ObjectVersions.returned, h.eraseIdx hi]
  major := hversion
  issued := h.issued
  answers := by simp [ObjectVersions.returned, h.eraseIdx hi]

theorem Behind.head (h : s.Behind) (hstep : s.step .head = some s') : s'.Behind := by
  obtain rfl := Option.some.inj hstep
  refine ⟨h.single, h.major, fun p hp x hx => ?_, fun answer hanswer version hversion => ?_⟩
  · rcases List.mem_append.mp hp with hold | hnew
    · exact h.issued p hold x hx
    · obtain rfl := List.mem_singleton.mp hnew
      exact h.major x hx
  · obtain ⟨hle, hmajor, hissued⟩ := h.answers answer hanswer version hversion
    refine ⟨hle, hmajor, fun p hp x hx => ?_⟩
    rcases List.mem_append.mp hp with hold | hnew
    · exact hissued p hold x hx
    · obtain rfl := List.mem_singleton.mp hnew
      exact hmajor x hx

theorem Behind.answer (h : s.Behind) {i version : Nat}
    (hstep : s.step (.answer i version) = some s') : s'.Behind := by
  simp only [ObjectVersions.step] at hstep
  split at hstep
  · rename_i hgiven
    obtain ⟨-, hgiven⟩ := hgiven
    obtain rfl := Option.some.inj hstep
    refine ⟨by simpa using h.single,
      fun x hx => Nat.le_trans (h.major x hx) (Nat.le_of_lt hgiven),
      fun p hp x hx => Nat.le_trans (h.issued p hp x hx) (Nat.le_of_lt hgiven),
      fun answer hanswer v hv => ?_⟩
    rcases List.mem_or_eq_of_mem_set hanswer with hold | rfl
    · obtain ⟨hle, hothers⟩ := h.answers answer hold v hv
      exact ⟨Nat.le_trans hle (Nat.le_of_lt hgiven), hothers⟩
    · obtain rfl : version = v := Option.some.inj hv
      exact ⟨Nat.le_refl _, fun x hx => Nat.lt_of_le_of_lt (h.major x hx) hgiven,
        fun p hp x hx => Nat.lt_of_le_of_lt (h.issued p hp x hx) hgiven⟩
  · cases hstep

theorem Behind.step (h : s.Behind) {a : VersionStep} (hsafe : s.Sequential a)
    (hstep : s.step a = some s') : s'.Behind := by
  cases a with
  | head => exact h.head hstep
  | answer i version => exact h.answer hstep
  | acceptContData version =>
      simp only [ObjectVersions.step] at hstep
      split at hstep
      · rename_i hnewer
        obtain rfl := Option.some.inj hstep
        have hnone := hsafe hnewer
        refine ⟨by simp [hnone], h.major, h.issued, fun answer hanswer version hversion => ?_⟩
        obtain rfl : answer = none := by simpa [hnone] using hanswer
        cases hversion
      · exact Option.some.inj hstep ▸ h
  | acceptTransData version =>
      simp only [ObjectVersions.step] at hstep
      split at hstep
      · exact Option.some.inj hstep ▸ ⟨h.single, h.major, h.issued, h.answers⟩
      · exact Option.some.inj hstep ▸ h
  | receive i =>
      simp only [ObjectVersions.step] at hstep
      split at hstep
      · rename_i version hcall
        obtain ⟨hi, -⟩ := List.getElem?_eq_some_iff.mp hcall
        refine Option.some.inj hstep ▸ h.returned hi fun x hx => ?_
        exact (h.answers _ (List.mem_of_getElem? hcall) x hx).1
      · cases hstep
  | giveUp i =>
      simp only [ObjectVersions.step] at hstep
      split at hstep
      · rename_i hi
        exact Option.some.inj hstep ▸ h.returned hi (by simp)
      · cases hstep
  | interrupt i =>
      simp only [ObjectVersions.step] at hstep
      split at hstep
      · rename_i hi
        obtain rfl := Option.some.inj hstep
        exact ⟨by simp [h.eraseIdx hi], h.major, h.issued, by simp [h.eraseIdx hi]⟩
      · cases hstep

/-- Where no two calls of the leader overlap, its answers come in order. -/
theorem inOrder_of_sequential {x : Option Nat} {given : Nat} (hx : ∀ y ∈ x, y ≤ given)
    {steps : List VersionStep} (hsteps : Along step Sequential (start x given) steps) :
    Along step InOrder (start x given) steps :=
  along_of_invariant _ (I := Behind) (fun _ _ _ h hsafe hstep => h.step hsafe hstep)
    (fun _ _ h hsafe => h.inOrder hsafe) (behind_start hx) hsteps

end ObjectVersions

end ObjectStorage.Service
