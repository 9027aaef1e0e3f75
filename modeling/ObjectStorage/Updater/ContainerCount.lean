import ObjectStorage.Updater.ReaderMap

/-!
When the count of the reader map is the number of names stored in it.
-/

namespace ObjectStorage.Updater.ReaderMap

open Library

/-- A name is in the map and not yet in the count. -/
def Reader.owed : Reader → Nat
  | .increment _ | .incrementing _ _ => 1
  | _ => 0

def Sweeper.removal : Sweeper → Option Removal
  | .removing r | .counted r _ | .decrementing r _ _ => some r
  | _ => none

/-- The length read last, as long as the count has not been lowered by it. -/
def Sweeper.counter : Sweeper → Nat
  | .counted _ counter | .decrementing _ counter _ => counter
  | _ => 0

namespace State

variable (s : State)

def namesAt (component : Component) : Nat :=
  s.readerMap.weightAt (fun _ d => namesUnder (s.dicts d)) component

def namesOfStat (component : Component) (obj : Nat) : Nat :=
  (s.accountsOf component obj).elim 0 fun p => namesOf p.2

/-- The names of the stat object being taken out that are still to be taken off the count. -/
def uncounted : Nat :=
  s.sweeper.counter +
    s.sweeper.removal.elim 0 fun r => (r.accounts.map (s.listLength r.dict r.obj)).sum

/-- The names that the map still has under the stat object being taken out. -/
def underRemoval : Nat :=
  s.sweeper.removal.elim 0 fun r => s.namesOfStat r.task.component r.obj

/-- No thread is between a change of the map and the change of the count that belongs to it. -/
def Settled : Prop := s.reader.owed = 0 ∧ s.sweeper.removal = none

/-- `check_if_container_limit_exceeded` would wait. -/
def Waits : Prop :=
  (∃ component obj, s.reader = .checking component obj) ∧
    maxContainerEntries < s.getContainerCount

/-- The count is the number of names stored, and the reader waits for these only. -/
def CountAgrees : Prop :=
  (s.Settled → s.getContainerCount = s.stored) ∧ (s.Waits → maxContainerEntries < s.stored)

/-- No name under the component is in the count: there is none, or the sweeper has taken off those
of the stat object that it is about to delete. -/
def TakenOff (component : Component) : Prop :=
  (∀ r ∈ s.sweeper.removal, r.task.component = component →
    s.namesAt component = s.namesOfStat component r.obj ∧ s.uncounted = 0) ∧
  ((∀ r ∈ s.sweeper.removal, r.task.component ≠ component) → s.namesAt component = 0)

/-- The list that the record is appended to is not one of a stat object being taken out, or the
sweeper has still to count it. -/
def StillCounted (rec : Record) : Prop :=
  ∀ r ∈ s.sweeper.removal, r.task.component = rec.component → r.obj = rec.statObj →
    ∀ p ∈ s.accountsOf rec.component rec.statObj, rec.account ∈ p.2 →
      p.1 = r.dict ∧ rec.account ∈ r.accounts

/-- A component is given away without names, a name is appended where the sweeper has still to count
it, and the count written is one more than the count there is. -/
def ReaderKeepsCount : Reader → Prop
  | .giving (key :: _) => key ∉ s.ownership → s.TakenOff key
  | .append rec => s.StillCounted rec
  | .incrementing _ loaded => s.count = loaded
  | _ => True

/-- The count is lowered from the count there is, and a component found empty is still empty when it
is removed. -/
def SweeperKeepsCount : Sweeper → Prop
  | .decrementing _ _ loaded => s.count = loaded
  | .popping _ component _ => s.namesAt component = 0
  | _ => True

instance (component : Component) : Decidable (s.TakenOff component) :=
  inferInstanceAs (Decidable (_ ∧ _))

instance (rec : Record) : Decidable (s.StillCounted rec) :=
  inferInstanceAs (Decidable (∀ r ∈ s.sweeper.removal, _ → _ → ∀ p ∈ s.accountsOf _ _, _ → _))

instance : (r : Reader) → Decidable (s.ReaderKeepsCount r)
  | .giving (key :: _) => inferInstanceAs (Decidable (key ∉ s.ownership → s.TakenOff key))
  | .append rec => inferInstanceAs (Decidable (s.StillCounted rec))
  | .incrementing _ loaded => inferInstanceAs (Decidable (s.count = loaded))
  | .top | .giving [] | .entries | .checking _ _ | .reading _ _ | .ensureComponent _
  | .ensureStatObj _ | .ensureAccount _ | .increment _ | .stopped => isTrue trivial

instance : (w : Sweeper) → Decidable (s.SweeperKeepsCount w)
  | .decrementing _ _ loaded => inferInstanceAs (Decidable (s.count = loaded))
  | .popping _ component _ => inferInstanceAs (Decidable (s.namesAt component = 0))
  | .idle | .next _ | .objects _ | .removing _ | .counted _ _ | .components _ _ => isTrue trivial

end State

/-- Steps that keep the count right. -/
def CountKept (s : State) (e : Event) : Prop :=
  (e = .readerStep → s.ReaderKeepsCount s.reader) ∧
    (e = .sweeperStep → s.SweeperKeepsCount s.sweeper)

instance (s : State) (e : Event) : Decidable (CountKept s e) :=
  inferInstanceAs (Decidable (_ ∧ _))

structure Inv (s : State) : Prop where
  dict_inj : ∀ c c' d, s.readerMap.lookup c = some d → s.readerMap.lookup c' = some d → c = c'
  dict_lt : ∀ c d, s.readerMap.lookup c = some d → d < s.nextDict
  removal_lt : ∀ r ∈ s.sweeper.removal, r.dict < s.nextDict
  removal_component : ∀ r ∈ s.sweeper.removal, ∀ c, s.readerMap.lookup c = some r.dict →
    c = r.task.component
  accounts_nodup : ∀ r ∈ s.sweeper.removal, r.accounts.Nodup
  uncounted_le : s.uncounted ≤ s.underRemoval
  balance : s.count + s.reader.owed + s.underRemoval = s.stored + s.uncounted

theorem Inv.countAgrees {s : State} (h : Inv s) : s.CountAgrees := by
  refine ⟨fun hsettled => ?_, fun hwaits => ?_⟩
  · have hbalance := h.balance
    have hle := h.uncounted_le
    have hunder : s.underRemoval = 0 := by rw [State.underRemoval, hsettled.2]; rfl
    rw [hsettled.1] at hbalance
    simp only [State.getContainerCount]
    omega
  · obtain ⟨⟨component, obj, hreader⟩, hlimit⟩ := hwaits
    have howed : s.reader.owed = 0 := by rw [hreader]; rfl
    have hbalance := h.balance
    have hle := h.uncounted_le
    rw [howed] at hbalance
    simp only [State.getContainerCount] at hlimit
    omega

/-- A step that touches neither the map nor the count, and no debt of either thread. -/
theorem Inv.congr {s s' : State} (h : Inv s) (hcount : s'.count = s.count)
    (hmap : s'.readerMap = s.readerMap) (hdicts : s'.dicts = s.dicts)
    (hnext : s'.nextDict = s.nextDict) (howed : s'.reader.owed = s.reader.owed)
    (hremoval : s'.sweeper.removal = s.sweeper.removal)
    (hcounter : s'.sweeper.counter = s.sweeper.counter) : Inv s' := by
  have hlength : s'.listLength = s.listLength := by
    funext d obj account
    simp only [State.listLength, hdicts]
  have huncounted : s'.uncounted = s.uncounted := by
    simp only [State.uncounted, hremoval, hcounter, hlength]
  have hunder : s'.underRemoval = s.underRemoval := by
    simp only [State.underRemoval, State.namesOfStat, State.accountsOf, hremoval, hmap, hdicts]
  have hstored : s'.stored = s.stored := by simp only [State.stored, hmap, hdicts]
  exact
    { dict_inj := by rw [hmap]; exact h.dict_inj
      dict_lt := by rw [hmap, hnext]; exact h.dict_lt
      removal_lt := by rw [hremoval, hnext]; exact h.removal_lt
      removal_component := by rw [hremoval, hmap]; exact h.removal_component
      accounts_nodup := by rw [hremoval]; exact h.accounts_nodup
      uncounted_le := by rw [huncounted, hunder]; exact h.uncounted_le
      balance := by rw [hcount, howed, hunder, hstored, huncounted]; exact h.balance }

theorem start_inv : Inv start where
  dict_inj := by intro c c' d h; simp [start] at h
  dict_lt := by intro c d h; simp [start] at h
  removal_lt := by simp [start, Sweeper.removal]
  removal_component := by simp [start, Sweeper.removal]
  accounts_nodup := by simp [start, Sweeper.removal]
  uncounted_le := by simp [start, State.uncounted, Sweeper.removal, Sweeper.counter]
  balance := by
    simp [start, State.uncounted, State.underRemoval, State.stored, Sweeper.removal,
      Sweeper.counter, Reader.owed]

namespace State

variable {s : State}

theorem accountsOf_eq_some {c : Component} {obj d : Nat} {a : Accounts} :
    s.accountsOf c obj = some (d, a) ↔
      s.readerMap.lookup c = some d ∧ (s.dicts d).lookup obj = some a := by
  simp only [accountsOf, Option.bind_eq_some_iff, Option.map_eq_some_iff, Prod.mk.injEq]
  constructor
  · rintro ⟨d', hd, a', ha, rfl, rfl⟩
    exact ⟨hd, ha⟩
  · rintro ⟨hd, ha⟩
    exact ⟨d, hd, a, ha, rfl, rfl⟩

theorem stored_update (hinv : Inv s) {c : Component} {d : Nat} (hd : s.readerMap.lookup c = some d)
    (dict : StatDict) (s' : State) (hmap : s'.readerMap = s.readerMap)
    (hdicts : s'.dicts = Function.update s.dicts d dict) :
    s'.stored + namesUnder (s.dicts d) = s.stored + namesUnder dict := by
  have hself : namesUnder (s'.dicts d) = namesUnder dict := by rw [hdicts, Function.update_self]
  rw [stored, stored, hmap, ← hself]
  refine FiniteMap.weight_congr_except (fun _ d => namesUnder (s'.dicts d))
    (fun _ d => namesUnder (s.dicts d)) hd fun c' d' hne hd' => ?_
  have hdne : d' ≠ d := by
    rintro rfl
    exact hne (hinv.dict_inj _ _ _ hd' hd)
  rw [hdicts, Function.update_of_ne hdne]

theorem weightAt_names {d obj : Nat} {c : Component} (hd : s.readerMap.lookup c = some d) :
    (s.dicts d).weightAt (fun _ a => namesOf a) obj = s.namesOfStat c obj := by
  simp only [namesOfStat, accountsOf, hd, FiniteMap.weightAt, Option.bind_some]
  cases (s.dicts d).lookup obj <;> rfl

theorem stored_setAccounts (hinv : Inv s) {c : Component} {d : Nat}
    (hd : s.readerMap.lookup c = some d) (obj : Nat) (a : Accounts) :
    (s.setAccounts d obj a).stored + s.namesOfStat c obj = s.stored + namesOf a := by
  have hupdate := stored_update hinv hd ((s.dicts d).insert obj a)
    (s.setAccounts d obj a) rfl rfl
  have hinsert := FiniteMap.weight_insert (fun _ a => namesOf a) (s.dicts d) obj a
  rw [weightAt_names hd] at hinsert
  simp only [namesUnder] at hupdate
  omega

theorem namesOf_eq_namesOfStat {c : Component} {obj d : Nat} {a : Accounts}
    (h : s.accountsOf c obj = some (d, a)) : s.namesOfStat c obj = namesOf a := by
  rw [namesOfStat, h]
  rfl

@[simp] theorem listLength_setAccounts (d obj : Nat) (a : Accounts) (d' obj' : Nat)
    (account : Text) :
    (s.setAccounts d obj a).listLength d' obj' account =
      if d' = d ∧ obj' = obj then a.weightAt (fun _ names => names.length) account
      else s.listLength d' obj' account := by
  by_cases hd : d' = d
  · subst hd
    by_cases hobj : obj' = obj
    · subst hobj
      simp [listLength, setAccounts]
    · simp [listLength, setAccounts, hobj, AList.lookup_insert_ne hobj]
  · simp [listLength, setAccounts, hd]

theorem namesOfStat_setAccounts (hinv : Inv s) {c : Component} {d : Nat}
    (hd : s.readerMap.lookup c = some d) (obj : Nat) (a : Accounts) (c' : Component) (obj' : Nat) :
    (s.setAccounts d obj a).namesOfStat c' obj' =
      if c' = c ∧ obj' = obj then namesOf a else s.namesOfStat c' obj' := by
  have hmap : (s.setAccounts d obj a).readerMap = s.readerMap := rfl
  cases hc' : s.readerMap.lookup c' with
  | none =>
      have hne : c' ≠ c := by
        rintro rfl
        rw [hd] at hc'
        cases hc'
      simp [namesOfStat, accountsOf, hmap, hc', hne]
  | some d' =>
      by_cases hdd : d' = d
      · subst hdd
        obtain rfl := hinv.dict_inj _ _ _ hc' hd
        by_cases hobj : obj' = obj
        · subst hobj
          simp [namesOfStat, accountsOf, hc', setAccounts]
        · simp [namesOfStat, accountsOf, hc', setAccounts, hobj, AList.lookup_insert_ne hobj]
      · have hne : c' ≠ c := by
          rintro rfl
          rw [hd] at hc'
          exact hdd (Option.some.inj hc').symm
        simp [namesOfStat, accountsOf, hc', setAccounts, hne, hdd]

theorem setAccounts_inv (hinv : Inv s) {c : Component} {d obj : Nat} {a : Accounts}
    (hd : s.readerMap.lookup c = some d) (hnames : namesOf a = s.namesOfStat c obj)
    (hlength : ∀ account, a.weightAt (fun _ names => names.length) account =
      s.listLength d obj account) :
    Inv (s.setAccounts d obj a) := by
  have hlist : (s.setAccounts d obj a).listLength = s.listLength := by
    funext d' obj' account
    rw [listLength_setAccounts]
    split
    · rename_i heq
      rw [hlength, heq.1, heq.2]
    · rfl
  have hstat : (s.setAccounts d obj a).namesOfStat = s.namesOfStat := by
    funext c' obj'
    rw [namesOfStat_setAccounts hinv hd]
    split
    · rename_i heq
      rw [hnames, heq.1, heq.2]
    · rfl
  have huncounted : (s.setAccounts d obj a).uncounted = s.uncounted := by
    simp only [uncounted, hlist]
    rfl
  have hunder : (s.setAccounts d obj a).underRemoval = s.underRemoval := by
    simp only [underRemoval, hstat]
    rfl
  have hstored := stored_setAccounts hinv hd obj a
  exact
    { dict_inj := hinv.dict_inj
      dict_lt := hinv.dict_lt
      removal_lt := hinv.removal_lt
      removal_component := hinv.removal_component
      accounts_nodup := hinv.accounts_nodup
      uncounted_le := by rw [huncounted, hunder]; exact hinv.uncounted_le
      balance := by
        have hbalance := hinv.balance
        rw [huncounted, hunder]
        have hsame : (s.setAccounts d obj a).stored = s.stored := by omega
        rw [hsame]
        exact hbalance }

theorem addStatObj_inv (hinv : Inv s) {c : Component} {d obj : Nat}
    (hd : s.readerMap.lookup c = some d) (hobj : obj ∉ s.dicts d) :
    Inv (s.setAccounts d obj ∅) := by
  have hnone : (s.dicts d).lookup obj = none := AList.lookup_eq_none.mpr hobj
  refine setAccounts_inv hinv hd ?_ fun account => ?_
  · simp [namesOfStat, accountsOf, hd, hnone, namesOf]
  · simp [listLength, hnone, FiniteMap.weightAt]

theorem addAccount_inv (hinv : Inv s) {c : Component} {d obj : Nat} {a : Accounts}
    (ha : s.accountsOf c obj = some (d, a)) {account : Text} (haccount : account ∉ a) :
    Inv (s.setAccounts d obj (a.insert account [])) := by
  obtain ⟨hd, hobj⟩ := accountsOf_eq_some.mp ha
  have hnone : a.weightAt (fun _ names => names.length) account = 0 :=
    FiniteMap.weightAt_of_none (AList.lookup_eq_none.mpr haccount)
  refine setAccounts_inv hinv hd ?_ fun account' => ?_
  · have hinsert := FiniteMap.weight_insert (fun _ names => names.length) a account ([] : List Text)
    rw [hnone, List.length_nil] at hinsert
    rw [namesOf_eq_namesOfStat ha, namesOf, namesOf]
    omega
  · rw [listLength, hobj, Option.elim_some]
    by_cases heq : account' = account
    · rw [heq, FiniteMap.weightAt_insert_self, hnone, List.length_nil]
    · rw [FiniteMap.weightAt_insert_ne heq]

theorem namesOf_append {a : Accounts} {account : Text} {names : List Text}
    (h : a.lookup account = some names) (container : Text) :
    namesOf (a.insert account (names ++ [container])) = namesOf a + 1 := by
  have hinsert := FiniteMap.weight_insert (fun _ names => names.length) a account
    (names ++ [container])
  rw [FiniteMap.weightAt_of_lookup h, List.length_append, List.length_singleton] at hinsert
  simp only [namesOf]
  omega

/-- A name appended where the sweeper has still to count it, if it takes the stat object out. -/
theorem append_inv (hinv : Inv s) {rec : Record} (hreader : s.reader = .append rec)
    (hkept : s.StillCounted rec) {d : Nat} {a : Accounts} {names : List Text}
    (ha : s.accountsOf rec.component rec.statObj = some (d, a))
    (hnames : a.lookup rec.account = some names) :
    Inv { s.setAccounts d rec.statObj (a.insert rec.account (names ++ [rec.container])) with
      reader := .increment rec } := by
  obtain ⟨hd, hobj⟩ := accountsOf_eq_some.mp ha
  set a' := a.insert rec.account (names ++ [rec.container]) with ha'
  set t := s.setAccounts d rec.statObj a' with ht
  have hmem : rec.account ∈ a := AList.lookup_isSome.mp (by rw [hnames]; rfl)
  have hone : namesOf a' = namesOf a + 1 := namesOf_append hnames rec.container
  have hstored : t.stored = s.stored + 1 := by
    have h : t.stored + s.namesOfStat rec.component rec.statObj = s.stored + namesOf a' :=
      stored_setAccounts hinv hd rec.statObj a'
    rw [namesOf_eq_namesOfStat ha, hone] at h
    omega
  have howed : s.reader.owed = 0 := by rw [hreader]; rfl
  have hbalance := hinv.balance
  rw [howed] at hbalance
  -- both numbers of the removal grow by one, or none does
  have hboth : t.uncounted + s.underRemoval = s.uncounted + t.underRemoval ∧
      (t.underRemoval = s.underRemoval ∨ t.underRemoval = s.underRemoval + 1) := by
    have hsweeper : t.sweeper = s.sweeper := rfl
    cases hr : s.sweeper.removal with
    | none => simp [uncounted, underRemoval, hsweeper, hr]
    | some r =>
        simp only [uncounted, underRemoval, hsweeper, hr, Option.elim_some]
        by_cases hsame : r.task.component = rec.component ∧ r.obj = rec.statObj
        · obtain ⟨hdict, haccount⟩ := hkept r hr hsame.1 hsame.2 (d, a) ha hmem
          have hlists : (r.accounts.map (t.listLength r.dict r.obj)).sum =
              (r.accounts.map (s.listLength r.dict r.obj)).sum + 1 := by
            refine FiniteMap.sum_map_add_one (hinv.accounts_nodup r hr) haccount ?_ fun b hb => ?_
            · rw [ht, listLength_setAccounts, if_pos ⟨hdict.symm, hsame.2⟩, ha',
                FiniteMap.weightAt_insert_self, listLength, ← hdict, hsame.2, hobj,
                Option.elim_some, FiniteMap.weightAt_of_lookup hnames, List.length_append,
                List.length_singleton]
            · rw [ht, listLength_setAccounts, if_pos ⟨hdict.symm, hsame.2⟩, ha',
                FiniteMap.weightAt_insert_ne hb, listLength, ← hdict, hsame.2, hobj,
                Option.elim_some]
          have hunder : t.namesOfStat r.task.component r.obj =
              s.namesOfStat r.task.component r.obj + 1 := by
            rw [ht, namesOfStat_setAccounts hinv hd, if_pos hsame, hsame.1, hsame.2,
              namesOf_eq_namesOfStat ha, hone]
          omega
        · have hlists : r.accounts.map (t.listLength r.dict r.obj) =
              r.accounts.map (s.listLength r.dict r.obj) := by
            refine List.map_congr_left fun b _ => ?_
            rw [ht, listLength_setAccounts, if_neg]
            rintro ⟨hdict, hobj'⟩
            exact hsame ⟨(hinv.removal_component r hr _ (hdict ▸ hd)).symm, hobj'⟩
          have hunder : t.namesOfStat r.task.component r.obj =
              s.namesOfStat r.task.component r.obj := by
            rw [ht, namesOfStat_setAccounts hinv hd, if_neg hsame]
          rw [hlists, hunder]
          omega
  have hle := hinv.uncounted_le
  exact
    { dict_inj := hinv.dict_inj
      dict_lt := hinv.dict_lt
      removal_lt := hinv.removal_lt
      removal_component := hinv.removal_component
      accounts_nodup := hinv.accounts_nodup
      uncounted_le := show t.uncounted ≤ t.underRemoval by omega
      balance := by
        show s.count + ((1 : Nat) : Int) + t.underRemoval = t.stored + t.uncounted
        omega }

theorem stored_erase (key : Component) {s' : State} (hmap : s'.readerMap = s.readerMap.erase key)
    (hdicts : s'.dicts = s.dicts) : s'.stored + s.namesAt key = s.stored := by
  rw [stored, hmap, hdicts, namesAt, stored]
  exact FiniteMap.weight_erase _ _ _

theorem namesOfStat_erase {key c : Component} {obj : Nat} {s' : State}
    (hmap : s'.readerMap = s.readerMap.erase key) (hdicts : s'.dicts = s.dicts) :
    s'.namesOfStat c obj = if c = key then 0 else s.namesOfStat c obj := by
  by_cases hc : c = key
  · subst hc
    simp [namesOfStat, accountsOf, hmap]
  · simp [namesOfStat, accountsOf, hmap, hdicts, hc, AList.lookup_erase_ne hc]

theorem lookup_of_lookup_erase {key c : Component} {d : Nat}
    (h : (s.readerMap.erase key).lookup c = some d) : s.readerMap.lookup c = some d := by
  by_cases hc : c = key
  · rw [hc, AList.lookup_erase] at h
    cases h
  · rwa [AList.lookup_erase_ne hc] at h

theorem erase_inv (hinv : Inv s) {key : Component} (htaken : s.TakenOff key) {s' : State}
    (hcount : s'.count = s.count) (hmap : s'.readerMap = s.readerMap.erase key)
    (hdicts : s'.dicts = s.dicts) (hnext : s'.nextDict = s.nextDict)
    (howed : s'.reader.owed = s.reader.owed) (hremoval : s'.sweeper.removal = s.sweeper.removal)
    (hcounter : s'.sweeper.counter = s.sweeper.counter) : Inv s' := by
  have hlength : s'.listLength = s.listLength := by
    funext d obj account
    simp only [listLength, hdicts]
  have huncounted : s'.uncounted = s.uncounted := by
    simp only [uncounted, hremoval, hcounter, hlength]
  have hstored := stored_erase key hmap hdicts
  have hbalance := hinv.balance
  have hle := hinv.uncounted_le
  have hnumbers : s'.underRemoval + s.namesAt key = s.underRemoval ∧
      s.uncounted ≤ s'.underRemoval := by
    cases hr : s.sweeper.removal with
    | none =>
        have hzero : s.namesAt key = 0 := htaken.2 (by rw [hr]; simp)
        simp only [underRemoval, hremoval, hr, Option.elim_none] at hle ⊢
        omega
    | some r =>
        simp only [underRemoval, hremoval, hr, Option.elim_some, namesOfStat_erase hmap hdicts]
          at hle ⊢
        by_cases hkey : r.task.component = key
        · obtain ⟨hall, hzero⟩ := htaken.1 r hr hkey
          rw [if_pos hkey, hkey]
          omega
        · have hzero : s.namesAt key = 0 := by
            refine htaken.2 fun r' hr' => ?_
            rw [hr] at hr'
            exact Option.some.inj hr' ▸ hkey
          rw [if_neg hkey]
          omega
  exact
    { dict_inj := fun c c' d hc hc' => by
        rw [hmap] at hc hc'
        exact hinv.dict_inj c c' d (lookup_of_lookup_erase hc) (lookup_of_lookup_erase hc')
      dict_lt := fun c d hc => by
        rw [hmap] at hc
        rw [hnext]
        exact hinv.dict_lt c d (lookup_of_lookup_erase hc)
      removal_lt := by rw [hremoval, hnext]; exact hinv.removal_lt
      removal_component := fun r hr c hc => by
        rw [hmap] at hc
        rw [hremoval] at hr
        exact hinv.removal_component r hr c (lookup_of_lookup_erase hc)
      accounts_nodup := by rw [hremoval]; exact hinv.accounts_nodup
      uncounted_le := by omega
      balance := by
        rw [hcount, howed, huncounted]
        omega }

theorem addComponent_inv (hinv : Inv s) {c : Component} (hc : c ∉ s.readerMap) {s' : State}
    (hcount : s'.count = s.count) (hmap : s'.readerMap = s.readerMap.insert c s.nextDict)
    (hdicts : s'.dicts = Function.update s.dicts s.nextDict ∅)
    (hnext : s'.nextDict = s.nextDict + 1) (howed : s'.reader.owed = s.reader.owed)
    (hsweeper : s'.sweeper = s.sweeper) : Inv s' := by
  have hnone : s.readerMap.lookup c = none := AList.lookup_eq_none.mpr hc
  have hlookup : ∀ c' d, s'.readerMap.lookup c' = some d →
      (c' = c ∧ d = s.nextDict) ∨ (c' ≠ c ∧ s.readerMap.lookup c' = some d) := by
    intro c' d h
    rw [hmap] at h
    by_cases heq : c' = c
    · rw [heq, AList.lookup_insert] at h
      exact .inl ⟨heq, (Option.some.inj h).symm⟩
    · rw [AList.lookup_insert_ne heq] at h
      exact .inr ⟨heq, h⟩
  have hold : ∀ d, d < s.nextDict → s'.dicts d = s.dicts d := by
    intro d hd
    rw [hdicts, Function.update_of_ne (by omega)]
  have hstat : ∀ c' obj, s'.namesOfStat c' obj = s.namesOfStat c' obj := by
    intro c' obj
    by_cases heq : c' = c
    · subst heq
      simp [namesOfStat, accountsOf, hmap, hnone, hdicts]
    · cases hl : s.readerMap.lookup c' with
      | none => simp [namesOfStat, accountsOf, hmap, hl, AList.lookup_insert_ne heq]
      | some d =>
          simp [namesOfStat, accountsOf, hmap, hl, AList.lookup_insert_ne heq,
            hold d (hinv.dict_lt c' d hl)]
  have hunder : s'.underRemoval = s.underRemoval := by
    simp only [underRemoval, hsweeper, hstat]
  have huncounted : s'.uncounted = s.uncounted := by
    simp only [uncounted, hsweeper]
    cases hr : s.sweeper.removal with
    | none => rfl
    | some r =>
        have hlength : s'.listLength r.dict r.obj = s.listLength r.dict r.obj := by
          funext account
          rw [listLength, hold _ (hinv.removal_lt r hr), listLength]
        simp only [Option.elim_some, hlength]
  have hstored : s'.stored = s.stored := by
    have hinsert := FiniteMap.weight_insert (fun _ d => namesUnder (s'.dicts d)) s.readerMap c
      s.nextDict
    rw [FiniteMap.weightAt_of_none hnone] at hinsert
    have hempty : namesUnder (s'.dicts s.nextDict) = 0 := by
      rw [hdicts, Function.update_self]
      rfl
    have hrest : s.readerMap.weight (fun _ d => namesUnder (s'.dicts d)) = s.stored :=
      FiniteMap.weight_congr fun c' d hd => by rw [hold d (hinv.dict_lt c' d hd)]
    rw [stored, hmap]
    omega
  exact
    { dict_inj := fun c₁ c₂ d h₁ h₂ => by
        rcases hlookup c₁ d h₁ with ⟨rfl, rfl⟩ | ⟨-, hl₁⟩ <;>
          rcases hlookup c₂ _ h₂ with ⟨rfl, h⟩ | ⟨-, hl₂⟩
        · rfl
        · exact absurd (hinv.dict_lt c₂ _ hl₂) (Nat.lt_irrefl _)
        · exact absurd (h ▸ hinv.dict_lt c₁ _ hl₁) (Nat.lt_irrefl _)
        · exact hinv.dict_inj c₁ c₂ d hl₁ hl₂
      dict_lt := fun c' d h => by
        rw [hnext]
        rcases hlookup c' d h with ⟨-, rfl⟩ | ⟨-, hl⟩
        · exact Nat.lt_succ_self _
        · exact Nat.lt_succ_of_lt (hinv.dict_lt c' d hl)
      removal_lt := fun r hr => by
        rw [hsweeper] at hr
        rw [hnext]
        exact Nat.lt_succ_of_lt (hinv.removal_lt r hr)
      removal_component := fun r hr c' h => by
        rw [hsweeper] at hr
        rcases hlookup c' _ h with ⟨-, heq⟩ | ⟨-, hl⟩
        · exact absurd (hinv.removal_lt r hr) (by omega)
        · exact hinv.removal_component r hr c' hl
      accounts_nodup := by rw [hsweeper]; exact hinv.accounts_nodup
      uncounted_le := by rw [huncounted, hunder]; exact hinv.uncounted_le
      balance := by rw [hcount, howed, hunder, hstored, huncounted]; exact hinv.balance }

/-- The stat object whose accounts the sweeper takes as a list. -/
theorem startRemoval_inv (hinv : Inv s) (hnone : s.sweeper.removal = none)
    (hcounter : s.sweeper.counter = 0) {r : Removal} {a : Accounts}
    (ha : s.accountsOf r.task.component r.obj = some (r.dict, a))
    (hperm : r.accounts.Perm a.keys) : Inv { s with sweeper := .removing r } := by
  obtain ⟨hd, hobj⟩ := accountsOf_eq_some.mp ha
  have hlength : s.listLength r.dict r.obj = a.weightAt (fun _ names => names.length) := by
    funext account
    rw [listLength, hobj]
    rfl
  have huncounted : ({ s with sweeper := .removing r } : State).uncounted = namesOf a := by
    show 0 + (r.accounts.map (s.listLength r.dict r.obj)).sum = namesOf a
    rw [hlength, FiniteMap.sum_weightAt_of_perm hperm, Nat.zero_add]
    rfl
  have hunder : ({ s with sweeper := .removing r } : State).underRemoval = namesOf a :=
    namesOf_eq_namesOfStat ha
  have hbalance := hinv.balance
  have hzero : s.underRemoval = 0 := by rw [underRemoval, hnone]; rfl
  have hzero' : s.uncounted = 0 := by rw [uncounted, hnone, hcounter]; rfl
  exact
    { dict_inj := hinv.dict_inj
      dict_lt := hinv.dict_lt
      removal_lt := fun r' hr' => Option.some.inj hr' ▸ hinv.dict_lt _ _ hd
      removal_component := fun r' hr' c hc => by
        obtain rfl := Option.some.inj hr'
        exact hinv.dict_inj _ _ _ hc hd
      accounts_nodup := fun r' hr' =>
        Option.some.inj hr' ▸ hperm.nodup_iff.mpr (AList.keys_nodup a)
      uncounted_le := by rw [huncounted, hunder]
      balance := by
        rw [huncounted, hunder]
        show s.count + s.reader.owed + namesOf a = s.stored + namesOf a
        omega }

theorem uncounted_removing {r : Removal} (h : s.sweeper = .removing r) :
    s.uncounted = (r.accounts.map (s.listLength r.dict r.obj)).sum := by
  rw [uncounted, h]
  exact Nat.zero_add _

theorem underRemoval_removing {r : Removal} (h : s.sweeper = .removing r) :
    s.underRemoval = s.namesOfStat r.task.component r.obj := by
  rw [underRemoval, h]
  rfl

theorem count_inv (hinv : Inv s) {r : Removal} {account : Text} {accounts : List Text}
    (h : s.sweeper = .removing r) (haccounts : r.accounts = account :: accounts) :
    Inv { s with
      sweeper := .counted { r with accounts := accounts }
        (s.listLength r.dict r.obj account) } := by
  have hremoval : r ∈ s.sweeper.removal := by rw [h]; rfl
  have huncounted : s.listLength r.dict r.obj account +
      (accounts.map (s.listLength r.dict r.obj)).sum = s.uncounted := by
    rw [uncounted_removing h, haccounts, List.map_cons, List.sum_cons]
  have hunder := underRemoval_removing h
  have hle := hinv.uncounted_le
  have hbalance := hinv.balance
  exact
    { dict_inj := hinv.dict_inj
      dict_lt := hinv.dict_lt
      removal_lt := fun r' hr' => by
        obtain rfl := Option.some.inj hr'
        exact hinv.removal_lt r hremoval
      removal_component := fun r' hr' => by
        obtain rfl := Option.some.inj hr'
        exact hinv.removal_component r hremoval
      accounts_nodup := fun r' hr' => by
        obtain rfl := Option.some.inj hr'
        have hnodup := hinv.accounts_nodup r hremoval
        rw [haccounts] at hnodup
        exact hnodup.of_cons
      uncounted_le := by
        show s.listLength r.dict r.obj account + (accounts.map (s.listLength r.dict r.obj)).sum ≤
          s.namesOfStat r.task.component r.obj
        omega
      balance := by
        show s.count + s.reader.owed + s.namesOfStat r.task.component r.obj =
          s.stored + ((s.listLength r.dict r.obj account +
            (accounts.map (s.listLength r.dict r.obj)).sum : Nat) : Int)
        omega }

/-- The count is lowered by the length read last, if it is still the one that was read. -/
theorem decrement_inv (hinv : Inv s) {r : Removal} {counter : Nat} {loaded : Int}
    (h : s.sweeper = .decrementing r counter loaded) (hloaded : s.count = loaded) :
    Inv { s with count := loaded - counter, sweeper := .removing r } := by
  have hremoval : r ∈ s.sweeper.removal := by rw [h]; rfl
  have huncounted : s.uncounted =
      counter + (r.accounts.map (s.listLength r.dict r.obj)).sum := by
    rw [uncounted, h]
    rfl
  have hunder : s.underRemoval = s.namesOfStat r.task.component r.obj := by
    rw [underRemoval, h]
    rfl
  have hle := hinv.uncounted_le
  have hbalance := hinv.balance
  exact
    { dict_inj := hinv.dict_inj
      dict_lt := hinv.dict_lt
      removal_lt := fun r' hr' => by
        obtain rfl := Option.some.inj hr'
        exact hinv.removal_lt _ hremoval
      removal_component := fun r' hr' => by
        obtain rfl := Option.some.inj hr'
        exact hinv.removal_component _ hremoval
      accounts_nodup := fun r' hr' => by
        obtain rfl := Option.some.inj hr'
        exact hinv.accounts_nodup _ hremoval
      uncounted_le := by
        show 0 + (r.accounts.map (s.listLength r.dict r.obj)).sum ≤
          s.namesOfStat r.task.component r.obj
        omega
      balance := by
        show loaded - counter + s.reader.owed + s.namesOfStat r.task.component r.obj =
          s.stored + ((0 + (r.accounts.map (s.listLength r.dict r.obj)).sum : Nat) : Int)
        omega }

/-- With nothing left to count, the removal may end without its deletion only where the map does
not have the stat object. -/
theorem endRemoval_inv (hinv : Inv s) {r : Removal} (h : s.sweeper = .removing r)
    (haccounts : r.accounts = []) {s' : State} (hcount : s'.count = s.count)
    (hmap : s'.readerMap = s.readerMap) (hnext : s'.nextDict = s.nextDict)
    (hreader : s'.reader = s.reader) (hremoval : s'.sweeper.removal = none)
    (hcounter : s'.sweeper.counter = 0)
    (hstored : s'.stored + s.namesOfStat r.task.component r.obj = s.stored) : Inv s' := by
  have hzero : s.uncounted = 0 := by rw [uncounted_removing h, haccounts]; rfl
  have hunder := underRemoval_removing h
  have hzero' : s'.uncounted = 0 := by rw [uncounted, hremoval, hcounter]; rfl
  have hunder' : s'.underRemoval = 0 := by rw [underRemoval, hremoval]; rfl
  have hbalance := hinv.balance
  exact
    { dict_inj := by rw [hmap]; exact hinv.dict_inj
      dict_lt := by rw [hmap, hnext]; exact hinv.dict_lt
      removal_lt := by rw [hremoval]; simp
      removal_component := by rw [hremoval]; simp
      accounts_nodup := by rw [hremoval]; simp
      uncounted_le := by omega
      balance := by
        rw [hcount, hreader, hzero', hunder']
        omega }

end State

theorem Inv.moveSweeper {s : State} (h : Inv s) (hnone : s.sweeper.removal = none)
    (hcounter : s.sweeper.counter = 0) {sweeper : Sweeper} (hnone' : sweeper.removal = none)
    (hcounter' : sweeper.counter = 0) (list : List (Component × Text)) :
    Inv { s with sweeperList := list, sweeper := sweeper } :=
  h.congr rfl rfl rfl rfl rfl (hnone'.trans hnone.symm) (hcounter'.trans hcounter.symm)

theorem readerStep_inv {s s' : State} (hinv : Inv s) (hkept : s.ReaderKeepsCount s.reader)
    (hs' : s.readerStep = some s') : Inv s' := by
  unfold State.readerStep at hs'
  cases hreader : s.reader with
  | top => simp [hreader] at hs'
  | entries => simp [hreader] at hs'
  | reading _ _ => simp [hreader] at hs'
  | stopped => simp [hreader] at hs'
  | giving keys =>
      cases keys with
      | nil =>
          simp only [hreader, Option.some.injEq] at hs'
          subst hs'
          exact hinv.congr rfl rfl rfl rfl (by rw [hreader]; rfl) rfl rfl
      | cons key keys =>
          simp only [hreader] at hs'
          rw [hreader] at hkept
          split at hs'
          · obtain rfl := Option.some.inj hs'
            exact hinv.congr rfl rfl rfl rfl (by rw [hreader]; rfl) rfl rfl
          · rename_i howned
            split at hs'
            · obtain rfl := Option.some.inj hs'
              exact State.erase_inv hinv (hkept howned) rfl rfl rfl rfl (by rw [hreader]; rfl) rfl
                rfl
            · obtain rfl := Option.some.inj hs'
              exact hinv.congr rfl rfl rfl rfl (by rw [hreader]; rfl) rfl rfl
  | checking c obj =>
      simp only [hreader] at hs'
      split at hs' <;> obtain rfl := Option.some.inj hs'
      · exact hinv
      · exact hinv.congr rfl rfl rfl rfl (by rw [hreader]; rfl) rfl rfl
  | ensureComponent rec =>
      simp only [hreader] at hs'
      split at hs' <;> obtain rfl := Option.some.inj hs'
      · exact hinv.congr rfl rfl rfl rfl (by rw [hreader]; rfl) rfl rfl
      · rename_i hnot
        exact State.addComponent_inv hinv hnot rfl rfl rfl rfl (by rw [hreader]; rfl) rfl
  | ensureStatObj rec =>
      simp only [hreader] at hs'
      split at hs'
      · obtain rfl := Option.some.inj hs'
        exact hinv.congr rfl rfl rfl rfl (by rw [hreader]; rfl) rfl rfl
      · rename_i d hd
        split at hs' <;> obtain rfl := Option.some.inj hs'
        · exact hinv.congr rfl rfl rfl rfl (by rw [hreader]; rfl) rfl rfl
        · rename_i hnot
          exact (State.addStatObj_inv hinv hd hnot).congr rfl rfl rfl rfl
            (by show _ = s.reader.owed; rw [hreader]; rfl) rfl rfl
  | ensureAccount rec =>
      simp only [hreader] at hs'
      split at hs'
      · obtain rfl := Option.some.inj hs'
        exact hinv.congr rfl rfl rfl rfl (by rw [hreader]; rfl) rfl rfl
      · rename_i d a ha
        split at hs' <;> obtain rfl := Option.some.inj hs'
        · exact hinv.congr rfl rfl rfl rfl (by rw [hreader]; rfl) rfl rfl
        · rename_i hnot
          exact (State.addAccount_inv hinv ha hnot).congr rfl rfl rfl rfl
            (by show _ = s.reader.owed; rw [hreader]; rfl) rfl rfl
  | append rec =>
      simp only [hreader] at hs'
      rw [hreader] at hkept
      split at hs'
      · obtain rfl := Option.some.inj hs'
        exact hinv.congr rfl rfl rfl rfl (by rw [hreader]; rfl) rfl rfl
      · rename_i d a ha
        split at hs' <;> obtain rfl := Option.some.inj hs'
        · exact hinv.congr rfl rfl rfl rfl (by rw [hreader]; rfl) rfl rfl
        · rename_i names hnames
          exact State.append_inv hinv hreader hkept ha hnames
  | increment rec =>
      simp only [hreader, Option.some.injEq] at hs'
      subst hs'
      exact hinv.congr rfl rfl rfl rfl (by rw [hreader]; rfl) rfl rfl
  | incrementing rec loaded =>
      simp only [hreader, Option.some.injEq] at hs'
      rw [hreader] at hkept
      subst hs'
      have hloaded : s.count = loaded := hkept
      have hbalance := hinv.balance
      have howed : s.reader.owed = 1 := by rw [hreader]; rfl
      exact
        { dict_inj := hinv.dict_inj
          dict_lt := hinv.dict_lt
          removal_lt := hinv.removal_lt
          removal_component := hinv.removal_component
          accounts_nodup := hinv.accounts_nodup
          uncounted_le := hinv.uncounted_le
          balance := by
            show loaded + 1 + ((0 : Nat) : Int) + s.underRemoval = s.stored + s.uncounted
            omega }

theorem sweeperStep_inv {s s' : State} (hinv : Inv s) (hkept : s.SweeperKeepsCount s.sweeper)
    (hs' : s.sweeperStep = some s') : Inv s' := by
  unfold State.sweeperStep at hs'
  cases hsweeper : s.sweeper with
  | idle => simp [hsweeper] at hs'
  | objects _ => simp [hsweeper] at hs'
  | next index =>
      simp only [hsweeper] at hs'
      split at hs'
      · obtain rfl := Option.some.inj hs'
        exact hinv.moveSweeper (by rw [hsweeper]; rfl) (by rw [hsweeper]; rfl) rfl rfl _
      · cases hs'
  | removing r =>
      simp only [hsweeper] at hs'
      split at hs'
      · rename_i account accounts haccounts
        obtain rfl := Option.some.inj hs'
        exact State.count_inv hinv hsweeper haccounts
      · rename_i haccounts
        split at hs'
        · rename_i hnone
          obtain rfl := Option.some.inj hs'
          refine State.endRemoval_inv hinv hsweeper haccounts rfl rfl rfl rfl rfl rfl ?_
          simp [State.namesOfStat, State.accountsOf, hnone]
          rfl
        · rename_i d hd
          have hweight := FiniteMap.weight_erase (fun _ a => namesOf a) (s.dicts d) r.obj
          rw [State.weightAt_names hd] at hweight
          split at hs' <;> obtain rfl := Option.some.inj hs'
          · refine State.endRemoval_inv hinv hsweeper haccounts rfl rfl rfl rfl rfl rfl ?_
            have hupdate := State.stored_update hinv hd ((s.dicts d).erase r.obj)
              { s with
                dicts := Function.update s.dicts d ((s.dicts d).erase r.obj)
                sweeper := .objects r.task } rfl rfl
            simp only [namesUnder] at hupdate
            omega
          · rename_i hnot
            refine State.endRemoval_inv hinv hsweeper haccounts rfl rfl rfl rfl rfl rfl ?_
            have hnone : (s.dicts d).lookup r.obj = none := AList.lookup_eq_none.mpr hnot
            simp [State.namesOfStat, State.accountsOf, hd, hnone]
            rfl
  | counted r counter =>
      simp only [hsweeper, Option.some.injEq] at hs'
      subst hs'
      exact hinv.congr rfl rfl rfl rfl rfl (by rw [hsweeper]; rfl) (by rw [hsweeper]; rfl)
  | decrementing r counter loaded =>
      simp only [hsweeper, Option.some.injEq] at hs'
      rw [hsweeper] at hkept
      subst hs'
      exact State.decrement_inv hinv hsweeper hkept
  | components index items =>
      cases items with
      | nil =>
          simp only [hsweeper, Option.some.injEq] at hs'
          subst hs'
          exact hinv.moveSweeper (by rw [hsweeper]; rfl) (by rw [hsweeper]; rfl) rfl rfl _
      | cons item items =>
          simp only [hsweeper] at hs'
          split at hs' <;> obtain rfl := Option.some.inj hs' <;>
            exact hinv.moveSweeper (by rw [hsweeper]; rfl) (by rw [hsweeper]; rfl) rfl rfl _
  | popping index c items =>
      simp only [hsweeper] at hs'
      rw [hsweeper] at hkept
      split at hs' <;> obtain rfl := Option.some.inj hs'
      · have htaken : s.TakenOff c := by
          refine ⟨fun r hr => ?_, fun _ => hkept⟩
          rw [hsweeper] at hr
          cases hr
        exact State.erase_inv hinv htaken rfl rfl rfl rfl rfl (by rw [hsweeper]; rfl)
          (by rw [hsweeper]; rfl)
      · exact hinv.moveSweeper (by rw [hsweeper]; rfl) (by rw [hsweeper]; rfl) rfl rfl _

theorem sweeperTake_inv {s s' : State} (hinv : Inv s) {objs : List Nat}
    (hs' : s.sweeperTake objs = some s') : Inv s' := by
  unfold State.sweeperTake at hs'
  cases hsweeper : s.sweeper <;> simp only [hsweeper, reduceCtorEq] at hs'
  obtain ⟨entry, -, hs'⟩ := Option.bind_eq_some_iff.mp hs'
  split at hs' <;> split at hs' <;> cases hs' <;>
    exact hinv.moveSweeper (by rw [hsweeper]; rfl) (by rw [hsweeper]; rfl) rfl rfl _

theorem sweeperObject_inv {s s' : State} (hinv : Inv s) {accounts : List Text}
    (hs' : s.sweeperObject accounts = some s') : Inv s' := by
  unfold State.sweeperObject at hs'
  split at hs'
  · rename_i index c statFile obj objs hsweeper
    have hnone : s.sweeper.removal = none := by rw [hsweeper]; rfl
    have hcounter : s.sweeper.counter = 0 := by rw [hsweeper]; rfl
    split at hs'
    · split at hs'
      · obtain rfl := Option.some.inj hs'
        exact hinv.moveSweeper hnone hcounter rfl rfl _
      · rename_i d a ha
        split at hs' <;> cases hs'
        rename_i hperm
        exact State.startRemoval_inv hinv hnone hcounter
          (r := ⟨⟨index, c, statFile, objs⟩, obj, d, accounts⟩) ha hperm
    · obtain rfl := Option.some.inj hs'
      exact hinv.moveSweeper hnone hcounter rfl rfl _
  · cases hs'

theorem sweeperComponents_inv {s s' : State} (hinv : Inv s) {items : List (Component × Nat)}
    (hs' : s.sweeperComponents items = some s') : Inv s' := by
  unfold State.sweeperComponents at hs'
  split at hs'
  · rename_i index c statFile hsweeper
    split at hs' <;> cases hs'
    exact hinv.moveSweeper (by rw [hsweeper]; rfl) (by rw [hsweeper]; rfl) rfl rfl _
  · cases hs'

theorem Inv.moveReader {s s' : State} (h : Inv s) (howed : s.reader.owed = 0)
    (howed' : s'.reader.owed = 0) (hcount : s'.count = s.count)
    (hmap : s'.readerMap = s.readerMap) (hdicts : s'.dicts = s.dicts)
    (hnext : s'.nextDict = s.nextDict) (hsweeper : s'.sweeper = s.sweeper) : Inv s' :=
  h.congr hcount hmap hdicts hnext (howed'.trans howed.symm) (by rw [hsweeper]) (by rw [hsweeper])

theorem step_inv {s s' : State} {e : Event} (hinv : Inv s) (hkept : CountKept s e)
    (hs' : step s e = some s') : Inv s' := by
  cases e with
  | setOwnership ownership =>
      obtain rfl := Option.some.inj hs'
      exact hinv.congr rfl rfl rfl rfl rfl rfl rfl
  | setTransferEvent value =>
      obtain rfl := Option.some.inj hs'
      exact hinv.congr rfl rfl rfl rfl rfl rfl rfl
  | createSweeperList entry =>
      obtain rfl := Option.some.inj hs'
      exact hinv.congr rfl rfl rfl rfl rfl rfl rfl
  | readerCompleteAll =>
      simp only [step] at hs'
      split at hs' <;> cases hs'
      rename_i hreader
      exact hinv.moveReader (by rw [hreader]; rfl) rfl rfl rfl rfl rfl rfl
  | readerGetNewOwnership keys =>
      simp only [step] at hs'
      split at hs'
      · rename_i hreader
        have howed : s.reader.owed = 0 := by rw [hreader]; rfl
        split at hs'
        · split at hs' <;> cases hs'
          exact hinv.moveReader howed rfl rfl rfl rfl rfl rfl
        · cases hs'
          exact hinv.moveReader howed rfl rfl rfl rfl rfl rfl
      · cases hs'
  | readerOpen c statFile =>
      simp only [step] at hs'
      split at hs' <;> cases hs'
      rename_i hreader
      exact hinv.moveReader (by rw [hreader]; rfl) rfl rfl rfl rfl rfl rfl
  | readerRecord account container =>
      simp only [step] at hs'
      split at hs' <;> cases hs'
      rename_i hreader
      exact hinv.moveReader (by rw [hreader]; rfl) rfl rfl rfl rfl rfl rfl
  | readerEndFile =>
      simp only [step] at hs'
      split at hs' <;> cases hs'
      rename_i hreader
      exact hinv.moveReader (by rw [hreader]; rfl) rfl rfl rfl rfl rfl rfl
  | readerEndEntries =>
      simp only [step] at hs'
      split at hs' <;> cases hs'
      rename_i hreader
      exact hinv.moveReader (by rw [hreader]; rfl) rfl rfl rfl rfl rfl rfl
  | readerFails =>
      simp only [step] at hs'
      split at hs' <;> cases hs' <;> rename_i hreader <;>
        exact hinv.moveReader (by rw [hreader]; rfl) rfl rfl rfl rfl rfl rfl
  | readerStep => exact readerStep_inv hinv (hkept.1 rfl) hs'
  | sweeperStart =>
      simp only [step] at hs'
      split at hs' <;> cases hs'
      rename_i hsweeper
      exact hinv.moveSweeper (by rw [hsweeper]; rfl) (by rw [hsweeper]; rfl) rfl rfl _
  | sweeperTake objs => exact sweeperTake_inv hinv hs'
  | sweeperObject accounts => exact sweeperObject_inv hinv hs'
  | sweeperComponents items => exact sweeperComponents_inv hinv hs'
  | sweeperStep => exact sweeperStep_inv hinv (hkept.2 rfl) hs'
  | sweeperFails =>
      simp only [step] at hs'
      split at hs' <;> cases hs' <;> rename_i hsweeper <;>
        exact hinv.moveSweeper (by rw [hsweeper]; rfl) (by rw [hsweeper]; rfl) rfl rfl _

/-- One name is read from the stat file `f` of component 1. -/
def reads : List Event :=
  [.readerGetNewOwnership [], .readerOpen 1 ['f'], .readerStep, .readerRecord ['a'] ['c'],
    .readerStep, .readerStep, .readerStep, .readerStep, .readerStep, .readerStep, .readerEndFile,
    .readerEndEntries]

/-- The file read is swept. -/
def sweeps : List Event :=
  [.createSweeperList (1, ['f']), .sweeperStart, .sweeperTake [0], .sweeperObject [['a']],
    .sweeperStep, .sweeperStep, .sweeperStep, .sweeperStep, .sweeperComponents [(1, 0)],
    .sweeperStep, .sweeperStep, .sweeperStep, .sweeperStep]

/-- The components `keys` of the map are given away. -/
def gives (keys : List Component) : List Event :=
  [.setTransferEvent true, .readerGetNewOwnership keys, .readerStep]

/-- As long as every step keeps the count, it is the number of names stored. -/
theorem count_agrees {events : List Event} {s : State} (hkept : Along step CountKept start events)
    (hrun : run step start events = some s) : s.CountAgrees :=
  (run_along_preserves step (fun _ _ _ hinv hkept hs' => step_inv hinv hkept hs') start_inv hkept
    hrun).countAgrees

theorem count_agrees_sweeps :
    ∃ s, run step start (reads ++ sweeps ++ gives []) = some s ∧ s.CountAgrees := by
  obtain ⟨s, hrun⟩ := Option.isSome_iff_exists.mp
    (by decide : (run step start (reads ++ sweeps ++ gives [])).isSome = true)
  exact ⟨s, hrun, count_agrees (by decide) hrun⟩

/-- The name stays in the count when its component is given away. -/
theorem given_names_stay_counted :
    ¬ ∀ events s, run step start events = some s → s.CountAgrees := by
  intro hall
  have hfinal : (run step start (reads ++ gives [1])).any (fun s =>
      s.reader.owed = 0 ∧ s.sweeper.removal = none ∧ s.count = 1 ∧ s.stored = 0) = true := by
    decide
  obtain ⟨s, hrun, hs⟩ := (Option.any_eq_true _ _).mp hfinal
  obtain ⟨howed, hremoval, hcount, hstored⟩ := of_decide_eq_true hs
  have hagrees := (hall _ s hrun).1 ⟨howed, hremoval⟩
  rw [State.getContainerCount, hcount, hstored] at hagrees
  cases hagrees

end ObjectStorage.Updater.ReaderMap
