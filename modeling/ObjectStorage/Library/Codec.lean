import Mathlib

/-!
Binary formats as pairs of a writer and a reader. A format made of fields has one description for
both directions, and reads back what it wrote if its fields do.
-/

namespace ObjectStorage.Library

/-- What is written for a value, and how a value is read from the front. -/
structure Codec (α : Type) where
  put : α → List UInt8
  get : List UInt8 → Option (α × List UInt8)

namespace Codec

variable {α β : Type}

/-- The value is read back in front of any bytes. -/
def RoundTrips (c : Codec α) (a : α) : Prop := ∀ rest, c.get (c.put a ++ rest) = some (a, rest)

def Lawful (c : Codec α) : Prop := ∀ a, c.RoundTrips a

/-- Nothing is read of bytes that end within the value. -/
def EndsShort (c : Codec α) (a : α) : Prop :=
  ∀ bs, bs <+: c.put a → bs ≠ c.put a → c.get bs = none

/-- One field after the other. -/
def seq (c : Codec α) (d : Codec β) : Codec (α × β) where
  put x := c.put x.1 ++ d.put x.2
  get bs := (c.get bs).bind fun x => (d.get x.2).map fun y => ((x.1, y.1), y.2)

/-- The same bytes for another type. -/
def imap (c : Codec α) (make : α → β) (fields : β → α) : Codec β where
  put b := c.put (fields b)
  get bs := (c.get bs).map fun x => (make x.1, x.2)

def getMany (c : Codec α) : Nat → List UInt8 → Option (List α × List UInt8)
  | 0, bs => some ([], bs)
  | n + 1, bs => (c.get bs).bind fun x => (getMany c n x.2).map fun y => (x.1 :: y.1, y.2)

/-- The number of items as a signed word, and the items. A negative number is refused. -/
def counted (count : Codec Int32) (item : Codec α) : Codec (List α) where
  put l := count.put (Int32.ofNat l.length) ++ l.flatMap item.put
  get bs := (count.get bs).bind fun x => if x.1 < 0 then none else item.getMany x.1.toInt.toNat x.2

variable {c : Codec α} {d : Codec β} {count : Codec Int32} {l : List α}

theorem RoundTrips.seq {a : α} {b : β} (hc : c.RoundTrips a) (hd : d.RoundTrips b) :
    (c.seq d).RoundTrips (a, b) := by
  intro rest
  simp only [Codec.seq, List.append_assoc]
  rw [hc, Option.bind_some, hd, Option.map_some]

theorem RoundTrips.imap {make : α → β} {fields : β → α} {b : β} (hc : c.RoundTrips (fields b))
    (hmake : make (fields b) = b) : (c.imap make fields).RoundTrips b := by
  intro rest
  simp only [Codec.imap]
  rw [hc, Option.map_some, hmake]

theorem Lawful.seq (hc : c.Lawful) (hd : d.Lawful) : (c.seq d).Lawful :=
  fun x => (hc x.1).seq (hd x.2)

theorem Lawful.imap {make : α → β} {fields : β → α} (hc : c.Lawful)
    (hmake : ∀ b, make (fields b) = b) : (c.imap make fields).Lawful :=
  fun b => (hc (fields b)).imap (hmake b)

theorem RoundTrips.get_put {a : α} (hc : c.RoundTrips a) : c.get (c.put a) = some (a, []) := by
  simpa using hc []

theorem getMany_flatMap (hitem : ∀ a ∈ l, c.RoundTrips a) (rest : List UInt8) :
    c.getMany l.length (l.flatMap c.put ++ rest) = some (l, rest) := by
  induction l with
  | nil => rfl
  | cons a l ih =>
      rw [List.length_cons, getMany, List.flatMap_cons, List.append_assoc,
        hitem a List.mem_cons_self, Option.bind_some,
        ih fun b hb => hitem b (List.mem_cons_of_mem _ hb), Option.map_some]

theorem length_of_getMany {n : Nat} {bs rest : List UInt8}
    (h : c.getMany n bs = some (l, rest)) : l.length = n := by
  induction n generalizing bs l rest with
  | zero =>
      cases h
      rfl
  | succ n ih =>
      obtain ⟨x, _, h⟩ := Option.bind_eq_some_iff.mp h
      obtain ⟨y, hy, hl⟩ := Option.map_eq_some_iff.mp h
      cases hl
      rw [List.length_cons, ih hy]

theorem toInt_ofNat {n : Nat} (h : n < 2 ^ 31) : (Int32.ofNat n).toInt = n :=
  Int32.toInt_ofNat_of_lt h

theorem counted_roundTrips (hcount : count.Lawful) (hitem : ∀ a ∈ l, c.RoundTrips a)
    (hlength : l.length < 2 ^ 31) : (counted count c).RoundTrips l := by
  intro rest
  have htoInt := toInt_ofNat hlength
  have hnot : ¬ Int32.ofNat l.length < 0 := by
    rw [Int32.lt_iff_toInt_lt, htoInt]
    simp
  simp only [counted, List.append_assoc]
  rw [hcount, Option.bind_some, if_neg hnot, htoInt, Int.toNat_natCast, getMany_flatMap hitem]

theorem length_of_counted_get {bs rest : List UInt8}
    (h : (counted count c).get bs = some (l, rest)) : l.length < 2 ^ 31 := by
  obtain ⟨x, _, h⟩ := Option.bind_eq_some_iff.mp h
  split at h
  · cases h
  · have hle := Int32.toInt_le x.1
    have hmax : Int32.maxValue.toInt = 2 ^ 31 - 1 := by decide
    rw [length_of_getMany h]
    omega

theorem seq_get_eq_some {bs rest : List UInt8} {x : α × β} (h : (c.seq d).get bs = some (x, rest)) :
    (∃ rest', c.get bs = some (x.1, rest')) ∧ ∃ bs', d.get bs' = some (x.2, rest) := by
  obtain ⟨y, hy, h⟩ := Option.bind_eq_some_iff.mp h
  obtain ⟨z, hz, h⟩ := Option.map_eq_some_iff.mp h
  cases h
  exact ⟨⟨y.2, hy⟩, y.2, hz⟩

theorem imap_get_eq_some {make : α → β} {fields : β → α} {bs rest : List UInt8} {b : β}
    (h : (c.imap make fields).get bs = some (b, rest)) :
    ∃ a, c.get bs = some (a, rest) ∧ make a = b := by
  obtain ⟨x, hx, h⟩ := Option.map_eq_some_iff.mp h
  cases h
  exact ⟨x.1, hx, rfl⟩

/-- The front of two parts ends within the first or behind it. -/
theorem prefix_append_cases {bs front back : List UInt8} (h : bs <+: front ++ back) :
    (bs <+: front ∧ bs ≠ front) ∨ ∃ body, bs = front ++ body ∧ body <+: back := by
  by_cases hle : front.length ≤ bs.length
  · obtain ⟨body, rfl⟩ := List.prefix_of_prefix_length_le (List.prefix_append front back) h hle
    exact .inr ⟨body, rfl, (List.prefix_append_right_inj front).mp h⟩
  · refine .inl ⟨List.prefix_of_prefix_length_le h (List.prefix_append front back) (by omega), ?_⟩
    rintro rfl
    exact hle le_rfl

theorem EndsShort.seq {a : α} {b : β} (hc : c.EndsShort a) (hround : c.RoundTrips a)
    (hd : d.EndsShort b) : (c.seq d).EndsShort (a, b) := by
  intro bs hfront hne
  simp only [Codec.seq] at hfront hne ⊢
  rcases prefix_append_cases hfront with ⟨hshort, hlt⟩ | ⟨body, rfl, hbody⟩
  · rw [hc bs hshort hlt, Option.bind_none]
  · have hlt : body ≠ d.put b := fun h => hne (h ▸ rfl)
    rw [hround body, Option.bind_some, hd body hbody hlt, Option.map_none]

theorem EndsShort.imap {make : α → β} {fields : β → α} {b : β} (hc : c.EndsShort (fields b)) :
    (c.imap make fields).EndsShort b := by
  intro bs hfront hne
  simp only [Codec.imap]
  rw [hc bs hfront hne, Option.map_none]

end Codec

end ObjectStorage.Library
