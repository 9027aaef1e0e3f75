import Mathlib

/-!
Items handed out greedily to destinations with limited room: the items of one source after the
other, each to the first destination that has room left.
-/

namespace ObjectStorage.Library

section

variable {α δ σ : Type}

/-- Which items moved where, which are left, and the room that is left. -/
structure Filling (α δ : Type) where
  moved : List (α × δ)
  left : List α
  rooms : List (δ × Nat)

def fill (items : List α) : List (δ × Nat) → Filling α δ
  | [] => ⟨[], items, []⟩
  | (d, room) :: rooms =>
      let rest := fill (items.drop room) rooms
      ⟨(items.take room).map (·, d) ++ rest.moved, rest.left,
        (d, room - items.length) :: rest.rooms⟩

def totalRoom (rooms : List (δ × Nat)) : Nat := (rooms.map (·.2)).sum

@[simp] theorem totalRoom_nil : totalRoom ([] : List (δ × Nat)) = 0 := rfl

@[simp] theorem totalRoom_cons (d : δ) (room : Nat) (rooms : List (δ × Nat)) :
    totalRoom ((d, room) :: rooms) = room + totalRoom rooms := rfl

theorem fill_moved (items : List α) (rooms : List (δ × Nat)) :
    (fill items rooms).moved.map (·.1) = items.take (totalRoom rooms) := by
  induction rooms generalizing items with
  | nil => simp [fill]
  | cons r rooms ih =>
      obtain ⟨d, room⟩ := r
      simp only [fill, List.map_append, List.map_map, totalRoom_cons]
      rw [ih, List.take_add]
      simp [Function.comp_def]

theorem totalRoom_fill (items : List α) (rooms : List (δ × Nat)) :
    totalRoom (fill items rooms).rooms = totalRoom rooms - items.length := by
  induction rooms generalizing items with
  | nil => simp [fill]
  | cons r rooms ih =>
      obtain ⟨d, room⟩ := r
      simp only [fill, totalRoom_cons, ih, List.length_drop]
      omega

@[simp] theorem fill_nil (rooms : List (δ × Nat)) :
    fill ([] : List α) rooms = ⟨[], [], rooms⟩ := by
  induction rooms with
  | nil => rfl
  | cons r rooms ih => simp [fill, ih]

/-- The sources one after the other, each with the room that those before it have left. -/
def fillAll : List (σ × List α) → List (δ × Nat) → List (σ × List (α × δ)) × List (δ × Nat)
  | [], rooms => ([], rooms)
  | (s, items) :: sources, rooms =>
      let filling := fill items rooms
      let rest := fillAll sources filling.rooms
      ((s, filling.moved) :: rest.1, rest.2)

def totalItems (sources : List (σ × List α)) : Nat := (sources.map fun s => s.2.length).sum

@[simp] theorem totalItems_cons (s : σ) (items : List α) (sources : List (σ × List α)) :
    totalItems ((s, items) :: sources) = items.length + totalItems sources := rfl

theorem fillAll_complete {sources : List (σ × List α)} {rooms : List (δ × Nat)}
    (h : totalItems sources ≤ totalRoom rooms) :
    List.Forall₂ (fun s t => t.1 = s.1 ∧ t.2.map (·.1) = s.2)
      sources (fillAll sources rooms).1 := by
  induction sources generalizing rooms with
  | nil => exact .nil
  | cons s sources ih =>
      obtain ⟨s, items⟩ := s
      rw [totalItems_cons] at h
      have hroom := totalRoom_fill items rooms
      refine .cons ⟨rfl, ?_⟩ (ih (by omega))
      rw [fill_moved]
      exact List.take_of_length_le (by omega)

theorem fillAll_keys {sources : List (σ × List α)} {rooms : List (δ × Nat)}
    (h : totalItems sources ≤ totalRoom rooms) :
    ((fillAll sources rooms).1.flatMap (·.2)).map (·.1) = sources.flatMap (·.2) := by
  have hall := fillAll_complete h
  generalize (fillAll sources rooms).1 = moved at hall
  clear h
  induction hall with
  | nil => rfl
  | cons hfirst _ ih => rw [List.flatMap_cons, List.flatMap_cons, List.map_append, ih, hfirst.2]

section

variable [DecidableEq δ]

def roomFor (d : δ) (rooms : List (δ × Nat)) : Nat :=
  (rooms.map fun r => if r.1 = d then r.2 else 0).sum

@[simp] theorem roomFor_cons (d : δ) (r : δ × Nat) (rooms : List (δ × Nat)) :
    roomFor d (r :: rooms) = (if r.1 = d then r.2 else 0) + roomFor d rooms := rfl

theorem roomFor_of_not_mem {d : δ} {rooms : List (δ × Nat)} (h : d ∉ rooms.map (·.1)) :
    roomFor d rooms = 0 := by
  induction rooms with
  | nil => rfl
  | cons r rooms ih =>
      rw [List.map_cons, List.mem_cons, not_or] at h
      have hne : ¬ r.1 = d := fun heq => h.1 heq.symm
      rw [roomFor_cons, if_neg hne, ih h.2]

theorem roomFor_of_mem {r : δ × Nat} {rooms : List (δ × Nat)} (hnodup : (rooms.map (·.1)).Nodup)
    (h : r ∈ rooms) : roomFor r.1 rooms = r.2 := by
  induction rooms with
  | nil => exact nomatch h
  | cons r' rooms ih =>
      rw [List.map_cons, List.nodup_cons] at hnodup
      rw [roomFor_cons]
      rcases List.mem_cons.mp h with rfl | h
      · rw [if_pos rfl, roomFor_of_not_mem hnodup.1, Nat.add_zero]
      · have hne : ¬ r'.1 = r.1 := fun heq => hnodup.1 (List.mem_map.mpr ⟨r, h, heq.symm⟩)
        rw [if_neg hne, ih hnodup.2 h, Nat.zero_add]

theorem countP_fill (items : List α) (rooms : List (δ × Nat)) (d : δ) :
    (fill items rooms).moved.countP (fun e => e.2 = d) + roomFor d (fill items rooms).rooms =
      roomFor d rooms := by
  induction rooms generalizing items with
  | nil => rfl
  | cons r rooms ih =>
      obtain ⟨d', room⟩ := r
      have hrest := ih (items.drop room)
      simp only [fill, List.countP_append, List.countP_map, roomFor_cons]
      by_cases hd : d' = d
      · have htake : (items.take room).countP
            ((fun e : α × δ => decide (e.2 = d)) ∘ (·, d')) = min room items.length := by
          rw [List.countP_eq_length.mpr fun a _ => by simp [hd], List.length_take]
        rw [htake, if_pos hd, if_pos hd]
        omega
      · have htake : (items.take room).countP
            ((fun e : α × δ => decide (e.2 = d)) ∘ (·, d')) = 0 :=
          List.countP_eq_zero.mpr fun a _ => by simp [hd]
        rw [htake, if_neg hd, if_neg hd]
        omega

/-- No destination gets more than it has room for. -/
theorem countP_fillAll_le (sources : List (σ × List α)) (rooms : List (δ × Nat)) (d : δ) :
    ((fillAll sources rooms).1.flatMap (·.2)).countP (fun e => e.2 = d) ≤ roomFor d rooms := by
  induction sources generalizing rooms with
  | nil => simp [fillAll]
  | cons s sources ih =>
      obtain ⟨s, items⟩ := s
      have hfirst := countP_fill items rooms d
      have hrest := ih (fill items rooms).rooms
      simp only [fillAll, List.flatMap_cons, List.countP_append]
      omega

end

end

end ObjectStorage.Library
