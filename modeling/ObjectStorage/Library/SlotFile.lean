import Mathlib.Data.List.Basic

/-!
A file of slots of one width, and what writing into one of them leaves of the others.
-/

namespace ObjectStorage.Library

section

variable {α : Type}

/-- `bs` written over a file from an offset on. A gap before it is filled. -/
def overwrite (zero : α) (file : List α) (offset : Nat) (bs : List α) : List α :=
  file.take offset ++ List.replicate (offset - file.length) zero ++ bs ++
    file.drop (offset + bs.length)

def slotAt (width : Nat) (file : List α) (k : Nat) : List α := (file.drop (k * width)).take width

variable {zero : α} {file bs : List α} {offset width i j : Nat}

theorem length_overwrite (h : offset + bs.length ≤ file.length) :
    (overwrite zero file offset bs).length = file.length := by
  simp only [overwrite, List.length_append, List.length_take, List.length_replicate,
    List.length_drop]
  omega

theorem overwrite_eq (h : offset + bs.length ≤ file.length) :
    overwrite zero file offset bs = file.take offset ++ (bs ++ file.drop (offset + bs.length)) := by
  have hgap : offset - file.length = 0 := by omega
  simp [overwrite, hgap]

theorem getElem?_overwrite_of_lt (h : offset + bs.length ≤ file.length) {p : Nat}
    (hp : p < offset) : (overwrite zero file offset bs)[p]? = file[p]? := by
  rw [overwrite_eq h, List.getElem?_append_left (by rw [List.length_take]; omega),
    List.getElem?_take_of_lt hp]

theorem getElem?_overwrite_of_ge (h : offset + bs.length ≤ file.length) {p : Nat}
    (hp : offset + bs.length ≤ p) : (overwrite zero file offset bs)[p]? = file[p]? := by
  have hlength : (file.take offset).length = offset := by rw [List.length_take]; omega
  rw [overwrite_eq h, List.getElem?_append_right (by omega), hlength,
    List.getElem?_append_right (by omega), List.getElem?_drop]
  congr 1
  omega

theorem getElem?_slotAt (p : Nat) :
    (slotAt width file i)[p]? = if p < width then file[i * width + p]? else none := by
  rw [slotAt, List.getElem?_take]
  split
  · rw [List.getElem?_drop]
  · rfl

theorem slotAt_of_isPrefix {front : List α} (h : front <+: file)
    (hfits : (i + 1) * width ≤ front.length) : slotAt width file i = slotAt width front i := by
  have hsucc : (i + 1) * width = i * width + width := Nat.succ_mul i width
  obtain ⟨back, rfl⟩ := h
  rw [slotAt, List.drop_append_of_le_length (by omega),
    List.take_append_of_le_length (by rw [List.length_drop]; omega), slotAt]

theorem slotAt_overwrite_ne (hfile : (i + 1) * width ≤ file.length) (hbs : bs.length ≤ width)
    (hij : j ≠ i) : slotAt width (overwrite zero file (i * width) bs) j = slotAt width file j := by
  have hsucc : (i + 1) * width = i * width + width := Nat.succ_mul i width
  have hfits : i * width + bs.length ≤ file.length := by omega
  refine List.ext_getElem? fun p => ?_
  rw [getElem?_slotAt, getElem?_slotAt]
  split
  · rename_i hp
    rcases Nat.lt_or_gt_of_ne hij with hlt | hgt
    · have hle : (j + 1) * width ≤ i * width := Nat.mul_le_mul_right width hlt
      have hsucc' : (j + 1) * width = j * width + width := Nat.succ_mul j width
      exact getElem?_overwrite_of_lt hfits (by omega)
    · have hle : (i + 1) * width ≤ j * width := Nat.mul_le_mul_right width hgt
      exact getElem?_overwrite_of_ge hfits (by omega)
  · rfl

/-- In its slot, what was written stands in front of the rest of what was there. -/
theorem slotAt_overwrite_self (hfile : (i + 1) * width ≤ file.length) (hbs : bs.length ≤ width) :
    slotAt width (overwrite zero file (i * width) bs) i =
      bs ++ (slotAt width file i).drop bs.length := by
  have hsucc : (i + 1) * width = i * width + width := Nat.succ_mul i width
  have hfits : i * width + bs.length ≤ file.length := by omega
  have hlength : (file.take (i * width)).length = i * width := by rw [List.length_take]; omega
  rw [slotAt, overwrite_eq hfits, List.drop_left' hlength, List.take_append,
    List.take_of_length_le hbs, slotAt, List.drop_take, List.drop_drop]

end

end ObjectStorage.Library
