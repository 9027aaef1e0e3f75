import Mathlib.Data.List.Basic

/-!
The order of strings is that of their UTF-8 encodings, and it is kept by cutting off both at one
length.
-/

namespace ObjectStorage.Library

/-- The bytes of a string. -/
def utf8 (s : String) : List UInt8 := s.toUTF8.toList

theorem utf8EncodeChar_append_lt {c d : Char} (h : c < d) (r r' : List UInt8) :
    String.utf8EncodeChar c ++ r < String.utf8EncodeChar d ++ r' := by
  have hlt : c.val.toNat < d.val.toNat := h
  have hvalid : d.val.toNat < 0x110000 := by
    rcases d.valid with hlow | ⟨-, hhigh⟩
    · exact Nat.lt_trans hlow (by decide)
    · exact hhigh
  have hone : ∀ n, n % 64 + 128 < 256 := fun n => by omega
  have htwo : ∀ n, n % 32 + 192 < 256 := fun n => by omega
  have hthree : ∀ n, n % 16 + 224 < 256 := fun n => by omega
  have hfour : ∀ n, n % 8 + 240 < 256 := fun n => by omega
  -- all digits of the code points by repeated division
  have hsecond : ∀ n, n / 4096 = n / 64 / 64 := fun n => by omega
  have hthird : ∀ n, n / 262144 = n / 64 / 64 / 64 := fun n => by omega
  unfold String.utf8EncodeChar
  simp only [hsecond, hthird]
  split_ifs <;>
    simp only [List.cons_append, List.nil_append, List.cons_lt_cons_iff, UInt8.lt_iff_toNat_lt,
      ← UInt8.toNat_inj, UInt8.toNat_ofNat', Nat.reducePow, Nat.mod_eq_of_lt (hone _),
      Nat.mod_eq_of_lt (htwo _), Nat.mod_eq_of_lt (hthree _), Nat.mod_eq_of_lt (hfour _)] <;> omega

theorem toList_byteArray (bytes : ByteArray) : bytes.toList = bytes.data.toList := by
  have hsize : bytes.data.toList.length = bytes.size := rfl
  have hloop : ∀ n i r, bytes.size - i = n →
      ByteArray.toList.loop bytes i r = r.reverse ++ bytes.data.toList.drop i := by
    intro n
    induction n with
    | zero =>
        intro i r hn
        rw [ByteArray.toList.loop, if_neg (by omega), List.drop_of_length_le (by omega),
          List.append_nil]
    | succ n ih =>
        intro i r hn
        have hi : i < bytes.size := by omega
        have hlt : i < bytes.data.toList.length := hi
        have hget : bytes.get! i = bytes.data.toList[i] := by
          rw [Array.getElem_toList]
          exact getElem!_pos bytes.data i hi
        rw [ByteArray.toList.loop, if_pos hi, ih (i + 1) _ (by omega),
          List.drop_eq_getElem_cons hlt, hget, List.reverse_cons, List.append_assoc]
        rfl
  exact hloop _ 0 [] rfl

theorem utf8_eq_flatMap (s : String) : utf8 s = s.toList.flatMap String.utf8EncodeChar := by
  have hbytes : utf8 (String.ofList s.toList) = s.toList.flatMap String.utf8EncodeChar := by
    rw [utf8, toList_byteArray, String.toUTF8_eq_toByteArray]
    exact List.toList_data_toByteArray
  rwa [String.ofList_toList] at hbytes

theorem flatMap_utf8_lt {l l' : List Char} (h : l < l') :
    l.flatMap String.utf8EncodeChar < l'.flatMap String.utf8EncodeChar := by
  induction l generalizing l' with
  | nil =>
      cases l' with
      | nil => exact absurd h (List.lt_irrefl _)
      | cons d l' =>
          rw [List.flatMap_nil, List.flatMap_cons]
          cases hd : String.utf8EncodeChar d with
          | nil => exact absurd hd String.utf8EncodeChar_ne_nil
          | cons b bs => exact List.nil_lt_cons ..
  | cons c l ih =>
      cases l' with
      | nil => exact absurd h (List.not_lt_nil _)
      | cons d l' =>
          rw [List.flatMap_cons, List.flatMap_cons]
          rcases List.cons_lt_cons_iff.mp h with hcd | ⟨rfl, hrest⟩
          · exact utf8EncodeChar_append_lt hcd _ _
          · exact List.append_left_lt (ih hrest)

theorem utf8_lt {s t : String} (h : s < t) : utf8 s < utf8 t := by
  rw [utf8_eq_flatMap, utf8_eq_flatMap]
  exact flatMap_utf8_lt (String.lt_iff.mp h)

theorem utf8_injective : Function.Injective utf8 := by
  intro s t h
  unfold utf8 at h
  rw [toList_byteArray, toList_byteArray] at h
  exact String.toByteArray_inj.mp (ByteArray.ext (Array.toList_inj.mp h))

/-! ### Bytes in front -/

theorem take_le_take {bs bs' : List UInt8} (h : bs ≤ bs') (n : Nat) : bs.take n ≤ bs'.take n := by
  induction n generalizing bs bs' with
  | zero => exact List.le_refl _
  | succ n ih =>
      cases bs with
      | nil => exact List.nil_le _
      | cons b bs =>
          cases bs' with
          | nil => exact absurd h (by simp)
          | cons b' bs' =>
              rw [List.take_succ_cons, List.take_succ_cons, List.cons_le_cons_iff]
              rcases List.cons_le_cons_iff.mp h with hlt | ⟨rfl, hle⟩
              · exact Or.inl hlt
              · exact Or.inr ⟨rfl, ih hle⟩

end ObjectStorage.Library
