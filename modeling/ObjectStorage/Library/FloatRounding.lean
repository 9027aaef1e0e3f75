import Mathlib.Algebra.Order.Ring.Nat
import Mathlib.Data.Nat.Log

/-!
Rounding of whole numbers to the nearest one with a given number of significant bits, ties to even,
as binary floating-point numbers are rounded.
-/

namespace ObjectStorage.Library

/-- The nearest multiple of the unit, of two the even one. -/
def roundEven (unit n : Nat) : Nat :=
  if 2 * (n % unit) < unit ∨ 2 * (n % unit) = unit ∧ n / unit % 2 = 0 then n / unit * unit
  else (n / unit + 1) * unit

/-- The last of the significant bits. -/
def lastPlace (bits n : Nat) : Nat := 2 ^ (n.log2 + 1 - bits)

def roundBits (bits n : Nat) : Nat := roundEven (lastPlace bits n) n

section

variable {unit k m n : Nat}

theorem roundEven_one (n : Nat) : roundEven 1 n = n := by
  simp [roundEven, Nat.mod_one]

theorem roundEven_le_mul (hunit : 0 < unit) (h : n ≤ k * unit) : roundEven unit n ≤ k * unit := by
  unfold roundEven
  split_ifs with hdown
  · exact (Nat.div_mul_le_self n unit).trans h
  · apply Nat.mul_le_mul_right
    have hle : n / unit ≤ k := Nat.div_le_of_le_mul (by rwa [Nat.mul_comm])
    rcases hle.lt_or_eq with hlt | heq
    · exact hlt
    · -- then `n` is the multiple itself, which is rounded down
      have hsplit := Nat.div_add_mod n unit
      rw [heq, Nat.mul_comm] at hsplit
      exact absurd (.inl (by omega)) hdown

theorem mul_le_roundEven (hunit : 0 < unit) (h : k * unit ≤ n) : k * unit ≤ roundEven unit n := by
  have hle : k ≤ n / unit := (Nat.le_div_iff_mul_le hunit).mpr h
  unfold roundEven
  split_ifs
  · exact Nat.mul_le_mul_right unit hle
  · exact Nat.mul_le_mul_right unit (by omega)

theorem roundEven_mono (hunit : 0 < unit) (h : m ≤ n) : roundEven unit m ≤ roundEven unit n := by
  rcases (Nat.div_le_div_right h : m / unit ≤ n / unit).lt_or_eq with hlt | heq
  · have hm : m ≤ (m / unit + 1) * unit := (Nat.lt_mul_of_div_lt (Nat.lt_succ_self _) hunit).le
    calc roundEven unit m
        ≤ (m / unit + 1) * unit := roundEven_le_mul hunit hm
      _ ≤ n / unit * unit := Nat.mul_le_mul_right unit hlt
      _ ≤ roundEven unit n := mul_le_roundEven hunit (Nat.div_mul_le_self n unit)
  · have hm := Nat.div_add_mod m unit
    have hn := Nat.div_add_mod n unit
    unfold roundEven
    rw [heq] at hm ⊢
    split_ifs with hmdown hndown
    · exact Nat.le_refl _
    · exact Nat.mul_le_mul_right unit (Nat.le_succ _)
    · exfalso
      omega
    · exact Nat.le_refl _

end

section

variable {bits m n : Nat}

theorem lastPlace_pos (bits n : Nat) : 0 < lastPlace bits n := Nat.two_pow_pos _

theorem roundBits_of_lt (h : n < 2 ^ bits) : roundBits bits n = n := by
  by_cases hn : n = 0
  · subst hn
    have hunit := lastPlace_pos bits 0
    simp [roundBits, roundEven, hunit]
  · have hlog : n.log2 < bits := (Nat.log2_lt hn).mpr h
    have hunit : lastPlace bits n = 1 := by
      rw [lastPlace, Nat.sub_eq_zero_of_le hlog, Nat.pow_zero]
    rw [roundBits, hunit, roundEven_one]

/-- A power of two that is not smaller than a number is a multiple of its last place. -/
theorem lastPlace_dvd {e : Nat} (h : n.log2 + 1 - bits ≤ e) : lastPlace bits n ∣ 2 ^ e :=
  Nat.pow_dvd_pow 2 h

theorem log2_mono (h : m ≤ n) : m.log2 ≤ n.log2 := by
  rw [Nat.log2_eq_log_two, Nat.log2_eq_log_two]
  exact Nat.log_mono_right h

/-- Numbers of different lengths are kept apart by the power of two between them. -/
theorem roundBits_mono (hbits : 0 < bits) (h : m ≤ n) : roundBits bits m ≤ roundBits bits n := by
  rcases (log2_mono h).lt_or_eq with hlt | heq
  · have hn : n ≠ 0 := by
      rintro rfl
      simp at hlt
    have hm : m ≤ 2 ^ n.log2 :=
      (Nat.lt_log2_self (n := m)).le.trans (Nat.pow_le_pow_right (by decide) hlt)
    obtain ⟨k, hk⟩ : lastPlace bits m ∣ 2 ^ n.log2 := lastPlace_dvd (by omega)
    obtain ⟨l, hl⟩ : lastPlace bits n ∣ 2 ^ n.log2 := lastPlace_dvd (by omega)
    have hbelow : roundBits bits m ≤ 2 ^ n.log2 := by
      rw [hk, Nat.mul_comm] at hm ⊢
      exact roundEven_le_mul (lastPlace_pos bits m) hm
    have habove : 2 ^ n.log2 ≤ roundBits bits n := by
      have hself := Nat.log2_self_le hn
      rw [hl, Nat.mul_comm] at hself ⊢
      exact mul_le_roundEven (lastPlace_pos bits n) hself
    exact hbelow.trans habove
  · rw [roundBits, roundBits, lastPlace, heq]
    exact roundEven_mono (lastPlace_pos bits n) h

end

end ObjectStorage.Library
