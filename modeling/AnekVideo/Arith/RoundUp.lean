/-
  AnekVideo.Arith.RoundUp

  Rounding a natural number up to a multiple of another.
-/
import Mathlib

namespace RoundUp

/-- The least multiple of `m` that is at least `l`, for positive `m`. -/
def roundUp (m l : Nat) : Nat := (l + m - 1) / m * m

variable {m l : Nat}

theorem dvd_roundUp (m l : Nat) : m ∣ roundUp m l := Nat.dvd_mul_left ..

theorem le_roundUp (hm : 0 < m) : l ≤ roundUp m l := by
  have hdiv := Nat.div_add_mod (l + m - 1) m
  have hlt := Nat.mod_lt (l + m - 1) hm
  have hcomm : m * ((l + m - 1) / m) = roundUp m l := Nat.mul_comm ..
  omega

theorem roundUp_lt (hm : 0 < m) : roundUp m l < l + m := by
  have hle : roundUp m l ≤ l + m - 1 := Nat.div_mul_le_self ..
  omega

/-- No multiple of `m` lies between `l` and `roundUp m l`. -/
theorem roundUp_le {c : Nat} (hm : 0 < m) (hc : m ∣ c) (hl : l ≤ c) : roundUp m l ≤ c := by
  obtain ⟨q, rfl⟩ := hc
  have hlt : (l + m - 1) / m < q + 1 := by
    rw [Nat.div_lt_iff_lt_mul hm]
    have : (q + 1) * m = m * q + m := by ring
    omega
  calc roundUp m l = (l + m - 1) / m * m := rfl
    _ ≤ q * m := Nat.mul_le_mul_right m (Nat.lt_succ_iff.1 hlt)
    _ = m * q := Nat.mul_comm ..

theorem roundUp_of_dvd (hm : 0 < m) (h : m ∣ l) : roundUp m l = l :=
  Nat.le_antisymm (roundUp_le hm h (Nat.le_refl l)) (le_roundUp hm)

theorem roundUp_eq_self_iff (hm : 0 < m) : roundUp m l = l ↔ m ∣ l :=
  ⟨fun h => h ▸ dvd_roundUp m l, roundUp_of_dvd hm⟩

end RoundUp
