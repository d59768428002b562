/-
  AnekVideo.Arith.Buffer

  Runs of bytes in memory: reading a window of it, and writing a list over it.
-/
import AnekVideo.Arith.Word

namespace Word

/-- The `n` bytes from address `a` on. -/
def window (d : Bytes) (a n : Nat) : List UInt8 := (List.range n).map fun i => d (a + i)

/-- The memory after `bs` was written to address `a`. -/
def splice (d : Bytes) (a : Nat) (bs : List UInt8) : Bytes := fun i =>
  if a ≤ i ∧ i < a + bs.length then bs.getD (i - a) 0 else d i

variable {d : Bytes} {a n m : Nat} {bs cs : List UInt8}

@[simp] theorem length_window : (window d a n).length = n := by simp [window]

theorem getElem_window {i : Nat} (hi : i < (window d a n).length) :
    (window d a n)[i] = d (a + i) := by
  simp [window]

theorem splice_nil : splice d a [] = d := by
  funext i
  rw [splice, if_neg]
  simp only [List.length_nil, Nat.add_zero]
  omega

theorem splice_of_not {i : Nat} (hi : i < a ∨ a + bs.length ≤ i) : splice d a bs i = d i :=
  if_neg (by omega)

theorem splice_of_lt {i : Nat} (hi : i < bs.length) : splice d a bs (a + i) = bs.getD i 0 := by
  rw [splice, if_pos (by omega), Nat.add_sub_cancel_left]

/-- What was written is read back. -/
theorem window_splice : window (splice d a bs) a bs.length = bs := by
  refine List.ext_getElem (by simp) fun i h₁ h₂ => ?_
  rw [getElem_window, splice_of_lt h₂, List.getD_eq_getElem _ _ h₂]

/-- What was written behind a window belongs to the longer window. -/
theorem window_splice_append :
    window (splice d (a + n) bs) a (n + bs.length) = window d a n ++ bs := by
  refine List.ext_getElem (by simp) fun i h₁ h₂ => ?_
  rw [getElem_window]
  by_cases hi : i < n
  · rw [splice_of_not (by omega), List.getElem_append_left (by simpa using hi), getElem_window]
  · have hlen : i - n < bs.length := by
      rw [length_window] at h₁
      omega
    have hadd : a + i = a + n + (i - n) := by omega
    rw [hadd, splice_of_lt hlen, List.getD_eq_getElem _ _ hlen,
      List.getElem_append_right (by simpa using Nat.le_of_not_lt hi)]
    congr 1
    simp

theorem take_window : (window d a n).take m = window d a (min m n) := by
  rw [window, ← List.map_take, List.take_range, window]

theorem drop_window : (window d a n).drop m = window d (a + m) (n - m) := by
  refine List.ext_getElem (by simp) fun i h₁ h₂ => ?_
  rw [List.getElem_drop, getElem_window, getElem_window, Nat.add_assoc]

/-- A window inside a window. -/
theorem window_drop_take (h : m + n ≤ cs.length) (hcs : window d a cs.length = cs) :
    window d (a + m) n = (cs.drop m).take n := by
  refine List.ext_getElem (by simp; omega) fun i h₁ h₂ => ?_
  rw [length_window] at h₁
  have hmi : m + i < (window d a cs.length).length := by rw [length_window]; omega
  have hlt : m + i < cs.length := by omega
  have hcs' : cs[m + i] = d (a + (m + i)) := by
    rw [← getElem_window hmi]
    exact (List.getElem_of_eq hcs.symm _)
  rw [getElem_window, List.getElem_take, List.getElem_drop, hcs', Nat.add_assoc]

/-- Writing on where the last write ended. -/
theorem splice_splice : splice (splice d a bs) (a + bs.length) cs = splice d a (bs ++ cs) := by
  funext i
  simp only [splice, List.length_append]
  by_cases h₁ : a + bs.length ≤ i ∧ i < a + bs.length + cs.length
  · rw [if_pos h₁, if_pos (by omega), List.getD_append_right _ _ _ _ (by omega)]
    congr 1
    omega
  · rw [if_neg h₁]
    by_cases h₂ : a ≤ i ∧ i < a + bs.length
    · rw [if_pos h₂, if_pos (by omega), List.getD_append _ _ _ _ (by omega)]
    · rw [if_neg h₂, if_neg (by omega)]

end Word
