/-
  AnekVideo.Arith.BitSet

  A set of numbers below `w` as a word of `w` bits, and its largest member.

  `members` is what a word stands for; `put` and `clear` are shown to be insertion
  and removal there, so that `top`, the supremum, can be followed through both.
-/
import Mathlib

namespace BitSet

variable {w : Nat}

/-- Bit `i` is set. -/
def has (s : BitVec w) (i : Nat) : Bool := s.getLsbD i

/-- Set bit `i`. -/
def put (s : BitVec w) (i : Nat) : BitVec w := s ||| BitVec.twoPow w i

/-- Clear bit `i`. -/
def clear (s : BitVec w) (i : Nat) : BitVec w := s &&& ~~~ BitVec.twoPow w i

/-- The set a word stands for. -/
def members (s : BitVec w) : Finset Nat := (Finset.range w).filter fun i => has s i = true

/-- The largest member, 0 if there is none. -/
def top (s : BitVec w) : Nat := (members s).sup id

variable {s : BitVec w} {i j : Nat}

/-! ## Members -/

theorem lt_of_has (h : has s i = true) : i < w := BitVec.lt_of_getLsbD h

@[simp] theorem mem_members : i ∈ members s ↔ has s i = true := by
  rw [members, Finset.mem_filter, Finset.mem_range]
  exact ⟨fun h => h.2, fun h => ⟨lt_of_has h, h⟩⟩

@[simp] theorem members_zero : members (0 : BitVec w) = ∅ := by
  ext i
  simp [has]

theorem has_put (hi : i < w) : has (put s i) j = (has s j || decide (j = i)) := by
  have hbit : (decide (i < w) && decide (i = j)) = decide (j = i) := by
    rw [decide_eq_true hi, Bool.true_and]
    exact decide_eq_decide.2 eq_comm
  simp only [has, put, BitVec.getLsbD_or, BitVec.getLsbD_twoPow, hbit]

theorem has_clear : has (clear s i) j = (has s j && decide (j ≠ i)) := by
  by_cases hj : j < w
  · have hbit : (decide (i < w) && decide (i = j)) = decide (j = i) := by
      by_cases hji : j = i
      · subst hji
        simp [hj]
      · simp [hji, Ne.symm hji]
    simp only [has, clear, BitVec.getLsbD_and, BitVec.getLsbD_not, BitVec.getLsbD_twoPow, hbit, hj,
      decide_true, Bool.true_and, decide_not]
  · have hs : has s j = false := BitVec.getLsbD_of_ge s j (Nat.le_of_not_lt hj)
    have hc : has (clear s i) j = false := BitVec.getLsbD_of_ge _ j (Nat.le_of_not_lt hj)
    rw [hs, hc, Bool.false_and]

theorem members_put (hi : i < w) : members (put s i) = insert i (members s) := by
  ext j
  rw [mem_members, has_put hi, Finset.mem_insert, mem_members, Bool.or_eq_true, decide_eq_true_iff]
  exact or_comm

theorem members_clear : members (clear s i) = (members s).erase i := by
  ext j
  rw [mem_members, has_clear, Finset.mem_erase, mem_members, Bool.and_eq_true, decide_eq_true_iff]
  exact and_comm

/-! ## The largest member -/

theorem le_top (h : has s i = true) : i ≤ top s :=
  Finset.le_sup (f := id) (mem_members.2 h)

theorem has_top (h : has s i = true) : has s (top s) = true := by
  have hne : (members s).Nonempty := ⟨i, mem_members.2 h⟩
  obtain ⟨m, hm, heq⟩ := Finset.exists_mem_eq_sup (members s) hne id
  rw [top, heq]
  exact mem_members.1 hm

theorem top_eq (hj : has s j = true) (hle : ∀ i, has s i = true → i ≤ j) : top s = j :=
  Nat.le_antisymm (hle _ (has_top hj)) (le_top hj)

theorem top_of_empty (h : members s = ∅) : top s = 0 := by
  rw [top, h]
  exact Finset.sup_empty

theorem top_put (hi : i < w) : top (put s i) = max (top s) i := by
  rw [top, members_put hi, Finset.sup_insert, sup_comm]
  rfl

/-- A smaller member goes without a trace. -/
theorem top_clear_of_ne (h : i ≠ top s) : top (clear s i) = top s := by
  by_cases hempty : members s = ∅
  · have hclear : members (clear s i) = ∅ := by
      rw [members_clear, hempty]
      rfl
    rw [top_of_empty hclear, top_of_empty hempty]
  · obtain ⟨j, hj⟩ := Finset.nonempty_iff_ne_empty.2 hempty
    have htop := has_top (mem_members.1 hj)
    refine top_eq ?_ fun k hk => ?_
    · rw [has_clear, htop, Bool.true_and]
      exact decide_eq_true (Ne.symm h)
    · rw [has_clear, Bool.and_eq_true] at hk
      exact le_top hk.1

end BitSet
