/-
  AnekVideo.Server.Joins

  The set of connected descriptors, `srv->max` and the slots of the clients, over
  every order of joins and leaves.

  The set itself is always right, and `srv->max` never falls short of it, so that
  `select` misses nobody.  What fails is the slot of a descriptor from 32 on, and
  `srv->max` when the last client leaves: the search for the next one finds none
  and leaves the old value behind.
-/
import AnekVideo.Server.Table

namespace AnekVideo
namespace Server
namespace Table

open Interact BitSet

/-! ## Runs -/

/-- A join or a leave. -/
inductive Op
  | add (fd : Nat)
  | remove (fd : Nat)

namespace Op

/-- What it means for the descriptors that are connected. -/
def apply : Op → Finset Nat → Finset Nat
  | add fd, s => insert fd s
  | remove fd, s => s.erase fd

/-- What the server does. -/
def Step : Op → Table → Table → Prop
  | add fd, t, t' => ∃ ev r, Exec (sem ev) (avServerClientAddByFd fd) t r t'
  | remove fd, t, t' => ∃ ev, Exec (sem ev) (avServerClientRemoveByFd fd) t () t'

/-- `accept` can return the descriptor, or it is in the set. -/
def Legal (t : Table) : Op → Prop
  | add fd => fd < fdSetSize
  | remove fd => fd ∈ members t.set

/-- The descriptor has a slot, or it is not the last one in the set, unless it is 0. -/
def Meets (t : Table) : Op → Prop
  | add fd => fd < avMaxClients
  | remove fd => fd = 0 ∨ members t.set ≠ {fd}

end Op

/-- The descriptors added and not yet removed. -/
def present (ops : List Op) : Finset Nat := ops.foldl (fun s op => op.apply s) ∅

/-- Joins and leaves in any order, each of which `ok` admits. -/
inductive Run (ok : Table → Op → Prop) : List Op → Table → Prop
  | start (heap : State) : Run ok [] (zeroed heap)
  | step {ops : List Op} {op : Op} {t t' : Table} :
      Run ok ops t → op.Legal t → ok t op → op.Step t t' → Run ok (ops ++ [op]) t'

/-- What should hold after `ops`. -/
structure Tracked (ops : List Op) (t : Table) : Prop where
  index : ∀ i, i ∈ t.touched → 0 ≤ i ∧ i < avMaxClients
  set : members t.set = present ops
  max : t.max = top t.set

variable {ops : List Op} {op : Op} {ok : Table → Op → Prop} {t t' : Table} {n : Nat}
    {fd : Int} {k : State}

@[simp] theorem present_append : present (ops ++ [op]) = op.apply (present ops) := by
  rw [present, List.foldl_append]
  rfl

/-! ## What one step keeps -/

theorem inSet_of_lt (h : n < fdSetSize) : InSet n := ⟨Int.natCast_nonneg n, Int.ofNat_lt.2 h⟩

theorem Covers.zeroed (heap : State) : Covers (zeroed heap) := by
  refine ⟨inSet_of_lt (by decide), fun i hi => ?_⟩
  change has (0 : BitVec fdSetSize) i = true at hi
  simp [has] at hi

theorem Covers.added (ht : Covers t) (hn : n < fdSetSize) : Covers (t.added n k) := by
  have hmax := ht.max
  refine ⟨⟨?_, ?_⟩, fun i hi => ?_⟩
  · show 0 ≤ Max.max t.max (n : Int)
    exact le_max_of_le_left hmax.1
  · show Max.max t.max (n : Int) < fdSetSize
    exact max_lt hmax.2 (Int.ofNat_lt.2 hn)
  · change has (put t.set n) i = true at hi
    rw [has_put hn, Bool.or_eq_true, decide_eq_true_iff] at hi
    show (i : Int) ≤ Max.max t.max (n : Int)
    rcases hi with hi | rfl
    · exact le_max_of_le_left (ht.le i hi)
    · exact le_max_right _ _

theorem Covers.removed (ht : Covers t) : Covers (t.removed fd) := by
  have hle : ∀ i, has (clear t.set fd.toNat) i = true → (i : Int) ≤ t.max := by
    intro i hi
    rw [has_clear, Bool.and_eq_true] at hi
    exact ht.le i hi.1
  -- `max` stays, or is lowered to a member that is left
  have hcases : (t.removed fd).max = t.max ∨ ∃ i, has (clear t.set fd.toNat) i = true ∧
      (t.removed fd).max = top (clear t.set fd.toNat) := by
    rw [removed_max, lowered]
    by_cases hempty : members (clear t.set fd.toNat) = ∅
    · rw [if_pos hempty, ite_self]
      exact .inl rfl
    · obtain ⟨i, hi⟩ := Finset.nonempty_iff_ne_empty.2 hempty
      rw [if_neg hempty]
      split
      · exact .inr ⟨i, mem_members.1 hi, rfl⟩
      · exact .inl rfl
  rcases hcases with hmax | ⟨i, hi, hmax⟩
  · refine ⟨?_, fun j hj => ?_⟩
    · rw [hmax]
      exact ht.max
    · rw [hmax]
      exact hle j hj
  · refine ⟨?_, fun j hj => ?_⟩
    · rw [hmax]
      exact inSet_of_lt (lt_of_has (has_top hi))
    · rw [hmax]
      exact Int.ofNat_le.2 (le_top hj)

/-- An addition ends as `added` says. -/
theorem step_add (hn : n < fdSetSize) (hs : (Op.add n).Step t t') : ∃ k, t' = t.added n k := by
  obtain ⟨ev, r, he⟩ := hs
  obtain ⟨k, -, rfl⟩ := (avServerClientAddByFd_ends (inSet_of_lt hn)).exec he
  exact ⟨k, rfl⟩

/-- A removal ends as `removed` says. -/
theorem step_remove (ht : Covers t) (hn : n ∈ members t.set) :
    (Op.remove n).Step t t' ↔ t' = t.removed n := by
  have hin := inSet_of_lt (lt_of_has (mem_members.1 hn))
  have hends : ∀ ev, Ends (sem ev) (fun _ => False) (fun _ t' => t' = t.removed n)
      (avServerClientRemoveByFd n) t := fun _ => avServerClientRemoveByFd_ends ht hin
  constructor
  · rintro ⟨ev, he⟩
    exact (hends ev).exec he
  · rintro rfl
    obtain ⟨_, t', he, rfl⟩ := (hends silence).exists_exec fun _ => id
    exact ⟨silence, he⟩

/-- The slots that a program has used, and those that an addition uses. -/
theorem step_touched (ht : Covers t) (hlegal : op.Legal t) (hmeets : op.Meets t) (hs : op.Step t t')
    (h : ∀ i, i ∈ t.touched → 0 ≤ i ∧ i < avMaxClients) :
    ∀ i, i ∈ t'.touched → 0 ≤ i ∧ i < avMaxClients := by
  cases op with
  | add n =>
    obtain ⟨k, rfl⟩ := step_add hlegal hs
    have hn : (0 : Int) ≤ n ∧ (n : Int) < avMaxClients :=
      ⟨Int.natCast_nonneg n, Int.ofNat_lt.2 hmeets⟩
    intro i hi
    rcases List.mem_cons.1 hi with rfl | hi
    · exact hn
    · rcases List.mem_cons.1 hi with rfl | hi
      · exact hn
      · exact h i hi
  | remove n =>
    obtain rfl := (step_remove ht hlegal).1 hs
    exact h

theorem step_covers (ht : Covers t) (hlegal : op.Legal t) (hs : op.Step t t') : Covers t' := by
  cases op with
  | add n =>
    obtain ⟨k, rfl⟩ := step_add hlegal hs
    exact ht.added hlegal
  | remove n =>
    obtain rfl := (step_remove ht hlegal).1 hs
    exact ht.removed

theorem step_set (ht : Covers t) (hlegal : op.Legal t) (hs : op.Step t t') :
    members t'.set = op.apply (members t.set) := by
  cases op with
  | add n =>
    obtain ⟨k, rfl⟩ := step_add hlegal hs
    exact members_put hlegal
  | remove n =>
    obtain rfl := (step_remove ht hlegal).1 hs
    exact members_clear

/-- `max` stays the largest member, unless the last member leaves and is not 0. -/
theorem step_max (ht : Covers t) (hlegal : op.Legal t) (hmeets : op.Meets t) (hs : op.Step t t')
    (h : t.max = top t.set) : t'.max = top t'.set := by
  cases op with
  | add n =>
    obtain ⟨k, rfl⟩ := step_add hlegal hs
    show Max.max t.max (n : Int) = (top (put t.set n) : Nat)
    rw [top_put hlegal, h]
    omega
  | remove n =>
    obtain rfl := (step_remove ht hlegal).1 hs
    rw [removed_max]
    show (if (n : Int) = t.max then lowered (clear t.set n) t.max else t.max) = top (clear t.set n)
    by_cases hmax : (n : Int) = t.max
    · rw [if_pos hmax]
      by_cases hempty : members (clear t.set n) = ∅
      · -- only 0 can leave last
        have hsingle : members t.set = {n} := by
          rw [members_clear, Finset.erase_eq_empty_iff] at hempty
          rcases hempty with hnone | hone
          · exact absurd (hnone ▸ hlegal) (Finset.notMem_empty n)
          · exact hone
        have h0 : n = 0 := hmeets.resolve_right (not_not.2 hsingle)
        rw [lowered, if_pos hempty, top_of_empty hempty, ← hmax, h0]
      · rw [lowered, if_neg hempty]
    · -- not the largest, so the largest stays
      have hne : n ≠ top t.set := by
        intro heq
        rw [h, heq] at hmax
        exact hmax rfl
      rw [if_neg hmax, top_clear_of_ne hne, h]

/-! ## Whole runs -/

/-- However they come and go, `max` covers the set. -/
theorem Run.covers (hrun : Run ok ops t) : Covers t := by
  induction hrun with
  | start heap => exact .zeroed heap
  | step _ hlegal _ hs ih => exact step_covers ih hlegal hs

/-- However they come and go, the set holds who was added and not yet removed. -/
theorem Run.set (hrun : Run ok ops t) : members t.set = present ops := by
  induction hrun with
  | start heap => exact members_zero
  | step hrun hlegal _ hs ih =>
    rw [step_set hrun.covers hlegal hs, ih, present_append]

theorem Run.tracked (hrun : Run (fun t op => op.Meets t) ops t) : Tracked ops t := by
  refine ⟨?_, hrun.set, ?_⟩
  · induction hrun with
    | start heap => exact fun i hi => absurd hi List.not_mem_nil
    | step hrun hlegal hmeets hs ih => exact step_touched hrun.covers hlegal hmeets hs ih
  · induction hrun with
    | start heap => exact congrArg Int.ofNat (top_of_empty members_zero).symm
    | step hrun hlegal hmeets hs ih => exact step_max hrun.covers hlegal hmeets hs ih

/-- Whoever may join can join. -/
theorem Run.add (hrun : Run ok ops t) (hn : n < fdSetSize) (hok : ok t (.add n)) :
    ∃ t', Run ok (ops ++ [.add n]) t' := by
  obtain ⟨k, hk⟩ := exists_added silence t (inSet_of_lt hn)
  exact ⟨_, .step hrun hn hok ⟨silence, none, hk⟩⟩

/-- Whoever is there can leave. -/
theorem Run.remove (hrun : Run ok ops t) (hn : n ∈ present ops) (hok : ok t (.remove n)) :
    ∃ t', Run ok (ops ++ [.remove n]) t' := by
  have hlegal : n ∈ members t.set := hrun.set ▸ hn
  exact ⟨_, .step hrun hlegal hok ((step_remove hrun.covers hlegal).2 rfl)⟩

/-! ## The condition -/

/-- A step that does not meet the condition can be taken, and what it leaves is wrong. -/
theorem exists_untracked (ht : Covers t) (hmax : t.max = top t.set) (hlegal : op.Legal t)
    (hmeets : ¬ op.Meets t) : ∃ t', op.Step t t' ∧ ¬ Tracked (ops ++ [op]) t' := by
  cases op with
  | add n =>
    obtain ⟨k, hk⟩ := exists_added silence t (inSet_of_lt hlegal)
    refine ⟨_, ⟨silence, none, hk⟩, fun h => hmeets ?_⟩
    have hn := h.index n (List.mem_cons_self ..)
    exact Int.ofNat_lt.1 hn.2
  | remove n =>
    refine ⟨_, (step_remove ht hlegal).2 rfl, fun h => ?_⟩
    obtain ⟨h0, hsingle⟩ := not_or.1 hmeets
    have hone : members t.set = {n} := not_not.1 hsingle
    have htop : top t.set = n := by
      rw [top, hone]
      exact Finset.sup_singleton ..
    have hempty : members (t.removed n).set = ∅ := by
      rw [removed_set, members_clear, hone]
      exact Finset.erase_singleton n
    have hzero := h.max
    rw [removed_max_of_empty hempty, hmax, htop, top_of_empty hempty] at hzero
    exact h0 (Int.ofNat_inj.1 hzero)

/-- The operation uses no index outside of `clients`. -/
def InTable : Tbl → Prop
  | .setClientFd i _ => 0 ≤ i ∧ i < avMaxClients
  | .getClientMsg i => 0 ≤ i ∧ i < avMaxClients
  | .setClientMsg i _ => 0 ≤ i ∧ i < avMaxClients
  | _ => True

/-- Nothing an operation can ever do, also where it ends the process, is outside of `clients`. -/
def Op.Confined : Op → Prop
  | .add fd => (avServerClientAddByFd fd).Only InTable
  | .remove fd => (avServerClientRemoveByFd fd).Only InTable

theorem confined_of_meets (hmeets : op.Meets t) : op.Confined := by
  cases op with
  | add n =>
    have hn : (0 : Int) ≤ n ∧ (n : Int) < avMaxClients :=
      ⟨Int.natCast_nonneg n, Int.ofNat_lt.2 hmeets⟩
    -- the buffer is the heap's affair, not the table's
    have hinit : (linked bufferInit).Only InTable := by
      refine bufferInit_only.link fun o ho => ?_
      rw [answer_of_outside ho]
      exact Prog.only_op.2 trivial
    have hslot : (fillClient n).Only InTable := by
      refine .op hn fun _ => ?_
      refine .bind hinit fun _ => ?_
      exact .op hn fun _ => .ret
    refine .op trivial fun _ => ?_
    refine .op trivial fun m => ?_
    split
    · exact .op trivial fun _ => hslot
    · exact hslot
  | remove n =>
    have hlower : ∀ i, (lowerMax i).Only InTable := by
      intro i
      unfold lowerMax
      split
      · refine .op trivial fun b => ?_
        split
        · exact .op trivial fun _ => .ret
        · exact .ret
      · exact .ret
    refine .op trivial fun _ => ?_
    refine .op trivial fun m => ?_
    split
    · exact .ret
    · refine .op trivial fun m => ?_
      exact .iter hlower

/-- In a run whose steps all meet the condition every index is inside of `clients`, the set holds
    who was added and not yet removed, and `max` is its largest member, 0 if there is none; and
    a next step keeps that exactly if it meets the condition, too. -/
theorem clients_tracked (ops : List Op) (t : Table) (hrun : Run (fun t op => op.Meets t) ops t) :
    Tracked ops t ∧ ∀ op : Op, op.Legal t →
      ((∀ t', op.Step t t' → Tracked (ops ++ [op]) t') ↔ op.Meets t) ∧
      (op.Meets t → op.Confined) := by
  refine ⟨hrun.tracked, fun op hlegal => ⟨⟨fun hall => ?_, fun hmeets t' hs => ?_⟩,
    confined_of_meets⟩⟩
  · -- a step outside of the condition can end in a table that is not tracked
    by_contra hmeets
    obtain ⟨t', hs, hnot⟩ := exists_untracked hrun.covers hrun.tracked.max hlegal hmeets
    exact hnot (hall t' hs)
  · exact Run.tracked (.step hrun hlegal hmeets hs)

/-- Two clients join and the later one leaves. -/
theorem clients_tracked_demo : ∃ t, t.max = 4 ∧ Tracked [.add 4, .add 7, .remove 7] t := by
  have hstart : Run (fun t op => op.Meets t) [] (zeroed emptyState) := .start emptyState
  obtain ⟨t₁, h₁⟩ :=
    hstart.add (show 4 < fdSetSize by decide) (show 4 < avMaxClients by decide)
  obtain ⟨t₂, h₂⟩ :=
    h₁.add (show 7 < fdSetSize by decide) (show 7 < avMaxClients by decide)
  have hmeets : members t₂.set ≠ {7} := by
    rw [h₂.set]
    decide
  obtain ⟨t₃, h₃⟩ :=
    h₂.remove (show 7 ∈ present [.add 4, .add 7] by decide) (Or.inr hmeets)
  have htracked := (clients_tracked _ t₃ h₃).1
  refine ⟨t₃, ?_, htracked⟩
  rw [htracked.max, top, htracked.set]
  decide

/-- The only client leaves, and `max` stays; a client comes for whom there is no slot. -/
theorem last_one_leaves : ∃ t t', Run (fun _ _ => True) [.add 4, .remove 4] t ∧
    members t.set = ∅ ∧ t.max = 4 ∧ ¬ Tracked [.add 4, .remove 4] t ∧
      Run (fun _ _ => True) [.add 32] t' ∧ 32 ∈ t'.touched ∧ ¬ Tracked [.add 32] t' := by
  have hstart : Run (fun _ _ => True) [] (zeroed emptyState) := .start emptyState
  have h4 : 4 < fdSetSize := by decide
  have h32 : 32 < fdSetSize := by decide
  obtain ⟨k, hk⟩ := exists_added silence (zeroed emptyState) (inSet_of_lt h4)
  have hone : Run (fun _ _ => True) [.add 4] ((zeroed emptyState).added (4 : Nat) k) :=
    .step hstart h4 trivial ⟨silence, none, hk⟩
  have hlegal : 4 ∈ members ((zeroed emptyState).added (4 : Nat) k).set := by
    rw [hone.set]
    decide
  -- the set is empty now, but nothing has lowered `max`
  have hgone : Run (fun _ _ => True) [.add 4, .remove 4]
      (((zeroed emptyState).added (4 : Nat) k).removed (4 : Nat)) :=
    .step hone hlegal trivial ((step_remove hone.covers hlegal).2 rfl)
  have hempty : members (((zeroed emptyState).added (4 : Nat) k).removed (4 : Nat)).set = ∅ := by
    rw [hgone.set]
    decide
  have hstale : (((zeroed emptyState).added (4 : Nat) k).removed (4 : Nat)).max = 4 := by
    rw [removed_max_of_empty hempty]
    rfl
  -- `clients` has the indices 0 to 31
  obtain ⟨k', hk'⟩ := exists_added silence (zeroed emptyState) (inSet_of_lt h32)
  refine ⟨_, _, hgone, hempty, hstale, fun h => ?_, .step hstart h32 trivial ⟨silence, none, hk'⟩,
    List.mem_cons_self .., fun h => ?_⟩
  · have hmax := h.max
    rw [hstale, top_of_empty hempty] at hmax
    exact absurd hmax (by decide)
  · exact absurd (h.index 32 (List.mem_cons_self ..)).2 (by decide)

end Table
end Server
end AnekVideo
