/-
  AnekVideo.Interact.Bounded

  Total correctness under interference: `Env.Bounded n P p Q` says that from
  any state in `P` the program returns in `Q` within `n` of its own moves,
  whatever the others do in between, and that each of its operations has an
  outcome.  The bound is what the interleaving theorem of
  `AnekVideo.Interact.System` adds up over the threads.
-/
import AnekVideo.Interact.Triple

namespace Interact
namespace Env

variable {E : Iface} {K : Type} {α β σ : Type} {W : Env E K}
variable {P P' : K → Prop} {Q Q' : α → K → Prop} {k k' : K} {n m : Nat}

theorem Within.rely {p : Prog E α} (h : W.Within n k p Q) (hr : W.rely k k') :
    W.Within n k' p Q := by
  cases n with
  | zero => exact fun k'' hr' => h k'' (W.rely_trans hr hr')
  | succ n => exact fun k'' hr' => h k'' (W.rely_trans hr hr')

/-! ## The first move of a program that returns -/

section Head

variable {p : Prog E α} (h : W.Within n k p Q)

include h

theorem Within.of_ret {a : α} (hp : p.head = .ret a) : Q a k := by
  cases n with
  | zero => have hk := h k (W.rely_refl k); rwa [hp] at hk
  | succ n => have hk := h k (W.rely_refl k); rwa [hp] at hk

theorem Within.of_spin {p' : Prog E α} (hp : p.head = .spin p') :
    ∃ j, n = j + 1 ∧ W.Within j k p' Q := by
  cases n with
  | zero => have hk := h k (W.rely_refl k); rw [hp] at hk; exact hk.elim
  | succ n => have hk := h k (W.rely_refl k); rw [hp] at hk; exact ⟨n, rfl, hk⟩

theorem Within.of_call {o : E.Op} {f : E.Resp o → Prog E α} (hp : p.head = .call o f) :
    (∃ r k', W.sem o k r k') ∧ ∃ j, n = j + 1 ∧
      ∀ r k', W.sem o k r k' → W.guar o k r k' ∧ W.Within j k' (f r) Q := by
  cases n with
  | zero => have hk := h k (W.rely_refl k); rw [hp] at hk; exact hk.elim
  | succ n => have hk := h k (W.rely_refl k); rw [hp] at hk; exact ⟨hk.1, n, rfl, hk.2⟩

end Head

theorem Within.le {p : Prog E α} (hnm : n ≤ m) (h : W.Within n k p Q) : W.Within m k p Q := by
  induction n generalizing m k p with
  | zero =>
    cases m with
    | zero => exact h
    | succ m =>
      intro k' hr
      have hk := h k' hr
      revert hk
      cases p.head with
      | ret a => exact id
      | spin p' => exact False.elim
      | call o f => exact False.elim
  | succ n ih =>
    obtain ⟨m, rfl⟩ : ∃ m', m = m' + 1 := ⟨m - 1, by omega⟩
    have hnm : n ≤ m := by omega
    intro k' hr
    have hk := h k' hr
    revert hk
    cases p.head with
    | ret a => exact id
    | spin p' => exact fun h' => ih hnm h'
    | call o f =>
      exact fun h' => ⟨h'.1, fun r k'' hs => ⟨(h'.2 r k'' hs).1, ih hnm (h'.2 r k'' hs).2⟩⟩

theorem Within.mono {p : Prog E α} (h : W.Within n k p Q) (hQ : ∀ a k, Q a k → Q' a k) :
    W.Within n k p Q' := by
  induction n generalizing k p with
  | zero =>
    intro k' hr
    have hk := h k' hr
    revert hk
    cases p.head with
    | ret a => exact hQ a k'
    | spin p' => exact id
    | call o f => exact id
  | succ n ih =>
    intro k' hr
    have hk := h k' hr
    revert hk
    cases p.head with
    | ret a => exact hQ a k'
    | spin p' => exact fun h' => ih h'
    | call o f => exact fun h' => ⟨h'.1, fun r k'' hs => ⟨(h'.2 r k'' hs).1, ih (h'.2 r k'' hs).2⟩⟩

/-- A program that returns within a bound keeps its promises for ever. -/
theorem Within.safe {p : Prog E α} (h : W.Within n k p Q) (j : Nat) : W.Safe j k p Q := by
  induction j generalizing n k p with
  | zero => trivial
  | succ j ih =>
    cases n with
    | zero =>
      intro k' hr
      have hk := h k' hr
      revert hk
      cases p.head with
      | ret a => exact id
      | spin p' => exact False.elim
      | call o f => exact False.elim
    | succ n =>
      intro k' hr
      have hk := h k' hr
      revert hk
      cases p.head with
      | ret a => exact id
      | spin p' => exact fun h' => ih h'
      | call o f => exact fun h' r k'' hs => ⟨(h'.2 r k'' hs).1, ih (h'.2 r k'' hs).2⟩

theorem Within.congr_head {p q : Prog E α} (hpq : p.head = q.head) (h : W.Within n k p Q) :
    W.Within n k q Q := by
  cases n with
  | zero =>
    intro k' hr
    have := h k' hr
    rwa [hpq] at this
  | succ n =>
    intro k' hr
    have := h k' hr
    rwa [hpq] at this

theorem Within.bind {p : Prog E α} {f : α → Prog E β} {M : α → K → Prop}
    {Q : β → K → Prop} (h : W.Within n k p M) (hf : ∀ a k, M a k → W.Within m k (f a) Q) :
    W.Within (n + m) k (Prog.bind p f) Q := by
  induction n generalizing k p with
  | zero =>
    rw [Nat.zero_add]
    cases hp : p.head with
    | ret a => exact (hf a k (h.of_ret hp)).congr_head (Prog.head_bind_ret hp).symm
    | spin p' =>
      obtain ⟨j, hj, -⟩ := h.of_spin hp
      cases hj
    | call o g =>
      obtain ⟨-, j, hj, -⟩ := h.of_call hp
      cases hj
  | succ n ih =>
    rw [Nat.add_right_comm]
    intro k' hr
    have hk := h k' hr
    cases hp : p.head with
    | ret a =>
      rw [hp] at hk
      have hfa := (hf a k' hk).le (m := n + m + 1) (by omega) k' (W.rely_refl k')
      rw [Prog.head_bind_ret hp]
      exact hfa
    | spin p' =>
      rw [hp] at hk
      rw [Prog.head_bind_spin hp]
      exact ih hk
    | call o g =>
      rw [hp] at hk
      rw [Prog.head_bind_call hp]
      refine ⟨hk.1, fun r k'' hs => ?_⟩
      obtain ⟨hg, hw⟩ := hk.2 r k'' hs
      exact ⟨hg, ih hw⟩

/-- What neither the others nor the own promise ever falsify is there afterwards. -/
theorem Within.frame {p : Prog E α} {R : K → Prop} (h : W.Within n k p Q) (hst : W.Stable R)
    (hg : ∀ o k r k', W.guar o k r k' → R k → R k') (hk : R k) :
    W.Within n k p fun a k => Q a k ∧ R k := by
  induction n generalizing k p with
  | zero =>
    intro k' hr
    have hw := h k' hr
    have hk' := hst k k' hr hk
    revert hw
    cases p.head with
    | ret a => exact fun hQ => ⟨hQ, hk'⟩
    | spin p' => exact id
    | call o f => exact id
  | succ n ih =>
    intro k' hr
    have hw := h k' hr
    have hk' := hst k k' hr hk
    revert hw
    cases p.head with
    | ret a => exact fun hQ => ⟨hQ, hk'⟩
    | spin p' => exact fun h' => ih h' hk'
    | call o f =>
      exact fun h' => ⟨h'.1, fun r k'' hs => ⟨(h'.2 r k'' hs).1,
        ih (h'.2 r k'' hs).2 (hg o k' r k'' (h'.2 r k'' hs).1 hk')⟩⟩

/-- A program that returns within a bound does return: its postcondition is not
    empty. -/
theorem Within.not_false {p : Prog E α} (h : W.Within n k p fun _ _ => False) : False := by
  induction n using Nat.strong_induction_on generalizing k p with
  | _ n ih =>
    cases hp : p.head with
    | ret a => exact h.of_ret hp
    | spin p' =>
      obtain ⟨j, rfl, hw⟩ := h.of_spin hp
      exact ih j (Nat.lt_succ_self j) hw
    | call o f =>
      -- the operation has an outcome, and the rest returns after it
      obtain ⟨⟨r, k', hs⟩, j, rfl, hw⟩ := h.of_call hp
      exact ih j (Nat.lt_succ_self j) (hw r k' hs).2

variable (W)

/-- From `P`, `p` returns in `Q` within `n` moves. -/
def Bounded (n : Nat) (P : K → Prop) (p : Prog E α) (Q : α → K → Prop) : Prop :=
  ∀ k, P k → W.Within n k p Q

variable {W}

theorem Bounded.triple {p : Prog E α} (h : W.Bounded n P p Q) : W.Triple P p Q :=
  fun j k hk => (h k hk).safe j

theorem Bounded.conseq {p : Prog E α} (h : W.Bounded n P' p Q') (hnm : n ≤ m)
    (hP : ∀ k, P k → P' k) (hQ : ∀ a k, Q' a k → Q a k) : W.Bounded m P p Q :=
  fun k hk => ((h k (hP k hk)).mono hQ).le hnm

theorem Bounded.le {p : Prog E α} (h : W.Bounded n P p Q) (hnm : n ≤ m) : W.Bounded m P p Q :=
  fun k hk => (h k hk).le hnm

theorem Bounded.pre {p : Prog E α} (h : W.Bounded n P' p Q) (hP : ∀ k, P k → P' k) :
    W.Bounded n P p Q := fun k hk => h k (hP k hk)

theorem Bounded.post {p : Prog E α} (h : W.Bounded n P p Q') (hQ : ∀ a k, Q' a k → Q a k) :
    W.Bounded n P p Q := fun k hk => (h k hk).mono hQ

/-- What the precondition implies may be assumed. -/
theorem Bounded.assume {p : Prog E α} {φ : Prop} (hφ : ∀ k, P k → φ)
    (h : φ → W.Bounded n P p Q) : W.Bounded n P p Q := fun k hk => h (hφ k hk) k hk

theorem Bounded.exists {ι : Sort _} {P : ι → K → Prop} {p : Prog E α}
    (h : ∀ i, W.Bounded n (P i) p Q) : W.Bounded n (fun k => ∃ i, P i k) p Q :=
  fun k ⟨i, hi⟩ => h i k hi

theorem Bounded.or {p : Prog E α} (h : W.Bounded n P p Q) (h' : W.Bounded n P' p Q) :
    W.Bounded n (fun k => P k ∨ P' k) p Q := fun k hk => hk.elim (h k) (h' k)

theorem Bounded.frame {p : Prog E α} {R : K → Prop} (h : W.Bounded n P p Q) (hst : W.Stable R)
    (hg : ∀ o k r k', W.guar o k r k' → R k → R k') :
    W.Bounded n (fun k => P k ∧ R k) p fun a k => Q a k ∧ R k :=
  fun k hk => (h k hk.1).frame hst hg hk.2

theorem Bounded.ret {a : α} (hst : W.Stable P) (h : ∀ k, P k → Q a k) :
    W.Bounded n P (pure a) Q := by
  intro k hk
  cases n with
  | zero => exact fun k' hr => h k' (hst k k' hr hk)
  | succ n => exact fun k' hr => h k' (hst k k' hr hk)

theorem Bounded.bind {p : Prog E α} {f : α → Prog E β} {M : α → K → Prop}
    {Q : β → K → Prop} (h : W.Bounded n P p M) (hf : ∀ a, W.Bounded m (M a) (f a) Q) :
    W.Bounded (n + m) P (p >>= f) Q :=
  fun k hk => (h k hk).bind fun a k hM => hf a k hM

/-- A value that is there already takes no move. -/
theorem Bounded.pure_bind {a : α} {f : α → Prog E β} {Q : β → K → Prop}
    (h : W.Bounded n P (f a) Q) : W.Bounded n P (pure a >>= f) Q :=
  fun k hk => (h k hk).congr_head (Prog.head_bind_ret rfl).symm

/-- One operation, then the rest. -/
theorem Bounded.op {o : E.Op} {f : E.Resp o → Prog E α} {M : E.Resp o → K → Prop}
    (hst : W.Stable P) (hlive : ∀ k, P k → ∃ r k', W.sem o k r k')
    (h : ∀ k r k', P k → W.sem o k r k' → W.guar o k r k' ∧ M r k')
    (hf : ∀ r, W.Bounded n (M r) (f r) Q) : W.Bounded (n + 1) P (Prog.op o >>= f) Q := by
  intro k hk k' hr
  refine ⟨hlive k' (hst k k' hr hk), fun r k'' hs => ?_⟩
  obtain ⟨hg, hM⟩ := h k' r k'' (hst k k' hr hk) hs
  exact ⟨hg, (hf r k'' hM).congr_head (Prog.head_bind_ret rfl).symm⟩

/-- One operation at the end of a program. -/
theorem Bounded.last {o : E.Op} {Q : E.Resp o → K → Prop} (hst : W.Stable P)
    (hQ : ∀ r, W.Stable (Q r)) (hlive : ∀ k, P k → ∃ r k', W.sem o k r k')
    (h : ∀ k r k', P k → W.sem o k r k' → W.guar o k r k' ∧ Q r k') :
    W.Bounded 1 P (Prog.op o) Q := by
  intro k hk k' hr
  refine ⟨hlive k' (hst k k' hr hk), fun r k'' hs => ?_⟩
  obtain ⟨hg, hM⟩ := h k' r k'' (hst k k' hr hk) hs
  exact ⟨hg, Bounded.ret (hQ r) (fun _ => id) k'' hM⟩

/-- One round of a loop, then `again`. -/
theorem Within.round {body : σ → Prog E (σ ⊕ α)} {s : σ}
    (h : W.Within n k (body s) fun c k => W.Within m k (Prog.again body c) Q) :
    W.Within (n + m + 1) k (Prog.iter body s) Q := by
  intro k' hr
  have hk := Within.le (m := n + 1) (Nat.le_succ n) h k' hr
  cases hp : (body s).head with
  | ret c =>
    rw [hp] at hk
    cases c with
    | inl s' => rw [Prog.head_iter_inl hp]; exact Within.le (by omega) hk
    | inr a =>
      rw [Prog.head_iter_inr hp]
      cases m with
      | zero => exact hk k' (W.rely_refl k')
      | succ m => exact hk k' (W.rely_refl k')
  | spin p =>
    rw [hp] at hk
    rw [Prog.head_iter_spin hp]
    exact hk.bind fun _ _ => id
  | call o f =>
    rw [hp] at hk
    rw [Prog.head_iter_call hp]
    refine ⟨hk.1, fun r k'' hs => ?_⟩
    obtain ⟨hg, hw⟩ := hk.2 r k'' hs
    exact ⟨hg, hw.bind fun _ _ => id⟩

/-- A loop whose invariant comes with a measure that every round decreases.  Each
    round takes at most `b` moves, and one more closes it. -/
theorem Bounded.iter {body : σ → Prog E (σ ⊕ α)} {I : Nat → σ → K → Prop} {b : Nat}
    (hQ : ∀ a, W.Stable (Q a))
    (h : ∀ v s, W.Bounded b (I v s) (body s) fun c k =>
      c.elim (fun s' => ∃ v' < v, I v' s' k) fun a => Q a k) (v : Nat) (s : σ) :
    W.Bounded ((v + 1) * (b + 1)) (I v s) (Prog.iter body s) Q := by
  induction v using Nat.strong_induction_on generalizing s with
  | _ v ih =>
    intro k hk
    have hround : W.Within b k (body s) fun c k =>
        W.Within (v * (b + 1)) k (Prog.again body c) Q := by
      refine (h v s k hk).mono fun c k' hc => ?_
      cases c with
      | inl s' =>
        obtain ⟨v', hv, hI⟩ := hc
        refine Within.le ?_ (ih v' hv s' k' hI)
        exact Nat.mul_le_mul_right _ hv
      | inr a => exact Bounded.ret (hQ a) (fun _ => id) k' hc
    have := hround.round
    rwa [show (v + 1) * (b + 1) = b + v * (b + 1) + 1 by ring]

end Env
end Interact
