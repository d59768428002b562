/-
  AnekVideo.Interact.Total

  Total correctness of a program that runs alone, without a bound on its moves:
  `Ends sem stop p k Q` says that every run of `p` from `k` ends and returns in
  `Q`, except where an operation in `stop` has no outcome.

  The rules read a program forwards from one state; a loop is unrolled round by
  round, so its termination argument is the induction around the rule.
-/
import AnekVideo.Interact.Exec

namespace Interact

variable {E : Iface} {K : Type} {α β σ : Type}

/-- Every run of `p` from `k` ends in `Q` or stops at an operation in `stop`. -/
inductive Ends (sem : OpSem E K) (stop : E.Op → Prop) {α : Type} (Q : α → K → Prop) :
    Prog E α → K → Prop
  | done {p : Prog E α} {k : K} {a : α} : p.head = .ret a → Q a k → Ends sem stop Q p k
  | spin {p p' : Prog E α} {k : K} :
      p.head = .spin p' → Ends sem stop Q p' k → Ends sem stop Q p k
  | call {p : Prog E α} {o : E.Op} {f : E.Resp o → Prog E α} {k : K} :
      p.head = .call o f → (stop o ∨ ∃ r k', sem o k r k') →
      (∀ r k', sem o k r k' → Ends sem stop Q (f r) k') → Ends sem stop Q p k

namespace Ends

variable {sem : OpSem E K} {stop : E.Op → Prop} {Q Q' : α → K → Prop} {k k' : K}
  {p q : Prog E α} {a : α}

theorem congr_head (hpq : p.head = q.head) (h : Ends sem stop Q p k) : Ends sem stop Q q k := by
  cases h with
  | done hp hQ => exact .done (hpq ▸ hp) hQ
  | spin hp h => exact .spin (hpq ▸ hp) h
  | call hp hlive h => exact .call (hpq ▸ hp) hlive h

theorem mono (h : Ends sem stop Q p k) (hQ : ∀ a k, Q a k → Q' a k) : Ends sem stop Q' p k := by
  induction h with
  | done hp hk => exact .done hp (hQ _ _ hk)
  | spin hp _ ih => exact .spin hp ih
  | call hp hlive _ ih => exact .call hp hlive ih

theorem pure (h : Q a k) : Ends sem stop Q (Pure.pure a) k := .done rfl h

theorem bind {f : α → Prog E β} {R : β → K → Prop}
    (h : Ends sem stop (fun a k => Ends sem stop R (f a) k) p k) : Ends sem stop R (p >>= f) k := by
  induction h with
  | done hp hk => exact hk.congr_head (Prog.head_bind_ret hp).symm
  | spin hp _ ih => exact .spin (Prog.head_bind_spin hp) ih
  | call hp hlive _ ih => exact .call (Prog.head_bind_call hp) hlive ih

/-- The first part by its own specification. -/
theorem seq {f : α → Prog E β} {R : β → K → Prop} (h : Ends sem stop Q p k)
    (hf : ∀ a k, Q a k → Ends sem stop R (f a) k) : Ends sem stop R (p >>= f) k :=
  .bind (h.mono hf)

/-- One operation, then the rest. -/
theorem op {o : E.Op} {f : E.Resp o → Prog E α} (hlive : stop o ∨ ∃ r k', sem o k r k')
    (h : ∀ r k', sem o k r k' → Ends sem stop Q (f r) k') :
    Ends sem stop Q (Prog.op o >>= f) k :=
  .call (Prog.head_bind_call rfl) hlive fun r k' hs =>
    (h r k' hs).congr_head (Prog.head_bind_ret rfl).symm

/-- One operation at the end of a program. -/
theorem last {o : E.Op} {Q : E.Resp o → K → Prop} (hlive : stop o ∨ ∃ r k', sem o k r k')
    (h : ∀ r k', sem o k r k' → Q r k') : Ends sem stop Q (Prog.op o) k :=
  .call rfl hlive fun r k' hs => .pure (h r k' hs)

/-- One operation whose outcome no choice changes, then the rest. -/
theorem op_det {Choice : Type} {exec : Choice → (o : E.Op) → K → Option (E.Resp o × K)}
    {o : E.Op} {f : E.Resp o → Prog E α} {r : E.Resp o} (ch : Choice)
    (he : ∀ ch, exec ch o k = some (r, k'))
    (h : Ends (fun o k r k' => ∃ ch, exec ch o k = some (r, k')) stop Q (f r) k') :
    Ends (fun o k r k' => ∃ ch, exec ch o k = some (r, k')) stop Q (Prog.op o >>= f) k := by
  refine .op (.inr ⟨r, k', ch, he ch⟩) fun r' k₁ hs => ?_
  obtain ⟨ch', hs⟩ := hs
  rw [he ch'] at hs
  cases hs
  exact h

theorem last_det {Choice : Type} {exec : Choice → (o : E.Op) → K → Option (E.Resp o × K)}
    {o : E.Op} {Q : E.Resp o → K → Prop} {r : E.Resp o} (ch : Choice)
    (he : ∀ ch, exec ch o k = some (r, k')) (h : Q r k') :
    Ends (fun o k r k' => ∃ ch, exec ch o k = some (r, k')) stop Q (Prog.op o) k := by
  refine .last (.inr ⟨r, k', ch, he ch⟩) fun r' k₁ hs => ?_
  obtain ⟨ch', hs⟩ := hs
  rw [he ch'] at hs
  cases hs
  exact h

/-- One round of a loop. -/
theorem round {body : σ → Prog E (σ ⊕ α)} {s : σ}
    (h : Ends sem stop (fun c k => Ends sem stop Q (Prog.again body c) k) (body s) k) :
    Ends sem stop Q (Prog.iter body s) k := by
  cases h with
  | @done _ _ c hp hk =>
    cases c with
    | inl s' => exact .spin (Prog.head_iter_inl hp) hk
    | inr a =>
      have hret : Ends sem stop Q (.ret a) k := hk
      exact hret.congr_head ((Prog.head_ret a).trans (Prog.head_iter_inr hp).symm)
  | spin hp h => exact .spin (Prog.head_iter_spin hp) h.bind
  | call hp hlive h => exact .call (Prog.head_iter_call hp) hlive fun r k' hs => (h r k' hs).bind

/-- A loop whose rounds use up `μ`.  Each round says what the loop does from where it stands,
    given what it does from where the round leaves it. -/
theorem iter {body : σ → Prog E (σ ⊕ α)} {I : σ → K → Prop}
    {R : σ → K → α → K → Prop} (μ : σ → K → Nat)
    (h : ∀ s k, I s k → Ends sem stop
      (fun c k' => c.elim
        (fun s' => I s' k' ∧ μ s' k' < μ s k ∧ ∀ a k'', R s' k' a k'' → R s k a k'')
        fun a => R s k a k') (body s) k) {s : σ} (hI : I s k) :
    Ends sem stop (R s k) (Prog.iter body s) k := by
  generalize hm : μ s k = m
  induction m using Nat.strong_induction_on generalizing s k with
  | _ m ih =>
    refine .round ((h s k hI).mono fun c k' hc => ?_)
    cases c with
    | inl s' =>
      obtain ⟨hI', hlt, hR⟩ := hc
      have hrest : Ends sem stop (R s' k') (Prog.iter body s') k' := ih _ (hm ▸ hlt) hI' rfl
      exact hrest.mono hR
    | inr a => exact .pure hc

/-- What the specification says holds of every run. -/
theorem exec (h : Ends sem stop Q p k) (he : Exec sem p k a k') : Q a k' := by
  induction h generalizing a k' with
  | done hp hk =>
    cases he with
    | ret hp' => rw [hp] at hp'; cases hp'; exact hk
    | spin hp' _ => rw [hp] at hp'; cases hp'
    | call hp' _ _ => rw [hp] at hp'; cases hp'
  | spin hp _ ih =>
    cases he with
    | ret hp' => rw [hp] at hp'; cases hp'
    | spin hp' he => rw [hp] at hp'; cases hp'; exact ih he
    | call hp' _ _ => rw [hp] at hp'; cases hp'
  | call hp _ _ ih =>
    cases he with
    | ret hp' => rw [hp] at hp'; cases hp'
    | spin hp' _ => rw [hp] at hp'; cases hp'
    | call hp' hs he => rw [hp] at hp'; cases hp'; exact ih _ _ hs he

/-- A program that stops nowhere has a run to its end. -/
theorem exists_exec (h : Ends sem stop Q p k) (hstop : ∀ o, ¬ stop o) :
    ∃ a k', Exec sem p k a k' ∧ Q a k' := by
  induction h with
  | done hp hk => exact ⟨_, _, .ret hp, hk⟩
  | spin hp _ ih =>
    obtain ⟨a, k', he, hQ⟩ := ih
    exact ⟨a, k', .spin hp he, hQ⟩
  | call hp hlive _ ih =>
    obtain ⟨r, k₁, hs⟩ := hlive.resolve_left (hstop _)
    obtain ⟨a, k', he, hQ⟩ := ih r k₁ hs
    exact ⟨a, k', .call hp hs he, hQ⟩

end Ends

/-- A program that returns within a bound, whatever the others do, ends on its own. -/
theorem Env.Within.ends {W : Env E K} {Q : α → K → Prop} {p : Prog E α} {k : K} {n : Nat}
    (h : W.Within n k p Q) : Ends W.sem (fun _ => False) Q p k := by
  induction n generalizing k p with
  | zero =>
    cases hp : p.head with
    | ret a => exact .done hp (h.of_ret hp)
    | spin p' =>
      obtain ⟨j, hj, -⟩ := h.of_spin hp
      cases hj
    | call o f =>
      obtain ⟨-, j, hj, -⟩ := h.of_call hp
      cases hj
  | succ n ih =>
    cases hp : p.head with
    | ret a => exact .done hp (h.of_ret hp)
    | spin p' =>
      obtain ⟨j, hj, hw⟩ := h.of_spin hp
      cases hj
      exact .spin hp (ih hw)
    | call o f =>
      obtain ⟨hlive, j, hj, hw⟩ := h.of_call hp
      cases hj
      refine .call hp (.inr hlive) fun r k' hs => ?_
      obtain ⟨-, hw'⟩ := hw r k' hs
      exact ih hw'

end Interact
