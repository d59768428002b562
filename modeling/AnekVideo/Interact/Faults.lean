/-
  AnekVideo.Interact.Faults

  Programs over a state that return or fault, as functions, and loops with a bound on
  their rounds.
-/
import Mathlib

namespace Interact

/-- Programs over the states `S` that may fault. -/
abbrev Faulty (S F : Type) := StateT S (Except F)

namespace Faulty

variable {S F α β σ : Type} {k k' : S}

theorem pure_run (a : α) (k : S) : (pure a : Faulty S F α) k = .ok (a, k) := rfl

/-- The first part by what it returns. -/
theorem bind_run {m : Faulty S F α} {g : α → Faulty S F β} {a : α} (h : m k = .ok (a, k')) :
    (m >>= g) k = g a k' := by
  simp only [bind, StateT.bind, h, Except.bind]

theorem bind_error {m : Faulty S F α} {g : α → Faulty S F β} {f : F} (h : m k = .error f) :
    (m >>= g) k = .error f := by
  simp only [bind, StateT.bind, h, Except.bind]

/-- At most `n` rounds of a loop; a further one faults. -/
def rounds (stuck : F) (body : σ → Faulty S F (σ ⊕ α)) : Nat → σ → Faulty S F α
  | 0, _ => throw stuck
  | n + 1, x => do
    match ← body x with
    | .inl x' => rounds stuck body n x'
    | .inr a => return a

variable {stuck : F} {body : σ → Faulty S F (σ ⊕ α)} {n : Nat} {x x' : σ} {a : α}

theorem rounds_again (h : body x k = .ok (.inl x', k')) :
    rounds stuck body (n + 1) x k = rounds stuck body n x' k' := bind_run h

theorem rounds_done (h : body x k = .ok (.inr a, k')) :
    rounds stuck body (n + 1) x k = .ok (a, k') := bind_run h

theorem rounds_error {f : F} (h : body x k = .error f) :
    rounds stuck body (n + 1) x k = .error f := bind_error h

/-- A loop whose rounds keep `I` and always ask for another uses up every bound. -/
theorem rounds_stuck (I : σ → S → Prop)
    (h : ∀ x k, I x k → body x k = .error stuck ∨ ∃ x' k', body x k = .ok (.inl x', k') ∧
      I x' k')
    (hI : I x k) :
    rounds stuck body n x k = .error stuck := by
  induction n generalizing x k with
  | zero => rfl
  | succ n ih =>
    rcases h x k hI with hb | ⟨x', k', hb, hI'⟩
    · exact rounds_error hb
    · rw [rounds_again hb]
      exact ih hI'

/-- A loop whose rounds keep `I` and use up `μ`. -/
theorem exists_rounds {Q : α → S → Prop} (I : σ → S → Prop) (μ : σ → S → Nat)
    (h : ∀ x k, I x k → (∃ x' k', body x k = .ok (.inl x', k') ∧ I x' k' ∧ μ x' k' < μ x k) ∨
      ∃ a k', body x k = .ok (.inr a, k') ∧ Q a k') (hI : I x k) (hn : μ x k < n) :
    ∃ a k', rounds stuck body n x k = .ok (a, k') ∧ Q a k' := by
  induction n generalizing x k with
  | zero => exact absurd hn (Nat.not_lt_zero _)
  | succ n ih =>
    rcases h x k hI with ⟨x', k', hb, hI', hlt⟩ | ⟨a, k', hb, hQ⟩
    · rw [rounds_again hb]
      exact ih hI' (by omega)
    · exact ⟨a, k', rounds_done hb, hQ⟩

/-! ## Bounds -/

/-- Where the first program returns, so does the second, with the same result.

    A program with a wider bound on its loops is above the one with the narrower bound. -/
def Le (m m' : Faulty S F α) : Prop := ∀ k r, m k = .ok r → m' k = .ok r

namespace Le

theorem refl {m : Faulty S F α} : Le m m := fun _ _ h => h

theorem error {f : F} {m : Faulty S F α} : Le (throw f) m := by
  intro k r h
  cases h

theorem bind {m m' : Faulty S F α} {g g' : α → Faulty S F β} (h : Le m m')
    (hg : ∀ a, Le (g a) (g' a)) :
    Le (m >>= g) (m' >>= g') := by
  intro k r hr
  cases hm : m k with
  | error f =>
    simp only [Bind.bind, StateT.bind, hm, Except.bind] at hr
    cases hr
  | ok p =>
    obtain ⟨a, k'⟩ := p
    rw [bind_run hm] at hr
    rw [bind_run (h k _ hm)]
    exact hg a k' r hr

theorem ite {c : Prop} [Decidable c] {a a' b b' : Faulty S F α} (ha : Le a a') (hb : Le b b') :
    Le (if c then a else b) (if c then a' else b') := by
  split
  · exact ha
  · exact hb

theorem rounds {body' : σ → Faulty S F (σ ⊕ α)} {m : Nat}
    (hb : ∀ x, Le (body x) (body' x)) (hn : n ≤ m) :
    Le (rounds stuck body n x) (rounds stuck body' m x) := by
  induction n generalizing m x with
  | zero => exact error
  | succ n ih =>
    cases m with
    | zero => exact absurd hn (Nat.not_succ_le_zero n)
    | succ m =>
      refine bind (hb x) fun r => ?_
      cases r with
      | inl x' => exact ih (Nat.le_of_succ_le_succ hn)
      | inr a => exact refl

end Le

/-- What a program with a bound ends in: the result that some bound and all wider ones give. -/
def Ends (m : Nat → Faulty S F α) (k : S) (a : α) (k' : S) : Prop :=
  ∃ N, ∀ n, N ≤ n → m n k = .ok (a, k')

theorem Ends.of_run {m : Nat → Faulty S F α} (hm : ∀ i j, i ≤ j → Le (m i) (m j))
    (h : m n k = .ok (a, k')) :
    Ends m k a k' := ⟨n, fun j hj => hm n j hj k _ h⟩

theorem Ends.unique {m : Nat → Faulty S F α} {b : α} {k'' : S} (h : Ends m k a k')
    (h' : Ends m k b k'') :
    a = b ∧ k' = k'' := by
  obtain ⟨N, hN⟩ := h
  obtain ⟨M, hM⟩ := h'
  have heq := (hN (max N M) (le_max_left ..)).symm.trans (hM (max N M) (le_max_right ..))
  obtain ⟨ha, hk⟩ := Prod.mk.injEq .. ▸ Except.ok.inj heq
  exact ⟨ha, hk⟩

end Faulty
end Interact
