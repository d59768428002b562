/-
  AnekVideo.Interact.Triple

  Rely-guarantee triples for the programs of `Prog`.

  An `Env` is what one thread sees of the world: what its operations may do
  (`sem`), what the others may do between any two of its operations (`rely`)
  and what it promises about each of its own operations (`guar`).

  `Env.Safe n k p Q` says that `p`, started in `k`, keeps its promise for `n`
  of its own moves and, should it return within them, returns in `Q`.
  `Env.Triple P p Q` asks this for every `n`, so it is partial correctness
  over every interference.  `Env.Within n k p Q` is the total reading: `p`
  returns within `n` of its own moves and is never stuck on the way.
-/
import AnekVideo.Interact.Prog

namespace Interact

/-- What an operation may do: from a state, to a response and a state. -/
abbrev OpSem (E : Iface) (K : Type) := (o : E.Op) → K → E.Resp o → K → Prop

/-- What one thread sees of the world. -/
structure Env (E : Iface) (K : Type) where
  sem : OpSem E K
  rely : K → K → Prop
  guar : OpSem E K
  rely_refl : ∀ k, rely k k
  rely_trans : ∀ {k₁ k₂ k₃}, rely k₁ k₂ → rely k₂ k₃ → rely k₁ k₃

/-- What holds after an operation that may fail: `bad` of its error, or `good` of its
    value. -/
@[reducible] def onResult {ε α K : Type} (bad : ε → K → Prop) (good : α → K → Prop) :
    Except ε α → K → Prop
  | .error e => bad e
  | .ok a => good a

namespace Env

variable {E : Iface} {K : Type} {α β σ : Type} (W : Env E K)

/-- `p` keeps its promises for `n` moves and returns only in `Q`. -/
def Safe : Nat → K → Prog E α → (α → K → Prop) → Prop
  | 0, _, _, _ => True
  | n + 1, k, p, Q => ∀ k', W.rely k k' →
    match p.head with
    | .ret a => Q a k'
    | .spin p' => Safe n k' p' Q
    | .call o f => ∀ r k'', W.sem o k' r k'' → W.guar o k' r k'' ∧ Safe n k'' (f r) Q

/-- `p` returns in `Q` within `n` moves, keeps its promises and is never stuck. -/
def Within : Nat → K → Prog E α → (α → K → Prop) → Prop
  | 0, k, p, Q => ∀ k', W.rely k k' →
    match p.head with
    | .ret a => Q a k'
    | .spin _ => False
    | .call _ _ => False
  | n + 1, k, p, Q => ∀ k', W.rely k k' →
    match p.head with
    | .ret a => Q a k'
    | .spin p' => Within n k' p' Q
    | .call o f => (∃ r k'', W.sem o k' r k'') ∧
        ∀ r k'', W.sem o k' r k'' → W.guar o k' r k'' ∧ Within n k'' (f r) Q

/-- Partial correctness under interference. -/
def Triple (P : K → Prop) (p : Prog E α) (Q : α → K → Prop) : Prop :=
  ∀ n k, P k → W.Safe n k p Q

/-- Interference does not falsify `P`. -/
def Stable (P : K → Prop) : Prop := ∀ k k', W.rely k k' → P k → P k'

variable {W} {P P' : K → Prop} {Q Q' : α → K → Prop} {k k' : K} {n m : Nat}

theorem Stable.and (h : W.Stable P) (h' : W.Stable P') : W.Stable fun k => P k ∧ P' k :=
  fun k k' hr hk => ⟨h k k' hr hk.1, h' k k' hr hk.2⟩

theorem Stable.const (φ : Prop) : W.Stable fun _ => φ := fun _ _ _ h => h

theorem Stable.exists {ι : Sort _} {P : ι → K → Prop} (h : ∀ i, W.Stable (P i)) :
    W.Stable fun k => ∃ i, P i k :=
  fun k k' hr ⟨i, hi⟩ => ⟨i, h i k k' hr hi⟩

/-! ## Safety -/

theorem Safe.rely {p : Prog E α} (h : W.Safe n k p Q) (hr : W.rely k k') :
    W.Safe n k' p Q := by
  cases n with
  | zero => trivial
  | succ n => exact fun k'' hr' => h k'' (W.rely_trans hr hr')

theorem Safe.mono {p : Prog E α} (h : W.Safe n k p Q) (hQ : ∀ a k, Q a k → Q' a k) :
    W.Safe n k p Q' := by
  induction n generalizing k p with
  | zero => trivial
  | succ n ih =>
    intro k' hr
    have := h k' hr
    revert this
    cases p.head with
    | ret a => exact hQ a k'
    | spin p' => exact fun h' => ih h'
    | call o f => exact fun h' r k'' hs => ⟨(h' r k'' hs).1, ih (h' r k'' hs).2⟩

theorem Safe.le {p : Prog E α} (hmn : m ≤ n) (h : W.Safe n k p Q) : W.Safe m k p Q := by
  induction m generalizing n k p with
  | zero => trivial
  | succ m ih =>
    obtain ⟨n, rfl⟩ : ∃ n', n = n' + 1 := ⟨n - 1, by omega⟩
    have hmn : m ≤ n := by omega
    intro k' hr
    have hk := h k' hr
    revert hk
    cases p.head with
    | ret a => exact id
    | spin p' => exact fun h' => ih hmn h'
    | call o f => exact fun h' r k'' hs => ⟨(h' r k'' hs).1, ih hmn (h' r k'' hs).2⟩

/-- Only the head of a program matters. -/
theorem Safe.congr_head {p q : Prog E α} (hpq : p.head = q.head) (h : W.Safe n k p Q) :
    W.Safe n k q Q := by
  cases n with
  | zero => trivial
  | succ n =>
    intro k' hr
    have := h k' hr
    rwa [hpq] at this

theorem Safe.bind {p : Prog E α} {f : α → Prog E β} {M : α → K → Prop}
    {Q : β → K → Prop} (h : W.Safe n k p M)
    (hf : ∀ a k j, j ≤ n → M a k → W.Safe j k (f a) Q) :
    W.Safe n k (Prog.bind p f) Q := by
  induction n generalizing k p with
  | zero => trivial
  | succ n ih =>
    intro k' hr
    have hk := h k' hr
    cases hp : p.head with
    | ret a =>
      rw [hp] at hk
      have hfa := hf a k' (n + 1) (Nat.le_refl _) hk k' (W.rely_refl k')
      rw [Prog.head_bind_ret hp]
      exact hfa
    | spin p' =>
      rw [hp] at hk
      rw [Prog.head_bind_spin hp]
      exact ih hk fun a k j hj => hf a k j (Nat.le_succ_of_le hj)
    | call o g =>
      rw [hp] at hk
      rw [Prog.head_bind_call hp]
      intro r k'' hs
      obtain ⟨hg, hsafe⟩ := hk r k'' hs
      exact ⟨hg, ih hsafe fun a k j hj => hf a k j (Nat.le_succ_of_le hj)⟩

/-! ## Rules for triples -/

theorem Triple.conseq {p : Prog E α} (h : W.Triple P' p Q') (hP : ∀ k, P k → P' k)
    (hQ : ∀ a k, Q' a k → Q a k) : W.Triple P p Q :=
  fun n k hk => (h n k (hP k hk)).mono hQ

theorem Triple.pre {p : Prog E α} (h : W.Triple P' p Q) (hP : ∀ k, P k → P' k) :
    W.Triple P p Q := h.conseq hP fun _ _ => id

theorem Triple.post {p : Prog E α} (h : W.Triple P p Q') (hQ : ∀ a k, Q' a k → Q a k) :
    W.Triple P p Q := h.conseq (fun _ => id) hQ

/-- What the precondition implies may be assumed. -/
theorem Triple.assume {p : Prog E α} {φ : Prop} (hφ : ∀ k, P k → φ)
    (h : φ → W.Triple P p Q) :
    W.Triple P p Q :=
  fun n k hk => h (hφ k hk) n k hk

theorem Triple.exists {ι : Sort _} {P : ι → K → Prop} {p : Prog E α}
    (h : ∀ i, W.Triple (P i) p Q) : W.Triple (fun k => ∃ i, P i k) p Q :=
  fun n k ⟨i, hi⟩ => h i n k hi

theorem Triple.ret {a : α} (hst : W.Stable P) (h : ∀ k, P k → Q a k) :
    W.Triple P (pure a) Q := by
  intro n k hk
  cases n with
  | zero => trivial
  | succ n => exact fun k' hr => h k' (hst k k' hr hk)

theorem Triple.bind {p : Prog E α} {f : α → Prog E β} {M : α → K → Prop}
    {Q : β → K → Prop} (h : W.Triple P p M) (hf : ∀ a, W.Triple (M a) (f a) Q) :
    W.Triple P (p >>= f) Q :=
  fun n k hk => (h n k hk).bind fun a k j _ hM => hf a j k hM

/-- One operation, then the rest.  The state `M r` it leaves need not be stable:
    the rest states what it needs of it. -/
theorem Triple.op {o : E.Op} {f : E.Resp o → Prog E α} {M : E.Resp o → K → Prop}
    (hst : W.Stable P)
    (h : ∀ k r k', P k → W.sem o k r k' → W.guar o k r k' ∧ M r k')
    (hf : ∀ r, W.Triple (M r) (f r) Q) : W.Triple P (Prog.op o >>= f) Q := by
  intro n k hk
  cases n with
  | zero => trivial
  | succ n =>
    intro k' hr r k'' hs
    obtain ⟨hg, hM⟩ := h k' r k'' (hst k k' hr hk) hs
    refine ⟨hg, ?_⟩
    exact (hf r n k'' hM).congr_head (Prog.head_bind_ret rfl).symm

/-- One operation at the end of a program. -/
theorem Triple.last {o : E.Op} {Q : E.Resp o → K → Prop} (hst : W.Stable P)
    (hQ : ∀ r, W.Stable (Q r))
    (h : ∀ k r k', P k → W.sem o k r k' → W.guar o k r k' ∧ Q r k') :
    W.Triple P (Prog.op o) Q := by
  intro n k hk
  cases n with
  | zero => trivial
  | succ n =>
    intro k' hr r k'' hs
    obtain ⟨hg, hM⟩ := h k' r k'' (hst k k' hr hk) hs
    exact ⟨hg, (Triple.ret (hQ r) fun _ => id) n k'' hM⟩

/-- A program whose operations all keep `P` keeps `P`. -/
theorem Triple.only {ok : E.Op → Prop} {p : Prog E α} (hp : p.Only ok) (hst : W.Stable P)
    (h : ∀ o k r k', ok o → P k → W.sem o k r k' → W.guar o k r k' ∧ P k') :
    W.Triple P p fun _ => P := by
  intro n
  induction n generalizing p with
  | zero => intro k _; trivial
  | succ n ih =>
    intro k hk k' hr
    have hk' := hst k k' hr hk
    have hhead := hp.head
    cases hh : p.head with
    | ret a => exact hk'
    | call o f =>
      rw [hh] at hhead
      intro r k'' hs
      obtain ⟨hg, hP⟩ := h o k' r k'' hhead.1 hk' hs
      exact ⟨hg, ih (hhead.2 r) k'' hP⟩
    | spin p' =>
      rw [hh] at hhead
      exact ih hhead k' hk'

/-- What none of the operations of a program changes is there afterwards. -/
theorem Triple.frame {ok : E.Op → Prop} {p : Prog E α} {R : K → Prop} (h : W.Triple P p Q)
    (hp : p.Only ok) (hst : W.Stable R)
    (hR : ∀ o k r k', ok o → R k → W.sem o k r k' → R k') :
    W.Triple (fun k => P k ∧ R k) p fun a k => Q a k ∧ R k := by
  have hsafe : ∀ n k, W.Safe n k p Q → R k → W.Safe n k p fun a k => Q a k ∧ R k := by
    clear h
    intro n
    induction n generalizing p with
    | zero => intro k _ _; trivial
    | succ n ih =>
      intro k hs hk k' hr
      have hk' := hst k k' hr hk
      have hs' := hs k' hr
      have hhead := hp.head
      cases hh : p.head with
      | ret a => rw [hh] at hs'; exact ⟨hs', hk'⟩
      | call o f =>
        rw [hh] at hs' hhead
        intro r k'' he
        obtain ⟨hg, hsf⟩ := hs' r k'' he
        exact ⟨hg, ih (hhead.2 r) k'' hsf (hR o k' r k'' hhead.1 hk' he)⟩
      | spin p' =>
        rw [hh] at hs' hhead
        exact ih hhead k' hs' hk'
  exact fun n k hk => hsafe n k (h n k hk.1) hk.2

/-- A loop keeps its invariant. -/
theorem Triple.iter {body : σ → Prog E (σ ⊕ α)} {I : σ → K → Prop}
    (h : ∀ s, W.Triple (I s) (body s) fun r k => r.elim (fun s' => I s' k) fun a => Q a k)
    (hQ : ∀ a, W.Stable (Q a)) (s : σ) :
    W.Triple (I s) (Prog.iter body s) Q := by
  intro n
  induction n generalizing s with
  | zero => intro k _; trivial
  | succ n ih =>
    intro k hk k' hr
    -- what comes after the body: another round, or the result
    have hagain : ∀ (c : σ ⊕ α) k j, j ≤ n →
        (c.elim (fun s' => I s' k) fun a => Q a k) → W.Safe j k (Prog.again body c) Q := by
      intro c k j hj hc
      cases c with
      | inl s' => exact (ih s' k hc).le hj
      | inr a => exact Triple.ret (hQ a) (fun _ => id) j k hc
    have hbody := h s (n + 1) k hk k' hr
    cases hp : (body s).head with
    | ret c =>
      rw [hp] at hbody
      cases c with
      | inl s' => rw [Prog.head_iter_inl hp]; exact ih s' k' hbody
      | inr a => rw [Prog.head_iter_inr hp]; exact hbody
    | spin p =>
      rw [hp] at hbody
      rw [Prog.head_iter_spin hp]
      exact Safe.bind hbody hagain
    | call o f =>
      rw [hp] at hbody
      rw [Prog.head_iter_call hp]
      intro r k'' hs
      obtain ⟨hg, hsafe⟩ := hbody r k'' hs
      exact ⟨hg, Safe.bind hsafe hagain⟩

/-! ## What a program asks for and returns -/

/-- The outside that may answer anything; only the operations are watched. -/
def spy (ok : E.Op → Prop) : Env E Unit where
  sem := fun _ _ _ _ => True
  rely := fun _ _ => True
  guar := fun o _ _ _ => ok o
  rely_refl := fun _ => trivial
  rely_trans := fun _ _ => trivial

end Env

namespace Prog

variable {E : Iface} {α β σ : Type}

/-- Whatever it is answered, `p` issues only operations in `ok` and returns only
    values in `Q`. -/
def Obeys (ok : E.Op → Prop) (p : Prog E α) (Q : α → Prop) : Prop :=
  (Env.spy ok).Triple (fun _ => True) p fun a _ => Q a

variable {ok : E.Op → Prop} {Q Q' : α → Prop} {R : β → Prop}

theorem Obeys.ret {a : α} (h : Q a) : Obeys ok (pure a) Q :=
  Env.Triple.ret (fun _ _ _ => id) fun _ _ => h

theorem Obeys.bind {p : Prog E α} {f : α → Prog E β} (h : Obeys ok p Q)
    (hf : ∀ a, Q a → Obeys ok (f a) R) : Obeys ok (p >>= f) R :=
  Env.Triple.bind h fun a => Env.Triple.assume (fun _ => id) fun ha =>
    (hf a ha).pre fun _ _ => trivial

theorem Obeys.op {o : E.Op} {f : E.Resp o → Prog E β} (ho : ok o)
    (hf : ∀ r, Obeys ok (f r) R) :
    Obeys ok (Prog.op o >>= f) R :=
  Env.Triple.op (M := fun _ _ => True) (fun _ _ _ => id) (fun _ _ _ _ _ => ⟨ho, trivial⟩) hf

theorem Obeys.only {p : Prog E α} (hp : p.Only ok) : Obeys ok p fun _ => True :=
  Env.Triple.only hp (fun _ _ _ => id) fun _ _ _ _ ho _ _ => ⟨ho, trivial⟩

/-- What a program asks for first is among what it may ask for. -/
theorem Obeys.first {p : Prog E α} (h : Obeys ok p Q) {o : E.Op} {f : E.Resp o → Prog E α}
    (hp : p.head = .call o f) (r : E.Resp o) : ok o := by
  have hk := h 1 () trivial () trivial
  rw [hp] at hk
  exact (hk r () trivial).1

theorem Obeys.post {p : Prog E α} (h : Obeys ok p Q) (hQ : ∀ a, Q a → Q' a) : Obeys ok p Q' :=
  Env.Triple.post h fun a _ => hQ a

end Prog
end Interact
