/-
  AnekVideo.Interact.Exec

  A program that runs alone: `Exec sem p k a k'` says that `p`, started in `k`
  with nobody else acting, can return `a` and leave `k'`.  A triple proved under
  interference covers these runs, and a bounded program has one.
-/
import AnekVideo.Interact.Bounded

namespace Interact

variable {E : Iface} {K : Type} {α : Type}

/-- Runs of one program to its end. -/
inductive Exec (sem : OpSem E K) : Prog E α → K → α → K → Prop
  | ret {p : Prog E α} {k : K} {a : α} : p.head = .ret a → Exec sem p k a k
  | spin {p p' : Prog E α} {k k' : K} {a : α} :
      p.head = .spin p' → Exec sem p' k a k' → Exec sem p k a k'
  | call {p : Prog E α} {o : E.Op} {f : E.Resp o → Prog E α} {k k₁ k' : K} {r : E.Resp o}
      {a : α} :
      p.head = .call o f → sem o k r k₁ → Exec sem (f r) k₁ a k' → Exec sem p k a k'

namespace Exec

variable {sem : OpSem E K} {β : Type} {p q : Prog E α} {f : α → Prog E β} {k k₁ k' : K}
    {a : α} {b : β}

theorem congr_head (hpq : p.head = q.head) (he : Exec sem p k a k') : Exec sem q k a k' := by
  cases he with
  | ret hp => exact .ret (hpq ▸ hp)
  | spin hp he => exact .spin (hpq ▸ hp) he
  | call hp hs he => exact .call (hpq ▸ hp) hs he

theorem pure : Exec sem (Pure.pure a) k a k := .ret rfl

/-- A run of the first part, and one of the rest. -/
theorem bind (he : Exec sem p k a k₁) (hf : Exec sem (f a) k₁ b k') :
    Exec sem (p >>= f) k b k' := by
  induction he with
  | ret hp => exact hf.congr_head (Prog.head_bind_ret hp).symm
  | spin hp _ ih => exact .spin (Prog.head_bind_spin hp) (ih hf)
  | call hp hs _ ih => exact .call (Prog.head_bind_call hp) hs (ih hf)

/-- A run of a sequence is one of its first part, and one of the rest. -/
theorem of_bind (he : Exec sem (p >>= f) k b k') :
    ∃ a k₁, Exec sem p k a k₁ ∧ Exec sem (f a) k₁ b k' := by
  generalize hq : p >>= f = q at he
  induction he generalizing p with
  | ret hp =>
    subst hq
    cases hh : p.head with
    | ret a => exact ⟨a, _, .ret hh, .ret ((Prog.head_bind_ret hh).symm.trans hp)⟩
    | call o g => cases (Prog.head_bind_call hh).symm.trans hp
    | spin p' => cases (Prog.head_bind_spin hh).symm.trans hp
  | spin hp he ih =>
    subst hq
    cases hh : p.head with
    | ret a => exact ⟨a, _, .ret hh, .spin ((Prog.head_bind_ret hh).symm.trans hp) he⟩
    | call o g => cases (Prog.head_bind_call hh).symm.trans hp
    | spin p' =>
      cases (Prog.head_bind_spin hh).symm.trans hp
      obtain ⟨a, k₁, he₁, he₂⟩ := ih rfl
      exact ⟨a, k₁, .spin hh he₁, he₂⟩
  | call hp hs he ih =>
    subst hq
    cases hh : p.head with
    | ret a => exact ⟨a, _, .ret hh, .call ((Prog.head_bind_ret hh).symm.trans hp) hs he⟩
    | call o g =>
      cases (Prog.head_bind_call hh).symm.trans hp
      obtain ⟨a, k₁, he₁, he₂⟩ := ih rfl
      exact ⟨a, k₁, .call hh hs he₁, he₂⟩
    | spin p' => cases (Prog.head_bind_spin hh).symm.trans hp

/-- A sequence that starts with a value. -/
theorem of_pure {f : α → Prog E β} (he : Exec sem (Pure.pure a >>= f) k b k') :
    Exec sem (f a) k b k' := he.congr_head (Prog.head_bind_ret rfl)

theorem mono {sem' : OpSem E K} (hsem : ∀ o k r k', sem o k r k' → sem' o k r k')
    (he : Exec sem p k a k') : Exec sem' p k a k' := by
  induction he with
  | ret hp => exact .ret hp
  | spin hp _ ih => exact .spin hp ih
  | call hp hs _ ih => exact .call hp (hsem _ _ _ _ hs) ih

/-- One operation, and a run of the rest. -/
theorem op {o : E.Op} {g : E.Resp o → Prog E β} {r : E.Resp o} (hs : sem o k r k₁)
    (he : Exec sem (g r) k₁ b k') : Exec sem (Prog.op o >>= g) k b k' :=
  bind (.call rfl hs pure) he

end Exec

/-- Plays a program on its own along a list of choices, each of which has to pass a
    check, for at most `n` moves. -/
def play {Choice : Type} (exec : Choice → (o : E.Op) → K → Option (E.Resp o × K))
    (ok : Choice → E.Op → K → Bool) :
    Nat → List Choice → Prog E α → K → Option (α × K)
  | 0, _, _, _ => none
  | n + 1, chs, p, k =>
    match p.head with
    | .ret a => some (a, k)
    | .spin p' => play exec ok n chs p' k
    | .call o f =>
      match chs with
      | [] => none
      | ch :: chs =>
        if ok ch o k then
          match exec ch o k with
          | some (r, k') => play exec ok n chs (f r) k'
          | none => none
        else none

/-- What was played is a run. -/
theorem exec_of_play {Choice : Type} {exec : Choice → (o : E.Op) → K → Option (E.Resp o × K)}
    {ok : Choice → E.Op → K → Bool} {sem : OpSem E K} {n : Nat} {chs : List Choice}
    {p : Prog E α} {k k' : K} {a : α}
    (hok : ∀ ch o k r k', ok ch o k = true → exec ch o k = some (r, k') → sem o k r k')
    (h : play exec ok n chs p k = some (a, k')) : Exec sem p k a k' := by
  induction n generalizing chs p k with
  | zero => cases h
  | succ n ih =>
    simp only [play] at h
    split at h
    · rename_i a' hp
      cases h
      exact .ret hp
    · rename_i p' hp
      exact .spin hp (ih h)
    · rename_i o f hp
      split at h
      · cases h
      · rename_i ch chs
        split at h
        · rename_i hch
          split at h
          · rename_i r k₁ he
            exact .call hp (hok ch o k r k₁ hch he) (ih h)
          · cases h
        · cases h

/-- What was played without a check is a run, and what was tested of its end holds. -/
theorem exists_exec_of_play {Choice : Type}
    {exec : Choice → (o : E.Op) → K → Option (E.Resp o × K)} {n : Nat} {chs : List Choice}
    {p : Prog E α} {k : K} {test : α × K → Bool}
    (h : ((play exec (fun _ _ _ => true) n chs p k).any test) = true) :
    ∃ a k', Exec (fun o k r k' => ∃ ch, exec ch o k = some (r, k')) p k a k' ∧
      test (a, k') = true := by
  obtain ⟨⟨a, k'⟩, hplay, ht⟩ := (Option.any_eq_true _ _).1 h
  exact ⟨a, k', exec_of_play (fun ch _ _ _ _ _ he => ⟨ch, he⟩) hplay, ht⟩

namespace Env

variable {W : Env E K} {P : K → Prop} {Q : α → K → Prop} {k k' : K} {p : Prog E α}
    {a : α} {n : Nat}

/-- A program that is safe for any number of moves returns in its postcondition. -/
theorem exec_of_safe (he : Exec W.sem p k a k') (h : ∀ n, W.Safe n k p Q) : Q a k' := by
  induction he with
  | ret hp =>
    have := h 1 _ (W.rely_refl _)
    rwa [hp] at this
  | spin hp _ ih =>
    refine ih fun n => ?_
    have := h (n + 1) _ (W.rely_refl _)
    rwa [hp] at this
  | call hp hs _ ih =>
    refine ih fun n => ?_
    have := h (n + 1) _ (W.rely_refl _)
    rw [hp] at this
    exact (this _ _ hs).2

theorem Triple.exec (h : W.Triple P p Q) (hk : P k) (he : Exec W.sem p k a k') : Q a k' :=
  exec_of_safe he fun n => h n k hk

/-- A bounded program runs to its end. -/
theorem Within.exists_exec (h : W.Within n k p Q) : ∃ a k', Exec W.sem p k a k' ∧ Q a k' := by
  induction n generalizing k p with
  | zero =>
    have hk := h k (W.rely_refl k)
    cases hp : p.head with
    | ret a => rw [hp] at hk; exact ⟨a, k, .ret hp, hk⟩
    | spin p' => rw [hp] at hk; exact hk.elim
    | call o f => rw [hp] at hk; exact hk.elim
  | succ n ih =>
    have hk := h k (W.rely_refl k)
    cases hp : p.head with
    | ret a => rw [hp] at hk; exact ⟨a, k, .ret hp, hk⟩
    | spin p' =>
      rw [hp] at hk
      obtain ⟨a, k', he, hQ⟩ := ih hk
      exact ⟨a, k', .spin hp he, hQ⟩
    | call o f =>
      rw [hp] at hk
      obtain ⟨⟨r, k₁, hs⟩, hall⟩ := hk
      obtain ⟨a, k', he, hQ⟩ := ih (hall r k₁ hs).2
      exact ⟨a, k', .call hp hs he, hQ⟩

/-- Nobody else acts and nothing is promised. -/
def alone (sem : OpSem E K) : Env E K where
  sem := sem
  rely := Eq
  guar := fun _ _ _ _ => True
  rely_refl := fun _ => rfl
  rely_trans := Eq.trans

theorem alone_stable {sem : OpSem E K} (P : K → Prop) : (alone sem).Stable P := by
  rintro k _ rfl hk
  exact hk

/-- What holds under more interference and with more outcomes holds under less and with fewer. -/
theorem Triple.restrict {W' : Env E K} (hrely : ∀ k k', W'.rely k k' → W.rely k k')
    (hsem : ∀ o k r k', W'.sem o k r k' → W.sem o k r k')
    (hguar : ∀ o k r k', W.guar o k r k' → W'.guar o k r k') (h : W.Triple P p Q) :
    W'.Triple P p Q := by
  have hsafe : ∀ n k (p : Prog E α), W.Safe n k p Q → W'.Safe n k p Q := by
    intro n
    induction n with
    | zero => intro k p _; trivial
    | succ n ih =>
      intro k p hs k' hr
      have hk := hs k' (hrely k k' hr)
      revert hk
      cases p.head with
      | ret a => exact id
      | spin p' => exact fun h' => ih k' p' h'
      | call o f =>
        intro h' r k'' hs'
        obtain ⟨hg, hrest⟩ := h' r k'' (hsem o k' r k'' hs')
        exact ⟨hguar o k' r k'' hg, ih k'' (f r) hrest⟩
  exact fun n k hk => hsafe n k p (h n k hk)

/-- What holds with more outcomes holds with fewer. -/
theorem Triple.of_sem {sem sem' : OpSem E K} (h : (Env.alone sem').Triple P p Q)
    (hsem : ∀ o k r k', sem o k r k' → sem' o k r k') : (Env.alone sem).Triple P p Q := by
  have hrely : ∀ k k', (Env.alone sem).rely k k' → (Env.alone sem').rely k k' := fun _ _ => id
  exact restrict hrely hsem (fun _ _ _ _ _ => trivial) h

/-- What holds under interference holds for a program on its own. -/
theorem Triple.alone (h : W.Triple P p Q) : (Env.alone W.sem).Triple P p Q := by
  have hrely : ∀ k k', (Env.alone W.sem).rely k k' → W.rely k k' := by
    rintro k _ rfl
    exact W.rely_refl k
  have hsem : ∀ o k r k', (Env.alone W.sem).sem o k r k' → W.sem o k r k' := fun _ _ _ _ => id
  exact restrict hrely hsem (fun _ _ _ _ _ => trivial) h

end Env
end Interact
