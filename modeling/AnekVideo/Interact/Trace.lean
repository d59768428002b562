/-
  AnekVideo.Interact.Trace

  The conversation of a program with its environment: `Run p t a` says that `p`
  can return `a` after it has asked and been answered what `t` lists.

  No world is fixed, every answer of the right type is possible, so what holds
  of all traces holds whatever the operations do.  A run is taken apart along
  the program by `of_bind`, `of_op` and `of_iter`; parts that ask nothing of
  interest drop out by `seen_nil`.
-/
import AnekVideo.Interact.Exec

namespace Interact

variable {E : Iface} {K : Type} {α β σ γ : Type}

/-- A loop of a program that runs alone keeps what every round keeps. -/
theorem Exec.iter {sem : OpSem E K} {body : σ → Prog E (σ ⊕ α)} {I : σ → K → Prop}
    {Q : α → K → Prop} (h : ∀ s k c k', I s k → Exec sem (body s) k c k' →
      c.elim (fun s' => I s' k') fun a => Q a k')
    {s : σ} {k k' : K} {a : α} (hI : I s k) (he : Exec sem (Prog.iter body s) k a k') :
    Q a k' := by
  have hbody : ∀ s, (Env.alone sem).Triple (I s) (body s) fun c k =>
      c.elim (fun s' => I s' k) fun a => Q a k := by
    intro s
    have hrest : ∀ n k (p : Prog E (σ ⊕ α)),
        (∀ c k', Exec sem p k c k' → c.elim (fun s' => I s' k') fun a => Q a k') →
        (Env.alone sem).Safe n k p fun c k => c.elim (fun s' => I s' k) fun a => Q a k := by
      intro n
      induction n with
      | zero => intro k p _; trivial
      | succ n ih =>
        rintro k p hp _ rfl
        cases hh : p.head with
        | ret c => exact hp c k (.ret hh)
        | spin p' => exact ih k p' fun c k' he => hp c k' (.spin hh he)
        | call o f =>
          intro r k₁ hs
          exact ⟨trivial, ih k₁ (f r) fun c k' he => hp c k' (.call hh hs he)⟩
    exact fun n k hk => hrest n k (body s) fun c k' he => h s k c k' hk he
  exact (Env.Triple.iter hbody (fun a => Env.alone_stable (Q a)) s).exec hI he

/-- An operation and its answer. -/
abbrev Event (E : Iface) := (o : E.Op) × E.Resp o

/-- The environment that may answer anything, and writes it down. -/
def recorder (E : Iface) : OpSem E (List (Event E)) := fun o k r k' => k' = k ++ [⟨o, r⟩]

/-- `p` can return `a` after the conversation `t`. -/
def Run (p : Prog E α) (t : List (Event E)) (a : α) : Prop := Exec (recorder E) p [] a t

/-- What was written down before makes no difference. -/
theorem Exec.run {p : Prog E α} {k k' : List (Event E)} {a : α}
    (h : Exec (recorder E) p k a k') : ∃ t, k' = k ++ t ∧ Run p t a := by
  have hany : ∃ t, k' = k ++ t ∧ ∀ k₀, Exec (recorder E) p k₀ a (k₀ ++ t) := by
    induction h with
    | ret hp => exact ⟨[], (List.append_nil _).symm, fun k₀ => (List.append_nil k₀).symm ▸ .ret hp⟩
    | spin hp _ ih =>
      obtain ⟨t, rfl, ht⟩ := ih
      exact ⟨t, rfl, fun k₀ => .spin hp (ht k₀)⟩
    | @call p o f k k₁ k' r a hp hs _ ih =>
      obtain ⟨t, rfl, ht⟩ := ih
      have hk₁ : k₁ = k ++ [⟨o, r⟩] := hs
      subst hk₁
      refine ⟨⟨o, r⟩ :: t, by rw [List.append_assoc, List.singleton_append], fun k₀ => ?_⟩
      have hcall := ht (k₀ ++ [⟨o, r⟩])
      rw [List.append_assoc, List.singleton_append] at hcall
      exact .call hp rfl hcall
  obtain ⟨t, rfl, ht⟩ := hany
  exact ⟨t, rfl, ht []⟩

namespace Run

variable {p : Prog E α} {f : α → Prog E β} {t : List (Event E)} {a : α} {b : β}

theorem of_pure {a' : α} (h : Run (Pure.pure a' : Prog E α) t a) : t = [] ∧ a = a' := by
  cases h with
  | ret hp => cases hp; exact ⟨rfl, rfl⟩
  | spin hp _ => cases hp
  | call hp _ _ => cases hp

/-- A run of a sequence is one of its first part, and one of the rest. -/
theorem of_bind (h : Run (p >>= f) t b) :
    ∃ a t₁ t₂, t = t₁ ++ t₂ ∧ Run p t₁ a ∧ Run (f a) t₂ b := by
  obtain ⟨a, t₁, hp, he⟩ := Exec.of_bind h
  obtain ⟨t₂, rfl, hf⟩ := he.run
  exact ⟨a, t₁, t₂, rfl, hp, hf⟩

/-- A run of one operation. -/
theorem of_last {o : E.Op} {r : E.Resp o} (h : Run (Prog.op o) t r) : t = [⟨o, r⟩] := by
  cases h with
  | ret hp => cases hp
  | spin hp _ => cases hp
  | @call _ _ _ _ k₁ _ r' _ hp hs he =>
    cases hp
    have hk₁ : k₁ = [⟨o, r'⟩] := hs
    obtain ⟨t', rfl, hret⟩ := he.run
    obtain ⟨rfl, rfl⟩ : t' = [] ∧ r = r' := of_pure hret
    rw [hk₁]
    rfl

/-- A run that starts with an operation. -/
theorem of_op {o : E.Op} {g : E.Resp o → Prog E β} (h : Run (Prog.op o >>= g) t b) :
    ∃ r t', t = ⟨o, r⟩ :: t' ∧ Run (g r) t' b := by
  obtain ⟨r, t₁, t₂, rfl, ho, hg⟩ := h.of_bind
  rw [ho.of_last]
  exact ⟨r, t₂, rfl, hg⟩

/-- A run of a loop keeps what every round keeps, whatever was said before it. -/
theorem of_iter {body : σ → Prog E (σ ⊕ α)} {I : σ → List (Event E) → Prop}
    {Q : α → List (Event E) → Prop}
    (h : ∀ s t c t', I s t → Run (body s) t' c →
      c.elim (fun s' => I s' (t ++ t')) fun a => Q a (t ++ t'))
    {s : σ} (hI : I s []) (hr : Run (Prog.iter body s) t a) : Q a t := by
  refine Exec.iter (fun s k c k' hk he => ?_) hI hr
  obtain ⟨t', rfl, hbody⟩ := he.run
  exact h s k c t' hk hbody

/-- A confined program asks for nothing else. -/
theorem only {ok : E.Op → Prop} (hp : p.Only ok) (h : Run p t a) : ∀ e ∈ t, ok e.1 := by
  have hkeep : (Env.alone (recorder E)).Triple (fun k => ∀ e ∈ k, ok e.1) p
      fun _ k => ∀ e ∈ k, ok e.1 := by
    refine .only hp (Env.alone_stable _) fun o k r k' ho hk hs => ⟨trivial, fun e he => ?_⟩
    have hk' : k' = k ++ [⟨o, r⟩] := hs
    rw [hk', List.mem_append, List.mem_singleton] at he
    obtain he | rfl := he
    · exact hk e he
    · exact ho
  exact hkeep.exec (by simp) h

/-- Of a program that asks nothing of interest, nothing is seen. -/
theorem seen_nil {ok : E.Op → Prop} {w : Event E → Option γ} (hp : p.Only ok)
    (hw : ∀ e : Event E, ok e.1 → w e = none) (h : Run p t a) : t.filterMap w = [] :=
  List.filterMap_eq_nil_iff.2 fun e he => hw e (h.only hp e he)

end Run
end Interact
