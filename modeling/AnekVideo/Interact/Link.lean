/-
  AnekVideo.Interact.Link

  Linking: a program over one interface becomes a program over another once each
  of its operations has an implementation there.  What was proved of the program
  against the meaning of its operations holds of the linked program, as soon as
  each implementation does what its operation may do.
-/
import AnekVideo.Interact.Total

namespace Interact

variable {E F : Iface} {K L : Type} {α β σ : Type}

namespace Prog

/-- `p` with the implementation `f o` in the place of each operation `o`. -/
def link (f : (o : E.Op) → Prog F (E.Resp o)) {α : Type} : Prog E α → Prog F α
  | .ret a => .ret a
  | .call o k => .bind (f o) fun r => link f (k r)
  | .bind m g => .bind (link f m) fun a => link f (g a)
  | .iter body s => .iter (fun s => link f (body s)) s

variable {f : (o : E.Op) → Prog F (E.Resp o)}

theorem link_again (body : σ → Prog E (σ ⊕ α)) (c : σ ⊕ α) :
    link f (again body c) = again (fun s => link f (body s)) c := by
  cases c with
  | inl s => rfl
  | inr a => rfl

/-- A confined program is confined to what its operations are implemented by. -/
theorem Only.link {ok : E.Op → Prop} {ok' : F.Op → Prop} {p : Prog E α} (h : p.Only ok)
    (hf : ∀ o, ok o → (f o).Only ok') : (link f p).Only ok' := by
  induction p with
  | ret a => trivial
  | call o k ih => exact ⟨hf o h.1, fun r => ih r (h.2 r)⟩
  | bind m g ihm ihg => exact ⟨ihm h.1, fun a => ihg a (h.2 a)⟩
  | iter body s ih => exact fun s => ih s (h s)

/-- A program that has returned has returned after linking. -/
theorem head_link_ret {p : Prog E α} {a : α} (h : p.head = .ret a) :
    (link f p).head = .ret a := by
  induction p with
  | ret b =>
    cases h
    rfl
  | call o k _ => cases h
  | bind m g ihm ihg =>
    cases hm : m.head with
    | ret b => exact (head_bind_ret (ihm hm)).trans (ihg b ((head_bind_ret hm).symm.trans h))
    | call o k => cases (head_bind_call hm).symm.trans h
    | spin m' => cases (head_bind_spin hm).symm.trans h
  | iter body s ih =>
    cases hb : (body s).head with
    | ret c =>
      cases c with
      | inl s' => cases (head_iter_inl hb).symm.trans h
      | inr b =>
        cases (head_iter_inr hb).symm.trans h
        exact head_iter_inr (ih s hb)
    | call o k => cases (head_iter_call hb).symm.trans h
    | spin m' => cases (head_iter_spin hb).symm.trans h

end Prog

namespace Ends

variable {sem : OpSem E K} {stop : E.Op → Prop} {sem' : OpSem F L} {stop' : F.Op → Prop}
  {f : (o : E.Op) → Prog F (E.Resp o)}

/-- A run of a sequence is one of its first part, and then one of the rest. -/
theorem of_bind {p : Prog E α} {g : α → Prog E β} {Q : β → K → Prop} {k : K}
    (h : Ends sem stop Q (p >>= g) k) :
    Ends sem stop (fun a k => Ends sem stop Q (g a) k) p k := by
  generalize hq : p >>= g = q at h
  induction h generalizing p with
  | @done _ k b hp hQ =>
    subst hq
    cases hh : p.head with
    | ret a => exact .done hh (.done ((Prog.head_bind_ret hh).symm.trans hp) hQ)
    | call o c => cases (Prog.head_bind_call hh).symm.trans hp
    | spin p' => cases (Prog.head_bind_spin hh).symm.trans hp
  | spin hp h ih =>
    subst hq
    cases hh : p.head with
    | ret a => exact .done hh (.spin ((Prog.head_bind_ret hh).symm.trans hp) h)
    | call o c => cases (Prog.head_bind_call hh).symm.trans hp
    | spin p' =>
      cases (Prog.head_bind_spin hh).symm.trans hp
      exact .spin hh (ih rfl)
  | call hp hlive h ih =>
    subst hq
    cases hh : p.head with
    | ret a => exact .done hh (.call ((Prog.head_bind_ret hh).symm.trans hp) hlive h)
    | call o c =>
      cases (Prog.head_bind_call hh).symm.trans hp
      exact .call hh hlive fun r k' hs => ih r k' hs rfl
    | spin p' => cases (Prog.head_bind_spin hh).symm.trans hp

/-- A round of a linked loop, and then what follows it. -/
theorem link_round {body : σ → Prog E (σ ⊕ α)} {s : σ} {Q : α → L → Prop} {l : L}
    (h : Ends sem' stop' (fun c l => Ends sem' stop' Q (Prog.link f (Prog.again body c)) l)
      (Prog.link f (body s)) l) :
    Ends sem' stop' Q (Prog.link f (.iter body s)) l := by
  refine .round (h.mono fun c l' hc => ?_)
  rw [Prog.link_again] at hc
  exact hc

/-- A linked program does what its implementation does after a turn of a loop. -/
theorem link_spin {p p' : Prog E α} {Q : α → L → Prop} {l : L} (hp : p.head = .spin p')
    (h : Ends sem' stop' Q (Prog.link f p') l) : Ends sem' stop' Q (Prog.link f p) l := by
  induction p generalizing l with
  | ret a => cases hp
  | call o k _ => cases hp
  | bind m g ihm ihg =>
    cases hm : m.head with
    | ret a =>
      have hg := ihg a ((Prog.head_bind_ret hm).symm.trans hp) h
      exact hg.congr_head (Prog.head_bind_ret (Prog.head_link_ret hm)).symm
    | call o k => cases (Prog.head_bind_call hm).symm.trans hp
    | spin m' =>
      cases (Prog.head_bind_spin hm).symm.trans hp
      exact .bind (ihm hm h.of_bind)
  | iter body s ih =>
    cases hb : (body s).head with
    | ret c =>
      cases c with
      | inl s' =>
        cases (Prog.head_iter_inl hb).symm.trans hp
        exact link_round (.done (Prog.head_link_ret hb) h)
      | inr a => cases (Prog.head_iter_inr hb).symm.trans hp
    | call o k => cases (Prog.head_iter_call hb).symm.trans hp
    | spin m' =>
      cases (Prog.head_iter_spin hb).symm.trans hp
      exact link_round (ih s hb h.of_bind)

/-- Where the program issues an operation, the linked one runs its implementation. -/
theorem link_call {p : Prog E α} {o : E.Op} {g : E.Resp o → Prog E α} {Q : α → L → Prop}
    {l : L} (hp : p.head = .call o g)
    (h : Ends sem' stop' (fun r l => Ends sem' stop' Q (Prog.link f (g r)) l) (f o) l) :
    Ends sem' stop' Q (Prog.link f p) l := by
  induction p generalizing l with
  | ret a => cases hp
  | call o' k _ =>
    cases hp
    exact .bind h
  | bind m c ihm ihc =>
    cases hm : m.head with
    | ret a =>
      have hc := ihc a ((Prog.head_bind_ret hm).symm.trans hp) h
      exact hc.congr_head (Prog.head_bind_ret (Prog.head_link_ret hm)).symm
    | call o' k =>
      cases (Prog.head_bind_call hm).symm.trans hp
      exact .bind (ihm hm (h.mono fun r l' hr => hr.of_bind))
    | spin m' => cases (Prog.head_bind_spin hm).symm.trans hp
  | iter body s ih =>
    cases hb : (body s).head with
    | ret c =>
      cases c with
      | inl s' => cases (Prog.head_iter_inl hb).symm.trans hp
      | inr a => cases (Prog.head_iter_inr hb).symm.trans hp
    | call o' k =>
      cases (Prog.head_iter_call hb).symm.trans hp
      exact link_round (ih s hb (h.mono fun r l' hr => hr.of_bind))
    | spin m' => cases (Prog.head_iter_spin hb).symm.trans hp

/-- What the operations mean, their implementations do; then what the program ends in,
    the linked program ends in. -/
theorem link {R : K → L → Prop} {ok : E.Op → Prop} {p : Prog E α} {Q : α → K → Prop}
    {k : K} {l : L} (h : Ends sem stop Q p k) (hp : p.Only ok)
    (hop : ∀ o k l, ok o → R k l → (stop o ∨ ∃ r k', sem o k r k') →
      Ends sem' stop' (fun r l' => ∃ k', sem o k r k' ∧ R k' l') (f o) l) (hR : R k l) :
    Ends sem' stop' (fun a l' => ∃ k', Q a k' ∧ R k' l') (Prog.link f p) l := by
  induction h generalizing l with
  | done hh hQ => exact .done (Prog.head_link_ret hh) ⟨_, hQ, hR⟩
  | spin hh _ ih =>
    have honly := hp.head
    rw [hh] at honly
    exact link_spin hh (ih honly hR)
  | call hh hlive _ ih =>
    have honly := hp.head
    rw [hh] at honly
    refine link_call hh ((hop _ _ _ honly.1 hR hlive).mono fun r l' hr => ?_)
    obtain ⟨k', hs, hR'⟩ := hr
    exact ih r k' hs (honly.2 r) hR'

end Ends
end Interact
