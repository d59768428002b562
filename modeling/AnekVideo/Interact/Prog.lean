/-
  AnekVideo.Interact.Prog

  Programs that talk to an environment, one operation at a time.

  `Prog E α` is the syntax of a sequential program over an interface `E`: it
  returns, issues one operation and goes on with the response, sequences, or
  loops.  `Prog.head` says what a program does next; a loop that goes round
  without issuing anything shows up as a `spin`, so `head` is total and the
  loops may be unbounded.  Nothing here knows which operations there are.
-/
import Mathlib

namespace Interact

/-- An interface: the operations a program may issue and what each answers. -/
structure Iface where
  Op : Type
  Resp : Op → Type

/-- Programs over the interface `E` that return an `α`. -/
inductive Prog (E : Iface) : Type → Type 1
  /-- Stop with a value. -/
  | ret {α : Type} (a : α) : Prog E α
  /-- Issue one operation. -/
  | call {α : Type} (o : E.Op) (k : E.Resp o → Prog E α) : Prog E α
  /-- Run `m`, then `f` on its value. -/
  | bind {α β : Type} (m : Prog E α) (f : α → Prog E β) : Prog E β
  /-- Repeat `body`: `.inl s` goes round with the loop state `s`, `.inr a` leaves
      with `a`. -/
  | iter {σ α : Type} (body : σ → Prog E (σ ⊕ α)) (s : σ) : Prog E α

/-- What a program does next. -/
inductive Head (E : Iface) (α : Type) : Type 1
  | ret (a : α)
  | call (o : E.Op) (k : E.Resp o → Prog E α)
  | spin (p : Prog E α)

namespace Prog

variable {E : Iface} {α β σ : Type}

instance : Monad (Prog E) where
  pure := Prog.ret
  bind := Prog.bind

/-- The program that issues `o` and returns the response. -/
def op (o : E.Op) : Prog E (E.Resp o) := .call o .ret

/-- What follows one round of a loop. -/
def again (body : σ → Prog E (σ ⊕ α)) : σ ⊕ α → Prog E α
  | .inl s => .iter body s
  | .inr a => .ret a

/-- The next thing a program does. -/
def head {α : Type} : Prog E α → Head E α
  | .ret a => .ret a
  | .call o k => .call o k
  | .bind m f =>
    match head m with
    | .ret a => head (f a)
    | .call o k => .call o fun r => .bind (k r) f
    | .spin p => .spin (.bind p f)
  | .iter body s =>
    match head (body s) with
    | .ret (.inl s') => .spin (.iter body s')
    | .ret (.inr a) => .ret a
    | .call o k => .call o fun r => .bind (k r) (again body)
    | .spin p => .spin (.bind p (again body))

@[simp] theorem head_ret (a : α) : (Prog.ret a : Prog E α).head = .ret a := rfl

@[simp] theorem head_pure (a : α) : (pure a : Prog E α).head = .ret a := rfl

@[simp] theorem head_call (o : E.Op) (k : E.Resp o → Prog E α) :
    (Prog.call o k).head = .call o k := rfl

@[simp] theorem head_op (o : E.Op) : (op o : Prog E (E.Resp o)).head = .call o .ret := rfl

/-- A sequence whose first part has returned goes on as its second part. -/
theorem head_bind_ret {m : Prog E α} {f : α → Prog E β} {a : α} (h : m.head = .ret a) :
    (Prog.bind m f).head = (f a).head := by
  simp only [head, h]

theorem head_bind_call {m : Prog E α} {f : α → Prog E β} {o : E.Op}
    {k : E.Resp o → Prog E α} (h : m.head = .call o k) :
    (Prog.bind m f).head = .call o fun r => .bind (k r) f := by
  simp only [head, h]

theorem head_bind_spin {m p : Prog E α} {f : α → Prog E β} (h : m.head = .spin p) :
    (Prog.bind m f).head = .spin (.bind p f) := by
  simp only [head, h]

/-- A loop does what its body does, followed by `again`; a round that returns
    without issuing anything costs one `spin`. -/
theorem head_iter_inl {body : σ → Prog E (σ ⊕ α)} {s s' : σ}
    (h : (body s).head = .ret (.inl s')) :
    (Prog.iter body s).head = .spin (.iter body s') := by
  simp only [head, h]

theorem head_iter_inr {body : σ → Prog E (σ ⊕ α)} {s : σ} {a : α}
    (h : (body s).head = .ret (.inr a)) : (Prog.iter body s).head = .ret a := by
  simp only [head, h]

theorem head_iter_call {body : σ → Prog E (σ ⊕ α)} {s : σ} {o : E.Op}
    {k : E.Resp o → Prog E (σ ⊕ α)} (h : (body s).head = .call o k) :
    (Prog.iter body s).head = .call o fun r => .bind (k r) (again body) := by
  simp only [head, h]

theorem head_iter_spin {body : σ → Prog E (σ ⊕ α)} {s : σ} {p : Prog E (σ ⊕ α)}
    (h : (body s).head = .spin p) :
    (Prog.iter body s).head = .spin (.bind p (again body)) := by
  simp only [head, h]

/-! ## Programs confined to some operations -/

/-- Every operation `p` can ever issue satisfies `ok`. -/
def Only (ok : E.Op → Prop) {α : Type} : Prog E α → Prop
  | .ret _ => True
  | .call o k => ok o ∧ ∀ r, (k r).Only ok
  | .bind m f => m.Only ok ∧ ∀ a, (f a).Only ok
  | .iter body _ => ∀ s, (body s).Only ok

variable {ok : E.Op → Prop}

@[simp] theorem only_pure (a : α) : (pure a : Prog E α).Only ok := trivial

@[simp] theorem only_op {o : E.Op} : (op o : Prog E (E.Resp o)).Only ok ↔ ok o :=
  ⟨fun h => h.1, fun h => ⟨h, fun _ => trivial⟩⟩

@[simp] theorem only_bind {m : Prog E α} {f : α → Prog E β} :
    (m >>= f).Only ok ↔ m.Only ok ∧ ∀ a, (f a).Only ok := Iff.rfl

@[simp] theorem only_iter {body : σ → Prog E (σ ⊕ α)} {s : σ} :
    (Prog.iter body s).Only ok ↔ ∀ s, (body s).Only ok := Iff.rfl

theorem Only.ret {a : α} : (pure a : Prog E α).Only ok := trivial

/-- One operation at the end of a program. -/
theorem Only.last {o : E.Op} (ho : ok o) : (Prog.op o).Only ok := ⟨ho, fun _ => trivial⟩

/-- One operation, then the rest. -/
theorem Only.op {o : E.Op} {f : E.Resp o → Prog E β} (ho : ok o) (hf : ∀ r, (f r).Only ok) :
    (Prog.op o >>= f).Only ok := ⟨Only.last ho, hf⟩

theorem Only.bind {m : Prog E α} {f : α → Prog E β} (hm : m.Only ok)
    (hf : ∀ a, (f a).Only ok) :
    (m >>= f).Only ok := ⟨hm, hf⟩

theorem Only.iter {body : σ → Prog E (σ ⊕ α)} {s : σ} (h : ∀ s, (body s).Only ok) :
    (Prog.iter body s).Only ok := h

theorem Only.mono {ok' : E.Op → Prop} {p : Prog E α} (h : p.Only ok)
    (hok : ∀ o, ok o → ok' o) :
    p.Only ok' := by
  induction p with
  | ret a => trivial
  | call o k ih => exact ⟨hok o h.1, fun r => ih r (h.2 r)⟩
  | bind m f ihm ihf => exact ⟨ihm h.1, fun a => ihf a (h.2 a)⟩
  | iter body s ih => exact fun s => ih s (h s)

theorem Only.again {body : σ → Prog E (σ ⊕ α)} (h : ∀ s, (body s).Only ok)
    (c : σ ⊕ α) :
    (Prog.again body c).Only ok := by
  cases c with
  | inl s => exact h
  | inr a => trivial

/-- What a confined program does next is confined. -/
theorem Only.head {p : Prog E α} (h : p.Only ok) :
    match p.head with
    | .ret _ => True
    | .call o k => ok o ∧ ∀ r, (k r).Only ok
    | .spin p' => p'.Only ok := by
  induction p with
  | ret a => trivial
  | call o k _ => exact h
  | bind m f ihm ihf =>
    have hm := ihm h.1
    cases hh : m.head with
    | ret a => rw [head_bind_ret hh]; exact ihf a (h.2 a)
    | call o k =>
      rw [hh] at hm
      rw [head_bind_call hh]
      exact ⟨hm.1, fun r => ⟨hm.2 r, h.2⟩⟩
    | spin p' =>
      rw [hh] at hm
      rw [head_bind_spin hh]
      exact ⟨hm, h.2⟩
  | iter body s ih =>
    have hb := ih s (h s)
    cases hh : (body s).head with
    | ret c =>
      cases c with
      | inl s' => rw [head_iter_inl hh]; exact h
      | inr a => rw [head_iter_inr hh]; trivial
    | call o k =>
      rw [hh] at hb
      rw [head_iter_call hh]
      exact ⟨hb.1, fun r => ⟨hb.2 r, Only.again h⟩⟩
    | spin p' =>
      rw [hh] at hb
      rw [head_iter_spin hh]
      exact ⟨hb, Only.again h⟩

end Prog
end Interact
