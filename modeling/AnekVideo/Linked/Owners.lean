/-
  AnekVideo.Linked.Owners

  Nodes that live as long as one of their owners.

  When a node goes, what goes with it is `Doomed`: what is owned by nothing else.  The
  owners of what stays are `Thinned`: only some that go are missing, and the others are
  in the order they were in.
-/
import Mathlib

namespace Linked

variable {A B : Type*}

/-! ## Lists that lose elements -/

/-- The first list is the second without some of its elements in `d`. -/
inductive Thinned (d : A → Prop) : List A → List A → Prop
  | nil : Thinned d [] []
  | keep {a : A} {l l' : List A} (h : Thinned d l' l) : Thinned d (a :: l') (a :: l)
  | skip {a : A} {l l' : List A} (ha : d a) (h : Thinned d l' l) : Thinned d l' (a :: l)

namespace Thinned

variable {d : A → Prop} {l l' l'' : List A} {a : A}

theorem refl (l : List A) : Thinned d l l := by
  induction l with
  | nil => exact .nil
  | cons a l ih => exact .keep ih

theorem trans (h : Thinned d l'' l') (h' : Thinned d l' l) : Thinned d l'' l := by
  induction h' generalizing l'' with
  | nil => exact h
  | keep h' ih =>
    cases h with
    | keep h => exact .keep (ih h)
    | skip ha h => exact .skip ha (ih h)
  | skip ha h' ih => exact .skip ha (ih h)

theorem subset (h : Thinned d l' l) (ha : a ∈ l') : a ∈ l := by
  induction h with
  | nil => exact ha
  | keep h ih =>
    rcases List.mem_cons.1 ha with rfl | ha
    · exact List.mem_cons_self ..
    · exact List.mem_cons_of_mem _ (ih ha)
  | skip _ h ih => exact List.mem_cons_of_mem _ (ih ha)

/-- Where only doomed elements are left, all were doomed. -/
theorem all (h : Thinned d l' l) (hall : ∀ a ∈ l', d a) : ∀ a ∈ l, d a := by
  induction h with
  | nil => exact hall
  | keep h ih =>
    obtain ⟨ha, hrest⟩ := List.forall_mem_cons.1 hall
    exact List.forall_mem_cons.2 ⟨ha, ih hrest⟩
  | skip ha h ih => exact List.forall_mem_cons.2 ⟨ha, ih hall⟩

open Classical in
/-- Where no doomed element is left, the others are. -/
theorem eq_filter (h : Thinned d l' l) (hnone : ∀ a ∈ l', ¬ d a) :
    l' = l.filter fun a => ¬ d a := by
  induction h with
  | nil => rfl
  | keep h ih =>
    obtain ⟨ha, hrest⟩ := List.forall_mem_cons.1 hnone
    rw [List.filter_cons_of_pos (by simpa using ha), ← ih hrest]
  | skip ha h ih =>
    rw [List.filter_cons_of_neg (by simpa using ha)]
    exact ih hnone

/-- One element less. -/
theorem erase [DecidableEq B] {f : B → A} {b : B} (hb : d (f b)) (L : List B) :
    Thinned d ((L.erase b).map f) (L.map f) := by
  induction L with
  | nil => exact .nil
  | cons c L ih =>
    by_cases hc : c = b
    · subst hc
      rw [List.erase_cons_head]
      exact .skip hb (refl _)
    · rw [List.erase_cons_tail (by simpa using hc)]
      exact .keep ih

end Thinned

/-! ## What goes with a node -/

/-- What goes with `p`, where `owners` lists the owners of a node, and only nodes of `t` go. -/
inductive Doomed (t : A → Prop) (owners : A → List A) (p : A) : A → Prop
  | self : Doomed t owners p p
  | owned {c : A} (hc : t c) (h : ∀ a ∈ owners c, Doomed t owners p a) : Doomed t owners p c

/-- Once `p` is gone, and what is left has an owner, what is doomed is gone. -/
theorem Doomed.gone {t : A → Prop} {owners : A → List A} {p c : A} (left : A → Prop)
    (owners' : A → List A) (hp : ¬ left p)
    (hthin : ∀ c, left c → t c → Thinned (Doomed t owners p) (owners' c) (owners c))
    (howned : ∀ c, left c → ∃ a ∈ owners' c, left a ∨ ¬ Doomed t owners p a)
    (hc : Doomed t owners p c) : ¬ left c := by
  induction hc with
  | self => exact hp
  | @owned c ht h ih =>
    intro hc'
    obtain ⟨a, ha, hcase⟩ := howned c hc'
    have ha' := (hthin c hc' ht).subset ha
    exact hcase.elim (ih a ha') fun hn => hn (h a ha')

end Linked
