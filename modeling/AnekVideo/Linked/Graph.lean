/-
  AnekVideo.Linked.Graph

  Relations without cycles: what may be added to one, and measures along its edges.
-/
import Mathlib

namespace Linked

open Relation

variable {A : Type*} {r s : A → A → Prop} {a b c x : A}

/-- No path leads back to where it starts. -/
def Acyclic (r : A → A → Prop) : Prop := ∀ a, ¬ TransGen r a a

theorem Acyclic.mono (h : Acyclic r) (hsub : ∀ a b, s a b → r a b) : Acyclic s :=
  fun a ha => h a (TransGen.mono hsub _ _ ha)

theorem Acyclic.irrefl (h : Acyclic r) (a : A) : ¬ r a a := fun ha => h a (.single ha)

theorem Acyclic.swap (h : Acyclic r) : Acyclic (Function.swap r) :=
  fun a ha => h a (transGen_swap.1 ha)

/-- One direction only. -/
theorem Acyclic.not_below (h : Acyclic r) (hab : TransGen r a b) : ¬ ReflTransGen r b a := by
  intro hba
  exact h a (hab.trans_left hba)

/-- A path over one new edge from `x` to `c`. -/
theorem TransGen_hang (hnew : ∀ a b, s a b → r a b ∨ (a = x ∧ b = c))
    (hx : ¬ ReflTransGen r c x) (hab : TransGen s a b) :
    TransGen r a b ∨ (ReflTransGen r a x ∧ ReflTransGen r c b) := by
  induction hab with
  | single hs =>
    rcases hnew _ _ hs with hr | ⟨rfl, rfl⟩
    · exact .inl (.single hr)
    · exact .inr ⟨.refl, .refl⟩
  | tail _ hs ih =>
    rcases hnew _ _ hs with hr | ⟨rfl, rfl⟩
    · exact ih.imp (fun h => h.tail hr) fun h => ⟨h.1, h.2.tail hr⟩
    · rcases ih with h | h
      · exact .inr ⟨h.to_reflTransGen, .refl⟩
      · exact absurd h.2 hx

/-- To hang `c` under `x` makes no cycle unless `x` is below `c`. -/
theorem Acyclic.hang (h : Acyclic r) (hx : ¬ ReflTransGen r c x)
    (hnew : ∀ a b, s a b → r a b ∨ (a = x ∧ b = c)) : Acyclic s := by
  intro a ha
  rcases TransGen_hang hnew hx ha with hr | ⟨hax, hca⟩
  · exact h a hr
  · exact hx (hca.trans hax)

open Classical in
/-- The elements of `t` on paths from `a`. -/
noncomputable def below (r : A → A → Prop) (t : Finset A) (a : A) : Finset A :=
  t.filter fun b => ReflTransGen r a b

theorem mem_below {t : Finset A} : b ∈ below r t a ↔ b ∈ t ∧ ReflTransGen r a b := by
  classical
  exact Finset.mem_filter

/-- Fewer lie below the end of an edge. -/
theorem Acyclic.below_lt (h : Acyclic r) {t : Finset A} (ha : a ∈ t) (hab : r a b) :
    (below r t b).card < (below r t a).card := by
  refine Finset.card_lt_card (Finset.ssubset_iff_subset_ne.2 ⟨fun c hc => ?_, fun heq => ?_⟩)
  · obtain ⟨hct, hbc⟩ := mem_below.1 hc
    exact mem_below.2 ⟨hct, hbc.head hab⟩
  · have hmem : a ∈ below r t b := heq ▸ mem_below.2 ⟨ha, .refl⟩
    exact h.not_below (.single hab) (mem_below.1 hmem).2

/-- Where no element has two edges to it, those below `a` are `a` and those below one of its
    successors. -/
theorem Acyclic.below_val (h : Acyclic r) (huniq : ∀ a b c, r a c → r b c → a = b)
    {t : Finset A} (ha : a ∈ t) {L : List A} (hL : L.Nodup) (hmem : ∀ c, c ∈ L ↔ r a c) :
    (below r t a).val = a ::ₘ (L : Multiset A).bind fun c => (below r t c).val := by
  have hnot : ∀ c, r a c → ¬ ReflTransGen r c a := fun c hc => h.not_below (.single hc)
  refine ((below r t a).nodup.ext ?_).2 fun d => ?_
  · refine Multiset.nodup_cons.2 ⟨fun hd => ?_,
      Multiset.nodup_bind.2 ⟨fun c _ => (below r t c).nodup, ?_⟩⟩
    · obtain ⟨c, hc, hd⟩ := Multiset.mem_bind.1 hd
      exact hnot c ((hmem c).1 hc) (mem_below.1 hd).2
    · refine ⟨L, rfl, hL.pairwise_of_forall_ne fun c hc c' hc' hne => ?_⟩
      refine Multiset.disjoint_left.2 fun {d} hd hd' => ?_
      obtain ⟨hca, hca'⟩ := And.intro ((hmem c).1 hc) ((hmem c').1 hc')
      -- both lie above `d`, so one of them lies above the other, and then above `a`
      have hcomp := ReflTransGen.total_of_right_unique (r := Function.swap r)
        (fun x y z hxy hxz => huniq _ _ _ hxy hxz)
        (reflTransGen_swap.2 (mem_below.1 hd).2) (reflTransGen_swap.2 (mem_below.1 hd').2)
      have habove : ∀ x y, r a x → r a y → x ≠ y → ¬ ReflTransGen r x y :=
        fun x y hx hy hxy hpath => by
        obtain ⟨z, hxz, hzy⟩ :=
          TransGen.tail'_iff.1 ((reflTransGen_iff_eq_or_transGen.1 hpath).resolve_left hxy.symm)
        exact hnot x hx (huniq _ _ _ hzy hy ▸ hxz)
      rcases hcomp with hp | hp
      · exact habove c' c hca' hca hne.symm (reflTransGen_swap.1 hp)
      · exact habove c c' hca hca' hne (reflTransGen_swap.1 hp)
  · rw [Finset.mem_val, mem_below, Multiset.mem_cons, Multiset.mem_bind]
    constructor
    · rintro ⟨hd, hpath⟩
      rcases hpath.cases_head with rfl | ⟨c, hac, hcd⟩
      · exact .inl rfl
      · exact .inr ⟨c, (hmem c).2 hac, mem_below.2 ⟨hd, hcd⟩⟩
    · rintro (rfl | ⟨c, hc, hd⟩)
      · exact ⟨ha, .refl⟩
      · obtain ⟨hdt, hcd⟩ := mem_below.1 hd
        exact ⟨hdt, hcd.head ((hmem c).1 hc)⟩

end Linked
