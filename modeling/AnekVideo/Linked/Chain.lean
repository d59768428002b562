/-
  AnekVideo.Linked.Chain

  Doubly linked lists in memory, the links read off two maps `next` and `prev`.

  `Chain next prev e b x l` says that the links lead from `x` through the elements
  of `l` to `e` and that each element points back at the one before it, the first
  at `b`.  A list that ends in a null pointer has `e = b = nil`; a ring has its head
  in both places.

  Insertion and removal are stated of any maps that change as they say, so that it
  does not matter in which order and under which tests a program stores the links.
-/
import Mathlib

namespace Linked

variable {A : Type*}

/-- The links lead from `x` through `l` to `e`, and back to `b`. -/
def Chain (next prev : A → A) (e : A) : A → A → List A → Prop
  | _, x, [] => x = e
  | b, x, a :: l => x = a ∧ a ≠ e ∧ prev a = b ∧ Chain next prev e a (next a) l

namespace Chain

variable {next prev next' prev' : A → A} {e b x a c p : A} {l l₁ l₂ : List A}

/-- Where the links lead first. -/
theorem start (h : Chain next prev e b x l) : x = l.headD e := by
  cases l with
  | nil => exact h
  | cons a l => exact h.1

theorem eq_nil_iff (h : Chain next prev e b x l) : l = [] ↔ x = e := by
  cases l with
  | nil => exact ⟨fun _ => h, fun _ => rfl⟩
  | cons a l =>
    obtain ⟨rfl, hae, -⟩ := h
    exact ⟨fun h => (List.cons_ne_nil _ _ h).elim, fun h => (hae h).elim⟩

/-- Only the links of the elements matter. -/
theorem congr (hnext : ∀ a ∈ l, next' a = next a) (hprev : ∀ a ∈ l, prev' a = prev a)
    (h : Chain next prev e b x l) : Chain next' prev' e b x l := by
  induction l generalizing b x with
  | nil => exact h
  | cons a l ih =>
    obtain ⟨hxa, hae, hb, hrest⟩ := h
    refine ⟨hxa, hae, (hprev a (List.mem_cons_self ..)).trans hb, ?_⟩
    rw [hnext a (List.mem_cons_self ..)]
    exact ih (fun c hc => hnext c (List.mem_cons_of_mem _ hc))
      (fun c hc => hprev c (List.mem_cons_of_mem _ hc)) hrest

/-- The links determine the list. -/
theorem unique (h₁ : Chain next prev e b x l₁) (h₂ : Chain next prev e b x l₂) :
    l₁ = l₂ := by
  induction l₁ generalizing b x l₂ with
  | nil => exact (h₂.eq_nil_iff.2 h₁).symm
  | cons a l₁ ih =>
    obtain ⟨hxa, hae, -, hrest⟩ := h₁
    cases l₂ with
    | nil => exact absurd (hxa.symm.trans h₂) hae
    | cons a₂ l₂ =>
      obtain ⟨hxa₂, -, -, hrest₂⟩ := h₂
      obtain rfl : a = a₂ := hxa.symm.trans hxa₂
      rw [ih hrest hrest₂]

/-! ## Neighbours -/

theorem prev_mem (h : Chain next prev e b x l) (hc : c ∈ l) :
    prev c = b ∧ c = x ∨ prev c ∈ l := by
  induction l generalizing b x with
  | nil => exact absurd hc List.not_mem_nil
  | cons a l ih =>
    obtain ⟨rfl, -, hb, hrest⟩ := h
    rcases List.mem_cons.1 hc with rfl | hc
    · exact .inl ⟨hb, rfl⟩
    · rcases ih hrest hc with ⟨ha, -⟩ | hmem
      · exact .inr (ha ▸ List.mem_cons_self ..)
      · exact .inr (List.mem_cons_of_mem _ hmem)

theorem next_mem (h : Chain next prev e b x l) (hc : c ∈ l) : next c = e ∨ next c ∈ l := by
  induction l generalizing b x with
  | nil => exact absurd hc List.not_mem_nil
  | cons a l ih =>
    obtain ⟨rfl, -, -, hrest⟩ := h
    rcases List.mem_cons.1 hc with rfl | hc
    · cases l with
      | nil => exact .inl hrest
      | cons a' l => exact .inr (hrest.1 ▸ List.mem_cons_of_mem _ (List.mem_cons_self ..))
    · exact (ih hrest hc).imp_right (List.mem_cons_of_mem _)

/-- Links that agree with each other run through no element twice. -/
theorem nodup (h : Chain next prev e b x l) (hb : b ∉ l) : l.Nodup := by
  induction l generalizing b x with
  | nil => exact List.nodup_nil
  | cons a l ih =>
    obtain ⟨-, -, hab, hrest⟩ := h
    have ha : a ∉ l := by
      intro ha
      -- its predecessor would be both `b` and an element
      rcases hrest.prev_mem ha with ⟨haa, -⟩ | hmem
      · exact hb (List.mem_cons.2 (.inl (hab.symm.trans haa)))
      · exact hb (hab ▸ List.mem_cons_of_mem _ hmem)
    exact List.nodup_cons.2 ⟨ha, ih hrest ha⟩

/-- Only the first element points back at where the list starts from. -/
theorem prev_eq_iff (h : Chain next prev e b x l) (hb : b ∉ l) (hc : c ∈ l) :
    prev c = b ↔ c = x := by
  constructor
  · intro hprev
    rcases h.prev_mem hc with ⟨-, hcx⟩ | hmem
    · exact hcx
    · exact absurd (hprev ▸ hmem) hb
  · rintro rfl
    cases l with
    | nil => exact absurd hc List.not_mem_nil
    | cons a l =>
      obtain ⟨rfl, -, hab, -⟩ := h
      exact hab

/-- The links of neighbours agree. -/
theorem next_eq_iff (h : Chain next prev e b x l) (hb : b ∉ l) (ha : a ∈ l) (hc : c ∈ l) :
    next a = c ↔ prev c = a := by
  induction l generalizing b x with
  | nil => exact absurd ha List.not_mem_nil
  | cons d l ih =>
    have hnd := h.nodup hb
    obtain ⟨hd, hnd⟩ := List.nodup_cons.1 hnd
    obtain ⟨-, hde, hdb, hrest⟩ := h
    rcases List.mem_cons.1 hc with rfl | hcl
    · -- nothing leads to the first element, and it points back at `b`
      constructor
      · intro hnext
        rcases List.mem_cons.1 ha with rfl | ha
        · cases l with
          | nil => exact absurd (hnext.symm.trans hrest) hde
          | cons d' l => exact absurd (hnext ▸ hrest.1 ▸ List.mem_cons_self ..) hd
        · rcases hrest.next_mem ha with he | hmem
          · exact absurd (hnext.symm.trans he) hde
          · exact absurd (hnext ▸ hmem) hd
      · intro hprev
        exact absurd ((hdb.symm.trans hprev) ▸ ha) hb
    · rcases List.mem_cons.1 ha with rfl | hal
      · exact ⟨fun hnext => (hrest.prev_eq_iff hd hcl).2 hnext.symm,
          fun hprev => ((hrest.prev_eq_iff hd hcl).1 hprev).symm⟩
      · exact ih hrest hd hal hcl

theorem prev_head (h : Chain next prev e b x (a :: l)) : prev a = b := h.2.2.1

/-- Behind the first element the links lead back one place. -/
theorem prev_getElem (h : Chain next prev e b x l) {i : Nat} (hi : i + 1 < l.length) :
    prev l[i + 1] = l[i] := by
  induction l generalizing b x i with
  | nil => exact absurd hi (Nat.not_lt_zero _)
  | cons a l ih =>
    obtain ⟨-, -, -, hrest⟩ := h
    cases i with
    | zero =>
      cases l with
      | nil => exact absurd hi (Nat.lt_irrefl _)
      | cons c l => exact hrest.prev_head
    | succ i => exact ih hrest (Nat.lt_of_succ_lt_succ hi)

theorem prev_ne (h : Chain next prev e b x l) (hb : b ∉ l) (hc : c ∈ l) : prev c ≠ c := by
  induction l generalizing b x with
  | nil => exact absurd hc List.not_mem_nil
  | cons a l ih =>
    have ha : a ∉ l := (List.nodup_cons.1 (h.nodup hb)).1
    obtain ⟨-, -, hab, hrest⟩ := h
    rcases List.mem_cons.1 hc with rfl | hc
    · exact fun hcc => hb (List.mem_cons.2 (.inl (hab.symm.trans hcc)))
    · exact ih hrest ha hc

theorem next_ne (h : Chain next prev e b x l) (hb : b ∉ l) (hc : c ∈ l) : next c ≠ c := by
  intro hcc
  exact h.prev_ne hb hc ((h.next_eq_iff hb hc hc).1 hcc)

/-- The links back lead towards the front. -/
theorem prev_idxOf [DecidableEq A] (h : Chain next prev e b x l) (hb : b ∉ l) (hc : c ∈ l)
    (hcb : prev c ≠ b) :
    prev c ∈ l ∧ l.idxOf (prev c) < l.idxOf c := by
  have hnd := h.nodup hb
  obtain ⟨i, hi, rfl⟩ := List.getElem_of_mem hc
  cases i with
  | zero =>
    cases l with
    | nil => exact absurd hi (Nat.not_lt_zero _)
    | cons a l => exact absurd h.prev_head hcb
  | succ i =>
    rw [h.prev_getElem hi, hnd.idxOf_getElem, hnd.idxOf_getElem]
    exact ⟨List.getElem_mem _, Nat.lt_succ_self i⟩

/-! ## Insertion and removal -/

/-- An element in front. -/
theorem cons [DecidableEq A] (h : Chain next prev e b x l) (hnd : l.Nodup) (hae : a ≠ e)
    (hx : next' a = x) (hb : prev' a = b) (hnext : ∀ c ∈ l, next' c = next c)
    (hprev : ∀ c ∈ l, prev' c = if c = x then a else prev c) :
    Chain next' prev' e b a (a :: l) := by
  refine ⟨rfl, hae, hb, ?_⟩
  rw [hx]
  cases l with
  | nil => exact h
  | cons c l =>
    obtain ⟨rfl, hce, -, hrest⟩ := h
    refine ⟨rfl, hce, by rw [hprev x (List.mem_cons_self ..), if_pos rfl], ?_⟩
    rw [hnext x (List.mem_cons_self ..)]
    refine hrest.congr (fun d hd => hnext d (List.mem_cons_of_mem _ hd)) fun d hd => ?_
    have hne : d ≠ x := fun hdx => (List.nodup_cons.1 hnd).1 (hdx ▸ hd)
    rw [hprev d (List.mem_cons_of_mem _ hd), if_neg hne]

/-- Behind a removed first element. -/
theorem tail [DecidableEq A] (h : Chain next prev e p x l) (hp : p ∉ l)
    (hnext : ∀ c ∈ l, next' c = next c)
    (hprev : ∀ c ∈ l, prev' c = if prev c = p then b else prev c) :
    Chain next' prev' e b x l := by
  cases l with
  | nil => exact h
  | cons a l =>
    obtain ⟨hxa, hae, hap, hrest⟩ := h
    have hnd : a ∉ l := by
      intro ha
      rcases hrest.prev_mem ha with ⟨haa, -⟩ | hmem
      · exact hp (List.mem_cons.2 (.inl (hap.symm.trans haa)))
      · exact hp (hap ▸ List.mem_cons_of_mem _ hmem)
    refine ⟨hxa, hae, by rw [hprev a (List.mem_cons_self ..), if_pos hap], ?_⟩
    rw [hnext a (List.mem_cons_self ..)]
    refine hrest.congr (fun d hd => hnext d (List.mem_cons_of_mem _ hd)) fun d hd => ?_
    rw [hprev d (List.mem_cons_of_mem _ hd), if_neg]
    intro hdp
    rcases hrest.prev_mem hd with ⟨hda, -⟩ | hmem
    · exact hp (hdp ▸ hda ▸ List.mem_cons_self ..)
    · exact hp (hdp ▸ List.mem_cons_of_mem _ hmem)

/-- An element taken out, its neighbours linked to each other. -/
theorem erase [DecidableEq A] (h : Chain next prev e b x l) (hb : b ∉ l) (hp : p ∈ l)
    (hnext : ∀ a ∈ l, a ≠ p → next' a = if next a = p then next p else next a)
    (hprev : ∀ a ∈ l, a ≠ p → prev' a = if prev a = p then prev p else prev a) :
    Chain next' prev' e b (if x = p then next p else x) (l.erase p) := by
  induction l generalizing b x with
  | nil => exact absurd hp List.not_mem_nil
  | cons a l ih =>
    obtain ⟨ha, -⟩ := List.nodup_cons.1 (h.nodup hb)
    obtain ⟨rfl, hae, hab, hrest⟩ := h
    by_cases hap : x = p
    · subst hap
      rw [if_pos rfl, List.erase_cons_head]
      refine hrest.tail ha (fun c hc => ?_) fun c hc => ?_
      · have hne : next c ≠ x := by
          intro hcx
          rcases hrest.next_mem hc with he | hmem
          · exact hae (hcx.symm.trans he)
          · exact ha (hcx ▸ hmem)
        rw [hnext c (List.mem_cons_of_mem _ hc) (fun hcx => ha (hcx ▸ hc)), if_neg hne]
      · rw [hprev c (List.mem_cons_of_mem _ hc) (fun hcx => ha (hcx ▸ hc)), hab]
    · have hp : p ∈ l := (List.mem_cons.1 hp).resolve_left (Ne.symm hap)
      have hbp : b ≠ p := fun hbp => hb (hbp ▸ List.mem_cons_of_mem _ hp)
      rw [if_neg hap, List.erase_cons_tail (by simpa using hap)]
      refine ⟨rfl, hae, ?_, ?_⟩
      · rw [hprev x (List.mem_cons_self ..) hap, hab, if_neg hbp]
      · rw [hnext x (List.mem_cons_self ..) hap]
        exact ih hrest ha hp (fun c hc => hnext c (List.mem_cons_of_mem _ hc))
          fun c hc => hprev c (List.mem_cons_of_mem _ hc)

/-- An element moved to another place `q`, its neighbours linked to it there. -/
theorem replace [DecidableEq A] {q : A} (h : Chain next prev e b x l) (hb : b ∉ l)
    (hp : p ∈ l) (hq : q ≠ e) (hnextp : next' q = next p) (hprevp : prev' q = prev p)
    (hnext : ∀ a ∈ l, a ≠ p → next' a = if next a = p then q else next a)
    (hprev : ∀ a ∈ l, a ≠ p → prev' a = if prev a = p then q else prev a) :
    Chain next' prev' e b (if x = p then q else x) (l.map fun a => if a = p then q else a) := by
  induction l generalizing b x with
  | nil => exact absurd hp List.not_mem_nil
  | cons a l ih =>
    obtain ⟨ha, -⟩ := List.nodup_cons.1 (h.nodup hb)
    obtain ⟨rfl, hae, hab, hrest⟩ := h
    rw [List.map_cons]
    by_cases hxp : x = p
    · subst hxp
      -- the others keep their places, and only the next one points back elsewhere
      have hsame : (l.map fun a => if a = x then q else a) = l := by
        refine (List.map_congr_left fun c hc => ?_).trans (List.map_id' l)
        exact if_neg fun hcx : c = x => ha (hcx ▸ hc)
      rw [if_pos rfl, hsame]
      refine ⟨rfl, hq, hprevp.trans hab, ?_⟩
      rw [hnextp]
      refine hrest.tail ha (fun c hc => ?_) fun c hc => ?_
      · have hne : next c ≠ x := by
          intro hcx
          rcases hrest.next_mem hc with he | hmem
          · exact hae (hcx.symm.trans he)
          · exact ha (hcx ▸ hmem)
        rw [hnext c (List.mem_cons_of_mem _ hc) (fun hcx => ha (hcx ▸ hc)), if_neg hne]
      · exact hprev c (List.mem_cons_of_mem _ hc) fun hcx => ha (hcx ▸ hc)
    · have hp : p ∈ l := (List.mem_cons.1 hp).resolve_left (Ne.symm hxp)
      have hbp : b ≠ p := fun hbp => hb (hbp ▸ List.mem_cons_of_mem _ hp)
      rw [if_neg hxp]
      refine ⟨rfl, hae, ?_, ?_⟩
      · rw [hprev x (List.mem_cons_self ..) hxp, hab, if_neg hbp]
      · rw [hnext x (List.mem_cons_self ..) hxp]
        exact ih hrest ha hp (fun c hc => hnext c (List.mem_cons_of_mem _ hc))
          fun c hc => hprev c (List.mem_cons_of_mem _ hc)

end Chain
end Linked
