/-
  AnekVideo.Talloc.Realloc

  `_talloc_realloc`: a chunk that `realloc` has moved is put back into the tree in the place
  it had.
-/
import AnekVideo.Talloc.Alloc

namespace AnekVideo
namespace Talloc

open Interact Linked Relation

variable {k : Heap} {S : Shape} {a b c d m p x null : Nat}

namespace Shape

/-- The chunk `p` is at `m` instead. -/
def rename (S : Shape) (p m : Nat) : Shape where
  live := insert m (S.live.erase p)
  loose := S.loose
  up := fun x => if S.up (if x = m then p else x) = p then m else S.up (if x = m then p else x)
  kids := fun x =>
    if x = m then S.kids p else if x = p then [] else (S.kids x).map fun a => if a = p then m else a
  refs := S.refs

/-- Where `realloc` can put a chunk: where it was, or where there is none. -/
def Vacant (S : Shape) (p m : Nat) : Prop := m ≠ 0 ∧ ∀ a ∈ S.live, a ≠ p → a ≠ m

theorem rename_up_self (hS : S.Wf) (hp : p ∈ S.live) : (S.rename p m).up m = S.up p := by
  simp only [rename, if_true, if_neg (hS.up_ne hp)]

theorem rename_up_ne (hx : x ≠ m) : (S.rename p m).up x = if S.up x = p then m else S.up x := by
  simp only [rename, if_neg hx]

theorem rename_kids_self : (S.rename p m).kids m = S.kids p := by
  simp only [rename, if_true]

theorem rename_kids_ne (hx : x ≠ m) (hxp : x ≠ p) :
    (S.rename p m).kids x = (S.kids x).map fun a => if a = p then m else a := by
  simp only [rename, if_neg hx, if_neg hxp]

theorem mem_rename_live : c ∈ (S.rename p m).live ↔ c = m ∨ (c ≠ p ∧ c ∈ S.live) := by
  change c ∈ insert m (S.live.erase p) ↔ _
  rw [Finset.mem_insert, Finset.mem_erase]

/-- The children of a chunk other than the parent of `p` are untouched. -/
theorem rename_kids_apart (hS : S.Wf) (hx : x ≠ S.up p) :
    ((S.kids x).map fun a => if a = p then m else a) = S.kids x := by
  refine (List.map_congr_left fun d hd => if_neg ?_).trans (List.map_id' _)
  rintro rfl
  exact hx (hS.up_of_kid hd).symm

end Shape

/-! ## The tree -/

/-- After `_talloc_realloc` has relinked the chunk that is at `m` now. -/
def Heap.resettle (k : Heap) (p m : Nat) : Heap :=
  { k.move p m with
    child := fun a => if a ≠ 0 ∧ a = k.parent p then m else (k.move p m).child a
    parent := fun a => if a ≠ 0 ∧ a = k.child p then m else (k.move p m).parent a
    next := fun l a =>
      if l = .chunk ∧ a ≠ 0 ∧ a = k.prev .chunk p then m else (k.move p m).next l a
    prev := fun l a =>
      if l = .chunk ∧ a ≠ 0 ∧ a = k.next .chunk p then m else (k.move p m).prev l a }

/-- The neighbours of `p` are other live chunks. -/
theorem Tree.around (h : Tree k S) (hS : S.Wf) (hp : p ∈ S.live) (hl : S.loose = ∅)
    (hm : S.Vacant p m) :
    (k.parent p ≠ m) ∧ (k.child p ≠ m) ∧ (k.prev .chunk p ≠ m) ∧
    k.next .chunk p ≠ m := by
  have hlo : p ∉ S.loose := hl ▸ Finset.notMem_empty p
  have hother : ∀ {a}, (a ≠ 0 → a ∈ S.live ∧ a ≠ p) → a ≠ m := by
    intro a ha
    by_cases h0 : a = 0
    · exact fun heq => hm.1 (heq.symm.trans h0)
    · exact hm.2 a (ha h0).1 (ha h0).2
  refine ⟨hother fun hne => ?_, hother fun hne => ?_, hother fun hne => ?_,
    hother fun hne => ?_⟩
  · obtain ⟨-, hup, -⟩ := h.parent_ne_zero hS hp hlo hne
    rw [hup] at hne ⊢
    exact ⟨(hS.up p hp).resolve_left hne, hS.up_ne hp⟩
  · have hkid := h.child_kid hp hne
    exact ⟨(hS.live_of_kid hkid).1, fun heq => hS.up_ne hp (hS.up_of_kid (by rwa [heq] at hkid))⟩
  · have hkid := h.prev_kid hS hp hlo hne
    refine ⟨(hS.live_of_kid hkid).1, ?_⟩
    exact (h.kids _ (hS.live_of_kid hkid).2).prev_ne hS.zero_notMem_kids
      (hS.mem_kids hp hlo ((hS.kids _ _).1 hkid).1)
  · exact ⟨(hS.live_of_kid (h.next_kid hS hp hlo hne)).1, h.next_ne hS hp hlo⟩

theorem Tree.resettle (h : Tree k S) (hS : S.Wf) (hp : p ∈ S.live) (hl : S.loose = ∅)
    (hm : S.Vacant p m) :
    Tree (k.resettle p m) (S.rename p m) := by
  obtain ⟨hparent, hchild, hprev, hnext⟩ := h.around hS hp hl hm
  have hlo : ∀ {a}, a ∉ S.loose := fun {a} => hl ▸ Finset.notMem_empty a
  have hne : ∀ {a}, a ∈ S.live → a ≠ p → a ≠ m := fun ha => hm.2 _ ha
  have hkidne : ∀ {x a}, a ∈ S.kids x → a ≠ p → a ≠ m :=
    fun ha => hne (hS.live_of_kid ha).1
  -- the links, of `m` and of every other chunk
  have hnextm : (k.resettle p m).next .chunk m = k.next .chunk p := by
    simp [Heap.resettle, Heap.move, hprev.symm]
  have hprevm : (k.resettle p m).prev .chunk m = k.prev .chunk p := by
    simp [Heap.resettle, Heap.move, hnext.symm]
  have hparentm : (k.resettle p m).parent m = k.parent p := by
    simp [Heap.resettle, Heap.move, hchild.symm]
  have hchildm : (k.resettle p m).child m = k.child p := by
    simp [Heap.resettle, Heap.move, hparent.symm]
  have hnexta : ∀ a, a ≠ m → (k.resettle p m).next .chunk a =
      if a ≠ 0 ∧ a = k.prev .chunk p then m else k.next .chunk a := fun a ha => by
    simp [Heap.resettle, Heap.move, ha]
  have hpreva : ∀ a, a ≠ m → (k.resettle p m).prev .chunk a =
      if a ≠ 0 ∧ a = k.next .chunk p then m else k.prev .chunk a := fun a ha => by
    simp [Heap.resettle, Heap.move, ha]
  have hparenta : ∀ a, a ≠ m → (k.resettle p m).parent a =
      if a ≠ 0 ∧ a = k.child p then m else k.parent a := fun a ha => by
    simp [Heap.resettle, Heap.move, ha]
  have hchilda : ∀ a, a ≠ m → (k.resettle p m).child a =
      if a ≠ 0 ∧ a = k.parent p then m else k.child a := fun a ha => by
    simp [Heap.resettle, Heap.move, ha]
  -- what is no sibling of `p` has the links it had
  have hapart : ∀ {x a}, a ∈ S.kids x → x ≠ S.up p →
      (k.resettle p m).next .chunk a = k.next .chunk a ∧
      (k.resettle p m).prev .chunk a = k.prev .chunk a := by
    intro x a ha hx
    have hap : a ≠ p := by
      rintro rfl
      exact hx (hS.up_of_kid ha).symm
    rw [hnexta a (hkidne ha hap), hpreva a (hkidne ha hap), if_neg, if_neg]
    · exact ⟨rfl, rfl⟩
    · exact fun hn => hx (hS.kid_unique ha (hn.2 ▸ h.next_kid hS hp hlo (hn.2 ▸ hn.1)))
    · exact fun hn => hx (hS.kid_unique ha (hn.2 ▸ h.prev_kid hS hp hlo (hn.2 ▸ hn.1)))
  refine ⟨fun a => ?_, fun x hx => ?_, fun c hc _ => ?_, fun c hc _ hup => ?_,
    fun c hc => absurd hc hlo⟩
  · change Function.update (Function.update k.live p false) m true a = true ↔ _
    rw [Shape.mem_rename_live, ← h.live]
    by_cases ham : a = m
    · simp [ham]
    · by_cases hap : a = p <;> simp [Function.update_apply, ham, hap]
  · by_cases hxm : x = m
    · subst hxm
      rw [hchildm, Shape.rename_kids_self]
      have hxp := (hS.up_ne hp).symm
      exact (h.kids p hp).congr (fun a ha => (hapart ha hxp).1) fun a ha => (hapart ha hxp).2
    · obtain ⟨hxp, hxl⟩ := (Shape.mem_rename_live.1 hx).resolve_left hxm
      have hx0 := hS.ne_zero hxl
      have hch := h.kids x hxl
      rw [Shape.rename_kids_ne hxm hxp, hchilda x hxm]
      by_cases hxup : x = S.up p
      · subst hxup
        have hkid := hS.mem_kids hp hlo hx0
        have hstart : (if S.up p ≠ 0 ∧ S.up p = k.parent p then m else k.child (S.up p)) =
            if k.child (S.up p) = p then m else k.child (S.up p) := by
          refine if_congr ⟨fun hc => ?_, fun hc => ⟨hx0, ?_⟩⟩ rfl rfl
          · exact (h.parent_ne_zero hS hp hlo (hc.2 ▸ hc.1)).2.2
          · have hfirst := (hch.prev_eq_iff hS.zero_notMem_kids hkid).2 hc.symm
            rw [h.parent p hp hlo, if_pos hfirst]
        rw [hstart]
        refine hch.replace hS.zero_notMem_kids hkid hm.1 hnextm hprevm (fun a ha hap => ?_)
          fun a ha hap => ?_
        · rw [hnexta a (hkidne ha hap)]
          refine if_congr ⟨fun hc => ?_, fun hc => ⟨hS.ne_zero (hS.live_of_kid ha).1, ?_⟩⟩
            rfl rfl
          · exact (hch.next_eq_iff hS.zero_notMem_kids ha hkid).2 hc.2.symm
          · exact ((hch.next_eq_iff hS.zero_notMem_kids ha hkid).1 hc).symm
        · rw [hpreva a (hkidne ha hap)]
          refine if_congr ⟨fun hc => ?_, fun hc => ⟨hS.ne_zero (hS.live_of_kid ha).1, ?_⟩⟩
            rfl rfl
          · exact (hch.next_eq_iff hS.zero_notMem_kids hkid ha).1 hc.2.symm
          · exact ((hch.next_eq_iff hS.zero_notMem_kids hkid ha).2 hc).symm
      · rw [Shape.rename_kids_apart hS hxup, if_neg]
        · exact hch.congr (fun a ha => (hapart ha hxup).1) fun a ha => (hapart ha hxup).2
        · rintro ⟨-, hc⟩
          exact hxup (hc.trans (h.parent_ne_zero hS hp hlo (hc ▸ hx0)).2.1)
  · by_cases hcm : c = m
    · subst hcm
      rw [hparentm, hprevm, Shape.rename_up_self hS hp]
      exact h.parent p hp hlo
    · obtain ⟨hcp, hcl⟩ := (Shape.mem_rename_live.1 hc).resolve_left hcm
      have hc0 := hS.ne_zero hcl
      have hpc := h.parent c hcl hlo
      rw [hparenta c hcm, hpreva c hcm, Shape.rename_up_ne hcm]
      by_cases hfirst : c = k.child p
      · -- the first child of `p`
        have hkid : c ∈ S.kids p := hfirst ▸ h.child_kid hp (hfirst ▸ hc0)
        have hprev0 : k.prev .chunk c = 0 :=
          ((h.kids p hp).prev_eq_iff hS.zero_notMem_kids hkid).2 hfirst
        have hnot : ¬ (c ≠ 0 ∧ c = k.next .chunk p) := fun hn =>
          hS.up_ne hp (hS.kid_unique hkid (hn.2 ▸ h.next_kid hS hp hlo (hn.2 ▸ hn.1))).symm
        rw [if_pos ⟨hc0, hfirst⟩, if_neg hnot, if_pos hprev0, if_pos (hS.up_of_kid hkid)]
      · rw [if_neg fun hn : c ≠ 0 ∧ c = k.child p => hfirst hn.2]
        by_cases hnextp : c = k.next .chunk p
        · -- the next sibling of `p`
          have hkid : c ∈ S.kids (S.up p) := hnextp ▸ h.next_kid hS hp hlo (hnextp ▸ hc0)
          have hpk := hS.mem_kids hp hlo ((hS.kids _ _).1 hkid).1
          have hprevc : k.prev .chunk c = p :=
            ((h.kids _ (hS.live_of_kid hkid).2).next_eq_iff hS.zero_notMem_kids hpk hkid).1
              hnextp.symm
          have hback : (if c ≠ 0 ∧ c = k.next .chunk p then m else k.prev .chunk c) = m :=
            if_pos ⟨hc0, hnextp⟩
          rw [hback, if_neg hm.1, hpc, if_neg (hprevc ▸ hS.ne_zero hp)]
        · rw [if_neg fun hn : c ≠ 0 ∧ c = k.next .chunk p => hnextp hn.2, hpc]
          by_cases hprev0 : k.prev .chunk c = 0
          · rw [if_pos hprev0, if_pos hprev0, if_neg]
            intro hup
            have hkid : c ∈ S.kids p := hup ▸ hS.mem_kids hcl hlo (hup ▸ hS.ne_zero hp)
            exact hfirst (((h.kids p hp).prev_eq_iff hS.zero_notMem_kids hkid).1 hprev0)
          · rw [if_neg hprev0, if_neg hprev0]
  · by_cases hcm : c = m
    · subst hcm
      rw [Shape.rename_up_self hS hp] at hup
      rw [hnextm, hprevm]
      exact h.root p hp hlo hup
    · obtain ⟨hcp, hcl⟩ := (Shape.mem_rename_live.1 hc).resolve_left hcm
      rw [Shape.rename_up_ne hcm] at hup
      have hup0 : S.up c = 0 := by
        by_contra hne0
        split at hup
        · exact hm.1 hup
        · exact hne0 hup
      have hnk : c ∉ S.kids (S.up p) :=
        fun hkid => ((hS.kids _ _).1 hkid).1 ((hS.up_of_kid hkid).symm.trans hup0)
      rw [hnexta c hcm, hpreva c hcm, if_neg, if_neg]
      · exact h.root c hcl hlo hup0
      · exact fun hn => hnk (hn.2 ▸ h.next_kid hS hp hlo (hn.2 ▸ hn.1))
      · exact fun hn => hnk (hn.2 ▸ h.prev_kid hS hp hlo (hn.2 ▸ hn.1))

/-! ## The forest -/

namespace Shape

/-- Where a chunk was before. -/
theorem rename_old (hp : p ∈ S.live) (hx : x ∈ (S.rename p m).live) :
    (if x = m then p else x) ∈ S.live := by
  rcases mem_rename_live.1 hx with rfl | ⟨-, hxl⟩
  · rwa [if_pos rfl]
  · split
    · exact hp
    · exact hxl

theorem rename_over (hS : S.Wf) (hp : p ∈ S.live) (hm : S.Vacant p m)
    (hab : (S.rename p m).Over a b) :
    S.Over (if a = m then p else a) (if b = m then p else b) := by
  obtain ⟨h0, hb, hup⟩ := hab
  have hback : ∀ {y : Nat}, y ∈ S.live → S.up y ≠ 0 →
      (if S.up y = p then m else S.up y) = a → (if a = m then p else a) = S.up y := by
    intro y hy hne ha
    by_cases hyp : S.up y = p
    · rw [if_pos hyp] at ha
      rw [if_pos ha.symm, hyp]
    · rw [if_neg hyp] at ha
      rw [← ha, if_neg (hm.2 _ ((hS.up y hy).resolve_left hne) hyp)]
  have hne : ∀ {y : Nat}, (if S.up y = p then m else S.up y) = a → S.up y ≠ 0 := by
    intro y ha hy0
    rw [hy0, if_neg (hS.ne_zero hp).symm] at ha
    exact h0 ha.symm
  rcases mem_rename_live.1 hb with rfl | ⟨hbp, hbl⟩
  · simp only [rename, if_true] at hup
    rw [if_pos rfl, hback hp (hne hup) hup]
    exact ⟨hne hup, hp, rfl⟩
  · have hbm := hm.2 b hbl hbp
    rw [rename_up_ne hbm] at hup
    rw [if_neg hbm, hback hbl (hne hup) hup]
    exact ⟨hne hup, hbl, rfl⟩

theorem Wf.rename (hS : S.Wf) (hp : p ∈ S.live) (hl : S.loose = ∅) (hn : ¬ S.IsHandle p)
    (hr : S.refs p = []) (hm : S.Vacant p m) : (S.rename p m).Wf := by
  have hlo : ∀ {a}, a ∉ S.loose := fun {a} => hl ▸ Finset.notMem_empty a
  have hlive : ∀ {a}, a ∈ S.live → (if a = p then m else a) ∈ (S.rename p m).live := by
    intro a ha
    by_cases hap : a = p
    · rw [if_pos hap]
      exact mem_rename_live.2 (.inl rfl)
    · rw [if_neg hap]
      exact mem_rename_live.2 (.inr ⟨hap, ha⟩)
  -- a chunk that a reference has to do with is not the one that has moved
  have href : ∀ c y, y ∈ S.refs c → c ≠ p ∧ c ≠ m ∧ y ≠ p ∧ y ≠ m := by
    intro c y hy
    obtain ⟨hc, hyl, -⟩ := hS.refs c y hy
    have hcp : c ≠ p := by
      rintro rfl
      exact List.not_mem_nil (hr ▸ hy)
    have hyp : y ≠ p := fun heq => hn (heq ▸ ⟨c, hy⟩)
    exact ⟨hcp, hm.2 c hc hcp, hyp, hm.2 y hyl hyp⟩
  have hup : ∀ x, x ∈ (S.rename p m).live → (S.rename p m).up x = 0 ∨
      (S.rename p m).up x ∈ (S.rename p m).live := by
    intro x hx
    have hold := rename_old hp hx
    rcases hS.up _ hold with h0 | hmem
    · refine .inl ?_
      simp only [Shape.rename]
      rw [h0, if_neg (hS.ne_zero hp).symm]
    · exact .inr (hlive hmem)
  refine ⟨fun h0 => ?_, fun a ha => absurd ha hlo, hup, fun x c => ?_, fun x => ?_,
    fun a ha => ?_, hS.refs_nodup, fun c y hy => ?_, hS.target, fun c y hy => ?_⟩
  · rcases mem_rename_live.1 h0 with hm0 | ⟨-, h0⟩
    · exact hm.1 hm0.symm
    · exact hS.zero h0
  · by_cases hxm : x = m
    · subst hxm
      rw [rename_kids_self, hS.kids]
      constructor
      · rintro ⟨-, hc, -, hcup⟩
        have hcp : c ≠ p := by
          rintro rfl
          exact hS.up_ne hc hcup
        refine ⟨hm.1, mem_rename_live.2 (.inr ⟨hcp, hc⟩), hlo, ?_⟩
        rw [rename_up_ne (hm.2 c hc hcp), if_pos hcup]
      · rintro ⟨-, hc, -, hcup⟩
        rcases mem_rename_live.1 hc with rfl | ⟨hcp, hcl⟩
        · rw [rename_up_self hS hp] at hcup
          by_cases hpc : p = c
          · subst hpc
            exact absurd hcup (hS.up_ne hp)
          · have h0 : S.up p ≠ 0 := hcup.symm ▸ hm.1
            exact absurd hcup (hm.2 _ ((hS.up p hp).resolve_left h0) (hS.up_ne hp))
        · have hcm := hm.2 c hcl hcp
          rw [rename_up_ne hcm] at hcup
          refine ⟨hS.ne_zero hp, hcl, hlo, ?_⟩
          by_contra hne
          rw [if_neg hne] at hcup
          have h0 : S.up c ≠ 0 := hcup.symm ▸ hm.1
          exact hm.2 _ ((hS.up c hcl).resolve_left h0) hne hcup
    · by_cases hxp : x = p
      · subst hxp
        have hkids : (S.rename x m).kids x = [] := by simp only [Shape.rename, if_neg hxm, if_true]
        rw [hkids]
        refine iff_of_false List.not_mem_nil ?_
        rintro ⟨h0, hc, -, hcup⟩
        rcases hup c hc with h0' | hmem
        · exact h0 (hcup.symm.trans h0')
        · rcases mem_rename_live.1 (hcup ▸ hmem) with heq | ⟨hne, -⟩
          · exact hxm heq
          · exact hne rfl
      · rw [rename_kids_ne hxm hxp, List.mem_map]
        constructor
        · rintro ⟨d, hd, rfl⟩
          obtain ⟨h0, hdl, -, hdup⟩ := (hS.kids x d).1 hd
          refine ⟨h0, hlive hdl, hlo, ?_⟩
          by_cases hdp : d = p
          · subst hdp
            rw [if_pos rfl, rename_up_self hS hp, hdup]
          · rw [if_neg hdp, rename_up_ne (hm.2 d hdl hdp), if_neg (hdup ▸ hxp), hdup]
        · rintro ⟨h0, hc, -, hcup⟩
          rcases mem_rename_live.1 hc with rfl | ⟨hcp, hcl⟩
          · rw [rename_up_self hS hp] at hcup
            exact ⟨p, (hS.kids x p).2 ⟨h0, hp, hlo, hcup⟩, if_pos rfl⟩
          · rw [rename_up_ne (hm.2 c hcl hcp)] at hcup
            refine ⟨c, (hS.kids x c).2 ⟨h0, hcl, hlo, ?_⟩, if_neg hcp⟩
            by_contra hne
            by_cases hcup' : S.up c = p
            · rw [if_pos hcup'] at hcup
              exact hxm hcup.symm
            · rw [if_neg hcup'] at hcup
              exact hne hcup
  · by_cases hxm : x = m
    · rw [hxm, rename_kids_self]
      exact hS.nodup p
    · by_cases hxp : x = p
      · simp only [Shape.rename, if_neg hxm, if_pos hxp]
        exact List.nodup_nil
      · rw [rename_kids_ne hxm hxp]
        refine (hS.nodup x).map_on fun a ha b hb hab => ?_
        by_cases hap : a = p <;> by_cases hbp : b = p
        · rw [hap, hbp]
        · rw [if_pos hap, if_neg hbp] at hab
          exact absurd hab.symm (hm.2 b (hS.live_of_kid hb).1 hbp)
        · rw [if_neg hap, if_pos hbp] at hab
          exact absurd hab (hm.2 a (hS.live_of_kid ha).1 hap)
        · rwa [if_neg hap, if_neg hbp] at hab
  · exact hS.acyclic _ (ha.lift _ fun _ _ hab => rename_over hS hp hm hab)
  · obtain ⟨hc, hyl, -⟩ := hS.refs c y hy
    obtain ⟨hcp, -, hyp, -⟩ := href c y hy
    exact ⟨mem_rename_live.2 (.inr ⟨hcp, hc⟩), mem_rename_live.2 (.inr ⟨hyp, hyl⟩), hlo⟩
  · obtain ⟨-, -, hyp, hym⟩ := href c y hy
    refine ⟨(hS.leaf c y hy).1, fun x hx hxup => ?_⟩
    have hold := rename_old hp hx
    simp only [Shape.rename] at hxup
    by_cases hupp : S.up (if x = m then p else x) = p
    · rw [if_pos hupp] at hxup
      exact hym hxup.symm
    · rw [if_neg hupp] at hxup
      exact (hS.leaf c y hy).2 _ hold hxup

end Shape

/-! ## `_talloc_realloc` -/

theorem Rep.resettle (h : Rep k S) (hS : S.Wf) (hp : p ∈ S.live) (hl : S.loose = ∅)
    (hn : ¬ S.IsHandle p) (hr : S.refs p = []) (hm : S.Vacant p m) (hnull : p ≠ k.nullContext) :
    Rep (k.resettle p m) (S.rename p m) := by
  have hrm : S.refs m = [] := by
    by_cases hml : m ∈ S.live
    · by_cases hmp : m = p
      · rw [hmp, hr]
      · exact absurd rfl (hm.2 m hml hmp)
    · exact hS.refs_of_dead hml
  have hnm : ¬ S.IsHandle m := by
    rintro ⟨d, hd⟩
    have hml := (hS.refs d m hd).2.1
    by_cases hmp : m = p
    · exact hn (hmp ▸ ⟨d, hd⟩)
    · exact hm.2 m hml hmp rfl
  have hold : ∀ c ∈ (S.rename p m).live, c ≠ m → c ∈ S.live := fun c hc hcm =>
    ((Shape.mem_rename_live.1 hc).resolve_left hcm).2
  refine ⟨h.tree.resettle hS hp hl hm, ⟨fun c hc => ?_, fun c y hy => ?_⟩, fun c hc => ?_,
    fun c hc => ?_, fun c hc => ?_, fun c hc => ?_, ?_⟩
  · change Chain _ _ 0 0 (Function.update k.refs m (k.refs p) c) (S.refs c)
    by_cases hcm : c = m
    · subst hcm
      rw [Function.update_self, hrm]
      exact (h.refs.refs_eq_zero hp).2 hr
    · rw [Function.update_of_ne hcm]
      refine (h.refs.chain c (hold c hc hcm)).congr (fun a ha => ?_) fun a ha => ?_
      all_goals
        have ham : a ≠ m := fun heq => hnm (heq ▸ ⟨c, ha⟩)
        simp [Heap.resettle, Heap.move, ham]
  · have hym : y ≠ m := fun heq => hnm (heq ▸ ⟨c, hy⟩)
    exact (Function.update_of_ne hym ..).trans (h.refs.ptr c y hy)
  · change Function.update k.destructor m (k.destructor p) c = _ ↔ S.IsHandle c
    by_cases hcm : c = m
    · subst hcm
      rw [Function.update_self]
      exact (h.handle p hp).trans (iff_of_false hn hnm)
    · rw [Function.update_of_ne hcm]
      exact h.handle c (hold c hc hcm)
  · change Function.update k.name m (k.name p) c = _ ↔ S.IsHandle c
    by_cases hcm : c = m
    · subst hcm
      rw [Function.update_self]
      exact (h.named p hp).trans (iff_of_false hn hnm)
    · rw [Function.update_of_ne hcm]
      exact h.named c (hold c hc hcm)
  · change Function.update k.destructor m (k.destructor p) c ≠ _
    by_cases hcm : c = m
    · subst hcm
      rw [Function.update_self]
      exact h.idle p hp
    · rw [Function.update_of_ne hcm]
      exact h.idle c (hold c hc hcm)
  · change Function.update k.loop m (k.loop p) c = true ↔ c ∈ S.loose
    have hlo : ∀ {a}, a ∉ S.loose := fun {a} => hl ▸ Finset.notMem_empty a
    by_cases hcm : c = m
    · subst hcm
      rw [Function.update_self]
      exact (h.loop p hp).trans (iff_of_false hlo hlo)
    · rw [Function.update_of_ne hcm]
      exact h.loop c (hold c hc hcm)
  · change (S.rename p m).NullOk k.nullContext
    refine h.null.imp id fun ⟨hlive, hloose, hup, hrest⟩ =>
      ⟨Shape.mem_rename_live.2 (.inr ⟨hnull.symm, hlive⟩), hloose, ?_, hrest⟩
    rw [Shape.rename_up_ne (hm.2 _ hlive hnull.symm), hup, if_neg (hS.ne_zero hp).symm]

theorem Rep.setSize (h : Rep k S) {c size : Nat} : Rep (k.setSize c size) S where
  tree := h.tree.congr rfl rfl rfl rfl rfl
  refs := h.refs.congr rfl rfl rfl rfl subset_rfl rfl
  handle := h.handle
  named := h.named
  idle := h.idle
  loop := h.loop
  null := h.null

/-- What `_talloc_realloc` of a chunk without references comes to, for a size it admits. -/
theorem Rep.realloc_run (h : Rep k S) (hS : S.Wf) (hp : p ∈ S.live) (hl : S.loose = ∅)
    (hn : ¬ S.IsHandle p) (hr : S.refs p = []) (hnull : p ≠ k.nullContext)
    (hm : m ≠ 0 → S.Vacant p m) (D : Outcomes) (n context : Nat) {size : Nat}
    (hsize : 0 < size) (hmax : size < maxTallocSize) (s : String) :
    if m = 0 then tallocRealloc D n m context p size (.str s) k = .ok (0, k)
    else ∃ k', tallocRealloc D n m context p size (.str s) k = .ok (m, k') ∧
      Rep k' (S.rename p m) := by
  have hlive := h.tree.alive hp
  have hrefs : k.refs p = 0 := (h.refs.refs_eq_zero hp).2 hr
  unfold tallocRealloc
  rw [if_neg hsize.ne', if_neg (not_le.2 hmax), if_neg (hS.ne_zero hp),
    Faulty.bind_run (chunk_run hlive),
    Faulty.bind_run (load_run hlive), hrefs, if_neg (not_not.2 rfl)]
  split
  · rename_i h0
    have hrun : realloc p m k = .ok (m, k) := by
      unfold realloc
      rw [if_pos h0]
    rw [Faulty.bind_run hrun, if_pos h0]
    rfl
  · rename_i h0
    have hm := hm h0
    have hlo : p ∉ S.loose := hl ▸ Finset.notMem_empty p
    have hrun : realloc p m k = .ok (m, k.move p m) := by
      unfold realloc
      rw [if_neg h0]
    have hrep := h.resettle hS hp hl hn hr hm hnull
    obtain ⟨hparent, hchild, hprev, hnext⟩ := h.tree.around hS hp hl hm
    obtain ⟨hparentp, hchildp, hprevp, hnextp⟩ :=
      h.tree.around hS hp hl ⟨hS.ne_zero hp, fun _ _ hap => hap⟩
    generalize hk₀ : k.move p m = k₀ at hrun
    have hml : k₀.live m = true := by
      rw [← hk₀]
      exact Function.update_self ..
    have halive : ∀ {a}, (a ≠ 0 → a ∈ S.live) → a ≠ p → a ≠ 0 →
        k₀.live a = true := by
      intro a ha hap h0
      rw [← hk₀]
      change Function.update (Function.update k.live p false) m true a = true
      rw [Function.update_of_ne (hm.2 a (ha h0) hap), Function.update_of_ne hap]
      exact h.tree.alive (ha h0)
    have hpm : k₀.parent m = k.parent p := by simp [← hk₀, Heap.move]
    have hcm : k₀.child m = k.child p := by simp [← hk₀, Heap.move]
    have hbm : k₀.prev .chunk m = k.prev .chunk p := by simp [← hk₀, Heap.move]
    have hnm : k₀.next .chunk m = k.next .chunk p := by simp [← hk₀, Heap.move]
    have hnotm : ¬ (S.rename p m).IsHandle m := by
      rintro ⟨d, hd⟩
      have hml := (hS.refs d m hd).2.1
      by_cases hmp : m = p
      · exact hn (hmp ▸ ⟨d, hd⟩)
      · exact hm.2 m hml hmp rfl
    refine ⟨((k.resettle p m).setSize m size).setName m (.str s), ?_,
      hrep.setSize.setName hnotm⟩
    rw [Faulty.bind_run hrun, if_neg h0, Faulty.bind_run (load_run hml), hpm]
    refine (Faulty.bind_run (storeChild_run ?_)).trans ?_
    · refine halive (fun hne => ?_) hparentp
      have hup := (h.tree.parent_ne_zero hS hp hlo hne).2.1
      exact hup ▸ (hS.up p hp).resolve_left (hup ▸ hne)
    have hchild₁ : (if m ≠ 0 ∧ m = k.parent p then m else k₀.child m) = k.child p := by
      rw [if_neg fun hc => hparent hc.2.symm, hcm]
    refine (Faulty.bind_run (load_eq_run ?_ hchild₁)).trans ?_
    · exact hml
    refine (Faulty.bind_run (storeParent_run ?_)).trans ?_
    · exact halive (fun hne => (hS.live_of_kid (h.tree.child_kid hp hne)).1) hchildp
    refine (Faulty.bind_run (load_eq_run ?_ hbm)).trans ?_
    · exact hml
    refine (Faulty.bind_run (storeNext_run ?_)).trans ?_
    · exact halive (fun hne => (hS.live_of_kid (h.tree.prev_kid hS hp hlo hne)).1) hprevp
    have hnext₁ :
        (if Links.chunk = .chunk ∧ m ≠ 0 ∧ m = k.prev .chunk p then m else k₀.next .chunk m) =
          k.next .chunk p := by
      rw [if_neg fun hc => hprev hc.2.2.symm, hnm]
    refine (Faulty.bind_run (load_eq_run ?_ hnext₁)).trans ?_
    · exact hml
    refine (Faulty.bind_run (storePrev_run ?_)).trans ?_
    · exact halive (fun hne => (hS.live_of_kid (h.tree.next_kid hS hp hlo hne)).1) hnextp
    refine (Faulty.bind_run (store_run ?_)).trans ((Faulty.bind_run (store_run ?_)).trans ?_)
    · exact hml
    · exact hml
    rw [← hk₀]
    rfl

end Talloc
end AnekVideo
