/-
  AnekVideo.Talloc.Tree

  The links of the chunks and the forest they stand for.

  Only the first of several children points at its parent; the others find it by going
  back to the first.  A chunk that was taken out of its list still finds its parent: it
  was the first and has kept the pointer, or it points back at a sibling that is still
  in the list.
-/
import AnekVideo.Linked.Chain
import AnekVideo.Talloc.Heap
import AnekVideo.Talloc.Shape

namespace AnekVideo
namespace Talloc

open Interact Linked Relation

/-- The links of the chunks in `k` stand for the tree of `S`. -/
structure Tree (k : Heap) (S : Shape) : Prop where
  live : ∀ a, k.live a = true ↔ a ∈ S.live
  kids : ∀ p ∈ S.live, Chain (k.next .chunk) (k.prev .chunk) 0 0 (k.child p) (S.kids p)
  parent : ∀ c ∈ S.live, c ∉ S.loose →
    k.parent c = if k.prev .chunk c = 0 then S.up c else 0
  root : ∀ c ∈ S.live, c ∉ S.loose → S.up c = 0 →
    k.next .chunk c = 0 ∧ k.prev .chunk c = 0
  trail : ∀ c ∈ S.loose, (k.prev .chunk c = 0 ∧ k.parent c = S.up c) ∨
    k.prev .chunk c ∈ S.kids (S.up c)

namespace Tree

variable {k : Heap} {S : Shape} {c d p x : Nat}

theorem alive (h : Tree k S) (hc : c ∈ S.live) : k.live c = true := (h.live c).2 hc

/-! ## Neighbours -/

theorem prev_kid (h : Tree k S) (hS : S.Wf) (hc : c ∈ S.live) (hl : c ∉ S.loose)
    (hne : k.prev .chunk c ≠ 0) : k.prev .chunk c ∈ S.kids (S.up c) := by
  by_cases h0 : S.up c = 0
  · exact absurd (h.root c hc hl h0).2 hne
  · have hkid := hS.mem_kids hc hl h0
    exact ((h.kids _ (hS.live_of_kid hkid).2).prev_mem hkid).resolve_left fun hp => hne hp.1

theorem next_kid (h : Tree k S) (hS : S.Wf) (hc : c ∈ S.live) (hl : c ∉ S.loose)
    (hne : k.next .chunk c ≠ 0) : k.next .chunk c ∈ S.kids (S.up c) := by
  by_cases h0 : S.up c = 0
  · exact absurd (h.root c hc hl h0).1 hne
  · have hkid := hS.mem_kids hc hl h0
    exact ((h.kids _ (hS.live_of_kid hkid).2).next_mem hkid).resolve_left hne

theorem next_ne (h : Tree k S) (hS : S.Wf) (hc : c ∈ S.live) (hl : c ∉ S.loose) :
    k.next .chunk c ≠ c := by
  by_cases h0 : S.up c = 0
  · rw [(h.root c hc hl h0).1]
    exact (hS.ne_zero hc).symm
  · have hkid := hS.mem_kids hc hl h0
    exact (h.kids _ (hS.live_of_kid hkid).2).next_ne hS.zero_notMem_kids hkid

theorem child_kid (h : Tree k S) (hp : p ∈ S.live) (hne : k.child p ≠ 0) :
    k.child p ∈ S.kids p := by
  rw [(h.kids p hp).start] at hne ⊢
  cases hk : S.kids p with
  | nil => exact absurd (by rw [hk]; rfl) hne
  | cons a L => exact List.mem_cons_self ..

/-- Only the first child has a parent to point at. -/
theorem parent_ne_zero (h : Tree k S) (hS : S.Wf) (hc : c ∈ S.live) (hl : c ∉ S.loose)
    (hne : k.parent c ≠ 0) :
    k.prev .chunk c = 0 ∧ k.parent c = S.up c ∧ k.child (S.up c) = c := by
  have hparent := h.parent c hc hl
  by_cases hprev : k.prev .chunk c = 0
  · rw [if_pos hprev] at hparent
    have hkid := hS.mem_kids hc hl (hparent ▸ hne)
    exact ⟨hprev, hparent,
      (((h.kids _ (hS.live_of_kid hkid).2).prev_eq_iff hS.zero_notMem_kids hkid).1 hprev).symm⟩
  · rw [if_neg hprev] at hparent
    exact absurd hparent hne

/-! ## Taking a chunk out -/

theorem unlink_run (h : Tree k S) (hS : S.Wf) (hc : c ∈ S.live) (hl : c ∉ S.loose) :
    unlink c k = .ok ((), k.unlink c) := by
  refine Talloc.unlink_run (h.alive hc) (h.next_ne hS hc hl) (fun hne => ?_) (fun hne => ?_)
    fun hne => ?_
  · exact h.alive (hS.live_of_kid (h.prev_kid hS hc hl hne)).1
  · exact h.alive (hS.live_of_kid (h.next_kid hS hc hl hne)).1
  · obtain ⟨hprev, hup, hchild⟩ := h.parent_ne_zero hS hc hl hne
    rw [hup] at hne ⊢
    exact ⟨hS.ne_zero hc, h.alive ((hS.up c hc).resolve_left hne), hchild, hprev⟩

theorem unlink_next (hd : d ≠ c) : (k.unlink c).next .chunk d =
    if d ≠ 0 ∧ d = k.prev .chunk c then k.next .chunk c else k.next .chunk d := by
  unfold Heap.unlink
  split
  · simp [Heap.bypass]
  · simp [Heap.bypass, Heap.clear, hd]

theorem unlink_prev (hd : d ≠ c) : (k.unlink c).prev .chunk d =
    if d ≠ 0 ∧ d = k.next .chunk c then k.prev .chunk c else k.prev .chunk d := by
  unfold Heap.unlink
  split
  · simp [Heap.bypass]
  · simp [Heap.bypass, Heap.clear, hd]

/-- The chunk that is taken out points back where it did. -/
theorem unlink_prev_self (h : Tree k S) (hS : S.Wf) (hc : c ∈ S.live) (hl : c ∉ S.loose) :
    (k.unlink c).prev .chunk c = k.prev .chunk c := by
  have hne := h.next_ne hS hc hl
  unfold Heap.unlink
  split
  · simp [Heap.bypass, hne.symm]
  · rename_i hp
    simp [Heap.clear, (h.parent_ne_zero hS hc hl hp).1]

theorem unlink_child (h : Tree k S) (hS : S.Wf) (hc : c ∈ S.live) (hl : c ∉ S.loose)
    (hp : p ∈ S.live) :
    (k.unlink c).child p = if k.child p = c then k.next .chunk c else k.child p := by
  unfold Heap.unlink
  split
  · rename_i h0
    by_cases hpc : k.child p = c
    · -- a first child has a parent
      have hkid : c ∈ S.kids p := hpc ▸ h.child_kid hp (hpc ▸ hS.ne_zero hc)
      have hprev := ((h.kids p hp).prev_eq_iff hS.zero_notMem_kids hkid).2 hpc.symm
      rw [h.parent c hc hl, if_pos hprev, hS.up_of_kid hkid] at h0
      exact absurd (h0 ▸ hp) hS.zero
    · rw [if_neg hpc]
      rfl
  · rename_i h0
    obtain ⟨-, hup, hfirst⟩ := h.parent_ne_zero hS hc hl h0
    change Function.update k.child (k.parent c) (k.next .chunk c) p = _
    by_cases hpc : p = k.parent c
    · rw [hpc, Function.update_self, hup, hfirst, if_pos rfl]
    · rw [Function.update_of_ne hpc, if_neg]
      intro hpc'
      have hkid : c ∈ S.kids p := hpc' ▸ h.child_kid hp (hpc' ▸ hS.ne_zero hc)
      exact hpc ((hS.up_of_kid hkid).symm.trans hup.symm)

theorem unlink_parent (d : Nat) : (k.unlink c).parent d =
    if k.parent c ≠ 0 ∧ d ≠ 0 ∧ d = k.next .chunk c then k.parent c else k.parent d := by
  unfold Heap.unlink
  split
  · rename_i h0
    rw [if_neg fun h : k.parent c ≠ 0 ∧ d ≠ 0 ∧ d = k.next .chunk c => h.1 h0]
    rfl
  · rename_i h0
    simp [h0]

/-- The chunk that follows the one taken out points at the parent if the latter did. -/
theorem unlink_parent_eq (h : Tree k S) (hS : S.Wf) (hc : c ∈ S.live) (hl : c ∉ S.loose)
    (hd : d ∈ S.live) (hdl : d ∉ S.loose) (hdc : d ≠ c) :
    (k.unlink c).parent d = if (k.unlink c).prev .chunk d = 0 then S.up d else 0 := by
  rw [unlink_prev hdc, unlink_parent]
  by_cases hn : d = k.next .chunk c
  · have h0 := hS.ne_zero hd
    have hkid : d ∈ S.kids (S.up c) := hn ▸ h.next_kid hS hc hl (hn ▸ h0)
    rw [if_pos (show d ≠ 0 ∧ d = k.next .chunk c from ⟨h0, hn⟩)]
    by_cases hp : k.parent c = 0
    · have hup : S.up c ≠ 0 := ((hS.kids _ _).1 hkid).1
      have hprev : k.prev .chunk c ≠ 0 := by
        intro hprev
        rw [h.parent c hc hl, if_pos hprev] at hp
        exact hup hp
      have hpd : k.prev .chunk d = c := ((h.kids _ (hS.live_of_kid hkid).2).next_eq_iff
        hS.zero_notMem_kids (hS.mem_kids hc hl hup) hkid).1 hn.symm
      rw [if_neg hprev, if_neg fun h => h.1 hp, h.parent d hd hdl, if_neg (hpd ▸ hS.ne_zero hc)]
    · obtain ⟨hprev, hup, -⟩ := h.parent_ne_zero hS hc hl hp
      rw [if_pos hprev, if_pos ⟨hp, h0, hn⟩, hup, hS.up_of_kid hkid]
  · rw [if_neg fun h : d ≠ 0 ∧ d = k.next .chunk c => hn h.2,
      if_neg fun h : k.parent c ≠ 0 ∧ d ≠ 0 ∧ d = k.next .chunk c => hn h.2.2,
        h.parent d hd hdl]

/-- The links of a chunk that is no sibling of the one taken out. -/
theorem unlink_apart (h : Tree k S) (hS : S.Wf) (hc : c ∈ S.live) (hl : c ∉ S.loose)
    (hd : d ∉ S.kids (S.up c)) (hdc : d ≠ c) :
    (k.unlink c).next .chunk d = k.next .chunk d ∧
    (k.unlink c).prev .chunk d = k.prev .chunk d ∧
      (k.unlink c).parent d = k.parent d := by
  have hn : ¬ (d ≠ 0 ∧ d = k.next .chunk c) :=
    fun hn => hd (hn.2 ▸ h.next_kid hS hc hl (hn.2 ▸ hn.1))
  have hp : ¬ (d ≠ 0 ∧ d = k.prev .chunk c) :=
    fun hp => hd (hp.2 ▸ h.prev_kid hS hc hl (hp.2 ▸ hp.1))
  rw [unlink_next hdc, unlink_prev hdc, unlink_parent, if_neg hp, if_neg hn, if_neg fun h => hn h.2]
  exact ⟨rfl, rfl, rfl⟩

theorem unlink_kids (h : Tree k S) (hS : S.Wf) (hc : c ∈ S.live) (hl : c ∉ S.loose)
    (hp : p ∈ S.live) :
    Chain ((k.unlink c).next .chunk) ((k.unlink c).prev .chunk) 0 0 ((k.unlink c).child p)
      ((S.takeOut c).kids p) := by
  rw [h.unlink_child hS hc hl hp]
  by_cases hpc : p = S.up c
  · subst hpc
    have h0 : S.up c ≠ 0 := hS.ne_zero hp
    have hkid := hS.mem_kids hc hl h0
    have hch := h.kids _ hp
    rw [Shape.takeOut_kids_self]
    -- its neighbours in the list now point at each other
    refine hch.erase hS.zero_notMem_kids hkid (fun a ha hac => ?_) fun a ha hac => ?_
    · rw [unlink_next hac]
      have ha0 : a ≠ 0 := hS.ne_zero (hS.live_of_kid ha).1
      refine if_congr ⟨fun h => ?_, fun h => ⟨ha0, ?_⟩⟩ rfl rfl
      · exact (hch.next_eq_iff hS.zero_notMem_kids ha hkid).2 h.2.symm
      · exact ((hch.next_eq_iff hS.zero_notMem_kids ha hkid).1 h).symm
    · rw [unlink_prev hac]
      have ha0 : a ≠ 0 := hS.ne_zero (hS.live_of_kid ha).1
      refine if_congr ⟨fun h => ?_, fun h => ⟨ha0, ?_⟩⟩ rfl rfl
      · exact (hch.next_eq_iff hS.zero_notMem_kids hkid ha).1 h.2.symm
      · exact ((hch.next_eq_iff hS.zero_notMem_kids hkid ha).2 h).symm
  · -- another chunk has none of the links that changed in its list
    rw [Shape.takeOut_kids_ne hpc, if_neg]
    · refine (h.kids p hp).congr (fun a ha => ?_) fun a ha => ?_
      all_goals
        have hac : a ≠ c := by
          rintro rfl
          exact hpc (hS.up_of_kid ha).symm
        have hapart := h.unlink_apart hS hc hl (d := a) (fun h' => hpc (hS.kid_unique ha h')) hac
      · exact hapart.1
      · exact hapart.2.1
    · intro hpc'
      have hkid : c ∈ S.kids p := hpc' ▸ h.child_kid hp (hpc' ▸ hS.ne_zero hc)
      exact hpc (hS.up_of_kid hkid).symm

/-- `unlink` takes a chunk out of its list, if no loose chunk finds its parent through it. -/
theorem takeOut (h : Tree k S) (hS : S.Wf) (hc : c ∈ S.live) (hl : c ∉ S.loose)
    (htrail : ∀ d ∈ S.loose, k.prev .chunk d ≠ c) : Tree (k.unlink c) (S.takeOut c) where
  live := fun a => by
    rw [Retreed.unlink.live]
    exact h.live a
  kids := fun p hp => h.unlink_kids hS hc hl hp
  parent := fun d hd hdl => by
    obtain ⟨hdc, hdl⟩ := not_or.1 (mt Finset.mem_insert.2 hdl)
    exact h.unlink_parent_eq hS hc hl hd hdl hdc
  root := fun d hd hdl h0 => by
    obtain ⟨hdc, hdl⟩ := not_or.1 (mt Finset.mem_insert.2 hdl)
    have hapart := h.unlink_apart hS hc hl (d := d)
      (fun hkid => ((hS.kids _ _).1 hkid).1 ((hS.up_of_kid hkid).symm.trans h0)) hdc
    rw [hapart.1, hapart.2.1]
    exact h.root d hd hdl h0
  trail := fun d hd => by
    by_cases hdc : d = c
    · subst hdc
      rw [h.unlink_prev_self hS hc hl, unlink_parent,
        if_neg fun h' => h.next_ne hS hc hl h'.2.2.symm]
      -- `c` keeps its own `prev`, by which the parent is still found
      by_cases hprev : k.prev .chunk d = 0
      · exact .inl ⟨hprev, by rw [h.parent d hc hl, if_pos hprev]; rfl⟩
      · have hkid := h.prev_kid hS hc hl hprev
        refine .inr ((Shape.mem_takeOut_kids hS).2 ⟨hkid, ?_⟩)
        exact (h.kids _ (hS.live_of_kid hkid).2).prev_ne hS.zero_notMem_kids
          (hS.mem_kids hc hl ((hS.kids _ _).1 hkid).1)
    · have hdl : d ∈ S.loose := Finset.mem_of_mem_insert_of_ne hd hdc
      have hapart := h.unlink_apart hS hc hl (d := d)
        (fun hkid => ((hS.kids _ _).1 hkid).2.2.1 hdl) hdc
      rw [hapart.2.1, hapart.2.2]
      exact (h.trail d hdl).imp id fun hkid =>
        (Shape.mem_takeOut_kids hS).2 ⟨hkid, htrail d hdl⟩

/-! ## Hanging a chunk up -/

/-- A loose chunk becomes the first child of `x`. -/
theorem hang (h : Tree k S) (hS : S.Wf) (hc : c ∈ S.loose) (hx : x ∈ S.live) (hcx : c ≠ x) :
    Tree (k.hang c x) (S.place c x) := by
  have h0 : x ≠ 0 := hS.ne_zero hx
  have hcl : c ∈ S.live := hS.loose hc
  have hnk : ∀ {p}, c ∉ S.kids p := fun hmem => ((hS.kids _ _).1 hmem).2.2.1 hc
  have hnext : ∀ d, d ≠ c → (k.hang c x).next .chunk d = k.next .chunk d := fun d hd => by
    simp [Heap.hang, Heap.add, hd]
  have hprev : ∀ d, d ≠ c → (k.hang c x).prev .chunk d =
      if d ≠ 0 ∧ d = k.child x then c else k.prev .chunk d := fun d hd => by
    simp [Heap.hang, Heap.add, hd]
  have hparent : ∀ d, d ≠ c → (k.hang c x).parent d =
      if d ≠ 0 ∧ d = k.child x then 0 else k.parent d := fun d hd => if_neg hd
  have hself : (k.hang c x).prev .chunk c = 0 ∧ (k.hang c x).parent c = x := by
    simp [Heap.hang, Heap.add]
  -- the links of what is no child of `x` are untouched
  have hapart : ∀ d, d ∉ S.kids x → d ≠ c →
      (k.hang c x).prev .chunk d = k.prev .chunk d ∧
      (k.hang c x).parent d = k.parent d := fun d hd hdc => by
    have hn : ¬ (d ≠ 0 ∧ d = k.child x) :=
      fun hn => hd (hn.2 ▸ h.child_kid hx (hn.2 ▸ hn.1))
    rw [hprev d hdc, hparent d hdc, if_neg hn, if_neg hn]
    exact ⟨rfl, rfl⟩
  refine ⟨h.live, fun p hp => ?_, fun d hd hdl => ?_, fun d hd hdl hup => ?_, fun d hd => ?_⟩
  · -- the lists of children: that of `x` has a new head
    change Chain _ _ 0 0 (Function.update k.child x c p) _
    by_cases hpx : p = x
    · subst hpx
      rw [Function.update_self, Shape.place_kids_self h0]
      refine (h.kids p hp).cons (hS.nodup p) (hS.ne_zero hcl)
        (by simp [Heap.hang, Heap.add]) hself.1
        (fun d hd => hnext d fun hdc => hnk (hdc ▸ hd)) fun d hd => ?_
      have hd0 := hS.ne_zero (hS.live_of_kid hd).1
      rw [hprev d fun hdc => hnk (hdc ▸ hd)]
      exact if_congr (and_iff_right hd0) rfl rfl
    · rw [Function.update_of_ne hpx, Shape.place_kids_ne hpx]
      exact (h.kids p hp).congr (fun d hd => hnext d fun hdc => hnk (hdc ▸ hd)) fun d hd =>
        (hapart d (fun hdx => hpx (hS.kid_unique hd hdx)) fun hdc => hnk (hdc ▸ hd)).1
  · by_cases hdc : d = c
    · subst hdc
      rw [hself.1, hself.2, if_pos rfl, Shape.place_up_self]
    · have hdl : d ∉ S.loose := fun hmem => hdl (Finset.mem_erase.2 ⟨hdc, hmem⟩)
      rw [hprev d hdc, hparent d hdc, Shape.place_up_ne hdc]
      split
      · rw [if_neg (hS.ne_zero hcl)]
      · exact h.parent d hd hdl
  · have hdc : d ≠ c := by
      rintro rfl
      exact h0 (Shape.place_up_self.symm.trans hup)
    have hdl : d ∉ S.loose := fun hmem => hdl (Finset.mem_erase.2 ⟨hdc, hmem⟩)
    rw [Shape.place_up_ne hdc] at hup
    rw [hnext d hdc, (hapart d (fun hkid => h0 ((hS.up_of_kid hkid).symm.trans hup)) hdc).1]
    exact h.root d hd hdl hup
  · obtain ⟨hdc, hdl⟩ := Finset.mem_erase.1 hd
    have hd' := hapart d (fun hkid => ((hS.kids _ _).1 hkid).2.2.1 hdl) hdc
    rw [hd'.1, hd'.2, Shape.place_up_ne hdc]
    refine (h.trail d hdl).imp id fun hkid => ?_
    by_cases hpx : S.up d = x
    · rw [hpx, Shape.place_kids_self h0]
      exact List.mem_cons_of_mem _ (hpx ▸ hkid)
    · rw [Shape.place_kids_ne hpx]
      exact hkid

/-- A loose chunk is left without a parent. -/
theorem alone (h : Tree k S) (hS : S.Wf) (hc : c ∈ S.loose) : Tree (k.alone c) (S.place c 0) := by
  have hnk : ∀ {p}, c ∉ S.kids p := fun hmem => ((hS.kids _ _).1 hmem).2.2.1 hc
  have hd : ∀ d, d ≠ c → (k.alone c).next .chunk d = k.next .chunk d ∧
      (k.alone c).prev .chunk d = k.prev .chunk d ∧ (k.alone c).parent d = k.parent d :=
        fun d hd => by
    simp [Heap.alone, Heap.clear, Heap.setParent, hd]
  have hself : (k.alone c).next .chunk c = 0 ∧ (k.alone c).prev .chunk c = 0 ∧
      (k.alone c).parent c = 0 := by
    simp [Heap.alone, Heap.clear, Heap.setParent]
  refine ⟨h.live, fun p hp => ?_, fun d hdl hdo => ?_, fun d hdl hdo hup => ?_, fun d hdo => ?_⟩
  · rw [Shape.place_kids_zero]
    exact (h.kids p hp).congr (fun d hkid => (hd d fun hdc => hnk (hdc ▸ hkid)).1)
      fun d hkid => (hd d fun hdc => hnk (hdc ▸ hkid)).2.1
  · by_cases hdc : d = c
    · subst hdc
      rw [hself.2.1, hself.2.2, if_pos rfl, Shape.place_up_self]
    · rw [(hd d hdc).2.1, (hd d hdc).2.2, Shape.place_up_ne hdc]
      exact h.parent d hdl fun hmem => hdo (Finset.mem_erase.2 ⟨hdc, hmem⟩)
  · by_cases hdc : d = c
    · subst hdc
      exact ⟨hself.1, hself.2.1⟩
    · rw [Shape.place_up_ne hdc] at hup
      rw [(hd d hdc).1, (hd d hdc).2.1]
      exact h.root d hdl (fun hmem => hdo (Finset.mem_erase.2 ⟨hdc, hmem⟩)) hup
  · obtain ⟨hdc, hdo⟩ := Finset.mem_erase.1 hdo
    rw [(hd d hdc).2.1, (hd d hdc).2.2, Shape.place_up_ne hdc, Shape.place_kids_zero]
    exact h.trail d hdo

/-! ## Chunks come and go -/

/-- A new chunk without links. -/
theorem born (h : Tree k S) (hS : S.Wf) (hc : c ∉ S.live) :
    Tree (((k.setLive c true).setChild c 0).alone c) (S.born c 0) := by
  have hnk : ∀ {p}, c ∉ S.kids p := fun hmem => hc (hS.live_of_kid hmem).1
  have hne : ∀ {d}, d ∈ S.live → d ≠ c := by
    rintro d hd rfl
    exact hc hd
  have hd : ∀ d, d ≠ c → (((k.setLive c true).setChild c 0).alone c).next .chunk d =
      k.next .chunk d ∧
      (((k.setLive c true).setChild c 0).alone c).prev .chunk d = k.prev .chunk d ∧
      (((k.setLive c true).setChild c 0).alone c).parent d = k.parent d := fun d hd => by
    simp [Heap.alone, Heap.clear, Heap.setParent, Heap.setChild, Heap.setLive, hd]
  refine ⟨fun a => ?_, fun p hp => ?_, fun d hdl hdo => ?_, fun d hdl hdo hup => ?_,
    fun d hdo => ?_⟩
  · change Function.update k.live c true a = true ↔ a ∈ insert c S.live
    rw [Function.update_apply, Finset.mem_insert, ← h.live]
    split <;> rename_i hac <;> simp [hac]
  · change Chain _ _ 0 0 (Function.update k.child c 0 p) (S.kids p)
    by_cases hpc : p = c
    · subst hpc
      rw [Function.update_self, hS.kids_of_dead hc]
      rfl
    · rw [Function.update_of_ne hpc]
      exact (h.kids p (Finset.mem_of_mem_insert_of_ne hp hpc)).congr
        (fun d hkid => (hd d (hne (hS.live_of_kid hkid).1)).1)
        fun d hkid => (hd d (hne (hS.live_of_kid hkid).1)).2.1
  · obtain ⟨hdc, hdo⟩ := not_or.1 (mt Finset.mem_insert.2 hdo)
    rw [(hd d hdc).2.1, (hd d hdc).2.2, Shape.born_up_ne hdc]
    exact h.parent d (Finset.mem_of_mem_insert_of_ne hdl hdc) hdo
  · obtain ⟨hdc, hdo⟩ := not_or.1 (mt Finset.mem_insert.2 hdo)
    rw [Shape.born_up_ne hdc] at hup
    rw [(hd d hdc).1, (hd d hdc).2.1]
    exact h.root d (Finset.mem_of_mem_insert_of_ne hdl hdc) hdo hup
  · by_cases hdc : d = c
    · subst hdc
      rw [Shape.born_up_self]
      exact .inl (by simp [Heap.alone, Heap.clear, Heap.setParent])
    · rw [(hd d hdc).2.1, (hd d hdc).2.2, Shape.born_up_ne hdc]
      exact h.trail d (Finset.mem_of_mem_insert_of_ne hdo hdc)

/-- A loose chunk is gone. -/
theorem release (h : Tree k S) : Tree (k.setLive c false) (S.release c) where
  live := fun a => by
    change Function.update k.live c false a = true ↔ a ∈ S.live.erase c
    rw [Function.update_apply, Finset.mem_erase, ← h.live]
    split <;> rename_i hac <;> simp [hac]
  kids := fun p hp => h.kids p (Finset.mem_of_mem_erase hp)
  parent := fun d hd hdl => h.parent d (Finset.mem_of_mem_erase hd) fun hmem =>
    hdl (Finset.mem_erase.2 ⟨(Finset.mem_erase.1 hd).1, hmem⟩)
  root := fun d hd hdl => h.root d (Finset.mem_of_mem_erase hd) fun hmem =>
    hdl (Finset.mem_erase.2 ⟨(Finset.mem_erase.1 hd).1, hmem⟩)
  trail := fun d hd => h.trail d (Finset.mem_of_mem_erase hd)

/-! ## Walking -/

/-- How far a chunk is from the first of its siblings. -/
def rank (S : Shape) (c : Nat) : Nat :=
  if c ∈ S.loose then (S.kids (S.up c)).length else (S.kids (S.up c)).idxOf c

theorem kids_length (hS : S.Wf) : (S.kids p).length ≤ S.live.card :=
  (List.toFinset_card_of_nodup (hS.nodup p)).symm ▸
    Finset.card_le_card fun _ hd => (hS.live_of_kid (List.mem_toFinset.1 hd)).1

theorem rank_lt (h : Tree k S) (hS : S.Wf) (hc : c ∈ S.live) (hne : k.prev .chunk c ≠ 0) :
    k.prev .chunk c ∈ S.kids (S.up c) ∧ rank S (k.prev .chunk c) < rank S c := by
  -- also the `prev` that a loose chunk has kept leads to a child of its parent
  have hkid : k.prev .chunk c ∈ S.kids (S.up c) := by
    by_cases hl : c ∈ S.loose
    · exact (h.trail c hl).resolve_left fun h' => hne h'.1
    · exact h.prev_kid hS hc hl hne
  have hnl := ((hS.kids _ _).1 hkid).2.2.1
  refine ⟨hkid, ?_⟩
  rw [rank, rank, if_neg hnl, hS.up_of_kid hkid]
  split
  · exact List.idxOf_lt_length_iff.2 hkid
  · rename_i hl
    have hup := ((hS.kids _ _).1 hkid).1
    exact ((h.kids _ (hS.live_of_kid hkid).2).prev_idxOf hS.zero_notMem_kids
      (hS.mem_kids hc hl hup) hne).2

/-- The walk back to the first sibling ends where the parent is known. -/
theorem firstSibling_run (h : Tree k S) (hS : S.Wf) (hc : c ∈ S.live) {n : Nat}
    (hn : S.live.card < n) :
    ∃ f, firstSibling n c k = .ok (f, k) ∧ f ∈ S.live ∧ k.parent f = S.up c := by
  have hrank : rank S c < n := by
    refine lt_of_le_of_lt ?_ hn
    unfold rank
    split
    · exact kids_length hS
    · exact List.idxOf_le_length.trans (kids_length hS)
  suffices hex : ∃ f k', firstSibling n c k = .ok (f, k') ∧ k' = k ∧ f ∈ S.live ∧
      k.parent f = S.up c by
    obtain ⟨f, k', hrun, rfl, hf⟩ := hex
    exact ⟨f, hrun, hf⟩
  refine Faulty.exists_rounds (fun d k' => k' = k ∧ d ∈ S.live ∧ S.up d = S.up c)
    (fun d _ => rank S d) ?_ ⟨rfl, hc, rfl⟩ hrank
  -- all siblings have one parent, and each step comes closer to the first
  rintro d k' ⟨rfl, hd, hup⟩
  rw [Faulty.bind_run (load_run (h.alive hd))]
  by_cases hprev : k'.prev .chunk d = 0
  · refine .inr ⟨d, k', by rw [if_neg (not_not.2 hprev)]; rfl, rfl, hd, ?_⟩
    by_cases hl : d ∈ S.loose
    · rcases h.trail d hl with ⟨-, hp⟩ | hkid
      · exact hp.trans hup
      · exact absurd (hprev ▸ hkid) hS.zero_notMem_kids
    · rw [h.parent d hd hl, if_pos hprev, hup]
  · obtain ⟨hkid, hlt⟩ := h.rank_lt hS hd hprev
    refine .inl ⟨_, k', by rw [if_pos hprev]; rfl, ⟨rfl, (hS.live_of_kid hkid).1, ?_⟩, hlt⟩
    exact (hS.up_of_kid hkid).trans hup

/-- `talloc_parent_chunk` finds the parent, also of a loose chunk. -/
theorem parentChunk_run (h : Tree k S) (hS : S.Wf) (hc : c ∈ S.live) {n : Nat}
    (hn : S.live.card < n) :
    tallocParentChunk n c k = .ok (S.up c, k) := by
  obtain ⟨f, hrun, hf, hparent⟩ := h.firstSibling_run hS hc hn
  unfold tallocParentChunk
  rw [if_neg (hS.ne_zero hc), Faulty.bind_run (chunk_run (h.alive hc)), Faulty.bind_run hrun,
    load_run (h.alive hf), hparent]

/-- The climb through the parents ends at the nearest that passes the test. -/
theorem climb_run (h : Tree k S) (hS : S.Wf) (hc : c ∈ S.live) {n : Nat} (hn : S.live.card < n)
    (test : Nat → T Bool) {t : Nat → Bool}
    (ht : ∀ d ∈ S.live, ReflTransGen S.Over d c → test d k = .ok (t d, k)) :
    ∃ f, climb n test c k = .ok (f, k) ∧
      ((f = 0 ∧ ∀ a, ReflTransGen S.Over a c → t a = false) ∨
      (f ∈ S.live ∧ t f = true ∧ ReflTransGen S.Over f c ∧
        ∀ a, ReflTransGen S.Over a c → t a = true → ReflTransGen S.Over a f)) := by
  have hswap : Acyclic (Function.swap S.Over) := hS.acyclic.swap
  -- how many chunks are above the one that is looked at
  have hcard : ∀ d, (if d = 0 then 0 else (below (Function.swap S.Over) S.live d).card) < n :=
    fun d => by
    split
    · omega
    · exact lt_of_le_of_lt (Finset.card_le_card fun _ ha => (mem_below.1 ha).1) hn
  suffices hex : ∃ f k', climb n test c k = .ok (f, k') ∧ k' = k ∧
      ((f = 0 ∧ ∀ a, ReflTransGen S.Over a c → t a = false) ∨
        (f ∈ S.live ∧ t f = true ∧ ReflTransGen S.Over f c ∧
        ∀ a, ReflTransGen S.Over a c → t a = true → ReflTransGen S.Over a f)) by
    obtain ⟨f, k', hrun, rfl, hf⟩ := hex
    exact ⟨f, hrun, hf⟩
  -- the invariant: what passes the test above `c` is above the chunk that is looked at
  refine Faulty.exists_rounds (fun d k' => k' = k ∧ (d ≠ 0 → d ∈ S.live ∧ ReflTransGen S.Over d c) ∧
      ∀ a, ReflTransGen S.Over a c → t a = true → d ≠ 0 ∧ ReflTransGen S.Over a d)
    (fun d _ => if d = 0 then 0 else (below (Function.swap S.Over) S.live d).card) ?_
    ⟨rfl, fun _ => ⟨hc, .refl⟩, fun a ha _ => ⟨hS.ne_zero hc, ha⟩⟩ (hcard c)
  rintro d k' ⟨rfl, hd, hall⟩
  by_cases h0 : d = 0
  · refine .inr ⟨0, k', by rw [if_pos h0]; rfl, rfl, .inl ⟨rfl, fun a ha => ?_⟩⟩
    by_contra hta
    exact (hall a ha (by simpa using hta)).1 h0
  · obtain ⟨hdl, hdc⟩ := hd h0
    rw [if_neg h0, Faulty.bind_run (ht d hdl hdc)]
    by_cases htd : t d = true
    · refine .inr ⟨d, k', by rw [if_pos htd]; rfl, rfl, .inr ⟨hdl, htd, hdc, fun a ha hta => ?_⟩⟩
      exact (hall a ha hta).2
    · obtain ⟨f, hrun, hf, hparent⟩ := h.firstSibling_run hS hdl hn
      refine .inl ⟨S.up d, k', ?_, ⟨rfl, fun hup => ?_, fun a ha hta => ?_⟩, ?_⟩
      · rw [if_neg htd, Faulty.bind_run hrun, Faulty.bind_run (load_run (h.alive hf)), hparent]
        rfl
      · exact ⟨(hS.up d hdl).resolve_left hup, hdc.head ⟨hup, hdl, rfl⟩⟩
      · rcases (hall a ha hta).2.cases_tail with rfl | ⟨b, hab, hb⟩
        · exact absurd hta htd
        · obtain ⟨hb0, -, hup⟩ := hb
          subst hup
          exact ⟨hb0, hab⟩
      · rw [if_neg h0]
        split
        · exact Finset.card_pos.2 ⟨d, mem_below.2 ⟨hdl, .refl⟩⟩
        · rename_i hup
          exact hswap.below_lt hdl (show Function.swap S.Over d (S.up d) from ⟨hup, hdl, rfl⟩)

open Classical in
/-- `_talloc_is_parent` decides whether `p` is above `c`. -/
theorem isParent_run (h : Tree k S) (hS : S.Wf) (hc : c ∈ S.live) {n : Nat}
    (hn : S.live.card < n) :
    tallocIsParent n c p k = .ok (decide (ReflTransGen S.Over p c), k) := by
  obtain ⟨f, hrun, hf⟩ := h.climb_run hS hc hn (fun tc => return decide (tc = p))
    (t := fun d => decide (d = p)) fun d _ _ => rfl
  have hiff : f ≠ 0 ↔ ReflTransGen S.Over p c := by
    rcases hf with ⟨rfl, hnone⟩ | ⟨hfl, hfp, hfc, -⟩
    · refine iff_of_false (fun h => h rfl) fun hpc => ?_
      exact absurd (hnone p hpc) (by simp)
    · obtain rfl : f = p := by simpa using hfp
      exact iff_of_true (hS.ne_zero hfl) hfc
  unfold tallocIsParent
  rw [if_neg (hS.ne_zero hc), Faulty.bind_run (chunk_run (h.alive hc)), Faulty.bind_run hrun,
    Faulty.pure_run]
  simp only [hiff]

end Tree
end Talloc
end AnekVideo
