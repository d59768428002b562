/-
  AnekVideo.Talloc.Release

  What releasing a chunk takes away and what it leaves alone.

  `talloc_free` touches nothing that is not below the chunk, apart from references to what
  is.  `_talloc_reference` adds one owner, and `talloc_unlink` takes one away.  Freeing the
  null context, as `talloc_disable_null_tracking` does, need not end.
-/
import AnekVideo.Talloc.Collect

namespace AnekVideo
namespace Talloc

open Interact Linked Relation

variable {D : Outcomes} {k : Heap} {S : Shape} {c d depth m n p u x y : Nat}

/-! ## What is not below the chunk -/

/-- After `talloc_free` a chunk is as it was, unless it was below the one freed or a reference to
    such. -/
theorem Stands.free_spares (h : Stands k S) (hp : Mine k S p) (ht : S.Tame (Answers D k) p)
    (hc : Clear k S p) :
    ∃ r k' S', Faulty.Ends (fun n => free D n p) k r k' ∧ Stands k' S' ∧
      (r = 0 ↔ p ∉ S'.live) ∧
      ∀ c ∈ S.live, ¬ ReflTransGen S.Over p c →
        (∀ t, c ∈ S.refs t → ¬ ReflTransGen S.Over p t) →
        c ∈ S'.live ∧ S'.up c = S.up c ∧ k'.name c = k.name c ∧ k'.size c = k.size c ∧
          k'.destructor c = k.destructor c := by
  have hl : p ∉ S.loose := h.loose ▸ Finset.notMem_empty p
  obtain ⟨b, l, S', k', hrun, hF, hstands, hspares, -⟩ :=
    h.free_run hp ht hc (Nat.lt_succ_self _)
  obtain ⟨-, -, hframe, hgone⟩ := hF.post ⟨h.ready hp ht, hl⟩
  refine ⟨if b then 0 else -1, k', S', .of_run (fun i j hij => free_le hij) hrun, hstands, ?_,
    fun c hcl hcp hct => ?_⟩
  · rw [← hgone]
    cases b <;> decide
  · have hlive : c ∈ S'.live := by
      -- all that goes is below `p` or a reference to something there
      by_contra hdead
      rcases hframe.gone c hcl hdead with hpc | ⟨t, hct', hpt⟩
      · exact hcp hpc
      · exact hct t hct' hpt
    exact ⟨hlive, hframe.up c hcp, hspares.name c hlive, hspares.size c hlive,
      hspares.destructor c hlive⟩

/-- What the other tree holds stays when the chunk 8 goes. -/
theorem free_spares_demo :
    ∃ r k' S', Faulty.Ends (fun n => free demoOutcomes n 8) demoHeap r k' ∧ Stands k' S' ∧
    24 ∈ S'.live ∧ k'.size 24 = 20 := by
  obtain ⟨r, k', S', hrun, hstands, -, hspared⟩ :=
    demo_stands.free_spares demo_mine demo_collectable.tame demo_clear
  have hapart : ¬ ReflTransGen demoShape.Over 8 24 := fun h => absurd (demo_below h) (by decide)
  obtain ⟨hlive, -, -, hsize, -⟩ := hspared 24 (by decide) hapart fun t ht =>
    absurd (demo_refs ht).1 (by decide)
  exact ⟨r, k', S', hrun, hstands, hlive, hsize⟩

/-- No destructor lets its chunk be freed. -/
def refusing : Outcomes := fun _ _ _ => -1

/-- The chunk 16 stands next to a reference to what is below it, and 24 refuses. -/
def strayHeap : Heap :=
  [Call.alloc 8 0 4 "all", .alloc 16 8 4 "top", .alloc 24 16 4 "firm", .setDestructor 24 (.user 1),
    .alloc 32 16 4 "held", .reference 40 8 32].foldl (fun k c => c.after refusing k) .empty

-- not `Clear`: the reference is freed, and then the way from 16 to its parent goes through it
example : free refusing 9 16 strayHeap = .error (.access 40) := rfl

/-! ## Owners -/

namespace Shape

theorem refFrom_eq_none : S.refFrom x p = none ↔ x ∉ (S.refs p).map S.up := by
  unfold refFrom
  rw [List.find?_eq_none, List.mem_map]
  simp

theorem refFrom_first {L : List Nat} (hr : S.refs p = y :: L) : S.refFrom (S.up y) p = some y := by
  unfold refFrom
  rw [hr]
  exact List.find?_cons_of_pos (by simp)

theorem drop_owners (hy : y ∈ S.refs p) :
    ((S.drop y p).owners p : Multiset Nat) = (S.owners p : Multiset Nat).erase (S.up y) := by
  have hup : S.up y ∈ ((S.refs p).map S.up : Multiset Nat) := List.mem_map_of_mem hy
  have hrest : (((S.refs p).erase y).map S.up : Multiset Nat) =
      ((S.refs p).map S.up : Multiset Nat).erase (S.up y) :=
    Multiset.map_erase_of_mem S.up _ (Multiset.mem_coe.2 hy)
  unfold owners
  rw [drop_refs_self, drop_up, ← Multiset.cons_coe, ← Multiset.cons_coe, hrest,
    Multiset.erase_cons_tail_of_mem hup]

theorem drop_owners_ne (hc : c ≠ p) : (S.drop y p).owners c = S.owners c := by
  unfold owners
  rw [drop_refs_ne hc, drop_up]

theorem steal_map_up (hp : ¬ S.IsHandle p) :
    (S.refs c).map (S.steal p u).up = (S.refs c).map S.up := by
  refine List.map_congr_left fun y hy => steal_up_ne ?_
  rintro rfl
  exact hp ⟨c, hy⟩

theorem steal_owners (hp : ¬ S.IsHandle p) :
    (S.steal p u).owners p = u :: (S.refs p).map S.up := by
  unfold owners
  rw [steal_up_self, steal_refs, steal_map_up hp]

theorem steal_owners_ne (hp : ¬ S.IsHandle p) (hc : c ≠ p) :
    (S.steal p u).owners c = S.owners c := by
  unfold owners
  rw [steal_up_ne hc, steal_refs, steal_map_up hp]

/-- When the parent lets go, the chunk passes to where its newest reference hangs. -/
theorem pass_owners {L : List Nat} (hn : ¬ (S.drop y p).IsHandle p) (hr : S.refs p = y :: L) :
    ((S.drop y p).steal p (S.up y)).owners p = (S.refs p).map S.up := by
  rw [steal_owners hn, drop_refs_self, drop_up, hr, List.erase_cons_head]
  rfl

end Shape

theorem Shape.reference_map_up (hS : S.Wf) (hm : m ∉ S.live) :
    (S.refs c).map (S.reference m x p).up = (S.refs c).map S.up := by
  refine List.map_congr_left fun y hy => Shape.alloc_up_ne ?_
  rintro rfl
  exact hm (hS.refs c y hy).2.1

/-- `_talloc_reference` gives the chunk one more owner. -/
theorem Stands.reference_owns (h : Stands k S) {context : Nat} (hroom : Room k S m context)
    (hm : m ≠ 0) (hp : Mine k S p) :
    ∃ k' S', tallocReference m context p k = .ok (p, k') ∧ Stands k' S' ∧
      (S'.owners p : Multiset Nat) = k.context context ::ₘ (S.owners p : Multiset Nat) ∧
      ∀ c ∈ S.live, c ≠ p → S'.owners c = S.owners c := by
  obtain ⟨r, k', S', hrun, hstands, hcase⟩ := h.reference_run hroom hp
  rcases hcase with ⟨h0, -⟩ | ⟨-, rfl, rfl, -⟩
  · exact absurd h0 hm
  · have hfresh := hroom.fresh hm
    have hup : ∀ c ∈ S.live, (S.reference m (k.context context) r).up c = S.up c :=
      fun c hc => by
      refine Shape.alloc_up_ne ?_
      rintro rfl
      exact hfresh hc
    refine ⟨k', _, hrun, hstands, ?_, fun c hc hcr => ?_⟩
    · -- the new handle is the newest reference, and hangs off the context
      have hrefs : (S.reference m (k.context context) r).refs r = m :: S.refs r :=
        Shape.addRef_self
      have hnew : (S.reference m (k.context context) r).up m = k.context context :=
        Shape.alloc_up_self
      unfold Shape.owners
      rw [hrefs, List.map_cons, hnew, hup r hp.live, Shape.reference_map_up h.wf hfresh,
        ← Multiset.cons_coe, ← Multiset.cons_coe, Multiset.cons_swap, Multiset.cons_coe]
    · have hrefs : (S.reference m (k.context context) r).refs c = S.refs c := Shape.addRef_ne hcr
      unfold Shape.owners
      rw [hrefs, hup c hc, Shape.reference_map_up h.wf hfresh]

theorem reference_owns_demo :
    ∃ k' S', tallocReference 40 8 16 demoHeap = .ok (16, k') ∧ Stands k' S' ∧
    (S'.owners 16 : Multiset Nat) = {8, 8, 24} := by
  have hroom : Room demoHeap demoShape 40 8 := demo_stands.room rfl (.inr ⟨rfl, by decide⟩)
  have hmine : Mine demoHeap demoShape 16 := demo_stands.mine rfl (by decide) (by decide)
  obtain ⟨k', S', hrun, hstands, howners, -⟩ :=
    demo_stands.reference_owns hroom (by decide) hmine
  exact ⟨k', S', hrun, hstands, howners⟩

/-- `talloc_unlink` fails for what does not own the chunk, frees it for the only owner, and takes
    one owner away otherwise. -/
theorem Stands.unlink_releases (h : Stands k S) (hp : Mine k S p)
    (hx : k.context x = 0 ∨ k.context x ∈ S.live) (hu : Unlinkable D k S p)
    (hheld : ∀ y ∈ S.refs p, S.up y = 0 → k.nullContext = 0) :
    ∃ r k' S', Faulty.Ends (fun n => tallocUnlink D n x p) k r k' ∧ Stands k' S' ∧
      ((k.context x ∉ S.owners p ∧ r = -1 ∧ S' = S) ∨
        (S.owners p = [k.context x] ∧
          ∃ b l, S.Frees k.nullContext (Answers D k) (.free p) b l S' ∧
            r = if b then 0 else -1) ∨
        (k.context x ∈ S.owners p ∧ S.refs p ≠ [] ∧ r = 0 ∧
          (S'.owners p : Multiset Nat) = (S.owners p : Multiset Nat).erase (k.context x) ∧
          (∃ y ∈ S.refs p, S'.live = S.live.erase y) ∧ ∀ c, c ≠ p → S'.owners c = S.owners c)) := by
  obtain ⟨r, S', k', hrun, hstands, hU⟩ := h.unlink_run hp hx hu (Nat.lt_succ_self _)
  refine ⟨r, k', S', .of_run (fun i j hij => tallocUnlink_le hij) hrun, hstands, ?_⟩
  -- with no reference from nowhere, the newest is found from where it hangs
  have hplace : ∀ y ∈ S.refs p, (if S.up y = 0 then k.nullContext else S.up y) = S.up y :=
    fun y hy => by
    split
    · rename_i h0
      rw [hheld y hy h0, h0]
    · rfl
  cases hU with
  | @reference y hy =>
    have hmem := List.mem_of_find?_eq_some hy
    have hup : S.up y = k.context x := by simpa using List.find?_some hy
    refine .inr (.inr ⟨?_, List.ne_nil_of_mem hmem, rfl, hup ▸ Shape.drop_owners hmem,
      ⟨y, hmem, rfl⟩, fun c hc => Shape.drop_owners_ne hc⟩)
    exact hup ▸ List.mem_cons_of_mem _ (List.mem_map_of_mem hmem)
  | stranger hy hxp =>
    refine .inl ⟨fun hmem => ?_, rfl, rfl⟩
    rcases List.mem_cons.1 hmem with heq | hmem
    · exact hxp heq.symm
    · exact Shape.refFrom_eq_none.1 hy hmem
  | @free b l S' hr hxp hF =>
    refine .inr (.inl ⟨?_, b, l, hF, rfl⟩)
    unfold Shape.owners
    rw [hr, hxp]
    rfl
  | @pass y z L hy hxp hr hz =>
    have hyr : y ∈ S.refs p := hr ▸ List.mem_cons_self ..
    rw [hplace y hyr] at hz ⊢
    obtain rfl : y = z := Option.some.inj ((Shape.refFrom_first hr).symm.trans hz)
    have hn : ¬ (S.drop y p).IsHandle p :=
      fun ⟨c, hc⟩ => hp.handle ⟨c, ((Shape.mem_unref h.wf).1 hc).1⟩
    -- the parent goes, and the place of the newest reference takes its part
    have hown : S.owners p = k.context x :: (S.refs p).map S.up := congrArg (List.cons · _) hxp
    refine .inr (.inr ⟨hown ▸ List.mem_cons_self .., hr ▸ List.cons_ne_nil _ _, rfl, ?_,
      ⟨y, hyr, rfl⟩, fun c hc => ?_⟩)
    · rw [Shape.pass_owners hn hr, hown, ← Multiset.cons_coe, Multiset.erase_cons_head]
    · rw [Shape.steal_owners_ne hn hc, Shape.drop_owners_ne hc]
  | @astray y L hy hxp hr hz =>
    rw [hplace y (hr ▸ List.mem_cons_self ..), Shape.refFrom_first hr] at hz
    exact absurd hz (Option.some_ne_none y)

theorem demo_unlinkable : Unlinkable demoOutcomes demoHeap demoShape 16 where
  tame := demo_collectable.tame.mono (.single ⟨by decide, by decide, rfl⟩)
  clear := by
    rintro d (hd | rfl) c hc hmem
    · exact absurd hd (Finset.notMem_empty d)
    · exact absurd (demo_refs hmem).1 (by decide)
  apart := by
    rintro y hy hpath
    obtain ⟨rfl, -⟩ := demo_refs hy
    rcases hpath.cases_tail with heq | ⟨z, hz, hup⟩
    · exact absurd heq (by decide)
    · obtain rfl : 24 = z := hup.2.2
      rcases hz.cases_tail with heq | ⟨z, -, hup⟩
      · exact absurd heq (by decide)
      · exact hup.1 hup.2.2.symm

/-- Unlinked from its parent, the chunk 16 is left to the one that has a reference to it. -/
theorem unlink_releases_demo :
    ∃ k' S', Faulty.Ends (fun n => tallocUnlink demoOutcomes n 8 16) demoHeap 0 k' ∧
    Stands k' S' ∧ (S'.owners 16 : Multiset Nat) = {24} := by
  have hmine : Mine demoHeap demoShape 16 := demo_stands.mine rfl (by decide) (by decide)
  have hheld : ∀ y ∈ demoShape.refs 16, demoShape.up y = 0 → demoHeap.nullContext = 0 :=
    fun _ _ _ => rfl
  obtain ⟨r, k', S', hrun, hstands, hcase⟩ :=
    demo_stands.unlink_releases (x := 8) hmine (.inr (by decide)) demo_unlinkable hheld
  have howned : demoShape.owners 16 = [8, 24] := rfl
  rcases hcase with ⟨hno, -⟩ | ⟨hsole, -⟩ | ⟨-, -, rfl, howners, -⟩
  · exact absurd (List.mem_cons_self ..) hno
  · exact absurd (howned.symm.trans hsole) (by decide)
  · exact ⟨k', S', hrun, hstands, howners.trans (by decide)⟩

/-- A reference from nowhere is older than the null context, which owns the chunk. -/
def earlyHeap : Heap :=
  [Call.alloc 8 0 4 "x", .increaseRefCount 16 8, .enableNullTracking 24, .steal 0 8].foldl
    (fun k c => c.after refusing k) .empty

-- the null context can no longer let go of it
example : (tallocUnlink refusing 9 0 8 earlyHeap).map Prod.fst = .ok (-1) := rfl

/-! ## Undoing a reference -/

namespace Shape

theorem reference_drop_refs : ((S.reference m x p).drop m p).refs = S.refs := by
  funext c
  by_cases hc : c = p
  · subst hc
    have hfirst : (S.reference m x c).refs c = m :: S.refs c := addRef_self
    rw [drop_refs_self, hfirst, List.erase_cons_head]
  · exact (drop_refs_ne hc).trans (addRef_ne hc)

theorem alloc_kids_self (hS : S.Wf) (hm : m ∉ S.live) :
    ((S.alloc m x).kids x).erase m = S.kids x := by
  by_cases hx : x = 0
  · subst hx
    have hkids : (S.alloc m 0).kids 0 = S.kids 0 := congrFun place_kids_zero 0
    rw [hkids, List.erase_of_not_mem fun hmem => hm (hS.live_of_kid hmem).1]
  · have hkids : (S.alloc m x).kids x = m :: S.kids x := place_kids_self hx
    rw [hkids, List.erase_cons_head]

theorem takeOut_alloc_kids {T : Shape} (hS : S.Wf) (hm : m ∉ S.live) (hup : T.up m = x)
    (hkids : T.kids = (S.alloc m x).kids) : (T.takeOut m).kids = S.kids := by
  subst hup
  funext q
  by_cases hq : q = T.up m
  · subst hq
    rw [takeOut_kids_self, hkids, alloc_kids_self hS hm]
  · rw [takeOut_kids_ne hq, hkids]
    exact place_kids_ne hq

theorem reference_drop_kids (hS : S.Wf) (hm : m ∉ S.live) :
    ((S.reference m x p).drop m p).kids = S.kids :=
  takeOut_alloc_kids hS hm (show ((S.reference m x p).unref m p).up m = x from alloc_up_self) rfl

end Shape

/-- A reference that is unlinked again leaves the forest as it was. -/
theorem Stands.reference_unlink (h : Stands k S) {context : Nat} (hroom : Room k S m context)
    (hm : m ≠ 0) (hp : Mine k S p) (D : Outcomes) :
    ∃ k₁ k₂ S', tallocReference m context p k = .ok (p, k₁) ∧
      Faulty.Ends (fun n => tallocUnlink D n context p) k₁ 0 k₂ ∧ Stands k₂ S' ∧
      S'.live = S.live ∧ S'.kids = S.kids ∧ S'.refs = S.refs ∧
      ∀ c ∈ S.live, S'.up c = S.up c := by
  obtain ⟨r, k₁, S₁, hrun, hstands, hcase⟩ := h.reference_run hroom hp
  rcases hcase with ⟨h0, -⟩ | ⟨-, rfl, rfl, hnull⟩
  · exact absurd h0 hm
  · have hfresh := hroom.fresh hm
    have hcontext : k₁.context context = k.context context := by
      unfold Heap.context
      rw [hnull]
    have hup : (S.reference m (k.context context) r).up m = k.context context := Shape.alloc_up_self
    have hrefs : (S.reference m (k.context context) r).refs r = m :: S.refs r := Shape.addRef_self
    -- the search finds the new handle first
    have hfrom : (S.reference m (k.context context) r).refFrom (k₁.context context) r = some m :=
      (congrArg (Shape.refFrom _ · r) (hcontext.trans hup.symm)).trans (Shape.refFrom_first hrefs)
    have hunlink := hstands.unlink_reference_run (Finset.mem_insert_of_mem hp.live)
      (Nat.lt_succ_self _) D hfrom
    refine ⟨k₁, _, _, hrun, .of_run (fun i j hij => tallocUnlink_le hij) hunlink,
      hstands.drop (hrefs ▸ List.mem_cons_self ..),
      ?_, Shape.reference_drop_kids h.wf hfresh, Shape.reference_drop_refs, fun c hc => ?_⟩
    · exact Finset.erase_insert hfresh
    · refine (congrFun Shape.drop_up c).trans (Shape.alloc_up_ne ?_)
      rintro rfl
      exact hfresh hc

theorem reference_unlink_demo :
    ∃ k₁ k₂ S', tallocReference 40 8 24 demoHeap = .ok (24, k₁) ∧
    Faulty.Ends (fun n => tallocUnlink demoOutcomes n 8 24) k₁ 0 k₂ ∧ Stands k₂ S' ∧
    S'.kids = demoShape.kids := by
  have hroom : Room demoHeap demoShape 40 8 := demo_stands.room rfl (.inr ⟨rfl, by decide⟩)
  have hmine : Mine demoHeap demoShape 24 := demo_stands.mine rfl (by decide) (by decide)
  obtain ⟨k₁, k₂, S', hrun, hunlink, hstands, -, hkids, -⟩ :=
    demo_stands.reference_unlink hroom (by decide) hmine demoOutcomes
  exact ⟨k₁, k₂, S', hrun, hunlink, hstands, hkids⟩

/-! ## The null context -/

theorem destruct_refuses (hlive : k.live c = true) (hd : k.destructor c = .user d)
    (hD : ∀ i, D i d c = -1) :
    destruct D c k = .ok (true, { k with ran := c :: k.ran }) := by
  have hrestore : Function.update (Function.update k.destructor c .running) c (.user d) =
      k.destructor := by
    rw [Function.update_idem, ← hd, Function.update_eq_self]
  have hrun : (Destructor.user d).run D c (k.setDestructor c .running) =
      .ok (-1, { k.setDestructor c .running with ran := c :: k.ran }) :=
        congrArg (fun r => Except.ok (r, _)) (hD _)
  have hlive' : ({ k.setDestructor c .running with ran := c :: k.ran } : Heap).live c = true :=
    hlive
  unfold destruct
  rw [Faulty.bind_run (load_run hlive), hd]
  simp only
  rw [Faulty.bind_run (store_run hlive), Faulty.bind_run hrun, if_pos rfl]
  refine (Faulty.bind_run (store_run hlive')).trans ?_
  simp only [Heap.setDestructor, hrestore]
  rfl

/-- `_talloc_free` of a chunk without references that refuses. -/
theorem free_refuses (hlive : k.live c = true) (h0 : c ≠ 0) (hrefs : k.refs c = 0)
    (hloop : k.loop c = false) (hd : k.destructor c = .user d) (hD : ∀ i, D i d c = -1) :
    tallocFree D n (depth + 1) c k = .ok (-1, { k with ran := c :: k.ran }) := by
  rw [tallocFree, if_neg h0, Faulty.bind_run (chunk_run hlive),
    Faulty.bind_run (load_run hlive), hrefs,
    if_neg (not_not.2 rfl), Faulty.bind_run (load_run hlive), hloop, if_neg Bool.false_ne_true,
    Faulty.bind_run (destruct_refuses hlive hd hD)]
  rfl

/-- The null context loses its children, and the first of them refuses. -/
structure Clings (D : Outcomes) (k : Heap) (c : Nat) : Prop where
  null : k.nullContext ≠ 0 ∧ k.live k.nullContext = true
  root : k.parent k.nullContext = 0 ∧ k.prev .chunk k.nullContext = 0
  child : k.child k.nullContext = c ∧ k.parent c = k.nullContext
  live : c ≠ 0 ∧ k.live c = true
  refs : k.refs c = 0
  loop : k.loop c = false
  stubborn : ∃ d, k.destructor c = .user d ∧ ∀ i, D i d c = -1

theorem Clings.parentChunk_run (h : Clings D k c) :
    tallocParentChunk (n + 1) k.nullContext k = .ok (0, k) := by
  have hfirst : firstSibling (n + 1) k.nullContext k = .ok (k.nullContext, k) := by
    refine Faulty.rounds_done ?_
    rw [Faulty.bind_run (load_run h.null.2), h.root.2]
    rfl
  unfold tallocParentChunk
  rw [if_neg h.null.1, Faulty.bind_run (chunk_run h.null.2), Faulty.bind_run hfirst,
    load_run h.null.2, h.root.1]

/-- It is stolen to where it is. -/
theorem Clings.steal_run (h : Clings D k c) : tallocSteal k.nullContext c k = .ok (c, k) := by
  unfold tallocSteal
  rw [if_neg h.live.1, Faulty.bind_run nullContext_run]
  simp only [if_neg h.null.1]
  rw [Faulty.bind_run (chunk_run h.live.2), Faulty.bind_run (chunk_run h.null.2),
    Faulty.bind_run (load_run h.live.2), if_pos (Or.inr h.child.2)]
  rfl

theorem Clings.round (h : Clings D k c) :
    freeChild (tallocFree D (n + 1) (depth + 1)) (n + 1) k.nullContext k =
      .ok (.inl (), { k with ran := c :: k.ran }) := by
  obtain ⟨d, hd, hD⟩ := h.stubborn
  have hfree : tallocFree D (n + 1) (depth + 1) c k = .ok (-1, { k with ran := c :: k.ran }) :=
    free_refuses h.live.2 h.live.1 h.refs h.loop hd hD
  have hreferrer : referrer (n + 1) c k = .ok (k.nullContext, k) := by
    unfold referrer
    rw [Faulty.bind_run nullContext_run, Faulty.bind_run (load_run h.live.2), h.refs]
    rfl
  have h' : Clings D { k with ran := c :: k.ran } c :=
    ⟨h.null, h.root, h.child, h.live, h.refs, h.loop, h.stubborn⟩
  unfold freeChild
  rw [Faulty.bind_run (load_run h.null.2), h.child.1, if_neg h.live.1, Faulty.bind_run hreferrer,
    Faulty.bind_run hfree, if_pos rfl, Faulty.bind_run nullContext_run, if_pos rfl]
  refine (Faulty.bind_run h'.parentChunk_run).trans ?_
  exact Faulty.bind_run h'.steal_run

theorem Clings.rounds_run (h : Clings D k c) :
    Faulty.rounds .stuck (fun _ => freeChild (tallocFree D (n + 1) n) (n + 1) k.nullContext)
      (m + 1) () k = .error .stuck := by
  generalize hp : k.nullContext = p
  -- each round leaves the first child where it is, so no bound is enough
  refine Faulty.rounds_stuck (fun _ k' => k'.nullContext = p ∧ Clings D k' c) ?_ ⟨hp, h⟩
  rintro - k' ⟨rfl, h'⟩
  cases n with
  | zero =>
    refine .inl ?_
    have hreferrer : referrer 1 c k' = .ok (k'.nullContext, k') := by
      unfold referrer
      rw [Faulty.bind_run nullContext_run, Faulty.bind_run (load_run h'.live.2), h'.refs]
      rfl
    unfold freeChild
    rw [Faulty.bind_run (load_run h'.null.2), h'.child.1, if_neg h'.live.1,
      Faulty.bind_run hreferrer]
    exact Faulty.bind_error rfl
  | succ n =>
    refine .inr ⟨(), _, h'.round, rfl, ?_⟩
    exact ⟨h'.null, h'.root, h'.child, h'.live, h'.refs, h'.loop, h'.stubborn⟩

/-- `talloc_disable_null_tracking` does not end while the newest chunk without a parent refuses. -/
theorem Stands.disable_stuck {L : List Nat} (h : Stands k S) (h0 : k.nullContext ≠ 0)
    (hnone : k.destructor k.nullContext = .none) (hk : S.kids k.nullContext = c :: L)
    (hr : S.refs c = []) (hd : k.destructor c = .user d) (hD : ∀ i, D i d c = -1) (n : Nat) :
    tallocDisableNullTracking D n k = .error .stuck := by
  have hc : c ∈ S.kids k.nullContext := hk ▸ List.mem_cons_self ..
  obtain ⟨hcl, hnl⟩ := h.wf.live_of_kid hc
  have hlo : ∀ a, a ∉ S.loose := fun a => h.loose ▸ Finset.notMem_empty a
  obtain ⟨-, -, hup, -, hrefs⟩ := h.rep.null.resolve_left h0
  have hlive := h.rep.tree.alive hnl
  obtain ⟨hnext, hprev⟩ := h.rep.tree.root _ hnl (hlo _) hup
  have hparent : k.parent k.nullContext = 0 := by
    rw [h.rep.tree.parent _ hnl (hlo _), if_pos hprev, hup]
  have hloop : ∀ a ∈ S.live, k.loop a = false := fun a ha => by
    rw [← Bool.not_eq_true, h.rep.loop a ha]
    exact hlo a
  have hchain := h.rep.tree.kids _ hnl
  rw [hk] at hchain
  obtain ⟨hchild, -, hcprev, -⟩ := hchain
  have hcn : c ≠ k.nullContext := fun heq => h.wf.up_ne hcl ((h.wf.up_of_kid hc).trans heq.symm)
  have hcparent : k.parent c = k.nullContext := by
    rw [h.rep.tree.parent c hcl (hlo c), if_pos hcprev, h.wf.up_of_kid hc]
  unfold tallocDisableNullTracking
  rw [Faulty.bind_run nullContext_run]
  refine Faulty.bind_error ?_
  unfold free
  cases n with
  | zero => rfl
  | succ n =>
    have hdestruct : destruct D k.nullContext k = .ok (false, k) := by
      unfold destruct
      rw [Faulty.bind_run (load_run hlive), hnone]
      rfl
    have hunlink : unlink k.nullContext k = .ok ((), k) := by
      unfold unlink
      rw [Faulty.bind_run (load_run hlive), hparent, if_neg (not_not.2 rfl)]
      unfold bypass
      rw [Faulty.bind_run (load_run hlive), Faulty.bind_run (load_run hlive), hprev, hnext]
      rfl
    rw [tallocFree, if_neg h0, Faulty.bind_run (chunk_run hlive), Faulty.bind_run (load_run hlive),
      (h.rep.refs.refs_eq_zero hnl).2 hrefs, if_neg (not_not.2 rfl),
      Faulty.bind_run (load_run hlive), hloop _ hnl,
      if_neg Bool.false_ne_true, Faulty.bind_run hdestruct, if_neg Bool.false_ne_true,
      Faulty.bind_run hunlink, Faulty.bind_run (store_run hlive)]
    have hclings : Clings D (k.setLoop k.nullContext true) c :=
      ⟨⟨h0, hlive⟩, ⟨hparent, hprev⟩, ⟨hchild, hcparent⟩,
        ⟨h.wf.ne_zero hcl, h.rep.tree.alive hcl⟩,
        (h.rep.refs.refs_eq_zero hcl).2 hr, (Function.update_of_ne hcn ..).trans (hloop c hcl),
          d, hd, hD⟩
    exact Faulty.bind_error hclings.rounds_run

def clingingHeap : Heap :=
  [Call.enableNullTracking 8, .alloc 16 0 12 "text", .setDestructor 16 (.user 1)].foldl
    (fun k c => c.after refusing k) .empty

theorem disable_stuck_demo :
    ¬ ∃ n r, tallocDisableNullTracking refusing n clingingHeap = .ok r := by
  rintro ⟨n, r, hr⟩
  obtain ⟨S₁, h₁, rfl⟩ :=
    Stands.empty.after (D := refusing) (by decide) (.enableNullTracking 8)
    fun _ => Finset.notMem_empty 8
  obtain ⟨S₂, h₂, rfl⟩ := h₁.after (D := refusing) (by decide) (.alloc 16 0 12 "text")
    (h₁.room rfl (.inr ⟨rfl, by decide⟩))
  obtain ⟨S₃, h₃, rfl⟩ :=
    h₂.after (D := refusing) (by decide) (.setDestructor 16 (.user 1))
    ⟨h₂.mine rfl (by decide) (by decide), .inr ⟨1, rfl⟩⟩
  have hstuck : tallocDisableNullTracking refusing n clingingHeap = .error .stuck :=
    h₃.disable_stuck (c := 16) (d := 1) (by decide) rfl rfl rfl rfl (fun _ => rfl) n
  cases hstuck.symm.trans hr

end Talloc
end AnekVideo
