/-
  AnekVideo.Talloc.Alloc

  New chunks, and references to chunks.
-/
import AnekVideo.Talloc.Rep

namespace AnekVideo
namespace Talloc

open Interact Linked Relation

variable {k k' : Heap} {S S' : Shape} {c d h p x null size : Nat}

namespace Shape

/-- A new chunk `c`, the first child of `x`, or without a parent for `x = 0`. -/
def alloc (S : Shape) (c x : Nat) : Shape := (S.born c 0).place c x

theorem alloc_loose (hc : c ∉ S.loose) : (S.alloc c x).loose = S.loose := Finset.erase_insert hc

theorem alloc_up_self : (S.alloc c x).up c = x := place_up_self

theorem alloc_up_ne (hd : d ≠ c) : (S.alloc c x).up d = S.up d :=
  (place_up_ne hd).trans (born_up_ne hd)

theorem not_born_below (hS : S.Wf) (hc : c ∉ S.live) (hx : x ∈ S.live) :
    ¬ ReflTransGen (S.born c 0).Over c x := by
  intro hcx
  rcases hcx.cases_head with rfl | ⟨d, hd, -⟩
  · exact hc hx
  · obtain ⟨h0, hdl, hup⟩ := hd
    by_cases hdc : d = c
    · subst hdc
      exact h0 (hup.symm.trans born_up_self)
    · have hdl' : d ∈ S.live := Finset.mem_of_mem_insert_of_ne hdl hdc
      rw [born_up_ne hdc] at hup
      exact hc (hup ▸ (hS.up d hdl').resolve_left (hup.symm ▸ h0))

theorem Wf.alloc (hS : S.Wf) (hc : c ∉ S.live) (h0 : c ≠ 0) (hx : x = 0 ∨ x ∈ S.live)
    (hn : ¬ S.IsHandle x) :
    (S.alloc c x).Wf :=
  (hS.born hc h0).place (Finset.mem_insert_self ..) (hx.imp id Finset.mem_insert_of_mem)
    (fun hx0 => not_born_below hS hc (hx.resolve_left hx0)) hn

theorem NullOk.alloc (hS : S.Wf) (hnull : S.NullOk null) (hc : c ∉ S.live) :
    (S.alloc c x).NullOk null := by
  refine hnull.imp id fun ⟨hlive, hloose, hup, hrest⟩ =>
    ⟨Finset.mem_insert_of_mem hlive, ?_, ?_, hrest⟩
  · rw [alloc_loose fun hmem => hc (hS.loose hmem)]
    exact hloose
  · rw [alloc_up_ne fun heq : null = c => hc (heq ▸ hlive)]
    exact hup

end Shape

/-! ## `init_talloc` -/

/-- The fields of a new chunk, all but its links. -/
def Heap.fresh (k : Heap) (c size : Nat) : Heap :=
  (((((k.setSize c size).setLoop c false).setDestructor c .none).setChild c 0).setName c
    .null).setRefs c 0

/-- After `init_talloc`. -/
def Heap.init (k : Heap) (c x size : Nat) : Heap :=
  if x = 0 then (k.fresh c size).alone c else (k.fresh c size).hang c x

theorem initTalloc_run (hc : k.live c = true) (h0 : c ≠ 0) (hx : x ≠ 0 → k.live x = true)
    (hcx : x ≠ c)
    (hchild : x ≠ 0 → k.child x ≠ 0 → k.live (k.child x) = true ∧ k.child x ≠ c) :
    initTalloc x c size k = .ok (c, k.init c x size) := by
  have hfresh : (k.fresh c size).live c = true := hc
  have hkids : (k.fresh c size).child x = k.child x := Function.update_of_ne hcx ..
  unfold initTalloc
  rw [if_neg h0, Faulty.bind_run (store_run hc)]
  refine (Faulty.bind_run (store_run ?_)).trans ((Faulty.bind_run (store_run ?_)).trans
    ((Faulty.bind_run (store_run ?_)).trans ((Faulty.bind_run (store_run ?_)).trans
      ((Faulty.bind_run (store_run ?_)).trans ?_))))
  any_goals exact hc
  change (if x ≠ 0 then _ else _ : T Nat) (k.fresh c size) = _
  by_cases hx0 : x = 0
  · rw [if_neg (not_not.2 hx0), Faulty.bind_run (store_run hfresh), Heap.init, if_pos hx0]
    refine (Faulty.bind_run (store_run ?_)).trans ((Faulty.bind_run (store_run ?_)).trans rfl)
    all_goals exact hfresh
  · have hxlive : (k.fresh c size).live x = true := hx hx0
    rw [if_pos hx0, Faulty.bind_run (load_run hxlive), hkids, Heap.init, if_neg hx0]
    refine (Faulty.bind_run (storeParent_run ?_)).trans ?_
    · exact fun hne => (hchild hx0 hne).1
    refine (Faulty.bind_run (store_run ?_)).trans ?_
    · exact hfresh
    refine (Faulty.bind_run (storePrev_run ?_)).trans ?_
    · exact fun hne => (hchild hx0 hne).1
    refine (Faulty.bind_run (store_run ?_)).trans ((Faulty.bind_run (store_run ?_)).trans
      ((Faulty.bind_run (store_run ?_)).trans ?_))
    · exact hfresh
    · exact hfresh
    · exact hxlive
    have hheap : ∀ K : Heap, K = (k.fresh c size).hang c x →
        (Except.ok (c, K) : Except Fault (Nat × Heap)) = .ok (c, (k.fresh c size).hang c x) := by
      rintro _ rfl
      rfl
    refine hheap _ (Heap.ext rfl ?_ ?_ ?_ rfl rfl rfl rfl rfl rfl rfl rfl rfl)
    · funext l a
      simp only [Heap.setNext, Heap.setChild, Heap.setPrev, Heap.setParent, Heap.hang,
        Heap.add, hkids]
    · funext l a
      simp only [Heap.setNext, Heap.setChild, Heap.setPrev, Heap.setParent, Heap.hang,
        Heap.add, hkids]
    · funext a
      change Function.update
          (fun a => if a ≠ 0 ∧ a = k.child x then 0 else (k.fresh c size).parent a) c x a =
        if a = c then x
        else if a ≠ 0 ∧ a = (k.fresh c size).child x then 0 else (k.fresh c size).parent a
      rw [Function.update_apply, hkids]

/-- The links a chunk had before it is hung up do not matter. -/
theorem Heap.alone_hang : (k.alone c).hang c x = k.hang c x := by
  refine Heap.ext rfl ?_ ?_ ?_ rfl rfl rfl rfl rfl rfl rfl rfl rfl
  · funext l a
    by_cases ha : l = .chunk ∧ a = c <;>
      simp [Heap.hang, Heap.add, Heap.alone, Heap.clear, Heap.setParent, ha]
  · funext l a
    by_cases ha : l = .chunk ∧ a = c <;>
      simp [Heap.hang, Heap.add, Heap.alone, Heap.clear, Heap.setParent, ha]
  · funext a
    by_cases ha : a = c <;> simp [Heap.hang, Heap.add, Heap.alone, Heap.clear, Heap.setParent, ha]

theorem Heap.alone_alone : (k.alone c).alone c = k.alone c := by
  refine Heap.ext rfl ?_ ?_ (Function.update_idem ..) rfl rfl rfl rfl rfl rfl rfl rfl rfl
  · funext l a
    by_cases ha : l = .chunk ∧ a = c <;> simp [Heap.alone, Heap.clear, Heap.setParent, ha]
  · funext l a
    by_cases ha : l = .chunk ∧ a = c <;> simp [Heap.alone, Heap.clear, Heap.setParent, ha]

theorem Tree.init (h : Tree k S) (hS : S.Wf) (hc : c ∉ S.live) (h0 : c ≠ 0)
    (hx : x = 0 ∨ x ∈ S.live) :
    Tree ((k.setLive c true).init c x size) (S.alloc c x) := by
  have hborn : Tree (((k.setLive c true).fresh c size).alone c) (S.born c 0) :=
    (h.born hS hc).congr rfl rfl rfl rfl rfl
  have hS' := hS.born hc h0
  unfold Heap.init
  split
  · rename_i hx0
    subst hx0
    exact Heap.alone_alone ▸ hborn.alone hS' (Finset.mem_insert_self ..)
  · rename_i hx0
    have hcx : c ≠ x := by
      rintro rfl
      exact hc (hx.resolve_left hx0)
    exact Heap.alone_hang ▸ hborn.hang hS' (Finset.mem_insert_self ..)
      (Finset.mem_insert_of_mem (hx.resolve_left hx0)) hcx

theorem Retreed.init : Retreed (k.fresh c size) (k.init c x size) := by
  unfold Heap.init
  split
  · exact .alone
  · exact .hang

theorem Rep.init (h : Rep k S) (hS : S.Wf) (hc : c ∉ S.live) (h0 : c ≠ 0)
    (hx : x = 0 ∨ x ∈ S.live) (size : Nat) :
    Rep ((k.setLive c true).init c x size) (S.alloc c x) := by
  have hk : Retreed ((k.setLive c true).fresh c size) ((k.setLive c true).init c x size) := .init
  have hnot : ¬ S.IsHandle c := fun ⟨d, hd⟩ => hc (hS.refs d c hd).2.1
  have hcl : c ∉ S.loose := fun hmem => hc (hS.loose hmem)
  refine ⟨h.tree.init hS hc h0 hx, ⟨fun d hd => ?_, fun d y hy => ?_⟩, fun d hd => ?_,
    fun d hd => ?_, fun d hd => ?_, fun d hd => ?_, ?_⟩
  · rw [hk.next, hk.prev, hk.refs]
    change Chain (k.next .handle) (k.prev .handle) 0 0 (Function.update k.refs c 0 d) (S.refs d)
    by_cases hdc : d = c
    · subst hdc
      rw [Function.update_self, hS.refs_of_dead hc]
      rfl
    · rw [Function.update_of_ne hdc]
      exact h.refs.chain d (Finset.mem_of_mem_insert_of_ne hd hdc)
  · rw [hk.ptr]
    exact h.refs.ptr d y hy
  · rw [hk.destructor]
    change Function.update k.destructor c .none d = _ ↔ S.IsHandle d
    by_cases hdc : d = c
    · subst hdc
      rw [Function.update_self]
      exact iff_of_false Destructor.noConfusion hnot
    · rw [Function.update_of_ne hdc]
      exact h.handle d (Finset.mem_of_mem_insert_of_ne hd hdc)
  · rw [hk.name]
    change Function.update k.name c .null d = _ ↔ S.IsHandle d
    by_cases hdc : d = c
    · subst hdc
      rw [Function.update_self]
      exact iff_of_false Name.noConfusion hnot
    · rw [Function.update_of_ne hdc]
      exact h.named d (Finset.mem_of_mem_insert_of_ne hd hdc)
  · rw [hk.destructor]
    change Function.update k.destructor c .none d ≠ _
    by_cases hdc : d = c
    · subst hdc
      rw [Function.update_self]
      exact Destructor.noConfusion
    · rw [Function.update_of_ne hdc]
      exact h.idle d (Finset.mem_of_mem_insert_of_ne hd hdc)
  · rw [hk.loop, Shape.alloc_loose hcl]
    change Function.update k.loop c false d = true ↔ d ∈ S.loose
    by_cases hdc : d = c
    · subst hdc
      rw [Function.update_self]
      exact iff_of_false Bool.false_ne_true hcl
    · rw [Function.update_of_ne hdc]
      exact h.loop d (Finset.mem_of_mem_insert_of_ne hd hdc)
  · rw [hk.nullContext]
    exact h.null.alloc hS hc

/-! ## `__talloc` -/

/-- What a call that allocates under `context` relies on. -/
structure Room (k : Heap) (S : Shape) (mem context : Nat) : Prop where
  fresh : mem ≠ 0 → mem ∉ S.live
  under : k.context context = 0 ∨ k.context context ∈ S.live
  owner : ¬ S.IsHandle (k.context context)

theorem Rep.talloc_run (h : Rep k S) (hS : S.Wf) {mem context : Nat}
    (hroom : Room k S mem context) (size : Nat) :
    talloc mem context size k = .ok (if maxTallocSize ≤ size ∨ mem = 0 then (0, k)
      else (mem, (k.setLive mem true).init mem (k.context context) size)) := by
  have hcontext : (if context = 0 then k.nullContext else context) = k.context context := rfl
  unfold talloc
  rw [Faulty.bind_run nullContext_run]
  simp only [hcontext]
  by_cases hsize : maxTallocSize ≤ size
  · rw [if_pos hsize, if_pos (Or.inl hsize)]
    rfl
  rw [if_neg hsize]
  have hchunk : k.context context ≠ 0 →
      tallocChunkFromPtr (k.context context) k = .ok ((), k) := fun hx0 =>
    chunk_run (h.tree.alive (hroom.under.resolve_left hx0))
  by_cases h0 : mem = 0
  · subst h0
    have hmalloc : malloc 0 k = .ok (0, k) := rfl
    rw [if_pos (Or.inr rfl)]
    by_cases hx0 : k.context context = 0
    · rw [if_neg (not_not.2 hx0), Faulty.bind_run hmalloc]
      rfl
    · rw [if_pos hx0, Faulty.bind_run (hchunk hx0), Faulty.bind_run hmalloc]
      rfl
  · have hmem := hroom.fresh h0
    have hmalloc : malloc mem k = .ok (mem, k.setLive mem true) := by
      unfold malloc
      rw [if_neg h0]
    have hlive : (k.setLive mem true).live mem = true := Function.update_self ..
    have halive : ∀ a ∈ S.live, (k.setLive mem true).live a = true := fun a ha => by
      change Function.update k.live mem true a = true
      rw [Function.update_apply, h.tree.alive ha, ite_self]
    rw [if_neg (not_or.2 ⟨hsize, h0⟩)]
    by_cases hx0 : k.context context = 0
    · rw [if_neg (not_not.2 hx0), Faulty.bind_run hmalloc, hx0]
      exact initTalloc_run hlive h0 (fun hne => absurd rfl hne) (Ne.symm h0)
        fun hne => absurd rfl hne
    · have hxl := hroom.under.resolve_left hx0
      rw [if_pos hx0, Faulty.bind_run (hchunk hx0), Faulty.bind_run hmalloc]
      refine initTalloc_run hlive h0 (fun _ => halive _ hxl) (fun heq => hmem (heq ▸ hxl))
        fun _ hne => ?_
      have hkid := (hS.live_of_kid (h.tree.child_kid hxl hne)).1
      exact ⟨halive _ hkid, fun heq => hmem (heq ▸ hkid)⟩

/-- Whether there is memory for a chunk of `size` bytes. -/
def Granted (mem size : Nat) : Prop := size < maxTallocSize ∧ mem ≠ 0

instance (mem size : Nat) : Decidable (Granted mem size) := inferInstanceAs (Decidable (_ ∧ _))

theorem Rep.setName (h : Rep k S) (hn : ¬ S.IsHandle c) {s : String} :
    Rep (k.setName c (.str s)) S where
  tree := h.tree.congr rfl rfl rfl rfl rfl
  refs := h.refs.congr rfl rfl rfl rfl subset_rfl rfl
  handle := h.handle
  named := fun d hd => by
    change Function.update k.name c (.str s) d = _ ↔ _
    by_cases hdc : d = c
    · subst hdc
      rw [Function.update_self]
      exact iff_of_false Name.noConfusion hn
    · rw [Function.update_of_ne hdc]
      exact h.named d hd
  idle := h.idle
  loop := h.loop
  null := h.null

/-- `_talloc_named_const`, of a chunk that is to be no handle. -/
theorem Rep.namedConst_run (h : Rep k S) (hS : S.Wf) {mem context : Nat}
    (hroom : Room k S mem context) (size : Nat) (s : String) :
    if Granted mem size then ∃ k', tallocNamedConst mem context size (.str s) k =
      .ok (mem, k') ∧
        Rep k' (S.alloc mem (k.context context)) ∧
        k'.destructor = Function.update k.destructor mem .none ∧ k'.nullContext = k.nullContext
      else tallocNamedConst mem context size (.str s) k = .ok (0, k) := by
  have hrun := h.talloc_run hS hroom size
  unfold tallocNamedConst
  split
  · rename_i hg
    obtain ⟨hsize, h0⟩ := hg
    rw [if_neg (not_or.2 ⟨not_le.2 hsize, h0⟩)] at hrun
    have hmem := hroom.fresh h0
    have hrep := h.init hS hmem h0 hroom.under size
    rw [Faulty.bind_run hrun, if_neg h0,
      Faulty.bind_run (store_run (hrep.tree.alive (Finset.mem_insert_self ..)))]
    have hn : ¬ (S.alloc mem (k.context context)).IsHandle mem := fun ⟨d, hd⟩ =>
      hmem (hS.refs d mem hd).2.1
    have hinit : Retreed ((k.setLive mem true).fresh mem size)
        ((k.setLive mem true).init mem (k.context context) size) := .init
    exact ⟨_, rfl, hrep.setName hn, hinit.destructor, hinit.nullContext⟩
  · rename_i hg
    rw [if_pos ((not_and_or.1 hg).imp not_lt.1 not_not.1)] at hrun
    rw [Faulty.bind_run hrun]
    rfl

/-! ## `_talloc_reference` -/

namespace Shape

/-- A new handle `h` under `x` that refers to `c`. -/
def reference (S : Shape) (h x c : Nat) : Shape := (S.alloc h x).addRef h c

theorem Wf.reference (hS : S.Wf) (hc : c ∈ S.live) (hcn : ¬ S.IsHandle c) (hh : h ∉ S.live)
    (h0 : h ≠ 0) (hx : x = 0 ∨ x ∈ S.live) (hn : ¬ S.IsHandle x) :
    (S.reference h x c).Wf := by
  have hhl : h ∉ S.loose := fun hmem => hh (hS.loose hmem)
  refine (hS.alloc hh h0 hx hn).addRef (Finset.mem_insert_of_mem hc) hcn
    (Finset.mem_insert_self ..) ?_
    (fun heq => hh (heq ▸ hc)) (fun ⟨d, hd⟩ => hh (hS.refs d h hd).2.1) (hS.refs_of_dead hh)
      fun d hd => ?_
  · rw [alloc_loose hhl]
    exact hhl
  · by_cases hdh : d = h
    · subst hdh
      rw [alloc_up_self]
      rintro rfl
      exact hh (hx.resolve_left h0)
    · rw [alloc_up_ne hdh]
      have hdl := Finset.mem_of_mem_insert_of_ne hd hdh
      intro hup
      exact hh (hup ▸ (hS.up d hdl).resolve_left (hup.symm ▸ h0))

end Shape

/-- After the fields of a new handle `h` for `c` are set and it is put into the list. -/
def Heap.refer (k : Heap) (h c : Nat) : Heap :=
  (((k.setName h .reference).setDestructor h .tallocReferenceDestructor).setPtr h c).addRef h c

theorem Refs.addRef (h : Refs k S) (hS : S.Wf) {y : Nat} (hc : c ∈ S.live) (hyl : y ∈ S.live)
    (hy : ¬ S.IsHandle y) (hptr : k.ptr y = c) : Refs (k.addRef y c) (S.addRef y c) where
  chain := fun d hd => by
    have hch := h.chain c hc
    have hnext : ∀ a, a ≠ y → (k.addRef y c).next .handle a = k.next .handle a :=
      fun a ha => by
      simp [Heap.addRef, Heap.add, ha]
    have hprev : ∀ a, a ≠ y → (k.addRef y c).prev .handle a =
        if a ≠ 0 ∧ a = k.refs c then y else k.prev .handle a := fun a ha => by
      simp [Heap.addRef, Heap.add, ha]
    change Chain _ _ 0 0 (Function.update k.refs c y d) _
    by_cases hdc : d = c
    · subst hdc
      rw [Function.update_self, Shape.addRef_self]
      refine hch.cons (hS.refs_nodup d) (hS.ne_zero hyl) (by simp [Heap.addRef, Heap.add])
        (by simp [Heap.addRef, Heap.add]) (fun a ha => hnext a fun heq => hy (heq ▸ ⟨d, ha⟩))
          fun a ha => ?_
      have ha0 := hS.ne_zero (hS.refs d a ha).2.1
      rw [hprev a fun heq => hy (heq ▸ ⟨d, ha⟩)]
      exact if_congr (and_iff_right ha0) rfl rfl
    · rw [Function.update_of_ne hdc, Shape.addRef_ne hdc]
      refine (h.chain d hd).congr (fun a ha => hnext a fun heq => hy (heq ▸ ⟨d, ha⟩))
        fun a ha => ?_
      rw [hprev a fun heq => hy (heq ▸ ⟨d, ha⟩), if_neg]
      -- the first reference to `c` does not refer to `d`
      rintro ⟨h0, heq⟩
      cases hr : S.refs c with
      | nil => exact h0 (heq.trans ((h.refs_eq_zero hc).2 hr))
      | cons b L =>
        have hb : b ∈ S.refs c := hr ▸ List.mem_cons_self ..
        rw [h.refs_eq hc hr] at heq
        exact hdc (hS.target d c a ha (heq ▸ hb))
  ptr := fun d a ha => by
    rcases Shape.mem_addRef.1 ha with ⟨rfl, rfl⟩ | ha
    · exact hptr
    · exact h.ptr d a ha

theorem Rep.refer (h : Rep k S) (hS : S.Wf) {y : Nat} (hc : c ∈ S.live)
    (hcnull : c ≠ k.nullContext) (hyl : y ∈ S.live) (hyo : y ∉ S.loose)
    (hy : ¬ S.IsHandle y) (hynull : y ≠ k.nullContext) :
    Rep (k.refer y c) (S.addRef y c) := by
  have hhandle : ∀ d, (S.addRef y c).IsHandle d ↔ d = y ∨ S.IsHandle d := fun d => by
    constructor
    · rintro ⟨e, he⟩
      exact (Shape.mem_addRef.1 he).imp And.right fun he => ⟨e, he⟩
    · rintro (rfl | ⟨e, he⟩)
      · exact ⟨c, Shape.mem_addRef.2 (.inl ⟨rfl, rfl⟩)⟩
      · exact ⟨e, Shape.mem_addRef.2 (.inr he)⟩
  have hrefs :
      Refs (((k.setName y .reference).setDestructor y .tallocReferenceDestructor).setPtr y c)
      S := by
    refine ⟨h.refs.chain, fun d a ha => ?_⟩
    have hay : a ≠ y := fun heq => hy (heq ▸ ⟨d, ha⟩)
    exact (Function.update_of_ne hay ..).trans (h.refs.ptr d a ha)
  have htree : Tree (k.refer y c) S := h.tree.congr rfl
    (funext fun a => by
      simp [Heap.refer, Heap.addRef, Heap.add, Heap.setPtr, Heap.setDestructor, Heap.setName])
    (funext fun a => by
      simp [Heap.refer, Heap.addRef, Heap.add, Heap.setPtr, Heap.setDestructor, Heap.setName])
    rfl rfl
  refine ⟨⟨htree.live, htree.kids, htree.parent, htree.root, htree.trail⟩,
    hrefs.addRef hS hc hyl hy (Function.update_self ..), fun d hd => ?_, fun d hd => ?_,
      fun d hd => ?_, h.loop, ?_⟩
  · change Function.update k.destructor y .tallocReferenceDestructor d = _ ↔ _
    rw [hhandle]
    by_cases hdy : d = y
    · subst hdy
      rw [Function.update_self]
      exact iff_of_true rfl (.inl rfl)
    · rw [Function.update_of_ne hdy, or_iff_right hdy]
      exact h.handle d hd
  · change Function.update k.name y .reference d = _ ↔ _
    rw [hhandle]
    by_cases hdy : d = y
    · subst hdy
      rw [Function.update_self]
      exact iff_of_true rfl (.inl rfl)
    · rw [Function.update_of_ne hdy, or_iff_right hdy]
      exact h.named d hd
  · change Function.update k.destructor y .tallocReferenceDestructor d ≠ _
    by_cases hdy : d = y
    · subst hdy
      rw [Function.update_self]
      exact Destructor.noConfusion
    · rw [Function.update_of_ne hdy]
      exact h.idle d hd
  · rcases h.null with h0 | ⟨hlive, hloose, hup, hn, hr⟩
    · exact .inl h0
    · refine .inr ⟨hlive, hloose, hup, fun hh => ?_, (Shape.addRef_ne hcnull.symm).trans hr⟩
      exact ((hhandle _).1 hh).elim (fun heq => hynull heq.symm) hn

/-- `_talloc_reference`. -/
theorem Rep.reference_run (h : Rep k S) (hS : S.Wf) {mem context : Nat}
    (hroom : Room k S mem context) (hc : c ∈ S.live) (hcnull : c ≠ k.nullContext) :
    if mem = 0 then tallocReference mem context c k = .ok (0, k)
    else ∃ k', tallocReference mem context c k = .ok (c, k') ∧
      Rep k' (S.reference mem (k.context context) c) ∧ k'.nullContext = k.nullContext := by
  have hlive := h.tree.alive hc
  have hrun := h.talloc_run hS hroom sizeofHandle
  have hsize : ¬ maxTallocSize ≤ sizeofHandle := by decide
  unfold tallocReference
  rw [if_neg (hS.ne_zero hc), Faulty.bind_run (chunk_run hlive)]
  split
  · rename_i h0
    rw [if_pos (Or.inr h0)] at hrun
    have hnamed : tallocNamedConst mem context sizeofHandle .reference k = .ok (0, k) := by
      unfold tallocNamedConst
      rw [Faulty.bind_run hrun]
      rfl
    rw [Faulty.bind_run hnamed]
    rfl
  · rename_i h0
    have hmem := hroom.fresh h0
    have hmo : mem ∉ S.loose := fun hmem' => hmem (hS.loose hmem')
    rw [if_neg (not_or.2 ⟨hsize, h0⟩)] at hrun
    have hrep := h.init hS hmem h0 hroom.under sizeofHandle
    have hS' := hS.alloc hmem h0 hroom.under hroom.owner
    have hk : Retreed ((k.setLive mem true).fresh mem sizeofHandle)
        ((k.setLive mem true).init mem (k.context context) sizeofHandle) := .init
    generalize (k.setLive mem true).init mem (k.context context) sizeofHandle = k₁ at hrun hrep hk
    have hnull₁ : k₁.nullContext = k.nullContext := hk.nullContext
    have hml : k₁.live mem = true := hrep.tree.alive (Finset.mem_insert_self ..)
    have hcl : k₁.live c = true := hrep.tree.alive (Finset.mem_insert_of_mem hc)
    have hmnull : mem ≠ k₁.nullContext := fun heq => by
      rcases h.null with hn | hn
      · exact h0 (heq.trans (hnull₁.trans hn))
      · exact hmem (heq.trans hnull₁ ▸ hn.1)
    have hnamed : tallocNamedConst mem context sizeofHandle .reference k =
        .ok (mem, k₁.setName mem .reference) := by
      unfold tallocNamedConst
      rw [Faulty.bind_run hrun, if_neg h0, Faulty.bind_run (store_run hml)]
      rfl
    refine ⟨k₁.refer mem c, ?_, hrep.refer hS' (Finset.mem_insert_of_mem hc) (hnull₁ ▸ hcnull)
      (Finset.mem_insert_self ..) (fun hmem' => hmo (Shape.alloc_loose hmo ▸ hmem'))
      (fun ⟨d, hd⟩ => hmem (hS.refs d mem hd).2.1) hmnull, hnull₁⟩
    rw [Faulty.bind_run hnamed, if_neg h0]
    refine (Faulty.bind_run (store_run ?_)).trans ((Faulty.bind_run (store_run ?_)).trans
      ((Faulty.bind_run (load_run ?_)).trans ((Faulty.bind_run (tlistAdd_run ?_ ?_)).trans
        ((Faulty.bind_run (store_run ?_)).trans ((load_run ?_).trans ?_)))))
    · exact hml
    · exact hml
    · exact hcl
    · exact hml
    · intro hne
      exact hrep.tree.alive
        (hS'.refs c _ (hrep.refs.refs_mem (Finset.mem_insert_of_mem hc) hne)).2.1
    · exact hcl
    · exact hml
    · change Except.ok (Function.update k₁.ptr mem c mem, k₁.refer mem c) = _
      rw [Function.update_self]

end Talloc
end AnekVideo
