/-
  AnekVideo.Talloc.Rep

  When a memory stands for a forest with references, and the single operations on it:
  moving a chunk, adding a reference, and freeing the handle of one.
-/
import AnekVideo.Talloc.Freeing
import AnekVideo.Talloc.Tree

namespace AnekVideo
namespace Talloc

open Interact Linked Relation

/-- The links of the handles in `k` stand for the references of `S`. -/
structure Refs (k : Heap) (S : Shape) : Prop where
  chain : ∀ c ∈ S.live, Chain (k.next .handle) (k.prev .handle) 0 0 (k.refs c) (S.refs c)
  ptr : ∀ c, ∀ h ∈ S.refs c, k.ptr h = c

/-- `k` stands for `S`. -/
structure Rep (k : Heap) (S : Shape) : Prop where
  tree : Tree k S
  refs : Refs k S
  handle : ∀ c ∈ S.live, k.destructor c = .tallocReferenceDestructor ↔ S.IsHandle c
  named : ∀ c ∈ S.live, k.name c = .reference ↔ S.IsHandle c
  idle : ∀ c ∈ S.live, k.destructor c ≠ .running
  loop : ∀ c ∈ S.live, k.loop c = true ↔ c ∈ S.loose
  null : S.NullOk k.nullContext

variable {D : Outcomes} {k k' k'' : Heap} {S S' S'' : Shape} {c d h p x : Nat}

/-- Only links, handles and destructors that have run are not as before. -/
structure Spares (k k' : Heap) (S' : Shape) : Prop where
  name : ∀ c ∈ S'.live, k'.name c = k.name c
  size : ∀ c ∈ S'.live, k'.size c = k.size c
  destructor : ∀ c ∈ S'.live, k'.destructor c = k.destructor c
  null : k'.nullContext = k.nullContext
  prev : ∀ c ∈ S'.loose, k'.prev .chunk c = k.prev .chunk c

theorem Spares.trans (h : Spares k k' S') (h' : Spares k' k'' S'') (hlive : S''.live ⊆ S'.live)
    (hloose : S''.loose ⊆ S'.loose) : Spares k k'' S'' where
  name := fun c hc => (h'.name c hc).trans (h.name c (hlive hc))
  size := fun c hc => (h'.size c hc).trans (h.size c (hlive hc))
  destructor := fun c hc => (h'.destructor c hc).trans (h.destructor c (hlive hc))
  null := h'.null.trans h.null
  prev := fun c hc => (h'.prev c hc).trans (h.prev c (hloose hc))

theorem Tree.congr (h : Tree k S) (hlive : k'.live = k.live)
    (hnext : k'.next .chunk = k.next .chunk) (hprev : k'.prev .chunk = k.prev .chunk)
    (hparent : k'.parent = k.parent) (hchild : k'.child = k.child) :
    Tree k' S where
  live := fun a => by rw [hlive]; exact h.live a
  kids := fun p hp => by rw [hnext, hprev, hchild]; exact h.kids p hp
  parent := fun c hc hl => by rw [hparent, hprev]; exact h.parent c hc hl
  root := fun c hc hl h0 => by rw [hnext, hprev]; exact h.root c hc hl h0
  trail := fun c hc => by rw [hprev, hparent]; exact h.trail c hc

theorem Tree.setDestructor (h : Tree k S) {e : Destructor} : Tree (k.setDestructor d e) S :=
  h.congr rfl rfl rfl rfl rfl

theorem Tree.setLoop (h : Tree k S) {b : Bool} : Tree (k.setLoop d b) S :=
  h.congr rfl rfl rfl rfl rfl

namespace Refs

theorem congr (h : Refs k S) (hnext : k'.next .handle = k.next .handle)
    (hprev : k'.prev .handle = k.prev .handle) (hrefs : k'.refs = k.refs) (hptr : k'.ptr = k.ptr)
    (hlive : S'.live ⊆ S.live) (hS : S'.refs = S.refs) :
    Refs k' S' where
  chain := fun c hc => by rw [hnext, hprev, hrefs, hS]; exact h.chain c (hlive hc)
  ptr := fun c d hd => by rw [hptr]; exact h.ptr c d (hS ▸ hd)

theorem zero_notMem (hS : S.Wf) : 0 ∉ S.refs c := fun h0 => hS.zero (hS.refs c 0 h0).2.1

theorem refs_eq_zero (h : Refs k S) (hc : c ∈ S.live) : k.refs c = 0 ↔ S.refs c = [] :=
  ((h.chain c hc).eq_nil_iff).symm

theorem refs_eq (h : Refs k S) (hc : c ∈ S.live) {L : List Nat} (hr : S.refs c = x :: L) :
    k.refs c = x := by
  have hchain := h.chain c hc
  rw [hr] at hchain
  exact hchain.1

theorem refs_mem (h : Refs k S) (hc : c ∈ S.live) (hne : k.refs c ≠ 0) :
    k.refs c ∈ S.refs c := by
  cases hr : S.refs c with
  | nil => exact absurd ((h.refs_eq_zero hc).2 hr) hne
  | cons a L => exact h.refs_eq hc hr ▸ List.mem_cons_self ..

/-! ## A reference is taken away -/

theorem unref_run (h : Refs k S) (hS : S.Wf) (hlive : ∀ a, k.live a = true ↔ a ∈ S.live)
    {y : Nat} (hy : y ∈ S.refs c) : tallocReferenceDestructor y k = .ok (0, k.unref y c) := by
  obtain ⟨hc, hyl, -⟩ := hS.refs c y hy
  have hch := h.chain c hc
  have hmem : ∀ a ∈ S.refs c, k.live a = true := fun a ha => (hlive a).2 (hS.refs c a ha).2.1
  have hfirst : y = k.refs c ↔ k.prev .handle y = 0 := (hch.prev_eq_iff (zero_notMem hS) hy).symm
  unfold tallocReferenceDestructor
  rw [Faulty.bind_run (load_run ((hlive y).2 hyl)), h.ptr c y hy,
    Faulty.bind_run (chunk_run ((hlive c).2 hc)), Faulty.bind_run (load_run ((hlive c).2 hc)),
    Faulty.bind_run (tlistRemove_run ((hlive y).2 hyl) (hS.ne_zero hyl) hfirst
      (hch.next_ne (zero_notMem hS) hy)
      (fun hne => hmem _ ((hch.prev_mem hy).resolve_left fun hp => hne hp.1))
      fun hne => hmem _ ((hch.next_mem hy).resolve_left hne)),
    Faulty.bind_run (store_run (show ((k.bypass .handle y).clear .handle y).live c =
      true from (hlive c).2 hc))]
  rfl

theorem unref (h : Refs k S) (hS : S.Wf) {y : Nat} (hy : y ∈ S.refs c) :
    Refs (k.unref y c) (S.unref y c) where
  chain := fun d hd => by
    have hc := (hS.refs c y hy).1
    have hch := h.chain c hc
    have hnext : ∀ a, a ≠ y → (k.unref y c).next .handle a =
        if a ≠ 0 ∧ a = k.prev .handle y then k.next .handle y else k.next .handle a :=
          fun a ha => by
      simp [Heap.unref, Heap.clear, Heap.bypass, ha]
    have hprev : ∀ a, a ≠ y → (k.unref y c).prev .handle a =
        if a ≠ 0 ∧ a = k.next .handle y then k.prev .handle y else k.prev .handle a :=
          fun a ha => by
      simp [Heap.unref, Heap.clear, Heap.bypass, ha]
    change Chain _ _ 0 0 (Function.update k.refs c _ d) _
    by_cases hdc : d = c
    · subst hdc
      rw [Function.update_self, Shape.unref_self]
      have hstart : (if y = k.refs d then k.next .handle y else k.refs d) =
          if k.refs d = y then k.next .handle y else k.refs d := if_congr eq_comm rfl rfl
      rw [hstart]
      refine hch.erase (zero_notMem hS) hy (fun a ha hay => ?_) fun a ha hay => ?_
      · rw [hnext a hay]
        refine if_congr ⟨fun hp => ?_, fun hn => ⟨hS.ne_zero (hS.refs d a ha).2.1, ?_⟩⟩ rfl
          rfl
        · exact (hch.next_eq_iff (zero_notMem hS) ha hy).2 hp.2.symm
        · exact ((hch.next_eq_iff (zero_notMem hS) ha hy).1 hn).symm
      · rw [hprev a hay]
        refine if_congr ⟨fun hn => ?_, fun hp => ⟨hS.ne_zero (hS.refs d a ha).2.1, ?_⟩⟩ rfl
          rfl
        · exact (hch.next_eq_iff (zero_notMem hS) hy ha).1 hn.2.symm
        · exact ((hch.next_eq_iff (zero_notMem hS) hy ha).2 hp).symm
    · rw [Function.update_of_ne hdc, Shape.unref_ne hdc]
      -- neither `y` nor its neighbours refer to another chunk
      refine (h.chain d hd).congr (fun a ha => ?_) fun a ha => ?_
      · have hay : a ≠ y := fun hay => hdc (hS.target d c y (hay ▸ ha) hy)
        rw [hnext a hay, if_neg]
        rintro ⟨h0, hp⟩
        have hmem := (hch.prev_mem hy).resolve_left fun hp' => h0 (hp.trans hp'.1)
        exact hdc (hS.target d c a ha (hp ▸ hmem))
      · have hay : a ≠ y := fun hay => hdc (hS.target d c y (hay ▸ ha) hy)
        rw [hprev a hay, if_neg]
        rintro ⟨h0, hn⟩
        have hmem := (hch.next_mem hy).resolve_left fun hn' => h0 (hn.trans hn')
        exact hdc (hS.target d c a ha (hn ▸ hmem))
  ptr := fun d a ha => h.ptr d a ((Shape.mem_unref hS).1 ha).1

end Refs

theorem Tree.unref (h : Tree k S) {y : Nat} : Tree (k.unref y c) (S.unref y c) :=
  have h' : Tree (k.unref y c) S := h.congr rfl
    (funext fun a => by simp [Heap.unref, Heap.clear, Heap.bypass])
    (funext fun a => by simp [Heap.unref, Heap.clear, Heap.bypass]) rfl rfl
  ⟨h'.live, h'.kids, h'.parent, h'.root, h'.trail⟩

/-! ## A chunk is moved -/

/-- Only the tree has changed. -/
theorem Rep.retree (h : Rep k S) (hk : Retreed k k') (ht : Tree k' S') (hlive : S'.live = S.live)
    (hloose : S'.loose = S.loose) (hrefs : S'.refs = S.refs) (hnull : S'.NullOk k.nullContext) :
    Rep k' S' where
  tree := ht
  refs := h.refs.congr hk.next hk.prev hk.refs hk.ptr hlive.le hrefs
  handle := fun c hc => by
    rw [hk.destructor, Shape.IsHandle, hrefs]
    exact h.handle c (hlive ▸ hc)
  named := fun c hc => by
    rw [hk.name, Shape.IsHandle, hrefs]
    exact h.named c (hlive ▸ hc)
  idle := fun c hc => by
    rw [hk.destructor]
    exact h.idle c (hlive ▸ hc)
  loop := fun c hc => by
    rw [hk.loop, hloose]
    exact h.loop c (hlive ▸ hc)
  null := by
    rw [hk.nullContext]
    exact hnull

theorem Spares.retree (hk : Retreed k k')
    (hprev : ∀ c ∈ S'.loose, k'.prev .chunk c = k.prev .chunk c) :
    Spares k k' S' where
  name := fun c _ => congrFun hk.name c
  size := fun c _ => congrFun hk.size c
  destructor := fun c _ => congrFun hk.destructor c
  null := hk.nullContext
  prev := hprev

/-- Where `NULL` stands for the null context. -/
def Heap.context (k : Heap) (x : Nat) : Nat := if x = 0 then k.nullContext else x

theorem Shape.NullOk.steal {null : Nat} (hnull : S.NullOk null) (hc : c ≠ null)
    (hl : c ∉ S.loose) :
    (S.steal c x).NullOk null := by
  refine hnull.imp id fun ⟨hlive, hloose, hup, hrest⟩ => ⟨hlive, ?_, ?_, hrest⟩
  · rw [Shape.steal_loose hl]
    exact hloose
  · rw [Shape.steal_up_ne hc.symm]
    exact hup

/-- The first child of `x` is moved to the front. -/
theorem Shape.steal_first (hS : S.Wf) {L : List Nat} (hk : S.kids x = c :: L) :
    S.steal c x = S := by
  have hc : c ∈ S.kids x := hk ▸ List.mem_cons_self ..
  obtain ⟨h0, hlive, hl, hup⟩ := (hS.kids x c).1 hc
  refine Shape.ext rfl (Shape.steal_loose hl) (funext fun d => ?_) (funext fun p => ?_) rfl
  · by_cases hd : d = c
    · subst hd
      rw [Shape.steal_up_self, hup]
    · exact Shape.steal_up_ne hd
  · by_cases hp : p = x
    · subst hp
      have hkids : ((S.takeOut c).place c p).kids p = c :: (S.takeOut c).kids p :=
        Shape.place_kids_self h0
      have hout : (S.takeOut c).kids p = (S.kids p).erase c := hup ▸ Shape.takeOut_kids_self
      rw [Shape.steal, hkids, hout, hk, List.erase_cons_head]
    · exact (Shape.place_kids_ne hp).trans (Shape.takeOut_kids_ne (hup ▸ hp))

/-- `__talloc_steal`, of a chunk that no loose chunk finds its parent through. -/
theorem Rep.steal_run (h : Rep k S) (hS : S.Wf) (hc : c ∈ S.live) (hl : c ∉ S.loose)
    (hn : ¬ S.IsHandle c) (hnull : c ≠ k.nullContext)
    (htrail : ∀ d ∈ S.loose, k.prev .chunk d ≠ c)
    (hx : k.context x = 0 ∨ k.context x ∈ S.live) (hcx : c ≠ k.context x) :
    ∃ k', tallocSteal x c k = .ok (c, k') ∧ Rep k' (S.steal c (k.context x)) ∧
      Spares k k' (S.steal c (k.context x)) ∧ Retreed k k' := by
  have hlive := h.tree.alive hc
  have hout := h.tree.takeOut hS hc hl htrail
  have hS₁ := hS.takeOut hc hn
  have hmem : c ∈ (S.takeOut c).loose := Finset.mem_insert_self ..
  have hprev : ∀ d ∈ S.loose, (k.unlink c).prev .chunk d = k.prev .chunk d := fun d hd =>
    (h.tree.unlink_apart hS hc hl (fun hkid => ((hS.kids _ _).1 hkid).2.2.1 hd) fun hdc => hl
      (hdc ▸ hd)).2.1
  have hlive₁ : (k.unlink c).live c = true := hout.alive hc
  have hne : ∀ d ∈ S.loose, d ≠ c := by
    rintro d hd rfl
    exact hl hd
  unfold tallocSteal
  have hcontext : (if x = 0 then k.nullContext else x) = k.context x := rfl
  rw [if_neg (hS.ne_zero hc), Faulty.bind_run nullContext_run]
  simp only [hcontext]
  rw [Faulty.bind_run (chunk_run hlive)]
  by_cases h0 : k.context x = 0
  · rw [if_pos h0, Faulty.bind_run (h.tree.unlink_run hS hc hl),
      Faulty.bind_run (clearLinks_run hlive₁),
      Faulty.bind_run (store_run (k := (k.unlink c).clear .chunk c) hlive₁), h0]
    have hk : Retreed k ((k.unlink c).alone c) := Retreed.unlink.trans Retreed.alone
    refine ⟨(k.unlink c).alone c, rfl,
      h.retree hk (hout.alone hS₁ hmem) rfl (Shape.steal_loose hl) rfl
      (h.null.steal hnull hl), .retree hk fun d hd => ?_, hk⟩
    rw [Shape.steal_loose hl] at hd
    rw [← hprev d hd]
    simp [Heap.alone, Heap.clear, Heap.setParent, hne d hd]
  · have hxl := hx.resolve_left h0
    have hxlive := h.tree.alive hxl
    rw [if_neg h0, Faulty.bind_run (chunk_run hxlive), Faulty.bind_run (load_run hlive)]
    by_cases hparent : k.parent c = k.context x
    · -- it is the first child already
      rw [if_pos (Or.inr hparent)]
      obtain ⟨hprev0, hup, hfirst⟩ := h.tree.parent_ne_zero hS hc hl (hparent.trans_ne h0)
      have hcx' : k.child (k.context x) = c := by rw [← hparent, hup, hfirst]
      have hsame : S.steal c (k.context x) = S := by
        have hstart := (h.tree.kids _ hxl).start
        rw [hcx'] at hstart
        cases hk : S.kids (k.context x) with
        | nil =>
          rw [hk] at hstart
          exact absurd hstart (hS.ne_zero hc)
        | cons a L =>
          rw [hk] at hstart
          exact Shape.steal_first hS (hk.trans (by rw [hstart]; rfl))
      rw [hsame]
      exact ⟨k, rfl, h, .retree .refl fun _ _ => rfl, .refl⟩
    · have hor : ¬ (c = k.context x ∨ k.parent c = k.context x) := not_or.2 ⟨hcx, hparent⟩
      have hchild : (k.unlink c).child (k.context x) ≠ 0 →
          (k.unlink c).live ((k.unlink c).child (k.context x)) = true := fun hne0 =>
        hout.alive (hS₁.live_of_kid (hout.child_kid hxl hne0)).1
      have hcc : (k.unlink c).child (k.context x) ≠ c := fun hcc => by
        have hkid := hout.child_kid hxl (hcc.trans_ne (hS.ne_zero hc))
        exact ((hS₁.kids _ _).1 hkid).2.2.1 (hcc.symm ▸ hmem)
      have hk : Retreed k ((k.unlink c).hang c (k.context x)) := Retreed.unlink.trans Retreed.hang
      refine ⟨(k.unlink c).hang c (k.context x), ?_, h.retree hk (hout.hang hS₁ hmem hxl hcx) rfl
        (Shape.steal_loose hl) rfl (h.null.steal hnull hl), .retree hk fun d hd => ?_, hk⟩
      · generalize hk₁ : (k.unlink c).setParent c (k.context x) = k₁
        have hlive₂ : k₁.live = (k.unlink c).live := by rw [← hk₁]; rfl
        have hchild₂ : k₁.child = (k.unlink c).child := by rw [← hk₁]; rfl
        have hx₁ : k₁.live (k.context x) = true := hlive₂ ▸ hout.alive hxl
        have hchild₁ : k₁.child (k.context x) ≠ 0 →
            k₁.live (k₁.child (k.context x)) = true := by
          rw [hchild₂, hlive₂]
          exact hchild
        rw [if_neg hor, Faulty.bind_run (h.tree.unlink_run hS hc hl),
          Faulty.bind_run (store_run hlive₁), hk₁,
          Faulty.bind_run (load_run hx₁), Faulty.bind_run (storeParent_run hchild₁)]
        refine (Faulty.bind_run (tlistAdd_run ?_ ?_)).trans ?_
        · exact hlive₂ ▸ hlive₁
        · exact hchild₁
        refine (Faulty.bind_run (store_run ?_)).trans ?_
        · exact hx₁
        rw [← hk₁]
        have hheap : ∀ K : Heap, K = (k.unlink c).hang c (k.context x) →
            (Except.ok (c, K) : Except Fault (Nat × Heap)) =
              .ok (c, (k.unlink c).hang c (k.context x)) := by
          rintro _ rfl
          rfl
        refine hheap _ (Heap.ext rfl rfl rfl ?_ rfl rfl rfl rfl rfl rfl rfl rfl rfl)
        funext a
        change (if a ≠ 0 ∧ a = (k.unlink c).child (k.context x) then 0
          else Function.update (k.unlink c).parent c (k.context x) a) = if a = c then k.context x
            else if a ≠ 0 ∧ a = (k.unlink c).child (k.context x) then 0
            else (k.unlink c).parent a
        by_cases hac : a = c
        · subst hac
          rw [Function.update_self, if_pos rfl, if_neg fun h => hcc h.2.symm]
        · rw [Function.update_of_ne hac, if_neg hac]
      · rw [Shape.steal_loose hl] at hd
        rw [← hprev d hd]
        have hdk : ¬ (d ≠ 0 ∧ d = (k.unlink c).child (k.context x)) := fun hdx => by
          have hkid := hdx.2 ▸ hout.child_kid hxl (hdx.2 ▸ hdx.1)
          exact ((hS₁.kids _ _).1 hkid).2.2.1 (Finset.mem_insert_of_mem hd)
        have hif : ((k.unlink c).hang c (k.context x)).prev .chunk d = if d ≠ 0 ∧
            d = (k.unlink c).child (k.context x)
            then c else (k.unlink c).prev .chunk d := by
          simp [Heap.hang, Heap.add, hne d hd]
        rw [hif, if_neg hdk]

/-! ## A handle is freed -/

/-- After `_talloc_free` of the handle `h`, which refers to `c`. -/
def Heap.dropped (k : Heap) (h c : Nat) : Heap :=
  ((((((k.setDestructor h .running).unref h c).setDestructor h .none).unlink h).setLoop h
    true).setLive h false)

theorem Shape.isHandle_drop (hS : S.Wf) {y : Nat} (hd : d ≠ y) :
    (S.drop y c).IsHandle d ↔ S.IsHandle d := by
  constructor
  · rintro ⟨e, he⟩
    exact ⟨e, ((Shape.mem_unref hS).1 he).1⟩
  · rintro ⟨e, he⟩
    exact ⟨e, (Shape.mem_unref hS).2 ⟨he, fun heq => hd heq.2⟩⟩

theorem Rep.handle_ne_null (h : Rep k S) (hS : S.Wf) {y : Nat} (hy : y ∈ S.refs c) :
    y ≠ k.nullContext := by
  rintro rfl
  rcases h.null with h0 | ⟨-, -, -, hn, -⟩
  · exact Refs.zero_notMem hS (h0 ▸ hy)
  · exact hn ⟨c, hy⟩

/-- The links of what is no sibling of the handle. -/
theorem Rep.dropped_prev (h : Rep k S) (hS : S.Wf) {y : Nat} (hy : y ∈ S.refs c)
    (hd : d ∉ S.kids (S.up y)) (hdy : d ≠ y) :
    (k.dropped y c).prev .chunk d = k.prev .chunk d := by
  obtain ⟨-, hyl, hyo⟩ := hS.refs c y hy
  have ht : Tree (((k.setDestructor y .running).unref y c).setDestructor y .none) (S.unref y c) :=
    h.tree.setDestructor.unref.setDestructor
  refine (ht.unlink_apart hS.unref hyl hyo hd hdy).2.1.trans ?_
  simp [Heap.unref, Heap.setDestructor, Heap.clear, Heap.bypass]

theorem Rep.dropped (h : Rep k S) (hS : S.Wf) {y : Nat} (hy : y ∈ S.refs c)
    (htrail : ∀ d ∈ S.loose, k.prev .chunk d ≠ y) :
    Rep (k.dropped y c) (S.drop y c) ∧ Spares k (k.dropped y c) (S.drop y c) := by
  obtain ⟨-, hyl, hyo⟩ := hS.refs c y hy
  have hS₁ : (S.unref y c).Wf := hS.unref
  -- the tree does not see what happens to the references
  have ht : Tree (((k.setDestructor y .running).unref y c).setDestructor y .none) (S.unref y c) :=
    h.tree.setDestructor.unref.setDestructor
  generalize hk₁ : ((k.setDestructor y .running).unref y c).setDestructor y .none = k₁ at ht
  have hprev₁ : k₁.prev .chunk = k.prev .chunk := by
    rw [← hk₁]
    exact funext fun a => by simp [Heap.unref, Heap.setDestructor, Heap.clear, Heap.bypass]
  have hout : Tree (k₁.unlink y) ((S.unref y c).takeOut y) :=
    ht.takeOut hS₁ hyl hyo fun d hd => by rw [hprev₁]; exact htrail d hd
  have hr : Refs k₁ (S.unref y c) := by
    have hr' : Refs (k.setDestructor y .running) S := h.refs.congr rfl rfl rfl rfl subset_rfl rfl
    rw [← hk₁]
    exact (hr'.unref hS hy).congr rfl rfl rfl rfl subset_rfl rfl
  have hu : Retreed k₁ (k₁.unlink y) := .unlink
  have hdes : ∀ d, d ≠ y → (k.dropped y c).destructor d = k.destructor d := fun d hd => by
    have h₁ : (k.dropped y c).destructor = k₁.destructor := by
      rw [Heap.dropped, hk₁]
      exact hu.destructor
    have h₂ : k₁.destructor d = k.destructor d := by
      rw [← hk₁]
      exact (Function.update_of_ne hd ..).trans (Function.update_of_ne hd ..)
    rw [h₁, h₂]
  have hname : (k.dropped y c).name = k.name := by
    rw [Heap.dropped, hk₁]
    exact hu.name.trans (by rw [← hk₁]; rfl)
  have hnull : (k.dropped y c).nullContext = k.nullContext := by
    rw [Heap.dropped, hk₁]
    exact hu.nullContext.trans (by rw [← hk₁]; rfl)
  have hloop : ∀ d, d ≠ y → (k.dropped y c).loop d = k.loop d := fun d hd => by
    rw [Heap.dropped, hk₁]
    refine (Function.update_of_ne hd ..).trans (congrFun (hu.loop.trans ?_) d)
    rw [← hk₁]
    rfl
  have hsize : (k.dropped y c).size = k.size := by
    rw [Heap.dropped, hk₁]
    exact hu.size.trans (by rw [← hk₁]; rfl)
  refine ⟨⟨?_, ?_, fun d hd => ?_, fun d hd => ?_, fun d hd => ?_, fun d hd => ?_, ?_⟩,
    fun d _ => congrFun hname d,
    fun d _ => congrFun hsize d, fun d hd => hdes d (Finset.mem_erase.1 hd).1, hnull,
      fun d hd => ?_⟩
  · rw [Heap.dropped, hk₁]
    exact hout.setLoop.release
  · rw [Heap.dropped, hk₁]
    exact hr.congr hu.next hu.prev hu.refs hu.ptr (Finset.erase_subset ..) rfl
  · obtain ⟨hdy, hdl⟩ := Finset.mem_erase.1 hd
    rw [hdes d hdy, Shape.isHandle_drop hS hdy]
    exact h.handle d hdl
  · obtain ⟨hdy, hdl⟩ := Finset.mem_erase.1 hd
    rw [hname, Shape.isHandle_drop hS hdy]
    exact h.named d hdl
  · obtain ⟨hdy, hdl⟩ := Finset.mem_erase.1 hd
    rw [hdes d hdy]
    exact h.idle d hdl
  · obtain ⟨hdy, hdl⟩ := Finset.mem_erase.1 hd
    rw [hloop d hdy, Shape.drop_loose hyo]
    exact h.loop d hdl
  · rw [hnull]
    have hframe : Shape.Frame k.nullContext y S (S.drop y c) := .drop hS hy (.inr .refl)
    exact hframe.nullOk hS h.null (h.handle_ne_null hS hy)
  · have hdl : d ∈ S.loose := Shape.drop_loose hyo ▸ hd
    have hdy : d ≠ y := by
      rintro rfl
      exact hyo hdl
    exact h.dropped_prev hS hy (fun hkid => ((hS.kids _ _).1 hkid).2.2.1 hdl) hdy

/-- The loop over the children ends where there are none. -/
theorem freeChild_done {free : Nat → T Int} {n : Nat} (hp : k.live p = true)
    (h0 : k.child p = 0) :
    freeChild free n p k = .ok (.inr (), k) := by
  unfold freeChild
  rw [Faulty.bind_run (load_run hp), h0]
  rfl

theorem Rep.free_handle (h : Rep k S) (hS : S.Wf) {y : Nat} (hy : y ∈ S.refs c) (n depth : Nat) :
    tallocFree D (n + 1) (depth + 1) y k = .ok (0, k.dropped y c) := by
  obtain ⟨hc, hyl, hyo⟩ := hS.refs c y hy
  have hlive := h.tree.alive hyl
  have hrefs : k.refs y = 0 := (h.refs.refs_eq_zero hyl).2 (hS.leaf c y hy).1
  have hdes : k.destructor y = .tallocReferenceDestructor := (h.handle y hyl).2 ⟨c, hy⟩
  have hloop : k.loop y = false := by
    rw [← Bool.not_eq_true, h.loop y hyl]
    exact hyo
  have ht : Tree (k.setDestructor y .running) S := h.tree.congr rfl rfl rfl rfl rfl
  have hr : Refs (k.setDestructor y .running) S := h.refs.congr rfl rfl rfl rfl subset_rfl rfl
  have ht₁ : Tree (((k.setDestructor y .running).unref y c).setDestructor y .none)
      (S.unref y c) :=
    ht.unref.congr rfl rfl rfl rfl rfl
  have hdestruct : destruct D y k =
      .ok (false, ((k.setDestructor y .running).unref y c).setDestructor y .none) := by
    unfold destruct
    rw [Faulty.bind_run (load_run hlive), hdes]
    simp only
    refine (Faulty.bind_run (store_run hlive)).trans ?_
    refine (Faulty.bind_run (hr.unref_run hS ht.live hy)).trans ?_
    rw [if_neg (by decide)]
    refine (Faulty.bind_run (store_run ?_)).trans rfl
    exact hlive
  generalize hk₁ : ((k.setDestructor y .running).unref y c).setDestructor y .none =
    k₁ at ht₁ hdestruct
  have hS₁ : (S.unref y c).Wf := hS.unref
  have hlive₁ : (k₁.unlink y).live y = true := by
    rw [Retreed.unlink.live]
    exact ht₁.alive hyl
  -- a handle has no children
  have hchild : ((k₁.unlink y).setLoop y true).child y = 0 := by
    have hkids : (S.unref y c).kids y = [] := hS.kids_of_handle ⟨c, hy⟩
    have h0 : k₁.child y = 0 := ((ht₁.kids y hyl).eq_nil_iff).1 hkids
    have hchild := ht₁.unlink_child hS₁ hyl hyo hyl
    rw [h0, if_neg (hS.ne_zero hyl).symm] at hchild
    exact hchild
  rw [tallocFree, if_neg (hS.ne_zero hyl), Faulty.bind_run (chunk_run hlive),
    Faulty.bind_run (load_run hlive), hrefs,
    if_neg (not_not.2 rfl), Faulty.bind_run (load_run hlive), hloop, if_neg Bool.false_ne_true,
    Faulty.bind_run hdestruct, if_neg Bool.false_ne_true,
    Faulty.bind_run (ht₁.unlink_run hS₁ hyl hyo), Faulty.bind_run (store_run hlive₁)]
  have hlive₂ : ((k₁.unlink y).setLoop y true).live y = true := hlive₁
  refine (Faulty.bind_run (Faulty.rounds_done (freeChild_done hlive₂ hchild))).trans ?_
  refine (Faulty.bind_run (store_run hlive₂)).trans ?_
  rw [Heap.dropped, hk₁]
  rfl

end Talloc
end AnekVideo
