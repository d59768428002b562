/-
  AnekVideo.Talloc.Report

  What talloc says about a tree: its total size and its report.

  Both mark the chunks they are inside of with `TALLOC_FLAG_LOOP` and take the mark away
  again.  The report asks for totals while marks are set, but only above the chunk in
  question, so they are what they would be without.
-/
import AnekVideo.Talloc.Calls

namespace AnekVideo
namespace Talloc

open Interact Linked Relation

variable {k : Heap} {S : Shape} {b c d n p x : Nat} {L : List Nat}

/-! ## Loops along a list -/

/-- A loop that follows the links of a list and changes nothing in memory. -/
theorem rounds_chain {σ : Type} {l : Links} {body : Nat × σ → T ((Nat × σ) ⊕ σ)}
    {g : σ → Nat → σ} (hL : Chain (k.next l) (k.prev l) 0 b x L)
    (hstep : ∀ c ∈ L, ∀ s, body (c, s) k = .ok (.inl (k.next l c, g s c), k))
    (hend : ∀ s, body (0, s) k = .ok (.inr s, k)) (hn : L.length < n) (s : σ) :
    Faulty.rounds Fault.stuck body n (x, s) k = .ok (L.foldl g s, k) := by
  induction L generalizing b x n s with
  | nil =>
    obtain ⟨n, rfl⟩ : ∃ j, n = j + 1 := ⟨n - 1, by omega⟩
    obtain rfl : x = 0 := hL
    exact Faulty.rounds_done (hend s)
  | cons a L ih =>
    obtain ⟨n, rfl⟩ : ∃ j, n = j + 1 := ⟨n - 1, by omega⟩
    obtain ⟨rfl, -, -, hrest⟩ := hL
    have hround := hstep x (List.mem_cons_self ..) s
    have htail := ih hrest (fun c hc => hstep c (List.mem_cons_of_mem _ hc))
      (Nat.lt_of_succ_lt_succ hn) (g s x)
    exact (Faulty.rounds_again hround).trans htail

/-! ## Marks -/

/-- `k` stands for `S`, with no mark on `p` or below it. -/
structure Unmarked (k : Heap) (S : Shape) (p : Nat) : Prop where
  tree : Tree k S
  refs : Refs k S
  named : ∀ c ∈ S.live, k.name c = .reference ↔ S.IsHandle c
  wf : S.Wf
  loose : S.loose = ∅
  live : p ∈ S.live
  loop : ∀ c, ReflTransGen S.Over p c → k.loop c = false

theorem Heap.setLoop_restore (hl : k.loop p = false) : (k.setLoop p true).setLoop p false = k := by
  have hloop : Function.update (Function.update k.loop p true) p false = k.loop := by
    rw [Function.update_idem, ← hl, Function.update_eq_self]
  simp only [Heap.setLoop, hloop]

namespace Unmarked

theorem kid (h : Unmarked k S p) (hc : c ∈ S.kids p) : Unmarked (k.setLoop p true) S c where
  tree := h.tree.setLoop
  refs := ⟨h.refs.chain, h.refs.ptr⟩
  named := h.named
  wf := h.wf
  loose := h.loose
  live := (h.wf.live_of_kid hc).1
  loop := fun d hd => by
    have hedge := h.wf.edge hc
    have hdp : d ≠ p := by
      rintro rfl
      exact h.wf.acyclic.not_below (.single hedge) hd
    exact (Function.update_of_ne hdp ..).trans (h.loop d (hd.head hedge))

theorem mem_kids (h : Unmarked k S p) : c ∈ S.kids p ↔ S.Over p c := by
  rw [h.wf.kids, h.loose]
  simp [Shape.Over]

theorem below_val (h : Unmarked k S p) :
    (below S.Over S.live p).val = p ::ₘ (S.kids p : Multiset Nat).bind fun c =>
      (below S.Over S.live c).val :=
  h.wf.acyclic.below_val (fun _ _ _ ha hb => ha.2.2.symm.trans hb.2.2) h.live (h.wf.nodup p)
    fun _ => h.mem_kids

theorem sum_below (h : Unmarked k S p) (w : Nat → Nat) :
    ∑ c ∈ below S.Over S.live p, w c =
      w p + ((S.kids p).map fun c => ∑ d ∈ below S.Over S.live c, w d).sum := by
  unfold Finset.sum
  rw [h.below_val, Multiset.map_cons, Multiset.sum_cons, Multiset.map_bind, Multiset.sum_bind]
  rfl

end Unmarked

/-! ## Totals -/

theorem sizeT_add (a b : Nat) : sizeT (sizeT a + sizeT b) = sizeT (a + b) :=
  (Nat.add_mod a b _).symm

theorem foldl_sizeT (g : Nat → Nat) (L : List Nat) (s : Nat) :
    L.foldl (fun s c => sizeT (s + sizeT (g c))) (sizeT s) = sizeT (s + (L.map g).sum) := by
  induction L generalizing s with
  | nil => rfl
  | cons c L ih => rw [List.foldl_cons, sizeT_add, ih, List.map_cons, List.sum_cons, Nat.add_assoc]

theorem kids_length_lt (hS : S.Wf) (hn : S.live.card < n) : (S.kids p).length < n :=
  lt_of_le_of_lt (Tree.kids_length hS) hn

/-- A total is the sum over all that is below, and the memory is as before. -/
theorem Unmarked.total_run (add : Heap → Nat → Nat)
    (hadd : ∀ k p b, add (k.setLoop p b) = add k) (h : Unmarked k S p) (hn : S.live.card < n)
    {depth : Nat} (hd : (below S.Over S.live p).card ≤ depth) :
    total add n depth p k = .ok (sizeT (∑ c ∈ below S.Over S.live p, add k c), k) := by
  induction depth generalizing k p with
  | zero =>
    have hp : p ∈ below S.Over S.live p := mem_below.2 ⟨h.live, .refl⟩
    exact absurd (Finset.card_pos.2 ⟨p, hp⟩) (by omega)
  | succ depth ih =>
    have hlive := h.tree.alive h.live
    have hl := h.loop p .refl
    have hlive₁ : (k.setLoop p true).live p = true := hlive
    have hkids := h.tree.setLoop (d := p) (b := true) |>.kids p h.live
    rw [total, Faulty.bind_run (chunk_run hlive), Faulty.bind_run (load_run hlive), hl,
      if_neg Bool.false_ne_true,
      Faulty.bind_run (store_run hlive), Faulty.bind_run (load_run hlive₁),
        Faulty.bind_run (load_run hlive₁)]
    refine (Faulty.bind_run (rounds_chain
      (g := fun s c => sizeT (s + sizeT (∑ d ∈ below S.Over S.live c, add k d)))
      hkids (fun c hc s => ?_) (fun s => rfl) (kids_length_lt h.wf hn) _)).trans ?_
    · -- a child is summed with the flag of `p` set, which it does not see: `p` is not below it
      have hkid := h.kid hc
      have hlt : (below S.Over S.live c).card ≤ depth := by
        have hfewer := h.wf.acyclic.below_lt h.live (h.wf.edge hc)
        omega
      have hrun := ih hkid hlt
      rw [hadd] at hrun
      simp only
      rw [if_neg (h.wf.ne_zero hkid.live), Faulty.bind_run hrun,
        Faulty.bind_run (load_run (hkid.tree.alive hkid.live))]
      rfl
    · rw [foldl_sizeT, hadd, Faulty.bind_run (store_run hlive₁), Heap.setLoop_restore hl,
        h.sum_below]
      rfl

/-! ## Lines -/

/-- What `talloc_get_name` says. -/
def Heap.called (k : Heap) (c : Nat) : String :=
  match k.name c with
  | .reference => ".reference"
  | .str s => s
  | .null => "UNNAMED"

theorem getName_run (hlive : k.live c = true) : tallocGetName c k = .ok (k.called c, k) := by
  unfold tallocGetName Heap.called
  rw [Faulty.bind_run (chunk_run hlive), Faulty.bind_run (load_run hlive)]
  cases k.name c <;> rfl

theorem foldl_succ (L : List Nat) (s : Nat) :
    L.foldl (fun ret _ => sizeT (ret + 1)) (sizeT s) = sizeT (s + L.length) := by
  induction L generalizing s with
  | nil => rfl
  | cons c L ih =>
    have hone : sizeT (sizeT s + 1) = sizeT (s + 1) := Nat.mod_add_mod ..
    rw [List.foldl_cons, hone, ih, List.length_cons, Nat.add_right_comm, Nat.add_assoc]

theorem Unmarked.referenceCount_run (h : Unmarked k S p) (hn : S.live.card < n)
    (hc : c ∈ S.live) :
    referenceCount n c k = .ok (sizeT (S.refs c).length, k) := by
  have hlive := h.tree.alive hc
  have hlen : (S.refs c).length < n := by
    have hsub : (S.refs c).toFinset ⊆ S.live :=
      fun a ha => (h.wf.refs c a (List.mem_toFinset.1 ha)).2.1
    have hcard := Finset.card_le_card hsub
    rw [List.toFinset_card_of_nodup (h.wf.refs_nodup c)] at hcard
    omega
  unfold referenceCount
  rw [Faulty.bind_run (chunk_run hlive), Faulty.bind_run (load_run hlive)]
  refine (rounds_chain (g := fun ret _ => sizeT (ret + 1)) (h.refs.chain c hc) (fun y hy s => ?_)
    (fun s => rfl) hlen 0).trans ?_
  · have hy' := (h.wf.refs c y hy).2.1
    simp only
    rw [if_neg (h.wf.ne_zero hy'), Faulty.bind_run (load_run (h.tree.alive hy'))]
    rfl
  · have hcount := foldl_succ (S.refs c) 0
    rw [Nat.zero_add] at hcount
    exact congrArg (fun r => Except.ok (r, k)) hcount

open Classical in
/-- The line about `c` in a report, `d` levels down. -/
noncomputable def Shape.line (S : Shape) (k : Heap) (full : Bool) (d c : Nat) : Line :=
  if S.IsHandle c then .reference d (k.called (k.ptr c))
  else if d = 0 then .top full (k.called c) (sizeT (∑ x ∈ below S.Over S.live c, k.size x))
    (sizeT (below S.Over S.live c).card)
  else .chunk d (k.called c) (sizeT (∑ x ∈ below S.Over S.live c, k.size x))
    (sizeT (below S.Over S.live c).card) (sizeT (S.refs c).length) c

theorem Unmarked.helper_run (h : Unmarked k S p) (hn : S.live.card < n) (hp : ¬ S.IsHandle p)
    (d : Nat) (max : Int) :
    reportDepthFileHelper n p d max false k = .ok (S.line k (decide (max < 0)) d p, k) := by
  have hbelow : (below S.Over S.live p).card ≤ n :=
    (Finset.card_le_card fun _ hc => (mem_below.1 hc).1).trans hn.le
  have hsize := h.total_run (·.size) (fun _ _ _ => rfl) hn hbelow
  have hblocks := h.total_run (fun _ _ => 1) (fun _ _ _ => rfl) hn hbelow
  rw [Finset.sum_const, smul_eq_mul, mul_one] at hblocks
  unfold reportDepthFileHelper Shape.line
  rw [Faulty.bind_run (getName_run (h.tree.alive h.live)), if_neg Bool.false_ne_true, if_neg hp,
    Faulty.bind_run (show totalSize n p k = _ from hsize),
      Faulty.bind_run (show totalBlocks n p k = _ from hblocks)]
  split
  · rfl
  · rw [Faulty.bind_run (h.referenceCount_run hn h.live)]
    rfl

theorem Unmarked.helper_ref_run (h : Unmarked k S x) (hy : S.IsHandle c) (d : Nat) (max : Int)
    (full : Bool) :
    reportDepthFileHelper n (k.ptr c) d max true k = .ok (S.line k full d c, k) := by
  obtain ⟨a, ha⟩ := hy
  have hlive : k.live (k.ptr c) = true := by
    rw [h.refs.ptr a c ha]
    exact h.tree.alive (h.wf.refs a c ha).1
  unfold reportDepthFileHelper Shape.line
  rw [Faulty.bind_run (getName_run hlive), if_pos rfl, if_pos ⟨a, ha⟩]
  rfl

/-! ## The report -/

/-- How many chunks are above `c`, and `c`. -/
noncomputable def Shape.level (S : Shape) (c : Nat) : Nat :=
  (below (Function.swap S.Over) S.live c).card

theorem Shape.level_kid (hS : S.Wf) (h : S.Over p c) : S.level c = S.level p + 1 := by
  have hnot : c ∉ below (Function.swap S.Over) S.live p := fun hmem =>
    hS.acyclic.swap.not_below (TransGen.single (show Function.swap S.Over c p from h))
      (mem_below.1 hmem).2
  unfold level
  rw [← Finset.card_insert_of_notMem hnot]
  congr 1
  -- above `c` are `c` itself and what is above `p`
  ext d
  rw [Finset.mem_insert, mem_below, mem_below]
  constructor
  · rintro ⟨hd, hpath⟩
    rcases hpath.cases_head with rfl | ⟨e, hce, hed⟩
    · exact .inl rfl
    · exact .inr ⟨hd, (hce.2.2.symm.trans h.2.2) ▸ hed⟩
  · rintro (rfl | ⟨hd, hpath⟩)
    · exact ⟨h.2.1, .refl⟩
    · exact ⟨hd, hpath.head h⟩

theorem Shape.level_le (hS : S.Wf) (h : ReflTransGen S.Over p c) : S.level p ≤ S.level c := by
  induction h with
  | refl => exact le_rfl
  | tail _ hbc ih => exact ih.trans (by rw [Shape.level_kid hS hbc]; exact Nat.le_succ _)

/-- The chunks that a report on `p` at depth `d` has a line about. -/
noncomputable def Shape.shown (S : Shape) (max : Int) (d p : Nat) : Finset Nat :=
  (below S.Over S.live p).filter fun c => c = p ∨ max < 0 ∨
  ((d + (S.level c - S.level p) : Nat) : Int) ≤ max

/-- The lines about them. -/
noncomputable def Shape.lines (S : Shape) (k : Heap) (max : Int) (d p : Nat) : Multiset Line :=
  (S.shown max d p).val.map fun c => S.line k (decide (max < 0)) (d + (S.level c - S.level p)) c

namespace Unmarked

variable {d : Nat} {max : Int}

/-- Where the depth is used up, only `p` is shown. -/
theorem shown_cut (h : Unmarked k S p) (h0 : 0 ≤ max) (hcut : max ≤ d) :
    S.shown max d p = {p} := by
  ext c
  rw [Shape.shown, Finset.mem_filter, mem_below, Finset.mem_singleton]
  constructor
  · rintro ⟨⟨-, hpc⟩, hc⟩
    -- a chunk further down is deeper than `p`, and `p` has used up the depth
    by_contra hne
    obtain ⟨e, hpe, hec⟩ := hpc.cases_head.resolve_left fun heq => hne heq.symm
    have hlevel := Shape.level_kid h.wf hpe
    have hle := Shape.level_le h.wf hec
    rcases hc with hc | hc | hc
    · exact hne hc
    · omega
    · omega
  · rintro rfl
    exact ⟨⟨h.live, .refl⟩, .inl rfl⟩

/-- Otherwise so is what is shown for each child. -/
theorem shown_val (h : Unmarked k S p) (hcut : max < 0 ∨ (d : Int) < max) :
    (S.shown max d p).val = p ::ₘ (S.kids p : Multiset Nat).bind fun c =>
      (S.shown max (d + 1) c).val := by
  unfold Shape.shown
  rw [Finset.filter_val, h.below_val, Multiset.filter_cons_of_pos _ (.inl rfl),
    Multiset.filter_bind]
  congr 1
  refine Multiset.bind_congr fun c hc => ?_
  have hedge := h.wf.edge (Multiset.mem_coe.1 hc)
  have hlevel := Shape.level_kid h.wf hedge
  rw [Finset.filter_val]
  refine Multiset.filter_congr fun x hx => ?_
  obtain ⟨-, hcx⟩ := mem_below.1 hx
  have hle := Shape.level_le h.wf hcx
  have hxp : x ≠ p := by
    rintro rfl
    exact h.wf.acyclic.not_below (.single hedge) hcx
  rw [or_iff_right hxp]
  constructor
  · rintro (h0 | hx)
    · exact .inr (.inl h0)
    · exact .inr (.inr (by omega))
  · rintro (rfl | h0 | hx)
    · exact hcut.imp id fun hlt => by omega
    · exact .inl h0
    · exact .inr (by omega)

theorem lines_cut (h : Unmarked k S p) (h0 : 0 ≤ max) (hcut : max ≤ d) :
    S.lines k max d p = {S.line k (decide (max < 0)) d p} := by
  unfold Shape.lines
  rw [h.shown_cut h0 hcut, Finset.singleton_val, Multiset.map_singleton, Nat.sub_self]
  rfl

theorem lines_eq (h : Unmarked k S p) (hcut : max < 0 ∨ (d : Int) < max) :
    S.lines k max d p =
      S.line k (decide (max < 0)) d p ::ₘ (S.kids p : Multiset Nat).bind fun c =>
        S.lines k max (d + 1) c := by
  unfold Shape.lines
  rw [h.shown_val hcut, Multiset.map_cons, Multiset.map_bind, Nat.sub_self]
  congr 1
  refine Multiset.bind_congr fun c hc => Multiset.map_congr rfl fun x hx => ?_
  have hedge := h.wf.edge (Multiset.mem_coe.1 hc)
  have hlevel := Shape.level_kid h.wf hedge
  have hle := Shape.level_le h.wf (mem_below.1 (Finset.mem_filter.1 hx).1).2
  congr 1
  omega

/-- A handle has one line. -/
theorem lines_handle (h : Unmarked k S p) (hp : S.IsHandle p) :
    S.lines k max d p = {S.line k (decide (max < 0)) d p} := by
  by_cases hcut : 0 ≤ max ∧ max ≤ d
  · exact h.lines_cut hcut.1 hcut.2
  · rw [h.lines_eq (by omega), h.wf.kids_of_handle hp]
    rfl

/-- The report prints one line for each chunk that is shown, and the memory is as before. -/
theorem report_run (h : Unmarked k S p) (hp : ¬ S.IsHandle p) (hn : S.live.card < n) {nest : Nat}
    (hnest : (below S.Over S.live p).card ≤ nest) :
    ∃ lines, reportDepth n max nest p d k = .ok (lines, k) ∧
      (lines : Multiset Line) = S.lines k max d p := by
  induction nest generalizing k p d with
  | zero =>
    have hmem : p ∈ below S.Over S.live p := mem_below.2 ⟨h.live, .refl⟩
    exact absurd (Finset.card_pos.2 ⟨p, hmem⟩) (by omega)
  | succ nest ih =>
    have hlive := h.tree.alive h.live
    have hl := h.loop p .refl
    have hlive₁ : (k.setLoop p true).live p = true := hlive
    rw [reportDepth, Faulty.bind_run (chunk_run hlive), Faulty.bind_run (load_run hlive), hl,
      if_neg Bool.false_ne_true, Faulty.bind_run (h.helper_run hn hp d max)]
    by_cases hcut : 0 ≤ max ∧ max ≤ d
    · rw [if_pos hcut, h.lines_cut hcut.1 hcut.2]
      exact ⟨_, rfl, rfl⟩
    · rw [if_neg hcut, h.lines_eq (by omega), Faulty.bind_run (store_run hlive),
        Faulty.bind_run (load_run hlive₁)]
      -- what a child adds, a reference or a report of its own
      have hmore : ∀ c ∈ S.kids p, ∃ more, (if k.name c = .reference then do
            let p ← load (·.ptr) c
            let line ← reportDepthFileHelper n p (d + 1) max true
            return [line]
          else reportDepth n max nest c (d + 1) : T (List Line)) (k.setLoop p true) =
            .ok (more, k.setLoop p true) ∧
          (more : Multiset Line) = S.lines k max (d + 1) c := fun c hc => by
        have hkid := h.kid hc
        by_cases hy : S.IsHandle c
        · rw [if_pos ((h.named c hkid.live).2 hy),
            Faulty.bind_run (load_run (hkid.tree.alive hkid.live)),
            Faulty.bind_run (hkid.helper_ref_run hy (d + 1) max (decide (max < 0)))]
          exact ⟨_, rfl, (hkid.lines_handle hy).symm⟩
        · rw [if_neg fun hname => hy ((h.named c hkid.live).1 hname)]
          have hfewer := h.wf.acyclic.below_lt h.live (h.wf.edge hc)
          exact ih hkid hy (by omega)
      -- the lines of the children, put together in the order of the list
      choose! more hrun hlines using hmore
      have hkids := (h.tree.setLoop (d := p) (b := true)).kids p h.live
      refine ⟨S.line k (decide (max < 0)) d p :: (S.kids p).flatMap more, ?_, ?_⟩
      · refine (Faulty.bind_run (rounds_chain (g := fun ls c => ls ++ more c) hkids
          (fun c hc ls => ?_) (fun ls => rfl) (kids_length_lt h.wf hn) _)).trans ?_
        · have hkid := h.kid hc
          have hlive₂ := hkid.tree.alive hkid.live
          simp only
          rw [if_neg (h.wf.ne_zero hkid.live), Faulty.bind_run (load_run hlive₂)]
          refine (Faulty.bind_run (hrun c hc)).trans ?_
          rw [Faulty.bind_run (load_run hlive₂)]
          rfl
        · rw [List.foldl_append_eq_append, Faulty.bind_run (store_run hlive₁),
            Heap.setLoop_restore hl]
          rfl
      · rw [← Multiset.cons_coe, ← Multiset.coe_bind]
        congr 1
        exact Multiset.bind_congr fun c hc => hlines c (Multiset.mem_coe.1 hc)

end Unmarked

/-! ## Wider bounds -/

variable {d d' m : Nat} {max : Int}

theorem total_le {add : Heap → Nat → Nat} (h : n ≤ m) (hd : d ≤ d') :
    (total add n d p).Le (total add m d' p) := by
  induction d generalizing d' p with
  | zero => exact .error
  | succ d ih =>
    obtain ⟨e, rfl⟩ : ∃ e, d' = e + 1 := ⟨d' - 1, by omega⟩
    have hrec : ∀ c, (total add n d c).Le (total add m e c) :=
      fun c => ih (Nat.le_of_succ_le_succ hd)
    rw [total, total]
    refine .bind .refl fun _ => .bind .refl fun loop =>
      .ite .refl (.bind .refl fun _ => .bind .refl fun first => ?_)
    refine .bind .refl fun child => .bind (.rounds ?_ h) fun sum => .refl
    intro x
    exact .ite .refl (.bind (hrec x.1) fun t => .refl)

theorem referenceCount_le (h : n ≤ m) : (referenceCount n p).Le (referenceCount m p) := by
  unfold referenceCount
  exact .bind .refl fun _ => .bind .refl fun _ => .rounds (fun _ => .refl) h

theorem reportDepthFileHelper_le {isRef : Bool} (h : n ≤ m) :
    (reportDepthFileHelper n p d max isRef).Le (reportDepthFileHelper m p d max isRef) := by
  unfold reportDepthFileHelper
  refine .bind .refl fun name =>
    .ite .refl (.bind (total_le h h) fun size => .bind (total_le h h) fun blocks => ?_)
  exact .ite .refl (.bind (referenceCount_le h) fun refs => .refl)

theorem reportDepth_le {nest nest' : Nat} (h : n ≤ m) (hnest : nest ≤ nest') :
    (reportDepth n max nest p d).Le (reportDepth m max nest' p d) := by
  induction nest generalizing nest' p d with
  | zero => exact .error
  | succ nest ih =>
    obtain ⟨e, rfl⟩ : ∃ e, nest' = e + 1 := ⟨nest' - 1, by omega⟩
    have hrec : ∀ c d, (reportDepth n max nest c d).Le (reportDepth m max e c d) := fun c d =>
      ih (Nat.le_of_succ_le_succ hnest)
    rw [reportDepth, reportDepth]
    refine .bind .refl fun _ => .bind .refl fun loop =>
      .ite .refl (.bind (reportDepthFileHelper_le h) fun line => ?_)
    refine .ite .refl (.bind .refl fun _ => .bind .refl fun child => .bind (.rounds ?_ h)
      fun lines => .refl)
    intro x
    refine .ite .refl (.bind .refl fun name => .bind (.ite ?_ (hrec _ _)) fun more => .refl)
    exact .bind .refl fun y => .bind (reportDepthFileHelper_le h) fun line => .refl

theorem tallocTotalSize_le (h : n ≤ m) : (tallocTotalSize n p).Le (tallocTotalSize m p) := by
  unfold tallocTotalSize
  exact .bind .refl fun null => .ite .refl (total_le h h)

theorem tallocReportDepthFile_le (h : n ≤ m) :
    (tallocReportDepthFile n p d max).Le (tallocReportDepthFile m p d max) := by
  unfold tallocReportDepthFile
  exact .bind .refl fun null => .ite .refl (reportDepth_le h h)

theorem tallocFindParentByname_le {name : String} (h : n ≤ m) :
    (tallocFindParentByname n p name).Le (tallocFindParentByname m p name) := by
  unfold tallocFindParentByname
  exact .ite .refl (.bind .refl fun _ => climb_le h)

/-! ## Between two calls -/

theorem Stands.unmarked (h : Stands k S) (hp : p ∈ S.live) : Unmarked k S p where
  tree := h.rep.tree
  refs := h.rep.refs
  named := h.rep.named
  wf := h.wf
  loose := h.loose
  live := hp
  loop := fun c hc => by
    rw [← Bool.not_eq_true, h.rep.loop c (Shape.live_of_below hp hc), h.loose]
    exact Finset.notMem_empty c

theorem Shape.below_card_le (S : Shape) (p : Nat) :
    (below S.Over S.live p).card ≤ S.live.card + 1 :=
  (Finset.card_le_card fun _ hc => (mem_below.1 hc).1).trans (Nat.le_succ _)

/-- The totals of a chunk, or for NULL of the null context, are sums over all that is below it. -/
theorem Stands.totals (h : Stands k S) (hp : k.context p ∈ S.live) :
    Faulty.Ends (fun n => tallocTotalSize n p) k
      (sizeT (∑ c ∈ below S.Over S.live (k.context p), k.size c)) k ∧
      Faulty.Ends (fun n => totalBlocks n (k.context p)) k
        (sizeT (below S.Over S.live (k.context p)).card) k := by
  have hn : S.live.card < S.live.card + 1 := Nat.lt_succ_self _
  have hsize := (h.unmarked hp).total_run (·.size) (fun _ _ _ => rfl) hn (S.below_card_le _)
  have hblocks := (h.unmarked hp).total_run (fun _ _ => 1) (fun _ _ _ => rfl) hn (S.below_card_le _)
  rw [Finset.sum_const, smul_eq_mul, mul_one] at hblocks
  refine ⟨.of_run (fun i j hij => tallocTotalSize_le hij) (n := S.live.card + 1) ?_,
    .of_run (fun i j hij => total_le hij hij) hblocks⟩
  have hcontext : (if p = 0 then k.nullContext else p) = k.context p := rfl
  unfold tallocTotalSize
  rw [Faulty.bind_run nullContext_run]
  simp only [hcontext]
  rw [if_neg (h.wf.ne_zero hp)]
  exact hsize

theorem totals_demo : Faulty.Ends (fun n => tallocTotalSize n 8) demoHeap 52 demoHeap ∧
    Faulty.Ends (fun n => totalBlocks n 8) demoHeap 2 demoHeap := by
  have htotals := demo_stands.totals (p := 8) (show 8 ∈ demoShape.live by decide)
  have hcontext : demoHeap.context 8 = 8 := rfl
  rw [hcontext, demo_below_eq] at htotals
  exact htotals

/-- A report has one line for each chunk that is shown, and changes nothing. -/
theorem Stands.report (h : Stands k S) (hp : k.context p ∈ S.live)
    (hn : ¬ S.IsHandle (k.context p)) (d : Nat) (max : Int) :
    ∃ lines, Faulty.Ends (fun n => tallocReportDepthFile n p d max) k lines k ∧
      (lines : Multiset Line) = S.lines k max d (k.context p) := by
  obtain ⟨lines, hrun, hlines⟩ :
    ∃ lines, reportDepth (S.live.card + 1) max (S.live.card + 1) (k.context p) d k =
      .ok (lines, k) ∧ (lines : Multiset Line) = S.lines k max d (k.context p) :=
    (h.unmarked hp).report_run hn (Nat.lt_succ_self _) (S.below_card_le _)
  refine ⟨lines, .of_run (fun i j hij => tallocReportDepthFile_le hij) (n := S.live.card + 1) ?_,
    hlines⟩
  have hcontext : (if p = 0 then k.nullContext else p) = k.context p := rfl
  unfold tallocReportDepthFile
  rw [Faulty.bind_run nullContext_run]
  simp only [hcontext]
  rw [if_neg (h.wf.ne_zero hp)]
  exact hrun

theorem report_demo :
    ∃ lines, Faulty.Ends (fun n => tallocReportDepthFile n 24 0 (-1)) demoHeap lines demoHeap ∧
    (lines : Multiset Line) = demoShape.lines demoHeap (-1) 0 24 :=
  demo_stands.report (p := 24) (show 24 ∈ demoShape.live by decide)
    (fun ⟨_, hh⟩ => absurd (demo_refs hh).1 (by decide)) 0 (-1)

/-- The name of a chunk that is no handle is compared. -/
theorem Rep.nameIs_run (h : Rep k S) (hc : c ∈ S.live) (hn : ¬ S.IsHandle c) (name : String) :
    nameIs c name k = .ok (decide (k.name c = .str name), k) := by
  unfold nameIs
  rw [Faulty.bind_run (load_run (h.tree.alive hc))]
  cases hname : k.name c with
  | null => rfl
  | reference => exact absurd ((h.named c hc).1 hname) hn
  | str s =>
    simp only [Name.str.injEq]
    rfl

/-- From a handle the search by name reads at the address 1. -/
theorem Stands.byname_handle (h : Stands k S) (hc : c ∈ S.live) (hh : S.IsHandle c) (n : Nat)
    (name : String) : tallocFindParentByname (n + 1) c name k = .error (.access 1) := by
  have hname : nameIs c name k = .error (.access 1) := by
    unfold nameIs
    rw [Faulty.bind_run (load_run (h.rep.tree.alive hc)), (h.rep.named c hc).2 hh]
    rfl
  unfold tallocFindParentByname
  rw [if_neg (h.wf.ne_zero hc), Faulty.bind_run (chunk_run (h.rep.tree.alive hc))]
  apply Faulty.rounds_error
  beta_reduce
  rw [if_neg (h.wf.ne_zero hc)]
  exact Faulty.bind_error hname

open Classical in
/-- `talloc_is_parent` decides whether a context is above a chunk, and
    `talloc_find_parent_byname` finds the nearest such context of that name from a chunk that
    is no handle. -/
theorem Stands.parents (h : Stands k S) (hc : c ∈ S.live) (p : Nat) (name : String) :
    Faulty.Ends (fun n => tallocIsParent n c p) k (decide (ReflTransGen S.Over p c)) k ∧
      (¬ S.IsHandle c → ∃ f, Faulty.Ends (fun n => tallocFindParentByname n c name) k f k ∧
        ((f = 0 ∧ ∀ a, ReflTransGen S.Over a c → k.name a ≠ .str name) ∨
          (k.name f = .str name ∧ ReflTransGen S.Over f c ∧
            ∀ a, ReflTransGen S.Over a c → k.name a = .str name → ReflTransGen S.Over a f))) := by
  have hlt : S.live.card < S.live.card + 1 := Nat.lt_succ_self _
  refine ⟨.of_run (fun i j hij => tallocIsParent_le hij) (h.rep.tree.isParent_run h.wf hc hlt), ?_⟩
  intro hn
  have htest : ∀ d ∈ S.live, ReflTransGen S.Over d c →
      nameIs d name k = .ok (decide (k.name d = .str name), k) := by
    intro d hd hdc
    exact h.rep.nameIs_run hd (h.wf.not_handle_above hn hdc) name
  obtain ⟨f, hrun, hf⟩ := h.rep.tree.climb_run h.wf hc hlt _ htest
  refine ⟨f, .of_run (fun i j hij => tallocFindParentByname_le hij) (n := S.live.card + 1) ?_, ?_⟩
  · unfold tallocFindParentByname
    rw [if_neg (h.wf.ne_zero hc), Faulty.bind_run (chunk_run (h.rep.tree.alive hc))]
    exact hrun
  · rcases hf with ⟨hzero, hnone⟩ | ⟨-, hname, hfc, hnearest⟩
    · left
      exact ⟨hzero, fun a ha => by simpa using hnone a ha⟩
    · right
      exact ⟨by simpa using hname, hfc, fun a ha hname => hnearest a ha (by simpa using hname)⟩

theorem parents_demo :
    ∃ f, Faulty.Ends (fun n => tallocFindParentByname n 16 "user") demoHeap f demoHeap ∧
      f ≠ 0 := by
  obtain ⟨-, hbyname⟩ := demo_stands.parents (show 16 ∈ demoShape.live by decide) 8 "user"
  have hn : ¬ demoShape.IsHandle 16 := fun ⟨_, hh⟩ => absurd (demo_refs hh).1 (by decide)
  obtain ⟨f, hrun, hf⟩ := hbyname hn
  refine ⟨f, hrun, ?_⟩
  rcases hf with ⟨-, hnone⟩ | ⟨hname, -, -⟩
  · exact absurd rfl (hnone 8 (.single ⟨by decide, by decide, rfl⟩))
  · rintro rfl
    exact absurd hname (by decide)

end Talloc
end AnekVideo
