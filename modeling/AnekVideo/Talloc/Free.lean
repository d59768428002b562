/-
  AnekVideo.Talloc.Free

  `_talloc_free` on a memory does what `Frees` says of the forest it stands for.

  The nesting of the calls is bounded by the chunks that are not being freed, the rounds of
  a loop by the chunks below the one it is about.
-/
import AnekVideo.Talloc.Rep

namespace AnekVideo
namespace Talloc

open Interact Linked Relation

variable {D : Outcomes} {k k' : Heap} {S S' : Shape} {c d p q x null : Nat}
    {answer : Nat → Bool → Prop}

/-! ## Destructors -/

/-- The destructor of `c` may answer `b`, that is, refuse for `true`. -/
def Answers (D : Outcomes) (k : Heap) (c : Nat) (b : Bool) : Prop :=
  match k.destructor c with
  | .user d => ∃ i, decide (D i d c = -1) = b
  | _ => b = false

/-- A destructor that is not talloc's own. -/
def Destructor.isUser : Destructor → Bool
  | .user _ => true
  | _ => false

/-- Those of `l` that have such a destructor, the latest first. -/
def asked (k : Heap) (l : List Nat) : List Nat :=
  (l.filter fun c => (k.destructor c).isUser).reverse

theorem asked_append (k : Heap) (l l' : List Nat) :
    asked k (l ++ l') = asked k l' ++ asked k l := by
  unfold asked
  rw [List.filter_append, List.reverse_append]

theorem asked_congr {l : List Nat} (h : ∀ c ∈ l, k'.destructor c = k.destructor c) :
    asked k' l = asked k l := by
  unfold asked
  congr 1
  exact List.filter_congr fun c hc => by rw [h c hc]

/-- The part of `_talloc_free` that runs the destructor, for a chunk that is no handle. -/
theorem Rep.destruct_run (h : Rep k S) (hp : p ∈ S.live) (hn : ¬ S.IsHandle p) :
    ∃ b des, destruct D p k = .ok (b, { k with destructor := des, ran := asked k [p] ++ k.ran }) ∧
      (∀ c, c ≠ p → des c = k.destructor c) ∧ Answers D k p b ∧
      (b = true → des = k.destructor) ∧ (b = false → des p = .none) := by
  have hlive := h.tree.alive hp
  unfold destruct
  rw [Faulty.bind_run (load_run hlive)]
  cases hd : k.destructor p with
  | none =>
    have hasked : asked k [p] = [] := by simp [asked, hd, Destructor.isUser]
    rw [hasked]
    exact ⟨false, k.destructor, rfl, fun _ _ => rfl, by rw [Answers, hd], fun _ => rfl, fun _ => hd⟩
  | running => exact absurd hd (h.idle p hp)
  | tallocReferenceDestructor => exact absurd ((h.handle p hp).1 hd) hn
  | user d =>
    have hasked : asked k [p] = [p] := by simp [asked, hd, Destructor.isUser]
    have hlive' : ({ k.setDestructor p .running with ran := p :: k.ran } : Heap).live p = true :=
      hlive
    have hrun : (Destructor.user d).run D p (k.setDestructor p .running) =
        .ok (D k.ran.length d p, { k.setDestructor p .running with ran := p :: k.ran }) := rfl
    have hback : ∀ e, Function.update (Function.update k.destructor p .running) p e =
        Function.update k.destructor p e := fun e => Function.update_idem ..
    rw [hasked]
    by_cases hr : D k.ran.length d p = -1
    · refine ⟨true, k.destructor, ?_, fun _ _ => rfl, ?_, fun _ => rfl,
        fun hb => absurd hb.symm Bool.false_ne_true⟩
      swap
      · rw [Answers, hd]
        exact ⟨_, decide_eq_true hr⟩
      refine (Faulty.bind_run (store_run hlive)).trans ((Faulty.bind_run hrun).trans ?_)
      rw [if_pos hr, Faulty.bind_run (store_run hlive')]
      have hsame : Function.update (Function.update k.destructor p .running) p (.user d) =
          k.destructor := by
        rw [hback, ← hd, Function.update_eq_self]
      exact congrArg (fun des => Except.ok (true,
        ({ k with destructor := des, ran := p :: k.ran } : Heap))) hsame
    · refine ⟨false, Function.update k.destructor p .none, ?_,
        fun c hc => Function.update_of_ne hc .., ?_,
        fun hb => absurd hb Bool.false_ne_true, fun _ => Function.update_self ..⟩
      swap
      · rw [Answers, hd]
        exact ⟨_, decide_eq_false hr⟩
      refine (Faulty.bind_run (store_run hlive)).trans ((Faulty.bind_run hrun).trans ?_)
      rw [if_neg hr, Faulty.bind_run (store_run hlive')]
      exact congrArg (fun des => Except.ok (false,
        ({ k with destructor := des, ran := p :: k.ran } : Heap))) (hback _)

/-- The destructor of a chunk that is no handle does not matter to the forest. -/
theorem Rep.ran (h : Rep k S) (hn : ¬ S.IsHandle p) {des : Nat → Destructor}
    (hdes : ∀ c, c ≠ p → des c = k.destructor c)
    (hp : des p ≠ .tallocReferenceDestructor ∧ des p ≠ .running) (ran : List Nat) :
    Rep { k with destructor := des, ran := ran } S where
  tree := h.tree.congr rfl rfl rfl rfl rfl
  refs := h.refs.congr rfl rfl rfl rfl subset_rfl rfl
  handle := fun c hc => by
    change des c = _ ↔ _
    by_cases hcp : c = p
    · exact hcp ▸ iff_of_false hp.1 hn
    · rw [hdes c hcp]
      exact h.handle c hc
  named := h.named
  idle := fun c hc => by
    change des c ≠ _
    by_cases hcp : c = p
    · exact hcp ▸ hp.2
    · rw [hdes c hcp]
      exact h.idle c hc
  loop := h.loop
  null := h.null

/-! ## Taking the chunk out, and releasing it -/

/-- No loose chunk finds its parent through what is not loose and below all that are. -/
theorem Tree.trail_apart (h : Tree k S) (hS : S.Wf) (hq : q ∈ S.live) (hl : q ∉ S.loose)
    (hd : d ∈ S.loose) (hdq : ReflTransGen S.Over d q) : k.prev .chunk d ≠ q := by
  rintro rfl
  rcases h.trail d hd with ⟨h0, -⟩ | hkid
  · exact hS.zero (h0 ▸ hq)
  · have hne : d ≠ k.prev .chunk d := fun heq => hl (heq ▸ hd)
    have hpath : TransGen S.Over d (k.prev .chunk d) :=
      (reflTransGen_iff_eq_or_transGen.1 hdq).resolve_left hne.symm
    obtain ⟨y, hdy, hy⟩ := TransGen.tail'_iff.1 hpath
    obtain ⟨h0, -, -, hup⟩ := (hS.kids _ _).1 hkid
    have hyd : y = S.up d := hy.2.2.symm.trans hup
    exact hS.acyclic.not_below (.single ⟨h0, hS.loose hd, rfl⟩) (hyd ▸ hdy)

theorem Rep.takeOut (h : Rep k S) (hS : S.Wf) (hp : p ∈ S.live) (hl : p ∉ S.loose)
    (hnull : p ≠ k.nullContext) (htrail : ∀ d ∈ S.loose, k.prev .chunk d ≠ p) :
    Rep ((k.unlink p).setLoop p true) (S.takeOut p) where
  tree := (h.tree.takeOut hS hp hl htrail).congr rfl rfl rfl rfl rfl
  refs := h.refs.congr Retreed.unlink.next Retreed.unlink.prev Retreed.unlink.refs
    Retreed.unlink.ptr subset_rfl rfl
  handle := fun c hc => by
    change (k.unlink p).destructor c = _ ↔ _
    rw [Retreed.unlink.destructor]
    exact h.handle c hc
  named := fun c hc => by
    change (k.unlink p).name c = _ ↔ _
    rw [Retreed.unlink.name]
    exact h.named c hc
  idle := fun c hc => by
    change (k.unlink p).destructor c ≠ _
    rw [Retreed.unlink.destructor]
    exact h.idle c hc
  loop := fun c hc => by
    change Function.update (k.unlink p).loop p true c = true ↔ c ∈ insert p S.loose
    rw [Retreed.unlink.loop, Finset.mem_insert, ← h.loop c hc, Function.update_apply]
    split <;> rename_i hcp <;> simp [hcp]
  null := by
    change (S.takeOut p).NullOk (k.unlink p).nullContext
    rw [Retreed.unlink.nullContext]
    exact h.null.imp id fun hn => ⟨hn.1, fun hmem =>
      (Finset.mem_insert.1 hmem).elim (fun heq => hnull heq.symm) hn.2.1, hn.2.2⟩

theorem Rep.release (h : Rep k S) (hnull : p ≠ k.nullContext) :
    Rep (k.setLive p false) (S.release p) where
  tree := h.tree.release
  refs := h.refs.congr rfl rfl rfl rfl (Finset.erase_subset ..) rfl
  handle := fun c hc => h.handle c (Finset.mem_of_mem_erase hc)
  named := fun c hc => h.named c (Finset.mem_of_mem_erase hc)
  idle := fun c hc => h.idle c (Finset.mem_of_mem_erase hc)
  loop := fun c hc => by
    obtain ⟨hcp, hcl⟩ := Finset.mem_erase.1 hc
    change k.loop c = true ↔ c ∈ S.loose.erase p
    rw [h.loop c hcl, Finset.mem_erase, and_iff_right hcp]
  null := h.null.imp id fun hn => ⟨Finset.mem_erase.2 ⟨hnull.symm, hn.1⟩,
    fun hmem => hn.2.1 (Finset.mem_of_mem_erase hmem), hn.2.2⟩

/-! ## The loop over the children -/

/-- No chunk that is being freed stands next to a reference to something below `p`. -/
def Clear (k : Heap) (S : Shape) (p : Nat) : Prop :=
  ∀ d, d ∈ S.loose ∨ d = p → ∀ c, ReflTransGen S.Over p c → k.prev .chunk d ∉ S.refs c

/-- `_talloc_free`, its calls nested at most `depth` deep, keeps to `Frees`. -/
def FreeOk (D : Outcomes) (answer : Nat → Bool → Prop) (n depth : Nat) : Prop :=
  ∀ (k : Heap) (S : Shape) (p : Nat), Rep k S → S.Ready k.nullContext answer p →
    p ∉ S.loose → Clear k S p →
    (∀ c ∈ S.live, ∀ b, Answers D k c b → answer c b) →
    (S.live \ S.loose).card < depth → S.live.card < n →
    ∃ b l S' k', tallocFree D n depth p k = .ok (if b then 0 else -1, k') ∧
      S.Frees k.nullContext answer (.free p) b l S' ∧ Rep k' S' ∧ Spares k k' S' ∧
      k'.ran = asked k l ++ k.ran

theorem Rep.referrer_run (h : Rep k S) (hS : S.Wf) (hc : c ∈ S.live) {n : Nat}
    (hn : S.live.card < n) :
    referrer n c k = .ok (S.referrer k.nullContext c, k) := by
  unfold referrer
  rw [Faulty.bind_run nullContext_run, Faulty.bind_run (load_run (h.tree.alive hc))]
  unfold Shape.referrer
  cases hr : S.refs c with
  | nil =>
    rw [(h.refs.refs_eq_zero hc).2 hr]
    rfl
  | cons a L =>
    have ha : a ∈ S.refs c := hr ▸ List.mem_cons_self ..
    have hal := (hS.refs c a ha).2.1
    rw [h.refs.refs_eq hc hr, if_pos (hS.ne_zero hal),
      Faulty.bind_run (h.tree.parentChunk_run hS hal hn)]
    by_cases h0 : S.up a = 0
    · simp only [h0, ne_eq, not_true_eq_false, if_false, if_true]
      rfl
    · simp only [h0, ne_eq, not_false_eq_true, if_true, if_false]
      rfl

theorem Spares.answers (h : Spares k k' S') (hc : c ∈ S'.live) :
    Answers D k' c = Answers D k c := by
  unfold Answers
  rw [h.destructor c hc]

theorem Clear.frame (h : Clear k S p) (hl : p ∈ S.loose) (hk : Spares k k' S')
    (hF : S.Frame null p S') :
    Clear k' S' p := by
  intro d hd c hc hmem
  have hd' : d ∈ S'.loose := hd.elim id fun heq => heq ▸ hF.loose ▸ hl
  rw [hk.prev d hd'] at hmem
  exact h d (.inl (hF.loose ▸ hd')) c (hF.below hc) ((hF.refs c).subset hmem)

/-- The first child of a loose chunk stands next to nothing before it. -/
theorem Clear.kid (h : Clear k S p) (ht : Tree k S) (hS : S.Wf) (hp : p ∈ S.live) {L : List Nat}
    (hk : S.kids p = c :: L) : Clear k S c := by
  have hpc : S.Over p c := hS.edge (hk ▸ List.mem_cons_self ..)
  rintro d (hd | rfl) e hce
  · exact h d (.inl hd) e (hce.head hpc)
  · have hchain := ht.kids p hp
    rw [hk] at hchain
    rw [hchain.prev_head]
    exact Refs.zero_notMem hS

theorem context_heir (k : Heap) (S : Shape) (p c : Nat) :
    k.context (S.heir k.nullContext p c) = S.heir k.nullContext p c := by
  unfold Heap.context
  split
  · rename_i h0
    rw [h0]
    unfold Shape.heir at h0
    split at h0
    · rename_i hcond
      exact absurd h0 hcond.2
    · unfold Shape.referrer at h0
      split at h0
      · exact h0
      · split at h0
        · exact h0
        · rename_i hup
          exact absurd h0 hup
  · rfl

/-- One round of the loop over the children of `p`. -/
theorem FreeOk.round {n depth : Nat} (ih : FreeOk D answer n depth) (h : Rep k S)
    (hR : S.Ready k.nullContext answer p) (hl : p ∈ S.loose) (hclear : Clear k S p)
    (hst : ∀ c ∈ S.live, ∀ b, Answers D k c b → answer c b)
    (hdepth : (S.live \ S.loose).card < depth) (hn : S.live.card < n) {L : List Nat}
    (hk : S.kids p = c :: L) :
    ∃ l S' k', freeChild (tallocFree D n depth) n p k = .ok (.inl (), k') ∧
      (∀ l' S'', S'.Frees k.nullContext answer (.empty p) true l' S'' →
        S.Frees k.nullContext answer (.empty p) true (l ++ l') S'') ∧
      Rep k' S' ∧ Spares k k' S' ∧ k'.ran = asked k l ++ k.ran ∧
        S.Frame k.nullContext p S' ∧
      S'.Ready k.nullContext answer p ∧
      (below S'.Over S'.live p).card < (below S.Over S.live p).card := by
  have hc : c ∈ S.kids p := hk ▸ List.mem_cons_self ..
  have hRc := hR.kid hc
  have hcl : c ∉ S.loose := ((hR.wf.kids p c).1 hc).2.2.1
  have hpc : TransGen S.Over p c := .single (hR.wf.edge hc)
  have hchild : k.child p = c := by
    have hchain := h.tree.kids p hR.live
    rw [hk] at hchain
    exact hchain.1
  -- the call for the child, nested one deeper
  obtain ⟨b, l, S₁, k₁, hrun, hF, hrep, hspares, hran⟩ :=
    ih k S c h hRc hcl (hclear.kid h.tree hR.wf hR.live hk) hst hdepth hn
  obtain ⟨-, hwf, hframe, hlive⟩ := hF.post ⟨hRc, hcl⟩
  have hl₁ : p ∈ S₁.loose := hframe.loose ▸ hl
  have hR₁ := hR.frame hwf hpc hframe (hwf.loose hl₁)
  unfold freeChild
  rw [Faulty.bind_run (load_run (h.tree.alive hR.live)), hchild, if_neg (hR.wf.ne_zero hRc.live),
    Faulty.bind_run (h.referrer_run hR.wf hRc.live hn), Faulty.bind_run hrun]
  cases b with
  | true =>
    refine ⟨l, S₁, k₁, rfl, fun l' S'' hF' => .child hk hF hF', hrep, hspares, hran,
      hframe.mono hpc.to_reflTransGen, hR₁, ?_⟩
    exact (hframe.mono hpc.to_reflTransGen).below_lt hRc.live hpc.to_reflTransGen
      (.inl (hlive.1 rfl))
  | false =>
    -- a child that is still there is stolen to the owner that was looked up before the call
    have hc₁ : c ∈ S₁.live := by_contra fun hdead => Bool.false_ne_true (hlive.2 hdead)
    obtain ⟨hwf', hframe'⟩ := hR.kept hc hF hframe hwf hc₁
    have hlt := hR.kept_lt hc hF hframe'
    have hlive' : (S₁.steal c (S.heir k.nullContext p c)).live = S₁.live := rfl
    have hloose' : (S₁.steal c (S.heir k.nullContext p c)).loose = S₁.loose :=
      hframe'.loose.trans hframe.loose.symm
    have hc₁l : c ∉ S₁.loose := hframe.loose ▸ hcl
    -- the owner that is chosen
    have hup : S₁.up p = S.up p := hframe.up p (hR.wf.acyclic.not_below hpc)
    have hcontext : k₁.context (S.heir k.nullContext p c) = S.heir k.nullContext p c := by
      unfold Heap.context
      rw [hspares.null]
      exact context_heir k S p c
    -- it is a chunk or nothing, and not the child
    have hx := hwf'.up c hc₁
    have hxc := hwf'.up_ne (c := c) hc₁
    rw [Shape.steal_up_self] at hx hxc
    have hup' : S₁.up = S.up := by
      rcases (hRc.of_false hF).2 with ⟨-, -, rfl⟩ | ⟨a, L', -, -, rfl⟩ <;> rfl
    have hpc₁ : S₁.Over p c :=
      ⟨hR.wf.ne_zero hR.live, hc₁, (congrFun hup' c).trans (hR.wf.up_of_kid hc)⟩
    have htrail : ∀ d ∈ S₁.loose, k₁.prev .chunk d ≠ c := fun d hd =>
      hrep.tree.trail_apart hwf hc₁ hc₁l hd ((hR₁.loose d hd).tail hpc₁)
    obtain ⟨k₂, hsteal, hrep', hspares', htree⟩ :=
      hrep.steal_run (x := S.heir k.nullContext p c) hwf hc₁ hc₁l
      (fun hh => (hRc.of_false hF).1 (hframe.isHandle hh)) (hspares.null ▸ hRc.ne) htrail
      (hcontext.symm ▸ hx) (hcontext.symm ▸ hxc.symm)
    rw [hcontext] at hrep' hspares'
    refine ⟨l, _, k₂, ?_, fun l' S'' hF' => .kept hk hF hF', hrep',
      hspares.trans hspares' subset_rfl hloose'.le, ?_,
      hframe'.mono hpc.to_reflTransGen, hR.frame hwf' hpc hframe' (hlive' ▸ hR₁.live), hlt⟩
    · rw [if_neg Bool.false_ne_true, if_pos rfl, Faulty.bind_run nullContext_run, hspares.null]
      by_cases hnull : S.referrer k.nullContext c = k.nullContext
      · have hheir : (if S.up p ≠ 0 then S.up p else S.referrer k.nullContext c) =
            S.heir k.nullContext p c := by
          unfold Shape.heir
          simp only [hnull, true_and]
        rw [if_pos hnull, Faulty.bind_run (hrep.tree.parentChunk_run hwf hR₁.live
          (lt_of_le_of_lt (Finset.card_le_card hframe.live) hn)), hup, hheir,
            Faulty.bind_run hsteal]
        rfl
      · have hheir : S.referrer k.nullContext c = S.heir k.nullContext p c := by
          unfold Shape.heir
          rw [if_neg fun hcond => hnull hcond.1]
        rw [if_neg hnull, hheir, Faulty.bind_run hsteal]
        rfl
    · rw [htree.ran, hran]

/-- The loop over the children of a loose chunk leaves it without any. -/
theorem FreeOk.rounds {n depth : Nat} (ih : FreeOk D answer n depth) (h : Rep k S)
    (hR : S.Ready k.nullContext answer p) (hl : p ∈ S.loose) (hr : S.refs p = [])
    (hclear : Clear k S p) (hst : ∀ c ∈ S.live, ∀ b, Answers D k c b → answer c b)
    (hdepth : (S.live \ S.loose).card < depth) (hn : S.live.card < n) {m : Nat}
    (hm : (below S.Over S.live p).card < m) :
    ∃ l S' k', Faulty.rounds .stuck (fun _ => freeChild (tallocFree D n depth) n p) m () k =
      .ok ((), k') ∧
      S.Frees k.nullContext answer (.empty p) true l S' ∧ Rep k' S' ∧ Spares k k' S' ∧
      k'.ran = asked k l ++ k.ran := by
  induction m generalizing k S with
  | zero => exact absurd hm (Nat.not_lt_zero _)
  | succ m ihm =>
    have hlive := h.tree.alive hR.live
    cases hk : S.kids p with
    | nil =>
      have h0 : k.child p = 0 := ((h.tree.kids p hR.live).eq_nil_iff).1 hk
      refine ⟨[], S, k, Faulty.rounds_done (freeChild_done hlive h0), .done hk, h, ?_, rfl⟩
      exact .retree .refl fun _ _ => rfl
    | cons c L =>
      obtain ⟨l, S₁, k₁, hrun, hF, hrep, hspares, hran, hframe, hR₁, hlt⟩ :=
        ih.round h hR hl hclear hst hdepth hn hk
      -- what is below `p` has become less, so the rounds are enough for the rest
      have hsub : S₁.live \ S₁.loose ⊆ S.live \ S.loose :=
        hframe.loose ▸ Finset.sdiff_subset_sdiff hframe.live subset_rfl
      obtain ⟨l', S', k', hrun', hF', hrep', hspares', hran'⟩ :=
        ihm hrep (hspares.null ▸ hR₁) (hframe.loose ▸ hl)
        (List.sublist_nil.1 (hr ▸ hframe.refs p)) (hclear.frame hl hspares hframe)
        (fun c hc b hb => hst c (hframe.live hc) b ((congrFun (hspares.answers hc) b).mp hb))
        (lt_of_le_of_lt (Finset.card_le_card hsub) hdepth)
        (lt_of_le_of_lt (Finset.card_le_card hframe.live) hn) (by omega)
      rw [hspares.null] at hF'
      obtain ⟨hasked, -, hframe', -⟩ :=
        hF'.post ⟨hR₁, hframe.loose ▸ hl, List.sublist_nil.1 (hr ▸ hframe.refs p)⟩
      refine ⟨l ++ l', S', k', (Faulty.rounds_again hrun).trans hrun', hF l' S' hF', hrep',
        hspares.trans hspares' hframe'.live hframe'.loose.le, ?_⟩
      rw [hran', hran, asked_append, asked_congr fun c hc => hspares.destructor c (hasked c hc).1,
        List.append_assoc]

/-! ## `_talloc_free` -/

theorem Heap.dropped_ran {y : Nat} : (k.dropped y c).ran = k.ran := by
  rw [Heap.dropped]
  exact Retreed.unlink.ran

/-- A chunk with references loses the newest. -/
theorem FreeOk.referenced {n depth : Nat} (ih : FreeOk D answer n depth) (h : Rep k S)
    (hR : S.Ready k.nullContext answer p) (hl : p ∉ S.loose) (hclear : Clear k S p)
    (hst : ∀ c ∈ S.live, ∀ b, Answers D k c b → answer c b)
    (hdepth : (S.live \ S.loose).card < depth + 1) (hn : S.live.card < n) {a : Nat} {L : List Nat}
    (hr : S.refs p = a :: L) :
    ∃ b l S' k', tallocFree D n (depth + 1) p k = .ok (if b then 0 else -1, k') ∧
      S.Frees k.nullContext answer (.free p) b l S' ∧ Rep k' S' ∧ Spares k k' S' ∧
      k'.ran = asked k l ++ k.ran := by
  have hlive := h.tree.alive hR.live
  have ha : a ∈ S.refs p := hr ▸ List.mem_cons_self ..
  obtain ⟨-, hal, hao⟩ := hR.wf.refs p a ha
  have hpa : p ≠ a := by
    rintro rfl
    rw [(hR.wf.leaf p p ha).1] at ha
    exact List.not_mem_nil ha
  have htrail : ∀ d ∈ S.loose, k.prev .chunk d ≠ a := fun d hd heq =>
    hclear d (.inl hd) p .refl (heq ▸ ha)
  obtain ⟨hrep, hspares⟩ := h.dropped hR.wf ha htrail
  have hpmem : p ∈ S.live \ S.loose := Finset.mem_sdiff.2 ⟨hR.live, hl⟩
  have hamem : a ∈ (S.live \ S.loose).erase p :=
    Finset.mem_erase.2 ⟨hpa.symm, Finset.mem_sdiff.2 ⟨hal, hao⟩⟩
  -- the bounds leave room for two nested calls: for the handle, and for `p` once more
  have hcard := Finset.card_pos.2 ⟨a, hamem⟩
  have hcard' := Finset.card_erase_of_mem hpmem
  obtain ⟨n, rfl⟩ : ∃ m, n = m + 1 := ⟨n - 1, by omega⟩
  obtain ⟨depth, rfl⟩ : ∃ m, depth = m + 1 := ⟨depth - 1, by omega⟩
  rw [tallocFree, if_neg (hR.wf.ne_zero hR.live), Faulty.bind_run (chunk_run hlive),
    Faulty.bind_run (load_run hlive),
    h.refs.refs_eq hR.live hr, if_pos (hR.wf.ne_zero hal),
    Faulty.bind_run (h.tree.isParent_run hR.wf hal hn),
    Faulty.bind_run (h.free_handle hR.wf ha n depth)]
  by_cases hc : ReflTransGen S.Over p a
  · -- the reference hung below `p` itself, and `p` is freed once more
    obtain ⟨hR', -, -⟩ := hR.drop hr hc
    have hframe : S.Frame k.nullContext p (S.drop a p) := .drop hR.wf ha (.inl .refl)
    have hprev : ∀ d, d ∈ S.loose ∨ d = p →
        (k.dropped a p).prev .chunk d = k.prev .chunk d := by
      rintro d (hd | rfl)
      · exact hspares.prev d (hframe.loose ▸ hd)
      · refine h.dropped_prev hR.wf ha (fun hkid => ?_) hpa
        -- then `a` would be a sibling of `d`, and below it
        obtain ⟨h0, -, -, hup⟩ := (hR.wf.kids _ _).1 hkid
        rcases hc.cases_tail with heq | ⟨y, hdy, hy⟩
        · exact hpa heq.symm
        · have hyd : y = S.up d := hy.2.2.symm.trans hup.symm
          exact hR.wf.acyclic.not_below (.single ⟨hup.symm ▸ h0, hR.live, rfl⟩) (hyd ▸ hdy)
    have hclear' : Clear (k.dropped a p) (S.drop a p) p := fun d hd c hc' hmem => by
      rw [hprev d (hframe.loose ▸ hd)] at hmem
      exact hclear d (hframe.loose ▸ hd) c (hframe.below hc') ((hframe.refs c).subset hmem)
    -- the handle has gone, so there is less left than before
    have hdepth' : ((S.drop a p).live \ (S.drop a p).loose).card < depth + 1 := by
      have hsub : (S.drop a p).live \ (S.drop a p).loose ⊆ (S.live \ S.loose).erase a := by
        rw [hframe.loose]
        intro c hc'
        obtain ⟨hcl, hco⟩ := Finset.mem_sdiff.1 hc'
        obtain ⟨hca, hcl⟩ := Finset.mem_erase.1 hcl
        exact Finset.mem_erase.2 ⟨hca, Finset.mem_sdiff.2 ⟨hcl, hco⟩⟩
      have hle := Finset.card_le_card hsub
      rw [Finset.card_erase_of_mem (Finset.mem_sdiff.2 ⟨hal, hao⟩)] at hle
      omega
    obtain ⟨b, l, S', k', hrun, hF, hrep', hspares', hran⟩ :=
      ih _ _ p hrep (hspares.null ▸ hR') (hframe.loose ▸ hl) hclear'
      (fun c hc' b hb => hst c (hframe.live hc') b ((congrFun (hspares.answers hc') b).mp hb))
        hdepth'
      (lt_of_le_of_lt (Finset.card_le_card hframe.live) hn)
    rw [hspares.null] at hF
    obtain ⟨hasked, -, hframe', -⟩ := hF.post ⟨hR', hframe.loose ▸ hl⟩
    refine ⟨b, l, S', k', ?_, .again hr hc hF, hrep',
      hspares.trans hspares' hframe'.live hframe'.loose.le, ?_⟩
    · simp only [hc, decide_true, if_true]
      exact hrun
    · rw [hran, Heap.dropped_ran, asked_congr fun c hc' => hspares.destructor c (hasked c hc').1]
  · -- it hung elsewhere, and `p` stays
    refine ⟨false, [], S.drop a p, k.dropped a p, ?_, .held hr hc, hrep, hspares,
      Heap.dropped_ran⟩
    simp only [hc, decide_false, Bool.false_eq_true, if_false]
    rfl

/-- A chunk whose destructor has agreed is taken out of its list and marked. -/
theorem Rep.vacate (h : Rep k S) (hR : S.Ready k.nullContext answer p) (hl : p ∉ S.loose)
    (hh : ¬ S.IsHandle p) {des : Nat → Destructor}
    (hdes : ∀ c, c ≠ p → des c = k.destructor c) (hnone : des p = .none) (ran : List Nat) :
    ∃ k₁ k₂, unlink p { k with destructor := des, ran := ran } = .ok ((), k₁) ∧
      store p (·.setLoop p true) k₁ = .ok ((), k₂) ∧ Rep k₂ (S.takeOut p) ∧
      k₂.nullContext = k.nullContext ∧
      k₂.destructor = des ∧ k₂.ran = ran ∧ k₂.name = k.name ∧ k₂.size = k.size ∧
      -- taking the chunk out changes no link that a chunk being freed keeps
      ∀ d, d ∈ S.loose ∨ d = p → k₂.prev .chunk d = k.prev .chunk d := by
  have hrep := h.ran hh hdes (hnone ▸ ⟨Destructor.noConfusion, Destructor.noConfusion⟩) ran
  have htrail : ∀ d ∈ S.loose, ({ k with destructor := des, ran := ran } : Heap).prev .chunk
      d ≠ p := fun d hd =>
    h.tree.trail_apart hR.wf hR.live hl hd (hR.loose d hd)
  have hunlink := hrep.tree.unlink_run hR.wf hR.live hl
  have hlive : (({ k with destructor := des, ran := ran } : Heap).unlink p).live p = true := by
    rw [Retreed.unlink.live]
    exact hrep.tree.alive hR.live
  refine ⟨_, _, hunlink, store_run hlive, hrep.takeOut hR.wf hR.live hl hR.ne htrail,
    Retreed.unlink.nullContext,
    Retreed.unlink.destructor, Retreed.unlink.ran, Retreed.unlink.name, Retreed.unlink.size, ?_⟩
  rintro d (hd | rfl)
  · have hne : d ≠ p := by
      rintro rfl
      exact hl hd
    exact (hrep.tree.unlink_apart hR.wf hR.live hl
      (fun hkid => ((hR.wf.kids _ _).1 hkid).2.2.1 hd) hne).2.1
  · exact hrep.tree.unlink_prev_self hR.wf hR.live hl

/-- A chunk without references asks its destructor, and then loses its children. -/
theorem FreeOk.unreferenced {n depth : Nat} (ih : FreeOk D answer n depth) (h : Rep k S)
    (hR : S.Ready k.nullContext answer p) (hl : p ∉ S.loose) (hclear : Clear k S p)
    (hst : ∀ c ∈ S.live, ∀ b, Answers D k c b → answer c b)
    (hdepth : (S.live \ S.loose).card < depth + 1) (hn : S.live.card < n) (hr : S.refs p = [])
    (hh : ¬ S.IsHandle p) :
    ∃ b l S' k', tallocFree D n (depth + 1) p k = .ok (if b then 0 else -1, k') ∧
      S.Frees k.nullContext answer (.free p) b l S' ∧ Rep k' S' ∧ Spares k k' S' ∧
      k'.ran = asked k l ++ k.ran := by
  have hlive := h.tree.alive hR.live
  have hrefs : k.refs p = 0 := (h.refs.refs_eq_zero hR.live).2 hr
  have hloop : k.loop p = false := by
    rw [← Bool.not_eq_true, h.loop p hR.live]
    exact hl
  obtain ⟨b, des, hdestruct, hdes, hanswer, hrefused, hnone⟩ :=
    h.destruct_run (D := D) hR.live hh
  rw [tallocFree, if_neg (hR.wf.ne_zero hR.live), Faulty.bind_run (chunk_run hlive),
    Faulty.bind_run (load_run hlive),
    hrefs, if_neg (not_not.2 rfl), Faulty.bind_run (load_run hlive), hloop,
    if_neg Bool.false_ne_true, Faulty.bind_run hdestruct]
  cases b with
  | true =>
    obtain rfl := hrefused rfl
    exact ⟨false, [p], S, _, rfl, .refused hr hh (hst p hR.live _ hanswer),
      h.ran hh hdes ⟨fun hd => hh ((h.handle p hR.live).1 hd), h.idle p hR.live⟩ _,
      ⟨fun _ _ => rfl, fun _ _ => rfl, fun _ _ => rfl, rfl, fun _ _ => rfl⟩, rfl⟩
  | false =>
    obtain ⟨k₁, k₂, hunlink, hmark, hrep₂, hnull₂, hdes₂, hran₂, hname₂, hsize₂,
      hprev₂⟩ :=
      h.vacate hR hl hh hdes (hnone rfl) (asked k [p] ++ k.ran)
    have hR₂ := hR.takeOut hh
    have hclear₂ : Clear k₂ (S.takeOut p) p := by
      intro d hd c hc
      have hd' : d ∈ S.loose ∨ d = p := hd.elim (fun hd => (Finset.mem_insert.1 hd).symm) .inr
      rw [hprev₂ d hd']
      exact hclear d hd' c hc
    -- only the destructor of `p` has changed, and it would now let `p` go
    have hst₂ : ∀ c ∈ (S.takeOut p).live, ∀ b, Answers D k₂ c b → answer c b := by
      intro c hc b hb
      unfold Answers at hb
      rw [hdes₂] at hb
      by_cases hcp : c = p
      · subst hcp
        rw [hnone rfl] at hb
        obtain rfl : b = false := hb
        exact hst c hc _ hanswer
      · rw [hdes c hcp] at hb
        exact hst c hc b hb
    have hdepth₂ : ((S.takeOut p).live \ (S.takeOut p).loose).card < depth := by
      have hlt := Shape.takeOut_card_lt hR.live hl
      omega
    have hbelow : (below (S.takeOut p).Over (S.takeOut p).live p).card < n :=
      lt_of_le_of_lt (Finset.card_le_card fun _ hc => (mem_below.1 hc).1) hn
    obtain ⟨l, S₃, k₃, hrun, hF, hrep₃, hspares, hran⟩ :=
      ih.rounds hrep₂ (hnull₂ ▸ hR₂) (Finset.mem_insert_self ..) hr
      hclear₂ hst₂ hdepth₂ hn hbelow
    rw [hnull₂] at hF
    obtain ⟨hasked, hwf₃, hframe, -⟩ := hF.post ⟨hR₂, Finset.mem_insert_self .., hr⟩
    -- a marked chunk is not asked again
    have hne : ∀ c ∈ l, c ≠ p := by
      rintro c hc rfl
      exact (hasked c hc).2 (Finset.mem_insert_self ..)
    have hp₃ : p ∈ S₃.live := hwf₃.loose (hframe.loose ▸ Finset.mem_insert_self ..)
    refine ⟨true, p :: l, S₃.release p, k₃.setLive p false, ?_,
      .freed hr hh (hst p hR.live _ hanswer) hF,
      hrep₃.release (hspares.null ▸ hnull₂ ▸ hR.ne), ?_, ?_⟩
    · rw [if_neg Bool.false_ne_true, Faulty.bind_run hunlink, Faulty.bind_run hmark,
        Faulty.bind_run hrun]
      refine (Faulty.bind_run (store_run ?_)).trans rfl
      exact hrep₃.tree.alive hp₃
    · refine ⟨fun c hc => ?_, fun c hc => ?_, fun c hc => ?_, hspares.null.trans hnull₂,
        fun c hc => ?_⟩
      · exact (hspares.name c (Finset.mem_of_mem_erase hc)).trans (congrFun hname₂ c)
      · exact (hspares.size c (Finset.mem_of_mem_erase hc)).trans (congrFun hsize₂ c)
      · obtain ⟨hcp, hcl⟩ := Finset.mem_erase.1 hc
        exact (hspares.destructor c hcl).trans ((congrFun hdes₂ c).trans (hdes c hcp))
      · obtain ⟨hcp, hcl⟩ := Finset.mem_erase.1 hc
        rw [hframe.loose] at hcl
        have hcl' : c ∈ S.loose := Finset.mem_of_mem_insert_of_ne hcl hcp
        rw [← hframe.loose] at hcl
        exact (hspares.prev c hcl).trans (hprev₂ c (.inl hcl'))
    · change k₃.ran = _
      have hsame : asked k₂ l = asked k l := asked_congr fun c hc => by
        rw [hdes₂, hdes c (hne c hc)]
      rw [hran, hran₂, hsame, show p :: l = [p] ++ l from rfl, asked_append, List.append_assoc]

theorem freeOk (D : Outcomes) (answer : Nat → Bool → Prop) (n depth : Nat) :
    FreeOk D answer n depth := by
  induction depth with
  | zero => exact fun k S p _ _ _ _ _ hdepth => absurd hdepth (Nat.not_lt_zero _)
  | succ depth ih =>
    intro k S p h hR hl hclear hst hdepth hn
    by_cases hhandle : S.IsHandle p
    · -- the destructor of a handle takes it out of the list of references
      obtain ⟨c, hc⟩ := hhandle
      have htrail : ∀ d ∈ S.loose, k.prev .chunk d ≠ p := fun d hd =>
        h.tree.trail_apart hR.wf hR.live hl hd (hR.loose d hd)
      obtain ⟨hrep, hspares⟩ := h.dropped hR.wf hc htrail
      obtain ⟨n, rfl⟩ : ∃ m, n = m + 1 := ⟨n - 1, by omega⟩
      exact ⟨true, [], _, _, h.free_handle hR.wf hc n depth, .handle hc, hrep, hspares,
        Heap.dropped_ran⟩
    · cases hr : S.refs p with
      | cons a L => exact ih.referenced h hR hl hclear hst hdepth hn hr
      | nil => exact ih.unreferenced h hR hl hclear hst hdepth hn hr hhandle

end Talloc
end AnekVideo
