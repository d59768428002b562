/-
  AnekVideo.Talloc.Collect

  Exactly what `talloc_free` frees.

  A chunk goes with `p` when its destructor lets it and all its owners go: its parent, and
  the chunks its references hang off.  What stays keeps the owners that stay; what has none
  left, since its destructor refused, comes to the parent of `p`.  None of this depends on
  the order in which the children are visited, though the code looks at one child at a
  time, and only at its newest reference.  Where everything is below `p`, nothing stays.
-/
import AnekVideo.Linked.Owners
import AnekVideo.Talloc.Calls

namespace AnekVideo
namespace Talloc

open Interact Linked Relation

namespace Shape

variable {S S' S₀ : Shape} {a c d h' p x null : Nat} {L l : List Nat}
    {answer : Nat → Bool → Prop}

/-! ## Owners -/

/-- The parent of `c`, then where its references hang, the newest first; 0 for nowhere. -/
def owners (S : Shape) (c : Nat) : List Nat := S.up c :: (S.refs c).map S.up

/-- What goes with `p`; what may refuse does not. -/
def Doomed (S : Shape) (answer : Nat → Bool → Prop) (p : Nat) : Nat → Prop :=
  Linked.Doomed (fun c => c ∈ S.live ∧ ¬ answer c true) S.owners p

/-- Where things come to that nothing else owns when `p` goes. -/
def base (S : Shape) (null p : Nat) : Nat := if S.up p ≠ 0 then S.up p else null

open Classical in
/-- The owners that `c` has left when `p` is gone. -/
noncomputable def heirs (S : Shape) (null : Nat) (answer : Nat → Bool → Prop) (p c : Nat) :
    List Nat :=
  let rest := (S.owners c).filter fun a => ¬ S.Doomed answer p a
  if rest = [] then [S.base null p] else rest

theorem Doomed.below (hS : S.Wf) (hp : p ∈ S.live) (hc : S.Doomed answer p c) :
    ReflTransGen S.Over p c := by
  induction hc with
  | self => exact .refl
  | @owned c hc _ ih =>
    -- all owners of `c` are doomed, its parent among them
    have hup := ih (S.up c) (List.mem_cons_self ..)
    exact hup.tail ⟨hS.ne_zero (live_of_below hp hup), hc.1, rfl⟩

theorem Doomed.live (hS : S.Wf) (hp : p ∈ S.live) (hc : S.Doomed answer p c) : c ∈ S.live :=
  live_of_below hp (hc.below hS hp)

theorem Doomed.willing (hw : ¬ answer p true) (hc : S.Doomed answer p c) : ¬ answer c true := by
  cases hc with
  | self => exact hw
  | owned hc _ => exact hc.2

/-- The parent of `p` stays. -/
theorem not_doomed_up (hS : S.Wf) (hp : p ∈ S.live) : ¬ S.Doomed answer p (S.up p) := by
  intro hd
  have hup := hS.ne_zero (hd.live hS hp)
  exact hS.acyclic.not_below (.single ⟨hup, hp, rfl⟩) (hd.below hS hp)

/-- What freeing `p` relies on for that: a destructor below `p` either always or never refuses,
    and a reference to something below `p` hangs off a chunk that this does not keep alive. -/
structure Collectable (S : Shape) (null : Nat) (answer : Nat → Bool → Prop) (p : Nat) :
    Prop where
  decided : ∀ c, ReflTransGen S.Over p c → answer c true → ¬ answer c false
  held : ∀ c, ReflTransGen S.Over p c → ∀ h ∈ S.refs c, S.up h ≠ 0 ∧ S.up h ≠ null
  apart : ∀ c, ReflTransGen S.Over p c → S.refs c ≠ [] → ¬ TransGen S.Keeps c c

theorem Collectable.tame (h : S.Collectable null answer p) : S.Tame answer p := by
  intro c hc y hy hk
  exact absurd (TransGen.tail' hk (.inr ⟨(h.held c hc y hy).1, y, hy, rfl⟩))
    (h.apart c hc (List.ne_nil_of_mem hy))

/-! ## Half way through -/

/-- A chunk that refused and has lost all its owners. -/
structure Climbed (S₀ : Shape) (null : Nat) (answer : Nat → Bool → Prop) (p : Nat)
    (S : Shape) (c : Nat) : Prop where
  stubborn : answer c true
  doomed : ∀ a ∈ S₀.owners c, S₀.Doomed answer p a
  refs : S.refs c = []
  up : S.up c = S₀.base null p ∨ S.up c ∈ S.loose

/-- From `S₀` to `S` a part of what goes with `p` has gone. -/
structure Mid (S₀ : Shape) (null : Nat) (answer : Nat → Bool → Prop) (p : Nat) (S : Shape) :
    Prop where
  live : S.live ⊆ S₀.live
  refs : ∀ c, (S.refs c).Sublist (S₀.refs c)
  handle : ∀ h ∈ S.live, S₀.IsHandle h → S.IsHandle h
  up : ∀ h, S.IsHandle h → S.up h = S₀.up h
  top : S.up p = S₀.up p
  loose : ∀ x ∈ S.loose, S₀.Doomed answer p x ∧ (x = p ∨ S.up x ∈ S.loose)
  keeps : ∀ a c, a ≠ null → S.Keeps a c → TransGen S₀.Keeps a c
  owners : ∀ c ∈ S.live, Thinned (S₀.Doomed answer p) (S.owners c) (S₀.owners c) ∨
    Climbed S₀ null answer p S c
  dead : ∀ c ∈ S₀.live, c ∉ S.live → S₀.IsHandle c ∨ S₀.Doomed answer p c

namespace Mid

theorem start (hl : S.loose = ∅) : Mid S null answer p S where
  live := subset_rfl
  refs := fun _ => .refl _
  handle := fun _ _ => id
  up := fun _ _ => rfl
  top := rfl
  loose := fun x hx => absurd hx (hl ▸ Finset.notMem_empty x)
  keeps := fun _ _ _ => .single
  owners := fun _ _ => .inl (.refl _)
  dead := fun _ hc hc' => absurd hc hc'

theorem isHandle (h : Mid S₀ null answer p S) (hd : S.IsHandle d) : S₀.IsHandle d := by
  obtain ⟨c, hc⟩ := hd
  exact ⟨c, (h.refs c).subset hc⟩

/-- A child of what goes was below `p` from the start. -/
theorem below (h : Mid S₀ null answer p S) (hS₀ : S₀.Wf) (hp : p ∈ S₀.live)
    (hc : c ∈ S.live) (hx : S₀.Doomed answer p (S.up c)) : ReflTransGen S₀.Over p c := by
  -- the parent it had is the one it has, or has already gone
  have hup : S₀.Doomed answer p (S₀.up c) := by
    rcases h.owners c hc with hthin | hcl
    · unfold Shape.owners at hthin
      generalize S₀.up c = u at hthin
      cases hthin with
      | keep => exact hx
      | skip hu => exact hu
    · exact hcl.doomed _ (List.mem_cons_self ..)
  exact (hup.below hS₀ hp).tail ⟨hS₀.ne_zero (hup.live hS₀ hp), h.live hc, rfl⟩

/-- It was owned only by what goes if it has no reference left. -/
theorem all_doomed (h : Mid S₀ null answer p S) (hc : c ∈ S.live)
    (hx : S₀.Doomed answer p (S.up c)) (hr : S.refs c = []) :
    ∀ a ∈ S₀.owners c, S₀.Doomed answer p a := by
  rcases h.owners c hc with hthin | hcl
  · refine hthin.all ?_
    unfold Shape.owners
    rw [hr]
    exact List.forall_mem_singleton.2 hx
  · exact hcl.doomed

/-- While `c` has references, its owners are some of those it had. -/
theorem thinned (h : Mid S₀ null answer p S) (hc : c ∈ S.live) (hr : h' ∈ S.refs c) :
    Thinned (S₀.Doomed answer p) (S.owners c) (S₀.owners c) := by
  rcases h.owners c hc with hthin | hcl
  · exact hthin
  · rw [hcl.refs] at hr
    exact absurd hr List.not_mem_nil

/-- What is kept through several chunks was so before. -/
theorem keeps_path (h : Mid S₀ null answer p S) (hS : S.Wf) (hnull : S.NullOk null)
    (ha : a ≠ null) (hk : TransGen S.Keeps a c) : TransGen S₀.Keeps a c := by
  induction hk with
  | single hk => exact h.keeps _ _ ha hk
  | tail hab hk ih =>
    refine ih.trans (h.keeps _ _ ?_ hk)
    -- nothing keeps the null context
    rintro rfl
    obtain ⟨z, -, hz⟩ := TransGen.tail'_iff.1 hab
    exact hnull.not_keeps hS hz

/-- No reference to what is below `p` lies below what it refers to. -/
theorem apart (h : Mid S₀ null answer p S) (hS : S.Wf) (hnull : S.NullOk null)
    (hcol : S₀.Collectable null answer p) (hc : ReflTransGen S₀.Over p c)
    (hy : h' ∈ S.refs c) : ¬ ReflTransGen S.Over c h' := by
  intro hover
  have hne : h' ≠ c := by
    rintro rfl
    exact List.not_mem_nil ((hS.leaf _ _ hy).1 ▸ hy)
  obtain ⟨y, hcy, hyh⟩ :=
    TransGen.tail'_iff.1 ((reflTransGen_iff_eq_or_transGen.1 hover).resolve_left hne)
  -- the chunk above `h'` keeps `c`, which keeps it: a circle of what keeps what
  have hyc : S.Keeps y c := .inr ⟨hyh.1, h', hy, hyh.2.2⟩
  have hcn : c ≠ null := by
    rintro rfl
    exact hnull.not_keeps hS hyc
  have hrefs := List.ne_nil_of_mem ((h.refs c).subset hy)
  exact hcol.apart c hc hrefs (h.keeps_path hS hnull hcn (.tail' (keeps_of_over hcy) hyc))

theorem takeOut (h : Mid S₀ null answer p S) (hd : S₀.Doomed answer p c)
    (hup : c = p ∨ S.up c ∈ S.loose) :
    Mid S₀ null answer p (S.takeOut c) where
  live := h.live
  refs := h.refs
  handle := h.handle
  up := h.up
  top := h.top
  loose := fun x hx => by
    rcases Finset.mem_insert.1 hx with rfl | hx
    · exact ⟨hd, hup.imp_right (Finset.mem_insert_of_mem (b := x))⟩
    · exact ⟨(h.loose x hx).1, (h.loose x hx).2.imp_right (Finset.mem_insert_of_mem (b := c))⟩
  keeps := h.keeps
  owners := fun d hd => (h.owners d hd).imp_right fun hcl =>
    ⟨hcl.stubborn, hcl.doomed, hcl.refs, hcl.up.imp_right (Finset.mem_insert_of_mem (b := c))⟩
  dead := h.dead

theorem release (h : Mid S₀ null answer p S) (hc : S₀.Doomed answer p c)
    (hkids : ∀ d ∈ S.live, S.up d ≠ c) (hloose : S.loose ⊆ S.live) :
    Mid S₀ null answer p (S.release c) where
  live := (Finset.erase_subset ..).trans h.live
  refs := h.refs
  handle := fun d hd => h.handle d (Finset.mem_of_mem_erase hd)
  up := h.up
  top := h.top
  loose := fun x hx => by
    obtain ⟨hxc, hx⟩ := Finset.mem_erase.1 hx
    exact ⟨(h.loose x hx).1,
      (h.loose x hx).2.imp_right fun hup => Finset.mem_erase.2 ⟨hkids x (hloose hx), hup⟩⟩
  keeps := fun a d ha hk =>
    h.keeps a d ha (hk.imp (fun ho => ⟨ho.1, Finset.mem_of_mem_erase ho.2.1, ho.2.2⟩) id)
  owners := fun d hd => by
    have hdl := Finset.mem_of_mem_erase hd
    exact (h.owners d hdl).imp_right fun hcl =>
      ⟨hcl.stubborn, hcl.doomed, hcl.refs,
        hcl.up.imp_right fun hup => Finset.mem_erase.2 ⟨hkids d hdl, hup⟩⟩
  dead := fun d hd hd' => by
    by_cases hdc : d = c
    · exact .inr (hdc ▸ hc)
    · exact h.dead d hd fun hmem => hd' (Finset.mem_erase.2 ⟨hdc, hmem⟩)

/-- A reference is dropped that hung off what goes, or what it refers to is stolen next. -/
theorem dropped (h : Mid S₀ null answer p S) (hS : S.Wf) (hy : h' ∈ S.refs c) :
    (∀ d ∈ (S.drop h' c).live, S₀.IsHandle d → (S.drop h' c).IsHandle d) ∧
      ∀ d ∈ S₀.live, d ∉ (S.drop h' c).live →
        S₀.IsHandle d ∨ S₀.Doomed answer p d := by
  refine ⟨fun d hd hd₀ => ?_, fun d hd hd' => ?_⟩
  · obtain ⟨hdh, hdl⟩ := Finset.mem_erase.1 hd
    obtain ⟨e, he⟩ := h.handle d hdl hd₀
    exact ⟨e, (mem_unref hS).2 ⟨he, fun heq => hdh heq.2⟩⟩
  · by_cases hdh : d = h'
    · exact .inl (hdh ▸ h.isHandle ⟨c, hy⟩)
    · exact h.dead d hd fun hmem => hd' (Finset.mem_erase.2 ⟨hdh, hmem⟩)

theorem drop (h : Mid S₀ null answer p S) (hS : S.Wf) (hy : h' ∈ S.refs c)
    (hd : S₀.Doomed answer p (S.up h')) :
    Mid S₀ null answer p (S.drop h' c) := by
  have hframe : S.Frame null h' (S.drop h' c) := .drop hS hy (.inr .refl)
  have hloose : (S.drop h' c).loose = S.loose := hframe.loose
  obtain ⟨hhandle, hdead⟩ := h.dropped hS hy
  refine ⟨hframe.live.trans h.live, fun d => (hframe.refs d).trans (h.refs d), hhandle,
    fun d hd => ?_, h.top, fun x hx => ?_, fun a d ha hk => ?_, fun d hd' => ?_, hdead⟩
  · exact h.up d (hframe.isHandle hd)
  · rw [hloose] at hx ⊢
    exact h.loose x hx
  · exact h.keeps a d ha (Frame.keeps_of_drop hS hk)
  · have hdl := Finset.mem_of_mem_erase hd'
    by_cases hdc : d = c
    · -- `c` loses the owner that the reference hung off, which goes
      subst hdc
      refine .inl (.trans ?_ (h.thinned hdl hy))
      unfold Shape.owners
      rw [drop_refs_self, drop_up]
      exact .keep (.erase hd _)
    · refine (h.owners d hdl).imp (fun hthin => ?_) fun hcl => ?_
      · unfold Shape.owners at hthin ⊢
        rw [drop_refs_ne hdc, drop_up]
        exact hthin
      · exact ⟨hcl.stubborn, hcl.doomed, (drop_refs_ne hdc).trans hcl.refs,
          hloose.symm ▸ hcl.up⟩

/-- What holds of all but `c` when `c` is stolen, and of the tree as a whole. -/
theorem stolen (h : Mid S₀ null answer p S) (hS : S.Wf) (hnull : S.NullOk null) (hc : c ≠ p)
    (hcn : ¬ S.IsHandle c) (hl : c ∉ S.loose) (hrefs : ∀ d, d ≠ c → S'.refs d = S.refs d)
    (hup : S'.up = S.up) (hlive : S'.live ⊆ S.live) (hframe : S.Frame null c (S'.steal c x))
    (hhandle : ∀ d ∈ S'.live, S₀.IsHandle d → S'.IsHandle d)
    (hdead : ∀ d ∈ S₀.live, d ∉ S'.live → S₀.IsHandle d ∨ S₀.Doomed answer p d)
    (howners : Thinned (S₀.Doomed answer p) ((S'.steal c x).owners c) (S₀.owners c) ∨
      Climbed S₀ null answer p (S'.steal c x) c) : Mid S₀ null answer p (S'.steal c x) := by
  have hloose' : (S'.steal c x).loose = S.loose := hframe.loose
  -- only the parent of `c` changes
  have hsame : ∀ {d}, d ≠ c → (S'.steal c x).up d = S.up d :=
    fun hd => (steal_up_ne hd).trans (congrFun hup _)
  -- and a handle, which `c` is not, stays where it was
  have hmoved : ∀ {d}, (S'.steal c x).IsHandle d → (S'.steal c x).up d = S.up d :=
    fun {d} hd => by
    refine hsame ?_
    rintro rfl
    exact hcn (hframe.isHandle hd)
  refine ⟨hlive.trans h.live, fun d => (hframe.refs d).trans (h.refs d), hhandle, fun d hd => ?_,
    (hsame hc.symm).trans h.top, fun y hy => ?_, fun a d ha hk => ?_, fun d hd => ?_, hdead⟩
  · exact (hmoved hd).trans (h.up d (hframe.isHandle hd))
  · rw [hloose'] at hy ⊢
    have hyc : y ≠ c := by
      rintro rfl
      exact hl hy
    rw [hsame hyc]
    exact h.loose y hy
  · exact h.keeps_path hS hnull ha (hframe.keeps a d ha hk)
  · by_cases hdc : d = c
    · -- `c` itself is the caller's to describe
      exact hdc ▸ howners
    · have hrefs' : (S'.steal c x).refs d = S.refs d := hrefs d hdc
      refine (h.owners d (hlive hd)).imp (fun hthin => ?_) fun hcl => ?_
      · have heq : (S'.steal c x).owners d = S.owners d := by
          unfold Shape.owners
          rw [hsame hdc, hrefs']
          refine congrArg _ (List.map_congr_left fun y hy => hmoved ⟨d, hrefs'.symm ▸ hy⟩)
        exact heq ▸ hthin
      · exact ⟨hcl.stubborn, hcl.doomed, hrefs'.trans hcl.refs,
          hloose'.symm ▸ (hsame hdc).symm ▸ hcl.up⟩

end Mid

/-! ## The whole way -/

/-- What a job is about goes with `p`, if it goes. -/
def Job.Due (S₀ : Shape) (answer : Nat → Bool → Prop) (p : Nat) (S : Shape) : Job → Prop
  | .free c => c ∈ S.live ∧ ReflTransGen S₀.Over p c ∧ (c = p ∨ S.up c ∈ S.loose) ∧
      (S.IsHandle c → S₀.Doomed answer p (S.up c)) ∧
      (S.refs c = [] → ¬ answer c true → ¬ S.IsHandle c → S₀.Doomed answer p c)
  | .empty c => S₀.Doomed answer p c

theorem Mid.kid_due (h : Mid S₀ null answer p S) (hS : S.Wf) (hS₀ : S₀.Wf)
    (hp : p ∈ S₀.live) (hl : x ∈ S.loose) (hc : c ∈ S.kids x) :
    (Job.free c).Due S₀ answer p S := by
  have hup := hS.up_of_kid hc
  have hlive := (hS.live_of_kid hc).1
  have hx : S₀.Doomed answer p (S.up c) := hup.symm ▸ (h.loose x hl).1
  exact ⟨hlive, h.below hS₀ hp hlive hx, .inr (hup.symm ▸ hl), fun _ => hx,
    fun hr hw _ => .owned ⟨h.live hlive, hw⟩ (h.all_doomed hlive hx hr)⟩

open Classical in
/-- Those that were asked: each that has gone once, and some that refused. -/
structure Tally (S₀ : Shape) (answer : Nat → Bool → Prop) (p : Nat) (S S' : Shape)
    (l : List Nat) : Prop where
  once : (l.filter fun c => ¬ answer c true).Nodup
  gone : ∀ c, c ∈ l ∧ ¬ answer c true ↔ c ∈ S.live ∧ c ∉ S'.live ∧
    ¬ S₀.IsHandle c
  below : ∀ c ∈ l, ReflTransGen S₀.Over p c

theorem Tally.append {l' : List Nat} {S'' : Shape} (h : Tally S₀ answer p S S' l)
    (h' : Tally S₀ answer p S' S'' l') (hlive : S'.live ⊆ S.live)
    (hlive' : S''.live ⊆ S'.live) : Tally S₀ answer p S S'' (l ++ l') where
  once := by
    rw [List.filter_append]
    refine h.once.append h'.once fun d hd hd' => ?_
    obtain ⟨hd, hw⟩ := List.mem_filter.1 hd
    obtain ⟨hd', hw'⟩ := List.mem_filter.1 hd'
    exact ((h.gone d).1 ⟨hd, by simpa using hw⟩).2.1
      ((h'.gone d).1 ⟨hd', by simpa using hw'⟩).1
  gone := fun d => by
    rw [List.mem_append, or_and_right, h.gone, h'.gone]
    constructor
    · rintro (⟨hd, hd', hn⟩ | ⟨hd, hd', hn⟩)
      · exact ⟨hd, fun hmem => hd' (hlive' hmem), hn⟩
      · exact ⟨hlive hd, hd', hn⟩
    · rintro ⟨hd, hd', hn⟩
      by_cases hmem : d ∈ S'.live
      · exact .inr ⟨hmem, hd', hn⟩
      · exact .inl ⟨hd, hmem, hn⟩
  below := fun d hd => (List.mem_append.1 hd).elim (h.below d) (h'.below d)

/-- A handle that was one from the start is gone. -/
theorem Tally.dropped (ha : S₀.IsHandle a) (hlive : S'.live = S.live.erase a) :
    Tally S₀ answer p S S' [] where
  once := by simp
  gone := fun d => by
    refine iff_of_false (fun h => List.not_mem_nil h.1) fun ⟨hd, hd', hn⟩ => ?_
    obtain rfl : d = a := by_contra fun hne => hd' (hlive ▸ Finset.mem_erase.2 ⟨hne, hd⟩)
    exact hn ha
  below := fun d hd => absurd hd List.not_mem_nil

/-- One was asked and refused. -/
theorem Tally.refused (hs : answer c true) (hpc : ReflTransGen S₀.Over p c)
    (hlive : S'.live = S.live) :
    Tally S₀ answer p S S' [c] where
  once := by simp [hs]
  gone := fun d => by
    refine iff_of_false (fun h => ?_) fun hd => hd.2.1 (hlive ▸ hd.1)
    exact h.2 (List.mem_singleton.1 h.1 ▸ hs)
  below := fun d hd => List.mem_singleton.1 hd ▸ hpc

/-- One was asked, then its children were freed, and it has gone. -/
theorem Tally.freed (h : Tally S₀ answer p (S.takeOut c) S' l) (hc : c ∈ S.live)
    (hc' : c ∈ S'.live) (hn : ¬ S₀.IsHandle c) (hw : ¬ answer c true)
    (hpc : ReflTransGen S₀.Over p c) :
    Tally S₀ answer p S (S'.release c) (c :: l) where
  once := by
    rw [List.filter_cons_of_pos (by simpa using hw)]
    refine List.nodup_cons.2 ⟨fun hmem => ?_, h.once⟩
    exact ((h.gone c).1 ⟨(List.mem_filter.1 hmem).1, hw⟩).2.1 hc'
  gone := fun d => by
    rw [List.mem_cons, or_and_right, h.gone]
    change _ ↔ d ∈ S.live ∧ d ∉ S'.live.erase c ∧ _
    by_cases hdc : d = c
    · subst hdc
      exact iff_of_true (.inl ⟨rfl, hw⟩) ⟨hc, fun hmem => Finset.notMem_erase d S'.live hmem,
        hn⟩
    · rw [or_iff_right fun h => hdc h.1, Finset.mem_erase, and_iff_right hdc]
      exact Iff.rfl
  below := fun d hd => (List.mem_cons.1 hd).elim (fun heq => heq ▸ hpc) (h.below d)

/-! ### What was kept -/

/-- Where a reference hangs off another chunk, that one is the heir. -/
theorem heir_of_refs (hr : S.refs c = a :: L) (h0 : S.up a ≠ 0) (hnull : S.up a ≠ null) :
    S.heir null x c = S.up a := by
  have hreferrer : S.referrer null c = S.up a := by
    unfold referrer
    rw [hr]
    exact if_neg h0
  unfold heir
  rw [hreferrer]
  exact if_neg fun h => hnull h.1

namespace Mid

/-- A child without references climbs to what is being freed above `x`, or out of it. -/
theorem heir_refused (h : Mid S₀ null answer p S) (hS : S.Wf) (hl : x ∈ S.loose)
    (hr : S.refs c = []) :
    S.heir null x c = S₀.base null p ∨ S.heir null x c ∈ S.loose := by
  have hreferrer : S.referrer null c = null := by
    unfold referrer
    rw [hr]
  unfold heir
  rw [hreferrer]
  rcases (h.loose x hl).2 with rfl | hup
  · -- the chunk that is emptied is `p` itself
    left
    unfold base
    rw [h.top]
    split <;> rename_i h0 <;> simp_all
  · -- it is below `p`, and its parent is being emptied too
    have h0 : S.up x ≠ 0 := hS.ne_zero (hS.loose hup)
    rw [if_pos ⟨rfl, h0⟩]
    exact .inr hup

/-- A child that refused is stolen to its heir. -/
theorem refused (h : Mid S₀ null answer p S) (hS : S.Wf) (hnull : S.NullOk null) (hcp : c ≠ p)
    (hn : ¬ S.IsHandle c) (hcl : c ∉ S.loose) (hc : c ∈ S.live)
    (hx : S₀.Doomed answer p (S.up c)) (hl : x ∈ S.loose) (hr : S.refs c = [])
    (hs : answer c true) (hframe : S.Frame null c (S.steal c (S.heir null x c))) :
    Mid S₀ null answer p (S.steal c (S.heir null x c)) := by
  refine h.stolen hS hnull hcp hn hcl (fun _ _ => rfl) rfl subset_rfl hframe h.handle
    h.dead (.inr ?_)
  refine ⟨hs, h.all_doomed hc hx hr, hr, ?_⟩
  rw [steal_up_self, hframe.loose]
  exact h.heir_refused hS hl hr

/-- A child that a reference held loses that, and is stolen to where it hung. -/
theorem held (h : Mid S₀ null answer p S) (hS : S.Wf) (hnull : S.NullOk null)
    (hcol : S₀.Collectable null answer p) (hcp : c ≠ p) (hn : ¬ S.IsHandle c)
    (hcl : c ∉ S.loose) (hc : c ∈ S.live) (hpc : ReflTransGen S₀.Over p c)
    (hx : S₀.Doomed answer p (S.up c)) (hr : S.refs c = a :: L)
    (hframe : S.Frame null c ((S.drop a c).steal c (S.heir null x c))) :
    Mid S₀ null answer p ((S.drop a c).steal c (S.heir null x c)) := by
  have ha : a ∈ S.refs c := hr ▸ List.mem_cons_self ..
  obtain ⟨ha0, hanull⟩ := hcol.held c hpc a ((h.refs c).subset ha)
  rw [← h.up a ⟨c, ha⟩] at ha0 hanull
  obtain ⟨hhandle, hdead⟩ := h.dropped hS ha
  refine h.stolen hS hnull hcp hn hcl (fun d hd => drop_refs_ne hd) rfl (Finset.erase_subset ..)
    hframe hhandle hdead (.inl ?_)
  have hthin := h.thinned hc ha
  have hmap : ((S.drop a c).refs c).map ((S.drop a c).steal c (S.heir null x c)).up =
      L.map S.up := by
    rw [drop_refs_self, hr, List.erase_cons_head]
    refine List.map_congr_left fun y hy => steal_up_ne ?_
    rintro rfl
    exact hn ⟨_, hr ▸ List.mem_cons_of_mem _ hy⟩
  unfold Shape.owners at hthin ⊢
  rw [steal_refs, hmap, steal_up_self, heir_of_refs hr ha0 hanull]
  rw [hr] at hthin
  exact .trans (.skip hx (.refl _)) hthin

end Mid

theorem Frees.mid {j : Job} {b : Bool} (hF : Frees null answer j S b l S')
    (hpre : j.Pre null answer S) (hS₀ : S₀.Wf) (hp : p ∈ S₀.live)
    (hcol : S₀.Collectable null answer p) (hM : Mid S₀ null answer p S)
    (hj : j.Due S₀ answer p S) (hb : b = true) :
    Mid S₀ null answer p S' ∧ Tally S₀ answer p S S' l := by
  induction hF with
  | @handle S y c hy =>
    have hh : S.IsHandle y := ⟨c, hy⟩
    exact ⟨hM.drop hpre.1.wf hy (hj.2.2.2.1 hh), .dropped (hM.isHandle hh) rfl⟩
  | held | refused => exact absurd hb Bool.false_ne_true
  | @again S S' c a L l b hr hc hF ih =>
    -- the code frees `c` once more where the reference it dropped hung below `c`, which
    -- `Collectable` excludes
    exact absurd hc (hM.apart hpre.1.wf hpre.1.nullOk hcol hj.2.1 (hr ▸ List.mem_cons_self ..))
  | @freed S S' c l hr hn hs hF ih =>
    obtain ⟨-, hwf', -⟩ := (Frees.freed hr hn hs hF).post hpre
    obtain ⟨hR, hl⟩ := hpre
    have hw : ¬ answer c true := fun ht => hcol.decided c hj.2.1 ht hs
    -- nothing but what goes owned `c`, so it is doomed
    have hd := hj.2.2.2.2 hr hw hn
    have hpre' : (Job.empty c).Pre null answer (S.takeOut c) :=
      ⟨hR.takeOut hn, Finset.mem_insert_self .., hr⟩
    obtain ⟨hM', htally⟩ := ih hpre' (hM.takeOut hd hj.2.2.1) hd rfl
    obtain ⟨-, hwf, hframe, -⟩ := hF.post hpre'
    have hc' : c ∈ S'.live := hwf.loose (hframe.loose ▸ Finset.mem_insert_self ..)
    have hc₀ : ¬ S₀.IsHandle c := fun hh => hn (hM.handle c hR.live hh)
    -- its children have left it
    have hkids : ∀ d ∈ S'.live, S'.up d ≠ c := fun d hd hup => by
      by_cases hdc : d = c
      · exact hwf.up_ne hc' (hdc ▸ hup)
      · rcases hwf'.up d (Finset.mem_erase.2 ⟨hdc, hd⟩) with h0 | hmem
        · exact hwf.ne_zero hc' (hup.symm.trans h0)
        · exact (Finset.mem_erase.1 hmem).1 hup
    exact ⟨hM'.release hd hkids hwf.loose, htally.freed hR.live hc' hc₀ hw hj.2.1⟩
  | done hk =>
    exact ⟨hM, by simp, fun d => iff_of_false (fun h => List.not_mem_nil h.1) fun hd => hd.2.1 hd.1,
      fun d hd => absurd hd List.not_mem_nil⟩
  | @child S S' S'' x c L l l' hk hF hF' ih ih' =>
    obtain ⟨hR, hl, hr⟩ := hpre
    have hc : c ∈ S.kids x := hk ▸ List.mem_cons_self ..
    have hpre₁ : (Job.free c).Pre null answer S := ⟨hR.kid hc, ((hR.wf.kids x c).1 hc).2.2.1⟩
    obtain ⟨-, hwf, hframe, -⟩ := hF.post hpre₁
    have hl' : x ∈ S'.loose := hframe.loose ▸ hl
    have hpre₂ : (Job.empty x).Pre null answer S' :=
      ⟨hR.frame hwf (.single (hR.wf.edge hc)) hframe (hwf.loose hl'),
      hl', List.sublist_nil.1 (hr ▸ hframe.refs x)⟩
    obtain ⟨-, -, hframe', -⟩ := hF'.post hpre₂
    obtain ⟨hM₁, htally₁⟩ := ih hpre₁ hM (hM.kid_due hR.wf hS₀ hp hl hc) rfl
    obtain ⟨hM₂, htally₂⟩ := ih' hpre₂ hM₁ hj hb
    exact ⟨hM₂, htally₁.append htally₂ hframe.live hframe'.live⟩
  | @kept S S' S'' x c L l l' hk hF hF' ih ih' =>
    obtain ⟨hR, hl, hr⟩ := hpre
    have hc : c ∈ S.kids x := hk ▸ List.mem_cons_self ..
    have hpre₁ : (Job.free c).Pre null answer S := ⟨hR.kid hc, ((hR.wf.kids x c).1 hc).2.2.1⟩
    have hdue := hM.kid_due hR.wf hS₀ hp hl hc
    have hx : S₀.Doomed answer p (S.up c) := (hR.wf.up_of_kid hc).symm ▸ (hM.loose x hl).1
    obtain ⟨-, hwf, hframe, hlive⟩ := hF.post hpre₁
    have hlive' := hframe.live
    obtain ⟨hwf, hframe⟩ :=
      hR.kept hc hF hframe hwf (by_contra fun hdead => Bool.false_ne_true (hlive.2 hdead))
    have hl' : x ∈ (S'.steal c (S.heir null x c)).loose := hframe.loose ▸ hl
    have hpre₂ : (Job.empty x).Pre null answer (S'.steal c (S.heir null x c)) :=
      ⟨hR.frame hwf (.single (hR.wf.edge hc)) hframe (hwf.loose hl'), hl',
        List.sublist_nil.1 (hr ▸ hframe.refs x)⟩
    obtain ⟨-, -, hframe', -⟩ := hF'.post hpre₂
    have hn := ((hR.kid hc).of_false hF).1
    -- `p` is under a chunk that stays, so it is not this child
    have hcp : c ≠ p := by
      rintro rfl
      exact not_doomed_up hS₀ hp (hM.top ▸ hx)
    have hcl : c ∉ S.loose := hpre₁.2
    cases hF with
    | again hrefs hover =>
      exact absurd hover (hM.apart hR.wf hR.nullOk hcol hdue.2.1 (hrefs ▸ List.mem_cons_self ..))
    | refused hrefs _ hs =>
      have hM₁ := hM.refused hR.wf hR.nullOk hcp hn hcl hdue.1 hx hl hrefs hs hframe
      obtain ⟨hM₂, htally⟩ := ih' hpre₂ hM₁ hj hb
      have hasked : Tally S₀ answer p S (S.steal c (S.heir null x c)) [c] :=
        .refused hs hdue.2.1 rfl
      exact ⟨hM₂, hasked.append htally subset_rfl hframe'.live⟩
    | @held _ _ a L' hrefs hover =>
      have ha : a ∈ S.refs c := hrefs ▸ List.mem_cons_self ..
      have hM₁ := hM.held hR.wf hR.nullOk hcol hcp hn hcl hdue.1 hdue.2.1 hx hrefs hframe
      obtain ⟨hM₂, htally⟩ := ih' hpre₂ hM₁ hj hb
      have hasked : Tally S₀ answer p S ((S.drop a c).steal c (S.heir null x c)) [] :=
        .dropped (hM.isHandle ⟨c, ha⟩) rfl
      exact ⟨hM₂, hasked.append htally hlive' hframe'.live⟩

end Shape

/-! ## On the memory -/

variable {D : Outcomes} {k : Heap} {S S' : Shape} {p null : Nat} {answer : Nat → Bool → Prop}

/-- Once `p` has gone, all that is doomed has, and what is left has the owners it should. -/
theorem Shape.Mid.done (h : S.Mid null answer p S') (hS : S.Wf) (hS' : S'.Wf) (hp : p ∈ S.live)
    (hp' : p ∉ S'.live) (hl : S'.loose = ∅) :
    (∀ c, S.Doomed answer p c → c ∉ S'.live) ∧
    ∀ c ∈ S'.live, S'.owners c = S.heirs null answer p c := by
  have hup : ∀ c ∈ S'.live, S'.up c ∈ S'.live ∨ ¬ S.Doomed answer p (S'.up c) :=
    fun c hc => by
    rcases hS'.up c hc with h0 | hlive
    · exact .inr fun hd => hS.ne_zero (hd.live hS hp) h0
    · exact .inl hlive
  -- what is doomed would otherwise have a live owner that is doomed too, and so on up to `p`
  have hgone : ∀ c, S.Doomed answer p c → c ∉ S'.live := fun c hc => by
    refine hc.gone (· ∈ S'.live) S'.owners hp' (fun d hd ht => ?_) fun d hd => ?_
    · exact (h.owners d hd).resolve_right fun hcl => ht.2 hcl.stubborn
    · exact ⟨S'.up d, List.mem_cons_self .., hup d hd⟩
  -- hence no owner left is doomed, and the filter takes away exactly what has gone
  have hnone : ∀ c ∈ S'.live, ∀ a ∈ S'.owners c, ¬ S.Doomed answer p a := by
    intro c hc a ha hd
    unfold Shape.owners at ha
    rcases List.mem_cons.1 ha with rfl | ha
    · exact (hup c hc).elim (hgone _ hd) fun hn => hn hd
    · obtain ⟨y, hy, rfl⟩ := List.mem_map.1 ha
      exact (hup y (hS'.refs c y hy).2.1).elim (hgone _ hd) fun hn => hn hd
  refine ⟨hgone, fun c hc => ?_⟩
  unfold Shape.heirs
  rcases h.owners c hc with hthin | hcl
  · rw [← hthin.eq_filter (hnone c hc)]
    exact (if_neg (List.cons_ne_nil _ _)).symm
  · rw [if_pos (List.filter_eq_nil_iff.2 fun a ha => by simpa using hcl.doomed a ha)]
    unfold Shape.owners
    rw [hcl.refs, hcl.up.resolve_right (hl ▸ Finset.notMem_empty _)]
    rfl

/-- `talloc_free` of a chunk without references that lets itself be freed goes all the way. -/
theorem Stands.free_mid (h : Stands k S) (hp : Mine k S p) (hr : S.refs p = [])
    (hw : ¬ Answers D k p true) (hcol : S.Collectable k.nullContext (Answers D k) p)
    (hc : Clear k S p) :
    ∃ l S' k', Faulty.Ends (fun n => free D n p) k 0 k' ∧ Stands k' S' ∧
      k'.ran = asked k l ++ k.ran ∧ p ∉ S'.live ∧
      S.Mid k.nullContext (Answers D k) p S' ∧ S.Tally (Answers D k) p S S' l := by
  have hl : p ∉ S.loose := h.loose ▸ Finset.notMem_empty p
  obtain ⟨b, l, S', k', hrun, hF, hstands, -, hran⟩ :=
    h.free_run hp hcol.tame hc (Nat.lt_succ_self _)
  have hpre : (Shape.Job.free p).Pre k.nullContext (Answers D k) S := ⟨h.ready hp hcol.tame, hl⟩
  -- of the ways in which a free can end only one is left here
  have hb : b = true := by
    cases hF with
    | handle hh => exact rfl
    | held hrefs | again hrefs => exact absurd (hr.symm.trans hrefs) (List.cons_ne_nil _ _).symm
    | refused _ _ hs => exact absurd hs hw
    | freed => rfl
  obtain ⟨-, -, -, hgone⟩ := hF.post hpre
  obtain ⟨hM, htally⟩ := hF.mid hpre h.wf hp.live hcol (.start h.loose)
    ⟨hp.live, .refl, .inl rfl, fun hh => absurd hh hp.handle, fun _ _ _ => .self⟩ hb
  rw [hb, if_pos rfl] at hrun
  exact ⟨l, S', k', .of_run (fun i j hij => free_le hij) hrun, hstands, hran, hgone.1 hb, hM,
    htally⟩

/-- A destructor of what has gone has run once. -/
theorem Shape.Tally.count {l : List Nat} {c d : Nat} (h : S.Tally (Answers D k) p S S' l)
    (hc : c ∈ S.live) (hc' : c ∉ S'.live) (hn : ¬ S.IsHandle c) (hw : ¬ Answers D k c true)
    (hd : k.destructor c = .user d) :
    (asked k l).count c = 1 := by
  have hmem := ((h.gone c).2 ⟨hc, hc', hn⟩).1
  have honce := List.count_eq_one_of_mem h.once (List.mem_filter.2 ⟨hmem, by simpa using hw⟩)
  rw [List.count_filter (by simpa using hw)] at honce
  unfold asked
  rw [List.count_reverse, List.count_filter (by rw [hd]; rfl), honce]

theorem Stands.not_handle (h : Stands k S) {c d : Nat} (hd : k.destructor c = .user d)
    (hc : c ∈ S.live) :
    ¬ S.IsHandle c := by
  intro hh
  rw [(h.rep.handle c hc).2 hh] at hd
  exact Destructor.noConfusion hd

/-- `talloc_free` of a chunk without references that lets itself be freed: exactly what is doomed
    goes, the destructor of each chunk that goes has run once, and what stays has the owners it
    should. -/
theorem Stands.free_collects (h : Stands k S) (hp : Mine k S p) (hr : S.refs p = [])
    (hw : ¬ Answers D k p true) (hcol : S.Collectable k.nullContext (Answers D k) p)
    (hc : Clear k S p) :
    ∃ S' k', Faulty.Ends (fun n => free D n p) k 0 k' ∧ Stands k' S' ∧
      (∀ c, ¬ S.IsHandle c → (c ∈ S'.live ↔ c ∈ S.live ∧ ¬ S.Doomed (Answers D k) p c)) ∧
      (∀ c ∈ S'.live, S'.owners c = S.heirs k.nullContext (Answers D k) p c) ∧
      ∃ l, k'.ran = l ++ k.ran ∧
        (∀ c d, S.Doomed (Answers D k) p c → k.destructor c = .user d → l.count c = 1) ∧
        ∀ c ∈ l, ReflTransGen S.Over p c ∧
          (S.Doomed (Answers D k) p c ∨ Answers D k c true) := by
  obtain ⟨l, S', k', hends, hstands, hran, hp', hM, htally⟩ := h.free_mid hp hr hw hcol hc
  obtain ⟨hdead, howners⟩ := hM.done h.wf hstands.wf hp.live hp' hstands.loose
  refine ⟨S', k', hends, hstands, fun c hn => ⟨fun hc => ?_, fun hc => ?_⟩,
    howners, asked k l, hran, fun c d hd hdes => ?_, fun c hmem => ?_⟩
  · exact ⟨hM.live hc, fun hd => hdead c hd hc⟩
  · by_contra hc'
    exact (hM.dead c hc.1 hc').elim hn hc.2
  · have hlive := hd.live h.wf hp.live
    exact htally.count hlive (hdead c hd) (h.not_handle hdes hlive) (hd.willing hw) hdes
  · unfold asked at hmem
    obtain ⟨hmem, huser⟩ := List.mem_filter.1 (List.mem_reverse.1 hmem)
    refine ⟨htally.below c hmem, ?_⟩
    by_cases hcw : Answers D k c true
    · exact .inr hcw
    · obtain ⟨hlive, hc', hn⟩ := (htally.gone c).1 ⟨hmem, hcw⟩
      exact .inl ((hM.dead c hlive hc').resolve_left hn)

/-- Where all owners go, so does what they own. -/
theorem Shape.doomed_of_below (hS : S.Wf) (hp : ¬ S.IsHandle p) (hk : Acyclic S.Keeps)
    (hall : ∀ c ∈ S.live, ReflTransGen S.Over p c) (hw : ∀ c ∈ S.live, ¬ answer c true)
    {c : Nat} (hc : c ∈ S.live) :
    S.Doomed answer p c := by
  induction hn : (below (Function.swap S.Keeps) S.live c).card using Nat.strong_induction_on
    generalizing c with
  | _ n ih =>
    -- strong induction on how many chunks keep `c` alive, directly or through others
    have hkept : ∀ a ∈ S.live, S.Keeps a c → S.Doomed answer p a := fun a ha hac => by
      have hlt := hk.swap.below_lt hc (show Function.swap S.Keeps c a from hac)
      exact ih _ (hn ▸ hlt) ha rfl
    have hover : ∀ d ∈ S.live, d ≠ p → S.up d ≠ 0 ∧ S.up d ∈ S.live :=
      fun d hd hdp => by
      obtain ⟨y, -, hy⟩ := (hall d hd).cases_tail.resolve_left hdp
      obtain ⟨h0, -, rfl⟩ := hy
      exact ⟨h0, (hS.up d hd).resolve_left h0⟩
    by_cases hcp : c = p
    · exact hcp ▸ .self
    · refine .owned ⟨hc, hw c hc⟩ fun a ha => ?_
      unfold Shape.owners at ha
      rcases List.mem_cons.1 ha with rfl | ha
      · obtain ⟨h0, hup⟩ := hover c hc hcp
        exact hkept _ hup (.inl ⟨h0, hc, rfl⟩)
      · obtain ⟨y, hy, rfl⟩ := List.mem_map.1 ha
        have hyp : y ≠ p := by
          rintro rfl
          exact hp ⟨c, hy⟩
        obtain ⟨h0, hup⟩ := hover y (hS.refs c y hy).2.1 hyp
        exact hkept _ hup (.inr ⟨h0, y, hy, rfl⟩)

/-- `talloc_free` of a chunk that all others are below, where none refuses and none owns itself,
    leaves nothing, and each destructor has run once. -/
theorem Stands.free_all (h : Stands k S) (hp : Mine k S p)
    (hall : ∀ c ∈ S.live, ReflTransGen S.Over p c)
    (hw : ∀ c ∈ S.live, ¬ Answers D k c true) (hk : Acyclic S.Keeps) :
    ∃ l k', Faulty.Ends (fun n => free D n p) k 0 k' ∧ (∀ c, k'.live c = false) ∧
      k'.ran = l ++ k.ran ∧
      ∀ c ∈ S.live, ∀ d, k.destructor c = .user d → l.count c = 1 := by
  have hover : ∀ d ∈ S.live, d ≠ p → S.up d ≠ 0 := fun d hd hdp => by
    obtain ⟨y, -, hy⟩ := (hall d hd).cases_tail.resolve_left hdp
    exact hy.2.2 ▸ hy.1
  have hne : ∀ c, ∀ y ∈ S.refs c, y ≠ p := by
    rintro c y hy rfl
    exact hp.handle ⟨c, hy⟩
  -- the null context has no parent, and would not be below `p`
  have hnull : k.nullContext = 0 := by
    rcases h.rep.null with h0 | ⟨hl, -, hup, -⟩
    · exact h0
    · exact absurd hup (hover _ hl hp.null.symm)
  have hr : S.refs p = [] := by
    cases hrefs : S.refs p with
    | nil => rfl
    | cons y L =>
      have hy : y ∈ S.refs p := hrefs ▸ List.mem_cons_self ..
      have hyl := (h.wf.refs p y hy).2.1
      have h0 := hover y hyl (hne p y hy)
      have hup := hall _ ((h.wf.up y hyl).resolve_left h0)
      exact absurd (TransGen.tail' (Shape.keeps_of_over hup) (.inr ⟨h0, y, hy, rfl⟩)) (hk p)
  have hclear : Clear k S p := by
    rintro d (hd | rfl) c - hmem
    · exact absurd hd (h.loose ▸ Finset.notMem_empty d)
    · have hup : S.up d = 0 := by
        by_contra h0
        have hlive := (h.wf.up d hp.live).resolve_left h0
        exact h.wf.acyclic.not_below (.single ⟨h0, hp.live, rfl⟩) (hall _ hlive)
      have hl : d ∉ S.loose := h.loose ▸ Finset.notMem_empty d
      rw [(h.rep.tree.root d hp.live hl hup).2] at hmem
      exact Refs.zero_notMem h.wf hmem
  have hcol : S.Collectable k.nullContext (Answers D k) p := by
    refine ⟨fun c hpc ht => absurd ht (hw c (Shape.live_of_below hp.live hpc)),
      fun c _ y hy => ?_, fun c _ _ => hk c⟩
    have h0 := hover y (h.wf.refs c y hy).2.1 (hne c y hy)
    exact ⟨h0, hnull.symm ▸ h0⟩
  obtain ⟨l, S', k', hends, hstands, hran, hp', hM, htally⟩ :=
    h.free_mid hp hr (hw p hp.live) hcol hclear
  obtain ⟨hdead, -⟩ := hM.done h.wf hstands.wf hp.live hp' hstands.loose
  have hgone : ∀ c ∈ S.live, c ∉ S'.live :=
    fun c hc => hdead c (Shape.doomed_of_below h.wf hp.handle hk hall hw hc)
  refine ⟨asked k l, k', hends, fun c => ?_, hran, fun c hc d hd => ?_⟩
  · rw [← Bool.not_eq_true, hstands.rep.tree.live c]
    exact fun hc => hgone c (hM.live hc) hc
  · exact htally.count hc (hgone c hc) (h.not_handle hd hc) (hw c hc) hd

theorem demo_keeps {a c : Nat} (h : demoShape.Keeps a c) :
    (a = 8 ∨ a = 24) ∧ (c = 16 ∨ c = 32) := by
  rcases h with ⟨h0, hlive, rfl⟩ | ⟨-, y, hy, rfl⟩
  · have hlist : ∀ d ∈ demoShape.live, demoShape.up d ≠ 0 →
        (demoShape.up d = 8 ∨ demoShape.up d = 24) ∧ (d = 16 ∨ d = 32) := by decide
    exact hlist _ hlive h0
  · obtain ⟨rfl, rfl⟩ := demo_refs hy
    exact ⟨.inr rfl, .inl rfl⟩

theorem demo_collectable :
    demoShape.Collectable demoHeap.nullContext (Answers demoOutcomes demoHeap) 8 where
  decided := fun c hc ht => absurd ht (demo_willing (demo_below hc))
  held := fun c _ y hy => by
    obtain ⟨rfl, -⟩ := demo_refs hy
    exact ⟨by decide, by decide⟩
  apart := fun c _ _ hk => by
    obtain ⟨y, -, hyc⟩ := TransGen.tail'_iff.1 hk
    obtain ⟨z, hcz, -⟩ := TransGen.head'_iff.1 hk
    rcases (demo_keeps hyc).2 with rfl | rfl
    · exact absurd (demo_keeps hcz).1 (by decide)
    · exact absurd (demo_keeps hcz).1 (by decide)

/-- When the chunk 8 goes, 16 is left to the chunk that has a reference to it. -/
theorem free_collects_demo :
    ∃ S' k', Faulty.Ends (fun n => free demoOutcomes n 8) demoHeap 0 k' ∧ Stands k' S' ∧
    8 ∉ S'.live ∧ 16 ∈ S'.live ∧ S'.owners 16 = [24] := by
  have h24 : ¬ demoShape.Doomed (Answers demoOutcomes demoHeap) 8 24 := fun hd => by
    rcases demo_below (hd.below demo_stands.wf demo_mine.live) with h | h
    · exact absurd h (by decide)
    · exact absurd h (by decide)
  have h16 : ¬ demoShape.Doomed (Answers demoOutcomes demoHeap) 8 16 := fun hd => by
    cases hd with
    | owned _ howners => exact h24 (howners 24 (by decide))
  obtain ⟨S', k', hrun, hstands, hlive, howners, -⟩ := demo_stands.free_collects demo_mine rfl
    (demo_willing (.inl rfl)) demo_collectable demo_clear
  have hn : ∀ c, c = 8 ∨ c = 16 → ¬ demoShape.IsHandle c := by
    rintro c hc ⟨d, hd⟩
    exact absurd (demo_refs hd).1 (by omega)
  have hleft := (hlive 16 (hn 16 (.inr rfl))).2 ⟨by decide, h16⟩
  refine ⟨S', k', hrun, hstands, fun h8 => ((hlive 8 (hn 8 (.inl rfl))).1 h8).2 .self,
    hleft, ?_⟩
  have h8 : demoShape.Doomed (Answers demoOutcomes demoHeap) 8 8 := .self
  have howned : demoShape.owners 16 = [8, 24] := rfl
  rw [howners 16 hleft, Shape.heirs, howned]
  simp [h8, h24]

/-- The second tree is moved under the first. -/
def jointHeap : Heap := (Call.steal 8 24).after demoOutcomes demoHeap

theorem joint_stands : Stands jointHeap (demoShape.steal 24 8) := by
  have hmine : Mine demoHeap demoShape 24 := demo_stands.mine rfl (by decide) (by decide)
  have hapart : ¬ ReflTransGen demoShape.Over 24 8 := fun h => by
    rcases h.cases_tail with heq | ⟨y, -, h0, -, rfl⟩
    · exact absurd heq (by decide)
    · exact h0 rfl
  obtain ⟨S', hS', rfl⟩ := demo_stands.after (D := demoOutcomes) (by decide) (.steal 8 24)
    (.inr ⟨hmine, .inr (by decide), fun ⟨_, hh⟩ => absurd (demo_refs hh).1 (by decide),
      fun h => absurd h hapart⟩)
  exact hS'

/-- How long a chain of owners is. -/
def jointDepth (c : Nat) : Nat := if c = 8 then 0 else if c = 24 then 1 else 2

theorem joint_keeps {a c : Nat} (h : (demoShape.steal 24 8).Keeps a c) :
    jointDepth a < jointDepth c := by
  rcases h with ⟨h0, hlive, rfl⟩ | ⟨-, y, hy, rfl⟩
  · have hlist : ∀ d ∈ (demoShape.steal 24 8).live, (demoShape.steal 24 8).up d ≠ 0 →
        jointDepth ((demoShape.steal 24 8).up d) < jointDepth d := by decide
    exact hlist _ hlive h0
  · obtain ⟨rfl, rfl⟩ := demo_refs hy
    decide

theorem joint_acyclic : Acyclic (demoShape.steal 24 8).Keeps := by
  intro c hk
  have hlt : TransGen (· < ·) (jointDepth c) (jointDepth c) :=
    TransGen.lift jointDepth (fun _ _ h => joint_keeps h) _ _ hk
  rw [transGen_eq_self] at hlt
  exact lt_irrefl _ hlt

/-- With the chunk 8 goes everything. -/
theorem free_all_demo :
    ∃ k', Faulty.Ends (fun n => free demoOutcomes n 8) jointHeap 0 k' ∧
      ∀ c, k'.live c = false := by
  have hlist : ∀ c ∈ (demoShape.steal 24 8).live, c = 8 ∨ c = 16 ∨ c = 24 ∨
      c = 32 := by decide
  have h24 : (demoShape.steal 24 8).Over 8 24 := ⟨by decide, by decide, rfl⟩
  have hall : ∀ c ∈ (demoShape.steal 24 8).live, ReflTransGen (demoShape.steal 24 8).Over 8
      c := by
    intro c hc
    rcases hlist c hc with rfl | rfl | rfl | rfl
    · exact .refl
    · exact .single ⟨by decide, by decide, rfl⟩
    · exact .single h24
    · exact .tail (.single h24) ⟨by decide, by decide, rfl⟩
  have hw : ∀ c ∈ (demoShape.steal 24 8).live, ¬ Answers demoOutcomes jointHeap c true := by
    intro c hc
    rcases hlist c hc with rfl | rfl | rfl | rfl <;> exact Bool.noConfusion
  have hmine : Mine jointHeap (demoShape.steal 24 8) 8 :=
    joint_stands.mine rfl (by decide) (by decide)
  obtain ⟨l, k', hends, hnone, -⟩ := joint_stands.free_all hmine hall hw joint_acyclic
  exact ⟨k', hends, hnone⟩

end Talloc
end AnekVideo
