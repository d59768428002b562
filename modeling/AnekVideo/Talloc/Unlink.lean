/-
  AnekVideo.Talloc.Unlink

  `talloc_free`, `talloc_unreference` and `talloc_unlink` on a memory at rest, where
  nothing is being freed.
-/
import AnekVideo.Talloc.Free

namespace AnekVideo
namespace Talloc

open Interact Linked Relation

variable {D : Outcomes} {k k' : Heap} {S S' : Shape} {b c h p q x n : Nat} {L : List Nat}

/-- Between two calls `k` stands for the forest `S`. -/
structure Stands (k : Heap) (S : Shape) : Prop where
  rep : Rep k S
  wf : S.Wf
  loose : S.loose = ∅

/-- A chunk that a caller has a pointer to: no handle, nor the null context. -/
structure Mine (k : Heap) (S : Shape) (p : Nat) : Prop where
  live : p ∈ S.live
  handle : ¬ S.IsHandle p
  null : p ≠ k.nullContext

theorem Stands.ready (h : Stands k S) (hp : Mine k S p) (ht : S.Tame (Answers D k) p) :
    S.Ready k.nullContext (Answers D k) p where
  wf := h.wf
  nullOk := h.rep.null
  live := hp.live
  ne := hp.null
  loose := fun d hd => absurd hd (h.loose ▸ Finset.notMem_empty d)
  tame := ht

/-- `talloc_free`. -/
theorem Stands.free_run (h : Stands k S) (hp : Mine k S p) (ht : S.Tame (Answers D k) p)
    (hc : Clear k S p) (hn : S.live.card < n) :
    ∃ b l S' k', free D n p k = .ok (if b then 0 else -1, k') ∧
      S.Frees k.nullContext (Answers D k) (.free p) b l S' ∧ Stands k' S' ∧ Spares k k' S' ∧
      k'.ran = asked k l ++ k.ran := by
  have hl : p ∉ S.loose := h.loose ▸ Finset.notMem_empty p
  have hR := h.ready hp ht
  have hdepth : (S.live \ S.loose).card < n :=
    lt_of_le_of_lt (Finset.card_le_card Finset.sdiff_subset) hn
  obtain ⟨b, l, S', k', hrun, hF, hrep, hspares, hran⟩ :=
    freeOk D (Answers D k) n n k S p h.rep hR hl hc (fun _ _ _ ha => ha) hdepth hn
  obtain ⟨-, hwf, hframe, -⟩ := hF.post ⟨hR, hl⟩
  exact ⟨b, l, S', k', hrun, hF, ⟨hrep, hwf, hframe.loose.trans h.loose⟩, hspares, hran⟩

/-- A handle is freed. -/
theorem Stands.drop (h : Stands k S) (hy : h' ∈ S.refs c) :
    Stands (k.dropped h' c) (S.drop h' c) := by
  have htrail : ∀ d ∈ S.loose, k.prev .chunk d ≠ h' :=
    fun d hd => absurd hd (h.loose ▸ Finset.notMem_empty d)
  exact ⟨(h.rep.dropped h.wf hy htrail).1, h.wf.drop hy,
    (Shape.drop_loose (h.wf.refs c _ hy).2.2).trans h.loose⟩

/-! ## `talloc_unreference` -/

/-- The newest reference to `c` that hangs off `x`. -/
def Shape.refFrom (S : Shape) (x c : Nat) : Option Nat := (S.refs c).find? fun y => S.up y = x

theorem Rep.findHandle_run (hr : Rep k S) (hS : S.Wf) (hn : S.live.card < n)
    (hL : Chain (k.next .handle) (k.prev .handle) 0 b x L) (hlive : ∀ a ∈ L, a ∈ S.live)
    {m : Nat} (hm : L.length < m) :
    Faulty.rounds Fault.stuck (fun y => do
      if y = 0 then return .inr 0
      else
        let p ← tallocParentChunk n y
        if p = c then return .inr y
        else
          let next ← load (·.next .handle) y
          return .inl next) m x k = .ok ((L.find? fun y => S.up y = c).getD 0, k) := by
  induction L generalizing b x m with
  | nil =>
    obtain ⟨m, rfl⟩ : ∃ j, m = j + 1 := ⟨m - 1, by omega⟩
    have h0 : x = 0 := hL
    refine Faulty.rounds_done ?_
    rw [if_pos h0]
    rfl
  | cons a L ih =>
    obtain ⟨rfl, h0, -, hrest⟩ := hL
    obtain ⟨m, rfl⟩ : ∃ j, m = j + 1 := ⟨m - 1, by omega⟩
    have hx := hlive x (List.mem_cons_self ..)
    have hrun := hr.tree.parentChunk_run hS hx hn
    by_cases hc : S.up x = c
    · rw [List.find?_cons_of_pos (by simpa using hc)]
      refine Faulty.rounds_done ?_
      rw [if_neg h0, Faulty.bind_run hrun, if_pos hc]
      rfl
    · rw [List.find?_cons_of_neg (by simpa using hc)]
      have hround := ih hrest (fun y hy => hlive y (List.mem_cons_of_mem _ hy)) (m := m)
        (by simpa using hm)
      refine (Faulty.rounds_again ?_).trans hround
      rw [if_neg h0, Faulty.bind_run hrun, if_neg hc, Faulty.bind_run (load_run (hr.tree.alive hx))]
      rfl

theorem Stands.unreference_run (h : Stands k S) (hc : c ∈ S.live) (hn : S.live.card < n)
    (D : Outcomes) (x : Nat) :
    tallocUnreference D n x c k = .ok (match S.refFrom (k.context x) c with
      | none => (-1, k)
      | some y => (0, k.dropped y c)) := by
  have hcontext : (if x = 0 then k.nullContext else x) = k.context x := rfl
  -- a chunk has fewer references than there are chunks, so the search gets to the end
  have hlen : (S.refs c).length < n := by
    have hsub : (S.refs c).toFinset ⊆ S.live :=
      fun a ha => (h.wf.refs c a (List.mem_toFinset.1 ha)).2.1
    have hcard := Finset.card_le_card hsub
    rw [List.toFinset_card_of_nodup (h.wf.refs_nodup c)] at hcard
    omega
  have hfind := h.rep.findHandle_run (c := k.context x) h.wf hn (h.rep.refs.chain c hc)
    (fun a ha => (h.wf.refs c a ha).2.1) hlen
  unfold tallocUnreference
  rw [Faulty.bind_run (chunk_run (h.rep.tree.alive hc)), Faulty.bind_run nullContext_run,
    Faulty.bind_run (load_run (h.rep.tree.alive hc))]
  simp only [hcontext]
  rw [Faulty.bind_run (show findHandle n (k.context x) (k.refs c) k = _ from hfind)]
  unfold Shape.refFrom
  cases hy : (S.refs c).find? fun y => S.up y = k.context x with
  | none => rfl
  | some y =>
    have hmem := List.mem_of_find?_eq_some hy
    obtain ⟨n, rfl⟩ : ∃ j, n = j + 1 := ⟨n - 1, by omega⟩
    rw [Option.getD_some, if_neg (h.wf.ne_zero (h.wf.refs c y hmem).2.1)]
    exact h.rep.free_handle h.wf hmem n n

/-! ## `talloc_unlink` -/

theorem Heap.context_context (k : Heap) (x : Nat) : k.context (k.context x) = k.context x := by
  unfold Heap.context
  by_cases h0 : x = 0
  · rw [if_pos h0, ite_self]
  · rw [if_neg h0, if_neg h0]

/-- What `talloc_unlink` of `p` from `x` relies on, beyond its arguments. -/
structure Unlinkable (D : Outcomes) (k : Heap) (S : Shape) (p : Nat) : Prop where
  tame : S.Tame (Answers D k) p
  clear : Clear k S p
  apart : ∀ h ∈ S.refs p, ¬ ReflTransGen S.Over p h

/-- What `talloc_unlink` of `p` from `x` does. -/
inductive Shape.Unlinks (null : Nat) (answer : Nat → Bool → Prop) (S : Shape) (p x : Nat) :
    Int → Shape → Prop
  | reference {y : Nat} (hy : S.refFrom x p = some y) : Unlinks null answer S p x 0 (S.drop y p)
  | stranger (hy : S.refFrom x p = none) (hx : S.up p ≠ x) : Unlinks null answer S p x (-1) S
  | free {b : Bool} {l : List Nat} {S' : Shape} (hr : S.refs p = []) (hx : S.up p = x)
      (hF : S.Frees null answer (.free p) b l S') :
        Unlinks null answer S p x (if b then 0 else -1) S'
  | pass {y z : Nat} {L : List Nat} (hy : S.refFrom x p = none) (hx : S.up p = x)
      (hr : S.refs p = y :: L) (hz : S.refFrom (if S.up y = 0 then null else S.up y) p = some z) :
      Unlinks null answer S p x 0 ((S.drop z p).steal p (if S.up y = 0 then null else S.up y))
  | astray {y : Nat} {L : List Nat} (hy : S.refFrom x p = none) (hx : S.up p = x)
      (hr : S.refs p = y :: L)
      (hz : S.refFrom (if S.up y = 0 then null else S.up y) p = none) :
        Unlinks null answer S p x (-1) S

/-- Where a reference hangs is a place for what it refers to. -/
theorem Stands.place (h : Stands k S) (hp : Mine k S p) {y : Nat} (hy : y ∈ S.refs p)
    (hapart : ¬ ReflTransGen S.Over p y) :
    (k.context (S.up y) = 0 ∨ k.context (S.up y) ∈ S.live) ∧
      ¬ S.IsHandle (k.context (S.up y)) ∧ ¬ ReflTransGen S.Over p (k.context (S.up y)) := by
  have hyl := (h.wf.refs p y hy).2.1
  unfold Heap.context
  split
  · -- it hangs nowhere, which stands for the null context
    refine ⟨h.rep.null.imp id fun hn => hn.1, fun hh => ?_, h.rep.null.not_below h.wf hp.null⟩
    obtain ⟨d, hd⟩ := hh
    exact h.rep.handle_ne_null h.wf hd rfl
  · rename_i h0
    have hup : S.Over (S.up y) y := ⟨h0, hyl, rfl⟩
    exact ⟨.inr ((h.wf.up y hyl).resolve_left h0), fun hh => h.wf.handle_over hh hup,
      fun hpx => hapart (hpx.tail hup)⟩

/-- Where there is a reference from `x`, `talloc_unlink` frees it. -/
theorem Stands.unlink_reference_run (h : Stands k S) (hp : p ∈ S.live) (hn : S.live.card < n)
    (D : Outcomes) {y : Nat} (hy : S.refFrom (k.context x) p = some y) :
    tallocUnlink D n x p k = .ok (0, k.dropped y p) := by
  have hcontext : (if x = 0 then k.nullContext else x) = k.context x := rfl
  have hunref := h.unreference_run hp hn D (k.context x)
  rw [k.context_context, hy] at hunref
  unfold tallocUnlink
  rw [if_neg (h.wf.ne_zero hp), Faulty.bind_run nullContext_run]
  simp only [hcontext]
  rw [Faulty.bind_run hunref]
  rfl

theorem Stands.unlink_run (h : Stands k S) (hp : Mine k S p)
    (hx : k.context x = 0 ∨ k.context x ∈ S.live) (hu : Unlinkable D k S p)
    (hn : S.live.card < n) :
    ∃ r S' k', tallocUnlink D n x p k = .ok (r, k') ∧ Stands k' S' ∧
      S.Unlinks k.nullContext (Answers D k) p (k.context x) r S' := by
  have hcontext : (if x = 0 then k.nullContext else x) = k.context x := rfl
  have hunref := h.unreference_run hp.live hn D (k.context x)
  rw [k.context_context] at hunref
  cases hy : S.refFrom (k.context x) p with
  | some y =>
    exact ⟨0, _, _, h.unlink_reference_run hp.live hn D hy, h.drop (List.mem_of_find?_eq_some hy),
      .reference hy⟩
  | none =>
    rw [hy] at hunref
    unfold tallocUnlink
    rw [if_neg (h.wf.ne_zero hp.live), Faulty.bind_run nullContext_run]
    simp only [hcontext]
    rw [Faulty.bind_run hunref]
    have hchunk : storeNonnull (k.context x) id k = .ok ((), k) := by
      rw [storeNonnull_run fun h0 => h.rep.tree.alive (hx.resolve_left h0)]
      split <;> rfl
    have hparent := h.rep.tree.parentChunk_run h.wf hp.live hn
    rw [if_neg (by decide), Faulty.bind_run hchunk, Faulty.bind_run hparent]
    by_cases hup : S.up p = k.context x
    · rw [if_neg (not_not.2 hup), Faulty.bind_run (load_run (h.rep.tree.alive hp.live))]
      -- the parent lets go: nobody else owns the chunk, or a reference does
      cases hr : S.refs p with
      | nil =>
        obtain ⟨b, l, S', k', hrun, hF, hstands, -⟩ := h.free_run hp hu.tame hu.clear hn
        rw [if_pos ((h.rep.refs.refs_eq_zero hp.live).2 hr)]
        exact ⟨_, S', k', hrun, hstands, .free hr hup hF⟩
      | cons y L =>
        have hyr : y ∈ S.refs p := hr ▸ List.mem_cons_self ..
        have hyl := (h.wf.refs p y hyr).2.1
        rw [h.rep.refs.refs_eq hp.live hr, if_neg (h.wf.ne_zero hyl),
          Faulty.bind_run (h.rep.tree.parentChunk_run h.wf hyl hn),
          Faulty.bind_run (h.unreference_run hp.live hn D (S.up y))]
        have hctx : k.context (S.up y) = if S.up y = 0 then k.nullContext else S.up y := rfl
        cases hz : S.refFrom (k.context (S.up y)) p with
        | none => exact ⟨-1, S, k, rfl, h, .astray hy hup hr hz⟩
        | some z =>
          have hzr := List.mem_of_find?_eq_some hz
          have hdrop := h.drop hzr
          obtain ⟨hxl, hxh, hxp⟩ := h.place hp hyr (hu.apart y hyr)
          -- what the reference hung off is still there, and not below the chunk
          have hframe : S.Frame k.nullContext z (S.drop z p) := .drop h.wf hzr (.inr .refl)
          have hspares :=
            (h.rep.dropped h.wf hzr fun d hd => absurd hd (h.loose ▸ Finset.notMem_empty d)).2
          have hctx₁ : (k.dropped z p).context (S.up y) = k.context (S.up y) := by
            unfold Heap.context
            rw [hspares.null]
          have hpz : p ≠ z := fun heq => hp.handle (heq ▸ ⟨p, hzr⟩)
          have hpl : p ∈ (S.drop z p).live := Finset.mem_erase.2 ⟨hpz, hp.live⟩
          have hph : ¬ (S.drop z p).IsHandle p := fun hh => hp.handle (hframe.isHandle hh)
          have hxl₁ : k.context (S.up y) = 0 ∨ k.context (S.up y) ∈ (S.drop z p).live :=
            hxl.imp id fun hmem => Finset.mem_erase.2 ⟨fun heq => hxh (heq ▸ ⟨p, hzr⟩),
              hmem⟩
          have hover : ¬ ReflTransGen (S.drop z p).Over p (k.context (S.up y)) := by
            intro hpath
            refine hxp (ReflTransGen.mono (fun a b hab => ?_) _ _ hpath)
            exact ⟨hab.1, Finset.mem_of_mem_erase hab.2.1, hab.2.2⟩
          have hlo : ∀ d, d ∉ (S.drop z p).loose :=
            fun d => hdrop.loose ▸ Finset.notMem_empty d
          obtain ⟨k', hsteal, hrep, -⟩ :=
            hdrop.rep.steal_run (x := S.up y) hdrop.wf hpl (hlo p) hph
            (hspares.null ▸ hp.null) (fun d hd => absurd hd (hlo d)) (hctx₁.symm ▸ hxl₁)
            (fun heq => hover (by rw [← hctx₁, ← heq]))
          rw [hctx₁] at hrep
          refine ⟨0, _, k', ?_,
            ⟨hrep, hdrop.wf.steal hpl hph hxl₁ (fun _ => hover) fun hh => hxh (hframe.isHandle hh),
            (Shape.steal_loose (hlo p)).trans hdrop.loose⟩, .pass hy hup hr hz⟩
          simp only
          rw [if_neg (by decide), Faulty.bind_run hsteal]
          rfl
    · -- neither a reference nor the parent
      rw [if_pos hup]
      exact ⟨-1, S, k, rfl, h, .stranger hy hup⟩

end Talloc
end AnekVideo
