/-
  AnekVideo.Talloc.Calls

  Runs of calls from the empty memory.

  Each call of a run keeps to what talloc.h asks of its caller, and to what `Tame` and
  `Clear` say of the chunk it frees.  Then every call ends, no access goes astray, and the
  memory stands for a forest again.
-/
import AnekVideo.Talloc.Realloc
import AnekVideo.Talloc.Unlink

namespace AnekVideo
namespace Talloc

open Interact Linked Relation

/-! ## Wider bounds -/

section

variable {D : Outcomes} {n m d d' c context ptr : Nat}

theorem firstSibling_le (h : n ≤ m) : (firstSibling n c).Le (firstSibling m c) :=
  .rounds (fun _ => .refl) h

theorem tallocParentChunk_le (h : n ≤ m) :
    (tallocParentChunk n c).Le (tallocParentChunk m c) := by
  unfold tallocParentChunk
  exact .ite .refl (.bind .refl fun _ => .bind (firstSibling_le h) fun _ => .refl)

theorem climb_le {test : Nat → T Bool} (h : n ≤ m) : (climb n test c).Le (climb m test c) := by
  refine .rounds (fun tc => .ite .refl (.bind .refl fun found => .ite .refl ?_)) h
  exact .bind (firstSibling_le h) fun _ => .refl

theorem tallocIsParent_le (h : n ≤ m) : (tallocIsParent n c ptr).Le (tallocIsParent m c ptr) := by
  unfold tallocIsParent
  exact .ite .refl (.bind .refl fun _ => .bind (climb_le h) fun _ => .refl)

theorem referrer_le (h : n ≤ m) : (referrer n c).Le (referrer m c) := by
  unfold referrer
  exact .bind .refl fun _ => .bind .refl fun _ =>
    .ite (.bind (tallocParentChunk_le h) fun _ => .refl) .refl

theorem freeChild_le {free free' : Nat → T Int} (hfree : ∀ c, (free c).Le (free' c))
    (h : n ≤ m) :
    (freeChild free n ptr).Le (freeChild free' m ptr) := by
  unfold freeChild
  refine .bind .refl fun c =>
    .ite .refl (.bind (referrer_le h) fun x => .bind (hfree c) fun r => .ite ?_ .refl)
  exact .bind .refl fun null => .ite (.bind (tallocParentChunk_le h) fun _ => .refl) .refl

theorem tallocFree_le (h : n ≤ m) (hd : d ≤ d') :
    (tallocFree D n d ptr).Le (tallocFree D m d' ptr) := by
  induction d generalizing d' ptr with
  | zero => exact .error
  | succ d ih =>
    obtain ⟨e, rfl⟩ : ∃ e, d' = e + 1 := ⟨d' - 1, by omega⟩
    have hrec : ∀ c, (tallocFree D n d c).Le (tallocFree D m e c) :=
      fun c => ih (Nat.le_of_succ_le_succ hd)
    rw [tallocFree, tallocFree]
    refine .ite .refl (.bind .refl fun _ => .bind .refl fun refs => .ite ?_ ?_)
    · exact .bind (tallocIsParent_le h) fun b => .bind (hrec refs) fun _ => .ite (hrec ptr) .refl
    · refine .bind .refl fun loop => .ite .refl (.bind .refl fun refused => .ite .refl ?_)
      refine .bind .refl fun _ => .bind .refl fun _ => .bind ?_ fun _ => .refl
      exact .rounds (fun _ => freeChild_le hrec h) h

theorem free_le (h : n ≤ m) : (free D n ptr).Le (free D m ptr) := tallocFree_le h h

theorem findHandle_le {y : Nat} (h : n ≤ m) :
    (findHandle n context y).Le (findHandle m context y) := by
  refine .rounds (fun y => .ite .refl ?_) h
  exact .bind (tallocParentChunk_le h) fun _ => .refl

theorem tallocUnreference_le (h : n ≤ m) :
    (tallocUnreference D n context ptr).Le (tallocUnreference D m context ptr) := by
  unfold tallocUnreference
  refine .bind .refl fun _ => .bind .refl fun null => .bind .refl fun refs =>
    .bind (findHandle_le h) fun y => ?_
  exact .ite .refl (free_le h)

theorem tallocUnlink_le (h : n ≤ m) :
    (tallocUnlink D n context ptr).Le (tallocUnlink D m context ptr) := by
  unfold tallocUnlink
  refine .ite .refl (.bind .refl fun null => .bind (tallocUnreference_le h) fun r => .ite .refl ?_)
  refine .bind .refl fun _ => .bind (tallocParentChunk_le h) fun parent => .ite .refl ?_
  refine .bind .refl fun refs => .ite (free_le h) (.bind (tallocParentChunk_le h) fun x => ?_)
  exact .bind (tallocUnreference_le h) fun r => .refl

theorem tallocRealloc_le {mem size : Nat} {name : Name} (h : n ≤ m) :
    (tallocRealloc D n mem context ptr size name).Le
      (tallocRealloc D m mem context ptr size name) := by
  unfold tallocRealloc
  exact .ite (.bind (free_le h) fun _ => .refl) .refl

end

/-! ## Calls -/

/-- A call, with what `malloc` and `realloc` return in it. -/
inductive Call
  | alloc (mem context size : Nat) (name : String)
  | setDestructor (ptr : Nat) (d : Destructor)
  | reference (mem context ptr : Nat)
  | increaseRefCount (mem ptr : Nat)
  | steal (newCtx ptr : Nat)
  | free (ptr : Nat)
  | unlink (context ptr : Nat)
  | realloc (mem context ptr size : Nat) (name : String)
  | enableNullTracking (mem : Nat)

variable (D : Outcomes)

/-- The call, its loops bounded by `n`; what it returns is dropped. -/
def Call.run (n : Nat) : Call → T Unit
  | .alloc mem context size name => do
    let _ ← tallocNamedConst mem context size (.str name)
  | .setDestructor ptr d => tallocSetDestructor ptr d
  | .reference mem context ptr => do
    let _ ← tallocReference mem context ptr
  | .increaseRefCount mem ptr => do
    let _ ← tallocIncreaseRefCount mem ptr
  | .steal newCtx ptr => do
    let _ ← tallocSteal newCtx ptr
  | .free ptr => do
    let _ ← Talloc.free D n ptr
  | .unlink context ptr => do
    let _ ← tallocUnlink D n context ptr
  | .realloc mem context ptr size name => do
    let _ ← tallocRealloc D n mem context ptr size (.str name)
  | .enableNullTracking mem => tallocEnableNullTracking mem

/-- What a call asks for in a memory that stands for `S`. -/
def Call.Ok (k : Heap) (S : Shape) : Call → Prop
  | .alloc mem context _ _ => Room k S mem context
  | .setDestructor ptr d => Mine k S ptr ∧ (d = .none ∨ ∃ e, d = .user e)
  | .reference mem context ptr => ptr = 0 ∨ (Room k S mem context ∧ Mine k S ptr)
  | .increaseRefCount mem ptr => ptr = 0 ∨ (Room k S mem k.nullContext ∧ Mine k S ptr)
  | .steal newCtx ptr => ptr = 0 ∨
      (Mine k S ptr ∧ (k.context newCtx = 0 ∨ k.context newCtx ∈ S.live) ∧
      ¬ S.IsHandle (k.context newCtx) ∧
        (ReflTransGen S.Over ptr (k.context newCtx) → ptr = k.context newCtx))
  | .free ptr => ptr = 0 ∨ (Mine k S ptr ∧ S.Tame (Answers D k) ptr ∧ Clear k S ptr)
  | .unlink context ptr => ptr = 0 ∨
      (Mine k S ptr ∧ (k.context context = 0 ∨ k.context context ∈ S.live) ∧
      Unlinkable D k S ptr)
  | .realloc mem context ptr size _ =>
      if ptr = 0 then Room k S mem context
      else Mine k S ptr ∧
        if size = 0 then S.Tame (Answers D k) ptr ∧ Clear k S ptr else mem ≠ 0 → S.Vacant ptr mem
  | .enableNullTracking mem => mem ≠ 0 → mem ∉ S.live

/-- What a call does to the forest `S`. -/
def Call.Effect (D : Outcomes) (k : Heap) (S S' : Shape) : Call → Prop
  | .alloc mem context size _ =>
    S' = if Granted mem size then S.alloc mem (k.context context) else S
  | .setDestructor _ _ => S' = S
  | .reference mem context ptr =>
    S' = if ptr = 0 ∨ mem = 0 then S else S.reference mem (k.context context) ptr
  | .increaseRefCount mem ptr =>
    S' = if ptr = 0 ∨ mem = 0 then S else S.reference mem k.nullContext ptr
  | .steal newCtx ptr =>
    S' = if ptr = 0 ∨ ptr = k.context newCtx then S else S.steal ptr (k.context newCtx)
  | .free ptr =>
    if ptr = 0 then S' = S else ∃ b l, S.Frees k.nullContext (Answers D k) (.free ptr) b l S'
  | .unlink context ptr =>
      if ptr = 0 then S' = S
      else ∃ r, S.Unlinks k.nullContext (Answers D k) ptr (k.context context) r S'
  | .realloc mem context ptr size _ =>
      if ptr = 0 then
        S' = if size ≠ 0 ∧ Granted mem size then S.alloc mem (k.context context) else S
      else if size = 0 then ∃ b l, S.Frees k.nullContext (Answers D k) (.free ptr) b l S'
      else
        S' = if size < maxTallocSize ∧ S.refs ptr = [] ∧ mem ≠ 0 then S.rename ptr mem else S
  | .enableNullTracking mem => S' = if k.nullContext = 0 ∧ mem ≠ 0 then S.alloc mem 0 else S

variable {D} {k k' : Heap} {S S' : Shape} {c d p x m n : Nat}

theorem Call.run_le (c : Call) (h : n ≤ m) : (c.run D n).Le (c.run D m) := by
  cases c with
  | free ptr => exact .bind (free_le h) fun _ => .refl
  | unlink context ptr => exact .bind (tallocUnlink_le h) fun _ => .refl
  | realloc mem context ptr size name => exact .bind (tallocRealloc_le h) fun _ => .refl
  | alloc | setDestructor | reference | increaseRefCount | steal | enableNullTracking => exact .refl

/-! ## One call -/

/-- `_talloc_set_destructor`. -/
theorem Stands.setDestructor_run (h : Stands k S) (hp : Mine k S p) {e : Destructor}
    (he : e = .none ∨ ∃ i, e = .user i) :
    ∃ k', tallocSetDestructor p e k = .ok ((), k') ∧ Stands k' S := by
  refine ⟨k.setDestructor p e, store_run (h.rep.tree.alive hp.live), ?_, h.wf, h.loose⟩
  refine h.rep.ran hp.handle (fun c hc => Function.update_of_ne hc e k.destructor) ?_ k.ran
  rw [Function.update_self]
  rcases he with rfl | ⟨i, rfl⟩
  · exact ⟨Destructor.noConfusion, Destructor.noConfusion⟩
  · exact ⟨Destructor.noConfusion, Destructor.noConfusion⟩

/-- `_talloc_named_const`. -/
theorem Stands.alloc_run (h : Stands k S) {mem context : Nat} (hroom : Room k S mem context)
    (size : Nat) (s : String) :
    ∃ r k' S', tallocNamedConst mem context size (.str s) k = .ok (r, k') ∧ Stands k' S' ∧
      ((¬ Granted mem size ∧ r = 0 ∧ k' = k ∧ S' = S) ∨
        (Granted mem size ∧ r = mem ∧ S' = S.alloc mem (k.context context))) := by
  have hrun := h.rep.namedConst_run h.wf hroom size s
  split at hrun
  · rename_i hg
    obtain ⟨k', hrun, hrep, -⟩ := hrun
    have hmem := hroom.fresh hg.2
    refine ⟨mem, k', _, hrun, ⟨hrep, h.wf.alloc hmem hg.2 hroom.under hroom.owner, ?_⟩,
      .inr ⟨hg, rfl, rfl⟩⟩
    exact (Shape.alloc_loose (h.loose ▸ Finset.notMem_empty mem)).trans h.loose
  · rename_i hg
    exact ⟨0, k, S, hrun, h, .inl ⟨hg, rfl, rfl, rfl⟩⟩

/-- `_talloc_reference`. -/
theorem Stands.reference_run (h : Stands k S) {mem context : Nat} (hroom : Room k S mem context)
    (hp : Mine k S p) :
    ∃ r k' S', tallocReference mem context p k = .ok (r, k') ∧ Stands k' S' ∧
      ((mem = 0 ∧ r = 0 ∧ k' = k ∧ S' = S) ∨
        (mem ≠ 0 ∧ r = p ∧ S' = S.reference mem (k.context context) p ∧
          k'.nullContext = k.nullContext)) := by
  have hrun := h.rep.reference_run h.wf hroom hp.live hp.null
  split at hrun
  · rename_i h0
    exact ⟨0, k, S, hrun, h, .inl ⟨h0, rfl, rfl, rfl⟩⟩
  · rename_i h0
    obtain ⟨k', hrun, hrep, hnull⟩ := hrun
    have hmem := hroom.fresh h0
    refine ⟨p, k', _, hrun,
      ⟨hrep, h.wf.reference hp.live hp.handle hmem h0 hroom.under hroom.owner, ?_⟩,
      .inr ⟨h0, rfl, rfl, hnull⟩⟩
    have hlo : mem ∉ S.loose := h.loose ▸ Finset.notMem_empty mem
    exact (Shape.alloc_loose (x := k.context context) hlo).trans h.loose

/-- `__talloc_steal`. -/
theorem Stands.steal_run (h : Stands k S) (hp : Mine k S p)
    (hx : k.context x = 0 ∨ k.context x ∈ S.live) (hxn : ¬ S.IsHandle (k.context x))
    (hover : ReflTransGen S.Over p (k.context x) → p = k.context x) :
    ∃ k' S', tallocSteal x p k = .ok (p, k') ∧ Stands k' S' ∧
      S' = if p = k.context x then S else S.steal p (k.context x) := by
  have hlo : ∀ d, d ∉ S.loose := fun d => h.loose ▸ Finset.notMem_empty d
  by_cases hpx : p = k.context x
  · refine ⟨k, S, ?_, h, by rw [if_pos hpx]⟩
    have hlive := h.rep.tree.alive hp.live
    have hcontext : (if x = 0 then k.nullContext else x) = k.context x := rfl
    unfold tallocSteal
    rw [if_neg (h.wf.ne_zero hp.live), Faulty.bind_run nullContext_run]
    simp only [hcontext, ← hpx]
    rw [Faulty.bind_run (chunk_run hlive), if_neg (h.wf.ne_zero hp.live),
      Faulty.bind_run (chunk_run hlive), Faulty.bind_run (load_run hlive), if_pos (Or.inl trivial)]
    rfl
  · obtain ⟨k', hrun, hrep, -⟩ := h.rep.steal_run h.wf hp.live (hlo p) hp.handle hp.null
      (fun d hd => absurd hd (hlo d)) hx hpx
    refine ⟨k', _, hrun, ⟨hrep, ?_, (Shape.steal_loose (hlo p)).trans h.loose⟩, by rw [if_neg hpx]⟩
    exact h.wf.steal hp.live hp.handle hx (fun _ hpath => hpx (hover hpath)) hxn

/-- `talloc_enable_null_tracking`. -/
theorem Stands.enableNullTracking_run (h : Stands k S) (hm : m ≠ 0 → m ∉ S.live) :
    ∃ k' S', tallocEnableNullTracking m k = .ok ((), k') ∧ Stands k' S' ∧
      S' = if k.nullContext = 0 ∧ m ≠ 0 then S.alloc m 0 else S := by
  unfold tallocEnableNullTracking
  rw [Faulty.bind_run nullContext_run]
  by_cases h0 : k.nullContext = 0
  · have hcontext : k.context 0 = 0 := h0
    have hno : ¬ S.IsHandle 0 := fun ⟨d, hd⟩ => h.wf.ne_zero (h.wf.refs d 0 hd).2.1 rfl
    obtain ⟨r, k', S', hrun, hstands, hcase⟩ := h.alloc_run (show Room k S m 0 from
      ⟨hm, .inl hcontext, hcontext.symm ▸ hno⟩) 0 "null_context"
    rw [if_pos h0, Faulty.bind_run hrun]
    -- the new null context is a chunk like any other, on top and without references
    refine ⟨_, S', rfl,
      ⟨⟨?_, ?_, hstands.rep.handle, hstands.rep.named, hstands.rep.idle, hstands.rep.loop, ?_⟩,
      hstands.wf, hstands.loose⟩, ?_⟩
    · exact hstands.rep.tree.congr rfl rfl rfl rfl rfl
    · exact hstands.rep.refs.congr rfl rfl rfl rfl subset_rfl rfl
    · rcases hcase with ⟨-, rfl, -, -⟩ | ⟨hg, rfl, rfl⟩
      · exact .inl rfl
      · have hm' := hm hg.2
        refine .inr ⟨Finset.mem_insert_self .., ?_, ?_,
          fun ⟨d, hd⟩ => hm' (h.wf.refs d r hd).2.1, h.wf.refs_of_dead hm'⟩
        · exact hstands.loose ▸ Finset.notMem_empty r
        · rw [Shape.alloc_up_self, hcontext]
    · rcases hcase with ⟨hg, -, -, rfl⟩ | ⟨hg, -, rfl⟩
      · rw [if_neg fun hm => hg ⟨by decide, hm.2⟩]
      · rw [if_pos ⟨h0, hg.2⟩, hcontext]
  · rw [if_neg h0, if_neg fun hm => h0 hm.1]
    exact ⟨k, S, rfl, h, rfl⟩

/-- `_talloc_realloc` of a chunk, for a size that is not 0. -/
theorem Stands.realloc_run (h : Stands k S) (hp : Mine k S p) (hm : m ≠ 0 → S.Vacant p m)
    (D : Outcomes) (n context : Nat) {size : Nat} (hsize : size ≠ 0) (s : String) :
    ∃ r k' S', tallocRealloc D n m context p size (.str s) k = .ok (r, k') ∧ Stands k' S' ∧
      S' = if size < maxTallocSize ∧ S.refs p = [] ∧ m ≠ 0 then S.rename p m else S := by
  by_cases hmax : size < maxTallocSize
  · cases hr : S.refs p with
    | nil =>
      have hrun := h.rep.realloc_run h.wf hp.live h.loose hp.handle hr hp.null hm D n context
        (Nat.pos_of_ne_zero hsize) hmax s
      split at hrun
      · rename_i h0
        exact ⟨0, k, S, hrun, h, (if_neg fun hg => hg.2.2 h0).symm⟩
      · rename_i h0
        obtain ⟨k', hrun, hrep⟩ := hrun
        exact ⟨m, k', _, hrun, ⟨hrep, h.wf.rename hp.live h.loose hp.handle hr (hm h0), h.loose⟩,
          (if_pos ⟨hmax, rfl, h0⟩).symm⟩
    | cons y L =>
      -- with references the source gives up before it calls `realloc`
      have hlive := h.rep.tree.alive hp.live
      have hy : y ∈ S.refs p := hr ▸ List.mem_cons_self ..
      refine ⟨0, k, S, ?_, h, (if_neg fun hg => List.cons_ne_nil _ _ hg.2.1).symm⟩
      unfold tallocRealloc
      rw [if_neg hsize, if_neg (not_le.2 hmax), if_neg (h.wf.ne_zero hp.live),
        Faulty.bind_run (chunk_run hlive),
        Faulty.bind_run (load_run hlive), h.rep.refs.refs_eq hp.live hr,
          if_pos (h.wf.ne_zero (h.wf.refs p y hy).2.1)]
      rfl
  · refine ⟨0, k, S, ?_, h, (if_neg fun hg => hmax hg.1).symm⟩
    unfold tallocRealloc
    rw [if_neg hsize, if_pos (not_lt.1 hmax)]
    rfl

/-- `_talloc_reference` or not, as `ptr` is NULL. -/
theorem Stands.reference_or_run (h : Stands k S) {mem context ptr : Nat}
    (hc : ptr = 0 ∨ (Room k S mem context ∧ Mine k S ptr)) :
    ∃ r k' S', tallocReference mem context ptr k = .ok (r, k') ∧ Stands k' S' ∧
      S' = if ptr = 0 ∨ mem = 0 then S else S.reference mem (k.context context) ptr := by
  rcases hc with rfl | ⟨hroom, hp⟩
  · exact ⟨0, k, S, rfl, h, (if_pos (.inl rfl)).symm⟩
  · obtain ⟨r, k', S', hrun, hstands, hcase⟩ := h.reference_run hroom hp
    refine ⟨r, k', S', hrun, hstands, ?_⟩
    rcases hcase with ⟨h0, -, -, rfl⟩ | ⟨h0, -, rfl, -⟩
    · exact (if_pos (.inr h0)).symm
    · exact (if_neg (not_or.2 ⟨h.wf.ne_zero hp.live, h0⟩)).symm

/-- `_talloc_realloc`, which allocates for NULL and frees for the size 0. -/
theorem Stands.realloc_or_run (h : Stands k S) {mem context ptr size : Nat} {name : String}
    (hc : (Call.realloc mem context ptr size name).Ok D k S) (hn : S.live.card < n + 1) :
    ∃ r k' S', tallocRealloc D (n + 1) mem context ptr size (.str name) k = .ok (r, k') ∧
      Stands k' S' ∧ (Call.realloc mem context ptr size name).Effect D k S S' := by
  change (if ptr = 0 then Room k S mem context else Mine k S ptr ∧
    if size = 0 then S.Tame (Answers D k) ptr ∧ Clear k S ptr else mem ≠ 0 →
      S.Vacant ptr mem) at hc
  by_cases hp : ptr = 0
  · subst hp
    rw [if_pos rfl] at hc
    by_cases hs : size = 0
    · subst hs
      exact ⟨0, k, S, rfl, h, (if_neg fun hg => hg.1 rfl).symm⟩
    · by_cases hmax : maxTallocSize ≤ size
      · refine ⟨0, k, S, ?_, h, (if_neg fun hg => absurd hg.2.1 (not_lt.2 hmax)).symm⟩
        rw [tallocRealloc, if_neg hs, if_pos hmax]
        rfl
      · obtain ⟨r, k', S', hrun, hstands, hcase⟩ := h.alloc_run hc size name
        refine ⟨r, k', S', ?_, hstands, ?_⟩
        · rw [tallocRealloc, if_neg hs, if_neg hmax, if_pos rfl]
          exact hrun
        · rcases hcase with ⟨hg, -, -, rfl⟩ | ⟨hg, -, rfl⟩
          · exact (if_neg fun hg' => hg hg'.2).symm
          · exact (if_pos ⟨hs, hg⟩).symm
  · rw [if_neg hp] at hc
    obtain ⟨hmine, hc⟩ := hc
    by_cases hs : size = 0
    · subst hs
      rw [if_pos rfl] at hc
      obtain ⟨b, l, S', k', hrun, hF, hstands, -⟩ := h.free_run hmine hc.1 hc.2 hn
      refine ⟨0, k', S', ?_, hstands, ?_⟩
      · rw [tallocRealloc, if_pos rfl, Faulty.bind_run hrun]
        rfl
      · rw [Call.Effect, if_neg hp, if_pos rfl]
        exact ⟨b, l, hF⟩
    · rw [if_neg hs] at hc
      obtain ⟨r, k', S', hrun, hstands, heq⟩ := h.realloc_run hmine hc D (n + 1) context hs name
      refine ⟨r, k', S', hrun, hstands, ?_⟩
      rw [Call.Effect, if_neg hp, if_neg hs]
      exact heq

/-- A call that keeps to its terms ends, and leaves the forest it should. -/
theorem Call.run_ok (h : Stands k S) (c : Call) (hc : c.Ok D k S) (hn : S.live.card < n) :
    ∃ k' S', c.run D n k = .ok ((), k') ∧ Stands k' S' ∧ c.Effect D k S S' := by
  obtain ⟨n, rfl⟩ : ∃ j, n = j + 1 := ⟨n - 1, by omega⟩
  cases c with
  | alloc mem context size name =>
    obtain ⟨r, k', S', hrun, hstands, hcase⟩ := h.alloc_run hc size name
    refine ⟨k', S', Faulty.bind_run hrun, hstands, ?_⟩
    rcases hcase with ⟨hg, -, -, rfl⟩ | ⟨hg, -, rfl⟩
    · exact (if_neg hg).symm
    · exact (if_pos hg).symm
  | setDestructor ptr e =>
    obtain ⟨k', hrun, hstands⟩ := h.setDestructor_run hc.1 hc.2
    exact ⟨k', S, hrun, hstands, rfl⟩
  | reference mem context ptr =>
    obtain ⟨r, k', S', hrun, hstands, heq⟩ := h.reference_or_run hc
    exact ⟨k', S', Faulty.bind_run hrun, hstands, heq⟩
  | increaseRefCount mem ptr =>
    obtain ⟨r, k', S', hrun, hstands, heq⟩ := h.reference_or_run hc
    have hcontext : k.context k.nullContext = k.nullContext := by
      unfold Heap.context
      split <;> rfl
    rw [hcontext] at heq
    refine ⟨k', S', ?_, hstands, heq⟩
    have hinc : tallocIncreaseRefCount mem ptr k = .ok (if r = 0 then -1 else 0, k') := by
      unfold tallocIncreaseRefCount
      rw [Faulty.bind_run nullContext_run, Faulty.bind_run hrun]
      split <;> rfl
    exact Faulty.bind_run hinc
  | steal newCtx ptr =>
    rcases hc with rfl | ⟨hp, hx, hxn, hover⟩
    · exact ⟨k, S, rfl, h, (if_pos (.inl rfl)).symm⟩
    · obtain ⟨k', S', hrun, hstands, heq⟩ := h.steal_run hp hx hxn hover
      refine ⟨k', S', Faulty.bind_run hrun, hstands, ?_⟩
      change S' = if ptr = 0 ∨ ptr = k.context newCtx then S else S.steal ptr (k.context newCtx)
      rw [heq]
      simp only [h.wf.ne_zero hp.live, false_or]
  | free ptr =>
    rcases hc with rfl | ⟨hp, ht, hclear⟩
    · exact ⟨k, S, rfl, h, rfl⟩
    · obtain ⟨b, l, S', k', hrun, hF, hstands, -⟩ := h.free_run hp ht hclear hn
      refine ⟨k', S', Faulty.bind_run hrun, hstands, ?_⟩
      rw [Effect, if_neg (h.wf.ne_zero hp.live)]
      exact ⟨b, l, hF⟩
  | unlink context ptr =>
    rcases hc with rfl | ⟨hp, hx, hu⟩
    · exact ⟨k, S, rfl, h, rfl⟩
    · obtain ⟨r, S', k', hrun, hstands, hU⟩ := h.unlink_run hp hx hu hn
      refine ⟨k', S', Faulty.bind_run hrun, hstands, ?_⟩
      rw [Effect, if_neg (h.wf.ne_zero hp.live)]
      exact ⟨r, hU⟩
  | realloc mem context ptr size name =>
    obtain ⟨r, k', S', hrun, hstands, heffect⟩ := h.realloc_or_run hc hn
    exact ⟨k', S', Faulty.bind_run hrun, hstands, heffect⟩
  | enableNullTracking mem => exact h.enableNullTracking_run hc

/-! ## Runs -/

/-- What a call asks for, in the memory `k`. -/
def Call.Allowed (D : Outcomes) (k : Heap) (c : Call) : Prop := ∀ S, Stands k S → c.Ok D k S

/-- The memories that allowed calls lead to. -/
inductive Reached (D : Outcomes) : Heap → Prop
  | empty : Reached D .empty
  | call {k k' : Heap} {c : Call} (h : Reached D k) (hc : c.Allowed D k)
      (hrun : Faulty.Ends (c.run D) k () k') : Reached D k'

theorem Stands.empty : Stands .empty ⟨∅, ∅, fun _ => 0, fun _ => [], fun _ => []⟩ where
  rep := ⟨⟨by simp [Heap.empty], by simp, by simp, by simp, by simp⟩,
    ⟨by simp, by simp⟩, by simp, by simp, by simp, by simp, .inl rfl⟩
  wf := ⟨by simp, subset_rfl, by simp, by simp, by simp, fun a ha => by
    obtain ⟨y, -, hy⟩ := TransGen.tail'_iff.1 ha
    exact Finset.notMem_empty a hy.2.1, by simp, by simp, by simp, by simp⟩
  loose := rfl

/-- The memory determines the forest, up to parents of what is no chunk. -/
theorem Stands.unique (h : Stands k S) (h' : Stands k S') :
    S.live = S'.live ∧ S.kids = S'.kids ∧ S.refs = S'.refs ∧
    ∀ c ∈ S.live, S.up c = S'.up c := by
  have hlive : S.live = S'.live := Finset.ext fun a =>
    (h.rep.tree.live a).symm.trans (h'.rep.tree.live a)
  refine ⟨hlive, funext fun p => ?_, funext fun c => ?_, fun c hc => ?_⟩
  · by_cases hp : p ∈ S.live
    · exact (h.rep.tree.kids p hp).unique (h'.rep.tree.kids p (hlive ▸ hp))
    · rw [h.wf.kids_of_dead hp, h'.wf.kids_of_dead (hlive ▸ hp)]
  · by_cases hc : c ∈ S.live
    · exact (h.rep.refs.chain c hc).unique (h'.rep.refs.chain c (hlive ▸ hc))
    · rw [h.wf.refs_of_dead hc, h'.wf.refs_of_dead (hlive ▸ hc)]
  · -- both are where the walk to the parent ends
    have hrun := h.rep.tree.parentChunk_run h.wf hc (Nat.lt_succ_self _)
    have hrun' := h'.rep.tree.parentChunk_run h'.wf (hlive ▸ hc) (Nat.lt_succ_self _)
    rw [← hlive, hrun] at hrun'
    exact congrArg Prod.fst (Except.ok.inj hrun')

section

variable (h : Stands k S) (h' : Stands k S')
include h h'

theorem Stands.over_eq : S'.Over = S.Over := by
  obtain ⟨hlive, -, -, hup⟩ := h.unique h'
  funext a c
  simp only [Shape.Over, ← hlive, eq_iff_iff]
  exact and_congr_right fun _ => and_congr_right fun hc => by rw [hup c hc]

theorem Stands.isHandle_eq : S'.IsHandle = S.IsHandle := by
  obtain ⟨-, -, hrefs, -⟩ := h.unique h'
  unfold Shape.IsHandle
  rw [hrefs]

theorem Stands.keeps_eq : S'.Keeps = S.Keeps := by
  obtain ⟨-, -, hrefs, hup⟩ := h.unique h'
  have hheld : ∀ a c, (∃ y ∈ S.refs c, S'.up y = a) ↔ ∃ y ∈ S.refs c, S.up y = a := by
    intro a c
    refine exists_congr fun y => and_congr_right fun hy => ?_
    rw [hup y (h.wf.refs c y hy).2.1]
  funext a c
  simp only [Shape.Keeps, h.over_eq h', ← hrefs, hheld]

theorem Stands.tame_of (ht : S.Tame (Answers D k) p) : S'.Tame (Answers D k) p := by
  obtain ⟨-, -, hrefs, hup⟩ := h.unique h'
  unfold Shape.Tame
  rw [h.over_eq h', h.keeps_eq h', ← hrefs]
  intro c hc y hy hk
  rw [← hup y (h.wf.refs c y hy).2.1] at hk
  exact ht c hc y hy hk

theorem Stands.clear_of (hclear : Clear k S p) : Clear k S' p := by
  obtain ⟨-, -, hrefs, -⟩ := h.unique h'
  unfold Clear
  rw [h.over_eq h', ← hrefs, h'.loose, ← h.loose]
  exact hclear

theorem Stands.mine_of (hp : Mine k S p) : Mine k S' p where
  live := (h.unique h').1 ▸ hp.live
  handle := h.isHandle_eq h' ▸ hp.handle
  null := hp.null

theorem Stands.room_of (hroom : Room k S m x) : Room k S' m x where
  fresh := (h.unique h').1 ▸ hroom.fresh
  under := (h.unique h').1 ▸ hroom.under
  owner := h.isHandle_eq h' ▸ hroom.owner

theorem Stands.unlinkable_of (hu : Unlinkable D k S p) : Unlinkable D k S' p where
  tame := h.tame_of h' hu.tame
  clear := h.clear_of h' hu.clear
  apart := by
    obtain ⟨-, -, hrefs, -⟩ := h.unique h'
    rw [h.over_eq h', ← hrefs]
    exact hu.apart

end

/-- What a call asks for is asked of the memory: one forest that it stands for is as good as
    any other. -/
theorem Stands.allowed (h : Stands k S) {c : Call} (hc : c.Ok D k S) : c.Allowed D k := by
  intro S' h'
  have hlive : S.live = S'.live := (h.unique h').1
  cases c with
  | alloc => exact h.room_of h' hc
  | setDestructor => exact ⟨h.mine_of h' hc.1, hc.2⟩
  | reference => exact hc.imp id fun hc => ⟨h.room_of h' hc.1, h.mine_of h' hc.2⟩
  | increaseRefCount => exact hc.imp id fun hc => ⟨h.room_of h' hc.1, h.mine_of h' hc.2⟩
  | steal =>
    refine hc.imp id fun ⟨hp, hx, hn, hapart⟩ => ⟨h.mine_of h' hp, hlive ▸ hx, ?_, ?_⟩
    · rw [h.isHandle_eq h']
      exact hn
    · rw [h.over_eq h']
      exact hapart
  | free =>
    exact hc.imp id fun ⟨hp, ht, hcl⟩ =>
      ⟨h.mine_of h' hp, h.tame_of h' ht, h.clear_of h' hcl⟩
  | unlink =>
    exact hc.imp id fun ⟨hp, hx, hu⟩ =>
      ⟨h.mine_of h' hp, hlive ▸ hx, h.unlinkable_of h' hu⟩
  | realloc mem context ptr size name =>
    simp only [Call.Ok] at hc ⊢
    split_ifs at hc ⊢ with hp hs
    · exact h.room_of h' hc
    · exact ⟨h.mine_of h' hc.1, h.tame_of h' hc.2.1, h.clear_of h' hc.2.2⟩
    · rw [Shape.Vacant, ← hlive]
      exact ⟨h.mine_of h' hc.1, hc.2⟩
  | enableNullTracking mem =>
    intro h0
    rw [← hlive]
    exact hc h0

theorem Reached.stands (h : Reached D k) : ∃ S, Stands k S := by
  induction h with
  | empty => exact ⟨_, .empty⟩
  | @call k k' c h hc hrun ih =>
    obtain ⟨S, hS⟩ := ih
    obtain ⟨k'', S', hrun', hS', -⟩ := c.run_ok hS (hc S hS) (Nat.lt_succ_self _)
    obtain ⟨-, rfl⟩ := hrun.unique (.of_run (fun i j hij => c.run_le hij) hrun')
    exact ⟨S', hS'⟩

/-- In a run of allowed calls the memory always stands for a forest of chunks and references,
    and every further allowed call ends and does to the forest what it should: no bound on its
    loops or on its nesting is missed, and no access goes to what is not a chunk. -/
theorem Reached.simulates (h : Reached D k) : ∃ S, Stands k S ∧ ∀ c : Call, c.Allowed D k →
    ∃ k' S', Faulty.Ends (c.run D) k () k' ∧ Reached D k' ∧ Stands k' S' ∧
      c.Effect D k S S' := by
  obtain ⟨S, hS⟩ := h.stands
  refine ⟨S, hS, fun c hc => ?_⟩
  obtain ⟨k', S', hrun, hS', heffect⟩ := c.run_ok hS (hc S hS) (Nat.lt_succ_self _)
  have hends : Faulty.Ends (c.run D) k () k' := .of_run (fun i j hij => c.run_le hij) hrun
  exact ⟨k', S', hends, h.call hc hends, hS', heffect⟩

/-- Between two calls nothing is half done: no mark is left, no destructor is left running, and each
    chunk that is named or destroyed as a reference is one, to a chunk that is none. -/
theorem Reached.at_rest (h : Reached D k) (hc : k.live c = true) :
    k.loop c = false ∧ k.destructor c ≠ .running ∧
      (k.destructor c = .tallocReferenceDestructor ↔ k.name c = .reference) ∧
      (k.name c = .reference → k.live (k.ptr c) = true ∧ k.name (k.ptr c) ≠ .reference ∧
        k.child c = 0 ∧ k.refs c = 0) := by
  obtain ⟨S, hS⟩ := h.stands
  have hmem := (hS.rep.tree.live c).1 hc
  refine ⟨?_, hS.rep.idle c hmem, (hS.rep.handle c hmem).trans (hS.rep.named c hmem).symm,
    fun hname => ?_⟩
  · rw [← Bool.not_eq_true, hS.rep.loop c hmem, hS.loose]
    exact Finset.notMem_empty c
  · obtain ⟨a, ha⟩ := (hS.rep.named c hmem).1 hname
    have hal := (hS.wf.refs a c ha).1
    rw [hS.rep.refs.ptr a c ha]
    refine ⟨hS.rep.tree.alive hal, fun hn => ?_, ?_,
      (hS.rep.refs.refs_eq_zero hmem).2 (hS.wf.leaf a c ha).1⟩
    · obtain ⟨b, hb⟩ := (hS.rep.named a hal).1 hn
      exact List.not_mem_nil ((hS.wf.leaf b a hb).1 ▸ ha)
    · exact (hS.rep.tree.kids c hmem).eq_nil_iff.1 (hS.wf.kids_of_handle ⟨a, ha⟩)

/-! ## A run -/

theorem Stands.mine (h : Stands k S) (hlive : k.live p = true)
    (hd : k.destructor p ≠ .tallocReferenceDestructor) (hnull : p ≠ k.nullContext) :
    Mine k S p := by
  have hmem := (h.rep.tree.live p).1 hlive
  exact ⟨hmem, fun hh => hd ((h.rep.handle p hmem).2 hh), hnull⟩

theorem Stands.room (h : Stands k S) (hm : k.live m = false) (hx : k.context x = 0 ∨
      k.live (k.context x) = true ∧ k.destructor (k.context x) ≠ .tallocReferenceDestructor) :
    Room k S m x where
  fresh := fun _ hmem => by
    rw [h.rep.tree.alive hmem] at hm
    exact Bool.noConfusion hm
  under := hx.imp id fun hx => (h.rep.tree.live _).1 hx.1
  owner := by
    rcases hx with h0 | ⟨hlive, hd⟩
    · rintro ⟨d, hd⟩
      exact h.wf.ne_zero (h.wf.refs d _ hd).2.1 h0
    · exact fun hh => hd ((h.rep.handle _ ((h.rep.tree.live _).1 hlive)).2 hh)

/-- Where a call leads from `k`. -/
def Call.after (D : Outcomes) (c : Call) (k : Heap) : Heap :=
  match c.run D 9 k with
  | .ok (_, k') => k'
  | .error _ => k

theorem Stands.after (h : Stands k S) (hn : S.live.card < 9) (c : Call) (hc : c.Ok D k S) :
    ∃ S', Stands (c.after D k) S' ∧ c.Effect D k S S' := by
  obtain ⟨k', S', hrun, hS', heffect⟩ := c.run_ok h hc hn
  refine ⟨S', ?_, heffect⟩
  unfold Call.after
  rw [hrun]
  exact hS'

/-- Every destructor lets its chunk be freed. -/
def demoOutcomes : Outcomes := fun _ _ _ => 0

/-- Two trees, and a reference from the second to what is under the first. -/
def demoCalls : List Call :=
  [.alloc 8 0 40 "user", .alloc 16 8 12 "text", .alloc 24 0 20 "other", .reference 32 24 16]

def demoHeap : Heap := demoCalls.foldl (fun k c => c.after demoOutcomes k) .empty

/-- The forest it stands for. -/
def demoShape : Shape :=
  (((Shape.alloc ⟨∅, ∅, fun _ => 0, fun _ => [], fun _ => []⟩ 8 0).alloc 16 8).alloc 24
    0).reference 32 24 16

theorem demo_stands : Stands demoHeap demoShape := by
  have h := Stands.empty
  obtain ⟨S₁, h₁, rfl⟩ :=
    h.after (D := demoOutcomes) (by decide) (.alloc 8 0 40 "user") (h.room rfl (.inl rfl))
  obtain ⟨S₂, h₂, rfl⟩ := h₁.after (D := demoOutcomes) (by decide) (.alloc 16 8 12 "text")
    (h₁.room rfl (.inr ⟨rfl, by decide⟩))
  obtain ⟨S₃, h₃, rfl⟩ :=
    h₂.after (D := demoOutcomes) (by decide) (.alloc 24 0 20 "other") (h₂.room rfl (.inl rfl))
  obtain ⟨S₄, h₄, rfl⟩ := h₃.after (D := demoOutcomes) (by decide) (.reference 32 24 16)
    (.inr ⟨h₃.room rfl (.inr ⟨rfl, by decide⟩), h₃.mine rfl (by decide) (by decide)⟩)
  exact h₄

theorem demo_reached : Reached demoOutcomes demoHeap := by
  have h₁ : Reached demoOutcomes _ := .call (c := .alloc 8 0 40 "user") .empty
    (fun S hS => hS.room rfl (.inl rfl)) ⟨0, fun n _ => rfl⟩
  have h₂ : Reached demoOutcomes _ := .call (c := .alloc 16 8 12 "text") h₁
    (fun S hS => hS.room rfl (.inr ⟨rfl, by decide⟩)) ⟨0, fun n _ => rfl⟩
  have h₃ : Reached demoOutcomes _ := .call (c := .alloc 24 0 20 "other") h₂
    (fun S hS => hS.room rfl (.inl rfl)) ⟨0, fun n _ => rfl⟩
  exact .call (c := .reference 32 24 16) h₃ (fun S hS => .inr ⟨hS.room rfl (.inr ⟨rfl, by decide⟩),
    hS.mine rfl (by decide) (by decide)⟩) ⟨0, fun n _ => rfl⟩

/-- The handle 32 is a reference to a chunk. -/
theorem at_rest_demo :
    demoHeap.live (demoHeap.ptr 32) = true ∧ demoHeap.name (demoHeap.ptr 32) ≠ .reference := by
  obtain ⟨-, -, -, href⟩ := demo_reached.at_rest (c := 32) rfl
  obtain ⟨hlive, hname, -⟩ := href rfl
  exact ⟨hlive, hname⟩

theorem demo_below {c : Nat} (h : ReflTransGen demoShape.Over 8 c) : c = 8 ∨ c = 16 := by
  induction h with
  | refl => exact .inl rfl
  | tail _ hbc ih =>
    obtain ⟨-, hlive, hup⟩ := hbc
    have hlist : ∀ d ∈ demoShape.live, demoShape.up d = 8 ∨ demoShape.up d = 16 →
        d = 8 ∨ d = 16 := by decide
    exact hlist _ hlive (hup ▸ ih)

theorem demo_refs {h c : Nat} (hh : h ∈ demoShape.refs c) : h = 32 ∧ c = 16 := by
  by_cases hc : c = 16
  · subst hc
    exact ⟨List.mem_singleton.1 hh, rfl⟩
  · have hnone : demoShape.refs c = [] := Shape.addRef_ne hc
    exact absurd (hnone ▸ hh) List.not_mem_nil

theorem demo_willing {c : Nat} (hc : c = 8 ∨ c = 16) :
    ¬ Answers demoOutcomes demoHeap c true := by
  rcases hc with rfl | rfl
  · exact Bool.noConfusion
  · exact Bool.noConfusion

theorem demo_mine : Mine demoHeap demoShape 8 := demo_stands.mine rfl (by decide) (by decide)

theorem demo_tame : demoShape.Tame (Answers demoOutcomes demoHeap) 8 := by
  intro c hc y hy _
  obtain ⟨rfl, rfl⟩ := demo_refs hy
  exact ⟨rfl, demo_willing (.inr rfl)⟩

theorem demo_clear : Clear demoHeap demoShape 8 := by
  rintro d (hd | rfl) c hc hmem
  · exact absurd hd (Finset.notMem_empty d)
  · exact absurd (demo_refs hmem).1 (by decide)

/-- `talloc_free` of 8 is allowed, and leaves 16 to 24, whose reference to it is gone. -/
theorem simulates_demo : ∃ k' S', Faulty.Ends ((Call.free 8).run demoOutcomes) demoHeap () k' ∧
    Reached demoOutcomes k' ∧ Stands k' S' ∧
    k'.live 8 = false ∧ k'.live 32 = false ∧ k'.parent 16 = 24 := by
  obtain ⟨S, hS, hsim⟩ := demo_reached.simulates
  have hallowed : (Call.free 8).Allowed demoOutcomes demoHeap :=
    demo_stands.allowed (.inr ⟨demo_mine, demo_tame, demo_clear⟩)
  obtain ⟨k', S', hends, hreached, hS', -⟩ := hsim (.free 8) hallowed
  have hrun : Faulty.Ends ((Call.free 8).run demoOutcomes) demoHeap ()
      ((Call.free 8).after demoOutcomes demoHeap) :=
    .of_run (n := 9) (fun i j hij => Call.run_le _ hij) rfl
  obtain ⟨-, rfl⟩ := hends.unique hrun
  exact ⟨_, S', hends, hreached, hS', rfl, rfl, rfl⟩

theorem demo_below_eq : below demoShape.Over demoShape.live 8 = {8, 16} := by
  ext c
  rw [mem_below, Finset.mem_insert, Finset.mem_singleton]
  constructor
  · exact fun h => demo_below h.2
  · rintro (rfl | rfl)
    · exact ⟨by decide, .refl⟩
    · exact ⟨by decide, .single ⟨by decide, by decide, rfl⟩⟩

end Talloc
end AnekVideo
