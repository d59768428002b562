/-
  AnekVideo.Talloc.Heap

  What the code does to the links of a memory, each as one function of the memory, and
  that the code does it wherever the links lead to chunks only.
-/
import AnekVideo.Talloc.Code

namespace AnekVideo
namespace Talloc

open Interact

variable {k : Heap} {l : Links} {c p x v : Nat}

/-! ## Single accesses -/

theorem load_run {α : Type} {field : Heap → Nat → α} (hp : k.live p = true) :
    load field p k = .ok (field k p, k) := if_pos hp

/-- With the value that is known to be there. -/
theorem load_eq_run {α : Type} {field : Heap → Nat → α} {a : α} (hp : k.live p = true)
    (ha : field k p = a) :
    load field p k = .ok (a, k) := ha ▸ load_run hp

theorem store_run {set : Heap → Heap} (hp : k.live p = true) : store p set k = .ok ((), set k) :=
  if_pos hp

theorem storeNonnull_run {set : Heap → Heap} (hp : p ≠ 0 → k.live p = true) :
    storeNonnull p set k = .ok ((), if p = 0 then k else set k) := by
  unfold storeNonnull
  split
  · rfl
  · rename_i h0
    exact store_run (hp h0)

theorem chunk_run (hp : k.live p = true) : tallocChunkFromPtr p k = .ok ((), k) := load_run hp

theorem nullContext_run : nullContext k = .ok (k.nullContext, k) := rfl

namespace Heap

/-! ## Links -/

/-- The links of `p` are cleared. -/
def clear (k : Heap) (l : Links) (p : Nat) : Heap :=
  { k with
    next := fun l' a => if l' = l ∧ a = p then 0 else k.next l' a
    prev := fun l' a => if l' = l ∧ a = p then 0 else k.prev l' a }

/-- The neighbours of `p` are linked to each other. -/
def bypass (k : Heap) (l : Links) (p : Nat) : Heap :=
  { k with
    next := fun l' a => if l' = l ∧ a ≠ 0 ∧ a = k.prev l p then k.next l p else k.next l' a
    prev := fun l' a => if l' = l ∧ a ≠ 0 ∧ a = k.next l p then k.prev l p else k.prev l' a }

/-- `p` stands in front of `x`. -/
def add (k : Heap) (l : Links) (p x : Nat) : Heap :=
  { k with
    next := fun l' a => if l' = l ∧ a = p then x else k.next l' a
    prev := fun l' a =>
      if l' = l ∧ a = p then 0 else if l' = l ∧ a ≠ 0 ∧ a = x then p else k.prev l' a }

/-- `c` is taken out of the tree. -/
def unlink (k : Heap) (c : Nat) : Heap :=
  if k.parent c = 0 then k.bypass .chunk c
  else
    { (k.bypass .chunk c).clear .chunk c with
      child := Function.update k.child (k.parent c) (k.next .chunk c)
      parent := fun a => if a ≠ 0 ∧ a = k.next .chunk c then k.parent c else k.parent a }

/-- `c` becomes the first child of `x`. -/
def hang (k : Heap) (c x : Nat) : Heap :=
  { k.add .chunk c (k.child x) with
    child := Function.update k.child x c
    parent := fun a => if a = c then x else if a ≠ 0 ∧ a = k.child x then 0 else k.parent a }

/-- `c` stands alone. -/
def alone (k : Heap) (c : Nat) : Heap := (k.clear .chunk c).setParent c 0

/-- The handle `h` leaves the references to `c`. -/
def unref (k : Heap) (h c : Nat) : Heap :=
  { (k.bypass .handle h).clear .handle h with
    refs := Function.update k.refs c (if h = k.refs c then k.next .handle h else k.refs c) }

/-- The handle `h` becomes the newest reference to `c`. -/
def addRef (k : Heap) (h c : Nat) : Heap :=
  { k.add .handle h (k.refs c) with refs := Function.update k.refs c h }

end Heap

/-- Only the tree differs: links of chunks, parents and children. -/
structure Retreed (k k' : Heap) : Prop where
  live : k'.live = k.live
  next : k'.next .handle = k.next .handle
  prev : k'.prev .handle = k.prev .handle
  refs : k'.refs = k.refs
  destructor : k'.destructor = k.destructor
  name : k'.name = k.name
  size : k'.size = k.size
  loop : k'.loop = k.loop
  ptr : k'.ptr = k.ptr
  nullContext : k'.nullContext = k.nullContext
  ran : k'.ran = k.ran

namespace Retreed

variable {k' k'' : Heap}

theorem refl : Retreed k k := ⟨rfl, rfl, rfl, rfl, rfl, rfl, rfl, rfl, rfl, rfl, rfl⟩

theorem trans (h : Retreed k k') (h' : Retreed k' k'') : Retreed k k'' :=
  ⟨h'.live.trans h.live, h'.next.trans h.next, h'.prev.trans h.prev, h'.refs.trans h.refs,
    h'.destructor.trans h.destructor, h'.name.trans h.name, h'.size.trans h.size,
    h'.loop.trans h.loop,
    h'.ptr.trans h.ptr, h'.nullContext.trans h.nullContext, h'.ran.trans h.ran⟩

theorem bypass : Retreed k (k.bypass .chunk c) :=
  ⟨rfl, funext fun a => by simp [Heap.bypass], funext fun a => by simp [Heap.bypass],
    rfl, rfl, rfl, rfl, rfl, rfl, rfl, rfl⟩

theorem clear : Retreed k (k.clear .chunk c) :=
  ⟨rfl, funext fun a => by simp [Heap.clear], funext fun a => by simp [Heap.clear],
    rfl, rfl, rfl, rfl, rfl, rfl, rfl, rfl⟩

theorem unlink : Retreed k (k.unlink c) := by
  unfold Heap.unlink
  split
  · exact bypass
  · have h : Retreed k ((k.bypass .chunk c).clear .chunk c) := bypass.trans clear
    exact ⟨h.live, h.next, h.prev, h.refs, h.destructor, h.name, h.size, h.loop, h.ptr,
      h.nullContext, h.ran⟩

theorem hang : Retreed k (k.hang c x) :=
  ⟨rfl,
    funext fun a => by simp [Heap.hang, Heap.add], funext fun a => by simp [Heap.hang, Heap.add],
    rfl, rfl, rfl, rfl, rfl, rfl, rfl, rfl⟩

theorem alone : Retreed k (k.alone c) :=
  have h : Retreed k (k.clear .chunk c) := clear
  ⟨h.live, h.next, h.prev, h.refs, h.destructor, h.name, h.size, h.loop, h.ptr,
    h.nullContext, h.ran⟩

end Retreed

/-! ## The code that changes them -/

theorem clearLinks_run (hp : k.live p = true) : clearLinks l p k = .ok ((), k.clear l p) := by
  unfold clearLinks
  rw [Faulty.bind_run (store_run hp)]
  exact store_run hp

theorem storeNext_run (hp : p ≠ 0 → k.live p = true) : storeNonnull p (·.setNext p l v) k =
    .ok ((), { k with next := fun l' a => if l' = l ∧ a ≠ 0 ∧ a = p then v else k.next l' a }) := by
  rw [storeNonnull_run hp]
  split
  · rename_i h0
    have hk : k.next = fun l' a => if l' = l ∧ a ≠ 0 ∧ a = p then v else k.next l' a := by
      funext l' a
      rw [if_neg fun h : l' = l ∧ a ≠ 0 ∧ a = p => h.2.1 (h.2.2.trans h0)]
    exact congrArg (fun n => Except.ok ((), ({ k with next := n } : Heap))) hk
  · rename_i h0
    have hk : (k.setNext p l v).next = fun l' a =>
        if l' = l ∧ a ≠ 0 ∧ a = p then v else k.next l' a := by
      funext l' a
      exact if_congr ⟨fun h => ⟨h.1, h.2 ▸ h0, h.2⟩, fun h => ⟨h.1, h.2.2⟩⟩ rfl rfl
    exact congrArg (fun n => Except.ok ((), ({ k with next := n } : Heap))) hk

theorem storePrev_run (hp : p ≠ 0 → k.live p = true) : storeNonnull p (·.setPrev p l v) k =
    .ok ((), { k with prev := fun l' a => if l' = l ∧ a ≠ 0 ∧ a = p then v else k.prev l' a }) := by
  rw [storeNonnull_run hp]
  split
  · rename_i h0
    have hk : k.prev = fun l' a => if l' = l ∧ a ≠ 0 ∧ a = p then v else k.prev l' a := by
      funext l' a
      rw [if_neg fun h : l' = l ∧ a ≠ 0 ∧ a = p => h.2.1 (h.2.2.trans h0)]
    exact congrArg (fun n => Except.ok ((), ({ k with prev := n } : Heap))) hk
  · rename_i h0
    have hk : (k.setPrev p l v).prev = fun l' a =>
        if l' = l ∧ a ≠ 0 ∧ a = p then v else k.prev l' a := by
      funext l' a
      exact if_congr ⟨fun h => ⟨h.1, h.2 ▸ h0, h.2⟩, fun h => ⟨h.1, h.2.2⟩⟩ rfl rfl
    exact congrArg (fun n => Except.ok ((), ({ k with prev := n } : Heap))) hk

theorem storeParent_run (hp : p ≠ 0 → k.live p = true) : storeNonnull p (·.setParent p v) k =
    .ok ((), { k with parent := fun a => if a ≠ 0 ∧ a = p then v else k.parent a }) := by
  rw [storeNonnull_run hp]
  split
  · rename_i h0
    have hk : k.parent = fun a => if a ≠ 0 ∧ a = p then v else k.parent a := by
      funext a
      rw [if_neg fun h : a ≠ 0 ∧ a = p => h.1 (h.2.trans h0)]
    exact congrArg (fun n => Except.ok ((), ({ k with parent := n } : Heap))) hk
  · rename_i h0
    have hk : (k.setParent p v).parent = fun a => if a ≠ 0 ∧ a = p then v else k.parent a := by
      funext a
      change Function.update k.parent p v a = _
      rw [Function.update_apply]
      exact if_congr ⟨fun h => ⟨h ▸ h0, h⟩, fun h => h.2⟩ rfl rfl
    exact congrArg (fun n => Except.ok ((), ({ k with parent := n } : Heap))) hk

theorem storeChild_run (hp : p ≠ 0 → k.live p = true) : storeNonnull p (·.setChild p v) k =
    .ok ((), { k with child := fun a => if a ≠ 0 ∧ a = p then v else k.child a }) := by
  rw [storeNonnull_run hp]
  split
  · rename_i h0
    have hk : k.child = fun a => if a ≠ 0 ∧ a = p then v else k.child a := by
      funext a
      rw [if_neg fun h : a ≠ 0 ∧ a = p => h.1 (h.2.trans h0)]
    exact congrArg (fun n => Except.ok ((), ({ k with child := n } : Heap))) hk
  · rename_i h0
    have hk : (k.setChild p v).child = fun a => if a ≠ 0 ∧ a = p then v else k.child a := by
      funext a
      change Function.update k.child p v a = _
      rw [Function.update_apply]
      exact if_congr ⟨fun h => ⟨h ▸ h0, h⟩, fun h => h.2⟩ rfl rfl
    exact congrArg (fun n => Except.ok ((), ({ k with child := n } : Heap))) hk

theorem bypass_run (hp : k.live p = true)
    (hprev : k.prev l p ≠ 0 → k.live (k.prev l p) = true)
    (hnext : k.next l p ≠ 0 → k.live (k.next l p) = true) :
    bypass l p k = .ok ((), k.bypass l p) := by
  unfold bypass
  rw [Faulty.bind_run (load_run hp), Faulty.bind_run (load_run hp),
    Faulty.bind_run (storeNext_run hprev)]
  exact storePrev_run hnext

/-- `_TLIST_REMOVE`, where `list` is the first element. -/
theorem tlistRemove_run (hp : k.live p = true) (h0 : p ≠ 0) (hfirst : p = x ↔ k.prev l p = 0)
    (hne : k.next l p ≠ p) (hprev : k.prev l p ≠ 0 → k.live (k.prev l p) = true)
    (hnext : k.next l p ≠ 0 → k.live (k.next l p) = true) : tlistRemove l x p k =
      .ok (if p = x then k.next l p else x, (k.bypass l p).clear l p) := by
  have hlive : (k.bypass l p).live p = true := hp
  unfold tlistRemove
  split
  · rename_i hpx
    have hk : k.bypass l p =
        { k with
          prev := fun l' a =>
            if l' = l ∧ a ≠ 0 ∧ a = k.next l p then 0 else k.prev l' a } := by
      unfold Heap.bypass
      rw [hfirst.1 hpx]
      have hn : (fun l' a => if l' = l ∧ a ≠ 0 ∧ a = 0 then k.next l p else k.next l' a) =
          k.next := by
        funext l' a
        rw [if_neg fun h : l' = l ∧ a ≠ 0 ∧ a = 0 => h.2.1 h.2.2]
      rw [hn]
    rw [Faulty.bind_run (load_run hp), Faulty.bind_run (storePrev_run hnext), ← hk,
      if_pos ⟨h0, hne.symm⟩, Faulty.bind_run (clearLinks_run hlive)]
    rfl
  · rw [Faulty.bind_run (bypass_run hp hprev hnext), Faulty.bind_run (clearLinks_run hlive)]
    rfl

/-- `_TLIST_ADD`. -/
theorem tlistAdd_run (hp : k.live p = true) (hx : x ≠ 0 → k.live x = true) :
    tlistAdd l x p k = .ok (p, k.add l p x) := by
  unfold tlistAdd
  split
  · rename_i h0
    have hk : k.clear l p = k.add l p x := by
      have hprev : (k.clear l p).prev = (k.add l p x).prev := by
        funext l' a
        simp only [Heap.clear, Heap.add]
        rw [if_neg (fun h : l' = l ∧ a ≠ 0 ∧ a = x => h.2.1 (h.2.2.trans h0))]
      have hnext : (k.clear l p).next = (k.add l p x).next := by
        simp only [Heap.clear, Heap.add, h0]
      exact Heap.ext rfl hnext hprev rfl rfl rfl rfl rfl rfl rfl rfl rfl rfl
    rw [Faulty.bind_run (clearLinks_run hp), hk]
    rfl
  · rename_i h0
    have hk : ((k.setPrev x l p).setNext p l x).setPrev p l 0 = k.add l p x := by
      have hprev : (((k.setPrev x l p).setNext p l x).setPrev p l 0).prev = (k.add l p x).prev := by
        funext l' a
        simp only [Heap.setPrev, Heap.setNext, Heap.add]
        refine if_congr Iff.rfl rfl
          (if_congr ⟨fun h => ⟨h.1, h.2 ▸ h0, h.2⟩, fun h => ⟨h.1, h.2.2⟩⟩ rfl rfl)
      exact Heap.ext rfl rfl hprev rfl rfl rfl rfl rfl rfl rfl rfl rfl rfl
    rw [Faulty.bind_run (store_run (hx h0)), Faulty.bind_run (store_run (k := k.setPrev x l p) hp),
      Faulty.bind_run (store_run (k := (k.setPrev x l p).setNext p l x) hp), hk]
    rfl

/-- The statement that takes `tc` out of its list. -/
theorem unlink_run (hp : k.live c = true) (hne : k.next .chunk c ≠ c)
    (hprev : k.prev .chunk c ≠ 0 → k.live (k.prev .chunk c) = true)
    (hnext : k.next .chunk c ≠ 0 → k.live (k.next .chunk c) = true)
    (hparent : k.parent c ≠ 0 → c ≠ 0 ∧ k.live (k.parent c) = true ∧
      k.child (k.parent c) = c ∧ k.prev .chunk c = 0) : unlink c k = .ok ((), k.unlink c) := by
  unfold unlink
  rw [Faulty.bind_run (load_run hp)]
  by_cases h : k.parent c = 0
  · rw [if_neg (not_not.2 h), bypass_run hp hprev hnext]
    simp only [Heap.unlink, if_pos h]
  · obtain ⟨h0, hlive, hfirst, hprev0⟩ := hparent h
    rw [if_pos h, Faulty.bind_run (load_run hlive), hfirst,
      Faulty.bind_run (tlistRemove_run hp h0 (iff_of_true rfl hprev0) hne hprev hnext), if_pos rfl,
      Faulty.bind_run (store_run (k := (k.bypass .chunk c).clear .chunk c) hlive)]
    have hlast :=
      storeParent_run (k := ((k.bypass .chunk c).clear .chunk c).setChild (k.parent c)
      (k.next .chunk c)) (p := k.next .chunk c) (v := k.parent c) hnext
    rw [hlast]
    simp only [Heap.unlink, if_neg h]
    rfl

end Talloc
end AnekVideo
