/-
  AnekVideo.Device.Chunks

  `_talloc_free` as the device code has it, and as ccan/talloc/talloc.c has it.

  The device code keeps the children of a chunk in a list and the calls of `_talloc_free`
  on a stack, and it runs the destructors of devices and frames.  What it does to the
  forest of the chunks is a derivation of `Frees`; so is what the memory of
  `Talloc.Code` goes through, and where the destructors answer alike there is one
  derivation only.
-/
import AnekVideo.Device.Free
import AnekVideo.Talloc.Calls

namespace AnekVideo

open Interact Linked Relation
open Talloc (Shape)
open Talloc.Shape (Job)

namespace Machine

variable {D : Driver} {stop : Sys → Prop} {k k' k'' : Machine} {S S' S'' : Shape} {c p x : Nat}
  {L : Finset Nat} {α : Type} {answer : Nat → Bool → Prop}

/-! ## The chunks as a forest -/

/-- The destructor of a chunk and what it holds. -/
def held (k : Machine) (p : Nat) : Option (Option Destructor × Body) :=
  (k.chunks p).map fun x => (x.destructor, x.body)

/-- Parents and children are those of `S`. -/
structure Tree (k : Machine) (S : Shape) : Prop where
  live : ∀ p, p ∈ S.live ↔ k.chunks p ≠ none
  parent : ∀ p x, k.chunks p = some x → x.parent = S.up p
  children : ∀ p x, k.chunks p = some x → x.children = S.kids p

/-- No more than parents and children changes. -/
structure Moved (k k' : Machine) : Prop where
  fds : k'.fds = k.fds
  held : ∀ p, k'.held p = k.held p

theorem Moved.trans (h : Moved k k') (h' : Moved k' k'') : Moved k k'' where
  fds := h'.fds.trans h.fds
  held := fun p => (h'.held p).trans (h.held p)

theorem held_setChunk_ne {y : Option Chunk} (h : c ≠ p) : (k.setChunk p y).held c = k.held c := by
  rw [held, setChunk_chunks_ne h]
  rfl

theorem held_setChunk_self {y : Option Chunk} :
    (k.setChunk p y).held p = y.map fun x => (x.destructor, x.body) := by
  rw [held, setChunk_chunks_self]

theorem held_eq_none : k.held p = none ↔ k.chunks p = none := Option.map_eq_none_iff

theorem Moved.setChunk {y z : Chunk} (hy : k.chunks p = some y) (hd : z.destructor = y.destructor)
    (hb : z.body = y.body) : Moved k (k.setChunk p (some z)) where
  fds := rfl
  held := fun c => by
    by_cases hc : c = p
    · subst hc
      rw [held_setChunk_self, Machine.held, hy, Option.map_some, Option.map_some, hd, hb]
    · exact held_setChunk_ne hc

namespace Tree

theorem exists_chunk (h : k.Tree S) (hp : p ∈ S.live) :
    ∃ y, k.chunks p = some y ∧ y.parent = S.up p ∧ y.children = S.kids p := by
  obtain ⟨y, hy⟩ := Option.ne_none_iff_exists'.1 ((h.live p).1 hp)
  exact ⟨y, hy, h.parent p y hy, h.children p y hy⟩

theorem chunk_none (h : k.Tree S) (hp : p ∉ S.live) : k.chunks p = none :=
  not_not.1 fun hne => hp ((h.live p).2 hne)

theorem mem_of_held {y : Option Destructor × Body} (h : k.Tree S) (hy : k.held p = some y) :
    p ∈ S.live := by
  rw [h.live]
  intro hnone
  rw [held_eq_none.2 hnone] at hy
  cases hy

/-- One chunk is written. -/
theorem setChunk {y : Chunk} (h : k.Tree S) (hlive : S'.live = insert p S.live)
    (hup : y.parent = S'.up p) (hkids : y.children = S'.kids p)
    (hother : ∀ c, c ≠ p → S'.up c = S.up c ∧ S'.kids c = S.kids c) :
    (k.setChunk p (some y)).Tree S' where
  live := fun c => by
    rw [hlive]
    by_cases hc : c = p
    · subst hc
      exact iff_of_true (Finset.mem_insert_self ..) (by simp)
    · rw [setChunk_chunks_ne hc, Finset.mem_insert, or_iff_right hc]
      exact h.live c
  parent := fun c z hz => by
    by_cases hc : c = p
    · subst hc
      obtain rfl := Option.some.inj (setChunk_chunks_self.symm.trans hz)
      exact hup
    · rw [setChunk_chunks_ne hc] at hz
      exact (h.parent c z hz).trans (hother c hc).1.symm
  children := fun c z hz => by
    by_cases hc : c = p
    · subst hc
      obtain rfl := Option.some.inj (setChunk_chunks_self.symm.trans hz)
      exact hkids
    · rw [setChunk_chunks_ne hc] at hz
      exact (h.children c z hz).trans (hother c hc).2.symm

/-- A chunk is taken out of the list of its parent. -/
theorem detach_run (h : k.Tree S) (hS : S.Wf) (hp : p ∈ S.live) :
    ∃ k', k.detach p = some ((), k') ∧ Moved k k' ∧ k'.Tree (S.takeOut p) := by
  obtain ⟨y, hy, hup, -⟩ := h.exists_chunk hp
  by_cases h0 : S.up p = 0
  · -- no parent
    have hnone : k.chunks y.parent = none := by
      rw [hup, h0]
      exact h.chunk_none hS.zero
    have hkids : ∀ c, (S.takeOut p).kids c = S.kids c := by
      intro c
      by_cases hc : c = S.up p
      · subst hc
        rw [Shape.takeOut_kids_self, h0, hS.kids_zero]
        rfl
      · exact Shape.takeOut_kids_ne hc
    refine ⟨k, ?_, ⟨rfl, fun _ => rfl⟩, h.live, h.parent, fun c z hz => ?_⟩
    · simp only [detach, hy, Option.map_some, hnone]
    · rw [hkids]
      exact h.children c z hz
  · have hlive : S.up p ∈ S.live := (hS.up p hp).resolve_left h0
    obtain ⟨z, hz, hzup, hzkids⟩ := h.exists_chunk hlive
    refine ⟨k.setChunk (S.up p) (some { z with children := z.children.erase p }), ?_,
      .setChunk hz rfl rfl, ?_⟩
    · simp only [detach, hy, Option.map_some, hup, hz]
    · refine h.setChunk (Finset.insert_eq_of_mem hlive).symm hzup ?_ fun c hc =>
        ⟨rfl, Shape.takeOut_kids_ne hc⟩
      rw [Shape.takeOut_kids_self, hzkids]

/-- A chunk moves to another parent, 0 for none. -/
theorem steal_run (h : k.Tree S) (hS : S.Wf) (hc : c ∈ S.live) (hx : x = 0 ∨ x ∈ S.live)
    (hne : x ≠ c) :
    ∃ k', k.steal x c = some ((), k') ∧ Moved k k' ∧ k'.Tree (S.steal c x) := by
  obtain ⟨k₁, hrun, hmoved, htree⟩ := h.detach_run hS hc
  obtain ⟨y, hy, -, hykids⟩ := htree.exists_chunk (show c ∈ (S.takeOut c).live from hc)
  -- the chunk with its new parent, before the parent knows
  have hup : (k₁.setChunk c (some { y with parent := x })).Tree
      { S.steal c x with kids := (S.takeOut c).kids } := by
    refine htree.setChunk (Finset.insert_eq_of_mem hc).symm ?_ hykids fun d hd =>
      ⟨Shape.steal_up_ne hd, rfl⟩
    exact Shape.steal_up_self.symm
  have hmoved' : Moved k (k₁.setChunk c (some { y with parent := x })) :=
    hmoved.trans (.setChunk hy rfl rfl)
  unfold steal
  rw [hrun, Option.bind_some]
  rcases hx with rfl | hx
  · have hzero : k₁.chunks 0 = none := htree.chunk_none hS.zero
    refine ⟨_, by simp only [hy, hzero], hmoved', hup.live, hup.parent, fun d z hz => ?_⟩
    rw [hup.children d z hz]
    exact (congrFun Shape.place_kids_zero d).symm
  · obtain ⟨z, hz, hzup, hzkids⟩ := htree.exists_chunk (show x ∈ (S.takeOut c).live from hx)
    have hz' : (k₁.setChunk c (some { y with parent := x })).chunks x = some z := by
      rw [setChunk_chunks_ne hne, hz]
    refine ⟨(k₁.setChunk c (some { y with parent := x })).setChunk x
      (some { z with children := c :: z.children }), by simp only [hy, hz],
      hmoved'.trans (.setChunk hz' rfl rfl), ?_⟩
    refine hup.setChunk (Finset.insert_eq_of_mem hx).symm ?_ ?_ fun d hd =>
      ⟨rfl, Shape.place_kids_ne hd⟩
    · exact hzup.trans (Shape.steal_up_ne hne).symm
    · exact (congrArg (c :: ·) hzkids).trans (Shape.place_kids_self (hS.ne_zero hx)).symm

/-- A chunk is gone. -/
theorem release (h : k.Tree S) : (k.setChunk p none).Tree (S.release p) where
  live := fun c => by
    by_cases hc : c = p
    · subst hc
      exact iff_of_false (Finset.notMem_erase c S.live) (not_not.2 setChunk_chunks_self)
    · rw [setChunk_chunks_ne hc]
      exact (Finset.mem_erase.trans (and_iff_right hc)).trans (h.live c)
  parent := fun c y hy => by
    have hc : c ≠ p := by
      rintro rfl
      rw [setChunk_chunks_self] at hy
      cases hy
    rw [setChunk_chunks_ne hc] at hy
    exact h.parent c y hy
  children := fun c y hy => by
    have hc : c ≠ p := by
      rintro rfl
      rw [setChunk_chunks_self] at hy
      cases hy
    rw [setChunk_chunks_ne hc] at hy
    exact h.children c y hy

end Tree

/-! ## What freeing relies on, and what it leaves -/

/-- A destructor that can run: none is running, and that of a device finds a device. -/
def Sound : Option Destructor × Body → Prop
  | (some .running, _) => False
  | (some .avDeviceDestroy, b) => ∃ d, b = .device d
  | _ => True

/-- The chunks are a forest without references, in which every destructor can run. -/
structure Stands (k : Machine) (S : Shape) : Prop where
  tree : k.Tree S
  wf : S.Wf
  refs : ∀ p, S.refs p = []
  sound : ∀ p y, k.held p = some y → Sound y
  loose : ∀ p ∈ S.loose, ∀ y, k.held p = some y → y.1 = none

/-- The destructor refuses: that of a device whose descriptor is not open. -/
def Refuses (k : Machine) (p : Nat) : Prop :=
  ∃ d, k.held p = some (some .avDeviceDestroy, .device d) ∧ k.fds.file d.fd = none

theorem Refuses.of_held (h : k.Refuses p) (hheld : k'.held p = k.held p)
    (hfds : ∀ fd, k.fds.file fd = none → k'.fds.file fd = none) : k'.Refuses p := by
  obtain ⟨d, hd, hfd⟩ := h
  exact ⟨d, hheld.trans hd, hfds _ hfd⟩

/-- What is left of the chunks outside of `L` is as it was, and what refuses goes on to. -/
structure Later (k : Machine) (L : Finset Nat) (k' : Machine) : Prop where
  gone : ∀ p, k.held p = none → k'.held p = none
  same : ∀ p, p ∉ L → k'.held p = none ∨ k'.held p = k.held p
  refuses : ∀ p, k.Refuses p → k'.Refuses p

theorem Later.refl : Later k L k := ⟨fun _ h => h, fun _ _ => .inr rfl, fun _ h => h⟩

theorem Later.trans (h : Later k L k') (h' : Later k' L k'') : Later k L k'' where
  gone := fun p hp => h'.gone p (h.gone p hp)
  same := fun p hp => by
    rcases h'.same p hp with hnone | heq
    · exact .inl hnone
    · rw [heq]
      exact h.same p hp
  refuses := fun p hp => h'.refuses p (h.refuses p hp)

theorem Moved.later (h : Moved k k') : Later k L k' where
  gone := fun p hp => (h.held p).trans hp
  same := fun p _ => .inr (h.held p)
  refuses := fun p hp => hp.of_held (h.held p) fun fd hfd => by rw [h.fds]; exact hfd

/-- The answers that destructors have given, read off where the freeing has led: who refuses
    is left, and who is gone has not refused. -/
def Allows (k' : Machine) (S : Shape) (answer : Nat → Bool → Prop) : Prop :=
  (∀ p, k'.Refuses p → answer p true) ∧ ∀ p ∈ S.live, k'.held p = none → answer p false

theorem Allows.earlier (h : k'.Allows S answer) (hlater : Later k L k') : k.Allows S answer :=
  ⟨fun p hp => h.1 p (hlater.refuses p hp), fun p hp hnone => h.2 p hp (hlater.gone p hnone)⟩

theorem Allows.sub (h : k'.Allows S answer) (hlive : S'.live ⊆ S.live) : k'.Allows S' answer :=
  ⟨h.1, fun p hp => h.2 p (hlive hp)⟩

/-- A job has led from `k` to `k'`, and what it did to the forest is a derivation. -/
structure After (k : Machine) (S : Shape) (j : Job) (b : Bool) (l : List Nat) (S' : Shape)
    (k' : Machine) : Prop where
  stands : k'.Stands S'
  later : Later k S.loose k'
  frees : ∀ answer, k'.Allows S answer → S.Frees 0 answer j b l S'

/-- Any answer of a destructor will do. -/
def anything (_ : Nat) (_ : Bool) : Prop := True

theorem After.post {j : Job} {b : Bool} {l : List Nat} (h : After k S j b l S' k')
    (hpre : j.Pre 0 anything S) : j.Post 0 S b S' :=
  ((h.frees anything ⟨fun _ _ => trivial, fun _ _ _ => trivial⟩).post hpre).2

theorem Stands.not_handle (h : k.Stands S) : ¬ S.IsHandle p := by
  rintro ⟨c, hc⟩
  rw [h.refs c] at hc
  exact List.not_mem_nil hc

/-- Without references any terms of a job are the same. -/
theorem Stands.ready (h : k.Stands S) (hR : S.Ready 0 anything p) : S.Ready 0 answer p where
  wf := hR.wf
  nullOk := hR.nullOk
  live := hR.live
  ne := hR.ne
  loose := hR.loose
  tame := fun c _ _ hy => absurd (h.refs c ▸ hy) List.not_mem_nil

/-- Where no reference leads to a child, its heir is the parent of its parent. -/
theorem Stands.heir_eq (h : k.Stands S) : S.heir 0 p c = S.up p := by
  have href : S.referrer 0 c = 0 := by
    rw [Shape.referrer, h.refs c]
  unfold Shape.heir
  rw [href]
  by_cases h0 : S.up p = 0
  · rw [if_neg fun hne => hne.2 h0, h0]
  · rw [if_pos ⟨rfl, h0⟩]

/-! ## Destructors -/

/-- Closing opens nothing. -/
theorem file_close {F : FdTable} {fd fd' : Int} (h : F.file fd = none) :
    (F.close fd').file fd = none := by
  unfold FdTable.file at h ⊢
  rw [Option.map_eq_none_iff, List.find?_eq_none] at h ⊢
  intro y hy
  exact h y (List.mem_filter.1 hy).1

/-- What a destructor that does not refuse leaves: the chunk without it. -/
structure Yields (k : Machine) (p : Nat) (S : Shape) (k' : Machine) : Prop where
  tree : k'.Tree S
  other : ∀ c, c ≠ p → k'.held c = k.held c
  self : ∃ b, k'.held p = some (none, b)
  fds : ∀ fd, k.fds.file fd = none → k'.fds.file fd = none
  willing : ¬ k.Refuses p

theorem Yields.of_chunk {a : Nat} {cs : List Nat} {y : Option Destructor} {b : Body}
    (h : k.Tree S) (hp : p ∈ S.live) (hy : k.chunks p = some ⟨a, cs, y, b⟩)
    (hchunks : k'.chunks = k.chunks) (hfds : ∀ fd, k.fds.file fd = none → k'.fds.file fd = none)
    (hn : ¬ k.Refuses p) : k.Yields p S (k'.setChunk p (some ⟨a, cs, none, b⟩)) := by
  have htree : k'.Tree S := by
    refine ⟨fun c => ?_, fun c z hz => ?_, fun c z hz => ?_⟩
    · rw [hchunks]
      exact h.live c
    · rw [hchunks] at hz
      exact h.parent c z hz
    · rw [hchunks] at hz
      exact h.children c z hz
  have hup : a = S.up p := h.parent p _ hy
  have hkids : cs = S.kids p := h.children p _ hy
  refine ⟨?_, fun c hc => ?_, ⟨b, held_setChunk_self⟩, hfds, hn⟩
  · exact htree.setChunk (Finset.insert_eq_of_mem hp).symm hup hkids fun _ _ => ⟨rfl, rfl⟩
  · rw [held_setChunk_ne hc, held, hchunks]
    rfl

theorem destruct_then {g : Bool → C α} {Q : α → Machine → Prop} (h : k.Stands S)
    (hp : p ∈ S.live) (hrefuses : k.Refuses p → Ends (sem D) stop Q (g true) k)
    (hyields : ∀ k', k.Yields p S k' → Ends (sem D) stop Q (g false) k') :
    Ends (sem D) stop Q (tallocDestruct p >>= g) k := by
  obtain ⟨⟨a, cs, y, b⟩, hy, -, -⟩ := h.tree.exists_chunk hp
  have hheld : k.held p = some (y, b) := by
    rw [held, hy]
    rfl
  have hget : ∀ ch, exec D ch (.chunkDestructor p) k = some (y, k) := by
    intro ch
    simp only [exec, hy, Option.map_some]
  have hsound := h.sound p _ hheld
  have hnot : y ≠ some .avDeviceDestroy → ¬ k.Refuses p := by
    rintro hne ⟨d, hd, -⟩
    rw [hheld] at hd
    cases hd
    exact hne rfl
  cases y with
  | none =>
    refine .bind (step_then hget (.pure (hyields k ?_)))
    have hyield := Yields.of_chunk h.tree hp hy rfl (fun _ hfd => hfd) (hnot (by decide))
    rwa [setChunk_same hy] at hyield
  | some des =>
    cases des with
    | running => exact hsound.elim
    | avFrameDestroy =>
      refine destructFrame_then hy (hyields _ ?_)
      exact Yields.of_chunk h.tree hp hy rfl (fun _ hfd => hfd) (hnot (by decide))
    | avDeviceDestroy =>
      obtain ⟨d, rfl⟩ := hsound
      have hput : k.put p a cs d = k := setChunk_same hy
      rw [← hput]
      by_cases hfd : k.fds.file d.fd = none
      · refine destructDevice_refuses hfd ?_
        rw [hput]
        exact hrefuses ⟨d, hheld, hfd⟩
      · refine destructDevice_closes hfd (hyields _ ?_)
        refine Yields.of_chunk h.tree hp hy rfl (fun _ hnone => file_close hnone) ?_
        rintro ⟨d', hd', hnone⟩
        rw [hheld] at hd'
        cases hd'
        exact hfd hnone

/-! ## `_talloc_free` -/

/-- `_talloc_free`, its calls nested at most `depth` deep, keeps to `Frees` whatever calls it
    is itself nested in. -/
def FreeEnds (D : Driver) (stop : Sys → Prop) (depth : Nat) : Prop :=
  ∀ (k : Machine) (S : Shape) (p : Nat) (calls : List (Nat × Nat)) (Q : Int → Machine → Prop),
    k.Stands S → (Job.free p).Pre 0 anything S → (S.live \ S.loose).card < depth →
    (∀ b l S' k', After k S (.free p) b l S' k' →
      Ends (sem D) stop Q (Prog.iter tallocFreeRound (.back (if b then 0 else -1), calls)) k') →
    Ends (sem D) stop Q (Prog.iter tallocFreeRound (.enter p, calls)) k

/-- A child that was not freed goes to the parent of its parent. -/
theorem After.kept {l : List Nat} {M : List Nat} (h : After k S (.free c) false l S' k')
    (hk : k.Stands S) (hpre : (Job.empty p).Pre 0 anything S) (hkids : S.kids p = c :: M) :
    ∃ k'', (∃ y, k'.chunks p = some y ∧ y.parent = S.up p) ∧
      k'.steal (S.up p) c = some ((), k'') ∧
      Moved k' k'' ∧ k''.Stands (S'.steal c (S.heir 0 p c)) := by
  have hc : c ∈ S.kids p := hkids ▸ List.mem_cons_self ..
  have hpc := hpre.1.wf.edge hc
  have hF := h.frees anything ⟨fun _ _ => trivial, fun _ _ _ => trivial⟩
  have hfree : (Job.free c).Pre 0 anything S := (hpre.kept hkids hF).1
  obtain ⟨hwf, hframe, hlive⟩ := h.post hfree
  have hc' : c ∈ S'.live := by_contra fun hdead => Bool.false_ne_true (hlive.2 hdead)
  have hp' : p ∈ S'.live := hwf.loose (hframe.loose ▸ hpre.2.1)
  have hup : S'.up p = S.up p := hframe.up p (hpre.1.wf.acyclic.not_below (.single hpc))
  -- the parent of `p` is not `c`
  have hne : S.up p ≠ c := by
    intro heq
    refine hpre.1.wf.acyclic.not_below (.single hpc) (.single ⟨?_, hpre.1.live, heq⟩)
    exact hpre.1.wf.ne_zero hfree.1.live
  obtain ⟨y, hy, hyup, -⟩ := h.stands.tree.exists_chunk hp'
  obtain ⟨k'', hrun, hmoved, htree⟩ :=
    h.stands.tree.steal_run hwf hc' (hup ▸ hwf.up p hp') hne
  refine ⟨k'', ⟨y, hy, hyup.trans hup⟩, hrun, hmoved, ?_⟩
  have hloose : (S'.steal c (S.heir 0 p c)).loose = S'.loose :=
    Shape.steal_loose (hframe.loose ▸ hfree.2)
  rw [hk.heir_eq] at hloose ⊢
  refine ⟨htree, ?_, h.stands.refs, fun q z hz => ?_, fun q hq z hz => ?_⟩
  · rw [← hk.heir_eq (c := c)]
    exact (hpre.1.kept hc hF hframe hwf hc').1
  · rw [hmoved.held] at hz
    exact h.stands.sound q z hz
  · rw [hmoved.held] at hz
    exact h.stands.loose q (hloose ▸ hq) z hz

/-- The children of a chunk whose destructor has run are freed or moved, then the chunk goes. -/
theorem FreeEnds.empty {depth : Nat} (ih : FreeEnds D stop depth) {calls : List (Nat × Nat)}
    {Q : Int → Machine → Prop} (h : k.Stands S) (hpre : (Job.empty p).Pre 0 anything S)
    (hdepth : (S.live \ S.loose).card < depth)
    (hthen : ∀ l S' k', After k S (.empty p) true l S' k' → Ends (sem D) stop Q
      (Prog.iter tallocFreeRound (.back 0, calls)) (k'.setChunk p none)) :
    Ends (sem D) stop Q (Prog.iter tallocFreeRound (.children p, calls)) k := by
  -- each round leaves less below the chunk
  generalize hn : (below S.Over S.live p).card = n
  induction n using Nat.strong_induction_on generalizing k S with
  | _ n ihn =>
    obtain ⟨y, hy, -, hkids⟩ := h.tree.exists_chunk hpre.1.live
    have hchild : ∀ ch, exec D ch (.chunkChild p) k = some ((S.kids p).headD 0, k) := by
      intro ch
      simp only [exec, hy, Option.map_some, hkids]
    refine .round (step_then hchild ?_)
    cases hk : S.kids p with
    | nil =>
      have hrelease : ∀ ch, exec D ch (.chunkRelease p) k = some ((), k.setChunk p none) := by
        intro ch
        simp only [exec, hy, Option.map_some]
      rw [if_pos List.headD_nil]
      exact step_then hrelease (.pure (hthen [] S k ⟨h, .refl, fun _ _ => .done hk⟩))
    | cons c M =>
      have hc : c ∈ S.kids p := hk ▸ List.mem_cons_self ..
      have hpc := hpre.1.wf.edge hc
      have hc0 : c ≠ 0 := hpre.1.wf.ne_zero hpc.2.1
      have hfree : (Job.free c).Pre 0 anything S :=
        ⟨hpre.1.kid hc, ((hpre.1.wf.kids p c).1 hc).2.2.1⟩
      rw [List.headD_cons, if_neg hc0]
      refine .pure (ih k S c _ Q h hfree hdepth fun b l S₁ k₁ hA => .round ?_)
      have hF := hA.frees anything ⟨fun _ _ => trivial, fun _ _ _ => trivial⟩
      obtain ⟨hwf, hframe, hlive⟩ := hA.post hfree
      have hsub : ∀ S₂, S.Frame 0 c S₂ → (S₂.live \ S₂.loose).card < depth := by
        intro S₂ hf
        have hle : S₂.live \ S₂.loose ⊆ S.live \ S.loose :=
          hf.loose ▸ Finset.sdiff_subset_sdiff hf.live subset_rfl
        exact lt_of_le_of_lt (Finset.card_le_card hle) hdepth
      cases b with
      | true =>
        have hless := (hframe.mono (.single hpc)).below_lt hfree.1.live (.single hpc)
          (.inl (hlive.1 rfl))
        simp only [tallocFreeRound, if_true]
        rw [if_neg (by decide)]
        refine .pure (ihn _ (hn ▸ hless) hA.stands (hpre.child hk hF).2 (hsub _ hframe) ?_ rfl)
        intro l' S'' k'' hA'
        refine hthen (l ++ l') S'' k'' ⟨hA'.stands, hA.later.trans (hframe.loose ▸ hA'.later), ?_⟩
        intro answer hallows
        refine .child hk (hA.frees answer (hallows.earlier hA'.later)) (hA'.frees answer ?_)
        exact hallows.sub hframe.live
      | false =>
        obtain ⟨k₂, ⟨z, hz, hzup⟩, hsteal, hmoved, hstands⟩ := hA.kept h hpre hk
        have hc' : c ∈ S₁.live := by_contra fun hdead => Bool.false_ne_true (hlive.2 hdead)
        obtain ⟨-, hframe'⟩ := hpre.1.kept hc hF hframe hwf hc'
        have hless := hpre.1.kept_lt hc hF hframe'
        have hparent : ∀ ch, exec D ch (.chunkParent p) k₁ = some (S.up p, k₁) := by
          intro ch
          simp only [exec, hz, Option.map_some, hzup]
        have hmove : ∀ ch, exec D ch (.chunkSteal (S.up p) c) k₁ = some ((), k₂) :=
          fun _ => hsteal
        simp only [tallocFreeRound, Bool.false_eq_true, if_false, if_true]
        refine step_then hparent (step_then hmove (.pure ?_))
        refine ihn _ (hn ▸ hless) hstands (hpre.kept hk hF).2 (hsub _ hframe') ?_ rfl
        intro l' S'' k'' hA'
        have hlater : Later k₁ S.loose k'' := hmoved.later.trans (hframe'.loose ▸ hA'.later)
        refine hthen (l ++ l') S'' k'' ⟨hA'.stands, hA.later.trans hlater,
          fun answer hallows => ?_⟩
        refine .kept hk (hA.frees answer (hallows.earlier hlater)) (hA'.frees answer ?_)
        exact hallows.sub hframe'.live

/-- The chunk itself goes, after what was below it. -/
theorem After.freed {l : List Nat} {k₁ k₂ : Machine} (hy : k.Yields p S k₁)
    (hmoved : Moved k₁ k₂) (h : k.Stands S) (hpre : (Job.free p).Pre 0 anything S)
    (hA : After k₂ (S.takeOut p) (.empty p) true l S' k') :
    After k S (.free p) true (p :: l) (S'.release p) (k'.setChunk p none) := by
  have hempty : (Job.empty p).Pre 0 anything (S.takeOut p) :=
    ⟨hpre.1.takeOut h.not_handle, Finset.mem_insert_self .., h.refs p⟩
  obtain ⟨-, hframe, -⟩ := hA.post hempty
  have hpl : p ∈ S'.loose := hframe.loose ▸ Finset.mem_insert_self ..
  have hother : ∀ c, c ≠ p → (k'.setChunk p none).held c = k'.held c :=
    fun c hc => held_setChunk_ne hc
  have hself : (k'.setChunk p none).held p = none := held_setChunk_self
  have hk₂ : ∀ c, c ≠ p → k₂.held c = k.held c :=
    fun c hc => (hmoved.held c).trans (hy.other c hc)
  have hfds : ∀ fd, k.fds.file fd = none → k₂.fds.file fd = none := by
    rw [hmoved.fds]
    exact hy.fds
  -- the chunk has lost its destructor, so it does not refuse
  have hnot : ∀ c, k'.Refuses c → c ≠ p := by
    rintro c ⟨d, hd, -⟩ rfl
    cases hA.stands.loose c hpl _ hd
  have hF : ∀ answer, (k'.setChunk p none).Allows S answer →
      S.Frees 0 answer (.free p) true (p :: l) (S'.release p) := by
    intro answer hallows
    refine .freed (h.refs p) h.not_handle (hallows.2 p hpre.1.live hself)
      (hA.frees answer ⟨?_, ?_⟩)
    · intro c hc
      exact hallows.1 c (hc.of_held (hother c (hnot c hc)) fun _ hfd => hfd)
    · intro c hc hnone
      by_cases hcp : c = p
      · subst hcp
        exact hallows.2 c hc hself
      · exact hallows.2 c hc ((hother c hcp).trans hnone)
  have hleft : ∀ c z, (k'.setChunk p none).held c = some z →
      c ≠ p ∧ k'.held c = some z := by
    intro c z hz
    have hc : c ≠ p := by
      rintro rfl
      rw [hself] at hz
      cases hz
    exact ⟨hc, (hother c hc).symm.trans hz⟩
  have hstands : (k'.setChunk p none).Stands (S'.release p) := by
    refine ⟨hA.stands.tree.release, ?_, hA.stands.refs, fun c z hz => ?_, fun c hc z hz => ?_⟩
    · exact ((hF anything ⟨fun _ _ => trivial, fun _ _ _ => trivial⟩).post hpre).2.1
    · exact hA.stands.sound c z (hleft c z hz).2
    · exact hA.stands.loose c (Finset.mem_of_mem_erase hc) z (hleft c z hz).2
  refine ⟨hstands, ⟨fun c hc => ?_, fun c hc => ?_, fun c hc => ?_⟩, hF⟩
  · by_cases hcp : c = p
    · subst hcp
      exact hself
    · exact (hother c hcp).trans (hA.later.gone c ((hk₂ c hcp).trans hc))
  · by_cases hcp : c = p
    · subst hcp
      exact .inl hself
    · have hcl : c ∉ (S.takeOut p).loose := fun hmem =>
        (Finset.mem_insert.1 hmem).elim hcp hc
      rw [hother c hcp, ← hk₂ c hcp]
      exact hA.later.same c hcl
  · have hcp : c ≠ p := by
      rintro rfl
      exact hy.willing hc
    have hc' := hA.later.refuses c (hc.of_held (hk₂ c hcp) hfds)
    exact hc'.of_held (hother c hcp) fun _ hfd => hfd

theorem freeEnds (D : Driver) (stop : Sys → Prop) (depth : Nat) : FreeEnds D stop depth := by
  induction depth with
  | zero =>
    intro k S p calls Q _ _ hdepth
    exact absurd hdepth (Nat.not_lt_zero _)
  | succ depth ih =>
    intro k S p calls Q h hpre hdepth hthen
    have hp : p ∈ S.live := hpre.1.live
    refine .round ?_
    simp only [tallocFreeRound]
    rw [if_neg (h.wf.ne_zero hp)]
    refine destruct_then h hp (fun hrefuses => ?_) fun k₁ hy => ?_
    · -- the destructor refuses, and nothing has changed
      have hF : ∀ answer, k.Allows S answer → S.Frees 0 answer (.free p) false [p] S :=
        fun answer hallows => .refused (h.refs p) h.not_handle (hallows.1 p hrefuses)
      exact .pure (hthen false [p] S k ⟨h, .refl, hF⟩)
    · obtain ⟨k₂, hrun, hmoved, htree⟩ := hy.tree.detach_run h.wf hp
      have hdetach : ∀ ch, exec D ch (.chunkDetach p) k₁ = some ((), k₂) := fun _ => hrun
      have hpre' : (Job.empty p).Pre 0 anything (S.takeOut p) :=
        ⟨hpre.1.takeOut h.not_handle, Finset.mem_insert_self .., h.refs p⟩
      have hsound : ∀ c z, k₂.held c = some z → (c = p ∧ z.1 = none) ∨
          (c ≠ p ∧ k.held c = some z) := by
        intro c z hz
        rw [hmoved.held] at hz
        by_cases hcp : c = p
        · subst hcp
          obtain ⟨b, hb⟩ := hy.self
          obtain rfl := Option.some.inj (hb.symm.trans hz)
          exact .inl ⟨rfl, rfl⟩
        · exact .inr ⟨hcp, (hy.other c hcp).symm.trans hz⟩
      have hstands : k₂.Stands (S.takeOut p) := by
        refine ⟨htree, hpre'.1.wf, h.refs, fun c z hz => ?_, fun c hc z hz => ?_⟩
        · rcases hsound c z hz with ⟨-, hnone⟩ | ⟨-, hheld⟩
          · obtain ⟨z, b⟩ := z
            obtain rfl : z = none := hnone
            trivial
          · exact h.sound c z hheld
        · rcases hsound c z hz with ⟨-, hnone⟩ | ⟨hcp, hheld⟩
          · exact hnone
          · exact h.loose c ((Finset.mem_insert.1 hc).resolve_left hcp) z hheld
      have hless : ((S.takeOut p).live \ (S.takeOut p).loose).card < depth := by
        have hlt := Shape.takeOut_card_lt hp hpre.2
        omega
      refine step_then hdetach (.pure (ih.empty hstands hpre' hless fun l S' k' hA => ?_))
      exact hthen true (p :: l) _ _ (.freed hy hmoved h hpre hA)

/-- `_talloc_free` ends, and what it has done to the forest is a derivation of `Frees` in
    which the chunks that are left would refuse and those that are gone have not. -/
theorem tallocFree_ends (h : k.Stands S) (hp : p ∈ S.live) (hl : S.loose = ∅) :
    Ends (sem D) stop (fun r k' => ∃ b l S', r = (if b then 0 else -1) ∧
      After k S (.free p) b l S' k') (tallocFree p) k := by
  have hpre : (Job.free p).Pre 0 anything S := by
    refine ⟨⟨h.wf, .inl rfl, hp, h.wf.ne_zero hp, fun b hb => ?_, fun c _ y hy => ?_⟩, ?_⟩
    · exact absurd (hl ▸ hb) (Finset.notMem_empty b)
    · exact absurd (h.refs c ▸ hy) List.not_mem_nil
    · exact hl ▸ Finset.notMem_empty p
  refine freeEnds D stop _ k S p [] _ h hpre (Nat.lt_succ_self _) fun b l S' k' hA => ?_
  exact .round (.pure (.done rfl ⟨b, l, S', rfl, hA⟩))

/-! ## The memory of talloc -/

/-- The destructors of the device code among those that are not talloc's own. -/
def tallocDestructor : Option Destructor → Talloc.Destructor
  | none => .none
  | some .running => .running
  | some .avDeviceDestroy => .user 0
  | some .avFrameDestroy => .user 1

/-- The memory has the chunks of the machine, with their destructors. -/
structure Mirrors (k : Machine) (h : Talloc.Heap) (S : Shape) : Prop where
  chunks : k.Stands S
  memory : Talloc.Stands h S
  null : h.nullContext = 0
  destructor : ∀ p y, k.held p = some y → h.destructor p = tallocDestructor y.1

/-- A machine with one chunk, and the memory in which it was the first to be allocated. -/
theorem exists_mirrors {b : Body} (h0 : p ≠ 0)
    (hk : k.chunks = Function.update (fun _ => none) p (some ⟨0, [], none, b⟩)) :
    ∃ h S, k.Mirrors h S ∧ p ∈ S.live := by
  have hstands := Talloc.Stands.empty
  have hroom : Talloc.Room .empty ⟨∅, ∅, fun _ => 0, fun _ => [], fun _ => []⟩ p 0 :=
    ⟨fun _ => Finset.notMem_empty p, .inl rfl, fun ⟨_, hd⟩ => absurd hd List.not_mem_nil⟩
  have hheap := hstands.rep.namedConst_run hstands.wf hroom 0 "server"
  rw [if_pos ⟨by decide, h0⟩] at hheap
  obtain ⟨h, -, hrep, hdes, hnull⟩ := hheap
  have hwf := hstands.wf.alloc (Finset.notMem_empty p) h0 (.inl rfl) hroom.owner
  have hloose : (Shape.alloc _ p 0).loose = ∅ :=
    (Shape.alloc_loose (hstands.loose ▸ Finset.notMem_empty p)).trans hstands.loose
  have hchunk : ∀ c y, k.chunks c = some y → c = p ∧ y = ⟨0, [], none, b⟩ := by
    intro c y hy
    rw [hk] at hy
    by_cases hc : c = p
    · subst hc
      rw [Function.update_self] at hy
      exact ⟨rfl, (Option.some.inj hy).symm⟩
    · rw [Function.update_of_ne hc] at hy
      cases hy
  have hheld : ∀ c y, k.held c = some y → c = p ∧ y.1 = none := by
    intro c y hy
    obtain ⟨z, hz, rfl⟩ := Option.map_eq_some_iff.1 hy
    obtain ⟨rfl, rfl⟩ := hchunk c z hz
    exact ⟨rfl, rfl⟩
  refine ⟨h, _,
    ⟨⟨⟨fun c => ?_, fun c y hy => ?_, fun c y hy => ?_⟩, hwf, fun _ => rfl, fun c y hy => ?_,
    fun c _ y hy => (hheld c y hy).2⟩, ⟨hrep, hwf, hloose⟩, hnull, fun c y hy => ?_⟩,
    Finset.mem_insert_self p ∅⟩
  · rw [hk]
    by_cases hc : c = p
    · subst hc
      rw [Function.update_self]
      exact iff_of_true (Finset.mem_insert_self c ∅) (Option.some_ne_none _)
    · rw [Function.update_of_ne hc]
      exact iff_of_false (fun hmem => hc (Finset.mem_singleton.1 hmem)) (not_not.2 rfl)
  · obtain ⟨rfl, rfl⟩ := hchunk c y hy
    exact Shape.alloc_up_self.symm
  · obtain ⟨rfl, rfl⟩ := hchunk c y hy
    rfl
  · obtain ⟨y, z⟩ := y
    obtain ⟨-, rfl⟩ := hheld c _ hy
    trivial
  · obtain ⟨rfl, hy⟩ := hheld c y hy
    rw [hdes, hy]
    exact Function.update_self ..

/-- `__talloc` under a chunk puts the same chunk into both, where `malloc` gives the same. -/
theorem Mirrors.chunkNew {h : Talloc.Heap} {ch : Choice} {ctx size : Nat} (hM : k.Mirrors h S)
    (hrun : exec D ch (.chunkNew ctx) k = some (p, k')) (hsize : size < Talloc.maxTallocSize)
    (name : String) : ∃ h', Talloc.tallocNamedConst p ctx size (.str name) h = .ok (p, h') ∧
      k'.Mirrors h' (S.alloc p ctx) := by
  obtain ⟨c, hc, h0, hfree, rfl⟩ :=
    newChunk_cases (show newChunk ch k ctx = some (p, k') from hrun)
  have hp : p ∉ S.live := fun hmem => (hM.chunks.tree.live p).1 hmem hfree
  have hctx : ctx ∈ S.live := by
    rw [hM.chunks.tree.live, hc]
    exact Option.some_ne_none c
  have hne : ctx ≠ p := fun heq => hp (heq ▸ hctx)
  have hx0 : ctx ≠ 0 := hM.chunks.wf.ne_zero hctx
  have hloose : (S.alloc p ctx).loose = ∅ :=
    (Shape.alloc_loose (hM.memory.loose ▸ Finset.notMem_empty p)).trans hM.memory.loose
  have hwf : (S.alloc p ctx).Wf := hM.chunks.wf.alloc hp h0 (.inr hctx) hM.chunks.not_handle
  -- the memory
  have hcontext : h.context ctx = ctx := if_neg hx0
  have hroom : Talloc.Room h S p ctx :=
    ⟨fun _ => hp, hcontext.symm ▸ .inr hctx, hcontext.symm ▸ hM.chunks.not_handle⟩
  have hheap := hM.memory.rep.namedConst_run hM.chunks.wf hroom size name
  rw [if_pos ⟨hsize, h0⟩, hcontext] at hheap
  obtain ⟨h', hheap, hrep, hdes, hnull⟩ := hheap
  -- the machine: the chunk, then its place under `ctx`
  have htree₁ : (k.setChunk p (some ⟨ctx, [], none, .other⟩)).Tree
      { S.alloc p ctx with kids := S.kids } := by
    refine hM.chunks.tree.setChunk rfl Shape.alloc_up_self.symm ?_ fun d hd =>
      ⟨Shape.alloc_up_ne hd, rfl⟩
    exact (hM.chunks.wf.kids_of_dead hp).symm
  have htree : ((k.setChunk p (some ⟨ctx, [], none, .other⟩)).setChunk ctx
      (some { c with children := p :: c.children })).Tree (S.alloc p ctx) := by
    refine htree₁.setChunk (Finset.insert_eq_of_mem (Finset.mem_insert_of_mem hctx)).symm ?_ ?_
      fun d hd => ⟨rfl, Shape.place_kids_ne hd⟩
    · exact (hM.chunks.tree.parent ctx c hc).trans (Shape.alloc_up_ne hne).symm
    · exact (congrArg (p :: ·) (hM.chunks.tree.children ctx c hc)).trans
        (Shape.place_kids_self hx0).symm
  have hmoved : Moved (k.setChunk p (some ⟨ctx, [], none, .other⟩)) _ :=
    .setChunk (z := { c with children := p :: c.children })
      ((setChunk_chunks_ne hne).trans hc) rfl rfl
  have hheld : ∀ q y, ((k.setChunk p (some ⟨ctx, [], none, .other⟩)).setChunk ctx
      (some { c with children := p :: c.children })).held q = some y →
      (q = p ∧ y = (none, .other)) ∨ (q ≠ p ∧ k.held q = some y) := by
    intro q y hy
    rw [hmoved.held] at hy
    by_cases hq : q = p
    · subst hq
      rw [held_setChunk_self] at hy
      exact .inl ⟨rfl, (Option.some.inj hy).symm⟩
    · rw [held_setChunk_ne hq] at hy
      exact .inr ⟨hq, hy⟩
  refine ⟨h', hheap, ⟨htree, hwf, hM.chunks.refs, fun q y hy => ?_, fun q hq => ?_⟩,
    ⟨hrep, hwf, hloose⟩, hnull.trans hM.null, fun q y hy => ?_⟩
  · rcases hheld q y hy with ⟨-, rfl⟩ | ⟨-, hy⟩
    · trivial
    · exact hM.chunks.sound q y hy
  · exact absurd (hloose ▸ hq) (Finset.notMem_empty q)
  · rw [hdes]
    rcases hheld q y hy with ⟨rfl, rfl⟩ | ⟨hq, hy⟩
    · exact Function.update_self ..
    · rw [Function.update_of_ne hq]
      exact hM.destructor q y hy

/-- The destructors of the chunks in `R` refuse. -/
def refusing (R : Finset Nat) : Talloc.Outcomes := fun _ _ p => if p ∈ R then -1 else 0

theorem refusing_unique {h : Talloc.Heap} {R : Finset Nat} (p : Nat) (b b' : Bool)
    (hb : Talloc.Answers (refusing R) h p b) (hb' : Talloc.Answers (refusing R) h p b') :
    b = b' := by
  unfold Talloc.Answers at hb hb'
  cases hd : h.destructor p with
  | user d =>
    rw [hd] at hb hb'
    obtain ⟨i, hi⟩ := hb
    obtain ⟨j, hj⟩ := hb'
    exact hi.symm.trans hj
  | none | running | tallocReferenceDestructor =>
    rw [hd] at hb hb'
    exact hb.trans hb'.symm

/-- Those that are left have refused, and those that are gone have not. -/
theorem Mirrors.allows {h : Talloc.Heap} (hM : k.Mirrors h S) (hL : Later k ∅ k')
    (htree : k'.Tree S') : k'.Allows S (Talloc.Answers (refusing S'.live) h) := by
  refine ⟨fun p hp => ?_, fun p _ hnone => ?_⟩
  · obtain ⟨d, hd, -⟩ := hp
    have hleft : p ∈ S'.live := htree.mem_of_held hd
    rcases hL.same p (Finset.notMem_empty p) with hnone | heq
    · rw [hnone] at hd
      cases hd
    · have hdes := hM.destructor p _ (heq ▸ hd)
      unfold Talloc.Answers
      rw [hdes]
      exact ⟨0, by simp [refusing, hleft]⟩
  · have hdead : p ∉ S'.live := fun hmem => (htree.live p).1 hmem (held_eq_none.1 hnone)
    unfold Talloc.Answers
    split
    · exact ⟨0, by simp [refusing, hdead]⟩
    · rfl

/-- Every run of the device code's `_talloc_free` is one of talloc's own: where the destructors
    answer as they did in it, the memory ends with the chunks of the machine, and what is
    returned is the same. -/
theorem tallocFree_agrees {h : Talloc.Heap} (hM : k.Mirrors h S) (hp : p ∈ S.live) :
    Ends (sem D) stop (fun r k' => ∃ O h' S', Faulty.Ends (fun n => Talloc.free O n p) h r h' ∧
      k'.Mirrors h' S') (tallocFree p) k := by
  have hempty : S.loose = ∅ := hM.memory.loose
  refine (tallocFree_ends hM.chunks hp hempty).mono fun r k' hr => ?_
  obtain ⟨b, l, S', rfl, hA⟩ := hr
  have hL : Later k ∅ k' := hempty ▸ hA.later
  -- the same call on the memory
  have hmine : Talloc.Mine h S p :=
    ⟨hp, hM.chunks.not_handle, hM.null ▸ hM.chunks.wf.ne_zero hp⟩
  have htame : S.Tame (Talloc.Answers (refusing S'.live) h) p :=
    fun c _ y hy => absurd (hM.chunks.refs c ▸ hy) List.not_mem_nil
  have hclear : Talloc.Clear h S p := fun d _ c _ hmem =>
    absurd (hM.chunks.refs c ▸ hmem) List.not_mem_nil
  obtain ⟨b', l', S'', h', hrun, hF, hstands, hspares, -⟩ :=
    hM.memory.free_run hmine htame hclear (Nat.lt_succ_self _)
  rw [hM.null] at hF
  -- has gone the same way
  have hpre : (Job.free p).Pre 0 (Talloc.Answers (refusing S'.live) h) S :=
    ⟨hM.null ▸ hM.memory.ready hmine htame, hempty ▸ Finset.notMem_empty p⟩
  obtain ⟨rfl, -, rfl⟩ :=
    (hA.frees _ (hM.allows hL hA.stands.tree)).unique refusing_unique hpre hF
  refine ⟨_, h', S', .of_run (fun i j hij => Talloc.free_le hij) hrun, hA.stands, hstands,
    hspares.null.trans hM.null, fun c y hy => ?_⟩
  have hc : c ∈ S'.live := hA.stands.tree.mem_of_held hy
  rcases hL.same c (Finset.notMem_empty c) with hnone | heq
  · rw [hnone] at hy
    cases hy
  · rw [hspares.destructor c hc]
    exact hM.destructor c y (heq ▸ hy)

end Machine
end AnekVideo
