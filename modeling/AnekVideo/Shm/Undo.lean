/-
  AnekVideo.Shm.Undo

  `av_shm_create_rw` and then `av_shm_free` on the handle it filled in.

  The two functions read shared-ness from different places: the create from
  its `int` argument, the free from a one-bit field that argument was assigned
  to.  An even argument other than 0 makes a segment with a name, and a handle
  whose field says that there is none.
-/
import AnekVideo.Shm.Session

namespace AnekVideo

open Interact RoundUp Kernel Solo

variable {h : Host} {t : Nat} {k₀ k₁ k₂ kc : Kernel}

/-! ## The two halves of a create -/

/-- A run of a create by process `t` among others: its cleanup leads to `kc`, and the rest of it
    from there to `k₁`. -/
def CreateRun (h : Host) (t idp : Nat) (m : AvShm) (size : Nat) (shared : Int) (mode : Nat)
    (k₀ kc : Kernel) (r : Int × AvShm) (k₁ : Kernel) : Prop :=
  SplitRun (amongSem h t) h idp m size shared mode k₀ kc r k₁

theorem createRun_iff {idp size mode : Nat} {m : AvShm} {shared : Int} {r : Int × AvShm}
    (hsize : SizeOk h size) (hmode : 0o600 ≤ mode) :
    Exec (amongSem h t) (avShmCreateRw h idp m size shared mode) k₀ r k₁ ↔
      ∃ kc, CreateRun h t idp m size shared mode k₀ kc r k₁ := splitRun_iff hsize hmode

namespace Solo

variable {D : CStr → Option Nat} {F : List (Int × File)} {M : List Mapping} {mp : Mapping}

/-! ## Freeing what was created -/

/-- The argument `shared` survives its one-bit field. -/
def Survives (shared : Int) : Prop := shared = 0 ∨ shared % 2 = 1

theorem bitField_eq_zero_iff {x : Int} : bitField x = 0 ↔ x % 2 = 0 := by
  unfold bitField
  split
  · rename_i hx
    exact ⟨fun _ => hx, fun _ => rfl⟩
  · rename_i hx
    exact ⟨(fun h => by cases h), fun h => absurd h hx⟩

/-- What a free leaves of the names a create has made. -/
def Left (t : Nat) (D : CStr → Option Nat) (F : List (Int × File)) (M : List Mapping)
    (shared : Int) (id : UInt32) (k : Kernel) : Prop :=
  (Survives shared ∧ Holds t D F M k) ∨
    (¬ Survives shared ∧ ∃ i, Bound t D F M (entryName id) i k)

theorem Left.closed {shared : Int} {id : UInt32} : Closed t (Left t D F M shared id) := by
  rintro k k' hq (⟨hs, hk⟩ | ⟨hs, i, hk⟩)
  · exact .inl ⟨hs, Holds.closed k k' hq hk⟩
  · exact .inr ⟨hs, i, Bound.closed k k' hq hk⟩

/-- `av_shm_free` of a handle that a create has filled in. -/
theorem avShmFree_left {shared : Int} {m : AvShm} (hb : ∀ c room, Behind h ⟨m, c, room⟩ mp)
    (hnew : ∀ m' ∈ M, mp.Disjoint m') :
    (env h t).Triple (Named t D F (mp :: M) shared m) (avShmFree h m) fun _ =>
      Left t D F M shared m.id := by
  have hunmap : ∀ {D : CStr → Option Nat} k p, Holds t D F (mp :: M) k →
      p.fds = (k.procs t).fds → p.maps.Perm M → Holds t D F M (k.setProc t p) :=
    fun k p hk hfds hmaps => hk.setProc (hfds.trans hk.fds) hmaps
  intro n k hk
  rcases hk with ⟨hs, hm, hk⟩ | ⟨hs, hm, hu, i, hk⟩
  · -- a private handle
    have hfree := avShmFree_then (t := t) (Q := fun _ => Left t D F M shared m.id) (hb 0 0)
      (Holds.closed (D := D) (F := F) (M := mp :: M)) (Holds.closed (D := D) (F := F) (M := M)) hnew
      (fun k hk => hk.maps) hunmap (fun _ k hk => .inl ⟨.inl hs, hk⟩) (fun hne => absurd hm hne)
      Left.closed
    exact hfree n k hk
  · have hbound : ∀ k p, Bound t D F (mp :: M) (entryName m.id) i k →
        p.fds = (k.procs t).fds →
        p.maps.Perm M → Bound t D F M (entryName m.id) i (k.setProc t p) :=
      fun k p hk hfds hmaps => ⟨hunmap k p hk.holds hfds hmaps, hk.removable, hk.free⟩
    have hmaps : ∀ k, Bound t D F (mp :: M) (entryName m.id) i k →
        (k.procs t).maps.Perm (mp :: M) :=
      fun k hk => hk.holds.maps
    by_cases hodd : shared % 2 = 0
    · -- the field holds 0: the name stays
      have hnot : ¬ Survives shared := by
        rintro (h0 | h1)
        · exact hs h0
        · omega
      have hm0 : m.shared = 0 := hm.trans (bitField_eq_zero_iff.2 hodd)
      have hfree := avShmFree_then (t := t) (Q := fun _ => Left t D F M shared m.id) (hb 0 0)
        Bound.closed Bound.closed hnew hmaps hbound (fun _ k hk => .inr ⟨hnot, i, hk⟩)
        (fun hne => absurd hm0 hne) Left.closed
      exact hfree n k hk
    · have hyes : Survives shared := .inr (by omega)
      have hm1 : m.shared ≠ 0 := fun h0 => hodd (bitField_eq_zero_iff.1 (hm.symm.trans h0))
      have hu1 : m.doUnlink ≠ 0 := by
        rw [hu]
        decide
      have hfree := avShmFree_then (t := t) (Q := fun _ => Left t D F M shared m.id) (hb 0 0)
        Bound.closed Bound.closed hnew hmaps hbound (fun h0 => (h0.elim hm1 hu1).elim)
        (fun _ _ ch r k k' hk hf he => .inl ⟨hyes, hk.unlink hf he⟩) Left.closed
      exact hfree n k hk

end Solo

/-! ## Free undoes create -/

/-- In `k₂` the names, and the mappings of process `t`, are as they were in `kc`. -/
def Undone (t : Nat) (kc k₂ : Kernel) : Prop :=
  (∀ n, k₂.dir.lookup n = kc.dir.lookup n) ∧ (k₂.procs t).maps.Perm (kc.procs t).maps

theorem undone_iff {idp size mode : Nat} {shared : Int} {m m' m'' : AvShm} (hsize : SizeOk h size)
    (hcreate : CreateRun h t idp m size shared mode k₀ kc (0, m') k₁)
    (hfree : Exec (amongSem h t) (avShmFree h m') k₁ m'' k₂) :
    Undone t kc k₂ ↔ Survives shared := by
  have hholds : Holds t (fun n => kc.dir.lookup n) (kc.procs t).fds (kc.procs t).maps kc :=
    ⟨fun _ => rfl, rfl, .refl _⟩
  obtain ⟨-, mp, hb, hnew, hnamed⟩ | ⟨hr, -⟩ :=
    (avShmCreateRest_triple hsize).exec hholds hcreate.2
  · rcases (avShmFree_left hb hnew).exec hnamed hfree with ⟨hs, hk⟩ | ⟨hs, i, hk⟩
    · exact ⟨fun _ => hs, fun _ => ⟨hk.dir, hk.maps⟩⟩
    · refine ⟨fun hundone => ?_, fun h => absurd h hs⟩
      -- the name was free before the create and is bound after the free
      have hname := hundone.1 (entryName m'.id)
      rw [hk.holds.dir, Function.update_self, hk.free] at hname
      cases hname
  · cases hr

/-- **Free undoes create, if the argument survives the field.**  A create among other processes
    returns 0 and its handle is freed: all mappings and all names are as they were between the
    cleanup of the create and its `shm_open` if and only if `shared` is 0 or odd. -/
theorem free_undoes_create_iff {idp size mode : Nat} {shared : Int} {m m' m'' : AvShm}
    (hsize : SizeOk h size) (hmode : 0o600 ≤ mode)
    (hcreate : Exec (amongSem h t) (avShmCreateRw h idp m size shared mode) k₀ (0, m') k₁)
    (hfree : Exec (amongSem h t) (avShmFree h m') k₁ m'' k₂) :
    (∃ kc, CreateRun h t idp m size shared mode k₀ kc (0, m') k₁) ∧
      ∀ kc, CreateRun h t idp m size shared mode k₀ kc (0, m') k₁ →
        (Undone t kc k₂ ↔ Survives shared) :=
  ⟨(createRun_iff hsize hmode).1 hcreate, fun _ hrun => undone_iff hsize hrun hfree⟩

/-! ## On a small machine -/

/-- The choices of `demoCreateAlone` for the cleanup and for the rest, and those of a free. -/
def demoCleanup : List Choice := demoCreateAlone.take 5
def demoRest : List Choice := demoCreateAlone.drop 5
def demoFree : List Choice := [.ok 0, .ok 0]

/-- What a create with `shared` and a free after it come to in an empty directory, as states after
    the cleanup, after the create and after the free. -/
def demoUndo (shared : Int) :
    Option ((Int × Kernel) × ((Int × AvShm) × Kernel) × (AvShm × Kernel)) :=
  (play (fun ch => exec demoHost ch 0) tame 100 demoCleanup (avShmCleanup demoHost)
    demoBoot.k).bind fun x =>
  (play (fun ch => exec demoHost ch 0) tame 100 demoRest
    (avShmCreateRest demoHost 1 {} 1 shared 0o600) x.2).bind fun y =>
  (play (fun ch => exec demoHost ch 0) tame 100 demoFree (avShmFree demoHost y.1.2) y.2).map
    fun z =>
  (x, y, z)

theorem exec_of_demo {α : Type} {n : Nat} {chs : List Choice} {p : C α} {k k' : Kernel} {a : α}
    (hplay : play (fun ch => exec demoHost ch 0) tame n chs p k = some (a, k')) :
    Exec (amongSem demoHost 0) p k a k' := by
  have hfair : Exec (fairSem demoHost true 0) p k a k' :=
    exec_of_play (fun ch o k r k' hch he => ⟨ch, fair_of_tame hch true, he⟩) hplay
  exact hfair.mono amongSem_of_fair

theorem demoUndo_runs {shared : Int} {x : Int × Kernel} {y : (Int × AvShm) × Kernel}
    {z : AvShm × Kernel} (hdemo : demoUndo shared = some (x, y, z)) :
    CreateRun demoHost 0 1 {} 1 shared 0o600 demoBoot.k x.2 y.1 y.2 ∧
      Exec (amongSem demoHost 0) (avShmFree demoHost y.1.2) y.2 z.1 z.2 := by
  obtain ⟨x', hx, hdemo⟩ := Option.bind_eq_some_iff.1 hdemo
  obtain ⟨y', hy, hdemo⟩ := Option.bind_eq_some_iff.1 hdemo
  obtain ⟨z', hz, heq⟩ := Option.map_eq_some_iff.1 hdemo
  cases heq
  exact ⟨⟨⟨x.1, exec_of_demo hx⟩, exec_of_demo hy⟩, exec_of_demo hz⟩

/-- A shared segment, made and freed. -/
theorem free_undoes_create_iff_demo : ∃ m' m'' k₁ k₂ kc,
    Exec (amongSem demoHost 0) (avShmCreateRw demoHost 1 {} 1 1 0o600) demoBoot.k (0, m') k₁ ∧
      Exec (amongSem demoHost 0) (avShmFree demoHost m') k₁ m'' k₂ ∧ Undone 0 kc k₂ := by
  have hplay : ((demoUndo 1).any fun w => decide (w.2.1.1.1 = 0)) = true := by decide +kernel
  obtain ⟨⟨x, ⟨⟨r, m'⟩, k₁⟩, ⟨m'', k₂⟩⟩, hdemo, hr⟩ :=
    (Option.any_eq_true _ _).1 hplay
  obtain rfl : r = 0 := of_decide_eq_true hr
  obtain ⟨hrun, hfree⟩ := demoUndo_runs hdemo
  have hsize : SizeOk demoHost 1 := ⟨by decide, by decide⟩
  have hcreate := (createRun_iff hsize (by decide)).2 ⟨x.2, hrun⟩
  have hiff := free_undoes_create_iff hsize (by decide) hcreate hfree
  exact ⟨m', m'', k₁, k₂, x.2, hcreate, hfree, (hiff.2 x.2 hrun).2 (.inr (by decide))⟩

/-- With `shared` 2 the create makes a segment, and the free leaves its name. -/
theorem name_left : ∃ m' m'' k₁ k₂ kc,
    Exec (amongSem demoHost 0) (avShmCreateRw demoHost 1 {} 1 2 0o600) demoBoot.k (0, m') k₁ ∧
      CreateRun demoHost 0 1 {} 1 2 0o600 demoBoot.k kc (0, m') k₁ ∧
      Exec (amongSem demoHost 0) (avShmFree demoHost m') k₁ m'' k₂ ∧ ¬ Undone 0 kc k₂ := by
  have hplay : ((demoUndo 2).any fun w => decide (w.2.1.1.1 = 0 ∧
      w.2.2.2.dir.lookup (entryName 7) ≠ w.1.2.dir.lookup (entryName 7))) =
        true := by decide +kernel
  obtain ⟨⟨x, ⟨⟨r, m'⟩, k₁⟩, ⟨m'', k₂⟩⟩, hdemo, hr⟩ :=
    (Option.any_eq_true _ _).1 hplay
  obtain ⟨rfl, hname⟩ := of_decide_eq_true hr
  obtain ⟨hrun, hfree⟩ := demoUndo_runs hdemo
  have hcreate := (createRun_iff ⟨by decide, by decide⟩ (by decide)).2 ⟨x.2, hrun⟩
  exact ⟨m', m'', k₁, k₂, x.2, hcreate, hrun, hfree, fun hundone => hname (hundone.1 _)⟩

end AnekVideo
