/-
  AnekVideo.Shm.Solo

  One process among others that leave the names in /dev/shm alone, and what its
  calls do to its descriptors and mappings and to those names.

  `Holds D F M` lists all three.  Most operations keep the list (`KeepOp`);
  the others add one entry to it or take one away, and `close`, `munmap` and
  `shm_unlink` do not fail of their own accord.  What depends on the list only
  (`Closed`) holds whatever the others do meanwhile.
-/
import AnekVideo.Shm.Pass

namespace AnekVideo

open Interact RoundUp Kernel

namespace Solo

variable {h : Host} {t : Nat} {k k' : Kernel} {α : Type} {P : Kernel → Prop}
    {Q : α → Kernel → Prop}

/-! ## What most operations keep -/

/-- Names, descriptors, mappings and permissions are the same. -/
structure Kept (t : Nat) (k k' : Kernel) : Prop where
  dir : k'.dir = k.dir
  fds : (k'.procs t).fds = (k.procs t).fds
  maps : (k'.procs t).maps = (k.procs t).maps
  removable : ∀ i, (k'.inodes i).removable = (k.inodes i).removable

theorem Kept.refl (t : Nat) (k : Kernel) : Kept t k k := ⟨rfl, rfl, rfl, fun _ => rfl⟩

theorem Kept.setProc {p : Proc} (hfds : p.fds = (k.procs t).fds)
    (hmaps : p.maps = (k.procs t).maps) :
    Kept t k (k.setProc t p) :=
  ⟨rfl, by rw [setProc_self, hfds], by rw [setProc_self, hmaps], fun _ => rfl⟩

theorem Kept.ofLocal (hl : Local t k k') : Kept t k k' := by
  obtain ⟨mem, w, rfl⟩ := hl
  exact .setProc rfl rfl

theorem Kept.setInode {i : Nat} {x : Inode} (hx : x.removable = (k.inodes i).removable) :
    Kept t k (k.setInode i x) where
  dir := rfl
  fds := rfl
  maps := rfl
  removable := fun j => by
    by_cases hj : j = i
    · subst hj; rw [setInode_self, hx]
    · rw [setInode_ne _ _ _ hj]

/-- What depends on nothing else. -/
def Closed (t : Nat) (P : Kernel → Prop) : Prop := ∀ k k', Kept t k k' → P k → P k'

theorem Closed.const (φ : Prop) : Closed t fun _ => φ := fun _ _ _ => id

theorem Closed.and {P' : Kernel → Prop} (hP : Closed t P) (hP' : Closed t P') :
    Closed t fun k => P k ∧ P' k :=
  fun k k' hq hk => ⟨hP k k' hq hk.1, hP' k k' hq hk.2⟩

theorem Closed.exists {ι : Type} {P : ι → Kernel → Prop} (hP : ∀ i, Closed t (P i)) :
    Closed t fun k => ∃ i, P i k :=
  fun k k' hq ⟨i, hi⟩ => ⟨i, hP i k k' hq hi⟩

theorem Closed.onResult {bad : Errno → Kernel → Prop} {good : α → Kernel → Prop}
    (hbad : ∀ e, Closed t (bad e)) (hgood : ∀ a, Closed t (good a)) (r : Except Errno α) :
    Closed t (onResult bad good r) := by
  cases r with
  | error e => exact hbad e
  | ok a => exact hgood a

/-! ## One process among others -/

/-- Before and after an operation of process `t` the others act; they touch no name and nothing
    that process `t` has open or mapped. -/
def amongSem (h : Host) (t : Nat) : OpSem sys Kernel := fun o k r k' =>
  ∃ k₁ k₂, Kept t k k₁ ∧ fairSem h true t o k₁ r k₂ ∧ Kept t k₂ k'

theorem amongSem_of_fair (o : Sys) (k : Kernel) (r : o.Resp) (k' : Kernel)
    (hs : fairSem h true t o k r k') : amongSem h t o k r k' :=
  ⟨k, k', .refl t k, hs, .refl t k'⟩

/-- One process, with any outcome of the calls that acquire something. -/
abbrev env (h : Host) (t : Nat) : Env sys Kernel := Env.alone (amongSem h t)

/-- One operation, then the rest. -/
theorem triple_op {o : Sys} {g : o.Resp → C α} {R : o.Resp → Kernel → Prop} (hP : Closed t P)
    (hR : ∀ r, Closed t (R r))
    (hop : ∀ ch k r k', P k → Fair true ch k o → exec h ch t o k = some (r, k') → R r k')
    (hg : ∀ r, (env h t).Triple (R r) (g r) Q) : (env h t).Triple P (call o >>= g) Q := by
  refine Env.Triple.op (Env.alone_stable P) (fun k r k' hk hs => ⟨trivial, ?_⟩) hg
  obtain ⟨k₁, k₂, hq₁, ⟨ch, hf, he⟩, hq₂⟩ := hs
  exact hR r k₂ k' hq₂ (hop ch k₁ r k₂ (hP k k₁ hq₁ hk) hf he)

section Alone

variable {sem : OpSem sys Kernel}

theorem triple_ret {a : α} (hQ : ∀ k, P k → Q a k) : (Env.alone sem).Triple P (pure a) Q :=
  Env.Triple.ret (Env.alone_stable P) hQ

/-- A failed assertion never returns. -/
theorem assert_then {b : Bool} {expr func : String} {g : Unit → C α}
    (hg : b = true → (Env.alone sem).Triple P (g ()) Q) :
    (Env.alone sem).Triple P (avAssert b expr func >>= g) Q := by
  have hassert : (Env.alone sem).Triple P (avAssert b expr func) fun _ k => b = true ∧ P k := by
    cases b with
    | true => exact triple_ret fun k hk => ⟨rfl, hk⟩
    | false =>
      refine Env.Triple.op (M := fun _ _ => True) (Env.alone_stable _)
        (fun _ _ _ _ _ => ⟨trivial, trivial⟩) fun _ => ?_
      exact Env.Triple.op (M := fun _ _ => True) (Env.alone_stable _)
        (fun _ _ _ _ _ => ⟨trivial, trivial⟩) fun e => e.elim
  refine hassert.bind fun _ => Env.Triple.assume (fun k hk => hk.1) fun hb => ?_
  exact (hg hb).pre fun k hk => hk.2

end Alone

/-! ## The operations that keep them -/

/-- The operations that keep them. -/
def KeepOp : Sys → Prop
  | .log _ _ _ | .abort | .getpid | .kill _ | .rand | .getHasWhined | .setHasWhined _ | .read _ _ _
  | .fstat _ | .ftruncate _ _ | .load32 _ | .store8 _ _ | .atomicLoad _ | .atomicStore _ _ => True
  | _ => False

theorem exec_kept {o : Sys} {ch : Choice} {r : o.Resp} (ho : KeepOp o)
    (he : exec h ch t o k = some (r, k')) : Kept t k k' := by
  cases o with
  | ftruncate fd len =>
    rcases ftruncate_cases he with ⟨e, -, rfl⟩ | ⟨i, -, -, rfl⟩
    · exact .refl t k'
    · exact .setInode rfl
  | atomicLoad a =>
    -- the read is recorded with the process
    obtain ⟨m, -, ⟨i, -, -, rfl⟩ | ⟨-, rfl⟩⟩ := atomicLoad_cases he
    · exact .setProc rfl rfl
    · exact .refl t k'
  | atomicStore a v =>
    obtain ⟨m, -, ⟨i, -, rfl⟩ | ⟨-, rfl⟩⟩ := atomicStore_cases he
    · exact .setInode rfl
    · exact .refl t k'
  | log _ _ _ | abort | getpid | kill _ | rand | getHasWhined | setHasWhined _
  | read _ _ _ | fstat _
  | load32 _ | store8 _ _ =>
    exact .ofLocal (exec_local (by trivial) he)
  | srand _ | time | «open» _ | close _ | write _ _ _ | send _ _ _ | ioctl _ _ | shmOpen _ _ _
  | shmUnlink _ | opendir _ | readdir _ | closedir _ | mmap _ _ _ | munmap _ _ | userWrite _ _
  | chunkNew _ | chunkDestructor _ | chunkSetDestructor _ _ | chunkParent _ | chunkDetach _
  | chunkChild _ | chunkSteal _ _ | chunkRelease _ | getDevice _ | setDevice _ _
  | setFrameSlot _ _ _ | getFrame _ | setFrame _ _ =>
    exact ho.elim

/-- A program of such operations keeps it. -/
theorem triple_keep {p : C α} (hp : p.Only KeepOp) (hP : Closed t P) :
    (env h t).Triple P p fun _ => P := by
  refine Env.Triple.only hp (Env.alone_stable P) fun _ k _ k' ho hk hs => ⟨trivial, ?_⟩
  obtain ⟨k₁, k₂, hq₁, ⟨_, _, he⟩, hq₂⟩ := hs
  exact hP k₂ k' hq₂ (hP k₁ k₂ (exec_kept ho he) (hP k k₁ hq₁ hk))

theorem keep_then {β : Type} {p : C β} {g : β → C α} (hp : p.Only KeepOp) (hP : Closed t P)
    (hg : ∀ b, (env h t).Triple P (g b) Q) : (env h t).Triple P (p >>= g) Q :=
  (triple_keep hp hP).bind hg

theorem call_keep {o : Sys} (ho : KeepOp o := by trivial) : (call o).Only KeepOp :=
  ⟨ho, fun _ => trivial⟩

/-- The names are bound as in `D`, and process `t` has the descriptors `F` and, in some
    order, the mappings `M`. -/
structure Holds (t : Nat) (D : CStr → Option Nat) (F : List (Int × File)) (M : List Mapping)
    (k : Kernel) : Prop where
  dir : ∀ n, k.dir.lookup n = D n
  fds : (k.procs t).fds = F
  maps : (k.procs t).maps.Perm M

variable {D : CStr → Option Nat} {F : List (Int × File)} {M : List Mapping}

theorem Holds.closed : Closed t (Holds t D F M) := fun k k' hq hk =>
  ⟨fun n =>
    by rw [hq.dir]; exact hk.dir n, by rw [hq.fds]; exact hk.fds, by rw [hq.maps]; exact hk.maps⟩

theorem Holds.setProc {p : Proc} {F' : List (Int × File)} {M' : List Mapping}
    (hk : Holds t D F M k) (hfds : p.fds = F') (hmaps : p.maps.Perm M') :
    Holds t D F' M' (k.setProc t p) :=
  ⟨hk.dir, by rw [setProc_self, hfds], by rw [setProc_self]; exact hmaps⟩

/-! ## Closing -/

/-- `close` of the newest descriptor. -/
theorem close_cases {fd : Int} {x : File} {ch : Choice} {r : Except Errno Unit}
    (hk : Holds t D ((fd, x) :: F) M k) (hF : ∀ y ∈ F, y.1 ≠ fd)
    (hf : ch.isFail = false) (he : closeCall ch t k fd = some (r, k')) :
    r = .ok () ∧ Holds t D F M k' := by
  obtain ⟨rfl, rfl⟩ := Sweep.closeCall_open (Proc.file_cons hk.fds) hf he
  exact ⟨rfl, hk.setProc (Proc.closeFd_cons hk.fds hF) hk.maps⟩

theorem avClose_triple {fd : Int} {x : File} (hF : ∀ y ∈ F, y.1 ≠ fd) :
    (env h t).Triple (Holds t D ((fd, x) :: F) M) (avClose fd) fun r k =>
      r = .ok () ∧ Holds t D F M k := by
  refine Env.Triple.iter (I := fun _ => Holds t D ((fd, x) :: F) M) (fun _ => ?_)
    (fun _ => Env.alone_stable _) ()
  refine triple_op (o := .close fd) (R := fun r k => r = .ok () ∧ Holds t D F M k) Holds.closed
    (fun _ => (Closed.const _).and Holds.closed)
    (fun ch k r k' hk hf he => close_cases hk hF hf he) fun r => ?_
  refine Env.Triple.assume (fun k hk => hk.1) fun hr => ?_
  subst hr
  exact triple_ret fun k hk => hk

/-! ## av_random -/

theorem avLoopRead_keep (fd : Int) (data size : Nat) : (avLoopRead fd data size).Only KeepOp := by
  have hassert : ∀ b e f, (avAssert b e f).Only KeepOp :=
    avAssert_only (fun _ _ _ => trivial) trivial
  have hread : ∀ buf count, (avRead fd buf count).Only KeepOp := fun buf count =>
    eintrLoop_only (.last trivial)
  refine .bind (hassert ..) fun _ => ?_
  refine .bind (hassert ..) fun _ => ?_
  refine .bind (hassert ..) fun _ => ?_
  refine .iter fun s => ?_
  split
  · refine .bind (hread _ _) fun r => ?_
    cases r with
    | error e => exact .ret
    | ok n =>
      dsimp only
      split
      · exact .ret
      · exact .ret
  · exact .ret

/-- A device is closed again. -/
theorem randomDevice_triple (path : String) (retData length : Nat) :
    (env h t).Triple (Holds t D F M) (randomDevice path retData length) fun _ => Holds t D F M := by
  refine triple_op (o := .open path) (R := onResult (fun _ k => Holds t D F M k)
      (fun fd k => (∀ y ∈ F, y.1 ≠ fd) ∧ Holds t D ((fd, .dev) :: F) M k)) Holds.closed
    (Closed.onResult (fun _ => Holds.closed) fun _ => (Closed.const _).and Holds.closed)
    (fun ch k r k' hk _ he => ?_) fun r => ?_
  · rcases openCall_cases he with ⟨e, rfl, rfl⟩ | ⟨fd, hfd, rfl, rfl⟩
    · exact hk
    · refine ⟨by rw [← hk.fds]; exact Proc.file_eq_none.1 hfd, hk.setProc ?_ hk.maps⟩
      rw [← hk.fds]
      rfl
  cases r with
  | error e => exact triple_ret fun k hk => hk
  | ok fd =>
    refine Env.Triple.assume (fun k hk => hk.1) fun hF => Env.Triple.pre ?_ fun k hk => hk.2
    refine keep_then (avLoopRead_keep ..) Holds.closed fun r => ?_
    refine (avClose_triple hF).bind fun _ => ?_
    cases r with
    | error e => exact triple_ret fun k hk => hk.2
    | ok n => exact triple_ret fun k hk => hk.2

theorem randomProper_triple (retData length : Nat) :
    (env h t).Triple (Holds t D F M) (randomProper retData length) fun _ => Holds t D F M := by
  refine assert_then fun _ => assert_then fun _ => ?_
  refine Env.Triple.iter (I := fun _ => Holds t D F M) (fun s => ?_)
    (fun _ => Env.alone_stable _) _
  obtain ⟨paths, ret⟩ := s
  cases paths with
  | nil => exact triple_ret fun k hk => hk
  | cons path rest =>
    refine (randomDevice_triple path retData length).bind fun r => ?_
    split
    · exact triple_ret fun k hk => hk
    · exact triple_ret fun k hk => hk

theorem whine_keep (fmt : String) : (whine fmt).Only KeepOp := by
  refine ⟨call_keep, fun b => ?_⟩
  dsimp only
  split
  · trivial
  · exact ⟨call_keep, fun _ => call_keep⟩

theorem avRandom_triple (retData length : Nat) :
    (env h t).Triple (Holds t D F M) (avRandom retData length) fun _ => Holds t D F M := by
  refine assert_then fun _ => assert_then fun _ => ?_
  refine (randomProper_triple retData length).bind fun ret => ?_
  split
  · exact triple_ret fun k hk => hk
  · refine keep_then (whine_keep _) Holds.closed fun _ => triple_keep (fun s => ?_) Holds.closed
    dsimp only
    split
    · exact ⟨call_keep, fun _ => ⟨call_keep, fun _ => trivial⟩⟩
    · trivial

end Solo
end AnekVideo
