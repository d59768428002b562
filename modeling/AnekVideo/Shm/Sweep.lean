/-
  AnekVideo.Shm.Sweep

  What a pass of `av_shm_cleanup` does, exactly, while others do the same.

  `k₀` is the state before all passes.  `Stale k₀ n` spells out which names a
  cleanup may take; `Base k₀ k` says that nothing but such names has gone since.
  Every function of a pass returns within a fixed number of steps, gives back
  the descriptors and mappings it acquired, and no assertion of it fails.  With
  `f = false` no call fails on its own, and then no stale name survives a pass.
-/
import AnekVideo.Interact.Exec
import AnekVideo.Shm.Quiet

namespace AnekVideo

open Interact RoundUp Word Kernel

/-! ## The assumptions about the system -/

def Choice.isFail : Choice → Bool
  | .fail _ => true
  | _ => false

/-- What a choice may be.  `close`, `closedir`, `munmap` and `shm_unlink` do not fail
    of their own accord, and a directory is listed as it is, in any order.  The calls
    that acquire something may fail for any reason if `f` is set. -/
def Fair (f : Bool) (ch : Choice) (k : Kernel) : Sys → Prop
  | .close _ | .closedir _ | .munmap _ _ | .shmUnlink _ => ch.isFail = false
  | .opendir _ => (f = false → ch.isFail = false) ∧
      ∀ fd l, ch = .names fd l → l.Perm (['.'] :: ['.', '.'] :: k.dir.keys)
  | .shmOpen _ _ _ | .fstat _ | .ftruncate _ _ | .mmap _ _ _ => f = false → ch.isFail = false
  | _ => True

/-- The operations of process `t` under these assumptions. -/
def fairSem (h : Host) (f : Bool) (t : Nat) : OpSem sys Kernel :=
  fun o k r k' => ∃ ch, Fair f ch k o ∧ exec h ch t o k = some (r, k')

/-! ## Stale names -/

section Stale

variable (h : Host)

/-- A file that a cleanup takes for the segment of a dead owner, and may unlink. -/
structure StaleFile (k : Kernel) (x : Inode) : Prop where
  readable : x.readable = true
  pos : 0 < x.len
  le : x.len ≤ maxShmSize h + shmMarkerSize h
  aligned : h.ptrSize ∣ x.len
  room : shmMarkerSize h ≤ x.len
  marker : load32 x.data (markerOff h x.len) = shmMarker
  pid : load32 x.data (markerOff h x.len + shmMarkerPid) ≠ 0
  dead : k.exists? (load32 x.data (markerOff h x.len + shmMarkerPid)) = false
  removable : x.removable = true

/-- A name that a cleanup removes: that of a segment id, without leading zeros, bound
    to such a file. -/
def Stale (k : Kernel) (n : CStr) : Prop :=
  ∃ id i, n = entryName id ∧ k.dir.lookup n = some i ∧ StaleFile h k (k.inodes i)

end Stale

namespace Sweep

/-- Since `k₀` only stale names have gone; processes went about their own affairs. -/
structure Base (h : Host) (k₀ k : Kernel) : Prop where
  inodes : k.inodes = k₀.inodes
  nprocs : k.nprocs = k₀.nprocs
  group : k.group = k₀.group
  procs : ∀ s, (k.procs s).pid = (k₀.procs s).pid ∧ (k.procs s).alive = (k₀.procs s).alive
  sub : ∀ n i, k.dir.lookup n = some i → k₀.dir.lookup n = some i
  kept : ∀ n i, k₀.dir.lookup n = some i → ¬ Stale h k₀ n → k.dir.lookup n = some i

variable {h : Host} {f : Bool} {k₀ k k' : Kernel} {t : Nat}

theorem Base.refl (h : Host) (k : Kernel) : Base h k k :=
  ⟨rfl, rfl, rfl, fun _ => ⟨rfl, rfl⟩, fun _ _ hl => hl, fun _ _ hl _ => hl⟩

theorem Base.exists (hb : Base h k₀ k) (pid : UInt32) : k.exists? pid = k₀.exists? pid := by
  simp only [Kernel.exists?, hb.nprocs, hb.group, (hb.procs _).1, (hb.procs _).2]

theorem Base.setProc {p : Proc} (hb : Base h k₀ k) (hpid : p.pid = (k.procs t).pid)
    (halive : p.alive = (k.procs t).alive) : Base h k₀ (k.setProc t p) where
  inodes := hb.inodes
  nprocs := hb.nprocs
  group := hb.group
  procs := fun s => by
    by_cases hs : s = t
    · subst hs; rw [setProc_self, hpid, halive]; exact hb.procs s
    · rw [setProc_ne _ _ _ hs]; exact hb.procs s
  sub := hb.sub
  kept := hb.kept

theorem Base.erase {n : CStr} (hb : Base h k₀ k) (hn : Stale h k₀ n) :
    Base h k₀ { k with dir := k.dir.erase n } where
  inodes := hb.inodes
  nprocs := hb.nprocs
  group := hb.group
  procs := hb.procs
  sub := fun n' i hl => by
    by_cases hne : n' = n
    · subst hne
      rw [AList.lookup_erase] at hl
      cases hl
    · rw [erase_lookup hne] at hl
      exact hb.sub n' i hl
  kept := fun n' i hl hst => by
    have hne : n' ≠ n := by
      rintro rfl
      exact hst hn
    rw [erase_lookup hne]
    exact hb.kept n' i hl hst

/-- What a process may count on while others sweep. -/
structure Rely (h : Host) (k₀ : Kernel) (t : Nat) (k k' : Kernel) : Prop where
  own : k'.procs t = k.procs t
  gone : ∀ n, k.dir.lookup n = none → k'.dir.lookup n = none
  base : Base h k₀ k → Base h k₀ k'

/-- What it promises. -/
structure Guar (h : Host) (k₀ : Kernel) (t : Nat) (k k' : Kernel) : Prop where
  rely : ∀ s, s ≠ t → Rely h k₀ s k k'
  base : Base h k₀ k'

theorem Guar.setProc {p : Proc} (hb : Base h k₀ k) (hpid : p.pid = (k.procs t).pid)
    (halive : p.alive = (k.procs t).alive) : Guar h k₀ t k (k.setProc t p) where
  rely := fun _ hs => ⟨setProc_ne _ _ _ hs, fun _ hl => hl, fun hb => hb.setProc hpid halive⟩
  base := hb.setProc hpid halive

theorem Guar.same (hb : Base h k₀ k) : Guar h k₀ t k k :=
  ⟨fun _ _ => ⟨rfl, fun _ hl => hl, id⟩, hb⟩

theorem Guar.erase {n : CStr} (hb : Base h k₀ k) (hn : Stale h k₀ n) :
    Guar h k₀ t k { k with dir := k.dir.erase n } where
  rely := fun _ _ => ⟨rfl, fun n' hl => by
    by_cases hne : n' = n
    · subst hne; exact AList.lookup_erase ..
    · exact (erase_lookup hne).trans hl, fun hb => hb.erase hn⟩
  base := hb.erase hn

/-- What process `t` sees while it sweeps. -/
def view (h : Host) (f : Bool) (k₀ : Kernel) (t : Nat) : Env sys Kernel where
  sem := fairSem h f t
  rely := Rely h k₀ t
  guar := fun _ k _ k' => Guar h k₀ t k k'
  rely_refl := fun _ => ⟨rfl, fun _ hl => hl, id⟩
  rely_trans := fun h₁ h₂ => ⟨h₂.own.trans h₁.own,
    fun n hl => h₂.gone n (h₁.gone n hl), fun hb => h₂.base (h₁.base hb)⟩

/-- Process `t` has the descriptors `F` and, in some order, the mappings `M`. -/
structure Has (h : Host) (k₀ : Kernel) (t : Nat) (F : List (Int × File)) (M : List Mapping)
    (k : Kernel) : Prop where
  base : Base h k₀ k
  fds : (k.procs t).fds = F
  maps : (k.procs t).maps.Perm M

variable {F : List (Int × File)} {M : List Mapping}

theorem Has.rely (hk : Has h k₀ t F M k) (hr : Rely h k₀ t k k') : Has h k₀ t F M k' :=
  ⟨hr.base hk.base, by rw [hr.own]; exact hk.fds, by rw [hr.own]; exact hk.maps⟩

theorem Has.stable : (view h f k₀ t).Stable (Has h k₀ t F M) := fun _ _ hr hk => hk.rely hr

theorem Has.setProc {p : Proc} {F' : List (Int × File)} {M' : List Mapping}
    (hk : Has h k₀ t F M k) (hpid : p.pid = (k.procs t).pid)
    (halive : p.alive = (k.procs t).alive) (hfds : p.fds = F') (hmaps : p.maps.Perm M') :
    Has h k₀ t F' M' (k.setProc t p) :=
  ⟨hk.base.setProc hpid halive, by rw [setProc_self, hfds], by rw [setProc_self]; exact hmaps⟩

/-- The name `n` is no longer there. -/
def Gone (n : CStr) (k : Kernel) : Prop := k.dir.lookup n = none

/-! ## Operations -/

variable {α : Type} {n : Nat} {P : Kernel → Prop} {Q : α → Kernel → Prop}

/-- One operation, then the rest. -/
theorem bounded_op {o : Sys} {g : o.Resp → C α} {R : o.Resp → Kernel → Prop}
    (hst : (view h f k₀ t).Stable P)
    (hlive : ∀ k, P k → ∃ ch r k', Fair f ch k o ∧ exec h ch t o k = some (r, k'))
    (hop : ∀ ch k r k', P k → Fair f ch k o → exec h ch t o k = some (r, k') →
      Guar h k₀ t k k' ∧ R r k')
    (hg : ∀ r, (view h f k₀ t).Bounded n (R r) (g r) Q) :
    (view h f k₀ t).Bounded (n + 1) P (call o >>= g) Q :=
  Env.Bounded.op hst (fun k hk => by
      obtain ⟨ch, r, k', hf, he⟩ := hlive k hk
      exact ⟨r, k', ch, hf, he⟩)
    (fun k r k' hk ⟨ch, hf, he⟩ => hop ch k r k' hk hf he) hg

/-- A line in the log changes nothing. -/
theorem log_then {l : LogLevel} {fmt : String} {args : List LogArg} {g : Unit → C α}
    (hst : (view h f k₀ t).Stable P) (hb : ∀ k, P k → Base h k₀ k)
    (hg : (view h f k₀ t).Bounded n P (g ()) Q) :
    (view h f k₀ t).Bounded (n + 1) P (call (.log l fmt args) >>= g) Q :=
  bounded_op (R := fun _ => P) hst (fun k _ => ⟨.ok 0, (), k, trivial, rfl⟩)
    (fun ch k r k' hk _ he => by cases he; exact ⟨.same (hb k hk), hk⟩) fun _ => hg

/-- A line in the log at the end of a program. -/
theorem log_last {l : LogLevel} {fmt : String} {args : List LogArg}
    (hst : (view h f k₀ t).Stable P) (hb : ∀ k, P k → Base h k₀ k) :
    (view h f k₀ t).Bounded 1 P (call (.log l fmt args)) fun _ => P :=
  Env.Bounded.last hst (fun _ => hst) (fun k _ => ⟨(), k, .ok 0, trivial, rfl⟩)
    fun k r k' hk ⟨ch, _, he⟩ => by cases he; exact ⟨.same (hb k hk), hk⟩

/-- An assertion that holds takes no move. -/
theorem assert_then {b : Bool} {expr func : String} {g : Unit → C α} (hb : b = true)
    (hg : (view h f k₀ t).Bounded n P (g ()) Q) :
    (view h f k₀ t).Bounded n P (avAssert b expr func >>= g) Q := by
  subst hb
  exact Env.Bounded.pure_bind hg

/-- What a process knows besides: a sweep by anybody leaves it true. -/
def Aside (h : Host) (k₀ : Kernel) (R : Kernel → Prop) : Prop :=
  ∀ s k k', Rely h k₀ s k k' → R k → R k'

variable {R : Kernel → Prop}

theorem Aside.const (φ : Prop) : Aside h k₀ fun _ => φ := fun _ _ _ _ hφ => hφ

theorem Aside.gone (n : CStr) : Aside h k₀ (Gone n) := fun _ _ _ hr => hr.gone n

theorem Aside.stable (hR : Aside h k₀ R) :
    (view h f k₀ t).Stable fun k => Has h k₀ t F M k ∧ R k :=
  fun k k' hr hk => ⟨hk.1.rely hr, hR t k k' hr hk.2⟩

/-- It is still known after a program of the process itself. -/
theorem Aside.frame {p : C α} (hR : Aside h k₀ R) (hp : (view h f k₀ t).Bounded n P p Q) :
    (view h f k₀ t).Bounded n (fun k => P k ∧ R k) p fun a k => Q a k ∧ R k :=
  hp.frame (hR t) fun _ k _ k' hg => hR (t + 1) k k' (hg.rely _ (Nat.succ_ne_self t))

/-! ### Closing

`close` and `closedir` are the same to the kernel. -/

/-- Closing an open descriptor does not fail of its own accord. -/
theorem closeCall_open {ch : Choice} {fd : Int} {x : File} {r : Except Errno Unit}
    (hfile : (k.procs t).file fd = some x) (hf : ch.isFail = false)
    (he : closeCall ch t k fd = some (r, k')) :
    r = .ok () ∧ k' = k.setProc t ((k.procs t).closeFd fd) := by
  rcases closeCall_cases he with ⟨e, rfl, -, hbad⟩ | ⟨-, -, hr, hk'⟩
  · exact absurd hbad (by cases ch <;> simp_all [Choice.isFail, closeCall])
  · exact ⟨hr, hk'⟩

/-- It can be closed. -/
theorem closeCall_live {fd : Int} {x : File} (hfile : (k.procs t).file fd = some x) :
    closeCall (.ok 0) t k fd = some (.ok (), k.setProc t ((k.procs t).closeFd fd)) := by
  simp only [closeCall, hfile]

/-- The newest descriptor is closed. -/
theorem Has.close {fd : Int} {x : File} (hk : Has h k₀ t ((fd, x) :: F) M k)
    (hF : ∀ y ∈ F, y.1 ≠ fd) : Guar h k₀ t k (k.setProc t ((k.procs t).closeFd fd)) ∧
      Has h k₀ t F M (k.setProc t ((k.procs t).closeFd fd)) :=
  ⟨.setProc hk.base rfl rfl, hk.setProc rfl rfl (Proc.closeFd_cons hk.fds hF) hk.maps⟩

/-- `av_close` of the newest descriptor. -/
theorem avClose_bounded {fd : Int} {x : File} (hF : ∀ y ∈ F, y.1 ≠ fd) :
    (view h f k₀ t).Bounded 4 (Has h k₀ t ((fd, x) :: F) M) (avClose fd) fun r k =>
      Has h k₀ t F M k ∧ r = .ok () := by
  refine Env.Bounded.le (Env.Bounded.iter (b := 1)
    (I := fun v _ k => Has h k₀ t ((fd, x) :: F) M k ∧ v = 0)
    (fun r => (Aside.const (r = Except.ok ())).stable) (fun v _ => ?_) 0 ())
    (by decide) |>.pre fun k hk => ⟨hk, rfl⟩
  refine bounded_op (o := .close fd) (R := fun r k => Has h k₀ t F M k ∧ r = .ok ())
    (Aside.const (v = 0)).stable (fun k hk => ?_) (fun ch k r k' hk hf he => ?_) fun r => ?_
  · exact ⟨.ok 0, _, _, rfl, closeCall_live (Proc.file_cons hk.1.fds)⟩
  · obtain ⟨rfl, rfl⟩ := closeCall_open (Proc.file_cons hk.1.fds) hf he
    obtain ⟨hguar, hk⟩ := hk.1.close hF
    exact ⟨hguar, hk, rfl⟩
  · -- the loop ends after its first round
    refine Env.Bounded.assume (fun k hk => hk.2) fun hr => ?_
    subst hr
    exact Env.Bounded.ret (Aside.const _).stable fun k hk => hk

/-! ## av_shm_attach_ro and av_shm_free -/

/-- What an attach of `id` finds in `k₀` where it succeeds: object `i` of length `s`,
    mapped at `a`, away from the mappings `M`. -/
structure Seg (h : Host) (k₀ : Kernel) (M : List Mapping) (id : UInt32) (i a s : Nat) : Prop where
  bound : k₀.dir.lookup (entryName id) = some i
  readable : (k₀.inodes i).readable = true
  len : (k₀.inodes i).len = s
  valid : invalidSize h s = false
  pos : 0 < a
  page : h.pageSize ∣ a
  disjoint : ∀ m ∈ M, Mapping.Disjoint ⟨a, avPageAlign h s, some i, 0, false⟩ m

/-- The handle an attach returns. -/
def segHandle (id : UInt32) (a s : Nat) : AvShm := ⟨id, a, s, bitField 0, bitField 1⟩

/-- The mapping behind it. -/
def segMap (h : Host) (i a s : Nat) : Mapping := ⟨a, avPageAlign h s, some i, 0, false⟩

/-- Why an attach of `id` fails: no call failed on its own, so there is nothing to
    attach. -/
def NoSeg (h : Host) (f : Bool) (k₀ : Kernel) (id : UInt32) (k : Kernel) : Prop :=
  f = false → Gone (entryName id) k ∨ ∃ i, k₀.dir.lookup (entryName id) = some i ∧
    ¬ ((k₀.inodes i).readable = true ∧ invalidSize h (k₀.inodes i).len = false)

theorem NoSeg.aside (id : UInt32) : Aside h k₀ (NoSeg h f k₀ id) :=
  fun _ _ _ hr hn hf => (hn hf).imp_left (hr.gone _)

/-- The two outcomes of an attach. -/
def AttachPost (h : Host) (f : Bool) (k₀ : Kernel) (t : Nat) (F : List (Int × File))
    (M : List Mapping) (id : UInt32) (r : Int × AvShm) (k : Kernel) : Prop :=
  (∃ i a s, r = (0, segHandle id a s) ∧ Seg h k₀ M id i a s ∧
    Has h k₀ t F (segMap h i a s :: M) k) ∨
  (r.1 = -1 ∧ Has h k₀ t F M k ∧ NoSeg h f k₀ id k)

/-- The failure path of an attach. -/
theorem avShmAttachFail_bounded {fd : Int} {x : File} {id : UInt32} (m : AvShm)
    (hF : ∀ y ∈ F, y.1 ≠ fd) : (view h f k₀ t).Bounded 4
      (fun k => Has h k₀ t ((fd, x) :: F) M k ∧ NoSeg h f k₀ id k)
      (avShmAttachFail fd m) (AttachPost h f k₀ t F M id) := by
  refine Env.Bounded.bind (m := 0) ((NoSeg.aside id).frame (avClose_bounded hF)) fun r => ?_
  refine ((Env.Bounded.ret (NoSeg.aside id).stable ?_).pre fun k hk => ⟨hk.1.1, hk.2⟩)
  exact fun k hk => .inr ⟨rfl, hk⟩

/-- A call fails and its error is logged. -/
theorem log_fail_bounded {fd : Int} {x : File} {id : UInt32} (m : AvShm) (fmt : String)
    (args : List LogArg) (hF : ∀ y ∈ F, y.1 ≠ fd) : (view h f k₀ t).Bounded 5
      (fun k => Has h k₀ t ((fd, x) :: F) M k ∧ NoSeg h f k₀ id k)
      (do call (.log .error fmt args); avShmAttachFail fd m) (AttachPost h f k₀ t F M id) :=
  log_then (NoSeg.aside id).stable (fun _ hk => hk.1.base) (avShmAttachFail_bounded m hF)

/-- The entry of `id` is opened: it was there in `k₀` and may be read, or there is no segment. -/
theorem shmOpen_then {id : UInt32} {g : Except Errno Int → C α}
    (herr : ∀ e, (view h f k₀ t).Bounded n (fun k => Has h k₀ t F M k ∧ NoSeg h f k₀ id k)
      (g (.error e)) Q)
    (hok : ∀ fd i, (∀ y ∈ F, y.1 ≠ fd) → k₀.dir.lookup (entryName id) = some i →
      (k₀.inodes i).readable = true →
      (view h f k₀ t).Bounded n (Has h k₀ t ((fd, .shm i false) :: F) M) (g (.ok fd)) Q) :
    (view h f k₀ t).Bounded (n + 1) (Has h k₀ t F M)
      (call (.shmOpen ('/' :: entryName id) .rdonly 0) >>= g) Q := by
  refine bounded_op (R := onResult
      (fun _ k => Has h k₀ t F M k ∧ NoSeg h f k₀ id k)
      (fun fd k => ∃ i, (Has h k₀ t ((fd, .shm i false) :: F) M k ∧ ∀ y ∈ F, y.1 ≠ fd) ∧
          k₀.dir.lookup (entryName id) = some i ∧ (k₀.inodes i).readable = true))
    Has.stable (fun k hk => ?_) (fun ch k r k' hk hf he => ?_) fun r => ?_
  · -- the call can be made: whatever the directory holds, it answers
    obtain ⟨fd, hfd⟩ := (k.procs t).exists_fd
    refine ⟨.ok fd, ?_⟩
    simp only [exec, shmOpen, hfd, ne_eq, not_true_eq_false, if_false]
    cases hl : k.dir.lookup (entryName id) with
    | none => exact ⟨_, _, fun _ => rfl, rfl⟩
    | some i =>
      dsimp only
      split
      · exact ⟨_, _, fun _ => rfl, rfl⟩
      · exact ⟨_, _, fun _ => rfl, rfl⟩
  · rcases shmOpen_cases he with ⟨e, rfl, rfl, hwhy⟩ | ⟨nm, i, fd, hnm, -, hl, hread, hfd,
      rfl, rfl⟩ | ⟨_, _, _, hflags, _⟩
    · -- a fair call fails only where the entry is gone or may not be read
      refine ⟨.same hk.base, hk, fun hf0 => ?_⟩
      rcases hwhy with rfl | hwhy
      · exact absurd (hf hf0) (by simp [Choice.isFail])
      · rcases hwhy _ rfl rfl with hgone | ⟨i, hl, hread⟩
        · exact .inl hgone
        · refine .inr ⟨i, hk.base.sub _ _ hl, fun hgood => ?_⟩
          rw [← hk.base.inodes, hread] at hgood
          cases hgood.1
    · cases hnm
      refine ⟨.setProc hk.base rfl rfl, i, ⟨hk.setProc rfl rfl ?_ hk.maps, ?_⟩,
        hk.base.sub _ _ hl, by rw [← hk.base.inodes]; exact hread⟩
      · rw [← hk.fds]
        rfl
      · rw [← hk.fds]
        exact Proc.file_eq_none.1 hfd
    · -- the flags do not create anything
      cases hflags
  cases r with
  | error e => exact herr e
  | ok fd =>
    refine Env.Bounded.exists fun i => ?_
    refine Env.Bounded.assume (fun k hk => And.intro hk.1.2 hk.2) fun hφ => ?_
    obtain ⟨hF, hl, hread⟩ := hφ
    exact (hok fd i hF hl hread).pre fun k hk => hk.1.1

/-- `fstat` on the open object `i`: its length is what it was in `k₀`. -/
theorem fstat_then {fd : Int} {i : Nat} {id : UInt32} {g : Except Errno Nat → C α}
    (herr : ∀ e, (view h f k₀ t).Bounded n
      (fun k => Has h k₀ t ((fd, .shm i false) :: F) M k ∧ NoSeg h f k₀ id k) (g (.error e)) Q)
    (hok : (view h f k₀ t).Bounded n (Has h k₀ t ((fd, .shm i false) :: F) M)
      (g (.ok (k₀.inodes i).len)) Q) :
    (view h f k₀ t).Bounded (n + 1) (Has h k₀ t ((fd, .shm i false) :: F) M)
      (call (.fstat fd) >>= g) Q := by
  refine bounded_op (R := onResult
      (fun _ k => Has h k₀ t ((fd, .shm i false) :: F) M k ∧ NoSeg h f k₀ id k)
      (fun s k => Has h k₀ t ((fd, .shm i false) :: F) M k ∧ s = (k₀.inodes i).len))
    Has.stable (fun k hk => ?_) (fun ch k r k' hk hf he => ?_) fun r => ?_
  · have hfile := Proc.file_cons hk.fds
    refine ⟨.ok 0, .ok (k.inodes i).len, k, fun _ => rfl, ?_⟩
    simp only [exec, fstat, hfile]
  · obtain ⟨rfl, ⟨e, rfl, hwhy⟩ | ⟨j, w, hfile, rfl⟩⟩ := fstat_cases he
    · -- the descriptor is open, so a fair call does not fail
      refine ⟨.same hk.base, hk, fun hf0 => ?_⟩
      rcases hwhy with rfl | hwhy
      · exact absurd (hf hf0) (by simp [Choice.isFail])
      · exact absurd (Proc.file_cons hk.fds) (hwhy i false)
    · rw [Proc.file_cons hk.fds] at hfile
      cases hfile
      exact ⟨.same hk.base, hk, by rw [hk.base.inodes]⟩
  cases r with
  | error e => exact herr e
  | ok s =>
    refine Env.Bounded.assume (fun k hk => hk.2) fun hs => ?_
    subst hs
    exact hok.pre fun k hk => hk.1

/-- The open object `i` is mapped, away from what is mapped already. -/
theorem mmap_then {fd : Int} {i s : Nat} {id : UInt32} {g : Except Errno Nat → C α}
    (hl : k₀.dir.lookup (entryName id) = some i) (hread : (k₀.inodes i).readable = true)
    (hs : (k₀.inodes i).len = s) (hvalid : invalidSize h s = false)
    (herr : ∀ e, (view h f k₀ t).Bounded n
      (fun k => Has h k₀ t ((fd, .shm i false) :: F) M k ∧ NoSeg h f k₀ id k) (g (.error e)) Q)
    (hok : ∀ a, (view h f k₀ t).Bounded n
      (fun k => Has h k₀ t ((fd, .shm i false) :: F) (segMap h i a s :: M) k ∧
        Seg h k₀ M id i a s) (g (.ok a)) Q) :
    (view h f k₀ t).Bounded (n + 1) (Has h k₀ t ((fd, .shm i false) :: F) M)
      (call (.mmap (avPageAlign h s) false (some (fd, 0))) >>= g) Q := by
  obtain ⟨-, hlen, hround⟩ := mapLen_attached hvalid
  refine bounded_op (R := onResult
      (fun _ k => Has h k₀ t ((fd, .shm i false) :: F) M k ∧ NoSeg h f k₀ id k)
      (fun a k => Has h k₀ t ((fd, .shm i false) :: F) (segMap h i a s :: M) k ∧
        Seg h k₀ M id i a s))
    Has.stable (fun k hk => ?_) (fun ch k r k' hk hf he => ?_) fun r => ?_
  · -- there is room for it
    obtain ⟨a, hpos, hpage, hfree⟩ := (k.procs t).exists_addr h.pageSize_pos
    have hfile := Proc.file_cons hk.fds
    have hdisj : ∀ m' ∈ (k.procs t).maps, Mapping.Disjoint
        ⟨a, roundUp h.pageSize (avPageAlign h s), none, 0, false⟩ m' :=
      fun m' hm' => .inr (hfree m' hm')
    refine ⟨.ok a, .ok a, k.setProc t ((k.procs t).map
      ⟨a, roundUp h.pageSize (avPageAlign h s), some i, 0, false⟩), fun _ => rfl, ?_⟩
    simp only [exec, mmapCall, hlen.ne', if_false, hpos, hpage, true_and]
    rw [if_pos hdisj]
    simp [hfile]
  · rcases mmapCall_cases he with ⟨e, rfl, rfl, hwhy⟩ |
      ⟨a, ino, off, rfl, -, hpos, hpage, hnew, rfl, ⟨hnone, -⟩ | ⟨fd', j, w, hfd, rfl, hfile⟩⟩
    · -- length and access are right, so a fair call does not fail
      refine ⟨.same hk.base, hk, fun hf0 => ?_⟩
      rcases hwhy with rfl | h0 | ⟨fd', off, hfd, hacc⟩
      · exact absurd (hf hf0) (by simp [Choice.isFail])
      · omega
      · cases hfd
        exact absurd (hacc i false (Proc.file_cons hk.fds)).1 (by decide)
    · cases hnone
    · cases hfd
      rw [Proc.file_cons hk.fds] at hfile
      cases hfile
      rw [hround] at hnew ⊢
      exact ⟨.setProc hk.base rfl rfl, hk.setProc rfl rfl hk.fds (hk.maps.cons _), hl, hread,
        hs, hvalid, hpos, hpage, fun m hm => hnew m (hk.maps.mem_iff.2 hm)⟩
  cases r with
  | error e => exact herr e
  | ok a => exact hok a

/-- An attach maps a segment, or finds none. -/
theorem avShmAttachRo_bounded (m : AvShm) (id : UInt32) :
    (view h f k₀ t).Bounded 8 (Has h k₀ t F M) (avShmAttachRo h m id)
      (AttachPost h f k₀ t F M id) := by
  have hnone : ∀ {n : Nat} (m : AvShm), (view h f k₀ t).Bounded n
      (fun k => Has h k₀ t F M k ∧ NoSeg h f k₀ id k) (pure (-1, m))
      (AttachPost h f k₀ t F M id) := fun m =>
    Env.Bounded.ret (NoSeg.aside id).stable fun k hk => .inr ⟨rfl, hk⟩
  unfold avShmAttachRo
  rw [segmentName_eq (by decide)]
  refine shmOpen_then (fun e => ?_) fun fd i hF hl hread => ?_
  · -- EACCES is returned without a line in the log
    dsimp only
    split
    · exact log_then (NoSeg.aside id).stable (fun _ hk => hk.1.base) (hnone _)
    · exact hnone _
  refine fstat_then (fun e => (log_fail_bounded _ _ _ hF).le (by decide)) ?_
  dsimp only
  split
  · -- an object of this length is nobody's segment
    rename_i hbad
    refine ((log_fail_bounded _ _ _ hF).le (by decide)).pre fun k hk => ⟨hk, fun _ => .inr ?_⟩
    refine ⟨i, hl, fun hgood => ?_⟩
    -- a good object has a length that passes the test
    rw [hbad] at hgood
    cases hgood.2
  rename_i hvalid
  have hvalid : invalidSize h (k₀.inodes i).len = false := by simpa using hvalid
  rw [mod_sizeMod hvalid]
  refine mmap_then hl hread rfl hvalid (fun e => log_fail_bounded _ _ _ hF) fun a => ?_
  dsimp only
  refine Env.Bounded.bind (m := 1) ((Aside.const _).frame (avClose_bounded hF)) fun r => ?_
  refine Env.Bounded.assume (fun k hk => hk.1.2) fun hr => ?_
  refine assert_then (by rw [hr]; rfl) ((Env.Bounded.ret (Aside.const _).stable ?_).pre
    fun k hk => And.intro hk.1.1 hk.2)
  exact fun k hk => .inl ⟨i, a, _, rfl, hk.2, hk.1⟩

end Sweep
end AnekVideo
