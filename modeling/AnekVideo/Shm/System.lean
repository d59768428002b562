/-
  AnekVideo.Shm.System

  Processes that use shm.h on one kernel, and what each of their operations
  can do to it.

  `shmSystem` gives every process the calls of shm.h and writes of its own into
  the segments it created; a process may die at any point, and new ones are
  born with a pid nobody has.  The inversion lemmas below say once what an
  operation can do.  Most operations are `Quiet`: they touch the descriptors
  and the private memory of their own process and nothing else.
-/
import AnekVideo.Interact.System
import AnekVideo.Shm.Kernel

namespace AnekVideo

open Interact RoundUp Word

/-! ## The system -/

/-- What a process remembers between two calls: how many it made, and the handles
    it acquired and has not freed. -/
structure ShmSt where
  calls : Nat := 0
  handles : List Handle := []
  deriving DecidableEq, Repr

/-- What a call returns. -/
inductive ShmRet
  | handle (r : Int) (m : AvShm)
  | freed (m : AvShm)
  | code (r : Int)
  | done
  deriving DecidableEq, Repr

/-- The program of each call. -/
def ShmCall.body (h : Host) : ShmCall → C ShmRet
  | .create idp m size shared mode => do
    let (r, m) ← avShmCreateRw h idp m size shared mode
    return .handle r m
  | .attach m id => do
    let (r, m) ← avShmAttachRo h m id
    return .handle r m
  | .free hd => do
    let m ← avShmFree h hd.m
    return .freed m
  | .cleanup => do
    let r ← avShmCleanup h
    return .code r
  | .write hd off b => do
    call (.userWrite (hd.m.ptr + off) b)
    return .done

/-- The calls of a well-behaved process: a create passes the assertions and is
    shared, handles are its own, and it writes only what a segment offers. -/
def ShmCall.enabled (h : Host) (s : ShmSt) : ShmCall → Bool
  | .create _ _ size shared mode =>
    decide (0 < size ∧ size ≤ maxShmSize h ∧ shared = 1 ∧ 0o600 ≤ mode)
  | .attach _ _ => true
  | .free hd => decide (hd ∈ s.handles)
  | .cleanup => true
  | .write hd off _ => decide (hd ∈ s.handles ∧ off < hd.room)

/-- What a process remembers after a call. -/
def ShmCall.after (h : Host) (s : ShmSt) : ShmCall → ShmRet → ShmSt
  | .create _ _ size _ _, .handle r m =>
    if r = 0 then ⟨s.calls + 1, ⟨m, s.calls + 1, avPageAlign h size⟩ :: s.handles⟩
    else ⟨s.calls + 1, s.handles⟩
  | .attach _ _, .handle r m =>
    if r = 0 then ⟨s.calls + 1, ⟨m, s.calls + 1, 0⟩ :: s.handles⟩
    else ⟨s.calls + 1, s.handles⟩
  | .free hd, _ => ⟨s.calls + 1, s.handles.erase hd⟩
  | _, _ => ⟨s.calls + 1, s.handles⟩

namespace Kernel

/-- Process `t` starts its next call. -/
def enter (t : Nat) (c : ShmCall) (k : Kernel) : Kernel :=
  k.setProc t { k.procs t with calls := (k.procs t).calls + 1, cur := some c }

/-- Process `t` is out of its call. -/
def leave (t : Nat) (k : Kernel) : Kernel := k.setProc t { k.procs t with cur := none }

/-- Process `t` dies: its descriptors and mappings go, shared objects stay. -/
def die (t : Nat) (k : Kernel) : Kernel :=
  k.setProc t { k.procs t with alive := false, fds := [], maps := [] }

/-- A new process. -/
def newProc (pid : UInt32) : Proc :=
  { pid := pid, alive := true, fds := [], maps := [], mem := fun _ => 0,
    hasWhined := hasWhinedInit, calls := 0, cur := none, opened := none, lastLoad := none }

/-- Process `t` is born with a pid that nobody has. -/
def spawn (pid : UInt32) (t : Nat) (k : Kernel) : Option (ShmSt × Kernel) :=
  if t = k.nprocs ∧ 0 < pid.toNat ∧ pid.toNat < 2 ^ 31 ∧ k.exists? pid = false then
    some ({}, { k.setProc t (newProc pid) with nprocs := k.nprocs + 1 })
  else none

end Kernel

/-- Processes of one user that use shm.h. -/
def shmSystem (h : Host) : System sys Kernel where
  Choice := Choice
  Call := ShmCall
  Ret := ShmRet
  St := ShmSt
  Birth := UInt32
  exec := Kernel.exec h
  body := ShmCall.body h
  enabled := fun _ => ShmCall.enabled h
  enter := Kernel.enter
  leave := fun t _ _ => Kernel.leave t
  after := fun _ => ShmCall.after h
  die := Kernel.die
  spawn := Kernel.spawn

namespace Kernel

/-! ## The parts of an updated kernel -/

variable (k : Kernel) (t : Nat) (p : Proc) (i : Nat) (x : Inode)

@[simp] theorem setProc_self : (k.setProc t p).procs t = p := Function.update_self ..

theorem setProc_ne {s : Nat} (hs : s ≠ t) : (k.setProc t p).procs s = k.procs s :=
  Function.update_of_ne hs ..

@[simp] theorem setProc_dir : (k.setProc t p).dir = k.dir := rfl
@[simp] theorem setProc_inodes : (k.setProc t p).inodes = k.inodes := rfl
@[simp] theorem setProc_inos : (k.setProc t p).inos = k.inos := rfl
@[simp] theorem setProc_nprocs : (k.setProc t p).nprocs = k.nprocs := rfl
@[simp] theorem setProc_group : (k.setProc t p).group = k.group := rfl

@[simp] theorem setProc_setProc (q : Proc) : (k.setProc t p).setProc t q = k.setProc t q := by
  simp [setProc]

@[simp] theorem setProc_id : k.setProc t (k.procs t) = k := by
  simp [setProc]

@[simp] theorem setInode_self : (k.setInode i x).inodes i = x := Function.update_self ..

theorem setInode_ne {j : Nat} (hj : j ≠ i) : (k.setInode i x).inodes j = k.inodes j :=
  Function.update_of_ne hj ..

@[simp] theorem setInode_dir : (k.setInode i x).dir = k.dir := rfl
@[simp] theorem setInode_procs : (k.setInode i x).procs = k.procs := rfl
@[simp] theorem setInode_inos : (k.setInode i x).inos = k.inos := rfl
@[simp] theorem setInode_nprocs : (k.setInode i x).nprocs = k.nprocs := rfl
@[simp] theorem setInode_group : (k.setInode i x).group = k.group := rfl

/-! ## What an operation can do -/

variable {h : Host} {ch : Choice} {k t} {k' : Kernel}

/-- Only descriptors and private memory of process `t` have changed. -/
def Quiet (t : Nat) (k k' : Kernel) : Prop :=
  ∃ fds mem w, k' = k.setProc t { k.procs t with fds := fds, mem := mem, hasWhined := w }

theorem Quiet.refl (t : Nat) (k : Kernel) : Quiet t k k :=
  ⟨(k.procs t).fds, (k.procs t).mem, (k.procs t).hasWhined, (setProc_id k t).symm⟩

/-- The operations that are always quiet. -/
def QuietOp : Sys → Prop
  | .log _ _ _ | .abort | .getpid | .kill _ | .rand | .getHasWhined | .setHasWhined _ | .open _
  | .close _ | .read _ _ _ | .fstat _ | .opendir _ | .readdir _ | .closedir _ | .load32 _
  | .store8 _ _ => True
  | _ => False

theorem closeCall_cases {fd : Int} {r} (he : closeCall ch t k fd = some (r, k')) :
    (∃ e, r = .error e ∧ k' = k ∧ (e = .EBADF ∨ ch = .fail e)) ∨
    (∃ f, (k.procs t).file fd = some f ∧ r = .ok () ∧
      k' = k.setProc t ((k.procs t).closeFd fd)) := by
  cases ch with
  | ok n =>
    simp only [closeCall] at he
    split at he
    · cases he; exact .inl ⟨_, rfl, rfl, .inl rfl⟩
    · rename_i f hf
      cases he; exact .inr ⟨f, hf, rfl, rfl⟩
  | fail e => cases he; exact .inl ⟨e, rfl, rfl, .inr rfl⟩
  | names fd l => cases he
  | bytes bs => cases he

theorem fstat_cases {fd : Int} {r} (he : exec h ch t (.fstat fd) k = some (r, k')) :
    k' = k ∧
    ((∃ e, r = .error e ∧ (ch = .fail e ∨ ∀ i rw, (k.procs t).file fd ≠ some (.shm i rw))) ∨
      ∃ i rw, (k.procs t).file fd = some (.shm i rw) ∧ r = .ok (k.inodes i).len) := by
  change fstat ch t k fd = some (_, k') at he
  cases ch with
  | ok n =>
    simp only [fstat] at he
    split at he
    · rename_i i rw hf
      cases he
      exact ⟨rfl, .inr ⟨i, rw, hf, rfl⟩⟩
    · rename_i hf
      cases he
      exact ⟨rfl, .inl ⟨_, rfl, .inr hf⟩⟩
  | fail e => cases he; exact ⟨rfl, .inl ⟨e, rfl, .inl rfl⟩⟩
  | names fd l => cases he
  | bytes bs => cases he

theorem kill_cases {pid : UInt32} {r} (he : exec h ch t (.kill pid) k = some (r, k')) :
    k' = k ∧ (r = .error .ESRCH ↔ k.exists? pid = false) ∧
      (r = .ok () ∨ r = .error .EPERM ∨ r = .error .ESRCH) := by
  change kill ch k pid = some (_, k') at he
  cases ch with
  | ok n =>
    simp only [kill] at he
    split at he
    · rename_i hx
      cases he; exact ⟨rfl, by simp [hx], .inl rfl⟩
    · rename_i hx
      cases he; exact ⟨rfl, by simp [hx], .inr (.inr rfl)⟩
  | fail e =>
    simp only [kill] at he
    split at he
    · rename_i hx
      split at he
      · cases he; exact ⟨rfl, by simp [hx], .inr (.inl rfl)⟩
      · cases he
    · cases he
  | names fd l => cases he
  | bytes bs => cases he

theorem opendir_cases {path : String} {r} (he : exec h ch t (.opendir path) k = some (r, k')) :
    (∃ e, r = .error e ∧ k' = k ∧ ch = .fail e) ∨
    (∃ (fd : Nat) (l : _), (k.procs t).file fd = none ∧ (∀ n ∈ k.dir.keys, n ∈ l) ∧
      ch = .names fd l ∧
      r = .ok (fd : Int) ∧ k' = k.setProc t ((k.procs t).openFd fd (.dir l))) := by
  change opendir ch t k = some (_, k') at he
  cases ch with
  | names fd l =>
    simp only [opendir] at he
    split at he
    · cases he
    · rename_i hc
      push Not at hc
      cases he; exact .inr ⟨fd, l, hc.1, hc.2, rfl, rfl, rfl⟩
  | fail e => cases he; exact .inl ⟨e, rfl, rfl, rfl⟩
  | ok n => cases he
  | bytes bs => cases he

/-- What is left of a directory stream after one `readdir`. -/
theorem readdir_cases {d : Int} {r} (he : exec h ch t (.readdir d) k = some (r, k')) :
    ∃ pending skipped, (k.procs t).file d = some (.dir pending) ∧
      (∀ n ∈ skipped, k.dir.lookup n = none) ∧
      ∃ rest, pending = skipped ++ (r.toList ++ rest) ∧ (r = none → rest = []) ∧
        k' = k.setProc t (((k.procs t).closeFd d).openFd d (.dir rest)) := by
  change readdir ch t k d = some (_, k') at he
  unfold readdir at he
  split at he
  · rename_i j pending hf
    split at he
    · rename_i hskip
      have happ := List.take_append_drop j pending
      split at he
      · rename_i hnil
        cases he
        exact ⟨pending, pending.take j, hf, hskip, [], by simpa [hnil] using happ.symm,
          fun _ => rfl, rfl⟩
      · rename_i n rest hcons
        cases he
        exact ⟨pending, pending.take j, hf, hskip, rest, by simpa [hcons] using happ.symm,
          nofun, rfl⟩
    · cases he
  · cases he

theorem openCall_cases {path : String} {r} (he : exec h ch t (.open path) k = some (r, k')) :
    (∃ e, r = .error e ∧ k' = k) ∨
    (∃ fd : Nat, (k.procs t).file fd = none ∧ r = .ok (fd : Int) ∧
      k' = k.setProc t ((k.procs t).openFd fd .dev)) := by
  change openCall ch t k = some (_, k') at he
  cases ch with
  | ok fd =>
    simp only [openCall] at he
    split at he
    · cases he
    · rename_i hf
      rw [not_not] at hf
      cases he; exact .inr ⟨fd, hf, rfl, rfl⟩
  | fail e => cases he; exact .inl ⟨e, rfl, rfl⟩
  | names fd l => cases he
  | bytes bs => cases he

theorem readCall_cases {fd : Int} {buf count : Nat} {r}
    (he : exec h ch t (.read fd buf count) k = some (r, k')) :
    ∃ mem, k' = k.setProc t { k.procs t with mem := mem } := by
  change readCall ch t k fd buf count = some (_, k') at he
  unfold readCall at he
  split at he
  · cases he; exact ⟨(k.procs t).mem, (setProc_id k t).symm⟩
  · split at he
    · cases he; exact ⟨_, rfl⟩
    · cases he
  · cases he; exact ⟨(k.procs t).mem, (setProc_id k t).symm⟩
  · cases he

/-- Only private memory of process `t` has changed. -/
def Local (t : Nat) (k k' : Kernel) : Prop :=
  ∃ mem w, k' = k.setProc t { k.procs t with mem := mem, hasWhined := w }

theorem Local.refl (t : Nat) (k : Kernel) : Local t k k :=
  ⟨(k.procs t).mem, (k.procs t).hasWhined, (setProc_id k t).symm⟩

theorem Local.quiet (hl : Local t k k') : Quiet t k k' := by
  obtain ⟨mem, w, rfl⟩ := hl
  exact ⟨(k.procs t).fds, mem, w, rfl⟩

/-- The quiet operations that leave the descriptors alone. -/
def LocalOp : Sys → Prop
  | .log _ _ _ | .abort | .getpid | .kill _ | .rand | .getHasWhined | .setHasWhined _ | .read _ _ _
  | .fstat _ | .load32 _ | .store8 _ _ => True
  | _ => False

theorem exec_local {o : Sys} {r : o.Resp} (ho : LocalOp o)
    (he : exec h ch t o k = some (r, k')) : Local t k k' := by
  cases o with
  | log lvl fmt args => cases he; exact .refl t k
  | abort => exact r.elim
  | getpid => cases he; exact .refl t k
  | kill pid => rw [(kill_cases he).1]; exact .refl t k
  | rand =>
    cases ch with
    | ok n => cases he; exact .refl t k
    | fail e => cases he
    | names fd l => cases he
    | bytes bs => cases he
  | getHasWhined => cases he; exact .refl t k
  | setHasWhined b => cases he; exact ⟨_, b, rfl⟩
  | read fd buf count =>
    obtain ⟨mem, rfl⟩ := readCall_cases he
    exact ⟨mem, _, rfl⟩
  | fstat fd => rw [(fstat_cases he).1]; exact .refl t k
  | load32 a => cases he; exact .refl t k
  | store8 a b => cases he; exact ⟨_, _, rfl⟩
  | srand _ | time | «open» _ | close _ | write _ _ _ | send _ _ _ | ftruncate _ _ | ioctl _ _
  | shmOpen _ _ _ | shmUnlink _ | opendir _ | readdir _ | closedir _ | mmap _ _ _ | munmap _ _
  | atomicLoad _ | atomicStore _ _ | userWrite _ _ | chunkNew _ | chunkDestructor _
  | chunkSetDestructor _ _ | chunkParent _ | chunkDetach _ | chunkChild _ | chunkSteal _ _
  | chunkRelease _ | getDevice _ | setDevice _ _ | setFrameSlot _ _ _ | getFrame _ | setFrame _ _ =>
    exact ho.elim

/-- Quiet operations are quiet. -/
theorem exec_quiet {o : Sys} {r : o.Resp} (ho : QuietOp o)
    (he : exec h ch t o k = some (r, k')) : Quiet t k k' := by
  have hclose : ∀ {fd r}, closeCall ch t k fd = some (r, k') → Quiet t k k' := by
    intro fd r he
    rcases closeCall_cases he with ⟨e, -, rfl, -⟩ | ⟨f, -, -, rfl⟩
    · exact .refl t k'
    · exact ⟨_, _, _, rfl⟩
  cases o with
  -- the operations on descriptors
  | «open» path =>
    rcases openCall_cases he with ⟨e, -, rfl⟩ | ⟨fd, -, -, rfl⟩
    · exact .refl t k'
    · exact ⟨_, _, _, rfl⟩
  | close fd => exact hclose he
  | opendir path =>
    rcases opendir_cases he with ⟨e, -, rfl, -⟩ | ⟨fd, l, -, -, -, -, rfl⟩
    · exact .refl t k'
    · exact ⟨_, _, _, rfl⟩
  | readdir d =>
    obtain ⟨pending, skipped, -, -, rest, -, -, rfl⟩ := readdir_cases he
    exact ⟨_, _, _, rfl⟩
  | closedir d => exact hclose he
  | log _ _ _ | abort | getpid | kill _ | rand | getHasWhined | setHasWhined _
  | read _ _ _ | fstat _
  | load32 _ | store8 _ _ =>
    exact (exec_local (by trivial) he).quiet
  | srand _ | time | write _ _ _ | send _ _ _ | ftruncate _ _ | ioctl _ _ | shmOpen _ _ _
  | shmUnlink _ | mmap _ _ _ | munmap _ _ | atomicLoad _ | atomicStore _ _ | userWrite _ _
  | chunkNew _ | chunkDestructor _ | chunkSetDestructor _ _ | chunkParent _ | chunkDetach _
  | chunkChild _ | chunkSteal _ _ | chunkRelease _ | getDevice _ | setDevice _ _
  | setFrameSlot _ _ _ | getFrame _ | setFrame _ _ =>
    exact ho.elim

theorem shmOpen_cases {name : CStr} {flags : OpenFlags} {mode : Nat} {r}
    (he : exec h ch t (.shmOpen name flags mode) k = some (r, k')) :
    (∃ e, r = .error e ∧ k' = k ∧ (ch = .fail e ∨ ∀ n, name = '/' :: n → flags = .rdonly →
      k.dir.lookup n = none ∨ ∃ i, k.dir.lookup n = some i ∧ (k.inodes i).readable = false)) ∨
    (∃ n i, ∃ fd : Nat, name = '/' :: n ∧ flags = .rdonly ∧ k.dir.lookup n = some i ∧
      (k.inodes i).readable = true ∧ (k.procs t).file fd = none ∧ r = .ok (fd : Int) ∧
      k' = k.setProc t { (k.procs t).openFd fd (.shm i false) with opened := some i }) ∨
    (∃ n, ∃ fd : Nat, name = '/' :: n ∧ flags = .rdwrCreatExcl ∧ k.dir.lookup n = none ∧
      (k.procs t).file fd = none ∧ r = .ok (fd : Int) ∧
      k' = k.create h t n (mode &&& (0o777 ^^^ (h.umask &&& 0o777))) fd (k.madeBy t n)) := by
  change shmOpen h ch t k name flags mode = some (_, k') at he
  cases ch with
  | fail e => cases he; exact .inl ⟨e, rfl, rfl, .inl rfl⟩
  | names fd l => cases he
  | bytes bs => cases he
  | ok fd =>
    simp only [shmOpen] at he
    split at he
    · rename_i n
      split at he
      · cases he
      · rename_i hf
        rw [not_not] at hf
        cases flags with
        | rdonly =>
          cases hl : k.dir.lookup n with
          | none =>
            rw [hl] at he
            cases he
            exact .inl ⟨_, rfl, rfl, .inr (by rintro _ ⟨⟩ -; exact .inl hl)⟩
          | some i =>
            rw [hl] at he
            simp only at he
            split at he
            · rename_i hr
              cases he; exact .inr (.inl ⟨n, i, fd, rfl, rfl, hl, hr, hf, rfl, rfl⟩)
            · rename_i hr
              cases he
              refine .inl ⟨_, rfl, rfl, .inr ?_⟩
              rintro _ ⟨⟩ -
              exact .inr ⟨i, hl, by simpa using hr⟩
        | rdwrCreatExcl =>
          cases hl : k.dir.lookup n with
          | none => rw [hl] at he; cases he; exact .inr (.inr ⟨n, fd, rfl, rfl, hl, hf, rfl, rfl⟩)
          | some i => rw [hl] at he; cases he; exact .inl ⟨_, rfl, rfl, .inr nofun⟩
    · rename_i hname
      cases he
      exact .inl ⟨_, rfl, rfl, .inr fun n hn => (hname n hn).elim⟩

theorem shmUnlink_cases {name : CStr} {r} (he : exec h ch t (.shmUnlink name) k = some (r, k')) :
    (∃ e, r = .error e ∧ k' = k ∧
      (ch = .fail e ∨ (∀ n, name = '/' :: n → k.dir.lookup n = none) ∨
        ∃ n i, name = '/' :: n ∧ k.dir.lookup n = some i ∧ (k.inodes i).removable = false)) ∨
    (∃ n i, name = '/' :: n ∧ k.dir.lookup n = some i ∧ (k.inodes i).removable = true ∧
      r = .ok () ∧ k' = { k with dir := k.dir.erase n }) := by
  change shmUnlink ch k name = some (_, k') at he
  cases ch with
  | fail e => cases he; exact .inl ⟨e, rfl, rfl, .inl rfl⟩
  | names fd l => cases he
  | bytes bs => cases he
  | ok m =>
    simp only [shmUnlink] at he
    split at he
    · rename_i n
      split at he
      · rename_i hl
        cases he
        refine .inl ⟨_, rfl, rfl, .inr (.inl ?_)⟩
        rintro _ ⟨⟩
        exact hl
      · rename_i i hl
        split at he
        · rename_i hr
          cases he; exact .inr ⟨n, i, rfl, hl, hr, rfl, rfl⟩
        · rename_i hr
          cases he
          exact .inl ⟨_, rfl, rfl, .inr (.inr ⟨n, i, rfl, hl, by simpa using hr⟩)⟩
    · rename_i hname
      cases he
      exact .inl ⟨_, rfl, rfl, .inr (.inl fun n hn => (hname n hn).elim)⟩

theorem ftruncate_cases {fd : Int} {len : Nat} {r}
    (he : exec h ch t (.ftruncate fd len) k = some (r, k')) :
    (∃ e, r = .error e ∧ k' = k) ∨
    (∃ i, (k.procs t).file fd = some (.shm i true) ∧ r = .ok () ∧
      k' = k.setInode i { k.inodes i with
        len := len
        data := fun j => if j < (k.inodes i).len ∧ j < len then (k.inodes i).data j else 0 }) := by
  change ftruncate ch t k fd len = some (_, k') at he
  cases ch with
  | fail e => cases he; exact .inl ⟨e, rfl, rfl⟩
  | names fd l => cases he
  | bytes bs => cases he
  | ok m =>
    simp only [ftruncate] at he
    split at he
    · rename_i i hf
      cases he; exact .inr ⟨i, hf, rfl, rfl⟩
    · cases he; exact .inl ⟨_, rfl, rfl⟩

/-- A mapping is new: it overlaps none that is there. -/
theorem mmapCall_cases {len : Nat} {write : Bool} {file : Option (Int × Nat)} {r}
    (he : exec h ch t (.mmap len write file) k = some (r, k')) :
    (∃ e, r = .error e ∧ k' = k ∧ (ch = .fail e ∨ len = 0 ∨ ∃ fd off, file = some (fd, off) ∧
      ∀ i rw, (k.procs t).file fd = some (.shm i rw) → write = true ∧ rw = false)) ∨
    (∃ a ino off, r = .ok a ∧ 0 < len ∧ 0 < a ∧ h.pageSize ∣ a ∧
      (∀ m ∈ (k.procs t).maps, Mapping.Disjoint ⟨a, roundUp h.pageSize len, none, 0, write⟩ m) ∧
      k' = k.setProc t ((k.procs t).map ⟨a, roundUp h.pageSize len, ino, off, write⟩) ∧
      ((file = none ∧ ino = none ∧ off = 0) ∨
        ∃ fd i rw, file = some (fd, off) ∧ ino = some i ∧
          (k.procs t).file fd = some (.shm i rw))) := by
  change mmapCall h ch t k len write file = some (_, k') at he
  cases ch with
  | fail e => cases he; exact .inl ⟨e, rfl, rfl, .inl rfl⟩
  | names fd l => cases he
  | bytes bs => cases he
  | ok a =>
    simp only [mmapCall] at he
    split at he
    · rename_i hlen
      cases he
      exact .inl ⟨_, rfl, rfl, .inr (.inl hlen)⟩
    · rename_i hlen
      split at he
      · rename_i hfresh
        obtain ⟨ha, hpage, hdisj⟩ := hfresh
        have hlen : 0 < len := Nat.pos_of_ne_zero hlen
        cases file with
        | none =>
          cases he
          exact .inr ⟨a, none, 0, rfl, hlen, ha, hpage, hdisj, rfl, .inl ⟨rfl, rfl, rfl⟩⟩
        | some x =>
          obtain ⟨fd, off⟩ := x
          simp only at he
          split at he
          · rename_i i rw hf
            split at he
            · rename_i hacc
              cases he
              refine .inl ⟨_, rfl, rfl, .inr (.inr ⟨fd, off, rfl, fun i' rw' hf' => ?_⟩)⟩
              rw [hf] at hf'
              cases hf'
              exact hacc
            · cases he
              exact .inr ⟨a, some i, off, rfl, hlen, ha, hpage, hdisj, rfl,
                .inr ⟨fd, i, rw, rfl, rfl, hf⟩⟩
          · rename_i hf
            cases he
            exact .inl ⟨_, rfl, rfl, .inr (.inr ⟨fd, off, rfl, fun i rw hf' => (hf i rw hf').elim⟩)⟩
      · cases he

theorem munmapCall_cases {addr len : Nat} {r}
    (he : exec h ch t (.munmap addr len) k = some (r, k')) :
    (∃ e, r = .error e ∧ k' = k ∧ (ch = .fail e ∨ len = 0 ∨ ¬ h.pageSize ∣ addr)) ∨
    (0 < len ∧ h.pageSize ∣ addr ∧ r = .ok () ∧
      k' = k.setProc t ((k.procs t).unmap addr (addr + roundUp h.pageSize len))) := by
  change munmapCall h ch t k addr len = some (_, k') at he
  cases ch with
  | fail e => cases he; exact .inl ⟨e, rfl, rfl, .inl rfl⟩
  | names fd l => cases he
  | bytes bs => cases he
  | ok m =>
    simp only [munmapCall] at he
    split at he
    · rename_i hbad
      cases he; exact .inl ⟨_, rfl, rfl, .inr hbad⟩
    · rename_i hgood
      push Not at hgood
      cases he; exact .inr ⟨Nat.pos_of_ne_zero hgood.1, hgood.2, rfl, rfl⟩

/-- What memory a program touches at an address it has mapped. -/
theorem atomicLoad_cases {a : Nat} {v : UInt32}
    (he : exec h ch t (.atomicLoad a) k = some (v, k')) :
    ∃ m, (k.procs t).mapAt a = some m ∧
      ((∃ i, m.ino = some i ∧ v = load32 (k.inodes i).data (a - m.addr + m.off) ∧
        k' = k.setProc t { k.procs t with lastLoad := some ⟨i, a - m.addr + m.off, v⟩ }) ∨
      (m.ino = none ∧ k' = k)) := by
  change atomicLoad ch t k a = some (_, k') at he
  unfold atomicLoad at he
  split at he
  · rename_i addr len i off w n hm
    cases he
    exact ⟨_, hm, .inl ⟨i, rfl, rfl, rfl⟩⟩
  · rename_i addr len off w n hm
    cases he
    exact ⟨_, hm, .inr ⟨rfl, rfl⟩⟩
  · cases he

theorem atomicStore_cases {a : Nat} {v : UInt32} {r}
    (he : exec h ch t (.atomicStore a v) k = some (r, k')) :
    ∃ m, (k.procs t).mapAt a = some m ∧
      ((∃ i, m.ino = some i ∧
        k' = k.setInode i
          { k.inodes i with data := store32 (k.inodes i).data (a - m.addr + m.off) v }) ∨
      (m.ino = none ∧ k' = k)) := by
  change atomicStore ch t k a v = some (_, k') at he
  unfold atomicStore at he
  split at he
  · rename_i addr len i off n hm
    cases he
    exact ⟨_, hm, .inl ⟨i, rfl, rfl⟩⟩
  · rename_i addr len off n hm
    cases he
    exact ⟨_, hm, .inr ⟨rfl, rfl⟩⟩
  · cases he

theorem userWrite_cases {a : Nat} {b : UInt8} {r}
    (he : exec h ch t (.userWrite a b) k = some (r, k')) :
    ∃ m, (k.procs t).mapAt a = some m ∧
      ((∃ i, m.ino = some i ∧
        k' = k.setInode i
          { k.inodes i with
            data := Function.update (k.inodes i).data (a - m.addr + m.off) b }) ∨
      (m.ino = none ∧ k' = k)) := by
  change userWrite ch t k a b = some (_, k') at he
  unfold userWrite at he
  split at he
  · rename_i addr len i off n hm
    cases he
    exact ⟨_, hm, .inl ⟨i, rfl, rfl⟩⟩
  · rename_i addr len off n hm
    cases he
    exact ⟨_, hm, .inr ⟨rfl, rfl⟩⟩
  · cases he

end Kernel
end AnekVideo
