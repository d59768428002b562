/-
  AnekVideo.Shm.Kernel

  The kernel as the shm code sees it: the directory /dev/shm, the objects its
  names are bound to, and the processes with their descriptors and mappings.

  A name is unlinked from the directory without touching the object, and
  objects are never reused, so an object that has lost its name lives on for
  whoever has it open or mapped.  `Kernel.exec` performs one system call or
  memory access of one process; what the kernel is free to choose (whether a
  call fails, fresh descriptors and addresses, the order of a directory, the
  bytes of a device) comes from a `Choice`.

  Three kinds of field record history and are read by no call: who made an
  object and for which request (`made`), which library call a process is in
  (`calls`, `cur`), and which object it opened and which word it loaded last
  (`opened`, `lastLoad`).
-/
import AnekVideo.Arith.RoundUp
import AnekVideo.Arith.Word
import AnekVideo.Shm.Code

namespace AnekVideo

open Interact RoundUp Word

/-- A handle: `struct av_shm` as its owner holds it, the number of the call that
    acquired it, and how many bytes at its start the owner may write. -/
structure Handle where
  m : AvShm
  call : Nat
  room : Nat
  deriving DecidableEq, Repr

/-- What a process does: the calls of shm.h, and a byte written by its own code
    into a segment it created. -/
inductive ShmCall
  | create (idp : Nat) (m : AvShm) (size : Nat) (shared : Int) (mode : Nat)
  | attach (m : AvShm) (id : UInt32)
  | free (hd : Handle)
  | cleanup
  | write (hd : Handle) (off : Nat) (b : UInt8)
  deriving DecidableEq, Repr

/-- Who made a segment: the process, the number of its call, the name given and the
    size requested. -/
structure Made where
  owner : Nat
  call : Nat
  name : CStr
  size : Nat
  deriving DecidableEq, Repr

/-- A file of /dev/shm: its length and bytes, and whether the user may open it for
    reading and may unlink it. -/
structure Inode where
  len : Nat
  data : Bytes
  readable : Bool
  removable : Bool
  made : Option Made

/-- What a descriptor refers to. -/
inductive File
  | shm (ino : Nat) (rw : Bool)
  | dir (pending : List CStr)
  | dev
  deriving DecidableEq, Repr

/-- A mapping: `[addr, addr + len)` shows object `ino` from `off` on, or anonymous
    memory. -/
structure Mapping where
  addr : Nat
  len : Nat
  ino : Option Nat
  off : Nat
  write : Bool
  deriving DecidableEq, Repr

/-- A word loaded from a shared object. -/
structure Load where
  ino : Nat
  off : Nat
  val : UInt32
  deriving DecidableEq, Repr

structure Proc where
  pid : UInt32
  alive : Bool
  fds : List (Int × File)
  maps : List Mapping
  mem : Bytes
  hasWhined : Bool
  calls : Nat
  cur : Option ShmCall
  opened : Option Nat
  lastLoad : Option Load

structure Kernel where
  dir : AList fun _ : CStr => Nat
  inodes : Nat → Inode
  inos : Nat
  procs : Nat → Proc
  nprocs : Nat
  /-- Whether a process group with this (negative) id exists. -/
  group : UInt32 → Bool

/-- Settles what the kernel is free to choose. -/
inductive Choice
  | ok (n : Nat)
  | fail (e : Errno)
  | names (fd : Nat) (l : List CStr)
  | bytes (bs : List UInt8)
  deriving DecidableEq, Repr

/-! ## Parts of the state -/

def Mapping.Disjoint (m m' : Mapping) : Prop :=
  m.addr + m.len ≤ m'.addr ∨ m'.addr + m'.len ≤ m.addr

instance (m m' : Mapping) : Decidable (m.Disjoint m') := inferInstanceAs (Decidable (_ ∨ _))

/-- What `munmap` of `[lo, hi)` leaves of a mapping. -/
def Mapping.cut (lo hi : Nat) (m : Mapping) : List Mapping :=
  if hi ≤ m.addr ∨ m.addr + m.len ≤ lo then [m]
  else
    (if m.addr < lo then [{ m with len := lo - m.addr }] else []) ++
    (if hi < m.addr + m.len then
      [{ m with addr := hi, len := m.addr + m.len - hi, off := m.off + (hi - m.addr) }]
    else [])

namespace Proc

/-- The mapping that address `a` lies in. -/
def mapAt (p : Proc) (a : Nat) : Option Mapping :=
  p.maps.find? fun m => decide (m.addr ≤ a ∧ a < m.addr + m.len)

/-- What descriptor `fd` refers to. -/
def file (p : Proc) (fd : Int) : Option File := p.fds.lookup fd

def closeFd (p : Proc) (fd : Int) : Proc := { p with fds := p.fds.filter fun x => x.1 ≠ fd }

def openFd (p : Proc) (fd : Int) (f : File) : Proc := { p with fds := (fd, f) :: p.fds }

def unmap (p : Proc) (lo hi : Nat) : Proc := { p with maps := p.maps.flatMap (Mapping.cut lo hi) }

def map (p : Proc) (m : Mapping) : Proc := { p with maps := m :: p.maps }

end Proc

namespace Kernel

def setProc (k : Kernel) (t : Nat) (p : Proc) : Kernel :=
  { k with procs := Function.update k.procs t p }

def setInode (k : Kernel) (i : Nat) (x : Inode) : Kernel :=
  { k with inodes := Function.update k.inodes i x }

/-- `kill(pid, 0)` finds somebody: a process, or a group for a negative `pid`. -/
def exists? (k : Kernel) (pid : UInt32) : Bool :=
  if pid.toNat < 2 ^ 31 then
    (List.range k.nprocs).any fun t => (k.procs t).alive && (k.procs t).pid == pid
  else k.group pid

/-- A new object bound to name `n` and opened as `fd` by process `t`. -/
def create (k : Kernel) (h : Host) (t : Nat) (n : CStr) (mode : Nat) (fd : Int)
    (made : Option Made) :
    Kernel :=
  let x : Inode :=
    { len := 0, data := fun _ => 0, readable := h.root || (mode &&& 0o400) != 0,
      removable := true, made := made }
  { k with
    dir := k.dir.insert n k.inos
    inodes := Function.update k.inodes k.inos x
    inos := k.inos + 1
    procs := Function.update k.procs t
      { (k.procs t).openFd fd (.shm k.inos true) with opened := some k.inos } }

/-- The request process `t` is working on, as the record of a segment it names `n`. -/
def madeBy (k : Kernel) (t : Nat) (n : CStr) : Option Made :=
  match (k.procs t).cur with
  | some (.create _ _ size _ _) => some ⟨t, (k.procs t).calls, n, size⟩
  | _ => none

/-! ## System calls and memory accesses -/

variable (h : Host) (ch : Choice) (t : Nat) (k : Kernel)

def shmOpen (name : CStr) (flags : OpenFlags) (mode : Nat) : Option (Except Errno Int × Kernel) :=
  match ch with
  | .fail e => some (.error e, k)
  | .ok fd =>
    match name with
    | '/' :: n =>
      -- the descriptor that is chosen is free
      if (k.procs t).file fd ≠ none then none
      else
        match flags, k.dir.lookup n with
        | .rdonly, none => some (.error .ENOENT, k)
        | .rdonly, some i =>
          if (k.inodes i).readable then
            some (.ok fd, k.setProc t
              { (k.procs t).openFd fd (.shm i false) with opened := some i })
          else some (.error .EACCES, k)
        | .rdwrCreatExcl, some _ => some (.error .EEXIST, k)
        | .rdwrCreatExcl, none =>
          -- the umask takes permissions away
          some (.ok fd, k.create h t n (mode &&& (0o777 ^^^ (h.umask &&& 0o777))) fd (k.madeBy t n))
    | _ => some (.error .EINVAL, k)
  | _ => none

def shmUnlink (name : CStr) : Option (Except Errno Unit × Kernel) :=
  match ch with
  | .fail e => some (.error e, k)
  | .ok n =>
    match name with
    | '/' :: f =>
      match k.dir.lookup f with
      | none => some (.error .ENOENT, k)
      | some i =>
        if (k.inodes i).removable then some (.ok (), { k with dir := k.dir.erase f })
        -- somebody else's object, or a sticky directory
        else some (.error (if n = 0 then .EACCES else .EPERM), k)
    | _ => some (.error .EINVAL, k)
  | _ => none

def closeCall (fd : Int) : Option (Except Errno Unit × Kernel) :=
  match ch with
  | .fail e => some (.error e, k)
  | .ok _ =>
    match (k.procs t).file fd with
    | none => some (.error .EBADF, k)
    | some _ => some (.ok (), k.setProc t ((k.procs t).closeFd fd))
  | _ => none

def fstat (fd : Int) : Option (Except Errno Nat × Kernel) :=
  match ch with
  | .fail e => some (.error e, k)
  | .ok _ =>
    match (k.procs t).file fd with
    | some (.shm i _) => some (.ok (k.inodes i).len, k)
    | _ => some (.error .EBADF, k)
  | _ => none

def ftruncate (fd : Int) (len : Nat) : Option (Except Errno Unit × Kernel) :=
  match ch with
  | .fail e => some (.error e, k)
  | .ok _ =>
    match (k.procs t).file fd with
    | some (.shm i true) =>
      -- bytes beyond the old end, or cut off, read as zero
      let x := k.inodes i
      some (.ok (), k.setInode i
        { x with len := len, data := fun j => if j < x.len ∧ j < len then x.data j else 0 })
    | _ => some (.error .EINVAL, k)
  | _ => none

def mmapCall (len : Nat) (write : Bool) (file : Option (Int × Nat)) :
    Option (Except Errno Nat × Kernel) :=
  match ch with
  | .fail e => some (.error e, k)
  | .ok a =>
    if len = 0 then some (.error .EINVAL, k)
    else
      let p := k.procs t
      let m (ino : Option Nat) (off : Nat) : Mapping :=
        ⟨a, roundUp h.pageSize len, ino, off, write⟩
      -- whole pages that nothing else is mapped at
      if 0 < a ∧ h.pageSize ∣ a ∧ ∀ m' ∈ p.maps, (m none 0).Disjoint m' then
        match file with
        | none => some (.ok a, k.setProc t (p.map (m none 0)))
        | some (fd, off) =>
          match p.file fd with
          | some (.shm i rw) =>
            if write = true ∧ rw = false then some (.error .EACCES, k)
            else some (.ok a, k.setProc t (p.map (m (some i) off)))
          | _ => some (.error .EBADF, k)
      else none
  | _ => none

def munmapCall (addr len : Nat) : Option (Except Errno Unit × Kernel) :=
  match ch with
  | .fail e => some (.error e, k)
  | .ok _ =>
    -- the length is rounded up to pages, the address has to be at one
    if len = 0 ∨ ¬ h.pageSize ∣ addr then some (.error .EINVAL, k)
    else some (.ok (), k.setProc t ((k.procs t).unmap addr (addr + roundUp h.pageSize len)))
  | _ => none

def opendir : Option (Except Errno Int × Kernel) :=
  match ch with
  | .fail e => some (.error e, k)
  | .names fd l =>
    -- `l` is what the stream will report: every entry there is now, in any order,
    -- and any entries that come up later
    if (k.procs t).file fd ≠ none ∨ ¬ ∀ n ∈ k.dir.keys, n ∈ l then none
    else some (.ok fd, k.setProc t ((k.procs t).openFd fd (.dir l)))
  | _ => none

def readdir (d : Int) : Option (Option CStr × Kernel) :=
  match ch, (k.procs t).file d with
  | .ok j, some (.dir pending) =>
    -- the first `j` names that are left have vanished meanwhile and are not reported
    if ∀ n ∈ pending.take j, k.dir.lookup n = none then
      match pending.drop j with
      | [] => some (none, k.setProc t (((k.procs t).closeFd d).openFd d (.dir [])))
      | n :: rest => some (some n, k.setProc t (((k.procs t).closeFd d).openFd d (.dir rest)))
    else none
  | _, _ => none

def kill (pid : UInt32) : Option (Except Errno Unit × Kernel) :=
  match ch with
  -- a process that is there may belong to another user
  | .fail e => if k.exists? pid then if e = .EPERM then some (.error .EPERM, k) else none else none
  | .ok _ => if k.exists? pid then some (.ok (), k) else some (.error .ESRCH, k)
  | _ => none

def openCall : Option (Except Errno Int × Kernel) :=
  match ch with
  | .fail e => some (.error e, k)
  | .ok fd =>
    if (k.procs t).file fd ≠ none then none
    else some (.ok fd, k.setProc t ((k.procs t).openFd fd .dev))
  | _ => none

def readCall (fd : Int) (buf count : Nat) : Option (Except Errno Nat × Kernel) :=
  match ch, (k.procs t).file fd with
  | .fail e, _ => some (.error e, k)
  | .bytes bs, some .dev =>
    -- a device may deliver less than it was asked for
    if bs.length ≤ count then
      some (.ok bs.length, k.setProc t { k.procs t with
        mem := fun i => if buf ≤ i ∧ i < buf + bs.length then bs.getD (i - buf) 0
          else (k.procs t).mem i })
    else none
  | .ok _, none => some (.error .EBADF, k)
  | _, _ => none

def atomicLoad (a : Nat) : Option (UInt32 × Kernel) :=
  match (k.procs t).mapAt a, ch with
  | some ⟨addr, _, some i, off, _⟩, .ok _ =>
    let o := a - addr + off
    let v := load32 (k.inodes i).data o
    some (v, k.setProc t { k.procs t with lastLoad := some ⟨i, o, v⟩ })
  -- what anonymous memory holds is not part of the state
  | some ⟨_, _, none, _, _⟩, .ok n => some (UInt32.ofNat n, k)
  | _, _ => none

def atomicStore (a : Nat) (v : UInt32) : Option (Unit × Kernel) :=
  match (k.procs t).mapAt a, ch with
  | some ⟨addr, _, some i, off, true⟩, .ok _ =>
    some ((), k.setInode i
      { k.inodes i with data := store32 (k.inodes i).data (a - addr + off) v })
  | some ⟨_, _, none, _, true⟩, .ok _ => some ((), k)
  | _, _ => none

/-- A byte written by the process's own code into memory that it mapped. -/
def userWrite (a : Nat) (b : UInt8) : Option (Unit × Kernel) :=
  match (k.procs t).mapAt a, ch with
  | some ⟨addr, _, some i, off, true⟩, .ok _ =>
    some ((), k.setInode i
      { k.inodes i with data := Function.update (k.inodes i).data (a - addr + off) b })
  | some ⟨_, _, none, _, true⟩, .ok _ => some ((), k)
  | _, _ => none

/-- One operation of process `t`. -/
def exec (ch : Choice) (t : Nat) : (o : Sys) → Kernel → Option (o.Resp × Kernel)
  | .log _ _ _, k => some ((), k)
  | .getpid, k => some ((k.procs t).pid, k)
  | .kill pid, k => kill ch k pid
  | .rand, k =>
    match ch with
    | .ok n => some (UInt32.ofNat n, k)
    | _ => none
  | .getHasWhined, k => some ((k.procs t).hasWhined, k)
  | .setHasWhined b, k => some ((), k.setProc t { k.procs t with hasWhined := b })
  | .open _, k => openCall ch t k
  | .close fd, k => closeCall ch t k fd
  | .read fd buf count, k => readCall ch t k fd buf count
  | .fstat fd, k => fstat ch t k fd
  | .ftruncate fd len, k => ftruncate ch t k fd len
  | .shmOpen name flags mode, k => shmOpen h ch t k name flags mode
  | .shmUnlink name, k => shmUnlink ch k name
  | .opendir _, k => opendir ch t k
  | .readdir d, k => readdir ch t k d
  | .closedir d, k => closeCall ch t k d
  | .mmap len write file, k => mmapCall h ch t k len write file
  | .munmap addr len, k => munmapCall h ch t k addr len
  | .load32 a, k => some (load32 (k.procs t).mem a, k)
  | .store8 a b, k =>
    some ((), k.setProc t { k.procs t with mem := Function.update (k.procs t).mem a b })
  | .atomicLoad a, k => atomicLoad ch t k a
  | .atomicStore a v, k => atomicStore ch t k a v
  | .userWrite a b, k => userWrite ch t k a b
  | _, _ => none

end Kernel
end AnekVideo
