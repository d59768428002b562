/-
  AnekVideo.Device.World

  The process and the driver as the device code sees them: the chunks of
  talloc, the open descriptors, the mappings, and a V4L2 driver that decides
  which paths open and what each `ioctl` answers.

  An open file gets a number of its own that is never used again, so that two
  files open under one descriptor at different times stay apart.  `signals`
  counts the interruptions still to come: `EINTR` costs one, so a retry loop
  ends.
-/
import AnekVideo.Device.Code
import AnekVideo.Interact.Total

namespace AnekVideo

open Interact

/-! ## Descriptors -/

/-- The open descriptors: each number with the file it refers to. -/
structure FdTable where
  entries : List (Nat × Nat)
  next : Nat
  fresh : ∀ x ∈ entries, x.2 < next
  nodup : (entries.map Prod.fst).Nodup

namespace FdTable

/-- The file open as `fd`. -/
def file (F : FdTable) (fd : Int) : Option Nat :=
  (F.entries.find? fun x => decide ((x.1 : Int) = fd)).map Prod.snd

/-- A new file as number `n`. -/
def open' (F : FdTable) (n : Nat) (hn : n ∉ F.entries.map Prod.fst) : FdTable where
  entries := (n, F.next) :: F.entries
  next := F.next + 1
  fresh := by
    intro x hx
    rcases List.mem_cons.1 hx with rfl | hx
    · exact Nat.lt_succ_self _
    · exact Nat.lt_succ_of_lt (F.fresh x hx)
  nodup := List.nodup_cons.2 ⟨hn, F.nodup⟩

def close (F : FdTable) (fd : Int) : FdTable where
  entries := F.entries.filter fun x => decide ((x.1 : Int) ≠ fd)
  next := F.next
  fresh := fun x hx => F.fresh x (List.mem_filter.1 hx).1
  nodup := F.nodup.sublist (List.filter_sublist.map Prod.fst)

/-- What is open stands in the table. -/
theorem mem_of_file {F : FdTable} {fd : Int} {f : Nat} (h : F.file fd = some f) :
    ∃ n : Nat, fd = n ∧ (n, f) ∈ F.entries := by
  obtain ⟨⟨n, f'⟩, hfind, rfl⟩ := Option.map_eq_some_iff.1 h
  have hn := List.find?_some hfind
  rw [decide_eq_true_iff] at hn
  exact ⟨n, hn.symm, List.mem_of_find?_eq_some hfind⟩

end FdTable

/-! ## Chunks -/

/-- What a chunk holds; the structures of other files are not looked into. -/
inductive Body
  | other
  | device (d : AvDevice)
  | frame (f : AvFrame)
  deriving DecidableEq, Repr

/-- A chunk: its parent (0 for none), its children with the newest first, its destructor
    and what it holds. -/
structure Chunk where
  parent : Nat
  children : List Nat
  destructor : Option Destructor
  body : Body
  deriving DecidableEq, Repr

/-- A mapping of the file `file` of a driver. -/
structure DeviceMapping where
  addr : Nat
  file : Nat
  offset : Nat
  length : Nat
  deriving DecidableEq, Repr

/-- The machine; its heap is finite, so that `talloc` can succeed. -/
structure Machine where
  chunks : Nat → Option Chunk
  finite : ∃ n, ∀ p, n ≤ p → chunks p = none
  fds : FdTable
  maps : List DeviceMapping
  signals : Nat

/-! ## The driver -/

/-- A driver: which paths can be opened, what an `ioctl` may answer, and the map offset
    and length of each of its buffers.  Every request has an answer other than `EINTR`. -/
structure Driver where
  opens : String → Bool
  answers : (req : Ioctl) → Except Errno req.Out → Bool
  buffers : List (Nat × Nat)
  settles : ∀ req, ∃ r, r ≠ .error .EINTR ∧ answers req r = true

namespace Machine

/-- Settles what is free: an address or descriptor, an error, or the answer of a driver. -/
inductive Choice
  | ok (n : Nat)
  | fail (e : Errno)
  | answer (f : (req : Ioctl) → Except Errno req.Out)

variable (D : Driver) (ch : Choice) (k : Machine)

def setChunk (p : Nat) (c : Option Chunk) : Machine where
  chunks := Function.update k.chunks p c
  finite := by
    obtain ⟨n, hn⟩ := k.finite
    refine ⟨max n (p + 1), fun q hq => ?_⟩
    rw [Function.update_of_ne (by omega)]
    exact hn q (by omega)
  fds := k.fds
  maps := k.maps
  signals := k.signals

/-- `__talloc`: a new chunk at the head of the children of `ctx`.  It does not fail. -/
def newChunk (ctx : Nat) : Option (Nat × Machine) :=
  match ch, k.chunks ctx with
  | .ok p, some c =>
    if p = 0 ∨ k.chunks p ≠ none then none
    else some (p, (k.setChunk ctx (some { c with children := p :: c.children })).setChunk p
      (some ⟨ctx, [], none, .other⟩))
  | _, _ => none

/-- The unlinking of a chunk from its parent; `talloc_parent_chunk` still finds the parent. -/
def detach (p : Nat) : Option (Unit × Machine) :=
  (k.chunks p).map fun c => ((),
    match k.chunks c.parent with
    | some pc => k.setChunk c.parent (some { pc with children := pc.children.erase p })
    -- a chunk without a parent is in no list
    | none => k)

/-- `__talloc_steal`. -/
def steal (ctx p : Nat) : Option (Unit × Machine) :=
  (k.detach p).bind fun x =>
    match x.2.chunks p, x.2.chunks ctx with
    | some c, some nc =>
      some ((), (x.2.setChunk p (some { c with parent := ctx })).setChunk ctx
        (some { nc with children := p :: nc.children }))
    | some c, none => some ((), x.2.setChunk p (some { c with parent := 0 }))
    | none, _ => none

/-- `open(path, O_RDWR)`. -/
def openPath (path : String) : Option (Except Errno Int × Machine) :=
  match ch with
  | .ok n =>
    -- a number that is not in use
    if hn : n ∉ k.fds.entries.map Prod.fst then
      if D.opens path then some (.ok n, { k with fds := k.fds.open' n hn }) else none
    else none
  | .fail e => if D.opens path then none else some (.error e, k)
  | .answer _ => none

def closeFd (fd : Int) : Except Errno Unit × Machine :=
  match k.fds.file fd with
  | some _ => (.ok (), { k with fds := k.fds.close fd })
  | none => (.error .EBADF, k)

def ioctl (fd : Int) (req : Ioctl) : Option (Except Errno req.Out × Machine) :=
  match ch, k.fds.file fd with
  | .answer f, some _ =>
    if D.answers req (f req) then
      match f req with
      -- each interruption uses up a signal, so that a retry ends
      | .error .EINTR =>
        if k.signals = 0 then none else some (.error .EINTR, { k with signals := k.signals - 1 })
      | r => some (r, k)
    else none
  | _, none => some (.error .EBADF, k)
  | _, _ => none

/-- `mmap` of a driver's file: no mapping is empty, and the driver maps its buffers only. -/
def mmapFile (len : Nat) (fd : Int) (off : Nat) : Option (Except Errno Nat × Machine) :=
  match k.fds.file fd with
  | none => some (.error .EBADF, k)
  | some file =>
    if len = 0 ∨ (off, len) ∉ D.buffers then some (.error .EINVAL, k)
    else
      match ch with
      | .ok a =>
        -- an address at which nothing is mapped
        if a = 0 ∨ ∃ m ∈ k.maps, m.addr = a then none
        else some (.ok a, { k with maps := ⟨a, file, off, len⟩ :: k.maps })
      | .fail e => some (.error e, k)
      | .answer _ => none

/-- `dev->frames[i] = f`; there is no slot from `MAX_DEVICE_FRAMES` on. -/
def storeSlot (p i f : Nat) : Option (Unit × Machine) :=
  match k.chunks p with
  | some ⟨parent, children, destructor, .device d⟩ =>
    if i < d.frames.length then
      some ((), k.setChunk p
        (some ⟨parent, children, destructor, .device { d with frames := d.frames.set i f }⟩))
    else none
  | _ => none

/-- One operation.  An access to what is not a chunk has no outcome. -/
def exec : (o : Sys) → Machine → Option (o.Resp × Machine)
  | .log _ _ _, k => some ((), k)
  | .open path, k => openPath D ch k path
  | .close fd, k => some (k.closeFd fd)
  | .ioctl fd req, k => ioctl D ch k fd req
  | .mmap len _ (some (fd, off)), k => mmapFile D ch k len fd off
  | .chunkNew ctx, k => newChunk ch k ctx
  | .chunkDestructor p, k => (k.chunks p).map fun c => (c.destructor, k)
  | .chunkSetDestructor p d, k =>
    (k.chunks p).map fun c => ((), k.setChunk p (some { c with destructor := d }))
  | .chunkParent p, k => (k.chunks p).map fun c => (c.parent, k)
  | .chunkDetach p, k => k.detach p
  | .chunkChild p, k => (k.chunks p).map fun c => (c.children.headD 0, k)
  | .chunkSteal ctx p, k => k.steal ctx p
  | .chunkRelease p, k => (k.chunks p).map fun _ => ((), k.setChunk p none)
  | .getDevice p, k =>
    match k.chunks p with
    | some ⟨_, _, _, .device d⟩ => some (d, k)
    | _ => none
  | .setDevice p d, k =>
    (k.chunks p).map fun c => ((), k.setChunk p (some { c with body := .device d }))
  | .setFrameSlot p i f, k => k.storeSlot p i f
  | .getFrame p, k =>
    match k.chunks p with
    | some ⟨_, _, _, .frame f⟩ => some (f, k)
    | _ => none
  | .setFrame p f, k =>
    (k.chunks p).map fun c => ((), k.setChunk p (some { c with body := .frame f }))
  | _, _ => none

/-- What the operations of one thread may do under driver `D`. -/
def sem (D : Driver) : OpSem sys Machine := fun o k r k' => ∃ ch, exec D ch o k = some (r, k')

end Machine
end AnekVideo
