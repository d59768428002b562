/-
  AnekVideo.Sys

  The outside of the program: the system calls, the memory accesses and the
  allocator steps its functions issue, as one interface for the programs of
  `Interact.Prog`.

  A call that C reports as `-1` with `errno` answers `Except Errno _` here.
  Descriptors are C `int`s, addresses and `size_t` values are naturals; the
  functions reduce them where the C code computes in `size_t`.
-/
import AnekVideo.Interact.Prog

namespace AnekVideo

open Interact

/-- The values of `errno` the code tells apart, and the rest. -/
inductive Errno
  | EINTR | EACCES | EPERM | ENOENT | EEXIST | ESRCH | ENOTSOCK | EBADF | EINVAL | ERANGE
  | other (n : Nat)
  deriving DecidableEq, Repr

/-- A C string: its characters before the terminating NUL. -/
abbrev CStr := List Char

inductive LogLevel
  | error | warn | notice | info | debug
  deriving DecidableEq, Repr

/-- An argument of a log format. -/
inductive LogArg
  | str (s : CStr)
  | text (s : String)
  | strerror (e : Errno)
  | int (n : Int)
  | ptr (p : Nat)
  /-- A pointer to a structure that is passed as a value here, by its name in the code. -/
  | pointer (name : String)
  deriving DecidableEq, Repr

/-! ## The structures of V4L2 the device code reads and writes -/

structure V4l2PixFormat where
  width : Nat := 0
  height : Nat := 0
  pixelformat : Nat := 0
  field : Nat := 0
  deriving DecidableEq, Repr

structure V4l2Format where
  type : Nat := 0
  pix : V4l2PixFormat := {}
  deriving DecidableEq, Repr

structure V4l2Streamparm where
  type : Nat := 0
  numerator : Nat := 0
  denominator : Nat := 0
  deriving DecidableEq, Repr

structure V4l2Requestbuffers where
  count : Nat := 0
  type : Nat := 0
  memory : Nat := 0
  deriving DecidableEq, Repr

structure V4l2Buffer where
  index : Nat := 0
  type : Nat := 0
  field : Nat := 0
  timestamp : Nat := 0
  timecode : Nat := 0
  sequence : Nat := 0
  memory : Nat := 0
  offset : Nat := 0
  length : Nat := 0
  deriving DecidableEq, Repr

/-- The `ioctl` requests, with the structure each passes in. -/
inductive Ioctl
  | querycap
  | sFmt (fmt : V4l2Format)
  | sParm (parm : V4l2Streamparm)
  | reqbufs (rb : V4l2Requestbuffers)
  | dqbuf (buf : V4l2Buffer)
  deriving DecidableEq, Repr

/-- The structure a request passes back. -/
@[reducible] def Ioctl.Out : Ioctl → Type
  | .querycap => Nat
  | .sFmt _ => V4l2Format
  | .sParm _ => V4l2Streamparm
  | .reqbufs _ => V4l2Requestbuffers
  | .dqbuf _ => V4l2Buffer

/-- `struct av_frame`.  `mem` is an address, 0 for a null pointer and -1 for `MAP_FAILED`. -/
structure AvFrame where
  refcount : Nat := 0
  field : Nat := 0
  timestamp : Nat := 0
  timecode : Nat := 0
  sequence : Nat := 0
  length : Nat := 0
  mem : Int := 0
  deriving DecidableEq, Repr

/-- The number of frames of a device, `MAX_DEVICE_FRAMES`. -/
def maxDeviceFrames : Nat := 6

/-- `struct av_device`; a null frame pointer is 0. -/
structure AvDevice where
  fd : Int := 0
  cap : Nat := 0
  fmt : V4l2Format := {}
  rb : V4l2Requestbuffers := {}
  buf : V4l2Buffer := {}
  frames : List Nat := List.replicate maxDeviceFrames 0
  deriving DecidableEq, Repr

/-- The destructors the code sets, and talloc's mark for one that is running. -/
inductive Destructor
  | avDeviceDestroy
  | avFrameDestroy
  | running
  deriving DecidableEq, Repr

/-! ## The interface -/

/-- How `shm_open` is called: `O_RDONLY`, or `O_RDWR|O_CREAT|O_EXCL`. -/
inductive OpenFlags
  | rdonly
  | rdwrCreatExcl
  deriving DecidableEq, Repr

/-- What the program asks of the outside. -/
inductive Sys
  -- process and log
  | log (lvl : LogLevel) (fmt : String) (args : List LogArg)
  | abort
  | getpid
  | kill (pid : UInt32)
  -- random numbers and the static `has_whined`
  | rand
  | srand (seed : UInt32)
  | time
  | getHasWhined
  | setHasWhined (b : Bool)
  -- descriptors
  | open (path : String)
  | close (fd : Int)
  | read (fd : Int) (buf count : Nat)
  | write (fd : Int) (buf count : Nat)
  | send (fd : Int) (buf count : Nat)
  | fstat (fd : Int)
  | ftruncate (fd : Int) (len : Nat)
  | ioctl (fd : Int) (req : Ioctl)
  -- shared memory objects and their directory
  | shmOpen (name : CStr) (flags : OpenFlags) (mode : Nat)
  | shmUnlink (name : CStr)
  | opendir (path : String)
  | readdir (d : Int)
  | closedir (d : Int)
  -- mappings: `none` is `MAP_ANONYMOUS|MAP_PRIVATE`, `some (fd, off)` is `MAP_SHARED`
  | mmap (len : Nat) (write : Bool) (file : Option (Int × Nat))
  | munmap (addr len : Nat)
  -- memory
  | load32 (addr : Nat)
  | store8 (addr : Nat) (b : UInt8)
  | atomicLoad (addr : Nat)
  | atomicStore (addr : Nat) (v : UInt32)
  | userWrite (addr : Nat) (b : UInt8)
  -- the chunks of talloc by their address, 0 for a null pointer
  | chunkNew (ctx : Nat)
  | chunkDestructor (p : Nat)
  | chunkSetDestructor (p : Nat) (d : Option Destructor)
  | chunkParent (p : Nat)
  | chunkDetach (p : Nat)
  | chunkChild (p : Nat)
  | chunkSteal (ctx p : Nat)
  | chunkRelease (p : Nat)
  -- the structures in them; `setFrameSlot` stores into `frames[i]`
  | getDevice (p : Nat)
  | setDevice (p : Nat) (d : AvDevice)
  | setFrameSlot (p i : Nat) (f : Nat)
  | getFrame (p : Nat)
  | setFrame (p : Nat) (f : AvFrame)

/-- What each answers. -/
@[reducible] def Sys.Resp : Sys → Type
  | .log _ _ _ => Unit
  | .abort => Empty
  | .getpid => UInt32
  | .kill _ => Except Errno Unit
  | .rand => UInt32
  | .srand _ => Unit
  | .time => UInt32
  | .getHasWhined => Bool
  | .setHasWhined _ => Unit
  | .open _ => Except Errno Int
  | .close _ => Except Errno Unit
  | .read _ _ _ => Except Errno Nat
  | .write _ _ _ => Except Errno Nat
  | .send _ _ _ => Except Errno Nat
  | .fstat _ => Except Errno Nat
  | .ftruncate _ _ => Except Errno Unit
  | .ioctl _ req => Except Errno req.Out
  | .shmOpen _ _ _ => Except Errno Int
  | .shmUnlink _ => Except Errno Unit
  | .opendir _ => Except Errno Int
  | .readdir _ => Option CStr
  | .closedir _ => Except Errno Unit
  | .mmap _ _ _ => Except Errno Nat
  | .munmap _ _ => Except Errno Unit
  | .load32 _ => UInt32
  | .store8 _ _ => Unit
  | .atomicLoad _ => UInt32
  | .atomicStore _ _ => Unit
  | .userWrite _ _ => Unit
  | .chunkNew _ => Nat
  | .chunkDestructor _ => Option Destructor
  | .chunkSetDestructor _ _ => Unit
  | .chunkParent _ => Nat
  | .chunkDetach _ => Unit
  | .chunkChild _ => Nat
  | .chunkSteal _ _ => Unit
  | .chunkRelease _ => Unit
  | .getDevice _ => AvDevice
  | .setDevice _ _ => Unit
  | .setFrameSlot _ _ _ => Unit
  | .getFrame _ => AvFrame
  | .setFrame _ _ => Unit

/-- The interface of every C function of the program. -/
@[reducible] def sys : Iface := ⟨Sys, Sys.Resp⟩

/-- C functions that return an `α`. -/
abbrev C (α : Type) := Prog sys α

/-- Issue one operation. -/
abbrev call (o : Sys) : C o.Resp := Prog.op (E := sys) o

/-- `mmap`. -/
abbrev mmap (len : Nat) (write : Bool) (file : Option (Int × Nat)) : C (Except Errno Nat) :=
  call (.mmap len write file)

end AnekVideo
