/-
  AnekVideo.Shm.Code

  src/shm.c and src/shm.h: shared memory segments with the pid of their
  creator at the end, and the cleanup of segments whose creator is dead.

  A `struct av_shm` is passed in and out as a value, so the assertions that
  the pointer to it is not null have nothing to test here.
-/
import AnekVideo.Names
import AnekVideo.Random

namespace AnekVideo

open Interact

/-- What a signed one-bit field holds after an assignment: the low bit, as a sign. -/
def bitField (x : Int) : Int := if x % 2 = 0 then 0 else -1

/-- `struct av_shm`. -/
structure AvShm where
  id : UInt32 := 0
  ptr : Nat := 0
  size : Nat := 0
  doUnlink : Int := 0
  shared : Int := 0
  deriving DecidableEq, Repr

/-- `MAX_SHM_SIZE`. -/
def maxShmSize (h : Host) : Nat := avAlign h (1024 * 1024 * 64)

/-- `SHM_MARKER`. -/
def shmMarker : UInt32 := 0xc0ffee11

/-- `SHM_MARKER_SIZE`; `struct shm_marker` is two `int`s, `marker` and `pid`. -/
def shmMarkerSize (h : Host) : Nat := avAlign h 8

/-- Where `pid` stands in a `struct shm_marker`. -/
def shmMarkerPid : Nat := 4

/-- `MAP_FAILED`, `(void*) -1`. -/
def mapFailed (h : Host) : Nat := h.sizeMod - 1

/-- Where the marker of a segment mapped at `ptr` with size `size` stands. -/
def markerAddr (h : Host) (ptr size : Nat) : Nat := ptr + size - shmMarkerSize h

/-- The test of `av_shm_attach_ro` on `st_size`. -/
def invalidSize (h : Host) (stSize : Nat) : Bool :=
  decide (stSize ≤ 0) || decide (stSize > maxShmSize h + shmMarkerSize h) ||
    decide (avAlign h (stSize % h.sizeMod) ≠ stSize % h.sizeMod)

/-- The failure path of `av_shm_attach_ro`. -/
def avShmAttachFail (fd : Int) (m : AvShm) : C (Int × AvShm) := do
  let _ ← avClose fd
  return (-1, m)

/-- `av_shm_attach_ro`. -/
def avShmAttachRo (h : Host) (m : AvShm) (id : UInt32) : C (Int × AvShm) := do
  let m := { m with id := id }
  match ← call (.shmOpen (segmentName 32 id) .rdonly 0) with
  | .error e =>
    if e ≠ .EACCES then
      call (.log .error "shm_open() failed: %s" [.strerror e])
      return (-1, m)
    else return (-1, m)
  | .ok fd =>
    match ← call (.fstat fd) with
    | .error e =>
      call (.log .error "fstat() failed: %s" [.strerror e])
      avShmAttachFail fd m
    | .ok stSize =>
      if invalidSize h stSize then
        call (.log .error "Invalid shared memory segment size" [])
        avShmAttachFail fd m
      else
        let m := { m with size := stSize % h.sizeMod }
        match ← mmap (avPageAlign h m.size) false (some (fd, 0)) with
        | .error e =>
          call (.log .error "mmap() failed: %s" [.strerror e])
          avShmAttachFail fd { m with ptr := mapFailed h }
        | .ok ptr =>
          let m := { m with ptr := ptr, doUnlink := bitField 0, shared := bitField 1 }
          let r ← avClose fd
          avAssert r.isOk "av_close(fd) == 0" "av_shm_attach_ro"
          return (0, m)

/-- `av_shm_free`; the result is `*m` afterwards, zeroed. -/
def avShmFree (h : Host) (m : AvShm) : C AvShm := do
  avAssert (decide (m.ptr ≠ 0)) "m->ptr" "av_shm_free"
  avAssert (decide (m.size > 0)) "m->size > 0" "av_shm_free"
  avAssert (decide (m.ptr ≠ mapFailed h)) "m->ptr != MAP_FAILED" "av_shm_free"
  if m.shared = 0 then
    let r ← call (.munmap m.ptr m.size)
    logIfError r "munmap() failed: %s" []
    return {}
  else
    let r ← call (.munmap m.ptr (avPageAlign h m.size))
    logIfError r "munmap() failed: %s" []
    if m.doUnlink ≠ 0 then
      let fn := segmentName 32 m.id
      let r ← call (.shmUnlink fn)
      logIfError r " shm_unlink(%s) failed: %s" [.str fn]
      return {}
    else return {}

/-- The end of the loop of `av_shm_cleanup`: the owner is dead, so the segment is
    removed. -/
def avShmCleanupRemove (h : Host) (id : UInt32) (seg : AvShm) : C Unit := do
  let _ ← avShmFree h seg
  let fn := segmentName 128 id
  match ← call (.shmUnlink fn) with
  | .ok _ => return ()
  | .error e =>
    if e ≠ .EACCES ∧ e ≠ .ENOENT then
      call (.log .warn "Failed to remove SHM segment %s: %s\n" [.str fn, .strerror e])
    else return ()

/-- The body of the loop of `av_shm_cleanup` from the attach on; `return` is the C
    code's `continue`. -/
def avShmCleanupSeg (h : Host) (id : UInt32) (seg : AvShm) : C Unit := do
  if seg.size < shmMarkerSize h then
    let _ ← avShmFree h seg
    return ()
  else
    let marker ← call (.atomicLoad (markerAddr h seg.ptr seg.size))
    if marker ≠ shmMarker then
      let _ ← avShmFree h seg
      return ()
    else
      let pid ← call (.atomicLoad (markerAddr h seg.ptr seg.size + shmMarkerPid))
      if pid = 0 then
        let _ ← avShmFree h seg
        return ()
      else
        let r ← call (.kill pid)
        if r.isOk = true ∨ r ≠ .error .ESRCH then
          let _ ← avShmFree h seg
          return ()
        else
          avShmCleanupRemove h id seg

/-- The body of the loop of `av_shm_cleanup` for one directory entry. -/
def avShmCleanupEntry (h : Host) (name : CStr) : C Unit := do
  match entryId h name with
  | none => return ()
  | some id =>
    let (r, seg) ← avShmAttachRo h {} id
    if r < 0 then return ()
    else avShmCleanupSeg h id seg

/-- `av_shm_cleanup`. -/
def avShmCleanup (h : Host) : C Int := do
  match ← call (.opendir "/dev/shm/") with
  | .error e =>
    call (.log .warn "Failed to read /dev/shm/: %s" [.strerror e])
    return -1
  | .ok d =>
    Prog.iter (fun _ : Unit => do
      match ← call (.readdir d) with
      | none => return .inr ()
      | some name =>
        avShmCleanupEntry h name
        return .inl ()) ()
    let _ ← call (.closedir d)
    return 0

/-- The failure path of `av_shm_create_rw`. -/
def avShmCreateFail (fd : Int) (fn : CStr) (m : AvShm) : C (Int × AvShm) := do
  if 0 ≤ fd then
    let _ ← call (.shmUnlink fn)
    let _ ← avClose fd
    return (-1, m)
  else return (-1, m)

/-- The private branch of `av_shm_create_rw`; `size` is already rounded. -/
def avShmCreatePrivate (h : Host) (m : AvShm) (size : Nat) (shared : Int) : C (Int × AvShm) := do
  let m := { m with id := 0, size := size }
  match ← mmap m.size true none with
  | .error e =>
    call (.log .error "mmap() failed: %s" [.strerror e])
    avShmCreateFail (-1) [] { m with ptr := mapFailed h }
  | .ok ptr =>
    return (0, { m with ptr := ptr, doUnlink := bitField 0, shared := bitField shared })

/-- The end of the shared branch of `av_shm_create_rw`: the segment is mapped at `m->ptr`. -/
def avShmCreateMark (h : Host) (fd : Int) (m : AvShm) (shared : Int) : C (Int × AvShm) := do
  -- the pid goes in before the marker that says it is there
  let pid ← call .getpid
  call (.atomicStore (markerAddr h m.ptr m.size + shmMarkerPid) pid)
  call (.atomicStore (markerAddr h m.ptr m.size) shmMarker)
  let r ← avClose fd
  avAssert r.isOk "av_close(fd) == 0" "av_shm_create_rw"
  return (0, { m with doUnlink := bitField 1, shared := bitField shared })

/-- The shared branch of `av_shm_create_rw` once `fd` is open. -/
def avShmCreateFile (h : Host) (fd : Int) (fn : CStr) (m : AvShm) (shared : Int) :
    C (Int × AvShm) := do
  match ← call (.ftruncate fd m.size) with
  | .error e =>
    call (.log .error "ftruncate() failed: %s" [.strerror e])
    avShmCreateFail fd fn m
  | .ok _ =>
    match ← mmap (avPageAlign h m.size) true (some (fd, 0)) with
    | .error e =>
      call (.log .error "mmap() failed: %s" [.strerror e])
      avShmCreateFail fd fn { m with ptr := mapFailed h }
    | .ok ptr => avShmCreateMark h fd { m with ptr := ptr } shared

/-- The shared branch of `av_shm_create_rw`; `size` is already rounded, and `idp` is
    the address of `m->id`. -/
def avShmCreateShared (h : Host) (idp : Nat) (m : AvShm) (size : Nat) (shared : Int) (mode : Nat) :
    C (Int × AvShm) := do
  avRandom idp 4
  let id ← call (.load32 idp)
  let fn := segmentName 32 id
  match ← call (.shmOpen fn .rdwrCreatExcl (mode &&& 0o444)) with
  | .error e =>
    call (.log .error "shm_open() failed: %s" [.strerror e])
    avShmCreateFail (-1) fn { m with id := id }
  | .ok fd =>
    avShmCreateFile h fd fn { m with id := id, size := (size + shmMarkerSize h) % h.sizeMod } shared

/-- `av_shm_create_rw`; the results are the C result and `*m` afterwards. -/
def avShmCreateRw (h : Host) (idp : Nat) (m : AvShm) (size : Nat) (shared : Int) (mode : Nat) :
    C (Int × AvShm) := do
  avAssert (decide (size > 0)) "size > 0" "av_shm_create_rw"
  avAssert (decide (size ≤ maxShmSize h)) "size <= MAX_SHM_SIZE" "av_shm_create_rw"
  avAssert (decide (mode ≥ 0o600)) "mode >= 0600" "av_shm_create_rw"
  let _ ← avShmCleanup h
  let size := avPageAlign h size
  if shared = 0 then avShmCreatePrivate h m size shared
  else avShmCreateShared h idp m size shared mode

end AnekVideo
