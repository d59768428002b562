/-
  AnekVideo.Server.Code

  src/buffer.c and the request handler of src/server.c, whose text is under
  `#if 0`; `buffer_grow` there is `av_buffer_grow`.

  `int` has 32 bits and `size_t` 64.  A conversion to `int` wraps; so does the
  sum of two `int`s here, which C leaves undefined.  A `struct av_buffer` is
  passed in and out as a value.
-/
import AnekVideo.Sys

namespace AnekVideo
namespace Server

open Interact

/-- `struct av_buffer`; `buf` is an address, 0 for a null pointer. -/
structure AvBuffer where
  buf : Nat := 0
  used : Int := 0
  size : Int := 0
  deriving DecidableEq, Repr

/-- What `buffer.c` and `server.c` ask of the outside.  A byte of memory is named by the
    block it belongs to and its position from the start of that block. -/
inductive Srv
  -- log and process
  | log (lvl : LogLevel) (fmt : String) (args : List LogArg)
  | perror (s : String)
  | abort
  -- the heap
  | malloc (n : Nat)
  | realloc (p n : Nat)
  | free (p : Nat)
  | load8 (p : Nat) (i : Int)
  | store8 (p : Nat) (i : Int) (b : UInt8)
  -- the sockets of the clients
  | fionread (fd : Int)
  | recv (fd : Int) (p : Nat) (i : Int) (len : Nat)
  | close (fd : Int)
  -- `srv->clients[fd].msg`, and `av_client_remove_by_fd`
  | getMsg (fd : Int)
  | setMsg (fd : Int) (b : AvBuffer)
  | removeByFd (fd : Int)
  -- the request a message stands for, on the client's device
  | deviceIoctl (p : Nat)
  deriving DecidableEq, Repr

@[reducible] def Srv.Resp : Srv → Type
  | .log _ _ _ => Unit
  | .perror _ => Unit
  | .abort => Empty
  | .malloc _ => Nat
  | .realloc _ _ => Nat
  | .free _ => Unit
  | .load8 _ _ => UInt8
  | .store8 _ _ _ => Unit
  | .fionread _ => Except Errno Int
  | .recv _ _ _ _ => Except Errno Nat
  | .close _ => Unit
  | .getMsg _ => AvBuffer
  | .setMsg _ _ => Unit
  | .removeByFd _ => Unit
  | .deviceIoctl _ => Unit

/-- The interface of the server's functions. -/
@[reducible] def srv : Iface := ⟨Srv, Srv.Resp⟩

/-- Functions of the server that return an `α`. -/
abbrev S (α : Type) := Prog srv α

/-- Issue one operation. -/
abbrev ask (o : Srv) : S o.Resp := Prog.op (E := srv) o

/-! ## Integers -/

/-- The conversion to `int`. -/
def toInt (x : Int) : Int := (x + 2 ^ 31) % 2 ^ 32 - 2 ^ 31

/-- The conversion to `size_t`. -/
def toSize (x : Int) : Nat := (x % 2 ^ 64).toNat

/-- `BUF_CHUNK`. -/
def bufChunk : Int := 1024

/-- `MAX_MSG_SIZE`. -/
def maxMsgSize : Int := 8192

/-- `assert`. -/
def assert (b : Bool) (expr : String) : S Unit :=
  if b then pure ()
  else do
    ask (.log .error "Assertion `%s' failed." [.text expr])
    let e ← ask .abort
    return e.elim

/-! ## src/buffer.c -/

/-- `buffer_init`; `sizeof(*b)` is 16. -/
def bufferInit : S AvBuffer := do
  let b ← ask (.malloc 16)
  assert (decide (b ≠ 0)) "b"
  return { buf := 0, size := 0, used := 0 }

/-- `b->size` after its two updates in `av_buffer_grow`: `+=` with a `size_t`, then with
    an `int`. -/
def grownSize (bsize : Int) (size : Nat) : Int :=
  let s := toInt ((toSize bsize + size : Nat) % 2 ^ 64)
  toInt (s + (bufChunk - s.tmod bufChunk))

/-- The allocation in `av_buffer_grow`. -/
def avBufferAlloc (b : AvBuffer) : S AvBuffer := do
  if b.buf = 0 then
    let p ← ask (.malloc (toSize b.size))
    return { b with buf := p, used := 0 }
  else
    let p ← ask (.realloc b.buf (toSize b.size))
    return { b with buf := p }

/-- `av_buffer_grow`; `none` is a null pointer. -/
def avBufferGrow (b : Option AvBuffer) (size : Nat) : S (Int × Option AvBuffer) := do
  match b with
  | none => return (-1, none)
  | some b =>
    if size < toSize b.size then return (0, some b)
    else
      let b ← avBufferAlloc { b with size := grownSize b.size size }
      ask (.log .debug "grew buffer %p to %d\n" [.pointer "b", .int b.size])
      assert (decide (b.buf ≠ 0)) "b->buf"
      return (0, some b)

/-! ## src/server.c -/

/-- The end of `av_server_client_handle_request`: the message is complete. -/
def avServerClientMessage (fd : Int) (buffer : AvBuffer) : S (Option Int) := do
  ask (.store8 buffer.buf buffer.used 0)
  let str ← ask (.malloc (toSize maxMsgSize))
  if str = 0 then ask (.perror "malloc")
  ask (.log .debug "IOCTL %d\n" [.ptr buffer.buf])
  ask (.deviceIoctl buffer.buf)
  ask (.setMsg fd { buffer with used := 0 })
  ask (.free str)
  return none

/-- The part of `av_server_client_handle_request` from `recv` on. -/
def avServerClientRecv (fd : Int) (buffer : AvBuffer) : S (Option Int) := do
  match ← ask (.recv fd buffer.buf buffer.used (toSize (maxMsgSize - buffer.used))) with
  | .error _ =>
    ask (.setMsg fd { buffer with used := buffer.used - 1 })
    ask (.perror "recv")
    ask (.removeByFd fd)
    ask (.close fd)
    return none
  | .ok n =>
    let buffer := { buffer with used := buffer.used + n }
    ask (.setMsg fd buffer)
    if n = 0 then
      ask (.removeByFd fd)
      ask (.close fd)
      return none
    else
      let c ← ask (.load8 buffer.buf (buffer.used - 1))
      if c ≠ 10 then return some 0
      else avServerClientMessage fd buffer

/-- `av_server_client_handle_request`; the result is `none` where the code returns no value. -/
def avServerClientHandleRequest (fd : Int) : S (Option Int) := do
  let buffer ← ask (.getMsg fd)
  match ← ask (.fionread fd) with
  | .error e =>
    ask (.log .debug "%i: FIONREAD\n" [.strerror e])
    return some (-1)
  | .ok toread =>
    if maxMsgSize ≤ toInt (buffer.used + toread) then
      ask (.log .debug "client sent %d bytes, too much data!\n" [.int (buffer.used + toread)])
      ask (.removeByFd fd)
      ask (.close fd)
      return some (-1)
    else
      let r ← avBufferGrow (some buffer) (toSize toread)
      match r.2 with
      | none => return none
      | some buffer =>
        ask (.setMsg fd buffer)
        avServerClientRecv fd buffer

end Server
end AnekVideo
