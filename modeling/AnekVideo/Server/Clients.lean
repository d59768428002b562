/-
  AnekVideo.Server.Clients

  The table of clients of src/server.c: `av_server_client_add_by_fd`,
  `av_server_client_remove_by_fd` and `av_server_client_accept`, whose text is
  under `#if 0`.

  `buffer_init` and the request handler are the programs of `Server.Code`; linked
  against the functions here, what they ask for the table is answered by it.
-/
import AnekVideo.Interact.Link
import AnekVideo.Server.Code

namespace AnekVideo
namespace Server

open Interact

/-- `AV_MAX_CLIENTS`. -/
def avMaxClients : Nat := 32

/-- `FD_SETSIZE`. -/
def fdSetSize : Nat := 1024

/-- What these functions ask of the outside. -/
inductive Tbl
  -- the heap, the log and the sockets of the clients
  | srv (o : Srv)
  -- the socket the server listens on
  | accept (fd : Int)
  | exit (status : Int)
  -- `srv->fd`, `srv->set` and `srv->max`
  | getFd
  | fdSet (fd : Int)
  | fdClr (fd : Int)
  | fdIsset (fd : Int)
  | getMax
  | setMax (m : Int)
  -- `srv->clients[i]`
  | setClientFd (i fd : Int)
  | getClientMsg (i : Int)
  | setClientMsg (i : Int) (b : AvBuffer)
  deriving DecidableEq, Repr

@[reducible] def Tbl.Resp : Tbl → Type
  | .srv o => o.Resp
  | .accept _ => Except Errno Nat
  | .exit _ => Empty
  | .getFd => Int
  | .fdSet _ => Unit
  | .fdClr _ => Unit
  | .fdIsset _ => Bool
  | .getMax => Int
  | .setMax _ => Unit
  | .setClientFd _ _ => Unit
  | .getClientMsg _ => AvBuffer
  | .setClientMsg _ _ => Unit

/-- The interface of the functions on `struct av_server`. -/
@[reducible] def tbl : Iface := ⟨Tbl, Tbl.Resp⟩

/-- Functions on `struct av_server` that return an `α`. -/
abbrev T (α : Type) := Prog tbl α

/-- Issue one operation. -/
abbrev tell (o : Tbl) : T o.Resp := Prog.op (E := tbl) o

/-! ## src/server.c -/

/-- The body of the loop in `av_server_client_remove_by_fd`, which goes down from `i`. -/
def lowerMax (i : Int) : T (Int ⊕ Unit) := do
  if i ≥ 0 then
    let isset ← tell (.fdIsset i)
    if isset then
      tell (.setMax i)
      return .inr ()
    else return .inl (i - 1)
  else return .inr ()

/-- `av_server_client_remove_by_fd`. -/
def avServerClientRemoveByFd (fd : Int) : T Unit := do
  tell (.fdClr fd)
  let max ← tell .getMax
  if fd ≠ max then return ()
  else
    let max ← tell .getMax
    Prog.iter lowerMax (max - 1)

/-- What the programs of `Server.Code` ask for, as the server answers it.  The handler leaves
    the removal to `av_client_remove_by_fd` and `client_remove`, which no file defines; the
    function above is the only one there is. -/
def answer : (o : Srv) → T o.Resp
  | .getMsg fd => tell (.getClientMsg fd)
  | .setMsg fd b => tell (.setClientMsg fd b)
  | .removeByFd fd => avServerClientRemoveByFd fd
  | o => tell (.srv o)

/-- An operation that is not about the table of clients. -/
def Srv.Outside : Srv → Prop
  | .getMsg _ => False
  | .setMsg _ _ => False
  | .removeByFd _ => False
  | _ => True

theorem answer_of_outside {o : Srv} (h : o.Outside) : answer o = tell (.srv o) := by
  cases o with
  | getMsg fd => exact h.elim
  | setMsg fd b => exact h.elim
  | removeByFd fd => exact h.elim
  | _ => rfl

/-- A program of `Server.Code` as part of the server. -/
abbrev linked {α : Type} (p : S α) : T α := p.link answer

/-- The end of `av_server_client_add_by_fd`, which fills the slot of the client; the `i` it
    returns was never assigned. -/
def fillClient (fd : Int) : T (Option Int) := do
  tell (.setClientFd fd fd)
  let msg ← linked bufferInit
  tell (.setClientMsg fd msg)
  return none

/-- `av_server_client_add_by_fd`. -/
def avServerClientAddByFd (fd : Int) : T (Option Int) := do
  tell (.fdSet fd)
  let max ← tell .getMax
  if fd > max then tell (.setMax fd)
  fillClient fd

/-- `av_server_client_accept`. -/
def avServerClientAccept : T Int := do
  let s ← tell .getFd
  match ← tell (.accept s) with
  | .error _ =>
    tell (.srv (.perror "accept"))
    let e ← tell (.exit 1)
    return e.elim
  | .ok ret =>
    let _ ← avServerClientAddByFd ret
    tell (.srv (.log .debug "Connected client %i.\n" [.int ret]))
    return ret

end Server
end AnekVideo
