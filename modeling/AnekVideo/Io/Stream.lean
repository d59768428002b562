/-
  AnekVideo.Io.Stream

  Two parties at the ends of one reliable byte stream: thread 0 sends messages
  with `av_loop_write`, thread 1 reads with `av_loop_read`, asking for the same
  lengths.

  The kernel moves any number of bytes it likes at a time, within what is asked
  for, what is there and what the stream can hold, or fails with any `errno`;
  reporting zero bytes is the end of the stream.  For each party the state
  remembers which bytes each of its calls moved and what the call returned, and
  its memory at the start of its latest call; no operation reads these.
-/
import AnekVideo.Arith.Buffer
import AnekVideo.Interact.System
import AnekVideo.Util

namespace AnekVideo

open Interact Word

/-- One party: its memory, and the history of its calls. -/
structure Side where
  mem : Bytes
  calls : Nat
  chunk : Nat → List UInt8
  result : Nat → Option (Except Errno Nat)
  /-- The buffer of the latest call, and the memory at its start. -/
  buf : Nat
  before : Bytes

/-- The stream, on a socket or not, and its two ends. -/
structure Stream where
  cap : Nat
  socket : Bool
  queue : List UInt8
  writer : Side
  reader : Side

/-- What the kernel does with a request. -/
inductive Transfer
  | count (n : Nat)
  | fail (e : Errno)
  deriving DecidableEq, Repr

def Transfer.isFail : Transfer → Bool
  | .fail _ => true
  | .count _ => false

namespace Side

/-- A party that has made no call. -/
def fresh (mem : Bytes) : Side := ⟨mem, 0, fun _ => [], fun _ => none, 0, mem⟩

/-- A call starts, on a buffer at `buf`. -/
def start (s : Side) (buf : Nat) (mem : Bytes) : Side where
  mem := mem
  calls := s.calls + 1
  chunk := Function.update s.chunk s.calls []
  result := Function.update s.result s.calls none
  buf := buf
  before := mem

/-- The latest call moves `bs`. -/
def move (s : Side) (bs : List UInt8) : Side :=
  { s with chunk := Function.update s.chunk (s.calls - 1) (s.chunk (s.calls - 1) ++ bs) }

/-- The latest call returns `r`. -/
def finish (s : Side) (r : Except Errno Nat) : Side :=
  { s with result := Function.update s.result (s.calls - 1) (some r) }

/-- All bytes the calls moved, in order. -/
def total (s : Side) : List UInt8 := (List.range s.calls).flatMap s.chunk

end Side

/-! ## The system -/

/-- The calls of the two parties; `type` is what the caller passes on. -/
inductive IoCall
  | write (data : Nat) (msg : List UInt8) (type : Option Int)
  | read (data size : Nat)

/-- The messages a party has not sent, or asked for, yet. -/
structure IoSt where
  todo : List (List UInt8)

def IoCall.body (wfd rfd : Int) : IoCall → C (Except Errno Nat)
  | .write data msg type => do
    let (r, _) ← avLoopWrite wfd data msg.length type
    return r
  | .read data size => avLoopRead rfd data size

/-- The writer sends the next message from any buffer, the reader asks for the length of
    the next message. -/
def IoCall.enabled (t : Nat) (s : IoSt) : IoCall → Bool
  | .write _ msg _ => decide (t = 0 ∧ s.todo.head? = some msg)
  | .read _ size => decide (t = 1 ∧ s.todo.head?.map List.length = some size)

namespace Stream

/-- The kernel takes bytes from the writer's memory. -/
def push (ch : Transfer) (buf count : Nat) (k : Stream) : Option (Except Errno Nat × Stream) :=
  match ch with
  | .fail e => some (.error e, k)
  | .count n =>
    if n ≤ count ∧ k.queue.length + n ≤ k.cap then
      let bs := window k.writer.mem buf n
      some (.ok n, { k with queue := k.queue ++ bs, writer := k.writer.move bs })
    else none

/-- The kernel puts bytes into the reader's memory. -/
def pull (ch : Transfer) (buf count : Nat) (k : Stream) : Option (Except Errno Nat × Stream) :=
  match ch with
  | .fail e => some (.error e, k)
  | .count n =>
    if n ≤ count ∧ n ≤ k.queue.length then
      let bs := k.queue.take n
      some (.ok n, { k with
        queue := k.queue.drop n
        reader := { k.reader with mem := splice k.reader.mem buf bs }.move bs })
    else none

/-- One operation of one party.  `send` moves bytes only on a socket. -/
def exec (wfd rfd : Int) (ch : Transfer) (t : Nat) :
    (o : Sys) → Stream → Option (o.Resp × Stream)
  | .log _ _ _, k => some ((), k)
  | .send fd buf count, k =>
    if t = 0 ∧ fd = wfd ∧ (k.socket || ch.isFail) = true then push ch buf count k else none
  | .write fd buf count, k => if t = 0 ∧ fd = wfd then push ch buf count k else none
  | .read fd buf count, k => if t = 1 ∧ fd = rfd then pull ch buf count k else none
  | _, _ => none

/-- A call starts; the writer has its message in the buffer. -/
def enter (t : Nat) (c : IoCall) (k : Stream) : Stream :=
  match t, c with
  | 0, .write data msg _ => { k with writer := k.writer.start data (splice k.writer.mem data msg) }
  | 1, .read data _ => { k with reader := k.reader.start data k.reader.mem }
  | _, _ => k

def leave (t : Nat) (r : Except Errno Nat) (k : Stream) : Stream :=
  match t with
  | 0 => { k with writer := k.writer.finish r }
  | 1 => { k with reader := k.reader.finish r }
  | _ => k

end Stream

/-- A writer on `wfd` and a reader on `rfd`. -/
def streamSystem (wfd rfd : Int) : System sys Stream where
  Choice := Transfer
  Call := IoCall
  Ret := Except Errno Nat
  St := IoSt
  Birth := Empty
  exec := Stream.exec wfd rfd
  body := IoCall.body wfd rfd
  enabled := IoCall.enabled
  enter := Stream.enter
  leave := fun t _ => Stream.leave t
  after := fun _ s _ _ => ⟨s.todo.tail⟩
  die := fun _ k => k
  spawn := fun b => b.elim

/-- An empty stream, and the messages `msgs` to send and to read. -/
def streamStart (wfd rfd : Int) (cap : Nat) (socket : Bool) (wmem rmem : Bytes)
    (msgs : List (List UInt8)) : (streamSystem wfd rfd).Config where
  k := ⟨cap, socket, [], .fresh wmem, .fresh rmem⟩
  th := fun t => if t < 2 then .idle (⟨msgs⟩ : IoSt) else .none

/-! ## The history of a party -/

namespace Side

variable {s : Side} {bs : List UInt8} {r : Except Errno Nat} {j : Nat}

@[simp] theorem start_calls (buf : Nat) (mem : Bytes) : (s.start buf mem).calls = s.calls + 1 := rfl
@[simp] theorem move_calls : (s.move bs).calls = s.calls := rfl
@[simp] theorem move_mem : (s.move bs).mem = s.mem := rfl
@[simp] theorem move_result : (s.move bs).result = s.result := rfl
@[simp] theorem finish_calls : (s.finish r).calls = s.calls := rfl
@[simp] theorem finish_chunk : (s.finish r).chunk = s.chunk := rfl
@[simp] theorem finish_mem : (s.finish r).mem = s.mem := rfl

theorem start_chunk (buf : Nat) (mem : Bytes) :
    (s.start buf mem).chunk j = if j = s.calls then [] else s.chunk j := Function.update_apply ..

theorem start_result (buf : Nat) (mem : Bytes) :
    (s.start buf mem).result j = if j = s.calls then none else s.result j :=
      Function.update_apply ..

theorem move_chunk : (s.move bs).chunk j =
    if j = s.calls - 1 then s.chunk (s.calls - 1) ++ bs else s.chunk j := Function.update_apply ..

theorem finish_result : (s.finish r).result j = if j = s.calls - 1 then some r else s.result j :=
  Function.update_apply ..

theorem total_start (buf : Nat) (mem : Bytes) : (s.start buf mem).total = s.total := by
  unfold total
  rw [start_calls, List.range_succ, List.flatMap_append, List.flatMap_singleton, start_chunk,
    if_pos rfl, List.append_nil]
  refine List.flatMap_congr fun j hj => ?_
  rw [start_chunk, if_neg (List.mem_range.1 hj).ne]

/-- A moved byte comes after all others. -/
theorem total_move (hs : 0 < s.calls) : (s.move bs).total = s.total ++ bs := by
  obtain ⟨n, hn⟩ : ∃ n, s.calls = n + 1 := ⟨s.calls - 1, by omega⟩
  have hlast : s.calls - 1 = n := by omega
  unfold total
  rw [move_calls, hn, List.range_succ, List.flatMap_append, List.flatMap_append,
    List.flatMap_singleton, List.flatMap_singleton, move_chunk, hlast, if_pos rfl,
      List.append_assoc]
  congr 1
  refine List.flatMap_congr fun j hj => ?_
  rw [move_chunk, hlast, if_neg (List.mem_range.1 hj).ne]

@[simp] theorem total_finish : (s.finish r).total = s.total := rfl

end Side
end AnekVideo
