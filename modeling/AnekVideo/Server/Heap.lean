/-
  AnekVideo.Server.Heap

  The heap and the clients' sockets as the server sees them.  A store outside of
  its block changes no block; the state records where it went, so that no
  operation has to be refused for it.

  What happens on a client's socket during one call is an `Event`: the bytes
  queued when `FIONREAD` asks, those that arrive until `recv`, and how many of
  them the kernel hands over.
-/
import AnekVideo.Interact.Total
import AnekVideo.Server.Code

namespace AnekVideo
namespace Server

open Interact

/-! ## The state -/

/-- The heap, the table of clients, and the stores that hit no block, the latest first. -/
structure State where
  blocks : Nat → Option (List UInt8)
  finite : ∃ n, ∀ p, n ≤ p → blocks p = none
  msgs : Int → AvBuffer
  connected : Int → Bool
  wild : List (Nat × Int)

namespace State

def setBlock (k : State) (p : Nat) (b : Option (List UInt8)) : State where
  blocks := Function.update k.blocks p b
  finite := by
    obtain ⟨n, hn⟩ := k.finite
    refine ⟨n + (p + 1), fun q hq => ?_⟩
    rw [Function.update_of_ne (by omega)]
    exact hn q (by omega)
  msgs := k.msgs
  connected := k.connected
  wild := k.wild

def setMsg (k : State) (fd : Int) (b : AvBuffer) : State :=
  { k with msgs := Function.update k.msgs fd b }

def remove (k : State) (fd : Int) : State :=
  { k with connected := Function.update k.connected fd false }

/-- A new client with its buffer. -/
def connect (k : State) (fd : Int) (b : AvBuffer) : State :=
  { k.setMsg fd b with connected := Function.update k.connected fd true }

/-- A store at position `i` of the block at `p`. -/
def store (k : State) (p : Nat) (i : Int) (b : UInt8) : State :=
  match k.blocks p with
  | some bytes =>
    if 0 ≤ i ∧ i < bytes.length then k.setBlock p (some (bytes.set i.toNat b))
    else { k with wild := (p, i) :: k.wild }
  | none => { k with wild := (p, i) :: k.wild }

/-- Stores from position `i` on. -/
def storeAll (k : State) (p : Nat) (i : Int) : List UInt8 → State
  | [] => k
  | b :: bs => (k.store p i b).storeAll p (i + 1) bs

end State

/-- What happens on the socket during one call: the bytes queued at `FIONREAD`, those that
    arrive before `recv`, how many the kernel hands over at most, and the failures. -/
structure Event where
  queued : List UInt8
  queued_lt : queued.length < 2 ^ 31
  more : List UInt8 := []
  part : Nat
  fionread : Option Errno := none
  recv : Option Errno := none

/-- The bytes a `recv` of `len` bytes delivers. -/
def Event.received (ev : Event) (len : Nat) : List UInt8 :=
  (ev.queued ++ ev.more).take (min len ev.part)

/-! ## The operations -/

/-- Settles what is free: whether and where the allocator finds a block and what is in it,
    and the byte a load outside of all blocks reads. -/
inductive Choice
  | null
  | block (p : Nat) (bytes : List UInt8)
  | byte (b : UInt8)

/-- `PTRDIFF_MAX`: the allocator refuses anything larger. -/
def ptrdiffMax : Nat := 2 ^ 63 - 1

namespace State

/-- `malloc`. -/
def malloc (ch : Choice) (n : Nat) (k : State) : Option (Nat × State) :=
  match ch with
  | .block p bytes =>
    if p ≠ 0 ∧ (k.blocks p).isNone = true ∧ bytes.length = n ∧ n ≤ ptrdiffMax then
      some (p, k.setBlock p (some bytes))
    else none
  | _ => some (0, k)

/-- `realloc`: the block grows where it is or moves, with its bytes as far as they fit. -/
def realloc (ch : Choice) (p n : Nat) (k : State) : Option (Nat × State) :=
  match ch, k.blocks p with
  | .block q bytes, some old =>
    if q ≠ 0 ∧ (q = p ∨ (k.blocks q).isNone = true) ∧ bytes.length = n ∧
      n ≤ ptrdiffMax ∧
        (old.take n).isPrefixOf bytes = true then
      some (q, (k.setBlock p none).setBlock q (some bytes))
    else none
  | .block _ _, none => none
  | _, _ => some (0, k)

/-- The byte at position `i` of the block at `p`. -/
def byteAt (k : State) (p : Nat) (i : Int) : Option UInt8 :=
  if 0 ≤ i then (k.blocks p).bind fun bytes => bytes[i.toNat]? else none

/-- One operation. -/
def exec (ev : Event) (ch : Choice) : (o : Srv) → State → Option (o.Resp × State)
  | .log _ _ _, k => some ((), k)
  | .perror _, k => some ((), k)
  | .abort, _ => none
  | .malloc n, k => malloc ch n k
  | .realloc p n, k => realloc ch p n k
  | .free p, k => some ((), if p = 0 then k else k.setBlock p none)
  | .load8 p i, k =>
    match k.byteAt p i, ch with
    | some b, _ => some (b, k)
    | none, .byte b => some (b, k)
    | none, _ => none
  | .store8 p i b, k => some ((), k.store p i b)
  | .fionread _, k => some (ev.fionread.elim (.ok ev.queued.length) .error, k)
  | .recv _ p i len, k =>
    match ev.recv with
    | some e => some (.error e, k)
    | none => some (.ok (ev.received len).length, k.storeAll p i (ev.received len))
  | .close _, k => some ((), k)
  | .getMsg fd, k => some (k.msgs fd, k)
  | .setMsg fd b, k => some ((), k.setMsg fd b)
  | .removeByFd fd, k => some ((), k.remove fd)
  | .deviceIoctl _, k => some ((), k)

/-- What the operations may do while `ev` happens. -/
def sem (ev : Event) : OpSem srv State := fun o k r k' => ∃ ch, exec ev ch o k = some (r, k')

/-- An operation that leaves nothing open, then the rest. -/
theorem ask_ends {ev : Event} {o : Srv} {α : Type} {f : o.Resp → S α}
    {Q : α → State → Prop} {k k' : State} {r : o.Resp}
    (h : ∀ ch, exec ev ch o k = some (r, k')) (hf : Ends (sem ev) (fun _ => True) Q (f r) k') :
    Ends (sem ev) (fun _ => True) Q (ask o >>= f) k := Ends.op_det .null h hf

/-! ## Stores -/

variable {k : State} {p : Nat} {i : Int} {b : UInt8} {bytes bs : List UInt8}

@[simp] theorem setBlock_blocks (p : Nat) (c : Option (List UInt8)) (q : Nat) :
    (k.setBlock p c).blocks q = if q = p then c else k.blocks q := Function.update_apply ..
@[simp] theorem setBlock_msgs (p : Nat) (c : Option (List UInt8)) :
    (k.setBlock p c).msgs = k.msgs := rfl
@[simp] theorem setBlock_connected (p : Nat) (c : Option (List UInt8)) :
    (k.setBlock p c).connected = k.connected := rfl
@[simp] theorem setBlock_wild (p : Nat) (c : Option (List UInt8)) :
    (k.setBlock p c).wild = k.wild := rfl
@[simp] theorem setMsg_blocks (fd : Int) (c : AvBuffer) : (k.setMsg fd c).blocks = k.blocks := rfl
@[simp] theorem setMsg_connected (fd : Int) (c : AvBuffer) :
    (k.setMsg fd c).connected = k.connected := rfl
@[simp] theorem setMsg_wild (fd : Int) (c : AvBuffer) : (k.setMsg fd c).wild = k.wild := rfl
@[simp] theorem setMsg_msgs (fd fd' : Int) (c : AvBuffer) :
    (k.setMsg fd c).msgs fd' = if fd' = fd then c else k.msgs fd' := Function.update_apply ..

/-- The stores keep the table of clients and the sizes of the blocks. -/
structure Stored (k k' : State) : Prop where
  msgs : k'.msgs = k.msgs
  connected : k'.connected = k.connected
  length : ∀ q, (k'.blocks q).map List.length = (k.blocks q).map List.length
  wild : k.wild <:+ k'.wild

theorem Stored.refl (k : State) : Stored k k := ⟨rfl, rfl, fun _ => rfl, List.suffix_rfl⟩

theorem Stored.trans {k₁ k₂ k₃ : State} (h : Stored k₁ k₂) (h' : Stored k₂ k₃) :
    Stored k₁ k₃ :=
  ⟨h'.msgs.trans h.msgs, h'.connected.trans h.connected,
    fun q => (h'.length q).trans (h.length q), h.wild.trans h'.wild⟩

theorem store_stored (k : State) (p : Nat) (i : Int) (b : UInt8) : Stored k (k.store p i b) := by
  unfold store
  split
  · rename_i bytes hp
    split
    · refine ⟨rfl, rfl, fun q => ?_, List.suffix_rfl⟩
      rw [setBlock_blocks]
      by_cases hq : q = p
      · subst hq
        simp [hp]
      · simp [hq]
    · exact ⟨rfl, rfl, fun _ => rfl, List.suffix_cons ..⟩
  · exact ⟨rfl, rfl, fun _ => rfl, List.suffix_cons ..⟩

theorem storeAll_stored (k : State) (p : Nat) (i : Int) (bs : List UInt8) :
    Stored k (k.storeAll p i bs) := by
  induction bs generalizing k i with
  | nil => exact .refl k
  | cons b bs ih => exact (store_stored k p i b).trans (ih _ _)

/-- A store inside of its block. -/
theorem store_inside (hp : k.blocks p = some bytes) (h0 : 0 ≤ i) (hi : i < bytes.length) :
    k.store p i b = k.setBlock p (some (bytes.set i.toNat b)) := by
  simp [store, hp, h0, hi]

/-- The first byte of a row, and then the rest. -/
theorem set_splice {n : Nat} (hn : n < bytes.length) :
    (bytes.set n b).take (n + 1) ++ bs ++ (bytes.set n b).drop (n + 1 + bs.length) =
      bytes.take n ++ b :: bs ++ bytes.drop (n + (b :: bs).length) := by
  have hlen : n + (b :: bs).length = n + 1 + bs.length := by simp; omega
  rw [List.take_add_one, List.take_set_of_le (Nat.le_refl n), List.getElem?_set_self hn,
    List.drop_set_of_lt (by omega), hlen]
  simp

/-- A row of stores inside of a block. -/
theorem storeAll_inside (hp : k.blocks p = some bytes) (h0 : 0 ≤ i)
    (hi : i + bs.length ≤ bytes.length) :
    (k.storeAll p i bs).wild = k.wild ∧ ∀ q, (k.storeAll p i bs).blocks q = if q = p
      then some (bytes.take i.toNat ++ bs ++ bytes.drop (i.toNat + bs.length)) else k.blocks q := by
  induction bs generalizing k i bytes with
  | nil =>
    refine ⟨rfl, fun q => ?_⟩
    by_cases hq : q = p
    · subst hq
      simp [storeAll, hp]
    · simp [storeAll, hq]
  | cons b bs ih =>
    rw [List.length_cons] at hi
    -- the first byte, then the rest at the next index
    have hstep : k.store p i b = k.setBlock p (some (bytes.set i.toNat b)) :=
      store_inside hp h0 (by omega)
    have hp' : (k.store p i b).blocks p = some (bytes.set i.toNat b) := by simp [hstep]
    have hrest := ih (i := i + 1) hp' (by omega) (by rw [List.length_set]; omega)
    obtain ⟨hwild, hblocks⟩ := hrest
    refine ⟨?_, fun q => ?_⟩
    · show ((k.store p i b).storeAll p (i + 1) bs).wild = k.wild
      rw [hwild, hstep, setBlock_wild]
    · show ((k.store p i b).storeAll p (i + 1) bs).blocks q = _
      rw [hblocks]
      by_cases hq : q = p
      · have hn : (i + 1).toNat = i.toNat + 1 := by omega
        rw [if_pos hq, if_pos hq, hn, set_splice (by omega)]
      · rw [if_neg hq, if_neg hq, hstep, setBlock_blocks, if_neg hq]

/-- A row of stores that leaves its block is recorded. -/
theorem storeAll_outside (hp : k.blocks p = some bytes) (h0 : 0 ≤ i) (hbs : bs ≠ [])
    (hi : bytes.length < i + bs.length) : (k.storeAll p i bs).wild ≠ k.wild := by
  induction bs generalizing k i bytes with
  | nil => exact absurd rfl hbs
  | cons b bs ih =>
    rw [List.length_cons] at hi
    have hsuffix := (storeAll_stored (k.store p i b) p (i + 1) bs).wild
    by_cases hin : i < bytes.length
    · have hstep : k.store p i b = k.setBlock p (some (bytes.set i.toNat b)) :=
        store_inside hp h0 hin
      have hp' : (k.store p i b).blocks p = some (bytes.set i.toNat b) := by simp [hstep]
      have hne : bs ≠ [] := by
        rintro rfl
        simp at hi
        omega
      have hrest := ih (i := i + 1) hp' (by omega) hne (by rw [List.length_set]; omega)
      rw [show (k.store p i b).wild = k.wild by rw [hstep]; rfl] at hrest
      exact hrest
    · have hstep : (k.store p i b).wild = (p, i) :: k.wild := by simp [store, hp, hin]
      rw [hstep] at hsuffix
      intro heq
      have hlen := hsuffix.length_le
      change ((k.store p i b).storeAll p (i + 1) bs).wild = k.wild at heq
      rw [heq, List.length_cons] at hlen
      omega

end State
end Server
end AnekVideo
