/-
  AnekVideo.Server.Table

  What one call of the functions on the table of clients does to `struct av_server`.

  An access to `clients[i]` is possible for every `i`; the state records the
  indices, so that no operation has to be refused for leaving the array.  The
  macros on `fd_set` are defined below `FD_SETSIZE` only.
-/
import AnekVideo.Arith.BitSet
import AnekVideo.Server.Clients
import AnekVideo.Server.Grow

namespace AnekVideo
namespace Server

open Interact BitSet

/-! ## The state -/

/-- `struct av_server_client`, as far as it is used here; a null `msg` is `none`. -/
structure AvServerClient where
  fd : Int := 0
  msg : Option AvBuffer := none

/-- `struct av_server` and the heap.  `clients` goes on behind the array, where C leaves the
    structure; `touched` records the indices it was accessed with, the latest first.  The
    clients of `heap` are not used. -/
structure Table where
  heap : State
  fd : Int
  set : BitVec fdSetSize
  max : Int
  clients : Int → AvServerClient
  touched : List Int

namespace Table

/-- `av_server_new`. -/
def zeroed (heap : State) : Table where
  heap := heap
  fd := 0
  set := 0
  max := 0
  clients := fun _ => {}
  touched := []

/-- An access to `clients[i]` that leaves `c` there. -/
def setClient (t : Table) (i : Int) (c : AvServerClient) : Table :=
  { t with clients := Function.update t.clients i c, touched := i :: t.touched }

end Table

/-- Settles what is free: the choice of the allocator, and what `accept` returns. -/
structure Pick where
  ch : Choice := .null
  conn : Except Errno Nat := .error .EBADF

/-- A descriptor the macros on `fd_set` are defined for. -/
def InSet (fd : Int) : Prop := 0 ≤ fd ∧ fd < fdSetSize

instance (fd : Int) : Decidable (InSet fd) := inferInstanceAs (Decidable (_ ∧ _))

namespace Table

/-- One operation. -/
def exec (ev : Event) (pk : Pick) : (o : Tbl) → Table → Option (o.Resp × Table)
  | .srv o, t => (State.exec ev pk.ch o t.heap).map fun x => (x.1, { t with heap := x.2 })
  | .accept _, t => some (pk.conn, t)
  | .exit _, _ => none
  | .getFd, t => some (t.fd, t)
  | .fdSet fd, t => if InSet fd then some ((), { t with set := put t.set fd.toNat }) else none
  | .fdClr fd, t => if InSet fd then some ((), { t with set := clear t.set fd.toNat }) else none
  | .fdIsset fd, t => if InSet fd then some (has t.set fd.toNat, t) else none
  | .getMax, t => some (t.max, t)
  | .setMax m, t => some ((), { t with max := m })
  | .setClientFd i fd, t => some ((), t.setClient i { t.clients i with fd := fd })
  | .getClientMsg i, t => (t.clients i).msg.map fun b => (b, { t with touched := i :: t.touched })
  | .setClientMsg i b, t => some ((), t.setClient i { t.clients i with msg := some b })

/-- What the operations may do while `ev` happens. -/
def sem (ev : Event) : OpSem tbl Table := fun o t r t' => ∃ pk, exec ev pk o t = some (r, t')

variable {ev : Event} {stop : Tbl → Prop} {α : Type} {t t' : Table} {fd : Int}

/-- An operation that leaves nothing open, then the rest. -/
theorem tell_ends {o : Tbl} {f : o.Resp → T α} {Q : α → Table → Prop} {r : o.Resp}
    (he : ∀ pk, exec ev pk o t = some (r, t')) (h : Ends (sem ev) stop Q (f r) t') :
    Ends (sem ev) stop Q (tell o >>= f) t := Ends.op_det {} he h

/-! ## Removing -/

/-- `max` covers the set. -/
structure Covers (t : Table) : Prop where
  max : InSet t.max
  le : ∀ i, has t.set i = true → (i : Int) ≤ t.max

/-- What is left of `max` after the search: the largest member, if there is one. -/
def lowered (s : BitVec fdSetSize) (m : Int) : Int := if members s = ∅ then m else top s

/-- What `av_server_client_remove_by_fd` leaves. -/
def removed (t : Table) (fd : Int) : Table :=
  { t with
    set := clear t.set fd.toNat
    max := if fd = t.max then lowered (clear t.set fd.toNat) t.max else t.max }

@[simp] theorem removed_set : (t.removed fd).set = clear t.set fd.toNat := rfl

theorem removed_max : (t.removed fd).max =
    if fd = t.max then lowered (clear t.set fd.toNat) t.max else t.max := rfl

/-- When nobody is left, `max` is not lowered. -/
theorem removed_max_of_empty (h : members (t.removed fd).set = ∅) :
    (t.removed fd).max = t.max := by
  rw [removed_max, lowered, ← removed_set, if_pos h, ite_self]

/-- The search: no member is above `i`. -/
theorem search_ends {m i : Int} (hmax : t.max = m) (hm : InSet m) (hlo : -1 ≤ i) (hi : i < m)
    (hle : ∀ j, has t.set j = true → (j : Int) ≤ i) :
    Ends (sem ev) stop (fun _ t' => t' = { t with max := lowered t.set m })
      (Prog.iter lowerMax i) t := by
  refine Ends.iter (I := fun i t' => t' = t ∧ -1 ≤ i ∧ i < m ∧ ∀ j, has t.set j = true →
    (j : Int) ≤ i)
    (R := fun _ _ _ t' => t' = { t with max := lowered t.set m }) (fun i _ => (i + 1).toNat) ?_
    ⟨rfl, hlo, hi, hle⟩
  rintro i t' ⟨ht, hlo, hi, hle⟩
  subst t'
  unfold lowerMax
  by_cases hpos : 0 ≤ i
  · rw [if_pos hpos]
    have hin : InSet i := ⟨hpos, hi.trans hm.2⟩
    refine tell_ends (fun _ => if_pos hin) ?_
    cases hbit : has t.set i.toNat with
    | true =>
      rw [if_pos rfl]
      refine tell_ends (fun _ => rfl) (.pure ?_)
      -- the first member found from above is the largest
      have htop : top t.set = i.toNat := top_eq hbit fun j hj => by
        have := hle j hj
        omega
      have hne : members t.set ≠ ∅ := Finset.ne_empty_of_mem (mem_members.2 hbit)
      have hlow : lowered t.set m = i := by
        rw [lowered, if_neg hne, htop]
        omega
      show ({ t with max := i } : Table) = { t with max := lowered t.set m }
      rw [hlow]
    | false =>
      rw [if_neg Bool.false_ne_true]
      refine .pure ⟨⟨rfl, by omega, by omega, fun j hj => ?_⟩, by omega, fun _ _ h => h⟩
      have hji : (j : Int) ≠ i := by
        rintro rfl
        rw [Int.toNat_natCast, hj] at hbit
        cases hbit
      have := hle j hj
      omega
  · rw [if_neg hpos]
    have hempty : members t.set = ∅ := by
      refine Finset.eq_empty_of_forall_notMem fun j hj => ?_
      have := hle j (mem_members.1 hj)
      omega
    refine .pure ?_
    show t = { t with max := lowered t.set m }
    rw [lowered, if_pos hempty, ← hmax]

theorem avServerClientRemoveByFd_ends (ht : Covers t) (hfd : InSet fd) :
    Ends (sem ev) stop (fun _ t' => t' = t.removed fd) (avServerClientRemoveByFd fd) t := by
  refine tell_ends (fun _ => if_pos hfd) (tell_ends (fun _ => rfl) ?_)
  by_cases hmax : fd = t.max
  · rw [if_neg (not_not.2 hmax)]
    -- the members were at most `max`, which is gone
    have hle : ∀ j, has (clear t.set fd.toNat) j = true → (j : Int) ≤ t.max - 1 := by
      intro j hj
      rw [has_clear, Bool.and_eq_true, decide_eq_true_iff] at hj
      have hj1 := ht.le j hj.1
      have hne : (j : Int) ≠ t.max := by
        intro h
        apply hj.2
        rw [hmax, ← h]
        rfl
      omega
    have h0 := ht.max.1
    have hsame : ({ t with set := clear t.set fd.toNat } : Table).max = t.max := rfl
    refine tell_ends (fun _ => rfl) ((search_ends hsame ht.max (by omega) (by omega) hle).mono ?_)
    rintro _ _ rfl
    rw [removed, if_pos hmax]
  · rw [if_pos hmax]
    refine .pure ?_
    rw [removed, if_neg hmax]

/-! ## Adding -/

/-- What `av_server_client_add_by_fd` leaves; `k` is the heap with the new buffer. -/
def added (t : Table) (fd : Int) (k : State) : Table :=
  { t with
    heap := k
    set := put t.set fd.toNat
    max := Max.max t.max fd
    clients := Function.update t.clients fd { fd := fd, msg := some {} }
    touched := fd :: fd :: t.touched }

@[simp] theorem added_set {k : State} : (t.added fd k).set = put t.set fd.toNat := rfl
@[simp] theorem added_max {k : State} : (t.added fd k).max = Max.max t.max fd := rfl

/-- A program that asks for nothing of the table acts on the heap only. -/
theorem linked_ends {p : S α} {Q : α → State → Prop}
    (hp : p.Only Srv.Outside)
    (h : Ends (State.sem ev) (fun _ => True) Q p t.heap) :
    Ends (sem ev) (fun _ => True) (fun a t' => ∃ k, Q a k ∧ t' = { t with heap := k })
      (linked p) t := by
  refine Ends.link (R := fun k t' => t' = { t with heap := k }) h hp ?_ rfl
  rintro o k _ ho rfl -
  rw [answer_of_outside ho]
  refine Ends.last (E := tbl) (o := Tbl.srv o) (.inl trivial) fun r t' hs => ?_
  obtain ⟨pk, he⟩ := hs
  obtain ⟨⟨r', k'⟩, hk, he⟩ := Option.map_eq_some_iff.1 he
  cases he
  exact ⟨k', ⟨pk.ch, hk⟩, rfl⟩

theorem assert_only {b : Bool} {expr : String} : (assert b expr).Only Srv.Outside := by
  unfold assert
  split
  · trivial
  · exact ⟨Prog.only_op.2 trivial, fun _ => ⟨Prog.only_op.2 trivial, fun _ => trivial⟩⟩

theorem bufferInit_only : bufferInit.Only Srv.Outside :=
  ⟨Prog.only_op.2 trivial, fun _ => ⟨assert_only, fun _ => trivial⟩⟩

/-- The heap after `buffer_init`: nothing else has changed. -/
def Allocated (t : Table) (k : State) : Prop :=
  k.wild = t.heap.wild ∧ ∀ q, t.heap.blocks q ≠ none → k.blocks q = t.heap.blocks q

/-- The slot of a new client. -/
theorem fillClient_ends : Ends (sem ev) (fun _ => True)
    (fun _ t' => ∃ k, Allocated t k ∧ t' = { t with
      heap := k
      clients := Function.update t.clients fd { fd := fd, msg := some {} }
      touched := fd :: fd :: t.touched }) (fillClient fd) t := by
  refine tell_ends (fun _ => rfl) (.seq (linked_ends bufferInit_only bufferInit_ends) ?_)
  rintro b _ ⟨k, ⟨rfl, -, -, hwild, hblocks⟩, rfl⟩
  refine tell_ends (fun _ => rfl) (.pure ⟨k, ⟨hwild, hblocks⟩, ?_⟩)
  -- the two stores into the slot are one
  simp only [setClient, Function.update_idem, Function.update_self]

theorem avServerClientAddByFd_ends (hfd : InSet fd) :
    Ends (sem ev) (fun _ => True) (fun _ t' => ∃ k, Allocated t k ∧ t' = t.added fd k)
      (avServerClientAddByFd fd) t := by
  refine tell_ends (fun _ => if_pos hfd) (tell_ends (fun _ => rfl) ?_)
  by_cases hmax : t.max < fd
  · rw [if_pos hmax]
    refine tell_ends (fun _ => rfl) (fillClient_ends.mono ?_)
    rintro _ _ ⟨k, hk, rfl⟩
    refine ⟨k, hk, ?_⟩
    rw [added, max_eq_right hmax.le]
  · rw [if_neg hmax]
    refine fillClient_ends.mono ?_
    rintro _ _ ⟨k, hk, rfl⟩
    refine ⟨k, hk, ?_⟩
    rw [added, max_eq_left (not_lt.1 hmax)]

/-- The allocator can find a block for the buffer of a new client. -/
theorem exists_bufferInit (ev : Event) (t : Table) :
    ∃ k, Exec (sem ev) (linked bufferInit) t {} { t with heap := k } := by
  have hle : 16 ≤ ptrdiffMax := by decide
  obtain ⟨p, ch, hp, hmalloc⟩ := exists_malloc t.heap hle
  let k := t.heap.setBlock p (some (List.replicate 16 0))
  have hs : sem ev (.srv (.malloc 16)) t p { t with heap := k } := by
    refine ⟨{ ch := ch }, ?_⟩
    show (State.malloc ch 16 t.heap).map _ = _
    rw [hmalloc]
    rfl
  have hassert : assert (decide (p ≠ 0)) "b" = pure () := by
    unfold assert
    rw [if_pos (decide_eq_true hp)]
  refine ⟨k, .bind (.bind (.call rfl hs .pure) .pure) ?_⟩
  show Exec (sem ev)
    (linked (assert (decide (p ≠ 0)) "b" >>= fun _ => (pure {} : S AvBuffer))) _ _ _
  rw [hassert]
  exact .bind (a := ()) .pure .pure

/-- Every descriptor can be added. -/
theorem exists_added (ev : Event) (t : Table) (hfd : InSet fd) :
    ∃ k, Exec (sem ev) (avServerClientAddByFd fd) t none (t.added fd k) := by
  have hslot : ∀ t : Table, ∃ t', Exec (sem ev) (fillClient fd) t none t' := by
    intro t
    obtain ⟨k, hk⟩ := exists_bufferInit ev (t.setClient fd { t.clients fd with fd := fd })
    exact ⟨_, .op ⟨{}, rfl⟩ (.bind hk (.op ⟨{}, rfl⟩ .pure))⟩
  have hexec : ∃ t', Exec (sem ev) (avServerClientAddByFd fd) t none t' := by
    by_cases hmax : t.max < fd
    · obtain ⟨t', ht'⟩ := hslot { t with set := put t.set fd.toNat, max := fd }
      refine ⟨t', .op ⟨{}, if_pos hfd⟩ (.op ⟨{}, rfl⟩ ?_)⟩
      rw [if_pos hmax]
      exact .op ⟨{}, rfl⟩ ht'
    · obtain ⟨t', ht'⟩ := hslot { t with set := put t.set fd.toNat }
      refine ⟨t', .op ⟨{}, if_pos hfd⟩ (.op ⟨{}, rfl⟩ ?_)⟩
      rw [if_neg hmax]
      exact ht'
  obtain ⟨t', he⟩ := hexec
  obtain ⟨k, -, rfl⟩ := (avServerClientAddByFd_ends hfd).exec he
  exact ⟨k, he⟩

theorem exec_fdSet_undefined {pk : Pick} (hfd : ¬ InSet fd) : exec ev pk (.fdSet fd) t = none :=
  if_neg hfd

/-- `accept` brings a new descriptor, and then it is as if that descriptor were added. -/
theorem avServerClientAccept_ends : Ends (sem ev) (fun _ => True)
    (fun r t' => InSet r ∧ ∃ k, Allocated t k ∧ t' = t.added r k) avServerClientAccept t := by
  refine tell_ends (fun _ => rfl) (.op (.inl trivial) fun conn t₁ hs => ?_)
  obtain ⟨pk, he⟩ := hs
  cases he
  cases hconn : pk.conn with
  | error e =>
    refine .op (.inl trivial) fun _ _ _ => .op (.inl trivial) fun r _ _ => ?_
    exact r.elim
  | ok n =>
    by_cases hn : InSet n
    · refine .seq (avServerClientAddByFd_ends hn) ?_
      rintro _ _ ⟨k, hk, rfl⟩
      exact tell_ends (fun _ => rfl) (.pure ⟨hn, k, hk, rfl⟩)
    · -- the macros are not defined for such a descriptor
      refine .bind (.op (.inl trivial) fun r t' hs => ?_)
      obtain ⟨pk', he⟩ := hs
      rw [exec_fdSet_undefined hn] at he
      cases he

end Table
end Server
end AnekVideo
