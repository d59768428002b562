/-
  AnekVideo.Server.Serving

  The request handler on the table of clients.

  `Server.Request` is about a server that knows of each client its buffer and
  whether it is connected.  Here that is a view of `struct av_server`: the set is
  who is connected, the slots hold the buffers.  The handler, linked against the
  functions of the table, does on the table what it does on the view, so that the
  results about its buffers hold in runs of the whole server.
-/
import AnekVideo.Server.Request
import AnekVideo.Server.Joins

namespace AnekVideo
namespace Server

open Interact BitSet

/-! ## The clients of a heap -/

/-- The same heap with other clients. -/
def State.withClients (k : State) (m : Int → AvBuffer) (c : Int → Bool) : State :=
  { k with msgs := m, connected := c }

variable {k : State} {m : Int → AvBuffer} {c : Int → Bool} {ev : Event} {ch : Choice}

theorem store_withClients {p : Nat} {i : Int} {b : UInt8} :
    (k.withClients m c).store p i b = (k.store p i b).withClients m c := by
  unfold State.store
  dsimp only [State.withClients]
  split
  · split
    · rfl
    · rfl
  · rfl

theorem storeAll_withClients {p : Nat} {i : Int} {bs : List UInt8} :
    (k.withClients m c).storeAll p i bs = (k.storeAll p i bs).withClients m c := by
  induction bs generalizing k i with
  | nil => rfl
  | cons b bs ih =>
    show ((k.withClients m c).store p i b).storeAll p (i + 1) bs = _
    rw [store_withClients, ih]
    rfl

theorem malloc_withClients {n : Nat} : State.malloc ch n (k.withClients m c) =
    (State.malloc ch n k).map fun x => (x.1, x.2.withClients m c) := by
  unfold State.malloc
  cases ch with
  | block p bytes =>
    dsimp only
    rw [apply_ite (Option.map _)]
    rfl
  | null => rfl
  | byte b => rfl

theorem realloc_withClients {p n : Nat} : State.realloc ch p n (k.withClients m c) =
    (State.realloc ch p n k).map fun x => (x.1, x.2.withClients m c) := by
  have hblocks : (k.withClients m c).blocks p = k.blocks p := rfl
  unfold State.realloc
  rw [hblocks]
  cases ch with
  | block q bytes =>
    cases k.blocks p with
    | some old =>
      dsimp only
      rw [apply_ite (Option.map _)]
      rfl
    | none => rfl
  | null => rfl
  | byte b => rfl

/-- What is not about the clients does not depend on them. -/
theorem exec_withClients {o : Srv} (ho : o.Outside) :
    State.exec ev ch o (k.withClients m c) =
      (State.exec ev ch o k).map fun x => (x.1, x.2.withClients m c) := by
  cases o with
  | getMsg fd => exact ho.elim
  | setMsg fd b => exact ho.elim
  | removeByFd fd => exact ho.elim
  | log lvl fmt args => rfl
  | perror s => rfl
  | abort => rfl
  | malloc n => exact malloc_withClients
  | realloc p n => exact realloc_withClients
  | free p =>
    simp only [State.exec, Option.map_some]
    split_ifs
    · rfl
    · rfl
  | load8 p i =>
    have hbyte : (k.withClients m c).byteAt p i = k.byteAt p i := rfl
    simp only [State.exec, hbyte]
    cases k.byteAt p i with
    | some b => rfl
    | none =>
      cases ch with
      | block q bytes => rfl
      | null => rfl
      | byte b => rfl
  | store8 p i b => exact congrArg (fun x => some ((), x)) store_withClients
  | fionread fd => rfl
  | recv fd p i len =>
    simp only [State.exec]
    cases ev.recv with
    | some e => rfl
    | none => exact congrArg (fun x => some (_, x)) storeAll_withClients
  | close fd => rfl
  | deviceIoctl p => rfl

namespace Table

/-! ## The view -/

/-- The buffer in a slot. -/
def buffer (c : AvServerClient) : AvBuffer := c.msg.getD {}

/-- The descriptor is in the set. -/
def isset (s : BitVec fdSetSize) (fd : Int) : Bool := decide (0 ≤ fd) && has s fd.toNat

/-- Who is connected, and the buffers. -/
def view (t : Table) : State := t.heap.withClients (buffer ∘ t.clients) (isset t.set)

/-- `max` covers the set, and every member has a buffer in its slot. -/
structure Sound (t : Table) : Prop where
  covers : Covers t
  bufs : ∀ n : Nat, has t.set n = true → (t.clients n).msg ≠ none

variable {t t' : Table} {fd : Int} {stop : Tbl → Prop} {α : Type} {b : AvBuffer}

@[simp] theorem isset_natCast {s : BitVec fdSetSize} {n : Nat} : isset s n = has s n := by
  rw [isset, decide_eq_true (Int.natCast_nonneg n), Bool.true_and, Int.toNat_natCast]

/-- A set that differs in one descriptor. -/
theorem isset_update {s s' : BitVec fdSetSize} {v : Bool} (hfd : 0 ≤ fd)
    (hs : ∀ j, has s' j = if j = fd.toNat then v else has s j) :
    isset s' = Function.update (isset s) fd v := by
  funext f
  rw [Function.update_apply]
  unfold isset
  rw [hs]
  by_cases hf : f = fd
  · subst hf
    rw [if_pos rfl, if_pos rfl, decide_eq_true hfd, Bool.true_and]
  · rw [if_neg hf]
    by_cases h0 : 0 ≤ f
    · have hne : f.toNat ≠ fd.toNat := by omega
      rw [if_neg hne]
    · rw [decide_eq_false h0, Bool.false_and, Bool.false_and]

theorem view_removed (hfd : 0 ≤ fd) : (t.removed fd).view = t.view.remove fd := by
  have hconn : isset (clear t.set fd.toNat) = Function.update (isset t.set) fd false := by
    refine isset_update hfd fun j => ?_
    rw [has_clear]
    by_cases hj : j = fd.toNat <;> simp [hj]
  show t.heap.withClients (buffer ∘ t.clients) (isset (clear t.set fd.toNat)) = _
  rw [hconn]
  rfl

theorem view_setMsg :
    (t.setClient fd { t.clients fd with msg := some b }).view = t.view.setMsg fd b := by
  show t.heap.withClients (buffer ∘ Function.update t.clients fd
    { t.clients fd with msg := some b }) (isset t.set) = _
  rw [Function.comp_update]
  rfl

/-- A new client of the table is one of the view, with an empty buffer. -/
theorem view_added (hfd : InSet fd) :
    (t.added fd k).view = (k.withClients t.view.msgs t.view.connected).connect fd {} := by
  have hlt : fd.toNat < fdSetSize := by
    have hlt := hfd.2
    have hpos := hfd.1
    omega
  have hconn : isset (put t.set fd.toNat) = Function.update (isset t.set) fd true := by
    refine isset_update hfd.1 fun j => ?_
    rw [has_put hlt]
    by_cases hj : j = fd.toNat <;> simp [hj]
  show k.withClients (buffer ∘ Function.update t.clients fd { fd := fd, msg := some {} })
    (isset (put t.set fd.toNat)) = _
  rw [Function.comp_update, hconn]
  rfl

/-! ## Linked programs -/

/-- The operation is about the client `fd`, or about none. -/
def For (fd : Int) : Srv → Prop
  | .getMsg f => f = fd
  | .setMsg f _ => f = fd
  | .removeByFd f => f = fd
  | _ => True

/-- The table while a program for the client `fd` runs, and what it is for that program. -/
structure Sees (fd : Int) (k : State) (t : Table) : Prop where
  view : k = t.view
  sound : Sound t
  buf : (t.clients fd).msg ≠ none

theorem Sees.heap {k' : State} (h : Sees fd k t) :
    Sees fd (k'.withClients k.msgs k.connected) { t with heap := k' } :=
  ⟨by rw [h.view]; rfl, ⟨⟨h.sound.covers.max, h.sound.covers.le⟩, h.sound.bufs⟩, h.buf⟩

theorem Sees.setMsg (h : Sees fd k t) :
    Sees fd (k.setMsg fd b) (t.setClient fd { t.clients fd with msg := some b }) := by
  have hself : ((t.setClient fd { t.clients fd with msg := some b }).clients fd).msg ≠ none := by
    show (Function.update t.clients fd _ fd).msg ≠ none
    rw [Function.update_self]
    exact Option.some_ne_none b
  refine ⟨by rw [view_setMsg, h.view],
    ⟨⟨h.sound.covers.max, h.sound.covers.le⟩, fun n hn => ?_⟩, hself⟩
  by_cases hnf : (n : Int) = fd
  · rw [hnf]
    exact hself
  · show (Function.update t.clients fd _ n).msg ≠ none
    rw [Function.update_of_ne hnf]
    exact h.sound.bufs n hn

theorem Sees.remove (h : Sees fd k t) (hfd : InSet fd) : Sees fd (k.remove fd) (t.removed fd) := by
  refine ⟨by rw [view_removed hfd.1, h.view], ⟨h.sound.covers.removed, fun n hn => ?_⟩, h.buf⟩
  change has (clear t.set fd.toNat) n = true at hn
  rw [has_clear, Bool.and_eq_true] at hn
  exact h.sound.bufs n hn.1

/-- Each operation is answered on the table as it is on the view. -/
theorem answer_simulates {o : Srv} (ho : For fd o) (hfd : InSet fd) (h : Sees fd k t) :
    Ends (sem ev) (fun _ => True) (fun r t' => ∃ k', State.sem ev o k r k' ∧ Sees fd k' t')
      (answer o) t := by
  by_cases hout : o.Outside
  · rw [answer_of_outside hout]
    -- on the heap, whose own clients are not looked at
    refine Ends.last (E := tbl) (o := Tbl.srv o) (.inl trivial) fun r t' hs => ?_
    obtain ⟨pk, he⟩ := hs
    obtain ⟨⟨r', k'⟩, hk, he⟩ := Option.map_eq_some_iff.1 he
    cases he
    refine ⟨k'.withClients k.msgs k.connected, ⟨pk.ch, ?_⟩, h.heap⟩
    rw [h.view]
    show State.exec ev pk.ch o (t.heap.withClients (buffer ∘ t.clients) (isset t.set)) = _
    rw [exec_withClients hout, hk]
    rfl
  · cases o with
    | getMsg f =>
      obtain rfl : f = fd := ho
      refine Ends.last (E := tbl) (o := Tbl.getClientMsg f) (.inl trivial) fun b t' hs => ?_
      obtain ⟨pk, he⟩ := hs
      obtain ⟨b', hb, he⟩ := Option.map_eq_some_iff.1 he
      cases he
      refine ⟨k, ⟨.null, ?_⟩,
        ⟨h.view, ⟨⟨h.sound.covers.max, h.sound.covers.le⟩, h.sound.bufs⟩, h.buf⟩⟩
      rw [h.view]
      show some ((t.clients f).msg.getD {}, t.view) = some (b, t.view)
      rw [hb]
      rfl
    | setMsg f b =>
      obtain rfl : f = fd := ho
      refine Ends.last (E := tbl) (o := Tbl.setClientMsg f b) (.inl trivial) fun _ t' hs => ?_
      obtain ⟨pk, he⟩ := hs
      cases he
      exact ⟨k.setMsg f b, ⟨.null, rfl⟩, h.setMsg⟩
    | removeByFd f =>
      obtain rfl : f = fd := ho
      -- the loop of the table is one step of the view
      refine (avServerClientRemoveByFd_ends h.sound.covers hfd).mono ?_
      rintro _ _ rfl
      exact ⟨k.remove f, ⟨.null, rfl⟩, h.remove hfd⟩
    | _ => exact absurd trivial hout

/-- What a program for one client does on the view, it does on the table. -/
theorem linked_simulates {p : S α} {Q : α → State → Prop} (hp : p.Only (For fd))
    (hfd : InSet fd) (ht : Sound t) (hbuf : (t.clients fd).msg ≠ none)
    (h : Ends (State.sem ev) (fun _ => True) Q p t.view) :
    Ends (sem ev) (fun _ => True) (fun a t' => Q a t'.view ∧ Sound t') (linked p) t := by
  have hop : ∀ o k t, For fd o → Sees fd k t → (True ∨ ∃ r k', State.sem ev o k r k') →
      Ends (sem ev) (fun _ => True) (fun r t' => ∃ k', State.sem ev o k r k' ∧ Sees fd k' t')
        (answer o) t := fun o k t ho hR _ => answer_simulates ho hfd hR
  refine (Ends.link h hp hop ⟨rfl, ht, hbuf⟩).mono fun a t' ha => ?_
  obtain ⟨k', hQ, hview, hsound, -⟩ := ha
  exact ⟨hview ▸ hQ, hsound⟩

/-! ## The handler -/

theorem ask_only {ok : Srv → Prop} {o : Srv} {f : o.Resp → S α} (ho : ok o)
    (hf : ∀ r, (f r).Only ok) : (ask o >>= f).Only ok := ⟨Prog.only_op.2 ho, hf⟩

theorem For.of_outside {o : Srv} (ho : o.Outside) : For fd o := by
  cases o with
  | getMsg f => exact ho.elim
  | setMsg f b => exact ho.elim
  | removeByFd f => exact ho.elim
  | _ => trivial

theorem avBufferAlloc_only : (avBufferAlloc b).Only (For fd) := by
  unfold avBufferAlloc
  split
  · exact ask_only trivial fun _ => trivial
  · exact ask_only trivial fun _ => trivial

theorem avBufferGrow_only {b : Option AvBuffer} {n : Nat} : (avBufferGrow b n).Only (For fd) := by
  unfold avBufferGrow
  cases b with
  | none => trivial
  | some b =>
    dsimp only
    split
    · trivial
    · refine ⟨avBufferAlloc_only, fun b' => ask_only trivial fun _ => ⟨?_, fun _ => trivial⟩⟩
      exact assert_only.mono fun _ => For.of_outside

theorem avServerClientMessage_only : (avServerClientMessage fd b).Only (For fd) := by
  refine ask_only trivial fun _ => ask_only trivial fun str => ?_
  dsimp only
  split
  · exact ask_only trivial fun _ => ask_only trivial fun _ => ask_only trivial fun _ =>
      ask_only rfl fun _ => ask_only trivial fun _ => trivial
  · exact ask_only trivial fun _ => ask_only trivial fun _ => ask_only rfl fun _ =>
      ask_only trivial fun _ => trivial

theorem avServerClientRecv_only : (avServerClientRecv fd b).Only (For fd) := by
  refine ask_only trivial fun r => ?_
  cases r with
  | error e =>
    exact ask_only rfl fun _ => ask_only trivial fun _ => ask_only rfl fun _ =>
      ask_only trivial fun _ => trivial
  | ok n =>
    refine ask_only rfl fun _ => ?_
    dsimp only
    split
    · exact ask_only rfl fun _ => ask_only trivial fun _ => trivial
    · refine ask_only trivial fun c => ?_
      split
      · trivial
      · exact avServerClientMessage_only

/-- The handler asks for nothing of the other clients. -/
theorem avServerClientHandleRequest_only : (avServerClientHandleRequest fd).Only (For fd) := by
  refine ask_only rfl fun b => ask_only trivial fun r => ?_
  cases r with
  | error e => exact ask_only trivial fun _ => trivial
  | ok toread =>
    dsimp only
    split
    · exact ask_only trivial fun _ => ask_only rfl fun _ => ask_only trivial fun _ => trivial
    · refine ⟨avBufferGrow_only, fun r => ?_⟩
      dsimp only
      split
      · trivial
      · exact ask_only rfl fun _ => avServerClientRecv_only

/-! ## Runs of the server -/

/-- Clients are accepted, and their readable events are handled, each of them such that `room`
    admits it. -/
inductive Serving (room : AvBuffer → Event → Prop) : Table → Prop
  | start {heap : State} : heap.wild = [] → Serving room (zeroed heap)
  | accept {ev : Event} {t t' : Table} {r : Int} :
      Serving room t → isset t.set r = false → Exec (sem ev) avServerClientAccept t r t' →
      Serving room t'
  | request {ev : Event} {t t' : Table} {n : Nat} {r : Option Int} :
      Serving room t → has t.set n = true → room (t.view.msgs n) ev →
      Exec (sem ev) (linked (avServerClientHandleRequest n)) t r t' → Serving room t'

theorem Sound.zeroed (heap : State) : Sound (zeroed heap) := by
  refine ⟨.zeroed heap, fun n hn => ?_⟩
  change has (0 : BitVec fdSetSize) n = true at hn
  simp [has] at hn

theorem Sound.added (ht : Sound t) {n : Nat} (hn : n < fdSetSize) : Sound (t.added n k) := by
  refine ⟨ht.covers.added hn, fun j hj => ?_⟩
  show (Function.update t.clients n _ j).msg ≠ none
  by_cases hjn : j = n
  · rw [hjn, Function.update_self]
    exact Option.some_ne_none _
  · change has (put t.set n) j = true at hj
    rw [has_put hn, Bool.or_eq_true, decide_eq_true_iff] at hj
    rw [Function.update_of_ne fun h => hjn (Int.ofNat_inj.1 h)]
    exact ht.bufs j (hj.resolve_right hjn)

/-- The handler on the table. -/
theorem request_ends {n : Nat} (ht : Sound t) (hok : ServerOk t.view) (hn : has t.set n = true)
    (hroom : Room (t.view.msgs n) ev) : Ends (sem ev) (fun _ => True)
      (fun _ t' => Sound t' ∧ Inside t.view n ev t'.view ∧ Handled t.view n t'.view)
      (linked (avServerClientHandleRequest n)) t := by
  have hconn : t.view.connected n = true := isset_natCast.trans hn
  have hends := avServerClientHandleRequest_ends (hok.bufs n hconn) hroom
  refine (linked_simulates avServerClientHandleRequest_only (inSet_of_lt (lt_of_has hn)) ht
    (ht.bufs n hn) hends).mono fun r t' hr => ?_
  exact ⟨hr.2, hr.1⟩

/-- What holds of the view of every state the server reaches. -/
theorem Serving.sound (h : Serving Room t) : Sound t ∧ ServerOk t.view := by
  induction h with
  | @start heap hwild =>
    refine ⟨.zeroed heap, ServerRun.ok (.start (fun f => ?_) hwild)⟩
    show isset (0 : BitVec fdSetSize) f = false
    simp [isset, has]
  | @accept ev t t' r _ hfree he ih =>
    obtain ⟨hin, k, hk, rfl⟩ := avServerClientAccept_ends.exec he
    obtain ⟨hsound, hok⟩ := ih
    lift r to Nat using hin.1
    refine ⟨hsound.added (Int.ofNat_lt.1 hin.2), ?_⟩
    rw [view_added hin]
    exact hok.connect rfl rfl hk.1 hk.2
  | @request ev t t' n r _ hn hroom he ih =>
    obtain ⟨hsound, hok⟩ := ih
    obtain ⟨hsound', hin, hh⟩ := (request_ends hsound hok hn hroom).exec he
    have hconn : t.view.connected n = true := isset_natCast.trans hn
    exact ⟨hsound', hok.handled hconn hh hin.wild⟩

/-- While the server runs, as long as every call of the handler has room: `max` covers the set, no
    store has missed its block, the buffers of the members hold their blocks and share none. -/
theorem serving_ok (h : Serving Room t) : Covers t ∧ t.heap.wild = [] ∧
    (∀ n, has t.set n = true → BufOk t.heap (buffer (t.clients n))) ∧
    ∀ n n', has t.set n = true → has t.set n' = true → n ≠ n' →
      (buffer (t.clients n)).buf ≠ 0 →
      (buffer (t.clients n)).buf ≠ (buffer (t.clients n')).buf := by
  obtain ⟨hsound, hok⟩ := h.sound
  refine ⟨hsound.covers, hok.wild, fun n hn => ?_, fun n n' hn hn' hne => ?_⟩
  · have hb := hok.bufs n (isset_natCast.trans hn)
    rcases hb with hfresh | hb
    · exact .inl hfresh
    · exact .inr ⟨hb.notNull, hb.block, hb.pos, hb.int, hb.chunks, hb.usedPos, hb.usedLe⟩
  · exact hok.apart n n' (isset_natCast.trans hn) (isset_natCast.trans hn') fun h =>
      hne (Int.ofNat_inj.1 h)

end Table
end Server
end AnekVideo
