/-
  AnekVideo.Server.Request

  What `av_server_client_handle_request` stores, and where.  The handler asks
  `av_buffer_grow` for the queued bytes alone, not for those on top of the bytes
  already used, and asks `recv` for as much as a message may have; the two agree
  on the room in the buffer only where the condition `Room` holds.
-/
import AnekVideo.Server.Grow

namespace AnekVideo
namespace Server

open Interact State

/-! ## The statement -/

/-- The bytes that `recv` delivers in a call. -/
def Event.bytes (ev : Event) (b : AvBuffer) : List UInt8 :=
  ev.received (toSize (maxMsgSize - b.used))

/-- The call gets to a `recv` that does not fail. -/
def Event.Reaches (ev : Event) (b : AvBuffer) : Prop :=
  ev.fionread = none ∧ toInt (b.used + ev.queued.length) < maxMsgSize ∧ ev.recv = none

/-- What a call has stored: nothing outside of a block, the received bytes from position `used`
    on, and the NUL behind a complete line. -/
structure Inside (k : State) (fd : Int) (ev : Event) (k' : State) : Prop where
  wild : k'.wild = k.wild
  stored : ev.Reaches (k.msgs fd) → ev.bytes (k.msgs fd) ≠ [] →
    ∃ block, k'.blocks (k'.msgs fd).buf = some block ∧ block.length = (k'.msgs fd).size ∧
      (block.drop (k.msgs fd).used.toNat).take (ev.bytes (k.msgs fd)).length =
        ev.bytes (k.msgs fd) ∧
      ((ev.bytes (k.msgs fd)).getLast? = some 10 →
        block[(k.msgs fd).used.toNat + (ev.bytes (k.msgs fd)).length]? = some 0)

/-- The positions behind the used ones that a call stores to: those of the received bytes, and
    one more for the NUL if they end a line. -/
def Event.needed (ev : Event) (b : AvBuffer) : Int :=
  (ev.bytes b).length + if (ev.bytes b).getLast? = some 10 then 1 else 0

/-- The positions needed are below the size if that is more than the queued bytes, or else below
    the next chunk after their sum; or the sum is out of the `int`s, so that the allocation
    fails; or nothing is received. -/
def Room (b : AvBuffer) (ev : Event) : Prop :=
  ev.Reaches b → ev.bytes b ≠ [] →
    ((ev.queued.length : Int) < b.size ∧ b.used + ev.needed b ≤ b.size) ∨
    (b.size ≤ ev.queued.length ∧ b.size + ev.queued.length < 2 ^ 31 - 1024 ∧
      b.used + ev.needed b ≤ 1024 * ((b.size + ev.queued.length) / 1024 + 1)) ∨
    (b.size ≤ ev.queued.length ∧ 2 ^ 31 - 1024 ≤ b.size + ev.queued.length ∧
      b.size + ev.queued.length ≤ 2 ^ 32 - 2048)

/-! ## The room after av_buffer_grow -/

variable {k k' : State} {fd : Int} {ev : Event} {b b₁ : AvBuffer} {n : Nat}

theorem Event.needed_le {cap : Int} : b.used + ev.needed b ≤ cap ↔
    b.used + (ev.bytes b).length < cap ∨
      (b.used + (ev.bytes b).length = cap ∧ (ev.bytes b).getLast? ≠ some 10) := by
  unfold Event.needed
  by_cases hlast : (ev.bytes b).getLast? = some 10
  · simp only [hlast, if_true, ne_eq, not_true_eq_false, and_false, or_false]
    omega
  · simp only [hlast, if_false, ne_eq, not_false_eq_true, and_true]
    omega

/-- `b->size` after `av_buffer_grow(b, n)`. -/
def capacity (b : AvBuffer) (n : Nat) : Int :=
  if (n : Int) < b.size then b.size else grownSize b.size n

/-- The condition in terms of the size that `av_buffer_grow` leaves. -/
theorem room_iff (hb : BufOk k b) : Room b ev ↔
    (ev.Reaches b → 0 ≤ capacity b ev.queued.length → ev.bytes b ≠ [] →
      b.used + ev.needed b ≤ capacity b ev.queued.length) := by
  obtain ⟨h0, hlt, hchunk, hused, -⟩ := hb.size
  have hqueued := ev.queued_lt
  have hmod : (b.size + ev.queued.length) % 2 ^ 32 = b.size + ev.queued.length :=
    Int.emod_eq_of_lt (by omega) (by omega)
  have hsize := grownSize_eq h0 hlt ev.queued.length
  rw [hmod] at hsize
  have hneeded : ev.bytes b ≠ [] → 0 < ev.needed b := by
    intro hne
    have hpos : 0 < (ev.bytes b).length := List.length_pos_iff.2 hne
    unfold Event.needed
    split <;> omega
  unfold Room capacity
  generalize hn : (ev.queued.length : Int) = n at *
  generalize ev.needed b = m at *
  by_cases hlarge : n < b.size
  · simp only [hlarge, if_true, true_and]
    constructor
    · intro h hreach _ hne
      have := h hreach hne
      omega
    · intro h hreach hne
      exact .inl (h hreach h0 hne)
  · simp only [hlarge, if_false, false_and, false_or]
    unfold bufChunk at hchunk
    constructor
    · intro h hreach hcap hne
      have hfit := h hreach hne
      have hm := hneeded hne
      split at hsize
      · omega
      · split at hsize <;> omega
    · intro h hreach hne
      have hm := hneeded hne
      have hfit := fun hcap => h hreach hcap hne
      split at hsize
      · rename_i hsum
        refine .inl ⟨by omega, hsum, ?_⟩
        rw [← hsize]
        exact hfit (by omega)
      · refine .inr ⟨by omega, by omega, ?_⟩
        by_contra hover
        rw [if_neg (by omega)] at hsize
        have := hfit (by omega)
        omega

/-- What `av_buffer_grow(b, n)` leaves. -/
structure Ready (k : State) (b : AvBuffer) (n : Nat) (k' : State) (b' : AvBuffer) : Prop where
  size : b'.size = capacity b n
  nonneg : 0 ≤ b'.size
  int : b'.size < 2 ^ 31
  chunks : bufChunk ∣ b'.size
  used : b'.used = b.used
  notNull : b'.buf ≠ 0
  place : b'.buf = b.buf ∨ k.blocks b'.buf = none
  block : ∃ bytes, k'.blocks b'.buf = some bytes ∧ (bytes.length : Int) = b'.size
  frame : ∀ q, q ≠ b.buf → k.blocks q ≠ none → k'.blocks q = k.blocks q
  msgs : k'.msgs = k.msgs
  connected : k'.connected = k.connected
  wild : k'.wild = k.wild

theorem Grown.ready (hb : BufOk k b) (hn : b.size.toNat ≤ n)
    (hg : Grown k b (grownSize b.size n) k' b₁) : Ready k b n k' b₁ := by
  obtain ⟨h0, hlt, -⟩ := hb.size
  have hrange := grownSize_range h0 hlt n
  have hpos := nonneg_of_toSize_le hrange.1 hg.limit
  have hcap : capacity b n = grownSize b.size n := if_neg (by omega)
  obtain ⟨bytes, hbytes, hlen, -⟩ := hg.block
  rw [toSize_of_nonneg hpos hrange.2] at hlen
  exact
    { size := by rw [hg.size, hcap]
      nonneg := by rw [hg.size]; exact hpos
      int := by rw [hg.size]; exact hrange.2
      chunks := by rw [hg.size]; exact bufChunk_dvd_grownSize h0 hlt n
      used := hg.used
      notNull := hg.notNull
      place := hg.place
      block := ⟨bytes, hbytes, by rw [hg.size]; omega⟩
      frame := fun q hq hsome => by
        apply hg.frame q hq
        rintro rfl
        exact hsome (hg.place.resolve_left hq)
      msgs := hg.msgs
      connected := hg.connected
      wild := hg.wild }

theorem Holds.ready (hb : Holds k b) (hn : n < b.size.toNat) : Ready k b n k b := by
  have hpos := hb.pos
  obtain ⟨bytes, hbytes, hlen⟩ := hb.exists_block
  exact
    { size := (if_pos (by omega)).symm
      nonneg := hpos.le
      int := hb.int
      chunks := hb.chunks
      used := rfl
      notNull := hb.notNull
      place := .inl rfl
      block := ⟨bytes, hbytes, by omega⟩
      frame := fun _ _ _ => rfl
      msgs := rfl
      connected := rfl
      wild := rfl }

theorem avBufferGrow_ready (hb : BufOk k b) (n : Nat) :
    Ends (sem ev) (fun _ => True) (fun r k' => ∃ b', r = (0, some b') ∧ Ready k b n k' b')
      (avBufferGrow (some b) n) k := by
  refine (avBufferGrow_ends hb n).mono fun r k' hr => ?_
  obtain ⟨b', rfl, ⟨hn, hbb, hkk⟩ | ⟨hn, hg⟩⟩ := hr
  · have hholds : Holds k b := by
      rcases hb with rfl | hb
      · exact absurd hn (Nat.not_lt_zero n)
      · exact hb
    subst hbb hkk
    exact ⟨_, rfl, hholds.ready hn⟩
  · exact ⟨b', rfl, hg.ready hb hn⟩

/-- A call can get there, unless the size goes negative. -/
theorem avBufferGrow_ready_exists (ev : Event) (hb : BufOk k b) (hcap : 0 ≤ capacity b n) :
    ∃ b' k', Exec (sem ev) (avBufferGrow (some b) n) k (0, some b') k' ∧ Ready k b n k' b' := by
  obtain ⟨h0, hlt, -⟩ := hb.size
  by_cases hn : (n : Int) < b.size
  · have hholds : Holds k b := by
      rcases hb with rfl | hb
      · exact absurd hn (by simp)
      · exact hb
    refine ⟨b, k, ?_, hholds.ready (by omega)⟩
    unfold avBufferGrow
    dsimp only
    rw [toSize_of_nonneg h0 hlt, if_pos (by omega)]
    exact .pure
  · rw [capacity, if_neg hn] at hcap
    obtain ⟨b', k', he, hg⟩ := avBufferGrow_exists ev hb (by omega)
      (toSize_le hcap (grownSize_range h0 hlt n).2)
    exact ⟨b', k', he, hg.ready hb (by omega)⟩

/-! ## The parts of the handler -/

/-- A complete message: the NUL is stored behind it, and the buffer is used anew. -/
theorem avServerClientMessage_ends (ev : Event) (fd : Int) {block : List UInt8}
    (hblock : k.blocks b.buf = some block) (h0 : 0 ≤ b.used) (hlt : b.used < block.length) :
    Ends (sem ev) (fun _ => True) (fun _ k' => k'.wild = k.wild ∧ k'.connected = k.connected ∧
      k'.msgs = Function.update k.msgs fd { b with used := 0 } ∧
      ∀ q, k'.blocks q = if q = b.buf then some (block.set b.used.toNat 0) else k.blocks q)
      (avServerClientMessage fd b) k := by
  unfold avServerClientMessage
  refine ask_ends (fun _ => rfl) ?_
  rw [store_inside hblock h0 hlt]
  refine .op (.inl trivial) fun str k₂ hs => ?_
  obtain ⟨ch, he⟩ := hs
  -- the copy of the message is never filled and soon freed
  have hstr : k₂.wild = k.wild ∧ k₂.connected = k.connected ∧ k₂.msgs = k.msgs ∧
      ∀ q, (if str = 0 then k₂ else k₂.setBlock str none).blocks q =
        if q = b.buf then some (block.set b.used.toNat 0) else k.blocks q := by
    rcases malloc_cases he with ⟨rfl, rfl⟩ | ⟨hp, hnone, -, bytes, -, rfl⟩
    · exact ⟨rfl, rfl, rfl, fun q => by simp⟩
    · refine ⟨rfl, rfl, rfl, fun q => ?_⟩
      rw [if_neg hp]
      simp only [setBlock_blocks] at hnone ⊢
      by_cases hq : q = str
      · subst hq
        rw [if_pos rfl, hnone]
      · rw [if_neg hq, if_neg hq]
  obtain ⟨hwild, hconn, hmsgs, hblocks⟩ := hstr
  have hrest : Ends (sem ev) (fun _ => True) (fun _ k' => k'.wild = k.wild ∧
      k'.connected = k.connected ∧ k'.msgs = Function.update k.msgs fd { b with used := 0 } ∧
      ∀ q, k'.blocks q = if q = b.buf then some (block.set b.used.toNat 0) else k.blocks q)
      (do ask (.log .debug "IOCTL %d\n" [.ptr b.buf])
          ask (.deviceIoctl b.buf)
          ask (.setMsg fd { b with used := 0 })
          ask (.free str)
          return (none : Option Int)) k₂ := by
    refine ask_ends (fun _ => rfl) ?_
    refine ask_ends (fun _ => rfl) ?_
    refine ask_ends (fun _ => rfl) ?_
    refine ask_ends (fun _ => rfl) ?_
    refine .pure ⟨?_, ?_, ?_, fun q => ?_⟩
    · split <;> exact hwild
    · split <;> exact hconn
    · rw [← hmsgs]
      split <;> rfl
    · rw [← hblocks q]
      split <;> rfl
  by_cases h : str = 0
  · rw [if_pos h]
    refine ask_ends (fun _ => rfl) ?_
    exact hrest
  · rw [if_neg h]
    exact hrest

/-- The last byte of a row that stands at position `n` of a block. -/
theorem byteAt_last {block bs tail : List UInt8} {p n : Nat} {i : Int} (hbs : bs ≠ [])
    (hp : k.blocks p = some (block ++ bs ++ tail)) (hn : block.length = n)
    (hi : i = n + bs.length - 1) : k.byteAt p i = bs.getLast? := by
  have hlen : 0 < bs.length := List.length_pos_iff.2 hbs
  have htoNat : i.toNat = block.length + (bs.length - 1) := by omega
  unfold byteAt
  rw [if_pos (by omega), hp, Option.bind_some, htoNat, List.append_assoc,
    List.getElem?_append_right (by omega), Nat.add_sub_cancel_left,
    List.getElem?_append_left (by omega), List.getLast?_eq_getElem?]

/-- The received bytes stand where they were stored, also under the NUL behind them. -/
theorem take_drop_stored {A : List UInt8} (bs C : List UInt8) {u : Nat} (hA : A.length = u) :
    ((A ++ bs ++ C).drop u).take bs.length = bs ∧
      (((A ++ bs ++ C).set (u + bs.length) 0).drop u).take bs.length = bs := by
  have hdrop : (A ++ bs ++ C).drop u = bs ++ C := by
    rw [List.append_assoc, List.drop_left' hA]
  refine ⟨by rw [hdrop, List.take_left' rfl], ?_⟩
  rw [List.drop_set, if_neg (by omega), hdrop, Nat.add_sub_cancel_left,
    List.take_set_of_le (Nat.le_refl _), List.take_left' rfl]

/-- Received bytes `bs` stored at position `u` of the block at `p`, which is `block` then. -/
structure Received (k : State) (p : Nat) (u : Int) (bs block : List UInt8) (k' : State) : Prop where
  wild : k'.wild = k.wild
  stored : k'.blocks p = some block
  length : ∀ old, k.blocks p = some old → block.length = old.length
  others : ∀ q, q ≠ p → k'.blocks q = k.blocks q
  last : k'.byteAt p (u + bs.length - 1) = bs.getLast?
  bytes : (block.drop u.toNat).take bs.length = bs
  bytesNul : ((block.set (u.toNat + bs.length) 0).drop u.toNat).take bs.length = bs

theorem storeAll_received {block bs : List UInt8} {p : Nat} {u : Int}
    (hp : k.blocks p = some block) (h0 : 0 ≤ u) (hle : u + bs.length ≤ block.length)
    (hbs : bs ≠ []) : ∃ block', Received k p u bs block' (k.storeAll p u bs) := by
  obtain ⟨hwild, hblocks⟩ := storeAll_inside hp h0 hle
  have htake : (block.take u.toNat).length = u.toNat := by
    rw [List.length_take]
    omega
  have hblock := (hblocks p).trans (if_pos rfl)
  have hbytes := take_drop_stored bs (block.drop (u.toNat + bs.length)) htake
  refine ⟨_, hwild, hblock, ?_, fun q hq => (hblocks q).trans (if_neg hq),
    byteAt_last hbs hblock htake (by omega), hbytes.1, hbytes.2⟩
  intro old hold
  obtain rfl : block = old := Option.some.inj (hp.symm.trans hold)
  simp only [List.length_append, List.length_take, List.length_drop]
  omega

/-- What the part from `recv` on leaves of the table, and which buffers it may change. -/
structure Handled (k : State) (fd : Int) (k' : State) : Prop where
  others : ∀ fd', fd' ≠ fd → k'.msgs fd' = k.msgs fd' ∧ k'.connected fd' = k.connected fd'
  self : k'.connected fd = true → BufOk k' (k'.msgs fd)
  place : (k'.msgs fd).buf = (k.msgs fd).buf ∨ k.blocks (k'.msgs fd).buf = none
  frame : ∀ q, q ≠ (k.msgs fd).buf → k.blocks q ≠ none → k'.blocks q = k.blocks q

theorem Ready.handled {k₁ : State} (hr : Ready k (k.msgs fd) n k₁ b₁)
    (hothers : ∀ fd', fd' ≠ fd → k'.msgs fd' = k₁.msgs fd' ∧
      k'.connected fd' = k₁.connected fd')
    (hbuf : (k'.msgs fd).buf = b₁.buf)
    (hself : k'.connected fd = true → BufOk k' (k'.msgs fd))
    (hblocks : ∀ q, q ≠ b₁.buf → k'.blocks q = k₁.blocks q) : Handled k fd k' where
  others := fun fd' hfd => by
    rw [(hothers fd' hfd).1, (hothers fd' hfd).2, hr.msgs, hr.connected]
    exact ⟨rfl, rfl⟩
  self := hself
  place := by
    rw [hbuf]
    exact hr.place
  frame := fun q hq hsome => by
    -- a block that was there is not the new one
    have hne : q ≠ b₁.buf := by
      rintro rfl
      exact hsome (hr.place.resolve_left hq)
    rw [hblocks q hne]
    exact hr.frame q hq hsome

/-- The client is taken out of the table. -/
theorem Ready.removed {k₁ : State} (hr : Ready k (k.msgs fd) n k₁ b₁) {c : AvBuffer}
    (hc : c.buf = b₁.buf) :
    Handled k fd (((k₁.setMsg fd b₁).setMsg fd c).remove fd) := by
  refine hr.handled (fun fd' hfd => ⟨?_, ?_⟩) ?_ ?_ fun q _ => rfl
  · show ((k₁.setMsg fd b₁).setMsg fd c).msgs fd' = k₁.msgs fd'
    rw [setMsg_msgs, if_neg hfd, setMsg_msgs, if_neg hfd]
  · exact Function.update_of_ne hfd ..
  · show (((k₁.setMsg fd b₁).setMsg fd c).msgs fd).buf = b₁.buf
    rw [setMsg_msgs, if_pos rfl, hc]
  · intro hconn
    change Function.update k₁.connected fd false fd = true at hconn
    rw [Function.update_self] at hconn
    cases hconn

/-- Bytes that fit into the buffer are stored in it, and the client stays. -/
theorem Ready.stored {k₁ : State} (hr : Ready k (k.msgs fd) n k₁ b₁) {u : Int}
    {block : List UInt8} (hu0 : 0 ≤ u) (hu : u ≤ b₁.size) (hpos : 0 < b₁.size)
    (hothers : ∀ fd', fd' ≠ fd → k'.msgs fd' = k₁.msgs fd')
    (hconn : k'.connected = k₁.connected) (hmsg : k'.msgs fd = { b₁ with used := u })
    (hblock : k'.blocks b₁.buf = some block) (hlen : (block.length : Int) = b₁.size)
    (hblocks : ∀ q, q ≠ b₁.buf → k'.blocks q = k₁.blocks q) :
    Handled k fd k' := by
  refine hr.handled (fun fd' hfd => ⟨hothers fd' hfd, by rw [hconn]⟩) (by rw [hmsg])
    (fun _ => ?_) hblocks
  rw [hmsg]
  refine .inr ⟨hr.notNull, ?_, hpos, hr.int, hr.chunks, hu0, hu⟩
  show (k'.blocks b₁.buf).map List.length = some b₁.size.toNat
  rw [hblock, Option.map_some, ← hlen, Int.toNat_natCast]

section Arrived

/-! ### The two ends of a call whose bytes are stored

`k₃` is `k₁` with the received bytes `bs` in the block of `b₁`. -/

variable {k₁ k₃ : State} {bs block : List UInt8}

/-- The last byte is no newline: the call waits for more. -/
theorem Ready.partial_line (hr : Ready k (k.msgs fd) n k₁ b₁) (hused0 : 0 ≤ b₁.used)
    (hnil : bs ≠ []) (hst : Received (k₁.setMsg fd b₁) b₁.buf b₁.used bs block k₃)
    (hstored : Stored (k₁.setMsg fd b₁) k₃) (hsize : (block.length : Int) = b₁.size)
    (hle : b₁.used + bs.length ≤ b₁.size) (hbs : ev.bytes (k.msgs fd) = bs)
    (hline : bs.getLast? ≠ some 10) :
    Inside k fd ev (k₃.setMsg fd { b₁ with used := b₁.used + bs.length }) ∧
      Handled k fd (k₃.setMsg fd { b₁ with used := b₁.used + bs.length }) := by
  have hpos : 0 < bs.length := List.length_pos_iff.2 hnil
  refine ⟨⟨hst.wild.trans hr.wild, fun _ _ => ?_⟩, ?_⟩
  · rw [setMsg_msgs, if_pos rfl, ← hr.used, hbs]
    exact ⟨block, hst.stored, hsize, hst.bytes, fun h => absurd h hline⟩
  · refine hr.stored (u := b₁.used + bs.length) (by omega) hle (by omega) (fun fd' hfd => ?_)
      hstored.connected (by rw [setMsg_msgs, if_pos rfl]) hst.stored hsize
        fun q hq => hst.others q hq
    rw [setMsg_msgs, if_neg hfd, hstored.msgs, setMsg_msgs, if_neg hfd]

/-- A complete line, with a position left for the NUL behind it: the message is handed on. -/
theorem Ready.line_ends (hr : Ready k (k.msgs fd) n k₁ b₁) (hused0 : 0 ≤ b₁.used)
    (hst : Received (k₁.setMsg fd b₁) b₁.buf b₁.used bs block k₃)
    (hstored : Stored (k₁.setMsg fd b₁) k₃) (hsize : (block.length : Int) = b₁.size)
    (hlt : b₁.used + bs.length < b₁.size) (hbs : ev.bytes (k.msgs fd) = bs) :
    Ends (sem ev) (fun _ => True) (fun _ k' => Inside k fd ev k' ∧ Handled k fd k')
      (avServerClientMessage fd { b₁ with used := b₁.used + bs.length })
      (k₃.setMsg fd { b₁ with used := b₁.used + bs.length }) := by
  -- where the NUL goes
  have hnul : (b₁.used + bs.length).toNat = b₁.used.toNat + bs.length := by omega
  have hmessage := avServerClientMessage_ends ev fd
    (k := k₃.setMsg fd { b₁ with used := b₁.used + bs.length })
    (b := { b₁ with used := b₁.used + bs.length }) hst.stored
    (show 0 ≤ b₁.used + bs.length by omega)
    (show b₁.used + bs.length < block.length by omega)
  refine hmessage.mono fun _ k' hk' => ?_
  obtain ⟨hw, hconn, hmsg, hblk'⟩ := hk'
  have hself : k'.msgs fd = { b₁ with used := 0 } := by rw [hmsg, Function.update_self]
  have hset : k'.blocks b₁.buf = some (block.set (b₁.used.toNat + bs.length) 0) := by
    rw [hblk', if_pos rfl, hnul]
  refine ⟨⟨hw.trans (hst.wild.trans hr.wild), fun _ _ => ?_⟩, ?_⟩
  · rw [hself, ← hr.used, hbs]
    refine ⟨_, hset, by rw [List.length_set]; exact hsize, hst.bytesNul, fun _ => ?_⟩
    rw [List.getElem?_set_self (by omega)]
  · -- the buffer is used anew, from its start
    refine hr.stored (le_refl 0) hr.nonneg (by omega) (fun fd' hfd => ?_)
      (hconn.trans hstored.connected) hself hset
        (by rw [List.length_set]; exact hsize) (fun q hq => ?_)
    · rw [hmsg, Function.update_of_ne hfd, setMsg_msgs, if_neg hfd, hstored.msgs, setMsg_msgs,
        if_neg hfd]
    · rw [hblk', if_neg hq]
      exact hst.others q hq

end Arrived

/-- The part from `recv` on, where the received bytes have room. -/
theorem avServerClientRecv_ends {k₁ : State} (hb : BufOk k (k.msgs fd))
    (hr : Ready k (k.msgs fd) ev.queued.length k₁ b₁) (hfion : ev.fionread = none)
    (hmax : toInt ((k.msgs fd).used + ev.queued.length) < maxMsgSize)
    (hroom : Room (k.msgs fd) ev) :
    Ends (sem ev) (fun _ => True) (fun _ k' => Inside k fd ev k' ∧ Handled k fd k')
      (avServerClientRecv fd b₁) (k₁.setMsg fd b₁) := by
  obtain ⟨-, -, -, hused0, -⟩ := hb.size
  obtain ⟨block, hblock, hlen⟩ := hr.block
  have hbytes : ev.received (toSize (maxMsgSize - b₁.used)) = ev.bytes (k.msgs fd) := by
    rw [hr.used]
    rfl
  unfold avServerClientRecv
  cases hrecv : ev.recv with
  | some e =>
    have hstep : ∀ ch, exec ev ch (.recv fd b₁.buf b₁.used (toSize (maxMsgSize - b₁.used)))
        (k₁.setMsg fd b₁) = some (.error e, k₁.setMsg fd b₁) := by
      intro ch
      simp only [exec, hrecv]
    refine ask_ends hstep ?_
    refine ask_ends (fun _ => rfl) (ask_ends (fun _ => rfl) (ask_ends (fun _ => rfl)
      (ask_ends (fun _ => rfl) (.pure ⟨⟨hr.wild, fun h _ => ?_⟩, hr.removed rfl⟩))))
    exact absurd (hrecv.symm.trans h.2.2) (by simp)
  | none =>
    have hstep : ∀ ch, exec ev ch (.recv fd b₁.buf b₁.used (toSize (maxMsgSize - b₁.used)))
        (k₁.setMsg fd b₁) = some (.ok (ev.bytes (k.msgs fd)).length,
          (k₁.setMsg fd b₁).storeAll b₁.buf b₁.used (ev.bytes (k.msgs fd))) := by
      intro ch
      simp only [exec, hrecv, hbytes]
    refine ask_ends hstep ?_
    refine ask_ends (fun _ => rfl) ?_
    dsimp only
    generalize hbs : ev.bytes (k.msgs fd) = bs at *
    by_cases hnil : bs = []
    · -- the end of the file
      subst hnil
      rw [if_pos List.length_nil]
      refine ask_ends (fun _ => rfl) (ask_ends (fun _ => rfl) (.pure ⟨⟨hr.wild, fun _ h => ?_⟩,
        hr.removed rfl⟩))
      exact absurd hbs h
    · -- the condition, in terms of the buffer after `av_buffer_grow`
      have hcap := hr.nonneg
      rw [hr.size] at hcap
      have hfits := Event.needed_le.1 ((room_iff hb).1 hroom ⟨hfion, hmax, hrecv⟩ hcap
        (by rw [hbs]; exact hnil))
      rw [hbs, ← hr.size, ← hr.used] at hfits
      rw [← hr.used] at hused0
      have hle : b₁.used + bs.length ≤ block.length := by omega
      have hposlen : 0 < bs.length := List.length_pos_iff.2 hnil
      obtain ⟨block', hst⟩ :=
        storeAll_received (k := k₁.setMsg fd b₁) hblock hused0 hle hnil
      have hstored := storeAll_stored (k₁.setMsg fd b₁) b₁.buf b₁.used bs
      have hlen' : block'.length = block.length := hst.length block hblock
      have hsize : (block'.length : Int) = b₁.size := by omega
      rw [if_neg (by omega)]
      -- the byte read back is the last one received
      obtain ⟨c, hc⟩ : ∃ c, bs.getLast? = some c :=
        Option.isSome_iff_exists.1 (by simp [hnil])
      generalize (k₁.setMsg fd b₁).storeAll b₁.buf b₁.used bs = k₃ at *
      have hload : ∀ ch, exec ev ch (.load8 b₁.buf (b₁.used + bs.length - 1))
          (k₃.setMsg fd { b₁ with used := b₁.used + bs.length }) =
          some (c, k₃.setMsg fd { b₁ with used := b₁.used + bs.length }) := by
        intro ch
        have hbyte : (k₃.setMsg fd { b₁ with used := b₁.used + bs.length }).byteAt b₁.buf
            (b₁.used + bs.length - 1) = some c := hst.last.trans hc
        simp only [exec, hbyte]
      refine ask_ends hload ?_
      dsimp only
      by_cases hline : c = 10
      · rw [if_neg (by simp [hline])]
        subst hline
        have hlt : b₁.used + bs.length < b₁.size := by
          rcases hfits with h | ⟨-, h⟩
          · exact h
          · exact absurd hc h
        exact hr.line_ends hused0 hst hstored hsize hlt hbs
      · rw [if_pos hline]
        refine .pure (hr.partial_line hused0 hnil hst hstored hsize (by omega) hbs fun h => ?_)
        exact hline (Option.some.inj (hc.symm.trans h))

theorem Handled.refl (hb : BufOk k (k.msgs fd)) : Handled k fd k :=
  ⟨fun _ _ => ⟨rfl, rfl⟩, fun _ => hb, .inl rfl, fun _ _ _ => rfl⟩

/-- A call whose received bytes have room stays inside of the buffer. -/
theorem avServerClientHandleRequest_ends (hb : BufOk k (k.msgs fd)) (hroom : Room (k.msgs fd) ev) :
    Ends (sem ev) (fun _ => True) (fun _ k' => Inside k fd ev k' ∧ Handled k fd k')
      (avServerClientHandleRequest fd) k := by
  have hqueued : toSize ev.queued.length = ev.queued.length :=
    (toSize_of_nonneg (by omega) (by exact_mod_cast ev.queued_lt)).trans (Int.toNat_natCast _)
  unfold avServerClientHandleRequest
  refine ask_ends (fun _ => rfl) ?_
  cases hfion : ev.fionread with
  | some e =>
    have hstep : ∀ ch, exec ev ch (.fionread fd) k = some (.error e, k) := by
      intro ch
      simp only [exec, hfion, Option.elim_some]
    -- a failing `ioctl` leaves everything as it is
    refine ask_ends hstep (ask_ends (fun _ => rfl) (.pure ⟨⟨rfl, fun h _ => ?_⟩, .refl hb⟩))
    exact absurd (hfion.symm.trans h.1) (by simp)
  | none =>
    have hstep : ∀ ch, exec ev ch (.fionread fd) k = some (.ok ev.queued.length, k) := by
      intro ch
      simp only [exec, hfion, Option.elim_none]
    refine ask_ends hstep ?_
    dsimp only
    split
    · -- more than a message may have
      rename_i hmax
      refine ask_ends (fun _ => rfl) (ask_ends (fun _ => rfl) (ask_ends (fun _ => rfl)
        (.pure ⟨⟨rfl, fun h _ => ?_⟩, ?_⟩)))
      · exact absurd h.2.1 (not_lt.2 hmax)
      · refine ⟨fun fd' hfd => ⟨rfl, Function.update_of_ne hfd ..⟩, fun hconn => ?_,
          .inl rfl, fun _ _ _ => rfl⟩
        -- the client is removed, so nothing is claimed of it
        change Function.update k.connected fd false fd = true at hconn
        rw [Function.update_self] at hconn
        cases hconn
    · rename_i hmax
      rw [hqueued]
      -- the buffer grows by what is queued, then it is received
      refine .seq (avBufferGrow_ready hb ev.queued.length) fun r k₁ hr => ?_
      obtain ⟨b₁, rfl, hready⟩ := hr
      exact ask_ends (fun _ => rfl)
        (avServerClientRecv_ends hb hready hfion (not_le.1 hmax) hroom)

/-! ## Outside of the condition -/

/-- A message without a position for its NUL. -/
theorem message_overrun (ev : Event) (fd : Int) {block : List UInt8}
    (hblock : k.blocks b.buf = some block) (hu : (block.length : Int) ≤ b.used) :
    ∃ k', Exec (sem ev) (avServerClientMessage fd b) k none k' ∧
      k'.wild = (b.buf, b.used) :: k.wild := by
  have hstore : k.store b.buf b.used 0 = { k with wild := (b.buf, b.used) :: k.wild } := by
    unfold store
    rw [hblock]
    dsimp only
    rw [if_neg (by omega)]
  refine ⟨{ k with wild := (b.buf, b.used) :: k.wild }.setMsg fd { b with used := 0 }, ?_, rfl⟩
  have hnul : sem ev (.store8 b.buf b.used 0) k () { k with wild := (b.buf, b.used) :: k.wild } :=
    ⟨.null, by rw [← hstore]; rfl⟩
  unfold avServerClientMessage
  -- the allocation of the copy fails, which only leads to a message
  exact .op hnul (.op (r := 0) ⟨.null, rfl⟩ (.op ⟨.null, rfl⟩ (.op ⟨.null, rfl⟩
    (.op ⟨.null, rfl⟩ (.op ⟨.null, rfl⟩ (.op ⟨.null, rfl⟩ .pure))))))

/-- Received bytes, or the NUL behind them, without a position in the buffer. -/
theorem recv_overrun {k₁ : State} (hr : Ready k (k.msgs fd) n k₁ b₁)
    (hrecv : ev.recv = none) (hused0 : 0 ≤ b₁.used) (hnil : ev.bytes b₁ ≠ [])
    (hover : b₁.size ≤ b₁.used + (ev.bytes b₁).length)
    (hexact : b₁.used + (ev.bytes b₁).length = b₁.size →
      (ev.bytes b₁).getLast? = some 10) :
    ∃ r k', Exec (sem ev) (avServerClientRecv fd b₁) (k₁.setMsg fd b₁) r k' ∧
      k'.wild ≠ k.wild := by
  obtain ⟨block, hblock, hlen⟩ := hr.block
  have hstep : sem ev (.recv fd b₁.buf b₁.used (toSize (maxMsgSize - b₁.used)))
      (k₁.setMsg fd b₁)
      (.ok (ev.bytes b₁).length) ((k₁.setMsg fd b₁).storeAll b₁.buf b₁.used (ev.bytes b₁)) := by
    refine ⟨.null, ?_⟩
    simp only [exec, hrecv]
    rfl
  generalize hbs : ev.bytes b₁ = bs at *
  have hposlen : 0 < bs.length := List.length_pos_iff.2 hnil
  unfold avServerClientRecv
  by_cases hlt : b₁.size < b₁.used + bs.length
  · -- the bytes themselves go beyond the end, and the last of them is not read back
    have hwild := storeAll_outside (k := k₁.setMsg fd b₁) hblock hused0 hnil (by omega)
    have hstored := storeAll_stored (k₁.setMsg fd b₁) b₁.buf b₁.used bs
    generalize (k₁.setMsg fd b₁).storeAll b₁.buf b₁.used bs = k₃ at *
    -- what is read there may be anything, so also no newline
    have hnone : (k₃.setMsg fd { b₁ with used := b₁.used + bs.length }).byteAt b₁.buf
        (b₁.used + bs.length - 1) = none := by
      have hlength : (k₃.blocks b₁.buf).map List.length = some block.length := by
        rw [hstored.length, setMsg_blocks, hblock]
        rfl
      obtain ⟨block', hblock', hlen'⟩ := Option.map_eq_some_iff.1 hlength
      unfold byteAt
      rw [if_pos (by omega), setMsg_blocks, hblock', Option.bind_some]
      exact List.getElem?_eq_none (by omega)
    have hload : sem ev (.load8 b₁.buf (b₁.used + bs.length - 1))
        (k₃.setMsg fd { b₁ with used := b₁.used + bs.length }) 0
        (k₃.setMsg fd { b₁ with used := b₁.used + bs.length }) :=
      ⟨.byte 0, by simp only [exec, hnone]⟩
    refine ⟨some 0, k₃.setMsg fd { b₁ with used := b₁.used + bs.length },
      .op hstep (.op ⟨.null, rfl⟩ ?_), hr.wild ▸ hwild⟩
    rw [if_neg (by omega)]
    refine .op hload ?_
    rw [if_pos (show (0 : UInt8) ≠ 10 by decide)]
    exact .pure
  · -- the bytes fill the buffer, and the NUL goes beyond its end
    have heq : b₁.used + bs.length = b₁.size := by omega
    obtain ⟨block', hst⟩ :=
      storeAll_received (k := k₁.setMsg fd b₁) hblock hused0 (by omega) hnil
    have hwild := hst.wild
    generalize (k₁.setMsg fd b₁).storeAll b₁.buf b₁.used bs = k₃ at *
    have hload : sem ev (.load8 b₁.buf (b₁.used + bs.length - 1))
        (k₃.setMsg fd { b₁ with used := b₁.used + bs.length }) 10
        (k₃.setMsg fd { b₁ with used := b₁.used + bs.length }) := by
      have hbyte : (k₃.setMsg fd { b₁ with used := b₁.used + bs.length }).byteAt b₁.buf
          (b₁.used + bs.length - 1) = some 10 := hst.last.trans (hexact heq)
      exact ⟨.null, by simp only [exec, hbyte]⟩
    have hfull : (block'.length : Int) ≤ b₁.used + bs.length := by
      have hlen' := hst.length block hblock
      omega
    obtain ⟨k', hexec, hk'⟩ := message_overrun ev fd
      (k := k₃.setMsg fd { b₁ with used := b₁.used + bs.length })
      (b := { b₁ with used := b₁.used + bs.length }) hst.stored hfull
    refine ⟨none, k', .op hstep (.op ⟨.null, rfl⟩ ?_), ?_⟩
    · rw [if_neg (by omega)]
      refine .op hload ?_
      rw [if_neg (show ¬ (10 : UInt8) ≠ 10 by decide)]
      exact hexec
    · -- one store more than before
      rw [hk', setMsg_wild, hwild, setMsg_wild, hr.wild]
      exact List.cons_ne_self _ _

/-- Received bytes without room are stored outside of the buffer, all the same. -/
theorem exists_overrun (hb : BufOk k (k.msgs fd)) (hroom : ¬ Room (k.msgs fd) ev) :
    ∃ r k', Exec (sem ev) (avServerClientHandleRequest fd) k r k' ∧ ¬ Inside k fd ev k' := by
  obtain ⟨-, -, -, hused0, -⟩ := hb.size
  have hqueued : toSize ev.queued.length = ev.queued.length :=
    (toSize_of_nonneg (by omega) (by exact_mod_cast ev.queued_lt)).trans (Int.toNat_natCast _)
  rw [room_iff hb] at hroom
  push Not at hroom
  obtain ⟨⟨hfion, hmax, hrecv⟩, hcap, hnil, hfull⟩ := hroom
  rw [← not_le, Event.needed_le] at hfull
  push Not at hfull
  obtain ⟨hover, hexact⟩ := hfull
  obtain ⟨b₁, k₁, hgrow, hr⟩ := avBufferGrow_ready_exists ev hb hcap
  have hbytes : ev.bytes b₁ = ev.bytes (k.msgs fd) := by rw [Event.bytes, hr.used]; rfl
  rw [← hbytes, ← hr.size, ← hr.used] at hover hexact
  obtain ⟨r, k', hexec, hwild⟩ :=
    recv_overrun hr hrecv (hr.used ▸ hused0) (hbytes ▸ hnil) hover hexact
  refine ⟨r, k', ?_, fun h => hwild h.wild⟩
  have hfionread : sem ev (.fionread fd) k (.ok ev.queued.length) k :=
    ⟨.null, by simp only [exec, hfion, Option.elim_none]⟩
  unfold avServerClientHandleRequest
  -- no error and no refusal: the call gets to `recv`
  refine .op ⟨.null, rfl⟩ (.op hfionread ?_)
  dsimp only
  rw [if_neg (not_le.2 hmax), hqueued]
  exact .bind hgrow (.op ⟨.null, rfl⟩ hexec)

/-! ## Runs -/

/-- The server's runs: clients connect, and their readable events are handled, each of them such
    that `room` admits it. -/
inductive ServerRun (room : AvBuffer → Event → Prop) : State → Prop
  | start {k : State} : (∀ fd, k.connected fd = false) → k.wild = [] → ServerRun room k
  | accept {ev : Event} {k k' : State} {b : AvBuffer} {fd : Int} :
      ServerRun room k → k.connected fd = false → Exec (sem ev) bufferInit k b k' →
      ServerRun room (k'.connect fd b)
  | request {ev : Event} {k k' : State} {fd : Int} {r : Option Int} :
      ServerRun room k → k.connected fd = true → room (k.msgs fd) ev →
      Exec (sem ev) (avServerClientHandleRequest fd) k r k' → ServerRun room k'

/-- The clients' buffers are right and apart from each other, and every store hit its block. -/
structure ServerOk (k : State) : Prop where
  bufs : ∀ fd, k.connected fd = true → BufOk k (k.msgs fd)
  apart : ∀ fd fd', k.connected fd = true → k.connected fd' = true → fd ≠ fd' →
    (k.msgs fd).buf ≠ 0 → (k.msgs fd).buf ≠ (k.msgs fd').buf
  wild : k.wild = []

theorem BufOk.block_ne_none (hb : BufOk k b) (h0 : b.buf ≠ 0) : k.blocks b.buf ≠ none := by
  rcases hb with rfl | hb
  · exact absurd rfl h0
  · obtain ⟨bytes, hbytes, -⟩ := hb.exists_block
    rw [hbytes]
    exact Option.some_ne_none bytes

/-- A buffer whose block is as before. -/
theorem BufOk.frame (hb : BufOk k b) (hblock : b.buf ≠ 0 → k'.blocks b.buf = k.blocks b.buf) :
    BufOk k' b := by
  rcases hb with rfl | hb
  · exact .inl rfl
  · exact .inr { hb with block := by rw [hblock hb.notNull]; exact hb.block }

/-- A call for one client leaves the other clients alone. -/
theorem ServerOk.handled (hk : ServerOk k) (hfd : k.connected fd = true) (hh : Handled k fd k')
    (hwild : k'.wild = k.wild) : ServerOk k' := by
  -- the block of another client is neither the old nor the new one of this client
  have hother : ∀ fd', fd' ≠ fd → k'.connected fd' = true → k.connected fd' = true ∧
      ((k.msgs fd').buf ≠ 0 → (k.msgs fd').buf ≠ (k.msgs fd).buf ∧
        (k.msgs fd').buf ≠ (k'.msgs fd).buf) := by
    intro fd' hne hconn
    rw [(hh.others fd' hne).2] at hconn
    refine ⟨hconn, fun h0 => ?_⟩
    have hapart := hk.apart fd' fd hconn hfd hne h0
    refine ⟨hapart, fun heq => ?_⟩
    rcases hh.place with hp | hp
    · exact hapart (heq.trans hp)
    · exact (hk.bufs fd' hconn).block_ne_none h0 (heq ▸ hp)
  -- each buffer on its own, then two of them, of which at most one is this client's
  refine ⟨fun fd' hconn => ?_, fun fd₁ fd₂ h₁ h₂ hne h0 => ?_, hwild.trans hk.wild⟩
  · by_cases hne : fd' = fd
    · subst hne
      exact hh.self hconn
    · obtain ⟨hconn', hbuf⟩ := hother fd' hne hconn
      rw [(hh.others fd' hne).1]
      refine (hk.bufs fd' hconn').frame fun h0 => ?_
      exact hh.frame _ (hbuf h0).1 ((hk.bufs fd' hconn').block_ne_none h0)
  · by_cases h₁' : fd₁ = fd
    · subst h₁'
      have hne₂ : fd₂ ≠ fd₁ := fun h => hne h.symm
      rw [(hh.others fd₂ hne₂).1]
      intro heq
      exact ((hother fd₂ hne₂ h₂).2 (heq ▸ h0)).2 heq.symm
    · rw [(hh.others fd₁ h₁').1] at h0 ⊢
      by_cases h₂' : fd₂ = fd
      · subst h₂'
        exact ((hother fd₁ h₁' h₁).2 h0).2
      · rw [(hh.others fd₂ h₂').1]
        exact hk.apart fd₁ fd₂ (hother fd₁ h₁' h₁).1 (hother fd₂ h₂' h₂).1 hne h0

/-- A new client has an empty buffer. -/
theorem ServerOk.connect (hk : ServerOk k) (hmsgs : k'.msgs = k.msgs)
    (hconn : k'.connected = k.connected) (hwild : k'.wild = k.wild)
    (hblocks : ∀ q, k.blocks q ≠ none → k'.blocks q = k.blocks q) :
    ServerOk (k'.connect fd {}) := by
  have hold : ∀ fd', fd' ≠ fd → (k'.connect fd {}).msgs fd' = k.msgs fd' ∧
      (k'.connect fd {}).connected fd' = k.connected fd' := by
    intro fd' hne
    rw [← hmsgs, ← hconn]
    exact ⟨Function.update_of_ne hne .., Function.update_of_ne hne ..⟩
  have hnew : (k'.connect fd {}).msgs fd = {} := Function.update_self ..
  refine ⟨fun fd' hc => ?_, fun fd₁ fd₂ h₁ h₂ hne h0 => ?_, hwild.trans hk.wild⟩
  · by_cases hne : fd' = fd
    · subst hne
      rw [hnew]
      exact .inl rfl
    · rw [(hold fd' hne).2] at hc
      rw [(hold fd' hne).1]
      exact (hk.bufs fd' hc).frame fun h0 => hblocks _ ((hk.bufs fd' hc).block_ne_none h0)
  · by_cases h₁' : fd₁ = fd
    · subst h₁'
      rw [hnew] at h0
      exact absurd rfl h0
    · rw [(hold fd₁ h₁').2] at h₁
      rw [(hold fd₁ h₁').1] at h0 ⊢
      by_cases h₂' : fd₂ = fd
      · subst h₂'
        rw [hnew]
        exact h0
      · rw [(hold fd₂ h₂').2] at h₂
        rw [(hold fd₂ h₂').1]
        exact hk.apart fd₁ fd₂ h₁ h₂ hne h0

theorem ServerRun.ok (hrun : ServerRun Room k) : ServerOk k := by
  induction hrun with
  | start hconn hwild =>
    refine ⟨fun fd h => ?_, fun fd _ h => ?_, hwild⟩
    · rw [hconn] at h
      cases h
    · rw [hconn] at h
      cases h
  | accept _ _ he ih =>
    obtain ⟨rfl, hmsgs, hconn, hwild, hblocks⟩ := bufferInit_ends.exec he
    exact ih.connect hmsgs hconn hwild hblocks
  | request _ hfd hroom he ih =>
    obtain ⟨hin, hh⟩ := (avServerClientHandleRequest_ends (ih.bufs _ hfd) hroom).exec he
    exact ih.handled hfd hh hin.wild

/-- In a run whose calls all have room every store has hit its block, and a next call stays
    inside of the client's buffer exactly if it has room, too. -/
theorem client_input_inside (k : State) (hrun : ServerRun Room k) : k.wild = [] ∧
    ∀ fd ev, k.connected fd = true →
      ((∀ r k', Exec (sem ev) (avServerClientHandleRequest fd) k r k' → Inside k fd ev k') ↔
        Room (k.msgs fd) ev) := by
  have hk := hrun.ok
  refine ⟨hk.wild, fun fd ev hfd => ⟨fun hall => ?_, fun hroom r k' he => ?_⟩⟩
  · by_contra hroom
    obtain ⟨r, k', he, hnot⟩ := exists_overrun (hk.bufs fd hfd) hroom
    exact hnot (hall r k' he)
  · exact ((avServerClientHandleRequest_ends (hk.bufs fd hfd) hroom).exec he).1

/-- One client. -/
def oneClient : State := (emptyState.setBlock 1 (some (List.replicate 16 0))).connect 4 {}

theorem oneClient_run (room : AvBuffer → Event → Prop) : ServerRun room oneClient :=
  .accept (.start (fun _ => rfl) rfl) rfl bufferInit_exec

/-- The client has sent `Te`. -/
def twoBytes : Event := ⟨[84, 101], by decide, [], 8192, none, none⟩

theorem client_input_inside_demo : ∃ k',
    Exec (sem twoBytes) (avServerClientHandleRequest 4) oneClient (some 0) k' ∧
      Inside oneClient 4 twoBytes k' := by
  have hplay : ((play (exec twoBytes) (fun _ _ _ => true) 20
      [.null, .null, .block 2 (List.replicate 1024 0), .null, .null, .null, .null, .null]
      (avServerClientHandleRequest 4) oneClient).any fun x => decide (x.1 = some 0)) = true := by
    decide +kernel
  obtain ⟨r, k', hrun, hr⟩ := exists_exec_of_play hplay
  obtain rfl : r = some 0 := of_decide_eq_true hr
  have hinside := client_input_inside oneClient (oneClient_run Room)
  refine ⟨k', hrun, (hinside.2 4 twoBytes rfl).2 (fun _ _ => .inr (.inl ?_)) _ k' hrun⟩
  decide

/-- The client has sent one byte, and 1024 more arrive before `recv`. -/
def lateBytes : Event := ⟨[84], by decide, List.replicate 1024 84, 8192, none, none⟩

/-- The buffer has 1024 bytes then, and 1025 are stored into it. -/
theorem late_bytes_overrun :
    ServerRun (fun _ _ => True) oneClient ∧ oneClient.connected 4 = true ∧
    ∃ r k', Exec (sem lateBytes) (avServerClientHandleRequest 4) oneClient r k' ∧
      ¬ Inside oneClient 4 lateBytes k' := by
  refine ⟨oneClient_run _, rfl, exists_overrun (.inl rfl) fun hroom => ?_⟩
  have hlen : (lateBytes.bytes {}).length = 1025 := by
    show ((([84] : List UInt8) ++ List.replicate 1024 84).take
      (min (toSize (maxMsgSize - 0)) 8192)).length = 1025
    rw [List.length_take, List.length_append, List.length_replicate]
    decide
  have hne : lateBytes.bytes {} ≠ [] := by
    intro h
    rw [h] at hlen
    cases hlen
  have hneeded : (1025 : Int) ≤ lateBytes.needed {} := by
    unfold Event.needed
    rw [hlen]
    split <;> omega
  have hfit := hroom ⟨rfl, by decide, rfl⟩ hne
  change ((1 : Int) < 0 ∧ (0 : Int) + lateBytes.needed {} ≤ 0) ∨
    ((0 : Int) ≤ 1 ∧ (0 : Int) + 1 < 2 ^ 31 - 1024 ∧
      (0 : Int) + lateBytes.needed {} ≤ 1024 * ((0 + 1) / 1024 + 1)) ∨
    ((0 : Int) ≤ 1 ∧ (2 : Int) ^ 31 - 1024 ≤ 0 + 1 ∧
      (0 : Int) + 1 ≤ 2 ^ 32 - 2048) at hfit
  omega

end Server
end AnekVideo
