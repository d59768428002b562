/-
  AnekVideo.Io.Messages

  The loops of `av_loop_write` and `av_loop_read` neither lose, double nor
  reorder a byte, however the kernel splits the transfers and whenever it
  interrupts or fails a call.

  `Flow` is the invariant of the stream: what the reader has stored, followed
  by what is in the queue, is what the writer has handed over.  Each loop
  keeps its pointer, its remaining count and its result in step with the bytes
  its call has moved.
-/
import AnekVideo.Io.Stream

namespace AnekVideo
namespace Io

open Interact Word

/-! ## The invariant -/

/-- The history of a party: nothing of later calls yet, and a call that returned
    `r ≥ 0` moved `r` bytes. -/
structure SideOk (s : Side) : Prop where
  later : ∀ j, s.calls ≤ j → s.chunk j = [] ∧ s.result j = none
  counted : ∀ j n, s.result j = some (.ok n) → (s.chunk j).length = n

/-- What holds of the stream at every moment. -/
structure Flow (msgs : List (List UInt8)) (k : Stream) : Prop where
  writer : SideOk k.writer
  reader : SideOk k.reader
  /-- The bytes stored so far and those in the stream are those handed over. -/
  bytes : k.reader.total ++ k.queue = k.writer.total
  /-- Each call of the writer has handed over a prefix of its message. -/
  handed : ∀ j, j < k.writer.calls → ∃ msg, msgs[j]? = some msg ∧ k.writer.chunk j <+: msg
  /-- Each call of the reader has stored no more than it asked for. -/
  asked : ∀ j, j < k.reader.calls → ∃ msg, msgs[j]? = some msg ∧
    (k.reader.chunk j).length ≤ msg.length
  /-- The reader's memory is that of the start of its latest call, but for the bytes that
      this call stored at the start of its buffer. -/
  stored : k.reader.mem = splice k.reader.before k.reader.buf (k.reader.chunk (k.reader.calls - 1))

/-- Call `j` of a party returned the full length of message `j`. -/
def Full (s : Side) (msgs : List (List UInt8)) (j : Nat) : Prop :=
  ∃ msg, msgs[j]? = some msg ∧ s.result j = some (.ok msg.length)

variable {msgs : List (List UInt8)} {k k' : Stream} {t j : Nat} {wfd rfd : Int} {s : Side}

/-! ## Changes to the history -/

theorem SideOk.fresh (mem : Bytes) : SideOk (.fresh mem) := ⟨fun _ _ => ⟨rfl, rfl⟩, nofun⟩

theorem SideOk.start (hs : SideOk s) (buf : Nat) (mem : Bytes) : SideOk (s.start buf mem) where
  later := fun j hj => by
    rw [Side.start_calls] at hj
    rw [Side.start_chunk, Side.start_result, if_neg (by omega), if_neg (by omega)]
    exact hs.later j (by omega)
  counted := fun j n hr => by
    rw [Side.start_result] at hr
    rw [Side.start_chunk]
    split at hr
    · cases hr
    · rename_i hj
      rw [if_neg hj]
      exact hs.counted j n hr

/-- Bytes move in a call that has not returned. -/
theorem SideOk.move (hs : SideOk s) (hcalls : s.calls = j + 1) (hr : s.result j = none)
    (bs : List UInt8) : SideOk (s.move bs) where
  later := fun i hi => by
    rw [Side.move_calls] at hi
    rw [Side.move_chunk, if_neg (by omega)]
    exact hs.later i hi
  counted := fun i n hi => by
    have hne : i ≠ s.calls - 1 := by
      rintro rfl
      rw [Side.move_result, hcalls, Nat.add_sub_cancel, hr] at hi
      cases hi
    rw [Side.move_chunk, if_neg hne]
    exact hs.counted i n hi

theorem SideOk.finish (hs : SideOk s) {r : Except Errno Nat} (hcalls : s.calls = j + 1)
    (hr : ∀ n, r = .ok n → (s.chunk j).length = n) : SideOk (s.finish r) where
  later := fun i hi => by
    rw [Side.finish_calls] at hi
    rw [Side.finish_result, if_neg (by omega)]
    exact hs.later i hi
  counted := fun i n hi => by
    rw [Side.finish_result] at hi
    rw [Side.finish_chunk]
    split at hi
    · rename_i hij
      cases hi
      rw [hij, hcalls, Nat.add_sub_cancel]
      exact hr n rfl
    · exact hs.counted i n hi

/-! ## The protocol -/

/-- A party between two calls: all its calls have returned, and the rest of the messages
    is left. -/
structure Rest (msgs : List (List UInt8)) (s : Side) (todo : List (List UInt8)) : Prop where
  todo : todo = msgs.drop s.calls
  returned : ∀ j, j < s.calls → ∃ r, s.result j = some r

/-- What a party may count on: nobody else touches its history and its memory. -/
structure Rely (msgs : List (List UInt8)) (t : Nat) (k k' : Stream) : Prop where
  writer : t = 0 → k'.writer = k.writer
  reader : t = 1 → k'.reader = k.reader
  flow : Flow msgs k → Flow msgs k'

/-- What it promises. -/
structure Guar (msgs : List (List UInt8)) (t : Nat) (k k' : Stream) : Prop where
  writer : t ≠ 0 → k'.writer = k.writer
  reader : t ≠ 1 → k'.reader = k.reader
  flow : Flow msgs k'

/-- Between two calls of party `t`. -/
def Idle (msgs : List (List UInt8)) (t : Nat) (s : IoSt) (k : Stream) : Prop :=
  (t = 0 → Flow msgs k ∧ Rest msgs k.writer s.todo) ∧
    (t = 1 → Flow msgs k ∧ Rest msgs k.reader s.todo)

theorem Rely.refl (t : Nat) (k : Stream) : Rely msgs t k k := ⟨fun _ => rfl, fun _ => rfl, id⟩

theorem Guar.rely {u : Nat} (hg : Guar msgs t k k') (hu : t ≠ u) : Rely msgs u k k' :=
  ⟨fun h0 => hg.writer (by omega), fun h1 => hg.reader (by omega), fun _ => hg.flow⟩

theorem Guar.same (hf : Flow msgs k) : Guar msgs t k k := ⟨fun _ => rfl, fun _ => rfl, hf⟩

/-- A call starts on a clean history. -/
theorem Flow.enter {s : IoSt} {c : IoCall} (hf : Flow msgs k) (hi : Idle msgs t s k)
    (he : c.enabled t s = true) : Guar msgs t k (k.enter t c) := by
  cases c with
  | write data msg type =>
    obtain ⟨rfl, hmsg⟩ := of_decide_eq_true he
    obtain ⟨-, hrest⟩ := hi.1 rfl
    refine ⟨fun h => absurd rfl h, fun _ => rfl, ?_⟩
    rw [hrest.todo, List.head?_drop] at hmsg
    exact
      { writer := hf.writer.start ..
        reader := hf.reader
        bytes := by rw [Stream.enter, Side.total_start]; exact hf.bytes
        handed := fun j hj => by
          change j < k.writer.calls + 1 at hj
          rw [Stream.enter, Side.start_chunk]
          split
          · rename_i h
            exact ⟨msg, h ▸ hmsg, List.nil_prefix⟩
          · exact hf.handed j (by omega)
        asked := hf.asked
        stored := hf.stored }
  | read data size =>
    obtain ⟨rfl, hsize⟩ := of_decide_eq_true he
    obtain ⟨-, hrest⟩ := hi.2 rfl
    refine ⟨fun _ => rfl, fun h => absurd rfl h, ?_⟩
    rw [hrest.todo, List.head?_drop] at hsize
    -- the reader's call is for the next message, too, and has no bytes of it yet
    obtain ⟨msg, hmsg, -⟩ := Option.map_eq_some_iff.1 hsize
    exact
      { writer := hf.writer
        reader := hf.reader.start ..
        bytes := by rw [Stream.enter, Side.total_start]; exact hf.bytes
        handed := hf.handed
        asked := fun j hj => by
          change j < k.reader.calls + 1 at hj
          rw [Stream.enter, Side.start_chunk]
          split
          · rename_i h
            exact ⟨msg, h ▸ hmsg, Nat.zero_le _⟩
          · exact hf.asked j (by omega)
        stored := by
          change k.reader.mem = splice k.reader.mem data
            ((k.reader.start data k.reader.mem).chunk (k.reader.calls + 1 - 1))
          rw [Side.start_chunk, if_pos (Nat.add_sub_cancel ..), splice_nil] }

theorem leave_other {r : Except Errno Nat} : (t ≠ 0 → (k.leave t r).writer = k.writer) ∧
    (t ≠ 1 → (k.leave t r).reader = k.reader) := by
  match t with
  | 0 => exact ⟨fun h => absurd rfl h, fun _ => rfl⟩
  | 1 => exact ⟨fun _ => rfl, fun h => absurd rfl h⟩
  | _ + 2 => exact ⟨fun _ => rfl, fun _ => rfl⟩

/-- A party that is idle knows the invariant. -/
theorem Idle.flow {s : IoSt} {r : Except Errno Nat} (hf : Flow msgs k)
    (hi : Idle msgs t s (k.leave t r)) : Flow msgs (k.leave t r) := by
  match t with
  | 0 => exact (hi.1 rfl).1
  | 1 => exact (hi.2 rfl).1
  | _ + 2 => exact hf

/-- The protocol of the two parties. -/
def ioProtocol (wfd rfd : Int) (msgs : List (List UInt8)) :
    System.Protocol (System.Policy.free (streamSystem wfd rfd)) where
  rely := Rely msgs
  guar := fun t _ k _ k' => Guar msgs t k k'
  rely_refl := Rely.refl
  rely_trans := fun h₁ h₂ => ⟨fun h => (h₂.writer h).trans (h₁.writer h),
    fun h => (h₂.reader h).trans (h₁.reader h), fun h => h₂.flow (h₁.flow h)⟩
  inv := Flow msgs
  idle := Idle msgs
  guar_rely := fun hs hg => hg.rely hs
  guar_inv := fun hg => hg.flow
  idle_stable := fun _ hr hi =>
    ⟨fun h => ⟨hr.flow (hi.1 h).1, by rw [hr.writer h]; exact (hi.1 h).2⟩,
    fun h => ⟨hr.flow (hi.2 h).1, by rw [hr.reader h]; exact (hi.2 h).2⟩⟩
  enter_inv := fun hf hi he => (hf.enter hi he).flow
  enter_rely := fun hu hf hi he => (hf.enter hi he).rely hu
  leave_inv := fun hf hi => Idle.flow hf hi
  leave_rely := fun hu hf hi => ⟨fun h => leave_other.1 (by omega),
    fun h => leave_other.2 (by omega), fun _ => Idle.flow hf hi⟩
  die_inv := fun hf => hf
  die_rely := fun {_ u k} _ _ => Rely.refl u k
  spawn_inv := fun {b} => b.elim
  spawn_rely := fun {b} => b.elim
  spawn_idle := fun {b} => b.elim

/-- What party `t` sees of the other. -/
abbrev view (wfd rfd : Int) (msgs : List (List UInt8)) (t : Nat) : Env sys Stream :=
  (ioProtocol wfd rfd msgs).env t

variable {α : Type}

/-- One operation at the end of a program. -/
theorem triple_last {o : Sys} {P : Stream → Prop} {Q : o.Resp → Stream → Prop}
    (hst : (view wfd rfd msgs t).Stable P) (hQ : ∀ r, (view wfd rfd msgs t).Stable (Q r))
    (hop : ∀ ch k r k', P k → Stream.exec wfd rfd ch t o k = some (r, k') →
      Guar msgs t k k' ∧ Q r k') : (view wfd rfd msgs t).Triple P (call o) Q :=
  Env.Triple.last hst hQ fun k r k' hk ⟨ch, _, he⟩ => hop ch k r k' hk he

/-- An assertion that fails never returns. -/
theorem assert_then {P : Stream → Prop} {Q : α → Stream → Prop} {b : Bool}
    {expr func : String} {g : Unit → C α} (hst : (view wfd rfd msgs t).Stable P)
    (hf : ∀ k, P k → Flow msgs k) (hg : (view wfd rfd msgs t).Triple P (g ()) Q) :
    (view wfd rfd msgs t).Triple P (avAssert b expr func >>= g) Q := by
  have hassert : (view wfd rfd msgs t).Triple P (avAssert b expr func) fun _ => P := by
    cases b with
    | true => exact Env.Triple.ret hst fun _ hk => hk
    | false =>
      refine Env.Triple.op (M := fun _ => P) hst ?_ fun _ =>
        Env.Triple.op (M := fun _ => P) hst ?_ fun e => e.elim
      · rintro k r k' hk ⟨ch, -, he⟩
        cases he
        exact ⟨.same (hf k hk), hk⟩
      · exact fun k r => r.elim
  exact hassert.bind fun _ => hg

/-! ## The writer -/

/-- In call `j` of the writer, after `ret` bytes of its message. -/
structure Writing (msgs : List (List UInt8)) (j data : Nat) (msg : List UInt8) (ret : Nat)
    (k : Stream) : Prop where
  flow : Flow msgs k
  calls : k.writer.calls = j + 1
  message : msgs[j]? = some msg
  pending : k.writer.result j = none
  older : ∀ i, i < j → ∃ r, k.writer.result i = some r
  buffer : window k.writer.mem data msg.length = msg
  chunk : k.writer.chunk j = msg.take ret
  le : ret ≤ msg.length

/-- After one transfer of the writer. -/
def Wrote (msgs : List (List UInt8)) (j data : Nat) (msg : List UInt8) (ret : Nat) :
    Except Errno Nat → Stream → Prop
  | .error _, k => Writing msgs j data msg ret k
  | .ok n, k => Writing msgs j data msg (ret + n) k

variable {data ret : Nat} {msg : List UInt8}

theorem Writing.stable : (view wfd rfd msgs 0).Stable (Writing msgs j data msg ret) := by
  intro k k' hr hk
  have hw : k'.writer = k.writer := hr.writer rfl
  exact ⟨hr.flow hk.flow, by rw [hw]; exact hk.calls, hk.message, by rw [hw]; exact hk.pending,
    by rw [hw]; exact hk.older, by rw [hw]; exact hk.buffer, by rw [hw]; exact hk.chunk, hk.le⟩

theorem Wrote.stable (r : Except Errno Nat) :
    (view wfd rfd msgs 0).Stable (Wrote msgs j data msg ret r) := by
  cases r with
  | error e => exact Writing.stable
  | ok n => exact Writing.stable

/-- The kernel takes the next bytes of the message. -/
theorem Writing.push {ch : Transfer} {r : Except Errno Nat} (hk : Writing msgs j data msg ret k)
    (he : Stream.push ch (data + ret) (msg.length - ret) k = some (r, k')) :
    Guar msgs 0 k k' ∧ Wrote msgs j data msg ret r k' := by
  cases ch with
  | fail e =>
    cases he
    exact ⟨.same hk.flow, hk⟩
  | count n =>
    simp only [Stream.push] at he
    split at he
    · rename_i hn
      cases he
      have hle := hk.le
      -- the bytes taken are the next ones of the message
      have hbs : window k.writer.mem (data + ret) n = (msg.drop ret).take n :=
        window_drop_take (by omega) hk.buffer
      have hcur : k.writer.calls - 1 = j := by rw [hk.calls, Nat.add_sub_cancel]
      have hchunk : (k.writer.move (window k.writer.mem (data + ret) n)).chunk j =
          msg.take (ret + n) := by
        rw [Side.move_chunk, hcur, if_pos rfl, hk.chunk, hbs, List.take_add]
      have hflow : Flow msgs { k with
          queue := k.queue ++ window k.writer.mem (data + ret) n
          writer := k.writer.move (window k.writer.mem (data + ret) n) } :=
        { writer := hk.flow.writer.move hk.calls hk.pending _
          reader := hk.flow.reader
          bytes := by
            change k.reader.total ++ (k.queue ++ _) = (k.writer.move _).total
            rw [Side.total_move (by rw [hk.calls]; exact Nat.succ_pos j), ← hk.flow.bytes,
              List.append_assoc]
          handed := fun i hi => by
            by_cases hij : i = j
            · subst hij
              exact ⟨msg, hk.message, hchunk ▸ List.take_prefix ..⟩
            · change ∃ msg, _ ∧ (k.writer.move _).chunk i <+: msg
              rw [Side.move_chunk, hcur, if_neg hij]
              exact hk.flow.handed i hi
          asked := hk.flow.asked
          stored := hk.flow.stored }
      refine ⟨⟨fun h => absurd rfl h, fun _ => rfl, hflow⟩, ?_⟩
      exact ⟨hflow, hk.calls, hk.message, hk.pending, hk.older, hk.buffer, hchunk, by omega⟩
    · cases he

theorem avWrite_triple (fd : Int) (type : Option Int) :
    (view wfd rfd msgs 0).Triple (Writing msgs j data msg ret)
      (avWrite fd (data + ret) (msg.length - ret) type) fun x => Wrote msgs j data msg ret x.1 := by
  -- `send` first, and `write` where the descriptor is not a socket
  have hsend : (view wfd rfd msgs 0).Triple (Writing msgs j data msg ret)
      (avWriteSend fd (data + ret) (msg.length - ret)) (Wrote msgs j data msg ret) := by
    refine (eintrLoop_triple Wrote.stable (triple_last Writing.stable Wrote.stable ?_)
      fun _ hk => hk).post fun _ _ hk => hk.2
    intro ch k r k' hk he
    simp only [Stream.exec] at he
    split at he
    · exact hk.push he
    · cases he
  have hwrite : (view wfd rfd msgs 0).Triple (Writing msgs j data msg ret)
      (avWriteWrite fd (data + ret) (msg.length - ret)) (Wrote msgs j data msg ret) := by
    refine (eintrLoop_triple Wrote.stable (triple_last Writing.stable Wrote.stable ?_)
      fun _ hk => hk).post fun _ _ hk => hk.2
    intro ch k r k' hk he
    simp only [Stream.exec] at he
    split at he
    · exact hk.push he
    · cases he
  unfold avWrite
  split
  · refine hsend.bind fun r => ?_
    cases r with
    | ok n => exact Env.Triple.ret (Wrote.stable _) fun k hk => hk
    | error e =>
      dsimp only
      split
      · exact Env.Triple.ret (Wrote.stable _) fun k hk => hk
      · exact hwrite.bind fun r => Env.Triple.ret (Wrote.stable _) fun k hk => hk
  · exact hwrite.bind fun r => Env.Triple.ret (Wrote.stable _) fun k hk => hk

/-- A call of the writer returns how much of its message it handed over. -/
def Handed (msgs : List (List UInt8)) (j data : Nat) (msg : List UInt8) (r : Except Errno Nat)
    (k : Stream) : Prop :=
  ∃ ret, Writing msgs j data msg ret k ∧ ∀ n, r = .ok n → n = ret

theorem Handed.stable (r : Except Errno Nat) :
    (view wfd rfd msgs 0).Stable (Handed msgs j data msg r) := by
  rintro k k' hr ⟨ret, hk, hn⟩
  exact ⟨ret, Writing.stable k k' hr hk, hn⟩

theorem avLoopWrite_triple (fd : Int) (type : Option Int) :
    (view wfd rfd msgs 0).Triple (Writing msgs j data msg 0) (avLoopWrite fd data msg.length type)
      fun x => Handed msgs j data msg x.1 := by
  refine assert_then Writing.stable (fun _ hk => hk.flow) (assert_then Writing.stable
    (fun _ hk => hk.flow) (assert_then Writing.stable (fun _ hk => hk.flow) ?_))
  -- the pointer and the remaining count go with the result
  refine (Env.Triple.iter (I := fun (s : Nat × Nat × Nat × Option Int) k =>
    (s.2.1 = data + s.1 ∧ s.2.2.1 = msg.length - s.1) ∧ Writing msgs j data msg s.1 k)
    (fun s => ?_) (fun (x : Except Errno Nat × Option Int) => Handed.stable x.1) _).pre
      fun k hk => ⟨⟨rfl, rfl⟩, hk⟩
  obtain ⟨ret, p, l, flag⟩ := s
  refine Env.Triple.assume (fun k hk => hk.1) fun hpl => Env.Triple.pre ?_ fun k hk => hk.2
  obtain ⟨rfl, rfl⟩ : p = data + ret ∧ l = msg.length - ret := hpl
  dsimp only
  split
  · refine (avWrite_triple fd flag).bind fun x => ?_
    obtain ⟨r, flag⟩ := x
    cases r with
    | error e => exact Env.Triple.ret Writing.stable fun k hk => ⟨ret, hk, nofun⟩
    | ok n =>
      dsimp only
      split
      · rename_i h0
        subst h0
        exact Env.Triple.ret Writing.stable fun k hk => ⟨ret, hk, by rintro _ ⟨⟩; rfl⟩
      · exact Env.Triple.ret Writing.stable fun k hk =>
          ⟨⟨Nat.add_assoc .., Nat.sub_sub ..⟩, hk⟩
  · exact Env.Triple.ret Writing.stable fun k hk => ⟨ret, hk, by rintro _ ⟨⟩; rfl⟩

/-! ## The reader -/

/-- In call `j` of the reader for `size` bytes, after `ret` of them. -/
structure Reading (msgs : List (List UInt8)) (j data size ret : Nat) (k : Stream) : Prop where
  flow : Flow msgs k
  calls : k.reader.calls = j + 1
  message : ∃ msg, msgs[j]? = some msg ∧ msg.length = size
  pending : k.reader.result j = none
  older : ∀ i, i < j → ∃ r, k.reader.result i = some r
  buf : k.reader.buf = data
  chunk : (k.reader.chunk j).length = ret
  le : ret ≤ size

/-- After one transfer of the reader. -/
def ReadOn (msgs : List (List UInt8)) (j data size ret : Nat) : Except Errno Nat → Stream → Prop
  | .error _, k => Reading msgs j data size ret k
  | .ok n, k => Reading msgs j data size (ret + n) k

variable {size : Nat}

theorem Reading.stable : (view wfd rfd msgs 1).Stable (Reading msgs j data size ret) := by
  intro k k' hr hk
  have hw : k'.reader = k.reader := hr.reader rfl
  exact ⟨hr.flow hk.flow, by rw [hw]; exact hk.calls, hk.message, by rw [hw]; exact hk.pending,
    by rw [hw]; exact hk.older, by rw [hw]; exact hk.buf, by rw [hw]; exact hk.chunk, hk.le⟩

theorem ReadOn.stable (r : Except Errno Nat) :
    (view wfd rfd msgs 1).Stable (ReadOn msgs j data size ret r) := by
  cases r with
  | error e => exact Reading.stable
  | ok n => exact Reading.stable

/-- The next `n` bytes of the stream, stored behind those of call `j` so far. -/
theorem Flow.pull {n : Nat} (hf : Flow msgs k) (hcalls : k.reader.calls = j + 1)
    (hpending : k.reader.result j = none) (hmsg : msgs[j]? = some msg)
    (hroom : (k.reader.chunk j).length + n ≤ msg.length)
    (hs : s = { k.reader with
      mem := splice k.reader.mem (k.reader.buf + (k.reader.chunk j).length) (k.queue.take n) }) :
    Flow msgs { k with queue := k.queue.drop n, reader := s.move (k.queue.take n) } := by
  have hcur : k.reader.calls - 1 = j := by rw [hcalls, Nat.add_sub_cancel]
  have hchunk : s.chunk = k.reader.chunk := by rw [hs]
  have hcalls' : s.calls = j + 1 := by rw [hs]; exact hcalls
  have hside : SideOk s := by
    rw [hs]
    exact ⟨hf.reader.later, hf.reader.counted⟩
  have hresult : s.result j = none := by rw [hs]; exact hpending
  have htotal : s.total = k.reader.total := by rw [hs]; rfl
  have hmove : ∀ i, (s.move (k.queue.take n)).chunk i =
      if i = j then k.reader.chunk j ++ k.queue.take n else k.reader.chunk i := by
    intro i
    rw [Side.move_chunk, hcalls', Nat.add_sub_cancel, hchunk]
  exact
    { writer := hf.writer
      reader := hside.move hcalls' hresult _
      bytes := by
        -- what leaves the stream joins what is stored
        change (s.move _).total ++ k.queue.drop n = _
        rw [Side.total_move (by rw [hcalls']; exact Nat.succ_pos j), htotal, List.append_assoc,
          List.take_append_drop]
        exact hf.bytes
      handed := hf.handed
      asked := fun i hi => by
        change ∃ msg, _ ∧ ((s.move _).chunk i).length ≤ _
        rw [hmove]
        split
        · rename_i hij
          refine ⟨msg, hij ▸ hmsg, ?_⟩
          rw [List.length_append, List.length_take]
          omega
        · refine hf.asked i ?_
          rw [hcalls]
          rw [← hcalls']
          exact hi
      stored := by
        -- two stores side by side are one store of both
        change s.mem = splice s.before s.buf ((s.move _).chunk (s.calls - 1))
        rw [hmove, hcalls', Nat.add_sub_cancel, if_pos rfl, ← splice_splice, hs]
        change splice k.reader.mem _ _ = splice (splice k.reader.before k.reader.buf _) _ _
        have hstored := hf.stored
        rw [hcur] at hstored
        rw [← hstored] }

/-- The kernel stores the next bytes of the stream behind those stored before. -/
theorem Reading.pull {ch : Transfer} {r : Except Errno Nat} (hk : Reading msgs j data size ret k)
    (he : Stream.pull ch (data + ret) (size - ret) k = some (r, k')) :
    Guar msgs 1 k k' ∧ ReadOn msgs j data size ret r k' := by
  cases ch with
  | fail e =>
    cases he
    exact ⟨.same hk.flow, hk⟩
  | count n =>
    simp only [Stream.pull] at he
    split at he
    · rename_i hn
      cases he
      obtain ⟨msg, hmsg, hsize⟩ := hk.message
      have hle := hk.le
      have hlen : (k.queue.take n).length = n := by rw [List.length_take]; omega
      have hflow := hk.flow.pull (n := n) hk.calls hk.pending hmsg
        (by rw [hk.chunk, hsize]; omega) rfl
      rw [hk.buf, hk.chunk] at hflow
      refine ⟨⟨fun _ => rfl, fun h => absurd rfl h, hflow⟩, ?_⟩
      refine ⟨hflow, hk.calls, hk.message, hk.pending, hk.older, hk.buf, ?_, by omega⟩
      have hcur : k.reader.calls - 1 = j := by rw [hk.calls, Nat.add_sub_cancel]
      rw [Side.move_chunk]
      dsimp only
      rw [hcur, if_pos rfl, List.length_append, hk.chunk, hlen]
    · cases he

theorem avRead_triple (fd : Int) : (view wfd rfd msgs 1).Triple (Reading msgs j data size ret)
    (avRead fd (data + ret) (size - ret)) (ReadOn msgs j data size ret) := by
  refine (eintrLoop_triple ReadOn.stable (triple_last Reading.stable ReadOn.stable ?_)
    fun _ hk => hk).post fun _ _ hk => hk.2
  intro ch k r k' hk he
  simp only [Stream.exec] at he
  split at he
  · exact hk.pull he
  · cases he

/-- A call of the reader returns how many bytes it stored. -/
def Got (msgs : List (List UInt8)) (j data size : Nat) (r : Except Errno Nat) (k : Stream) : Prop :=
  ∃ ret, Reading msgs j data size ret k ∧ ∀ n, r = .ok n → n = ret

theorem Got.stable (r : Except Errno Nat) :
    (view wfd rfd msgs 1).Stable (Got msgs j data size r) := by
  rintro k k' hr ⟨ret, hk, hn⟩
  exact ⟨ret, Reading.stable k k' hr hk, hn⟩

theorem avLoopRead_triple (fd : Int) :
    (view wfd rfd msgs 1).Triple (Reading msgs j data size 0) (avLoopRead fd data size)
      (Got msgs j data size) := by
  refine assert_then Reading.stable (fun _ hk => hk.flow) (assert_then Reading.stable
    (fun _ hk => hk.flow) (assert_then Reading.stable (fun _ hk => hk.flow) ?_))
  refine (Env.Triple.iter (I := fun (s : Nat × Nat × Nat) k =>
    (s.2.1 = data + s.1 ∧ s.2.2 = size - s.1) ∧ Reading msgs j data size s.1 k)
    (fun s => ?_) Got.stable _).pre fun k hk => ⟨⟨rfl, rfl⟩, hk⟩
  obtain ⟨ret, p, l⟩ := s
  refine Env.Triple.assume (fun k hk => hk.1) fun hpl => Env.Triple.pre ?_ fun k hk => hk.2
  obtain ⟨rfl, rfl⟩ : p = data + ret ∧ l = size - ret := hpl
  dsimp only
  split
  · refine (avRead_triple fd).bind fun r => ?_
    cases r with
    | error e => exact Env.Triple.ret Reading.stable fun k hk => ⟨ret, hk, nofun⟩
    | ok n =>
      dsimp only
      split
      · rename_i h0
        subst h0
        exact Env.Triple.ret Reading.stable fun k hk => ⟨ret, hk, by rintro _ ⟨⟩; rfl⟩
      · exact Env.Triple.ret Reading.stable fun k hk =>
          ⟨⟨Nat.add_assoc .., Nat.sub_sub ..⟩, hk⟩
  · exact Env.Triple.ret Reading.stable fun k hk => ⟨ret, hk, by rintro _ ⟨⟩; rfl⟩

/-! ## Every run -/

theorem Writing.enter {s : IoSt} (type : Option Int) (hf : Flow msgs k) (hi : Idle msgs 0 s k)
    (he : (IoCall.write data msg type).enabled 0 s = true) :
    Writing msgs k.writer.calls data msg 0 (k.enter 0 (.write data msg type)) := by
  obtain ⟨-, hmsg⟩ := of_decide_eq_true he
  obtain ⟨-, hrest⟩ := hi.1 rfl
  rw [hrest.todo, List.head?_drop] at hmsg
  refine ⟨(hf.enter hi he).flow, rfl, hmsg, ?_, fun i hi => ?_, window_splice, ?_,
    Nat.zero_le _⟩
  · exact (Side.start_result ..).trans (if_pos rfl)
  · exact (hrest.returned i hi).imp fun r hr =>
      (Side.start_result ..).trans ((if_neg hi.ne).trans hr)
  · exact (Side.start_chunk ..).trans (if_pos rfl)

theorem Reading.enter {s : IoSt} (hf : Flow msgs k) (hi : Idle msgs 1 s k)
    (he : (IoCall.read data size).enabled 1 s = true) :
    Reading msgs k.reader.calls data size 0 (k.enter 1 (.read data size)) := by
  obtain ⟨-, hsize⟩ := of_decide_eq_true he
  obtain ⟨-, hrest⟩ := hi.2 rfl
  rw [hrest.todo, List.head?_drop, Option.map_eq_some_iff] at hsize
  refine ⟨(hf.enter hi he).flow, rfl, hsize, ?_, fun i hi => ?_, rfl, ?_, Nat.zero_le _⟩
  · exact (Side.start_result ..).trans (if_pos rfl)
  · exact (hrest.returned i hi).imp fun r hr =>
      (Side.start_result ..).trans ((if_neg hi.ne).trans hr)
  · exact congrArg List.length ((Side.start_chunk ..).trans (if_pos rfl))

/-- All calls have returned once the latest has. -/
theorem Rest.finish {todo : List (List UInt8)} {r : Except Errno Nat} (hcalls : s.calls = j + 1)
    (htodo : todo = msgs.drop j) (holder : ∀ i, i < j → ∃ r, s.result i = some r) :
    Rest msgs (s.finish r) todo.tail := by
  refine ⟨?_, fun i hi => ?_⟩
  · rw [htodo, List.tail_drop, Side.finish_calls, hcalls]
  · rw [Side.finish_calls, hcalls] at hi
    rw [Side.finish_result, hcalls, Nat.add_sub_cancel]
    split
    · exact ⟨r, rfl⟩
    · exact holder i (by omega)

theorem Handed.leave {s : IoSt} {r : Except Errno Nat} (hk : Handed msgs j data msg r k)
    (htodo : s.todo = msgs.drop j) : Idle msgs 0 ⟨s.todo.tail⟩ (k.leave 0 r) := by
  obtain ⟨ret, hk, hr⟩ := hk
  refine ⟨fun _ => ⟨?_, .finish hk.calls htodo hk.older⟩, nofun⟩
  have hlen : ∀ n, r = .ok n → (k.writer.chunk j).length = n := by
    intro n hn
    rw [hk.chunk, hr n hn, List.length_take, Nat.min_eq_left hk.le]
  exact ⟨hk.flow.writer.finish hk.calls hlen, hk.flow.reader, hk.flow.bytes, hk.flow.handed,
    hk.flow.asked, hk.flow.stored⟩

theorem Got.leave {s : IoSt} {r : Except Errno Nat} (hk : Got msgs j data size r k)
    (htodo : s.todo = msgs.drop j) : Idle msgs 1 ⟨s.todo.tail⟩ (k.leave 1 r) := by
  obtain ⟨ret, hk, hr⟩ := hk
  refine ⟨nofun, fun _ => ⟨?_, .finish hk.calls htodo hk.older⟩⟩
  have hlen : ∀ n, r = .ok n → (k.reader.chunk j).length = n :=
    fun n hn => hk.chunk.trans (hr n hn).symm
  exact ⟨hk.flow.writer, hk.flow.reader.finish hk.calls hlen, hk.flow.bytes, hk.flow.handed,
    hk.flow.asked, hk.flow.stored⟩

/-- Both loops keep the protocol. -/
theorem io_verified (wfd rfd : Int) (msgs : List (List UInt8)) :
    (ioProtocol wfd rfd msgs).Verified := by
  intro t s c he
  refine Env.Triple.exists fun k₀ => Env.Triple.assume (fun k hk => And.intro hk.1 hk.2.1)
    fun hφ => ?_
  obtain ⟨hf, hi⟩ : Flow msgs k₀ ∧ Idle msgs t s k₀ := hφ
  cases c with
  | write data msg type =>
    obtain ⟨rfl, -⟩ := of_decide_eq_true he
    have hin : ∀ k, Flow msgs k₀ ∧ Idle msgs 0 s k₀ ∧
        k = k₀.enter 0 (.write data msg type) →
        Writing msgs k₀.writer.calls data msg 0 k := by
      rintro _ ⟨-, -, rfl⟩
      exact .enter type hf hi he
    refine Env.Triple.pre ?_ hin
    refine (avLoopWrite_triple wfd type).bind fun x => Env.Triple.ret (Handed.stable x.1)
      fun k hk => ?_
    exact hk.leave (hi.1 rfl).2.todo
  | read data size =>
    obtain ⟨rfl, -⟩ := of_decide_eq_true he
    have hin : ∀ k, Flow msgs k₀ ∧ Idle msgs 1 s k₀ ∧
        k = k₀.enter 1 (.read data size) → Reading msgs k₀.reader.calls data size 0 k := by
      rintro _ ⟨-, -, rfl⟩
      exact .enter hf hi he
    refine Env.Triple.conseq (avLoopRead_triple rfd) hin ?_
    exact fun r k hk => hk.leave (hi.2 rfl).2.todo

theorem start_ok (wfd rfd : Int) (cap : Nat) (socket : Bool) (wmem rmem : Bytes)
    (msgs : List (List UInt8)) :
    (ioProtocol wfd rfd msgs).Ok (streamStart wfd rfd cap socket wmem rmem msgs) := by
  have hf : Flow msgs (streamStart wfd rfd cap socket wmem rmem msgs).k :=
    ⟨.fresh _, .fresh _, rfl, fun _ hj => absurd hj (Nat.not_lt_zero _),
      fun _ hj => absurd hj (Nat.not_lt_zero _), splice_nil.symm⟩
  refine ⟨hf, fun t => ?_⟩
  by_cases ht : t < 2
  · have hth : (streamStart wfd rfd cap socket wmem rmem msgs).th t = .idle (⟨msgs⟩ : IoSt) :=
      if_pos ht
    rw [hth]
    exact ⟨fun _ => ⟨hf, rfl, fun _ hj => absurd hj (Nat.not_lt_zero _)⟩,
      fun _ => ⟨hf, rfl, fun _ hj => absurd hj (Nat.not_lt_zero _)⟩⟩
  · have hth : (streamStart wfd rfd cap socket wmem rmem msgs).th t = .none := if_neg ht
    rw [hth]
    trivial

/-! ## Messages -/

/-- The bytes moved before call `j`, those it moved, and those after. -/
theorem total_split (hj : j < s.calls) : ∃ rest, (s.calls ≤ j + 1 → rest = []) ∧
    s.total = (List.range j).flatMap s.chunk ++ (s.chunk j ++ rest) := by
  obtain ⟨n, hn⟩ : ∃ n, s.calls = j + 1 + n := ⟨s.calls - (j + 1), by omega⟩
  refine ⟨((List.range n).map (j + 1 + ·)).flatMap s.chunk, fun hle => ?_, ?_⟩
  · obtain rfl : n = 0 := by omega
    rfl
  · rw [Side.total, hn, List.range_add, List.flatMap_append, List.range_succ, List.flatMap_append,
      List.flatMap_singleton, List.append_assoc]

theorem Full.lt (hs : SideOk s) (hfull : Full s msgs j) : j < s.calls := by
  obtain ⟨msg, -, hr⟩ := hfull
  by_contra hj
  rw [(hs.later j (Nat.le_of_not_lt hj)).2] at hr
  cases hr

theorem Full.length (hs : SideOk s) (hfull : Full s msgs j) (hmsg : msgs[j]? = some msg) :
    (s.chunk j).length = msg.length := by
  obtain ⟨msg', hmsg', hr⟩ := hfull
  rw [hmsg] at hmsg'
  cases hmsg'
  exact hs.counted j _ hr

/-- A call of the writer that returned the full length handed over its message. -/
theorem Flow.sent (hf : Flow msgs k) (hfull : Full k.writer msgs j) (hmsg : msgs[j]? = some msg) :
    k.writer.chunk j = msg := by
  obtain ⟨msg', hmsg', hpre⟩ := hf.handed j (hfull.lt hf.writer)
  rw [hmsg] at hmsg'
  cases hmsg'
  exact hpre.eq_of_length (hfull.length hf.writer hmsg)

/-- As long as all earlier calls were complete, message `j` arrives in call `j`. -/
theorem Flow.message (hf : Flow msgs k) (hmsg : msgs[j]? = some msg)
    (hfull : ∀ i, i < j → Full k.writer msgs i ∧ Full k.reader msgs i)
    (hlast : k.writer.calls ≤ j + 1 ∨ Full k.writer msgs j) : k.reader.chunk j <+: msg := by
  by_cases hj : j < k.reader.calls
  · obtain ⟨rest, -, hread⟩ := total_split hj
    -- the earlier messages take up as much room on both sides
    have hlen : ((List.range j).flatMap k.reader.chunk).length =
        ((List.range j).flatMap k.writer.chunk).length := by
      rw [List.length_flatMap, List.length_flatMap]
      refine congrArg List.sum (List.map_congr_left fun i hi => ?_)
      obtain ⟨hw, hr⟩ := hfull i (List.mem_range.1 hi)
      obtain ⟨msg', hmsg', -⟩ := hw
      exact (hr.length hf.reader hmsg').trans
        ((hfull i (List.mem_range.1 hi)).1.length hf.writer hmsg').symm
    have hbytes := hf.bytes
    rw [hread, List.append_assoc] at hbytes
    by_cases hw : j < k.writer.calls
    · obtain ⟨rest', hrest', hwrite⟩ := total_split hw
      rw [hwrite] at hbytes
      have htail := (List.append_inj hbytes hlen).2
      rw [List.append_assoc] at htail
      have hpre : k.reader.chunk j <+: k.writer.chunk j ++ rest' := htail ▸ List.prefix_append ..
      -- the writer is still at message `j`, or has sent all of it
      rcases hlast with hle | hfull'
      · rw [hrest' hle, List.append_nil] at hpre
        obtain ⟨msg', hmsg', hpre'⟩ := hf.handed j hw
        rw [hmsg] at hmsg'
        cases hmsg'
        exact hpre.trans hpre'
      · rw [hf.sent hfull' hmsg] at hpre
        obtain ⟨msg', hmsg', hle⟩ := hf.asked j hj
        rw [hmsg] at hmsg'
        cases hmsg'
        exact List.prefix_of_prefix_length_le hpre (List.prefix_append ..) hle
    · -- the writer has not come to message `j`, so nothing of it can have arrived
      have hcalls : k.writer.calls = j := by
        refine Nat.le_antisymm (Nat.le_of_not_lt hw) (Nat.le_of_not_lt fun hlt => ?_)
        exact absurd ((hfull _ hlt).1.lt hf.writer) (Nat.lt_irrefl _)
      have htotal : k.writer.total = (List.range j).flatMap k.writer.chunk ++ [] := by
        rw [Side.total, hcalls, List.append_nil]
      rw [htotal] at hbytes
      have htail := (List.append_inj hbytes hlen).2
      rw [List.append_assoc] at htail
      rw [(List.append_eq_nil_iff.1 htail).1]
      exact List.nil_prefix
  · rw [(hf.reader.later j (Nat.le_of_not_lt hj)).1]
    exact List.nil_prefix

end Io

open Interact Word Io

/-- **No byte is lost, doubled or reordered.**  At every moment of every run the bytes
    stored by the reader, followed by those in the stream, are the bytes handed over by
    the writer, call by call as `Flow` says.  As long as all earlier calls on both sides
    returned their full length, call `j` of the reader stores a prefix of message `j`, and
    all of it if it returns its full length. -/
theorem messages_kept {wfd rfd : Int} {cap : Nat} {socket : Bool} {wmem rmem : Bytes}
    {msgs : List (List UInt8)} {c : (streamSystem wfd rfd).Config}
    (hr : System.Reach (System.Policy.free _) (streamStart wfd rfd cap socket wmem rmem msgs) c) :
    Flow msgs c.k ∧ ∀ j msg, msgs[j]? = some msg →
      (∀ i, i < j → Full c.k.writer msgs i ∧ Full c.k.reader msgs i) →
      (c.k.writer.calls ≤ j + 1 ∨ Full c.k.writer msgs j) →
      c.k.reader.chunk j <+: msg ∧ (Full c.k.reader msgs j → c.k.reader.chunk j = msg) := by
  have hf : Flow msgs c.k :=
    (System.Protocol.Ok.reach (io_verified wfd rfd msgs) (start_ok ..) hr).1
  refine ⟨hf, fun j msg hmsg hfull hlast => ?_⟩
  have hpre := hf.message hmsg hfull hlast
  exact ⟨hpre, fun hf' => hpre.eq_of_length (hf'.length hf.reader hmsg)⟩

/-- Three bytes through a pipe that holds two, with an interruption. -/
def demoTransfer : List (streamSystem 4 5).Label :=
  [.start 0 (.write 16 [1, 2, 3] none), .op 0 (.fail .ENOTSOCK : Transfer),
    .op 0 (.count 2 : Transfer),
    .start 1 (.read 32 3), .op 1 (.fail .EINTR : Transfer), .op 1 (.count 1 : Transfer),
    .op 0 (.count 1 : Transfer), .finish 0, .op 1 (.count 2 : Transfer), .finish 1]

/-- They arrive. -/
theorem messages_kept_demo : ∃ c, System.Reach (System.Policy.free _)
    (streamStart 4 5 2 false (fun _ => 0) (fun _ => 0) [[1, 2, 3]]) c ∧
    Flow [[1, 2, 3]] c.k ∧ c.k.reader.chunk 0 = [1, 2, 3] := by
  obtain ⟨c, hc, hp⟩ := (Option.any_eq_true _ _).1 (show
    ((System.steps (fun _ _ => true) (streamStart 4 5 2 false (fun _ => 0) (fun _ => 0) [[1, 2, 3]])
      demoTransfer).any fun c =>
        decide (c.k.writer.calls = 1) && decide (c.k.reader.result 0 = some (.ok 3))) = true
    by decide +kernel)
  rw [Bool.and_eq_true] at hp
  have hr := System.reach_of_steps (fun c l _ => System.Policy.allows_free c l) hc
  obtain ⟨hf, hmsg⟩ := messages_kept hr
  have hcalls : c.k.writer.calls ≤ 0 + 1 := (of_decide_eq_true hp.1).le
  exact ⟨c, hr, hf, (hmsg 0 [1, 2, 3] rfl nofun (.inl hcalls)).2
    ⟨[1, 2, 3], rfl, of_decide_eq_true hp.2⟩⟩

end AnekVideo
