/-
  AnekVideo.Io.Entropy

  `av_random` against every outcome of the system calls on its two devices.

  The state remembers which addresses were written, what each opened device has
  delivered and what `rand` has returned, so that the buffer can be compared with
  its source.  A close counts once it is not interrupted: each `av_close` ends
  with exactly one such attempt.  `signals` counts the interruptions still to
  come.
-/
import AnekVideo.Arith.Buffer
import AnekVideo.Random

namespace AnekVideo
namespace Entropy

open Interact Word

/-! ## The system -/

/-- A device that was opened, and the bytes it has delivered. -/
structure Source where
  fd : Int
  bytes : List UInt8

/-- The memory and the addresses written; the devices opened and the descriptors passed to
    `av_close`, the latest first; the values of `rand` in order. -/
structure State where
  mem : Bytes
  written : Nat → Bool
  served : List Source
  current : Option Int
  closed : List Int
  rands : List UInt32
  hasWhined : Bool
  signals : Nat

/-- Settles what is free. -/
inductive Choice
  | done
  | fail (e : Errno)
  | fd (n : Nat)
  | bytes (bs : List UInt8)
  | word (r : UInt32)

namespace State

/-- The bytes `bs` are stored at `a`. -/
def store (k : State) (a : Nat) (bs : List UInt8) : State :=
  { k with
    mem := splice k.mem a bs
    written := fun i => k.written i || decide (a ≤ i ∧ i < a + bs.length) }

/-- The open device delivers `bs` to `a`. -/
def deliver (k : State) (a : Nat) (bs : List UInt8) : State :=
  { k.store a bs with
    served := k.served.modifyHead fun s => { s with bytes := s.bytes ++ bs } }

/-- An `av_close` has come to its end. -/
def finish (k : State) (fd : Int) : State := { k with closed := fd :: k.closed, current := none }

end State

/-- A failure; a signal is used up by it. -/
def failure {α : Type} (e : Errno) (k k' : State) : Option (Except Errno α × State) :=
  if e = .EINTR then
    if k.signals = 0 then none else some (.error .EINTR, { k with signals := k.signals - 1 })
  else some (.error e, k')

/-- One operation. -/
def exec (ch : Choice) : (o : Sys) → State → Option (o.Resp × State)
  | .log _ _ _, k => some ((), k)
  | .open _, k =>
    match ch with
    | .fd n => some (.ok n, { k with served := ⟨n, []⟩ :: k.served, current := some n })
    | .fail e => some (.error e, k)
    | _ => none
  | .read fd buf count, k =>
    match ch with
    | .bytes bs =>
      if k.current = some fd ∧ bs.length ≤ count then some (.ok bs.length, k.deliver buf bs)
      else none
    | .fail e => failure e k k
    | _ => none
  | .close fd, k =>
    match ch with
    | .done => some (.ok (), k.finish fd)
    | .fail e => failure e k (k.finish fd)
    | _ => none
  | .rand, k =>
    match ch with
    | .word r => some (r, { k with rands := k.rands ++ [r] })
    | _ => none
  | .store8 a b, k => some ((), k.store a [b])
  | .getHasWhined, k => some (k.hasWhined, k)
  | .setHasWhined b, k => some ((), { k with hasWhined := b })
  | _, _ => none

def sem : OpSem sys State := fun o k r k' => ∃ ch, exec ch o k = some (r, k')

/-- Before the call. -/
def start (mem : Bytes) (hasWhined : Bool) (signals : Nat) : State where
  mem := mem
  written := fun _ => false
  served := []
  current := none
  closed := []
  rands := []
  hasWhined := hasWhined
  signals := signals

/-! ## What the call should do -/

variable {k k' : State} {mem : Bytes} {buf length : Nat}

/-- The low byte of what `rand` returns. -/
def low (r : UInt32) : UInt8 := UInt8.ofNat r.toNat

/-- Nothing outside of the buffer is touched, and each descriptor opened was passed to `av_close`
    once. -/
structure Tidy (mem : Bytes) (buf length : Nat) (k : State) : Prop where
  closed : k.closed = k.served.map Source.fd
  outside : ∀ a, a < buf ∨ buf + length ≤ a → k.written a = false ∧ k.mem a = mem a

/-- The whole buffer was written and holds the first bytes of one device. -/
structure FromDevice (buf length : Nat) (k : State) : Prop where
  written : ∀ i, i < length → k.written (buf + i) = true
  source : ∃ s, s ∈ k.served ∧ length ≤ s.bytes.length ∧
    window k.mem buf length = s.bytes.take length

/-- The whole buffer was written and holds the low bytes of the values of `rand`. -/
structure FromRand (buf length : Nat) (k : State) : Prop where
  written : ∀ i, i < length → k.written (buf + i) = true
  count : k.rands.length = length
  source : window k.mem buf length = k.rands.map low

/-! ## One operation -/

variable {stop : Sys → Prop} {α : Type}

/-- An operation that has one outcome, then the rest. -/
theorem call_ends {o : Sys} {f : o.Resp → C α} {Q : α → State → Prop} {r : o.Resp}
    (he : ∀ ch, exec ch o k = some (r, k')) (h : Ends sem stop Q (f r) k') :
    Ends sem stop Q (call o >>= f) k := Ends.op_det .done he h

theorem assert_ends {b : Bool} {expr func : String} {g : Unit → C α} {Q : α → State → Prop}
    (hb : b = true) (h : Ends sem stop Q (g ()) k) :
    Ends sem stop Q (avAssert b expr func >>= g) k :=
  avAssert_ends (fun _ _ _ => ⟨k, .done, rfl⟩)
    (fun hf => absurd (hf.symm.trans hb) Bool.false_ne_true) fun _ => h

/-- A call that is retried while it is interrupted; each interruption uses up a signal. -/
theorem retry_ends {β : Type} {c : C (Except Errno β)} {Q : Except Errno β → State → Prop}
    (hc : ∀ n, Ends sem stop (fun r k' =>
      (r = .error .EINTR ∧ n ≠ 0 ∧ k' = { k with signals := n - 1 }) ∨
        (r ≠ .error .EINTR ∧ Q r k'))
      c { k with signals := n }) : Ends sem stop Q (eintrLoop c) k := by
  exact eintrLoop_signals (p := fun n => { k with signals := n }) State.signals (fun _ => rfl)
    hc k.signals

theorem failure_cases {β : Type} {e : Errno} {k₁ : State} {r : Except Errno β}
    (h : failure e k k₁ = some (r, k')) :
    (r = .error .EINTR ∧ k.signals ≠ 0 ∧ k' = { k with signals := k.signals - 1 }) ∨
      ∃ e, e ≠ .EINTR ∧ r = .error e ∧ k' = k₁ := by
  unfold failure at h
  split at h
  · split at h
    · cases h
    · rename_i hs
      cases h
      exact .inl ⟨rfl, hs, rfl⟩
  · rename_i he
    cases h
    exact .inr ⟨e, he, rfl, rfl⟩

/-! ## Reading -/

variable {fd : Int} {data size count : Nat} {bs cs : List UInt8}

@[simp] theorem deliver_nil {a : Nat} : k.deliver a [] = k := by
  obtain ⟨mem, written, served, _, _, _, _, _⟩ := k
  have hw : (fun i => written i || decide (a ≤ i ∧ i < a + ([] : List UInt8).length)) =
      written := by
    funext i
    have hi : ¬ (a ≤ i ∧ i < a + ([] : List UInt8).length) := by
      rw [List.length_nil]
      omega
    rw [decide_eq_false hi, Bool.or_false]
  have hs : served.modifyHead (fun s => { s with bytes := s.bytes ++ [] }) = served := by
    cases served with
    | nil => rfl
    | cons s rest => simp
  simp only [State.deliver, State.store, splice_nil, hw, hs]

/-- Two deliveries in a row are one. -/
theorem deliver_deliver {a : Nat} :
    (k.deliver a bs).deliver (a + bs.length) cs = k.deliver a (bs ++ cs) := by
  have hw : ∀ i, ((decide (a ≤ i ∧ i < a + bs.length) ||
      decide (a + bs.length ≤ i ∧ i < a + bs.length + cs.length)) : Bool) =
      decide (a ≤ i ∧ i < a + (bs ++ cs).length) := by
    intro i
    rw [← Bool.decide_or, List.length_append]
    congr 1
    apply propext
    omega
  simp only [State.deliver, State.store, splice_splice, Bool.or_assoc, hw]
  cases k.served with
  | nil => rfl
  | cons s rest => simp

theorem read_cases {ch : Choice} {r : Except Errno Nat}
    (h : exec ch (.read fd data count) k = some (r, k')) :
    (r = .error .EINTR ∧ k.signals ≠ 0 ∧ k' = { k with signals := k.signals - 1 }) ∨
      (∃ e, e ≠ .EINTR ∧ r = .error e ∧ k' = k) ∨
      ∃ bs, bs.length ≤ count ∧ r = .ok bs.length ∧ k' = k.deliver data bs := by
  cases ch with
  | bytes bs =>
    simp only [exec] at h
    split at h
    · rename_i hlen
      cases h
      exact .inr (.inr ⟨bs, hlen.2, rfl, rfl⟩)
    · cases h
  | fail e => exact (failure_cases h).imp_right .inl
  | done => cases h
  | fd n => cases h
  | word r => cases h

/-- `av_read` delivers some bytes or fails. -/
theorem avRead_ends : Ends sem stop (fun r k' => ∃ n,
    (∃ e, r = .error e ∧ k' = { k with signals := n }) ∨
      ∃ bs, bs.length ≤ count ∧ r = .ok bs.length ∧
        k' = ({ k with signals := n } : State).deliver data bs)
    (avRead fd data count) k := by
  refine retry_ends fun n => ?_
  have hlive : sem (.read fd data count) { k with signals := n } (.error .EBADF)
    { k with signals := n } := ⟨.fail .EBADF, rfl⟩
  refine Ends.last (E := sys) (o := Sys.read fd data count) (.inr ⟨_, _, hlive⟩)
    fun r k' hs => ?_
  obtain ⟨ch, he⟩ := hs
  rcases read_cases he with ⟨rfl, hn, rfl⟩ | ⟨e, hne, rfl, rfl⟩ | ⟨bs, hlen, rfl, rfl⟩
  · exact .inl ⟨rfl, hn, rfl⟩
  · exact .inr ⟨fun h => hne (Except.error.inj h), n, .inl ⟨e, rfl, rfl⟩⟩
  · exact .inr ⟨(fun h => by cases h), n, .inr ⟨bs, hlen, rfl, rfl⟩⟩

/-- `av_loop_read` delivers a row of bytes that fits, and returns its length unless it fails. -/
def Delivers (data size ret : Nat) (k : State) (r : Except Errno Nat) (k' : State) : Prop :=
  ∃ n got, got.length ≤ size ∧ k' = ({ k with signals := n } : State).deliver data got ∧
    ∀ m, r = .ok m → m = ret + got.length

/-- One read, then the others. -/
theorem Delivers.after {ret n : Nat} {r : Except Errno Nat} (hlen : bs.length ≤ size)
    (h : Delivers (data + bs.length) (size - bs.length) (ret + bs.length)
      (({ k with signals := n } : State).deliver data bs) r k') :
    Delivers data size ret k r k' := by
  obtain ⟨n', got, hgot, rfl, hr⟩ := h
  refine ⟨n', bs ++ got, ?_, ?_, fun m hm => ?_⟩
  · rw [List.length_append]
    omega
  · exact deliver_deliver (k := { k with signals := n' })
  · rw [hr m hm, List.length_append, Nat.add_assoc]

theorem avLoopRead_ends (hfd : 0 ≤ fd) (hdata : data ≠ 0) (hsize : size ≠ 0) :
    Ends sem stop (Delivers data size 0 k) (avLoopRead fd data size) k := by
  refine assert_ends (decide_eq_true hfd) (assert_ends (decide_eq_true hdata)
    (assert_ends (decide_eq_true hsize) ?_))
  refine Ends.iter (s := (0, data, size)) (I := fun _ _ => True)
    (R := fun s k => Delivers s.2.1 s.2.2 s.1 k) (fun s _ => s.2.2) ?_ trivial
  rintro ⟨ret, data, size⟩ k -
  dsimp only
  by_cases hpos : 0 < size
  · rw [if_pos hpos]
    refine .seq avRead_ends fun r k' hr => ?_
    obtain ⟨n, ⟨e, rfl, rfl⟩ | ⟨bs, hlen, rfl, rfl⟩⟩ := hr
    · exact .pure ⟨n, [], Nat.zero_le _, deliver_nil.symm, fun m hm => by cases hm⟩
    · dsimp only
      by_cases h0 : bs.length = 0
      · rw [if_pos h0]
        obtain rfl := List.eq_nil_of_length_eq_zero h0
        exact .pure ⟨n, [], Nat.zero_le _, rfl, fun m hm => by cases hm; rfl⟩
      · rw [if_neg h0]
        refine .pure ⟨trivial, ?_, fun r k'' hrest => hrest.after hlen⟩
        show size - bs.length < size
        omega
  · rw [if_neg hpos]
    exact .pure ⟨k.signals, [], Nat.zero_le _, deliver_nil.symm, fun m hm => by cases hm; rfl⟩

/-! ## Closing -/

theorem close_cases {ch : Choice} {r : Except Errno Unit}
    (h : exec ch (.close fd) k = some (r, k')) :
    (r = .error .EINTR ∧ k.signals ≠ 0 ∧ k' = { k with signals := k.signals - 1 }) ∨
      (r ≠ .error .EINTR ∧ k' = k.finish fd) := by
  cases ch with
  | done =>
    cases h
    exact .inr ⟨(fun h => by cases h), rfl⟩
  | fail e =>
    rcases failure_cases h with hintr | ⟨e, hne, rfl, rfl⟩
    · exact .inl hintr
    · exact .inr ⟨fun h => hne (Except.error.inj h), rfl⟩
  | fd n => cases h
  | bytes bs => cases h
  | word r => cases h

theorem avClose_ends :
    Ends sem stop (fun _ k' => ∃ n, k' = ({ k with signals := n } : State).finish fd)
    (avClose fd) k := by
  refine retry_ends fun n => ?_
  have hlive : sem (.close fd) { k with signals := n } (.ok ())
    (({ k with signals := n } : State).finish fd) := ⟨.done, rfl⟩
  refine Ends.last (E := sys) (o := Sys.close fd) (.inr ⟨_, _, hlive⟩) fun r k' hs => ?_
  obtain ⟨ch, he⟩ := hs
  rcases close_cases he with hintr | ⟨hne, rfl⟩
  · exact .inl hintr
  · exact .inr ⟨hne, n, rfl⟩

/-! ## The devices -/

/-- Between two devices, and before the fallback. -/
structure Idle (mem : Bytes) (buf length : Nat) (k : State) : Prop where
  tidy : Tidy mem buf length k
  rands : k.rands = []

theorem Tidy.store {a : Nat} (h : Tidy mem buf length k) (hle : buf ≤ a)
    (hlen : a + bs.length ≤ buf + length) : Tidy mem buf length (k.store a bs) := by
  refine ⟨h.closed, fun i hi => ⟨?_, ?_⟩⟩
  · show (k.written i || decide (a ≤ i ∧ i < a + bs.length)) = false
    rw [(h.outside i hi).1, Bool.false_or]
    apply decide_eq_false
    omega
  · show splice k.mem a bs i = mem i
    rw [splice_of_not (by omega)]
    exact (h.outside i hi).2

/-- One device: it fails, or it has filled the buffer. -/
theorem randomDevice_ends {path : String} (h : Idle mem buf length k) (hbuf : buf ≠ 0)
    (hlength : length ≠ 0) : Ends sem stop (fun r k' => Idle mem buf length k' ∧
      (r = -1 ∨ (r = 0 ∧ FromDevice buf length k'))) (randomDevice path buf length) k := by
  have hlive : sem (.open path) k (.error .ENOENT) k := ⟨.fail .ENOENT, rfl⟩
  refine .op (.inr ⟨_, _, hlive⟩) fun r k' hs => ?_
  obtain ⟨ch, he⟩ := hs
  cases ch with
  | done => cases he
  | bytes bs => cases he
  | word r => cases he
  | fail e =>
    cases he
    exact .pure ⟨h, .inl rfl⟩
  | fd n =>
    cases he
    refine .seq (avLoopRead_ends (Int.natCast_nonneg n) hbuf hlength) fun r k' hr => ?_
    obtain ⟨m, got, hgot, rfl, hlen⟩ := hr
    refine .seq avClose_ends ?_
    rintro _ _ ⟨m', rfl⟩
    -- what has been read stays inside the buffer
    have hfits : buf + got.length ≤ buf + length := by omega
    have htidy := h.tidy.store (Nat.le_refl buf) hfits
    have hidle : Idle mem buf length (State.finish { State.deliver { k with
        served := ⟨n, []⟩ :: k.served, current := some n, signals := m } buf got with
        signals := m' } n) := by
      refine ⟨⟨?_, htidy.outside⟩, h.rands⟩
      show (n : Int) :: k.closed = (n : Int) :: k.served.map Source.fd
      rw [h.tidy.closed]
    cases r with
    | error e => exact .pure ⟨hidle, .inl rfl⟩
    | ok l =>
      refine .pure ⟨hidle, ?_⟩
      by_cases hl : l = length
      · -- the device has delivered all that was asked for
        have hfull : got.length = length := by
          have := hlen l rfl
          omega
        refine .inr ⟨if_neg (not_not.2 hl), fun i hi => ?_, ⟨n, [] ++ got⟩,
          List.mem_cons_self .., ?_, ?_⟩
        · show (k.written (buf + i) || decide (buf ≤ buf + i ∧ buf + i < buf + got.length)) =
            true
          rw [Bool.or_eq_true]
          apply Or.inr
          apply decide_eq_true
          omega
        · show length ≤ ([] ++ got).length
          rw [List.nil_append]
          omega
        · show window (splice k.mem buf got) buf length = ([] ++ got).take length
          rw [List.nil_append, ← hfull, window_splice, List.take_length]
      · exact .inl (if_pos hl)

theorem randomProper_ends (h : Idle mem buf length k) (hbuf : buf ≠ 0) (hlength : length ≠ 0) :
    Ends sem stop (fun r k' => Idle mem buf length k' ∧
      (r = -1 ∨ (r = 0 ∧ FromDevice buf length k'))) (randomProper buf length) k := by
  refine assert_ends (decide_eq_true hbuf) (assert_ends (decide_eq_true (by omega)) ?_)
  refine Ends.iter (s := (devices, -1)) (I := fun s k => s.2 = -1 ∧ Idle mem buf length k)
    (R := fun _ _ r k' => Idle mem buf length k' ∧ (r = -1 ∨ (r = 0 ∧ FromDevice buf length k')))
    (fun s _ => s.1.length) ?_ ⟨rfl, h⟩
  rintro ⟨paths, ret⟩ k ⟨hret, hk⟩
  cases paths with
  | nil => exact .pure ⟨hk, .inl hret⟩
  | cons path rest =>
    refine .seq (randomDevice_ends hk hbuf hlength) fun r k' hr => ?_
    obtain ⟨hidle, hr⟩ := hr
    rcases hr with rfl | ⟨rfl, hdev⟩
    · rw [if_neg (by decide)]
      exact .pure ⟨⟨rfl, hidle⟩, Nat.lt_succ_self _, fun _ _ => id⟩
    · exact .pure ⟨hidle, .inr ⟨rfl, hdev⟩⟩

/-! ## The fallback -/

/-- The warning is given or not; nothing else happens. -/
theorem whine_ends {fmt : String} :
    Ends sem stop (fun _ k' => ∃ b, k' = { k with hasWhined := b })
    (whine fmt) k := by
  refine call_ends (r := k.hasWhined) (fun _ => rfl) ?_
  by_cases hw : k.hasWhined = true
  · rw [if_pos hw]
    exact .pure ⟨k.hasWhined, rfl⟩
  · rw [if_neg hw]
    have hlive : sem (.setHasWhined true) k () { k with hasWhined := true } := ⟨.done, rfl⟩
    refine call_ends (fun _ => rfl) ?_
    refine Ends.last (E := sys) (o := Sys.setHasWhined true) (.inr ⟨_, _, hlive⟩) ?_
    rintro _ k' ⟨ch, he⟩
    cases he
    exact ⟨true, rfl⟩

/-- The first `n` bytes of the buffer come from `rand`. -/
structure Filling (mem : Bytes) (buf length n : Nat) (k : State) : Prop where
  tidy : Tidy mem buf length k
  rand : FromRand buf n k

/-- One byte more. -/
theorem Filling.store {n : Nat} {r : UInt32} (h : Filling mem buf length n k) (hn : n < length) :
    Filling mem buf length (n + 1)
      (({ k with rands := k.rands ++ [r] } : State).store (buf + n) [low r]) := by
  have htidy : Tidy mem buf length ({ k with rands := k.rands ++ [r] } : State) :=
    ⟨h.tidy.closed, h.tidy.outside⟩
  refine ⟨htidy.store (Nat.le_add_right ..) ?_, fun i hi => ?_, ?_, ?_⟩
  · show buf + n + 1 ≤ buf + length
    omega
  · show (k.written (buf + i) || decide (buf + n ≤ buf + i ∧ buf + i < buf + n + 1)) = true
    rw [Bool.or_eq_true, decide_eq_true_iff]
    rcases Nat.lt_succ_iff_lt_or_eq.1 hi with hlt | rfl
    · exact .inl (h.rand.written i hlt)
    · apply Or.inr
      omega
  · show (k.rands ++ [r]).length = n + 1
    rw [List.length_append, h.rand.count]
    rfl
  · show window (splice k.mem (buf + n) [low r]) buf (n + [low r].length) =
      (k.rands ++ [r]).map low
    rw [window_splice_append, h.rand.source, List.map_append]
    rfl

theorem rand_ends {g : UInt32 → C α} {Q : α → State → Prop}
    (h : ∀ r, Ends sem stop Q (g r) { k with rands := k.rands ++ [r] }) :
    Ends sem stop Q (call .rand >>= g) k := by
  have hlive : sem .rand k (0 : UInt32) { k with rands := k.rands ++ [0] } := ⟨.word 0, rfl⟩
  refine .op (.inr ⟨_, _, hlive⟩) fun r k' hs => ?_
  obtain ⟨ch, he⟩ := hs
  cases ch with
  | word _ =>
    cases he
    exact h r
  | done => cases he
  | fail e => cases he
  | fd n => cases he
  | bytes bs => cases he

/-! ## The whole call -/

/-- Whatever the devices and `rand` do: the call ends, has written every byte of the buffer and no
    other, all of them from one device or all from `rand`, and has passed each descriptor it has
    opened to `av_close` once. -/
theorem random_one_source (mem : Bytes) (buf length : Nat) (hasWhined : Bool) (signals : Nat)
    (hbuf : buf ≠ 0) (hlength : 0 < length) :
    Ends sem (fun _ => False) (fun _ k => Tidy mem buf length k ∧
      (FromDevice buf length k ∨ FromRand buf length k))
      (avRandom buf length) (start mem hasWhined signals) := by
  have hstart : Idle mem buf length (start mem hasWhined signals) :=
    ⟨⟨rfl, fun _ _ => ⟨rfl, rfl⟩⟩, rfl⟩
  refine assert_ends (decide_eq_true hbuf) (assert_ends (decide_eq_true hlength) ?_)
  refine .seq (randomProper_ends hstart hbuf (by omega)) fun r k hr => ?_
  obtain ⟨hidle, hr⟩ := hr
  rcases hr with rfl | ⟨rfl, hdev⟩
  · rw [if_neg (by decide)]
    refine .seq whine_ends ?_
    rintro _ _ ⟨b, rfl⟩
    -- no device has served: the loop starts with an empty prefix
    have hnone : Filling mem buf length 0 { k with hasWhined := b } := by
      refine ⟨⟨hidle.tidy.closed, hidle.tidy.outside⟩, fun i hi => ?_, ?_, ?_⟩
      · omega
      · show k.rands.length = 0
        rw [hidle.rands]
        rfl
      · show window k.mem buf 0 = k.rands.map low
        rw [hidle.rands]
        rfl
    refine Ends.iter (s := (buf, length))
      (I := fun s k => ∃ n, n + s.2 = length ∧ s.1 = buf + n ∧ Filling mem buf length n k)
      (R := fun _ _ _ k => Tidy mem buf length k ∧
        (FromDevice buf length k ∨ FromRand buf length k))
      (fun s _ => s.2) ?_ ⟨0, by omega, rfl, hnone⟩
    rintro ⟨p, l⟩ k ⟨n, hn, hp, hk⟩
    dsimp only at hn hp ⊢
    subst hp
    by_cases hl : 0 < l
    · rw [if_pos hl]
      refine rand_ends fun r => call_ends (fun _ => rfl) (.pure ⟨?_, ?_, fun _ _ => id⟩)
      · exact ⟨n + 1, by dsimp only; omega, rfl, hk.store (by omega)⟩
      · show l - 1 < l
        omega
    · rw [if_neg hl]
      obtain rfl : n = length := by omega
      exact .pure ⟨hk.tidy, .inr hk.rand⟩
  · rw [if_pos (by decide)]
    exact .pure ⟨hidle.tidy, .inl hdev⟩

/-- The first device fails after one byte, the second cannot be opened, and one close is
    interrupted. -/
theorem random_one_source_demo :
    ∃ k, Exec sem (avRandom 16 2) (start (fun _ => 9) true 1) () k ∧
    window k.mem 16 2 = [44, 7] ∧ Tidy (fun _ => 9) 16 2 k ∧
      (FromDevice 16 2 k ∨ FromRand 16 2 k) := by
  have hplay :
      ((play exec (fun _ _ _ => true) 40 [.fd 3, .bytes [5], .fail (.other 5), .fail .EINTR,
      .done, .fail .ENOENT, .done, .word 300, .done, .word 7, .done]
      (avRandom 16 2) (start (fun _ => 9) true 1)).any fun x =>
        decide (window x.2.mem 16 2 = [44, 7])) = true := by decide +kernel
  obtain ⟨_, k, hrun, hk⟩ := exists_exec_of_play hplay
  have hmem : window k.mem 16 2 = [44, 7] := of_decide_eq_true hk
  exact ⟨k, hrun, hmem, (random_one_source _ 16 2 true 1 (by decide) (by decide)).exec hrun⟩

end Entropy
end AnekVideo
