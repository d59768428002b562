/-
  AnekVideo.Io.Cached

  `av_loop_write` with and without a remembered answer to "is this a socket?".

  The kernel is a sequence of transfer results, one for each `send` on a socket
  and each `write`; a `send` on anything else fails with `ENOTSOCK` and uses none
  up.  `Plain` says what a plain write loop makes of such a sequence, and every
  way of passing `type` is shown to do just that.
-/
import AnekVideo.Io.Stream

namespace AnekVideo
namespace Cached

open Interact Word

/-! ## The kernel -/

/-- One descriptor, a socket or not, and what its transfers come to.  A signal does not
    interrupt for ever. -/
structure Kernel where
  fd : Int
  socket : Bool
  seq : Nat → Transfer
  sends : socket = true → ∀ i, seq i ≠ .fail .ENOTSOCK
  settles : ∀ i, ∃ j, i ≤ j ∧ seq j ≠ .fail .EINTR

inductive Way
  | send
  | write
  deriving DecidableEq, Repr

/-- The memory, the transfer that comes next, the bytes accepted, and how often each system call
    was tried. -/
structure State where
  mem : Bytes
  pos : Nat
  accepted : List UInt8
  tried : Way → Nat

variable (T : Kernel) {k k' : State} {buf count data size : Nat} {type : Option Int}

/-- The result of a transfer of `count` bytes from `buf` on, and the bytes it moves. -/
def moved (mem : Bytes) (buf count : Nat) : Transfer → Except Errno Nat × List UInt8
  | .fail e => (.error e, [])
  | .count n => (.ok (min n count), window mem buf (min n count))

namespace State

def attempt (k : State) (w : Way) : State :=
  { k with tried := Function.update k.tried w (k.tried w + 1) }

/-- What the next transfer comes to, of the `count` bytes from `buf` on; it cannot move more. -/
def transfer (k : State) (buf count : Nat) : Except Errno Nat × State :=
  let (r, bs) := moved k.mem buf count (T.seq k.pos)
  (r, { k with pos := k.pos + 1, accepted := k.accepted ++ bs })

end State

/-- One operation. -/
def exec : (o : Sys) → State → Option (o.Resp × State)
  | .send fd buf count, k =>
    if fd = T.fd then
      if T.socket then some ((k.attempt .send).transfer T buf count)
      else some (.error .ENOTSOCK, k.attempt .send)
    else none
  | .write fd buf count, k =>
    if fd = T.fd then some ((k.attempt .write).transfer T buf count) else none
  | .log _ _ _, k => some ((), k)
  | _, _ => none

def sem : OpSem sys State := fun o k r k' => exec T o k = some (r, k')

/-- Before a call. -/
def start (mem : Bytes) : State where
  mem := mem
  pos := 0
  accepted := []
  tried := fun _ => 0

/-- What `type` can be: a null pointer, or a pointer to 0 or to what calls on the same descriptor
    have left there. -/
inductive Passed (fd : Int) (socket : Bool) : Option Int → Prop
  | null : Passed fd socket none
  | zero : Passed fd socket (some 0)
  | left {T : Kernel} {data size : Nat} {type type' : Option Int} {r : Except Errno Nat}
      {k k' : State} : T.fd = fd → T.socket = socket → Passed fd socket type →
      Exec (sem T) (avLoopWrite fd data size type) k (r, type') k' → Passed fd socket type'

/-! ## The plain loop -/

/-- A plain write loop on the bytes `buf` returns `r`, has `acc` accepted, and uses up the
    transfers from `i` to `j`. -/
inductive Plain (seq : Nat → Transfer) :
    Nat → List UInt8 → Except Errno Nat → List UInt8 → Nat → Prop
  | done {i : Nat} : Plain seq i [] (.ok 0) [] i
  | intr {i j : Nat} {buf acc : List UInt8} {r : Except Errno Nat} : buf ≠ [] →
      seq i = .fail .EINTR → Plain seq (i + 1) buf r acc j → Plain seq i buf r acc j
  | fail {i : Nat} {buf : List UInt8} {e : Errno} : buf ≠ [] → seq i = .fail e →
      e ≠ .EINTR → Plain seq i buf (.error e) [] (i + 1)
  | zero {i : Nat} {buf : List UInt8} : buf ≠ [] → seq i = .count 0 →
      Plain seq i buf (.ok 0) [] (i + 1)
  | more {i j n : Nat} {buf acc : List UInt8} {r : Except Errno Nat} : buf ≠ [] →
      seq i = .count n → n ≠ 0 → Plain seq (i + 1) (buf.drop n) r acc j →
      Plain seq i buf (r.map (min n buf.length + ·)) (buf.take n ++ acc) j

variable {seq : Nat → Transfer} {i j j' : Nat} {bs acc acc' : List UInt8}
    {r r' : Except Errno Nat}

/-- The transfers settle what the loop does. -/
theorem Plain.unique (h : Plain seq i bs r acc j) (h' : Plain seq i bs r' acc' j') :
    r = r' ∧ acc = acc' ∧ j = j' := by
  induction h generalizing r' acc' j' with
  | done =>
    cases h' with
    | done => exact ⟨rfl, rfl, rfl⟩
    | intr hne | fail hne | zero hne | more hne => exact absurd rfl hne
  | intr hne hs _ ih =>
    cases h' with
    | done => exact absurd rfl hne
    | intr _ _ h' => exact ih h'
    | fail _ hs' he => rw [hs] at hs'; cases hs'; exact absurd rfl he
    | zero _ hs' => rw [hs] at hs'; cases hs'
    | more _ hs' => rw [hs] at hs'; cases hs'
  | fail hne hs he =>
    cases h' with
    | done => exact absurd rfl hne
    | intr _ hs' => rw [hs] at hs'; cases hs'; exact absurd rfl he
    | fail _ hs' => rw [hs] at hs'; cases hs'; exact ⟨rfl, rfl, rfl⟩
    | zero _ hs' => rw [hs] at hs'; cases hs'
    | more _ hs' => rw [hs] at hs'; cases hs'
  | zero hne hs =>
    cases h' with
    | done => exact absurd rfl hne
    | intr _ hs' => rw [hs] at hs'; cases hs'
    | fail _ hs' => rw [hs] at hs'; cases hs'
    | zero => exact ⟨rfl, rfl, rfl⟩
    | more _ hs' hn => rw [hs] at hs'; cases hs'; exact absurd rfl hn
  | more hne hs hn _ ih =>
    cases h' with
    | done => exact absurd rfl hne
    | intr _ hs' => rw [hs] at hs'; cases hs'
    | fail _ hs' => rw [hs] at hs'; cases hs'
    | zero _ hs' => rw [hs] at hs'; cases hs'; exact absurd rfl hn
    | more _ hs' _ h' =>
      rw [hs] at hs'
      cases hs'
      obtain ⟨rfl, rfl, rfl⟩ := ih h'
      exact ⟨rfl, rfl, rfl⟩

/-- What is accepted is a prefix of the buffer. -/
theorem Plain.isPrefix (h : Plain seq i bs r acc j) : acc <+: bs := by
  induction h with
  | done => exact List.prefix_rfl
  | intr _ _ _ ih => exact ih
  | fail | zero => exact List.nil_prefix
  | @more i j n buf acc r _ _ _ _ ih =>
    -- what one transfer takes, then what the loop takes of the rest
    obtain ⟨rest, hrest⟩ := ih
    refine ⟨rest, ?_⟩
    rw [List.append_assoc, hrest, List.take_append_drop]

theorem Plain.le (h : Plain seq i bs r acc j) : i ≤ j := by
  induction h with
  | done => exact Nat.le_refl _
  | fail | zero => exact Nat.le_succ _
  | intr _ _ _ ih | more _ _ _ _ ih => omega

/-- A loop that returns a count has accepted that many, short of all only after a zero. -/
theorem Plain.of_ok (h : Plain seq i bs r acc j) : ∀ n, r = .ok n →
    n = acc.length ∧ (n < bs.length → i < j ∧ seq (j - 1) = .count 0) := by
  induction h with
  | done =>
    intro n hn
    cases hn
    exact ⟨rfl, fun h => absurd h (Nat.lt_irrefl 0)⟩
  | intr _ _ _ ih =>
    intro n hn
    obtain ⟨hlen, hshort⟩ := ih n hn
    exact ⟨hlen, fun h => ⟨by have := (hshort h).1; omega, (hshort h).2⟩⟩
  | fail => exact fun n hn => by cases hn
  | zero _ hs =>
    intro n hn
    cases hn
    exact ⟨rfl, fun _ => ⟨Nat.lt_succ_self _, hs⟩⟩
  | @more i j n buf acc r _ _ _ _ ih =>
    intro m hm
    cases r with
    | error e => cases hm
    | ok m' =>
      obtain ⟨hlen, hshort⟩ := ih m' rfl
      rw [List.length_drop] at hshort
      have hm' : min n buf.length + m' = m := Except.ok.inj hm
      refine ⟨by rw [List.length_append, List.length_take]; omega, fun hlt => ?_⟩
      obtain ⟨hij, hz⟩ := hshort (by omega)
      exact ⟨by omega, hz⟩

/-- A loop that returns an error was stopped by it. -/
theorem Plain.of_error (h : Plain seq i bs r acc j) : ∀ e, r = .error e →
    i < j ∧ seq (j - 1) = .fail e ∧ e ≠ .EINTR := by
  induction h with
  | done | zero => exact fun e he => by cases he
  | intr _ _ _ ih =>
    intro e he
    obtain ⟨hij, hs⟩ := ih e he
    exact ⟨by omega, hs⟩
  | fail _ hs hne =>
    intro e he
    cases he
    exact ⟨Nat.lt_succ_self _, hs, hne⟩
  | @more i j n buf acc r _ _ _ _ ih =>
    intro e he
    cases r with
    | ok m => cases he
    | error e' =>
      obtain ⟨hij, hs⟩ := ih e he
      exact ⟨by omega, hs⟩

/-! ## The retry loops -/

/-- `k'` is `k` after a system call that was retried on `EINTR` and then returned `r`. -/
structure Took (buf count : Nat) (k : State) (r : Except Errno Nat) (k' : State) : Prop where
  pos : k.pos < k'.pos
  intr : ∀ i, k.pos ≤ i → i + 1 < k'.pos → T.seq i = .fail .EINTR
  settled : T.seq (k'.pos - 1) ≠ .fail .EINTR
  result : r = (moved k.mem buf count (T.seq (k'.pos - 1))).1
  accepted : k'.accepted = k.accepted ++ (moved k.mem buf count (T.seq (k'.pos - 1))).2
  mem : k'.mem = k.mem

variable {T} {stop : Sys → Prop}

/-- Only interruptions so far. -/
structure Waited (T : Kernel) (w : Way) (k k' : State) : Prop where
  pos : k.pos ≤ k'.pos
  intr : ∀ i, k.pos ≤ i → i < k'.pos → T.seq i = .fail .EINTR
  mem : k'.mem = k.mem
  accepted : k'.accepted = k.accepted
  tried : ∀ w', w' ≠ w → k'.tried w' = k.tried w'

theorem eq_fail_of_moved {mem : Bytes} {t : Transfer} {e : Errno}
    (h : (moved mem buf count t).1 = .error e) : t = .fail e := by
  cases t with
  | fail e => rw [Except.error.inj h]
  | count n => cases h

theorem eintrLoop_took {w : Way} {c : C (Except Errno Nat)}
    (hc : ∀ k (Q : Except Errno Nat → State → Prop),
      Q ((k.attempt w).transfer T buf count).1 ((k.attempt w).transfer T buf count).2 →
      Ends (sem T) stop Q c k) :
    Ends (sem T) stop
      (fun r k' => Took T buf count k r k' ∧ ∀ w', w' ≠ w → k'.tried w' = k.tried w')
      (eintrLoop c) k := by
  obtain ⟨j, hj, hset⟩ := T.settles k.pos
  have hwait : Waited T w k k :=
    ⟨Nat.le_refl _, fun i _ _ => by omega, rfl, rfl, fun _ _ => rfl⟩
  -- a transfer that is no interruption lies ahead
  have hlt : ∀ k', Waited T w k k' → k'.pos ≤ j := by
    intro k' hk'
    by_contra hgt
    exact hset (hk'.intr j hj (by omega))
  refine eintrLoop_ends (I := Waited T w k) (fun k' => j + 1 - k'.pos) (fun k' hk' => hc k' _ ?_)
    hwait
  -- one more try: an interruption brings the loop closer to `j`, anything else ends it
  have hle := hlt k' hk'
  have htried : ∀ w', w' ≠ w → (k'.attempt w).tried w' = k.tried w' := fun w' hw =>
    (Function.update_of_ne hw ..).trans (hk'.tried w' hw)
  have hpos := hk'.pos
  refine ⟨fun he => ?_, fun hne => ?_⟩
  · have hs : T.seq k'.pos = .fail .EINTR := eq_fail_of_moved he
    refine ⟨⟨Nat.le_succ_of_le hpos, fun i hi hlt => ?_, hk'.mem, ?_, htried⟩, ?_⟩
    · rcases Nat.lt_succ_iff_lt_or_eq.1 hlt with hlt | rfl
      · exact hk'.intr i hi hlt
      · exact hs
    · show k'.accepted ++ (moved _ _ _ (T.seq k'.pos)).2 = k.accepted
      rw [hs, hk'.accepted]
      exact List.append_nil _
    · show j + 1 - (k'.pos + 1) < j + 1 - k'.pos
      omega
  · refine ⟨⟨Nat.lt_succ_of_le hpos, fun i hi hlt => hk'.intr i hi (Nat.lt_of_succ_lt_succ hlt),
      fun hs => hne ?_, ?_, ?_, hk'.mem⟩, htried⟩
    · show (moved _ _ _ (T.seq k'.pos)).1 = _
      rw [show T.seq k'.pos = .fail .EINTR from hs]
      rfl
    · show (moved k'.mem _ _ (T.seq k'.pos)).1 = _
      rw [hk'.mem]
      rfl
    · show k'.accepted ++ (moved k'.mem _ _ (T.seq k'.pos)).2 = _
      rw [hk'.mem, hk'.accepted]
      rfl

/-! ## One write -/

/-- What `type` may point to: 1 only where the descriptor is no socket. -/
def Apt (socket : Bool) (type : Option Int) : Prop :=
  type = none ∨ type = some 0 ∨ (type = some 1 ∧ socket = false)

/-- Which system calls were tried between `k` and `k'`, and what `type` is after them. -/
structure Tries (T : Kernel) (type type' : Option Int) (k k' : State) : Prop where
  socket : T.socket = true → k'.tried .write = k.tried .write ∧ type' = type
  other : T.socket = false →
    k'.tried .send = k.tried .send + (if type = some 1 then 0 else 1) ∧
    type' = type.map fun _ => 1

theorem Tries.kept {type' : Option Int} (h : Tries T type type' k k') (htype : Apt T.socket type) :
    type = some 1 → type' = some 1 := by
  rintro rfl
  have hs : T.socket = false := by
    rcases htype with h | h | h
    · cases h
    · cases h
    · exact h.2
  exact (h.other hs).2

theorem Tries.ne_none {type' : Option Int} (h : Tries T type type' k k') (hne : type ≠ none) :
    type' ≠ none := by
  cases hs : T.socket with
  | true =>
    rw [(h.socket hs).2]
    exact hne
  | false =>
    rw [(h.other hs).2]
    exact fun h => hne (Option.map_eq_none_iff.1 h)

theorem Tries.apt {type' : Option Int} (h : Tries T type type' k k') (htype : Apt T.socket type) :
    Apt T.socket type' := by
  cases hs : T.socket with
  | true =>
    rw [(h.socket hs).2, ← hs]
    exact htype
  | false =>
    rw [(h.other hs).2]
    cases type with
    | none => exact .inl rfl
    | some n => exact .inr (.inr ⟨rfl, rfl⟩)

/-- An operation, which has one outcome. -/
theorem call_ends {o : Sys} {Q : o.Resp → State → Prop} {r : o.Resp}
    (he : exec T o k = some (r, k')) (h : Q r k') : Ends (sem T) stop Q (call o) k := by
  refine .last (.inr ⟨r, k', he⟩) fun r' k₁ hs => ?_
  have hs' : exec T o k = some (r', k₁) := hs
  rw [he] at hs'
  cases hs'
  exact h

/-- An assertion, which ends the process if it fails. -/
theorem assert_ends {α : Type} {Q : α → State → Prop} {b : Bool} {expr func : String}
    {g : Unit → C α} (hb : stop .abort ∨ b = true) (h : Ends (sem T) stop Q (g ()) k) :
    Ends (sem T) stop Q (avAssert b expr func >>= g) k := by
  refine avAssert_ends (fun _ _ _ => ⟨k, rfl⟩) (fun hf => ?_) fun _ => h
  exact hb.resolve_right fun ht => Bool.false_ne_true (hf.symm.trans ht)

theorem write_took : Ends (sem T) stop (fun r k' => Took T buf count k r k' ∧
    k'.tried .send = k.tried .send) (avWriteWrite T.fd buf count) k := by
  have hexec : ∀ k, exec T (.write T.fd buf count) k =
      some ((k.attempt .write).transfer T buf count) := fun k => if_pos rfl
  refine Ends.mono (eintrLoop_took (w := .write) fun k Q hQ => call_ends (hexec k) hQ) ?_
  intro r k' h
  exact ⟨h.1, h.2 .send (by decide)⟩

/-- On a socket. -/
theorem send_took (hs : T.socket = true) :
    Ends (sem T) stop (fun r k' => Took T buf count k r k' ∧
    k'.tried .write = k.tried .write) (avWriteSend T.fd buf count) k := by
  have hexec : ∀ k, exec T (.send T.fd buf count) k =
      some ((k.attempt .send).transfer T buf count) := by
    intro k
    simp only [exec, hs, if_true]
  refine Ends.mono (eintrLoop_took (w := .send) fun k Q hQ => call_ends (hexec k) hQ) ?_
  intro r k' h
  exact ⟨h.1, h.2 .write (by decide)⟩

/-- On anything else. -/
theorem send_refused (hs : T.socket = false) : Ends (sem T) stop (fun r k' =>
    r = .error .ENOTSOCK ∧ k' = k.attempt .send) (avWriteSend T.fd buf count) k := by
  have hexec : exec T (.send T.fd buf count) k = some (.error .ENOTSOCK, k.attempt .send) := by
    simp only [exec, hs, if_true, Bool.false_eq_true, if_false]
  have hcall : Ends (sem T) stop (fun r k' => r = .error .ENOTSOCK ∧ k' = k.attempt .send)
      (call (.send T.fd buf count)) k := call_ends hexec ⟨rfl, rfl⟩
  refine .round (.seq hcall ?_)
  rintro r k' ⟨rfl, rfl⟩
  exact .pure (.pure ⟨rfl, rfl⟩)

/-- `av_write`. -/
theorem avWrite_ends (htype : Apt T.socket type) : Ends (sem T) stop
    (fun x k' => Took T buf count k x.1 k' ∧ Tries T type x.2 k k')
      (avWrite T.fd buf count type) k := by
  unfold avWrite
  split
  · rename_i h0
    -- `send` comes first; only its `ENOTSOCK` leads on to `write`
    have h1 : type ≠ some 1 := by
      rintro rfl
      rcases h0 with h | h <;> cases h
    cases hs : T.socket with
    | true =>
      refine .seq (send_took hs) fun r k' hr => ?_
      have htries : Tries T type type k k' :=
        ⟨fun _ => ⟨hr.2, rfl⟩, fun h => absurd (h.symm.trans hs) Bool.false_ne_true⟩
      cases r with
      | ok n => exact .pure ⟨hr.1, htries⟩
      | error e =>
        have hne : e ≠ .ENOTSOCK := by
          rintro rfl
          exact T.sends hs _ (eq_fail_of_moved hr.1.result.symm)
        dsimp only
        rw [if_pos hne]
        exact .pure ⟨hr.1, htries⟩
    | false =>
      refine .seq (send_refused hs) ?_
      rintro _ _ ⟨rfl, rfl⟩
      refine .seq write_took fun r k' hr => .pure ⟨?_, ?_⟩
      · exact ⟨hr.1.pos, hr.1.intr, hr.1.settled, hr.1.result, hr.1.accepted, hr.1.mem⟩
      · refine ⟨fun h => absurd (hs.symm.trans h) Bool.false_ne_true, fun _ => ⟨?_, rfl⟩⟩
        rw [hr.2, if_neg h1]
        show Function.update k.tried .send (k.tried .send + 1) .send = _
        exact Function.update_self ..
  · rename_i h0
    -- what is left of `Apt` is a pointer to 1
    obtain ⟨rfl, hs⟩ : type = some 1 ∧ T.socket = false := by
      rcases htype with h | h | h
      · exact absurd (.inl h) h0
      · exact absurd (.inr h) h0
      · exact h
    refine .seq write_took fun r k' hr => .pure ⟨hr.1, ?_⟩
    refine ⟨fun h => absurd (hs.symm.trans h) Bool.false_ne_true, fun _ => ⟨?_, rfl⟩⟩
    rw [hr.2, if_pos rfl, Nat.add_zero]

/-! ## The loop -/

/-- Signals do not show. -/
theorem Plain.skip {i₀ : Nat} (hne : bs ≠ []) (hle : i₀ ≤ i)
    (hs : ∀ n, i₀ ≤ n → n < i → seq n = .fail .EINTR) (h : Plain seq i bs r acc j) :
    Plain seq i₀ bs r acc j := by
  induction i, hle using Nat.le_induction with
  | base => exact h
  | succ i hle ih =>
    exact ih (fun n hn hlt => hs n hn (by omega)) (.intr hne (hs i hle (by omega)) h)

theorem window_ne_nil {mem : Bytes} (h : 0 < count) : window mem buf count ≠ [] := by
  rw [← List.length_pos_iff_ne_nil, length_window]
  exact h

/-- The transfer that was not an interruption. -/
theorem Took.seq_eq {r : Except Errno Nat} (h : Took T buf count k r k') :
    k.pos ≤ k'.pos - 1 ∧ k'.pos - 1 + 1 = k'.pos ∧
      ∀ n, k.pos ≤ n → n < k'.pos - 1 → T.seq n = .fail .EINTR := by
  have hpos := h.pos
  exact ⟨by omega, by omega, fun n hn hlt => h.intr n hn (by omega)⟩

theorem Took.of_error {e : Errno} (h : Took T buf count k (.error e) k') (hc : 0 < count) :
    Plain T.seq k.pos (window k.mem buf count) (.error e) [] k'.pos ∧
      k'.accepted = k.accepted ++ [] := by
  obtain ⟨hle, hj, hs⟩ := h.seq_eq
  have hlast := eq_fail_of_moved h.result.symm
  have hne : e ≠ .EINTR := fun he => h.settled (he ▸ hlast)
  have hacc := h.accepted
  rw [hlast] at hacc
  refine ⟨?_, hacc⟩
  rw [← hj]
  exact .skip (window_ne_nil hc) hle hs (.fail (window_ne_nil hc) hlast hne)

theorem Took.of_ok {m : Nat} (h : Took T buf count k (.ok m) k') :
    ∃ n, T.seq (k'.pos - 1) = .count n ∧ m = min n count ∧
      k'.accepted = k.accepted ++ window k.mem buf m := by
  have hr := h.result
  have hacc := h.accepted
  cases hn : T.seq (k'.pos - 1) with
  | fail e =>
    rw [hn] at hr
    cases hr
  | count n =>
    rw [hn] at hr hacc
    cases hr
    exact ⟨n, rfl, rfl, hacc⟩

theorem Took.of_zero (h : Took T buf count k (.ok 0) k') (hc : 0 < count) :
    Plain T.seq k.pos (window k.mem buf count) (.ok 0) [] k'.pos ∧
      k'.accepted = k.accepted ++ [] := by
  obtain ⟨hle, hj, hs⟩ := h.seq_eq
  obtain ⟨n, hlast, hn, hacc⟩ := h.of_ok
  obtain rfl : n = 0 := by omega
  refine ⟨?_, hacc⟩
  rw [← hj]
  exact .skip (window_ne_nil hc) hle hs (.zero (window_ne_nil hc) hlast)

/-- A short transfer leaves the rest of the buffer. -/
theorem Took.of_more {m : Nat} (h : Took T buf count k (.ok m) k') (hm : m ≠ 0) :
    m ≤ count ∧ k'.accepted = k.accepted ++ window k.mem buf m ∧
      ∀ r acc j, Plain T.seq k'.pos (window k'.mem (buf + m) (count - m)) r acc j →
        Plain T.seq k.pos (window k.mem buf count) (r.map (m + ·))
          (window k.mem buf m ++ acc) j := by
  obtain ⟨hle, hj, hs⟩ := h.seq_eq
  obtain ⟨n, hlast, rfl, hacc⟩ := h.of_ok
  have hc : 0 < count := by omega
  refine ⟨Nat.min_le_right .., hacc, fun r acc j hrest => ?_⟩
  rw [h.mem] at hrest
  -- a transfer of more than was asked for counts as all of it
  have hdrop : (window k.mem buf count).drop n =
      window k.mem (buf + min n count) (count - min n count) := by
    rw [drop_window]
    by_cases hn : n ≤ count
    · rw [Nat.min_eq_left hn]
    · rw [show count - n = 0 by omega, show count - min n count = 0 by omega]
      rfl
  have hne : window k.mem buf count ≠ [] := window_ne_nil hc
  have hn : n ≠ 0 := by omega
  have hrest' : Plain T.seq (k'.pos - 1 + 1) ((window k.mem buf count).drop n) r acc j := by
    rw [hdrop, hj]
    exact hrest
  have hmore := Plain.more hne hlast hn hrest'
  rw [take_window, length_window] at hmore
  exact .skip hne hle hs hmore

/-- What the loop does from where it stands: the plain loop, and its tries. -/
structure Wrote (T : Kernel) (data size : Nat) (type type' : Option Int) (k : State)
    (r : Except Errno Nat) (k' : State) : Prop where
  plain : ∃ acc, Plain T.seq k.pos (window k.mem data size) r acc k'.pos ∧
    k'.accepted = k.accepted ++ acc
  socket : T.socket = true → k'.tried .write = k.tried .write
  other : T.socket = false → k'.tried .send ≤ k.tried .send + (if type = some 1 then 0 else 1)
  apt : Apt T.socket type'
  kept : type = some 1 → type' = some 1

/-- After one write: it stopped the loop. -/
theorem Wrote.of_last {type' : Option Int} (htype : Apt T.socket type)
    (htries : Tries T type type' k k')
    (hplain : Plain T.seq k.pos (window k.mem data size) r [] k'.pos ∧
      k'.accepted = k.accepted ++ []) : Wrote T data size type type' k r k' := by
  refine ⟨⟨[], hplain⟩, fun hs => (htries.socket hs).1, fun hs => (htries.other hs).1.le,
    ?_, ?_⟩
  · exact htries.apt htype
  · exact htries.kept htype

/-- After one write: the loop goes on. -/
theorem Wrote.more {type₁ type₂ : Option Int} {k₁ k₂ : State} {m : Nat}
    (htype : Apt T.socket type) (htook : Took T data size k (.ok m) k₁)
    (htries : Tries T type type₁ k k₁) (hm : m ≠ 0) (hne : type ≠ none)
    (hrest : Wrote T (data + m) (size - m) type₁ type₂ k₁ r k₂) :
    Wrote T data size type type₂ k (r.map (m + ·)) k₂ := by
  obtain ⟨-, hacc₁, hplain⟩ := htook.of_more hm
  obtain ⟨acc, hp, hacc₂⟩ := hrest.plain
  refine ⟨⟨_, hplain r acc _ hp, ?_⟩, fun hs => ?_, fun hs => ?_, hrest.apt, fun h1 => ?_⟩
  · rw [hacc₂, hacc₁, List.append_assoc]
  · rw [hrest.socket hs, (htries.socket hs).1]
  · -- the first write has left 1, so there is no second send
    have hle := hrest.other hs
    obtain ⟨hsend, htype₁⟩ := htries.other hs
    have h1 : type₁ = some 1 := by
      obtain ⟨n, rfl⟩ := Option.ne_none_iff_exists'.1 hne
      exact htype₁
    rw [if_pos h1] at hle
    omega
  · exact hrest.kept (htries.kept htype h1)

theorem avLoopWrite_ends (hargs : stop .abort ∨ (0 ≤ T.fd ∧ data ≠ 0 ∧ size ≠ 0))
    (htype : Apt T.socket type) : Ends (sem T) stop
      (fun x k' => Wrote T data size type x.2 k x.1 k') (avLoopWrite T.fd data size type) k := by
  refine assert_ends (hargs.imp_right fun h => decide_eq_true h.1) ?_
  refine assert_ends (hargs.imp_right fun h => decide_eq_true h.2.1) ?_
  refine assert_ends (hargs.imp_right fun h => decide_eq_true h.2.2) ?_
  -- the flag of the loop: what `type` points to, or a local 0
  have hflag : Apt T.socket (if type = none then some 0 else type) ∧
      (if type = none then some 0 else type) ≠ none := by
    by_cases hnone : type = none
    · rw [if_pos hnone]
      exact ⟨.inr (.inl rfl), Option.some_ne_none _⟩
    · rw [if_neg hnone]
      exact ⟨htype, hnone⟩
  refine Ends.mono (Ends.iter (I := fun s _ => Apt T.socket s.2.2.2 ∧ s.2.2.2 ≠ none)
    (R := fun s k x k' => ∃ r f, x = (r.map (s.1 + ·), if type = none then none else f) ∧
      Wrote T s.2.1 s.2.2.1 s.2.2.2 f k r k')
    (fun s _ => s.2.2.1) ?_ hflag) ?_
  · -- one round: a write, and the rest of the loop where it moved something
    rintro ⟨ret, data, size, f⟩ k ⟨hf, hne⟩
    dsimp only
    by_cases hpos : 0 < size
    · rw [if_pos hpos]
      refine .seq (avWrite_ends hf) fun x k' hx => ?_
      obtain ⟨htook, htries⟩ := hx
      obtain ⟨r, f'⟩ := x
      cases r with
      | error e =>
        exact .pure ⟨.error e, f', rfl, .of_last hf htries (htook.of_error hpos)⟩
      | ok m =>
        dsimp only
        by_cases hm : m = 0
        · subst hm
          exact .pure ⟨.ok 0, f', rfl, .of_last hf htries (htook.of_zero hpos)⟩
        · rw [if_neg hm]
          have hle := (htook.of_more hm).1
          refine .pure ⟨⟨htries.apt hf, htries.ne_none hne⟩, ?_, ?_⟩
          · show size - m < size
            omega
          · rintro x k'' ⟨r, f'', rfl, hrest⟩
            refine ⟨r.map (m + ·), f'', ?_, .more hf htook htries hm hne hrest⟩
            cases r with
            | error e => rfl
            | ok n => simp only [Except.map, Nat.add_assoc]
    · rw [if_neg hpos]
      obtain rfl : size = 0 := by omega
      refine .pure ⟨.ok 0, f, rfl, ⟨[], .done, (List.append_nil _).symm⟩, fun _ => rfl,
        fun _ => Nat.le_add_right .., hf, id⟩
  · -- what the caller's `type` points to afterwards, if there is one
    rintro x k' ⟨r, f, rfl, hw⟩
    have hr : r.map (0 + ·) = r := by
      cases r with
      | error e => rfl
      | ok n => simp only [Except.map, Nat.zero_add]
    dsimp only at hw ⊢
    rw [hr]
    by_cases hnone : type = none
    · subst hnone
      exact ⟨hw.plain, hw.socket, hw.other, .inl rfl, fun h => by cases h⟩
    · rw [if_neg hnone] at hw ⊢
      exact hw

/-! ## Every way of passing `type` -/

/-- The call, with any arguments: a failed assertion ends the process. -/
theorem avLoopWrite_exec {x : Except Errno Nat × Option Int} (htype : Apt T.socket type)
    (he : Exec (sem T) (avLoopWrite T.fd data size type) k x k') :
    Wrote T data size type x.2 k x.1 k' :=
  have hends : Ends (sem T) (· = .abort) (fun x k' => Wrote T data size type x.2 k x.1 k')
    (avLoopWrite T.fd data size type) k := avLoopWrite_ends (.inl rfl) htype
  hends.exec he

/-- Earlier calls leave 1 only where the descriptor is no socket. -/
theorem Passed.apt {socket : Bool} (h : Passed fd socket type) : Apt socket type := by
  induction h with
  | null => exact .inl rfl
  | zero => exact .inr (.inl rfl)
  | left hfd hsocket _ he ih =>
    subst hfd hsocket
    exact (avLoopWrite_exec ih he).apt

/-- What the call has done: it returns the number of bytes it had accepted, which are a prefix of
    the buffer, or the error that stopped it. -/
structure Accepts (T : Kernel) (buf : List UInt8) (type : Option Int)
    (x : Except Errno Nat × Option Int) (k : State) : Prop where
  isPrefix : k.accepted <+: buf
  count : ∀ n, x.1 = .ok n → n = k.accepted.length
  short : ∀ n, x.1 = .ok n → n < buf.length → 0 < k.pos ∧ T.seq (k.pos - 1) = .count 0
  error : ∀ e, x.1 = .error e → 0 < k.pos ∧ T.seq (k.pos - 1) = .fail e ∧ e ≠ .EINTR ∧
    (T.socket = true → e ≠ .ENOTSOCK)
  socket : T.socket = true → k.tried .write = 0
  other : T.socket = false → k.tried .send ≤ 1 ∧
    (type = some 1 → k.tried .send = 0 ∧ x.2 = some 1)

/-- Whatever the transfers come to and however `type` is passed: the call ends, has done what it
    should, and has had the same bytes accepted and returned the same as with any other way of
    passing `type`. -/
theorem cached_write_agrees (T : Kernel) (mem : Bytes) (data size : Nat) (type : Option Int)
    (hfd : 0 ≤ T.fd) (hdata : data ≠ 0) (hsize : size ≠ 0)
    (htype : Passed T.fd T.socket type) :
    Ends (sem T) (fun _ => False) (fun x k => Accepts T (window mem data size) type x k ∧
      ∀ type' x' k', Passed T.fd T.socket type' →
        Exec (sem T) (avLoopWrite T.fd data size type') (start mem) x' k' →
        x'.1 = x.1 ∧ k'.accepted = k.accepted)
      (avLoopWrite T.fd data size type) (start mem) := by
  refine (avLoopWrite_ends (.inr ⟨hfd, hdata, hsize⟩) htype.apt).mono fun x k hk => ⟨?_, ?_⟩
  · obtain ⟨acc, hp, hacc⟩ := hk.plain
    have hacc' : k.accepted = acc := hacc
    subst hacc'
    refine ⟨hp.isPrefix, fun n hn => (hp.of_ok n hn).1, fun n hn hlt => (hp.of_ok n hn).2 hlt,
      fun e he => ?_, hk.socket, fun hs => ⟨?_, fun h1 => ⟨?_, hk.kept h1⟩⟩⟩
    · obtain ⟨hpos, hs, hne⟩ := hp.of_error e he
      exact ⟨hpos, hs, hne, fun hsock h => T.sends hsock _ (h ▸ hs)⟩
    · have hle : k.tried .send ≤ 0 + _ := hk.other hs
      split at hle
      · omega
      · omega
    · have hle : k.tried .send ≤ 0 + _ := hk.other hs
      rw [if_pos h1] at hle
      omega
  · intro type' x' k' htype' he
    have hk' := avLoopWrite_exec htype'.apt he
    obtain ⟨acc, hp, hacc⟩ := hk.plain
    obtain ⟨acc', hp', hacc'⟩ := hk'.plain
    -- both calls meet the same transfers, which settle the outcome
    obtain ⟨hr, rfl, -⟩ := hp'.unique hp
    exact ⟨hr, hacc'.trans hacc.symm⟩

/-- A pipe that is interrupted, takes two bytes, and then none. -/
def demoKernel : Kernel where
  fd := 1
  socket := false
  seq := fun i => if i = 0 then .fail .EINTR else if i = 1 then .count 2 else .count 0
  sends := fun h => by cases h
  settles := fun i => ⟨i + 2, Nat.le_add_right .., by
    rw [if_neg (by omega), if_neg (by omega)]
    exact fun h => by cases h⟩

def demoMem : Bytes := fun i => UInt8.ofNat i

theorem cached_write_agrees_demo : ∃ k, Exec (sem demoKernel) (avLoopWrite 1 1 3 (some 0))
    (start demoMem) (.ok 2, some 1) k ∧ k.accepted = [1, 2] ∧
    ∀ type' x' k', Passed 1 false type' →
      Exec (sem demoKernel) (avLoopWrite 1 1 3 type') (start demoMem) x' k' →
      x'.1 = .ok 2 ∧ k'.accepted = [1, 2] := by
  have hplay : ((play (fun _ : Unit => exec demoKernel) (fun _ _ _ => true) 20
      (List.replicate 20 ()) (avLoopWrite 1 1 3 (some 0)) (start demoMem)).any fun x =>
        decide (x.1.1 = .ok 2 ∧ x.1.2 = some 1 ∧ x.2.accepted = [1, 2])) =
          true := by decide +kernel
  obtain ⟨⟨⟨r, f⟩, k⟩, hrun, hk⟩ := (Option.any_eq_true _ _).1 hplay
  obtain ⟨hr, hf, hacc⟩ : r = .ok 2 ∧ f = some 1 ∧ k.accepted = [1, 2] :=
    of_decide_eq_true hk
  subst hr hf
  have he := exec_of_play (fun _ o k r k' _ h => h) hrun
  have hall := cached_write_agrees demoKernel demoMem 1 3 (some 0) (by decide) (by decide)
    (by decide) .zero
  refine ⟨k, he, hacc, fun type' x' k' htype' he' => ?_⟩
  obtain ⟨hr', hacc'⟩ := (hall.exec he).2 type' x' k' htype' he'
  exact ⟨hr', hacc'.trans hacc⟩

end Cached
end AnekVideo
