/-
  AnekVideo.Util

  src/util.c and src/util.h: assertions, rounding, and the loops around the
  system calls that retry on `EINTR`.
-/
import AnekVideo.Interact.Total
import AnekVideo.Sys

namespace AnekVideo

open Interact

/-! ## The machine -/

/-- The machine and the user the processes run as: `sizeof(void*)`, the page
    size, whether the user is root, and the umask. -/
structure Host where
  ptrSize : Nat
  pageSize : Nat
  root : Bool
  umask : Nat
  ptrSize_eq : ptrSize = 4 ∨ ptrSize = 8
  ptr_dvd_page : ptrSize ∣ pageSize
  page_dvd_max : pageSize ∣ 1024 * 1024 * 64

/-- One past the largest `size_t` (and `unsigned long`). -/
def Host.sizeMod (h : Host) : Nat := 2 ^ (8 * h.ptrSize)

/-- `av_align`: round up to a multiple of `sizeof(void*)`, in `size_t`. -/
def avAlign (h : Host) (l : Nat) : Nat :=
  (((l + h.ptrSize - 1) % h.sizeMod) / h.ptrSize * h.ptrSize) % h.sizeMod

/-- `av_page_align`: round up to a multiple of the page size, in `size_t`. -/
def avPageAlign (h : Host) (l : Nat) : Nat :=
  (((l + h.pageSize - 1) % h.sizeMod) / h.pageSize * h.pageSize) % h.sizeMod

/-! ## Assertions -/

/-- `av_assert_se`: log the expression and abort if it is false. -/
def avAssert (b : Bool) (expr func : String) : C Unit :=
  if b then pure ()
  else do
    call (.log .error "Assertion '%s' failed at %s:%u, function %s(). Aborting."
      [.text expr, .text func])
    let e ← call .abort
    return e.elim

/-- `if (call < 0) av_log_error(fmt, strerror(errno))`. -/
def logIfError {α : Type} (r : Except Errno α) (fmt : String) (args : List LogArg) : C Unit :=
  match r with
  | .error e => call (.log .error fmt (args ++ [.strerror e]))
  | .ok _ => pure ()

/-! ## Loops around system calls -/

/-- `for (;;) { if ((r = call) < 0) if (errno == EINTR) continue; return r; }`. -/
def eintrLoop {α : Type} (c : C (Except Errno α)) : C (Except Errno α) :=
  Prog.iter (fun _ : Unit => do
    match ← c with
    | .error e => if e = .EINTR then return .inl () else return .inr (.error e)
    | .ok a => return .inr (.ok a)) ()

/-- `av_close`. -/
def avClose (fd : Int) : C (Except Errno Unit) := eintrLoop (call (.close fd))

/-- `av_ioctl`. -/
def avIoctl (fd : Int) (req : Ioctl) : C (Except Errno req.Out) := eintrLoop (call (.ioctl fd req))

/-- `av_read`. -/
def avRead (fd : Int) (buf count : Nat) : C (Except Errno Nat) :=
  eintrLoop (call (.read fd buf count))

/-- The first loop of `av_write`: send with `MSG_NOSIGNAL`. -/
def avWriteSend (fd : Int) (buf count : Nat) : C (Except Errno Nat) :=
  eintrLoop (call (.send fd buf count))

/-- The second loop of `av_write`: write. -/
def avWriteWrite (fd : Int) (buf count : Nat) : C (Except Errno Nat) :=
  eintrLoop (call (.write fd buf count))

/-- `av_write`.  `type` is what the pointer points to, `none` for a null pointer;
    the second result is what it points to afterwards. -/
def avWrite (fd : Int) (buf count : Nat) (type : Option Int) :
    C (Except Errno Nat × Option Int) := do
  -- 0: nothing is known of the descriptor yet
  if type = none ∨ type = some 0 then
    match ← avWriteSend fd buf count with
    | .ok r => return (.ok r, type)
    | .error e =>
      if e ≠ .ENOTSOCK then return (.error e, type)
      else
        -- not a socket, which `*type` remembers
        let r ← avWriteWrite fd buf count
        return (r, type.map fun _ => 1)
  else
    let r ← avWriteWrite fd buf count
    return (r, type)

/-- `av_loop_read`: read until `size` bytes are there, an end of file or an error.
    The loop state is `ret`, `data` and `size`. -/
def avLoopRead (fd : Int) (data size : Nat) : C (Except Errno Nat) := do
  avAssert (decide (0 ≤ fd)) "fd >= 0" "av_loop_read"
  avAssert (decide (data ≠ 0)) "data" "av_loop_read"
  avAssert (decide (size ≠ 0)) "size" "av_loop_read"
  Prog.iter (fun (s : Nat × Nat × Nat) => do
    if s.2.2 > 0 then
      match ← avRead fd s.2.1 s.2.2 with
      | .error e => return .inr (.error e)
      | .ok r =>
        -- the end of the file
        if r = 0 then return .inr (.ok s.1)
        else return .inl (s.1 + r, s.2.1 + r, s.2.2 - r)
    else return .inr (.ok s.1)) (0, data, size)

/-- `av_loop_write`: the same around `av_write`, which a null `type` makes share a
    local flag.  The loop state is `ret`, `data`, `size` and the flag. -/
def avLoopWrite (fd : Int) (data size : Nat) (type : Option Int) :
    C (Except Errno Nat × Option Int) := do
  avAssert (decide (0 ≤ fd)) "fd >= 0" "av_loop_write"
  avAssert (decide (data ≠ 0)) "data" "av_loop_write"
  avAssert (decide (size ≠ 0)) "size" "av_loop_write"
  let out (flag : Option Int) : Option Int := if type = none then none else flag
  Prog.iter (fun (s : Nat × Nat × Nat × Option Int) => do
    if s.2.2.1 > 0 then
      match ← avWrite fd s.2.1 s.2.2.1 s.2.2.2 with
      | (.error e, flag) => return .inr (.error e, out flag)
      | (.ok r, flag) =>
        if r = 0 then return .inr (.ok s.1, out flag)
        else return .inl (s.1 + r, s.2.1 + r, s.2.2.1 - r, flag)
    else return .inr (.ok s.1, out s.2.2.2))
    (0, data, size, if type = none then some 0 else type)

/-! ## Rules for assertions and loops -/

/-- A failed assertion is logged and ends the process. -/
theorem avAssert_ends {K α : Type} {sem : OpSem sys K} {stop : Sys → Prop}
    {Q : α → K → Prop} {k : K} {b : Bool} {expr func : String} {g : Unit → C α}
    (hlog : ∀ lvl fmt args, ∃ k', sem (.log lvl fmt args) k () k')
    (hb : b = false → stop .abort) (h : b = true → Ends sem stop Q (g ()) k) :
    Ends sem stop Q (avAssert b expr func >>= g) k := by
  cases b with
  | true => exact .bind (.pure (h rfl))
  | false =>
    obtain ⟨k', hs⟩ := hlog .error _ [.text expr, .text func]
    refine .bind (.op (.inr ⟨(), k', hs⟩) fun _ _ _ => ?_)
    exact .op (.inl (hb rfl)) fun e => e.elim

/-- The loop around a call returns what the call returns, `EINTR` apart. -/
theorem eintrLoop_triple {K α : Type} {W : Env sys K} {P : K → Prop} {c : C (Except Errno α)}
    {Q : Except Errno α → K → Prop} (hQ : ∀ r, W.Stable (Q r)) (hc : W.Triple P c Q)
    (hint : ∀ k, Q (.error .EINTR) k → P k) :
    W.Triple P (eintrLoop c) fun r k => r ≠ .error .EINTR ∧ Q r k := by
  have hret : ∀ r, W.Stable fun k => r ≠ .error .EINTR ∧ Q r k :=
    fun r => (Env.Stable.const _).and (hQ r)
  refine Env.Triple.iter (I := fun _ => P) (fun _ => hc.bind fun r => ?_) hret ()
  cases r with
  | ok a => exact Env.Triple.ret (hQ _) fun k hk => ⟨(fun h => by cases h), hk⟩
  | error e =>
    dsimp only
    split
    · rename_i he
      exact Env.Triple.ret (hQ _) fun k hk => hint k (he ▸ hk)
    · rename_i he
      exact Env.Triple.ret (hQ _) fun k hk => ⟨fun h => he (Except.error.inj h), hk⟩

/-- The loop ends where each interruption uses up some of `μ`. -/
theorem eintrLoop_ends {K α : Type} {sem : OpSem sys K} {stop : Sys → Prop} {I : K → Prop}
    {c : C (Except Errno α)} {Q : Except Errno α → K → Prop} (μ : K → Nat)
    (hc : ∀ k, I k → Ends sem stop
      (fun r k' => (r = .error .EINTR → I k' ∧ μ k' < μ k) ∧ (r ≠ .error .EINTR → Q r k')) c k)
    {k : K} (hk : I k) : Ends sem stop Q (eintrLoop c) k := by
  refine Ends.iter (I := fun _ => I) (R := fun _ _ => Q) (fun _ => μ) (fun _ k hk => ?_) hk
  refine .seq (hc k hk) fun r k' hr => ?_
  cases r with
  | ok a => exact .pure (hr.2 fun h => by cases h)
  | error e =>
    dsimp only
    by_cases he : e = .EINTR
    · obtain ⟨hI, hlt⟩ := hr.1 (he ▸ rfl)
      rw [if_pos he]
      exact .pure ⟨hI, hlt, fun _ _ => id⟩
    · rw [if_neg he]
      exact .pure (hr.2 fun h => he (Except.error.inj h))

/-- The loop ends where each interruption uses up one of the signals to come; `p n` is the state
    with `n` of them left. -/
theorem eintrLoop_signals {K α : Type} {sem : OpSem sys K} {stop : Sys → Prop} {p : Nat → K}
    {c : C (Except Errno α)} {Q : Except Errno α → K → Prop} (g : K → Nat)
    (hg : ∀ n, g (p n) = n)
    (hc : ∀ n, Ends sem stop (fun r k' => (r = .error .EINTR ∧ n ≠ 0 ∧ k' = p (n - 1)) ∨
      (r ≠ .error .EINTR ∧ Q r k')) c (p n)) (n : Nat) :
    Ends sem stop Q (eintrLoop c) (p n) := by
  refine eintrLoop_ends (I := fun k => ∃ n, k = p n) g ?_ ⟨n, rfl⟩
  rintro _ ⟨n, rfl⟩
  refine (hc n).mono fun r k' hr => ?_
  rcases hr with ⟨rfl, hn, rfl⟩ | ⟨hne, hQ⟩
  · refine ⟨fun _ => ⟨⟨n - 1, rfl⟩, ?_⟩, fun hne => absurd rfl hne⟩
    rw [hg, hg]
    omega
  · exact ⟨fun h => absurd h hne, fun _ => hQ⟩

end AnekVideo
