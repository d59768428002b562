/-
  AnekVideo.Io.Whine

  The warning about missing entropy over every run of `av_random` and
  `av_random_seed`, from the start of the process.

  What the two devices do during a call is part of the run: whether they can be
  opened, and how many bytes they deliver until an end of file or an error.  The
  addresses and values the functions pass around do not matter here, so a load
  may read anything.  The static latch itself works; what it does over a run
  depends on the value it starts with.
-/
import AnekVideo.Random

namespace AnekVideo
namespace Whine

open Interact

/-! ## The system -/

/-- A device during one call: how opening it fails, the number of bytes it still delivers, and
    how reading fails after them. -/
structure Device where
  opens : Option Errno
  left : Nat
  ends : Option Errno
  ends_ne : ends ≠ some .EINTR

/-- The devices by their paths. -/
abbrev Devices := String → Device

/-- The latch, what was logged, how often `rand` and `time` were asked, and the open device.
    `signals` counts the interruptions still to come. -/
structure State where
  hasWhined : Bool
  log : List (LogLevel × String)
  fallbacks : Nat
  current : Option (Int × Device)
  signals : Nat

/-- Settles what is free. -/
inductive Choice
  | done
  | fd (n : Nat)
  | part (n : Nat)
  | intr
  | fail (e : Errno)
  | word (r : UInt32)

/-- A read of at most `count` bytes, of which the device has `n` ready. -/
def Device.read (d : Device) (n count : Nat) : Option (Except Errno Nat × Device) :=
  if d.left = 0 then some (d.ends.elim (.ok 0) .error, d)
  else if 0 < n ∧ n ≤ count ∧ n ≤ d.left then some (.ok n, { d with left := d.left - n })
  else none

/-- A call that is interrupted. -/
def interrupted {α : Type} (k : State) : Option (Except Errno α × State) :=
  if k.signals = 0 then none else some (.error .EINTR, { k with signals := k.signals - 1 })

/-- One operation. -/
def exec (dev : Devices) (ch : Choice) : (o : Sys) → State → Option (o.Resp × State)
  | .log lvl fmt _, k => some ((), { k with log := (lvl, fmt) :: k.log })
  | .open path, k =>
    match (dev path).opens, ch with
    | some e, _ => some (.error e, k)
    | none, .fd n => some (.ok n, { k with current := some (n, dev path) })
    | none, _ => none
  | .read fd _ count, k =>
    match ch, k.current with
    | .intr, _ => interrupted k
    | .part n, some (f, d) =>
      if f = fd then (d.read n count).map fun x =>
        (x.1, { k with current := some (f, x.2) }) else none
    | _, _ => none
  | .close _, k =>
    match ch with
    | .intr => interrupted k
    | .done => some (.ok (), { k with current := none })
    | .fail e => if e = .EINTR then none else some (.error e, { k with current := none })
    | _ => none
  | .rand, k =>
    match ch with
    | .word r => some (r, { k with fallbacks := k.fallbacks + 1 })
    | _ => none
  | .time, k =>
    match ch with
    | .word r => some (r, { k with fallbacks := k.fallbacks + 1 })
    | _ => none
  | .srand _, k => some ((), k)
  | .load32 _, k =>
    match ch with
    | .word r => some (r, k)
    | _ => none
  | .store8 _ _, k => some ((), k)
  | .getHasWhined, k => some (k.hasWhined, k)
  | .setHasWhined b, k => some ((), { k with hasWhined := b })
  | _, _ => none

/-- What the operations may do while the devices are as `dev` says. -/
def sem (dev : Devices) : OpSem sys State := fun o k r k' => ∃ ch, exec dev ch o k = some (r, k')

/-- A process starts, its latch at `w`. -/
def start (w : Bool) : State where
  hasWhined := w
  log := []
  fallbacks := 0
  current := none
  signals := 0

/-! ## The calls -/

/-- The calls of a run. -/
inductive Call
  | seed (addr : Nat)
  | random (retData length : Nat)

namespace Call

def prog : Call → C Unit
  | seed a => avRandomSeed a
  | random a n => avRandom a n

/-- Where `random_proper` is asked to store. -/
def addr : Call → Nat
  | seed a => a
  | random a _ => a

/-- How much `random_proper` is asked for. -/
def size : Call → Nat
  | seed _ => 4
  | random _ n => n

end Call

/-! ## One operation -/

variable {dev : Devices} {stop : Sys → Prop} {α : Type} {k k' : State} {d : Device}

/-- An operation that has one outcome, then the rest. -/
theorem call_ends {o : Sys} {f : o.Resp → C α} {Q : α → State → Prop} {r : o.Resp}
    (he : ∀ ch, exec dev ch o k = some (r, k')) (h : Ends (sem dev) stop Q (f r) k') :
    Ends (sem dev) stop Q (call o >>= f) k := Ends.op_det .done he h

theorem assert_ends {b : Bool} {expr func : String} {g : Unit → C α} {Q : α → State → Prop}
    (hb : b = false → stop .abort) (h : b = true → Ends (sem dev) stop Q (g ()) k) :
    Ends (sem dev) stop Q (avAssert b expr func >>= g) k :=
  avAssert_ends (fun _ _ _ => ⟨_, .done, rfl⟩) hb h

/-- Nothing is logged, and nothing is asked of `rand` or `time`. -/
structure Same (k k' : State) : Prop where
  hasWhined : k'.hasWhined = k.hasWhined
  log : k'.log = k.log
  fallbacks : k'.fallbacks = k.fallbacks

theorem Same.refl (k : State) : Same k k := ⟨rfl, rfl, rfl⟩

theorem Same.trans {k₁ k₂ k₃ : State} (h : Same k₁ k₂) (h' : Same k₂ k₃) :
    Same k₁ k₃ :=
  ⟨h'.hasWhined.trans h.hasWhined, h'.log.trans h.log, h'.fallbacks.trans h.fallbacks⟩

theorem interrupted_cases {β : Type} {r : Except Errno β} (h : interrupted k = some (r, k')) :
    r = .error .EINTR ∧ k.signals ≠ 0 ∧ k' = { k with signals := k.signals - 1 } := by
  unfold interrupted at h
  split at h
  · cases h
  · rename_i hs
    cases h
    exact ⟨rfl, hs, rfl⟩

/-- A call that is retried while it is interrupted; each interruption uses up a signal. -/
theorem retry_ends {β : Type} {c : C (Except Errno β)} {Q : Except Errno β → State → Prop}
    (hc : ∀ n, Ends (sem dev) stop (fun r k' =>
      (r = .error .EINTR ∧ n ≠ 0 ∧ k' = { k with signals := n - 1 }) ∨
        (r ≠ .error .EINTR ∧ Q r k'))
      c { k with signals := n }) : Ends (sem dev) stop Q (eintrLoop c) k := by
  exact eintrLoop_signals (p := fun n => { k with signals := n }) State.signals (fun _ => rfl)
    hc k.signals

/-! ## Reading -/

variable {fd : Int} {data size count : Nat}

theorem read_cases {ch : Choice} {r : Except Errno Nat} (hcur : k.current = some (fd, d))
    (h : exec dev ch (.read fd data count) k = some (r, k')) :
    (r = .error .EINTR ∧ k.signals ≠ 0 ∧ k' = { k with signals := k.signals - 1 }) ∨
      ∃ n d', d.read n count = some (r, d') ∧ k' = { k with current := some (fd, d') } := by
  cases ch with
  | intr => exact .inl (interrupted_cases h)
  | part n =>
    simp only [exec, hcur, if_true] at h
    obtain ⟨⟨r', d'⟩, hd, h⟩ := Option.map_eq_some_iff.1 h
    cases h
    exact .inr ⟨n, d', hd, rfl⟩
  | done => cases h
  | fd n => cases h
  | fail e => cases h
  | word r => cases h

/-- A device that has nothing left fails or is at its end; else it delivers some bytes. -/
theorem Device.read_cases {n : Nat} {r : Except Errno Nat} {d' : Device}
    (h : d.read n count = some (r, d')) : r ≠ .error .EINTR ∧
      ((d.left = 0 ∧ d' = d ∧ ∀ m, r = .ok m → m = 0) ∨
        (0 < n ∧ n ≤ count ∧ n ≤ d.left ∧ r = .ok n ∧ d'.left = d.left - n)) := by
  unfold Device.read at h
  split at h
  · rename_i h0
    cases h
    refine ⟨?_, .inl ⟨h0, rfl, fun m hm => ?_⟩⟩
    · cases hends : d.ends with
      | none => exact fun h => by cases h
      | some e => exact fun h => d.ends_ne (hends.trans (congrArg some (Except.error.inj h)))
    · cases hends : d.ends with
      | none =>
        rw [hends] at hm
        cases hm
        rfl
      | some e =>
        rw [hends] at hm
        cases hm
  · split at h
    · rename_i hn
      cases h
      exact ⟨(fun h => by cases h), .inr ⟨hn.1, hn.2.1, hn.2.2, rfl, rfl⟩⟩
    · cases h

/-- The open device can always be read. -/
theorem exists_read (hcur : k.current = some (fd, d)) (hcount : 0 < count) :
    ∃ r k', sem dev (.read fd data count) k r k' := by
  have hread : ∃ x, d.read (min count d.left) count = some x := by
    unfold Device.read
    by_cases h0 : d.left = 0
    · exact ⟨_, if_pos h0⟩
    · exact ⟨_, (if_neg h0).trans (if_pos ⟨by omega, by omega, by omega⟩)⟩
  obtain ⟨x, hx⟩ := hread
  refine ⟨x.1, { k with current := some (fd, x.2) }, .part (min count d.left), ?_⟩
  simp only [exec, hcur, if_true, hx, Option.map_some]

/-- `av_read` on the open device. -/
theorem avRead_ends (hcur : k.current = some (fd, d)) (hcount : 0 < count) :
    Ends (sem dev) stop (fun r k' => Same k k' ∧ ∃ n d', k'.current = some (fd, d') ∧
      d.read n count = some (r, d')) (avRead fd data count) k := by
  refine retry_ends fun s => ?_
  refine Ends.last (E := sys) (o := Sys.read fd data count) (.inr (exists_read hcur hcount))
    fun r k' hs => ?_
  obtain ⟨ch, he⟩ := hs
  have hcur' : ({ k with signals := s } : State).current = some (fd, d) := hcur
  rcases read_cases hcur' he with hintr | ⟨n, d', hd, rfl⟩
  · exact .inl hintr
  · exact .inr ⟨(Device.read_cases hd).1, ⟨rfl, rfl, rfl⟩, n, d', rfl, hd⟩

/-- `av_loop_read` returns `size` exactly if the device still delivers as many bytes. -/
theorem avLoopRead_ends (hcur : k.current = some (fd, d)) (hfd : 0 ≤ fd) (hdata : data ≠ 0)
    (hsize : size ≠ 0) :
    Ends (sem dev) stop (fun r k' => Same k k' ∧ (r = .ok size ↔ size ≤ d.left))
      (avLoopRead fd data size) k := by
  refine assert_ends (fun hb => absurd hfd (of_decide_eq_false hb)) fun _ => ?_
  refine assert_ends (fun hb => absurd hdata (of_decide_eq_false hb)) fun _ => ?_
  refine assert_ends (fun hb => absurd hsize (of_decide_eq_false hb)) fun _ => ?_
  -- what is still to be read against what is left on the device
  refine (Ends.iter (s := (0, data, size)) (I := fun s k' => ∃ d, k'.current = some (fd, d))
    (R := fun s k r k' => Same k k' ∧ ∀ d, k.current = some (fd, d) →
      (r = .ok (s.1 + s.2.2) ↔ s.2.2 ≤ d.left)) (fun s _ => s.2.2) ?_ ⟨d, hcur⟩).mono ?_
  · rintro ⟨ret, data, size⟩ k ⟨d, hcur⟩
    dsimp only
    by_cases hpos : 0 < size
    · rw [if_pos hpos]
      refine .seq (avRead_ends hcur hpos) fun r k' hr => ?_
      obtain ⟨hsame, n, d', hcur', hread⟩ := hr
      have hd : ∀ d₁, k.current = some (fd, d₁) → d₁ = d := by
        intro d₁ h₁
        cases h₁.symm.trans hcur
        rfl
      rcases (Device.read_cases hread).2 with ⟨h0, -, hok⟩ | ⟨hn, hcount, hleft, rfl, hd'⟩
      · cases r with
        | error e =>
          refine .pure ⟨hsame, fun d₁ h₁ => ?_⟩
          obtain rfl := hd d₁ h₁
          exact ⟨(fun h => by cases h), fun h => by omega⟩
        | ok m =>
          dsimp only
          obtain rfl := hok m rfl
          rw [if_pos rfl]
          refine .pure ⟨hsame, fun d₁ h₁ => ?_⟩
          obtain rfl := hd d₁ h₁
          refine ⟨fun h => ?_, fun h => by omega⟩
          have := Except.ok.inj h
          omega
      · dsimp only
        rw [if_neg (by omega)]
        refine .pure ⟨⟨d', hcur'⟩, by dsimp only; omega, fun r k'' hrest => ?_⟩
        refine ⟨hsame.trans hrest.1, fun d₁ h₁ => ?_⟩
        obtain rfl := hd d₁ h₁
        have hiff := hrest.2 d' hcur'
        dsimp only at hiff ⊢
        rw [show ret + size = ret + n + (size - n) by omega, hiff]
        omega
    · rw [if_neg hpos]
      obtain rfl : size = 0 := by omega
      exact .pure ⟨.refl k, fun d₁ _ => ⟨fun _ => Nat.zero_le _, fun _ => rfl⟩⟩
  · rintro r k' ⟨hsame, hiff⟩
    refine ⟨hsame, ?_⟩
    have h := hiff d hcur
    rwa [Nat.zero_add] at h

/-! ## The devices -/

theorem avClose_ends : Ends (sem dev) stop (fun _ k' => Same k k') (avClose fd) k := by
  refine retry_ends fun s => ?_
  have hlive : sem dev (.close fd) { k with signals := s } (.ok ())
    { k with current := none, signals := s } := ⟨.done, rfl⟩
  refine Ends.last (E := sys) (o := Sys.close fd) (.inr ⟨_, _, hlive⟩) fun r k' hs => ?_
  obtain ⟨ch, he⟩ := hs
  cases ch with
  | intr => exact .inl (interrupted_cases he)
  | done =>
    cases he
    exact .inr ⟨(fun h => by cases h), ⟨rfl, rfl, rfl⟩⟩
  | fail e =>
    simp only [exec] at he
    split at he
    · cases he
    · rename_i hne
      cases he
      exact .inr ⟨fun h => hne (Except.error.inj h), ⟨rfl, rfl, rfl⟩⟩
  | fd n => cases he
  | part n => cases he
  | word r => cases he

/-- The device can be opened and delivers `length` bytes. -/
def Device.Serves (d : Device) (length : Nat) : Prop := d.opens = none ∧ length ≤ d.left

/-- A device of the table serves the request. -/
def Delivers (dev : Devices) (length : Nat) : Prop :=
  ∃ path, path ∈ devices ∧ (dev path).Serves length

variable {length retData : Nat} {path : String}

/-- One device: 0 exactly if it serves the request. -/
theorem randomDevice_ends (hdata : retData ≠ 0) (hlength : length ≠ 0) :
    Ends (sem dev) stop (fun r k' => Same k k' ∧
      ((r = 0 ∧ (dev path).Serves length) ∨ (r = -1 ∧ ¬ (dev path).Serves length)))
      (randomDevice path retData length) k := by
  unfold randomDevice
  cases hopen : (dev path).opens with
  | some e =>
    have he : ∀ ch, exec dev ch (.open path) k = some (.error e, k) := by
      intro ch
      simp only [exec, hopen]
    refine call_ends he (.pure ⟨.refl k, .inr ⟨rfl, fun hs => ?_⟩⟩)
    cases hopen.symm.trans hs.1
  | none =>
    -- the device can be opened, at any number
    have hlive : sem dev (.open path) k (.ok ((0 : Nat) : Int))
        { k with current := some ((0 : Nat), dev path) } := by
      refine ⟨.fd 0, ?_⟩
      simp only [exec, hopen]
    refine .op (.inr ⟨_, _, hlive⟩) fun r k' hs => ?_
    obtain ⟨ch, he⟩ := hs
    cases ch with
    | fd n =>
      simp only [exec, hopen] at he
      cases he
      refine .seq (avLoopRead_ends rfl (Int.natCast_nonneg n) hdata hlength) fun r k₁ hr => ?_
      obtain ⟨hsame, hiff⟩ := hr
      refine .seq avClose_ends fun _ k₂ hsame₂ => ?_
      have hall : Same k k₂ :=
        Same.trans ⟨hsame.hasWhined, hsame.log, hsame.fallbacks⟩ hsame₂
      cases r with
      | error e => exact .pure ⟨hall, .inr ⟨rfl, fun hs => by cases hiff.2 hs.2⟩⟩
      | ok m =>
        refine .pure ⟨hall, ?_⟩
        by_cases hm : m = length
        · exact .inl ⟨if_neg (not_not.2 hm), hopen, hiff.1 (congrArg _ hm)⟩
        · exact .inr ⟨if_pos hm, fun hs => hm (Except.ok.inj (hiff.2 hs.2))⟩
    | done => simp only [exec, hopen] at he; cases he
    | part n => simp only [exec, hopen] at he; cases he
    | intr => simp only [exec, hopen] at he; cases he
    | fail e => simp only [exec, hopen] at he; cases he
    | word r => simp only [exec, hopen] at he; cases he

/-- `random_proper` fails exactly if no device of the table serves the request. -/
theorem randomProper_ends (hdata : retData = 0 → stop .abort)
    (hlength : length = 0 → stop .abort) :
    Ends (sem dev) stop (fun r k' => Same k k' ∧
      ((r = 0 ∧ Delivers dev length) ∨ (r = -1 ∧ ¬ Delivers dev length)))
      (randomProper retData length) k := by
  refine assert_ends (fun hb => hdata (not_not.1 (of_decide_eq_false hb))) fun hb₁ => ?_
  refine assert_ends (fun hb => hlength (by have := of_decide_eq_false hb; omega)) fun hb₂ => ?_
  have hdata : retData ≠ 0 := of_decide_eq_true hb₁
  have hlength : 0 < length := of_decide_eq_true hb₂
  -- the devices that are left, after those that have failed
  refine (Ends.iter (s := (devices, -1)) (I := fun s _ => s.2 = -1)
    (R := fun s k r k' => Same k k' ∧ ((r = 0 ∧ ∃ path, path ∈ s.1 ∧ (dev path).Serves length) ∨
      (r = -1 ∧ ¬ ∃ path, path ∈ s.1 ∧ (dev path).Serves length))) (fun s _ => s.1.length) ?_ rfl)
  rintro ⟨paths, ret⟩ k hret
  cases paths with
  | nil =>
    refine .pure ⟨.refl k, .inr ⟨hret, ?_⟩⟩
    rintro ⟨path, hp, -⟩
    cases hp
  | cons path rest =>
    refine .seq (randomDevice_ends hdata (by omega)) fun r k' hr => ?_
    obtain ⟨hsame, ⟨rfl, hserves⟩ | ⟨rfl, hnot⟩⟩ := hr
    · exact .pure ⟨hsame, .inl ⟨rfl, path, List.mem_cons_self .., hserves⟩⟩
    · rw [if_neg (by decide)]
      refine .pure ⟨rfl, Nat.lt_succ_self _, fun r k'' hrest => ⟨hsame.trans hrest.1, ?_⟩⟩
      refine hrest.2.imp ?_ ?_
      · rintro ⟨hr, path', hp, hs⟩
        exact ⟨hr, path', List.mem_cons_of_mem _ hp, hs⟩
      · rintro ⟨hr, hnone⟩
        refine ⟨hr, ?_⟩
        rintro ⟨path', hp, hs⟩
        rcases List.mem_cons.1 hp with rfl | hp
        · exact hnot hs
        · exact hnone ⟨path', hp, hs⟩

/-! ## The warning -/

/-- The two texts of the warning. -/
def warningTexts : List String :=
  ["Failed to get proper entropy. Falling back to seeding with current time.",
   "Failed to get proper entropy. Falling back to unsecure pseudo RNG."]

/-- A logged line is the warning. -/
def isWarning (x : LogLevel × String) : Bool := decide (x.1 = .warn ∧ x.2 ∈ warningTexts)

/-- The number of entropy warnings logged since the process started. -/
def warnings (k : State) : Nat := k.log.countP isWarning

/-- The law: one warning from the first fallback on, and none before. -/
def Reported (k : State) : Prop := warnings k = if k.fallbacks = 0 then 0 else 1

/-- What holds if the latch has started at `w`. -/
structure Latched (w : Bool) (k : State) : Prop where
  hasWhined : k.hasWhined = (w || decide (k.fallbacks ≠ 0))
  warnings : warnings k = if w = true ∨ k.fallbacks = 0 then 0 else 1

/-- Between the warning and the fallback. -/
structure Whined (w : Bool) (k : State) : Prop where
  hasWhined : k.hasWhined = true
  warnings : warnings k = if w = true then 0 else 1

variable {w : Bool}

theorem Latched.start (w : Bool) : Latched w (start w) := by
  cases w with
  | true => exact ⟨rfl, rfl⟩
  | false => exact ⟨rfl, rfl⟩

theorem Latched.same (h : Latched w k) (hsame : Same k k') : Latched w k' := by
  refine ⟨?_, ?_⟩
  · rw [hsame.hasWhined, hsame.fallbacks]
    exact h.hasWhined
  · rw [Whine.warnings, hsame.log, hsame.fallbacks]
    exact h.warnings

/-- The first fallback completes the step. -/
theorem Whined.latched (h : Whined w k) (hlog : k'.log = k.log) (hw : k'.hasWhined = k.hasWhined)
    (hpos : k'.fallbacks ≠ 0) : Latched w k' := by
  refine ⟨?_, ?_⟩
  · rw [hw, h.hasWhined, decide_eq_true hpos, Bool.or_true]
  · rw [Whine.warnings, hlog, ← Whine.warnings, h.warnings]
    simp only [hpos, or_false]

/-- `whine` warns unless the latch is set, and sets it. -/
theorem whine_ends {fmt : String} (hfmt : fmt ∈ warningTexts) (h : Latched w k) :
    Ends (sem dev) stop (fun _ k' => Whined w k' ∧ k'.fallbacks = k.fallbacks) (whine fmt) k := by
  refine call_ends (r := k.hasWhined) (fun _ => rfl) ?_
  have hw := h.hasWhined
  cases hwhined : k.hasWhined with
  | true =>
    rw [if_pos rfl]
    refine .pure ⟨⟨hwhined, h.warnings.trans ?_⟩, rfl⟩
    rw [hwhined] at hw
    by_cases hzero : k.fallbacks = 0
    · -- the latch has been set from the start
      rw [decide_eq_false (not_not.2 hzero), Bool.or_false] at hw
      rw [if_pos (.inr hzero), if_pos hw.symm]
    · simp only [hzero, or_false]
  | false =>
    rw [if_neg Bool.false_ne_true]
    rw [hwhined] at hw
    obtain ⟨hfalse, hzero⟩ := Bool.or_eq_false_iff.1 hw.symm
    -- no call has fallen back before this one
    have hzero : k.fallbacks = 0 := not_not.1 (of_decide_eq_false hzero)
    have hnone : warnings k = 0 := h.warnings.trans (if_pos (.inr hzero))
    refine call_ends (fun _ => rfl) ?_
    refine Ends.last (E := sys) (o := Sys.setHasWhined true) (.inr ⟨(), _, .done, rfl⟩) ?_
    rintro _ k' ⟨ch, he⟩
    cases he
    refine ⟨⟨rfl, ?_⟩, rfl⟩
    have hwarn : isWarning (.warn, fmt) = true := decide_eq_true ⟨rfl, hfmt⟩
    show ((LogLevel.warn, fmt) :: k.log).countP isWarning = _
    rw [List.countP_cons_of_pos hwarn, hfalse, if_neg Bool.false_ne_true]
    exact congrArg Nat.succ hnone

/-! ## One call -/

/-- `rand` and `time` count as a fallback. -/
theorem fallback_ends {o : Sys} {f : o.Resp → C α} {Q : α → State → Prop}
    (ho : o = .rand ∨ o = .time)
    (h : ∀ r, Ends (sem dev) stop Q (f r) { k with fallbacks := k.fallbacks + 1 }) :
    Ends (sem dev) stop Q (call o >>= f) k := by
  have hexec : ∀ ch r k', exec dev ch o k = some (r, k') →
      k' = { k with fallbacks := k.fallbacks + 1 } := by
    intro ch r k' he
    rcases ho with rfl | rfl
    · cases ch <;> cases he
      rfl
    · cases ch <;> cases he
      rfl
  have hlive : ∃ r k', sem dev o k r k' := by
    rcases ho with rfl | rfl
    · exact ⟨_, _, .word 0, rfl⟩
    · exact ⟨_, _, .word 0, rfl⟩
  refine .op (.inr hlive) fun r k' hs => ?_
  obtain ⟨ch, he⟩ := hs
  obtain rfl := hexec ch r k' he
  exact h r

/-- What a call leaves: it has fallen back exactly if no device served it. -/
structure Called (w : Bool) (dev : Devices) (c : Call) (k k' : State) : Prop where
  latched : Latched w k'
  served : Delivers dev c.size → k'.fallbacks = k.fallbacks
  fallen : ¬ Delivers dev c.size → k.fallbacks < k'.fallbacks

/-- The bytes of the buffer come from `rand`. -/
theorem fill_ends :
    Ends (sem dev) stop (fun _ k' => k'.log = k.log ∧ k'.hasWhined = k.hasWhined ∧
      k'.fallbacks = k.fallbacks + length)
    (Prog.iter (fun (s : Nat × Nat) => do
      if s.2 > 0 then
        let r ← call .rand
        call (.store8 s.1 (UInt8.ofNat r.toNat))
        return .inl (s.1 + 1, s.2 - 1)
      else return .inr ()) (retData, length)) k := by
  refine Ends.iter (s := (retData, length)) (I := fun _ _ => True)
    (R := fun s (k : State) _ (k' : State) =>
      k'.log = k.log ∧ k'.hasWhined = k.hasWhined ∧ k'.fallbacks = k.fallbacks + s.2)
    (fun s _ => s.2) ?_ trivial
  rintro ⟨p, l⟩ k -
  dsimp only
  by_cases hl : 0 < l
  · rw [if_pos hl]
    refine fallback_ends (.inl rfl) fun r => call_ends (fun _ => rfl) ?_
    refine .pure ⟨trivial, by dsimp only; omega, fun _ k'' hrest => ?_⟩
    obtain ⟨hlog, hw, hcount⟩ := hrest
    refine ⟨hlog, hw, hcount.trans ?_⟩
    dsimp only
    omega
  · rw [if_neg hl]
    obtain rfl : l = 0 := by omega
    exact .pure ⟨rfl, rfl, rfl⟩

theorem call_called {c : Call} (h : Latched w k) (hdata : c.addr = 0 → stop .abort)
    (hlength : c.size = 0 → stop .abort) :
    Ends (sem dev) stop (fun _ k' => Called w dev c k k') c.prog k := by
  cases c with
  | seed a =>
    refine .seq (randomProper_ends hdata hlength) fun r k₁ hr => ?_
    obtain ⟨hsame, ⟨rfl, hserved⟩ | ⟨rfl, hnot⟩⟩ := hr
    · rw [if_neg (by decide)]
      refine .op (.inr ⟨_, _, .word 0, rfl⟩) fun r k₂ hs => ?_
      obtain ⟨ch, he⟩ := hs
      -- reading the seed changes nothing
      have hk : k₂ = k₁ := by
        cases ch <;> cases he
        rfl
      subst hk
      refine Ends.last (E := sys) (o := Sys.srand r) (.inr ⟨(), _, .done, rfl⟩) ?_
      rintro _ k' ⟨ch, he⟩
      cases he
      exact ⟨h.same hsame, fun _ => hsame.fallbacks, fun hnot => absurd hserved hnot⟩
    · rw [if_pos (by decide)]
      refine .seq (whine_ends (List.mem_cons_self ..) (h.same hsame)) fun _ k₂ hw => ?_
      obtain ⟨hw, hcount⟩ := hw
      refine fallback_ends (.inr rfl) fun t => ?_
      refine Ends.last (E := sys) (o := Sys.srand t) (.inr ⟨(), _, .done, rfl⟩) ?_
      rintro _ k' ⟨ch, he⟩
      cases he
      refine ⟨hw.latched rfl rfl (Nat.succ_ne_zero _), fun hserved => absurd hserved hnot,
        fun _ => ?_⟩
      show k.fallbacks < k₂.fallbacks + 1
      rw [hcount, hsame.fallbacks]
      omega
  | random retData length =>
    refine assert_ends (fun hb => hdata (not_not.1 (of_decide_eq_false hb))) fun _ => ?_
    refine assert_ends (fun hb => hlength
      (by have := of_decide_eq_false hb; simp only [Call.size]; omega)) fun hb => ?_
    have hpos : 0 < length := of_decide_eq_true hb
    refine .seq (randomProper_ends hdata hlength) fun r k₁ hr => ?_
    obtain ⟨hsame, ⟨rfl, hserved⟩ | ⟨rfl, hnot⟩⟩ := hr
    · rw [if_pos (by decide)]
      exact .pure ⟨h.same hsame, fun _ => hsame.fallbacks, fun hnot => absurd hserved hnot⟩
    · rw [if_neg (by decide)]
      refine .seq (whine_ends (List.mem_cons_of_mem _ (List.mem_cons_self ..)) (h.same hsame))
        fun _ k₂ hw => ?_
      obtain ⟨hw, hcount⟩ := hw
      refine fill_ends.mono fun _ k' hk => ?_
      obtain ⟨hlog, hwhined, hfill⟩ := hk
      refine ⟨hw.latched hlog hwhined ?_, fun hserved => absurd hserved hnot, fun _ => ?_⟩
      · omega
      · rw [hfill, hcount, hsame.fallbacks]
        omega

/-! ## Runs -/

/-- Calls in any order from the start of a process whose latch starts at `w`, each with what the
    devices do during it and the number of interruptions. -/
inductive Run (w : Bool) : List (Call × Devices) → State → Prop
  | start : Run w [] (start w)
  | call {calls : List (Call × Devices)} {c : Call} {dev : Devices} {signals : Nat}
      {k k' : State} :
      Run w calls k → Exec (sem dev) c.prog { k with signals := signals } () k' →
      Run w (calls ++ [(c, dev)]) k'

variable {calls : List (Call × Devices)} {c : Call}

/-- A call that completes. -/
theorem exec_called {n : Nat} (h : Latched w k)
    (he : Exec (sem dev) c.prog { k with signals := n } () k') : Called w dev c k k' := by
  have hsame : Same k { k with signals := n } := ⟨rfl, rfl, rfl⟩
  have hends : Ends (sem dev) (fun _ => True)
      (fun _ k' => Called w dev c { k with signals := n } k')
      c.prog { k with signals := n } := call_called (h.same hsame) (fun _ => trivial)
        fun _ => trivial
  obtain ⟨hlatched, hserved, hfallen⟩ := hends.exec he
  exact ⟨hlatched, hserved, hfallen⟩

theorem Run.latched (hrun : Run w calls k) : Latched w k := by
  induction hrun with
  | start => exact .start w
  | call _ he ih => exact (exec_called ih he).latched

/-- Nothing has fallen back exactly if every call was served. -/
theorem Run.fallbacks_eq_zero_iff (hrun : Run w calls k) :
    k.fallbacks = 0 ↔ ∀ x, x ∈ calls → Delivers x.2 x.1.size := by
  induction hrun with
  | start => exact ⟨fun _ x hx => absurd hx List.not_mem_nil, fun _ => rfl⟩
  | @call calls c dev n k k' hrun he ih =>
    obtain ⟨-, hserved, hfallen⟩ := exec_called hrun.latched he
    constructor
    · intro h0 x hx
      have hdel : Delivers dev c.size := by
        by_contra hnot
        have := hfallen hnot
        omega
      rcases List.mem_append.1 hx with hx | hx
      · exact ih.1 ((hserved hdel).symm.trans h0) x hx
      · rw [List.mem_singleton.1 hx]
        exact hdel
    · intro hall
      have hdel := hall (c, dev) (List.mem_append_right _ (List.mem_singleton_self _))
      exact (hserved hdel).trans (ih.2 fun x hx => hall x (List.mem_append_left _ hx))

/-- A latch that starts unset keeps the law in every run. -/
theorem reported_of_unset (hrun : Run false calls k) : Reported k := by
  have h := hrun.latched.warnings
  simp only [Bool.false_eq_true, false_or] at h
  exact h

/-- Any further call that is given somewhere to store something completes. -/
theorem Run.extend (hrun : Run w calls k) (dev : Devices) (hdata : c.addr ≠ 0)
    (hlength : c.size ≠ 0) : ∃ k', Run w (calls ++ [(c, dev)]) k' := by
  have hends : Ends (sem dev) (fun _ => False)
      (fun _ k' => Called w dev c { k with signals := 0 } k') c.prog { k with signals := 0 } :=
    call_called (hrun.latched.same ⟨rfl, rfl, rfl⟩) hdata hlength
  obtain ⟨_, k', he, -⟩ := hends.exists_exec fun _ => id
  exact ⟨k', .call hrun he⟩

/-- The latch of the code starts set, so that nothing is ever logged: the law holds in the state
    a run reaches exactly if each of its calls was served by a device. -/
theorem warned_once_iff (calls : List (Call × Devices)) (k : State)
    (hrun : Run hasWhinedInit calls k) :
    Reported k ↔ ∀ x, x ∈ calls → Delivers x.2 x.1.size := by
  have hnone : warnings k = 0 := hrun.latched.warnings.trans (if_pos (.inl rfl))
  rw [← hrun.fallbacks_eq_zero_iff, Reported, hnone]
  by_cases h0 : k.fallbacks = 0
  · simp only [h0, if_true]
  · simp only [h0, if_false]
    decide

/-- Both devices are there. -/
def present : Devices := fun _ => ⟨none, 512, none, fun h => by cases h⟩

/-- No device is there. -/
def missing : Devices := fun _ => ⟨some .ENOENT, 0, none, fun h => by cases h⟩

/-- A seed and two random numbers, from `/dev/urandom`. -/
theorem warned_once_iff_demo :
    ∃ k, Run hasWhinedInit [(.seed 16, present), (.random 32 2, present)] k ∧ Reported k := by
  have hstart : Run hasWhinedInit [] (start hasWhinedInit) := .start
  obtain ⟨k₁, h₁⟩ := hstart.extend (c := .seed 16) present (by decide) (by decide)
  obtain ⟨k₂, h₂⟩ := h₁.extend (c := .random 32 2) present (by decide) (by decide)
  have hserved : ∀ n, n ≤ 512 → Delivers present n :=
    fun n hn => ⟨"/dev/urandom", by decide, rfl, hn⟩
  refine ⟨k₂, h₂, (warned_once_iff _ k₂ h₂).2 fun x hx => ?_⟩
  fin_cases hx
  · exact hserved 4 (by decide)
  · exact hserved 2 (by decide)

/-- Without the devices `av_random` takes its bytes from `rand`, and logs nothing. -/
theorem nothing_said :
    ∃ k, Run hasWhinedInit [(.random 32 2, missing)] k ∧ k.fallbacks ≠ 0 ∧
    warnings k = 0 ∧ ¬ Reported k := by
  have hstart : Run hasWhinedInit [] (start hasWhinedInit) := .start
  obtain ⟨k, hrun⟩ := hstart.extend (c := .random 32 2) missing (by decide) (by decide)
  have hnot : ¬ Delivers missing 2 := by
    rintro ⟨path, -, hopens, -⟩
    cases hopens
  have hfallen : k.fallbacks ≠ 0 := fun h0 =>
    hnot (hrun.fallbacks_eq_zero_iff.1 h0 _ (List.mem_singleton_self _))
  have hnone : warnings k = 0 := hrun.latched.warnings.trans (if_pos (.inl rfl))
  refine ⟨k, hrun, hfallen, hnone, fun h => ?_⟩
  rw [Reported, hnone, if_neg hfallen] at h
  cases h

end Whine
end AnekVideo
