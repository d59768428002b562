/-
  AnekVideo.Shm.Passes

  Any number of `av_shm_cleanup` passes at once, with nobody creating, freeing
  or dying meanwhile.

  `sweepSystem` interleaves processes that each have so many passes to make.
  Whatever the interleaving, they all come to rest after finitely many steps,
  every pass has returned 0, and the directory is the old one without its
  stale names, once and for all the same ones.
-/
import AnekVideo.Interact.Progress
import AnekVideo.Shm.Pass
import AnekVideo.Shm.Safety

namespace AnekVideo

open Interact Kernel

/-! ## The system -/

/-- How many passes a process has left, and what the others returned. -/
structure SweepSt where
  left : Nat
  results : List Int
  deriving DecidableEq, Repr

/-- Processes of one user that do nothing but run `av_shm_cleanup`. -/
def sweepSystem (h : Host) : System sys Kernel where
  Choice := Choice
  Call := Unit
  Ret := Int
  St := SweepSt
  Birth := Empty
  exec := Kernel.exec h
  body := fun _ => avShmCleanup h
  enabled := fun _ s _ => decide (0 < s.left)
  enter := fun _ _ k => k
  leave := fun _ _ _ k => k
  after := fun _ s _ r => ⟨s.left - 1, r :: s.results⟩
  die := fun _ k => k
  spawn := fun b => b.elim

/-- No call fails on its own, and nobody dies. -/
def sweeps (h : Host) : System.Policy (sweepSystem h) where
  op := fun _ ch o k => Fair false ch k o
  other
    | .die _ => False
    | .spawn _ _ => False
    | _ => True

/-- `T` processes with so many passes to make on `k₀`. -/
def sweepStart (h : Host) (k₀ : Kernel) (T : Nat) (passes : Nat → Nat) :
    (sweepSystem h).Config where
  k := k₀
  th := fun t => if t < T then .idle (⟨passes t, []⟩ : SweepSt) else .none

/-- All passes have returned 0, no step is left, and /dev/shm holds what it held in `k₀`
    except for the stale names. -/
structure AllSwept (h : Host) (k₀ : Kernel) (T : Nat) (passes : Nat → Nat)
    (c : (sweepSystem h).Config) : Prop where
  done : ∀ t, t < T → c.th t = .idle (⟨0, List.replicate (passes t) 0⟩ : SweepSt)
  stuck : ∀ l, (sweeps h).Allows c l → System.step c l = none
  dir : ∀ n i, c.k.dir.lookup n = some i ↔ k₀.dir.lookup n = some i ∧ ¬ Stale h k₀ n
  inodes : c.k.inodes = k₀.inodes

namespace Sweep

variable {h : Host} {k₀ k : Kernel} {T t : Nat} {passes : Nat → Nat}

/-! ## The protocol -/

/-- A process between two passes. -/
structure Between (h : Host) (k₀ : Kernel) (T : Nat) (passes : Nat → Nat) (t : Nat)
    (s : SweepSt) (k : Kernel) : Prop where
  has : Has h k₀ t (k₀.procs t).fds (k₀.procs t).maps k
  lt : t < T
  results : s.results = List.replicate (passes t - s.left) 0
  left : s.left ≤ passes t
  swept : s.left < passes t → Pending h false k₀ [] k

/-- What sweeping processes promise each other. -/
def sweepProtocol (h : Host) (k₀ : Kernel) (T : Nat) (passes : Nat → Nat) :
    System.Protocol (sweeps h) where
  rely := Rely h k₀
  guar := fun t _ k _ k' => Guar h k₀ t k k'
  rely_refl := fun t k => (view h false k₀ t).rely_refl k
  rely_trans := (view h false k₀ _).rely_trans
  inv := Base h k₀
  idle := Between h k₀ T passes
  guar_rely := fun hs hg => hg.rely _ (Ne.symm hs)
  guar_inv := fun hg => hg.base
  idle_stable := fun _ hr hi => ⟨hi.has.rely hr, hi.lt, hi.results, hi.left,
    fun hlt => Pending.aside [] _ _ _ hr (hi.swept hlt)⟩
  enter_inv := fun hi _ _ => hi
  enter_rely := fun {_ u _ _ k} _ _ _ _ => (view h false k₀ u).rely_refl k
  leave_inv := fun hi _ => hi
  leave_rely := fun {_ u _ _ _ k} _ _ _ => (view h false k₀ u).rely_refl k
  die_inv := fun hi => hi
  die_rely := fun {_ u k} _ _ => (view h false k₀ u).rely_refl k
  spawn_inv := fun {b} => b.elim
  spawn_rely := fun {b} => b.elim
  spawn_idle := fun {b} => b.elim

/-- Every pass takes its share of what a process may still do. -/
def sweepCountdown (h : Host) (k₀ : Kernel) (T : Nat) (passes : Nat → Nat) :
    (sweepProtocol h k₀ T passes).Countdown where
  budget := fun s => s.left * (passCost k₀ + 2)
  cost := fun _ _ => passCost k₀
  bounded := by
    intro t s _ he
    have hleft : 0 < s.left := of_decide_eq_true he
    refine Env.Bounded.assume (φ := t < T ∧ s.results = List.replicate (passes t - s.left) 0 ∧
      s.left ≤ passes t) (fun k ⟨k₁, _, hi, _⟩ => ⟨hi.lt, hi.results, hi.left⟩)
        fun hs => ?_
    obtain ⟨hlt, hres, hle⟩ := hs
    have hpass : (view h false k₀ t).Bounded (passCost k₀)
        (Has h k₀ t (k₀.procs t).fds (k₀.procs t).maps) (avShmCleanup h) _ :=
          avShmCleanup_bounded
    refine (hpass.pre ?_).post ?_
    · rintro _ ⟨k, _, hi, rfl⟩
      exact hi.has
    rintro r k ⟨hk, hr, hp⟩
    have hr : r = 0 := hr rfl
    subst hr
    refine ⟨⟨hk, hlt, ?_, ?_, fun _ => hp⟩, ?_⟩
    · change 0 :: s.results = List.replicate (passes t - (s.left - 1)) 0
      rw [hres, show passes t - (s.left - 1) = passes t - s.left + 1 by omega]
      rfl
    · exact Nat.le_trans (Nat.sub_le ..) hle
    · change passCost k₀ + 2 + (s.left - 1) * (passCost k₀ + 2) ≤
        s.left * (passCost k₀ + 2)
      obtain ⟨n, hn⟩ : ∃ n, s.left = n + 1 := ⟨s.left - 1, by omega⟩
      rw [hn, Nat.add_sub_cancel, Nat.add_mul, Nat.one_mul, Nat.add_comm]
  start := fun _ _ => trivial
  spin := fun _ => trivial
  finish := fun _ => trivial
  die := fun _ => id
  spawn := fun _ _ => id

/-- The moves left to each process at the start. -/
theorem sweepCounts (h : Host) (k₀ : Kernel) (T : Nat) (passes : Nat → Nat) :
    (sweepCountdown h k₀ T passes).Counts T (sweepStart h k₀ T passes)
      fun t => passes t * (passCost k₀ + 2) := by
  refine ⟨Base.refl h k₀, fun t ht => if_neg (Nat.not_lt.2 ht), fun t => ?_⟩
  by_cases ht : t < T
  · have hth : (sweepStart h k₀ T passes).th t = .idle (⟨passes t, []⟩ : SweepSt) :=
      if_pos ht
    rw [hth]
    refine ⟨⟨⟨Base.refl h k₀, rfl, .refl _⟩, ht, ?_, Nat.le_refl _, ?_⟩,
      Nat.le_refl _⟩
    · rw [Nat.sub_self]
      rfl
    · exact fun hlt => absurd hlt (Nat.lt_irrefl _)
  · have hth : (sweepStart h k₀ T passes).th t = .none := if_neg ht
    rw [hth]
    trivial

/-! ## Where it ends -/

/-- Once a pass is over, the directory is the old one without its stale names. -/
theorem Base.swept (hb : Base h k₀ k) (hp : Pending h false k₀ [] k) (n : CStr) (i : Nat) :
    k.dir.lookup n = some i ↔ k₀.dir.lookup n = some i ∧ ¬ Stale h k₀ n := by
  constructor
  · intro hl
    refine ⟨hb.sub n i hl, fun hst => ?_⟩
    -- nothing is pending once a pass is over, so a stale name is gone
    rcases hp rfl n hst with hmem | hgone
    · cases hmem
    · rw [Gone, hl] at hgone
      cases hgone
  · rintro ⟨hl, hst⟩
    exact hb.kept n i hl hst

/-- Nobody has died. -/
def Present (T : Nat) (c : (sweepSystem h).Config) : Prop := ∀ t, t < T → c.th t ≠ .none

theorem Present.step {c c' : (sweepSystem h).Config} {l : (sweepSystem h).Label} (hp : Present T c)
    (hok : (sweeps h).Allows c l) (hs : System.step c l = some c') : Present T c' := by
  have hput : ∀ {t th k}, th ≠ .none → Present T (c.put t th k) := by
    intro t th k hth u hu
    by_cases hut : u = t
    · subst hut
      rwa [System.Config.put_th_self]
    · rw [System.Config.put_th_ne _ _ _ hut]
      exact hp u hu
  cases l with
  | start t call =>
    obtain ⟨s, -, -, rfl⟩ := System.step_start hs
    exact hput nofun
  | op t ch =>
    obtain ⟨s, call, p, o, f, r, k', -, -, -, rfl⟩ := System.step_op hs
    exact hput nofun
  | spin t =>
    obtain ⟨s, call, p, p', -, -, rfl⟩ := System.step_spin hs
    exact hput nofun
  | finish t =>
    obtain ⟨s, call, p, r, -, -, rfl⟩ := System.step_finish hs
    exact hput nofun
  | die t => exact hok.elim
  | spawn t b => exact b.elim

/-- Where the processes come to rest, everything is swept. -/
theorem AllSwept.of_atRest {c : (sweepSystem h).Config} (hsome : ∃ t, t < T ∧ 0 < passes t)
    (hr : (sweepProtocol h k₀ T passes).AtRest c) (hp : Present T c) :
    AllSwept h k₀ T passes c := by
  -- at rest nobody is inside of a pass, and nobody may start one
  have hidle : ∀ t, c.th t ≠ .none → ∃ s : SweepSt, c.th t = .idle s ∧ s.left = 0 ∧
      Between h k₀ T passes t s c.k := by
    intro t hne
    have hrest := hr.2 t
    cases hth : c.th t with
    | none => exact absurd hth hne
    | idle s =>
      rw [hth] at hrest
      exact ⟨s, rfl, Nat.eq_zero_of_not_pos (of_decide_eq_false (hrest.2 ())), hrest.1⟩
    | busy s call p =>
      rw [hth] at hrest
      exact hrest.elim
  obtain ⟨t, ht, hpos⟩ := hsome
  obtain ⟨s, -, h0, hs⟩ := hidle t (hp t ht)
  exact
    { done := fun t ht => by
        obtain ⟨⟨left, results⟩, hth, rfl, hs⟩ := hidle t (hp t ht)
        rw [hth]
        have hres : results = List.replicate (passes t - 0) 0 := hs.results
        rw [hres, Nat.sub_zero]
      stuck := fun _ hok => System.Protocol.Countdown.AtRest.stuck
        (sweepCountdown h k₀ T passes) hr hok
      dir := fun n i => Base.swept hr.1 (hs.swept (by omega)) n i
      inodes := hr.1.inodes }

end Sweep

open Sweep

/-- **Stale segments are swept, exactly those.**  However the passes of any number of
    processes interleave, they all return 0, and then /dev/shm holds its old content
    without the stale names. -/
theorem stale_swept (h : Host) (k₀ : Kernel) (T : Nat) (passes : Nat → Nat)
    (hsome : ∃ t, t < T ∧ 0 < passes t) :
    System.Inevitable (sweeps h) (AllSwept h k₀ T passes) (sweepStart h k₀ T passes) := by
  -- nobody dies, so at the end each process has made its passes
  have hpresent : Present T (sweepStart h k₀ T passes) := fun t ht hne => by
    have hth : (sweepStart h k₀ T passes).th t = .idle (⟨passes t, []⟩ : SweepSt) := if_pos ht
    rw [hth] at hne
    cases hne
  exact ((sweepCounts h k₀ T passes).inevitable.keep hpresent fun _ _ _ hp hok hs =>
    hp.step hok hs).mono fun c hc => AllSwept.of_atRest hsome hc.1 hc.2

/-- The object of a dead owner with pid 99: one page for the user, then the marker. -/
def demoInode : Inode :=
  { len := 4104
    data := Word.store32 (Word.store32 (fun _ => 0) 4100 99) 4096 shmMarker
    readable := true
    removable := true
    made := none }

/-- Two names of the same id, one with a leading zero, each with such an object; nobody
    has pid 99. -/
def demoLeftover : Kernel :=
  { demoBoot.k with
    dir := (∅ : AList fun _ : CStr => Nat).insert (shmNamePrefix ++ ['0', '8']) 1 |>.insert
      (entryName 8) 0
    inodes := fun _ => demoInode
    inos := 2 }

theorem demoLeftover_stale : Stale demoHost demoLeftover (entryName 8) :=
  ⟨8, 0, rfl, by decide +kernel, rfl, by decide, by decide +kernel, by decide, by decide +kernel,
    by decide +kernel, by decide +kernel, by decide +kernel, rfl⟩

/-- Three passes by two processes. -/
theorem stale_swept_demo : Stale demoHost demoLeftover (entryName 8) ∧
    System.Inevitable (sweeps demoHost) (AllSwept demoHost demoLeftover 2 fun t => t + 1)
      (sweepStart demoHost demoLeftover 2 fun t => t + 1) :=
  ⟨demoLeftover_stale, stale_swept demoHost demoLeftover 2 (fun t => t + 1)
    ⟨0, by decide, by decide⟩⟩

end AnekVideo
