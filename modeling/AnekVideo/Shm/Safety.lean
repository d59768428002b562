/-
  AnekVideo.Shm.Safety

  What holds in every run of processes that use shm.h, however their system
  calls and memory accesses are interleaved.

  The marker is published safely: a cleanup reads a marker only inside the
  segment and where its creator puts it, and never takes a wrong pid for the
  creator's.  Names are not as safe: between the judgement of a cleanup and its
  unlink the name may have gone to another segment (`live_name_lost`).  In the
  runs where that does not happen, nobody loses a name to anybody else.
-/
import AnekVideo.Shm.Verify

namespace AnekVideo

open Interact Kernel

variable {h : Host} {c₀ c c' : (shmSystem h).Config}

/-- Before the first process of ours is born: /dev/shm and the process table hold what
    they hold, and none of the objects was made by `av_shm_create_rw`. -/
structure Boots (c : (shmSystem h).Config) : Prop where
  names : ∀ n i, c.k.dir.lookup n = some i → i < c.k.inos
  pids : ∀ s, s < c.k.nprocs → 0 < (c.k.procs s).pid.toNat ∧ (c.k.procs s).pid.toNat < 2 ^ 31
  made : ∀ i, (c.k.inodes i).made = none
  threads : ∀ t, c.th t = .none

theorem Boots.ok {b : Bool} (h₀ : Boots c₀) : (shmProtocol h b).Ok c₀ := by
  refine ⟨⟨h₀.names, fun n i mk _ hmk => ?_, h₀.pids, fun i mk hmk => ?_⟩, fun t => ?_⟩
  · rw [h₀.made i] at hmk
    cases hmk
  · rw [h₀.made i] at hmk
    cases hmk
  · rw [h₀.threads t]
    trivial

/-- Every configuration of every run is in order. -/
theorem Boots.reach {b : Bool} (h₀ : Boots c₀) (hr : System.Reach (runs h b) c₀ c) :
    (shmProtocol h b).Ok c := System.Protocol.Ok.reach (shm_verified h b) h₀.ok hr

/-- The policy without conditions lets every run pass. -/
theorem reach_runs (hr : System.Reach (System.Policy.free (shmSystem h)) c₀ c) :
    System.Reach (runs h false) c₀ c := by
  refine hr.mono fun c l _ => ?_
  cases l with
  | op t ch => exact fun _ _ _ _ _ _ _ => nofun
  | _ => trivial

/-! ## The marker -/

/-- **The owner marker is published safely.**  In every run, every word a process loads
    from a segment is the marker or the pid behind it, it lies inside the segment, and
    what is loaded after a marker is the pid of the creator; and every word a process
    stores is its own pid or the marker, at these places of its own new segment. -/
theorem marker_published (h₀ : Boots c₀) (hr : System.Reach (System.Policy.free _) c₀ c)
    {t : Nat} {ch : Choice} (hs : System.step c (.op t ch) = some c') :
    (∀ a, System.Issues c t (.atomicLoad a : Sys) → LoadOk h t a c.k c'.k) ∧
      ∀ a v, System.Issues c t (.atomicStore a v : Sys) → StoreOk h t a v c.k := by
  have hok := h₀.reach (reach_runs hr)
  have hall : (runs h false).Allows c (.op t ch) := fun _ _ _ _ _ _ _ => nofun
  constructor
  · intro a hi
    obtain ⟨r, hg⟩ := hok.guar hall hi hs
    exact hg.load a rfl
  · intro a v hi
    obtain ⟨r, hg⟩ := hok.guar hall hi hs
    exact hg.store a v rfl

/-! ## Names -/

/-- Only the creator of a segment takes its name away while the creator is alive. -/
def NameSafe (c : (shmSystem h).Config) (l : (shmSystem h).Label) (c' : (shmSystem h).Config) :
    Prop :=
  ∀ n i mk, c.k.dir.lookup n = some i → (c.k.inodes i).made = some mk →
    c'.k.dir.lookup n ≠ some i →
      (∃ t ch, l = .op t ch ∧ ByCreator t c.k n mk) ∨ (c.k.procs mk.owner).alive = false

/-- **In a steady run no live segment loses its name to somebody else.**  Steady are
    the runs in which every unlink of a cleanup or create finds the name unbound or
    bound to the object the process opened last. -/
theorem live_name_kept (h₀ : Boots c₀) (hr : System.Reach (runs h true) c₀ c)
    {l : (shmSystem h).Label} (hok : (runs h true).Allows c l) (hs : System.step c l = some c') :
    NameSafe c l c' := by
  have horder := h₀.reach hr
  intro n i mk hl hmk hgone
  cases l with
  | op t ch =>
    obtain ⟨s, call, p, o, f, r, k', hth, hp, he, rfl⟩ := System.step_op hs
    -- what the process promises about its operation
    have hg := (horder.op hok hth hp he).1
    rcases hg.removal rfl n i mk hl hmk hgone with hby | hdead
    · exact .inl ⟨t, ch, rfl, hby⟩
    · exact .inr hdead
  | start t call =>
    -- all other steps leave the directory alone
    obtain ⟨s, -, -, rfl⟩ := System.step_start hs
    exact absurd hl hgone
  | spin t =>
    obtain ⟨s, call, p, p', -, -, rfl⟩ := System.step_spin hs
    exact absurd hl hgone
  | finish t =>
    obtain ⟨s, call, p, r, -, -, rfl⟩ := System.step_finish hs
    exact absurd hl hgone
  | die t =>
    obtain ⟨-, rfl⟩ := System.step_die hs
    exact absurd hl hgone
  | spawn t pid =>
    obtain ⟨s, k', -, hb, rfl⟩ := System.step_spawn hs
    obtain ⟨-, -, -, rfl⟩ := spawn_cases hb
    exact absurd hl hgone

/-! ## Runs on a small machine -/

/-- Whether a step keeps a run steady, decided. -/
def keepsSteady (c : (shmSystem h).Config) : (shmSystem h).Label → Bool
  | .op t _ =>
    match c.th t with
    | .busy _ _ p =>
      match p.head with
      | .call (.shmUnlink ('/' :: n)) _ =>
        match c.k.dir.lookup n with
        | some i => (c.k.procs t).opened == some i
        | none => true
      | _ => true
    | _ => true
  | _ => true

theorem allows_of_keepsSteady {l : (shmSystem h).Label} (hk : keepsSteady c l = true) :
    (runs h true).Allows c l := by
  cases l with
  | op t ch =>
    intro s call p o f hth hp _ n ho _ i hl
    subst ho
    simpa [keepsSteady, hth, hp, hl] using hk
  | _ => trivial

/-- A 64-bit machine with pages of 4096 bytes. -/
def demoHost : Host := ⟨8, 4096, false, 0o022, .inr rfl, by decide, by decide⟩

/-- Nothing in /dev/shm, and nobody there. -/
def demoBoot : (shmSystem demoHost).Config where
  k :=
    { dir := ∅, inodes := fun _ => ⟨0, fun _ => 0, false, false, none⟩, inos := 0
      procs := fun _ => { newProc 0 with alive := false }, nprocs := 0, group := fun _ => false }
  th := fun _ => .none

theorem demoBoot_boots : Boots demoBoot :=
  ⟨nofun, fun _ hs => absurd hs (Nat.not_lt_zero _), fun _ => rfl, fun _ => rfl⟩

abbrev DemoLabel := (shmSystem demoHost).Label

/-- The next operation of process `t` succeeds, with the number `n` where there is one
    to choose. -/
def demoOk (t n : Nat) : DemoLabel := .op t (.ok n : Choice)

/-- Process `t` is born and starts a call. -/
def demoStart (t : Nat) (pid : UInt32) (c : ShmCall) : List DemoLabel :=
  [.spawn t pid, .start t c]

/-- Process `t` scans an empty directory. -/
def demoScan (t : Nat) : List DemoLabel :=
  [.op t (.names 3 [] : Choice), demoOk t 0, demoOk t 0]

/-- Process `t` draws the id 7 and creates its segment. -/
def demoCreate (t : Nat) : List DemoLabel :=
  [demoOk t 3, .op t (.bytes [7, 0, 0, 0] : Choice), demoOk t 0, demoOk t 0, demoOk t 4,
    demoOk t 0, demoOk t 8192, demoOk t 0, demoOk t 0, demoOk t 0, demoOk t 0, .finish t]

/-- Process `t` finds segment 7, reads its marker and pid, and finds the owner dead. -/
def demoJudge (t : Nat) : List DemoLabel :=
  [.op t (.names 3 [entryName 7] : Choice), demoOk t 0, demoOk t 4, demoOk t 0, demoOk t 4096,
    demoOk t 0, demoOk t 0, demoOk t 0, demoOk t 0, demoOk t 0]

/-- A creator of segment 7 that has died, and a cleanup about to unlink it. -/
def demoStale : List DemoLabel :=
  demoStart 0 100 (.create 1 {} 1 1 0o600) ++ demoScan 0 ++ demoCreate 0 ++ [.die 0] ++
    demoStart 1 101 .cleanup ++ demoJudge 1

/-- Then a second cleanup, inside a create, overtakes it: it removes the stale segment
    and draws the id 7 again. -/
def demoRace : List DemoLabel :=
  demoStale ++ demoStart 2 102 (.create 1 {} 1 1 0o600) ++ demoJudge 2 ++
    [demoOk 2 0, demoOk 2 0, demoOk 2 0] ++ demoCreate 2

/-- A live segment loses its name to a cleanup that had judged its predecessor. -/
theorem live_name_lost : ∃ c c' l, System.Reach (System.Policy.free _) demoBoot c ∧
    System.step c l = some c' ∧ ¬ NameSafe c l c' := by
  obtain ⟨c, hc, hp⟩ := (Option.any_eq_true _ _).1 (show
    ((System.steps (fun _ _ => true) demoBoot demoRace).any fun c =>
      match System.step c (demoOk 1 0) with
      | some c' => decide (c.k.dir.lookup (entryName 7) = some 1 ∧
          (c.k.inodes 1).made = some ⟨2, 1, entryName 7, 1⟩ ∧ (c.k.procs 2).alive = true ∧
          c'.k.dir.lookup (entryName 7) = none)
      | none => false) = true by decide +kernel)
  split at hp
  · rename_i c' hs
    -- the name was bound to the new segment, of a live owner, when the old judgement took it
    obtain ⟨hl, hmk, ha, hgone⟩ := of_decide_eq_true hp
    refine ⟨c, c', _, System.reach_of_steps (fun c l _ => System.Policy.allows_free c l) hc, hs,
      fun hsafe => ?_⟩
    rcases hsafe _ _ _ hl hmk (by rw [hgone]; nofun) with ⟨t, ch, ht, hby, -⟩ | hdead
    · cases ht
      cases hby
    · rw [ha] at hdead
      cases hdead
  · cases hp

/-- The steady run in which the cleanup removes the segment of the dead. -/
theorem live_name_kept_demo : ∃ c c', System.Reach (runs demoHost true) demoBoot c ∧
    System.step c (demoOk 1 0) = some c' ∧ c.k.dir.lookup (entryName 7) = some 0 ∧
    c'.k.dir.lookup (entryName 7) = none ∧ NameSafe c (demoOk 1 0) c' := by
  obtain ⟨c, hc, hp⟩ := (Option.any_eq_true _ _).1 (show
    ((System.steps keepsSteady demoBoot demoStale).any fun c =>
      keepsSteady c (demoOk 1 0) &&
      match System.step c (demoOk 1 0) with
      | some c' => decide (c.k.dir.lookup (entryName 7) = some 0 ∧
          c'.k.dir.lookup (entryName 7) = none)
      | none => false) = true by decide +kernel)
  rw [Bool.and_eq_true] at hp
  obtain ⟨hsteady, hp⟩ := hp
  split at hp
  · rename_i c' hs
    have hr : System.Reach (runs demoHost true) demoBoot c :=
      System.reach_of_steps (fun _ _ => allows_of_keepsSteady) hc
    obtain ⟨hl, hgone⟩ := of_decide_eq_true hp
    exact ⟨c, c', hr, hs, hl, hgone,
      live_name_kept demoBoot_boots hr (allows_of_keepsSteady hsteady) hs⟩
  · cases hp

/-- Process 1 is about to load the word at `addr`. -/
def demoLoads (addr : Nat) (c : (shmSystem demoHost).Config) : Bool :=
  match c.th 1 with
  | .busy _ _ p =>
    match p.head with
    | .call (.atomicLoad a) _ => a == addr
    | _ => false
  | _ => false

/-- The load of the pid in the same run. -/
theorem marker_published_demo : ∃ c c', System.Reach (System.Policy.free _) demoBoot c ∧
    System.step c (demoOk 1 0) = some c' ∧ LoadOk demoHost 1 8196 c.k c'.k := by
  obtain ⟨c, hc, hp⟩ := (Option.any_eq_true _ _).1 (show
    ((System.steps (fun _ _ => true) demoBoot (demoStale.take 27)).any fun c =>
      (System.step c (demoOk 1 0)).isSome && demoLoads 8196 c) = true by decide +kernel)
  rw [Bool.and_eq_true] at hp
  obtain ⟨hs, hp⟩ := hp
  obtain ⟨c', hs⟩ := Option.isSome_iff_exists.1 hs
  have hr : System.Reach (System.Policy.free _) demoBoot c :=
    System.reach_of_steps (fun c l _ => System.Policy.allows_free c l) hc
  unfold demoLoads at hp
  split at hp
  · rename_i s call p hth
    split at hp
    · rename_i a f hhead
      obtain rfl : a = 8196 := by simpa using hp
      exact ⟨c, c', hr, hs,
        (marker_published demoBoot_boots hr hs).1 8196 ⟨s, call, p, f, hth, hhead⟩⟩
    · cases hp
  · cases hp

end AnekVideo
