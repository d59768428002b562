/-
  AnekVideo.Shm.Reclaim

  What the dead leave behind, and what a later cleanup makes of it.

  A segment whose creator died is reclaimed by the next cleanup if its marker
  is there and its file may be read.  A creator that dies between `shm_open`
  and the store of the marker leaves a file that no cleanup ever takes for a
  segment (`half_created_kept`).
-/
import AnekVideo.Interact.Total
import AnekVideo.Shm.Passes
import AnekVideo.Shm.Safety

namespace AnekVideo

open Interact Kernel Sweep

variable {h : Host}

/-- Starting a call changes nobody's pid and keeps everybody alive or dead. -/
theorem enter_same (k : Kernel) (t : Nat) (call : ShmCall) (s : Nat) :
    ((k.enter t call).procs s).pid = (k.procs s).pid ∧
      ((k.enter t call).procs s).alive = (k.procs s).alive := by
  unfold Kernel.enter
  by_cases hs : s = t
  · subst hs
    rw [setProc_self]
    exact ⟨rfl, rfl⟩
  · rw [setProc_ne _ _ _ hs]
    exact ⟨rfl, rfl⟩

/-- One pass on its own: whatever its system calls answer, it ends, returns 0 and has
    removed the stale names. -/
theorem avShmCleanup_alone (k : Kernel) (t : Nat) :
    Ends (fairSem h false t) (fun _ => False) (fun r k' => r = 0 ∧ Base h k k' ∧
      ∀ n i, k'.dir.lookup n = some i ↔ k.dir.lookup n = some i ∧ ¬ Stale h k n)
      (avShmCleanup h) k := by
  have hpass : (Sweep.view h false k t).Bounded (passCost k)
      (Has h k t (k.procs t).fds (k.procs t).maps) (avShmCleanup h) _ := avShmCleanup_bounded
  have hends := (hpass k ⟨.refl h k, rfl, .refl _⟩).ends
  refine hends.mono fun r k' hpost => ?_
  obtain ⟨hk, hr, hp⟩ := hpost
  exact ⟨hr rfl, hk.base, fun n i => hk.base.swept hp n i⟩

/-- Segment `i` was made by a process that is dead, and nobody has its pid. -/
structure Orphan (k : Kernel) (i : Nat) (mk : Made) : Prop where
  made : (k.inodes i).made = some mk
  dead : (k.procs mk.owner).alive = false
  pid : ∀ s, s < k.nprocs → (k.procs s).alive = true →
    (k.procs s).pid ≠ (k.procs mk.owner).pid

/-- A finished segment of the dead is stale wherever it has a name. -/
theorem Orphan.stale {k : Kernel} {i : Nat} {mk : Made} {n : CStr} (ho : Orphan k i mk)
    (hi : Inv h k) (hl : k.dir.lookup n = some i) (hm : mk.Marked h (k.inodes i))
    (hr : (k.inodes i).readable = true) : Stale h k n := by
  have hok := hi.made i mk ho.made
  obtain ⟨hlen, hpid⟩ := hok.marked hm
  obtain ⟨hpos, hlt⟩ := hi.pids mk.owner hok.owner
  obtain ⟨id, rfl⟩ := hi.canonical n i mk hl ho.made
  obtain ⟨hs, hle, hdvd⟩ := invalidSize_eq_false_iff.1 (invalidSize_segSize hok.size)
  have hplace : markerOff h (k.inodes i).len = mk.place h := by rw [hlen, Made.place]
  refine ⟨id, i, rfl, hl, ?_⟩
  exact
    { readable := hr
      pos := by rw [hlen]; exact hs
      le := by rw [hlen, maxShmSize_eq, shmMarkerSize_eq]; exact hle
      aligned := by rw [hlen]; exact hdvd
      room := by rw [hlen]; exact markerSize_le_segSize hok.size
      marker := by rw [hplace]; exact hm
      pid := by
        rw [hplace, hpid]
        intro h0
        rw [h0] at hpos
        exact absurd hpos (by decide)
      dead := by
        rw [hplace, hpid, Kernel.exists?, if_pos hlt, List.any_eq_false]
        intro s hs hboth
        rw [Bool.and_eq_true, beq_iff_eq] at hboth
        exact ho.pid s (List.mem_range.1 hs) hboth.1 hboth.2
      removable := hok.removable }

variable {c₀ c : (shmSystem h).Config}

/-- **Finished segments of the dead are reclaimed.**  After any run, the pass of a process
    that runs `av_shm_cleanup` while nobody else acts comes to its end and returns 0 whatever
    its system calls answer: no run of it aborts, blocks or goes on for ever.  Then no segment
    whose creator is dead, with a pid nobody has, is left in /dev/shm, unless its marker was
    never stored or its file is not readable for the user. -/
theorem dead_reclaimed (h₀ : Boots c₀) (hr : System.Reach (System.Policy.free _) c₀ c)
    (t : Nat) :
    Ends (fairSem h false t) (fun _ => False) (fun r k' => r = 0 ∧
      ∀ n i mk, k'.dir.lookup n = some i → Orphan k' i mk →
        mk.Marked h (k'.inodes i) → (k'.inodes i).readable = false)
      (avShmCleanup h) (c.k.enter t .cleanup) := by
  have hinv : Inv h (c.k.enter t .cleanup) := (h₀.reach (reach_runs hr)).1.setProc rfl
  refine (avShmCleanup_alone (h := h) (c.k.enter t .cleanup) t).mono fun r k' hpost => ?_
  obtain ⟨hr0, hb, hdir⟩ := hpost
  refine ⟨hr0, fun n i mk hl ho hm => ?_⟩
  have ho₀ : Orphan (c.k.enter t .cleanup) i mk := by
    refine ⟨?_, ?_, fun s hs ha => ?_⟩
    · rw [← hb.inodes]
      exact ho.made
    · rw [← (hb.procs _).2]
      exact ho.dead
    · rw [← (hb.procs _).1, ← (hb.procs _).1]
      exact ho.pid s (by rw [hb.nprocs]; exact hs) (by rw [(hb.procs _).2]; exact ha)
  obtain ⟨hl₀, hfresh⟩ := (hdir n i).1 hl
  rw [hb.inodes] at hm ⊢
  by_contra hread
  exact hfresh (ho₀.stale hinv hl₀ hm (by simpa using hread))

/-! ## Runs on a small machine -/

/-- A creator of segment 7 that dies right after `shm_open`, and a second process. -/
def demoHalf : List DemoLabel :=
  demoStart 0 100 (.create 1 {} 1 1 0o600) ++ demoScan 0 ++ (demoCreate 0).take 5 ++
    [.die 0, .spawn 1 (101 : UInt32)]

/-- Process `t` is between two calls. -/
def demoRests (t : Nat) (c : (shmSystem demoHost).Config) : Bool :=
  match c.th t with
  | .idle _ => true
  | _ => false

/-- A segment whose creator died before it stored the marker is never reclaimed. -/
theorem half_created_kept :
    ∃ c k', System.Reach (System.Policy.free (shmSystem demoHost)) demoBoot c ∧
    (∃ s, c.th 1 = .idle s) ∧
    Exec (fairSem demoHost false 1) (avShmCleanup demoHost) (c.k.enter 1 .cleanup) 0 k' ∧
    ∃ n i mk, k'.dir.lookup n = some i ∧ Orphan k' i mk ∧ (k'.inodes i).readable = true := by
  obtain ⟨c, hc, hp⟩ := (Option.any_eq_true _ _).1 (show
    ((System.steps (fun _ _ => true) demoBoot demoHalf).any fun c =>
      demoRests 1 c &&
      decide (c.k.dir.lookup (entryName 7) = some 0 ∧
        (c.k.inodes 0).made = some ⟨0, 1, entryName 7, 1⟩ ∧
        (c.k.inodes 0).readable = true ∧ (c.k.inodes 0).len = 0 ∧ c.k.nprocs = 2 ∧
        (c.k.procs 0).alive = false ∧ (c.k.procs 0).pid = 100 ∧ (c.k.procs 1).pid = 101)) = true
      by decide +kernel)
  rw [Bool.and_eq_true] at hp
  obtain ⟨hidle, hp⟩ := hp
  obtain ⟨hl, hmk, hread, hlen, hn, hdead, hp0, hp1⟩ := of_decide_eq_true hp
  have hth : ∃ s, c.th 1 = .idle s := by
    unfold demoRests at hidle
    split at hidle
    · rename_i s hs
      exact ⟨s, hs⟩
    · cases hidle
  obtain ⟨r, k', he, rfl, hb, hdir⟩ :=
    (avShmCleanup_alone (h := demoHost) (c.k.enter 1 .cleanup) 1).exists_exec fun _ => id
  have hpid : ∀ s, (k'.procs s).pid = (c.k.procs s).pid ∧
      (k'.procs s).alive = (c.k.procs s).alive := by
    intro s
    rw [(hb.procs s).1, (hb.procs s).2]
    exact enter_same _ _ _ s
  refine ⟨c, k', System.reach_of_steps (fun c l _ => System.Policy.allows_free c l) hc, hth, he,
    entryName 7, 0, ⟨0, 1, entryName 7, 1⟩, (hdir _ _).2 ⟨hl, ?_⟩, ⟨?_, ?_, ?_⟩, ?_⟩
  · -- an empty file is not taken for a segment
    rintro ⟨id, i, -, hi, hst⟩
    obtain rfl : 0 = i := Option.some.inj (hl.symm.trans hi)
    exact absurd hlen hst.pos.ne'
  · rw [hb.inodes]
    exact hmk
  · rw [(hpid 0).2]
    exact hdead
  · intro s hs ha
    rw [hb.nprocs] at hs
    have hs : s < 2 := hn ▸ hs
    obtain rfl | rfl : s = 0 ∨ s = 1 := by omega
    · rw [(hpid 0).2, hdead] at ha
      cases ha
    · rw [(hpid 0).1, (hpid 1).1, hp0, hp1]
      decide
  · rw [hb.inodes]
    exact hread

/-- A run in which the creator of segment 7 dies later, with its marker stored; nothing of
    it survives the cleanup of a second process. -/
theorem dead_reclaimed_demo :
    ∃ c, System.Reach (System.Policy.free (shmSystem demoHost)) demoBoot c ∧
    c.k.dir.lookup (entryName 7) = some 0 ∧ (c.k.procs 0).alive = false ∧
    (⟨0, 1, entryName 7, 1⟩ : Made).Marked demoHost (c.k.inodes 0) ∧
    Ends (fairSem demoHost false 1) (fun _ => False) (fun r k' => r = 0 ∧
      ∀ n i mk, k'.dir.lookup n = some i → Orphan k' i mk →
        mk.Marked demoHost (k'.inodes i) → (k'.inodes i).readable = false)
      (avShmCleanup demoHost) (c.k.enter 1 .cleanup) := by
  obtain ⟨c, hc, hp⟩ := (Option.any_eq_true _ _).1 (show
    ((System.steps (fun _ _ => true) demoBoot (demoStart 0 100 (.create 1 {} 1 1 0o600) ++
      demoScan 0 ++ demoCreate 0 ++ [.die 0, .spawn 1 (101 : UInt32)])).any fun c =>
      decide (c.k.dir.lookup (entryName 7) = some 0 ∧ (c.k.procs 0).alive = false ∧
        Word.load32 (c.k.inodes 0).data ((⟨0, 1, entryName 7, 1⟩ : Made).place demoHost) =
          shmMarker)) = true by decide +kernel)
  obtain ⟨hl, hdead, hm⟩ := of_decide_eq_true hp
  have hr := System.reach_of_steps (fun c l _ => System.Policy.allows_free c l) hc
  exact ⟨c, hr, hl, hdead, hm, dead_reclaimed demoBoot_boots hr 1⟩

end AnekVideo
