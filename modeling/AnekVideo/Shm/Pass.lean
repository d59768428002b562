/-
  AnekVideo.Shm.Pass

  A pass of `av_shm_cleanup` from its loop body outwards: every entry is
  attached, judged and freed again, or removed if its owner is dead.

  `Swept n` is what a pass owes to each name `n` it was shown: if no call
  failed on its own and `n` was stale, then `n` is gone.
-/
import AnekVideo.Shm.Sweep

namespace AnekVideo
namespace Sweep

open Interact RoundUp Word Kernel

variable {h : Host} {f : Bool} {k₀ k k' : Kernel} {t : Nat}
variable {F : List (Int × File)} {M : List Mapping} {R : Kernel → Prop}
variable {id : UInt32} {i a s : Nat}

/-- What a pass owes to the name `n`. -/
def Swept (h : Host) (f : Bool) (k₀ : Kernel) (n : CStr) (k : Kernel) : Prop :=
  f = false → Stale h k₀ n → Gone n k

theorem Swept.aside (n : CStr) : Aside h k₀ (Swept h f k₀ n) :=
  fun _ _ _ hr hs hf hst => hr.gone n (hs hf hst)

/-- A name that is not stale is owed nothing. -/
theorem Swept.of_not {n : CStr} (hn : ¬ Stale h k₀ n) (k : Kernel) : Swept h f k₀ n k :=
  fun _ hst => absurd hst hn

/-- If an attach found no segment, there was nothing stale. -/
theorem NoSeg.swept (hn : NoSeg h f k₀ id k) : Swept h f k₀ (entryName id) k := by
  rintro hf ⟨id', i, hname, hl, hfile⟩
  rcases hn hf with hgone | ⟨j, hj, hbad⟩
  · exact hgone
  · rw [hj] at hl
    cases hl
    refine absurd ⟨hfile.readable, ?_⟩ hbad
    rw [invalidSize_eq_false_iff]
    have hle := hfile.le
    rw [maxShmSize_eq, shmMarkerSize_eq] at hle
    exact ⟨hfile.pos, hle, hfile.aligned⟩

/-! ## The attached segment -/

theorem Seg.mapAt (hs : Seg h k₀ M id i a s) (hk : Has h k₀ t F (segMap h i a s :: M) k)
    {off : Nat} (hoff : off < s) : (k.procs t).mapAt (a + off) = some (segMap h i a s) := by
  refine Proc.mapAt_eq_of_others (fun m' hm' hne => ?_) (hk.maps.mem_iff.2 (List.mem_cons_self ..))
    ⟨Nat.le_add_right .., Nat.add_lt_add_left ?_ a⟩
  · rcases List.mem_cons.1 (hk.maps.mem_iff.1 hm') with rfl | hm'
    · exact absurd rfl hne
    · exact hs.disjoint m' hm'
  · exact Nat.lt_of_lt_of_le hoff (mapLen_attached hs.valid).1

/-- A word of the segment is loaded as it was in the beginning. -/
theorem load_then {α : Type} {n off : Nat} {g : UInt32 → C α} {Q : α → Kernel → Prop}
    (hs : Seg h k₀ M id i a s) (hoff : off < s)
    (hg : (view h f k₀ t).Bounded n (Has h k₀ t F (segMap h i a s :: M))
      (g (load32 (k₀.inodes i).data off)) Q) :
    (view h f k₀ t).Bounded (n + 1) (Has h k₀ t F (segMap h i a s :: M))
      (call (.atomicLoad (a + off)) >>= g) Q := by
  refine bounded_op (o := .atomicLoad (a + off)) (R := fun v k =>
      Has h k₀ t F (segMap h i a s :: M) k ∧ v = load32 (k₀.inodes i).data off)
    Has.stable (fun k hk => ?_) (fun ch k r k' hk hf he => ?_) fun r => ?_
  · refine ⟨.ok 0, ?_⟩
    simp only [exec, Kernel.atomicLoad, hs.mapAt hk hoff, segMap]
    exact ⟨_, _, trivial, rfl⟩
  · obtain ⟨m, hm, ⟨j, hino, hv, rfl⟩ | ⟨hino, -⟩⟩ := atomicLoad_cases he
    · rw [hs.mapAt hk hoff] at hm
      cases hm
      cases hino
      refine ⟨.setProc hk.base rfl rfl, hk.setProc rfl rfl hk.fds hk.maps, ?_⟩
      rw [hv, hk.base.inodes]
      simp [segMap]
    · rw [hs.mapAt hk hoff] at hm
      cases hm
      cases hino
  · refine Env.Bounded.assume (fun k hk => hk.2) fun hr => ?_
    subst hr
    exact hg.pre fun k hk => hk.1

/-- `av_shm_free` of an attached segment: its assertions hold, and only its mapping
    goes. -/
theorem avShmFree_bounded (hs : Seg h k₀ M id i a s) :
    (view h f k₀ t).Bounded 1 (Has h k₀ t F (segMap h i a s :: M))
      (avShmFree h (segHandle id a s)) fun _ => Has h k₀ t F M := by
  obtain ⟨-, hlen, hround⟩ := mapLen_attached hs.valid
  have hsize : 0 < s := (invalidSize_eq_false_iff.1 hs.valid).1
  refine assert_then (decide_eq_true hs.pos.ne') (assert_then (decide_eq_true hsize)
    (assert_then (decide_eq_true (page_ne_mapFailed hs.page)) ?_))
  refine bounded_op (o := .munmap a (avPageAlign h s)) (R := fun r k =>
    Has h k₀ t F M k ∧ r = .ok ()) Has.stable (fun k hk => ?_) (fun ch k r k' hk hf he => ?_)
      fun r => ?_
  · have hpage := hs.page
    exact ⟨.ok 0, .ok (), _, rfl, by simp [exec, munmapCall, hlen.ne', hpage]; rfl⟩
  · rcases munmapCall_cases he with ⟨e, -, -, rfl | h0 | hpage⟩ | ⟨-, -, rfl, rfl⟩
    · cases hf
    · omega
    · exact absurd hs.page hpage
    · refine ⟨.setProc hk.base rfl rfl, hk.setProc rfl rfl hk.fds ?_, rfl⟩
      rw [hround]
      exact Proc.unmap_perm hk.maps hs.disjoint hlen
  · refine Env.Bounded.assume (fun k hk => hk.2) fun hr => ?_
    subst hr
    exact Env.Bounded.pure_bind (Env.Bounded.ret (Aside.const _).stable fun k hk => hk.1)

/-- One of the ways out of the loop body: free the segment and go on. -/
theorem avShmFree_then (hs : Seg h k₀ M id i a s) (hn : ¬ Stale h k₀ (entryName id)) :
    (view h f k₀ t).Bounded 1 (Has h k₀ t F (segMap h i a s :: M))
      (do let _ ← avShmFree h (segHandle id a s); return ()) fun _ k =>
        Has h k₀ t F M k ∧ Swept h f k₀ (entryName id) k :=
  Env.Bounded.bind (m := 0) (avShmFree_bounded hs) fun _ =>
    Env.Bounded.ret Has.stable fun k hk => ⟨hk, .of_not hn k⟩

/-! ## The loop body -/

/-- What the tests of the loop establish before a segment is removed. -/
structure Judged (h : Host) (k₀ : Kernel) (i s : Nat) : Prop where
  room : shmMarkerSize h ≤ s
  marker : load32 (k₀.inodes i).data (markerOff h s) = shmMarker
  pid : load32 (k₀.inodes i).data (markerOff h s + shmMarkerPid) ≠ 0
  dead : k₀.exists? (load32 (k₀.inodes i).data (markerOff h s + shmMarkerPid)) = false

/-- They are the tests for a stale name, but for the last one. -/
theorem Seg.stale_iff (hs : Seg h k₀ M id i a s) :
    Stale h k₀ (entryName id) ↔ Judged h k₀ i s ∧ (k₀.inodes i).removable = true := by
  constructor
  · rintro ⟨-, j, -, hl, hj⟩
    rw [hs.bound] at hl
    cases hl
    have hlen := hs.len
    exact ⟨⟨hlen ▸ hj.room, hlen ▸ hj.marker, hlen ▸ hj.pid, hlen ▸ hj.dead⟩,
      hj.removable⟩
  · rintro ⟨hj, hrem⟩
    obtain ⟨hpos, hle, hdvd⟩ := invalidSize_eq_false_iff.1 hs.valid
    have hlen := hs.len
    refine ⟨id, i, rfl, hs.bound, ?_⟩
    exact
      { readable := hs.readable
        pos := by rw [hlen]; exact hpos
        le := by rw [hlen, maxShmSize_eq, shmMarkerSize_eq]; exact hle
        aligned := by rw [hlen]; exact hdvd
        room := by rw [hlen]; exact hj.room
        marker := by rw [hlen]; exact hj.marker
        pid := by rw [hlen]; exact hj.pid
        dead := by rw [hlen]; exact hj.dead
        removable := hrem }

/-- `shm_unlink` of a stale name, or of one that may not be unlinked: what was stale is gone. -/
theorem shmUnlink_then {α : Type} {n : Nat} {g : Except Errno Unit → C α}
    {Q : α → Kernel → Prop} (hs : Seg h k₀ M id i a s) (hj : Judged h k₀ i s)
    (hg : ∀ r, (view h f k₀ t).Bounded n
      (fun k => Has h k₀ t F M k ∧ Swept h f k₀ (entryName id) k) (g r) Q) :
    (view h f k₀ t).Bounded (n + 1) (Has h k₀ t F M)
      (call (.shmUnlink ('/' :: entryName id)) >>= g) Q := by
  refine bounded_op (R := fun _ k => Has h k₀ t F M k ∧ Swept h f k₀ (entryName id) k)
    Has.stable (fun k hk => ?_) (fun ch k r k' hk hf he => ?_) hg
  · simp only [exec, Kernel.shmUnlink]
    refine ⟨.ok 0, ?_⟩
    cases hl : k.dir.lookup (entryName id) with
    | none => exact ⟨_, _, rfl, rfl⟩
    | some j =>
      dsimp only
      split
      · exact ⟨_, _, rfl, rfl⟩
      · exact ⟨_, _, rfl, rfl⟩
  -- where the name still leads to an object, it is the one that was attached
  have hobject : ∀ {j}, k.dir.lookup (entryName id) = some j → j = i := by
    intro j hl
    have hbound := hk.base.sub _ _ hl
    rw [hs.bound] at hbound
    exact (Option.some.inj hbound).symm
  rcases shmUnlink_cases he with ⟨e, rfl, rfl, rfl | hgone | ⟨n, j, hn, hl, hrem⟩⟩ |
    ⟨n, j, hn, hl, hrem, rfl, rfl⟩
  · cases hf
  · exact ⟨.same hk.base, hk, fun _ _ => hgone _ rfl⟩
  · -- it may not be unlinked, so it does not count as stale
    cases hn
    obtain rfl := hobject hl
    refine ⟨.same hk.base, hk, .of_not (fun hst => ?_) _⟩
    rw [hk.base.inodes, (hs.stale_iff.1 hst).2] at hrem
    cases hrem
  · cases hn
    obtain rfl := hobject hl
    rw [hk.base.inodes] at hrem
    have hst := hs.stale_iff.2 ⟨hj, hrem⟩
    exact ⟨.erase hk.base hst, ⟨hk.base.erase hst, hk.fds, hk.maps⟩,
      fun _ _ => AList.lookup_erase ..⟩

/-- The segment of a dead owner loses its name, unless the user may not unlink it. -/
theorem avShmCleanupRemove_bounded (hs : Seg h k₀ M id i a s) (hj : Judged h k₀ i s) :
    (view h f k₀ t).Bounded 3 (Has h k₀ t F (segMap h i a s :: M))
      (avShmCleanupRemove h id (segHandle id a s)) fun _ k =>
        Has h k₀ t F M k ∧ Swept h f k₀ (entryName id) k := by
  refine Env.Bounded.bind (m := 2) (avShmFree_bounded hs) fun m => ?_
  rw [segmentName_eq (by decide)]
  refine shmUnlink_then hs hj fun r => ?_
  have hsw : Aside h k₀ (Swept h f k₀ (entryName id)) := Swept.aside _
  have hst := hsw.stable (f := f) (t := t) (F := F) (M := M)
  cases r with
  | ok _ => exact Env.Bounded.ret hst fun _ hk => hk
  | error e =>
    dsimp only
    split
    · exact log_last hst fun _ hk => hk.1.base
    · exact Env.Bounded.ret hst fun _ hk => hk

/-- `kill` finds the process of a pid, or not, as in the beginning. -/
theorem kill_then {α : Type} {n : Nat} {pid : UInt32} {g : Except Errno Unit → C α}
    {Q : α → Kernel → Prop}
    (hg : ∀ r, (r = .error .ESRCH ↔ k₀.exists? pid = false) →
      (view h f k₀ t).Bounded n (Has h k₀ t F M) (g r) Q) :
    (view h f k₀ t).Bounded (n + 1) (Has h k₀ t F M) (call (.kill pid) >>= g) Q := by
  refine bounded_op (R := fun r k => Has h k₀ t F M k ∧
    (r = .error .ESRCH ↔ k₀.exists? pid = false))
    Has.stable (fun k hk => ?_) (fun ch k r k' hk hf he => ?_) fun r => ?_
  · refine ⟨.ok 0, ?_⟩
    simp only [exec, Kernel.kill]
    split
    · exact ⟨_, _, trivial, rfl⟩
    · exact ⟨_, _, trivial, rfl⟩
  · obtain ⟨rfl, hdead, -⟩ := kill_cases he
    refine ⟨.same hk.base, hk, ?_⟩
    rw [hdead, hk.base.exists]
  · refine Env.Bounded.assume (fun k hk => hk.2) fun hdead => ?_
    exact (hg r hdead).pre fun k hk => hk.1

/-- The tests of the loop body, one after the other. -/
theorem avShmCleanupSeg_bounded (hs : Seg h k₀ M id i a s) :
    (view h f k₀ t).Bounded 6 (Has h k₀ t F (segMap h i a s :: M))
      (avShmCleanupSeg h id (segHandle id a s)) fun _ k =>
        Has h k₀ t F M k ∧ Swept h f k₀ (entryName id) k := by
  -- whatever test fails, the segment is freed and was not to be removed
  have hskip : ∀ {n}, 1 ≤ n → ¬ Judged h k₀ i s → (view h f k₀ t).Bounded n
      (Has h k₀ t F (segMap h i a s :: M))
      (do let _ ← avShmFree h (segHandle id a s); return ()) fun _ k =>
        Has h k₀ t F M k ∧ Swept h f k₀ (entryName id) k := fun hn hj =>
    (avShmFree_then hs fun hst => hj (hs.stale_iff.1 hst).1).le hn
  unfold avShmCleanupSeg
  split
  · rename_i hsmall
    exact hskip (by decide) fun hj => Nat.lt_irrefl s (Nat.lt_of_lt_of_le hsmall hj.room)
  rename_i hroom
  have hroom : shmMarkerSize h ≤ s := Nat.le_of_not_lt hroom
  have hmarker : markerOff h s < s := by
    unfold markerOff
    rw [shmMarkerSize_eq] at hroom ⊢
    omega
  have hpid : markerOff h s + shmMarkerPid < s := by
    unfold markerOff shmMarkerPid
    rw [shmMarkerSize_eq] at hroom ⊢
    omega
  have haddr : markerAddr h (segHandle id a s).ptr (segHandle id a s).size = a + markerOff h s :=
    markerAddr_eq hroom
  rw [haddr, Nat.add_assoc]
  refine load_then (n := 5) hs hmarker ?_
  split
  · -- no marker
    rename_i hne
    exact hskip (by decide) fun hj => hne hj.marker
  rename_i hm
  refine load_then (n := 4) hs hpid ?_
  split
  · -- a pid of 0
    rename_i h0
    exact hskip (by decide) fun hj => hj.pid h0
  rename_i hne
  refine kill_then (n := 3) fun r hdead => ?_
  split
  · -- the owner lives
    rename_i halive
    refine hskip (by decide) fun hj => ?_
    rw [hdead.2 hj.dead] at halive
    rcases halive with hok | hne
    · cases hok
    · exact hne rfl
  · rename_i hr
    push Not at hr
    exact avShmCleanupRemove_bounded hs ⟨hroom, not_not.1 hm, hne, hdead.1 hr.2⟩

/-- One entry of the directory. -/
theorem avShmCleanupEntry_bounded (name : CStr) :
    (view h f k₀ t).Bounded 14 (Has h k₀ t F M) (avShmCleanupEntry h name) fun _ k =>
      Has h k₀ t F M k ∧ Swept h f k₀ name k := by
  -- a stale entry has the name of the id that is read from it
  have hname : ∀ {id'}, Stale h k₀ name → entryId h name = some id' →
      name = entryName id' := by
    rintro id' ⟨id, i, rfl, -, -⟩ hid
    rw [entryId_entryName] at hid
    cases hid
    rfl
  unfold avShmCleanupEntry
  split
  · rename_i hnone
    refine Env.Bounded.ret Has.stable fun k hk => ⟨hk, .of_not ?_ k⟩
    rintro ⟨id, i, rfl, -, -⟩
    -- no id is read from it, so it is nobody's entry
    rw [entryId_entryName] at hnone
    cases hnone
  · rename_i id hid
    refine Env.Bounded.bind (m := 6) (avShmAttachRo_bounded {} id) fun x => ?_
    obtain ⟨r, seg⟩ := x
    have hpost : ∀ k, (Has h k₀ t F M k ∧ Swept h f k₀ (entryName id) k) →
        Has h k₀ t F M k ∧ Swept h f k₀ name k := fun k hk =>
      ⟨hk.1, fun hf hst => hname hst hid ▸ hk.2 hf (hname hst hid ▸ hst)⟩
    -- mapped, or not there to be mapped
    have hcase : ∀ k, AttachPost h f k₀ t F M id (r, seg) k →
        (∃ i a s, (r = 0 ∧ seg = segHandle id a s ∧ Seg h k₀ M id i a s) ∧
          Has h k₀ t F (segMap h i a s :: M) k) ∨
        (r = -1 ∧ Has h k₀ t F M k ∧ Swept h f k₀ (entryName id) k) := by
      rintro k (⟨i, a, s, heq, hs, hk⟩ | ⟨hr, hk, hno⟩)
      · cases heq
        exact .inl ⟨i, a, s, ⟨rfl, rfl, hs⟩, hk⟩
      · exact .inr ⟨hr, hk, hno.swept⟩
    refine (Env.Bounded.or ?_ ?_).pre hcase
    · refine Env.Bounded.exists fun i => Env.Bounded.exists fun a => Env.Bounded.exists fun s => ?_
      refine Env.Bounded.assume (fun k hk => hk.1) fun hφ => ?_
      obtain ⟨rfl, rfl, hs⟩ := hφ
      exact ((avShmCleanupSeg_bounded hs).pre fun k hk => hk.2).post fun _ k hk => hpost k hk
    · refine Env.Bounded.assume (fun k hk => hk.1) fun hr => ?_
      subst hr
      have hsw : Aside h k₀ (Swept h f k₀ (entryName id)) := Swept.aside _
      exact (Env.Bounded.ret hsw.stable hpost).pre fun k hk => hk.2

/-! ## The pass -/

/-- Every stale name is gone or among `pending`. -/
def Pending (h : Host) (f : Bool) (k₀ : Kernel) (pending : List CStr) (k : Kernel) : Prop :=
  f = false → ∀ n, Stale h k₀ n → n ∈ pending ∨ Gone n k

theorem Pending.aside (pending : List CStr) : Aside h k₀ (Pending h f k₀ pending) :=
  fun _ _ _ hr hp hf n hn => (hp hf n hn).imp_right (hr.gone n)

/-- In the loop: the directory stream `d` has at most `v` names left. -/
def InLoop (h : Host) (f : Bool) (k₀ : Kernel) (t : Nat) (F : List (Int × File))
    (M : List Mapping) (d : Int) (v : Nat) (k : Kernel) : Prop :=
  ∃ pending, pending.length = v ∧
    Has h k₀ t ((d, .dir pending) :: F) M k ∧ Pending h f k₀ pending k

/-- All that is stale is gone. -/
def Clean (h : Host) (f : Bool) (k₀ : Kernel) (k : Kernel) : Prop :=
  f = false → ∀ n, Stale h k₀ n → Gone n k

theorem Clean.aside : Aside h k₀ (Clean h f k₀) :=
  fun _ _ _ hr hc hf n hn => hr.gone n (hc hf n hn)

/-- `readdir`: the next name of the stream, or its end.  Names may be skipped, but only such as
    have vanished meanwhile. -/
theorem readdir_then {α : Type} {n : Nat} {d : Int} {pending : List CStr}
    {g : Option CStr → C α} {Q : α → Kernel → Prop} (hd : ∀ y ∈ F, y.1 ≠ d)
    (hnone : (view h f k₀ t).Bounded n
      (fun k => Has h k₀ t ((d, .dir []) :: F) M k ∧ Pending h f k₀ [] k) (g none) Q)
    (hsome : ∀ name rest, rest.length < pending.length → (view h f k₀ t).Bounded n
      (fun k => Has h k₀ t ((d, .dir rest) :: F) M k ∧ Pending h f k₀ (name :: rest) k)
      (g (some name)) Q) :
    (view h f k₀ t).Bounded (n + 1)
      (fun k => Has h k₀ t ((d, .dir pending) :: F) M k ∧ Pending h f k₀ pending k)
      (call (.readdir d) >>= g) Q := by
  refine bounded_op (R := fun r k => ∃ rest : List CStr,
      (Has h k₀ t ((d, .dir rest) :: F) M k ∧ Pending h f k₀ (r.toList ++ rest) k) ∧
        (r = none → rest = []) ∧ r.toList.length + rest.length ≤ pending.length)
    (Pending.aside pending).stable (fun k hk => ?_) (fun ch k r k' hk hf he => ?_) fun r => ?_
  · refine ⟨.ok 0, ?_⟩
    simp only [exec, Kernel.readdir, Proc.file_cons hk.1.fds, List.take_zero, List.drop_zero]
    rw [if_pos fun n hn => absurd hn List.not_mem_nil]
    cases pending with
    | nil => exact ⟨_, _, trivial, rfl⟩
    | cons n rest => exact ⟨_, _, trivial, rfl⟩
  · obtain ⟨hk, hp⟩ := hk
    obtain ⟨pending', skipped, hfile, hskip, rest, heq, hnone, rfl⟩ := readdir_cases he
    rw [Proc.file_cons hk.fds] at hfile
    cases hfile
    have hfds : (((k.procs t).closeFd d).openFd d (.dir rest)).fds = (d, .dir rest) :: F := by
      rw [← Proc.closeFd_cons hk.fds hd]
      rfl
    refine ⟨.setProc hk.base rfl rfl, rest, ⟨hk.setProc rfl rfl hfds hk.maps, fun hf n hn => ?_⟩,
      hnone, ?_⟩
    · rcases hp hf n hn with hmem | hgone
      · rw [heq, List.mem_append] at hmem
        exact hmem.symm.imp_right (hskip n)
      · exact .inr hgone
    · rw [heq, List.length_append, List.length_append]
      exact Nat.le_add_left ..
  · refine Env.Bounded.exists fun rest => Env.Bounded.assume (fun k hk => hk.2) fun hrest => ?_
    cases r with
    | none =>
      obtain rfl := hrest.1 rfl
      exact hnone.pre fun k hk => hk.1
    | some name =>
      refine (hsome name rest ?_).pre fun k hk => hk.1
      have hle := hrest.2
      rw [Option.toList_some, List.length_singleton] at hle
      omega

/-- One round of the loop. -/
theorem avShmCleanupRound_bounded {d : Int} (hd : ∀ y ∈ F, y.1 ≠ d) (v : Nat) :
    (view h f k₀ t).Bounded 15 (InLoop h f k₀ t F M d v)
      (do
        match ← call (.readdir d) with
        | none => return (.inr () : Unit ⊕ Unit)
        | some name =>
          avShmCleanupEntry h name
          return .inl ())
      fun c k => c.elim (fun _ => ∃ v' < v, InLoop h f k₀ t F M d v' k) fun _ =>
        Has h k₀ t ((d, .dir []) :: F) M k ∧ Pending h f k₀ [] k := by
  refine Env.Bounded.exists fun pending => Env.Bounded.assume (fun k hk => hk.1) fun hv => ?_
  subst hv
  refine (readdir_then hd ?_ fun name rest hlt => ?_).pre fun k hk => hk.2
  · exact Env.Bounded.ret (Pending.aside _).stable fun k hk => hk
  · refine Env.Bounded.bind (m := 0) ((Pending.aside (name :: rest)).frame
      (avShmCleanupEntry_bounded name)) fun _ => ?_
    refine Env.Bounded.ret (fun k k' hr hk => ⟨(Swept.aside name).stable k k' hr hk.1,
      Pending.aside _ t k k' hr hk.2⟩) fun k hk => ?_
    -- the name is dealt with, and need not be pending any more
    refine ⟨rest.length, hlt, rest, rfl, hk.1.1, fun hf n hn => ?_⟩
    rcases hk.2 hf n hn with hmem | hgone
    · rcases List.mem_cons.1 hmem with rfl | hmem
      · exact .inr (hk.1.2 hf hn)
      · exact .inl hmem
    · exact .inr hgone

/-- The steps of a pass, at most. -/
def passCost (k₀ : Kernel) : Nat := (k₀.dir.keys.length + 3) * 16 + 2

/-- The directory never grows. -/
theorem Base.keys_length_le (hb : Base h k₀ k) : k.dir.keys.length ≤ k₀.dir.keys.length := by
  refine (List.subperm_of_subset k.dir.keys_nodup fun n hn => ?_).length_le
  obtain ⟨i, hi⟩ := Option.isSome_iff_exists.1 (AList.lookup_isSome.2 (AList.mem_keys.2 hn))
  exact AList.mem_keys.1 (AList.lookup_isSome.1 (by rw [hb.sub n i hi]; rfl))

/-- A name that is there stands in every listing of the directory. -/
theorem mem_of_lookup {l : List CStr} {n : CStr} (hl : l.Perm (['.'] :: ['.', '.'] :: k.dir.keys))
    (hi : k.dir.lookup n = some i) : n ∈ l := by
  have hmem : n ∈ k.dir := AList.lookup_isSome.1 (by rw [hi]; rfl)
  exact hl.mem_iff.2 (List.mem_cons_of_mem _ (List.mem_cons_of_mem _ (AList.mem_keys.1 hmem)))

/-- `opendir`: the stream has every name that is there, so also every stale one. -/
theorem opendir_then {α : Type} {n : Nat} {path : String} {g : Except Errno Int → C α}
    {Q : α → Kernel → Prop}
    (herr : ∀ e, f = true → (view h f k₀ t).Bounded n (Has h k₀ t F M) (g (.error e)) Q)
    (hok : ∀ d v, (∀ y ∈ F, y.1 ≠ d) → v ≤ k₀.dir.keys.length + 2 →
      (view h f k₀ t).Bounded n (InLoop h f k₀ t F M d v) (g (.ok d)) Q) :
    (view h f k₀ t).Bounded (n + 1) (Has h k₀ t F M) (call (.opendir path) >>= g) Q := by
  refine bounded_op (R := onResult (fun _ k => Has h k₀ t F M k ∧ f = true)
      (fun d k => ∃ v, InLoop h f k₀ t F M d v k ∧ (∀ y ∈ F, y.1 ≠ d) ∧ v ≤ k₀.dir.keys.length + 2))
    Has.stable (fun k hk => ?_) (fun ch k r k' hk hf he => ?_) fun r => ?_
  · obtain ⟨fd, hfd⟩ := (k.procs t).exists_fd
    refine ⟨.names fd (['.'] :: ['.', '.'] :: k.dir.keys), .ok fd,
      k.setProc t ((k.procs t).openFd fd
      (.dir (['.'] :: ['.', '.'] :: k.dir.keys))), ⟨fun _ => rfl, fun fd' l hl => ?_⟩, ?_⟩
    · cases hl
      exact .refl _
    · simp only [exec, Kernel.opendir, hfd]
      rw [if_neg (by simpa using fun n hn _ _ => hn)]
  · rcases opendir_cases he with ⟨e, rfl, rfl, rfl⟩ | ⟨fd, l, hfd, -, rfl, rfl, rfl⟩
    · refine ⟨.same hk.base, hk, ?_⟩
      cases f with
      | true => rfl
      | false => exact absurd (hf.1 rfl) (by simp [Choice.isFail])
    · have hl := hf.2 fd l rfl
      refine ⟨.setProc hk.base rfl rfl, l.length, ⟨l, rfl, hk.setProc rfl rfl ?_ hk.maps, ?_⟩,
        ?_, ?_⟩
      · rw [← hk.fds]
        rfl
      · rintro - n ⟨-, i, -, hi, hst⟩
        cases hn : k.dir.lookup n with
        | none => exact .inr hn
        | some j => exact .inl (mem_of_lookup hl hn)
      · rw [← hk.fds]
        exact Proc.file_eq_none.1 hfd
      · -- `.` and `..` are in the listing, too
        rw [hl.length_eq]
        exact Nat.add_le_add_right hk.base.keys_length_le 2
  · cases r with
    | error e =>
      exact Env.Bounded.assume (fun k hk => hk.2) fun hf => (herr e hf).pre fun k hk => hk.1
    | ok d =>
      refine Env.Bounded.exists fun v => Env.Bounded.assume (fun k hk => hk.2) fun hφ => ?_
      exact (hok d v hφ.1 hφ.2).pre fun k hk => hk.1

/-- **A pass** returns within `passCost` steps with the descriptors and mappings the
    process had; if no call fails on its own it returns 0 and nothing stale is left. -/
theorem avShmCleanup_bounded :
    (view h f k₀ t).Bounded (passCost k₀) (Has h k₀ t F M) (avShmCleanup h) fun r k =>
      Has h k₀ t F M k ∧ (f = false → r = 0) ∧ Pending h f k₀ [] k := by
  refine opendir_then (n := (k₀.dir.keys.length + 3) * 16 + 1) (fun e hf => ?_)
    fun d v hd hv => ?_
  · refine Env.Bounded.le (n := 1) ?_ (Nat.le_add_left ..)
    refine log_then Has.stable (fun k hk => hk.base) (Env.Bounded.ret Has.stable fun k hk =>
      ⟨hk, ?_, ?_⟩)
    · intro h
      rw [hf] at h
      cases h
    · intro h
      rw [hf] at h
      cases h
  -- a round takes a name off the stream, so there are at most as many rounds as names
  have hloop := Env.Bounded.iter (W := view h f k₀ t) (I := fun v _ => InLoop h f k₀ t F M d v)
    (fun _ => (Pending.aside []).stable) (fun v _ => avShmCleanupRound_bounded hd v) v ()
  have hle : (v + 1) * (15 + 1) ≤ (k₀.dir.keys.length + 3) * 16 :=
    Nat.mul_le_mul_right 16 (by omega)
  refine Env.Bounded.bind (hloop.le hle) fun _ => ?_
  refine bounded_op (o := .closedir d) (R := fun _ k => Has h k₀ t F M k ∧
    Pending h f k₀ [] k)
    (Pending.aside []).stable (fun k hk => ?_) (fun ch k r k' hk hf he => ?_) fun r => ?_
  · exact ⟨.ok 0, _, _, rfl, closeCall_live (Proc.file_cons hk.1.fds)⟩
  · obtain ⟨hk, hp⟩ := hk
    obtain ⟨rfl, rfl⟩ := closeCall_open (Proc.file_cons hk.fds) hf he
    obtain ⟨hguar, hk⟩ := hk.close hd
    exact ⟨hguar, hk, hp⟩
  · exact Env.Bounded.ret (Pending.aside []).stable fun k hk => ⟨hk.1, fun _ => rfl, hk.2⟩

end Sweep
end AnekVideo
