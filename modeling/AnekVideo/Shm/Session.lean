/-
  AnekVideo.Shm.Session

  A sequence of calls of shm.h by one process.

  After every call the descriptors are those of the start, and the mappings
  are those of the start and one for each live handle (`Ledger`).  An attach
  that fails leaves the names as they were, a create that fails leaves them as
  its own cleanup has left them, which takes stale ones only.
-/
import AnekVideo.Shm.Passes
import AnekVideo.Shm.Solo

namespace AnekVideo

open Interact RoundUp Kernel

/-! ## Handles and mappings -/

/-- The mapping behind a handle, whole and in the form in which `av_shm_free` gives it
    back. -/
structure Behind (h : Host) (hd : Handle) (m : Mapping) : Prop where
  addr : m.addr = hd.m.ptr
  len : m.len = avPageAlign h hd.m.size
  page : h.pageSize ∣ hd.m.ptr
  pos : 0 < hd.m.size
  le : hd.m.size ≤ 2 ^ 28

/-- The mappings `M` are `M₀` and one mapping for each of the handles `hs`; those of the
    handles overlap nothing. -/
def Ledger (h : Host) (M₀ : List Mapping) (hs : List Handle) (M : List Mapping) : Prop :=
  ∃ L : List (Handle × Mapping), hs.Perm (L.map Prod.fst) ∧ M.Perm (L.map Prod.snd ++ M₀) ∧
    (∀ x ∈ L, Behind h x.1 x.2 ∧ ∀ m ∈ M₀, x.2.Disjoint m) ∧
    L.Pairwise fun x y => x.2.Disjoint y.2

variable {h : Host} {M₀ M M' : List Mapping} {hs : List Handle} {hd : Handle} {m : Mapping}

theorem Ledger.nil (h : Host) (M₀ : List Mapping) : Ledger h M₀ [] M₀ :=
  ⟨[], .refl _, .refl _, nofun, .nil⟩

theorem Ledger.perm (hL : Ledger h M₀ hs M) (hp : M.Perm M') : Ledger h M₀ hs M' := by
  obtain ⟨L, hhs, hM, hmem, hpair⟩ := hL
  exact ⟨L, hhs, hp.symm.trans hM, hmem, hpair⟩

/-- A new handle with a mapping that overlaps nothing. -/
theorem Ledger.add (hL : Ledger h M₀ hs M) (hb : Behind h hd m)
    (hd' : ∀ m' ∈ M, m.Disjoint m') :
    Ledger h M₀ (hd :: hs) (m :: M) := by
  obtain ⟨L, hhs, hM, hmem, hpair⟩ := hL
  refine ⟨(hd, m) :: L, hhs.cons hd, hM.cons m, fun x hx => ?_,
    List.pairwise_cons.2 ⟨fun x hx => ?_, hpair⟩⟩
  · rcases List.mem_cons.1 hx with rfl | hx
    · exact ⟨hb, fun m' hm' => hd' m' (hM.mem_iff.2 (List.mem_append_right _ hm'))⟩
    · exact hmem x hx
  · exact hd' x.2 (hM.mem_iff.2 (List.mem_append_left _ (List.mem_map_of_mem hx)))

/-- The mapping of a live handle, and what is left without the two. -/
theorem Ledger.take (hL : Ledger h M₀ hs M) (hhd : hd ∈ hs) : ∃ m M', M.Perm (m :: M') ∧
    Behind h hd m ∧ (∀ m' ∈ M', m.Disjoint m') ∧ Ledger h M₀ (hs.erase hd) M' := by
  obtain ⟨L, hhs, hM, hmem, hpair⟩ := hL
  obtain ⟨x, hx, rfl⟩ := List.mem_map.1 (hhs.mem_iff.1 hhd)
  have hp : L.Perm (x :: L.erase x) := List.perm_cons_erase hx
  have hsymm : ∀ {x y : Handle × Mapping}, x.2.Disjoint y.2 → y.2.Disjoint x.2 :=
    fun h => h.symm
  rw [hp.pairwise_iff hsymm, List.pairwise_cons] at hpair
  have hmap := hp.map Prod.snd
  refine ⟨x.2, (L.erase x).map Prod.snd ++ M₀, hM.trans (hmap.append_right M₀), (hmem x hx).1,
    fun m' hm' => ?_, L.erase x, ?_, .refl _,
      fun y hy => hmem y (List.mem_of_mem_erase hy), hpair.2⟩
  · rcases List.mem_append.1 hm' with hm' | hm'
    · obtain ⟨y, hy, rfl⟩ := List.mem_map.1 hm'
      exact hpair.1 y hy
    · exact (hmem x hx).2 m' hm'
  · exact ((hhs.trans (hp.map Prod.fst)).erase x.1).trans
      (by rw [List.map_cons, List.erase_cons_head])

/-! ## Sessions -/

/-- The calls the assertions admit, on handles that are alive. -/
def ShmCall.Admitted (h : Host) (s : ShmSt) : ShmCall → Prop
  | .create _ _ size _ mode => SizeOk h size ∧ 0o600 ≤ mode
  | .attach _ _ => True
  | .free hd => hd ∈ s.handles
  | .cleanup => True
  | .write _ _ _ => False

/-- A sequence of calls by process `t`, each run to its end with any outcome of the
    system calls that acquire something. -/
inductive Session (h : Host) (t : Nat) (k₀ : Kernel) : ShmSt → Kernel → Prop
  | start : Session h t k₀ {} k₀
  | call {s : ShmSt} {k k' : Kernel} (c : ShmCall) {r : ShmRet} : Session h t k₀ s k →
      c.Admitted h s → Exec (fairSem h true t) (c.body h) k r k' →
      Session h t k₀ (c.after h s r) k'

/-- The descriptors are those of `k₀`, the mappings those of `k₀` and one for each
    handle. -/
structure Balanced (h : Host) (t : Nat) (k₀ : Kernel) (hs : List Handle) (k : Kernel) : Prop where
  fds : (k.procs t).fds = (k₀.procs t).fds
  maps : Ledger h (k₀.procs t).maps hs (k.procs t).maps

/-- `av_shm_create_rw` behind its cleanup. -/
def avShmCreateRest (h : Host) (idp : Nat) (m : AvShm) (size : Nat) (shared : Int) (mode : Nat) :
    C (Int × AvShm) :=
  if shared = 0 then avShmCreatePrivate h m (avPageAlign h size) shared
  else avShmCreateShared h idp m (avPageAlign h size) shared mode

/-- A run of a create in two parts: its cleanup leads to `kc`, the rest of it from there
    to `k₁`. -/
def SplitRun (sem : OpSem sys Kernel) (h : Host) (idp : Nat) (m : AvShm) (size : Nat) (shared : Int)
    (mode : Nat) (k₀ kc : Kernel) (r : Int × AvShm) (k₁ : Kernel) : Prop :=
  (∃ c, Exec sem (avShmCleanup h) k₀ c kc) ∧
    Exec sem (avShmCreateRest h idp m size shared mode) kc r k₁

theorem splitRun_iff {sem : OpSem sys Kernel} {k₀ k₁ : Kernel} {idp size mode : Nat} {m : AvShm}
    {shared : Int} {r : Int × AvShm} (hsize : SizeOk h size) (hmode : 0o600 ≤ mode) :
    Exec sem (avShmCreateRw h idp m size shared mode) k₀ r k₁ ↔
      ∃ kc, SplitRun sem h idp m size shared mode k₀ kc r k₁ := by
  have hrest : avShmCreateRw h idp m size shared mode = (do
      avAssert true "size > 0" "av_shm_create_rw"
      avAssert true "size <= MAX_SHM_SIZE" "av_shm_create_rw"
      avAssert true "mode >= 0600" "av_shm_create_rw"
      let _ ← avShmCleanup h
      avShmCreateRest h idp m size shared mode) := by
    unfold avShmCreateRw
    rw [decide_eq_true hsize.1, decide_eq_true hsize.2, decide_eq_true hmode]
    rfl
  rw [hrest]
  constructor
  · intro he
    obtain ⟨c, kc, hc, hr⟩ := Exec.of_bind he.of_pure.of_pure.of_pure
    exact ⟨kc, ⟨c, hc⟩, hr⟩
  · rintro ⟨kc, ⟨c, hc⟩, hr⟩
    exact .bind .pure (.bind .pure (.bind .pure (.bind hc hr)))

/-- The names after a cleanup of `k`: only stale ones are missing. -/
structure Thinned (h : Host) (k : Kernel) (D : CStr → Option Nat) : Prop where
  sub : ∀ n i, D n = some i → k.dir.lookup n = some i
  kept : ∀ n i, k.dir.lookup n = some i → ¬ Stale h k n → D n = some i

/-- The names of a failed call, whose handle is `m'`.  For an attach they are as before; for a
    create they are as its own cleanup has left them. -/
def SameNames (h : Host) (t : Nat) (k k' : Kernel) (m' : AvShm) : ShmCall → Prop
  | .attach _ _ => ∀ n, k'.dir.lookup n = k.dir.lookup n
  | .create idp m size shared mode =>
    (∃ kc, SplitRun (fairSem h true t) h idp m size shared mode k kc (-1, m') k') ∧
      ∀ kc, SplitRun (fairSem h true t) h idp m size shared mode k kc (-1, m') k' →
        Thinned h k (fun n => kc.dir.lookup n) ∧ ∀ n, k'.dir.lookup n = kc.dir.lookup n
  | _ => True

/-- A create or attach returns 0 or -1, and after -1 the names are as before. -/
def FailsClean (h : Host) (t : Nat) (k k' : Kernel) (c : ShmCall) : ShmRet → Prop
  | .handle r m' => r = 0 ∨ (r = -1 ∧ SameNames h t k k' m' c)
  | _ => True

namespace Solo

variable {t : Nat} {k₀ k k' : Kernel} {D : CStr → Option Nat} {F : List (Int × File)}

/-! ## Creating -/

/-- `n` is bound to the object `i`, which may be unlinked; nothing was bound to it before. -/
structure Bound (t : Nat) (D : CStr → Option Nat) (F : List (Int × File)) (M : List Mapping)
    (n : CStr) (i : Nat) (k : Kernel) : Prop where
  holds : Holds t (Function.update D n (some i)) F M k
  removable : (k.inodes i).removable = true
  free : D n = none

theorem Bound.closed {n : CStr} {i : Nat} : Closed t (Bound t D F M n i) := fun k k' hq hk =>
  ⟨Holds.closed k k' hq hk.holds, by rw [hq.removable]; exact hk.removable, hk.free⟩

/-- The names behind a handle that a create has filled in: none for a private one, else that
    of its segment. -/
def Named (t : Nat) (D : CStr → Option Nat) (F : List (Int × File)) (M : List Mapping)
    (shared : Int) (m : AvShm) (k : Kernel) : Prop :=
  (shared = 0 ∧ m.shared = 0 ∧ Holds t D F M k) ∨
  (shared ≠ 0 ∧ m.shared = bitField shared ∧ m.doUnlink = bitField 1 ∧
    ∃ i, Bound t D F M (entryName m.id) i k)

theorem Named.fds_maps {shared : Int} {m : AvShm} (hk : Named t D F M shared m k) :
    (k.procs t).fds = F ∧ (k.procs t).maps.Perm M := by
  rcases hk with ⟨-, -, hk⟩ | ⟨-, -, -, i, hk⟩
  · exact ⟨hk.fds, hk.maps⟩
  · exact ⟨hk.holds.fds, hk.holds.maps⟩

/-- What a create without its cleanup does: a mapping for its handle, and its name, or
    nothing. -/
def MadeOrNot (h : Host) (t : Nat) (D : CStr → Option Nat) (F : List (Int × File))
    (M : List Mapping) (shared : Int) (r : Int × AvShm) (k : Kernel) : Prop :=
  (r.1 = 0 ∧ ∃ mp, (∀ c room, Behind h ⟨r.2, c, room⟩ mp) ∧
    (∀ m ∈ M, mp.Disjoint m) ∧ Named t D F (mp :: M) shared r.2 k) ∨
  (r.1 = -1 ∧ Holds t D F M k)

/-- A new mapping. -/
theorem mmap_cases {len : Nat} {write : Bool} {file : Option (Int × Nat)} {ch : Choice} {r}
    (hk : Holds t D F M k) (he : exec h ch t (.mmap len write file) k = some (r, k')) :
    (∃ e, r = .error e ∧ k' = k) ∨ ∃ a mp, r = .ok a ∧ mp.addr = a ∧
      mp.len = roundUp h.pageSize len ∧ h.pageSize ∣ a ∧ (∀ m ∈ M, mp.Disjoint m) ∧
      k' = k.setProc t ((k.procs t).map mp) ∧ Holds t D F (mp :: M) k' := by
  rcases mmapCall_cases he with ⟨e, rfl, rfl, -⟩ | ⟨a, ino, off, rfl, -, -, hpage, hnew,
    rfl, -⟩
  · exact .inl ⟨e, rfl, rfl⟩
  · exact .inr ⟨a, ⟨a, roundUp h.pageSize len, ino, off, write⟩, rfl, rfl, rfl, hpage,
      fun m hm => hnew m (hk.maps.mem_iff.2 hm), rfl, hk.setProc hk.fds (hk.maps.cons _)⟩

theorem avShmCreatePrivate_triple {size : Nat} (m : AvShm) (hsize : SizeOk h size) :
    (env h t).Triple (Holds t D F M) (avShmCreatePrivate h m (avPageAlign h size) 0)
      (MadeOrNot h t D F M 0) := by
  refine triple_op (o := .mmap (avPageAlign h size) true none) (R := onResult
      (fun _ k => Holds t D F M k)
      (fun a k => ∃ mp : Mapping, (mp.addr = a ∧ mp.len = roundUp h.pageSize (avPageAlign h size) ∧
          h.pageSize ∣ a ∧ ∀ m ∈ M, mp.Disjoint m) ∧ Holds t D F (mp :: M) k))
            Holds.closed
    (Closed.onResult (fun _ => Holds.closed) fun _ => .exists fun _ => (Closed.const _).and
      Holds.closed)
    (fun ch k r k' hk _ he => ?_) fun r => ?_
  · rcases mmap_cases hk he with ⟨e, rfl, rfl⟩ | ⟨a, mp, rfl, ha, hlen, hpage, hnew, -,
      hk'⟩
    · exact hk
    · exact ⟨mp, ⟨ha, hlen, hpage, hnew⟩, hk'⟩
  cases r with
  | error e => exact keep_then call_keep Holds.closed fun _ => triple_ret fun k hk => .inr ⟨rfl, hk⟩
  | ok a =>
    refine Env.Triple.exists fun mp => Env.Triple.assume (fun k hk => hk.1) fun hmp => ?_
    obtain ⟨ha, hlen, hpage, hnew⟩ := hmp
    have hle : avPageAlign h size ≤ 2 ^ 28 := Nat.le_trans (userSize_le hsize) (by decide)
    refine triple_ret fun k hk =>
      .inl ⟨rfl, mp, fun c room => ⟨ha, ?_, hpage, userSize_pos hsize, hle⟩,
      hnew, .inl ⟨rfl, rfl, hk.2⟩⟩
    rw [hlen]
    exact (avPageAlign_eq (pageSize_no_wrap hle)).symm

/-- The object `i` is bound to `n` and open as `fd`. -/
structure Half (t : Nat) (D : CStr → Option Nat) (F : List (Int × File)) (M : List Mapping)
    (n : CStr) (i : Nat) (fd : Int) (k : Kernel) : Prop where
  bound : Bound t D ((fd, .shm i true) :: F) M n i k
  fresh : ∀ y ∈ F, y.1 ≠ fd
  nonneg : 0 ≤ fd

variable {n : CStr} {i : Nat} {fd : Int}

theorem Half.closed : Closed t (Half t D F M n i fd) := fun k k' hq hk =>
  ⟨Bound.closed k k' hq hk.bound, hk.fresh, hk.nonneg⟩

/-- `shm_unlink` takes the name back. -/
theorem Bound.unlink {ch : Choice} {r : Except Errno Unit} (hk : Bound t D F M n i k)
    (hf : ch.isFail = false) (he : exec h ch t (.shmUnlink ('/' :: n)) k = some (r, k')) :
    Holds t D F M k' := by
  have hbound : k.dir.lookup n = some i := by rw [hk.holds.dir, Function.update_self]
  rcases shmUnlink_cases he with ⟨e, -, rfl, rfl | hno | ⟨n', j, hn, hl, hrem⟩⟩ |
    ⟨n', j, hn, hl, -, rfl, rfl⟩
  · cases hf
  · rw [hno n rfl] at hbound
    cases hbound
  · cases hn
    rw [hbound] at hl
    cases hl
    rw [hk.removable] at hrem
    cases hrem
  · cases hn
    refine ⟨fun n' => ?_, hk.holds.fds, hk.holds.maps⟩
    by_cases hn' : n' = n
    · subst hn'
      rw [hk.free]
      exact AList.lookup_erase ..
    · have hdir := hk.holds.dir n'
      rw [Function.update_of_ne hn'] at hdir
      exact (erase_lookup hn').trans hdir

/-- The failure path takes the new name back and closes the descriptor. -/
theorem avShmCreateFail_triple {shared : Int} (m : AvShm) :
    (env h t).Triple (Half t D F M n i fd) (avShmCreateFail fd ('/' :: n) m)
      (MadeOrNot h t D F M shared) := by
  refine Env.Triple.assume (fun k hk => And.intro hk.nonneg hk.fresh) fun hφ => ?_
  obtain ⟨hfd, hF⟩ := hφ
  unfold avShmCreateFail
  rw [if_pos hfd]
  refine triple_op (o := .shmUnlink ('/' :: n)) (R := fun _ => Holds t D ((fd, .shm i true) :: F) M)
    Half.closed (fun _ => Holds.closed) (fun ch k r k' hk hf he => hk.bound.unlink hf he)
      fun r => ?_
  exact (avClose_triple hF).bind fun _ => triple_ret fun k hk => .inr ⟨rfl, hk.2⟩

/-- A close takes no permission away. -/
theorem exec_close_removable {o : Sys} {ch : Choice} {r : o.Resp} (ho : ∃ fd, o = .close fd)
    (he : exec h ch t o k = some (r, k')) : k'.inodes = k.inodes := by
  obtain ⟨fd, rfl⟩ := ho
  rcases closeCall_cases he with ⟨e, -, rfl, -⟩ | ⟨f, -, -, rfl⟩
  · rfl
  · rfl

theorem avClose_half :
    (env h t).Triple (Half t D F M n i fd) (avClose fd) fun _ => Bound t D F M n i := by
  refine Env.Triple.assume (fun k hk => And.intro hk.fresh hk.bound.free) fun hφ => ?_
  obtain ⟨hF, hfree⟩ := hφ
  have honly : (avClose fd).Only fun o : Sys => ∃ fd, o = .close fd := avClose_only ⟨fd, rfl⟩
  -- the permission is not part of the ledger, so it is framed
  have hframe := (avClose_triple (h := h) (t := t)
    (D := Function.update D n (some i)) (M := M) (x := .shm i true) hF).frame
    (R := fun k => (k.inodes i).removable = true) honly (Env.alone_stable _) ?_
  · refine hframe.conseq (fun k hk => ⟨hk.bound.holds, hk.bound.removable⟩) fun r k hk => ?_
    exact ⟨hk.1.2, hk.2, hfree⟩
  · rintro o k r k' ho hk ⟨k₁, k₂, hq₁, ⟨ch, -, he⟩, hq₂⟩
    rw [hq₂.removable, exec_close_removable ho he, hq₁.removable]
    exact hk

/-- The last part of a create closes the descriptor. -/
theorem avShmCreateMark_triple {mp : Mapping} (m : AvShm) (shared : Int)
    (hb : ∀ c room, Behind h ⟨{ m with doUnlink := bitField 1, shared := bitField shared }, c,
      room⟩ mp)
    (hnew : ∀ m' ∈ M, mp.Disjoint m') (hshared : shared ≠ 0) (hn : entryName m.id = n) :
    (env h t).Triple (Half t D F (mp :: M) n i fd) (avShmCreateMark h fd m shared)
      (MadeOrNot h t D F M shared) := by
  refine keep_then call_keep Half.closed fun pid => keep_then call_keep Half.closed fun _ =>
    keep_then call_keep Half.closed fun _ => ?_
  refine avClose_half.bind fun r => assert_then fun _ => triple_ret fun k hk => ?_
  subst hn
  exact .inl ⟨rfl, mp, hb, hnew, .inr ⟨hshared, rfl, rfl, i, hk⟩⟩

theorem avShmCreateFile_triple {m : AvShm} {shared : Int} {size : Nat} (hsize : SizeOk h size)
    (hm : m.size = segSize h size) (hshared : shared ≠ 0) (hn : entryName m.id = n) :
    (env h t).Triple (Half t D F M n i fd) (avShmCreateFile h fd ('/' :: n) m shared)
      (MadeOrNot h t D F M shared) := by
  have hfail : ∀ m, (env h t).Triple (Half t D F M n i fd) (avShmCreateFail fd ('/' :: n) m)
      (MadeOrNot h t D F M shared) := avShmCreateFail_triple
  refine keep_then (β := Except Errno Unit) call_keep Half.closed fun r => ?_
  cases r with
  | error e => exact keep_then call_keep Half.closed fun _ => hfail _
  | ok _ =>
    refine triple_op (o := .mmap (avPageAlign h m.size) true (some (fd, 0)))
        (R := onResult (fun _ k => Half t D F M n i fd k)
        (fun a k => ∃ mp : Mapping, (mp.addr = a ∧ mp.len =
          roundUp h.pageSize (avPageAlign h m.size) ∧
            h.pageSize ∣ a ∧ ∀ m ∈ M, mp.Disjoint m) ∧ Half t D F (mp :: M) n i fd k))
              Half.closed
      (Closed.onResult (fun _ => Half.closed) fun _ => .exists fun _ => (Closed.const _).and
        Half.closed)
      (fun ch k r k' hk _ he => ?_) fun r => ?_
    · rcases mmap_cases hk.bound.holds he with ⟨e, rfl, rfl⟩ |
        ⟨a, mp, rfl, ha, hlen, hpage, hnew, rfl, hk'⟩
      · exact hk
      · exact ⟨mp, ⟨ha, hlen, hpage, hnew⟩, ⟨hk', hk.bound.removable, hk.bound.free⟩,
          hk.fresh, hk.nonneg⟩
    cases r with
    | error e => exact keep_then call_keep Half.closed fun _ => hfail _
    | ok a =>
      refine Env.Triple.exists fun mp => Env.Triple.assume (fun k hk => hk.1) fun hmp => ?_
      obtain ⟨ha, hlen, hpage, hnew⟩ := hmp
      -- the mapping has the length that the handle will be freed with
      refine Env.Triple.pre (avShmCreateMark_triple _ _ (fun c room => ?_) hnew hshared hn)
        fun k hk => hk.2
      have hround := (mapLen_attached (invalidSize_segSize hsize)).2.2
      have hle := segSize_le hsize
      refine ⟨ha, ?_, hpage, ?_, ?_⟩
      · change mp.len = avPageAlign h m.size
        rw [hlen, hm, hround]
      · change 0 < m.size
        rw [hm]
        exact segSize_pos hsize
      · change m.size ≤ 2 ^ 28
        omega

theorem avShmCreateShared_triple {size : Nat} {shared : Int} (idp : Nat) (m : AvShm) (mode : Nat)
    (hsize : SizeOk h size) (hshared : shared ≠ 0) : (env h t).Triple (Holds t D F M)
      (avShmCreateShared h idp m (avPageAlign h size) shared mode)
        (MadeOrNot h t D F M shared) := by
  refine (avRandom_triple idp 4).bind fun _ => keep_then call_keep Holds.closed fun id => ?_
  rw [segmentName_eq (by decide)]
  refine triple_op (o := .shmOpen ('/' :: entryName id) .rdwrCreatExcl (mode &&& 0o444))
    (R := onResult (fun _ k => Holds t D F M k)
      (fun fd k => ∃ i, Half t D F M (entryName id) i fd k)) Holds.closed
    (Closed.onResult (fun _ => Holds.closed) fun _ => .exists fun _ => Half.closed)
    (fun ch k r k' hk _ he => ?_) fun r => ?_
  · rcases shmOpen_cases he with ⟨e, rfl, rfl, -⟩ | ⟨_, _, _, _, hflags, _⟩ |
      ⟨nm, fd, hnm, -, hl, hfd, rfl, rfl⟩
    · exact hk
    · cases hflags
    · cases hnm
      -- the new object, its name and its descriptor
      refine ⟨k.inos, ⟨⟨fun n => ?_, ?_, ?_⟩, create_inodes_self.2.2.2, ?_⟩, ?_,
        Int.natCast_nonneg _⟩
      · rw [create_lookup, Function.update_apply, hk.dir n]
      · rw [create_procs_self, ← hk.fds]
        rfl
      · rw [create_procs_self]
        exact hk.maps
      · rw [← hk.dir]
        exact hl
      · rw [← hk.fds]
        exact Proc.file_eq_none.1 hfd
  cases r with
  | error e => exact keep_then call_keep Holds.closed fun _ => triple_ret fun k hk => .inr ⟨rfl, hk⟩
  | ok fd => exact Env.Triple.exists fun i => avShmCreateFile_triple hsize rfl hshared rfl

/-! ## Freeing -/

/-- Process `t` has the descriptors `F` and, in some order, the mappings `M`. -/
def Acc (t : Nat) (F : List (Int × File)) (M : List Mapping) (k : Kernel) : Prop :=
  (k.procs t).fds = F ∧ (k.procs t).maps.Perm M

theorem Acc.closed : Closed t (Acc t F M) := fun k k' hq hk =>
  ⟨by rw [hq.fds]; exact hk.1, by rw [hq.maps]; exact hk.2⟩

/-- `munmap` of the whole pages of a mapping, reported if it failed. -/
theorem munmap_then {α : Type} {mp : Mapping} {len : Nat} {fmt : String} {args : List LogArg}
    {g : Unit → C α} {P P' : Kernel → Prop} {Q : α → Kernel → Prop} (hP : Closed t P)
    (hP' : Closed t P') (hlen : 0 < len) (hround : roundUp h.pageSize len = mp.len)
    (hpage : h.pageSize ∣ mp.addr) (hnew : ∀ m ∈ M, mp.Disjoint m)
    (hmaps : ∀ k, P k → (k.procs t).maps.Perm (mp :: M))
    (hunmap : ∀ k p, P k → p.fds = (k.procs t).fds → p.maps.Perm M → P' (k.setProc t p))
    (hg : ∀ u, (env h t).Triple P' (g u) Q) :
    (env h t).Triple P (call (.munmap mp.addr len) >>= fun r => logIfError r fmt args >>= g) Q := by
  have hpos : 0 < mp.len := by
    rw [← hround]
    exact Nat.lt_of_lt_of_le hlen (le_roundUp h.pageSize_pos)
  refine triple_op (o := .munmap mp.addr len) (R := fun _ => P') hP (fun _ => hP')
    (fun ch k r k' hk hf he => ?_) fun r => ?_
  · rcases munmapCall_cases he with ⟨e, -, -, rfl | h0 | hbad⟩ | ⟨-, -, rfl, rfl⟩
    · cases hf
    · omega
    · exact absurd hpage hbad
    · refine hunmap k _ hk rfl ?_
      rw [hround]
      exact Proc.unmap_perm (hmaps k hk) hnew hpos
  · exact keep_then (logIfError_only (fun _ _ _ => trivial) r fmt args) hP' hg

/-- `av_shm_free` of a live handle gives back its mapping, whole, and goes on from there. -/
theorem avShmFree_then {mp : Mapping} {P P' : Kernel → Prop} {Q : AvShm → Kernel → Prop}
    (hb : Behind h hd mp) (hP : Closed t P) (hP' : Closed t P')
    (hnew : ∀ m ∈ M, mp.Disjoint m) (hmaps : ∀ k, P k → (k.procs t).maps.Perm (mp :: M))
    (hunmap : ∀ k p, P k → p.fds = (k.procs t).fds → p.maps.Perm M → P' (k.setProc t p))
    (hkeep : hd.m.shared = 0 ∨ hd.m.doUnlink = 0 → ∀ k, P' k → Q {} k)
    (hunlink : hd.m.shared ≠ 0 → hd.m.doUnlink ≠ 0 → ∀ ch k r k', P' k →
      ch.isFail = false →
      exec h ch t (.shmUnlink ('/' :: entryName hd.m.id)) k = some (r, k') → Q {} k')
    (hQ : Closed t (Q {})) : (env h t).Triple P (avShmFree h hd.m) Q := by
  have halign : avPageAlign h hd.m.size = roundUp h.pageSize hd.m.size :=
    avPageAlign_eq (pageSize_no_wrap hb.le)
  have hlen : 0 < avPageAlign h hd.m.size := Nat.lt_of_lt_of_le hb.pos (le_mapLen hb.le)
  have hpage : h.pageSize ∣ mp.addr := by rw [hb.addr]; exact hb.page
  refine assert_then fun _ => assert_then fun _ => assert_then fun _ => ?_
  rw [← hb.addr]
  split
  · rename_i hs
    -- munmap gets the plain size here; the kernel rounds it up to pages
    refine munmap_then hP hP' hb.pos (by rw [hb.len, halign]) hpage hnew hmaps hunmap fun _ => ?_
    exact triple_ret (hkeep (.inl hs))
  · rename_i hs
    refine munmap_then hP hP' hlen ?_ hpage hnew hmaps hunmap fun _ => ?_
    · rw [hb.len, halign, roundUp_of_dvd h.pageSize_pos (dvd_roundUp ..)]
    · split
      · rename_i hu
        rw [segmentName_eq (by decide)]
        exact triple_op hP' (fun _ => hQ)
          (fun ch k r k' hk hf he => hunlink hs hu ch k r k' hk hf he)
          fun r => keep_then (logIfError_only (fun _ _ _ => trivial) r _ _) hQ fun _ =>
            triple_ret fun k hk => hk
      · rename_i hu
        exact triple_ret (hkeep (.inr (not_not.1 hu)))

/-- `av_shm_free` of a live handle takes its mapping away. -/
theorem avShmFree_triple {mp : Mapping} (hb : Behind h hd mp) (hnew : ∀ m ∈ M, mp.Disjoint m) :
    (env h t).Triple (Acc t F (mp :: M)) (avShmFree h hd.m) fun _ => Acc t F M := by
  refine avShmFree_then hb Acc.closed Acc.closed hnew (fun k hk => hk.2)
    (fun k p hk hfds hmaps => ?_) (fun _ k hk => hk) (fun _ _ ch k r k' hk hf he => ?_) Acc.closed
  · rw [Acc, setProc_self]
    exact ⟨hfds.trans hk.1, hmaps⟩
  · rcases shmUnlink_cases he with ⟨e, -, rfl, -⟩ | ⟨n, i, -, -, -, -, rfl⟩
    · exact hk
    · exact hk

/-! ## Attaching -/

/-- None of the operations of an attach touches a name. -/
theorem exec_attach {o : Sys} {ch : Choice} {r : o.Resp} (ho : AttachOp o)
    (he : exec h ch t o k = some (r, k')) : k'.dir = k.dir := by
  cases o with
  | shmOpen name flags mode =>
    rcases shmOpen_cases he with ⟨e, -, rfl, -⟩ | ⟨n, i, fd, -, -, -, -, -, -, rfl⟩ |
      ⟨_, _, _, hflags, _⟩
    · rfl
    · rfl
    · rw [hflags] at ho
      cases ho
  | mmap len write file =>
    rcases mmapCall_cases he with ⟨e, -, rfl, -⟩ | ⟨a, ino, off, -, -, -, -, -, rfl, -⟩
    · rfl
    · rfl
  | log lvl fmt args => exact (exec_kept (o := .log lvl fmt args) trivial he).dir
  | abort => exact r.elim
  | fstat fd => exact (exec_kept (o := .fstat fd) trivial he).dir
  | close fd =>
    rcases closeCall_cases he with ⟨e, -, rfl, -⟩ | ⟨f, -, -, rfl⟩
    · rfl
    · rfl
  | _ => exact ho.elim

/-! ## The calls -/

theorem avShmCleanup_triple : (Env.alone (fairSem h true t)).Triple (fun k' => k' = k)
    (avShmCleanup h) fun _ k' => ∃ D, Thinned h k D ∧
    Holds t D (k.procs t).fds (k.procs t).maps k' := by
  have hpass : (Sweep.view h true k t).Bounded (Sweep.passCost k)
      (Sweep.Has h k t (k.procs t).fds (k.procs t).maps) (avShmCleanup h) _ :=
    Sweep.avShmCleanup_bounded
  refine Env.Triple.conseq hpass.triple.alone ?_ ?_
  · rintro _ rfl
    exact ⟨.refl h _, rfl, .refl _⟩
  · rintro r k' ⟨hk, -⟩
    exact ⟨k'.dir.lookup, ⟨hk.base.sub, hk.base.kept⟩, fun _ => rfl, hk.fds, hk.maps⟩

/-- The two outcomes of a create or attach: the mapping of a new handle, or the same
    mappings. -/
def Outcome (h : Host) (t : Nat) (k : Kernel) (r : Int × AvShm) (k' : Kernel) : Prop :=
  (r.1 = 0 ∧ ∃ mp, (∀ n room, Behind h ⟨r.2, n, room⟩ mp) ∧
    (∀ m ∈ (k.procs t).maps, mp.Disjoint m) ∧
    Acc t (k.procs t).fds (mp :: (k.procs t).maps) k') ∨
  (r.1 = -1 ∧ Acc t (k.procs t).fds (k.procs t).maps k')

theorem avShmCreateRest_triple {idp size mode : Nat} {m : AvShm} {shared : Int}
    (hsize : SizeOk h size) : (env h t).Triple (Holds t D F M)
      (avShmCreateRest h idp m size shared mode) (MadeOrNot h t D F M shared) := by
  unfold avShmCreateRest
  by_cases hs : shared = 0
  · subst hs
    rw [if_pos rfl]
    exact avShmCreatePrivate_triple m hsize
  · rw [if_neg hs]
    exact avShmCreateShared_triple idp m mode hsize hs

/-- What a create has done, given what its cleanup has: thinned the names. -/
theorem SplitRun.made {idp size mode : Nat} {m : AvShm} {shared : Int} {r : Int × AvShm}
    {kc : Kernel} (hsize : SizeOk h size)
    (hrun : SplitRun (fairSem h true t) h idp m size shared mode k kc r k') :
    Thinned h k (fun n => kc.dir.lookup n) ∧
      MadeOrNot h t (fun n => kc.dir.lookup n) (k.procs t).fds (k.procs t).maps shared r k' := by
  obtain ⟨⟨c, hc⟩, he⟩ := hrun
  obtain ⟨D, hD, hk⟩ := avShmCleanup_triple.exec rfl hc
  obtain rfl : (fun n => kc.dir.lookup n) = D := funext hk.dir
  exact ⟨hD, ((avShmCreateRest_triple hsize).of_sem amongSem_of_fair).exec hk he⟩

/-- A create has one of the two outcomes, and a failed one leaves the names to its cleanup. -/
theorem avShmCreateRw_outcome {idp size mode : Nat} {m : AvShm} {shared : Int} {r : Int}
    {m' : AvShm} (hsize : SizeOk h size) (hmode : 0o600 ≤ mode)
    (he : Exec (fairSem h true t) (avShmCreateRw h idp m size shared mode) k (r, m') k') :
    Outcome h t k (r, m') k' ∧
      (r = -1 → SameNames h t k k' m' (.create idp m size shared mode)) := by
  obtain ⟨kc, hrun⟩ := (splitRun_iff hsize hmode).1 he
  constructor
  · obtain ⟨-, ⟨hr, mp, hb, hnew, hk⟩ | ⟨hr, hk⟩⟩ := SplitRun.made hsize hrun
    · exact .inl ⟨hr, mp, hb, hnew, hk.fds_maps⟩
    · exact .inr ⟨hr, hk.fds, hk.maps⟩
  · rintro rfl
    refine ⟨⟨kc, hrun⟩, fun kc' hrun' => ?_⟩
    obtain ⟨hthin, ⟨hr, -⟩ | ⟨-, hk⟩⟩ := SplitRun.made hsize hrun'
    · cases hr
    · exact ⟨hthin, hk.dir⟩

theorem avShmAttachRo_outcome {m m' : AvShm} {id : UInt32} {r : Int}
    (he : Exec (fairSem h true t) (avShmAttachRo h m id) k (r, m') k') :
    Outcome h t k (r, m') k' ∧ SameNames h t k k' m' (.attach m id) := by
  have hattach : (Sweep.view h true k t).Bounded 8
      (Sweep.Has h k t (k.procs t).fds (k.procs t).maps) (avShmAttachRo h m id) _ :=
    Sweep.avShmAttachRo_bounded m id
  -- the pass of a sweep allows for names that go, but an attach removes none
  have hdir := hattach.triple.alone.frame (R := fun k' => k'.dir = k.dir)
    (avShmAttachRo_only _ m id)
    (Env.alone_stable _) fun o k₁ r k₂ ho hk ⟨_, _, he⟩ => (exec_attach ho he).trans hk
  obtain ⟨hout, hkeep⟩ := hdir.exec ⟨⟨.refl h _, rfl, .refl _⟩, rfl⟩ he
  refine ⟨?_, fun n => by rw [hkeep]⟩
  obtain ⟨i, a, s, hres, hs, hk⟩ | ⟨hr, hk, -⟩ := hout
  · cases hres
    have hvalid := invalidSize_eq_false_iff.1 hs.valid
    refine .inl ⟨rfl, Sweep.segMap h i a s, fun n room => ⟨rfl, rfl, hs.page, hvalid.1, ?_⟩,
      hs.disjoint, hk.fds, hk.maps⟩
    change s ≤ 2 ^ 28
    omega
  · exact .inr ⟨hr, hk.fds, hk.maps⟩

/-- A create or attach keeps the balance. -/
theorem Outcome.balanced {s : ShmSt} {r : Int} {m : AvShm} (ho : Outcome h t k (r, m) k')
    (hb : Balanced h t k₀ s.handles k) (n room : Nat) :
    Balanced h t k₀ (if r = 0 then ⟨m, n, room⟩ :: s.handles else s.handles) k' ∧
      (r = 0 ∨ r = -1) := by
  rcases ho with ⟨hr, mp, hmp, hnew, hfds, hmaps⟩ | ⟨hr, hfds, hmaps⟩
  · obtain rfl : r = 0 := hr
    exact ⟨⟨hfds.trans hb.fds, (hb.maps.add (hmp n room) hnew).perm hmaps.symm⟩, .inl rfl⟩
  · obtain rfl : r = -1 := hr
    exact ⟨⟨hfds.trans hb.fds, hb.maps.perm hmaps.symm⟩, .inr rfl⟩

/-- One call. -/
theorem ShmCall.balanced {c : ShmCall} {s : ShmSt} {r : ShmRet} (hc : c.Admitted h s)
    (hb : Balanced h t k₀ s.handles k) (he : Exec (fairSem h true t) (c.body h) k r k') :
    Balanced h t k₀ (c.after h s r).handles k' ∧ FailsClean h t k k' c r := by
  have hexec : (Env.alone (fairSem h true t)).Triple (fun k' => k' = k) (c.body h) (fun r k' =>
      Balanced h t k₀ (c.after h s r).handles k' ∧ FailsClean h t k k' c r) →
      Balanced h t k₀ (c.after h s r).handles k' ∧ FailsClean h t k k' c r :=
        fun hT => hT.exec rfl he
  cases c with
  | create idp m size shared mode =>
    obtain ⟨⟨r, m'⟩, k₁, hcreate, hret⟩ := he.of_bind
    cases hret with
    | ret hp =>
      cases hp
      obtain ⟨hout, hnames⟩ := avShmCreateRw_outcome hc.1 hc.2 hcreate
      obtain ⟨hbal, hr⟩ := hout.balanced hb (s.calls + 1) (avPageAlign h size)
      refine ⟨?_, hr.imp_right fun hr => ⟨hr, hnames hr⟩⟩
      simp only [ShmCall.after]
      split <;> simpa [*] using hbal
    | spin hp _ => cases hp
    | call hp _ _ => cases hp
  | attach m id =>
    obtain ⟨⟨r, m'⟩, k₁, hattach, hret⟩ := he.of_bind
    cases hret with
    | ret hp =>
      cases hp
      obtain ⟨hout, hnames⟩ := avShmAttachRo_outcome hattach
      obtain ⟨hbal, hr⟩ := hout.balanced hb (s.calls + 1) 0
      refine ⟨?_, hr.imp_right fun hr => ⟨hr, hnames⟩⟩
      simp only [ShmCall.after]
      split <;> simpa [*] using hbal
    | spin hp _ => cases hp
    | call hp _ _ => cases hp
  | free hd =>
    obtain ⟨mp, M, hM, hmp, hnew, hL⟩ := hb.maps.take hc
    have hfree : (env h t).Triple (Acc t (k.procs t).fds (mp :: M)) (avShmFree h hd.m) fun _ =>
      Acc t (k.procs t).fds M := avShmFree_triple hmp hnew
    refine hexec (((hfree.of_sem amongSem_of_fair).pre ?_).bind fun m => triple_ret fun k' hk => ?_)
    · rintro _ rfl
      exact ⟨rfl, hM⟩
    · exact ⟨⟨hk.1.trans hb.fds, hL.perm hk.2.symm⟩, trivial⟩
  | cleanup =>
    refine hexec (avShmCleanup_triple.bind fun r => triple_ret fun k' hk => ?_)
    obtain ⟨D, -, hk⟩ := hk
    exact ⟨⟨hk.fds.trans hb.fds, hb.maps.perm hk.maps.symm⟩, trivial⟩
  | write hd off b => exact hc.elim

theorem Session.balanced {s : ShmSt} (hs : Session h t k₀ s k) :
    Balanced h t k₀ s.handles k := by
  induction hs with
  | start => exact ⟨rfl, .nil h _⟩
  | call c _ hc he ih => exact (ShmCall.balanced hc ih he).1

end Solo

/-- **Resources balance, failures are clean.**  After every call of every session the
    descriptors are those of the start, and the mappings those of the start and one for
    each live handle, covering it; and a create or attach that returned -1 left the names
    as they were, but for stale ones. -/
theorem session_balanced {t : Nat} {k₀ k : Kernel} {s : ShmSt} (hs : Session h t k₀ s k) :
    Balanced h t k₀ s.handles k ∧ ∀ c r k', c.Admitted h s →
      Exec (fairSem h true t) (c.body h) k r k' →
      Balanced h t k₀ (c.after h s r).handles k' ∧ FailsClean h t k k' c r :=
  ⟨Solo.Session.balanced hs, fun _ _ _ hc he => Solo.ShmCall.balanced hc
    (Solo.Session.balanced hs) he⟩

/-! ## A session on a small machine -/

/-- Nothing fails, and a directory is listed as it is. -/
def tame (ch : Choice) (_ : Sys) (k : Kernel) : Bool :=
  match ch with
  | .fail _ => false
  | .names _ l => decide (l = ['.'] :: ['.', '.'] :: k.dir.keys)
  | _ => true

theorem fair_of_tame {ch : Choice} {o : Sys} {k : Kernel} (hch : tame ch o k = true) (f : Bool) :
    Fair f ch k o := by
  have hfail : ch.isFail = false := by
    cases ch with
    | fail e => cases hch
    | _ => rfl
  have hnames : ∀ fd l, ch = .names fd l → l.Perm (['.'] :: ['.', '.'] :: k.dir.keys) := by
    rintro fd l rfl
    exact .of_eq (of_decide_eq_true hch)
  cases o with
  | close _ | closedir _ | munmap _ _ | shmUnlink _ => exact hfail
  | opendir _ => exact ⟨fun _ => hfail, hnames⟩
  | shmOpen _ _ _ | fstat _ | ftruncate _ _ | mmap _ _ _ => exact fun _ => hfail
  | _ => trivial

/-- A create that draws the id 7 in an empty directory. -/
def demoCreateAlone : List Choice :=
  [.names 3 [['.'], ['.', '.']], .ok 0, .ok 0, .ok 0, .ok 0, .ok 3, .bytes [7, 0, 0, 0],
    .ok 0, .ok 0, .ok 4, .ok 0, .ok 8192, .ok 0, .ok 0, .ok 0, .ok 0]

/-- A create that finds segment 7 there, with its owner alive, and draws its id again. -/
def demoCreateTaken : List Choice :=
  [.names 3 [['.'], ['.', '.'], entryName 7], .ok 0, .ok 0, .ok 0, .ok 4, .ok 0, .ok 65536, .ok 0,
    .ok 0, .ok 0, .ok 0, .ok 0, .ok 0, .ok 0, .ok 3, .bytes [7, 0, 0, 0], .ok 0, .ok 0,
      .ok 4, .ok 0]

/-- One process, with the pid 100. -/
def demoOne : Kernel := { demoBoot.k.setProc 0 (newProc 100) with nprocs := 1 }

def demoMake : ShmCall := .create 1 {} 1 1 0o600

/-- The process makes one call. -/
def demoCall (chs : List Choice) (c : ShmCall) (k : Kernel) : Option (ShmRet × Kernel) :=
  play (fun ch => exec demoHost ch 0) tame 100 chs (c.body demoHost) k

theorem demoCall_exec {chs : List Choice} {c : ShmCall} {k : Kernel} {x : ShmRet × Kernel}
    (hx : demoCall chs c k = some x) : Exec (fairSem demoHost true 0) (c.body demoHost) k x.1 x.2 :=
  exec_of_play (fun ch _ _ _ _ hch he => ⟨ch, fair_of_tame hch true, he⟩) hx

/-- A create, another one that draws the same id, and a free of the first one's handle. -/
def demoSession : Option ((ShmRet × Kernel) × (ShmRet × Kernel) × (ShmRet × Kernel)) :=
  (demoCall demoCreateAlone demoMake demoOne).bind fun x =>
  (demoCall demoCreateTaken demoMake x.2).bind fun y =>
  (demoCall [.ok 0, .ok 0] (.free ((demoMake.after demoHost {} x.1).handles.headD ⟨{}, 0, 0⟩))
    y.2).map fun z => (x, y, z)

/-- The second create fails and leaves segment 7, and its own balance, as they were; after the
    free the process holds nothing. -/
theorem session_balanced_demo : ∃ s s' k₁ k₂ k₃ r, Session demoHost 0 demoOne s k₁ ∧
    s.handles.map (fun hd => hd.m.ptr) = [8192] ∧
    Exec (fairSem demoHost true 0) (demoMake.body demoHost) k₁ r k₂ ∧
    (∃ m', r = .handle (-1) m' ∧ SameNames demoHost 0 k₁ k₂ m' demoMake) ∧
    k₂.dir.lookup (entryName 7) = some 0 ∧ Balanced demoHost 0 demoOne s.handles k₂ ∧
    Session demoHost 0 demoOne s' k₃ ∧ s'.handles = [] ∧
    Balanced demoHost 0 demoOne s'.handles k₃ := by
  have hplay : demoSession.any (fun w =>
      decide ((demoMake.after demoHost {} w.1.1).handles.map (fun hd => hd.m.ptr) = [8192] ∧
        w.2.1.2.dir.lookup (entryName 7) = some 0) &&
      match w.2.1.1 with
      | .handle r _ => decide (r = -1)
      | _ => false) = true := by decide +kernel
  obtain ⟨⟨x, y, z⟩, hdemo, hw⟩ := (Option.any_eq_true _ _).1 hplay
  obtain ⟨hx, hw⟩ : _ ∧ _ := (Bool.and_eq_true _ _).mp hw
  obtain ⟨hptr, hname⟩ := of_decide_eq_true hx
  obtain ⟨x', hx', hdemo⟩ := Option.bind_eq_some_iff.1 hdemo
  obtain ⟨y', hy', hdemo⟩ := Option.bind_eq_some_iff.1 hdemo
  obtain ⟨z', hz', heq⟩ := Option.map_eq_some_iff.1 hdemo
  cases heq
  have hadm : ∀ s, demoMake.Admitted demoHost s :=
    fun _ => ⟨⟨by decide, by decide⟩, by decide⟩
  -- the create
  have hs₁ : Session demoHost 0 demoOne (demoMake.after demoHost {} x.1) x.2 :=
    .call demoMake .start (hadm _) (demoCall_exec hx')
  obtain ⟨hd, hhd⟩ : ∃ hd, (demoMake.after demoHost {} x.1).handles = [hd] := by
    obtain ⟨hd, hhd, -⟩ := List.map_eq_singleton_iff.1 hptr
    exact ⟨hd, hhd⟩
  -- the one that fails
  obtain ⟨hbal, hclean⟩ :=
    (session_balanced hs₁).2 demoMake y.1 y.2 (hadm _) (demoCall_exec hy')
  have hs₂ : Session demoHost 0 demoOne _ y.2 := hs₁.call demoMake (hadm _) (demoCall_exec hy')
  obtain ⟨m', hm'⟩ : ∃ m', y.1 = .handle (-1) m' := by
    cases hy : y.1 with
    | handle r m' =>
      rw [hy] at hw
      obtain rfl : r = -1 := of_decide_eq_true hw
      exact ⟨m', rfl⟩
    | _ => rw [hy] at hw; cases hw
  rw [hm'] at hs₂ hclean hbal
  have hsame : SameNames demoHost 0 x.2 y.2 m' demoMake := by
    obtain h0 | ⟨-, hsame⟩ := hclean
    · cases h0
    · exact hsame
  -- the free
  have hmem : (demoMake.after demoHost {} x.1).handles.headD ⟨{}, 0, 0⟩ ∈
      (demoMake.after demoHost (demoMake.after demoHost {} x.1) (.handle (-1) m')).handles := by
    rw [hhd]
    change hd ∈ (demoMake.after demoHost {} x.1).handles
    rw [hhd]
    exact List.mem_singleton_self hd
  have hs₃ := hs₂.call (.free _) hmem (demoCall_exec hz')
  refine ⟨_, _, x.2, y.2, z.2, y.1, hs₁, hptr, demoCall_exec hy', ⟨m', hm', hsame⟩, hname,
    hbal, hs₃, ?_, (session_balanced hs₃).1⟩
  change (demoMake.after demoHost {} x.1).handles.erase
    ((demoMake.after demoHost {} x.1).handles.headD ⟨{}, 0, 0⟩) = []
  rw [hhd]
  exact List.erase_cons_head ..

end AnekVideo
