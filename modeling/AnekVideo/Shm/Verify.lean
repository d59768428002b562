/-
  AnekVideo.Shm.Verify

  Every call of shm.h keeps the protocol.

  One triple for each function, in the order in which they call each other:
  attach and free, one entry of a cleanup, the cleanup, the create.  `n` is the
  number of the call a process is in and `hs` what it holds, older handles only.
-/
import AnekVideo.Shm.Quiet

namespace AnekVideo

open Interact RoundUp Word Kernel

variable {h : Host} {b : Bool} {t : Nat} {hs : List Handle} {n : Nat} {c : Option ShmCall}

namespace Kernel

variable {k k' : Kernel}

/-- Process `t` holds `hs` and has no marker pending. -/
def Ready (h : Host) (b : Bool) (t : Nat) (hs : List Handle) (n : Nat) (c : Option ShmCall)
    (k : Kernel) : Prop := Own h b t hs n c k ∧ Calm h t k

theorem Ready.inv (hk : Ready h b t hs n c k) : Inv h k := hk.1.inv

theorem Ready.rely (hk : Ready h b t hs n c k) (hr : Rely h b t k k') : Ready h b t hs n c k' :=
  ⟨hk.1.rely hr, hk.2.rely hr⟩

theorem Ready.quiet (hk : Ready h b t hs n c k) (hq : Quiet t k k') : Ready h b t hs n c k' :=
  ⟨hk.1.quiet hq, hk.2.quiet hq⟩

theorem Ready.stable : (view h b t).Stable (Ready h b t hs n c) := fun _ _ hr hk => hk.rely hr

/-- A quiet program leaves a process ready. -/
theorem Ready.triple {α : Type} {p : C α} (hp : p.Only QuietOp) :
    (view h b t).Triple (Ready h b t hs n c) p fun _ => Ready h b t hs n c :=
  triple_quiet hp Ready.stable (fun _ _ hq hk => hk.quiet hq) fun _ => Ready.inv

/-- A quiet program, then the rest. -/
theorem Ready.then {α β : Type} {p : C α} {f : α → C β} {Q : β → Kernel → Prop}
    (hp : p.Only QuietOp) (hf : ∀ a, (view h b t).Triple (Ready h b t hs n c) (f a) Q) :
    (view h b t).Triple (Ready h b t hs n c) (p >>= f) Q :=
  (Ready.triple hp).bind hf

/-- Descriptor `fd` of process `t` is the object it opened last. -/
structure Opened (t : Nat) (fd : Int) (w : Bool) (i : Nat) (k : Kernel) : Prop where
  file : (k.procs t).file fd = some (.shm i w)
  opened : (k.procs t).opened = some i
  lt : i < k.inos

theorem Opened.rely {fd : Int} {w : Bool} {i : Nat} (ho : Opened t fd w i k)
    (hr : Rely h b t k k') : Opened t fd w i k' :=
  ⟨by rw [hr.own]; exact ho.file, by rw [hr.own]; exact ho.opened,
    Nat.lt_of_lt_of_le ho.lt hr.inos⟩

/-- The size a reader saw is that of the segment, if it is one. -/
def Sized (h : Host) (i s : Nat) (k : Kernel) : Prop :=
  ∀ mk, (k.inodes i).made = some mk → s = segSize h mk.size ∧ (k.inodes i).len = s

theorem Sized.rely {i s : Nat} (hs : Sized h i s k) (hpos : 0 < s) (hi : i < k.inos)
    (hr : Rely h b t k k') : Sized h i s k' := by
  intro mk hmk
  rw [hr.made i hi] at hmk
  obtain ⟨hsize, hlen⟩ := hs mk hmk
  exact ⟨hsize, (hr.grown i mk hmk (by omega)).trans hlen⟩

/-- A handle that its owner attached, and what it knows of the object. -/
structure Attached (h : Host) (b : Bool) (t : Nat) (hd : Handle) (i : Nat) (k : Kernel) :
    Prop where
  at' : HandleAt h b t hd i k
  readonly : ¬ hd.Created
  opened : (k.procs t).opened = some i
  sized : Sized h i hd.m.size k

theorem Attached.pos {hd : Handle} {i : Nat} (ha : Attached h b t hd i k) : 0 < hd.m.size :=
  (invalidSize_eq_false_iff.1 ha.at'.size).1

theorem Attached.rely {hd : Handle} {i : Nat} (ha : Attached h b t hd i k)
    (halive : (k.procs t).alive = true) (hr : Rely h b t k k') : Attached h b t hd i k' :=
  ⟨ha.at'.rely halive hr, ha.readonly, by rw [hr.own]; exact ha.opened,
    ha.sized.rely ha.pos ha.at'.lt hr⟩

theorem Attached.setProc {hd : Handle} {i : Nat} {p : Proc} (ha : Attached h b t hd i k)
    (hmaps : p.maps = (k.procs t).maps) (ho : p.opened = (k.procs t).opened) :
    Attached h b t hd i (k.setProc t p) :=
  ⟨ha.at'.setProc
    (by rw [hmaps]; exact ha.at'.map),
    ha.readonly, by rw [setProc_self, ho]; exact ha.opened, ha.sized⟩

theorem Attached.quiet {hd : Handle} {i : Nat} (ha : Attached h b t hd i k) (hq : Quiet t k k') :
    Attached h b t hd i k' := by
  obtain ⟨fds, mem, w, rfl⟩ := hq
  exact ha.setProc rfl rfl

theorem Ready.pos (hk : Ready h b t hs n c k) : ∀ x ∈ hs, 0 < avPageAlign h x.m.size := by
  intro x hx
  obtain ⟨i, hi⟩ := hk.1.handles x hx
  exact (mapLen_attached hi.size).2.1

end Kernel

/-! ## av_shm_attach_ro -/

section Attach

variable {α : Type} {fd : Int} {i s : Nat} {Q : α → Kernel → Prop}

/-- An object is opened for reading, or the call fails. -/
theorem shmOpen_then {id : UInt32} {g : Except Errno Int → C α}
    (herr : ∀ e, (view h b t).Triple (Ready h b t hs n c) (g (.error e)) Q)
    (hok : ∀ fd i, (view h b t).Triple (fun k => Ready h b t hs n c k ∧ Opened t fd false i k)
      (g (.ok fd)) Q) :
    (view h b t).Triple (Ready h b t hs n c)
      (call (.shmOpen (segmentName 32 id) .rdonly 0) >>= g) Q := by
  refine triple_op (M := onResult (fun _ k => Ready h b t hs n c k)
      (fun fd k => ∃ i, Ready h b t hs n c k ∧ Opened t fd false i k))
    Ready.stable (fun ch k r k' hk _ he => ?_) fun r => ?_
  · rcases shmOpen_cases he with ⟨e, rfl, rfl, -⟩ | ⟨nm, i, fd, -, -, hl, -, -, rfl, rfl⟩ |
      ⟨_, _, _, hflags, _⟩
    · exact ⟨.same hk.inv trivial, hk⟩
    · refine ⟨.setProc hk.inv rfl (fun ha => ha) trivial, i,
        ⟨hk.1.setProc ?_ ?_ ?_ ?_ ?_, hk.2.setProc rfl⟩, ?_, ?_, hk.inv.names nm i hl⟩
      exacts [rfl, hk.1.alive, rfl, hk.1.calls, hk.1.cur, by simp [Proc.file, Proc.openFd], by simp]
    · -- the flags do not create anything
      cases hflags
  cases r with
  | error e => exact herr e
  | ok fd => exact Env.Triple.exists fun i => hok fd i

theorem Opened.stable :
    (view h b t).Stable fun k => Ready h b t hs n c k ∧ Opened t fd false i k :=
  fun _ _ hr hk => ⟨hk.1.rely hr, hk.2.rely hr⟩

/-- `fstat` on the open object.  A segment that has been sized keeps its size, so a length that
    passes the check is that of the segment. -/
theorem fstat_then {g : Except Errno Nat → C α}
    (hg : ∀ r, (view h b t).Triple (fun k => (Ready h b t hs n c k ∧ Opened t fd false i k) ∧
      ∀ s, r = .ok s → invalidSize h s = false → Sized h i s k) (g r) Q) :
    (view h b t).Triple (fun k => Ready h b t hs n c k ∧ Opened t fd false i k)
      (call (.fstat fd) >>= g) Q := by
  refine triple_op Opened.stable (fun ch k r k' hk _ he => ?_) hg
  obtain ⟨rfl, hlen⟩ := fstat_cases he
  refine ⟨.quiet hk.1.inv trivial (.refl t k'), hk, fun s hr hvalid mk hmk => ?_⟩
  rcases hlen with ⟨e, rfl, -⟩ | ⟨i', w, hfile, rfl⟩
  · cases hr
  cases hr
  rw [hk.2.file] at hfile
  cases hfile
  have hpos := (invalidSize_eq_false_iff.1 hvalid).1
  -- a segment has no length yet, or all of it
  rcases (hk.1.inv.made i mk hmk).len with h0 | hseg
  · -- its creator has not sized it yet: length 0 is not valid
    omega
  · exact ⟨hseg, rfl⟩

/-- The open object is mapped: one more handle. -/
theorem mmap_then {g : Except Errno Nat → C α} (id : UInt32) (holder : ∀ x ∈ hs, x.call < n)
    (hvalid : invalidSize h s = false)
    (herr : ∀ e, (view h b t).Triple (Ready h b t hs n c) (g (.error e)) Q)
    (hok : ∀ a, (view h b t).Triple (fun k =>
      Ready h b t (⟨⟨id, a, s, bitField 0, bitField 1⟩, n, 0⟩ :: hs) n c k ∧
        Attached h b t ⟨⟨id, a, s, bitField 0, bitField 1⟩, n, 0⟩ i k) (g (.ok a)) Q) :
    (view h b t).Triple
      (fun k => (Ready h b t hs n c k ∧ Opened t fd false i k) ∧ Sized h i s k)
      (call (.mmap (avPageAlign h s) false (some (fd, 0))) >>= g) Q := by
  obtain ⟨-, hlen, hround⟩ := mapLen_attached hvalid
  have hpos := (invalidSize_eq_false_iff.1 hvalid).1
  refine triple_op (M := onResult (fun _ k => Ready h b t hs n c k)
      (fun a k => Ready h b t (⟨⟨id, a, s, bitField 0, bitField 1⟩, n, 0⟩ :: hs) n c k ∧
        Attached h b t ⟨⟨id, a, s, bitField 0, bitField 1⟩, n, 0⟩ i k))
    (fun k k' hr hk => ⟨Opened.stable k k' hr hk.1, hk.2.rely hpos hk.1.2.lt hr⟩)
    (fun ch k r k' hk _ he => ?_) fun r => ?_
  · obtain ⟨⟨hready, hopened⟩, hsized⟩ := hk
    rcases mmapCall_cases he with ⟨e, rfl, rfl, -⟩ |
      ⟨a, ino, off, rfl, -, -, -, hnew, rfl, ⟨hfile, -⟩ | ⟨fd', i', w, hfd, rfl, hfile⟩⟩
    · exact ⟨.same hready.inv trivial, hready⟩
    · cases hfile
    · cases hfd
      rw [hopened.file] at hfile
      cases hfile
      rw [hround] at hnew ⊢
      have hnc : ¬ Handle.Created ⟨⟨id, a, s, bitField 0, bitField 1⟩, n, 0⟩ := by
        simp [Handle.Created, bitField]
      -- the number of the call tells the new handle from the others
      obtain ⟨hown, hat⟩ := Own.map ⟨⟨id, a, s, bitField 0, bitField 1⟩, n, 0⟩
        hready.1 rfl hlen hnew hopened.lt (show bitField 1 ≠ 0 by decide) hvalid (fun _ => rfl)
        (fun hc => absurd hc hnc) (fun x hx => (holder x hx).ne) hready.pos
      refine ⟨.setProc hready.inv rfl (fun ha => ha) trivial, ⟨hown, hready.2.setProc rfl⟩,
        hat, hnc, ?_, hsized⟩
      rw [setProc_self]
      exact hopened.opened
  cases r with
  | error e => exact herr e
  | ok a => exact hok a

/-- An attach adds a handle or leaves everything as it was. -/
theorem avShmAttachRo_triple (holder : ∀ x ∈ hs, x.call < n) (m : AvShm) (id : UInt32) :
    (view h b t).Triple (Ready h b t hs n c) (avShmAttachRo h m id) fun r k =>
      (r.1 = 0 ∧ ∃ i, Ready h b t (⟨r.2, n, 0⟩ :: hs) n c k ∧
        Attached h b t ⟨r.2, n, 0⟩ i k) ∨
      (r.1 = -1 ∧ Ready h b t hs n c k) := by
  have hnone : ∀ m : AvShm, (view h b t).Triple (Ready h b t hs n c) (pure (-1, m)) fun r k =>
      (r.1 = 0 ∧ ∃ i, Ready h b t (⟨r.2, n, 0⟩ :: hs) n c k ∧
        Attached h b t ⟨r.2, n, 0⟩ i k) ∨
      (r.1 = -1 ∧ Ready h b t hs n c k) := fun m =>
    Env.Triple.ret Ready.stable fun k hk => .inr ⟨rfl, hk⟩
  have hfail : ∀ fd m, (view h b t).Triple (Ready h b t hs n c) (avShmAttachFail fd m) fun r k =>
      (r.1 = 0 ∧ ∃ i, Ready h b t (⟨r.2, n, 0⟩ :: hs) n c k ∧
        Attached h b t ⟨r.2, n, 0⟩ i k) ∨
      (r.1 = -1 ∧ Ready h b t hs n c k) := fun fd m =>
    Ready.then (avClose_quiet fd) fun _ => hnone m
  unfold avShmAttachRo
  refine shmOpen_then (fun e => ?_) fun fd i => fstat_then fun r => ?_
  · dsimp only
    split
    · exact Ready.then call_quiet fun _ => hnone _
    · exact hnone _
  cases r with
  | error e => exact (Ready.then call_quiet fun _ => hfail fd _).pre fun k hk => hk.1.1
  | ok s =>
    dsimp only
    split
    · exact (Ready.then call_quiet fun _ => hfail fd _).pre fun k hk => hk.1.1
    · rename_i hvalid
      have hvalid : invalidSize h s = false := by simpa using hvalid
      rw [mod_sizeMod hvalid]
      refine (mmap_then id holder hvalid (fun e => Ready.then call_quiet fun _ => hfail fd _)
        fun a => ?_).pre fun k hk => ⟨hk.1, hk.2 s rfl hvalid⟩
      -- what is left to do keeps the new handle
      have hst : (view h b t).Stable fun k => Ready h b t
          (⟨⟨id, a, s, bitField 0, bitField 1⟩, n, 0⟩ :: hs) n c k ∧
          Attached h b t ⟨⟨id, a, s, bitField 0, bitField 1⟩, n, 0⟩ i k :=
        fun k k' hr hk => ⟨hk.1.rely hr, hk.2.rely hk.1.1.alive hr⟩
      have hq : QuietKept t fun k => Ready h b t
          (⟨⟨id, a, s, bitField 0, bitField 1⟩, n, 0⟩ :: hs) n c k ∧
          Attached h b t ⟨⟨id, a, s, bitField 0, bitField 1⟩, n, 0⟩ i k :=
        fun k k' hq hk => ⟨hk.1.quiet hq, hk.2.quiet hq⟩
      refine (triple_quiet (avClose_quiet fd) hst hq fun k hk => hk.1.inv).bind fun r => ?_
      refine (triple_quiet (avAssert_quiet ..) hst hq fun k hk => hk.1.inv).bind fun _ => ?_
      exact Env.Triple.ret hst fun k hk => .inl ⟨rfl, i, hk⟩

end Attach

/-! ## av_shm_free -/

/-- Two handles on segments of their own carry different names. -/
theorem Kernel.Own.name_ne {k : Kernel} {hd x : Handle} (ho : Own h b t (hd :: hs) n c k)
    (hb : b = true) (hx : x ∈ hs) (hc : hd.Created) (hcx : x.Created) :
    entryName x.m.id ≠ entryName hd.m.id := by
  intro hname
  obtain ⟨i, hi⟩ := ho.handles hd List.mem_cons_self
  obtain ⟨j, hj⟩ := ho.handles x (List.mem_cons_of_mem _ hx)
  obtain ⟨mk, hmk, -, hcall, hn, -, -, hl⟩ := hi.created hc
  obtain ⟨mk', hmk', -, hcall', hn', -, -, hl'⟩ := hj.created hcx
  -- one name leads to one object
  have hij : i = j := by
    have hl := hl hb
    have hl' := hl' hb
    rw [hn', hname, ← hn, hl] at hl'
    exact Option.some.inj hl'
  subst hij
  rw [hmk] at hmk'
  cases hmk'
  exact ((List.pairwise_cons.1 ho.distinct).1 x hx).2 (hcall.symm.trans hcall')

/-- What the owner of an unmapped handle still knows of its name. -/
def Kernel.Named (b : Bool) (t : Nat) (hd : Handle) (k : Kernel) : Prop :=
  b = true → hd.Created → ∃ i mk, (k.inodes i).made = some mk ∧ mk.owner = t ∧
    mk.call = hd.call ∧ mk.name = entryName hd.m.id ∧ k.dir.lookup mk.name = some i

/-- A free gives one handle back. -/
theorem avShmFree_triple {hd : Handle} (hcur : hd.Created → c = some (.free hd)) :
    (view h b t).Triple (Ready h b t (hd :: hs) n c) (avShmFree h hd.m) fun _ =>
      Ready h b t hs n c := by
  refine Ready.then (avAssert_quiet ..) fun _ => Ready.then (avAssert_quiet ..) fun _ =>
    Ready.then (avAssert_quiet ..) fun _ => ?_
  dsimp only
  refine Env.Triple.assume (φ := hd.m.shared ≠ 0 ∧ invalidSize h hd.m.size = false)
    (fun k hk => ?_) fun hφ => ?_
  · obtain ⟨i, hi⟩ := hk.1.handles hd List.mem_cons_self
    exact ⟨hi.shared, hi.size⟩
  obtain ⟨hshared, hsize⟩ := hφ
  obtain ⟨-, hlen, hround⟩ := mapLen_attached hsize
  rw [if_neg hshared]
  -- afterwards the mapping is gone, or leaked where the call failed
  have hstable : (view h b t).Stable fun k => Ready h b t hs n c k ∧ Named b t hd k ∧
      (b = true → hd.Created → ∀ x ∈ hs, x.Created →
        entryName x.m.id ≠ entryName hd.m.id) := by
    rintro k k' hr ⟨hk, hname, hne⟩
    refine ⟨hk.rely hr, fun hb hc => ?_, hne⟩
    obtain ⟨i, mk, hmk, howner, hcall, hn, hl⟩ := hname hb hc
    exact ⟨i, mk, hr.kept i mk hmk, howner, hcall, hn,
      hr.bound hb hk.1.alive i mk hmk howner hl⟩
  have hquiet : QuietKept t fun k => Ready h b t hs n c k ∧ Named b t hd k ∧
      (b = true → hd.Created → ∀ x ∈ hs, x.Created →
        entryName x.m.id ≠ entryName hd.m.id) := by
    rintro k k' hq ⟨hk, hname, hne⟩
    refine ⟨hk.quiet hq, ?_, hne⟩
    obtain ⟨fds, mem, w, rfl⟩ := hq
    exact hname
  refine triple_op (M := fun _ k => Ready h b t hs n c k ∧ Named b t hd k ∧
      (b = true → hd.Created → ∀ x ∈ hs, x.Created → entryName x.m.id ≠ entryName hd.m.id))
    Ready.stable (fun ch k r k' hk _ he => ?_) fun r => ?_
  · -- both are read off the handle before its mapping goes
    have hname : Named b t hd k := by
      intro hb hc
      obtain ⟨i, hi⟩ := hk.1.handles hd List.mem_cons_self
      obtain ⟨mk, hmk, howner, hcall, hn, -, -, hl⟩ := hi.created hc
      exact ⟨i, mk, hmk, howner, hcall, hn, hl hb⟩
    have hne : b = true → hd.Created → ∀ x ∈ hs, x.Created →
        entryName x.m.id ≠ entryName hd.m.id := fun hb hc x hx hcx => hk.1.name_ne hb hx hc hcx
    rcases munmapCall_cases he with ⟨e, -, rfl, -⟩ | ⟨-, -, -, rfl⟩
    · exact ⟨.same hk.inv trivial, ⟨hk.1.drop, hk.2⟩, hname, hne⟩
    · rw [hround]
      exact ⟨.setProc hk.inv rfl (fun ha => ha) trivial, ⟨hk.1.unmap hlen, hk.2.setProc rfl⟩,
        hname, hne⟩
  refine (triple_quiet (logIfError_quiet ..) hstable hquiet fun k hk => hk.1.inv).bind fun _ => ?_
  split
  · rename_i hc
    refine triple_op (M := fun _ => Ready h b t hs n c) hstable (fun ch k r k' hk _ he => ?_)
      fun r => Ready.then (logIfError_quiet ..) fun _ => Env.Triple.ret Ready.stable fun _ hk => hk
    obtain ⟨hk, hname, hne⟩ := hk
    rcases shmUnlink_cases he with ⟨e, -, rfl, -⟩ | ⟨nm, i, hfn, hl, -, -, rfl⟩
    · exact ⟨.same hk.inv trivial, hk⟩
    · rw [segmentName_eq (by decide)] at hfn
      cases hfn
      -- the name still leads to the own segment, so its removal is the owner's
      refine ⟨.erase hk.inv trivial fun hb j mk hj hmk => .inl ?_, hk.1.erase fun hb x hx hcx =>
        .inl (hne hb hc x hx hcx), hk.2⟩
      obtain ⟨i', mk', hmk', howner, hcall, hn, hl'⟩ := hname hb hc
      rw [hn, hj] at hl'
      cases hl'
      rw [hmk] at hmk'
      cases hmk'
      exact ⟨howner, .inl ⟨hd, by rw [hk.1.cur, hcur hc], hcall.symm, rfl⟩⟩
  · exact (Env.Triple.ret hstable fun _ hk => hk.1)

/-! ## av_shm_cleanup -/

namespace Kernel

variable {k k' : Kernel}

/-- The marker of an attached segment has been read. -/
structure Marked (h : Host) (b : Bool) (t : Nat) (hs : List Handle) (n : Nat)
    (c : Option ShmCall) (hd : Handle) (i : Nat) (k : Kernel) : Prop where
  own : Own h b t (hd :: hs) n c k
  attached : Attached h b t hd i k
  load : (k.procs t).lastLoad = some ⟨i, markerOff h hd.m.size, shmMarker⟩
  marked : ∀ mk, (k.inodes i).made = some mk → mk.Marked h (k.inodes i)

theorem Marked.rely {hd : Handle} {i : Nat} (hm : Marked h b t hs n c hd i k)
    (hr : Rely h b t k k') : Marked h b t hs n c hd i k' where
  own := hm.own.rely hr
  attached := hm.attached.rely hm.own.alive hr
  load := by rw [hr.own]; exact hm.load
  marked := fun mk hmk => by
    rw [hr.made i hm.attached.at'.lt] at hmk
    exact hr.marked i mk hmk (hm.marked mk hmk)

/-- The pid read is that of the creator, if the object is a segment. -/
def PidOf (pid : UInt32) (i : Nat) (k : Kernel) : Prop :=
  ∀ mk, (k.inodes i).made = some mk → mk.owner < k.nprocs ∧ pid = (k.procs mk.owner).pid

theorem PidOf.rely {pid : UInt32} {i : Nat} (hp : PidOf pid i k) (hi : i < k.inos)
    (hr : Rely h b t k k') : PidOf pid i k' := by
  intro mk hmk
  rw [hr.made i hi] at hmk
  obtain ⟨howner, hpid⟩ := hp mk hmk
  exact ⟨Nat.lt_of_lt_of_le howner hr.nprocs, by rw [(hr.procs _ howner).1]; exact hpid⟩

/-- The object a process opened last is not the segment of anybody alive. -/
structure Judged (t i : Nat) (k : Kernel) : Prop where
  opened : (k.procs t).opened = some i
  lt : i < k.inos
  dead : ∀ mk, (k.inodes i).made = some mk →
    mk.owner < k.nprocs ∧ (k.procs mk.owner).alive = false

theorem Judged.rely {i : Nat} (hj : Judged t i k) (hr : Rely h b t k k') : Judged t i k' where
  opened := by rw [hr.own]; exact hj.opened
  lt := Nat.lt_of_lt_of_le hj.lt hr.inos
  dead := fun mk hmk => by
    rw [hr.made i hj.lt] at hmk
    obtain ⟨howner, hdead⟩ := hj.dead mk hmk
    refine ⟨Nat.lt_of_lt_of_le howner hr.nprocs, ?_⟩
    cases ha : (k'.procs mk.owner).alive with
    | false => rfl
    | true => rw [(hr.procs _ howner).2 ha] at hdead; cases hdead

/-- A judgement outlives the steps of a free. -/
theorem Judged.free {ch : Choice} {i : Nat} {o : Sys} {r : o.Resp} (hj : Judged t i k)
    (ho : FreeOp o) (he : exec h ch t o k = some (r, k')) : Judged t i k' := by
  have hset : ∀ p : Proc, p.opened = (k.procs t).opened → p.alive = (k.procs t).alive →
      Judged t i (k.setProc t p) := by
    intro p hopened halive
    refine ⟨by rw [setProc_self, hopened]; exact hj.opened, hj.lt, fun mk hmk => ?_⟩
    obtain ⟨howner, hdead⟩ := hj.dead mk hmk
    refine ⟨howner, ?_⟩
    by_cases hmt : mk.owner = t
    · rw [hmt, setProc_self, halive, ← hmt]; exact hdead
    · rw [setProc_ne _ _ _ hmt]; exact hdead
  cases o with
  | log l f a => cases he; exact hj
  | abort => exact r.elim
  | munmap addr len =>
    rcases munmapCall_cases he with ⟨e, -, rfl, -⟩ | ⟨-, -, -, rfl⟩
    · exact hj
    · exact hset _ rfl rfl
  | shmUnlink name =>
    rcases shmUnlink_cases he with ⟨e, -, rfl, -⟩ | ⟨nm, j, -, -, -, -, rfl⟩
    · exact hj
    · exact ⟨hj.opened, hj.lt, hj.dead⟩
  | _ => exact ho.elim

/-- Nobody alive has a pid that `kill` does not find. -/
theorem dead_of_exists {pid : UInt32} {s : Nat} (hs : s < k.nprocs)
    (hpid : pid = (k.procs s).pid) (hlt : pid.toNat < 2 ^ 31) (hex : k.exists? pid = false) :
    (k.procs s).alive = false := by
  rw [exists?, if_pos hlt, List.any_eq_false] at hex
  have := hex s (List.mem_range.2 hs)
  rw [← hpid] at this
  simpa using this

end Kernel

/-! ### The steps of one entry

`hd` is the segment a cleanup has attached, with room for a marker. -/

section Entry

variable {k k' : Kernel} {ch : Choice} {hd : Handle} {i : Nat}

/-- The marker of an attached segment lies at the end of what the reader saw, and
    inside the segment. -/
theorem Kernel.Attached.place {mk : Made} (hinv : Inv h k) (ha : Attached h b t hd i k)
    (hmk : (k.inodes i).made = some mk) : mk.place h = markerOff h hd.m.size ∧
      mk.place h + shmMarkerSize h ≤ (k.inodes i).len := by
  obtain ⟨hsize, hlen⟩ := ha.sized mk hmk
  have hok := Nat.sub_add_cancel (show shmMarkerSize h ≤ hd.m.size by
    rw [hsize]; exact markerSize_le_segSize (hinv.made i mk hmk).size)
  have hp : mk.place h = markerOff h hd.m.size := by rw [Made.place, hsize]
  exact ⟨hp, by rw [hp, hlen, markerOff, hok]⟩

/-- Loading the marker. -/
theorem load_marker {v : UInt32} (hmin : shmMarkerSize h ≤ hd.m.size)
    (hk : Ready h b t (hd :: hs) n c k) (ha : Attached h b t hd i k)
    (he : exec h ch t (.atomicLoad (hd.m.ptr + markerOff h hd.m.size)) k = some (v, k')) :
    Guar h b t (.atomicLoad (hd.m.ptr + markerOff h hd.m.size)) k v k' ∧
      (v ≠ shmMarker → Ready h b t (hd :: hs) n c k') ∧
      (v = shmMarker → Marked h b t hs n c hd i k') := by
  have hend : markerOff h hd.m.size + 8 = hd.m.size := by
    rw [← shmMarkerSize_eq h]; exact Nat.sub_add_cancel hmin
  have hcover := (mapLen_attached ha.at'.size).1
  obtain ⟨hv, rfl, m, hat, hino, hoff⟩ := load_handle hk.1 ha.at' (by omega) he
  have hown : Own h b t (hd :: hs) n c (k.setProc t { k.procs t with
      lastLoad := some ⟨i, markerOff h hd.m.size, v⟩ }) := by
    refine hk.1.setProc ?_ ?_ ?_ ?_ ?_
    exacts [rfl, hk.1.alive, rfl, hk.1.calls, hk.1.cur]
  -- the load goes to the marker of the segment, if it is one
  have hload : LoadOk h t (hd.m.ptr + markerOff h hd.m.size) k (k.setProc t { k.procs t with
      lastLoad := some ⟨i, markerOff h hd.m.size, v⟩ }) := by
    refine ⟨⟨m, _, hat, hino, hoff, by rw [setProc_self]⟩,
      fun j mk hsaw => absurd hsaw (hk.2.1 j mk), fun l mk hl hmk => ?_⟩
    rw [setProc_self] at hl
    cases hl
    obtain ⟨hp, hin⟩ := ha.place hk.inv hmk
    exact ⟨hin, .inl hp.symm⟩
  refine ⟨{ rely := fun _ hs => .setProc hs rfl id
            inv := hown.inv
            load := by rintro a ⟨⟩; exact hload
            store := nofun
            removal := fun _ _ _ _ hl _ hne => absurd hl hne }, fun hne => ⟨hown, ?_, ?_⟩, ?_⟩
  · rintro j mk ⟨hl, -⟩
    rw [setProc_self] at hl
    injection hl with hl
    exact hne (congrArg Load.val hl)
  · intro l hl
    rw [setProc_self] at hl
    cases hl
    exact ha.at'.lt
  · rintro rfl
    refine ⟨hown, ha.setProc rfl rfl, by rw [setProc_self], fun mk hmk => ?_⟩
    rw [Made.Marked, (ha.place hk.inv hmk).1]
    exact hv.symm

/-- Loading the pid after the marker. -/
theorem load_pid {pid : UInt32} (hmin : shmMarkerSize h ≤ hd.m.size)
    (hk : Marked h b t hs n c hd i k)
    (he : exec h ch t (.atomicLoad (hd.m.ptr + (markerOff h hd.m.size + shmMarkerPid))) k =
      some (pid, k')) :
    Guar h b t (.atomicLoad (hd.m.ptr + (markerOff h hd.m.size + shmMarkerPid))) k pid k' ∧
      (Ready h b t (hd :: hs) n c k' ∧ Attached h b t hd i k') ∧ PidOf pid i k' := by
  have hend : markerOff h hd.m.size + 8 = hd.m.size := by
    rw [← shmMarkerSize_eq h]; exact Nat.sub_add_cancel hmin
  have hcover := (mapLen_attached hk.attached.at'.size).1
  have ha := hk.attached
  obtain ⟨hv, rfl, m, hat, hino, hoff⟩ :=
    load_handle hk.own ha.at' (by rw [shmMarkerPid_eq]; omega) he
  have hown : Own h b t (hd :: hs) n c (k.setProc t { k.procs t with
      lastLoad := some ⟨i, markerOff h hd.m.size + shmMarkerPid, pid⟩ }) := by
    refine hk.own.setProc ?_ ?_ ?_ ?_ ?_
    exacts [rfl, hk.own.alive, rfl, hk.own.calls, hk.own.cur]
  -- a marked segment holds the pid of its creator
  have hpid : PidOf pid i k := by
    intro mk hmk
    have hok := hk.own.inv.made i mk hmk
    rw [hv, ← (ha.place hk.own.inv hmk).1]
    exact ⟨hok.owner, (hok.marked (hk.marked mk hmk)).2⟩
  have hload : LoadOk h t (hd.m.ptr + (markerOff h hd.m.size + shmMarkerPid)) k
      (k.setProc t { k.procs t with
        lastLoad := some ⟨i, markerOff h hd.m.size + shmMarkerPid, pid⟩ }) := by
    refine ⟨⟨m, _, hat, hino, hoff, by rw [setProc_self]⟩, ?_, ?_⟩
    · rintro j mk ⟨hl, hmk⟩
      -- what was read before is the marker of this very object
      rw [hk.load] at hl
      injection hl with hl
      injection hl with hj
      subst hj
      rw [setProc_self, (ha.place hk.own.inv hmk).1, ← (hpid mk hmk).2]
    · intro l mk hl hmk
      rw [setProc_self] at hl
      cases hl
      obtain ⟨hp, hin⟩ := ha.place hk.own.inv hmk
      exact ⟨hin, .inr ⟨by rw [hp], by rw [hk.load, hp], hmk⟩⟩
  refine ⟨{ rely := fun _ hs => .setProc hs rfl id
            inv := hown.inv
            load := by rintro a ⟨⟩; exact hload
            store := nofun
            removal := fun _ _ _ _ hl _ hne => absurd hl hne },
    ⟨⟨hown, ?_, ?_⟩, ha.setProc rfl rfl⟩, fun mk hmk => ?_⟩
  · -- the word just read is not at the place of a marker
    rintro j mk ⟨hl, hmk⟩
    rw [setProc_self] at hl
    injection hl with hl
    injection hl with hj hoff
    subst hj
    have hp := (ha.place hk.own.inv hmk).1
    rw [shmMarkerPid_eq] at hoff
    omega
  · intro l hl
    rw [setProc_self] at hl
    cases hl
    exact ha.at'.lt
  · obtain ⟨howner, hpid⟩ := hpid mk hmk
    refine ⟨howner, ?_⟩
    by_cases hmt : mk.owner = t
    · rw [hmt, setProc_self, hpid, hmt]
    · rw [setProc_ne _ _ _ hmt]
      exact hpid

/-- Asking whether the owner lives. -/
theorem kill_owner {pid : UInt32} {r : Except Errno Unit} (hk : Ready h b t (hd :: hs) n c k)
    (ha : Attached h b t hd i k) (hp : PidOf pid i k)
    (he : exec h ch t (.kill pid) k = some (r, k')) :
    Guar h b t (.kill pid) k r k' ∧
      Ready h b t (hd :: hs) n c k' ∧ (r = .error .ESRCH → Judged t i k') := by
  obtain ⟨rfl, hesrch, -⟩ := kill_cases he
  refine ⟨.same hk.inv trivial, hk, fun hr => ⟨ha.opened, ha.at'.lt, fun mk hmk => ?_⟩⟩
  obtain ⟨howner, hpid⟩ := hp mk hmk
  -- as a pid_t it is positive, so kill asks for one process
  have hlt : pid.toNat < 2 ^ 31 := hpid ▸ (hk.inv.pids _ howner).2
  exact ⟨howner, dead_of_exists howner hpid hlt (hesrch.1 hr)⟩

/-- Removing the name of a segment whose owner was found dead. -/
theorem unlink_stale {id : UInt32} {r : Except Errno Unit} (hk : Ready h b t hs n c k)
    (hj : Judged t i k) (hcur : ∀ hd, c ≠ some (.free hd))
    (hpol : b = true → UnlinksOpened t (.shmUnlink ('/' :: entryName id)) k)
    (he : exec h ch t (.shmUnlink ('/' :: entryName id)) k = some (r, k')) :
    Guar h b t (.shmUnlink ('/' :: entryName id)) k r k' ∧ Ready h b t hs n c k' := by
  rcases shmUnlink_cases he with ⟨e, -, rfl, -⟩ | ⟨nm, j, hfn, hl, -, -, rfl⟩
  · exact ⟨.same hk.inv trivial, hk⟩
  cases hfn
  -- the name leads to the object that was attached, unless it was bound again
  have hsame : b = true → j = i := by
    intro hb
    have := hpol hb (entryName id) rfl (by rw [hk.1.cur]; exact hcur) j hl
    rw [hj.opened] at this
    exact (Option.some.inj this).symm
  have hdead : b = true → ∀ mk, (k.inodes j).made = some mk →
      (k.procs mk.owner).alive = false := by
    intro hb mk hmk
    rw [hsame hb] at hmk
    exact (hj.dead mk hmk).2
  refine ⟨.erase hk.inv trivial fun hb j' mk hl' hmk => .inr ?_,
    hk.1.erase fun hb x hx hcx => .inl fun hname => ?_, hk.2⟩
  · rw [hl] at hl'
    cases hl'
    exact hdead hb mk hmk
  · -- a segment of the own process has an owner who is alive
    obtain ⟨i', hi'⟩ := hk.1.handles x hx
    obtain ⟨mk, hmk, howner, -, hn, -, -, hl'⟩ := hi'.created hcx
    have hl' := hl' hb
    rw [hn, hname, hl] at hl'
    cases hl'
    have := hdead hb mk hmk
    rw [howner, hk.1.alive] at this
    cases this

end Entry

/-- The end of an entry whose owner was found dead: free, then unlink. -/
theorem avShmCleanupRemove_triple {hd : Handle} {i : Nat} (hnc : ¬ hd.Created)
    (hcur : ∀ hd, c ≠ some (.free hd)) (id : UInt32) :
    (view h b t).Triple (fun k => Ready h b t (hd :: hs) n c k ∧ Judged t i k)
      (avShmCleanupRemove h id hd.m) fun _ => Ready h b t hs n c := by
  have hfree : (view h b t).Triple (Ready h b t (hd :: hs) n c) (avShmFree h hd.m) fun _ =>
      Ready h b t hs n c := avShmFree_triple fun hc => absurd hc hnc
  refine (hfree.frame (avShmFree_only h hd.m) (fun k k' hr hj => Judged.rely hj hr)
    fun o k r k' ho hj ⟨ch, _, he⟩ => Judged.free hj ho he).bind fun _ => ?_
  rw [segmentName_eq (by decide)]
  refine triple_op (M := fun _ => Ready h b t hs n c)
    (fun k k' hr hk => ⟨hk.1.rely hr, hk.2.rely hr⟩)
    (fun ch k r k' hk hpol he => unlink_stale hk.1 hk.2 hcur hpol he) fun r => ?_
  have hdone : (view h b t).Triple (Ready h b t hs n c) (pure ()) fun _ => Ready h b t hs n c :=
    Env.Triple.ret Ready.stable fun _ hk => hk
  cases r with
  | ok _ => exact hdone
  | error e =>
    dsimp only
    split
    · exact Ready.triple call_quiet
    · exact hdone

/-- What follows an attach in a cleanup gives the handle back. -/
theorem avShmCleanupSeg_triple (hd : Handle) (i : Nat) (hcur : ∀ hd, c ≠ some (.free hd))
    (id : UInt32) : (view h b t).Triple
      (fun k => Ready h b t (hd :: hs) n c k ∧ Attached h b t hd i k)
      (avShmCleanupSeg h id hd.m) fun _ => Ready h b t hs n c := by
  refine Env.Triple.assume (φ := ¬ hd.Created) (fun k hk => hk.2.readonly) fun hnc => ?_
  have hdone : (view h b t).Triple (Ready h b t hs n c) (pure ()) fun _ => Ready h b t hs n c :=
    Env.Triple.ret Ready.stable fun _ hk => hk
  have hfree : (view h b t).Triple (Ready h b t (hd :: hs) n c) (avShmFree h hd.m) fun _ =>
      Ready h b t hs n c := avShmFree_triple fun hc => absurd hc hnc
  have hback := hfree.bind fun _ => hdone
  unfold avShmCleanupSeg
  split
  · exact hback.pre fun k hk => hk.1
  rename_i hmin
  have hmin : shmMarkerSize h ≤ hd.m.size := Nat.le_of_not_lt hmin
  rw [markerAddr_eq hmin, Nat.add_assoc]
  -- the marker comes first: it says that the pid behind it is there
  refine triple_op (o := .atomicLoad _) (M := fun v k =>
      (v ≠ shmMarker → Ready h b t (hd :: hs) n c k) ∧
        (v = shmMarker → Marked h b t hs n c hd i k))
    (fun k k' hr hk => ⟨hk.1.rely hr, hk.2.rely hk.1.1.alive hr⟩)
    (fun ch k v k' hk _ he => load_marker hmin hk.1 hk.2 he) fun marker => ?_
  split
  · rename_i hne
    exact hback.pre fun k hk => hk.1 hne
  rename_i heq
  refine Env.Triple.pre (?_ : (view h b t).Triple (Marked h b t hs n c hd i) _ _)
    fun k hk => hk.2 (not_not.1 heq)
  refine triple_op (o := .atomicLoad _) (M := fun pid k =>
      (Ready h b t (hd :: hs) n c k ∧ Attached h b t hd i k) ∧ PidOf pid i k)
    (fun k k' hr hk => hk.rely hr) (fun ch k v k' hk _ he => load_pid hmin hk he) fun pid => ?_
  split
  · exact hback.pre fun k hk => hk.1.1
  refine triple_op (o := .kill pid) (M := fun r k =>
      Ready h b t (hd :: hs) n c k ∧ (r = .error .ESRCH → Judged t i k))
    (fun k k' hr hk => ⟨⟨hk.1.1.rely hr, hk.1.2.rely hk.1.1.1.alive hr⟩,
      hk.2.rely hk.1.2.at'.lt hr⟩)
    (fun ch k r k' hk _ he => kill_owner hk.1.1 hk.1.2 hk.2 he) fun r => ?_
  split
  · exact hback.pre fun k hk => hk.1
  · rename_i hesrch
    push Not at hesrch
    exact (avShmCleanupRemove_triple hnc hcur id).pre fun k hk => ⟨hk.1, hk.2 hesrch.2⟩

/-- One entry of a cleanup leaves everything as it was, except for the name. -/
theorem avShmCleanupEntry_triple (holder : ∀ x ∈ hs, x.call < n)
    (hcur : ∀ hd, c ≠ some (.free hd)) (name : CStr) :
    (view h b t).Triple (Ready h b t hs n c) (avShmCleanupEntry h name) fun _ =>
      Ready h b t hs n c := by
  have hdone : (view h b t).Triple (Ready h b t hs n c) (pure ()) fun _ => Ready h b t hs n c :=
    Env.Triple.ret Ready.stable fun _ hk => hk
  unfold avShmCleanupEntry
  cases entryId h name with
  | none => exact hdone
  | some id =>
    refine (avShmAttachRo_triple holder {} id).bind fun r => ?_
    obtain ⟨r, seg⟩ := r
    dsimp only
    split
    · rename_i hr
      refine hdone.pre fun k hk => ?_
      rcases hk with ⟨rfl, -⟩ | ⟨-, hk⟩
      · exact absurd hr (by decide)
      · exact hk
    · rename_i hr
      refine Env.Triple.pre (Env.Triple.exists fun i =>
        avShmCleanupSeg_triple ⟨seg, n, 0⟩ i hcur id) fun k hk => ?_
      rcases hk with ⟨-, i, hk⟩ | ⟨rfl, -⟩
      · exact ⟨i, hk⟩
      · exact absurd (by decide) hr

/-- A cleanup leaves everything as it was, except for names. -/
theorem avShmCleanup_triple (holder : ∀ x ∈ hs, x.call < n)
    (hcur : ∀ hd, c ≠ some (.free hd)) :
    (view h b t).Triple (Ready h b t hs n c) (avShmCleanup h) fun _ => Ready h b t hs n c := by
  refine Ready.then call_quiet fun d => ?_
  cases d with
  | error e => exact Ready.then call_quiet fun _ => Env.Triple.ret Ready.stable fun _ hk => hk
  | ok d =>
    refine Env.Triple.bind (M := fun _ => Ready h b t hs n c)
      (Env.Triple.iter (I := fun _ => Ready h b t hs n c) (fun _ => ?_) (fun _ => Ready.stable) ())
      fun _ => Ready.then call_quiet fun _ => Env.Triple.ret Ready.stable fun _ hk => hk
    refine Ready.then call_quiet fun name => ?_
    cases name with
    | none => exact Env.Triple.ret Ready.stable fun _ hk => hk
    | some name =>
      exact (avShmCleanupEntry_triple holder hcur name).bind fun _ =>
        Env.Triple.ret Ready.stable fun _ hk => hk

/-! ## av_shm_create_rw

`mk` is the record of the segment under construction, `i` its object. -/

section Create

variable {k k' : Kernel} {ch : Choice} {mk : Made} {i : Nat} {hd : Handle}

/-- The name of a new segment is not that of an older one. -/
theorem Kernel.Own.fresh_name {len : Nat} (holder : ∀ x ∈ hs, x.call < n)
    (ho : Own h b t hs n c k) (hf : Fresh b t i mk len k) (hcall : mk.call = n) (hb : b = true) :
    ∀ x ∈ hs, x.Created → entryName x.m.id ≠ mk.name := by
  intro x hx hcx hname
  obtain ⟨j, hj⟩ := ho.handles x hx
  obtain ⟨mk', hmk', -, hcall', hn', -, -, hl'⟩ := hj.created hcx
  have hl' := hl' hb
  rw [hn', hname, hf.bound hb] at hl'
  cases hl'
  rw [hf.made] at hmk'
  cases hmk'
  have := holder x hx
  omega

/-- Process `t` has made segment `i`, of length `len` so far, and has no handle on it. -/
structure Kernel.Half (h : Host) (b : Bool) (t : Nat) (hs : List Handle) (n : Nat)
    (c : Option ShmCall) (i : Nat) (mk : Made) (len : Nat) (k : Kernel) : Prop where
  ready : Ready h b t hs n c k
  fresh : Fresh b t i mk len k

theorem Kernel.Half.rely {len : Nat} (hk : Half h b t hs n c i mk len k) (hr : Rely h b t k k') :
    Half h b t hs n c i mk len k' := ⟨hk.ready.rely hr, hk.fresh.rely hk.ready.1.alive hr⟩

theorem Kernel.Half.quiet {len : Nat} (hk : Half h b t hs n c i mk len k) (hq : Quiet t k k') :
    Half h b t hs n c i mk len k' := by
  refine ⟨hk.ready.quiet hq, ?_⟩
  obtain ⟨fds, mem, w, rfl⟩ := hq
  exact hk.fresh.setProc rfl

/-- A quiet program, then the rest. -/
theorem Kernel.Half.then {α β : Type} {len : Nat} {p : C α} {f : α → C β}
    {Q : β → Kernel → Prop} (hp : p.Only QuietOp)
    (hf : ∀ a, (view h b t).Triple (Half h b t hs n c i mk len) (f a) Q) :
    (view h b t).Triple (Half h b t hs n c i mk len) (p >>= f) Q :=
  (triple_quiet hp (fun _ _ hr hk => hk.rely hr) (fun _ _ hq hk => hk.quiet hq)
    fun _ hk => hk.ready.inv).bind hf

/-- Taking back the name of a segment that could not be completed. -/
theorem unlink_half {id : UInt32} {len : Nat} {r : Except Errno Unit}
    (holder : ∀ x ∈ hs, x.call < n) (hk : Half h b t hs n c i mk len k)
    (hcall : mk.call = n) (hname : mk.name = entryName id)
    (hcur : ∃ idp m size shared mode, c = some (.create idp m size shared mode))
    (he : exec h ch t (.shmUnlink ('/' :: entryName id)) k = some (r, k')) :
    Guar h b t (.shmUnlink ('/' :: entryName id)) k r k' ∧ Ready h b t hs n c k' := by
  obtain ⟨hk, hf⟩ := hk
  rcases shmUnlink_cases he with ⟨e, -, rfl, -⟩ | ⟨nm, j, hfn, hl, -, -, rfl⟩
  · exact ⟨.same hk.inv trivial, hk⟩
  cases hfn
  refine ⟨.erase hk.inv trivial fun hb j' mk' hl' hmk' => .inl ?_,
    hk.1.erase fun hb x hx hcx => .inl ?_, hk.2⟩
  · rw [← hname, hf.bound hb] at hl'
    cases hl'
    rw [hf.made] at hmk'
    cases hmk'
    refine ⟨hf.owner, .inr ⟨by rw [hk.1.calls, hcall], ?_⟩⟩
    rw [hk.1.cur]
    exact hcur
  · rw [← hname]
    exact hk.1.fresh_name holder hf hcall hb x hx hcx

/-- Giving a new segment its length. -/
theorem truncate_half {fd : Int} {r : Except Errno Unit} (hk : Half h b t hs n c i mk 0 k)
    (hfile : (k.procs t).file fd = some (.shm i true))
    (he : exec h ch t (.ftruncate fd (segSize h mk.size)) k = some (r, k')) :
    Guar h b t (.ftruncate fd (segSize h mk.size)) k r k' ∧
      Half h b t hs n c i mk (if r.isOk then segSize h mk.size else 0) k' ∧
      (k'.procs t).file fd = some (.shm i true) := by
  obtain ⟨hk, hf⟩ := hk
  rcases ftruncate_cases he with ⟨e, rfl, rfl⟩ | ⟨j, hfile', rfl, rfl⟩
  · exact ⟨.same hk.inv trivial, ⟨hk, hf⟩, hfile⟩
  rw [hfile] at hfile'
  cases hfile'
  have hsize := (hk.inv.made i mk hf.made).size
  -- nothing of an empty file is kept
  have hzero : (fun j => if j < (k.inodes i).len ∧ j < segSize h mk.size then (k.inodes i).data j
      else 0) = fun _ => 0 := by
    funext j
    rw [hf.len]
    simp
  rw [hzero]
  have hx : OwnChange h t k i mk
      { k.inodes i with len := segSize h mk.size, data := fun _ => 0 } := by
    -- neither before nor after is there a marker
    refine ⟨hf.made, hf.owner, hf.made, rfl, fun hl => absurd hf.len hl, .inr rfl, fun hm => ?_,
      fun hm => ?_⟩
    · have := ((hk.inv.made i mk hf.made).marked hm).1
      have := segSize_pos hsize
      have := hf.len
      omega
    · rw [Made.Marked, load32_zero] at hm
      exact absurd hm (by decide)
  exact ⟨hx.guar hk.inv (fun _ h => by cases h) (fun _ _ h => by cases h),
    ⟨⟨hx.own hk.1, hx.calm hk.2⟩, hx.fresh hf⟩, hfile⟩

/-- A mapped segment of the length its creator wants. -/
structure Kernel.Building (h : Host) (b : Bool) (t : Nat) (hs : List Handle) (n : Nat)
    (c : Option ShmCall) (hd : Handle) (i : Nat) (mk : Made) (k : Kernel) : Prop where
  ready : Ready h b t (hd :: hs) n c k
  at' : HandleAt h b t hd i k
  fresh : Fresh b t i mk (segSize h mk.size) k
  size : hd.m.size = segSize h mk.size

theorem Kernel.Building.rely (hk : Building h b t hs n c hd i mk k) (hr : Rely h b t k k') :
    Building h b t hs n c hd i mk k' :=
  ⟨hk.ready.rely hr, hk.at'.rely hk.ready.1.alive hr, hk.fresh.rely hk.ready.1.alive hr,
    hk.size⟩

theorem Kernel.Building.sizeOk (hk : Building h b t hs n c hd i mk k) : SizeOk h mk.size :=
  (hk.ready.inv.made i mk hk.fresh.made).size

/-- Mapping a segment of its full length: one more handle, on a segment that is not marked yet. -/
theorem map_half {fd : Int} {id : UInt32} {shared : Int} {r : Except Errno Nat}
    (holder : ∀ x ∈ hs, x.call < n) (hcall : mk.call = n) (hname : mk.name = entryName id)
    (hshared : bitField shared ≠ 0) (hk : Half h b t hs n c i mk (segSize h mk.size) k)
    (hfile : (k.procs t).file fd = some (.shm i true))
    (he : exec h ch t (.mmap (avPageAlign h (segSize h mk.size)) true (some (fd, 0))) k =
      some (r, k')) :
    Guar h b t (.mmap (avPageAlign h (segSize h mk.size)) true (some (fd, 0))) k r k' ∧
      onResult (fun _ k => Half h b t hs n c i mk (segSize h mk.size) k)
        (fun a k => Building h b t hs n c
          ⟨⟨id, a, segSize h mk.size, bitField 1, bitField shared⟩, n,
            userSize h mk.size⟩ i mk k) r k' := by
  obtain ⟨hk, hf⟩ := hk
  have hmade := hk.inv.made i mk hf.made
  have hvalid := invalidSize_segSize hmade.size
  obtain ⟨-, hlen, hround⟩ := mapLen_attached hvalid
  rcases mmapCall_cases he with ⟨e, rfl, rfl, -⟩ |
    ⟨a, ino, off, rfl, -, -, -, hnew, rfl, ⟨hnone, -⟩ | ⟨fd', i', w, hfd, rfl, hfile'⟩⟩
  · exact ⟨.same hk.inv trivial, hk, hf⟩
  · cases hnone
  · cases hfd
    rw [hfile] at hfile'
    cases hfile'
    rw [hround] at hnew ⊢
    have hcr : Handle.Created
        ⟨⟨id, a, segSize h mk.size, bitField 1, bitField shared⟩, n,
          userSize h mk.size⟩ := by
      simp [Handle.Created, bitField]
    obtain ⟨hown, hat⟩ := Own.map
      ⟨⟨id, a, segSize h mk.size, bitField 1, bitField shared⟩, n, userSize h mk.size⟩
      hk.1 rfl hlen hnew hmade.lt hshared hvalid (fun hn => absurd hcr hn)
      (fun _ => ⟨mk, hf.made, hf.owner, hcall, hname, rfl, rfl, hf.bound⟩)
      (fun x hx => (holder x hx).ne) hk.pos
    rw [decide_eq_true hcr] at hown hat
    exact ⟨.setProc hk.inv rfl (fun ha => ha) trivial, ⟨hown, hk.2.setProc rfl⟩, hat,
      hf.setProc rfl, rfl⟩

/-- A store into the own marker. -/
theorem store_building {o : Nat} {v : UInt32} {r : Unit} (hk : Building h b t hs n c hd i mk k)
    (ho : o < segSize h mk.size) (hcall : mk.call = n)
    (hword : (o = mk.place h + shmMarkerPid ∧ v = (k.procs t).pid) ∨
      (o = mk.place h ∧ v = shmMarker))
    (hmarked : mk.Marked h { k.inodes i with data := store32 (k.inodes i).data o v } →
      load32 (store32 (k.inodes i).data o v) (mk.place h + shmMarkerPid) = (k.procs t).pid)
    (hstays : mk.Marked h (k.inodes i) →
      mk.Marked h { k.inodes i with data := store32 (k.inodes i).data o v })
    (he : exec h ch t (.atomicStore (hd.m.ptr + o) v) k = some (r, k')) :
    Guar h b t (.atomicStore (hd.m.ptr + o) v) k r k' ∧ Building h b t hs n c hd i mk k' ∧
      (k'.procs t).pid = (k.procs t).pid ∧
      (k'.inodes i).data = store32 (k.inodes i).data o v := by
  have hcover := (mapLen_attached hk.at'.size).1
  have hsize := hk.size
  have hin : o < avPageAlign h hd.m.size := by omega
  have hstore : StoreOk h t (hd.m.ptr + o) v k := by
    refine ⟨_, i, mk, Proc.mapAt_eq hk.ready.1.disjoint hk.at'.map
      ⟨Nat.le_add_right .., Nat.add_lt_add_left hin _⟩, rfl, hk.fresh.made, hk.fresh.owner,
      by rw [hk.ready.1.calls, hcall], ?_⟩
    rw [Nat.add_sub_cancel_left]
    exact hword
  obtain rfl := store_handle hk.ready.1 hk.at' hin he
  have hx : OwnChange h t k i mk
      { k.inodes i with data := store32 (k.inodes i).data o v } :=
    ⟨hk.fresh.made, hk.fresh.owner, hk.fresh.made, rfl, fun _ => rfl, .inr hk.fresh.len, hstays,
      fun hm => ⟨hk.fresh.len, by rw [hk.fresh.owner]; exact hmarked hm⟩⟩
  have hfresh : Fresh b t i mk (segSize h mk.size) (k.setInode i
      { k.inodes i with data := store32 (k.inodes i).data o v }) :=
        hk.fresh.len ▸ hx.fresh hk.fresh
  refine ⟨hx.guar hk.ready.inv nofun ?_, ⟨⟨hx.own hk.ready.1, hx.calm hk.ready.2⟩, hx.handle hk.at',
    hfresh, hk.size⟩, rfl, by rw [setInode_self]⟩
  rintro a v ⟨⟩
  exact hstore

end Create

/-- The failure path of a create. -/
theorem avShmCreateFail_triple {i : Nat} {mk : Made} {len : Nat} {id : UInt32} {fd : Int}
    (holder : ∀ x ∈ hs, x.call < n) (hcall : mk.call = n) (hname : mk.name = entryName id)
    (hcur : ∃ idp m size shared mode, c = some (.create idp m size shared mode)) (m : AvShm) :
    (view h b t).Triple (Half h b t hs n c i mk len)
      (avShmCreateFail fd (segmentName 32 id) m) fun r k => r.1 = -1 ∧ Ready h b t hs n c k := by
  have hstable : (view h b t).Stable (Half h b t hs n c i mk len) := fun k k' hr hk => hk.rely hr
  unfold avShmCreateFail
  split
  · rw [segmentName_eq (by decide)]
    refine triple_op (M := fun _ => Ready h b t hs n c) hstable
      (fun ch k r k' hk _ he => unlink_half holder hk hcall hname hcur he) fun _ => ?_
    exact Ready.then (avClose_quiet fd) fun _ => Env.Triple.ret Ready.stable
      fun k hk => ⟨rfl, hk⟩
  · exact Env.Triple.ret hstable fun k hk => ⟨rfl, hk.1⟩

/-- The last steps of a create: the pid, the marker, and closing the descriptor. -/
theorem avShmCreateMark_triple (mk : Made) (m : AvShm) {i : Nat} {fd : Int} {shared : Int}
    {room : Nat} (hcall : mk.call = n) (hptr : m.size = segSize h mk.size) :
    (view h b t).Triple
      (Building h b t hs n c ⟨{ m with doUnlink := bitField 1, shared := bitField shared }, n, room⟩
        i mk)
      (avShmCreateMark h fd m shared) fun r k =>
        r.1 = 0 ∧ Ready h b t (⟨r.2, n, room⟩ :: hs) n c k := by
  refine Env.Triple.assume (φ := SizeOk h mk.size) (fun k hk => hk.sizeOk) fun hsize => ?_
  have hmin := markerSize_le_segSize hsize
  have hend : mk.place h + 8 = segSize h mk.size := by
    rw [← shmMarkerSize_eq h]; exact place_add hsize
  obtain ⟨id, ptr, s, doUnlink, old⟩ := m
  obtain rfl : s = segSize h mk.size := hptr
  unfold avShmCreateMark
  rw [markerAddr_eq hmin, ← Made.place, Nat.add_assoc]
  refine triple_op (o := .getpid) (M := fun pid k => Building h b t hs n c
      ⟨⟨id, ptr, segSize h mk.size, bitField 1, bitField shared⟩, n, room⟩ i mk k ∧
      pid = (k.procs t).pid)
    (fun k k' hr hk => hk.rely hr) (fun ch k r k' hk _ he => ?_) fun pid => ?_
  · cases he
    exact ⟨.same hk.ready.inv trivial, hk, rfl⟩
  refine triple_op (o := .atomicStore _ _) (M := fun _ k => Building h b t hs n c
      ⟨⟨id, ptr, segSize h mk.size, bitField 1, bitField shared⟩, n, room⟩ i mk k ∧
      load32 (k.inodes i).data (mk.place h + shmMarkerPid) = (k.procs t).pid)
    (fun k k' hr hk => ⟨hk.1.rely hr, by rw [hr.own]; exact hk.2⟩)
    (fun ch k r k' hk _ he => ?_) fun _ => ?_
  · -- the marker itself is not touched
    have hword : load32 (store32 (k.inodes i).data (mk.place h + shmMarkerPid) pid) (mk.place h) =
        load32 (k.inodes i).data (mk.place h) := load32_store32_ne (.inl (by rw [shmMarkerPid_eq]))
    obtain ⟨hg, hb, hpid, hd⟩ := store_building hk.1 (by rw [shmMarkerPid_eq]; omega)
      hcall (.inl ⟨rfl, hk.2⟩)
        (fun _ => by rw [load32_store32]; exact hk.2) (fun hm => hword.trans hm) he
    exact ⟨hg, hb, by rw [hd, load32_store32, hpid]; exact hk.2⟩
  refine triple_op (o := .atomicStore _ _) (M := fun _ => Ready h b t
      (⟨⟨id, ptr, segSize h mk.size, bitField 1, bitField shared⟩, n, room⟩ :: hs) n c)
    (fun k k' hr hk => ⟨hk.1.rely hr, by
      rw [hr.own, hr.mine i mk hk.1.fresh.made hk.1.fresh.owner]; exact hk.2⟩)
    (fun ch k r k' hk _ he => ?_) fun _ => ?_
  · -- the pid that the marker promises is still there
    have hword : load32 (store32 (k.inodes i).data (mk.place h) shmMarker)
        (mk.place h + shmMarkerPid) = (k.procs t).pid :=
      (load32_store32_ne (.inr (by rw [shmMarkerPid_eq]))).trans hk.2
    obtain ⟨hg, hb, -, -⟩ :=
      store_building hk.1 (by omega) hcall (.inr ⟨rfl, rfl⟩) (fun _ => hword)
      (fun _ => load32_store32) he
    exact ⟨hg, hb.ready⟩
  exact Ready.then (avClose_quiet fd) fun _ => Ready.then (avAssert_quiet ..) fun _ =>
    Env.Triple.ret Ready.stable fun k hk => ⟨rfl, hk⟩

/-- A create whose file is open adds a handle or takes the name back. -/
theorem avShmCreateFile_triple {i : Nat} {mk : Made} {fd : Int} {m : AvShm} {shared : Int}
    {id : UInt32} (holder : ∀ x ∈ hs, x.call < n) (hcall : mk.call = n)
    (hname : mk.name = entryName id)
    (hcur : ∃ idp m size shared mode, c = some (.create idp m size shared mode))
    (hid : m.id = id) (hsize : m.size = segSize h mk.size) (hshared : bitField shared ≠ 0) :
    (view h b t).Triple
      (fun k => Half h b t hs n c i mk 0 k ∧ (k.procs t).file fd = some (.shm i true))
      (avShmCreateFile h fd (segmentName 32 id) m shared) fun r k =>
        (r.1 = 0 ∧ Ready h b t (⟨r.2, n, userSize h mk.size⟩ :: hs) n c k) ∨
        (r.1 = -1 ∧ Ready h b t hs n c k) := by
  have hfail : ∀ (len : Nat) (m : AvShm) (fmt : String) (args : List LogArg),
      (view h b t).Triple (Half h b t hs n c i mk len)
        (do call (.log .error fmt args); avShmCreateFail fd (segmentName 32 id) m) fun r k =>
        (r.1 = 0 ∧ Ready h b t (⟨r.2, n, userSize h mk.size⟩ :: hs) n c k) ∨
        (r.1 = -1 ∧ Ready h b t hs n c k) := fun len m fmt args =>
    Half.then call_quiet fun _ =>
      (avShmCreateFail_triple holder hcall hname hcur m).post fun _ _ => .inr
  obtain ⟨id', ptr, s, doUnlink, old⟩ := m
  obtain rfl : id' = id := hid
  obtain rfl : s = segSize h mk.size := hsize
  refine triple_op (o := .ftruncate fd (segSize h mk.size)) (M := fun r k =>
      Half h b t hs n c i mk (if r.isOk then segSize h mk.size else 0) k ∧
      (k.procs t).file fd = some (.shm i true))
    (fun k k' hr hk => ⟨hk.1.rely hr, by rw [hr.own]; exact hk.2⟩)
    (fun ch k r k' hk _ he => truncate_half hk.1 hk.2 he) fun r => ?_
  cases r with
  | error e => exact (hfail 0 _ _ _).pre fun k hk => hk.1
  | ok u =>
    refine triple_op (o := .mmap (avPageAlign h (segSize h mk.size)) true (some (fd, 0)))
      (M := onResult (fun _ k => Half h b t hs n c i mk (segSize h mk.size) k)
        (fun a k => Building h b t hs n c
            ⟨⟨id', a, segSize h mk.size, bitField 1, bitField shared⟩, n,
              userSize h mk.size⟩ i mk k))
      (fun k k' hr hk => ⟨hk.1.rely hr, by rw [hr.own]; exact hk.2⟩)
      (fun ch k r k' hk _ he => map_half holder hcall hname hshared hk.1 hk.2 he) fun r => ?_
    cases r with
    | error e => exact hfail _ _ _ _
    | ok a =>
      exact (avShmCreateMark_triple mk ⟨id', a, segSize h mk.size, doUnlink, old⟩ hcall rfl).post
        fun _ _ => .inl

/-- A shared create adds a handle or leaves everything as it was. -/
theorem avShmCreateShared_triple {idp idp' size mode mode' : Nat} {shared : Int} {m m' : AvShm}
    (holder : ∀ x ∈ hs, x.call < n) (hsize : SizeOk h size) (hshared : bitField shared ≠ 0)
    (hc : c = some (.create idp' m' size shared mode')) :
    (view h b t).Triple (Ready h b t hs n c)
      (avShmCreateShared h idp m (avPageAlign h size) shared mode) fun r k =>
        (r.1 = 0 ∧ Ready h b t (⟨r.2, n, userSize h size⟩ :: hs) n c k) ∨
        (r.1 = -1 ∧ Ready h b t hs n c k) := by
  refine Ready.then (avRandom_quiet ..) fun _ => Ready.then call_quiet fun id => ?_
  refine triple_op (o := .shmOpen (segmentName 32 id) .rdwrCreatExcl (mode &&& 0o444))
    (M := onResult (fun _ k => Ready h b t hs n c k)
      (fun fd k => ∃ i, Half h b t hs n c i ⟨t, n, entryName id, size⟩ 0 k ∧
          (k.procs t).file fd = some (.shm i true)))
    Ready.stable (fun ch k r k' hk _ he => ?_) fun r => ?_
  · rw [segmentName_eq (by decide)] at he ⊢
    rcases shmOpen_cases he with ⟨e, rfl, rfl, -⟩ | ⟨_, _, _, _, hflags, _⟩ |
      ⟨nm, fd, hfn, -, hl, -, rfl, rfl⟩
    · exact ⟨.same hk.inv trivial, hk⟩
    · cases hflags
    · cases hfn
      -- the record of the segment names this call
      have hmade : k.madeBy t (entryName id) = some ⟨t, n, entryName id, size⟩ := by
        rw [create_made (by rw [hk.1.cur, hc]), hk.1.calls]
      have hgood : ∀ mk, (some ⟨t, n, entryName id, size⟩ : Option Made) = some mk →
          MadeFor h k (entryName id) mk := by
        rintro mk ⟨⟩
        exact ⟨hk.1.lt, hsize, id, rfl⟩
      rw [hmade]
      refine ⟨.create hk.inv hgood hl trivial, k.inos,
        ⟨⟨hk.1.create hgood hl, hk.2.create⟩, .create rfl rfl⟩, ?_⟩
      rw [create_procs_self]
      simp [Proc.file, Proc.openFd]
  cases r with
  | error e =>
    exact Ready.then call_quiet fun _ => Env.Triple.ret Ready.stable fun k hk => .inr ⟨rfl, hk⟩
  | ok fd =>
    exact Env.Triple.exists fun i => avShmCreateFile_triple holder rfl rfl
      ⟨_, _, _, _, _, hc⟩ rfl rfl hshared

/-- A create adds a handle or leaves everything as it was, except for names of stale
    segments. -/
theorem avShmCreateRw_triple {idp size mode : Nat} {shared : Int} {m : AvShm}
    (holder : ∀ x ∈ hs, x.call < n) (hsize : SizeOk h size) (hshared : bitField shared ≠ 0)
    (hc : c = some (.create idp m size shared mode)) :
    (view h b t).Triple (Ready h b t hs n c) (avShmCreateRw h idp m size shared mode) fun r k =>
        (r.1 = 0 ∧ Ready h b t (⟨r.2, n, userSize h size⟩ :: hs) n c k) ∨
        (r.1 = -1 ∧ Ready h b t hs n c k) := by
  have hne : shared ≠ 0 := by
    rintro rfl
    exact hshared rfl
  refine Ready.then (avAssert_quiet ..) fun _ => Ready.then (avAssert_quiet ..) fun _ =>
    Ready.then (avAssert_quiet ..) fun _ =>
      (avShmCleanup_triple holder (by rw [hc]; nofun)).bind fun _ => ?_
  rw [if_neg hne]
  exact avShmCreateShared_triple holder hsize hshared hc

/-! ## The calls -/

/-- A byte written by the process itself, in the room its segment offers. -/
theorem write_triple {hd : Handle} {off : Nat} {v : UInt8} (hhd : hd ∈ hs)
    (hoff : off < hd.room) :
    (view h b t).Triple (Ready h b t hs n c) (call (.userWrite (hd.m.ptr + off) v))
      fun _ => Ready h b t hs n c := by
  refine Env.Triple.last Ready.stable (fun _ => Ready.stable) ?_
  rintro k r k' hk ⟨ch, -, he⟩
  obtain ⟨i, hi⟩ := hk.1.handles hd hhd
  -- only a created segment offers room to write to
  have hcr : hd.Created := by
    by_contra hn
    have := hi.room hn
    omega
  obtain ⟨mk, hmk, howner, -, -, hsz, hroom, -⟩ := hi.created hcr
  have hok := hk.inv.made i mk hmk
  have hplace := place_eq hok.size
  have hcover := (mapLen_attached hi.size).1
  have hseg := segSize_eq hok.size
  obtain rfl := write_handle hk.1 hi (by omega) he
  -- the marker and the pid lie beyond the room
  have hword : ∀ o, mk.place h ≤ o →
      load32 (Function.update (k.inodes i).data off v) o = load32 (k.inodes i).data o :=
    fun o ho => load32_congr fun j hj _ => Function.update_of_ne (by omega) ..
  have hx : OwnChange h t k i mk
      { k.inodes i with data := Function.update (k.inodes i).data off v } := by
    refine ⟨hmk, howner, hmk, rfl, fun _ => rfl, hok.len, fun hm => ?_, fun hm => ?_⟩
    · exact (hword _ (Nat.le_refl _)).trans hm
    · rw [hword _ (Nat.le_add_right ..)]
      exact hok.marked ((hword _ (Nat.le_refl _)).symm.trans hm)
  exact ⟨hx.guar hk.inv nofun nofun, hx.own hk.1, hx.calm hk.2⟩

namespace Kernel

variable {k : Kernel} {s : ShmSt}

/-- Process `t` starts a call. -/
theorem Idle.enter {c : ShmCall} (hi : Idle h b t s k) :
    Ready h b t s.handles (s.calls + 1) (some c) (k.enter t c) := by
  refine ⟨hi.own.setProc ?_ ?_ ?_ ?_ ?_, hi.calm.setProc rfl⟩
  exacts [rfl, hi.own.alive, rfl, congrArg (· + 1) hi.own.calls, rfl]

/-- Process `t` returns with the handles `hs`. -/
theorem Ready.leave {k' : Kernel} {n : Nat} (hk : Ready h b t hs n c k)
    (hold : ∀ x ∈ hs, x.call ≤ n) (hk' : k' = k.leave t) : Idle h b t ⟨n, hs⟩ k' := by
  subst hk'
  refine ⟨hk.1.setProc ?_ ?_ ?_ ?_ ?_, hk.2.setProc rfl, hold⟩
  exacts [rfl, hk.1.alive, rfl, hk.1.calls, rfl]

end Kernel

/-- Every call of shm.h keeps the protocol. -/
theorem shm_verified (h : Host) (b : Bool) : (shmProtocol h b).Verified := by
  intro t s c he
  have hpre : ∀ k, (shmProtocol h b).Pre t s c k →
      Ready h b t s.handles (s.calls + 1) (some c) k ∧
      ∀ x ∈ s.handles, x.call ≤ s.calls := by
    rintro k ⟨k₀, -, hi, rfl⟩
    exact ⟨hi.enter, hi.older⟩
  refine Env.Triple.assume (fun k hk => (hpre k hk).2) fun hold => ?_
  have holder : ∀ x ∈ s.handles, x.call < s.calls + 1 :=
    fun x hx => Nat.lt_succ_of_le (hold x hx)
  refine Env.Triple.pre (?_ : (view h b t).Triple
    (Ready h b t s.handles (s.calls + 1) (some c)) _ _) fun k hk => (hpre k hk).1
  -- the two outcomes of a call that acquires a handle
  have hnew : ∀ {k x}, x.call = s.calls + 1 →
      Ready h b t (x :: s.handles) (s.calls + 1) (some c) k →
      Idle h b t ⟨s.calls + 1, x :: s.handles⟩ (k.leave t) := by
    intro k x hx hk
    refine hk.leave (fun y hy => ?_) rfl
    rcases List.mem_cons.1 hy with rfl | hy
    · exact hx.le
    · exact (holder y hy).le
  have hsame : ∀ {k}, Ready h b t s.handles (s.calls + 1) (some c) k →
      Idle h b t ⟨s.calls + 1, s.handles⟩ (k.leave t) := fun hk =>
    hk.leave (fun y hy => (holder y hy).le) rfl
  have hacquire : ∀ {p : C (Int × AvShm)} (room : Nat),
      (∀ r m, ShmCall.after h s c (.handle r m) =
        if r = 0 then ⟨s.calls + 1, ⟨m, s.calls + 1, room⟩ :: s.handles⟩
        else ⟨s.calls + 1, s.handles⟩) →
      (view h b t).Triple (Ready h b t s.handles (s.calls + 1) (some c)) p (fun r k =>
        (r.1 = 0 ∧ Ready h b t (⟨r.2, s.calls + 1, room⟩ :: s.handles) (s.calls + 1) (some c) k) ∨
        (r.1 = -1 ∧ Ready h b t s.handles (s.calls + 1) (some c) k)) →
      (view h b t).Triple (Ready h b t s.handles (s.calls + 1) (some c))
        (p >>= fun r => pure (ShmRet.handle r.1 r.2)) ((shmProtocol h b).Post t s c) := by
    intro p room hafter hp
    refine hp.bind fun r => Env.Triple.ret ?_ fun k hk => ?_
    · rintro k k' hr (⟨h0, hk⟩ | ⟨h1, hk⟩)
      · exact .inl ⟨h0, hk.rely hr⟩
      · exact .inr ⟨h1, hk.rely hr⟩
    · change Idle h b t (ShmCall.after h s c (.handle r.1 r.2)) (k.leave t)
      rw [hafter]
      rcases hk with ⟨h0, hk⟩ | ⟨h1, hk⟩
      · rw [if_pos h0]; exact hnew rfl hk
      · rw [if_neg (by rw [h1]; decide)]; exact hsame hk
  cases c with
  | create idp m size shared mode =>
    obtain ⟨hpos, hmax, rfl, -⟩ := of_decide_eq_true he
    exact hacquire _ (fun _ _ => rfl) (avShmCreateRw_triple holder ⟨hpos, hmax⟩ (by decide) rfl)
  | attach m id =>
    refine hacquire 0 (fun _ _ => rfl) ((avShmAttachRo_triple holder m id).post ?_)
    rintro r k (⟨h0, -, hk, -⟩ | hk)
    · exact .inl ⟨h0, hk⟩
    · exact .inr hk
  | free hd =>
    have hhd : hd ∈ s.handles := of_decide_eq_true he
    have hfree : (view h b t).Triple
        (Ready h b t (hd :: s.handles.erase hd) (s.calls + 1) (some (.free hd)))
        (avShmFree h hd.m) fun _ =>
        Ready h b t (s.handles.erase hd) (s.calls + 1) (some (.free hd)) :=
      avShmFree_triple fun _ => rfl
    refine (hfree.pre fun k hk => ⟨hk.1.perm (List.perm_cons_erase hhd), hk.2⟩).bind fun m =>
      Env.Triple.ret Ready.stable fun k hk => ?_
    exact hk.leave (fun y hy => (holder y (List.mem_of_mem_erase hy)).le) rfl
  | cleanup =>
    exact (avShmCleanup_triple holder fun hd hc => by cases hc).bind fun r =>
      Env.Triple.ret Ready.stable fun k hk => hsame hk
  | write hd off v =>
    obtain ⟨hhd, hoff⟩ := of_decide_eq_true he
    exact (write_triple hhd hoff).bind fun r => Env.Triple.ret Ready.stable fun k hk => hsame hk

end AnekVideo
