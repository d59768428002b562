/-
  AnekVideo.Shm.Protocol

  What the processes that use shm.h promise each other.

  `Kernel.Inv` ties the length of a segment, its marker and its pid together at
  every moment of a creation.  `Rely t` is what process `t` may count on while
  the others move: its own descriptors, mappings and segments are left alone,
  a length or a marker that is there stays, and the dead stay dead.  `Guar`
  adds what each operation has to answer for: `LoadOk` for every word a cleanup
  reads, `RemovalOk` for every name that goes.

  The flag `b` singles out the steady runs, those in which a cleanup unlinks
  only what it opened; in them the names of the living stay, too.
-/
import AnekVideo.Shm.Layout
import AnekVideo.Shm.Maps
import AnekVideo.Shm.System

namespace AnekVideo

open Interact RoundUp Word

section Defs

variable (h : Host)

/-- Where the creator of a segment writes its marker. -/
def Made.place (mk : Made) : Nat := markerOff h (segSize h mk.size)

/-- The marker is there. -/
def Made.Marked (mk : Made) (x : Inode) : Prop := load32 x.data (mk.place h) = shmMarker

/-- A handle whose owner created the segment. -/
def Handle.Created (hd : Handle) : Prop := hd.m.doUnlink ≠ 0

instance (hd : Handle) : Decidable hd.Created := inferInstanceAs (Decidable (_ ≠ _))

namespace Kernel

/-! ## The invariant -/

/-- What holds of a segment at every moment of its life. -/
structure MadeOk (k : Kernel) (i : Nat) (mk : Made) : Prop where
  lt : i < k.inos
  owner : mk.owner < k.nprocs
  size : SizeOk h mk.size
  len : (k.inodes i).len = 0 ∨ (k.inodes i).len = segSize h mk.size
  marked : mk.Marked h (k.inodes i) → (k.inodes i).len = segSize h mk.size ∧
    load32 (k.inodes i).data (mk.place h + shmMarkerPid) = (k.procs mk.owner).pid
  removable : (k.inodes i).removable = true

/-- The invariant of the kernel. -/
structure Inv (k : Kernel) : Prop where
  names : ∀ n i, k.dir.lookup n = some i → i < k.inos
  canonical : ∀ n i mk, k.dir.lookup n = some i → (k.inodes i).made = some mk →
    ∃ id, n = entryName id
  pids : ∀ s, s < k.nprocs → 0 < (k.procs s).pid.toNat ∧ (k.procs s).pid.toNat < 2 ^ 31
  made : ∀ i mk, (k.inodes i).made = some mk → MadeOk h k i mk

/-! ## What a process may count on -/

variable (b : Bool)

/-- What the others leave alone, from the view of process `t`. -/
structure Rely (t : Nat) (k k' : Kernel) : Prop where
  own : k'.procs t = k.procs t
  nprocs : k.nprocs ≤ k'.nprocs
  procs : ∀ s, s < k.nprocs → (k'.procs s).pid = (k.procs s).pid ∧
    ((k'.procs s).alive = true → (k.procs s).alive = true)
  inos : k.inos ≤ k'.inos
  made : ∀ i, i < k.inos → (k'.inodes i).made = (k.inodes i).made
  kept : ∀ i mk, (k.inodes i).made = some mk → (k'.inodes i).made = some mk
  mine : ∀ i mk, (k.inodes i).made = some mk → mk.owner = t → k'.inodes i = k.inodes i
  grown : ∀ i mk, (k.inodes i).made = some mk → (k.inodes i).len ≠ 0 →
    (k'.inodes i).len = (k.inodes i).len
  marked : ∀ i mk, (k.inodes i).made = some mk → mk.Marked h (k.inodes i) →
    mk.Marked h (k'.inodes i)
  bound : b = true → (k.procs t).alive = true → ∀ i mk, (k.inodes i).made = some mk →
    mk.owner = t → k.dir.lookup mk.name = some i → k'.dir.lookup mk.name = some i
  inv : Inv h k → Inv h k'

/-! ## What a process answers for -/

/-- The last word process `t` loaded is the marker of a segment. -/
def SawMarker (t : Nat) (k : Kernel) (i : Nat) (mk : Made) : Prop :=
  (k.procs t).lastLoad = some ⟨i, mk.place h, shmMarker⟩ ∧ (k.inodes i).made = some mk

/-- A load by process `t` from address `a`: it reads a shared object; after the marker
    of a segment comes its pid, and that is the pid of the creator; of a segment
    nothing else is read, and it lies inside. -/
structure LoadOk (t a : Nat) (k k' : Kernel) : Prop where
  read : ∃ m l, (k.procs t).mapAt a = some m ∧ m.ino = some l.ino ∧
    l.off = a - m.addr + m.off ∧ (k'.procs t).lastLoad = some l
  pid : ∀ i mk, SawMarker h t k i mk →
    (k'.procs t).lastLoad = some ⟨i, mk.place h + shmMarkerPid, (k.procs mk.owner).pid⟩
  inside : ∀ l mk, (k'.procs t).lastLoad = some l → (k.inodes l.ino).made = some mk →
    mk.place h + shmMarkerSize h ≤ (k.inodes l.ino).len ∧
      (l.off = mk.place h ∨ (l.off = mk.place h + shmMarkerPid ∧ SawMarker h t k l.ino mk))

/-- A store by process `t`: the pid or the marker, into a segment of its own call. -/
def StoreOk (t : Nat) (a : Nat) (v : UInt32) (k : Kernel) : Prop :=
  ∃ m i mk, (k.procs t).mapAt a = some m ∧ m.ino = some i ∧ (k.inodes i).made = some mk ∧
    mk.owner = t ∧ mk.call = (k.procs t).calls ∧
      ((a - m.addr + m.off = mk.place h + shmMarkerPid ∧ v = (k.procs t).pid) ∨
        (a - m.addr + m.off = mk.place h ∧ v = shmMarker))

/-- Operations that neither load nor store a shared word. -/
def Plain : Sys → Prop
  | .atomicLoad _ | .atomicStore _ _ => False
  | _ => True

/-- Process `t` removes the name `n` of its own segment: by freeing its handle, or in
    the very call that creates it. -/
def ByCreator (t : Nat) (k : Kernel) (n : CStr) (mk : Made) : Prop :=
  mk.owner = t ∧
    ((∃ hd, (k.procs t).cur = some (.free hd) ∧ hd.call = mk.call ∧ n = entryName hd.m.id) ∨
      ((k.procs t).calls = mk.call ∧
        ∃ idp m size shared mode, (k.procs t).cur = some (.create idp m size shared mode)))

/-- A name that goes was removed by the creator of its segment, or the creator is
    dead. -/
def RemovalOk (t : Nat) (k k' : Kernel) : Prop :=
  ∀ n i mk, k.dir.lookup n = some i → (k.inodes i).made = some mk →
    k'.dir.lookup n ≠ some i → ByCreator t k n mk ∨ (k.procs mk.owner).alive = false

/-- The promise of process `t` about one operation. -/
structure Guar (t : Nat) (o : Sys) (k : Kernel) (r : o.Resp) (k' : Kernel) : Prop where
  rely : ∀ s, s ≠ t → Rely h b s k k'
  inv : Inv h k'
  load : ∀ a, o = .atomicLoad a → LoadOk h t a k k'
  store : ∀ a v, o = .atomicStore a v → StoreOk h t a v k
  removal : b = true → RemovalOk t k k'

/-! ## What a process knows of itself -/

/-- The segment object behind a handle. -/
structure HandleAt (t : Nat) (hd : Handle) (i : Nat) (k : Kernel) : Prop where
  map : ⟨hd.m.ptr, avPageAlign h hd.m.size, some i, 0, decide hd.Created⟩ ∈ (k.procs t).maps
  lt : i < k.inos
  shared : hd.m.shared ≠ 0
  size : invalidSize h hd.m.size = false
  room : ¬ hd.Created → hd.room = 0
  created : hd.Created → ∃ mk, (k.inodes i).made = some mk ∧ mk.owner = t ∧
    mk.call = hd.call ∧
    mk.name = entryName hd.m.id ∧ hd.m.size = segSize h mk.size ∧
    hd.room = userSize h mk.size ∧ (b = true → k.dir.lookup mk.name = some i)

def HandleOk (t : Nat) (hd : Handle) (k : Kernel) : Prop := ∃ i, HandleAt h b t hd i k

/-- Process `t` is alive, works on its `n`-th call and holds the handles `hs`. -/
structure Own (t : Nat) (hs : List Handle) (n : Nat) (c : Option ShmCall) (k : Kernel) :
    Prop where
  inv : Inv h k
  lt : t < k.nprocs
  alive : (k.procs t).alive = true
  calls : (k.procs t).calls = n
  cur : (k.procs t).cur = c
  disjoint : (k.procs t).maps.Pairwise Mapping.Disjoint
  handles : ∀ hd ∈ hs, HandleOk h b t hd k
  distinct : hs.Pairwise fun x y => x.m.ptr ≠ y.m.ptr ∧ x.call ≠ y.call

/-- The last word process `t` loaded is not a marker that waits for its pid. -/
def Calm (t : Nat) (k : Kernel) : Prop :=
  (∀ i mk, ¬ SawMarker h t k i mk) ∧ ∀ l, (k.procs t).lastLoad = some l → l.ino < k.inos

/-- Between two calls. -/
structure Idle (t : Nat) (s : ShmSt) (k : Kernel) : Prop where
  own : Own h b t s.handles s.calls none k
  calm : Calm h t k
  older : ∀ hd ∈ s.handles, hd.call ≤ s.calls

end Kernel
end Defs

namespace Kernel

variable {h : Host} {b : Bool} {t s : Nat} {k k' k₁ k₂ k₃ : Kernel}
variable {hs : List Handle} {n : Nat} {c : Option ShmCall}

theorem shmMarkerPid_eq : shmMarkerPid = 4 := rfl

theorem place_eq {mk : Made} (hs : SizeOk h mk.size) : mk.place h = userSize h mk.size :=
  markerOff_segSize hs

theorem place_add {mk : Made} (hs : SizeOk h mk.size) :
    mk.place h + shmMarkerSize h = segSize h mk.size := by
  rw [place_eq hs, shmMarkerSize_eq, segSize_eq hs]

/-! ## Rely is a preorder -/

theorem Rely.refl (t : Nat) (k : Kernel) : Rely h b t k k where
  own := rfl
  nprocs := Nat.le_refl _
  procs := fun _ _ => ⟨rfl, id⟩
  inos := Nat.le_refl _
  made := fun _ _ => rfl
  kept := fun _ _ hmk => hmk
  mine := fun _ _ _ _ => rfl
  grown := fun _ _ _ _ => rfl
  marked := fun _ _ _ hm => hm
  bound := fun _ _ _ _ _ _ hl => hl
  inv := id

theorem Rely.trans (h₁ : Rely h b t k₁ k₂) (h₂ : Rely h b t k₂ k₃) :
    Rely h b t k₁ k₃ where
  own := h₂.own.trans h₁.own
  nprocs := Nat.le_trans h₁.nprocs h₂.nprocs
  procs := fun s hs => by
    obtain ⟨hp, ha⟩ := h₁.procs s hs
    obtain ⟨hp', ha'⟩ := h₂.procs s (Nat.lt_of_lt_of_le hs h₁.nprocs)
    exact ⟨hp'.trans hp, fun h => ha (ha' h)⟩
  inos := Nat.le_trans h₁.inos h₂.inos
  made := fun i hi => (h₂.made i (Nat.lt_of_lt_of_le hi h₁.inos)).trans (h₁.made i hi)
  kept := fun i mk hmk => h₂.kept i mk (h₁.kept i mk hmk)
  mine := fun i mk hmk ht => (h₂.mine i mk (h₁.kept i mk hmk) ht).trans (h₁.mine i mk hmk ht)
  grown := fun i mk hmk hl => by
    have hl₁ := h₁.grown i mk hmk hl
    rw [← hl₁]
    exact h₂.grown i mk (h₁.kept i mk hmk) (hl₁ ▸ hl)
  marked := fun i mk hmk hm => h₂.marked i mk (h₁.kept i mk hmk) (h₁.marked i mk hmk hm)
  bound := fun hb ha i mk hmk ht hl =>
    h₂.bound hb (h₁.own ▸ ha) i mk (h₁.kept i mk hmk) ht (h₁.bound hb ha i mk hmk ht hl)
  inv := fun hi => h₂.inv (h₁.inv hi)

/-! ## What process `t` knows of itself is left alone -/

theorem HandleAt.rely {hd : Handle} {i : Nat} (hh : HandleAt h b t hd i k)
    (ha : (k.procs t).alive = true) (hr : Rely h b t k k') : HandleAt h b t hd i k' where
  map := by rw [hr.own]; exact hh.map
  lt := Nat.lt_of_lt_of_le hh.lt hr.inos
  shared := hh.shared
  size := hh.size
  room := hh.room
  created := fun hc => by
    obtain ⟨mk, hmk, howner, hcall, hname, hsize, hroom, hl⟩ := hh.created hc
    exact ⟨mk, hr.kept i mk hmk, howner, hcall, hname, hsize, hroom,
      fun hb => hr.bound hb ha i mk hmk howner (hl hb)⟩

theorem Own.rely (ho : Own h b t hs n c k) (hr : Rely h b t k k') : Own h b t hs n c k' where
  inv := hr.inv ho.inv
  lt := Nat.lt_of_lt_of_le ho.lt hr.nprocs
  alive := by rw [hr.own]; exact ho.alive
  calls := by rw [hr.own]; exact ho.calls
  cur := by rw [hr.own]; exact ho.cur
  disjoint := by rw [hr.own]; exact ho.disjoint
  handles := fun hd hhd => by
    obtain ⟨i, hi⟩ := ho.handles hd hhd
    exact ⟨i, hi.rely ho.alive hr⟩
  distinct := ho.distinct

theorem Calm.rely (hc : Calm h t k) (hr : Rely h b t k k') : Calm h t k' := by
  refine ⟨fun i mk hsaw => ?_, fun l hl => ?_⟩
  · -- the object existed when it was loaded, so nobody has made it since
    obtain ⟨hl, hmk⟩ := hsaw
    rw [hr.own] at hl
    rw [hr.made i (hc.2 _ hl)] at hmk
    exact hc.1 i mk ⟨hl, hmk⟩
  · rw [hr.own] at hl
    exact Nat.lt_of_lt_of_le (hc.2 l hl) hr.inos

theorem Idle.rely {s : ShmSt} (hi : Idle h b t s k) (hr : Rely h b t k k') : Idle h b t s k' :=
  ⟨hi.own.rely hr, hi.calm.rely hr, hi.older⟩

/-! ## Steps that change one process only -/

variable {p : Proc}

/-- A step of process `t` on its own record, which keeps its pid and raises nobody
    from the dead, is one the others can rely on. -/
theorem Inv.setProc (hi : Inv h k) (hpid : p.pid = (k.procs t).pid) :
    Inv h (k.setProc t p) := by
  have hpids : ∀ s, ((k.setProc t p).procs s).pid = (k.procs s).pid := by
    intro s
    by_cases hs : s = t
    · subst hs; rw [setProc_self, hpid]
    · rw [setProc_ne _ _ _ hs]
  exact
    { names := hi.names
      canonical := hi.canonical
      pids := fun s hs => by rw [hpids]; exact hi.pids s hs
      made := fun i mk hmk =>
        { lt := (hi.made i mk hmk).lt
          owner := (hi.made i mk hmk).owner
          size := (hi.made i mk hmk).size
          len := (hi.made i mk hmk).len
          marked := fun hm => by rw [hpids]; exact (hi.made i mk hmk).marked hm
          removable := (hi.made i mk hmk).removable } }

theorem Rely.setProc (hs : s ≠ t) (hpid : p.pid = (k.procs t).pid)
    (halive : p.alive = true → (k.procs t).alive = true) : Rely h b s k (k.setProc t p) where
  own := setProc_ne _ _ _ hs
  nprocs := Nat.le_refl _
  procs := fun u _ => by
    by_cases hu : u = t
    · subst hu; rw [setProc_self]; exact ⟨hpid, halive⟩
    · rw [setProc_ne _ _ _ hu]; exact ⟨rfl, id⟩
  inos := Nat.le_refl _
  made := fun _ _ => rfl
  kept := fun _ _ hmk => hmk
  mine := fun _ _ _ _ => rfl
  grown := fun _ _ _ _ => rfl
  marked := fun _ _ _ hm => hm
  bound := fun _ _ _ _ _ _ hl => hl
  inv := fun hi => hi.setProc hpid

/-- A handle only needs its mapping. -/
theorem HandleAt.setProc {hd : Handle} {i : Nat} (hh : HandleAt h b t hd i k)
    (hmap : ⟨hd.m.ptr, avPageAlign h hd.m.size, some i, 0, decide hd.Created⟩ ∈ p.maps) :
    HandleAt h b t hd i (k.setProc t p) where
  map := by rw [setProc_self]; exact hmap
  lt := hh.lt
  shared := hh.shared
  size := hh.size
  room := hh.room
  created := hh.created

/-- Nothing a process knows of itself depends on more of its record than this. -/
theorem Own.setProc (ho : Own h b t hs n c k) (hpid : p.pid = (k.procs t).pid)
    (halive : p.alive = true) (hmaps : p.maps = (k.procs t).maps) {n' : Nat}
    {c' : Option ShmCall} (hcalls : p.calls = n') (hcur : p.cur = c') :
    Own h b t hs n' c' (k.setProc t p) where
  inv := ho.inv.setProc hpid
  lt := ho.lt
  alive := by rw [setProc_self]; exact halive
  calls := by rw [setProc_self]; exact hcalls
  cur := by rw [setProc_self]; exact hcur
  disjoint := by rw [setProc_self, hmaps]; exact ho.disjoint
  handles := fun hd hhd => by
    obtain ⟨i, hi⟩ := ho.handles hd hhd
    exact ⟨i, hi.setProc (by rw [hmaps]; exact hi.map)⟩
  distinct := ho.distinct

theorem Calm.setProc (hc : Calm h t k) (hload : p.lastLoad = (k.procs t).lastLoad) :
    Calm h t (k.setProc t p) := by
  refine ⟨fun i mk hsaw => ?_, fun l hl => ?_⟩
  · obtain ⟨hl, hmk⟩ := hsaw
    rw [setProc_self, hload] at hl
    exact hc.1 i mk ⟨hl, hmk⟩
  · rw [setProc_self, hload] at hl
    exact hc.2 l hl

theorem Plain.not_load {o : Sys} (ho : Plain o) (a : Nat) : o ≠ .atomicLoad a := by
  rintro rfl
  exact ho

theorem Plain.not_store {o : Sys} (ho : Plain o) (a : Nat) (v : UInt32) :
    o ≠ .atomicStore a v := by
  rintro rfl
  exact ho

/-- The promise is kept by a step on the own record that loads nothing. -/
theorem Guar.setProc {o : Sys} {r : o.Resp} (hi : Inv h k) (hpid : p.pid = (k.procs t).pid)
    (halive : p.alive = true → (k.procs t).alive = true) (ho : Plain o) :
    Guar h b t o k r (k.setProc t p) where
  rely := fun _ hs => .setProc hs hpid halive
  inv := hi.setProc hpid
  load := fun a ha => absurd ha (ho.not_load a)
  store := fun a v ha => absurd ha (ho.not_store a v)
  removal := fun _ _ _ _ hl _ hne => absurd hl hne

/-! ## The protocol -/

/-- In a steady run a cleanup unlinks only a name of the object it opened. -/
def UnlinksOpened (t : Nat) (o : Sys) (k : Kernel) : Prop :=
  ∀ n, o = .shmUnlink ('/' :: n) → (∀ hd, (k.procs t).cur ≠ some (.free hd)) →
    ∀ i, k.dir.lookup n = some i → (k.procs t).opened = some i

/-- The runs: all of them, or the steady ones. -/
def runs (h : Host) (b : Bool) : System.Policy (shmSystem h) where
  op := fun t _ o k => b = true → UnlinksOpened t o k
  other := fun _ => True

theorem spawn_cases {pid : UInt32} {s : ShmSt} (he : spawn pid t k = some (s, k')) :
    t = k.nprocs ∧ (0 < pid.toNat ∧ pid.toNat < 2 ^ 31) ∧ s = {} ∧
      k' = { k.setProc t (newProc pid) with nprocs := k.nprocs + 1 } := by
  unfold spawn at he
  split at he
  · rename_i hg
    cases he
    exact ⟨hg.1, ⟨hg.2.1, hg.2.2.1⟩, rfl, rfl⟩
  · cases he

theorem Inv.spawn {pid : UInt32} {s : ShmSt} (hi : Inv h k)
    (he : Kernel.spawn pid t k = some (s, k')) : Inv h k' := by
  obtain ⟨rfl, hpid, -, rfl⟩ := spawn_cases he
  -- the new process has a number of its own
  have hold : ∀ s, s < k.nprocs → (k.setProc k.nprocs (newProc pid)).procs s = k.procs s :=
    fun s hs => setProc_ne _ _ _ (by omega)
  refine ⟨hi.names, hi.canonical, fun s hs => ?_, fun i mk hmk => ?_⟩
  · change 0 < ((k.setProc k.nprocs (newProc pid)).procs s).pid.toNat ∧
      ((k.setProc k.nprocs (newProc pid)).procs s).pid.toNat < 2 ^ 31
    rcases Nat.lt_succ_iff_lt_or_eq.1 hs with hs | rfl
    · rw [hold s hs]
      exact hi.pids s hs
    · rw [setProc_self]
      exact hpid
  · have hm := hi.made i mk hmk
    refine ⟨hm.lt, Nat.lt_succ_of_lt hm.owner, hm.size, hm.len, fun hmarked => ?_, hm.removable⟩
    change _ ∧ _ = ((k.setProc k.nprocs (newProc pid)).procs mk.owner).pid
    rw [hold mk.owner hm.owner]
    exact hm.marked hmarked

theorem Rely.spawn {pid : UInt32} {u : Nat} {s : ShmSt} (hu : t ≠ u)
    (he : Kernel.spawn pid t k = some (s, k')) : Rely h b u k k' := by
  have hinv : Inv h k → Inv h k' := fun hi => hi.spawn he
  obtain ⟨rfl, -, -, rfl⟩ := spawn_cases he
  exact
    { own := setProc_ne _ _ _ hu.symm
      nprocs := Nat.le_succ _
      procs := fun s hs => by
        change ((k.setProc k.nprocs (newProc pid)).procs s).pid = _ ∧
          (((k.setProc k.nprocs (newProc pid)).procs s).alive = true → _)
        rw [setProc_ne _ _ _ (by omega)]
        exact ⟨rfl, id⟩
      inos := Nat.le_refl _
      made := fun _ _ => rfl
      kept := fun _ _ hmk => hmk
      mine := fun _ _ _ _ => rfl
      grown := fun _ _ _ _ => rfl
      marked := fun _ _ _ hm => hm
      bound := fun _ _ _ _ _ _ hl => hl
      inv := hinv }

theorem Idle.spawn {pid : UInt32} {s : ShmSt} (hi : Inv h k)
    (he : Kernel.spawn pid t k = some (s, k')) : Idle h b t s k' := by
  have hinv := hi.spawn he
  obtain ⟨rfl, -, rfl, rfl⟩ := spawn_cases he
  have hself : ({ k.setProc k.nprocs (newProc pid) with nprocs := k.nprocs + 1 } : Kernel).procs
      k.nprocs = newProc pid := setProc_self ..
  refine ⟨⟨hinv, Nat.lt_succ_self _, ?_, ?_, ?_, ?_, nofun, .nil⟩, ⟨?_, ?_⟩, nofun⟩
  · rw [hself]; rfl
  · rw [hself]; rfl
  · rw [hself]; rfl
  · rw [hself]; exact .nil
  · -- it has loaded nothing yet
    rintro i mk ⟨hl, -⟩
    rw [hself] at hl
    cases hl
  · intro l hl
    rw [hself] at hl
    cases hl

/-- The protocol of shm.h. -/
def shmProtocol (h : Host) (b : Bool) : System.Protocol (runs h b) where
  rely := Rely h b
  guar := Guar h b
  rely_refl := Rely.refl
  rely_trans := Rely.trans
  inv := Inv h
  idle := Idle h b
  guar_rely := fun hs hg => hg.rely _ (Ne.symm hs)
  guar_inv := fun hg => hg.inv
  idle_stable := fun _ hr hi => hi.rely hr
  enter_inv := fun hi _ _ => hi.setProc rfl
  enter_rely := fun hu _ _ _ => .setProc (Ne.symm hu) rfl id
  leave_inv := fun hi _ => hi.setProc rfl
  leave_rely := fun hu _ _ => .setProc (Ne.symm hu) rfl id
  die_inv := fun hi => hi.setProc rfl
  die_rely := fun hu _ => .setProc (Ne.symm hu) rfl nofun
  spawn_inv := fun hi he => hi.spawn he
  spawn_rely := fun hu _ he => .spawn hu he
  spawn_idle := fun hi he => .spawn hi he

/-- What process `t` sees of the others. -/
abbrev view (h : Host) (b : Bool) (t : Nat) : Env sys Kernel := (shmProtocol h b).env t

end Kernel
end AnekVideo
