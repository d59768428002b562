/-
  AnekVideo.Device.Runs

  Any number of devices through any sequence of `av_device_new`,
  `av_device_setup_from_path` and `talloc_free`, and who opened and closed
  which file.

  A device owns at most one descriptor, the one in `dev->fd`.  This is an
  invariant of the runs in which no device is set up again while it holds an
  open descriptor, and none is freed before its first setup while descriptor 0
  is open.
-/
import AnekVideo.Device.FromPath

namespace AnekVideo

open Interact

namespace Machine

variable {D : Driver} {stop : Sys → Prop} {k k' : Machine} {p q : Nat} {d : AvDevice}

/-! ## One device among others -/

/-- A device in the heap, with its frames below it and a server above it. -/
structure DeviceOk (k : Machine) (p : Nat) (d : AvDevice) : Prop where
  ne_null : p ≠ 0
  unqueried : d.buf.length = 0
  slots : 0 < d.frames.length
  chunk : ∃ a cs pc, k.chunks p = some ⟨a, cs, some .avDeviceDestroy, .device d⟩ ∧
    k.chunks a = some pc ∧ pc.body = .other ∧ cs.Nodup ∧
    ∀ f ∈ cs, f ≠ 0 ∧ ∃ x, k.chunks f = some (frameChunk p x)

/-- The chunks of a device: its own, that of its server `a`, and those of its frames `cs`. -/
structure Family (k : Machine) (p : Nat) (d : AvDevice) (a : Nat) (cs : List Nat) (pc : Chunk) :
    Prop where
  device : k.chunks p = some ⟨a, cs, some .avDeviceDestroy, .device d⟩
  server : k.chunks a = some pc
  other : pc.body = .other
  nodup : cs.Nodup
  frames : ∀ f ∈ cs, f ≠ 0 ∧ ∃ x, k.chunks f = some (frameChunk p x)

section Family

variable {a f : Nat} {cs : List Nat} {pc : Chunk} {d' : AvDevice} {x : AvFrame}

theorem DeviceOk.family (h : DeviceOk k p d) : ∃ a cs pc, Family k p d a cs pc := by
  obtain ⟨a, cs, pc, hp, hpc, hother, hcs, hframes⟩ := h.chunk
  exact ⟨a, cs, pc, hp, hpc, hother, hcs, hframes⟩

theorem Family.ok (h : Family k p d a cs pc) (h0 : p ≠ 0) (hbuf : d.buf.length = 0)
    (hslots : 0 < d.frames.length) : DeviceOk k p d :=
  ⟨h0, hbuf, hslots, a, cs, pc, h.device, h.server, h.other, h.nodup, h.frames⟩

theorem Family.server_ne (h : Family k p d a cs pc) : a ≠ p := by
  rintro rfl
  have hpc := h.device.symm.trans h.server
  cases hpc
  cases h.other

theorem Family.frame_ne (h : Family k p d a cs pc) (hf : f ∈ cs) : f ≠ p := by
  rintro rfl
  obtain ⟨-, x, hx⟩ := h.frames f hf
  cases h.device.symm.trans hx

theorem Family.server_notMem (h : Family k p d a cs pc) : a ∉ cs := by
  intro ha
  obtain ⟨-, x, hx⟩ := h.frames a ha
  have hpc := hx.symm.trans h.server
  cases hpc
  cases h.other

/-- The device itself is assigned to. -/
theorem Family.put (h : Family k p d a cs pc) (hk : k'.chunks = k.chunks) :
    Family (k'.put p a cs d') p d' a cs pc where
  device := put_chunks_self
  server := by rw [put_chunks_ne h.server_ne, hk, h.server]
  other := h.other
  nodup := h.nodup
  frames := fun f hf => by
    rw [put_chunks_ne (h.frame_ne hf), hk]
    exact h.frames f hf

/-- A new frame, where nothing was before. -/
theorem Family.putFrame (h : Family k p d a cs pc) (hk : k'.chunks = k.chunks) (h0 : f ≠ 0)
    (hne : f ≠ p) (hfree : k.chunks f = none) :
    Family (k'.putFrame p a (f :: cs) d' f x) p d' a (f :: cs) pc where
  device := put_chunks_self
  server := by
    have haf : a ≠ f := by
      rintro rfl
      cases hfree.symm.trans h.server
    rw [Machine.putFrame, put_chunks_ne h.server_ne, setChunk_chunks_ne haf, hk, h.server]
  other := h.other
  nodup := by
    refine List.nodup_cons.2 ⟨fun hf => ?_, h.nodup⟩
    obtain ⟨-, y, hy⟩ := h.frames f hf
    cases hfree.symm.trans hy
  frames := fun g hg => by
    by_cases hgf : g = f
    · subst hgf
      exact ⟨h0, x, putFrame_chunks_self hne⟩
    · have hg' : g ∈ cs := (List.mem_cons.1 hg).resolve_left hgf
      rw [Machine.putFrame, put_chunks_ne (h.frame_ne hg'), setChunk_chunks_ne hgf, hk]
      exact h.frames g hg'

end Family

/-- Only the chunk `p` and its frames changed, and the children of servers. -/
def Away (p : Nat) (k k' : Machine) : Prop :=
  ∀ q c, q ≠ p → k.chunks q = some c → (∀ x, c ≠ frameChunk p x) →
    (c.body ≠ .other → k'.chunks q = some c) ∧
    (c.body = .other → ∃ l, k'.chunks q = some { c with children := l })

/-- A chunk that is a device or is not there yet. -/
def Apart (k : Machine) (p : Nat) : Prop :=
  ∀ c, k.chunks p = some c → ∃ d, c.body = .device d

theorem DeviceOk.apart (h : DeviceOk k p d) : Apart k p := by
  obtain ⟨a, cs, pc, hp, -⟩ := h.chunk
  intro c hc
  rw [hp] at hc
  cases hc
  exact ⟨d, rfl⟩

/-- The other devices are still there. -/
theorem DeviceOk.away (h : DeviceOk k q d) (hne : q ≠ p) (hp : Apart k p) (ha : Away p k k') :
    DeviceOk k' q d := by
  obtain ⟨a, cs, pc, hq, hpc, hother, hcs, hframes⟩ := h.chunk
  have hap : a ≠ p := by
    rintro rfl
    obtain ⟨d', hd'⟩ := hp pc hpc
    rw [hother] at hd'
    cases hd'
  have hq' := (ha q _ hne hq (fun x h => nomatch congrArg Chunk.body h)).1 (nofun)
  obtain ⟨l, hl⟩ :=
    (ha a pc hap hpc (fun x h => nomatch (hother.symm.trans (congrArg Chunk.body h)))).2 hother
  refine ⟨h.ne_null, h.unqueried, h.slots, a, cs, _, hq', hl, hother, hcs, fun f hf => ?_⟩
  obtain ⟨h0, x, hx⟩ := hframes f hf
  have hfp : f ≠ p := by
    rintro rfl
    obtain ⟨d', hd'⟩ := hp _ hx
    cases hd'
  exact ⟨h0, x, (ha f _ hfp hx fun y hy => hne (congrArg Chunk.parent hy)).1 nofun⟩

/-! ## What the three calls do to it -/

theorem new_ends (D : Driver) (stop : Sys → Prop) {server : Nat} {c : Chunk}
    (hs : k.chunks server = some c) (hc : c.body = .other) :
    Ends (sem D) stop (fun r k' => ∃ p : Nat, r = (p : Int) ∧ k'.fds = k.fds ∧
      k.chunks p = none ∧
      Away p k k' ∧ DeviceOk k' p {}) (do let p ← avDeviceNew server; return (p : Int)) k := by
  refine deviceNew_then hs fun dev h0 hne hfree =>
    .pure ⟨dev, rfl, rfl, hfree, fun q c' hq hc' _ => ?_, ?_⟩
  · rw [put_chunks_ne hq]
    by_cases hqs : q = server
    · subst hqs
      rw [hs] at hc'
      cases hc'
      exact ⟨fun h => absurd hc h, fun _ => ⟨_, setChunk_chunks_self⟩⟩
    · rw [setChunk_chunks_ne hqs]
      exact ⟨fun _ => hc', fun _ => ⟨_, hc'⟩⟩
  · refine ⟨h0, rfl, Nat.zero_lt_succ 5, server, [], { c with children := dev :: c.children },
      put_chunks_self, ?_, hc, .nil, nofun⟩
    rw [put_chunks_ne hne.symm]
    exact setChunk_chunks_self

/-- Another device, and at most one new frame. -/
theorem away_put {a : Nat} {cs : List Nat} : Away p k (k.put p a cs d) := by
  intro q c hq hc _
  rw [put_chunks_ne hq]
  exact ⟨fun _ => hc, fun _ => ⟨_, hc⟩⟩

theorem away_putFrame {a f : Nat} {cs : List Nat} {x : AvFrame} (hf : k.chunks f = none) :
    Away p k (k.putFrame p a cs d f x) := by
  intro q c hq hc _
  have hqf : q ≠ f := by
    rintro rfl
    rw [hf] at hc
    cases hc
  rw [putFrame, put_chunks_ne hq, setChunk_chunks_ne hqf]
  exact ⟨fun _ => hc, fun _ => ⟨_, hc⟩⟩

/-- A device set up again: with a path that does not open its descriptor is -1, else it is
    the new one. -/
def SetAgain (D : Driver) (path : String) (k : Machine) (p : Nat) (k' : Machine) : Prop :=
  Away p k k' ∧ ∃ d', DeviceOk k' p d' ∧
  ((D.opens path = false ∧ d'.fd = -1 ∧ k'.fds = k.fds) ∨
    ∃ (n : Nat) (hn : _), d'.fd = n ∧ k'.fds = k.fds.open' n hn)

theorem setAgain_ends (path : String) (h : DeviceOk k p d) (hcount : stop .abort ∨
      ∀ rb rb', D.answers (.reqbufs rb) (.ok rb') = true → 2 < rb'.count) :
    Ends (sem D) stop (fun _ k' => SetAgain D path k p k') (avDeviceSetupFromPath p path) k := by
  obtain ⟨a, cs, pc, hfam⟩ := h.family
  have hk : k.put p a cs d = k := setChunk_same hfam.device
  have hends : Ends (sem D) stop (Setup D path k p a cs d) (avDeviceSetupFromPath p path)
      (k.put p a cs d) := setup_ends h.ne_null h.unqueried h.slots hcount
  rw [hk] at hends
  refine hends.mono fun r k' hset => ?_
  rcases hset with ⟨hno, -, rfl⟩ | ⟨-, n, hn, s, d₁, hfd, hbuf, hslots, hset, -⟩
  · -- the path does not open
    exact ⟨away_put, _, (hfam.put (by rfl)).ok h.ne_null h.unqueried h.slots,
      .inl ⟨hno, rfl, rfl⟩⟩
  · rcases hset with ⟨-, -, s', d', hd, rfl⟩ | ⟨-, s', d', hd, s'', d'', hd', hcase⟩
    · -- nothing behind it negotiates a format
      have hslots' : 0 < d'.frames.length := (hd.slots.trans hslots).symm ▸ h.slots
      exact ⟨away_put (k := { k.opened n hn s with signals := s' }), d',
        (hfam.put (by rfl)).ok h.ne_null (hd.unqueried.trans hbuf) hslots',
          .inr ⟨n, hn, hd.fd.trans hfd, rfl⟩⟩
    · have hfd' : d''.fd = n := (hd'.fd.trans hd.fd).trans hfd
      have hbuf' : d''.buf.length = 0 := (hd'.unqueried.trans hd.unqueried).trans hbuf
      have hslots' : 0 < d''.frames.length :=
        ((hd'.slots.trans hd.slots).trans hslots).symm ▸ h.slots
      rcases hcase with ⟨-, -, rfl⟩ | ⟨f, x, h0, hne, hfree, -, -, -, rfl⟩
      · exact ⟨away_put (k := { k.opened n hn s with signals := s'' }), d'',
          (hfam.put (by rfl)).ok h.ne_null hbuf' hslots', .inr ⟨n, hn, hfd', rfl⟩⟩
      · -- with the first frame, whose mapping comes to nothing
        exact ⟨away_putFrame (k := { k.opened n hn s with signals := s'' }) hfree, d'',
          (hfam.putFrame (by rfl) h0 hne hfree).ok h.ne_null hbuf' hslots',
            .inr ⟨n, hn, hfd', rfl⟩⟩

/-- A device is freed where its descriptor is open, and else nothing changes. -/
theorem free_ends (D : Driver) (stop : Sys → Prop) (h : DeviceOk k p d) :
    Ends (sem D) stop (fun r k' => (k.fds.file d.fd = none ∧ r = -1 ∧ k' = k) ∨
      (k.fds.file d.fd ≠ none ∧ r = 0 ∧ k'.fds = k.fds.close d.fd ∧ Away p k k'))
        (tallocFree p) k := by
  obtain ⟨a, cs, pc, hfam⟩ := h.family
  have hk : k.put p a cs d = k := setChunk_same hfam.device
  have hends :
      Ends (sem D) stop (fun r k' => (k.fds.file d.fd = none ∧ r = -1 ∧ k' = k.put p a cs d) ∨
      (k.fds.file d.fd ≠ none ∧ r = 0 ∧ Freed (k.put p a cs d) p a pc cs d.fd k'))
        (tallocFree p)
      (k.put p a cs d) :=
    freeDevice_ends h.ne_null hfam.server_ne hfam.server (hk.symm ▸ hfam.frames) hfam.nodup
      hfam.server_notMem
  rw [hk] at hends
  refine hends.mono fun r k' hfree => ?_
  rcases hfree with hfree | ⟨hfd, rfl, hfreed⟩
  · exact .inl hfree
  · refine .inr ⟨hfd, rfl, hfreed.fds, fun q c hq hc hframe => ?_⟩
    -- only frames go with the device
    have hqcs : q ∉ cs := by
      intro hqcs
      obtain ⟨-, x, hx⟩ := hfam.frames q hqcs
      rw [hc] at hx
      exact hframe x (Option.some.inj hx)
    by_cases hqa : q = a
    · -- the server loses a child
      subst hqa
      obtain rfl : pc = c := Option.some.inj (hfam.server.symm.trans hc)
      exact ⟨fun h => absurd hfam.other h, fun _ => ⟨_, hfreed.parent⟩⟩
    · rw [hfreed.others q hq hqa hqcs]
      exact ⟨fun _ => hc, fun _ => ⟨_, hc⟩⟩

end Machine

/-! ## Open files -/

namespace FdTable

variable {F F' : FdTable} {n f : Nat} {fd : Int}

/-- A number refers to one file. -/
theorem file_unique {x y : Nat × Nat} (hx : x ∈ F.entries) (hy : y ∈ F.entries)
    (h : x.1 = y.1) : x = y :=
  List.inj_on_of_nodup_map F.nodup hx hy h

theorem file_of_mem (h : (n, f) ∈ F.entries) : F.file (n : Int) = some f := by
  cases hfile : F.file (n : Int) with
  | none =>
    have hfind := List.find?_eq_none.1 (Option.map_eq_none_iff.1 hfile) _ h
    exact absurd (decide_eq_true rfl) hfind
  | some g =>
    obtain ⟨m, hm, hg⟩ := mem_of_file hfile
    obtain rfl : n = m := Int.ofNat.inj hm
    exact congrArg some (Prod.ext_iff.1 (file_unique hg h rfl)).2

/-- The files open in `F'` under a number that refers to no such file in `F`. -/
def since (F F' : FdTable) : List Nat :=
  (F'.entries.filter fun x => decide (F.file x.1 ≠ some x.2)).map Prod.snd

theorem since_of_subset (h : ∀ x ∈ F'.entries, x ∈ F.entries) : F.since F' = [] := by
  have hnone : F'.entries.filter (fun x => decide (F.file x.1 ≠ some x.2)) = [] := by
    refine List.filter_eq_nil_iff.2 fun x hx => ?_
    rw [decide_eq_true_iff, not_not]
    exact file_of_mem (h x hx)
  rw [since, hnone]
  rfl

theorem since_open {hn : n ∉ F.entries.map Prod.fst} : F.since (F.open' n hn) = [F.next] := by
  have hnew : F.file n ≠ some F.next := by
    intro h
    obtain ⟨m, -, hm⟩ := mem_of_file h
    exact Nat.lt_irrefl _ (F.fresh _ hm)
  have hold : F.entries.filter (fun x => decide (F.file x.1 ≠ some x.2)) = [] := by
    refine List.filter_eq_nil_iff.2 fun x hx => ?_
    rw [decide_eq_true_iff, not_not]
    exact file_of_mem hx
  have hall : (F.open' n hn).entries.filter (fun x => decide (F.file x.1 ≠ some x.2)) =
      [(n, F.next)] := by
    simp only [open', List.filter_cons, hnew, ne_eq, not_false_eq_true, decide_true, if_true]
    exact congrArg _ hold
  rw [since, hall]
  rfl

theorem mem_close {x : Nat × Nat} :
    x ∈ (F.close fd).entries ↔ x ∈ F.entries ∧ (x.1 : Int) ≠ fd := by
  rw [close, List.mem_filter, decide_eq_true_iff]

/-- Closing a number closes its file. -/
theorem since_close (h : (n, f) ∈ F.entries) : (F.close n).since F = [f] := by
  have hiff : ∀ x ∈ F.entries, decide ((F.close n).file x.1 ≠ some x.2) =
      decide (x = (n, f)) := by
    intro x hx
    rw [decide_eq_decide]
    constructor
    · -- what is left open keeps its file
      intro hne
      by_contra hxn
      have hx1 : (x.1 : Int) ≠ n := fun he => hxn (file_unique hx h (Int.ofNat.inj he))
      exact hne (file_of_mem (mem_close.2 ⟨hx, hx1⟩))
    · rintro rfl hfile
      obtain ⟨m, hm, hmem⟩ := mem_of_file hfile
      exact (mem_close.1 hmem).2 hm.symm
  have hnodup : F.entries.Nodup := F.nodup.of_map
  rw [since, List.filter_congr hiff]
  rw [List.filter_eq, List.count_eq_one_of_mem hnodup h]
  rfl

end FdTable

/-! ## Runs -/

/-- The calls of device.h and `talloc_free` of a device; devices are numbered in the order
    in which they were made. -/
inductive DeviceCall
  | new (server : Nat)
  | setup (i : Nat) (path : String)
  | free (i : Nat)
  deriving DecidableEq, Repr

/-- What happened so far: the pointer of each device, the devices that were set up at
    least once and those still there, and the files that each device's setups opened and
    its freeing closed. -/
structure DeviceLog where
  made : Nat := 0
  ptr : Nat → Nat := fun _ => 0
  live : List Nat := []
  tried : List Nat := []
  opened : List (Nat × Nat) := []
  closed : List (Nat × Nat) := []

namespace DeviceCall

/-- The C code of a call; `av_device_new` returns the pointer. -/
def body (s : DeviceLog) : DeviceCall → C Int
  | .new server => do let p ← avDeviceNew server; return (p : Int)
  | .setup i path => avDeviceSetupFromPath (s.ptr i) path
  | .free i => tallocFree (s.ptr i)

/-- The calls a program may make: with a server, or with a device that is there. -/
def Admitted (s : DeviceLog) (k : Machine) : DeviceCall → Prop
  | .new server => ∃ c, k.chunks server = some c ∧ c.body = .other
  | .setup i _ => i ∈ s.live
  | .free i => i ∈ s.live

/-- What is logged after the call returned `r`. -/
def log (s : DeviceLog) (k k' : Machine) (r : Int) : DeviceCall → DeviceLog
  | .new _ => { s with
      made := s.made + 1, ptr := Function.update s.ptr s.made r.toNat, live := s.made :: s.live }
  | .setup i _ => { s with
      tried := i :: s.tried, opened := (k.fds.since k'.fds).map (i, ·) ++ s.opened }
  | .free i => { s with
      live := if r = 0 then s.live.erase i else s.live
      closed := (k'.fds.since k.fds).map (i, ·) ++ s.closed }

/-- No device is set up while it holds an open descriptor, and none is freed before its
    first setup while descriptor 0 is open. -/
def Careful (s : DeviceLog) (k : Machine) : DeviceCall → Prop
  | .new _ => True
  | .setup i _ => ∀ f, (i, f) ∈ s.opened → (i, f) ∈ s.closed
  | .free i => i ∈ s.tried ∨ k.fds.file 0 = none

end DeviceCall

/-- A run of calls that all meet `ok`, each with the driver it met. -/
inductive DeviceRun (ok : DeviceLog → Machine → DeviceCall → Prop) (k₀ : Machine) :
    DeviceLog → Machine → Prop
  | start : DeviceRun ok k₀ {} k₀
  | call {s : DeviceLog} {k k' : Machine} {D : Driver} {r : Int} (c : DeviceCall) :
      DeviceRun ok k₀ s k → c.Admitted s k → ok s k c →
      Exec (Machine.sem D) (c.body s) k r k' → DeviceRun ok k₀ (c.log s k k' r) k'

/-- Devices own their descriptors: freeing a device closes only what a setup of that device
    opened, what was open before stays open, and what the setups of devices that are gone
    opened has been closed once. -/
structure Owned (k₀ : Machine) (s : DeviceLog) (k : Machine) : Prop where
  own : ∀ x ∈ s.closed, x ∈ s.opened
  elsewhere : ∀ x ∈ k₀.fds.entries, x ∈ k.fds.entries
  once : ∀ x ∈ s.opened, x.1 ∉ s.live → (s.closed.map Prod.snd).count x.2 = 1
  still : (s.closed.map Prod.snd).Nodup

/-! ## The invariant -/

/-- What device `i` holds: nothing before its first setup and after a path that did not
    open, else the one file its setup opened. -/
def Held (s : DeviceLog) (k : Machine) (i : Nat) (d : AvDevice) : Prop :=
  ((∀ f, (i, f) ∉ s.opened) ∧ ((i ∉ s.tried ∧ d.fd = 0) ∨ d.fd = -1)) ∨
  ∃ n f : Nat, d.fd = n ∧ (n, f) ∈ k.fds.entries ∧ (i, f) ∈ s.opened ∧
    ∀ f', (i, f') ∈ s.opened → f' = f

structure DeviceInv (k₀ : Machine) (s : DeviceLog) (k : Machine) : Prop where
  live_lt : ∀ i ∈ s.live, i < s.made
  tried_lt : ∀ i ∈ s.tried, i < s.made
  opened_lt : ∀ x ∈ s.opened, x.1 < s.made
  live_nodup : s.live.Nodup
  ptr_inj : ∀ i ∈ s.live, ∀ j ∈ s.live, s.ptr i = s.ptr j → i = j
  devices : ∀ i ∈ s.live, ∃ d, k.DeviceOk (s.ptr i) d ∧ Held s k i d
  next_le : k₀.fds.next ≤ k.fds.next
  opened_new : ∀ x ∈ s.opened, k₀.fds.next ≤ x.2 ∧ x.2 < k.fds.next
  opened_nodup : (s.opened.map Prod.snd).Nodup
  closed_sub : ∀ x ∈ s.closed, x ∈ s.opened
  closed_nodup : s.closed.Nodup
  closed_iff : ∀ x ∈ s.opened, x ∈ s.closed ↔ x.1 ∉ s.live
  elsewhere : ∀ x ∈ k₀.fds.entries, x ∈ k.fds.entries

namespace DeviceInv

variable {k₀ k k' : Machine} {s : DeviceLog} {i : Nat} {d : AvDevice}

theorem owned (hI : DeviceInv k₀ s k) : Owned k₀ s k where
  own := hI.closed_sub
  elsewhere := hI.elsewhere
  once := fun x hx hgone => by
    have hmem : x.2 ∈ s.closed.map Prod.snd := List.mem_map_of_mem ((hI.closed_iff x hx).2 hgone)
    refine List.count_eq_one_of_mem ?_ hmem
    exact hI.closed_nodup.map_on fun x hx y hy h =>
      List.inj_on_of_nodup_map hI.opened_nodup (hI.closed_sub x hx) (hI.closed_sub y hy) h
  still := hI.closed_nodup.map_on fun x hx y hy h =>
    List.inj_on_of_nodup_map hI.opened_nodup (hI.closed_sub x hx) (hI.closed_sub y hy) h

theorem start (k₀ : Machine) : DeviceInv k₀ {} k₀ where
  live_lt := nofun
  tried_lt := nofun
  opened_lt := nofun
  live_nodup := .nil
  ptr_inj := nofun
  devices := nofun
  next_le := Nat.le_refl _
  opened_new := nofun
  opened_nodup := .nil
  closed_sub := nofun
  closed_nodup := .nil
  closed_iff := nofun
  elsewhere := fun _ => id

/-- The devices other than the one a call is about, in a log that says the same of them. -/
theorem others {s' : DeviceLog} (hI : DeviceInv k₀ s k) {j : Nat} {p : Nat} (hj : j ∈ s.live)
    (hp : s.ptr j ≠ p) (hapart : k.Apart p) (ha : Machine.Away p k k')
    (hptr : s'.ptr j = s.ptr j) (htried : j ∈ s'.tried ↔ j ∈ s.tried)
    (hopened : ∀ f, (j, f) ∈ s'.opened ↔ (j, f) ∈ s.opened)
    (hfds : ∀ n f, (n, f) ∈ k.fds.entries → (j, f) ∈ s.opened →
      (n, f) ∈ k'.fds.entries) :
    ∃ d, k'.DeviceOk (s'.ptr j) d ∧ Held s' k' j d := by
  obtain ⟨d, hok, hheld⟩ := hI.devices j hj
  refine ⟨d, hptr.symm ▸ hok.away hp hapart ha, ?_⟩
  rcases hheld with ⟨hno, hfd⟩ | ⟨n, f, hfd, hn, hf, huniq⟩
  · exact .inl ⟨fun f hf => hno f ((hopened f).1 hf),
      hfd.imp_left fun h => ⟨fun ht => h.1 (htried.1 ht), h.2⟩⟩
  · exact .inr ⟨n, f, hfd, hfds n f hn hf, (hopened f).2 hf,
      fun f' hf' => huniq f' ((hopened f').1 hf')⟩

/-- `av_device_new`. -/
theorem new {server p : Nat} (hI : DeviceInv k₀ s k) (hfds : k'.fds = k.fds)
    (hp : k.chunks p = none) (ha : Machine.Away p k k') (hok : k'.DeviceOk p {}) :
    DeviceInv k₀ ((DeviceCall.new server).log s k k' p) k' := by
  have hfresh : s.made ∉ s.live := fun h => Nat.lt_irrefl _ (hI.live_lt _ h)
  have hpne : ∀ j ∈ s.live, s.ptr j ≠ p := by
    rintro j hj rfl
    obtain ⟨d, hd, -⟩ := hI.devices j hj
    obtain ⟨a, cs, pc, hc, -⟩ := hd.chunk
    rw [hp] at hc
    cases hc
  have hself : Function.update s.ptr s.made (p : Int).toNat s.made = p := by
    rw [Function.update_self, Int.toNat_natCast]
  have hother : ∀ j ∈ s.live, Function.update s.ptr s.made (p : Int).toNat j = s.ptr j :=
    fun j hj => Function.update_of_ne (hI.live_lt j hj).ne ..
  exact
    { live_lt := fun i hi => by
        rcases List.mem_cons.1 hi with rfl | hi
        · exact Nat.lt_succ_self _
        · exact Nat.lt_succ_of_lt (hI.live_lt i hi)
      tried_lt := fun i hi => Nat.lt_succ_of_lt (hI.tried_lt i hi)
      opened_lt := fun x hx => Nat.lt_succ_of_lt (hI.opened_lt x hx)
      live_nodup := List.nodup_cons.2 ⟨hfresh, hI.live_nodup⟩
      ptr_inj := fun i hi j hj hij => by
        -- the chunk of the new device was free, those of the others were not
        change Function.update s.ptr s.made (p : Int).toNat i =
          Function.update s.ptr s.made (p : Int).toNat j at hij
        rcases List.mem_cons.1 hi with rfl | hi <;> rcases List.mem_cons.1 hj with rfl | hj
        · rfl
        · rw [hself, hother j hj] at hij
          exact absurd hij.symm (hpne j hj)
        · rw [hself, hother i hi] at hij
          exact absurd hij (hpne i hi)
        · rw [hother i hi, hother j hj] at hij
          exact hI.ptr_inj i hi j hj hij
      devices := fun i hi => by
        rcases List.mem_cons.1 hi with rfl | hi
        · have hptr : ((DeviceCall.new server).log s k k' p).ptr s.made = p := hself
          refine ⟨{}, hptr.symm ▸ hok, .inl ⟨fun f hf => ?_, .inl ⟨fun ht => ?_, rfl⟩⟩⟩
          · exact Nat.lt_irrefl _ (hI.opened_lt _ hf)
          · exact Nat.lt_irrefl _ (hI.tried_lt _ ht)
        · refine hI.others hi (hpne i hi) (fun c hc => ?_) ha (hother i hi) .rfl (fun _ => .rfl)
            fun n f hn _ => hfds ▸ hn
          rw [hp] at hc
          cases hc
      next_le := hfds ▸ hI.next_le
      opened_new := hfds ▸ hI.opened_new
      opened_nodup := hI.opened_nodup
      closed_sub := hI.closed_sub
      closed_nodup := hI.closed_nodup
      closed_iff := fun x hx => by
        have hne : x.1 ≠ s.made := (hI.opened_lt x hx).ne
        refine (hI.closed_iff x hx).trans (not_congr ⟨List.mem_cons_of_mem _, fun h => ?_⟩)
        exact (List.mem_cons.1 h).resolve_left hne
      elsewhere := hfds ▸ hI.elsewhere }

theorem ptr_ne {j : Nat} (hI : DeviceInv k₀ s k) (hi : i ∈ s.live) (hj : j ∈ s.live)
    (hne : j ≠ i) :
    s.ptr j ≠ s.ptr i := fun h => hne (hI.ptr_inj j hj i hi h)

theorem tried_cons_lt (hI : DeviceInv k₀ s k) (hi : i ∈ s.live) :
    ∀ j ∈ i :: s.tried, j < s.made := by
  intro j hj
  rcases List.mem_cons.1 hj with rfl | hj
  · exact hI.live_lt _ hi
  · exact hI.tried_lt j hj

theorem mem_tried_cons {j : Nat} (hne : j ≠ i) : j ∈ i :: s.tried ↔ j ∈ s.tried :=
  ⟨fun h => (List.mem_cons.1 h).resolve_left hne, List.mem_cons_of_mem _⟩

/-- A setup of a device that holds nothing, with a path that does not open. -/
theorem missed (hI : DeviceInv k₀ s k) (hi : i ∈ s.live) (hnone : ∀ f, (i, f) ∉ s.opened)
    (hapart : k.Apart (s.ptr i)) (ha : Machine.Away (s.ptr i) k k')
    (hok : k'.DeviceOk (s.ptr i) d) (hfd : d.fd = -1) (hfds : k'.fds = k.fds) :
    DeviceInv k₀ { s with tried := i :: s.tried } k' where
  live_lt := hI.live_lt
  tried_lt := hI.tried_cons_lt hi
  opened_lt := hI.opened_lt
  live_nodup := hI.live_nodup
  ptr_inj := hI.ptr_inj
  devices := fun j hj => by
    by_cases hji : j = i
    · subst hji
      exact ⟨d, hok, .inl ⟨hnone, .inr hfd⟩⟩
    · exact hI.others hj (hI.ptr_ne hi hj hji) hapart ha rfl (mem_tried_cons hji) (fun _ => .rfl)
        fun n f hn _ => hfds ▸ hn
  next_le := hfds ▸ hI.next_le
  opened_new := hfds ▸ hI.opened_new
  opened_nodup := hI.opened_nodup
  closed_sub := hI.closed_sub
  closed_nodup := hI.closed_nodup
  closed_iff := hI.closed_iff
  elsewhere := hfds ▸ hI.elsewhere

/-- A setup of a device that holds nothing, with a path that opens. -/
theorem opened {n : Nat} {hn : n ∉ k.fds.entries.map Prod.fst} (hI : DeviceInv k₀ s k)
    (hi : i ∈ s.live) (hnone : ∀ f, (i, f) ∉ s.opened) (hapart : k.Apart (s.ptr i))
    (ha : Machine.Away (s.ptr i) k k') (hok : k'.DeviceOk (s.ptr i) d) (hfd : d.fd = n)
    (hfds : k'.fds = k.fds.open' n hn) :
    DeviceInv k₀ { s with tried := i :: s.tried, opened := (i, k.fds.next) :: s.opened } k' := by
  have hold : ∀ x ∈ k.fds.entries, x ∈ k'.fds.entries :=
    fun x hx => hfds ▸ List.mem_cons_of_mem _ hx
  have hnext : k'.fds.next = k.fds.next + 1 := by rw [hfds]; rfl
  exact
    { live_lt := hI.live_lt
      tried_lt := hI.tried_cons_lt hi
      opened_lt := fun x hx => by
        rcases List.mem_cons.1 hx with rfl | hx
        · exact hI.live_lt i hi
        · exact hI.opened_lt x hx
      live_nodup := hI.live_nodup
      ptr_inj := hI.ptr_inj
      devices := fun j hj => by
        by_cases hji : j = i
        · subst hji
          refine ⟨d, hok, .inr ⟨n, k.fds.next, hfd, ?_, List.mem_cons_self .., fun f hf => ?_⟩⟩
          · rw [hfds]
            exact List.mem_cons_self ..
          · rcases List.mem_cons.1 hf with hf | hf
            · exact (Prod.ext_iff.1 hf).2
            · exact absurd hf (hnone f)
        · refine hI.others hj (hI.ptr_ne hi hj hji) hapart ha rfl (mem_tried_cons hji)
            (fun f => ?_) fun n f hn _ => hold _ hn
          exact ⟨fun h => (List.mem_cons.1 h).resolve_left fun h => hji (Prod.ext_iff.1 h).1,
            List.mem_cons_of_mem _⟩
      next_le := hnext ▸ Nat.le_succ_of_le hI.next_le
      opened_new := fun x hx => by
        rw [hnext]
        rcases List.mem_cons.1 hx with rfl | hx
        · exact ⟨hI.next_le, Nat.lt_succ_self _⟩
        · exact ⟨(hI.opened_new x hx).1, Nat.lt_succ_of_lt (hI.opened_new x hx).2⟩
      opened_nodup := by
        -- files are numbered upwards, so this one is none of the earlier
        refine List.nodup_cons.2 ⟨fun h => ?_, hI.opened_nodup⟩
        obtain ⟨x, hx, hxn⟩ := List.mem_map.1 h
        exact Nat.lt_irrefl _ (hxn ▸ (hI.opened_new x hx).2)
      closed_sub := fun x hx => List.mem_cons_of_mem _ (hI.closed_sub x hx)
      closed_nodup := hI.closed_nodup
      closed_iff := fun x hx => by
        rcases List.mem_cons.1 hx with rfl | hx
        · exact ⟨fun h => absurd (hI.closed_sub _ h) (hnone _), fun h => absurd hi h⟩
        · exact hI.closed_iff x hx
      elsewhere := fun x hx => hold x (hI.elsewhere x hx) }

/-- `av_device_setup_from_path` of a device that holds nothing. -/
theorem setup {D : Driver} {path : String} {r : Int} (hI : DeviceInv k₀ s k) (hi : i ∈ s.live)
    (hfree : ∀ f, (i, f) ∈ s.opened → (i, f) ∈ s.closed)
    (hset : Machine.SetAgain D path k (s.ptr i) k') :
    DeviceInv k₀ ((DeviceCall.setup i path).log s k k' r) k' := by
  obtain ⟨ha, d', hok, hcase⟩ := hset
  obtain ⟨d, hd, -⟩ := hI.devices i hi
  -- what is closed belongs to devices that are gone, so nothing was opened at all
  have hnone : ∀ f, (i, f) ∉ s.opened := fun f hf => (hI.closed_iff _ hf).1 (hfree f hf) hi
  rcases hcase with ⟨-, hfd, hfds⟩ | ⟨n, hn, hfd, hfds⟩
  · have hsince : k.fds.since k'.fds = [] := FdTable.since_of_subset fun x hx => hfds ▸ hx
    simp only [DeviceCall.log, hsince, List.map_nil, List.nil_append]
    exact hI.missed hi hnone hd.apart ha hok hfd hfds
  · simp only [DeviceCall.log, hfds, FdTable.since_open, List.map_cons, List.map_nil,
      List.cons_append, List.nil_append]
    exact hI.opened hi hnone hd.apart ha hok hfd hfds

/-- `talloc_free` of a device whose descriptor is not open. -/
theorem refused (hI : DeviceInv k₀ s k) :
    DeviceInv k₀ ((DeviceCall.free i).log s k k (-1)) k := by
  have hlog : (DeviceCall.free i).log s k k (-1) = s := by
    have hsince : k.fds.since k.fds = [] := FdTable.since_of_subset fun _ => id
    simp only [DeviceCall.log, hsince, List.map_nil, List.nil_append]
    rfl
  rwa [hlog]

/-- `talloc_free` of a device whose descriptor is open: the one its setup opened. -/
theorem freed (hI : DeviceInv k₀ s k) (hi : i ∈ s.live)
    (hcare : i ∈ s.tried ∨ k.fds.file 0 = none) (hd : k.DeviceOk (s.ptr i) d)
    (hheld : Held s k i d) (hfd : k.fds.file d.fd ≠ none) (hfds : k'.fds = k.fds.close d.fd)
    (ha : Machine.Away (s.ptr i) k k') :
    DeviceInv k₀ ((DeviceCall.free i).log s k k' 0) k' := by
  rcases hheld with ⟨-, ⟨htried, h0⟩ | hneg⟩ | ⟨n, f, hdn, hn, hf, huniq⟩
  · rw [h0] at hfd
    exact absurd (hcare.resolve_left htried) hfd
  · rw [hneg] at hfd
    exact absurd (Machine.file_neg _) hfd
  rw [hdn] at hfds
  have hsince : k'.fds.since k.fds = [f] := hfds ▸ FdTable.since_close hn
  have hlog : (DeviceCall.free i).log s k k' 0 =
      { s with live := s.live.erase i, closed := (i, f) :: s.closed } := by
    simp only [DeviceCall.log, hsince, List.map_cons, List.map_nil, List.cons_append,
      List.nil_append, if_true]
  have hsub : ∀ j ∈ s.live.erase i, j ∈ s.live := fun j => List.mem_of_mem_erase
  have hne : ∀ j ∈ s.live.erase i, j ≠ i := by
    rintro j hj rfl
    exact List.Nodup.not_mem_erase hI.live_nodup hj
  -- the only entry under the number `n` is the file of this device
  have hkeep : ∀ x ∈ k.fds.entries, x.2 ≠ f → x ∈ k'.fds.entries := by
    intro x hx hxf
    rw [hfds, FdTable.mem_close]
    refine ⟨hx, fun h => hxf ?_⟩
    rw [FdTable.file_unique hx hn (Int.ofNat.inj h)]
  have hnext : k'.fds.next = k.fds.next := by rw [hfds]; rfl
  have hopened : ∀ x ∈ s.opened, x.2 = f → x = (i, f) := fun x hx hxf =>
    List.inj_on_of_nodup_map hI.opened_nodup hx hf hxf
  rw [hlog]
  exact
    { live_lt := fun j hj => hI.live_lt j (hsub j hj)
      tried_lt := hI.tried_lt
      opened_lt := hI.opened_lt
      live_nodup := hI.live_nodup.erase i
      ptr_inj := fun j hj l hl => hI.ptr_inj j (hsub j hj) l (hsub l hl)
      devices := fun j hj => by
        have hptr := hI.ptr_ne hi (hsub j hj) (hne j hj)
        refine hI.others (hsub j hj) hptr hd.apart ha rfl .rfl (fun _ => .rfl) fun m g hm hg => ?_
        refine hkeep _ hm fun hgf => hne j hj ?_
        exact (Prod.ext_iff.1 (hopened _ hg hgf)).1
      next_le := hnext ▸ hI.next_le
      opened_new := hnext ▸ hI.opened_new
      opened_nodup := hI.opened_nodup
      closed_sub := fun x hx => by
        rcases List.mem_cons.1 hx with rfl | hx
        · exact hf
        · exact hI.closed_sub x hx
      closed_nodup := List.nodup_cons.2 ⟨fun h => (hI.closed_iff _ hf).1 h hi, hI.closed_nodup⟩
      closed_iff := fun x hx => by
        by_cases hxi : x = (i, f)
        · subst hxi
          exact ⟨fun _ => List.Nodup.not_mem_erase hI.live_nodup,
            fun _ => List.mem_cons_self ..⟩
        · have hx1 : x.1 ≠ i := by
            intro h
            refine hxi (Prod.ext h (huniq x.2 ?_))
            rwa [← h]
          rw [List.mem_cons, or_iff_right hxi, hI.closed_iff x hx, List.mem_erase_of_ne hx1]
      elsewhere := fun x hx => by
        -- the file is younger than the run
        refine hkeep x (hI.elsewhere x hx) fun hxf => ?_
        have hlt := k₀.fds.fresh x hx
        rw [hxf] at hlt
        exact Nat.lt_irrefl _ (hlt.trans_le (hI.opened_new _ hf).1) }

/-- Every call of a careful run keeps the invariant. -/
theorem call {D : Driver} {c : DeviceCall} {r : Int} (hI : DeviceInv k₀ s k)
    (hadm : c.Admitted s k) (hcare : c.Careful s k) (he : Exec (Machine.sem D) (c.body s) k r k') :
    DeviceInv k₀ (c.log s k k' r) k' := by
  cases c with
  | new server =>
    obtain ⟨c, hs, hc⟩ := hadm
    have hends := Machine.new_ends D (fun _ => False) hs hc
    obtain ⟨p, rfl, hfds, hp, ha, hok⟩ := hends.exec he
    exact hI.new hfds hp ha hok
  | setup i path =>
    obtain ⟨d, hd, -⟩ := hI.devices i hadm
    exact hI.setup hadm hcare
      ((Machine.setAgain_ends path hd (.inl (rfl : Sys.abort = .abort))).exec he)
  | free i =>
    obtain ⟨d, hd, hheld⟩ := hI.devices i hadm
    have hends := Machine.free_ends D (fun _ => False) hd
    rcases hends.exec he with ⟨-, rfl, rfl⟩ | ⟨hfd, rfl, hfds, ha⟩
    · exact hI.refused
    · exact hI.freed hadm hcare hd hheld hfd hfds ha

theorem run (h : DeviceRun DeviceCall.Careful k₀ s k) : DeviceInv k₀ s k := by
  induction h with
  | start => exact .start k₀
  | call c _ hadm hok he ih => exact ih.call hadm hok he

end DeviceInv

/-- **Devices own their descriptors**, in every run in which no device is set up while it
    holds an open descriptor and none is freed before its first setup while descriptor 0
    is open. -/
theorem devices_own {k₀ k : Machine} {s : DeviceLog} (h : DeviceRun DeviceCall.Careful k₀ s k) :
    Owned k₀ s k := (DeviceInv.run h).owned

/-! ## Runs with one device -/

namespace DeviceRun

variable {ok : DeviceLog → Machine → DeviceCall → Prop} {k₀ k : Machine} {s : DeviceLog}
    {d : AvDevice}

/-- A first device. -/
theorem new_one (ok : DeviceLog → Machine → DeviceCall → Prop) {server : Nat} {c : Chunk}
    (hs : k₀.chunks server = some c) (hc : c.body = .other) (hok : ok {} k₀ (.new server)) :
    ∃ k s, DeviceRun ok k₀ s k ∧ s.live = [0] ∧ s.tried = [] ∧
      s.opened = [] ∧ s.closed = [] ∧ k.DeviceOk (s.ptr 0) {} ∧ k.fds = k₀.fds := by
  obtain ⟨_, k, he, p, rfl, hfds, -, -, hd⟩ :=
    (Machine.new_ends demoDeaf (fun _ => False) hs hc).exists_exec fun _ => id
  refine ⟨k, _, .call (.new server) .start ⟨c, hs, hc⟩ hok he, rfl, rfl, rfl, rfl, ?_, hfds⟩
  exact hd

/-- A setup whose path opens, and which no camera answers. -/
theorem setup_one (h : DeviceRun ok k₀ s k) (hl : s.live = [0]) (hd : k.DeviceOk (s.ptr 0) d)
    (hok : ok s k (.setup 0 "/dev/null")) :
    ∃ k' s' d' n, DeviceRun ok k₀ s' k' ∧ s'.live = [0] ∧
      s'.tried = 0 :: s.tried ∧ s'.opened = (0, k.fds.next) :: s.opened ∧
      s'.closed = s.closed ∧
      k'.DeviceOk (s'.ptr 0) d' ∧ d'.fd = (n : Nat) ∧ (n, k.fds.next) ∈ k'.fds.entries ∧
      k'.fds.next = k.fds.next + 1 := by
  have hcount : ∀ rb rb', demoDeaf.answers (.reqbufs rb) (.ok rb') = true → 2 < rb'.count :=
    fun _ _ h => Bool.noConfusion h
  have hends : Ends (Machine.sem demoDeaf) (fun _ => False)
      (fun _ k' => Machine.SetAgain demoDeaf "/dev/null" k
      (s.ptr 0) k') (avDeviceSetupFromPath (s.ptr 0) "/dev/null") k :=
    Machine.setAgain_ends "/dev/null" hd (.inr hcount)
  obtain ⟨_, k', he, -, d', hd', hcase⟩ := hends.exists_exec fun _ => id
  have hlive : 0 ∈ s.live := hl ▸ List.mem_singleton_self 0
  obtain ⟨hno, -⟩ | ⟨n, hn, hfd, hfds⟩ := hcase
  · cases hno
  · refine ⟨k', _, d', n, .call (.setup 0 "/dev/null") h hlive hok he, hl, rfl, ?_,
      rfl, hd', hfd, hfds ▸ List.mem_cons_self .., by rw [hfds]; rfl⟩
    simp only [DeviceCall.log, hfds, FdTable.since_open]
    rfl

/-- Freeing it where its descriptor is open. -/
theorem free_one {n f : Nat} (h : DeviceRun ok k₀ s k) (hl : s.live = [0])
    (hd : k.DeviceOk (s.ptr 0) d) (hfd : d.fd = n) (hn : (n, f) ∈ k.fds.entries)
    (hok : ok s k (.free 0)) :
    ∃ k' s', DeviceRun ok k₀ s' k' ∧ s'.live = [] ∧ s'.opened = s.opened ∧
      s'.closed = (0, f) :: s.closed ∧ k'.fds = k.fds.close n := by
  obtain ⟨r, k', he, hcase⟩ := (Machine.free_ends demoDeaf (fun _ => False) hd).exists_exec
    fun _ => id
  have hlive : 0 ∈ s.live := hl ▸ List.mem_singleton_self 0
  rcases hcase with ⟨hnone, -⟩ | ⟨-, rfl, hfds, -⟩
  · rw [hfd] at hnone
    rw [FdTable.file_of_mem hn] at hnone
    cases hnone
  · rw [hfd] at hfds
    refine ⟨k', _, .call (.free 0) h hlive hok he, ?_, rfl, ?_, hfds⟩
    · simp only [DeviceCall.log, hl]
      rfl
    · simp only [DeviceCall.log, hfds, FdTable.since_close hn]
      rfl

end DeviceRun

/-- A device that is set up once and freed. -/
theorem devices_own_demo : ∃ s k, DeviceRun DeviceCall.Careful demoMachine s k ∧ s.live = [] ∧
    s.opened = [(0, 3)] ∧ Owned demoMachine s k := by
  have hs : demoMachine.chunks 1 = some ⟨0, [], none, .other⟩ := rfl
  obtain ⟨k₁, s₁, h₁, hl₁, ht₁, ho₁, -, hd₁, hf₁⟩ :=
    DeviceRun.new_one DeviceCall.Careful hs rfl trivial
  have hcare : DeviceCall.Careful s₁ k₁ (.setup 0 "/dev/null") := fun f hf => by
    rw [ho₁] at hf
    cases hf
  obtain ⟨k₂, s₂, d, n, h₂, hl₂, ht₂, ho₂, -, hd₂, hfd, hn, -⟩ :=
    h₁.setup_one hl₁ hd₁ hcare
  have htried : 0 ∈ s₂.tried := ht₂ ▸ List.mem_cons_self ..
  obtain ⟨k₃, s₃, h₃, hl₃, ho₃, -⟩ := h₂.free_one hl₂ hd₂ hfd hn (.inl htried)
  refine ⟨s₃, k₃, h₃, hl₃, ?_, devices_own h₃⟩
  rw [ho₃, ho₂, ho₁, hf₁]
  rfl

/-- A device that is freed without a setup closes descriptor 0; one that is set up twice
    and freed leaves its first descriptor open. -/
theorem descriptors_lost :
    (∃ s k, DeviceRun (fun _ _ _ => True) demoMachine s k ∧ s.opened = [] ∧
      (0, 0) ∈ demoMachine.fds.entries ∧ (0, 0) ∉ k.fds.entries ∧
        ¬ Owned demoMachine s k) ∧
    ∃ s k, DeviceRun (fun _ _ _ => True) demoMachine s k ∧ s.live = [] ∧
      (0, 3) ∈ s.opened ∧ (0, 3) ∉ s.closed ∧ ¬ Owned demoMachine s k := by
  have hs : demoMachine.chunks 1 = some ⟨0, [], none, .other⟩ := rfl
  obtain ⟨k₁, s₁, h₁, hl₁, ht₁, ho₁, hc₁, hd₁, hf₁⟩ :=
    DeviceRun.new_one (fun _ _ _ => True) hs rfl trivial
  constructor
  · -- the zeroed `fd` of a new device is standard input
    have h0 : (0, 0) ∈ k₁.fds.entries := hf₁ ▸ List.mem_cons_self ..
    obtain ⟨k₂, s₂, h₂, -, ho₂, -, hf₂⟩ := h₁.free_one hl₁ hd₁ rfl h0 trivial
    have hgone : (0, 0) ∉ k₂.fds.entries := by
      rw [hf₂, FdTable.mem_close]
      exact fun h => h.2 rfl
    exact ⟨s₂, k₂, h₂, ho₂.trans ho₁, List.mem_cons_self .., hgone,
      fun h => hgone (h.elsewhere _ (List.mem_cons_self ..))⟩
  · obtain ⟨k₂, s₂, d₂, n₂, h₂, hl₂, -, ho₂, hc₂, hd₂, -, -, hnext⟩ :=
      h₁.setup_one hl₁ hd₁ trivial
    obtain ⟨k₃, s₃, d₃, n₃, h₃, hl₃, -, ho₃, hc₃, hd₃, hfd₃, hn₃, -⟩ :=
      h₂.setup_one hl₂ hd₂ trivial
    obtain ⟨k₄, s₄, h₄, hl₄, ho₄, hc₄, -⟩ :=
      h₃.free_one hl₃ hd₃ hfd₃ hn₃ trivial
    -- the second setup has put file 4 in the place of file 3
    have hopened : (0, 3) ∈ s₄.opened := by
      rw [ho₄, ho₃, ho₂, hf₁]
      exact List.mem_cons_of_mem _ (List.mem_cons_self ..)
    have hclosed : s₄.closed = [(0, 4)] := by
      rw [hc₄, hc₃, hc₂, hc₁, hnext, hf₁]
      rfl
    refine ⟨s₄, k₄, h₄, hl₄, hopened, ?_, fun h => ?_⟩
    · rw [hclosed]
      decide
    · have hone := h.once _ hopened (hl₄ ▸ List.not_mem_nil)
      rw [hclosed] at hone
      exact absurd hone (by decide)

end AnekVideo
